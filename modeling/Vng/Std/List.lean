import Vng.Lib.Chain
import Vng.Lib.Machine

/-!
# `iot::std::List`

The doubly linked list of `stdlist.h`, over a heap of its nodes, and the sequence that it stands
for. The allocator may give any address where no node lives; a node that `remove` takes out of the
list stays in the heap.
-/

namespace Vng
namespace StdList

open Chain (Heap Linked addresses first last last_append_singleton not_mem_of_nodup nodup_without
  read setNext setPrevious)
open Memory (Checked Succeeds ok_bind bind_eq_ok_iff)

variable {Item : Type} {w : ℕ}

/-- `List<Item, Size>`, with a `Size` of `w` bits. -/
structure State (Item : Type) (w : ℕ) where
  heap : Heap Item
  head : Option ℕ
  tail : Option ℕ
  size : BitVec w

def empty : State Item w := ⟨∅, none, none, 0⟩

/-- `enqueue`, with the address of the new node. -/
def enqueue (s : State Item w) (node : ℕ) (item : Item) : Checked (State Item w) :=
  let heap := s.heap.insert node ⟨item, none, none⟩
  if s.head = none ∧ s.tail = none then
    .ok { heap := heap, head := some node, tail := some node, size := s.size + 1 }
  else do
    let heap ← setNext heap s.tail (some node)
    let heap ← setPrevious heap (some node) s.tail
    return { s with heap := heap, tail := some node, size := s.size + 1 }

/-- `delete`. -/
def delete (heap : Heap Item) : (pointer : Option ℕ) → Heap Item
  | none => heap
  | some a => heap.erase a

def dequeue (s : State Item w) : Checked (Item × State Item w) := do
  let head := s.head
  let s ←
    if s.tail = s.head then pure { s with head := none, tail := none }
    else do
      let node ← read s.heap s.head
      let heap ← setPrevious s.heap node.next none
      pure { s with heap := heap, head := node.next }
  let node ← read s.heap head
  return (node.item, { s with heap := delete s.heap head, size := s.size - 1 })

/-- The loop of `clear`, `fuel` more rounds of it. -/
def clearFrom : (fuel : ℕ) → (heap : Heap Item) → (head : Option ℕ) → Checked (Heap Item)
  | 0, _, _ => .error .diverges
  | fuel + 1, heap, head =>
    if head = none then .ok heap
    else do
      let node ← read heap head
      clearFrom fuel (delete heap head) node.next

/-- `clear`: each round deletes a node. -/
def clear (s : State Item w) : Checked (State Item w) := do
  let heap ← clearFrom (s.heap.keys.length + 1) s.heap s.head
  return { heap := heap, head := none, tail := none, size := 0 }

/-- `remove(Node *)`. -/
def remove (s : State Item w) (node : ℕ) : Checked (State Item w) :=
  if s.head = s.tail then
    if s.head ≠ some node then .ok s
    else .ok { s with head := none, tail := none, size := 0 }
  else if some node = s.tail then do
    let tail ← read s.heap s.tail
    let heap ← setNext s.heap tail.previous none
    -- returns before it gets to the size
    return { s with heap := heap, tail := tail.previous }
  else if some node = s.head then do
    let head ← read s.heap s.head
    let heap ← setPrevious s.heap head.next none
    return { s with heap := heap, head := head.next, size := s.size - 1 }
  else do
    let removed ← read s.heap (some node)
    let heap ← setNext s.heap removed.previous removed.next
    let removed ← read heap (some node)
    let heap ← setPrevious heap removed.next removed.previous
    return { s with heap := heap, size := s.size - 1 }

/-! ## `Iterator` -/

/-- `operator ++`. -/
def increment (s : State Item w) (iterator : Option ℕ) : Checked (Option ℕ) := do
  let node ← read s.heap iterator
  return node.next

/-- `operator --`, which goes to the head from the end. -/
def decrement (s : State Item w) (iterator : Option ℕ) : Checked (Option ℕ) :=
  match iterator with
  | some node => do
    let node ← read s.heap (some node)
    return node.previous
  | none => .ok s.head

/-- `operator *`. -/
def deref (s : State Item w) (iterator : Option ℕ) : Checked Item := do
  let node ← read s.heap iterator
  return node.item

/-- `head()`. -/
def front (s : State Item w) : Checked Item := deref s s.head

/-- Walking with `++` up to `end()`. -/
def walk (s : State Item w) : (fuel : ℕ) → (iterator : Option ℕ) → Checked (List Item)
  | 0, _ => .error .diverges
  | fuel + 1, iterator =>
    if iterator = none then .ok []
    else do
      let item ← deref s iterator
      let iterator ← increment s iterator
      let items ← walk s fuel iterator
      return item :: items

/-- Walking with `--` up to `begin()`. -/
def walkBack (s : State Item w) : (fuel : ℕ) → (iterator : Option ℕ) → Checked (List Item)
  | 0, _ => .error .diverges
  | fuel + 1, iterator =>
    if iterator = s.head then .ok []
    else do
      let iterator ← decrement s iterator
      let item ← deref s iterator
      let items ← walkBack s fuel iterator
      return item :: items

/-! ## The sequence -/

inductive Operation (Item : Type)
  | enqueue (node : ℕ) (item : Item)
  | dequeue
  | remove (node : ℕ)
  | clear
deriving DecidableEq, Repr

def apply (s : State Item w) : Operation Item → Checked (State Item w)
  | .enqueue node item => enqueue s node item
  | .dequeue => do
    let (_, s) ← dequeue s
    return s
  | .remove node => remove s node
  | .clear => clear s

/-- The sequence of the elements, each with the address of its node. -/
def next (cells : List (ℕ × Item)) : Operation Item → List (ℕ × Item)
  | .enqueue node item => cells ++ [(node, item)]
  | .dequeue => cells.tail
  | .remove node => cells.filter (·.1 ≠ node)
  | .clear => []

/-- What may be called: a new node is none that lives, there is something to take out, and what is
removed is an element. -/
def Allowed (p : State Item w × List (ℕ × Item)) : Operation Item → Prop
  | .enqueue node _ => node ∉ p.1.heap
  | .dequeue => p.2 ≠ []
  | .remove node => node ∈ addresses p.2
  | .clear => True

instance (p : State Item w × List (ℕ × Item)) (operation : Operation Item) :
    Decidable (Allowed p operation) :=
  match operation with
  | .enqueue node _ => inferInstanceAs (Decidable (node ∉ p.1.heap))
  | .dequeue => decidable_of_iff (p.2.isEmpty = false) (by simp [Allowed])
  | .remove node => inferInstanceAs (Decidable (node ∈ addresses p.2))
  | .clear => .isTrue trivial

/-- The list and its sequence, one call after another. -/
def step (p : State Item w × List (ℕ × Item)) (operation : Operation Item) :
    Option (State Item w × List (ℕ × Item)) :=
  if Allowed p operation then
    match apply p.1 operation with
    | .ok s => some (s, next p.2 operation)
    | .error _ => none
  else none

/-! ## What the representation keeps -/

/-- The cells are linked from the head to the tail. -/
structure Represents (s : State Item w) (cells : List (ℕ × Item)) : Prop where
  linked : Linked s.heap none cells none
  head : s.head = first cells none
  tail : s.tail = last none cells
  nodup : (addresses cells).Nodup

variable {s : State Item w} {cells before after : List (ℕ × Item)} {cell cell' : ℕ × Item}

lemma represents_empty : Represents (empty : State Item w) [] := ⟨trivial, rfl, rfl, List.nodup_nil⟩

lemma Represents.read_cell (h : Represents s (before ++ cell :: after)) :
    read s.heap (some cell.1) = .ok ⟨cell.2, last none before, first after none⟩ :=
  Chain.read_of_lookup (Chain.lookup_of_linked h.linked)

/-- A cell with others behind it is not the tail. -/
lemma Represents.tail_ne (h : Represents s (before ++ cell :: after)) (hne : after ≠ []) :
    s.tail ≠ some cell.1 := by
  obtain ⟨q, after, rfl⟩ := List.exists_cons_of_ne_nil hne
  intro heq
  have hlast : last none (q :: after) = some cell.1 := by
    rw [h.tail, Chain.last_append] at heq
    exact heq
  obtain ⟨before', cell', hcells, hsame⟩ := Chain.last_eq_some hlast
  have hmem : cell' ∈ q :: after := by simp [hcells]
  exact (not_mem_of_nodup h.nodup).2 (hsame ▸ List.mem_map_of_mem hmem)

/-- A cell with others in front of it is not the head. -/
lemma Represents.head_ne (h : Represents s (before ++ cell :: after)) (hne : before ≠ []) :
    s.head ≠ some cell.1 := by
  obtain ⟨p, before, rfl⟩ := List.exists_cons_of_ne_nil hne
  have hhead : s.head = some p.1 := h.head
  rw [hhead]
  intro heq
  have hsame : p.1 = cell.1 := Option.some.inj heq
  exact (not_mem_of_nodup h.nodup).1 (hsame ▸ List.mem_map_of_mem List.mem_cons_self)

/-- The head is the tail only of a list with at most one cell. -/
lemma Represents.head_ne_tail (h : Represents s cells) (hlength : 2 ≤ cells.length) :
    s.head ≠ s.tail := by
  match cells with
  | cell :: cell' :: after =>
    have htail := Represents.tail_ne (show Represents s ([] ++ cell :: cell' :: after) from h)
      (List.cons_ne_nil cell' after)
    rw [h.head]
    exact fun heq => htail heq.symm

lemma Represents.enqueue (h : Represents s cells) {node : ℕ} (hfree : node ∉ s.heap) (item : Item) :
    ∃ s', enqueue s node item = .ok s' ∧ Represents s' (cells ++ [(node, item)]) ∧
      s'.size = s.size + 1 := by
  have hnew : node ∉ addresses cells := fun hmem =>
    hfree (Chain.mem_heap_of_linked h.linked hmem)
  have hnodup : (addresses (cells ++ [(node, item)])).Nodup := by
    rw [addresses, List.map_append, List.nodup_append_comm]
    exact List.nodup_cons.mpr ⟨hnew, h.nodup⟩
  obtain ⟨heap, hheap⟩ : ∃ heap, s.heap.insert node ⟨item, none, none⟩ = heap := ⟨_, rfl⟩
  have hnode : heap.lookup node = some ⟨item, none, none⟩ := hheap ▸ AList.lookup_insert s.heap
  have hsame : Chain.Elsewhere node s.heap heap := hheap ▸ Chain.elsewhere_insert s.heap node _
  unfold StdList.enqueue
  rw [hheap]
  dsimp only
  rcases List.eq_nil_or_concat cells with rfl | ⟨before, cell, rfl⟩
  · rw [if_pos ⟨h.head, h.tail⟩]
    exact ⟨_, rfl, ⟨⟨hnode, trivial⟩, rfl, rfl, hnodup⟩, rfl⟩
  · rw [List.concat_eq_append] at h hnew hnodup ⊢
    have htail : s.tail = some cell.1 := h.tail.trans (last_append_singleton before cell)
    have hne : node ≠ cell.1 := by
      rintro rfl
      simp at hnew
    -- the tail is linked to the new node, and then the new node to the tail
    obtain ⟨heap₁, hset₁, hlinked₁, hsame₁⟩ := Chain.setNext_last (h.linked.elsewhere hsame hnew)
      (not_mem_of_nodup h.nodup).1 (some node)
    have hnode₁ : Linked heap₁ none [(node, item)] none :=
      ⟨(hsame₁ node hne).trans hnode, trivial⟩
    obtain ⟨heap₂, hset₂, hlinked₂, hsame₂⟩ :=
      Chain.setPrevious_first hnode₁ List.not_mem_nil (some cell.1)
    rw [if_neg (by simp [htail]), htail, hset₁, ok_bind, hset₂, ok_bind]
    refine ⟨_, rfl,
      ⟨?_, ?_, (last_append_singleton (before ++ [cell]) (node, item)).symm, hnodup⟩, rfl⟩
    · refine Chain.linked_append.mpr ⟨hlinked₁.elsewhere hsame₂ hnew, ?_⟩
      rw [last_append_singleton]
      exact hlinked₂
    · show s.head = _
      rw [h.head]
      cases before <;> rfl

lemma Represents.dequeue (h : Represents s (cell :: cells)) :
    ∃ s', dequeue s = .ok (cell.2, s') ∧ Represents s' cells ∧ s'.size = s.size - 1 := by
  have hhead : s.head = some cell.1 := h.head
  have hnew : cell.1 ∉ addresses cells := (List.nodup_cons.mp h.nodup).1
  have hread : read s.heap (some cell.1) = .ok ⟨cell.2, none, first cells none⟩ :=
    Chain.read_of_lookup h.linked.1
  unfold StdList.dequeue
  cases cells with
  | nil =>
    have htail : s.tail = s.head := h.tail.trans hhead.symm
    rw [if_pos htail, hhead, pure_bind]
    dsimp only
    rw [hread, ok_bind]
    exact ⟨_, rfl, ⟨trivial, rfl, rfl, List.nodup_nil⟩, rfl⟩
  | cons cell' cells =>
    have hne : ¬ s.tail = s.head := (h.head_ne_tail (by simp)).symm
    obtain ⟨heap₁, hset₁, hlinked₁, hsame₁⟩ :=
      Chain.setPrevious_first h.linked.2 (List.nodup_cons.mp (List.nodup_cons.mp h.nodup).2).1 none
    have hcell : cell.1 ≠ cell'.1 := fun heq => hnew (by simp [heq])
    have hread₁ : read heap₁ (some cell.1) = .ok ⟨cell.2, none, some cell'.1⟩ :=
      Chain.read_of_lookup ((hsame₁ cell.1 hcell).trans h.linked.1)
    rw [if_neg hne, hhead, hread, ok_bind]
    dsimp only [first]
    rw [hset₁, ok_bind, pure_bind]
    dsimp only
    rw [hread₁, ok_bind]
    refine ⟨_, rfl, ⟨?_, rfl, ?_, (List.nodup_cons.mp h.nodup).2⟩, rfl⟩
    · exact hlinked₁.elsewhere (Chain.elsewhere_erase heap₁ cell.1) hnew
    · exact h.tail

lemma Represents.remove_only (h : Represents s [cell]) :
    remove s cell.1 = .ok { s with head := none, tail := none, size := 0 } := by
  have hhead : s.head = some cell.1 := h.head
  unfold StdList.remove
  rw [if_pos (h.head.trans h.tail.symm), if_neg (not_not.mpr hhead)]

/-- The tail goes, and the size stays as it is. -/
lemma Represents.remove_tail (h : Represents s (before ++ [cell', cell])) :
    ∃ s', remove s cell.1 = .ok s' ∧ Represents s' (before ++ [cell']) ∧ s'.size = s.size := by
  have hsplit : before ++ [cell', cell] = (before ++ [cell']) ++ cell :: [] := by simp
  rw [hsplit] at h
  have htail : s.tail = some cell.1 := by rw [h.tail, last_append_singleton]
  have hends : s.head ≠ s.tail := h.head_ne_tail (by simp)
  have hfront := (Chain.linked_append.mp h.linked).1
  have hnodup : (addresses (before ++ [cell'])).Nodup := by simpa using nodup_without h.nodup
  obtain ⟨heap₁, hset₁, hlinked₁, -⟩ :=
    Chain.setNext_last hfront (not_mem_of_nodup hnodup).1 none
  unfold StdList.remove
  rw [if_neg hends, if_pos htail.symm, htail, h.read_cell, ok_bind]
  dsimp only
  rw [last_append_singleton, hset₁, ok_bind]
  refine ⟨_, rfl, ⟨hlinked₁, ?_, (last_append_singleton before cell').symm, hnodup⟩, rfl⟩
  show s.head = _
  rw [h.head]
  cases before <;> rfl

/-- The head goes. -/
lemma Represents.remove_head (h : Represents s (cell :: cell' :: after)) :
    ∃ s', remove s cell.1 = .ok s' ∧ Represents s' (cell' :: after) ∧ s'.size = s.size - 1 := by
  have hhead : s.head = some cell.1 := h.head
  have hread := Represents.read_cell (show Represents s ([] ++ cell :: cell' :: after) from h)
  have hends : s.head ≠ s.tail := h.head_ne_tail (by simp)
  have htail : ¬ some cell.1 = s.tail := fun heq => hends (hhead.trans heq)
  have hnodup := (List.nodup_cons.mp h.nodup).2
  obtain ⟨heap₁, hset₁, hlinked₁, -⟩ :=
    Chain.setPrevious_first h.linked.2 (List.nodup_cons.mp hnodup).1 none
  unfold StdList.remove
  rw [if_neg hends, if_neg htail, if_pos hhead.symm, hhead,
    hread, ok_bind]
  dsimp only [first]
  rw [hset₁, ok_bind]
  exact ⟨_, rfl, ⟨hlinked₁, rfl, h.tail, hnodup⟩, rfl⟩

/-- A cell between two others goes. -/
lemma Represents.remove_middle {p q : ℕ × Item}
    (h : Represents s ((before ++ [p]) ++ cell :: q :: after)) :
    ∃ s', remove s cell.1 = .ok s' ∧ Represents s' ((before ++ [p]) ++ q :: after) ∧
      s'.size = s.size - 1 := by
  have hnodup := nodup_without h.nodup
  have hq := not_mem_of_nodup hnodup
  have hp : p.1 ∉ addresses before ∧ p.1 ∉ addresses (q :: after) :=
    not_mem_of_nodup (by simpa using hnodup)
  have hcell : cell.1 ≠ p.1 := fun heq => (not_mem_of_nodup h.nodup).1 (by simp [heq])
  have hends : s.head ≠ s.tail := h.head_ne_tail (by simp; omega)
  have htail := h.tail_ne (List.cons_ne_nil q after)
  have hhead := h.head_ne (by simp)
  have hread := h.read_cell
  rw [last_append_singleton] at hread
  obtain ⟨hfront, hback⟩ := Chain.linked_append.mp h.linked
  -- the cell in front is linked to the one behind, and then that one to it
  obtain ⟨heap₁, hset₁, hlinked₁, hsame₁⟩ := Chain.setNext_last hfront hp.1 (some q.1)
  have hread₁ : read heap₁ (some cell.1) = .ok ⟨cell.2, some p.1, some q.1⟩ := by
    have hlookup := Chain.lookup_of_linked h.linked
    rw [last_append_singleton] at hlookup
    exact Chain.read_of_lookup ((hsame₁ cell.1 hcell).trans hlookup)
  obtain ⟨heap₂, hset₂, hlinked₂, hsame₂⟩ :=
    Chain.setPrevious_first (hback.2.elsewhere hsame₁ hp.2) hq.2 (some p.1)
  unfold StdList.remove
  rw [if_neg hends, if_neg (fun heq => htail heq.symm), if_neg (fun heq => hhead heq.symm), hread,
    ok_bind]
  dsimp only [first]
  rw [hset₁, ok_bind, hread₁, ok_bind]
  dsimp only
  rw [hset₂, ok_bind]
  refine ⟨_, rfl, ⟨?_, ?_, ?_, hnodup⟩, rfl⟩
  · refine Chain.linked_append.mpr ⟨hlinked₁.elsewhere hsame₂ hq.1, ?_⟩
    rw [last_append_singleton]
    exact hlinked₂
  · show s.head = _
    rw [h.head]
    cases before <;> rfl
  · show s.tail = _
    rw [h.tail, Chain.last_append none (before ++ [p]) (cell :: q :: after),
      Chain.last_append none (before ++ [p]) (q :: after)]
    rfl

/-- Any cell can go; the size is right again behind the last one. -/
lemma Represents.remove (h : Represents s (before ++ cell :: after)) :
    ∃ s', remove s cell.1 = .ok s' ∧ Represents s' (before ++ after) ∧
      (before ++ after = [] → s'.size = 0) := by
  rcases List.eq_nil_or_concat before with rfl | ⟨before, p, rfl⟩
  · cases after with
    | nil => exact ⟨_, h.remove_only, ⟨trivial, rfl, rfl, List.nodup_nil⟩, fun _ => rfl⟩
    | cons q after =>
      obtain ⟨s', hremove, hs', -⟩ := h.remove_head
      exact ⟨s', hremove, hs', fun hnil => by cases hnil⟩
  · rw [List.concat_eq_append] at h ⊢
    cases after with
    | nil =>
      rw [List.append_assoc] at h
      obtain ⟨s', hremove, hs', -⟩ := h.remove_tail
      rw [List.append_nil]
      exact ⟨s', hremove, hs', fun hnil => by simp at hnil⟩
    | cons q after =>
      obtain ⟨s', hremove, hs', -⟩ := h.remove_middle
      exact ⟨s', hremove, hs', fun hnil => by simp at hnil⟩

lemma clearFrom_eq_ok {heap : Heap Item} {previous : Option ℕ} (h : Linked heap previous cells none)
    (hnodup : (addresses cells).Nodup) {fuel : ℕ} (hfuel : cells.length < fuel) :
    ∃ heap', clearFrom fuel heap (first cells none) = .ok heap' := by
  induction cells generalizing heap previous fuel with
  | nil =>
    obtain ⟨fuel, rfl⟩ := Nat.exists_eq_add_one_of_ne_zero (show fuel ≠ 0 by omega)
    exact ⟨heap, rfl⟩
  | cons cell cells ih =>
    rw [List.length_cons] at hfuel
    obtain ⟨fuel, rfl⟩ := Nat.exists_eq_add_one_of_ne_zero (show fuel ≠ 0 by omega)
    obtain ⟨hnew, hcells⟩ := List.nodup_cons.mp hnodup
    obtain ⟨heap', hclear⟩ := ih (h.2.elsewhere (Chain.elsewhere_erase heap cell.1) hnew) hcells
      (show cells.length < fuel by omega)
    refine ⟨heap', ?_⟩
    rw [first, clearFrom, if_neg (Option.some_ne_none _), Chain.read_of_lookup h.1, ok_bind]
    exact hclear

lemma Represents.length_le (h : Represents s cells) : cells.length ≤ s.heap.keys.length := by
  have hsubset : addresses cells ⊆ s.heap.keys := fun a ha =>
    AList.mem_keys.mp (Chain.mem_heap_of_linked h.linked ha)
  have hle := (List.subperm_of_subset h.nodup hsubset).length_le
  rwa [addresses, List.length_map] at hle

lemma Represents.clear (h : Represents s cells) :
    ∃ s', clear s = .ok s' ∧ Represents s' [] ∧ s'.size = 0 := by
  have hlength := h.length_le
  obtain ⟨heap', hclear⟩ := clearFrom_eq_ok h.linked h.nodup
    (show cells.length < s.heap.keys.length + 1 by omega)
  unfold StdList.clear
  rw [h.head, hclear, ok_bind]
  exact ⟨_, rfl, ⟨trivial, rfl, rfl, List.nodup_nil⟩, rfl⟩

/-- **Step.** No call that is allowed faults, and each keeps the representation. -/
lemma represents_apply (h : Represents s cells) {operation : Operation Item}
    (hallowed : Allowed (s, cells) operation) :
    ∃ s', apply s operation = .ok s' ∧ Represents s' (next cells operation) := by
  cases operation with
  | enqueue node item =>
    obtain ⟨s', henqueue, hs', -⟩ := h.enqueue hallowed item
    exact ⟨s', henqueue, hs'⟩
  | dequeue =>
    obtain ⟨cell, cells, rfl⟩ := List.exists_cons_of_ne_nil hallowed
    obtain ⟨s', hdequeue, hs', -⟩ := h.dequeue
    exact ⟨s', by rw [apply, hdequeue]; rfl, hs'⟩
  | remove node =>
    obtain ⟨cell, hcell, rfl⟩ := List.mem_map.mp hallowed
    obtain ⟨before, after, rfl⟩ := List.mem_iff_append.mp hcell
    obtain ⟨s', hremove, hs', -⟩ := h.remove
    exact ⟨s', hremove, by rwa [next, Chain.filter_ne_cell h.nodup]⟩
  | clear =>
    obtain ⟨s', hclear, hs', -⟩ := h.clear
    exact ⟨s', hclear, hs'⟩

/-! ## What the list shows -/

/-- The elements in their order, the first of them, and links that are inverse to each other. -/
structure Forward (p : State Item w × List (ℕ × Item)) : Prop where
  walk : ∃ fuel, walk p.1 fuel p.1.head = .ok (p.2.map Prod.snd)
  front : ∀ cell ∈ p.2.head?, front p.1 = .ok cell.2
  links : ∀ a ∈ p.2, ∀ b ∈ p.2, ∀ m n, p.1.heap.lookup a.1 = some m →
    p.1.heap.lookup b.1 = some n → (m.next = some b.1 ↔ n.previous = some a.1)

/-- The list stands for the sequence, in both directions and with its size. -/
structure Agrees (p : State Item w × List (ℕ × Item)) : Prop where
  forward : Forward p
  back : ∃ fuel, walkBack p.1 fuel none = .ok (p.2.map Prod.snd).reverse
  size : p.1.size.toNat = p.2.length

/-- Nothing is put behind another element. -/
def Alone (p : State Item w × List (ℕ × Item)) : Operation Item → Prop
  | .enqueue _ _ => p.2 = []
  | .dequeue | .remove _ | .clear => True

lemma walk_eq_ok {previous : Option ℕ} (h : Linked s.heap previous cells none) {fuel : ℕ}
    (hfuel : cells.length < fuel) : walk s fuel (first cells none) = .ok (cells.map Prod.snd) := by
  induction cells generalizing previous fuel with
  | nil =>
    obtain ⟨fuel, rfl⟩ := Nat.exists_eq_add_one_of_ne_zero (show fuel ≠ 0 by omega)
    rfl
  | cons cell cells ih =>
    rw [List.length_cons] at hfuel
    obtain ⟨fuel, rfl⟩ := Nat.exists_eq_add_one_of_ne_zero (show fuel ≠ 0 by omega)
    have hread := Chain.read_of_lookup h.1
    have hrest := ih h.2 (show cells.length < fuel by omega)
    rw [first, walk, if_neg (Option.some_ne_none _)]
    unfold deref increment
    rw [hread, ok_bind]
    show (do
      let items ← walk s fuel (first cells none)
      return cell.2 :: items) = _
    rw [hrest]
    rfl

lemma Represents.front (h : Represents s (cell :: cells)) : front s = .ok cell.2 := by
  have hhead : s.head = some cell.1 := h.head
  unfold StdList.front deref
  rw [hhead, Chain.read_of_lookup h.linked.1]
  rfl

lemma Represents.forward (h : Represents s cells) : Forward (s, cells) := by
  refine ⟨⟨cells.length + 1, ?_⟩, ?_, ?_⟩
  · show walk s _ s.head = _
    rw [h.head]
    exact walk_eq_ok h.linked (Nat.lt_succ_self _)
  · intro cell hcell
    obtain ⟨rest, rfl⟩ := List.head?_eq_some_iff.mp hcell
    exact h.front
  · intro a ha b hb m n hm hn
    exact Chain.next_iff_previous h.linked ha hb hm hn

/-- From the end, `--` goes to the head, and there the walk is over. -/
lemma Represents.walkBack_eq (h : Represents s (cell :: cells)) (fuel : ℕ) :
    walkBack s (fuel + 1) none = (do
      let items ← walkBack s fuel s.head
      return cell.2 :: items) := by
  have hfront : deref s s.head = .ok cell.2 := h.front
  have hhead : s.head = some cell.1 := h.head
  conv_lhs => unfold walkBack
  rw [if_neg (by rw [hhead]; exact (Option.some_ne_none _).symm), decrement, ok_bind, hfront,
    ok_bind]

lemma walkBack_head (s : State Item w) (fuel : ℕ) : walkBack s (fuel + 1) s.head = .ok [] :=
  if_pos rfl

/-- Walking back is right for up to one element. -/
lemma Represents.back_iff (h : Represents s cells) :
    (∃ fuel, walkBack s fuel none = .ok (cells.map Prod.snd).reverse) ↔ cells.length ≤ 1 := by
  match cells with
  | [] => exact iff_of_true ⟨1, if_pos h.head.symm⟩ (Nat.zero_le 1)
  | [cell] =>
    refine iff_of_true ⟨2, ?_⟩ le_rfl
    rw [h.walkBack_eq, walkBack_head]
    rfl
  | cell :: cell' :: cells =>
    refine iff_of_false ?_ (by simp)
    rintro ⟨fuel, hback⟩
    match fuel with
    | 0 => cases hback
    | 1 =>
      rw [h.walkBack_eq] at hback
      cases hback
    | fuel + 2 =>
      rw [h.walkBack_eq, walkBack_head] at hback
      have hlength := congrArg List.length (Except.ok.inj hback)
      simp at hlength

/-! ## Runs -/

lemma step_eq_some_iff {p p' : State Item w × List (ℕ × Item)} {operation : Operation Item} :
    step p operation = some p' ↔
      Allowed p operation ∧ apply p.1 operation = .ok p'.1 ∧ next p.2 operation = p'.2 := by
  unfold step
  split_ifs with hallowed
  · cases happly : apply p.1 operation with
    | error fault => simp
    | ok s' => simp [hallowed, Prod.ext_iff]
  · simp [hallowed]

lemma represents_step {p p' : State Item w × List (ℕ × Item)} {operation : Operation Item}
    (h : Represents p.1 p.2) (hstep : step p operation = some p') : Represents p'.1 p'.2 := by
  obtain ⟨hallowed, happly, hnext⟩ := step_eq_some_iff.mp hstep
  obtain ⟨s', happly', hs'⟩ := represents_apply h hallowed
  rw [happly] at happly'
  rw [← hnext, Except.ok.inj happly']
  exact hs'

/-- The list holds up to one element, and knows how many. -/
structure Single (p : State Item w × List (ℕ × Item)) : Prop where
  represents : Represents p.1 p.2
  length : p.2.length ≤ 1
  size : p.1.size = BitVec.ofNat w p.2.length

lemma eq_singleton (hlength : cells.length ≤ 1) (hmem : cell ∈ cells) : cells = [cell] := by
  match cells with
  | [] => cases hmem
  | [c] => rw [List.mem_singleton.mp hmem]
  | c :: c' :: rest =>
    simp at hlength

lemma single_apply (h : Single (s, cells)) {operation : Operation Item}
    (hallowed : Allowed (s, cells) operation) (halone : Alone (s, cells) operation) :
    ∃ s', apply s operation = .ok s' ∧ Single (s', next cells operation) := by
  obtain ⟨hrepresents, hlength, hsize⟩ := h
  cases operation with
  | enqueue node item =>
    obtain rfl : cells = [] := halone
    obtain ⟨s', henqueue, hs', hone⟩ := hrepresents.enqueue hallowed item
    refine ⟨s', henqueue, hs', le_rfl, hone.trans ?_⟩
    have hzero : s.size = 0 := hsize
    rw [hzero]
    simp [next]
  | dequeue =>
    obtain ⟨cell, rest, rfl⟩ := List.exists_cons_of_ne_nil hallowed
    obtain rfl : rest = [] := List.eq_nil_of_length_eq_zero (by simpa using hlength)
    obtain ⟨s', hdequeue, hs', hone⟩ := hrepresents.dequeue
    refine ⟨s', by rw [apply, hdequeue]; rfl, hs', Nat.zero_le 1, hone.trans ?_⟩
    have hsize₁ : s.size = 1 := hsize
    rw [hsize₁, BitVec.sub_self]
    rfl
  | remove node =>
    obtain ⟨cell, hcell, rfl⟩ := List.mem_map.mp hallowed
    obtain rfl := eq_singleton hlength hcell
    obtain ⟨s', hremove, hs', hzero⟩ :=
      Represents.remove (show Represents s ([] ++ cell :: []) from hrepresents)
    have hnext : next [cell] (.remove cell.1) = [] := by simp [next]
    refine ⟨s', hremove, ?_⟩
    rw [hnext]
    exact ⟨hs', Nat.zero_le 1, hzero rfl⟩
  | clear =>
    obtain ⟨s', hclear, hs', hzero⟩ := hrepresents.clear
    exact ⟨s', hclear, hs', Nat.zero_le 1, hzero⟩

lemma single_step {p p' : State Item w × List (ℕ × Item)} {operation : Operation Item}
    (h : Single p) (halone : Alone p operation) (hstep : step p operation = some p') :
    Single p' := by
  obtain ⟨hallowed, happly, hnext⟩ := step_eq_some_iff.mp hstep
  obtain ⟨s', happly', hs'⟩ := single_apply h hallowed halone
  rw [happly] at happly'
  rw [hnext, ← Except.ok.inj happly'] at hs'
  exact hs'

lemma agrees_of_single (hw : 0 < w) {p : State Item w × List (ℕ × Item)} (h : Single p) :
    Agrees p := by
  refine ⟨h.represents.forward, h.represents.back_iff.mpr h.length, ?_⟩
  have hlength := h.length
  have hpow : 1 < 2 ^ w := Nat.one_lt_two_pow (by omega)
  rw [h.size, BitVec.toNat_ofNat, Nat.mod_eq_of_lt (by omega)]

/-- Behind another element, walking back is lost. -/
lemma not_agrees_step {p p' : State Item w × List (ℕ × Item)} {operation : Operation Item}
    (h : Represents p.1 p.2) (halone : ¬ Alone p operation) (hstep : step p operation = some p') :
    ¬ Agrees p' := by
  intro hagrees
  have hlength := (represents_step h hstep).back_iff.mp hagrees.back
  obtain ⟨-, -, hnext⟩ := step_eq_some_iff.mp hstep
  cases operation with
  | enqueue node item =>
    rw [← hnext, next, List.length_append, List.length_singleton] at hlength
    exact halone (List.eq_nil_of_length_eq_zero (by omega))
  | dequeue | remove | clear => exact halone trivial

variable (Item w) in
/-- A new list, and the sequence without elements. -/
def start : State Item w × List (ℕ × Item) := (empty, [])

lemma represents_start : Represents (start Item w).1 (start Item w).2 := represents_empty

lemma single_start : Single (start Item w) := ⟨represents_start, Nat.zero_le 1, rfl⟩

/-- **The list as a sequence.** Throughout a run the elements can be walked over in their order, the
first one is the head and the links are inverse to each other; no call that is allowed faults.
Walking back and the size are right throughout a run exactly if no element is ever put behind
another one. -/
theorem refines_iff (hw : 0 < w) {operations : List (Operation Item)}
    {p : State Item w × List (ℕ × Item)}
    (hrun : Machine.run step (start Item w) operations = some p) :
    (Machine.Always step Agrees (start Item w) operations ↔
      Machine.Along step Alone (start Item w) operations) ∧
    Machine.Always step Forward (start Item w) operations ∧
    ∀ operation, Allowed p operation → Succeeds (apply p.1 operation) := by
  refine ⟨?_, ?_, ?_⟩
  · exact Machine.always_iff_along (fun _ h => agrees_of_single hw h) (fun _ _ _ => single_step)
      (fun _ _ _ h => not_agrees_step h.represents) single_start hrun
  · have hkeep : ∀ (p : State Item w × List (ℕ × Item)) operation p', Represents p.1 p.2 → True →
        step p operation = some p' → Represents p'.1 p'.2 := fun _ _ _ h _ => represents_step h
    refine (Machine.always_iff_along (Q := fun _ _ => True) (fun _ h => h.forward) hkeep
      (fun _ _ _ _ h => absurd trivial h) represents_start hrun).mpr ?_
    exact Machine.along_of_forall fun _ _ => trivial
  · intro operation hallowed
    have hrepresents := Machine.run_invariant (fun _ _ _ => represents_step) represents_start hrun
    obtain ⟨s', happly, -⟩ := represents_apply hrepresents hallowed
    exact ⟨s', happly⟩

/-- One element after another, each taken out before the next one comes. -/
theorem refines_iff_alone :
    ∃ p : State ℕ 32 × List (ℕ × ℕ),
      Machine.run step (start ℕ 32) [.enqueue 1 10, .dequeue, .enqueue 2 20, .remove 2] = some p ∧
      (Machine.Always step Agrees (start ℕ 32)
          [.enqueue 1 10, .dequeue, .enqueue 2 20, .remove 2] ↔
        Machine.Along step Alone (start ℕ 32)
          [.enqueue 1 10, .dequeue, .enqueue 2 20, .remove 2]) ∧
      Machine.Always step Forward (start ℕ 32)
        [.enqueue 1 10, .dequeue, .enqueue 2 20, .remove 2] ∧
      ∀ operation, Allowed p operation → Succeeds (apply p.1 operation) :=
  ⟨_, rfl, refines_iff (by decide) rfl⟩

/-- Of two elements, walking back visits the first one alone; when the second one is removed, the
size stays two. -/
theorem refines_two :
    ∃ p p' : State ℕ 32 × List (ℕ × ℕ),
      Machine.run step (start ℕ 32) [.enqueue 1 10, .enqueue 2 20] = some p ∧
      walkBack p.1 3 none = .ok [10] ∧ ¬ Agrees p ∧
      Machine.run step (start ℕ 32) [.enqueue 1 10, .enqueue 2 20, .remove 2] = some p' ∧
      p'.2 = [(1, 10)] ∧ p'.1.size = 2 := by
  refine ⟨_, _, rfl, rfl, ?_, rfl, rfl, rfl⟩
  intro hagrees
  have hrepresents : Represents _ [(1, 10), (2, 20)] := Machine.run_invariant
    (fun _ _ _ => represents_step)
    (show Represents (start ℕ 32).1 (start ℕ 32).2 from represents_start)
    (show Machine.run step (start ℕ 32) [.enqueue 1 10, .enqueue 2 20] = some _ from rfl)
  exact absurd (hrepresents.back_iff.mp hagrees.back) (by decide)

end StdList
end Vng
