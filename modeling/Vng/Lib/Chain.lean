import Mathlib.Data.List.AList
import Mathlib.Tactic.Common
import Vng.Lib.Memory

/-!
# Doubly linked cells

A heap of nodes that point to their neighbours, and what it means that a list of cells is linked in
both directions between two ends. A pointer is an address or nothing; reading through nothing, or
through an address where no node lives, is a fault.
-/

namespace Chain

open Memory (Checked ok_bind)

/-- An item with the addresses of its neighbours. -/
structure Node (α : Type) where
  item : α
  previous : Option ℕ
  next : Option ℕ
deriving DecidableEq, Repr

/-- The nodes that live, by their addresses. -/
abbrev Heap (α : Type) := AList fun _ : ℕ => Node α

variable {α : Type}

/-- Only an address of the heap can be read. -/
def read (heap : Heap α) : (pointer : Option ℕ) → Checked (Node α)
  | none => .error .outOfBounds
  | some a =>
    match heap.lookup a with
    | none => .error .outOfBounds
    | some node => .ok node

/-- The pointer to what is behind. -/
def setNext (heap : Heap α) : (pointer next : Option ℕ) → Checked (Heap α)
  | none, _ => .error .outOfBounds
  | some a, next => do
    let node ← read heap (some a)
    return heap.insert a { node with next := next }

/-- The pointer to what is in front. -/
def setPrevious (heap : Heap α) : (pointer previous : Option ℕ) → Checked (Heap α)
  | none, _ => .error .outOfBounds
  | some a, previous => do
    let node ← read heap (some a)
    return heap.insert a { node with previous := previous }

/-- The pointer to the first of the cells, or to what is behind them. -/
def first (cells : List (ℕ × α)) (next : Option ℕ) : Option ℕ :=
  match cells with
  | [] => next
  | cell :: _ => some cell.1

/-- The pointer to the last of the cells, or to what is in front of them. -/
def last (previous : Option ℕ) : (cells : List (ℕ × α)) → Option ℕ
  | [] => previous
  | cell :: cells => last (some cell.1) cells

/-- The cells live in the heap, linked one after another between two ends. -/
def Linked (heap : Heap α) : (previous : Option ℕ) → (cells : List (ℕ × α)) →
    (next : Option ℕ) → Prop
  | _, [], _ => True
  | previous, cell :: cells, next =>
    heap.lookup cell.1 = some ⟨cell.2, previous, first cells next⟩ ∧
      Linked heap (some cell.1) cells next

/-- The addresses of the cells. -/
abbrev addresses (cells : List (ℕ × α)) : List ℕ := cells.map Prod.fst

variable {heap : Heap α} {previous next : Option ℕ} {cells before after : List (ℕ × α)}
  {cell : ℕ × α}

lemma read_of_lookup {a : ℕ} {node : Node α} (h : heap.lookup a = some node) :
    read heap (some a) = .ok node := by
  unfold read
  dsimp only
  rw [h]

/-- The first cell of two chains, one behind the other. -/
lemma first_append (before after : List (ℕ × α)) (next : Option ℕ) :
    first (before ++ after) next = first before (first after next) := by
  cases before with
  | nil => rfl
  | cons => rfl

/-- The last one. -/
lemma last_append (previous : Option ℕ) (before after : List (ℕ × α)) :
    last previous (before ++ after) = last (last previous before) after := by
  induction before generalizing previous with
  | nil => rfl
  | cons cell before ih => exact ih (some cell.1)

lemma last_append_singleton (before : List (ℕ × α)) (cell : ℕ × α) :
    last none (before ++ [cell]) = some cell.1 := by
  rw [last_append]
  rfl

/-- Cells are linked if two parts of them are, the one up to the other. -/
lemma linked_append : Linked heap previous (before ++ after) next ↔
    Linked heap previous before (first after next) ∧
      Linked heap (last previous before) after next := by
  induction before generalizing previous with
  | nil => simp [Linked, last]
  | cons cell before ih =>
    rw [List.cons_append, Linked, Linked, ih, first_append, last, and_assoc]

/-- What a cell among others holds. -/
lemma lookup_of_linked (h : Linked heap previous (before ++ cell :: after) next) :
    heap.lookup cell.1 = some ⟨cell.2, last previous before, first after next⟩ :=
  (linked_append.mp h).2.1

/-- The cells of a chain are in the heap. -/
lemma mem_heap_of_linked (h : Linked heap previous cells next) {a : ℕ} (ha : a ∈ addresses cells) :
    a ∈ heap := by
  obtain ⟨cell, hcell, rfl⟩ := List.mem_map.mp ha
  obtain ⟨before, after, rfl⟩ := List.mem_iff_append.mp hcell
  rw [← AList.lookup_isSome, lookup_of_linked h]
  rfl

/-- A cell occurs once. -/
lemma not_mem_of_nodup (h : (addresses (before ++ cell :: after)).Nodup) :
    cell.1 ∉ addresses before ∧ cell.1 ∉ addresses after := by
  rw [addresses, List.map_append, List.map_cons] at h
  have hcell := (List.nodup_middle.mp h).notMem
  rwa [List.mem_append, not_or] at hcell

lemma nodup_without (h : (addresses (before ++ cell :: after)).Nodup) :
    (addresses (before ++ after)).Nodup := by
  rw [addresses, List.map_append, List.map_cons] at h
  rw [addresses, List.map_append]
  exact (List.nodup_middle.mp h).of_cons

/-- Without one cell. -/
lemma filter_ne_cell (h : (addresses (before ++ cell :: after)).Nodup) :
    (before ++ cell :: after).filter (·.1 ≠ cell.1) = before ++ after := by
  obtain ⟨hbefore, hafter⟩ := not_mem_of_nodup h
  have hkeep : ∀ cells : List (ℕ × α), cell.1 ∉ addresses cells →
      cells.filter (·.1 ≠ cell.1) = cells := by
    intro cells hcells
    rw [List.filter_eq_self]
    intro c hc
    have hne : c.1 ≠ cell.1 := fun heq => hcells (heq ▸ List.mem_map_of_mem hc)
    simpa using hne
  rw [List.filter_append, List.filter_cons, hkeep before hbefore, hkeep after hafter]
  simp

/-- The heaps differ at most at one address. -/
def Elsewhere (a : ℕ) (heap heap' : Heap α) : Prop := ∀ b, b ≠ a → heap'.lookup b = heap.lookup b

/-- Writing one cell leaves the others alone. -/
lemma elsewhere_insert (heap : Heap α) (a : ℕ) (node : Node α) :
    Elsewhere a heap (heap.insert a node) := fun _ hb => AList.lookup_insert_ne hb

/-- So does freeing one. -/
lemma elsewhere_erase (heap : Heap α) (a : ℕ) : Elsewhere a heap (heap.erase a) :=
  fun _ hb => AList.lookup_erase_ne hb

/-- Cells do not see what happens at other addresses. -/
lemma Linked.elsewhere {heap' : Heap α} {a : ℕ} (h : Linked heap previous cells next)
    (hsame : Elsewhere a heap heap') (ha : a ∉ addresses cells) :
    Linked heap' previous cells next := by
  induction cells generalizing previous with
  | nil => trivial
  | cons cell cells ih =>
    rw [addresses, List.map_cons, List.mem_cons, not_or] at ha
    exact ⟨(hsame cell.1 (Ne.symm ha.1)).trans h.1, ih h.2 ha.2⟩

/-- The last cell, linked to something else. -/
lemma setNext_last (h : Linked heap previous (before ++ [cell]) next)
    (hnew : cell.1 ∉ addresses before) (next' : Option ℕ) :
    ∃ heap', setNext heap (some cell.1) next' = .ok heap' ∧
      Linked heap' previous (before ++ [cell]) next' ∧ Elsewhere cell.1 heap heap' := by
  obtain ⟨hbefore, hcell⟩ := linked_append.mp h
  have hsame := elsewhere_insert heap cell.1 ⟨cell.2, last previous before, next'⟩
  refine ⟨heap.insert cell.1 ⟨cell.2, last previous before, next'⟩, ?_, ?_, hsame⟩
  · unfold setNext
    dsimp only
    rw [read_of_lookup hcell.1]
    rfl
  · exact linked_append.mpr ⟨hbefore.elsewhere hsame hnew, AList.lookup_insert _, trivial⟩

/-- The first cell, linked to something else. -/
lemma setPrevious_first (h : Linked heap previous (cell :: after) next)
    (hnew : cell.1 ∉ addresses after) (previous' : Option ℕ) :
    ∃ heap', setPrevious heap (some cell.1) previous' = .ok heap' ∧
      Linked heap' previous' (cell :: after) next ∧ Elsewhere cell.1 heap heap' := by
  have hsame := elsewhere_insert heap cell.1 ⟨cell.2, previous', first after next⟩
  refine ⟨heap.insert cell.1 ⟨cell.2, previous', first after next⟩, ?_,
    ⟨AList.lookup_insert _, h.2.elsewhere hsame hnew⟩, hsame⟩
  unfold setPrevious
  dsimp only
  rw [read_of_lookup h.1]
  rfl

/-- The last address belongs to the last cell. -/
lemma last_eq_some {a : ℕ} (h : last none cells = some a) :
    ∃ before cell, cells = before ++ [cell] ∧ cell.1 = a := by
  rcases List.eq_nil_or_concat cells with rfl | ⟨before, cell, rfl⟩
  · cases h
  · rw [List.concat_eq_append, last_append] at h
    exact ⟨before, cell, List.concat_eq_append, Option.some.inj h⟩

/-- The first address belongs to the first cell. -/
lemma first_eq_some {a : ℕ} (h : first cells none = some a) :
    ∃ cell after, cells = cell :: after ∧ cell.1 = a := by
  cases cells with
  | nil => cases h
  | cons cell after => exact ⟨cell, after, rfl, Option.some.inj h⟩

/-- The links of the cells are inverse to each other. -/
lemma next_iff_previous (h : Linked heap none cells none) {a b : ℕ × α} (ha : a ∈ cells)
    (hb : b ∈ cells) {m n : Node α} (hm : heap.lookup a.1 = some m)
    (hn : heap.lookup b.1 = some n) : m.next = some b.1 ↔ n.previous = some a.1 := by
  constructor
  -- `b` stands right behind `a`, so the node of `b` points back
  · obtain ⟨before, after, rfl⟩ := List.mem_iff_append.mp ha
    rw [lookup_of_linked h] at hm
    obtain rfl := Option.some.inj hm
    intro hnext
    obtain ⟨b', after', rfl, hsame⟩ := first_eq_some hnext
    have hb' := lookup_of_linked
      (show Linked heap none ((before ++ [a]) ++ b' :: after') none by simpa using h)
    rw [hsame, hn, last_append] at hb'
    rw [Option.some.inj hb']
    rfl
  -- and `a` right in front of `b`
  · obtain ⟨before, after, rfl⟩ := List.mem_iff_append.mp hb
    rw [lookup_of_linked h] at hn
    obtain rfl := Option.some.inj hn
    intro hprevious
    obtain ⟨before', a', rfl, hsame⟩ := last_eq_some hprevious
    have ha' := lookup_of_linked
      (show Linked heap none (before' ++ a' :: ([b] ++ after)) none by simpa using h)
    rw [hsame, hm] at ha'
    rw [Option.some.inj ha']
    rfl

end Chain
