import Vng.Lib.Chain

/-!
# Singly linked cells

A heap of nodes that point to the node behind them, and what it means that a list of cells is linked
up to an end. Pointers and faults are those of the doubly linked cells.
-/

namespace Links

open Chain (first last addresses)
open Memory (Checked)

structure Node (α : Type) where
  item : α
  next : Option ℕ
deriving DecidableEq, Repr

/-- The nodes that live, by their addresses. -/
abbrev Heap (α : Type) := AList fun _ : ℕ => Node α

variable {α : Type}

def read (heap : Heap α) : (pointer : Option ℕ) → Checked (Node α)
  | none => .error .outOfBounds
  | some a =>
    match heap.lookup a with
    | none => .error .outOfBounds
    | some node => .ok node

def setNext (heap : Heap α) : (pointer next : Option ℕ) → Checked (Heap α)
  | none, _ => .error .outOfBounds
  | some a, next => do
    let node ← read heap (some a)
    return heap.insert a { node with next := next }

/-- Change what the node holds. -/
def modify (heap : Heap α) (pointer : Option ℕ) (f : α → α) : Checked (Heap α) :=
  match pointer with
  | none => .error .outOfBounds
  | some a => do
    let node ← read heap (some a)
    return heap.insert a { node with item := f node.item }

/-- `delete`, which may be given nothing. -/
def delete (heap : Heap α) : (pointer : Option ℕ) → Heap α
  | none => heap
  | some a => heap.erase a

/-- The cells live in the heap, linked one after another up to an end. -/
def Linked (heap : Heap α) : (cells : List (ℕ × α)) → (next : Option ℕ) → Prop
  | [], _ => True
  | cell :: cells, next =>
    heap.lookup cell.1 = some ⟨cell.2, first cells next⟩ ∧ Linked heap cells next

variable {heap heap' : Heap α} {next : Option ℕ} {cells before after : List (ℕ × α)}
  {cell : ℕ × α} {changed : List ℕ}

lemma read_of_lookup {a : ℕ} {node : Node α} (h : heap.lookup a = some node) :
    read heap (some a) = .ok node := by
  unfold read
  dsimp only
  rw [h]

/-- Cells are linked if two parts of them are, the one up to the other. -/
lemma linked_append : Linked heap (before ++ after) next ↔
    Linked heap before (first after next) ∧ Linked heap after next := by
  induction before with
  | nil => simp [Linked]
  | cons cell before ih => rw [List.cons_append, Linked, Linked, ih, Chain.first_append, and_assoc]

/-- What a cell among others holds. -/
lemma lookup_of_linked (h : Linked heap (before ++ cell :: after) next) :
    heap.lookup cell.1 = some ⟨cell.2, first after next⟩ :=
  (linked_append.mp h).2.1

lemma exists_lookup (h : Linked heap cells next) (hcell : cell ∈ cells) :
    ∃ next', heap.lookup cell.1 = some ⟨cell.2, next'⟩ := by
  obtain ⟨before, after, rfl⟩ := List.mem_iff_append.mp hcell
  exact ⟨_, lookup_of_linked h⟩

lemma mem_heap_of_linked (h : Linked heap cells next) {a : ℕ} (ha : a ∈ addresses cells) :
    a ∈ heap := by
  obtain ⟨cell, hcell, rfl⟩ := List.mem_map.mp ha
  obtain ⟨next', hlookup⟩ := exists_lookup h hcell
  rw [← AList.lookup_isSome, hlookup]
  rfl

/-- Two chains that meet at an address hold the same there. -/
lemma item_eq_of_address_eq {cells' : List (ℕ × α)} {next' : Option ℕ} {cell' : ℕ × α}
    (h : Linked heap cells next) (h' : Linked heap cells' next') (hcell : cell ∈ cells)
    (hcell' : cell' ∈ cells') (heq : cell.1 = cell'.1) : cell.2 = cell'.2 := by
  obtain ⟨_, hlookup⟩ := exists_lookup h hcell
  obtain ⟨_, hlookup'⟩ := exists_lookup h' hcell'
  rw [heq, hlookup'] at hlookup
  exact congrArg Node.item (Option.some.inj hlookup).symm

/-- Items that differ in something live at different addresses. -/
lemma nodup_addresses {β : Type} {f : α → β} (h : Linked heap cells next)
    (hnodup : (cells.map fun cell => f cell.2).Nodup) : (addresses cells).Nodup := by
  induction cells with
  | nil => exact List.nodup_nil
  | cons cell cells ih =>
    obtain ⟨hnew, hcells⟩ := List.nodup_cons.mp hnodup
    refine List.nodup_cons.mpr ⟨?_, ih h.2 hcells⟩
    intro hmem
    obtain ⟨cell', hcell', heq⟩ := List.mem_map.mp hmem
    have hitem : cell'.2 = cell.2 :=
      item_eq_of_address_eq h.2 h hcell' List.mem_cons_self heq
    exact hnew (List.mem_map.mpr ⟨cell', hcell', congrArg f hitem⟩)

/-- Cells that live apart are no more than the nodes. -/
lemma length_le_keys (h : Linked heap cells next) (hnodup : (addresses cells).Nodup) :
    cells.length ≤ heap.keys.length := by
  have hsubset : addresses cells ⊆ heap.keys := fun a ha =>
    AList.mem_keys.mp (mem_heap_of_linked h ha)
  have hle := (List.subperm_of_subset hnodup hsubset).length_le
  rwa [addresses, List.length_map] at hle

/-! ## What changes and what does not -/

/-- The heaps differ at most at some addresses. -/
def Elsewhere (changed : List ℕ) (heap heap' : Heap α) : Prop :=
  ∀ b ∉ changed, heap'.lookup b = heap.lookup b

lemma elsewhere_insert (heap : Heap α) (a : ℕ) (node : Node α) :
    Elsewhere [a] heap (heap.insert a node) := fun _ hb =>
  AList.lookup_insert_ne (List.ne_of_not_mem_cons hb)

lemma elsewhere_erase (heap : Heap α) (a : ℕ) : Elsewhere [a] heap (heap.erase a) :=
  fun _ hb => AList.lookup_erase_ne (List.ne_of_not_mem_cons hb)

lemma Elsewhere.trans {changed' : List ℕ} {heap'' : Heap α} (h : Elsewhere changed heap heap')
    (h' : Elsewhere changed' heap' heap'') : Elsewhere (changed ++ changed') heap heap'' := by
  intro b hb
  rw [List.mem_append, not_or] at hb
  exact (h' b hb.2).trans (h b hb.1)

/-- Cells do not see what happens at other addresses. -/
lemma Linked.elsewhere (h : Linked heap cells next) (hsame : Elsewhere changed heap heap')
    (hapart : ∀ a ∈ addresses cells, a ∉ changed) : Linked heap' cells next := by
  induction cells with
  | nil => trivial
  | cons cell cells ih =>
    refine ⟨(hsame cell.1 (hapart _ List.mem_cons_self)).trans h.1, ih h.2 ?_⟩
    exact fun a ha => hapart a (List.mem_cons_of_mem _ ha)

lemma Linked.elsewhere_one (h : Linked heap cells next) {a : ℕ} (hsame : Elsewhere [a] heap heap')
    (ha : a ∉ addresses cells) : Linked heap' cells next :=
  h.elsewhere hsame fun _ hb hmem => ha (List.mem_singleton.mp hmem ▸ hb)

/-- A new cell, linked to nothing. -/
lemma linked_insert (heap : Heap α) (a : ℕ) (item : α) :
    Linked (heap.insert a ⟨item, none⟩) [(a, item)] none :=
  ⟨AList.lookup_insert heap, trivial⟩

/-- Without the first cell. -/
lemma linked_erase (h : Linked heap (cell :: after) next)
    (hnodup : (addresses (cell :: after)).Nodup) : Linked (heap.erase cell.1) after next :=
  h.2.elsewhere_one (elsewhere_erase heap cell.1) (List.nodup_cons.mp hnodup).1

/-- The last cell, linked to something else. -/
lemma setNext_last (h : Linked heap (before ++ [cell]) next) (hnew : cell.1 ∉ addresses before)
    (next' : Option ℕ) :
    ∃ heap', setNext heap (some cell.1) next' = .ok heap' ∧
      Linked heap' (before ++ [cell]) next' ∧ Elsewhere [cell.1] heap heap' := by
  obtain ⟨hbefore, hcell⟩ := linked_append.mp h
  have hsame := elsewhere_insert heap cell.1 ⟨cell.2, next'⟩
  refine ⟨heap.insert cell.1 ⟨cell.2, next'⟩, ?_, ?_, hsame⟩
  · unfold setNext
    dsimp only
    rw [read_of_lookup hcell.1]
    rfl
  · exact linked_append.mpr
      ⟨hbefore.elsewhere_one hsame hnew, AList.lookup_insert _, trivial⟩

/-- The last cell, linked to a new one. -/
lemma setNext_new (h : Linked heap (before ++ [cell]) none)
    (hnodup : (addresses (before ++ [cell])).Nodup) {a : ℕ} (ha : a ∉ addresses (before ++ [cell]))
    (item : α) :
    ∃ heap', setNext (heap.insert a ⟨item, none⟩) (some cell.1) (some a) = .ok heap' ∧
      Linked heap' ((before ++ [cell]) ++ [(a, item)]) none ∧ Elsewhere [a, cell.1] heap heap' := by
  have hsame := elsewhere_insert heap a ⟨item, none⟩
  obtain ⟨heap', hset, hlinked, hsame'⟩ := setNext_last (h.elsewhere_one hsame ha)
    (Chain.not_mem_of_nodup hnodup).1 (some a)
  have hne : a ∉ [cell.1] := fun hmem => ha (by simp [List.mem_singleton.mp hmem])
  refine ⟨heap', hset, linked_append.mpr ⟨hlinked, ?_, trivial⟩, hsame.trans hsame'⟩
  exact (hsame' a hne).trans (AList.lookup_insert _)

/-- A cell with the one behind it taken out. -/
lemma setNext_behind {p : ℕ × α} (h : Linked heap ((before ++ [p]) ++ cell :: after) next)
    (hnodup : (addresses ((before ++ [p]) ++ cell :: after)).Nodup) :
    ∃ heap', setNext heap (some p.1) (first after next) = .ok heap' ∧
      Linked (heap'.erase cell.1) ((before ++ [p]) ++ after) next ∧
        Elsewhere [p.1, cell.1] heap (heap'.erase cell.1) := by
  obtain ⟨hfront, -, hafter⟩ := linked_append.mp h
  obtain ⟨hcell, hcell'⟩ := Chain.not_mem_of_nodup hnodup
  obtain ⟨hp, hp'⟩ : p.1 ∉ addresses before ∧ p.1 ∉ addresses (cell :: after) :=
    Chain.not_mem_of_nodup (by rwa [List.append_assoc] at hnodup)
  obtain ⟨heap', hset, hlinked, hsame⟩ := setNext_last hfront hp (first after next)
  have hsame' := elsewhere_erase heap' cell.1
  refine ⟨heap', hset, ?_, hsame.trans hsame'⟩
  have hafter' := hafter.elsewhere_one hsame fun hmem => hp' (List.mem_cons_of_mem _ hmem)
  refine (linked_append.mpr ⟨hlinked, hafter'⟩).elsewhere_one hsame' ?_
  rw [addresses, List.map_append, List.mem_append, not_or]
  exact ⟨hcell, hcell'⟩

/-- A cell that holds something else. -/
lemma modify_cell (h : Linked heap (before ++ cell :: after) next)
    (hnodup : (addresses (before ++ cell :: after)).Nodup) (f : α → α) :
    ∃ heap', modify heap (some cell.1) f = .ok heap' ∧
      Linked heap' (before ++ (cell.1, f cell.2) :: after) next ∧
        Elsewhere [cell.1] heap heap' := by
  obtain ⟨hbefore, hcell, hafter⟩ := linked_append.mp h
  obtain ⟨hnew, hnew'⟩ := Chain.not_mem_of_nodup hnodup
  have hsame := elsewhere_insert heap cell.1 ⟨f cell.2, first after next⟩
  refine ⟨heap.insert cell.1 ⟨f cell.2, first after next⟩, ?_, ?_, hsame⟩
  · unfold modify
    dsimp only
    rw [read_of_lookup hcell]
    rfl
  · exact linked_append.mpr ⟨hbefore.elsewhere_one hsame hnew, AList.lookup_insert _,
      hafter.elsewhere_one hsame hnew'⟩

end Links
