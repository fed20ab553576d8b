import Mathlib.Data.List.Induction
import Mathlib.Logic.Function.Basic
import Vng.Lib.Links
import Vng.Lib.Machine

/-!
# `iot::std::Hash`

The hash table of `stdhash.h`, over a heap of its nodes, and the map that it stands for. The table
is generic in its hash function, and the allocator may give any address where no node lives.
-/

namespace Vng
namespace StdHash

open Chain (addresses first last last_append_singleton)
open Links (Elsewhere Heap Linked delete modify read setNext)
open Memory (Checked Succeeds exists_store forBelow forBelow_rule load ok_bind store)

variable {Key Value : Type} {w : ℕ}

/-- What a node holds besides its link. -/
structure Entry (Key Value : Type) where
  key : Key
  value : Value
deriving DecidableEq, Repr

/-- `Hash<Key, Value, Size>`, with a `Size` of `w` bits. -/
structure State (Key Value : Type) (w : ℕ) where
  heap : Heap (Entry Key Value)
  size : BitVec w
  slots : Vector (Option ℕ) size.toNat

/-- `HashFunction`, of an unsigned key. -/
def hashFunction {k : ℕ} (key : BitVec k) (size : BitVec w) : BitVec w := key.setWidth w % size

/-- The index is one of the slots. -/
lemma hashFunction_lt {k : ℕ} {size : BitVec w} (hsize : 0 < size) (key : BitVec k) :
    hashFunction key size < size := BitVec.umod_lt _ hsize

/-- `Hash(size)`, over the slots as `new` leaves them. -/
def create {size : BitVec w} (slots : Vector (Option ℕ) size.toNat) :
    Checked (State Key Value w) := do
  let slots ← forBelow size (fun slots index => store slots index.toNat none) (size.toNat + 1) 0
    slots
  return ⟨∅, size, slots⟩

/-- A chain is walked through in so many rounds, unless it comes back to a node. -/
def rounds (heap : Heap (Entry Key Value)) : ℕ := heap.keys.length + 1

section

variable [DecidableEq Key]

/-- The loop of `set` and `erase`: the slot in front of the key and the slot of the key. -/
def seek (heap : Heap (Entry Key Value)) (key : Key) :
    (fuel : ℕ) → (previous slot : Option ℕ) → Checked (Option ℕ × Option ℕ)
  | 0, _, _ => .error .diverges
  | fuel + 1, previous, slot =>
    if slot = none then .ok (previous, slot)
    else do
      let node ← read heap slot
      if node.item.key ≠ key then seek heap key fuel slot node.next
      else return (previous, slot)

/-- The loop of `get`. -/
def getFrom (heap : Heap (Entry Key Value)) (key : Key) (value : Value) :
    (fuel : ℕ) → (slot : Option ℕ) → Checked (Bool × Value)
  | 0, _ => .error .diverges
  | fuel + 1, slot =>
    if slot = none then .ok (false, value)
    else do
      let node ← read heap slot
      if node.item.key = key then return (true, node.item.value)
      else getFrom heap key value fuel node.next

variable (function : Key → BitVec w → BitVec w)

/-- `set`, with the address of the new node if there is one. -/
def set (s : State Key Value w) (key : Key) (value : Value) (node : ℕ) :
    Checked (State Key Value w) := do
  let index := function key s.size
  let slot ← load s.slots index.toNat
  let (previous, slot) ← seek s.heap key (rounds s.heap) none slot
  if slot = none then
    let heap := s.heap.insert node ⟨⟨key, value⟩, none⟩
    if previous = none then
      let slots ← store s.slots index.toNat (some node)
      return { s with heap := heap, slots := slots }
    else
      let heap ← setNext heap previous (some node)
      return { s with heap := heap }
  else
    let heap ← modify s.heap slot fun entry => { entry with value := value }
    return { s with heap := heap }

/-- `get`: whether there is the key, and what is in `value` then. -/
def get (s : State Key Value w) (key : Key) (value : Value) : Checked (Bool × Value) := do
  let slot ← load s.slots (function key s.size).toNat
  getFrom s.heap key value (rounds s.heap) slot

/-- `erase`. -/
def erase (s : State Key Value w) (key : Key) : Checked (State Key Value w) := do
  let index := function key s.size
  let slot ← load s.slots index.toNat
  let (previous, slot) ← seek s.heap key (rounds s.heap) none slot
  if slot = none then return s
  else
    let found ← read s.heap slot
    if previous = none then
      let slots ← store s.slots index.toNat found.next
      return { s with heap := delete s.heap slot, slots := slots }
    else
      let heap ← setNext s.heap previous found.next
      return { s with heap := delete heap slot }

end

/-- The inner loop of `clear`. -/
def deleteFrom : (fuel : ℕ) → (heap : Heap (Entry Key Value)) → (slot : Option ℕ) →
    Checked (Heap (Entry Key Value))
  | 0, _, _ => .error .diverges
  | fuel + 1, heap, slot =>
    if slot = none then .ok heap
    else do
      let node ← read heap slot
      deleteFrom fuel (delete heap slot) node.next

/-- A round of the outer loop of `clear`. -/
def clearSlot {size : BitVec w} (s : Heap (Entry Key Value) × Vector (Option ℕ) size.toNat)
    (index : BitVec w) : Checked (Heap (Entry Key Value) × Vector (Option ℕ) size.toNat) := do
  let slot ← load s.2 index.toNat
  let heap ← deleteFrom (rounds s.1) s.1 slot
  let slots ← store s.2 index.toNat none
  return (heap, slots)

/-- `clear`. -/
def clear (s : State Key Value w) : Checked (State Key Value w) := do
  let (heap, slots) ← forBelow s.size clearSlot (s.size.toNat + 1) 0 (s.heap, s.slots)
  return { s with heap := heap, slots := slots }

/-! ## The map -/

/-- The operations that change the table. -/
inductive Operation (Key Value : Type)
  | set (key : Key) (value : Value) (node : ℕ)
  | erase (key : Key)
  | clear
deriving DecidableEq, Repr

section

variable [DecidableEq Key] (function : Key → BitVec w → BitVec w)

/-- An operation as the code does it. -/
def apply (s : State Key Value w) : Operation Key Value → Checked (State Key Value w)
  | .set key value node => set function s key value node
  | .erase key => erase function s key
  | .clear => clear s

/-- The map, from each key to its value if it has one. -/
def next (map : Key → Option Value) : Operation Key Value → Key → Option Value
  | .set key value _ => Function.update map key (some value)
  | .erase key => Function.update map key none
  | .clear => fun _ => none

/-- The operation says what becomes of the key. -/
def Touches (key : Key) : Operation Key Value → Prop
  | .set key' _ _ => key' = key
  | .erase key' => key' = key
  | .clear => True

/-- The last `set` of the key gave it a value, and no `erase` of it and no `clear` follows. -/
def LastSet (operations : List (Operation Key Value)) (key : Key) (found : Value) : Prop :=
  ∃ earlier node later, operations = earlier ++ .set key found node :: later ∧
    ∀ operation ∈ later, ¬ Touches key operation

/-- What may be called: a new node is none that lives. -/
def Allowed (s : State Key Value w) : Operation Key Value → Prop
  | .set _ _ node => node ∉ s.heap
  | .erase _ | .clear => True

instance (s : State Key Value w) (operation : Operation Key Value) :
    Decidable (Allowed s operation) :=
  match operation with
  | .set _ _ node => inferInstanceAs (Decidable (node ∉ s.heap))
  | .erase _ | .clear => .isTrue trivial

/-- A new node has an address that is free. -/
def step (s : State Key Value w) (operation : Operation Key Value) : Option (State Key Value w) :=
  if Allowed s operation then (apply function s operation).toOption else none

end

/-! ## What the representation keeps -/

section

variable (function : Key → BitVec w → BitVec w)

/-- The chain of a slot: its keys belong to the slot, and none is in it twice. -/
structure Chained (s : State Key Value w) (i : ℕ) (cells : List (ℕ × Entry Key Value)) : Prop where
  slot : load s.slots i = .ok (first cells none)
  linked : Linked s.heap cells none
  placed : ∀ cell ∈ cells, (function cell.2.key s.size).toNat = i
  nodup : (cells.map fun cell => cell.2.key).Nodup

/-- The chain of a slot holds what the map holds of the keys of this slot. -/
structure Holds (s : State Key Value w) (map : Key → Option Value) (i : ℕ)
    (cells : List (ℕ × Entry Key Value)) : Prop extends Chained function s i cells where
  values : ∀ key value, (function key s.size).toNat = i →
    (map key = some value ↔ ⟨key, value⟩ ∈ cells.map Prod.snd)

/-- The slots together hold the map. -/
def Represents (s : State Key Value w) (map : Key → Option Value) : Prop :=
  ∀ i < s.size.toNat, ∃ cells, Holds function s map i cells

end

variable {function : Key → BitVec w → BitVec w} {s : State Key Value w}
  {map map' : Key → Option Value} {i j : ℕ}
  {cells cells' before after : List (ℕ × Entry Key Value)} {cell : ℕ × Entry Key Value}
  {heap heap' : Heap (Entry Key Value)} {slots' : Vector (Option ℕ) s.size.toNat}
  {key : Key} {value : Value} {changed : List ℕ} {node : ℕ}

/-- No node is in a chain twice. -/
lemma Chained.nodup_addresses (h : Chained function s i cells) : (addresses cells).Nodup :=
  Links.nodup_addresses (f := Entry.key) h.linked h.nodup

/-- There are rounds enough for the whole chain. -/
lemma Chained.length_lt (h : Chained function s i cells) : cells.length < rounds s.heap :=
  Nat.lt_succ_of_le (Links.length_le_keys h.linked h.nodup_addresses)

/-- The chains of two slots have no address in common, as the key there belongs to one of them. -/
lemma Chained.apart (h : Chained function s i cells) (h' : Chained function s j cells')
    (hne : j ≠ i) {a : ℕ} (ha : a ∈ addresses cells) : a ∉ addresses cells' := by
  intro ha'
  obtain ⟨cell, hcell, rfl⟩ := List.mem_map.mp ha
  obtain ⟨cell', hcell', heq⟩ := List.mem_map.mp ha'
  have hitem : cell.2 = cell'.2 :=
    Links.item_eq_of_address_eq h.linked h'.linked hcell hcell' heq.symm
  have hplaced := h.placed cell hcell
  rw [hitem, h'.placed cell' hcell'] at hplaced
  exact hne hplaced

/-- **Frame rule.** An operation on one slot, which changes nodes of the chain there and nodes that
did not live, leaves the chains of the other slots as they are. -/
lemma Represents.change (h : Represents function s map) (hcells : Chained function s i cells)
    (hchanged : ∀ a ∈ changed, a ∈ addresses cells ∨ a ∉ s.heap)
    (hsame : Elsewhere changed s.heap heap') (hslots : ∀ j, j ≠ i → load slots' j = load s.slots j)
    (hmap : ∀ key, (function key s.size).toNat ≠ i → map' key = map key)
    (hnew : Holds function ⟨heap', s.size, slots'⟩ map' i cells') :
    Represents function ⟨heap', s.size, slots'⟩ map' := by
  intro j hj
  rcases eq_or_ne j i with rfl | hne
  · exact ⟨cells', hnew⟩
  · obtain ⟨others, hothers⟩ := h j hj
    refine ⟨others, ⟨?_, ?_, hothers.placed, hothers.nodup⟩, ?_⟩
    · exact (hslots j hne).trans hothers.slot
    · refine hothers.linked.elsewhere hsame fun a ha hmem => ?_
      rcases hchanged a hmem with hchain | hdead
      · exact hcells.apart hothers.toChained hne hchain ha
      · exact hdead (Links.mem_heap_of_linked hothers.linked ha)
    · intro key value hkey
      rw [hmap key fun heq => hne (hkey.symm.trans heq)]
      exact hothers.values key value hkey

/-- A chain begins with nodes that hold other keys, and ends there or goes on with the key. -/
lemma exists_split (key : Key) (cells : List (ℕ × Entry Key Value)) :
    ∃ before rest, cells = before ++ rest ∧ (∀ cell ∈ before, cell.2.key ≠ key) ∧
      ∀ cell ∈ rest.head?, cell.2.key = key := by
  induction cells with
  | nil => exact ⟨[], [], rfl, by simp, by simp⟩
  | cons cell cells ih =>
    rcases eq_or_ne cell.2.key key with hkey | hkey
    · exact ⟨[], cell :: cells, rfl, by simp, by simpa using hkey⟩
    · obtain ⟨before, rest, rfl, hbefore, hrest⟩ := ih
      exact ⟨cell :: before, rest, rfl, List.forall_mem_cons.mpr ⟨hkey, hbefore⟩, hrest⟩

/-- The key of a cell is in no other cell of the chain. -/
lemma Chained.key_ne (h : Chained function s i (before ++ cell :: after)) :
    ∀ other ∈ before ++ after, other.2.key ≠ cell.2.key := by
  intro other hother heq
  have hnodup := h.nodup
  rw [List.map_append, List.map_cons] at hnodup
  apply (List.nodup_middle.mp hnodup).notMem
  rw [← List.map_append, ← heq]
  exact List.mem_map_of_mem hother

/-- A key that no node has is not in the chain. -/
lemma not_mem_of_key_ne (h : ∀ cell ∈ cells, cell.2.key ≠ key) (value : Value) :
    ⟨key, value⟩ ∉ cells.map Prod.snd := by
  intro hmem
  obtain ⟨cell, hcell, heq⟩ := List.mem_map.mp hmem
  exact h cell hcell (congrArg Entry.key heq)

/-- The last operation decides, if it touches the key. -/
lemma lastSet_append_singleton {operations : List (Operation Key Value)}
    {operation : Operation Key Value} {found : Value} :
    LastSet (operations ++ [operation]) key found ↔
      (∃ node, operation = .set key found node) ∨
        ¬ Touches key operation ∧ LastSet operations key found := by
  constructor
  · rintro ⟨earlier, node, later, hsplit, hlater⟩
    rcases List.eq_nil_or_concat later with rfl | ⟨later, last, rfl⟩
    · exact .inl ⟨node, List.append_singleton_inj.mp hsplit |>.2⟩
    · rw [List.concat_eq_append] at hsplit hlater
      rw [← List.cons_append, ← List.append_assoc] at hsplit
      obtain ⟨rfl, rfl⟩ := List.append_singleton_inj.mp hsplit
      exact .inr ⟨hlater operation (by simp), earlier, node, later, rfl,
        fun o ho => hlater o (List.mem_append_left _ ho)⟩
  · rintro (⟨node, rfl⟩ | ⟨huntouched, earlier, node, later, rfl, hlater⟩)
    · exact ⟨operations, node, [], rfl, by simp⟩
    · refine ⟨earlier, node, later ++ [operation], by simp, ?_⟩
      intro o ho
      rcases List.mem_append.mp ho with hold | hnew
      · exact hlater o hold
      · exact List.mem_singleton.mp hnew ▸ huntouched

/-! ## The calls -/

/-- Deleting a chain frees its nodes and no others. -/
lemma deleteFrom_eq_ok (h : Linked heap cells none) (hnodup : (addresses cells).Nodup) {fuel : ℕ}
    (hfuel : cells.length < fuel) :
    ∃ heap', deleteFrom fuel heap (first cells none) = .ok heap' ∧
      Elsewhere (addresses cells) heap heap' := by
  induction cells generalizing heap fuel with
  | nil =>
    obtain ⟨fuel, rfl⟩ := Nat.exists_eq_add_one_of_ne_zero (show fuel ≠ 0 by omega)
    exact ⟨heap, rfl, fun _ _ => rfl⟩
  | cons cell cells ih =>
    rw [List.length_cons] at hfuel
    obtain ⟨fuel, rfl⟩ := Nat.exists_eq_add_one_of_ne_zero (show fuel ≠ 0 by omega)
    obtain ⟨heap', hdelete, hsame⟩ := ih (Links.linked_erase h hnodup)
      (List.nodup_cons.mp hnodup).2 (show cells.length < fuel by omega)
    refine ⟨heap', ?_, (Links.elsewhere_erase heap cell.1).trans hsame⟩
    rw [first, deleteFrom, if_neg (Option.some_ne_none _), Links.read_of_lookup h.1, ok_bind]
    exact hdelete

/-- A round takes the keys of its slot out of the map. -/
lemma Represents.clearSlot (h : Represents function s map) {index : BitVec w}
    (hindex : index < s.size)
    (hmap : ∀ key, (function key s.size).toNat ≠ index.toNat → map' key = map key)
    (hnone : ∀ key, (function key s.size).toNat = index.toNat → map' key = none) :
    ∃ heap' slots', clearSlot (s.heap, s.slots) index = .ok (heap', slots') ∧
      Represents function ⟨heap', s.size, slots'⟩ map' := by
  obtain ⟨cells, hcells⟩ := h index.toNat hindex
  obtain ⟨heap', hdelete, hsame⟩ := deleteFrom_eq_ok hcells.linked hcells.nodup_addresses
    hcells.length_lt
  obtain ⟨slots', hstore, hslot, hslots⟩ := exists_store s.slots hindex none
  have hnew : Holds function ⟨heap', s.size, slots'⟩ map' index.toNat [] := by
    refine ⟨⟨hslot, trivial, by simp, List.nodup_nil⟩, ?_⟩
    intro key value hkey
    simp [hnone key hkey]
  refine ⟨heap', slots', ?_, h.change hcells.toChained (fun _ => .inl) hsame hslots hmap hnew⟩
  unfold StdHash.clearSlot
  dsimp only
  rw [hcells.slot, ok_bind, hdelete, ok_bind, hstore]
  rfl

/-- The slots below an index have been cleared. -/
def Cleared (function : Key → BitVec w → BitVec w) (size : BitVec w) (map : Key → Option Value)
    (i : ℕ) (p : Heap (Entry Key Value) × Vector (Option ℕ) size.toNat) : Prop :=
  Represents function ⟨p.1, size, p.2⟩ fun key =>
    if (function key size).toNat < i then none else map key

/-- One slot after another is emptied. -/
lemma cleared_clearSlot {size : BitVec w}
    {p : Heap (Entry Key Value) × Vector (Option ℕ) size.toNat} {index : BitVec w}
    (hindex : index < size) (h : Cleared function size map index.toNat p) :
    ∃ p', clearSlot p index = .ok p' ∧ Cleared function size map (index.toNat + 1) p' := by
  have hmap : ∀ key, (function key size).toNat ≠ index.toNat →
      (if (function key size).toNat < index.toNat + 1 then none else map key) =
        if (function key size).toNat < index.toNat then none else map key := by
    intro key hkey
    have hiff : (function key size).toNat < index.toNat + 1 ↔
        (function key size).toNat < index.toNat := by omega
    rw [if_congr hiff rfl rfl]
  have hnone : ∀ key, (function key size).toNat = index.toNat →
      (if (function key size).toNat < index.toNat + 1 then none else map key) = none :=
    fun key hkey => if_pos (Nat.lt_succ_of_le hkey.le)
  obtain ⟨heap', slots', hclear, hnew⟩ := Represents.clearSlot h hindex hmap hnone
  exact ⟨(heap', slots'), hclear, hnew⟩

/-- `clear` leaves an empty map. -/
lemma Represents.clear (h : Represents function s map)
    (hfunction : ∀ key, function key s.size < s.size) :
    ∃ s', clear s = .ok s' ∧ s'.size = s.size ∧ Represents function s' fun _ => none := by
  have hstart : Cleared function s.size map (0 : BitVec w).toNat (s.heap, s.slots) := by
    simpa [Cleared] using h
  obtain ⟨p', hloop, hp'⟩ := forBelow_rule (fun _ _ => cleared_clearSlot)
    (show (0 : BitVec w) ≤ s.size from Nat.zero_le _)
    (show s.size.toNat < (0 : BitVec w).toNat + (s.size.toNat + 1) by omega) hstart
  refine ⟨⟨p'.1, s.size, p'.2⟩, ?_, rfl, ?_⟩
  · unfold StdHash.clear
    rw [hloop]
    rfl
  · have hnone : (fun key => if (function key s.size).toNat < s.size.toNat then none
        else map key) = fun _ => none := funext fun key => if_pos (hfunction key)
    unfold Cleared at hp'
    rwa [hnone] at hp'

/-- The slots below an index hold no node. -/
def EmptyBelow {n : ℕ} (i : ℕ) (slots : Vector (Option ℕ) n) : Prop :=
  ∀ j < i, load slots j = .ok none

/-- The slots are emptied in turn. -/
lemma emptyBelow_store {n : ℕ} (slots : Vector (Option ℕ) n) {index : BitVec w}
    (hindex : index.toNat < n) (h : EmptyBelow index.toNat slots) :
    ∃ slots', store slots index.toNat none = .ok slots' ∧
      EmptyBelow (index.toNat + 1) slots' := by
  obtain ⟨slots', hstore, hslot, hslots⟩ := exists_store slots hindex none
  refine ⟨slots', hstore, fun j hj => ?_⟩
  rcases eq_or_ne j index.toNat with rfl | hne
  · exact hslot
  · exact (hslots j hne).trans (h j (by omega))

/-- A new table stands for the map without values, whatever was in the slots before. -/
lemma create_eq_ok (function : Key → BitVec w → BitVec w) {size : BitVec w}
    (uninitialised : Vector (Option ℕ) size.toNat) :
    ∃ s : State Key Value w, create uninitialised = .ok s ∧ s.size = size ∧
      Represents function s fun _ => none := by
  have hstart : EmptyBelow (0 : BitVec w).toNat uninitialised := by
    intro j hj
    simp at hj
  obtain ⟨slots, hloop, hslots⟩ := forBelow_rule (fun _ slots => emptyBelow_store slots)
    (show (0 : BitVec w) ≤ size from Nat.zero_le _)
    (show size.toNat < (0 : BitVec w).toNat + (size.toNat + 1) by omega) hstart
  refine ⟨⟨∅, size, slots⟩, ?_, rfl, fun i hi => ⟨[], ⟨hslots i hi, trivial, ?_, ?_⟩, ?_⟩⟩
  · unfold create
    rw [hloop]
    rfl
  · simp
  · exact List.nodup_nil
  · simp

variable [DecidableEq Key]

/-- The chain after an operation on a key of the slot. -/
lemma Holds.update (h : Holds function s map i cells)
    (hchained : Chained function ⟨heap', s.size, slots'⟩ i cells') {found : Option Value}
    (hkey : ∀ value, found = some value ↔ ⟨key, value⟩ ∈ cells'.map Prod.snd)
    (hothers : ∀ key' value, key' ≠ key →
      (⟨key', value⟩ ∈ cells'.map Prod.snd ↔ ⟨key', value⟩ ∈ cells.map Prod.snd)) :
    Holds function ⟨heap', s.size, slots'⟩ (Function.update map key found) i cells' := by
  refine ⟨hchained, ?_⟩
  intro key' value hindex
  rcases eq_or_ne key' key with rfl | hne
  · rw [Function.update_self]
    exact hkey value
  · rw [Function.update_of_ne hne, hothers key' value hne]
    exact h.values key' value hindex

/-- `seek` stops at the first node with the key, or at the end. -/
lemma seek_eq_ok {rest : List (ℕ × Entry Key Value)} (h : Linked heap (before ++ rest) none)
    (hbefore : ∀ cell ∈ before, cell.2.key ≠ key) (hrest : ∀ cell ∈ rest.head?, cell.2.key = key)
    {fuel : ℕ} (hfuel : before.length < fuel) (previous : Option ℕ) :
    seek heap key fuel previous (first (before ++ rest) none) =
      .ok (last previous before, first rest none) := by
  induction before generalizing fuel previous with
  | nil =>
    obtain ⟨fuel, rfl⟩ := Nat.exists_eq_add_one_of_ne_zero (show fuel ≠ 0 by simp at hfuel; omega)
    cases rest with
    | nil => rfl
    | cons cell rest =>
      have hkey : cell.2.key = key := hrest cell rfl
      rw [List.nil_append, first, seek, if_neg (Option.some_ne_none _),
        Links.read_of_lookup h.1, ok_bind, if_neg (not_not.mpr hkey)]
      rfl
  | cons cell before ih =>
    rw [List.length_cons] at hfuel
    obtain ⟨fuel, rfl⟩ := Nat.exists_eq_add_one_of_ne_zero (show fuel ≠ 0 by omega)
    obtain ⟨hkey, hbefore⟩ := List.forall_mem_cons.mp hbefore
    rw [List.cons_append, first, seek, if_neg (Option.some_ne_none _),
      Links.read_of_lookup h.1, ok_bind, if_pos hkey, last]
    exact ih h.2 hbefore (by omega) (some cell.1)

/-- `get` returns the value of that node. -/
lemma getFrom_eq_ok {rest : List (ℕ × Entry Key Value)} (h : Linked heap (before ++ rest) none)
    (hbefore : ∀ cell ∈ before, cell.2.key ≠ key) (hrest : ∀ cell ∈ rest.head?, cell.2.key = key)
    {fuel : ℕ} (hfuel : before.length < fuel) (value : Value) :
    getFrom heap key value fuel (first (before ++ rest) none) =
      .ok (rest.head?.elim (false, value) fun cell => (true, cell.2.value)) := by
  induction before generalizing fuel with
  | nil =>
    obtain ⟨fuel, rfl⟩ := Nat.exists_eq_add_one_of_ne_zero (show fuel ≠ 0 by simp at hfuel; omega)
    cases rest with
    | nil => rfl
    | cons cell rest =>
      rw [List.nil_append, first, getFrom, if_neg (Option.some_ne_none _),
        Links.read_of_lookup h.1, ok_bind, if_pos (hrest cell rfl)]
      rfl
  | cons cell before ih =>
    rw [List.length_cons] at hfuel
    obtain ⟨fuel, rfl⟩ := Nat.exists_eq_add_one_of_ne_zero (show fuel ≠ 0 by omega)
    obtain ⟨hkey, hbefore⟩ := List.forall_mem_cons.mp hbefore
    rw [List.cons_append, first, getFrom, if_neg (Option.some_ne_none _),
      Links.read_of_lookup h.1, ok_bind, if_neg hkey]
    exact ih h.2 hbefore (by omega)

/-- A new node at the end of the chain. -/
lemma Holds.set_new (h : Holds function s map i cells)
    (hindex : (function key s.size).toNat = i) (hkeys : ∀ cell ∈ cells, cell.2.key ≠ key)
    (hslot : load slots' i = .ok (first (cells ++ [(node, ⟨key, value⟩)]) none))
    (hlinked : Linked heap' (cells ++ [(node, ⟨key, value⟩)]) none) :
    Holds function ⟨heap', s.size, slots'⟩ (Function.update map key (some value)) i
      (cells ++ [(node, ⟨key, value⟩)]) := by
  refine h.update ⟨hslot, hlinked, ?_, ?_⟩ ?_ ?_
  · intro cell hcell
    rcases List.mem_append.mp hcell with hold | hnew
    · exact h.placed cell hold
    · rw [List.mem_singleton.mp hnew]
      exact hindex
  · rw [List.map_append, List.nodup_append_comm]
    refine List.nodup_cons.mpr ⟨?_, h.nodup⟩
    intro hmem
    obtain ⟨cell, hcell, heq⟩ := List.mem_map.mp hmem
    exact hkeys cell hcell heq
  · intro found
    have hnot := not_mem_of_key_ne hkeys found
    simp [hnot, eq_comm]
  · intro key' found hne
    simp [hne]

/-- A new value in a node of the chain. -/
lemma Holds.set_value (h : Holds function s map i (before ++ cell :: after))
    (hlinked : Linked heap' (before ++ (cell.1, ⟨cell.2.key, value⟩) :: after) none) :
    Holds function ⟨heap', s.size, s.slots⟩ (Function.update map cell.2.key (some value)) i
      (before ++ (cell.1, ⟨cell.2.key, value⟩) :: after) := by
  have hne := h.key_ne
  -- the chain has the same nodes
  have hchained : Chained function ⟨heap', s.size, s.slots⟩ i
      (before ++ (cell.1, ⟨cell.2.key, value⟩) :: after) := by
    refine ⟨?_, hlinked, ?_, ?_⟩
    · rw [h.slot]
      cases before <;> rfl
    · intro c hc
      rw [List.mem_append, List.mem_cons] at hc
      rcases hc with hold | rfl | hold
      · exact h.placed c (List.mem_append_left _ hold)
      · exact h.placed cell (List.mem_append_right before List.mem_cons_self)
      · exact h.placed c (List.mem_append_right before (List.mem_cons_of_mem cell hold))
    · simpa using h.nodup
  refine h.update hchained ?_ ?_
  · intro found
    have hnot := not_mem_of_key_ne hne found
    rw [List.map_append, List.mem_append, not_or] at hnot
    simp [hnot, eq_comm]
  · intro key' found hkey
    have hcell : (⟨key', found⟩ : Entry Key Value) ≠ cell.2 := fun heq =>
      hkey (congrArg Entry.key heq)
    simp [hkey, hcell]

/-- A node less in the chain. -/
lemma Holds.erase (h : Holds function s map i (before ++ cell :: after))
    (hslot : load slots' i = .ok (first (before ++ after) none))
    (hlinked : Linked heap' (before ++ after) none) :
    Holds function ⟨heap', s.size, slots'⟩ (Function.update map cell.2.key none) i
      (before ++ after) := by
  have hne := h.key_ne
  refine h.update ⟨hslot, hlinked, ?_, ?_⟩ ?_ ?_
  · intro c hc
    apply h.placed c
    rw [List.mem_append] at hc
    exact List.mem_append.mpr (hc.imp_right (List.mem_cons_of_mem cell))
  · have hnodup := h.nodup
    rw [List.map_append, List.map_cons] at hnodup
    rw [List.map_append]
    exact (List.nodup_middle.mp hnodup).of_cons
  · intro found
    simpa using not_mem_of_key_ne hne found
  · intro key' found hkey
    have hcell : (⟨key', found⟩ : Entry Key Value) ≠ cell.2 := fun heq =>
      hkey (congrArg Entry.key heq)
    simp [hcell]

/-- What an operation does to its key is not seen at the keys of other slots. -/
lemma update_of_index_ne (hi : (function key s.size).toNat = i) (found : Option Value)
    (key' : Key) (hne : (function key' s.size).toNat ≠ i) :
    Function.update map key found key' = map key' := by
  have hkey : key' ≠ key := fun heq => hne (by rw [heq, hi])
  rw [Function.update_of_ne hkey]

/-- `get` is the lookup in the map. -/
lemma Represents.get (h : Represents function s map) (hindex : function key s.size < s.size)
    (value : Value) :
    get function s key value = .ok ((map key).elim (false, value) fun found => (true, found)) := by
  obtain ⟨cells, hcells⟩ := h (function key s.size).toNat hindex
  have hrounds := hcells.length_lt
  obtain ⟨before, rest, rfl, hbefore, hrest⟩ := exists_split key cells
  rw [List.length_append] at hrounds
  unfold StdHash.get
  rw [hcells.slot, ok_bind, getFrom_eq_ok hcells.linked hbefore hrest (by omega)]
  congr 1
  cases rest with
  | nil =>
    rw [List.append_nil] at hcells
    -- no node of the chain has the key
    have hnone : map key = none := by
      rw [Option.eq_none_iff_forall_ne_some]
      intro found hfound
      exact not_mem_of_key_ne hbefore found ((hcells.values key found rfl).mp hfound)
    rw [hnone]
    rfl
  | cons cell rest =>
    obtain rfl : cell.2.key = key := hrest cell rfl
    -- the node that was found has its value
    have hsome : map cell.2.key = some cell.2.value :=
      (hcells.values _ _ rfl).mpr (List.mem_map_of_mem (List.mem_append_cons_self))
    rw [hsome]
    rfl

/-- Where `set` and `erase` find the chain of their key, and how their loop ends there. -/
lemma Represents.seek (h : Represents function s map) (hindex : function key s.size < s.size) :
    ∃ before rest, Holds function s map (function key s.size).toNat (before ++ rest) ∧
      (∀ cell ∈ before, cell.2.key ≠ key) ∧ (∀ cell ∈ rest.head?, cell.2.key = key) ∧
      seek s.heap key (rounds s.heap) none (first (before ++ rest) none) =
        .ok (last none before, first rest none) := by
  obtain ⟨cells, hcells⟩ := h (function key s.size).toNat hindex
  have hrounds := hcells.length_lt
  obtain ⟨before, rest, rfl, hbefore, hrest⟩ := exists_split key cells
  rw [List.length_append] at hrounds
  exact ⟨before, rest, hcells, hbefore, hrest,
    seek_eq_ok hcells.linked hbefore hrest (by omega) none⟩

/-- `set` is the update of the map. -/
lemma Represents.set (h : Represents function s map) (hindex : function key s.size < s.size)
    (hfree : node ∉ s.heap) (value : Value) :
    ∃ s', set function s key value node = .ok s' ∧ s'.size = s.size ∧
      Represents function s' (Function.update map key (some value)) := by
  obtain ⟨before, rest, hcells, hbefore, hrest, hseek⟩ := h.seek hindex
  unfold StdHash.set
  dsimp only
  rw [hcells.slot, ok_bind, hseek, ok_bind]
  dsimp only
  cases rest with
  | cons cell after =>
    -- the key is in the chain, and its node gets the value
    obtain rfl : cell.2.key = key := hrest cell rfl
    obtain ⟨heap', hmodify, hlinked, hsame⟩ := Links.modify_cell hcells.linked
      hcells.nodup_addresses fun entry => { entry with value := value }
    rw [first, if_neg (Option.some_ne_none _), hmodify, ok_bind]
    refine ⟨_, rfl, rfl, h.change hcells.toChained ?_ hsame (fun _ _ => rfl)
      (update_of_index_ne rfl _) (hcells.set_value hlinked)⟩
    exact List.forall_mem_singleton.mpr (.inl (by simp))
  | nil =>
    rw [List.append_nil] at hcells
    rw [first, if_pos rfl]
    have hnew : node ∉ addresses before := fun hmem =>
      hfree (Links.mem_heap_of_linked hcells.linked hmem)
    rcases List.eq_nil_or_concat before with rfl | ⟨before, p, rfl⟩
    · -- the chain is empty, and the slot gets the new node
      obtain ⟨slots', hstore, hslot, hslots⟩ := exists_store s.slots hindex (some node)
      rw [last, if_pos rfl, hstore, ok_bind]
      refine ⟨_, rfl, rfl, h.change hcells.toChained ?_ (Links.elsewhere_insert _ _ _) hslots
        (update_of_index_ne rfl _) (hcells.set_new rfl hbefore hslot (Links.linked_insert _ _ _))⟩
      exact List.forall_mem_singleton.mpr (.inr hfree)
    · -- the last node of the chain is linked to the new one
      rw [List.concat_eq_append] at hcells hbefore hnew ⊢
      obtain ⟨heap', hset, hlinked, hsame⟩ :=
        Links.setNext_new hcells.linked hcells.nodup_addresses hnew ⟨key, value⟩
      have hslot : load s.slots (function key s.size).toNat =
          .ok (first ((before ++ [p]) ++ [(node, ⟨key, value⟩)]) none) := by
        rw [hcells.slot]
        cases before <;> rfl
      rw [last_append_singleton, if_neg (Option.some_ne_none _), hset, ok_bind]
      refine ⟨_, rfl, rfl, h.change hcells.toChained ?_ hsame (fun _ _ => rfl)
        (update_of_index_ne rfl _) (hcells.set_new rfl hbefore hslot hlinked)⟩
      exact List.forall_mem_cons.mpr ⟨.inr hfree, List.forall_mem_singleton.mpr (.inl (by simp))⟩

/-- `erase` takes the key out of the map. -/
lemma Represents.erase (h : Represents function s map) (hindex : function key s.size < s.size) :
    ∃ s', erase function s key = .ok s' ∧ s'.size = s.size ∧
      Represents function s' (Function.update map key none) := by
  obtain ⟨before, rest, hcells, hbefore, hrest, hseek⟩ := h.seek hindex
  unfold StdHash.erase
  dsimp only
  rw [hcells.slot, ok_bind, hseek, ok_bind]
  dsimp only
  cases rest with
  | nil =>
    -- the key is not in the chain, and nothing changes
    rw [List.append_nil] at hcells
    have hnew : Holds function s (Function.update map key none) _ before :=
      hcells.update hcells.toChained (fun found => by simpa using not_mem_of_key_ne hbefore found)
        fun _ _ _ => Iff.rfl
    have hsame : Elsewhere [] s.heap s.heap := fun _ _ => rfl
    rw [first, if_pos rfl]
    exact ⟨s, rfl, rfl, h.change hcells.toChained (by simp) hsame (fun _ _ => rfl)
      (update_of_index_ne rfl _) hnew⟩
  | cons cell after =>
    obtain rfl : cell.2.key = key := hrest cell rfl
    rw [first, if_neg (Option.some_ne_none _),
      Links.read_of_lookup (Links.lookup_of_linked hcells.linked), ok_bind]
    dsimp only
    rcases List.eq_nil_or_concat before with rfl | ⟨before, p, rfl⟩
    · -- the slot goes on to the node behind
      obtain ⟨slots', hstore, hslot, hslots⟩ := exists_store s.slots hindex (first after none)
      have hlinked := Links.linked_erase hcells.linked hcells.nodup_addresses
      rw [last, if_pos rfl, hstore, ok_bind]
      refine ⟨_, rfl, rfl, h.change hcells.toChained ?_ (Links.elsewhere_erase _ _) hslots
        (update_of_index_ne rfl _) (hcells.erase hslot hlinked)⟩
      exact List.forall_mem_singleton.mpr (.inl (by simp))
    · -- the node in front is linked to the node behind
      rw [List.concat_eq_append] at hcells ⊢
      obtain ⟨heap', hset, hlinked, hsame⟩ :=
        Links.setNext_behind hcells.linked hcells.nodup_addresses
      have hslot : load s.slots (function cell.2.key s.size).toNat =
          .ok (first ((before ++ [p]) ++ after) none) := by
        rw [hcells.slot]
        cases before <;> rfl
      rw [last_append_singleton, if_neg (Option.some_ne_none _), hset, ok_bind]
      refine ⟨_, rfl, rfl, h.change hcells.toChained ?_ hsame (fun _ _ => rfl)
        (update_of_index_ne rfl _) (hcells.erase hslot hlinked)⟩
      exact List.forall_mem_cons.mpr
        ⟨.inl (by simp), List.forall_mem_singleton.mpr (.inl (by simp))⟩

/-- **Step.** No call that is allowed faults, and each does to the map what it should. -/
lemma represents_apply (hfunction : ∀ key, function key s.size < s.size)
    (h : Represents function s map) {operation : Operation Key Value}
    (hallowed : Allowed s operation) :
    ∃ s', apply function s operation = .ok s' ∧ s'.size = s.size ∧
      Represents function s' (next map operation) := by
  cases operation with
  | set key value node => exact h.set (hfunction key) hallowed value
  | erase key => exact h.erase (hfunction key)
  | clear => exact h.clear hfunction

/-! ## Runs -/

/-- A step is an operation that is allowed and that does not fault. -/
lemma step_eq_some_iff {s' : State Key Value w} {operation : Operation Key Value} :
    step function s operation = some s' ↔
      Allowed s operation ∧ apply function s operation = .ok s' := by
  unfold step
  split_ifs with hallowed
  · cases apply function s operation with
    | error fault => simp [hallowed, Except.toOption]
    | ok s₁ => simp [hallowed, Except.toOption]
  · simp [hallowed]

/-- Every step keeps the map. -/
lemma represents_step {size : BitVec w} (hfunction : ∀ key, function key size < size)
    (s : State Key Value w) (map : Key → Option Value) (operation : Operation Key Value)
    (s' : State Key Value w) (h : s.size = size ∧ Represents function s map)
    (hstep : step function s operation = some s') :
    s'.size = size ∧ Represents function s' (next map operation) := by
  obtain ⟨rfl, hs⟩ := h
  obtain ⟨hallowed, happly⟩ := step_eq_some_iff.mp hstep
  obtain ⟨s₁, happly₁, hsize, hs₁⟩ := represents_apply hfunction hs hallowed
  rw [happly] at happly₁
  obtain rfl := Except.ok.inj happly₁
  exact ⟨hsize, hs₁⟩

/-- The map that the operations lead to has the values of the last `set`s. -/
lemma foldl_next_eq_some_iff {operations : List (Operation Key Value)} {found : Value} :
    operations.foldl next (fun _ => none) key = some found ↔ LastSet operations key found := by
  induction operations using List.reverseRecOn with
  | nil => simp [LastSet]
  | append_singleton operations operation ih =>
    rw [List.foldl_concat, lastSet_append_singleton, ← ih]
    cases operation with
    | set key' value node =>
      rcases eq_or_ne key key' with rfl | hne
      · simp [next, Touches, eq_comm]
      · simp [next, Touches, hne, hne.symm]
    | erase key' =>
      rcases eq_or_ne key key' with rfl | hne
      · simp [next, Touches]
      · simp [next, Touches, hne, hne.symm]
    | clear => simp [next, Touches]

/-- **The table as a map.** In every run from a new table, over whatever `new` left in the slots,
`get` finds the value of the last `set` of a key and otherwise leaves what it was given; each
chain holds keys of its slot alone, and none twice; and no call that is allowed faults. -/
theorem refines_map {size : BitVec w} (hfunction : ∀ key, function key size < size)
    (uninitialised : Vector (Option ℕ) size.toNat) :
    ∃ s₀ : State Key Value w, create uninitialised = .ok s₀ ∧
      ∀ operations s, Machine.run (step function) s₀ operations = some s →
        (∀ key found, LastSet operations key found →
          ∀ value, get function s key value = .ok (true, found)) ∧
        (∀ key, (∀ found, ¬ LastSet operations key found) →
          ∀ value, get function s key value = .ok (false, value)) ∧
        (∀ i < size.toNat, ∃ cells, Chained function s i cells) ∧
        ∀ operation, Allowed s operation → Succeeds (apply function s operation) := by
  obtain ⟨s₀, hcreate, hsize₀, hs₀⟩ := create_eq_ok function uninitialised
  refine ⟨s₀, hcreate, fun operations s hrun => ?_⟩
  obtain ⟨hsize, hs⟩ := Machine.run_refines (represents_step hfunction) ⟨hsize₀, hs₀⟩ hrun
  subst hsize
  refine ⟨?_, ?_, ?_, ?_⟩
  -- the map is what the last operation on each key has left
  · intro key found hlast value
    rw [hs.get (hfunction key), foldl_next_eq_some_iff.mpr hlast]
    rfl
  · intro key hnone value
    have hmap : operations.foldl next (fun _ => none) key = none :=
      Option.eq_none_iff_forall_ne_some.mpr fun found hfound =>
        hnone found (foldl_next_eq_some_iff.mp hfound)
    rw [hs.get (hfunction key), hmap]
    rfl
  · intro i hi
    obtain ⟨cells, hcells⟩ := hs i hi
    exact ⟨cells, hcells.toChained⟩
  · intro operation hallowed
    obtain ⟨s', happly, -⟩ := represents_apply hfunction hs hallowed
    exact ⟨s', happly⟩

/-- Two keys share a slot, and the one in front is erased. -/
theorem refines_map_collision :
    ∃ s₀ s : State (BitVec 8) ℕ 16,
      create (Vector.replicate (2 : BitVec 16).toNat (some 7)) = .ok s₀ ∧
      Machine.run (step hashFunction) s₀ [.set 1 10 100, .set 3 30 101, .erase 1] = some s ∧
      (∀ value, get hashFunction s 3 value = .ok (true, 30)) ∧
      ∀ value, get hashFunction s 1 value = .ok (false, value) := by
  have hfunction : ∀ key : BitVec 8, hashFunction key (2 : BitVec 16) < 2 :=
    hashFunction_lt (by decide)
  obtain ⟨(s₀ : State (BitVec 8) ℕ 16), hcreate, h⟩ :=
    refines_map hfunction (Vector.replicate _ (some 7))
  obtain rfl := Except.ok.inj hcreate
  obtain ⟨hfound, hmissing, -, -⟩ := h [.set 1 10 100, .set 3 30 101, .erase 1] _ rfl
  refine ⟨_, _, rfl, rfl, hfound 3 30 ⟨[.set 1 10 100], 101, [.erase 1], rfl, ?_⟩, hmissing 1 ?_⟩
  · simp [Touches]
  · intro found hlast
    have hnone := foldl_next_eq_some_iff.mpr hlast
    simp [next] at hnone

end StdHash
end Vng
