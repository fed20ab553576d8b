import Mathlib.Data.List.Nodup
import Mathlib.Tactic.Common

/-!
# Length-type-value lists

A sequence of items, each one byte of length, one byte of type and the value; the length counts
the type and the value. `set` makes an item the only one of its type.
-/

namespace Ltv

/-- A type with its value. -/
structure Item where
  type : BitVec 8
  value : List (BitVec 8)
deriving DecidableEq, Repr

/-- A length that counts the type, the type and the value. -/
def Item.encode (i : Item) : List (BitVec 8) :=
  BitVec.ofNat 8 (i.value.length + 1) :: i.type :: i.value

/-- One item behind the other. -/
def encode (items : List Item) : List (BitVec 8) := items.flatMap Item.encode

/-- The length of the encoding. -/
def size (items : List Item) : ℕ := (encode items).length

/-- The items with `i` for its type. -/
def set (items : List Item) (i : Item) : List Item := items.filter (·.type ≠ i.type) ++ [i]

variable {items before after : List Item} {i : Item}

lemma encode_cons (i : Item) (items : List Item) :
    encode (i :: items) = i.encode ++ encode items := rfl

/-- The bytes of two lists of items, one behind the other. -/
lemma encode_append (items items' : List Item) :
    encode (items ++ items') = encode items ++ encode items' := List.flatMap_append

lemma encode_singleton (i : Item) : encode [i] = i.encode := List.append_nil _

lemma length_encode_item (i : Item) : i.encode.length = i.value.length + 2 := rfl

@[simp] lemma size_nil : size [] = 0 := rfl

lemma size_cons (i : Item) (items : List Item) :
    size (i :: items) = i.value.length + 2 + size items := by
  rw [size, encode_cons, List.length_append, length_encode_item, size]

/-- The sizes add up. -/
lemma size_append (items items' : List Item) :
    size (items ++ items') = size items + size items' := by
  rw [size, encode_append, List.length_append, size, size]

lemma size_singleton (i : Item) : size [i] = i.value.length + 2 := size_cons i []

/-- Every item takes two bytes at least. -/
lemma length_le_size (items : List Item) : 2 * items.length ≤ size items := by
  induction items with
  | nil => exact Nat.zero_le _
  | cons i items ih =>
    rw [size_cons, List.length_cons]
    omega

/-- The order of the items does not matter for the size. -/
lemma size_perm {items items' : List Item} (h : items.Perm items') : size items = size items' :=
  (h.flatMap_right Item.encode).length_eq

/-- An item of a new type goes to the end. -/
lemma set_of_notMem (h : i.type ∉ items.map Item.type) : set items i = items ++ [i] := by
  unfold set
  rw [List.filter_eq_self.mpr]
  intro i' hi'
  have hne : i'.type ≠ i.type := fun hsame => h (List.mem_map.mpr ⟨i', hi', hsame⟩)
  simpa using hne

/-- The item that is set counts in the size. -/
lemma le_size_set (items : List Item) (i : Item) : i.value.length + 2 ≤ size (set items i) := by
  unfold set
  rw [size_append, size_singleton]
  omega

/-- Replacing an item changes the size by the two values. -/
lemma size_set_of_mem {old : Item} (h : (items.map Item.type).Nodup) (hold : old ∈ items)
    (htype : old.type = i.type) :
    size (set items i) + (old.value.length + 2) = size items + (i.value.length + 2) := by
  obtain ⟨before, after, rfl⟩ := List.mem_iff_append.mp hold
  rw [List.map_append, List.map_cons] at h
  have hdisjoint : old.type ∉ before.map Item.type ++ after.map Item.type :=
    (List.nodup_middle.mp h).notMem
  -- no other item has this type
  have hkeep : ∀ l : List Item, old.type ∉ l.map Item.type →
      l.filter (·.type ≠ i.type) = l := by
    intro l hl
    rw [List.filter_eq_self]
    intro i' hi'
    have hne : i'.type ≠ i.type := fun hsame =>
      hl (List.mem_map.mpr ⟨i', hi', hsame.trans htype.symm⟩)
    simpa using hne
  rw [List.mem_append, not_or] at hdisjoint
  unfold set
  rw [List.filter_append, List.filter_cons, hkeep before hdisjoint.1, hkeep after hdisjoint.2,
    if_neg (by simpa using htype)]
  simp only [size_append, size_cons, size_nil]
  omega

/-! ## Reading -/

/-- The item can be encoded: its length is one byte. -/
def Item.Encodable (i : Item) : Prop := i.value.length < 255

/-- The length of an item fits its byte. -/
lemma toNat_length_byte (h : i.Encodable) :
    (BitVec.ofNat 8 (i.value.length + 1)).toNat = i.value.length + 1 := by
  unfold Item.Encodable at h
  rw [BitVec.toNat_ofNat]
  omega

/-- What fits one byte in all does so item by item. -/
lemma encodable_of_size {n : ℕ} (h : size items ≤ n) (hn : n ≤ 255) :
    ∀ i ∈ items, i.Encodable := by
  intro i hi
  obtain ⟨before, after, rfl⟩ := List.mem_iff_append.mp hi
  rw [size_append, size_cons] at h
  unfold Item.Encodable
  omega

/-- The length byte says where an item ends. -/
lemma encode_item_inj {j : Item} {rest rest' : List (BitVec 8)} (hi : i.Encodable)
    (hj : j.Encodable) (h : i.encode ++ rest = j.encode ++ rest') : i = j ∧ rest = rest' := by
  simp only [Item.encode, List.cons_append, List.cons.injEq] at h
  obtain ⟨hlength, htype, hvalue⟩ := h
  have hlen := congrArg BitVec.toNat hlength
  rw [toNat_length_byte hi, toNat_length_byte hj] at hlen
  obtain ⟨hval, hrest⟩ := List.append_inj hvalue (by omega)
  cases i
  cases j
  simp only at htype hval
  exact ⟨by rw [htype, hval], hrest⟩

/-- Of two ways to read the front of one byte string, one goes on where the other stops. -/
lemma encode_append_cases {items' : List Item} {rest rest' : List (BitVec 8)}
    (hitems : ∀ i ∈ items, i.Encodable) (hitems' : ∀ i ∈ items', i.Encodable)
    (h : encode items ++ rest = encode items' ++ rest') :
    (∃ more, items' = items ++ more ∧ rest = encode more ++ rest') ∨
      ∃ i more, items = items' ++ i :: more ∧ rest' = encode (i :: more) ++ rest := by
  -- the lists go together item by item until one of them ends
  induction items generalizing items' with
  | nil => exact .inl ⟨items', rfl, h⟩
  | cons i items ih =>
    cases items' with
    | nil => exact .inr ⟨i, items, rfl, h.symm⟩
    | cons j items' =>
      obtain ⟨hi, htail⟩ := List.forall_mem_cons.mp hitems
      obtain ⟨hj, htail'⟩ := List.forall_mem_cons.mp hitems'
      rw [encode_cons, encode_cons, List.append_assoc, List.append_assoc] at h
      obtain ⟨rfl, hrest⟩ := encode_item_inj hi hj h
      rcases ih htail htail' hrest with ⟨more, rfl, hmore⟩ | ⟨k, more, rfl, hmore⟩
      · exact .inl ⟨more, rfl, hmore⟩
      · exact .inr ⟨k, more, rfl, hmore⟩

/-- What may stand behind the last item: nothing, an item of type zero and what follows it, or
zeros. -/
inductive Trailer : List (BitVec 8) → Prop
  | none : Trailer []
  | typeZero (length : BitVec 8) (tail : List (BitVec 8)) : Trailer (length :: 0 :: tail)
  | zeros (n : ℕ) : Trailer (List.replicate n 0)

/-- **The reference parser**, as a relation: the bytes are these items, all of them complete and of
a type other than zero, and a trailer. -/
def Parses (bytes : List (BitVec 8)) (items : List Item) : Prop :=
  ∃ rest, bytes = encode items ++ rest ∧ Trailer rest ∧ ∀ i ∈ items, i.Encodable ∧ i.type ≠ 0

/-- No item of a type other than zero starts a trailer. -/
lemma Trailer.ne_encode {rest : List (BitVec 8)} (h : Trailer rest) (hi : i.type ≠ 0)
    (tail : List (BitVec 8)) : rest ≠ i.encode ++ tail := by
  intro heq
  cases h with
  | none => cases heq
  | typeZero length rest =>
    simp only [Item.encode, List.cons_append, List.cons.injEq] at heq
    exact hi heq.2.1.symm
  | zeros n =>
    have hmem : i.type ∈ List.replicate n (0 : BitVec 8) := by
      rw [heq]
      simp [Item.encode]
    exact hi (List.eq_of_mem_replicate hmem)

lemma Trailer.parses {rest : List (BitVec 8)} (h : Trailer rest) : Parses rest [] :=
  ⟨rest, rfl, h, by simp⟩

/-- Items in front of what is parsed are parsed too. -/
lemma parses_append {rest : List (BitVec 8)} {more : List Item}
    (hitems : ∀ i ∈ items, i.Encodable ∧ i.type ≠ 0) (h : Parses rest more) :
    Parses (encode items ++ rest) (items ++ more) := by
  obtain ⟨tail, rfl, htail, hmore⟩ := h
  refine ⟨tail, by rw [encode_append, List.append_assoc], htail, ?_⟩
  exact List.forall_mem_append.mpr ⟨hitems, hmore⟩

/-- What was read of the front is read of the whole. -/
lemma Parses.of_append {rest : List (BitVec 8)} {items' : List Item}
    (hitems : ∀ i ∈ items, i.Encodable ∧ i.type ≠ 0) (h : Parses (encode items ++ rest) items') :
    ∃ more, items' = items ++ more ∧ Parses rest more := by
  obtain ⟨tail, heq, htail, hitems'⟩ := h
  rcases encode_append_cases (fun i hi => (hitems i hi).1) (fun i hi => (hitems' i hi).1) heq with
    ⟨more, rfl, hmore⟩ | ⟨i, more, rfl, hmore⟩
  · exact ⟨more, rfl, tail, hmore, htail, fun i hi => hitems' i (List.mem_append_right _ hi)⟩
  · rw [encode_cons, List.append_assoc] at hmore
    have hi := (hitems i (List.mem_append_right _ List.mem_cons_self)).2
    exact absurd hmore (htail.ne_encode hi _)

/-- The bytes determine the items. -/
theorem Parses.unique {bytes : List (BitVec 8)} {items' : List Item} (h : Parses bytes items)
    (h' : Parses bytes items') : items = items' := by
  obtain ⟨rest, rfl, hrest, hitems⟩ := h
  obtain ⟨more, rfl, tail, hmore, -, hmoreItems⟩ := h'.of_append hitems
  cases more with
  | nil => rw [List.append_nil]
  | cons i more =>
    rw [encode_cons, List.append_assoc] at hmore
    exact absurd hmore (hrest.ne_encode (hmoreItems i List.mem_cons_self).2 _)

/-- An item that says it is longer than what is left cannot be read, nor can one without a type. -/
lemma not_parses_incomplete {length type : BitVec 8} {tail : List (BitVec 8)} (hzero : type ≠ 0)
    (h : length.toNat < 1 ∨ tail.length + 1 < length.toNat) :
    ¬Parses (length :: type :: tail) items := by
  rintro ⟨rest, heq, hrest, hitems⟩
  cases items with
  -- nothing but a trailer, which begins with a zero type or is all zeros
  | nil =>
    subst heq
    generalize hall : length :: type :: tail = all at hrest
    cases hrest with
    | none => cases hall
    | typeZero l r =>
      simp only [List.cons.injEq] at hall
      exact hzero hall.2.1
    | zeros n =>
      have hmem : type ∈ List.replicate n (0 : BitVec 8) := hall ▸ by simp
      exact hzero (List.eq_of_mem_replicate hmem)
  -- an item with this length would have all its bytes
  | cons i items =>
    have hbyte := toNat_length_byte (hitems i List.mem_cons_self).1
    rw [encode_cons, Item.encode] at heq
    simp only [List.cons_append, List.cons.injEq] at heq
    obtain ⟨rfl, -, rfl⟩ := heq
    simp only [List.length_append] at h
    omega

/-- One byte that is not zero is no item. -/
lemma not_parses_singleton {b : BitVec 8} (h : b ≠ 0) : ¬Parses [b] items := by
  rintro ⟨rest, heq, hrest, -⟩
  cases items with
  | nil =>
    subst heq
    generalize hall : [b] = all at hrest
    cases hrest with
    | none => cases hall
    | typeZero l r => cases hall
    | zeros n =>
      have hmem : b ∈ List.replicate n (0 : BitVec 8) := hall ▸ by simp
      exact h (List.eq_of_mem_replicate hmem)
  -- an item has two bytes at least
  | cons i items =>
    have hlen := congrArg List.length heq
    rw [encode_cons, List.append_assoc, List.length_append, length_encode_item] at hlen
    simp only [List.length_singleton] at hlen
    omega

/-- An item may be without a value. -/
lemma parses_valueless {type : BitVec 8} (h : type ≠ 0) : Parses [1, type] [⟨type, []⟩] := by
  refine ⟨[], rfl, .none, ?_⟩
  intro i hi
  rw [List.mem_singleton.mp hi]
  exact ⟨show 0 < 255 by omega, h⟩

end Ltv
