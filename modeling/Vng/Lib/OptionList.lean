import Mathlib.Data.List.Basic
import Mathlib.Tactic.Common

/-!
# Delta-encoded option lists

An option is announced by one byte: a nibble for the distance of its number from the number before
it and a nibble for the length of its value. A nibble of 13 or 14 moves its field into one or two
bytes behind. A list of options ends with the buffer or at a marker, which no option begins with.
-/

namespace OptionList

/-- The greatest distance or length that a nibble with two bytes behind it can say. -/
def maxField : ℕ := 65535 + 269

/-- An option by its distance from the one before. -/
structure Item where
  delta : ℕ
  value : List (BitVec 8)
  delta_le : delta ≤ maxField
  length_le : value.length ≤ maxField
deriving DecidableEq, Repr

/-- What ends a list of options before the payload. -/
def marker : BitVec 8 := 0xFF

/-- How a field is announced in the header. -/
def nibble (v : ℕ) : ℕ := if v < 13 then v else if v < 269 then 13 else 14

/-- The bytes behind a nibble. -/
def extension (v : ℕ) : List (BitVec 8) :=
  if v < 13 then []
  else if v < 269 then [BitVec.ofNat 8 (v - 13)]
  else [BitVec.ofNat 8 ((v - 269) / 256), BitVec.ofNat 8 (v - 269)]

/-- The announcements of the distance and of the length. -/
def header (delta length : ℕ) : BitVec 8 := BitVec.ofNat 8 (nibble delta * 16 + nibble length)

/-- An option: header, extended fields, value. -/
def encodeOne (delta : ℕ) (value : List (BitVec 8)) : List (BitVec 8) :=
  header delta value.length :: (extension delta ++ (extension value.length ++ value))

def Item.encode (i : Item) : List (BitVec 8) := encodeOne i.delta i.value

/-- One option behind the other. -/
def encode (items : List Item) : List (BitVec 8) := items.flatMap Item.encode

/-- Read a field of which the nibble is known. -/
def readField : ℕ → List (BitVec 8) → Option (ℕ × List (BitVec 8))
  | 13, b :: rest => some (b.toNat + 13, rest)
  | 14, hi :: lo :: rest => some (hi.toNat * 256 + lo.toNat + 269, rest)
  | n, bytes => if n < 13 then some (n, bytes) else none

/-- Read the option in front: its distance, its value and what is behind it. -/
def readOne : List (BitVec 8) → Option (ℕ × List (BitVec 8) × List (BitVec 8))
  | [] => none
  | h :: rest => do
    let (delta, rest) ← readField (h.toNat / 16) rest
    let (length, rest) ← readField (h.toNat % 16) rest
    if length ≤ rest.length then some (delta, rest.take length, rest.drop length) else none

/-- Nothing is left, or the marker is next. -/
def Ends (rest : List (BitVec 8)) : Prop := rest = [] ∨ ∃ payload, rest = marker :: payload

/-- The options by their numbers, from a number on. -/
def numbered (number : ℕ) : List Item → List (ℕ × List (BitVec 8))
  | [] => []
  | i :: items => (number + i.delta, i.value) :: numbered (number + i.delta) items

/-- The bytes of options that are known by their numbers, from a number on. -/
def encodeFrom (number : ℕ) : List (ℕ × List (BitVec 8)) → List (BitVec 8)
  | [] => []
  | o :: options => encodeOne (o.1 - number) o.2 ++ encodeFrom o.1 options

/-- The number of the last option. -/
def lastNumber (number : ℕ) : List (ℕ × List (BitVec 8)) → ℕ
  | [] => number
  | o :: options => lastNumber o.1 options

/-! ## One field -/

section Field

variable {n v delta length : ℕ} {bytes rest value : List (BitVec 8)}

/-- No field is announced by 15. -/
lemma nibble_lt_fifteen (v : ℕ) : nibble v < 15 := by
  unfold nibble
  split_ifs <;> omega

/-- No, one or two bytes, as the announcement says. -/
lemma length_extension (v : ℕ) :
    (extension v).length = if v < 13 then 0 else if v < 269 then 1 else 2 := by
  unfold extension
  split_ifs <;> rfl

/-- Two announcements in one byte. -/
lemma toNat_header (delta length : ℕ) :
    (header delta length).toNat = nibble delta * 16 + nibble length := by
  have := nibble_lt_fifteen delta
  have := nibble_lt_fifteen length
  rw [header, BitVec.toNat_ofNat, Nat.mod_eq_of_lt (by omega)]

lemma header_div (delta length : ℕ) : (header delta length).toNat / 16 = nibble delta := by
  have := nibble_lt_fifteen length
  rw [toNat_header]
  omega

lemma header_mod (delta length : ℕ) : (header delta length).toNat % 16 = nibble length := by
  have := nibble_lt_fifteen length
  rw [toNat_header]
  omega

/-- No option begins like the marker of a payload. -/
lemma header_ne_marker (delta length : ℕ) : header delta length ≠ marker := by
  intro h
  have hdiv := congrArg (fun b : BitVec 8 => b.toNat / 16) h
  have := nibble_lt_fifteen delta
  simp only [header_div] at hdiv
  have hmarker : marker.toNat / 16 = 15 := rfl
  omega

/-- A field is read back from its nibble and the bytes behind it. -/
lemma readField_extension (hv : v ≤ maxField) :
    readField (nibble v) (extension v ++ rest) = some (v, rest) := by
  unfold maxField at hv
  unfold nibble extension
  split_ifs with h₁ h₂
  · rw [List.nil_append, readField, if_pos h₁]
    · omega
    · omega
  · have hsub : v - 13 < 256 := by omega
    simp only [List.cons_append, List.nil_append, readField, BitVec.toNat_ofNat, Option.some.injEq,
      Prod.mk.injEq, and_true]
    omega
  · simp only [List.cons_append, List.nil_append, readField, BitVec.toNat_ofNat, Option.some.injEq,
      Prod.mk.injEq, and_true]
    omega

/-- Only what is written for a field is read as it. -/
lemma readField_eq_some_iff :
    readField n bytes = some (v, rest) ↔
      v ≤ maxField ∧ n = nibble v ∧ bytes = extension v ++ rest := by
  constructor
  · intro h
    unfold readField at h
    split at h
    -- announced by 13: one byte, counted from 13
    · next b tail =>
      obtain ⟨rfl, rfl⟩ := Prod.mk.inj (Option.some.inj h)
      have hb := b.isLt
      refine ⟨by unfold maxField; omega, ?_, ?_⟩
      · rw [nibble, if_neg (by omega), if_pos (by omega)]
      · rw [extension, if_neg (by omega), if_pos (by omega), Nat.add_sub_cancel,
          BitVec.ofNat_toNat, BitVec.setWidth_eq, List.cons_append, List.nil_append]
    -- announced by 14: two bytes, counted from 269
    · next hi lo tail =>
      obtain ⟨rfl, rfl⟩ := Prod.mk.inj (Option.some.inj h)
      have hhi := hi.isLt
      have hlo := lo.isLt
      refine ⟨by unfold maxField; omega, ?_, ?_⟩
      · rw [nibble, if_neg (by omega), if_neg (by omega)]
      · have hdiv : (hi.toNat * 256 + lo.toNat) / 256 = hi.toNat := by omega
        have hhi' : BitVec.ofNat 8 hi.toNat = hi := by
          rw [BitVec.ofNat_toNat, BitVec.setWidth_eq]
        have hlo' : BitVec.ofNat 8 (hi.toNat * 256 + lo.toNat) = lo := by
          apply BitVec.eq_of_toNat_eq
          rw [BitVec.toNat_ofNat]
          omega
        rw [extension, if_neg (by omega), if_neg (by omega), Nat.add_sub_cancel, hdiv, hhi', hlo',
          List.cons_append, List.cons_append, List.nil_append]
    -- the announcement is the field itself
    · split_ifs at h with hn
      obtain ⟨rfl, rfl⟩ := Prod.mk.inj (Option.some.inj h)
      refine ⟨by unfold maxField; omega, ?_, ?_⟩
      · rw [nibble, if_pos hn]
      · rw [extension, if_pos hn, List.nil_append]
  · rintro ⟨hv, rfl, rfl⟩
    exact readField_extension hv

/-- A field below 13 has no bytes of its own. -/
lemma readField_small (hn : n < 13) : readField n bytes = some (n, bytes) := by
  rw [readField, if_pos hn] <;> omega

/-- A field is not read if it is announced by 15, or if its bytes are missing. -/
lemma readField_eq_none_iff (hn : n < 16) :
    readField n bytes = none ↔ n = 15 ∨ n = 13 ∧ bytes = [] ∨ n = 14 ∧ bytes.length < 2 := by
  obtain hsmall | rfl | rfl | rfl : n < 13 ∨ n = 13 ∨ n = 14 ∨ n = 15 := by omega
  · rw [readField_small hsmall]
    simp only [reduceCtorEq, false_iff]
    omega
  · cases bytes <;> simp [readField]
  · match bytes with
    | [] => simp [readField]
    | [hi] => simp [readField]
    | hi :: lo :: rest => simp [readField]
  · simp [readField]

end Field

/-! ## One option -/

section One

variable {delta : ℕ} {bytes rest value : List (BitVec 8)} {i : Item}

lemma length_encodeOne (delta : ℕ) (value : List (BitVec 8)) :
    (encodeOne delta value).length =
      1 + (extension delta).length + (extension value.length).length + value.length := by
  simp only [encodeOne, List.length_cons, List.length_append]
  omega

/-- Both fields are read, and there are enough bytes for the value. -/
lemma readOne_cons_eq_some_iff {b : BitVec 8} {tail : List (BitVec 8)} :
    readOne (b :: tail) = some (delta, value, rest) ↔
      ∃ tail', readField (b.toNat / 16) tail = some (delta, tail') ∧
        ∃ length tail'', readField (b.toNat % 16) tail' = some (length, tail'') ∧
          length ≤ tail''.length ∧ value = tail''.take length ∧ rest = tail''.drop length := by
  simp only [readOne, Option.bind_eq_bind, Option.bind_eq_some_iff, Prod.exists]
  constructor
  · rintro ⟨delta', tail', hdelta, length, tail'', hlength, h⟩
    split_ifs at h with hle
    obtain ⟨rfl, hsplit⟩ := Prod.mk.inj (Option.some.inj h)
    obtain ⟨rfl, rfl⟩ := Prod.mk.inj hsplit
    exact ⟨tail', hdelta, length, tail'', hlength, hle, rfl, rfl⟩
  · rintro ⟨tail', hdelta, length, tail'', hlength, hle, rfl, rfl⟩
    exact ⟨delta, tail', hdelta, length, tail'', hlength, if_pos hle⟩

/-- An option is read back, and what is behind it is left. -/
lemma readOne_encodeOne (hdelta : delta ≤ maxField) (hlength : value.length ≤ maxField) :
    readOne (encodeOne delta value ++ rest) = some (delta, value, rest) := by
  simp only [encodeOne, List.cons_append, readOne, header_div, header_mod, List.append_assoc,
    readField_extension hdelta, readField_extension hlength, Option.bind_eq_bind,
    Option.bind_some, List.length_append, List.take_left, List.drop_left]
  rw [if_pos (Nat.le_add_right _ _)]

/-- **Options are read exactly.** What is read as an option is what is written for it. -/
theorem readOne_eq_some_iff :
    readOne bytes = some (delta, value, rest) ↔
      delta ≤ maxField ∧ value.length ≤ maxField ∧ bytes = encodeOne delta value ++ rest := by
  constructor
  · intro h
    cases bytes with
    | nil => cases h
    | cons b tail =>
      obtain ⟨rest₁, hd, l, rest₂, hl, hle, rfl, rfl⟩ := readOne_cons_eq_some_iff.mp h
      obtain ⟨hdle, hdn, rfl⟩ := readField_eq_some_iff.mp hd
      obtain ⟨hlle, hln, rfl⟩ := readField_eq_some_iff.mp hl
      have hlength : (rest₂.take l).length = l := List.length_take_of_le hle
      refine ⟨hdle, hlength.symm ▸ hlle, ?_⟩
      -- the header is made of the two announcements that were read
      have hheader : b = header delta l := by
        apply BitVec.eq_of_toNat_eq
        have := nibble_lt_fifteen l
        rw [toNat_header]
        omega
      rw [encodeOne, hlength, hheader]
      simp only [List.cons_append, List.append_assoc, List.take_append_drop]
  · rintro ⟨hdelta, hlength, rfl⟩
    exact readOne_encodeOne hdelta hlength

lemma readOne_encode (i : Item) (rest : List (BitVec 8)) :
    readOne (i.encode ++ rest) = some (i.delta, i.value, rest) :=
  readOne_encodeOne i.delta_le i.length_le

/-- An option and what is behind it can be told from the bytes. -/
lemma item_append_inj {i' : Item} {rest' : List (BitVec 8)}
    (h : i.encode ++ rest = i'.encode ++ rest') : i = i' ∧ rest = rest' := by
  have hread := congrArg readOne h
  rw [readOne_encode, readOne_encode, Option.some.injEq, Prod.mk.injEq, Prod.mk.injEq] at hread
  obtain ⟨hdelta, hvalue, hrest⟩ := hread
  refine ⟨?_, hrest⟩
  cases i
  cases i'
  simp_all only

lemma encode_ne_nil (i : Item) : i.encode ≠ [] := List.cons_ne_nil _ _

/-- No option is empty. -/
lemma length_encode_pos (i : Item) : 0 < i.encode.length :=
  List.length_pos_of_ne_nil (encode_ne_nil i)

/-- No option begins with the marker. -/
lemma not_ends_encode (i : Item) (rest : List (BitVec 8)) : ¬ Ends (i.encode ++ rest) := by
  rintro (h | ⟨payload, h⟩)
  · exact encode_ne_nil i (List.append_eq_nil_iff.mp h).1
  · exact header_ne_marker _ _ (List.cons.inj h).1

end One

/-! ## Lists of options -/

section List

variable {items items' : List Item} {rest rest' : List (BitVec 8)}

@[simp] lemma encode_nil : encode [] = [] := rfl

lemma encode_cons (i : Item) (items : List Item) :
    encode (i :: items) = i.encode ++ encode items := rfl

/-- The options of two lists, one behind the other. -/
lemma encode_append (items items' : List Item) :
    encode (items ++ items') = encode items ++ encode items' := List.flatMap_append

/-- A list of options and what ends it can be told from the bytes. -/
theorem encode_append_inj (hrest : Ends rest) (hrest' : Ends rest')
    (h : encode items ++ rest = encode items' ++ rest') : items = items' ∧ rest = rest' := by
  -- option by option; a list that ends early is followed by the start of an option, which is no end
  induction items generalizing items' with
  | nil =>
    cases items' with
    | nil => exact ⟨rfl, h⟩
    | cons i' items' =>
      rw [encode_nil, List.nil_append, encode_cons, List.append_assoc] at h
      exact absurd (h ▸ hrest) (not_ends_encode i' _)
  | cons i items ih =>
    cases items' with
    | nil =>
      rw [encode_nil, List.nil_append, encode_cons, List.append_assoc] at h
      exact absurd (h.symm ▸ hrest') (not_ends_encode i _)
    | cons i' items' =>
      rw [encode_cons, encode_cons, List.append_assoc, List.append_assoc] at h
      obtain ⟨rfl, hnext⟩ := item_append_inj h
      obtain ⟨rfl, rfl⟩ := ih hnext
      exact ⟨rfl, rfl⟩

end List

/-! ## Options by their numbers -/

section Number

variable {number : ℕ} {options options' : List (ℕ × List (BitVec 8))}

/-- A second list of options goes on from the last number of the first. -/
lemma encodeFrom_append (number : ℕ) (options options' : List (ℕ × List (BitVec 8))) :
    encodeFrom number (options ++ options') =
      encodeFrom number options ++ encodeFrom (lastNumber number options) options' := by
  induction options generalizing number with
  | nil => rfl
  | cons o options ih => rw [List.cons_append, encodeFrom, encodeFrom, lastNumber, ih,
      List.append_assoc]

/-- The last number of the second list, seen from the last of the first. -/
lemma lastNumber_append (number : ℕ) (options options' : List (ℕ × List (BitVec 8))) :
    lastNumber number (options ++ options') = lastNumber (lastNumber number options) options' := by
  induction options generalizing number with
  | nil => rfl
  | cons o options ih => exact ih o.1

/-- The last number is the first one or that of an option. -/
lemma lastNumber_mem (number : ℕ) (options : List (ℕ × List (BitVec 8))) :
    lastNumber number options = number ∨ ∃ o ∈ options, lastNumber number options = o.1 := by
  induction options generalizing number with
  | nil => exact .inl rfl
  | cons o options ih =>
    right
    rcases ih o.1 with h | ⟨o', ho', h⟩
    · exact ⟨o, List.mem_cons_self, h⟩
    · exact ⟨o', List.mem_cons_of_mem o ho', h⟩

/-- Options in the order of their numbers have distances. -/
lemma exists_items_eq (hsorted : options.Pairwise fun a b => a.1 ≤ b.1)
    (hnumber : ∀ o ∈ options, number ≤ o.1)
    (hbound : ∀ o ∈ options, o.1 ≤ maxField ∧ o.2.length ≤ maxField) :
    ∃ items, encode items = encodeFrom number options ∧ numbered number items = options := by
  induction options generalizing number with
  | nil => exact ⟨[], rfl, rfl⟩
  | cons o options ih =>
    obtain ⟨hfirst, hsorted⟩ := List.pairwise_cons.mp hsorted
    obtain ⟨⟨hdelta, hlength⟩, hbound⟩ := List.forall_mem_cons.mp hbound
    have hle := hnumber o List.mem_cons_self
    obtain ⟨items, hbytes, hnumbered⟩ := ih hsorted hfirst hbound
    refine ⟨⟨o.1 - number, o.2, by omega, hlength⟩ :: items, ?_, ?_⟩
    · rw [encode_cons, hbytes]
      rfl
    · rw [numbered]
      dsimp only
      rw [Nat.add_sub_cancel' hle, hnumbered]

end Number

end OptionList
