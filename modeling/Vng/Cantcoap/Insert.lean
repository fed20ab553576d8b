import Mathlib.Data.List.Induction
import Vng.Cantcoap.Validate
import Vng.Lib.DeltaQueue

/-!
# Putting an option into a message

`addOption` makes a hole in the message, gives the option behind it a smaller distance and writes
the new one. The options stand in the order of their numbers then, those with the same number in the
order in which they were added.
-/

namespace Vng.Cantcoap

open Memory OptionList

/-! ## Moving a part of the message -/

section Shift

/-- What is moved up leaves something in the place where it began. -/
lemma shiftUpLoop_spec (pre block hole post : List Byte) :
    ∃ junk, junk.length = hole.length ∧
      shiftUpLoop (pre ++ (block ++ (hole ++ post))) block.length
        (pre.length + block.length + hole.length) (pre.length + block.length) =
          .ok (pre ++ (junk ++ (block ++ post))) := by
  induction block using List.reverseRecOn generalizing hole post with
  | nil => exact ⟨hole, rfl, rfl⟩
  | append_singleton block x ih =>
    -- the last byte of the block goes to the last place of the hole
    obtain ⟨init, y, hinit⟩ : ∃ init y, x :: hole = init ++ [y] :=
      (List.eq_nil_or_concat' (x :: hole)).resolve_left (List.cons_ne_nil x hole)
    have hlength : hole.length = init.length := by
      have := congrArg List.length hinit
      rw [List.length_cons, List.length_append, List.length_singleton] at this
      omega
    have hsplit : pre ++ (block ++ [x] ++ (hole ++ post)) =
        (pre ++ (block ++ init)) ++ y :: post := by
      have := congrArg (fun l => pre ++ (block ++ (l ++ post))) hinit
      simpa using this
    have hload : loadAt (pre ++ (block ++ [x] ++ (hole ++ post))) (pre.length + block.length) =
        .ok x := by
      have := loadAt_append_cons (pre ++ block) x (hole ++ post)
      simpa using this
    have hstore : storeAt (pre ++ (block ++ [x] ++ (hole ++ post)))
        (pre.length + block.length + hole.length) x =
          .ok (pre ++ (block ++ (init ++ x :: post))) := by
      have := storeAt_append_cons (pre ++ (block ++ init)) y x post
      rw [hsplit, hlength]
      simpa [Nat.add_assoc] using this
    obtain ⟨junk, hjunk, hrun⟩ := ih init (x :: post)
    refine ⟨junk, hjunk.trans hlength.symm, ?_⟩
    rw [List.length_append, List.length_singleton, ← Nat.add_assoc,
      Nat.add_right_comm _ 1 hole.length, shiftUpLoop, hload, ok_bind, hstore, ok_bind, hlength,
      hrun]
    simp

end Shift

/-! ## Writing the fields of an option -/

section Fields

variable {pre mid post : List Byte} {h : Byte} {v w : ℕ}

/-- A nibble goes above what the byte holds below. -/
lemma or_upper {n : ℕ} (hn : n < 16) (hh : h.toNat < 16) :
    h ||| BitVec.ofNat 8 (n * 16) = BitVec.ofNat 8 (n * 16 + h.toNat) := by
  apply BitVec.eq_of_toNat_eq
  have hshift : n * 16 = n <<< 4 := (Nat.shiftLeft_eq n 4).symm
  rw [BitVec.toNat_or, BitVec.toNat_ofNat, BitVec.toNat_ofNat, Nat.mod_eq_of_lt (by omega),
    Nat.mod_eq_of_lt (by omega), Nat.or_comm, hshift, ← Nat.shiftLeft_add_eq_or_of_lt hh]

/-- Or below what it holds above. -/
lemma or_lower {n : ℕ} (hn : n < 16) (hh : h.toNat % 16 = 0) :
    h ||| BitVec.ofNat 8 n = BitVec.ofNat 8 (h.toNat + n) := by
  apply BitVec.eq_of_toNat_eq
  have hlt := h.isLt
  have hshift : h.toNat = (h.toNat / 16) <<< 4 := by
    rw [Nat.shiftLeft_eq]
    omega
  rw [BitVec.toNat_or, BitVec.toNat_ofNat, BitVec.toNat_ofNat, Nat.mod_eq_of_lt (by omega),
    Nat.mod_eq_of_lt (by omega)]
  have := Nat.shiftLeft_add_eq_or_of_lt (i := 4) hn (h.toNat / 16)
  rw [← hshift] at this
  exact this.symm

/-- A byte that is cleared and then set. -/
lemma clear_or (x y : Byte) : (x &&& 0) ||| y = y := by
  change (x &&& 0#8) ||| y = y
  rw [BitVec.and_zero, BitVec.zero_or]

/-- Numbers of 16 bits are compared as they are. -/
lemma ofNat_lt_iff (hv : v < 65536) {k : ℕ} (hk : k < 65536) :
    BitVec.ofNat 16 v < BitVec.ofNat 16 k ↔ v < k := by
  rw [BitVec.lt_def, BitVec.toNat_ofNat, BitVec.toNat_ofNat, Nat.mod_eq_of_lt hv,
    Nat.mod_eq_of_lt hk]

/-- And subtracted, as long as nothing is borrowed. -/
lemma ofNat_sub_ofNat {a b : ℕ} (hle : b ≤ a) (ha : a < 65536) :
    BitVec.ofNat 16 a - BitVec.ofNat 16 b = BitVec.ofNat 16 (a - b) := by
  apply BitVec.eq_of_toNat_eq
  rw [BitVec.toNat_sub, BitVec.toNat_ofNat, BitVec.toNat_ofNat, BitVec.toNat_ofNat]
  omega

lemma setWidth_sub (hv : v < 65536) {k : ℕ} (hk : k ≤ v) :
    (BitVec.ofNat 16 v - BitVec.ofNat 16 k).setWidth 8 = BitVec.ofNat 8 (v - k) := by
  apply BitVec.eq_of_toNat_eq
  rw [BitVec.toNat_setWidth, BitVec.toNat_sub, BitVec.toNat_ofNat, BitVec.toNat_ofNat,
    BitVec.toNat_ofNat]
  omega

/-- `endian_store16` writes two bytes, the high one first. -/
lemma endianStore16_append {num : Word} {n : ℕ} (hn : num = BitVec.ofNat 16 n) (hlt : n < 65536)
    (hmid : mid.length = 2) :
    endianStore16 (pre ++ (mid ++ post)) pre.length num =
      .ok (pre ++ ([BitVec.ofNat 8 (n / 256), BitVec.ofNat 8 n] ++ post)) := by
  subst hn
  have hhi : (BitVec.ofNat 16 n >>> 8).setWidth 8 = BitVec.ofNat 8 (n / 256) := by
    apply BitVec.eq_of_toNat_eq
    rw [BitVec.toNat_setWidth, BitVec.toNat_ushiftRight, BitVec.toNat_ofNat, BitVec.toNat_ofNat,
      Nat.shiftRight_eq_div_pow]
    omega
  have hlo : (BitVec.ofNat 16 n).setWidth 8 = BitVec.ofNat 8 n := by
    apply BitVec.eq_of_toNat_eq
    rw [BitVec.toNat_setWidth, BitVec.toNat_ofNat, BitVec.toNat_ofNat]
    omega
  rw [endianStore16, hhi, hlo]
  exact copyTo_append _ hmid

/-- Places behind the header of an option. -/
lemma behind_header (pre : List Byte) (x : Byte) (rest : List Byte) :
    pre ++ x :: rest = (pre ++ [x]) ++ rest ∧ pre.length + 1 = (pre ++ [x]).length := by
  constructor
  · rw [List.append_assoc, List.singleton_append]
  · rw [List.length_append, List.length_singleton]

lemma updateAt_next (x y : Byte) (f : Byte → Byte) :
    updateAt (pre ++ x :: y :: post) (pre.length + 1) f = .ok (pre ++ x :: f y :: post) := by
  obtain ⟨hsplit, hlength⟩ := behind_header pre x (y :: post)
  rw [hsplit, hlength, updateAt_append_cons, ← (behind_header pre x _).1]

lemma endianStore16_next (x : Byte) {num : Word} {n : ℕ} (hn : num = BitVec.ofNat 16 n)
    (hlt : n < 65536) (hmid : mid.length = 2) :
    endianStore16 (pre ++ x :: (mid ++ post)) (pre.length + 1) num =
      .ok (pre ++ x :: ([BitVec.ofNat 8 (n / 256), BitVec.ofNat 8 n] ++ post)) := by
  obtain ⟨hsplit, hlength⟩ := behind_header pre x (mid ++ post)
  rw [hsplit, hlength, endianStore16_append hn hlt hmid, ← (behind_header pre x _).1]

/-- The distance: its nibble in the header, and its bytes behind. -/
lemma storeOptionDelta_spec (hv : v < 65536) (hh : h.toNat < 16)
    (hmid : mid.length = (extension v).length) :
    storeOptionDelta (pre ++ h :: (mid ++ post)) pre.length (BitVec.ofNat 16 v) =
      .ok (pre ++ BitVec.ofNat 8 (nibble v * 16 + h.toNat) :: (extension v ++ post),
        pre.length + (extension v).length) := by
  have hsmall : BitVec.ofNat 16 v < 13 ↔ v < 13 := ofNat_lt_iff hv (k := 13) (by omega)
  have hlarge : BitVec.ofNat 16 v < 269 ↔ v < 269 := ofNat_lt_iff hv (k := 269) (by omega)
  rw [storeOptionDelta]
  simp only [hsmall, hlarge]
  rw [length_extension] at hmid
  unfold nibble extension
  by_cases h₁ : v < 13
  · have hnil : mid = [] := List.eq_nil_of_length_eq_zero (by rw [hmid, if_pos h₁])
    -- no byte behind the header
    have hnibble : (BitVec.ofNat 16 v <<< 4).setWidth 8 = BitVec.ofNat 8 (v * 16) := by
      apply BitVec.eq_of_toNat_eq
      rw [BitVec.toNat_setWidth, BitVec.toNat_shiftLeft, BitVec.toNat_ofNat, BitVec.toNat_ofNat,
        Nat.shiftLeft_eq]
      omega
    rw [if_pos h₁, if_pos h₁, if_pos h₁, updateAt_append_cons, ok_bind, hnibble,
      or_upper (by omega) hh, hnil]
    rfl
  · rw [if_neg h₁] at hmid
    rw [if_neg h₁, if_neg h₁, if_neg h₁]
    by_cases h₂ : v < 269
    · rw [if_pos h₂] at hmid
      -- one byte behind it
      obtain ⟨x, rfl⟩ := List.length_eq_one_iff.mp hmid
      have hsub : (BitVec.ofNat 16 v - 13).setWidth 8 = BitVec.ofNat 8 (v - 13) :=
        setWidth_sub hv (k := 13) (by omega)
      rw [if_pos h₂, if_pos h₂, if_pos h₂, updateAt_append_cons, ok_bind, List.singleton_append,
        updateAt_next, ok_bind, updateAt_next, ok_bind, clear_or, hsub]
      rw [show (0xD0 : Byte) = BitVec.ofNat 8 (13 * 16) from rfl, or_upper (by decide) hh]
      rfl
    · rw [if_neg h₂] at hmid
      -- two bytes
      have hsub : BitVec.ofNat 16 v - 269 = BitVec.ofNat 16 (v - 269) :=
        ofNat_sub_ofNat (not_lt.mp h₂) hv
      rw [if_neg h₂, if_neg h₂, if_neg h₂, updateAt_append_cons, ok_bind,
        endianStore16_next _ hsub (by omega) hmid, ok_bind]
      rw [show (0xE0 : Byte) = BitVec.ofNat 8 (14 * 16) from rfl, or_upper (by decide) hh]
      rfl

/-- `setOptionDelta` keeps the lower half of the header. -/
lemma setOptionDelta_spec (hv : v < 65536) (hmid : mid.length = (extension v).length) :
    setOptionDelta (pre ++ h :: (mid ++ post)) pre.length (BitVec.ofNat 16 v) =
      .ok (pre ++ BitVec.ofNat 8 (nibble v * 16 + h.toNat % 16) :: (extension v ++ post)) := by
  have hlower := toNat_lower h
  rw [setOptionDelta, updateAt_append_cons, ok_bind,
    storeOptionDelta_spec hv (by rw [hlower]; exact Nat.mod_lt _ (by decide)) hmid, hlower]
  rfl

/-- A field has two bytes of its own at most. -/
lemma length_extension_le (v : ℕ) : (extension v).length ≤ 2 := by
  rw [length_extension]
  split_ifs <;> omega

/-- What the variable of the length holds when the bytes of the length have been written. -/
def copied (w : ℕ) : ℕ := if w < 269 then w else w - 269

/-- The length: its nibble in the header, and its bytes behind those of the distance. -/
lemma storeOptionValueLength_spec {ext : List Byte} (hw : w < 65536) (hh : h.toNat % 16 = 0)
    (hmid : mid.length = (extension w).length) :
    storeOptionValueLength (pre ++ h :: (ext ++ (mid ++ post))) pre.length (pre.length + ext.length)
        (BitVec.ofNat 16 w) =
      .ok (pre ++ BitVec.ofNat 8 (h.toNat + nibble w) :: (ext ++ (extension w ++ post)),
        pre.length + ext.length + (extension w).length, BitVec.ofNat 16 (copied w)) := by
  have hsmall : BitVec.ofNat 16 w < 13 ↔ w < 13 := ofNat_lt_iff hw (k := 13) (by omega)
  have hlarge : BitVec.ofNat 16 w < 269 ↔ w < 269 := ofNat_lt_iff hw (k := 269) (by omega)
  -- the place behind the bytes of the distance
  have hplace (x : Byte) (rest : List Byte) :
      pre ++ x :: (ext ++ rest) = (pre ++ x :: ext) ++ rest ∧
        pre.length + ext.length + 1 = (pre ++ x :: ext).length := by
    constructor
    · rw [List.append_assoc, List.cons_append]
    · rw [List.length_append, List.length_cons, Nat.add_assoc]
  rw [storeOptionValueLength]
  simp only [hsmall, hlarge]
  rw [length_extension] at hmid
  unfold nibble extension copied
  by_cases h₁ : w < 13
  · have hnil : mid = [] := List.eq_nil_of_length_eq_zero (by rw [hmid, if_pos h₁])
    have hnibble : (BitVec.ofNat 16 w &&& 0x000F).setWidth 8 = BitVec.ofNat 8 w := by
      apply BitVec.eq_of_toNat_eq
      have hmask : w &&& 15 = w % 2 ^ 4 := Nat.and_two_pow_sub_one_eq_mod w 4
      rw [BitVec.toNat_setWidth, BitVec.toNat_and, BitVec.toNat_ofNat, BitVec.toNat_ofNat,
        Nat.mod_eq_of_lt hw]
      change (w &&& 15) % 2 ^ 8 = w % 2 ^ 8
      omega
    rw [if_pos h₁, if_pos h₁, if_pos h₁, if_pos (by omega), updateAt_append_cons, ok_bind, hnibble,
      or_lower (by omega) hh, hnil]
    rfl
  · rw [if_neg h₁] at hmid
    rw [if_neg h₁, if_neg h₁, if_neg h₁]
    by_cases h₂ : w < 269
    · rw [if_pos h₂] at hmid
      obtain ⟨x, rfl⟩ := List.length_eq_one_iff.mp hmid
      have hsub : (BitVec.ofNat 16 w - 13).setWidth 8 = BitVec.ofNat 8 (w - 13) :=
        setWidth_sub hw (k := 13) (by omega)
      rw [if_pos h₂, if_pos h₂, if_pos h₂, if_pos h₂, updateAt_append_cons, ok_bind,
        List.singleton_append]
      rw [show (0x0D : Byte) = BitVec.ofNat 8 13 from rfl, or_lower (by decide) hh]
      rw [(hplace _ (x :: post)).1, (hplace (BitVec.ofNat 8 (h.toNat + 13)) []).2,
        updateAt_append_cons, ok_bind, updateAt_append_cons, ok_bind, clear_or, hsub,
        ← (hplace _ _).1, ← (hplace (BitVec.ofNat 8 (h.toNat + 13)) []).2]
      rfl
    · rw [if_neg h₂] at hmid
      have hsub : BitVec.ofNat 16 w - 269 = BitVec.ofNat 16 (w - 269) :=
        ofNat_sub_ofNat (not_lt.mp h₂) hw
      rw [if_neg h₂, if_neg h₂, if_neg h₂, if_neg h₂, updateAt_append_cons, ok_bind]
      rw [show (0x0E : Byte) = BitVec.ofNat 8 14 from rfl, or_lower (by decide) hh]
      rw [(hplace _ (mid ++ post)).1, (hplace (BitVec.ofNat 8 (h.toNat + 14)) []).2,
        endianStore16_append hsub (by omega) hmid, ok_bind, ← (hplace _ _).1, hsub]
      rfl

/-- Of a value of 269 bytes and more the last 269 bytes are not written. -/
def written (value hole : List Byte) : List Byte :=
  value.take (copied value.length) ++ hole.drop (hole.length - (value.length - copied value.length))

lemma written_of_lt {value : List Byte} (hvalue : value.length < 269) (hole : List Byte) :
    written value hole = value := by
  rw [written, copied, if_pos hvalue, List.take_length, Nat.sub_self, Nat.sub_zero,
    List.drop_length, List.append_nil]

/-- No more is copied than there is. -/
lemma copied_le (w : ℕ) : copied w ≤ w := by
  unfold copied
  split_ifs <;> omega

/-- What is written has the length of the value. -/
lemma length_written {value hole : List Byte} (hhole : value.length ≤ hole.length) :
    (written value hole).length = value.length := by
  have := copied_le value.length
  rw [written, List.length_append, List.length_take, List.length_drop]
  omega

/-- A hole for an option is one for its header, for the bytes behind it and for the value. -/
lemma exists_hole {value hole : List Byte} (hhole : hole.length = (encodeOne v value).length) :
    ∃ x m₁ m₂ m₃, hole = x :: (m₁ ++ (m₂ ++ m₃)) ∧ m₁.length = (extension v).length ∧
      m₂.length = (extension value.length).length ∧ m₃.length = value.length := by
  rw [length_encodeOne] at hhole
  obtain ⟨x, tail, rfl⟩ := List.exists_cons_of_length_pos (show 0 < hole.length by omega)
  rw [List.length_cons] at hhole
  refine ⟨x, tail.take (extension v).length,
    (tail.drop (extension v).length).take (extension value.length).length,
    (tail.drop (extension v).length).drop (extension value.length).length, ?_, ?_, ?_, ?_⟩
  · rw [List.take_append_drop, List.take_append_drop]
  · rw [List.length_take]
    omega
  · rw [List.length_take, List.length_drop]
    omega
  · rw [List.length_drop, List.length_drop]
    omega

/-- **What an option leaves in its place.** -/
lemma insertOption_spec {value hole : List Byte} (hv : v < 65536) (hvalue : value.length < 65536)
    (hhole : hole.length = (encodeOne v value).length) :
    insertOption (pre ++ (hole ++ post)) pre.length (BitVec.ofNat 16 v)
        (BitVec.ofNat 16 value.length) value =
      .ok (pre ++ (encodeOne v (written value hole) ++ post)) := by
  have hle := copied_le value.length
  obtain ⟨x, m₁, m₂, m₃, rfl, h₁, h₂, h₃⟩ := exists_hole hhole
  have hcopied : (BitVec.ofNat 16 (copied value.length)).toNat = copied value.length := by
    rw [BitVec.toNat_ofNat, Nat.mod_eq_of_lt (by omega)]
  have hnibble := nibble_lt_fifteen v
  have hupper : (BitVec.ofNat 8 (nibble v * 16 + (0 : Byte).toNat)).toNat = nibble v * 16 := by
    rw [BitVec.toNat_ofNat]
    change (nibble v * 16 + 0) % 2 ^ 8 = _
    omega
  have hclear : x &&& 0 = 0 := BitVec.and_zero
  have hload : loadAll value 0 (copied value.length) = .ok (value.take (copied value.length)) :=
    loadAll_eq_ok (by omega)
  -- from the end of what is copied on, the hole keeps its bytes
  have hwritten : written value (x :: (m₁ ++ (m₂ ++ m₃))) =
      value.take (copied value.length) ++ m₃.drop (copied value.length) := by
    have hsplit : x :: (m₁ ++ (m₂ ++ m₃)) = (x :: (m₁ ++ m₂)) ++ m₃ := by
      rw [List.cons_append, List.append_assoc]
    have hplace : ((x :: (m₁ ++ m₂)) ++ m₃).length - (value.length - copied value.length) =
        (x :: (m₁ ++ m₂)).length + copied value.length := by
      rw [List.length_append]
      omega
    rw [written, hsplit, hplace, ← List.drop_drop, List.drop_left]
  have hlength : (written value (x :: (m₁ ++ (m₂ ++ m₃)))).length = value.length :=
    length_written (by rw [hhole, length_encodeOne]; omega)
  rw [insertOption, List.cons_append, updateAt_append_cons, ok_bind, hclear, List.append_assoc,
    storeOptionDelta_spec hv (by decide) h₁, ok_bind]
  dsimp only
  rw [List.append_assoc, storeOptionValueLength_spec hvalue (by rw [hupper]; omega) h₂, ok_bind]
  dsimp only
  rw [hcopied, hload, ok_bind, hupper, encodeOne, hlength, hwritten]
  -- the bytes that are copied go behind both fields
  have hcopy : copyTo ((pre ++ header v value.length :: (extension v ++ extension value.length)) ++
      (m₃.take (copied value.length) ++ (m₃.drop (copied value.length) ++ post)))
      (pre ++ header v value.length :: (extension v ++ extension value.length)).length
      (value.take (copied value.length)) =
      .ok ((pre ++ header v value.length :: (extension v ++ extension value.length)) ++
        (value.take (copied value.length) ++ (m₃.drop (copied value.length) ++ post))) :=
    copyTo_append _ (by rw [List.length_take, List.length_take, h₃])
  rw [← List.append_assoc (m₃.take _), List.take_append_drop] at hcopy
  simp only [List.length_append, List.length_cons, List.append_assoc, List.cons_append] at hcopy ⊢
  simp only [← Nat.add_assoc] at hcopy ⊢
  exact hcopy

end Fields

/-! ## Making room -/

section Room

variable {s s' : CoapPdu} {bytes stale hole : List Byte}

/-- A message with something behind it in its buffer, and nothing in memory of its own. -/
structure Occupies (s : CoapPdu) (bytes stale : List Byte) : Prop where
  pdu : s.pdu = bytes ++ stale
  pduLength : s.pduLength = bytes.length
  stale_nil : s.constructedFromBuffer = false → stale = []

/-- What is known of the other fields when the memory has been changed. -/
structure Kept (s s' : CoapPdu) : Prop where
  constructedFromBuffer : s'.constructedFromBuffer = s.constructedFromBuffer
  payloadLength : s'.payloadLength = s.payloadLength
  payloadPointer : s.payloadPointer = .null → s'.payloadPointer = .null

/-- There is room behind the message, or the buffer is too small. -/
lemma allot_spec (fresh : ℕ → Byte) (h : Occupies s bytes stale) (amount : ℕ) :
    (∃ s' hole stale', s.allot fresh (s.pduLength + amount) = some s' ∧ hole.length = amount ∧
      Occupies s' (bytes ++ hole) stale' ∧ Kept s s' ∧ s'.numOptions = s.numOptions ∧
      s'.maxAddedOptionNumber = s.maxAddedOptionNumber) ∨
    s.constructedFromBuffer = true ∧ stale.length < amount ∧
      s.allot fresh (s.pduLength + amount) = none := by
  have hlength : s.pdu.length = bytes.length + stale.length := by
    rw [h.pdu, List.length_append]
  have hpduLength := h.pduLength
  cases hbuffer : s.constructedFromBuffer with
  -- a buffer from outside is as long as it is
  | true =>
    by_cases hfull : stale.length < amount
    · exact .inr ⟨rfl, hfull, if_pos ⟨hbuffer, by omega⟩⟩
    · refine .inl ⟨{ s with pduLength := s.pduLength + amount }, stale.take amount,
        stale.drop amount, ?_, List.length_take_of_le (not_lt.mp hfull), ⟨?_, ?_, ?_⟩,
        ⟨rfl, rfl, id⟩, rfl, rfl⟩
      · rw [CoapPdu.allot, if_neg (by omega), CoapPdu.resize, if_pos hbuffer]
      · rw [List.append_assoc, List.take_append_drop, ← h.pdu]
      · rw [List.length_append, List.length_take_of_le (not_lt.mp hfull), hpduLength]
      · intro hown
        exact absurd (hbuffer.symm.trans hown) (by decide)
  -- memory of its own is grown, and what is new is not cleared
  | false =>
    have hnil := h.stale_nil hbuffer
    subst hnil
    obtain ⟨new, hnew, hsize⟩ := realloc_of_le fresh
      (show s.pdu.length ≤ s.pduLength + amount by
        rw [hlength, hpduLength]
        exact Nat.le_add_right _ _)
    have hnewLength : new.length = amount := by
      rw [List.length_nil] at hlength
      omega
    rw [h.pdu, List.append_nil] at hnew
    have hresize : s.resize fresh (s.pduLength + amount) =
        { s with
          pdu := bytes ++ new, pduLength := s.pduLength + amount
          payloadPointer := if s.payloadPointer = .null then .null else .stale } := by
      rw [CoapPdu.resize, if_neg (by rw [hbuffer]; decide), h.pdu, List.append_nil, hnew]
    refine .inl ⟨s.resize fresh (s.pduLength + amount), new, [], ?_, hnewLength, ?_, ?_, ?_, ?_⟩
    · exact if_neg fun h => absurd (hbuffer.symm.trans h.1) (by decide)
    · rw [hresize]
      refine ⟨(List.append_nil _).symm, ?_, fun _ => rfl⟩
      rw [List.length_append, hnewLength, hpduLength]
    · rw [hresize]
      exact ⟨rfl, rfl, fun hnull => if_pos hnull⟩
    · rw [hresize]
    · rw [hresize]

end Room

/-! ## The option behind the new one -/

section Next

variable {s : CoapPdu} {pre rest hole stale value : List Byte} {far near size : ℕ}

/-- A hole in front of an option, and the bytes that its header needs no more, make room for another
option. -/
lemma moveNextOption_spec (hpdu : s.pdu = pre ++ (encodeOne far value ++ (rest ++ (hole ++ stale))))
    (hlength : s.pduLength = pre.length + (encodeOne far value).length + rest.length + hole.length)
    (hfar : far < 65536) (hle : near ≤ far)
    (hsize : hole.length + (extension far).length = size + (extension near).length) :
    ∃ room, room.length = size ∧
      s.moveNextOption pre.length hole.length (BitVec.ofNat 16 far) (BitVec.ofNat 16 near) =
        .ok (pre ++ (room ++ (encodeOne near value ++ (rest ++ stale)))) := by
  obtain ⟨junk, hjunk, hshift⟩ := shiftUpLoop_spec pre (encodeOne far value ++ rest) hole stale
  have hamount : s.pduLength - (pre.length + hole.length) =
      (encodeOne far value ++ rest).length := by
    rw [hlength, List.length_append]
    omega
  have hmoved : s.shiftPduUp hole.length (s.pduLength - (pre.length + hole.length)) =
      .ok (pre ++ (junk ++ ((encodeOne far value ++ rest) ++ stale))) := by
    have hdest : s.pduLength = pre.length + (encodeOne far value ++ rest).length + hole.length := by
      rw [hlength, List.length_append, Nat.add_assoc pre.length]
    rw [CoapPdu.shiftPduUp, if_neg (by omega), hamount, hdest, Nat.add_sub_cancel, hpdu,
      ← List.append_assoc (encodeOne far value)]
    exact hshift
  -- what is in front of the bytes that stay: the hole, the header and the bytes behind it
  have hle' : (extension near).length ≤ (extension far).length := by
    rw [length_extension, length_extension]
    split_ifs <;> omega
  -- what the shorter distance sets free is part of the room
  obtain ⟨room, z, mid, hsplit, hroom, hmid⟩ : ∃ room z mid,
      junk ++ header far value.length :: extension far = room ++ z :: mid ∧ room.length = size ∧
        mid.length = (extension near).length := by
    generalize hregion : junk ++ header far value.length :: extension far = region
    have hcount := congrArg List.length hregion
    rw [List.length_append, List.length_cons] at hcount
    obtain ⟨z, mid, hdrop⟩ := List.exists_cons_of_length_pos
      (show 0 < (region.drop size).length by rw [List.length_drop]; omega)
    have hmid := congrArg List.length hdrop
    rw [List.length_drop, List.length_cons] at hmid
    exact ⟨region.take size, z, mid, by rw [← hdrop, List.take_append_drop],
      List.length_take_of_le (by omega), by omega⟩
  refine ⟨room, hroom, ?_⟩
  generalize htail : extension value.length ++ (value ++ (rest ++ stale)) = tail
  have hmemory : pre ++ (junk ++ ((encodeOne far value ++ rest) ++ stale)) =
      (pre ++ room) ++ z :: (mid ++ tail) := by
    have := congrArg (fun l => pre ++ (l ++ tail)) hsplit
    simpa only [encodeOne, ← htail, List.append_assoc, List.cons_append] using this
  have hload : loadAt (pre ++ (junk ++ ((encodeOne far value ++ rest) ++ stale)))
      (pre.length + hole.length) = .ok (header far value.length) := by
    have := loadAt_append_cons (pre ++ junk) (header far value.length)
      (extension far ++ (extension value.length ++ value) ++ rest ++ stale)
    rw [List.length_append, hjunk] at this
    simpa only [encodeOne, List.append_assoc, List.cons_append] using this
  have hplace : pre.length + hole.length + (extension far).length - (extension near).length =
      (pre ++ room).length := by
    rw [List.length_append, hroom]
    omega
  have hheader : BitVec.ofNat 8 (nibble near * 16 + (header far value.length).toNat % 16) =
      header near value.length := by
    rw [header_mod]
    rfl
  rw [CoapPdu.moveNextOption, hmoved, ok_bind]
  dsimp only
  rw [hload, ok_bind, computeExtraBytes_ofNat hfar, computeExtraBytes_ofNat (by omega), hplace,
    hmemory, storeAt_append_cons, ok_bind, setOptionDelta_spec (by omega) hmid, hheader, ← htail]
  simp only [encodeOne, List.append_assoc, List.cons_append]

end Next

/-! ## The place of an option -/

section Place

variable {s : CoapPdu} {rest : List Byte} {front back : List (ℕ × List Byte)} {o : ℕ × List Byte}
  {options : List (ℕ × List Byte)} {pos prev fuel n : ℕ}

/-- Options in the order of their numbers, as the fields of an option can say them. -/
structure Sound (options : List (ℕ × List Byte)) : Prop where
  sorted : options.Pairwise fun a b => a.1 ≤ b.1
  number_lt : ∀ o ∈ options, o.1 < 65536
  length_lt : ∀ o ∈ options, o.2.length < 65536

/-- The options behind the first are sound. -/
lemma Sound.tail (h : Sound (o :: options)) : Sound options :=
  ⟨(List.pairwise_cons.mp h.sorted).2, fun o' ho' => h.number_lt o' (List.mem_cons_of_mem o ho'),
    fun o' ho' => h.length_lt o' (List.mem_cons_of_mem o ho')⟩

/-- The fields of an option with its header. -/
lemma fields_encodeOne {pdu value : List Byte} {delta : ℕ}
    (h : pdu.drop pos = encodeOne delta value ++ rest) (hdelta : delta < 65536)
    (hvalue : value.length < 65536) :
    loadAt pdu pos = .ok (header delta value.length) ∧
      getOptionDelta pdu pos = .ok (BitVec.ofNat 16 delta) ∧
      getOptionValueLength pdu pos = .ok (BitVec.ofNat 16 value.length) ∧
      totalLengthOf (BitVec.ofNat 16 delta) (BitVec.ofNat 16 value.length) =
        (encodeOne delta value).length := by
  have hitem : pdu.drop pos = Item.encode
      ⟨delta, value, by unfold maxField; omega, by unfold maxField; omega⟩ ++ rest := h
  have hhead : pdu.drop pos = header delta value.length ::
      (extension delta ++ (extension value.length ++ value) ++ rest) := h
  exact ⟨(loadAt_of_drop hhead).1, (fields_encode hitem).1, (fields_encode hitem).2,
    (totalLengthOf_ofNat hdelta hvalue).trans (length_encodeOne delta value).symm⟩

/-- The walk stops at the first option with a greater number. -/
lemma findLoop_spec (hdrop : s.pdu.drop pos = encodeFrom prev (front ++ o :: back) ++ rest)
    (hend : pos + (encodeFrom prev (front ++ o :: back)).length ≤ s.pduLength)
    (hsound : Sound (front ++ o :: back)) (hprev : ∀ b ∈ front ++ o :: back, prev ≤ b.1)
    (hfront : ∀ b ∈ front, b.1 ≤ n) (ho : n < o.1) (hfuel : front.length < fuel) :
    s.findLoop (BitVec.ofNat 16 n) fuel pos (BitVec.ofNat 16 prev) =
      .ok (pos + (encodeFrom prev front).length, BitVec.ofNat 16 (lastNumber prev front)) := by
  -- the loop passes the options in front, and stops at `o`
  induction front generalizing pos prev fuel with
  | nil =>
    obtain ⟨fuel, rfl⟩ := Nat.exists_eq_succ_of_ne_zero (show fuel ≠ 0 by omega)
    have hnumber := hsound.number_lt o List.mem_cons_self
    have hle := hprev o List.mem_cons_self
    rw [List.nil_append, encodeFrom, List.append_assoc] at hdrop
    rw [List.nil_append, encodeFrom, List.length_append, length_encodeOne] at hend
    obtain ⟨hload, hdelta, hlength, -⟩ := fields_encodeOne hdrop (by omega)
      (hsound.length_lt o List.mem_cons_self)
    have hsum : BitVec.ofNat 16 prev + BitVec.ofNat 16 (o.1 - prev) = BitVec.ofNat 16 o.1 := by
      rw [← BitVec.ofNat_add, Nat.add_sub_cancel' hle]
    rw [CoapPdu.findLoop, if_pos (by omega), hload, ok_bind,
      if_neg (show ¬ header (o.1 - prev) o.2.length = 0xFF from header_ne_marker _ _), hdelta,
      ok_bind, hlength, ok_bind, hsum, if_pos ((ofNat_lt_iff (by omega) hnumber).mpr ho)]
    rfl
  | cons b front ih =>
    obtain ⟨fuel, rfl⟩ := Nat.exists_eq_succ_of_ne_zero (show fuel ≠ 0 by omega)
    rw [List.cons_append] at hdrop hend hsound hprev
    obtain ⟨hb, hfront⟩ := List.forall_mem_cons.mp hfront
    have hnumber := hsound.number_lt b List.mem_cons_self
    have hle := hprev b List.mem_cons_self
    have hofirst := (List.pairwise_cons.mp hsound.sorted).1
    rw [encodeFrom, List.append_assoc] at hdrop
    rw [encodeFrom, List.length_append] at hend
    have hpositive : 0 < (encodeOne (b.1 - prev) b.2).length := by
      rw [length_encodeOne]
      omega
    obtain ⟨hload, hdelta, hlength, htotal⟩ := fields_encodeOne hdrop (by omega)
      (hsound.length_lt b List.mem_cons_self)
    have hsum : BitVec.ofNat 16 prev + BitVec.ofNat 16 (b.1 - prev) = BitVec.ofNat 16 b.1 := by
      rw [← BitVec.ofNat_add, Nat.add_sub_cancel' hle]
    have hn : n < 65536 :=
      ho.trans (hsound.number_lt o
        (List.mem_cons_of_mem _ (List.mem_append_right _ List.mem_cons_self)))
    rw [List.length_cons] at hfuel
    have hnext := ih (drop_append_of_drop hdrop) (by omega) hsound.tail hofirst hfront
      (show front.length < fuel by omega)
    rw [CoapPdu.findLoop, if_pos (by omega), hload, ok_bind,
      if_neg (show ¬ header (b.1 - prev) b.2.length = 0xFF from header_ne_marker _ _), hdelta,
      ok_bind, hlength, ok_bind, hsum,
      if_neg (fun h => absurd ((ofNat_lt_iff hn hnumber).mp h) (not_lt.mpr hb)), htotal, hnext,
      encodeFrom, List.length_append, ← Nat.add_assoc]
    rfl

end Place

/-! ## Adding an option -/

section Add

open DeltaQueue

variable {s : CoapPdu} {head tail stale value : List Byte} {options : List (ℕ × List Byte)}
  {fresh : ℕ → Byte} {number : Word}

/-- The message is made of a header with its token, of options and of what comes behind them. -/
structure Builds (s : CoapPdu) (head : List Byte) (options : List (ℕ × List Byte))
    (tail stale : List Byte) : Prop extends
    Occupies s (head ++ (encodeFrom 0 options ++ tail)) stale where
  head_length : head.length = 4 + (head.headD 0).toNat % 16
  numOptions : s.numOptions = options.length
  maxAdded : s.maxAddedOptionNumber = BitVec.ofNat 16 (lastNumber 0 options)

lemma Builds.getTokenLength (h : Builds s head options tail stale) :
    s.getTokenLength = .ok (head.length - 4) := by
  have hlength := h.head_length
  obtain ⟨first, rest, rfl⟩ := List.exists_cons_of_length_pos (show 0 < head.length by omega)
  have hfirst : loadAt s.pdu 0 = .ok first := by
    rw [h.pdu]
    rfl
  rw [CoapPdu.getTokenLength, hfirst, ok_bind, toNat_lower, hlength, Nat.add_sub_cancel_left]
  rfl

/-- The last number is the greatest. -/
lemma Sound.le_lastNumber (h : Sound options) (n : ℕ) :
    ∀ o ∈ options, o.1 ≤ lastNumber n options := by
  induction options generalizing n with
  | nil => exact List.forall_mem_nil _
  | cons o options ih =>
    have hfirst := (List.pairwise_cons.mp h.sorted).1
    refine List.forall_mem_cons.mpr ⟨?_, ih h.tail o.1⟩
    rw [lastNumber]
    rcases lastNumber_mem o.1 options with hlast | ⟨o', ho', hlast⟩
    · exact hlast.ge
    · exact hlast ▸ hfirst o' ho'

lemma Sound.lastNumber_lt (h : Sound options) : lastNumber 0 options < 65536 := by
  rcases lastNumber_mem 0 options with hlast | ⟨o, ho, hlast⟩
  · omega
  · exact hlast ▸ h.number_lt o ho

/-- The new option goes to the end. -/
lemma addOption_end (h : Builds s head options [] stale) (hsound : Sound options)
    (hvalue : value.length < 65531) (hlast : lastNumber 0 options ≤ number.toNat) :
    (∃ s' hole stale', s.addOption fresh number value = .ok (0, s') ∧ value.length ≤ hole.length ∧
      Builds s' head (options ++ [(number.toNat, written value hole)]) [] stale' ∧ Kept s s') ∨
    s.constructedFromBuffer = true ∧ ∃ s', s.addOption fresh number value = .ok (1, s') ∧
      s'.pdu = s.pdu ∧ s'.pduLength = s.pduLength := by
  have hlt := hsound.lastNumber_lt
  have hnumber := number.isLt
  -- the option goes to the end, where nothing has to move
  have hmax : s.maxAddedOptionNumber ≤ number := by
    rw [h.maxAdded, BitVec.le_def, BitVec.toNat_ofNat, Nat.mod_eq_of_lt hlt]
    exact hlast
  have hdelta : number - s.maxAddedOptionNumber =
      BitVec.ofNat 16 (number.toNat - lastNumber 0 options) := by
    rw [h.maxAdded, ← ofNat_sub_ofNat hlast hnumber, BitVec.ofNat_toNat, BitVec.setWidth_eq]
  have hfind : s.findInsertionPosition number = .ok (s.pduLength, s.maxAddedOptionNumber) :=
    if_pos hmax
  have htotal : totalLengthOf (BitVec.ofNat 16 (number.toNat - lastNumber 0 options))
      (BitVec.ofNat 16 value.length) =
        (encodeOne (number.toNat - lastNumber 0 options) value).length := by
    rw [totalLengthOf_ofNat (by omega) (by omega), length_encodeOne]
  have hsize := length_encodeOne (number.toNat - lastNumber 0 options) value
  have hshort : (encodeOne (number.toNat - lastNumber 0 options) value).length < 65536 := by
    have := length_extension_le (number.toNat - lastNumber 0 options)
    have := length_extension_le value.length
    omega
  have hmarked : Occupies { s with maxAddedOptionNumber := number }
      (head ++ (encodeFrom 0 options ++ [])) stale := ⟨h.pdu, h.pduLength, h.stale_nil⟩
  rw [CoapPdu.addOption, hfind, ok_bind]
  dsimp only
  rw [if_pos rfl, hdelta, htotal, Nat.mod_eq_of_lt hshort]
  obtain ⟨s', hole, stale', hallot, hhole, hoccupies, hkept, hnum, hmaxAdded⟩ |
      ⟨hbuffer, -, hallot⟩ := allot_spec fresh hmarked
        (encodeOne (number.toNat - lastNumber 0 options) value).length
  · left
    have hpre : s.pduLength = (head ++ encodeFrom 0 options).length := by
      rw [h.pduLength, List.append_nil]
    have hmemory : s'.pdu = (head ++ encodeFrom 0 options) ++ (hole ++ stale') := by
      rw [hoccupies.pdu, List.append_nil, List.append_assoc]
    -- the hole at the end takes the option
    have hwritten : insertOption ((head ++ encodeFrom 0 options) ++ (hole ++ stale'))
        (head ++ encodeFrom 0 options).length
        (BitVec.ofNat 16 (number.toNat - lastNumber 0 options)) (BitVec.ofNat 16 value.length)
        value =
          .ok ((head ++ encodeFrom 0 options) ++
            (encodeOne (number.toNat - lastNumber 0 options) (written value hole) ++ stale')) :=
      insertOption_spec (by omega) (by omega) hhole
    have hlength : (encodeOne (number.toNat - lastNumber 0 options) (written value hole)).length =
        hole.length := by
      have hvalueLength : (written value hole).length = value.length := length_written (by omega)
      rw [hhole, length_encodeOne, length_encodeOne, hvalueLength]
    rw [hallot]
    dsimp only
    rw [hmemory, hpre, hwritten, ok_bind]
    have hbytes : head ++ (encodeFrom 0 (options ++ [(number.toNat, written value hole)]) ++ []) =
        (head ++ encodeFrom 0 options) ++
          encodeOne (number.toNat - lastNumber 0 options) (written value hole) := by
      simp only [encodeFrom_append, encodeFrom, List.append_nil, List.append_assoc]
    refine ⟨_, hole, stale', rfl, by omega, ⟨⟨?_, ?_, hoccupies.stale_nil⟩, h.head_length, ?_, ?_⟩,
      ⟨hkept.constructedFromBuffer, hkept.payloadLength, hkept.payloadPointer⟩⟩
    · rw [hbytes]
      exact (List.append_assoc _ _ _).symm
    · rw [hbytes, List.length_append, hlength, ← hpre]
      exact hoccupies.pduLength.trans (by rw [List.length_append, List.append_nil, ← hpre])
    · rw [List.length_append, ← h.numOptions]
      exact congrArg (· + 1) hnum
    · rw [lastNumber_append, lastNumber, lastNumber, BitVec.ofNat_toNat, BitVec.setWidth_eq]
      exact hmaxAdded
  · rw [show CoapPdu.allot fresh { s with maxAddedOptionNumber := number } _ = none from hallot]
    exact .inr ⟨hbuffer, _, rfl, rfl, rfl⟩

/-- The bytes behind a header that are not needed any more are in the new option. -/
lemma extension_add_le (a b : ℕ) :
    (extension (a + b)).length ≤ 1 + (extension a).length + (extension b).length := by
  rw [length_extension, length_extension, length_extension]
  split_ifs <;> omega

/-- Every option takes a byte at least. -/
lemma length_le_encodeFrom (n : ℕ) (options : List (ℕ × List Byte)) :
    options.length ≤ (encodeFrom n options).length := by
  induction options generalizing n with
  | nil => exact Nat.zero_le _
  | cons o options ih =>
    have hle := ih o.1
    rw [encodeFrom, List.length_cons, List.length_append, length_encodeOne]
    omega

/-- The last number is one of the numbers. -/
lemma lastNumber_le {front : List (ℕ × List Byte)} {n : ℕ} (h : ∀ b ∈ front, b.1 ≤ n) :
    lastNumber 0 front ≤ n := by
  rcases lastNumber_mem 0 front with hzero | ⟨b, hb, hmax⟩
  · omega
  · exact hmax ▸ h b hb

/-- The walk stops at the first option with a greater number. -/
lemma findInsertionPosition_middle {front back : List (ℕ × List Byte)} {o : ℕ × List Byte}
    (h : Builds s head (front ++ o :: back) tail stale) (hsound : Sound (front ++ o :: back))
    (hfront : ∀ b ∈ front, b.1 ≤ number.toNat) (ho : number.toNat < o.1) :
    s.findInsertionPosition number =
      .ok (head.length + (encodeFrom 0 front).length, BitVec.ofNat 16 (lastNumber 0 front)) := by
  have holast := hsound.le_lastNumber 0 o (List.mem_append_right _ List.mem_cons_self)
  have hlt := hsound.lastNumber_lt
  have hhead := h.head_length
  have hsplit : encodeFrom 0 (front ++ o :: back) =
      encodeFrom 0 front ++ (encodeOne (o.1 - lastNumber 0 front) o.2 ++ encodeFrom o.1 back) := by
    rw [encodeFrom_append, encodeFrom]
  -- the greatest number so far is at least the one of `o`
  have hmax : ¬ s.maxAddedOptionNumber ≤ number := by
    rw [h.maxAdded, BitVec.le_def, BitVec.toNat_ofNat, Nat.mod_eq_of_lt hlt]
    omega
  have hpositive : 0 < (encodeOne (o.1 - lastNumber 0 front) o.2).length := by
    rw [length_encodeOne]
    omega
  have hpduLength := h.pduLength
  rw [List.length_append, List.length_append, hsplit, List.length_append, List.length_append]
    at hpduLength
  have hdrop : s.pdu.drop head.length = encodeFrom 0 (front ++ o :: back) ++ (tail ++ stale) := by
    rw [h.pdu, List.append_assoc, List.append_assoc, List.drop_left]
  have hcount := length_le_encodeFrom 0 front
  have hloop := findLoop_spec hdrop
    (by rw [hsplit, List.length_append, List.length_append]; omega) hsound
    (fun _ _ => Nat.zero_le _) hfront ho (show front.length < s.pduLength + 1 by omega)
  rw [BitVec.ofNat_toNat, BitVec.setWidth_eq] at hloop
  rw [CoapPdu.findInsertionPosition, if_neg hmax, h.getTokenLength, ok_bind,
    if_neg (by omega), Nat.add_sub_cancel' (by omega)]
  exact hloop

/-- The new option goes in front of one with a greater number. -/
lemma addOption_middle {front back : List (ℕ × List Byte)} {o : ℕ × List Byte}
    (h : Builds s head (front ++ o :: back) tail stale) (hsound : Sound (front ++ o :: back))
    (hvalue : value.length < 65531) (hfront : ∀ b ∈ front, b.1 ≤ number.toNat)
    (ho : number.toNat < o.1) :
    (∃ s' hole stale', s.addOption fresh number value = .ok (0, s') ∧ value.length ≤ hole.length ∧
      Builds s' head (front ++ (number.toNat, written value hole) :: o :: back) tail stale' ∧
      Kept s s') ∨
    s.constructedFromBuffer = true ∧ ∃ s', s.addOption fresh number value = .ok (1, s') ∧
      s'.pdu = s.pdu ∧ s'.pduLength = s.pduLength := by
  have hmem : o ∈ front ++ o :: back := List.mem_append_right _ List.mem_cons_self
  have holt := hsound.number_lt o hmem
  have hovalue := hsound.length_lt o hmem
  have hfind := findInsertionPosition_middle h hsound hfront ho
  obtain ⟨last, hlast⟩ : ∃ last, lastNumber 0 front = last := ⟨_, rfl⟩
  rw [hlast] at hfind
  have hle : last ≤ number.toNat := hlast ▸ lastNumber_le hfront
  -- the encoding of the options, apart at the new one
  have hsplit : encodeFrom 0 (front ++ o :: back) =
      encodeFrom 0 front ++ (encodeOne (o.1 - last) o.2 ++ encodeFrom o.1 back) := by
    rw [encodeFrom_append, hlast, encodeFrom]
  have hpositive : 0 < (encodeOne (o.1 - last) o.2).length := by
    rw [length_encodeOne]
    omega
  have hpduLength := h.pduLength
  rw [List.length_append, List.length_append, hsplit, List.length_append, List.length_append]
    at hpduLength
  have hdrop : s.pdu.drop head.length = encodeFrom 0 (front ++ o :: back) ++ (tail ++ stale) := by
    rw [h.pdu, List.append_assoc, List.append_assoc, List.drop_left]
  have hnumber : BitVec.ofNat 16 number.toNat = number := by
    rw [BitVec.ofNat_toNat, BitVec.setWidth_eq]
  have hnext : s.pdu.drop (head.length + (encodeFrom 0 front).length) =
      encodeOne (o.1 - last) o.2 ++ (encodeFrom o.1 back ++ (tail ++ stale)) := by
    rw [hsplit, List.append_assoc] at hdrop
    rw [drop_append_of_drop hdrop, List.append_assoc]
  obtain ⟨-, hgetDelta, -, -⟩ := fields_encodeOne hnext (by omega) hovalue
  have hdelta : number - BitVec.ofNat 16 last = BitVec.ofNat 16 (number.toNat - last) := by
    rw [← ofNat_sub_ofNat hle (by omega), hnumber]
  -- the distance of `o` from the new option
  have hnew : BitVec.ofNat 16 last + BitVec.ofNat 16 (o.1 - last) - number =
      BitVec.ofNat 16 (o.1 - number.toNat) := by
    rw [← BitVec.ofNat_add, Nat.add_sub_cancel' (by omega), ← ofNat_sub_ofNat ho.le holt, hnumber]
  have hsize := length_encodeOne (number.toNat - last) value
  have hextension := length_extension_le (number.toNat - last)
  have hextension' := length_extension_le value.length
  have htotal : totalLengthOf (BitVec.ofNat 16 (number.toNat - last))
      (BitVec.ofNat 16 value.length) % 65536 = (encodeOne (number.toNat - last) value).length := by
    rw [totalLengthOf_ofNat (by omega) (by omega), hsize, Nat.mod_eq_of_lt (by omega)]
  have hadd := extension_add_le (number.toNat - last) (o.1 - number.toNat)
  rw [show number.toNat - last + (o.1 - number.toNat) = o.1 - last by omega] at hadd
  rw [CoapPdu.addOption, hfind, ok_bind]
  dsimp only
  rw [if_neg (by omega), hgetDelta, ok_bind, hdelta, hnew, htotal,
    computeExtraBytes_ofNat (by omega), computeExtraBytes_ofNat (by omega), if_neg (by omega)]
  obtain ⟨s', hole, stale', hallot, hhole, hoccupies, hkept, hnum, hmaxAdded⟩ |
      ⟨hbuffer, -, hallot⟩ := allot_spec fresh h.toOccupies
        ((encodeOne (number.toNat - last) value).length + (extension (o.1 - number.toNat)).length -
          (extension (o.1 - last)).length)
  · left
    rw [hallot]
    dsimp only
    generalize hrest : encodeFrom o.1 back ++ tail = rest
    have hmemory : s'.pdu = (head ++ encodeFrom 0 front) ++
        (encodeOne (o.1 - last) o.2 ++ (rest ++ (hole ++ stale'))) := by
      rw [hoccupies.pdu, hsplit, ← hrest]
      simp only [List.append_assoc]
    have hlengths : s'.pduLength = (head ++ encodeFrom 0 front).length +
        (encodeOne (o.1 - last) o.2).length + rest.length + hole.length := by
      rw [hoccupies.pduLength, hsplit, ← hrest]
      simp only [List.length_append]
      omega
    -- `o` and what is behind it make room
    obtain ⟨room, hroom, hmove⟩ := moveNextOption_spec hmemory hlengths (by omega)
      (show o.1 - number.toNat ≤ o.1 - last by omega)
      (show hole.length + (extension (o.1 - last)).length =
        (encodeOne (number.toNat - last) value).length + (extension (o.1 - number.toNat)).length by
          omega)
    have hwritten : insertOption ((head ++ encodeFrom 0 front) ++
        (room ++ (encodeOne (o.1 - number.toNat) o.2 ++ (rest ++ stale'))))
        (head ++ encodeFrom 0 front).length (BitVec.ofNat 16 (number.toNat - last))
        (BitVec.ofNat 16 value.length) value = .ok ((head ++ encodeFrom 0 front) ++
          (encodeOne (number.toNat - last) (written value room) ++
            (encodeOne (o.1 - number.toNat) o.2 ++ (rest ++ stale')))) :=
      insertOption_spec (by omega) (by omega) hroom
    -- the room takes the new option
    have hvalueLength : (written value room).length = value.length := length_written (by omega)
    have hbytes :
        head ++ (encodeFrom 0 (front ++ (number.toNat, written value room) :: o :: back) ++ tail) =
          (head ++ encodeFrom 0 front) ++
            (encodeOne (number.toNat - last) (written value room) ++
              (encodeOne (o.1 - number.toNat) o.2 ++ rest)) := by
      rw [encodeFrom_append, hlast, encodeFrom, encodeFrom, ← hrest]
      simp only [List.append_assoc]
    have hnear := length_encodeOne (o.1 - number.toNat) o.2
    have hfar := length_encodeOne (o.1 - last) o.2
    have hone := length_encodeOne (number.toNat - last) (written value room)
    rw [← List.length_append, ← hhole, hmove, ok_bind, hwritten, ok_bind]
    refine ⟨_, room, stale', rfl, by omega, ⟨⟨?_, ?_, hoccupies.stale_nil⟩, h.head_length, ?_, ?_⟩,
      ⟨hkept.constructedFromBuffer, hkept.payloadLength, hkept.payloadPointer⟩⟩
    · rw [hbytes]
      simp only [List.append_assoc]
    · rw [hbytes]
      simp only [List.length_append] at hlengths ⊢
      rw [hvalueLength] at hone
      omega
    · rw [List.length_append, List.length_cons, ← Nat.add_assoc]
      exact congrArg (· + 1) (hnum.trans (h.numOptions.trans (List.length_append)))
    · rw [lastNumber_append, lastNumber, lastNumber]
      exact hmaxAdded.trans (h.maxAdded.trans (by rw [lastNumber_append, lastNumber]))
  · rw [hallot]
    exact .inr ⟨hbuffer, _, rfl, rfl, rfl⟩

/-- **Adding an option.** It is put into the order of the numbers behind those with the same number;
of a value of 269 bytes and more the last 269 bytes are lost. A buffer that is too small keeps the
message that it holds. -/
theorem addOption_spec (fresh : ℕ → Byte) (h : Builds s head options tail stale)
    (hsound : Sound options) (hvalue : value.length < 65531)
    (htail : tail = [] ∨ number.toNat < lastNumber 0 options) :
    (∃ s' hole stale', s.addOption fresh number value = .ok (0, s') ∧ value.length ≤ hole.length ∧
      Builds s' head (options.orderedInsert Earlier (number.toNat, written value hole)) tail
        stale' ∧ Kept s s') ∨
    s.constructedFromBuffer = true ∧ ∃ s', s.addOption fresh number value = .ok (1, s') ∧
      s'.pdu = s.pdu ∧ s'.pduLength = s.pduLength := by
  obtain ⟨front, behind, rfl, hfront, hbehind, hinsert⟩ :=
    exists_orderedInsert_eq number.toNat options
  cases behind with
  | nil =>
    simp only [List.append_nil] at h hsound htail hinsert ⊢
    have hlast : lastNumber 0 front ≤ number.toNat := lastNumber_le hfront
    obtain rfl : tail = [] := htail.resolve_right (not_lt.mpr hlast)
    simp only [hinsert]
    exact addOption_end h hsound hvalue hlast
  | cons o back =>
    simp only [hinsert]
    exact addOption_middle h hsound hvalue hfront (hbehind o rfl)

end Add

/-! ## Long values -/

section Lost

variable {value value' : List Byte}

/-- Of a long value the bytes behind the first ones are not looked at. -/
lemma insertOption_congr (pdu : List Byte) (pos : ℕ) (optionDelta : Word)
    (hlength : value'.length = value.length) (hlong : 269 ≤ value.length)
    (hvalue : value.length < 65536)
    (htake : value'.take (value.length - 269) = value.take (value.length - 269)) :
    insertOption pdu pos optionDelta (BitVec.ofNat 16 value.length) value' =
      insertOption pdu pos optionDelta (BitVec.ofNat 16 value.length) value := by
  have hsmall : ¬ BitVec.ofNat 16 value.length < 13 := by
    rw [show (13 : Word) = BitVec.ofNat 16 13 from rfl, ofNat_lt_iff hvalue (by decide)]
    omega
  have hlarge : ¬ BitVec.ofNat 16 value.length < 269 := by
    rw [show (269 : Word) = BitVec.ofNat 16 269 from rfl, ofNat_lt_iff hvalue (by decide)]
    omega
  have hleft : (BitVec.ofNat 16 value.length - 269).toNat = value.length - 269 := by
    rw [show (269 : Word) = BitVec.ofNat 16 269 from rfl, ofNat_sub_ofNat hlong hvalue,
      BitVec.toNat_ofNat, Nat.mod_eq_of_lt (by omega)]
  have hload : loadAll value' 0 (BitVec.ofNat 16 value.length - 269).toNat =
      loadAll value 0 (BitVec.ofNat 16 value.length - 269).toNat := by
    rw [hleft, loadAll_eq_ok (by omega), loadAll_eq_ok (by omega), List.drop_zero, List.drop_zero,
      htake]
  rw [insertOption, insertOption]
  simp only [storeOptionValueLength, if_neg hsmall, if_neg hlarge, bind_assoc, ok_bind, hload]

/-- **What of a long value is lost.** Values of one length, from 269 bytes on, that differ only in
their last 269 bytes make the same message: none of these bytes is written. -/
theorem addOption_long (fresh : ℕ → Byte) (s : CoapPdu) (number : Word)
    (hlength : value'.length = value.length) (hlong : 269 ≤ value.length)
    (hvalue : value.length < 65536)
    (htake : value'.take (value.length - 269) = value.take (value.length - 269)) :
    s.addOption fresh number value' = s.addOption fresh number value := by
  rw [CoapPdu.addOption, CoapPdu.addOption]
  simp only [hlength, insertOption_congr _ _ _ hlength hlong hvalue htake]

/-- Values of 271 bytes with the same two in front. -/
theorem addOption_long_ones :
    CoapPdu.fresh.addOption (fun _ => 0) 35 ([0x61, 0x62] ++ List.replicate 269 1) =
      CoapPdu.fresh.addOption (fun _ => 0) 35 ([0x61, 0x62] ++ List.replicate 269 0) := by
  have hlength (x : Byte) : ([0x61, 0x62] ++ List.replicate 269 x).length = 271 := by
    rw [List.length_append, List.length_replicate]
    rfl
  refine addOption_long _ _ _ ?_ ?_ ?_ ?_
  · rw [hlength, hlength]
  · rw [hlength]
    decide
  · rw [hlength]
    decide
  · rw [hlength]
    rfl

end Lost

end Vng.Cantcoap
