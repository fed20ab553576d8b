import Vng.Cantcoap.CoapPdu
import Vng.Lib.CoapMessage

/-!
# What `validate` accepts

A field of an option is kept in 16 bits, so that a distance or a length from 65536 on is read as a
small one. Where no option says so much, the messages that are accepted are those of the protocol
with a code that is known.
-/

namespace Vng.Cantcoap

open Memory OptionList CoapMessage

/-! ## Masks -/

/-- The upper nibble. -/
lemma toNat_upper (b : Byte) : ((b &&& 0xF0) >>> 4).toNat = b.toNat / 16 := by
  have hlt := b.isLt
  have hmask : b.toNat / 16 &&& 15 = b.toNat / 16 % 2 ^ 4 := Nat.and_two_pow_sub_one_eq_mod _ 4
  have hshift : (b.toNat &&& 240) >>> 4 = b.toNat >>> 4 &&& 240 >>> 4 :=
    Nat.shiftRight_and_distrib
  rw [BitVec.toNat_ushiftRight, BitVec.toNat_and]
  change (b.toNat &&& 240) >>> 4 = _
  rw [hshift, Nat.shiftRight_eq_div_pow]
  change b.toNat / 16 &&& 15 = _
  omega

/-- The lower one. -/
lemma toNat_lower (b : Byte) : (b &&& 0x0F).toNat = b.toNat % 16 := by
  rw [BitVec.toNat_and]
  exact Nat.and_two_pow_sub_one_eq_mod b.toNat 4

/-- The two highest bits. -/
lemma toNat_version (b : Byte) : ((b &&& 0xC0) >>> 6).toNat = b.toNat / 64 := by
  have hlt := b.isLt
  have hmask : b.toNat / 64 &&& 3 = b.toNat / 64 % 2 ^ 2 := Nat.and_two_pow_sub_one_eq_mod _ 2
  have hshift : (b.toNat &&& 192) >>> 6 = b.toNat >>> 6 &&& 192 >>> 6 :=
    Nat.shiftRight_and_distrib
  rw [BitVec.toNat_ushiftRight, BitVec.toNat_and]
  change (b.toNat &&& 192) >>> 6 = _
  rw [hshift, Nat.shiftRight_eq_div_pow]
  change b.toNat / 64 &&& 3 = _
  omega

/-- `computeExtraBytes` of a field that 16 bits hold. -/
lemma computeExtraBytes_ofNat {v : ℕ} (hv : v < 65536) :
    computeExtraBytes (BitVec.ofNat 16 v) = (extension v).length := by
  have htoNat : (BitVec.ofNat 16 v).toNat = v := by
    rw [BitVec.toNat_ofNat, Nat.mod_eq_of_lt hv]
  have hsmall : BitVec.ofNat 16 v < 13 ↔ v < 13 := by
    rw [BitVec.lt_def, htoNat]
    rfl
  have hlarge : BitVec.ofNat 16 v < 269 ↔ v < 269 := by
    rw [BitVec.lt_def, htoNat]
    rfl
  rw [computeExtraBytes, length_extension]
  simp only [hsmall, hlarge]

/-! ## The fields of an option -/

section Fields

variable {pdu tail rest : List Byte} {b : Byte} {option v : ℕ}

/-- The upper nibble as the word that the library reads. -/
lemma upper_eq (hnibble : b.toNat / 16 = nibble v) :
    ((b &&& 0xF0) >>> 4).setWidth 16 = BitVec.ofNat 16 (nibble v) := by
  apply BitVec.eq_of_toNat_eq
  rw [BitVec.toNat_setWidth, BitVec.toNat_ofNat, toNat_upper, hnibble]

/-- The lower nibble likewise. -/
lemma lower_eq (hnibble : b.toNat % 16 = nibble v) :
    (b &&& 0x0F).setWidth 16 = BitVec.ofNat 16 (nibble v) := by
  apply BitVec.eq_of_toNat_eq
  rw [BitVec.toNat_setWidth, BitVec.toNat_ofNat, toNat_lower, hnibble]

lemma ofNat_lt_thirteen (hv : v < 13) : BitVec.ofNat 16 v < 13 := by
  rw [BitVec.lt_def, BitVec.toNat_ofNat, Nat.mod_eq_of_lt (by omega)]
  exact hv

/-- A field with one byte. -/
lemma byte_field (hsmall : 13 ≤ v) (hlarge : v < 269) :
    (BitVec.ofNat 8 (v - 13)).setWidth 16 + 13 = BitVec.ofNat 16 v := by
  apply BitVec.eq_of_toNat_eq
  rw [BitVec.toNat_add, BitVec.toNat_setWidth, BitVec.toNat_ofNat, BitVec.toNat_ofNat]
  change ((v - 13) % 2 ^ 8 % 2 ^ 16 + 13) % 2 ^ 16 = v % 2 ^ 16
  omega

/-- A field with two bytes; it wraps. -/
lemma word_field (hlarge : 269 ≤ v) (hv : v ≤ maxField) :
    wordOf (BitVec.ofNat 8 (v - 269)) (BitVec.ofNat 8 ((v - 269) / 256)) + 269 =
      BitVec.ofNat 16 v := by
  have hword : (wordOf (BitVec.ofNat 8 (v - 269)) (BitVec.ofNat 8 ((v - 269) / 256))).toNat =
      v - 269 := by
    unfold maxField at hv
    rw [wordOf, BitVec.toNat_append, ← Nat.shiftLeft_add_eq_or_of_lt (BitVec.isLt _),
      Nat.shiftLeft_eq, BitVec.toNat_ofNat, BitVec.toNat_ofNat]
    omega
  apply BitVec.eq_of_toNat_eq
  rw [BitVec.toNat_add, hword, BitVec.toNat_ofNat]
  change (v - 269 + 269) % 2 ^ 16 = v % 2 ^ 16
  omega

/-- Two bytes, the high one first. -/
lemma endianLoad16_eq {hi lo : Byte} (hdrop : pdu.drop option = hi :: lo :: tail) :
    endianLoad16 pdu option = .ok (wordOf lo hi) := by
  have hfirst : loadAt pdu option = .ok hi := by
    rw [← Nat.add_zero option, ← loadAt_drop, hdrop]
    rfl
  have hsecond : loadAt pdu (option + 1) = .ok lo := by
    rw [← loadAt_drop, hdrop]
    rfl
  rw [endianLoad16, hfirst, ok_bind, hsecond, ok_bind]

lemma drop_succ {i : ℕ} (hdrop : pdu.drop option = b :: tail) :
    pdu.drop (option + (1 + i)) = tail.drop i := by
  rw [← List.drop_drop, hdrop, Nat.add_comm, List.drop_succ_cons]

/-- The distance that the bytes say is the one that is read. -/
lemma getOptionDelta_eq (hdrop : pdu.drop option = b :: tail)
    (hread : readField (b.toNat / 16) tail = some (v, rest)) :
    getOptionDelta pdu option = .ok (BitVec.ofNat 16 v) := by
  have hload (i : ℕ) : loadAt pdu (option + i) = loadAt (b :: tail) i := by
    rw [← hdrop, loadAt_drop]
  have hfirst : loadAt pdu option = .ok b := hload 0
  obtain ⟨hv, hnibble, htail⟩ := readField_eq_some_iff.mp hread
  rw [getOptionDelta, hfirst, ok_bind, upper_eq hnibble]
  rw [extension] at htail
  -- by the nibble: the distance itself, one byte or two bytes
  by_cases hsmall : v < 13
  · rw [nibble, if_pos hsmall]
    exact if_pos (ofNat_lt_thirteen hsmall)
  · rw [if_neg hsmall] at htail
    by_cases hlarge : v < 269
    · rw [if_pos hlarge] at htail
      have hone : loadAt pdu (option + 1) = .ok (BitVec.ofNat 8 (v - 13)) := by
        rw [hload, htail]
        rfl
      rw [nibble, if_neg hsmall, if_pos hlarge]
      change (do
        let b ← loadAt pdu (option + 1)
        .ok (b.setWidth 16 + 13)) = _
      rw [hone, ok_bind, byte_field (by omega) hlarge]
    · rw [if_neg hlarge] at htail
      rw [nibble, if_neg hsmall, if_neg hlarge]
      change (do
        let value ← endianLoad16 pdu (option + 1)
        .ok (value + 269)) = _
      have htwo : pdu.drop (option + 1) = _ := (drop_succ (i := 0) hdrop).trans htail
      rw [endianLoad16_eq htwo, ok_bind, word_field (by omega) hv]

/-- So is the length, behind the bytes of the distance. -/
lemma getOptionValueLength_eq {w : ℕ} {rest' : List Byte} (hdrop : pdu.drop option = b :: tail)
    (hdelta : readField (b.toNat / 16) tail = some (v, rest))
    (hread : readField (b.toNat % 16) rest = some (w, rest')) :
    getOptionValueLength pdu option = .ok (BitVec.ofNat 16 w) := by
  have hfirst : loadAt pdu option = .ok b := by
    rw [← Nat.add_zero option, ← loadAt_drop, hdrop]
    rfl
  obtain ⟨-, hupper, htail⟩ := readField_eq_some_iff.mp hdelta
  obtain ⟨hw, hlower, hrest⟩ := readField_eq_some_iff.mp hread
  -- how many bytes of the distance have to be skipped
  have hoffset : (if BitVec.ofNat 16 (nibble v) = 13 then 1
      else if BitVec.ofNat 16 (nibble v) = 14 then 2 else 0) = (extension v).length := by
    rw [length_extension, nibble]
    by_cases hsmall : v < 13
    · have hlt := ofNat_lt_thirteen hsmall
      have hthirteen : BitVec.ofNat 16 v ≠ 13 := fun h => absurd (h ▸ hlt) (by decide)
      have hfourteen : BitVec.ofNat 16 v ≠ 14 := fun h => absurd (h ▸ hlt) (by decide)
      rw [if_pos hsmall, if_pos hsmall, if_neg hthirteen, if_neg hfourteen]
    · rw [if_neg hsmall, if_neg hsmall]
      by_cases hlarge : v < 269
      · rw [if_pos hlarge, if_pos hlarge]
        rfl
      · rw [if_neg hlarge, if_neg hlarge]
        rfl
  have hbehind : pdu.drop (option + (1 + (extension v).length)) = rest := by
    rw [drop_succ hdrop, htail, List.drop_left]
  rw [getOptionValueLength, hfirst, ok_bind, upper_eq hupper, lower_eq hlower]
  dsimp only
  rw [hoffset]
  rw [extension] at hrest
  -- by the nibble again
  by_cases hsmall : w < 13
  · rw [nibble, if_pos hsmall]
    exact if_pos (ofNat_lt_thirteen hsmall)
  · rw [if_neg hsmall] at hrest
    by_cases hlarge : w < 269
    · rw [if_pos hlarge] at hrest
      have hone : loadAt pdu (option + (1 + (extension v).length)) =
          .ok (BitVec.ofNat 8 (w - 13)) := by
        rw [← Nat.add_zero (option + _), ← loadAt_drop, hbehind, hrest]
        rfl
      rw [nibble, if_neg hsmall, if_pos hlarge]
      change (do
        let b ← loadAt pdu (option + (1 + (extension v).length))
        .ok (b.setWidth 16 + 13)) = _
      rw [hone, ok_bind, byte_field (by omega) hlarge]
    · rw [if_neg hlarge] at hrest
      rw [nibble, if_neg hsmall, if_neg hlarge]
      change (do
        let value ← endianLoad16 pdu (option + (1 + (extension v).length))
        .ok (value + 269)) = _
      rw [endianLoad16_eq (hbehind.trans hrest), ok_bind, word_field (by omega) hw]

/-- The first byte of an option is its header. -/
lemma cons_eq_encode_append {i : Item} (h : b :: tail = i.encode ++ rest) :
    b = header i.delta i.value.length ∧
      tail = extension i.delta ++ (extension i.value.length ++ (i.value ++ rest)) := by
  rw [Item.encode, encodeOne, List.cons_append, List.append_assoc, List.append_assoc] at h
  exact List.cons.inj h

/-- Both fields of an encoded option. -/
lemma fields_encode {i : Item} (h : pdu.drop option = i.encode ++ rest) :
    getOptionDelta pdu option = .ok (BitVec.ofNat 16 i.delta) ∧
      getOptionValueLength pdu option = .ok (BitVec.ofNat 16 i.value.length) := by
  cases hdrop : pdu.drop option with
  | nil => exact absurd (List.append_eq_nil_iff.mp (h.symm.trans hdrop)).1 (encode_ne_nil i)
  | cons b tail =>
    obtain ⟨rfl, rfl⟩ := cons_eq_encode_append (hdrop.symm.trans h)
    have hdelta : readField ((header i.delta i.value.length).toNat / 16)
        (extension i.delta ++ (extension i.value.length ++ (i.value ++ rest))) =
          some (i.delta, extension i.value.length ++ (i.value ++ rest)) := by
      rw [header_div]
      exact readField_extension i.delta_le
    have hlength : readField ((header i.delta i.value.length).toNat % 16)
        (extension i.value.length ++ (i.value ++ rest)) =
          some (i.value.length, i.value ++ rest) := by
      rw [header_mod]
      exact readField_extension i.length_le
    exact ⟨getOptionDelta_eq hdrop hdelta, getOptionValueLength_eq hdrop hdelta hlength⟩

end Fields

/-! ## The walk over the options -/

section Walk

variable {s : CoapPdu} {pos bytesRemaining fuel n : ℕ} {body stale tail : List Byte} {b : Byte}

/-- The message with what the walk has found. -/
def CoapPdu.found (s : CoapPdu) (numOptions : ℕ) (payload : List Byte) : CoapPdu :=
  { s with
    payloadPointer := if payload = [] then .null else .place (s.pduLength - payload.length)
    payloadLength := payload.length
    numOptions := numOptions }

/-- Looking at a message leaves its bytes alone. -/
def Same (s s' : CoapPdu) : Prop := s'.pdu = s.pdu ∧ s'.pduLength = s.pduLength

/-- The fields of the option in front can be read, and one of them does not fit 16 bits. -/
def Wraps (bytes : List Byte) : Prop :=
  ∃ b tail v rest, bytes = b :: tail ∧ readField (b.toNat / 16) tail = some (v, rest) ∧
    (65536 ≤ v ∨ ∃ w rest', readField (b.toNat % 16) rest = some (w, rest') ∧ 65536 ≤ w)

/-- No option that the walk can come to says more than 16 bits hold; the last one may reach into
what is behind the message. -/
def Plain (body stale : List Byte) : Prop :=
  ∀ items rest, body = encode items ++ rest → rest ≠ [] → ¬ Wraps (rest ++ stale)

lemma Plain.next {i : Item} (h : Plain (i.encode ++ body) stale) : Plain body stale :=
  fun items rest hbody hne => h (i :: items) rest
    (by rw [hbody, encode_cons, List.append_assoc]) hne

/-- Nothing is left: the options are all there. -/
lemma validateLoop_nil : s.validateLoop (fuel + 1) pos 0 n = .ok (true, s.found n []) := by
  rw [CoapPdu.validateLoop, if_neg (Nat.lt_irrefl 0)]
  rfl

/-- A marker with bytes behind it: the rest is the payload. -/
lemma validateLoop_marker (hdrop : s.pdu.drop pos = marker :: (tail ++ stale))
    (hlength : s.pduLength = pos + (tail.length + 1)) (hne : tail ≠ []) :
    s.validateLoop (fuel + 1) pos (tail.length + 1) n = .ok (true, s.found n tail) := by
  have hpos := List.length_pos_of_ne_nil hne
  have hplace : s.pduLength - tail.length = pos + 1 := by omega
  rw [CoapPdu.validateLoop, if_pos (Nat.succ_pos _), (loadAt_of_drop hdrop).1, ok_bind,
    if_pos (show marker = 0xFF from rfl), if_pos (by omega), CoapPdu.found, if_neg hne, hplace]
  rfl

/-- A marker with nothing behind it is refused. -/
lemma validateLoop_lonely (hdrop : s.pdu.drop pos = marker :: stale) :
    ∃ s', s.validateLoop (fuel + 1) pos 1 n = .ok (false, s') ∧ Same s s' := by
  rw [CoapPdu.validateLoop, if_pos Nat.one_pos, (loadAt_of_drop hdrop).1, ok_bind,
    if_pos (show marker = 0xFF from rfl), if_neg (Nat.lt_irrefl 1)]
  exact ⟨_, rfl, rfl, rfl⟩

/-- The bytes that are asked for a nibble. -/
def asked (n : ℕ) : ℕ := if n < 13 then 0 else 1

/-- What the loop asks for by the nibble. -/
lemma computeExtraBytes_nibble {x : Byte} (hx : x.toNat < 16) :
    computeExtraBytes (x.setWidth 16) = asked x.toNat := by
  have htoNat : (x.setWidth 16).toNat = x.toNat := by
    rw [BitVec.toNat_setWidth]
    exact Nat.mod_eq_of_lt (by omega)
  have hsmall : x.setWidth 16 < 13 ↔ x.toNat < 13 := by
    rw [BitVec.lt_def, htoNat]
    rfl
  have hlarge : x.setWidth 16 < 269 := by
    rw [BitVec.lt_def, htoNat]
    exact hx.trans (by decide)
  rw [computeExtraBytes, asked, if_pos hlarge]
  simp only [hsmall]

/-- One round at an option: it is refused, or both of its fields are read. -/
lemma validateLoop_option (hdrop : s.pdu.drop pos = b :: (tail ++ stale)) (hb : b ≠ marker)
    (hstale : 2 ≤ stale.length) :
    s.validateLoop (fuel + 1) pos (tail.length + 1) n = .ok (false, s) ∧
        (b.toNat / 16 = 15 ∨ b.toNat % 16 = 15 ∨
          tail.length < asked (b.toNat / 16) + asked (b.toNat % 16)) ∨
      ∃ v w rest rest', readField (b.toNat / 16) (tail ++ stale) = some (v, rest) ∧
        readField (b.toNat % 16) rest = some (w, rest') ∧
        s.validateLoop (fuel + 1) pos (tail.length + 1) n =
          if s.pduLength < pos + totalLengthOf (BitVec.ofNat 16 v) (BitVec.ofNat 16 w) then
            .ok (false, s)
          else s.validateLoop fuel (pos + totalLengthOf (BitVec.ofNat 16 v) (BitVec.ofNat 16 w))
            (tail.length + 1 - totalLengthOf (BitVec.ofNat 16 v) (BitVec.ofNat 16 w)) (n + 1) := by
  have hlt := b.isLt
  have hupper : ((b &&& 0xF0) >>> 4).toNat = b.toNat / 16 := toNat_upper b
  have hlower : (b &&& 0x0F).toNat = b.toNat % 16 := toNat_lower b
  have hfifteen (x : Byte) : x = 0x0F ↔ x.toNat = 15 := by
    constructor
    · rintro rfl
      rfl
    · intro h
      exact BitVec.eq_of_toNat_eq h
  -- the tests of the loop, on the numbers in the header
  have hrun : s.validateLoop (fuel + 1) pos (tail.length + 1) n =
      if b.toNat / 16 = 15 ∨ b.toNat % 16 = 15 then .ok (false, s)
      else if tail.length < asked (b.toNat / 16) then .ok (false, s)
      else if tail.length < asked (b.toNat / 16) + asked (b.toNat % 16) then .ok (false, s)
      else
        getOptionDelta s.pdu pos >>= fun optionDelta =>
        getOptionValueLength s.pdu pos >>= fun optionValueLength =>
        if s.pduLength < pos + totalLengthOf optionDelta optionValueLength then .ok (false, s)
        else
          s.validateLoop fuel (pos + totalLengthOf optionDelta optionValueLength)
            (tail.length + 1 - totalLengthOf optionDelta optionValueLength) (n + 1) := by
    have hextra := computeExtraBytes_nibble (x := (b &&& 0xF0) >>> 4) (by omega)
    have hextra' := computeExtraBytes_nibble (x := b &&& 0x0F) (by omega)
    rw [hupper] at hextra
    rw [hlower] at hextra'
    rw [CoapPdu.validateLoop, if_pos (Nat.succ_pos _), (loadAt_of_drop hdrop).1, ok_bind,
      if_neg (show ¬ b = 0xFF from hb)]
    simp only [hfifteen, hupper, hlower, hextra, hextra', Nat.add_sub_cancel]
  rw [hrun]
  -- a nibble of 15 is refused
  by_cases hnibble : b.toNat / 16 = 15 ∨ b.toNat % 16 = 15
  · rw [if_pos hnibble]
    exact .inl ⟨rfl, hnibble.imp_right .inl⟩
  · rw [if_neg hnibble]
    push Not at hnibble
    by_cases hshort : tail.length < asked (b.toNat / 16) + asked (b.toNat % 16)
    -- fewer bytes than the loop asks for
    · rw [if_pos hshort, ite_self]
      exact .inl ⟨rfl, .inr (.inr hshort)⟩
    -- two bytes behind the message make up for what the loop forgets to ask for
    · rw [if_neg (by omega), if_neg hshort]
      right
      have hbytes : (tail ++ stale).length = tail.length + stale.length := List.length_append
      unfold asked at hshort
      cases hdelta : readField (b.toNat / 16) (tail ++ stale) with
      | none =>
        rw [readField_eq_none_iff (by omega), ← List.length_eq_zero_iff] at hdelta
        split_ifs at hshort <;> omega
      | some r =>
        obtain ⟨v, rest⟩ := r
        obtain ⟨-, hnv, hrest⟩ := readField_eq_some_iff.mp hdelta
        have hlength := congrArg List.length hrest
        rw [List.length_append, List.length_append, length_extension] at hlength
        unfold nibble at hnv
        cases hvalue : readField (b.toNat % 16) rest with
        | none =>
          rw [readField_eq_none_iff (by omega), ← List.length_eq_zero_iff] at hvalue
          split_ifs at hlength hnv hshort <;> omega
        | some r =>
          obtain ⟨w, rest'⟩ := r
          refine ⟨v, w, rest, rest', rfl, hvalue, ?_⟩
          rw [getOptionDelta_eq hdrop hdelta, ok_bind, getOptionValueLength_eq hdrop hdelta hvalue,
            ok_bind]

/-- Every option takes a byte at least, so the loop ends. -/
lemma totalLengthOf_pos (optionDelta optionValueLength : Word) :
    0 < totalLengthOf optionDelta optionValueLength := by
  unfold totalLengthOf
  omega

/-- The length of an option whose fields 16 bits hold. -/
lemma totalLengthOf_ofNat {v w : ℕ} (hv : v < 65536) (hw : w < 65536) :
    totalLengthOf (BitVec.ofNat 16 v) (BitVec.ofNat 16 w) =
      1 + (extension v).length + (extension w).length + w := by
  rw [totalLengthOf, computeExtraBytes_ofNat hv, computeExtraBytes_ofNat hw, BitVec.toNat_ofNat,
    Nat.mod_eq_of_lt hw]

/-- Two bytes behind the message are enough for the walk. -/
lemma succeeds_validateLoop (hdrop : s.pdu.drop pos = body ++ stale) (hstale : 2 ≤ stale.length)
    (hlength : s.pduLength = pos + body.length) (hfuel : body.length < fuel) :
    Succeeds (s.validateLoop fuel pos body.length n) := by
  -- each round takes one option away, which has a byte at least
  induction fuel generalizing pos body n with
  | zero => omega
  | succ fuel ih =>
    cases body with
    | nil => exact ⟨_, validateLoop_nil⟩
    | cons b tail =>
      rw [List.length_cons] at hlength hfuel ⊢
      by_cases hb : b = marker
      · subst hb
        by_cases hne : tail = []
        · subst hne
          obtain ⟨s', hrun, -⟩ := validateLoop_lonely hdrop
          exact ⟨_, hrun⟩
        · exact ⟨_, validateLoop_marker hdrop hlength hne⟩
      · obtain ⟨hrefuse, -⟩ | ⟨v, w, rest, rest', -, -, hround⟩ :=
          validateLoop_option hdrop hb hstale
        · exact ⟨_, hrefuse⟩
        · have hpos := totalLengthOf_pos (BitVec.ofNat 16 v) (BitVec.ofNat 16 w)
          rw [hround]
          generalize totalLengthOf (BitVec.ofNat 16 v) (BitVec.ofNat 16 w) = total at hpos ⊢
          by_cases hlong : s.pduLength < pos + total
          · rw [if_pos hlong]
            exact succeeds_ok _
          · rw [if_neg hlong]
            have hrest : ((b :: tail).drop total).length = tail.length + 1 - total :=
              List.length_drop
            have hnext : s.pdu.drop (pos + total) = (b :: tail).drop total ++ stale := by
              rw [← List.drop_drop, hdrop, List.drop_append_of_le_length]
              rw [List.length_cons]
              omega
            rw [← hrest]
            exact ih hnext (by omega) (by omega)

/-- The fields that were read belong to an option as long as the message is not left. -/
lemma eq_encode_append {v w : ℕ} {rest rest' : List Byte}
    (hdelta : readField (b.toNat / 16) (tail ++ stale) = some (v, rest))
    (hvalue : readField (b.toNat % 16) rest = some (w, rest'))
    (hle : 1 + (extension v).length + (extension w).length + w ≤ tail.length + 1) :
    ∃ (i : Item) (body : List Byte),
      i.delta = v ∧ i.value.length = w ∧ b :: tail = i.encode ++ body := by
  obtain ⟨hv, hnv, hrest⟩ := readField_eq_some_iff.mp hdelta
  obtain ⟨hw, hnw, hrest'⟩ := readField_eq_some_iff.mp hvalue
  have hbytes : tail ++ stale = (extension v ++ extension w) ++ rest' := by
    rw [hrest, hrest', List.append_assoc]
  have hlength := congrArg List.length hbytes
  rw [List.length_append, List.length_append, List.length_append] at hlength
  -- both fields lie inside the message, because the whole option does
  have htail : tail = (extension v ++ extension w) ++
      rest'.take (tail.length - (extension v ++ extension w).length) := by
    have htake := congrArg (List.take tail.length) hbytes
    rw [List.take_left, List.take_append, List.take_of_length_le] at htake
    · exact htake
    · rw [List.length_append]
      omega
  generalize rest'.take (tail.length - (extension v ++ extension w).length) = inside at htail
  have hinside := congrArg List.length htail
  rw [List.length_append, List.length_append] at hinside
  have hvalueLength : (inside.take w).length = w := List.length_take_of_le (by omega)
  -- and the header is made of their nibbles
  have hheader : b = header v w := by
    apply BitVec.eq_of_toNat_eq
    rw [toNat_header]
    omega
  have hencode : b :: tail = encodeOne v (inside.take w) ++ inside.drop w := by
    rw [encodeOne, hvalueLength, ← hheader, List.cons_append, List.append_assoc, List.append_assoc,
      List.take_append_drop, ← List.append_assoc, ← htail]
  exact ⟨⟨v, inside.take w, hv, hvalueLength.symm ▸ hw⟩, inside.drop w, rfl, hvalueLength, hencode⟩

lemma not_encode_marker {items : List Item} {payload : List Byte} :
    [marker] ≠ encode items ++ payloadPart payload := by
  intro h
  have hnil : encode [] ++ [marker] = encode items ++ payloadPart payload := h
  obtain ⟨rfl, hpayload⟩ := encode_append_inj (.inr ⟨[], rfl⟩) (ends_payloadPart payload) hnil
  rw [payloadPart] at hpayload
  split_ifs at hpayload with hnil
  exact hnil (List.cons.inj hpayload).2.symm

/-- What does not begin with the marker begins with an option. -/
lemma exists_option {items : List Item} {payload : List Byte} (hb : b ≠ marker)
    (h : b :: tail = encode items ++ payloadPart payload) :
    ∃ (i : Item) (items' : List Item),
      b :: tail = i.encode ++ (encode items' ++ payloadPart payload) := by
  cases items with
  | nil =>
    rw [encode_nil, List.nil_append, payloadPart] at h
    split_ifs at h
    exact absurd (List.cons.inj h).1 hb
  | cons i items => exact ⟨i, items, by rw [h, encode_cons, List.append_assoc]⟩

/-- The fields that are read from an option are its own. -/
lemma fields_of_encode {i : Item} {v w : ℕ} {rest rest' : List Byte}
    (h : b :: tail = i.encode ++ body)
    (hdelta : readField (b.toNat / 16) (tail ++ stale) = some (v, rest))
    (hvalue : readField (b.toNat % 16) rest = some (w, rest')) :
    i.delta = v ∧ i.value.length = w := by
  obtain ⟨rfl, htail⟩ := cons_eq_encode_append h
  rw [htail, header_div, List.append_assoc, readField_extension i.delta_le] at hdelta
  obtain ⟨rfl, rfl⟩ := Prod.mk.inj (Option.some.inj hdelta)
  rw [header_mod, List.append_assoc, readField_extension i.length_le] at hvalue
  obtain ⟨rfl, -⟩ := Prod.mk.inj (Option.some.inj hvalue)
  exact ⟨rfl, rfl⟩

/-- An option is not refused for its nibbles. -/
lemma asked_le_of_encode {i : Item} (h : b :: tail = i.encode ++ body) :
    b.toNat / 16 ≠ 15 ∧ b.toNat % 16 ≠ 15 ∧
      asked (b.toNat / 16) + asked (b.toNat % 16) ≤ tail.length := by
  obtain ⟨rfl, htail⟩ := cons_eq_encode_append h
  have hlength := congrArg List.length htail
  rw [List.length_append, List.length_append, List.length_append, length_extension,
    length_extension] at hlength
  rw [header_div, header_mod]
  unfold asked nibble
  split_ifs at hlength ⊢ <;> omega

/-- Behind an option of a message lies the rest of the message. -/
lemma exists_encode_of_append {i : Item} {items : List Item} {payload : List Byte}
    (h : i.encode ++ body = encode items ++ payloadPart payload) :
    ∃ items', body = encode items' ++ payloadPart payload := by
  cases items with
  | nil => exact absurd (h ▸ ends_payloadPart payload) (not_ends_encode i body)
  | cons i' items =>
    rw [encode_cons, List.append_assoc] at h
    exact ⟨items, (item_append_inj h).2⟩

/-- **The walk.** It comes to the end of a list of options, or there is none. -/
lemma validateLoop_spec (hdrop : s.pdu.drop pos = body ++ stale) (hstale : 2 ≤ stale.length)
    (hlength : s.pduLength = pos + body.length) (hfuel : body.length < fuel)
    (hplain : Plain body stale) :
    (∃ items payload, body = encode items ++ payloadPart payload ∧
      s.validateLoop fuel pos body.length n = .ok (true, s.found (n + items.length) payload)) ∨
    (∀ items payload, body ≠ encode items ++ payloadPart payload) ∧
      ∃ s', s.validateLoop fuel pos body.length n = .ok (false, s') ∧ Same s s' := by
  -- the induction follows the loop: an option in front, a marker, or the end
  induction fuel generalizing pos body n with
  | zero => omega
  | succ fuel ih =>
    cases body with
    | nil => exact .inl ⟨[], [], rfl, validateLoop_nil⟩
    | cons b tail =>
      rw [List.length_cons] at hlength hfuel ⊢
      by_cases hb : b = marker
      · subst hb
        by_cases hne : tail = []
        · subst hne
          exact .inr ⟨fun items payload => not_encode_marker, validateLoop_lonely hdrop⟩
        · refine .inl ⟨[], tail, ?_, validateLoop_marker hdrop hlength hne⟩
          rw [payloadPart, if_neg hne]
          rfl
      · obtain ⟨hrefuse, hwhy⟩ | ⟨v, w, rest, rest', hdelta, hvalue, hround⟩ :=
          validateLoop_option hdrop hb hstale
        -- an option of a message has the bytes that the loop asks for
        · refine .inr ⟨fun items payload h => ?_, s, hrefuse, rfl, rfl⟩
          obtain ⟨i, items', hencode⟩ := exists_option hb h
          have := asked_le_of_encode hencode
          omega
        -- neither field is cut to 16 bits
        · have hnot : ¬ Wraps (b :: tail ++ stale) :=
            hplain [] (b :: tail) rfl (List.cons_ne_nil b tail)
          have hv : v < 65536 :=
            not_le.mp fun hle => hnot ⟨b, tail ++ stale, v, rest, rfl, hdelta, .inl hle⟩
          have hw : w < 65536 := not_le.mp fun hle =>
            hnot ⟨b, tail ++ stale, v, rest, rfl, hdelta, .inr ⟨w, rest', hvalue, hle⟩⟩
          rw [hround, totalLengthOf_ofNat hv hw]
          by_cases hlong : s.pduLength < pos + (1 + (extension v).length + (extension w).length + w)
          · rw [if_pos hlong]
            -- the option reaches behind the message, so it is none of it
            refine .inr ⟨fun items payload h => ?_, s, rfl, rfl, rfl⟩
            obtain ⟨i, items', hencode⟩ := exists_option hb h
            obtain ⟨rfl, rfl⟩ := fields_of_encode hencode hdelta hvalue
            have hsize := congrArg List.length hencode
            rw [List.length_append, Item.encode, length_encodeOne, List.length_cons] at hsize
            omega
          · rw [if_neg hlong]
            obtain ⟨i, body', rfl, rfl, hbody⟩ := eq_encode_append hdelta hvalue (by omega)
            have hsize := congrArg List.length hbody
            have hencode : i.encode.length = _ := length_encodeOne i.delta i.value
            have hnext : s.pdu.drop (pos + i.encode.length) = body' ++ stale :=
              drop_append_of_drop (by rw [hdrop, hbody, List.append_assoc])
            rw [List.length_append, List.length_cons] at hsize
            rw [← hencode, show tail.length + 1 - i.encode.length = body'.length by omega, hbody]
            -- the rest of the message decides
            rcases ih hnext (by omega) (by omega) (hbody ▸ hplain).next with
              ⟨items, payload, hwhole, hrun⟩ | ⟨hnone, hrun⟩
            · refine .inl ⟨i :: items, payload, ?_, ?_⟩
              · rw [encode_cons, List.append_assoc, ← hwhole]
              · rw [hrun, List.length_cons, Nat.add_right_comm, Nat.add_assoc]
            · refine .inr ⟨fun items payload h => ?_, hrun⟩
              obtain ⟨items', hwhole⟩ := exists_encode_of_append h
              exact hnone items' payload hwhole

end Walk

/-! ## The message -/

section Message

variable {s s' : CoapPdu} {data stale : List Byte} {m : Message}

/-- What follows the header and the token. -/
def behindToken (data : List Byte) : List Byte := data.drop (4 + (data.headD 0).toNat % 16)

/-- The object holds a message with something behind it in the buffer. -/
structure Holds (s : CoapPdu) (data stale : List Byte) : Prop where
  pdu : s.pdu = data ++ stale
  pduLength : s.pduLength = data.length

/-- What is known once a message has been accepted. The pointer to an empty payload is not `NULL`
where it was not before. -/
structure Accepted (s' : CoapPdu) (data stale : List Byte) (m : Message) : Prop extends
    Holds s' data stale where
  numOptions : s'.numOptions = m.items.length
  payloadLength : s'.payloadLength = m.payload.length
  payloadPointer : m.payload ≠ [] → s'.payloadPointer = .place (data.length - m.payload.length)

lemma behindToken_encode (m : Message) : behindToken m.encode = m.body := by
  rw [behindToken, show m.encode.headD 0 = firstByte m.version m.type m.token.length from rfl,
    firstByte_mod, ← List.drop_drop]
  exact List.drop_left

/-- The version, the token length and the code are looked at before the options. -/
lemma validate_cons {a code hi lo : Byte} {rest : List Byte}
    (h : Holds s (a :: code :: hi :: lo :: rest) stale) :
    s.validate =
      if a.toNat / 64 = 1 ∧ a.toNat % 16 ≤ 8 ∧ a.toNat % 16 ≤ rest.length ∧ validCode code then
        if rest.length = a.toNat % 16 then
          .ok (true, { s with numOptions := 0, payloadLength := 0 })
        else s.validateLoop (s.pduLength + 1) (4 + a.toNat % 16) (rest.length - a.toNat % 16) 0
      else .ok (false, s) := by
  have hfirst : loadAt s.pdu 0 = .ok a := by
    rw [h.pdu]
    rfl
  have hcode : loadAt s.pdu 1 = .ok code := by
    rw [h.pdu]
    rfl
  have hlength : s.pduLength = rest.length + 4 := h.pduLength
  -- the version is compared as a byte
  have hversion : (a &&& 0xC0) >>> 6 ≠ 1 ↔ a.toNat / 64 ≠ 1 := by
    rw [← toNat_version, not_iff_not]
    exact ⟨fun h => congrArg BitVec.toNat h, fun h => BitVec.eq_of_toNat_eq h⟩
  rw [CoapPdu.validate, if_neg (by omega), CoapPdu.getVersion, hfirst, ok_bind, ok_bind,
    CoapPdu.getTokenLength, hfirst, ok_bind, ok_bind, CoapPdu.getCode, hcode, ok_bind,
    toNat_lower]
  simp only [hversion, hlength]
  by_cases hok : a.toNat / 64 = 1 ∧ a.toNat % 16 ≤ 8 ∧ a.toNat % 16 ≤ rest.length ∧ validCode code
  · rw [if_pos hok]
    -- all four tests are passed
    obtain ⟨hone, height, htoken, hvalid⟩ := hok
    rw [if_neg (not_not.mpr hone), if_neg (by omega), if_neg (by omega), if_pos hvalid]
    have hbehind : rest.length + 4 - (4 + a.toNat % 16) = rest.length - a.toNat % 16 := by omega
    have hend : 4 + a.toNat % 16 = rest.length + 4 ↔ rest.length = a.toNat % 16 := by omega
    simp only [hend, hbehind]
  · rw [if_neg hok]
    split_ifs with hone height htoken hvalid
    · rfl
    · rfl
    · rfl
    · exact absurd ⟨not_not.mp hone, by omega, by omega, hvalid⟩ hok
    · exact absurd ⟨not_not.mp hone, by omega, by omega, hvalid⟩ hok
    · rfl

/-- The bytes of a header and a token, and what is behind them. -/
lemma validate_body {a code hi lo : Byte} {token body : List Byte}
    (h : Holds s (a :: code :: hi :: lo :: (token ++ body)) stale) (hstale : 2 ≤ stale.length)
    (htoken : token.length = a.toNat % 16) (height : token.length ≤ 8) (hversion : a.toNat / 64 = 1)
    (hcode : validCode code) (hplain : Plain body stale) :
    (∃ items payload, body = encode items ++ payloadPart payload ∧
      ∃ s', s.validate = .ok (true, s') ∧ s'.numOptions = items.length ∧
        s'.payloadLength = payload.length ∧
        Holds s' (a :: code :: hi :: lo :: (token ++ body)) stale ∧
        (payload ≠ [] → s'.payloadPointer = .place (s.pduLength - payload.length))) ∨
    (∀ items payload, body ≠ encode items ++ payloadPart payload) ∧
      ∃ s', s.validate = .ok (false, s') ∧ Same s s' := by
  have hlength : (token ++ body).length = token.length + body.length := List.length_append
  rw [validate_cons h, if_pos ⟨hversion, by omega, by omega, hcode⟩]
  -- without options and payload the loop is not entered
  by_cases hnil : body = []
  · subst hnil
    rw [if_pos (by rw [hlength, htoken]; rfl)]
    exact .inl ⟨[], [], rfl, _, rfl, rfl, rfl, ⟨h.pdu, h.pduLength⟩, fun h => absurd rfl h⟩
  · have hpos := List.length_pos_of_ne_nil hnil
    have hpdu : s.pduLength = 4 + a.toNat % 16 + body.length := by
      rw [h.pduLength]
      simp only [List.length_cons, List.length_append]
      omega
    have hdrop : s.pdu.drop (4 + a.toNat % 16) = body ++ stale := by
      rw [h.pdu, ← htoken, ← List.drop_drop]
      simp only [List.cons_append, List.drop_succ_cons, List.drop_zero, List.append_assoc,
        List.drop_left]
    have hsize : (token ++ body).length - a.toNat % 16 = body.length := by omega
    rw [if_neg (by omega), hsize]
    rcases validateLoop_spec (n := 0) hdrop hstale hpdu
      (show body.length < s.pduLength + 1 by omega) hplain with
      ⟨items, payload, hbody, hrun⟩ | ⟨hnone, hrun⟩
    · refine .inl ⟨items, payload, hbody, _, hrun, Nat.zero_add _, rfl, ⟨h.pdu, h.pduLength⟩,
        fun hne => ?_⟩
      exact if_neg hne
    · exact .inr ⟨hnone, hrun⟩

/-- **Two bytes behind the message are enough.** Whatever the message is, `validate` stays in the
buffer and comes to an end. -/
theorem succeeds_validate (h : Holds s data stale) (hstale : 2 ≤ stale.length) :
    Succeeds s.validate := by
  by_cases hshort : data.length < 4
  · exact ⟨_, if_pos (h.pduLength ▸ hshort)⟩
  · obtain ⟨a, code, hi, lo, rest, rfl⟩ := exists_header (not_lt.mp hshort)
    rw [validate_cons h]
    split_ifs with hok
    · exact succeeds_ok _
    · have hdrop : s.pdu.drop (4 + a.toNat % 16) = rest.drop (a.toNat % 16) ++ stale := by
        rw [h.pdu, ← List.drop_drop, ← List.drop_append_of_le_length hok.2.2.1]
        rfl
      have hlength := h.pduLength
      simp only [List.length_cons] at hlength
      have hbody : (rest.drop (a.toNat % 16)).length = rest.length - a.toNat % 16 :=
        List.length_drop
      rw [← hbody]
      exact succeeds_validateLoop hdrop hstale (by omega) (by omega)
    · exact succeeds_ok _

/-- A message that ends in the header of an option. -/
example : Succeeds (CoapPdu.fromBuffer [0x40, 0x01, 0, 0, 0xE0, 0, 0xFF, 0xFF] 6).validate :=
  succeeds_validate
    (show Holds _ [0x40, 0x01, 0, 0, 0xE0, 0] [0xFF, 0xFF] from ⟨rfl, rfl⟩) (by decide)

/-- An option with nibbles of 14 and two bytes behind them: the check asks for one byte for each of
the fields, which have two. -/
lemma validate_bare (hstale : stale.length < 2) (h : Holds s [0x40, 1, 0, 0, 0xEE, 0, 0] stale) :
    s.validate = .error .outOfBounds := by
  obtain ⟨pdu, pduLength, constructedFromBuffer, pointer, length, numOptions, number⟩ := s
  obtain ⟨rfl, rfl⟩ : pdu = _ ∧ pduLength = _ := ⟨h.pdu, h.pduLength⟩
  match stale, hstale with
  | [], _ => rfl
  | [b], _ => rfl

/-- **How much has to be behind a message.** `validate` stays in the buffer, and comes to an end,
for every message exactly if two bytes of the buffer are behind it. -/
theorem succeeds_validate_iff (n : ℕ) :
    (∀ (s : CoapPdu) (data stale : List Byte), stale.length = n → Holds s data stale →
      Succeeds s.validate) ↔ 2 ≤ n := by
  constructor
  · intro hall
    by_contra hshort
    have hstale : (List.replicate n (0 : Byte)).length < 2 := by
      rw [List.length_replicate]
      omega
    have hholds : Holds (.fromBuffer ([0x40, 1, 0, 0, 0xEE, 0, 0] ++ List.replicate n 0) 7)
        [0x40, 1, 0, 0, 0xEE, 0, 0] (List.replicate n 0) := ⟨rfl, rfl⟩
    have hsucceeds := hall _ _ _ List.length_replicate hholds
    rw [validate_bare hstale hholds] at hsucceeds
    exact not_succeeds_error _ hsucceeds
  · rintro hle s data stale rfl h
    exact succeeds_validate h hle

/-- The bytes are the same, so the message is. -/
lemma Holds.same {s' : CoapPdu} (h : Holds s data stale) (hsame : Same s s') :
    Holds s' data stale := ⟨hsame.1.trans h.pdu, hsame.2.trans h.pduLength⟩

/-- Both fields of an option fit 16 bits. -/
def Small (items : List Item) : Prop := ∀ i ∈ items, i.delta < 65536 ∧ i.value.length < 65536

/-- An option with small fields does not wrap. -/
lemma not_wraps_encode {i : Item} {rest : List Byte} (hdelta : i.delta < 65536)
    (hlength : i.value.length < 65536) : ¬ Wraps (i.encode ++ rest) := by
  rintro ⟨b, tail, v, rest', h, hread, hwraps⟩
  obtain ⟨rfl, rfl⟩ := cons_eq_encode_append h.symm
  rw [header_div, readField_extension i.delta_le] at hread
  obtain ⟨rfl, rfl⟩ := Prod.mk.inj (Option.some.inj hread)
  rw [header_mod, readField_extension i.length_le] at hwraps
  rcases hwraps with hwraps | ⟨w, rest', hread, hwraps⟩
  · omega
  · obtain ⟨rfl, -⟩ := Prod.mk.inj (Option.some.inj hread)
    omega

lemma not_wraps_marker (rest : List Byte) : ¬ Wraps (marker :: rest) := by
  rintro ⟨b, tail, v, rest', h, hread, -⟩
  obtain ⟨rfl, rfl⟩ := List.cons.inj h
  cases hread

/-- The walk over a message with small fields meets small fields only, whatever is behind it. -/
lemma plain_of_small {items : List Item} (hsmall : Small items) (payload stale : List Byte) :
    Plain (encode items ++ payloadPart payload) stale := by
  -- a cut can only happen where an option begins
  induction items with
  | nil =>
    intro items rest h hne
    rw [encode_nil, List.nil_append] at h
    cases items with
    | nil =>
      rw [encode_nil, List.nil_append] at h
      subst h
      rw [payloadPart] at hne ⊢
      split_ifs at hne ⊢ with hnil
      · exact absurd rfl hne
      · exact not_wraps_marker _
    | cons i items =>
      rw [encode_cons, List.append_assoc] at h
      exact absurd (h ▸ ends_payloadPart payload) (not_ends_encode i _)
  | cons i items ih =>
    rw [encode_cons, List.append_assoc]
    intro items' rest h hne
    cases items' with
    | nil =>
      rw [encode_nil, List.nil_append] at h
      obtain ⟨hdelta, hlength⟩ := hsmall i List.mem_cons_self
      rw [← h, List.append_assoc]
      exact not_wraps_encode hdelta hlength
    | cons i' items' =>
      rw [encode_cons, List.append_assoc] at h
      exact ih (fun i hi => hsmall i (List.mem_cons_of_mem _ hi)) items' rest (item_append_inj h).2
        hne

/-- Only small fields have been walked over. -/
lemma small_of_plain {items : List Item} {rest stale : List Byte}
    (h : Plain (encode items ++ rest) stale) : Small items := by
  induction items with
  | nil => exact List.forall_mem_nil _
  | cons i items ih =>
    rw [encode_cons, List.append_assoc] at h
    have hwraps := h [] (i.encode ++ (encode items ++ rest)) rfl
      (List.append_ne_nil_of_left_ne_nil (encode_ne_nil i) _)
    refine List.forall_mem_cons.mpr ⟨?_, ih h.next⟩
    by_contra hlarge
    refine hwraps ⟨header i.delta i.value.length, _, i.delta,
      extension i.value.length ++ (i.value ++ ((encode items ++ rest) ++ stale)), ?_,
      (header_div i.delta i.value.length).symm ▸ readField_extension i.delta_le, ?_⟩
    · rw [Item.encode, encodeOne]
      simp only [List.cons_append, List.append_assoc]
    · by_cases hdelta : 65536 ≤ i.delta
      · exact .inl hdelta
      · refine .inr ⟨i.value.length, i.value ++ ((encode items ++ rest) ++ stale), ?_, by omega⟩
        rw [header_mod]
        exact readField_extension i.length_le

/-- **What `validate` accepts.** With two bytes behind a message in the buffer the walk stays in it,
and accepts the messages of version 1 with a code that is known. -/
theorem validate_spec (h : Holds s data stale) (hstale : 2 ≤ stale.length)
    (hplain : Plain (behindToken data) stale) :
    (∃ m : Message, data = m.encode ∧ m.version = 1 ∧ validCode m.code ∧
      ∃ s', s.validate = .ok (true, s') ∧ Accepted s' data stale m) ∨
    (∀ m : Message, data = m.encode → m.version = 1 → ¬ validCode m.code) ∧
      ∃ s', s.validate = .ok (false, s') ∧ Holds s' data stale := by
  by_cases hshort : data.length < 4
  · refine .inr ⟨fun m hm => ?_, s, if_pos (h.pduLength ▸ hshort), h⟩
    have := length_encode m
    rw [hm] at hshort
    omega
  · obtain ⟨a, code, hi, lo, rest, rfl⟩ := exists_header (not_lt.mp hshort)
    by_cases hok : a.toNat / 64 = 1 ∧ a.toNat % 16 ≤ 8 ∧ a.toNat % 16 ≤ rest.length ∧ validCode code
    · obtain ⟨hversion, height, hle, hcode⟩ := hok
      have htoken : (rest.take (a.toNat % 16)).length = a.toNat % 16 := List.length_take_of_le hle
      have hbehind : behindToken (a :: code :: hi :: lo :: rest) = rest.drop (a.toNat % 16) := by
        rw [behindToken, ← List.drop_drop]
        rfl
      have hrest : a :: code :: hi :: lo :: rest =
          a :: code :: hi :: lo :: (rest.take (a.toNat % 16) ++ rest.drop (a.toNat % 16)) := by
        rw [List.take_append_drop]
      rcases validate_body (hrest ▸ h) hstale htoken (htoken.le.trans height) hversion hcode
          (hbehind ▸ hplain) with
        ⟨items, payload, hbody, s', hrun, hnum, hlength, hholds, hpointer⟩ |
        ⟨hnone, s', hrun, hsame⟩
      · left
        obtain ⟨m, hm, hmversion, rfl, rfl, rfl⟩ :=
          exists_encode_eq code hi lo htoken (htoken.le.trans height) items payload
        rw [← hbody, List.take_append_drop] at hm
        rw [List.take_append_drop] at hholds
        exact ⟨m, hm, hmversion.trans hversion, hcode, s', hrun, hholds, hnum, hlength,
          h.pduLength ▸ hpointer⟩
      -- what is behind the token is not made of options and a payload
      · refine .inr ⟨fun m hm _ _ => ?_, s', hrun, h.same hsame⟩
        rw [hm, behindToken_encode] at hbehind
        exact hnone m.items m.payload hbehind.symm
    -- a message would pass the tests of the header
    · refine .inr ⟨fun m hm hversion hcode => hok ?_, s, (validate_cons h).trans (if_neg hok), h⟩
      have hrest : rest = m.token ++ m.body := congrArg (List.drop 4) hm
      obtain ⟨rfl, htail⟩ := List.cons.inj hm
      obtain ⟨rfl, -⟩ := List.cons.inj htail
      rw [firstByte_div, firstByte_mod, hrest, List.length_append]
      exact ⟨hversion, m.token_le, Nat.le_add_right _ _, hcode⟩

/-- A distance that does not fit 16 bits hides the option behind it. -/
example : ((CoapPdu.fromBuffer [0x40, 0x01, 0, 0, 0xE0, 0xFF, 0xFF, 0, 0, 0] 8).validate).map
    (fun r => (r.1, r.2.numOptions, r.2.payloadLength)) = .ok (true, 1, 1) := by
  decide

end Message

end Vng.Cantcoap
