import Vng.Host
import Vng.Lib.OptionList

/-!
# Reading an option of a CoAP message

`coap_opt_parse` walks over the header of an option with a pointer and the number of bytes left;
it reads the byte it has moved to before it asks whether it was still there.
-/

namespace Vng.Libcoap

open Memory OptionList

/-- `coap_option_t`; the value is a place in the buffer. -/
structure CoapOption where
  delta : ℕ
  length : ℕ
  value : ℕ
deriving DecidableEq, Repr

/-- What `ADVANCE_OPT` moves. -/
structure Cursor where
  opt : ℕ
  length : ℕ
deriving DecidableEq, Repr

/-- `ADVANCE_OPT(opt, length, 1)`. -/
def Cursor.advance (c : Cursor) : Option Cursor :=
  if c.length < 1 then none else some ⟨c.opt + 1, c.length - 1⟩

/-- What sets the two fields of an option header apart: the type of the variable, and the test
after its first byte. -/
structure Field where
  wrap : ℕ → ℕ
  tooLarge : ℕ → Bool

/-- `unsigned short delta`. -/
def Field.delta : Field := ⟨(· % 65536), (· < 269)⟩

/-- `size_t length`, without a test. -/
def Field.length : Field := ⟨id, fun _ => false⟩

/-- `case 13`. -/
def Field.addByte (f : Field) (memory : List Byte) (n : ℕ) (c : Cursor) :
    Checked (Option (ℕ × Cursor)) :=
  match c.advance with
  | none => .ok none
  | some c => do
    let byte ← loadAt memory c.opt
    .ok (some (f.wrap (n + byte.toNat), c))

/-- The `switch` over a nibble. -/
def Field.parse (f : Field) (memory : List Byte) : ℕ → Cursor → Checked (Option (ℕ × Cursor))
  | 15, _ => .ok none
  | 14, c =>
    match c.advance with
    | none => .ok none
    | some c => do
      let byte ← loadAt memory c.opt
      let n := f.wrap (byte.toNat * 256 + 269)
      -- falls through to `case 13`
      if f.tooLarge n then .ok none else f.addByte memory n c
  | 13, c => f.addByte memory 13 c
  | n, c => .ok (some (n, c))

/-- The second `switch` of `coap_opt_parse`, and the value behind the header. -/
def parseLength (memory : List Byte) (start nibble delta : ℕ) (c : Cursor) :
    Checked (Option (ℕ × CoapOption)) := do
  match ← Field.length.parse memory nibble c with
  | none => .ok none
  | some (length, c) =>
    match c.advance with
    | none => .ok none
    | some c =>
      if c.length < length then .ok none
      else .ok (some (c.opt + length - start, ⟨delta, length, c.opt⟩))

/-- The size of the option at `opt` and what it holds; `none` where the source returns 0. -/
def coapOptParse (memory : List Byte) (opt length : ℕ) : Checked (Option (ℕ × CoapOption)) :=
  if length < 1 then .ok none else do
    let first ← loadAt memory opt
    match ← Field.delta.parse memory (first.toNat / 16) ⟨opt, length⟩ with
    | none => .ok none
    | some (delta, c) => parseLength memory opt (first.toNat % 16) delta c

/-! ## Reading an option -/

/-- What a field of the header is stored as; `none` where it is refused. -/
def Field.kept (f : Field) (v : ℕ) : Option ℕ :=
  if v < 13 then some v
  else if v < 269 then some (f.wrap v)
  else if f.tooLarge (f.wrap ((v - 269) / 256 * 256 + 269)) then none
  else some (f.wrap (f.wrap ((v - 269) / 256 * 256 + 269) + (v - 269) % 256))

/-- The bytes of the buffer end where the rest of the field would be read. -/
def Field.Cut (f : Field) : ℕ → List Byte → Prop
  | 13, [] => True
  | 14, [] => True
  | 14, [hi] => f.tooLarge (f.wrap (hi.toNat * 256 + 269)) = false
  | _, _ => False

/-- The bytes behind the cursor. -/
def Cursor.behind (c : Cursor) (memory : List Byte) : List Byte :=
  (memory.drop (c.opt + 1)).take (c.length - 1)

/-- The cursor some bytes further on. -/
def Cursor.skip (c : Cursor) (count : ℕ) : Cursor := ⟨c.opt + count, c.length - count⟩

/-- Nothing is left after the field. -/
def Dead (r : Option (ℕ × Cursor)) : Prop := ∀ n c, r = some (n, c) → c.length = 0

section Parse

variable {memory rest : List Byte} {opt length n v size delta : ℕ} {c : Cursor} {f : Field}

lemma kept_length (v : ℕ) : Field.length.kept v = some v := by
  unfold Field.kept Field.length
  split_ifs with h₁ h₂ h₃
  · rfl
  · rfl
  · cases h₃
  · simp only [id_eq, Option.some.injEq]
    omega

/-- A distance of more than 16 bits is refused, except for the smallest thirteen of them. -/
lemma kept_delta (hv : v ≤ maxField) :
    Field.delta.kept v = if v < 65549 then some (v % 65536) else none := by
  unfold maxField at hv
  unfold Field.kept Field.delta
  simp only [decide_eq_true_eq]
  split_ifs <;>
    first
    | omega
    | exact congrArg some (by omega)
    | exact (rfl : (none : Option ℕ) = none)

/-- How many bytes are left behind the cursor. -/
lemma length_behind (hmemory : c.opt + c.length ≤ memory.length) :
    (c.behind memory).length = c.length - 1 := by
  rw [Cursor.behind, List.length_take, List.length_drop]
  omega

lemma advance_eq_some (hc : 1 ≤ c.length) : c.advance = some (c.skip 1) := if_neg (by omega)

lemma advance_eq_none (hc : c.length = 0) : c.advance = none := if_pos (by omega)

@[simp] lemma skip_skip (a b : ℕ) : (c.skip a).skip b = c.skip (a + b) := by
  unfold Cursor.skip
  simp only [Cursor.mk.injEq]
  omega

/-- The next byte is read where there is one. -/
lemma addByte_eq_ok {b : Byte} (hc : 1 ≤ c.length) (h : c.behind memory = b :: rest) :
    f.addByte memory n c = .ok (some (f.wrap (n + b.toNat), c.skip 1)) ∧
      (c.skip 1).behind memory = rest := by
  obtain ⟨hload, hnext⟩ := loadAt_of_drop_take h
  refine ⟨?_, hnext⟩
  rw [Field.addByte, advance_eq_some hc]
  simp only [Cursor.skip, hload, ok_bind]

/-- A small field is its own announcement. -/
lemma parse_small (hn : n < 13) : f.parse memory n c = .ok (some (n, c)) := by
  unfold Field.parse
  split <;> first | omega | rfl

/-- A field of two bytes: the high one may be too large already. -/
lemma parse_fourteen (hc : 1 ≤ c.length) :
    f.parse memory 14 c = (loadAt memory (c.opt + 1) >>= fun byte =>
      if f.tooLarge (f.wrap (byte.toNat * 256 + 269)) then .ok none
      else f.addByte memory (f.wrap (byte.toNat * 256 + 269)) (c.skip 1)) := by
  rw [Field.parse, advance_eq_some hc]
  rfl

/-- A field that is there is read as it was written, or refused. -/
lemma parse_of_readField (hc : 1 ≤ c.length)
    (hread : readField n (c.behind memory) = some (v, rest)) :
    f.parse memory n c = .ok ((f.kept v).map fun w => (w, c.skip (extension v).length)) ∧
      (c.skip (extension v).length).behind memory = rest := by
  obtain ⟨hv, rfl, hbytes⟩ := readField_eq_some_iff.mp hread
  unfold maxField at hv
  rw [length_extension]
  unfold extension at hbytes
  unfold nibble Field.kept
  split_ifs at hbytes ⊢ with h₁ h₂ h₃
  -- no byte
  · exact ⟨parse_small h₁, hbytes⟩
  -- one byte
  · obtain ⟨hadd, hrest⟩ := addByte_eq_ok (f := f) (n := 13) hc hbytes
    refine ⟨?_, hrest⟩
    rw [Field.parse, hadd, BitVec.toNat_ofNat, Nat.mod_eq_of_lt (by omega),
      Nat.add_sub_cancel' (by omega)]
    rfl
  all_goals
    have hhi : (v - 269) / 256 < 256 := by omega
    obtain ⟨hload, hlo⟩ := loadAt_of_drop_take hbytes
    rw [parse_fourteen hc, hload, ok_bind, BitVec.toNat_ofNat, Nat.mod_eq_of_lt hhi]
  -- the high byte alone is too large
  · rw [if_pos h₃]
    refine ⟨rfl, ?_⟩
    exact (loadAt_of_drop_take hlo).2
  -- the low byte is added to it
  · have hlength : 1 ≤ (c.skip 1).length := by
      have hpos : 0 < ((memory.drop (c.opt + 1 + 1)).take (c.length - 1 - 1)).length := by
        rw [hlo]
        exact Nat.succ_pos _
      rw [List.length_take] at hpos
      show 1 ≤ c.length - 1
      omega
    obtain ⟨hadd, hrest⟩ := addByte_eq_ok (f := f)
      (n := f.wrap ((v - 269) / 256 * 256 + 269)) hlength hlo
    rw [skip_skip] at hadd hrest
    refine ⟨?_, hrest⟩
    rw [if_neg h₃, hadd, BitVec.toNat_ofNat]
    rfl

lemma loadAt_eq_error {i : ℕ} (h : memory.length ≤ i) :
    loadAt memory i = .error .outOfBounds := by
  rw [loadAt, List.getElem?_eq_none h]

/-- At the end of the region there is no byte to add. -/
lemma addByte_dead (hc : c.length = 0) : f.addByte memory n c = .ok none := by
  rw [Field.addByte, advance_eq_none hc]

/-- The last byte is added, and the cursor is dead. -/
lemma addByte_last (hc : c.length = 1) (hmemory : c.opt + 1 < memory.length) :
    ∃ r, f.addByte memory n c = .ok r ∧ Dead r := by
  obtain ⟨byte, hload⟩ := exists_loadAt_eq_ok hmemory
  refine ⟨some (f.wrap (n + byte.toNat), c.skip 1), ?_, ?_⟩
  · rw [Field.addByte, advance_eq_some hc.ge]
    simp only [Cursor.skip, hload, ok_bind]
  · rintro _ _ ⟨⟩
    show c.length - 1 = 0
    omega

/-- Behind the memory the byte is read all the same. -/
lemma addByte_end (hc : 1 ≤ c.length) (hmemory : memory.length ≤ c.opt + 1) :
    f.addByte memory n c = .error .outOfBounds := by
  rw [Field.addByte, advance_eq_some hc]
  simp only [Cursor.skip, loadAt_eq_error hmemory]
  rfl

lemma dead_none : Dead none := by
  rintro _ _ ⟨⟩

/-- The buffer ends where the rest of the field would be read. -/
def Field.Overrun (f : Field) (memory : List Byte) (n : ℕ) (c : Cursor) : Prop :=
  c.opt + c.length = memory.length ∧ f.Cut n (c.behind memory)

/-- Where a field is not all there, nothing is left after it. -/
lemma parse_of_readField_eq_none (hc : 1 ≤ c.length) (hn : n < 16)
    (hmemory : c.opt + c.length ≤ memory.length) (hread : readField n (c.behind memory) = none)
    (hover : ¬ f.Overrun memory n c) : ∃ r, f.parse memory n c = .ok r ∧ Dead r := by
  have hlength := length_behind hmemory
  have hin : f.Cut n (c.behind memory) → c.opt + c.length < memory.length := fun hcut =>
    lt_of_le_of_ne hmemory fun heq => hover ⟨heq, hcut⟩
  rcases (readField_eq_none_iff hn).mp hread with rfl | ⟨rfl, hnil⟩ | ⟨rfl, hshort⟩
  · exact ⟨none, rfl, dead_none⟩
  -- the one byte is missing
  · rw [hnil] at hlength hin
    have hlt := hin trivial
    rw [List.length_nil] at hlength
    exact addByte_last (by omega) (by omega)
  · match hbehind : c.behind memory with
    -- both bytes are missing
    | [] =>
      rw [hbehind] at hlength hin
      have hlt := hin trivial
      rw [List.length_nil] at hlength
      obtain ⟨byte, hload⟩ := exists_loadAt_eq_ok (show c.opt + 1 < memory.length by omega)
      refine ⟨none, ?_, dead_none⟩
      rw [parse_fourteen hc, hload, ok_bind, addByte_dead (show c.length - 1 = 0 by omega),
        ite_self]
    -- the low one is
    | [hi] =>
      rw [hbehind] at hlength hin
      rw [List.length_singleton] at hlength
      obtain ⟨hload, -⟩ := loadAt_of_drop_take hbehind
      rw [parse_fourteen hc, hload, ok_bind]
      split_ifs with hlarge
      · exact ⟨none, rfl, dead_none⟩
      · have hlt := hin (eq_false_of_ne_true hlarge)
        exact addByte_last (show c.length - 1 = 1 by omega) (show c.opt + 1 + 1 < _ by omega)
    | hi :: lo :: rest =>
      rw [hbehind, List.length_cons, List.length_cons] at hshort
      omega

/-- Where the buffer ends in a field, the byte behind the buffer is read. -/
lemma parse_of_overrun (hc : 1 ≤ c.length) (hover : f.Overrun memory n c) :
    f.parse memory n c = .error .outOfBounds := by
  obtain ⟨hmemory, hcut⟩ := hover
  have hlength := length_behind hmemory.le
  unfold Field.Cut at hcut
  split at hcut
  · next hnil =>
    rw [hnil, List.length_nil] at hlength
    exact addByte_end hc (by omega)
  · next hnil =>
    rw [hnil, List.length_nil] at hlength
    rw [parse_fourteen hc, loadAt_eq_error (by omega)]
    rfl
  · next hi hone =>
    rw [hone, List.length_singleton] at hlength
    obtain ⟨hload, -⟩ := loadAt_of_drop_take hone
    rw [parse_fourteen hc, hload, ok_bind, if_neg (by rw [hcut]; exact Bool.false_ne_true)]
    exact addByte_end (show 1 ≤ c.length - 1 by omega) (show _ ≤ c.opt + 1 + 1 by omega)
  · exact hcut.elim

/-- A dead cursor stays dead. -/
lemma parse_dead (memory : List Byte) (hc : c.length = 0) (hn : n < 16) :
    ∃ r, f.parse memory n c = .ok r ∧ Dead r := by
  unfold Field.parse
  split
  · exact ⟨none, rfl, dead_none⟩
  · rw [advance_eq_none hc]
    exact ⟨none, rfl, dead_none⟩
  · exact ⟨none, addByte_dead hc, dead_none⟩
  · refine ⟨_, rfl, ?_⟩
    rintro _ _ ⟨⟩
    exact hc

/-- A dead cursor refuses the option. -/
lemma parseLength_of_dead {r : Option (ℕ × Cursor)} {start : ℕ}
    (hparse : Field.length.parse memory n c = .ok r) (hdead : Dead r) :
    parseLength memory start n delta c = .ok none := by
  rw [parseLength, hparse, ok_bind]
  cases r with
  | none => rfl
  | some r => simp only [advance_eq_none (hdead r.1 r.2 rfl)]

/-- A length that is cut off at the end of the memory is read behind it. -/
lemma parseLength_of_overrun {start : ℕ} (hc : 1 ≤ c.length)
    (hover : Field.length.Overrun memory n c) :
    parseLength memory start n delta c = .error .outOfBounds := by
  rw [parseLength, parse_of_overrun hc hover]
  rfl

/-- A length that is there is compared with the bytes that are left. -/
lemma parseLength_of_readField {start length : ℕ} (hc : 1 ≤ c.length)
    (hmemory : c.opt + c.length ≤ memory.length)
    (hread : readField n (c.behind memory) = some (length, rest)) :
    parseLength memory start n delta c =
      .ok (if rest.length < length then none
        else some (c.opt + c.length - rest.length + length - start,
          ⟨delta, length, c.opt + c.length - rest.length⟩)) := by
  have hbehind := length_behind hmemory
  rw [(readField_eq_some_iff.mp hread).2.2, List.length_append] at hbehind
  obtain ⟨hparse, -⟩ := parse_of_readField (f := Field.length) hc hread
  rw [kept_length, Option.map_some] at hparse
  rw [parseLength, hparse, ok_bind]
  have hnext : (c.skip (extension length).length).advance =
      some ⟨c.opt + c.length - rest.length, rest.length⟩ := by
    rw [advance_eq_some (show 1 ≤ c.length - (extension length).length by omega), skip_skip,
      Cursor.skip, Option.some.injEq, Cursor.mk.injEq]
    omega
  simp only [hnext]
  split_ifs <;> rfl

/-- The header of the option in front is cut off. -/
def CutOff : List Byte → Prop
  | [] => False
  | first :: rest =>
    Field.delta.Cut (first.toNat / 16) rest ∨
      ∃ delta rest', readField (first.toNat / 16) rest = some (delta, rest') ∧ delta < 65549 ∧
        Field.length.Cut (first.toNat % 16) rest'

/-- The buffer ends in the header of the option at `opt`. -/
def Overrun (memory : List Byte) (opt length : ℕ) : Prop :=
  opt + length = memory.length ∧ CutOff ((memory.drop opt).take length)

section Whole

variable {first : Byte} {rest' : List Byte}

/-- The first byte announces both fields. -/
lemma coapOptParse_cons (hbytes : (memory.drop opt).take length = first :: rest) :
    coapOptParse memory opt length =
      (Field.delta.parse memory (first.toNat / 16) ⟨opt, length⟩ >>= fun r =>
        match r with
        | none => .ok none
        | some (delta, c) => parseLength memory opt (first.toNat % 16) delta c) ∧
      1 ≤ length ∧ Cursor.behind ⟨opt, length⟩ memory = rest := by
  obtain ⟨hload, hbehind⟩ := loadAt_of_drop_take hbytes
  have hlength : 1 ≤ length := by
    cases length with
    | zero => cases hbytes
    | succ length => omega
  refine ⟨?_, hlength, hbehind⟩
  rw [coapOptParse, if_neg (by omega), hload, ok_bind]

/-- The distance is not all there. -/
lemma coapOptParse_of_delta_none (hmemory : opt + length ≤ memory.length)
    (hbytes : (memory.drop opt).take length = first :: rest)
    (hdelta : readField (first.toNat / 16) rest = none) :
    (¬ Overrun memory opt length → coapOptParse memory opt length = .ok none) ∧
      (Overrun memory opt length → coapOptParse memory opt length = .error .outOfBounds) := by
  obtain ⟨hrun, hlength, hbehind⟩ := coapOptParse_cons hbytes
  have hfirst : first.toNat < 256 := first.isLt
  have hover : Overrun memory opt length ↔
      Field.delta.Overrun memory (first.toNat / 16) ⟨opt, length⟩ := by
    rw [Overrun, Field.Overrun, hbytes, hbehind]
    simp only [CutOff, hdelta, reduceCtorEq, false_and, exists_false, or_false]
  rw [hover, hrun]
  constructor
  -- the distance kills the cursor, and the length leaves it dead
  · intro h
    obtain ⟨r, hparse, hdead⟩ :=
      parse_of_readField_eq_none hlength (by omega) hmemory (hbehind.symm ▸ hdelta) h
    rw [hparse, ok_bind]
    cases r with
    | none => rfl
    | some r =>
      obtain ⟨r', hparse', hdead'⟩ := parse_dead (f := Field.length) memory
        (n := first.toNat % 16) (hdead r.1 r.2 rfl) (by omega)
      exact parseLength_of_dead hparse' hdead'
  · intro h
    rw [parse_of_overrun hlength h]
    rfl

/-- The distance is there: what is left to do starts behind it. -/
lemma coapOptParse_of_delta (hmemory : opt + length ≤ memory.length)
    (hbytes : (memory.drop opt).take length = first :: rest)
    (hdelta : readField (first.toNat / 16) rest = some (delta, rest')) :
    (65549 ≤ delta → coapOptParse memory opt length = .ok none) ∧
      (delta < 65549 → ∃ c : Cursor, 1 ≤ c.length ∧ c.opt + c.length = opt + length ∧
        c.behind memory = rest' ∧ coapOptParse memory opt length =
          parseLength memory opt (first.toNat % 16) (delta % 65536) c) := by
  obtain ⟨hrun, hlength, hbehind⟩ := coapOptParse_cons hbytes
  obtain ⟨hle, -, hrest⟩ := readField_eq_some_iff.mp hdelta
  obtain ⟨hparse, hnext⟩ :=
    parse_of_readField (f := Field.delta) hlength (hbehind.symm ▸ hdelta)
  have hlengths := length_behind (c := ⟨opt, length⟩) hmemory
  rw [hbehind, hrest, List.length_append] at hlengths
  rw [kept_delta hle] at hparse
  rw [hrun, hparse]
  constructor
  -- a distance of 65549 or more is refused
  · intro hlarge
    rw [if_neg (by omega)]
    rfl
  · intro hsmall
    refine ⟨Cursor.skip ⟨opt, length⟩ (extension delta).length, ?_, ?_, hnext, ?_⟩
    · show 1 ≤ length - _
      dsimp only at hlengths
      omega
    · show opt + _ + (length - _) = _
      dsimp only at hlengths
      omega
    · rw [if_pos hsmall]
      rfl

/-- A field that is there is not cut off. -/
lemma not_cut_of_readField {r : ℕ × List Byte} (hread : readField n rest = some r) :
    ¬ f.Cut n rest := by
  intro hcut
  unfold Field.Cut at hcut
  split at hcut <;> simp_all [readField]

/-- Nor is an option. -/
lemma not_cutOff_of_readOne {bytes : List Byte} {r : ℕ × List Byte × List Byte}
    (hread : readOne bytes = some r) : ¬ CutOff bytes := by
  cases bytes with
  | nil => exact id
  | cons b tail =>
    obtain ⟨tail', hdelta, length, tail'', hlength, -⟩ := readOne_cons_eq_some_iff.mp hread
    rintro (hcut | ⟨delta, rest', hdelta', -, hcut⟩)
    · exact not_cut_of_readField hdelta hcut
    · rw [hdelta, Option.some.injEq, Prod.mk.injEq] at hdelta'
      obtain ⟨-, rfl⟩ := hdelta'
      exact not_cut_of_readField hlength hcut

/-- Behind the distance only the length can be cut off. -/
lemma overrun_iff_of_delta (hbytes : (memory.drop opt).take length = first :: rest)
    (hdelta : readField (first.toNat / 16) rest = some (delta, rest')) :
    Overrun memory opt length ↔
      opt + length = memory.length ∧ delta < 65549 ∧ Field.length.Cut (first.toNat % 16) rest' := by
  have hnot : ¬ Field.delta.Cut (first.toNat / 16) rest := not_cut_of_readField hdelta
  rw [Overrun, hbytes]
  simp only [CutOff, hnot, false_or, hdelta, Option.some.injEq, Prod.mk.injEq]
  grind

/-- The places of the value, counted from the front and from the end. -/
lemma value_place {rest : ℕ} (hle : n ≤ rest) (hrest : rest ≤ length) :
    opt + length - rest + n - opt = length - (rest - n) ∧
      opt + length - rest = opt + length - (rest - n) - n := by omega

/-- What `coap_opt_parse` comes to. -/
lemma coapOptParse_cases (hmemory : opt + length ≤ memory.length) :
    (Overrun memory opt length → coapOptParse memory opt length = .error .outOfBounds) ∧
      (¬ Overrun memory opt length → coapOptParse memory opt length =
        .ok (match readOne ((memory.drop opt).take length) with
          | none => none
          | some (delta, value, rest) =>
            if delta < 65549 then
              some (length - rest.length,
                ⟨delta % 65536, value.length, opt + length - rest.length - value.length⟩)
            else none)) := by
  cases hbytes : (memory.drop opt).take length with
  | nil =>
    have hlength := congrArg List.length hbytes
    rw [List.length_take, List.length_drop, List.length_nil] at hlength
    refine ⟨fun hover => ?_, fun _ => ?_⟩
    · rw [Overrun, hbytes] at hover
      exact hover.2.elim
    · rw [coapOptParse, if_pos (by omega)]
      rfl
  | cons first rest =>
    have hregion := congrArg List.length hbytes
    rw [List.length_take, List.length_drop, List.length_cons] at hregion
    have hshorter : rest.length ≤ length := by omega
    cases hdelta : readField (first.toNat / 16) rest with
    | none =>
      obtain ⟨hnone, herror⟩ := coapOptParse_of_delta_none hmemory hbytes hdelta
      refine ⟨herror, fun hover => ?_⟩
      rw [hnone hover, readOne, hdelta]
      rfl
    | some r =>
      obtain ⟨delta, rest'⟩ := r
      obtain ⟨hlarge, hsmall⟩ := coapOptParse_of_delta hmemory hbytes hdelta
      have hover := overrun_iff_of_delta hbytes hdelta
      -- whether the distance is taken
      rcases Nat.lt_or_ge delta 65549 with hlt | hge
      · obtain ⟨c, hc, hend, hbehind, hrun⟩ := hsmall hlt
        have hfirst : first.toNat < 256 := first.isLt
        cases hvalue : readField (first.toNat % 16) rest' with
        | none =>
          -- the length is cut off
          have hover' : Overrun memory opt length ↔
              Field.length.Overrun memory (first.toNat % 16) c := by
            rw [hover, Field.Overrun, hend, hbehind]
            simp only [hlt, true_and]
          rw [hover', hrun]
          refine ⟨parseLength_of_overrun hc, fun hnot => ?_⟩
          obtain ⟨r, hparse, hdead⟩ := parse_of_readField_eq_none hc (by omega)
            (hend ▸ hmemory) (hbehind.symm ▸ hvalue) hnot
          rw [parseLength_of_dead hparse hdead]
          simp only [readOne, hdelta, hvalue, Option.bind_eq_bind, Option.bind_some,
            Option.bind_none]
        | some r =>
          obtain ⟨valueLength, rest''⟩ := r
          have hnot : ¬ Overrun memory opt length := fun h =>
            not_cut_of_readField hvalue (hover.mp h).2.2
          refine ⟨fun h => absurd h hnot, fun _ => ?_⟩
          -- both fields are there
          rw [hrun, parseLength_of_readField hc (hend ▸ hmemory) (hbehind.symm ▸ hvalue), hend]
          simp only [readOne, hdelta, hvalue, Option.bind_eq_bind, Option.bind_some]
          have hle := congrArg List.length (readField_eq_some_iff.mp hvalue).2.2
          have hle' := congrArg List.length (readField_eq_some_iff.mp hdelta).2.2
          rw [List.length_append] at hle hle'
          have hfit : rest''.length ≤ length :=
            calc rest''.length ≤ rest'.length := hle ▸ Nat.le_add_left _ _
              _ ≤ rest.length := hle' ▸ Nat.le_add_left _ _
              _ ≤ length := hshorter
          -- whether the value is there
          rcases Nat.lt_or_ge rest''.length valueLength with hshort | hlong
          · rw [if_pos hshort, if_neg (by omega)]
          · rw [if_neg (by omega), if_pos hlong]
            simp only [if_pos hlt, List.length_drop, List.length_take_of_le hlong, Except.ok.injEq,
              Option.some.injEq, Prod.mk.injEq, CoapOption.mk.injEq, true_and]
            exact value_place hlong hfit
      · refine ⟨fun h => absurd (hover.mp h).2.1 (by omega), fun _ => ?_⟩
        rw [hlarge hge]
        cases hvalue : readField (first.toNat % 16) rest' with
        | none => simp only [readOne, hdelta, hvalue, Option.bind_eq_bind, Option.bind_some,
            Option.bind_none]
        | some r =>
          simp only [readOne, hdelta, hvalue, Option.bind_eq_bind, Option.bind_some]
          split_ifs with h₁
          · exact congrArg Except.ok (if_neg (by omega)).symm
          · rfl

/-- **What `coap_opt_parse` takes for an option.** It is an option with a distance below 65549, and
the distance is kept in 16 bits. -/
theorem coapOptParse_eq_ok_some_iff {o : CoapOption} (hmemory : opt + length ≤ memory.length) :
    coapOptParse memory opt length = .ok (some (size, o)) ↔
      ∃ delta value rest, (memory.drop opt).take length = encodeOne delta value ++ rest ∧
        delta < 65549 ∧ value.length ≤ maxField ∧ size = (encodeOne delta value).length ∧
        o = ⟨delta % 65536, value.length, opt + size - value.length⟩ := by
  obtain ⟨herror, hok⟩ := coapOptParse_cases hmemory
  have hregion : ((memory.drop opt).take length).length = length := by
    rw [List.length_take, List.length_drop]
    omega
  constructor
  · intro h
    -- an option that is parsed was not read behind the memory
    have hnot : ¬ Overrun memory opt length := by
      intro hover
      rw [herror hover] at h
      cases h
    rw [hok hnot] at h
    cases hread : readOne ((memory.drop opt).take length) with
    | none =>
      rw [hread] at h
      cases h
    | some r =>
      obtain ⟨delta, value, rest⟩ := r
      rw [hread] at h
      obtain ⟨-, hvalue, hbytes⟩ := readOne_eq_some_iff.mp hread
      dsimp only at h
      split_ifs at h with hsmall
      · obtain ⟨hsize, ho⟩ := Prod.mk.inj (Option.some.inj (Except.ok.inj h))
        rw [hbytes, List.length_append] at hregion
        refine ⟨delta, value, rest, hbytes, hsmall, hvalue, by omega, ?_⟩
        rw [← ho, CoapOption.mk.injEq]
        omega
      · cases h
  · rintro ⟨delta, value, rest, hbytes, hsmall, hvalue, rfl, rfl⟩
    have hread : readOne ((memory.drop opt).take length) = some (delta, value, rest) :=
      readOne_eq_some_iff.mpr ⟨by unfold maxField; omega, hvalue, hbytes⟩
    have hnot : ¬ Overrun memory opt length := by
      rintro ⟨-, hcut⟩
      rw [hbytes] at hcut
      exact not_cutOff_of_readOne (hbytes ▸ hread) hcut
    rw [hok hnot, hread]
    rw [hbytes, List.length_append] at hregion
    simp only [if_pos hsmall, Except.ok.injEq, Option.some.injEq, Prod.mk.injEq,
      CoapOption.mk.injEq, true_and]
    omega

/-- **Where `coap_opt_parse` reads on.** It reads the byte behind the buffer exactly where the
buffer ends in the header of an option. -/
theorem succeeds_coapOptParse_iff (hmemory : opt + length ≤ memory.length) :
    Succeeds (coapOptParse memory opt length) ↔ ¬ Overrun memory opt length := by
  obtain ⟨herror, hok⟩ := coapOptParse_cases hmemory
  constructor
  · intro h hover
    rw [herror hover] at h
    exact not_succeeds_error _ h
  · intro hnot
    exact ⟨_, hok hnot⟩

end Whole

end Parse

end Vng.Libcoap
