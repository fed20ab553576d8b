import Mathlib.Data.List.Basic
import Mathlib.Tactic.Common

/-!
# Bytes in hexadecimal

Bytes written as groups of two hexadecimal digits with a separator between them, and the grammar
that reads them. `Groups` is over any reading of the digits, so that a reader which knows only
some of them has the same grammar.
-/

namespace HexText

/-- ASCII. -/
abbrev Character := BitVec 8

/-- The digit of a number below 16, in upper case. -/
def digit (n : ℕ) : Character :=
  if n < 10 then BitVec.ofNat 8 (0x30 + n) else BitVec.ofNat 8 (0x37 + n)

/-- What a digit of either case stands for. -/
def value (c : Character) : Option (BitVec 8) :=
  if 0x30 ≤ c.toNat ∧ c.toNat ≤ 0x39 then some (c - 0x30)
  else if 0x41 ≤ c.toNat ∧ c.toNat ≤ 0x46 then some (c - 0x41 + 10)
  else if 0x61 ≤ c.toNat ∧ c.toNat ≤ 0x66 then some (c - 0x61 + 10)
  else none

/-- A digit in upper case. -/
def upper (c : Character) : Character := if 0x61 ≤ c.toNat ∧ c.toNat ≤ 0x66 then c - 0x20 else c

/-- The byte of two digits. -/
def byte (x y : BitVec 8) : BitVec 8 := (x <<< 4) + y

/-- The text of some bytes: two digits for each, and a separator between two bytes. -/
inductive Groups (value : Character → Option (BitVec 8)) (separator : Character) :
    List Character → List (BitVec 8) → Prop
  | single {c d : Character} {x y : BitVec 8} (hx : value c = some x) (hy : value d = some y) :
    Groups value separator [c, d] [byte x y]
  | cons {c d : Character} {x y : BitVec 8} {string : List Character} {bytes : List (BitVec 8)}
      (hx : value c = some x) (hy : value d = some y)
      (hrest : Groups value separator string bytes) :
    Groups value separator (c :: d :: separator :: string) (byte x y :: bytes)

/-- `%02X`. -/
def text (b : BitVec 8) : List Character := [digit (b.toNat / 16), digit (b.toNat % 16)]

def print (separator : Character) : List (BitVec 8) → List Character
  | [] => []
  | [b] => text b
  | b :: bytes => text b ++ separator :: print separator bytes

variable {read : Character → Option (BitVec 8)} {separator : Character} {string : List Character}
  {bytes : List (BitVec 8)}

/-! ## Digits -/

lemma value_digit {n : ℕ} (h : n < 16) : value (digit n) = some (BitVec.ofNat 8 n) := by
  have hcases : ∀ k : Fin 16, value (digit k) = some (BitVec.ofNat 8 k) := by decide
  exact hcases ⟨n, h⟩

/-- The digits of a byte give the byte. -/
lemma byte_halves (b : BitVec 8) :
    byte (BitVec.ofNat 8 (b.toNat / 16)) (BitVec.ofNat 8 (b.toNat % 16)) = b := by
  have hlt := b.isLt
  simp only [byte, ← BitVec.toNat_inj, BitVec.toNat_add, BitVec.toNat_shiftLeft,
    Nat.shiftLeft_eq, BitVec.toNat_ofNat]
  omega

lemma value_upper (c : Character) : value (upper c) = value c := by
  have hcases : ∀ c : Character, value (upper c) = value c := by decide
  exact hcases c

lemma upper_digit {n : ℕ} (h : n < 16) : upper (digit n) = digit n := by
  have hcases : ∀ k : Fin 16, upper (digit k) = digit k := by decide
  exact hcases ⟨n, h⟩

/-! ## Groups -/

lemma Groups.length (h : Groups read separator string bytes) :
    string.length + 1 = 3 * bytes.length := by
  induction h with
  | single => rfl
  | cons _ _ _ ih =>
    simp only [List.length_cons]
    omega

/-- A text is of one list of bytes. -/
lemma Groups.unique (h : Groups read separator string bytes) {bytes' : List (BitVec 8)}
    (h' : Groups read separator string bytes') : bytes = bytes' := by
  induction h generalizing bytes' with
  | single hx hy =>
    cases h' with
    | single hx' hy' =>
      rw [hx] at hx'
      rw [hy] at hy'
      rw [Option.some.inj hx', Option.some.inj hy']
  | cons hx hy hrest ih =>
    cases h' with
    | cons hx' hy' hrest' =>
      rw [hx] at hx'
      rw [hy] at hy'
      rw [Option.some.inj hx', Option.some.inj hy', ih hrest']

section
variable {c d s : Character} {x y : BitVec 8}

lemma not_groups (h : read c = none ∨ read d = none) :
    ¬ Groups read separator (c :: d :: string) bytes := by
  intro hgroups
  cases hgroups with
  | single hx hy | cons hx hy => simp [hx, hy] at h

/-- The text of one byte. -/
lemma groups_pair_iff (hx : read c = some x) (hy : read d = some y) :
    Groups read separator [c, d] bytes ↔ bytes = [byte x y] := by
  constructor
  · exact fun h => h.unique (.single hx hy)
  · rintro rfl
    exact .single hx hy

/-- The text of a byte and more. -/
lemma groups_cons_iff (hx : read c = some x) (hy : read d = some y) :
    Groups read separator (c :: d :: s :: string) bytes ↔
      s = separator ∧ ∃ rest, Groups read separator string rest ∧ bytes = byte x y :: rest := by
  constructor
  · intro h
    cases h with
    | cons hx' hy' hrest =>
      rw [hx] at hx'
      rw [hy] at hy'
      obtain rfl := Option.some.inj hx'
      obtain rfl := Option.some.inj hy'
      exact ⟨rfl, _, hrest, rfl⟩
  · rintro ⟨rfl, rest, hrest, rfl⟩
    exact .cons hx hy hrest

end

/-- What is printed is read back. -/
lemma groups_print (separator : Character) (h : bytes ≠ []) :
    Groups value separator (print separator bytes) bytes := by
  induction bytes with
  | nil => exact absurd rfl h
  | cons b bytes ih =>
    have hlt := b.isLt
    have hx := value_digit (n := b.toNat / 16) (by omega)
    have hy := value_digit (n := b.toNat % 16) (by omega)
    cases bytes with
    | nil =>
      have hsingle : Groups value separator _ _ := .single hx hy
      rwa [byte_halves] at hsingle
    | cons b' bytes =>
      have hcons : Groups value separator _ _ := .cons hx hy (ih (List.cons_ne_nil _ _))
      rwa [byte_halves] at hcons

lemma map_upper_text (b : BitVec 8) : (text b).map upper = text b := by
  have hlt := b.isLt
  simp [text, upper_digit (show b.toNat / 16 < 16 by omega),
    upper_digit (show b.toNat % 16 < 16 by omega)]

/-- What is printed is in upper case. -/
lemma map_upper_print (hseparator : upper separator = separator) (bytes : List (BitVec 8)) :
    (print separator bytes).map upper = print separator bytes := by
  induction bytes with
  | nil => rfl
  | cons b bytes ih =>
    cases bytes with
    | nil => exact map_upper_text b
    | cons b' bytes =>
      rw [print, List.map_append, List.map_cons, map_upper_text, hseparator, ih]
      simp

/-- The case of the digits does not matter. -/
lemma groups_map_upper (hseparator : ∀ c, upper c = separator ↔ c = separator) :
    Groups value separator (string.map upper) bytes ↔ Groups value separator string bytes := by
  constructor
  · intro h
    generalize hstring : string.map upper = string' at h
    induction h generalizing string with
    | single hx hy =>
      obtain ⟨c, string₁, rfl, rfl, h₁⟩ := List.map_eq_cons_iff.mp hstring
      obtain ⟨d, string₂, rfl, rfl, h₂⟩ := List.map_eq_cons_iff.mp h₁
      rw [value_upper] at hx hy
      rw [List.map_eq_nil_iff.mp h₂]
      exact .single hx hy
    | cons hx hy hrest ih =>
      obtain ⟨c, string₁, rfl, rfl, h₁⟩ := List.map_eq_cons_iff.mp hstring
      obtain ⟨d, string₂, rfl, rfl, h₂⟩ := List.map_eq_cons_iff.mp h₁
      obtain ⟨s, string₃, rfl, hs, h₃⟩ := List.map_eq_cons_iff.mp h₂
      rw [value_upper] at hx hy
      rw [(hseparator s).mp hs]
      exact .cons hx hy (ih h₃)
  · intro h
    induction h with
    | single hx hy =>
      rw [← value_upper] at hx hy
      exact .single hx hy
    | cons hx hy hrest ih =>
      rw [← value_upper] at hx hy
      rw [List.map_cons, List.map_cons, List.map_cons, (hseparator separator).mpr rfl]
      exact .cons hx hy ih

/-- A reading that does not know some of the digits loses the texts with one of them. -/
lemma groups_without {lost : Character → Prop} [DecidablePred lost]
    (hread : ∀ c, read c = if lost c then none else value c) (hseparator : ¬ lost separator) :
    Groups read separator string bytes ↔
      Groups value separator string bytes ∧ ∀ c ∈ string, ¬ lost c := by
  have hknown : ∀ {c x}, read c = some x ↔ value c = some x ∧ ¬ lost c := fun {c x} => by
    rw [hread]
    split_ifs with h <;> simp [h]
  constructor
  · intro h
    induction h with
    | single hx hy =>
      obtain ⟨hx, hc⟩ := hknown.mp hx
      obtain ⟨hy, hd⟩ := hknown.mp hy
      exact ⟨.single hx hy, by simp [hc, hd]⟩
    | cons hx hy hrest ih =>
      obtain ⟨hx, hc⟩ := hknown.mp hx
      obtain ⟨hy, hd⟩ := hknown.mp hy
      exact ⟨.cons hx hy ih.1, by simpa [hc, hd, hseparator] using ih.2⟩
  · rintro ⟨h, hall⟩
    induction h with
    | single hx hy =>
      simp only [List.mem_cons, forall_eq_or_imp, List.not_mem_nil, false_imp_iff,
        implies_true, and_true] at hall
      exact .single (hknown.mpr ⟨hx, hall.1⟩) (hknown.mpr ⟨hy, hall.2⟩)
    | cons hx hy hrest ih =>
      simp only [List.mem_cons, forall_eq_or_imp] at hall
      exact .cons (hknown.mpr ⟨hx, hall.1⟩) (hknown.mpr ⟨hy, hall.2.1⟩) (ih hall.2.2.2)

end HexText
