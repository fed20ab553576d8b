import Mathlib.Data.Nat.Digits.Lemmas

/-!
# Decimal numerals

Numbers written in decimal digits, as ASCII bytes, and the number that a string of digits denotes.
-/

namespace Decimal

def isDigit (b : BitVec 8) : Bool := 0x30 ≤ b.toNat && b.toNat ≤ 0x39

/-- The number that digits denote, the highest one first. -/
def ofDigits (digits : List (BitVec 8)) : ℕ :=
  digits.foldl (fun n d => 10 * n + (d.toNat - 0x30)) 0

/-- A natural number without leading zeros. -/
def natural (n : ℕ) : List (BitVec 8) :=
  if n = 0 then [0x30] else (Nat.digits 10 n).reverse.map fun d => BitVec.ofNat 8 (0x30 + d)

/-- An integer, with a minus sign if it is negative. -/
def integer (n : ℤ) : List (BitVec 8) :=
  if n < 0 then 0x2D :: natural n.natAbs else natural n.natAbs

variable {n : ℕ}

lemma toNat_digit {d : ℕ} (h : d < 10) : (BitVec.ofNat 8 (0x30 + d)).toNat = 0x30 + d := by
  rw [BitVec.toNat_ofNat]
  omega

lemma isDigit_of_mem_natural {b : BitVec 8} (h : b ∈ natural n) : isDigit b = true := by
  unfold natural at h
  split_ifs at h
  · rw [List.mem_singleton.mp h]
    rfl
  · obtain ⟨d, hd, rfl⟩ := List.mem_map.mp h
    have hlt := Nat.digits_lt_base (by norm_num) (List.mem_reverse.mp hd)
    unfold isDigit
    rw [toNat_digit hlt, Bool.and_eq_true, decide_eq_true_iff, decide_eq_true_iff]
    omega

lemma natural_ne_nil : natural n ≠ [] := by
  unfold natural
  split_ifs with h
  · exact List.cons_ne_nil _ _
  · intro hnil
    rw [List.map_eq_nil_iff, List.reverse_eq_nil_iff] at hnil
    exact Nat.digits_ne_nil_iff_ne_zero.mpr h hnil

/-- Only zero is written with a zero in front. -/
lemma head_natural (h : n ≠ 0) : ∃ b rest, natural n = b :: rest ∧ b ≠ 0x30 := by
  have hne : Nat.digits 10 n ≠ [] := Nat.digits_ne_nil_iff_ne_zero.mpr h
  have hlast := Nat.getLast_digit_ne_zero 10 h
  have hlt := Nat.digits_lt_base (by norm_num) (List.getLast_mem hne)
  refine ⟨BitVec.ofNat 8 (0x30 + (Nat.digits 10 n).getLast hne),
    (Nat.digits 10 n).dropLast.reverse.map fun d => BitVec.ofNat 8 (0x30 + d), ?_, ?_⟩
  · unfold natural
    rw [if_neg h]
    conv_lhs => rw [← List.dropLast_append_getLast hne]
    rw [List.reverse_append, List.reverse_singleton, List.singleton_append, List.map_cons]
  · intro heq
    have htoNat := congrArg BitVec.toNat heq
    rw [toNat_digit hlt] at htoNat
    exact hlast (by simpa using htoNat)

lemma integer_natCast (n : ℕ) : integer n = natural n := by
  unfold integer
  rw [if_neg (by omega), Int.natAbs_natCast]

/-- Digits from the lowest one on. -/
lemma foldr_digit {digits : List ℕ} (h : ∀ d ∈ digits, d < 10) :
    digits.foldr (fun d n => 10 * n + ((BitVec.ofNat 8 (0x30 + d)).toNat - 0x30)) 0 =
      Nat.ofDigits 10 digits := by
  induction digits with
  | nil => rfl
  | cons d digits ih =>
    rw [List.foldr_cons, ih fun d' hd' => h d' (List.mem_cons_of_mem d hd'),
      toNat_digit (h d List.mem_cons_self), Nat.ofDigits_cons]
    omega

/-- Reading a numeral gives the number back. -/
lemma ofDigits_natural (n : ℕ) : ofDigits (natural n) = n := by
  unfold ofDigits natural
  split_ifs with h
  · rw [h]
    rfl
  · rw [List.foldl_map, List.foldl_reverse,
      foldr_digit fun d hd => Nat.digits_lt_base (by norm_num) hd, Nat.ofDigits_digits]

end Decimal
