import Mathlib.Algebra.Field.ZMod
import Mathlib.Algebra.Polynomial.Div
import Mathlib.Data.ZMod.Basic
import Mathlib.Tactic.LinearCombination
import Mathlib.Tactic.Ring
import Vng.Lib.Lfsr

/-!
# The CRC register as division of polynomials over GF(2)

The register of `Lfsr.feed` with `w` bits and generator `g` divides by the polynomial
`X ^ w + g`: after a message, a cleared register holds the remainder of the message times `X ^ w`.
This is the meaning of a cyclic redundancy check that mentions neither bits nor shifts.
-/

namespace Lfsr

open Polynomial

variable {w : ℕ}

/-- A bit as an element of GF(2). -/
def ofBit (b : Bool) : ZMod 2 := if b then 1 else 0

/-- The sum of bits is the sum in the field of two elements. -/
lemma ofBit_xor (b c : Bool) : ofBit (b ^^ c) = ofBit b + ofBit c := by
  cases b <;> cases c <;> decide

/-- Every element is its own negative. -/
lemma ofBit_add_self (b : Bool) : ofBit b + ofBit b = 0 := by
  cases b <;> decide

/-- The polynomial whose coefficients are the bits of a register. -/
noncomputable def toPoly (x : BitVec w) : (ZMod 2)[X] :=
  ∑ i ∈ Finset.range w, C (ofBit (x.getLsbD i)) * X ^ i

/-- The polynomial of a bit string, leading coefficient first. -/
noncomputable def ofBits : List Bool → (ZMod 2)[X]
  | [] => 0
  | b :: l => C (ofBit b) * X ^ l.length + ofBits l

/-- The monic polynomial that a register of `w` bits with feedback `g` divides by. -/
noncomputable def divisor (g : BitVec w) : (ZMod 2)[X] := X ^ w + toPoly g

/-- The coefficients are the bits, the lowest first. -/
@[simp] lemma coeff_toPoly (x : BitVec w) (i : ℕ) : (toPoly x).coeff i = ofBit (x.getLsbD i) := by
  rw [toPoly, finsetSum_coeff]
  simp only [coeff_C_mul, coeff_X_pow, mul_ite, mul_one, mul_zero, Finset.sum_ite_eq,
    Finset.mem_range]
  split
  · rfl
  · rw [BitVec.getLsbD_of_ge x i (by omega)]
    rfl

lemma toPoly_zero : toPoly 0#w = 0 := by
  ext i
  simp [ofBit]

/-- A register of `w` bits is a remainder. -/
lemma degree_toPoly_lt (x : BitVec w) : (toPoly x).degree < w := by
  rw [degree_lt_iff_coeff_zero]
  intro i hi
  rw [coeff_toPoly, BitVec.getLsbD_of_ge x i hi]
  rfl

lemma monic_divisor (g : BitVec w) : (divisor g).Monic := monic_X_pow_add (degree_toPoly_lt g)

lemma degree_divisor (g : BitVec w) : (divisor g).degree = w := by
  rw [divisor, degree_add_eq_left_of_degree_lt]
  · exact degree_X_pow w
  · rw [degree_X_pow]
    exact degree_toPoly_lt g

/-- A step, bit by bit. -/
lemma getLsbD_bitStep (g s : BitVec w) (b : Bool) (i : ℕ) :
    (bitStep g s b).getLsbD i =
      (((s <<< 1).getLsbD i) ^^ ((s.msb ^^ b) && g.getLsbD i)) := by
  unfold bitStep
  cases s.msb ^^ b <;> simp

/-- One shift multiplies by `X`, takes the message bit in at the top and, when the two leading
bits differ, adds the divisor. -/
lemma toPoly_bitStep (g s : BitVec w) (b : Bool) :
    toPoly (bitStep g s b) =
      toPoly s * X + C (ofBit b) * X ^ w + C (ofBit (s.msb ^^ b)) * divisor g := by
  have hand : ∀ c d : Bool, ofBit (c && d) = ofBit c * ofBit d := by decide
  -- coefficient by coefficient; only the one of `X ^ w` is not a bit of the register
  ext i
  rw [divisor, coeff_toPoly, coeff_add, coeff_add, coeff_C_mul, coeff_C_mul, coeff_add,
    coeff_toPoly, coeff_X_pow, getLsbD_bitStep, ofBit_xor, hand, BitVec.getLsbD_shiftLeft]
  by_cases htop : i = w
  · -- the leading bit of `s`, the message bit and their sum cancel
    have hlead : (toPoly s * X).coeff i = ofBit s.msb := by
      rw [htop]
      cases w with
      | zero => simp [ofBit, BitVec.msb_zero_length]
      | succ n =>
        rw [coeff_mul_X, coeff_toPoly, BitVec.msb_eq_getLsbD_last]
        rfl
    rw [hlead, if_pos htop, BitVec.getLsbD_of_ge g i (by omega), ofBit_xor]
    have h := ofBit_add_self s.msb
    have h' := ofBit_add_self b
    have hzero : ofBit false = 0 := rfl
    simp only [htop, lt_self_iff_false, decide_false, Bool.false_and, hzero]
    linear_combination - h - h'
  -- the bits of the register move up by one
  · have hlow : (toPoly s * X).coeff i =
        ofBit (decide (i < w) && !decide (i < 1) && s.getLsbD (i - 1)) := by
      cases i with
      | zero => simp [ofBit]
      | succ i =>
        rw [coeff_mul_X, coeff_toPoly]
        by_cases hlt : i + 1 < w
        · simp [hlt]
        · simp [hlt, BitVec.getLsbD_of_ge s i (by omega)]
    rw [hlow, if_neg htop]
    ring

/-- The register after a message differs from state and message, moved up, by a multiple of the
divisor. -/
lemma toPoly_feed (g s : BitVec w) (l : List Bool) :
    ∃ q, toPoly (feed g s l) + divisor g * q = toPoly s * X ^ l.length + ofBits l * X ^ w := by
  induction l generalizing s with
  | nil => exact ⟨0, by simp [ofBits]⟩
  | cons b l ih =>
    obtain ⟨q, hq⟩ := ih (bitStep g s b)
    rw [toPoly_bitStep] at hq
    refine ⟨q - C (ofBit (s.msb ^^ b)) * X ^ l.length, ?_⟩
    rw [feed_cons, ofBits, List.length_cons]
    linear_combination hq

/-- **The register divides**: what a message leaves in a cleared register is the remainder of the
message times `X ^ w`. -/
theorem toPoly_feed_zero (g : BitVec w) (l : List Bool) :
    toPoly (feed g 0#w l) = (ofBits l * X ^ w) %ₘ divisor g := by
  obtain ⟨q, hq⟩ := toPoly_feed g 0#w l
  rw [toPoly_zero, zero_mul, zero_add] at hq
  have hlt : (toPoly (feed g 0#w l)).degree < (divisor g).degree := by
    rw [degree_divisor]
    exact degree_toPoly_lt _
  exact (div_modByMonic_unique q _ (monic_divisor g) ⟨hq, hlt⟩).2.symm

end Lfsr
