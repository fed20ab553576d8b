import Vng.Lib.LfsrPolynomial
import Vng.Utils.Crc16

/-!
# What `CRC16::calculate` computes

* `calculate_remainder`: the bit-serial remainder, and the remainder of a division of polynomials;
* `calculate_ne_of_burst`: messages that differ within 16 consecutive bits have different CRCs.
-/

namespace Vng
namespace CRC16

open Polynomial

/-! ## The remainder -/

/-- The generator polynomial, leading term included. -/
lemma divisor_generator :
    Lfsr.divisor generator = (X ^ 16 + X ^ 15 + X ^ 2 + 1 : (ZMod 2)[X]) := by
  have hbit : ∀ i < 16, Lfsr.ofBit (generator.getLsbD i) =
      (if i = 15 then 1 else 0) + (if i = 2 then 1 else 0) + (if i = 0 then 1 else 0) := by
    decide
  have hpoly : Lfsr.toPoly generator = X ^ 15 + X ^ 2 + 1 := by
    ext i
    rw [Lfsr.coeff_toPoly, coeff_add, coeff_add, coeff_X_pow, coeff_X_pow, coeff_one]
    by_cases hi : i < 16
    · exact hbit i hi
    · rw [BitVec.getLsbD_of_ge generator i (by omega), if_neg (by omega), if_neg (by omega),
        if_neg (by omega)]
      rfl
  rw [Lfsr.divisor, hpoly, ← add_assoc, ← add_assoc]

/-- **The table CRC is division by `x^16 + x^15 + x^2 + 1`**, most significant bit first, from a
register of zeros. -/
theorem calculate_remainder (payload : List Byte) :
    calculate payload = Lfsr.feed generator 0#16 (messageBits payload) ∧
      Lfsr.toPoly (calculate payload) =
        (Lfsr.ofBits (messageBits payload) * X ^ 16) %ₘ (X ^ 16 + X ^ 15 + X ^ 2 + 1) := by
  refine ⟨calculate_eq_feed payload, ?_⟩
  rw [calculate_eq_feed, Lfsr.toPoly_feed_zero, divisor_generator]

/-! ## Bursts -/

/-- **Burst errors show**: messages of one length that differ, and differ only within 16
consecutive bits, have different CRCs. -/
theorem calculate_ne_of_burst {payload other : List Byte} {i : ℕ}
    (hlen : payload.length = other.length) (hne : payload ≠ other)
    (hwin : ∀ k, (messageBits payload)[k]? ≠ (messageBits other)[k]? →
      i ≤ k ∧ k < i + 16) :
    calculate payload ≠ calculate other := by
  intro heq
  have hbits : (messageBits payload).length = (messageBits other).length := by
    rw [length_messageBits, length_messageBits, hlen]
  -- the flipped bits alone would have the CRC zero
  have hzero : calculate (List.zipWith (· ^^^ ·) payload other) = 0 := by
    rw [calculate_xor hlen, heq, BitVec.xor_self]
    rfl
  have hdiff := messageBits_xor hlen
  refine calculate_burst_ne_zero (i := i) ?_ ?_ hzero
  · rw [hdiff]
    exact Lfsr.withinWindow_zipWith_xor hwin
  · rw [hdiff]
    exact Lfsr.true_mem_zipWith_xor hbits fun h => hne (messageBits_injective h)

theorem calculate_ne_of_burst_last :
    calculate [0x31, 0x32, 0x33] ≠ calculate [0x31, 0xCD, 0xCC] :=
  calculate_ne_of_burst (i := 8) (by decide) (by decide) (by
    have hlt : ∀ k, 24 ≤ k → (messageBits [0x31, 0x32, 0x33])[k]? =
        (messageBits [0x31, 0xCD, 0xCC])[k]? := by
      intro k hk
      rw [List.getElem?_eq_none (by rw [length_messageBits]; exact hk),
        List.getElem?_eq_none (by rw [length_messageBits]; exact hk)]
    have hsmall : ∀ k < 24, (messageBits [0x31, 0x32, 0x33])[k]? ≠
        (messageBits [0x31, 0xCD, 0xCC])[k]? → 8 ≤ k ∧ k < 8 + 16 := by decide
    intro k hk
    by_cases h : k < 24
    · exact hsmall k h hk
    · exact absurd (hlt k (by omega)) hk)

end CRC16
end Vng
