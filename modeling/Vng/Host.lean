import Mathlib.Data.List.Basic
import Mathlib.Tactic.Common
import Vng.Lib.Memory

/-!
# Bytes and words of the target

The target is a 32-bit little-endian machine. `uint8_t` and `uint16_t` are bit vectors; sizes
and indices are natural numbers, since no object of the target reaches `2^31` bytes.
-/

namespace Vng

/-- `uint8_t`. -/
abbrev Byte := BitVec 8

/-- `uint16_t`. -/
abbrev Word := BitVec 16

/-- No `std::vector<uint8_t>` of the target has this many elements. -/
def maxSize : ℕ := 2 ^ 31

/-- `errno` behind a call that failed. -/
abbrev Errno := { errno : ℤ // 0 < errno }

/-- `std::vector::resize` of an empty vector. -/
def resize (size : ℕ) : Memory.Checked (Vector Byte size) :=
  if size < maxSize then .ok (Vector.replicate size 0) else .error .lengthError

/-- A string literal. -/
def ascii (text : String) : List Byte := text.toList.map fun c => BitVec.ofNat 8 c.toNat

/-- The word whose bytes in memory are `lo` and then `hi`. -/
def wordOf (lo hi : Byte) : Word := hi ++ lo

/-- The bytes of a word in memory. -/
def wordBytes (x : Word) : List Byte := [x.setWidth 8, (x >>> 8).setWidth 8]

@[simp] lemma length_wordBytes (x : Word) : (wordBytes x).length = 2 := rfl

/-- The bits of a word are those of its bytes. -/
lemma getLsbD_wordOf (lo hi : Byte) (i : ℕ) :
    (wordOf lo hi).getLsbD i = if i < 8 then lo.getLsbD i else hi.getLsbD (i - 8) :=
  BitVec.getLsbD_append

/-- A word is made of its two bytes. -/
lemma wordOf_wordBytes (x : Word) : wordOf (x.setWidth 8) ((x >>> 8).setWidth 8) = x := by
  apply BitVec.eq_of_getLsbD_eq
  intro i hi
  rw [getLsbD_wordOf]
  by_cases h : i < 8
  · simp [h]
  · simp [h, show i - 8 < 8 by omega, show 8 + (i - 8) = i by omega]

lemma wordBytes_wordOf (lo hi : Byte) : wordBytes (wordOf lo hi) = [lo, hi] := by
  have hlo : (wordOf lo hi).setWidth 8 = lo := by
    apply BitVec.eq_of_getLsbD_eq
    intro i hi
    rw [BitVec.getLsbD_setWidth, getLsbD_wordOf]
    simp [hi]
  have hhi : (wordOf lo hi >>> 8).setWidth 8 = hi := by
    apply BitVec.eq_of_getLsbD_eq
    intro i hi
    rw [BitVec.getLsbD_setWidth, BitVec.getLsbD_ushiftRight, getLsbD_wordOf]
    simp [hi]
  rw [wordBytes, hlo, hhi]

/-- Words differ in a byte. -/
lemma wordOf_inj {lo hi lo' hi' : Byte} : wordOf lo hi = wordOf lo' hi' ↔ lo = lo' ∧ hi = hi' := by
  constructor
  · intro h
    have hbytes := congrArg wordBytes h
    rw [wordBytes_wordOf, wordBytes_wordOf] at hbytes
    simpa using hbytes
  · rintro ⟨rfl, rfl⟩
    rfl

lemma wordOf_eq_iff {lo hi : Byte} {x : Word} : wordOf lo hi = x ↔ [lo, hi] = wordBytes x := by
  constructor
  · rintro rfl
    exact (wordBytes_wordOf lo hi).symm
  · intro h
    have hbytes : lo = x.setWidth 8 ∧ hi = (x >>> 8).setWidth 8 := by simpa [wordBytes] using h
    rw [hbytes.1, hbytes.2, wordOf_wordBytes]

/-- Words are added byte by byte. -/
lemma wordOf_xor (lo hi lo' hi' : Byte) :
    wordOf (lo ^^^ lo') (hi ^^^ hi') = wordOf lo hi ^^^ wordOf lo' hi' :=
  BitVec.xor_append.symm

end Vng
