import Mathlib.Data.List.Basic
import Mathlib.Data.Vector.Basic
import Vng.Host
import Vng.Lib.Lfsr

/-!
# `utils::CRC16`

The table-driven CRC of `utilscrc16.cpp`, and its reading as the bit-serial register of
generator `0x8005`: `calculate_eq_feed`.
-/

namespace Vng
namespace CRC16

def SHIFTED : Word := 0x00FF

set_option maxRecDepth 2000 in
def table : Vector Word 256 := #v[
    0x0000, 0x8005, 0x800F, 0x000A, 0x801B, 0x001E, 0x0014, 0x8011,
    0x8033, 0x0036, 0x003C, 0x8039, 0x0028, 0x802D, 0x8027, 0x0022,
    0x8063, 0x0066, 0x006C, 0x8069, 0x0078, 0x807D, 0x8077, 0x0072,
    0x0050, 0x8055, 0x805F, 0x005A, 0x804B, 0x004E, 0x0044, 0x8041,
    0x80C3, 0x00C6, 0x00CC, 0x80C9, 0x00D8, 0x80DD, 0x80D7, 0x00D2,
    0x00F0, 0x80F5, 0x80FF, 0x00FA, 0x80EB, 0x00EE, 0x00E4, 0x80E1,
    0x00A0, 0x80A5, 0x80AF, 0x00AA, 0x80BB, 0x00BE, 0x00B4, 0x80B1,
    0x8093, 0x0096, 0x009C, 0x8099, 0x0088, 0x808D, 0x8087, 0x0082,
    0x8183, 0x0186, 0x018C, 0x8189, 0x0198, 0x819D, 0x8197, 0x0192,
    0x01B0, 0x81B5, 0x81BF, 0x01BA, 0x81AB, 0x01AE, 0x01A4, 0x81A1,
    0x01E0, 0x81E5, 0x81EF, 0x01EA, 0x81FB, 0x01FE, 0x01F4, 0x81F1,
    0x81D3, 0x01D6, 0x01DC, 0x81D9, 0x01C8, 0x81CD, 0x81C7, 0x01C2,
    0x0140, 0x8145, 0x814F, 0x014A, 0x815B, 0x015E, 0x0154, 0x8151,
    0x8173, 0x0176, 0x017C, 0x8179, 0x0168, 0x816D, 0x8167, 0x0162,
    0x8123, 0x0126, 0x012C, 0x8129, 0x0138, 0x813D, 0x8137, 0x0132,
    0x0110, 0x8115, 0x811F, 0x011A, 0x810B, 0x010E, 0x0104, 0x8101,
    0x8303, 0x0306, 0x030C, 0x8309, 0x0318, 0x831D, 0x8317, 0x0312,
    0x0330, 0x8335, 0x833F, 0x033A, 0x832B, 0x032E, 0x0324, 0x8321,
    0x0360, 0x8365, 0x836F, 0x036A, 0x837B, 0x037E, 0x0374, 0x8371,
    0x8353, 0x0356, 0x035C, 0x8359, 0x0348, 0x834D, 0x8347, 0x0342,
    0x03C0, 0x83C5, 0x83CF, 0x03CA, 0x83DB, 0x03DE, 0x03D4, 0x83D1,
    0x83F3, 0x03F6, 0x03FC, 0x83F9, 0x03E8, 0x83ED, 0x83E7, 0x03E2,
    0x83A3, 0x03A6, 0x03AC, 0x83A9, 0x03B8, 0x83BD, 0x83B7, 0x03B2,
    0x0390, 0x8395, 0x839F, 0x039A, 0x838B, 0x038E, 0x0384, 0x8381,
    0x0280, 0x8285, 0x828F, 0x028A, 0x829B, 0x029E, 0x0294, 0x8291,
    0x82B3, 0x02B6, 0x02BC, 0x82B9, 0x02A8, 0x82AD, 0x82A7, 0x02A2,
    0x82E3, 0x02E6, 0x02EC, 0x82E9, 0x02F8, 0x82FD, 0x82F7, 0x02F2,
    0x02D0, 0x82D5, 0x82DF, 0x02DA, 0x82CB, 0x02CE, 0x02C4, 0x82C1,
    0x8243, 0x0246, 0x024C, 0x8249, 0x0258, 0x825D, 0x8257, 0x0252,
    0x0270, 0x8275, 0x827F, 0x027A, 0x826B, 0x026E, 0x0264, 0x8261,
    0x0220, 0x8225, 0x822F, 0x022A, 0x823B, 0x023E, 0x0234, 0x8231,
    0x8213, 0x0216, 0x021C, 0x8219, 0x0208, 0x820D, 0x8207, 0x0202]

/-- The index into the table is one byte. -/
lemma index_lt (x : Word) : (x &&& SHIFTED).toNat < 256 := by
  rw [BitVec.toNat_and]
  exact Nat.lt_of_le_of_lt Nat.and_le_right (by decide)

/-- The loop body of `calculate`. -/
def update (crc : Word) (payload : Byte) : Word :=
  let temp : Word := payload.setWidth 16
  let index := ((crc >>> 8) ^^^ temp) &&& SHIFTED
  let value := table.get ⟨index.toNat, index_lt _⟩
  (crc <<< 8) ^^^ value

/-- `Crc16::calculate`. -/
def calculate (payload : List Byte) : Word := payload.foldl update 0

/-! ## The table update is eight bit steps -/

/-- `x^16 + x^15 + x^2 + 1` without its leading term. -/
def generator : Word := 0x8005

/-- A message as a bit string, bytes most significant bit first. -/
def messageBits (payload : List Byte) : List Bool := payload.flatMap Lfsr.bits

@[simp] lemma messageBits_nil : messageBits [] = [] := rfl

@[simp] lemma messageBits_cons (b : Byte) (l : List Byte) :
    messageBits (b :: l) = Lfsr.bits b ++ messageBits l := rfl

/-- The bits of one message behind the other. -/
@[simp] lemma messageBits_append (l m : List Byte) :
    messageBits (l ++ m) = messageBits l ++ messageBits m := List.flatMap_append

lemma length_messageBits (l : List Byte) : (messageBits l).length = 8 * l.length := by
  induction l with
  | nil => rfl
  | cons b l ih =>
    rw [messageBits_cons, List.length_append, ih, Lfsr.length_bits, List.length_cons]
    omega

/-- The bits determine the bytes. -/
lemma messageBits_injective {l m : List Byte} (h : messageBits l = messageBits m) : l = m := by
  -- eight bits for each byte, so the lengths agree
  have hlen : l.length = m.length := by
    have := congrArg List.length h
    rw [length_messageBits, length_messageBits] at this
    omega
  induction l generalizing m with
  | nil =>
    cases m with
    | nil => rfl
    | cons c m => simp at hlen
  | cons b l ih =>
    cases m with
    | nil => simp at hlen
    | cons c m =>
      rw [messageBits_cons, messageBits_cons] at h
      obtain ⟨hfirst, hrest⟩ := List.append_inj h (by simp)
      rw [Lfsr.bits_injective hfirst, ih hrest (by simpa using hlen)]

/-- Errors in the bytes are errors in the bits. -/
lemma messageBits_xor {l m : List Byte} (h : l.length = m.length) :
    messageBits (List.zipWith (· ^^^ ·) l m) =
      List.zipWith xor (messageBits l) (messageBits m) := by
  induction l generalizing m with
  | nil => rfl
  | cons b l ih =>
    cases m with
    | nil => simp at h
    | cons c m =>
      rw [List.zipWith_cons_cons, messageBits_cons, messageBits_cons, messageBits_cons,
        Lfsr.bits_xor, ih (Nat.succ.inj h), List.zipWith_append (by simp)]

set_option maxRecDepth 4000 in
/-- Each entry is what the register holds after the bits of its index. -/
lemma table_toList :
    table.toList = (List.finRange 256).map fun i =>
      Lfsr.feed generator 0#16 (Lfsr.bits (BitVec.ofFin i : Byte)) := by
  decide +kernel

/-- Entry `i` of the table is the remainder of the byte `i`. -/
lemma table_get (i : Byte) :
    table.get ⟨i.toNat, i.isLt⟩ = Lfsr.feed generator 0#16 (Lfsr.bits i) := by
  have hlt : i.toNat < 256 := i.isLt
  have h := congrArg (·[i.toNat]?) table_toList
  simp only [List.getElem?_map,
    List.getElem?_eq_getElem (show i.toNat < table.toList.length by simpa),
    List.getElem?_eq_getElem (show i.toNat < (List.finRange 256).length by simpa),
    Vector.getElem_toList, List.getElem_finRange, Option.map_some, Option.some.injEq] at h
  exact h

lemma getLsbD_SHIFTED : ∀ i < 16, SHIFTED.getLsbD i = decide (i < 8) := by decide

/-- The byte that `update` looks up. -/
lemma index_eq (crc : Word) (payload : Byte) :
    (((crc >>> 8) ^^^ payload.setWidth 16) &&& SHIFTED).toNat =
      ((crc >>> 8).setWidth 8 ^^^ payload).toNat := by
  have h : ((crc >>> 8) ^^^ payload.setWidth 16) &&& SHIFTED =
      ((crc >>> 8).setWidth 8 ^^^ payload).setWidth 16 := by
    apply BitVec.eq_of_getLsbD_eq
    intro i hi
    rw [BitVec.getLsbD_and, getLsbD_SHIFTED i hi]
    by_cases hlt : i < 8
    · simp [hlt, hi]
    · simp [hlt, BitVec.getLsbD_of_ge _ i (Nat.le_of_not_lt hlt)]
  rw [h, BitVec.toNat_setWidth]
  exact Nat.mod_eq_of_lt (by omega)

/-- The index is the high byte of the register. -/
lemma leading_eq (crc : Word) : Lfsr.leading 8 crc = Lfsr.bits ((crc >>> 8).setWidth 8) := by
  apply List.ext_getElem
  · simp
  · intro i h₁ h₂
    have hi : i < 8 := by simpa using h₁
    simp [Lfsr.bits, Lfsr.leading, BitVec.getMsbD_eq_getLsbD]

/-- One table update is eight steps of the register. -/
lemma update_eq_feed (crc : Word) (payload : Byte) :
    update crc payload = Lfsr.feed generator crc (Lfsr.bits payload) := by
  rw [Lfsr.feed_eq_shiftLeft_xor, Lfsr.length_bits, leading_eq, ← Lfsr.bits_xor, ← table_get]
  simp only [update, index_eq]

/-- The loop over the table is the register fed bit by bit. -/
lemma foldl_update_eq_feed (crc : Word) (l : List Byte) :
    l.foldl update crc = Lfsr.feed generator crc (messageBits l) := by
  induction l generalizing crc with
  | nil => rfl
  | cons b l ih => rw [List.foldl_cons, ih, messageBits_cons, Lfsr.feed_append, update_eq_feed]

/-- **The table CRC is the bit-serial one.** -/
theorem calculate_eq_feed (l : List Byte) :
    calculate l = Lfsr.feed generator 0#16 (messageBits l) := foldl_update_eq_feed 0 l

/-! ## Linearity and bursts -/

/-- Flipping bits of a message flips the bits of its CRC that the flips alone would set. -/
theorem calculate_xor {l m : List Byte} (h : l.length = m.length) :
    calculate (List.zipWith (· ^^^ ·) l m) = calculate l ^^^ calculate m := by
  have hfeed := Lfsr.feed_xor generator (l := messageBits l) (m := messageBits m)
    (by rw [length_messageBits, length_messageBits, h]) 0#16 0#16
  rwa [BitVec.xor_self, ← messageBits_xor h, ← calculate_eq_feed, ← calculate_eq_feed,
    ← calculate_eq_feed] at hfeed

lemma update_zero_zero : update 0 0 = 0 := by decide

/-- Zeros in front leave no trace. -/
lemma calculate_zeros_append (n : ℕ) (l : List Byte) :
    calculate (List.replicate n 0 ++ l) = calculate l := by
  induction n with
  | zero => rfl
  | succ n ih =>
    rw [calculate, List.replicate_succ, List.cons_append, List.foldl_cons, update_zero_zero]
    exact ih

/-- Flips within 16 consecutive bits of a message do not go unnoticed. -/
theorem calculate_burst_ne_zero {e : List Byte} {i : ℕ}
    (hwin : Lfsr.WithinWindow i 16 (messageBits e)) (hne : true ∈ messageBits e) :
    calculate e ≠ 0 := by
  rw [calculate_eq_feed]
  exact Lfsr.feed_burst_ne_zero (by decide) hwin hne

end CRC16
end Vng
