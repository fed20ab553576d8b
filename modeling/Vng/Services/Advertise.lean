import Mathlib.Data.List.GetD
import Vng.Services.Parse

/-!
# The advertise service

What a `BleAdvertise` message hands to the serial device. The size field of the message has 16
bits and the constructor of the command takes 8 of them, so the clamp to the 31 bytes of an
advertisement sees the size modulo 256.
-/

namespace Vng
namespace Services
namespace Advertise

open Memory (Checked loadAll loadAll_eq_ok ok_bind)

/-- `Private::advertise`: the packet handed to `Device::write`. -/
def advertise (payload : List Byte) : Checked (List Byte) := loadAll payload 0 BLE_PAYLOAD_SIZE

/-- `Advertise::execute`. -/
def execute (command : Advertise) : Checked (List Byte) := advertise command.payload

/-- The packet handed to the device for a message, if the message is scheduled as a command. -/
def transmitted (packet : List Byte) : Checked (Option (List Byte)) := do
  let command ← Subscriber.received parse packet
  match command with
  | none => return none
  | some command =>
    let written ← execute command
    return some written

/-- The first `size` bytes of a payload as an advertisement: cut at 31 bytes, filled up with
zeros. -/
def clamped (payload : List Byte) (size : ℕ) : List Byte :=
  payload.take (min size BLE_PAYLOAD_SIZE) ++
    List.replicate (BLE_PAYLOAD_SIZE - min size BLE_PAYLOAD_SIZE) 0

variable {payload : List Byte} {size : ℕ}

lemma length_clamped (h : size ≤ payload.length) :
    (clamped payload size).length = BLE_PAYLOAD_SIZE := by
  unfold clamped
  rw [List.length_append, List.length_take, List.length_replicate]
  omega

lemma getD_clamped (h : size ≤ payload.length) (i : ℕ) :
    (clamped payload size).getD i 0 =
      if i < min size BLE_PAYLOAD_SIZE then payload.getD i 0 else 0 := by
  have hlen : (payload.take (min size BLE_PAYLOAD_SIZE)).length = min size BLE_PAYLOAD_SIZE := by
    rw [List.length_take]
    omega
  unfold clamped
  split_ifs with hi
  · rw [List.getD_append _ _ _ _ (by rw [hlen]; exact hi)]
    simp only [List.getD_eq_getElem?_getD, List.getElem?_take, hi, if_true]
  · rw [List.getD_append_right _ _ _ _ (by rw [hlen]; omega)]
    simp only [List.getD_eq_getElem?_getD, List.getElem?_replicate]
    split_ifs <;> rfl

/-- Two clamps agree exactly if there are only zeros between them. -/
lemma clamped_eq_iff {size' : ℕ} (hle : size ≤ size') (h : size' ≤ payload.length) :
    clamped payload size = clamped payload size' ↔
      ∀ i, size ≤ i → i < min size' BLE_PAYLOAD_SIZE → payload.getD i 0 = 0 := by
  constructor
  · intro heq i hi hlt
    have hcell := congrArg (fun bytes => bytes.getD i 0) heq
    simp only [getD_clamped (hle.trans h), getD_clamped h] at hcell
    rw [if_neg (by omega), if_pos hlt] at hcell
    exact hcell.symm
  · intro hzero
    have hlen := (length_clamped (hle.trans h)).trans (length_clamped h).symm
    refine List.ext_getElem hlen fun i hi hi' => ?_
    rw [← List.getD_eq_getElem _ 0 hi, ← List.getD_eq_getElem _ 0 hi',
      getD_clamped (hle.trans h), getD_clamped h]
    split_ifs with hlt hlt' hlt'
    · rfl
    · omega
    · exact (hzero i (by omega) hlt').symm
    · rfl

/-- The command holds the clamp at the narrowed size. -/
lemma parse_advertise {size : Word} (h : size.toNat ≤ payload.length) :
    parse BleAdvertise payload size = .ok (some ⟨clamped payload (size.toNat % 2 ^ 8)⟩) := by
  have hbound : (if size.toNat % 2 ^ 8 < BLE_PAYLOAD_SIZE then size.toNat % 2 ^ 8
      else BLE_PAYLOAD_SIZE) = min (size.toNat % 2 ^ 8) BLE_PAYLOAD_SIZE := by
    split_ifs <;> omega
  have hread : 0 + min (size.toNat % 2 ^ 8) BLE_PAYLOAD_SIZE ≤ payload.length := by omega
  unfold parse
  rw [if_neg (by simp)]
  dsimp only
  rw [hbound, loadAll_eq_ok hread, ok_bind, List.drop_zero, List.length_take,
    min_eq_left (show min (size.toNat % 2 ^ 8) BLE_PAYLOAD_SIZE ≤ payload.length by omega)]
  rfl

lemma transmitted_eq {packet : List Byte} {size : Word}
    (hevent : Subscriber.event packet = some ⟨BleAdvertise, size, payload⟩)
    (h : size.toNat ≤ payload.length) :
    transmitted packet = .ok (some (clamped payload (size.toNat % 2 ^ 8))) := by
  have hlen : (clamped payload (size.toNat % 2 ^ 8)).length = BLE_PAYLOAD_SIZE :=
    length_clamped (by omega)
  have hwritten : execute ⟨clamped payload (size.toNat % 2 ^ 8)⟩ =
      .ok (clamped payload (size.toNat % 2 ^ 8)) := by
    unfold execute advertise
    rw [loadAll_eq_ok (by rw [hlen, Nat.zero_add]), List.drop_zero, List.take_of_length_le hlen.le]
  unfold transmitted Subscriber.received
  rw [hevent]
  dsimp only
  rw [parse_advertise h, ok_bind]
  dsimp only
  rw [hwritten, ok_bind]
  rfl

/-- **The clamp.** The packet handed to the device has 31 bytes, the payload up to its size and
zeros behind it, exactly if the size is below 256 or no byte of the advertisement from the size
modulo 256 on is set. -/
theorem transmitted_clamped_iff {packet : List Byte} {size : Word}
    (hevent : Subscriber.event packet = some ⟨BleAdvertise, size, payload⟩)
    (h : size.toNat ≤ payload.length) :
    (∃ written, transmitted packet = .ok (some written) ∧ written.length = 31 ∧
        written = clamped payload size.toNat) ↔
      size.toNat < 256 ∨ ∀ i, size.toNat % 256 ≤ i → i < 31 → payload.getD i 0 = 0 := by
  have hlen : (clamped payload size.toNat).length = 31 := length_clamped h
  have hle : size.toNat % 256 ≤ size.toNat := Nat.mod_le _ _
  have hwritten : (∃ written, transmitted packet = .ok (some written) ∧ written.length = 31 ∧
      written = clamped payload size.toNat) ↔
      clamped payload (size.toNat % 256) = clamped payload size.toNat := by
    rw [transmitted_eq hevent h, show 2 ^ 8 = 256 from rfl]
    constructor
    · rintro ⟨written, htransmitted, -, rfl⟩
      simpa using htransmitted
    · intro heq
      exact ⟨_, by rw [← heq], hlen, rfl⟩
  rw [hwritten, clamped_eq_iff hle h]
  by_cases hsmall : size.toNat < 256
  · refine iff_of_true (fun i hi hlt => ?_) (.inl hsmall)
    omega
  · have hmin : min size.toNat BLE_PAYLOAD_SIZE = 31 := by
      have hsize : BLE_PAYLOAD_SIZE = 31 := rfl
      omega
    rw [hmin]
    simp only [hsmall, false_or]

/-- A header that announces `size` bytes, and a payload. -/
def message (size : Word) (payload : List Byte) : List Byte :=
  wordBytes BleAdvertise ++ wordBytes size ++ payload

lemma event_message (size : Word) (payload : List Byte) :
    Subscriber.event (message size payload) = some ⟨BleAdvertise, size, payload⟩ := by
  have hsize : wordOf (size.setWidth 8) ((size >>> 8).setWidth 8) = size := wordOf_wordBytes size
  have hshort : ¬ Subscriber.headerSize > (message size payload).length := by
    simp only [message, List.length_append, length_wordBytes, Subscriber.headerSize]
    omega
  unfold Subscriber.event
  rw [if_neg hshort]
  simp [message, wordBytes, Subscriber.headerSize, hsize]
  decide

/-- Three bytes are handed on with 28 zeros behind them. -/
theorem transmitted_clamped_three :
    ∃ written, transmitted (message 3 [0xAA, 0xBB, 0xCC]) = .ok (some written) ∧
      written.length = 31 ∧ written = clamped [0xAA, 0xBB, 0xCC] 3 :=
  (transmitted_clamped_iff (event_message 3 [0xAA, 0xBB, 0xCC]) (by decide)).mpr
    (.inl (by decide))

/-- Of 256 bytes that are all set nothing is handed on: the advertisement is empty. -/
theorem transmitted_wraps :
    Subscriber.event (message 256 (List.replicate 256 1)) =
        some ⟨BleAdvertise, 256, List.replicate 256 1⟩ ∧
      transmitted (message 256 (List.replicate 256 1)) = .ok (some (List.replicate 31 0)) ∧
      clamped (List.replicate 256 1) 256 = List.replicate 31 1 := by
  have hevent := event_message 256 (List.replicate 256 1)
  have hclamped : ∀ size, clamped (List.replicate 256 1) size =
      List.replicate (min (min size BLE_PAYLOAD_SIZE) 256) 1 ++
        List.replicate (BLE_PAYLOAD_SIZE - min size BLE_PAYLOAD_SIZE) 0 := by
    intro size
    rw [clamped, List.take_replicate]
  refine ⟨hevent, ?_, ?_⟩
  · rw [transmitted_eq hevent (by rw [List.length_replicate]; decide), hclamped]
    rfl
  · rw [hclamped]
    rfl

end Advertise
end Services
end Vng
