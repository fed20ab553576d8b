import Vng.Ble.GapPacket
import Vng.Net.Subscriber

/-!
# The parsers of the services

The `parse` functions of the button, keypad and advertise services. All three take the size field
for the number of bytes behind the payload pointer.
-/

namespace Vng
namespace Services

open Memory (Checked loadAll loadAll_eq_ok ok_bind)
open Subscriber (Parse TrustsSize)

def BleReceive : Word := 0x0001
def BleAdvertise : Word := 0x0002

/-- `Check` of the button and of the keypad. -/
structure Check where
  address : List Byte
  payload : List Byte
deriving DecidableEq, Repr

/-- The `parse` that the button and the keypad share. -/
def parseCheck : Parse Check := fun id payload size =>
  if id ≠ BleReceive ∨ size.toNat < BLE_ADDRESS_SIZE + BLE_PAYLOAD_SIZE then .ok none
  else do
    let address ← loadAll payload 0 BLE_ADDRESS_SIZE
    let advertisement ← loadAll payload BLE_ADDRESS_SIZE BLE_PAYLOAD_SIZE
    return some ⟨address, advertisement⟩

/-- `parse` of `light/button`. -/
def Button.parse : Parse Check := parseCheck

/-- `parse` of `access/keypad`. -/
def Keypad.parse : Parse Check := parseCheck

/-- `Advertise` of the advertise service. -/
structure Advertise where
  payload : List Byte
deriving DecidableEq, Repr

/-- `parse` of `ble/advertise`. The constructor of `Advertise` takes the size as a `uint8_t`. -/
def Advertise.parse : Parse Advertise := fun id payload size =>
  if id ≠ BleAdvertise then .ok none
  else do
    let size := size.toNat % 2 ^ 8
    let bytes ← loadAll payload 0 (if size < BLE_PAYLOAD_SIZE then size else BLE_PAYLOAD_SIZE)
    return some ⟨bytes ++ List.replicate (BLE_PAYLOAD_SIZE - bytes.length) 0⟩

lemma parseCheck_trustsSize : TrustsSize parseCheck := by
  intro id payload size hsize
  unfold parseCheck
  split_ifs with h
  · exact ⟨none, rfl⟩
  · push Not at h
    have hread : BLE_ADDRESS_SIZE + BLE_PAYLOAD_SIZE ≤ payload.length := h.2.trans hsize
    rw [loadAll_eq_ok (show 0 + BLE_ADDRESS_SIZE ≤ payload.length by omega), ok_bind,
      loadAll_eq_ok hread, ok_bind]
    exact ⟨_, rfl⟩

lemma Advertise.parse_trustsSize : TrustsSize Advertise.parse := by
  intro id payload size hsize
  unfold Advertise.parse
  split_ifs with h
  · exact ⟨none, rfl⟩
  · dsimp only
    rw [loadAll_eq_ok (by split_ifs <;> omega), ok_bind]
    exact ⟨_, rfl⟩

/-- **The services.** None of the three reads behind a packet that has all of its payload. -/
theorem received_of_contains {packet : List Byte}
    (h : ∀ e, Subscriber.event packet = some e → Subscriber.Contains packet e) :
    (∃ command, Subscriber.received Button.parse packet = .ok command) ∧
      (∃ command, Subscriber.received Keypad.parse packet = .ok command) ∧
      ∃ command, Subscriber.received Advertise.parse packet = .ok command :=
  ⟨Subscriber.received_eq_ok parseCheck_trustsSize h,
    Subscriber.received_eq_ok parseCheck_trustsSize h,
    Subscriber.received_eq_ok Advertise.parse_trustsSize h⟩

/-- A header that announces 37 bytes, with nothing behind it: the button and the advertise
service read past the packet. -/
theorem received_overread :
    Subscriber.event [0x01, 0x00, 37, 0x00] = some ⟨BleReceive, 37, []⟩ ∧
      ¬ Subscriber.Contains [0x01, 0x00, 37, 0x00] ⟨BleReceive, 37, []⟩ ∧
      Subscriber.received Button.parse [0x01, 0x00, 37, 0x00] = .error .outOfBounds ∧
      Subscriber.received Advertise.parse [0x02, 0x00, 37, 0x00] = .error .outOfBounds :=
  ⟨by decide, by unfold Subscriber.Contains; decide, by decide, by decide⟩

end Services
end Vng
