import Mathlib.Data.Int.Notation
import Vng.Host
import Vng.Lib.Memory

/-!
# `ble::gap::Packet`

The advertising payload of `blegappacket.cpp`: fields in a buffer of 31 bytes, found by walking
from length byte to length byte. Setting a field that is there removes it in place and appends
the new one.
-/

namespace Vng

def BLE_PAYLOAD_SIZE : ℕ := 31
def BLE_ADDRESS_SIZE : ℕ := 6

namespace Gap

open Memory (Checked load store storeAll loadAt loadAll)

/-- `Packet::Private`. -/
structure Packet where
  payload : Vector Byte BLE_PAYLOAD_SIZE
  length : Byte
deriving DecidableEq, Repr

/-- A new packet. -/
def fresh : Packet := ⟨Vector.replicate BLE_PAYLOAD_SIZE 0, 0⟩

/-- The loop of `field`, `fuel` more rounds of it. -/
def fieldFrom (payload : Vector Byte BLE_PAYLOAD_SIZE) (type : Byte) :
    (fuel : ℕ) → (position : Byte) → Checked (Option ℕ)
  | 0, _ => .error .diverges
  | fuel + 1, position =>
    if position.toNat < BLE_PAYLOAD_SIZE - 2 then do
      let fieldType ← load payload (position.toNat + 1)
      if fieldType = 0 then return none
      else if fieldType = type then return some position.toNat
      else
        let length ← load payload position.toNat
        fieldFrom payload type fuel (position + (length + 1))
    else return none

/-- `field`: where the field is. The loop stands at one of 29 positions at the start of each
round, so one that makes 31 rounds has come back to where it was. -/
def field (s : Packet) (type : Byte) : Checked (Option ℕ) :=
  fieldFrom s.payload type BLE_PAYLOAD_SIZE 0

/-- The loop of `remove`, `rounds` more rounds of it. The field's length byte is read anew in each
round, and the first round writes over it. -/
def removeFrom (payload : Vector Byte BLE_PAYLOAD_SIZE) (start index : ℕ) :
    (rounds : ℕ) → Checked (Vector Byte BLE_PAYLOAD_SIZE)
  | 0 => .ok payload
  | rounds + 1 => do
    let length ← load payload start
    let value ← load payload (start + (index + length.toNat))
    let payload ← store payload (start + index) value
    removeFrom payload start (index + 1) rounds

/-- `remove`, with the field at `start`. -/
def remove (s : Packet) (start : ℕ) : Checked Packet := do
  let fieldLength ← load s.payload start
  let length : Byte := s.length - BitVec.ofNat 8 start - fieldLength
  let payload ← removeFrom s.payload start 0 length.toNat
  -- `payload[start + length] = 0`, where `payload` already points to the field
  let payload ← store payload (start + (start + length.toNat)) 0
  return { s with payload := payload }

/-- The end of `setField`: the new field behind the others. -/
def append (s : Packet) (type : Byte) (value : List Byte) : Checked (ℤ × Packet) := do
  let field := s.length.toNat
  let payload ← store s.payload field (BitVec.ofNat 8 (value.length + 1))
  let payload ← store payload (field + 1) type
  let payload ← storeAll payload (field + 2) value
  let fieldLength ← load payload field
  return (0, ⟨payload, s.length + (fieldLength + 1)⟩)

def setField (s : Packet) (type : Byte) (value : List Byte) : Checked (ℤ × Packet) := do
  match ← field s type with
  | none =>
    if s.length.toNat + value.length + 2 > BLE_PAYLOAD_SIZE then return (-1, s)
    else append s type value
  | some start =>
    let fieldLength ← load s.payload start
    let required : ℤ := value.length + 2
    let required := required + s.length.toNat
    let required := required - (fieldLength.toNat + 1)
    if required > BLE_PAYLOAD_SIZE then return (-1, s)
    else
      let s ← remove s start
      append s type value

/-- The loop of `setPayload`, `fuel` more rounds of it. -/
def setPayloadFrom (source : List Byte) (size : Byte) :
    (fuel : ℕ) → (s : Packet) → Checked (ℤ × Packet)
  | 0, _ => .error .diverges
  | fuel + 1, s =>
    let position := s.length.toNat
    if (position : ℤ) < (size.toNat : ℤ) - 2 ∧ position < BLE_PAYLOAD_SIZE - 2 then do
      let type ← loadAt source (position + 1)
      if type = 0 then return (0, s)
      else
        let length ← loadAt source position
        if length.toNat < 1 then return (-1, s)
        else if position + length.toNat + 1 > size.toNat then return (-1, s)
        else
          let payload ← store s.payload (position + 1) type
          let payload ← store payload position length
          let value ← loadAll source (position + 2) (length.toNat - 1)
          let payload ← storeAll payload (position + 2) value
          setPayloadFrom source size fuel ⟨payload, s.length + (length + 1)⟩
    else return (0, s)

/-- `setPayload`, which clears the packet first. A round moves on by two bytes or more, so it
takes less than 31 of them. -/
def setPayload (source : List Byte) (size : Byte) : Checked (ℤ × Packet) :=
  setPayloadFrom source size (BLE_PAYLOAD_SIZE + 1) fresh

/-- The value a caller reads through the pointer that `field` returns. -/
def lookup (s : Packet) (type : Byte) : Checked (Option (List Byte)) := do
  match ← field s type with
  | none => return none
  | some start =>
    let length ← load s.payload start
    let value ← loadAll s.payload.toList (start + 2) (length.toNat - 1)
    return some value

end Gap
end Vng
