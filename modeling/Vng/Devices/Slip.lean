import Vng.Host
import Vng.Lib.Memory
import Vng.Lib.Transducer
import Vng.Utils.Crc16

/-!
# `devices::slip::Protocol`

The SLIP framing of `devicesprotocol.cpp`: a packet is followed by its CRC, the four special
bytes are escaped, and `SLIP_END` closes the frame. The encoder sizes its buffer in one pass and
fills it in another; the decoder is a state machine over single bytes.
-/

namespace Vng
namespace Slip

open Memory (Fault Checked store)

/-- `devices::Protocol::Packet`. -/
abbrev Packet := List Byte

def SLIP_END : Byte := 0xC0
def SLIP_ESC : Byte := 0xDB
def SLIP_ESC_END : Byte := 0xDC
def SLIP_ESC_ESC : Byte := 0xDD
def SLIP_ESC_XON : Byte := 0xDE
def SLIP_ESC_XOFF : Byte := 0xDF
def XON : Byte := 0x11
def XOFF : Byte := 0x13

/-! ## Encoding -/

/-- The sizing pass. -/
def encodedSize (payload : Packet) : ℕ :=
  payload.foldl (fun position value =>
    if value = SLIP_END then position + 2
    else if value = SLIP_ESC then position + 2
    else if value = XON then position + 2
    else if value = XOFF then position + 2
    else position + 1) 0

variable {n : ℕ}

/-- `encode(packet, size, encoded, encodedSize)`: the escaping pass, writing from index `start`
of the buffer on. -/
def encodeInto (encoded : Vector Byte n) (start : ℕ) :
    Packet → (encodedSize : ℕ) → Checked (Vector Byte n × ℕ)
  | [], encodedSize => .ok (encoded, encodedSize)
  | value :: packet, encodedSize =>
    let escape (code : Byte) : Checked (Vector Byte n × ℕ) := do
      let encoded ← store encoded (start + encodedSize) SLIP_ESC
      let encoded ← store encoded (start + (encodedSize + 1)) code
      encodeInto encoded start packet (encodedSize + 2)
    if value = SLIP_END then escape SLIP_ESC_END
    else if value = SLIP_ESC then escape SLIP_ESC_ESC
    else if value = XON then escape SLIP_ESC_XON
    else if value = XOFF then escape SLIP_ESC_XOFF
    else do
      let encoded ← store encoded (start + encodedSize) value
      encodeInto encoded start packet (encodedSize + 1)

/-- `encode(packet, size, encoded)`. -/
def encode (packet : Packet) : Checked Packet := do
  let crc := CRC16.calculate packet
  let mainSize := encodedSize packet
  let crcSize := encodedSize (wordBytes crc)
  let values ← resize (mainSize + crcSize + 1)
  let (values, mainSize) ← encodeInto values 0 packet 0
  let (values, crcSize) ← encodeInto values mainSize (wordBytes crc) 0
  let values ← store values (mainSize + crcSize) SLIP_END
  return values.toList

/-! ## Decoding -/

/-- `Slip::Private`: whether the last byte was `SLIP_ESC`, and the packet so far. -/
structure Private where
  escaping : Bool
  decoded : Packet
deriving DecidableEq, Repr

/-- The state of a new decoder, and after `reset()`. -/
def reset : Private := ⟨false, []⟩

/-- `finish`: the new state and the packets handed to the `Decoded` callback. -/
def finish (s : Private) : Private × List Packet :=
  let size := s.decoded.length
  -- a body too short for a CRC is left in the buffer
  if size < 2 then (s, [])
  else
    let mainSize := size - 2
    let courceCrc := wordOf (s.decoded.getD mainSize 0) (s.decoded.getD (mainSize + 1) 0)
    let calculatedCrc := CRC16.calculate (s.decoded.take mainSize)
    if courceCrc = calculatedCrc then
      ({ s with decoded := [] }, [s.decoded.take mainSize])
    else
      ({ s with decoded := [] }, [])

/-- What `decode` takes the byte after `SLIP_ESC` for. -/
def unescape (value : Byte) : Byte :=
  if value = SLIP_ESC_END then SLIP_END
  else if value = SLIP_ESC_ESC then SLIP_ESC
  else if value = SLIP_ESC_XON then XON
  else if value = SLIP_ESC_XOFF then XOFF
  else value

/-- The loop body of `decode`. -/
def decodeByte (s : Private) (value : Byte) : Private × List Packet :=
  if s.escaping then ({ escaping := false, decoded := s.decoded ++ [unescape value] }, [])
  else if value = SLIP_END then finish s
  else if value = SLIP_ESC then ({ s with escaping := true }, [])
  else ({ s with decoded := s.decoded ++ [value] }, [])

/-- `decode`: the state after a chunk, and the packets delivered while it was consumed. -/
def decode : Private → Packet → Private × List Packet := Transducer.run decodeByte

@[simp] lemma decode_nil (s : Private) : decode s [] = (s, []) := rfl

/-- The bytes are decoded one after another. -/
@[simp] lemma decode_cons (s : Private) (value : Byte) (packet : Packet) :
    decode s (value :: packet) =
      ((decode (decodeByte s value).1 packet).1,
        (decodeByte s value).2 ++ (decode (decodeByte s value).1 packet).2) := rfl

/-- A chunk goes on from the state behind the chunk before. -/
lemma decode_append (s : Private) (l m : Packet) :
    decode s (l ++ m) =
      ((decode (decode s l).1 m).1, (decode s l).2 ++ (decode (decode s l).1 m).2) :=
  Transducer.run_append decodeByte s l m

/-- Behind `SLIP_ESC` a byte is put back. -/
@[simp] lemma decodeByte_escaping (decoded : Packet) (value : Byte) :
    decodeByte ⟨true, decoded⟩ value = (⟨false, decoded ++ [unescape value]⟩, []) := rfl

/-- `SLIP_END` finishes the packet. -/
@[simp] lemma decodeByte_end (decoded : Packet) :
    decodeByte ⟨false, decoded⟩ SLIP_END = finish ⟨false, decoded⟩ := rfl

/-- `SLIP_ESC` waits for the next byte. -/
@[simp] lemma decodeByte_esc (decoded : Packet) :
    decodeByte ⟨false, decoded⟩ SLIP_ESC = (⟨true, decoded⟩, []) := rfl

/-- Any other byte is one of the packet. -/
lemma decodeByte_data (decoded : Packet) {value : Byte} (hend : value ≠ SLIP_END)
    (hesc : value ≠ SLIP_ESC) :
    decodeByte ⟨false, decoded⟩ value = (⟨false, decoded ++ [value]⟩, []) := by
  simp [decodeByte, hend, hesc]

end Slip
end Vng
