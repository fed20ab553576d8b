import Vng.Host
import Vng.Lib.Memory
import Vng.Lib.Transducer
import Vng.Utils.Crc16

/-!
# `devices::slbp::Protocol`

The line-based framing of `devicesprotocol.cpp`: packet and CRC in upper-case hexadecimal, then
a terminator. The two sides were written apart and differ twice. The encoder ends a line with
LF CR, the decoder waits for CR LF; and the encoder writes the low byte of the CRC first, the
decoder reads the high byte first. `decode_frames` says what is left of a stream of frames.
-/

namespace Vng
namespace Slbp

open Memory (Checked store storeAll ok_bind)

/-- `devices::Protocol::Packet`. -/
abbrev Packet := List Byte

/-! ## Encoding -/

/-- A digit of `sprintf("%02X")`. -/
def digit (value : ℕ) : Byte :=
  if value < 10 then 0x30 + BitVec.ofNat 8 value else 0x41 + BitVec.ofNat 8 (value - 10)

/-- `sprintf(text, "%02X", value)`. -/
def text (value : Byte) : List Byte := [digit (value.toNat / 16), digit (value.toNat % 16)]

variable {n : ℕ}

/-- The two printing loops of `encode`. -/
def encodeInto (output : Vector Byte n) (position : ℕ) : Packet → Checked (Vector Byte n × ℕ)
  | [] => .ok (output, position)
  | value :: packet => do
    let output ← storeAll output position (text value)
    encodeInto output (position + 2) packet

def encode (packet : Packet) : Checked Packet := do
  let crc := CRC16.calculate packet
  let output ← resize (packet.length * 2 + 2 * 2 + 2)
  let (output, position) ← encodeInto output 0 packet
  let (output, position) ← encodeInto output position (wordBytes crc)
  let output ← storeAll output position [0x0A, 0x0D]
  return output.toList

/-! ## Decoding -/

structure Private where
  newline : Bool
  value : Byte
  position : ℕ
  packet : Packet
deriving DecidableEq, Repr

/-- The state of a new decoder, and after `reset()`. -/
def reset : Private := ⟨false, 0, 0, []⟩

/-- `finish`: the packets handed to the `Decoded` callback. -/
def finish (packet : Packet) : List Packet :=
  let rawSize := packet.length
  if rawSize < 2 then []
  else
    let size := rawSize - 2
    let lowByte : Word := (packet.getD size 0).setWidth 16
    let hiByte : Word := (packet.getD (size + 1) 0).setWidth 16
    let sourceCrc := (lowByte <<< 8) + hiByte
    let calculatedCrc := CRC16.calculate (packet.take size)
    if sourceCrc ≠ calculatedCrc then [] else [packet.take size]

/-- What `decode` takes a character for. -/
def digitValue (character : Byte) : Option Byte :=
  if 0x30 ≤ character ∧ character ≤ 0x39 then some (character - 0x30)
  else if 0x41 ≤ character ∧ character ≤ 0x46 then some (character - 0x41 + 0x0A)
  else none

/-- The loop body of `decode`. -/
def decodeByte (s : Private) (character : Byte) : Private × List Packet :=
  if character = 0x0D then
    if s.newline then (reset, []) else ({ s with newline := true }, [])
  else if character = 0x0A then
    if s.newline ∧ s.position = 0 then (reset, finish s.packet) else (reset, [])
  else
    match digitValue character with
    | none => (reset, [])
    | some value =>
      let value := s.value + value <<< (4 * (1 - s.position))
      let position := (s.position + 1) % 2
      if position = 0 then
        ({ s with value := 0, position := position, packet := s.packet ++ [value] }, [])
      else ({ s with value := value, position := position }, [])

/-- `decode`: the state after a chunk, and the packets delivered while it was consumed. -/
def decode : Private → Packet → Private × List Packet := Transducer.run decodeByte

/-! ## The encoder writes the frame -/

def hex (packet : Packet) : Packet := packet.flatMap text

/-- The unprinted frame: the packet and its CRC. -/
def body (packet : Packet) : Packet := packet ++ wordBytes (CRC16.calculate packet)

def frame (packet : Packet) : Packet := hex (body packet) ++ [0x0A, 0x0D]

lemma hex_cons (value : Byte) (packet : Packet) :
    hex (value :: packet) = text value ++ hex packet := rfl

lemma hex_append (p q : Packet) : hex (p ++ q) = hex p ++ hex q := List.flatMap_append

lemma length_hex (packet : Packet) : (hex packet).length = packet.length * 2 := by
  induction packet with
  | nil => rfl
  | cons value packet ih =>
    rw [hex_cons, List.length_append, ih, List.length_cons, text, List.length_cons,
      List.length_singleton]
    omega

/-- The printing loop is one copy of the printed text. -/
lemma encodeInto_eq (output : Vector Byte n) (position : ℕ) (packet : Packet) :
    encodeInto output position packet = (do
      let output ← storeAll output position (hex packet)
      return (output, position + (hex packet).length)) := by
  induction packet generalizing output position with
  | nil => rfl
  | cons value packet ih =>
    rw [encodeInto, hex_cons, Memory.storeAll_append, List.length_append]
    simp only [ih, bind_assoc, Nat.add_assoc]
    rfl

lemma length_frame (packet : Packet) : (frame packet).length = packet.length * 2 + 2 * 2 + 2 := by
  rw [frame, body, hex_append, List.length_append, List.length_append, length_hex, length_hex,
    length_wordBytes]
  rfl

/-- The two printing loops and the line end are one write of the frame. -/
lemma encode_eq (packet : Packet) :
    encode packet = (do
      let output ← resize (packet.length * 2 + 2 * 2 + 2)
      let output ← storeAll output 0 (frame packet)
      return output.toList) := by
  simp only [encode, encodeInto_eq, frame, body, hex_append, Memory.storeAll_append, bind_assoc,
    pure_bind, List.length_append, Nat.zero_add]

/-- `encode` writes the frame, and all of the frame, into its buffer. -/
theorem encode_eq_frame {packet : Packet} (h : packet.length * 2 + 6 < maxSize) :
    encode packet = .ok (frame packet) := by
  obtain ⟨output, hstore, houtput⟩ :=
    Memory.storeAll_whole (Vector.replicate _ 0) (length_frame packet)
  have hsize : packet.length * 2 + 2 * 2 + 2 < maxSize := h
  rw [encode_eq, resize, if_pos hsize, ok_bind, hstore, ok_bind, houtput]
  rfl

lemma eq_frame_of_encode {packet encoded : Packet} (h : encode packet = .ok encoded) :
    encoded = frame packet := by
  have hlt : packet.length * 2 + 6 < maxSize := by
    by_contra hge
    simp only [encode, resize, if_neg (show ¬packet.length * 2 + 2 * 2 + 2 < maxSize from hge)] at h
    cases h
  rw [encode_eq_frame hlt] at h
  exact (Except.ok.inj h).symm

/-! ## The decoder reads the frame -/

lemma digit_spec : ∀ value < 16, digit value ≠ 0x0D ∧ digit value ≠ 0x0A ∧
    digitValue (digit value) = some (BitVec.ofNat 8 value) := by
  decide

lemma decodeByte_digit (s : Private) {value : ℕ} (h : value < 16) :
    decodeByte s (digit value) =
      (if (s.position + 1) % 2 = 0 then
        { s with
          value := 0
          position := (s.position + 1) % 2
          packet := s.packet ++ [s.value + BitVec.ofNat 8 value <<< (4 * (1 - s.position))] }
      else
        { s with
          value := s.value + BitVec.ofNat 8 value <<< (4 * (1 - s.position))
          position := (s.position + 1) % 2 }, []) := by
  obtain ⟨hcr, hlf, hdigit⟩ := digit_spec value h
  unfold decodeByte
  rw [if_neg hcr, if_neg hlf, hdigit]
  dsimp only
  split_ifs <;> rfl

lemma nibbles (value : Byte) :
    BitVec.ofNat 8 (value.toNat / 16) <<< 4 + BitVec.ofNat 8 (value.toNat % 16) = value := by
  apply BitVec.eq_of_toNat_eq
  rw [BitVec.toNat_add, BitVec.toNat_shiftLeft, BitVec.toNat_ofNat, BitVec.toNat_ofNat,
    Nat.shiftLeft_eq]
  omega

lemma decode_append (s : Private) (l m : Packet) :
    decode s (l ++ m) =
      ((decode (decode s l).1 m).1, (decode s l).2 ++ (decode (decode s l).1 m).2) :=
  Transducer.run_append decodeByte s l m

/-- The text of a byte adds that byte to the packet. -/
lemma decode_text (newline : Bool) (packet : Packet) (value : Byte) :
    decode ⟨newline, 0, 0, packet⟩ (text value) = (⟨newline, 0, 0, packet ++ [value]⟩, []) := by
  unfold decode text
  rw [Transducer.run_cons, Transducer.run_cons, Transducer.run_nil,
    decodeByte_digit _ (show value.toNat / 16 < 16 by omega),
    decodeByte_digit _ (show value.toNat % 16 < 16 by omega)]
  simp [nibbles]

lemma decode_hex (newline : Bool) (decoded packet : Packet) :
    decode ⟨newline, 0, 0, decoded⟩ (hex packet) =
      (⟨newline, 0, 0, decoded ++ packet⟩, []) := by
  induction packet generalizing decoded with
  | nil => simp [hex, decode]
  | cons value packet ih =>
    rw [hex_cons, decode_append, decode_text, ih]
    simp

/-- A word with its bytes in the other order. -/
def swapped (crc : Word) : Word :=
  ((crc.setWidth 8).setWidth 16 <<< 8) + ((crc >>> 8).setWidth 8).setWidth 16

/-- The decoder reads the CRC of a frame with its bytes in the other order. -/
lemma finish_body (packet : Packet) :
    finish (body packet) =
      if swapped (CRC16.calculate packet) = CRC16.calculate packet then [packet] else [] := by
  have hlen : (body packet).length = packet.length + 2 := by simp [body]
  have htake : (body packet).take packet.length = packet := List.take_left
  have hlow : (body packet).getD packet.length 0 = (CRC16.calculate packet).setWidth 8 := by
    simp [body, wordBytes]
  have hhi : (body packet).getD (packet.length + 1) 0 =
      (CRC16.calculate packet >>> 8).setWidth 8 := by
    simp [body, wordBytes, List.getD_eq_getElem?_getD]
  unfold finish
  rw [hlen, if_neg (show ¬packet.length + 2 < 2 by omega)]
  simp only [Nat.add_sub_cancel, htake, hlow, hhi, ite_not]
  rfl

/-- A frame is looked at if a carriage return came before it, and leaves one behind. -/
lemma decode_frame (newline : Bool) (packet : Packet) :
    decode ⟨newline, 0, 0, []⟩ (frame packet) =
      (⟨true, 0, 0, []⟩, if newline then finish (body packet) else []) := by
  rw [frame, decode_append, decode_hex]
  cases newline with
  | false => rfl
  | true => simp [decode, decodeByte, reset]

/-- What arrives of a stream of frames: never the first packet, and of the others those whose
CRC reads the same in both byte orders. -/
theorem decode_frames (packets : List Packet) :
    (decode reset (packets.flatMap frame)).2 =
      packets.tail.filter fun p => swapped (CRC16.calculate p) = CRC16.calculate p := by
  have hlater : ∀ packets : List Packet, (decode ⟨true, 0, 0, []⟩ (packets.flatMap frame)).2 =
      packets.filter fun p => swapped (CRC16.calculate p) = CRC16.calculate p := by
    intro packets
    unfold decode
    rw [Transducer.run_blocks fun p _ => decode_frame true p]
    simp only [if_true, finish_body]
    induction packets with
    | nil => rfl
    | cons p packets ih =>
      rw [List.flatMap_cons, ih, List.filter_cons]
      split_ifs <;> simp_all
  rcases packets with _ | ⟨p, packets⟩
  · rfl
  · rw [List.flatMap_cons, decode_append, reset, decode_frame]
    exact hlater packets

/-- **Stream round trip.** The packets of a stream of frames arrive only if there are none. -/
theorem decode_encode_iff (packets : List Packet) :
    (∃ frames, packets.mapM encode = .ok frames ∧
      ∀ chunks : List Packet, chunks.flatten = frames.flatten →
        (Transducer.run decode reset chunks).2 = packets) ↔ packets = [] := by
  constructor
  · rintro ⟨frames, hframes, hdecode⟩
    have hmap := Memory.eq_map_of_mapM_eq_ok (fun _ _ => eq_frame_of_encode) hframes
    have harrives := hdecode frames rfl
    rw [decode, Transducer.run_flatten, hmap, ← List.flatMap_def] at harrives
    rw [← decode, decode_frames] at harrives
    -- the first packet is missing
    have hle := congrArg List.length harrives
    have hfilter := List.length_filter_le
      (fun p => decide (swapped (CRC16.calculate p) = CRC16.calculate p)) packets.tail
    rw [hle, List.length_tail] at hfilter
    exact List.eq_nil_of_length_eq_zero (by omega)
  · rintro rfl
    refine ⟨[], rfl, fun chunks hchunks => ?_⟩
    rw [decode, Transducer.run_flatten, hchunks]
    rfl

/-- Of two frames put one after another neither is delivered. -/
theorem decode_encode_lost :
    [[0x41], [0x41]].mapM encode =
        .ok [[0x34, 0x31, 0x38, 0x36, 0x30, 0x31, 0x0A, 0x0D],
          [0x34, 0x31, 0x38, 0x36, 0x30, 0x31, 0x0A, 0x0D]] ∧
      (Transducer.run decode reset [[0x34, 0x31, 0x38, 0x36, 0x30, 0x31, 0x0A, 0x0D],
        [0x34, 0x31, 0x38, 0x36, 0x30, 0x31, 0x0A, 0x0D]]).2 = [] := by
  decide

end Slbp
end Vng
