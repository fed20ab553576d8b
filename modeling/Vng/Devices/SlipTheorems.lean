import Vng.Devices.Slip

/-!
# SLIP framing: the frame of a packet, and what the decoder makes of it

`frame` states what the encoder is for, one byte after another and without a buffer. `encode`
writes exactly the frame (`encode_eq_frame`), and the decoder, from any state that is not in the
middle of an escape, appends the packet and its CRC to what it holds and finishes
(`decode_frame`). The stream round trip `decode_encode` follows from these two.
-/

namespace Vng
namespace Slip

open Memory (Checked store ok_bind)

/-! ## The frame of a packet -/

/-- The escaped form of one byte. -/
def escape (value : Byte) : Packet :=
  if value = SLIP_END then [SLIP_ESC, SLIP_ESC_END]
  else if value = SLIP_ESC then [SLIP_ESC, SLIP_ESC_ESC]
  else if value = XON then [SLIP_ESC, SLIP_ESC_XON]
  else if value = XOFF then [SLIP_ESC, SLIP_ESC_XOFF]
  else [value]

/-- A packet with its bytes escaped. -/
def escaped (packet : Packet) : Packet := packet.flatMap escape

/-- The bytes of the CRC as they lie in memory. -/
abbrev crcBytes (packet : Packet) : Packet := wordBytes (CRC16.calculate packet)

/-- The unescaped frame: the packet and its CRC. -/
def body (packet : Packet) : Packet := packet ++ wordBytes (CRC16.calculate packet)

/-- The escaped packet with its CRC, and the byte that ends it. -/
def frame (packet : Packet) : Packet := escaped (body packet) ++ [SLIP_END]

lemma escaped_cons (value : Byte) (packet : Packet) :
    escaped (value :: packet) = escape value ++ escaped packet := rfl

/-- One part is escaped after the other. -/
lemma escaped_append (p q : Packet) : escaped (p ++ q) = escaped p ++ escaped q :=
  List.flatMap_append

/-- The sizing pass counts the bytes of the escaped form. -/
lemma encodedSize_eq (packet : Packet) : encodedSize packet = (escaped packet).length := by
  have key : ∀ position, packet.foldl (fun position value =>
      if value = SLIP_END then position + 2
      else if value = SLIP_ESC then position + 2
      else if value = XON then position + 2
      else if value = XOFF then position + 2
      else position + 1) position = position + (escaped packet).length := by
    induction packet with
    | nil => intro position; rfl
    | cons value packet ih =>
      intro position
      rw [List.foldl_cons, ih, escaped_cons, List.length_append]
      unfold escape
      split_ifs <;> simp only [List.length_cons, List.length_nil] <;> omega
  rw [encodedSize, key, Nat.zero_add]

/-- As many bytes as the first pass has counted. -/
lemma length_frame (packet : Packet) :
    (frame packet).length =
      encodedSize packet + encodedSize (wordBytes (CRC16.calculate packet)) + 1 := by
  rw [frame, body, escaped_append, encodedSize_eq, encodedSize_eq, List.length_append,
    List.length_append, List.length_singleton]

/-! ## The encoder writes the frame -/

variable {n : ℕ}

/-- The escaping pass writes one byte's escaped form and goes on behind it. -/
lemma encodeInto_cons (encoded : Vector Byte n) (start : ℕ) (value : Byte) (packet : Packet)
    (encodedSize : ℕ) :
    encodeInto encoded start (value :: packet) encodedSize = (do
      let encoded ← Memory.storeAll encoded (start + encodedSize) (escape value)
      encodeInto encoded start packet (encodedSize + (escape value).length)) := by
  rw [encodeInto]
  unfold escape
  split_ifs <;> simp [Memory.storeAll, Nat.add_assoc]

/-- The escaping pass writes the escaped form, one byte after another. -/
lemma encodeInto_eq (encoded : Vector Byte n) (start : ℕ) (packet : Packet) (size : ℕ) :
    encodeInto encoded start packet size = (do
      let encoded ← Memory.storeAll encoded (start + size) (escaped packet)
      return (encoded, size + encodedSize packet)) := by
  induction packet generalizing encoded size with
  | nil => rfl
  | cons value packet ih =>
    rw [encodeInto_cons, escaped_cons, Memory.storeAll_append, bind_assoc]
    simp only [ih, encodedSize_eq, escaped_cons, List.length_append, Nat.add_assoc]

/-- Whatever a buffer of the allocated size holds, the two passes and the end byte leave the frame
in it. -/
lemma passes_eq_ok (packet : Packet)
    (values : Vector Byte (encodedSize packet + encodedSize (crcBytes packet) + 1)) :
    ∃ values₁ values₂ values₃,
      encodeInto values 0 packet 0 = .ok (values₁, encodedSize packet) ∧
      encodeInto values₁ (encodedSize packet) (crcBytes packet) 0 =
        .ok (values₂, encodedSize (crcBytes packet)) ∧
      store values₂ (encodedSize packet + encodedSize (crcBytes packet)) SLIP_END = .ok values₃ ∧
      values₃.toList = frame packet := by
  -- together they are one write of the frame
  obtain ⟨values₃, hstore, hvalues⟩ := Memory.storeAll_whole values (length_frame packet)
  rw [frame, body, escaped_append, Memory.storeAll_append] at hstore
  obtain ⟨values₂, hparts, hend⟩ := Memory.bind_eq_ok_iff.mp hstore
  rw [Memory.storeAll_append] at hparts
  obtain ⟨values₁, hmain, hcrc⟩ := Memory.bind_eq_ok_iff.mp hparts
  rw [Nat.zero_add, ← encodedSize_eq] at hcrc
  rw [Nat.zero_add, List.length_append, ← encodedSize_eq, ← encodedSize_eq,
    Memory.storeAll_singleton] at hend
  refine ⟨values₁, values₂, values₃, ?_, ?_, hend, hvalues⟩
  · rw [encodeInto_eq, Nat.zero_add, Nat.zero_add, hmain]
    rfl
  · rw [encodeInto_eq, Nat.zero_add, Nat.add_zero (encodedSize packet), hcrc]
    rfl

/-- `encode` writes the frame, and all of the frame, into its buffer. -/
theorem encode_eq_frame {packet : Packet} (h : (frame packet).length < maxSize) :
    encode packet = .ok (frame packet) := by
  rw [length_frame] at h
  obtain ⟨values₁, values₂, values₃, hpass₁, hpass₂, hend, hvalues⟩ :=
    passes_eq_ok packet (Vector.replicate _ 0)
  unfold encode resize
  dsimp only
  rw [if_pos h, ok_bind, hpass₁, ok_bind, hpass₂, ok_bind, hend, ok_bind, hvalues]
  rfl

/-- What `encode` returns is the frame. -/
lemma eq_frame_of_encode {packet encoded : Packet} (h : encode packet = .ok encoded) :
    encoded = frame packet := by
  have hlt : (frame packet).length < maxSize := by
    by_contra hge
    rw [length_frame] at hge
    simp only [encode, resize, if_neg hge] at h
    cases h
  rw [encode_eq_frame hlt] at h
  exact (Except.ok.inj h).symm

/-! ## What the buffer holds

Nothing of what the buffer held before is left, and a frame shows `SLIP_END` only where it ends
and the two flow control bytes nowhere. -/

/-- The escaping pass makes one write for each byte that the sizing pass counts, next to each
other, and returns their number. -/
def Counted (part : Packet) : Prop :=
  ∃ written : Packet, written.length = encodedSize part ∧
    ∀ {n : ℕ} (values : Vector Byte n) (start : ℕ), encodeInto values start part 0 = (do
      let values ← Memory.storeAll values start written
      return (values, encodedSize part))

/-- The count of every part is right. -/
lemma counted (part : Packet) : Counted part := by
  refine ⟨escaped part, (encodedSize_eq part).symm, fun values start => ?_⟩
  rw [encodeInto_eq, Nat.add_zero, Nat.zero_add]

/-- A frame as the line sees it. -/
structure Transparent (encoded : Packet) : Prop where
  last : encoded.getLast? = some SLIP_END
  inner : SLIP_END ∉ encoded.dropLast
  xon : XON ∉ encoded
  xoff : XOFF ∉ encoded

/-- The bytes with a meaning on the line. -/
def Control (value : Byte) : Prop := value = SLIP_END ∨ value = XON ∨ value = XOFF

instance : DecidablePred Control := fun _ => inferInstanceAs (Decidable (_ ∨ _))

/-- No byte of an escape is a control byte of the line. -/
lemma not_control_of_mem_escape {value code : Byte} (h : code ∈ escape value) :
    ¬ Control code := by
  have hpair {second : Byte} (hsecond : ¬ Control second) (h : code ∈ [SLIP_ESC, second]) :
      ¬ Control code := by
    rcases List.mem_pair.mp h with rfl | rfl
    · decide
    · exact hsecond
  unfold escape at h
  split_ifs at h with hend hesc hxon hxoff
  · exact hpair (by decide) h
  · exact hpair (by decide) h
  · exact hpair (by decide) h
  · exact hpair (by decide) h
  · rw [List.mem_singleton.mp h]
    rintro (hcode | hcode | hcode)
    · exact hend hcode
    · exact hxon hcode
    · exact hxoff hcode

lemma not_control_of_mem_escaped {packet : Packet} {code : Byte} (h : code ∈ escaped packet) :
    ¬ Control code := by
  obtain ⟨value, -, hcode⟩ := List.mem_flatMap.mp h
  exact not_control_of_mem_escape hcode

/-- The end of a frame is its only `SLIP_END`. -/
lemma transparent_frame (packet : Packet) : Transparent (frame packet) := by
  have hbody : ∀ code ∈ escaped (body packet), ¬ Control code :=
    fun _ => not_control_of_mem_escaped
  unfold frame
  constructor
  · exact List.getLast?_concat
  · rw [List.dropLast_concat]
    exact fun h => hbody _ h (.inl rfl)
  · rw [List.mem_append, List.mem_singleton]
    rintro (h | h)
    · exact hbody _ h (.inr (.inl rfl))
    · exact absurd h (by decide)
  · rw [List.mem_append, List.mem_singleton]
    rintro (h | h)
    · exact hbody _ h (.inr (.inr rfl))
    · exact absurd h (by decide)

/-- **The encoder fills its buffer.** Either pass over the packet and over its CRC counts what it
writes; from any contents of the allocated bytes on, all writes are inside and what is there at
the end depends on the packet alone; and this is what `encode` returns if it gets its buffer. -/
theorem encode_fills (packet : Packet) :
    let mainSize := encodedSize packet
    let crcSize := encodedSize (crcBytes packet)
    Counted packet ∧ Counted (crcBytes packet) ∧
      ∃ encoded : Packet, encoded.length = mainSize + crcSize + 1 ∧
        (∀ values : Vector Byte (mainSize + crcSize + 1), ∃ values₁ values₂ values₃,
          encodeInto values 0 packet 0 = .ok (values₁, mainSize) ∧
          encodeInto values₁ mainSize (crcBytes packet) 0 = .ok (values₂, crcSize) ∧
          store values₂ (mainSize + crcSize) SLIP_END = .ok values₃ ∧
          values₃.toList = encoded) ∧
        encode packet =
          (if mainSize + crcSize + 1 < maxSize then .ok encoded else .error .lengthError) ∧
        Transparent encoded := by
  refine ⟨counted packet, counted (crcBytes packet), frame packet, length_frame packet,
    passes_eq_ok packet, ?_, transparent_frame packet⟩
  split_ifs with hsize
  · exact encode_eq_frame (by rwa [length_frame])
  · unfold encode resize
    dsimp only
    rw [if_neg hsize]
    rfl

/-- At most every byte is escaped. -/
lemma encodedSize_le (packet : Packet) : encodedSize packet ≤ 2 * packet.length := by
  rw [encodedSize_eq]
  induction packet with
  | nil => exact le_rfl
  | cons value packet ih =>
    have hvalue : (escape value).length ≤ 2 := by
      unfold escape
      split_ifs <;> simp
    rw [escaped_cons, List.length_append, List.length_cons]
    omega

/-- A `Size` of 32 bits holds what the encoder adds up, for a packet that leaves two bytes of the
lower half of the address space to the program. -/
lemma size_lt {packet : Packet} (h : packet.length + 2 < 2 ^ 31) :
    encodedSize packet + encodedSize (crcBytes packet) + 1 < 2 ^ 32 := by
  have hmain := encodedSize_le packet
  have hcrc := encodedSize_le (crcBytes packet)
  rw [length_wordBytes] at hcrc
  omega

/-! ## The decoder reads the frame -/

/-- Outside an escape, the escaped form of a byte adds that byte to the buffer. -/
lemma decode_escape (decoded : Packet) (value : Byte) :
    decode ⟨false, decoded⟩ (escape value) = (⟨false, decoded ++ [value]⟩, []) := by
  have hcodes : unescape SLIP_ESC_END = SLIP_END ∧ unescape SLIP_ESC_ESC = SLIP_ESC ∧
      unescape SLIP_ESC_XON = XON ∧ unescape SLIP_ESC_XOFF = XOFF := by decide
  obtain ⟨hcend, hcesc, hcxon, hcxoff⟩ := hcodes
  unfold escape
  split_ifs with hend hesc hxon hxoff
  · simp [hend, hcend]
  · simp [hesc, hcesc]
  · simp [hxon, hcxon]
  · simp [hxoff, hcxoff]
  · simp [decodeByte_data decoded hend hesc]

/-- What was escaped is put back. -/
lemma decode_escaped (decoded packet : Packet) :
    decode ⟨false, decoded⟩ (escaped packet) = (⟨false, decoded ++ packet⟩, []) := by
  induction packet generalizing decoded with
  | nil => simp [escaped]
  | cons value packet ih =>
    rw [escaped_cons, decode_append, decode_escape, ih]
    simp

/-- Outside an escape, a frame adds the packet and its CRC to the buffer and finishes. -/
lemma decode_frame (decoded packet : Packet) :
    decode ⟨false, decoded⟩ (frame packet) = finish ⟨false, decoded ++ body packet⟩ := by
  rw [frame, decode_append, decode_escaped]
  simp

/-- `finish` with two bytes of CRC behind the rest of the buffer. -/
lemma finish_append (escaping : Bool) (values : Packet) (lo hi : Byte) :
    finish ⟨escaping, values ++ [lo, hi]⟩ =
      (⟨escaping, []⟩, if wordOf lo hi = CRC16.calculate values then [values] else []) := by
  have hlen : (values ++ [lo, hi]).length = values.length + 2 := by simp
  have htake : (values ++ [lo, hi]).take values.length = values := List.take_left
  have hlo : (values ++ [lo, hi]).getD values.length 0 = lo := by simp
  have hhi : (values ++ [lo, hi]).getD (values.length + 1) 0 = hi := by
    simp [List.getD_eq_getElem?_getD]
  simp only [finish, hlen, if_neg (show ¬values.length + 2 < 2 by omega), Nat.add_sub_cancel,
    htake, hlo, hhi]
  split_ifs <;> rfl

/-- `finish` on a packet's body behind other bytes: delivered if the CRC happens to agree. -/
lemma finish_append_body (decoded packet : Packet) :
    finish ⟨false, decoded ++ body packet⟩ =
      (reset, if CRC16.calculate packet = CRC16.calculate (decoded ++ packet)
        then [decoded ++ packet] else []) := by
  rw [body, ← List.append_assoc, wordBytes, finish_append, wordOf_wordBytes]
  rfl

/-- From the start a frame gives its packet. -/
lemma decode_reset_frame (packet : Packet) : decode reset (frame packet) = (reset, [packet]) := by
  have h := finish_append_body [] packet
  rw [List.nil_append, List.nil_append, if_pos rfl] at h
  rw [← h]
  exact decode_frame [] packet

/-- **Stream round trip.** A decoder in its reset state, fed the frames of some packets in chunks
of any size, delivers these packets in order and ends in its reset state. -/
theorem decode_encode (packets : List Packet)
    (hsize : ∀ p ∈ packets,
      encodedSize p + encodedSize (wordBytes (CRC16.calculate p)) + 1 < 2 ^ 31) :
    ∃ frames, packets.mapM encode = .ok frames ∧
      ∀ chunks : List Packet, chunks.flatten = frames.flatten →
        Transducer.run decode reset chunks = (reset, packets) := by
  refine ⟨packets.map frame, ?_, fun chunks hchunks => ?_⟩
  · apply Memory.mapM_eq_ok
    intro p hp
    exact encode_eq_frame (by rw [length_frame]; exact hsize p hp)
  · have hblocks := Transducer.run_blocks (l := packets)
      (fun p _ => decode_reset_frame p)
    rw [decode, Transducer.run_flatten, hchunks, ← List.flatMap_def, hblocks]
    simp

theorem decode_encode_specials :
    ∃ frames, [[0xC0, 0xDB, 0xDD, 0x11, 0x13], []].mapM encode = .ok frames ∧
      ∀ chunks : List Packet, chunks.flatten = frames.flatten →
        Transducer.run decode reset chunks = (reset, [[0xC0, 0xDB, 0xDD, 0x11, 0x13], []]) :=
  decode_encode [[0xC0, 0xDB, 0xDD, 0x11, 0x13], []] (by decide)

/-! ## Resynchronisation

`SLIP_END` brings the decoder back to its reset state unless it is taken for data behind a
`SLIP_ESC`, or finds a single byte in the buffer: `finish` leaves that byte where it is. -/

/-- The packets delivered while `encoded` is consumed, after a decoder in state `s` has consumed
`garbage` and one `SLIP_END`. -/
def deliveredAfterEnd (s : Private) (garbage encoded : Packet) : List Packet :=
  let atEnd := (decode s garbage).1
  (decode (decode atEnd [SLIP_END]).1 encoded).2

/-- A frame with a CRC resets the decoder. -/
lemma finish_of_two_le {decoded : Packet} (h : 2 ≤ decoded.length) :
    (finish ⟨false, decoded⟩).1 = reset := by
  simp only [finish, if_neg (show ¬decoded.length < 2 by omega)]
  split_ifs <;> rfl

/-- A frame without one leaves it as it is. -/
lemma finish_of_lt_two {decoded : Packet} (h : decoded.length < 2) :
    finish ⟨false, decoded⟩ = (⟨false, decoded⟩, []) := if_pos h

/-- Bytes left in the buffer spoil the next frame: it is lost or delivered with them in front. -/
lemma decode_frame_ne (decoded packet : Packet) (h : decoded ≠ []) :
    (decode ⟨false, decoded⟩ (frame packet)).2 ≠ [packet] := by
  rw [decode_frame, finish_append_body]
  split_ifs
  · simpa using h
  · simp

/-- **Resynchronisation.** The frame that follows a `SLIP_END` is delivered, and nothing else,
exactly when the decoder was not in the middle of an escape and did not hold a single byte when
that `SLIP_END` arrived. -/
theorem deliveredAfterEnd_iff (s : Private) (garbage : Packet) {packet encoded : Packet}
    (h : encode packet = .ok encoded) :
    deliveredAfterEnd s garbage encoded = [packet] ↔
      (decode s garbage).1.escaping = false ∧ (decode s garbage).1.decoded.length ≠ 1 := by
  rw [eq_frame_of_encode h]
  simp only [deliveredAfterEnd]
  obtain ⟨escaping, decoded⟩ := (decode s garbage).1
  cases escaping with
  | true =>
    -- the end byte is stored as data, and the next frame starts behind it
    have hne : decoded ++ [unescape SLIP_END] ≠ [] := by simp
    simpa using decode_frame_ne _ packet hne
  | false =>
    rw [decode_cons, decodeByte_end, decode_nil]
    rcases Nat.lt_or_ge decoded.length 2 with hlt | hge
    · rw [finish_of_lt_two hlt]
      rcases decoded with _ | ⟨value, _ | ⟨next, rest⟩⟩
      · -- an empty buffer is the reset state
        have hreset := decode_reset_frame packet
        rw [reset] at hreset
        simp [hreset]
      · simpa using decode_frame_ne [value] packet (by simp)
      · simp only [List.length_cons] at hlt
        omega
    -- the end byte throws the noise away, or delivers it
    · rw [finish_of_two_le hge, decode_reset_frame]
      simp
      omega

theorem deliveredAfterEnd_noise :
    deliveredAfterEnd ⟨true, [0x05]⟩ [0x41, 0x42, 0x43] [0xDB, 0xDC, 0x80, 0x02, 0xC0] = [[0xC0]] ↔
      (decode ⟨true, [0x05]⟩ [0x41, 0x42, 0x43]).1.escaping = false ∧
        (decode ⟨true, [0x05]⟩ [0x41, 0x42, 0x43]).1.decoded.length ≠ 1 :=
  deliveredAfterEnd_iff ⟨true, [0x05]⟩ [0x41, 0x42, 0x43] (by decide)

/-- One zero byte of noise is delivered as the first byte of the frame that follows. -/
theorem deliveredAfterEnd_stale :
    encode [0x41] = .ok [0x41, 0x86, 0x01, 0xC0] ∧
      deliveredAfterEnd reset [0x00] [0x41, 0x86, 0x01, 0xC0] = [[0x00, 0x41]] ∧
      deliveredAfterEnd reset [0x00] [0x41, 0x86, 0x01, 0xC0] ≠ [[0x41]] := by
  decide

end Slip
end Vng
