import Mathlib.Algebra.Ring.Parity
import Mathlib.Data.List.Induction
import Vng.Devices.Slbp

/-!
# What the SLBP decoder accepts

The decoder of `slbp::Protocol` on its own, against the frame it waits for: hexadecimal digits of
the packet and of its CRC, high byte first, then CR LF (`canonical`). After a line feed the decoder
is as new, so a stream of such frames gets through whatever came before (`decode_resume`). The
converse is not quite true: a carriage return is remembered over the digits behind it, so a line
may also carry it in the middle (`decode_wellFormed_iff`).
-/

namespace Vng
namespace Slbp

/-! ## The frame the decoder waits for -/

/-- The packet and its CRC, high byte first. -/
def sealed (packet : Packet) : Packet :=
  packet ++ [(CRC16.calculate packet >>> 8).setWidth 8, (CRC16.calculate packet).setWidth 8]

/-- The text of a packet, with the end of line that the decoder knows. -/
def canonical (packet : Packet) : Packet := hex (sealed packet) ++ [0x0D, 0x0A]

lemma length_sealed (packet : Packet) : (sealed packet).length = packet.length + 2 := by
  simp [sealed]

/-- A word is put together from its two bytes, and from no others. -/
lemma bytes_eq_iff (hi low : Byte) (crc : Word) :
    (hi.setWidth 16 <<< 8) + low.setWidth 16 = crc ↔
      hi = (crc >>> 8).setWidth 8 ∧ low = crc.setWidth 8 := by
  -- both sums are below `2^16`
  have key : ((hi.setWidth 16 <<< 8) + low.setWidth 16 : Word).toNat =
      hi.toNat * 256 + low.toNat := by
    rw [BitVec.toNat_add, BitVec.toNat_shiftLeft, BitVec.toNat_setWidth, BitVec.toNat_setWidth,
      Nat.shiftLeft_eq]
    omega
  constructor
  · rintro rfl
    constructor
    · apply BitVec.eq_of_toNat_eq
      rw [BitVec.toNat_setWidth, BitVec.toNat_ushiftRight, key, Nat.shiftRight_eq_div_pow]
      omega
    · apply BitVec.eq_of_toNat_eq
      rw [BitVec.toNat_setWidth, key]
      omega
  · rintro ⟨hhi, hlow⟩
    apply BitVec.eq_of_toNat_eq
    rw [key, hhi, hlow, BitVec.toNat_setWidth, BitVec.toNat_setWidth, BitVec.toNat_ushiftRight,
      Nat.shiftRight_eq_div_pow]
    omega

/-- The CRC is compared with the high byte first. -/
lemma finish_append (packet : Packet) (hi low : Byte) :
    finish (packet ++ [hi, low]) =
      if (hi.setWidth 16 <<< 8) + low.setWidth 16 = CRC16.calculate packet then [packet]
      else [] := by
  have hlen : (packet ++ [hi, low]).length = packet.length + 2 := by simp
  have hhi : (packet ++ [hi, low]).getD packet.length 0 = hi := by simp
  have hlow : (packet ++ [hi, low]).getD (packet.length + 1) 0 = low := by
    simp [List.getD_eq_getElem?_getD]
  unfold finish
  rw [hlen, if_neg (show ¬packet.length + 2 < 2 by omega)]
  simp only [Nat.add_sub_cancel, List.take_left, hhi, hlow, ite_not]

/-- `finish` hands out exactly the packet that was sealed. -/
lemma mem_finish {raw packet : Packet} : packet ∈ finish raw ↔ raw = sealed packet := by
  by_cases hshort : raw.length < 2
  · have hnil : finish raw = [] := by
      unfold finish
      exact if_pos hshort
    rw [hnil]
    constructor
    · intro h
      cases h
    · intro h
      rw [h, length_sealed] at hshort
      omega
  · -- the last two bytes are the CRC
    obtain ⟨front, hi, low, rfl⟩ : ∃ front hi low, raw = front ++ [hi, low] := by
      cases hrev : raw.reverse with
      | nil => simp [List.reverse_eq_nil_iff.mp hrev] at hshort
      | cons low rest =>
        cases rest with
        | nil => simp [List.reverse_eq_cons_iff.mp hrev] at hshort
        | cons hi rest => exact ⟨rest.reverse, hi, low, by simpa using congrArg List.reverse hrev⟩
    rw [finish_append, sealed]
    constructor
    · intro h
      split_ifs at h with hcrc
      · obtain rfl := List.mem_singleton.mp h
        obtain ⟨rfl, rfl⟩ := (bytes_eq_iff _ _ _).mp hcrc
        rfl
      · cases h
    · intro h
      obtain ⟨rfl, hcrc⟩ := List.append_inj' h rfl
      simp only [List.cons.injEq, and_true] at hcrc
      rw [if_pos ((bytes_eq_iff _ _ _).mpr hcrc)]
      exact List.mem_singleton_self _

/-- A packet with its own CRC is delivered. -/
lemma finish_sealed (packet : Packet) : finish (sealed packet) = [packet] := by
  rw [sealed, finish_append, if_pos ((bytes_eq_iff _ _ _).mpr ⟨rfl, rfl⟩)]

/-! ## After a line feed -/

/-- A line feed leaves nothing behind. -/
lemma decodeByte_lineFeed (s : Private) : (decodeByte s 0x0A).1 = reset := by
  unfold decodeByte
  rw [if_neg (by decide), if_pos rfl]
  split_ifs <;> rfl

/-- From the start the text of a packet gives the packet. -/
lemma decode_canonical (packet : Packet) :
    decode reset (canonical packet) = (reset, [packet]) := by
  have hend : decode ⟨false, 0, 0, sealed packet⟩ [0x0D, 0x0A] =
      (reset, finish (sealed packet)) := by
    simp [decode, decodeByte]
  rw [canonical, decode_append, reset, decode_hex, List.nil_append, hend, finish_sealed]
  rfl

/-- **The decoder recovers at a line feed.** Whatever state it is in and whatever bytes come
first, of a line feed and frames behind them it delivers the packets of the frames, in order. -/
theorem decode_resume (s : Private) (garbage : Packet) (packets chunks : List Packet)
    (h : chunks.flatten = garbage ++ 0x0A :: packets.flatMap canonical) :
    (Transducer.run decode s chunks).2 = (decode s (garbage ++ [0x0A])).2 ++ packets := by
  have hclean : (decode s (garbage ++ [0x0A])).1 = reset := by
    rw [decode_append]
    exact decodeByte_lineFeed _
  have hframes : decode reset (packets.flatMap canonical) = (reset, packets.flatMap ([·])) :=
    Transducer.run_blocks fun packet _ => decode_canonical packet
  rw [decode, Transducer.run_flatten, h, ← decode, ← List.singleton_append, ← List.append_assoc,
    decode_append, hclean, hframes]
  simp

theorem decode_resume_split :
    (Transducer.run decode ⟨true, 0x30, 1, [0x12]⟩
      [[0x0D, 0x37, 0x0A, 0x34], [0x31, 0x30], [0x31, 0x38, 0x36, 0x0D, 0x0A]]).2 = [[0x41]] :=
  decode_resume ⟨true, 0x30, 1, [0x12]⟩ [0x0D, 0x37] [[0x41]]
    [[0x0D, 0x37, 0x0A, 0x34], [0x31, 0x30], [0x31, 0x38, 0x36, 0x0D, 0x0A]] (by decide)

/-! ## Digits -/

/-- The text consists of uppercase hexadecimal digits. -/
def Digits (text : Packet) : Prop := ∀ c ∈ text, (digitValue c).isSome

/-- Digits in both parts. -/
lemma digits_append {a b : Packet} : Digits (a ++ b) ↔ Digits a ∧ Digits b :=
  List.forall_mem_append

/-- The text of bytes is made of digits. -/
lemma digits_hex (packet : Packet) : Digits (hex packet) := by
  intro c hc
  obtain ⟨value, _, hc⟩ := List.mem_flatMap.mp hc
  have hdigit : ∀ v < 16, (digitValue (digit v)).isSome := by decide
  rw [text, List.mem_pair] at hc
  rcases hc with rfl | rfl
  · exact hdigit _ (by omega)
  · exact hdigit _ (by omega)

/-- A digit is the digit of its value. -/
lemma exists_digit {c : Byte} (h : (digitValue c).isSome) : ∃ value < 16, c = digit value := by
  unfold digitValue at h
  split_ifs at h with hdecimal hletter
  · refine ⟨c.toNat - 0x30, by bv_omega, ?_⟩
    rw [digit, if_pos (by bv_omega)]
    bv_omega
  · refine ⟨c.toNat - 0x41 + 0x0A, by bv_omega, ?_⟩
    rw [digit, if_neg (by omega)]
    bv_omega
  · cases h

/-- Different packets have different texts: the decoder tells them apart. -/
lemma hex_injective {p q : Packet} (h : hex p = hex q) : p = q := by
  have hp := decode_hex false [] p
  rw [h, decode_hex] at hp
  simpa using hp.symm

/-- The digits `text` were read into `s` since its last reset. -/
inductive Holds : Packet → Private → Prop
  | whole (newline : Bool) (packet : Packet) : Holds (hex packet) ⟨newline, 0, 0, packet⟩
  | odd (newline : Bool) (packet : Packet) {value : ℕ} (h : value < 16) :
    Holds (hex packet ++ [digit value]) ⟨newline, BitVec.ofNat 8 value <<< 4, 1, packet⟩

/-- Only digits are held. -/
lemma Holds.digits {text : Packet} {s : Private} (h : Holds text s) : Digits text := by
  have hdigit : ∀ v < 16, (digitValue (digit v)).isSome := by decide
  cases h with
  | whole => exact digits_hex _
  | odd newline packet hlt =>
    refine digits_append.mpr ⟨digits_hex _, ?_⟩
    intro c hc
    rw [List.mem_singleton.mp hc]
    exact hdigit _ hlt

/-- What an even number of digits amounts to. -/
lemma Holds.eq_hex {text : Packet} {s : Private} (h : Holds text s) (hpos : s.position = 0) :
    text = hex s.packet := by
  cases h with
  | whole => rfl
  | odd => cases hpos

/-- Whole bytes are held as they are. -/
lemma Holds.of_hex {packet : Packet} {s : Private} (h : Holds (hex packet) s) :
    s.position = 0 ∧ s.packet = packet := by
  generalize htext : hex packet = text at h
  cases h with
  | whole newline decoded => exact ⟨rfl, (hex_injective htext).symm⟩
  | odd newline decoded hlt =>
    have hlen := congrArg List.length htext
    rw [List.length_append, length_hex, length_hex, List.length_singleton] at hlen
    omega

/-- A digit does not touch the flag. -/
lemma decodeByte_digit_newline (s : Private) {c : Byte} (hc : (digitValue c).isSome) :
    (decodeByte s c).1.newline = s.newline := by
  obtain ⟨value, hlt, rfl⟩ := exists_digit hc
  rw [decodeByte_digit s hlt]
  split_ifs <;> rfl

/-- One more digit. -/
lemma Holds.decodeByte {text : Packet} {s : Private} (h : Holds text s) {c : Byte}
    (hc : (digitValue c).isSome) : Holds (text ++ [c]) (decodeByte s c).1 := by
  obtain ⟨value, hlt, rfl⟩ := exists_digit hc
  rw [decodeByte_digit s hlt]
  cases h with
  | whole newline packet => simpa using Holds.odd newline packet hlt
  | @odd newline packet first hfirst =>
    -- the two digits are the text of one byte
    set byte : Byte := BitVec.ofNat 8 (first * 16 + value) with hbyte
    have hnat : byte.toNat = first * 16 + value := by
      rw [hbyte, BitVec.toNat_ofNat]
      omega
    have hhi : byte.toNat / 16 = first := by omega
    have hlow : byte.toNat % 16 = value := by omega
    have htext : hex packet ++ [digit first] ++ [digit value] = hex (packet ++ [byte]) := by
      rw [hex_append, List.append_assoc]
      simp [hex, Slbp.text, hhi, hlow]
    have hvalue : BitVec.ofNat 8 first <<< 4 + BitVec.ofNat 8 value = byte := by
      rw [← nibbles byte, hhi, hlow]
    rw [htext]
    simpa [hvalue] using Holds.whole newline (packet ++ [byte])

/-- More digits are held behind those before. -/
lemma Holds.decode {text : Packet} {s : Private} (h : Holds text s) {more : Packet}
    (hmore : Digits more) :
    Holds (text ++ more) (decode s more).1 ∧ (Slbp.decode s more).1.newline = s.newline := by
  induction more generalizing text s with
  | nil => exact ⟨by rwa [List.append_nil], rfl⟩
  | cons c more ih =>
    obtain ⟨hc, hrest⟩ := List.forall_mem_cons.mp hmore
    obtain ⟨hholds, hnewline⟩ := ih (h.decodeByte hc) hrest
    rw [List.append_assoc, List.singleton_append] at hholds
    exact ⟨hholds, hnewline.trans (decodeByte_digit_newline s hc)⟩

lemma holds_reset : Holds [] reset := .whole false []

/-- The flag has no part in what is held. -/
lemma Holds.newline {text : Packet} {s : Private} (h : Holds text s) (newline : Bool) :
    Holds text { s with newline := newline } := by
  cases h with
  | whole => exact .whole newline _
  | odd _ _ hlt => exact .odd newline _ hlt

/-! ## Lines -/

/-- The decoder holds nothing after these bytes: at the start of the stream, behind a byte that
is neither a digit nor a carriage return, and behind the second carriage return of a line. -/
inductive Opens : Packet → Prop
  | start : Opens []
  | other (before : Packet) {c : Byte} (hc : c ≠ 0x0D) (hdigit : digitValue c = none) :
    Opens (before ++ [c])
  | twice {before a b : Packet} (h : Opens before) (ha : Digits a) (hb : Digits b) :
    Opens (before ++ a ++ 0x0D :: b ++ [0x0D])

/-- What the decoder holds after the bytes `read`: the digits of the line so far, in front of
and behind a carriage return. -/
inductive Line : Packet → Private → Prop
  | digits {before a : Packet} {s : Private} (h : Opens before) (ha : Holds a s)
    (hs : s.newline = false) : Line (before ++ a) s
  | returned {before a b : Packet} {s : Private} (h : Opens before) (hab : Holds (a ++ b) s)
    (hs : s.newline = true) : Line (before ++ a ++ 0x0D :: b) s

/-- A line begins where the decoder was reset. -/
lemma Line.opened {read : Packet} (h : Opens read) : Line read reset := by
  simpa using Line.digits h holds_reset rfl

/-- The first carriage return sets the flag. -/
lemma decodeByte_return_first {s : Private} (h : s.newline = false) :
    (decodeByte s 0x0D).1 = { s with newline := true } := by
  simp [decodeByte, h]

/-- The second one resets the decoder. -/
lemma decodeByte_return_second {s : Private} (h : s.newline = true) :
    (decodeByte s 0x0D).1 = reset := by
  simp [decodeByte, h]

/-- So does every byte that is no digit. -/
lemma decodeByte_other (s : Private) {c : Byte} (hc : c ≠ 0x0D) (hdigit : digitValue c = none) :
    (decodeByte s c).1 = reset := by
  unfold decodeByte
  rw [if_neg hc]
  split_ifs
  · rfl
  · rfl
  · rw [hdigit]

/-- One byte more. -/
lemma Line.decodeByte {read : Packet} {s : Private} (h : Line read s) (c : Byte) :
    Line (read ++ [c]) (decodeByte s c).1 := by
  by_cases hcr : c = 0x0D
  · subst hcr
    cases h with
    -- the carriage return ends the digits
    | @digits before a s hopens ha hs =>
      rw [decodeByte_return_first hs]
      exact .returned hopens (by simpa using ha.newline true) rfl
    | @returned before a b s hopens hab hs =>
      obtain ⟨ha, hb⟩ := digits_append.mp hab.digits
      rw [decodeByte_return_second hs]
      exact .opened (.twice hopens ha hb)
  -- any other byte: a digit of the line, or the start of a new one
  · cases hdigit : digitValue c with
    | none =>
      rw [decodeByte_other s hcr hdigit]
      exact .opened (.other read hcr hdigit)
    | some value =>
      have hc : (digitValue c).isSome := by rw [hdigit]; rfl
      have hnewline := decodeByte_digit_newline s hc
      cases h with
      | @digits before a s hopens ha hs =>
        rw [List.append_assoc]
        exact .digits hopens (ha.decodeByte hc) (hnewline.trans hs)
      | @returned before a b s hopens hab hs =>
        rw [List.append_assoc (before ++ a), List.cons_append]
        refine .returned hopens ?_ (hnewline.trans hs)
        rw [← List.append_assoc]
        exact hab.decodeByte hc

/-- What has been read is a line, up to its end. -/
lemma line_decode (read : Packet) : Line read (decode reset read).1 := by
  induction read using List.reverseRecOn with
  | nil => exact .opened .start
  | append_singleton read c ih =>
    rw [decode_append]
    exact ih.decodeByte c

lemma decode_cons (s : Private) (c : Byte) (l : Packet) :
    (decode s (c :: l)).1 = (decode (decodeByte s c).1 l).1 := rfl

/-- A line with one carriage return, read by a decoder that holds nothing. -/
lemma decode_returned {a b : Packet} (ha : Digits a) (hb : Digits b) :
    Holds (a ++ b) (decode reset (a ++ 0x0D :: b)).1 ∧
      (decode reset (a ++ 0x0D :: b)).1.newline = true := by
  obtain ⟨hholds, hnewline⟩ := holds_reset.decode ha
  rw [List.nil_append] at hholds
  rw [decode_append, decode_cons, decodeByte_return_first hnewline]
  exact (hholds.newline true).decode hb

/-- What opens a line leaves the decoder reset. -/
lemma Opens.decode {read : Packet} (h : Opens read) : (Slbp.decode reset read).1 = reset := by
  induction h with
  | start => rfl
  | other before hc hdigit =>
    rw [decode_append]
    exact decodeByte_other _ hc hdigit
  | twice h ha hb ih =>
    rw [decode_append, List.append_assoc, decode_append, ih, decode_cons]
    exact decodeByte_return_second (decode_returned ha hb).2

/-! ## Deliveries -/

/-- What a delivery of `packet` claims of the bytes before the line feed: digits of the packet and
of its CRC, at least four and an even number of them, and one carriage return. -/
def WellFormed (read packet : Packet) : Prop :=
  ∃ before digits, read = before ++ digits ++ [0x0D] ∧ Digits digits ∧ Even digits.length ∧
    4 ≤ digits.length ∧ digits = hex (sealed packet)

/-- Each packet of the chunks is delivered behind a well-formed line. -/
def DeliversWellFormed (chunks : List Packet) : Prop :=
  ∀ done chunk rest later, chunks = done ++ (chunk ++ 0x0A :: rest) :: later →
    ∀ packet ∈ (decodeByte (decode (Transducer.run decode reset done).1 chunk).1 0x0A).2,
      WellFormed (done.flatten ++ chunk) packet

/-- A line of the stream whose digits are a packet and its CRC, but go on behind the carriage
return. -/
def Straddles (stream : Packet) : Prop :=
  ∃ before a b rest packet, stream = before ++ a ++ 0x0D :: b ++ 0x0A :: rest ∧ Opens before ∧
    a ++ b = hex (sealed packet) ∧ b ≠ []

/-- The line holds the packet, its CRC and a carriage return at its end. -/
lemma wellFormed_iff {read packet : Packet} :
    WellFormed read packet ↔ ∃ before, read = before ++ hex (sealed packet) ++ [0x0D] := by
  constructor
  · rintro ⟨before, digits, rfl, -, -, -, rfl⟩
    exact ⟨before, rfl⟩
  · rintro ⟨before, rfl⟩
    have hlen : (hex (sealed packet)).length = (packet.length + 2) * 2 := by
      rw [length_hex, length_sealed]
    exact ⟨before, _, rfl, digits_hex _, hlen ▸ even_two.mul_left _, by omega, rfl⟩

/-- What is delivered at a line feed. -/
lemma mem_decodeByte_lineFeed {s : Private} {packet : Packet} :
    packet ∈ (decodeByte s 0x0A).2 ↔
      s.newline = true ∧ s.position = 0 ∧ s.packet = sealed packet := by
  unfold decodeByte
  rw [if_neg (by decide), if_pos rfl]
  split_ifs with h
  · simp [h, mem_finish]
  · simp only [List.not_mem_nil, false_iff]
    rintro ⟨hnewline, hpos, -⟩
    exact h ⟨hnewline, hpos⟩

/-- The line that a delivery ends. -/
lemma line_of_delivered {read packet : Packet}
    (h : packet ∈ (decodeByte (decode reset read).1 0x0A).2) :
    ∃ before a b, read = before ++ a ++ 0x0D :: b ∧ Opens before ∧
      a ++ b = hex (sealed packet) := by
  obtain ⟨hnewline, hpos, hpacket⟩ := mem_decodeByte_lineFeed.mp h
  generalize hs : (decode reset read).1 = s at hnewline hpos hpacket
  have hline : Line read s := hs ▸ line_decode read
  cases hline with
  | digits hopens ha hflag => simp [hflag] at hnewline
  | @returned before a b _ hopens hab hflag =>
    exact ⟨before, a, b, rfl, hopens, hpacket ▸ hab.eq_hex hpos⟩

/-- Such a line is delivered. -/
lemma delivered_of_line {before a b packet : Packet} (hopens : Opens before)
    (hab : a ++ b = hex (sealed packet)) :
    packet ∈ (decodeByte (decode reset (before ++ a ++ 0x0D :: b)).1 0x0A).2 := by
  have hdigits : Digits (a ++ b) := hab ▸ digits_hex _
  obtain ⟨ha, hb⟩ := digits_append.mp hdigits
  obtain ⟨hholds, hnewline⟩ := decode_returned ha hb
  rw [hab] at hholds
  rw [List.append_assoc, decode_append, hopens.decode]
  exact mem_decodeByte_lineFeed.mpr ⟨hnewline, hholds.of_hex⟩

/-- The digits of a line that ends with its carriage return are in front of it. -/
lemma wellFormed_line {before a b packet : Packet} (hab : a ++ b = hex (sealed packet)) :
    WellFormed (before ++ a ++ 0x0D :: b) packet ↔ b = [] := by
  rw [wellFormed_iff]
  constructor
  · rintro ⟨before', h⟩
    by_contra hb
    -- the last byte before the line feed would be a digit and a carriage return
    have hlast := congrArg List.getLast? h
    rw [List.getLast?_append_cons, List.getLast?_concat, List.getLast?_cons_of_ne_nil hb] at hlast
    have hmem : 0x0D ∈ hex (sealed packet) :=
      hab ▸ List.mem_append_right a (List.mem_of_getLast? hlast)
    have := digits_hex _ _ hmem
    exact absurd this (by decide)
  · rintro rfl
    rw [List.append_nil] at hab
    exact ⟨before, by rw [hab]⟩

/-- Chunks are decoded from where the ones before have stopped. -/
lemma decode_chunks (done : List Packet) (chunk : Packet) :
    decode (Transducer.run decode reset done).1 chunk =
      ((decode reset (done.flatten ++ chunk)).1,
        (decode (decode reset done.flatten).1 chunk).2) := by
  rw [decode_append, decode, Transducer.run_flatten]

/-- **A delivery follows a well-formed line**, in any chunks, exactly if no line straddles its
carriage return. -/
theorem deliversWellFormed_iff (chunks : List Packet) :
    DeliversWellFormed chunks ↔ ¬Straddles chunks.flatten := by
  constructor
  · rintro h ⟨before, a, b, rest, packet, hstream, hopens, hab, hb⟩
    obtain ⟨done, chunk, rest', later, rfl, hread⟩ := Transducer.exists_chunk hstream
    have hdelivered := delivered_of_line hopens hab
    rw [← hread] at hdelivered
    have hwell := h done chunk rest' later rfl packet (by rwa [decode_chunks])
    rw [hread] at hwell
    exact hb ((wellFormed_line hab).mp hwell)
  · rintro h done chunk rest later rfl packet hpacket
    rw [decode_chunks] at hpacket
    obtain ⟨before, a, b, hread, hopens, hab⟩ := line_of_delivered hpacket
    rw [hread]
    refine (wellFormed_line hab).mpr ?_
    by_contra hb
    refine h ⟨before, a, b, rest ++ later.flatten, packet, ?_, hopens, hab, hb⟩
    rw [← hread]
    simp

/-- The packet `41` with the carriage return in front of its digits is delivered. -/
theorem deliversWellFormed_return_first :
    ¬DeliversWellFormed [[0x0D, 0x34, 0x31, 0x30, 0x31, 0x38, 0x36, 0x0A]] := by
  intro h
  have hwell := h [] [0x0D, 0x34, 0x31, 0x30, 0x31, 0x38, 0x36] [] [] rfl [0x41] (by decide)
  obtain ⟨before, digits, hread, -⟩ := hwell
  have hlast := congrArg List.getLast? hread
  rw [List.getLast?_concat] at hlast
  exact absurd hlast (by decide)

end Slbp
end Vng
