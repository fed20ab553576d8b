import Vng.Devices.SlipTheorems

/-!
# Corrupted SLIP frames

A burst that stays within the packet, or within the CRC, is always noticed. The CRC register
however is shifted most significant bit first while its two bytes are sent low byte first, so a
burst across the boundary can turn one codeword into another. `finish_flipped_iff` says which
ones do: `Unseen`.
-/

namespace Vng

namespace CRC16

/-- A bit of the message is a bit of one of its bytes. -/
lemma getElem?_messageBits {r : ℕ} (hr : r < 8) (l : List Byte) (q : ℕ) :
    (messageBits l)[8 * q + r]? = l[q]?.map fun value => value.getMsbD r := by
  induction l generalizing q with
  | nil => simp
  | cons b l ih =>
    rw [messageBits_cons]
    cases q with
    | zero =>
      rw [Nat.mul_zero, Nat.zero_add, List.getElem?_append_left (by simpa using hr),
        Lfsr.getElem?_bits b hr]
      rfl
    | succ q =>
      rw [List.getElem?_append_right (by rw [Lfsr.length_bits]; omega), Lfsr.length_bits,
        show 8 * (q + 1) + r - 8 = 8 * q + r by omega, ih]
      rfl

/-- A great byte has a bit set among its highest ones. -/
lemma exists_getMsbD {value : Byte} {k : ℕ} (h : 2 ^ k ≤ value.toNat) :
    ∃ r, r + k < 8 ∧ value.getMsbD r = true := by
  by_contra hnone
  push Not at hnone
  apply Nat.not_lt.mpr h
  apply Nat.lt_pow_two_of_testBit
  intro i hi
  by_cases hlt : i < 8
  · have hbit := hnone (7 - i) (by omega)
    rw [BitVec.getMsbD_eq_getLsbD, show 8 - 1 - (7 - i) = i by omega] at hbit
    show value.getLsbD i = false
    simpa [show 7 - i < 8 by omega] using hbit
  · exact BitVec.getLsbD_of_ge value i (by omega)

lemma pow_zero_le {value : Byte} (h : value ≠ 0) : 2 ^ 0 ≤ value.toNat := by
  rw [pow_zero]
  bv_omega

/-! ## Bytes of a burst -/

variable {flips : List Byte} {i q m : ℕ} {x y : Byte}

/-- Two set bits of a burst are less than its width apart. -/
lemma lt_of_withinWindow {w r r' : ℕ} (hwin : Lfsr.WithinWindow i w (messageBits flips))
    (hr : r < 8) (hr' : r' < 8) (hx : flips[q]? = some x) (hxr : x.getMsbD r = true)
    (hy : flips[m]? = some y) (hyr : y.getMsbD r' = true) : 8 * m + r' < 8 * q + r + w := by
  have hset : (messageBits flips)[8 * q + r]? = some true := by
    rw [getElem?_messageBits hr, hx, Option.map_some, hxr]
  have hset' : (messageBits flips)[8 * m + r']? = some true := by
    rw [getElem?_messageBits hr', hy, Option.map_some, hyr]
  have := (hwin _ hset).1
  have := (hwin _ hset').2
  omega

/-- Two bytes behind a byte of at least `2 ^ k`, a 16-bit burst has left the low bits. -/
lemma lowZero_of_withinWindow {k : ℕ} (hwin : Lfsr.WithinWindow i 16 (messageBits flips))
    (hx : flips[q]? = some x) (hk : 2 ^ k ≤ x.toNat) (hy : flips[q + 2]? = some y) :
    Lfsr.LowZero (k + 1) y := by
  obtain ⟨r, hr, hxr⟩ := exists_getMsbD hk
  intro j hj
  by_contra hset
  rw [Bool.not_eq_false] at hset
  have hyr : y.getMsbD (7 - j) = true := by
    rw [BitVec.getMsbD_eq_getLsbD, decide_eq_true (show 7 - j < 8 by omega),
      show 8 - 1 - (7 - j) = j by omega, hset]
    rfl
  have := lt_of_withinWindow hwin (by omega) (by omega) hx hxr hy hyr
  omega

/-- Three bytes behind a set bit, a 16-bit burst is over. -/
lemma eq_zero_of_withinWindow (hwin : Lfsr.WithinWindow i 16 (messageBits flips))
    (hx : flips[q]? = some x) (hne : x ≠ 0) (hy : flips[m]? = some y) (hq : q + 3 ≤ m) :
    y = 0 := by
  by_contra hy0
  obtain ⟨r, hr, hxr⟩ := exists_getMsbD (pow_zero_le hne)
  obtain ⟨r', hr', hyr⟩ := exists_getMsbD (pow_zero_le hy0)
  have := lt_of_withinWindow hwin (by omega) (by omega) hx hxr hy hyr
  omega

/-! ## What the table says about short messages -/

lemma calculate_singleton (y : Byte) : calculate [y] = Lfsr.feed generator 0#16 (Lfsr.bits y) := by
  rw [calculate_eq_feed, messageBits_cons, messageBits_nil, List.append_nil]

/-- The CRC of two bytes, by linearity. -/
lemma calculate_pair (x y : Byte) : calculate [x, y] = calculate [x, 0] ^^^ calculate [y] := by
  have h := calculate_xor (show [x, 0].length = [0, y].length from rfl)
  rw [show calculate [0, y] = calculate [y] from calculate_zeros_append 1 [y]] at h
  simpa using h

/-- The remainder of one byte, computed as the table is. -/
def remainder (i : ℕ) : Word := Lfsr.feed generator 0#16 (Lfsr.bits (BitVec.ofNat 8 i))

/-- The remainder of a byte followed by a zero byte. -/
def remainder₂ (i : ℕ) : Word :=
  Lfsr.feed generator 0#16 (Lfsr.bits (BitVec.ofNat 8 i) ++ List.replicate 8 false)

lemma calculate_eq_remainder (y : Byte) : calculate [y] = remainder y.toNat := by
  rw [calculate_singleton, remainder, BitVec.ofNat_toNat, BitVec.setWidth_eq]

lemma calculate_eq_remainder₂ (x : Byte) : calculate [x, 0] = remainder₂ x.toNat := by
  rw [calculate_eq_feed, remainder₂, BitVec.ofNat_toNat, BitVec.setWidth_eq]
  rfl

/-- The masks separate the remainders of one byte from those of two. -/
lemma remainder_and : ∀ i ∈ List.range 256, remainder i &&& 0x7C00 = 0 := by decide +kernel

lemma remainder_ge : ∀ i ∈ List.range 256, 64 ≤ i → remainder i &&& 0x7F00 ≠ 0 := by
  decide +kernel

lemma remainder₂_and : ∀ i ∈ List.range 256, i ∉ [0, 63, 64, 127] → i < 128 →
    remainder₂ i &&& 0x7C00 ≠ 0 := by
  decide +kernel

/-- For the bytes that `remainder₂_and` leaves out, a second byte does not help either. -/
lemma remainder₂_xor_and :
    ∀ p ∈ ([(63, 0xFF3F), (64, 0xFF7F), (127, 0xFF7F)] : List (ℕ × Word)),
      ∀ j ∈ List.range 256, (remainder₂ p.1 ^^^ remainder j) &&& p.2 ≠ 0 := by
  decide +kernel

/-- A mask over bits that are all zero. -/
lemma wordOf_and_eq_zero {lo hi : Byte} {mask : Word}
    (h : ∀ j < 16, mask.getLsbD j = true → (wordOf lo hi).getLsbD j = false) :
    wordOf lo hi &&& mask = 0 := by
  apply BitVec.eq_of_getLsbD_eq
  intro j hj
  rw [BitVec.getLsbD_and, show (0 : Word).getLsbD j = false from BitVec.getLsbD_zero]
  by_cases hmask : mask.getLsbD j = true
  · rw [h j hj hmask, Bool.false_and]
  · rw [Bool.eq_false_iff.mpr hmask, Bool.and_false]

lemma xor_and (a b mask : Word) : (a ^^^ b) &&& mask = (a &&& mask) ^^^ (b &&& mask) := by
  apply BitVec.eq_of_toNat_eq
  rw [BitVec.toNat_and, BitVec.toNat_xor, BitVec.toNat_xor, BitVec.toNat_and, BitVec.toNat_and,
    Nat.and_xor_distrib_right]

/-- A burst that starts two bytes before the CRC does not end in the CRC of its own flips. -/
lemma calculate_pair_ne_wordOf {lo : Byte} (hx0 : x ≠ 0) (hc : calculate [x, y] ≠ 0)
    (hlow : ∀ k, 2 ^ k ≤ x.toNat → Lfsr.LowZero (k + 1) lo) :
    wordOf lo 0 ≠ calculate [x, y] := by
  intro h
  -- `mask` selects bits that the burst cannot have reached
  have hand : ∀ (k : ℕ) (mask : Word), 2 ^ k ≤ x.toNat →
      (∀ j < 16, mask.getLsbD j = true → 8 ≤ j ∨ j < k + 1) →
        (remainder₂ x.toNat ^^^ remainder y.toNat) &&& mask = 0 := by
    intro k mask hk hmask
    rw [← calculate_eq_remainder₂, ← calculate_eq_remainder, ← calculate_pair, ← h]
    apply wordOf_and_eq_zero
    intro j hj hbit
    rw [getLsbD_wordOf]
    split_ifs with hlt
    · exact hlow k hk j (by have := hmask j hj hbit; omega)
    · exact BitVec.getLsbD_zero
  have hy : y.toNat ∈ List.range 256 := List.mem_range.mpr y.isLt
  -- the greater the first byte, the fewer bits of the CRC are in reach
  by_cases hmsb : 128 ≤ x.toNat
  · have hlo : lo = 0 := Lfsr.eq_zero_of_lowZero (hlow 7 hmsb)
    rw [hlo] at h
    exact hc h.symm
  by_cases h127 : x.toNat = 127
  · have := hand 6 0xFF7F (by omega) (by decide)
    rw [h127] at this
    exact remainder₂_xor_and (127, 0xFF7F) (by decide) _ hy this
  by_cases h64 : x.toNat = 64
  · have := hand 6 0xFF7F (by omega) (by decide)
    rw [h64] at this
    exact remainder₂_xor_and (64, 0xFF7F) (by decide) _ hy this
  by_cases h63 : x.toNat = 63
  · have := hand 5 0xFF3F (by omega) (by decide)
    rw [h63] at this
    exact remainder₂_xor_and (63, 0xFF3F) (by decide) _ hy this
  · have hpos := pow_zero_le hx0
    have hmask := hand 0 0x7C00 hpos (by decide)
    rw [xor_and, remainder_and _ hy] at hmask
    refine remainder₂_and _ (List.mem_range.mpr x.isLt) ?_ (by omega) (by simpa using hmask)
    simp only [List.mem_cons, List.not_mem_nil, or_false, pow_zero] at hpos ⊢
    omega

end CRC16

namespace Slip

open CRC16 (messageBits)

/-- The flips that leave a codeword: in the low six bits of the last byte of the packet, and in
the CRC as the table has them for that byte. -/
def Unseen (flips : Packet) : Prop :=
  ∃ (n : ℕ) (y : Byte), y ≠ 0 ∧ y.toNat < 64 ∧
    flips = List.replicate n 0 ++ y :: wordBytes (CRC16.table.get ⟨y.toNat, y.isLt⟩)

/-- The CRC of one byte is an entry of the table. -/
lemma calculate_singleton_eq_table (y : Byte) :
    CRC16.calculate [y] = CRC16.table.get ⟨y.toNat, y.isLt⟩ := by
  rw [CRC16.table_get, CRC16.calculate_singleton]

/-- The flips behind leading zero bytes. -/
lemma exists_replicate_append (flips : Packet) :
    ∃ n rest, flips = List.replicate n 0 ++ rest ∧ rest.head? ≠ some 0 := by
  induction flips with
  | nil => exact ⟨0, [], rfl, by simp⟩
  | cons value flips ih =>
    by_cases h : value = 0
    · obtain ⟨n, rest, hflips, hhead⟩ := ih
      exact ⟨n + 1, rest, by rw [h, hflips, List.replicate_succ, List.cons_append], hhead⟩
    · exact ⟨0, value :: flips, rfl, by simpa using h⟩

lemma not_mem_messageBits_replicate (n : ℕ) : true ∉ messageBits (List.replicate n 0) := by
  intro h
  obtain ⟨j, hj⟩ := List.mem_iff_getElem?.mp h
  rw [← Nat.div_add_mod j 8, CRC16.getElem?_messageBits (Nat.mod_lt j (by omega)),
    List.getElem?_replicate] at hj
  split_ifs at hj with hlt
  · simp at hj
  · cases hj

/-- The CRC shows a burst that begins in the packet. -/
lemma calculate_ne_zero {n i : ℕ} {x : Byte} {tail crc : Packet} (hx : x ≠ 0)
    (hwin : Lfsr.WithinWindow i 16 (messageBits ((List.replicate n 0 ++ x :: tail) ++ crc))) :
    CRC16.calculate (x :: tail) ≠ 0 := by
  obtain ⟨r, hr, hxr⟩ := CRC16.exists_getMsbD (CRC16.pow_zero_le hx)
  have hmem : true ∈ messageBits (List.replicate n 0 ++ x :: tail) := by
    apply List.mem_of_getElem? (i := 8 * n + r)
    rw [CRC16.getElem?_messageBits (by omega)]
    simp [hxr]
  rw [CRC16.messageBits_append] at hwin
  have hburst := CRC16.calculate_burst_ne_zero hwin.of_append hmem
  rwa [CRC16.calculate_zeros_append] at hburst

/-- A burst that begins in the last byte of the packet and ends in the CRC of that byte begins in
its low six bits. -/
lemma lt_of_wordOf_eq {x lo hi : Byte} (h : wordOf lo hi = CRC16.calculate [x])
    (hlow : 2 ^ 6 ≤ x.toNat → Lfsr.LowZero 7 hi) : x.toNat < 64 := by
  by_contra hge
  have h64 : 64 ≤ x.toNat := Nat.le_of_not_lt hge
  apply CRC16.remainder_ge _ (List.mem_range.mpr x.isLt) h64
  rw [← CRC16.calculate_eq_remainder, ← h]
  apply CRC16.wordOf_and_eq_zero
  intro j hj hbit
  have hj8 : 8 ≤ j ∧ j < 15 := by
    revert hbit
    revert j
    decide
  rw [getLsbD_wordOf, if_neg (by omega)]
  exact hlow h64 (j - 8) (by omega)

/-- A burst whose flips of the CRC are the CRC of its flips of the packet is an unseen one. -/
lemma unseen_of_wordOf_eq {e : Packet} {lo hi : Byte} {i : ℕ}
    (hwin : Lfsr.WithinWindow i 16 (messageBits (e ++ [lo, hi])))
    (hne : true ∈ messageBits (e ++ [lo, hi])) (hcrc : wordOf lo hi = CRC16.calculate e) :
    Unseen (e ++ [lo, hi]) := by
  obtain ⟨n, rest, rfl, hhead⟩ := exists_replicate_append e
  rw [CRC16.calculate_zeros_append] at hcrc
  rcases rest with _ | ⟨x, tail⟩
  · -- nothing flipped in the packet, so nothing flipped in the CRC
    obtain ⟨rfl, rfl⟩ := wordOf_inj.mp (hcrc.trans (show _ = wordOf 0 0 from rfl))
    rw [List.append_nil, show [0, 0] = List.replicate 2 (0 : Byte) from rfl,
      ← List.replicate_add] at hne
    exact absurd hne (not_mem_messageBits_replicate (n + 2))
  have hx : x ≠ 0 := by simpa using hhead
  have hc := calculate_ne_zero hx hwin
  rcases tail with _ | ⟨y, _ | ⟨z, tail⟩⟩
  -- one byte of the packet is hit
  · have hlt := lt_of_wordOf_eq hcrc fun h64 =>
      CRC16.lowZero_of_withinWindow (q := n) hwin (by simp) h64 (by simp)
    refine ⟨n, x, hx, hlt, ?_⟩
    rw [← calculate_singleton_eq_table, ← hcrc, wordBytes_wordOf, List.append_assoc]
    rfl
  -- two bytes are hit, and the second byte of the CRC is out of reach
  · have hhi : hi = 0 := CRC16.eq_zero_of_withinWindow (q := n) (m := n + 3) hwin (by simp) hx
      (by simp) le_rfl
    rw [hhi] at hcrc
    refine absurd hcrc (CRC16.calculate_pair_ne_wordOf hx hc fun k hk => ?_)
    exact CRC16.lowZero_of_withinWindow (q := n) hwin (by simp) hk (by simp)
  · -- too far from the CRC to reach it
    have hzero : ∀ (k : ℕ) (value : Byte), [lo, hi][k]? = some value → value = 0 := by
      intro k value hk
      apply CRC16.eq_zero_of_withinWindow (q := n) (m := n + (tail.length + 3) + k) hwin
        (by simp) hx _ (by omega)
      rw [List.getElem?_append_right (by simp), ← hk]
      congr 1
      simp
    rw [hzero 0 lo rfl, hzero 1 hi rfl] at hcrc
    exact absurd hcrc.symm hc

/-- The flips of the packet and those of the CRC. -/
lemma exists_append_pair {flips : Packet} (h : 2 ≤ flips.length) :
    ∃ e lo hi, flips = e ++ [lo, hi] := by
  have hdrop : (flips.drop (flips.length - 2)).length = 2 := by
    rw [List.length_drop]
    omega
  obtain ⟨lo, hi, hpair⟩ := List.length_eq_two.mp hdrop
  exact ⟨flips.take (flips.length - 2), lo, hi, by rw [← hpair, List.take_append_drop]⟩

/-- `finish` accepts a damaged body whose two CRC flips are the CRC of the packet's flips. -/
lemma finish_zipWith {packet e : Packet} (h : packet.length = e.length) (lo hi : Byte) :
    (finish ⟨false, List.zipWith (· ^^^ ·) (packet ++ wordBytes (CRC16.calculate packet))
      (e ++ [lo, hi])⟩).2 =
      if wordOf lo hi = CRC16.calculate e then [List.zipWith (· ^^^ ·) packet e] else [] := by
  rw [List.zipWith_append h, wordBytes, List.zipWith_cons_cons, List.zipWith_cons_cons,
    List.zipWith_nil_left, finish_append, wordOf_xor, wordOf_wordBytes, CRC16.calculate_xor h]
  simp only [BitVec.xor_right_inj]

/-- **Corruption.** A frame hit by a burst of at most 16 bits is dropped, unless the burst is one
of the unseen ones; then the damaged packet is delivered. -/
theorem finish_flipped_iff (packet flips : Packet) (i : ℕ)
    (hlen : flips.length = (body packet).length)
    (hwin : Lfsr.WithinWindow i 16 (messageBits flips)) (hne : true ∈ messageBits flips) :
    (finish ⟨false, List.zipWith (· ^^^ ·) (body packet) flips⟩).2 = [] ↔ ¬ Unseen flips := by
  rw [body, List.length_append, length_wordBytes] at hlen
  obtain ⟨e, lo, hi, rfl⟩ := exists_append_pair (show 2 ≤ flips.length by omega)
  have hpacket : packet.length = e.length := by simpa using hlen.symm
  rw [body, finish_zipWith hpacket]
  constructor
  · rintro h ⟨n, y, -, -, hflips⟩
    -- the flips of the CRC are the CRC of the flips of the packet
    have hsplit : e ++ [lo, hi] = (List.replicate n 0 ++ [y]) ++
        wordBytes (CRC16.table.get ⟨y.toNat, y.isLt⟩) := by
      rw [hflips, List.append_assoc]
      rfl
    obtain ⟨he, hcrc⟩ := List.append_inj' hsplit rfl
    rw [he, CRC16.calculate_zeros_append, calculate_singleton_eq_table,
      if_pos (wordOf_eq_iff.mpr hcrc)] at h
    exact List.cons_ne_nil _ _ h
  -- what is not seen would be one of the bursts named by `Unseen`
  · intro h
    rw [if_neg]
    intro hcrc
    exact h (unseen_of_wordOf_eq hwin hne hcrc)

theorem finish_flipped_boundary :
    (finish ⟨false, List.zipWith (· ^^^ ·) (body [0x41]) [0x01, 0x80, 0x00]⟩).2 = [] ↔
      ¬ Unseen [0x01, 0x80, 0x00] :=
  finish_flipped_iff [0x41] [0x01, 0x80, 0x00] 7 rfl (by decide) (by decide)

/-- Four flipped bits turn the frame of one packet into the frame of another. -/
theorem finish_flipped_unseen :
    Lfsr.WithinWindow 6 16 (messageBits [0x03, 0x0A, 0x00]) ∧
      true ∈ messageBits [0x03, 0x0A, 0x00] ∧
      (finish ⟨false, List.zipWith (· ^^^ ·) (body [0x41]) [0x03, 0x0A, 0x00]⟩).2 = [[0x42]] := by
  decide

end Slip
end Vng
