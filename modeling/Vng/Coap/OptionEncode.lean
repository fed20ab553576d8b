import Vng.Host
import Vng.Lib.OptionList

/-!
# Writing an option of a CoAP message

`coap_opt_encode` writes an option into the room that is left in the buffer. `coap_opt_setheader`
takes 269 for a value that one byte behind the header can say, and asks for the room of the length
without the first byte of the option.
-/

namespace Vng.Libcoap

open Memory OptionList

/-- The first half of `coap_opt_setheader`: how many bytes follow the first one so far; `none`
where there is no room. -/
def setDelta {n : ℕ} (buffer : Vector Byte n) (opt maxlen delta : ℕ) :
    Checked (Option (Vector Byte n × ℕ)) :=
  if delta < 13 then do
    let buffer ← storeAll buffer opt [BitVec.ofNat 8 (delta * 16)]
    .ok (some (buffer, 0))
  else if delta < 270 then
    if maxlen < 2 then .ok none else do
      let buffer ← storeAll buffer opt [0xD0, BitVec.ofNat 8 (delta - 13)]
      .ok (some (buffer, 1))
  else
    if maxlen < 3 then .ok none else do
      let buffer ← storeAll buffer opt
        [0xE0, BitVec.ofNat 8 ((delta - 269) / 256), BitVec.ofNat 8 (delta - 269)]
      .ok (some (buffer, 2))

/-- The second half: the room is asked for without the first byte. -/
def setLength {n : ℕ} (buffer : Vector Byte n) (opt maxlen skip length : ℕ) :
    Checked (Option (Vector Byte n × ℕ)) :=
  if length < 13 then do
    let first ← load buffer opt
    let buffer ← store buffer opt (first ||| BitVec.ofNat 8 length)
    .ok (some (buffer, skip + 1))
  else if length < 270 then
    if maxlen < skip + 1 then .ok none else do
      let first ← load buffer opt
      let buffer ← store buffer opt (first ||| 0x0D)
      let buffer ← storeAll buffer (opt + skip + 1) [BitVec.ofNat 8 (length - 13)]
      .ok (some (buffer, skip + 2))
  else
    if maxlen < skip + 2 then .ok none else do
      let first ← load buffer opt
      let buffer ← store buffer opt (first ||| 0x0E)
      let buffer ← storeAll buffer (opt + skip + 1)
        [BitVec.ofNat 8 ((length - 269) / 256), BitVec.ofNat 8 (length - 269)]
      .ok (some (buffer, skip + 3))

/-- `coap_opt_setheader`. -/
def coapOptSetheader {n : ℕ} (buffer : Vector Byte n) (opt maxlen delta length : ℕ) :
    Checked (Option (Vector Byte n × ℕ)) :=
  if maxlen = 0 then .ok none else do
    match ← setDelta buffer opt maxlen delta with
    | none => .ok none
    | some (buffer, skip) => setLength buffer opt maxlen skip length

/-- The buffer and the number of bytes written; `none` where the source returns 0. -/
def coapOptEncode {n : ℕ} (buffer : Vector Byte n) (opt maxlen delta : ℕ) (val : List Byte) :
    Checked (Option (Vector Byte n × ℕ)) := do
  match ← coapOptSetheader buffer opt maxlen delta val.length with
  | none => .ok none
  | some (buffer, l) =>
    -- `assert(l <= maxlen)`
    if maxlen < l then .error .assertion
    else if maxlen - l < val.length then .ok none
    else do
      let buffer ← storeAll buffer (opt + l) val
      .ok (some (buffer, l + val.length))

/-! ## Writing an option -/

/-- What a field is written as: 269 does not get the two bytes it needs. -/
def spoken (v : ℕ) : ℕ := if v = 269 then 13 else v

/-- The bytes behind the first one that a field takes. -/
def extra (v : ℕ) : ℕ := (extension (spoken v)).length

section Encode

variable {n opt maxlen skip delta length : ℕ} {buffer : Vector Byte n} {pre room val : List Byte}

lemma spoken_of_ne {v : ℕ} (h : v ≠ 269) : spoken v = v := if_neg h

/-- No, one or two extra bytes. -/
lemma extra_eq (v : ℕ) : extra v = if v < 13 then 0 else if v < 270 then 1 else 2 := by
  unfold extra spoken
  rw [length_extension]
  split_ifs <;> omega

/-- The extra bytes that are written. -/
lemma extension_spoken (v : ℕ) :
    extension (spoken v) =
      if v < 13 then []
      else if v < 270 then [BitVec.ofNat 8 (v - 13)]
      else [BitVec.ofNat 8 ((v - 269) / 256), BitVec.ofNat 8 (v - 269)] := by
  by_cases h : v = 269
  · subst h
    rfl
  · rw [spoken_of_ne h, extension]
    split_ifs <;> first | rfl | omega

/-- The announcement that is written. -/
lemma nibble_spoken (v : ℕ) :
    nibble (spoken v) = if v < 13 then v else if v < 270 then 13 else 14 := by
  by_cases h : v = 269
  · subst h
    rfl
  · rw [spoken_of_ne h, nibble]
    split_ifs <;> omega

/-- The two nibbles of a header. -/
lemma ofNat_or (a b : Fin 16) :
    BitVec.ofNat 8 (a * 16) ||| BitVec.ofNat 8 b = BitVec.ofNat 8 (a * 16 + b) := by
  revert a b
  decide

lemma header_eq_or (d l : ℕ) :
    BitVec.ofNat 8 (nibble d * 16) ||| BitVec.ofNat 8 (nibble l) = header d l :=
  ofNat_or ⟨nibble d, (nibble_lt_fifteen d).trans (by decide)⟩
    ⟨nibble l, (nibble_lt_fifteen l).trans (by decide)⟩

/-- The distance: refused, or its header and its extra bytes are stored. -/
lemma setDelta_eq (hmax : 1 ≤ maxlen) :
    setDelta buffer opt maxlen delta =
      if maxlen < 1 + extra delta then .ok none
      else storeAll buffer opt
          (BitVec.ofNat 8 (nibble (spoken delta) * 16) :: extension (spoken delta)) >>=
        fun buffer => .ok (some (buffer, extra delta)) := by
  rw [setDelta, extra_eq, nibble_spoken, extension_spoken]
  split_ifs <;> first | rfl | omega

/-- The length: refused, or its announcement is put into the header, and its extra bytes behind. -/
lemma setLength_eq (hskip : skip < maxlen) :
    setLength buffer opt maxlen skip length =
      if maxlen < skip + extra length then .ok none
      else load buffer opt >>= fun first =>
        store buffer opt (first ||| BitVec.ofNat 8 (nibble (spoken length))) >>= fun buffer =>
          storeAll buffer (opt + skip + 1) (extension (spoken length)) >>= fun buffer =>
            .ok (some (buffer, skip + 1 + extra length)) := by
  rw [setLength, extra_eq, nibble_spoken, extension_spoken]
  split_ifs <;> first | rfl | omega

/-- What is written for an option. -/
def written (delta : ℕ) (val : List Byte) : List Byte :=
  header (spoken delta) (spoken val.length) ::
    (extension (spoken delta) ++ (extension (spoken val.length) ++ val))

lemma length_written (delta : ℕ) (val : List Byte) :
    (written delta val).length = 1 + extra delta + extra val.length + val.length := by
  simp only [written, List.length_cons, List.length_append, extra]
  omega

/-- Without a field of 269, what is written is what was meant. -/
lemma written_eq_encodeOne (hdelta : delta ≠ 269) (hlength : val.length ≠ 269) :
    written delta val = encodeOne delta val := by
  rw [written, spoken_of_ne hdelta, spoken_of_ne hlength, encodeOne]

/-- The header would end one byte behind the room, and the test misses it. -/
def Spills (maxlen delta length : ℕ) : Prop :=
  0 < extra length ∧ maxlen = extra delta + extra length

instance (maxlen delta length : ℕ) : Decidable (Spills maxlen delta length) :=
  inferInstanceAs (Decidable (_ ∧ _))

/-- Bytes that fit the room are stored in front of what is left of it. -/
lemma storeAll_room (xs : List Byte) (h : buffer.toList = pre ++ room)
    (hlength : xs.length ≤ room.length) :
    ∃ buffer', storeAll buffer pre.length xs = .ok buffer' ∧
      buffer'.toList = pre ++ xs ++ room.drop xs.length := by
  have hsplit : buffer.toList = pre ++ room.take xs.length ++ room.drop xs.length := by
    rw [h, List.append_assoc, List.take_append_drop]
  exact storeAll_eq_ok xs hsplit (List.length_take_of_le hlength)

lemma length_room (h : buffer.toList = pre ++ room) : pre.length + room.length = n := by
  have := congrArg List.length h
  rw [Vector.length_toList, List.length_append] at this
  omega

/-- The delta goes into the room. -/
lemma setDelta_eq_ok (h : buffer.toList = pre ++ room) (hroom : 1 + extra delta ≤ room.length) :
    ∃ buffer', setDelta buffer pre.length room.length delta = .ok (some (buffer', extra delta)) ∧
      buffer'.toList = pre ++ BitVec.ofNat 8 (nibble (spoken delta) * 16) ::
        (extension (spoken delta) ++ room.drop (1 + extra delta)) := by
  obtain ⟨buffer', hstore, hlist⟩ := storeAll_room
    (BitVec.ofNat 8 (nibble (spoken delta) * 16) :: extension (spoken delta)) h
    (by rw [List.length_cons, ← extra]; omega)
  refine ⟨buffer', ?_, ?_⟩
  · rw [setDelta_eq (by omega), if_neg (by omega), hstore]
    rfl
  · rw [hlist, List.length_cons, ← extra, Nat.add_comm (extra delta) 1, List.append_assoc,
      List.cons_append]

/-- The length goes behind it, or behind the room. -/
lemma setLength_cases (length : ℕ) {first : Byte} {mid post : List Byte}
    (h : buffer.toList = pre ++ first :: (mid ++ post)) :
    (extra length ≤ post.length →
      ∃ buffer', setLength buffer pre.length (1 + mid.length + post.length) mid.length length =
          .ok (some (buffer', mid.length + 1 + extra length)) ∧
        buffer'.toList = pre ++ (first ||| BitVec.ofNat 8 (nibble (spoken length))) ::
          (mid ++ (extension (spoken length) ++ post.drop (extra length)))) ∧
    (extra length = post.length + 1 →
      ¬ Succeeds (setLength buffer pre.length (1 + mid.length + post.length) mid.length length)) ∧
    (post.length + 1 < extra length →
      setLength buffer pre.length (1 + mid.length + post.length) mid.length length = .ok none) := by
  rw [setLength_eq (by omega)]
  have hload := load_eq_ok h
  obtain ⟨buffer₁, hstore, hlist⟩ :=
    store_eq_ok (first ||| BitVec.ofNat 8 (nibble (spoken length))) h
  have hlist' : buffer₁.toList =
      (pre ++ (first ||| BitVec.ofNat 8 (nibble (spoken length))) :: mid) ++ post := by
    rw [hlist, List.append_assoc, List.cons_append]
  have hplace : (pre ++ (first ||| BitVec.ofNat 8 (nibble (spoken length))) :: mid).length =
      pre.length + mid.length + 1 := by
    rw [List.length_append, List.length_cons]
    omega
  -- it fits, it is one byte too long for the room, or it is refused
  refine ⟨fun hfits => ?_, fun hone => ?_, fun hmore => ?_⟩
  · obtain ⟨buffer', hrest, hlist''⟩ := storeAll_room (extension (spoken length)) hlist' hfits
    rw [hplace] at hrest
    refine ⟨buffer', ?_, ?_⟩
    · rw [if_neg (by omega), hload, ok_bind, hstore, ok_bind, hrest, ok_bind]
    · rw [hlist'', ← extra, List.append_assoc, List.append_assoc, List.cons_append]
  · rw [if_neg (by omega), hload, ok_bind, hstore, ok_bind]
    intro hsucceeds
    obtain ⟨buffer', hrest, -⟩ := succeeds_bind_iff.mp hsucceeds
    have hne : extension (spoken length) ≠ [] := by
      intro hnil
      rw [extra, hnil, List.length_nil] at hone
      omega
    have hle := le_of_storeAll_eq_ok hrest hne
    have hn := length_room hlist'
    rw [hplace] at hn
    rw [← extra] at hle
    omega
  · rw [if_pos (by omega)]

/-- Where the delta fits, the length decides. -/
lemma coapOptSetheader_cases (length : ℕ) (h : buffer.toList = pre ++ room)
    (hdelta : 1 + extra delta ≤ room.length) :
    (1 + extra delta + extra length ≤ room.length →
      ∃ buffer', coapOptSetheader buffer pre.length room.length delta length =
          .ok (some (buffer', 1 + extra delta + extra length)) ∧
        buffer'.toList = pre ++ header (spoken delta) (spoken length) ::
          (extension (spoken delta) ++ (extension (spoken length) ++
            room.drop (1 + extra delta + extra length)))) ∧
    (room.length = extra delta + extra length →
      ¬ Succeeds (coapOptSetheader buffer pre.length room.length delta length)) ∧
    (room.length < extra delta + extra length →
      coapOptSetheader buffer pre.length room.length delta length = .ok none) := by
  obtain ⟨buffer₁, hset, hlist⟩ := setDelta_eq_ok h hdelta
  have hmax : 1 + (extension (spoken delta)).length + (room.drop (1 + extra delta)).length =
      room.length := by
    rw [List.length_drop, ← extra]
    omega
  obtain ⟨hfits, hone, hmore⟩ := setLength_cases length hlist
  -- the distance fits, so what remains is to store the length
  have hrun : coapOptSetheader buffer pre.length room.length delta length =
      setLength buffer₁ pre.length (1 + (extension (spoken delta)).length +
        (room.drop (1 + extra delta)).length) (extension (spoken delta)).length length := by
    rw [coapOptSetheader, if_neg (by omega), hset, hmax]
    rfl
  rw [hrun]
  rw [List.length_drop] at hfits hone hmore ⊢
  refine ⟨fun h => ?_, fun h => hone (by omega), fun h => hmore (by omega)⟩
  obtain ⟨buffer', hset', hlist'⟩ := hfits (by omega)
  refine ⟨buffer', ?_, ?_⟩
  · rw [hset', ← extra, Nat.add_comm (extra delta) 1]
  · rw [hlist', header_eq_or, List.drop_drop]

/-- **What `coap_opt_encode` writes.** It writes an option that fits in the room, refuses one that
does not, and goes beyond the room exactly where the header alone is one byte too long for it. -/
theorem coapOptEncode_cases (delta : ℕ) (val : List Byte) (h : buffer.toList = pre ++ room) :
    ((written delta val).length ≤ room.length →
      ∃ buffer', coapOptEncode buffer pre.length room.length delta val =
          .ok (some (buffer', (written delta val).length)) ∧
        buffer'.toList = pre ++ (written delta val ++ room.drop (written delta val).length)) ∧
    (Spills room.length delta val.length →
      ¬ Succeeds (coapOptEncode buffer pre.length room.length delta val)) ∧
    (room.length < (written delta val).length → ¬ Spills room.length delta val.length →
      coapOptEncode buffer pre.length room.length delta val = .ok none) := by
  rw [length_written]
  -- whether there is room for the distance
  by_cases hdelta : 1 + extra delta ≤ room.length
  · obtain ⟨hfits, hone, hmore⟩ := coapOptSetheader_cases val.length h hdelta
    refine ⟨fun hle => ?_, fun hspills => ?_, fun hlt hnot => ?_⟩
    · obtain ⟨buffer₁, hset, hlist⟩ := hfits (by omega)
      -- behind the header the value fills the room
      have hlist' : buffer₁.toList = (pre ++ header (spoken delta) (spoken val.length) ::
          (extension (spoken delta) ++ extension (spoken val.length))) ++
            room.drop (1 + extra delta + extra val.length) := by
        rw [hlist]
        simp only [List.append_assoc, List.cons_append]
      obtain ⟨buffer', hstore, hlist''⟩ := storeAll_room val hlist'
        (by rw [List.length_drop]; omega)
      have hplace : (pre ++ header (spoken delta) (spoken val.length) ::
          (extension (spoken delta) ++ extension (spoken val.length))).length =
            pre.length + (1 + extra delta + extra val.length) := by
        simp only [List.length_append, List.length_cons, extra]
        omega
      rw [hplace] at hstore
      refine ⟨buffer', ?_, ?_⟩
      · rw [coapOptEncode, hset, ok_bind]
        simp only [hstore, ok_bind]
        rw [if_neg (by omega), if_neg (by omega)]
      · rw [hlist'', List.drop_drop]
        simp only [written, List.append_assoc, List.cons_append]
    -- the header ends behind the room, and its store faults
    · rw [coapOptEncode]
      intro hsucceeds
      obtain ⟨r, hset, -⟩ := succeeds_bind_iff.mp hsucceeds
      exact hone hspills.2 ⟨r, hset⟩
    -- the header is refused, or there is no room for the value
    · rcases Nat.lt_or_ge room.length (extra delta + extra val.length) with hshort | hge
      · rw [coapOptEncode, hmore hshort]
        rfl
      · have hheader : 1 + extra delta + extra val.length ≤ room.length := by
          by_contra hcontra
          exact hnot ⟨by omega, by omega⟩
        obtain ⟨buffer₁, hset, -⟩ := hfits hheader
        rw [coapOptEncode, hset, ok_bind]
        dsimp only
        rw [if_neg (by omega), if_pos (by omega)]
  · have hnone : coapOptSetheader buffer pre.length room.length delta val.length = .ok none := by
      rcases Nat.eq_zero_or_pos room.length with hzero | hpos
      · rw [coapOptSetheader, if_pos hzero]
      · rw [coapOptSetheader, if_neg (by omega), setDelta_eq hpos, if_pos (by omega)]
        rfl
    refine ⟨fun hle => by omega, fun hspills => ?_, fun _ _ => ?_⟩
    · have := hspills.1
      have := hspills.2
      omega
    · rw [coapOptEncode, hnone]
      rfl

end Encode

end Vng.Libcoap
