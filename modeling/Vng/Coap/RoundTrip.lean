import Vng.Coap.Iterator

/-!
# What is sent and what is received

A message that was built option by option is sent, parsed and read again. It says the same as long
as no distance and no length is 269: `coap_opt_setheader` gives that number a byte too few.
-/

namespace Vng.Libcoap

open Memory OptionList CoapMessage

/-- What can be asked of a message. -/
structure Contents where
  type : ℕ
  code : Byte
  id : List Byte
  token : List Byte
  options : List (Word × List Byte)
  payload : List Byte
deriving DecidableEq, Repr

/-- The fields of the header, the token, the options one after another and `coap_get_data`. -/
def contents {n : ℕ} (pdu : Pdu n) : Checked Contents := do
  let first ← loadAt pdu.hdr.toList 0
  let code ← loadAt pdu.hdr.toList 1
  let id ← loadAll pdu.hdr.toList 2 2
  let token ← loadAll pdu.hdr.toList 4 (tokenLength first)
  let options ← options pdu none
  let payload ← coapGetData pdu
  .ok ⟨first.toNat / 16 % 4, code, id, token, options, payload⟩

/-- What the endpoint is given of a message. -/
def sent {n : ℕ} (pdu : Pdu n) : List Byte := pdu.hdr.toList.take pdu.length

def receive (msg : List Byte) : Checked (Option Contents) := do
  match ← coapHandleMessage msg with
  | none => .ok none
  | some pdu => do
    let contents ← contents pdu
    .ok (some contents)

/-- What a message says. -/
def said (m : Message) : Contents where
  type := m.type
  code := m.code
  id := [m.id.1, m.id.2]
  token := m.token
  options := wrapped 0 m.items
  payload := m.payload

/-- No distance and no length is 269. -/
def Sayable (number : ℕ) : List (Word × List Byte) → Prop
  | [] => True
  | o :: options => o.1.toNat - number ≠ 269 ∧ o.2.length ≠ 269 ∧ Sayable o.1.toNat options

instance decidableSayable (number : ℕ) :
    (options : List (Word × List Byte)) → Decidable (Sayable number options)
  | [] => isTrue trivial
  | o :: options =>
    have := decidableSayable o.1.toNat options
    inferInstanceAs (Decidable (_ ∧ _ ∧ _))

/-! ## Reading a message -/

section Receive

variable {maxSize : ℕ} {pdu pdu' : Pdu maxSize} {m : Message} {msg : List Byte} {c : Contents}

lemma drop_suffix {xs ys zs old : List Byte} (h : xs = ys ++ zs) :
    (xs ++ old).drop (xs.length - zs.length) = zs ++ old := by
  rw [h, List.length_append, Nat.add_sub_cancel, List.append_assoc, List.drop_left]

lemma encode_eq_append_payload (hne : m.payload ≠ []) :
    m.encode = (firstByte m.version m.type m.token.length :: m.code :: m.id.1 :: m.id.2 ::
      (m.token ++ (encode m.items ++ [marker]))) ++ m.payload := by
  rw [Message.encode, Message.body, payloadPart, if_neg hne]
  simp only [List.cons_append, List.append_assoc, List.nil_append]

lemma Received.getData (h : Received pdu pdu' m) : coapGetData pdu' = .ok m.payload := by
  rw [coapGetData, h.data, h.length]
  by_cases hnil : m.payload = []
  · rw [if_pos hnil, hnil]
  · rw [if_neg hnil]
    dsimp only
    have hsplit : pdu'.hdr.toList.drop (m.encode.length - m.payload.length) =
        m.payload ++ pdu.hdr.toList.drop m.encode.length := by
      rw [h.hdr]
      exact drop_suffix (encode_eq_append_payload hnil)
    have hlength := congrArg List.length (encode_eq_append_payload hnil)
    have hsize := h.length_le
    rw [List.length_append] at hlength
    rw [Nat.sub_sub_self (by omega)]
    exact loadAll_of_drop hsplit (by rw [Vector.length_toList]; omega)

lemma Received.toList (h : Received pdu pdu' m) :
    pdu'.hdr.toList = firstByte m.version m.type m.token.length :: m.code :: m.id.1 :: m.id.2 ::
      (m.token ++ (m.body ++ pdu.hdr.toList.drop m.encode.length)) := by
  rw [h.hdr, Message.encode]
  simp only [List.cons_append, List.append_assoc]

lemma Received.loadToken (h : Received pdu pdu' m) :
    loadAll pdu'.hdr.toList 4 m.token.length = .ok m.token := by
  have hsize := h.length_le
  have hlength := length_encode m
  exact loadAll_of_drop (congrArg (List.drop 4) h.toList) (by rw [Vector.length_toList]; omega)

/-- What is read from a received message is what it says. -/
lemma Received.contents (h : Received pdu pdu' m) (hitems : Walkable m.items) :
    contents pdu' = .ok (said m) := by
  have hsize := h.length_le
  have hlength := length_encode m
  have hcode : loadAt pdu'.hdr.toList 1 = .ok m.code := loadAt_eq_ok (by rw [h.toList]; rfl)
  have hid : loadAll pdu'.hdr.toList 2 2 = .ok [m.id.1, m.id.2] := by
    rw [loadAll_eq_ok (by rw [Vector.length_toList]; omega), h.toList]
    rfl
  have hkept : kept none (wrapped 0 m.items) = wrapped 0 m.items :=
    List.filter_eq_self.mpr fun _ _ => rfl
  rw [Libcoap.contents, h.load_first, ok_bind, hcode, ok_bind, hid, ok_bind, tokenLength_firstByte,
    h.loadToken, ok_bind, options_eq h hitems, ok_bind, hkept, h.getData, ok_bind, firstByte_type]
  rfl

lemma received_of_coapHandleMessage {pdu' : Pdu msg.length}
    (h : coapHandleMessage msg = .ok (some pdu')) :
    msg.length ≤ maxPduSize ∧ ∃ (pdu : Pdu msg.length) (m : Message), msg = m.encode ∧
      m.version = 1 ∧ Walkable m.items ∧ (m.code = 0 → m.encode.length = 4) ∧
        Received pdu pdu' m := by
  by_cases haccepted : Accepted msg
  · obtain ⟨pdu, hrun⟩ := coapHandleMessage_of_accepted haccepted
    obtain ⟨-, hsize, first, hfirst, hversion⟩ := haccepted
    rw [hrun, coapPduParse_eq_ok_some_iff] at h
    obtain ⟨-, m, hm, hitems, hempty, hreceived⟩ := h
    refine ⟨hsize, pdu, m, hm, ?_, hitems, hempty, hreceived⟩
    rw [hm, Message.head?_encode, Option.some.injEq] at hfirst
    rw [← firstByte_div m, hfirst, hversion]
  · by_cases hlarge : maxPduSize < msg.length ∧ VersionOne msg
    · rw [coapHandleMessage_of_large hlarge.1 hlarge.2] at h
      cases h
    · rw [coapHandleMessage_of_refused haccepted hlarge] at h
      cases h

/-- **What is received.** From a datagram that is a message of version 1, with distances that are
not refused, what the message says is received; from another one, nothing is. -/
theorem receive_eq_ok_some_iff :
    receive msg = .ok (some c) ↔
      msg.length ≤ maxPduSize ∧ ∃ m : Message, msg = m.encode ∧ m.version = 1 ∧ Walkable m.items ∧
        (m.code = 0 → m.encode.length = 4) ∧ c = said m := by
  constructor
  · intro h
    obtain ⟨r, hhandle, h⟩ := bind_eq_ok_iff.mp h
    cases r with
    | none => cases h
    | some pdu' =>
      obtain ⟨hsize, pdu, m, hm, hversion, hitems, hempty, hreceived⟩ :=
        received_of_coapHandleMessage hhandle
      obtain ⟨c', hcontents, hc⟩ := bind_eq_ok_iff.mp h
      rw [hreceived.contents hitems, Except.ok.injEq] at hcontents
      refine ⟨hsize, m, hm, hversion, hitems, hempty, ?_⟩
      rw [hcontents]
      exact (Option.some.inj (Except.ok.inj hc)).symm
  · rintro ⟨hsize, m, hm, hversion, hitems, hempty, rfl⟩
    obtain ⟨pdu', hhandle⟩ := coapHandleMessage_iff.1.mpr ⟨hsize, m, hm, hversion, hitems, hempty⟩
    -- the message that was read is this one: no two have the same bytes
    obtain ⟨-, pdu, m', hm', -, hitems', -, hreceived⟩ := received_of_coapHandleMessage hhandle
    obtain rfl : m = m' := encode_injective (hm.symm.trans hm')
    rw [receive, hhandle, ok_bind]
    dsimp only
    rw [hreceived.contents hitems, ok_bind]

end Receive

/-! ## The round trip -/

section RoundTrip

variable {n number : ℕ} {options : List (Word × List Byte)} {items : List Item}
  {rest rest' data token : List Byte}

/-- What a reader makes of the header that is written for an option. -/
lemma readOne_written (delta : ℕ) {value : List Byte} (hdelta : spoken delta ≤ maxField)
    (hlength : spoken value.length ≤ maxField) :
    readOne (written delta value ++ rest) =
      some (spoken delta, value.take (spoken value.length),
        value.drop (spoken value.length) ++ rest) := by
  have hle : spoken value.length ≤ value.length := by
    unfold spoken
    split_ifs <;> omega
  have htake : (value.take (spoken value.length)).length = spoken value.length :=
    List.length_take_of_le hle
  have hsplit : written delta value ++ rest =
      encodeOne (spoken delta) (value.take (spoken value.length)) ++
        (value.drop (spoken value.length) ++ rest) := by
    rw [encodeOne, htake, written]
    simp only [List.cons_append, List.append_assoc, ← List.append_assoc (List.take _ value),
      List.take_append_drop]
  rw [hsplit, readOne_encodeOne hdelta (by rw [htake]; exact hlength)]

lemma wrapped_mod (number : ℕ) (items : List Item) :
    wrapped (number % 2 ^ 16) items = wrapped number items := by
  induction items generalizing number with
  | nil => rfl
  | cons i items ih =>
    have hword : BitVec.ofNat 16 (number % 2 ^ 16 + i.delta) =
        BitVec.ofNat 16 (number + i.delta) := by
      apply BitVec.eq_of_toNat_eq
      rw [BitVec.toNat_ofNat, BitVec.toNat_ofNat, Nat.mod_add_mod]
    rw [wrapped_cons, wrapped_cons, hword, ← ih (number % 2 ^ 16 + i.delta), Nat.mod_add_mod, ih]

/-- What reads as the options that were written was sayable. -/
lemma sayable_of_wrapped (hnumber : number < 65536)
    (hsize : ∀ o ∈ options, o.2.length ≤ maxField)
    (hbytes : encode items ++ rest = writtenAll number options ++ rest')
    (hread : wrapped number items = options) : Sayable number options := by
  induction options generalizing number items with
  | nil => trivial
  | cons o options ih =>
    cases items with
    | nil => cases hread
    | cons i items =>
      obtain ⟨ho, hoptions⟩ := List.forall_mem_cons.mp hsize
      rw [wrapped_cons] at hread
      obtain ⟨rfl, hread⟩ := List.cons.inj hread
      dsimp only at ho
      rw [writtenAll, BitVec.toNat_ofNat] at hbytes
      rw [Sayable, BitVec.toNat_ofNat]
      generalize hnext : (number + i.delta) % 2 ^ 16 = next at *
      -- what the encoder says of a distance and of a length is never too great to be read
      have hspoken : spoken (next - number) ≤ maxField := by
        unfold spoken maxField
        split_ifs <;> omega
      have hspoken' : spoken i.value.length ≤ maxField := by
        unfold spoken maxField at *
        split_ifs <;> omega
      have hfirst := congrArg readOne hbytes
      rw [encode_cons, List.append_assoc, readOne_encode, List.append_assoc,
        readOne_written _ hspoken hspoken', Option.some.injEq, Prod.mk.injEq,
        Prod.mk.injEq] at hfirst
      obtain ⟨hdelta, hvalue, hbehind⟩ := hfirst
      -- 269 is written as 13, so that all but 13 bytes would be left over
      have hlength : i.value.length ≠ 269 := by
        intro hbad
        have htake := congrArg List.length hvalue
        rw [List.length_take, hbad] at htake
        exact absurd htake (by decide)
      -- and a distance of 269 would be read as 13
      have hdistance : next - number ≠ 269 := by
        intro hbad
        rw [hbad] at hdelta
        have hthirteen : i.delta = 13 := hdelta
        omega
      rw [spoken_of_ne hlength, List.drop_length, List.nil_append] at hbehind
      have hwrapped : wrapped next items = options := by
        rw [← hnext, wrapped_mod]
        assumption
      exact ⟨hdistance, hlength, ih (by omega) hoptions hbehind hwrapped⟩

/-- Sayable options in the order of their numbers are written as options. -/
lemma exists_items (hsayable : Sayable number options)
    (hsize : ∀ o ∈ options, o.2.length ≤ maxField)
    (hascending : options.Pairwise fun a b => a.1.toNat ≤ b.1.toNat)
    (hnumber : ∀ o ∈ options, number ≤ o.1.toNat) :
    ∃ items, writtenAll number options = encode items ∧ Walkable items ∧
      wrapped number items = options := by
  induction options generalizing number with
  | nil => exact ⟨[], rfl, List.forall_mem_nil _, rfl⟩
  | cons o options ih =>
    obtain ⟨hdelta, hlength, hsayable⟩ := hsayable
    obtain ⟨ho, hsize⟩ := List.forall_mem_cons.mp hsize
    obtain ⟨hfirst, hascending⟩ := List.pairwise_cons.mp hascending
    have hle := hnumber o List.mem_cons_self
    have hlt := o.1.isLt
    obtain ⟨items, hbytes, hitems, hwrapped⟩ := ih hsayable hsize hascending hfirst
    refine ⟨⟨o.1.toNat - number, o.2, by unfold maxField; omega, ho⟩ :: items, ?_,
      walkable_cons.mpr ⟨by dsimp only; omega, hitems⟩, ?_⟩
    · rw [writtenAll, written_eq_encodeOne hdelta hlength, hbytes, encode_cons]
      rfl
    · rw [wrapped_cons]
      dsimp only
      rw [Nat.add_sub_cancel' hle, hwrapped, BitVec.ofNat_toNat, BitVec.setWidth_eq]

lemma length_le_writtenAll (number : ℕ) :
    ∀ o ∈ options, o.2.length ≤ (writtenAll number options).length := by
  induction options generalizing number with
  | nil => exact List.forall_mem_nil _
  | cons o options ih =>
    rw [List.forall_mem_cons, writtenAll, List.length_append, length_written]
    refine ⟨by omega, fun o' ho' => ?_⟩
    have hle := ih o.1.toNat o' ho'
    omega

lemma Wrote.sent {pdu : Pdu n} {bytes : List Byte} (h : Wrote pdu bytes) : sent pdu = bytes := by
  obtain ⟨room, hlist⟩ := h.hdr
  rw [Libcoap.sent, hlist, h.length, List.take_left]

/-- A token that was taken. -/
lemma token_of_coapAddToken {pdu₀ pdu₁ : Pdu n} (h : coapAddToken pdu₀ token = .ok (some pdu₁)) :
    token.length ≤ 8 ∧ token.length + 4 ≤ n := by
  rw [coapAddToken] at h
  split_ifs at h with hbad
  · cases h
  · omega

/-- **Building a message.** Calls of `coap_add_option` stay in the buffer exactly if none of them
comes with a header that ends one byte behind the room that is left. As long as they do, the message
is the header, the token and the options that were taken, in the order of their numbers. -/
theorem build_iff {kind code : Byte} {id : Word} {pdu₀ pdu₁ : Pdu n}
    (hinit : coapPduInit kind code id n = .ok (some pdu₀))
    (htoken : coapAddToken pdu₀ token = .ok (some pdu₁)) (calls : List (Word × List Byte)) :
    ((∃ t, Machine.run Builder.step ⟨pdu₁, []⟩ calls = some t) ↔
      Machine.Along Builder.step (fun s option => ¬ Overflows s option) ⟨pdu₁, []⟩ calls) ∧
    ∀ t, Machine.run Builder.step ⟨pdu₁, []⟩ calls = some t →
      sent t.pdu = headOf kind code id token ++ writtenAll 0 t.added ∧
        t.added.Pairwise fun a b => a.1.toNat ≤ b.1.toNat := by
  obtain ⟨height, hroom⟩ := token_of_coapAddToken htoken
  obtain ⟨pdu₀', pdu₁', hinit', htoken', hinv⟩ :=
    exists_head kind code id pdu₀.maxSize_le height hroom
  rw [hinit', Except.ok.injEq, Option.some.injEq] at hinit
  subst hinit
  rw [htoken', Except.ok.injEq, Option.some.injEq] at htoken
  subst htoken
  refine ⟨run_inside_iff hinv, fun t hrun => ?_⟩
  have hinv' := run_inv hinv hrun
  exact ⟨hinv'.wrote.sent, hinv'.ascending⟩

/-- An option of thirteen bytes, with room for one byte. -/
theorem build_overflow :
    ∃ pdu : Pdu 5, coapPduInit 0 1 7 5 = .ok (some pdu) ∧
      ¬ ∃ t, Machine.run Builder.step ⟨pdu, []⟩ [(1, List.replicate 13 0)] = some t := by
  refine ⟨_, rfl, fun hrun => ?_⟩
  have hinside := (@build_iff 5 [] 0 1 7 _ _ rfl rfl [(1, List.replicate 13 0)]).1.mp hrun
  exact absurd ⟨Nat.zero_le _, by decide⟩ hinside.1

/-- The bytes of a message that was built. -/
lemma sent_eq {kind code : Byte} {id : Word} {calls : List (Word × List Byte)}
    {pdu₀ pdu₁ pdu : Pdu n} {t : Builder n} (hinit : coapPduInit kind code id n = .ok (some pdu₀))
    (htoken : coapAddToken pdu₀ token = .ok (some pdu₁))
    (hrun : Machine.run Builder.step ⟨pdu₁, []⟩ calls = some t)
    (hdata : coapAddData t.pdu data = .ok (some pdu)) :
    t.Inv (headOf kind code id token) ∧ (sent pdu).length ≤ maxPduSize ∧
      sent pdu = headOf kind code id token ++ (writtenAll 0 t.added ++ payloadPart data) := by
  obtain ⟨height, hroom⟩ := token_of_coapAddToken htoken
  obtain ⟨pdu₀', pdu₁', hinit', htoken', hinv⟩ :=
    exists_head kind code id pdu₀.maxSize_le height hroom
  rw [hinit', Except.ok.injEq, Option.some.injEq] at hinit
  subst hinit
  rw [htoken', Except.ok.injEq, Option.some.injEq] at htoken
  subst htoken
  have hinv' := run_inv hinv hrun
  obtain ⟨hlarge, hfits⟩ := coapAddData_cases data hinv'.wrote hinv'.data
  have hle :
      (headOf kind code id token ++ writtenAll 0 t.added ++ payloadPart data).length ≤ n := by
    by_contra hlt
    rw [hlarge (not_le.mp hlt)] at hdata
    cases hdata
  obtain ⟨pdu', hdata', hwrote, -⟩ := hfits hle
  rw [hdata', Except.ok.injEq, Option.some.injEq] at hdata
  subst hdata
  refine ⟨hinv', ?_, by rw [hwrote.sent, List.append_assoc]⟩
  rw [hwrote.sent]
  exact hle.trans pdu'.maxSize_le

/-- What is received of a message that consists of a head, options and a payload. -/
lemma receive_eq_iff {kind code : Byte} {id : Word} {bytes : List Byte}
    (hbytes : bytes = headOf kind code id token ++ (writtenAll 0 options ++ payloadPart data))
    (hsize : bytes.length ≤ maxPduSize) (height : token.length ≤ 8)
    (hascending : options.Pairwise fun a b => a.1.toNat ≤ b.1.toNat) :
    receive bytes = .ok (some ⟨kind.toNat % 4, code, wordBytes id, token, options, data⟩) ↔
      Sayable 0 options ∧ (code = 0 → bytes.length = 4) := by
  have hlength := congrArg List.length hbytes
  rw [List.length_append, List.length_append] at hlength
  have hoptions : ∀ o ∈ options, o.2.length ≤ maxField := by
    intro o ho
    have hle := length_le_writtenAll 0 o ho
    unfold maxPduSize at hsize
    unfold maxField
    omega
  rw [receive_eq_ok_some_iff]
  constructor
  · rintro ⟨-, m, hm, -, hitems, hempty, hsaid⟩
    simp only [said, Contents.mk.injEq] at hsaid
    obtain ⟨-, hcode, -, htoken, hread, hpayload⟩ := hsaid
    rw [hm, hcode]
    refine ⟨?_, hempty⟩
    -- the four bytes of the header are the same on both sides
    have hbody : m.token ++ m.body = token ++ (writtenAll 0 options ++ payloadPart data) :=
      congrArg (List.drop 4) (hm.symm.trans hbytes)
    rw [← htoken, List.append_cancel_left_eq] at hbody
    exact sayable_of_wrapped (by decide) hoptions hbody hread.symm
  · rintro ⟨hsayable, hempty⟩
    obtain ⟨items, hwritten, hitems, hwrapped⟩ :=
      exists_items hsayable hoptions hascending fun _ _ => Nat.zero_le _
    have hkind : kind.toNat % 4 < 4 := Nat.mod_lt _ (by decide)
    let m : Message := ⟨1, kind.toNat % 4, code, (id.setWidth 8, (id >>> 8).setWidth 8), token,
      items, data, by decide, hkind, height⟩
    have hm : bytes = m.encode := by
      rw [hbytes, hwritten]
      rfl
    refine ⟨hsize, m, hm, rfl, hitems, fun hcode => hm ▸ hempty hcode, ?_⟩
    simp only [said, Contents.mk.injEq]
    exact ⟨rfl, rfl, rfl, rfl, hwrapped.symm, rfl⟩

/-- **The round trip.** A message that is built with a token, with options of which some may have
been refused, and with a payload, is received as it was built exactly if the distances and the
lengths of its options are not 269, and if an empty one has nothing behind its header. -/
theorem receive_sent_iff {kind code : Byte} {id : Word} {calls : List (Word × List Byte)}
    {pdu₀ pdu₁ pdu : Pdu n} {t : Builder n} (hinit : coapPduInit kind code id n = .ok (some pdu₀))
    (htoken : coapAddToken pdu₀ token = .ok (some pdu₁))
    (hrun : Machine.run Builder.step ⟨pdu₁, []⟩ calls = some t)
    (hdata : coapAddData t.pdu data = .ok (some pdu)) :
    receive (sent pdu) =
        .ok (some ⟨kind.toNat % 4, code, wordBytes id, token, t.added, data⟩) ↔
      Sayable 0 t.added ∧ (code = 0 → (sent pdu).length = 4) := by
  obtain ⟨hinv, hsize, hsent⟩ := sent_eq hinit htoken hrun hdata
  exact receive_eq_iff hsent hsize (token_of_coapAddToken htoken).1 hinv.ascending

/-- A request for `light` with the query `s=1`. -/
theorem receive_sent_request :
    ∃ pdu : Pdu 16, receive (sent pdu) = .ok (some ⟨0, 1, [0x34, 0x12], [0xAA],
      [(11, ascii "light"), (15, ascii "s=1")], []⟩) :=
  ⟨_, (@receive_sent_iff 16 [] [0xAA] 0 1 0x1234 [(11, ascii "light"), (15, ascii "s=1")] _ _ _ _
    rfl rfl rfl rfl).mpr ⟨by decide, by decide⟩⟩

end RoundTrip

end Vng.Libcoap
