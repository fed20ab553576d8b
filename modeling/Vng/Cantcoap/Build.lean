import Vng.Cantcoap.Insert
import Vng.Coap.RoundTrip

/-!
# A message that is put together call by call

Fields of the header, a token, options in any order and a payload are put into a message in memory
of its own. What has been asked for is kept apart from how the bytes are moved to make room for it.
-/

namespace Vng.Cantcoap

open Memory OptionList CoapMessage DeltaQueue

/-! ## What is asked for -/

/-- A message of version 1 with its options by their numbers. -/
structure Draft where
  type : Fin 4
  code : Byte
  id : Word
  token : List Byte
  options : List (ℕ × List Byte)
  payload : List Byte
  token_le : token.length ≤ 8
  sound : Sound options

/-- Nothing has been asked for yet. -/
def Draft.empty : Draft :=
  ⟨0, 0, 0, [], [], [], Nat.zero_le _,
    ⟨List.Pairwise.nil, List.forall_mem_nil _, List.forall_mem_nil _⟩⟩

/-- The header with the token. -/
def Draft.head (d : Draft) : List Byte :=
  firstByte 1 d.type d.token.length :: d.code ::
    (d.id >>> 8).setWidth 8 :: d.id.setWidth 8 :: d.token

/-- The message that a draft says. -/
def Draft.bytes (d : Draft) : List Byte :=
  d.head ++ (encodeFrom 0 d.options ++ payloadPart d.payload)

/-- The calls that put a message together. -/
inductive Call
  | type (mt : Fin 4)
  | code (code : Byte)
  | id (messageId : Word)
  | token (token : List Byte)
  | option (number : Word) (value : List Byte)
  | payload (payload : List Byte)

/-- What is asked for with a call, and what the call returns: 0 for one that returns nothing. -/
def CoapPdu.call (fresh : ℕ → Byte) (s : CoapPdu) : Call → Checked (ℕ × CoapPdu)
  | .type mt => (s.setType (BitVec.ofNat 8 (mt * 16))).map (Prod.mk 0)
  | .code code => (s.setCode code).map (Prod.mk 0)
  | .id messageId => (s.setMessageId messageId).map (Prod.mk 0)
  | .token token => s.setToken fresh token
  | .option number value => s.addOption fresh number value
  | .payload payload => s.setPayload fresh payload

/-- An option goes behind those whose numbers are not greater. -/
lemma Sound.insert {options : List (ℕ × List Byte)} (h : Sound options) (number : Word)
    {value : List Byte} (hvalue : value.length < 65536) :
    Sound (options.orderedInsert Earlier (number.toNat, value)) := by
  have hmem : ∀ o ∈ options.orderedInsert Earlier (number.toNat, value),
      o = (number.toNat, value) ∨ o ∈ options := fun o ho =>
    List.mem_cons.mp ((List.perm_orderedInsert _ _ _).mem_iff.mp ho)
  refine ⟨pairwise_orderedInsert h.sorted, fun o ho => ?_, fun o ho => ?_⟩
  · rcases hmem o ho with rfl | ho
    · exact number.isLt
    · exact h.number_lt o ho
  · rcases hmem o ho with rfl | ho
    · exact hvalue
    · exact h.length_lt o ho

/-- The draft behind a call. A token is given once and to a message of less than 256 bytes, a value
is shorter than 269 bytes, and behind the payload no option comes that would be the last one. -/
def Draft.apply (d : Draft) : Call → Option Draft
  | .type mt => some { d with type := mt }
  | .code code => some { d with code := code }
  | .id messageId => some { d with id := messageId }
  | .token token =>
    if h : d.token = [] ∧ token ≠ [] ∧ token.length ≤ 8 ∧ d.bytes.length < 256 then
      some { d with token := token, token_le := h.2.2.1 }
    else none
  | .option number value =>
    if h : value.length < 269 ∧ (d.payload = [] ∨ number.toNat < lastNumber 0 d.options) then
      some { d with
        options := d.options.orderedInsert Earlier (number.toNat, value)
        sound := d.sound.insert number (h.1.trans (by decide)) }
    else none
  | .payload payload =>
    if payload ≠ [] ∧ d.payload = [] then some { d with payload := payload } else none

/-- The option that a call asks for. -/
def Call.asked : Call → List (ℕ × List Byte)
  | .option number value => [(number.toNat, value)]
  | _ => []

/-- One call after another, with what they return; new memory holds what it happens to hold. -/
def CoapPdu.calls (s : CoapPdu) : List ((ℕ → Byte) × Call) → Checked (List ℕ × CoapPdu)
  | [] => .ok ([], s)
  | (fresh, c) :: calls => do
    let (returned, s) ← s.call fresh c
    let (rest, s) ← s.calls calls
    .ok (returned :: rest, s)

/-- One call after another. -/
def Draft.run (d : Draft) : List Call → Option Draft
  | [] => some d
  | c :: calls => do
    let d ← d.apply c
    d.run calls

/-- What the message says. -/
def Draft.said (d : Draft) : Libcoap.Contents where
  type := d.type
  code := d.code
  id := [(d.id >>> 8).setWidth 8, d.id.setWidth 8]
  token := d.token
  options := d.options.map fun o => (BitVec.ofNat 16 o.1, o.2)
  payload := d.payload

section Asked

variable {d d' : Draft}

/-- An option goes behind those that have its number. -/
lemma filter_apply {c : Call} (h : d.apply c = some d') (n : ℕ) :
    d'.options.filter (fun o => o.1 = n) =
      d.options.filter (fun o => o.1 = n) ++ c.asked.filter (fun o => o.1 = n) := by
  cases c with
  | option number value =>
    rw [Draft.apply] at h
    split_ifs at h
    obtain rfl := Option.some.inj h
    exact filter_orderedInsert d.sound.sorted n
  | token token | payload payload =>
    rw [Draft.apply] at h
    split_ifs at h
    obtain rfl := Option.some.inj h
    exact (List.append_nil _).symm
  | _ =>
    obtain rfl := Option.some.inj h
    exact (List.append_nil _).symm

/-- The options of one number are in the order of the calls. -/
lemma filter_run {calls : List Call} (h : d.run calls = some d') (n : ℕ) :
    d'.options.filter (fun o => o.1 = n) =
      d.options.filter (fun o => o.1 = n) ++
        (calls.flatMap Call.asked).filter (fun o => o.1 = n) := by
  induction calls generalizing d with
  | nil =>
    obtain rfl := Option.some.inj h
    exact (List.append_nil _).symm
  | cons c calls ih =>
    obtain ⟨d₁, hc, h⟩ := Option.bind_eq_some_iff.mp h
    rw [ih h, filter_apply hc, List.flatMap_cons, List.filter_append, List.append_assoc]

end Asked

/-! ## The header -/

section Head

variable {s : CoapPdu} {d : Draft}

/-- The object holds the draft in memory of its own. -/
structure Drawn (s : CoapPdu) (d : Draft) : Prop extends
    Builds s d.head d.options (payloadPart d.payload) [] where
  own : s.constructedFromBuffer = false
  noPayload : d.payload = [] → s.payloadLength = 0 ∧ s.payloadPointer = .null

/-- The memory holds the message and nothing else. -/
lemma Drawn.pdu_eq (h : Drawn s d) : s.pdu = d.bytes := by
  rw [h.pdu, List.append_nil]
  rfl

lemma head_toNat (d : Draft) :
    (d.head.headD 0).toNat % 16 = d.token.length := by
  have htoken := d.token_le
  have htype := d.type.isLt
  change (firstByte 1 d.type d.token.length).toNat % 16 = _
  rw [toNat_firstByte (by decide) htype htoken]
  omega

lemma length_head (d : Draft) : d.head.length = 4 + d.token.length := by
  rw [Draft.head]
  simp only [List.length_cons]
  omega

/-- A new message has four bytes. -/
lemma drawn_fresh : Drawn CoapPdu.fresh Draft.empty :=
  ⟨⟨⟨rfl, rfl, fun _ => rfl⟩, rfl, rfl, rfl⟩, rfl, fun _ => ⟨rfl, rfl⟩⟩

/-- The bytes of the header are set in their place. -/
lemma Drawn.setHead {d' : Draft} (h : Drawn s d) (htoken : d'.token.length = d.token.length)
    (hoptions : d'.options = d.options) (hpayload : d'.payload = d.payload) :
    Drawn { s with pdu := d'.bytes } d' := by
  have hlength : d'.bytes.length = d.bytes.length := by
    simp only [Draft.bytes, List.length_append, length_head, htoken, hoptions, hpayload]
  refine ⟨⟨⟨(List.append_nil _).symm, ?_, fun _ => rfl⟩, ?_, ?_, ?_⟩, h.own, ?_⟩
  · exact h.pduLength.trans hlength.symm
  · rw [head_toNat, length_head]
  · rw [hoptions]
    exact h.numOptions
  · rw [hoptions]
    exact h.maxAdded
  · rw [hpayload]
    exact h.noPayload

/-- Setting the type leaves the rest of the first byte alone. -/
lemma type_set : ∀ (t t' : Fin 4) (k : Fin 9),
    (firstByte 1 t k &&& 0xCF) ||| BitVec.ofNat 8 (t' * 16) = firstByte 1 t' k := by
  decide

/-- So does setting the length of the token. -/
lemma tokenLength_set : ∀ (t : Fin 4) (k k' : Fin 9),
    (firstByte 1 t k &&& 0xF0) ||| BitVec.ofNat 8 k' = firstByte 1 t k' := by
  decide

lemma updateAt_head (f : Byte → Byte) (x : Byte) (rest : List Byte) :
    updateAt (x :: rest) 0 f = .ok (f x :: rest) := updateAt_append_cons [] x rest f

/-- `setType` draws the type. -/
lemma Drawn.setType (h : Drawn s d) (mt : Fin 4) :
    ∃ s', s.setType (BitVec.ofNat 8 (mt * 16)) = .ok s' ∧ Drawn s' { d with type := mt } := by
  refine ⟨_, ?_, h.setHead rfl rfl rfl⟩
  have hset := type_set d.type mt ⟨d.token.length, Nat.lt_succ_of_le d.token_le⟩
  rw [CoapPdu.setType, h.pdu_eq, Draft.bytes, Draft.head, List.cons_append, updateAt_head, ok_bind,
    updateAt_head, ok_bind, hset]
  rfl

/-- `setCode` draws the code. -/
lemma Drawn.setCode (h : Drawn s d) (code : Byte) :
    ∃ s', s.setCode code = .ok s' ∧ Drawn s' { d with code := code } := by
  refine ⟨_, ?_, h.setHead rfl rfl rfl⟩
  have hstore : storeAt d.bytes 1 code = .ok (Draft.bytes { d with code := code }) :=
    storeAt_append_cons [_] d.code code _
  rw [CoapPdu.setCode, h.pdu_eq, hstore, ok_bind]

/-- `setMessageID` draws the id. -/
lemma Drawn.setMessageId (h : Drawn s d) (messageId : Word) :
    ∃ s', s.setMessageId messageId = .ok s' ∧ Drawn s' { d with id := messageId } := by
  refine ⟨_, ?_, h.setHead rfl rfl rfl⟩
  have hstore : endianStore16 d.bytes 2 messageId =
      .ok (Draft.bytes { d with id := messageId }) := by
    generalize hrest : d.token ++ (encodeFrom 0 d.options ++ payloadPart d.payload) = rest
    have hcopy : copyTo ([firstByte 1 d.type d.token.length, d.code] ++
        ([(d.id >>> 8).setWidth 8, d.id.setWidth 8] ++ rest))
        [firstByte 1 d.type d.token.length, d.code].length
        [(messageId >>> 8).setWidth 8, messageId.setWidth 8] =
        .ok ([firstByte 1 d.type d.token.length, d.code] ++
          ([(messageId >>> 8).setWidth 8, messageId.setWidth 8] ++ rest)) := copyTo_append _ rfl
    rw [← hrest] at hcopy
    exact hcopy
  rw [CoapPdu.setMessageId, h.pdu_eq, hstore, ok_bind]

end Head

/-! ## The token -/

section Token

variable {s : CoapPdu} {d : Draft}

/-- Everything behind the header is moved up, and the token is written in between. -/
lemma Drawn.setToken (fresh : ℕ → Byte) (h : Drawn s d) {token : List Byte} (hnone : d.token = [])
    (hne : token ≠ []) (hle : token.length ≤ 8) (hshort : d.bytes.length < 256) :
    ∃ s', s.setToken fresh token = .ok (0, s') ∧
      Drawn s' { d with token := token, token_le := hle } := by
  have hpos := List.length_pos_of_ne_nil hne
  have hhead : d.head.length = 4 := by rw [length_head, hnone, List.length_nil]
  have hpduLength : s.pduLength = d.bytes.length := h.pduLength
  have hbody : d.bytes.length = 4 + (encodeFrom 0 d.options ++ payloadPart d.payload).length := by
    rw [Draft.bytes, List.length_append, hhead]
  have hload : loadAll token 0 token.length = .ok token := by
    rw [loadAll_eq_ok (by omega), List.drop_zero, List.take_length]
  -- the message grows by a hole behind its end
  obtain ⟨s', hole, stale', hallot, hhole, hoccupies, hkept, hnum, hmaxAdded⟩ |
      ⟨hbuffer, -, -⟩ := allot_spec fresh h.toOccupies token.length
  swap
  · exact absurd (hbuffer.symm.trans h.own) (by decide)
  have hstale : stale' = [] := hoccupies.stale_nil (hkept.constructedFromBuffer.trans h.own)
  subst hstale
  generalize hrest : encodeFrom 0 d.options ++ payloadPart d.payload = body at hbody hoccupies
  have hmemory : s'.pdu = d.head ++ (body ++ (hole ++ [])) := by
    rw [hoccupies.pdu]
    simp only [List.append_assoc]
  have hlength : s'.pduLength = d.head.length + body.length + hole.length := by
    rw [hoccupies.pduLength]
    simp only [List.length_append]
  -- the hole moves to the place behind the header
  obtain ⟨junk, hjunk, hshift⟩ := shiftUpLoop_spec d.head body hole []
  have hmoved : s'.shiftPduUp token.length body.length =
      .ok (d.head ++ (junk ++ (body ++ []))) := by
    rw [CoapPdu.shiftPduUp, if_neg (by omega), hlength, ← hhole, Nat.add_sub_cancel, hmemory]
    exact hshift
  -- and the token is copied into it
  have hcopy : copyTo (d.head ++ (junk ++ (body ++ []))) d.head.length token =
      .ok (d.head ++ (token ++ (body ++ []))) := copyTo_append _ (hjunk.trans hhole)
  have hset := tokenLength_set d.type 0 ⟨token.length, Nat.lt_succ_of_le hle⟩
  have hmod : token.length % 256 = token.length := Nat.mod_eq_of_lt (by omega)
  have htokenLength : s.getTokenLength = .ok 0 := by
    rw [h.getTokenLength, hhead]
  have hnotLarge : ¬ (8 : Byte) < BitVec.ofNat 8 token.length := by
    rw [BitVec.lt_def, BitVec.toNat_ofNat, Nat.mod_eq_of_lt (by omega)]
    exact not_lt.mpr hle
  have hsum : s.pduLength + token.length - 0 - s.pduLength = token.length := by omega
  have hbehind : s.pduLength + token.length - 0 - token.length - 4 = body.length := by omega
  rw [CoapPdu.setToken]
  dsimp only
  rw [hmod, if_neg (by omega), hload, ok_bind, htokenLength, ok_bind, if_neg (by omega),
    Nat.mod_eq_of_lt (show s.pduLength < 256 by omega), if_pos (by omega), hsum, hbehind,
    Nat.sub_zero, hallot]
  dsimp only
  rw [hmoved, ok_bind, ← hhead, hcopy, ok_bind, CoapPdu.setTokenLength, if_neg hnotLarge]
  -- the first byte gets the length of the token
  have hfirst : d.head = firstByte 1 d.type (0 : Fin 9) ::
      [d.code, (d.id >>> 8).setWidth 8, d.id.setWidth 8] := by
    rw [Draft.head, hnone]
    rfl
  rw [hfirst, List.cons_append, updateAt_head, ok_bind, updateAt_head, ok_bind, hset]
  refine ⟨_, rfl, ⟨⟨⟨?_, ?_, fun _ => rfl⟩, ?_, ?_, ?_⟩, ?_, ?_⟩⟩
  · dsimp only
    rw [hrest, Draft.head]
    simp only [List.cons_append, List.append_assoc, List.nil_append]
  · dsimp only
    rw [hrest, hlength, hhead, List.length_append, length_head, hhole]
    exact Nat.add_right_comm _ _ _
  · rw [head_toNat, length_head]
  · exact hnum.trans h.numOptions
  · exact hmaxAdded.trans h.maxAdded
  · exact hkept.constructedFromBuffer.trans h.own
  · intro hpayload
    obtain ⟨hzero, hnull⟩ := h.noPayload hpayload
    exact ⟨hkept.payloadLength.trans hzero, hkept.payloadPointer hnull⟩

end Token

/-! ## Options and payload -/

section Body

variable {s : CoapPdu} {d d' : Draft}

/-- `addOption` draws an option, at its place among the others. -/
lemma Drawn.addOption (fresh : ℕ → Byte) (h : Drawn s d) {number : Word} {value : List Byte}
    (hvalue : value.length < 269)
    (hlast : d.payload = [] ∨ number.toNat < lastNumber 0 d.options) :
    ∃ s', s.addOption fresh number value = .ok (0, s') ∧ Drawn s' { d with
      options := d.options.orderedInsert Earlier (number.toNat, value)
      sound := d.sound.insert number (hvalue.trans (by decide)) } := by
  have htail : payloadPart d.payload = [] ∨ number.toNat < lastNumber 0 d.options :=
    hlast.imp_left fun hnil => if_pos hnil
  obtain ⟨s', hole, stale', hrun, -, hbuilds, hkept⟩ | ⟨hbuffer, -⟩ :=
    addOption_spec fresh h.toBuilds d.sound (show value.length < 65531 by omega) htail
  · rw [written_of_lt hvalue] at hbuilds
    have hown := hkept.constructedFromBuffer.trans h.own
    have hstale := hbuilds.stale_nil hown
    subst hstale
    refine ⟨s', hrun, hbuilds, hown, fun hpayload => ?_⟩
    obtain ⟨hzero, hnull⟩ := h.noPayload hpayload
    exact ⟨hkept.payloadLength.trans hzero, hkept.payloadPointer hnull⟩
  · exact absurd (hbuffer.symm.trans h.own) (by decide)

/-- `setPayload` draws a marker and the payload behind the options. -/
lemma Drawn.setPayload (fresh : ℕ → Byte) (h : Drawn s d) {payload : List Byte} (hne : payload ≠ [])
    (hnone : d.payload = []) :
    ∃ s', s.setPayload fresh payload = .ok (0, s') ∧ Drawn s' { d with payload := payload } := by
  have hpos := List.length_pos_of_ne_nil hne
  obtain ⟨hzero, hnull⟩ := h.noPayload hnone
  -- one byte for the marker, and the payload
  obtain ⟨s', hole, stale', hallot, hhole, hoccupies, hkept, hnum, hmaxAdded⟩ |
      ⟨hbuffer, -, -⟩ := allot_spec fresh h.toOccupies (payload.length + 1)
  swap
  · exact absurd (hbuffer.symm.trans h.own) (by decide)
  have hstale : stale' = [] := hoccupies.stale_nil (hkept.constructedFromBuffer.trans h.own)
  subst hstale
  have hbytes : d.head ++ (encodeFrom 0 d.options ++ payloadPart d.payload) = d.bytes := rfl
  rw [hbytes] at hoccupies
  have hpduLength : s.pduLength = d.bytes.length := h.pduLength
  obtain ⟨x, hole, rfl⟩ := List.exists_cons_of_length_pos (show 0 < hole.length by omega)
  have hhole' : hole.length = payload.length := Nat.succ.inj hhole
  have hmemory : s'.pdu = d.bytes ++ x :: hole := by
    rw [hoccupies.pdu, List.append_nil]
  have hmarker : storeAt (d.bytes ++ x :: hole) d.bytes.length 0xFF =
      .ok (d.bytes ++ 0xFF :: hole) := storeAt_append_cons _ _ _ _
  have hcopy : copyTo ((d.bytes ++ [0xFF]) ++ (hole ++ [])) (d.bytes ++ [0xFF]).length payload =
      .ok ((d.bytes ++ [0xFF]) ++ (payload ++ [])) := copyTo_append _ hhole'
  simp only [List.append_nil, List.append_assoc, List.singleton_append, List.length_append,
    List.length_singleton] at hcopy
  have hnull' := hkept.payloadPointer hnull
  have hmalloc : s.mallocPayload fresh payload.length = .ok (.place (d.bytes.length + 1),
      { s' with
        pdu := d.bytes ++ 0xFF :: hole, payloadPointer := .place (d.bytes.length + 1)
        payloadLength := payload.length }) := by
    rw [CoapPdu.mallocPayload, if_neg (by omega), hzero, if_neg (by omega)]
    dsimp only
    rw [if_neg (not_not.mpr rfl), Nat.add_assoc, hallot]
    dsimp only
    rw [if_pos hnull', hmemory, hpduLength, hmarker, ok_bind]
  rw [CoapPdu.setPayload, hmalloc, ok_bind]
  dsimp only
  rw [hcopy, ok_bind]
  -- without a payload the message ended in its options
  have hbehind : d.bytes ++ 0xFF :: payload = Draft.bytes { d with payload := payload } := by
    rw [Draft.bytes, Draft.bytes, hnone, payloadPart, payloadPart, if_pos rfl, if_neg hne]
    simp only [List.append_assoc, List.nil_append]
    rfl
  rw [hbehind]
  refine ⟨_, rfl, ⟨⟨⟨(List.append_nil _).symm, ?_, fun _ => rfl⟩, ?_, ?_, ?_⟩, ?_, ?_⟩⟩
  · rw [← Draft.bytes, ← hbehind]
    refine hoccupies.pduLength.trans ?_
    simp only [List.length_append, List.length_cons, hhole']
  · exact h.head_length
  · exact hnum.trans h.numOptions
  · exact hmaxAdded.trans h.maxAdded
  · exact hkept.constructedFromBuffer.trans h.own
  · exact fun hnil => absurd hnil hne

/-- A call does what is asked for, and returns 0. -/
lemma call_spec (fresh : ℕ → Byte) {c : Call} (h : Drawn s d) (hc : d.apply c = some d') :
    ∃ s', s.call fresh c = .ok (0, s') ∧ Drawn s' d' := by
  -- each call has its lemma; the contract is what `apply` tests
  cases c with
  | type mt =>
    obtain rfl := Option.some.inj hc
    obtain ⟨s', hrun, hs'⟩ := h.setType mt
    exact ⟨s', by rw [CoapPdu.call, hrun]; rfl, hs'⟩
  | code code =>
    obtain rfl := Option.some.inj hc
    obtain ⟨s', hrun, hs'⟩ := h.setCode code
    exact ⟨s', by rw [CoapPdu.call, hrun]; rfl, hs'⟩
  | id messageId =>
    obtain rfl := Option.some.inj hc
    obtain ⟨s', hrun, hs'⟩ := h.setMessageId messageId
    exact ⟨s', by rw [CoapPdu.call, hrun]; rfl, hs'⟩
  | token token =>
    rw [Draft.apply] at hc
    split_ifs at hc with hcontract
    obtain ⟨hnone, hne, hle, hshort⟩ := hcontract
    obtain rfl := Option.some.inj hc
    exact Drawn.setToken fresh h hnone hne hle hshort
  | option number value =>
    rw [Draft.apply] at hc
    split_ifs at hc with hcontract
    obtain rfl := Option.some.inj hc
    exact Drawn.addOption fresh h hcontract.1 hcontract.2
  | payload payload =>
    rw [Draft.apply] at hc
    split_ifs at hc with hcontract
    obtain rfl := Option.some.inj hc
    exact Drawn.setPayload fresh h hcontract.1 hcontract.2

/-- Every call of a run does. -/
lemma calls_spec {calls : List ((ℕ → Byte) × Call)} (h : Drawn s d)
    (hrun : d.run (calls.map Prod.snd) = some d') :
    ∃ s', s.calls calls = .ok (List.replicate calls.length 0, s') ∧ Drawn s' d' := by
  induction calls generalizing s d with
  | nil =>
    obtain rfl := Option.some.inj hrun
    exact ⟨s, rfl, h⟩
  | cons call calls ih =>
    obtain ⟨fresh, c⟩ := call
    obtain ⟨d₁, hc, hrun⟩ := Option.bind_eq_some_iff.mp hrun
    obtain ⟨s₁, hcall, h₁⟩ := call_spec fresh h hc
    obtain ⟨s', hcalls, h'⟩ := ih h₁ hrun
    refine ⟨s', ?_, h'⟩
    rw [CoapPdu.calls, hcall, ok_bind]
    dsimp only
    rw [hcalls, ok_bind, List.length_cons, List.replicate_succ]

end Body

/-! ## Between the two libraries -/

section Interop

variable {d : Draft}

/-- No distance is greater than the number that it leads to. -/
lemma delta_le_number {items : List Item} {i : Item} (number : ℕ) (hi : i ∈ items) :
    ∃ o ∈ numbered number items, i.delta ≤ o.1 := by
  induction items generalizing number with
  | nil => cases hi
  | cons i' items ih =>
    rw [numbered]
    rcases List.mem_cons.mp hi with rfl | hi
    · exact ⟨_, List.mem_cons_self, Nat.le_add_left _ _⟩
    · obtain ⟨o, ho, hle⟩ := ih (number + i'.delta) hi
      exact ⟨o, List.mem_cons_of_mem _ ho, hle⟩

/-- What has been put together is a message. -/
lemma exists_message (d : Draft) :
    ∃ m : Message, d.bytes = m.encode ∧ m.version = 1 ∧ m.code = d.code ∧
      Libcoap.Walkable m.items ∧ Libcoap.said m = d.said := by
  obtain ⟨items, hbytes, hnumbered⟩ := exists_items_eq d.sound.sorted
    (fun o _ => Nat.zero_le o.1) fun o ho => by
      have := d.sound.number_lt o ho
      have := d.sound.length_lt o ho
      unfold maxField
      omega
  refine ⟨⟨1, d.type, d.code, ((d.id >>> 8).setWidth 8, d.id.setWidth 8), d.token, items, d.payload,
    by decide, d.type.isLt, d.token_le⟩, ?_, rfl, rfl, ?_, ?_⟩
  · rw [Draft.bytes, Message.encode, Message.body, ← hbytes]
    rfl
  · intro i hi
    obtain ⟨o, ho, hle⟩ := delta_le_number 0 hi
    rw [hnumbered] at ho
    have := d.sound.number_lt o ho
    omega
  · rw [Libcoap.said, Draft.said, Libcoap.wrapped, hnumbered]

/-- What the other library reads of it. -/
lemma receive_bytes (d : Draft) (c : Libcoap.Contents) :
    Libcoap.receive d.bytes = .ok (some c) ↔
      d.bytes.length ≤ Libcoap.maxPduSize ∧ (d.code = 0 → d.bytes.length = 4) ∧ c = d.said := by
  obtain ⟨m, hm, hversion, hcode, hwalkable, hsaid⟩ := exists_message d
  rw [Libcoap.receive_eq_ok_some_iff, hm]
  constructor
  · rintro ⟨hsize, m', hm', -, -, hempty, rfl⟩
    obtain rfl := encode_injective hm'
    exact ⟨hsize, fun hzero => hempty (hcode.trans hzero), hsaid⟩
  · rintro ⟨hsize, hempty, rfl⟩
    exact ⟨hsize, m, rfl, hversion, hwalkable, fun hzero => hempty (hcode.symm.trans hzero),
      hsaid.symm⟩

/-- **What is put together is what is received.** However the calls are mixed and whatever new
memory holds, every call returns 0, and the other library reads back what was asked for: the options
by their numbers, and those with one number in the order of the calls. It refuses what is too long,
and an empty message with more than its header. -/
theorem receive_calls {calls : List ((ℕ → Byte) × Call)}
    (hrun : Draft.empty.run (calls.map Prod.snd) = some d) :
    (∃ s', CoapPdu.fresh.calls calls = .ok (List.replicate calls.length 0, s') ∧
      ∀ c, Libcoap.receive s'.pdu = .ok (some c) ↔
        s'.pdu.length ≤ Libcoap.maxPduSize ∧ (d.code = 0 → s'.pdu.length = 4) ∧ c = d.said) ∧
    d.options.Pairwise (fun a b => a.1 ≤ b.1) ∧
      ∀ n, d.options.filter (fun o => o.1 = n) =
        ((calls.map Prod.snd).flatMap Call.asked).filter (fun o => o.1 = n) := by
  refine ⟨?_, d.sound.sorted, fun n => filter_run hrun n⟩
  obtain ⟨s', hcalls, h⟩ := calls_spec drawn_fresh hrun
  refine ⟨s', hcalls, fun c => ?_⟩
  rw [h.pdu_eq]
  exact receive_bytes d c

/-- An answer with two options that are asked for the wrong way round, with a token after them. -/
theorem receive_calls_content :
    ∃ s', CoapPdu.fresh.calls [(fun _ => 0xEE, .code 0x45), (fun _ => 0xEE, .option 12 []),
        (fun _ => 0xEE, .option 11 [0x61]), (fun _ => 0xEE, .token [0xAB]),
        (fun _ => 0xEE, .payload [0x2A])] = .ok ([0, 0, 0, 0, 0], s') ∧
      ∀ c, Libcoap.receive s'.pdu = .ok (some c) ↔
        s'.pdu.length ≤ Libcoap.maxPduSize ∧ ((0x45 : Byte) = 0 → s'.pdu.length = 4) ∧
          c = ⟨0, 0x45, [0, 0], [0xAB], [(11, [0x61]), (12, [])], [0x2A]⟩ :=
  (receive_calls (d := ⟨0, 0x45, 0, [0xAB], [(11, [0x61]), (12, [])], [0x2A], by decide,
    ⟨by decide, by decide, by decide⟩⟩) rfl).1

end Interop

end Vng.Cantcoap
