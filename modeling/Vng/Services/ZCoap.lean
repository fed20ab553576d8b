import Vng.Cantcoap.Uri
import Vng.Cantcoap.Build

/-!
# The CoAP server of the gateway

`main` of `light/zcoap` receives one datagram after another into one buffer, prints that buffer as a
string, and looks for the resource that the datagram names in a table with one entry. What is asked
of that resource is answered, and the first bytes of the payload of a `GET`, as many as a pointer
has, are handed on.
-/

namespace Vng.Services.ZCoap

open Memory OptionList CoapMessage Cantcoap

/-- `BUF_LEN`. -/
def bufLen : ℕ := 500

/-- `URI_BUF_LEN`. -/
def uriBufLen : ℕ := 32

def esp32 : List Byte := [0x65, 0x73, 0x70, 0x33, 0x32]

/-- `gURIA`, the only key of `directory`. -/
def gUriA : List Byte := 0x2F :: esp32

/-- `IotGateway TamVH`. -/
def gatewayText : List Byte :=
  [0x49, 0x6F, 0x74, 0x47, 0x61, 0x74, 0x65, 0x77, 0x61, 0x79, 0x20, 0x54, 0x61, 0x6D, 0x56, 0x48]

/-- `DELETE OK`. -/
def deleteText : List Byte := [0x44, 0x45, 0x4C, 0x45, 0x54, 0x45, 0x20, 0x4F, 0x4B]

inductive Output
  | publish (msg : List Byte)
  | send (bytes : List Byte)
deriving DecidableEq, Repr

section Server

-- `sizeof(char *)`, and what the new memory of a response holds
variable (pointerSize : ℕ) (fresh : ℕ → ℕ → Byte)

/-- `post_to_mqtt`; the string is made of as many bytes as the pointer has, and not of `NULL`. -/
def postToMqtt : Option (List Byte) → Checked (List Byte)
  | none => .error .outOfBounds
  | some payload => loadAll payload 0 pointerSize

/-- What `Callback` does for the code of the request. -/
def respond (response : CoapPdu) (code : Byte) (payload : Option (List Byte)) :
    Checked (CoapPdu × List Output) :=
  if code = 1 then do
    let msg ← postToMqtt pointerSize payload
    let response ← response.setCode 0x45
    let (_, response) ← response.setContentFormat (fresh 1) 0
    let (_, response) ← response.setPayload (fresh 2) gatewayText
    .ok (response, [.publish msg])
  else if code = 2 then do
    let response ← response.setCode 0x41
    .ok (response, [])
  else if code = 3 then do
    let response ← response.setCode 0x44
    .ok (response, [])
  else if code = 4 then do
    let response ← response.setCode 0x42
    let (_, response) ← response.setPayload (fresh 2) deleteText
    .ok (response, [])
  else .ok (response, [])

/-- The type of the response, and what `sendto` is given. -/
def sendResponse (request response : CoapPdu) : Checked (List Byte) := do
  let type ← request.getType
  let response ← if type = 0 ∨ type = 0x10 then response.setType 0x20 else .ok response
  loadAll response.pdu 0 response.pduLength

def callback (request : CoapPdu) : Checked (List Output) := do
  let (_, response) ← CoapPdu.fresh.setVersion 1
  let messageId ← request.getMessageId
  let response ← response.setMessageId messageId
  let tokenLength ← request.getTokenLength
  let token ← loadAll request.pdu 4 tokenLength
  let (_, response) ← response.setToken (fresh 0) token
  let payload ← request.getPayloadCopy
  let code ← request.getCode
  let (response, outputs) ← respond pointerSize fresh response code payload
  let bytes ← sendResponse request response
  .ok (outputs ++ [.send bytes])

/-- `recvPDU` with its buffer, `uriBuffer` and `recvURILen`. -/
structure Server where
  recvPdu : CoapPdu
  uriBuffer : List Byte
  recvUriLen : ℕ
deriving DecidableEq, Repr

def Server.start (buffer uriBuffer : List Byte) : Server :=
  ⟨CoapPdu.fromBuffer buffer bufLen, uriBuffer, 0⟩

/-- What `main` does with a packet that is valid. -/
def Server.lookUp (s : Server) : Checked (Server × List Output) := do
  let _ ← s.recvPdu.printHuman
  let (error, uriBuffer, recvUriLen) ← s.recvPdu.getUri s.uriBuffer s.recvUriLen
  let s := { s with uriBuffer := uriBuffer, recvUriLen := recvUriLen }
  if error ≠ 0 ∨ recvUriLen = 0 then .ok (s, [])
  -- `strlen` of the key
  else if 0 ∉ uriBuffer then .error .outOfBounds
  else if cString uriBuffer = gUriA then do
    let outputs ← callback pointerSize fresh s.recvPdu
    .ok (s, outputs)
  else .ok (s, [])

/-- One round of `main`. -/
def Server.receive (s : Server) (datagram : List Byte) : Checked (Server × List Output) := do
  let data := datagram.take bufLen
  let buffer ← copyTo s.recvPdu.pdu 0 data
  -- `INFO` prints the buffer as a string
  if 0 ∉ buffer then .error .outOfBounds
  else do
    let (valid, recvPdu) ← { s.recvPdu with pdu := buffer, pduLength := data.length }.validate
    let s := { s with recvPdu := recvPdu }
    if valid then s.lookUp pointerSize fresh else .ok (s, [])

end Server

/-- One datagram after another, with what new memory holds at each. -/
def Server.run (pointerSize : ℕ) (s : Server) :
    List ((ℕ → ℕ → Byte) × List Byte) → Checked (Server × List (List Output))
  | [] => .ok (s, [])
  | (fresh, datagram) :: datagrams => do
    let (s, outputs) ← s.receive pointerSize fresh datagram
    let (s, rest) ← s.run pointerSize datagrams
    .ok (s, outputs :: rest)

/-! ## What is asked for and what is answered -/

/-- The options name the resource: with the only component of the path and without a query, or with
a first component that goes on behind a zero, and then with anything that fits. -/
def Named (options : List (Word × List Byte)) : Prop :=
  ∃ value rest, options.filter isUri = (uriPath, value) :: rest ∧
    (value = esp32 ∧ rest = [] ∨
      (esp32 ++ [0]) <+: value ∧ uriText (uriBufLen - 1) [0x2F] false options ≠ none)

/-- A datagram is a message that asks for the resource. -/
structure Asks (datagram : List Byte) (m : Message) : Prop where
  encode : datagram = m.encode
  version : m.version = 1
  code : validCode m.code
  named : Named (Libcoap.wrapped 0 m.items)

/-- The id and the token of the request. -/
def echo (m : Message) : Draft :=
  { Draft.empty with id := wordOf m.id.2 m.id.1, token := m.token, token_le := m.token_le }

/-- What is answered to a request with its code. -/
def answer (m : Message) : Draft :=
  if m.code = 1 then
    { echo m with
      code := 0x45, options := [(12, [])], payload := gatewayText
      sound := ⟨by decide, by decide, by decide⟩ }
  else if m.code = 2 then { echo m with code := 0x41 }
  else if m.code = 3 then { echo m with code := 0x44 }
  else if m.code = 4 then { echo m with code := 0x42, payload := deleteText }
  else echo m

/-- It is an acknowledgement if the request is confirmable or not. -/
def reply (m : Message) : Draft :=
  if m.type < 2 then { answer m with type := ⟨2, by decide⟩ } else answer m

def published (pointerSize : ℕ) (m : Message) : List Output :=
  if m.code = 1 then [.publish (m.payload.take pointerSize)] else []

/-- More bytes of the payload are wanted than there are. -/
def Overreads (pointerSize : ℕ) (m : Message) : Prop :=
  m.code = 1 ∧ m.payload.length < pointerSize

instance (pointerSize : ℕ) (m : Message) : Decidable (Overreads pointerSize m) :=
  inferInstanceAs (Decidable (_ ∧ _))

def Answered (pointerSize : ℕ) (datagram : List Byte) (outputs : List Output) : Prop :=
  (∃ m, Asks datagram m ∧ outputs = published pointerSize m ++ [.send (reply m).bytes]) ∨
    (∀ m, ¬ Asks datagram m) ∧ outputs = []

/-- What is in the buffer after a datagram. -/
def stored (buffer datagram : List Byte) : List Byte :=
  datagram ++ buffer.drop datagram.length

/-- Nothing ends the string that is printed, or more is wanted of the payload than there is. -/
def Faulty (pointerSize : ℕ) (buffer datagram : List Byte) : Prop :=
  0 ∉ stored buffer datagram ∨ ∃ m, Asks datagram m ∧ Overreads pointerSize m

/-! ## The response -/

section Response

variable {pointerSize : ℕ} {s : CoapPdu} {data stale : List Byte}
  {m : Message}

lemma postToMqtt_spec (hpointer : 0 < pointerSize) (payload : List Byte) :
    (pointerSize ≤ payload.length →
      postToMqtt pointerSize (if payload = [] then none else some payload) =
        .ok (payload.take pointerSize)) ∧
    (payload.length < pointerSize →
      postToMqtt pointerSize (if payload = [] then none else some payload) =
        .error .outOfBounds) := by
  by_cases hnil : payload = []
  · subst hnil
    refine ⟨fun hle => ?_, fun _ => rfl⟩
    rw [List.length_nil] at hle
    omega
  · rw [if_neg hnil]
    refine ⟨fun hle => ?_, fun hlt => ?_⟩
    · rw [postToMqtt, loadAll_eq_ok (by omega), List.drop_zero]
    · exact if_neg (by omega)

/-- The token of the request, which may have none. -/
lemma setToken_spec {s : CoapPdu} (fresh : ℕ → Byte) (m : Message)
    (h : Drawn s { Draft.empty with id := wordOf m.id.2 m.id.1 }) :
    ∃ r s', s.setToken fresh m.token = .ok (r, s') ∧ Drawn s' (echo m) := by
  by_cases hnil : m.token = []
  · refine ⟨1, s, ?_, ?_⟩
    · rw [hnil]
      rfl
    · have hecho : echo m = { Draft.empty with id := wordOf m.id.2 m.id.1 } := by
        simp only [echo, hnil]
        rfl
      rwa [hecho]
  · have hlength : (Draft.bytes { Draft.empty with id := wordOf m.id.2 m.id.1 }).length = 4 := rfl
    obtain ⟨s', hrun, hs'⟩ := Drawn.setToken fresh h rfl hnil m.token_le (by omega)
    exact ⟨0, s', hrun, hs'⟩

/-- The response for the code of the request. -/
lemma respond_spec (fresh : ℕ → ℕ → Byte) (hpointer : 0 < pointerSize) (h : Drawn s (echo m)) :
    (¬ Overreads pointerSize m → ∃ s',
      respond pointerSize fresh s m.code (if m.payload = [] then none else some m.payload) =
        .ok (s', published pointerSize m) ∧ Drawn s' (answer m)) ∧
    (Overreads pointerSize m →
      respond pointerSize fresh s m.code (if m.payload = [] then none else some m.payload) =
        .error .outOfBounds) := by
  obtain ⟨hposted, hover⟩ := postToMqtt_spec hpointer m.payload
  unfold Overreads published answer respond
  by_cases hget : m.code = 1
  · simp only [if_pos hget]
    refine ⟨fun hnot => ?_, fun hreads => ?_⟩
    · obtain ⟨s₁, hcode, h₁⟩ := h.setCode 0x45
      obtain ⟨s₂, hformat, h₂⟩ : ∃ s₂, s₁.setContentFormat (fresh 1) 0 = .ok (0, s₂) ∧ Drawn s₂ _ :=
        Drawn.addOption (fresh 1) h₁ (show ([] : List Byte).length < 269 by decide) (.inl rfl)
      obtain ⟨s₃, hpayload, h₃⟩ :=
        Drawn.setPayload (fresh 2) h₂ (show gatewayText ≠ [] by decide) rfl
      refine ⟨s₃, ?_, h₃⟩
      rw [hposted (not_lt.mp fun hlt => hnot ⟨hget, hlt⟩), ok_bind, hcode, ok_bind, hformat,
        ok_bind]
      dsimp only
      rw [hpayload, ok_bind]
    · rw [hover hreads.2]
      rfl
  · simp only [if_neg hget]
    refine ⟨fun _ => ?_, fun hreads => absurd hreads.1 hget⟩
    by_cases hpost : m.code = 2
    · simp only [if_pos hpost]
      obtain ⟨s₁, hcode, h₁⟩ := h.setCode 0x41
      exact ⟨s₁, by rw [hcode, ok_bind], h₁⟩
    · simp only [if_neg hpost]
      by_cases hput : m.code = 3
      · simp only [if_pos hput]
        obtain ⟨s₁, hcode, h₁⟩ := h.setCode 0x44
        exact ⟨s₁, by rw [hcode, ok_bind], h₁⟩
      · simp only [if_neg hput]
        by_cases hdelete : m.code = 4
        · simp only [if_pos hdelete]
          obtain ⟨s₁, hcode, h₁⟩ := h.setCode 0x42
          obtain ⟨s₂, hpayload, h₂⟩ :=
            Drawn.setPayload (fresh 2) h₁ (show deleteText ≠ [] by decide) rfl
          exact ⟨s₂, by rw [hcode, ok_bind, hpayload, ok_bind], h₂⟩
        · simp only [if_neg hdelete]
          exact ⟨s, rfl, h⟩

lemma type_cases : ∀ t : Fin 4,
    (BitVec.ofNat 8 (t * 16) = 0 ∨ BitVec.ofNat 8 (t * 16) = 0x10) ↔ (t : ℕ) < 2 := by
  decide

lemma load_drawn {response : CoapPdu} {d : Draft} (h : Drawn response d) :
    loadAll response.pdu 0 response.pduLength = .ok d.bytes := by
  have hlength : response.pduLength = d.bytes.length := h.pduLength
  rw [h.pdu_eq, hlength, loadAll_eq_ok (by omega), List.drop_zero, List.take_length]

lemma sendResponse_spec {response : CoapPdu} (h : Accepted s data stale m)
    (hdata : data = m.encode) (hresponse : Drawn response (answer m)) :
    sendResponse s response = .ok (reply m).bytes := by
  have htype := type_cases ⟨m.type, m.type_lt⟩
  dsimp only at htype
  rw [sendResponse, h.getType hdata, ok_bind]
  simp only [htype]
  rw [reply]
  split_ifs
  · obtain ⟨s', hrun, hs'⟩ := hresponse.setType ⟨2, by decide⟩
    have hrun : response.setType 0x20 = .ok s' := hrun
    rw [hrun, ok_bind]
    exact load_drawn hs'
  · exact load_drawn hresponse

/-- The callback answers the request, unless it reads too much of its payload. -/
lemma callback_spec (fresh : ℕ → ℕ → Byte) (h : Accepted s data stale m) (hdata : data = m.encode)
    (hpointer : 0 < pointerSize) :
    (¬ Overreads pointerSize m → callback pointerSize fresh s =
      .ok (published pointerSize m ++ [.send (reply m).bytes])) ∧
    (Overreads pointerSize m → callback pointerSize fresh s = .error .outOfBounds) := by
  have hversion : CoapPdu.fresh.setVersion 1 = .ok (1, CoapPdu.fresh) := by decide
  obtain ⟨s₁, hrun₁, h₁⟩ := drawn_fresh.setMessageId (wordOf m.id.2 m.id.1)
  obtain ⟨r, s₂, hrun₂, h₂⟩ := setToken_spec (fresh 0) m h₁
  obtain ⟨hok, hover⟩ := respond_spec fresh hpointer h₂
  rw [callback, hversion, ok_bind]
  dsimp only
  rw [h.getMessageId hdata, ok_bind, hrun₁, ok_bind, h.getTokenLength hdata, ok_bind,
    h.load_token hdata, ok_bind, hrun₂, ok_bind]
  dsimp only
  rw [h.getPayloadCopy hdata, ok_bind, h.getCode hdata, ok_bind]
  constructor
  · intro hnot
    obtain ⟨s₃, hrun₃, h₃⟩ := hok hnot
    rw [hrun₃, ok_bind]
    dsimp only
    rw [sendResponse_spec h hdata h₃, ok_bind]
  · intro hreads
    rw [hover hreads]
    rfl

end Response

/-! ## One datagram -/

section Receive

variable {pointerSize : ℕ} {s : Server} {buffer datagram : List Byte} {m : Message}
  {options : List (Word × List Byte)}

/-- Nothing is kept from one datagram to the next but what is left in the buffers. -/
structure Ready (s : Server) (buffer : List Byte) : Prop where
  pdu : s.recvPdu.pdu = buffer
  length_buffer : buffer.length = bufLen
  length_uriBuffer : s.uriBuffer.length = uriBufLen

/-- The datagram leaves two bytes of the buffer alone, and no option that the walk comes to says
more than 16 bits hold. -/
structure Readable (buffer datagram : List Byte) : Prop where
  length_le : datagram.length + 2 ≤ bufLen
  plain : Plain (behindToken datagram) (buffer.drop datagram.length)

lemma named_iff :
    (∃ text n, uriText (uriBufLen - 1) [0x2F] false options = some (text, n) ∧ n ≠ 0 ∧
      cString text = gUriA) ↔ Named options :=
  cString_uriText_iff (by decide) (by decide) (by decide) (by decide) (by decide)

lemma cString_terminated (text rest : List Byte) : cString (text ++ 0 :: rest) = cString text := by
  induction text with
  | nil => rfl
  | cons b text ih =>
    by_cases hb : b = 0
    · rw [hb, List.cons_append, cString_zero, cString_zero]
    · rw [List.cons_append, cString_cons hb, cString_cons hb, ih]

lemma Asks.unique {m' : Message} (h : Asks datagram m) (h' : Asks datagram m') : m = m' :=
  encode_injective (h.encode.symm.trans h'.encode)

/-- What comes of a datagram. -/
structure Handles (pointerSize : ℕ) (buffer datagram : List Byte)
    (result : Checked (Server × List Output)) : Prop where
  ok : ¬ Faulty pointerSize buffer datagram → ∃ s' outputs, result = .ok (s', outputs) ∧
    Ready s' (stored buffer datagram) ∧ Answered pointerSize datagram outputs
  error : Faulty pointerSize buffer datagram → result = .error .outOfBounds

lemma handles_nothing (h : Ready s (stored buffer datagram)) (hzero : 0 ∈ stored buffer datagram)
    (hnot : ∀ m, ¬ Asks datagram m) : Handles pointerSize buffer datagram (.ok (s, [])) := by
  refine ⟨fun _ => ⟨s, [], rfl, h, .inr ⟨hnot, rfl⟩⟩, ?_⟩
  rintro (hprinted | ⟨m, hasks, -⟩)
  · exact absurd hzero hprinted
  · exact absurd hasks (hnot m)

lemma handles_callback (fresh : ℕ → ℕ → Byte) {stale : List Byte}
    (h : Ready s (stored buffer datagram)) (hzero : 0 ∈ stored buffer datagram)
    (haccepted : Accepted s.recvPdu datagram stale m) (hasks : Asks datagram m)
    (hpointer : 0 < pointerSize) :
    Handles pointerSize buffer datagram
      (callback pointerSize fresh s.recvPdu >>= fun outputs => .ok (s, outputs)) := by
  obtain ⟨hok, hover⟩ := callback_spec fresh haccepted hasks.encode hpointer
  constructor
  · intro hfaulty
    rw [hok fun hreads => hfaulty (.inr ⟨m, hasks, hreads⟩), ok_bind]
    exact ⟨s, _, rfl, h, .inl ⟨m, hasks, rfl⟩⟩
  · rintro (hprinted | ⟨m', hasks', hreads⟩)
    · exact absurd hzero hprinted
    · obtain rfl := hasks.unique hasks'
      rw [hover hreads]
      rfl

/-- A packet that is valid asks for the resource, or nothing is done. -/
lemma lookUp_spec (fresh : ℕ → ℕ → Byte) {stale : List Byte}
    (h : Ready s (stored buffer datagram)) (hprinted : 0 ∈ stored buffer datagram)
    (haccepted : Accepted s.recvPdu datagram stale m) (hm : datagram = m.encode)
    (hversion : m.version = 1) (hcode : validCode m.code) (hsmall : Cantcoap.Small m.items)
    (hpointer : 0 < pointerSize) :
    Handles pointerSize buffer datagram (s.lookUp pointerSize fresh) := by
  have hnot (hnamed : ¬ Named (Libcoap.wrapped 0 m.items)) (m' : Message) : ¬ Asks datagram m' := by
    intro hasks
    obtain rfl : m = m' := encode_injective (hm.symm.trans hasks.encode)
    exact hnamed hasks.named
  rw [Server.lookUp, printHuman_spec haccepted hm hsmall, ok_bind]
  obtain ⟨text, n, free, htext, huri, hlength⟩ | ⟨htext, dst, huri, hlength⟩ :=
    getUri_spec s.recvUriLen haccepted hm hsmall (show 1 ≤ uriBufLen - 1 by decide)
      h.length_uriBuffer
  · rw [huri, ok_bind]
    dsimp only
    have hroom : (text ++ 0 :: free).length = uriBufLen := by
      rw [List.length_append, List.length_cons, ← Nat.add_assoc, hlength]
      rfl
    have hready : Ready ⟨s.recvPdu, text ++ 0 :: free, n⟩ (stored buffer datagram) :=
      ⟨h.pdu, h.length_buffer, hroom⟩
    by_cases hkey : n ≠ 0 ∧ cString text = gUriA
    · have hzero : 0 ∈ text ++ 0 :: free := List.mem_append_right _ List.mem_cons_self
      have hasks : Asks datagram m :=
        ⟨hm, hversion, hcode, named_iff.mp ⟨text, n, htext, hkey.1, hkey.2⟩⟩
      rw [if_neg (by omega), if_neg (not_not.mpr hzero), cString_terminated, if_pos hkey.2]
      exact handles_callback fresh hready hprinted haccepted hasks hpointer
    · have hnothing : Handles pointerSize buffer datagram
          (.ok (⟨s.recvPdu, text ++ 0 :: free, n⟩, [])) := by
        refine handles_nothing hready hprinted (hnot fun hnamed => hkey ?_)
        obtain ⟨text', n', htext', hn', hkey'⟩ := named_iff.mpr hnamed
        rw [htext] at htext'
        obtain ⟨rfl, rfl⟩ := Prod.mk.inj (Option.some.inj htext')
        exact ⟨hn', hkey'⟩
      by_cases hn : n = 0
      · rw [if_pos (.inr hn)]
        exact hnothing
      · have hzero : 0 ∈ text ++ 0 :: free := List.mem_append_right _ List.mem_cons_self
        rw [if_neg (by omega), if_neg (not_not.mpr hzero), cString_terminated,
          if_neg fun h => hkey ⟨hn, h⟩]
        exact hnothing
  · -- the URI does not fit
    rw [huri, ok_bind]
    dsimp only
    rw [if_pos (.inl (by decide))]
    refine handles_nothing ⟨h.pdu, h.length_buffer, hlength⟩ hprinted (hnot fun hnamed => ?_)
    obtain ⟨text', n', htext', -, -⟩ := named_iff.mpr hnamed
    rw [htext] at htext'
    cases htext'

/-- **One datagram.** -/
lemma receive_spec (fresh : ℕ → ℕ → Byte) (h : Ready s buffer)
    (hreadable : Readable buffer datagram) (hpointer : 0 < pointerSize) :
    Handles pointerSize buffer datagram (s.receive pointerSize fresh datagram) := by
  have hsize := hreadable.length_le
  have hbuffer := h.length_buffer
  have hstale : (buffer.drop datagram.length).length = bufLen - datagram.length := by
    rw [List.length_drop, hbuffer]
  have htake : datagram.take bufLen = datagram := List.take_of_length_le (by omega)
  have hstore : copyTo s.recvPdu.pdu 0 datagram = .ok (stored buffer datagram) := by
    have hcopy : copyTo ([] ++ (buffer.take datagram.length ++ buffer.drop datagram.length))
        ([] : List Byte).length datagram = .ok ([] ++ (datagram ++ buffer.drop datagram.length)) :=
      copyTo_append datagram (List.length_take_of_le (by omega))
    rw [List.nil_append, List.take_append_drop] at hcopy
    rw [h.pdu]
    exact hcopy
  have hstored : (stored buffer datagram).length = bufLen := by
    rw [stored, List.length_append, hstale]
    omega
  have hholds : Holds { s.recvPdu with pdu := stored buffer datagram, pduLength := datagram.length }
      datagram (buffer.drop datagram.length) := ⟨rfl, rfl⟩
  rw [Server.receive, htake]
  dsimp only
  rw [hstore, ok_bind]
  by_cases hprinted : 0 ∈ stored buffer datagram
  swap
  · -- the string that is printed does not end in the buffer
    rw [if_pos hprinted]
    exact ⟨fun hnot => absurd (.inl hprinted) hnot, fun _ => rfl⟩
  rw [if_neg (not_not.mpr hprinted)]
  obtain ⟨m, hm, hversion, hcode, recvPdu, hvalid, haccepted⟩ |
      ⟨hnone, recvPdu, hvalid, hrejected⟩ := validate_spec hholds (by omega) hreadable.plain
  · have hsmall : Cantcoap.Small m.items := by
      have hplain := hreadable.plain
      rw [hm, behindToken_encode] at hplain
      exact small_of_plain hplain
    have hready : Ready { s with recvPdu := recvPdu } (stored buffer datagram) :=
      ⟨haccepted.pdu, hstored, h.length_uriBuffer⟩
    rw [hvalid, ok_bind]
    exact lookUp_spec fresh hready hprinted haccepted hm hversion hcode hsmall hpointer
  · rw [hvalid, ok_bind]
    exact handles_nothing ⟨hrejected.pdu, hstored, h.length_uriBuffer⟩ hprinted fun m hasks =>
      hnone m hasks.encode hasks.version hasks.code

end Receive

/-! ## Every run -/

section Run

variable {pointerSize : ℕ} {s : Server} {buffer : List Byte}
  {datagrams : List ((ℕ → ℕ → Byte) × List Byte)}

/-- It holds of every datagram, with what those before it leave in the buffer. -/
def Throughout (P : List Byte → List Byte → Prop) (buffer : List Byte) : List (List Byte) → Prop
  | [] => True
  | datagram :: datagrams => P buffer datagram ∧ Throughout P (stored buffer datagram) datagrams

lemma run_ready (h : Ready s buffer)
    (hreadable : Throughout Readable buffer (datagrams.map Prod.snd)) (hpointer : 0 < pointerSize) :
    (Throughout (fun b d => ¬ Faulty pointerSize b d) buffer (datagrams.map Prod.snd) →
      ∃ s' outputs, s.run pointerSize datagrams = .ok (s', outputs) ∧
        List.Forall₂ (fun d => Answered pointerSize d.2) datagrams outputs) ∧
    (¬ Throughout (fun b d => ¬ Faulty pointerSize b d) buffer (datagrams.map Prod.snd) →
      s.run pointerSize datagrams = .error .outOfBounds) := by
  -- on the datagrams: what one of them leaves in the buffer is what the next one is stored over
  induction datagrams generalizing s buffer with
  | nil => exact ⟨fun _ => ⟨s, [], rfl, .nil⟩, fun hnot => absurd trivial hnot⟩
  | cons d datagrams ih =>
    obtain ⟨fresh, datagram⟩ := d
    obtain ⟨hfirst, hreadable⟩ := hreadable
    obtain ⟨hok, hfault⟩ := receive_spec fresh h hfirst hpointer
    rw [Server.run]
    by_cases hfaulty : Faulty pointerSize buffer datagram
    · rw [hfault hfaulty]
      exact ⟨fun hnone => absurd hfaulty hnone.1, fun _ => rfl⟩
    · obtain ⟨s₁, outputs, hrun, hready, hanswered⟩ := hok hfaulty
      obtain ⟨hrest, hrestFault⟩ := ih hready hreadable
      rw [hrun, ok_bind]
      dsimp only
      constructor
      · intro hnone
        obtain ⟨s', rest, hrun', hanswers⟩ := hrest hnone.2
        exact ⟨s', outputs :: rest, by rw [hrun', ok_bind], .cons hanswered hanswers⟩
      · intro hsome
        rw [hrestFault fun hnone => hsome ⟨hfaulty, hnone⟩]
        rfl

/-- **Every run.** Whatever the buffers hold at the start and new memory later, each datagram is
answered if it asks for the resource, and nothing is done for the others; the server stops at a
datagram after which the buffer holds no zero, or at a `GET` whose payload has fewer bytes than a
pointer, and only there. -/
theorem run_spec {uriBuffer : List Byte} (hbuffer : buffer.length = bufLen)
    (huriBuffer : uriBuffer.length = uriBufLen)
    (hreadable : Throughout Readable buffer (datagrams.map Prod.snd)) (hpointer : 0 < pointerSize) :
    (Throughout (fun b d => ¬ Faulty pointerSize b d) buffer (datagrams.map Prod.snd) →
      ∃ s' outputs, (Server.start buffer uriBuffer).run pointerSize datagrams = .ok (s', outputs) ∧
        List.Forall₂ (fun d => Answered pointerSize d.2) datagrams outputs) ∧
    (¬ Throughout (fun b d => ¬ Faulty pointerSize b d) buffer (datagrams.map Prod.snd) →
      (Server.start buffer uriBuffer).run pointerSize datagrams = .error .outOfBounds) :=
  run_ready ⟨rfl, hbuffer, huriBuffer⟩ hreadable hpointer

/-- A `GET` of the resource with as many bytes as a pointer has. -/
def get : Message :=
  ⟨1, 0, 1, (0x12, 0x34), [], [⟨11, esp32, by decide, by decide⟩], [0x32, 0x31, 0x2E, 0x35],
    by decide, by decide, by decide⟩

lemma readable_get : Readable (List.replicate bufLen 0) get.encode := by
  have hsmall : Cantcoap.Small get.items := by
    unfold Cantcoap.Small
    decide
  refine ⟨by decide, ?_⟩
  rw [behindToken_encode]
  exact plain_of_small hsmall _ _

/-- The buffer is full of zeros behind it. -/
lemma printed_get : 0 ∈ stored (List.replicate bufLen 0) get.encode :=
  List.mem_append_right _ (by decide)

theorem run_spec_get :
    ∃ s' outputs, (Server.start (List.replicate 500 0) (List.replicate 32 0)).run 4
        [(fun _ _ => 0, get.encode)] = .ok (s', outputs) ∧
      List.Forall₂ (fun d => Answered 4 d.2) [((fun _ _ => 0 : ℕ → ℕ → Byte), get.encode)]
        outputs := by
  have hreadable : Throughout Readable (List.replicate bufLen 0)
      (List.map Prod.snd [((fun _ _ => 0 : ℕ → ℕ → Byte), get.encode)]) :=
    ⟨readable_get, trivial⟩
  have hfaulty : ¬ Faulty 4 (List.replicate bufLen 0) get.encode := by
    rintro (hprinted | ⟨m, hasks, hreads⟩)
    · exact hprinted printed_get
    · obtain rfl : get = m := encode_injective hasks.encode
      exact absurd hreads (by decide)
  exact (run_spec List.length_replicate List.length_replicate hreadable (by decide)).1
    ⟨hfaulty, trivial⟩

end Run

/-! ## What the client reads -/

section Client

variable {m : Message}

lemma reply_token (m : Message) : (reply m).token = m.token := by
  unfold reply answer
  split_ifs <;> rfl

lemma length_reply_le (m : Message) : (reply m).bytes.length ≤ 30 := by
  have htoken := m.token_le
  have hbody : (encodeFrom 0 (reply m).options ++ payloadPart (reply m).payload).length ≤ 18 := by
    unfold reply answer
    split_ifs <;> exact Nat.le_of_ble_eq_true rfl
  rw [Draft.bytes, List.length_append, length_head, reply_token]
  omega

/-- Without a code there is nothing else. -/
lemma reply_empty (h : (reply m).code = 0) :
    (reply m).options = [] ∧ (reply m).payload = [] := by
  unfold reply answer at h ⊢
  split_ifs at h ⊢ <;> first | exact ⟨rfl, rfl⟩ | simp at h

lemma said_reply (m : Message) :
    (reply m).said =
      { type := if m.type < 2 then 2 else 0
        code := (reply m).code
        id := [m.id.1, m.id.2]
        token := m.token
        options := if m.code = 1 then [(12, [])] else []
        payload := (reply m).payload } := by
  have hid : wordBytes (wordOf m.id.2 m.id.1) = [m.id.2, m.id.1] := wordBytes_wordOf _ _
  obtain ⟨hlo, htail⟩ := List.cons.inj hid
  obtain ⟨hhi, -⟩ := List.cons.inj htail
  have hword : [(wordOf m.id.2 m.id.1 >>> 8).setWidth 8, (wordOf m.id.2 m.id.1).setWidth 8] =
      [m.id.1, m.id.2] := by
    rw [hlo, hhi]
  rw [← hword]
  unfold reply answer
  split_ifs <;> rfl

lemma receive_reply_said (m : Message) (c : Libcoap.Contents) :
    Libcoap.receive (reply m).bytes = .ok (some c) ↔
      ((reply m).code = 0 → m.token = []) ∧ c = (reply m).said := by
  rw [receive_bytes]
  have hlength : (reply m).bytes.length = 4 + m.token.length +
      (encodeFrom 0 (reply m).options ++ payloadPart (reply m).payload).length := by
    rw [Draft.bytes, List.length_append, length_head, reply_token]
  constructor
  · rintro ⟨-, hempty, rfl⟩
    refine ⟨fun hzero => List.eq_nil_of_length_eq_zero ?_, rfl⟩
    have := hempty hzero
    omega
  · rintro ⟨htoken, rfl⟩
    refine ⟨(length_reply_le m).trans (by decide), fun hzero => ?_, rfl⟩
    obtain ⟨hoptions, hpayload⟩ := reply_empty hzero
    rw [hlength, htoken hzero, hoptions, hpayload]
    rfl

/-- **What the client reads.** The answer has the id and the token of the request; one without a
code, to a request that the server does not know, can only be read if it has no token. -/
theorem receive_reply (m : Message) (c : Libcoap.Contents) :
    Libcoap.receive (reply m).bytes = .ok (some c) ↔
      ((reply m).code = 0 → m.token = []) ∧ c =
        { type := if m.type < 2 then 2 else 0
          code := (reply m).code
          id := [m.id.1, m.id.2]
          token := m.token
          options := if m.code = 1 then [(12, [])] else []
          payload := (reply m).payload } := by
  rw [receive_reply_said, said_reply]

/-- The methods of the protocol. -/
def methods : List Byte := [1, 2, 3, 4]

lemma reply_code_ne (hmethod : m.code ∈ methods) : (reply m).code ≠ 0 := by
  simp only [methods, List.mem_cons, List.not_mem_nil, or_false] at hmethod
  unfold reply answer
  rcases hmethod with h | h | h | h <;> rw [h] <;> split_ifs <;> first | decide | simp_all

lemma validCode_of_mem : ∀ code ∈ methods, validCode code := by
  decide

/-- **A request and its answer.** What the other library takes for a request of the resource by one
of the methods is answered in every state of the server in which it does not stop, and the other
library reads from the answer the id and the token of the request. It stops if nothing ends the
buffer that it prints, or if the payload of a `GET` has fewer bytes than a pointer. -/
theorem exchange {pointerSize : ℕ} {s : Server} {buffer datagram : List Byte}
    {c : Libcoap.Contents} (fresh : ℕ → ℕ → Byte) (h : Ready s buffer)
    (hreadable : Readable buffer datagram) (hpointer : 0 < pointerSize)
    (hrequest : Libcoap.receive datagram = .ok (some c)) (hmethod : c.code ∈ methods)
    (hnamed : Named c.options) :
    (0 ∈ stored buffer datagram → (c.code = 1 → pointerSize ≤ c.payload.length) →
      ∃ s' outputs bytes c',
        s.receive pointerSize fresh datagram = .ok (s', outputs ++ [.send bytes]) ∧
        Libcoap.receive bytes = .ok (some c') ∧ c'.type = (if c.type < 2 then 2 else 0) ∧
        c'.id = c.id ∧ c'.token = c.token) ∧
    (0 ∉ stored buffer datagram ∨ c.code = 1 ∧ c.payload.length < pointerSize →
      s.receive pointerSize fresh datagram = .error .outOfBounds) := by
  obtain ⟨-, m, hm, hversion, -, -, rfl⟩ := Libcoap.receive_eq_ok_some_iff.mp hrequest
  have hasks : Asks datagram m := ⟨hm, hversion, validCode_of_mem _ hmethod, hnamed⟩
  obtain ⟨hok, herror⟩ := receive_spec fresh h hreadable hpointer
  constructor
  · intro hprinted hpayload
    have hfaulty : ¬ Faulty pointerSize buffer datagram := by
      rintro (hnot | ⟨m', hasks', hget, hshort⟩)
      · exact hnot hprinted
      · obtain rfl := hasks.unique hasks'
        exact absurd (hpayload hget) (not_le.mpr hshort)
    obtain ⟨s', outputs, hrun, -, ⟨m', hasks', rfl⟩ | ⟨hnone, -⟩⟩ := hok hfaulty
    · obtain rfl := hasks.unique hasks'
      refine ⟨s', published pointerSize m, (reply m).bytes, (reply m).said, hrun, ?_, ?_⟩
      · exact (receive_reply_said m _).mpr ⟨fun hzero => absurd hzero (reply_code_ne hmethod), rfl⟩
      · rw [said_reply]
        exact ⟨rfl, rfl, rfl⟩
    · exact absurd hasks (hnone m)
  · rintro (hprinted | hreads)
    · exact herror (.inl hprinted)
    · exact herror (.inr ⟨m, hasks, hreads⟩)

theorem exchange_get :
    ∃ s' outputs bytes c', (Server.start (List.replicate 500 0) (List.replicate 32 0)).receive 4
        (fun _ _ => 0) get.encode = .ok (s', outputs ++ [.send bytes]) ∧
      Libcoap.receive bytes = .ok (some c') ∧ c'.type = 2 ∧ c'.id = [0x12, 0x34] ∧
        c'.token = [] := by
  have hready : Ready (Server.start (List.replicate 500 0) (List.replicate 32 0))
      (List.replicate bufLen 0) := ⟨rfl, List.length_replicate, List.length_replicate⟩
  have hwalkable : Libcoap.Walkable get.items := by
    unfold Libcoap.Walkable
    decide
  have hrequest : Libcoap.receive get.encode = .ok (some (Libcoap.said get)) :=
    Libcoap.receive_eq_ok_some_iff.mpr
      ⟨by decide, get, rfl, rfl, hwalkable, fun hzero => absurd hzero (by decide), rfl⟩
  exact (exchange _ hready readable_get (by decide) hrequest (by decide)
    ⟨esp32, [], by decide, .inl ⟨rfl, rfl⟩⟩).1 printed_get fun _ => le_refl 4

end Client

end Vng.Services.ZCoap
