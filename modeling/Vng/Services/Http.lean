import Vng.Host
import Vng.Lib.Machine

/-!
# `HttpClient` and the responses of `ZCloudClient`

The cloud client of the light sensor sends requests through libcurl, which hands the body of each
response on in chunks, whenever and in whatever pieces it comes in. A request that completes gives
its body to the handler that was registered for it. `_respBodyWriteCB` makes the body as long as
the chunk and writes the chunk over it.
-/

namespace Vng
namespace Http

open Memory (Checked loadAll loadAll_eq_ok ok_bind)

/-- `ZCloudClient::ResponseHandler`. -/
inductive ResponseHandler
  | gotDeviceList
  | gotDeviceDetail
deriving DecidableEq

/-- `HttpRequest::Private`, as far as a response changes it. -/
structure HttpRequest where
  respBody : List Byte
  resultCode : ℤ
deriving DecidableEq

/-- The request behind `make` and `initialize`. -/
def HttpRequest.initialized : HttpRequest := ⟨[], -1⟩

/-- `std::string::resize`. -/
def resized (body : List Byte) (size : ℕ) : List Byte :=
  body.take size ++ List.replicate (size - body.length) 0

/-- `_respBodyWriteCB`: what it returns, and the body. -/
def respBodyWriteCB (ptr : List Byte) (size nmemb : ℕ) (body : List Byte) :
    Checked (ℕ × List Byte) := do
  let realsize := size * nmemb
  let body := resized body realsize
  let bytes ← loadAll ptr 0 realsize
  -- `memcpy` to the beginning of the body
  return (realsize, bytes ++ body.drop realsize)

/-- A call of a handler, with the chunks that libcurl has handed on for its request. -/
structure Response where
  handler : ResponseHandler
  content : List Byte
  chunks : List (List Byte)
deriving DecidableEq

/-- The requests by their addresses, and a record of the responses. -/
structure State where
  requests : ℕ → Option HttpRequest
  /-- `_respHandlers`. -/
  respHandlers : ℕ → Option ResponseHandler
  /-- The chunks of each request so far. -/
  chunks : ℕ → List (List Byte)
  responses : List Response

/-- The client behind `initialize`. -/
def initialized : State where
  requests := fun _ => none
  respHandlers := fun _ => none
  chunks := fun _ => []
  responses := []

inductive Event
  /-- `_sendCloudRequest` of a new request; `error` is what `sendRequest` returns. -/
  | send (req : ℕ) (handler : Option ResponseHandler) (error : ℤ)
  /-- libcurl calls the write function. -/
  | write (req : ℕ) (ptr : List Byte) (size nmemb : ℕ)
  /-- libcurl reports that a transfer is done. -/
  | done (req : ℕ) (res : ℤ)
deriving DecidableEq

/-- The handler is registered for a request that was sent. -/
def registered (handler : Option ResponseHandler) (error : ℤ) : Option ResponseHandler :=
  if error = 0 then handler else none

/-- `_requestCompleted`: the handler is forgotten, and gets the body. -/
def requestCompleted (s : State) (req : ℕ) (request : HttpRequest) : State :=
  let responses :=
    match s.respHandlers req with
    | none => s.responses
    | some handler => s.responses ++ [⟨handler, request.respBody, s.chunks req⟩]
  { s with
    requests := Function.update s.requests req none
    respHandlers := Function.update s.respHandlers req none
    responses := responses }

def step (s : State) : Event → Option State
  | .send req handler error =>
    -- `new` gives an address that is not in use
    if s.requests req ≠ none then none
    else some { s with
      requests := Function.update s.requests req (some .initialized)
      respHandlers := Function.update s.respHandlers req (registered handler error)
      chunks := Function.update s.chunks req [] }
  | .write req ptr size nmemb =>
    match s.requests req with
    | none => none
    | some request =>
      -- libcurl passes `size * nmemb` bytes
      if ptr.length ≠ size * nmemb then none
      else
        match respBodyWriteCB ptr size nmemb request.respBody with
        | .error _ => none
        | .ok (_, body) => some { s with
            requests := Function.update s.requests req (some { request with respBody := body })
            chunks := Function.update s.chunks req (s.chunks req ++ [ptr]) }
  | .done req res =>
    match s.requests req with
    | none => none
    | some request => some (requestCompleted s req { request with resultCode := res })

/-! ## The write function -/

/-- The body is the chunk, whatever it was. -/
lemma respBodyWriteCB_eq {ptr : List Byte} {size nmemb : ℕ} (h : ptr.length = size * nmemb)
    (body : List Byte) : respBodyWriteCB ptr size nmemb body = .ok (size * nmemb, ptr) := by
  have hresized : (resized body (size * nmemb)).length = size * nmemb := by
    unfold resized
    rw [List.length_append, List.length_take, List.length_replicate]
    omega
  unfold respBodyWriteCB
  dsimp only
  rw [loadAll_eq_ok (by omega), ok_bind, List.drop_zero, List.take_of_length_le h.le,
    List.drop_of_length_le hresized.le, List.append_nil]
  rfl

/-- The last of some chunks is all of them exactly if the others are empty. -/
lemma getLast_eq_flatten_iff {α : Type} (chunks : List (List α)) :
    chunks.getLast?.getD [] = chunks.flatten ↔ ∀ chunk ∈ chunks.dropLast, chunk = [] := by
  rcases List.eq_nil_or_concat chunks with rfl | ⟨first, last, rfl⟩
  · simp
  · rw [List.concat_eq_append, List.getLast?_concat, List.dropLast_concat, List.flatten_append,
      List.flatten_singleton, Option.getD_some, List.self_eq_append_left, List.flatten_eq_nil_iff]

/-! ## The responses -/

/-- Every handler got the chunks of its response one after another. -/
def Assembled (s : State) : Prop :=
  ∀ response ∈ s.responses, response.content = response.chunks.flatten

/-- A response for a handler has come in one piece: all chunks but the last are empty. -/
def Whole (s : State) : Event → Prop
  | .done req _ => s.respHandlers req ≠ none → ∀ chunk ∈ (s.chunks req).dropLast, chunk = []
  | _ => True

instance (s : State) : ∀ event, Decidable (Whole s event)
  | .done _ _ => inferInstanceAs (Decidable (_ → _))
  | .send _ _ _ | .write _ _ _ _ => .isTrue trivial

/-- The body of a request is its last chunk. -/
def Overwritten (s : State) : Prop :=
  ∀ req request, s.requests req = some request →
    request.respBody = (s.chunks req).getLast?.getD []

/-- A request changes together with its chunks, and no other one does. -/
lemma overwritten_update {s : State} (h : Overwritten s) (req : ℕ) {request : HttpRequest}
    {chunks : List (List Byte)} (hbody : request.respBody = chunks.getLast?.getD []) :
    Overwritten { s with
      requests := Function.update s.requests req (some request)
      chunks := Function.update s.chunks req chunks } := by
  intro other found hfound
  dsimp only at hfound ⊢
  by_cases hother : other = req
  · subst hother
    rw [Function.update_self, Option.some.injEq] at hfound
    rw [Function.update_self, ← hfound, hbody]
  · rw [Function.update_of_ne hother] at hfound ⊢
    exact h other found hfound

lemma overwritten_step {s s' : State} {event : Event} (h : Overwritten s)
    (hstep : step s event = some s') : Overwritten s' := by
  cases event with
  | send req handler error =>
    dsimp only [step] at hstep
    split_ifs at hstep
    obtain rfl := Option.some.inj hstep
    exact overwritten_update h req rfl
  | write req ptr size nmemb =>
    dsimp only [step] at hstep
    split at hstep
    · cases hstep
    · split_ifs at hstep with hlength
      rw [respBodyWriteCB_eq (not_not.mp hlength)] at hstep
      obtain rfl := Option.some.inj hstep
      apply overwritten_update h req
      rw [List.getLast?_concat]
      rfl
  | done req res =>
    dsimp only [step] at hstep
    split at hstep
    · cases hstep
    · obtain rfl := Option.some.inj hstep
      intro other request hrequest
      dsimp only [requestCompleted] at hrequest ⊢
      by_cases hother : other = req
      · subst hother
        rw [Function.update_self] at hrequest
        cases hrequest
      · rw [Function.update_of_ne hother] at hrequest
        exact h other request hrequest

/-- Only a completed request adds a response, the one of its handler. -/
lemma responses_step {s s' : State} {event : Event} (h : Overwritten s)
    (hstep : step s event = some s') :
    s'.responses = s.responses ∨ ∃ req res handler, event = .done req res ∧
      s.respHandlers req = some handler ∧
      s'.responses = s.responses ++
        [⟨handler, (s.chunks req).getLast?.getD [], s.chunks req⟩] := by
  cases event with
  | send req handler error =>
    dsimp only [step] at hstep
    split_ifs at hstep
    obtain rfl := Option.some.inj hstep
    exact .inl rfl
  | write req ptr size nmemb =>
    dsimp only [step] at hstep
    split at hstep
    · cases hstep
    · split_ifs at hstep with hlength
      rw [respBodyWriteCB_eq (not_not.mp hlength)] at hstep
      obtain rfl := Option.some.inj hstep
      exact .inl rfl
  | done req res =>
    dsimp only [step] at hstep
    split at hstep
    · cases hstep
    · rename_i request hrequest
      obtain rfl := Option.some.inj hstep
      unfold requestCompleted
      cases hhandler : s.respHandlers req with
      | none => exact .inl rfl
      | some handler =>
        rw [h req request hrequest]
        exact .inr ⟨req, res, handler, rfl, hhandler, rfl⟩

lemma assembled_step {s s' : State} {event : Event} (h : Overwritten s ∧ Assembled s)
    (hwhole : Whole s event) (hstep : step s event = some s') :
    Overwritten s' ∧ Assembled s' := by
  refine ⟨overwritten_step h.1 hstep, ?_⟩
  unfold Assembled
  rcases responses_step h.1 hstep with hsame | ⟨req, res, handler, rfl, hhandler, hnew⟩
  · rw [hsame]
    exact h.2
  · rw [hnew]
    intro response hresponse
    rcases List.mem_append.mp hresponse with hold | hlast
    · exact h.2 response hold
    · rw [List.mem_singleton.mp hlast]
      exact (getLast_eq_flatten_iff _).mpr (hwhole (by simp [hhandler]))

/-- A response in several pieces reaches its handler as the last of them. -/
lemma not_assembled_step {s s' : State} {event : Event} (h : Overwritten s ∧ Assembled s)
    (hwhole : ¬ Whole s event) (hstep : step s event = some s') : ¬ Assembled s' := by
  intro hassembled
  apply hwhole
  rcases responses_step h.1 hstep with hsame | ⟨req, res, handler, rfl, hhandler, hnew⟩
  · cases event with
    | send | write => trivial
    | done req res =>
      intro hregistered
      obtain ⟨handler, hhandler⟩ := Option.ne_none_iff_exists'.mp hregistered
      dsimp only [step] at hstep
      split at hstep
      · cases hstep
      · obtain rfl := Option.some.inj hstep
        simp [requestCompleted, hhandler] at hsame
  · intro _
    have hcontent := hassembled
      ⟨handler, (s.chunks req).getLast?.getD [], s.chunks req⟩ (by rw [hnew]; simp)
    exact (getLast_eq_flatten_iff _).mp hcontent

lemma assembled_initialized : Overwritten initialized ∧ Assembled initialized := by
  constructor
  · intro req request hrequest
    cases hrequest
  · intro response hresponse
    cases hresponse

/-- **Responses.** Throughout a run every handler gets all chunks of its response, one after
another, exactly if every response for a handler comes in one piece. -/
theorem assembled_iff {events : List Event} {s : State}
    (hrun : Machine.run step initialized events = some s) :
    Machine.Always step Assembled initialized events ↔
      Machine.Along step Whole initialized events :=
  Machine.always_iff_along (fun _ h => h.2) (fun _ _ _ h => assembled_step h)
    (fun _ _ _ h => not_assembled_step h) assembled_initialized hrun

/-- Two requests with their chunks mixed, each response in one piece. -/
theorem assembled_iff_mixed :
    Machine.Always step Assembled initialized
      [.send 1 (some .gotDeviceList) 0, .send 2 (some .gotDeviceDetail) 0,
        .write 2 [0x7B, 0x7D] 1 2, .write 1 [] 1 0, .write 1 [0x5B, 0x5D] 2 1, .done 1 0,
        .done 2 0] :=
  (assembled_iff rfl).mpr (by decide)

/-- A device list in two chunks: its handler gets the second. -/
theorem assembled_two_chunks :
    ∃ s, Machine.run step initialized
        [.send 1 (some .gotDeviceList) 0, .write 1 [0x5B] 1 1, .write 1 [0x5D] 1 1, .done 1 0] =
          some s ∧
      s.responses = [⟨.gotDeviceList, [0x5D], [[0x5B], [0x5D]]⟩] ∧ ¬ Assembled s := by
  refine ⟨_, rfl, rfl, ?_⟩
  unfold Assembled
  decide

end Http
end Vng
