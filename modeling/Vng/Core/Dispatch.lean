import Vng.Core.Synchronizer

/-!
# `core::Synchronizer`, the dispatch of a batch

`synchronize` of `coresynchronize.cpp` takes the ready descriptors from `epoll_wait` as an array
of callback pointers, and then calls `read` and `write` along that array. Each of them may call
the synchronizer before the next one has its turn.
-/

namespace Vng
namespace Dispatch

open Synchronizer (Call)

variable {Callback : Type}

/-- A call of `read` or `write` that the batch holds. Its descriptor is not in the array. -/
structure Invocation (Callback : Type) where
  descriptor : ℤ
  callback : Callback
  write : Bool
deriving DecidableEq, Repr

/-- A ready descriptor, with `EPOLLIN` and `EPOLLOUT`. -/
structure Ready where
  descriptor : ℤ
  readable : Bool
  writable : Bool
deriving DecidableEq, Repr

/-- The synchronizer, with the batch that it works on. -/
structure State (Callback : Type) where
  synchronizer : Synchronizer.State Callback
  /-- The rest of the batch, in the order of the calls. -/
  pending : List (Invocation Callback)
  /-- The registrations that have been removed, and not appended again. -/
  removed : List (ℤ × Callback)
  /-- `synchronize` has called a callback whose registration had been removed. -/
  stale : Bool

def fresh : State Callback := ⟨Synchronizer.fresh, [], [], false⟩

/-- The calls for one event of the array. -/
def invocations (ready : Ready) (callback : Callback) : List (Invocation Callback) :=
  (if ready.readable then [⟨ready.descriptor, callback, false⟩] else []) ++
    if ready.writable then [⟨ready.descriptor, callback, true⟩] else []

/-- `epoll_wait`, which knows the descriptors that are registered. -/
def wait (epoll : Epoll.Interest Callback) (ready : List Ready) : List (Invocation Callback) :=
  ready.flatMap fun r =>
    match epoll r.descriptor with
    | none => []
    | some entry => invocations r entry.data

/-- What the event loop does, and what the callbacks call. -/
inductive Event (Callback : Type)
  /-- The next batch, once the last one is through. -/
  | wait (ready : List Ready)
  /-- `synchronize` makes the next call of the batch. -/
  | dispatch
  /-- The callback that runs, or anything between two batches, calls the synchronizer. -/
  | call (call : Call Callback)

variable [DecidableEq Callback]

/-- What a call does to the record of the removed registrations. -/
def State.record (s : State Callback) : Call Callback → List (ℤ × Callback)
  | .append descriptor callback wantRead wantWrite failure =>
    match (Synchronizer.append s.synchronizer descriptor callback wantRead wantWrite failure).1 with
    | .ok () => s.removed.filter (· ≠ (descriptor, callback))
    | .error _ => s.removed
  | .update _ _ _ _ => s.removed
  | .remove descriptor =>
    match s.synchronizer.epoll descriptor with
    | none => s.removed
    | some entry => (descriptor, entry.data) :: s.removed

/-- A batch is worked off before the next one is fetched. -/
def step (s : State Callback) : Event Callback → Option (State Callback)
  | .wait ready =>
    match s.pending with
    | [] => some { s with pending := wait s.synchronizer.epoll ready }
    | _ :: _ => none
  | .dispatch =>
    match s.pending with
    | [] => none
    | invocation :: pending =>
      some {
        s with
        pending := pending
        stale := s.stale || decide ((invocation.descriptor, invocation.callback) ∈ s.removed) }
  | .call call =>
    some {
      s with
      synchronizer := Synchronizer.next s.synchronizer call
      removed := s.record call }

/-! ## Batches without a removed callback -/

/-- The batch has no more call for a descriptor that is removed, and the map agrees with epoll
after the call. -/
def Settled (s : State Callback) : Event Callback → Prop
  | .wait _ | .dispatch => True
  | .call call =>
    Synchronizer.Regular s.synchronizer call ∧
      ∀ descriptor, call = .remove descriptor →
        ∀ invocation ∈ s.pending, invocation.descriptor ≠ descriptor

/-- What the batch holds is registered, and what has been removed is not. -/
structure Sound (s : State Callback) : Prop where
  agrees : Synchronizer.Agrees s.synchronizer
  pending : ∀ invocation ∈ s.pending,
    s.synchronizer.callbacks invocation.descriptor = some invocation.callback
  removed : ∀ e ∈ s.removed, s.synchronizer.callbacks e.1 ≠ some e.2
  stale : s.stale = false

variable {s s' : State Callback}

omit [DecidableEq Callback] in
lemma sound_fresh : Sound (fresh : State Callback) :=
  ⟨Synchronizer.agrees_fresh, by simp [fresh], by simp [fresh], rfl⟩

omit [DecidableEq Callback] in
/-- A report leads to calls for its descriptor. -/
lemma mem_invocations {ready : Ready} {callback : Callback} {invocation : Invocation Callback}
    (h : invocation ∈ invocations ready callback) :
    invocation.descriptor = ready.descriptor ∧ invocation.callback = callback := by
  unfold invocations at h
  rcases List.mem_append.mp h with hread | hwrite
  · rw [List.mem_ite_nil_right, List.mem_singleton] at hread
    rw [hread.2]
    exact ⟨rfl, rfl⟩
  · rw [List.mem_ite_nil_right, List.mem_singleton] at hwrite
    rw [hwrite.2]
    exact ⟨rfl, rfl⟩

omit [DecidableEq Callback] in
/-- A batch holds the callbacks that epoll has. -/
lemma mem_wait {epoll : Epoll.Interest Callback} {ready : List Ready}
    {invocation : Invocation Callback} (h : invocation ∈ wait epoll ready) :
    (epoll invocation.descriptor).map Epoll.Entry.data = some invocation.callback := by
  obtain ⟨r, -, hmem⟩ := List.mem_flatMap.mp h
  cases hentry : epoll r.descriptor with
  | none =>
    rw [hentry] at hmem
    cases hmem
  | some entry =>
    rw [hentry] at hmem
    obtain ⟨hdescriptor, hcallback⟩ := mem_invocations hmem
    rw [hdescriptor, hentry, hcallback]
    rfl

/-- What a regular call does to the map: nothing, a new entry, or one entry less. -/
lemma call_cases {call : Call Callback} (hs : Sound s)
    (hregular : Synchronizer.Regular s.synchronizer call) :
    ((Synchronizer.next s.synchronizer call).callbacks = s.synchronizer.callbacks ∧
        s.record call = s.removed) ∨
    (∃ descriptor callback, s.synchronizer.callbacks descriptor = none ∧
        (Synchronizer.next s.synchronizer call).callbacks =
          Function.update s.synchronizer.callbacks descriptor (some callback) ∧
        s.record call = s.removed.filter (· ≠ (descriptor, callback))) ∨
    ∃ descriptor callback, call = .remove descriptor ∧
      s.synchronizer.callbacks descriptor = some callback ∧
      (Synchronizer.next s.synchronizer call).callbacks =
        Function.update s.synchronizer.callbacks descriptor none ∧
      s.record call = (descriptor, callback) :: s.removed := by
  cases call with
  | append descriptor callback wantRead wantWrite failure =>
    -- epoll does not know the descriptor, and neither does the map
    have hepoll : s.synchronizer.epoll descriptor = none := hregular
    have hcallbacks := hs.agrees.eq_none.mpr hepoll
    dsimp only [Synchronizer.next, State.record]
    cases failure with
    | none =>
      rw [Synchronizer.append_done hepoll]
      exact .inr (.inl ⟨descriptor, callback, hcallbacks, rfl, rfl⟩)
    | some errno =>
      rw [Synchronizer.append_failed hepoll hcallbacks]
      exact .inl ⟨rfl, rfl⟩
  | update descriptor wantRead wantWrite failure =>
    refine .inl ⟨?_, rfl⟩
    dsimp only [Synchronizer.next]
    cases hcallback : s.synchronizer.callbacks descriptor with
    | none => rw [Synchronizer.update_unknown hcallback]
    | some callback =>
      have hepoll : s.synchronizer.epoll descriptor ≠ none := by
        rw [ne_eq, ← hs.agrees.eq_none, hcallback]
        exact Option.some_ne_none _
      obtain rfl : failure = none := hregular.resolve_left hepoll
      rw [Synchronizer.update_done hcallback hepoll]
  | remove descriptor =>
    dsimp only [Synchronizer.next, State.record]
    have hagrees := hs.agrees descriptor
    cases hentry : s.synchronizer.epoll descriptor with
    | none =>
      rw [Synchronizer.remove_unknown (hs.agrees.eq_none.mpr hentry)]
      exact .inl ⟨rfl, rfl⟩
    | some entry =>
      rw [hentry, Option.map_some] at hagrees
      rw [Synchronizer.remove_known hagrees]
      exact .inr (.inr ⟨descriptor, entry.data, rfl, hagrees, rfl, rfl⟩)

/-- A call between two callbacks leaves the batch registered. -/
lemma sound_call {call : Call Callback} (hs : Sound s) (hsettled : Settled s (.call call)) :
    Sound { s with
      synchronizer := Synchronizer.next s.synchronizer call, removed := s.record call } := by
  obtain ⟨hregular, hpending⟩ := hsettled
  have hagrees := Synchronizer.agrees_next hs.agrees hregular
  rcases call_cases hs hregular with ⟨hcallbacks, hrecord⟩ |
    ⟨descriptor, callback, hnone, hcallbacks, hrecord⟩ |
    ⟨descriptor, callback, hcall, hsome, hcallbacks, hrecord⟩
  · refine ⟨hagrees, ?_, ?_, hs.stale⟩
    · rw [hcallbacks]
      exact hs.pending
    · rw [hcallbacks, hrecord]
      exact hs.removed
  · -- the descriptor is new, so nothing in the batch is for it
    refine ⟨hagrees, ?_, ?_, hs.stale⟩
    · intro invocation hmem
      have hregistered := hs.pending invocation hmem
      have hother : invocation.descriptor ≠ descriptor := by
        intro hsame
        rw [hsame, hnone] at hregistered
        cases hregistered
      rw [hcallbacks, Function.update_of_ne hother]
      exact hregistered
    · intro e he
      dsimp only at he ⊢
      rw [hrecord, List.mem_filter, decide_eq_true_iff] at he
      rw [hcallbacks]
      by_cases hsame : e.1 = descriptor
      · rw [hsame, Function.update_self, ne_eq, Option.some.injEq]
        intro hcallback
        exact he.2 (Prod.ext hsame hcallback.symm)
      · rw [Function.update_of_ne hsame]
        exact hs.removed e he.1
  · -- the batch has no more call for the descriptor
    refine ⟨hagrees, ?_, ?_, hs.stale⟩
    · intro invocation hmem
      rw [hcallbacks, Function.update_of_ne (hpending descriptor hcall invocation hmem)]
      exact hs.pending invocation hmem
    · intro e he
      dsimp only at he ⊢
      rw [hcallbacks]
      by_cases hsame : e.1 = descriptor
      · rw [hsame, Function.update_self]
        exact Option.some_ne_none _ |>.symm
      · rw [Function.update_of_ne hsame]
        rw [hrecord] at he
        rcases List.mem_cons.mp he with rfl | hold
        · exact absurd rfl hsame
        · exact hs.removed e hold

/-- Every settled step keeps the batch registered. -/
lemma sound_step {event : Event Callback} (hs : Sound s) (hsettled : Settled s event)
    (hstep : step s event = some s') : Sound s' := by
  cases event with
  -- what is reported is registered now
  | wait ready =>
    dsimp only [step] at hstep
    split at hstep
    · obtain rfl := Option.some.inj hstep
      refine ⟨hs.agrees, ?_, hs.removed, hs.stale⟩
      intro invocation hmem
      rw [hs.agrees]
      exact mem_wait hmem
    · cases hstep
  -- the rest of the batch is a part of it
  | dispatch =>
    dsimp only [step] at hstep
    split at hstep
    · cases hstep
    · rename_i invocation pending hbatch
      obtain rfl := Option.some.inj hstep
      have hregistered := hs.pending invocation (by rw [hbatch]; exact List.mem_cons_self)
      refine ⟨hs.agrees, ?_, hs.removed, ?_⟩
      · intro other hmem
        exact hs.pending other (by rw [hbatch]; exact List.mem_cons_of_mem _ hmem)
      · -- what is called is registered, so it has not been removed
        rw [hs.stale, Bool.false_or, decide_eq_false_iff_not]
        intro hmem
        exact hs.removed _ hmem hregistered
  | call call =>
    obtain rfl := Option.some.inj hstep
    exact sound_call hs hsettled

/-- So does every run of such steps. -/
lemma sound_run {events : List (Event Callback)}
    (hsettled : Machine.Along step Settled fresh events)
    (hrun : Machine.run step fresh events = some s) : Sound s :=
  Machine.run_invariant_along (fun _ _ _ => sound_step) sound_fresh hsettled hrun

/-! ## Removals within a batch -/

/-- What has happened stays so. -/
lemma stale_step {event : Event Callback} (hstale : s.stale = true)
    (hstep : step s event = some s') : s'.stale = true := by
  cases event with
  | wait ready =>
    dsimp only [step] at hstep
    split at hstep
    · obtain rfl := Option.some.inj hstep
      exact hstale
    · cases hstep
  | dispatch =>
    dsimp only [step] at hstep
    split at hstep
    · cases hstep
    · obtain rfl := Option.some.inj hstep
      rw [hstale, Bool.true_or]
  | call call =>
    obtain rfl := Option.some.inj hstep
    exact hstale

/-- The rest of a batch, called with nothing in between, reaches what has been removed. -/
lemma stale_of_mem {pending : List (Invocation Callback)} {invocation : Invocation Callback}
    (hmem : invocation ∈ pending) {s : State Callback} (hpending : s.pending = pending)
    (hremoved : (invocation.descriptor, invocation.callback) ∈ s.removed)
    (hrun : Machine.run step s (List.replicate pending.length .dispatch) = some s') :
    s'.stale = true := by
  induction pending generalizing s with
  | nil => cases hmem
  | cons first pending ih =>
    obtain ⟨s₁, hstep, hrest⟩ := Machine.run_cons_eq_some.mp hrun
    dsimp only [step] at hstep
    rw [hpending] at hstep
    have hs₁ := Option.some.inj hstep
    -- the removed one is called now, or behind others
    rcases List.mem_cons.mp hmem with rfl | hlater
    · have hstale : s₁.stale = true := by
        rw [← hs₁]
        simp [hremoved]
      exact Machine.run_invariant (fun _ _ _ => stale_step) hstale hrest
    · exact ih hlater (by rw [← hs₁]) (by rw [← hs₁]; exact hremoved) hrest

/-- **Removed callbacks.** On a run where nothing is removed while the batch still has a call for
it, and the map agrees with epoll, no removed callback is called. From any state reached so, a
removal with a call left in the batch makes the rest of the batch call a removed callback. -/
theorem not_stale_of_run (events : List (Event Callback)) {s : State Callback}
    (hsettled : Machine.Along step Settled fresh events)
    (hrun : Machine.run step fresh events = some s) :
    s.stale = false ∧
    ∀ descriptor, (∃ invocation ∈ s.pending, invocation.descriptor = descriptor) →
      ∀ s', Machine.run step s
          (.call (.remove descriptor) :: List.replicate s.pending.length .dispatch) = some s' →
        s'.stale = true := by
  have hs := sound_run hsettled hrun
  refine ⟨hs.stale, ?_⟩
  rintro _ ⟨invocation, hmem, rfl⟩ s' hrest
  obtain ⟨s₁, hstep, hdispatches⟩ := Machine.run_cons_eq_some.mp hrest
  have hs₁ := Option.some.inj hstep
  have hentry := hs.agrees invocation.descriptor
  rw [hs.pending invocation hmem] at hentry
  obtain ⟨entry, hepoll, hdata⟩ := Option.map_eq_some_iff.mp hentry.symm
  have hremoved : (invocation.descriptor, invocation.callback) ∈ s₁.removed := by
    rw [← hs₁]
    simp [State.record, hepoll, hdata]
  exact stale_of_mem hmem (by rw [← hs₁]) hremoved hdispatches

/-- A batch for two descriptors; the second one is removed after its call. -/
theorem not_stale_of_run_settled :
    ∃ s : State ℕ,
      Machine.run step fresh [.call (.append 5 1 true false none),
        .call (.append 6 2 true true none), .wait [⟨5, true, false⟩, ⟨6, true, false⟩], .dispatch,
        .dispatch, .call (.remove 6), .wait [⟨5, true, false⟩]] = some s ∧
      s.stale = false ∧
      ∀ descriptor, (∃ invocation ∈ s.pending, invocation.descriptor = descriptor) →
        ∀ s', Machine.run step s
            (.call (.remove descriptor) :: List.replicate s.pending.length .dispatch) = some s' →
          s'.stale = true :=
  ⟨_, rfl, not_stale_of_run [.call (.append 5 1 true false none),
    .call (.append 6 2 true true none), .wait [⟨5, true, false⟩, ⟨6, true, false⟩], .dispatch,
    .dispatch, .call (.remove 6), .wait [⟨5, true, false⟩]]
    (by simp [Machine.Along, Settled, step, fresh, wait, invocations, Synchronizer.fresh,
      Synchronizer.next, Synchronizer.append, Synchronizer.Regular, Epoll.add]) rfl⟩

/-- A callback removes itself in `read`, and `write` is called; it removes another one of the
batch, and that one is called. -/
theorem stale_removed :
    (∃ s : State ℕ,
      Machine.run step fresh [.call (.append 5 1 true true none), .wait [⟨5, true, true⟩],
        .dispatch, .call (.remove 5), .dispatch] = some s ∧ s.stale = true) ∧
    ∃ s : State ℕ,
      Machine.run step fresh [.call (.append 5 1 true false none),
        .call (.append 6 2 true false none), .wait [⟨5, true, false⟩, ⟨6, true, false⟩],
        .dispatch, .call (.remove 6), .dispatch] = some s ∧ s.stale = true :=
  ⟨⟨_, rfl, by decide⟩, ⟨_, rfl, by decide⟩⟩

end Dispatch
end Vng
