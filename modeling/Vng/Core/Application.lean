import Vng.Core.Executer

/-!
# `core::Application` and the wakeup of its event loop

`schedule` of `coreapplication.cpp` pushes the command and then writes to the eventfd of
`coresynchronize.cpp`; the primary command of the executer is `synchronize`, which waits in
`epoll_wait` and dispatches what it returns. The two halves of a `schedule` call are separate
events, so a call can be anywhere between them while the loop moves on.
-/

namespace Vng
namespace Application

/-- What the queue of the executer holds: each scheduled command with the call that pushed it. -/
inductive Job (Command : Type)
  | synchronize
  | scheduled (call : ℕ) (command : Command)
deriving DecidableEq

/-- A descriptor that `epoll_wait` reports: the eventfd, or one with another callback. -/
inductive Ready
  | skipper
  | other
deriving DecidableEq

variable {Command : Type}

structure State (Command : Type) where
  executer : Executer.State (Job Command)
  /-- The number of `schedule` calls so far. -/
  calls : ℕ
  /-- The calls that have pushed their command but not yet written to the eventfd. -/
  pending : List ℕ
  /-- The counter of the eventfd. -/
  counter : ℕ
  /-- What is left to dispatch of the events of `epoll_wait`, once it has returned. -/
  events : Option (List Ready)

def fresh (running : Bool) (code : ℤ) : State Command where
  executer := Executer.fresh running code
  calls := 0
  pending := []
  counter := 0
  events := none

inductive Event (Command : Type)
  /-- `_executer.schedule(command, false)` in a call of `schedule`, by any thread. -/
  | push (command : Command)
  /-- `_synchronizer->skip()` in that call: `eventfd_write(_skipper, 1)`. -/
  | skip (call : ℕ)
  /-- `Synchronizer::start`. -/
  | start
  | exitCode (code : ℤ)
  | exitRunning
  /-- A step of the thread in `exec()` outside `synchronize()`. -/
  | advance
  /-- `epoll_wait` returns these descriptors; none at a timeout or an error. -/
  | wake (ready : List Ready)
  /-- `synchronize()` calls `read()` or `write()` of the next callback. -/
  | dispatch
deriving DecidableEq

variable [DecidableEq Command]

/-- A step of the executer under the rest of the application. -/
def State.lift (s : State Command) (event : Executer.Event (Job Command)) :
    Option (State Command) :=
  (Executer.step s.executer event).map fun executer => { s with executer := executer }

def step (s : State Command) : Event Command → Option (State Command)
  | .push command =>
    { s with calls := s.calls + 1, pending := s.calls :: s.pending }.lift
      (.schedule (.scheduled s.calls command))
  | .skip call =>
    if call ∈ s.pending then
      some { s with pending := s.pending.erase call, counter := s.counter + 1 }
    else none
  | .start => s.lift (.start .synchronize)
  | .exitCode code => s.lift (.exitCode code)
  | .exitRunning => s.lift .exitRunning
  | .advance =>
    match s.executer.phase, s.events with
    -- `synchronize()` is over when everything is dispatched
    | .primary _, some [] => { s with events := none }.lift .advance
    | .primary _, _ => none
    | _, _ => s.lift .advance
  | .wake ready =>
    match s.executer.phase, s.events with
    | .primary _, none =>
      if .skipper ∈ ready → s.counter ≠ 0 then some { s with events := some ready } else none
    | _, _ => none
  | .dispatch =>
    match s.executer.phase, s.events with
    -- `read()` of the synchronizer itself: `eventfd_read(_skipper, &event)`
    | .primary _, some (.skipper :: rest) => some { s with counter := 0, events := some rest }
    | .primary _, some (.other :: rest) => some { s with events := some rest }
    | _, _ => none

/-! ## The executer under the application -/

lemma lift_eq_some {s s' : State Command} {event : Executer.Event (Job Command)} :
    s.lift event = some s' ↔
      ∃ executer, Executer.step s.executer event = some executer ∧
        { s with executer := executer } = s' :=
  Option.map_eq_some_iff

/-- Every step of the application is a step of its executer or leaves it alone. -/
lemma executer_step {s s' : State Command} {event : Event Command}
    (hstep : step s event = some s') :
    ∃ events, Machine.run Executer.step s.executer events = some s'.executer := by
  have hlift : ∀ {t : State Command} {e}, t.lift e = some s' → t.executer = s.executer →
      ∃ events, Machine.run Executer.step s.executer events = some s'.executer := by
    intro t e h ht
    obtain ⟨executer, hexec, rfl⟩ := lift_eq_some.mp h
    exact ⟨[e], Machine.run_cons_eq_some.mpr ⟨executer, by rw [← ht, hexec], rfl⟩⟩
  have hsame : s'.executer = s.executer →
      ∃ events, Machine.run Executer.step s.executer events = some s'.executer := by
    intro h
    exact ⟨[], by rw [h, Machine.run_nil]⟩
  cases event with
  | push | start | exitCode | exitRunning => exact hlift hstep rfl
  | skip call =>
    dsimp only [step] at hstep
    split_ifs at hstep
    obtain rfl := Option.some.inj hstep
    exact hsame rfl
  | advance =>
    dsimp only [step] at hstep
    split at hstep
    · exact hlift hstep rfl
    · cases hstep
    · exact hlift hstep rfl
  | wake ready =>
    dsimp only [step] at hstep
    split at hstep
    · split_ifs at hstep
      obtain rfl := Option.some.inj hstep
      exact hsame rfl
    · cases hstep
  | dispatch =>
    dsimp only [step] at hstep
    split at hstep
    · obtain rfl := Option.some.inj hstep
      exact hsame rfl
    · obtain rfl := Option.some.inj hstep
      exact hsame rfl
    · cases hstep

/-- The executer of a running application is itself on a run, so what holds of every run of the
executer holds here. -/
theorem executer_run {running : Bool} {code : ℤ} {events : List (Event Command)}
    {s : State Command} (hrun : Machine.run step (fresh running code) events = some s) :
    ∃ events', Machine.run Executer.step (Executer.fresh running code) events' =
      some s.executer :=
  Machine.run_simulates (fun _ _ _ hstep => executer_step hstep) hrun

/-! ## No lost wakeup -/

/-- The loop is inside `epoll_wait`. -/
def Waiting (s : State Command) : Prop :=
  (∃ primary, s.executer.phase = .primary primary) ∧ s.events = none

/-- The call that pushed the job has yet to write to the eventfd. -/
def Job.Pending (pending : List ℕ) : Job Command → Prop
  | .synchronize => False
  | .scheduled call _ => call ∈ pending

/-- From the swap until `epoll_wait` returns, a job in the queue is announced by the eventfd or
about to be. -/
def Awake (s : State Command) : Prop :=
  s.executer.phase.InBatch ∨ Waiting s → s.counter = 0 →
    ∀ job ∈ s.executer.commands, job.Pending s.pending

omit [DecidableEq Command] in
/-- Once `epoll_wait` has returned, nothing is promised until the next swap. -/
lemma awake_of_dispatching {s : State Command} {primary : Job Command}
    (hphase : s.executer.phase = .primary primary) (hevents : s.events ≠ none) : Awake s := by
  rintro (hbatch | ⟨-, hnone⟩)
  · rw [hphase] at hbatch
    exact hbatch.elim
  · exact absurd hnone hevents

/-- A command that is queued still has its call of `skip` to come. -/
lemma awake_push {s s' : State Command} {command : Command} (h : Awake s)
    (hstep : step s (.push command) = some s') : Awake s' := by
  obtain ⟨executer, hexec, rfl⟩ := lift_eq_some.mp hstep
  obtain rfl := Option.some.inj hexec
  intro hphase hzero job hjob
  rcases List.mem_append.mp hjob with hold | hnew
  · have hpending := h hphase hzero job hold
    cases job with
    | synchronize => exact hpending
    | scheduled call command => exact List.mem_cons_of_mem _ hpending
  · rw [List.mem_singleton.mp hnew]
    exact List.mem_cons_self

omit [DecidableEq Command] in
/-- The queue is empty behind the swap, and untouched until `epoll_wait`. -/
lemma awake_advance {s : State Command} {executer : Executer.State (Job Command)} (h : Awake s)
    (hexec : Executer.advance s.executer = some executer) (events : Option (List Ready)) :
    Awake { s with executer := executer, events := events } := by
  intro hphase hzero job hjob
  have hinto : executer.phase.InBatch ∨ ∃ primary, executer.phase = .primary primary :=
    hphase.imp_right fun hwaiting => hwaiting.1
  rcases Executer.commands_advance hexec hinto with hempty | ⟨hbatch, hsame⟩
  · rw [hempty] at hjob
    cases hjob
  · rw [hsame] at hjob
    exact h (.inl hbatch) hzero job hjob

lemma awake_step {s s' : State Command} {event : Event Command} (h : Awake s)
    (hstep : step s event = some s') : Awake s' := by
  cases event with
  | push command => exact awake_push h hstep
  | skip call =>
    dsimp only [step] at hstep
    split_ifs at hstep
    obtain rfl := Option.some.inj hstep
    intro _ hzero
    exact absurd hzero (Nat.succ_ne_zero _)
  | start =>
    obtain ⟨executer, hexec, rfl⟩ := lift_eq_some.mp hstep
    dsimp only [Executer.step] at hexec
    split at hexec
    · rename_i hidle _
      obtain rfl := Option.some.inj hexec
      -- nothing is waiting before `exec()`
      rintro (hbatch | ⟨⟨primary, hphase⟩, -⟩)
      · simp [Executer.schedule, hidle] at hbatch
      · simp [Executer.schedule, hidle] at hphase
    · cases hexec
  | exitCode code =>
    obtain ⟨executer, hexec, rfl⟩ := lift_eq_some.mp hstep
    obtain rfl := Option.some.inj hexec
    exact h
  | exitRunning =>
    obtain ⟨executer, hexec, rfl⟩ := lift_eq_some.mp hstep
    dsimp only [Executer.step] at hexec
    split_ifs at hexec
    obtain rfl := Option.some.inj hexec
    exact h
  | advance =>
    dsimp only [step] at hstep
    split at hstep
    · obtain ⟨executer, hexec, rfl⟩ := lift_eq_some.mp hstep
      exact awake_advance h hexec _
    · cases hstep
    · obtain ⟨executer, hexec, rfl⟩ := lift_eq_some.mp hstep
      exact awake_advance h hexec _
  | wake ready =>
    dsimp only [step] at hstep
    split at hstep
    · rename_i hphase _
      split_ifs at hstep
      obtain rfl := Option.some.inj hstep
      exact awake_of_dispatching hphase (by simp)
    · cases hstep
  | dispatch =>
    dsimp only [step] at hstep
    split at hstep
    · rename_i hphase _
      obtain rfl := Option.some.inj hstep
      exact awake_of_dispatching hphase (by simp)
    · rename_i hphase _
      obtain rfl := Option.some.inj hstep
      exact awake_of_dispatching hphase (by simp)
    · cases hstep

lemma awake_run {running : Bool} {code : ℤ} {events : List (Event Command)} {s : State Command}
    (hrun : Machine.run step (fresh running code) events = some s) : Awake s :=
  Machine.run_invariant (fun _ _ _ h hstep => awake_step h hstep)
    (fun _ _ job hjob => absurd hjob (by simp [fresh, Executer.fresh])) hrun

/-- **No lost wakeup.** While the loop is inside `epoll_wait` and the eventfd is at zero, every
command in the queue was pushed by a call that has yet to write to the eventfd. -/
theorem no_lost_wakeup (running : Bool) (code : ℤ) (events : List (Event Command))
    {s : State Command} (hrun : Machine.run step (fresh running code) events = some s)
    (hwaiting : Waiting s) (hzero : s.counter = 0) :
    ∀ job ∈ s.executer.commands,
      ∃ call command, job = .scheduled call command ∧ call ∈ s.pending := by
  intro job hjob
  have hpending := awake_run hrun (.inr hwaiting) hzero job hjob
  cases job with
  | synchronize => exact hpending.elim
  | scheduled call command => exact ⟨call, command, rfl, hpending⟩

/-- A call that comes between the swap and `epoll_wait` is about to announce its command. -/
theorem no_lost_wakeup_pushed :
    let executer : Executer.State (Job ℕ) :=
      { running := true, code := 0, primary := none, commands := [.scheduled 0 7],
        phase := .primary .synchronize, exiting := 0, scheduled := [.scheduled 0 7],
        swapped := [], started := [], finished := [] }
    ∀ job ∈ executer.commands, ∃ call command, job = .scheduled call command ∧ call ∈ [0] :=
  no_lost_wakeup false 0
    [.start, .advance, .advance, .advance, .advance, .push 7, .advance] rfl ⟨⟨_, rfl⟩, rfl⟩ rfl

end Application
end Vng
