import Vng.Core.Executer
import Vng.Core.Setting
import Vng.Core.Synchronizer
import Vng.Lib.Object

/-!
# Start-up of the core

`exec` of `coreapplication.cpp` up to the loop of the executer: the settings, the synchronizer that
`setup` starts, the application's own `initialize`, and `sigaction`. A step that fails undoes the
ones before it. What the calls of the system and of the application come to is a parameter. The
lookup of `timeout` is used without a check.
-/

namespace Vng
namespace Startup

open Memory (Checked ok_bind)
open Object (Pointer isNull use use_live)

/-- What the calls of a start-up come to. -/
structure Outcomes (Command : Type) where
  epollCreate : Except Errno ℕ
  /-- There is memory for the events. -/
  calloc : Bool
  eventfd : Except Errno ℕ
  epollCtl : Option Errno
  /-- The application's own `initialize`, and the commands that it schedules. -/
  initialized : Setting → ℤ
  commands : List Command
  sigaction : ℤ

/-- `Application::Private`, with its synchronizer and what that holds of the system. -/
structure State (Command Callback : Type) where
  /-- `_synchronizer` of the application. -/
  synchronizer : Pointer
  /-- `_private` of the synchronizer. -/
  own : Pointer
  events : BitVec 32
  timeout : BitVec 32
  event : Pointer
  synchronize : Pointer
  handle : ℤ
  skipper : ℤ
  /-- `_finished` of the command that was scheduled for the synchronizer. -/
  finished : Bool
  registered : Synchronizer.State Callback
  /-- The descriptors that are open. -/
  descriptors : List ℤ
  executer : Executer.State Command

variable {Command Callback : Type}

/-- A new application. The constructors set neither `_synchronizer` nor the members of the
executer. -/
def constructed (running : Bool) (code : ℤ) : State Command Callback where
  synchronizer := .indeterminate
  own := .indeterminate
  events := 0
  timeout := 0
  event := .indeterminate
  synchronize := .indeterminate
  handle := -1
  skipper := -1
  finished := false
  registered := Synchronizer.fresh
  descriptors := []
  executer := Executer.fresh running code

/-- `new Synchronizer(events, timeout)`, which leaves `_synchronize` as it is. -/
def State.newSynchronizer (s : State Command Callback) (events timeout : BitVec 32) :
    State Command Callback :=
  { s with
    synchronizer := .live
    own := .live
    events := events
    timeout := timeout
    event := .null
    synchronize := .indeterminate
    handle := -1
    skipper := -1
    registered := Synchronizer.fresh }

/-- `delete _synchronizer`, and `NULL`. -/
def State.deleteSynchronizer (s : State Command Callback) : Checked (State Command Callback) := do
  let own ← Object.delete s.own
  let _ ← Object.delete s.synchronizer
  return { s with own := own, synchronizer := .null }

/-- `close(_handle)`. -/
def State.closeHandle (s : State Command Callback) : State Command Callback :=
  { s with descriptors := s.descriptors.erase s.handle, handle := -1 }

/-- `close(_skipper)`. -/
def State.closeSkipper (s : State Command Callback) : State Command Callback :=
  { s with descriptors := s.descriptors.erase s.skipper, skipper := -1 }

/-- `free(_event)`. -/
def State.freeEvent (s : State Command Callback) : Checked (State Command Callback) := do
  let _ ← Object.delete s.event
  return { s with event := .null }

variable [DecidableEq Command]

/-- `schedule` of some commands, one after another. -/
def State.scheduleAll (s : State Command Callback) (commands : List Command) :
    State Command Callback :=
  let executer := commands.foldl (fun executer command => Executer.schedule executer command false)
    s.executer
  { s with executer := executer }

/-- `Synchronizer::Private::start`. -/
def startPrivate (o : Outcomes Command) (this : Callback) (primary : Command)
    (s : State Command Callback) : Checked (ℤ × State Command Callback) :=
  match o.epollCreate with
  | .error errno => return (errno, s)
  | .ok handle =>
    let s := { s with handle := handle, descriptors := handle :: s.descriptors }
    if o.calloc = false then return (-1, s.closeHandle)
    else
      let s := { s with event := .live }
      match o.eventfd with
      | .error errno => do
        let s ← s.freeEvent
        return (errno, s.closeHandle)
      | .ok skipper =>
        let s := { s with skipper := skipper, descriptors := skipper :: s.descriptors }
        match Synchronizer.append s.registered skipper this true false
            (o.epollCtl.map Subtype.val) with
        | (.error errno, registered) => do
          let s ← { s with registered := registered }.closeSkipper.freeEvent
          return (errno, s.closeHandle)
        | (.ok (), registered) =>
          return (0, { s with
            registered := registered
            synchronize := .live
            finished := false
            executer := Executer.schedule s.executer primary true })

/-- `Synchronizer::start`. -/
def start (o : Outcomes Command) (this : Callback) (primary : Command)
    (s : State Command Callback) : Checked (ℤ × State Command Callback) := do
  use s.own
  let (error, s) ← startPrivate o this primary s
  if error ≠ 0 then do
    let _ ← Object.delete s.own
    return (error, { s with own := .null })
  else return (0, s)

/-- `Synchronizer::Private::stop`. -/
def stopPrivate (s : State Command Callback) : Checked (State Command Callback) := do
  if ← isNull s.synchronize then return s
  else do
    let s := s.closeSkipper
    use s.synchronize
    let s := { s with finished := true, synchronize := .null }
    s.closeHandle.freeEvent

/-- `Synchronizer::stop`. -/
def stop (s : State Command Callback) : Checked (State Command Callback) := do
  use s.synchronizer
  use s.own
  stopPrivate s

/-- `setup`. -/
def setup (o : Outcomes Command) (this : Callback) (primary : Command) (settings : Setting)
    (s : State Command Callback) : Checked (ℤ × State Command Callback) :=
  match settings.value (ascii "events") with
  | none => return (-1, s)
  | some events =>
    match events.integer with
    | none => return (-1, s)
    | some events =>
      match settings.value (ascii "timeout") with
      -- `isInteger` is called without a check
      | none => .error .outOfBounds
      | some timeout =>
        match timeout.integer with
        | none => return (-1, s)
        | some timeout => do
          let (error, s) ← start o this primary (s.newSynchronizer events timeout)
          if error ≠ 0 then do
            let s ← s.deleteSynchronizer
            return (error, s)
          else return (0, s)

/-- The end of the synchronizer, in `release` and behind every step that fails. The application's
own `release` comes first where it was started. -/
def release (s : State Command Callback) : Checked (State Command Callback) := do
  let s ← stop s
  s.deleteSynchronizer

/-- `Application::Private::initialize`, with the configuration if it was loaded. -/
def initializeApplication (o : Outcomes Command) (this : Callback) (primary : Command)
    (json : Option Setting) (terminate : Bool) (s : State Command Callback) :
    Checked (ℤ × State Command Callback) :=
  match json with
  | none => return (-1, s)
  | some json =>
    match json.value (ascii "synchronize") with
    | none => return (-1, s)
    | some synchronize => do
      let (error, s) ← setup o this primary synchronize s
      if error ≠ 0 then return (error, s)
      else
        match json.value (ascii "settings") with
        | none => do
          let s ← release s
          return (-1, s)
        | some settings => do
          use s.synchronizer
          let s := s.scheduleAll o.commands
          if o.initialized settings ≠ 0 then do
            let s ← release s
            return (o.initialized settings, s)
          else if terminate = false then return (0, s)
          else if o.sigaction ≠ 0 then do
            let s ← release s
            return (o.sigaction, s)
          else return (0, s)

/-- Where `exec` stands. -/
inductive Result
  /-- It has returned an error. -/
  | returned (error : ℤ)
  /-- It calls `exec` of the executer. -/
  | running
deriving DecidableEq

/-- `exec`, up to the loop. Behind the loop comes `release`. -/
def exec (o : Outcomes Command) (this : Callback) (primary : Command) (json : Option Setting)
    (terminate : Bool) (s : State Command Callback) :
    Checked (Result × State Command Callback) := do
  let (error, s) ← initializeApplication o this primary json terminate s
  if error ≠ 0 then return (.returned error, s)
  else return (.running, s)

/-! ## The synchronizer -/

/-- A start that failed has left nothing behind. -/
structure Undone (s s' : State Command Callback) : Prop where
  synchronizer : s'.synchronizer = s.synchronizer
  own : s'.own = s.own
  event : s'.event ≠ .live
  descriptors : s'.descriptors = s.descriptors
  finished : s'.finished = s.finished
  executer : s'.executer = s.executer

/-- A start that succeeded: the events, the two descriptors, the callback of the eventfd, and the
command of the synchronizer. -/
structure Begun (this : Callback) (primary : Command) (s s' : State Command Callback) : Prop where
  synchronizer : s'.synchronizer = s.synchronizer
  own : s'.own = s.own
  event : s'.event = .live
  synchronize : s'.synchronize = .live
  finished : s'.finished = false
  callback : s'.registered.callbacks s'.skipper = some this
  watched : s'.registered.epoll s'.skipper = some ⟨this, true, false⟩
  descriptors : s'.descriptors = s'.skipper :: s'.handle :: s.descriptors
  executer : s'.executer = Executer.schedule s.executer primary true

variable {o : Outcomes Command} {this : Callback} {primary : Command}
  {s : State Command Callback}

/-- `Private::start` undoes what it has done, or starts the synchronizer. -/
lemma startPrivate_cases (o : Outcomes Command) (this : Callback) (primary : Command)
    {s : State Command Callback} (hevent : s.event = .null)
    (hregistered : s.registered = Synchronizer.fresh) :
    (∃ error s', error ≠ 0 ∧ startPrivate o this primary s = .ok (error, s') ∧ Undone s s') ∨
      ∃ s', startPrivate o this primary s = .ok (0, s') ∧ Begun this primary s s' := by
  unfold startPrivate
  rcases o.epollCreate with errno | handle
  · exact .inl ⟨errno, s, errno.2.ne', rfl, rfl, rfl, by simp [hevent], rfl, rfl, rfl⟩
  dsimp only
  by_cases hcalloc : o.calloc = false
  · rw [if_pos hcalloc]
    refine .inl ⟨-1, _, by decide, rfl, rfl, rfl, by simp [State.closeHandle, hevent], ?_, rfl, rfl⟩
    simp [State.closeHandle]
  rw [if_neg hcalloc]
  rcases o.eventfd with errno | skipper
  -- no eventfd: the handle of epoll and the events are given back
  · refine .inl ⟨errno, _, errno.2.ne', rfl, rfl, rfl, by simp [State.closeHandle], ?_, rfl, rfl⟩
    simp [State.closeHandle]
  dsimp only
  rw [hregistered]
  rcases o.epollCtl with _ | errno
  · refine .inr ⟨_, rfl, rfl, rfl, rfl, rfl, rfl, ?_, ?_, rfl, rfl⟩
    · simp
    · simp
  · refine .inl ⟨errno, _, errno.2.ne', rfl, rfl, rfl, by simp [State.closeHandle], ?_, rfl, rfl⟩
    simp [State.closeHandle, State.closeSkipper]

lemma start_failed {error : ℤ} {s' : State Command Callback} (hown : s.own = .live)
    (h : startPrivate o this primary s = .ok (error, s')) (herror : error ≠ 0)
    (hown' : s'.own = .live) :
    start o this primary s = .ok (error, { s' with own := .null }) := by
  unfold start
  rw [hown, use_live, ok_bind, h, ok_bind]
  dsimp only
  rw [if_pos herror, hown']
  rfl

lemma start_done {s' : State Command Callback} (hown : s.own = .live)
    (h : startPrivate o this primary s = .ok (0, s')) :
    start o this primary s = .ok (0, s') := by
  unfold start
  rw [hown, use_live, ok_bind, h, ok_bind]
  exact if_neg (not_not.mpr rfl)

/-- Nothing of a synchronizer is left, and a command of it that is scheduled does nothing. -/
structure Gone (s : State Command Callback) : Prop where
  synchronizer : s.synchronizer ≠ .live
  own : s.own ≠ .live
  event : s.event ≠ .live
  descriptors : s.descriptors = []
  finished : s.executer.primary ≠ none → s.finished = true

/-- No command has run. -/
structure Unrun (s : State Command Callback) : Prop where
  phase : s.executer.phase = .idle
  started : s.executer.started = []

/-- `setup` returns an error and leaves nothing behind, or starts a synchronizer, unless it uses the
lookup that was `NULL`. -/
lemma setup_cases (o : Outcomes Command) (this : Callback) (primary : Command)
    {settings : Setting} {s : State Command Callback}
    (hsettings : ∀ value events, settings.value (ascii "events") = some value →
      value.integer = some events → settings.value (ascii "timeout") ≠ none)
    (hgone : Gone s) :
    (∃ error s', error ≠ 0 ∧ setup o this primary settings s = .ok (error, s') ∧
      Gone s' ∧ s'.executer = s.executer) ∨
    ∃ new s', setup o this primary settings s = .ok (0, s') ∧ new.synchronizer = .live ∧
      new.own = .live ∧ new.descriptors = [] ∧ new.executer = s.executer ∧
      Begun this primary new s' := by
  unfold setup
  rcases hevents : settings.value (ascii "events") with _ | events
  · exact .inl ⟨-1, s, by decide, rfl, hgone, rfl⟩
  dsimp only
  rcases hinteger : events.integer with _ | number
  · exact .inl ⟨-1, s, by decide, rfl, hgone, rfl⟩
  dsimp only
  -- the source uses this lookup without a check
  rcases htimeout : settings.value (ascii "timeout") with _ | timeout
  · exact absurd htimeout (hsettings events number hevents hinteger)
  dsimp only
  rcases timeout.integer with _ | limit
  · exact .inl ⟨-1, s, by decide, rfl, hgone, rfl⟩
  dsimp only
  set new := s.newSynchronizer number limit
  rcases startPrivate_cases o this primary (s := new) rfl rfl with
    ⟨error, s', herror, hstart, hundone⟩ | ⟨s', hstart, hbegun⟩
  · have hstart' := start_failed rfl hstart herror hundone.own
    refine .inl ⟨error, { s' with own := .null, synchronizer := .null }, herror, ?_, ?_,
      hundone.executer⟩
    · rw [hstart', ok_bind]
      dsimp only
      rw [if_pos herror, State.deleteSynchronizer, hundone.synchronizer]
      rfl
    · refine ⟨by simp, by simp, hundone.event, hundone.descriptors.trans hgone.descriptors, ?_⟩
      dsimp only
      rw [hundone.executer, hundone.finished]
      exact hgone.finished
  · refine .inr ⟨new, s', ?_, rfl, rfl, hgone.descriptors, rfl, hbegun⟩
    rw [start_done rfl hstart, ok_bind]
    exact if_neg (not_not.mpr rfl)

/-! ## The application -/

/-- A synchronizer that is running, with what it holds. -/
structure Held (s : State Command Callback) : Prop where
  synchronizer : s.synchronizer = .live
  own : s.own = .live
  event : s.event = .live
  synchronize : s.synchronize = .live
  descriptors : s.descriptors = [s.skipper, s.handle]

omit [DecidableEq Command] in
/-- `release` lets go of everything. -/
lemma release_held (h : Held s) :
    ∃ s', release s = .ok s' ∧ Gone s' ∧ s'.executer = s.executer := by
  obtain ⟨hsynchronizer, hown, hevent, hsynchronize, hdescriptors⟩ := h
  have hstop : stop s = .ok { s with
      synchronize := .null
      finished := true
      event := .null
      skipper := -1
      handle := -1
      descriptors := [] } := by
    unfold stop stopPrivate
    simp [hsynchronizer, hown, hsynchronize, State.closeSkipper, State.closeHandle,
      State.freeEvent, hevent, hdescriptors]
  have hrelease : release s = .ok { s with
      synchronizer := .null
      own := .deleted
      synchronize := .null
      finished := true
      event := .null
      skipper := -1
      handle := -1
      descriptors := [] } := by
    unfold release
    rw [hstop, ok_bind, State.deleteSynchronizer]
    dsimp only
    rw [hown, hsynchronizer]
    rfl
  exact ⟨_, hrelease, ⟨by simp, by simp, by simp, rfl, fun _ => rfl⟩, rfl⟩

/-- What `schedule` does to the executer. -/
lemma scheduleAll_executer (s : State Command Callback) (commands : List Command) :
    (s.scheduleAll commands).executer = { s.executer with
      commands := s.executer.commands ++ commands
      scheduled := s.executer.scheduled ++ commands } := by
  unfold State.scheduleAll
  dsimp only
  generalize s.executer = executer
  induction commands generalizing executer with
  | nil => simp
  | cons command commands ih =>
    rw [List.foldl_cons, ih]
    simp [Executer.schedule]

/-- The loop begins with a synchronizer that is running: it watches its eventfd, its command is the
primary one, and what the application scheduled comes first. -/
structure Started (o : Outcomes Command) (this : Callback) (primary : Command)
    (s : State Command Callback) : Prop extends Held s where
  finished : s.finished = false
  callback : s.registered.callbacks s.skipper = some this
  watched : s.registered.epoll s.skipper = some ⟨this, true, false⟩
  primary : s.executer.primary = some primary
  commands : s.executer.commands = o.commands

/-- `exec` ends without a fault. It calls the loop with a synchronizer that is running, and lets go
of it afterwards, or it returns an error with nothing left behind. No command has run. -/
def Contained (o : Outcomes Command) (this : Callback) (primary : Command)
    (x : Checked (Result × State Command Callback)) : Prop :=
  ∃ result s, x = .ok (result, s) ∧ Unrun s ∧
    match result with
    | .returned error => error ≠ 0 ∧ Gone s
    | .running => Started o this primary s ∧
      ∀ executer : Executer.State Command,
        ∃ s', release { s with executer := executer } = .ok s' ∧ Gone s'

/-- There is a `timeout` beside `events`. -/
def Timed (json : Option Setting) : Prop :=
  ∀ config synchronize value events, json = some config →
    config.value (ascii "synchronize") = some synchronize →
    synchronize.value (ascii "events") = some value → value.integer = some events →
    synchronize.value (ascii "timeout") ≠ none

/-- Without a `timeout` its lookup is used. -/
lemma exec_fault {json : Option Setting} {terminate : Bool} (h : ¬ Timed json) :
    exec o this primary json terminate s = .error .outOfBounds := by
  unfold Timed at h
  push Not at h
  obtain ⟨config, synchronize, value, events, rfl, hsynchronize, hvalue, hevents, htimeout⟩ := h
  unfold exec initializeApplication
  dsimp only
  rw [hsynchronize]
  dsimp only
  rw [setup, hvalue]
  dsimp only
  rw [hevents]
  dsimp only
  rw [htimeout]
  rfl

lemma held_of_begun {new s : State Command Callback} {running : Bool} {code : ℤ}
    (h : Begun this primary new s) (hsynchronizer : new.synchronizer = .live)
    (hown : new.own = .live) (hdescriptors : new.descriptors = [])
    (hexecuter : new.executer = Executer.fresh running code) : Held s ∧ Unrun s := by
  refine ⟨⟨h.synchronizer.trans hsynchronizer, h.own.trans hown, h.event, h.synchronize, ?_⟩,
    ?_, ?_⟩
  · rw [h.descriptors, hdescriptors]
  all_goals rw [h.executer, hexecuter]; rfl

/-- What `setup` starts on a new application is running once the application has scheduled its
commands. -/
lemma started_of_begun {new s : State Command Callback} {running : Bool} {code : ℤ}
    (h : Begun this primary new s) (hexecuter : new.executer = Executer.fresh running code)
    (hheld : Held s) :
    Started o this primary (s.scheduleAll o.commands) ∧ Unrun (s.scheduleAll o.commands) := by
  have hschedule := scheduleAll_executer s o.commands
  rw [h.executer, hexecuter] at hschedule
  refine ⟨⟨⟨hheld.synchronizer, hheld.own, hheld.event, hheld.synchronize, hheld.descriptors⟩,
    h.finished, h.callback, h.watched, ?_, ?_⟩, ?_, ?_⟩
  all_goals rw [hschedule]; rfl

omit [DecidableEq Command] in
/-- What `release` leaves of an application that has not run. -/
lemma release_unrun (hheld : Held s) (hunrun : Unrun s) :
    ∃ s', release s = .ok s' ∧ Gone s' ∧ Unrun s' := by
  obtain ⟨s', hrelease, hgone, hexecuter⟩ := release_held hheld
  exact ⟨s', hrelease, hgone, by rw [hexecuter]; exact hunrun.phase, by
    rw [hexecuter]
    exact hunrun.started⟩

/-- An application that starts up with a `timeout` is running, or nothing of it is left. -/
lemma initializeApplication_cases (o : Outcomes Command) (this : Callback) (primary : Command)
    {json : Option Setting} (htimed : Timed json) (terminate running : Bool) (code : ℤ) :
    (∃ error s', error ≠ 0 ∧
      initializeApplication o this primary json terminate (constructed running code) =
        .ok (error, s') ∧ Gone s' ∧ Unrun s') ∨
    ∃ s', initializeApplication o this primary json terminate (constructed running code) =
      .ok (0, s') ∧ Started o this primary s' ∧ Unrun s' := by
  have hgone : Gone (constructed running code : State Command Callback) :=
    ⟨Pointer.noConfusion, Pointer.noConfusion, Pointer.noConfusion, rfl, fun h => absurd rfl h⟩
  have hunrun : Unrun (constructed running code : State Command Callback) := ⟨rfl, rfl⟩
  unfold initializeApplication
  rcases json with _ | json
  · exact .inl ⟨-1, _, by decide, rfl, hgone, hunrun⟩
  dsimp only
  rcases hsynchronize : json.value (ascii "synchronize") with _ | synchronize
  · exact .inl ⟨-1, _, by decide, rfl, hgone, hunrun⟩
  dsimp only
  rcases setup_cases o this primary (fun value events => htimed json synchronize value events rfl
    hsynchronize) hgone with ⟨error, s', herror, hsetup, hgone', hexecuter⟩ |
    ⟨new, s', hsetup, hsynchronizer, hown, hdescriptors, hexecuter, hbegun⟩
  · refine .inl ⟨error, s', herror, ?_, hgone', ?_⟩
    · rw [hsetup, ok_bind]
      exact if_pos herror
    · exact ⟨by rw [hexecuter]; rfl, by rw [hexecuter]; rfl⟩
  rw [hsetup, ok_bind]
  dsimp only
  rw [if_neg (not_not.mpr rfl)]
  obtain ⟨hheld, hunrun⟩ := held_of_begun hbegun hsynchronizer hown hdescriptors hexecuter
  rcases json.value (ascii "settings") with _ | settings
  · obtain ⟨s'', hrelease, hgone', hunrun'⟩ := release_unrun hheld hunrun
    refine .inl ⟨-1, s'', by decide, ?_, hgone', hunrun'⟩
    dsimp only
    rw [hrelease]
    rfl
  dsimp only
  obtain ⟨hstarted, hunrun'⟩ := started_of_begun (o := o) hbegun hexecuter hheld
  obtain ⟨s'', hrelease, hgone', hunrun''⟩ := release_unrun hstarted.toHeld hunrun'
  -- what is left: the answer of the application, and the handler of the signals
  rw [hheld.synchronizer, use_live, ok_bind]
  split_ifs with hinitialized hterminate hsigaction
  · refine .inl ⟨_, s'', hinitialized, ?_, hgone', hunrun''⟩
    rw [hrelease]
    rfl
  · exact .inr ⟨_, rfl, hstarted, hunrun'⟩
  · refine .inl ⟨_, s'', hsigaction, ?_, hgone', hunrun''⟩
    rw [hrelease]
    rfl
  · exact .inr ⟨_, rfl, hstarted, hunrun'⟩

/-- **Start-up of the core.** Whatever the configuration is and the calls come to, `exec` ends in
the loop with a synchronizer that is running, or in an error with nothing left behind, exactly if
there is a `timeout` wherever `events` is an integer. -/
theorem exec_contained_iff (o : Outcomes Command) (this : Callback) (primary : Command)
    (json : Option Setting) (terminate running : Bool) (code : ℤ) :
    Contained o this primary (exec o this primary json terminate (constructed running code)) ↔
      Timed json := by
  constructor
  · intro h
    by_contra htimed
    obtain ⟨result, s, hexec, -⟩ := h
    rw [exec_fault htimed] at hexec
    cases hexec
  · intro htimed
    unfold exec
    rcases initializeApplication_cases o this primary htimed terminate running code with
      ⟨error, s, herror, h, hgone, hunrun⟩ | ⟨s, h, hstarted, hunrun⟩
    · refine ⟨.returned error, s, ?_, hunrun, herror, hgone⟩
      rw [h, ok_bind]
      exact if_pos herror
    · refine ⟨.running, s, ?_, hunrun, hstarted, fun executer => ?_⟩
      · rw [h, ok_bind]
        exact if_neg (not_not.mpr rfl)
      · obtain ⟨hsynchronizer, hown, hevent, hsynchronize, hdescriptors⟩ := hstarted.toHeld
        obtain ⟨s', hrelease, hgone, -⟩ := release_held (s := { s with executer := executer })
          ⟨hsynchronizer, hown, hevent, hsynchronize, hdescriptors⟩
        exact ⟨s', hrelease, hgone⟩

/-- Every call succeeds. -/
def smooth : Outcomes ℕ := ⟨.ok 3, true, .ok 4, none, fun _ => 0, [1], 0⟩

/-- A configuration with the members of `synchronize`. -/
def configuration (synchronize : List (List Byte × Setting)) : Setting :=
  .map [(ascii "settings", .map []), (ascii "synchronize", .map synchronize)]

/-- The events are there and the timeout is not. -/
theorem exec_untimed :
    exec smooth () 0 (some (configuration [(ascii "events", .int 10)])) true
        (constructed false 0) = .error .outOfBounds ∧
      ¬ Contained smooth () 0 (exec smooth () 0
        (some (configuration [(ascii "events", .int 10)])) true (constructed false 0)) := by
  have hexec : exec smooth () 0 (some (configuration [(ascii "events", .int 10)])) true
      (constructed false 0) = .error .outOfBounds := rfl
  refine ⟨hexec, ?_⟩
  rintro ⟨result, s, h, -⟩
  rw [hexec] at h
  cases h

end Startup
end Vng
