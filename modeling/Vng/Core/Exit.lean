import Vng.Core.Executer

/-!
# `core::Application::exit`

A request to exit writes `_code` and then `_running`, at any time and from any thread, while
`exec()` sets both of them itself before its loop. The executer is watched here with a record of
the requests: which codes were written, whether a request is over, and whether a step began after
that.
-/

namespace Vng
namespace Exit

open Executer (Phase Event advance)

variable {Command : Type}

/-- The executer, with what its callers have seen. -/
structure State (Command : Type) where
  executer : Executer.State Command
  /-- The codes of the calls of `exit` until `exec()` returned, in the order of their writes. -/
  codes : List ℤ
  /-- A call of `exit` has returned. -/
  exited : Bool
  /-- A step has begun after a call of `exit` had returned. -/
  overrun : Bool

def fresh (running : Bool) (code : ℤ) : State Command where
  executer := Executer.fresh running code
  codes := []
  exited := false
  overrun := false

/-- The test of `_running` has led into `step()`. -/
def begins : Phase Command → Phase Command → Bool
  | .testing, .swapping => true
  | _, _ => false

/-- The executer has taken its step to `executer`. -/
def State.watch (s : State Command) (event : Event Command) (executer : Executer.State Command) :
    State Command where
  executer := executer
  codes :=
    match event, s.executer.phase with
    | .exitCode _, .returned _ => s.codes
    | .exitCode code, _ => s.codes ++ [code]
    | _, _ => s.codes
  exited :=
    match event with
    | .exitRunning => true
    | _ => s.exited
  overrun := s.overrun || s.exited && begins s.executer.phase executer.phase

/-- One step of the executer, watched. -/
def step [DecidableEq Command] (s : State Command) (event : Event Command) :
    Option (State Command) :=
  (Executer.step s.executer event).map (s.watch event)

/-! ## The way out of `exec()` -/

/-- `exec()` has set `_running` and `_code`. -/
@[simp] def Entered : Phase Command → Prop
  | .idle | .starting => False
  | _ => True

instance : ∀ phase : Phase Command, Decidable (Entered phase)
  | .idle | .starting => .isFalse not_false
  | .testing | .swapping | .batch _ | .executing _ _ | .primary _ | .restoring _ | .leaving
  | .returned _ => .isTrue trivial

lemma exists_of_returned {phase : Phase Command} (h : phase.Returned) :
    ∃ code, phase = .returned code := by
  cases phase with
  | returned code => exact ⟨code, rfl⟩
  | _ => exact h.elim

/-- How many steps `exec()` has left, if it finds `_running` cleared. -/
def left (s : Executer.State Command) : ℕ :=
  match s.phase with
  | .swapping => 2 * s.commands.length + 6
  | .batch commands => 2 * commands.length + 5
  | .executing _ rest => 2 * rest.length + 6
  | .primary _ => 4
  | .restoring _ => 3
  | .testing => 2
  | .leaving => 1
  | .idle | .starting | .returned _ => 0

/-- `exec()` on its way out. -/
structure Stopping (s : Executer.State Command) : Prop where
  entered : Entered s.phase
  stopped : s.running = false

/-- A step on the way out leads closer to the end, and does not touch the code. -/
lemma advance_stopping {s : Executer.State Command} (h : Stopping s)
    (hlive : ¬ s.phase.Returned) :
    ∃ s', advance s = some s' ∧ left s' < left s ∧ Stopping s' ∧ s'.code = s.code ∧
      (∀ code, s'.phase = .returned code → code = s.code) ∧
      begins s.phase s'.phase = false := by
  obtain ⟨running, code, primary, commands, phase, exiting, scheduled, swapped, started,
    finished⟩ := s
  obtain ⟨entered, stopped⟩ := h
  obtain rfl : running = false := stopped
  cases phase with
  | idle | starting => exact entered.elim
  | returned => exact absurd trivial hlive
  | batch commands' =>
    cases commands' with
    | nil => cases primary <;> exact ⟨_, rfl, by simp [left], ⟨trivial, rfl⟩, rfl, by simp, rfl⟩
    | cons command rest => exact ⟨_, rfl, by simp [left]; omega, ⟨trivial, rfl⟩, rfl, by simp, rfl⟩
  | leaving => exact ⟨_, rfl, by simp [left], ⟨trivial, rfl⟩, rfl, by simp, rfl⟩
  | testing | swapping | executing | primary | restoring =>
    exact ⟨_, rfl, by simp [left], ⟨trivial, rfl⟩, rfl, by simp, rfl⟩

section

variable [DecidableEq Command]

/-- Left to itself, `exec()` returns the code. -/
lemma run_advance_stopping {s : State Command} (h : Stopping s.executer)
    (hlive : ¬ s.executer.phase.Returned) :
    ∃ n t, Machine.run step s (List.replicate n .advance) = some t ∧
      t.executer.phase = .returned s.executer.code ∧ t.codes = s.codes := by
  obtain ⟨executer, hadvance, hleft, hstopping, hcode, hreturned, -⟩ := advance_stopping h hlive
  have hstep : step s .advance = some (s.watch .advance executer) := by
    unfold step
    rw [show Executer.step s.executer .advance = some executer from hadvance]
    rfl
  by_cases hdone : executer.phase.Returned
  · refine ⟨1, s.watch .advance executer, ?_, ?_, rfl⟩
    · exact Machine.run_cons_eq_some.mpr ⟨_, hstep, rfl⟩
    · obtain ⟨code, hphase⟩ := exists_of_returned hdone
      rw [← hreturned code hphase]
      exact hphase
  · obtain ⟨n, t, hrun, hphase, hcodes⟩ :=
      run_advance_stopping (s := s.watch .advance executer) hstopping hdone
    refine ⟨n + 1, t, Machine.run_cons_eq_some.mpr ⟨_, hstep, hrun⟩, ?_, hcodes⟩
    rw [hphase]
    exact congrArg Phase.returned hcode
termination_by left s.executer

end

/-! ## The requests -/

/-- What a step of `exec()` does to the flag and to the code. -/
lemma advance_cases {s s' : Executer.State Command} (hstep : advance s = some s') :
    s'.exiting = s.exiting ∧
      ((s.phase = .idle ∧ s'.phase = .starting ∧ s'.running = true) ∨
      (s.phase = .starting ∧ s'.phase = .testing ∧ s'.running = s.running) ∨
      (Entered s.phase ∧ Entered s'.phase ∧ s'.running = s.running ∧ s'.code = s.code ∧
        ¬ s.phase.Returned ∧ (s'.phase = .leaving → s.running = false) ∧
        (∀ code, s'.phase = .returned code → s.phase = .leaving ∧ code = s.code) ∧
        (begins s.phase s'.phase = true → s.running = true))) := by
  obtain ⟨running, code, primary, commands, phase, exiting, scheduled, swapped, started,
    finished⟩ := s
  -- phase by phase: the loop is entered once, and left when the flag is down
  cases phase with
  | idle =>
    obtain rfl := Option.some.inj hstep
    exact ⟨rfl, .inl ⟨rfl, rfl, rfl⟩⟩
  | starting =>
    obtain rfl := Option.some.inj hstep
    exact ⟨rfl, .inr (.inl ⟨rfl, rfl, rfl⟩)⟩
  | testing =>
    obtain rfl := Option.some.inj hstep
    cases running <;> exact ⟨rfl, .inr (.inr (by simp [begins]))⟩
  | batch commands' =>
    cases commands' with
    | nil =>
      cases primary <;> obtain rfl := Option.some.inj hstep <;>
        exact ⟨rfl, .inr (.inr (by simp [begins]))⟩
    | cons command rest =>
      obtain rfl := Option.some.inj hstep
      exact ⟨rfl, .inr (.inr (by simp [begins]))⟩
  | swapping | executing | primary | restoring | leaving =>
    obtain rfl := Option.some.inj hstep
    exact ⟨rfl, .inr (.inr (by simp [begins]))⟩
  | returned => cases hstep

/-- No call of `exit` begins before `exec()` has set `_running` and `_code`. -/
def NotEarly (s : State Command) : Event Command → Prop
  | .exitCode _ => Entered s.executer.phase
  | _ => True

instance (s : State Command) : ∀ event, Decidable (NotEarly s event)
  | .exitCode _ => inferInstanceAs (Decidable (Entered _))
  | .schedule _ | .start _ | .exitRunning | .advance => .isTrue trivial

/-- Nobody has asked for the exit. -/
structure Quiet (s : State Command) : Prop where
  exited : s.exited = false
  exiting : s.executer.exiting = 0
  running : s.executer.phase ≠ .idle → s.executer.running = true
  inside : s.executer.phase ≠ .leaving ∧ ¬ s.executer.phase.Returned

/-- What a run without early requests keeps. -/
structure Recorded (s : State Command) : Prop where
  early : ¬ Entered s.executer.phase → s.codes = []
  quiet : s.codes = [] → Quiet s
  exited : s.exited = true → s.executer.running = false
  /-- The code of the last request is the one that `exec()` will return, or has returned. -/
  last : ¬ s.executer.phase.Returned → s.codes ≠ [] → s.codes.getLast? = some s.executer.code
  returned : ∀ code, s.executer.phase = .returned code → s.codes.getLast? = some code
  overrun : s.overrun = false

/-- Nobody has asked to exit. -/
lemma recorded_fresh (running : Bool) (code : ℤ) :
    Recorded (fresh running code : State Command) := by
  refine ⟨fun _ => rfl, fun _ => ⟨rfl, rfl, fun hidle => absurd rfl hidle, ?_⟩, ?_, ?_, ?_, rfl⟩
  all_goals simp [fresh, Executer.fresh]

/-- A step does not begin while the phase stays. -/
lemma begins_self (phase : Phase Command) : begins phase phase = false := by
  cases phase <;> rfl

/-- A step of the loop keeps the record. -/
lemma recorded_advance {s : State Command} {executer : Executer.State Command}
    (h : Recorded s) (hstep : advance s.executer = some executer) :
    Recorded (s.watch .advance executer) := by
  obtain ⟨hexiting, ⟨hidle, hphase, hrunning⟩ | ⟨hstarting, hphase, hrunning⟩ |
    ⟨hentered, hentered', hrunning, hcode, hlive, hleaving, hreturned, hbegins⟩⟩ :=
    advance_cases hstep
  · -- `_running = true`, and nobody has asked yet
    have hcodes := h.early (by simp [hidle])
    obtain ⟨hexited, hnone, -, -⟩ := h.quiet hcodes
    refine ⟨fun _ => hcodes, fun _ => ⟨hexited, hexiting.trans hnone, fun _ => hrunning, ?_⟩,
      ?_, ?_, ?_, ?_⟩
    all_goals simp [State.watch, hphase, hcodes, hexited, hidle, begins, h.overrun]
  · -- `_code = 0`
    have hcodes := h.early (by simp [hstarting])
    obtain ⟨hexited, hnone, hrun, -⟩ := h.quiet hcodes
    have hrunning' : executer.running = true := hrunning.trans (hrun (by simp [hstarting]))
    refine ⟨fun _ => hcodes, fun _ => ⟨hexited, hexiting.trans hnone, fun _ => hrunning', ?_⟩,
      ?_, ?_, ?_, ?_⟩
    all_goals simp [State.watch, hphase, hcodes, hexited, hstarting, begins, h.overrun]
  · -- inside the loop neither the flag nor the code changes
    refine ⟨fun hnot => absurd hentered' hnot, fun hcodes => ?_, fun hexited => ?_, ?_, ?_, ?_⟩
    · -- nobody has asked, so the flag is set and the loop is not left
      obtain ⟨hexited, hnone, hrun, hinside⟩ := h.quiet hcodes
      have hrun' := hrun (fun hidle => by rw [hidle] at hentered; exact hentered)
      refine ⟨hexited, hexiting.trans hnone, fun _ => hrunning.trans hrun', ?_, ?_⟩
      · intro hleave
        rw [hleaving hleave] at hrun'
        cases hrun'
      · intro hreturn
        obtain ⟨code, hphase⟩ := exists_of_returned hreturn
        exact hinside.1 (hreturned code hphase).1
    · exact hrunning.trans (h.exited hexited)
    · intro _ hcodes
      exact (h.last hlive hcodes).trans (congrArg some hcode.symm)
    · intro code hphase
      obtain ⟨hleave, rfl⟩ := hreturned code hphase
      exact h.last hlive fun hcodes => (h.quiet hcodes).inside.1 hleave
    · -- a step begins only while no request is over
      have hnot : (s.exited && begins s.executer.phase executer.phase) = false := by
        rw [Bool.and_eq_false_iff]
        by_contra hboth
        push Not at hboth
        simp only [ne_eq, Bool.not_eq_false] at hboth
        have hstop := h.exited hboth.1
        rw [hbegins hboth.2] at hstop
        cases hstop
      simp [State.watch, h.overrun, hnot]

/-- The requests have nothing to do with the queue. -/
lemma recorded_queue {s : State Command} (h : Recorded s) (commands scheduled : List Command)
    (primary : Option Command) :
    Recorded { s with
      executer := { s.executer with
        commands := commands, scheduled := scheduled, primary := primary } } :=
  ⟨h.early, fun hcodes =>
    ⟨(h.quiet hcodes).exited, (h.quiet hcodes).exiting, (h.quiet hcodes).running,
      (h.quiet hcodes).inside⟩,
    h.exited, h.last, h.returned, h.overrun⟩

/-- Only a step that begins can be late. -/
lemma watch_overrun (s : State Command) (event : Event Command)
    {executer : Executer.State Command} (hphase : executer.phase = s.executer.phase) :
    (s.watch event executer).overrun = s.overrun := by
  simp [State.watch, hphase, begins_self]

/-- `exit` writes the code. -/
lemma recorded_exitCode {s : State Command} (h : Recorded s) (hentered : Entered s.executer.phase)
    (code : ℤ) :
    Recorded (s.watch (.exitCode code)
      { s.executer with code := code, exiting := s.executer.exiting + 1 }) := by
  have hoverrun : (s.watch (.exitCode code)
      { s.executer with code := code, exiting := s.executer.exiting + 1 }).overrun = false :=
    (watch_overrun s _ (by rfl)).trans h.overrun
  by_cases hlive : s.executer.phase.Returned
  · -- the request comes after the return, and does not count
    obtain ⟨ret, hphase⟩ := exists_of_returned hlive
    have hlast := h.returned ret hphase
    have hcodes : (s.watch (.exitCode code)
        { s.executer with code := code, exiting := s.executer.exiting + 1 }).codes = s.codes := by
      simp [State.watch, hphase]
    refine ⟨fun hnot => absurd hentered hnot, fun hnone => ?_, h.exited, ?_, ?_, hoverrun⟩
    · rw [hcodes] at hnone
      simp [hnone] at hlast
    · exact fun hnot => absurd hlive hnot
    · rw [hcodes]
      exact h.returned
  · -- the code that is written is the one asked for last
    have hcodes : (s.watch (.exitCode code)
        { s.executer with code := code, exiting := s.executer.exiting + 1 }).codes =
        s.codes ++ [code] := by
      cases hphase : s.executer.phase <;> simp_all [State.watch]
    refine ⟨fun hnot => absurd hentered hnot, fun hnone => ?_, h.exited, ?_, ?_, hoverrun⟩
    · rw [hcodes] at hnone
      exact absurd hnone (List.append_ne_nil_of_right_ne_nil _ (List.cons_ne_nil _ _))
    · intro _ _
      rw [hcodes]
      exact List.getLast?_concat
    · intro ret hphase
      exact absurd (by simp [show s.executer.phase = .returned ret from hphase]) hlive

/-- `exit` clears the flag, and is over. -/
lemma recorded_exitRunning {s : State Command} (h : Recorded s)
    (hpending : 0 < s.executer.exiting) :
    Recorded (s.watch .exitRunning
      { s.executer with running := false, exiting := s.executer.exiting - 1 }) := by
  have hcodes : s.codes ≠ [] := by
    intro hnone
    have hzero := (h.quiet hnone).exiting
    omega
  have hoverrun : (s.watch .exitRunning
      { s.executer with
        running := false, exiting := s.executer.exiting - 1 }).overrun = false :=
    (watch_overrun s _ (by rfl)).trans h.overrun
  exact ⟨h.early, fun hnone => absurd hnone hcodes, fun _ => rfl, h.last, h.returned, hoverrun⟩

variable [DecidableEq Command]

@[simp] lemma phase_schedule (s : Executer.State Command) (command : Command) (primary : Bool) :
    (Executer.schedule s command primary).phase = s.phase := by
  unfold Executer.schedule
  split_ifs <;> rfl

/-- Scheduling has nothing to do with exiting. -/
lemma recorded_schedule {s : State Command} (h : Recorded s) (command : Command) (primary : Bool) :
    Recorded { s with executer := Executer.schedule s.executer command primary } := by
  unfold Executer.schedule
  split_ifs <;> exact recorded_queue h _ _ _

/-- Every event keeps the record, if no code is written too early. -/
lemma recorded_step {s s' : State Command} {event : Event Command} (h : Recorded s)
    (hearly : NotEarly s event) (hstep : step s event = some s') : Recorded s' := by
  obtain ⟨executer, hexec, rfl⟩ := Option.map_eq_some_iff.mp hstep
  -- only `exit` and the steps of the loop touch what is recorded
  cases event with
  | schedule command =>
    obtain rfl := Option.some.inj hexec
    have hwatch : s.watch (.schedule command) (Executer.schedule s.executer command false) =
        { s with executer := Executer.schedule s.executer command false } := by
      simp [State.watch, begins_self]
    rw [hwatch]
    exact recorded_schedule h command false
  | start primary =>
    dsimp only [Executer.step] at hexec
    split at hexec
    · obtain rfl := Option.some.inj hexec
      have hwatch : s.watch (.start primary) (Executer.schedule s.executer primary true) =
          { s with executer := Executer.schedule s.executer primary true } := by
        simp [State.watch, begins_self]
      rw [hwatch]
      exact recorded_schedule h primary true
    · cases hexec
  | exitCode code =>
    obtain rfl := Option.some.inj hexec
    exact recorded_exitCode h hearly code
  | exitRunning =>
    dsimp only [Executer.step] at hexec
    split_ifs at hexec with hpending
    obtain rfl := Option.some.inj hexec
    exact recorded_exitRunning h hpending
  | advance => exact recorded_advance h hexec

/-- A request is honoured: once it is over no step begins, and `exec()` returns, or has returned,
the code of the last one. -/
structure Honoured (s : State Command) : Prop where
  overrun : s.overrun = false
  returned : ∀ code, s.executer.phase = .returned code → s.codes.getLast? = some code
  /-- Left to itself, `exec()` comes to its end. -/
  returns : s.exited = true → ∃ n t code,
    Machine.run step s (List.replicate n .advance) = some t ∧
      t.executer.phase = .returned code ∧ s.codes.getLast? = some code

/-- The record says that the requests are honoured. -/
lemma honoured_of_recorded {s : State Command} (h : Recorded s) : Honoured s := by
  refine ⟨h.overrun, h.returned, fun hexited => ?_⟩
  by_cases hlive : s.executer.phase.Returned
  · obtain ⟨code, hphase⟩ := exists_of_returned hlive
    exact ⟨0, s, code, rfl, hphase, h.returned code hphase⟩
  · have hcodes : s.codes ≠ [] := by
      intro hnone
      rw [(h.quiet hnone).exited] at hexited
      cases hexited
    have hentered : Entered s.executer.phase := by
      by_contra hnot
      exact hcodes (h.early hnot)
    -- the flag is cleared, so every step leads closer to the return
    obtain ⟨n, t, hrun, hphase, -⟩ := run_advance_stopping ⟨hentered, h.exited hexited⟩ hlive
    exact ⟨n, t, _, hrun, hphase, h.last hlive hcodes⟩

/-- **Exit requests.** On every run on which nobody asks for the exit before `exec()` has set its
flag and its code, every request is honoured. -/
theorem honoured_of_run (running : Bool) (code : ℤ) (events : List (Event Command))
    {s : State Command} (hrun : Machine.run step (fresh running code) events = some s)
    (hearly : Machine.Along step NotEarly (fresh running code) events) : Honoured s :=
  honoured_of_recorded (Machine.run_invariant_along
    (fun _ _ _ h hearly hstep => recorded_step h hearly hstep)
    (recorded_fresh running code) hearly hrun)

/-- The connection is lost while the loop is running. -/
theorem honoured_of_run_lost :
    Honoured
      { executer :=
          { running := false, code := -10, primary := some 0, commands := [],
            phase := .returned (-10), exiting := 0, scheduled := [], swapped := [],
            started := [], finished := [] },
        codes := [-10], exited := true, overrun := false } :=
  honoured_of_run false 0
    [.start 0, .advance, .advance, .exitCode (-10), .exitRunning, .advance, .advance] rfl
    (by decide)

/-- A signal between `initialize` and `exec()` is forgotten, and so is the code of a request that
comes between `_running = true` and `_code = 0`. -/
theorem honoured_of_run_early :
    (∃ s : State ℕ, Machine.run step (fresh false 0)
        [.start 0, .exitCode 0, .exitRunning, .advance, .advance, .advance] = some s ∧
        s.exited = true ∧ s.executer.phase = .swapping ∧ ¬ Honoured s) ∧
      ∃ s : State ℕ, Machine.run step (fresh false 0)
        [.start 0, .advance, .exitCode (-10), .exitRunning, .advance, .advance, .advance] =
          some s ∧
        s.codes = [-10] ∧ s.executer.phase = .returned 0 ∧ ¬ Honoured s := by
  refine ⟨⟨_, rfl, rfl, rfl, fun h => ?_⟩, _, rfl, rfl, rfl, fun h => ?_⟩
  · exact absurd h.overrun (by decide)
  · exact absurd (h.returned 0 rfl) (by decide)

end Exit
end Vng
