import Mathlib.Data.Int.Notation
import Mathlib.Tactic.Common
import Vng.Lib.Machine

/-!
# `core::Executer`

The command queue of `coreexecute.cpp`. Any thread may schedule a command or ask for the exit at
any time; one thread is inside `exec()`. A locked section is one step, and so is everything the
thread in `exec()` does between two points where others can be noticed.
-/

namespace Vng
namespace Executer

variable {Command : Type}

/-- Where the thread that calls `exec()` stands. -/
inductive Phase (Command : Type)
  | idle
  /-- Between `_running = true` and `_code = 0`. -/
  | starting
  /-- At `while (_running)`. -/
  | testing
  /-- At the locked swap of `step()`. -/
  | swapping
  /-- At `while (!commands.empty())`, with the local list. -/
  | batch (commands : List Command)
  /-- Inside `command->execute()`, with the local list behind its front. -/
  | executing (command : Command) (rest : List Command)
  /-- Inside `primary->execute()`. -/
  | primary (primary : Command)
  /-- At the locked section that puts the primary command back. -/
  | restoring (primary : Command)
  /-- Behind the loop of `exec()`. `_commands.clear()` and `return _code` are one step of the
  model, so there is no state between them. -/
  | leaving
  | returned (code : ℤ)

/-- The executer, with a record of what has been scheduled and executed so far. -/
structure State (Command : Type) where
  running : Bool
  code : ℤ
  primary : Option Command
  commands : List Command
  phase : Phase Command
  /-- The calls of `exit` that have written `_code` but not yet `_running`. -/
  exiting : ℕ
  /-- The commands of `schedule(command, false)`, in the order of the lock. -/
  scheduled : List Command
  /-- `scheduled`, as it was at the last swap. -/
  swapped : List Command
  started : List Command
  finished : List Command

/-- A new executer. The constructor sets neither `_running` nor `_code`. -/
def fresh (running : Bool) (code : ℤ) : State Command where
  running := running
  code := code
  primary := none
  commands := []
  phase := .idle
  exiting := 0
  scheduled := []
  swapped := []
  started := []
  finished := []

/-- `Private::schedule`; a second primary command pushes the first one into the queue. -/
def schedule [DecidableEq Command] (s : State Command) (command : Command) (primary : Bool) :
    State Command :=
  if primary ≠ true then
    { s with commands := s.commands ++ [command], scheduled := s.scheduled ++ [command] }
  else
    { s with
      commands :=
        if s.primary ≠ some command ∧ s.primary ≠ none then s.commands ++ s.primary.toList
        else s.commands
      primary := some command }

/-- The next step of the thread in `exec()`. -/
def advance (s : State Command) : Option (State Command) :=
  match s.phase with
  | .idle => some { s with running := true, phase := .starting }
  | .starting => some { s with code := 0, phase := .testing }
  | .testing => some { s with phase := if s.running then .swapping else .leaving }
  | .swapping => some { s with commands := [], phase := .batch s.commands, swapped := s.scheduled }
  | .batch (command :: rest) =>
    some { s with phase := .executing command rest, started := s.started ++ [command] }
  | .executing command rest =>
    some { s with phase := .batch rest, finished := s.finished ++ [command] }
  | .batch [] =>
    match s.primary with
    | none => some { s with phase := .testing }
    | some primary => some { s with primary := none, phase := .primary primary }
  | .primary primary => some { s with phase := .restoring primary }
  | .restoring primary =>
    some { s with
      primary := if s.primary = none then some primary else s.primary
      phase := .testing }
  | .leaving => some { s with commands := [], phase := .returned s.code }
  | .returned _ => none

/-- What the threads do, beside the loop itself. -/
inductive Event (Command : Type)
  /-- `schedule(command, false)`, by any thread or from inside a command. -/
  | schedule (command : Command)
  /-- `schedule(primary, true)`, once and before `exec()`. -/
  | start (primary : Command)
  /-- The two writes of `exit(code)`, by any thread. -/
  | exitCode (code : ℤ)
  | exitRunning
  | advance

/-- One event; `exit` writes the code and the flag one after the other. -/
def step [DecidableEq Command] (s : State Command) : Event Command → Option (State Command)
  | .schedule command => some (schedule s command false)
  | .start primary =>
    match s.phase, s.primary with
    | .idle, none => some (schedule s primary true)
    | _, _ => none
  | .exitCode code => some { s with code := code, exiting := s.exiting + 1 }
  | .exitRunning =>
    if 0 < s.exiting then some { s with running := false, exiting := s.exiting - 1 } else none
  | .advance => advance s

/-! ## Order -/

/-- The unstarted rest of the current batch. -/
@[simp] def Phase.rest : Phase Command → List Command
  | .batch commands => commands
  | .executing _ rest => rest
  | _ => []

/-- The command being executed. -/
@[simp] def Phase.current : Phase Command → List Command
  | .executing command _ => [command]
  | _ => []

/-- `exec()` is over. -/
@[simp] def Phase.Returned : Phase Command → Prop
  | .returned _ => True
  | _ => False

/-- Between a swap and the next test of `_running`. -/
@[simp] def Phase.Swapped : Phase Command → Prop
  | .batch _ | .executing _ _ | .primary _ | .restoring _ => True
  | _ => False

/-- Commands are executed in the order in which they were scheduled. -/
structure Ordered (s : State Command) : Prop where
  /-- Nothing is lost, repeated or overtaken. -/
  order : ¬ s.phase.Returned → s.started ++ s.phase.rest ++ s.commands = s.scheduled
  /-- One command is executed at a time. -/
  current : s.finished ++ s.phase.current = s.started
  /-- The batch is what had been scheduled at the swap. -/
  batch : s.phase.Swapped → s.started ++ s.phase.rest = s.swapped

/-- Nothing has been scheduled. -/
lemma ordered_fresh (running : Bool) (code : ℤ) :
    Ordered (fresh running code : State Command) := by
  constructor <;> simp [fresh]

/-- A new command goes behind the others. -/
lemma ordered_schedule [DecidableEq Command] {s : State Command} (h : Ordered s)
    (command : Command) :
    Ordered (schedule s command false) := by
  obtain ⟨order, current, batch⟩ := h
  refine ⟨fun hlive => ?_, current, batch⟩
  -- the command goes to the end of the queue and to the end of the record
  show s.started ++ s.phase.rest ++ (s.commands ++ [command]) = s.scheduled ++ [command]
  rw [← List.append_assoc, order hlive]

/-- A step of `exec()` moves commands along, from the queue to the batch to the started ones. -/
lemma ordered_advance {s s' : State Command} (h : Ordered s) (hstep : advance s = some s') :
    Ordered s' := by
  obtain ⟨running, code, primary, commands, phase, exiting, scheduled, swapped, started,
    finished⟩ := s
  obtain ⟨order, current, batch⟩ := h
  cases phase with
  | idle | starting | primary =>
    obtain rfl := Option.some.inj hstep
    exact ⟨order, current, batch⟩
  | testing =>
    obtain rfl := Option.some.inj hstep
    cases running <;> exact ⟨order, current, False.elim⟩
  -- the queue becomes the batch, as a whole
  | swapping =>
    obtain rfl := Option.some.inj hstep
    have hqueue : started ++ commands = scheduled := by simpa using order
    exact ⟨fun _ => by simpa using hqueue, current, fun _ => hqueue⟩
  | batch commands' =>
    cases commands' with
    | nil =>
      cases primary with
      | none =>
        obtain rfl := Option.some.inj hstep
        exact ⟨order, current, False.elim⟩
      | some primary =>
        obtain rfl := Option.some.inj hstep
        exact ⟨order, current, batch⟩
    -- the next command of the batch begins
    | cons command rest =>
      obtain rfl := Option.some.inj hstep
      have hcurrent : finished = started := by simpa using current
      exact ⟨fun _ => by simpa using order, by simp [hcurrent], fun _ => by simpa using batch⟩
  | executing command rest =>
    obtain rfl := Option.some.inj hstep
    exact ⟨order, by simpa using current, batch⟩
  | restoring primary =>
    obtain rfl := Option.some.inj hstep
    exact ⟨order, current, False.elim⟩
  | leaving =>
    obtain rfl := Option.some.inj hstep
    exact ⟨fun hlive => absurd trivial hlive, current, False.elim⟩
  | returned code => cases hstep

/-- Between the swap and the primary command. -/
@[simp] def Phase.InBatch : Phase Command → Prop
  | .batch _ | .executing _ _ => True
  | _ => False

/-- The batch is entered with an empty queue, and the primary command from the batch. -/
lemma commands_advance {s s' : State Command} (hstep : advance s = some s')
    (hphase : s'.phase.InBatch ∨ ∃ primary, s'.phase = .primary primary) :
    s'.commands = [] ∨ s.phase.InBatch ∧ s'.commands = s.commands := by
  obtain ⟨running, code, primary, commands, phase, exiting, scheduled, swapped, started,
    finished⟩ := s
  cases phase with
  | swapping =>
    obtain rfl := Option.some.inj hstep
    exact .inl rfl
  | batch commands' =>
    refine .inr ⟨trivial, ?_⟩
    cases commands' with
    | nil => cases primary <;> obtain rfl := Option.some.inj hstep <;> rfl
    | cons command rest =>
      obtain rfl := Option.some.inj hstep
      rfl
  | executing command rest =>
    obtain rfl := Option.some.inj hstep
    exact .inr ⟨trivial, rfl⟩
  -- the loop goes on to the swap, or ends
  | testing =>
    obtain rfl := Option.some.inj hstep
    cases running <;> simp at hphase
  | idle | starting | primary | restoring | leaving =>
    obtain rfl := Option.some.inj hstep
    simp at hphase
  | returned => cases hstep

variable [DecidableEq Command]

/-- Every step keeps the order. -/
lemma ordered_step {s s' : State Command} {event : Event Command} (h : Ordered s)
    (hstep : step s event = some s') : Ordered s' := by
  cases event with
  | schedule command =>
    obtain rfl := Option.some.inj hstep
    exact ordered_schedule h command
  | start primary =>
    dsimp only [step] at hstep
    split at hstep
    · rename_i hidle hnone
      obtain rfl := Option.some.inj hstep
      obtain ⟨order, current, batch⟩ := h
      refine ⟨?_, current, batch⟩
      -- the primary slot is empty, so nothing is pushed out of it
      simpa [schedule, hnone] using order
    · cases hstep
  | exitCode code =>
    obtain rfl := Option.some.inj hstep
    exact ⟨h.order, h.current, h.batch⟩
  | exitRunning =>
    unfold step at hstep
    split_ifs at hstep
    obtain rfl := Option.some.inj hstep
    exact ⟨h.order, h.current, h.batch⟩
  | advance => exact ordered_advance h hstep

/-- So does every run. -/
lemma ordered_run {running : Bool} {code : ℤ} {events : List (Event Command)} {s : State Command}
    (hrun : Machine.run step (fresh running code) events = some s) : Ordered s :=
  Machine.run_invariant (fun _ _ _ h hstep => ordered_step h hstep)
    (ordered_fresh running code) hrun

/-- **Every command once and in order.** Until `exec()` returns, the started commands, the rest
of the batch and the queue are together what has been scheduled; and when a step runs the primary
command, it has executed everything that had been scheduled when it swapped the queue. -/
theorem commands_in_order (running : Bool) (code : ℤ) (events : List (Event Command))
    {s : State Command} (hrun : Machine.run step (fresh running code) events = some s)
    (hlive : ¬ s.phase.Returned) :
    s.started ++ s.phase.rest ++ s.commands = s.scheduled ∧
      ∀ primary, s.phase = .primary primary → s.finished = s.swapped := by
  have h := ordered_run hrun
  refine ⟨h.order hlive, fun primary hphase => ?_⟩
  have hcurrent := h.current
  have hbatch := h.batch (by rw [hphase]; trivial)
  rw [hphase] at hcurrent hbatch
  simpa using hcurrent.trans (by simpa using hbatch)

/-- A command that is scheduled while the batch runs waits for the next swap. -/
theorem commands_in_order_pushed :
    let s : State ℕ :=
      { running := true, code := 0, primary := none, commands := [2], phase := .primary 0,
        exiting := 0, scheduled := [1, 2], swapped := [1], started := [1], finished := [1] }
    s.started ++ s.phase.rest ++ s.commands = s.scheduled ∧
      ∀ primary, s.phase = .primary primary → s.finished = s.swapped :=
  commands_in_order false 0
    [.start 0, .schedule 1, .advance, .advance, .advance, .advance, .advance, .schedule 2,
      .advance, .advance] rfl not_false

end Executer
end Vng
