import Mathlib.Algebra.Order.Ring.Int
import Mathlib.Tactic.Common

/-!
# Timers behind a descriptor

A timer of `timerfd_create` on a clock of nanoseconds. `settime` takes a first expiration relative
to the clock and an interval; a first expiration of zero disarms the timer. What has expired is
counted until it is read. Whoever needs a timer later than the kernel's own delays chooses when
`expire` happens.
-/

namespace Timerfd

/-- `struct timespec`. -/
structure Timespec where
  tv_sec : ℤ
  tv_nsec : ℤ
deriving DecidableEq, Repr

/-- `struct itimerspec`. -/
structure Itimerspec where
  it_interval : Timespec
  it_value : Timespec
deriving DecidableEq, Repr

/-- The time as one number. -/
def Timespec.nanoseconds (t : Timespec) : ℤ := t.tv_sec * 10 ^ 9 + t.tv_nsec

/-- The fields are in their ranges. -/
def Timespec.Valid (t : Timespec) : Prop := 0 ≤ t.tv_sec ∧ 0 ≤ t.tv_nsec ∧ t.tv_nsec < 10 ^ 9

instance (t : Timespec) : Decidable t.Valid :=
  inferInstanceAs (Decidable (_ ∧ _ ∧ _))

/-- What `timerfd_settime` does not refuse. -/
def Itimerspec.Accepted (spec : Itimerspec) : Prop := spec.it_interval.Valid ∧ spec.it_value.Valid

instance (spec : Itimerspec) : Decidable spec.Accepted :=
  inferInstanceAs (Decidable (_ ∧ _))

/-- A timer of the kernel. -/
structure Timer where
  /-- When the timer expires next. -/
  expiration : Option ℤ
  /-- The time between two expirations, zero for a timer that expires once. -/
  interval : ℤ
  /-- The expirations since the timer was set or read. -/
  ticks : ℕ
deriving DecidableEq, Repr

/-- Not armed, and nothing to read. -/
def Timer.Idle (timer : Timer) : Prop := timer.expiration = none ∧ timer.ticks = 0

instance (timer : Timer) : Decidable timer.Idle :=
  inferInstanceAs (Decidable (_ ∧ _))

/-- `timerfd_create`. -/
def create : Timer := ⟨none, 0, 0⟩

def EAGAIN : ℤ := 11
def EINVAL : ℤ := 22

/-- `timerfd_settime` with no flags. -/
def settime (now : ℤ) (spec : Itimerspec) : Except ℤ Timer :=
  if spec.Accepted then
    .ok { expiration :=
            if spec.it_value = ⟨0, 0⟩ then none else some (now + spec.it_value.nanoseconds)
          interval := spec.it_interval.nanoseconds
          ticks := 0 }
  else .error EINVAL

/-- The clock has reached the expiration. -/
def expire (timer : Timer) (now : ℤ) : Option Timer :=
  match timer.expiration with
  | none => none
  | some deadline =>
    if deadline ≤ now then
      some { timer with
        expiration := if timer.interval = 0 then none else some (deadline + timer.interval)
        ticks := timer.ticks + 1 }
    else none

/-- `read` of a descriptor that does not block. -/
def read (timer : Timer) : Except ℤ (ℕ × Timer) :=
  if timer.ticks = 0 then .error EAGAIN else .ok (timer.ticks, { timer with ticks := 0 })

/-- A timer is read if it has expired since it was read last. -/
lemma read_cases (timer : Timer) :
    (timer.ticks = 0 ∧ read timer = .error EAGAIN) ∨
      timer.ticks ≠ 0 ∧ read timer = .ok (timer.ticks, { timer with ticks := 0 }) := by
  unfold read
  split_ifs with h
  · exact .inl ⟨h, rfl⟩
  · exact .inr ⟨h, rfl⟩

/-- Reading takes the expirations away. -/
lemma ticks_lt_of_read {timer rest : Timer} {count : ℕ} (h : read timer = .ok (count, rest)) :
    rest.ticks < timer.ticks := by
  rcases read_cases timer with ⟨-, hread⟩ | ⟨hticks, hread⟩
  · rw [hread] at h
    cases h
  · rw [hread] at h
    cases h
    exact Nat.pos_of_ne_zero hticks

lemma settime_refused {spec : Itimerspec} (h : ¬ spec.Accepted) (now : ℤ) :
    settime now spec = .error EINVAL := if_neg h

/-- A time that is not zero arms the timer from now on. -/
lemma settime_armed {spec : Itimerspec} (h : spec.Accepted) (hne : spec.it_value ≠ ⟨0, 0⟩)
    (now : ℤ) :
    settime now spec =
      .ok ⟨some (now + spec.it_value.nanoseconds), spec.it_interval.nanoseconds, 0⟩ := by
  unfold settime
  rw [if_pos h, if_neg hne]

lemma settime_disarmed {spec : Itimerspec} (h : spec.Accepted) (hzero : spec.it_value = ⟨0, 0⟩)
    (now : ℤ) : settime now spec = .ok ⟨none, spec.it_interval.nanoseconds, 0⟩ := by
  unfold settime
  rw [if_pos h, if_pos hzero]

/-- A timer that expires once is disarmed when it has. -/
lemma expire_eq_some_iff {timer timer' : Timer} {now : ℤ} (h : timer.interval = 0) :
    expire timer now = some timer' ↔ ∃ deadline ≤ now, timer.expiration = some deadline ∧
      timer' = ⟨none, 0, timer.ticks + 1⟩ := by
  unfold expire
  cases hexpiration : timer.expiration with
  | none => simp
  | some deadline =>
    dsimp only
    rw [if_pos h, h]
    split_ifs with hdue
    · simp only [Option.some.injEq]
      constructor
      · rintro rfl
        exact ⟨deadline, hdue, rfl, rfl⟩
      · rintro ⟨-, -, -, rfl⟩
        rfl
    -- the deadline is still ahead
    · refine iff_of_false (by simp) ?_
      rintro ⟨other, hother, heq, -⟩
      obtain rfl := Option.some.inj heq
      exact hdue hother

end Timerfd
