import Vng.Lib.Machine
import Vng.Lib.Timerfd

/-!
# `TimerFD` and the timer of `HttpClient`

libcurl has one timeout at a time for all of its transfers. It hands it to `_multiTimerFunc`, which
arms a `TimerFD` with it, and waits to be called back from `onTimer` when it is over. `setTime`
puts the whole timeout into the nanoseconds of the request and none of it into the seconds.
-/

namespace Vng
namespace TimerFD

open Timerfd (Timespec Itimerspec Timer)

/-- `newVal` of `setTime`. `1e6 * timeout_ms` is exact, since it is below `2^53`, and is taken to
fit in `tv_nsec`. -/
def newVal (timeout_ms : ℤ) (periodic : Bool) : Itimerspec where
  it_interval := ⟨0, if periodic then 10 ^ 6 * timeout_ms else 0⟩
  it_value := ⟨0, 10 ^ 6 * timeout_ms⟩

/-- `setTime`: what `timerfd_settime` returns is not looked at. -/
def setTime (timer : Timer) (now : ℤ) (timeout_ms : ℤ) (periodic : Bool) : Timer :=
  match Timerfd.settime now (newVal timeout_ms periodic) with
  | .error _ => timer
  | .ok timer => timer

/-- The `long` of libcurl as the `int` of `setTime`. -/
def toInt (value : ℤ) : ℤ := value.bmod (2 ^ 32)

/-- `_multiTimerFunc`. -/
def multiTimerFunc (timer : Timer) (now : ℤ) (timeout_ms : ℤ) : Timer :=
  setTime timer now (toInt timeout_ms) false

/-- What `_multiTimerFunc` asks of the kernel. -/
def requested (timeout_ms : ℤ) : Itimerspec := newVal (toInt timeout_ms) false

/-- The loop of `TimerFD::read` over the descriptor. -/
def drain (timer : Timer) : Timer :=
  match h : Timerfd.read timer with
  | .error _ => timer
  | .ok (_, rest) =>
    have : rest.ticks < timer.ticks := Timerfd.ticks_lt_of_read h
    drain rest
termination_by timer.ticks

/-- The loop leaves nothing to read, and the timer as it is armed. -/
lemma drain_eq (timer : Timer) : drain timer = { timer with ticks := 0 } := by
  fun_induction drain timer with
  | case1 timer error hread =>
    rcases Timerfd.read_cases timer with ⟨hticks, -⟩ | ⟨-, hok⟩
    · rw [← hticks]
    · cases hread.symm.trans hok
  | case2 timer count rest hread hlt ih =>
    rcases Timerfd.read_cases timer with ⟨-, herror⟩ | ⟨-, hok⟩
    · cases hread.symm.trans herror
    · obtain rfl := congrArg Prod.snd (Except.ok.inj (hread.symm.trans hok))
      exact ih

/-! ## One request -/

/-- The value is one of an `int`. -/
def FitsInt (value : ℤ) : Prop := -2 ^ 31 ≤ value ∧ value < 2 ^ 31

instance (value : ℤ) : Decidable (FitsInt value) := inferInstanceAs (Decidable (_ ∧ _))

/-- The request that a timeout of libcurl asks for. -/
structure Asked (timeout_ms : ℤ) (spec : Itimerspec) : Prop where
  accepted : spec.Accepted
  /-- The timer expires after exactly this many milliseconds. -/
  expiry : 0 < timeout_ms → spec.it_value.nanoseconds = 10 ^ 6 * timeout_ms
  /-- The timer expires, and within the same millisecond. -/
  immediate : timeout_ms = 0 →
    0 < spec.it_value.nanoseconds ∧ spec.it_value.nanoseconds < 10 ^ 6
  disarmed : timeout_ms = -1 → spec.it_value = ⟨0, 0⟩

/-- A number that `int` holds is not cut. -/
lemma toInt_eq {value : ℤ} (h : FitsInt value) : toInt value = value := by
  obtain ⟨hlow, hhigh⟩ := h
  exact Int.bmod_eq_of_le (by omega) (by omega)

/-- The milliseconds are all there, whichever field holds them. -/
lemma nanoseconds_newVal (timeout_ms : ℤ) (periodic : Bool) :
    (newVal timeout_ms periodic).it_value.nanoseconds = 10 ^ 6 * timeout_ms := by
  unfold newVal Timespec.nanoseconds
  dsimp only
  omega

/-- The nanoseconds are in their range below a second. -/
lemma accepted_newVal_iff (timeout_ms : ℤ) (periodic : Bool) :
    (newVal timeout_ms periodic).Accepted ↔ 0 ≤ timeout_ms ∧ timeout_ms < 1000 := by
  unfold Itimerspec.Accepted Timespec.Valid newVal
  cases periodic
  · simp only [Bool.false_eq_true, if_false]
    omega
  · simp only [if_true]
    omega

/-- **One request.** For a timeout of libcurl in the range of `int`, the request is the one it asks
for exactly between one millisecond and 999. -/
theorem requested_asked_iff {timeout_ms : ℤ} (h : FitsInt timeout_ms) :
    Asked timeout_ms (requested timeout_ms) ↔ 0 < timeout_ms ∧ timeout_ms < 1000 := by
  unfold requested
  rw [toInt_eq h]
  constructor
  · intro hasked
    obtain ⟨hlow, hhigh⟩ := (accepted_newVal_iff timeout_ms false).mp hasked.accepted
    refine ⟨?_, hhigh⟩
    by_contra hpos
    -- zero is accepted, and disarms the timer
    have himmediate := (hasked.immediate (by omega)).1
    rw [nanoseconds_newVal] at himmediate
    omega
  · rintro ⟨hlow, hhigh⟩
    exact {
      accepted := (accepted_newVal_iff timeout_ms false).mpr ⟨by omega, hhigh⟩
      expiry := fun _ => nanoseconds_newVal timeout_ms false
      immediate := fun hzero => by omega
      disarmed := fun hminus => by omega }

theorem requested_asked_half : Asked 500 (requested 500) :=
  (requested_asked_iff (by decide)).mpr (by decide)

/-- A second and a half and `-1` are refused, and zero disarms the timer. -/
theorem requested_not_asked :
    ¬ Asked 1500 (requested 1500) ∧ ¬ Asked 0 (requested 0) ∧ ¬ Asked (-1) (requested (-1)) := by
  refine ⟨fun h => ?_, fun h => ?_, fun h => ?_⟩
  · exact absurd h.accepted (by decide)
  · exact absurd (h.immediate rfl).1 (by decide)
  · exact absurd h.accepted (by decide)

/-! ## What becomes of the timer -/

lemma it_interval_newVal (timeout_ms : ℤ) :
    (newVal timeout_ms false).it_interval.nanoseconds = 0 := rfl

/-- Only the timeout 0 disarms the timer. -/
lemma it_value_newVal_iff {timeout_ms : ℤ} :
    (newVal timeout_ms false).it_value = ⟨0, 0⟩ ↔ timeout_ms = 0 := by
  unfold newVal
  rw [Timespec.mk.injEq]
  omega

/-- Below a second the timer is armed for the time that was asked for. -/
lemma multiTimerFunc_armed {timeout_ms : ℤ} (hlow : 0 < timeout_ms) (hhigh : timeout_ms < 1000)
    (timer : Timer) (now : ℤ) :
    multiTimerFunc timer now timeout_ms = ⟨some (now + 10 ^ 6 * timeout_ms), 0, 0⟩ := by
  have haccepted := (accepted_newVal_iff timeout_ms false).mpr ⟨by omega, hhigh⟩
  have hne : (newVal timeout_ms false).it_value ≠ ⟨0, 0⟩ := mt it_value_newVal_iff.mp (by omega)
  unfold multiTimerFunc setTime
  rw [toInt_eq ⟨by omega, by omega⟩, Timerfd.settime_armed haccepted hne, nanoseconds_newVal,
    it_interval_newVal]

/-- Zero is how the kernel is asked to disarm a timer. -/
lemma multiTimerFunc_zero (timer : Timer) (now : ℤ) :
    multiTimerFunc timer now 0 = ⟨none, 0, 0⟩ := by
  have haccepted := (accepted_newVal_iff 0 false).mpr (by omega)
  unfold multiTimerFunc setTime
  rw [toInt_eq (by decide), Timerfd.settime_disarmed haccepted (it_value_newVal_iff.mpr rfl),
    it_interval_newVal]

/-- A request that is refused leaves the timer as it was. -/
lemma multiTimerFunc_refused {timeout_ms : ℤ} (hfits : FitsInt timeout_ms)
    (h : timeout_ms < 0 ∨ 1000 ≤ timeout_ms) (timer : Timer) (now : ℤ) :
    multiTimerFunc timer now timeout_ms = timer := by
  have hrefused : ¬ (newVal timeout_ms false).Accepted := by
    rw [accepted_newVal_iff]
    omega
  unfold multiTimerFunc setTime
  rw [toInt_eq hfits, Timerfd.settime_refused hrefused]

/-! ## Runs of the client -/

/-- The clock, `_timerfd`, and a record of when libcurl wants to be called back. -/
structure State where
  now : ℤ
  timer : Timer
  deadline : Option ℤ
deriving DecidableEq

/-- The client behind its constructor. -/
def constructed (now : ℤ) : State := ⟨now, Timerfd.create, none⟩

/-- What libcurl, the clock and the synchronizer do. -/
inductive Event
  /-- libcurl calls `_multiTimerFunc`. -/
  | multiTimer (timeout_ms : ℤ)
  /-- Time passes. -/
  | elapse (nanoseconds : ℕ)
  /-- The kernel lets the timer expire. -/
  | expire
  /-- The synchronizer calls `TimerFD::read`, and `onTimer` calls libcurl back. -/
  | read
deriving DecidableEq

/-- When libcurl wants to be called back, by the documentation of its timer callback. -/
def wanted (now timeout_ms : ℤ) : Option ℤ :=
  if timeout_ms = -1 then none else some (now + 10 ^ 6 * timeout_ms)

/-- One event; libcurl passes -1 or a timeout that `int` holds. -/
def step (s : State) : Event → Option State
  | .multiTimer timeout_ms =>
    -- libcurl passes no other negative value
    if -1 ≤ timeout_ms ∧ FitsInt timeout_ms then
      some { s with
        timer := multiTimerFunc s.timer s.now timeout_ms
        deadline := wanted s.now timeout_ms }
    else none
  | .elapse nanoseconds => some { s with now := s.now + nanoseconds }
  | .expire => (Timerfd.expire s.timer s.now).map fun timer => { s with timer }
  | .read =>
    some { s with
      timer := drain s.timer
      deadline := if s.timer.ticks = 0 then s.deadline else none }

/-- The timer is what libcurl wants: armed for its deadline, or expired behind it and about to be
read; idle where it wants nothing. -/
def Kept (s : State) : Prop :=
  match s.deadline with
  | none => s.timer.Idle
  | some deadline => s.timer.expiration = some deadline ∧ s.timer.ticks = 0 ∨
      s.timer.expiration = none ∧ s.timer.ticks ≠ 0 ∧ deadline ≤ s.now

/-- The timeout is below a second and not zero, or there is nothing to disarm. -/
def Short (s : State) : Event → Prop
  | .multiTimer timeout_ms =>
    0 < timeout_ms ∧ timeout_ms < 1000 ∨ timeout_ms = -1 ∧ s.timer.Idle
  | _ => True

instance (s : State) : ∀ event, Decidable (Short s event)
  | .multiTimer _ => inferInstanceAs (Decidable (_ ∨ _))
  | .elapse _ | .expire | .read => .isTrue trivial

/-- `Kept`, of a timer that expires once and in less than a second. -/
structure Invariant (s : State) : Prop where
  kept : Kept s
  interval : s.timer.interval = 0
  near : ∀ deadline, s.timer.expiration = some deadline → deadline < s.now + 10 ^ 9

/-- A timer that was never armed. -/
lemma invariant_constructed (now : ℤ) : Invariant (constructed now) where
  kept := ⟨rfl, rfl⟩
  interval := rfl
  near := fun _ h => by cases h

/-- Nothing is asked for, and nothing is armed. -/
lemma kept_of_none {s : State} (h : s.deadline = none) : Kept s ↔ s.timer.Idle := by
  unfold Kept
  rw [h]

/-- A deadline is ahead in the timer, or behind and reported. -/
lemma kept_of_some {s : State} {deadline : ℤ} (h : s.deadline = some deadline) :
    Kept s ↔ s.timer.expiration = some deadline ∧ s.timer.ticks = 0 ∨
      s.timer.expiration = none ∧ s.timer.ticks ≠ 0 ∧ deadline ≤ s.now := by
  unfold Kept
  rw [h]

/-- A timeout below a second is kept. -/
lemma invariant_multiTimer {s : State} {timeout_ms : ℤ} (h : Invariant s)
    (hshort : Short s (.multiTimer timeout_ms)) :
    Invariant { s with
      timer := multiTimerFunc s.timer s.now timeout_ms
      deadline := wanted s.now timeout_ms } := by
  rcases hshort with ⟨hlow, hhigh⟩ | ⟨rfl, hidle⟩
  · rw [multiTimerFunc_armed hlow hhigh, wanted, if_neg (by omega)]
    refine ⟨.inl ⟨rfl, rfl⟩, rfl, fun deadline hdeadline => ?_⟩
    obtain rfl := Option.some.inj hdeadline
    dsimp only
    omega
  · -- the request is refused, and nothing was armed
    rw [multiTimerFunc_refused (by decide) (by decide)]
    exact ⟨hidle, h.interval, h.near⟩

/-- A request that is not short leaves the timer other than libcurl wants it. -/
lemma not_kept_multiTimer {s : State} {timeout_ms : ℤ} (h : Invariant s) (hminus : -1 ≤ timeout_ms)
    (hfits : FitsInt timeout_ms) (hshort : ¬ Short s (.multiTimer timeout_ms)) :
    ¬ Kept { s with
      timer := multiTimerFunc s.timer s.now timeout_ms
      deadline := wanted s.now timeout_ms } := by
  obtain ⟨hrange, hbusy⟩ := not_or.mp hshort
  rcases eq_or_ne timeout_ms (-1) with rfl | hne
  · rw [kept_of_none rfl, multiTimerFunc_refused hfits (by decide)]
    exact fun hidle => hbusy ⟨rfl, hidle⟩
  rw [kept_of_some (if_neg hne)]
  rcases eq_or_ne timeout_ms 0 with rfl | hzero
  · -- the timer is disarmed, and nothing is left to read
    rw [multiTimerFunc_zero]
    simp
  · rw [multiTimerFunc_refused hfits (by omega)]
    rintro (⟨harmed, -⟩ | ⟨-, -, hpast⟩)
    · have hnear := h.near _ harmed
      omega
    · dsimp only at hpast
      omega

/-- Time alone takes nothing away. -/
lemma invariant_elapse {s : State} (h : Invariant s) (nanoseconds : ℕ) :
    Invariant { s with now := s.now + nanoseconds } := by
  refine ⟨?_, h.interval, fun expiration hexpiration => ?_⟩
  · cases hdeadline : s.deadline with
    | none => exact (kept_of_none hdeadline).mp h.kept
    | some deadline =>
      refine ((kept_of_some hdeadline).mp h.kept).imp_right ?_
      rintro ⟨hexpired, hticks, hpast⟩
      refine ⟨hexpired, hticks, ?_⟩
      dsimp only
      omega
  · have hnear := h.near expiration hexpiration
    dsimp only
    omega

/-- Only an armed timer expires, and it was armed for the deadline. -/
lemma invariant_expire {s : State} {timer : Timer} (h : Invariant s)
    (hexpire : Timerfd.expire s.timer s.now = some timer) : Invariant { s with timer } := by
  obtain ⟨expiration, hdue, hexpiration, rfl⟩ :=
    (Timerfd.expire_eq_some_iff h.interval).mp hexpire
  refine ⟨?_, rfl, fun deadline hdeadline => by cases hdeadline⟩
  cases hdeadline : s.deadline with
  | none =>
    have hidle := (kept_of_none hdeadline).mp h.kept
    cases hidle.1.symm.trans hexpiration
  | some deadline =>
    rcases (kept_of_some hdeadline).mp h.kept with ⟨harmed, -⟩ | ⟨hexpired, -⟩
    · obtain rfl := Option.some.inj (harmed.symm.trans hexpiration)
      exact .inr ⟨rfl, Nat.succ_ne_zero _, hdue⟩
    · cases hexpired.symm.trans hexpiration

/-- Reading answers the deadline that is over. -/
lemma invariant_read {s : State} (h : Invariant s) :
    Invariant { s with
      timer := drain s.timer
      deadline := if s.timer.ticks = 0 then s.deadline else none } := by
  rw [drain_eq]
  refine ⟨?_, h.interval, h.near⟩
  by_cases hticks : s.timer.ticks = 0
  · -- libcurl is called back with nothing expired
    have hsame : ({ s.timer with ticks := 0 } : Timer) = s.timer := by rw [← hticks]
    rw [if_pos hticks, hsame]
    exact h.kept
  · rw [if_neg hticks]
    cases hdeadline : s.deadline with
    | none => exact absurd ((kept_of_none hdeadline).mp h.kept).2 hticks
    | some deadline =>
      rcases (kept_of_some hdeadline).mp h.kept with ⟨-, hzero⟩ | ⟨hexpired, -⟩
      · exact absurd hzero hticks
      · exact ⟨hexpired, rfl⟩

/-- Every step with short timeouts keeps what was asked for. -/
lemma invariant_step {s s' : State} {event : Event} (h : Invariant s) (hshort : Short s event)
    (hstep : step s event = some s') : Invariant s' := by
  cases event with
  | multiTimer timeout_ms =>
    dsimp only [step] at hstep
    split_ifs at hstep
    obtain rfl := Option.some.inj hstep
    exact invariant_multiTimer h hshort
  | elapse nanoseconds =>
    obtain rfl := Option.some.inj hstep
    exact invariant_elapse h nanoseconds
  | expire =>
    obtain ⟨timer, hexpire, rfl⟩ := Option.map_eq_some_iff.mp hstep
    exact invariant_expire h hexpire
  | read =>
    obtain rfl := Option.some.inj hstep
    exact invariant_read h

/-- A timeout that is not short is not kept. -/
lemma not_kept_step {s s' : State} {event : Event} (h : Invariant s) (hshort : ¬ Short s event)
    (hstep : step s event = some s') : ¬ Kept s' := by
  cases event with
  | multiTimer timeout_ms =>
    dsimp only [step] at hstep
    split_ifs at hstep with hpassed
    obtain rfl := Option.some.inj hstep
    exact not_kept_multiTimer h hpassed.1 hpassed.2 hshort
  | elapse | expire | read => exact absurd trivial hshort

/-- **Timeouts.** Throughout a run the timer is what libcurl wants exactly if all of its timeouts
are short. -/
theorem kept_iff {now : ℤ} {events : List Event} {s : State}
    (hrun : Machine.run step (constructed now) events = some s) :
    Machine.Always step Kept (constructed now) events ↔
      Machine.Along step Short (constructed now) events :=
  Machine.always_iff_along (fun _ h => h.kept) (fun _ _ _ h => invariant_step h)
    (fun _ _ _ h => not_kept_step h) (invariant_constructed now) hrun

/-- The deadline is over exactly if the timer expires or has expired. -/
lemma due_iff {s : State} {deadline : ℤ} (h : Invariant s)
    (hdeadline : s.deadline = some deadline) :
    deadline ≤ s.now ↔ (∃ s', step s .expire = some s') ∨ s.timer.ticks ≠ 0 := by
  have hkept := (kept_of_some hdeadline).mp h.kept
  constructor
  · intro hdue
    rcases hkept with ⟨harmed, -⟩ | ⟨-, hticks, -⟩
    · have hexpire := (Timerfd.expire_eq_some_iff h.interval).mpr ⟨deadline, hdue, harmed, rfl⟩
      exact .inl ⟨_, Option.map_eq_some_iff.mpr ⟨_, hexpire, rfl⟩⟩
    · exact .inr hticks
  · rintro (⟨s', hstep⟩ | hticks)
    · obtain ⟨timer, hexpire, -⟩ := Option.map_eq_some_iff.mp hstep
      obtain ⟨expiration, hdue, hexpiration, -⟩ :=
        (Timerfd.expire_eq_some_iff h.interval).mp hexpire
      rcases hkept with ⟨harmed, -⟩ | ⟨-, -, hpast⟩
      · obtain rfl := Option.some.inj (harmed.symm.trans hexpiration)
        exact hdue
      · exact hpast
    · rcases hkept with ⟨-, hzero⟩ | ⟨-, -, hpast⟩
      · exact absurd hzero hticks
      · exact hpast

/-- A timeout of two seconds: the timer is never armed. -/
example : (Machine.run step (constructed 0) [.multiTimer 2000, .elapse (30 * 10 ^ 9)]).map
    (fun s => (s.deadline, s.timer)) = some (some (2 * 10 ^ 9), Timerfd.create) := by
  decide

/-- **No timeout is lost, and none is early.** Where all timeouts are short, the timer can expire or
has something to read from the deadline of libcurl on, and not before. -/
theorem due_iff_of_run {now : ℤ} {events : List Event} {s : State}
    (hrun : Machine.run step (constructed now) events = some s)
    (hshort : Machine.Along step Short (constructed now) events) {deadline : ℤ}
    (hdeadline : s.deadline = some deadline) :
    deadline ≤ s.now ↔ (∃ s', step s .expire = some s') ∨ s.timer.ticks ≠ 0 :=
  due_iff (Machine.run_invariant_along (fun _ _ _ h => invariant_step h)
    (invariant_constructed now) hshort hrun) hdeadline

end TimerFD
end Vng
