import Vng.Core.Synchronizer
import Vng.Host
import Vng.Lib.Object

/-!
# `devices::Device` and `serial::Device`, open and closed

A serial device has two members `_private`: one in the base class, for the protocol, and one in the
derived class, for the port. Neither class sees the other's. `open` of the base class opens both
and takes both back on an error; `close` is the derived class's alone. What the calls of the system
come to is a parameter of the events, and so is what the protocol encodes.
-/

namespace Vng
namespace Device

open Memory (Checked bind_eq_ok_iff ok_bind)
open Object (Pointer isNull isNull_live isNull_null use use_live)

variable {Callback : Type}

/-- The device, and its port at the system. -/
structure State (Callback : Type) where
  /-- `_private` of `devices::Device`. -/
  outer : Pointer
  /-- `_private` of `serial::Device`. -/
  inner : Pointer
  /-- `_device`. -/
  device : ℤ
  pendings : List (List Byte)
  /-- The descriptors that are open. -/
  descriptors : List ℤ
  synchronizer : Synchronizer.State Callback

/-- A new device, beside a synchronizer. -/
def constructed (synchronizer : Synchronizer.State Callback) : State Callback where
  outer := .null
  inner := .null
  device := 0
  pendings := []
  descriptors := []
  synchronizer := synchronizer

/-- What the steps of opening a port come to. -/
structure Port where
  /-- `initialize`, which reads the settings. -/
  initialized : ℤ
  opened : Except Errno ℕ
  configured : ℤ
  /-- The reason that epoll may have to refuse. -/
  appended : Option Errno

/-- `::close(_device)`. -/
def State.closeDevice (s : State Callback) : State Callback :=
  { s with descriptors := s.descriptors.erase s.device, device := 0 }

/-- `serial::Device::Private::open`. -/
def openPrivate (this : Callback) (port : Port) (s : State Callback) : ℤ × State Callback :=
  if port.initialized ≠ 0 then (port.initialized, s)
  else
    match port.opened with
    | .error errno => (errno, { s with device := -1 })
    | .ok descriptor =>
      let s := { s with device := descriptor, descriptors := descriptor :: s.descriptors }
      if port.configured ≠ 0 then (port.configured, s.closeDevice)
      else
        match Synchronizer.append s.synchronizer s.device this true false
            (port.appended.map Subtype.val) with
        | (.error errno, synchronizer) =>
          (errno, State.closeDevice { s with synchronizer := synchronizer })
        | (.ok (), synchronizer) => (0, { s with synchronizer := synchronizer })

/-- `serial::Device::_open`. -/
def openSerial (this : Callback) (port : Port) (s : State Callback) :
    Checked (ℤ × State Callback) := do
  if ← isNull s.inner then do
    let (error, s) := openPrivate this port { s with inner := .live, pendings := [] }
    if error ≠ 0 then do
      let _ ← Object.delete s.inner
      return (error, { s with inner := .null })
    else return (0, s)
  else return (-1, s)

/-- `Device::open`. -/
def openDevice (this : Callback) (port : Port) (s : State Callback) :
    Checked (ℤ × State Callback) := do
  if ← isNull s.outer then do
    let (error, s) ← openSerial this port { s with outer := .live }
    if error ≠ 0 then do
      let _ ← Object.delete s.outer
      return (error, { s with outer := .null })
    else return (0, s)
  else return (-1, s)

/-- `serial::Device::Private::write`. -/
def writePrivate (packet : List Byte) (failure : Option Errno) (s : State Callback) :
    ℤ × State Callback :=
  let queued := { s with pendings := s.pendings ++ [packet] }
  if s.pendings ≠ [] then (0, queued)
  else
    match Synchronizer.update s.synchronizer s.device true true (failure.map Subtype.val) with
    | (.error error, synchronizer) => (error, { s with synchronizer := synchronizer })
    | (.ok (), synchronizer) => (0, { queued with synchronizer := synchronizer })

/-- `serial::Device::_write`. -/
def writeSerial (packet : List Byte) (failure : Option Errno) (s : State Callback) :
    Checked (ℤ × State Callback) := do
  if ← isNull s.inner then return (-1, s)
  else do
    use s.inner
    return writePrivate packet failure s

/-- `Device::write`; `encode` of the protocol has returned `encoded`. -/
def writeDevice (encoded : ℤ × List Byte) (failure : Option Errno) (s : State Callback) :
    Checked (ℤ × State Callback) := do
  -- `_private` is used without a check
  use s.outer
  if encoded.1 ≠ 0 then return (encoded.1, s)
  else writeSerial encoded.2 failure s

/-- `serial::Device::close`. -/
def close (s : State Callback) : Checked (State Callback) := do
  if ← isNull s.inner then return s
  else do
    use s.inner
    let s := { s with synchronizer := Synchronizer.remove s.synchronizer s.device }.closeDevice
    let _ ← Object.delete s.inner
    return { s with inner := .null }

inductive Event
  | openDevice (port : Port)
  | writeDevice (encoded : ℤ × List Byte) (failure : Option Errno)
  | close

/-- What a call returns, if it returns something, and the state behind it. -/
def call (this : Callback) (s : State Callback) : Event → Checked (Option ℤ × State Callback)
  | .openDevice port => do
    let (error, s) ← openDevice this port s
    return (some error, s)
  | .writeDevice encoded failure => do
    let (error, s) ← writeDevice encoded failure s
    return (some error, s)
  | .close => do
    let s ← close s
    return (none, s)

def step (this : Callback) (s : State Callback) (event : Event) : Option (State Callback) :=
  match call this s event with
  | .error _ => none
  | .ok (_, s) => some s

/-! ## The two levels -/

/-- Both levels are open, or both are closed. -/
def Level (s : State Callback) : Prop := s.outer = .live ↔ s.inner = .live

/-- The port is open. -/
def Opened (s : State Callback) : Prop := s.inner = .live

instance (s : State Callback) : Decidable (Opened s) := inferInstanceAs (Decidable (_ = _))

/-- An `open` that fails has a port that fails, or a device that is open already. A `write` on a
device that is not open returns an error and touches nothing. -/
def Answers (this : Callback) (s : State Callback) (result : Option ℤ) (s' : State Callback) :
    Event → Prop
  | .openDevice port => result ≠ some 0 →
    (openPrivate this port { s with outer := .live, inner := .live, pendings := [] }).1 ≠ 0 ∨
      Opened s
  | .writeDevice _ _ => ¬ Opened s → result ≠ some 0 ∧ s' = s
  | .close => True

/-- A call ends, with the answer it should have and with the levels in step. -/
def Proper (this : Callback) (s : State Callback) (event : Event) : Prop :=
  ∃ result s', call this s event = .ok (result, s') ∧ Level s' ∧ Answers this s result s' event

/-- A device that is open is not closed, and one that is not open is not written to. -/
def Benign (s : State Callback) : Event → Prop
  | .openDevice _ => True
  | .writeDevice _ _ => Opened s
  | .close => ¬ Opened s

/-- The two members are both `NULL`, or both there. -/
def Paired (s : State Callback) : Prop :=
  s.outer = .null ∧ s.inner = .null ∨ s.outer = .live ∧ s.inner = .live

variable {this : Callback} {s s' : State Callback}

lemma Paired.level (h : Paired s) : Level s := by
  rcases h with ⟨houter, hinner⟩ | ⟨houter, hinner⟩
  · unfold Level
    rw [houter, hinner]
  · unfold Level
    rw [houter, hinner]

/-- What `open` of the port does: it has a descriptor afterwards exactly if it succeeds. -/
structure PortStep (s : State Callback) (error : ℤ) (s' : State Callback) : Prop where
  outer : s'.outer = s.outer
  inner : s'.inner = s.inner
  pendings : s'.pendings = s.pendings
  done : error = 0 → s'.descriptors = s'.device :: s.descriptors
  failed : error ≠ 0 → s'.descriptors = s.descriptors

lemma append_error_ne_zero {synchronizer synchronizer' : Synchronizer.State Callback}
    {descriptor errno : ℤ} {failure : Option Errno}
    (h : Synchronizer.append synchronizer descriptor this true false (failure.map Subtype.val) =
      (.error errno, synchronizer')) : errno ≠ 0 := by
  by_cases hepoll : synchronizer.epoll descriptor = none
  · cases failure with
    | none =>
      rw [Option.map_none, Synchronizer.append_done hepoll] at h
      cases (Prod.mk.inj h).1
    | some failure =>
      simp only [Synchronizer.append, Epoll.add, Option.map_some, hepoll, ne_eq, not_true,
        if_false] at h
      obtain ⟨herror, -⟩ := Prod.mk.inj h
      rw [← Except.error.inj herror]
      exact failure.2.ne'
  · rw [Synchronizer.append_registered hepoll] at h
    obtain ⟨herror, -⟩ := Prod.mk.inj h
    rw [← Except.error.inj herror]
    decide

lemma openPrivate_step (this : Callback) (port : Port) (s : State Callback) :
    PortStep s (openPrivate this port s).1 (openPrivate this port s).2 := by
  unfold openPrivate
  by_cases hinitialized : port.initialized ≠ 0
  · rw [if_pos hinitialized]
    exact ⟨rfl, rfl, rfl, fun h => absurd h hinitialized, fun _ => rfl⟩
  rw [if_neg hinitialized]
  rcases port.opened with errno | descriptor
  · exact ⟨rfl, rfl, rfl, fun h => absurd h errno.2.ne', fun _ => rfl⟩
  dsimp only
  by_cases hconfigured : port.configured ≠ 0
  · rw [if_pos hconfigured]
    refine ⟨rfl, rfl, rfl, fun h => absurd h hconfigured, fun _ => ?_⟩
    simp [State.closeDevice]
  rw [if_neg hconfigured]
  split
  next errno synchronizer happend =>
    refine ⟨rfl, rfl, rfl, fun h => absurd h (append_error_ne_zero happend), fun _ => ?_⟩
    simp [State.closeDevice]
  next synchronizer happend =>
    exact ⟨rfl, rfl, rfl, fun _ => rfl, fun h => absurd rfl h⟩

lemma openSerial_closed {error : ℤ} {port : Port} (hinner : s.inner = .null)
    (hopen : openPrivate this port { s with inner := .live, pendings := [] } = (error, s')) :
    openSerial this port s = .ok (error, if error = 0 then s' else { s' with inner := .null }) := by
  have hport := openPrivate_step this port { s with inner := .live, pendings := [] }
  rw [hopen] at hport
  unfold openSerial
  rw [hinner, isNull_null, ok_bind, if_pos rfl, hopen]
  dsimp only
  by_cases herror : error = 0
  · rw [if_neg (not_not.mpr herror), if_pos herror, herror]
    rfl
  · rw [if_pos herror, if_neg herror, hport.inner]
    rfl

/-- `open` of a device that is closed does what its port does. -/
lemma openDevice_closed {error : ℤ} {port : Port} (houter : s.outer = .null)
    (hinner : s.inner = .null)
    (hopen : openPrivate this port { s with outer := .live, inner := .live, pendings := [] } =
      (error, s')) :
    openDevice this port s =
      .ok (error, if error = 0 then s' else { s' with outer := .null, inner := .null }) := by
  have hport := openPrivate_step this port { s with outer := .live, inner := .live, pendings := [] }
  rw [hopen] at hport
  unfold openDevice
  rw [houter, isNull_null, ok_bind, if_pos rfl]
  rw [openSerial_closed (s := { s with outer := .live }) hinner hopen, ok_bind]
  dsimp only
  by_cases herror : error = 0
  · rw [if_neg (not_not.mpr herror), if_pos herror, if_pos herror, herror]
    rfl
  · rw [if_pos herror, if_neg herror, if_neg herror, hport.outer]
    rfl

/-- `open` of a device that is open does nothing. -/
lemma openDevice_opened (port : Port) (houter : s.outer = .live) :
    openDevice this port s = .ok (-1, s) := by
  unfold openDevice
  rw [houter]
  rfl

/-- `open` keeps the two members in step. -/
lemma open_paired (this : Callback) (h : Paired s) (port : Port) :
    ∃ error s', openDevice this port s = .ok (error, s') ∧ Paired s' ∧ (error ≠ 0 →
      (openPrivate this port { s with outer := .live, inner := .live, pendings := [] }).1 ≠ 0 ∨
        Opened s) := by
  rcases h with ⟨houter, hinner⟩ | ⟨houter, hinner⟩
  · have hport :=
      openPrivate_step this port { s with outer := .live, inner := .live, pendings := [] }
    rcases hopen : openPrivate this port { s with outer := .live, inner := .live, pendings := [] }
      with ⟨error, s'⟩
    rw [hopen] at hport
    refine ⟨error, _, openDevice_closed houter hinner hopen, ?_, fun herror => .inl herror⟩
    by_cases herror : error = 0
    · rw [if_pos herror]
      exact .inr ⟨hport.outer, hport.inner⟩
    · rw [if_neg herror]
      exact .inl ⟨rfl, rfl⟩
  · exact ⟨-1, s, openDevice_opened port houter, .inr ⟨houter, hinner⟩, fun _ => .inr hinner⟩

lemma writePrivate_members (packet : List Byte) (failure : Option Errno) (s : State Callback) :
    (writePrivate packet failure s).2.outer = s.outer ∧
      (writePrivate packet failure s).2.inner = s.inner ∧
      (writePrivate packet failure s).2.device = s.device ∧
      (writePrivate packet failure s).2.descriptors = s.descriptors := by
  unfold writePrivate
  dsimp only
  split_ifs
  · exact ⟨rfl, rfl, rfl, rfl⟩
  · split <;> exact ⟨rfl, rfl, rfl, rfl⟩

/-- A device that is open takes a packet, or returns an error, and stays open. -/
lemma write_opened (houter : s.outer = .live) (hinner : s.inner = .live) (encoded : ℤ × List Byte)
    (failure : Option Errno) :
    ∃ error s', writeDevice encoded failure s = .ok (error, s') ∧ s'.outer = .live ∧
      s'.inner = .live ∧ s'.device = s.device ∧ s'.descriptors = s.descriptors := by
  unfold writeDevice writeSerial
  rw [houter, use_live, ok_bind]
  by_cases hencoded : encoded.1 ≠ 0
  · rw [if_pos hencoded]
    exact ⟨encoded.1, s, rfl, houter, hinner, rfl, rfl⟩
  obtain ⟨houter', hinner', hdevice, hdescriptors⟩ := writePrivate_members encoded.2 failure s
  rw [if_neg hencoded, hinner, isNull_live, ok_bind, use_live]
  exact ⟨_, _, rfl, houter'.trans houter, hinner'.trans hinner, hdevice, hdescriptors⟩

/-- A device that was never open has no protocol to write with. -/
lemma write_closed (houter : s.outer = .null) (encoded : ℤ × List Byte) (failure : Option Errno) :
    writeDevice encoded failure s = .error .outOfBounds := by
  unfold writeDevice
  rw [houter]
  rfl

/-- `close` of a device that is closed does nothing. -/
lemma close_closed (hinner : s.inner = .null) : close s = .ok s := by
  unfold close
  rw [hinner]
  rfl

/-- `close` of a device that is open closes the port alone. -/
lemma close_opened (hinner : s.inner = .live) :
    ∃ s', close s = .ok s' ∧ s'.outer = s.outer ∧ s'.inner = .null ∧
      s'.descriptors = s.descriptors.erase s.device := by
  unfold close
  rw [hinner, isNull_live, ok_bind]
  refine ⟨_, rfl, rfl, rfl, rfl⟩

/-- A benign call answers as it should, and keeps the members in step. -/
lemma call_benign (this : Callback) {event : Event} (h : Paired s) (hbenign : Benign s event) :
    ∃ result s', call this s event = .ok (result, s') ∧ Paired s' ∧
      Answers this s result s' event := by
  cases event with
  | openDevice port =>
    obtain ⟨error, s', hopen, hpaired, herror⟩ := open_paired this h port
    refine ⟨some error, s', ?_, hpaired, fun hne => herror (by simpa using hne)⟩
    rw [call, hopen]
    rfl
  | writeDevice encoded failure =>
    rcases h with ⟨-, hinner⟩ | ⟨houter, hinner⟩
    · rw [Benign, Opened, hinner] at hbenign
      cases hbenign
    · obtain ⟨error, s', hwrite, houter', hinner', -⟩ := write_opened houter hinner encoded failure
      refine ⟨some error, s', ?_, .inr ⟨houter', hinner'⟩, fun hnot => absurd hinner hnot⟩
      rw [call, hwrite]
      rfl
  | close =>
    rcases h with ⟨houter, hinner⟩ | ⟨-, hinner⟩
    · refine ⟨none, s, ?_, .inl ⟨houter, hinner⟩, trivial⟩
      rw [call, close_closed hinner]
      rfl
    · exact absurd hinner hbenign

/-- Any other call faults, or leaves the base class open. -/
lemma not_proper {event : Event} (h : Paired s) (hbenign : ¬ Benign s event) :
    ¬ Proper this s event := by
  rintro ⟨result, s', hcall, hlevel, -⟩
  cases event with
  | openDevice port => exact hbenign trivial
  | writeDevice encoded failure =>
    rcases h with ⟨houter, -⟩ | ⟨-, hinner⟩
    · rw [call, write_closed houter] at hcall
      cases hcall
    · exact hbenign hinner
  | close =>
    rcases h with ⟨-, hinner⟩ | ⟨houter, hinner⟩
    · apply hbenign
      rw [Benign, Opened, hinner]
      decide
    · obtain ⟨closed, hclose, houter', hinner', -⟩ := close_opened hinner
      rw [call, hclose] at hcall
      obtain ⟨-, rfl⟩ := Prod.mk.inj (Except.ok.inj hcall)
      have hlive := hlevel.mp (houter'.trans houter)
      rw [hinner'] at hlive
      cases hlive

lemma proper_iff {event : Event} (h : Paired s) : Proper this s event ↔ Benign s event := by
  constructor
  · intro hproper
    by_contra hbenign
    exact not_proper h hbenign hproper
  · intro hbenign
    obtain ⟨result, s', hcall, hpaired, hanswers⟩ := call_benign this h hbenign
    exact ⟨result, s', hcall, hpaired.level, hanswers⟩

lemma paired_step {event : Event} (h : Paired s) (hbenign : Benign s event)
    (hstep : step this s event = some s') : Paired s' := by
  obtain ⟨result, next, hcall, hpaired, -⟩ := call_benign this h hbenign
  rw [step, hcall] at hstep
  exact Option.some.inj hstep ▸ hpaired

/-- **Open and closed.** Every call of a sequence is proper exactly if no call closes a device that
is open or writes to one that is not. -/
theorem proper_iff_benign (this : Callback) (synchronizer : Synchronizer.State Callback)
    (events : List Event) :
    Machine.Along (step this) (Proper this) (constructed synchronizer) events ↔
      Machine.Along (step this) Benign (constructed synchronizer) events := by
  have hpaired : Paired (constructed synchronizer) := .inl ⟨rfl, rfl⟩
  constructor
  · exact Machine.along_of_along
      (fun s event s' h hproper => paired_step h ((proper_iff h).mp hproper))
      (fun s event h => (proper_iff h).mp) hpaired
  · exact Machine.along_of_along (fun s event s' h hbenign => paired_step h hbenign)
      (fun s event h => (proper_iff h).mpr) hpaired

/-- A port that opens. -/
def port : Port := ⟨0, .ok 5, 0, none⟩

/-- A device that was closed does not open again, since the base class was not told. And a new
device that is written to faults. -/
theorem reopen_refused :
    (∃ s, Machine.run (step ()) (constructed Synchronizer.fresh) [.openDevice port, .close] =
        some s ∧ s.outer = .live ∧ s.inner = .null ∧
      call () s (.openDevice port) = .ok (some (-1), s)) ∧
    ¬ Machine.Along (step ()) (Proper ()) (constructed Synchronizer.fresh)
      [.openDevice port, .close, .openDevice port] ∧
    call () (constructed Synchronizer.fresh) (.writeDevice (0, []) none) = .error .outOfBounds ∧
    ¬ Machine.Along (step ()) (Proper ()) (constructed Synchronizer.fresh)
      [.writeDevice (0, []) none] := by
  refine ⟨⟨_, rfl, rfl, rfl, rfl⟩, fun h => ?_, rfl, fun h => ?_⟩
  · obtain ⟨opened, hopened⟩ :
        ∃ s, step () (constructed Synchronizer.fresh) (.openDevice port) = some s := ⟨_, rfl⟩
    refine not_proper ?_ ?_ (h.2 opened hopened).1
    · exact paired_step (.inl ⟨rfl, rfl⟩) (show Benign _ (.openDevice port) from trivial) hopened
    · obtain rfl := Option.some.inj hopened
      exact not_not.mpr rfl
  · have hclosed : ¬ Opened (constructed Synchronizer.fresh : State Unit) := by decide
    have hbenign : ¬ Benign (constructed Synchronizer.fresh) (.writeDevice (0, []) none) := hclosed
    exact not_proper (.inl ⟨rfl, rfl⟩) hbenign h.1

/-! ## The port -/

/-- The derived class has exactly the descriptor of a port that is open. -/
def Ported (s : State Callback) : Prop :=
  s.inner = .live ∧ s.descriptors = [s.device] ∨ s.inner = .null ∧ s.descriptors = []

lemma ported_openSerial {error : ℤ} {port : Port} (h : Ported s)
    (hopen : openSerial this port s = .ok (error, s')) : Ported s' := by
  rcases h with ⟨hinner, hdescriptors⟩ | ⟨hinner, hdescriptors⟩
  · unfold openSerial at hopen
    rw [hinner] at hopen
    obtain ⟨-, rfl⟩ := Prod.mk.inj (Except.ok.inj hopen)
    exact .inl ⟨hinner, hdescriptors⟩
  · have hport := openPrivate_step this port { s with inner := .live, pendings := [] }
    rcases hprivate : openPrivate this port { s with inner := .live, pendings := [] } with
      ⟨result, opened⟩
    rw [hprivate] at hport
    rw [openSerial_closed hinner hprivate] at hopen
    obtain ⟨rfl, rfl⟩ := Prod.mk.inj (Except.ok.inj hopen)
    split_ifs with herror
    · refine .inl ⟨hport.inner, ?_⟩
      rw [hport.done herror, hdescriptors]
    · exact .inr ⟨rfl, (hport.failed herror).trans hdescriptors⟩

lemma ported_openDevice {error : ℤ} {port : Port} (h : Ported s)
    (hopen : openDevice this port s = .ok (error, s')) : Ported s' := by
  unfold openDevice at hopen
  obtain ⟨closed, -, hopen⟩ := bind_eq_ok_iff.mp hopen
  cases closed with
  | false =>
    obtain ⟨-, rfl⟩ := Prod.mk.inj (Except.ok.inj hopen)
    exact h
  | true =>
    obtain ⟨⟨result, opened⟩, hserial, hopen⟩ := bind_eq_ok_iff.mp hopen
    have hported := ported_openSerial (s := { s with outer := .live }) h hserial
    dsimp only at hopen
    split_ifs at hopen
    · obtain ⟨outer, -, hopen⟩ := bind_eq_ok_iff.mp hopen
      obtain ⟨-, rfl⟩ := Prod.mk.inj (Except.ok.inj hopen)
      exact hported
    · obtain ⟨-, rfl⟩ := Prod.mk.inj (Except.ok.inj hopen)
      exact hported

lemma ported_writeDevice {error : ℤ} {encoded : ℤ × List Byte} {failure : Option Errno}
    (h : Ported s) (hwrite : writeDevice encoded failure s = .ok (error, s')) : Ported s' := by
  unfold writeDevice writeSerial at hwrite
  obtain ⟨-, -, hwrite⟩ := bind_eq_ok_iff.mp hwrite
  split_ifs at hwrite
  · obtain ⟨-, rfl⟩ := Prod.mk.inj (Except.ok.inj hwrite)
    exact h
  obtain ⟨closed, -, hwrite⟩ := bind_eq_ok_iff.mp hwrite
  cases closed with
  | true =>
    obtain ⟨-, rfl⟩ := Prod.mk.inj (Except.ok.inj hwrite)
    exact h
  | false =>
    obtain ⟨-, -, hwrite⟩ := bind_eq_ok_iff.mp hwrite
    obtain ⟨-, hinner, hdevice, hdescriptors⟩ := writePrivate_members encoded.2 failure s
    rw [Except.ok.inj hwrite] at hinner hdevice hdescriptors
    unfold Ported
    rw [hinner, hdevice, hdescriptors]
    exact h

lemma ported_close (h : Ported s) (hclose : close s = .ok s') : Ported s' := by
  rcases h with ⟨hinner, hdescriptors⟩ | ⟨hinner, hdescriptors⟩
  · obtain ⟨closed, hclosed, -, hinner', hdescriptors'⟩ := close_opened hinner
    rw [hclosed] at hclose
    obtain rfl := Except.ok.inj hclose
    refine .inr ⟨hinner', ?_⟩
    rw [hdescriptors', hdescriptors, List.erase_cons_head]
  · rw [close_closed hinner] at hclose
    exact Except.ok.inj hclose ▸ .inr ⟨hinner, hdescriptors⟩

lemma ported_call {event : Event} {result : Option ℤ} (h : Ported s)
    (hcall : call this s event = .ok (result, s')) : Ported s' := by
  cases event with
  | openDevice port =>
    obtain ⟨⟨error, opened⟩, hopen, hcall⟩ := bind_eq_ok_iff.mp hcall
    obtain ⟨-, rfl⟩ := Prod.mk.inj (Except.ok.inj hcall)
    exact ported_openDevice h hopen
  | writeDevice encoded failure =>
    obtain ⟨⟨error, written⟩, hwrite, hcall⟩ := bind_eq_ok_iff.mp hcall
    obtain ⟨-, rfl⟩ := Prod.mk.inj (Except.ok.inj hcall)
    exact ported_writeDevice h hwrite
  | close =>
    obtain ⟨closed, hclose, hcall⟩ := bind_eq_ok_iff.mp hcall
    obtain ⟨-, rfl⟩ := Prod.mk.inj (Except.ok.inj hcall)
    exact ported_close h hclose

/-- **The port.** After any calls the derived class has exactly the descriptor of an open port, also
where the two levels have come apart. -/
theorem ported_run {synchronizer : Synchronizer.State Callback} {events : List Event}
    (hrun : Machine.run (step this) (constructed synchronizer) events = some s) : Ported s := by
  have hconstructed : Ported (constructed synchronizer) := .inr ⟨rfl, rfl⟩
  refine Machine.run_invariant (fun s event s' h hstep => ?_) hconstructed hrun
  unfold step at hstep
  split at hstep
  · cases hstep
  · next result next hcall =>
    obtain rfl := Option.some.inj hstep
    exact ported_call h hcall

end Device
end Vng
