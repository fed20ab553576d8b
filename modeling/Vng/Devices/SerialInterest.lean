import Vng.Core.Synchronizer
import Vng.Devices.Serial

/-!
# `devices::serial::Device` at the synchronizer

The transmit side again, with the synchronizer and epoll below it instead of two flags. The event
loop takes a list of ready callbacks from `epoll_wait` and runs them one after another; between
two of them anything may call the device, and anyone else may register descriptors of their own.
`run_serial` says that the device with its two flags does what this one does.
-/

namespace Vng
namespace SerialInterest

open Epoll (Entry)
open Serial (Send)

variable {Callback : Type} [DecidableEq Callback]

/-- The device, the synchronizer, and the record of `Serial.State`. -/
structure State (Callback : Type) where
  pendings : List Send
  synchronizer : Synchronizer.State Callback
  /-- The callbacks that `epoll_wait` has reported `EPOLLOUT` for, as far as they have not run. -/
  reported : List Callback
  /-- Inside the write-ready callback of the device. -/
  writing : Bool
  queued : List (List Byte)
  popped : List (List Byte)
  accepted : List Byte

/-- The device after `open` has appended it to a synchronizer. -/
def opened (descriptor : ℤ) (device : Callback) (base : Synchronizer.State Callback) :
    State Callback where
  pendings := []
  synchronizer := (Synchronizer.append base descriptor device true false none).2
  reported := []
  writing := false
  queued := []
  popped := []
  accepted := []

/-- `Private::wantWrite`. -/
def State.wantWrite (s : State Callback) : Bool := !s.pendings.isEmpty

/-- The interest of epoll in the descriptor has `EPOLLOUT`. -/
def State.interest (s : State Callback) (descriptor : ℤ) : Bool :=
  (s.synchronizer.epoll descriptor).any Entry.writable

/-- `_synchronizer.update(_device)`. -/
def State.update (s : State Callback) (descriptor : ℤ) (failure : Option ℤ) :
    Except ℤ Unit × State Callback :=
  let (result, synchronizer) :=
    Synchronizer.update s.synchronizer descriptor true s.wantWrite failure
  (result, { s with synchronizer := synchronizer })

/-- What the device, the event loop and other callbacks do. -/
inductive Event (Callback : Type)
  /-- `write(packet, size)`; `failure` is what epoll says if the queue was empty. -/
  | write (packet : List Byte) (failure : Option ℤ)
  /-- `epoll_wait` reports `EPOLLOUT` for some descriptors. -/
  | wait (ready : List ℤ)
  /-- The event loop comes to the next callback. -/
  | dispatch
  /-- `::write` takes that many bytes. -/
  | wrote (count : ℕ)
  /-- A call of someone else. -/
  | other (call : Synchronizer.Call Callback)

/-- A call for another descriptor that does not register the device. -/
def Foreign (descriptor : ℤ) (device : Callback) (call : Synchronizer.Call Callback) : Prop :=
  call.descriptor ≠ descriptor ∧ call.callback ≠ some device

instance (descriptor : ℤ) (device : Callback) (call : Synchronizer.Call Callback) :
    Decidable (Foreign descriptor device call) := inferInstanceAs (Decidable (_ ∧ _))

/-- One event, where it is possible. -/
def step (descriptor : ℤ) (device : Callback) (s : State Callback) :
    Event Callback → Option (State Callback)
  | .write packet failure =>
    if s.writing ∨ maxSize ≤ packet.length then none
    else
      let queued : State Callback :=
        { s with pendings := s.pendings ++ [⟨packet, 0⟩], queued := s.queued ++ [packet] }
      if s.pendings ≠ [] then some queued
      else
        match queued.update descriptor failure with
        | (.ok _, s) => some s
        -- `pop_back`
        | (.error _, s) =>
          some { s with pendings := s.pendings.dropLast, queued := s.queued.dropLast }
  | .wait ready =>
    if s.writing ∨ s.reported ≠ [] then none
    else if ready.Nodup ∧ ∀ other ∈ ready, s.interest other then
      some { s with reported :=
        ready.filterMap fun other => (s.synchronizer.epoll other).map Entry.data }
    else none
  | .dispatch =>
    match s.writing, s.reported with
    | false, callback :: rest => some { s with reported := rest, writing := callback = device }
    | _, _ => none
  | .wrote count =>
    match s.writing, s.pendings with
    | true, pending :: rest =>
      if count ≤ pending.rest.length then
        let s := { s with accepted := s.accepted ++ pending.rest.take count }
        let pending := pending.write count
        if ¬pending.completed then
          some (State.update { s with pendings := pending :: rest, writing := false }
            descriptor none).2
        else
          let s := { s with pendings := rest, popped := s.popped ++ [pending.packet] }
          if rest = [] then some (State.update { s with writing := false } descriptor none).2
          else some s
      else none
    | _, _ => none
  | .other call =>
    if ¬s.writing ∧ Foreign descriptor device call then
      some { s with synchronizer := Synchronizer.next s.synchronizer call }
    else none

variable {descriptor : ℤ} {device : Callback}

/-! ## The calls of others -/

/-- Nothing at the synchronizer has the device for the descriptor. -/
def Absent (s : Synchronizer.State Callback) (device : Callback) (descriptor : ℤ) : Prop :=
  s.callbacks descriptor ≠ some device ∧ ∀ entry ∈ s.epoll descriptor, entry.data ≠ device

omit [DecidableEq Callback] in
/-- A call for another descriptor does not bring the device there. -/
lemma absent_next {s : Synchronizer.State Callback} {call : Synchronizer.Call Callback}
    (hforeign : Foreign descriptor device call) {other : ℤ} (h : Absent s device other) :
    Absent (Synchronizer.next s call) device other := by
  obtain ⟨callback, entry, hnext, hcallback, hentry⟩ := Synchronizer.next_eq s call
  rw [hnext]
  -- only the descriptor of the call is touched
  by_cases hother : other = call.descriptor
  · subst hother
    constructor
    · dsimp only
      rw [Function.update_self]
      intro hstored
      rcases hcallback device hstored with hbrought | hfound
      · exact hforeign.2 hbrought
      · exact h.1 hfound
    · dsimp only
      rw [Function.update_self]
      intro e he hdata
      rcases hentry e he with hold | hbrought | hfound
      · exact h.2 e hold hdata
      · exact hforeign.2 (hdata ▸ hbrought)
      · exact h.1 (hdata ▸ hfound)
  · constructor
    · dsimp only
      rw [Function.update_of_ne hother]
      exact h.1
    · dsimp only
      rw [Function.update_of_ne hother]
      exact h.2

/-! ## The device at its descriptor -/

/-- The queue and the registration of the device. -/
structure Registered (descriptor : ℤ) (device : Callback) (s : State Callback) : Prop where
  /-- epoll has the descriptor, for reading and, from outside the device, for a nonempty queue. -/
  entry : ∃ writable, s.synchronizer.epoll descriptor = some ⟨device, true, writable⟩ ∧
    (s.writing = false → (writable = true ↔ s.pendings ≠ []))
  /-- A failed update forgets the callback, and the queue stays empty from then on. -/
  callback : s.synchronizer.callbacks descriptor = some device ∨
    s.synchronizer.callbacks descriptor = none ∧ s.pendings = []
  /-- The callback runs, and is on its way, only with something to write. -/
  nonempty : s.writing ∨ device ∈ s.reported → s.pendings ≠ []
  /-- The callback is on its way once at most. -/
  once : s.reported.count device ≤ 1
  idle : s.writing → device ∉ s.reported
  alone : ∀ other ≠ descriptor, Absent s.synchronizer device other

omit [DecidableEq Callback] in
/-- What the callback of the device asks for is what epoll has, for a registered device. -/
lemma update_registered {s : State Callback} {entry : Entry Callback}
    (hcallback : s.synchronizer.callbacks descriptor = some device)
    (hentry : s.synchronizer.epoll descriptor = some entry) :
    s.update descriptor none =
      (.ok (), { s with synchronizer := { s.synchronizer with
        epoll := Function.update s.synchronizer.epoll descriptor
          (some ⟨device, true, s.wantWrite⟩) } }) := by
  unfold State.update
  rw [Synchronizer.update_done hcallback (by rw [hentry]; exact Option.some_ne_none _)]

omit [DecidableEq Callback] in
/-- An update that fails forgets the callback, and does nothing else. -/
lemma update_refused {s : State Callback} {failure : Option ℤ} {entry : Entry Callback}
    (hentry : s.synchronizer.epoll descriptor = some entry)
    (hrefused : s.synchronizer.callbacks descriptor = none ∨ failure ≠ none) :
    ∃ errno callbacks, callbacks descriptor = none ∧
      (∀ other ≠ descriptor, callbacks other = s.synchronizer.callbacks other) ∧
      s.update descriptor failure = (.error errno,
        { s with synchronizer := { s.synchronizer with callbacks := callbacks } }) := by
  have hepoll : s.synchronizer.epoll descriptor ≠ none := by
    rw [hentry]
    exact Option.some_ne_none _
  unfold State.update
  cases hcallback : s.synchronizer.callbacks descriptor with
  | none =>
    rw [Synchronizer.update_unknown hcallback]
    exact ⟨-1, s.synchronizer.callbacks, hcallback, fun _ _ => rfl, rfl⟩
  | some callback =>
    obtain ⟨errno, rfl⟩ : ∃ errno, failure = some errno :=
      Option.ne_none_iff_exists'.mp (hrefused.resolve_left (by simp [hcallback]))
    rw [Synchronizer.update_failed hcallback hepoll]
    exact ⟨errno, _, by simp, fun other hother => by simp [Function.update_of_ne hother], rfl⟩

omit [DecidableEq Callback] in
lemma absent_update {s : Synchronizer.State Callback} {other : ℤ} (hother : other ≠ descriptor)
    (entry : Option (Entry Callback)) (h : Absent s device other) :
    Absent { s with epoll := Function.update s.epoll descriptor entry } device other :=
  ⟨h.1, by simpa [Function.update_of_ne hother] using h.2⟩

/-- Behind an update the interest is what the queue asks for. -/
lemma registered_update {s : State Callback} (hwriting : s.writing = false)
    (hcallback : s.synchronizer.callbacks descriptor = some device)
    {entry : Entry Callback} (hentry : s.synchronizer.epoll descriptor = some entry)
    (hreported : device ∈ s.reported → s.pendings ≠ []) (honce : s.reported.count device ≤ 1)
    (halone : ∀ other ≠ descriptor, Absent s.synchronizer device other) :
    Registered descriptor device (s.update descriptor none).2 := by
  rw [update_registered hcallback hentry]
  exact {
    entry := ⟨s.wantWrite, by simp, fun _ => by simp [State.wantWrite]⟩
    callback := .inl hcallback
    nonempty := fun h => hreported (h.resolve_left (by simp [hwriting]))
    once := honce
    idle := fun h => by simp [hwriting] at h
    alone := fun other hother => absent_update hother _ (halone other hother) }

/-- `append` registers the device, and nothing is waiting. -/
lemma registered_opened {base : Synchronizer.State Callback}
    (habsent : ∀ other, Absent base device other)
    (happend : (Synchronizer.append base descriptor device true false none).1 = .ok ()) :
    Registered descriptor device (opened descriptor device base) := by
  have hnew : base.epoll descriptor = none := by
    by_contra hold
    rw [Synchronizer.append_registered hold] at happend
    cases happend
  unfold opened
  rw [Synchronizer.append_done hnew]
  exact {
    entry := ⟨false, by simp, by simp⟩
    callback := .inl (by simp)
    nonempty := by simp
    once := by simp
    idle := by simp
    alone := fun other hother => by
      simpa [Absent, Function.update_of_ne hother] using habsent other }

/-- A packet that is queued is announced, or the device has lost its registration. -/
lemma registered_write {s s' : State Callback} {packet : List Byte} {failure : Option ℤ}
    (h : Registered descriptor device s)
    (hstep : step descriptor device s (.write packet failure) = some s') :
    Registered descriptor device s' := by
  obtain ⟨writable, hentry, hinterest⟩ := h.entry
  dsimp only [step] at hstep
  split_ifs at hstep with hout hpendings
  · -- the queue was not empty, and the interest is there
    obtain rfl := Option.some.inj hstep
    have hcallback := h.callback.resolve_right fun hlost => hpendings hlost.2
    refine ⟨⟨writable, hentry, fun hwriting => ?_⟩, .inl hcallback, by simp, h.once, h.idle,
      h.alone⟩
    exact iff_of_true ((hinterest hwriting).mpr hpendings) (by simp)
  · have hempty : s.pendings = [] := not_not.mp hpendings
    have hwriting : s.writing = false := by simpa using fun hwriting => hout (.inl hwriting)
    set queued : State Callback :=
      { s with pendings := s.pendings ++ [⟨packet, 0⟩], queued := s.queued ++ [packet] }
    by_cases hrefused : s.synchronizer.callbacks descriptor = none ∨ failure ≠ none
    · -- the packet is taken back
      obtain ⟨errno, callbacks, hunknown, hothers, hupdate⟩ :=
        update_refused (s := queued) hentry hrefused
      rw [hupdate] at hstep
      obtain rfl := Option.some.inj hstep
      simp only [queued, List.dropLast_concat]
      refine ⟨h.entry, .inr ⟨hunknown, hempty⟩, h.nonempty, h.once, h.idle, ?_⟩
      intro other hother
      refine ⟨?_, (h.alone other hother).2⟩
      dsimp only
      rw [hothers other hother]
      exact (h.alone other hother).1
    -- the first packet, and the kernel takes the interest
    · obtain ⟨hknown, hfailure⟩ := not_or.mp hrefused
      obtain rfl : failure = none := not_not.mp hfailure
      have hcallback := h.callback.resolve_right fun hlost => hknown hlost.1
      have hregistered := registered_update (s := queued) hwriting hcallback hentry
        (fun _ => by simp [queued]) h.once h.alone
      rw [update_registered (s := queued) hcallback hentry] at hstep hregistered
      obtain rfl := Option.some.inj hstep
      exact hregistered

/-- A list in which only `a` becomes `b` has no more of the one than it had of the other. -/
lemma count_filterMap_le {α β : Type} [DecidableEq α] [DecidableEq β] {f : α → Option β} {a : α}
    {b : β} (h : ∀ x, f x = some b → x = a) (l : List α) :
    (l.filterMap f).count b ≤ l.count a := by
  induction l with
  | nil => simp
  | cons x l ih =>
    rw [List.filterMap_cons]
    cases hx : f x with
    | none => exact ih.trans List.count_le_count_cons
    | some y =>
      by_cases hy : y = b
      · subst hy
        obtain rfl := h x hx
        rw [List.count_cons_self, List.count_cons_self]
        exact Nat.succ_le_succ ih
      · rw [List.count_cons_of_ne hy]
        exact ih.trans List.count_le_count_cons

/-- A device that is reported has something to write. -/
lemma registered_wait {s s' : State Callback} {ready : List ℤ} (h : Registered descriptor device s)
    (hstep : step descriptor device s (.wait ready) = some s') :
    Registered descriptor device s' := by
  dsimp only [step] at hstep
  split_ifs at hstep with hout hready
  obtain rfl := Option.some.inj hstep
  obtain ⟨writable, hentry, hinterest⟩ := h.entry
  have hwriting : s.writing = false := by simpa using fun hwriting => hout (.inl hwriting)
  -- nobody else brings the device to another descriptor
  have honly : ∀ other, (s.synchronizer.epoll other).map Entry.data = some device →
      other = descriptor := by
    intro other hdata
    by_contra hother
    obtain ⟨entry, hfound, heq⟩ := Option.map_eq_some_iff.mp hdata
    exact (h.alone other hother).2 entry hfound heq
  refine ⟨h.entry, h.callback, ?_,
    (count_filterMap_le honly ready).trans (List.nodup_iff_count_le_one.mp hready.1 descriptor),
    by simp [hwriting], h.alone⟩
  -- the device is reported for its descriptor, and that has the interest
  rintro (hrun | hreported)
  · simp [hwriting] at hrun
  · obtain ⟨other, hmem, hdata⟩ := List.mem_filterMap.mp hreported
    obtain rfl := honly other hdata
    have hinterested := hready.2 other hmem
    unfold State.interest at hinterested
    rw [hentry] at hinterested
    exact (hinterest hwriting).mp hinterested

/-- The callback that is called is reported once. -/
lemma registered_dispatch {s s' : State Callback} (h : Registered descriptor device s)
    (hstep : step descriptor device s .dispatch = some s') : Registered descriptor device s' := by
  dsimp only [step] at hstep
  split at hstep
  · rename_i callback rest hwriting hreported
    obtain rfl := Option.some.inj hstep
    obtain ⟨writable, hentry, hinterest⟩ := h.entry
    have honce := h.once
    have hnonempty := h.nonempty
    rw [hreported] at honce hnonempty
    refine ⟨⟨writable, hentry, fun _ => hinterest hwriting⟩, h.callback, ?_,
      List.count_le_count_cons.trans honce, ?_, h.alone⟩
    · rintro (hrun | hlater)
      · exact hnonempty (.inr (List.mem_cons.mpr (.inl (of_decide_eq_true hrun).symm)))
      · exact hnonempty (.inr (List.mem_cons_of_mem callback hlater))
    -- the callback that runs is not reported a second time
    · intro hrun hlater
      obtain rfl := of_decide_eq_true hrun
      have hcount : 0 < rest.count callback := List.count_pos_iff.mpr hlater
      rw [List.count_cons_self] at honce
      omega
  · cases hstep

/-- What is left decides about the interest. -/
lemma registered_wrote {s s' : State Callback} {count : ℕ} (h : Registered descriptor device s)
    (hstep : step descriptor device s (.wrote count) = some s') :
    Registered descriptor device s' := by
  dsimp only [step] at hstep
  split at hstep
  · rename_i pending rest hwriting hpendings
    obtain ⟨writable, hentry, -⟩ := h.entry
    have hcallback := h.callback.resolve_right fun hlost => by simp [hpendings] at hlost
    have hidle := h.idle hwriting
    split_ifs at hstep with hcount hcompleted hrest
    · obtain rfl := Option.some.inj hstep
      exact registered_update rfl hcallback hentry (fun hmem => absurd hmem hidle) h.once h.alone
    · -- the callback goes on with the next packet
      obtain rfl := Option.some.inj hstep
      exact ⟨⟨writable, hentry, fun hnot => by simp [hwriting] at hnot⟩, .inl hcallback,
        fun _ => hrest, h.once, h.idle, h.alone⟩
    · obtain rfl := Option.some.inj hstep
      exact registered_update rfl hcallback hentry (by simp) h.once h.alone
  · cases hstep

/-- The other callbacks leave the device alone. -/
lemma registered_other {s s' : State Callback} {call : Synchronizer.Call Callback}
    (h : Registered descriptor device s)
    (hstep : step descriptor device s (.other call) = some s') :
    Registered descriptor device s' := by
  dsimp only [step] at hstep
  split_ifs at hstep with hcall
  obtain rfl := Option.some.inj hstep
  obtain ⟨callback, entry, hnext, -, -⟩ := Synchronizer.next_eq s.synchronizer call
  have hne : descriptor ≠ call.descriptor := hcall.2.1.symm
  have hcallbacks : (Synchronizer.next s.synchronizer call).callbacks descriptor =
      s.synchronizer.callbacks descriptor := by
    rw [hnext]
    exact Function.update_of_ne hne _ _
  -- the entry of the device is not the one of the call
  have hepoll : (Synchronizer.next s.synchronizer call).epoll descriptor =
      s.synchronizer.epoll descriptor := by
    rw [hnext]
    exact Function.update_of_ne hne _ _
  refine ⟨?_, ?_, h.nonempty, h.once, h.idle, fun other hother =>
    absent_next hcall.2 (h.alone other hother)⟩
  · rw [hepoll]
    exact h.entry
  · rw [hcallbacks]
    exact h.callback

/-- One step, whatever it is. -/
lemma registered_step {s s' : State Callback} {event : Event Callback}
    (h : Registered descriptor device s) (hstep : step descriptor device s event = some s') :
    Registered descriptor device s' := by
  cases event with
  | write packet failure => exact registered_write h hstep
  | wait ready => exact registered_wait h hstep
  | dispatch => exact registered_dispatch h hstep
  | wrote count => exact registered_wrote h hstep
  | other call => exact registered_other h hstep

/-- So it is in every run. -/
lemma registered_run {base : Synchronizer.State Callback}
    (habsent : ∀ other, Absent base device other)
    (happend : (Synchronizer.append base descriptor device true false none).1 = .ok ())
    {events : List (Event Callback)} {s : State Callback}
    (hrun : Machine.run (step descriptor device) (opened descriptor device base) events = some s) :
    Registered descriptor device s :=
  Machine.run_invariant (fun _ _ _ h hstep => registered_step h hstep)
    (registered_opened habsent happend) hrun

/-- **Write interest.** After a successful open, over every interleaving of writes, dispatches and
calls of others: outside the device epoll has `EPOLLOUT` for the descriptor exactly if there is
something to write, and the write-ready callback does not run on an empty queue. -/
theorem interest_iff_pending {base : Synchronizer.State Callback}
    (habsent : ∀ other, Absent base device other)
    (happend : (Synchronizer.append base descriptor device true false none).1 = .ok ())
    {events : List (Event Callback)} {s : State Callback}
    (hrun : Machine.run (step descriptor device) (opened descriptor device base) events = some s) :
    (s.writing = false → (s.interest descriptor = true ↔ s.pendings ≠ [])) ∧
      (s.writing = true → s.pendings ≠ []) := by
  have h := registered_run habsent happend hrun
  obtain ⟨writable, hentry, hinterest⟩ := h.entry
  refine ⟨fun hwriting => ?_, fun hwriting => h.nonempty (.inl hwriting)⟩
  unfold State.interest
  rw [hentry]
  exact hinterest hwriting

/-- The first write finds epoll unwilling, after which no write is taken; beside it a device that
writes a packet in two pieces while another one joins the queue. -/
theorem interest_iff_pending_sample :
    (∃ s : State ℕ, Machine.run (step 3 7) (opened 3 7 Synchronizer.fresh)
        [.write [0x41] (some 12), .write [0x42] none, .wait []] = some s ∧
      (s.writing = false → (s.interest 3 = true ↔ s.pendings ≠ [])) ∧
      (s.writing = true → s.pendings ≠ [])) ∧
    ∃ s : State ℕ, Machine.run (step 3 7) (opened 3 7 Synchronizer.fresh)
        [.write [0x41, 0x42] none, .wait [3], .write [0x43] none, .dispatch, .wrote 1, .wait [3],
          .dispatch, .wrote 1] = some s ∧
      (s.writing = false → (s.interest 3 = true ↔ s.pendings ≠ [])) ∧
      (s.writing = true → s.pendings ≠ []) := by
  have habsent : ∀ other, Absent (Synchronizer.fresh : Synchronizer.State ℕ) 7 other :=
    fun other => ⟨by simp [Synchronizer.fresh], by simp [Synchronizer.fresh]⟩
  constructor
  · obtain ⟨s, hs⟩ : ∃ s : State ℕ, Machine.run (step 3 7) (opened 3 7 Synchronizer.fresh)
        [.write [0x41] (some 12), .write [0x42] none, .wait []] = some s := ⟨_, rfl⟩
    exact ⟨s, hs, interest_iff_pending habsent rfl hs⟩
  · obtain ⟨s, hs⟩ : ∃ s : State ℕ, Machine.run (step 3 7) (opened 3 7 Synchronizer.fresh)
        [.write [0x41, 0x42] none, .wait [3], .write [0x43] none, .dispatch, .wrote 1, .wait [3],
          .dispatch, .wrote 1] = some s := ⟨_, rfl⟩
    exact ⟨s, hs, interest_iff_pending habsent rfl hs⟩

/-! ## The device with its two flags -/

/-- The registration as the two flags of `Serial.State`. -/
def State.serial (s : State Callback) (descriptor : ℤ) : Serial.State where
  pendings := s.pendings
  registered := (s.synchronizer.callbacks descriptor).isSome
  interest := s.interest descriptor
  writing := s.writing
  queued := s.queued
  popped := s.popped
  accepted := s.accepted

omit [DecidableEq Callback] in
/-- An update at the synchronizer is one of the flags. -/
lemma serial_update {s : State Callback} {entry : Entry Callback}
    (hcallback : s.synchronizer.callbacks descriptor = some device)
    (hentry : s.synchronizer.epoll descriptor = some entry) :
    (s.update descriptor none).2.serial descriptor = (s.serial descriptor).update := by
  rw [update_registered hcallback hentry]
  unfold Serial.State.update State.serial State.interest
  rw [if_pos (by simp [hcallback])]
  simp only [Function.update_self, Option.any_some]
  rfl

/-- The device with the flags does nothing, or a step that is no failed `::write`. -/
def Matched (descriptor : ℤ) (s s' : State Callback) : Prop :=
  s'.serial descriptor = s.serial descriptor ∨
    ∃ event', Serial.NoFailure (s.serial descriptor) event' ∧
      Serial.step (s.serial descriptor) event' = some (s'.serial descriptor)

/-- A write is one of the device on its own. -/
lemma serial_write {s s' : State Callback} {packet : List Byte} {failure : Option ℤ}
    (h : Registered descriptor device s)
    (hstep : step descriptor device s (.write packet failure) = some s') :
    Matched descriptor s s' := by
  obtain ⟨writable, hentry, -⟩ := h.entry
  dsimp only [step] at hstep
  split_ifs at hstep with hout hpendings
  -- something is waiting already, so the kernel is not asked
  · obtain rfl := Option.some.inj hstep
    refine .inr ⟨.write packet true, trivial, ?_⟩
    dsimp only [Serial.step, State.serial]
    rw [if_neg hout, if_pos hpendings]
    rfl
  set queued : State Callback :=
    { s with pendings := s.pendings ++ [⟨packet, 0⟩], queued := s.queued ++ [packet] }
    with hqueued
  by_cases hrefused : s.synchronizer.callbacks descriptor = none ∨ failure ≠ none
  -- the kernel refuses
  · obtain ⟨errno, callbacks, hunknown, hothers, hupdate⟩ :=
      update_refused (s := queued) hentry hrefused
    rw [hupdate] at hstep
    obtain rfl := Option.some.inj hstep
    refine .inr ⟨.write packet false, trivial, ?_⟩
    dsimp only [Serial.step, State.serial]
    rw [if_neg hout, if_neg hpendings, if_neg (by simp)]
    simp [hqueued, hunknown, State.interest]
  · obtain ⟨hknown, hfailure⟩ := not_or.mp hrefused
    obtain rfl : failure = none := not_not.mp hfailure
    have hcallback := h.callback.resolve_right fun hlost => hknown hlost.1
    have hserial := serial_update (s := queued) hcallback hentry
    rw [update_registered (s := queued) hcallback hentry] at hstep hserial
    obtain rfl := Option.some.inj hstep
    refine .inr ⟨.write packet true, trivial, ?_⟩
    rw [hserial]
    dsimp only [Serial.step, State.serial]
    rw [if_neg hout, if_neg hpendings, if_pos (by simp [hcallback])]
    rfl

/-- The callback that comes next is the one of the device, which epoll has reported, or another. -/
lemma serial_dispatch {s s' : State Callback} (h : Registered descriptor device s)
    (hstep : step descriptor device s .dispatch = some s') : Matched descriptor s s' := by
  obtain ⟨writable, hentry, hinterest⟩ := h.entry
  dsimp only [step] at hstep
  split at hstep
  · rename_i callback rest hwriting hreported
    obtain rfl := Option.some.inj hstep
    by_cases hdevice : callback = device
    · have hpendings := h.nonempty (.inr (by simp [hreported, hdevice]))
      have hready : s.interest descriptor = true := by
        unfold State.interest
        rw [hentry]
        exact (hinterest hwriting).mpr hpendings
      refine .inr ⟨.ready, trivial, ?_⟩
      dsimp only [Serial.step, State.serial]
      rw [if_neg (by simp [hwriting, hready])]
      simp [hdevice, State.interest]
    · left
      simp [State.serial, State.interest, hdevice, hwriting]
  · cases hstep

/-- So is what the kernel takes. -/
lemma serial_wrote {s s' : State Callback} {count : ℕ} (h : Registered descriptor device s)
    (hstep : step descriptor device s (.wrote count) = some s') : Matched descriptor s s' := by
  obtain ⟨writable, hentry, -⟩ := h.entry
  dsimp only [step] at hstep
  split at hstep
  · rename_i pending rest hwriting hpendings
    have hcallback := h.callback.resolve_right fun hlost => by simp [hpendings] at hlost
    split_ifs at hstep with hcount hcompleted hrest
    all_goals
      obtain rfl := Option.some.inj hstep
      have hret : (count : ℤ) = -1 ∨ 0 ≤ (count : ℤ) ∧ (count : ℤ) ≤ pending.rest.length :=
        .inr ⟨Int.natCast_nonneg count, Int.ofNat_le.mpr hcount⟩
      refine .inr ⟨.wrote count, fun hnegative => by omega, ?_⟩
      unfold Serial.step
      simp only [State.serial, hwriting, hpendings]
      rw [if_pos hret]
    -- the last packet is out
    · rw [if_neg (not_not.mpr hcompleted), if_pos hrest]
      exact congrArg some (serial_update (s := { s with
        pendings := rest, writing := false, popped := s.popped ++ [pending.packet]
        accepted := s.accepted ++ pending.rest.take count }) hcallback hentry).symm
    -- a packet is out, and others wait
    · rw [if_neg (not_not.mpr hcompleted), if_neg hrest]
      rfl
    -- a part of the packet is out
    · rw [if_pos hcompleted]
      exact congrArg some (serial_update (s := { s with
        pendings := pending.write count :: rest, writing := false
        accepted := s.accepted ++ pending.rest.take count }) hcallback hentry).symm
  · cases hstep

/-- Every step is matched by the device with the flags. -/
lemma serial_step {s s' : State Callback} {event : Event Callback}
    (h : Registered descriptor device s) (hstep : step descriptor device s event = some s') :
    Matched descriptor s s' := by
  cases event with
  | write packet failure => exact serial_write h hstep
  | wait ready =>
    dsimp only [step] at hstep
    split_ifs at hstep
    obtain rfl := Option.some.inj hstep
    exact .inl rfl
  | dispatch => exact serial_dispatch h hstep
  | wrote count => exact serial_wrote h hstep
  | other call =>
    left
    dsimp only [step] at hstep
    split_ifs at hstep with hcall
    obtain rfl := Option.some.inj hstep
    obtain ⟨callback, entry, hnext, -, -⟩ := Synchronizer.next_eq s.synchronizer call
    have hne : descriptor ≠ call.descriptor := hcall.2.1.symm
    simp only [State.serial, State.interest, hnext, Function.update_of_ne hne]

omit [DecidableEq Callback] in
/-- Both begin without a packet. -/
lemma serial_opened {base : Synchronizer.State Callback}
    (happend : (Synchronizer.append base descriptor device true false none).1 = .ok ()) :
    (opened descriptor device base).serial descriptor = Serial.opened := by
  have hnew : base.epoll descriptor = none := by
    by_contra hold
    rw [Synchronizer.append_registered hold] at happend
    cases happend
  unfold opened State.serial State.interest
  rw [Synchronizer.append_done hnew]
  simp [Serial.opened]

/-- **Refinement.** What the device does at the synchronizer, it does with the two flags, with no
failed `::write`. -/
theorem run_serial {base : Synchronizer.State Callback}
    (habsent : ∀ other, Absent base device other)
    (happend : (Synchronizer.append base descriptor device true false none).1 = .ok ())
    {events : List (Event Callback)} {s : State Callback}
    (hrun : Machine.run (step descriptor device) (opened descriptor device base) events = some s) :
    ∃ events', Machine.Along Serial.step Serial.NoFailure Serial.opened events' ∧
      Machine.run Serial.step Serial.opened events' = some (s.serial descriptor) := by
  rw [← serial_opened happend]
  refine Machine.run_simulates_along (f := fun s => s.serial descriptor)
    (fun _ _ _ h hstep => registered_step h hstep) ?_ (registered_opened habsent happend) hrun
  intro s event s' h hstep
  rcases serial_step h hstep with hsame | ⟨event', hfail, hnext⟩
  · exact ⟨[], trivial, by rw [Machine.run_nil, hsame]⟩
  · exact ⟨[event'], ⟨hfail, fun _ _ => trivial⟩,
      Machine.run_cons_eq_some.mpr ⟨_, hnext, Machine.run_nil _⟩⟩

/-- So the bytes that `::write` takes are those of the packets, in order. -/
theorem preserved_run {base : Synchronizer.State Callback}
    (habsent : ∀ other, Absent base device other)
    (happend : (Synchronizer.append base descriptor device true false none).1 = .ok ())
    {events : List (Event Callback)} {s : State Callback}
    (hrun : Machine.run (step descriptor device) (opened descriptor device base) events = some s) :
    Serial.Preserved (s.serial descriptor) := by
  obtain ⟨events', halong, hserial⟩ := run_serial habsent happend hrun
  exact Serial.preserved_of_accounted (Machine.run_invariant_along
    (fun _ _ _ h hfail hstep => Serial.accounted_step h hfail hstep) Serial.accounted_opened
    halong hserial)

end SerialInterest
end Vng
