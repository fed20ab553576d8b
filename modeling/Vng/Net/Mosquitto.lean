import Vng.Core.Synchronizer
import Vng.Net.Broker

/-!
# `net::mosquitto::Channel`

The callback of `netmosquittochannel.cpp` on the synchronizer. The library owns the socket: it may
close it and open another one inside `mosquitto_reconnect`, and begins a session without
subscriptions there. The callback is registered once, by `intialize`.
-/

namespace Vng
namespace Mosquitto

variable {Callback Topic Subscriber : Type}

/-- The client of the library, its socket and its registration. -/
structure State (Callback Topic Subscriber : Type) where
  synchronizer : Synchronizer.State Callback
  /-- The registry of the channel, and what the current session has subscribed. -/
  broker : Broker.State Topic Subscriber
  /-- `mosquitto_socket`, if the client is connected. -/
  socket : Option ℤ
  /-- `mosquitto_want_write`. -/
  wantWrite : Bool

/-- What `mosquitto_loop` comes to, with `mosquitto_reconnect` where it fails. -/
inductive Outcome
  /-- The loop returns 0. -/
  | looped (wantWrite : Bool)
  /-- It fails; the reconnection fails too, or opens a socket. -/
  | failed (reconnected : Option (ℤ × Bool))
deriving DecidableEq, Repr

/-- The interest set without the old socket, which the library closes. -/
def State.closed (s : State Callback Topic Subscriber) : Epoll.Interest Callback :=
  match s.socket with
  | none => s.synchronizer.epoll
  | some socket => Epoll.delete s.synchronizer.epoll socket

/-- `mosquitto_loop`, then `mosquitto_reconnect` on an error. -/
def loop (s : State Callback Topic Subscriber) :
    Outcome → Option (State Callback Topic Subscriber)
  | .looped wantWrite =>
    -- without a connection the loop fails
    if s.socket.isSome then some { s with wantWrite := wantWrite } else none
  | .failed none =>
    some { s with synchronizer := { s.synchronizer with epoll := s.closed }, socket := none }
  | .failed (some (socket, wantWrite)) =>
    -- a new descriptor is not registered anywhere
    if (s.closed socket).isSome then none
    else
      some {
        synchronizer := { s.synchronizer with epoll := s.closed }
        broker := { s.broker with transport := fun _ => false }
        socket := some socket
        wantWrite := wantWrite }

/-- `Private::read`. -/
def read (s : State Callback Topic Subscriber) (outcome : Outcome) :
    Option (State Callback Topic Subscriber) := loop s outcome

/-- `Private::timeout`. -/
def timeout (s : State Callback Topic Subscriber) (outcome : Outcome) :
    Option (State Callback Topic Subscriber) := loop s outcome

/-- `_synchronizer.update(mosquitto_socket(_mosquitto))`, with the interests of the callback. -/
def State.update (s : State Callback Topic Subscriber) : State Callback Topic Subscriber :=
  { s with
    synchronizer :=
      (Synchronizer.update s.synchronizer (s.socket.getD (-1)) true s.wantWrite none).2 }

/-- `Private::write`; only this one updates the interest. -/
def write (s : State Callback Topic Subscriber) (outcome : Outcome) :
    Option (State Callback Topic Subscriber) := (loop s outcome).map State.update

/-- What the synchronizer and the subscribers call. -/
inductive Event (Topic Subscriber : Type)
  | read (outcome : Outcome)
  | write (outcome : Outcome)
  | timeout (outcome : Outcome)
  /-- `mosquitto_publish`, and what the library wants after it. -/
  | publish (wantWrite : Bool)
  /-- A subscription or its end; the library is asked if the registry has no entry. -/
  | call (call : Broker.Call Topic Subscriber) (wantWrite : Bool)

/-- Whether the library is asked. -/
def asks (s : State Callback Topic Subscriber) : Broker.Call Topic Subscriber → Bool
  | .subscribe topic _ _ => !Channel.subscribed s.broker.topics topic
  | .unsubscribe _ _ => false

section

variable [DecidableEq Topic]

/-- One call; the library may want to write after it. -/
def step (s : State Callback Topic Subscriber) :
    Event Topic Subscriber → Option (State Callback Topic Subscriber)
  | .read outcome => read s outcome
  | .write outcome => write s outcome
  | .timeout outcome => timeout s outcome
  | .publish wantWrite => some { s with wantWrite := wantWrite }
  | .call call wantWrite =>
    some {
      s with
      broker := Broker.next s.broker call
      wantWrite := if asks s call then wantWrite else s.wantWrite }

end

/-- The state after `intialize`, whose `append` is on the synchronizer as it then is. -/
def intialized (synchronizer : Synchronizer.State Callback) (channel : Callback) (socket : ℤ)
    (wantWrite : Bool) : State Callback Topic Subscriber where
  synchronizer := (Synchronizer.append synchronizer socket channel true wantWrite none).2
  broker := Broker.fresh
  socket := some socket
  wantWrite := wantWrite

/-! ## What a connected client needs -/

/-- While it is connected, the channel is registered for the current socket with the interest the
library has, and the session has every topic with a subscriber. -/
def Survives (channel : Callback) (s : State Callback Topic Subscriber) : Prop :=
  ∀ socket ∈ s.socket,
    s.synchronizer.callbacks socket = some channel ∧
    (∃ entry ∈ s.synchronizer.epoll socket,
      entry.data = channel ∧ entry.writable = s.wantWrite) ∧
    ∀ topic, Channel.received s.broker.topics topic ≠ [] → s.broker.transport topic = true

/-- The loop leaves what the library wants, and no reconnection succeeds. -/
def Outcome.Keeps (wantWrite : Bool) : Outcome → Prop
  | .looped wantWrite' => wantWrite' = wantWrite
  | .failed reconnected => reconnected = none

/-- No reconnection succeeds, and only `write` changes what the library wants. -/
def Undisturbed (s : State Callback Topic Subscriber) : Event Topic Subscriber → Prop
  | .read outcome | .timeout outcome => outcome.Keeps s.wantWrite
  | .write outcome => ∀ reconnected, outcome = .failed reconnected → reconnected = none
  | .publish wantWrite => s.socket ≠ none → wantWrite = s.wantWrite
  | .call call wantWrite => s.socket ≠ none → asks s call = true → wantWrite = s.wantWrite

/-- The registration of a connected client as `intialize` left it, and the registry behind its
session. -/
def Connected (channel : Callback) (s : State Callback Topic Subscriber) : Prop :=
  ∀ socket ∈ s.socket,
    s.synchronizer.callbacks socket = some channel ∧
    s.synchronizer.epoll socket = some ⟨channel, true, s.wantWrite⟩ ∧ Broker.Asked s.broker

variable {s s' : State Callback Topic Subscriber} {channel : Callback} {outcome : Outcome}

/-- What the loop can come to: a client that stays connected, one without a connection, or one
with a socket that nobody has registered. -/
lemma loop_cases (hloop : loop s outcome = some s') :
    (∃ socket wantWrite, outcome = .looped wantWrite ∧ s.socket = some socket ∧
        s' = { s with wantWrite := wantWrite }) ∨
    (outcome = .failed none ∧ s'.socket = none) ∨
    ∃ socket wantWrite, outcome = .failed (some (socket, wantWrite)) ∧
      s'.socket = some socket ∧ s'.synchronizer.epoll socket = none := by
  cases outcome with
  | looped wantWrite =>
    simp only [loop, Option.ite_none_right_eq_some, Option.some.injEq] at hloop
    obtain ⟨hconnected, rfl⟩ := hloop
    obtain ⟨socket, hsocket⟩ := Option.isSome_iff_exists.mp hconnected
    exact .inl ⟨socket, wantWrite, rfl, hsocket, rfl⟩
  | failed reconnected =>
    match reconnected with
    | none =>
      obtain rfl := Option.some.inj hloop
      exact .inr (.inl ⟨rfl, rfl⟩)
    | some (socket, wantWrite) =>
      simp only [loop, Option.ite_none_left_eq_some, Option.some.injEq] at hloop
      -- the old socket is closed, and the new one is not registered
      obtain ⟨hnew, rfl⟩ := hloop
      rw [Option.not_isSome_iff_eq_none] at hnew
      exact .inr (.inr ⟨socket, wantWrite, rfl, rfl, hnew⟩)

/-- A connected client keeps what was subscribed. -/
lemma survives_of_connected (h : Connected channel s) : Survives channel s := by
  intro socket hsocket
  obtain ⟨hcallback, hepoll, hasked⟩ := h socket hsocket
  refine ⟨hcallback, ⟨_, hepoll, rfl, rfl⟩, ?_⟩
  intro topic hreceived
  exact hasked.transport topic ((Broker.received_ne_nil_iff hasked topic).mp hreceived)

/-- Without a socket there is nothing to keep. -/
lemma connected_of_none (hsocket : s.socket = none) : Connected channel s := by
  intro socket hmem
  rw [hsocket] at hmem
  cases hmem

/-- Nobody registers a socket that the library has opened. -/
lemma not_survives_of_unregistered {socket : ℤ} (hsocket : s.socket = some socket)
    (hepoll : s.synchronizer.epoll socket = none) : ¬ Survives channel s := by
  intro h
  obtain ⟨-, ⟨entry, hentry, -, -⟩, -⟩ := h socket hsocket
  rw [hepoll] at hentry
  cases hentry

/-- With another interest than the one that is registered. -/
lemma not_survives_of_wantWrite {socket : ℤ} {wantWrite : Bool} (h : Connected channel s)
    (hsocket : s.socket = some socket) (hother : wantWrite ≠ s.wantWrite)
    {broker : Broker.State Topic Subscriber} :
    ¬ Survives channel { s with broker := broker, wantWrite := wantWrite } := by
  intro hsurvives
  obtain ⟨-, hepoll, -⟩ := h socket hsocket
  obtain ⟨-, ⟨entry, hentry, -, hwritable⟩, -⟩ := hsurvives socket hsocket
  rw [hepoll, Option.mem_some_iff] at hentry
  rw [← hentry] at hwritable
  exact hother hwritable.symm

/-- `update` with a new interest. -/
lemma connected_update {wantWrite : Bool} (h : Connected channel s) :
    Connected channel (State.update { s with wantWrite := wantWrite }) := by
  intro socket hsocket
  obtain ⟨hcallback, hepoll, hasked⟩ := h socket hsocket
  have hsocket' : s.socket = some socket := hsocket
  dsimp only [State.update]
  rw [hsocket', Option.getD_some,
    Synchronizer.update_done hcallback (by rw [hepoll]; exact Option.some_ne_none _)]
  exact ⟨hcallback, Function.update_self _ _ _, hasked⟩

/-- `update` does not register a socket. -/
lemma unregistered_update {socket : ℤ} (hsocket : s.socket = some socket)
    (hepoll : s.synchronizer.epoll socket = none) :
    s.update.synchronizer.epoll socket = none := by
  dsimp only [State.update]
  rw [hsocket, Option.getD_some]
  -- the map may still have an entry from the time before
  cases hcallback : s.synchronizer.callbacks socket with
  | none =>
    rw [Synchronizer.update_unknown hcallback]
    exact hepoll
  | some callback =>
    rw [Synchronizer.update_lost hcallback hepoll]
    exact hepoll

/-! ## What a step keeps -/

/-- `read` and `timeout` keep the registration if the socket stays and the library wants the
same. -/
lemma connected_loop (h : Connected channel s) (hloop : loop s outcome = some s')
    (hkeeps : outcome.Keeps s.wantWrite) : Connected channel s' := by
  rcases loop_cases hloop with ⟨_, wantWrite, rfl, -, rfl⟩ | ⟨-, hsocket⟩ |
    ⟨socket, wantWrite, rfl, -, -⟩
  · have hsame : wantWrite = s.wantWrite := hkeeps
    rw [hsame]
    exact h
  · exact connected_of_none hsocket
  · cases hkeeps

/-- An outcome that does not keep the connection is not survived. -/
lemma not_survives_loop (h : Connected channel s) (hloop : loop s outcome = some s')
    (hkeeps : ¬ outcome.Keeps s.wantWrite) : ¬ Survives channel s' := by
  rcases loop_cases hloop with ⟨socket, wantWrite, rfl, hsocket, rfl⟩ | ⟨rfl, -⟩ |
    ⟨socket, wantWrite, rfl, hsocket, hepoll⟩
  · exact not_survives_of_wantWrite h hsocket hkeeps
  · exact absurd rfl hkeeps
  · exact not_survives_of_unregistered hsocket hepoll

/-- `write` keeps it for any interest. -/
lemma connected_write (h : Connected channel s) (hwrite : write s outcome = some s')
    (hstays : ∀ reconnected, outcome = .failed reconnected → reconnected = none) :
    Connected channel s' := by
  obtain ⟨s₁, hloop, rfl⟩ := Option.map_eq_some_iff.mp hwrite
  rcases loop_cases hloop with ⟨_, wantWrite, rfl, -, rfl⟩ | ⟨-, hsocket⟩ |
    ⟨socket, wantWrite, rfl, -, -⟩
  · exact connected_update h
  · exact connected_of_none hsocket
  · cases hstays _ rfl

/-- Nor is a new connection, which `write` does not register. -/
lemma not_survives_write {reconnected : ℤ × Bool}
    (hwrite : write s (.failed (some reconnected)) = some s') : ¬ Survives channel s' := by
  obtain ⟨s₁, hloop, rfl⟩ := Option.map_eq_some_iff.mp hwrite
  rcases loop_cases hloop with ⟨_, _, houtcome, -, -⟩ | ⟨houtcome, -⟩ |
    ⟨socket, wantWrite, -, hsocket, hepoll⟩
  · cases houtcome
  · cases houtcome
  · exact not_survives_of_unregistered hsocket (unregistered_update hsocket hepoll)

/-- The client is registered from the start. -/
lemma connected_intialized {synchronizer : Synchronizer.State Callback} {socket : ℤ}
    {wantWrite : Bool}
    (happend : (Synchronizer.append synchronizer socket channel true wantWrite none).1 = .ok ()) :
    Connected channel
      (intialized synchronizer channel socket wantWrite : State Callback Topic Subscriber) := by
  have hnew : synchronizer.epoll socket = none := by
    by_contra hregistered
    rw [Synchronizer.append_registered hregistered] at happend
    cases happend
  intro socket' hsocket
  obtain rfl := Option.some.inj hsocket
  dsimp only [intialized]
  rw [Synchronizer.append_done hnew]
  exact ⟨Function.update_self _ _ _, Function.update_self _ _ _, Broker.asked_fresh⟩

variable [DecidableEq Topic]

/-- A call without a failure keeps the connection. -/
lemma connected_step {event : Event Topic Subscriber} (h : Connected channel s)
    (hundisturbed : Undisturbed s event) (hstep : step s event = some s') :
    Connected channel s' := by
  cases event with
  | read outcome | timeout outcome => exact connected_loop h hstep hundisturbed
  | write outcome => exact connected_write h hstep hundisturbed
  | publish wantWrite =>
    obtain rfl := Option.some.inj hstep
    intro socket hsocket
    have hsome : s.socket = some socket := hsocket
    have hsame : wantWrite = s.wantWrite :=
      hundisturbed (by rw [hsome]; exact Option.some_ne_none _)
    rw [hsame]
    exact h socket hsocket
  | call call wantWrite =>
    obtain rfl := Option.some.inj hstep
    intro socket hsocket
    obtain ⟨hcallback, hepoll, hasked⟩ := h socket hsocket
    have hsome : s.socket = some socket := hsocket
    -- a call that the registry answers does not get to the library
    have hsame : (if asks s call then wantWrite else s.wantWrite) = s.wantWrite := by
      split_ifs with hasks
      · exact hundisturbed (by rw [hsome]; exact Option.some_ne_none _) hasks
      · rfl
    dsimp only
    rw [hsame]
    exact ⟨hcallback, hepoll, Broker.asked_next hasked call⟩

lemma not_survives_step {event : Event Topic Subscriber} (h : Connected channel s)
    (hdisturbed : ¬ Undisturbed s event) (hstep : step s event = some s') :
    ¬ Survives channel s' := by
  cases event with
  | read outcome | timeout outcome => exact not_survives_loop h hstep hdisturbed
  | write outcome =>
    simp only [Undisturbed, not_forall] at hdisturbed
    obtain ⟨reconnected, rfl, hsome⟩ := hdisturbed
    obtain ⟨socket, rfl⟩ := Option.ne_none_iff_exists'.mp hsome
    exact not_survives_write hstep
  | publish wantWrite =>
    obtain rfl := Option.some.inj hstep
    simp only [Undisturbed, Classical.not_imp] at hdisturbed
    obtain ⟨hconnected, hother⟩ := hdisturbed
    obtain ⟨socket, hsocket⟩ := Option.ne_none_iff_exists'.mp hconnected
    exact not_survives_of_wantWrite h hsocket hother
  | call call wantWrite =>
    obtain rfl := Option.some.inj hstep
    simp only [Undisturbed, Classical.not_imp] at hdisturbed
    obtain ⟨hconnected, hasks, hother⟩ := hdisturbed
    obtain ⟨socket, hsocket⟩ := Option.ne_none_iff_exists'.mp hconnected
    rw [if_pos hasks]
    exact not_survives_of_wantWrite h hsocket hother

/-- **Reconnections.** After a successful `intialize` a connected client has its registration, its
interest and its subscriptions throughout a run exactly if no reconnection succeeds and nothing
but `write` changes what the library wants to write. -/
theorem survives_iff (synchronizer : Synchronizer.State Callback) (channel : Callback)
    (socket : ℤ) (wantWrite : Bool) (events : List (Event Topic Subscriber))
    {t : State Callback Topic Subscriber}
    (happend : (Synchronizer.append synchronizer socket channel true wantWrite none).1 = .ok ())
    (hrun : Machine.run step (intialized synchronizer channel socket wantWrite) events = some t) :
    Machine.Always step (Survives channel) (intialized synchronizer channel socket wantWrite)
        events ↔
      Machine.Along step Undisturbed (intialized synchronizer channel socket wantWrite) events :=
  Machine.always_iff_along (fun _ h => survives_of_connected h) (fun _ _ _ h => connected_step h)
    (fun _ _ _ h => not_survives_step h) (connected_intialized happend) hrun

/-- A run with a publication and a `write` after it. -/
theorem survives_iff_publish :
    ∃ t : State ℕ ℕ ℕ,
      Machine.run step (intialized Synchronizer.fresh 1 4 false)
        [.call (.subscribe 7 10 0) false, .publish true, .write (.looped false)] = some t ∧
      (Machine.Always step (Survives 1) (intialized Synchronizer.fresh 1 4 false)
          [.call (.subscribe 7 10 0) false, .publish true, .write (.looped false)] ↔
        Machine.Along step Undisturbed (intialized Synchronizer.fresh 1 4 false)
          [.call (.subscribe 7 10 0) false, .publish true, .write (.looped false)]) :=
  ⟨_, rfl, survives_iff (t := _) Synchronizer.fresh 1 4 false
    [.call (.subscribe 7 10 0) false, .publish true, .write (.looped false)] rfl rfl⟩

/-- After a reconnection nobody registers the new socket, and the session has no subscription; the
same descriptor is no better than another one. -/
theorem reconnected_lost :
    (∃ t : State ℕ ℕ ℕ,
      Machine.run step (intialized Synchronizer.fresh 1 4 false)
        [.call (.subscribe 7 10 0) false, .read (.failed (some (4, false)))] = some t ∧
      t.socket = some 4 ∧ t.synchronizer.epoll 4 = none ∧
      Channel.received t.broker.topics 7 = [10] ∧ t.broker.transport 7 = false ∧
      ¬ Survives 1 t) ∧
    ∃ t : State ℕ ℕ ℕ,
      Machine.run step (intialized Synchronizer.fresh 1 4 false) [.publish true] = some t ∧
      t.socket = some 4 ∧ t.wantWrite = true ∧
      t.synchronizer.epoll 4 = some ⟨1, true, false⟩ ∧ ¬ Survives 1 t := by
  refine ⟨⟨_, rfl, rfl, by decide, by decide, by decide, ?_⟩,
    ⟨_, rfl, rfl, rfl, by decide, ?_⟩⟩
  · intro h
    exact absurd ((h 4 rfl).2.2 7 (by decide)) (by decide)
  · intro h
    obtain ⟨-, ⟨entry, hentry, -, hwritable⟩, -⟩ := h 4 rfl
    obtain rfl := Option.some.inj hentry
    cases hwritable

end Mosquitto
end Vng
