import Mathlib.Tactic.Common
import Vng.Host
import Vng.Lib.Machine

/-!
# `devices::serial::Device`, the transmit side

The queue of `devicesdevice.cpp`. A packet is queued with the number of bytes written so far; the
write-ready callback hands the rest of the first packet to `::write`, adds what `::write` returns
to that number, and goes on with the next packet while packets complete. Between two calls of
`::write` anything may be observed, so each of them is a step of its own.
-/

namespace Vng
namespace Serial

/-- `serial::Device::Private::Send`. -/
structure Send where
  packet : List Byte
  written : BitVec 32
deriving DecidableEq

/-- The bytes handed to `::write`. -/
def Send.rest (s : Send) : List Byte := s.packet.drop s.written.toNat

/-- `_written += ret`, with the signed result converted to the unsigned counter. -/
def Send.write (s : Send) (ret : ℤ) : Send := { s with written := s.written + BitVec.ofInt 32 ret }

def Send.completed (s : Send) : Prop := s.packet.length ≤ s.written.toNat

instance (s : Send) : Decidable s.completed := inferInstanceAs (Decidable (_ ≤ _))

/-- The device, its registration at the synchronizer, and a record of the bytes that went out. -/
structure State where
  pendings : List Send
  /-- The synchronizer knows the descriptor. -/
  registered : Bool
  /-- The interest set of epoll has `EPOLLOUT` for the descriptor. -/
  interest : Bool
  /-- Inside the write-ready callback. -/
  writing : Bool
  /-- The packets of the successful writes. -/
  queued : List (List Byte)
  /-- The packets that have left the queue. -/
  popped : List (List Byte)
  /-- The bytes that `::write` has taken. -/
  accepted : List Byte

/-- The device after a successful `open`. -/
def opened : State where
  pendings := []
  registered := true
  interest := false
  writing := false
  queued := []
  popped := []
  accepted := []

def State.wantWrite (s : State) : Bool := !s.pendings.isEmpty

/-- `_synchronizer.update(_device)`, which passes `wantWrite` on to epoll. -/
def State.update (s : State) : State :=
  if s.registered then { s with interest := s.wantWrite } else s

inductive Event
  /-- `write(packet, size)`; `updated` is the outcome of the update that follows on an empty
  queue. -/
  | write (packet : List Byte) (updated : Bool)
  /-- epoll reports `EPOLLOUT`: the write-ready callback begins. -/
  | ready
  /-- `::write` returns. -/
  | wrote (ret : ℤ)
deriving DecidableEq

def step (s : State) : Event → Option State
  | .write packet updated =>
    if s.writing ∨ maxSize ≤ packet.length then none
    else
      let queued : State :=
        { s with pendings := s.pendings ++ [⟨packet, 0⟩], queued := s.queued ++ [packet] }
      if s.pendings ≠ [] then some queued
      else if s.registered ∧ updated then some queued.update
      -- a failed update forgets the registration, and the packet is taken back
      else some { s with registered := false }
  | .ready => if s.writing ∨ ¬s.interest then none else some { s with writing := true }
  | .wrote ret =>
    match s.writing, s.pendings with
    | true, pending :: rest =>
      -- `::write` fails, or takes some of the bytes it was given
      if ret = -1 ∨ 0 ≤ ret ∧ ret ≤ pending.rest.length then
        let s := { s with accepted := s.accepted ++ pending.rest.take ret.toNat }
        let pending := pending.write ret
        if ¬pending.completed then
          some { s with pendings := pending :: rest, writing := false }.update
        else
          let s := { s with pendings := rest, popped := s.popped ++ [pending.packet] }
          if rest = [] then some { s with writing := false }.update else some s
      else none
    | _, _ => none

/-! ## One packet -/

/-- The bytes of the packet that are counted as written. -/
def Send.sent (s : Send) : List Byte := s.packet.take s.written.toNat

/-- A packet in the queue is new or written in part. -/
def Send.Unfinished (s : Send) : Prop :=
  s.packet.length < maxSize ∧ (s.written.toNat < s.packet.length ∨ s.written = 0)

/-- `::write` takes `n` bytes: the counter moves by `n`. -/
lemma Send.toNat_write {s : Send} (h : s.Unfinished) {n : ℕ} (hn : n ≤ s.rest.length) :
    (s.write n).written.toNat = s.written.toNat + n := by
  obtain ⟨hsize, hwritten⟩ := h
  have hzero : s.written = 0 → s.written.toNat = 0 := fun h => by rw [h]; rfl
  simp only [maxSize] at hsize
  simp only [Send.rest, List.length_drop] at hn
  simp only [Send.write, BitVec.toNat_add, BitVec.ofInt_natCast, BitVec.toNat_ofNat]
  omega

/-- The count and the bytes that `::write` took stay together, and a packet completes with its
last byte. Only a failure on a nonempty rest is left out. -/
lemma Send.write_spec {s : Send} {ret : ℤ} (h : s.Unfinished)
    (hret : ret = -1 ∨ 0 ≤ ret ∧ ret ≤ s.rest.length) (hfail : ret = -1 → s.rest = []) :
    ((s.write ret).completed → s.sent ++ s.rest.take ret.toNat = s.packet) ∧
      (¬(s.write ret).completed → s.sent ++ s.rest.take ret.toNat = (s.write ret).sent) := by
  rcases hret with rfl | ⟨hpos, hle⟩
  · -- the packet is empty: the counter wraps, and the packet completes
    have hempty : s.packet = [] := by
      have hlen := congrArg List.length (hfail rfl)
      rw [Send.rest, List.length_drop, List.length_nil] at hlen
      rcases h.2 with hlt | hzero
      · omega
      · rw [hzero] at hlen
        exact List.eq_nil_of_length_eq_zero hlen
    have hcompleted : (s.write (-1)).completed := by
      unfold Send.completed Send.write
      rw [hempty]
      exact Nat.zero_le _
    exact ⟨fun _ => by simp [Send.sent, Send.rest, hempty], fun hnot => absurd hcompleted hnot⟩
  · obtain ⟨n, rfl⟩ := Int.eq_ofNat_of_zero_le hpos
    have hcount := Send.toNat_write h (Int.ofNat_le.mp hle)
    have htaken : s.sent ++ s.rest.take (Int.toNat n) = s.packet.take (s.written.toNat + n) :=
      List.take_add.symm
    constructor
    · intro hcompleted
      unfold Send.completed at hcompleted
      rw [htaken, ← hcount]
      exact List.take_of_length_le hcompleted
    · intro _
      rw [htaken, ← hcount]
      rfl

/-! ## The queue -/

/-- The bytes of the front packet that are out. -/
def State.taken (s : State) : List Byte :=
  match s.pendings with
  | [] => []
  | pending :: _ => pending.sent

structure Accounted (s : State) : Prop where
  queue : s.queued = s.popped ++ s.pendings.map Send.packet
  bytes : s.accepted = s.popped.flatten ++ s.taken
  unfinished : ∀ pending ∈ s.pendings, pending.Unfinished
  /-- Only the front packet is written in part. -/
  tail : ∀ pending ∈ s.pendings.tail, pending.written = 0

lemma accounted_opened : Accounted opened := by
  constructor <;> simp [opened, State.taken]

/-- The account is about the queue and not about who waits for what. -/
lemma accounted_of_flags {s : State} (h : Accounted s) (registered interest writing : Bool) :
    Accounted { s with registered := registered, interest := interest, writing := writing } :=
  ⟨h.queue, h.bytes, h.unfinished, h.tail⟩

lemma accounted_update {s : State} (h : Accounted s) : Accounted s.update := by
  unfold State.update
  split_ifs
  · exact accounted_of_flags h _ _ _
  · exact h

/-- A packet that joins the queue, new and at its end. -/
lemma accounted_push {s : State} (h : Accounted s) {packet : List Byte}
    (hsize : packet.length < maxSize) :
    Accounted { s with
      pendings := s.pendings ++ [⟨packet, 0⟩], queued := s.queued ++ [packet] } := by
  obtain ⟨queue, bytes, unfinished, tail⟩ := h
  refine ⟨by simp [queue], ?_, fun pending hpending => ?_, fun pending hpending => ?_⟩
  · rw [bytes]
    unfold State.taken
    cases s.pendings with
    | nil => simp [Send.sent]
    | cons pending rest => rfl
  · rcases List.mem_append.mp hpending with hold | hnew
    · exact unfinished pending hold
    · rw [List.mem_singleton.mp hnew]
      exact ⟨hsize, .inr rfl⟩
  · dsimp only at hpending
    cases hpendings : s.pendings with
    | nil =>
      rw [hpendings] at hpending
      cases hpending
    | cons first rest =>
      rw [hpendings, List.cons_append, List.tail_cons] at hpending
      rcases List.mem_append.mp hpending with hold | hnew
      · exact tail pending (by rwa [hpendings, List.tail_cons])
      · rw [List.mem_singleton.mp hnew]

/-- `::write` returns, and the bytes it took are those the counter moves over. -/
lemma accounted_wrote {s : State} (h : Accounted s) {pending : Send} {rest : List Send}
    (hpendings : s.pendings = pending :: rest) {ret : ℤ}
    (hret : ret = -1 ∨ 0 ≤ ret ∧ ret ≤ pending.rest.length) (hfail : ret = -1 → pending.rest = []) :
    (¬(pending.write ret).completed → Accounted { s with
      pendings := pending.write ret :: rest
      accepted := s.accepted ++ pending.rest.take ret.toNat }) ∧
    ((pending.write ret).completed → Accounted { s with
      pendings := rest
      popped := s.popped ++ [pending.packet]
      accepted := s.accepted ++ pending.rest.take ret.toNat }) := by
  obtain ⟨queue, bytes, unfinished, tail⟩ := h
  unfold State.taken at bytes
  simp only [hpendings, List.map_cons, List.tail_cons, List.forall_mem_cons]
    at queue bytes unfinished tail
  obtain ⟨hdone, hpart⟩ := Send.write_spec unfinished.1 hret hfail
  constructor
  · intro hnot
    refine ⟨queue, ?_, ?_, tail⟩
    · rw [bytes, List.append_assoc, hpart hnot]
      rfl
    · exact List.forall_mem_cons.mpr ⟨⟨unfinished.1.1, .inl (Nat.lt_of_not_le hnot)⟩, unfinished.2⟩
  · intro hcompleted
    have htaken : State.taken { s with pendings := rest } = [] := by
      unfold State.taken
      cases rest with
      | nil => rfl
      | cons next rest =>
        -- the next packet is new
        show next.sent = []
        rw [Send.sent, tail next List.mem_cons_self]
        rfl
    refine ⟨by simp [queue], ?_, unfinished.2,
      fun next hnext => tail next (List.mem_of_mem_tail hnext)⟩
    show _ = _ ++ State.taken { s with pendings := rest }
    rw [htaken, bytes, List.append_assoc, hdone hcompleted]
    simp

/-- `::write` does not fail on a nonempty rest. -/
def NoFailure (s : State) : Event → Prop
  | .wrote ret => ret = -1 → ∀ pending ∈ s.pendings.head?, pending.rest = []
  | _ => True

instance (s : State) : ∀ event, Decidable (NoFailure s event)
  | .wrote ret =>
    inferInstanceAs (Decidable (ret = -1 → ∀ pending ∈ s.pendings.head?, pending.rest = []))
  | .write _ _ | .ready => .isTrue trivial

lemma accounted_step {s s' : State} {event : Event} (h : Accounted s) (hfail : NoFailure s event)
    (hstep : step s event = some s') : Accounted s' := by
  cases event with
  | write packet updated =>
    dsimp only [step] at hstep
    split_ifs at hstep with hout hpendings hupdated
    · obtain rfl := Option.some.inj hstep
      exact accounted_push h (by omega)
    · obtain rfl := Option.some.inj hstep
      exact accounted_update (accounted_push h (by omega))
    · obtain rfl := Option.some.inj hstep
      exact accounted_of_flags h _ _ _
  | ready =>
    dsimp only [step] at hstep
    split_ifs at hstep
    obtain rfl := Option.some.inj hstep
    exact accounted_of_flags h _ _ _
  | wrote ret =>
    dsimp only [step] at hstep
    split at hstep
    · rename_i pending rest hwriting hpendings
      split_ifs at hstep with hret hcompleted hrest
      all_goals
        obtain rfl := Option.some.inj hstep
        have hempty : ret = -1 → pending.rest = [] := by simpa [NoFailure, hpendings] using hfail
        obtain ⟨hpart, hdone⟩ := accounted_wrote h hpendings hret hempty
      · exact accounted_update (accounted_of_flags (hdone hcompleted) _ _ false)
      · exact hdone hcompleted
      · exact accounted_update (accounted_of_flags (hpart hcompleted) _ _ false)
    · cases hstep

/-- What the device accepted is the beginning of what was queued, and the packets that have left
the queue are in it. -/
def Preserved (s : State) : Prop :=
  s.accepted <+: s.queued.flatten ∧ s.popped.flatten <+: s.accepted

instance (s : State) : Decidable (Preserved s) := inferInstanceAs (Decidable (_ ∧ _))

lemma preserved_of_accounted {s : State} (h : Accounted s) : Preserved s := by
  refine ⟨?_, by rw [h.bytes]; exact List.prefix_append _ _⟩
  rw [h.bytes, h.queue, List.flatten_append, List.prefix_append_right_inj]
  unfold State.taken
  cases s.pendings with
  | nil => exact List.nil_prefix
  | cons pending rest =>
    rw [List.map_cons, List.flatten_cons]
    exact (List.take_prefix _ _).trans (List.prefix_append _ _)

/-- **The byte stream.** On every run on which `::write` fails only for an empty rest, the device
has accepted the beginning of the queued packets, and all of the packets that left the queue. -/
theorem preserved_of_run (events : List Event) {s : State}
    (hrun : Machine.run step opened events = some s)
    (hfail : Machine.Along step NoFailure opened events) : Preserved s :=
  preserved_of_accounted (Machine.run_invariant_along
    (fun _ _ _ h hfail hstep => accounted_step h hfail hstep) accounted_opened hfail hrun)

/-- A run with short writes; the third result fails, but has nothing left to write. -/
theorem preserved_of_run_short :
    Preserved
      { pendings := [], registered := true, interest := false, writing := false,
        queued := [[0x41, 0x42, 0x43], []], popped := [[0x41, 0x42, 0x43], []],
        accepted := [0x41, 0x42, 0x43] } :=
  preserved_of_run
    [.write [0x41, 0x42, 0x43] true, .ready, .wrote 2, .write [] true, .ready, .wrote 1,
      .wrote (-1)] rfl (by decide)

/-- `EAGAIN` in the middle of a packet repeats a byte, and at its start drops the packet. -/
theorem preserved_of_run_again :
    (∃ s, Machine.run step opened [.write [0x41, 0x42, 0x43] true, .ready, .wrote 2, .ready,
        .wrote (-1), .ready, .wrote 2] = some s ∧ s.queued = [[0x41, 0x42, 0x43]] ∧
        s.accepted = [0x41, 0x42, 0x42, 0x43] ∧ ¬ Preserved s) ∧
      ∃ s, Machine.run step opened [.write [0x41, 0x42, 0x43] true, .ready, .wrote (-1)] = some s ∧
        s.popped = [[0x41, 0x42, 0x43]] ∧ s.accepted = [] ∧ ¬ Preserved s :=
  ⟨⟨_, rfl, rfl, rfl, by decide⟩, _, rfl, rfl, rfl, by decide⟩

end Serial
end Vng
