import Vng.Host
import Vng.Lib.DeltaQueue
import Vng.Lib.Machine

/-!
# The queue of messages to be confirmed

`coap_send_confirmed` puts a message into a queue, `EndpointPrivate::send` sends those again that
are due, and an acknowledgement takes one out. A node keeps the ticks from the node before it, the
first one the ticks from `sendqueue_basetime`.
-/

namespace Vng.Libcoap

open DeltaQueue

/-- `coap_tick_t`: `unsigned long` of the target. -/
abbrev Tick := BitVec 32

/-- `coap_queue_t` without `next` and `t`; the token is the one of the pdu. -/
structure Transaction (Address Pdu : Type) where
  retransmitCnt : ℕ
  timeout : Tick
  remote : Address
  id : ℤ
  pdu : Pdu
  token : List Byte
deriving DecidableEq, Repr

/-- A node of the queue; its time counts from the node in front of it. -/
structure Node (Address Pdu : Type) extends Transaction Address Pdu where
  t : Tick
deriving DecidableEq, Repr

/-- `sent` is history: the pdu of every call of `coap_send_impl`. -/
structure Context (Address Pdu : Type) where
  sendqueue : List (Node Address Pdu)
  sendqueueBasetime : Tick
  sent : List Pdu
deriving DecidableEq, Repr

/-- `COAP_DEFAULT_MAX_RETRANSMIT`. -/
def maxRetransmit : ℕ := 4

/-- `COAP_INVALID_TID`. -/
def invalidTid : ℤ := -1

/-- `SHR_FP`. -/
def shrFp (val frac : ℕ) : ℕ := (val + 1 <<< (frac - 1)) >>> frac

/-- With `ACK_RANDOM_FACTOR` and `ACK_TIMEOUT` as multiples of `1 / 64`. -/
def calcTimeout (r : Byte) : Tick :=
  let result := shrFp ((96 - 64) * r.toNat) 8
  let result := shrFp ((result + 64) * 128) 6
  BitVec.ofNat 32 (shrFp (1000 * result) 6)

section Code

variable {Address Pdu : Type}

/-- `coap_insert_node`. -/
def coapInsertNode : List (Node Address Pdu) → Node Address Pdu → List (Node Address Pdu)
  | [], node => [node]
  | q :: queue, node =>
    if node.t < q.t then node :: { q with t := q.t - node.t } :: queue
    else q :: coapInsertNode queue { node with t := node.t - q.t }

/-- What is behind a node that is taken out. -/
def adjustNext (t : Tick) : List (Node Address Pdu) → List (Node Address Pdu)
  | [] => []
  | q :: queue => { q with t := q.t + t } :: queue

/-- `coap_pop_next`: the next node takes over what was left of the time. -/
def coapPopNext : List (Node Address Pdu) → Option (Node Address Pdu × List (Node Address Pdu))
  | [] => none
  | next :: queue => some (next, adjustNext next.t queue)

/-- The first node with the id. -/
def coapRemoveFromQueue (id : ℤ) :
    List (Node Address Pdu) → Option (Node Address Pdu × List (Node Address Pdu))
  | [] => none
  | q :: queue =>
    if id = q.id then some (q, adjustNext q.t queue)
    else (coapRemoveFromQueue id queue).map fun r => (r.1, q :: r.2)

/-- `coap_cancel_all_messages`: the head is looked at first, then what is behind it. -/
def coapCancelAllMessages [DecidableEq Address] (dst : Address) (token : List Byte)
    (queue : List (Node Address Pdu)) : List (Node Address Pdu) :=
  match queue.dropWhile fun q => q.remote = dst ∧ q.token = token with
  | [] => []
  | p :: queue => p :: queue.filter fun q => ¬ (q.remote = dst ∧ q.token = token)

/-- `coap_retransmit` up to the removal of a node that was sent often enough; `result` is what
`coap_send_impl` returns. A response that is given up is told to the observers of its resource by
`coap_handle_failed_notify`, which is left out: the resource of the endpoint is not observable. -/
def coapRetransmit (result : Transaction Address Pdu → ℤ) (queue : List (Node Address Pdu))
    (node : Node Address Pdu) : List (Node Address Pdu) × List Pdu :=
  if node.retransmitCnt < maxRetransmit then
    let again := { node.toTransaction with retransmitCnt := node.retransmitCnt + 1 }
    (coapInsertNode queue
      { again with t := again.timeout <<< again.retransmitCnt, id := result again }, [node.pdu])
  else (queue, [])

/-- The loop of `EndpointPrivate::send`. -/
def sendLoop (result : Transaction Address Pdu → ℤ) (elapsed : Tick) :
    ℕ → List (Node Address Pdu) → Option (List (Node Address Pdu) × List Pdu)
  | 0, _ => none
  | fuel + 1, queue =>
    match coapPopNext queue with
    | none => some (queue, [])
    | some (node, rest) =>
      -- `coap_peek_next` looks at the node that `coap_pop_next` takes out
      if node.t ≤ elapsed then do
        let (rest, first) := coapRetransmit result rest node
        let (rest, later) ← sendLoop result elapsed fuel rest
        some (rest, first ++ later)
      else some (queue, [])

/-- How often the messages of a queue can still come to its front. -/
def attempts (queue : List (Node Address Pdu)) : ℕ :=
  Machine.total (fun node => maxRetransmit - node.retransmitCnt + 1) queue

/-- What happens to the queue. -/
inductive QueueEvent (Address Pdu : Type)
  /-- `coap_send_confirmed`, with the random byte and what `coap_send_impl` returns. -/
  | sendConfirmed (now : Tick) (r : Byte) (id : ℤ) (remote : Address) (pdu : Pdu)
    (token : List Byte)
  /-- `EndpointPrivate::send`. -/
  | send (now : Tick) (result : Transaction Address Pdu → ℤ)
  /-- `coap_remove_from_queue` for an acknowledgement or a reset. -/
  | remove (id : ℤ)
  /-- `coap_cancel_all_messages` for a response. -/
  | cancel (dst : Address) (token : List Byte)

/-- The functions of the endpoint that change the queue. -/
def Context.step [DecidableEq Address] (s : Context Address Pdu) :
    QueueEvent Address Pdu → Option (Context Address Pdu)
  | .sendConfirmed now r id remote pdu token =>
    if id = invalidTid then some { s with sent := s.sent ++ [pdu] } else
      let timeout := calcTimeout r
      let (t, basetime) := match s.sendqueue with
        | [] => (timeout, now)
        | _ :: _ => (now - s.sendqueueBasetime + timeout, s.sendqueueBasetime)
      some {
        sendqueue := coapInsertNode s.sendqueue ⟨⟨0, timeout, remote, id, pdu, token⟩, t⟩
        sendqueueBasetime := basetime
        sent := s.sent ++ [pdu] }
  | .send now result =>
    (sendLoop result (now - s.sendqueueBasetime) (attempts s.sendqueue + 1) s.sendqueue).map
      fun r => { s with sendqueue := r.1, sent := s.sent ++ r.2 }
  | .remove id =>
    match coapRemoveFromQueue id s.sendqueue with
    | none => some s
    | some (_, queue) => some { s with sendqueue := queue }
  | .cancel dst token =>
    some { s with sendqueue := coapCancelAllMessages dst token s.sendqueue }

/-- No message is waiting. -/
def Context.fresh (basetime : Tick) : Context Address Pdu := ⟨[], basetime, []⟩

/-! ## The schedule -/

/-- What the queue says: the messages with the times they are due at, from `sendqueue_basetime` on,
in their order. -/
structure Schedule (Address Pdu : Type) where
  pending : List (ℕ × Transaction Address Pdu)
  sendqueueBasetime : Tick
  sent : List Pdu

/-- The message as it is sent once more. -/
def again (result : Transaction Address Pdu → ℤ) (m : Transaction Address Pdu) :
    Transaction Address Pdu :=
  let m := { m with retransmitCnt := m.retransmitCnt + 1 }
  { m with id := result m }

/-- The time at which a message is due that was sent again. -/
def dueAgain (m : Transaction Address Pdu) : ℕ := (m.timeout <<< m.retransmitCnt).toNat

/-- Send again what is due, as long as something is. -/
def resend (result : Transaction Address Pdu → ℤ) (elapsed : ℕ) :
    ℕ → List (ℕ × Transaction Address Pdu) →
      Option (List (ℕ × Transaction Address Pdu) × List Pdu)
  | 0, _ => none
  | _ + 1, [] => some ([], [])
  | fuel + 1, (t, m) :: pending =>
    if t ≤ elapsed then
      if m.retransmitCnt < maxRetransmit then
        (resend result elapsed fuel
          (pending.orderedInsert Earlier (dueAgain (again result m), again result m))).map
          fun r => (r.1, m.pdu :: r.2)
      else resend result elapsed fuel pending
    else some ((t, m) :: pending, [])

/-- How often messages can still come to the front. -/
def attemptsOf (pending : List (ℕ × Transaction Address Pdu)) : ℕ :=
  Machine.total (fun e => maxRetransmit - e.2.retransmitCnt + 1) pending

/-- The same on a list of absolute times. -/
def Schedule.step [DecidableEq Address] (s : Schedule Address Pdu) :
    QueueEvent Address Pdu → Option (Schedule Address Pdu)
  | .sendConfirmed now r id remote pdu token =>
    if id = invalidTid then some { s with sent := s.sent ++ [pdu] } else
      let m : Transaction Address Pdu := ⟨0, calcTimeout r, remote, id, pdu, token⟩
      if s.pending = [] then some ⟨[((calcTimeout r).toNat, m)], now, s.sent ++ [pdu]⟩
      else
        let t := (now - s.sendqueueBasetime + calcTimeout r).toNat
        some ⟨s.pending.orderedInsert Earlier (t, m), s.sendqueueBasetime, s.sent ++ [pdu]⟩
  | .send now result =>
    (resend result (now - s.sendqueueBasetime).toNat (attemptsOf s.pending + 1) s.pending).map
      fun r => ⟨r.1, s.sendqueueBasetime, s.sent ++ r.2⟩
  | .remove id => some { s with pending := s.pending.eraseP fun e => decide (id = e.2.id) }
  | .cancel dst token =>
    let p := fun m : Transaction Address Pdu => decide (m.remote = dst ∧ m.token = token)
    some { s with pending := withdraw p 0 0 s.pending }

/-- The nodes as they are in the queue. -/
def entries (queue : List (Node Address Pdu)) : List (ℕ × Transaction Address Pdu) :=
  queue.map fun node => (node.t.toNat, node.toTransaction)

/-- The messages of a queue with their times from the base time on. -/
def pendingOf (queue : List (Node Address Pdu)) : List (ℕ × Transaction Address Pdu) :=
  deadlines 0 (entries queue)

/-- The absolute times of a queue. -/
def Context.schedule (s : Context Address Pdu) : Schedule Address Pdu :=
  ⟨pendingOf s.sendqueue, s.sendqueueBasetime, s.sent⟩

/-- The times fit into a tick. -/
def Fits (times : List (ℕ × Transaction Address Pdu)) : Prop := ∀ e ∈ times, e.1 < 2 ^ 32

variable {queue : List (Node Address Pdu)} {node : Node Address Pdu} {base : ℕ}

/-- Inserting a node is inserting its relative time. -/
lemma entries_coapInsertNode :
    entries (coapInsertNode queue node) =
      insert node.t.toNat node.toTransaction (entries queue) := by
  induction queue generalizing node with
  | nil => rfl
  | cons q queue ih =>
    rw [coapInsertNode]
    by_cases hlt : node.t < q.t
    · have hsub : (q.t - node.t).toNat = q.t.toNat - node.t.toNat :=
        BitVec.toNat_sub_of_le (BitVec.le_of_lt hlt)
      rw [if_pos hlt, entries, List.map_cons, List.map_cons, hsub]
      exact (if_pos (BitVec.lt_def.mp hlt)).symm
    · have hle : q.t ≤ node.t := BitVec.not_lt.mp hlt
      have hsub : (node.t - q.t).toNat = node.t.toNat - q.t.toNat := BitVec.toNat_sub_of_le hle
      have hnot : ¬ node.t.toNat < q.t.toNat := fun h => hlt (BitVec.lt_def.mpr h)
      have hinsert : insert node.t.toNat node.toTransaction (entries (q :: queue)) =
          (q.t.toNat, q.toTransaction) ::
            insert (node.t.toNat - q.t.toNat) node.toTransaction (entries queue) := if_neg hnot
      rw [if_neg hlt, hinsert, ← hsub]
      exact congrArg _ ih

/-- The time of what is taken out is handed on without wrapping. -/
lemma entries_adjustNext (h : Fits (deadlines base (entries (node :: queue)))) :
    entries (adjustNext node.t queue) = postpone node.t.toNat (entries queue) := by
  cases queue with
  | nil => rfl
  | cons q queue =>
    have hlt : base + node.t.toNat + q.t.toNat < 2 ^ 32 :=
      h _ (List.mem_cons_of_mem _ List.mem_cons_self)
    have hsum : (q.t + node.t).toNat = q.t.toNat + node.t.toNat :=
      BitVec.toNat_add_of_lt (by omega)
    rw [adjustNext, entries, List.map_cons, hsum]
    rfl

/-- Removing a node hands its time to the node behind, and no tick wraps. -/
lemma entries_coapRemoveFromQueue (id : ℤ) (h : Fits (deadlines base (entries queue))) :
    (coapRemoveFromQueue id queue).map (fun r => entries r.2) =
      (remove (fun m => decide (id = m.id)) (entries queue)).map Prod.snd := by
  induction queue generalizing base with
  | nil => rfl
  | cons q queue ih =>
    have hrest : Fits (deadlines (base + q.t.toNat) (entries queue)) :=
      fun e he => h e (List.mem_cons_of_mem _ he)
    have hremove : remove (fun m => decide (id = m.id)) (entries (q :: queue)) =
        if decide (id = q.id) then
          some ((q.t.toNat, q.toTransaction), postpone q.t.toNat (entries queue))
        else (remove (fun m => decide (id = m.id)) (entries queue)).map
          fun r => (r.1, (q.t.toNat, q.toTransaction) :: r.2) := rfl
    rw [coapRemoveFromQueue, hremove]
    -- the node at the front is removed, or one of those behind it
    by_cases hid : id = q.id
    · rw [if_pos hid, if_pos (decide_eq_true hid), Option.map_some, Option.map_some,
        entries_adjustNext h]
    · rw [if_neg hid, if_neg (by simpa using hid)]
      have hrec := ih hrest
      cases hcode : coapRemoveFromQueue id queue with
      | none =>
        rw [hcode] at hrec
        cases hspec : remove (fun m : Transaction Address Pdu => decide (id = m.id)) (entries queue)
        · rfl
        · rw [hspec] at hrec
          cases hrec
      | some r =>
        rw [hcode] at hrec
        cases hspec : remove (fun m : Transaction Address Pdu => decide (id = m.id)) (entries queue)
        · rw [hspec] at hrec
          cases hrec
        · rw [hspec, Option.map_some, Option.map_some, Option.some.injEq] at hrec
          rw [Option.map_some, Option.map_some, Option.map_some, Option.map_some, ← hrec]
          rfl

/-- Cancelling leaves the relative times as they are. -/
lemma entries_coapCancelAllMessages [DecidableEq Address] (dst : Address) (token : List Byte) :
    entries (coapCancelAllMessages dst token queue) = (entries queue).filter
      fun e => !decide (e.2.remote = dst ∧ e.2.token = token) := by
  have hall : coapCancelAllMessages dst token queue =
      queue.filter fun q => ¬ (q.remote = dst ∧ q.token = token) := by
    rw [coapCancelAllMessages]
    induction queue with
    | nil => rfl
    | cons q queue ih =>
      by_cases hq : q.remote = dst ∧ q.token = token
      · rw [List.dropWhile_cons_of_pos (by simpa using hq), ih,
          List.filter_cons_of_neg (by simpa using hq)]
      · rw [List.dropWhile_cons_of_neg (by simpa using hq)]
        simp [List.filter_cons, hq]
  rw [hall, entries, entries, List.filter_map]
  congr 1
  apply List.filter_congr
  intro q _
  exact decide_not

lemma attemptsOf_deadlines : attemptsOf (deadlines base (entries queue)) = attempts queue := by
  have hmessages : (deadlines base (entries queue)).map Prod.snd =
      queue.map Node.toTransaction := by
    rw [map_snd_deadlines, entries, List.map_map]
    rfl
  have hbudget : attemptsOf (deadlines base (entries queue)) =
      Machine.total (fun m => maxRetransmit - m.retransmitCnt + 1)
        ((deadlines base (entries queue)).map Prod.snd) := by
    rw [Machine.total_map]
    rfl
  rw [hbudget, hmessages, Machine.total_map, attempts]
  rfl

/-- The first node is due at its own time. -/
lemma pendingOf_cons (node : Node Address Pdu) (queue : List (Node Address Pdu)) :
    pendingOf (node :: queue) =
    (node.t.toNat, node.toTransaction) :: deadlines node.t.toNat (entries queue) := by
  have hcons : pendingOf (node :: queue) = (0 + node.t.toNat, node.toTransaction) ::
      deadlines (0 + node.t.toNat) (entries queue) := rfl
  rw [hcons, Nat.zero_add]

/-- Without its first node the queue has the same absolute times. -/
lemma pendingOf_adjustNext (h : Fits (pendingOf (node :: queue))) :
    pendingOf (adjustNext node.t queue) = deadlines node.t.toNat (entries queue) := by
  rw [pendingOf, entries_adjustNext h, deadlines_postpone, Nat.zero_add]

/-- A node goes behind those that are not later. -/
lemma pendingOf_coapInsertNode : pendingOf (coapInsertNode queue node) =
    (pendingOf queue).orderedInsert Earlier (node.t.toNat, node.toTransaction) := by
  rw [pendingOf, entries_coapInsertNode, deadlines_insert, Nat.zero_add, pendingOf]

/-- A tick can be inserted. -/
lemma Fits.orderedInsert {times : List (ℕ × Transaction Address Pdu)} (h : Fits times)
    (t : Tick) (m : Transaction Address Pdu) :
    Fits (times.orderedInsert Earlier (t.toNat, m)) := by
  intro e he
  rcases List.mem_cons.mp ((List.perm_orderedInsert _ _ _).mem_iff.mp he) with rfl | he
  · exact t.isLt
  · exact h e he

lemma Fits.of_cons {e : ℕ × Transaction Address Pdu} {times : List (ℕ × Transaction Address Pdu)}
    (h : Fits (e :: times)) : Fits times :=
  fun e' he => h e' (List.mem_cons_of_mem _ he)

/-- No tick wraps by inserting. -/
lemma fits_coapInsertNode (node : Node Address Pdu) (h : Fits (pendingOf queue)) :
    Fits (pendingOf (coapInsertNode queue node)) := by
  rw [pendingOf_coapInsertNode]
  exact h.orderedInsert _ _

/-- Nor by taking away the first node. -/
lemma fits_adjustNext (h : Fits (pendingOf (node :: queue))) :
    Fits (pendingOf (adjustNext node.t queue)) := by
  rw [pendingOf_adjustNext h]
  rw [pendingOf_cons] at h
  exact h.of_cons

/-- The node that is put in when a message is sent again. -/
def Node.again (result : Transaction Address Pdu → ℤ) (node : Node Address Pdu) :
    Node Address Pdu :=
  ⟨Libcoap.again result node.toTransaction, node.timeout <<< (node.retransmitCnt + 1)⟩

section Loop

variable {result : Transaction Address Pdu → ℤ} {elapsed : Tick} {fuel : ℕ}

/-- A message that is due is sent again, and goes back into the queue. -/
lemma sendLoop_again (hdue : node.t ≤ elapsed) (hcnt : node.retransmitCnt < maxRetransmit) :
    sendLoop result elapsed (fuel + 1) (node :: queue) =
      (sendLoop result elapsed fuel
        (coapInsertNode (adjustNext node.t queue) (node.again result))).map
        fun r => (r.1, node.pdu :: r.2) := by
  rw [sendLoop, coapPopNext]
  dsimp only
  rw [if_pos hdue, coapRetransmit, if_pos hcnt, Option.map_eq_bind]
  rfl

/-- Or it is dropped, once it was sent often enough. -/
lemma sendLoop_drop (hdue : node.t ≤ elapsed) (hcnt : ¬ node.retransmitCnt < maxRetransmit) :
    sendLoop result elapsed (fuel + 1) (node :: queue) =
      sendLoop result elapsed fuel (adjustNext node.t queue) := by
  rw [sendLoop, coapPopNext]
  dsimp only
  rw [if_pos hdue, coapRetransmit, if_neg hcnt]
  exact Option.bind_fun_some _

/-- Nothing is due any more. -/
lemma sendLoop_stop (hdue : ¬ node.t ≤ elapsed) :
    sendLoop result elapsed (fuel + 1) (node :: queue) = some (node :: queue, []) := by
  rw [sendLoop, coapPopNext]
  exact if_neg hdue

/-- The loop sends again what is due on the schedule, and the times still fit. -/
lemma resend_pendingOf (result : Transaction Address Pdu → ℤ) (elapsed : Tick) (fuel : ℕ)
    (h : Fits (pendingOf queue)) :
    resend result elapsed.toNat fuel (pendingOf queue) =
      (sendLoop result elapsed fuel queue).map (fun r => (pendingOf r.1, r.2)) ∧
    ∀ r ∈ sendLoop result elapsed fuel queue, Fits (pendingOf r.1) := by
  -- round by round: the loops agree on the message at the front
  induction fuel generalizing queue with
  | zero => exact ⟨rfl, fun r hr => by cases hr⟩
  | succ fuel ih =>
    cases queue with
    | nil => exact ⟨rfl, fun r hr => by cases hr; exact h⟩
    | cons node queue =>
      have hrest := fits_adjustNext h
      have hcons := pendingOf_cons node queue
      rw [← pendingOf_adjustNext h] at hcons
      by_cases hdue : node.t ≤ elapsed
      · by_cases hcnt : node.retransmitCnt < maxRetransmit
        · obtain ⟨hloop, hfits⟩ := ih (fits_coapInsertNode (node.again result) hrest)
          rw [pendingOf_coapInsertNode] at hloop
          rw [sendLoop_again hdue hcnt, hcons, resend, if_pos (BitVec.le_def.mp hdue), if_pos hcnt]
          constructor
          · rw [Option.map_map]
            exact (congrArg _ hloop).trans (Option.map_map _ _ _)
          · intro r hr
            obtain ⟨r', hr', rfl⟩ := Option.map_eq_some_iff.mp hr
            exact hfits r' hr'
        · rw [sendLoop_drop hdue hcnt, hcons, resend, if_pos (BitVec.le_def.mp hdue), if_neg hcnt]
          exact ih hrest
      · have hlater : ¬ node.t.toNat ≤ elapsed.toNat := fun h => hdue (BitVec.le_def.mpr h)
        rw [sendLoop_stop hdue, hcons, resend, if_neg hlater, ← hcons]
        exact ⟨rfl, fun r hr => by cases hr; exact h⟩

end Loop

/-- Removing erases the first message with the id, and moves no other. -/
lemma pendingOf_coapRemoveFromQueue (id : ℤ) (h : Fits (pendingOf queue)) :
    (coapRemoveFromQueue id queue = none →
      (pendingOf queue).eraseP (fun e => decide (id = e.2.id)) = pendingOf queue) ∧
    ∀ r ∈ coapRemoveFromQueue id queue,
      pendingOf r.2 = (pendingOf queue).eraseP fun e => decide (id = e.2.id) := by
  have hcode := entries_coapRemoveFromQueue id h
  constructor
  · intro hnone
    rw [hnone, Option.map_none, eq_comm, Option.map_eq_none_iff, remove_eq_none_iff] at hcode
    apply List.eraseP_of_forall_not
    intro e he
    have hmem : e.2 ∈ (entries queue).map Prod.snd := by
      rw [← map_snd_deadlines 0]
      exact List.mem_map_of_mem he
    obtain ⟨e', he', heq⟩ := List.mem_map.mp hmem
    rw [← heq, hcode e' he']
    exact Bool.false_ne_true
  · intro r hr
    rw [hr, Option.map_some, eq_comm, Option.map_eq_some_iff] at hcode
    obtain ⟨⟨e, rest⟩, hremove, heq⟩ := hcode
    rw [pendingOf, ← heq]
    exact deadlines_remove hremove

section Refinement

variable [DecidableEq Address] {s s' : Context Address Pdu} {e : QueueEvent Address Pdu}

/-- Cancelling withdraws messages, and the times behind them move. -/
lemma pendingOf_coapCancelAllMessages (dst : Address) (token : List Byte) :
    pendingOf (coapCancelAllMessages dst token queue) =
      withdraw (fun m => decide (m.remote = dst ∧ m.token = token)) 0 0 (pendingOf queue) := by
  rw [pendingOf, entries_coapCancelAllMessages]
  exact deadlines_filter 0 0 (fun m : Transaction Address Pdu =>
    decide (m.remote = dst ∧ m.token = token)) (entries queue)

/-- One step of the schedule. -/
lemma step_schedule (h : Fits (pendingOf s.sendqueue)) :
    s.schedule.step e = (s.step e).map Context.schedule := by
  cases e with
  -- an empty queue takes its base time from the message
  | sendConfirmed now r id remote pdu token =>
    rw [Schedule.step, Context.step]
    by_cases hid : id = invalidTid
    · rw [if_pos hid, if_pos hid]
      rfl
    · rw [if_neg hid, if_neg hid]
      cases hqueue : s.sendqueue with
      | nil =>
        have hempty : s.schedule.pending = [] := by rw [Context.schedule, hqueue]; rfl
        dsimp only
        rw [if_pos hempty, Option.map_some, Context.schedule, Context.schedule,
          pendingOf_coapInsertNode]
        rfl
      | cons node queue =>
        have hfull : s.schedule.pending ≠ [] := by
          rw [Context.schedule, hqueue, pendingOf_cons]
          exact List.cons_ne_nil _ _
        dsimp only
        rw [if_neg hfull, Option.map_some, Context.schedule, Context.schedule,
          pendingOf_coapInsertNode, hqueue]
  -- the loop has as much fuel as there are attempts left
  | send now result =>
    have hloop := (resend_pendingOf result (now - s.sendqueueBasetime)
      (attempts s.sendqueue + 1) h).1
    rw [Schedule.step, Context.step, Option.map_map]
    have hattempts : attemptsOf s.schedule.pending = attempts s.sendqueue := attemptsOf_deadlines
    rw [hattempts]
    exact (congrArg _ hloop).trans (Option.map_map _ _ _)
  | remove id =>
    obtain ⟨hnone, hsome⟩ := pendingOf_coapRemoveFromQueue id h
    rw [Schedule.step, Context.step]
    cases hremove : coapRemoveFromQueue id s.sendqueue with
    | none => exact congrArg (fun p => some (Schedule.mk p _ _)) (hnone hremove)
    | some r => exact congrArg (fun p => some (Schedule.mk p _ _)) (hsome r hremove).symm
  | cancel dst token =>
    exact congrArg (fun p => some (Schedule.mk p _ _))
      (pendingOf_coapCancelAllMessages dst token).symm

/-- In every run the absolute times fit their type. -/
lemma fits_step (h : Fits (pendingOf s.sendqueue)) (hstep : s.step e = some s') :
    Fits (pendingOf s'.sendqueue) := by
  cases e with
  -- a message that could not be sent is not queued
  | sendConfirmed now r id remote pdu token =>
    rw [Context.step] at hstep
    by_cases hid : id = invalidTid
    · rw [if_pos hid, Option.some.injEq] at hstep
      exact hstep ▸ h
    · rw [if_neg hid, Option.some.injEq] at hstep
      rw [← hstep]
      exact fits_coapInsertNode _ h
  | send now result =>
    obtain ⟨r, hr, rfl⟩ := Option.map_eq_some_iff.mp hstep
    exact (resend_pendingOf _ _ _ h).2 r hr
  | remove id =>
    rw [Context.step] at hstep
    cases hremove : coapRemoveFromQueue id s.sendqueue with
    | none =>
      rw [hremove, Option.some.injEq] at hstep
      exact hstep ▸ h
    | some r =>
      rw [hremove, Option.some.injEq] at hstep
      rw [← hstep]
      dsimp only
      rw [(pendingOf_coapRemoveFromQueue _ h).2 r hremove]
      -- the times that are left are times from before
      exact fun e he => h e (List.eraseP_subset he)
  | cancel dst token =>
    rw [Context.step, Option.some.injEq] at hstep
    rw [← hstep]
    dsimp only
    rw [pendingOf_coapCancelAllMessages]
    -- cancelling only makes the times behind it earlier
    intro e he
    obtain ⟨t, hle, hmem⟩ := mem_withdraw he
    exact hle.trans_lt (h _ hmem)

end Refinement

end Code

end Vng.Libcoap
