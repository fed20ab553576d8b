import Mathlib.Data.List.Perm.Lattice
import Vng.Coap.SendQueue

/-!
# Sending again

What one call of `EndpointPrivate::send` makes of the messages that wait, and how often a message is
sent over a whole run.
-/

namespace Vng.Libcoap

open DeltaQueue Machine

variable {Address Pdu : Type} {result : Transaction Address Pdu → ℤ} {elapsed fuel : ℕ}
  {pending later : List (ℕ × Transaction Address Pdu)} {sent : List Pdu}
  {m : Transaction Address Pdu} {e : ℕ × Transaction Address Pdu}

/-- A message is sent again until it is due later than now, or often enough to be dropped. -/
def settle (result : Transaction Address Pdu → ℤ) (elapsed : ℕ) :
    ℕ → Transaction Address Pdu → Option (ℕ × Transaction Address Pdu) × List Pdu
  | 0, _ => (none, [])
  | tries + 1, m =>
    let m' := again result m
    if dueAgain m' ≤ elapsed then
      let r := settle result elapsed tries m'
      (r.1, m.pdu :: r.2)
    else (some (dueAgain m', m'), [m.pdu])

/-- What becomes of a message that waits, and how it is sent in between. -/
def outcome (result : Transaction Address Pdu → ℤ) (elapsed : ℕ)
    (e : ℕ × Transaction Address Pdu) : Option (ℕ × Transaction Address Pdu) × List Pdu :=
  if e.1 ≤ elapsed then settle result elapsed (maxRetransmit - e.2.retransmitCnt) e.2
  else (some e, [])

/-- A message that is due is sent, and then has the outcome of what goes back into the queue. -/
lemma outcome_again (hdue : e.1 ≤ elapsed) (hcnt : e.2.retransmitCnt < maxRetransmit) :
    outcome result elapsed e =
      ((outcome result elapsed (dueAgain (again result e.2), again result e.2)).1,
        e.2.pdu :: (outcome result elapsed (dueAgain (again result e.2), again result e.2)).2) := by
  have htries : maxRetransmit - e.2.retransmitCnt =
      maxRetransmit - (again result e.2).retransmitCnt + 1 := by
    have hnext : (again result e.2).retransmitCnt = e.2.retransmitCnt + 1 := rfl
    omega
  rw [outcome, if_pos hdue, htries, settle, outcome]
  dsimp only
  by_cases hagain : dueAgain (again result e.2) ≤ elapsed
  · rw [if_pos hagain, if_pos hagain]
  · rw [if_neg hagain, if_neg hagain]

/-- A message that was sent often enough is gone. -/
lemma outcome_drop (hdue : e.1 ≤ elapsed) (hcnt : ¬ e.2.retransmitCnt < maxRetransmit) :
    outcome result elapsed e = (none, []) := by
  have htries : maxRetransmit - e.2.retransmitCnt = 0 := by omega
  rw [outcome, if_pos hdue, htries, settle]

/-- A message that is not due stays. -/
lemma outcome_wait (hdue : ¬ e.1 ≤ elapsed) : outcome result elapsed e = (some e, []) :=
  if_neg hdue

/-- What is in the outcome of a message is not due. -/
lemma lt_of_mem_settle {tries : ℕ} (h : e ∈ (settle result elapsed tries m).1) : elapsed < e.1 := by
  induction tries generalizing m with
  | zero => cases h
  | succ tries ih =>
    rw [settle] at h
    by_cases hdue : dueAgain (again result m) ≤ elapsed
    · rw [if_pos hdue] at h
      exact ih h
    · rw [if_neg hdue] at h
      cases h
      exact Nat.not_le.mp hdue

/-- What stays is not due. -/
lemma lt_of_mem_outcome {e' : ℕ × Transaction Address Pdu}
    (h : e' ∈ (outcome result elapsed e).1) : elapsed < e'.1 := by
  rw [outcome] at h
  by_cases hdue : e.1 ≤ elapsed
  · rw [if_pos hdue] at h
    exact lt_of_mem_settle h
  · rw [if_neg hdue] at h
    cases h
    exact Nat.not_le.mp hdue

lemma attemptsOf_cons : attemptsOf (e :: pending) =
    maxRetransmit - e.2.retransmitCnt + 1 + attemptsOf pending := by
  rw [attemptsOf, total, attemptsOf]

/-- The attempts that are left do not depend on the order. -/
lemma attemptsOf_orderedInsert :
    attemptsOf (pending.orderedInsert Earlier e) = attemptsOf (e :: pending) :=
  total_perm (List.perm_orderedInsert _ _ _)

/-- The loop ends. -/
lemma exists_resend (result : Transaction Address Pdu → ℤ) (elapsed : ℕ)
    (h : attemptsOf pending < fuel) :
    ∃ r, resend result elapsed fuel pending = some r := by
  -- each round takes an attempt or a message away
  induction fuel generalizing pending with
  | zero => exact absurd h (Nat.not_lt_zero _)
  | succ fuel ih =>
    cases pending with
    | nil => exact ⟨_, rfl⟩
    | cons e pending =>
      rw [resend]
      rw [attemptsOf_cons] at h
      by_cases hdue : e.1 ≤ elapsed
      · rw [if_pos hdue]
        by_cases hcnt : e.2.retransmitCnt < maxRetransmit
        · have hless : attemptsOf (pending.orderedInsert Earlier
              (dueAgain (again result e.2), again result e.2)) < fuel := by
            have hnext : (again result e.2).retransmitCnt = e.2.retransmitCnt + 1 := rfl
            rw [attemptsOf_orderedInsert, attemptsOf_cons]
            dsimp only
            omega
          obtain ⟨r, hr⟩ := ih hless
          rw [if_pos hcnt, hr]
          exact ⟨_, rfl⟩
        · rw [if_neg hcnt]
          exact ih (by omega)
      · rw [if_neg hdue]
        exact ⟨_, rfl⟩

/-- The loop makes its outcome of every message, in the order of the times. -/
lemma resend_outcome (hsorted : pending.Pairwise fun a b => a.1 ≤ b.1)
    (h : resend result elapsed fuel pending = some (later, sent)) :
    later.Perm (pending.filterMap fun e => (outcome result elapsed e).1) ∧
      sent.Perm (pending.flatMap fun e => (outcome result elapsed e).2) := by
  -- the outcome of the message at the front is that of what the round leaves of it
  induction fuel generalizing pending later sent with
  | zero => cases h
  | succ fuel ih =>
    cases pending with
    | nil =>
      cases h
      exact ⟨.refl _, .refl _⟩
    | cons e pending =>
      rw [resend] at h
      obtain ⟨hhead, htail⟩ := List.pairwise_cons.mp hsorted
      by_cases hdue : e.1 ≤ elapsed
      · rw [if_pos hdue] at h
        by_cases hcnt : e.2.retransmitCnt < maxRetransmit
        · rw [if_pos hcnt, Option.map_eq_some_iff] at h
          obtain ⟨⟨later', sent'⟩, hrest, hr⟩ := h
          obtain ⟨rfl, rfl⟩ := Prod.mk.inj hr
          obtain ⟨hlater, hsent⟩ := ih (pairwise_orderedInsert htail) hrest
          have hperm := List.perm_orderedInsert Earlier
            (dueAgain (again result e.2), again result e.2) pending
          have heq : outcome result elapsed e = _ := outcome_again hdue hcnt
          constructor
          · refine (hlater.trans (hperm.filterMap _)).trans (.of_eq ?_)
            rw [List.filterMap_cons, List.filterMap_cons, heq]
          · refine ((hsent.trans (hperm.flatMap_right _)).cons _).trans (.of_eq ?_)
            rw [List.flatMap_cons, List.flatMap_cons, heq, List.cons_append]
        · rw [if_neg hcnt] at h
          rw [List.filterMap_cons, List.flatMap_cons, outcome_drop hdue hcnt]
          exact ih htail h
      · rw [if_neg hdue, Option.some.injEq] at h
        obtain ⟨rfl, rfl⟩ := Prod.mk.inj h
        -- the list is sorted, so nothing behind is due either
        have hwait : ∀ a ∈ e :: pending, outcome result elapsed a = (some a, []) := by
          intro a ha
          apply outcome_wait
          rcases List.mem_cons.mp ha with rfl | ha
          · exact hdue
          · have hle := hhead a ha
            omega
        constructor
        · rw [List.filterMap_congr fun a ha => congrArg Prod.fst (hwait a ha), List.filterMap_some]
        · rw [List.flatMap_eq_nil_iff.mpr fun a ha => congrArg Prod.snd (hwait a ha)]

/-! ### Runs -/

section Runs

variable [DecidableEq Address] {s : Context Address Pdu} {basetime : Tick}

/-- Every step of the schedule can happen. -/
lemma exists_step (s : Schedule Address Pdu) (e : QueueEvent Address Pdu) :
    ∃ s', s.step e = some s' := by
  cases e with
  | sendConfirmed now r id remote pdu token =>
    rw [Schedule.step]
    split
    · exact ⟨_, rfl⟩
    · dsimp only
      split <;> exact ⟨_, rfl⟩
  | send now result =>
    obtain ⟨r, hr⟩ := exists_resend result (now - s.sendqueueBasetime).toNat
      (Nat.lt_succ_self (attemptsOf s.pending))
    rw [Schedule.step, hr]
    exact ⟨_, rfl⟩
  | remove id => exact ⟨_, rfl⟩
  | cancel dst token => exact ⟨_, rfl⟩

lemma run_schedule (events : List (QueueEvent Address Pdu)) (basetime : Tick) :
    run Schedule.step ⟨[], basetime, []⟩ events =
      (run Context.step (Context.fresh basetime) events).map Context.schedule := by
  have hkeep (s : Context Address Pdu) (e : QueueEvent Address Pdu) (s' : Context Address Pdu)
      (h : Fits (pendingOf s.sendqueue)) (hstep : s.step e = some s') :
      Fits (pendingOf s'.sendqueue) := fits_step h hstep
  have hfresh : Fits (pendingOf (Context.fresh basetime : Context Address Pdu).sendqueue) :=
    fun e he => by cases he
  exact run_commutes hkeep (fun _ _ h => step_schedule h) events hfresh

/-- **The queue keeps the schedule.** Whatever comes, the queue of nodes that each keep their time
from the node before says when which message is due: a message is put in behind those that are not
later, taken out without moving the others, and sent again as long as it is due; and
`EndpointPrivate::send` comes to an end. -/
theorem queue_refines (events : List (QueueEvent Address Pdu)) (basetime : Tick) :
    ∃ s, run Context.step (Context.fresh basetime) events = some s ∧
      run Schedule.step ⟨[], basetime, []⟩ events = some s.schedule ∧
      (pendingOf s.sendqueue).Pairwise (fun a b => a.1 ≤ b.1) := by
  obtain ⟨t, ht⟩ := exists_run exists_step (⟨[], basetime, []⟩ : Schedule Address Pdu) events
  have hrun := run_schedule events basetime
  rw [ht, eq_comm, Option.map_eq_some_iff] at hrun
  obtain ⟨s, hs, rfl⟩ := hrun
  exact ⟨s, hs, ht, pairwise_deadlines 0 _⟩

/-- In every run the absolute times fit their type. -/
lemma fits_of_run {events : List (QueueEvent Address Pdu)}
    (hrun : run Context.step (Context.fresh basetime) events = some s) :
    Fits (pendingOf s.sendqueue) := by
  have hfresh : Fits (pendingOf (Context.fresh basetime : Context Address Pdu).sendqueue) :=
    fun e he => by cases he
  exact run_invariant (fun _ _ _ h hstep => fits_step h hstep) hfresh hrun

/-- **One call of `EndpointPrivate::send`.** In every state that can be reached, the call leaves the
messages that are not due, sends every other one again until its doubled timeout, counted from
`sendqueue_basetime`, is not over or it was sent five times, and leaves nothing behind that is
due. -/
theorem send_spec {events : List (QueueEvent Address Pdu)}
    (hrun : run Context.step (Context.fresh basetime) events = some s) (now : Tick)
    (result : Transaction Address Pdu → ℤ) :
    let elapsed := (now - s.sendqueueBasetime).toNat
    ∃ queue sent, s.step (.send now result) =
        some ⟨queue, s.sendqueueBasetime, s.sent ++ sent⟩ ∧
      (pendingOf queue).Perm
        ((pendingOf s.sendqueue).filterMap fun e => (outcome result elapsed e).1) ∧
      sent.Perm ((pendingOf s.sendqueue).flatMap fun e => (outcome result elapsed e).2) ∧
      ∀ e ∈ pendingOf queue, elapsed < e.1 := by
  intro elapsed
  have hfits := fits_of_run hrun
  obtain ⟨r, hr⟩ := exists_resend result elapsed
    (Nat.lt_succ_self (attemptsOf (pendingOf s.sendqueue)))
  have hattempts : attemptsOf (pendingOf s.sendqueue) = attempts s.sendqueue :=
    attemptsOf_deadlines
  rw [hattempts, (resend_pendingOf _ _ _ hfits).1, Option.map_eq_some_iff] at hr
  obtain ⟨⟨queue, sent⟩, hloop, -⟩ := hr
  -- the loop on the queue is the one on the absolute times, with the same fuel
  have hresend := (resend_pendingOf result (now - s.sendqueueBasetime)
    (attempts s.sendqueue + 1) hfits).1
  rw [hloop, Option.map_some] at hresend
  obtain ⟨hqueue, hsent⟩ := resend_outcome (pairwise_deadlines 0 _) hresend
  refine ⟨queue, sent, ?_, hqueue, hsent, ?_⟩
  · rw [Context.step, hloop]
    rfl
  · intro e he
    obtain ⟨e', -, hout⟩ := List.mem_filterMap.mp (hqueue.mem_iff.mp he)
    exact lt_of_mem_outcome hout

/-- A message with the shortest timeout. -/
def sentOnce : List (QueueEvent Unit ℕ) := [.sendConfirmed 10 0 7 () 1 []]

theorem send_sentOnce : ∃ queue sent,
    Context.step ⟨[⟨⟨0, 2000, (), 7, 1, []⟩, 2000⟩], 10, [1]⟩ (.send 3010 fun _ => 7) =
        some ⟨queue, 10, 1 :: sent⟩ ∧
      (pendingOf queue).Perm [(4000, ⟨1, 2000, (), 7, 1, []⟩)] ∧ sent.Perm [1] := by
  have hrun : run Context.step (Context.fresh 0) sentOnce =
      some ⟨[⟨⟨0, 2000, (), 7, 1, []⟩, 2000⟩], 10, [1]⟩ := by decide
  obtain ⟨queue, sent, hstep, hqueue, hsent, -⟩ := send_spec hrun 3010 fun _ => 7
  exact ⟨queue, sent, hstep, hqueue, hsent⟩

end Runs

/-! ### A stale base time -/

section Stale

/-- `ACK_TIMEOUT * ACK_RANDOM_FACTOR`, in ticks. -/
lemma calcTimeout_le (r : Byte) : (calcTimeout r).toNat ≤ 3000 := by
  have hlt := r.isLt
  rw [calcTimeout, BitVec.toNat_ofNat]
  refine (Nat.mod_le _ _).trans ?_
  simp only [shrFp, Nat.shiftRight_eq_div_pow]
  omega

/-- No message has a longer timeout than `calc_timeout` gives. -/
def Bounded (pending : List (ℕ × Transaction Address Pdu)) : Prop :=
  ∀ e ∈ pending, e.2.timeout.toNat ≤ 3000

/-- A message with a short timeout can be inserted. -/
lemma Bounded.orderedInsert (h : Bounded pending) (hm : m.timeout.toNat ≤ 3000) (t : ℕ) :
    Bounded (pending.orderedInsert Earlier (t, m)) := by
  intro e he
  rcases List.mem_cons.mp ((List.perm_orderedInsert _ _ _).mem_iff.mp he) with rfl | he
  · exact hm
  · exact h e he

/-- Sending again leaves the first timeout of a message as it is. -/
lemma bounded_resend (hbounded : Bounded pending)
    (h : resend result elapsed fuel pending = some (later, sent)) : Bounded later := by
  induction fuel generalizing pending later sent with
  | zero => cases h
  | succ fuel ih =>
    cases pending with
    | nil =>
      cases h
      exact hbounded
    | cons e pending =>
      obtain ⟨hhead, htail⟩ := List.forall_mem_cons.mp hbounded
      rw [resend] at h
      by_cases hdue : e.1 ≤ elapsed
      · rw [if_pos hdue] at h
        by_cases hcnt : e.2.retransmitCnt < maxRetransmit
        · rw [if_pos hcnt, Option.map_eq_some_iff] at h
          obtain ⟨⟨later', sent'⟩, hrest, hr⟩ := h
          obtain ⟨rfl, -⟩ := Prod.mk.inj hr
          exact ih (Bounded.orderedInsert (m := again result e.2) htail hhead _) hrest
        · rw [if_neg hcnt] at h
          exact ih htail h
      · rw [if_neg hdue, Option.some.injEq] at h
        obtain ⟨rfl, -⟩ := Prod.mk.inj h
        exact hbounded

/-- A message whose longest delay is over is sent without a pause. -/
lemma settle_stale (hm : m.timeout.toNat ≤ 3000) (hstale : 48000 ≤ elapsed) {tries : ℕ}
    (htries : m.retransmitCnt + tries ≤ maxRetransmit) :
    settle result elapsed tries m = (none, List.replicate tries m.pdu) := by
  induction tries generalizing m with
  | zero => rfl
  | succ tries ih =>
    have hnext : (again result m).retransmitCnt = m.retransmitCnt + 1 := rfl
    have hdue : dueAgain (again result m) ≤ elapsed := by
      have hpow : 2 ^ (again result m).retransmitCnt ≤ 2 ^ maxRetransmit :=
        Nat.pow_le_pow_right (by decide) (by omega)
      have hshift : dueAgain (again result m) ≤
          (again result m).timeout.toNat * 2 ^ (again result m).retransmitCnt := by
        rw [dueAgain, BitVec.toNat_shiftLeft, Nat.shiftLeft_eq]
        exact Nat.mod_le _ _
      calc dueAgain (again result m) ≤ _ := hshift
        _ ≤ 3000 * 2 ^ maxRetransmit := Nat.mul_le_mul hm hpow
        _ ≤ elapsed := hstale
    rw [settle]
    dsimp only
    rw [if_pos hdue, ih (m := again result m) hm (by omega)]
    rfl

variable [DecidableEq Address]

/-- No event makes a timeout longer than the longest first one. -/
lemma bounded_step {s s' : Schedule Address Pdu} {e : QueueEvent Address Pdu}
    (h : Bounded s.pending) (hstep : s.step e = some s') : Bounded s'.pending := by
  cases e with
  -- a new message has its first timeout
  | sendConfirmed now r id remote pdu token =>
    rw [Schedule.step] at hstep
    by_cases hid : id = invalidTid
    · rw [if_pos hid, Option.some.injEq] at hstep
      exact hstep ▸ h
    · rw [if_neg hid] at hstep
      by_cases hempty : s.pending = []
      · rw [if_pos hempty, Option.some.injEq] at hstep
        rw [← hstep]
        exact List.forall_mem_singleton.mpr (calcTimeout_le r)
      · rw [if_neg hempty, Option.some.injEq] at hstep
        rw [← hstep]
        exact h.orderedInsert (calcTimeout_le r) _
  | send now result =>
    obtain ⟨r, hr, rfl⟩ := Option.map_eq_some_iff.mp hstep
    exact bounded_resend h hr
  | remove id =>
    cases hstep
    exact fun e he => h e (List.eraseP_subset he)
  | cancel dst token =>
    cases hstep
    intro e he
    obtain ⟨t, -, hmem⟩ := mem_withdraw he
    exact h (t, e.2) hmem

/-- In every run the first timeouts are at most 3000 ticks. -/
lemma bounded_of_run {events : List (QueueEvent Address Pdu)} {basetime : Tick}
    {s : Context Address Pdu} (hrun : run Context.step (Context.fresh basetime) events = some s) :
    Bounded (pendingOf s.sendqueue) := by
  have hschedule := run_schedule events basetime
  rw [hrun, Option.map_some] at hschedule
  have hstart : Bounded (⟨[], basetime, []⟩ : Schedule Address Pdu).pending :=
    fun e he => by cases he
  exact run_invariant (fun _ _ _ h hstep => bounded_step h hstep) hstart hschedule

/-- **No backoff.** Once `sendqueue_basetime`, which stays while the queue is not empty, is 48
seconds old, a message that becomes due is sent as often as is left without a pause, and dropped. -/
theorem send_stale {events : List (QueueEvent Address Pdu)} {basetime : Tick}
    {s : Context Address Pdu} (hrun : run Context.step (Context.fresh basetime) events = some s)
    (now : Tick) (result : Transaction Address Pdu → ℤ)
    (hstale : 48000 ≤ (now - s.sendqueueBasetime).toNat) :
    let elapsed := (now - s.sendqueueBasetime).toNat
    ∃ queue sent, s.step (.send now result) =
        some ⟨queue, s.sendqueueBasetime, s.sent ++ sent⟩ ∧
      (pendingOf queue).Perm ((pendingOf s.sendqueue).filter fun e => elapsed < e.1) ∧
      sent.Perm (((pendingOf s.sendqueue).filter fun e => e.1 ≤ elapsed).flatMap
        fun e => List.replicate (maxRetransmit - e.2.retransmitCnt) e.2.pdu) := by
  intro elapsed
  obtain ⟨queue, sent, hstep, hqueue, hsent, -⟩ := send_spec hrun now result
  have hbounded := bounded_of_run hrun
  -- in 48000 ticks every doubled timeout of a message is over
  have hout : ∀ e ∈ pendingOf s.sendqueue, outcome result elapsed e =
      if e.1 ≤ elapsed then
        (none, List.replicate (maxRetransmit - e.2.retransmitCnt) e.2.pdu)
      else (some e, []) := by
    intro e he
    rw [outcome]
    by_cases hcnt : e.2.retransmitCnt ≤ maxRetransmit
    · rw [settle_stale (hbounded e he) hstale (by omega)]
    · have hnone : maxRetransmit - e.2.retransmitCnt = 0 := by omega
      rw [hnone]
      rfl
  refine ⟨queue, sent, hstep, hqueue.trans (.of_eq ?_), hsent.trans (.of_eq ?_)⟩
  · rw [← List.filterMap_eq_filter]
    apply List.filterMap_congr
    intro e he
    rw [hout e he]
    by_cases hdue : e.1 ≤ elapsed
    · simp [hdue, Option.guard]
    · simp [hdue, Option.guard, Nat.lt_of_not_le hdue]
  · rw [List.flatMap_congr fun e he => congrArg Prod.snd (hout e he)]
    -- message by message: those that are due, and the others
    induction pendingOf s.sendqueue with
    | nil => rfl
    | cons e pending ih =>
      rw [List.flatMap_cons, ih]
      by_cases hdue : e.1 ≤ elapsed
      · rw [if_pos hdue, List.filter_cons_of_pos (by simpa using hdue), List.flatMap_cons]
      · rw [if_neg hdue, List.filter_cons_of_neg (by simpa using hdue)]
        rfl

theorem send_stale_sentOnce : ∃ queue sent,
    Context.step ⟨[⟨⟨0, 2000, (), 7, 1, []⟩, 2000⟩], 10, [1]⟩ (.send 48010 fun _ => 7) =
        some ⟨queue, 10, 1 :: sent⟩ ∧
      (pendingOf queue).Perm [] ∧ sent.Perm [1, 1, 1, 1] := by
  have hrun : run Context.step (Context.fresh 0) sentOnce =
      some ⟨[⟨⟨0, 2000, (), 7, 1, []⟩, 2000⟩], 10, [1]⟩ := by decide
  obtain ⟨queue, sent, hstep, hqueue, hsent⟩ := send_stale hrun 48010 (fun _ => 7) (by decide)
  exact ⟨queue, sent, hstep, hqueue, hsent⟩

end Stale

/-! ### How often a message is sent -/

section Budget

variable [DecidableEq Pdu] {pdu : Pdu}

/-- How often a message that waits can still be sent. -/
def remaining (pdu : Pdu) (e : ℕ × Transaction Address Pdu) : ℕ :=
  if e.2.pdu = pdu then maxRetransmit - e.2.retransmitCnt else 0

/-- How often a message was sent and can still be. -/
def Schedule.budget (pdu : Pdu) (s : Schedule Address Pdu) : ℕ :=
  s.sent.count pdu + total (remaining pdu) s.pending

/-- The message is given to `coap_send_confirmed`. -/
def QueueEvent.confirms (pdu : Pdu) : QueueEvent Address Pdu → Bool
  | .sendConfirmed _ _ _ _ p _ => p = pdu
  | _ => false

/-- Nothing fails, and nothing is answered. -/
def QueueEvent.Unanswered : QueueEvent Address Pdu → Prop
  | .sendConfirmed _ _ id _ _ _ => id ≠ invalidTid
  | .send _ _ => True
  | .remove _ => False
  | .cancel _ _ => False

/-- The attempts that are left for a message, with one more of it in the queue. -/
lemma remaining_orderedInsert :
    total (remaining pdu) (pending.orderedInsert Earlier e) =
      remaining pdu e + total (remaining pdu) pending := by
  rw [total_perm (List.perm_orderedInsert _ _ _), total]

/-- What the loop sends is no longer left. -/
lemma resend_budget (pdu : Pdu) (h : resend result elapsed fuel pending = some (later, sent)) :
    sent.count pdu + total (remaining pdu) later = total (remaining pdu) pending := by
  induction fuel generalizing pending later sent with
  | zero => cases h
  | succ fuel ih =>
    cases pending with
    | nil =>
      cases h
      rfl
    | cons e pending =>
      rw [resend] at h
      by_cases hdue : e.1 ≤ elapsed
      · rw [if_pos hdue] at h
        by_cases hcnt : e.2.retransmitCnt < maxRetransmit
        · rw [if_pos hcnt, Option.map_eq_some_iff] at h
          obtain ⟨⟨later', sent'⟩, hrest, hr⟩ := h
          obtain ⟨rfl, rfl⟩ := Prod.mk.inj hr
          have hbudget := ih hrest
          rw [remaining_orderedInsert] at hbudget
          -- one attempt of the message is used up by the round
          have hone : remaining pdu e = (if e.2.pdu = pdu then 1 else 0) +
              remaining pdu (dueAgain (again result e.2), again result e.2) := by
            have hpdu : (again result e.2).pdu = e.2.pdu := rfl
            have hnext : (again result e.2).retransmitCnt = e.2.retransmitCnt + 1 := rfl
            rw [remaining, remaining, hpdu, hnext]
            split
            · omega
            · rfl
          rw [total, List.count_cons, hone]
          simp only [beq_iff_eq]
          omega
        · rw [if_neg hcnt] at h
          -- a message that is dropped has no attempts left
          have hnone : remaining pdu e = 0 := by
            rw [remaining]
            split <;> omega
          rw [total, hnone, Nat.zero_add]
          exact ih h
      · rw [if_neg hdue, Option.some.injEq] at h
        obtain ⟨rfl, rfl⟩ := Prod.mk.inj h
        exact Nat.zero_add _

/-- Cancelling only lowers them. -/
lemma remaining_withdraw {p : Transaction Address Pdu → Bool} {last early : ℕ} :
    total (remaining pdu) (withdraw p last early pending) ≤ total (remaining pdu) pending := by
  induction pending generalizing last early with
  | nil => exact le_refl _
  | cons e pending ih =>
    obtain ⟨t, m⟩ := e
    rw [withdraw, total]
    by_cases hp : p m = true
    · rw [if_pos hp]
      exact ih.trans (Nat.le_add_left _ _)
    · rw [if_neg hp, total]
      exact Nat.add_le_add_left ih _

variable [DecidableEq Address]

/-- One step of the schedule. -/
lemma budget_step {s s' : Schedule Address Pdu} {e : QueueEvent Address Pdu}
    (hstep : s.step e = some s') (pdu : Pdu) :
    s'.budget pdu ≤ s.budget pdu + (if e.confirms pdu then maxRetransmit + 1 else 0) ∧
      (e.Unanswered →
        s'.budget pdu = s.budget pdu + if e.confirms pdu then maxRetransmit + 1 else 0) := by
  cases e with
  -- sent once, and queued with the other attempts
  | sendConfirmed now r id remote p token =>
    have hone : (s.sent ++ [p]).count pdu = s.sent.count pdu + if p = pdu then 1 else 0 := by
      rw [List.count_append, List.count_singleton]
      simp only [beq_iff_eq]
    rw [Schedule.step] at hstep
    by_cases hid : id = invalidTid
    · rw [if_pos hid, Option.some.injEq] at hstep
      refine ⟨?_, fun h => absurd hid h⟩
      rw [← hstep, Schedule.budget, Schedule.budget, hone]
      simp only [QueueEvent.confirms, decide_eq_true_eq]
      split <;> omega
    · rw [if_neg hid] at hstep
      have hfirst (t : ℕ) : remaining pdu
          (t, (⟨0, calcTimeout r, remote, id, p, token⟩ : Transaction Address Pdu)) =
            if p = pdu then maxRetransmit else 0 := rfl
      have hbudget : s'.budget pdu = (s.sent ++ [p]).count pdu +
          ((if p = pdu then maxRetransmit else 0) + total (remaining pdu) s.pending) := by
        by_cases hempty : s.pending = []
        · rw [if_pos hempty, Option.some.injEq] at hstep
          rw [← hstep, hempty]
          rfl
        · rw [if_neg hempty, Option.some.injEq] at hstep
          rw [← hstep, Schedule.budget, remaining_orderedInsert, hfirst]
      have heq : s'.budget pdu = s.budget pdu +
          if (QueueEvent.sendConfirmed now r id remote p token).confirms pdu
            then maxRetransmit + 1 else 0 := by
        rw [hbudget, hone, Schedule.budget]
        simp only [QueueEvent.confirms, decide_eq_true_eq]
        split <;> omega
      exact ⟨heq.le, fun _ => heq⟩
  -- what is sent comes off what is left
  | send now result =>
    obtain ⟨r, hr, rfl⟩ := Option.map_eq_some_iff.mp hstep
    have heq : Schedule.budget pdu ⟨r.1, s.sendqueueBasetime, s.sent ++ r.2⟩ = s.budget pdu := by
      rw [Schedule.budget, Schedule.budget, List.count_append, ← resend_budget pdu hr,
        Nat.add_assoc]
    exact ⟨heq.le, fun _ => heq⟩
  -- the attempts of the removed message are lost
  | remove id =>
    cases hstep
    exact ⟨Nat.add_le_add_left (total_sublist List.eraseP_sublist) _, fun h => h.elim⟩
  | cancel dst token =>
    cases hstep
    exact ⟨Nat.add_le_add_left remaining_withdraw _, fun h => h.elim⟩

/-- **Five times.** In no run a message is sent more often than five times for each time it is given
to `coap_send_confirmed`; and it is sent exactly as often once the queue is empty, if nothing was
answered and no call failed. -/
theorem sent_count {events : List (QueueEvent Address Pdu)} {basetime : Tick}
    {s : Context Address Pdu} (hrun : run Context.step (Context.fresh basetime) events = some s)
    (pdu : Pdu) :
    s.sent.count pdu ≤ 5 * events.countP (QueueEvent.confirms pdu) ∧
      ((∀ e ∈ events, e.Unanswered) → s.sendqueue = [] →
        s.sent.count pdu = 5 * events.countP (QueueEvent.confirms pdu)) := by
  have hschedule := run_schedule events basetime
  rw [hrun, Option.map_some] at hschedule
  have hstart : (⟨[], basetime, []⟩ : Schedule Address Pdu).budget pdu = 0 := rfl
  constructor
  · have hle := run_sum_le (f := Schedule.budget pdu)
      (fun _ _ _ hstep => (budget_step hstep pdu).1) hschedule
    rw [total_ite, hstart, Nat.zero_add] at hle
    exact (Nat.le_add_right _ _).trans hle
  · intro hevents hempty
    have heq := run_sum_eq (f := Schedule.budget pdu)
      (fun _ _ _ hkeep hstep => (budget_step hstep pdu).2 hkeep) hevents hschedule
    rw [total_ite, hstart, Nat.zero_add, Schedule.budget, Context.schedule, hempty] at heq
    exact heq

/-- One message, and a call of `send` that comes late. -/
def neverAnswered : List (QueueEvent Unit ℕ) :=
  [.sendConfirmed 10 0 7 () 1 [], .send 48010 fun _ => 7]

theorem sent_count_neverAnswered :
    [1, 1, 1, 1, 1].count 1 = 5 * neverAnswered.countP (QueueEvent.confirms 1) := by
  have hrun : run Context.step (Context.fresh 0) neverAnswered =
      some ⟨[], 10, [1, 1, 1, 1, 1]⟩ := by decide
  refine (sent_count hrun 1).2 ?_ rfl
  intro e he
  rcases List.mem_cons.mp he with rfl | he
  · exact (by decide : (7 : ℤ) ≠ invalidTid)
  · rw [List.mem_singleton.mp he]
    trivial

end Budget

end Vng.Libcoap
