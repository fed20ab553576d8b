import Mathlib.Data.List.Sort
import Mathlib.Tactic.Common

/-!
# Delta queues

A queue of entries in the order of their times, in which each entry keeps only the time from the
entry before it. What is put in, taken out of the front or removed from the middle leaves the times
of the others alone.
-/

namespace DeltaQueue

variable {α : Type*}

/-- The entries with their times, from a time on. -/
def deadlines (base : ℕ) : List (ℕ × α) → List (ℕ × α)
  | [] => []
  | (t, x) :: queue => (base + t, x) :: deadlines (base + t) queue

/-- Put in behind the entries that are not later. -/
def insert (t : ℕ) (x : α) : List (ℕ × α) → List (ℕ × α)
  | [] => [(t, x)]
  | (s, y) :: queue =>
    if t < s then (t, x) :: (s - t, y) :: queue else (s, y) :: insert (t - s) x queue

/-- The first entry takes over the time of one in front of it. -/
def postpone (d : ℕ) : List (ℕ × α) → List (ℕ × α)
  | [] => []
  | (t, x) :: queue => (t + d, x) :: queue

/-- Take out the first entry with a property. -/
def remove (p : α → Bool) : List (ℕ × α) → Option ((ℕ × α) × List (ℕ × α))
  | [] => none
  | (t, x) :: queue =>
    if p x then some ((t, x), postpone t queue)
    else (remove p queue).map fun r => (r.1, (t, x) :: r.2)

/-- Take entries out of a list of times without handing their time on: what is behind an entry that
is taken out comes earlier by the time between this entry and the one before it. -/
def withdraw (p : α → Bool) (last early : ℕ) : List (ℕ × α) → List (ℕ × α)
  | [] => []
  | (t, x) :: times =>
    if p x then withdraw p t (early + (t - last)) times
    else (t - early, x) :: withdraw p t early times

/-- The order in which a list of entries with their times is kept. -/
def Earlier (a b : ℕ × α) : Prop := a.1 < b.1

instance : DecidableRel (Earlier (α := α)) := fun a b => inferInstanceAs (Decidable (a.1 < b.1))

section Operations

variable {base t d : ℕ} {x : α} {p : α → Bool} {queue : List (ℕ × α)} {e : ℕ × α}

lemma deadlines_cons : deadlines base (e :: queue) =
    (base + e.1, e.2) :: deadlines (base + e.1) queue := rfl

lemma map_snd_deadlines (base : ℕ) (queue : List (ℕ × α)) :
    (deadlines base queue).map Prod.snd = queue.map Prod.snd := by
  induction queue generalizing base with
  | nil => rfl
  | cons e queue ih => rw [deadlines_cons, List.map_cons, List.map_cons, ih]

lemma le_of_mem_deadlines (h : e ∈ deadlines base queue) : base ≤ e.1 := by
  induction queue generalizing base with
  | nil => cases h
  | cons e' queue ih =>
    rw [deadlines_cons, List.mem_cons] at h
    rcases h with rfl | h
    · exact Nat.le_add_right _ _
    · exact (Nat.le_add_right _ _).trans (ih h)

/-- The times are in order. -/
lemma pairwise_deadlines (base : ℕ) (queue : List (ℕ × α)) :
    (deadlines base queue).Pairwise fun a b => a.1 ≤ b.1 := by
  induction queue generalizing base with
  | nil => exact List.Pairwise.nil
  | cons e queue ih => exact List.pairwise_cons.mpr ⟨fun _ h => le_of_mem_deadlines h, ih _⟩

lemma pairwise_orderedInsert {times : List (ℕ × α)} (h : times.Pairwise fun a b => a.1 ≤ b.1) :
    (times.orderedInsert Earlier e).Pairwise fun a b => a.1 ≤ b.1 := by
  induction times with
  | nil => exact List.pairwise_singleton _ _
  | cons e' times ih =>
    obtain ⟨hhead, htail⟩ := List.pairwise_cons.mp h
    rw [List.orderedInsert_cons]
    by_cases hlt : Earlier e e'
    · rw [if_pos hlt]
      refine List.pairwise_cons.mpr ⟨fun a ha => ?_, h⟩
      have hle : e.1 ≤ e'.1 := Nat.le_of_lt hlt
      rcases List.mem_cons.mp ha with rfl | ha
      · exact hle
      · exact hle.trans (hhead a ha)
    · rw [if_neg hlt]
      refine List.pairwise_cons.mpr ⟨fun a ha => ?_, ih htail⟩
      rcases List.mem_cons.mp ((List.perm_orderedInsert _ _ _).mem_iff.mp ha) with rfl | ha
      · exact Nat.not_lt.mp hlt
      · exact hhead a ha

/-- An entry is put in behind those that are not later, whatever it holds. -/
lemma exists_orderedInsert_eq (t : ℕ) (times : List (ℕ × α)) :
    ∃ front behind, times = front ++ behind ∧ (∀ e ∈ front, e.1 ≤ t) ∧
      (∀ e ∈ behind.head?, t < e.1) ∧
      ∀ x, times.orderedInsert Earlier (t, x) = front ++ (t, x) :: behind := by
  induction times with
  | nil =>
    refine ⟨[], [], rfl, List.forall_mem_nil _, fun e h => ?_, fun _ => rfl⟩
    cases h
  | cons e times ih =>
    by_cases hlt : t < e.1
    · refine ⟨[], e :: times, rfl, List.forall_mem_nil _, ?_, fun x => ?_⟩
      · intro e' h
        rwa [← Option.some.inj h]
      · exact if_pos hlt
    · obtain ⟨front, behind, rfl, hfront, hbehind, hinsert⟩ := ih
      refine ⟨e :: front, behind, rfl, ?_, hbehind, fun x => ?_⟩
      · exact List.forall_mem_cons.mpr ⟨not_lt.mp hlt, hfront⟩
      · rw [List.orderedInsert_cons, if_neg (show ¬ Earlier (t, x) e from hlt), hinsert]
        rfl

/-- Entries with one time stay in the order in which they are put in. -/
lemma filter_orderedInsert {times : List (ℕ × α)} (h : times.Pairwise fun a b => a.1 ≤ b.1)
    (n : ℕ) :
    (times.orderedInsert Earlier e).filter (fun e => e.1 = n) =
      times.filter (fun e => e.1 = n) ++ [e].filter (fun e => e.1 = n) := by
  obtain ⟨t, x⟩ := e
  obtain ⟨front, behind, rfl, -, hbehind, hinsert⟩ := exists_orderedInsert_eq t times
  rw [hinsert, List.filter_append, List.filter_append, List.append_assoc, ← List.singleton_append,
    List.filter_append, List.append_cancel_left_eq]
  by_cases hn : t = n
  · -- nothing of this time is behind the new entry
    have hnone : behind.filter (fun e => e.1 = n) = [] := by
      rw [List.filter_eq_nil_iff]
      cases behind with
      | nil => exact List.forall_mem_nil _
      | cons b behind =>
        have hlt : t < b.1 := hbehind b rfl
        have hle := (List.pairwise_cons.mp (List.pairwise_append.mp h).2.1).1
        refine List.forall_mem_cons.mpr ⟨?_, fun e he => ?_⟩
        · rw [decide_eq_true_iff]
          omega
        · have := hle e he
          rw [decide_eq_true_iff]
          omega
    rw [hnone, List.append_nil, List.nil_append]
  · have hnone : [(t, x)].filter (fun e => e.1 = n) = [] := by
      rw [List.filter_singleton, decide_eq_false hn]
      rfl
    rw [hnone, List.append_nil, List.nil_append]

/-- **Putting in.** The new entry is put into the sorted times, behind those that are equal. -/
theorem deadlines_insert (base t : ℕ) (x : α) (queue : List (ℕ × α)) :
    deadlines base (insert t x queue) =
      (deadlines base queue).orderedInsert Earlier (base + t, x) := by
  induction queue generalizing base t with
  | nil => rfl
  | cons e queue ih =>
    obtain ⟨s, y⟩ := e
    rw [insert, deadlines_cons, List.orderedInsert_cons]
    by_cases hlt : t < s
    · have hbefore : Earlier (base + t, x) (base + s, y) := Nat.add_lt_add_left hlt base
      rw [if_pos hlt, if_pos hbefore, deadlines_cons, deadlines_cons]
      have hsum : base + t + (s - t) = base + s := by omega
      dsimp only
      rw [hsum]
    · have hnot : ¬ Earlier (base + t, x) (base + s, y) := fun h =>
        hlt (Nat.lt_of_add_lt_add_left h)
      have hsum : base + s + (t - s) = base + t := by omega
      rw [if_neg hlt, if_neg hnot, deadlines_cons, ih, hsum]

@[simp] lemma deadlines_postpone :
    deadlines base (postpone d queue) = deadlines (base + d) queue := by
  cases queue with
  | nil => rfl
  | cons e queue =>
    rw [postpone, deadlines_cons, deadlines_cons, ← Nat.add_assoc, Nat.add_right_comm]

lemma remove_eq_none_iff : remove p queue = none ↔ ∀ e ∈ queue, p e.2 = false := by
  induction queue with
  | nil => simp [remove]
  | cons e queue ih =>
    obtain ⟨t, x⟩ := e
    rw [remove, List.forall_mem_cons]
    by_cases hp : p x = true
    · simp [hp]
    · simp [hp, ih]

/-- **Taking out.** Without the entry that is taken out, all times are as before. -/
theorem deadlines_remove {rest : List (ℕ × α)} (h : remove p queue = some (e, rest)) :
    deadlines base rest = (deadlines base queue).eraseP fun e => p e.2 := by
  induction queue generalizing base rest with
  | nil => cases h
  | cons e' queue ih =>
    obtain ⟨t, x⟩ := e'
    rw [remove] at h
    rw [deadlines_cons, List.eraseP_cons]
    by_cases hp : p x = true
    · rw [if_pos hp, Option.some.injEq, Prod.mk.injEq] at h
      obtain ⟨-, rfl⟩ := h
      rw [deadlines_postpone]
      simp only [hp, cond_true]
    · rw [if_neg hp, Option.map_eq_some_iff] at h
      obtain ⟨r, hremove, hr⟩ := h
      obtain ⟨rfl, rfl⟩ := Prod.mk.inj hr
      simp only [Bool.not_eq_true] at hp
      rw [deadlines_cons, ih hremove]
      simp only [hp, cond_false]

/-- Entries that are dropped with their times. -/
theorem deadlines_filter (base early : ℕ) (p : α → Bool) (queue : List (ℕ × α)) :
    deadlines base (queue.filter fun e => !p e.2) =
      withdraw p (base + early) early (deadlines (base + early) queue) := by
  induction queue generalizing base early with
  | nil => rfl
  | cons e queue ih =>
    rw [deadlines_cons, withdraw]
    by_cases hp : p e.2 = true
    · have hearly : early + (base + early + e.1 - (base + early)) = early + e.1 := by omega
      rw [List.filter_cons_of_neg (by simp [hp]), if_pos hp, ih base (early + e.1), hearly,
        Nat.add_assoc]
    · have htime : base + early + e.1 - early = base + e.1 := by omega
      rw [List.filter_cons_of_pos (by simp [hp]), if_neg hp, deadlines_cons,
        ih (base + e.1) early, htime, Nat.add_right_comm]

lemma mem_withdraw {last early : ℕ} {times : List (ℕ × α)} (h : e ∈ withdraw p last early times) :
    ∃ t, e.1 ≤ t ∧ (t, e.2) ∈ times := by
  induction times generalizing last early with
  | nil => cases h
  | cons e' times ih =>
    obtain ⟨t, x⟩ := e'
    rw [withdraw] at h
    by_cases hp : p x = true
    · rw [if_pos hp] at h
      obtain ⟨t', hle, hmem⟩ := ih h
      exact ⟨t', hle, List.mem_cons_of_mem _ hmem⟩
    · rw [if_neg hp, List.mem_cons] at h
      rcases h with rfl | h
      · exact ⟨t, Nat.sub_le _ _, List.mem_cons_self⟩
      · obtain ⟨t', hle, hmem⟩ := ih h
        exact ⟨t', hle, List.mem_cons_of_mem _ hmem⟩

end Operations

end DeltaQueue
