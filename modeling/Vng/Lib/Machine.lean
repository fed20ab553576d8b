import Mathlib.Data.List.Basic

/-!
# Machines with partial steps

A machine is a step function `σ → ε → Option σ`: an event either moves the machine to its next
state or cannot happen in this one. The events stand for everything that can come next, so the
lists of events that `run` accepts are the interleavings of the parties behind them.
-/

namespace Machine

variable {σ τ ε δ : Type*} {step : σ → ε → Option σ} {step' : τ → δ → Option τ}

/-- The state after a list of events, if they can happen in this order. -/
def run (step : σ → ε → Option σ) (s : σ) : List ε → Option σ
  | [] => some s
  | e :: events => (step s e).bind fun s' => run step s' events

@[simp] lemma run_nil (s : σ) : run step s [] = some s := rfl

lemma run_cons_eq_some {s t : σ} {e : ε} {events : List ε} :
    run step s (e :: events) = some t ↔ ∃ s', step s e = some s' ∧ run step s' events = some t := by
  rw [run, Option.bind_eq_some_iff]

lemma run_append_eq_some {s t : σ} {events rest : List ε} :
    run step s (events ++ rest) = some t ↔
      ∃ s', run step s events = some s' ∧ run step s' rest = some t := by
  induction events generalizing s with
  | nil => simp
  | cons e events ih =>
    rw [List.cons_append, run_cons_eq_some]
    simp only [ih, run_cons_eq_some]
    grind

/-- **Invariant rule.** What every step preserves, every run preserves. -/
theorem run_invariant {Inv : σ → Prop} (hstep : ∀ s e s', Inv s → step s e = some s' → Inv s')
    {events : List ε} {s t : σ} (hs : Inv s) (hrun : run step s events = some t) : Inv t := by
  induction events generalizing s with
  | nil =>
    rw [run_nil, Option.some.injEq] at hrun
    exact hrun ▸ hs
  | cons e events ih =>
    obtain ⟨s', he, hrest⟩ := run_cons_eq_some.mp hrun
    exact ih (hstep s e s' hs he) hrest

/-- **Refinement rule.** If every step keeps the state related to what a function makes of another
state, a run keeps it related to what the function makes of all the events. -/
theorem run_refines {R : σ → τ → Prop} {next : τ → ε → τ}
    (hstep : ∀ s a e s', R s a → step s e = some s' → R s' (next a e))
    {events : List ε} {s t : σ} {a : τ} (hs : R s a) (hrun : run step s events = some t) :
    R t (events.foldl next a) := by
  induction events generalizing s a with
  | nil =>
    rw [run_nil, Option.some.injEq] at hrun
    exact hrun ▸ hs
  | cons e events ih =>
    obtain ⟨s', he, hrest⟩ := run_cons_eq_some.mp hrun
    exact ih (hstep s a e s' hs he) hrest

/-- Every step of a run meets a condition on its event and the state before it. -/
def Along (step : σ → ε → Option σ) (P : σ → ε → Prop) (s : σ) : List ε → Prop
  | [] => True
  | e :: events => P s e ∧ ∀ s' ∈ step s e, Along step P s' events

instance decidableAlong {P : σ → ε → Prop} [∀ s e, Decidable (P s e)] :
    ∀ (s : σ) (events : List ε), Decidable (Along step P s events)
  | _, [] => .isTrue trivial
  | s, e :: events =>
    have : ∀ s', Decidable (Along step P s' events) := fun s' => decidableAlong s' events
    inferInstanceAs (Decidable (P s e ∧ ∀ s' ∈ step s e, Along step P s' events))

/-- **Conditional invariant rule.** What the steps that meet a condition preserve, the runs along
that condition preserve. -/
theorem run_invariant_along {P : σ → ε → Prop} {Inv : σ → Prop}
    (hstep : ∀ s e s', Inv s → P s e → step s e = some s' → Inv s')
    {events : List ε} {s t : σ} (hs : Inv s) (halong : Along step P s events)
    (hrun : run step s events = some t) : Inv t := by
  induction events generalizing s with
  | nil =>
    rw [run_nil, Option.some.injEq] at hrun
    exact hrun ▸ hs
  | cons e events ih =>
    obtain ⟨s', he, hrest⟩ := run_cons_eq_some.mp hrun
    obtain ⟨hP, hlater⟩ := halong
    exact ih (hstep s e s' hs hP he) (hlater s' he) hrest

/-- What holds at every step holds along every run. -/
lemma along_of_forall {P : σ → ε → Prop} (h : ∀ s e, P s e) {s : σ} {events : List ε} :
    Along step P s events := by
  induction events generalizing s with
  | nil => trivial
  | cons e events ih => exact ⟨h s e, fun _ _ => ih⟩

/-- A condition on the events alone holds along a run exactly if all of its events meet it. -/
lemma along_iff_forall_mem {P : ε → Prop} {events : List ε} {s t : σ}
    (hrun : run step s events = some t) :
    Along step (fun _ e => P e) s events ↔ ∀ e ∈ events, P e := by
  induction events generalizing s with
  | nil => exact iff_of_true trivial (fun _ h => by cases h)
  | cons e events ih =>
    obtain ⟨s', he, hrest⟩ := run_cons_eq_some.mp hrun
    simp only [Along, he, Option.mem_some_iff, forall_eq', ih hrest, List.forall_mem_cons]

/-- A machine whose steps always succeed runs on any events. -/
lemma exists_run (htotal : ∀ s e, ∃ s', step s e = some s') (s : σ) (events : List ε) :
    ∃ t, run step s events = some t := by
  induction events generalizing s with
  | nil => exact ⟨s, rfl⟩
  | cons e events ih =>
    obtain ⟨s', he⟩ := htotal s e
    obtain ⟨t, ht⟩ := ih s'
    exact ⟨t, run_cons_eq_some.mpr ⟨s', he, ht⟩⟩

/-- A run along a condition is along what the condition gives under its invariant. -/
lemma along_of_along {Q R : σ → ε → Prop} {Inv : σ → Prop}
    (hkeep : ∀ s e s', Inv s → Q s e → step s e = some s' → Inv s')
    (hR : ∀ s e, Inv s → Q s e → R s e) {events : List ε} {s : σ} (hs : Inv s)
    (h : Along step Q s events) : Along step R s events := by
  induction events generalizing s with
  | nil => trivial
  | cons e events ih =>
    obtain ⟨hQ, hlater⟩ := h
    exact ⟨hR s e hs hQ, fun s' he => ih (hkeep s e s' hs hQ he) (hlater s' he)⟩

/-- Every state of a run has a property, the first and the last one included. -/
def Always (step : σ → ε → Option σ) (P : σ → Prop) (s : σ) : List ε → Prop
  | [] => P s
  | e :: events => P s ∧ ∀ s' ∈ step s e, Always step P s' events

/-- **Progress rule.** If the steps that meet a condition can happen and preserve an invariant that
gives a property, the runs along the condition can happen and have the property throughout. -/
theorem always_of_along {P : σ → Prop} {Q : σ → ε → Prop} {Inv : σ → Prop}
    (hP : ∀ s, Inv s → P s) (hstep : ∀ s e, Inv s → Q s e → ∃ s', step s e = some s' ∧ Inv s')
    {events : List ε} {s : σ} (hs : Inv s) (halong : Along step Q s events) :
    (∃ t, run step s events = some t) ∧ Always step P s events := by
  induction events generalizing s with
  | nil => exact ⟨⟨s, rfl⟩, hP s hs⟩
  | cons e events ih =>
    obtain ⟨hQ, hlater⟩ := halong
    obtain ⟨s', he, hs'⟩ := hstep s e hs hQ
    obtain ⟨⟨t, ht⟩, halways⟩ := ih hs' (hlater s' he)
    refine ⟨⟨t, run_cons_eq_some.mpr ⟨s', he, ht⟩⟩, hP s hs, ?_⟩
    intro s'' he'
    rw [he, Option.mem_some_iff] at he'
    exact he' ▸ halways

/-- **Exact condition rule.** If the steps that meet a condition preserve an invariant that gives
the property, and a step that does not meet it loses the property at once, then the property
holds throughout exactly the runs along the condition. -/
theorem always_iff_along {P : σ → Prop} {Q : σ → ε → Prop} {Inv : σ → Prop}
    (hP : ∀ s, Inv s → P s) (hkeep : ∀ s e s', Inv s → Q s e → step s e = some s' → Inv s')
    (hlose : ∀ s e s', Inv s → ¬ Q s e → step s e = some s' → ¬ P s')
    {events : List ε} {s t : σ} (hs : Inv s) (hrun : run step s events = some t) :
    Always step P s events ↔ Along step Q s events := by
  induction events generalizing s with
  | nil => exact iff_of_true (hP s hs) trivial
  | cons e events ih =>
    obtain ⟨s', he, hrest⟩ := run_cons_eq_some.mp hrun
    simp only [Always, Along, he, Option.mem_some_iff, forall_eq']
    constructor
    · rintro ⟨-, hlater⟩
      have hQ : Q s e := by
        by_contra hnot
        apply hlose s e s' hs hnot he
        cases events with
        | nil => exact hlater
        | cons => exact hlater.1
      exact ⟨hQ, (ih (hkeep s e s' hs hQ he) hrest).mp hlater⟩
    · rintro ⟨hQ, hlater⟩
      exact ⟨hP s hs, (ih (hkeep s e s' hs hQ he) hrest).mpr hlater⟩

/-- **Simulation rule.** If every step is matched by a run of another machine, so is every run. -/
theorem run_simulates {f : σ → τ}
    (hstep : ∀ s e s', step s e = some s' → ∃ events, run step' (f s) events = some (f s'))
    {events : List ε} {s t : σ} (hrun : run step s events = some t) :
    ∃ events', run step' (f s) events' = some (f t) := by
  induction events generalizing s with
  | nil =>
    rw [run_nil, Option.some.injEq] at hrun
    exact ⟨[], by rw [run_nil, hrun]⟩
  | cons e events ih =>
    obtain ⟨s', he, hrest⟩ := run_cons_eq_some.mp hrun
    obtain ⟨first, hfirst⟩ := hstep s e s' he
    obtain ⟨later, hlater⟩ := ih hrest
    exact ⟨first ++ later, run_append_eq_some.mpr ⟨f s', hfirst, hlater⟩⟩

/-- **Commutation rule.** If another machine takes every step as this one does, up to a function of
the states, it also takes every run so. -/
theorem run_commutes {step' : τ → ε → Option τ} {f : σ → τ} {Inv : σ → Prop}
    (hkeep : ∀ s e s', Inv s → step s e = some s' → Inv s')
    (hstep : ∀ s e, Inv s → step' (f s) e = (step s e).map f)
    (events : List ε) {s : σ} (hs : Inv s) :
    run step' (f s) events = (run step s events).map f := by
  induction events generalizing s with
  | nil => rfl
  | cons e events ih =>
    rw [run, run, hstep s e hs]
    cases he : step s e with
    | none => rfl
    | some s' => exact ih (hkeep s e s' hs he)

/-- What the elements of a list bring in all. -/
def total (g : ε → ℕ) : List ε → ℕ
  | [] => 0
  | e :: events => g e + total g events

section Total

variable {g : ε → ℕ} {events events' : List ε}

lemma total_map {h : δ → ε} {l : List δ} : total g (l.map h) = total (g ∘ h) l := by
  induction l with
  | nil => rfl
  | cons d l ih => rw [List.map_cons, total, total, ih, Function.comp_apply]

lemma total_perm (h : events.Perm events') : total g events = total g events' := by
  induction h with
  | nil => rfl
  | cons e _ ih => rw [total, total, ih]
  | swap e e' l =>
    rw [total, total, total, total]
    omega
  | trans _ _ ih ih' => exact ih.trans ih'

lemma total_sublist (h : events.Sublist events') : total g events ≤ total g events' := by
  induction h with
  | slnil => exact Nat.le_refl _
  | cons e _ ih => exact Nat.le_trans ih (Nat.le_add_left _ _)
  | cons_cons e _ ih => exact Nat.add_le_add_left ih _

lemma total_ite (n : ℕ) (p : ε → Bool) (events : List ε) :
    total (fun e => if p e then n else 0) events = n * events.countP p := by
  induction events with
  | nil => rfl
  | cons e events ih =>
    rw [total, ih, List.countP_cons, Nat.mul_add, Nat.add_comm]
    split
    · rw [Nat.mul_one]
    · rfl

end Total

/-- **Budget rule.** If no step takes more from a budget than its event brings, no run does. -/
theorem run_sum_le {f : σ → ℕ} {g : ε → ℕ} (hstep : ∀ s e s', step s e = some s' → f s' ≤ f s + g e)
    {events : List ε} {s t : σ} (hrun : run step s events = some t) :
    f t ≤ f s + total g events := by
  induction events generalizing s with
  | nil =>
    rw [run_nil, Option.some.injEq] at hrun
    rw [hrun]
    exact Nat.le_add_right _ _
  | cons e events ih =>
    obtain ⟨s', he, hrest⟩ := run_cons_eq_some.mp hrun
    have hfirst := hstep s e s' he
    have hlater := ih hrest
    rw [total]
    omega

/-- **Balance rule.** If the steps of some events take what they bring, so do the runs of them. -/
theorem run_sum_eq {f : σ → ℕ} {g : ε → ℕ} {P : ε → Prop}
    (hstep : ∀ s e s', P e → step s e = some s' → f s' = f s + g e)
    {events : List ε} {s t : σ} (hP : ∀ e ∈ events, P e) (hrun : run step s events = some t) :
    f t = f s + total g events := by
  induction events generalizing s with
  | nil =>
    rw [run_nil, Option.some.injEq] at hrun
    rw [hrun]
    rfl
  | cons e events ih =>
    obtain ⟨s', he, hrest⟩ := run_cons_eq_some.mp hrun
    rw [List.forall_mem_cons] at hP
    rw [ih hP.2 hrest, hstep s e s' hP.1 he, total, Nat.add_assoc]

lemma along_append {P : σ → ε → Prop} {s t : σ} {events rest : List ε}
    (h : Along step P s events) (hrun : run step s events = some t) (hrest : Along step P t rest) :
    Along step P s (events ++ rest) := by
  induction events generalizing s with
  | nil =>
    rw [run_nil, Option.some.injEq] at hrun
    exact hrun ▸ hrest
  | cons e events ih =>
    obtain ⟨s', he, hlater⟩ := run_cons_eq_some.mp hrun
    obtain ⟨hP, halong⟩ := h
    refine ⟨hP, fun s'' he' => ?_⟩
    rw [he, Option.mem_some_iff] at he'
    exact he' ▸ ih (halong s' he) hlater

/-- **Conditional simulation rule.** If every step from a state with an invariant is matched by a
run along a condition, so is every run. -/
theorem run_simulates_along {f : σ → τ} {Inv : σ → Prop} {P : τ → δ → Prop}
    (hkeep : ∀ s e s', Inv s → step s e = some s' → Inv s')
    (hstep : ∀ s e s', Inv s → step s e = some s' →
      ∃ events, Along step' P (f s) events ∧ run step' (f s) events = some (f s'))
    {events : List ε} {s t : σ} (hs : Inv s) (hrun : run step s events = some t) :
    ∃ events', Along step' P (f s) events' ∧ run step' (f s) events' = some (f t) := by
  induction events generalizing s with
  | nil =>
    rw [run_nil, Option.some.injEq] at hrun
    exact ⟨[], trivial, by rw [run_nil, hrun]⟩
  | cons e events ih =>
    obtain ⟨s', he, hrest⟩ := run_cons_eq_some.mp hrun
    obtain ⟨first, hfirst, hrunFirst⟩ := hstep s e s' hs he
    obtain ⟨later, hlater, hrunLater⟩ := ih (hkeep s e s' hs he) hrest
    exact ⟨first ++ later, along_append hfirst hrunFirst hlater,
      run_append_eq_some.mpr ⟨f s', hrunFirst, hrunLater⟩⟩

end Machine
