import Mathlib.Tactic.Common
import Vng.Lib.Epoll
import Vng.Lib.Machine

/-!
# `core::Synchronizer`, the registered callbacks

The map of `coresynchronize.cpp` from descriptors to callbacks, beside the interest set of epoll
that it mirrors. `append` writes the map before it asks epoll, and takes the entry back by erasing
it when epoll refuses, whether or not there was one before.
-/

namespace Vng
namespace Synchronizer

open Epoll (Entry Interest)

variable {Callback : Type}

/-- The callbacks of the synchronizer, and what the kernel keeps for it. -/
structure State (Callback : Type) where
  /-- `_callbacks`. -/
  callbacks : ℤ → Option Callback
  epoll : Interest Callback

def fresh : State Callback := ⟨fun _ => none, fun _ => none⟩

/-- `append`, with what the callback wants and the reason epoll may have to refuse. -/
def append (s : State Callback) (descriptor : ℤ) (callback : Callback) (wantRead wantWrite : Bool)
    (failure : Option ℤ) : Except ℤ Unit × State Callback :=
  let callbacks := Function.update s.callbacks descriptor (some callback)
  match Epoll.add s.epoll descriptor ⟨callback, wantRead, wantWrite⟩ failure with
  | .error errno => (.error errno, ⟨Function.update callbacks descriptor none, s.epoll⟩)
  | .ok epoll => (.ok (), ⟨callbacks, epoll⟩)

/-- `Synchronizer::update`; a failure takes the callback away. -/
def update (s : State Callback) (descriptor : ℤ) (wantRead wantWrite : Bool)
    (failure : Option ℤ) : Except ℤ Unit × State Callback :=
  match s.callbacks descriptor with
  | none => (.error (-1), s)
  | some callback =>
    match Epoll.modify s.epoll descriptor ⟨callback, wantRead, wantWrite⟩ failure with
    | .error errno =>
      (.error errno, { s with callbacks := Function.update s.callbacks descriptor none })
    | .ok epoll => (.ok (), { s with epoll := epoll })

/-- `Synchronizer::remove`. -/
def remove (s : State Callback) (descriptor : ℤ) : State Callback :=
  match s.callbacks descriptor with
  | none => s
  | some _ => ⟨Function.update s.callbacks descriptor none, Epoll.delete s.epoll descriptor⟩

inductive Call (Callback : Type)
  | append (descriptor : ℤ) (callback : Callback) (wantRead wantWrite : Bool)
      (failure : Option ℤ)
  | update (descriptor : ℤ) (wantRead wantWrite : Bool) (failure : Option ℤ)
  | remove (descriptor : ℤ)

/-- The descriptor that a call is about. -/
def Call.descriptor : Call Callback → ℤ
  | .append descriptor _ _ _ _ | .update descriptor _ _ _ | .remove descriptor => descriptor

/-- The callback that a call brings in. -/
def Call.callback : Call Callback → Option Callback
  | .append _ callback _ _ _ => some callback
  | .update _ _ _ _ | .remove _ => none

/-- The state after a call. -/
def next (s : State Callback) : Call Callback → State Callback
  | .append descriptor callback wantRead wantWrite failure =>
    (append s descriptor callback wantRead wantWrite failure).2
  | .update descriptor wantRead wantWrite failure =>
    (update s descriptor wantRead wantWrite failure).2
  | .remove descriptor => remove s descriptor

def step (s : State Callback) (call : Call Callback) : Option (State Callback) := some (next s call)

/-! ## The map and epoll -/

/-- The map has the callback that epoll has, for every descriptor. -/
def Agrees (s : State Callback) : Prop :=
  ∀ descriptor, s.callbacks descriptor = (s.epoll descriptor).map Entry.data

/-- The registration can be updated, and removed. -/
def Works (s : State Callback) (descriptor : ℤ) : Prop :=
  (∀ wantRead wantWrite, (update s descriptor wantRead wantWrite none).1 = .ok ()) ∧
    (remove s descriptor).epoll descriptor = none

/-- A failed `append` leaves the registration that was there working. -/
def Harmless (s : State Callback) : Call Callback → Prop
  | .append descriptor callback wantRead wantWrite failure =>
    (append s descriptor callback wantRead wantWrite failure).1 ≠ .ok () →
      Works s descriptor →
        Works (append s descriptor callback wantRead wantWrite failure).2 descriptor
  | _ => True

/-- `append` is not for a descriptor that is registered, and epoll does not refuse to modify one
that is. -/
def Regular (s : State Callback) : Call Callback → Prop
  | .append descriptor _ _ _ _ => s.epoll descriptor = none
  | .update descriptor _ _ failure => s.epoll descriptor = none ∨ failure = none
  | .remove _ => True

variable {s : State Callback} {descriptor : ℤ} {callback : Callback} {wantRead wantWrite : Bool}
  {failure : Option ℤ}

/-! ## What each call does -/

/-- On a descriptor that is registered, `append` forgets the callback. -/
lemma append_registered (h : s.epoll descriptor ≠ none) :
    append s descriptor callback wantRead wantWrite failure =
      (.error Epoll.EEXIST,
        { s with callbacks := Function.update s.callbacks descriptor none }) := by
  unfold append Epoll.add
  rw [if_pos h]
  simp

/-- A refused descriptor is given up again. -/
lemma append_failed {errno : ℤ} (h : s.epoll descriptor = none)
    (hcallbacks : s.callbacks descriptor = none) :
    append s descriptor callback wantRead wantWrite (some errno) = (.error errno, s) := by
  unfold append Epoll.add
  rw [if_neg (not_not.mpr h)]
  have hsame : Function.update s.callbacks descriptor none = s.callbacks := by
    rw [← hcallbacks, Function.update_eq_self]
  simp only [Function.update_idem, hsame]

/-- A new descriptor is known to both sides. -/
lemma append_done (h : s.epoll descriptor = none) :
    append s descriptor callback wantRead wantWrite none =
      (.ok (), ⟨Function.update s.callbacks descriptor (some callback),
        Function.update s.epoll descriptor (some ⟨callback, wantRead, wantWrite⟩)⟩) := by
  unfold append Epoll.add
  rw [if_neg (not_not.mpr h)]

lemma update_unknown (h : s.callbacks descriptor = none) :
    update s descriptor wantRead wantWrite failure = (.error (-1), s) := by
  unfold update
  rw [h]

/-- If epoll refuses, `update` forgets the callback. -/
lemma update_failed {errno : ℤ} (h : s.callbacks descriptor = some callback)
    (hepoll : s.epoll descriptor ≠ none) :
    update s descriptor wantRead wantWrite (some errno) =
      (.error errno, { s with callbacks := Function.update s.callbacks descriptor none }) := by
  simp only [update, h, Epoll.modify, if_neg hepoll]

/-- The kernel does not know the descriptor, so the callback goes. -/
lemma update_lost (h : s.callbacks descriptor = some callback)
    (hepoll : s.epoll descriptor = none) :
    update s descriptor wantRead wantWrite failure =
      (.error Epoll.ENOENT,
        { s with callbacks := Function.update s.callbacks descriptor none }) := by
  simp only [update, h, Epoll.modify, if_pos hepoll]

/-- The interest changes, and nothing else. -/
lemma update_done (h : s.callbacks descriptor = some callback)
    (hepoll : s.epoll descriptor ≠ none) :
    update s descriptor wantRead wantWrite none =
      (.ok (), { s with
        epoll := Function.update s.epoll descriptor (some ⟨callback, wantRead, wantWrite⟩) }) := by
  simp only [update, h, Epoll.modify, if_neg hepoll]

lemma remove_unknown (h : s.callbacks descriptor = none) : remove s descriptor = s := by
  unfold remove
  rw [h]

/-- Both sides forget the descriptor. -/
lemma remove_known (h : s.callbacks descriptor = some callback) :
    remove s descriptor =
      ⟨Function.update s.callbacks descriptor none, Epoll.delete s.epoll descriptor⟩ := by
  unfold remove
  rw [h]

/-- The state behind a call is changed at its descriptor alone, and what is left there was brought
in or found. -/
def Confined (s : State Callback) (call : Call Callback) (s' : State Callback) : Prop :=
  ∃ callback entry,
    s' = ⟨Function.update s.callbacks call.descriptor callback,
      Function.update s.epoll call.descriptor entry⟩ ∧
    (∀ c ∈ callback, call.callback = some c ∨ s.callbacks call.descriptor = some c) ∧
    ∀ e ∈ entry, s.epoll call.descriptor = some e ∨
      call.callback = some e.data ∨ s.callbacks call.descriptor = some e.data

/-- To forget the callback is confined. -/
lemma confined_forgotten (s : State Callback) (call : Call Callback) :
    Confined s call { s with callbacks := Function.update s.callbacks call.descriptor none } :=
  ⟨none, s.epoll call.descriptor, by rw [Function.update_eq_self], by simp, fun e he => .inl he⟩

lemma confined_self {call : Call Callback} (h : s.callbacks call.descriptor = none) :
    Confined s call s := by
  refine ⟨none, s.epoll call.descriptor, ?_, by simp, fun e he => .inl he⟩
  rw [← h, Function.update_eq_self, Function.update_eq_self]

/-- Neither a success nor a failure of `append` touches another descriptor. -/
lemma confined_append (s : State Callback) (descriptor : ℤ) (callback : Callback)
    (wantRead wantWrite : Bool) (failure : Option ℤ) :
    Confined s (.append descriptor callback wantRead wantWrite failure)
      (append s descriptor callback wantRead wantWrite failure).2 := by
  by_cases hepoll : s.epoll descriptor = none
  · cases failure with
    | none =>
      rw [append_done hepoll]
      exact ⟨some callback, _, rfl, by simp [Call.callback], by simp [Call.callback]⟩
    | some errno =>
      -- what was inserted is erased again
      have hforgotten : (append s descriptor callback wantRead wantWrite (some errno)).2 =
          { s with callbacks := Function.update s.callbacks descriptor none } := by
        unfold append Epoll.add
        rw [if_neg (not_not.mpr hepoll)]
        simp only [Function.update_idem]
      rw [hforgotten]
      exact confined_forgotten s _
  -- the kernel knows the descriptor already, and the callback is given up
  · rw [append_registered hepoll]
    exact confined_forgotten s _

/-- Nor does `update`. -/
lemma confined_update (s : State Callback) (descriptor : ℤ) (wantRead wantWrite : Bool)
    (failure : Option ℤ) :
    Confined s (.update descriptor wantRead wantWrite failure)
      (update s descriptor wantRead wantWrite failure).2 := by
  cases hcallback : s.callbacks descriptor with
  | none =>
    rw [update_unknown hcallback]
    exact confined_self hcallback
  | some callback =>
    by_cases hepoll : s.epoll descriptor = none
    · rw [update_lost hcallback hepoll]
      exact confined_forgotten s _
    -- the kernel knows the descriptor; it may still refuse
    · cases failure with
      | none =>
        rw [update_done hcallback hepoll]
        refine ⟨some callback, some ⟨callback, wantRead, wantWrite⟩, ?_, ?_, ?_⟩
        · dsimp only [Call.descriptor]
          rw [← hcallback, Function.update_eq_self]
        · simp [Call.descriptor, hcallback]
        · simp [Call.descriptor, hcallback]
      | some errno =>
        rw [update_failed hcallback hepoll]
        exact confined_forgotten s _

/-- A call changes the map and epoll at its descriptor, and what it leaves there it has brought in
or found. -/
lemma next_eq (s : State Callback) (call : Call Callback) : Confined s call (next s call) := by
  cases call with
  | append descriptor callback wantRead wantWrite failure =>
    exact confined_append s descriptor callback wantRead wantWrite failure
  | update descriptor wantRead wantWrite failure =>
    exact confined_update s descriptor wantRead wantWrite failure
  | remove descriptor =>
    dsimp only [next]
    cases hcallback : s.callbacks descriptor with
    | none =>
      rw [remove_unknown hcallback]
      exact confined_self hcallback
    | some callback =>
      rw [remove_known hcallback]
      exact ⟨none, none, rfl, by simp, by simp⟩

/-! ## What a call keeps -/

lemma agrees_fresh : Agrees (fresh : State Callback) := fun _ => rfl

/-- A descriptor without a callback is one that the kernel does not know. -/
lemma Agrees.eq_none (h : Agrees s) :
    s.callbacks descriptor = none ↔ s.epoll descriptor = none := by
  rw [h descriptor, Option.map_eq_none_iff]

/-- Without its entry in the map, a registration is out of reach. -/
lemma not_agrees_of_forgotten (h : s.epoll descriptor ≠ none) :
    ¬ Agrees { s with callbacks := Function.update s.callbacks descriptor none } := by
  intro hagrees
  apply h
  rw [← hagrees.eq_none]
  exact Function.update_self _ _ _

/-- The map and the interest set change at one descriptor. -/
lemma agrees_update (h : Agrees s) (descriptor : ℤ) (entry : Option (Entry Callback)) :
    Agrees ⟨Function.update s.callbacks descriptor (entry.map Entry.data),
      Function.update s.epoll descriptor entry⟩ := by
  intro other
  by_cases hother : other = descriptor
  · subst hother
    simp
  · simpa [Function.update_of_ne hother] using h other

/-- A regular call keeps both sides in agreement. -/
lemma agrees_next {call : Call Callback} (h : Agrees s) (hregular : Regular s call) :
    Agrees (next s call) := by
  cases call with
  | append descriptor callback wantRead wantWrite failure =>
    -- a regular `append` is for a new descriptor
    have hepoll : s.epoll descriptor = none := hregular
    dsimp only [next]
    cases failure with
    | none =>
      rw [append_done hepoll]
      exact agrees_update h _ (some ⟨callback, wantRead, wantWrite⟩)
    | some errno =>
      rw [append_failed hepoll (h.eq_none.mpr hepoll)]
      exact h
  | update descriptor wantRead wantWrite failure =>
    dsimp only [next]
    cases hcallback : s.callbacks descriptor with
    | none =>
      rw [update_unknown hcallback]
      exact h
    | some callback =>
      have hepoll : s.epoll descriptor ≠ none := by
        rw [ne_eq, ← h.eq_none, hcallback]
        exact Option.some_ne_none _
      -- a regular `update` of a known descriptor is not refused
      obtain rfl : failure = none := hregular.resolve_left hepoll
      rw [update_done hcallback hepoll]
      have hsame : Function.update s.callbacks descriptor (some callback) = s.callbacks := by
        rw [← hcallback, Function.update_eq_self]
      have hnext := agrees_update h descriptor (some ⟨callback, wantRead, wantWrite⟩)
      rwa [Option.map_some, hsame] at hnext
  | remove descriptor =>
    dsimp only [next]
    cases hcallback : s.callbacks descriptor with
    | none =>
      rw [remove_unknown hcallback]
      exact h
    | some callback =>
      rw [remove_known hcallback]
      exact agrees_update h _ none

/-- A call that is not regular ends it. -/
lemma not_agrees_next {call : Call Callback} (h : Agrees s) (hregular : ¬ Regular s call) :
    ¬ Agrees (next s call) := by
  cases call with
  | append descriptor callback wantRead wantWrite failure =>
    dsimp only [next]
    rw [append_registered hregular]
    exact not_agrees_of_forgotten hregular
  | update descriptor wantRead wantWrite failure =>
    obtain ⟨hepoll, hfailure⟩ := not_or.mp hregular
    obtain ⟨errno, rfl⟩ := Option.ne_none_iff_exists'.mp hfailure
    obtain ⟨callback, hcallback⟩ :=
      Option.ne_none_iff_exists'.mp (fun hnone => hepoll (h.eq_none.mp hnone))
    dsimp only [next]
    rw [update_failed hcallback hepoll]
    exact not_agrees_of_forgotten hepoll
  | remove => exact absurd trivial hregular

/-- What is registered works. -/
lemma works_of_agrees (h : Agrees s) (hepoll : s.epoll descriptor ≠ none) : Works s descriptor := by
  obtain ⟨callback, hcallback⟩ :=
    Option.ne_none_iff_exists'.mp (fun hnone => hepoll (h.eq_none.mp hnone))
  refine ⟨fun wantRead wantWrite => ?_, ?_⟩
  · rw [update_done hcallback hepoll]
  · rw [remove_known hcallback]
    exact Epoll.delete_self

/-- Nothing is registered where `append` is regular, so there is nothing to harm. -/
lemma harmless_of_regular {call : Call Callback} (h : Agrees s) (hregular : Regular s call) :
    Harmless s call := by
  cases call with
  | append descriptor callback wantRead wantWrite failure =>
    intro _ hworks
    have hupdate := hworks.1 true true
    rw [update_unknown (h.eq_none.mpr hregular)] at hupdate
    cases hupdate
  | update | remove => trivial

lemma agrees_step {s' : State Callback} {call : Call Callback} (h : Agrees s)
    (hregular : Regular s call) (hstep : step s call = some s') : Agrees s' := by
  obtain rfl := Option.some.inj hstep
  exact agrees_next h hregular

lemma not_agrees_step {s' : State Callback} {call : Call Callback} (h : Agrees s)
    (hregular : ¬ Regular s call) (hstep : step s call = some s') : ¬ Agrees s' := by
  obtain rfl := Option.some.inj hstep
  exact not_agrees_next h hregular

/-- **The map and epoll.** They agree throughout a run, every registration works, and every failed
`append` leaves the registration that was there working, exactly if no `append` is for a descriptor
that is registered and epoll does not refuse to modify one that is. -/
theorem agrees_epoll_iff (calls : List (Call Callback)) :
    Machine.Always step
        (fun s => Agrees s ∧ ∀ descriptor, s.epoll descriptor ≠ none → Works s descriptor) fresh
        calls ∧
      Machine.Along step Harmless fresh calls ↔
    Machine.Along step Regular fresh calls := by
  have htotal : ∀ (s : State Callback) (call : Call Callback), ∃ s', step s call = some s' :=
    fun s call => ⟨next s call, rfl⟩
  obtain ⟨t, hrun⟩ := Machine.exists_run htotal fresh calls
  -- step by step, agreement is kept by the regular calls and by no others
  have hiff : Machine.Always step
      (fun s => Agrees s ∧ ∀ descriptor, s.epoll descriptor ≠ none → Works s descriptor) fresh
      calls ↔ Machine.Along step Regular fresh calls :=
    Machine.always_iff_along (fun _ h => ⟨h, fun _ => works_of_agrees h⟩)
      (fun _ _ _ h => agrees_step h)
      (fun _ _ _ h hregular hstep hgood => not_agrees_step h hregular hstep hgood.1)
      agrees_fresh hrun
  constructor
  · intro h
    exact hiff.mp h.1
  · intro h
    exact ⟨hiff.mpr h, Machine.along_of_along (fun _ _ _ h => agrees_step h)
      (fun _ _ h => harmless_of_regular h) agrees_fresh h⟩

/-- A second `append` of a descriptor erases the entry of the first one, which epoll keeps: from
then on it cannot be updated or removed. -/
theorem append_twice :
    ∃ s : State ℕ, Machine.run step fresh
        [.append 5 0 true false none, .append 5 1 true false none] = some s ∧
      s.callbacks 5 = none ∧ s.epoll 5 = some ⟨0, true, false⟩ ∧ ¬ Agrees s ∧
      (update s 5 true true none).1 = .error (-1) ∧
      (remove s 5).epoll 5 = some ⟨0, true, false⟩ := by
  refine ⟨_, rfl, by decide, by decide, ?_, by decide, by decide⟩
  intro h
  exact absurd (h 5) (by decide)

end Synchronizer
end Vng
