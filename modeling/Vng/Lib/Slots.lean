import Mathlib.Data.Fintype.Card
import Mathlib.Tactic.Common

/-!
# Slots that hold a set

A table of `n` slots, each empty or with a value, no value twice. Whichever free slot a value is
put into, the table holds the set with the value; it takes up to `n` values.
-/

namespace Slots

variable {α : Type*} {n : ℕ} {slots : Fin n → Option α} {values : Finset α}
  {i : Fin n} {a : α}

/-- The slots hold these values, each once. -/
structure Holds (slots : Fin n → Option α) (values : Finset α) : Prop where
  mem_iff : ∀ a, a ∈ values ↔ ∃ i, slots i = some a
  once : ∀ i j a, slots i = some a → slots j = some a → i = j

lemma holds_empty : Holds (fun _ : Fin n => (none : Option α)) ∅ where
  mem_iff a := by simp
  once i j a h := by cases h

/-- Clearing a slot takes its value out. -/
lemma Holds.clear [DecidableEq α] (h : Holds slots values) (hi : slots i = some a) :
    Holds (Function.update slots i none) (values.erase a) where
  mem_iff b := by
    rw [Finset.mem_erase, h.mem_iff]
    constructor
    · rintro ⟨hne, j, hj⟩
      have hji : j ≠ i := by
        rintro rfl
        exact hne (Option.some.inj (hj.symm.trans hi))
      exact ⟨j, by rwa [Function.update_of_ne hji]⟩
    · rintro ⟨j, hj⟩
      by_cases hji : j = i
      · rw [hji, Function.update_self] at hj
        cases hj
      · rw [Function.update_of_ne hji] at hj
        refine ⟨?_, j, hj⟩
        rintro rfl
        exact hji (h.once j i b hj hi)
  once j k b hj hk := by
    by_cases hji : j = i
    · rw [hji, Function.update_self] at hj
      cases hj
    · by_cases hki : k = i
      · rw [hki, Function.update_self] at hk
        cases hk
      · rw [Function.update_of_ne hji] at hj
        rw [Function.update_of_ne hki] at hk
        exact h.once j k b hj hk

/-- A value that is not there can be put into any free slot. -/
lemma Holds.put [DecidableEq α] (h : Holds slots values) (hi : slots i = none) (ha : a ∉ values) :
    Holds (Function.update slots i (some a)) (insert a values) where
  mem_iff b := by
    rw [Finset.mem_insert, h.mem_iff]
    constructor
    · rintro (rfl | ⟨j, hj⟩)
      · exact ⟨i, Function.update_self ..⟩
      · have hji : j ≠ i := by
          rintro rfl
          rw [hi] at hj
          cases hj
        exact ⟨j, by rwa [Function.update_of_ne hji]⟩
    · rintro ⟨j, hj⟩
      by_cases hji : j = i
      · rw [hji, Function.update_self, Option.some.injEq] at hj
        exact .inl hj.symm
      · rw [Function.update_of_ne hji] at hj
        exact .inr ⟨j, hj⟩
  once j k b hj hk := by
    have hold : ∀ l, l ≠ i → Function.update slots i (some a) l = some b → b ∈ values := by
      intro l hl hb
      rw [Function.update_of_ne hl] at hb
      exact (h.mem_iff b).mpr ⟨l, hb⟩
    by_cases hji : j = i <;> by_cases hki : k = i
    · rw [hji, hki]
    · rw [hji, Function.update_self, Option.some.injEq] at hj
      exact absurd (hj ▸ hold k hki hk) ha
    · rw [hki, Function.update_self, Option.some.injEq] at hk
      exact absurd (hk ▸ hold j hji hj) ha
    · rw [Function.update_of_ne hji] at hj
      rw [Function.update_of_ne hki] at hk
      exact h.once j k b hj hk

/-- There are as many values as slots that are not free. -/
lemma Holds.card_eq (h : Holds slots values) :
    values.card = (Finset.univ.filter fun i => (slots i).isSome).card := by
  symm
  apply Finset.card_bij fun i hi => (slots i).get (Finset.mem_filter.mp hi).2
  · intro i hi
    exact (h.mem_iff _).mpr ⟨i, (Option.some_get _).symm⟩
  · intro i hi j hj heq
    exact h.once i j _ (Option.some_get _).symm
      ((Option.some_get _).symm.trans (congrArg some heq.symm))
  · intro a ha
    obtain ⟨i, hi⟩ := (h.mem_iff a).mp ha
    exact ⟨i, by simp [hi], by simp [hi]⟩

/-- **A slot is free exactly while fewer values than slots are held.** -/
theorem Holds.card_lt_iff (h : Holds slots values) : values.card < n ↔ ∃ i, slots i = none := by
  rw [h.card_eq]
  constructor
  · intro hlt
    by_contra hnone
    have hall : Finset.univ.filter (fun i => (slots i).isSome) = Finset.univ := by
      apply Finset.filter_true_of_mem
      intro i _
      exact Option.isSome_iff_ne_none.mpr fun hi => hnone ⟨i, hi⟩
    rw [hall, Finset.card_univ, Fintype.card_fin] at hlt
    exact lt_irrefl n hlt
  · rintro ⟨i, hi⟩
    have hne : Finset.univ.filter (fun i => (slots i).isSome) ≠ Finset.univ := by
      intro hall
      have hmem : i ∈ Finset.univ.filter (fun i => (slots i).isSome) := by
        rw [hall]
        exact Finset.mem_univ i
      simp [hi] at hmem
    have hlt := Finset.card_lt_card (Finset.ssubset_univ_iff.mpr hne)
    rwa [Finset.card_univ, Fintype.card_fin] at hlt

end Slots
