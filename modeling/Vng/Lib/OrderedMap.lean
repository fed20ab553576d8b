import Mathlib.Data.List.Basic
import Mathlib.Order.Lattice

/-!
# Ordered maps

The tree map of a standard library, as the list of its entries in the order of their keys.
-/

namespace OrderedMap

variable {κ β : Type*} [LinearOrder κ]

/-- `map[k] = v`. -/
def insert (k : κ) (v : β) : List (κ × β) → List (κ × β)
  | [] => [(k, v)]
  | e :: m =>
    if k < e.1 then (k, v) :: e :: m
    else if k = e.1 then (k, v) :: m
    else e :: insert k v m

/-- `map.erase(k)`. -/
def erase (k : κ) (m : List (κ × β)) : List (κ × β) := m.filter fun e => e.1 ≠ k

/-- A key above all others goes to the end. -/
lemma insert_eq_append {k : κ} {m : List (κ × β)} (h : ∀ e ∈ m, e.1 < k) (v : β) :
    insert k v m = m ++ [(k, v)] := by
  induction m with
  | nil => rfl
  | cons e m ih =>
    have he := h e List.mem_cons_self
    rw [insert, if_neg (not_lt_of_gt he), if_neg (ne_of_gt he),
      ih fun e' he' => h e' (List.mem_cons_of_mem e he'), List.cons_append]

lemma mem_erase {k : κ} {e : κ × β} {m : List (κ × β)} : e ∈ erase k m ↔ e ∈ m ∧ e.1 ≠ k := by
  unfold erase
  rw [List.mem_filter, decide_eq_true_iff]

/-- The keys are in order, each once. -/
def Sorted (m : List (κ × β)) : Prop := m.Pairwise fun a b => a.1 < b.1

/-- An entry is replaced or put in its place. -/
lemma exists_insert_eq {m : List (κ × β)} (h : Sorted m) (k : κ) (v : β) :
    ∃ front behind, insert k v m = front ++ (k, v) :: behind ∧ (∀ e ∈ front, e.1 < k) ∧
      (∀ e ∈ behind, k < e.1) ∧ (m = front ++ behind ∨ ∃ w, m = front ++ (k, w) :: behind) := by
  induction m with
  | nil => exact ⟨[], [], rfl, List.forall_mem_nil _, List.forall_mem_nil _, .inl rfl⟩
  | cons e m ih =>
    obtain ⟨hfirst, htail⟩ := List.pairwise_cons.mp h
    rw [insert]
    by_cases hlt : k < e.1
    · rw [if_pos hlt]
      refine ⟨[], e :: m, rfl, List.forall_mem_nil _, ?_, .inl rfl⟩
      exact List.forall_mem_cons.mpr ⟨hlt, fun e' he' => hlt.trans (hfirst e' he')⟩
    · rw [if_neg hlt]
      by_cases heq : k = e.1
      · subst heq
        rw [if_pos rfl]
        exact ⟨[], m, rfl, List.forall_mem_nil _, hfirst, .inr ⟨e.2, rfl⟩⟩
      · obtain ⟨front, behind, hinsert, hfront, hbehind, hm⟩ := ih htail
        have hgt : e.1 < k := lt_of_le_of_ne (not_lt.mp hlt) (Ne.symm heq)
        rw [if_neg heq, hinsert]
        refine ⟨e :: front, behind, rfl, List.forall_mem_cons.mpr ⟨hgt, hfront⟩, hbehind, ?_⟩
        rcases hm with hm | ⟨w, hm⟩
        · exact .inl (congrArg (e :: ·) hm)
        · exact .inr ⟨w, congrArg (e :: ·) hm⟩

lemma Sorted.insert {m : List (κ × β)} (h : Sorted m) (k : κ) (v : β) :
    Sorted (insert k v m) := by
  obtain ⟨front, behind, hinsert, hfront, hbehind, hm⟩ := exists_insert_eq h k v
  have hparts : Sorted front ∧ Sorted behind := by
    rcases hm with rfl | ⟨w, rfl⟩
    · obtain ⟨hf, hb, -⟩ := List.pairwise_append.mp h
      exact ⟨hf, hb⟩
    · obtain ⟨hf, hb, -⟩ := List.pairwise_append.mp h
      exact ⟨hf, (List.pairwise_cons.mp hb).2⟩
  rw [hinsert]
  refine List.pairwise_append.mpr ⟨hparts.1, List.pairwise_cons.mpr ⟨hbehind, hparts.2⟩, ?_⟩
  intro a ha b hb
  rcases List.mem_cons.mp hb with rfl | hb
  · exact hfront a ha
  · exact (hfront a ha).trans (hbehind b hb)

lemma Sorted.erase {m : List (κ × β)} (h : Sorted m) (k : κ) : Sorted (erase k m) :=
  h.sublist List.filter_sublist

/-- Nothing but the entry of the key goes. -/
lemma exists_erase_eq {m : List (κ × β)} {k : κ} {v : β} (h : Sorted m) (hmem : (k, v) ∈ m) :
    ∃ front behind, m = front ++ (k, v) :: behind ∧ erase k m = front ++ behind := by
  obtain ⟨front, behind, rfl⟩ := List.append_of_mem hmem
  obtain ⟨-, hbehind, hfront⟩ := List.pairwise_append.mp h
  refine ⟨front, behind, rfl, ?_⟩
  have hkeepFront : front.filter (fun e => e.1 ≠ k) = front := by
    refine List.filter_eq_self.mpr fun e he => decide_eq_true ?_
    exact (hfront e he (k, v) List.mem_cons_self).ne
  have hkeepBehind : behind.filter (fun e => e.1 ≠ k) = behind := by
    refine List.filter_eq_self.mpr fun e he => decide_eq_true ?_
    exact ((List.pairwise_cons.mp hbehind).1 e he).ne'
  rw [OrderedMap.erase, List.filter_append, List.filter_cons_of_neg, hkeepFront, hkeepBehind]
  exact fun hne => of_decide_eq_true hne rfl

end OrderedMap
