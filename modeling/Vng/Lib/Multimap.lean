import Mathlib.Data.List.Basic
import Mathlib.Data.List.TakeWhile
import Mathlib.Tactic.Common

/-!
# Ordered multimaps

The multimap of a standard library: the list of its entries in the order of their keys, those of
one key in the order of their insertion. An iterator is a position in the list.
-/

/-- A list of pairs in the order of their keys; a key may occur more than once. -/
structure Multimap (κ β : Type*) [LE κ] where
  entries : List (κ × β)
  sorted : entries.Pairwise fun e e' => e.1 ≤ e'.1

namespace Multimap

variable {κ β : Type*} [LE κ]

/-- No entries. -/
def empty : Multimap κ β := ⟨[], List.Pairwise.nil⟩

omit [LE κ] in
lemma map_fst_modify (m : List (κ × β)) (i : ℕ) (v : β) :
    (m.modify i fun e => (e.1, v)).map Prod.fst = m.map Prod.fst := by
  apply List.ext_getElem?
  intro j
  rw [List.getElem?_map, List.getElem?_map, List.getElem?_modify]
  by_cases hj : i = j <;> simp [hj, Function.comp_def]

/-- `iterator->second = v`. -/
def assign (m : Multimap κ β) (i : ℕ) (v : β) : Multimap κ β where
  entries := m.entries.modify i fun e => (e.1, v)
  sorted := by
    have hsorted := (List.pairwise_map (R := (· ≤ ·))).mpr m.sorted
    rw [← map_fst_modify m.entries i v] at hsorted
    exact List.pairwise_map.mp hsorted

/-- Assigning a value changes one entry. -/
lemma getElem?_assign (m : Multimap κ β) (i j : ℕ) (v : β) :
    (m.assign i v).entries[j]? =
      if i = j then m.entries[j]?.map fun e => (e.1, v) else m.entries[j]? := by
  unfold assign
  dsimp only
  rw [List.getElem?_modify]
  split_ifs with h
  · rfl
  · exact Option.map_id_apply

variable [LT κ] [Std.IsLinearOrder κ] [Std.LawfulOrderLT κ] [DecidableLT κ]

/-- The entries behind an insertion, which goes behind all entries of its key. -/
def insertEntry (k : κ) (v : β) : List (κ × β) → List (κ × β)
  | [] => [(k, v)]
  | e :: m => if k < e.1 then (k, v) :: e :: m else e :: insertEntry k v m

omit [LE κ] [Std.IsLinearOrder κ] [Std.LawfulOrderLT κ] in
/-- Inserting adds one entry. -/
lemma perm_insertEntry (k : κ) (v : β) (m : List (κ × β)) :
    (insertEntry k v m).Perm ((k, v) :: m) := by
  induction m with
  | nil => exact List.Perm.refl _
  | cons e m ih =>
    unfold insertEntry
    split_ifs
    · exact List.Perm.refl _
    · exact (ih.cons e).trans (List.Perm.swap _ _ _)

/-- The new entry goes behind those with the same key. -/
lemma sorted_insertEntry (k : κ) (v : β) {m : List (κ × β)}
    (h : m.Pairwise fun e e' => e.1 ≤ e'.1) :
    (insertEntry k v m).Pairwise fun e e' => e.1 ≤ e'.1 := by
  induction m with
  | nil => exact List.pairwise_singleton _ _
  | cons e m ih =>
    obtain ⟨hhead, htail⟩ := List.pairwise_cons.mp h
    unfold insertEntry
    split_ifs with hlt
    -- in front of the first entry with a greater key
    · have hle : k ≤ e.1 := Std.le_of_lt hlt
      refine List.pairwise_cons.mpr ⟨fun e' he' => ?_, h⟩
      rcases List.mem_cons.mp he' with rfl | hmem
      · exact hle
      · exact Std.le_trans hle (hhead e' hmem)
    -- further behind; the entry at the front is not greater than the new key
    · refine List.pairwise_cons.mpr ⟨fun e' he' => ?_, ih htail⟩
      rcases List.mem_cons.mp ((perm_insertEntry k v m).mem_iff.mp he') with rfl | hmem
      · exact Std.not_lt.mp hlt
      · exact hhead e' hmem

/-- `insert` of a multimap. -/
def insert (m : Multimap κ β) (k : κ) (v : β) : Multimap κ β :=
  ⟨insertEntry k v m.entries, sorted_insertEntry k v m.sorted⟩

/-- `lower_bound`. -/
def lowerBound (m : Multimap κ β) (k : κ) : ℕ := (m.entries.takeWhile fun e => e.1 < k).length

/-- An iterator at the lower bound parts the entries below the key from the others. -/
lemma lowerBound_spec (m : Multimap κ β) (k : κ) :
    ∃ before after, m.entries = before ++ after ∧ before.length = m.lowerBound k ∧
      (∀ e ∈ before, e.1 < k) ∧ ∀ e ∈ after, k ≤ e.1 := by
  refine ⟨m.entries.takeWhile fun e => e.1 < k, m.entries.dropWhile fun e => e.1 < k,
    List.takeWhile_append_dropWhile.symm, rfl, fun e he => ?_, ?_⟩
  · simpa using List.mem_takeWhile_imp he
  · have hsorted := m.sorted.sublist (List.dropWhile_sublist fun e => e.1 < k)
    cases hafter : m.entries.dropWhile fun e => e.1 < k with
    | nil => simp
    | cons first rest =>
      -- the first entry behind the bound is the one that stopped the search
      have hnot : ¬ first.1 < k := by
        have hhead := List.head?_dropWhile_not (fun e : κ × β => decide (e.1 < k)) m.entries
        simpa [hafter] using hhead
      rw [hafter] at hsorted
      have hle : k ≤ first.1 := Std.not_lt.mp hnot
      intro e he
      rcases List.mem_cons.mp he with rfl | hmem
      · exact hle
      · exact Std.le_trans hle ((List.pairwise_cons.mp hsorted).1 e hmem)

end Multimap
