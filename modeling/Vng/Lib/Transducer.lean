import Mathlib.Data.List.Basic

/-!
# Transducers

A machine that consumes a stream one symbol at a time and emits a list of outputs at each
symbol. `run` folds it over a list. `run_flatten` says that a machine fed in chunks, each chunk
folded by the machine itself, does not see where the chunks end.
-/

namespace Transducer

variable {σ α β : Type*}

/-- Feed a list of symbols to the machine `step` in state `s`: the state it ends in, and what
it emitted on the way. -/
def run (step : σ → α → σ × List β) (s : σ) : List α → σ × List β
  | [] => (s, [])
  | a :: l =>
    let next := step s a
    let rest := run step next.1 l
    (rest.1, next.2 ++ rest.2)

@[simp] lemma run_nil (step : σ → α → σ × List β) (s : σ) : run step s [] = (s, []) := rfl

@[simp] lemma run_cons (step : σ → α → σ × List β) (s : σ) (a : α) (l : List α) :
    run step s (a :: l) =
      ((run step (step s a).1 l).1, (step s a).2 ++ (run step (step s a).1 l).2) := rfl

lemma run_append (step : σ → α → σ × List β) (s : σ) (l m : List α) :
    run step s (l ++ m) =
      ((run step (run step s l).1 m).1, (run step s l).2 ++ (run step (run step s l).1 m).2) := by
  induction l generalizing s with
  | nil => rfl
  | cons a l ih => simp only [List.cons_append, run_cons, ih, List.append_assoc]

/-- **Chunk independence.** Cutting the input into chunks changes nothing. -/
theorem run_flatten (step : σ → α → σ × List β) (s : σ) (chunks : List (List α)) :
    run (run step) s chunks = run step s chunks.flatten := by
  induction chunks generalizing s with
  | nil => rfl
  | cons c chunks ih => rw [List.flatten_cons, run_append, run_cons, ih]

/-- A symbol of the whole input is a symbol of one chunk. -/
lemma exists_chunk {chunks : List (List α)} {before after : List α} {a : α}
    (h : chunks.flatten = before ++ a :: after) :
    ∃ done chunk rest later, chunks = done ++ (chunk ++ a :: rest) :: later ∧
      done.flatten ++ chunk = before := by
  rcases List.flatten_eq_append_iff.mp h with
    ⟨done, later, rfl, rfl, hlater⟩ | ⟨done, chunk, c, cs, later, rfl, rfl, hc⟩
  · -- the symbol starts a chunk, behind empty ones
    obtain ⟨empty, rest, later', rfl, hempty, -⟩ := List.flatten_eq_cons_iff.mp hlater.symm
    refine ⟨done ++ empty, [], rest, later', by simp, ?_⟩
    rw [List.append_nil, List.flatten_append, List.flatten_eq_nil_iff.mpr hempty, List.append_nil]
  · simp only [List.cons_append, List.cons.injEq] at hc
    obtain ⟨rfl, -⟩ := hc
    exact ⟨done, chunk, cs, later, rfl, rfl⟩

/-- **Simulation rule.** Machines whose steps keep their states related and emit the same emit the
same on every input. -/
theorem run_simulates {τ : Type*} {step : σ → α → σ × List β} {step' : τ → α → τ × List β}
    {R : σ → τ → Prop}
    (h : ∀ s t a, R s t → R (step s a).1 (step' t a).1 ∧ (step s a).2 = (step' t a).2)
    {s : σ} {t : τ} (hs : R s t) (l : List α) :
    R (run step s l).1 (run step' t l).1 ∧ (run step s l).2 = (run step' t l).2 := by
  induction l generalizing s t with
  | nil => exact ⟨hs, rfl⟩
  | cons a l ih =>
    obtain ⟨hnext, hout⟩ := h s t a hs
    obtain ⟨hend, hrest⟩ := ih hnext
    exact ⟨hend, by rw [run_cons, run_cons, hout, hrest]⟩

/-- A machine that emits `f b` and returns to `s` on each block `g b` emits the `f b` in order
on the blocks put one after another. -/
theorem run_blocks {γ : Type*} {step : σ → α → σ × List β} {s : σ} {g : γ → List α}
    {f : γ → List β} {l : List γ} (h : ∀ b ∈ l, run step s (g b) = (s, f b)) :
    run step s (l.flatMap g) = (s, l.flatMap f) := by
  induction l with
  | nil => rfl
  | cons b l ih =>
    have hrest := ih fun c hc => h c (List.mem_cons_of_mem b hc)
    rw [List.flatMap_cons, List.flatMap_cons, run_append, h b List.mem_cons_self, hrest]

end Transducer
