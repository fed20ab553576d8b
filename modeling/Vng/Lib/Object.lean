import Vng.Lib.Memory

/-!
# Pointers and the objects behind them

A pointer is known by what it points to: nothing that was ever set, nothing, an object, or an
object that has been deleted. To use anything but an object is a fault, so a program that ends
with `.ok` has used what was there.
-/

namespace Object

open Memory (Checked Succeeds succeeds_ok)

/-- A pointer. -/
inductive Pointer
  /-- It was never set. -/
  | indeterminate
  | null
  /-- To an object. -/
  | live
  /-- To an object that was deleted. -/
  | deleted
deriving DecidableEq, Repr

/-- Access the object. -/
def use : Pointer → Checked Unit
  | .live => .ok ()
  | _ => .error .outOfBounds

/-- `delete`: the pointer itself stays as it is. -/
def delete : Pointer → Checked Pointer
  | .live => .ok .deleted
  | .null => .ok .null
  | _ => .error .outOfBounds

/-- The comparison with `NULL`. It reads the pointer, and not what is behind it. -/
def isNull : Pointer → Checked Bool
  | .indeterminate => .error .outOfBounds
  | .null => .ok true
  | _ => .ok false

@[simp] lemma use_live : use .live = .ok () := rfl

@[simp] lemma delete_live : delete .live = .ok .deleted := rfl

@[simp] lemma delete_null : delete .null = .ok .null := rfl

@[simp] lemma isNull_null : isNull .null = .ok true := rfl

@[simp] lemma isNull_live : isNull .live = .ok false := rfl

/-- Only an object that is alive can be used. -/
lemma use_of_ne {p : Pointer} (h : p ≠ .live) : use p = .error .outOfBounds := by
  cases p with
  | live => exact absurd rfl h
  | _ => rfl

variable {σ ε : Type} {f : σ → ε → Checked σ}

/-- What every event keeps, and needs to go on, makes a whole run end without a fault. -/
lemma succeeds_foldlM (Inv : σ → Prop) {events : List ε}
    (hstep : ∀ s, Inv s → ∀ e ∈ events, ∃ s', f s e = .ok s' ∧ Inv s') {s : σ} (h : Inv s) :
    Succeeds (events.foldlM f s) := by
  induction events generalizing s with
  | nil => exact succeeds_ok s
  | cons e events ih =>
    obtain ⟨s', hs', hinv⟩ := hstep s h e List.mem_cons_self
    rw [List.foldlM_cons, hs', Memory.ok_bind]
    exact ih (fun t ht e' he' => hstep t ht e' (List.mem_cons_of_mem e he')) hinv

end Object
