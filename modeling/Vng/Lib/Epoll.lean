import Mathlib.Data.Int.Notation
import Mathlib.Logic.Function.Basic
import Mathlib.Tactic.Common

/-!
# The interest set of an epoll instance

Which descriptors are watched, for which events, and with which data. The calls that change the
set fail where the kernel says so, and may fail for reasons of its own.
-/

namespace Epoll

/-- A registration: the data that its events carry, and the events it asks for. -/
structure Entry (δ : Type) where
  data : δ
  readable : Bool
  writable : Bool
deriving DecidableEq, Repr

abbrev Interest (δ : Type) := ℤ → Option (Entry δ)

def ENOENT : ℤ := 2
def EEXIST : ℤ := 17

variable {δ : Type}

/-- `EPOLL_CTL_ADD`; `failure` is another reason to fail, if there is one. -/
def add (interest : Interest δ) (descriptor : ℤ) (entry : Entry δ) (failure : Option ℤ) :
    Except ℤ (Interest δ) :=
  if interest descriptor ≠ none then .error EEXIST
  else
    match failure with
    | some errno => .error errno
    | none => .ok (Function.update interest descriptor (some entry))

/-- `EPOLL_CTL_MOD`. -/
def modify (interest : Interest δ) (descriptor : ℤ) (entry : Entry δ) (failure : Option ℤ) :
    Except ℤ (Interest δ) :=
  if interest descriptor = none then .error ENOENT
  else
    match failure with
    | some errno => .error errno
    | none => .ok (Function.update interest descriptor (some entry))

/-- `EPOLL_CTL_DEL`, and what closing the descriptor does. -/
def delete (interest : Interest δ) (descriptor : ℤ) : Interest δ :=
  Function.update interest descriptor none

@[simp] lemma delete_self {interest : Interest δ} {descriptor : ℤ} :
    delete interest descriptor descriptor = none := by
  unfold delete
  rw [Function.update_self]

end Epoll
