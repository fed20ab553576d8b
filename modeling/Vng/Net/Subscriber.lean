import Vng.Host
import Vng.Lib.Memory

/-!
# `net::Subscriber`, the receiving side

`received` of `netsubscribe.cpp` reads the header of a packet in place and hands its fields to
`parse`, which each service overrides. `payload` points into the packet, so what a parser can
read from it without a fault ends where the packet ends, whatever the size field says.
-/

namespace Vng
namespace Subscriber

open Memory (Checked)

/-- `struct Event`, with the bytes of the packet that lie behind its header. -/
structure Event where
  id : Word
  size : Word
  payload : List Byte
deriving DecidableEq, Repr

/-- `sizeof(Event)`. -/
def headerSize : ℕ := 4

/-- The event that `received` hands to `parse`, if it calls `parse`. -/
def event (packet : List Byte) : Option Event :=
  if headerSize > packet.length then none
  -- the check of `event->size` against the packet is commented out in the source
  else
    some {
      id := wordOf (packet.getD 0 0) (packet.getD 1 0)
      size := wordOf (packet.getD 2 0) (packet.getD 3 0)
      payload := packet.drop headerSize }

/-- `Subscriber::parse`: the command for a message, if any. -/
abbrev Parse (Command : Type) :=
  (id : Word) → (payload : List Byte) → (size : Word) → Checked (Option Command)

variable {Command : Type}

/-- `Private::received`: the command that is scheduled. -/
def received (parse : Parse Command) (packet : List Byte) : Checked (Option Command) :=
  match event packet with
  | none => .ok none
  | some event => parse event.id event.payload event.size

/-! ## Trust in the size field -/

/-- A parser that reads nothing behind the first `size` bytes of the payload. -/
def TrustsSize (parse : Parse Command) : Prop :=
  ∀ id payload, ∀ size : Word, size.toNat ≤ payload.length →
    ∃ command, parse id payload size = .ok command

/-- The packet contains the payload that its header announces. -/
def Contains (packet : List Byte) (event : Event) : Prop :=
  headerSize + event.size.toNat ≤ packet.length

lemma contains_iff {packet : List Byte} {e : Event} (h : event packet = some e) :
    Contains packet e ↔ e.size.toNat ≤ e.payload.length := by
  unfold event at h
  split_ifs at h with hshort
  obtain rfl := Option.some.inj h
  unfold Contains
  rw [List.length_drop]
  omega

/-- A packet with all of its payload is safe for a parser that trusts the size field. -/
lemma received_eq_ok {parse : Parse Command} (hparse : TrustsSize parse) {packet : List Byte}
    (h : ∀ e, event packet = some e → Contains packet e) :
    ∃ command, received parse packet = .ok command := by
  unfold received
  cases hevent : event packet with
  | none => exact ⟨none, rfl⟩
  | some e => exact hparse e.id e.payload e.size ((contains_iff hevent).mp (h e hevent))

/-- The little-endian size field of the header. -/
def sizeField (packet : List Byte) : ℕ := (wordOf (packet.getD 2 0) (packet.getD 3 0)).toNat

/-- **The size field.** `parse` is called only with a payload that is there, and no parser that
trusts the size field faults, exactly if the packet is too short for a header or not too short
for its size field. -/
theorem received_safe_iff (packet : List Byte) :
    ((∀ e, event packet = some e → Contains packet e) ∧
      ∀ (Command : Type) (parse : Parse Command), TrustsSize parse →
        ∃ command, received parse packet = .ok command) ↔
      packet.length < 4 ∨ 4 + sizeField packet ≤ packet.length := by
  have hevents : (∀ e, event packet = some e → Contains packet e) ↔
      packet.length < 4 ∨ 4 + sizeField packet ≤ packet.length := by
    unfold event
    split_ifs with hshort
    · exact iff_of_true (fun e he => by cases he) (.inl hshort)
    · have hlong : ¬packet.length < 4 := hshort
      simp only [Option.some.injEq, forall_eq', hlong, false_or]
      rfl
  constructor
  · intro h
    exact hevents.mp h.1
  · intro h
    have hcontains := hevents.mpr h
    exact ⟨hcontains, fun _ _ hparse => received_eq_ok hparse hcontains⟩

end Subscriber
end Vng
