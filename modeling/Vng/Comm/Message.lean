import Vng.Host
import Vng.Lib.Memory

/-!
# `comm::Message`

`Message::fill` of `commmessage.cpp` writes the header through casts, at offsets taken from the
sizes of its variables, and leaves what is behind it to the subclass. `fill_eq` says what the
packet is then, whatever the vector held before.
-/

namespace Vng
namespace Comm

open Memory (Checked ok_bind storeAll)

/-- An instance of a subclass: what `id()` and `size()` return, and what its `fill` writes. -/
structure Message where
  id : Word
  size : Word
  body : List Byte
  body_length : body.length = size.toNat

/-- `std::vector::resize`: the elements that fit stay. -/
def resizeTo (packet : List Byte) (size : ℕ) : Checked (Vector Byte size) :=
  if size < maxSize then
    .ok (Vector.ofFn fun i : Fin size => packet.getD i 0)
  else .error .lengthError

/-- `Message::fill(Packet &)`. -/
def Message.fill (message : Message) (packet : List Byte) : Checked (List Byte) := do
  let size := message.size
  let payload ← resizeTo packet (2 + 2 + size.toNat)
  let payload ← storeAll payload 0 (wordBytes message.id)
  -- behind `sizeof(size)` bytes, which are as many as those of the id
  let payload ← storeAll payload 2 (wordBytes size)
  let payload ← storeAll payload (2 + 2) message.body
  return payload.toList

/-- The packet is the id, the size and the body. -/
theorem Message.fill_eq (message : Message) (packet : List Byte) :
    message.fill packet =
      .ok (wordBytes message.id ++ wordBytes message.size ++ message.body) := by
  have hsize : 2 + 2 + message.size.toNat < maxSize := by
    unfold maxSize
    omega
  have hlength : (wordBytes message.id ++ wordBytes message.size ++ message.body).length =
      2 + 2 + message.size.toNat := by
    rw [List.length_append, List.length_append, length_wordBytes, length_wordBytes,
      message.body_length]
  unfold fill resizeTo
  dsimp only
  rw [if_pos hsize, ok_bind]
  generalize Vector.ofFn (fun i : Fin (2 + 2 + message.size.toNat) => packet.getD i 0) = payload
  -- the three writes are one, and it fills the packet
  obtain ⟨payload', hstore, hlist⟩ := Memory.storeAll_whole payload hlength
  rw [Memory.storeAll_append, Memory.storeAll_append, bind_assoc, List.length_append,
    length_wordBytes, length_wordBytes] at hstore
  simp only [Nat.zero_add] at hstore
  obtain ⟨payload₁, h₁, hrest⟩ := Memory.bind_eq_ok_iff.mp hstore
  obtain ⟨payload₂, h₂, h₃⟩ := Memory.bind_eq_ok_iff.mp hrest
  rw [h₁, ok_bind, h₂, ok_bind, h₃, ok_bind, ← hlist]
  rfl

end Comm
end Vng
