import Vng.Ble.GapPacketTheorems

/-!
# Packets made by `setPayload`

`setPayload` copies the fields of an advertisement one by one. Where it returns 0 the packet holds
complete fields with zeros behind them, and `field` finds the first one of a type; where it is
given no more bytes than a packet has, it writes nothing behind the packet.
-/

namespace Vng
namespace Gap

open Ltv (Item encode size size_append size_cons)
open Memory (Checked Succeeds ok_bind bind_eq_ok_iff loadAt loadAll loadAll_eq_ok store storeAll)

/-- The layout of fields that the walk starts at; two of them may have one type. -/
structure Fields (s : Packet) (items : List Item) : Prop where
  layout : Layout s items
  visible : Visible 0 items
  types : ∀ i ∈ items, i.type ≠ 0

variable {s s' : Packet} {items : List Item} {i : Item} {source : List Byte} {bytes : Byte}

lemma fields_fresh : Fields fresh [] := ⟨layout_fresh, trivial, by simp⟩

/-- The writes of one round are one copy of the field's encoding. -/
lemma copy_eq_ok (h : Layout s items)
    (hfit : size items + (i.value.length + 2) ≤ BLE_PAYLOAD_SIZE) :
    ∃ payload₁ payload₂ payload₃, store s.payload (s.length.toNat + 1) i.type = .ok payload₁ ∧
      store payload₁ s.length.toNat (BitVec.ofNat 8 (i.value.length + 1)) = .ok payload₂ ∧
      storeAll payload₂ (s.length.toNat + 2) i.value = .ok payload₃ ∧
      Layout ⟨payload₃, s.length + (BitVec.ofNat 8 (i.value.length + 1) + 1)⟩ (items ++ [i]) := by
  have hsize : size (items ++ [i]) = size items + (i.value.length + 2) := by
    rw [size_append, Ltv.size_singleton]
  have hlength : s.length.toNat = (encode items).length := h.length
  -- the zeros behind the fields: the two bytes in front, the value, and the rest
  have hblank : s.payload.toList = (encode items ++ [0]) ++
      0 :: (List.replicate i.value.length 0 ++
        List.replicate (BLE_PAYLOAD_SIZE - size (items ++ [i])) 0) := by
    rw [h.payload, List.append_assoc, ← List.replicate_add, List.singleton_append,
      ← List.replicate_succ, ← List.replicate_succ, hsize]
    congr 2
    omega
  obtain ⟨payload₁, hstore₁, h₁⟩ := Memory.store_eq_ok i.type hblank
  rw [List.append_assoc, List.singleton_append] at h₁
  obtain ⟨payload₂, hstore₂, h₂⟩ :=
    Memory.store_eq_ok (BitVec.ofNat 8 (i.value.length + 1)) h₁
  have hbody : payload₂.toList =
      (encode items ++ [BitVec.ofNat 8 (i.value.length + 1), i.type]) ++
        List.replicate i.value.length 0 ++
        List.replicate (BLE_PAYLOAD_SIZE - size (items ++ [i])) 0 := by
    rw [h₂]
    simp
  obtain ⟨payload₃, hstore₃, h₃⟩ :=
    Memory.storeAll_eq_ok i.value hbody (List.length_replicate ..)
  rw [List.length_append, List.length_cons, List.length_nil] at hstore₁
  rw [List.length_append, List.length_cons, List.length_cons, List.length_nil] at hstore₃
  refine ⟨payload₁, payload₂, payload₃, ?_, ?_, ?_, ?_, ?_⟩
  · rw [hlength]
    exact hstore₁
  · rw [hlength]
    exact hstore₂
  · rw [hlength]
    exact hstore₃
  · rw [h₃, Ltv.encode_append, Ltv.encode_singleton]
    simp [Item.encode]
  · unfold BLE_PAYLOAD_SIZE at hfit
    rw [hsize, toNat_add_size, h.length]
    omega

lemma fields_append (h : Fields s items) (hlayout : Layout s' (items ++ [i])) (hzero : i.type ≠ 0)
    (hvisible : size items < BLE_PAYLOAD_SIZE - 2) : Fields s' (items ++ [i]) := by
  refine ⟨hlayout, visible_append.mpr ⟨h.visible, by rwa [Nat.zero_add]⟩, ?_⟩
  intro j hj
  rcases List.mem_append.mp hj with hold | hnew
  · exact h.types j hold
  · rwa [List.mem_singleton.mp hnew]

/-! ## The loop -/

/-- A round that comes to copy a field of `length` bytes behind its length byte. -/
lemma setPayloadFrom_copy {type length : Byte} (fuel : ℕ) (hlayout : Layout s items)
    (hsize : size items + 2 < bytes.toNat) (hvisible : size items < BLE_PAYLOAD_SIZE - 2)
    (htype : loadAt source (size items + 1) = .ok type) (hzero : type ≠ 0)
    (hlength : loadAt source (size items) = .ok length) (hone : 1 ≤ length.toNat)
    (hfit : size items + length.toNat + 1 ≤ bytes.toNat) :
    setPayloadFrom source bytes (fuel + 1) s = (do
      let payload ← store s.payload (size items + 1) type
      let payload ← store payload (size items) length
      let value ← loadAll source (size items + 2) (length.toNat - 1)
      let payload ← storeAll payload (size items + 2) value
      setPayloadFrom source bytes fuel ⟨payload, s.length + (length + 1)⟩) := by
  unfold setPayloadFrom
  dsimp only
  rw [hlayout.length, if_pos ⟨by omega, hvisible⟩, htype, ok_bind, if_neg hzero, hlength, ok_bind,
    if_neg (by omega), if_neg (by omega)]
  cases fuel <;> rfl

/-- Why a round ends the loop, and what it returns. -/
inductive Ends (source : List Byte) (bytes : Byte) (position : ℕ) : ℤ → Prop
  | short (h : bytes.toNat ≤ position + 2 ∨ BLE_PAYLOAD_SIZE - 2 ≤ position) :
    Ends source bytes position 0
  | typeZero (h : loadAt source (position + 1) = .ok 0) : Ends source bytes position 0
  | refused {length type : Byte} (hround : position + 2 < bytes.toNat)
    (hlength : loadAt source position = .ok length)
    (htype : loadAt source (position + 1) = .ok type) (hzero : type ≠ 0)
    (h : length.toNat < 1 ∨ bytes.toNat < position + length.toNat + 1) :
    Ends source bytes position (-1)

/-- The field at a position ends inside the size, but not inside a packet. -/
def LongAt (source : List Byte) (bytes : Byte) (position : ℕ) : Prop :=
  ∃ i tail, source.drop position = Item.encode i ++ tail ∧ i.type ≠ 0 ∧
    position < BLE_PAYLOAD_SIZE - 2 ∧ BLE_PAYLOAD_SIZE < position + (i.value.length + 2) ∧
    position + (i.value.length + 2) ≤ bytes.toNat

lemma setPayloadFrom_stop (fuel : ℕ) (h : Layout s items)
    (hloop : ¬(size items + 2 < bytes.toNat ∧ size items < BLE_PAYLOAD_SIZE - 2)) :
    setPayloadFrom source bytes (fuel + 1) s = .ok (0, s) := by
  unfold setPayloadFrom
  dsimp only
  rw [h.length, if_neg (by omega)]
  rfl

/-- A round that does not come to copy a field. -/
lemma setPayloadFrom_refuse {type length : Byte} (fuel : ℕ) (h : Layout s items)
    (hsize : size items + 2 < bytes.toNat) (hvisible : size items < BLE_PAYLOAD_SIZE - 2)
    (hlength : loadAt source (size items) = .ok length)
    (htype : loadAt source (size items + 1) = .ok type)
    (hcopy : ¬(type ≠ 0 ∧ 1 ≤ length.toNat ∧ size items + length.toNat + 1 ≤ bytes.toNat)) :
    ∃ ret, setPayloadFrom source bytes (fuel + 1) s = .ok (ret, s) ∧
      Ends source bytes (size items) ret := by
  unfold setPayloadFrom
  dsimp only
  rw [h.length, if_pos ⟨by omega, hvisible⟩, htype, ok_bind]
  split_ifs with hzero
  · exact ⟨0, rfl, .typeZero (hzero ▸ htype)⟩
  · rw [hlength, ok_bind]
    split_ifs with hone hfit
    · exact ⟨-1, rfl, .refused hsize hlength htype hzero (.inl hone)⟩
    · exact ⟨-1, rfl, .refused hsize hlength htype hzero (.inr hfit)⟩
    · exact absurd ⟨hzero, by omega, by omega⟩ hcopy

/-- A field as the source has it. -/
lemma drop_eq_item {position : ℕ} {type length : Byte}
    (hlength : loadAt source position = .ok length)
    (htype : loadAt source (position + 1) = .ok type) (hone : 1 ≤ length.toNat)
    (hread : position + 2 + (length.toNat - 1) ≤ source.length) :
    ∃ value tail, source.drop position = Item.encode ⟨type, value⟩ ++ tail ∧
      loadAll source (position + 2) (length.toNat - 1) = .ok value ∧
      value.length + 1 = length.toNat ∧ BitVec.ofNat 8 (value.length + 1) = length := by
  have hvalue := Memory.length_of_loadAll_eq_ok (loadAll_eq_ok hread)
  have htail := List.take_append_drop (length.toNat - 1) (source.drop (position + 2))
  generalize hbytes : (source.drop (position + 2)).take (length.toNat - 1) = value at hvalue htail
  have hbyte : BitVec.ofNat 8 (value.length + 1) = length := by
    rw [hvalue, Nat.sub_add_cancel hone, BitVec.ofNat_toNat, BitVec.setWidth_eq]
  refine ⟨value, (source.drop (position + 2)).drop (length.toNat - 1), ?_, ?_, by omega, hbyte⟩
  · rw [Memory.drop_of_loadAt hlength, Memory.drop_of_loadAt htype, Item.encode, hbyte]
    exact congrArg (length :: type :: ·) htail.symm
  · rw [loadAll_eq_ok hread, hbytes]

/-- What one round of the loop can come to: an end, a fault of a source that is too small for the
size or of a field that is too long for a packet, or one more field. -/
lemma setPayloadFrom_cases (fuel : ℕ) (h : Layout s items) :
    (∃ ret, setPayloadFrom source bytes (fuel + 1) s = .ok (ret, s) ∧
      Ends source bytes (size items) ret) ∨
    ((source.length < bytes.toNat ∨ LongAt source bytes (size items)) ∧
      ¬ Succeeds (setPayloadFrom source bytes (fuel + 1) s)) ∨
    ∃ i s', i.type ≠ 0 ∧ size items < BLE_PAYLOAD_SIZE - 2 ∧ size items + 2 < bytes.toNat ∧
      (∃ tail, source.drop (size items) = i.encode ++ tail) ∧ Layout s' (items ++ [i]) ∧
      setPayloadFrom source bytes (fuel + 1) s = setPayloadFrom source bytes fuel s' := by
  by_cases hloop : size items + 2 < bytes.toNat ∧ size items < BLE_PAYLOAD_SIZE - 2
  swap
  · exact .inl ⟨0, setPayloadFrom_stop fuel h hloop, .short (by omega)⟩
  obtain ⟨hsize, hvisible⟩ := hloop
  by_cases hsource : size items + 1 < source.length
  swap
  · refine .inr (.inl ⟨.inl (by omega), ?_⟩)
    unfold setPayloadFrom
    dsimp only
    rw [h.length, if_pos ⟨by omega, hvisible⟩, Memory.succeeds_bind_iff]
    rintro ⟨type, htype, -⟩
    exact hsource (Memory.succeeds_loadAt_iff.mp ⟨type, htype⟩)
  obtain ⟨type, htype⟩ := Memory.exists_loadAt_eq_ok hsource
  obtain ⟨length, hlength⟩ :=
    Memory.exists_loadAt_eq_ok (show size items < source.length by omega)
  by_cases hcopy : type ≠ 0 ∧ 1 ≤ length.toNat ∧ size items + length.toNat + 1 ≤ bytes.toNat
  swap
  · exact .inl (setPayloadFrom_refuse fuel h hsize hvisible hlength htype hcopy)
  obtain ⟨hzero, hone, hfit⟩ := hcopy
  rw [setPayloadFrom_copy fuel h hsize hvisible htype hzero hlength hone hfit]
  right
  by_cases hread : size items + 2 + (length.toNat - 1) ≤ source.length
  swap
  · left
    refine ⟨.inl (by omega), ?_⟩
    simp only [Memory.succeeds_bind_iff]
    rintro ⟨payload₁, -, payload₂, -, value, hvalue, -⟩
    exact hread (Memory.succeeds_loadAll_iff.mp ⟨value, hvalue⟩)
  obtain ⟨value, tail, hsplit, hload, hvalue, hbyte⟩ := drop_eq_item hlength htype hone hread
  rw [hload]
  by_cases hroom : size items + (value.length + 2) ≤ BLE_PAYLOAD_SIZE
  · right
    obtain ⟨payload₁, payload₂, payload₃, hstore₁, hstore₂, hstore₃, hlayout⟩ :=
      copy_eq_ok (i := ⟨type, value⟩) h hroom
    rw [h.length] at hstore₁ hstore₂ hstore₃
    rw [hbyte] at hstore₂ hlayout
    refine ⟨⟨type, value⟩, _, hzero, hvisible, hsize, ⟨tail, hsplit⟩, hlayout, ?_⟩
    rw [hstore₁, ok_bind, hstore₂, ok_bind, ok_bind, hstore₃, ok_bind]
  · left
    refine ⟨.inr ⟨⟨type, value⟩, tail, hsplit, hzero, hvisible, not_le.mp hroom, ?_⟩, ?_⟩
    · dsimp only
      omega
    simp only [Memory.succeeds_bind_iff]
    rintro ⟨payload₁, -, payload₂, -, value', hvalue', payload₃, hstore, -⟩
    obtain rfl := Except.ok.inj hvalue'
    have hne : value ≠ [] := by
      rintro rfl
      rw [List.length_nil] at hroom
      omega
    have hspace := Memory.le_of_storeAll_eq_ok hstore hne
    omega

lemma setPayloadFrom_fields {ret : ℤ} (fuel : ℕ) (h : Fields s items)
    (hset : setPayloadFrom source bytes fuel s = .ok (ret, s')) : ∃ items', Fields s' items' := by
  induction fuel generalizing s items with
  | zero => cases hset
  | succ fuel ih =>
    rcases setPayloadFrom_cases fuel h.layout with ⟨ret', hend, -⟩ | ⟨-, hfault⟩ |
      ⟨i, s₁, hzero, hvisible, -, -, hlayout, hnext⟩
    · rw [hend] at hset
      cases hset
      exact ⟨items, h⟩
    · exact absurd ⟨_, hset⟩ hfault
    · rw [hnext] at hset
      exact ih (fields_append h hlayout hzero hvisible) hset

/-- A source and a packet that have the size: the loop ends without a fault. -/
lemma succeeds_setPayloadFrom (hsource : bytes.toNat ≤ source.length)
    (hpacket : bytes.toNat ≤ BLE_PAYLOAD_SIZE) (fuel : ℕ) (h : Layout s items)
    (hfuel : BLE_PAYLOAD_SIZE < size items + fuel) :
    Succeeds (setPayloadFrom source bytes fuel s) := by
  induction fuel generalizing s items with
  | zero =>
    have := h.size_le
    omega
  | succ fuel ih =>
    rcases setPayloadFrom_cases fuel h with ⟨ret', hend, -⟩ | ⟨hsmall, -⟩ |
      ⟨i, s₁, -, -, -, -, hlayout, hnext⟩
    · exact ⟨_, hend⟩
    · rcases hsmall with hshort | ⟨i, tail, -, -, -, hlong, hfit⟩
      · omega
      · omega
    · rw [hnext]
      refine ih hlayout ?_
      rw [size_append, Ltv.size_singleton]
      omega

/-! ## `setPayload` -/

/-- What `setPayload` leaves are fields, whatever it returns. -/
theorem setPayload_fields {ret : ℤ} (hset : setPayload source bytes = .ok (ret, s)) :
    ∃ items, Fields s items :=
  setPayloadFrom_fields _ fields_fresh hset

/-- `setPayload` does not leave the packet for up to 31 bytes. -/
theorem succeeds_setPayload (hsource : bytes.toNat ≤ source.length)
    (hpacket : bytes.toNat ≤ BLE_PAYLOAD_SIZE) : Succeeds (setPayload source bytes) :=
  succeeds_setPayloadFrom hsource hpacket _ layout_fresh (by simp)

/-- The first field of a type is found where it starts. -/
lemma field_first {before after : List Item} (h : Fields s (before ++ i :: after))
    (hfirst : i.type ∉ before.map Item.type) :
    field s i.type = .ok (some (size before)) ∧
      ∃ post, s.payload.toList = encode before ++ (i.encode ++ post) := by
  obtain ⟨hbefore, hvisible⟩ := visible_of_append h.visible
  rw [Nat.zero_add] at hvisible
  have hpayload := h.layout.payload
  rw [Ltv.encode_append, Ltv.encode_cons, List.append_assoc, List.append_assoc] at hpayload
  have hzero : ∀ j ∈ before, j.type ≠ 0 := fun j hj => h.types j (List.mem_append_left _ hj)
  obtain ⟨fuel, hfield⟩ := field_skip hpayload hbefore hzero hfirst
  refine ⟨?_, _, hpayload⟩
  rw [hfield, fieldFrom_item fuel hpayload hvisible
    (h.types i (List.mem_append_right _ List.mem_cons_self)), if_pos rfl]
  rfl

/-- `field` finds the first field of a type, and tells if there is none. -/
theorem field_fields (h : Fields s items) (type : Byte) :
    (type ∉ items.map Item.type ∧ field s type = .ok none) ∨
    ∃ before i after, items = before ++ i :: after ∧ type ∉ before.map Item.type ∧
      i.type = type ∧ field s type = .ok (some (size before)) ∧
      ∃ post, s.payload.toList = encode before ++ (i.encode ++ post) := by
  by_cases htype : type ∈ items.map Item.type
  · right
    -- the first field of the type
    obtain ⟨types, types', hmap, hfirst⟩ := List.eq_append_cons_of_mem htype
    obtain ⟨before, rest, rfl, rfl, hrest⟩ := List.map_eq_append_iff.mp hmap
    obtain ⟨i, after, rfl, rfl, -⟩ := List.map_eq_cons_iff.mp hrest
    obtain ⟨hfield, hpayload⟩ := field_first h hfirst
    exact ⟨before, i, after, rfl, hfirst, rfl, hfield, hpayload⟩
  · left
    obtain ⟨fuel, hfield⟩ := field_skip h.layout.payload h.visible h.types htype
    refine ⟨htype, ?_⟩
    rw [hfield]
    exact fieldFrom_zeros fuel _ h.layout.payload

end Gap
end Vng
