import Vng.Ble.GapPayload
import Vng.Lib.Machine

/-!
# Packets over any calls

A packet under calls of `setPayload` and `setFiled` in any order. As long as no call replaces a
field, the packet holds complete fields with zeros behind them, which is all that `field` needs to
end inside the buffer (`field_cases`). `remove` breaks that: its shift is one too short, and it
writes a zero at twice the position of the field.
-/

namespace Vng
namespace Gap

open Ltv (Item encode size size_append)
open Memory (Checked Succeeds ok_bind)

/-! ## The calls -/

/-- A call of `setPayload` with up to 31 bytes. -/
structure Advertisement where
  source : List Byte
  bytes : Byte
  bytes_le : bytes.toNat ≤ BLE_PAYLOAD_SIZE
  source_length : bytes.toNat ≤ source.length

inductive Event
  | setPayload (advertisement : Advertisement)
  | setFiled (call : Call)

/-- What a call returns, and the packet after it. -/
def perform (s : Packet) : Event → Checked (ℤ × Packet)
  | .setPayload a => setPayload a.source a.bytes
  | .setFiled call => setField s call.type call.value

/-- A call that leaves the buffer ends the run. -/
def step (s : Packet) (e : Event) : Option Packet :=
  match perform s e with
  | .ok (_, s') => some s'
  | .error _ => none

lemma step_eq_some {s s' : Packet} {e : Event} :
    step s e = some s' ↔ ∃ ret, perform s e = .ok (ret, s') := by
  unfold step
  cases h : perform s e with
  | error fault => simp
  | ok r => simp [Prod.ext_iff, eq_comm]

/-- The packet has a field of the type, found behind others, and the call's would fit in the
place of it: `setFiled` goes on to `remove`. -/
def Replaces (s : Packet) (call : Call) : Prop :=
  ∃ before i post, s.payload.toList = encode before ++ (Item.encode i ++ post) ∧
    (∀ j ∈ before, j.type ≠ 0 ∧ j.type ≠ call.type) ∧ size before < BLE_PAYLOAD_SIZE - 2 ∧
    i.type = call.type ∧
    s.length.toNat + (call.value.length + 2) ≤ BLE_PAYLOAD_SIZE + (i.value.length + 2)

/-- A call that does not replace a field. -/
def Adds (s : Packet) : Event → Prop
  | .setPayload _ => True
  | .setFiled call => ¬Replaces s call

/-! ## Looking up in complete fields -/

variable {payload : Vector Byte BLE_PAYLOAD_SIZE} {type : Byte} {pre : List Byte}
  {items : List Item} {s s' : Packet}

/-- The walk over complete fields ends in front of the first one of the type, or behind them. -/
lemma fieldFrom_cases {fuel k : ℕ}
    (h : payload.toList = pre ++ (encode items ++ List.replicate k 0))
    (htypes : ∀ i ∈ items, i.type ≠ 0) (hfuel : items.length < fuel) :
    fieldFrom payload type fuel (BitVec.ofNat 8 pre.length) = .ok none ∨
      ∃ before i after, items = before ++ i :: after ∧ (∀ j ∈ before, j.type ≠ type) ∧
        i.type = type ∧ pre.length + size before < BLE_PAYLOAD_SIZE - 2 ∧
        fieldFrom payload type fuel (BitVec.ofNat 8 pre.length) =
          .ok (some (pre.length + size before)) := by
  induction items generalizing pre fuel with
  | nil =>
    obtain ⟨fuel, rfl⟩ := Nat.exists_eq_add_one_of_ne_zero (show fuel ≠ 0 by omega)
    exact .inl (fieldFrom_zeros fuel k (by simpa [encode] using h))
  | cons i items ih =>
    obtain ⟨fuel, rfl⟩ := Nat.exists_eq_add_one_of_ne_zero (show fuel ≠ 0 by omega)
    obtain ⟨hi, hitems⟩ := List.forall_mem_cons.mp htypes
    rw [Ltv.encode_cons, List.append_assoc] at h
    by_cases hvisible : pre.length < BLE_PAYLOAD_SIZE - 2
    · rw [fieldFrom_item fuel h hvisible hi]
      -- the first visible field of the type is the one that is found
      split_ifs with hsame
      · exact .inr ⟨[], i, items, rfl, by simp, hsame, by simpa using hvisible, by simp⟩
      · have hrest : payload.toList =
            (pre ++ i.encode) ++ (encode items ++ List.replicate k 0) := by
          rw [h, List.append_assoc]
        rw [List.length_cons] at hfuel
        rcases ih hrest hitems (show items.length < fuel by omega) with
          hnone | ⟨before, j, after, rfl, hbefore, hj, hlt, hsome⟩
        · exact .inl hnone
        · rw [List.length_append, Ltv.length_encode_item] at hlt
          refine .inr ⟨i :: before, j, after, rfl, ?_, hj, ?_, ?_⟩
          · exact List.forall_mem_cons.mpr ⟨hsame, hbefore⟩
          · rw [Ltv.size_cons]
            omega
          · rw [hsome, List.length_append, Ltv.length_encode_item, Ltv.size_cons, Nat.add_assoc]
    · -- the walk does not look at the last two bytes
      left
      have hlength := length_of_toList h
      rw [fieldFrom, toNat_position (by omega), if_neg hvisible]
      rfl

/-! ## What the calls keep -/

/-- Complete fields with zeros behind them. The last field may stand where the walk does not
look. -/
structure Complete (s : Packet) (items : List Item) : Prop where
  layout : Layout s items
  types : ∀ i ∈ items, i.type ≠ 0

lemma complete_fresh : Complete fresh [] := ⟨layout_fresh, by simp⟩

lemma Complete.append {i : Item} (h : Complete s items) (hlayout : Layout s' (items ++ [i]))
    (hzero : i.type ≠ 0) : Complete s' (items ++ [i]) := by
  refine ⟨hlayout, ?_⟩
  intro j hj
  rcases List.mem_append.mp hj with hold | hnew
  · exact h.types j hold
  · rwa [List.mem_singleton.mp hnew]

/-- `field` ends, and tells where the first field of the type is. -/
lemma Complete.field_cases (h : Complete s items) (type : Byte) :
    field s type = .ok none ∨ ∃ before i after, items = before ++ i :: after ∧
      (∀ j ∈ before, j.type ≠ type) ∧ i.type = type ∧ size before < BLE_PAYLOAD_SIZE - 2 ∧
      field s type = .ok (some (size before)) := by
  have hitems := Ltv.length_le_size items
  have hsize := h.layout.size_le
  have hfuel : items.length < BLE_PAYLOAD_SIZE := by
    unfold BLE_PAYLOAD_SIZE at *
    omega
  have hlayout : s.payload.toList = [] ++ (encode items ++ List.replicate _ 0) := h.layout.payload
  have hcases := @fieldFrom_cases _ type _ _ _ _ hlayout h.types hfuel
  simp only [List.length_nil, Nat.zero_add] at hcases
  exact hcases

theorem Complete.succeeds_field (h : Complete s items) (type : Byte) : Succeeds (field s type) := by
  rcases h.field_cases type with hnone | ⟨before, i, after, -, -, -, -, hsome⟩
  · exact ⟨none, hnone⟩
  · exact ⟨some (size before), hsome⟩

/-- A call of `setFiled` that does not replace a field. -/
lemma Complete.setField {call : Call} (h : Complete s items) (hadds : ¬Replaces s call) :
    ∃ ret s' items', setField s call.type call.value = .ok (ret, s') ∧ Complete s' items' := by
  have hlength := h.layout.length
  rcases h.field_cases call.type with hnone | ⟨before, i, after, rfl, hbefore, htype, hlt, hsome⟩
  -- the field is new: it is written at the end if it fits
  · by_cases hfit : size items + (call.value.length + 2) ≤ BLE_PAYLOAD_SIZE
    · obtain ⟨s', happend, hlayout⟩ := append_eq_ok (i := call.toItem) h.layout hfit
      refine ⟨0, s', items ++ [call.toItem], ?_, h.append hlayout call.type_ne⟩
      unfold Gap.setField
      rw [hnone, ok_bind]
      dsimp only
      rw [if_neg (by omega)]
      exact happend
    · refine ⟨-1, s, items, ?_, h⟩
      unfold Gap.setField
      rw [hnone, ok_bind]
      dsimp only
      rw [if_pos (by omega)]
      rfl
  · -- the field is there, so its replacement does not fit
    have hpayload := h.layout.payload
    rw [Ltv.encode_append, Ltv.encode_cons, List.append_assoc, List.append_assoc] at hpayload
    have hfull : ¬s.length.toNat + (call.value.length + 2) ≤
        BLE_PAYLOAD_SIZE + (i.value.length + 2) := fun hfit =>
      hadds ⟨before, i, _, hpayload, fun j hj =>
        ⟨h.types j (List.mem_append_left _ hj), hbefore j hj⟩, hlt, htype, hfit⟩
    refine ⟨-1, s, _, ?_, h⟩
    unfold Gap.setField
    rw [hsome, ok_bind]
    dsimp only
    rw [load_length hpayload, ok_bind, toNat_length hpayload, if_pos (by omega)]
    rfl

/-- **One call.** A call that does not replace a field stays inside, and keeps the fields
complete. -/
lemma Complete.perform {e : Event} (h : Complete s items) (hadds : Adds s e) :
    ∃ ret s' items', perform s e = .ok (ret, s') ∧ Complete s' items' := by
  cases e with
  | setPayload a =>
    obtain ⟨⟨ret, s'⟩, hset⟩ := succeeds_setPayload a.source_length a.bytes_le
    obtain ⟨items', hfields⟩ := setPayload_fields hset
    exact ⟨ret, s', items', hset, hfields.layout, hfields.types⟩
  | setFiled call => exact h.setField hadds

/-! ## Runs -/

/-- `field` ends inside the buffer for every type. -/
def Searchable (s : Packet) : Prop := ∀ type, Succeeds (field s type)

/-- **Runs that only add.** No call of a run in which none replaces a field leaves the buffer, and
in every state of it `field` ends inside the buffer, whatever it looks for. -/
theorem run_searchable (events : List Event) (hadds : Machine.Along step Adds fresh events) :
    (∃ s, Machine.run step fresh events = some s) ∧
      Machine.Always step Searchable fresh events := by
  have hfield : ∀ s, (∃ items, Complete s items) → Searchable s := by
    rintro s ⟨items, h⟩ type
    exact h.succeeds_field type
  have hstep : ∀ s e, (∃ items, Complete s items) → Adds s e →
      ∃ s', step s e = some s' ∧ ∃ items, Complete s' items := by
    rintro s e ⟨items, h⟩ he
    obtain ⟨ret, s', items', hperform, h'⟩ := h.perform he
    exact ⟨s', step_eq_some.mpr ⟨ret, hperform⟩, items', h'⟩
  exact Machine.always_of_along hfield hstep ⟨[], complete_fresh⟩ hadds

lemma not_replaces_fresh (call : Call) : ¬Replaces fresh call := by
  rintro ⟨before, i, post, hpayload, -, -, htype, -⟩
  have hmem : i.type ∈ fresh.payload.toList := by
    rw [hpayload]
    simp [Item.encode]
  have hzero : i.type = 0 := List.eq_of_mem_replicate hmem
  exact call.type_ne (htype ▸ hzero)

theorem run_searchable_name :
    (∃ s, Machine.run step fresh [.setFiled ⟨⟨0x09, [0x41]⟩, by decide, by decide⟩,
        .setPayload ⟨[0x02, 0x01, 0x06], 3, by decide, by decide⟩] = some s) ∧
      Machine.Always step Searchable fresh [.setFiled ⟨⟨0x09, [0x41]⟩, by decide, by decide⟩,
        .setPayload ⟨[0x02, 0x01, 0x06], 3, by decide, by decide⟩] :=
  run_searchable _ ⟨not_replaces_fresh _, fun _ _ => ⟨trivial, fun _ _ => trivial⟩⟩

/-- After the replacement of a field whose last byte is 255 the walk comes back to that field for
ever, and the replacement of a field that starts at 15 writes behind the buffer. -/
theorem run_not_searchable :
    (∃ s ∈ Machine.run step fresh [.setFiled ⟨⟨0x01, []⟩, by decide, by decide⟩,
        .setFiled ⟨⟨0x02, [0xFF]⟩, by decide, by decide⟩,
        .setFiled ⟨⟨0x02, [0x00]⟩, by decide, by decide⟩], ¬Searchable s) ∧
    ∃ s ∈ Machine.run step fresh [.setFiled ⟨⟨0x01, List.replicate 13 0xAA⟩, by decide, by decide⟩,
        .setFiled ⟨⟨0x02, [0x01]⟩, by decide, by decide⟩],
      field s 0x02 = .ok (some 15) ∧ remove s 15 = .error .outOfBounds := by
  constructor
  · have hrun : (Machine.run step fresh [.setFiled ⟨⟨0x01, []⟩, by decide, by decide⟩,
        .setFiled ⟨⟨0x02, [0xFF]⟩, by decide, by decide⟩,
        .setFiled ⟨⟨0x02, [0x00]⟩, by decide, by decide⟩]).any
          (field · 0x03 = .error .diverges) = true := by decide
    obtain ⟨s, hs, hfield⟩ := (Option.any_eq_true _ _).mp hrun
    refine ⟨s, hs, fun h => ?_⟩
    obtain ⟨start, hstart⟩ := h 0x03
    rw [of_decide_eq_true hfield] at hstart
    cases hstart
  · have hrun : (Machine.run step fresh
        [.setFiled ⟨⟨0x01, List.replicate 13 0xAA⟩, by decide, by decide⟩,
          .setFiled ⟨⟨0x02, [0x01]⟩, by decide, by decide⟩]).any
            (fun s => field s 0x02 = .ok (some 15) ∧ remove s 15 = .error .outOfBounds) = true := by
      decide
    obtain ⟨s, hs, hfault⟩ := (Option.any_eq_true _ _).mp hrun
    exact ⟨s, hs, of_decide_eq_true hfault⟩

end Gap
end Vng
