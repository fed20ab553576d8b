import Vng.Ble.GapPacket
import Vng.Lib.Ltv

/-!
# The gap packet as a map

`Holds` says what the packet is for: the buffer is the encoding of the current fields, and each of
them can be looked up. `conforms_iff` says on which sequences of `setFiled` calls it is that.
-/

namespace Vng
namespace Gap

open Ltv (Item encode size set size_append size_cons)
open Memory (Checked ok_bind bind_eq_ok_iff load load_eq_ok loadAll loadAll_eq_ok store storeAll)

/-! ## Walking over fields -/

/-- The walk starts each of these fields, the first of them at `position`. -/
def Visible : (position : ℕ) → List Item → Prop
  | _, [] => True
  | position, i :: items =>
    position < BLE_PAYLOAD_SIZE - 2 ∧ Visible (position + (i.value.length + 2)) items

lemma visible_append {position : ℕ} {items : List Item} {i : Item} :
    Visible position (items ++ [i]) ↔
      Visible position items ∧ position + size items < BLE_PAYLOAD_SIZE - 2 := by
  induction items generalizing position with
  | nil => simp [Visible]
  | cons j items ih =>
    rw [List.cons_append, Visible, Visible, ih, size_cons, and_assoc, Nat.add_assoc]

variable {payload : Vector Byte BLE_PAYLOAD_SIZE} {type : Byte} {pre post : List Byte}
  {items : List Item} {i : Item}

lemma length_of_toList (h : payload.toList = pre ++ post) :
    pre.length + post.length = BLE_PAYLOAD_SIZE := by
  rw [← List.length_append, ← h, Vector.length_toList]

lemma toNat_position {n : ℕ} (h : n ≤ BLE_PAYLOAD_SIZE) : (BitVec.ofNat 8 n).toNat = n := by
  rw [BitVec.toNat_ofNat]
  unfold BLE_PAYLOAD_SIZE at h
  omega

/-- A position, moved over a field with a value of `n` bytes. -/
lemma toNat_add_size (position : Byte) (n : ℕ) :
    (position + (BitVec.ofNat 8 (n + 1) + 1)).toNat = (position.toNat + (n + 2)) % 256 := by
  simp only [BitVec.toNat_add, BitVec.toNat_ofNat, show (1 : Byte).toNat = 1 from rfl]
  omega

/-- One round of the loop at a field. -/
lemma fieldFrom_item (fuel : ℕ) (h : payload.toList = pre ++ (i.encode ++ post))
    (hvisible : pre.length < BLE_PAYLOAD_SIZE - 2) (hzero : i.type ≠ 0) :
    fieldFrom payload type (fuel + 1) (BitVec.ofNat 8 pre.length) =
      if i.type = type then .ok (some pre.length)
      else fieldFrom payload type fuel (BitVec.ofNat 8 (pre ++ i.encode).length) := by
  have hlength : load payload pre.length = .ok (BitVec.ofNat 8 (i.value.length + 1)) :=
    load_eq_ok h
  have htype : load payload (pre.length + 1) = .ok i.type := by
    have hsplit : payload.toList =
        (pre ++ [BitVec.ofNat 8 (i.value.length + 1)]) ++ i.type :: (i.value ++ post) := by
      rw [h]
      simp [Item.encode]
    simpa using load_eq_ok hsplit
  have hposition := toNat_position (show pre.length ≤ BLE_PAYLOAD_SIZE by omega)
  have hnext : BitVec.ofNat 8 pre.length + (BitVec.ofNat 8 (i.value.length + 1) + 1) =
      BitVec.ofNat 8 (pre ++ i.encode).length := by
    apply BitVec.eq_of_toNat_eq
    rw [toNat_add_size, hposition, List.length_append, Ltv.length_encode_item,
      BitVec.toNat_ofNat]
  rw [fieldFrom, hposition, if_pos hvisible, htype, ok_bind, if_neg hzero]
  split_ifs with hsame
  · rfl
  · rw [hlength, ok_bind, hnext]

/-- The loop passes over fields of other types. -/
lemma fieldFrom_skip (fuel : ℕ) (h : payload.toList = pre ++ (encode items ++ post))
    (hvisible : Visible pre.length items) (htypes : ∀ i ∈ items, i.type ≠ 0 ∧ i.type ≠ type) :
    fieldFrom payload type (fuel + items.length) (BitVec.ofNat 8 pre.length) =
      fieldFrom payload type fuel (BitVec.ofNat 8 (pre ++ encode items).length) := by
  induction items generalizing pre with
  | nil => simp [encode]
  | cons i items ih =>
    obtain ⟨hhere, hlater⟩ := hvisible
    obtain ⟨hi, hitems⟩ := List.forall_mem_cons.mp htypes
    rw [Ltv.encode_cons, List.append_assoc] at h
    rw [List.length_cons, ← Nat.add_assoc, fieldFrom_item _ h hhere hi.1, if_neg hi.2,
      ih (by rw [h, List.append_assoc]) (by rwa [List.length_append]) hitems, Ltv.encode_cons,
      List.append_assoc]

/-- The loop ends at the zeros behind the fields, or where no field can start. -/
lemma fieldFrom_zeros (fuel k : ℕ) (h : payload.toList = pre ++ List.replicate k 0) :
    fieldFrom payload type (fuel + 1) (BitVec.ofNat 8 pre.length) = .ok none := by
  have hlength := length_of_toList h
  rw [List.length_replicate] at hlength
  rw [fieldFrom, toNat_position (by omega)]
  split_ifs with hvisible
  · obtain ⟨k, rfl⟩ : ∃ k', k = k' + 2 := ⟨k - 2, by omega⟩
    have htype : load payload (pre.length + 1) = .ok 0 := by
      have hsplit : payload.toList = (pre ++ [0]) ++ 0 :: List.replicate k 0 := by
        rw [h, List.replicate_succ, List.replicate_succ]
        simp
      simpa using load_eq_ok hsplit
    rw [htype]
    rfl
  · rfl

/-! ## Fields in a buffer -/

/-- The packet holds the items one after another, with zeros behind them. -/
structure Layout (s : Packet) (items : List Item) : Prop where
  payload : s.payload.toList =
    encode items ++ List.replicate (BLE_PAYLOAD_SIZE - size items) 0
  length : s.length.toNat = size items

lemma layout_fresh : Layout fresh [] := ⟨rfl, rfl⟩

variable {s s' : Packet}

lemma Layout.size_le (h : Layout s items) : size items ≤ BLE_PAYLOAD_SIZE := by
  have hlength := length_of_toList h.payload
  rw [← size] at hlength
  omega

/-- The layout of fields that can all be found. -/
structure Good (s : Packet) (items : List Item) : Prop where
  layout : Layout s items
  visible : Visible 0 items
  types : ∀ i ∈ items, i.type ≠ 0
  nodup : (items.map Item.type).Nodup

lemma good_fresh : Good fresh [] := ⟨layout_fresh, trivial, by simp, by simp⟩

lemma visible_of_append {position : ℕ} {before after : List Item}
    (h : Visible position (before ++ i :: after)) :
    Visible position before ∧ position + size before < BLE_PAYLOAD_SIZE - 2 := by
  induction before generalizing position with
  | nil => exact ⟨trivial, h.1⟩
  | cons j before ih =>
    obtain ⟨hbefore, hi⟩ := ih h.2
    exact ⟨⟨h.1, hbefore⟩, by rwa [size_cons, ← Nat.add_assoc]⟩

/-- `field` passes over fields of other types, and comes to what is behind them. -/
lemma field_skip (h : s.payload.toList = encode items ++ post) (hvisible : Visible 0 items)
    (hzero : ∀ i ∈ items, i.type ≠ 0) (htype : type ∉ items.map Item.type) :
    ∃ fuel, field s type =
      fieldFrom s.payload type (fuel + 1) (BitVec.ofNat 8 (encode items).length) := by
  have hlength := length_of_toList h
  have hitems := Ltv.length_le_size items
  have hfuel : BLE_PAYLOAD_SIZE = BLE_PAYLOAD_SIZE - items.length - 1 + 1 + items.length := by
    unfold size BLE_PAYLOAD_SIZE at *
    omega
  refine ⟨BLE_PAYLOAD_SIZE - items.length - 1, ?_⟩
  calc field s type
      = fieldFrom s.payload type (BLE_PAYLOAD_SIZE - items.length - 1 + 1 + items.length) 0 :=
        congrArg (fieldFrom s.payload type · 0) hfuel
    _ = _ := fieldFrom_skip _ (show s.payload.toList = [] ++ (encode items ++ post) from h) hvisible
        fun i hi => ⟨hzero i hi, fun hsame => htype (List.mem_map.mpr ⟨i, hi, hsame⟩)⟩

/-- A type that no field has is not found. -/
lemma field_eq_none (h : Good s items) (htype : type ∉ items.map Item.type) :
    field s type = .ok none := by
  obtain ⟨fuel, hfield⟩ := field_skip h.layout.payload h.visible h.types htype
  rw [hfield]
  exact fieldFrom_zeros fuel _ h.layout.payload

lemma Good.split {before after : List Item} (h : Good s (before ++ i :: after)) :
    (∃ post, s.payload.toList = encode before ++ (i.encode ++ post)) ∧ Visible 0 before ∧
      size before < BLE_PAYLOAD_SIZE - 2 ∧ (∀ j ∈ before, j.type ≠ 0) ∧ i.type ≠ 0 ∧
      i.type ∉ before.map Item.type := by
  obtain ⟨hbefore, hi⟩ := visible_of_append h.visible
  have hpayload := h.layout.payload
  rw [Ltv.encode_append, Ltv.encode_cons, List.append_assoc, List.append_assoc] at hpayload
  have hnodup := h.nodup
  rw [List.map_append, List.map_cons] at hnodup
  refine ⟨⟨_, hpayload⟩, hbefore, by rwa [Nat.zero_add] at hi, fun j hj => ?_, ?_, ?_⟩
  · exact h.types j (List.mem_append_left _ hj)
  · exact h.types i (List.mem_append_right _ List.mem_cons_self)
  · exact fun hmem => (List.nodup_middle.mp hnodup).notMem (List.mem_append_left _ hmem)

/-- A field is found where it starts. -/
lemma field_eq_some {before after : List Item} (h : Good s (before ++ i :: after)) :
    field s i.type = .ok (some (size before)) := by
  obtain ⟨⟨post, hpayload⟩, hbefore, hvisible, hzero, hi, htype⟩ := h.split
  obtain ⟨fuel, hfield⟩ := field_skip hpayload hbefore hzero htype
  rw [hfield, fieldFrom_item fuel hpayload hvisible hi, if_pos rfl]
  rfl

lemma load_length {before : List Item}
    (h : s.payload.toList = encode before ++ (i.encode ++ post)) :
    load s.payload (size before) = .ok (BitVec.ofNat 8 (i.value.length + 1)) :=
  load_eq_ok h

lemma toNat_length {before : List Item}
    (h : s.payload.toList = encode before ++ (i.encode ++ post)) :
    (BitVec.ofNat 8 (i.value.length + 1)).toNat = i.value.length + 1 := by
  have hlength := length_of_toList h
  rw [List.length_append, Ltv.length_encode_item] at hlength
  exact toNat_position (by omega)

/-- What is looked up is the value. -/
lemma lookup_eq_some (h : Good s items) (hi : i ∈ items) :
    lookup s i.type = .ok (some i.value) := by
  obtain ⟨before, after, rfl⟩ := List.mem_iff_append.mp hi
  obtain ⟨⟨post, hpayload⟩, -⟩ := h.split
  have hlength := length_of_toList hpayload
  rw [List.length_append, Ltv.length_encode_item, ← size] at hlength
  unfold lookup
  rw [field_eq_some h, ok_bind]
  dsimp only
  rw [load_length hpayload, ok_bind, toNat_length hpayload, Nat.add_sub_cancel,
    loadAll_eq_ok (by rw [Vector.length_toList]; omega), ok_bind]
  have hvalue : s.payload.toList.drop (size before + 2) = i.value ++ post := by
    rw [hpayload, ← List.drop_drop, size, List.drop_left]
    rfl
  rw [hvalue, List.take_left]
  rfl

/-! ## Setting a field -/

/-- The three writes of a new field are one copy of its encoding. -/
lemma append_eq (s : Packet) (i : Item) :
    append s i.type i.value = (do
      let payload ← storeAll s.payload s.length.toNat i.encode
      let fieldLength ← load payload s.length.toNat
      return (0, ⟨payload, s.length + (fieldLength + 1)⟩)) := by
  unfold append Item.encode
  simp only [storeAll, bind_assoc]

/-- However the new field got in, the length grows by its size. -/
lemma length_of_append {ret : ℤ} (h : append s i.type i.value = .ok (ret, s')) :
    ret = 0 ∧ s'.length = s.length + (BitVec.ofNat 8 (i.value.length + 1) + 1) := by
  rw [append_eq] at h
  obtain ⟨payload', hstore, hrest⟩ := bind_eq_ok_iff.mp h
  rw [Memory.load_storeAll hstore, ok_bind] at hrest
  cases hrest
  exact ⟨rfl, rfl⟩

/-- The new field behind the others, if there is room. -/
lemma append_eq_ok (h : Layout s items)
    (hfit : size items + (i.value.length + 2) ≤ BLE_PAYLOAD_SIZE) :
    ∃ s', append s i.type i.value = .ok (0, s') ∧ Layout s' (items ++ [i]) := by
  have hsize : size (items ++ [i]) = size items + (i.value.length + 2) := by
    rw [size_append, Ltv.size_singleton]
  -- the zeros behind the fields are cut where the new field will end
  have hblank : s.payload.toList = encode items ++ List.replicate i.encode.length 0 ++
      List.replicate (BLE_PAYLOAD_SIZE - size (items ++ [i])) 0 := by
    rw [h.payload, List.append_assoc, ← List.replicate_add, hsize, Ltv.length_encode_item]
    congr 2
    omega
  obtain ⟨payload', hstore, hpayload'⟩ :=
    Memory.storeAll_eq_ok i.encode hblank (List.length_replicate ..)
  rw [show (encode items).length = s.length.toNat from h.length.symm] at hstore
  refine ⟨_, by rw [append_eq, hstore, ok_bind, Memory.load_storeAll hstore]; rfl, ?_, ?_⟩
  · rw [hpayload', Ltv.encode_append, Ltv.encode_singleton]
  · have hlength := h.length
    unfold BLE_PAYLOAD_SIZE at hfit
    rw [hsize, toNat_add_size]
    omega

variable {call : Item}

/-- A new type that fits is added. -/
lemma setField_new (h : Good s items) (htype : call.type ∉ items.map Item.type)
    (hfit : size items + (call.value.length + 2) ≤ BLE_PAYLOAD_SIZE) :
    ∃ s', setField s call.type call.value = .ok (0, s') ∧ Layout s' (items ++ [call]) := by
  have hlength := h.layout.length
  unfold setField
  rw [field_eq_none h htype, ok_bind]
  dsimp only
  rw [if_neg (by omega)]
  exact append_eq_ok h.layout hfit

/-- A new type that does not fit is turned down. -/
lemma setField_new_full (h : Good s items) (htype : call.type ∉ items.map Item.type)
    (hfull : BLE_PAYLOAD_SIZE < size items + (call.value.length + 2)) :
    setField s call.type call.value = .ok (-1, s) := by
  have hlength := h.layout.length
  unfold setField
  rw [field_eq_none h htype, ok_bind]
  dsimp only
  rw [if_pos (by omega)]
  rfl

/-- A field that is there is replaced if its replacement fits. -/
lemma setField_old (h : Good s items) {old : Item} (hold : old ∈ items)
    (htype : old.type = call.type) :
    ∃ start, setField s call.type call.value =
      if BLE_PAYLOAD_SIZE < size (set items call) then .ok (-1, s)
      else remove s start >>= fun s => append s call.type call.value := by
  have hsize := Ltv.size_set_of_mem h.nodup hold htype
  have hlength := h.layout.length
  obtain ⟨before, after, rfl⟩ := List.mem_iff_append.mp hold
  obtain ⟨⟨post, hpayload⟩, -⟩ := h.split
  refine ⟨size before, ?_⟩
  unfold setField
  rw [← htype, field_eq_some h, ok_bind]
  dsimp only
  rw [load_length hpayload, ok_bind, toNat_length hpayload]
  by_cases hfull : BLE_PAYLOAD_SIZE < size (set (before ++ old :: after) call)
  · rw [if_pos hfull, if_pos (by omega)]
    rfl
  · rw [if_neg hfull, if_neg (by omega)]

/-- `remove` leaves the length as it is. -/
lemma length_remove {start : ℕ} (h : remove s start = .ok s') : s'.length = s.length := by
  obtain ⟨fieldLength, -, hrest⟩ := bind_eq_ok_iff.mp h
  obtain ⟨payload₁, -, hrest⟩ := bind_eq_ok_iff.mp hrest
  obtain ⟨payload₂, -, hrest⟩ := bind_eq_ok_iff.mp hrest
  cases hrest
  rfl

/-! ## The packet over a sequence of calls -/

/-- A call of `setFiled`. -/
structure Call extends Item where
  type_ne : type ≠ 0
  value_le : value.length ≤ 255

/-- The fields fit in the buffer with this one set or replaced. -/
def Fits (items : List Item) (i : Item) : Prop := size (set items i) ≤ BLE_PAYLOAD_SIZE

instance (items : List Item) (i : Item) : Decidable (Fits items i) :=
  inferInstanceAs (Decidable (_ ≤ _))

/-- The fields after a call: with the new one if it fits, else as they are. -/
def next (items : List Item) (i : Item) : List Item := if Fits items i then set items i else items

/-- The packet is a map from types to values: its bytes are the encoding of the current fields in
some order, with zeros behind them, and each field can be looked up. -/
structure Holds (s : Packet) (items : List Item) : Prop where
  layout : ∃ items', items'.Perm items ∧ Layout s items'
  lookup : ∀ i ∈ items, lookup s i.type = .ok (some i.value)

/-- The packet is a map before and after each call; a call returns 0 exactly if the fields fit,
and one that returns -1 changes nothing. -/
def Conforms : Packet → List Item → List Call → Prop
  | s, items, [] => Holds s items
  | s, items, call :: calls =>
    Holds s items ∧ ∃ ret s', setField s call.type call.value = .ok (ret, s') ∧
      (if Fits items call.toItem then ret = 0 else ret = -1 ∧ s' = s) ∧
      Conforms s' (next items call.toItem) calls

/-- The calls that go wrong: a field is replaced, or an empty one is added behind 29 bytes of
fields, where the walk does not look. -/
def Misses (items : List Item) (i : Item) : Prop :=
  Fits items i ∧ (i.type ∈ items.map Item.type ∨
    i.value = [] ∧ size items = BLE_PAYLOAD_SIZE - 2)

/-- None of the calls goes wrong. -/
def Avoids : List Item → List Call → Prop
  | _, [] => True
  | items, call :: calls => ¬ Misses items call.toItem ∧ Avoids (next items call.toItem) calls

lemma Conforms.holds {calls : List Call} (h : Conforms s items calls) : Holds s items := by
  cases calls with
  | nil => exact h
  | cons call calls => exact h.1

lemma Good.holds (h : Good s items) : Holds s items :=
  ⟨⟨items, List.Perm.refl items, h.layout⟩, fun _ hi => lookup_eq_some h hi⟩

/-- A field that has been replaced leaves the length too large. -/
lemma not_holds_of_replaced (h : Good s items) (htype : call.type ∈ items.map Item.type)
    (hfit : Fits items call) {ret : ℤ}
    (hset : setField s call.type call.value = .ok (ret, s')) : ¬ Holds s' (set items call) := by
  rintro ⟨⟨items', hperm, hlayout⟩, -⟩
  obtain ⟨old, hold, hsame⟩ := List.mem_map.mp htype
  obtain ⟨start, hsetField⟩ := setField_old h hold hsame
  have hsize := Ltv.size_set_of_mem h.nodup hold hsame
  have hitems := h.layout.size_le
  have hroom := Ltv.le_size_set items call
  unfold Fits at hfit
  rw [hsetField, if_neg (by omega)] at hset
  obtain ⟨removed, hremove, happend⟩ := bind_eq_ok_iff.mp hset
  -- the field that was replaced still counts
  have hgrown := (length_of_append happend).2
  have hlength := hlayout.length
  have hold' := h.layout.length
  rw [Ltv.size_perm hperm, hgrown, length_remove hremove, toNat_add_size] at hlength
  unfold BLE_PAYLOAD_SIZE at hfit hitems
  omega

/-- A field at the last two bytes is not found. -/
lemma not_holds_of_hidden (h : Good s items) (htype : call.type ∉ items.map Item.type)
    (hsize : size items = BLE_PAYLOAD_SIZE - 2) (hlayout : Layout s' (items ++ [call])) :
    ¬ Holds s' (items ++ [call]) := by
  rintro ⟨-, hlookup⟩
  have hfound := hlookup call (List.mem_append_right _ (List.mem_singleton_self call))
  have hpayload := hlayout.payload
  rw [Ltv.encode_append, List.append_assoc] at hpayload
  obtain ⟨fuel, hfield⟩ := field_skip hpayload h.visible h.types htype
  have hnone : field s' call.type = .ok none := by
    rw [hfield, ← size, hsize]
    rfl
  unfold lookup at hfound
  rw [hnone] at hfound
  cases hfound

/-- A new type whose field can be found again. -/
lemma good_append (h : Good s items) (htype : call.type ∉ items.map Item.type)
    (hzero : call.type ≠ 0) (hvisible : size items < BLE_PAYLOAD_SIZE - 2)
    (hlayout : Layout s' (items ++ [call])) : Good s' (items ++ [call]) := by
  refine ⟨hlayout, visible_append.mpr ⟨h.visible, by rwa [Nat.zero_add]⟩, fun i hi => ?_, ?_⟩
  · rcases List.mem_append.mp hi with hold | hnew
    · exact h.types i hold
    · rwa [List.mem_singleton.mp hnew]
  · rw [List.map_append, List.nodup_append]
    refine ⟨h.nodup, by simp, ?_⟩
    intro t ht t' ht' hsame
    rw [List.map_singleton, List.mem_singleton] at ht'
    exact htype (ht' ▸ hsame ▸ ht)

/-- A call that goes right: it returns what it should, and the fields can still be found. -/
lemma setField_of_not_misses {call : Call} (h : Good s items)
    (hmiss : ¬ Misses items call.toItem) :
    ∃ ret s', setField s call.type call.value = .ok (ret, s') ∧
      (if Fits items call.toItem then ret = 0 else ret = -1 ∧ s' = s) ∧
      Good s' (next items call.toItem) := by
  unfold next
  by_cases htype : call.type ∈ items.map Item.type
  · -- the replacement does not fit
    have hfit : ¬ Fits items call.toItem := fun hfit => hmiss ⟨hfit, .inl htype⟩
    obtain ⟨old, hold, hsame⟩ := List.mem_map.mp htype
    obtain ⟨start, hset⟩ := setField_old h hold hsame
    rw [if_pos (Nat.lt_of_not_le hfit)] at hset
    simp only [if_neg hfit]
    exact ⟨-1, s, hset, ⟨rfl, rfl⟩, h⟩
  · have hitems : set items call.toItem = items ++ [call.toItem] := Ltv.set_of_notMem htype
    have hsize : size (set items call.toItem) = size items + (call.value.length + 2) := by
      rw [hitems, size_append, Ltv.size_singleton]
    by_cases hfit : Fits items call.toItem
    · simp only [if_pos hfit, hitems]
      have hroom : size items + (call.value.length + 2) ≤ BLE_PAYLOAD_SIZE := by rwa [← hsize]
      obtain ⟨s', hset, hlayout⟩ := setField_new h htype hroom
      have hvisible : size items < BLE_PAYLOAD_SIZE - 2 := by
        have hshown : ¬(call.value = [] ∧ size items = BLE_PAYLOAD_SIZE - 2) :=
          fun hhidden => hmiss ⟨hfit, .inr hhidden⟩
        rw [← List.length_eq_zero_iff] at hshown
        unfold BLE_PAYLOAD_SIZE at *
        omega
      exact ⟨0, s', hset, rfl, good_append h htype call.type_ne hvisible hlayout⟩
    · have hset := setField_new_full h htype (by rw [← hsize]; exact Nat.lt_of_not_le hfit)
      simp only [if_neg hfit]
      exact ⟨-1, s, hset, ⟨rfl, rfl⟩, h⟩

/-- A call that goes wrong leaves no map behind. -/
lemma not_holds_of_misses {call : Call} (h : Good s items) (hmiss : Misses items call.toItem)
    {ret : ℤ} (hset : setField s call.type call.value = .ok (ret, s')) :
    ¬ Holds s' (next items call.toItem) := by
  obtain ⟨hfit, hwrong⟩ := hmiss
  rw [next, if_pos hfit]
  by_cases htype : call.type ∈ items.map Item.type
  · exact not_holds_of_replaced h htype hfit hset
  · rcases hwrong with hold | ⟨-, hsize⟩
    · exact absurd hold htype
    · have hitems : set items call.toItem = items ++ [call.toItem] := Ltv.set_of_notMem htype
      unfold Fits at hfit
      rw [hitems] at hfit ⊢
      rw [size_append, Ltv.size_singleton] at hfit
      obtain ⟨s'', hset', hlayout⟩ := setField_new h htype hfit
      rw [hset] at hset'
      cases hset'
      exact not_holds_of_hidden h htype hsize hlayout

lemma conforms_iff_of_good (calls : List Call) (h : Good s items) :
    Conforms s items calls ↔ Avoids items calls := by
  induction calls generalizing s items with
  | nil => exact iff_of_true h.holds trivial
  | cons call calls ih =>
    rw [Conforms, Avoids]
    constructor
    · rintro ⟨-, ret, s', hset, -, hrest⟩
      have hright : ¬ Misses items call.toItem := fun hmiss =>
        not_holds_of_misses h hmiss hset hrest.holds
      refine ⟨hright, ?_⟩
      obtain ⟨ret', s'', hset', -, hgood⟩ := setField_of_not_misses h hright
      rw [hset] at hset'
      cases hset'
      exact (ih hgood).mp hrest
    · rintro ⟨hright, hrest⟩
      obtain ⟨ret, s', hset, hret, hgood⟩ := setField_of_not_misses h hright
      exact ⟨h.holds, ret, s', hset, hret, (ih hgood).mpr hrest⟩

/-- **A bounded map.** A new packet is a map over a sequence of calls exactly if none of them
replaces a field with one that fits, or adds an empty field behind 29 bytes of fields. -/
theorem conforms_iff (calls : List Call) : Conforms fresh [] calls ↔ Avoids [] calls :=
  conforms_iff_of_good calls good_fresh

/-- Two calls that return 0: the second value cannot be looked up, neither where a field was
replaced nor where an empty one comes last. -/
theorem conforms_lost :
    (∃ s s', setField fresh 0x01 [0xAA] = .ok (0, s) ∧ setField s 0x01 [0xBB] = .ok (0, s') ∧
      lookup s' 0x01 = .ok none ∧ s'.length = 6) ∧
    (∃ s s', setField fresh 0x01 (List.replicate 27 0xAA) = .ok (0, s) ∧
      setField s 0x02 [] = .ok (0, s') ∧ lookup s' 0x02 = .ok none) ∧
    ¬ Conforms fresh [] [⟨⟨0x01, [0xAA]⟩, by decide, by decide⟩,
      ⟨⟨0x01, [0xBB]⟩, by decide, by decide⟩] := by
  refine ⟨⟨_, _, rfl, rfl, rfl, rfl⟩, ⟨_, _, rfl, rfl, rfl⟩, fun h => ?_⟩
  have havoids := (conforms_iff_of_good _ good_fresh).mp h
  exact havoids.2.1 (by unfold Misses; decide)

end Gap
end Vng
