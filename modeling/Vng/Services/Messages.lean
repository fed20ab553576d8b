import Vng.Services.Readers

/-!
# The messages that are published

`comm::Message` and the messages of the services that build one: `Receive` of the scan service, and
the advertisements `Accept` of the button, `OpenDoor` and `TurnLamp` of the cloud service. Each is
built in memory that nobody has cleared; what that memory holds is a parameter of the builder.
-/

namespace Vng
namespace Services

open Ltv (Item encode size)
open Memory (Checked Succeeds ok_bind bind_eq_ok_iff loadAll loadAll_eq_ok store storeAll)

def EVENT_LIGHT_LAMP : Word := 0x0101
def EVENT_ACCESS_DOOR : Word := 0x0002

def TypeFlags : Byte := 0x01
def TypeCompleteLocalName : Byte := 0x09
def TypeAppearance : Byte := 0x19

/-- `ble::Address`. -/
abbrev Address := Vector Byte BLE_ADDRESS_SIZE

/-- `Message::fill(Packet &)`: the id, the size, and what the message fills in behind them. -/
def fill (id size : Word) (body : List Byte) : List Byte := wordBytes id ++ wordBytes size ++ body

/-! ## `comm::ble::Receive` -/

structure Receive where
  address : List Byte
  payload : Vector Byte BLE_PAYLOAD_SIZE
deriving DecidableEq, Repr

/-- The constructor, over what `_payload` held before. -/
def Receive.new (memory : Vector Byte BLE_PAYLOAD_SIZE) (address payload : List Byte)
    (size : Word) : Checked Receive := do
  let bytes ←
    loadAll payload 0 (if size.toNat > BLE_PAYLOAD_SIZE then BLE_PAYLOAD_SIZE else size.toNat)
  let payload ← storeAll memory 0 bytes
  return ⟨address, payload⟩

def Receive.size : Word := BitVec.ofNat 16 (BLE_PAYLOAD_SIZE + BLE_ADDRESS_SIZE)

def Receive.fill (s : Receive) : List Byte := s.address ++ s.payload.toList

/-- `received` of the scan service: the message it publishes. -/
def received (memory : Vector Byte BLE_PAYLOAD_SIZE) (packet : List Byte) :
    Checked (Option (List Byte)) :=
  if packet.length < BLE_ADDRESS_SIZE then .ok none
  else do
    let address ← loadAll packet 0 BLE_ADDRESS_SIZE
    -- the size goes through a `uint16_t`
    let receive ← Receive.new memory address (packet.drop BLE_ADDRESS_SIZE)
      (BitVec.ofNat 16 (packet.length - BLE_ADDRESS_SIZE))
    return some (Services.fill BleReceive Receive.size receive.fill)

/-! ## `comm::ble::Advertise` -/

/-- `Advertise::fill` with the end of `fillPayload`: the packet, over cleared bytes. -/
def publish (packet : Gap.Packet) : Checked (List Byte) := do
  let bytes ← loadAll packet.payload.toList 0 packet.length.toNat
  let payload ← storeAll (Vector.replicate BLE_PAYLOAD_SIZE 0) 0 bytes
  return payload.toList

/-- The packet that all three fill in; what `setFiled` returns is not looked at. -/
def advertise (store name : List Byte) : Checked (List Byte) := do
  let (_, packet) ← Gap.setField Gap.fresh TypeFlags [0]
  let (_, packet) ← Gap.setField packet TypeAppearance [0]
  let (_, packet) ← Gap.setField packet TypeManufacturerSpecificData store
  let (_, packet) ← Gap.setField packet TypeCompleteLocalName name
  publish packet

/-- `uint8_t store[…]` with its assignments: the company, and an event with a command and its
payload. Nobody assigns the sequence id. -/
def event {n : ℕ} (memory : Vector Byte n) (commandId : Word) (payload : List Byte) :
    Checked (Vector Byte n) := do
  let bytes ← storeAll memory 0 (wordBytes 0xFF0F)
  let bytes ← storeAll bytes commandIdOffset (wordBytes commandId)
  let bytes ← store bytes gatewayOffset 1
  storeAll bytes payloadOffset payload

/-- `sizeof(store)` for an event with `count` bytes of payload. -/
abbrev storeSize (count : ℕ) : ℕ := eventOffset + eventSize + count

/-- `"VNG lamp"`. -/
def Accept.name : List Byte := [0x56, 0x4E, 0x47, 0x20, 0x6C, 0x61, 0x6D, 0x70]

/-- `Accept` of the button, with its level. -/
def Accept.fillPayload (memory : Vector Byte (storeSize 1)) (level : Byte) :
    Checked (List Byte) := do
  let store ← event memory EVENT_LIGHT_LAMP [level]
  advertise store.toList Accept.name

/-- `"VNG door"`. -/
def OpenDoor.name : List Byte := [0x56, 0x4E, 0x47, 0x20, 0x64, 0x6F, 0x6F, 0x72]

def OpenDoor.fillPayload (memory : Vector Byte (storeSize BLE_ADDRESS_SIZE))
    (address : Address) : Checked (List Byte) := do
  let store ← event memory EVENT_ACCESS_DOOR address.toList
  advertise store.toList OpenDoor.name

/-- `"VNG Lamp"`. -/
def TurnLamp.name : List Byte := [0x56, 0x4E, 0x47, 0x20, 0x4C, 0x61, 0x6D, 0x70]

/-- `TurnLamp`; it has an address, and does not fill it in. -/
def TurnLamp.fillPayload (memory : Vector Byte (storeSize 1)) (_address : Address)
    (brightness : ℤ) : Checked (List Byte) := do
  let store ← event memory EVENT_LIGHT_LAMP [BitVec.ofInt 8 brightness]
  advertise store.toList TurnLamp.name

/-! ## What is published -/

/-- The fields of an advertisement: the name goes where it does not fit. -/
def fields (store name : List Byte) : List Item :=
  [⟨TypeFlags, [0]⟩, ⟨TypeAppearance, [0]⟩, ⟨TypeManufacturerSpecificData, store⟩] ++
    if store.length + name.length ≤ 21 then [⟨TypeCompleteLocalName, name⟩] else []

/-- The zeros behind the fields in the 31 bytes. -/
def padded (items : List Item) : List Byte :=
  encode items ++ List.replicate (BLE_PAYLOAD_SIZE - size items) 0

variable {packet : Gap.Packet} {items : List Item} {bytes name : List Byte}

lemma publish_eq (h : Gap.Layout packet items) : publish packet = .ok (padded items) := by
  have hsize := h.size_le
  have hread : (packet.payload.toList.drop 0).take packet.length.toNat = encode items := by
    rw [List.drop_zero, h.payload, h.length, size, List.take_left]
  obtain ⟨payload, hstore, hpayload⟩ :=
    Memory.storeAll_front (Vector.replicate BLE_PAYLOAD_SIZE (0 : Byte)) hsize
  rw [Vector.toList_replicate, List.drop_replicate] at hpayload
  unfold publish
  rw [loadAll_eq_ok (by rw [Vector.length_toList, h.length]; omega), ok_bind, hread, hstore,
    ok_bind]
  exact congrArg Except.ok hpayload

/-- One more field that fits, and that can be found again. -/
lemma setField_eq_ok (i : Item) (h : Gap.Good packet items) (htype : i.type ∉ items.map Item.type)
    (hzero : i.type ≠ 0) (hvisible : size items < BLE_PAYLOAD_SIZE - 2)
    (hfit : size items + (i.value.length + 2) ≤ BLE_PAYLOAD_SIZE) :
    ∃ packet', Gap.setField packet i.type i.value = .ok (0, packet') ∧
      Gap.Good packet' (items ++ [i]) := by
  obtain ⟨packet', hset, hlayout⟩ := Gap.setField_new h htype hfit
  exact ⟨packet', hset, Gap.good_append h htype hzero hvisible hlayout⟩

/-- Up to 23 bytes of data fit in a packet behind the flags and the appearance. -/
lemma advertise_eq (name : List Byte) (hbytes : bytes.length ≤ 23) :
    advertise bytes name = .ok (padded (fields bytes name)) := by
  obtain ⟨packet₁, hset₁, hgood₁⟩ := setField_eq_ok ⟨TypeFlags, [0]⟩ Gap.good_fresh (by simp)
    (by decide) (by decide) (by decide)
  obtain ⟨packet₂, hset₂, hgood₂⟩ := setField_eq_ok ⟨TypeAppearance, [0]⟩ hgood₁ (by decide)
    (by decide) (by decide) (by decide)
  have hsix : size ([] ++ [⟨TypeFlags, [0]⟩] ++ [⟨TypeAppearance, [0]⟩]) = 6 := rfl
  have hroom : 6 + (bytes.length + 2) ≤ BLE_PAYLOAD_SIZE := by unfold BLE_PAYLOAD_SIZE; omega
  obtain ⟨packet₃, hset₃, hgood₃⟩ := setField_eq_ok ⟨TypeManufacturerSpecificData, bytes⟩ hgood₂
    (show TypeManufacturerSpecificData ∉ [TypeFlags, TypeAppearance] by decide)
    (show TypeManufacturerSpecificData ≠ 0 by decide) (by rw [hsix]; decide) hroom
  have hsize : size ([] ++ [⟨TypeFlags, [0]⟩] ++ [⟨TypeAppearance, [0]⟩] ++
      [⟨TypeManufacturerSpecificData, bytes⟩]) = 6 + (bytes.length + 2) := by
    rw [Ltv.size_append, hsix, Ltv.size_singleton]
  have hname : TypeCompleteLocalName ∉ [TypeFlags, TypeAppearance, TypeManufacturerSpecificData] :=
    by decide
  unfold advertise fields
  rw [hset₁, ok_bind]
  dsimp only
  rw [hset₂, ok_bind]
  dsimp only
  rw [hset₃, ok_bind]
  dsimp only
  have hthree := hgood₃
  rw [List.append_assoc, List.append_assoc, List.nil_append] at hthree
  rw [List.append_assoc, List.append_assoc, List.nil_append] at hsize
  by_cases hfit : bytes.length + name.length ≤ 21
  · obtain ⟨packet₄, hset₄, hlayout₄⟩ := Gap.setField_new hthree
      (show Item.type ⟨TypeCompleteLocalName, name⟩ ∉ _ from hname)
      (show _ + (name.length + 2) ≤ _ by rw [hsize]; unfold BLE_PAYLOAD_SIZE; omega)
    rw [hset₄, ok_bind, if_pos hfit]
    exact publish_eq hlayout₄
  · have hfull := Gap.setField_new_full hthree
      (show Item.type ⟨TypeCompleteLocalName, name⟩ ∉ _ from hname)
      (show _ < _ + (name.length + 2) by rw [hsize]; unfold BLE_PAYLOAD_SIZE; omega)
    rw [hfull, ok_bind, if_neg hfit]
    exact publish_eq hthree.layout

/-- The data of the advertisement stands behind eight bytes. -/
lemma padded_fields (bytes name : List Byte) :
    ∃ rest, padded (fields bytes name) =
      [2, TypeFlags, 0, 2, TypeAppearance, 0, BitVec.ofNat 8 (bytes.length + 1),
        TypeManufacturerSpecificData] ++ (bytes ++ rest) := by
  have hthree : encode [⟨TypeFlags, [0]⟩, ⟨TypeAppearance, [0]⟩,
      ⟨TypeManufacturerSpecificData, bytes⟩] =
        [2, TypeFlags, 0, 2, TypeAppearance, 0, BitVec.ofNat 8 (bytes.length + 1),
          TypeManufacturerSpecificData] ++ bytes := by
    simp [encode, Item.encode]
  unfold padded fields
  rw [Ltv.encode_append, hthree, List.append_assoc, List.append_assoc]
  exact ⟨_, rfl⟩

/-- Advertisements of data of one length differ where the data differs. -/
lemma padded_inj {bytes' name' : List Byte} (hlength : bytes.length = bytes'.length)
    (h : padded (fields bytes name) = padded (fields bytes' name')) : bytes = bytes' := by
  obtain ⟨rest, hrest⟩ := padded_fields bytes name
  obtain ⟨rest', hrest'⟩ := padded_fields bytes' name'
  rw [hrest, hrest', hlength] at h
  exact (List.append_inj (List.append_cancel_left h) hlength).1

/-- The bytes of an event whose sequence id and last byte nobody has assigned. -/
def eventBytes (lo hi last : Byte) (commandId : Word) (payload : List Byte) : List Byte :=
  wordBytes 0xFF0F ++ [lo, hi] ++ wordBytes commandId ++ [1] ++ payload ++ [last]

/-- What `event` leaves of the memory: two bytes in front of the command, and the last one. -/
lemma event_eq_ok {n : ℕ} {lo hi last : Byte} {payload mid : List Byte} {a b c d g : Byte}
    {memory : Vector Byte n} (commandId : Word)
    (hmemory : memory.toList = [a, b] ++ [lo, hi] ++ [c, d] ++ [g] ++ mid ++ [last])
    (hmid : mid.length = payload.length) :
    ∃ store, event memory commandId payload = .ok store ∧
      store.toList = eventBytes lo hi last commandId payload := by
  obtain ⟨store₁, hstore₁, h₁⟩ := Memory.storeAll_eq_ok (wordBytes 0xFF0F)
    (show memory.toList = [] ++ [a, b] ++ ([lo, hi] ++ [c, d] ++ [g] ++ mid ++ [last]) by
      simpa using hmemory) rfl
  obtain ⟨store₂, hstore₂, h₂⟩ := Memory.storeAll_eq_ok (wordBytes commandId)
    (show store₁.toList =
        (wordBytes 0xFF0F ++ [lo, hi]) ++ [c, d] ++ ([g] ++ mid ++ [last]) by simpa using h₁) rfl
  obtain ⟨store₃, hstore₃, h₃⟩ := Memory.store_eq_ok (1 : Byte)
    (show store₂.toList = (wordBytes 0xFF0F ++ [lo, hi] ++ wordBytes commandId) ++
        g :: (mid ++ [last]) by simpa using h₂)
  obtain ⟨store₄, hstore₄, h₄⟩ := Memory.storeAll_eq_ok payload
    (show store₃.toList = (wordBytes 0xFF0F ++ [lo, hi] ++ wordBytes commandId ++ [1]) ++
        mid ++ [last] by simpa using h₃) hmid
  refine ⟨store₄, ?_, h₄⟩
  unfold event
  rw [show 0 = ([] : List Byte).length from rfl, hstore₁, ok_bind]
  rw [show commandIdOffset = (wordBytes 0xFF0F ++ [lo, hi]).length from rfl, hstore₂, ok_bind]
  rw [show gatewayOffset = (wordBytes 0xFF0F ++ [lo, hi] ++ wordBytes commandId).length from rfl,
    hstore₃, ok_bind]
  exact hstore₄

/-- Memory for an event, byte by byte. -/
lemma exists_memory {count : ℕ} (memory : Vector Byte (storeSize count)) :
    ∃ a b lo hi c d g mid last,
      memory.toList = [a, b] ++ [lo, hi] ++ [c, d] ++ [g] ++ mid ++ [last] ∧
        mid.length = count := by
  have hlength : memory.toList.length = 8 + count := Vector.length_toList
  have hfront : (memory.toList.take 7).length = 7 := by
    rw [List.length_take]
    omega
  have hback : (memory.toList.drop 7).length = count + 1 := by
    rw [List.length_drop]
    omega
  have hne : memory.toList.drop 7 ≠ [] := List.ne_nil_of_length_eq_add_one hback
  have hsplit := List.take_append_drop 7 memory.toList
  generalize memory.toList.take 7 = front at hfront hsplit
  match front, hfront with
  | [a, b, lo, hi, c, d, g], _ =>
    refine ⟨a, b, lo, hi, c, d, g, (memory.toList.drop 7).dropLast,
      (memory.toList.drop 7).getLast hne, ?_, ?_⟩
    · rw [List.append_assoc, List.dropLast_append_getLast]
      exact hsplit.symm
    · rw [List.length_dropLast, hback, Nat.add_sub_cancel]

/-- An event is built, whatever the memory holds; three bytes of the memory stay. -/
lemma event_spec {count : ℕ} (commandId : Word) {payload : List Byte}
    (hpayload : payload.length = count) (memory : Vector Byte (storeSize count)) :
    ∃ lo ∈ memory.toList, ∃ hi ∈ memory.toList, ∃ last ∈ memory.toList, ∃ store,
      event memory commandId payload = .ok store ∧
        store.toList = eventBytes lo hi last commandId payload := by
  obtain ⟨a, b, lo, hi, c, d, g, mid, last, hmemory, hmid⟩ := exists_memory memory
  obtain ⟨store, hstore, hbytes⟩ := event_eq_ok commandId hmemory (hmid.trans hpayload.symm)
  exact ⟨lo, by simp [hmemory], hi, by simp [hmemory], last, by simp [hmemory], store, hstore,
    hbytes⟩

lemma length_eventBytes {lo hi last : Byte} {commandId : Word} {payload : List Byte} :
    (eventBytes lo hi last commandId payload).length = storeSize payload.length := by
  simp [eventBytes, storeSize, eventOffset, eventSize]
  omega

/-- The advertisement of an event of up to 15 bytes. -/
lemma advertise_event {count : ℕ} (commandId : Word) {payload : List Byte} (name : List Byte)
    (hpayload : payload.length = count) (hcount : count ≤ 15)
    (memory : Vector Byte (storeSize count)) :
    ∃ lo ∈ memory.toList, ∃ hi ∈ memory.toList, ∃ last ∈ memory.toList,
      (do
        let store ← event memory commandId payload
        advertise store.toList name) =
          .ok (padded (fields (eventBytes lo hi last commandId payload) name)) := by
  obtain ⟨lo, hlo, hi, hhi, last, hlast, store, hstore, hbytes⟩ :=
    event_spec commandId hpayload memory
  refine ⟨lo, hlo, hi, hhi, last, hlast, ?_⟩
  rw [hstore, ok_bind, hbytes, advertise_eq]
  rw [length_eventBytes, hpayload]
  unfold storeSize eventOffset eventSize
  omega

/-! ## What depends on the memory -/

/-- The result is the same for any two contents of the memory. -/
def Deterministic {n : ℕ} {α : Type} (build : Vector Byte n → Checked α) : Prop :=
  ∀ memory memory', build memory = build memory'

/-- The sequence id is what the memory held. -/
lemma not_deterministic_event {count : ℕ} (commandId : Word) {payload : List Byte}
    (name : List Byte) (hpayload : payload.length = count) (hcount : count ≤ 15) :
    ¬ Deterministic (fun memory : Vector Byte (storeSize count) => do
      let store ← event memory commandId payload
      advertise store.toList name) := by
  intro h
  obtain ⟨lo, hlo, hi, -, last, -, hzero⟩ := advertise_event commandId name hpayload hcount
    (Vector.replicate (storeSize count) 0)
  obtain ⟨lo', hlo', hi', -, last', -, hone⟩ := advertise_event commandId name hpayload hcount
    (Vector.replicate (storeSize count) 1)
  rw [Vector.toList_replicate] at hlo hlo'
  have hsame := h (Vector.replicate (storeSize count) 0) (Vector.replicate (storeSize count) 1)
  dsimp only at hsame
  rw [hzero, hone, Except.ok.injEq] at hsame
  have hbytes := padded_inj (by rw [length_eventBytes, length_eventBytes]) hsame
  simp only [eventBytes, List.append_assoc, List.cons_append] at hbytes
  have hlow : lo = lo' := List.head_eq_of_cons_eq (List.append_cancel_left hbytes)
  rw [List.eq_of_mem_replicate hlo, List.eq_of_mem_replicate hlo'] at hlow
  exact absurd hlow (by decide)

/-- The message that the scan service should publish: the address, up to 31 bytes of payload, and
zeros. -/
def receiveMessage (packet : List Byte) : List Byte :=
  let payload := (packet.drop BLE_ADDRESS_SIZE).take BLE_PAYLOAD_SIZE
  fill BleReceive Receive.size
    (packet.take BLE_ADDRESS_SIZE ++
      (payload ++ List.replicate (BLE_PAYLOAD_SIZE - payload.length) 0))

lemma received_eq {packet : List Byte} (hmin : BLE_ADDRESS_SIZE ≤ packet.length)
    (memory : Vector Byte BLE_PAYLOAD_SIZE) {count : ℕ}
    (hcount : count = min BLE_PAYLOAD_SIZE ((packet.length - BLE_ADDRESS_SIZE) % 2 ^ 16)) :
    received memory packet = .ok (some (fill BleReceive Receive.size
      (packet.take BLE_ADDRESS_SIZE ++ ((packet.drop BLE_ADDRESS_SIZE).take count ++
        memory.toList.drop count)))) := by
  have hle : count ≤ packet.length - BLE_ADDRESS_SIZE := by
    have := Nat.mod_le (packet.length - BLE_ADDRESS_SIZE) (2 ^ 16)
    omega
  have hmax : count ≤ BLE_PAYLOAD_SIZE := by omega
  have hclamp : (if (BitVec.ofNat 16 (packet.length - BLE_ADDRESS_SIZE)).toNat > BLE_PAYLOAD_SIZE
      then BLE_PAYLOAD_SIZE
      else (BitVec.ofNat 16 (packet.length - BLE_ADDRESS_SIZE)).toNat) = count := by
    rw [BitVec.toNat_ofNat]
    split_ifs <;> omega
  have hread : loadAll (packet.drop BLE_ADDRESS_SIZE) 0 count =
      .ok ((packet.drop BLE_ADDRESS_SIZE).take count) := by
    rw [loadAll_eq_ok (by rw [List.length_drop]; omega), List.drop_zero]
  have hlength : ((packet.drop BLE_ADDRESS_SIZE).take count).length = count := by
    rw [List.length_take, List.length_drop, min_eq_left hle]
  obtain ⟨payload, hstore, hpayload⟩ := Memory.storeAll_front memory (hlength.trans_le hmax)
  unfold received Receive.new
  rw [if_neg (not_lt.mpr hmin), loadAll_eq_ok (by omega), ok_bind, hclamp, hread, ok_bind]
  rw [hstore, ok_bind, List.drop_zero]
  show Except.ok (some (fill _ _ (_ ++ payload.toList))) = _
  rw [hpayload, hlength]

/-- The message is the intended one for any memory exactly if the payload fills it. -/
lemma received_iff {packet : List Byte} (hmin : BLE_ADDRESS_SIZE ≤ packet.length) :
    (∀ memory, received memory packet = .ok (some (receiveMessage packet))) ↔
      BLE_PAYLOAD_SIZE ≤ (packet.length - BLE_ADDRESS_SIZE) % 2 ^ 16 := by
  have hmod := Nat.mod_le (packet.length - BLE_ADDRESS_SIZE) (2 ^ 16)
  constructor
  · intro h
    by_contra hshort
    obtain ⟨count, hvalue⟩ : ∃ count, count = (packet.length - BLE_ADDRESS_SIZE) % 2 ^ 16 :=
      ⟨_, rfl⟩
    have hcount : count =
        min BLE_PAYLOAD_SIZE ((packet.length - BLE_ADDRESS_SIZE) % 2 ^ 16) := by omega
    -- memories of zeros and of ones give the same message
    have hsame := (h (Vector.replicate _ 0)).trans (h (Vector.replicate _ 1)).symm
    rw [received_eq hmin _ hcount, received_eq hmin _ hcount, Vector.toList_replicate,
      Vector.toList_replicate, List.drop_replicate, List.drop_replicate] at hsame
    have hbytes := List.append_cancel_left (List.append_cancel_left
      (List.append_cancel_left (Option.some.inj (Except.ok.inj hsame))))
    obtain ⟨k, hk⟩ : ∃ k, BLE_PAYLOAD_SIZE - count = k + 1 :=
      ⟨BLE_PAYLOAD_SIZE - count - 1, by omega⟩
    rw [hk, List.replicate_succ, List.replicate_succ] at hbytes
    exact absurd (List.head_eq_of_cons_eq hbytes) (by decide)
  · intro hfull memory
    have hcount : BLE_PAYLOAD_SIZE =
        min BLE_PAYLOAD_SIZE ((packet.length - BLE_ADDRESS_SIZE) % 2 ^ 16) := by omega
    have hlength : ((packet.drop BLE_ADDRESS_SIZE).take BLE_PAYLOAD_SIZE).length =
        BLE_PAYLOAD_SIZE := by
      rw [List.length_take, List.length_drop]
      omega
    have hnone : memory.toList.drop BLE_PAYLOAD_SIZE = [] :=
      List.drop_of_length_le (by rw [Vector.length_toList])
    rw [received_eq hmin memory hcount, hnone]
    unfold receiveMessage
    dsimp only
    rw [hlength, Nat.sub_self, List.replicate_zero]

/-- **Published messages.** The message of a received packet depends on the packet alone exactly
if its payload, modulo `2^16`, has 31 bytes; the three advertisements never depend on their
arguments alone. -/
theorem published_iff (packet : List Byte) (hmin : BLE_ADDRESS_SIZE ≤ packet.length) :
    ((∀ memory, received memory packet = .ok (some (receiveMessage packet))) ↔
      BLE_PAYLOAD_SIZE ≤ (packet.length - BLE_ADDRESS_SIZE) % 2 ^ 16) ∧
    (∀ level, ¬ Deterministic fun memory => Accept.fillPayload memory level) ∧
    (∀ address, ¬ Deterministic fun memory => OpenDoor.fillPayload memory address) ∧
    ∀ address brightness,
      ¬ Deterministic fun memory => TurnLamp.fillPayload memory address brightness :=
  ⟨received_iff hmin,
    fun level => not_deterministic_event EVENT_LIGHT_LAMP Accept.name
      (show [level].length = 1 from rfl) (by decide),
    fun address => not_deterministic_event EVENT_ACCESS_DOOR OpenDoor.name
      (show address.toList.length = BLE_ADDRESS_SIZE from Vector.length_toList) (by decide),
    fun _ brightness => not_deterministic_event EVENT_LIGHT_LAMP TurnLamp.name
      (show [BitVec.ofInt 8 brightness].length = 1 from rfl) (by decide)⟩

/-- A packet of an address and one more byte. -/
theorem published_iff_short :
    ((∀ memory, received memory (List.replicate 7 0) =
        .ok (some (receiveMessage (List.replicate 7 0)))) ↔
      BLE_PAYLOAD_SIZE ≤ ((List.replicate 7 (0 : Byte)).length - BLE_ADDRESS_SIZE) % 2 ^ 16) :=
  (published_iff (List.replicate 7 0) (by decide)).1

/-- Two contents of the memory, one packet and one level: the messages differ. -/
theorem published_leaked :
    received (Vector.replicate _ 0x55) [1, 2, 3, 4, 5, 6, 0xAA] ≠
        .ok (some (receiveMessage [1, 2, 3, 4, 5, 6, 0xAA])) ∧
      Accept.fillPayload (Vector.replicate _ 0) 7 ≠
        Accept.fillPayload (Vector.replicate _ 0x55) 7 := by
  exact ⟨by decide, by decide⟩

end Services
end Vng
