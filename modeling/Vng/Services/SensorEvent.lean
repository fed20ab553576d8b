import Vng.Services.Readers

/-!
# The event of a light sensor

What `parse` of `light/sensor` makes of an event, with the memory behind the packet taken into
account: the dump reads there. In `struct _Event` the member `battery` stands behind `payload[0]`,
which has no size, so both have one offset: the battery that is uploaded is the first byte of the
value.
-/

namespace Vng
namespace Services

open Ltv (Item)
open Memory (Checked ok_bind bind_eq_ok_iff load loadAt loadAll loadAt_append loadAll_append
  loadAll_eq_ok)
open Subscriber (Parse)

/-! ## `parse`, and the memory behind the packet -/

/-- `parse`, where the packet's payload is followed by its length and by `heap`. A read behind the
field reads on there. -/
def Sensor.parseIn (heap : List Byte) : Parse Sensor.Upload := fun id payload size =>
  if id ≠ BleReceive ∨ size.toNat < BLE_ADDRESS_SIZE + BLE_PAYLOAD_SIZE then .ok none
  else do
    let (error, packet) ← Gap.setPayload (payload.drop BLE_ADDRESS_SIZE) Sensor.handed
    if error ≠ 0 then return none
    else
      match ← Gap.field packet TypeManufacturerSpecificData with
      | none => return none
      | some start =>
        let length ← load packet.payload start
        Sensor.parseField payload
          ⟨length, (packet.payload.toList ++ packet.length :: heap).drop (start + 2)⟩

lemma loadWord_append {value : List Byte} {i : ℕ} {w : Word} (rest : List Byte)
    (h : loadWord value i = .ok w) : loadWord (value ++ rest) i = .ok w := by
  obtain ⟨lo, hlo, hrest⟩ := bind_eq_ok_iff.mp h
  obtain ⟨hi, hhi, hword⟩ := bind_eq_ok_iff.mp hrest
  unfold loadWord
  rw [loadAt_append rest hlo, ok_bind, loadAt_append rest hhi, ok_bind]
  exact hword

/-- More memory behind the field changes nothing that was read without it. -/
lemma Sensor.parseField_append {payload value : List Byte} {length : Byte}
    {upload : Option Sensor.Upload} (rest : List Byte)
    (h : Sensor.parseField payload ⟨length, value⟩ = .ok upload) :
    Sensor.parseField payload ⟨length, value ++ rest⟩ = .ok upload := by
  unfold Sensor.parseField at h ⊢
  obtain ⟨companyId, hcompanyId, h⟩ := bind_eq_ok_iff.mp h
  rw [loadWord_append rest hcompanyId, ok_bind]
  split_ifs at h ⊢ with hcompany hlength
  · exact h
  · exact h
  obtain ⟨dump, hdump, h⟩ := bind_eq_ok_iff.mp h
  rw [loadAll_append rest hdump, ok_bind]
  obtain ⟨commandId, hcommandId, h⟩ := bind_eq_ok_iff.mp h
  rw [loadWord_append rest hcommandId, ok_bind]
  split_ifs at h ⊢ with hcommand
  obtain ⟨gateway, hgateway, h⟩ := bind_eq_ok_iff.mp h
  rw [loadAt_append rest hgateway, ok_bind]
  split_ifs at h ⊢ with hzero
  · exact h
  obtain ⟨bytes, hbytes, h⟩ := bind_eq_ok_iff.mp h
  rw [loadAll_append rest hbytes, ok_bind]
  obtain ⟨battery, hbattery, h⟩ := bind_eq_ok_iff.mp h
  rw [loadAt_append rest hbattery, ok_bind]
  exact h

/-- **`parse` reads the same.** Where no read leaves the field, the memory behind it has no part in
the result. -/
theorem Sensor.parseIn_of_parse {payload heap : List Byte} {id size : Word}
    {upload : Option Sensor.Upload} (h : Sensor.parse id payload size = .ok upload) :
    Sensor.parseIn heap id payload size = .ok upload := by
  unfold Sensor.parse at h
  unfold Sensor.parseIn
  split_ifs at h ⊢ with hmessage
  · exact h
  obtain ⟨found, hfound, h⟩ := bind_eq_ok_iff.mp h
  unfold manufacturer at hfound
  split_ifs at hfound with hsize
  obtain ⟨⟨error, packet⟩, hset, hfound⟩ := bind_eq_ok_iff.mp hfound
  rw [hset, ok_bind]
  dsimp only at hfound ⊢
  split_ifs at hfound ⊢ with herror
  · cases hfound
    exact h
  obtain ⟨start, hstart, hfound⟩ := bind_eq_ok_iff.mp hfound
  rw [hstart, ok_bind]
  cases start with
  | none =>
    cases hfound
    exact h
  | some start =>
    obtain ⟨length, hlength, hfound⟩ := bind_eq_ok_iff.mp hfound
    obtain ⟨value, hvalue, hfound⟩ := bind_eq_ok_iff.mp hfound
    cases hfound
    dsimp only at h ⊢
    rw [hlength, ok_bind]
    -- the field is the beginning of what stands behind its type
    have hread := Memory.succeeds_loadAll_iff.mp ⟨value, hvalue⟩
    rw [loadAll_eq_ok hread, Except.ok.injEq] at hvalue
    have hsplit : (packet.payload.toList ++ packet.length :: heap).drop (start + 2) =
        value ++ ((packet.payload.toList.drop (start + 2)).drop (length.toNat - 1) ++
          packet.length :: heap) := by
      rw [List.drop_append_of_le_length (by omega), ← hvalue, ← List.append_assoc,
        List.take_append_drop]
    rw [hsplit]
    exact Sensor.parseField_append _ h

/-! ## The event -/

/-- The commands of the sensors that `parse` knows. -/
def Sensor.commands : List Word :=
  [EVENT_LIGHT_SENSOR, EVENT_TEMP_SENSOR, EVENT_MCTEMP_SENSOR, EVENT_HUM_SENSOR]

/-- The value of a manufacturer's field: the company, an event of gateway 0, its payload, and the
battery behind it. -/
def Sensor.eventValue (sequenceId commandId : Word) (payload : List Byte) (battery : Byte) :
    List Byte :=
  wordBytes 0xFF0F ++ wordBytes sequenceId ++ wordBytes commandId ++ [0] ++ payload ++ [battery]

/-- The message is one whose advertisement is copied, with this value in the first field of the
manufacturer. -/
def Sensor.Carries (message value : List Byte) : Prop :=
  BLE_ADDRESS_SIZE ≤ message.length ∧ ∃ packet before after,
    Gap.setPayload (message.drop BLE_ADDRESS_SIZE) Sensor.handed = .ok (0, packet) ∧
      Gap.Fields packet (before ++ ⟨TypeManufacturerSpecificData, value⟩ :: after) ∧
      TypeManufacturerSpecificData ∉ before.map Item.type

variable {sequenceId commandId : Word} {message payload value heap : List Byte} {battery : Byte}

/-- What `parse` reads of the event: both the value and the battery start behind the gateway. -/
lemma Sensor.parseField_event {length first : Byte} {rest behind : List Byte}
    (hmessage : BLE_ADDRESS_SIZE ≤ message.length) (hcommand : commandId ∈ Sensor.commands)
    (hrest : 3 ≤ rest.length) (hlength : 10 ≤ length.toNat)
    (hbehind : eventOffset + eventSize * eventSize ≤
      (Sensor.eventValue sequenceId commandId (first :: rest) battery ++ behind).length) :
    Sensor.parseField message
        ⟨length, Sensor.eventValue sequenceId commandId (first :: rest) battery ++ behind⟩ =
      .ok (some ⟨message.take BLE_ADDRESS_SIZE, (first :: rest).take Sensor.valueSize, first,
        commandId⟩) := by
  have hmemory : Sensor.eventValue sequenceId commandId (first :: rest) battery ++ behind =
      wordBytes 0xFF0F ++ (wordBytes sequenceId ++ (wordBytes commandId ++
        0 :: first :: (rest ++ battery :: behind))) := by
    simp [Sensor.eventValue]
  generalize Sensor.eventValue sequenceId commandId (first :: rest) battery ++ behind = memory
    at hmemory hbehind ⊢
  have hcompany : loadWord memory 0 = .ok 0xFF0F := by
    rw [hmemory]
    exact congrArg Except.ok (wordOf_wordBytes 0xFF0F)
  have hcommandId : loadWord memory commandIdOffset = .ok commandId := by
    rw [hmemory]
    exact congrArg Except.ok (wordOf_wordBytes commandId)
  have hgateway : loadAt memory gatewayOffset = .ok 0 := by
    rw [hmemory]
    rfl
  have hvalue : loadAll memory payloadOffset Sensor.valueSize =
      .ok ((first :: rest).take Sensor.valueSize) := by
    have hlen : payloadOffset + Sensor.valueSize ≤ memory.length := by
      unfold payloadOffset eventOffset eventSize Sensor.valueSize at *
      omega
    rw [loadAll_eq_ok hlen, hmemory]
    refine congrArg Except.ok ?_
    show (first :: (rest ++ battery :: behind)).take (3 + 1) = (first :: rest).take (3 + 1)
    rw [List.take_succ_cons, List.take_succ_cons, List.take_append_of_le_length hrest]
  have hbattery : loadAt memory payloadOffset = .ok first := by
    rw [hmemory]
    rfl
  have haddress : loadAll message 0 BLE_ADDRESS_SIZE = .ok (message.take BLE_ADDRESS_SIZE) :=
    loadAll_eq_ok (by omega)
  have hknown : ¬(commandId ≠ EVENT_LIGHT_SENSOR ∧ commandId ≠ EVENT_TEMP_SENSOR ∧
      commandId ≠ EVENT_MCTEMP_SENSOR ∧ commandId ≠ EVENT_HUM_SENSOR) := by
    simp only [Sensor.commands, List.mem_cons, List.not_mem_nil, or_false] at hcommand
    grind
  unfold Sensor.parseField
  rw [hcompany, ok_bind, if_neg (not_not.mpr rfl),
    if_neg (not_lt.mpr (show eventSize + Sensor.valueSize ≤ length.toNat from hlength)),
    loadAll_eq_ok hbehind, ok_bind, hcommandId, ok_bind, if_neg hknown, hgateway, ok_bind,
    if_neg (not_not.mpr rfl), hvalue, ok_bind, hbattery, ok_bind, haddress, ok_bind]
  rfl

lemma Sensor.length_eventValue (sequenceId commandId : Word) (payload : List Byte)
    (battery : Byte) :
    (Sensor.eventValue sequenceId commandId payload battery).length = payload.length + 8 := by
  simp [Sensor.eventValue]
  omega

/-- The upload of a message that carries an event. -/
lemma Sensor.parseIn_event {first : Byte} {rest : List Byte} {size : Word}
    (hsize : BLE_ADDRESS_SIZE + BLE_PAYLOAD_SIZE ≤ size.toNat)
    (hheap : eventSize * eventSize ≤ heap.length)
    (hcommand : commandId ∈ Sensor.commands) (hrest : 3 ≤ rest.length)
    (hcarries : Sensor.Carries message
      (Sensor.eventValue sequenceId commandId (first :: rest) battery)) :
    Sensor.parseIn heap BleReceive message size =
      .ok (some ⟨message.take BLE_ADDRESS_SIZE, (first :: rest).take Sensor.valueSize, first,
        commandId⟩) := by
  obtain ⟨hmessage, packet, before, after, hset, hfields, hbefore⟩ := hcarries
  obtain ⟨hfield, post, hpayload⟩ := Gap.field_first hfields hbefore
  have hvalue := Sensor.length_eventValue sequenceId commandId (first :: rest) battery
  generalize hevent : Sensor.eventValue sequenceId commandId (first :: rest) battery = value
    at hfields hpayload hvalue
  have hlength := Gap.length_of_toList hpayload
  rw [List.length_append, Ltv.length_encode_item, ← Ltv.size, hvalue, List.length_cons] at hlength
  -- the memory from the value of the field on
  have hmemory : (packet.payload.toList ++ packet.length :: heap).drop (Ltv.size before + 2) =
      value ++ (post ++ packet.length :: heap) := by
    rw [hpayload, List.append_assoc, ← List.drop_drop, Ltv.size, List.drop_left]
    simp [Item.encode]
  have hbehind : eventOffset + eventSize * eventSize ≤
      (value ++ (post ++ packet.length :: heap)).length := by
    rw [List.length_append, List.length_append, List.length_cons, hvalue]
    unfold eventOffset
    omega
  have hten : 10 ≤ (BitVec.ofNat 8 (value.length + 1)).toNat := by
    rw [Gap.toNat_length hpayload, hvalue, List.length_cons]
    omega
  unfold Sensor.parseIn
  rw [if_neg (by simpa using hsize), hset, ok_bind]
  dsimp only
  rw [if_neg (by simp), hfield, ok_bind]
  dsimp only
  rw [Gap.load_length hpayload, ok_bind, hmemory]
  subst hevent
  exact Sensor.parseField_event hmessage hcommand hrest hten hbehind

/-- **A sensor's event.** Of a field laid out as company, event and battery, `parse` makes an
upload of the first four bytes of the payload. Its battery is right, and does not change with the
payload, exactly if both payloads begin with the byte that stands behind them. -/
theorem Sensor.parseIn_battery_iff {payload' message' : List Byte} {size : Word}
    (hsize : BLE_ADDRESS_SIZE + BLE_PAYLOAD_SIZE ≤ size.toNat)
    (hheap : eventSize * eventSize ≤ heap.length)
    (hcommand : commandId ∈ Sensor.commands) (hpayload : 4 ≤ payload.length)
    (hlength : payload'.length = payload.length)
    (hcarries : Sensor.Carries message (Sensor.eventValue sequenceId commandId payload battery))
    (hchanged : Sensor.Carries message'
      (Sensor.eventValue sequenceId commandId payload' battery)) :
    (∃ upload, Sensor.parseIn heap BleReceive message size = .ok (some upload) ∧
      upload.value = payload.take Sensor.valueSize) ∧
    ((∃ upload upload', Sensor.parseIn heap BleReceive message size = .ok (some upload) ∧
      Sensor.parseIn heap BleReceive message' size = .ok (some upload') ∧
      upload.value = payload.take Sensor.valueSize ∧ upload.battery = battery ∧
      upload'.battery = upload.battery) ↔
    payload.head? = some battery ∧ payload'.head? = some battery) := by
  cases payload with
  | nil => simp at hpayload
  | cons first rest =>
    cases payload' with
    | nil => simp at hlength
    | cons first' rest' =>
      rw [List.length_cons] at hpayload
      rw [List.length_cons, List.length_cons] at hlength
      have hparse := Sensor.parseIn_event hsize hheap hcommand (by omega) hcarries
      have hparse' := Sensor.parseIn_event hsize hheap hcommand (by omega) hchanged
      rw [hparse, hparse', List.head?_cons, List.head?_cons]
      refine ⟨⟨_, rfl, rfl⟩, ?_⟩
      constructor
      · rintro ⟨upload, upload', hupload, hupload', -, hbattery, hsame⟩
        cases hupload
        cases hupload'
        dsimp only at hbattery hsame
        exact ⟨congrArg some hbattery, congrArg some (hsame.trans hbattery)⟩
      · rintro ⟨hfirst, hfirst'⟩
        obtain rfl := Option.some.inj hfirst
        obtain rfl := Option.some.inj hfirst'
        exact ⟨_, _, rfl, rfl, rfl, rfl, rfl⟩

/-- A message of the light sensor: the value is a float that begins with `first`, and the battery
is at 100. -/
def Sensor.sample (first : Byte) : List Byte :=
  [0xEC, 0xF1, 0xA7, 0x13, 0x01, 0x00] ++ [0x0D, TypeManufacturerSpecificData] ++
    Sensor.eventValue 0x0001 EVENT_LIGHT_SENSOR [first, 0x00, 0x80, 0x3F] 0x64 ++
    List.replicate 17 0

set_option maxRecDepth 4000 in
lemma Sensor.carries_sample (first : Byte) : Sensor.Carries (Sensor.sample first)
    (Sensor.eventValue 0x0001 EVENT_LIGHT_SENSOR [first, 0x00, 0x80, 0x3F] 0x64) := by
  refine ⟨by simp [Sensor.sample, BLE_ADDRESS_SIZE], ⟨#v[0x0D, 0xFF, 0x0F, 0xFF, 0x01, 0x00, 0x00,
    0x22, 0x00, first, 0x00, 0x80, 0x3F, 0x64, 0, 0, 0, 0, 0, 0, 0, 0, 0, 0, 0, 0, 0, 0, 0, 0, 0],
    14⟩, [], [], ?_, ⟨⟨?_, ?_⟩, ?_, ?_⟩, by simp⟩
  · rfl
  · rfl
  · rfl
  · exact ⟨by decide, trivial⟩
  · intro i hi
    rw [List.mem_singleton.mp hi]
    exact show TypeManufacturerSpecificData ≠ 0 by decide

theorem Sensor.parseIn_battery_iff_sample :
    (∃ upload, Sensor.parseIn (List.replicate 36 0) BleReceive (Sensor.sample 0x64) 37 =
        .ok (some upload) ∧ upload.value = [0x64, 0x00, 0x80, 0x3F]) ∧
      ((∃ upload upload',
        Sensor.parseIn (List.replicate 36 0) BleReceive (Sensor.sample 0x64) 37 =
          .ok (some upload) ∧
        Sensor.parseIn (List.replicate 36 0) BleReceive (Sensor.sample 0x00) 37 =
          .ok (some upload') ∧
        upload.value = [0x64, 0x00, 0x80, 0x3F] ∧ upload.battery = 0x64 ∧
        upload'.battery = upload.battery) ↔
      [0x64, 0x00, 0x80, 0x3F].head? = some (0x64 : Byte) ∧
        [0x00, 0x00, 0x80, 0x3F].head? = some (0x64 : Byte)) :=
  Sensor.parseIn_battery_iff (by decide) (by decide) (by decide) (by decide) (by decide)
    (Sensor.carries_sample 0x64) (Sensor.carries_sample 0x00)

/-- The value 1.0 with a battery of 100 is uploaded with a battery of 0, and another value with
another one. -/
theorem Sensor.parseIn_battery_shared :
    Sensor.parseIn (List.replicate 36 0) BleReceive (Sensor.sample 0x00) 37 =
        .ok (some ⟨[0xEC, 0xF1, 0xA7, 0x13, 0x01, 0x00], [0x00, 0x00, 0x80, 0x3F], 0x00,
          EVENT_LIGHT_SENSOR⟩) ∧
      Sensor.parseIn (List.replicate 36 0) BleReceive (Sensor.sample 0x01) 37 =
        .ok (some ⟨[0xEC, 0xF1, 0xA7, 0x13, 0x01, 0x00], [0x01, 0x00, 0x80, 0x3F], 0x01,
          EVENT_LIGHT_SENSOR⟩) :=
  ⟨by rfl, by rfl⟩

end Services
end Vng
