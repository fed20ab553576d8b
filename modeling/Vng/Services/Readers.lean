import Vng.Ble.GapPayload
import Vng.Services.Parse

/-!
# The readers of advertised events

Four services look for the manufacturer's field in a received advertisement and read an event from
it: `parse` of `access/reader` and of `light/sensor`, `check` of `light/button` and of
`access/keypad`. A read outside the field is a fault here, and so is a size for `setPayload` that
exceeds the advertisement.
-/

namespace Vng
namespace Services

open Ltv (Item encode)
open Memory (Checked Succeeds ok_bind bind_eq_ok_iff load loadAt loadAll loadAll_eq_ok
  succeeds_ok succeeds_bind_iff succeeds_loadAt_iff succeeds_loadAll_iff)
open Subscriber (Parse)

def TypeManufacturerSpecificData : Byte := 0xFF

def EVENT_LIGHT_BUTTON : Word := 0x0100
def EVENT_LIGHT_SENSOR : Word := 0x2200
def EVENT_HUM_SENSOR : Word := 0x3100
def EVENT_TEMP_SENSOR : Word := 0x3300
def EVENT_MCTEMP_SENSOR : Word := 0x3400
def EVENT_ACCESS_READER : Word := 0x0001
def EVENT_ACCESS_KEYPAD : Word := 0x0003

def NFC_ID_SIZE : ℕ := 7

/-- `sizeof(struct _Event)`: two words, the gateway and the battery; `payload` has no size. -/
def eventSize : ℕ := 6

/-- Where the event starts in the value of the field, behind the company's id. -/
def eventOffset : ℕ := 2

def commandIdOffset : ℕ := eventOffset + 2
def gatewayOffset : ℕ := eventOffset + 4
/-- `payload` and `battery`. -/
def payloadOffset : ℕ := eventOffset + 5

/-- A `uint16_t` in memory. -/
def loadWord (bytes : List Byte) (i : ℕ) : Checked Word := do
  let lo ← loadAt bytes i
  let hi ← loadAt bytes (i + 1)
  return wordOf lo hi

/-- A field that `field` has found: its length byte, and the bytes behind its type. -/
structure Field where
  length : Byte
  value : List Byte
deriving DecidableEq, Repr

/-- `Packet::field` with the bytes that its callers copy. -/
def findField (packet : Gap.Packet) (type : Byte) : Checked (Option Field) := do
  match ← Gap.field packet type with
  | none => return none
  | some start =>
    let length ← load packet.payload start
    let value ← loadAll packet.payload.toList (start + 2) (length.toNat - 1)
    return some ⟨length, value⟩

/-- How all four begin: `setPayload` with a size, and the field of the manufacturer. -/
def manufacturer (source : List Byte) (size : Byte) : Checked (Option Field) :=
  if size.toNat > source.length then .error .outOfBounds
  else do
    let (error, packet) ← Gap.setPayload source size
    if error ≠ 0 then return none
    else findField packet TypeManufacturerSpecificData

/-! ## `access/reader` -/

/-- What the reader asks about. -/
structure Reader.Check where
  address : List Byte
  id : List Byte
deriving DecidableEq, Repr

/-- The part of `parse` that reads the field. -/
def Reader.parseField (payload : List Byte) (field : Field) :
    Checked (Option Reader.Check) := do
  let companyId ← loadWord field.value 0
  if companyId ≠ 0xFF0F then return none
  else if field.length.toNat < eventSize + NFC_ID_SIZE then return none
  else
    let commandId ← loadWord field.value commandIdOffset
    if commandId ≠ EVENT_ACCESS_READER then return none
    else
      let gateway ← loadAt field.value gatewayOffset
      if gateway ≠ 0 then return none
      else
        let address ← loadAll payload 0 BLE_ADDRESS_SIZE
        let id ← loadAll field.value payloadOffset NFC_ID_SIZE
        return some ⟨address, id⟩

/-- `size - BLE_ADDRESS_SIZE`, as the `uint8_t` that `setPayload` takes. -/
def Reader.handed (size : Word) : Byte := BitVec.ofNat 8 (size.toNat - BLE_ADDRESS_SIZE)

/-- `parse` of the access reader. -/
def Reader.parse : Parse Reader.Check := fun id payload size =>
  if id ≠ BleReceive ∨ size.toNat < BLE_ADDRESS_SIZE + BLE_PAYLOAD_SIZE then .ok none
  else do
    match ← manufacturer (payload.drop BLE_ADDRESS_SIZE) (Reader.handed size) with
    | none => return none
    | some field => Reader.parseField payload field

/-! ## `light/sensor` -/

/-- What the sensor service uploads. -/
structure Sensor.Upload where
  address : List Byte
  value : List Byte
  battery : Byte
  type : Word
deriving DecidableEq, Repr

/-- `sizeof(Upload::Value)`. -/
def Sensor.valueSize : ℕ := 4

/-- The field of a sensor, as `parse` takes it apart. -/
def Sensor.parseField (payload : List Byte) (field : Field) :
    Checked (Option Sensor.Upload) := do
  let companyId ← loadWord field.value 0
  if companyId ≠ 0xFF0F then return none
  else if field.length.toNat < eventSize + Sensor.valueSize then return none
  else
    -- the dump prints `event[i]`, a whole event, for each byte of one
    let _ ← loadAll field.value eventOffset (eventSize * eventSize)
    let commandId ← loadWord field.value commandIdOffset
    if commandId ≠ EVENT_LIGHT_SENSOR ∧ commandId ≠ EVENT_TEMP_SENSOR ∧
        commandId ≠ EVENT_MCTEMP_SENSOR ∧ commandId ≠ EVENT_HUM_SENSOR then
      -- `DPRINT` reads at the address that the id gives
      .error .outOfBounds
    else
      let gateway ← loadAt field.value gatewayOffset
      if gateway ≠ 0 then return none
      else
        let value ← loadAll field.value payloadOffset Sensor.valueSize
        let battery ← loadAt field.value payloadOffset
        let address ← loadAll payload 0 BLE_ADDRESS_SIZE
        return some ⟨address, value, battery, commandId⟩

/-- `- BLE_ADDRESS_SIZE`, as a `uint8_t`. -/
def Sensor.handed : Byte := -(BitVec.ofNat 8 BLE_ADDRESS_SIZE)

/-- `parse` of the sensor service. -/
def Sensor.parse : Parse Sensor.Upload := fun id payload size =>
  if id ≠ BleReceive ∨ size.toNat < BLE_ADDRESS_SIZE + BLE_PAYLOAD_SIZE then .ok none
  else do
    match ← manufacturer (payload.drop BLE_ADDRESS_SIZE) Sensor.handed with
    | none => return none
    | some field => Sensor.parseField payload field

/-! ## `light/button` and `access/keypad` -/

/-- The level that `check` publishes, if the event is one of a button. -/
def Button.checkField (field : Field) : Checked (Option Byte) := do
  let length := field.length - 1
  -- of the copy only what the field has
  let mfd ← loadAll field.value 0 length.toNat
  let companyId ← loadWord mfd 0
  if companyId ≠ 0xFF0F then return none
  else
    let commandId ← loadWord field.value commandIdOffset
    if commandId ≠ EVENT_LIGHT_BUTTON then return none
    else
      let level ← loadAt field.value payloadOffset
      return some level

/-- `check` of the button: only addresses that are allowed. -/
def Button.check (allowed : List Byte → Bool) (address payload : List Byte) :
    Checked (Option Byte) :=
  if allowed address ≠ true then .ok none
  else do
    match ← manufacturer payload (BitVec.ofNat 8 BLE_PAYLOAD_SIZE) with
    | none => return none
    | some field => Button.checkField field

/-- Whether `check` accepts the password of the event. -/
def Keypad.checkField (password : List Byte) (field : Field) : Checked Bool := do
  let length := field.length - 1
  if length.toNat < 2 + 2 + eventSize then return false
  else
    let data ← loadAll field.value 0 length.toNat
    let companyId ← loadWord data 0
    if companyId ≠ 0xFF0F then return false
    else
      let commandId ← loadWord data commandIdOffset
      if commandId ≠ EVENT_ACCESS_KEYPAD then return false
      else
        let passwordLength : Byte := length - BitVec.ofNat 8 eventSize - 2
        let entered ← loadAll data payloadOffset passwordLength.toNat
        return decide (entered = password)

/-- `check` of the keypad: whether the password is right. -/
def Keypad.check (password payload : List Byte) : Checked Bool := do
  match ← manufacturer payload (BitVec.ofNat 8 BLE_PAYLOAD_SIZE) with
  | none => return false
  | some field => Keypad.checkField password field

/-- A message at the button: `parse`, and then `check` in the command. -/
def Button.receive (allowed : List Byte → Bool) (payload : List Byte) (size : Word) :
    Checked (Option Byte) := do
  match ← Button.parse BleReceive payload size with
  | none => return none
  | some command => Button.check allowed command.address command.payload

/-- A message at the keypad. -/
def Keypad.receive (password payload : List Byte) (size : Word) : Checked Bool := do
  match ← Keypad.parse BleReceive payload size with
  | none => return false
  | some command => Keypad.check password command.payload

/-! ## The field -/

/-- The field is long enough for what the reader takes from it. -/
def Reader.Complete (field : Field) : Prop :=
  3 ≤ field.length.toNat ∧
    (loadWord field.value 0 = .ok 0xFF0F → 13 ≤ field.length.toNat →
      loadWord field.value commandIdOffset = .ok EVENT_ACCESS_READER →
      loadAt field.value gatewayOffset = .ok 0 → 15 ≤ field.length.toNat)

/-- The sensor's dump is in the field only if there is none. -/
def Sensor.Complete (field : Field) : Prop :=
  3 ≤ field.length.toNat ∧
    (loadWord field.value 0 = .ok 0xFF0F → field.length.toNat < 10)

def Button.Complete (field : Field) : Prop :=
  3 ≤ field.length.toNat ∧
    (loadWord field.value 0 = .ok 0xFF0F → 7 ≤ field.length.toNat ∧
      (loadWord field.value commandIdOffset = .ok EVENT_LIGHT_BUTTON →
        9 ≤ field.length.toNat))

/-- A field as `field` finds it: the value has the announced length, and fits in a packet. -/
structure Field.Found (field : Field) : Prop where
  length : field.length.toNat = field.value.length + 1
  le : field.value.length ≤ BLE_PAYLOAD_SIZE - 2

variable {packet : Gap.Packet} {items : List Item} {field : Field} {source : List Byte}
  {bytes : Byte}

/-- A field that is found is one of the items of the packet. -/
lemma findField_cases (h : Gap.Fields packet items) (type : Byte) :
    findField packet type = .ok none ∨
      ∃ field, findField packet type = .ok (some field) ∧ field.Found := by
  unfold findField
  rcases Gap.field_fields h type with ⟨-, hnone⟩ | ⟨before, i, after, -, -, -, hsome, post,
    hpayload⟩
  · left
    rw [hnone]
    rfl
  · right
    have hlength := Gap.length_of_toList hpayload
    rw [List.length_append, Ltv.length_encode_item] at hlength
    refine ⟨⟨BitVec.ofNat 8 (i.value.length + 1), i.value⟩, ?_, ?_, ?_⟩
    · rw [hsome, ok_bind]
      dsimp only
      rw [Gap.load_length hpayload, ok_bind, Gap.toNat_length hpayload, Nat.add_sub_cancel,
        loadAll_eq_ok (by rw [Vector.length_toList, Ltv.size]; omega), ok_bind]
      -- behind the length and the type lies the value
      have hvalue : packet.payload.toList.drop (Ltv.size before + 2) = i.value ++ post := by
        rw [hpayload, ← List.drop_drop, Ltv.size, List.drop_left]
        rfl
      rw [hvalue, List.take_left]
      rfl
    · exact Gap.toNat_length hpayload
    · show i.value.length ≤ BLE_PAYLOAD_SIZE - 2
      omega

/-- What the beginning can come to, if the size is not too large and `setPayload` stays in its
packet. -/
lemma manufacturer_cases (hsize : bytes.toNat ≤ source.length)
    (hset : Succeeds (Gap.setPayload source bytes)) :
    manufacturer source bytes = .ok none ∨
      ∃ field, manufacturer source bytes = .ok (some field) ∧ field.Found := by
  obtain ⟨⟨error, packet⟩, hpacket⟩ := hset
  obtain ⟨items, hfields⟩ := Gap.setPayload_fields hpacket
  unfold manufacturer
  rw [if_neg (not_lt.mpr hsize), hpacket, ok_bind]
  dsimp only
  split_ifs with herror
  · exact .inl rfl
  · exact findField_cases hfields _

/-- The bytes that are handed over have to be there, and to be taken. -/
lemma succeeds_manufacturer_iff :
    Succeeds (manufacturer source bytes) ↔
      bytes.toNat ≤ source.length ∧ Succeeds (Gap.setPayload source bytes) := by
  constructor
  · intro h
    unfold manufacturer at h
    split_ifs at h with hsize
    · exact absurd h (Memory.not_succeeds_error _)
    · obtain ⟨r, hr, -⟩ := succeeds_bind_iff.mp h
      exact ⟨not_lt.mp hsize, r, hr⟩
  · rintro ⟨hsize, hset⟩
    rcases manufacturer_cases hsize hset with hnone | ⟨field, hsome, -⟩
    · exact ⟨_, hnone⟩
    · exact ⟨_, hsome⟩

/-- A reader stays inside exactly if the beginning does, and what it does with the field. -/
lemma succeeds_manufacturer_bind_iff {α : Type} {none' : α} {read : Field → Checked α}
    {Complete : Field → Prop} (hread : ∀ field, field.Found → (Succeeds (read field) ↔
      Complete field)) :
    Succeeds (do
      match ← manufacturer source bytes with
      | none => return none'
      | some field => read field) ↔
    bytes.toNat ≤ source.length ∧ Succeeds (Gap.setPayload source bytes) ∧
      ∀ field, manufacturer source bytes = .ok (some field) → Complete field := by
  rw [← and_assoc, ← succeeds_manufacturer_iff]
  constructor
  · intro h
    obtain ⟨r, hr, hrest⟩ := succeeds_bind_iff.mp h
    refine ⟨⟨r, hr⟩, ?_⟩
    intro field hfield
    -- the field that was found is the one that is read
    obtain ⟨hsize, hset⟩ := succeeds_manufacturer_iff.mp ⟨r, hr⟩
    rcases manufacturer_cases hsize hset with hnone | ⟨field', hsome, hfound⟩
    · rw [hnone] at hfield
      cases hfield
    · rw [hsome] at hfield hr
      cases hfield
      cases hr
      exact (hread field hfound).mp hrest
  · rintro ⟨hsucceeds, hcomplete⟩
    obtain ⟨hsize, hset⟩ := succeeds_manufacturer_iff.mp hsucceeds
    rcases manufacturer_cases hsize hset with hnone | ⟨field, hsome, hfound⟩
    · rw [hnone]
      exact succeeds_ok _
    · rw [hsome]
      exact (hread field hfound).mpr (hcomplete field hsome)

lemma exists_loadWord_eq_ok {value : List Byte} {i : ℕ} (h : i + 1 < value.length) :
    ∃ w, loadWord value i = .ok w := by
  obtain ⟨lo, hlo⟩ := Memory.exists_loadAt_eq_ok (show i < value.length by omega)
  obtain ⟨hi, hhi⟩ := Memory.exists_loadAt_eq_ok h
  refine ⟨wordOf lo hi, ?_⟩
  unfold loadWord
  rw [hlo, ok_bind, hhi]
  rfl

/-- A word is read exactly if both of its bytes are there. -/
lemma succeeds_loadWord_iff {value : List Byte} {i : ℕ} :
    Succeeds (loadWord value i) ↔ i + 1 < value.length := by
  constructor
  · intro h
    obtain ⟨lo, -, hrest⟩ := succeeds_bind_iff.mp h
    obtain ⟨hi, hhi, -⟩ := succeeds_bind_iff.mp hrest
    exact succeeds_loadAt_iff.mp ⟨hi, hhi⟩
  · exact exists_loadWord_eq_ok

/-- Six bytes hold the command. -/
lemma exists_commandId {value : List Byte} (h : 6 ≤ value.length) :
    ∃ commandId, loadWord value commandIdOffset = .ok commandId :=
  exists_loadWord_eq_ok (show commandIdOffset + 1 < value.length by
    unfold commandIdOffset eventOffset
    omega)

/-! ## The readers -/

/-- The first step of three readers: the company's id, and an end if it is another one. -/
lemma succeeds_company_iff {α : Type} {read : Word → Checked α} {Complete : Prop}
    (hfound : field.Found) (hother : ∀ companyId, companyId ≠ 0xFF0F → Succeeds (read companyId))
    (hcompany : 3 ≤ field.length.toNat → (Succeeds (read 0xFF0F) ↔ Complete)) :
    Succeeds (loadWord field.value 0 >>= read) ↔
      3 ≤ field.length.toNat ∧ (loadWord field.value 0 = .ok 0xFF0F → Complete) := by
  have hlength := hfound.length
  rw [succeeds_bind_iff]
  constructor
  · rintro ⟨companyId, hcompanyId, hrest⟩
    have := succeeds_loadWord_iff.mp ⟨companyId, hcompanyId⟩
    have hthree : 3 ≤ field.length.toNat := by omega
    refine ⟨hthree, fun hsame => ?_⟩
    rw [hcompanyId, Except.ok.injEq] at hsame
    rw [hsame] at hrest
    exact (hcompany hthree).mp hrest
  · rintro ⟨hthree, hcomplete⟩
    obtain ⟨companyId, hcompanyId⟩ :=
      exists_loadWord_eq_ok (show 0 + 1 < field.value.length by omega)
    refine ⟨companyId, hcompanyId, ?_⟩
    -- only fields of this company are taken apart
    by_cases hsame : companyId = 0xFF0F
    · rw [hsame] at hcompanyId ⊢
      exact (hcompany hthree).mpr (hcomplete hcompanyId)
    · exact hother companyId hsame

/-- The reader stays inside exactly if the field holds all that it asks for. -/
lemma succeeds_readerField_iff {payload : List Byte} (hpayload : BLE_ADDRESS_SIZE ≤ payload.length)
    (hfound : field.Found) :
    Succeeds (Reader.parseField payload field) ↔ Reader.Complete field := by
  have hlength := hfound.length
  unfold Reader.parseField Reader.Complete
  refine succeeds_company_iff hfound (fun companyId hother => ?_) (fun hshort => ?_)
  · rw [if_pos hother]
    exact succeeds_ok _
  rw [if_neg (not_not.mpr rfl)]
  rw [show eventSize + NFC_ID_SIZE = 13 from rfl]
  by_cases hsize : 13 ≤ field.length.toNat
  swap
  · rw [if_pos (not_le.mp hsize)]
    exact iff_of_true (succeeds_ok _) (fun h => absurd h hsize)
  rw [if_neg (not_lt.mpr hsize)]
  -- from here on the header of the event is in the field
  obtain ⟨commandId, hcommandId⟩ := exists_commandId (show 6 ≤ field.value.length by omega)
  obtain ⟨gateway, hgateway⟩ := Memory.exists_loadAt_eq_ok
    (show gatewayOffset < field.value.length by unfold gatewayOffset eventOffset; omega)
  rw [hcommandId, ok_bind, hgateway, Except.ok.injEq, Except.ok.injEq]
  -- other commands are left alone
  by_cases hcommand : commandId = EVENT_ACCESS_READER
  swap
  · rw [if_pos hcommand]
    exact iff_of_true (succeeds_ok _) (fun _ h => absurd h hcommand)
  rw [if_neg (not_not.mpr hcommand), ok_bind]
  -- so are events that came by another gateway
  by_cases hzero : gateway = 0
  swap
  · rw [if_pos hzero]
    exact iff_of_true (succeeds_ok _) (fun _ _ h => absurd h hzero)
  rw [if_neg (not_not.mpr hzero),
    loadAll_eq_ok (show 0 + BLE_ADDRESS_SIZE ≤ payload.length by omega),
    ok_bind, succeeds_bind_iff]
  constructor
  -- the id of the card is the last thing that is read
  · rintro ⟨id, hid, -⟩ - - -
    have := succeeds_loadAll_iff.mp ⟨id, hid⟩
    unfold payloadOffset eventOffset NFC_ID_SIZE at this
    omega
  · intro h
    have hid := h hsize hcommand hzero
    refine ⟨_, loadAll_eq_ok ?_, succeeds_ok _⟩
    unfold payloadOffset eventOffset NFC_ID_SIZE
    omega

/-- The sensor stays inside exactly if the field is of another company, or too short for an
event. -/
lemma succeeds_sensorField_iff {payload : List Byte} (hfound : field.Found) :
    Succeeds (Sensor.parseField payload field) ↔ Sensor.Complete field := by
  have hlength := hfound.length
  have hle := hfound.le
  unfold Sensor.parseField Sensor.Complete
  refine succeeds_company_iff hfound (fun companyId hother => ?_) (fun hshort => ?_)
  · rw [if_pos hother]
    exact succeeds_ok _
  rw [if_neg (not_not.mpr rfl)]
  rw [show eventSize + Sensor.valueSize = 10 from rfl]
  by_cases hsize : 10 ≤ field.length.toNat
  swap
  · rw [if_pos (not_le.mp hsize)]
    exact iff_of_true (succeeds_ok _) (not_le.mp hsize)
  -- no field of a packet has the 36 bytes of the dump
  rw [if_neg (not_lt.mpr hsize), succeeds_bind_iff]
  refine iff_of_false ?_ (not_lt.mpr hsize)
  rintro ⟨dump, hdump, -⟩
  have := succeeds_loadAll_iff.mp ⟨dump, hdump⟩
  unfold eventOffset eventSize BLE_PAYLOAD_SIZE at *
  omega

/-- The length without the type is that of the value. -/
lemma toNat_length_sub (hfound : field.Found) :
    (field.length - 1).toNat = field.value.length := by
  have hlength := hfound.length
  have hle := hfound.le
  unfold BLE_PAYLOAD_SIZE at hle
  rw [BitVec.toNat_sub_of_le]
  · rw [show (1 : Byte).toNat = 1 from rfl]
    omega
  · rw [BitVec.le_def, show (1 : Byte).toNat = 1 from rfl]
    omega

/-- The copy of the field's value is the value. -/
lemma loadAll_copy (hfound : field.Found) :
    loadAll field.value 0 (field.length - 1).toNat = .ok field.value := by
  rw [toNat_length_sub hfound, loadAll_eq_ok (by omega), List.drop_zero, List.take_length]

/-- The button stays inside exactly if the field holds all that it asks for. -/
lemma succeeds_buttonField_iff (hfound : field.Found) :
    Succeeds (Button.checkField field) ↔ Button.Complete field := by
  have hlength := hfound.length
  unfold Button.checkField Button.Complete
  dsimp only
  rw [loadAll_copy hfound, ok_bind]
  refine succeeds_company_iff hfound (fun companyId hother => ?_) (fun hshort => ?_)
  · rw [if_pos hother]
    exact succeeds_ok _
  rw [if_neg (not_not.mpr rfl)]
  -- the command is read without any test of the length
  by_cases hheader : 7 ≤ field.length.toNat
  swap
  · rw [succeeds_bind_iff]
    refine iff_of_false ?_ (fun h => hheader h.1)
    rintro ⟨commandId, hcommandId, -⟩
    have := succeeds_loadWord_iff.mp ⟨commandId, hcommandId⟩
    unfold commandIdOffset eventOffset at this
    omega
  obtain ⟨commandId, hcommandId⟩ := exists_commandId (show 6 ≤ field.value.length by omega)
  rw [hcommandId, ok_bind, Except.ok.injEq]
  by_cases hcommand : commandId = EVENT_LIGHT_BUTTON
  swap
  · rw [if_pos hcommand]
    exact iff_of_true (succeeds_ok _) ⟨hheader, fun h => absurd h hcommand⟩
  rw [if_neg (not_not.mpr hcommand), succeeds_bind_iff]
  constructor
  -- and so is the level
  · rintro ⟨level, hlevel, -⟩
    have := succeeds_loadAt_iff.mp ⟨level, hlevel⟩
    unfold payloadOffset eventOffset at this
    exact ⟨hheader, fun _ => by omega⟩
  · intro h
    have hlevel := h.2 hcommand
    obtain ⟨level, hload⟩ := Memory.exists_loadAt_eq_ok
      (show payloadOffset < field.value.length by unfold payloadOffset eventOffset; omega)
    exact ⟨level, hload, succeeds_ok _⟩

/-- The keypad's check of the length covers all that it reads. -/
lemma succeeds_keypadField (password : List Byte) (hfound : field.Found) :
    Succeeds (Keypad.checkField password field) := by
  have hle := hfound.le
  unfold Keypad.checkField
  dsimp only
  -- the keypad tests the length before it reads anything
  split_ifs with hshort
  · exact succeeds_ok _
  rw [toNat_length_sub hfound] at hshort
  have hevent : 10 ≤ field.value.length := not_lt.mp hshort
  rw [loadAll_copy hfound, ok_bind]
  obtain ⟨companyId, hcompanyId⟩ :=
    exists_loadWord_eq_ok (show 0 + 1 < field.value.length by omega)
  rw [hcompanyId, ok_bind]
  split_ifs
  · exact succeeds_ok _
  obtain ⟨commandId, hcommandId⟩ := exists_commandId (show 6 ≤ field.value.length by omega)
  rw [hcommandId, ok_bind]
  split_ifs
  · exact succeeds_ok _
  -- the password is what the length leaves behind the header
  have hpassword : (field.length - 1 - BitVec.ofNat 8 eventSize - 2).toNat =
      field.value.length - 8 := by
    have hnat := toNat_length_sub hfound
    unfold BLE_PAYLOAD_SIZE at hle
    unfold eventSize
    bv_omega
  rw [succeeds_bind_iff, hpassword]
  refine ⟨_, loadAll_eq_ok ?_, succeeds_ok _⟩
  unfold payloadOffset eventOffset
  omega

/-! ## Messages -/

/-- The size of a message with this payload. -/
def messageSize (payload : List Byte) : Word := BitVec.ofNat 16 payload.length

/-- The advertisement of a message. -/
def advertisement (payload : List Byte) : List Byte := payload.drop BLE_ADDRESS_SIZE

variable {payload : List Byte}

lemma toNat_messageSize (hmax : payload.length < 2 ^ 16) :
    (messageSize payload).toNat = payload.length := by
  unfold messageSize
  rw [BitVec.toNat_ofNat, Nat.mod_eq_of_lt hmax]

/-- The reader hands over no more bytes than it has received. -/
lemma toNat_handed_le (hmax : payload.length < 2 ^ 16) :
    (Reader.handed (messageSize payload)).toNat ≤ (advertisement payload).length := by
  unfold Reader.handed advertisement
  rw [toNat_messageSize hmax, BitVec.toNat_ofNat, List.length_drop]
  exact Nat.mod_le _ _

/-- The copy has the address and a whole advertisement. -/
lemma parseCheck_eq_ok (hmin : BLE_ADDRESS_SIZE + BLE_PAYLOAD_SIZE ≤ payload.length)
    (hmax : payload.length < 2 ^ 16) :
    parseCheck BleReceive payload (messageSize payload) =
      .ok (some ⟨payload.take BLE_ADDRESS_SIZE,
        (advertisement payload).take BLE_PAYLOAD_SIZE⟩) := by
  unfold parseCheck
  rw [toNat_messageSize hmax, if_neg (by simp; omega),
    loadAll_eq_ok (show 0 + BLE_ADDRESS_SIZE ≤ payload.length by omega), ok_bind,
    loadAll_eq_ok hmin, ok_bind]
  rfl

/-- The copy that the button and the keypad make never exceeds the advertisement or a packet. -/
lemma succeeds_copy (hmin : BLE_ADDRESS_SIZE + BLE_PAYLOAD_SIZE ≤ payload.length) :
    (BitVec.ofNat 8 BLE_PAYLOAD_SIZE).toNat ≤
        ((advertisement payload).take BLE_PAYLOAD_SIZE).length ∧
      Succeeds (Gap.setPayload ((advertisement payload).take BLE_PAYLOAD_SIZE)
        (BitVec.ofNat 8 BLE_PAYLOAD_SIZE)) := by
  have hsize : (BitVec.ofNat 8 BLE_PAYLOAD_SIZE).toNat = BLE_PAYLOAD_SIZE := rfl
  have hlength : ((advertisement payload).take BLE_PAYLOAD_SIZE).length = BLE_PAYLOAD_SIZE := by
    unfold advertisement
    rw [List.length_take, List.length_drop]
    omega
  exact ⟨by omega, Gap.succeeds_setPayload (by omega) (by omega)⟩

/-- **Readers.** A message of 37 bytes or more. The reader stays in its field exactly if
`setPayload` stays in its packet and the field is not one or two bytes short of an id; the sensor
if there are the 250 bytes that it announces and the field is no event; the button if the field
has what it looks at. The keypad always does. -/
theorem readers_inside_iff (payload : List Byte) (allowed : List Byte → Bool)
    (password : List Byte) (hmin : BLE_ADDRESS_SIZE + BLE_PAYLOAD_SIZE ≤ payload.length)
    (hmax : payload.length < 2 ^ 16) :
    (Succeeds (Reader.parse BleReceive payload (messageSize payload)) ↔
      Succeeds (Gap.setPayload (advertisement payload) (Reader.handed (messageSize payload))) ∧
      ∀ field, manufacturer (advertisement payload) (Reader.handed (messageSize payload)) =
        .ok (some field) → Reader.Complete field) ∧
    (Succeeds (Sensor.parse BleReceive payload (messageSize payload)) ↔
      250 ≤ (advertisement payload).length ∧
      Succeeds (Gap.setPayload (advertisement payload) Sensor.handed) ∧
      ∀ field, manufacturer (advertisement payload) Sensor.handed = .ok (some field) →
        Sensor.Complete field) ∧
    (Succeeds (Button.receive allowed payload (messageSize payload)) ↔
      (allowed (payload.take BLE_ADDRESS_SIZE) = true →
        ∀ field, manufacturer ((advertisement payload).take BLE_PAYLOAD_SIZE)
          (BitVec.ofNat 8 BLE_PAYLOAD_SIZE) = .ok (some field) → Button.Complete field)) ∧
    Succeeds (Keypad.receive password payload (messageSize payload)) := by
  have hsize := toNat_messageSize hmax
  have haddress : BLE_ADDRESS_SIZE ≤ payload.length := by omega
  obtain ⟨hcopy, hset⟩ := succeeds_copy hmin
  refine ⟨?_, ?_, ?_, ?_⟩
  -- the reader hands over its own size, cut to a byte
  · unfold Reader.parse
    rw [if_neg (by rw [hsize]; simp; omega)]
    rw [show payload.drop BLE_ADDRESS_SIZE = advertisement payload from rfl,
      succeeds_manufacturer_bind_iff fun _ hfound => succeeds_readerField_iff haddress hfound,
      and_iff_right (toNat_handed_le hmax)]
  -- the sensor always hands over 250 bytes
  · unfold Sensor.parse
    rw [if_neg (by rw [hsize]; simp; omega)]
    rw [show payload.drop BLE_ADDRESS_SIZE = advertisement payload from rfl,
      succeeds_manufacturer_bind_iff fun _ hfound => succeeds_sensorField_iff hfound]
    rfl
  -- the other two copy a whole advertisement, which is always taken
  · unfold Button.receive Button.parse Button.check
    rw [parseCheck_eq_ok hmin hmax, ok_bind]
    dsimp only
    by_cases hallowed : allowed (payload.take BLE_ADDRESS_SIZE) = true
    · rw [if_neg (not_not.mpr hallowed),
        succeeds_manufacturer_bind_iff fun _ hfound => succeeds_buttonField_iff hfound,
        and_iff_right hcopy, and_iff_right hset, forall_prop_of_true hallowed]
    · rw [if_pos hallowed]
      exact iff_of_true (succeeds_ok _) (fun h => absurd h hallowed)
  · unfold Keypad.receive Keypad.parse Keypad.check
    rw [parseCheck_eq_ok hmin hmax, ok_bind]
    dsimp only
    have hkeypad : ∀ field : Field, field.Found →
        (Succeeds (Keypad.checkField password field) ↔ True) :=
      fun _ hfound => iff_true_intro (succeeds_keypadField password hfound)
    rw [succeeds_manufacturer_bind_iff hkeypad]
    exact ⟨hcopy, hset, fun _ _ => trivial⟩

/-- The address, and an event of a reader with an id. -/
def readerEvent : List Byte :=
  List.replicate 6 0 ++ [15, 0xFF, 0x0F, 0xFF, 0, 0, 0x01, 0x00, 0, 1, 2, 3, 4, 5, 6, 7] ++
    List.replicate 15 0

/-- The reader, the button and the keypad at an advertisement with a field of the manufacturer. -/
theorem readers_inside_iff_event :
    (Succeeds (Reader.parse BleReceive readerEvent (messageSize readerEvent)) ↔
      Succeeds (Gap.setPayload (advertisement readerEvent)
        (Reader.handed (messageSize readerEvent))) ∧
      ∀ field, manufacturer (advertisement readerEvent)
        (Reader.handed (messageSize readerEvent)) = .ok (some field) → Reader.Complete field) ∧
    manufacturer (advertisement readerEvent) (Reader.handed (messageSize readerEvent)) =
      .ok (some ⟨15, [0x0F, 0xFF, 0, 0, 0x01, 0x00, 0, 1, 2, 3, 4, 5, 6, 7]⟩) ∧
    (Succeeds (Button.receive (fun _ => true) readerEvent (messageSize readerEvent)) ↔
      ∀ field, manufacturer ((advertisement readerEvent).take BLE_PAYLOAD_SIZE)
        (BitVec.ofNat 8 BLE_PAYLOAD_SIZE) = .ok (some field) → Button.Complete field) ∧
    Succeeds (Keypad.receive [0x31] readerEvent (messageSize readerEvent)) :=
  have h := readers_inside_iff readerEvent (fun _ => true) [0x31] (by decide) (by decide)
  ⟨h.1, by decide, h.2.2.1.trans (forall_prop_of_true rfl), h.2.2.2⟩

/-- The address, and an event of a reader with five bytes of an id. -/
def shortEvent : List Byte :=
  List.replicate 6 0 ++ [13, 0xFF, 0x0F, 0xFF, 0, 0, 0x01, 0x00, 0, 1, 2, 3, 4, 5] ++
    List.replicate 17 0

/-- The reader takes the last two bytes of the id from behind the field, the sensor announces more
than there is, and the button reads a command from a field that ends before it. -/
theorem readers_outside :
    Reader.parse BleReceive shortEvent (messageSize shortEvent) = .error .outOfBounds ∧
    Sensor.parse BleReceive shortEvent (messageSize shortEvent) = .error .outOfBounds ∧
    Button.receive (fun _ => true)
        (List.replicate 6 0 ++ [3, 0xFF, 0x0F, 0xFF] ++ List.replicate 27 0) 37 =
      .error .outOfBounds :=
  ⟨by decide, by decide, by decide⟩

end Services
end Vng
