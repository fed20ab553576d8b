import Vng.Core.Variant
import Vng.Services.Messages

/-!
# Commands from the cloud

`CloudProcessCommand` with `AddressConvertUtils`: a message is checked, its `device_id` is parsed as
an address, and the command goes out as an advertisement. `load` stands for the JSON library behind
`loadJsonString`.
-/

namespace Vng
namespace Services

open Ltv (Item size)
open Memory (Checked ok_bind bind_eq_ok_iff loadAt store)

/-! ## `AddressConvertUtils` -/

def toHex (character : Byte) : Option Byte :=
  if 0x30 ≤ character.toNat ∧ character.toNat ≤ 0x39 then some (character - 0x30)
  else if 0x41 ≤ character.toNat ∧ character.toNat ≤ 0x46 then some (character - 0x41 + 10)
  -- from 'a' to 'a'
  else if 0x61 ≤ character.toNat ∧ character.toNat ≤ 0x61 then some (character - 0x61 + 10)
  else none

/-- The loop of `toBLEAddressId`, `fuel` more rounds of it. -/
def toBLEAddressIdFrom (string : List Byte) :
    (fuel index position : ℕ) → (address : Address) → Checked (Option Address)
  | 0, _, _, _ => .error .diverges
  | fuel + 1, index, position, address =>
    if index < string.length then do
      let character ← loadAt string index
      match toHex character with
      | none => return none
      | some first =>
        let character ← loadAt string (index + 1)
        match toHex character with
        | none => return none
        | some second =>
          let address ← store address position ((first <<< 4) + second)
          if position < BLE_ADDRESS_SIZE - 1 then
            let character ← loadAt string (index + 2)
            if character ≠ 0x3A then return none
            else toBLEAddressIdFrom string fuel (index + 3) (position + 1) address
          else toBLEAddressIdFrom string fuel (index + 3) (position + 1) address
    else return if position = BLE_ADDRESS_SIZE then some address else none

/-- `toBLEAddressId`, into cleared bytes. -/
def toBLEAddressId (string : List Byte) : Checked (Option Address) :=
  if string.length ≠ 17 then return none
  else toBLEAddressIdFrom string (string.length + 1) 0 0 (Vector.replicate _ 0)

/-! ## `CloudProcessCommand` -/

structure Request where
  msgId : ℤ
  deviceId : List Byte
  newState : ℤ
  address : Address
deriving DecidableEq, Repr

/-- The checks on the JSON value. -/
def arguments (jobj : Variant) : Option (ℤ × List Byte × ℤ) := do
  let .map _ := jobj | none
  let jobjDt ← jobj.value (ascii "dt")
  let .int msgId ← jobjDt.value (ascii "msg_id") | none
  let .string deviceId ← jobjDt.value (ascii "device_id") | none
  let .int newState ← jobjDt.value (ascii "new_state") | none
  return (msgId.toInt, deviceId, newState.toInt)

/-- The checks of `processCloudMsg`: the request that it accepts. -/
def request (load : List Byte → Option Variant) (data : List Byte) : Checked (Option Request) :=
  match load data >>= arguments with
  | none => return none
  | some (msgId, deviceId, newState) =>
    if deviceId.length ≠ BLE_ADDRESS_SIZE * 2 + (BLE_ADDRESS_SIZE - 1) then return none
    else do
      match ← toBLEAddressId deviceId with
      | none => return none
      | some address => return some ⟨msgId, deviceId, newState, address⟩

/-- What the two arrays `store` hold before they are assigned. -/
structure Stack where
  door : Vector Byte (storeSize BLE_ADDRESS_SIZE)
  lamp : Vector Byte (storeSize 1)

/-- `processCloudMsg`: its result, and the advertisements. -/
def processCloudMsg (load : List Byte → Option Variant) (stack : Stack) (data : List Byte) :
    Checked (ℤ × List (List Byte)) := do
  match ← request load data with
  | none => return (-1, [])
  | some r =>
    if r.msgId = 1 then
      let advertisement ← OpenDoor.fillPayload stack.door r.address
      return (0, [advertisement])
    else if r.msgId = 2 then
      let advertisement ← TurnLamp.fillPayload stack.lamp r.address r.newState
      return (0, [advertisement])
    else return (0, [])

/-! ## Addresses in text -/

/-- A digit as the parser takes it: `a` is `A`. -/
def spelling (character : Byte) : Byte := if character = 0x61 then 0x41 else character

lemma toHex_eq_some {character hex : Byte} (h : toHex character = some hex) :
    hex.toNat < 16 ∧
      (spelling character).toNat =
        if hex.toNat < 10 then 0x30 + hex.toNat else 0x37 + hex.toNat := by
  unfold toHex at h
  unfold spelling
  split_ifs at h with hnumber hupper hlower
  · obtain rfl := Option.some.inj h
    rw [if_neg (by bv_omega)]
    split_ifs <;> bv_omega
  · obtain rfl := Option.some.inj h
    rw [if_neg (by bv_omega)]
    split_ifs <;> bv_omega
  · obtain rfl := Option.some.inj h
    rw [if_pos (by bv_omega)]
    split_ifs <;> bv_omega

/-- Two characters are the same digit exactly if they are spelled alike. -/
lemma toHex_inj_iff {c c' x x' : Byte} (h : toHex c = some x) (h' : toHex c' = some x') :
    x = x' ↔ spelling c = spelling c' := by
  obtain ⟨hlt, hspelling⟩ := toHex_eq_some h
  obtain ⟨hlt', hspelling'⟩ := toHex_eq_some h'
  rw [← BitVec.toNat_inj, ← BitVec.toNat_inj, hspelling, hspelling']
  split_ifs <;> omega

lemma nibbles_inj {x y x' y' : Byte} (hx : x.toNat < 16) (hy : y.toNat < 16)
    (hx' : x'.toNat < 16) (hy' : y'.toNat < 16) :
    (x <<< 4) + y = (x' <<< 4) + y' ↔ x = x' ∧ y = y' := by
  simp only [← BitVec.toNat_inj, BitVec.toNat_add, BitVec.toNat_shiftLeft, Nat.shiftLeft_eq]
  omega

/-- The text of byte `i` of an address. -/
def Spelled (string : List Byte) (i : ℕ) (byte : Byte) : Prop :=
  ∃ c c' x x', string[3 * i]? = some c ∧ toHex c = some x ∧
    string[3 * i + 1]? = some c' ∧ toHex c' = some x' ∧ byte = (x <<< 4) + x' ∧
    (i < BLE_ADDRESS_SIZE - 1 → string[3 * i + 2]? = some 0x3A)

lemma eq_some_of_loadAt {string : List Byte} {i : ℕ} {c : Byte} (h : loadAt string i = .ok c) :
    string[i]? = some c := by
  unfold loadAt at h
  split at h
  · next hget => rw [hget, Except.ok.inj h]
  · cases h

/-- One round of the loop, if the whole succeeds. -/
lemma toBLEAddressIdFrom_round {string : List Byte} {fuel index position : ℕ}
    {address address' : Address}
    (h : toBLEAddressIdFrom string (fuel + 1) index position address = .ok (some address')) :
    (position = BLE_ADDRESS_SIZE ∧ address' = address) ∨
      ∃ c c' x x', ∃ hlt : position < BLE_ADDRESS_SIZE,
        string[index]? = some c ∧ toHex c = some x ∧
        string[index + 1]? = some c' ∧ toHex c' = some x' ∧
        (position < BLE_ADDRESS_SIZE - 1 → string[index + 2]? = some 0x3A) ∧
        toBLEAddressIdFrom string fuel (index + 3) (position + 1)
          (address.set position ((x <<< 4) + x') hlt) = .ok (some address') := by
  unfold toBLEAddressIdFrom at h
  by_cases hindex : index < string.length
  · rw [if_pos hindex] at h
    obtain ⟨c, hc, h⟩ := bind_eq_ok_iff.mp h
    cases hx : toHex c with
    | none =>
      rw [hx] at h
      cases h
    | some x =>
      rw [hx] at h
      obtain ⟨c', hc', h⟩ := bind_eq_ok_iff.mp h
      cases hx' : toHex c' with
      | none =>
        rw [hx'] at h
        cases h
      | some x' =>
        rw [hx'] at h
        obtain ⟨address₁, hstore, h⟩ := bind_eq_ok_iff.mp h
        -- a store behind the six bytes would be a fault
        have hlt := Memory.lt_of_store_eq_ok hstore
        rw [store, dif_pos hlt] at hstore
        obtain rfl := Except.ok.inj hstore
        refine .inr ⟨c, c', x, x', hlt, eq_some_of_loadAt hc, hx, eq_some_of_loadAt hc', hx', ?_⟩
        by_cases hlast : position < BLE_ADDRESS_SIZE - 1
        · rw [if_pos hlast] at h
          obtain ⟨colon, hcolon, h⟩ := bind_eq_ok_iff.mp h
          split_ifs at h with hne
          · cases h
          · rw [not_not.mp hne] at hcolon
            exact ⟨fun _ => eq_some_of_loadAt hcolon, h⟩
        · rw [if_neg hlast] at h
          exact ⟨fun hbefore => absurd hbefore hlast, h⟩
  · rw [if_neg hindex] at h
    split_ifs at h with hend
    · exact .inl ⟨hend, (Option.some.inj (Except.ok.inj h)).symm⟩
    · cases h

/-- The loop leaves the bytes in front of `position`, and reads the others. -/
lemma toBLEAddressIdFrom_spec {string : List Byte} {fuel position : ℕ} {address address' : Address}
    (h : toBLEAddressIdFrom string fuel (3 * position) position address = .ok (some address')) :
    (∀ i (hi : i < BLE_ADDRESS_SIZE), i < position → address'[i] = address[i]) ∧
      ∀ i (hi : i < BLE_ADDRESS_SIZE), position ≤ i → Spelled string i address'[i] := by
  induction fuel generalizing position address with
  | zero => cases h
  | succ fuel ih =>
    rcases toBLEAddressIdFrom_round h with
      ⟨hend, heq⟩ | ⟨c, c', x, x', hlt, hc, hx, hc', hx', hcolon, hnext⟩
    · rw [heq]
      exact ⟨fun _ _ _ => rfl, fun i hi hle => by omega⟩
    · rw [show 3 * position + 3 = 3 * (position + 1) by ring] at hnext
      obtain ⟨hfront, hback⟩ := ih hnext
      constructor
      · intro i hi hbefore
        rw [hfront i hi (by omega), Vector.getElem_set_ne _ _ (by omega)]
      · intro i hi hle
        by_cases hhere : i = position
        · subst hhere
          refine ⟨c, c', x, x', hc, hx, hc', hx', ?_, hcolon⟩
          rw [hfront i hi (by omega), Vector.getElem_set_self]
        · exact hback i hi (by omega)

lemma length_of_toBLEAddressId {string : List Byte} {address : Address}
    (h : toBLEAddressId string = .ok (some address)) : string.length = 17 := by
  unfold toBLEAddressId at h
  split_ifs at h with hlength
  · cases h
  · exact not_not.mp hlength

lemma spelled_of_toBLEAddressId {string : List Byte} {address : Address}
    (h : toBLEAddressId string = .ok (some address)) (i : ℕ) (hi : i < BLE_ADDRESS_SIZE) :
    Spelled string i address[i] := by
  have hlength := length_of_toBLEAddressId h
  unfold toBLEAddressId at h
  rw [if_neg (not_not.mpr hlength)] at h
  exact (toBLEAddressIdFrom_spec h).2 i hi (Nat.zero_le i)

/-- Texts of one byte agree in their digits exactly if the bytes are the same. -/
lemma Spelled.eq_iff {string string' : List Byte} {i : ℕ} {byte byte' : Byte}
    (h : Spelled string i byte) (h' : Spelled string' i byte') :
    byte = byte' ↔
      string[3 * i]?.map spelling = string'[3 * i]?.map spelling ∧
        string[3 * i + 1]?.map spelling = string'[3 * i + 1]?.map spelling := by
  obtain ⟨c, d, x, y, hc, hx, hd, hy, hbyte, -⟩ := h
  obtain ⟨c', d', x', y', hc', hx', hd', hy', hbyte', -⟩ := h'
  rw [hbyte, hbyte', nibbles_inj (toHex_eq_some hx).1 (toHex_eq_some hy).1 (toHex_eq_some hx').1
    (toHex_eq_some hy').1, toHex_inj_iff hx hx', toHex_inj_iff hy hy', hc, hc', hd, hd']
  simp only [Option.map_some, Option.some.injEq]

/-- Two strings give the same address exactly if they are spelled alike. -/
lemma toBLEAddressId_inj_iff {string string' : List Byte} {address address' : Address}
    (h : toBLEAddressId string = .ok (some address))
    (h' : toBLEAddressId string' = .ok (some address')) :
    address = address' ↔ string.map spelling = string'.map spelling := by
  have hlength := length_of_toBLEAddressId h
  have hlength' := length_of_toBLEAddressId h'
  have hspelled := spelled_of_toBLEAddressId h
  have hspelled' := spelled_of_toBLEAddressId h'
  constructor
  · intro heq
    apply List.ext_getElem?
    intro j
    rw [List.getElem?_map, List.getElem?_map]
    by_cases hj : j < 17
    · have hi : j / 3 < BLE_ADDRESS_SIZE := by
        unfold BLE_ADDRESS_SIZE
        omega
      have hdigits := (Spelled.eq_iff (hspelled (j / 3) hi) (hspelled' (j / 3) hi)).mp (by rw [heq])
      obtain ⟨-, -, -, -, -, -, -, -, -, hcolon⟩ := hspelled (j / 3) hi
      obtain ⟨-, -, -, -, -, -, -, -, -, hcolon'⟩ := hspelled' (j / 3) hi
      -- a first digit, a second digit or a colon
      have hpart : j = 3 * (j / 3) ∨ j = 3 * (j / 3) + 1 ∨
          j = 3 * (j / 3) + 2 ∧ j / 3 < BLE_ADDRESS_SIZE - 1 := by
        unfold BLE_ADDRESS_SIZE
        omega
      rcases hpart with hpart | hpart | ⟨hpart, hlast⟩
      · rw [hpart]
        exact hdigits.1
      · rw [hpart]
        exact hdigits.2
      · rw [hpart, hcolon hlast, hcolon' hlast]
    · rw [List.getElem?_eq_none (by omega), List.getElem?_eq_none (by omega)]
  · intro heq
    have hmap : ∀ j : ℕ, string[j]?.map spelling = string'[j]?.map spelling := by
      intro j
      rw [← List.getElem?_map, ← List.getElem?_map, heq]
    ext i hi
    rw [(Spelled.eq_iff (hspelled i hi) (hspelled' i hi)).mpr ⟨hmap _, hmap _⟩]

/-! ## What is sent -/

/-- The manufacturer-specific data that a receiver finds in an advertisement. -/
def manufacturerData (advertisement : Vector Byte BLE_PAYLOAD_SIZE) :
    Checked (Option (List Byte)) :=
  Gap.lookup ⟨advertisement, BitVec.ofNat 8 BLE_PAYLOAD_SIZE⟩ TypeManufacturerSpecificData

/-- The payload of the event in an advertisement starts with the address. -/
def Carries (advertisement : List Byte) (address : Address) : Prop :=
  ∃ payload : Vector Byte BLE_PAYLOAD_SIZE, payload.toList = advertisement ∧
    ∃ data, manufacturerData payload = .ok (some data) ∧
      (data.drop payloadOffset).take BLE_ADDRESS_SIZE = address.toList

variable {bytes name : List Byte}

lemma good_fields (name : List Byte) (hbytes : bytes.length ≤ 20) :
    Gap.Visible 0 (fields bytes name) ∧ (∀ i ∈ fields bytes name, i.type ≠ 0) ∧
      ((fields bytes name).map Item.type).Nodup := by
  unfold fields
  split_ifs with hfit
  · refine ⟨?_, ?_, ?_⟩
    · simp [Gap.Visible, BLE_PAYLOAD_SIZE]
      omega
    · simp [TypeFlags, TypeAppearance, TypeManufacturerSpecificData, TypeCompleteLocalName]
    · simp [TypeFlags, TypeAppearance, TypeManufacturerSpecificData, TypeCompleteLocalName]
  · refine ⟨?_, ?_, ?_⟩
    · simp [Gap.Visible, BLE_PAYLOAD_SIZE]
    · simp [TypeFlags, TypeAppearance, TypeManufacturerSpecificData]
    · simp [TypeFlags, TypeAppearance, TypeManufacturerSpecificData]

/-- A receiver finds the data of an advertisement. -/
lemma manufacturerData_eq {payload : Vector Byte BLE_PAYLOAD_SIZE} (hbytes : bytes.length ≤ 20)
    (h : payload.toList = padded (fields bytes name)) :
    manufacturerData payload = .ok (some bytes) := by
  obtain ⟨hvisible, htypes, hnodup⟩ := good_fields name hbytes
  have hlength := Gap.length_of_toList h
  rw [← size, List.length_replicate] at hlength
  have hgood : Gap.Good ⟨payload, BitVec.ofNat 8 (size (fields bytes name))⟩ (fields bytes name) :=
    ⟨⟨h, Gap.toNat_position (by omega)⟩, hvisible, htypes, hnodup⟩
  exact Gap.lookup_eq_some hgood
    (show ⟨TypeManufacturerSpecificData, bytes⟩ ∈ fields bytes name by simp [fields])

lemma length_padded (hbytes : bytes.length ≤ 20) :
    (padded (fields bytes name)).length = BLE_PAYLOAD_SIZE := by
  have hsize : size (fields bytes name) ≤ BLE_PAYLOAD_SIZE := by
    unfold fields BLE_PAYLOAD_SIZE
    split_ifs with hfit
    · simp [Ltv.size_cons]
      omega
    · simp [Ltv.size_cons]
      omega
  unfold padded
  rw [List.length_append, List.length_replicate, ← size]
  omega

/-- What an advertisement carries is decided by its data. -/
lemma carries_iff {address : Address} (hbytes : bytes.length ≤ 20) :
    Carries (padded (fields bytes name)) address ↔
      (bytes.drop payloadOffset).take BLE_ADDRESS_SIZE = address.toList := by
  constructor
  · rintro ⟨payload, hpayload, data, hdata, hcarries⟩
    rw [manufacturerData_eq hbytes hpayload] at hdata
    rw [Option.some.inj (Except.ok.inj hdata)]
    exact hcarries
  · intro h
    obtain ⟨payload, hpayload⟩ : ∃ payload : Vector Byte BLE_PAYLOAD_SIZE,
        payload.toList = padded (fields bytes name) :=
      ⟨⟨(padded (fields bytes name)).toArray, by simpa using length_padded hbytes⟩, by simp⟩
    exact ⟨payload, hpayload, bytes, manufacturerData_eq hbytes hpayload, h⟩

lemma drop_eventBytes {lo hi last : Byte} {commandId : Word} {payload : List Byte} :
    (eventBytes lo hi last commandId payload).drop payloadOffset = payload ++ [last] := rfl

lemma openDoor_eq (stack : Stack) (address : Address) :
    ∃ lo hi last, OpenDoor.fillPayload stack.door address =
      .ok (padded (fields (eventBytes lo hi last EVENT_ACCESS_DOOR address.toList)
        OpenDoor.name)) := by
  obtain ⟨lo, -, hi, -, last, -, h⟩ := advertise_event EVENT_ACCESS_DOOR OpenDoor.name
    (show address.toList.length = BLE_ADDRESS_SIZE from Vector.length_toList) (by decide) stack.door
  exact ⟨lo, hi, last, h⟩

lemma turnLamp_eq (stack : Stack) (address : Address) (brightness : ℤ) :
    ∃ lo hi last, TurnLamp.fillPayload stack.lamp address brightness =
      .ok (padded (fields (eventBytes lo hi last EVENT_LIGHT_LAMP [BitVec.ofInt 8 brightness])
        TurnLamp.name)) := by
  obtain ⟨lo, -, hi, -, last, -, h⟩ := advertise_event EVENT_LIGHT_LAMP TurnLamp.name
    (show [BitVec.ofInt 8 brightness].length = 1 from rfl) (by decide) stack.lamp
  exact ⟨lo, hi, last, h⟩

section Messages

variable (load : List Byte → Option Variant)

/-- The message goes out as one advertisement, with the address in it. -/
def Delivers (data : List Byte) (address : Address) : Prop :=
  ∀ stack, ∃ advertisement, processCloudMsg load stack data = .ok (0, [advertisement]) ∧
    Carries advertisement address

/-- The messages never lead to the same advertisements. -/
def Separates (data data' : List Byte) : Prop :=
  ∀ stack stack' result result', processCloudMsg load stack data = .ok result →
    processCloudMsg load stack' data' = .ok result' → result.2 ≠ result'.2

variable {load} {data data' : List Byte} {r r' : Request}

lemma processCloudMsg_of_door (h : request load data = .ok (some r)) (hmsg : r.msgId = 1)
    (stack : Stack) : processCloudMsg load stack data = (do
      let advertisement ← OpenDoor.fillPayload stack.door r.address
      return (0, [advertisement])) := by
  unfold processCloudMsg
  rw [h, ok_bind]
  dsimp only
  rw [if_pos hmsg]

lemma processCloudMsg_door (h : request load data = .ok (some r)) (hmsg : r.msgId = 1)
    (stack : Stack) :
    ∃ lo hi last, processCloudMsg load stack data =
      .ok (0, [padded (fields (eventBytes lo hi last EVENT_ACCESS_DOOR r.address.toList)
        OpenDoor.name)]) := by
  obtain ⟨lo, hi, last, hdoor⟩ := openDoor_eq stack r.address
  refine ⟨lo, hi, last, ?_⟩
  rw [processCloudMsg_of_door h hmsg, hdoor, ok_bind]
  rfl

lemma processCloudMsg_lamp (h : request load data = .ok (some r)) (hmsg : r.msgId = 2)
    (stack : Stack) :
    ∃ lo hi last, processCloudMsg load stack data =
      .ok (0, [padded (fields (eventBytes lo hi last EVENT_LIGHT_LAMP
        [BitVec.ofInt 8 r.newState]) TurnLamp.name)]) := by
  obtain ⟨lo, hi, last, hlamp⟩ := turnLamp_eq stack r.address r.newState
  refine ⟨lo, hi, last, ?_⟩
  unfold processCloudMsg
  rw [h, ok_bind]
  dsimp only
  rw [if_neg (by omega), if_pos hmsg, hlamp, ok_bind]
  rfl

/-- A command for a door is delivered. -/
lemma delivers_door (h : request load data = .ok (some r)) (hmsg : r.msgId = 1) :
    Delivers load data r.address := by
  intro stack
  obtain ⟨lo, hi, last, hdoor⟩ := processCloudMsg_door h hmsg stack
  have hlength : r.address.toList.length = BLE_ADDRESS_SIZE := Vector.length_toList
  refine ⟨_, hdoor, (carries_iff ?_).mpr ?_⟩
  · rw [length_eventBytes, hlength]
    decide
  · rw [drop_eventBytes, List.take_left' hlength]

/-- A command for a lamp goes out without the address. -/
lemma not_delivers_lamp (h : request load data = .ok (some r)) (hmsg : r.msgId = 2) :
    ¬ Delivers load data r.address := by
  intro hdelivers
  obtain ⟨advertisement, hresult, hcarries⟩ :=
    hdelivers ⟨Vector.replicate _ 0, Vector.replicate _ 0⟩
  obtain ⟨lo, hi, last, hlamp⟩ :=
    processCloudMsg_lamp h hmsg ⟨Vector.replicate _ 0, Vector.replicate _ 0⟩
  rw [hlamp] at hresult
  have hsame := List.head_eq_of_cons_eq (congrArg Prod.snd (Except.ok.inj hresult))
  have hdata : storeSize [BitVec.ofInt 8 r.newState].length ≤ 20 := show storeSize 1 ≤ 20 by decide
  rw [← hsame, carries_iff (by rwa [length_eventBytes]), drop_eventBytes] at hcarries
  -- the two bytes behind the header are too few for an address
  have hshort := congrArg List.length hcarries
  rw [Vector.length_toList, List.length_take] at hshort
  exact absurd hshort (show ¬ min BLE_ADDRESS_SIZE 2 = BLE_ADDRESS_SIZE by decide)

/-- Commands for doors are as different as the addresses. -/
lemma separates_door_iff (h : request load data = .ok (some r))
    (h' : request load data' = .ok (some r')) (hmsg : r.msgId = 1) (hsame : r'.msgId = r.msgId) :
    Separates load data data' ↔ r.address ≠ r'.address := by
  constructor
  · intro hseparates heq
    obtain ⟨lo, hi, last, hresult⟩ := processCloudMsg_door h hmsg
      ⟨Vector.replicate _ 0, Vector.replicate _ 0⟩
    have hresults := (processCloudMsg_of_door h hmsg _).trans (heq ▸
      (processCloudMsg_of_door h' (hsame.trans hmsg)
        ⟨Vector.replicate _ 0, Vector.replicate _ 0⟩).symm)
    exact hseparates _ _ _ _ hresult (hresults.symm.trans hresult) rfl
  · intro hne stack stack' result result' hresult hresult' heq
    obtain ⟨lo, hi, last, hdoor⟩ := processCloudMsg_door h hmsg stack
    obtain ⟨lo', hi', last', hdoor'⟩ := processCloudMsg_door h' (hsame.trans hmsg) stack'
    rw [hdoor] at hresult
    rw [hdoor'] at hresult'
    rw [← Except.ok.inj hresult, ← Except.ok.inj hresult'] at heq
    have hevents := padded_inj (by rw [length_eventBytes, length_eventBytes]; simp)
      (List.head_eq_of_cons_eq heq)
    have hpayloads := congrArg (List.drop payloadOffset) hevents
    rw [drop_eventBytes, drop_eventBytes] at hpayloads
    exact hne (Vector.toList_inj.mp (List.append_inj' hpayloads rfl).1)

lemma toBLEAddressId_of_request (h : request load data = .ok (some r)) :
    toBLEAddressId r.deviceId = .ok (some r.address) := by
  unfold request at h
  split at h
  · cases h
  · split_ifs at h
    · cases h
    · obtain ⟨address, haddress, h⟩ := bind_eq_ok_iff.mp h
      cases address with
      | none => cases h
      | some address =>
        obtain rfl := Option.some.inj (Except.ok.inj h)
        exact haddress

/-- **Commands reach their devices.** Of two accepted messages with the same command, one is sent
with its address and is never confused with the other exactly if the command is for a door and the
ids, if they differ, differ in more than the case of an `a`. -/
theorem delivered_iff (load : List Byte → Option Variant) {data data' : List Byte}
    {r r' : Request} (h : request load data = .ok (some r))
    (h' : request load data' = .ok (some r')) (hmsg : r.msgId = 1 ∨ r.msgId = 2)
    (hsame : r'.msgId = r.msgId) :
    (Delivers load data r.address ∧ (r.deviceId ≠ r'.deviceId → Separates load data data')) ↔
      r.msgId = 1 ∧
        (r.deviceId ≠ r'.deviceId → r.deviceId.map spelling ≠ r'.deviceId.map spelling) := by
  have haddress := toBLEAddressId_inj_iff (toBLEAddressId_of_request h)
    (toBLEAddressId_of_request h')
  constructor
  · rintro ⟨hdelivers, hseparates⟩
    have hdoor : r.msgId = 1 := by
      by_contra hlamp
      exact not_delivers_lamp h (hmsg.resolve_left hlamp) hdelivers
    refine ⟨hdoor, fun hne hspelling => ?_⟩
    exact (separates_door_iff h h' hdoor hsame).mp (hseparates hne) (haddress.mpr hspelling)
  · rintro ⟨hdoor, hids⟩
    refine ⟨delivers_door h hdoor, fun hne => ?_⟩
    exact (separates_door_iff h h' hdoor hsame).mpr fun heq => hids hne (haddress.mp heq)

/-- The text of a command. -/
def message (command device : String) : List Byte :=
  ascii "\x7b\"dt\":\x7b\"device_id\":\"" ++ ascii device ++ ascii "\",\"msg_id\":" ++
    ascii command ++ ascii ",\"new_state\":1\x7d\x7d"

/-- Two doors and two lamps as the library loads them. -/
def loadMessage (text : List Byte) : Option Variant :=
  [((1 : BitVec 32), "1", "00:11:22:33:44:55"), (1, "1", "00:11:22:33:44:56"),
    (2, "2", "00:11:22:33:44:55"), (2, "2", "00:11:22:33:44:56")].findSome?
    fun (msgId, command, device) =>
      if text = message command device then
        some (.map [(ascii "dt", .map [(ascii "device_id", .string (ascii device)),
          (ascii "msg_id", .int msgId), (ascii "new_state", .int 1)])])
      else none

theorem delivered_iff_doors :
    (Delivers loadMessage (message "1" "00:11:22:33:44:55")
        #v[0x00, 0x11, 0x22, 0x33, 0x44, 0x55] ∧
      (ascii "00:11:22:33:44:55" ≠ ascii "00:11:22:33:44:56" →
        Separates loadMessage (message "1" "00:11:22:33:44:55")
          (message "1" "00:11:22:33:44:56"))) ↔
      (1 : ℤ) = 1 ∧ (ascii "00:11:22:33:44:55" ≠ ascii "00:11:22:33:44:56" →
        (ascii "00:11:22:33:44:55").map spelling ≠ (ascii "00:11:22:33:44:56").map spelling) :=
  delivered_iff loadMessage
    (r := ⟨1, ascii "00:11:22:33:44:55", 1, #v[0x00, 0x11, 0x22, 0x33, 0x44, 0x55]⟩)
    (show request loadMessage (message "1" "00:11:22:33:44:55") = _ by decide)
    (show request loadMessage (message "1" "00:11:22:33:44:56") =
      .ok (some ⟨1, ascii "00:11:22:33:44:56", 1, #v[0x00, 0x11, 0x22, 0x33, 0x44, 0x56]⟩)
      by decide)
    (.inl rfl) rfl

/-- Two lamps get the same advertisement, and neither of them finds its address in it. -/
theorem delivered_lamps :
    request loadMessage (message "2" "00:11:22:33:44:55") =
        .ok (some ⟨2, ascii "00:11:22:33:44:55", 1, #v[0x00, 0x11, 0x22, 0x33, 0x44, 0x55]⟩) ∧
      request loadMessage (message "2" "00:11:22:33:44:56") =
        .ok (some ⟨2, ascii "00:11:22:33:44:56", 1, #v[0x00, 0x11, 0x22, 0x33, 0x44, 0x56]⟩) ∧
      ¬ Delivers loadMessage (message "2" "00:11:22:33:44:55")
        #v[0x00, 0x11, 0x22, 0x33, 0x44, 0x55] ∧
      ¬ Separates loadMessage (message "2" "00:11:22:33:44:55")
        (message "2" "00:11:22:33:44:56") := by
  refine ⟨by decide, by decide, ?_, ?_⟩
  · exact not_delivers_lamp
      (r := ⟨2, ascii "00:11:22:33:44:55", 1, #v[0x00, 0x11, 0x22, 0x33, 0x44, 0x55]⟩)
      (by decide) rfl
  · intro hseparates
    exact hseparates ⟨Vector.replicate _ 0, Vector.replicate _ 0⟩
      ⟨Vector.replicate _ 0, Vector.replicate _ 0⟩ _ _ rfl rfl rfl

end Messages

end Services
end Vng
