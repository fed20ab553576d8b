import Mathlib.Data.Fintype.Basic
import Vng.Core.Setting
import Vng.Lib.Multimap

/-!
# The devices of `ZCloudClient`

The light sensor keeps the devices that the cloud knows in a multimap over their addresses. A
device list replaces the multimap, a device detail replaces one entry. `load` stands for the JSON
library behind `loadJsonString`. `ZCloudDevice` has no constructor: its numbers are what the stack
has left in them, until they are read.
-/

namespace Vng
namespace ZCloud

open Memory (Checked)

structure ZCloudDevice where
  address : List Byte
  type : BitVec 32
  id : BitVec 32
  name : List Byte
  value : List Byte
  group : List Byte
deriving DecidableEq, Repr

/-- What the stack has in the place of a `ZCloudDevice`. -/
structure Stack where
  type : BitVec 32
  id : BitVec 32

/-- `ZCloudDevice dev;` -/
def fresh (stack : Stack) : ZCloudDevice := ⟨[], stack.type, stack.id, [], [], []⟩

/-- A member that is a string. -/
def stringMember (cfg : Setting) (name : String) : Option (List Byte) :=
  match cfg.value (ascii name) with
  | some (.string value) => some value
  | _ => none

/-- A member that is an `int`. -/
def intMember (cfg : Setting) (name : String) : Option (BitVec 32) :=
  match cfg.value (ascii name) with
  | some (.int value) => some value
  | _ => none

/-- `_parseDeviceData`: the fields are assigned that `cfg` has. -/
def parseDeviceData (dev : ZCloudDevice) (cfg : Setting) : ZCloudDevice where
  address := (stringMember cfg "address").getD dev.address
  type := (intMember cfg "type").getD dev.type
  value := (stringMember cfg "value").getD dev.value
  id := (intMember cfg "deviceid").getD dev.id
  name := (stringMember cfg "name").getD dev.name
  group := (stringMember cfg "group").getD dev.group

/-- `_devices`. -/
abbrev Devices := Multimap (List Byte) ZCloudDevice

/-- The devices of a list, each under its address. -/
def ofDevices (devices : List ZCloudDevice) : Devices :=
  devices.foldl (fun devices dev => devices.insert dev.address dev) Multimap.empty

/-! ## `_gotDeviceDetail` -/

/-- The loop of `_gotDeviceDetail` from an iterator on, `fuel` more rounds of it. -/
def search (devices : Devices) (dev : ZCloudDevice) : (fuel iterator : ℕ) → Checked Devices
  | 0, _ => .error .diverges
  | fuel + 1, iterator =>
    match devices.entries[iterator]? with
    | none => return devices
    | some entry =>
      if entry.2.id = dev.id then return devices.assign iterator dev
      else if entry.2.address ≠ dev.address then return devices
      -- the iterator stays where it is
      else search devices dev fuel iterator

/-- `_gotDeviceDetail`, with a round for each entry and one more. -/
def gotDeviceDetail (load : List Byte → Option Setting) (stack : Stack) (devices : Devices)
    (devData : List Byte) : Checked Devices :=
  match load devData with
  | none => return devices
  | some v =>
    let dev := parseDeviceData (fresh stack) v
    search devices dev (devices.entries.length + 1) (devices.lowerBound dev.address)

/-- Every key is the address of its device. -/
def Keyed (devices : Devices) : Prop := ∀ entry ∈ devices.entries, entry.1 = entry.2.address

/-- The devices with the first one of an address and an id replaced. -/
def replaced (devices : Devices) (dev : ZCloudDevice) : Devices :=
  match devices.entries.findIdx? fun entry => entry.1 = dev.address ∧ entry.2.id = dev.id with
  | none => devices
  | some iterator => devices.assign iterator dev

variable {devices : Devices} {dev : ZCloudDevice}

lemma keyed_assign (h : Keyed devices) {iterator : ℕ} {entry : List Byte × ZCloudDevice}
    (hentry : devices.entries[iterator]? = some entry) (hkey : entry.1 = dev.address) :
    Keyed (devices.assign iterator dev) := by
  intro e he
  obtain ⟨j, hj⟩ := List.mem_iff_getElem?.mp he
  rw [Multimap.getElem?_assign] at hj
  split_ifs at hj with hsame
  · subst hsame
    rw [hentry, Option.map_some, Option.some.injEq] at hj
    rw [← hj]
    exact hkey
  · exact h e (List.mem_of_getElem? hj)

/-- On an entry of the address with another id the loop does not end. -/
lemma search_stuck {iterator : ℕ} {entry : List Byte × ZCloudDevice}
    (hentry : devices.entries[iterator]? = some entry) (hid : entry.2.id ≠ dev.id)
    (haddress : entry.2.address = dev.address) (fuel : ℕ) :
    search devices dev fuel iterator = .error .diverges := by
  induction fuel with
  | zero => rfl
  | succ fuel ih =>
    rw [search, hentry]
    dsimp only
    rw [if_neg hid, if_neg (not_not.mpr haddress), ih]

/-- The first entry at or above an address, and what is in front of it and behind it. -/
lemma lowerBound_cases (devices : Devices) (address : List Byte) :
    (devices.entries[devices.lowerBound address]? = none ∧
        ∀ entry ∈ devices.entries, entry.1 < address) ∨
      ∃ before entry after, devices.entries = before ++ entry :: after ∧
        before.length = devices.lowerBound address ∧ (∀ e ∈ before, e.1 < address) ∧
        address ≤ entry.1 ∧ ∀ e ∈ after, entry.1 ≤ e.1 := by
  obtain ⟨before, after, hentries, hlength, hbefore, hafter⟩ := devices.lowerBound_spec address
  cases after with
  -- it is the end of the map
  | nil =>
    rw [List.append_nil] at hentries
    refine .inl ⟨List.getElem?_eq_none ?_, ?_⟩
    · rw [hentries, hlength]
    · rw [hentries]
      exact hbefore
  | cons entry after =>
    have hsorted := devices.sorted
    rw [hentries, List.pairwise_append] at hsorted
    exact .inr ⟨before, entry, after, hentries, hlength, hbefore, hafter entry List.mem_cons_self,
      (List.pairwise_cons.mp hsorted.2.1).1⟩

/-- Without an entry of the address and the id, nothing is to be replaced. -/
lemma replaced_of_absent
    (h : ∀ entry ∈ devices.entries, ¬ (entry.1 = dev.address ∧ entry.2.id = dev.id)) :
    replaced devices dev = devices := by
  unfold replaced
  rw [List.findIdx?_eq_none_iff.mpr fun entry hentry => decide_eq_false (h entry hentry)]

/-- An entry of the address and the id behind smaller addresses is the one to be replaced. -/
lemma replaced_of_first {before after : List (List Byte × ZCloudDevice)}
    {entry : List Byte × ZCloudDevice} (hentries : devices.entries = before ++ entry :: after)
    (hbefore : ∀ e ∈ before, e.1 < dev.address) (hkey : entry.1 = dev.address)
    (hid : entry.2.id = dev.id) : replaced devices dev = devices.assign before.length dev := by
  have hfront : before.findIdx? (fun e => e.1 = dev.address ∧ e.2.id = dev.id) = none :=
    List.findIdx?_eq_none_iff.mpr fun e he => by simp [Std.ne_of_lt (hbefore e he)]
  unfold replaced
  rw [hentries, List.findIdx?_append, hfront]
  simp [List.findIdx?_cons, hid, hkey]

/-- An entry with the id of the device is overwritten, whatever its key is. -/
lemma search_found {iterator : ℕ} {entry : List Byte × ZCloudDevice}
    (hentry : devices.entries[iterator]? = some entry) (hid : entry.2.id = dev.id) (fuel : ℕ) :
    search devices dev (fuel + 1) iterator = .ok (devices.assign iterator dev) := by
  rw [search, hentry]
  exact if_pos hid

/-- An entry of another address and another id ends the search. -/
lemma search_above {iterator : ℕ} {entry : List Byte × ZCloudDevice}
    (hentry : devices.entries[iterator]? = some entry) (hid : entry.2.id ≠ dev.id)
    (haddress : entry.2.address ≠ dev.address) (fuel : ℕ) :
    search devices dev (fuel + 1) iterator = .ok devices := by
  rw [search, hentry]
  dsimp only
  rw [if_neg hid, if_pos haddress]
  rfl

/-- To overwrite an entry of another address loses its key. -/
lemma not_keyed_assign {iterator : ℕ} {entry : List Byte × ZCloudDevice}
    (hentry : devices.entries[iterator]? = some entry) (hkey : entry.1 ≠ dev.address) :
    ¬ Keyed (devices.assign iterator dev) := by
  intro hkeyed
  have hassigned := Multimap.getElem?_assign devices iterator iterator dev
  rw [if_pos rfl, hentry, Option.map_some] at hassigned
  exact hkey (hkeyed (entry.1, dev) (List.mem_of_getElem? hassigned))

/-- The search ends as it should exactly if the first entry at or above the address has the id
of the device exactly if it has its address. -/
lemma search_iff (h : Keyed devices) (dev : ZCloudDevice) (fuel : ℕ) :
    (∃ devices', search devices dev (fuel + 1) (devices.lowerBound dev.address) = .ok devices' ∧
        devices' = replaced devices dev ∧ Keyed devices') ↔
      ∀ entry, devices.entries[devices.lowerBound dev.address]? = some entry →
        (entry.2.id = dev.id ↔ entry.1 = dev.address) := by
  rcases lowerBound_cases devices dev.address with
    ⟨hnone, hbelow⟩ | ⟨before, entry, after, hentries, hlength, hbefore, hle, hafter⟩
  · have hreplaced : replaced devices dev = devices :=
      replaced_of_absent fun e he hsame => Std.ne_of_lt (hbelow e he) hsame.1
    rw [hreplaced, hnone]
    -- no device at or above this address
    refine iff_of_true ⟨devices, ?_, rfl, h⟩ (by simp)
    rw [search, hnone]
    rfl
  have hentry : devices.entries[devices.lowerBound dev.address]? = some entry := by
    rw [hentries, ← hlength]
    simp
  rw [hentry]
  simp only [Option.some.injEq, forall_eq']
  have haddress : entry.1 = entry.2.address := h entry (List.mem_of_getElem? hentry)
  by_cases hid : entry.2.id = dev.id <;> by_cases hkey : entry.1 = dev.address
  · refine iff_of_true ⟨_, search_found hentry hid fuel, ?_, keyed_assign h hentry hkey⟩
      (iff_of_true hid hkey)
    rw [replaced_of_first hentries hbefore hkey hid, hlength]
  -- the device with the id stands under another address
  · refine iff_of_false ?_ fun hiff => hkey (hiff.mp hid)
    rintro ⟨devices', hresult, -, hkeyed⟩
    rw [search_found hentry hid] at hresult
    exact not_keyed_assign hentry hkey (Except.ok.inj hresult ▸ hkeyed)
  -- the same address with another id: the iterator never moves on
  · refine iff_of_false ?_ fun hiff => hid (hiff.mpr hkey)
    rintro ⟨devices', hresult, -, -⟩
    rw [search_stuck hentry hid (haddress.symm.trans hkey)] at hresult
    cases hresult
  · have hlt : dev.address < entry.1 := Std.lt_of_le_of_ne hle (Ne.symm hkey)
    refine iff_of_true ⟨devices, ?_, ?_, h⟩ (iff_of_false hid hkey)
    · exact search_above hentry hid (fun hsame => hkey (haddress.trans hsame)) fuel
    · -- the addresses in front are smaller, and those behind are greater
      rw [replaced_of_absent]
      rw [hentries]
      rintro e he ⟨hsame, -⟩
      rcases List.mem_append.mp he with hmem | hmem
      · exact Std.ne_of_lt (hbefore e hmem) hsame
      rcases List.mem_cons.mp hmem with rfl | hlater
      · exact hkey hsame
      · exact Std.ne_of_lt (Std.lt_of_lt_of_le hlt (hafter e hlater)) hsame.symm

/-- **Device detail.** The update ends with the first entry of the device's address and id
replaced, if there is one, and with every key the address of its device, exactly if the first entry
at or above the address has the id of the device exactly if it has its address. -/
theorem gotDeviceDetail_iff {load : List Byte → Option Setting} {stack : Stack} {devices : Devices}
    (hkeyed : Keyed devices) {devData : List Byte} {v : Setting} (hload : load devData = some v)
    {dev : ZCloudDevice} (hdev : dev = parseDeviceData (fresh stack) v) :
    (∃ devices', gotDeviceDetail load stack devices devData = .ok devices' ∧
        devices' = replaced devices dev ∧ Keyed devices') ↔
      ∀ entry, devices.entries[devices.lowerBound dev.address]? = some entry →
        (entry.2.id = dev.id ↔ entry.1 = dev.address) := by
  have hsearch : gotDeviceDetail load stack devices devData =
      search devices dev (devices.entries.length + 1) (devices.lowerBound dev.address) := by
    unfold gotDeviceDetail
    rw [hload, hdev]
  rw [hsearch]
  exact search_iff hkeyed dev _

/-- `{"address": .., "deviceid": ..}`. -/
def detail (address : String) (id : BitVec 32) : Setting :=
  .map [(ascii "address", .string (ascii address)), (ascii "deviceid", .int id)]

/-- A lamp at an address, and its new detail. -/
theorem gotDeviceDetail_iff_lamp :
    ∃ devices', gotDeviceDetail (fun _ => some (detail "0A" 1)) ⟨0, 0⟩
        (ofDevices [⟨ascii "0A", 7, 1, [], [], []⟩]) [] = .ok devices' ∧
      devices' = replaced (ofDevices [⟨ascii "0A", 7, 1, [], [], []⟩])
        (parseDeviceData (fresh ⟨0, 0⟩) (detail "0A" 1)) ∧ Keyed devices' := by
  refine (gotDeviceDetail_iff (v := detail "0A" 1) ?_ rfl rfl).mpr ?_
  · unfold Keyed
    decide
  · intro entry hentry
    obtain rfl := Option.some.inj hentry
    decide

/-- Two devices at one address: the detail of the second does not end. And the detail of a device
that is not known overwrites the next address, if its device has the same id. -/
theorem gotDeviceDetail_stuck :
    gotDeviceDetail (fun _ => some (detail "0A" 2)) ⟨0, 0⟩
        (ofDevices [⟨ascii "0A", 7, 1, [], [], []⟩, ⟨ascii "0A", 7, 2, [], [], []⟩]) [] =
      .error .diverges ∧
    ∃ devices', gotDeviceDetail (fun _ => some (detail "0A" 1)) ⟨0, 0⟩
        (ofDevices [⟨ascii "0B", 7, 1, [], [], []⟩]) [] = .ok devices' ∧
      devices'.entries = [(ascii "0B", ⟨ascii "0A", 0, 1, [], [], []⟩)] ∧ ¬ Keyed devices' := by
  refine ⟨rfl, _, rfl, rfl, ?_⟩
  unfold Keyed
  decide

/-! ## `_gotDeviceList` -/

/-- The loop of `_gotDeviceList`: one record, parsed into again for each element. -/
def insertAll (dev : ZCloudDevice) (devices : Devices) : List Setting → Devices
  | [] => devices
  | cfg :: elements =>
    let dev := parseDeviceData dev cfg
    insertAll dev (devices.insert dev.address dev) elements

def gotDeviceList (load : List Byte → Option Setting) (stack : Stack) (devices : Devices)
    (deviceList : List Byte) : Devices :=
  match load deviceList with
  | some (.list elements) => insertAll (fresh stack) Multimap.empty elements
  | _ => devices

/-- What is recorded for an element that stands behind others. -/
def recorded (stack : Stack) (before : List Setting) (cfg : Setting) : ZCloudDevice :=
  parseDeviceData (before.foldl parseDeviceData (fresh stack)) cfg

/-- An element parsed on its own. -/
def alone (stack : Stack) (cfg : Setting) : ZCloudDevice := parseDeviceData (fresh stack) cfg

/-! ## Fields -/

inductive Field
  | address | type | id | name | value | group
deriving DecidableEq

instance : Fintype Field where
  elems := {.address, .type, .id, .name, .value, .group}
  complete := fun field => by cases field <;> decide

inductive Data
  | text (value : List Byte)
  | number (value : BitVec 32)
deriving DecidableEq

/-- The field as an element has it, if it has it with the type that is asked for. -/
def Field.read (cfg : Setting) : Field → Option Data
  | .address => (stringMember cfg "address").map .text
  | .type => (intMember cfg "type").map .number
  | .id => (intMember cfg "deviceid").map .number
  | .name => (stringMember cfg "name").map .text
  | .value => (stringMember cfg "value").map .text
  | .group => (stringMember cfg "group").map .text

def ZCloudDevice.get (dev : ZCloudDevice) : Field → Data
  | .address => .text dev.address
  | .type => .number dev.type
  | .id => .number dev.id
  | .name => .text dev.name
  | .value => .text dev.value
  | .group => .text dev.group

/-- The field as the last element has it that has it. -/
def Field.last (field : Field) (elements : List Setting) : Option Data :=
  (elements.filterMap fun cfg => field.read cfg).getLast?

lemma ZCloudDevice.ext_get {dev dev' : ZCloudDevice} (h : ∀ field, dev.get field = dev'.get field) :
    dev = dev' := by
  cases dev
  cases dev'
  have haddress := h .address
  have htype := h .type
  have hid := h .id
  have hname := h .name
  have hvalue := h .value
  have hgroup := h .group
  simp_all [ZCloudDevice.get]

/-- A field is assigned if the element has it, and left otherwise. -/
lemma get_parseDeviceData (dev : ZCloudDevice) (cfg : Setting) (field : Field) :
    (parseDeviceData dev cfg).get field = (field.read cfg).getD (dev.get field) := by
  cases field <;> simp only [parseDeviceData, ZCloudDevice.get, Field.read, Option.getD_map]

/-- A field of a record that has gone over some elements is from the last of them that has it. -/
lemma get_foldl (dev : ZCloudDevice) (elements : List Setting) (field : Field) :
    (elements.foldl parseDeviceData dev).get field =
      (field.last elements).getD (dev.get field) := by
  induction elements using List.reverseRecOn with
  | nil => rfl
  | append_singleton elements cfg ih =>
    rw [List.foldl_append, List.foldl_cons, List.foldl_nil, get_parseDeviceData, ih]
    unfold Field.last
    rw [List.filterMap_append, List.getLast?_append]
    cases hread : field.read cfg <;> simp [hread]

/-- Parsing an element into two records gives the same if they agree where it lacks a field. -/
lemma parseDeviceData_eq_iff {dev dev' : ZCloudDevice} {cfg : Setting} :
    parseDeviceData dev cfg = parseDeviceData dev' cfg ↔
      ∀ field : Field, field.read cfg = none → dev.get field = dev'.get field := by
  constructor
  · intro heq field hnone
    have hfield := congrArg (fun dev => dev.get field) heq
    simpa [get_parseDeviceData, hnone] using hfield
  · intro h
    apply ZCloudDevice.ext_get
    intro field
    rw [get_parseDeviceData, get_parseDeviceData]
    cases hread : field.read cfg with
    | none => exact h field hread
    | some data => rfl

/-! ## The records of a list -/

/-- The records that the loop inserts. -/
def records (dev : ZCloudDevice) : List Setting → List ZCloudDevice
  | [] => []
  | cfg :: elements => parseDeviceData dev cfg :: records (parseDeviceData dev cfg) elements

lemma insertAll_eq (dev : ZCloudDevice) (devices : Devices) (elements : List Setting) :
    insertAll dev devices elements =
      (records dev elements).foldl (fun devices dev => devices.insert dev.address dev) devices := by
  induction elements generalizing dev devices with
  | nil => rfl
  | cons cfg elements ih =>
    rw [insertAll, records, List.foldl_cons]
    exact ih _ _

/-- The multimap has the records that were inserted, in an order of its own. -/
lemma perm_foldl_insert (devices : Devices) (inserted : List ZCloudDevice) :
    ((inserted.foldl (fun devices dev => devices.insert dev.address dev) devices).entries.map
      Prod.snd).Perm (devices.entries.map Prod.snd ++ inserted) := by
  induction inserted generalizing devices with
  | nil => simp
  | cons dev inserted ih =>
    have hinsert := (Multimap.perm_insertEntry dev.address dev devices.entries).map Prod.snd
    rw [List.foldl_cons]
    refine (ih _).trans ((hinsert.append_right inserted).trans ?_)
    exact (List.perm_middle).symm

lemma perm_ofDevices (inserted : List ZCloudDevice) :
    ((ofDevices inserted).entries.map Prod.snd).Perm inserted :=
  perm_foldl_insert Multimap.empty inserted

/-- How many fields of a record are as in a fresh one. -/
def freshFields (stack : Stack) (dev : ZCloudDevice) : ℕ :=
  (Finset.univ.filter fun field => dev.get field = (fresh stack).get field).card

/-- Parsing into a used record leaves at most as many fields fresh as into a fresh one, and fewer
if the result is not the same. -/
lemma freshFields_le (stack : Stack) (dev : ZCloudDevice) (cfg : Setting) :
    freshFields stack (parseDeviceData dev cfg) ≤ freshFields stack (alone stack cfg) ∧
      (freshFields stack (alone stack cfg) ≤ freshFields stack (parseDeviceData dev cfg) →
        parseDeviceData dev cfg = alone stack cfg) := by
  have hsub : (Finset.univ.filter fun field =>
        (parseDeviceData dev cfg).get field = (fresh stack).get field) ⊆
      Finset.univ.filter fun field => (alone stack cfg).get field = (fresh stack).get field := by
    intro field hfield
    rw [Finset.mem_filter_univ, get_parseDeviceData] at hfield
    rw [Finset.mem_filter_univ, alone, get_parseDeviceData]
    cases hread : field.read cfg with
    | none => rfl
    | some data => rwa [hread] at hfield
  refine ⟨Finset.card_le_card hsub, fun hle => ?_⟩
  have hsame := Finset.eq_of_subset_of_card_le hsub hle
  refine parseDeviceData_eq_iff.mpr fun field hnone => ?_
  have hmem : field ∈ Finset.univ.filter fun field =>
      (alone stack cfg).get field = (fresh stack).get field := by
    rw [Finset.mem_filter_univ, alone, get_parseDeviceData, hnone]
    rfl
  rw [← hsame, Finset.mem_filter_univ, get_parseDeviceData, hnone] at hmem
  exact hmem

lemma sum_freshFields (stack : Stack) (dev : ZCloudDevice) (elements : List Setting) :
    ((records dev elements).map (freshFields stack)).sum ≤
        ((elements.map (alone stack)).map (freshFields stack)).sum ∧
      (((elements.map (alone stack)).map (freshFields stack)).sum ≤
          ((records dev elements).map (freshFields stack)).sum →
        records dev elements = elements.map (alone stack)) := by
  induction elements generalizing dev with
  | nil => exact ⟨le_rfl, fun _ => rfl⟩
  | cons cfg elements ih =>
    obtain ⟨hhead, hheadEq⟩ := freshFields_le stack dev cfg
    obtain ⟨htail, htailEq⟩ := ih (parseDeviceData dev cfg)
    simp only [records, List.map_cons, List.sum_cons]
    refine ⟨Nat.add_le_add hhead htail, fun hle => ?_⟩
    rw [hheadEq (by omega), ← htailEq (by omega), hheadEq (by omega)]

/-- Whatever the order of the multimap, it shows whether a record is not the element's own. -/
lemma insertAll_eq_iff (stack : Stack) (elements : List Setting) :
    insertAll (fresh stack) Multimap.empty elements = ofDevices (elements.map (alone stack)) ↔
      records (fresh stack) elements = elements.map (alone stack) := by
  rw [insertAll_eq]
  constructor
  · intro heq
    have hperm := (perm_ofDevices (records (fresh stack) elements)).symm
    unfold ofDevices at hperm
    rw [heq] at hperm
    have hsum := ((hperm.trans (perm_ofDevices _)).map (freshFields stack)).sum_eq
    exact (sum_freshFields stack (fresh stack) elements).2 hsum.ge
  · intro heq
    rw [heq]
    rfl

/-- The records are the elements' own exactly if each of them is. -/
lemma records_eq_map_iff (stack : Stack) (dev : ZCloudDevice) (elements : List Setting) :
    records dev elements = elements.map (alone stack) ↔
      ∀ before cfg after, elements = before ++ cfg :: after →
        parseDeviceData (before.foldl parseDeviceData dev) cfg = alone stack cfg := by
  induction elements generalizing dev with
  | nil => exact iff_of_true rfl (fun before cfg after h => by simp at h)
  | cons first elements ih =>
    rw [records, List.map_cons, List.cons.injEq, ih]
    constructor
    · rintro ⟨hfirst, hlater⟩ before cfg after hsplit
      cases before with
      | nil =>
        obtain ⟨rfl, -⟩ := List.cons.inj hsplit
        exact hfirst
      | cons cfg' before =>
        obtain ⟨rfl, hrest⟩ := List.cons.inj hsplit
        exact hlater before cfg after hrest
    · intro h
      refine ⟨h [] first elements rfl, fun before cfg after hsplit => ?_⟩
      exact h (first :: before) cfg after (by rw [hsplit]; rfl)

/-- Wherever an element lacks a field, the last element before it that has the field, if there is
one, has it as a fresh record does. -/
def Independent (stack : Stack) (elements : List Setting) : Prop :=
  ∀ before cfg after, elements = before ++ cfg :: after →
    ∀ field : Field, field.read cfg = none →
      ∀ data ∈ field.last before, data = (fresh stack).get field

/-- What an element is recorded as depends on the elements before it only through the fields that
it lacks. -/
lemma recorded_eq_iff (stack : Stack) (before before' : List Setting) (cfg : Setting) :
    recorded stack before cfg = recorded stack before' cfg ↔
      ∀ field : Field, field.read cfg = none →
        (field.last before).getD ((fresh stack).get field) =
          (field.last before').getD ((fresh stack).get field) := by
  unfold recorded
  simp only [parseDeviceData_eq_iff, get_foldl]

lemma records_alone_iff (stack : Stack) (elements : List Setting) :
    records (fresh stack) elements = elements.map (alone stack) ↔ Independent stack elements := by
  have hgetD : ∀ (data : Option Data) (old : Data),
      data.getD old = old ↔ ∀ d ∈ data, d = old := fun data old => by
    cases data <;> simp
  rw [records_eq_map_iff]
  unfold Independent alone
  simp only [parseDeviceData_eq_iff, get_foldl, hgetD]

/-- An element that has one field only, other than in a fresh record. -/
def only (stack : Stack) : Field → Setting
  | .address => .map [(ascii "address", .string [0x58])]
  | .type => .map [(ascii "type", .int (stack.type + 1))]
  | .id => .map [(ascii "deviceid", .int (stack.id + 1))]
  | .name => .map [(ascii "name", .string [0x58])]
  | .value => .map [(ascii "value", .string [0x58])]
  | .group => .map [(ascii "group", .string [0x58])]

lemma last_only (stack : Stack) (field : Field) :
    (field.last [only stack field]).getD ((fresh stack).get field) ≠ (fresh stack).get field := by
  cases field <;>
    simp [Field.last, only, Field.read, stringMember, intMember, Setting.value, fresh,
      ZCloudDevice.get]

/-- What is recorded for an element is independent of the others exactly if it has every field. -/
lemma recorded_const_iff (stack : Stack) (cfg : Setting) :
    (∀ before before', recorded stack before cfg = recorded stack before' cfg) ↔
      ∀ field : Field, field.read cfg ≠ none := by
  constructor
  · intro h field hnone
    have hfield := (recorded_eq_iff stack [only stack field] [] cfg).mp (h _ _) field hnone
    exact last_only stack field hfield
  · intro h before before'
    exact (recorded_eq_iff stack before before' cfg).mpr fun field hnone => absurd hnone (h field)

/-- **Device list.** The multimap is the one of the elements parsed on their own exactly if no
field that an element lacks has been set by one before it. What is recorded for an element never
depends on others exactly if it has all six fields. -/
theorem gotDeviceList_iff (load : List Byte → Option Setting) (stack : Stack) (devices : Devices)
    {deviceList : List Byte} {elements : List Setting}
    (hload : load deviceList = some (.list elements)) :
    (gotDeviceList load stack devices deviceList = ofDevices (elements.map (alone stack)) ↔
        Independent stack elements) ∧
      ∀ cfg, (∀ before before', recorded stack before cfg = recorded stack before' cfg) ↔
        ∀ field : Field, field.read cfg ≠ none := by
  refine ⟨?_, recorded_const_iff stack⟩
  unfold gotDeviceList
  rw [hload]
  dsimp only
  rw [insertAll_eq_iff, records_alone_iff]

/-- `{"address": .., "type": .., "deviceid": .., "name": .., "value": .., "group": ..}`. -/
def complete (address : String) (id : BitVec 32) : Setting :=
  .map [(ascii "address", .string (ascii address)), (ascii "type", .int 5),
    (ascii "deviceid", .int id), (ascii "name", .string (ascii "lamp")),
    (ascii "value", .string (ascii "on")), (ascii "group", .string (ascii "hall"))]

/-- A complete element behind one that has nothing. -/
theorem gotDeviceList_iff_complete :
    gotDeviceList (fun _ => some (.list [.map [], complete "0A" 1])) ⟨0, 0⟩ Multimap.empty [] =
      ofDevices [fresh ⟨0, 0⟩, alone ⟨0, 0⟩ (complete "0A" 1)] := by
  refine (gotDeviceList_iff (fun _ => some (.list [.map [], complete "0A" 1])) ⟨0, 0⟩
    Multimap.empty rfl).1.mpr ?_
  intro before cfg after hsplit field _ data hdata
  rcases before with _ | ⟨first, _ | ⟨second, before⟩⟩
  · simp [Field.last] at hdata
  · obtain rfl := (List.cons.inj hsplit).1
    cases field <;> simp [Field.last, Field.read, stringMember, intMember, Setting.value] at hdata
  · simp at hsplit

/-- An element that has nothing behind a complete one: it is recorded as the same device again. -/
theorem gotDeviceList_carries :
    (gotDeviceList (fun _ => some (.list [complete "0A" 1, .map []])) ⟨0, 0⟩ Multimap.empty
        []).entries.map Prod.snd =
          [alone ⟨0, 0⟩ (complete "0A" 1), alone ⟨0, 0⟩ (complete "0A" 1)] ∧
      (ofDevices [alone ⟨0, 0⟩ (complete "0A" 1), alone ⟨0, 0⟩ (.map [])]).entries.map Prod.snd =
        [fresh ⟨0, 0⟩, alone ⟨0, 0⟩ (complete "0A" 1)] := by
  exact ⟨rfl, by decide⟩

end ZCloud
end Vng
