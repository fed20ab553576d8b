import Vng.Core.Setting
import Vng.Lib.Object

/-!
# Start-up of the BLE services

`initialize` of `ble/advertise` and `ble/scan`, from the settings to the objects that it leaves
behind, and what can come afterwards: messages, packets of the device, and the `release` of an
application that was started. What `Device::open` and the subscription return are parameters. The
two services are copies of each other, up to the subscription and to what `initDevice` returns
when the device does not open.
-/

namespace Vng
namespace Services

open Memory (Checked Succeeds ok_bind)
open Object (Pointer succeeds_foldlM use use_live use_of_ne)

/-- What can come after `initialize`. -/
inductive Event
  /-- A message for the service arrives at its topic, and its command is executed. -/
  | message
  /-- The device hands a packet on. -/
  | received
  /-- `release` of the application. -/
  | release
deriving DecidableEq

/-- A start-up returns 0 exactly if all of its steps succeed, and then everything is ready. Nothing
in it and nothing that comes later uses what is not there. An application that was not started is
not released. -/
def Sound {σ : Type} (start : Checked (ℤ × σ)) (later : σ → Event → Checked σ) (Steps : Prop)
    (Ready : σ → Prop) : Prop :=
  ∃ error s, start = .ok (error, s) ∧ (error = 0 ↔ Steps) ∧ (error = 0 → Ready s) ∧
    ∀ events : List Event, (error ≠ 0 → .release ∉ events) → Succeeds (events.foldlM later s)

section
variable {σ : Type} {start : Checked (ℤ × σ)} {later : σ → Event → Checked σ} {Steps : Prop}
  {Ready : σ → Prop} {s : σ}

lemma sound_failed {error : ℤ} (hstart : start = .ok (error, s)) (herror : error ≠ 0)
    (hsteps : ¬ Steps) (hlater : ∀ event ≠ .release, later s event = .ok s) :
    Sound start later Steps Ready := by
  refine ⟨error, s, hstart, iff_of_false herror hsteps, fun h => absurd h herror, ?_⟩
  intro events hrelease
  refine succeeds_foldlM (· = s) ?_ rfl
  rintro _ rfl event hevent
  have hne : event ≠ .release := fun h => hrelease herror (h ▸ hevent)
  exact ⟨_, hlater event hne, rfl⟩

lemma sound_started (Inv : σ → Prop) (hstart : start = .ok (0, s)) (hsteps : Steps)
    (hready : Ready s) (hinv : Inv s)
    (hlater : ∀ s, Inv s → ∀ event, ∃ s', later s event = .ok s' ∧ Inv s') :
    Sound start later Steps Ready :=
  ⟨0, s, hstart, iff_of_true rfl hsteps, fun _ => hready, fun _ _ =>
    succeeds_foldlM Inv (fun s h event _ => hlater s h event) hinv⟩

/-- It returns 0 behind a step that failed. -/
lemma not_sound_of_stale (hstart : start = .ok (0, s)) (hsteps : ¬ Steps) :
    ¬ Sound start later Steps Ready := by
  rintro ⟨error, s', hstart', hiff, -⟩
  rw [hstart] at hstart'
  obtain ⟨rfl, -⟩ := Prod.mk.inj (Except.ok.inj hstart')
  exact hsteps (hiff.mp rfl)

/-- It uses what is not there. -/
lemma not_sound_of_fault (hstart : start = .error .outOfBounds) :
    ¬ Sound start later Steps Ready := by
  rintro ⟨error, s', hstart', -⟩
  rw [hstart] at hstart'
  cases hstart'

end

/-! ## The BLE services -/

namespace Ble

/-- The application, its `Private`, and which of its callbacks the outside has. -/
structure State where
  /-- `_private`. -/
  own : Pointer
  device : Pointer
  protocol : Pointer
  topic : List Byte
  /-- The synchronizer has the callback of the device. -/
  opened : Bool
  /-- The channel has the callback of the topic. -/
  subscribed : Bool
deriving DecidableEq

def constructed : State := ⟨.null, .indeterminate, .indeterminate, [], false, false⟩

/-- The lookups of `initialize`: the topic, and the settings of `initBle`. -/
def lookup (key : String) (settings : Setting) : Option (List Byte × Setting) :=
  match settings.value (ascii key) with
  | none => none
  | some service =>
    match service.value (ascii "topic") with
    | some (.string topic) =>
      match service.value (ascii "ble") with
      | none => none
      | some ble => some (topic, ble)
    | _ => none

/-- `initProtocol`. -/
def initProtocol (protocol : Setting) (s : State) : ℤ × State :=
  match protocol.value (ascii "type") with
  | some (.string type) =>
    if type = ascii "SLBP" ∨ type = ascii "SLIP" then (0, { s with protocol := .live })
    else (-2, s)
  | _ => (-1, s)

/-- `initDevice`; `opened` is what `open` returns, and `failed` what is returned if that is an
error. -/
def initDevice (failed : ℤ → ℤ) (opened : List Byte → Setting → ℤ) (device : Setting)
    (s : State) : Checked (ℤ × State) :=
  match device.value (ascii "type") with
  | some (.string type) =>
    match device.value (ascii "path") with
    | some (.string path) =>
      match device.value (ascii "settings") with
      | none => return (-1, s)
      | some settings =>
        if type = ascii "SERIAL" then do
          let s := { s with device := .live }
          use s.device
          use s.protocol
          let error := opened path settings
          if error ≠ 0 then do
            let _ ← Object.delete s.device
            return (failed error, { s with device := .null })
          else return (0, { s with opened := true })
        else return (-1, s)
    | _ => return (-1, s)
  | _ => return (-1, s)

/-- `initBle`. -/
def initBle (failed : ℤ → ℤ) (opened : List Byte → Setting → ℤ) (ble : Setting) (s : State) :
    Checked (ℤ × State) :=
  match ble.value (ascii "protocol") with
  | none => return (-1, s)
  | some protocol =>
    let (error, s) := initProtocol protocol s
    if error ≠ 0 then return (error, s)
    else
      match ble.value (ascii "device") with
      | none => do
        -- the pointer is left as it is, and the error is the one of `initProtocol`
        let protocol ← Object.delete s.protocol
        return (error, { s with protocol := protocol })
      | some device => do
        let (error, s) ← initDevice failed opened device s
        if error ≠ 0 then do
          let _ ← Object.delete s.protocol
          return (error, { s with protocol := .null })
        else return (0, s)

/-- The end of the device and the protocol, in `release` and in `initialize`. -/
def close (s : State) : Checked State := do
  use s.device
  let _ ← Object.delete s.device
  let _ ← Object.delete s.protocol
  return { s with device := .null, protocol := .null, opened := false }

/-- `Private::initialize` of `ble/advertise`. `initDevice` has lost the error of `open`. -/
def Advertise.initializePrivate (opened : List Byte → Setting → ℤ) (subscribe : List Byte → ℤ)
    (settings : Setting) (s : State) : Checked (ℤ × State) :=
  match lookup "advertise" settings with
  | none => return (-1, s)
  | some (topic, ble) => do
    let (error, s) ← initBle (fun _ => 0) opened ble s
    if error ≠ 0 then return (error, s)
    else do
      let s := { s with topic := topic }
      let error := subscribe topic
      if error ≠ 0 then do
        let s ← close s
        return (error, s)
      else return (0, { s with subscribed := true })

/-- `Private::initialize` of `ble/scan`. -/
def Scan.initializePrivate (opened : List Byte → Setting → ℤ) (settings : Setting) (s : State) :
    Checked (ℤ × State) :=
  match lookup "scan" settings with
  | none => return (-1, s)
  | some (topic, ble) => do
    let (error, s) ← initBle id opened ble s
    if error ≠ 0 then return (error, s)
    else return (0, { s with topic := topic })

/-- `Appication::initialize`, of a new application. -/
def initializeApplication (init : State → Checked (ℤ × State)) : Checked (ℤ × State) := do
  let (error, s) ← init { constructed with own := .live }
  if error ≠ 0 then do
    let _ ← Object.delete s.own
    return (error, { s with own := .null })
  else return (0, s)

/-- `Appication::release`; its check is the wrong way round. -/
def release (s : State) : Checked State :=
  if s.own ≠ .null then return s
  else do
    use s.own
    let s ← close s
    let _ ← Object.delete s.own
    return { s with own := .null }

def later (s : State) : Event → Checked State
  | .message =>
    if s.subscribed then do
      use s.own
      -- `advertise`
      use s.device
      return s
    else return s
  | .received =>
    if s.opened then do
      use s.own
      use s.device
      use s.protocol
      return s
    else return s
  | .release => release s

/-! ### The steps -/

/-- The protocol can be made. -/
def Supported (protocol : Setting) : Prop :=
  ∃ type, protocol.value (ascii "type") = some (.string type) ∧
    (type = ascii "SLBP" ∨ type = ascii "SLIP")

/-- The device can be made, and is opened with `path` and `settings`. -/
def Described (device : Setting) (path : List Byte) (settings : Setting) : Prop :=
  device.value (ascii "type") = some (.string (ascii "SERIAL")) ∧
    device.value (ascii "path") = some (.string path) ∧
    device.value (ascii "settings") = some settings

/-- The settings are complete up to the protocol. -/
def Selected (ble : Setting) : Prop :=
  ∃ protocol, ble.value (ascii "protocol") = some protocol ∧ Supported protocol

/-- All steps of `initBle` succeed. -/
def Steps (opened : List Byte → Setting → ℤ) (ble : Setting) : Prop :=
  Selected ble ∧ ∃ device path settings, ble.value (ascii "device") = some device ∧
    Described device path settings ∧ opened path settings = 0

/-- The device is there with its protocol, and is open. -/
structure Ready (s : State) : Prop where
  own : s.own = .live
  device : s.device = .live
  protocol : s.protocol = .live
  opened : s.opened = true

/-- Nothing of the service is known outside. -/
structure Silent (s : State) : Prop where
  opened : s.opened = false
  subscribed : s.subscribed = false

lemma Described.unique {device : Setting} {path path' : List Byte} {settings settings' : Setting}
    (h : Described device path settings) (h' : Described device path' settings') :
    path' = path ∧ settings' = settings := by
  obtain ⟨-, hpath, hsettings⟩ := h
  obtain ⟨-, hpath', hsettings'⟩ := h'
  rw [hpath, Option.some.injEq, Setting.string.injEq] at hpath'
  rw [hsettings, Option.some.injEq] at hsettings'
  exact ⟨hpath'.symm, hsettings'.symm⟩

/-- `initProtocol` makes the protocol or returns an error. -/
lemma initProtocol_cases (protocol : Setting) (s : State) :
    Supported protocol ∧ initProtocol protocol s = (0, { s with protocol := .live }) ∨
      ¬ Supported protocol ∧ ∃ error, error ≠ 0 ∧ initProtocol protocol s = (error, s) := by
  unfold initProtocol Supported
  rcases protocol.value (ascii "type") with _ | value
  · exact .inr ⟨by simp, -1, by decide, rfl⟩
  · cases value with
    | string type =>
      by_cases htype : type = ascii "SLBP" ∨ type = ascii "SLIP"
      · exact .inl ⟨⟨type, rfl, htype⟩, if_pos htype⟩
      · refine .inr ⟨?_, -2, by decide, if_neg htype⟩
        rintro ⟨type', heq, htype'⟩
        obtain rfl := Setting.string.inj (Option.some.inj heq)
        exact htype htype'
    | _ => exact .inr ⟨by simp, -1, by decide, rfl⟩

/-- `initDevice` opens the device, or fails to, or does not find what it needs. -/
lemma initDevice_cases (failed : ℤ → ℤ) (opened : List Byte → Setting → ℤ) (device : Setting)
    {s : State} (hprotocol : s.protocol = .live) :
    (∃ path settings, Described device path settings ∧ opened path settings = 0 ∧
        initDevice failed opened device s = .ok (0, { s with device := .live, opened := true })) ∨
      (∃ path settings, Described device path settings ∧ opened path settings ≠ 0 ∧
        initDevice failed opened device s =
          .ok (failed (opened path settings), { s with device := .null })) ∨
      (∀ path settings, ¬ Described device path settings) ∧
        initDevice failed opened device s = .ok (-1, s) := by
  unfold initDevice Described
  rcases device.value (ascii "type") with _ | type
  · exact .inr (.inr ⟨by simp, rfl⟩)
  cases type with
  | string type =>
    rcases device.value (ascii "path") with _ | path
    · exact .inr (.inr ⟨by simp, rfl⟩)
    cases path with
    | string path =>
      rcases device.value (ascii "settings") with _ | settings
      · exact .inr (.inr ⟨by simp, rfl⟩)
      by_cases htype : type = ascii "SERIAL"
      · subst htype
        dsimp only
        rw [if_pos rfl, hprotocol]
        by_cases hopened : opened path settings = 0
        · exact .inl ⟨path, settings, ⟨rfl, rfl, rfl⟩, hopened, by simp [hopened]⟩
        · exact .inr (.inl ⟨path, settings, ⟨rfl, rfl, rfl⟩, hopened, by simp [hopened]⟩)
      -- another type of device: nothing is built, and -1 is returned
      · exact .inr (.inr ⟨by simp [htype], if_neg htype⟩)
    | _ => exact .inr (.inr ⟨by simp, rfl⟩)
  | _ => exact .inr (.inr ⟨by simp, rfl⟩)

/-- With a protocol and a device, `initBle` goes as `initDevice` does. -/
lemma initBle_device {failed : ℤ → ℤ} {opened : List Byte → Setting → ℤ} {ble : Setting}
    {s s' : State} {protocol device : Setting}
    (hprotocol : ble.value (ascii "protocol") = some protocol)
    (hdevice : ble.value (ascii "device") = some device)
    (hinit : initProtocol protocol s = (0, s')) :
    initBle failed opened ble s = (do
      let (error, s) ← initDevice failed opened device s'
      if error ≠ 0 then do
        let _ ← Object.delete s.protocol
        return (error, { s with protocol := .null })
      else return (0, s)) := by
  simp [initBle, hprotocol, hinit, hdevice]

/-- The ways through `initBle`: no protocol, a protocol and no device, all steps, a device that does
not open, and a device that is not described. -/
lemma initBle_cases (failed : ℤ → ℤ) (opened : List Byte → Setting → ℤ) (ble : Setting)
    (s : State) :
    (¬ Selected ble ∧ ∃ error, error ≠ 0 ∧ initBle failed opened ble s = .ok (error, s)) ∨
      (Selected ble ∧ ble.value (ascii "device") = none ∧
        initBle failed opened ble s = .ok (0, { s with protocol := .deleted })) ∨
      (Steps opened ble ∧ initBle failed opened ble s =
        .ok (0, { s with protocol := .live, device := .live, opened := true })) ∨
      (∃ device path settings, Selected ble ∧ ble.value (ascii "device") = some device ∧
        Described device path settings ∧ opened path settings ≠ 0 ∧
        initBle failed opened ble s =
          if failed (opened path settings) ≠ 0 then
            .ok (failed (opened path settings), { s with protocol := .null, device := .null })
          else .ok (0, { s with protocol := .live, device := .null })) ∨
      ∃ device, Selected ble ∧ ble.value (ascii "device") = some device ∧
        (∀ path settings, ¬ Described device path settings) ∧
        initBle failed opened ble s = .ok (-1, { s with protocol := .null }) := by
  rcases hvalue : ble.value (ascii "protocol") with _ | protocol
  · refine .inl ⟨?_, -1, by decide, by unfold initBle; rw [hvalue]; rfl⟩
    rintro ⟨protocol, hprotocol, -⟩
    simp [hvalue] at hprotocol
  rcases initProtocol_cases protocol s with ⟨hsupported, hinit⟩ | ⟨hsupported, error, herror, hinit⟩
  · have hselected : Selected ble := ⟨protocol, hvalue, hsupported⟩
    refine .inr ?_
    rcases hdevice : ble.value (ascii "device") with _ | device
    · refine .inl ⟨hselected, rfl, ?_⟩
      simp [initBle, hvalue, hinit, hdevice]
    · refine .inr ?_
      rw [initBle_device hvalue hdevice hinit]
      rcases initDevice_cases failed opened device (s := { s with protocol := .live }) rfl with
        ⟨path, settings, hdescribed, hopened, h⟩ | ⟨path, settings, hdescribed, hopened, h⟩ |
        ⟨hdescribed, h⟩
      · refine .inl ⟨⟨hselected, device, path, settings, hdevice, hdescribed, hopened⟩, ?_⟩
        rw [h]
        rfl
      · refine .inr (.inl ⟨device, path, settings, hselected, rfl, hdescribed, hopened, ?_⟩)
        rw [h, ok_bind]
        rfl
      · refine .inr (.inr ⟨device, hselected, rfl, hdescribed, ?_⟩)
        rw [h]
        rfl
  · refine .inl ⟨?_, error, herror, ?_⟩
    · rintro ⟨protocol', hprotocol', hsupported'⟩
      obtain rfl := Option.some.inj (hvalue.symm.trans hprotocol')
      exact hsupported hsupported'
    · simp [initBle, hvalue, hinit, herror]
      rfl

/-! ### Soundness -/

variable {opened : List Byte → Setting → ℤ} {subscribe : List Byte → ℤ} {settings : Setting}
  {s : State} {error : ℤ}

lemma initializeApplication_failed {init : State → Checked (ℤ × State)}
    (h : init { constructed with own := .live } = .ok (error, s)) (herror : error ≠ 0)
    (hown : s.own = .live) : initializeApplication init = .ok (error, { s with own := .null }) := by
  unfold initializeApplication
  rw [h, ok_bind]
  simp [herror, hown]

lemma initializeApplication_done {init : State → Checked (ℤ × State)}
    (h : init { constructed with own := .live } = .ok (0, s)) :
    initializeApplication init = .ok (0, s) := by
  unfold initializeApplication
  rw [h]
  rfl

lemma Silent.later (h : Silent s) {event : Event} (hevent : event ≠ .release) :
    later s event = .ok s := by
  cases event with
  | message => exact if_neg (by simp [h.subscribed])
  | received => exact if_neg (by simp [h.opened])
  | release => exact absurd rfl hevent

lemma Ready.later (h : Ready s) (event : Event) : later s event = .ok s := by
  cases event with
  | message =>
    simp only [Ble.later, h.own, h.device, use_live, ok_bind]
    exact ite_self _
  | received =>
    simp only [Ble.later, h.own, h.device, h.protocol, use_live, ok_bind]
    exact ite_self _
  | release => exact if_pos (by simp [h.own])

/-- With a protocol there is a device. -/
def Present (ble : Setting) : Prop := Selected ble → ble.value (ascii "device") ≠ none

/-- With a protocol there is a device, and it opens if it is described. -/
def Opens (opened : List Byte → Setting → ℤ) (ble : Setting) : Prop :=
  Selected ble → ∃ device, ble.value (ascii "device") = some device ∧
    ∀ path settings, Described device path settings → opened path settings = 0

lemma Steps.present {ble : Setting} (h : Steps opened ble) : Present ble := by
  obtain ⟨-, device, -, -, hdevice, -⟩ := h
  intro _ hnone
  rw [hdevice] at hnone
  cases hnone

lemma Steps.opens {ble : Setting} (h : Steps opened ble) : Opens opened ble := by
  obtain ⟨-, device, path, settings, hdevice, hdescribed, hopened⟩ := h
  refine fun _ => ⟨device, hdevice, fun path' settings' hdescribed' => ?_⟩
  obtain ⟨rfl, rfl⟩ := hdescribed.unique hdescribed'
  exact hopened

lemma not_opens {ble device : Setting} {path : List Byte} {settings : Setting}
    (hselected : Selected ble) (hdevice : ble.value (ascii "device") = some device)
    (hdescribed : Described device path settings) (hopened : opened path settings ≠ 0) :
    ¬ Opens opened ble := by
  intro h
  obtain ⟨device', hdevice', hopens⟩ := h hselected
  obtain rfl := Option.some.inj (hdevice.symm.trans hdevice')
  exact hopened (hopens path settings hdescribed)

lemma not_steps_of_device {ble device : Setting}
    (hdevice : ble.value (ascii "device") = some device)
    (hdescribed : ∀ path settings, ¬ Described device path settings) : ¬ Steps opened ble := by
  rintro ⟨-, device', path, settings, hdevice', hdescribed', -⟩
  obtain rfl := Option.some.inj (hdevice.symm.trans hdevice')
  exact hdescribed path settings hdescribed'

namespace Scan

/-- All steps of the start-up. -/
def Steps (opened : List Byte → Setting → ℤ) (settings : Setting) : Prop :=
  ∃ topic ble, lookup "scan" settings = some (topic, ble) ∧ Ble.Steps opened ble

def Propagates (opened : List Byte → Setting → ℤ) (settings : Setting) : Prop :=
  Sound (initializeApplication (initializePrivate opened settings)) later
    (Scan.Steps opened settings) Ready

lemma initializePrivate_none (h : lookup "scan" settings = none) (s : State) :
    initializePrivate opened settings s = .ok (-1, s) := by
  unfold initializePrivate
  rw [h]
  rfl

lemma initializePrivate_failed {topic : List Byte} {ble : Setting}
    (hlookup : lookup "scan" settings = some (topic, ble)) {s s' : State} (herror : error ≠ 0)
    (h : initBle id opened ble s = .ok (error, s')) :
    initializePrivate opened settings s = .ok (error, s') := by
  unfold initializePrivate
  rw [hlookup]
  dsimp only
  rw [h, ok_bind]
  exact if_pos herror

lemma initializePrivate_done {topic : List Byte} {ble : Setting}
    (hlookup : lookup "scan" settings = some (topic, ble)) {s s' : State}
    (h : initBle id opened ble s = .ok (0, s')) :
    initializePrivate opened settings s = .ok (0, { s' with topic := topic }) := by
  unfold initializePrivate
  rw [hlookup]
  dsimp only
  rw [h]
  rfl

/-- The scanner: a device has to be there. -/
lemma propagates_iff : Propagates opened settings ↔
    ∀ topic ble, lookup "scan" settings = some (topic, ble) → Present ble := by
  unfold Propagates
  rcases hlookup : lookup "scan" settings with _ | ⟨topic, ble⟩
  · refine iff_of_true ?_ (by simp)
    refine sound_failed (initializeApplication_failed (initializePrivate_none hlookup _) (by decide)
      rfl) (by decide) (by simp [Scan.Steps, hlookup]) fun event => Silent.later ⟨rfl, rfl⟩
  have hsteps : Scan.Steps opened settings ↔ Ble.Steps opened ble := by
    simp [Scan.Steps, hlookup]
  have hpresent : (∀ topic' ble', some (topic, ble) = some (topic', ble') → Present ble') ↔
      Present ble := by simp
  rw [hpresent, hsteps]
  rcases initBle_cases id opened ble { constructed with own := .live } with
    ⟨hselected, error, herror, h⟩ | ⟨hselected, hdevice, h⟩ | ⟨hsteps, h⟩ |
    ⟨device, path, settings', hselected, hdevice, hdescribed, hopened, h⟩ |
    ⟨device, hselected, hdevice, hdescribed, h⟩
  · refine iff_of_true ?_ fun h => absurd h hselected
    exact sound_failed (initializeApplication_failed (initializePrivate_failed hlookup herror h)
      herror rfl) herror (fun hsteps => hselected hsteps.1) fun event => Silent.later ⟨rfl, rfl⟩
  · refine iff_of_false ?_ fun h => h hselected hdevice
    refine not_sound_of_stale (initializeApplication_done (initializePrivate_done hlookup h)) ?_
    exact fun hsteps => hsteps.present hselected hdevice
  · refine iff_of_true ?_ hsteps.present
    exact sound_started Ready (initializeApplication_done (initializePrivate_done hlookup h))
      hsteps ⟨rfl, rfl, rfl, rfl⟩ ⟨rfl, rfl, rfl, rfl⟩ fun s hs event => ⟨s, hs.later event, hs⟩
  · rw [id_eq, if_pos hopened] at h
    refine iff_of_true ?_ fun _ => by simp [hdevice]
    refine sound_failed (initializeApplication_failed (initializePrivate_failed hlookup hopened h)
      hopened rfl) hopened ?_ fun event => Silent.later ⟨rfl, rfl⟩
    exact fun hsteps => not_opens hselected hdevice hdescribed hopened hsteps.opens
  · refine iff_of_true ?_ fun _ => by simp [hdevice]
    refine sound_failed (initializeApplication_failed
      (initializePrivate_failed hlookup (by decide) h) (by decide) rfl) (by decide)
      (not_steps_of_device hdevice hdescribed) fun event => Silent.later ⟨rfl, rfl⟩

end Scan

namespace Advertise

/-- All steps of the start-up. -/
def Steps (opened : List Byte → Setting → ℤ) (subscribe : List Byte → ℤ) (settings : Setting) :
    Prop :=
  ∃ topic ble, lookup "advertise" settings = some (topic, ble) ∧ Ble.Steps opened ble ∧
    subscribe topic = 0

def Propagates (opened : List Byte → Setting → ℤ) (subscribe : List Byte → ℤ)
    (settings : Setting) : Prop :=
  Sound (initializeApplication (initializePrivate opened subscribe settings)) later
    (Advertise.Steps opened subscribe settings) fun s => Ready s ∧ s.subscribed = true

lemma initializePrivate_none (h : lookup "advertise" settings = none) (s : State) :
    initializePrivate opened subscribe settings s = .ok (-1, s) := by
  unfold initializePrivate
  rw [h]
  rfl

lemma initializePrivate_failed {topic : List Byte} {ble : Setting}
    (hlookup : lookup "advertise" settings = some (topic, ble)) {s s' : State} (herror : error ≠ 0)
    (h : initBle (fun _ => 0) opened ble s = .ok (error, s')) :
    initializePrivate opened subscribe settings s = .ok (error, s') := by
  unfold initializePrivate
  rw [hlookup]
  dsimp only
  rw [h, ok_bind]
  exact if_pos herror

lemma initializePrivate_done {topic : List Byte} {ble : Setting}
    (hlookup : lookup "advertise" settings = some (topic, ble)) {s s' : State}
    (hsubscribe : subscribe topic = 0) (h : initBle (fun _ => 0) opened ble s = .ok (0, s')) :
    initializePrivate opened subscribe settings s =
      .ok (0, { s' with topic := topic, subscribed := true }) := by
  unfold initializePrivate
  rw [hlookup]
  dsimp only
  rw [h, ok_bind]
  simp [hsubscribe]
  rfl

/-- A subscription that fails closes the device. -/
lemma initializePrivate_close {topic : List Byte} {ble : Setting}
    (hlookup : lookup "advertise" settings = some (topic, ble)) {s s' : State}
    (hsubscribe : subscribe topic ≠ 0) (h : initBle (fun _ => 0) opened ble s = .ok (0, s')) :
    initializePrivate opened subscribe settings s = (do
      let s ← close { s' with topic := topic }
      return (subscribe topic, s)) := by
  unfold initializePrivate
  rw [hlookup]
  dsimp only
  rw [h, ok_bind]
  simp [hsubscribe]

/-- Behind a device that is not there, `initialize` returns 0 or closes it. -/
lemma not_sound_of_absent {topic : List Byte} {ble : Setting} {Ready : State → Prop}
    (hlookup : lookup "advertise" settings = some (topic, ble))
    (h : initBle (fun _ => 0) opened ble { constructed with own := .live } = .ok (0, s))
    (hdevice : s.device ≠ .live) (hsteps : ¬ Ble.Steps opened ble) :
    ¬ Sound (initializeApplication (initializePrivate opened subscribe settings)) later
      (Advertise.Steps opened subscribe settings) Ready := by
  by_cases hsubscribe : subscribe topic = 0
  · apply not_sound_of_stale
      (initializeApplication_done (initializePrivate_done hlookup hsubscribe h))
    rintro ⟨topic', ble', hlookup', hsteps', -⟩
    obtain ⟨rfl, rfl⟩ := Prod.mk.inj (Option.some.inj (hlookup.symm.trans hlookup'))
    exact hsteps hsteps'
  -- the subscription failed: close uses the device that is not there
  · apply not_sound_of_fault
    unfold initializeApplication
    rw [initializePrivate_close hlookup hsubscribe h]
    unfold close
    dsimp only
    rw [use_of_ne hdevice]
    rfl

/-- The advertiser: a device has to be there, and to open if it is described. -/
lemma propagates_iff : Propagates opened subscribe settings ↔
    ∀ topic ble, lookup "advertise" settings = some (topic, ble) → Opens opened ble := by
  unfold Propagates
  rcases hlookup : lookup "advertise" settings with _ | ⟨topic, ble⟩
  · refine iff_of_true ?_ (by simp)
    refine sound_failed (initializeApplication_failed (initializePrivate_none hlookup _) (by decide)
      rfl) (by decide) (by simp [Advertise.Steps, hlookup]) fun event => Silent.later ⟨rfl, rfl⟩
  have hsteps : Advertise.Steps opened subscribe settings ↔
      Ble.Steps opened ble ∧ subscribe topic = 0 := by
    simp [Advertise.Steps, hlookup]
  have hopens : (∀ topic' ble', some (topic, ble) = some (topic', ble') → Opens opened ble') ↔
      Opens opened ble := by simp
  rw [hopens]
  rcases initBle_cases (fun _ => 0) opened ble { constructed with own := .live } with
    ⟨hselected, error, herror, h⟩ | ⟨hselected, hdevice, h⟩ | ⟨hall, h⟩ |
    ⟨device, path, settings', hselected, hdevice, hdescribed, hopened, h⟩ |
    ⟨device, hselected, hdevice, hdescribed, h⟩
  · refine iff_of_true ?_ fun h => absurd h hselected
    exact sound_failed (initializeApplication_failed (initializePrivate_failed hlookup herror h)
      herror rfl) herror (fun h => hselected (hsteps.mp h).1.1) fun event => Silent.later ⟨rfl, rfl⟩
  · have hnot : ¬ Opens opened ble := by
      intro h
      obtain ⟨device, hdevice', -⟩ := h hselected
      rw [hdevice] at hdevice'
      cases hdevice'
    exact iff_of_false (not_sound_of_absent hlookup h (by decide) fun h => hnot h.opens) hnot
  · refine iff_of_true ?_ hall.opens
    by_cases hsubscribe : subscribe topic = 0
    · exact sound_started Ready
        (initializeApplication_done (initializePrivate_done hlookup hsubscribe h))
        (hsteps.mpr ⟨hall, hsubscribe⟩) ⟨⟨rfl, rfl, rfl, rfl⟩, rfl⟩ ⟨rfl, rfl, rfl, rfl⟩
        fun s hs event => ⟨s, hs.later event, hs⟩
    · refine sound_failed (initializeApplication_failed
        (initializePrivate_close hlookup hsubscribe h) hsubscribe rfl) hsubscribe
        (fun h => hsubscribe (hsteps.mp h).2) fun event => Silent.later ⟨rfl, rfl⟩
  · have hnot := not_opens hselected hdevice hdescribed hopened
    exact iff_of_false (not_sound_of_absent hlookup h (by decide) fun h => hnot h.opens) hnot
  · refine iff_of_true ?_ fun _ => ⟨device, hdevice, fun path settings hpath => ?_⟩
    · refine sound_failed (initializeApplication_failed (initializePrivate_failed hlookup
        (by decide) h) (by decide) rfl) (by decide) ?_ fun event => Silent.later ⟨rfl, rfl⟩
      exact fun h => not_steps_of_device hdevice hdescribed (hsteps.mp h).1
    · exact absurd hpath (hdescribed path settings)

end Advertise

end Ble

end Services
end Vng
