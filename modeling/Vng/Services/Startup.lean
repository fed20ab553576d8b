import Vng.Services.BleStartup

/-!
# Start-up of the light sensor, and of all services

`initialize` and `release` of `light/sensor`. What the client and the subscription return are
parameters. An application whose `initialize` fails is released at once, also where there is no
client yet.
-/

namespace Vng
namespace Services

open Memory (Checked Succeeds ok_bind)
open Object (Pointer use use_live use_of_ne)

/-! ## The light sensor -/

namespace Sensor

/-- The application, its `Private`, and whether the channel has its callback. -/
structure State where
  /-- `_private`. -/
  own : Pointer
  client : Pointer
  topic : List Byte
  subscribed : Bool
deriving DecidableEq

/-- What the constructor leaves behind. -/
def constructed : State := ⟨.null, .indeterminate, [], false⟩

/-- `initialize` of the client, which returns `initialized`: the pointer to one that was deleted is
left as it is, and the error is overwritten. -/
def initializeClient (initialized : Setting → ℤ) (cloud : Setting) (s : State) : Checked State :=
  if initialized cloud ≠ 0 then do
    let client ← Object.delete s.client
    return { s with client := client }
  else return s

/-- The subscription. -/
def subscribeTopic (subscribe : List Byte → ℤ) (s : State) : Checked (ℤ × State) :=
  if subscribe s.topic ≠ 0 then do
    use s.client
    let _ ← Object.delete s.client
    return (subscribe s.topic, { s with client := .null })
  else return (0, { s with subscribed := true })

/-- `Private::initialize` of `light/sensor`. -/
def initializePrivate (initialized : Setting → ℤ) (subscribe : List Byte → ℤ) (settings : Setting)
    (s : State) : Checked (ℤ × State) :=
  match settings.value (ascii "receive") with
  | none => return (-1, s)
  | some receive =>
    match receive.value (ascii "sub") with
    | none => return (-1, s)
    | some sub =>
      let s := { s with topic := sub.toString }
      match settings.value (ascii "cloud") with
      | none => return (-1, s)
      | some cloud =>
        match cloud.value (ascii "type") with
        | none => return (-1, s)
        | some cloudType =>
          if cloudType.toString = ascii "zcloud" then do
            let s := { s with client := .live }
            use s.client
            let s ← initializeClient initialized cloud s
            subscribeTopic subscribe s
          else return (-1, s)

/-- `Private::release`. `unsubcrible` may leave the registration in the channel, but the application
of the network deletes the channel right behind this call, so nothing is received any more. -/
def releasePrivate (s : State) : Checked State := do
  let s := { s with subscribed := false }
  use s.client
  let _ ← Object.delete s.client
  return { s with client := .null }

/-- `Application::initialize`, of a new application. -/
def initializeApplication (init : State → Checked (ℤ × State)) : Checked (ℤ × State) := do
  let (error, s) ← init { constructed with own := .live, client := .null }
  if error ≠ 0 then do
    let s ← releasePrivate s
    let _ ← Object.delete s.own
    return (error, { s with own := .null })
  else return (0, s)

/-- `Application::release`. -/
def release (s : State) : Checked State :=
  if s.own = .null then return s
  else do
    use s.own
    let s ← releasePrivate s
    let _ ← Object.delete s.own
    return { s with own := .null }

/-- What can come once the application has been initialized. -/
def later (s : State) : Event → Checked State
  | .message =>
    if s.subscribed then do
      use s.own
      -- the `Upload` that `parse` makes
      use s.client
      return s
    else return s
  | .received => return s
  | .release => release s

/-- The settings are complete, with the topic and the settings of the client. -/
def Described (settings : Setting) (topic : List Byte) (cloud : Setting) : Prop :=
  (∃ receive sub, settings.value (ascii "receive") = some receive ∧
      receive.value (ascii "sub") = some sub ∧ sub.toString = topic) ∧
    settings.value (ascii "cloud") = some cloud ∧
    ∃ cloudType, cloud.value (ascii "type") = some cloudType ∧
      cloudType.toString = ascii "zcloud"

/-- All steps of the start-up. -/
def Steps (initialized : Setting → ℤ) (subscribe : List Byte → ℤ) (settings : Setting) : Prop :=
  ∃ topic cloud, Described settings topic cloud ∧ initialized cloud = 0 ∧ subscribe topic = 0

/-- The client is there, with the subscription. -/
structure Ready (s : State) : Prop where
  own : s.own = .live
  client : s.client = .live
  subscribed : s.subscribed = true

/-- The application was released. -/
structure Released (s : State) : Prop where
  own : s.own = .null
  subscribed : s.subscribed = false

variable {initialized : Setting → ℤ} {subscribe : List Byte → ℤ} {settings : Setting} {s : State}

/-- Success is reported exactly for the settings and outcomes that lead to a service that runs. -/
def Propagates (initialized : Setting → ℤ) (subscribe : List Byte → ℤ) (settings : Setting) :
    Prop :=
  Sound (initializeApplication (initializePrivate initialized subscribe settings)) later
    (Steps initialized subscribe settings) Ready

/-- Either the settings are not complete, and there is no client, or it is the client and the
subscription that decide. -/
lemma initializePrivate_cases (initialized : Setting → ℤ) (subscribe : List Byte → ℤ)
    (settings : Setting) (s : State) :
    ((∀ topic cloud, ¬ Described settings topic cloud) ∧
        ∃ topic, initializePrivate initialized subscribe settings s =
          .ok (-1, { s with topic := topic })) ∨
      ∃ topic cloud, Described settings topic cloud ∧
        initializePrivate initialized subscribe settings s =
          initializeClient initialized cloud { s with topic := topic, client := .live } >>=
            subscribeTopic subscribe := by
  unfold initializePrivate Described
  rcases settings.value (ascii "receive") with _ | receive
  · exact .inl ⟨by simp, s.topic, rfl⟩
  dsimp only
  rcases hsub : receive.value (ascii "sub") with _ | sub
  · refine .inl ⟨?_, s.topic, rfl⟩
    rintro topic cloud ⟨⟨receive', sub, hreceive, hsub', -⟩, -⟩
    obtain rfl := Option.some.inj hreceive
    rw [hsub] at hsub'
    cases hsub'
  refine (em (∃ cloud cloudType, settings.value (ascii "cloud") = some cloud ∧
    cloud.value (ascii "type") = some cloudType ∧ cloudType.toString = ascii "zcloud")).elim
    (fun h => .inr ?_) (fun h => .inl ⟨?_, sub.toString, ?_⟩)
  -- the settings name a cloud of the only type that is known
  · obtain ⟨cloud, cloudType, hcloud, htype, hzcloud⟩ := h
    refine ⟨sub.toString, cloud, ⟨⟨receive, sub, rfl, hsub, rfl⟩, hcloud, cloudType, htype,
      hzcloud⟩, ?_⟩
    rw [hcloud]
    dsimp only
    rw [htype]
    dsimp only
    rw [if_pos hzcloud, use_live, ok_bind]
  · rintro topic cloud ⟨-, hcloud, cloudType, htype, hzcloud⟩
    exact h ⟨cloud, cloudType, hcloud, htype, hzcloud⟩
  -- without a cloud nothing is made
  · rcases hcloud : settings.value (ascii "cloud") with _ | cloud
    · rfl
    rcases htype : cloud.value (ascii "type") with _ | cloudType
    · simp only [htype]
      rfl
    simp only [htype]
    exact if_neg fun hzcloud => h ⟨cloud, cloudType, hcloud, htype, hzcloud⟩

/-- A client that comes up is kept. -/
lemma initializeClient_done {cloud : Setting} (h : initialized cloud = 0) (s : State) :
    initializeClient initialized cloud s = .ok s := if_neg (not_not.mpr h)

/-- A client that fails is deleted, and its pointer stays. -/
lemma initializeClient_failed {cloud : Setting} (h : initialized cloud ≠ 0)
    (hclient : s.client = .live) :
    initializeClient initialized cloud s = .ok { s with client := .deleted } := by
  unfold initializeClient
  rw [if_pos h, hclient]
  rfl

/-- A topic that is subscribed is kept. -/
lemma subscribeTopic_done (h : subscribe s.topic = 0) :
    subscribeTopic subscribe s = .ok (0, { s with subscribed := true }) := if_neg (not_not.mpr h)

/-- Otherwise the client is deleted. -/
lemma subscribeTopic_failed (h : subscribe s.topic ≠ 0) (hclient : s.client = .live) :
    subscribeTopic subscribe s = .ok (subscribe s.topic, { s with client := .null }) := by
  unfold subscribeTopic
  rw [if_pos h, hclient]
  rfl

/-- A client that was deleted before is deleted twice. -/
lemma subscribeTopic_fault (h : subscribe s.topic ≠ 0) (hclient : s.client ≠ .live) :
    subscribeTopic subscribe s = .error .outOfBounds := by
  unfold subscribeTopic
  rw [if_pos h, use_of_ne hclient]
  rfl

/-- The settings describe one topic and one client. -/
lemma Described.unique {topic topic' : List Byte} {cloud cloud' : Setting}
    (h : Described settings topic cloud) (h' : Described settings topic' cloud') :
    topic' = topic ∧ cloud' = cloud := by
  obtain ⟨⟨receive, sub, hreceive, hsub, rfl⟩, hcloud, -⟩ := h
  obtain ⟨⟨receive', sub', hreceive', hsub', rfl⟩, hcloud', -⟩ := h'
  obtain rfl := Option.some.inj (hreceive.symm.trans hreceive')
  obtain rfl := Option.some.inj (hsub.symm.trans hsub')
  obtain rfl := Option.some.inj (hcloud.symm.trans hcloud')
  exact ⟨rfl, rfl⟩

lemma initializeApplication_done {init : State → Checked (ℤ × State)}
    (h : init { constructed with own := .live, client := .null } = .ok (0, s)) :
    initializeApplication init = .ok (0, s) := by
  unfold initializeApplication
  rw [h]
  rfl

/-- `release` behind an error finds no client. -/
lemma not_sound_of_error {error : ℤ} {Steps : Prop} {Ready : State → Prop}
    (h : initializePrivate initialized subscribe settings
      { constructed with own := .live, client := .null } = .ok (error, s))
    (herror : error ≠ 0) (hclient : s.client ≠ .live) :
    ¬ Sound (initializeApplication (initializePrivate initialized subscribe settings)) later Steps
      Ready := by
  apply not_sound_of_fault
  unfold initializeApplication
  rw [h, ok_bind]
  dsimp only
  rw [if_pos herror]
  unfold releasePrivate
  dsimp only
  rw [use_of_ne hclient]
  rfl

/-- Whatever comes, a service that is ready has its client. -/
lemma Ready.later (h : Ready s) (event : Event) :
    ∃ s', later s event = .ok s' ∧ (Ready s' ∨ Released s') := by
  cases event with
  | message =>
    refine ⟨s, ?_, .inl h⟩
    simp only [Sensor.later, h.own, h.client, use_live, ok_bind]
    exact ite_self _
  | received => exact ⟨s, rfl, .inl h⟩
  | release =>
    refine ⟨{ s with own := .null, client := .null, subscribed := false }, ?_, .inr ⟨rfl, rfl⟩⟩
    simp [Sensor.later, release, releasePrivate, h.own, h.client]

lemma Released.later (h : Released s) (event : Event) : later s event = .ok s := by
  cases event with
  | message => exact if_neg (by simp [h.subscribed])
  | received => rfl
  | release => exact if_pos h.own

lemma later_ready (s : State) (h : Ready s ∨ Released s) (event : Event) :
    ∃ s', later s event = .ok s' ∧ (Ready s' ∨ Released s') :=
  h.elim (fun h => h.later event) fun h => ⟨s, h.later event, .inr h⟩

/-- The sensor: every step has to succeed. -/
lemma propagates_iff :
    Propagates initialized subscribe settings ↔ Steps initialized subscribe settings := by
  unfold Propagates
  rcases initializePrivate_cases initialized subscribe settings
    { constructed with own := .live, client := .null } with
    ⟨hdescribed, topic, h⟩ | ⟨topic, cloud, hdescribed, h⟩
  -- the settings are refused before anything is asked
  · refine iff_of_false (not_sound_of_error h (by decide) (by simp)) ?_
    rintro ⟨topic, cloud, hdescribed', -⟩
    exact hdescribed topic cloud hdescribed'
  have hsteps : Steps initialized subscribe settings ↔
      initialized cloud = 0 ∧ subscribe topic = 0 := by
    constructor
    · rintro ⟨topic', cloud', hdescribed', hall⟩
      obtain ⟨rfl, rfl⟩ := hdescribed.unique hdescribed'
      exact hall
    · exact fun h => ⟨topic, cloud, hdescribed, h⟩
  rw [hsteps]
  by_cases hinitialized : initialized cloud = 0
  · rw [initializeClient_done hinitialized, ok_bind] at h
    by_cases hsubscribe : subscribe topic = 0
    · rw [subscribeTopic_done hsubscribe] at h
      refine iff_of_true ?_ ⟨hinitialized, hsubscribe⟩
      exact sound_started (fun s => Ready s ∨ Released s) (initializeApplication_done h)
        ⟨hinitialized, hsubscribe⟩ ⟨rfl, rfl, rfl⟩ (.inl ⟨rfl, rfl, rfl⟩) later_ready
    -- the failure is reported
    · rw [subscribeTopic_failed hsubscribe rfl] at h
      refine iff_of_false ?_ fun hall => hsubscribe hall.2
      exact not_sound_of_error h hsubscribe (by simp)
  · refine iff_of_false ?_ fun hall => hinitialized hall.1
    rw [initializeClient_failed hinitialized rfl, ok_bind] at h
    by_cases hsubscribe : subscribe topic = 0
    · rw [subscribeTopic_done hsubscribe] at h
      exact not_sound_of_stale (initializeApplication_done h) fun hall => hinitialized hall.1
    · rw [subscribeTopic_fault hsubscribe (by simp)] at h
      apply not_sound_of_fault
      unfold initializeApplication
      rw [h]
      rfl

end Sensor

/-! ## The three services -/

/-- **Start-up.** Whatever the settings and the outcomes of the steps are: the advertiser starts up
soundly exactly if, once the protocol is made, a device is there and opens if it is described. The
scanner does exactly if a device is there, and the sensor exactly if no step fails. -/
theorem startup_propagates_iff (opened : List Byte → Setting → ℤ) (initialized : Setting → ℤ)
    (subscribe : List Byte → ℤ) (settings : Setting) :
    (Ble.Advertise.Propagates opened subscribe settings ↔
      ∀ topic ble, Ble.lookup "advertise" settings = some (topic, ble) → Ble.Opens opened ble) ∧
    (Ble.Scan.Propagates opened settings ↔
      ∀ topic ble, Ble.lookup "scan" settings = some (topic, ble) → Ble.Present ble) ∧
    (Sensor.Propagates initialized subscribe settings ↔
      Sensor.Steps initialized subscribe settings) :=
  ⟨Ble.Advertise.propagates_iff, Ble.Scan.propagates_iff, Sensor.propagates_iff⟩

/-- The settings of a BLE service with SLIP. -/
def slip (key : String) (device : List (List Byte × Setting)) : Setting :=
  .map [(ascii key, .map [(ascii "topic", .string (ascii "t")),
    (ascii "ble", .map ((ascii "protocol", .map [(ascii "type", .string (ascii "SLIP"))]) ::
      device))])]

def serial : Setting :=
  .map [(ascii "type", .string (ascii "SERIAL")), (ascii "path", .string (ascii "/dev/tty")),
    (ascii "settings", .map [])]

def zcloud : Setting :=
  .map [(ascii "receive", .map [(ascii "sub", .string (ascii "t"))]),
    (ascii "cloud", .map [(ascii "type", .string (ascii "zcloud"))])]

/-- Start-ups that return 0 with a step that failed: no device is described, it does not open, the
client fails. The advertiser and the sensor then use what is not there, and the sensor also does
when its settings are empty. -/
theorem startup_stale :
    (∃ s, Ble.initializeApplication (Ble.Advertise.initializePrivate (fun _ _ => 0) (fun _ => 0)
        (slip "advertise" [])) = .ok (0, s) ∧ s.device = .indeterminate ∧ s.protocol = .deleted ∧
      Ble.later s .message = .error .outOfBounds) ∧
    ¬ Ble.Advertise.Propagates (fun _ _ => 0) (fun _ => 0) (slip "advertise" []) ∧
    (∃ s, Ble.initializeApplication (Ble.Advertise.initializePrivate (fun _ _ => 2) (fun _ => 0)
        (slip "advertise" [(ascii "device", serial)])) = .ok (0, s) ∧ s.device = .null ∧
      Ble.later s .message = .error .outOfBounds) ∧
    ¬ Ble.Scan.Propagates (fun _ _ => 0) (slip "scan" []) ∧
    (∃ s, Sensor.initializeApplication (Sensor.initializePrivate (fun _ => 1) (fun _ => 0)
        zcloud) = .ok (0, s) ∧ s.client = .deleted ∧
      Sensor.later s .message = .error .outOfBounds) ∧
    ¬ Sensor.Propagates (fun _ => 1) (fun _ => 0) zcloud ∧
    ¬ Sensor.Propagates (fun _ => 0) (fun _ => 0) (.map []) := by
  refine ⟨⟨_, rfl, rfl, rfl, rfl⟩, not_sound_of_stale rfl ?_, ⟨_, rfl, rfl, rfl⟩,
    not_sound_of_stale rfl ?_, ⟨_, rfl, rfl, rfl⟩, not_sound_of_stale rfl ?_,
    not_sound_of_fault rfl⟩
  · rintro ⟨topic, ble, hlookup, ⟨-, device, path, settings, hdevice, -⟩, -⟩
    cases hlookup
    cases hdevice
  · rintro ⟨topic, ble, hlookup, -, device, path, settings, hdevice, -⟩
    cases hlookup
    cases hdevice
  · rintro ⟨topic, cloud, -, hinitialized, -⟩
    exact one_ne_zero hinitialized

end Services
end Vng
