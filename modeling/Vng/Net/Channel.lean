import Mathlib.Data.Int.Notation
import Mathlib.Data.List.Nodup
import Mathlib.Data.Nat.Find
import Mathlib.Logic.Function.Basic
import Mathlib.Order.Nat
import Mathlib.Tactic.Common
import Vng.Lib.Machine
import Vng.Lib.OrderedMap

/-!
# `net::Channel`

The registry of `netchannel.cpp`: for each topic with a subscriber, a map from keys to
subscribers. `Topic::subscribe` stores a subscriber under one key and returns the next one as its
token, so a token names the subscriber after its own.
-/

namespace Vng
namespace Channel

variable {Topic Subscriber : Type}

/-- `Channel::Private::Topic`. -/
structure Registry (Subscriber : Type) where
  token : ℕ
  subscribers : List (ℕ × Subscriber)
deriving DecidableEq, Repr

def Registry.new : Registry Subscriber := ⟨0, []⟩

def Registry.subscribe (t : Registry Subscriber) (subscriber : Subscriber) :
    Registry Subscriber × ℕ :=
  -- `_subscribers[_token ++] = subscriber; token = _token;`
  let subscribers := OrderedMap.insert t.token subscriber t.subscribers
  let token := t.token + 1
  (⟨token, subscribers⟩, token)

/-- `Topic::emptied`. -/
def Registry.emptied (t : Registry Subscriber) : Bool := t.subscribers.length = 0

/-- The subscribers that `receive` calls, in this order. -/
def Registry.receive (t : Registry Subscriber) : List Subscriber := t.subscribers.map Prod.snd

/-- `Topic::unsubscribe` erases by the token that it is given. -/
def Registry.unsubscribe (t : Registry Subscriber) (token : ℕ) : Registry Subscriber :=
  { t with subscribers := OrderedMap.erase token t.subscribers }

/-- `Channel::Private::_topics`. -/
abbrev Topics (Topic Subscriber : Type) := Topic → Option (Registry Subscriber)

/-- `Private::subscribed`. -/
def subscribed (topics : Topics Topic Subscriber) (topic : Topic) : Bool := (topics topic).isSome

/-- The subscribers that `received(topic, packet)` calls. -/
def received (topics : Topics Topic Subscriber) (topic : Topic) : List Subscriber :=
  match topics topic with
  | none => []
  | some registry => registry.receive

variable [DecidableEq Topic]

/-- `Private::subscrible`: a topic is made for the first subscriber. -/
def subscrible (topics : Topics Topic Subscriber) (id : Topic) (subscriber : Subscriber) :
    Topics Topic Subscriber × ℕ :=
  let (registry, token) := ((topics id).getD .new).subscribe subscriber
  (Function.update topics id (some registry), token)

/-- `Private::unsubscrible`: a topic goes with its last subscriber. -/
def unsubscrible (topics : Topics Topic Subscriber) (id : Topic) (token : ℕ) :
    Topics Topic Subscriber :=
  match topics id with
  | none => topics
  | some registry =>
    let registry := registry.unsubscribe token
    if !registry.emptied then Function.update topics id (some registry)
    else Function.update topics id none

/-- `Channel::subscribe`; `error` is what the transport returns if it is asked. -/
def subscribe (topics : Topics Topic Subscriber) (topic : Topic) (subscriber : Subscriber)
    (error : ℤ) : Topics Topic Subscriber × Except ℤ ℕ :=
  if subscribed topics topic ≠ true ∧ error ≠ 0 then (topics, .error error)
  else
    let (topics, token) := subscrible topics topic subscriber
    (topics, .ok token)

/-- `Channel::unsubscribe`. -/
def unsubscribe (topics : Topics Topic Subscriber) (topic : Topic) (token : ℕ) :
    Topics Topic Subscriber :=
  unsubscrible topics topic token

/-! ## Runs -/

/-- What has been asked of a topic. -/
structure History (Subscriber : Type) where
  /-- The successful subscriptions in order, each with the token it got. -/
  issued : List (ℕ × Subscriber)
  unsubscribed : List ℕ
deriving DecidableEq, Repr

/-- The subscribers that have not been unsubscribed, each by its own token. -/
def History.live (h : History Subscriber) : List Subscriber :=
  (h.issued.filter fun e => e.1 ∉ h.unsubscribed).map Prod.snd

/-- The topics, and what has been asked for and given back. -/
structure State (Topic Subscriber : Type) where
  topics : Topics Topic Subscriber
  history : Topic → History Subscriber

def fresh : State Topic Subscriber := ⟨fun _ => none, fun _ => ⟨[], []⟩⟩

inductive Event (Topic Subscriber : Type)
  | subscribe (topic : Topic) (subscriber : Subscriber) (error : ℤ)
  | unsubscribe (topic : Topic) (token : ℕ)

def step (s : State Topic Subscriber) :
    Event Topic Subscriber → Option (State Topic Subscriber)
  | .subscribe topic subscriber error =>
    match subscribe s.topics topic subscriber error with
    | (topics, .error _) => some { s with topics := topics }
    | (topics, .ok token) =>
      let h := s.history topic
      some {
        topics := topics
        history := Function.update s.history topic
          { h with issued := h.issued ++ [(token, subscriber)] } }
  | .unsubscribe topic token =>
    let h := s.history topic
    -- only with a token that `subscribe` returned
    if token ∈ h.issued.map Prod.fst then
      some {
        topics := unsubscribe s.topics topic token
        history := Function.update s.history topic
          { h with unsubscribed := h.unsubscribed ++ [token] } }
    else none

/-- A subscription is always possible. -/
lemma step_subscribe_eq_some (s : State Topic Subscriber) (topic : Topic)
    (subscriber : Subscriber) (error : ℤ) :
    ∃ s', step s (.subscribe topic subscriber error) = some s' := by
  dsimp only [step]
  split
  · exact ⟨_, rfl⟩
  · exact ⟨_, rfl⟩

/-- What a topic has issued stays on record. -/
lemma issued_step {s s' : State Topic Subscriber} {event : Event Topic Subscriber}
    (hstep : step s event = some s') (topic : Topic) :
    (s.history topic).issued ⊆ (s'.history topic).issued := by
  cases event with
  | subscribe id subscriber error =>
    dsimp only [step] at hstep
    split at hstep
    · obtain rfl := Option.some.inj hstep
      exact List.Subset.refl _
    · obtain rfl := Option.some.inj hstep
      -- only the topic of the request gets a token
      by_cases htopic : topic = id
      · subst htopic
        simp
      · simp [Function.update_of_ne htopic]
  | unsubscribe id token =>
    dsimp only [step] at hstep
    split_ifs at hstep
    obtain rfl := Option.some.inj hstep
    by_cases htopic : topic = id
    · subst htopic
      simp
    · simp [Function.update_of_ne htopic]

/-- The token of a subscription is issued to its subscriber. -/
lemma mem_issued_of_subscribe {s s' : State Topic Subscriber} {topic : Topic}
    {subscriber : Subscriber} {error : ℤ} {token : ℕ}
    (hstep : step s (.subscribe topic subscriber error) = some s')
    (htoken : (subscribe s.topics topic subscriber error).2 = .ok token) :
    (token, subscriber) ∈ (s'.history topic).issued := by
  dsimp only [step] at hstep
  split at hstep
  · rename_i hsubscribe
    rw [hsubscribe] at htoken
    cases htoken
  · rename_i hsubscribe
    rw [hsubscribe] at htoken
    obtain rfl := Except.ok.inj htoken
    obtain rfl := Option.some.inj hstep
    simp

/-! ## What the registry holds -/

/-- How the registry of a topic follows its history. -/
structure Registered (registry : Registry Subscriber) (h : History Subscriber) : Prop where
  token : registry.token = h.issued.length
  tokens : h.issued.map Prod.fst = List.range' 1 h.issued.length
  below : ∀ e ∈ registry.subscribers, e.1 < registry.token
  returned : ∀ token ∈ h.unsubscribed, token ∈ h.issued.map Prod.fst
  /-- A subscriber goes only with the token before its own. -/
  kept : ∀ e ∈ h.issued, e.1 - 1 ∉ h.unsubscribed → (e.1 - 1, e.2) ∈ registry.subscribers
  all : h.unsubscribed = [] → registry.subscribers = h.issued.map fun e => (e.1 - 1, e.2)

/-- A topic is in the map once it has been subscribed, and for good. -/
def Consistent : Option (Registry Subscriber) → History Subscriber → Prop
  | none, h => h = ⟨[], []⟩
  | some registry, h => Registered registry h ∧ h.issued ≠ []

variable {registry : Registry Subscriber} {h : History Subscriber}

lemma registered_getD {registry : Option (Registry Subscriber)} (hreg : Consistent registry h) :
    Registered (registry.getD .new) h := by
  cases registry with
  | none =>
    obtain rfl := hreg
    constructor <;> simp [Registry.new]
  | some registry => exact hreg.1

/-- The next token is one more than what the registry stores. -/
lemma registered_subscribe (hreg : Registered registry h) (subscriber : Subscriber) :
    Registered (registry.subscribe subscriber).1
      { h with issued := h.issued ++ [((registry.subscribe subscriber).2, subscriber)] } := by
  obtain ⟨token, tokens, below, returned, kept, all⟩ := hreg
  unfold Registry.subscribe
  -- the new entry goes to the end, under the greatest token
  rw [OrderedMap.insert_eq_append below]
  refine ⟨by simp [token], ?_, ?_, ?_, ?_, ?_⟩
  · simp [tokens, token, List.range'_concat, Nat.add_comm]
  · intro e he
    rcases List.mem_append.mp he with hold | hnew
    · exact Nat.lt_succ_of_lt (below e hold)
    · rw [List.mem_singleton.mp hnew]
      exact Nat.lt_succ_self _
  · intro t ht
    rw [List.map_append]
    exact List.mem_append_left _ (returned t ht)
  · intro e he hnot
    rcases List.mem_append.mp he with hold | hnew
    · exact List.mem_append_left _ (kept e hold hnot)
    · rw [List.mem_singleton.mp hnew]
      exact List.mem_append_right _ (by simp)
  · intro hnone
    rw [all hnone]
    simp

/-- The erased entry is the one behind the token. -/
lemma registered_unsubscribe (hreg : Registered registry h) {t : ℕ}
    (ht : t ∈ h.issued.map Prod.fst) :
    Registered (registry.unsubscribe t) { h with unsubscribed := h.unsubscribed ++ [t] } := by
  obtain ⟨token, tokens, below, returned, kept, all⟩ := hreg
  refine ⟨token, tokens, ?_, ?_, ?_, by simp⟩
  · intro e he
    exact below e (OrderedMap.mem_erase.mp he).1
  · intro t' ht'
    rcases List.mem_append.mp ht' with hold | hnew
    · exact returned t' hold
    · rwa [List.mem_singleton.mp hnew]
  · intro e he hnot
    rw [List.mem_append, not_or, List.mem_singleton] at hnot
    exact OrderedMap.mem_erase.mpr ⟨kept e he hnot.1, hnot.2⟩

/-- Tokens start at one. -/
lemma one_le_of_mem_issued (hreg : Registered registry h) {t : ℕ}
    (ht : t ∈ h.issued.map Prod.fst) : 1 ≤ t := by
  rw [hreg.tokens, List.mem_range'_1] at ht
  exact ht.1

/-- The first subscriber stays, so a topic is never emptied. -/
lemma not_emptied (hreg : Registered registry h) (hne : h.issued ≠ []) :
    registry.emptied = false := by
  obtain ⟨e, issued, hissued⟩ := List.exists_cons_of_ne_nil hne
  have hfirst : e.1 = 1 := by
    have htokens := hreg.tokens
    rw [hissued, List.map_cons, List.length_cons, List.range'_succ] at htokens
    exact List.head_eq_of_cons_eq htokens
  have hzero : e.1 - 1 ∉ h.unsubscribed := by
    intro hmem
    have := one_le_of_mem_issued hreg (hreg.returned _ hmem)
    omega
  have hkept := hreg.kept e (by rw [hissued]; exact List.mem_cons_self) hzero
  simpa [Registry.emptied] using List.ne_nil_of_mem hkept

/-- Other topics keep their subscribers. -/
lemma unsubscribe_of_ne {topic id : Topic} (h : topic ≠ id) (topics : Topics Topic Subscriber)
    (token : ℕ) : unsubscribe topics id token topic = topics topic := by
  unfold unsubscribe unsubscrible
  cases topics id with
  | none => rfl
  | some registry =>
    dsimp only
    split_ifs <;> exact Function.update_of_ne h _ _

/-- Each step keeps the registry of each topic in line with its history. -/
lemma consistent_step {s s' : State Topic Subscriber} {event : Event Topic Subscriber}
    (hs : ∀ topic, Consistent (s.topics topic) (s.history topic)) (hstep : step s event = some s')
    (topic : Topic) : Consistent (s'.topics topic) (s'.history topic) := by
  cases event with
  | subscribe id subscriber error =>
    dsimp only [step, subscribe] at hstep
    split_ifs at hstep
    · obtain rfl := Option.some.inj hstep
      exact hs topic
    · obtain rfl := Option.some.inj hstep
      by_cases htopic : topic = id
      -- the topic of the request
      · subst htopic
        simp only [subscrible, Function.update_self]
        exact ⟨registered_subscribe (registered_getD (hs topic)) subscriber, by simp⟩
      · simp only [subscrible, Function.update_of_ne htopic]
        exact hs topic
  | unsubscribe id token =>
    dsimp only [step] at hstep
    split_ifs at hstep with htoken
    obtain rfl := Option.some.inj hstep
    by_cases htopic : topic = id
    · subst htopic
      have hconsistent := hs topic
      unfold unsubscribe unsubscrible
      -- only a topic with a subscriber has issued the token
      cases hregistry : s.topics topic with
      | none =>
        rw [hregistry] at hconsistent
        rw [show s.history topic = ⟨[], []⟩ from hconsistent] at htoken
        cases htoken
      | some registry =>
        rw [hregistry] at hconsistent
        obtain ⟨hreg, hne⟩ := hconsistent
        have hnext := registered_unsubscribe hreg htoken
        simp only [not_emptied hnext hne, Bool.not_false, if_true, Function.update_self]
        exact ⟨hnext, hne⟩
    · simp only [unsubscribe_of_ne htopic, Function.update_of_ne htopic]
      exact hs topic

/-- So does every run. -/
lemma consistent_run {events : List (Event Topic Subscriber)} {s : State Topic Subscriber}
    (hrun : Machine.run step fresh events = some s) :
    ∀ topic, Consistent (s.topics topic) (s.history topic) :=
  Machine.run_invariant (fun _ _ _ hs hstep => consistent_step hs hstep)
    (fun _ => show Consistent none ⟨[], []⟩ from rfl) hrun

/-! ## Deliveries -/

/-- Without an unsubscription, everyone is called in the order of subscription. -/
lemma receive_of_unsubscribed_nil (hreg : Registered registry h) (hnone : h.unsubscribed = []) :
    registry.receive = h.live := by
  unfold Registry.receive History.live
  rw [hreg.all hnone, hnone, List.map_map]
  simp

lemma received_of_unsubscribed_nil {events : List (Event Topic Subscriber)}
    {s : State Topic Subscriber} (hrun : Machine.run step fresh events = some s) {topic : Topic}
    (hnone : (s.history topic).unsubscribed = []) :
    received s.topics topic = (s.history topic).live := by
  have hconsistent := consistent_run hrun topic
  unfold received
  cases hregistry : s.topics topic with
  | none =>
    rw [hregistry] at hconsistent
    rw [show s.history topic = ⟨[], []⟩ from hconsistent]
    rfl
  | some registry =>
    rw [hregistry] at hconsistent
    exact receive_of_unsubscribed_nil hconsistent.1 hnone

/-- The first unsubscription leaves the subscriber whose token it was in place. -/
lemma receive_ne_of_unsubscribed (hreg : Registered registry h)
    (hdistinct : (h.issued.map Prod.snd).Nodup) (hsome : h.unsubscribed ≠ []) :
    registry.receive ≠ h.live := by
  intro hlive
  -- the least token that has been unsubscribed, and the subscriber that got it
  have hexists := List.exists_mem_of_ne_nil h.unsubscribed hsome
  have ht := Nat.find_spec hexists
  have hleast := fun t => @Nat.find_min' _ _ hexists t
  generalize Nat.find hexists = t at ht hleast
  obtain ⟨e, he, rfl⟩ := List.mem_map.mp (hreg.returned t ht)
  have hone := one_le_of_mem_issued hreg (hreg.returned _ ht)
  -- its entry is kept, because only the token behind it would erase it
  have hkept := hreg.kept e he fun hmem => by
    have := hleast _ hmem
    omega
  have hcalled : e.2 ∈ h.live := hlive ▸ List.mem_map.mpr ⟨_, hkept, rfl⟩
  obtain ⟨e', he', hsame⟩ := List.mem_map.mp hcalled
  obtain ⟨hissued, hnot⟩ := List.mem_filter.mp he'
  rw [List.inj_on_of_nodup_map hdistinct hissued he hsame] at hnot
  simp [ht] at hnot

/-- **Deliveries.** On a topic without an unsubscription, a packet goes to the live subscribers
in order; after one, if the subscribers are all different, it does not. -/
theorem received_live_iff (events : List (Event Topic Subscriber)) {s : State Topic Subscriber}
    (hrun : Machine.run step fresh events = some s) (topic : Topic) :
    ((s.history topic).unsubscribed = [] →
        received s.topics topic = (s.history topic).live) ∧
      (((s.history topic).issued.map Prod.snd).Nodup →
        received s.topics topic = (s.history topic).live →
          (s.history topic).unsubscribed = []) := by
  refine ⟨received_of_unsubscribed_nil hrun, fun hdistinct => ?_⟩
  have hconsistent := consistent_run hrun topic
  unfold received
  cases hregistry : s.topics topic with
  -- without a registry nobody has subscribed
  | none =>
    rw [hregistry] at hconsistent
    rw [show s.history topic = ⟨[], []⟩ from hconsistent]
    exact fun _ => rfl
  | some registry =>
    rw [hregistry] at hconsistent
    intro hlive
    by_contra hsome
    exact receive_ne_of_unsubscribed hconsistent.1 hdistinct hsome hlive

/-- Two subscribers of one topic and one whose transport refuses. -/
theorem received_live_two :
    ∃ s : State ℕ ℕ,
      Machine.run step fresh [.subscribe 0 10 0, .subscribe 1 30 (-1), .subscribe 0 20 0] =
        some s ∧
      ((s.history 0).unsubscribed = [] → received s.topics 0 = (s.history 0).live) ∧
      (((s.history 0).issued.map Prod.snd).Nodup → received s.topics 0 = (s.history 0).live →
        (s.history 0).unsubscribed = []) :=
  ⟨_, rfl,
    received_live_iff [.subscribe 0 10 0, .subscribe 1 30 (-1), .subscribe 0 20 0] rfl 0⟩

/-- The first of two subscribers is unsubscribed: it goes on receiving, and the second is gone. -/
theorem received_live_shared :
    ∃ s : State ℕ ℕ,
      Machine.run step fresh [.subscribe 0 10 0, .subscribe 0 20 0, .unsubscribe 0 1] = some s ∧
      (s.history 0).issued = [(1, 10), (2, 20)] ∧ (s.history 0).live = [20] ∧
      received s.topics 0 = [10] :=
  ⟨_, rfl, rfl, rfl, rfl⟩

end Channel
end Vng
