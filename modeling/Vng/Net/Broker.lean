import Vng.Net.Channel

/-!
# `net::Channel` and its transport

Two layers keep the topics of a channel: its registry, and the transport with what it has been
asked to subscribe. `Channel::subscribe` asks the transport when the registry has no subscriber
for the topic; `Channel::unsubscribe` never asks it.
-/

namespace Vng
namespace Broker

open Channel (Registry Topics)

variable {Topic Subscriber : Type}

/-- The topics of a channel, beside what the transport has been told. -/
structure State (Topic Subscriber : Type) where
  topics : Topics Topic Subscriber
  /-- The topics with a successful `subscribe(topic)` and no later `unsubscribe(topic)`. -/
  transport : Topic → Bool
  /-- The tokens that have been returned and not given back. -/
  live : Topic → List ℤ

def fresh : State Topic Subscriber := ⟨fun _ => none, fun _ => false, fun _ => []⟩

/-- The calls of the subscribers, in any order. -/
inductive Call (Topic Subscriber : Type)
  /-- With what the transport returns if it is asked. -/
  | subscribe (topic : Topic) (subscriber : Subscriber) (error : ℤ)
  | unsubscribe (topic : Topic) (token : ℤ)

variable [DecidableEq Topic]

/-- `Channel::unsubscribe` with any token: a negative one is no subscriber's key. -/
def unsubscribe (topics : Topics Topic Subscriber) (topic : Topic) (token : ℤ) :
    Topics Topic Subscriber :=
  if token < 0 then topics else Channel.unsubscribe topics topic token.toNat

/-- The state after a call. -/
def next (s : State Topic Subscriber) : Call Topic Subscriber → State Topic Subscriber
  | .subscribe topic subscriber error =>
    match Channel.subscribe s.topics topic subscriber error with
    | (topics, .error _) => { s with topics := topics }
    | (topics, .ok token) => {
        topics := topics
        transport :=
          -- the transport has been asked, and has agreed
          if Channel.subscribed s.topics topic ≠ true then Function.update s.transport topic true
          else s.transport
        live := Function.update s.live topic (s.live topic ++ [(token : ℤ)]) }
  | .unsubscribe topic token => {
      s with
      topics := unsubscribe s.topics topic token
      live := Function.update s.live topic ((s.live topic).filter (· ≠ token)) }

def step (s : State Topic Subscriber) (call : Call Topic Subscriber) :
    Option (State Topic Subscriber) := some (next s call)

/-! ## The two layers -/

/-- A topic is subscribed at the transport exactly if the registry has a subscriber for it. -/
def Agrees (s : State Topic Subscriber) : Prop :=
  ∀ topic, s.transport topic = true ↔ Channel.received s.topics topic ≠ []

/-- The same for the subscribers that still have their tokens. -/
def AgreesLive (s : State Topic Subscriber) : Prop :=
  ∀ topic, s.transport topic = true ↔ s.live topic ≠ []

/-- A subscription that fails leaves the registry as it was. -/
def Unchanged (s : State Topic Subscriber) : Call Topic Subscriber → Prop
  | .subscribe topic subscriber error =>
    ∀ errno, (Channel.subscribe s.topics topic subscriber error).2 = .error errno →
      (Channel.subscribe s.topics topic subscriber error).1 = s.topics
  | .unsubscribe _ _ => True

/-- The token is not the key of the only subscriber in the registry. -/
def KeepsOne (s : State Topic Subscriber) : Call Topic Subscriber → Prop
  | .subscribe _ _ _ => True
  | .unsubscribe topic token =>
    ∀ registry ∈ s.topics topic, registry.subscribers.map (fun e => (e.1 : ℤ)) ≠ [token]

/-- The token is not the last one that has not been given back. -/
def KeepsLive (s : State Topic Subscriber) : Call Topic Subscriber → Prop
  | .subscribe _ _ _ => True
  | .unsubscribe topic token => ¬ (s.live topic ≠ [] ∧ ∀ t ∈ s.live topic, t = token)

/-! ## What each call does -/

variable {s : State Topic Subscriber} {topic : Topic} {subscriber : Subscriber} {error token : ℤ}
  {topics : Topics Topic Subscriber} {registry : Registry Subscriber}

/-- The first subscription of a topic can fail in the transport. -/
lemma subscribe_refused (hnone : topics topic = none) (herror : error ≠ 0) :
    Channel.subscribe topics topic subscriber error = (topics, .error error) := by
  unfold Channel.subscribe Channel.subscribed
  rw [if_pos ⟨by simp [hnone], herror⟩]

/-- Any other adds a subscriber. -/
lemma subscribe_done (h : topics topic ≠ none ∨ error = 0) :
    Channel.subscribe topics topic subscriber error =
      (Function.update topics topic
          (some (((topics topic).getD .new).subscribe subscriber).1),
        .ok (((topics topic).getD .new).subscribe subscriber).2) := by
  unfold Channel.subscribe Channel.subscribed
  rw [if_neg]
  · rfl
  · rintro ⟨hnone, herror⟩
    rw [ne_eq, Option.isSome_iff_ne_none, not_not] at hnone
    exact h.elim (fun h => h hnone) herror

/-- What `Topic::unsubscribe` leaves of the registry of a topic. -/
def remaining (registry : Registry Subscriber) (token : ℤ) : Registry Subscriber :=
  { registry with subscribers := registry.subscribers.filter fun e => (e.1 : ℤ) ≠ token }

/-- A token that is not negative is taken as it is. -/
lemma remaining_toNat (htoken : 0 ≤ token) :
    registry.unsubscribe token.toNat = remaining registry token := by
  unfold Registry.unsubscribe OrderedMap.erase remaining
  congr 2
  ext e
  rw [decide_eq_decide]
  omega

/-- A negative token takes nobody away. -/
lemma remaining_negative (htoken : token < 0) : remaining registry token = registry := by
  unfold remaining
  have hall : ∀ e ∈ registry.subscribers, decide ((e.1 : ℤ) ≠ token) = true := by
    intro e _
    rw [decide_eq_true_iff]
    omega
  rw [List.filter_eq_self.mpr hall]

lemma unsubscribe_none (h : topics topic = none) : unsubscribe topics topic token = topics := by
  unfold unsubscribe Channel.unsubscribe Channel.unsubscrible
  rw [h]
  split_ifs <;> rfl

/-- The topic goes with its last subscriber. -/
lemma unsubscribe_some (h : topics topic = some registry) (hne : registry.subscribers ≠ []) :
    unsubscribe topics topic token =
      Function.update topics topic
        (if (remaining registry token).subscribers = [] then none
          else some (remaining registry token)) := by
  unfold unsubscribe Channel.unsubscribe Channel.unsubscrible
  -- no key is negative: with such a token every subscriber remains
  by_cases htoken : token < 0
  · rw [if_pos htoken, remaining_negative htoken, if_neg hne, ← h, Function.update_eq_self]
  · rw [if_neg htoken, h]
    dsimp only
    rw [remaining_toNat (not_lt.mp htoken)]
    unfold Registry.emptied
    by_cases hempty : (remaining registry token).subscribers = [] <;> simp [hempty]

/-! ## What a call keeps -/

/-- A registry in the map has subscribers, under different keys below its token. -/
structure Kept (registry : Registry Subscriber) : Prop where
  nonempty : registry.subscribers ≠ []
  keys : (registry.subscribers.map Prod.fst).Nodup
  below : ∀ e ∈ registry.subscribers, e.1 < registry.token

/-- The transport has been asked for every topic of the map. -/
structure Asked (s : State Topic Subscriber) : Prop where
  transport : ∀ topic, s.topics topic ≠ none → s.transport topic = true
  kept : ∀ topic, ∀ registry ∈ s.topics topic, Kept registry

/-- A new token is greater than those before. -/
lemma kept_subscribe {registry : Option (Registry Subscriber)}
    (h : ∀ r ∈ registry, Kept r) (subscriber : Subscriber) :
    Kept ((registry.getD .new).subscribe subscriber).1 := by
  -- the tokens so far are below the next one
  have hbelow : ∀ e ∈ (registry.getD .new).subscribers, e.1 < (registry.getD .new).token := by
    cases registry with
    | none => simp [Registry.new]
    | some r => exact (h r rfl).below
  have hkeys : ((registry.getD .new).subscribers.map Prod.fst).Nodup := by
    cases registry with
    | none => simp [Registry.new]
    | some r => exact (h r rfl).keys
  unfold Registry.subscribe
  rw [OrderedMap.insert_eq_append hbelow]
  refine ⟨by simp, ?_, ?_⟩
  · rw [List.map_append, List.map_singleton, List.nodup_append]
    refine ⟨hkeys, List.nodup_singleton _, ?_⟩
    intro key hkey token htoken
    obtain ⟨e, he, rfl⟩ := List.mem_map.mp hkey
    rw [List.mem_singleton.mp htoken]
    exact Nat.ne_of_lt (hbelow e he)
  · intro e he
    rcases List.mem_append.mp he with hold | hnew
    · exact Nat.lt_succ_of_lt (hbelow e hold)
    · rw [List.mem_singleton.mp hnew]
      exact Nat.lt_succ_self _

/-- What is left keeps its tokens. -/
lemma kept_remaining (h : Kept registry) (hne : (remaining registry token).subscribers ≠ []) :
    Kept (remaining registry token) := by
  refine ⟨hne, ?_, ?_⟩
  · exact h.keys.sublist (List.Sublist.map _ List.filter_sublist)
  · intro e he
    exact h.below e (List.mem_of_mem_filter he)

/-- Nothing remains exactly if the token is the only key. -/
lemma remaining_eq_nil_iff (h : Kept registry) :
    (remaining registry token).subscribers = [] ↔
      registry.subscribers.map (fun e => (e.1 : ℤ)) = [token] := by
  have hall : (remaining registry token).subscribers = [] ↔
      ∀ key ∈ registry.subscribers.map (fun e => (e.1 : ℤ)), key = token := by
    rw [List.forall_mem_map]
    simp [remaining, List.filter_eq_nil_iff]
  have hkeys : (registry.subscribers.map (fun e => (e.1 : ℤ))).Nodup := by
    rw [show (fun e : ℕ × Subscriber => (e.1 : ℤ)) = Nat.cast ∘ Prod.fst from rfl, ← List.map_map]
    exact h.keys.map fun _ _ hsame => Int.ofNat.inj hsame
  have hne : registry.subscribers.map (fun e => (e.1 : ℤ)) ≠ [] := by
    rw [ne_eq, List.map_eq_nil_iff]
    exact h.nonempty
  rw [hall]
  constructor
  · -- equal keys that are all different: there is one
    intro hsame
    have hreplicate := List.eq_replicate_of_mem hsame
    rw [hreplicate, List.nodup_replicate] at hkeys
    have hpos := List.length_pos_of_ne_nil hne
    rw [hreplicate, le_antisymm hkeys hpos]
    rfl
  · intro hone key hkey
    rw [hone] at hkey
    exact List.mem_singleton.mp hkey

/-- What a call can do to the three records. -/
lemma next_cases (hs : Asked s) (call : Call Topic Subscriber) :
    (∃ topic subscriber error, call = .subscribe topic subscriber error ∧
        s.topics topic = none ∧ error ≠ 0 ∧ next s call = s) ∨
    (∃ topic subscriber error registry token, call = .subscribe topic subscriber error ∧
        Kept registry ∧ next s call = {
          topics := Function.update s.topics topic (some registry)
          transport := Function.update s.transport topic true
          live := Function.update s.live topic (s.live topic ++ [token]) }) ∨
    ∃ topic token, call = .unsubscribe topic token ∧ next s call = {
      s with
      topics := unsubscribe s.topics topic token
      live := Function.update s.live topic ((s.live topic).filter (· ≠ token)) } := by
  cases call with
  | unsubscribe topic token => exact .inr (.inr ⟨topic, token, rfl, rfl⟩)
  | subscribe topic subscriber error =>
    by_cases hrefused : s.topics topic = none ∧ error ≠ 0
    · refine .inl ⟨topic, subscriber, error, rfl, hrefused.1, hrefused.2, ?_⟩
      dsimp only [next]
      rw [subscribe_refused hrefused.1 hrefused.2]
    · refine .inr (.inl ⟨topic, subscriber, error, _,
        (((s.topics topic).getD .new).subscribe subscriber).2, rfl,
        kept_subscribe (hs.kept topic) subscriber, ?_⟩)
      have hdone : s.topics topic ≠ none ∨ error = 0 := by
        by_contra hnot
        push Not at hnot
        exact hrefused hnot
      -- the transport is asked only for the first subscriber, and knows the topic afterwards
      have htransport : (if Channel.subscribed s.topics topic ≠ true then
          Function.update s.transport topic true else s.transport) =
            Function.update s.transport topic true := by
        split_ifs with hsubscribed
        · rfl
        · rw [not_not] at hsubscribed
          rw [← hs.transport topic (Option.isSome_iff_ne_none.mp hsubscribed),
            Function.update_eq_self]
      dsimp only [next]
      rw [subscribe_done hdone]
      dsimp only
      rw [htransport]

omit [DecidableEq Topic] in
/-- Nothing has been asked for. -/
lemma asked_fresh : Asked (fresh : State Topic Subscriber) :=
  ⟨fun _ h => absurd rfl h, fun _ _ h => by cases h⟩

/-- After `unsubscribe` a topic has what remains of its registry, if something does. -/
lemma unsubscribe_cases (hs : Asked s) (topic : Topic) (token : ℤ) (other : Topic) :
    (unsubscribe s.topics topic token other = s.topics other ∧
        (other = topic → s.topics topic = none)) ∨
    (other = topic ∧ ∃ registry, s.topics topic = some registry ∧
      unsubscribe s.topics topic token other =
        if (remaining registry token).subscribers = [] then none
        else some (remaining registry token)) := by
  cases h : s.topics topic with
  | none => exact .inl ⟨by rw [unsubscribe_none h], fun _ => rfl⟩
  | some registry =>
    rw [unsubscribe_some h (hs.kept topic registry h).nonempty]
    by_cases hother : other = topic
    · exact .inr ⟨hother, registry, rfl, by rw [hother, Function.update_self]⟩
    · exact .inl ⟨Function.update_of_ne hother _ _, fun heq => absurd heq hother⟩

/-- A topic with subscribers has been asked for. -/
lemma asked_next (hs : Asked s) (call : Call Topic Subscriber) : Asked (next s call) := by
  rcases next_cases hs call with ⟨_, _, _, -, -, -, hnext⟩ |
    ⟨topic, _, _, registry, _, -, hkept, hnext⟩ | ⟨topic, token, -, hnext⟩
  · rw [hnext]
    exact hs
  · rw [hnext]
    constructor
    -- only the topic of the call is asked for
    · intro other hother
      dsimp only at hother ⊢
      by_cases hsame : other = topic
      · rw [hsame, Function.update_self]
      · rw [Function.update_of_ne hsame] at hother ⊢
        exact hs.transport other hother
    · intro other r hr
      dsimp only at hr
      by_cases hsame : other = topic
      · rw [hsame, Function.update_self, Option.mem_some_iff] at hr
        exact hr ▸ hkept
      · rw [Function.update_of_ne hsame] at hr
        exact hs.kept other r hr
  · -- topics may leave the map, but the transport is not told
    rw [hnext]
    constructor
    · intro other hother
      apply hs.transport
      intro hnone
      apply hother
      rcases unsubscribe_cases hs topic token other with ⟨hsame, -⟩ | ⟨rfl, registry, hsome, -⟩
      · exact hsame.trans hnone
      · rw [hnone] at hsome
        cases hsome
    · intro other r hr
      dsimp only at hr
      rcases unsubscribe_cases hs topic token other with ⟨hsame, -⟩ | ⟨rfl, registry, hsome, hleft⟩
      · rw [hsame] at hr
        exact hs.kept other r hr
      · rw [hleft] at hr
        split_ifs at hr with hempty
        · cases hr
        · rw [Option.mem_some_iff] at hr
          exact hr ▸ kept_remaining (hs.kept other registry hsome) hempty

omit [DecidableEq Topic] in
/-- In the map, a topic has a subscriber. -/
lemma received_ne_nil_iff (hs : Asked s) (topic : Topic) :
    Channel.received s.topics topic ≠ [] ↔ s.topics topic ≠ none := by
  unfold Channel.received
  cases h : s.topics topic with
  | none => simp
  | some registry =>
    have hne := (hs.kept topic registry h).nonempty
    simp [Registry.receive, hne]

omit [DecidableEq Topic] in
/-- The two agree if every topic that has been asked for has a subscriber. -/
lemma agrees_iff_asked (hs : Asked s) :
    Agrees s ↔ ∀ topic, s.transport topic = true → s.topics topic ≠ none := by
  unfold Agrees
  simp only [received_ne_nil_iff hs]
  exact ⟨fun h topic => (h topic).mp, fun h topic => ⟨h topic, hs.transport topic⟩⟩

omit [DecidableEq Topic] in
lemma agrees_fresh : Agrees (fresh : State Topic Subscriber) := fun _ => by
  simp [fresh, Channel.received]

/-- A call that leaves one subscriber to each topic keeps the agreement. -/
lemma agrees_next (hs : Asked s) (h : Agrees s) {call : Call Topic Subscriber}
    (hkeeps : KeepsOne s call) : Agrees (next s call) := by
  rw [agrees_iff_asked hs] at h
  rw [agrees_iff_asked (asked_next hs call)]
  intro other
  rcases next_cases hs call with ⟨_, _, _, -, -, -, hnext⟩ |
    ⟨topic, _, _, registry, _, -, -, hnext⟩ | ⟨topic, token, rfl, hnext⟩
  -- a call that is refused changes nothing
  · rw [hnext]
    exact h other
  · rw [hnext]
    dsimp only
    by_cases hsame : other = topic
    · rw [hsame, Function.update_self, Function.update_self]
      exact fun _ => Option.some_ne_none registry
    · rw [Function.update_of_ne hsame, Function.update_of_ne hsame]
      exact h other
  · rw [hnext]
    intro htransport
    dsimp only at htransport ⊢
    rcases unsubscribe_cases hs topic token other with ⟨hsame, -⟩ | ⟨rfl, registry, hsome, hleft⟩
    · rw [hsame]
      exact h other htransport
    -- the topic keeps a subscriber, because the token is not its last one
    · have hone : registry.subscribers.map (fun e => (e.1 : ℤ)) ≠ [token] := hkeeps registry hsome
      rw [ne_eq, ← remaining_eq_nil_iff (hs.kept other registry hsome)] at hone
      rw [hleft, if_neg hone]
      exact Option.some_ne_none _

/-- The transport is not asked when the last subscriber goes. -/
lemma not_agrees_next (hs : Asked s) {call : Call Topic Subscriber} (hkeeps : ¬ KeepsOne s call) :
    ¬ Agrees (next s call) := by
  rw [agrees_iff_asked (asked_next hs call)]
  cases call with
  | subscribe => exact absurd trivial hkeeps
  | unsubscribe topic token =>
    simp only [KeepsOne, not_forall, not_not] at hkeeps
    obtain ⟨registry, hsome, hone⟩ := hkeeps
    rw [Option.mem_def] at hsome
    have hkept := hs.kept topic registry hsome
    intro h
    apply h topic
    · exact hs.transport topic (by rw [hsome]; exact Option.some_ne_none _)
    · dsimp only [next]
      rw [unsubscribe_some hsome hkept.nonempty, Function.update_self,
        if_pos ((remaining_eq_nil_iff hkept).mpr hone)]

omit [DecidableEq Topic] in
lemma agreesLive_fresh : AgreesLive (fresh : State Topic Subscriber) := fun _ => by
  simp [fresh]

/-- A call ends the agreement exactly if it takes the last live token of a topic. -/
lemma agreesLive_next_iff (hs : Asked s) (h : AgreesLive s) (call : Call Topic Subscriber) :
    AgreesLive (next s call) ↔ KeepsLive s call := by
  rcases next_cases hs call with ⟨_, _, _, rfl, -, -, hnext⟩ |
    ⟨topic, _, _, registry, token, rfl, -, hnext⟩ | ⟨topic, token, rfl, hnext⟩
  · rw [hnext]
    exact iff_of_true h trivial
  · refine iff_of_true ?_ trivial
    rw [hnext]
    intro other
    by_cases hsame : other = topic
    · rw [hsame]
      simp
    · simp only [Function.update_of_ne hsame]
      exact h other
  · rw [hnext]
    unfold AgreesLive KeepsLive
    dsimp only
    constructor
    · -- the last token is gone, and the transport still subscribed
      rintro hagrees ⟨hne, hlast⟩
      apply (hagrees topic).mp ((h topic).mpr hne)
      rw [Function.update_self, List.filter_eq_nil_iff]
      intro t ht
      simp [hlast t ht]
    · intro hkeeps other
      by_cases hsame : other = topic
      · rw [hsame, Function.update_self, h topic, ne_eq, ne_eq, List.filter_eq_nil_iff]
        push Not at hkeeps
        constructor
        · intro hne hall
          obtain ⟨t, ht, hother⟩ := hkeeps hne
          exact hall t ht (decide_eq_true hother)
        · intro hall hnil
          rw [hnil] at hall
          exact hall fun _ ht => absurd ht List.not_mem_nil
      · rw [Function.update_of_ne hsame]
        exact h other

/-- A refused subscription changes nothing. -/
lemma unchanged (s : State Topic Subscriber) (call : Call Topic Subscriber) : Unchanged s call := by
  cases call with
  | unsubscribe => trivial
  | subscribe topic subscriber error =>
    intro errno herrno
    by_cases hrefused : s.topics topic = none ∧ error ≠ 0
    · rw [subscribe_refused hrefused.1 hrefused.2]
    · have hdone : s.topics topic ≠ none ∨ error = 0 := by
        by_contra hnot
        push Not at hnot
        exact hrefused hnot
      rw [subscribe_done hdone] at herrno
      cases herrno

/-- A property that a call keeps exactly under a condition holds throughout a run exactly if every
call meets the condition. -/
lemma always_iff_of_next {P : State Topic Subscriber → Prop}
    {Keeps : State Topic Subscriber → Call Topic Subscriber → Prop} (hfresh : P fresh)
    (hkeep : ∀ s call, Asked s → P s → Keeps s call → P (next s call))
    (hlose : ∀ s call, Asked s → P s → ¬ Keeps s call → ¬ P (next s call))
    (calls : List (Call Topic Subscriber)) :
    Machine.Always step P fresh calls ↔ Machine.Along step Keeps fresh calls := by
  have htotal : ∀ (s : State Topic Subscriber) (call : Call Topic Subscriber),
      ∃ s', step s call = some s' := fun s call => ⟨next s call, rfl⟩
  obtain ⟨t, hrun⟩ := Machine.exists_run htotal fresh calls
  -- as long as the calls keep the property
  have hstay : ∀ (s : State Topic Subscriber) (call : Call Topic Subscriber)
      (s' : State Topic Subscriber), Asked s ∧ P s → Keeps s call → step s call = some s' →
        Asked s' ∧ P s' := by
    intro s call s' h hkeeps hstep
    obtain rfl := Option.some.inj hstep
    exact ⟨asked_next h.1 call, hkeep s call h.1 h.2 hkeeps⟩
  -- and not beyond the first call that does not
  have hleave : ∀ (s : State Topic Subscriber) (call : Call Topic Subscriber)
      (s' : State Topic Subscriber), Asked s ∧ P s → ¬ Keeps s call → step s call = some s' →
        ¬ P s' := by
    intro s call s' h hkeeps hstep
    obtain rfl := Option.some.inj hstep
    exact hlose s call h.1 h.2 hkeeps
  exact Machine.always_iff_along (fun _ h => h.2) hstay hleave ⟨asked_fresh, hfresh⟩ hrun

/-- **The registry and the transport.** They agree after each call of a run, and a refused
subscription changes nothing, exactly if no `unsubscribe` takes the only subscriber of a topic
from the registry; counted by their tokens, exactly if none gives back the last token. -/
theorem agrees_transport_iff (calls : List (Call Topic Subscriber)) :
    ((Machine.Always step Agrees fresh calls ∧ Machine.Along step Unchanged fresh calls) ↔
      Machine.Along step KeepsOne fresh calls) ∧
    (Machine.Always step AgreesLive fresh calls ↔ Machine.Along step KeepsLive fresh calls) := by
  constructor
  · rw [always_iff_of_next agrees_fresh (fun _ _ hs h hkeeps => agrees_next hs h hkeeps)
      (fun _ _ hs _ hkeeps => not_agrees_next hs hkeeps) calls, and_iff_left_iff_imp]
    intro _
    exact Machine.along_of_forall unchanged
  · exact always_iff_of_next agreesLive_fresh
      (fun _ call hs h hkeeps => (agreesLive_next_iff hs h call).mpr hkeeps)
      (fun _ call hs h hkeeps hnext => hkeeps ((agreesLive_next_iff hs h call).mp hnext)) calls

/-- The only subscriber of a topic goes, from the registry with token 0 and in its own view with
the token it got: the transport remains subscribed. -/
theorem unsubscribe_last :
    (∃ s : State ℕ ℕ, Machine.run step fresh [.subscribe 7 10 0, .unsubscribe 7 0] = some s ∧
      Channel.received s.topics 7 = [] ∧ s.transport 7 = true ∧ ¬ Agrees s) ∧
    ∃ s : State ℕ ℕ, Machine.run step fresh [.subscribe 7 10 0, .unsubscribe 7 1] = some s ∧
      s.live 7 = [] ∧ s.transport 7 = true ∧ ¬ AgreesLive s := by
  refine ⟨⟨_, rfl, by decide, by decide, ?_⟩, ⟨_, rfl, by decide, by decide, ?_⟩⟩
  · intro h
    exact absurd ((h 7).mp (by decide)) (by decide)
  · intro h
    exact absurd ((h 7).mp (by decide)) (by decide)

end Broker
end Vng
