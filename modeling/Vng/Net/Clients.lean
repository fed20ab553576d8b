import Vng.Net.Channel

/-!
# `net::Subscriber`, the subscribing side

`subcrible` and `unsubcrible` of `netsubscribe.cpp`: each client keeps the token of each topic it
has subscribed, and gives that token back to the channel. A network of clients is a run of the
channel (`channel_run`), and the clients never ask it for a token it has not returned
(`step_isSome`). On a topic that nobody has given back, each of them is registered once
(`count_received`).
-/

namespace Vng
namespace Clients

variable {Topic Client : Type}

/-- The channel with the clients on it, each of which passes itself to the channel. -/
structure Network (Topic Client : Type) where
  channel : Channel.State Topic Client
  /-- `Private::_topics` of each client. -/
  topics : Client → Topic → Option ℕ

def fresh : Network Topic Client := ⟨Channel.fresh, fun _ _ => none⟩

/-- What the clients ask for, in any order. -/
inductive Request (Topic Client : Type)
  | subcrible (client : Client) (topic : Topic) (error : ℤ)
  | unsubcrible (client : Client) (topic : Topic)

variable [DecidableEq Topic] [DecidableEq Client]

/-- `_topics[topic] = token`, or `_topics.erase(topic)` for `none`. -/
def Network.setTopic (s : Network Topic Client) (client : Client) (topic : Topic)
    (token : Option ℕ) : Network Topic Client :=
  { s with
    topics := Function.update s.topics client (Function.update (s.topics client) topic token) }

/-- The token of the topic is what was stored. -/
lemma setTopic_self (s : Network Topic Client) (client : Client) (topic : Topic)
    (token : Option ℕ) : (s.setTopic client topic token).topics client topic = token := by
  dsimp only [Network.setTopic]
  rw [Function.update_self, Function.update_self]

/-- What a client keeps for its other topics, and what the others keep, is left alone. -/
lemma setTopic_of_ne (s : Network Topic Client) {client client' : Client} {topic topic' : Topic}
    (token : Option ℕ) (hne : ¬ (client' = client ∧ topic' = topic)) :
    (s.setTopic client topic token).topics client' topic' = s.topics client' topic' := by
  dsimp only [Network.setTopic]
  by_cases hclient : client' = client
  · subst hclient
    rw [Function.update_self, Function.update_of_ne fun htopic => hne ⟨rfl, htopic⟩]
  · rw [Function.update_of_ne hclient]

/-- `Subscriber::subcrible` and `unsubcrible` of one client. -/
def step (s : Network Topic Client) : Request Topic Client → Option (Network Topic Client)
  | .subcrible client topic error =>
    match s.topics client topic with
    | some _ => some s
    | none => do
      let channel ← Channel.step s.channel (.subscribe topic client error)
      match (Channel.subscribe s.channel.topics topic client error).2 with
      | .error _ => some { s with channel := channel }
      | .ok token => some ({ s with channel := channel }.setTopic client topic (some token))
  | .unsubcrible client topic =>
    match s.topics client topic with
    | none => some s
    | some token => do
      let channel ← Channel.step s.channel (.unsubscribe topic token)
      some ({ s with channel := channel }.setTopic client topic none)

/-- What a step of a client does: nothing, or one step of the channel with the token kept or
given up. -/
lemma step_cases {s s' : Network Topic Client} {request : Request Topic Client}
    (hstep : step s request = some s') :
    s' = s ∨
    (∃ client topic error channel,
      Channel.step s.channel (.subscribe topic client error) = some channel ∧
      (s' = { s with channel := channel } ∨
        ∃ token, (Channel.subscribe s.channel.topics topic client error).2 = .ok token ∧
          s' = { s with channel := channel }.setTopic client topic (some token))) ∨
    ∃ client topic token channel, s.topics client topic = some token ∧
      Channel.step s.channel (.unsubscribe topic token) = some channel ∧
      s' = { s with channel := channel }.setTopic client topic none := by
  cases request with
  | subcrible client topic error =>
    dsimp only [step] at hstep
    split at hstep
    -- the client has the topic already
    · exact .inl (Option.some.inj hstep).symm
    · obtain ⟨channel, hchannel, hrest⟩ := Option.bind_eq_some_iff.mp hstep
      refine .inr (.inl ⟨client, topic, error, channel, hchannel, ?_⟩)
      split at hrest
      · exact .inl (Option.some.inj hrest).symm
      · rename_i token htoken
        exact .inr ⟨token, htoken, (Option.some.inj hrest).symm⟩
  | unsubcrible client topic =>
    dsimp only [step] at hstep
    split at hstep
    · exact .inl (Option.some.inj hstep).symm
    · rename_i token htoken
      obtain ⟨channel, hchannel, hrest⟩ := Option.bind_eq_some_iff.mp hstep
      exact .inr (.inr ⟨client, topic, token, channel, htoken, hchannel,
        (Option.some.inj hrest).symm⟩)

/-- A network of clients is a run of the channel, so what holds of every run of the channel holds
here. -/
theorem channel_run {requests : List (Request Topic Client)} {s : Network Topic Client}
    (hrun : Machine.run step fresh requests = some s) :
    ∃ events, Machine.run Channel.step Channel.fresh events = some s.channel := by
  refine Machine.run_simulates (f := Network.channel) (fun s _ s' hstep => ?_) hrun
  rcases step_cases hstep with rfl | ⟨client, topic, error, channel, hchannel, hs'⟩ |
    ⟨client, topic, token, channel, -, hchannel, rfl⟩
  · exact ⟨[], rfl⟩
  · refine ⟨[.subscribe topic client error], Machine.run_cons_eq_some.mpr ⟨channel, hchannel, ?_⟩⟩
    rcases hs' with rfl | ⟨token, -, rfl⟩ <;> rfl
  · exact ⟨[.unsubscribe topic token], Machine.run_cons_eq_some.mpr ⟨channel, hchannel, rfl⟩⟩

/-- A client holds only tokens that it got from the channel. -/
def Held (s : Network Topic Client) : Prop :=
  ∀ client topic token, s.topics client topic = some token →
    (token, client) ∈ (s.channel.history topic).issued

/-- A token that is kept was issued to the client that keeps it. -/
lemma held_step {s s' : Network Topic Client} {request : Request Topic Client} (h : Held s)
    (hstep : step s request = some s') : Held s' := by
  rcases step_cases hstep with rfl | ⟨client, topic, error, channel, hchannel, hs'⟩ |
    ⟨client, topic, token, channel, -, hchannel, rfl⟩
  · exact h
  · rcases hs' with rfl | ⟨token, htoken, rfl⟩
    · intro client' topic' token' htoken'
      exact Channel.issued_step hchannel topic' (h client' topic' token' htoken')
    · intro client' topic' token' htoken'
      by_cases hsame : client' = client ∧ topic' = topic
      -- the token has just been issued to this client
      · obtain ⟨rfl, rfl⟩ := hsame
        rw [setTopic_self, Option.some.injEq] at htoken'
        rw [← htoken']
        exact Channel.mem_issued_of_subscribe hchannel htoken
      · rw [setTopic_of_ne _ _ hsame] at htoken'
        exact Channel.issued_step hchannel topic' (h client' topic' token' htoken')
  · intro client' topic' token' htoken'
    by_cases hsame : client' = client ∧ topic' = topic
    · obtain ⟨rfl, rfl⟩ := hsame
      rw [setTopic_self] at htoken'
      cases htoken'
    · rw [setTopic_of_ne _ _ hsame] at htoken'
      exact Channel.issued_step hchannel topic' (h client' topic' token' htoken')

/-- So it is in every run. -/
lemma held_run {requests : List (Request Topic Client)} {s : Network Topic Client}
    (hrun : Machine.run step fresh requests = some s) : Held s :=
  Machine.run_invariant (fun _ _ _ h hstep => held_step h hstep)
    (fun _ _ _ htoken => by cases htoken) hrun

/-- The clients give the channel only tokens that it has returned: no request is turned down. -/
theorem step_isSome {requests : List (Request Topic Client)} {s : Network Topic Client}
    (hrun : Machine.run step fresh requests = some s) (request : Request Topic Client) :
    (step s request).isSome := by
  cases request with
  | subcrible client topic error =>
    dsimp only [step]
    split
    · rfl
    · obtain ⟨channel, hchannel⟩ := Channel.step_subscribe_eq_some s.channel topic client error
      rw [hchannel, Option.bind_eq_bind, Option.bind_some]
      split <;> rfl
  | unsubcrible client topic =>
    dsimp only [step]
    split
    · rfl
    · rename_i token htoken
      have hissued : token ∈ (s.channel.history topic).issued.map Prod.fst :=
        List.mem_map.mpr ⟨_, held_run hrun client topic token htoken, rfl⟩
      simp only [Channel.step, if_pos hissued]
      rfl

/-! ## Registrations -/

/-- On a topic of which no token has been given back, the subscriptions that succeeded are those of
the clients that have the topic. -/
def Once (s : Network Topic Client) : Prop :=
  ∀ topic, (s.channel.history topic).unsubscribed = [] → ∀ client,
    ((s.channel.history topic).issued.map Prod.snd).count client =
      (s.topics client topic).isSome.toNat

/-- A client that has the topic is not registered again, and gives it back once. -/
lemma once_step {s s' : Network Topic Client} {request : Request Topic Client} (h : Once s)
    (hstep : step s request = some s') : Once s' := by
  intro topic hnone client
  cases request with
  | subcrible subscriber id error =>
    dsimp only [step] at hstep
    split at hstep
    · obtain rfl := Option.some.inj hstep
      exact h topic hnone client
    -- the client does not have the topic yet
    · rename_i hfree
      rw [Channel.step] at hstep
      cases hsubscribe : Channel.subscribe s.channel.topics id subscriber error with
      | mk topics result =>
        rw [hsubscribe] at hstep
        cases result with
        | error error =>
          -- the transport refuses: nothing is issued
          obtain rfl := Option.some.inj hstep
          exact h topic hnone client
        | ok token =>
          obtain rfl := Option.some.inj hstep
          by_cases htopic : topic = id
          · subst htopic
            dsimp only [Network.setTopic] at hnone ⊢
            rw [Function.update_self] at hnone ⊢
            rw [List.map_append, List.count_append, h topic hnone client, List.map_singleton,
              List.count_singleton]
            by_cases hclient : client = subscriber
            · -- it did not have the topic before
              subst hclient
              rw [hfree, Function.update_self, Function.update_self, beq_self_eq_true]
              rfl
            · rw [Function.update_of_ne hclient, if_neg (by simpa using fun h => hclient h.symm),
                Nat.add_zero]
          · rw [setTopic_of_ne _ _ fun hsame => htopic hsame.2]
            dsimp only [Network.setTopic] at hnone ⊢
            rw [Function.update_of_ne htopic] at hnone ⊢
            exact h topic hnone client
  | unsubcrible subscriber id =>
    dsimp only [step] at hstep
    split at hstep
    · obtain rfl := Option.some.inj hstep
      exact h topic hnone client
    · obtain ⟨channel, hchannel, hrest⟩ := Option.bind_eq_some_iff.mp hstep
      obtain rfl := Option.some.inj hrest
      rw [Channel.step] at hchannel
      split_ifs at hchannel
      obtain rfl := Option.some.inj hchannel
      by_cases htopic : topic = id
      · -- a token of this topic has been given back now
        subst htopic
        dsimp only [Network.setTopic] at hnone
        rw [Function.update_self] at hnone
        exact absurd hnone (List.append_ne_nil_of_right_ne_nil _ (List.cons_ne_nil _ _))
      · rw [setTopic_of_ne _ _ fun hsame => htopic hsame.2]
        dsimp only [Network.setTopic] at hnone ⊢
        rw [Function.update_of_ne htopic] at hnone ⊢
        exact h topic hnone client

/-- **One registration.** In every run, on a topic of which no token has been given back, a client
is registered once if it has the topic, and not at all otherwise. -/
theorem count_received {requests : List (Request Topic Client)} {s : Network Topic Client}
    (hrun : Machine.run step fresh requests = some s) {topic : Topic}
    (hnone : (s.channel.history topic).unsubscribed = []) (client : Client) :
    (Channel.received s.channel.topics topic).count client =
      (s.topics client topic).isSome.toNat := by
  have honce : Once s := Machine.run_invariant (fun _ _ _ h hstep => once_step h hstep)
    (fun _ _ _ => rfl) hrun
  obtain ⟨events, hevents⟩ := channel_run hrun
  have hlive : (s.channel.history topic).live = (s.channel.history topic).issued.map Prod.snd := by
    simp [Channel.History.live, hnone]
  rw [Channel.received_of_unsubscribed_nil hevents hnone, hlive]
  exact honce topic hnone client

end Clients
end Vng
