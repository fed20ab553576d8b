import Vng.Comm.Message
import Vng.Net.Clients
import Vng.Net.Subscriber
import Vng.Services.Messages

/-!
# A message from `Channel::publish` to `Subscriber::parse`

The sender writes the header of a packet through casts, the receiver lays a packed struct over it.
`publish_calls` puts the two together: `parse` is called once for each registration of the topic,
with the id, the size and the bytes of the message. How often a subscriber is registered is seen
to by its own map of topics (`Clients.count_received`).
-/

namespace Vng
namespace Publish

open Memory (Checked)
open Subscriber (Event)

variable {Topic Client : Type}

/-- `Channel::publish(topic, message)`: the packet that goes to the transport. -/
def publish (message : Comm.Message) : Checked (List Byte) := message.fill []

/-- The calls of `parse` for a packet that is received for a topic: one subscriber after another,
as the registry has them. -/
def calls (topics : Channel.Topics Topic Client) (topic : Topic) (packet : List Byte) :
    List (Client × Event) :=
  (Channel.received topics topic).filterMap fun subscriber =>
    (Subscriber.event packet).map fun event => (subscriber, event)

/-- What `parse` is to be called with. -/
def event (message : Comm.Message) : Event := ⟨message.id, message.size, message.body⟩

/-! ## The header -/

/-- The struct is laid over what the casts have written. -/
lemma event_fill (message : Comm.Message) :
    Subscriber.event (Services.fill message.id message.size message.body) =
      some (event message) := by
  have hlength : (Services.fill message.id message.size message.body).length =
      Subscriber.headerSize + message.body.length := by
    rw [Services.fill, List.length_append, List.length_append, length_wordBytes, length_wordBytes]
    rfl
  unfold Subscriber.event
  rw [if_neg (by omega)]
  -- byte by byte, both words come back
  exact congrArg some (congrArg₂ (Event.mk · · message.body) (wordOf_wordBytes message.id)
    (wordOf_wordBytes message.size))

/-- Each registration makes one call. -/
lemma calls_fill (message : Comm.Message) (topics : Channel.Topics Topic Client) (topic : Topic) :
    calls topics topic (Services.fill message.id message.size message.body) =
      (Channel.received topics topic).map fun subscriber => (subscriber, event message) := by
  unfold calls
  rw [event_fill]
  exact congrFun List.filterMap_eq_map' _

lemma fill_injective {message other : Comm.Message}
    (h : Services.fill message.id message.size message.body =
      Services.fill other.id other.size other.body) :
    message.id = other.id ∧ message.size = other.size ∧ message.body = other.body := by
  have hevent := event_fill message
  rw [h, event_fill other, Option.some.injEq] at hevent
  exact ⟨congrArg Event.id hevent.symm, congrArg Event.size hevent.symm,
    congrArg Event.payload hevent.symm⟩

/-- **From `fill` to `parse`.** A message is put into a packet that makes one call of `parse` for
each registration of the topic, with the message's id, size and bytes; so in a network of clients it
is one call for each that has the topic, as long as no token of the topic has been given back.
Messages that differ in id, size or bytes have different packets. -/
theorem publish_calls [DecidableEq Topic] [DecidableEq Client] (message : Comm.Message) :
    (∃ packet, publish message = .ok packet ∧
      (∀ (topics : Channel.Topics Topic Client) (topic : Topic),
        calls topics topic packet =
          (Channel.received topics topic).map fun subscriber => (subscriber, event message)) ∧
      ∀ (requests : List (Clients.Request Topic Client)) (s : Clients.Network Topic Client),
        Machine.run Clients.step Clients.fresh requests = some s → ∀ topic,
          (s.channel.history topic).unsubscribed = [] → ∀ client,
            (s.topics client topic).isSome →
              (calls s.channel.topics topic packet).filter (·.1 = client) =
                [(client, event message)]) ∧
    ∀ (other : Comm.Message) (packet packet' : List Byte),
      message.fill packet = other.fill packet' →
        message.id = other.id ∧ message.size = other.size ∧ message.body = other.body := by
  constructor
  · refine ⟨_, message.fill_eq [], calls_fill message, ?_⟩
    intro requests s hrun topic hnone client hsubscribed
    have hcount := Clients.count_received hrun hnone client
    rw [hsubscribed] at hcount
    have hcalls := calls_fill message s.channel.topics topic
    unfold Services.fill at hcalls
    have hone : (Channel.received s.channel.topics topic).filter (· = client) = [client] := by
      rw [List.filter_eq, hcount]
      rfl
    rw [hcalls, List.filter_map]
    exact congrArg (List.map fun client => (client, event message)) hone
  · intro other packet packet' h
    rw [message.fill_eq, other.fill_eq] at h
    exact fill_injective (Except.ok.inj h)

/-- Two clients share a topic, and one of them has given another topic back. -/
theorem publish_calls_two :
    ∃ packet s, publish ⟨0x0001, 2, [0xAA, 0xBB], rfl⟩ = .ok packet ∧
      Machine.run Clients.step (Clients.fresh : Clients.Network ℕ ℕ)
        [.subcrible 10 0 0, .subcrible 10 1 0, .subcrible 20 0 0, .unsubcrible 10 1] = some s ∧
      (calls s.channel.topics 0 packet).filter (·.1 = 20) =
        [(20, ⟨0x0001, 2, [0xAA, 0xBB]⟩)] := by
  obtain ⟨⟨packet, hpublish, -, hruns⟩, -⟩ :=
    @publish_calls ℕ ℕ _ _ ⟨0x0001, 2, [0xAA, 0xBB], rfl⟩
  exact ⟨packet, _, hpublish, rfl, hruns
    [.subcrible 10 0 0, .subcrible 10 1 0, .subcrible 20 0 0, .unsubcrible 10 1] _ rfl 0 rfl 20 rfl⟩

end Publish
end Vng
