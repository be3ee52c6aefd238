import PeerNode.Proofs.Node.Letters
import PeerNode.Proofs.Node.Relaying

/-!
# What a node keeps between requests

When nothing is going on in a running node, it is `Steady`: it is in order, its listeners pass on
what others have sent, and its tasks wait for nothing but messages and room.  Every operation that
ends by settling keeps it so.

Some things an operation never changes: configuration, identity, topics, and whether direct messages
are served if they are served just when a protocol is configured.  A node that has stopped never
runs again (`Lasts`).

* `Speaks`, `Lasts`: what no operation changes; `lasts_stop`, `lasts_register`.
* `Steady`, and one lemma for each operation.
-/

namespace PeerNode

variable {n m k : Node} {spare : List Nat} {c : Nat}

namespace Node

/-! ## What lasts -/

/-- The node serves direct messages just if it has a protocol for them, and under that one. -/
def Speaks (n : Node) : Prop := n.direct.map (·.protocol) = n.config.protocolName

/-- Two states of one node, of which one came later. -/
structure Lasts (n m : Node) : Prop where
  config : m.config = n.config
  id : m.id = n.id
  topics : m.topics = n.topics
  direct : n.Speaks → m.direct = n.direct
  running : m.running = true → n.running = true

theorem Lasts.refl (n : Node) : n.Lasts n := ⟨rfl, rfl, rfl, fun _ => rfl, fun h => h⟩

theorem Lasts.speaks (h : n.Lasts m) (hn : n.Speaks) : m.Speaks := by
  rw [Speaks, h.direct hn, h.config, hn]

theorem Lasts.trans (h : n.Lasts m) (h' : m.Lasts k) : n.Lasts k :=
  ⟨h'.config.trans h.config, h'.id.trans h.id, h'.topics.trans h.topics,
    fun hn => (h'.direct (h.speaks hn)).trans (h.direct hn), fun hr => h.running (h'.running hr)⟩

theorem Alike.lasts (h : n.Alike m) : n.Lasts m :=
  ⟨h.config, h.id, h.topics, fun _ => h.direct, fun hr => h.running ▸ hr⟩

/-- A node that stops stops running, and is otherwise what it was. -/
theorem lasts_stop (n : Node) : n.Lasts n.stop := by
  unfold Node.stop
  split
  · exact ⟨rfl, rfl, rfl, fun _ => rfl, fun h => absurd h Bool.false_ne_true⟩
  · exact .refl n

/-- Who begins to serve direct messages has not spoken before. -/
theorem lasts_register (h : n.register = .ok m) : n.Lasts m := by
  obtain ⟨hdirect, protocol, hprotocol, rfl⟩ := register_eq_ok h
  refine ⟨rfl, rfl, rfl, fun hn => ?_, fun h => h⟩
  rw [Speaks, hdirect, hprotocol] at hn
  cases hn

/-! ## Inboxes -/

theorem queue?_topic {j : Nat} {e : JoinedTopic} (he : n.topics[j]? = some e) :
    n.queue? (.topic j) = some e.queue := by
  rw [Node.queue?, he, Option.map_some]

theorem queue?_direct {d : DirectChannel} (hd : n.direct = some d) :
    n.queue? .direct = some d.queue := by
  rw [Node.queue?, hd, Option.map_some]

theorem mem_queues_of_queue? {inbox : Inbox} {q : Nat} (h : n.queue? inbox = some q) :
    q ∈ n.queues spare := by
  cases inbox with
  | topic k =>
    obtain ⟨e, he, rfl⟩ := Option.map_eq_some_iff.1 h
    exact mem_queues_of_topic (List.mem_map_of_mem (List.mem_of_getElem? he))
  | direct =>
    refine mem_queues_of_direct ?_
    rw [directQueue, show n.direct.map (·.queue) = some q from h]
    exact List.mem_singleton_self q

/-! ## Steady nodes -/

/-- What a running node keeps. -/
structure Steady (n : Node) : Prop where
  sound : n.Sound []
  relays : n.exchange.Relays
  calm : n.exchange.Calm
  announced : ∀ p ∈ n.subscriptions, p.1 ∈ n.announced

theorem Steady.serving (h : n.Steady) (hnone : n.direct = none) (protocol : String) :
    (n.serving protocol).Steady where
  sound := h.sound.serving hnone protocol
  relays := h.relays
  calm := by
    refine h.calm.of_still rfl fun t ht d hd => ?_
    have hlt := h.sound.tidy.known t ht d hd
    simp only [Exchange.buffer, Exchange.room, Node.serving, Node.addQueue, Exchange.addChannel,
      List.getElem?_append_left hlt, and_self]
  announced := h.announced

theorem Steady.settled (hsound : m.Sound []) (hrelays : m.settle.exchange.Relays)
    (hready : m.exchange.Ready) (hannounced : ∀ p ∈ m.subscriptions, p.1 ∈ m.announced) :
    m.settle.Steady :=
  ⟨hsound.settle, hrelays, hready.calm_settle, hannounced⟩

/-- Subscribing to a topic announces it and keeps what was announced. -/
theorem mem_announced_subscribing (n : Node) (topic : String) {other : String}
    (h : other = topic ∨ other ∈ n.announced) : other ∈ (n.subscribing topic).announced := by
  simp only [subscribing, n.announced_unsubscribe topic]
  split
  · rename_i hmem
    rcases h with rfl | h
    · exact List.contains_iff_mem.1 hmem
    · exact h
  · rcases h with rfl | h
    · exact List.mem_append_right _ (List.mem_singleton_self _)
    · exact List.mem_append_left _ h

theorem Steady.subscribe (h : n.Steady) (topic : String) : (n.subscribe topic).1.Steady := by
  refine .settled (h.sound.subscribing topic) (h.sound.relays_subscribe h.relays topic) ?_ ?_
  · exact h.calm.ready.of_eq (n.tasks_unsubscribe topic) (n.clock_unsubscribe topic)
  · intro p hp
    refine n.mem_announced_subscribing topic ?_
    rcases List.mem_cons.1 hp with rfl | hp
    · exact Or.inl rfl
    · exact Or.inr (h.announced p (mem_unsubscribe hp).1)

theorem Sound.subscribe_notMem (h : n.Sound spare) (topic : String) :
    (n.subscribe topic).2 ∉ (n.subscribe topic).1.queues spare :=
  ((h.subscribe topic).subscription (topic, (n.subscribe topic).2) List.mem_cons_self).1

theorem Steady.leaving (h : n.Steady) (topic : String) :
    ((n.subscribe topic).1.abandon (n.subscribe topic).2).Steady := by
  have hsub := h.subscribe topic
  have hnot := h.sound.subscribe_notMem topic
  exact .settled (hsub.sound.abandoning hnot) (hsub.sound.relays_abandon hsub.relays hnot)
    (hsub.calm.ready.of_eq rfl rfl) hsub.announced

theorem Steady.take (h : n.Steady) {q : Nat} (hq : q ∈ n.queues []) : (n.take q).1.Steady := by
  have htake := Exchange.onlyMessages_tryReceive n.exchange q
  exact .settled (h.sound.onlyMessages htake (h.sound.books.tryReceive q))
    (h.sound.relays_take h.relays hq) (h.calm.ready.of_eq htake.tasks htake.clock) h.announced

/-- Taking in a message and settling. -/
theorem Steady.hear (h : n.Steady) (author : PeerName) (topic : String) (data : Bytes) :
    (n.hear author topic data).settle.Steady := by
  have hsound := h.sound.hear author topic data
  have hrelays := hsound.relays_settle (h.sound.relays_hear h.relays author topic data)
  rcases n.hear_cases author topic data with ⟨-, he⟩ | ⟨c, -, -, he⟩ | ⟨c, -, -, he⟩ <;>
    rw [he] at hsound hrelays ⊢
  · exact .settled hsound hrelays h.calm.ready h.announced
  · have hoffer := Exchange.onlyMessages_offer n.exchange c (.onTopic author topic data)
    exact .settled hsound hrelays (h.calm.ready.of_eq hoffer.tasks hoffer.clock) h.announced
  · refine .settled hsound hrelays
      (h.calm.ready.of_eq (n.tasks_unsubscribe topic) (n.clock_unsubscribe topic)) fun p hp => ?_
    rw [n.announced_unsubscribe topic]
    exact h.announced p (mem_unsubscribe hp).1

theorem Steady.handleStream (h : n.Steady) (sender : PeerName) (octets : Bytes) :
    (n.handleStream sender [.bytes octets]).Steady := by
  cases hd : n.direct with
  | none => simpa [Node.handleStream, hd] using h
  | some d =>
    have hrelays := h.sound.relays_handleStream h.relays sender [.bytes octets]
    rw [handleStream_eq hd] at hrelays ⊢
    exact .settled (h.sound.handling hd sender _) hrelays
      (Sound.ready_handling h.calm.ready d sender (Frame.prompt_bytes octets)) h.announced

end Node
end PeerNode
