import PeerNode.Node.Start
import PeerNode.Proofs.Exchange.Flow
import PeerNode.Proofs.Session.Names

/-!
# What the operations of a node come to

An operation of a node is made of a few changes of its exchange and of its tables, between which
its tasks act.  Here each is written as these changes, one after another, and it is said what it
leaves alone: most operations leave everything but the exchange, the announced topics and the table
of subscriptions as it is (`Alike`).

* `Alike`, `Joined`: what operations leave alone.
* `hear_cases`, `accept_cases`, `register_eq_ok`: what the operations come to.
* `start_eq_ok`: what a start leads to.
-/

namespace PeerNode
namespace Node

variable {n : Node} {c : Nat}

/-! ## What the operations leave alone -/

/-- Two states of one node: what it is and what it has joined are the same. -/
structure Alike (n m : Node) : Prop where
  config : m.config = n.config
  id : m.id = n.id
  services : m.services = n.services
  topics : m.topics = n.topics
  direct : m.direct = n.direct
  contacts : m.contacts = n.contacts
  running : m.running = n.running

theorem Alike.refl (n : Node) : n.Alike n := ⟨rfl, rfl, rfl, rfl, rfl, rfl, rfl⟩

theorem Alike.trans {m k : Node} (h : n.Alike m) (h' : m.Alike k) : n.Alike k :=
  ⟨h'.config.trans h.config, h'.id.trans h.id, h'.services.trans h.services,
    h'.topics.trans h.topics, h'.direct.trans h.direct, h'.contacts.trans h.contacts,
    h'.running.trans h.running⟩

theorem Alike.name {m : Node} (h : n.Alike m) : m.name = n.name := by
  rw [Node.name, Node.name, h.id]

theorem tasks_unsubscribe (n : Node) (topic : String) :
    (n.unsubscribe topic).exchange.tasks = n.exchange.tasks := by
  unfold unsubscribe
  split <;> rfl

theorem accepted_unsubscribe (n : Node) (topic : String) (c : Nat) :
    (n.unsubscribe topic).exchange.accepted c = n.exchange.accepted c := by
  unfold unsubscribe
  split <;> rfl

theorem announced_unsubscribe (n : Node) (topic : String) :
    (n.unsubscribe topic).announced = n.announced := by
  unfold unsubscribe
  split <;> rfl

theorem clock_unsubscribe (n : Node) (topic : String) :
    (n.unsubscribe topic).exchange.clock = n.exchange.clock := by
  unfold unsubscribe
  split <;> rfl

theorem mem_unsubscribe {topic : String} {p : String × Nat}
    (hp : p ∈ (n.unsubscribe topic).subscriptions) : p ∈ n.subscriptions ∧ p.1 ≠ topic := by
  unfold unsubscribe at hp
  split at hp
  · obtain ⟨hmem, hne⟩ := List.mem_filter.1 hp
    exact ⟨hmem, by simpa using hne⟩
  · rename_i hnone
    refine ⟨hp, ?_⟩
    rintro rfl
    exact Session.notMem_of_lookup_eq_none hnone (List.mem_map_of_mem hp)

theorem alike_unsubscribe (n : Node) (topic : String) : n.Alike (n.unsubscribe topic) := by
  unfold unsubscribe
  split <;> exact ⟨rfl, rfl, rfl, rfl, rfl, rfl, rfl⟩

theorem alike_subscribe (n : Node) (topic : String) : n.Alike (n.subscribe topic).1 :=
  (n.alike_unsubscribe topic).trans ⟨rfl, rfl, rfl, rfl, rfl, rfl, rfl⟩

/-- A stream that arrives is handled if there is somebody to handle it. -/
theorem accept_cases (n : Node) (sender : PeerName) (script : List ReadEvent) :
    (n.direct = none ∧ n.accept sender script = n) ∨
      ∃ d, n.direct = some d ∧ n.accept sender script = n.handling d sender script := by
  unfold accept
  split
  · rename_i hnone
    exact Or.inl ⟨hnone, rfl⟩
  · rename_i d hd
    exact Or.inr ⟨d, hd, rfl⟩

theorem handleStream_eq {d : DirectChannel} (hd : n.direct = some d) (sender : PeerName)
    (script : List ReadEvent) :
    n.handleStream sender script = (n.handling d sender script).settle := by
  unfold handleStream
  split
  · rename_i hnone
    cases hd.symm.trans hnone
  · rename_i d' hd'
    obtain rfl := Option.some.inj (hd.symm.trans hd')
    rfl

/-- **What becomes of a message that arrives**: there is no subscription for it, it is offered to
the subscription, or the subscription is found to be abandoned. -/
theorem hear_cases (n : Node) (sender : PeerName) (topic : String) (data : Bytes) :
    (n.subscription? topic = none ∧ n.hear sender topic data = n) ∨
    (∃ c, n.subscription? topic = some c ∧ n.exchange.hasReceiver c = true ∧
      n.hear sender topic data = { n with
        exchange := (n.exchange.offer c (.onTopic sender topic data)).1 }) ∨
    (∃ c, n.subscription? topic = some c ∧ n.exchange.hasReceiver c = false ∧
      n.hear sender topic data = n.unsubscribe topic) := by
  unfold hear
  split
  · rename_i hnone
    exact Or.inl ⟨hnone, rfl⟩
  · rename_i c hc
    refine Or.inr ?_
    rw [Exchange.offer_eq]
    cases hr : n.exchange.hasReceiver c with
    | true => exact Or.inl ⟨c, hc, hr, by rw [Exchange.offer_eq]⟩
    | false =>
      refine Or.inr ⟨c, hc, hr, ?_⟩
      simp only [Exchange.trySend, hr, Bool.not_false, if_pos]

theorem tasks_hear (n : Node) (author : PeerName) (topic : String) (data : Bytes) :
    (n.hear author topic data).exchange.tasks = n.exchange.tasks ∧
      (n.hear author topic data).exchange.clock = n.exchange.clock := by
  rcases n.hear_cases author topic data with ⟨-, he⟩ | ⟨c, -, -, he⟩ | ⟨c, -, -, he⟩ <;> rw [he]
  · exact ⟨rfl, rfl⟩
  · have hoffer := Exchange.onlyMessages_offer n.exchange c (.onTopic author topic data)
    exact ⟨hoffer.tasks, hoffer.clock⟩
  · exact ⟨n.tasks_unsubscribe topic, n.clock_unsubscribe topic⟩

theorem alike_hear (n : Node) (sender : PeerName) (topic : String) (data : Bytes) :
    n.Alike (n.hear sender topic data) := by
  rcases n.hear_cases sender topic data with ⟨-, he⟩ | ⟨c, -, -, he⟩ | ⟨c, -, -, he⟩ <;> rw [he]
  · exact .refl n
  · exact ⟨rfl, rfl, rfl, rfl, rfl, rfl, rfl⟩
  · exact n.alike_unsubscribe topic

theorem alike_take (n : Node) (q : Nat) : n.Alike (n.take q).1 :=
  ⟨rfl, rfl, rfl, rfl, rfl, rfl, rfl⟩

theorem alike_abandon (n : Node) (c : Nat) : n.Alike (n.abandon c) :=
  ⟨rfl, rfl, rfl, rfl, rfl, rfl, rfl⟩

theorem alike_accept (n : Node) (sender : PeerName) (script : List ReadEvent) :
    n.Alike (n.accept sender script) := by
  rcases n.accept_cases sender script with ⟨-, he⟩ | ⟨d, -, he⟩ <;> rw [he]
  · exact .refl n
  · exact ⟨rfl, rfl, rfl, rfl, rfl, rfl, rfl⟩

theorem alike_handleStream (n : Node) (sender : PeerName) (script : List ReadEvent) :
    n.Alike (n.handleStream sender script) := by
  unfold handleStream
  split
  · exact .refl n
  · exact ⟨rfl, rfl, rfl, rfl, rfl, rfl, rfl⟩

/-- Joining a topic adds it to the topics and changes nothing else of what the node is. -/
structure Joined (n m : Node) (topic : String) : Prop where
  config : m.config = n.config
  id : m.id = n.id
  direct : m.direct = n.direct
  running : m.running = n.running
  topics : m.topics = n.topics ++ [⟨topic, n.exchange.channels.length⟩]

theorem joined_join (n : Node) (topic : String) : n.Joined (n.join topic) topic := by
  have halike := (n.addQueue 0).alike_subscribe topic
  refine ⟨halike.config, halike.id, halike.direct, halike.running, ?_⟩
  change ((n.addQueue 0).subscribe topic).1.topics ++ _ = _
  rw [halike.topics]
  rfl

/-- Who begins to serve direct messages has not served any and has a protocol. -/
theorem register_eq_ok {m : Node} (h : n.register = .ok m) : n.direct = none ∧
    ∃ protocol, n.config.protocolName = some protocol ∧ m = n.serving protocol := by
  unfold register at h
  split at h
  · cases h
  · cases h
  · rename_i protocol hprotocol hdirect
    exact ⟨hdirect, protocol, hprotocol, (Except.ok.inj h).symm⟩

theorem register_of_none {protocol : String} (hdirect : n.direct = none)
    (hprotocol : n.config.protocolName = some protocol) : n.register = .ok (n.serving protocol) := by
  simp only [register, hdirect, hprotocol]

theorem notMem_unsubscribe (n : Node) (topic : String) :
    topic ∉ (n.unsubscribe topic).subscriptions.map (·.1) := by
  unfold Node.unsubscribe
  split
  · exact Session.notMem_forget topic n.subscriptions
  · rename_i hl
    exact Session.notMem_of_lookup_eq_none hl

/-! ## Starting -/

theorem addContact_eq (n : Node) (peer : PeerId) (address : Multiaddr) :
    ∃ cs, n.addContact peer address = { n with contacts := cs } := by
  unfold addContact
  split
  · exact ⟨n.contacts, rfl⟩
  · split
    · exact ⟨n.contacts, rfl⟩
    · split
      · exact ⟨n.contacts, rfl⟩
      · exact ⟨_, rfl⟩

theorem addContacts_eq (n : Node) (addresses : List Multiaddr) :
    ∃ cs, n.addContacts addresses = { n with contacts := cs } := by
  unfold addContacts
  split
  · induction addresses generalizing n with
    | nil => exact ⟨n.contacts, rfl⟩
    | cons address rest ih =>
      rw [List.foldl_cons]
      split
      · rename_i peer hpeer
        obtain ⟨cs, hcs⟩ := n.addContact_eq peer address
        rw [hcs]
        obtain ⟨cs', hcs'⟩ := ih { n with contacts := cs } ‹_›
        exact ⟨cs', hcs'⟩
      · exact ih n ‹_›
  · exact ⟨n.contacts, rfl⟩

/-- The fields that joining all topics leaves alone. -/
theorem fields_joinAll (n : Node) (topics : List String) :
    (topics.foldl join n).config = n.config ∧ (topics.foldl join n).id = n.id ∧
      (topics.foldl join n).direct = n.direct ∧ (topics.foldl join n).running = n.running ∧
      (topics.foldl join n).topics.map (·.name) = n.topics.map (·.name) ++ topics := by
  induction topics generalizing n with
  | nil => exact ⟨rfl, rfl, rfl, rfl, (List.append_nil _).symm⟩
  | cons topic topics ih =>
    have hjoined := n.joined_join topic
    obtain ⟨hconfig, hid, hdirect, hrunning, htopics⟩ := ih (n.join topic)
    rw [List.foldl_cons]
    refine ⟨hconfig.trans hjoined.config, hid.trans hjoined.id, hdirect.trans hjoined.direct,
      hrunning.trans hjoined.running, ?_⟩
    rw [htopics, hjoined.topics]
    simp

/-- **What a start leads to**: a bare node that has joined all topics, and serves direct messages
if it has a protocol. -/
theorem start_eq_ok {fresh : KeyPair} {config : Config} (h : Node.start fresh config = .ok n) :
    ∃ key services addresses, KeyPair.resolve fresh config.privateKey = .ok key ∧
      Services.ofConfig config = .ok services ∧ config.bootstrapAddresses = .ok addresses ∧
      let joined := config.topics.foldl join
        (({ config, id := key.peerId, services } : Node).addContacts addresses)
      (config.protocolName = none ∧ n = joined) ∨
        ∃ protocol, config.protocolName = some protocol ∧ n = joined.serving protocol := by
  unfold Node.start at h
  simp only [bind, Except.bind] at h
  split at h
  · cases h
  split at h
  · cases h
  rename_i key hkey
  split at h
  · cases h
  rename_i services hservices
  split at h
  · cases h
  split at h
  · cases h
  rename_i addresses haddresses
  refine ⟨key, services, addresses, hkey, hservices, haddresses, ?_⟩
  obtain ⟨cs, hcs⟩ :=
    ({ config, id := key.peerId, services } : Node).addContacts_eq addresses
  have hfields := fields_joinAll
    (({ config, id := key.peerId, services } : Node).addContacts addresses) config.topics
  cases hprotocol : config.protocolName with
  | none =>
    rw [hprotocol] at h
    exact Or.inl ⟨rfl, (Except.ok.inj h).symm⟩
  | some protocol =>
    rw [hprotocol] at h
    refine Or.inr ⟨protocol, rfl, ?_⟩
    simp only at h
    split at h
    · cases h
    obtain ⟨-, protocol', hprotocol', heq⟩ := register_eq_ok h
    rw [hfields.1, hcs, hprotocol, Option.some.injEq] at hprotocol'
    rw [hprotocol', heq]

end Node
end PeerNode
