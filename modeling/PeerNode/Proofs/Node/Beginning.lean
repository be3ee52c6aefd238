import PeerNode.Proofs.Node.Standing
import PeerNode.Proofs.Node.Steadiness

/-!
# A node that has just started

A node that starts joins its topics one after another and may then serve direct messages.  Nothing
arrives meanwhile, so at the end it is in order, no message has moved in it and none is waited
with.

* `Steady.join`: joining a topic keeps a node in order.
* `Begun`, `begun_start`: all that holds of a node that has just started.
* `Configured`, `configured_start`: what it takes from its configuration.
* `exists_start`: which configurations start a node.
-/

namespace PeerNode

variable {n : Node} {spare : List Nat}

namespace Node

theorem Sound.no_handler (h : n.Sound spare) (hnone : n.direct = none) {t : Task} {hd : Handler}
    (ht : t ∈ n.exchange.tasks) : t.work ≠ .handle hd := by
  intro hw
  have hemployed := h.employed t ht
  rw [hw] at hemployed
  simp [Employs, directQueue, hnone] at hemployed

theorem Sound.ready (h : n.Sound spare) (hnone : n.direct = none) : n.exchange.Ready :=
  fun _ ht _ hw => absurd hw (h.no_handler hnone ht)

/-- **Joining a topic keeps a node in order that does not serve direct messages.** -/
theorem Steady.join (h : n.Steady) (hnone : n.direct = none) (topic : String) :
    (n.join topic).Steady := by
  obtain ⟨hsound, hunread⟩ := h.sound.joining topic
  have hattached := hsound.attaching (n.queue_lt_subscription topic 0)
    ⟨_, List.mem_cons_self, rfl⟩ hunread topic
  have hrelays := h.sound.relays_join h.relays topic
  have hdirect := ((n.addQueue 0).alike_subscribe topic).direct.trans hnone
  rw [Node.join] at hrelays ⊢
  refine .settled hattached hrelays (hattached.ready hdirect) fun p hp => ?_
  refine (n.addQueue 0).mem_announced_subscribing topic ?_
  rcases List.mem_cons.1 hp with rfl | hp
  · exact Or.inl rfl
  · exact Or.inr (h.announced p (mem_unsubscribe hp).1)

theorem Steady.joinAll (h : n.Steady) (hnone : n.direct = none) (topics : List String) :
    (topics.foldl Node.join n).Steady := by
  induction topics generalizing n with
  | nil => exact h
  | cons topic topics ih => exact ih (h.join hnone topic) ((n.joined_join topic).direct.trans hnone)

/-- What holds of a node that has just started. -/
structure Begun (n : Node) : Prop where
  steady : n.Steady
  standing : n.Standing
  quiet : n.exchange.Quiet
  /-- No handler has a message. -/
  unwritten : ∀ q, n.exchange.pending q = []

/-- **What holds of a node that has just started.** -/
theorem begun_start {fresh : KeyPair} {config : Config} (h : Node.start fresh config = .ok n) :
    n.Begun := by
  have hstanding := standing_start h
  obtain ⟨key, services, addresses, -, -, -, hstart⟩ := start_eq_ok h
  obtain ⟨cs, hcs⟩ := ({ config, id := key.peerId, services } : Node).addContacts_eq addresses
  rw [hcs] at hstart
  have hopening := Opening.bare config key.peerId services cs
  have hsteady : ({ config, id := key.peerId, services, contacts := cs } : Node).Steady :=
    ⟨hopening.sound, hopening.relays,
      ⟨fun _ ht => absurd ht List.not_mem_nil, fun _ ht => absurd ht List.not_mem_nil⟩,
      fun _ hp => absurd hp List.not_mem_nil⟩
  have hjoined := hsteady.joinAll rfl config.topics
  have hquiet := hopening.joinAll config.topics
  have hunwritten : ∀ q, (config.topics.foldl Node.join
      ({ config, id := key.peerId, services, contacts := cs } : Node)).exchange.pending q = [] := by
    intro q
    refine List.flatMap_eq_nil_iff.2 fun t ht => ?_
    cases hw : t.work with
    | send | receive | listen => rfl
    | handle hd => exact absurd hw (hjoined.sound.no_handler hquiet.direct ht)
  rcases hstart with ⟨-, rfl⟩ | ⟨protocol, -, rfl⟩
  · exact ⟨hjoined, hstanding, hquiet.quiet, hunwritten⟩
  · exact ⟨hjoined.serving hquiet.direct protocol, hstanding, hquiet.quiet, hunwritten⟩

/-- What a node takes from its configuration. -/
structure Configured (fresh : KeyPair) (c : Config) (n : Node) : Prop where
  config : n.config = c
  identity : ∃ key, KeyPair.resolve fresh c.privateKey = .ok key ∧ n.id = key.peerId
  running : n.running = true
  topics : n.topics.map (·.name) = c.topics
  protocol : n.direct.map (·.protocol) = c.protocolName

theorem Configured.serves {fresh : KeyPair} {c : Config} (h : n.Configured fresh c)
    {protocol : String} (hprotocol : c.protocolName = some protocol) :
    n.serves protocol = true := by
  obtain ⟨d, hd, hname⟩ := Option.map_eq_some_iff.1 (h.protocol.trans hprotocol)
  simp [Node.serves, h.running, hd, hname]

theorem Configured.id_eq {fresh : KeyPair} {c : Config} (h : n.Configured fresh c)
    (hkey : c.privateKey = none) : n.id = fresh.peerId := by
  obtain ⟨key, hresolve, hid⟩ := h.identity
  rw [hkey] at hresolve
  rw [hid, ← Except.ok.inj hresolve]

/-- **A node that has started is what its configuration asks for.** -/
theorem configured_start {fresh : KeyPair} {config : Config}
    (h : Node.start fresh config = .ok n) : n.Configured fresh config := by
  obtain ⟨key, services, addresses, hkey, -, -, hstart⟩ := start_eq_ok h
  obtain ⟨cs, hcs⟩ := ({ config, id := key.peerId, services } : Node).addContacts_eq addresses
  obtain ⟨hconfig, hid, hdirect, hrunning, htopics⟩ := fields_joinAll
    ({ config, id := key.peerId, services, contacts := cs } : Node) config.topics
  rw [hcs] at hstart
  rcases hstart with ⟨hprotocol, rfl⟩ | ⟨protocol, hprotocol, rfl⟩
  · exact ⟨hconfig, ⟨key, hkey, hid⟩, hrunning, htopics, by rw [hdirect, hprotocol, Option.map_none]⟩
  · exact ⟨hconfig, ⟨key, hkey, hid⟩, hrunning, htopics, hprotocol.symm⟩

/-! ## Starting at all -/

/-- The protocol name of a valid configuration is a protocol. -/
theorem protocolOfName_of_validate {config : Config} {name : String}
    (h : config.validate = .ok ()) (hname : config.protocolName = some name) :
    Config.protocolOfName name = .ok name := by
  unfold Config.protocolOfName
  rw [if_pos]
  by_contra hslash
  simp only [Config.validate, bind, Except.bind, hname] at h
  split at h
  · cases h
  · split at h
    · cases h
    · rw [Bool.not_eq_true] at hslash
      simp [hslash, throw, throwThe, MonadExceptOf.throw] at h

theorem bootstrapAddresses_of_validate {config : Config} (h : config.validate = .ok ()) :
    ∃ addresses, config.bootstrapAddresses = .ok addresses := by
  cases hread : config.bootstrapAddresses with
  | ok addresses => exact ⟨addresses, rfl⟩
  | error e =>
    exfalso
    simp only [Config.validate, bind, Except.bind, hread] at h
    repeat' split at h
    all_goals cases h

/-- **A valid configuration whose key can be decoded starts a node.** -/
theorem exists_start {fresh : KeyPair} {config : Config} (hvalid : config.validate = .ok ())
    (hkey : ∃ key, KeyPair.resolve fresh config.privateKey = .ok key)
    (hlisten : ∃ address, config.listenMultiaddr = .ok address) :
    ∃ n, Node.start fresh config = .ok n := by
  obtain ⟨key, hkey⟩ := hkey
  obtain ⟨address, hlisten⟩ := hlisten
  obtain ⟨addresses, hread⟩ := bootstrapAddresses_of_validate hvalid
  cases hprotocol : config.protocolName with
  | none =>
    simp only [Node.start, Services.ofConfig, bind, Except.bind, pure, Except.pure, hvalid, hkey,
      hlisten, hread, hprotocol]
    exact ⟨_, rfl⟩
  | some name =>
    have hname := protocolOfName_of_validate hvalid hprotocol
    simp only [Node.start, Services.ofConfig, bind, Except.bind, pure, Except.pure, hvalid, hkey,
      hlisten, hread, hprotocol, hname, Option.isSome_some, if_true]
    refine ⟨_, register_of_none ?_ (Eq.trans ?_ hprotocol)⟩
    · rw [(fields_joinAll _ _).2.2.1]
      obtain ⟨cs, hcs⟩ := Node.addContacts_eq _ addresses
      rw [hcs]
    · rw [(fields_joinAll _ _).1]
      obtain ⟨cs, hcs⟩ := Node.addContacts_eq _ addresses
      rw [hcs]

end Node
end PeerNode
