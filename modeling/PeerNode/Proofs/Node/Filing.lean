import PeerNode.Proofs.Config.Listening
import PeerNode.Proofs.Node.Beginning

/-!
# Under whom the addresses of a configuration are filed

An address names the peers on the way, the last of which is the one that it leads to.  A node files
an address under the first peer that it names.  Of an address through a relay this is the relay, and
since the address ends in another peer it is not filed at all; so nothing is known of the peer
behind the relay, although the address leads there.

Whatever is filed leads to the peer under which it is filed, and names this peer first.

* `Multiaddr.lastPeer?`: the peer that an address leads to.
* `Node.filing?`: what is filed of an address.
* `Node.contacts_start`: all that a node has filed when it starts.
* `Node.start_files_under_first`: under whom the addresses of a configuration are filed.
-/

namespace PeerNode

/-! ## The peers that an address names -/

theorem Component.peer?_eq_some_iff {component : Component} {id : PeerId} :
    component.peer? = some id ↔ component = .p2p id := by
  cases component <;> simp [Component.peer?]

namespace Multiaddr

variable {address before after : Multiaddr} {peer : PeerId}

/-- The peer that an address leads to: the last one that it names. -/
def lastPeer? (m : Multiaddr) : Option PeerId := m.peers.getLast?

theorem peers_append (m m' : Multiaddr) : peers (m ++ m') = peers m ++ peers m' :=
  List.filterMap_append

theorem mem_peers : peer ∈ peers address ↔ .p2p peer ∈ address := by
  simp only [peers, List.mem_filterMap, Component.peer?_eq_some_iff, exists_eq_right]

theorem peers_eq_nil_iff : peers address = [] ↔ ∀ id, .p2p id ∉ address := by
  rw [List.eq_nil_iff_forall_not_mem]
  exact forall_congr' fun id => not_congr mem_peers

theorem peer?_eq_none_iff : peer? address = none ↔ ∀ id, .p2p id ∉ address := by
  rw [peer?, List.head?_eq_none_iff, peers_eq_nil_iff]

theorem peer?_of_first (h : ∀ id, .p2p id ∉ before) :
    peer? (before ++ .p2p peer :: after) = some peer := by
  rw [peer?, peers_append, peers_eq_nil_iff.2 h]
  rfl

theorem peers_first (before after : Multiaddr) (peer : PeerId) :
    peers (before ++ .p2p peer :: after) = peers before ++ peer :: peers after := by
  rw [peers_append]
  rfl

theorem lastPeer?_of_last (h : ∀ id, .p2p id ∉ after) :
    lastPeer? (before ++ .p2p peer :: after) = some peer := by
  rw [lastPeer?, peers_first, peers_eq_nil_iff.2 h, List.getLast?_concat]

/-- The peer that an address leads to is one behind which it names nobody. -/
theorem lastPeer?_eq_some_iff : lastPeer? address = some peer ↔
    ∃ before after, address = before ++ .p2p peer :: after ∧ ∀ id, .p2p id ∉ after := by
  constructor
  · intro h
    rw [lastPeer?, peers, List.getLast?_filterMap, List.findSome?_eq_some_iff] at h
    obtain ⟨after, component, before, hreverse, hpeer, hafter⟩ := h
    obtain rfl := Component.peer?_eq_some_iff.1 hpeer
    refine ⟨before.reverse, after.reverse, ?_, fun id hid => ?_⟩
    · rw [← List.reverse_reverse address, hreverse]
      simp
    · cases hafter _ (List.mem_reverse.1 hid)
  · rintro ⟨before, after, rfl, hafter⟩
    exact lastPeer?_of_last hafter

/-- An address leads to the first peer that it names exactly if it leads to no other one behind. -/
theorem lastPeer?_eq_first_iff : lastPeer? (before ++ .p2p peer :: after) = some peer ↔
    ∀ last, lastPeer? after = some last → last = peer := by
  rw [lastPeer?, lastPeer?, peers_first, List.getLast?_append, List.getLast?_cons]
  cases (peers after).getLast? <;> simp [eq_comm]

end Multiaddr

namespace Config

/-- The addresses that are read are those of the texts. -/
theorem mem_bootstrapAddresses {c : Config} {addresses : List Multiaddr}
    (h : c.bootstrapAddresses = .ok addresses) {address : Multiaddr} :
    address ∈ addresses ↔ ∃ text ∈ c.bootstrapPeers, Multiaddr.read text = .ok address := by
  rw [bootstrapAddresses] at h
  generalize c.bootstrapPeers = texts at h
  induction texts generalizing addresses with
  | nil =>
    obtain rfl : [] = addresses := Except.ok.inj h
    simp
  | cons text texts ih =>
    rw [List.mapM_cons, bootstrapAddress] at h
    cases hread : Multiaddr.read text with
    | error fault =>
      rw [hread] at h
      cases h
    | ok first =>
      cases hrest : texts.mapM bootstrapAddress with
      | error e =>
        rw [hread, hrest] at h
        cases h
      | ok rest =>
        rw [hread, hrest] at h
        obtain rfl : first :: rest = addresses := Except.ok.inj h
        simp [ih hrest, hread, eq_comm (a := address)]

end Config

namespace Node

open Multiaddr

variable {n : Node} {fresh : KeyPair} {c : Config} {id peer : PeerId}
  {address complete : Multiaddr} {addresses : List Multiaddr}

/-! ## What is filed -/

/-- What a node with some identity files of an address: the peer that it names first, and the
address with this peer at its end. -/
def filing? (id : PeerId) (address : Multiaddr) : Option (PeerId × Multiaddr) :=
  (peer? address).bind fun peer =>
    if peer = id then none else (completed? peer address).map fun complete => (peer, complete)

theorem filing?_eq_some_iff : filing? id address = some (peer, complete) ↔
    peer ≠ id ∧ peer? address = some peer ∧ completed? peer address = some complete := by
  rw [filing?, Option.bind_eq_some_iff]
  constructor
  · rintro ⟨peer', hpeer, h⟩
    split at h
    · cases h
    · rename_i hother
      obtain ⟨complete', hcomplete, heq⟩ := Option.map_eq_some_iff.1 h
      cases heq
      exact ⟨hother, hpeer, hcomplete⟩
  · rintro ⟨hother, hpeer, hcomplete⟩
    exact ⟨peer, hpeer, by rw [if_neg hother, hcomplete]; rfl⟩

theorem peer?_completed (hpeer : peer? address = some peer)
    (h : completed? peer address = some complete) : peer? complete = some peer := by
  unfold completed? at h
  split at h
  · split at h
    · rwa [← Option.some.inj h]
    · cases h
  · rw [← Option.some.inj h, peer?, peers_append, List.head?_append, ← peer?, hpeer]
    rfl

/-- A completed address leads to the peer for whom it was completed. -/
theorem lastPeer?_completed (h : completed? peer address = some complete) :
    lastPeer? complete = some peer := by
  unfold completed? at h
  split at h
  · rename_i last hlast
    split at h
    · rename_i he
      obtain ⟨before, rfl⟩ := List.getLast?_eq_some_iff.1 hlast
      rw [← Option.some.inj h, he]
      exact lastPeer?_of_last fun id => List.not_mem_nil
    · cases h
  · rw [← Option.some.inj h]
    exact lastPeer?_of_last fun id => List.not_mem_nil

/-- An element more, unless it is there. -/
theorem eraseDups_concat {α : Type} [BEq α] [LawfulBEq α] (xs : List α) (x : α) :
    (xs ++ [x]).eraseDups =
      if xs.eraseDups.contains x then xs.eraseDups else xs.eraseDups ++ [x] := by
  rw [List.eraseDups_append]
  by_cases h : x ∈ xs <;> simp [List.removeAll, List.eraseDups_cons, h]

/-- The node that files an address under the peer that it names first. -/
def addFirst (n : Node) (address : Multiaddr) : Node :=
  match peer? address with
  | some peer => n.addContact peer address
  | none => n

/-- The contacts of a node that files one address more. -/
theorem contacts_addFirst (n : Node) (address : Multiaddr) :
    (n.addFirst address).contacts =
      match filing? n.id address with
      | some p => if n.contacts.contains p then n.contacts else n.contacts ++ [p]
      | none => n.contacts := by
  rw [addFirst, filing?]
  cases peer? address with
  | none => rfl
  | some peer =>
    simp only [Option.bind_some, addContact]
    split
    · rfl
    · cases completed? peer address with
      | none => rfl
      | some complete =>
        simp only [Option.map_some]
        split <;> rfl

theorem id_addFirst (n : Node) (address : Multiaddr) : (n.addFirst address).id = n.id := by
  unfold addFirst
  split
  · rename_i peer _
    obtain ⟨cs, hcs⟩ := n.addContact_eq peer address
    rw [hcs]
  · rfl

/-- **All that is filed of addresses**, in their order. -/
theorem contacts_addContacts (hnone : n.contacts = []) (addresses : List Multiaddr) :
    (n.addContacts addresses).contacts =
      if n.services.kad then (addresses.filterMap (filing? n.id)).eraseDups else [] := by
  have hall : (addresses.foldl addFirst n).id = n.id ∧
      (addresses.foldl addFirst n).contacts =
        (addresses.filterMap (filing? n.id)).eraseDups := by
    induction addresses using List.reverseRecOn with
    | nil => exact ⟨rfl, hnone⟩
    | append_singleton addresses address ih =>
      obtain ⟨hid, hcontacts⟩ := ih
      rw [List.foldl_concat, id_addFirst, contacts_addFirst, hid, hcontacts, List.filterMap_append]
      refine ⟨rfl, ?_⟩
      cases hfiled : filing? n.id address with
      | none => simp [hfiled]
      | some p => rw [List.filterMap_cons_some hfiled, List.filterMap_nil, eraseDups_concat]
  change (if n.services.kad then addresses.foldl addFirst n else n).contacts = _
  split
  · exact hall.2
  · exact hnone

theorem kad_ofConfig {services : Services} (h : Services.ofConfig c = .ok services) :
    services.kad = c.enableKad := by
  cases hprotocol : c.protocolName with
  | none =>
    simp only [Services.ofConfig, hprotocol, pure, Except.pure, Except.ok.injEq] at h
    rw [← h]
  | some name =>
    simp only [Services.ofConfig, hprotocol, bind, Except.bind, pure, Except.pure] at h
    split at h
    · cases h
    · rw [← Except.ok.inj h]

theorem contacts_joinAll (n : Node) (topics : List String) :
    (topics.foldl Node.join n).contacts = n.contacts := by
  induction topics generalizing n with
  | nil => rfl
  | cons topic topics ih =>
    rw [List.foldl_cons, ih, Node.join]
    exact ((n.addQueue 0).alike_subscribe topic).contacts

theorem services_joinAll (n : Node) (topics : List String) :
    (topics.foldl Node.join n).services = n.services := by
  induction topics generalizing n with
  | nil => rfl
  | cons topic topics ih =>
    rw [List.foldl_cons, ih, Node.join]
    exact ((n.addQueue 0).alike_subscribe topic).services

/-- Serving direct messages leaves alone what a node has from its addresses and its topics. -/
theorem start_joined (h : Node.start fresh c = .ok n)
    (haddresses : c.bootstrapAddresses = .ok addresses) :
    ∃ id services, services.kad = c.enableKad ∧
      let opened := ({ config := c, id, services } : Node).addContacts addresses
      n.id = id ∧ n.services = services ∧ n.contacts = opened.contacts ∧
        n.subscriptions = (c.topics.foldl join opened).subscriptions := by
  obtain ⟨key, services, addresses', -, hservices, haddresses', hstart⟩ := start_eq_ok h
  obtain rfl := Except.ok.inj (haddresses.symm.trans haddresses')
  refine ⟨key.peerId, services, kad_ofConfig hservices, ?_⟩
  intro opened
  obtain ⟨cs, hcs⟩ : ∃ cs, opened = { config := c, id := key.peerId, services, contacts := cs } :=
    ({ config := c, id := key.peerId, services } : Node).addContacts_eq addresses
  have hid : (c.topics.foldl join opened).id = key.peerId :=
    (fields_joinAll opened c.topics).2.1.trans (by rw [hcs])
  have hkept : (c.topics.foldl join opened).services = services :=
    (opened.services_joinAll c.topics).trans (by rw [hcs])
  rcases hstart with ⟨-, rfl⟩ | ⟨protocol, -, rfl⟩
  all_goals exact ⟨hid, hkept, opened.contacts_joinAll c.topics, rfl⟩

/-- **All that a node has filed when it starts.** -/
theorem contacts_start (h : Node.start fresh c = .ok n)
    (haddresses : c.bootstrapAddresses = .ok addresses) :
    n.contacts = if c.enableKad then (addresses.filterMap (filing? n.id)).eraseDups else [] := by
  obtain ⟨id, services, hkad, rfl, -, hcontacts, -⟩ := start_joined h haddresses
  rw [hcontacts, contacts_addContacts rfl, hkad]

/-- All that a node has filed when it starts, in terms of its configuration. -/
theorem mem_contacts_start (h : Node.start fresh c = .ok n) : (peer, complete) ∈ n.contacts ↔
    c.enableKad = true ∧ peer ≠ n.id ∧ ∃ text ∈ c.bootstrapPeers, ∃ address,
      Multiaddr.read text = .ok address ∧ peer? address = some peer ∧
      completed? peer address = some complete := by
  obtain ⟨-, -, addresses, -, -, haddresses, -⟩ := start_eq_ok h
  rw [contacts_start h haddresses]
  cases hkad : c.enableKad with
  | false => simp
  | true =>
    simp only [if_true, List.mem_eraseDups, List.mem_filterMap, filing?_eq_some_iff,
      Config.mem_bootstrapAddresses haddresses, true_and]
    constructor
    · rintro ⟨address, ⟨text, htext, hread⟩, hother, hfiled⟩
      exact ⟨hother, text, htext, address, hread, hfiled⟩
    · rintro ⟨hother, text, htext, address, hread, hfiled⟩
      exact ⟨address, ⟨text, htext, hread⟩, hother, hfiled⟩

/-- **Under whom an address of a configuration is filed.**  The peer under which it is filed is the
first that it names, and there is none only if it names nobody.  It is the peer that the address
leads to exactly if the address leads to no other one behind it.

A node that has started has filed of each address in its configuration, if it files any at all, the
address under the first peer that it names, unless this is the node itself or the address ends in
another peer.  So an address whose first peer is not the one that it leads to is not among those
that are filed. -/
theorem start_files_under_first (address : Multiaddr) :
    (peer? address = none ↔ ∀ id, .p2p id ∉ address) ∧
    (∀ last, lastPeer? address = some last ↔
      ∃ before after, address = before ++ .p2p last :: after ∧ ∀ id, .p2p id ∉ after) ∧
    (∀ (before after : Multiaddr) (first : PeerId), address = before ++ .p2p first :: after →
      (∀ id, .p2p id ∉ before) →
        peer? address = some first ∧
        (peer? address = lastPeer? address ↔
          ∀ last, lastPeer? after = some last → last = first)) ∧
    ∀ (fresh : KeyPair) (c : Config) (n : Node), Node.start fresh c = .ok n →
      (∀ (peer : PeerId) (complete : Multiaddr), (peer, complete) ∈ n.contacts ↔
        c.enableKad = true ∧ peer ≠ n.id ∧ ∃ text ∈ c.bootstrapPeers, ∃ given,
          Multiaddr.read text = .ok given ∧ peer? given = some peer ∧
          completed? peer given = some complete) ∧
      (peer? address ≠ lastPeer? address → ∀ peer, (peer, address) ∉ n.contacts) := by
  refine ⟨peer?_eq_none_iff, fun last => lastPeer?_eq_some_iff, ?_, fun fresh c n hstart =>
    ⟨fun peer complete => mem_contacts_start hstart, fun hother peer hp => ?_⟩⟩
  · rintro before after first rfl hbefore
    have hfirst : peer? (before ++ .p2p first :: after) = some first := peer?_of_first hbefore
    refine ⟨hfirst, ?_⟩
    rw [hfirst, eq_comm, lastPeer?_eq_first_iff]
  · -- what is filed names the peer first in which it ends
    obtain ⟨-, -, text, -, given, -, hpeer, hcomplete⟩ := (mem_contacts_start hstart).1 hp
    have hlast := lastPeer?_completed hcomplete
    exact hother ((peer?_completed hpeer hcomplete).trans hlast.symm)

/-- An address through a relay, of which a node that starts from it files nothing. -/
theorem start_files_under_first_relayed : ∃ n address relay target,
    Multiaddr.read "/ip4/1.2.3.4/tcp/1/p2p/11/p2p-circuit/p2p/15W" = .ok address ∧
    peer? address = some relay ∧ lastPeer? address = some target ∧ relay ≠ target ∧
    Node.start (.ofSeed [])
      { bootstrapPeers := ["/ip4/1.2.3.4/tcp/1/p2p/11/p2p-circuit/p2p/15W"] } = .ok n ∧
    n.contacts = [] := by
  let c : Config := { bootstrapPeers := ["/ip4/1.2.3.4/tcp/1/p2p/11/p2p-circuit/p2p/15W"] }
  let relay : PeerId := ⟨⟨0, []⟩, by decide⟩
  let target : PeerId := ⟨⟨0, [5]⟩, by decide⟩
  let address : Multiaddr :=
    [.ip4 ⟨1, 2, 3, 4⟩, .port .tcp 1, .p2p relay, .bare .p2pCircuit, .p2p target]
  have hread : Multiaddr.read "/ip4/1.2.3.4/tcp/1/p2p/11/p2p-circuit/p2p/15W" = .ok address := by
    decide +kernel
  have hstarts : ∃ n, Node.start (.ofSeed []) c = .ok n :=
    exists_start (by decide +kernel) ⟨_, rfl⟩ ⟨_, c.listenMultiaddr_eq⟩
  obtain ⟨n, hn⟩ := hstarts
  obtain ⟨-, hlasts, hnames, hstarted⟩ := start_files_under_first address
  have hfirst := (hnames [.ip4 ⟨1, 2, 3, 4⟩, .port .tcp 1] [.bare .p2pCircuit, .p2p target] relay
    rfl (by simp)).1
  have hlast := (hlasts target).2
    ⟨[.ip4 ⟨1, 2, 3, 4⟩, .port .tcp 1, .p2p relay, .bare .p2pCircuit], [], rfl, by simp⟩
  obtain ⟨hmem, -⟩ := hstarted (.ofSeed []) c n hn
  refine ⟨n, address, relay, target, hread, hfirst, hlast, by decide, hn, ?_⟩
  rw [List.eq_nil_iff_forall_not_mem]
  rintro ⟨peer, complete⟩ hp
  obtain ⟨-, -, text, htext, given, hgiven, hpeer, hcomplete⟩ := (hmem peer complete).1 hp
  obtain rfl := List.mem_singleton.1 htext
  obtain rfl := Except.ok.inj (hread.symm.trans hgiven)
  obtain rfl := Option.some.inj (hfirst.symm.trans hpeer)
  cases hcomplete

end Node
end PeerNode
