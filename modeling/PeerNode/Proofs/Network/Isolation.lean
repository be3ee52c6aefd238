import PeerNode.Network.Loopback
import PeerNode.Proofs.Network.Requests
import PeerNode.Proofs.Node.Isolation

/-!
# Topics and direct messages are kept apart

Whatever arrives on one topic, and whether anybody receives from it, cannot be noticed elsewhere:
not on another topic, not among the direct messages, and not by what nodes are asked.  The same
holds for the direct messages of a node.  So let some lanes be hidden, and leave out of a history
all that is done on them.  What remains, with its replies, does not depend on what was left out
(`lanes_are_isolated`).

A host might make it known what is published on a hidden topic, for instance by cutting connections.
That it does not is the one thing that is asked of it here (`Host.Discreet`).  Its states need not
be the same after a publication, only such that it answers the same to everything from then on.

The proof follows two histories side by side.  Two networks are kin (`Kin`) if their hosts are in
such states and each node of one is like that of the other.  What is done on a hidden lane of one
network leaves it kin to the network before (`kin_act`).  What is done elsewhere is done in both,
gets the same reply and leaves kin networks (`Kin.act`).

* `Host.Discreet`, `discreet_loopback`: hosts that do not tell of hidden topics.
* `lane?`: the lane of an action; `observed`: a history without what is done on hidden lanes.
* `Kin`: networks that differ only on hidden lanes.
* `kin_act`, `Kin.act`: what is done on hidden lanes, and elsewhere.
* `lanes_are_isolated`: what is hidden cannot be noticed.
-/

namespace PeerNode

variable {H : Host} {hidden : Lane → Bool} {same : H.State → H.State → Prop} {n m : Node}
  {net net' net'' net₁ net₁' : Network H} {i j : Nat} {a : Action H}

/-- A host that does not tell what is published on hidden topics.  Some states are the same to all
who ask: whatever is done in two of them gets the same answers and leads to two such states.  A
publication on a hidden topic leads to such a state. -/
structure Host.Discreet (H : Host) (hidden : Lane → Bool) (same : H.State → H.State → Prop) :
    Prop where
  equivalence : Equivalence same
  conceals : ∀ s nodes i topic data, hidden (.topic topic) = true →
    same (H.publish s nodes i topic data).1 s
  react : ∀ s s' nodes e, same s s' → same (H.react s nodes e) (H.react s' nodes e)
  enter : ∀ s s' nodes i addresses, same s s' →
    same (H.enter s nodes i addresses) (H.enter s' nodes i addresses)
  leave : ∀ s s' nodes i, same s s' → same (H.leave s nodes i) (H.leave s' nodes i)
  publish : ∀ s s' nodes i topic data, same s s' →
    same (H.publish s nodes i topic data).1 (H.publish s' nodes i topic data).1 ∧
      (H.publish s nodes i topic data).2 = (H.publish s' nodes i topic data).2
  send : ∀ s s' nodes i peer octets, same s s' →
    same (H.send s nodes i peer octets).1 (H.send s' nodes i peer octets).1 ∧
      (H.send s nodes i peer octets).2 = (H.send s' nodes i peer octets).2
  search : ∀ s s' nodes i, same s s' → same (H.search s nodes i).1 (H.search s' nodes i).1 ∧
    (H.search s nodes i).2 = (H.search s' nodes i).2
  connected : ∀ s s' nodes i, same s s' → H.connected s nodes i = H.connected s' nodes i
  listeners : ∀ s s' nodes i, same s s' → H.listeners s nodes i = H.listeners s' nodes i
  subscribers : ∀ s s' nodes i topic, same s s' →
    H.subscribers s nodes i topic = H.subscribers s' nodes i topic

/-- **The host of one machine tells nobody**: nothing changes by a publication. -/
theorem discreet_loopback (hidden : Lane → Bool) : loopback.Discreet hidden (· = ·) where
  equivalence := ⟨fun _ => rfl, Eq.symm, Eq.trans⟩
  conceals := by
    intro s nodes i topic data _
    change (Loopback.State.publish s nodes i topic data).1 = s
    unfold Loopback.State.publish
    split <;> rfl
  react := by
    rintro s _ nodes e rfl
    rfl
  enter := by
    rintro s _ nodes i addresses rfl
    rfl
  leave := by
    rintro s _ nodes i rfl
    rfl
  publish := by
    rintro s _ nodes i topic data rfl
    exact ⟨rfl, rfl⟩
  send := by
    rintro s _ nodes i peer octets rfl
    exact ⟨rfl, rfl⟩
  search := by
    rintro s _ nodes i rfl
    exact ⟨rfl, rfl⟩
  connected := by
    rintro s _ nodes i rfl
    rfl
  listeners := by
    rintro s _ nodes i rfl
    rfl
  subscribers := by
    rintro s _ nodes i topic rfl
    rfl

namespace Node

/-- Two states of the node at a position, at rest, that differ only on hidden lanes. -/
structure Kin (hidden : Lane → Bool) (i : Nat) (n m : Node) : Prop where
  left : n.Rested
  right : m.Rested
  like : Like hidden i n m

theorem Kin.symm (h : Kin hidden i n m) : Kin hidden i m n := ⟨h.right, h.left, h.like.symm⟩

theorem Kin.trans {k : Node} (h : Kin hidden i n m) (h' : Kin hidden i m k) : Kin hidden i n k :=
  ⟨h.left, h'.right, h.like.trans h'.like⟩

theorem Like.profile (h : Like hidden i n m) : n.profile = m.profile :=
  show n.face.profile = m.face.profile from congrArg Node.profile h.face

end Node

namespace Network

/-! ## What is done on a lane -/

/-- The lane on which a message arrives, is published or is received.  A send is on the lane of the
peer to whom it goes if it changes nothing; one that does, by making a connection, is on none. -/
def lane? (same : H.State → H.State → Prop) [DecidableRel same] (net : Network H) :
    Action H → Option Lane
  | .publish _ topic _ => some (.topic topic)
  | .publishPrimary i _ =>
    (net.nodes[i]?.bind (·.topics.head?)).map fun topic => .topic topic.name
  | .bring _ _ _ topic _ => some (.topic topic)
  | .receiveStream i _ _ => some (.direct i)
  | .receive i .direct => some (.direct i)
  | .receive i (.topic k) => net.nodes[i]?.bind fun n => n.lane? i (.topic k)
  | .sendFrom i recipient payload => sending? (.sendFrom i recipient payload)
  | .sendTo i recipient payload => sending? (.sendTo i recipient payload)
  | .sendRaw i recipient octets => sending? (.sendRaw i recipient octets)
  | .start .. | .stop _ | .subscribeAndDrop .. | .register _ | .connectedPeers _ | .topicPeers ..
  | .listenAddresses _ | .discover _ | .react _ => none
where
  /-- The direct messages of the peer to whom something is sent. -/
  sending? (a : Action H) : Option Lane :=
    if same (net.act a).1.state net.state then
      a.sends?.bind fun (_, peer, _) => (net.nodes.findIdx? (·.id == peer)).map .direct
    else none

/-- What is done elsewhere than on hidden lanes, with its replies. -/
def observed (same : H.State → H.State → Prop) [DecidableRel same] (hidden : Lane → Bool)
    (net : Network H) : List (Action H) → List (Action H × Reply)
  | [] => []
  | a :: rest =>
    if (net.lane? same a).any hidden then (net.act a).1.observed same hidden rest
    else (a, (net.act a).2) :: (net.act a).1.observed same hidden rest

/-! ## Networks that differ only on hidden lanes -/

/-- Two networks at rest that differ only on hidden lanes. -/
structure Kin (same : H.State → H.State → Prop) (hidden : Lane → Bool) (net net' : Network H) :
    Prop where
  state : same net.state net'.state
  length : net.nodes.length = net'.nodes.length
  node : ∀ (i : Nat) (n m : Node), net.nodes[i]? = some n → net'.nodes[i]? = some m →
    Node.Kin hidden i n m

namespace Kin

theorem symm (hH : H.Discreet hidden same) (h : Kin same hidden net net') :
    Kin same hidden net' net :=
  ⟨hH.equivalence.symm h.state, h.length.symm, fun i n m hn hm => (h.node i m n hm hn).symm⟩

theorem exists_node (h : Kin same hidden net net') (hn : net.nodes[i]? = some n) :
    ∃ m, net'.nodes[i]? = some m ∧ Node.Kin hidden i n m := by
  have hlt := (List.getElem?_eq_some_iff.1 hn).1
  rw [h.length] at hlt
  exact ⟨_, List.getElem?_eq_getElem hlt, h.node i n _ hn (List.getElem?_eq_getElem hlt)⟩

theorem trans (hH : H.Discreet hidden same) (h : Kin same hidden net net')
    (h' : Kin same hidden net' net'') : Kin same hidden net net'' := by
  refine ⟨hH.equivalence.trans h.state h'.state, h.length.trans h'.length, fun i n k hn hk => ?_⟩
  obtain ⟨m, hm, hkin⟩ := h.exists_node hn
  exact hkin.trans (h'.node i m k hm hk)

theorem getElem_face (h : Kin same hidden net net') (i : Nat) :
    net.nodes[i]?.map Node.face = net'.nodes[i]?.map Node.face := by
  cases hn : net.nodes[i]? with
  | none =>
    rw [List.getElem?_eq_none_iff, h.length, ← List.getElem?_eq_none_iff] at hn
    rw [hn]
  | some n =>
    obtain ⟨m, hm, hkin⟩ := h.exists_node hn
    rw [hm, Option.map_some, Option.map_some, hkin.like.face]

theorem bind_face {α : Type} (h : Kin same hidden net net') (i : Nat) {f : Node → Option α}
    (hf : ∀ n : Node, f n.face = f n) : net.nodes[i]?.bind f = net'.nodes[i]?.bind f := by
  have hsame := congrArg (Option.bind · f) (h.getElem_face i)
  simpa only [Option.bind_map, Function.comp_def, hf] using hsame

theorem profiles (h : Kin same hidden net net') : net.profiles = net'.profiles := by
  refine List.ext_getElem? fun i => ?_
  have hsame := congrArg (Option.map Node.profile) (h.getElem_face i)
  rw [Option.map_map, Option.map_map] at hsame
  rw [Network.profiles, Network.profiles, List.getElem?_map, List.getElem?_map]
  exact hsame

theorem of_nodes (h : Kin same hidden net net') (hnodes : net₁.nodes = net.nodes)
    (hnodes' : net₁'.nodes = net'.nodes) (hstate : same net₁.state net₁'.state) :
    Kin same hidden net₁ net₁' := by
  refine ⟨hstate, by rw [hnodes, hnodes', h.length], fun i n m hn hm => ?_⟩
  rw [hnodes] at hn
  rw [hnodes'] at hm
  exact h.node i n m hn hm

/-- What is done to one node of each network. -/
theorem onNode (h : Kin same hidden net net') {f g : Node → Node}
    (hf : ∀ n m : Node, net.nodes[i]? = some n → net'.nodes[i]? = some m →
      Node.Kin hidden i n m → Node.Kin hidden i (f n) (g m)) :
    Kin same hidden (net.onNode i f) (net'.onNode i g) := by
  refine ⟨h.state, ?_, fun j n m hn hm => ?_⟩
  · rw [Network.onNode, Network.onNode, List.length_modify, List.length_modify, h.length]
  · rw [getElem_onNode] at hn hm
    obtain ⟨n, hn', rfl⟩ := Option.map_eq_some_iff.1 hn
    obtain ⟨m, hm', rfl⟩ := Option.map_eq_some_iff.1 hm
    have hkin := h.node j n m hn' hm'
    split
    · rename_i hij
      subst hij
      exact hf n m hn' hm' hkin
    · exact hkin

theorem onNode_left (h : Kin same hidden net net) {f : Node → Node}
    (hf : ∀ n : Node, net.nodes[i]? = some n → Node.Kin hidden i n n →
      Node.Kin hidden i (f n) n) : Kin same hidden (net.onNode i f) net := by
  have hid : net.onNode i id = net := by rw [Network.onNode, List.modify_id]
  have hkin := h.onNode (i := i) (f := f) (g := id) fun n m hn hm _ => by
    obtain rfl := Option.some.inj (hn.symm.trans hm)
    exact hf n hn (h.node i n n hn hn)
  rwa [hid] at hkin

end Kin

/-! ## What is done on a hidden lane -/

/-- **A publication on a hidden topic** leaves a network kin to what it was. -/
theorem kin_publish (hH : H.Discreet hidden same) (h : Kin same hidden net net) {topic : String}
    (hs : hidden (.topic topic) = true) (i : Nat) (data : Bytes) :
    Kin same hidden (net.publish i topic data).1 net := by
  refine h.of_nodes (net.nodes_publish i topic data) rfl ?_
  unfold publish
  rcases net.request_cases i _ with he | ⟨k, -, -, he⟩ <;> rw [he]
  · exact hH.equivalence.refl _
  · split
    · exact hH.equivalence.refl _
    · exact hH.conceals _ _ _ _ _ hs

/-- **What is done on a hidden lane leaves a network kin to what it was.** -/
theorem kin_act [DecidableRel same] (hH : H.Discreet hidden same) (h : Kin same hidden net net)
    {lane : Lane} (hlane : net.lane? same a = some lane) (hs : hidden lane = true) :
    Kin same hidden (net.act a).1 net := by
  have hsends : ∀ {b : Action H}, lane?.sending? same net b = some lane →
      same (net.act b).1.state net.state := by
    intro b hb
    unfold lane?.sending? at hb
    split at hb
    · assumption
    · cases hb
  cases a with
  | publish i topic data =>
    obtain rfl := Option.some.inj hlane
    exact kin_publish hH h hs i data
  | publishPrimary i data =>
    obtain ⟨topic, htopic, rfl⟩ := Option.map_eq_some_iff.1 hlane
    simp only [act, publishPrimary, htopic]
    exact kin_publish hH h hs i data
  | bring i via author topic data =>
    obtain rfl := Option.some.inj hlane
    exact h.onNode_left fun n _ hkin => ⟨hkin.left.hear _ _ _, hkin.left,
      (Node.like_hear hkin.left hs _ _).symm⟩
  | receiveStream i sender octets =>
    obtain rfl := Option.some.inj hlane
    refine h.onNode_left fun n _ hkin => ?_
    split
    · rename_i hr
      exact ⟨hkin.left.handleStream hr _ _, hkin.left,
        (Node.like_handleStream hkin.left hr hs _ _).symm⟩
    · exact hkin
  | receive i inbox =>
    simp only [act, receive]
    split
    · rename_i q hq
      obtain ⟨n, hn, hq⟩ := Option.bind_eq_some_iff.1 hq
      have hlane' : n.lane? i inbox = some lane := by
        cases inbox with
        | topic k => simpa only [lane?, hn, Option.bind_some] using hlane
        | direct => exact hlane
      simp only [receiveFrom, hn]
      refine h.onNode_left fun n' hn' hkin => ?_
      obtain rfl := Option.some.inj (hn.symm.trans hn')
      exact ⟨hkin.left.take (Node.mem_queues_of_queue? hq), hkin.left,
        (Node.like_take hkin.left hq hlane' hs).symm⟩
    · exact h
  | sendFrom i recipient payload =>
    exact h.of_nodes (net.nodes_sendFrom i recipient payload) rfl (hsends hlane)
  | sendTo i recipient payload =>
    exact h.of_nodes (net.nodes_sendTo i recipient payload) rfl (hsends hlane)
  | sendRaw i recipient octets =>
    exact h.of_nodes (net.nodes_sendRaw i recipient octets) rfl (hsends hlane)
  | start | stop | subscribeAndDrop | register | connectedPeers | topicPeers | listenAddresses
  | discover | react => cases hlane

/-! ## What is done elsewhere -/

/-- Networks that are kin, and the same answer. -/
structure Agree {α : Type} (same : H.State → H.State → Prop) (hidden : Lane → Bool)
    (r r' : Network H × α) : Prop where
  answer : r.2 = r'.2
  kin : Kin same hidden r.1 r'.1

theorem Agree.replying {α : Type} {r r' : Network H × Except NodeError α}
    (h : Agree same hidden r r') (f : α → Reply) :
    Agree same hidden (replying f r) (replying f r') :=
  ⟨congrArg (Reply.ofResult f) h.answer, h.kin⟩

/-- Subscribing and giving the subscription up is one change of a node. -/
theorem subscribeAndDrop_eq (net : Network H) (i : Nat) (topic : String) :
    net.subscribeAndDrop i topic = net.request i fun n =>
      (net.onNode i fun k => (k.subscribe topic).1.abandon (n.subscribe topic).2, .ok ()) := by
  unfold subscribeAndDrop subscribe Network.request
  cases net.nodes[i]? with
  | none => rfl
  | some n =>
    cases hr : n.running with
    | false => simp only [hr, Bool.false_eq_true, if_false]
    | true =>
      simp only [hr, if_true, onNode, List.modify_modify_eq]
      rfl

namespace Kin

/-- What kin networks are asked for. -/
theorem request {α : Type} (h : Kin same hidden net net')
    {f g : Node → Network H × Except NodeError α}
    (hfg : ∀ n m : Node, net.nodes[i]? = some n → net'.nodes[i]? = some m → n.running = true →
      Node.Kin hidden i n m → Agree same hidden (f n) (g m)) :
    Agree same hidden (net.request i f) (net'.request i g) := by
  unfold Network.request
  cases hn : net.nodes[i]? with
  | none =>
    rw [List.getElem?_eq_none_iff, h.length, ← List.getElem?_eq_none_iff] at hn
    rw [hn]
    exact ⟨rfl, h⟩
  | some n =>
    obtain ⟨m, hm, hkin⟩ := h.exists_node hn
    rw [hm]
    simp only [hkin.like.running]
    split
    · rename_i hr
      exact hfg n m hn hm hr hkin
    · exact ⟨rfl, h⟩

/-- **A publication on a topic that is not hidden.** -/
theorem publish (hH : H.Discreet hidden same) (h : Kin same hidden net net') {topic : String}
    (hs : hidden (.topic topic) = false) (i : Nat) (data : Bytes) :
    Agree same hidden (net.publish i topic data) (net'.publish i topic data) := by
  refine h.request fun n m _ _ _ hkin => ?_
  simp only [← hkin.like.entry topic hs, ← h.profiles]
  split
  · exact ⟨rfl, h⟩
  · obtain ⟨hstate, hverdict⟩ := hH.publish _ _ net.profiles i topic data h.state
    exact ⟨congrArg Verdict.result hverdict, h.of_nodes rfl rfl hstate⟩

/-- **Subscribing and giving the subscription up.** -/
theorem subscribeAndDrop (h : Kin same hidden net net') (i : Nat) (topic : String) :
    Agree same hidden (net.subscribeAndDrop i topic) (net'.subscribeAndDrop i topic) := by
  rw [subscribeAndDrop_eq, subscribeAndDrop_eq]
  refine h.request fun n m hn hm hr hkin => ⟨rfl, h.onNode fun n' m' hn' hm' _ => ?_⟩
  obtain rfl := Option.some.inj (hn.symm.trans hn')
  obtain rfl := Option.some.inj (hm.symm.trans hm')
  exact ⟨hkin.left.leaving hr topic, hkin.right.leaving (hkin.like.running.trans hr) topic,
    hkin.like.leaving hkin.left hkin.right hr topic⟩

/-- **Beginning to serve direct messages.** -/
theorem register (h : Kin same hidden net net') (i : Nat) :
    Agree same hidden (net.register i) (net'.register i) := by
  refine h.request fun n m hn hm hr hkin => ?_
  have hprotocol : m.config.protocolName = n.config.protocolName :=
    (congrArg (·.config.protocolName) hkin.like.face).symm
  cases hname : n.config.protocolName with
  | none =>
    simp only [Node.register, hprotocol, hname]
    exact ⟨rfl, h⟩
  | some protocol =>
    cases hd : n.direct with
    | some d =>
      simp only [Node.register, hprotocol, hname, hkin.like.direct, hd]
      exact ⟨rfl, h⟩
    | none =>
      have hd' := hkin.like.direct.trans hd
      rw [Node.register_of_none hd hname, Node.register_of_none hd' (hprotocol.trans hname)]
      exact ⟨rfl, h.onNode fun _ _ _ _ _ => ⟨hkin.left.serving hr hd protocol,
        hkin.right.serving (hkin.like.running.trans hr) hd' protocol,
        hkin.like.serving hkin.left hkin.right hr hd protocol⟩⟩

/-- **Stopping a node.** -/
theorem stop (hH : H.Discreet hidden same) (h : Kin same hidden net net') (i : Nat) :
    Kin same hidden (net.stop i) (net'.stop i) := by
  have hstopped := h.onNode (i := i) (f := Node.stop) (g := Node.stop) fun n m _ _ hkin =>
    ⟨hkin.left.stop, hkin.right.stop, hkin.like.stop hkin.left hkin.right⟩
  refine hstopped.of_nodes rfl rfl ?_
  change same (H.leave net.state (net.onNode i Node.stop).profiles i)
    (H.leave net'.state (net'.onNode i Node.stop).profiles i)
  rw [hstopped.profiles]
  exact hH.leave _ _ _ i h.state

/-- **Receiving from an inbox that is not hidden.** -/
theorem receive [DecidableRel same] (h : Kin same hidden net net') {inbox : Inbox}
    (hs : (net.lane? same (.receive i inbox)).any hidden = false) :
    Agree same hidden (net.receive i inbox) (net'.receive i inbox) := by
  have hsame := h.bind_face i (f := (·.queue? inbox)) fun _ => by cases inbox <;> rfl
  unfold Network.receive
  rw [← hsame]
  cases hq : net.nodes[i]?.bind (·.queue? inbox) with
  | none => exact ⟨rfl, h⟩
  | some q =>
    obtain ⟨n, hn, hq⟩ := Option.bind_eq_some_iff.1 hq
    obtain ⟨m, hm, hkin⟩ := h.exists_node hn
    obtain ⟨lane, hlane⟩ := n.exists_lane i hq
    have hshown : hidden lane = false := by
      cases inbox with
      | topic k => simpa only [lane?, hn, Option.bind_some, hlane, Option.any_some] using hs
      | direct => rwa [← Option.some.inj hlane]
    have htake := hkin.like.take hkin.left hkin.right hq hlane hshown
    have hmem : q ∈ n.queues [] := Node.mem_queues_of_queue? hq
    simp only [receiveFrom, hn, hm]
    refine ⟨congrArg Except.ok htake.1, h.onNode fun n' m' hn' hm' _ => ?_⟩
    obtain rfl := Option.some.inj (hn.symm.trans hn')
    obtain rfl := Option.some.inj (hm.symm.trans hm')
    refine ⟨hkin.left.take hmem, hkin.right.take ?_, htake.2⟩
    rwa [Node.queues, hkin.like.topics, hkin.like.directQueue]

/-- **Octets that are sent**, whether or not it is hidden to whom. -/
theorem sendOctets (hH : H.Discreet hidden same) (h : Kin same hidden net net') (i : Nat)
    (peer : PeerId) (octets : Bytes) :
    Agree same hidden (net.sendOctets i peer octets) (net'.sendOctets i peer octets) := by
  refine h.request fun n m _ _ _ hkin => ?_
  have hprotocol : m.config.protocolName = n.config.protocolName :=
    (congrArg (·.config.protocolName) hkin.like.face).symm
  rw [hprotocol, ← h.profiles]
  split
  · exact ⟨rfl, h⟩
  · obtain ⟨hstate, hpassage⟩ := hH.send _ _ net.profiles i peer octets h.state
    exact ⟨congrArg (Passage.result · peer octets) hpassage, h.of_nodes rfl rfl hstate⟩

theorem sendTo (hH : H.Discreet hidden same) (h : Kin same hidden net net') (i : Nat)
    (recipient : PeerName) (payload : Bytes) :
    Agree same hidden (net.sendTo i recipient payload) (net'.sendTo i recipient payload) := by
  unfold Network.sendTo
  split
  · exact ⟨rfl, h⟩
  · split
    · exact ⟨rfl, h⟩
    · exact h.sendOctets hH i _ _

theorem sendRaw (hH : H.Discreet hidden same) (h : Kin same hidden net net') (i : Nat)
    (recipient : PeerName) (octets : Bytes) :
    Agree same hidden (net.sendRaw i recipient octets) (net'.sendRaw i recipient octets) := by
  unfold Network.sendRaw
  split
  · exact ⟨rfl, h⟩
  · exact h.sendOctets hH i _ octets

/-- One more node in both. -/
theorem append (h : Kin same hidden net net') (hn : n.Rested) :
    Kin same hidden { net with nodes := net.nodes ++ [n] }
      { net' with nodes := net'.nodes ++ [n] } := by
  refine ⟨h.state, ?_, fun i k k' hk hk' => ?_⟩
  · simp only [List.length_append, h.length]
  · by_cases hlt : i < net.nodes.length
    · rw [List.getElem?_append_left hlt] at hk
      rw [List.getElem?_append_left (h.length ▸ hlt)] at hk'
      exact h.node i k k' hk hk'
    · rw [List.getElem?_append_right (Nat.not_lt.1 hlt)] at hk
      rw [List.getElem?_append_right (h.length ▸ Nat.not_lt.1 hlt), ← h.length] at hk'
      obtain rfl := Option.some.inj (hk.symm.trans hk')
      obtain rfl := List.mem_singleton.1 (List.mem_of_getElem? hk)
      exact ⟨hn, hn, .refl hidden i k⟩

/-- **Starting a node.** -/
theorem start (hH : H.Discreet hidden same) (h : Kin same hidden net net') (fresh : KeyPair)
    (config : Config) :
    Agree same hidden (net.act (.start fresh config)) (net'.act (.start fresh config)) := by
  simp only [act, Network.start, bind, Except.bind, pure, Except.pure]
  cases hstart : Node.start fresh config with
  | error e => exact ⟨rfl, h⟩
  | ok n =>
    cases config.bootstrapAddresses with
    | error e => exact ⟨rfl, h⟩
    | ok addresses =>
      have happended := h.append (Node.rested_start hstart)
      refine ⟨congrArg Reply.started h.length, happended.of_nodes rfl rfl ?_⟩
      simp only [← happended.profiles, h.length]
      exact hH.enter _ _ _ _ addresses h.state

theorem discover (hH : H.Discreet hidden same) (h : Kin same hidden net net') (i : Nat) :
    Agree same hidden (net.discover i) (net'.discover i) := by
  refine h.request fun n m _ _ _ hkin => ?_
  have hkad : m.services.kad = n.services.kad :=
    (congrArg (·.services.kad) hkin.like.face).symm
  obtain ⟨hstate, hanswer⟩ := hH.search _ _ net.profiles i h.state
  rw [hkad, ← h.profiles]
  split
  · exact ⟨rfl, h⟩
  · generalize H.search net.state net.profiles i = r at hstate hanswer
    generalize H.search net'.state net.profiles i = r' at hstate hanswer
    obtain ⟨s, answer⟩ := r
    obtain ⟨s', answer'⟩ := r'
    obtain rfl : answer = answer' := hanswer
    cases answer <;> exact ⟨rfl, h.of_nodes rfl rfl hstate⟩

/-- **What is not done on a hidden lane** gets the same reply in kin networks, and leaves them
kin. -/
theorem act [DecidableRel same] (hH : H.Discreet hidden same) (h : Kin same hidden net net')
    (ha : (net.lane? same a).any hidden = false) :
    Agree same hidden (net.act a) (net'.act a) := by
  cases a with
  | start fresh config => exact h.start hH fresh config
  | stop i => exact ⟨rfl, h.stop hH i⟩
  | publish i topic data => exact (h.publish hH ha i data).replying _
  | publishPrimary i data =>
    refine Agree.replying ?_ _
    unfold publishPrimary
    rw [← h.bind_face i (f := (·.topics.head?)) fun _ => rfl]
    rw [lane?] at ha
    split
    · rename_i topic htopic
      rw [htopic] at ha
      exact h.publish hH ha i data
    · exact ⟨rfl, h⟩
  | subscribeAndDrop i topic => exact (h.subscribeAndDrop i topic).replying _
  | sendFrom i recipient payload =>
    refine Agree.replying ?_ _
    unfold sendFrom
    rw [← h.bind_face i (f := (·.direct)) fun _ => rfl]
    split
    · exact h.sendTo hH i recipient payload
    · exact ⟨rfl, h⟩
  | sendTo i recipient payload => exact (h.sendTo hH i recipient payload).replying _
  | sendRaw i recipient octets => exact (h.sendRaw hH i recipient octets).replying _
  | register i => exact (h.register i).replying _
  | receive i inbox => exact (h.receive ha).replying _
  | connectedPeers i =>
    refine Agree.replying (h.request fun _ _ _ _ _ _ => ⟨?_, h⟩) _
    rw [hH.connected _ _ net.profiles i h.state, h.profiles]
  | topicPeers i topic =>
    refine Agree.replying (h.request fun _ _ _ _ _ _ => ⟨?_, h⟩) _
    rw [hH.subscribers _ _ net.profiles i topic h.state, h.profiles]
  | listenAddresses i =>
    refine Agree.replying (h.request fun _ _ _ _ _ _ => ⟨?_, h⟩) _
    rw [hH.listeners _ _ net.profiles i h.state, h.profiles]
  | discover i => exact (h.discover hH i).replying _
  | bring i via author topic data =>
    exact ⟨rfl, h.onNode fun n m _ _ hkin => ⟨hkin.left.hear _ _ _, hkin.right.hear _ _ _,
      hkin.like.hear hkin.left hkin.right ha _ _⟩⟩
  | receiveStream i sender octets =>
    refine ⟨rfl, h.onNode fun n m _ _ hkin => ?_⟩
    rw [hkin.like.running]
    split
    · rename_i hr
      exact ⟨hkin.left.handleStream hr _ _, hkin.right.handleStream (hkin.like.running.trans hr) _ _,
        hkin.like.handleStream hkin.left hkin.right hr _ _⟩
    · exact hkin
  | react e =>
    refine ⟨rfl, h.of_nodes rfl rfl ?_⟩
    simp only [Network.act, Network.react, ← h.profiles]
    exact hH.react _ _ _ e h.state

end Kin

/-! ## Whole histories -/

/-- What is observed first, after something that is not observed. -/
theorem exists_next [DecidableRel same] (hH : H.Discreet hidden same) {as rest : List (Action H)}
    (h : Kin same hidden net net)
    (hnext : (net.observed same hidden as).map (·.1) = a :: rest) :
    ∃ net₁ as₁, Kin same hidden net₁ net ∧ (net₁.lane? same a).any hidden = false ∧
      net.observed same hidden as =
        (a, (net₁.act a).2) :: (net₁.act a).1.observed same hidden as₁ := by
  induction as generalizing net with
  | nil => cases hnext
  | cons b as ih =>
    rw [observed] at hnext ⊢
    split at hnext
    · rename_i hhidden
      obtain ⟨lane, hlane, hs⟩ := (Option.any_eq_true _ _).1 hhidden
      have hkin := kin_act hH h hlane hs
      obtain ⟨net₁, as₁, hkin₁, hshown, he⟩ := ih (hkin.trans hH (hkin.symm hH)) hnext
      exact ⟨net₁, as₁, hkin₁.trans hH hkin, hshown, by rw [if_pos hhidden, he]⟩
    · rename_i hshown
      obtain ⟨rfl, -⟩ := List.cons.inj hnext
      exact ⟨net, as, h, Bool.not_eq_true _ ▸ hshown, if_neg hshown⟩

/-- **What is observed of kin networks does not depend on what is hidden.** -/
theorem Kin.observed_eq [DecidableRel same] (hH : H.Discreet hidden same) {as bs : List (Action H)}
    (h : Kin same hidden net net') (hsame : (net.observed same hidden as).map (·.1) =
      (net'.observed same hidden bs).map (·.1)) :
    net.observed same hidden as = net'.observed same hidden bs := by
  generalize hdone : (net.observed same hidden as).map (·.1) = done at hsame
  induction done generalizing net net' as bs with
  | nil => rw [List.map_eq_nil_iff.1 hdone, List.map_eq_nil_iff.1 hsame.symm]
  | cons a rest ih =>
    obtain ⟨net₁, as₁, hkin, hshown, he⟩ := exists_next hH (h.trans hH (h.symm hH)) hdone
    obtain ⟨net₁', bs₁, hkin', -, he'⟩ := exists_next hH ((h.symm hH).trans hH h) hsame.symm
    obtain ⟨hreply, hafter⟩ := ((hkin.trans hH h).trans hH (hkin'.symm hH)).act hH hshown
    rw [he, List.map_cons, List.cons.injEq] at hdone
    rw [he', List.map_cons, List.cons.injEq] at hsame
    rw [he, he', hreply, ih hafter hdone.2 hsame.2]

/-- **Nothing that is done on hidden lanes can be noticed elsewhere.**  If two histories differ only
in what is done on the hidden lanes, then all else gets the same replies in both. -/
theorem lanes_are_isolated {H : Host} {same : H.State → H.State → Prop} [DecidableRel same]
    (hidden : Lane → Bool) (hH : H.Discreet hidden same) (as bs : List (Action H))
    (hsame : (({} : Network H).observed same hidden as).map (·.1) =
      (({} : Network H).observed same hidden bs).map (·.1)) :
    ({} : Network H).observed same hidden as = ({} : Network H).observed same hidden bs :=
  Kin.observed_eq hH ⟨hH.equivalence.refl _, rfl, fun _ _ _ hn => by cases hn⟩ hsame

/-- However many messages arrive on the topic of two nodes, of which nobody receives anything, a
direct message between them is sent and received alike. -/
theorem lanes_are_isolated_flooded :
    let a := KeyPair.ofSeed [1]
    let b := KeyPair.ofSeed [2]
    let c : Config := { topics := ["t"], protocolName := some "/p" }
    let hidden : Lane → Bool := fun lane => lane == .topic "t"
    let starts : List (Action loopback) := [.start a c, .start b c]
    let direct : List (Action loopback) :=
      [.sendTo 1 (.ofId a.peerId) [104, 105], .receiveStream 0 (.ofId b.peerId) [104, 105, 10],
        .receive 0 .direct]
    let quiet := starts ++ direct
    let flooded := starts ++
      (List.replicate 1000 (.bring 0 (.ofId b.peerId) none "t" [104, 105]) ++ direct)
    let net : Network loopback := {}
    (net.observed (· = ·) hidden flooded).map (·.1) = quiet ∧
      net.observed (· = ·) hidden flooded = net.observed (· = ·) hidden quiet := by
  intro a b c hidden starts direct quiet flooded net
  have hshown : ∀ j, hidden (.direct j) = false := fun j => beq_false_of_ne nofun
  have hsends : ∀ (net : Network loopback) (action : Action loopback),
      (lane?.sending? (· = ·) net action).any hidden = false := by
    intro net action
    unfold lane?.sending?
    split
    · cases action.sends? with
      | none => rfl
      | some send =>
        obtain ⟨_, peer, _⟩ := send
        simp only [Option.bind_some, Option.any_map, hshown]
        cases net.nodes.findIdx? (·.id == peer) <;> rfl
    · rfl
  have hdirect : ∀ net : Network loopback,
      (net.observed (· = ·) hidden direct).map (·.1) = direct := by
    intro net
    simp [direct, observed, lane?, hsends, hshown]
  have hflood : ∀ (k : Nat) (net : Network loopback),
      (net.observed (· = ·) hidden (List.replicate k
        (.bring 0 (.ofId b.peerId) none "t" [104, 105]) ++ direct)).map (·.1) = direct := by
    intro k
    induction k with
    | zero => exact hdirect
    | succ k ih =>
      intro net
      rw [List.replicate_succ, List.cons_append, observed, if_pos (by simp [lane?, hidden]), ih]
  have hquiet : (net.observed (· = ·) hidden quiet).map (·.1) = quiet := by
    simp [quiet, starts, observed, lane?, hdirect]
  have hflooded : (net.observed (· = ·) hidden flooded).map (·.1) = quiet := by
    simp only [flooded, quiet, starts, List.cons_append, List.nil_append, observed, lane?,
      Option.any_none, Bool.false_eq_true, if_false, List.map_cons, hflood]
  exact ⟨hflooded, lanes_are_isolated hidden (discreet_loopback hidden) flooded quiet
    (hflooded.trans hquiet.symm)⟩

end Network
end PeerNode
