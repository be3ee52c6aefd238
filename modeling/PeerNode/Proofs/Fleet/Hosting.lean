import PeerNode.Network.Action
import PeerNode.Proofs.Fleet.Streams
import PeerNode.Proofs.Network.Requests

/-!
# What a network does to its nodes

What is done in a network in which no node is started, stopped or given another subscription is a
trace: each action is something that happens to a node, with the answer of the host written into it.
The nodes become what they become by the trace (`nodes_run`), and what is answered is what the trace
says (`publish_eq`, `sendTo_eq`, `sendRaw_eq`, `receive_eq`).  So the laws of fleets hold in every
network, whatever its host.

* `Action.Plain`: what only makes something happen to nodes that are there.
* `Network.happenings`, `Network.trace`: an action, and several, as a trace.
* `nodes_act`, `nodes_run`: what becomes of the nodes.
-/

namespace PeerNode

variable {H : Host} {net : Network H} {n : Node} {a : Action H} {i : Nat} {recipient : PeerName}

/-- Whether an action only makes something happen to nodes that are there. -/
def Action.Plain : Action H → Prop
  | .publish .. | .sendTo .. | .sendRaw .. | .receive .. | .connectedPeers _ | .topicPeers ..
  | .listenAddresses _ | .discover _ | .bring .. | .receiveStream .. | .react _ => True
  | .start .. | .stop _ | .publishPrimary .. | .subscribeAndDrop .. | .sendFrom .. | .register _ =>
    False

namespace Network

/-- What the host makes of a parcel that a node sends. -/
def passage (net : Network H) (i : Nat) (recipient : PeerName) (parcel : Parcel) : Passage :=
  match net.nodes[i]?.bind (·.order? recipient parcel) with
  | some (peer, octets) => (H.send net.state net.profiles i peer octets).2
  | none => ⟨.error "", none⟩

/-- What an action makes happen. -/
def happenings (net : Network H) : Action H → Fleet.Trace
  | .publish i topic data =>
    [(i, .publishes topic data (H.publish net.state net.profiles i topic data).2)]
  | .sendTo i recipient payload =>
    [(i, .sends recipient (.payload payload) (net.passage i recipient (.payload payload)))]
  | .sendRaw i recipient octets =>
    [(i, .sends recipient (.raw octets) (net.passage i recipient (.raw octets)))]
  | .receive i inbox =>
    if (net.nodes[i]?.bind (·.queue? inbox)).isSome then [(i, .receives inbox), (i, .settles)]
    else []
  | .bring i via author topic data => [(i, .hears via author topic data), (i, .settles)]
  | .receiveStream i sender octets =>
    if (net.nodes[i]?.bind (·.direct)).isSome then
      [(i, .accepts sender [.bytes octets]), (i, .settles)]
    else []
  | .start .. | .stop _ | .publishPrimary .. | .subscribeAndDrop .. | .sendFrom .. | .register _
  | .connectedPeers _ | .topicPeers .. | .listenAddresses _ | .discover _ | .react _ => []

/-- What several actions make happen. -/
def trace (net : Network H) : List (Action H) → Fleet.Trace
  | [] => []
  | a :: as => net.happenings a ++ (net.act a).1.trace as

/-! ## What becomes of the nodes -/

/-- What is done to one node happens to it. -/
theorem nodes_onNode {f : Node → Node} (es : List Node.Happening)
    (hf : ∀ n, net.nodes[i]? = some n → f n = n.run es) :
    (net.onNode i f).nodes = (es.map (i, ·)).foldl Fleet.step net.nodes := by
  refine List.ext_getElem? fun b => ?_
  rw [getElem_onNode, Fleet.getElem_foldl_step]
  cases hb : net.nodes[b]? with
  | none => rfl
  | some n =>
    rw [Option.map_some, Option.map_some]
    by_cases hi : i = b
    · subst hi
      rw [if_pos rfl, Fleet.own_map, hf n hb]
    · rw [if_neg hi, Fleet.own_map_of_ne hi, Node.run]

/-- What leaves a node as it is leaves all of them. -/
theorem foldl_step_eq_self {nodes : List Node} (es : List Node.Happening)
    (h : ∀ n : Node, n.run es = n) : (es.map (i, ·)).foldl Fleet.step nodes = nodes := by
  refine List.ext_getElem? fun b => ?_
  rw [Fleet.getElem_foldl_step]
  cases nodes[b]? with
  | none => rfl
  | some n =>
    rw [Option.map_some]
    by_cases hi : i = b
    · rw [hi, Fleet.own_map, h]
    · rw [Fleet.own_map_of_ne hi, Node.run]

/-- **An action makes of the nodes what happens to them.** -/
theorem nodes_act (ha : a.Plain) (hrunning : ∀ n ∈ net.nodes, n.running = true) :
    (net.act a).1.nodes = (net.happenings a).foldl Fleet.step net.nodes := by
  cases a with
  | publish i topic data =>
    exact (net.nodes_publish i topic data).trans
      (foldl_step_eq_self [.publishes topic data _] fun _ => rfl).symm
  | sendTo i recipient payload =>
    exact (net.nodes_sendTo i recipient payload).trans
      (foldl_step_eq_self [.sends recipient (.payload payload) _] fun _ => rfl).symm
  | sendRaw i recipient octets =>
    exact (net.nodes_sendRaw i recipient octets).trans
      (foldl_step_eq_self [.sends recipient (.raw octets) _] fun _ => rfl).symm
  | receive i inbox =>
    simp only [act, replying, receive, happenings]
    cases hqueue : net.nodes[i]?.bind (·.queue? inbox) with
    | none => rfl
    | some q =>
      obtain ⟨n, hn, hq⟩ := Option.bind_eq_some_iff.1 hqueue
      simp only [receiveFrom, hn, Option.isSome_some, if_true]
      refine nodes_onNode [.receives inbox, .settles] fun n' hn' => ?_
      obtain rfl := Option.some.inj (hn.symm.trans hn')
      simp only [Node.run, Node.happen, hq]
      rfl
  | bring i via author topic data =>
    exact nodes_onNode [.hears via author topic data, .settles] fun _ _ => rfl
  | receiveStream i sender octets =>
    simp only [act, receiveStream, happenings]
    cases hdirect : net.nodes[i]?.bind (·.direct) with
    | none =>
      refine nodes_onNode [] fun n hn => ?_
      have hnone : n.direct = none := by rwa [hn, Option.bind_some] at hdirect
      simp only [Node.handleStream, hnone, ite_self, Node.run]
    | some d =>
      refine nodes_onNode [.accepts sender [.bytes octets], .settles] fun n hn => ?_
      have hsome : n.direct = some d := by rwa [hn, Option.bind_some] at hdirect
      simp only [hrunning n (List.mem_of_getElem? hn), if_true, Node.handleStream, Node.run,
        Node.happen, Node.accept, hsome]
  | connectedPeers i | topicPeers i topic | listenAddresses i =>
    exact congrArg Network.nodes (net.request_eq_self i _)
  | discover i => exact net.nodes_discover i
  | react e => rfl
  | start | stop | publishPrimary | subscribeAndDrop | sendFrom | register => exact False.elim ha

theorem runs_act (ha : a.Plain) (hrunning : ∀ n ∈ net.nodes, n.running = true) :
    ∀ n ∈ (net.act a).1.nodes, n.running = true := by
  rw [nodes_act ha hrunning]
  intro m hm
  obtain ⟨b, hb⟩ := List.getElem?_of_mem hm
  rw [Fleet.getElem_foldl_step] at hb
  obtain ⟨n, hn, rfl⟩ := Option.map_eq_some_iff.1 hb
  exact (n.alike_run _).running.trans (hrunning n (List.mem_of_getElem? hn))

/-- **Several actions make of the nodes what happens to them.** -/
theorem nodes_run {as : List (Action H)} (has : ∀ a ∈ as, a.Plain)
    (hrunning : ∀ n ∈ net.nodes, n.running = true) :
    (net.run as).1.nodes = (net.trace as).foldl Fleet.step net.nodes := by
  induction as generalizing net with
  | nil => rfl
  | cons a as ih =>
    have ha := has a List.mem_cons_self
    rw [trace, List.foldl_append, ← nodes_act ha hrunning]
    exact ih (fun a ha => has a (List.mem_cons_of_mem _ ha)) (runs_act ha hrunning)

/-! ## What is answered -/

theorem publish_eq (hn : net.nodes[i]? = some n) (hrunning : n.running = true) (topic : String)
    (data : Bytes) : (net.publish i topic data).2 =
      n.publish topic (H.publish net.state net.profiles i topic data).2 := by
  rw [publish, request_of_runs hn hrunning, Node.publish]
  split <;> rfl

/-- Octets that are sent end as the host has it. -/
theorem sendOctets_eq (hn : net.nodes[i]? = some n) (hrunning : n.running = true)
    {parcel : Parcel} {peer : PeerId} {octets : Bytes} (hpeer : recipient.toId = .ok peer)
    (hoctets : parcel.octets = .ok octets) : (net.sendOctets i peer octets).2 =
      n.send recipient parcel (net.passage i recipient parcel) := by
  rw [sendOctets, request_of_runs hn hrunning]
  cases hprotocol : n.config.protocolName with
  | none => simp [Node.send, hpeer, hoctets, hrunning, hprotocol, bind, Except.bind]
  | some protocol =>
    have horder : n.order? recipient parcel = some (peer, octets) := by
      simp [Node.order?, hpeer, hoctets, hrunning, hprotocol]
    simp [Node.send, passage, hn, horder, hpeer, hoctets, hrunning, hprotocol, bind, Except.bind]

theorem sendTo_eq (hn : net.nodes[i]? = some n) (hrunning : n.running = true)
    (recipient : PeerName) (payload : Bytes) : (net.sendTo i recipient payload).2 =
      n.send recipient (.payload payload) (net.passage i recipient (.payload payload)) := by
  rw [sendTo]
  cases hpeer : recipient.toId with
  | error e => simp [Node.send, hpeer, bind, Except.bind]
  | ok peer =>
    cases hframe : Frame.ofPayload payload with
    | error fault => simp [Node.send, hpeer, Parcel.octets, hframe, bind, Except.bind]
    | ok frame =>
      have hoctets : (Parcel.payload payload).octets = .ok frame := by
        simp only [Parcel.octets, hframe]
      exact sendOctets_eq hn hrunning hpeer hoctets

theorem sendRaw_eq (hn : net.nodes[i]? = some n) (hrunning : n.running = true)
    (recipient : PeerName) (octets : Bytes) : (net.sendRaw i recipient octets).2 =
      n.send recipient (.raw octets) (net.passage i recipient (.raw octets)) := by
  rw [sendRaw]
  cases hpeer : recipient.toId with
  | error e => simp [Node.send, hpeer, bind, Except.bind]
  | ok peer =>
    have hoctets : (Parcel.raw octets).octets = .ok octets := rfl
    exact sendOctets_eq hn hrunning hpeer hoctets

/-- A receive finds what the trace says. -/
theorem receive_eq (hn : net.nodes[i]? = some n) (inbox : Inbox) :
    (net.receive i inbox).2.toOption.toList.flatMap Found.messages =
      n.found inbox (.receives inbox) := by
  simp only [receive, hn, Option.bind_some, Node.found, if_true]
  cases hq : n.queue? inbox with
  | none => rfl
  | some q => simp [receiveFrom, hn, Except.toOption, Node.take]

end Network
end PeerNode
