import PeerNode.Proofs.Network.Starting
import PeerNode.Proofs.PeerId.Naming

/-!
# What becomes of a direct send that fails

A direct send is checked in several places before anything reaches the network: the name of the
recipient and the payload where the request is made, whether the node runs where the request is
taken, and whether it has a protocol where the request is carried out.  `Refusal` puts these checks
in one order, each with what must have passed before it.  A refused send leaves the whole network as
it was, the host included, so no stream has been opened, no peer dialed and no message moved; a send
that is not refused ends as the host has it.  Who owns the node meets the last check first.

Stopping is for good.  A node that has stopped refuses everything that it is asked for, whoever
asks, and whatever is done to the network in the meantime.

* `Refusal`: why a direct send is refused, in order.
* `act_of_refusal`, `act_of_not_refusal`: what is answered.
* `act_sendFrom`: what the owner of a node is answered.
* `Action.asks?`, `Stopped`, `act_of_stopped`: what a node that has stopped answers.
* `refusals_in_order_and_harmless`: the theorem.
-/

namespace PeerNode

/-- The node that an action asks for something, if what the caller supplies passes the checks. -/
def Action.asks? {H : Host} : Action H → Option Nat
  | .publish i _ _ | .subscribeAndDrop i _ | .register i | .connectedPeers i | .topicPeers i _
  | .listenAddresses i | .discover i => some i
  | .sendTo i recipient payload =>
    match recipient.toId, Frame.ofPayload payload with
    | .ok _, .ok _ => some i
    | _, _ => none
  | .sendRaw i recipient _ =>
    match recipient.toId with
    | .ok _ => some i
    | .error _ => none
  | .start .. | .stop _ | .publishPrimary .. | .sendFrom .. | .receive .. | .bring ..
  | .receiveStream .. | .react _ => none

namespace Network

variable {H : Host} {net : Network H} {i : Nat} {recipient : PeerName} {payload : Bytes} {n : Node}
  {a : Action H} {e : NodeError}

def Runs (net : Network H) (i : Nat) : Prop := ∃ n, net.nodes[i]? = some n ∧ n.running = true

def Stopped (net : Network H) (i : Nat) : Prop := ∃ n, net.nodes[i]? = some n ∧ n.running = false

/-- Whether no protocol for direct messages is configured. -/
def Mute (net : Network H) (i : Nat) : Prop := net.nodes[i]?.bind (·.config.protocolName) = none

/-- **Why a direct send is refused.**  Each reason but the first one counts only if none of those
before it applies. -/
inductive Refusal (net : Network H) (i : Nat) (recipient : PeerName) (payload : Bytes) :
    NodeError → Prop
  /-- The name denotes nobody. -/
  | stranger {fault : PeerId.Fault} (hpeer : PeerId.ofText recipient.text = .error fault) :
      Refusal net i recipient payload (.invalidPeerId (recipient.text ++ ": " ++ fault.message))
  /-- The payload has no frame. -/
  | unframed {peer : PeerId} {fault : Frame.Fault} (hpeer : PeerId.ofText recipient.text = .ok peer)
      (hframe : Frame.ofPayload payload = .error fault) :
      Refusal net i recipient payload (.invalidPayload fault.message)
  /-- The node does not run. -/
  | idle {peer : PeerId} {frame : Bytes} (hpeer : PeerId.ofText recipient.text = .ok peer)
      (hframe : Frame.ofPayload payload = .ok frame) (hstopped : ¬ net.Runs i) :
      Refusal net i recipient payload .notStarted
  /-- The node has no protocol. -/
  | mute {peer : PeerId} {frame : Bytes} (hpeer : PeerId.ofText recipient.text = .ok peer)
      (hframe : Frame.ofPayload payload = .ok frame) (hruns : net.Runs i) (hmute : net.Mute i) :
      Refusal net i recipient payload .protocolNotConfigured

/-! ## Direct sends -/

theorem toId_of_ok {peer : PeerId} (h : PeerId.ofText recipient.text = .ok peer) :
    recipient.toId = .ok peer := by
  simp only [PeerName.toId, h]

theorem toId_of_error {fault : PeerId.Fault} (h : PeerId.ofText recipient.text = .error fault) :
    recipient.toId = .error (.invalidPeerId (recipient.text ++ ": " ++ fault.message)) := by
  simp only [PeerName.toId, h]

theorem request_of_not_runs {α : Type} (h : ¬ net.Runs i)
    (f : Node → Network H × Except NodeError α) : net.request i f = (net, .error .notStarted) := by
  rcases net.request_cases i f with hstopped | ⟨n, hn, hrunning, -⟩
  · exact hstopped
  · exact absurd ⟨n, hn, hrunning⟩ h

/-- **A refused send leaves the whole network as it was.** -/
theorem act_of_refusal (h : net.Refusal i recipient payload e) :
    net.act (.sendTo i recipient payload) = (net, .failed e) := by
  cases h with
  | stranger hpeer =>
    simp only [act, sendTo, toId_of_error hpeer]
    rfl
  | unframed hpeer hframe =>
    simp only [act, sendTo, toId_of_ok hpeer, hframe]
    rfl
  | idle hpeer hframe hstopped =>
    simp only [act, sendTo, toId_of_ok hpeer, hframe, sendOctets, request_of_not_runs hstopped]
    rfl
  | mute hpeer hframe hruns hmute =>
    obtain ⟨n, hn, hrunning⟩ := hruns
    have hnone : n.config.protocolName = none := by simpa [Mute, hn] using hmute
    simp only [act, sendTo, toId_of_ok hpeer, hframe, sendOctets, request_of_runs hn hrunning,
      hnone]
    rfl

/-- What is reported of octets that the host was given is no other failure than one of the host. -/
theorem result_passage (p : Passage) (peer : PeerId) (octets : Bytes) :
    p.result peer octets = .ok () ∨ ∃ reason, p.result peer octets = .error (.networkError reason) := by
  unfold Passage.result
  split
  · exact Or.inr ⟨_, rfl⟩
  · split
    · exact Or.inr ⟨_, rfl⟩
    · split
      · exact Or.inl rfl
      · exact Or.inr ⟨_, rfl⟩

/-- **A send that is not refused ends as the host has it**: all nodes stay as they are, and the
sender is told what the host makes of the frame. -/
theorem act_of_not_refusal (h : ∀ e, ¬ net.Refusal i recipient payload e) :
    ∃ peer frame, PeerId.ofText recipient.text = .ok peer ∧ Frame.ofPayload payload = .ok frame ∧
      net.act (.sendTo i recipient payload) =
        ({ net with state := (H.send net.state net.profiles i peer frame).1 },
          .ofResult (fun _ => .ok)
            ((H.send net.state net.profiles i peer frame).2.result peer frame)) := by
  cases hpeer : PeerId.ofText recipient.text with
  | error fault => exact absurd (.stranger hpeer) (h _)
  | ok peer =>
    cases hframe : Frame.ofPayload payload with
    | error fault => exact absurd (.unframed hpeer hframe) (h _)
    | ok frame =>
      obtain ⟨n, hn, hrunning⟩ : net.Runs i := by
        by_contra hstopped
        exact h _ (.idle hpeer hframe hstopped)
      cases hprotocol : n.config.protocolName with
      | none =>
        exact absurd (.mute hpeer hframe ⟨n, hn, hrunning⟩ (by simpa [Mute, hn])) (h _)
      | some protocol =>
        refine ⟨peer, frame, rfl, rfl, ?_⟩
        simp only [act, sendTo, toId_of_ok hpeer, hframe, sendOctets,
          request_of_runs hn hrunning, hprotocol, replying]

/-- **What the owner of a node is answered**: whether there is a protocol comes first, and all else
is as for everybody. -/
theorem act_sendFrom (hprotocol : ∀ n, net.nodes[i]? = some n →
    n.Speaks) :
    (net.Mute i →
      net.act (.sendFrom i recipient payload) = (net, .failed .protocolNotConfigured)) ∧
    (¬ net.Mute i →
      net.act (.sendFrom i recipient payload) = net.act (.sendTo i recipient payload)) := by
  have hserves : (net.nodes[i]?.bind (·.direct)).isSome = true ↔ ¬ net.Mute i := by
    unfold Mute
    cases hn : net.nodes[i]? with
    | none => simp
    | some n =>
      have hspeaks : n.direct.map (·.protocol) = n.config.protocolName := hprotocol n hn
      simp only [Option.bind_some, ← hspeaks, Option.map_eq_none_iff]
      exact Option.isSome_iff_ne_none
  refine ⟨fun hmute => ?_, fun hspeaks => ?_⟩
  · simp only [act, sendFrom, if_neg (fun h => hserves.1 h hmute)]
    rfl
  · simp only [act, sendFrom, if_pos (hserves.2 hspeaks)]

/-! ## Nodes that have stopped -/

theorem Stopped.not_runs (h : net.Stopped i) : ¬ net.Runs i := by
  rintro ⟨m, hm, hrunning⟩
  obtain ⟨n, hn, hstopped⟩ := h
  obtain rfl := Option.some.inj (hm.symm.trans hn)
  rw [hstopped] at hrunning
  cases hrunning

theorem stopped_stop (hi : i < net.nodes.length) : (net.act (.stop i)).1.Stopped i := by
  refine ⟨net.nodes[i].stop, ?_, ?_⟩
  · simp only [act, stop, onNode, List.getElem?_modify, List.getElem?_eq_getElem hi]
    simp
  · unfold Node.stop
    split
    · rfl
    · rename_i hstopped
      exact eq_false_of_ne_true hstopped

/-- **A node that has stopped never runs again.** -/
theorem Stopped.run (h : net.Stopped i) (as : List (Action H)) : (net.run as).1.Stopped i := by
  obtain ⟨n, hn, hstopped⟩ := h
  obtain ⟨m, hm, hlasts⟩ := lasts_run as hn
  refine ⟨m, hm, ?_⟩
  by_contra hrunning
  rw [Bool.not_eq_false] at hrunning
  rw [hlasts.running hrunning] at hstopped
  cases hstopped

/-- **A node that has stopped refuses everything that it is asked for.** -/
theorem act_of_stopped (h : net.Stopped i) (ha : a.asks? = some i) :
    net.act a = (net, .failed .notStarted) := by
  have hrequest : ∀ {α : Type} (f : Node → Network H × Except NodeError α),
      net.request i f = (net, .error .notStarted) := request_of_not_runs h.not_runs
  cases a with
  | publish j topic data =>
    obtain rfl := Option.some.inj ha
    simp only [act, publish, hrequest]
    rfl
  | subscribeAndDrop j topic =>
    obtain rfl := Option.some.inj ha
    simp only [act, subscribeAndDrop, subscribe, hrequest]
    rfl
  | sendTo j recipient payload =>
    simp only [Action.asks?] at ha
    split at ha
    · rename_i peer frame hpeer hframe
      obtain rfl := Option.some.inj ha
      simp only [act, sendTo, hpeer, hframe, sendOctets, hrequest]
      rfl
    · cases ha
  | sendRaw j recipient octets =>
    simp only [Action.asks?] at ha
    split at ha
    · rename_i peer hpeer
      obtain rfl := Option.some.inj ha
      simp only [act, sendRaw, hpeer, sendOctets, hrequest]
      rfl
    · cases ha
  | register j =>
    obtain rfl := Option.some.inj ha
    simp only [act, register, hrequest]
    rfl
  | connectedPeers j =>
    obtain rfl := Option.some.inj ha
    simp only [act, connectedPeers, hrequest]
    rfl
  | topicPeers j topic =>
    obtain rfl := Option.some.inj ha
    simp only [act, topicPeers, hrequest]
    rfl
  | listenAddresses j =>
    obtain rfl := Option.some.inj ha
    simp only [act, listenAddresses, hrequest]
    rfl
  | discover j =>
    obtain rfl := Option.some.inj ha
    simp only [act, discover, hrequest]
    rfl
  | start | stop | publishPrimary | sendFrom | receive | bring | receiveStream | react => cases ha

/-! ## The law of refusals -/

/-- **Direct sends are refused in one order, and a refused one leaves no trace**, neither in a node
nor in the host.  One that is not refused changes no node, and ends with what the host says.  A node
that has stopped refuses everything for good. -/
theorem refusals_in_order_and_harmless {H : Host} (as : List (Action H)) (i : Nat)
    (recipient : PeerName) (payload : Bytes) :
    let net := (({} : Network H).run as).1
    ((∀ e, net.Refusal i recipient payload e →
        net.act (.sendTo i recipient payload) = (net, .failed e)) ∧
      ((∀ e, ¬ net.Refusal i recipient payload e) →
        (∃ peer frame, PeerId.ofText recipient.text = .ok peer ∧
          Frame.ofPayload payload = .ok frame ∧ net.act (.sendTo i recipient payload) =
            ({ net with state := (H.send net.state net.profiles i peer frame).1 },
              .ofResult (fun _ => .ok)
                ((H.send net.state net.profiles i peer frame).2.result peer frame))) ∧
        ((net.act (.sendTo i recipient payload)).2 = .ok ∨
          ∃ reason, (net.act (.sendTo i recipient payload)).2 = .failed (.networkError reason)))) ∧
    ((net.Mute i →
        net.act (.sendFrom i recipient payload) = (net, .failed .protocolNotConfigured)) ∧
      (¬ net.Mute i →
        net.act (.sendFrom i recipient payload) = net.act (.sendTo i recipient payload))) ∧
    (i < net.nodes.length → (net.act (.stop i)).1.Stopped i) ∧
    (net.Stopped i → ∀ bs a, a.asks? = some i →
      (net.run bs).1.act a = ((net.run bs).1, .failed .notStarted)) := by
  intro net
  refine ⟨⟨fun e => act_of_refusal, fun hfree => ?_⟩, act_sendFrom fun n hn => ?_, stopped_stop, ?_⟩
  · obtain ⟨peer, frame, hpeer, hframe, he⟩ := act_of_not_refusal hfree
    refine ⟨⟨peer, frame, hpeer, hframe, he⟩, ?_⟩
    rw [he]
    rcases result_passage (H.send net.state net.profiles i peer frame).2 peer frame with
      hok | ⟨reason, herror⟩
    · exact Or.inl (by rw [hok]; rfl)
    · exact Or.inr ⟨reason, by rw [herror]; rfl⟩
  · exact speaks_run (fun _ hmem => absurd hmem List.not_mem_nil) as n (List.mem_of_getElem? hn)
  · intro hstopped bs a ha
    exact act_of_stopped (hstopped.run bs) ha

/-- One of two nodes sends to a name that denotes nobody, with a payload that has no frame, and then
such a payload to the other one.  After it has stopped it cannot send at all. -/
theorem refusals_in_order_and_harmless_pair : ∃ (c : Config) (fault : PeerId.Fault),
    let a := KeyPair.ofSeed [1]
    let net := (({} : Network loopback).run [.start a c, .start (.ofSeed [2]) c]).1
    let later := ((net.act (.stop 1)).1.run [.discover 0]).1
    c.protocolName = some "/p" ∧ net.nodes.length = 2 ∧ PeerId.ofText "0" = .error fault ∧
    net.act (.sendTo 1 ⟨"0"⟩ [10, 10]) =
      (net, .failed (.invalidPeerId ("0" ++ ": " ++ fault.message))) ∧
    net.act (.sendTo 1 (.ofId a.peerId) [10, 10]) =
      (net, .failed (.invalidPayload Frame.Fault.interiorNewline.message)) ∧
    later.act (.sendTo 1 (.ofId a.peerId) [104]) = (later, .failed .notStarted) := by
  let c : Config := { topics := ["t"], protocolName := some "/p" }
  obtain ⟨fault, hfault⟩ : ∃ fault, PeerId.ofText "0" = .error fault := ⟨_, rfl⟩
  refine ⟨c, fault, ?_⟩
  intro a
  generalize hstarts : ([.start a c, .start (.ofSeed [2]) c] : List (Action loopback)) = starts
  intro net later
  have hlaw := refusals_in_order_and_harmless starts 1
  have hpeer : PeerId.ofText (PeerName.ofId a.peerId).text = .ok a.peerId :=
    PeerId.ofText_toText a.peerId
  have hasks : (Action.sendTo 1 (.ofId a.peerId) [104] : Action loopback).asks? = some 1 := by
    simp only [Action.asks?, toId_of_ok hpeer]
    rfl
  have hlength : net.nodes.length = 2 := by
    have hvalid : c.validate = .ok () := by decide
    obtain ⟨n, hn⟩ := nodes_start_of_valid ({} : Network loopback) a hvalid rfl
    obtain ⟨m, hm⟩ := nodes_start_of_valid (({} : Network loopback).act (.start a c)).1
      (.ofSeed [2]) hvalid rfl
    simp only [net, ← hstarts, run]
    rw [hm, hn]
    rfl
  refine ⟨rfl, hlength, hfault, ?_, ?_, ?_⟩
  · exact (hlaw ⟨"0"⟩ [10, 10]).1.1 _ (.stranger hfault)
  · exact (hlaw (.ofId a.peerId) [10, 10]).1.1 _ (.unframed hpeer rfl)
  · have hstopped := (hlaw (.ofId a.peerId) [104]).2.2.1 (by rw [hlength]; exact Nat.one_lt_two)
    have hlater := (refusals_in_order_and_harmless (starts ++ [.stop 1]) 1 (.ofId a.peerId)
      [104]).2.2.2
    rw [run_append] at hlater
    exact hlater hstopped [.discover 0] _ hasks

end Network
end PeerNode
