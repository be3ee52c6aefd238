import PeerNode.Network.Basic

/-!
# What a node can be asked for

A handle is a way to ask a node for something while it runs; a node that has stopped answers every
request that it does not start.  What the caller supplies is checked before that, so a peer id that
names nobody and a payload that cannot be framed are reported whether the node runs or not.

* `Network.request`: asks a node for something, if it runs.
* `Network.publish`, `subscribe`, `topicPeers`: topics.
* `Network.sendTo`, `sendRaw`, `register`: direct messages.
* `Network.connectedPeers`, `listenAddresses`, `discover`: the node's place in the network.
* `Network.publishPrimary`, `sendFrom`, `receive`, `shutdown`: what the owner of a node does.
-/

namespace PeerNode
namespace Network

variable {H : Host}

/-- Asks the node at a position for something, if it runs. -/
def request {α : Type} (net : Network H) (i : Nat)
    (f : Node → Network H × Except NodeError α) : Network H × Except NodeError α :=
  match net.nodes[i]? with
  | some n => if n.running then f n else (net, .error .notStarted)
  | none => (net, .error .notStarted)

/-! ## Topics -/

/-- Publishes on a topic that the node has subscribed to. -/
def publish (net : Network H) (i : Nat) (topic : String) (data : Bytes) :
    Network H × Except NodeError Unit :=
  net.request i fun n =>
    if (n.subscription? topic).isNone then (net, .error (.topicNotJoined topic))
    else
      let (state, verdict) := H.publish net.state net.profiles i topic data
      ({ net with state }, verdict.result)

/-- Subscribes to a topic: the number of the subscription, whose receiving end is the caller's. -/
def subscribe (net : Network H) (i : Nat) (topic : String) : Network H × Except NodeError Nat :=
  net.request i fun n =>
    (net.onNode i fun n => (n.subscribe topic).1, .ok (n.subscribe topic).2)

/-- Subscribes to a topic and gives up the receiving end. -/
def subscribeAndDrop (net : Network H) (i : Nat) (topic : String) :
    Network H × Except NodeError Unit :=
  match net.subscribe i topic with
  | (net, .error e) => (net, .error e)
  | (net, .ok c) =>
    (net.onNode i (·.abandon c), .ok ())

/-- The peers that are known to listen to a topic. -/
def topicPeers (net : Network H) (i : Nat) (topic : String) :
    Network H × Except NodeError (List PeerName) :=
  net.request i fun _ =>
    (net, .ok ((H.subscribers net.state net.profiles i topic).map .ofId))

/-! ## Direct messages -/

/-- Registers one more handler of direct messages. -/
def register (net : Network H) (i : Nat) : Network H × Except NodeError Unit :=
  net.request i fun n =>
    match n.register with
    | .ok n => (net.onNode i fun _ => n, .ok ())
    | .error e => (net, .error e)

/-- Sends octets to a peer on a stream of their own. -/
def sendOctets (net : Network H) (i : Nat) (peer : PeerId) (octets : Bytes) :
    Network H × Except NodeError Unit :=
  net.request i fun n =>
    match n.config.protocolName with
    | none => (net, .error .protocolNotConfigured)
    | some _ =>
      let (state, passage) := H.send net.state net.profiles i peer octets
      ({ net with state }, passage.result peer octets)

/-- Sends octets, framed or not, to whom a name denotes. -/
def sendRaw (net : Network H) (i : Nat) (recipient : PeerName) (octets : Bytes) :
    Network H × Except NodeError Unit :=
  match recipient.toId with
  | .error e => (net, .error e)
  | .ok peer => net.sendOctets i peer octets

/-- Sends a payload as one frame to whom a name denotes. -/
def sendTo (net : Network H) (i : Nat) (recipient : PeerName) (payload : Bytes) :
    Network H × Except NodeError Unit :=
  match recipient.toId with
  | .error e => (net, .error e)
  | .ok peer =>
    match Frame.ofPayload payload with
    | .error fault => (net, .error (.invalidPayload fault.message))
    | .ok frame => net.sendOctets i peer frame

/-! ## The network around a node -/

def connectedPeers (net : Network H) (i : Nat) : Network H × Except NodeError (List PeerName) :=
  net.request i fun _ => (net, .ok ((H.connected net.state net.profiles i).map .ofId))

def listenAddresses (net : Network H) (i : Nat) : Network H × Except NodeError (List Multiaddr) :=
  net.request i fun _ => (net, .ok (H.listeners net.state net.profiles i))

/-- Asks the known peers for more peers. -/
def discover (net : Network H) (i : Nat) : Network H × Except NodeError Unit :=
  net.request i fun n =>
    if !n.services.kad then (net, .error (.networkError "Kademlia is disabled"))
    else
      match H.search net.state net.profiles i with
      | (state, .ok ()) => ({ net with state }, .ok ())
      | (state, .error reason) => ({ net with state }, .error (.networkError reason))

/-! ## What the owner of a node does -/

/-- Publishes on the primary topic. -/
def publishPrimary (net : Network H) (i : Nat) (data : Bytes) :
    Network H × Except NodeError Unit :=
  match net.nodes[i]?.bind (·.topics.head?) with
  | some topic => net.publish i topic.name data
  | none => (net, .error (.topicNotJoined "<none>"))

/-- Sends a payload from a node that serves direct messages itself. -/
def sendFrom (net : Network H) (i : Nat) (recipient : PeerName) (payload : Bytes) :
    Network H × Except NodeError Unit :=
  if (net.nodes[i]?.bind (·.direct)).isSome then net.sendTo i recipient payload
  else (net, .error .protocolNotConfigured)

/-- Takes the first message of a delivery queue of a node. -/
def receiveFrom (net : Network H) (i queue : Nat) : Network H × Found :=
  match net.nodes[i]? with
  | some n => (net.onNode i fun n => (n.take queue).1, (n.take queue).2)
  | none => (net, .closed)

/-- Takes the first message of an inbox of a node. -/
def receive (net : Network H) (i : Nat) (inbox : Inbox) : Network H × Except NodeError Found :=
  match net.nodes[i]?.bind (·.queue? inbox) with
  | some queue =>
    let (net, found) := net.receiveFrom i queue
    (net, .ok found)
  | none => (net, .error inbox.missing)

/-- Shuts a node down: it is stopped, and its owner waits until the listeners of its topics have
ended.  No result means that he waits for ever. -/
def shutdown (net : Network H) (i : Nat) : Network H × Option (Except NodeError Unit) :=
  let net := net.stop i
  if net.nodes[i]?.any (·.listens) then (net, none) else (net, some (.ok ()))

end Network
end PeerNode
