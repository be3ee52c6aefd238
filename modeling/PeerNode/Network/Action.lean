import PeerNode.Network.Handle

/-!
# What is done in a network

Everything that nodes can be asked for, and all that their host does, as data: an action is carried
out by the function of the same name, and its reply is what that function answers.  A history of a
network is a list of actions.

* `Action`, `Reply`: the actions, and what is answered.
* `Action.sends?`, `Network.posts?`: what an action sends to a peer, or publishes on a topic.
* `Network.act`: carries out one action; `Network.run` several.
-/

namespace PeerNode

/-- What can be done in a network. -/
inductive Action (H : Host) where
  | start (fresh : KeyPair) (config : Config)
  | stop (i : Nat)
  | publishPrimary (i : Nat) (data : Bytes)
  | publish (i : Nat) (topic : String) (data : Bytes)
  | subscribeAndDrop (i : Nat) (topic : String)
  | sendFrom (i : Nat) (recipient : PeerName) (payload : Bytes)
  | sendTo (i : Nat) (recipient : PeerName) (payload : Bytes)
  | sendRaw (i : Nat) (recipient : PeerName) (octets : Bytes)
  | register (i : Nat)
  | receive (i : Nat) (inbox : Inbox)
  | connectedPeers (i : Nat)
  | topicPeers (i : Nat) (topic : String)
  | listenAddresses (i : Nat)
  | discover (i : Nat)
  | bring (i : Nat) (via : PeerName) (author : Option PeerName) (topic : String) (data : Bytes)
  | receiveStream (i : Nat) (sender : PeerName) (octets : Bytes)
  | react (e : H.Event)

/-- The octets that an action is to send, between the position of the sender and the octets the
peer who is to get them. -/
def Action.sends? {H : Host} : Action H → Option (Nat × PeerId × Bytes)
  | .sendFrom i recipient payload | .sendTo i recipient payload =>
    match recipient.toId, Frame.ofPayload payload with
    | .ok peer, .ok frame => some (i, peer, frame)
    | .ok _, .error _ | .error _, _ => none
  | .sendRaw i recipient octets =>
    match recipient.toId with
    | .ok peer => some (i, peer, octets)
    | .error _ => none
  | .start .. | .stop _ | .publishPrimary .. | .publish .. | .subscribeAndDrop .. | .register _
  | .receive .. | .connectedPeers _ | .topicPeers .. | .listenAddresses _ | .discover _
  | .bring .. | .receiveStream .. | .react _ => none

/-- What is answered. -/
inductive Reply where
  /-- The position of a new node. -/
  | started (i : Nat)
  | ok
  | found (f : Found)
  | peers (names : List PeerName)
  | addresses (addresses : List Multiaddr)
  | failed (e : NodeError)
  deriving DecidableEq

/-- The reply that a result makes. -/
def Reply.ofResult {α : Type} (f : α → Reply) : Except NodeError α → Reply
  | .ok a => f a
  | .error e => .failed e

namespace Network

variable {H : Host}

/-- The message that an action is to publish, after the position of the publisher and the topic. -/
def posts? (net : Network H) : Action H → Option (Nat × String × Bytes)
  | .publish i topic data => some (i, topic, data)
  | .publishPrimary i data =>
    (net.nodes[i]?.bind (·.topics.head?)).map fun topic => (i, topic.name, data)
  | .start .. | .stop _ | .subscribeAndDrop .. | .sendFrom .. | .sendTo .. | .sendRaw ..
  | .register _ | .receive .. | .connectedPeers _ | .topicPeers .. | .listenAddresses _
  | .discover _ | .bring .. | .receiveStream .. | .react _ => none

/-- A network with the reply that a result makes. -/
def replying {α : Type} (f : α → Reply) (r : Network H × Except NodeError α) : Network H × Reply :=
  (r.1, .ofResult f r.2)

/-- Carries out an action. -/
def act (net : Network H) : Action H → Network H × Reply
  | .start fresh config =>
    match net.start fresh config with
    | .ok (net, i) => (net, .started i)
    | .error e => (net, .failed e)
  | .stop i => (net.stop i, .ok)
  | .publishPrimary i data => replying (fun _ => .ok) (net.publishPrimary i data)
  | .publish i topic data => replying (fun _ => .ok) (net.publish i topic data)
  | .subscribeAndDrop i topic => replying (fun _ => .ok) (net.subscribeAndDrop i topic)
  | .sendFrom i recipient payload => replying (fun _ => .ok) (net.sendFrom i recipient payload)
  | .sendTo i recipient payload => replying (fun _ => .ok) (net.sendTo i recipient payload)
  | .sendRaw i recipient octets => replying (fun _ => .ok) (net.sendRaw i recipient octets)
  | .register i => replying (fun _ => .ok) (net.register i)
  | .receive i inbox => replying .found (net.receive i inbox)
  | .connectedPeers i => replying .peers (net.connectedPeers i)
  | .topicPeers i topic => replying .peers (net.topicPeers i topic)
  | .listenAddresses i => replying .addresses (net.listenAddresses i)
  | .discover i => replying (fun _ => .ok) (net.discover i)
  | .bring i via author topic data => (net.bring i via author topic data, .ok)
  | .receiveStream i sender octets => (net.receiveStream i sender octets, .ok)
  | .react e => (net.react e, .ok)

/-- Carries out several actions. -/
def run (net : Network H) : List (Action H) → Network H × List Reply
  | [] => (net, [])
  | a :: rest =>
    let (net, reply) := net.act a
    let (net, replies) := net.run rest
    (net, reply :: replies)

end Network
end PeerNode
