import PeerNode.Node.Start

/-!
# Hosts

What carries messages between nodes is no part of a node.  A host does this for the nodes that run
on it: it listens at addresses, dials peers and keeps in touch with them, and it takes what nodes
publish and send.  Nothing is said here about how it goes about it.  A host has states, which change
by events of its own, when nodes come and go, and by what nodes ask of it.  What it answers them
follows from its state and from what its nodes show to it.

What a host brings to a node, a message on a topic or a stream, is no answer and comes at its own
time.

* `Profile`, `Node.profile`: what a node shows to its host.
* `Host`: the states of a host, and what it answers.
-/

namespace PeerNode

/-- What a node shows to its host. -/
structure Profile where
  config : Config
  id : PeerId
  services : Services
  /-- The topics that the node listens to. -/
  announced : List String
  /-- The protocol on which the node accepts streams. -/
  protocol : Option String
  /-- The addresses that the node has handed on. -/
  contacts : List (PeerId × Multiaddr)
  running : Bool

/-- What a node shows to its host; its channels and its tasks are no part of it. -/
def Node.profile (n : Node) : Profile where
  config := n.config
  id := n.id
  services := n.services
  announced := n.announced
  protocol := n.direct.map (·.protocol)
  contacts := n.contacts
  running := n.running

/-- A host of nodes, which are named by their positions. -/
structure Host where
  State : Type
  /-- What happens in the host by itself. -/
  Event : Type
  initial : State
  react : State → List Profile → Event → State
  /-- A node begins to listen and dials the addresses that it starts from. -/
  enter : State → List Profile → Nat → List Multiaddr → State
  /-- A node stops. -/
  leave : State → List Profile → Nat → State
  /-- A node publishes octets on a topic. -/
  publish : State → List Profile → Nat → String → Bytes → State × Verdict
  /-- A node sends octets to a peer. -/
  send : State → List Profile → Nat → PeerId → Bytes → State × Passage
  /-- A node has the host search for more peers; the host does, or says why not. -/
  search : State → List Profile → Nat → State × Except String Unit
  /-- The peers with which a node is connected. -/
  connected : State → List Profile → Nat → List PeerId
  /-- The addresses at which a node listens. -/
  listeners : State → List Profile → Nat → List Multiaddr
  /-- The peers that are known to listen to a topic. -/
  subscribers : State → List Profile → Nat → String → List PeerId

end PeerNode
