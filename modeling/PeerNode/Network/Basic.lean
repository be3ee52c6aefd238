import PeerNode.Network.Host

/-!
# Nodes on a host

A network holds the nodes of a host and the state that the host is in.  Nodes come and go, messages
on topics and streams are brought to them, and the host changes by itself.  A node is named by its
position.

What is brought to a node lets its tasks act until all of them wait.

* `Network.start`, `Network.stop`: add a node; stop one.
* `Network.bring`, `Network.receiveStream`: a message on a topic, or a stream, is brought to a node.
* `Network.react`: something happens in the host.
-/

namespace PeerNode

/-- Nodes on a host. -/
structure Network (H : Host) where
  nodes : List Node := []
  state : H.State := H.initial

namespace Network

variable {H : Host}

def profiles (net : Network H) : List Profile := net.nodes.map Node.profile

def onNode (net : Network H) (i : Nat) (f : Node → Node) : Network H :=
  { net with nodes := net.nodes.modify i f }

/-- Adds a node: the network and the position of the node. -/
def start (net : Network H) (fresh : KeyPair) (c : Config) :
    Except NodeError (Network H × Nat) := do
  let n ← Node.start fresh c
  let addresses ← c.bootstrapAddresses
  let i := net.nodes.length
  let net := { net with nodes := net.nodes ++ [n] }
  return ({ net with state := H.enter net.state net.profiles i addresses }, i)

/-- Stops a node. -/
def stop (net : Network H) (i : Nat) : Network H :=
  let net := net.onNode i Node.stop
  { net with state := H.leave net.state net.profiles i }

/-- A peer hands on a message on a topic. -/
def bring (net : Network H) (i : Nat) (via : PeerName) (author : Option PeerName) (topic : String)
    (data : Bytes) : Network H :=
  net.onNode i fun n => (n.deliver via author topic data).settle

/-- A peer sends octets on a stream of their own. -/
def receiveStream (net : Network H) (i : Nat) (sender : PeerName) (octets : Bytes) : Network H :=
  net.onNode i fun n => if n.running then n.handleStream sender [.bytes octets] else n

def react (net : Network H) (e : H.Event) : Network H :=
  { net with state := H.react net.state net.profiles e }

end Network
end PeerNode
