import PeerNode.Network.Action
import PeerNode.Node.Envelope

/-!
# Nodes on one machine

The simplest host serves the nodes of one machine.  Each node listens at an address of its own.  Who
dials that address is connected, unless another peer was expected there or the two share one
identity; both sides then know where the other one listens.  A peer to whom something is sent is
dialed if it is not connected.

What is published reaches the nodes that are connected with the publisher and listen to the topic,
and what is sent arrives unchanged.  A host does not do this by itself; `Loopback.act` adds it to an
action.

* `Loopback.State`: who is connected, and who knows whom.
* `Loopback.dial`, `reach`: who listens at an address; the position of a peer.
* `loopback`: the host.
* `Loopback.act`: an action with what follows from it.
-/

namespace PeerNode
namespace Loopback

/-- Why a peer cannot be dialed. -/
inductive DialFault where
  /-- It is not known where the peer is. -/
  | noAddress
  /-- The peer has the identity of the node itself. -/
  | oneself (address : Multiaddr)
  /-- Nobody listens at the address. -/
  | unreachable (address : Multiaddr)
  /-- Another peer listens at the address. -/
  | otherPeer (found : PeerId) (address : Multiaddr)
  deriving DecidableEq

/-- What the user reads about a peer that cannot be dialed. -/
def DialFault.message : DialFault → String
  | noAddress => "Dial error: no addresses for peer."
  | oneself a => "Dial error: tried to dial local peer id at " ++ Multiaddr.toText a ++ "."
  | unreachable a =>
    "Failed to negotiate transport protocol(s): [(" ++ Multiaddr.toText a ++
      ": : Connection refused (os error 111))]"
  | otherPeer i a =>
    "Dial error: Unexpected peer ID " ++ i.toText ++ " at " ++ Multiaddr.toText a ++ "."

/-- Who is connected, and who knows whom. -/
structure State where
  /-- The connected pairs, the one that dialed first. -/
  links : List (Nat × Nat) := []
  /-- Which node knows which peer, and at which address. -/
  known : List (Nat × PeerId × Multiaddr) := []
  deriving DecidableEq

/-! ## Addresses -/

def firstFreePort : Nat := 49152

/-- The port at which a node listens: the one it asks for, or one that nobody else has. -/
def portOf (n : Profile) (i : Nat) : UInt16 :=
  if n.config.listenPort = 0 then (firstFreePort + i).toUInt16 else n.config.listenPort

def addressOf (n : Profile) (i : Nat) : Multiaddr :=
  [.ip4 (if n.config.localOnly then ⟨127, 0, 0, 1⟩ else ⟨0, 0, 0, 0⟩), .port .tcp (portOf n i)]

/-- An address without the identity at its end. -/
def place (address : Multiaddr) : Multiaddr :=
  match address.getLast? with
  | some (.p2p _) => address.dropLast
  | _ => address

/-- The peer that an address expects at its end. -/
def expected? (address : Multiaddr) : Option PeerId := address.getLast?.bind Component.peer?

/-- The running node that listens at an address, with its position. -/
def listener? (nodes : List Profile) (address : Multiaddr) : Option (Profile × Nat) :=
  nodes.zipIdx.find? fun (n, i) => n.running && addressOf n i == place address

/-- The position of whoever listens at an address that a node dials. -/
def dial (nodes : List Profile) (n : Profile) (address : Multiaddr) : Except DialFault Nat :=
  if expected? address = some n.id then .error (.oneself address)
  else match listener? nodes address with
    | none => .error (.unreachable address)
    | some (m, j) =>
      if (expected? address).any (· != m.id) then .error (.otherPeer m.id address)
      else if m.id = n.id then .error (.oneself address)
      else .ok j

/-- Dials addresses until one leads to a peer; if none does, what was wrong with the last one. -/
def dialFirst (nodes : List Profile) (n : Profile) (fault : DialFault) :
    List Multiaddr → Except DialFault Nat
  | [] => .error fault
  | address :: rest =>
    match dial nodes n address with
    | .ok j => .ok j
    | .error fault => dialFirst nodes n fault rest

/-! ## Connections -/

namespace State

def linked (s : State) (i j : Nat) : Bool := s.links.contains (i, j) || s.links.contains (j, i)

/-- The nodes with which a node is connected, with their positions. -/
def neighbours (s : State) (nodes : List Profile) (i : Nat) : List (Profile × Nat) :=
  nodes.zipIdx.filter fun (_, j) => s.linked i j

/-- A node gets to know an address of a peer, unless the peer is the node itself or the address
leads to another one. -/
def learn (s : State) (n : Profile) (i : Nat) (peer : PeerId) (address : Multiaddr) : State :=
  if peer = n.id then s
  else match Node.completed? peer address with
    | none => s
    | some address =>
      if s.known.contains (i, peer, address) then s
      else { s with known := s.known ++ [(i, peer, address)] }

def forget (s : State) (i : Nat) (peer : PeerId) : State :=
  { s with known := s.known.filter fun (j, p, _) => j != i || p != peer }

/-- Connects two nodes, which tell each other where they listen. -/
def connect (s : State) (nodes : List Profile) (i j : Nat) : State :=
  match nodes[i]?, nodes[j]? with
  | some n, some m =>
    let s := if s.linked i j then s else { s with links := s.links ++ [(i, j)] }
    (s.learn n i m.id (addressOf m j)).learn m j n.id (addressOf n i)
  | _, _ => s

def addressesOf (s : State) (i : Nat) (peer : PeerId) : List Multiaddr :=
  s.known.filterMap fun (j, p, address) => if j = i ∧ p = peer then some address else none

/-- The connected peer with an identity, with its position. -/
def connected? (s : State) (nodes : List Profile) (i : Nat) (peer : PeerId) :
    Option (Profile × Nat) :=
  (s.neighbours nodes i).find? fun (m, _) => m.id == peer

/-- The position of a peer, who is connected or can be dialed. -/
def reach (s : State) (nodes : List Profile) (i : Nat) (peer : PeerId) : Except DialFault Nat :=
  match s.connected? nodes i peer, nodes[i]? with
  | some (_, j), _ => .ok j
  | none, some n => dialFirst nodes n .noAddress (s.addressesOf i peer)
  | none, none => .error .noAddress

/-- A node dials addresses.  One that leads nowhere is passed over. -/
def dialAll (s : State) (nodes : List Profile) (i : Nat) : List Multiaddr → State
  | [] => s
  | address :: rest =>
    match nodes[i]?.map (dial nodes · address) with
    | some (.ok j) => (s.connect nodes i j).dialAll nodes i rest
    | some (.error _) | none => s.dialAll nodes i rest

/-! ## What the machine answers -/

/-- A node begins to listen. -/
def enter (s : State) (nodes : List Profile) (i : Nat) (addresses : List Multiaddr) : State :=
  let contacts := nodes[i]?.toList.flatMap (·.contacts)
  ({ s with known := s.known ++ contacts.map ((i, ·)) }).dialAll nodes i addresses

/-- A node stops, and its connections are cut. -/
def leave (s : State) (i : Nat) : State :=
  { s with links := s.links.filter fun (j, k) => j != i && k != i }

/-- What is published must fit into an envelope. -/
def publish (s : State) (nodes : List Profile) (i : Nat) (topic : String) (data : Bytes) :
    State × Verdict :=
  if nodes[i]?.all fun n => (⟨n.id, topic, data⟩ : Envelope).fits then
    (s, if (s.neighbours nodes i).any fun (m, _) => m.announced.contains topic then .taken
      else .unheard)
  else (s, .refused "MessageTooLarge")

/-- The passage of octets for which there is no stream. -/
def closed (reason : String) : Passage := ⟨.error ("failed to open stream: " ++ reason), none⟩

/-- A peer to whom something is sent is connected from then on.  Without the distributed hash table
a peer that cannot be dialed is forgotten. -/
def send (s : State) (nodes : List Profile) (i : Nat) (peer : PeerId) : State × Passage :=
  match s.reach nodes i peer with
  | .error fault =>
    (if nodes[i]?.any (·.services.kad) then s else s.forget i peer,
      closed ("io error: " ++ fault.message))
  | .ok j =>
    let protocol := (nodes[i]?.bind (·.config.protocolName)).getD ""
    (s.connect nodes i j,
      if nodes[j]?.any fun m => m.running && m.protocol == some protocol then ⟨.ok {}, none⟩
      else closed ("remote peer does not support " ++ protocol))

/-- More peers are searched for among those that are known. -/
def search (s : State) (i : Nat) : Except String Unit :=
  if s.known.any fun (j, _) => j == i then .ok () else .error "No known peers."

end State
end Loopback

open Loopback (State)

/-- The host of the nodes on one machine. -/
def loopback : Host where
  State := State
  Event := Empty
  initial := {}
  react s _ _ := s
  enter s nodes i addresses := s.enter nodes i addresses
  leave s _ i := s.leave i
  publish s nodes i topic data := s.publish nodes i topic data
  send s nodes i peer _ := s.send nodes i peer
  search s _ i := (s, s.search i)
  connected s nodes i := ((s.neighbours nodes i).map (·.1.id)).eraseDups
  listeners _ nodes i := nodes[i]?.toList.map (Loopback.addressOf · i)
  subscribers s nodes i topic :=
    (((s.neighbours nodes i).filter fun (m, _) => m.announced.contains topic).map
      (·.1.id)).eraseDups

instance : DecidableEq loopback.State := inferInstanceAs (DecidableEq State)

namespace Loopback

/-- What follows from an action that has succeeded: what it has published is brought to the
neighbours that listen, and what it has sent to whom it was sent. -/
def consequences (net : Network loopback) (a : Action loopback) : List (Action loopback) :=
  match net.posts? a, a.sends? with
  | some (i, topic, data), _ =>
    net.nodes[i]?.toList.flatMap fun n =>
      ((State.neighbours net.state net.profiles i).filter fun (m, _) =>
        m.announced.contains topic).map fun (_, j) => .bring j n.name (some n.name) topic data
  | none, some (i, peer, octets) =>
    net.nodes[i]?.toList.flatMap fun n =>
      (State.connected? net.state net.profiles i peer).toList.map fun (_, j) =>
        .receiveStream j n.name octets
  | none, none => []

/-- Carries out an action, with what follows from it. -/
def act (net : Network loopback) (a : Action loopback) : Network loopback × Reply :=
  match net.act a with
  | (net, .ok) => ((net.run (consequences net a)).1, .ok)
  | (net, reply) => (net, reply)

end Loopback
end PeerNode
