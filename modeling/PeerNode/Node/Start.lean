import PeerNode.Node.Basic

/-!
# Starting a node

A node starts from a configuration: the configuration is checked, the key decoded, the services
set up, the addresses read, then all topics are joined in order and direct messages served.  Only
the check and the key can fail a start; the later steps look again at what the check has looked
at.

* `Node.start`: the node that a configuration asks for, or why there is none.
-/

namespace PeerNode

namespace Config

/-- The address to listen on. -/
def listenMultiaddr (c : Config) : Except NodeError Multiaddr :=
  match Multiaddr.read c.listenAddress with
  | .ok address => .ok address
  | .error fault => .error (.invalidConfig fault.message)

end Config

namespace Node

/-- Files the addresses of the first peers, where the distributed hash table keeps them.  Each is
filed under the peer that it names first. -/
def addContacts (n : Node) (addresses : List Multiaddr) : Node :=
  if n.services.kad then
    addresses.foldl (fun n address =>
      match Multiaddr.peer? address with
      | some peer => n.addContact peer address
      | none => n) n
  else n

/-- The node that a configuration asks for; `fresh` is its key if the configuration has none. -/
def start (fresh : KeyPair) (c : Config) : Except NodeError Node := do
  c.validate
  let key ← KeyPair.resolve fresh c.privateKey
  let services ← Services.ofConfig c
  let _ ← c.listenMultiaddr
  let addresses ← c.bootstrapAddresses
  if let some name := c.protocolName then
    let _ ← Config.protocolOfName name
  let n : Node := { config := c, id := key.peerId, services }
  let n := c.topics.foldl join (n.addContacts addresses)
  if c.protocolName.isSome then n.register else return n

end Node
end PeerNode
