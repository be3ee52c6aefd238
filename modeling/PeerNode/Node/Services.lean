import PeerNode.Config.Validity

/-!
# The services of a node

Beside topics every node runs an identification protocol.  The configuration says which of five
further services it runs.  Direct messages are served if there is a protocol for them, whose name
is checked here once more.

* `identifyProtocol`: the version of the identification protocol.
* `Services`, `Services.ofConfig`: which services run.
-/

namespace PeerNode

/-- The version of the identification protocol that every node announces. -/
def identifyProtocol : String := "/biome/1.0.0"

/-- Which services a node runs. -/
structure Services where
  /-- Direct messages. -/
  direct : Bool
  /-- Routing through the distributed hash table. -/
  kad : Bool
  /-- Discovery of peers on the local network. -/
  mdns : Bool
  /-- Forwarding of the listening port by the gateway. -/
  upnp : Bool
  /-- Relayed connections. -/
  relay : Bool
  deriving DecidableEq, Repr

namespace Services

/-- The services that a configuration asks for. -/
def ofConfig (c : Config) : Except NodeError Services := do
  if let some name := c.protocolName then
    let _ ← Config.protocolOfName name
  return {
    direct := c.protocolName.isSome
    kad := c.enableKad
    mdns := c.enableMdns
    upnp := c.enableUpnp
    relay := c.enableRelay }

end Services
end PeerNode
