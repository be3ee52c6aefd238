import PeerNode.Config.Basic
import PeerNode.Json.Value

/-!
# The entries of a configuration as members of a JSON object

A configuration is stored as a JSON object with one member for each entry.  Private keys stand in
it as base64 text, and absent optional entries as `null`.

* `Config.Field`: the entries; `Config.Field.all` lists them in the order in which they are
  written.
* `Config.Field.name`: the name of the member.
* `Config.toJson`: the text of a configuration.
-/

namespace PeerNode
namespace Config

/-- The entries of a configuration. -/
inductive Field where
  | topics
  | protocolName
  | listenPort
  | bootstrapPeers
  | privateKey
  | nodeName
  | localOnly
  | enableMdns
  | enableKad
  | enableUpnp
  | enableRelay
  | requestTimeout
  | idleTimeout
  deriving DecidableEq, Repr

namespace Field

/-- All entries, in the order in which they are written. -/
def all : List Field :=
  [topics, protocolName, listenPort, bootstrapPeers, privateKey, nodeName, localOnly, enableMdns,
    enableKad, enableUpnp, enableRelay, requestTimeout, idleTimeout]

/-- The name of the member that holds an entry. -/
def name : Field → String
  | topics => "topics"
  | protocolName => "protocol_name"
  | listenPort => "listen_port"
  | bootstrapPeers => "bootstrap_peers"
  | privateKey => "private_key"
  | nodeName => "node_name"
  | localOnly => "local_only"
  | enableMdns => "enable_mdns"
  | enableKad => "enable_kad"
  | enableUpnp => "enable_upnp"
  | enableRelay => "enable_relay"
  | requestTimeout => "request_timeout_secs"
  | idleTimeout => "idle_timeout_secs"

/-- The entry that the member with a name holds. -/
def ofName? (s : String) : Option Field := all.find? fun f => f.name == s

def textsValue (ts : List String) : Json.Value := .list (ts.map .text)

/-- An optional text as a JSON value. -/
def optionalValue : Option String → Json.Value
  | none => .null
  | some t => .text t

/-- The value of an entry. -/
def value (c : Config) : Field → Json.Value
  | topics => textsValue c.topics
  | protocolName => optionalValue c.protocolName
  | listenPort => .number (.natural c.listenPort.toNat)
  | bootstrapPeers => textsValue c.bootstrapPeers
  | privateKey => optionalValue (c.privateKey.map keyText)
  | nodeName => .text c.nodeName
  | localOnly => .bool c.localOnly
  | enableMdns => .bool c.enableMdns
  | enableKad => .bool c.enableKad
  | enableUpnp => .bool c.enableUpnp
  | enableRelay => .bool c.enableRelay
  | requestTimeout => .number (.natural c.requestTimeout.toNat)
  | idleTimeout => .number (.natural c.idleTimeout.toNat)

end Field

def toJson (c : Config) : String :=
  (Json.Value.object (Field.all.map fun f => (f.name, f.value c))).render

end Config
end PeerNode
