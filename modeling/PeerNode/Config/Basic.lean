import PeerNode.Key

/-!
# The configuration of a node

A configuration says which topics a node joins, whether and under which name it serves direct
messages, where it listens, whom it contacts first and which services it switches on.  Every
entry has a default, so a configuration is built from the default by a few changes.

* `Config`: a configuration; `Config.default` is the one without any changes.
* `Config.withProtocol`, `withBundle`, `withKeyText`: the changes that need more than setting an
  entry.
* `Config.primaryTopic?`, `Config.listenAddress`: what other parts read off it.
-/

namespace PeerNode

/-- The configuration of a node. -/
structure Config where
  /-- The topics to join; the first one is the primary topic. -/
  topics : List String := ["biome"]
  /-- The protocol of direct messages; none switches them off. -/
  protocolName : Option String := none
  /-- The port to listen on; zero leaves the choice to the host. -/
  listenPort : UInt16 := 0
  /-- The addresses of the peers to contact first. -/
  bootstrapPeers : List String := []
  /-- The encoded private key; without one a fresh key is made. -/
  privateKey : Option Bytes := none
  /-- The name under which the node introduces itself. -/
  nodeName : String := "biome-node"
  /-- Whether to listen on the loopback interface only. -/
  localOnly : Bool := false
  /-- Whether to discover peers on the local network. -/
  enableMdns : Bool := true
  /-- Whether to route through the distributed hash table. -/
  enableKad : Bool := true
  /-- Whether to ask the gateway to forward the listening port. -/
  enableUpnp : Bool := false
  /-- Whether to accept relayed connections. -/
  enableRelay : Bool := false
  /-- The bound on sending or reading one direct message, in seconds. -/
  requestTimeout : UInt64 := 10
  /-- After how many idle seconds a connection is closed. -/
  idleTimeout : UInt64 := 60
  deriving DecidableEq, Repr

namespace Config

/-- The configuration in which nothing is changed. -/
def default : Config := {}

def ofTopic (topic : String) : Config := { default with topics := [topic] }

/-- The configuration with direct messages under a protocol name. -/
def withProtocol (c : Config) (name : String) : Config := { c with protocolName := some name }

/-! ## Bundles of peers -/

/-- The character between the addresses of a bundle. -/
def bundleDelimiter : Char := ';'

/-- The addresses of a bundle: its pieces between delimiters, without the blank characters at
their ends and without the pieces that are blank. -/
def bundlePieces (bundle : List Char) : List (List Char) :=
  ((bundle.splitOn bundleDelimiter).map Text.trimChars).filter (!·.isEmpty)

/-- The configuration with the addresses of a bundle after the peers that it has. -/
def withBundle (c : Config) (bundle : String) : Config :=
  { c with
    bootstrapPeers := c.bootstrapPeers ++ (bundlePieces bundle.toList).map String.ofList }

/-! ## Keys -/

/-- The private key that a text stands for: none if it is blank. -/
def keyOfText (text : String) : Except NodeError (Option Bytes) :=
  if Text.allBlank text then .ok none
  else match readKeyText text with
    | .ok key => .ok (some key)
    | .error e => .error e

/-- The configuration with the private key that a text stands for. -/
def withKeyText (c : Config) (text : String) : Except NodeError Config :=
  match keyOfText text with
  | .ok key => .ok { c with privateKey := key }
  | .error e => .error e

/-! ## Reading off -/

def primaryTopic? (c : Config) : Option String := c.topics.head?

/-- The address to listen on, in text form. -/
def listenAddress (c : Config) : String :=
  "/ip4/" ++ (if c.localOnly then "127.0.0.1" else "0.0.0.0") ++ "/tcp/" ++
    toString c.listenPort.toNat

end Config
end PeerNode
