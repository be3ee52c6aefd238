import PeerNode.Config.Basic
import PeerNode.Multiaddr.Reader

/-!
# When a configuration can be used

A node starts only from a configuration that names at least one topic and no blank one, whose
protocol name starts with a slash, that leaves some time for a request and whose bootstrap peers
are addresses.  The first failing condition, in this order, is the one reported.

* `Config.bootstrapAddresses`: the bootstrap peers as addresses.
* `Config.validate`: the conditions.
* `protocolOfName`: the name of a protocol of direct messages.
-/

namespace PeerNode
namespace Config

/-- A bootstrap peer as an address. -/
def bootstrapAddress (text : String) : Except NodeError Multiaddr :=
  match Multiaddr.read text with
  | .ok address => .ok address
  | .error fault =>
    .error (.invalidConfig ("bad bootstrap peer " ++ text ++ ": " ++ fault.message))

def bootstrapAddresses (c : Config) : Except NodeError (List Multiaddr) :=
  c.bootstrapPeers.mapM bootstrapAddress

def startsWithSlash (s : String) : Bool := s.toList.head? == some '/'

/-- Whether a configuration can be used, and if not, why. -/
def validate (c : Config) : Except NodeError Unit := do
  if c.topics.isEmpty then throw (.invalidConfig "at least one topic is required")
  if let some topic := c.topics.find? Text.allBlank then
    throw (.invalidTopic (Text.quote topic))
  if let some name := c.protocolName then
    if !startsWithSlash name then
      throw (.invalidConfig ("protocol name must start with '/': " ++ name))
  if c.requestTimeout = 0 then
    throw (.invalidConfig "request_timeout_secs must be greater than 0")
  let _ ← c.bootstrapAddresses

/-- The protocol of direct messages with a name, which must start with a slash. -/
def protocolOfName (name : String) : Except NodeError String :=
  if startsWithSlash name then .ok name
  else .error (.invalidConfig ("bad protocol name " ++ name ++
    ": invalid protocol: string does not start with a forward slash"))

end Config
end PeerNode
