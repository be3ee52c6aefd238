import PeerNode.Multiaddr.Ip
import PeerNode.PeerId
import PeerNode.Radix
import PeerNode.Text.Utf8

/-!
# The components of an address

An address is a sequence of components, each of which names a protocol and gives its argument: the
path by which a peer is reached, from the outside in.

Protocols whose arguments are of one kind form one class: those without an argument, those with a
port and those with a name.  Each protocol has a name, by which it is written, and a code, by
which it stands in the binary form.

* `Component`: the components.
* `Component.toText`, `Component.toBytes`: the text and the binary form of a component.
* `Multiaddr`: an address; `Multiaddr.toText` and `Multiaddr.toBytes` are its forms.
-/

namespace PeerNode

/-- The protocols without an argument. -/
inductive BareProtocol where
  | udt | utp | http | https | tls | noise | quic | quicV1 | webtransport | p2pCircuit
  | p2pWebrtcStar | p2pWebrtcDirect | p2pStardust | webrtcDirect | webrtc | p2pWebsocketStar
  deriving DecidableEq, Repr

namespace BareProtocol

def all : List BareProtocol :=
  [udt, utp, http, https, tls, noise, quic, quicV1, webtransport, p2pCircuit, p2pWebrtcStar,
    p2pWebrtcDirect, p2pStardust, webrtcDirect, webrtc, p2pWebsocketStar]

/-- The name of a protocol. -/
def name : BareProtocol → String
  | udt => "udt"
  | utp => "utp"
  | http => "http"
  | https => "https"
  | tls => "tls"
  | noise => "noise"
  | quic => "quic"
  | quicV1 => "quic-v1"
  | webtransport => "webtransport"
  | p2pCircuit => "p2p-circuit"
  | p2pWebrtcStar => "p2p-webrtc-star"
  | p2pWebrtcDirect => "p2p-webrtc-direct"
  | p2pStardust => "p2p-stardust"
  | webrtcDirect => "webrtc-direct"
  | webrtc => "webrtc"
  | p2pWebsocketStar => "p2p-websocket-star"

/-- The code of a protocol. -/
def code : BareProtocol → Nat
  | udt => 301
  | utp => 302
  | http => 480
  | https => 443
  | tls => 448
  | noise => 454
  | quic => 460
  | quicV1 => 461
  | webtransport => 465
  | p2pCircuit => 290
  | p2pWebrtcStar => 275
  | p2pWebrtcDirect => 276
  | p2pStardust => 277
  | webrtcDirect => 280
  | webrtc => 281
  | p2pWebsocketStar => 479

end BareProtocol

/-- The protocols whose argument is a port. -/
inductive PortProtocol where
  | tcp | udp | dccp | sctp
  deriving DecidableEq, Repr

namespace PortProtocol

def all : List PortProtocol := [tcp, udp, dccp, sctp]

/-- The name of a protocol. -/
def name : PortProtocol → String
  | tcp => "tcp"
  | udp => "udp"
  | dccp => "dccp"
  | sctp => "sctp"

/-- The code of a protocol. -/
def code : PortProtocol → Nat
  | tcp => 6
  | udp => 273
  | dccp => 33
  | sctp => 132

end PortProtocol

/-- The protocols whose argument is a name. -/
inductive NameProtocol where
  | ip6zone | dns | dns4 | dns6 | dnsaddr | unix | sni
  deriving DecidableEq, Repr

namespace NameProtocol

def all : List NameProtocol := [ip6zone, dns, dns4, dns6, dnsaddr, unix, sni]

/-- The name of a protocol. -/
def name : NameProtocol → String
  | ip6zone => "ip6zone"
  | dns => "dns"
  | dns4 => "dns4"
  | dns6 => "dns6"
  | dnsaddr => "dnsaddr"
  | unix => "unix"
  | sni => "sni"

/-- The code of a protocol. -/
def code : NameProtocol → Nat
  | ip6zone => 42
  | dns => 53
  | dns4 => 54
  | dns6 => 55
  | dnsaddr => 56
  | unix => 400
  | sni => 449

end NameProtocol

/-- A component of an address. -/
inductive Component where
  | bare (protocol : BareProtocol)
  | port (protocol : PortProtocol) (n : UInt16)
  | name (protocol : NameProtocol) (text : String)
  | ip4 (address : Ip4)
  | ip6 (address : Ip6)
  /-- The length of a network mask. -/
  | ipcidr (n : UInt8)
  | p2p (id : PeerId)
  | onion (address : Bytes) (port : UInt16)
  | onion3 (address : Bytes) (port : UInt16)
  | garlic64 (address : Bytes)
  | garlic32 (address : Bytes)
  | certhash (hash : Multihash)
  /-- A web socket at a path; `secure` if it runs over TLS. -/
  | websocket (secure : Bool) (path : String)
  /-- The path of a resource behind the peer. -/
  | httpPath (path : String)
  | memory (n : UInt64)
  deriving DecidableEq

/-- An address: the path by which a peer is reached. -/
abbrev Multiaddr := List Component

namespace Component

/-! ## Text -/

/-- Whether an octet must be written as an escape inside a segment of a path. -/
def needsPercent (b : UInt8) : Bool :=
  b < 0x20 || 0x7F ≤ b || " \"#%/<>?\x60\x7b\x7d".toList.any fun c => c.toNat == b.toNat

/-- An octet as it stands inside a segment of a path. -/
def percentOctet (b : UInt8) : List Char :=
  if needsPercent b then '%' :: (Radix.base16.encodeFrom 0 0 [b]).map Char.toUpper
  else [Char.ofNat b.toNat]

def percentText (s : String) : String :=
  String.ofList ((Bytes.ofText s).flatMap percentOctet)

/-- A hidden service: its address in base 32 and its port. -/
def onionText (address : Bytes) (port : UInt16) : String :=
  Radix.base32.encode address ++ ":" ++ toString port.toNat

/-- A base-64 text with the characters that a path does not allow replaced. -/
def garlicText (address : Bytes) : String :=
  String.ofList ((Radix.base64.encode address).toList.map fun c =>
    if c = '+' then '-' else if c = '/' then '~' else c)

def toText : Component → String
  | bare p => "/" ++ p.name
  | port p n => "/" ++ p.name ++ "/" ++ toString n.toNat
  | name p text => "/" ++ p.name ++ "/" ++ text
  | ip4 a => "/ip4/" ++ a.toText
  | ip6 a => "/ip6/" ++ a.toText
  | ipcidr n => "/ipcidr/" ++ toString n.toNat
  | p2p id => "/p2p/" ++ id.toText
  | onion a n => "/onion/" ++ onionText a n
  | onion3 a n => "/onion3/" ++ onionText a n
  | garlic64 a => "/garlic64/" ++ garlicText a
  | garlic32 a => "/garlic32/" ++ Radix.base32.encode a
  | certhash h => "/certhash/u" ++ Radix.base64Url.encode h.encode
  | websocket secure path =>
    let name := if secure then "wss" else "ws"
    if path = "/" then "/" ++ name else "/x-parity-" ++ name ++ "/" ++ percentText path
  | httpPath path => "/http-path/" ++ percentText path
  | memory n => "/memory/" ++ toString n.toNat

/-! ## Binary form -/

/-- The octets of a number of `count` octets, the most significant first. -/
def bigEndian (n : Nat) : Nat → Bytes
  | 0 => []
  | count + 1 => (n / 256 ^ count % 256).toUInt8 :: bigEndian n count

/-- A code, then the octets of an argument of fixed size. -/
def fixed (code : Nat) (argument : Bytes) : Bytes := Varint.encode code ++ argument

/-- A code, then the octets of an argument with their number in front. -/
def sized (code : Nat) (argument : Bytes) : Bytes :=
  Varint.encode code ++ Varint.encode argument.length ++ argument

def toBytes : Component → Bytes
  | bare p => Varint.encode p.code
  | port p n => fixed p.code (bigEndian n.toNat 2)
  | name p text => sized p.code (Bytes.ofText text)
  | ip4 a => fixed 4 a.toBytes
  | ip6 a => fixed 41 a.toBytes
  | ipcidr n => fixed 43 [n]
  | p2p id => sized 421 id.toBytes
  | onion a n => fixed 444 (a ++ bigEndian n.toNat 2)
  | onion3 a n => fixed 445 (a ++ bigEndian n.toNat 2)
  | garlic64 a => sized 446 a
  | garlic32 a => sized 447 a
  | certhash h => sized 466 h.encode
  | websocket false path => if path = "/" then fixed 477 [] else sized 4770 (Bytes.ofText path)
  | websocket true path => if path = "/" then fixed 478 [] else sized 4780 (Bytes.ofText path)
  | httpPath path => sized 481 (Bytes.ofText path)
  | memory n => fixed 777 (bigEndian n.toNat 8)

/-- The peer that a component names. -/
def peer? : Component → Option PeerId
  | p2p id => some id
  | _ => none

end Component

namespace Multiaddr

def toText (m : Multiaddr) : String := String.join (m.map Component.toText)

def toBytes (m : Multiaddr) : Bytes := m.flatMap Component.toBytes

def peers (m : Multiaddr) : List PeerId := m.filterMap Component.peer?

/-- The peer under which an address is filed: the first one that it names. -/
def peer? (m : Multiaddr) : Option PeerId := m.peers.head?

end Multiaddr
end PeerNode
