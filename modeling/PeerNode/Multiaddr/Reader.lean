import PeerNode.Multiaddr.Component
import PeerNode.Multibase
import PeerNode.Text.Upper
import PeerNode.Whole

/-!
# Reading addresses

The text of an address starts with a slash, and slashes divide it into parts: the name of a
protocol, then its argument if it takes one, then the next name.

* `Multiaddr.read`: the address that a text spells.
* `Multiaddr.Fault.message`: what the user reads about a text that spells none.
-/

namespace PeerNode
namespace Multiaddr

/-- The ways in which the argument of a protocol is faulty. -/
inductive ArgumentFault where
  | whole (fault : Whole.Fault)
  | ip4
  | ip6
  | base (fault : Multibase.Fault)
  | peer (fault : PeerId.Fault)
  | hash (fault : Multihash.Fault)
  | text (fault : Text.Utf8Fault)
  deriving DecidableEq, Repr

/-- What the user reads about a faulty argument. -/
def ArgumentFault.message : ArgumentFault → String
  | whole fault => fault.message
  | ip4 => "invalid IPv4 address syntax"
  | ip6 => "invalid IPv6 address syntax"
  | base fault => fault.message
  | peer fault => fault.message
  | hash fault => fault.message
  | text fault => fault.message

/-- The ways in which a text fails to spell an address. -/
inductive Fault where
  /-- The text does not start with a slash, or an argument has no valid form. -/
  | malformed
  /-- An argument is missing or has no valid length. -/
  | protocolText
  /-- No protocol has this name. -/
  | unknownProtocol (name : String)
  /-- An argument is faulty. -/
  | argument (fault : ArgumentFault)
  deriving DecidableEq, Repr

/-- What the user reads about a text that spells no address. -/
def Fault.message : Fault → String
  | malformed => "invalid multiaddr"
  | protocolText => "invalid protocol string"
  | unknownProtocol name => "unknown protocol string: " ++ name
  | argument fault => "failed to parse: " ++ fault.message

/-! ## Arguments -/

/-- The number below `bound` that an argument spells. -/
def readWhole (bound : Nat) (cs : List Char) : Except Fault Nat :=
  match Whole.readChars bound cs with
  | .ok n => .ok n
  | .error fault => .error (.argument (.whole fault))

def readPort (cs : List Char) : Except Fault UInt16 := (readWhole UInt16.size cs).map Nat.toUInt16

/-- The peer that an argument names. -/
def readPeer (cs : List Char) : Except Fault PeerId :=
  match Multibase.positional? Base58.digits cs with
  | none => .error (.argument (.base .invalidText))
  | some bs =>
    match PeerId.ofBytes bs with
    | .ok id => .ok id
    | .error fault => .error (.argument (.peer fault))

/-- The digest that an argument spells in a base that it names. -/
def readHash (cs : List Char) : Except Fault Multihash :=
  match Multibase.decode cs with
  | .error fault => .error (.argument (.base fault))
  | .ok bs =>
    match Multihash.decode bs with
    | .ok h => .ok h
    | .error fault => .error (.argument (.hash fault))

/-- The address of `size` octets and the port of a hidden service.  The case of letters does not
count, so all are taken in upper case; then the address takes `digits` characters of padded base
32, where octets that are missing at its end are zero, and the port may not be zero. -/
def readOnion (size digits : Nat) (cs : List Char) : Except Fault (Bytes × UInt16) :=
  match (Text.upper cs).splitOn ':' with
  | [] | [_] => .error .malformed
  | address :: port :: more =>
    if (Bytes.ofText (String.ofList address)).length ≠ digits then .error .malformed
    else match readPort port with
      | .error fault => .error fault
      | .ok port =>
        if port = 0 ∨ !more.isEmpty then .error .malformed
        else match Radix.base32.decodePadded? address with
          | none => .error .malformed
          | some bs => .ok ((bs ++ List.replicate size 0).take size, port)

/-- The octets of an argument in a base without padding. -/
def readRadix (r : Radix) (cs : List Char) : Except Fault Bytes :=
  match r.decode? cs with
  | some bs => .ok bs
  | none => .error (.argument (.base .invalidText))

/-- The octets of a garlic address in base 64, of which two characters are replaced. -/
def readGarlic64 (cs : List Char) : Except Fault Bytes :=
  let size := (Bytes.ofText (String.ofList cs)).length
  if size < 516 ∨ 616 < size then .error .protocolText
  else readRadix .base64 (cs.map fun c => if c = '-' then '+' else if c = '~' then '/' else c)

/-- The octets of a garlic address in base 32. -/
def readGarlic32 (cs : List Char) : Except Fault Bytes :=
  let size := (Bytes.ofText (String.ofList cs)).length
  if size < 55 ∧ size ≠ 52 then .error .protocolText else readRadix .base32 cs

/-- The octets of a segment of a path: a percent sign with two hexadecimal digits is one octet. -/
def unescape : Bytes → Bytes
  | 37 :: a :: b :: rest =>
    match Ip6.hexValue? (Char.ofNat a.toNat), Ip6.hexValue? (Char.ofNat b.toNat) with
    | some x, some y => (x * 16 + y).toUInt8 :: unescape rest
    | _, _ => 37 :: unescape (a :: b :: rest)
  | b :: rest => b :: unescape rest
  | [] => []

/-- The path that an argument spells. -/
def readPath (cs : List Char) : Except Fault String :=
  match Text.ofBytes (unescape (Bytes.ofText (String.ofList cs))) with
  | .ok path => .ok path
  | .error fault => .error (.argument (.text fault))

/-! ## Components -/

/-- How the argument of a protocol is read. -/
abbrev ArgumentReader := List Char → Except Fault Component

/-- How the argument of the protocol with a name is read, if it takes one. -/
def argumentReader? (name : String) : Option ArgumentReader :=
  match PortProtocol.all.find? fun p => p.name == name with
  | some p => some fun cs => (readPort cs).map (.port p)
  | none =>
    match NameProtocol.all.find? fun p => p.name == name with
    | some p => some fun cs => .ok (.name p (String.ofList cs))
    | none =>
      match name with
      | "ip4" => some fun cs =>
        match Ip4.read? cs with
        | some a => .ok (.ip4 a)
        | none => .error (.argument .ip4)
      | "ip6" => some fun cs =>
        match Ip6.read? cs with
        | some a => .ok (.ip6 a)
        | none => .error (.argument .ip6)
      | "ipcidr" => some fun cs => (readWhole UInt8.size cs).map fun n => .ipcidr n.toUInt8
      | "p2p" | "ipfs" => some fun cs => (readPeer cs).map .p2p
      | "onion" => some fun cs => (readOnion 10 16 cs).map fun (a, p) => .onion a p
      | "onion3" => some fun cs => (readOnion 35 56 cs).map fun (a, p) => .onion3 a p
      | "garlic64" => some fun cs => (readGarlic64 cs).map .garlic64
      | "garlic32" => some fun cs => (readGarlic32 cs).map .garlic32
      | "certhash" => some fun cs => (readHash cs).map .certhash
      | "x-parity-ws" => some fun cs => (readPath cs).map (.websocket false)
      | "x-parity-wss" => some fun cs => (readPath cs).map (.websocket true)
      | "http-path" => some fun cs => (readPath cs).map .httpPath
      | "memory" => some fun cs => (readWhole UInt64.size cs).map fun n => .memory n.toUInt64
      | _ => none

/-- The component of the protocol with a name that takes no argument. -/
def bare? (name : String) : Option Component :=
  match BareProtocol.all.find? fun p => p.name == name with
  | some p => some (.bare p)
  | none =>
    match name with
    | "ws" => some (.websocket false "/")
    | "wss" => some (.websocket true "/")
    | _ => none

/-- The components that the parts of a text spell. -/
def readParts : List (List Char) → Except Fault Multiaddr
  | [] => .ok []
  | part :: rest =>
    let name := String.ofList part
    match bare? name with
    | some component =>
      match readParts rest with
      | .ok more => .ok (component :: more)
      | .error fault => .error fault
    | none =>
      match argumentReader? name with
      | none => .error (.unknownProtocol name)
      | some reader =>
        match rest with
        | [] => .error .protocolText
        | argument :: rest =>
          match reader argument with
          | .error fault => .error fault
          | .ok component =>
            match readParts rest with
            | .ok more => .ok (component :: more)
            | .error fault => .error fault

/-- The address that characters spell. -/
def readChars (cs : List Char) : Except Fault Multiaddr :=
  match cs.splitOn '/' with
  | [] :: parts => readParts parts
  | _ => .error .malformed

def read (s : String) : Except Fault Multiaddr := readChars s.toList

end Multiaddr
end PeerNode
