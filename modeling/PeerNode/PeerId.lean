import PeerNode.Base58
import PeerNode.Error
import PeerNode.Multihash

/-!
# Peer identities

A peer is identified by a multihash of its public key: the key itself if it is short, and its
SHA-256 digest otherwise.  Users see the identity as base-58 text.  Text that came from outside is
a *name*, which may or may not denote an identity; the text of an identity is always a name that
denotes it.

* `PeerId`: an identity.
* `PeerId.toText`, `PeerId.ofText`: its text, and the identity that a text denotes.
* `PeerName`: a text that is taken for the name of a peer.
-/

namespace PeerNode

def sha256Code : Nat := 0x12

/-- The code of the digest that is the message itself. -/
def identityCode : Nat := 0

/-- The longest public key that stands for itself. -/
def maxInlineKey : Nat := 42

/-- Whether a multihash is of a kind that identifies a peer. -/
def Multihash.identifiesPeer (h : Multihash) : Bool :=
  h.code == sha256Code && h.digest.length ≤ Multihash.maxDigest ||
    h.code == identityCode && h.digest.length ≤ maxInlineKey

/-- The identity of a peer. -/
structure PeerId where
  hash : Multihash
  identifies : hash.identifiesPeer = true
  deriving DecidableEq

namespace PeerId

/-- The ways in which a text fails to denote a peer. -/
inductive Fault where
  /-- The text is no base-58 number. -/
  | base58 (fault : Base58.Fault)
  /-- The octets spell no multihash. -/
  | multihash
  /-- The multihash is of a kind that identifies no peer. -/
  | code (code : Nat)
  deriving DecidableEq, Repr

/-- What the user reads about a text that denotes no peer. -/
def Fault.message : Fault → String
  | base58 fault => "base-58 decode error: " ++ fault.message
  | multihash => "invalid multihash"
  | code n => "unsupported multihash code '" ++ toString n ++ "'"

def toBytes (i : PeerId) : Bytes := i.hash.encode

/-- The identity that octets spell. -/
def ofBytes (bs : Bytes) : Except Fault PeerId :=
  match Multihash.decode bs with
  | .error _ => .error .multihash
  | .ok h => if hk : h.identifiesPeer = true then .ok ⟨h, hk⟩ else .error (.code h.code)

def toText (i : PeerId) : String := Base58.encode i.toBytes

/-- The identity that a text denotes. -/
def ofText (s : String) : Except Fault PeerId :=
  match Base58.decode s with
  | .error fault => .error (.base58 fault)
  | .ok bs => ofBytes bs

end PeerId

/-- A text that is taken for the name of a peer. -/
structure PeerName where
  text : String
  deriving DecidableEq, Repr, Hashable

namespace PeerName

def ofId (i : PeerId) : PeerName := ⟨i.toText⟩

/-- The identity that a name denotes. -/
def toId (n : PeerName) : Except NodeError PeerId :=
  match PeerId.ofText n.text with
  | .ok i => .ok i
  | .error fault => .error (.invalidPeerId (n.text ++ ": " ++ fault.message))

/-- The name of the identity that a text denotes, in the one text that the identity has. -/
def parse (s : String) : Except NodeError PeerName :=
  match PeerId.ofText s with
  | .ok i => .ok (.ofId i)
  | .error fault => .error (.invalidPeerId (s ++ ": " ++ fault.message))

end PeerName
end PeerNode
