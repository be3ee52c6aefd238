import PeerNode.Varint

/-!
# Multihashes

A multihash names the function that made a digest: its code, the size of the digest and the
digest itself, the two numbers in variable-length form.

* `Multihash.encode`: the octets of a multihash.
* `Multihash.decode`: the multihash that octets spell, with nothing before or after it.
-/

namespace PeerNode

/-- A digest with the code of the function that made it. -/
structure Multihash where
  code : Nat
  digest : Bytes
  deriving DecidableEq, Repr

namespace Multihash

def maxDigest : Nat := 64

def encode (h : Multihash) : Bytes :=
  Varint.encode h.code ++ Varint.encode h.digest.length ++ h.digest

/-- The ways in which octets fail to spell a multihash. -/
inductive Fault where
  /-- One of the two numbers is faulty. -/
  | number (fault : Varint.Fault)
  /-- The digest is too long, or so many octets follow it. -/
  | size (n : Nat)
  /-- The octets end inside the digest. -/
  | shortDigest
  deriving DecidableEq, Repr

/-- What the user reads about octets that spell no multihash. -/
def Fault.message : Fault → String
  | number .insufficient => "unexpected end of file"
  | number fault => fault.message
  | size n => "Invalid multihash size " ++ toString n ++ "."
  | shortDigest => "failed to fill whole buffer"

/-- The multihash that octets spell. -/
def decode (bs : Bytes) : Except Fault Multihash :=
  match Varint.read bs with
  | .error fault => .error (.number fault)
  | .ok (code, rest) =>
    match Varint.read rest with
    | .error fault => .error (.number fault)
    | .ok (size, digest) =>
      if maxDigest < size then .error (.size size)
      else if digest.length < size then .error .shortDigest
      else if size < digest.length then .error (.size (digest.length - size))
      else .ok ⟨code, digest⟩

end Multihash
end PeerNode
