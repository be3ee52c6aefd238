import PeerNode.Base64
import PeerNode.Ed25519
import PeerNode.Key.Fields
import PeerNode.PeerId
import PeerNode.Text.Blank

/-!
# Keys

A node signs with an Ed25519 key pair, which its seed determines.  Key pairs are stored as
encoded fields: the type and, as data, the seed with the public key after it.  Decoding checks
that the two belong together.  In configuration files and on the command line the encoded key
stands as base64 text, around which blank characters do not matter.

* `KeyPair`: a key pair.
* `KeyPair.encode`, `KeyPair.decode`: its octets, and the key pair that octets spell.
* `KeyPair.peerId`: the identity of a node that has this key pair.
* `keyText`, `readKeyText`: encoded octets as text, and back.
-/

namespace PeerNode

/-- An Ed25519 key pair, given by its seed. -/
structure KeyPair where
  seed : Bytes
  seed_length : seed.length = 32
  deriving DecidableEq

/-- The public key has 32 octets. -/
theorem Ed25519.length_littleEndian (n count : Nat) : (littleEndian n count).length = count := by
  induction count generalizing n with
  | zero => rfl
  | succ count ih => simp [littleEndian, ih]

/-- The public key has 32 octets. -/
theorem Ed25519.length_publicKey (seed : Bytes) : (publicKey seed).length = 32 :=
  length_littleEndian _ _

namespace KeyPair

/-- The type that an encoded Ed25519 key has. -/
def ed25519Type : Int := 1

def publicKey (k : KeyPair) : Bytes := Ed25519.publicKey k.seed

def encode (k : KeyPair) : Bytes := (⟨ed25519Type, k.seed ++ k.publicKey⟩ : Key.Fields).encode

def encodePublic (k : KeyPair) : Bytes := (⟨ed25519Type, k.publicKey⟩ : Key.Fields).encode

/-- The ways in which octets fail to be an encoded key pair. -/
inductive Fault where
  /-- The octets are no sequence of fields. -/
  | fields
  /-- The type is known but not served. -/
  | unserved (type : String)
  /-- The type is unknown. -/
  | unknownType (type : Int)
  /-- The data is no Ed25519 key pair. -/
  | mismatch
  deriving DecidableEq, Repr

/-- What the user reads about octets that are no encoded key pair. -/
def Fault.message : Fault → String
  | fields => "Key decoding error: failed to decode private key bytes from protobuf"
  | unserved type =>
    "Key decoding error: cargo feature " ++ "\x60" ++ type ++ "\x60" ++ " is not enabled"
  | unknownType type => "Key decoding error: unknown key type " ++ toString type
  | mismatch => "Key decoding error: failed to parse Ed25519 keypair"

/-- The key pair that the data of an encoded key spells. -/
def ofData? (data : Bytes) : Option KeyPair :=
  let seed := data.take 32
  if h : seed.length = 32 then
    if data.drop 32 = Ed25519.publicKey seed then some ⟨seed, h⟩ else none
  else none

/-- The key pair that octets spell. -/
def decodeFields (bs : Bytes) : Except Fault KeyPair :=
  match Key.Fields.decode? bs with
  | none => .error .fields
  | some f =>
    if f.type = 0 then .error (.unserved "rsa")
    else if f.type = ed25519Type then
      match ofData? f.data with
      | some k => .ok k
      | none => .error .mismatch
    else if f.type = 2 then .error (.unserved "secp256k1")
    else if f.type = 3 then .error (.unserved "ecdsa")
    else .error (.unknownType f.type)

/-- The key pair that octets spell. -/
def decode (bs : Bytes) : Except NodeError KeyPair :=
  match decodeFields bs with
  | .ok k => .ok k
  | .error fault => .error (.invalidKey fault.message)

/-- The encoded public key is short enough to identify a peer by itself. -/
theorem encodePublic_identifies (k : KeyPair) :
    (⟨identityCode, k.encodePublic⟩ : Multihash).identifiesPeer = true := by
  have h : k.publicKey.length = 32 := Ed25519.length_publicKey _
  have hv : Varint.encode 32 = [32] := by
    rw [Varint.encode]; rfl
  simp [Multihash.identifiesPeer, identityCode, sha256Code, maxInlineKey, encodePublic,
    Key.Fields.encode, h, hv]

/-- The identity of a node that has this key pair: its encoded public key. -/
def peerId (k : KeyPair) : PeerId := ⟨⟨identityCode, k.encodePublic⟩, k.encodePublic_identifies⟩

def peerName (k : KeyPair) : PeerName := .ofId k.peerId

/-- The key pair of a node: the one supplied, or else the fresh one. -/
def resolve (fresh : KeyPair) : Option Bytes → Except NodeError KeyPair
  | some bs => decode bs
  | none => .ok fresh

/-- The key pair of a seed, which is cut or filled with zeros to 32 octets. -/
def ofSeed (seed : Bytes) : KeyPair :=
  ⟨(seed ++ List.replicate 32 0).take 32, by simp⟩

end KeyPair

def keyText (bs : Bytes) : String := Base64.encode bs

/-- The octets of a text, around which blank characters do not matter. -/
def readKeyText (s : String) : Except NodeError Bytes :=
  match Base64.decode (Text.trim s) with
  | .ok bs => .ok bs
  | .error fault => .error (.invalidKey ("bad base64: " ++ fault.message))

end PeerNode
