import PeerNode.Key
import PeerNode.Network.Handle
import PeerNode.Proofs.PeerId.Naming
import Mathlib.Tactic.SplitIfs

/-!
# An encoded key denotes its key pair

Octets spell a key pair exactly if their fields, however they are laid out, are the type of an
Ed25519 key and, as data, a seed with its public key (`decode_eq_ok_iff`).  The fields that a key
pair is encoded as are these (`Fields.decode?_encode`), so encoding it and decoding that gives it
back, and every layout of the same fields is decoded as the same key pair.

The name of a node is made from its public key.  As the text of an identity it denotes that
identity, so it is a name that can be sent to.

* `KeyPair.decode_eq_ok_iff`, `KeyPair.decode_encode`: octets and key pairs.
* `KeyPair.toId_peerName`, `KeyPair.parse_peerName`: the name of a node denotes its identity.
* `Network.sendTo_ne_invalidPeerId`: sending to a name that denotes someone is not refused for it.
-/

namespace PeerNode

/-! ## Fields -/

namespace Key

theorem readLoose?_cons {b : UInt8} (h : b < 128) (rest : Bytes) :
    Varint.readLoose? (b :: rest) = some (b.toNat, rest) := by
  rw [Varint.readLoose?, Varint.readLooseGroups, if_neg (by decide), if_pos h]

theorem readSized?_append {data : Bytes} (h : data.length < 128) (rest : Bytes) :
    readSized? (data.length.toUInt8 :: (data ++ rest)) = some (data, rest) := by
  have hsize : data.length.toUInt8.toNat = data.length := by
    rw [Nat.toUInt8_eq, UInt8.toNat_ofNat_of_lt' (by change _ < 256; omega)]
  have hsmall : data.length.toUInt8 < 128 := by
    rw [UInt8.lt_iff_toNat_lt, hsize]
    exact h
  rw [readSized?, readLoose?_cons hsmall, hsize]
  simp

theorem readHeader?_data (rest : Bytes) : readHeader? (18 :: rest) = some (2, .sized, rest) := by
  rw [readHeader?, readLoose?_cons (by decide)]
  rfl

theorem readHeader?_type (rest : Bytes) : readHeader? (8 :: rest) = some (1, .varint, rest) := by
  rw [readHeader?, readLoose?_cons (by decide)]
  rfl

theorem readFields?_type {type : UInt8} (h : type < 128) (fuel : Nat) (f : Fields) (rest : Bytes) :
    readFields? (fuel + 1) f (8 :: type :: rest) =
      readFields? fuel { f with type := signed32 type.toNat } rest := by
  rw [readFields?, readHeader?_type]
  simp [readLoose?_cons h]

theorem readFields?_data {data : Bytes} (h : data.length < 128) (fuel : Nat) (f : Fields)
    (rest : Bytes) :
    readFields? (fuel + 1) f (18 :: data.length.toUInt8 :: (data ++ rest)) =
      readFields? fuel { f with data := data } rest := by
  rw [readFields?, readHeader?_data]
  simp [readSized?_append h]

/-- **The octets of fields spell these fields**, if their data is short. -/
theorem Fields.decode?_encode {data : Bytes} (h : data.length < 128) :
    decode? (⟨1, data⟩ : Fields).encode = some ⟨1, data⟩ := by
  have hsize : Varint.encode data.length = [data.length.toUInt8] := by
    rw [Varint.encode, if_pos h]
  have hencode : (⟨1, data⟩ : Fields).encode =
      8 :: 1 :: 18 :: data.length.toUInt8 :: (data ++ []) := by
    rw [encode, hsize]
    simp
  have hone : signed32 (1 : UInt8).toNat = 1 := by decide
  rw [decode?, hencode, List.length_cons, readFields?_type (by decide), List.length_cons,
    readFields?_data h, readFields?, hone]

end Key

/-- **The text of an identity is read as its name.** -/
theorem PeerName.parse_ofId (i : PeerId) : parse (ofId i).text = .ok (ofId i) := by
  have hread : PeerId.ofText (ofId i).text = .ok i := PeerId.ofText_toText i
  unfold parse
  rw [hread]

namespace KeyPair

variable {bs : Bytes} {k : KeyPair}

/-! ## Key pairs -/

theorem length_data (k : KeyPair) : (k.seed ++ k.publicKey).length = 64 := by
  have hpublic : k.publicKey.length = 32 := Ed25519.length_publicKey k.seed
  rw [List.length_append, k.seed_length, hpublic]

/-- Data spells a key pair exactly if it is a seed with its public key. -/
theorem ofData?_eq_some_iff {data : Bytes} :
    ofData? data = some k ↔ data = k.seed ++ k.publicKey := by
  unfold ofData?
  constructor
  · intro h
    simp only at h
    split at h
    · split at h
      · rename_i hpublic
        cases h
        conv_lhs => rw [← List.take_append_drop 32 data, hpublic]
        rfl
      · cases h
    · cases h
  · rintro rfl
    have htake : (k.seed ++ k.publicKey).take 32 = k.seed := by
      rw [← k.seed_length, List.take_left']
      rfl
    have hdrop : (k.seed ++ k.publicKey).drop 32 = k.publicKey := by
      rw [← k.seed_length, List.drop_left']
      rfl
    simp only [htake, hdrop]
    rw [dif_pos k.seed_length, if_pos (show k.publicKey = Ed25519.publicKey k.seed from rfl)]

/-- **Octets spell a key pair exactly if their fields do**, however these are laid out. -/
theorem decode_eq_ok_iff :
    decode bs = .ok k ↔ Key.Fields.decode? bs = some ⟨ed25519Type, k.seed ++ k.publicKey⟩ := by
  have hfields : decode bs = .ok k ↔ decodeFields bs = .ok k := by
    unfold decode
    cases decodeFields bs <;> simp
  rw [hfields]
  unfold decodeFields
  cases Key.Fields.decode? bs with
  | none => simp
  | some f =>
    obtain ⟨type, data⟩ := f
    simp only [Option.some.injEq, Key.Fields.mk.injEq]
    by_cases htype : type = ed25519Type
    · subst htype
      rw [if_neg (by decide), if_pos rfl, ← ofData?_eq_some_iff]
      cases ofData? data <;> simp
    · constructor
      · intro h
        split_ifs at h
      · exact fun h => absurd h.1 htype

/-- **A key pair is given back by its octets.** -/
theorem decode_encode (k : KeyPair) : decode k.encode = .ok k :=
  decode_eq_ok_iff.2 (Key.Fields.decode?_encode (by rw [k.length_data]; decide))

/-! ## The name of a node -/

/-- The name of a node denotes its identity. -/
theorem toId_peerName (k : KeyPair) : k.peerName.toId = .ok k.peerId :=
  PeerName.toId_ofId k.peerId

/-- The text of the name is read as the name. -/
theorem parse_peerName (k : KeyPair) : PeerName.parse k.peerName.text = .ok k.peerName :=
  PeerName.parse_ofId k.peerId

end KeyPair

theorem Passage.result_ne_invalidPeerId (p : Passage) (peer : PeerId) (octets : Bytes)
    {detail : String} : p.result peer octets ≠ .error (.invalidPeerId detail) := by
  unfold result
  split
  · exact fun h => nomatch h
  · split
    · exact fun h => nomatch h
    · split <;> exact fun h => nomatch h

namespace Network

variable {H : Host} {net : Network H} {i : Nat} {detail : String}

/-- What is asked of a node is not refused for a name, unless the node does so. -/
theorem request_ne_invalidPeerId {α : Type} {f : Node → Network H × Except NodeError α}
    (hf : ∀ n, (f n).2 ≠ .error (.invalidPeerId detail)) :
    (net.request i f).2 ≠ .error (.invalidPeerId detail) := by
  unfold request
  split
  · split
    · exact hf _
    · exact fun h => nomatch h
  · exact fun h => nomatch h

theorem sendOctets_ne_invalidPeerId (peer : PeerId) (octets : Bytes) :
    (net.sendOctets i peer octets).2 ≠ .error (.invalidPeerId detail) := by
  refine request_ne_invalidPeerId fun n => ?_
  split
  · exact fun h => nomatch h
  · exact Passage.result_ne_invalidPeerId _ peer octets

/-- **Sending to a name that denotes an identity is not refused for the name.** -/
theorem sendTo_ne_invalidPeerId {recipient : PeerName} {peer : PeerId}
    (h : recipient.toId = .ok peer) (payload : Bytes) :
    (net.sendTo i recipient payload).2 ≠ .error (.invalidPeerId detail) := by
  unfold sendTo
  rw [h]
  simp only
  split
  · exact fun h => nomatch h
  · exact sendOctets_ne_invalidPeerId peer _

theorem sendFrom_ne_invalidPeerId {recipient : PeerName} {peer : PeerId}
    (h : recipient.toId = .ok peer) (payload : Bytes) :
    (net.sendFrom i recipient payload).2 ≠ .error (.invalidPeerId detail) := by
  unfold sendFrom
  split
  · exact sendTo_ne_invalidPeerId h payload
  · exact fun h => nomatch h

end Network
end PeerNode
