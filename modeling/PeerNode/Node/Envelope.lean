import PeerNode.PeerId

/-!
# Envelopes

A message on a topic travels in an envelope: its author, its octets, a sequence number, its topic
and the author's signature, each as a field with a tag of one octet and its length in front.  What
is published must fit into an envelope of bounded size.

* `Envelope.size`: how many octets an envelope has.
* `Envelope.limit`: how many it may have.
-/

namespace PeerNode

/-- A message on a topic as it travels. -/
structure Envelope where
  author : PeerId
  topic : String
  data : Bytes
  deriving DecidableEq

namespace Envelope

def limit : Nat := 1048576

def sequenceLength : Nat := 8

def signatureLength : Nat := 64

/-- The octets that a field takes whose value has so many octets. -/
def fieldSize (length : Nat) : Nat := 1 + (Varint.encode length).length + length

/-- The octets that an envelope has. -/
def size (e : Envelope) : Nat :=
  fieldSize e.author.toBytes.length + fieldSize e.data.length + fieldSize sequenceLength +
    fieldSize e.topic.utf8ByteSize + fieldSize signatureLength

def fits (e : Envelope) : Bool := e.size ≤ limit

end Envelope
end PeerNode
