/-!
# Octets

Everything the node moves --- payloads, frames, encoded keys, binary addresses --- is a finite
sequence of octets.  A list is the plainest such sequence and the one whose laws are at hand, so
the library uses lists throughout and converts only at its edge.

* `Bytes.ofText`: the UTF-8 octets of a text.
* `Bytes.text?`: the text whose UTF-8 octets these are, if there is one.
-/

namespace PeerNode

/-- A sequence of octets. -/
abbrev Bytes := List UInt8

namespace Bytes

/-- The UTF-8 octets of a text. -/
def ofText (s : String) : Bytes := s.toUTF8.toList

/-- The text whose UTF-8 octets these are; none if they are not UTF-8. -/
def text? (bs : Bytes) : Option String := String.fromUTF8? ⟨bs.toArray⟩

def newline : UInt8 := 10

end Bytes

end PeerNode
