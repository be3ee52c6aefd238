import PeerNode.PeerId
import PeerNode.Text.Utf8

/-!
# Messages

A message is what a consumer receives: who sent it, on which topic, and its octets.  A message
that came directly from its sender has no topic.
-/

namespace PeerNode

/-- A message that was received from the network. -/
structure Message where
  /-- The peer that made the message. -/
  sender : PeerName
  /-- The topic on which it arrived; none for a direct message. -/
  topic : Option String
  data : Bytes
  deriving DecidableEq, Repr

namespace Message

def onTopic (sender : PeerName) (topic : String) (data : Bytes) : Message :=
  ⟨sender, some topic, data⟩

def direct (sender : PeerName) (data : Bytes) : Message := ⟨sender, none, data⟩

/-- The octets as text, with U+FFFD where they are none. -/
def text (m : Message) : String := Text.ofBytesLossy m.data

end Message
end PeerNode
