import PeerNode.Frame.Writer
import PeerNode.PeerId

/-!
# What the host makes of what a node sends

Whatever a node sends it hands to its host, which answers.  A message on a topic is taken in, though
perhaps nobody listens, or it is refused.  Octets for a peer go on a stream of their own: the stream
may not be had, writing or closing it may fail, and all of this must be done before a time is up.
When the time is up the stream may have taken some of the octets or even all of them, so a send that
is reported as failed may still have reached the peer.

* `Verdict`, `Verdict.result`: what the host says to a message on a topic, and what is reported.
* `Passage`: what it makes of octets for a peer.
* `Passage.taken`, `Passage.result`: the octets that the stream has taken, and what is reported.
-/

namespace PeerNode

/-- What the host says to a message on a topic. -/
inductive Verdict where
  | taken
  /-- No peer listens to the topic. -/
  | unheard
  | refused (reason : String)
  deriving DecidableEq, Repr

/-- What is reported of a message that was to be published. -/
def Verdict.result : Verdict → Except NodeError Unit
  | taken | unheard => .ok ()
  | refused reason => .error (.networkError reason)

/-- What the host makes of octets for a peer. -/
structure Passage where
  /-- A stream to the peer, or why there is none. -/
  opening : Except String Frame.Sink
  /-- How many octets the stream had taken when the time was up; none if all was done in time. -/
  overdue : Option Nat := none

namespace Passage

/-- The octets that the stream has taken; none if there is no stream. -/
def taken (p : Passage) (octets : Bytes) : Option Bytes :=
  match p.opening with
  | .error _ => none
  | .ok sink =>
    let taken := (Frame.write sink octets).taken
    match p.overdue with
    | none => some taken
    | some count => some (taken.take count)

/-- What is reported of octets that were to be sent to a peer. -/
def result (p : Passage) (peer : PeerId) (octets : Bytes) : Except NodeError Unit :=
  if p.overdue.isSome then .error (.networkError ("send to " ++ peer.toText ++ " timed out"))
  else match p.opening with
    | .error reason =>
      .error (.networkError ("open stream to " ++ peer.toText ++ ": " ++ reason))
    | .ok sink =>
      match (Frame.write sink octets).result with
      | .ok () => .ok ()
      | .error e => .error (.networkError ("write to " ++ peer.toText ++ ": " ++ e.text))

end Passage
end PeerNode
