import PeerNode.Bytes

/-!
# Frames

A direct message travels on a stream of its own as one *frame*: its body followed by one newline,
which is the only newline of the frame.  A sender may pass the payload with or without that last
newline; a newline anywhere else would end the frame early, so such a payload is refused, and so
is one whose body is longer than a receiver would read.

* `Frame.limit`: the longest body, in octets.
* `Frame.body`: a payload without its one trailing newline.
* `Frame.ofPayload`: the frame of a payload, or why there is none.
-/

namespace PeerNode
namespace Frame

/-- The octet that ends a frame. -/
def terminator : UInt8 := Bytes.newline

/-- The longest body of a frame, in octets. -/
def limit : Nat := 1048576

def isTerminated (payload : Bytes) : Bool := payload.getLast? == some terminator

/-- A payload without its one trailing newline, if it has one. -/
def body (payload : Bytes) : Bytes :=
  if isTerminated payload then payload.dropLast else payload

/-- The reasons for which a payload cannot be framed. -/
inductive Fault where
  /-- A newline stands before the end of the payload. -/
  | interiorNewline
  /-- The body has `size` octets, more than `limit`. -/
  | tooLong (size : Nat)
  deriving DecidableEq, Repr

/-- What the user reads about a payload that cannot be framed. -/
def Fault.message : Fault → String
  | interiorNewline => "payload contains a newline before its end"
  | tooLong size =>
    "payload of " ++ toString size ++ " bytes exceeds " ++ toString limit ++ " bytes"

/-- The frame of a payload.  A newline inside it is reported before its length. -/
def ofPayload (payload : Bytes) : Except Fault Bytes :=
  let b := body payload
  if b.contains terminator then .error .interiorNewline
  else if b.length > limit then .error (.tooLong b.length)
  else .ok (b ++ [terminator])

end Frame
end PeerNode
