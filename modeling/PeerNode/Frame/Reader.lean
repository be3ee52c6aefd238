import PeerNode.Frame
import PeerNode.Error

/-!
# Reading a frame off a stream

A stream hands out what it has in pieces, and between the pieces it may fail, pause or fall
silent for good.  Reading a frame takes octets until the first newline, but never more than one
octet beyond the longest body; how the octets were cut into pieces makes no difference.

A reader keeps the octets taken so far and stops as soon as the frame is decided, so nothing
behind the deciding octet is looked at.

* `ReadEvent`: what a stream does when it is read.
* `Reader`: a frame being read: the octets taken and what the stream will do next.
* `Reader.advance`: reads on until the frame is decided or the stream pauses.
* `read`: reads one frame with all the time there is.
-/

namespace PeerNode

/-- What a stream does when it is read; after its last event it has ended. -/
inductive ReadEvent where
  /-- It hands out octets. -/
  | bytes (bs : Bytes)
  /-- The read fails. -/
  | fail (e : StreamError)
  /-- It has nothing for so many seconds. -/
  | pause (secs : Nat)
  /-- It never has anything again. -/
  | silence
  deriving DecidableEq, Repr

namespace Frame

/-- The failure of a stream that ended inside a frame. -/
def endedEarly : StreamError :=
  ⟨.unexpectedEof, "Stream ended before frame terminator"⟩

/-- The failure of a frame that is longer than the limit. -/
def tooLarge : StreamError := ⟨.invalidData, "Frame too large"⟩

/-- What a piece of a stream does to a frame: it completes the body, makes it too long, or leaves
it open with these octets taken. -/
inductive Intake where
  | complete (body : Bytes)
  | overlong
  | unfinished (taken : Bytes)
  deriving DecidableEq, Repr

/-- Takes a piece of a stream after the octets `taken`, which hold no newline.  At most one octet
beyond the limit is looked at. -/
def take (taken piece : Bytes) : Intake :=
  let piece := piece.take (limit + 1 - taken.length)
  let upToNewline := piece.takeWhile (· != terminator)
  if upToNewline.length < piece.length then .complete (taken ++ upToNewline)
  else if limit < taken.length + piece.length then .overlong
  else .unfinished (taken ++ piece)

/-- A frame being read. -/
structure Reader where
  /-- The octets taken, which hold no newline. -/
  taken : Bytes
  /-- What the stream will do next. -/
  script : List ReadEvent
  deriving DecidableEq, Repr

/-- How far reading has come. -/
inductive Progress where
  /-- The frame is complete. -/
  | body (bs : Bytes)
  /-- Reading failed. -/
  | failed (e : StreamError)
  /-- The stream pauses for `secs` seconds, after which reading goes on with `next`. -/
  | pausing (secs : Nat) (next : Reader)
  /-- The stream has fallen silent. -/
  | silent
  deriving DecidableEq, Repr

/-- Reads on until the frame is decided or the stream pauses. -/
def advanceFrom (taken : Bytes) : List ReadEvent → Progress
  | [] => .failed endedEarly
  | .fail e :: _ => .failed e
  | .pause secs :: rest => .pausing secs ⟨taken, rest⟩
  | .silence :: _ => .silent
  | .bytes piece :: rest =>
    match take taken piece with
    | .complete body => .body body
    | .overlong => .failed tooLarge
    | .unfinished taken => advanceFrom taken rest

/-- Reads on until the frame is decided or the stream pauses. -/
def Reader.advance (r : Reader) : Progress := advanceFrom r.taken r.script

/-- A frame of which nothing has been read. -/
def Reader.start (script : List ReadEvent) : Reader := ⟨[], script⟩

/-- Reads one frame with all the time there is: pauses are sat out.  None if the stream falls
silent first. -/
def readFrom (taken : Bytes) : List ReadEvent → Option (Except StreamError Bytes)
  | [] => some (.error endedEarly)
  | .fail e :: _ => some (.error e)
  | .pause _ :: rest => readFrom taken rest
  | .silence :: _ => none
  | .bytes piece :: rest =>
    match take taken piece with
    | .complete body => some (.ok body)
    | .overlong => some (.error tooLarge)
    | .unfinished taken => readFrom taken rest

/-- Reads one frame off a stream; none if the stream falls silent before it is decided. -/
def read (script : List ReadEvent) : Option (Except StreamError Bytes) := readFrom [] script

end Frame
end PeerNode
