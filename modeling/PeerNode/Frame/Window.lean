import PeerNode.Frame.Reader

/-!
# Reading a frame through a window

A stream is not read octet by octet.  A reader has a window of some size and fills it with what one
read of the stream gives; it looks for the terminator in the window, keeps what it has seen
and fills the window again.  No read asks for more than may still be taken: one octet beyond the
longest body in all, and once these are taken the stream is not read again, whatever it would do.

What comes of this is told at the end: the octets that were taken are a frame if the terminator is
the last of them.

* `readSome`: what one read of a stream gives.
* `fillWindows`: the octets that are taken, window after window.
* `bodyOfTaken`, `readBuffered`: what the taken octets come to; one frame read off a stream.
-/

namespace PeerNode
namespace Frame

/-- What one read gives that has room for so many octets, and what the stream will do next: no
octets at the end of the stream.  None if the stream falls silent first. -/
def readSome (room : Nat) : List ReadEvent → Option (Except StreamError (Bytes × List ReadEvent))
  | [] => some (.ok ([], []))
  | .fail e :: _ => some (.error e)
  | .pause _ :: rest => readSome room rest
  | .silence :: _ => none
  | .bytes piece :: rest =>
    if piece.isEmpty then readSome room rest
    else some (.ok (piece.take room, .bytes (piece.drop room) :: rest))

/-- The octets taken off a stream after `taken`: window after window until one holds the
terminator, which is taken too, or `left` more octets are taken, or the stream ends. -/
def fillWindows (window : Nat) (taken : Bytes) (left : Nat) (script : List ReadEvent) :
    Option (Except StreamError Bytes) :=
  if left = 0 then some (.ok taken)
  else match readSome (min window left) script with
    | none => none
    | some (.error e) => some (.error e)
    | some (.ok ([], _)) => some (.ok taken)
    | some (.ok (b :: more, rest)) =>
      let upToNewline := (b :: more).takeWhile (· != terminator)
      if upToNewline.length < (b :: more).length then
        some (.ok (taken ++ upToNewline ++ [terminator]))
      else fillWindows window (taken ++ b :: more) (left - (b :: more).length) rest
termination_by left
decreasing_by
  simp only [List.length_cons]
  omega

/-- The body of the frame that the octets taken off a stream are, or why they are none. -/
def bodyOfTaken (taken : Bytes) : Except StreamError Bytes :=
  if taken.getLast? = some terminator then .ok taken.dropLast
  else if limit < taken.length then .error tooLarge
  else .error endedEarly

/-- Reads one frame off a stream through a window; none if the stream falls silent before it is
decided. -/
def readBuffered (window : Nat) (script : List ReadEvent) : Option (Except StreamError Bytes) :=
  (fillWindows window [] (limit + 1) script).map fun taken => taken.bind bodyOfTaken

end Frame
end PeerNode
