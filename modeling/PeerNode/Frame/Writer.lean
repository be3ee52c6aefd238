import PeerNode.Frame
import PeerNode.Error

/-!
# Writing a frame to a stream

A stream takes octets in writes of bounded size and may fail at some point.  Writing a frame
repeats writes until all of it is taken and closes the stream only then, so a receiver that sees
an orderly end has seen the whole frame.

* `Sink`: how a stream behaves when it is written to.
* `Sink.accept`: what one write takes.
* `write`: writes a frame and closes the stream.
-/

namespace PeerNode
namespace Frame

/-- How a stream behaves when it is written to. -/
structure Sink where
  /-- The most octets one write takes; none if there is no bound. -/
  maxWrite : Option Nat := none
  /-- After so many octets in all the next write fails; none if writing never does. -/
  failAfter : Option Nat := none
  /-- How that write fails; without it the write takes nothing. -/
  failure : Option StreamError := none
  /-- How closing fails, if it does. -/
  closeFailure : Option StreamError := none
  deriving DecidableEq, Repr

/-- The failure of a write that takes nothing. -/
def tookNothing : StreamError := ⟨.writeZero, "write zero"⟩

/-- How many of `offered` octets one write takes after `written` octets in all, or how the write
fails. -/
def Sink.accept (s : Sink) (written offered : Nat) : Except StreamError Nat :=
  let bounded := match s.maxWrite with
    | some m => min m offered
    | none => offered
  match s.failAfter with
  | none => .ok bounded
  | some n =>
    if n ≤ written then
      match s.failure with
      | some e => .error e
      | none => .ok 0
    else .ok (min bounded (n - written))

/-- What became of a frame: the result, the octets that the stream took and whether it was
closed. -/
structure Written where
  result : Except StreamError Unit
  taken : Bytes
  closed : Bool

/-- A frame of which the pieces `done`, last first, were taken, with this result. -/
def Written.of (done : List Bytes) (result : Except StreamError Unit) (closed : Bool) : Written :=
  ⟨result, done.reverse.flatten, closed⟩

/-- Writes `rest`, the last octets of a frame of `size` octets of which the pieces `done` were
taken, `written` octets in all; then closes. -/
def writeRest (s : Sink) (size written : Nat) (done : List Bytes) (rest : Bytes) : Written :=
  match rest with
  | [] =>
    match s.closeFailure with
    | some e => .of done (.error e) false
    | none => .of done (.ok ()) true
  | b :: more =>
    match s.accept written (size - written) with
    | .error e => .of done (.error e) false
    | .ok 0 => .of done (.error tookNothing) false
    | .ok (n + 1) =>
      writeRest s size (written + (n + 1)) ((b :: more.take n) :: done) (more.drop n)
termination_by rest.length
decreasing_by simp only [List.length_drop, List.length_cons]; omega

def write (s : Sink) (frame : Bytes) : Written := writeRest s frame.length 0 [] frame

end Frame
end PeerNode
