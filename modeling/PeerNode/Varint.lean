import PeerNode.Bytes

/-!
# Variable-length numbers

Binary addresses, multihashes and encoded keys write a number as groups of seven bits, the lowest
group first, with the high bit set on every octet but the last.

* `Varint.encode`: the shortest form of a number.
* `Varint.read`: reads one number of at most 64 bits in its shortest form.
* `Varint.readLoose?`: reads one number of at most 64 bits in any form of at most ten octets.

Numbers are read modulo 2^64: bits beyond the sixty-fourth, for which a tenth octet has room, are
dropped by `read` and refused by `readLoose?`.
-/

namespace PeerNode
namespace Varint

/-- The shortest form of a number. -/
def encode (n : Nat) : Bytes :=
  if n < 128 then [n.toUInt8] else (n % 128 + 128).toUInt8 :: encode (n / 128)
termination_by n
decreasing_by omega

/-- The ways in which a sequence fails to start with a number in its shortest form. -/
inductive Fault where
  /-- The sequence ends inside the number. -/
  | insufficient
  /-- The number takes more than ten octets. -/
  | overflow
  /-- The last group is zero and not the first, so there is a shorter form. -/
  | notMinimal
  deriving DecidableEq, Repr

/-- What the user reads about a sequence that does not start with a number. -/
def Fault.message : Fault → String
  | insufficient => "not enough input bytes"
  | overflow => "input bytes exceed maximum"
  | notMinimal => "encoding is not minimal"

/-- Reads the groups from the one at `place` on: the number they spell and the octets after
them. -/
def readGroups (place : Nat) : Bytes → Except Fault (Nat × Bytes)
  | [] => .error .insufficient
  | b :: rest =>
    if b < 128 then
      if b == 0 && place != 0 then .error .notMinimal else .ok (b.toNat, rest)
    else if place == 9 then .error .overflow
    else match readGroups (place + 1) rest with
      | .error fault => .error fault
      | .ok (n, rest) => .ok (b.toNat - 128 + 128 * n, rest)

/-- One number in its shortest form at the front of a sequence, and the octets after it. -/
def read (bs : Bytes) : Except Fault (Nat × Bytes) :=
  match readGroups 0 bs with
  | .error fault => .error fault
  | .ok (n, rest) => .ok (n % UInt64.size, rest)

/-- Reads the groups from the one at `place` on, of which the tenth may be 0 or 1 only. -/
def readLooseGroups (place : Nat) : Bytes → Option (Nat × Bytes)
  | [] => none
  | b :: rest =>
    if place == 9 then if b < 2 then some (b.toNat, rest) else none
    else if b < 128 then some (b.toNat, rest)
    else (readLooseGroups (place + 1) rest).map fun (n, rest) => (b.toNat - 128 + 128 * n, rest)

/-- One number of at most 64 bits at the front of a sequence, and the octets after it. -/
def readLoose? (bs : Bytes) : Option (Nat × Bytes) := readLooseGroups 0 bs

end Varint
end PeerNode
