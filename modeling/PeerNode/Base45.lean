import PeerNode.Bytes

/-!
# Base45

Two octets are a number that three digits in base 45 can hold, and an octet that is left over is
one for two digits.  The lowest digit stands first.

Reading is generous: a letter may stand in either case, and of a number that is too large for its
octets only the low bits count.  A digit that stands alone at the end spells nothing.

* `digits`: the digits, in order of value.
* `decode?`: the octets of a text.
-/

namespace PeerNode
namespace Base45

/-- The digits, in order of value. -/
def digits : List Char := "0123456789ABCDEFGHIJKLMNOPQRSTUVWXYZ $%*+-./:".toList

def value? (c : Char) : Option Nat := digits.idxOf? c.toUpper

/-- The octets that digits spell, the two or three of each group read together. -/
def octets? : List Nat → Option Bytes
  | [] => some []
  | [_] => none
  | [a, b] => some [(a + 45 * b).toUInt8]
  | a :: b :: c :: rest =>
    let n := a + 45 * b + 45 * 45 * c
    (octets? rest).map fun bs => (n / 256).toUInt8 :: n.toUInt8 :: bs

def decode? (cs : List Char) : Option Bytes := do octets? (← cs.mapM value?)

end Base45
end PeerNode
