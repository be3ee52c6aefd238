/-!
# Whole numbers in decimal

Ports, sizes and counts are written in decimal.  A plus sign may stand in front and leading zeros
do not matter; the number must fit a given bound.

* `Whole.read`: the number that a text spells, below a bound.
-/

namespace PeerNode
namespace Whole

/-- The ways in which a text fails to spell a number below a bound. -/
inductive Fault where
  | empty
  | invalidDigit
  | tooLarge
  deriving DecidableEq, Repr

/-- What the user reads about a text that spells no such number. -/
def Fault.message : Fault → String
  | empty => "cannot parse integer from empty string"
  | invalidDigit => "invalid digit found in string"
  | tooLarge => "number too large to fit in target type"

/-- The number below `bound` that digits spell after `n`; the first fault counts. -/
def readDigits (bound n : Nat) : List Char → Except Fault Nat
  | [] => .ok n
  | c :: rest =>
    if c.isDigit then
      let next := n * 10 + (c.toNat - 48)
      if next < bound then readDigits bound next rest else .error .tooLarge
    else .error .invalidDigit

/-- The number below `bound` that characters spell. -/
def readChars (bound : Nat) : List Char → Except Fault Nat
  | [] => .error .empty
  | ['+'] => .error .invalidDigit
  | '+' :: rest => readDigits bound 0 rest
  | cs => readDigits bound 0 cs

def read (bound : Nat) (s : String) : Except Fault Nat := readChars bound s.toList

end Whole
end PeerNode
