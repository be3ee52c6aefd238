import PeerNode.Bytes
import PeerNode.Text.Quoted

/-!
# Base58

A peer identity is written as a number in base 58, with digits that are hard to confuse.  The
octets are read as one big-endian number; since leading zero octets do not change a number, each
of them is written as one leading digit zero, which is `1`.

* `encode`: the text of a sequence of octets.
* `decode`: the octets of a text, or its first character that is no digit.
-/

namespace PeerNode
namespace Base58

def digits : List Char :=
  "123456789ABCDEFGHJKLMNPQRSTUVWXYZabcdefghijkmnopqrstuvwxyz".toList

def digit (n : Nat) : Char := digits.getD n '1'

def value? (c : Char) : Option Nat := digits.idxOf? c

/-- The number that octets spell, the most significant first. -/
def numberOfBytes (bs : Bytes) : Nat := bs.foldl (fun n b => n * 256 + b.toNat) 0

/-- The digits of a number, most significant first, before those of `tail`; none for zero. -/
def digitsOf (n : Nat) (tail : List Char) : List Char :=
  if n = 0 then tail else digitsOf (n / 58) (digit (n % 58) :: tail)
termination_by n
decreasing_by omega

/-- The octets of a number, most significant first, before those of `tail`; none for zero. -/
def bytesOf (n : Nat) (tail : Bytes) : Bytes :=
  if n = 0 then tail else bytesOf (n / 256) ((n % 256).toUInt8 :: tail)
termination_by n
decreasing_by omega

def encode (bs : Bytes) : String :=
  String.ofList ((bs.takeWhile (· == 0)).map (fun _ => '1') ++ digitsOf (numberOfBytes bs) [])

/-- The ways in which a text fails to be a base-58 number; offsets count octets. -/
inductive Fault where
  /-- A character outside ASCII. -/
  | nonAscii (offset : Nat)
  /-- An ASCII character that is no digit. -/
  | character (c : Char) (offset : Nat)
  deriving DecidableEq, Repr

/-- What the user reads about a fault. -/
def Fault.message : Fault → String
  | nonAscii i =>
    "provided string contained non-ascii character starting at byte " ++ toString i
  | character c i =>
    "provided string contained invalid character " ++ Text.quoteChar c ++ " at byte " ++
      toString i

/-- The number that digits spell, after `n` for those already read; `offset` counts these. -/
def readDigits (n : Nat) (offset : Nat) : List Char → Except Fault Nat
  | [] => .ok n
  | c :: rest =>
    if c.toNat > 127 then .error (.nonAscii offset)
    else match value? c with
      | none => .error (.character c offset)
      | some d => readDigits (n * 58 + d) (offset + 1) rest

/-- The octets of a list of digits. -/
def decodeChars (cs : List Char) : Except Fault Bytes := do
  let n ← readDigits 0 0 cs
  return (cs.takeWhile (· == '1')).map (fun _ => 0) ++ bytesOf n []

def decode (s : String) : Except Fault Bytes := decodeChars s.toList

end Base58
end PeerNode
