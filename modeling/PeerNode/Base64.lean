import PeerNode.Bytes

/-!
# Base64

Keys travel as text in the standard base64 alphabet with padding.  Only the canonical form is
read back: the text must be exactly what encoding its octets gives, so surplus or missing
padding, unused bits that are not zero and characters outside the alphabet are all refused.

Three octets are four groups of six bits, each written as one character.  A last group of one or
two octets is filled with zero bits and padded with `=` to four characters.

* `Alphabet`: which character stands for which group.
* `encode`: the padded text of a sequence of octets; `encodeUnpadded`: the same without padding.
* `decode`: the octets of a padded text, or the first fault of it.
* `Fault.message`: the wording of a fault; offsets count octets of the text.
-/

namespace PeerNode
namespace Base64

/-- The characters for 62 and 63; the others are the same in every variant. -/
structure Alphabet where
  char62 : UInt8
  char63 : UInt8

/-- The alphabet with `+` and `/`. -/
def standard : Alphabet := ⟨43, 47⟩

/-- The alphabet with `-` and `_`, which may stand in a path. -/
def urlSafe : Alphabet := ⟨45, 95⟩

def pad : UInt8 := 61

/-- The character of a six-bit group. -/
def symbol (a : Alphabet) (n : Nat) : UInt8 :=
  if n < 26 then (65 + n).toUInt8
  else if n < 52 then (71 + n).toUInt8
  else if n < 62 then (n - 4).toUInt8
  else if n == 62 then a.char62
  else a.char63

/-- The six-bit group of a character. -/
def group? (a : Alphabet) (b : UInt8) : Option Nat :=
  if 65 ≤ b && b ≤ 90 then some (b.toNat - 65)
  else if 97 ≤ b && b ≤ 122 then some (b.toNat - 71)
  else if 48 ≤ b && b ≤ 57 then some (b.toNat + 4)
  else if b == a.char62 then some 62
  else if b == a.char63 then some 63
  else none

/-- The characters of a sequence of octets, the last group padded with `padding`. -/
def encodeWith (a : Alphabet) (padding : Bytes → Bytes) : Bytes → Bytes
  | [] => []
  | [x] =>
    let n := x.toNat * 16
    symbol a (n / 64) :: symbol a (n % 64) :: padding [pad, pad]
  | [x, y] =>
    let n := (x.toNat * 256 + y.toNat) * 4
    symbol a (n / 4096) :: symbol a (n / 64 % 64) :: symbol a (n % 64) :: padding [pad]
  | x :: y :: z :: rest =>
    let n := (x.toNat * 256 + y.toNat) * 256 + z.toNat
    symbol a (n / 262144) :: symbol a (n / 4096 % 64) :: symbol a (n / 64 % 64) ::
      symbol a (n % 64) :: encodeWith a padding rest

/-- A text of characters that are all ASCII. -/
def asciiText (bs : Bytes) : String := String.ofList (bs.map fun b => Char.ofNat b.toNat)

/-- The padded text of a sequence of octets in the standard alphabet. -/
def encode (bs : Bytes) : String := asciiText (encodeWith standard id bs)

/-- The text of a sequence of octets without padding. -/
def encodeUnpadded (a : Alphabet) (bs : Bytes) : String :=
  asciiText (encodeWith a (fun _ => []) bs)

/-- The ways in which a text fails to be canonical base64. -/
inductive Fault where
  /-- The octet at `offset` is not a character of the alphabet, or is padding out of place. -/
  | symbol (octet : UInt8) (offset : Nat)
  /-- A lone character ends the text, which spells no octet. -/
  | length (offset : Nat)
  /-- Unused bits of the last character are not zero. -/
  | lastSymbol (octet : UInt8) (offset : Nat)
  /-- The text is not padded to a multiple of four characters. -/
  | padding
  deriving DecidableEq, Repr

/-- What the user reads about a fault. -/
def Fault.message : Fault → String
  | symbol b i => "Invalid symbol " ++ toString b.toNat ++ ", offset " ++ toString i ++ "."
  | length n => "Invalid input length: " ++ toString n
  | lastSymbol b i =>
    "Invalid last symbol " ++ toString b.toNat ++ ", offset " ++ toString i ++ "."
  | padding => "Invalid padding"

/-- The group of the character at `offset`, which may not be padding. -/
def groupAt (b : UInt8) (offset : Nat) : Except Fault Nat :=
  match group? standard b with
  | some n => .ok n
  | none => .error (.symbol b offset)

/-- The last one to four characters: the groups they spell, in order, and how many padding
characters follow them.  `start` is the offset of the first of them, `seen` how many were
read, and `firstPad` where among them the padding began. -/
def suffixGroups (start : Nat) (seen : Nat) (firstPad : Nat) (pads : Nat) :
    Bytes → Except Fault (List Nat × Nat)
  | [] => .ok ([], pads)
  | b :: rest =>
    if b == pad then
      if seen < 2 then .error (.symbol b (start + seen))
      else suffixGroups start (seen + 1) (if pads == 0 then seen else firstPad) (pads + 1) rest
    else if pads > 0 then .error (.symbol pad (start + firstPad))
    else do
      let n ← groupAt b (start + seen)
      let (groups, pads) ← suffixGroups start (seen + 1) firstPad pads rest
      return (n :: groups, pads)

/-- The octets that two to four groups spell, and the bits left over. -/
def joinGroups : List Nat → Bytes × Nat
  | [a, b] =>
    let n := a * 64 + b
    ([(n / 16).toUInt8], n % 16)
  | [a, b, c] =>
    let n := (a * 64 + b) * 64 + c
    ([(n / 1024).toUInt8, (n / 4 % 256).toUInt8], n % 4)
  | [a, b, c, d] =>
    let n := ((a * 64 + b) * 64 + c) * 64 + d
    ([(n / 65536).toUInt8, (n / 256 % 256).toUInt8, (n % 256).toUInt8], 0)
  | _ => ([], 0)

/-- The octets of the last one to four characters of a text, which begin at `start`. -/
def decodeSuffix (start : Nat) (bs : Bytes) : Except Fault Bytes := do
  let (groups, pads) ← suffixGroups start 0 0 0 bs
  if groups.length < 2 then throw (.length (start + groups.length))
  if (pads + groups.length) % 4 != 0 then throw .padding
  let (octets, unused) := joinGroups groups
  if unused != 0 then
    throw (.lastSymbol (bs.getD (groups.length - 1) 0) (start + groups.length - 1))
  return octets

/-- The octets of a text from `start` on: full groups of four characters while more follow, then
the suffix. -/
def decodeFrom (start : Nat) : Bytes → Except Fault Bytes
  | [] => .ok []
  | a :: b :: c :: d :: e :: rest => do
    let a ← groupAt a start
    let b ← groupAt b (start + 1)
    let c ← groupAt c (start + 2)
    let d ← groupAt d (start + 3)
    let octets ← decodeFrom (start + 4) (e :: rest)
    return (joinGroups [a, b, c, d]).1 ++ octets
  | bs => decodeSuffix start bs

/-- The octets of a padded text in the standard alphabet.  A last character that is no symbol at
all and stands alone is the fault reported before any other. -/
def decodeBytes (bs : Bytes) : Except Fault Bytes :=
  match bs.getLast? with
  | some b =>
    if bs.length % 4 == 1 && b != pad && (group? standard b).isNone then
      .error (.symbol b (bs.length - 1))
    else decodeFrom 0 bs
  | none => .ok []

def decode (s : String) : Except Fault Bytes := decodeBytes (Bytes.ofText s)

end Base64
end PeerNode
