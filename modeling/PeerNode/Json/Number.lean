import PeerNode.Decimal.Shortest
import PeerNode.Json.Literal

/-!
# Numbers in JSON

A number without point and exponent is kept exactly if it fits into 64 bits; any other number is
a floating-point number.  The digits that fit into 64 bits form its significand and the others
count towards the exponent only, so a floating-point number costs one rounding of the significand
and one of the scaling.

* `Number`: the numbers that a text can hold.
* `scanNumber`: the number of which the sign has been read, and what follows.
* `skipNumber`: what follows a number, of which only the form is checked.
* `Number.render`: a number as it is shown.
-/

namespace PeerNode
namespace Json

/-- The numbers that a text can hold. -/
inductive Number where
  /-- A natural number below `2 ^ 64`. -/
  | natural (n : Nat)
  /-- The number `-n`, at least `-2 ^ 63`, for a positive `n`. -/
  | negative (n : Nat)
  /-- Any other number. -/
  | float (x : Float)
  deriving Inhabited

/-- Floating-point numbers between `10 ^ -5` and `10 ^ 16` are written positionally. -/
def floatLayout : Decimal.Layout := ⟨-5, 15, "+"⟩

/-- A number as it is shown. -/
def Number.render : Number → String
  | natural n => toString n
  | negative n => "-" ++ toString n
  | float x => Decimal.render floatLayout x

def isDigit (c : Char) : Bool := '0' ≤ c && c ≤ '9'

def digitValue (c : Char) : Nat := c.toNat - 48

/-- Whether a digit stands in front. -/
def startsWithDigit : List Char → Bool
  | [] => false
  | c :: _ => isDigit c

/-- Whether an exponent stands in front. -/
def startsWithExponent : List Char → Bool
  | [] => false
  | c :: _ => c == 'e' || c == 'E'

def skipDigits (cs : List Char) : List Char := cs.dropWhile isDigit

/-- The significand after the digits in front that fit into 64 bits, given the significand before
them and their number so far, and what follows. -/
def gather (significand count : Nat) : List Char → Nat × Nat × List Char
  | [] => (significand, count, [])
  | c :: rest =>
    let next := significand * 10 + digitValue c
    if isDigit c && next < UInt64.size then gather next (count + 1) rest
    else (significand, count, c :: rest)

def powerOfTen (n : Nat) : Float := Float.ofScientific 1 false n

/-- A significand scaled by a power of ten; none if it is too large.  A power beyond the greatest
is reached in at most `fuel` rounds. -/
def scale (x : Float) (exponent : Int) : Nat → Option Float
  | 0 => some x
  | fuel + 1 =>
    if exponent.natAbs ≤ 308 then
      if 0 ≤ exponent then
        let y := x * powerOfTen exponent.natAbs
        if y.isInf then none else some y
      else some (x / powerOfTen exponent.natAbs)
    else if x == 0.0 then some x
    else if 0 ≤ exponent then none
    else scale (x / powerOfTen 308) (exponent + 308) fuel

/-- The floating-point number with this sign, significand and exponent, in front of `rest`. -/
def assemble (positive : Bool) (significand : Nat) (exponent : Int) (rest : List Char) :
    Except Fault (Number × List Char) :=
  match scale significand.toUInt64.toFloat exponent 8 with
  | none => .error (faultBefore .numberOutOfRange rest)
  | some x => .ok (.float (if positive then x else -x), rest)

/-- The digits of an exponent after those read as `n`.  Beyond 31 bits only the sign of the
exponent matters: the number is too large, or it is zero. -/
def scanExponentDigits (positive up : Bool) (significand : Nat) (start : Int) (n : Nat) :
    List Char → Except Fault (Number × List Char)
  | [] => assemble positive significand (if up then start + n else start - n) []
  | c :: rest =>
    if isDigit c then
      let next := n * 10 + digitValue c
      if next < 2 ^ 31 then scanExponentDigits positive up significand start next rest
      else if significand ≠ 0 && up then .error (faultBefore .numberOutOfRange rest)
      else .ok (.float (if positive then 0.0 else -0.0), skipDigits rest)
    else assemble positive significand (if up then start + n else start - n) (c :: rest)

/-- The sign of an exponent in front (absent: up), and what follows. -/
def scanExponentSign : List Char → Bool × List Char
  | [] => (true, [])
  | c :: rest =>
    if c = '+' then (true, rest) else if c = '-' then (false, rest) else (true, c :: rest)

/-- The number whose exponent is in front, after its `e`; `start` is the exponent so far. -/
def scanExponent (positive : Bool) (significand : Nat) (start : Int) (cs : List Char) :
    Except Fault (Number × List Char) :=
  let (up, cs) := scanExponentSign cs
  match cs with
  | [] => .error ⟨.eofInValue, 0⟩
  | c :: rest =>
    if isDigit c then scanExponentDigits positive up significand start (digitValue c) rest
    else .error (faultAt .invalidNumber cs)

/-- The number whose digits have all been read: an exponent may follow. -/
def scanTail (positive : Bool) (significand : Nat) (exponent : Int) (cs : List Char) :
    Except Fault (Number × List Char) :=
  if startsWithExponent cs then scanExponent positive significand exponent (cs.drop 1)
  else assemble positive significand exponent cs

/-- The number whose digits after the point are in front. -/
def scanFraction (positive : Bool) (significand : Nat) (exponent : Int) (cs : List Char) :
    Except Fault (Number × List Char) :=
  let (significand, count, rest) := gather significand 0 cs
  if startsWithDigit rest then
    scanTail positive significand (exponent - count) (skipDigits rest)
  else if count = 0 then
    match rest with
    | [] => .error ⟨.eofInValue, 0⟩
    | _ :: _ => .error (faultAt .invalidNumber rest)
  else scanTail positive significand (exponent - count) rest

/-- The number whose whole part has been read: a point or an exponent may follow. -/
def scanAfterWhole (positive : Bool) (significand : Nat) (cs : List Char) :
    Except Fault (Number × List Char) :=
  match cs with
  | '.' :: rest => scanFraction positive significand 0 rest
  | cs =>
    if startsWithExponent cs then scanExponent positive significand 0 (cs.drop 1)
    else if positive then .ok (.natural significand, cs)
    else if significand = 0 || Nat.pow 2 63 < significand then
      .ok (.float (-significand.toUInt64.toFloat), cs)
    else .ok (.negative significand, cs)

/-- The number whose whole part does not fit into 64 bits; its remaining digits are in front. -/
def scanLong (positive : Bool) (significand : Nat) (cs : List Char) :
    Except Fault (Number × List Char) :=
  let rest := skipDigits cs
  let exponent := cs.length - rest.length
  match rest with
  | '.' :: rest => scanFraction positive significand exponent rest
  | rest => scanTail positive significand exponent rest

/-- The number in front, of which the sign has been read. -/
def scanNumber (positive : Bool) (cs : List Char) : Except Fault (Number × List Char) :=
  match cs with
  | [] => .error ⟨.eofInValue, 0⟩
  | c :: rest =>
    if c = '0' then
      if startsWithDigit rest then .error (faultAt .invalidNumber rest)
      else scanAfterWhole positive 0 rest
    else if isDigit c then
      let (significand, _, rest) := gather (digitValue c) 0 rest
      if startsWithDigit rest then scanLong positive significand rest
      else scanAfterWhole positive significand rest
    else .error (faultAt .invalidNumber cs)

/-! ## Checking the form only -/

/-- What follows an exponent, after its `e`. -/
def skipExponent (cs : List Char) : Except Fault (List Char) :=
  let (_, cs) := scanExponentSign cs
  if startsWithDigit cs then .ok (skipDigits cs) else .error (faultAt .invalidNumber cs)

/-- What follows a number whose digits have been read: an exponent may follow. -/
def skipTail (cs : List Char) : Except Fault (List Char) :=
  if startsWithExponent cs then skipExponent (cs.drop 1) else .ok cs

/-- What follows a number whose whole part has been read. -/
def skipAfterWhole (cs : List Char) : Except Fault (List Char) :=
  match cs with
  | '.' :: rest =>
    if startsWithDigit rest then skipTail (skipDigits rest)
    else .error (faultAt .invalidNumber rest)
  | cs => skipTail cs

/-- What follows the number in front, of which the sign has been read. -/
def skipNumber (cs : List Char) : Except Fault (List Char) :=
  match cs with
  | [] => .error ⟨.invalidNumber, 0⟩
  | c :: rest =>
    if c = '0' then
      if startsWithDigit rest then .error (faultAt .invalidNumber rest) else skipAfterWhole rest
    else if isDigit c then skipAfterWhole (skipDigits rest)
    else .error (faultAt .invalidNumber cs)

end Json
end PeerNode
