/-!
# The shortest decimal of a floating-point number

A finite binary floating-point number stands for all reals that round to it.  Of the decimals in
that interval the ones with the fewest digits are considered, and of these the one nearest to the
number is taken.  The search looks at one grid of decimals after the other, from one digit to
seventeen, and on each grid only at the two neighbours of the number, in exact arithmetic.

* `shortest`: the digits and the decimal exponent of a positive finite number.
* `Layout`, `render`: where positional notation ends and how an exponent is written.
-/

namespace PeerNode
namespace Decimal

/-- The mantissa and the binary exponent of a finite number without its sign:
`mantissa * 2 ^ exponent`. -/
def decompose (x : Float) : Nat × Int :=
  let bits : Nat := x.toBits.toNat % Nat.pow 2 63
  let field : Nat := bits / Nat.pow 2 52
  let fraction : Nat := bits % Nat.pow 2 52
  if field = 0 then (fraction, -1074) else (Nat.pow 2 52 + fraction, (field : Int) - 1075)

/-- A positive number with the interval of reals that round to it, as fractions over one
denominator. -/
structure Interval where
  low : Nat
  value : Nat
  high : Nat
  denominator : Nat
  /-- Whether the ends of the interval round to the number, too. -/
  closed : Bool

/-- The interval of the number `mantissa * 2 ^ exponent`.  Below a power of two the numbers lie
twice as dense, so there the lower end is nearer. -/
def interval (mantissa : Nat) (exponent : Int) : Interval :=
  let below := if mantissa = Nat.pow 2 52 ∧ exponent > -1074 then 1 else 2
  let up := Nat.pow 2 (exponent - 2).toNat
  let down := Nat.pow 2 (2 - exponent).toNat
  ⟨(4 * mantissa - below) * up, 4 * mantissa * up, (4 * mantissa + 2) * up, down,
    mantissa % 2 == 0⟩

/-- Whether the decimal `digits * 10 ^ exponent` lies in an interval. -/
def Interval.contains (i : Interval) (digits : Nat) (exponent : Int) : Bool :=
  let x := digits * Nat.pow 10 exponent.toNat * i.denominator
  let scale := Nat.pow 10 (-exponent).toNat
  if i.closed then i.low * scale ≤ x && x ≤ i.high * scale
  else i.low * scale < x && x < i.high * scale

/-- Whether the number of an interval is at least `10 ^ exponent`. -/
def Interval.atLeast (i : Interval) (exponent : Int) : Bool :=
  Nat.pow 10 exponent.toNat * i.denominator ≤ i.value * Nat.pow 10 (-exponent).toNat

/-- The greatest exponent `e`, at most `start` and more than `start - fuel`, for which the number
of an interval is at least `10 ^ e`. -/
def Interval.magnitude (i : Interval) (start : Int) : Nat → Int
  | 0 => start
  | fuel + 1 => if i.atLeast start then start else i.magnitude (start - 1) fuel

/-- Looks for a decimal of an interval on the grids of `count` digits and more, for `fuel` grids.
The number itself lies between two neighbours on each grid; of two hits the nearer one is taken,
and of two equally near ones the even one. -/
def Interval.search (i : Interval) (magnitude : Int) (count : Nat) : Nat → Nat × Int
  | 0 => (0, 0)
  | fuel + 1 =>
    let unit := magnitude - count + 1
    let x := i.value * Nat.pow 10 (-unit).toNat
    let step := i.denominator * Nat.pow 10 unit.toNat
    let down := x / step
    let up := down + 1
    let above := 2 * (x % step)
    match i.contains down unit, i.contains up unit with
    | true, false => (down, unit)
    | false, true => (up, unit)
    | true, true =>
      if above < step ∨ above = step ∧ down % 2 = 0 then (down, unit) else (up, unit)
    | false, false => i.search magnitude (count + 1) fuel

/-- A decimal without trailing zeros, of which at most `fuel` are taken away. -/
def stripZeros (digits : Nat) (exponent : Int) : Nat → Nat × Int
  | 0 => (digits, exponent)
  | fuel + 1 =>
    if digits % 10 = 0 then stripZeros (digits / 10) (exponent + 1) fuel else (digits, exponent)

/-- The shortest decimal of a positive finite number: `digits * 10 ^ exponent`. -/
def shortest (x : Float) : Nat × Int :=
  let (mantissa, exponent) := decompose x
  let i := interval mantissa exponent
  let (digits, exponent) := i.search (i.magnitude 309 640) 1 17
  stripZeros digits exponent 17

/-- How decimals are laid out. -/
structure Layout where
  /-- The least exponent of the leading digit that is written positionally. -/
  leastPositional : Int
  /-- The greatest exponent of the leading digit that is written positionally. -/
  greatestPositional : Int
  /-- What stands before a positive exponent. -/
  plus : String

/-- A number with the digits `digits` of which the first stands for `10 ^ leading`. -/
def Layout.arrange (l : Layout) (digits : List Char) (leading : Int) : String :=
  if leading < l.leastPositional ∨ l.greatestPositional < leading then
    let tail := digits.drop 1
    String.ofList (digits.take 1 ++ (if tail.isEmpty then [] else '.' :: tail)) ++ "e" ++
      (if leading < 0 then "-" else l.plus) ++ toString leading.natAbs
  else if leading < 0 then
    String.ofList ("0.".toList ++ List.replicate (leading.natAbs - 1) '0' ++ digits)
  else
    let whole := leading.toNat + 1
    let fraction := digits.drop whole
    String.ofList (digits.take whole ++ List.replicate (whole - digits.length) '0' ++ ['.'] ++
      (if fraction.isEmpty then ['0'] else fraction))

/-- A finite number in its shortest decimal form. -/
def render (l : Layout) (x : Float) : String :=
  let bits := x.toBits.toNat
  let sign := if Nat.pow 2 63 ≤ bits then "-" else ""
  if bits % Nat.pow 2 63 = 0 then sign ++ "0.0"
  else
    let (n, exponent) := shortest x
    let digits := Nat.toDigits 10 n
    sign ++ l.arrange digits (exponent + digits.length - 1)

end Decimal
end PeerNode
