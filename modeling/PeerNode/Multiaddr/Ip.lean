import PeerNode.Bytes

/-!
# Internet addresses

* `Ip4`: an address of four octets, written as four decimal numbers with points between them.
* `Ip6`: an address of eight 16-bit groups, written in hexadecimal with colons between them; one
  run of zero groups may be left out, and the last two groups may be written as an `Ip4`.

Both are read by functions that take an address from the front of a list of characters and return
the rest, and written in one way: an `Ip6` leaves out its first longest run of at least two zero
groups, and shows an embedded `Ip4` as such.
-/

namespace PeerNode

/-- An address of four octets. -/
structure Ip4 where
  a : UInt8
  b : UInt8
  c : UInt8
  d : UInt8
  deriving DecidableEq, Repr

/-- An address of eight groups of 16 bits. -/
structure Ip6 where
  groups : List UInt16
  length_groups : groups.length = 8
  deriving DecidableEq

namespace Ip4

def toBytes (i : Ip4) : Bytes := [i.a, i.b, i.c, i.d]

def toText (i : Ip4) : String := ".".intercalate (i.toBytes.map fun b => toString b.toNat)

/-- The number below 256 in front, without needless zeros, and what follows. -/
def readOctet? (cs : List Char) : Option (UInt8 × List Char) :=
  let digits := cs.takeWhile Char.isDigit
  let n : Nat := digits.foldl (fun n c => n * 10 + (c.toNat - 48)) 0
  if digits.isEmpty ∨ 3 < digits.length ∨ 255 < n ∨ (digits.head? = some '0' ∧ 1 < digits.length)
  then none
  else some (n.toUInt8, cs.drop digits.length)

/-- What follows a character, which must stand in front. -/
def readMark? (mark : Char) : List Char → Option (List Char)
  | [] => none
  | c :: rest => if c = mark then some rest else none

/-- The address in front, and what follows. -/
def readFront? (cs : List Char) : Option (Ip4 × List Char) := do
  let (a, cs) ← readOctet? cs
  let (b, cs) ← readOctet? (← readMark? '.' cs)
  let (c, cs) ← readOctet? (← readMark? '.' cs)
  let (d, cs) ← readOctet? (← readMark? '.' cs)
  return (⟨a, b, c, d⟩, cs)

/-- The address that characters spell. -/
def read? (cs : List Char) : Option Ip4 :=
  match readFront? cs with
  | some (i, []) => some i
  | _ => none

def groups (i : Ip4) : List UInt16 :=
  [i.a.toUInt16 * 256 + i.b.toUInt16, i.c.toUInt16 * 256 + i.d.toUInt16]

end Ip4

namespace Ip6

/-- The value of a hexadecimal digit. -/
def hexValue? (c : Char) : Option Nat :=
  if c.isDigit then some (c.toNat - 48)
  else if 'a' ≤ c ∧ c ≤ 'f' then some (c.toNat - 87)
  else if 'A' ≤ c ∧ c ≤ 'F' then some (c.toNat - 55)
  else none

/-- The group of one to four hexadecimal digits in front, and what follows. -/
def readGroup? (cs : List Char) : Option (UInt16 × List Char) :=
  let digits := cs.takeWhile fun c => (hexValue? c).isSome
  if digits.isEmpty ∨ 4 < digits.length then none
  else
    let n : Nat := digits.foldl (fun n c => n * 16 + (hexValue? c).getD 0) 0
    some (n.toUInt16, cs.drop digits.length)

/-- What follows the colon between two groups; before the first group there is none. -/
def readSeparator? (first : Bool) (cs : List Char) : Option (List Char) :=
  if first then some cs else Ip4.readMark? ':' cs

/-- The groups in front, at most `count` of them, what follows, and whether the last two were
written as an `Ip4`; this is tried wherever two groups have room. -/
def readGroups (first : Bool) : Nat → List Char → List UInt16 × List Char × Bool
  | 0, cs => ([], cs, false)
  | count + 1, cs =>
    let embedded := if count = 0 then none else (readSeparator? first cs).bind Ip4.readFront?
    match embedded with
    | some (i, rest) => (i.groups, rest, true)
    | none =>
      match (readSeparator? first cs).bind readGroup? with
      | none => ([], cs, false)
      | some (g, rest) =>
        let (gs, rest, ip4) := readGroups false count rest
        (g :: gs, rest, ip4)

/-- The address with these groups, if there are eight. -/
def ofGroups? (gs : List UInt16) : Option Ip6 :=
  if h : gs.length = 8 then some ⟨gs, h⟩ else none

/-- The address that characters spell.  Two colons stand for one zero group at least. -/
def read? (cs : List Char) : Option Ip6 :=
  let (front, rest, ip4) := readGroups true 8 cs
  if front.length = 8 then if rest.isEmpty then ofGroups? front else none
  else if ip4 then none
  else do
    let rest ← Ip4.readMark? ':' (← Ip4.readMark? ':' rest)
    let (back, rest, _) := readGroups true (7 - front.length) rest
    if rest.isEmpty then
      ofGroups? (front ++ List.replicate (8 - front.length - back.length) 0 ++ back)
    else none

def toBytes (i : Ip6) : Bytes := i.groups.flatMap fun g : UInt16 => [(g >>> 8).toUInt8, g.toUInt8]

def groupsText (gs : List UInt16) : String :=
  ":".intercalate (gs.map fun g => String.ofList (Nat.toDigits 16 g.toNat))

/-- The start and the length of the first longest run of zero groups, where `seen` groups were
read, the current run has `run` groups and `best` is the longest so far. -/
def longestZeros (seen run : Nat) (best : Nat × Nat) : List UInt16 → Nat × Nat
  | [] => best
  | g :: gs =>
    let run := if g = 0 then run + 1 else 0
    longestZeros (seen + 1) run (if best.2 < run then (seen + 1 - run, run) else best) gs

/-- The embedded `Ip4` of an address in which it is shown. -/
def embedded? (i : Ip6) : Option Ip4 :=
  match i.groups with
  | [0, 0, 0, 0, 0, 0xFFFF, g, h] =>
    some ⟨(g >>> 8).toUInt8, g.toUInt8, (h >>> 8).toUInt8, h.toUInt8⟩
  | _ => none

def toText (i : Ip6) : String :=
  match i.embedded? with
  | some i4 => "::ffff:" ++ i4.toText
  | none =>
    let (start, length) := longestZeros 0 0 (0, 0) i.groups
    if length < 2 then groupsText i.groups
    else groupsText (i.groups.take start) ++ "::" ++ groupsText (i.groups.drop (start + length))

end Ip6
end PeerNode
