import PeerNode.Bytes

/-!
# Reading octets as text, with replacement

Octets that a peer sends need not be UTF-8.  For display they are read one scalar value at a
time, and where no scalar value starts, the longest beginning of one (or else a single octet) is
shown as the replacement character U+FFFD.

* `scalarAt`: the character at the front of a sequence and the number of octets it takes.
* `ofBytesLossy`: the text of any sequence of octets.
* `ofBytes`: the text of a sequence that must be one, or where it stops being one.
-/

namespace PeerNode
namespace Text

/-- The character shown where the octets are no text. -/
def replacement : Char := '\uFFFD'

def isContinuation (b : UInt8) : Bool := 0x80 ≤ b && b ≤ 0xBF

/-- The six payload bits of a continuation octet. -/
def low6 (b : UInt8) : Nat := b.toNat % 64

/-- The octets that may follow a first octet: empty ranges where nothing may.  The narrowed
ranges exclude overlong forms, surrogates and values above U+10FFFF. -/
def secondRange (b : UInt8) : UInt8 × UInt8 :=
  if b == 0xE0 then (0xA0, 0xBF)
  else if b == 0xED then (0x80, 0x9F)
  else if b == 0xF0 then (0x90, 0xBF)
  else if b == 0xF4 then (0x80, 0x8F)
  else (0x80, 0xBF)

/-- How many octets a scalar value takes by its first octet; 0 where none starts with it. -/
def lengthByFirst (b : UInt8) : Nat :=
  if b < 0x80 then 1
  else if b < 0xC2 then 0
  else if b < 0xE0 then 2
  else if b < 0xF0 then 3
  else if b < 0xF5 then 4
  else 0

/-- The character at the front of a nonempty sequence `b :: rest`, if there is one, and how many
octets of `rest` belong to it or to its beginning. -/
def scalarAt (b : UInt8) (rest : Bytes) : Option Char × Nat :=
  let second := secondRange b
  let n := lengthByFirst b
  if n == 1 then (some (Char.ofNat b.toNat), 0)
  else if n == 0 then (none, 0)
  else match rest with
    | [] => (none, 0)
    | c :: rest =>
      if !(second.1 ≤ c && c ≤ second.2) then (none, 0)
      else if n == 2 then (some (Char.ofNat ((b.toNat % 32) * 64 + low6 c)), 1)
      else match rest with
        | [] => (none, 1)
        | d :: rest =>
          if !isContinuation d then (none, 1)
          else if n == 3 then
            (some (Char.ofNat ((b.toNat % 16) * 4096 + low6 c * 64 + low6 d)), 2)
          else match rest with
            | [] => (none, 2)
            | e :: _ =>
              if !isContinuation e then (none, 2)
              else (some (Char.ofNat
                ((b.toNat % 8) * 262144 + low6 c * 4096 + low6 d * 64 + low6 e)), 3)

/-- The characters of a sequence of octets, after those in `done` (last first). -/
def scalars (done : List Char) : Bytes → List Char
  | [] => done.reverse
  | b :: rest =>
    let here := scalarAt b rest
    scalars (here.1.getD replacement :: done) (rest.drop here.2)
termination_by bs => bs.length
decreasing_by simp only [List.length_drop, List.length_cons]; omega

/-- The text of any sequence of octets, with U+FFFD where it is not UTF-8. -/
def ofBytesLossy (bs : Bytes) : String := String.ofList (scalars [] bs)

/-! ## The first octets that are no text -/

/-- Where a sequence of octets stops being text. -/
structure Utf8Fault where
  /-- The number of octets before it. -/
  offset : Nat
  /-- The number of octets that begin no scalar value; none if the sequence ends inside one. -/
  size : Option Nat
  deriving DecidableEq, Repr

/-- What the user reads about octets that are no text. -/
def Utf8Fault.message (f : Utf8Fault) : String :=
  match f.size with
  | some n =>
    "invalid utf-8 sequence of " ++ toString n ++ " bytes from index " ++ toString f.offset
  | none => "incomplete utf-8 byte sequence from index " ++ toString f.offset

/-- The characters of a sequence of octets that must be text, after those in `done` (last first)
and `offset` octets. -/
def decodeFrom (done : List Char) (offset : Nat) : Bytes → Except Utf8Fault (List Char)
  | [] => .ok done.reverse
  | b :: rest =>
    let here := scalarAt b rest
    match here.1 with
    | some c => decodeFrom (c :: done) (offset + 1 + here.2) (rest.drop here.2)
    | none =>
      if lengthByFirst b ≠ 0 ∧ rest.length = here.2 then .error ⟨offset, none⟩
      else .error ⟨offset, some (here.2 + 1)⟩
termination_by bs => bs.length
decreasing_by simp only [List.length_drop, List.length_cons]; omega

/-- The text of a sequence of octets that must be text. -/
def ofBytes (bs : Bytes) : Except Utf8Fault String :=
  (decodeFrom [] 0 bs).map String.ofList

end Text
end PeerNode
