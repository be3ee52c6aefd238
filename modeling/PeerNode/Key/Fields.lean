import PeerNode.Varint

/-!
# The fields of an encoded key

An encoded key is a sequence of fields in protocol-buffer form: a number that gives the field's
tag and the form of its value, then the value.  A key has a type, field 1, and its data, field 2.
If a field is given more than once the last one counts, a missing one has its zero value, and
fields with other tags are passed over, whatever they hold.

* `Fields`: the type and the data.
* `Fields.encode`, `Fields.decode?`: their octets, and the fields that octets spell.
-/

namespace PeerNode
namespace Key

/-- The forms of a value. -/
inductive Form where
  | varint
  | eight
  | sized
  | groupStart
  | groupEnd
  | four
  deriving DecidableEq, Repr

/-- The form with a number. -/
def Form.ofNat? : Nat → Option Form
  | 0 => some .varint
  | 1 => some .eight
  | 2 => some .sized
  | 3 => some .groupStart
  | 4 => some .groupEnd
  | 5 => some .four
  | _ => none

/-- The tag and the form at the front of a field, and what follows. -/
def readHeader? (bs : Bytes) : Option (Nat × Form × Bytes) := do
  let (n, rest) ← Varint.readLoose? bs
  if n ≥ UInt32.size || n < 8 then none
  let form ← Form.ofNat? (n % 8)
  return (n / 8, form, rest)

/-- What follows the first `n` octets, if there are so many. -/
def dropExactly? (n : Nat) (bs : Bytes) : Option Bytes :=
  if n ≤ bs.length then some (bs.drop n) else none

/-- The value with its size in front at the start of a sequence, and what follows. -/
def readSized? (bs : Bytes) : Option (Bytes × Bytes) := do
  let (n, rest) ← Varint.readLoose? bs
  if n ≤ rest.length then some (rest.take n, rest.drop n) else none

/-- What follows a value that is no group. -/
def skipPlain? (form : Form) (bs : Bytes) : Option Bytes :=
  match form with
  | .varint => (Varint.readLoose? bs).map (·.2)
  | .eight => dropExactly? 8 bs
  | .sized => (readSized? bs).map (·.2)
  | .four => dropExactly? 4 bs
  | .groupStart | .groupEnd => none

/-- How many groups may be nested in each other. -/
def maxGroups : Nat := 100

/-- What follows the innermost of the groups `tags` and all around it.  Each field takes an octet
at least, so their number is bounded by `fuel`, the number of octets. -/
def skipGroups? : Nat → List Nat → Bytes → Option Bytes
  | _, [], bs => some bs
  | 0, _ :: _, _ => none
  | fuel + 1, tag :: tags, bs => do
    let (inner, form, rest) ← readHeader? bs
    if form = .groupEnd then
      if inner = tag then skipGroups? fuel tags rest else none
    else if (tag :: tags).length ≥ maxGroups then none
    else if form = .groupStart then skipGroups? fuel (inner :: tag :: tags) rest
    else skipGroups? fuel (tag :: tags) (← skipPlain? form rest)

/-- What follows a value of a field that is passed over. -/
def skipValue? (tag : Nat) (form : Form) (bs : Bytes) : Option Bytes :=
  match form with
  | .groupStart => skipGroups? bs.length [tag] bs
  | form => skipPlain? form bs

/-- A number of 64 bits cut to 32 bits and read as a signed one. -/
def signed32 (n : Nat) : Int := Int.bmod n UInt32.size

/-- The type and the data of an encoded key. -/
structure Fields where
  type : Int
  data : Bytes
  deriving DecidableEq, Repr

/-- The octets of the fields of a key, for a type between 0 and 127. -/
def Fields.encode (f : Fields) : Bytes :=
  [8, f.type.toNat.toUInt8, 18] ++ Varint.encode f.data.length ++ f.data

/-- The fields that octets spell, after `f` for those already read.  Each field takes an octet at
least, so their number is bounded by `fuel`, the number of octets. -/
def readFields? : Nat → Fields → Bytes → Option Fields
  | _, f, [] => some f
  | 0, _, _ :: _ => none
  | fuel + 1, f, b :: bs => do
    let (tag, form, rest) ← readHeader? (b :: bs)
    if tag = 1 then
      if form ≠ .varint then none
      let (n, rest) ← Varint.readLoose? rest
      readFields? fuel { f with type := signed32 n } rest
    else if tag = 2 then
      if form ≠ .sized then none
      let (data, rest) ← readSized? rest
      readFields? fuel { f with data := data } rest
    else readFields? fuel f (← skipValue? tag form rest)

def Fields.decode? (bs : Bytes) : Option Fields := readFields? bs.length ⟨0, []⟩ bs

end Key
end PeerNode
