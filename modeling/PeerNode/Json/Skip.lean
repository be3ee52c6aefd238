import PeerNode.Json.Number

/-!
# Passing over a JSON value

A member whose name the reader does not know may hold any value.  It is passed over without being
kept: what is checked is its form, and what is remembered is only which lists and objects are
open, the innermost first.  So values may be nested to any depth.

* `skipValue`: what follows the value in front.
-/

namespace PeerNode
namespace Json

/-- What a value can be inside of. -/
inductive Container where
  | list
  | object
  deriving DecidableEq, Repr

/-- The character that closes a container. -/
def Container.close : Container → Char
  | list => ']'
  | object => '}'

/-- The problem of a text that ends inside a container. -/
def Container.eof : Container → Problem
  | list => .eofInList
  | object => .eofInObject

/-- The problem of something else than a comma or the close after a value in a container. -/
def Container.expected : Container → Problem
  | list => .expectedCommaOrBracket
  | object => .expectedCommaOrBrace

/-- What follows the name of a member and its colon. -/
def skipName (cs : List Char) : Except Fault (List Char) :=
  match skipSpace cs with
  | [] => .error ⟨.eofInObject, 0⟩
  | c :: rest =>
    if c ≠ '"' then .error (faultAt .keyNoText (c :: rest))
    else match skipText rest with
      | .error fault => .error fault
      | .ok rest =>
        match skipSpace rest with
        | [] => .error ⟨.eofInObject, 0⟩
        | c :: rest =>
          if c = ':' then .ok rest else .error (faultAt .expectedColon (c :: rest))

/-- What follows a value that is not a container, if one stands in front; none in front of a
container. -/
def skipScalar (c : Char) (rest : List Char) : Option (Except Fault (List Char)) :=
  if c = 'n' then some (scanWord "ull".toList rest)
  else if c = 't' then some (scanWord "rue".toList rest)
  else if c = 'f' then some (scanWord "alse".toList rest)
  else if c = '-' then some (skipNumber rest)
  else if isDigit c then some (skipNumber (c :: rest))
  else if c = '"' then some (skipText rest)
  else if c = '[' ∨ c = '{' then none
  else some (.error (faultAt .expectedValue (c :: rest)))

/-- Where passing over a value stands. -/
inductive SkipState where
  /-- In front of a value inside the open containers. -/
  | value (opened : List Container)
  /-- Behind a value (`comma`: a comma may follow), or behind the opening character, of the
  container `inner` inside the open containers `outer`. -/
  | inside (comma : Bool) (inner : Container) (outer : List Container)

/-- In front of a member or an element of the innermost container. -/
def skipToValue (inner : Container) (cs : List Char) : Except Fault (List Char) :=
  match inner with
  | .list => .ok cs
  | .object => skipName cs

/-- Passes over what is left of a value.  Every other round takes a character at least, so their
number is bounded by `fuel`, twice the number of characters. -/
def skipFrom : Nat → SkipState → List Char → Except Fault (List Char)
  | 0, _, cs => .ok cs
  | fuel + 1, .value opened, cs =>
    match skipSpace cs with
    | [] => .error ⟨.eofInValue, 0⟩
    | c :: rest =>
      match skipScalar c rest with
      | some (.error fault) => .error fault
      | some (.ok rest) =>
        match opened with
        | [] => .ok rest
        | inner :: outer => skipFrom fuel (.inside true inner outer) rest
      | none => skipFrom fuel (.inside false (if c = '[' then .list else .object) opened) rest
  | fuel + 1, .inside comma inner outer, cs =>
    match skipSpace cs with
    | [] => .error ⟨inner.eof, 0⟩
    | c :: rest =>
      if c = inner.close then
        match outer with
        | [] => .ok rest
        | next :: outer => skipFrom fuel (.inside true next outer) rest
      else if comma && c ≠ ',' then .error (faultAt inner.expected (c :: rest))
      else match skipToValue inner (if comma then rest else c :: rest) with
        | .error fault => .error fault
        | .ok rest => skipFrom fuel (.value (inner :: outer)) rest

def skipValue (cs : List Char) : Except Fault (List Char) :=
  skipFrom (2 * cs.length + 2) (.value []) cs

end Json
end PeerNode
