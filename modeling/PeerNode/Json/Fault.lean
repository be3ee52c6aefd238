/-!
# Where a JSON text goes wrong

Reading a JSON text stops at its first fault, and the user is told what is wrong and where.  A
place is a line and a column; both are counted in octets of the text, and the column is that of
the last octet looked at.

The readers work on the characters that are left, so they report a place by the number of octets
left behind it; the place in the whole text is found in the end.

* `Problem`: what is wrong; `Problem.message` is its wording.
* `Fault`: a problem with its place.
* `Fault.report`: the fault as the user reads it.
-/

namespace PeerNode
namespace Json

/-- What is wrong with a JSON text. -/
inductive Problem where
  | eofInList
  | eofInObject
  | eofInText
  | eofInValue
  | expectedColon
  | expectedCommaOrBracket
  | expectedCommaOrBrace
  | expectedWord
  | expectedValue
  | invalidEscape
  | invalidNumber
  | numberOutOfRange
  | controlCharacter
  | keyNoText
  | loneSurrogate
  | escapeEndsEarly
  | trailingComma
  | trailingCharacters
  /-- The text is JSON, but not of the kind that is wanted. -/
  | unwanted (reason : String)
  deriving DecidableEq, Repr

/-- What the user reads about a problem. -/
def Problem.message : Problem → String
  | eofInList => "EOF while parsing a list"
  | eofInObject => "EOF while parsing an object"
  | eofInText => "EOF while parsing a string"
  | eofInValue => "EOF while parsing a value"
  | expectedColon => "expected \x60:\x60"
  | expectedCommaOrBracket => "expected \x60,\x60 or \x60]\x60"
  | expectedCommaOrBrace => "expected \x60,\x60 or \x60\x7d\x60"
  | expectedWord => "expected ident"
  | expectedValue => "expected value"
  | invalidEscape => "invalid escape"
  | invalidNumber => "invalid number"
  | numberOutOfRange => "number out of range"
  | controlCharacter => "control character (\\u0000-\\u001F) found while parsing a string"
  | keyNoText => "key must be a string"
  | loneSurrogate => "lone leading surrogate in hex escape"
  | escapeEndsEarly => "unexpected end of hex escape"
  | trailingComma => "trailing comma"
  | trailingCharacters => "trailing characters"
  | unwanted reason => reason

/-- A problem with its place: the number of octets of the text behind it. -/
structure Fault where
  problem : Problem
  left : Nat
  deriving DecidableEq, Repr

def octets (cs : List Char) : Nat := cs.foldl (fun n c => n + c.utf8Size) 0

/-- A problem in front of the characters `rest`. -/
def faultBefore (problem : Problem) (rest : List Char) : Fault := ⟨problem, octets rest⟩

/-- A problem with the octet in front, which counts as looked at; at the end of the text there is
none. -/
def faultAt (problem : Problem) (rest : List Char) : Fault := ⟨problem, octets rest - 1⟩

/-- The line and the column at which the first `count` octets of a text end, from `line` and
`column` on. -/
def place (line column : Nat) : Nat → List Char → Nat × Nat
  | _, [] => (line, column)
  | count, c :: rest =>
    if count < c.utf8Size then (line, column + count)
    else if c = '\n' then place (line + 1) 0 (count - 1) rest
    else place line (column + c.utf8Size) (count - c.utf8Size) rest

/-- A fault of a text as the user reads it. -/
def Fault.report (f : Fault) (text : List Char) : String :=
  let (line, column) := place 1 0 (octets text - f.left) text
  f.problem.message ++ " at line " ++ toString line ++ " column " ++ toString column

end Json
end PeerNode
