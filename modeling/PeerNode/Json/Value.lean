import PeerNode.Json.Number

/-!
# Writing JSON

A value is written in its shortest form, without insignificant characters, and the members of an
object in the order in which they are given.

* `Value`: a JSON value.
* `Value.write`: its text.
-/

namespace PeerNode
namespace Json

/-- A JSON value. -/
inductive Value where
  | null
  | bool (b : Bool)
  | number (n : Number)
  | text (s : String)
  | list (vs : List Value)
  | object (members : List (String × Value))
  deriving Inhabited

mutual

/-- The characters of a value. -/
def Value.write : Value → List Char
  | .null => "null".toList
  | .bool true => "true".toList
  | .bool false => "false".toList
  | .number n => n.render.toList
  | .text s => writeText s
  | .list vs => '[' :: writeElements vs ++ [']']
  | .object ms => '{' :: writeMembers ms ++ ['}']

/-- The characters of the elements of a list, with commas between them. -/
def writeElements : List Value → List Char
  | [] => []
  | [v] => v.write
  | v :: vs => v.write ++ ',' :: writeElements vs

/-- The characters of the members of an object, with commas between them. -/
def writeMembers : List (String × Value) → List Char
  | [] => []
  | [(k, v)] => writeText k ++ ':' :: v.write
  | (k, v) :: ms => writeText k ++ ':' :: v.write ++ ',' :: writeMembers ms

end

def Value.render (v : Value) : String := String.ofList v.write

end Json
end PeerNode
