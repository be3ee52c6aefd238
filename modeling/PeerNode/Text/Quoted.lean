import PeerNode.Text.Shown

/-!
# Quoted text

Diagnostics show a text between quotation marks and a character between apostrophes, with a
backslash before what would end the quotation, short escapes for the common control characters,
and `\u` with the hexadecimal code point for whatever has no shape of its own.

* `quote`: a text between quotation marks.
* `quoteChar`: one character between apostrophes.
* `bracketed`: items in square brackets.
-/

namespace PeerNode
namespace Text

def hexDigits (n : Nat) : List Char := Nat.toDigits 16 n

/-- A character as it stands inside a quotation that `mark` ends. -/
def escapeChar (mark : Char) (c : Char) : List Char :=
  if c == mark || c == '\\' then ['\\', c]
  else if c == '\t' then ['\\', 't']
  else if c == '\r' then ['\\', 'r']
  else if c == '\n' then ['\\', 'n']
  else if c.toNat == 0 then ['\\', '0']
  else if isShown c then [c]
  else ['\\', 'u', '\x7b'] ++ hexDigits c.toNat ++ ['\x7d']

def quote (s : String) : String :=
  String.ofList (['"'] ++ s.toList.flatMap (escapeChar '"') ++ ['"'])

def quoteChar (c : Char) : String :=
  String.ofList (['\''] ++ escapeChar '\'' c ++ ['\''])

/-- Items between square brackets, with a comma and a space between them. -/
def bracketed (items : List String) : String := "[" ++ ", ".intercalate items ++ "]"

end Text
end PeerNode
