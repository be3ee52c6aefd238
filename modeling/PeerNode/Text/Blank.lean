/-!
# Blank characters

Configuration texts are trimmed, and console lines are cut into words, at the characters that
Unicode gives the property `White_Space`.  There are twenty-five of them; the six of ASCII are
not enough, because a topic that consists of no-break spaces counts as blank.

The functions work on lists of characters, where their laws are short, and are lifted to texts.

* `isBlank`: membership in the class.
* `trim`: a text without the blank characters at its two ends.
* `words`: the maximal runs of characters that are not blank.
-/

namespace PeerNode
namespace Text

/-- The characters with the Unicode property `White_Space`. -/
def isBlank (c : Char) : Bool :=
  let n := c.toNat
  (9 ≤ n && n ≤ 13) || n == 0x20 || n == 0x85 || n == 0xA0 || n == 0x1680 ||
    (0x2000 ≤ n && n ≤ 0x200A) || n == 0x2028 || n == 0x2029 || n == 0x202F || n == 0x205F ||
    n == 0x3000

def trimChars (cs : List Char) : List Char :=
  ((cs.dropWhile isBlank).reverse.dropWhile isBlank).reverse

def trim (s : String) : String := String.ofList (trimChars s.toList)

def allBlank (s : String) : Bool := s.toList.all isBlank

/-- The maximal runs of characters that are not blank, in order; `word` is the run being read,
its last character first. -/
def wordsFrom (word : List Char) : List Char → List (List Char)
  | [] => if word.isEmpty then [] else [word.reverse]
  | c :: rest =>
    if isBlank c then
      if word.isEmpty then wordsFrom [] rest else word.reverse :: wordsFrom [] rest
    else wordsFrom (c :: word) rest

/-- The words of a text: its maximal runs of characters that are not blank. -/
def words (s : String) : List String := (wordsFrom [] s.toList).map String.ofList

end Text
end PeerNode
