import PeerNode.Json.Fault
import PeerNode.Text.Quoted

/-!
# Words and texts in JSON

The words `null`, `true` and `false` and quoted texts.  In a text a backslash introduces an
escape: a short one, or `u` with four hexadecimal digits.  Characters beyond U+FFFF take two such
escapes, a leading and a trailing surrogate; a surrogate on its own is no character.

* `skipSpace`: what follows the insignificant characters.
* `scanWord`: what follows a word.
* `scanText`: the characters of a text whose opening quotation mark has been read.
* `skipText`: what follows such a text, of which only the form is checked.
* `writeText`: a text with its quotation marks, in its shortest form.
-/

namespace PeerNode
namespace Json

/-- The characters that may stand between the parts of a JSON text. -/
def isSpace (c : Char) : Bool := c == ' ' || c == '\n' || c == '\t' || c == '\r'

/-- What follows the insignificant characters in front. -/
def skipSpace (cs : List Char) : List Char := cs.dropWhile isSpace

/-- What follows the characters `word`, which must stand in front. -/
def scanWord : List Char → List Char → Except Fault (List Char)
  | [], cs => .ok cs
  | _ :: _, [] => .error ⟨.eofInValue, 0⟩
  | w :: word, c :: rest =>
    if c = w then scanWord word rest else .error (faultAt .expectedWord (c :: rest))

/-! ## Escapes -/

/-- The value of a hexadecimal digit. -/
def hexValue? (c : Char) : Option Nat :=
  if '0' ≤ c ∧ c ≤ '9' then some (c.toNat - 48)
  else if 'a' ≤ c ∧ c ≤ 'f' then some (c.toNat - 87)
  else if 'A' ≤ c ∧ c ≤ 'F' then some (c.toNat - 55)
  else none

/-- The number that four hexadecimal digits spell. -/
def hexNumber? (a b c d : Char) : Option Nat := do
  let a ← hexValue? a
  let b ← hexValue? b
  let c ← hexValue? c
  let d ← hexValue? d
  return ((a * 16 + b) * 16 + c) * 16 + d

/-- The number of the four hexadecimal digits in front, and what follows.  Four octets are looked
at, if there are so many. -/
def scanHex (cs : List Char) : Except Fault (Nat × List Char) :=
  match cs with
  | a :: b :: c :: d :: rest =>
    match hexNumber? a b c d with
    | some n => .ok (n, rest)
    | none => .error ⟨.invalidEscape, octets cs - 4⟩
  | _ =>
    if 4 ≤ octets cs then .error ⟨.invalidEscape, octets cs - 4⟩ else .error ⟨.eofInText, 0⟩

def isLeading (n : Nat) : Bool := 0xD800 ≤ n && n ≤ 0xDBFF

def isTrailing (n : Nat) : Bool := 0xDC00 ≤ n && n ≤ 0xDFFF

/-- The trailing surrogate escape that must follow a leading one, and what follows it. -/
def scanTrailing (cs : List Char) : Except Fault (Nat × List Char) :=
  match cs with
  | [] => .error ⟨.eofInText, 0⟩
  | c :: rest =>
    if c ≠ '\\' then .error (faultAt .escapeEndsEarly cs)
    else match rest with
      | [] => .error ⟨.eofInText, 0⟩
      | u :: digits =>
        if u ≠ 'u' then .error (faultAt .escapeEndsEarly rest)
        else match scanHex digits with
          | .error fault => .error fault
          | .ok (n, rest) =>
            if isTrailing n then .ok (n, rest) else .error (faultBefore .loneSurrogate rest)

/-- The character of an escape by number, of which the digits are in front, and what follows. -/
def scanCodePoint (cs : List Char) : Except Fault (Char × List Char) :=
  match scanHex cs with
  | .error fault => .error fault
  | .ok (n, rest) =>
    if isTrailing n then .error (faultBefore .loneSurrogate rest)
    else if isLeading n then
      match scanTrailing rest with
      | .error fault => .error fault
      | .ok (t, rest) => .ok (Char.ofNat (0x10000 + (n - 0xD800) * 1024 + (t - 0xDC00)), rest)
    else .ok (Char.ofNat n, rest)

/-- The character of a short escape. -/
def shortEscape? (c : Char) : Option Char :=
  if c = '"' ∨ c = '\\' ∨ c = '/' then some c
  else if c = 'b' then some '\x08'
  else if c = 'f' then some '\x0c'
  else if c = 'n' then some '\n'
  else if c = 'r' then some '\r'
  else if c = 't' then some '\t'
  else none

/-- The character of the escape in front, after its backslash, and what follows. -/
def scanEscape (cs : List Char) : Except Fault (Char × List Char) :=
  match cs with
  | [] => .error ⟨.eofInText, 0⟩
  | c :: rest =>
    match shortEscape? c with
    | some x => .ok (x, rest)
    | none => if c = 'u' then scanCodePoint rest else .error (faultAt .invalidEscape cs)

/-- What follows the escape in front, after its backslash; surrogates are not checked. -/
def skipEscape (cs : List Char) : Except Fault (List Char) :=
  match cs with
  | [] => .error ⟨.eofInText, 0⟩
  | c :: rest =>
    if (shortEscape? c).isSome then .ok rest
    else if c = 'u' then
      match scanHex rest with
      | .error fault => .error fault
      | .ok (_, rest) => .ok rest
    else .error (faultAt .invalidEscape cs)

/-! ## An escape takes characters away -/

theorem length_of_scanHex {cs rest : List Char} {n : Nat} (h : scanHex cs = .ok (n, rest)) :
    rest.length < cs.length := by
  unfold scanHex at h
  split at h
  · split at h
    · cases h
      simp only [List.length_cons]
      omega
    · cases h
  · split at h <;> cases h

theorem length_of_scanTrailing {cs rest : List Char} {n : Nat}
    (h : scanTrailing cs = .ok (n, rest)) : rest.length < cs.length := by
  unfold scanTrailing at h
  split at h
  · cases h
  · split at h
    · cases h
    · split at h
      · cases h
      · split at h
        · cases h
        · split at h
          · cases h
          · rename_i hh
            split at h
            · cases h
              have := length_of_scanHex hh
              simp only [List.length_cons]
              omega
            · cases h

theorem length_of_scanCodePoint {cs rest : List Char} {c : Char}
    (h : scanCodePoint cs = .ok (c, rest)) : rest.length < cs.length := by
  rw [scanCodePoint] at h
  split at h
  · cases h
  · rename_i hh
    have := length_of_scanHex hh
    split at h
    · cases h
    · split at h
      · split at h
        · cases h
        · rename_i ht
          have := length_of_scanTrailing ht
          simp only [Except.ok.injEq, Prod.mk.injEq] at h
          rw [← h.2]
          omega
      · simp only [Except.ok.injEq, Prod.mk.injEq] at h
        rw [← h.2]
        omega

theorem length_of_scanEscape {cs rest : List Char} {c : Char}
    (h : scanEscape cs = .ok (c, rest)) : rest.length < cs.length := by
  unfold scanEscape at h
  split at h
  · cases h
  · split at h
    · cases h
      simp
    · split at h
      · have := length_of_scanCodePoint h
        simp only [List.length_cons]
        omega
      · cases h

theorem length_of_skipEscape {cs rest : List Char} (h : skipEscape cs = .ok rest) :
    rest.length < cs.length := by
  unfold skipEscape at h
  split at h
  · cases h
  · split at h
    · cases h
      simp
    · split at h
      · split at h
        · cases h
        · rename_i hh
          cases h
          have := length_of_scanHex hh
          simp only [List.length_cons]
          omega
      · cases h

/-! ## Texts -/

/-- Whether a character must be escaped because it is a control character. -/
def isControl (c : Char) : Bool := c.toNat < 0x20

/-- The characters of a text up to its closing quotation mark, after those of `done` (last
first), and what follows. -/
def scanText (done : List Char) (cs : List Char) : Except Fault (List Char × List Char) :=
  match cs with
  | [] => .error ⟨.eofInText, 0⟩
  | c :: rest =>
    if c = '"' then .ok (done.reverse, rest)
    else if c = '\\' then
      match _h : scanEscape rest with
      | .error fault => .error fault
      | .ok (x, rest) => scanText (x :: done) rest
    else if isControl c then .error (faultAt .controlCharacter cs)
    else scanText (c :: done) rest
termination_by cs.length
decreasing_by
  · have := length_of_scanEscape _h
    simp only [List.length_cons]
    omega
  · simp

/-- What follows a text, of which only the form is checked.  A control character in it does not
count as looked at. -/
def skipText (cs : List Char) : Except Fault (List Char) :=
  match cs with
  | [] => .error ⟨.eofInText, 0⟩
  | c :: rest =>
    if c = '"' then .ok rest
    else if c = '\\' then
      match _h : skipEscape rest with
      | .error fault => .error fault
      | .ok rest => skipText rest
    else if isControl c then .error (faultBefore .controlCharacter cs)
    else skipText rest
termination_by cs.length
decreasing_by
  · have := length_of_skipEscape _h
    simp only [List.length_cons]
    omega
  · simp

/-- Reading a text takes characters away. -/
theorem length_of_scanText {done cs t rest : List Char} (h : scanText done cs = .ok (t, rest)) :
    rest.length < cs.length := by
  fun_induction scanText done cs with
  | case1 => cases h
  | case2 => cases h; simp
  | case3 => cases h
  | case4 done rest' x rest'' hx _ ih =>
    have := length_of_scanEscape hx
    have := ih h
    simp only [List.length_cons]
    omega
  | case5 => cases h
  | case6 done c rest' h1 h2 h3 ih =>
    have := ih h
    simp only [List.length_cons]
    omega

/-! ## Writing -/

/-- A character as it is written in a text: quotation marks, backslashes and control characters
are escaped, all else stands for itself. -/
def writeChar (c : Char) : List Char :=
  if c = '"' then ['\\', '"']
  else if c = '\\' then ['\\', '\\']
  else if c = '\x08' then ['\\', 'b']
  else if c = '\x0c' then ['\\', 'f']
  else if c = '\n' then ['\\', 'n']
  else if c = '\r' then ['\\', 'r']
  else if c = '\t' then ['\\', 't']
  else if isControl c then
    ['\\', 'u', '0', '0', Nat.digitChar (c.toNat / 16), Nat.digitChar (c.toNat % 16)]
  else [c]

def writeText (s : String) : List Char := '"' :: s.toList.flatMap writeChar ++ ['"']

end Json
end PeerNode
