import PeerNode.Json.Reader
import Mathlib.Tactic.SplitIfs

/-!
# How texts are spelled in JSON

A character can be spelled in several ways: as itself, by a short escape, by its number in
hexadecimal digits of either case, and beyond U+FFFF by two such numbers.  `SpellsChar` lists them
and `Spells` puts them in sequence; neither mentions a reader.  A reader of texts reads whatever
spells a text as this text (`scanText_spells`), and a writer picks one of the spellings
(`spells_writeChars`), so a text that was written is read back, whatever characters it has.

* `Spaces`: insignificant characters, which are passed over.
* `SpellsChar`, `Spells`: spellings of a character and of a text.
* `IsText`: a text with its quotation marks; `readText_eq` reads it.
-/

namespace PeerNode
namespace Json

variable {cs rest ws : List Char}

/-! ## Insignificant characters -/

/-- Characters that may stand between the parts of a JSON text. -/
def Spaces (ws : List Char) : Prop := ∀ c ∈ ws, isSpace c = true

instance (ws : List Char) : Decidable (Spaces ws) := inferInstanceAs (Decidable (∀ c ∈ ws, _))

theorem spaces_nil : Spaces [] := fun _ h => absurd h List.not_mem_nil

theorem spaces_cons {c : Char} : Spaces (c :: ws) ↔ isSpace c = true ∧ Spaces ws :=
  List.forall_mem_cons

theorem skipSpace_append (h : Spaces ws) (rest : List Char) :
    skipSpace (ws ++ rest) = skipSpace rest := by
  rw [skipSpace, List.dropWhile_append_of_pos h, skipSpace]

theorem skipSpace_cons {c : Char} (h : isSpace c = false) (rest : List Char) :
    skipSpace (c :: rest) = c :: rest := by
  rw [skipSpace, List.dropWhile_cons_of_neg (by rw [h]; exact Bool.false_ne_true)]

theorem skipSpace_spaces_cons (h : Spaces ws) {c : Char} (hc : isSpace c = false)
    (rest : List Char) : skipSpace (ws ++ c :: rest) = c :: rest := by
  rw [skipSpace_append h, skipSpace_cons hc]

theorem skipSpace_spaces (h : Spaces ws) : skipSpace ws = [] := by
  rw [← List.append_nil ws, skipSpace_append h]
  rfl

/-! ## Words -/

theorem scanWord_append (word rest : List Char) : scanWord word (word ++ rest) = .ok rest := by
  induction word with
  | nil => rw [scanWord, List.nil_append]
  | cons w word ih => rw [List.cons_append, scanWord, if_pos rfl, ih]

/-! ## Spellings of a text -/

/-- The spellings of a character inside of quotation marks. -/
inductive SpellsChar : List Char → Char → Prop
  /-- Most characters stand for themselves. -/
  | plain {c : Char} (hquote : c ≠ '"') (hescape : c ≠ '\\') (hcontrol : isControl c = false) :
      SpellsChar [c] c
  /-- Some have an escape of one letter. -/
  | short {e c : Char} (h : shortEscape? e = some c) : SpellsChar ['\\', e] c
  /-- Those up to U+FFFF have numbers of four digits. -/
  | number {a b c d : Char} {n : Nat} (h : hexNumber? a b c d = some n)
      (hleading : isLeading n = false) (htrailing : isTrailing n = false) :
      SpellsChar ['\\', 'u', a, b, c, d] (Char.ofNat n)
  /-- The others have two such numbers, neither of which is that of a character. -/
  | pair {a b c d a' b' c' d' : Char} {n t : Nat} (h : hexNumber? a b c d = some n)
      (hleading : isLeading n = true) (h' : hexNumber? a' b' c' d' = some t)
      (htrailing : isTrailing t = true) :
      SpellsChar ['\\', 'u', a, b, c, d, '\\', 'u', a', b', c', d']
        (Char.ofNat (0x10000 + (n - 0xD800) * 1024 + (t - 0xDC00)))

/-- The spellings of a text inside of quotation marks: those of its characters, in order. -/
inductive Spells : List Char → List Char → Prop
  | nil : Spells [] []
  | cons {here more t : List Char} {c : Char} (hc : SpellsChar here c) (ht : Spells more t) :
      Spells (here ++ more) (c :: t)

theorem isTrailing_of_isLeading {n : Nat} (h : isLeading n = true) : isTrailing n = false := by
  simp only [isLeading, isTrailing, Bool.and_eq_true, decide_eq_true_eq, Bool.and_eq_false_iff,
    decide_eq_false_iff_not] at h ⊢
  omega

theorem scanHex_cons {a b c d : Char} {n : Nat} (h : hexNumber? a b c d = some n)
    (rest : List Char) : scanHex (a :: b :: c :: d :: rest) = .ok (n, rest) := by
  simp only [scanHex, h]

theorem scanEscape_short {e c : Char} (h : shortEscape? e = some c) (rest : List Char) :
    scanEscape (e :: rest) = .ok (c, rest) := by
  simp only [scanEscape, h]

theorem scanEscape_number {a b c d : Char} {n : Nat} (h : hexNumber? a b c d = some n)
    (hleading : isLeading n = false) (htrailing : isTrailing n = false) (rest : List Char) :
    scanEscape ('u' :: a :: b :: c :: d :: rest) = .ok (Char.ofNat n, rest) := by
  have hu : shortEscape? 'u' = none := by decide
  simp only [scanEscape, hu, scanCodePoint, scanHex_cons h, hleading, htrailing, if_true,
    Bool.false_eq_true, if_false]

theorem scanEscape_pair {a b c d a' b' c' d' : Char} {n t : Nat} (h : hexNumber? a b c d = some n)
    (hleading : isLeading n = true) (h' : hexNumber? a' b' c' d' = some t)
    (htrailing : isTrailing t = true) (rest : List Char) :
    scanEscape ('u' :: a :: b :: c :: d :: '\\' :: 'u' :: a' :: b' :: c' :: d' :: rest) =
      .ok (Char.ofNat (0x10000 + (n - 0xD800) * 1024 + (t - 0xDC00)), rest) := by
  have hu : shortEscape? 'u' = none := by decide
  simp only [scanEscape, hu, scanCodePoint, scanHex_cons h, scanTrailing, scanHex_cons h',
    hleading, htrailing, isTrailing_of_isLeading hleading, if_true, Bool.false_eq_true, if_false,
    ne_eq, not_true_eq_false]

/-- An escape in a text is read as its character. -/
theorem scanText_escape {c : Char} {done tail rest : List Char}
    (h : scanEscape tail = .ok (c, rest)) :
    scanText done ('\\' :: tail) = scanText (c :: done) rest := by
  rw [scanText, if_neg (by decide), if_pos rfl]
  split
  · rename_i h'
    rw [h] at h'
    cases h'
  · rename_i h'
    rw [h] at h'
    cases h'
    rfl

/-- **A spelled character is read** and what follows is read after it. -/
theorem scanText_spellsChar {c : Char} (h : SpellsChar cs c) (done rest : List Char) :
    scanText done (cs ++ rest) = scanText (c :: done) rest := by
  cases h with
  | plain hquote hslash hcontrol =>
    rw [List.cons_append, List.nil_append, scanText, if_neg hquote, if_neg hslash,
      if_neg (by rw [hcontrol]; exact Bool.false_ne_true)]
  | short h => exact scanText_escape (scanEscape_short h rest)
  | number h hleading htrailing =>
    exact scanText_escape (scanEscape_number h hleading htrailing rest)
  | pair h hleading h' htrailing =>
    exact scanText_escape (scanEscape_pair h hleading h' htrailing rest)

/-- **A spelled text is read** up to its closing quotation mark. -/
theorem scanText_spells {t : List Char} (h : Spells cs t) (done rest : List Char) :
    scanText done (cs ++ '"' :: rest) = .ok (done.reverse ++ t, rest) := by
  induction h generalizing done with
  | nil => rw [List.nil_append, scanText, if_pos rfl, List.append_nil]
  | cons hc _ ih =>
    rw [List.append_assoc, scanText_spellsChar hc, ih, List.reverse_cons, List.append_assoc,
      List.singleton_append]

/-! ## The spelling that is written -/

theorem hexNumber_control : ∀ n < 0x20,
    hexNumber? '0' '0' (Nat.digitChar (n / 16)) (Nat.digitChar (n % 16)) = some n := by
  decide

/-- Every character is written in one of its spellings. -/
theorem spells_writeChar (c : Char) : SpellsChar (writeChar c) c := by
  unfold writeChar
  split_ifs with hquote hslash hback hfeed hline hreturn htab hcontrol
  · rw [hquote]; exact .short rfl
  · rw [hslash]; exact .short rfl
  · rw [hback]; exact .short rfl
  · rw [hfeed]; exact .short rfl
  · rw [hline]; exact .short rfl
  · rw [hreturn]; exact .short rfl
  · rw [htab]; exact .short rfl
  · have hsmall : c.toNat < 0x20 := of_decide_eq_true hcontrol
    have hnumber := SpellsChar.number (hexNumber_control _ hsmall)
      (by simp only [isLeading, Bool.and_eq_false_iff, decide_eq_false_iff_not]; omega)
      (by simp only [isTrailing, Bool.and_eq_false_iff, decide_eq_false_iff_not]; omega)
    rwa [Char.ofNat_toNat] at hnumber
  · exact .plain hquote hslash (Bool.eq_false_iff.2 hcontrol)

/-- Every text is written in one of its spellings. -/
theorem spells_writeChars (t : List Char) : Spells (t.flatMap writeChar) t := by
  induction t with
  | nil => exact .nil
  | cons c t ih => exact .cons (spells_writeChar c) ih

/-! ## Texts -/

/-- The spellings of a text with their quotation marks. -/
def IsText (cs : List Char) (t : String) : Prop :=
  ∃ body, cs = '"' :: body ++ ['"'] ∧ Spells body t.toList

theorem isText_writeText (t : String) : IsText (writeText t) t :=
  ⟨t.toList.flatMap writeChar, rfl, spells_writeChars t.toList⟩

theorem IsText.scan {t : String} (h : IsText cs t) (rest : List Char) :
    ∃ tail, cs ++ rest = '"' :: tail ∧ scanText [] tail = .ok (t.toList, rest) := by
  obtain ⟨body, rfl, hbody⟩ := h
  refine ⟨body ++ '"' :: rest, by simp, ?_⟩
  exact scanText_spells hbody [] rest

/-- **A text is read**, with the insignificant characters in front of it. -/
theorem readText_eq {t : String} (hws : Spaces ws) (h : IsText cs t) (rest : List Char) :
    readText (ws ++ (cs ++ rest)) = .ok (t, rest) := by
  obtain ⟨tail, hcs, hscan⟩ := h.scan rest
  rw [hcs, readText, skipSpace_spaces_cons hws (by decide)]
  simp only [if_true, hscan, Except.map, String.ofList_toList]

end Json
end PeerNode
