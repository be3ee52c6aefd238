import PeerNode.Proofs.Json.Spelling
import PeerNode.Json.Value
import PeerNode.Proofs.Config.Listening

/-!
# Values of a kind, and their readers

For each kind of value that a reader takes there is a grammar of the characters that spell a value
of this kind: the two words, decimal digits without a superfluous zero, texts, texts or `null`,
and lists of texts.  Each grammar is complete in that it leaves the choice of escapes and of
insignificant characters open.  A reader reads what is spelled and stops behind it.

Digits are the one thing whose end depends on what follows, so something that ends them has to
(`Ends`): in a JSON text it does, be it a comma, a close or an insignificant character.

* `Reads`: a reader reads characters as a value, whatever surrounds them.
* `IsBool`, `IsOptional`, `IsTexts`: spellings of values of a kind.
* `reads_bool`, `reads_natural`, `reads_text`, `reads_optional`, `reads_texts`: they are read.
* `isTexts_write`: lists are written in one of their spellings.
-/

namespace PeerNode
namespace Json

variable {cs rest ws : List Char}

/-- What may stand behind a value: nothing, an insignificant character, a comma or a close. -/
def Ends (rest : List Char) : Prop :=
  ∀ c ∈ rest.head?, isSpace c = true ∨ c = ',' ∨ c = ']' ∨ c = '}'

theorem ends_nil : Ends [] := fun _ h => nomatch h

theorem ends_cons {c : Char} (h : isSpace c = true ∨ c = ',' ∨ c = ']' ∨ c = '}') :
    Ends (c :: rest) := by
  intro d hd
  rw [List.head?_cons, Option.mem_some] at hd
  exact hd ▸ h

theorem Ends.spaces_append (hws : Spaces ws) (h : Ends rest) : Ends (ws ++ rest) := by
  cases ws with
  | nil => exact h
  | cons c ws => exact ends_cons (.inl (spaces_cons.1 hws).1)

theorem not_ends_of_number {c : Char} (h : isDigit c = true ∨ c = 'e' ∨ c = 'E' ∨ c = '.') :
    ¬(isSpace c = true ∨ c = ',' ∨ c = ']' ∨ c = '}') := by
  rcases h with hdigit | rfl | rfl | rfl
  · have hrange : '0' ≤ c ∧ c ≤ '9' := by simpa [isDigit] using hdigit
    rintro (hspace | rfl | rfl | rfl)
    · have : c = ' ' ∨ c = '\n' ∨ c = '\t' ∨ c = '\r' := by
        simpa [isSpace, or_assoc] using hspace
      rcases this with rfl | rfl | rfl | rfl <;> revert hrange <;> decide
    all_goals revert hrange; decide
  all_goals decide

theorem Ends.startsWithDigit (h : Ends rest) : startsWithDigit rest = false := by
  cases rest with
  | nil => rfl
  | cons c rest =>
    exact Bool.eq_false_iff.2 fun hc => not_ends_of_number (.inl hc) (h c rfl)

theorem Ends.startsWithExponent (h : Ends rest) : startsWithExponent rest = false := by
  cases rest with
  | nil => rfl
  | cons c rest =>
    refine Bool.eq_false_iff.2 fun hc => not_ends_of_number (c := c) ?_ (h c rfl)
    rcases Bool.or_eq_true_iff.1 hc with he | he
    · exact .inr (.inl (beq_iff_eq.1 he))
    · exact .inr (.inr (.inl (beq_iff_eq.1 he)))

theorem Ends.ne_point (h : Ends rest) (tail : List Char) : rest ≠ '.' :: tail := by
  rintro rfl
  exact not_ends_of_number (.inr (.inr (.inr rfl))) (h '.' rfl)

/-- A reader reads characters as a value: with any insignificant characters in front, and up to
whatever may stand behind a value. -/
def Reads {α : Type} (read : List Char → Except Fault (α × List Char)) (cs : List Char) (v : α) :
    Prop :=
  ∀ {ws rest : List Char}, Spaces ws → Ends rest → read (ws ++ (cs ++ rest)) = .ok (v, rest)

/-! ## Words -/

/-- The spellings of a truth value. -/
inductive IsBool : List Char → Bool → Prop
  | true : IsBool "true".toList true
  | false : IsBool "false".toList false

theorem reads_bool {b : Bool} (h : IsBool cs b) : Reads readBool cs b := by
  intro ws rest hws _
  cases h with
  | true =>
    have hword := scanWord_append "rue".toList rest
    rw [readBool, show "true".toList = 't' :: "rue".toList from rfl, List.cons_append,
      skipSpace_spaces_cons hws (by decide)]
    simp only [if_true, hword, Except.map]
  | false =>
    have hword := scanWord_append "alse".toList rest
    rw [readBool, show "false".toList = 'f' :: "alse".toList from rfl, List.cons_append,
      skipSpace_spaces_cons hws (by decide)]
    simp only [if_true, hword, Except.map, if_neg (show ('f' : Char) ≠ 't' by decide)]

/-! ## Natural numbers -/

theorem toDigits_of_pos (n : Nat) (h : 0 < n) : ∃ d ds, Nat.toDigits 10 n = d :: ds ∧ d ≠ '0' := by
  have hdigit : ∀ m < 10, 0 < m → Nat.digitChar m ≠ '0' := by decide
  induction n using Nat.strongRecOn with
  | ind n ih =>
    rcases Nat.lt_or_ge n 10 with hlt | hge
    · exact ⟨Nat.digitChar n, [], Nat.toDigits_of_lt_base hlt, hdigit n hlt h⟩
    · obtain ⟨d, ds, hds, hd⟩ := ih (n / 10) (by omega) (by omega)
      refine ⟨d, ds ++ [(n % 10).digitChar], ?_, hd⟩
      rw [Nat.toDigits_of_base_le (by omega) hge, hds, List.cons_append]

/-- Digits are gathered to the number that they spell, if it fits. -/
theorem gather_digits {ds : List Char} {n count : Nat} (hdigits : ∀ d ∈ ds, isDigit d = true)
    (hrest : startsWithDigit rest = false) (hlt : Nat.ofDigitChars 10 ds n < UInt64.size) :
    gather n count (ds ++ rest) = (Nat.ofDigitChars 10 ds n, count + ds.length, rest) := by
  induction ds generalizing n count with
  | nil =>
    cases rest with
    | nil => rfl
    | cons c rest =>
      have hc : isDigit c = false := hrest
      rw [List.nil_append, gather, hc]
      rfl
  | cons d ds ih =>
    rw [Nat.ofDigitChars_cons, Nat.mul_comm] at hlt ⊢
    -- the number so far fits, since the whole number does
    have hnext : n * 10 + digitValue d < UInt64.size :=
      Nat.lt_of_le_of_lt (Whole.le_ofDigitChars ds _) hlt
    rw [List.cons_append, gather, hdigits d List.mem_cons_self, decide_eq_true hnext]
    simp only [Bool.and_self, if_true, List.length_cons]
    rw [show count + (ds.length + 1) = count + 1 + ds.length by omega]
    exact ih (fun e he => hdigits e (List.mem_cons_of_mem d he)) hlt

/-- **A number is read back from its digits.** -/
theorem scanNumber_toDigits {n : Nat} (h : n < UInt64.size) (hrest : Ends rest) :
    scanNumber true (Nat.toDigits 10 n ++ rest) = .ok (.natural n, rest) := by
  have hafter : scanAfterWhole true n rest = .ok (.natural n, rest) := by
    unfold scanAfterWhole
    split
    · rename_i tail
      exact absurd rfl (hrest.ne_point tail)
    · rw [hrest.startsWithExponent]
      rfl
  rcases Nat.eq_zero_or_pos n with rfl | hpos
  · rw [Nat.toDigits_zero, List.cons_append, List.nil_append, scanNumber, if_pos rfl,
      hrest.startsWithDigit, hafter]
    rfl
  · obtain ⟨d, ds, hds, hd⟩ := toDigits_of_pos n hpos
    have hdigits : ∀ e ∈ d :: ds, isDigit e = true := fun e he => by
      have := Nat.isDigit_of_mem_toDigits (by omega) (by omega) (hds ▸ he)
      exact this
    have hvalue : Nat.ofDigitChars 10 ds (digitValue d) = n := by
      have := @Nat.ofDigitChars_ten_toDigits n
      rw [hds, Nat.ofDigitChars_cons] at this
      simpa [digitValue] using this
    have hgather : gather (digitValue d) 0 (ds ++ rest) = _ :=
      gather_digits (fun e he => hdigits e (List.mem_cons_of_mem d he)) hrest.startsWithDigit
        (hvalue.symm ▸ h)
    rw [hds, List.cons_append, scanNumber, if_neg hd, if_pos (hdigits d List.mem_cons_self)]
    simp only [hgather, hvalue, hrest.startsWithDigit, Bool.false_eq_true, if_false, hafter]

theorem reads_natural {bound n : Nat} {expected : String} (hn : n < bound)
    (hbound : bound ≤ UInt64.size) : Reads (readNatural bound expected) (Nat.toDigits 10 n) n := by
  intro ws rest hws hrest
  have hscan := scanNumber_toDigits (Nat.lt_of_lt_of_le hn hbound) hrest
  obtain ⟨d, ds, hds⟩ := List.exists_cons_of_ne_nil (Nat.toDigits_ne_nil (n := n) (b := 10))
  have hdigit : isDigit d = true :=
    Nat.isDigit_of_mem_toDigits (by omega) (by omega) (hds ▸ List.mem_cons_self)
  have hspace : isSpace d = false := Bool.eq_false_iff.2 fun h =>
    not_ends_of_number (.inl hdigit) (.inl h)
  have hminus : d ≠ '-' := by
    rintro rfl
    exact absurd hdigit (by decide)
  rw [hds, List.cons_append] at hscan ⊢
  rw [readNatural, skipSpace_spaces_cons hws hspace]
  simp only [if_neg hminus, if_pos hdigit, hscan, naturalBelow, if_pos hn]

/-! ## Texts -/

theorem reads_text {t : String} (h : IsText cs t) : Reads readText cs t :=
  fun hws _ => readText_eq hws h _

/-- The spellings of an optional text. -/
inductive IsOptional : List Char → Option String → Prop
  | none : IsOptional "null".toList none
  | some {cs : List Char} {t : String} (h : IsText cs t) : IsOptional cs (some t)

theorem reads_optional {t : Option String} (h : IsOptional cs t) : Reads readOptional cs t := by
  intro ws rest hws hrest
  cases h with
  | none =>
    have hword := scanWord_append "ull".toList rest
    rw [readOptional, show "null".toList = 'n' :: "ull".toList from rfl, List.cons_append,
      skipSpace_spaces_cons hws (by decide)]
    simp only [hword, Except.map]
  | some h =>
    obtain ⟨tail, htail, _⟩ := h.scan rest
    rw [readOptional, reads_text h hws hrest, htail, skipSpace_spaces_cons hws (by decide)]
    rfl

/-! ## Lists of texts -/

/-- The spellings of the texts of a list that has texts in front of them, up to its close. -/
inductive IsMoreTexts : List Char → List String → Prop
  | close {ws : List Char} (hws : Spaces ws) : IsMoreTexts (ws ++ [']']) []
  | cons {before after cs more : List Char} {t : String} {ts : List String}
      (hbefore : Spaces before) (hafter : Spaces after) (ht : IsText cs t)
      (hmore : IsMoreTexts more ts) :
      IsMoreTexts (before ++ ',' :: (after ++ (cs ++ more))) (t :: ts)

/-- The spellings of a list of texts. -/
inductive IsTexts : List Char → List String → Prop
  | nil {ws : List Char} (hws : Spaces ws) : IsTexts ('[' :: (ws ++ [']'])) []
  | cons {ws cs more : List Char} {t : String} {ts : List String} (hws : Spaces ws)
      (ht : IsText cs t) (hmore : IsMoreTexts more ts) :
      IsTexts ('[' :: (ws ++ (cs ++ more))) (t :: ts)

/-- What a list is read as, after the texts `done` that stand in front.  The reader's own equation
has the evidence that it ends in each case; here it is left out. -/
theorem readElements_eq (done : List String) (cs : List Char) :
    readElements done cs = match skipSpace cs with
      | [] => .error ⟨.eofInList, 0⟩
      | c :: rest =>
        if c = ']' then .ok (done.reverse, rest)
        else if done.isEmpty then
          (readText (c :: rest)).bind fun read => readElements (read.1 :: done) read.2
        else if c = ',' then
          match skipSpace rest with
          | [] => .error ⟨.eofInValue, 0⟩
          | d :: rest' =>
            if d = ']' then .error (faultAt .trailingComma (d :: rest'))
            else (readText (d :: rest')).bind fun read => readElements (read.1 :: done) read.2
        else .error (faultAt .expectedCommaOrBracket (c :: rest)) := by
  rw [readElements]
  split
  · rename_i h
    rw [h]
  · rename_i c rest h
    simp only [h]
    split_ifs
    · rfl
    · split <;> rename_i hread <;> rw [hread] <;> rfl
    · split
      · rename_i h'
        rw [h']
      · rename_i d rest' h'
        simp only [h']
        split_ifs
        · rfl
        · split <;> rename_i hread <;> rw [hread] <;> rfl
    · rfl

theorem readElements_close {done : List String} (hws : Spaces ws) (rest : List Char) :
    readElements done (ws ++ ']' :: rest) = .ok (done.reverse, rest) := by
  rw [readElements_eq, skipSpace_spaces_cons hws (by decide)]
  simp only [if_true]

theorem readElements_first {t : String} (hws : Spaces ws) (ht : IsText cs t) (rest : List Char) :
    readElements [] (ws ++ (cs ++ rest)) = readElements [t] rest := by
  obtain ⟨tail, htail, _⟩ := ht.scan rest
  have hread := readText_eq spaces_nil ht rest
  rw [List.nil_append, htail] at hread
  rw [htail, readElements_eq, skipSpace_spaces_cons hws (by decide)]
  simp only [if_neg (show ('"' : Char) ≠ ']' by decide), List.isEmpty_nil, if_true, hread,
    Except.bind]

/-- A further text of a list is read. -/
theorem readElements_next {done : List String} {before after : List Char} {t : String}
    (hdone : done ≠ []) (hbefore : Spaces before) (hafter : Spaces after) (ht : IsText cs t)
    (rest : List Char) :
    readElements done (before ++ ',' :: (after ++ (cs ++ rest))) =
      readElements (t :: done) rest := by
  obtain ⟨tail, htail, _⟩ := ht.scan rest
  have hread := readText_eq spaces_nil ht rest
  have hmore : done.isEmpty = false := List.isEmpty_eq_false_iff.2 hdone
  rw [List.nil_append, htail] at hread
  rw [htail, readElements_eq, skipSpace_spaces_cons hbefore (by decide)]
  simp only [if_neg (show (',' : Char) ≠ ']' by decide), hmore, Bool.false_eq_true, if_false,
    if_true, skipSpace_spaces_cons hafter (show isSpace '"' = false by decide),
    if_neg (show ('"' : Char) ≠ ']' by decide), hread, Except.bind]

/-- The texts of a list after those read are read. -/
theorem readElements_more {ts : List String} (h : IsMoreTexts cs ts) {done : List String}
    (hdone : done ≠ []) (rest : List Char) :
    readElements done (cs ++ rest) = .ok (done.reverse ++ ts, rest) := by
  induction h generalizing done with
  | close hws =>
    rw [List.append_assoc, List.singleton_append, readElements_close hws, List.append_nil]
  | @cons before after cs more t ts hbefore hafter ht hmore ih =>
    have hcs : before ++ ',' :: (after ++ (cs ++ more)) ++ rest =
        before ++ ',' :: (after ++ (cs ++ (more ++ rest))) := by
      simp
    rw [hcs, readElements_next hdone hbefore hafter ht, ih (List.cons_ne_nil t done),
      List.reverse_cons, List.append_assoc, List.singleton_append]

theorem reads_texts {ts : List String} (h : IsTexts cs ts) : Reads readTexts cs ts := by
  intro ws rest hws _
  have hopen : ∀ inside : List Char, readTexts (ws ++ '[' :: inside) = readElements [] inside := by
    intro inside
    rw [readTexts, skipSpace_spaces_cons hws (by decide)]
    simp only [if_true]
  cases h with
  | nil hinner =>
    rw [List.cons_append, hopen, List.append_assoc, List.singleton_append,
      readElements_close hinner, List.reverse_nil]
  | cons hinner ht hmore =>
    rw [List.cons_append, hopen, List.append_assoc, List.append_assoc,
      readElements_first hinner ht, readElements_more hmore (List.cons_ne_nil _ _)]
    rfl

theorem isMoreTexts_write (ts : List String) :
    IsMoreTexts (ts.flatMap (fun t => ',' :: writeText t) ++ [']']) ts := by
  induction ts with
  | nil => exact .close spaces_nil
  | cons t ts ih =>
    have h := IsMoreTexts.cons spaces_nil spaces_nil (isText_writeText t) ih
    simpa using h

/-- **A list of texts is written in one of its spellings.** -/
theorem isTexts_write (ts : List String) : IsTexts (Value.list (ts.map .text)).write ts := by
  have helements : ∀ (t : String) (ts : List String),
      writeElements ((t :: ts).map .text) =
        writeText t ++ ts.flatMap fun t => ',' :: writeText t := by
    intro t ts
    induction ts generalizing t with
    | nil => simp [writeElements, Value.write]
    | cons u us ih =>
      rw [List.map_cons, List.map_cons, writeElements, ← List.map_cons, ih u]
      · simp [Value.write]
      · simp
  rw [Value.write]
  cases ts with
  | nil => exact .nil spaces_nil
  | cons t ts =>
    have h := IsTexts.cons spaces_nil (isText_writeText t) (isMoreTexts_write ts)
    rw [helements]
    simpa using h

end Json
end PeerNode
