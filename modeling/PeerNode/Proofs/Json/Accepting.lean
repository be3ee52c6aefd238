import PeerNode.Proofs.Json.Passing

/-!
# What the readers accept

The grammars of `Kinds` say what each reader reads; here it is shown that it accepts no other
value.  The values are those of the grammar of JSON (`Form`), and the first character of a value
says what the rest of it looks like (`Form.afterHead`), so a reader that goes by the first
character fails at once on values of other kinds.  On a value that begins as one of its own kind
does, what the reader has read is spelled (`scanText_sound`, `scanNumber_sound`), but it may not
be the whole value; that it is follows from passing over the value, since what has been read is
passed over to where the reader stopped, and the value to its end.

* `AcceptsOnly`: a reader accepts of all values only those that are spelled, and to their ends.
* `acceptsOnly_bool`, `acceptsOnly_natural`, `acceptsOnly_text`, `acceptsOnly_optional`,
  `acceptsOnly_texts`: the readers do.
* `IsText.form`, `IsTexts.form` and others: what is spelled is a value.
-/

namespace PeerNode
namespace Json

variable {cs rest ws : List Char}

/-! ## The first character of a value -/

/-- What follows the first character of a value, in the order in which readers ask for it. -/
def AfterHead (c : Char) (tail : List Char) : Prop :=
  if c = 'n' then tail = "ull".toList
  else if c = 't' then tail = "rue".toList
  else if c = 'f' then tail = "alse".toList
  else if c = '-' then IsMagnitude tail
  else if isDigit c then IsMagnitude (c :: tail)
  else if c = '"' then ∃ body, tail = body ++ ['"'] ∧ IsForm body
  else if c = '[' then Form (.first .list) tail
  else c = '{' ∧ Form (.first .object) tail

theorem ne_of_isDigit {c d : Char} (hc : isDigit c = true) (hd : isDigit d = false) : c ≠ d := by
  rintro rfl
  rw [hc] at hd
  cases hd

theorem afterHead_digit {c : Char} {tail : List Char} (hc : isDigit c = true) :
    AfterHead c tail ↔ IsMagnitude (c :: tail) := by
  rw [AfterHead, if_neg (ne_of_isDigit hc (by decide)), if_neg (ne_of_isDigit hc (by decide)),
    if_neg (ne_of_isDigit hc (by decide)), if_neg (ne_of_isDigit hc (by decide)), if_pos hc]

/-- **The first character of a value says what follows it.** -/
theorem Form.afterHead (h : Form .value cs) :
    ∃ c tail, cs = c :: tail ∧ isSpace c = false ∧ AfterHead c tail := by
  obtain ⟨c, tail, hcs, hspace, -⟩ := h.head
  refine ⟨c, tail, hcs, hspace, ?_⟩
  cases h with
  | scalar h =>
    cases h with
    | null => cases hcs; rfl
    | true => cases hcs; rfl
    | false => cases hcs; rfl
    | positive h =>
      subst hcs
      exact (afterHead_digit (skipNumber_eq h ends_nil).1).2 h
    | negative h => cases hcs; exact h
    | text h => cases hcs; exact ⟨_, rfl, h⟩
  | container k h =>
    cases hcs
    cases k with
    | list => exact h
    | object => exact ⟨rfl, h⟩

/-- A reader accepts only values of its kind: what it reads of a value is spelled by the value as
a whole, with whatever is in front and behind. -/
def AcceptsOnly {α : Type} (read : List Char → Except Fault (α × List Char))
    (Is : List Char → α → Prop) : Prop :=
  ∀ {ws cs rest left : List Char} {v : α}, Spaces ws → Form .value cs → Ends rest →
    read (ws ++ (cs ++ rest)) = .ok (v, left) → Is cs v ∧ left = rest

/-! ## Words -/

/-- The spellings of truth values are values. -/
theorem IsBool.form {b : Bool} (h : IsBool cs b) : Form .value cs := by
  cases h
  · exact .scalar .true
  · exact .scalar .false

theorem acceptsOnly_bool : AcceptsOnly readBool IsBool := by
  intro ws cs rest left b hws hcs _ h
  obtain ⟨c, tail, rfl, hspace, hafter⟩ := hcs.afterHead
  rw [List.cons_append, readBool, skipSpace_spaces_cons hws hspace] at h
  dsimp only at h
  split_ifs at h with htrue hfalse
  · subst htrue
    obtain rfl : tail = "rue".toList := hafter
    rw [scanWord_append] at h
    cases h
    exact ⟨.true, rfl⟩
  · subst hfalse
    obtain rfl : tail = "alse".toList := hafter
    rw [scanWord_append] at h
    cases h
    exact ⟨.false, rfl⟩

/-! ## Texts -/

theorem scanHex_sound {n : Nat} (h : scanHex cs = .ok (n, rest)) :
    ∃ a b c d, cs = a :: b :: c :: d :: rest ∧ hexNumber? a b c d = some n := by
  unfold scanHex at h
  split at h
  · split at h
    · rename_i hn
      cases h
      exact ⟨_, _, _, _, rfl, hn⟩
    · cases h
  · split at h <;> cases h

/-- The trailing surrogate that was read. -/
theorem scanTrailing_sound {n : Nat} (h : scanTrailing cs = .ok (n, rest)) :
    ∃ a b c d, cs = '\\' :: 'u' :: a :: b :: c :: d :: rest ∧ hexNumber? a b c d = some n ∧
      isTrailing n = true := by
  unfold scanTrailing at h
  split at h
  · cases h
  · split_ifs at h with hslash
    split at h
    · cases h
    · split_ifs at h with hu
      split at h
      · cases h
      · rename_i hhex
        split_ifs at h with htrailing
        cases h
        obtain ⟨a, b, c, d, rfl, hn⟩ := scanHex_sound hhex
        rw [Decidable.not_not.1 hslash, Decidable.not_not.1 hu]
        exact ⟨a, b, c, d, rfl, hn, htrailing⟩

/-- **An escape that was read spells its character.** -/
theorem scanEscape_sound {x : Char} (h : scanEscape cs = .ok (x, rest)) :
    ∃ here, cs = here ++ rest ∧ SpellsChar ('\\' :: here) x := by
  unfold scanEscape at h
  split at h
  · cases h
  · rename_i c tail
    split at h
    · rename_i hshort
      cases h
      exact ⟨[c], rfl, .short hshort⟩
    · split_ifs at h with hu
      subst hu
      unfold scanCodePoint at h
      split at h
      · cases h
      · rename_i hhex
        obtain ⟨a, b, c, d, rfl, hn⟩ := scanHex_sound hhex
        split_ifs at h with htrailing hleading
        · split at h
          · cases h
          · rename_i hlow
            obtain ⟨a', b', c', d', rfl, ht, htrailing'⟩ := scanTrailing_sound hlow
            simp only [Except.ok.injEq, Prod.mk.injEq] at h
            obtain ⟨rfl, rfl⟩ := h
            exact ⟨['u', a, b, c, d, '\\', 'u', a', b', c', d'], rfl,
              .pair hn hleading ht htrailing'⟩
        · cases h
          exact ⟨['u', a, b, c, d], rfl,
            .number hn (Bool.eq_false_iff.2 hleading) (Bool.eq_false_iff.2 htrailing)⟩

/-- **What was read up to a closing quotation mark spells the text.** -/
theorem scanText_sound {done t : List Char} (h : scanText done cs = .ok (t, rest)) :
    ∃ body more, cs = body ++ '"' :: rest ∧ Spells body more ∧ t = done.reverse ++ more := by
  fun_induction scanText done cs with
  | case1 => cases h
  | case2 => cases h; exact ⟨[], [], rfl, .nil, (List.append_nil _).symm⟩
  | case3 => cases h
  | case4 done tail x tail' hx _ ih =>
    obtain ⟨here, rfl, hchar⟩ := scanEscape_sound hx
    obtain ⟨body, more, rfl, hbody, rfl⟩ := ih h
    refine ⟨'\\' :: here ++ body, x :: more, by simp, .cons hchar hbody, by simp⟩
  | case5 => cases h
  | case6 done c tail hquote hslash hcontrol ih =>
    obtain ⟨body, more, rfl, hbody, rfl⟩ := ih h
    exact ⟨[c] ++ body, c :: more, rfl,
      .cons (.plain hquote hslash (Bool.eq_false_iff.2 hcontrol)) hbody, by simp⟩

/-- A spelled character has the form of one. -/
theorem SpellsChar.form {c : Char} (h : SpellsChar cs c) : IsForm cs := by
  have hone : ∀ {cs : List Char}, IsFormChar cs → IsForm cs := fun {cs} h => by
    have := IsForm.cons h .nil
    rwa [List.append_nil] at this
  cases h with
  | plain hquote hslash hcontrol => exact hone (.plain hquote hslash hcontrol)
  | short h => exact hone (.short (Option.isSome_of_mem h))
  | number h => exact hone (.number (Option.isSome_of_mem h))
  | pair h _ h' _ =>
    exact .cons (.number (Option.isSome_of_mem h)) (hone (.number (Option.isSome_of_mem h')))

theorem IsForm.append {ds : List Char} (h : IsForm cs) (h' : IsForm ds) : IsForm (cs ++ ds) := by
  induction h with
  | nil => exact h'
  | cons hc _ ih =>
    rw [List.append_assoc]
    exact .cons hc ih

/-- A spelled text has the form of one. -/
theorem Spells.form {t : List Char} (h : Spells cs t) : IsForm cs := by
  induction h with
  | nil => exact .nil
  | cons hc _ ih => exact hc.form.append ih

/-- The spellings of texts are values. -/
theorem IsText.form {t : String} (h : IsText cs t) : Form .value cs := by
  obtain ⟨body, rfl, hbody⟩ := h
  exact .scalar (.text hbody.form)

theorem IsForm.unique {body body' rest' : List Char} (h : IsForm body) (h' : IsForm body')
    (heq : body ++ '"' :: rest = body' ++ '"' :: rest') : body = body' ∧ rest = rest' := by
  have hrest : rest = rest' := by
    have := skipText_eq h rest
    rw [heq, skipText_eq h' rest'] at this
    exact (Except.ok.inj this).symm
  subst hrest
  exact ⟨List.append_cancel_right heq, rfl⟩

theorem acceptsOnly_text : AcceptsOnly readText IsText := by
  intro ws cs rest left t hws hcs _ h
  obtain ⟨c, tail, rfl, hspace, hafter⟩ := hcs.afterHead
  rw [List.cons_append, readText, skipSpace_spaces_cons hws hspace] at h
  dsimp only at h
  split_ifs at h with hquote
  subst hquote
  obtain ⟨body, rfl, hbody⟩ : ∃ body, tail = body ++ ['"'] ∧ IsForm body := hafter
  cases hscan : scanText [] (body ++ ['"'] ++ rest) with
  | error fault =>
    rw [hscan] at h
    cases h
  | ok read =>
    rw [hscan] at h
    cases h
    -- the text that was read and the value both end at a quotation mark, which is the same
    obtain ⟨body', more, hsplit, hspells, hmore⟩ := scanText_sound hscan
    rw [List.append_assoc, List.singleton_append] at hsplit
    obtain ⟨rfl, rfl⟩ := hbody.unique hspells.form hsplit
    refine ⟨⟨body, rfl, ?_⟩, rfl⟩
    rw [String.toList_ofList, hmore]
    exact hspells

/-- The spellings of optional texts are values. -/
theorem IsOptional.form {t : Option String} (h : IsOptional cs t) : Form .value cs := by
  cases h with
  | none => exact .scalar .null
  | some h => exact h.form

theorem IsOptional.unique {cs : List Char} {t t' : Option String} (h : IsOptional cs t)
    (h' : IsOptional cs t') : t = t' := by
  have hread := reads_optional h spaces_nil ends_nil
  rw [reads_optional h' spaces_nil ends_nil] at hread
  cases hread
  rfl

theorem acceptsOnly_optional : AcceptsOnly readOptional IsOptional := by
  intro ws cs rest left t hws hcs hrest h
  obtain ⟨c, tail, hsplit, hspace, hafter⟩ := hcs.afterHead
  have hskip : skipSpace (ws ++ (cs ++ rest)) = c :: (tail ++ rest) := by
    rw [hsplit, List.cons_append, skipSpace_spaces_cons hws hspace]
  unfold readOptional at h
  split at h
  · rename_i tail' hn
    rw [hskip] at hn
    cases hn
    obtain rfl : tail = "ull".toList := hafter
    rw [scanWord_append] at h
    cases h
    exact ⟨hsplit ▸ .none, rfl⟩
  · cases hread : readText (ws ++ (cs ++ rest)) with
    | error fault =>
      rw [hread] at h
      cases h
    | ok read =>
      rw [hread] at h
      cases h
      obtain ⟨htext, hleft⟩ := acceptsOnly_text hws hcs hrest hread
      exact ⟨.some htext, hleft⟩

/-! ## Lists of texts -/

/-- The spellings of the texts of a list behind others are items behind others. -/
theorem IsMoreTexts.form {ts : List String} (h : IsMoreTexts cs ts) : Form (.more .list) cs := by
  induction h with
  | close hws => exact .close .list hws
  | cons hbefore hafter ht _ ih => exact .next hbefore hafter .list spaces_nil ht.form ih

/-- The spellings of lists of texts are values. -/
theorem IsTexts.form {ts : List String} (h : IsTexts cs ts) : Form .value cs := by
  cases h with
  | nil hws => exact .container .list (.empty .list hws)
  | cons hws ht hmore => exact .container .list (.first hws .list spaces_nil ht.form hmore.form)

/-- An item that was read as a text is one. -/
theorem readText_bind {α : Type} {value more : List Char}
    {next : String × List Char → Except Fault α} {a : α} (hvalue : Form .value value)
    (hmore : Form (.more .list) more)
    (h : (readText (value ++ (more ++ rest))).bind next = .ok a) :
    ∃ t, IsText value t ∧ next (t, more ++ rest) = .ok a := by
  cases hread : readText (value ++ (more ++ rest)) with
  | error fault =>
    rw [hread] at h
    cases h
  | ok read =>
    obtain ⟨t, left⟩ := read
    rw [hread] at h
    obtain ⟨ht, rfl⟩ := acceptsOnly_text spaces_nil hvalue (hmore.ends rest) hread
    exact ⟨t, ht, h⟩

/-- **Of the items behind others, only texts are read**, and up to the close of the list. -/
theorem readElements_more_sound (hcs : Form (.more .list) cs) {done ts : List String}
    {left : List Char} (hdone : done ≠ []) (h : readElements done (cs ++ rest) = .ok (ts, left)) :
    ∃ more, ts = done.reverse ++ more ∧ IsMoreTexts cs more ∧ left = rest := by
  generalize hp : Part.more .list = p at hcs
  induction hcs generalizing done with
  | scalar | container | empty | first => cases hp
  | close k hws =>
    cases hp
    rw [List.append_assoc, List.singleton_append, Container.close, readElements_close hws] at h
    cases h
    exact ⟨[], (List.append_nil _).symm, .close hws, rfl⟩
  | @next ws before naming after value more k hws hbefore hnaming hafter hvalue hmore _ ih =>
    cases hp
    cases hnaming
    obtain ⟨c, tail, hhead, hspace, hclose⟩ := hvalue.head
    have hskip : skipSpace (before ++ (after ++ (value ++ (more ++ rest)))) =
        value ++ (more ++ rest) := by
      rw [skipSpace_append hbefore, hhead, List.cons_append, skipSpace_spaces_cons hafter hspace]
    have hcs : ws ++ ',' :: (before ++ ([] ++ (after ++ (value ++ more)))) ++ rest =
        ws ++ ',' :: (before ++ (after ++ (value ++ (more ++ rest)))) := by
      simp only [List.append_assoc, List.cons_append, List.nil_append]
    rw [hcs, readElements_eq, skipSpace_spaces_cons hws (by decide)] at h
    simp only [if_neg (show (',' : Char) ≠ ']' by decide), List.isEmpty_eq_false_iff.2 hdone,
      Bool.false_eq_true, if_false, if_true, hskip] at h
    rw [hhead, List.cons_append] at h
    simp only [if_neg (show c ≠ ']' from hclose .list)] at h
    rw [← List.cons_append, ← hhead] at h
    obtain ⟨t, ht, hnext⟩ := readText_bind hvalue hmore h
    obtain ⟨ts', rfl, hmoreTexts, hleft⟩ := ih (List.cons_ne_nil t done) hnext rfl
    refine ⟨t :: ts', by simp, ?_, hleft⟩
    have hspaces : Spaces (before ++ after) := List.forall_mem_append.2 ⟨hbefore, hafter⟩
    have hlist := IsMoreTexts.cons hws hspaces ht hmoreTexts
    rwa [List.append_assoc] at hlist

theorem acceptsOnly_texts : AcceptsOnly readTexts IsTexts := by
  intro ws cs rest left ts hws hcs _ h
  obtain ⟨c, tail, rfl, hspace, hafter⟩ := hcs.afterHead
  rw [List.cons_append, readTexts, skipSpace_spaces_cons hws hspace] at h
  dsimp only at h
  split_ifs at h with hopen
  subst hopen
  have hitems : Form (.first .list) tail := hafter
  cases hitems with
  | empty _ hws =>
    rw [List.append_assoc, List.singleton_append, Container.close, readElements_close hws] at h
    cases h
    exact ⟨.nil hws, rfl⟩
  | @first before naming after value more _ hbefore hnaming hbehind hvalue hmore =>
    cases hnaming
    obtain ⟨c, tail, hhead, hspace, hclose⟩ := hvalue.head
    have hspaces : Spaces (before ++ after) := List.forall_mem_append.2 ⟨hbefore, hbehind⟩
    have hcs : before ++ ([] ++ (after ++ (value ++ more))) ++ rest =
        (before ++ after) ++ c :: (tail ++ (more ++ rest)) := by
      rw [hhead]
      simp only [List.append_assoc, List.cons_append, List.nil_append]
    rw [hcs, readElements_eq, skipSpace_spaces_cons hspaces hspace] at h
    simp only [if_neg (show c ≠ ']' from hclose .list), List.isEmpty_nil, if_true] at h
    rw [← List.cons_append, ← hhead] at h
    obtain ⟨t, ht, hnext⟩ := readText_bind hvalue hmore h
    obtain ⟨ts', rfl, hmoreTexts, hleft⟩ :=
      readElements_more_sound hmore (List.cons_ne_nil t []) hnext
    have hlist := IsTexts.cons hspaces ht hmoreTexts
    rw [List.append_assoc] at hlist
    exact ⟨hlist, hleft⟩

/-! ## Natural numbers -/

/-- The spellings of the natural numbers below a bound. -/
def IsNatural (bound : Nat) (cs : List Char) (n : Nat) : Prop :=
  n < bound ∧ cs = Nat.toDigits 10 n

/-- A digit is the one that its value is written as. -/
theorem digitChar_digitValue {c : Char} (h : isDigit c = true) :
    digitValue c < 10 ∧ Nat.digitChar (digitValue c) = c := by
  have hwritten : ∀ n < 10, Nat.digitChar n = Char.ofNat (48 + n) := by decide
  obtain ⟨hlow, hhigh⟩ : '0' ≤ c ∧ c ≤ '9' := by simpa [isDigit] using h
  have hfrom : 48 ≤ c.toNat := hlow
  have hto : c.toNat ≤ 57 := hhigh
  have hlt : digitValue c < 10 := by
    rw [digitValue]
    omega
  refine ⟨hlt, ?_⟩
  rw [hwritten _ hlt, digitValue, Nat.add_sub_cancel' hfrom, Char.ofNat_toNat]

/-- Digits behind those of a number are written behind them. -/
theorem toDigits_ofDigitChars {n : Nat} {ds : List Char} (hn : 0 < n)
    (hdigits : ∀ d ∈ ds, isDigit d = true) :
    Nat.toDigits 10 (Nat.ofDigitChars 10 ds n) = Nat.toDigits 10 n ++ ds := by
  induction ds generalizing n with
  | nil => rw [Nat.ofDigitChars_nil, List.append_nil]
  | cons d ds ih =>
    obtain ⟨hd, hdigits⟩ := List.forall_mem_cons.1 hdigits
    obtain ⟨hlt, hwritten⟩ := digitChar_digitValue hd
    have hnext : Nat.toDigits 10 (10 * n + digitValue d) = Nat.toDigits 10 n ++ [d] := by
      rw [← Nat.toDigits_append_toDigits (by omega) hn hlt, Nat.toDigits_of_lt_base hlt, hwritten]
    have hpos : 0 < 10 * n + digitValue d := by omega
    rw [Nat.ofDigitChars_cons]
    exact (ih hpos hdigits).trans (by rw [hnext, List.append_assoc, List.singleton_append])

/-- The digits that were gathered spell the significand. -/
theorem gather_sound {n m count k : Nat} (h : gather n count cs = (m, k, rest)) :
    ∃ ds, cs = ds ++ rest ∧ (∀ d ∈ ds, isDigit d = true) ∧ m = Nat.ofDigitChars 10 ds n := by
  induction cs generalizing n count with
  | nil =>
    cases h
    exact ⟨[], rfl, fun _ hd => (List.not_mem_nil hd).elim, rfl⟩
  | cons c tail ih =>
    rw [gather] at h
    split_ifs at h with hnext
    · obtain ⟨ds, rfl, hdigits, rfl⟩ := ih h
      refine ⟨c :: ds, rfl, List.forall_mem_cons.2 ⟨(Bool.and_eq_true_iff.1 hnext).1, hdigits⟩, ?_⟩
      rw [Nat.ofDigitChars_cons, Nat.mul_comm 10]
      rfl
    · cases h
      exact ⟨[], rfl, fun _ hd => (List.not_mem_nil hd).elim, rfl⟩

/-- An outcome that is a floating-point number if it is a number. -/
def Floating (r : Except Fault (Number × List Char)) : Prop :=
  ∀ v rest, r = .ok (v, rest) → ∃ x, v = .float x

theorem floating_error (fault : Fault) : Floating (.error fault) := fun _ _ h => nomatch h

theorem floating_float (x : Float) (rest : List Char) : Floating (.ok (.float x, rest)) :=
  fun _ _ h => by
    cases h
    exact ⟨x, rfl⟩

theorem floating_assemble (positive : Bool) (significand : Nat) (exponent : Int)
    (cs : List Char) : Floating (assemble positive significand exponent cs) := by
  unfold assemble
  split
  · exact floating_error _
  · exact floating_float _ _

theorem floating_exponentDigits (positive up : Bool) (significand : Nat) (start : Int) (n : Nat)
    (cs : List Char) : Floating (scanExponentDigits positive up significand start n cs) := by
  induction cs generalizing n with
  | nil => exact floating_assemble _ _ _ _
  | cons c tail ih =>
    show Floating (if isDigit c then
        if n * 10 + digitValue c < 2 ^ 31 then
          scanExponentDigits positive up significand start (n * 10 + digitValue c) tail
        else if significand ≠ 0 && up then .error (faultBefore .numberOutOfRange tail)
        else .ok (.float (if positive then 0.0 else -0.0), skipDigits tail)
      else assemble positive significand (if up then start + n else start - n) (c :: tail))
    by_cases hdigit : isDigit c = true
    · rw [if_pos hdigit]
      split_ifs
      · exact ih _
      · exact floating_error _
      · exact floating_float _ _
      · exact floating_float _ _
    · rw [if_neg hdigit]
      exact floating_assemble _ _ _ _

theorem floating_exponent (positive : Bool) (significand : Nat) (start : Int) (cs : List Char) :
    Floating (scanExponent positive significand start cs) := by
  unfold scanExponent
  dsimp only
  split
  · exact floating_error _
  · split_ifs
    · exact floating_exponentDigits _ _ _ _ _ _
    · exact floating_error _

theorem floating_tail (positive : Bool) (significand : Nat) (exponent : Int) (cs : List Char) :
    Floating (scanTail positive significand exponent cs) := by
  unfold scanTail
  split_ifs
  · exact floating_exponent _ _ _ _
  · exact floating_assemble _ _ _ _

theorem floating_fraction (positive : Bool) (significand : Nat) (exponent : Int)
    (cs : List Char) : Floating (scanFraction positive significand exponent cs) := by
  unfold scanFraction
  dsimp only
  split_ifs
  · exact floating_tail _ _ _ _
  · split <;> exact floating_error _
  · exact floating_tail _ _ _ _

theorem floating_long (positive : Bool) (significand : Nat) (cs : List Char) :
    Floating (scanLong positive significand cs) := by
  unfold scanLong
  dsimp only
  split
  · exact floating_fraction _ _ _ _
  · exact floating_tail _ _ _ _

/-- A natural number is one whose sign is up and whose whole part nothing continues, and so it is
passed over to the same place. -/
theorem scanAfterWhole_sound {positive : Bool} {significand n : Nat}
    (h : scanAfterWhole positive significand cs = .ok (.natural n, rest)) :
    positive = true ∧ n = significand ∧ rest = cs ∧ skipAfterWhole cs = .ok cs := by
  unfold scanAfterWhole at h
  split at h
  · obtain ⟨x, hx⟩ := floating_fraction _ _ _ _ _ _ h
    cases hx
  · rename_i hpoint
    split_ifs at h with hexponent hpositive _
    · obtain ⟨x, hx⟩ := floating_exponent _ _ _ _ _ _ h
      cases hx
    · cases h
      refine ⟨hpositive, rfl, rfl, ?_⟩
      unfold skipAfterWhole
      split
      · exact absurd rfl (hpoint _)
      · rw [skipTail, if_neg hexponent]
    · cases h
    · cases h

/-- **Only the digits of a natural number are read as one**, and they are passed over to the same
place. -/
theorem scanNumber_sound {positive : Bool} {n : Nat}
    (h : scanNumber positive cs = .ok (.natural n, rest)) :
    positive = true ∧ cs = Nat.toDigits 10 n ++ rest ∧ skipNumber cs = .ok rest := by
  unfold scanNumber at h
  split at h
  · cases h
  · rename_i c tail
    split_ifs at h with hzero hstop hdigit
    · obtain ⟨hpositive, rfl, rfl, hskip⟩ := scanAfterWhole_sound h
      refine ⟨hpositive, by rw [Nat.toDigits_zero, hzero, List.singleton_append], ?_⟩
      rw [skipNumber, if_pos hzero, if_neg hstop, hskip]
    · cases hgather : gather (digitValue c) 0 tail with
      | mk significand left =>
        obtain ⟨count, left⟩ := left
        obtain ⟨ds, rfl, hdigits, rfl⟩ := gather_sound hgather
        simp only [hgather] at h
        split_ifs at h with hstop
        · obtain ⟨x, hx⟩ := floating_long _ _ _ _ _ h
          cases hx
        · obtain ⟨hpositive, rfl, rfl, hskip⟩ := scanAfterWhole_sound h
          obtain ⟨hlt, hwritten⟩ := digitChar_digitValue hdigit
          have hpos : 0 < digitValue c := Nat.pos_of_ne_zero fun hnone =>
            hzero (by rw [← hwritten, hnone]; rfl)
          refine ⟨hpositive, ?_, ?_⟩
          · rw [toDigits_ofDigitChars hpos hdigits, Nat.toDigits_of_lt_base hlt, hwritten,
              List.singleton_append, List.cons_append]
          · rw [skipNumber, if_neg hzero, if_pos hdigit,
              skipDigits_append hdigits (Bool.eq_false_iff.2 hstop), hskip]

theorem isMagnitude_toDigits (n : Nat) : IsMagnitude (Nat.toDigits 10 n) := by
  have hwhole : IsWhole (Nat.toDigits 10 n) := by
    rcases Nat.eq_zero_or_pos n with rfl | hpos
    · rw [Nat.toDigits_zero]
      exact .zero
    · obtain ⟨d, ds, hds, hd⟩ := toDigits_of_pos n hpos
      rw [hds]
      exact .digits hd fun e he => Nat.isDigit_of_mem_toDigits (by omega) (by omega) (hds ▸ he)
  have h := IsMagnitude.mk hwhole .none .none
  rwa [List.append_nil, List.append_nil] at h

/-- The spellings of natural numbers are values. -/
theorem IsNatural.form {bound n : Nat} (h : IsNatural bound cs n) : Form .value cs := by
  rw [h.2]
  exact .scalar (.positive (isMagnitude_toDigits n))

/-- A number is a natural number below a bound only as such. -/
theorem naturalBelow_sound {bound n : Nat} {expected : String} {v : Number} {left : List Char}
    (h : naturalBelow bound expected v rest = .ok (n, left)) :
    v = .natural n ∧ n < bound ∧ rest = left := by
  cases v with
  | natural k =>
    rw [naturalBelow] at h
    split_ifs at h with hk
    cases h
    exact ⟨rfl, hk, rfl⟩
  | negative k => cases h
  | float x => cases h

theorem acceptsOnly_natural (bound : Nat) (expected : String) :
    AcceptsOnly (readNatural bound expected) (IsNatural bound) := by
  intro ws cs rest left n hws hcs hrest h
  obtain ⟨c, tail, rfl, hspace, hafter⟩ := hcs.afterHead
  rw [List.cons_append, readNatural, skipSpace_spaces_cons hws hspace] at h
  dsimp only at h
  split_ifs at h with hminus hdigit
  · split at h
    · cases h
    · rename_i hscan
      obtain ⟨rfl, -, rfl⟩ := naturalBelow_sound h
      exact absurd (scanNumber_sound hscan).1 Bool.false_ne_true
  · split at h
    · cases h
    · rename_i hscan
      obtain ⟨rfl, hn, rfl⟩ := naturalBelow_sound h
      -- the digits that were read and the value are passed over to the same place
      obtain ⟨-, hsplit, hskip⟩ := scanNumber_sound hscan
      rw [← List.cons_append] at hsplit hskip
      rw [(skipNumber_eq ((afterHead_digit hdigit).1 hafter) hrest).2] at hskip
      obtain rfl := Except.ok.inj hskip
      exact ⟨⟨hn, List.append_cancel_right hsplit⟩, rfl⟩

end Json
end PeerNode
