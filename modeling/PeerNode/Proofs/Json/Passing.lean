import PeerNode.Proofs.Json.Kinds

/-!
# Passing over any value

`Form` is the grammar of JSON: a scalar, or a container with items, each of which has a name if
the container is an object.  A reader that passes over a value keeps no more of it than the
containers that are open, and it goes round once for each scalar, opening, item and close; a
derivation of the grammar says in which order.  So along a derivation it gets from its beginning
to its end, with any containers open outside (`skipFrom_form`), and `skipValue_eq` says of the
whole reader that it finds the end of every value, however it is nested.

* `IsMagnitude`, `IsForm`, `IsScalar`: numbers, what stands in quotes, and all values that are no
  containers.
* `Form`: the grammar of values, of the items of a container, and of those after the first.
* `skipValue_eq`: every value is passed over.
-/

namespace PeerNode
namespace Json

variable {cs rest ws : List Char}

/-! ## Numbers -/

/-- A sequence of digits that is not empty. -/
def IsDigits (ds : List Char) : Prop := ds ≠ [] ∧ ∀ d ∈ ds, isDigit d = true

/-- The whole part of a number: zero, or digits of which the first is another. -/
inductive IsWhole : List Char → Prop
  | zero : IsWhole ['0']
  | digits {d : Char} {ds : List Char} (hfirst : d ≠ '0') (h : ∀ e ∈ d :: ds, isDigit e = true) :
      IsWhole (d :: ds)

/-- The part of a number behind its point, with it, if there is one. -/
inductive IsFraction : List Char → Prop
  | none : IsFraction []
  | some {ds : List Char} (h : IsDigits ds) : IsFraction ('.' :: ds)

/-- The exponent of a number with its mark, if there is one. -/
inductive IsExponent : List Char → Prop
  | none : IsExponent []
  | some {mark : Char} {sign ds : List Char} (hmark : mark = 'e' ∨ mark = 'E')
      (hsign : sign = [] ∨ sign = ['+'] ∨ sign = ['-']) (h : IsDigits ds) :
      IsExponent (mark :: (sign ++ ds))

/-- A number without its sign. -/
inductive IsMagnitude : List Char → Prop
  | mk {whole fraction exponent : List Char} (hwhole : IsWhole whole)
      (hfraction : IsFraction fraction) (hexponent : IsExponent exponent) :
      IsMagnitude (whole ++ (fraction ++ exponent))

theorem skipDigits_append {ds : List Char} (h : ∀ d ∈ ds, isDigit d = true)
    (hrest : startsWithDigit rest = false) : skipDigits (ds ++ rest) = rest := by
  rw [skipDigits, List.dropWhile_append_of_pos h]
  cases rest with
  | nil => rfl
  | cons c rest => exact List.dropWhile_cons_of_neg (by rw [Bool.not_eq_true]; exact hrest)

theorem IsDigits.startsWithDigit {ds : List Char} (h : IsDigits ds) (rest : List Char) :
    startsWithDigit (ds ++ rest) = true := by
  obtain ⟨hne, hdigits⟩ := h
  cases ds with
  | nil => exact absurd rfl hne
  | cons d ds => exact hdigits d List.mem_cons_self

/-- In front of digits a sign is taken away. -/
theorem scanExponentSign_append {sign : List Char} (hsign : sign = [] ∨ sign = ['+'] ∨ sign = ['-'])
    (hcs : startsWithDigit cs = true) : (scanExponentSign (sign ++ cs)).2 = cs := by
  rcases hsign with rfl | rfl | rfl
  · cases cs with
    | nil => rfl
    | cons c cs =>
      have hdigit : isDigit c = true := hcs
      have hplus : c ≠ '+' := by
        rintro rfl
        exact absurd hdigit (by decide)
      have hminus : c ≠ '-' := by
        rintro rfl
        exact absurd hdigit (by decide)
      rw [List.nil_append, scanExponentSign, if_neg hplus, if_neg hminus]
  · rfl
  · rfl

theorem skipTail_exponent (h : IsExponent cs) (hrest : Ends rest) :
    skipTail (cs ++ rest) = .ok rest := by
  cases h with
  | none => rw [List.nil_append, skipTail, hrest.startsWithExponent, if_neg Bool.false_ne_true]
  | @some mark sign ds hmark hsign h =>
    have hsignless := scanExponentSign_append hsign (h.startsWithDigit rest)
    have hmarked : startsWithExponent (mark :: (sign ++ ds) ++ rest) = true := by
      rcases hmark with rfl | rfl <;> rfl
    rw [skipTail, if_pos hmarked, List.cons_append, List.drop_one, List.tail_cons,
      List.append_assoc, skipExponent]
    simp only [hsignless, h.startsWithDigit rest, if_true, skipDigits_append h.2
      hrest.startsWithDigit]

/-- A fraction with an exponent, or what may stand behind a value, does not go on with a digit. -/
theorem startsWithDigit_afterWhole {fraction exponent : List Char} (hf : IsFraction fraction)
    (he : IsExponent exponent) (hrest : Ends rest) :
    startsWithDigit (fraction ++ (exponent ++ rest)) = false := by
  cases hf with
  | none =>
    cases he with
    | none => exact hrest.startsWithDigit
    | some hmark => rcases hmark with rfl | rfl <;> rfl
  | some h => rfl

theorem startsWithDigit_exponent (h : IsExponent cs) (hrest : Ends rest) :
    startsWithDigit (cs ++ rest) = false :=
  startsWithDigit_afterWhole .none h hrest

theorem skipAfterWhole_eq {fraction exponent : List Char} (hf : IsFraction fraction)
    (he : IsExponent exponent) (hrest : Ends rest) :
    skipAfterWhole (fraction ++ (exponent ++ rest)) = .ok rest := by
  cases hf with
  | none =>
    rw [List.nil_append]
    unfold skipAfterWhole
    split
    · rename_i tail hpoint
      cases he with
      | none => exact absurd hpoint (hrest.ne_point tail)
      | some hmark =>
        rw [List.cons_append, List.cons.injEq] at hpoint
        rcases hmark with rfl | rfl <;> exact absurd hpoint.1 (by decide)
    · exact skipTail_exponent he hrest
  | @some ds h =>
    have hdigits := skipDigits_append h.2 (startsWithDigit_exponent he hrest)
    rw [List.cons_append, skipAfterWhole, if_pos (h.startsWithDigit _), hdigits]
    exact skipTail_exponent he hrest

/-- A number without its sign starts with a digit and is passed over. -/
theorem skipNumber_eq (h : IsMagnitude cs) (hrest : Ends rest) :
    startsWithDigit cs = true ∧ skipNumber (cs ++ rest) = .ok rest := by
  obtain ⟨hwhole, hf, he⟩ := h
  have hafter := skipAfterWhole_eq hf he hrest
  have hstop := startsWithDigit_afterWhole hf he hrest
  cases hwhole with
  | zero =>
    refine ⟨rfl, ?_⟩
    rw [List.append_assoc, List.append_assoc, List.cons_append, List.nil_append, skipNumber,
      if_pos rfl, hstop, hafter]
    rfl
  | digits hfirst h =>
    refine ⟨h _ List.mem_cons_self, ?_⟩
    have hdigits := skipDigits_append (fun e he => h e (List.mem_cons_of_mem _ he)) hstop
    rw [List.append_assoc, List.append_assoc, List.cons_append, skipNumber, if_neg hfirst,
      if_pos (h _ List.mem_cons_self), hdigits, hafter]

/-! ## Texts of which only the form counts -/

/-- The form of a character inside of quotation marks; surrogates need not go together. -/
inductive IsFormChar : List Char → Prop
  | plain {c : Char} (hquote : c ≠ '"') (hescape : c ≠ '\\') (hcontrol : isControl c = false) :
      IsFormChar [c]
  | short {e : Char} (h : (shortEscape? e).isSome) : IsFormChar ['\\', e]
  | number {a b c d : Char} (h : (hexNumber? a b c d).isSome) :
      IsFormChar ['\\', 'u', a, b, c, d]

/-- The form of a text inside of quotation marks. -/
inductive IsForm : List Char → Prop
  | nil : IsForm []
  | cons {here more : List Char} (hc : IsFormChar here) (h : IsForm more) : IsForm (here ++ more)

/-- An escape in a text is passed over. -/
theorem skipText_escape {tail : List Char} (h : skipEscape tail = .ok rest) :
    skipText ('\\' :: tail) = skipText rest := by
  rw [skipText, if_neg (by decide), if_pos rfl]
  split
  · rename_i h'
    rw [h] at h'
    cases h'
  · rename_i h'
    rw [h] at h'
    cases h'
    rfl

theorem skipText_char (h : IsFormChar cs) (rest : List Char) :
    skipText (cs ++ rest) = skipText rest := by
  cases h with
  | plain hquote hslash hcontrol =>
    rw [List.cons_append, List.nil_append, skipText, if_neg hquote, if_neg hslash,
      if_neg (by rw [hcontrol]; exact Bool.false_ne_true)]
  | @short e h =>
    have hskip : skipEscape (e :: rest) = .ok rest := by
      rw [skipEscape, if_pos h]
    exact skipText_escape hskip
  | @number a b c d h =>
    obtain ⟨n, hn⟩ := Option.isSome_iff_exists.1 h
    have hskip : skipEscape ('u' :: a :: b :: c :: d :: rest) = .ok rest := by
      rw [skipEscape, if_neg (by decide), if_pos rfl]
      simp only [scanHex_cons hn]
    exact skipText_escape hskip

/-- **A text is passed over** up to its closing quotation mark. -/
theorem skipText_eq (h : IsForm cs) (rest : List Char) :
    skipText (cs ++ '"' :: rest) = .ok rest := by
  induction h with
  | nil => rw [List.nil_append, skipText, if_pos rfl]
  | cons hc _ ih => rw [List.append_assoc, skipText_char hc, ih]

/-! ## The grammar -/

/-- The values that are no containers. -/
inductive IsScalar : List Char → Prop
  | null : IsScalar "null".toList
  | true : IsScalar "true".toList
  | false : IsScalar "false".toList
  | positive {cs : List Char} (h : IsMagnitude cs) : IsScalar cs
  | negative {cs : List Char} (h : IsMagnitude cs) : IsScalar ('-' :: cs)
  | text {cs : List Char} (h : IsForm cs) : IsScalar ('"' :: (cs ++ ['"']))

/-- The character that opens a container. -/
def Container.opening : Container → Char
  | list => '['
  | object => '{'

/-- What an item of a container has in front of its value: nothing, or its name and a colon. -/
inductive IsNaming : Container → List Char → Prop
  | list : IsNaming .list []
  | object {body ws : List Char} (hbody : IsForm body) (hws : Spaces ws) :
      IsNaming .object ('"' :: (body ++ '"' :: (ws ++ [':'])))

/-- The parts of a JSON text. -/
inductive Part where
  /-- A value. -/
  | value
  /-- The items of a container behind its opening, and its close. -/
  | first (k : Container)
  /-- The items of a container behind others, and its close. -/
  | more (k : Container)

/-- **The grammar of JSON.** -/
inductive Form : Part → List Char → Prop
  | scalar {cs : List Char} (h : IsScalar cs) : Form .value cs
  | container {cs : List Char} (k : Container) (h : Form (.first k) cs) :
      Form .value (k.opening :: cs)
  | empty {ws : List Char} (k : Container) (hws : Spaces ws) : Form (.first k) (ws ++ [k.close])
  | first {before naming after value more : List Char} {k : Container} (hbefore : Spaces before)
      (hnaming : IsNaming k naming) (hafter : Spaces after) (hvalue : Form .value value)
      (hmore : Form (.more k) more) :
      Form (.first k) (before ++ (naming ++ (after ++ (value ++ more))))
  | close {ws : List Char} (k : Container) (hws : Spaces ws) : Form (.more k) (ws ++ [k.close])
  | next {ws before naming after value more : List Char} {k : Container} (hws : Spaces ws)
      (hbefore : Spaces before) (hnaming : IsNaming k naming) (hafter : Spaces after)
      (hvalue : Form .value value) (hmore : Form (.more k) more) :
      Form (.more k) (ws ++ ',' :: (before ++ (naming ++ (after ++ (value ++ more)))))

/-! ## Passing over what the grammar derives -/

/-- A scalar begins with a character that says what to pass over. -/
theorem skipScalar_eq (h : IsScalar cs) : ∃ c tail, cs = c :: tail ∧ isSpace c = false ∧
    ∀ {rest : List Char}, Ends rest → skipScalar c (tail ++ rest) = some (.ok rest) := by
  have hword : ∀ {c : Char} {word : List Char} {rest : List Char},
      skipScalar c (word ++ rest) = some (scanWord word (word ++ rest)) →
      skipScalar c (word ++ rest) = some (.ok rest) := fun h => by rw [h, scanWord_append]
  cases h with
  | null => exact ⟨'n', "ull".toList, rfl, rfl, fun _ => hword rfl⟩
  | true => exact ⟨'t', "rue".toList, rfl, rfl, fun _ => hword rfl⟩
  | false => exact ⟨'f', "alse".toList, rfl, rfl, fun _ => hword rfl⟩
  | positive h =>
    obtain ⟨c, tail, rfl⟩ : ∃ c tail, cs = c :: tail := by
      have := (skipNumber_eq h ends_nil).1
      cases cs with
      | nil => cases this
      | cons c tail => exact ⟨c, tail, rfl⟩
    have hdigit : isDigit c = true := (skipNumber_eq h ends_nil).1
    have hne : ∀ d : Char, isDigit d = false → c ≠ d := by
      rintro d hd rfl
      rw [hdigit] at hd
      cases hd
    refine ⟨c, tail, rfl, Bool.eq_false_iff.2 fun hspace =>
      not_ends_of_number (.inl hdigit) (.inl hspace), fun hrest => ?_⟩
    rw [skipScalar, if_neg (hne _ (by decide)), if_neg (hne _ (by decide)),
      if_neg (hne _ (by decide)), if_neg (hne _ (by decide)), if_pos hdigit, ← List.cons_append,
      (skipNumber_eq h hrest).2]
  | negative h =>
    refine ⟨'-', _, rfl, rfl, fun hrest => ?_⟩
    have := (skipNumber_eq h hrest).2
    exact congrArg some this
  | text h =>
    refine ⟨'"', _, rfl, rfl, fun {rest} _ => ?_⟩
    have := skipText_eq h rest
    rw [List.append_assoc, List.singleton_append]
    exact congrArg some this

/-- What is in front of the value of an item is passed over. -/
theorem skipToValue_eq {k : Container} (h : IsNaming k cs) (hws : Spaces ws) (rest : List Char) :
    ∃ front, Spaces front ∧ skipToValue k (ws ++ (cs ++ rest)) = .ok (front ++ rest) := by
  cases h with
  | list => exact ⟨ws, hws, rfl⟩
  | @object body colonWs hbody hcolon =>
    refine ⟨[], spaces_nil, ?_⟩
    have htext := skipText_eq hbody (colonWs ++ ':' :: rest)
    have hcs : ws ++ ('"' :: (body ++ '"' :: (colonWs ++ [':'])) ++ rest) =
        ws ++ '"' :: (body ++ '"' :: (colonWs ++ ':' :: rest)) := by
      simp
    rw [hcs, skipToValue, skipName, skipSpace_spaces_cons hws (by decide)]
    simp only [ne_eq, not_true_eq_false, if_false, htext,
      skipSpace_spaces_cons hcolon (c := ':') (by decide), if_true, List.nil_append]

/-- A value begins with a significant character that closes no container. -/
theorem Form.head (h : Form .value cs) :
    ∃ c tail, cs = c :: tail ∧ isSpace c = false ∧ ∀ k : Container, c ≠ k.close := by
  cases h with
  | scalar h =>
    obtain ⟨c, tail, hcs, hspace, hskip⟩ := skipScalar_eq h
    refine ⟨c, tail, hcs, hspace, fun k hk => ?_⟩
    have hpassed := hskip ends_nil
    rw [hk] at hpassed
    cases k <;> cases hpassed
  | container k h =>
    refine ⟨k.opening, _, rfl, ?_, fun k' => ?_⟩
    · cases k <;> rfl
    · cases k <;> cases k' <;> decide

/-- In front of an item stands something significant that does not close the container, and what
is in front of its value is passed over. -/
theorem skipToValue_first {k : Container} {naming after value : List Char} (hws : Spaces ws)
    (hnaming : IsNaming k naming) (hafter : Spaces after) (hvalue : Form .value value)
    (rest : List Char) :
    ∃ c tail front, skipSpace (ws ++ (naming ++ (after ++ (value ++ rest)))) = c :: tail ∧
      c ≠ k.close ∧ Spaces front ∧ skipToValue k (c :: tail) = .ok (front ++ (value ++ rest)) := by
  cases hnaming with
  | list =>
    obtain ⟨c, tail, rfl, hspace, hclose⟩ := hvalue.head
    refine ⟨c, tail ++ rest, [], ?_, hclose _, spaces_nil, rfl⟩
    rw [skipSpace_append hws, List.nil_append, List.cons_append,
      skipSpace_spaces_cons hafter hspace]
  | @object body colonWs hbody hcolon =>
    obtain ⟨front, hfront, hskip⟩ := skipToValue_eq (.object hbody hcolon) spaces_nil
      (after ++ (value ++ rest))
    refine ⟨'"', _, front ++ after, skipSpace_spaces_cons hws (by decide) _, by decide, ?_, ?_⟩
    · exact List.forall_mem_append.2 ⟨hfront, hafter⟩
    · rw [List.append_assoc]
      exact hskip

/-- What comes behind a value that has been passed over. -/
def goOn (fuel : Nat) (opened : List Container) (rest : List Char) : Except Fault (List Char) :=
  match opened with
  | [] => .ok rest
  | inner :: outer => skipFrom fuel (.inside true inner outer) rest

/-- Passing over gets from the beginning of a part to its end in at most two rounds for each of
its characters, whatever containers are open around it. -/
def Passes : Part → List Char → Prop
  | .value, cs => ∃ n, n + 1 ≤ 2 * cs.length ∧
      ∀ (fuel : Nat) (opened : List Container) {ws rest : List Char}, Spaces ws → Ends rest →
        skipFrom (fuel + n) (.value opened) (ws ++ (cs ++ rest)) = goOn fuel opened rest
  | .first k, cs => ∃ n, n ≤ 2 * cs.length ∧
      ∀ (fuel : Nat) (outer : List Container) {rest : List Char}, Ends rest →
        skipFrom (fuel + n) (.inside false k outer) (cs ++ rest) = goOn fuel outer rest
  | .more k, cs => ∃ n, n ≤ 2 * cs.length ∧
      ∀ (fuel : Nat) (outer : List Container) {rest : List Char}, Ends rest →
        skipFrom (fuel + n) (.inside true k outer) (cs ++ rest) = goOn fuel outer rest

theorem skipFrom_close (comma : Bool) (k : Container) (hws : Spaces ws) (fuel : Nat)
    (outer : List Container) (rest : List Char) :
    skipFrom (fuel + 1) (.inside comma k outer) (ws ++ [k.close] ++ rest) =
      goOn fuel outer rest := by
  rw [List.append_assoc, List.singleton_append, skipFrom,
    skipSpace_spaces_cons hws (by cases k <;> rfl)]
  simp only [if_true]
  cases outer <;> rfl

/-- What follows a value inside a container may stand behind a value. -/
theorem Form.ends {k : Container} (h : Form (.more k) cs) (rest : List Char) :
    Ends (cs ++ rest) := by
  cases h with
  | close k hws =>
    rw [List.append_assoc]
    refine Ends.spaces_append hws (ends_cons ?_)
    cases k
    · exact .inr (.inr (.inl rfl))
    · exact .inr (.inr (.inr rfl))
  | next hws =>
    rw [List.append_assoc]
    exact Ends.spaces_append hws (ends_cons (.inr (.inl rfl)))

/-- **What the grammar derives is passed over.** -/
theorem skipFrom_form {p : Part} (h : Form p cs) : Passes p cs := by
  induction h with
  | scalar h =>
    obtain ⟨c, tail, rfl, hspace, hskip⟩ := skipScalar_eq h
    refine ⟨1, by rw [List.length_cons]; omega, fun fuel opened ws rest hws hrest => ?_⟩
    rw [List.cons_append, skipFrom, skipSpace_spaces_cons hws hspace]
    simp only [hskip hrest]
    cases opened <;> rfl
  | @container cs k _ ih =>
    obtain ⟨n, hn, hpass⟩ := ih
    refine ⟨n + 1, by rw [List.length_cons]; omega, fun fuel opened ws rest hws hrest => ?_⟩
    have hnone : ∀ rest, skipScalar k.opening rest = none := fun rest => by cases k <;> rfl
    have hkind : (if k.opening = '[' then Container.list else .object) = k := by cases k <;> rfl
    rw [← Nat.add_assoc, List.cons_append, skipFrom,
      skipSpace_spaces_cons hws (by cases k <;> rfl)]
    simp only [hnone, hkind]
    exact hpass fuel opened hrest
  | @empty ws k hws =>
    refine ⟨1, by rw [List.length_append, List.length_singleton]; omega,
      fun fuel outer rest _ => ?_⟩
    exact skipFrom_close false k hws fuel outer rest
  | @first before naming after value more k hbefore hnaming hafter hvalue hmore ihv ihm =>
    obtain ⟨n, hn, hpass⟩ := ihv
    obtain ⟨m, hm, hpass'⟩ := ihm
    refine ⟨m + n + 1, by simp only [List.length_append]; omega, fun fuel outer rest hrest => ?_⟩
    obtain ⟨c, tail, front, hskip, hclose, hfront, hto⟩ :=
      skipToValue_first hbefore hnaming hafter hvalue (more ++ rest)
    have hcs : before ++ (naming ++ (after ++ (value ++ more))) ++ rest =
        before ++ (naming ++ (after ++ (value ++ (more ++ rest)))) := by
      simp only [List.append_assoc]
    rw [hcs, ← Nat.add_assoc, ← Nat.add_assoc, skipFrom, hskip]
    simp only [if_neg hclose, Bool.false_and, Bool.false_eq_true, if_false, hto]
    rw [hpass (fuel + m) (k :: outer) hfront (hmore.ends rest)]
    exact hpass' fuel outer hrest
  | @close ws k hws =>
    refine ⟨1, by rw [List.length_append, List.length_singleton]; omega,
      fun fuel outer rest _ => ?_⟩
    exact skipFrom_close true k hws fuel outer rest
  | @next ws before naming after value more k hws hbefore hnaming hafter hvalue hmore ihv ihm =>
    obtain ⟨n, hn, hpass⟩ := ihv
    obtain ⟨m, hm, hpass'⟩ := ihm
    refine ⟨m + n + 1, by simp only [List.length_append, List.length_cons]; omega,
      fun fuel outer rest hrest => ?_⟩
    obtain ⟨front, hfront, hto⟩ :=
      skipToValue_eq hnaming hbefore (after ++ (value ++ (more ++ rest)))
    have hcs : ws ++ ',' :: (before ++ (naming ++ (after ++ (value ++ more)))) ++ rest =
        ws ++ ',' :: (before ++ (naming ++ (after ++ (value ++ (more ++ rest))))) := by
      simp only [List.append_assoc, List.cons_append]
    have hclose : (',' : Char) ≠ k.close := by cases k <;> decide
    rw [hcs, ← Nat.add_assoc, ← Nat.add_assoc, skipFrom, skipSpace_spaces_cons hws (by decide)]
    simp only [if_neg hclose, Bool.true_and, ne_eq, not_true_eq_false, decide_false,
      Bool.false_eq_true, if_false, if_true, hto]
    have hspaces : Spaces (front ++ after) := List.forall_mem_append.2 ⟨hfront, hafter⟩
    have hvaluePassed := hpass (fuel + m) (k :: outer) hspaces (hmore.ends rest)
    rw [List.append_assoc] at hvaluePassed
    rw [hvaluePassed]
    exact hpass' fuel outer hrest

/-- **Every value is passed over**, however it is nested. -/
theorem skipValue_eq (h : Form .value cs) (hws : Spaces ws) (hrest : Ends rest) :
    skipValue (ws ++ (cs ++ rest)) = .ok rest := by
  obtain ⟨n, hn, hpass⟩ := skipFrom_form h
  have hlength : n ≤ 2 * (ws ++ (cs ++ rest)).length + 2 := by
    simp only [List.length_append]
    omega
  rw [skipValue, ← Nat.sub_add_cancel hlength]
  exact hpass _ [] hws hrest

end Json
end PeerNode
