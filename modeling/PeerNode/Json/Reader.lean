import PeerNode.Json.Skip

/-!
# Reading JSON values of a wanted kind

A reader takes one value of the wanted kind from the front of a text and returns what follows.  A
value of another kind is read far enough to say what it is: words, numbers and texts to their
end, lists and objects not at all.

* `readBool`, `readNatural`, `readText`, `readOptional`, `readTexts`: the readers.
* `describe`: what a value is, in the words of a complaint.
* `kindFault`: the complaint that it is not what is wanted.
-/

namespace PeerNode
namespace Json

/-- What the value in front is, and what follows as far as it was read. -/
def describe (cs : List Char) : Except Fault (String × List Char) :=
  match cs with
  | [] => .error ⟨.expectedValue, 0⟩
  | c :: rest =>
    if c = 'n' then (scanWord "ull".toList rest).map (("null", ·))
    else if c = 't' then (scanWord "rue".toList rest).map (("boolean \x60true\x60", ·))
    else if c = 'f' then (scanWord "alse".toList rest).map (("boolean \x60false\x60", ·))
    else if c = '-' then (scanNumber false rest).map describeNumber
    else if isDigit c then (scanNumber true cs).map describeNumber
    else if c = '"' then
      (scanText [] rest).map fun (t, rest) => ("string " ++ Text.quote (String.ofList t), rest)
    else if c = '[' then .ok ("sequence", cs)
    else if c = '{' then .ok ("map", cs)
    else .error (faultAt .expectedValue cs)
where
  /-- What a number is. -/
  describeNumber : Number × List Char → String × List Char
    | (.float x, rest) => ("floating point \x60" ++ (Number.float x).render ++ "\x60", rest)
    | (n, rest) => ("integer \x60" ++ n.render ++ "\x60", rest)

/-- The fault of a value that is not of the kind `expected`. -/
def kindFault (expected : String) (cs : List Char) : Fault :=
  match describe cs with
  | .error fault => fault
  | .ok (what, rest) =>
    faultBefore (.unwanted ("invalid type: " ++ what ++ ", expected " ++ expected)) rest

/-- A value that is `true` or `false`. -/
def readBool (cs : List Char) : Except Fault (Bool × List Char) :=
  match skipSpace cs with
  | [] => .error ⟨.eofInValue, 0⟩
  | c :: rest =>
    if c = 't' then (scanWord "rue".toList rest).map ((true, ·))
    else if c = 'f' then (scanWord "alse".toList rest).map ((false, ·))
    else .error (kindFault "a boolean" (c :: rest))

/-- The natural number below `bound` that a number is; `expected` names the wanted kind. -/
def naturalBelow (bound : Nat) (expected : String) (n : Number) (rest : List Char) :
    Except Fault (Nat × List Char) :=
  match n with
  | .natural k =>
    if k < bound then .ok (k, rest) else .error (faultBefore (.unwanted (outside n)) rest)
  | .negative _ => .error (faultBefore (.unwanted (outside n)) rest)
  | .float _ =>
    .error (faultBefore
      (.unwanted ("invalid type: floating point \x60" ++ n.render ++ "\x60, expected " ++
        expected)) rest)
where
  /-- The complaint about a whole number that is out of bounds. -/
  outside (n : Number) : String :=
    "invalid value: integer \x60" ++ n.render ++ "\x60, expected " ++ expected

/-- A natural number below `bound`; `expected` names the wanted kind. -/
def readNatural (bound : Nat) (expected : String) (cs : List Char) :
    Except Fault (Nat × List Char) :=
  match skipSpace cs with
  | [] => .error ⟨.eofInValue, 0⟩
  | c :: rest =>
    if c = '-' then
      match scanNumber false rest with
      | .error fault => .error fault
      | .ok (n, rest) => naturalBelow bound expected n rest
    else if isDigit c then
      match scanNumber true (c :: rest) with
      | .error fault => .error fault
      | .ok (n, rest) => naturalBelow bound expected n rest
    else .error (kindFault expected (c :: rest))

/-- A text. -/
def readText (cs : List Char) : Except Fault (String × List Char) :=
  match skipSpace cs with
  | [] => .error ⟨.eofInValue, 0⟩
  | c :: rest =>
    if c = '"' then (scanText [] rest).map fun (t, rest) => (String.ofList t, rest)
    else .error (kindFault "a string" (c :: rest))

/-- A text or `null`. -/
def readOptional (cs : List Char) : Except Fault (Option String × List Char) :=
  match skipSpace cs with
  | 'n' :: rest => (scanWord "ull".toList rest).map ((none, ·))
  | _ => (readText cs).map fun (t, rest) => (some t, rest)

/-- Insignificant characters do not add to a text. -/
theorem length_skipSpace (cs : List Char) : (skipSpace cs).length ≤ cs.length := by
  exact (List.dropWhile_sublist _).length_le

/-- Reading a text takes characters away. -/
theorem length_of_readText {cs rest : List Char} {t : String} (h : readText cs = .ok (t, rest)) :
    rest.length < cs.length := by
  have hs := length_skipSpace cs
  unfold readText at h
  split at h
  · cases h
  · rename_i c tail heq
    rw [heq, List.length_cons] at hs
    split at h
    · cases hd : scanText [] tail with
      | error fault => simp [hd, Except.map] at h
      | ok p =>
        obtain ⟨t', rest'⟩ := p
        simp only [hd, Except.map, Except.ok.injEq, Prod.mk.injEq] at h
        have := length_of_scanText hd
        rw [← h.2]
        omega
    · cases h

/-- The texts of a list after those of `done` (last first), and what follows the list. -/
def readElements (done : List String) (cs : List Char) :
    Except Fault (List String × List Char) :=
  match _hc : skipSpace cs with
  | [] => .error ⟨.eofInList, 0⟩
  | c :: rest =>
    if c = ']' then .ok (done.reverse, rest)
    else if done.isEmpty then
      match _ht : readText (c :: rest) with
      | .error fault => .error fault
      | .ok (t, rest) => readElements (t :: done) rest
    else if c = ',' then
      match _hd : skipSpace rest with
      | [] => .error ⟨.eofInValue, 0⟩
      | d :: rest' =>
        if d = ']' then .error (faultAt .trailingComma (d :: rest'))
        else match _ht : readText (d :: rest') with
          | .error fault => .error fault
          | .ok (t, rest'') => readElements (t :: done) rest''
    else .error (faultAt .expectedCommaOrBracket (c :: rest))
termination_by cs.length
decreasing_by
  · have ht := length_of_readText _ht
    have hc := length_skipSpace cs
    rw [_hc] at hc
    omega
  · have ht := length_of_readText _ht
    have hc := length_skipSpace cs
    have hd := length_skipSpace rest
    rw [_hc, List.length_cons] at hc
    rw [_hd] at hd
    omega

/-- A list of texts. -/
def readTexts (cs : List Char) : Except Fault (List String × List Char) :=
  match skipSpace cs with
  | [] => .error ⟨.eofInValue, 0⟩
  | c :: rest =>
    if c = '[' then readElements [] rest else .error (kindFault "a sequence" (c :: rest))

end Json
end PeerNode
