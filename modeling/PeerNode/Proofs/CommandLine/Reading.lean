import Mathlib.Data.List.TakeWhile
import PeerNode.CommandLine.Reader
import PeerNode.Proofs.CommandLine.Occurrences

/-!
# What a command line spells

An option is written as its name between two hyphens and its value, which is attached with an
equals sign or stands on its own; then it may not look like an option itself.  A line that is
written so is read as the options that it spells, one after the other (`read_eq_ofOccurrences`).

The reader is one option behind where a value stands on its own: the option takes effect only when
the next argument is looked at.  So the induction is over the line, for every option that is
pending, and says what the pending option and the rest of the line come to together.

* `Spells`: the lines that spell some options.
* `read_eq_ofOccurrences`: what is read of such a line.
* `read_eq_ok_iff`: the arguments that are read of it.
-/

namespace PeerNode
namespace Arguments

variable {os : List Occurrence} {o : ValueOption} {f : Flag} {text : String} {line : List String}
  {a : Arguments}

def optionText (name : String) : String := String.ofList ('-' :: '-' :: name.toList)

def attachedText (name text : String) : String :=
  String.ofList ('-' :: '-' :: (name.toList ++ '=' :: text.toList))

/-- A line spells options. -/
inductive Spells : List Occurrence → List String → Prop
  | nil : Spells [] []
  /-- Two hyphens say that there are no more options. -/
  | closed : Spells [] ["--"]
  | attached (o : ValueOption) (text : String) {os : List Occurrence} {line : List String}
      (h : Spells os line) : Spells (.value o text :: os) (attachedText o.name text :: line)
  | apart (o : ValueOption) (text : String) {os : List Occurrence} {line : List String}
      (htext : text = "-" ∨ text.toList.head? ≠ some '-') (h : Spells os line) :
      Spells (.value o text :: os) (optionText o.name :: text :: line)
  | flag (f : Flag) {os : List Occurrence} {line : List String} (h : Spells os line) :
      Spells (.flag f :: os) (optionText f.name :: line)

/-! ## Single arguments -/

theorem tokenOf_hyphens {cs : List Char} (h : cs ≠ []) :
    tokenOf (String.ofList ('-' :: '-' :: cs)) =
      .long (splitOption cs).1 (splitOption cs).2 := by
  obtain ⟨c, cs, rfl⟩ := List.exists_cons_of_ne_nil h
  rw [tokenOf, String.toList_ofList]
  rfl

theorem ne_equals {cs : List Char} (h : '=' ∉ cs) : ∀ c ∈ cs, (c != '=') = true := by
  rintro c hc
  rw [bne_iff_ne]
  rintro rfl
  exact h hc

theorem splitOption_name {cs : List Char} (h : '=' ∉ cs) :
    splitOption cs = (String.ofList cs, none) := by
  have hwhole : cs.takeWhile (· != '=') = cs := List.takeWhile_eq_self_iff.2 (ne_equals h)
  rw [splitOption, hwhole, List.drop_length]

theorem splitOption_attached {cs value : List Char} (h : '=' ∉ cs) :
    splitOption (cs ++ '=' :: value) = (String.ofList cs, some (String.ofList value)) := by
  have hname : (cs ++ '=' :: value).takeWhile (· != '=') = cs := by
    rw [List.takeWhile_append_of_pos (ne_equals h)]
    simp
  rw [splitOption, hname, List.drop_left]

theorem option_name_plain (o : ValueOption) : o.name.toList ≠ [] ∧ '=' ∉ o.name.toList := by
  cases o <;> decide

theorem flag_name_plain (f : Flag) : f.name.toList ≠ [] ∧ '=' ∉ f.name.toList := by
  cases f <;> decide

theorem find_valueOption (o : ValueOption) :
    (ValueOption.all.find? fun o' => o'.name == o.name) = some o := by
  cases o <;> decide

theorem find_valueOption_flag (f : Flag) :
    (ValueOption.all.find? fun o => o.name == f.name) = none := by
  cases f <;> decide

theorem find_flag (f : Flag) : (Flag.all.find? fun f' => f'.name == f.name) = some f := by
  cases f <;> decide

theorem tokenOf_value (h : text = "-" ∨ text.toList.head? ≠ some '-') :
    tokenOf text = .plain text := by
  rcases h with rfl | h
  · rfl
  · rw [tokenOf]
    split <;> simp_all

/-! ## Lines -/

/-- The option that has been read but has not taken effect. -/
def Pending.options : Pending → List Occurrence
  | .none | .awaiting _ => []
  | .supplied o text => [.value o text]

/-- An option without a value cannot take effect. -/
def Pending.IsReady : Pending → Prop
  | .none | .supplied _ _ => True
  | .awaiting _ => False

variable {pending : Pending}

/-- An option that is pending takes effect before those that come after it. -/
theorem resolve_options (h : pending.IsReady) (os : List Occurrence) (a : Arguments) :
    ofOccurrences (pending.options ++ os) a =
      match a.resolve pending with
      | .error fault => .error fault
      | .ok a => ofOccurrences os a := by
  cases pending with
  | none => rfl
  | supplied o text =>
    rw [Pending.options, List.singleton_append, ofOccurrences, resolve]
    cases (Occurrence.value o text).apply a <;> rfl
  | awaiting o => exact h.elim

/-- **A line that spells options is read as they are**, after those that are pending. -/
theorem readFrom_eq_ofOccurrences (hline : Spells os line) (h : pending.IsReady) (a : Arguments) :
    readFrom a pending line = ofOccurrences (pending.options ++ os) a := by
  induction hline generalizing pending a with
  | nil =>
    rw [resolve_options h, readFrom]
    cases a.resolve pending <;> rfl
  | closed =>
    rw [resolve_options h]
    change a.resolve pending = _
    cases a.resolve pending <;> rfl
  | attached o text hline ih =>
    have htoken : tokenOf (attachedText o.name text) = .long o.name (some text) := by
      rw [attachedText, tokenOf_hyphens (by simp), splitOption_attached (option_name_plain o).2,
        String.ofList_toList, String.ofList_toList]
    rw [resolve_options h, readFrom, htoken]
    simp only [find_valueOption]
    cases a.resolve pending with
    | error fault => rfl
    | ok a =>
      simp only [ofOccurrences]
      cases (Occurrence.value o text).apply a with
      | error fault => rfl
      | ok a => exact @ih .none trivial a
  | apart o text htext hline ih =>
    have htoken : tokenOf (optionText o.name) = .long o.name none := by
      rw [optionText, tokenOf_hyphens (option_name_plain o).1,
        splitOption_name (option_name_plain o).2, String.ofList_toList]
    rw [resolve_options h, readFrom, htoken]
    simp only [find_valueOption]
    cases a.resolve pending with
    | error fault => rfl
    | ok a =>
      -- the value makes the option pending
      change a.readFrom (.awaiting o) (text :: _) = _
      rw [readFrom, tokenOf_value htext]
      exact @ih (.supplied o text) trivial a
  | flag f hline ih =>
    have htoken : tokenOf (optionText f.name) = .long f.name none := by
      rw [optionText, tokenOf_hyphens (flag_name_plain f).1, splitOption_name (flag_name_plain f).2,
        String.ofList_toList]
    rw [resolve_options h, readFrom, htoken]
    simp only [find_valueOption_flag, find_flag]
    cases a.resolve pending with
    | error fault => rfl
    | ok a =>
      simp only [ofOccurrences]
      cases (Occurrence.flag f).apply a with
      | error fault => rfl
      | ok a => exact @ih .none trivial a

/-- A line that spells options is read as they are. -/
theorem read_eq_ofOccurrences (h : Spells os line) : read line = ofOccurrences os {} :=
  readFrom_eq_ofOccurrences h (show Pending.none.IsReady from trivial) {}

/-- **What is read of a line that spells options**: the values that are given, if they can be given
together. -/
theorem read_eq_ok_iff (h : Spells os line) : read line = .ok a ↔ WellFormed os ∧ a = ofGiven os :=
  read_eq_ofOccurrences h ▸ ofOccurrences_eq_ok_iff

end Arguments
end PeerNode
