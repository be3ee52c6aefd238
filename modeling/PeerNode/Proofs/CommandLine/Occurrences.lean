import Mathlib.Data.List.Induction
import PeerNode.CommandLine.Arguments

/-!
# Which options may be given together

Options are given one after another, and each adds to the arguments that there are.  What comes out
depends on two things only: the values that are given for each option, in order, and the flags that
are raised (`Arguments.ofGiven`).  Options can be given together if each value is one that its
option takes and no option is repeated that may be given only once (`WellFormed`); this is exactly
when the arguments come out at all.

So the order of the options does not matter beyond that of the values of one and the same option,
and this order only matters for options that may be repeated.

* `Occurrence.values`: the values that are given for an option.
* `WellFormed`: options that can be given together.
* `ofOccurrences_eq_ok_iff`: the arguments that come out of options.
* `Reordered.ofGiven_eq`, `Reordered.wellFormed`: options in another order.
-/

namespace PeerNode

/-- Whether an option may be given more than once. -/
def ValueOption.isRepeatable : ValueOption → Bool
  | topic | bootstrap => true
  | config | protocol | port | bundle | key => false

/-- Whether a text can be the value of an option. -/
def ValueOption.Accepts : ValueOption → String → Prop
  | config, text => text ≠ ""
  | port, text => ∃ n, readPortOption? text = some n
  | topic, _ | protocol, _ | bootstrap, _ | bundle, _ | key, _ => True

namespace Occurrence

variable {os os' : List Occurrence} {o : ValueOption} {f : Flag} {text : String} {a : Arguments}

/-! ## The values that are given -/

/-- The value that is given for an option. -/
def valueFor? (o : ValueOption) : Occurrence → Option String
  | value o' text => if o' = o then some text else none
  | flag _ => none

def values (os : List Occurrence) (o : ValueOption) : List String := os.filterMap (valueFor? o)

@[simp]
theorem values_nil (o : ValueOption) : values [] o = [] := rfl

@[simp]
theorem values_append (os os' : List Occurrence) (o : ValueOption) :
    values (os ++ os') o = values os o ++ values os' o := List.filterMap_append

@[simp]
theorem values_value (o o' : ValueOption) (text : String) :
    values [value o text] o' = if o = o' then [text] else [] := by
  by_cases h : o = o' <;> simp [values, valueFor?, h]

@[simp]
theorem values_flag (f : Flag) (o : ValueOption) : values [flag f] o = [] := rfl

theorem mem_values : text ∈ values os o ↔ value o text ∈ os := by
  rw [values, List.mem_filterMap]
  constructor
  · rintro ⟨occurrence, hmem, hvalue⟩
    cases occurrence with
    | flag f => cases hvalue
    | value o' text' =>
      rw [valueFor?] at hvalue
      split at hvalue
      · rename_i hsame
        rwa [← hsame, ← Option.some.inj hvalue]
      · cases hvalue
  · exact fun hmem => ⟨_, hmem, if_pos rfl⟩

end Occurrence

open Occurrence

/-- Options that can be given together. -/
structure WellFormed (os : List Occurrence) : Prop where
  accepted : ∀ o text, .value o text ∈ os → o.Accepts text
  once : ∀ o, o.isRepeatable = false → (values os o).length ≤ 1
  raised : ∀ f, os.count (.flag f) ≤ 1

/-- Whether an option can be given after others. -/
def MayFollow (os : List Occurrence) : Occurrence → Prop
  | .value o text => o.Accepts text ∧ (o.isRepeatable = false → values os o = [])
  | .flag f => .flag f ∉ os

namespace Arguments

variable {os os' : List Occurrence} {o : Occurrence} {a : Arguments}

/-- The arguments that have the given values. -/
def ofGiven (os : List Occurrence) : Arguments where
  config := (values os .config).head?
  topics := values os .topic
  protocol := (values os .protocol).head?
  port := (values os .port).head?.bind readPortOption?
  bootstrap := values os .bootstrap
  bundle := (values os .bundle).head?
  key := (values os .key).head?
  localOnly := os.contains (.flag .localOnly)
  noMdns := os.contains (.flag .noMdns)
  generateKey := os.contains (.flag .generateKey)

/-! ## One option more -/

theorem wellFormed_concat : WellFormed (os ++ [o]) ↔ WellFormed os ∧ MayFollow os o := by
  constructor
  · intro h
    refine ⟨⟨fun o text hmem => h.accepted o text (List.mem_append_left _ hmem), fun o ho => ?_,
      fun f => ?_⟩, ?_⟩
    · have := h.once o ho
      rw [values_append, List.length_append] at this
      omega
    · have := h.raised f
      rw [List.count_append] at this
      omega
    · cases o with
      | value o text =>
        refine ⟨h.accepted o text (by simp), fun ho => ?_⟩
        have := h.once o ho
        rw [values_append, values_value, if_pos rfl, List.length_append, List.length_singleton]
          at this
        exact List.length_eq_zero_iff.1 (by omega)
      | flag f =>
        have := h.raised f
        rw [List.count_append, List.count_singleton_self] at this
        exact List.count_eq_zero.1 (by omega)
  · rintro ⟨h, hlast⟩
    refine ⟨fun o' text hmem => ?_, fun o' ho => ?_, fun f => ?_⟩
    · rcases List.mem_append.1 hmem with hmem | hmem
      · exact h.accepted o' text hmem
      · obtain rfl := List.mem_singleton.1 hmem
        exact hlast.1
    · rw [values_append, List.length_append]
      cases o with
      | flag f => simpa using h.once o' ho
      | value o text =>
        by_cases hsame : o = o'
        · subst hsame
          simp [hlast.2 ho]
        · simpa [hsame] using h.once o' ho
    · rw [List.count_append]
      cases o with
      | value o text => simpa using h.raised f
      | flag f' =>
        by_cases hsame : f' = f
        · subst hsame
          have hnone : os.count (.flag f') = 0 := List.count_eq_zero.2 hlast
          simp [hnone]
        · simpa [List.count_singleton, hsame] using h.raised f

/-- An option that may be given once takes effect if it has not been given before and its value is
good. -/
theorem map_once_eq_ok_iff {α : Type} {old : Option α} {new : Except UsageFault α}
    {set : Option α → Arguments} :
    (once old new).map set = .ok a ↔ old = none ∧ ∃ v, new = .ok v ∧ a = set (some v) := by
  cases old <;> cases new <;> simp [once, Except.map, eq_comm]

theorem map_raise_eq_ok_iff {old : Bool} {set : Bool → Arguments} :
    (raise old).map set = .ok a ↔ old = false ∧ a = set true := by
  cases old <;> simp [raise, Except.map, eq_comm]

theorem readPath_eq_ok_iff {text path : String} :
    readPath text = .ok path ↔ text ≠ "" ∧ text = path := by
  by_cases h : text = ""
  · simp [readPath, h]
  · simp [readPath, h]

theorem readPort_eq_ok_iff {text : String} {n : UInt16} :
    readPort text = .ok n ↔ readPortOption? text = some n := by
  unfold readPort
  cases readPortOption? text <;> simp

/-- **An option after others that can be given together** takes effect exactly if it can follow
them, and adds its value to those that have been given. -/
theorem apply_ofGiven (h : WellFormed os) :
    o.apply (ofGiven os) = .ok a ↔ MayFollow os o ∧ a = ofGiven (os ++ [o]) := by
  cases o with
  | flag f =>
    cases f <;> simp [apply, map_raise_eq_ok_iff, MayFollow, ofGiven]
  | value o text =>
    cases o with
    | topic | bootstrap =>
      rw [apply, Except.ok.injEq]
      simp [MayFollow, ValueOption.Accepts, ValueOption.isRepeatable, ofGiven, eq_comm (a := a)]
    | config =>
      rw [apply, map_once_eq_ok_iff]
      simp only [readPath_eq_ok_iff]
      cases hgiven : values os .config <;>
        simp [MayFollow, ValueOption.Accepts, ValueOption.isRepeatable, ofGiven, hgiven]
    | protocol =>
      rw [apply, map_once_eq_ok_iff]
      cases hgiven : values os .protocol <;>
        simp [MayFollow, ValueOption.Accepts, ValueOption.isRepeatable, ofGiven, hgiven]
    | bundle =>
      rw [apply, map_once_eq_ok_iff]
      cases hgiven : values os .bundle <;>
        simp [MayFollow, ValueOption.Accepts, ValueOption.isRepeatable, ofGiven, hgiven]
    | key =>
      rw [apply, map_once_eq_ok_iff]
      cases hgiven : values os .key <;>
        simp [MayFollow, ValueOption.Accepts, ValueOption.isRepeatable, ofGiven, hgiven]
    | port =>
      rw [apply, map_once_eq_ok_iff]
      simp only [readPort_eq_ok_iff]
      cases hgiven : values os .port with
      | nil =>
        cases hread : readPortOption? text <;>
          simp [MayFollow, ValueOption.Accepts, ValueOption.isRepeatable, ofGiven, hgiven, hread]
      | cons first rest =>
        -- an earlier port is a port, so the option has been given already
        obtain ⟨n, hn⟩ := h.accepted .port first (mem_values.1 (hgiven ▸ List.mem_cons_self))
        simp [MayFollow, ValueOption.isRepeatable, ofGiven, hgiven, hn]

/-! ## All options -/

theorem ofOccurrences_concat (os : List Occurrence) (o : Occurrence) (a b : Arguments) :
    ofOccurrences (os ++ [o]) a = .ok b ↔
      ∃ c, ofOccurrences os a = .ok c ∧ o.apply c = .ok b := by
  induction os generalizing a with
  | nil =>
    simp only [List.nil_append, ofOccurrences, Except.ok.injEq, exists_eq_left']
    cases o.apply a <;> rfl
  | cons first os ih =>
    rw [List.cons_append, ofOccurrences, ofOccurrences]
    cases first.apply a with
    | error fault => simp
    | ok a => exact ih a

theorem wellFormed_nil : WellFormed [] where
  accepted := fun _ _ hmem => absurd hmem List.not_mem_nil
  once := fun _ _ => Nat.zero_le 1
  raised := fun _ => Nat.zero_le 1

/-- **Which arguments come out of options**: those with the values that are given, and only if the
options can be given together. -/
theorem ofOccurrences_eq_ok_iff : ofOccurrences os {} = .ok a ↔ WellFormed os ∧ a = ofGiven os := by
  induction os using List.reverseRecOn generalizing a with
  | nil =>
    rw [ofOccurrences, Except.ok.injEq, eq_comm, and_iff_right wellFormed_nil]
    rfl
  | append_singleton os o ih =>
    rw [ofOccurrences_concat, wellFormed_concat]
    constructor
    · rintro ⟨b, hb, ha⟩
      obtain ⟨hos, rfl⟩ := ih.1 hb
      obtain ⟨hfollows, rfl⟩ := (apply_ofGiven hos).1 ha
      exact ⟨⟨hos, hfollows⟩, rfl⟩
    · rintro ⟨⟨hos, hfollows⟩, rfl⟩
      exact ⟨_, ih.2 ⟨hos, rfl⟩, (apply_ofGiven hos).2 ⟨hfollows, rfl⟩⟩

/-! ## Options in another order -/

/-- The same options in another order, in which the values of each option that may be repeated stand
as they did. -/
structure Reordered (os os' : List Occurrence) : Prop where
  perm : os.Perm os'
  repeated : ∀ o, o.isRepeatable = true → values os o = values os' o

namespace Reordered

theorem perm_values (h : Reordered os os') (o : ValueOption) : (values os o).Perm (values os' o) :=
  h.perm.filterMap _

/-- Options that can be given together can be so in another order. -/
theorem wellFormed (h : Reordered os os') (hos : WellFormed os) : WellFormed os' where
  accepted := fun o text hmem => hos.accepted o text (h.perm.mem_iff.2 hmem)
  once := fun o ho => (h.perm_values o).length_eq ▸ hos.once o ho
  raised := fun f => h.perm.count_eq (.flag f) ▸ hos.raised f

theorem values_eq (h : Reordered os os') (hos : WellFormed os) (o : ValueOption) :
    values os o = values os' o := by
  cases hrepeat : o.isRepeatable with
  | true => exact h.repeated o hrepeat
  | false =>
    have hperm := h.perm_values o
    -- there is at most one value, so there is no other order
    match hvalues : values os o, hos.once o hrepeat with
    | [], _ => exact (List.nil_perm.1 (hvalues ▸ hperm)).symm
    | [text], _ => exact List.singleton_perm.1 (hvalues ▸ hperm)

/-- **Options that can be given together make the same arguments in another order.** -/
theorem ofGiven_eq (h : Reordered os os') (hos : WellFormed os) : ofGiven os' = ofGiven os := by
  have hflag : ∀ f : Flag, os'.contains (.flag f) = os.contains (.flag f) := fun f => by
    rw [Bool.eq_iff_iff, List.contains_iff_mem, List.contains_iff_mem, h.perm.mem_iff]
  simp only [ofGiven, h.values_eq hos, hflag]

end Reordered
end Arguments
end PeerNode
