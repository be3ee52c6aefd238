import PeerNode.Text.Blank
import Mathlib.Data.List.TakeWhile

/-!
# Trimming

Trimming takes the blank characters at the two ends of a text away and leaves a text that has none
there, a *tight* one.  This determines what it leaves: in whatever way a text is a tight one with
blank characters around it, the tight one is left of it.

* `Tight`: neither the first character nor the last one is blank.
* `tight_trimChars`, `exists_padding`: what is left is tight, and what was taken away is blank.
* `trimChars_append`: of a tight text with blank characters around it the tight text is left.
* `trimChars_eq_nil_iff`: nothing is left exactly of blank characters.
-/

namespace PeerNode
namespace Text

variable {front cs back : List Char}

/-- Characters of which neither the first nor the last is blank. -/
structure Tight (cs : List Char) : Prop where
  first : ∀ c ∈ cs.head?, isBlank c = false
  last : ∀ c ∈ cs.getLast?, isBlank c = false

theorem tight_nil : Tight [] := ⟨by simp, by simp⟩

theorem Tight.of_no_blank (h : ∀ c ∈ cs, isBlank c = false) : Tight cs :=
  ⟨fun c hc => h c (List.mem_of_mem_head? hc), fun c hc => h c (List.mem_of_mem_getLast? hc)⟩

theorem Tight.reverse (h : Tight cs) : Tight cs.reverse := by
  refine ⟨?_, ?_⟩
  · rw [List.head?_reverse]
    exact h.last
  · rw [List.getLast?_reverse]
    exact h.first

theorem Tight.dropWhile_append (h : Tight cs) (hne : cs ≠ [])
    (hfront : ∀ c ∈ front, isBlank c = true) (more : List Char) :
    (front ++ (cs ++ more)).dropWhile isBlank = cs ++ more := by
  obtain ⟨c, cs, rfl⟩ := List.exists_cons_of_ne_nil hne
  have hc : isBlank c = false := h.first c rfl
  rw [List.dropWhile_append_of_pos hfront, List.cons_append, List.dropWhile_cons_of_neg]
  rw [hc]
  exact Bool.false_ne_true

/-- **Of a tight text with blank characters around it the tight text is left.** -/
theorem trimChars_append (hfront : ∀ c ∈ front, isBlank c = true) (hcs : Tight cs)
    (hback : ∀ c ∈ back, isBlank c = true) : trimChars (front ++ (cs ++ back)) = cs := by
  have hback' : ∀ c ∈ back.reverse, isBlank c = true := fun c hc => hback c (List.mem_reverse.1 hc)
  by_cases hnone : cs = []
  · have hdrop : (front ++ back).dropWhile isBlank = [] := by
      rw [List.dropWhile_append_of_pos hfront, List.dropWhile_eq_nil_iff.2 hback]
    rw [hnone, List.nil_append, trimChars, hdrop]
    rfl
  · have hreverse := hcs.reverse.dropWhile_append (by rwa [Ne, List.reverse_eq_nil_iff]) hback' []
    rw [List.append_nil] at hreverse
    rw [trimChars, hcs.dropWhile_append hnone hfront, List.reverse_append, hreverse,
      List.reverse_reverse]

/-- **What was taken away is blank.** -/
theorem exists_padding (cs : List Char) :
    ∃ front back, (∀ c ∈ front, isBlank c = true) ∧ (∀ c ∈ back, isBlank c = true) ∧
      cs = front ++ (trimChars cs ++ back) := by
  refine ⟨cs.takeWhile isBlank, ((cs.dropWhile isBlank).reverse.takeWhile isBlank).reverse,
    fun c hc => List.mem_takeWhile_imp hc, fun c hc => ?_, ?_⟩
  · exact List.mem_takeWhile_imp (List.mem_reverse.1 hc)
  · rw [trimChars, ← List.reverse_append, List.takeWhile_append_dropWhile, List.reverse_reverse,
      List.takeWhile_append_dropWhile]

theorem isBlank_of_mem_head?_dropWhile {c : Char} (h : c ∈ (cs.dropWhile isBlank).head?) :
    isBlank c = false := by
  have hnot := List.head?_dropWhile_not isBlank cs
  rw [Option.mem_def.1 h] at hnot
  exact hnot

/-- **What is left is tight.** -/
theorem tight_trimChars (cs : List Char) : Tight (trimChars cs) := by
  refine ⟨fun c hc => ?_, fun c hc => ?_⟩
  · -- the first character that is left is the first one behind the blank characters in front
    have hprefix : trimChars cs <+: cs.dropWhile isBlank := by
      rw [trimChars, ← List.reverse_suffix, List.reverse_reverse]
      exact List.dropWhile_suffix _
    obtain ⟨more, hmore⟩ := hprefix
    have hfirst : c ∈ (cs.dropWhile isBlank).head? := by
      rw [← hmore, List.head?_append, Option.mem_def.1 hc]
      rfl
    exact isBlank_of_mem_head?_dropWhile hfirst
  · rw [trimChars, List.getLast?_reverse] at hc
    exact isBlank_of_mem_head?_dropWhile hc

/-- Nothing is left exactly of blank characters. -/
theorem trimChars_eq_nil_iff : trimChars cs = [] ↔ ∀ c ∈ cs, isBlank c = true := by
  constructor
  · intro h
    obtain ⟨front, back, hfront, hback, hcs⟩ := exists_padding cs
    rw [hcs, h, List.nil_append]
    intro c hc
    exact (List.mem_append.1 hc).elim (hfront c) (hback c)
  · intro h
    have htrim : trimChars (cs ++ ([] ++ [])) = [] := trimChars_append h tight_nil (by simp)
    rwa [List.nil_append, List.append_nil] at htrim

theorem allBlank_iff_trim {s : String} : allBlank s = true ↔ trim s = "" := by
  rw [allBlank, List.all_eq_true, ← trimChars_eq_nil_iff, trim, ← String.toList_inj,
    String.toList_ofList]
  rfl

end Text
end PeerNode
