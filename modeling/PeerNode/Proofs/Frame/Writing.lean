import PeerNode.Frame.Writer
import Mathlib.Data.List.Infix

/-!
# What a frame is, and what a stream takes of it

A frame is a body without a newline, not longer than a receiver reads, and one newline behind it.
A stream takes a frame in pieces whose sizes it chooses; whatever it chooses, and wherever it
fails, the pieces put together are a beginning of the frame, and all of it if the writer reports
no failure.

* `body_append_terminator`, `body_eq_self`: the body of a payload with and without its newline.
* `ofPayload_eq_ok_iff`: which payloads have a frame, and which frame that is.
* `isPrefix_taken_write`, `taken_write_of_ok`: what the stream has taken.
-/

namespace PeerNode
namespace Frame

/-! ## Payloads -/

/-- A payload that ends in the terminator has what precedes it as its body. -/
theorem body_append_terminator (b : Bytes) : body (b ++ [terminator]) = b := by
  simp [body, isTerminated]

theorem body_of_unterminated {b : Bytes} (h : b.getLast? ≠ some terminator) : body b = b := by
  simp [body, isTerminated, h]

/-- A payload without any terminator is its own body. -/
theorem body_eq_self {b : Bytes} (h : terminator ∉ b) : body b = b :=
  body_of_unterminated fun hlast => h (List.mem_of_mem_getLast? hlast)

/-- **A payload has a frame exactly when its body holds no terminator and is not too long**, and
the frame is that body with one terminator behind it. -/
theorem ofPayload_eq_ok_iff {p f : Bytes} :
    ofPayload p = .ok f ↔
      terminator ∉ body p ∧ (body p).length ≤ limit ∧ f = body p ++ [terminator] := by
  simp only [ofPayload]
  split
  · rename_i h
    rw [List.contains_iff_mem] at h
    simp [h]
  · rename_i h
    rw [List.contains_iff_mem] at h
    split
    · rename_i hl
      simp only [reduceCtorEq, false_iff, not_and]
      intro _ hs
      omega
    · rename_i hl
      simp only [Except.ok.injEq, h, not_false_eq_true, true_and]
      constructor
      · intro hf
        exact ⟨by omega, hf.symm⟩
      · rintro ⟨-, hf⟩
        exact hf.symm

/-! ## What is taken -/

/-- What has been taken is a beginning of all there is, and all of it without a failure. -/
theorem taken_writeRest (s : Sink) (size written : Nat) (done : List Bytes) (rest : Bytes) :
    (writeRest s size written done rest).taken <+: done.reverse.flatten ++ rest ∧
      ((writeRest s size written done rest).result = .ok () →
        (writeRest s size written done rest).taken = done.reverse.flatten ++ rest) := by
  fun_induction writeRest s size written done rest with
  | case1 written done e hc => simp [Written.of]
  | case2 written done hc => simp [Written.of]
  | case3 written done b more e ha => simp [Written.of]
  | case4 written done b more ha => simp [Written.of]
  | case5 written done b more n ha ih =>
    have hjoin : ((b :: more.take n) :: done).reverse.flatten ++ more.drop n =
        done.reverse.flatten ++ b :: more := by
      simp [List.take_append_drop]
    rw [hjoin] at ih
    exact ih

/-- A stream has taken a beginning of the frame. -/
theorem isPrefix_taken_write (s : Sink) (f : Bytes) : (write s f).taken <+: f :=
  (taken_writeRest s f.length 0 [] f).1

/-- If nothing failed, a stream has taken the whole frame. -/
theorem taken_write_of_ok {s : Sink} {f : Bytes} (h : (write s f).result = .ok ()) :
    (write s f).taken = f :=
  (taken_writeRest s f.length 0 [] f).2 h

end Frame
end PeerNode
