import PeerNode.Proofs.Frame.Writing

/-!
# Framing as a normal form

A payload may come with its last newline or without it, and framing makes the same of both.  All
that framing does is decided by the body of the payload: whether there is a frame, why there is
none, and which one it is.  A frame has the body of the payload that it is made of, so framing it
again changes nothing, and two payloads have the same frame exactly if they have the same body.

* `ofPayload_eq_interiorNewline_iff`, `ofPayload_eq_tooLong_iff`: why a payload has no frame.
* `body_of_frame`, `ofPayload_of_frame`: a frame is its own frame.
* `frame_eq_frame_iff`: which payloads have the same frame.
* `ofPayload_normalizes`: all of this.
-/

namespace PeerNode
namespace Frame

variable {p q f g : Bytes}

/-! ## Payloads without a frame -/

/-- A payload with a newline in its body is refused for it, however long it is. -/
theorem ofPayload_eq_interiorNewline_iff :
    ofPayload p = .error .interiorNewline ↔ terminator ∈ body p := by
  simp only [ofPayload, List.contains_iff_mem]
  by_cases hmem : terminator ∈ body p
  · simp [hmem]
  · by_cases hlong : (body p).length > limit <;> simp [hmem, hlong]

/-- Only a payload without a newline in its body is refused for its length. -/
theorem ofPayload_eq_tooLong_iff {n : Nat} :
    ofPayload p = .error (.tooLong n) ↔
      terminator ∉ body p ∧ limit < (body p).length ∧ n = (body p).length := by
  simp only [ofPayload, List.contains_iff_mem]
  by_cases hmem : terminator ∈ body p
  · simp [hmem]
  · by_cases hlong : (body p).length > limit
    · simp [hmem, hlong, eq_comm]
    · simp [hmem, hlong]

/-! ## Frames -/

/-- **Which payloads have a frame.** -/
theorem exists_frame_iff :
    (∃ f, ofPayload p = .ok f) ↔ terminator ∉ body p ∧ (body p).length ≤ limit := by
  constructor
  · rintro ⟨f, hf⟩
    obtain ⟨hnone, hshort, -⟩ := ofPayload_eq_ok_iff.1 hf
    exact ⟨hnone, hshort⟩
  · rintro ⟨hnone, hshort⟩
    exact ⟨_, ofPayload_eq_ok_iff.2 ⟨hnone, hshort, rfl⟩⟩

theorem count_terminator_of_frame (h : ofPayload p = .ok f) : f.count terminator = 1 := by
  obtain ⟨hnone, -, rfl⟩ := ofPayload_eq_ok_iff.1 h
  rw [List.count_append, List.count_eq_zero_of_not_mem hnone, List.count_singleton_self]

/-- A frame has the body of the payload that it is made of. -/
theorem body_of_frame (h : ofPayload p = .ok f) : body f = body p := by
  obtain ⟨-, -, rfl⟩ := ofPayload_eq_ok_iff.1 h
  exact body_append_terminator (body p)

/-- **A frame is its own frame.** -/
theorem ofPayload_of_frame (h : ofPayload p = .ok f) : ofPayload f = .ok f := by
  rw [ofPayload_eq_ok_iff, body_of_frame h]
  exact ofPayload_eq_ok_iff.1 h

/-- **Two payloads have the same frame exactly if they have the same body.** -/
theorem frame_eq_frame_iff (hp : ofPayload p = .ok f) (hq : ofPayload q = .ok g) :
    f = g ↔ body p = body q := by
  constructor
  · rintro rfl
    rw [← body_of_frame hp, ← body_of_frame hq]
  · intro hbody
    obtain ⟨-, -, rfl⟩ := ofPayload_eq_ok_iff.1 hp
    obtain ⟨-, -, rfl⟩ := ofPayload_eq_ok_iff.1 hq
    rw [hbody]

/-- **Framing makes a normal form of every payload that can be sent.**  The body of a payload is the
payload without its one last newline, if it ends in one.  A payload has a frame exactly if its body
holds no newline and is not too long; a newline is reported whether or not the body is too long as
well, and the length only without one.  The frame is the body with one newline behind it, the only
one in it; it is its own frame, and it is the frame of exactly those payloads with a frame that have
this body. -/
theorem ofPayload_normalizes (p : Bytes) :
    (∀ b, p = b ++ [terminator] → body p = b) ∧
    (p.getLast? ≠ some terminator → body p = p) ∧
    ((∃ f, ofPayload p = .ok f) ↔ terminator ∉ body p ∧ (body p).length ≤ limit) ∧
    (ofPayload p = .error .interiorNewline ↔ terminator ∈ body p) ∧
    (∀ n, ofPayload p = .error (.tooLong n) ↔
      terminator ∉ body p ∧ limit < (body p).length ∧ n = (body p).length) ∧
    ∀ f, ofPayload p = .ok f →
      f = body p ++ [terminator] ∧ f.count terminator = 1 ∧ ofPayload f = .ok f ∧
        ∀ q g, ofPayload q = .ok g → (f = g ↔ body p = body q) := by
  refine ⟨?_, body_of_unterminated, exists_frame_iff, ofPayload_eq_interiorNewline_iff,
    fun n => ofPayload_eq_tooLong_iff, fun f hf => ?_⟩
  · rintro b rfl
    exact body_append_terminator b
  · exact ⟨(ofPayload_eq_ok_iff.1 hf).2.2, count_terminator_of_frame hf, ofPayload_of_frame hf,
      fun q g hg => frame_eq_frame_iff hf hg⟩

/-- A payload with its last newline and without it; one with two newlines at its end, and longer
than may be sent; the longest that may be sent, and one that is longer by an octet. -/
theorem ofPayload_normalizes_hi :
    (ofPayload [104, 105] = .ok [104, 105, 10] ∧ ofPayload [104, 105, 10] = .ok [104, 105, 10] ∧
      [104, 105, 10].count terminator = 1 ∧ body [104, 105] = body [104, 105, 10]) ∧
    ofPayload (List.replicate (limit + 1) 104 ++ [10, 10]) = .error .interiorNewline ∧
    (∃ f, ofPayload (List.replicate limit 104) = .ok f) ∧
    ofPayload (List.replicate (limit + 1) 104) = .error (.tooLong (limit + 1)) := by
  have hlast : ∀ n, (List.replicate n (104 : UInt8)).getLast? ≠ some terminator := by
    intro n h
    exact absurd (List.eq_of_mem_replicate (List.mem_of_getLast? h)) (by decide)
  have hnone : ∀ n, terminator ∉ List.replicate n (104 : UInt8) := by
    intro n h
    exact absurd (List.eq_of_mem_replicate h) (by decide)
  have hmade : ofPayload [104, 105] = .ok [104, 105, 10] := by decide
  obtain ⟨-, -, -, -, -, hframe⟩ := ofPayload_normalizes [104, 105]
  obtain ⟨-, hcount, hagain, hsame⟩ := hframe [104, 105, 10] hmade
  refine ⟨⟨hmade, hagain, hcount, (hsame _ _ hagain).1 rfl⟩, ?_, ?_, ?_⟩
  · obtain ⟨hbody, -, -, hnewline, -, -⟩ :=
      ofPayload_normalizes (List.replicate (limit + 1) 104 ++ [10, 10])
    have hsplit : List.replicate (limit + 1) (104 : UInt8) ++ [10, 10] =
        (List.replicate (limit + 1) 104 ++ [10]) ++ [terminator] := by
      rw [List.append_assoc]
      rfl
    rw [hnewline, hbody _ hsplit]
    exact List.mem_append_right _ (List.mem_singleton_self terminator)
  · obtain ⟨-, hbody, hsome, -, -, -⟩ := ofPayload_normalizes (List.replicate limit 104)
    rw [hsome, hbody (hlast _), List.length_replicate]
    exact ⟨hnone _, le_refl _⟩
  · obtain ⟨-, hbody, -, -, hlong, -⟩ := ofPayload_normalizes (List.replicate (limit + 1) 104)
    rw [hlong, hbody (hlast _), List.length_replicate]
    exact ⟨hnone _, Nat.lt_succ_self _, rfl⟩

end Frame
end PeerNode
