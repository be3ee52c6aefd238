import PeerNode.Frame.Reader
import Mathlib.Data.List.Infix
import Mathlib.Data.List.TakeWhile

/-!
# What a reader makes of a stream

A reader is fed piece by piece, and nothing in the pieces says where a frame ends.  What it makes
of them depends on one thing only: the octets that the stream hands out before it fails, falls
silent or ends, however they were cut.  This file states that dependence.

* `heard`: those octets.
* `Open`: octets that decide nothing yet, since they hold no newline and are not too many.
* `take_cases`: what one more piece makes of open octets.
* `readFrom_eq_ok_iff`, `read_eq_ok_iff`: a frame is read exactly when what is heard begins with
  its body and a newline, and the body is one that a sender may send.
* `readFrom_pieces`: a stream that ends before the newline is a failure, not a frame.
-/

namespace PeerNode
namespace Frame

/-- The octets that a stream hands out before it fails, falls silent or ends. -/
def heard : List ReadEvent → Bytes
  | .bytes piece :: rest => piece ++ heard rest
  | .pause _ :: rest => heard rest
  | .fail _ :: _ | .silence :: _ | [] => []

theorem heard_pieces_append (pieces : List Bytes) (rest : List ReadEvent) :
    heard (pieces.map .bytes ++ rest) = pieces.flatten ++ heard rest := by
  induction pieces with
  | nil => rfl
  | cons piece pieces ih =>
    rw [List.map_cons, List.cons_append, heard, ih, List.flatten_cons, List.append_assoc]

/-! ## One piece -/

/-- Octets that decide nothing yet: another octet may follow them in a frame. -/
structure Open (taken : Bytes) : Prop where
  unterminated : terminator ∉ taken
  short : taken.length ≤ limit

theorem open_nil : Open [] := ⟨List.not_mem_nil, Nat.zero_le _⟩

theorem terminator_notMem_takeWhile (bs : Bytes) :
    terminator ∉ bs.takeWhile (· != terminator) := by
  intro h
  have := List.mem_takeWhile_imp h
  simp at this

/-- Octets are taken up to the first terminator, which comes next if there is one. -/
theorem takeWhile_append_terminator {bs : Bytes}
    (h : (bs.takeWhile (· != terminator)).length < bs.length) :
    ∃ more, bs = bs.takeWhile (· != terminator) ++ terminator :: more := by
  have hsplit := List.takeWhile_append_dropWhile (p := (· != terminator)) (l := bs)
  rcases hd : bs.dropWhile (· != terminator) with _ | ⟨b, more⟩
  · rw [hd, List.append_nil] at hsplit
    rw [hsplit] at h
    exact absurd h (Nat.lt_irrefl _)
  · have hb : b = terminator := by
      have hne : bs.dropWhile (· != terminator) ≠ [] := by
        rw [hd]
        exact List.cons_ne_nil _ _
      have := List.head_dropWhile_not (· != terminator) hne
      simpa [hd] using this
    rw [hd, hb] at hsplit
    exact ⟨more, hsplit.symm⟩

theorem takeWhile_eq_self_of_length {bs : Bytes}
    (h : ¬ (bs.takeWhile (· != terminator)).length < bs.length) :
    bs.takeWhile (· != terminator) = bs := by
  have hp := List.takeWhile_prefix (l := bs) (· != terminator)
  exact hp.eq_of_length_le (Nat.le_of_not_lt h)

/-- **What one more piece makes of open octets.**  It completes a body that may be sent, makes too
many octets without a terminator, or leaves the octets open. -/
theorem take_cases {taken : Bytes} (ht : Open taken) (piece : Bytes) :
    (∃ b more, take taken piece = .complete b ∧ Open b ∧
      taken ++ piece = b ++ terminator :: more) ∨
    (take taken piece = .overlong ∧ limit < (taken ++ piece).length ∧
      terminator ∉ (taken ++ piece).take (limit + 1)) ∨
    (take taken piece = .unfinished (taken ++ piece) ∧ Open (taken ++ piece)) := by
  have hshort := ht.short
  have hlen := List.length_take (i := limit + 1 - taken.length) (l := piece)
  have hsub := terminator_notMem_takeWhile (piece.take (limit + 1 - taken.length))
  simp only [take]
  split
  · rename_i hlt
    obtain ⟨more, hmore⟩ := takeWhile_append_terminator hlt
    refine Or.inl ⟨_, more ++ piece.drop (limit + 1 - taken.length), rfl, ⟨?_, ?_⟩, ?_⟩
    · rw [List.mem_append, not_or]
      exact ⟨ht.unterminated, hsub⟩
    · rw [List.length_append]
      omega
    · conv_lhs => rw [← List.take_append_drop (limit + 1 - taken.length) piece, hmore]
      simp only [List.append_assoc, List.cons_append]
  · rename_i hge
    rw [takeWhile_eq_self_of_length hge] at hsub
    have hnone : terminator ∉ taken ++ piece.take (limit + 1 - taken.length) := by
      rw [List.mem_append, not_or]
      exact ⟨ht.unterminated, hsub⟩
    split
    · rename_i hlong
      refine Or.inr (Or.inl ⟨rfl, ?_, ?_⟩)
      · rw [List.length_append]
        omega
      · rw [List.take_append, List.take_of_length_le (by omega)]
        exact hnone
    · rename_i hopen
      have hall : piece.take (limit + 1 - taken.length) = piece :=
        List.take_of_length_le (by omega)
      rw [hall] at hnone hopen ⊢
      refine Or.inr (Or.inr ⟨rfl, hnone, ?_⟩)
      rw [List.length_append]
      omega

/-! ## A whole stream -/

/-- Two bodies of one text, each followed by the first terminator, are the same. -/
theorem eq_of_append_terminator {a b c d : Bytes} (ha : terminator ∉ a) (hb : terminator ∉ b)
    (h : a ++ terminator :: c = b ++ terminator :: d) : a = b := by
  induction a generalizing b with
  | nil =>
    cases b with
    | nil => rfl
    | cons y b =>
      rw [List.nil_append, List.cons_append, List.cons.injEq] at h
      exact absurd (List.mem_cons.2 (Or.inl h.1)) hb
  | cons x a ih =>
    cases b with
    | nil =>
      rw [List.nil_append, List.cons_append, List.cons.injEq] at h
      exact absurd (List.mem_cons.2 (Or.inl h.1.symm)) ha
    | cons y b =>
      rw [List.cons_append, List.cons_append, List.cons.injEq] at h
      rw [h.1, ih (fun hm => ha (List.mem_cons_of_mem _ hm))
        (fun hm => hb (List.mem_cons_of_mem _ hm)) h.2]

theorem Open.ended_iff {taken b : Bytes} {r : Option (Except StreamError Bytes)}
    (ht : Open taken) (hr : r ≠ some (.ok b)) :
    r = some (.ok b) ↔ Open b ∧ b ++ [terminator] <+: taken ++ [] := by
  constructor
  · intro h
    exact absurd h hr
  · rintro ⟨-, hp⟩
    rw [List.append_nil] at hp
    exact absurd (hp.subset (List.mem_append_right _ (List.mem_singleton_self _)))
      ht.unterminated

/-- **A frame is read exactly when what is heard begins with its body and a terminator**, where
the body is one that a sender may send. -/
theorem readFrom_eq_ok_iff {taken : Bytes} (ht : Open taken) (script : List ReadEvent)
    (b : Bytes) :
    readFrom taken script = some (.ok b) ↔
      Open b ∧ b ++ [terminator] <+: taken ++ heard script := by
  induction script generalizing taken with
  | nil => exact ht.ended_iff (by simp [readFrom])
  | cons e rest ih =>
    cases e with
    | fail e => exact ht.ended_iff (by simp [readFrom])
    | silence => exact ht.ended_iff (by simp [readFrom])
    | pause secs => exact ih ht
    | bytes piece =>
      simp only [readFrom, heard]
      rw [← List.append_assoc]
      rcases take_cases ht piece with ⟨c, more, hc, hopen, hsplit⟩ | ⟨ho, hlong, hnone⟩ |
        ⟨hu, hopen⟩
      · rw [hc, hsplit]
        simp only [Option.some.injEq, Except.ok.injEq]
        constructor
        · rintro rfl
          exact ⟨hopen, more ++ heard rest, by simp⟩
        · rintro ⟨hb, tail, htail⟩
          have h : c ++ terminator :: (more ++ heard rest) = b ++ terminator :: tail := by
            simpa using htail.symm
          exact eq_of_append_terminator hopen.unterminated hb.unterminated h
      · rw [ho]
        constructor
        · intro h
          simp at h
        · -- a body that fits would have put its terminator among the first `limit + 1` octets
          rintro ⟨hb, tail, htail⟩
          have hshort := hb.short
          have hmem : terminator ∈ (taken ++ piece ++ heard rest).take (limit + 1) := by
            rw [← htail, List.append_assoc, List.take_append]
            refine List.mem_append_right _ ?_
            rw [show limit + 1 - b.length = (limit - b.length) + 1 by omega]
            simp
          rw [List.take_append_of_le_length (by omega)] at hmem
          exact absurd hmem hnone
      · rw [hu]
        exact ih hopen

theorem read_eq_ok_iff (script : List ReadEvent) (b : Bytes) :
    read script = some (.ok b) ↔ Open b ∧ b ++ [terminator] <+: heard script :=
  readFrom_eq_ok_iff open_nil script b

/-- Pieces that leave the frame open are followed by the end of the stream: a failure. -/
theorem readFrom_pieces {taken : Bytes} {pieces : List Bytes} (ht : Open taken)
    (hp : Open (taken ++ pieces.flatten)) :
    readFrom taken (pieces.map .bytes) = some (.error endedEarly) := by
  induction pieces generalizing taken with
  | nil => rfl
  | cons piece pieces ih =>
    rw [List.flatten_cons, ← List.append_assoc] at hp
    have hpiece : Open (taken ++ piece) := by
      refine ⟨fun h => hp.unterminated (List.mem_append_left _ h), ?_⟩
      have := hp.short
      rw [List.length_append] at this
      omega
    simp only [List.map_cons, readFrom]
    rcases take_cases ht piece with ⟨b, more, hb, -, hsplit⟩ | ⟨-, hlong, -⟩ | ⟨hu, -⟩
    · refine absurd ?_ hpiece.unterminated
      rw [hsplit]
      simp
    · exact absurd hpiece.short (by omega)
    · rw [hu]
      exact ih hpiece hp

end Frame
end PeerNode
