import PeerNode.Proofs.Frame.Reading
import PeerNode.Proofs.Frame.Writing

/-!
# The two ends of a stream agree

A sender frames a payload and writes the frame; a receiver reads a frame and hands out its body.
Neither sees the other: between them are a stream that takes octets in pieces of its own choice
and a stream that hands them out in others.  `read_write_agree` says that they agree nevertheless.

* What was written without a failure is read back as the body of the payload, whatever comes
  after it on the stream.
* What was torn off before its end, and is followed by the end of the stream, is read as a
  failure.  A torn frame is a beginning of the body, so it has no newline to be taken for its end.
* What is read as a body is one that a sender could have sent, and the stream began with the
  frame that the sender would have written.
-/

namespace PeerNode
namespace Frame

theorem open_body_of_ofPayload {p f : Bytes} (hf : ofPayload p = .ok f) :
    Open (body p) ∧ f = body p ++ [terminator] := by
  obtain ⟨hn, hl, rfl⟩ := ofPayload_eq_ok_iff.1 hf
  exact ⟨⟨hn, hl⟩, rfl⟩

theorem Open.ofPayload_eq {b : Bytes} (hb : Open b) : ofPayload b = .ok (b ++ [terminator]) := by
  rw [ofPayload_eq_ok_iff, body_eq_self hb.unterminated]
  exact ⟨hb.unterminated, hb.short, rfl⟩

theorem Open.of_torn {b t : Bytes} (hb : Open b) (ht : t <+: b ++ [terminator])
    (hlt : t.length < (b ++ [terminator]).length) : Open t := by
  rw [List.length_append, List.length_singleton] at hlt
  have hpre : t <+: b :=
    List.prefix_of_prefix_length_le ht (List.prefix_append b [terminator]) (by omega)
  exact ⟨fun h => hb.unterminated (hpre.subset h), le_trans hpre.length_le hb.short⟩

/-- A frame at the beginning of a stream is read, whatever comes after it. -/
theorem read_of_frame_prefix {b : Bytes} (hb : Open b) {script : List ReadEvent}
    (h : b ++ [terminator] <+: heard script) : read script = some (.ok b) :=
  (read_eq_ok_iff script b).2 ⟨hb, h⟩

/-- **Sender and receiver agree on what a frame is.** -/
theorem read_write_agree :
    (∀ (p f : Bytes) (s : Sink), ofPayload p = .ok f → (write s f).result = .ok () →
      ∀ (pieces : List Bytes) (more : Bytes) (rest : List ReadEvent),
        pieces.flatten = (write s f).taken ++ more →
          read (pieces.map .bytes ++ rest) = some (.ok (body p))) ∧
    (∀ (p f : Bytes) (s : Sink) (e : StreamError), ofPayload p = .ok f →
      (write s f).result = .error e → (write s f).taken.length < f.length →
      ∀ pieces : List Bytes, pieces.flatten = (write s f).taken →
        read (pieces.map .bytes) = some (.error endedEarly) ∧
          endedEarly.kind = .unexpectedEof) ∧
    (∀ (script : List ReadEvent) (b : Bytes), read script = some (.ok b) →
      ofPayload b = .ok ((heard script).take (b.length + 1))) := by
  refine ⟨?_, ?_, ?_⟩
  · intro p f s hf hok pieces more rest hpieces
    obtain ⟨hb, rfl⟩ := open_body_of_ofPayload hf
    apply read_of_frame_prefix hb
    rw [heard_pieces_append, hpieces, taken_write_of_ok hok, List.append_assoc (body p ++ _)]
    exact List.prefix_append _ _
  · intro p f s e hf _ hlt pieces hpieces
    obtain ⟨hb, rfl⟩ := open_body_of_ofPayload hf
    have htorn : Open pieces.flatten := by
      rw [hpieces]
      exact hb.of_torn (isPrefix_taken_write s _) hlt
    exact ⟨readFrom_pieces open_nil (by rwa [List.nil_append]), rfl⟩
  · intro script b hread
    obtain ⟨hb, tail, htail⟩ := (read_eq_ok_iff script b).1 hread
    have hlen : b.length + 1 = (b ++ [terminator]).length := by
      rw [List.length_append, List.length_singleton]
    rw [hb.ofPayload_eq, ← htail, hlen, List.take_left]

/-- A frame that arrives in two pieces and a frame that is torn off after its first octet. -/
theorem read_write_agree_hi :
    (ofPayload [104, 105] = .ok [104, 105, 10] ∧
      (write { maxWrite := some 2 } [104, 105, 10]).result = .ok () ∧
      read [.bytes [104], .bytes [105, 10, 33], .fail tooLarge] = some (.ok [104, 105])) ∧
    ((write { failAfter := some 1 } [104, 105, 10]).result = .error tookNothing ∧
      read [.bytes [104]] = some (.error endedEarly)) ∧
    ofPayload [104, 105] = .ok ((heard [.bytes [104, 105, 10, 33]]).take 3) := by
  have hframe : ofPayload [104, 105] = .ok [104, 105, 10] := by decide
  have hwhole : (write { maxWrite := some 2 } [104, 105, 10]).result = .ok () ∧
      (write { maxWrite := some 2 } [104, 105, 10]).taken = [104, 105, 10] := by
    simp [write, writeRest, Sink.accept, Written.of]
  have htorn : (write { failAfter := some 1 } [104, 105, 10]).result = .error tookNothing ∧
      (write { failAfter := some 1 } [104, 105, 10]).taken = [104] := by
    simp [write, writeRest, Sink.accept, Written.of]
  have hread := read_write_agree
  refine ⟨⟨hframe, hwhole.1, ?_⟩, ⟨htorn.1, ?_⟩, ?_⟩
  · exact hread.1 [104, 105] _ _ hframe hwhole.1 [[104], [105, 10, 33]] [33] [.fail tooLarge]
      (by rw [hwhole.2]; rfl)
  · exact (hread.2.1 [104, 105] _ _ _ hframe htorn.1 (by rw [htorn.2]; decide) [[104]]
      (by rw [htorn.2]; rfl)).1
  · exact hread.2.2 [.bytes [104, 105, 10, 33]] [104, 105] (by decide)

end Frame
end PeerNode
