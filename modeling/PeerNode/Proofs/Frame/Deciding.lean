import PeerNode.Frame.Window
import PeerNode.Proofs.Frame.Reading

/-!
# When a frame is decided

What comes of reading a frame is decided by an octet: by the first newline, if it lies within
reach, and else by the first octet out of reach.  Once the octets heard so far contain it, nothing
that the stream does later makes a difference, and until then there is nothing to say but how the
stream ends.  `verdict?` says it of a sequence of octets, and a reader of pieces says the same of
their concatenation (`readFrom_pieces_append`); so it does not matter how they were cut.

A reader that fills a window again and again looks at the octets in yet other pieces, some of them
cut short because no more may be taken.  Each of its rounds is a piece like any other
(`readFrom_of_readSome`), so it comes to the same (`readBuffered_eq_read`).  It stops asking when
all that may be taken is taken; were it to ask once more, a failure right behind the limit would be
taken for that of a frame which is too long.

* `verdict?`: what octets decide; `verdict_append`: for good.
* `readFrom_pieces_append`: pieces are read as their concatenation.
* `readBuffered_eq_read`: a reader with a window reads the same.
* `read_decided_by_octets`: what a frame depends on.
-/

namespace PeerNode
namespace Frame

variable {taken bs : Bytes} {r : Except StreamError Bytes}

/-! ## What octets decide -/

/-- What the octets at the beginning of a stream decide about its frame, if they decide it. -/
def verdict? (bs : Bytes) : Option (Except StreamError Bytes) :=
  if terminator ∈ bs.take (limit + 1) then some (.ok (bs.takeWhile (· != terminator)))
  else if limit < bs.length then some (.error tooLarge)
  else none

/-- A body that may be sent and its terminator decide the frame. -/
theorem verdict_of_body {b : Bytes} (hb : Open b) (more : Bytes) :
    verdict? (b ++ terminator :: more) = some (.ok b) := by
  have hshort := hb.short
  have hmem : terminator ∈ (b ++ terminator :: more).take (limit + 1) := by
    rw [List.take_append, show limit + 1 - b.length = (limit - b.length) + 1 by omega]
    simp
  have hbody : (b ++ terminator :: more).takeWhile (· != terminator) = b := by
    rw [List.takeWhile_append_of_pos, List.takeWhile_cons_of_neg (by simp), List.append_nil]
    intro c hc
    rw [bne_iff_ne]
    rintro rfl
    exact hb.unterminated hc
  rw [verdict?, if_pos hmem, hbody]

/-- Octets decide nothing exactly if they are open. -/
theorem verdict_eq_none_iff : verdict? bs = none ↔ Open bs := by
  unfold verdict?
  constructor
  · intro h
    split at h
    · cases h
    · rename_i hnone
      split at h
      · cases h
      · rename_i hshort
        rw [List.take_of_length_le (by omega)] at hnone
        exact ⟨hnone, by omega⟩
  · intro h
    rw [if_neg fun hmem => h.unterminated (List.mem_of_mem_take hmem),
      if_neg (Nat.not_lt.2 h.short)]

theorem exists_body_of_mem (h : terminator ∈ bs.take (limit + 1)) :
    ∃ b more, Open b ∧ bs = b ++ terminator :: more := by
  obtain ⟨b, c, hsplit, hnone⟩ := List.eq_append_cons_of_mem h
  have hlength := congrArg List.length hsplit
  rw [List.length_append, List.length_cons, List.length_take] at hlength
  refine ⟨b, c ++ bs.drop (limit + 1), ⟨hnone, by omega⟩, ?_⟩
  conv_lhs => rw [← List.take_append_drop (limit + 1) bs, hsplit]
  rw [List.append_assoc, List.cons_append]

/-- **What is decided stays decided**, whatever octets follow. -/
theorem verdict_append (h : verdict? bs = some r) (more : Bytes) :
    verdict? (bs ++ more) = some r := by
  by_cases hmem : terminator ∈ bs.take (limit + 1)
  · obtain ⟨b, rest, hb, rfl⟩ := exists_body_of_mem hmem
    rw [verdict_of_body hb] at h
    rw [List.append_assoc, List.cons_append, verdict_of_body hb, h]
  · by_cases hlong : limit < bs.length
    · rw [verdict?, if_neg hmem, if_pos hlong] at h
      rw [verdict?, List.take_append_of_le_length hlong, if_neg hmem,
        if_pos (by rw [List.length_append]; omega), h]
    · rw [verdict?, if_neg hmem, if_neg hlong] at h
      cases h

/-! ## Pieces -/

theorem take_eq (ht : Open taken) (piece : Bytes) :
    take taken piece = match verdict? (taken ++ piece) with
      | some (.ok b) => .complete b
      | some (.error _) => .overlong
      | none => .unfinished (taken ++ piece) := by
  rcases take_cases ht piece with ⟨b, more, hc, hb, hsplit⟩ | ⟨ho, hlong, hnone⟩ | ⟨hu, hopen⟩
  · rw [hc, hsplit, verdict_of_body hb]
  · rw [ho, verdict?, if_neg hnone, if_pos hlong]
  · rw [hu, verdict_eq_none_iff.2 hopen]

theorem eq_tooLarge_of_verdict {e : StreamError} (h : verdict? bs = some (.error e)) :
    e = tooLarge := by
  unfold verdict? at h
  split at h
  · cases h
  · split at h
    · exact (Except.error.inj (Option.some.inj h)).symm
    · cases h

/-- **Pieces are read as their concatenation**: what it decides is the result, and if it decides
nothing then what follows is read. -/
theorem readFrom_pieces_append (ht : Open taken) (pieces : List Bytes) (rest : List ReadEvent) :
    readFrom taken (pieces.map .bytes ++ rest) =
      match verdict? (taken ++ pieces.flatten) with
      | some r => some r
      | none => readFrom (taken ++ pieces.flatten) rest := by
  induction pieces generalizing taken with
  | nil =>
    rw [List.flatten_nil, List.append_nil, verdict_eq_none_iff.2 ht]
    rfl
  | cons piece pieces ih =>
    rw [List.map_cons, List.cons_append, readFrom, take_eq ht, List.flatten_cons,
      ← List.append_assoc]
    rcases hv : verdict? (taken ++ piece) with _ | (e | b)
    · exact ih (verdict_eq_none_iff.1 hv)
    · rw [verdict_append hv, eq_tooLarge_of_verdict hv]
    · rw [verdict_append hv]

theorem readFrom_cut (ht : Open taken) (a b : Bytes) (rest : List ReadEvent) :
    readFrom taken (.bytes (a ++ b) :: rest) =
      readFrom taken (.bytes a :: .bytes b :: rest) := by
  have hwhole := readFrom_pieces_append ht [a ++ b] rest
  have hparts := readFrom_pieces_append ht [a, b] rest
  simp only [List.flatten_cons, List.flatten_nil, List.append_nil] at hwhole hparts
  exact hwhole.trans hparts.symm

/-! ## Windows -/

/-- **What one read of a stream gives is its first piece**, or all of it that there is room for. -/
theorem readFrom_of_readSome (ht : Open taken) {room : Nat} (hroom : 0 < room)
    (script : List ReadEvent) :
    match readSome room script with
    | none => readFrom taken script = none
    | some (.error e) => readFrom taken script = some (.error e)
    | some (.ok ([], _)) => readFrom taken script = some (.error endedEarly)
    | some (.ok (b :: more, rest)) => (b :: more).length ≤ room ∧
        readFrom taken script = readFrom taken (.bytes (b :: more) :: rest) := by
  induction script with
  | nil => rfl
  | cons e rest ih =>
    cases e with
    | fail e => rfl
    | silence => rfl
    | pause secs => exact ih
    | bytes piece =>
      cases piece with
      | nil =>
        have hskip : readFrom taken (.bytes [] :: rest) = readFrom taken rest := by
          have := readFrom_pieces_append ht [[]] rest
          simpa [verdict_eq_none_iff.2 ht] using this
        rw [hskip]
        exact ih
      | cons b bs =>
        obtain ⟨k, rfl⟩ : ∃ k, room = k + 1 := ⟨room - 1, by omega⟩
        have hcut := readFrom_cut ht ((b :: bs).take (k + 1)) ((b :: bs).drop (k + 1)) rest
        rw [List.take_append_drop] at hcut
        simp only [readSome, List.isEmpty_cons, Bool.false_eq_true, if_false, List.take_succ_cons,
          List.drop_succ_cons] at hcut ⊢
        refine ⟨?_, hcut⟩
        rw [List.length_cons, List.length_take]
        omega

theorem bodyOfTaken_terminated (b : Bytes) : bodyOfTaken (b ++ [terminator]) = .ok b := by
  rw [bodyOfTaken, if_pos (by simp), List.dropLast_concat]

theorem bodyOfTaken_unterminated (h : terminator ∉ bs) :
    bodyOfTaken bs = .error (if limit < bs.length then tooLarge else endedEarly) := by
  rw [bodyOfTaken, if_neg fun hlast => h (List.mem_of_getLast? hlast)]
  split <;> rfl

/-- Window after window, the octets taken come to what the stream is read as. -/
theorem fillWindows_eq {window left : Nat} (hwindow : 0 < window) (ht : Open taken)
    (hleft : taken.length + left = limit + 1) (script : List ReadEvent) :
    (fillWindows window taken left script).map (fun r => r.bind bodyOfTaken) =
      readFrom taken script := by
  induction left using Nat.strongRecOn generalizing taken script with
  | ind left ih =>
    have hshort := ht.short
    have hroom : 0 < min window left := by omega
    have hread := readFrom_of_readSome ht hroom script
    rw [fillWindows, if_neg (by omega)]
    rcases hs : readSome (min window left) script with _ | (e | ⟨_ | ⟨b, more⟩, rest⟩)
    · rw [hs] at hread
      exact hread.symm
    · rw [hs] at hread
      exact hread.symm
    · rw [hs] at hread
      have hnone := bodyOfTaken_unterminated ht.unterminated
      rw [if_neg (by omega)] at hnone
      simp only [Option.map_some, Except.bind, hnone]
      exact hread.symm
    · rw [hs] at hread
      obtain ⟨hwithin, hread⟩ := hread
      have hnotLonger : taken.length + (b :: more).length ≤ limit + 1 := by omega
      rw [hread, readFrom, take_eq ht]
      simp only
      split
      · rename_i hlt
        obtain ⟨tail, htail⟩ := takeWhile_append_terminator hlt
        have hsub := terminator_notMem_takeWhile (b :: more)
        generalize (b :: more).takeWhile (· != terminator) = upTo at hlt htail hsub
        have hopen : Open (taken ++ upTo) := by
          refine ⟨fun hmem => (List.mem_append.1 hmem).elim ht.unterminated hsub, ?_⟩
          rw [List.length_append]
          omega
        rw [htail, ← List.append_assoc, verdict_of_body hopen]
        simp only [Option.map_some, Except.bind, bodyOfTaken_terminated]
      · rename_i hall
        have hsub := terminator_notMem_takeWhile (b :: more)
        rw [takeWhile_eq_self_of_length hall] at hsub
        have hnone : terminator ∉ taken ++ b :: more :=
          fun hmem => (List.mem_append.1 hmem).elim ht.unterminated hsub
        by_cases hlast : left - (b :: more).length = 0
        · -- all that may be taken has been taken, and the stream is not read again
          have hlong : limit < (taken ++ b :: more).length := by
            rw [List.length_append]
            omega
          rw [fillWindows, if_pos hlast, verdict?,
            if_neg fun hmem => hnone (List.mem_of_mem_take hmem), if_pos hlong]
          simp only [Option.map_some, Except.bind, bodyOfTaken_unterminated hnone, if_pos hlong]
        · have hopen : Open (taken ++ b :: more) := by
            refine ⟨hnone, ?_⟩
            rw [List.length_append]
            omega
          rw [verdict_eq_none_iff.2 hopen]
          refine ih _ ?_ hopen ?_ rest
          · rw [List.length_cons] at hlast ⊢
            omega
          · rw [List.length_append]
            omega

/-- **A reader with a window reads what the stream is read as**, however large the window. -/
theorem readBuffered_eq_read {window : Nat} (hwindow : 0 < window) (script : List ReadEvent) :
    readBuffered window script = read script :=
  fillWindows_eq hwindow open_nil (Nat.zero_add _) script

/-! ## What a frame depends on -/

/-- **A frame is decided by the octets alone.**  Reading through windows of any size gives what the
octets handed out before the stream fails or ends give: the body before the first newline if that
lies within reach; that the frame is too large if there is none and octets out of reach; and else
how the stream ends.  Octets that decide the frame decide it however they are cut, whatever comes
behind them. -/
theorem read_decided_by_octets :
    (∀ (window : Nat) (script : List ReadEvent), 0 < window →
      readBuffered window script = read script) ∧
    (∀ (pieces : List Bytes) (rest : List ReadEvent),
      (terminator ∈ pieces.flatten.take (limit + 1) →
        read (pieces.map .bytes ++ rest) =
          some (.ok (pieces.flatten.takeWhile (· != terminator)))) ∧
      (terminator ∉ pieces.flatten.take (limit + 1) → limit + 1 ≤ pieces.flatten.length →
        read (pieces.map .bytes ++ rest) = some (.error ⟨.invalidData, "Frame too large"⟩)) ∧
      (terminator ∉ pieces.flatten.take (limit + 1) → pieces.flatten.length < limit + 1 →
        (∀ e, read (pieces.map .bytes ++ .fail e :: rest) = some (.error e)) ∧
        read (pieces.map .bytes) =
          some (.error ⟨.unexpectedEof, "Stream ended before frame terminator"⟩))) ∧
    (∀ (pieces pieces' : List Bytes) (rest : List ReadEvent), pieces.flatten = pieces'.flatten →
      read (pieces.map .bytes ++ rest) = read (pieces'.map .bytes ++ rest)) ∧
    (∀ (deciding : Bytes) (pieces : List Bytes) (rest : List ReadEvent),
      (terminator ∈ deciding.take (limit + 1) ∨ limit + 1 ≤ deciding.length) →
      deciding <+: pieces.flatten → read (pieces.map .bytes ++ rest) = read [.bytes deciding]) := by
  have hpieces : ∀ (pieces : List Bytes) (rest : List ReadEvent),
      read (pieces.map .bytes ++ rest) = match verdict? pieces.flatten with
        | some r => some r
        | none => readFrom pieces.flatten rest :=
    fun pieces rest => readFrom_pieces_append open_nil pieces rest
  refine ⟨fun window script hwindow => readBuffered_eq_read hwindow script, ?_, ?_, ?_⟩
  · intro pieces rest
    refine ⟨fun hmem => ?_, fun hnone hlong => ?_, fun hnone hshort => ?_⟩
    · rw [hpieces, verdict?, if_pos hmem]
    · rw [hpieces, verdict?, if_neg hnone, if_pos (Nat.lt_of_succ_le hlong)]
      rfl
    · have hverdict : verdict? pieces.flatten = none := by
        rw [verdict?, if_neg hnone, if_neg (by omega)]
      refine ⟨fun e => by rw [hpieces, hverdict]; rfl, ?_⟩
      have hend := hpieces pieces []
      rw [List.append_nil, hverdict] at hend
      exact hend
  · intro pieces pieces' rest hsame
    rw [hpieces, hpieces, hsame]
  · rintro deciding pieces rest hdecides ⟨more, hmore⟩
    have hverdict : ∃ r, verdict? deciding = some r := by
      rw [← Option.ne_none_iff_exists', Ne, verdict_eq_none_iff]
      intro hopen
      rcases hdecides with hmem | hlong
      · exact hopen.unterminated (List.mem_of_mem_take hmem)
      · exact absurd hopen.short (by omega)
    obtain ⟨r, hr⟩ := hverdict
    have halone := hpieces [deciding] []
    rw [List.flatten_singleton, hr] at halone
    rw [hpieces, ← hmore, verdict_append hr]
    exact halone.symm

/-- Said of a frame in two pieces, of one torn off, and of one octet too many, with a failure
right behind it. -/
theorem read_decided_by_octets_hi :
    read [.bytes [104], .bytes [105, 10, 33], .fail ⟨.other, "reset"⟩] = some (.ok [104, 105]) ∧
    readBuffered 2 [.bytes [104], .bytes [105, 10, 33], .silence] = some (.ok [104, 105]) ∧
    read [.bytes [104], .fail ⟨.other, "reset"⟩] = some (.error ⟨.other, "reset"⟩) ∧
    read [.bytes [104]] =
      some (.error ⟨.unexpectedEof, "Stream ended before frame terminator"⟩) ∧
    read [.bytes (List.replicate (limit + 1) 120), .fail ⟨.other, "reset"⟩] =
      some (.error ⟨.invalidData, "Frame too large"⟩) := by
  obtain ⟨hwindow, hoctets, hpieces, hdeciding⟩ := read_decided_by_octets
  have hwithin : ∀ bs : Bytes, bs.length ≤ limit + 1 → bs.take (limit + 1) = bs :=
    fun bs h => List.take_of_length_le h
  have hhi : terminator ∈ ([104, 105, 10, 33] : Bytes).take (limit + 1) := by
    rw [hwithin _ (by decide)]
    decide
  have hh : terminator ∉ ([104] : Bytes).take (limit + 1) := by
    rw [hwithin _ (by decide)]
    decide
  have hshort : ([104] : Bytes).length < limit + 1 := by decide
  refine ⟨?_, ?_, ?_, ?_, ?_⟩
  · exact (hoctets [[104], [105, 10, 33]] [.fail ⟨.other, "reset"⟩]).1 hhi
  · rw [hwindow 2 _ (by decide)]
    exact (hdeciding [104, 105, 10] [[104], [105, 10, 33]] [.silence]
      (.inl (by rw [hwithin _ (by decide)]; decide)) ⟨[33], rfl⟩).trans
      ((hoctets [[104, 105, 10]] []).1 (by
        rw [hwithin _ (by decide)]
        decide))
  · exact ((hoctets [[104]] []).2.2 hh hshort).1 ⟨.other, "reset"⟩
  · exact ((hoctets [[104]] []).2.2 hh hshort).2
  · refine (hoctets [List.replicate (limit + 1) 120] [.fail ⟨.other, "reset"⟩]).2.1 ?_ ?_
    · rw [List.flatten_singleton, hwithin _ (by rw [List.length_replicate])]
      exact fun h => absurd (List.eq_of_mem_replicate h) (by decide)
    · rw [List.flatten_singleton, List.length_replicate]

end Frame
end PeerNode
