import PeerNode.Proofs.Frame.Writing

/-!
# The calls of a writer

A writer and a stream meet in calls only.  The writer offers what is left of the frame, and the
stream takes a first part of it or fails; when nothing is left, the writer closes the stream.
`Calls` says which calls these are, and `write_of_calls` that the writer reports what came of them.

Each write but the last takes an octet at least, so there are at most as many writes as octets.
How the calls end depends on one number only, the octets for which the stream has *room*: if the
frame has more, a write fails when the room is used up, and the stream is never asked to close.

* `Call`, `Calls`: the calls of a writer.
* `exists_calls`, `Calls.unique`, `Calls.length_le`: there is one sequence of them, and it is short.
* `Sink.room`, `Calls.exists_ending`: how the calls end.
* `write_of_calls`: what the writer reports.
* `write_closes_last`: a stream takes a beginning of the frame, and is closed only if it took all.
-/

namespace PeerNode
namespace Frame

/-- A call that a writer makes, and what the stream answers. -/
inductive Call where
  /-- Octets are offered; so many of them are taken, or the write fails. -/
  | write (offered : Bytes) (answer : Except StreamError Nat)
  /-- The stream is closed, unless that fails. -/
  | close (failure : Option StreamError)

namespace Call

/-- The octets that the stream takes. -/
def taken : Call → Bytes
  | write offered (.ok n) => offered.take n
  | write _ (.error _) | close _ => []

/-- How the call fails.  A write that takes nothing has failed. -/
def failure? : Call → Option StreamError
  | write _ (.error e) => some e
  | write _ (.ok 0) => some tookNothing
  | write _ (.ok (_ + 1)) => none
  | close failure => failure

/-- Whether the call closes the stream. -/
def closes : Call → Bool
  | close none => true
  | close (some _) | write _ _ => false

/-- Whether the call is a write that takes something. -/
def Takes (call : Call) : Prop := ∃ offered n, call = write offered (.ok (n + 1))

theorem Takes.failure?_eq {call : Call} (h : call.Takes) : call.failure? = none := by
  obtain ⟨offered, n, rfl⟩ := h
  rfl

theorem Takes.closes_eq {call : Call} (h : call.Takes) : call.closes = false := by
  obtain ⟨offered, n, rfl⟩ := h
  rfl

theorem taken_of_failure {call : Call} {e : StreamError} (h : call.failure? = some e) :
    call.taken = [] := by
  match call with
  | write _ (.error _) => rfl
  | write offered (.ok 0) => rfl
  | write _ (.ok (_ + 1)) => cases h
  | close _ => rfl

end Call

/-- The calls of a writer that has `rest` of a frame left, for a stream that has taken `written`
octets: it offers all that is left again and again, until a write fails or nothing is left. -/
inductive Calls (s : Sink) : Nat → Bytes → List Call → Prop
  | close (written : Nat) : Calls s written [] [.close s.closeFailure]
  | fails {written : Nat} {rest : Bytes} {answer : Except StreamError Nat} {e : StreamError}
      (hrest : rest ≠ []) (hanswer : s.accept written rest.length = answer)
      (hfail : (Call.write rest answer).failure? = some e) :
      Calls s written rest [.write rest answer]
  | goesOn {written n : Nat} {rest : Bytes} {calls : List Call}
      (hrest : rest ≠ []) (hanswer : s.accept written rest.length = .ok (n + 1))
      (h : Calls s (written + (n + 1)) (rest.drop (n + 1)) calls) :
      Calls s written rest (.write rest (.ok (n + 1)) :: calls)

/-- The octets that a stream takes in all before a write fails; none if writing never does. -/
def Sink.room (s : Sink) : Option Nat := if s.maxWrite = some 0 then some 0 else s.failAfter

/-- Whether a stream takes so many octets before a write fails. -/
def Sink.HasRoomFor (s : Sink) (count : Nat) : Prop := ∀ n ∈ s.room, count ≤ n

theorem Sink.hasRoomFor_zero (s : Sink) : s.HasRoomFor 0 := fun n _ => Nat.zero_le n

variable {s : Sink} {f rest : Bytes} {written offered : Nat} {calls : List Call}

/-! ## One write -/

/-- The octets that a stream takes in one write if it has room for them. -/
def Sink.bound (s : Sink) (offered : Nat) : Nat :=
  match s.maxWrite with
  | some m => min m offered
  | none => offered

theorem Sink.bound_le (s : Sink) (offered : Nat) : s.bound offered ≤ offered := by
  unfold bound
  split
  · exact Nat.min_le_right _ _
  · exact le_refl _

theorem Sink.bound_eq_zero_iff (s : Sink) (hoffered : 0 < offered) :
    s.bound offered = 0 ↔ s.maxWrite = some 0 := by
  unfold bound
  cases s.maxWrite with
  | none => simp only [reduceCtorEq, iff_false]; omega
  | some m => simp only [Option.some.injEq]; omega

theorem Sink.accept_eq (s : Sink) (written offered : Nat) :
    s.accept written offered = match s.failAfter with
      | none => .ok (s.bound offered)
      | some n =>
        if n ≤ written then
          match s.failure with
          | some e => .error e
          | none => .ok 0
        else .ok (min (s.bound offered) (n - written)) := rfl

/-- Without room a write takes nothing. -/
theorem Sink.accept_of_full (h : s.room = some written) (k : Nat) :
    s.accept written offered ≠ .ok (k + 1) := by
  rw [s.accept_eq]
  by_cases hmax : s.maxWrite = some 0
  · -- not even a write that does not fail takes anything
    have hbound : s.bound offered = 0 := by simp [bound, hmax]
    rw [hbound]
    cases s.failAfter with
    | none => simp
    | some n =>
      by_cases hused : n ≤ written
      · cases s.failure <;> simp [hused]
      · simp [hused]
  · have hafter : s.failAfter = some written := by rwa [room, if_neg hmax] at h
    cases s.failure <;> simp [hafter]

/-- **While there is room a write takes something**, but no more than there is room for. -/
theorem Sink.accept_of_room (hroom : s.HasRoomFor written) (hfree : s.room ≠ some written)
    (hoffered : 0 < offered) :
    ∃ k < offered, s.accept written offered = .ok (k + 1) ∧ s.HasRoomFor (written + (k + 1)) := by
  have hmax : s.maxWrite ≠ some 0 := by
    intro hmax
    have hzero : s.room = some 0 := if_pos hmax
    obtain rfl := Nat.le_zero.1 (hroom 0 hzero)
    exact hfree hzero
  have hafter : s.room = s.failAfter := if_neg hmax
  have hbound : 0 < s.bound offered :=
    Nat.pos_of_ne_zero fun h => hmax ((s.bound_eq_zero_iff hoffered).1 h)
  obtain ⟨count, haccept, hpos, hle, hfits⟩ : ∃ count, s.accept written offered = .ok count ∧
      0 < count ∧ count ≤ s.bound offered ∧ ∀ n ∈ s.failAfter, written + count ≤ n := by
    rw [s.accept_eq]
    cases hn : s.failAfter with
    | none => exact ⟨s.bound offered, rfl, hbound, le_refl _, by simp⟩
    | some n =>
      rw [hafter, hn] at hfree
      have hlt : written < n :=
        Nat.lt_of_le_of_ne (hroom n (hafter.trans hn)) fun h => hfree (congrArg some h.symm)
      refine ⟨min (s.bound offered) (n - written), if_neg (Nat.not_le.2 hlt), by omega,
        Nat.min_le_left _ _, ?_⟩
      rintro m ⟨⟩
      omega
  obtain ⟨k, rfl⟩ := Nat.exists_eq_succ_of_ne_zero hpos.ne'
  have hoffer := s.bound_le offered
  refine ⟨k, by omega, haccept, ?_⟩
  rw [HasRoomFor, hafter]
  exact hfits

theorem Sink.room_of_accept {n : Nat} (hroom : s.HasRoomFor written) (hoffered : 0 < offered)
    (h : s.accept written offered = .ok (n + 1)) :
    n < offered ∧ s.HasRoomFor (written + (n + 1)) := by
  obtain ⟨k, hk, haccept, hnext⟩ :=
    Sink.accept_of_room hroom (fun hfull => Sink.accept_of_full hfull n h) hoffered
  cases h.symm.trans haccept
  exact ⟨hk, hnext⟩

/-! ## The sequence of calls -/

/-- **A writer comes to an end.** -/
theorem exists_calls (s : Sink) (written : Nat) (rest : Bytes) :
    ∃ calls, Calls s written rest calls := by
  by_cases hrest : rest = []
  · rw [hrest]
    exact ⟨_, .close written⟩
  · cases hanswer : s.accept written rest.length with
    | error e => exact ⟨_, .fails hrest hanswer rfl⟩
    | ok count =>
      cases count with
      | zero => exact ⟨_, .fails hrest hanswer rfl⟩
      | succ n =>
        have hpos := List.length_pos_of_ne_nil hrest
        obtain ⟨calls, h⟩ := exists_calls s (written + (n + 1)) (rest.drop (n + 1))
        exact ⟨_, .goesOn hrest hanswer h⟩
termination_by rest.length
decreasing_by
  rw [List.length_drop]
  omega

namespace Calls

/-- **The calls of a writer are determined.** -/
theorem unique (h : Calls s written rest calls) {calls' : List Call}
    (h' : Calls s written rest calls') : calls = calls' := by
  induction h generalizing calls' with
  | close written =>
    cases h' with
    | close => rfl
    | fails hrest => exact absurd rfl hrest
    | goesOn hrest => exact absurd rfl hrest
  | fails hrest hanswer hfail =>
    cases h' with
    | close => exact absurd rfl hrest
    | fails _ hanswer' _ => rw [← hanswer, ← hanswer']
    | goesOn _ hanswer' _ =>
      rw [← hanswer, hanswer'] at hfail
      cases hfail
  | goesOn hrest hanswer h ih =>
    cases h' with
    | close => exact absurd rfl hrest
    | fails _ hanswer' hfail =>
      rw [← hanswer', hanswer] at hfail
      cases hfail
    | goesOn _ hanswer' h' =>
      cases hanswer.symm.trans hanswer'
      rw [ih h']

/-- There are at most as many writes as octets. -/
theorem length_le (h : Calls s written rest calls) : calls.length ≤ rest.length + 1 := by
  induction h with
  | close written => exact le_refl _
  | fails hrest hanswer hfail => simp
  | goesOn hrest hanswer h ih =>
    have hpos := List.length_pos_of_ne_nil hrest
    rw [List.length_drop] at ih
    rw [List.length_cons]
    omega

end Calls

/-- How the calls of a writer end that has `rest` left, for a stream that has taken `written`
octets: the last call, if `taken` is what the stream takes before it. -/
inductive Ending (s : Sink) (written : Nat) (rest taken : Bytes) : Call → Prop
  | closing (htaken : taken = rest) (hroom : s.HasRoomFor (written + rest.length)) :
      Ending s written rest taken (.close s.closeFailure)
  | failing {offered : Bytes} {answer : Except StreamError Nat} {e : StreamError} {n : Nat}
      (hfail : (Call.write offered answer).failure? = some e) (hroom : s.room = some n)
      (hlt : n < written + rest.length) (htaken : taken = rest.take (n - written)) :
      Ending s written rest taken (.write offered answer)

/-- **How the calls end.**  Every call but the last is a write that takes something.  The last one
closes the stream if there is room for all that was left; otherwise it is a write that fails, and
what there is room for has been taken before it. -/
theorem Calls.exists_ending (h : Calls s written rest calls) (hroom : s.HasRoomFor written) :
    ∃ before last, calls = before ++ [last] ∧ (∀ call ∈ before, call.Takes) ∧
      Ending s written rest (before.flatMap Call.taken) last := by
  induction h with
  | close written => exact ⟨[], _, rfl, by simp, .closing rfl hroom⟩
  | @fails written rest answer e hrest hanswer hfail =>
    have hpos := List.length_pos_of_ne_nil hrest
    have hfull : s.room = some written := by
      by_contra hfree
      obtain ⟨k, -, haccept, -⟩ := Sink.accept_of_room hroom hfree hpos
      cases hanswer.symm.trans haccept
      cases hfail
    refine ⟨[], _, rfl, by simp, .failing hfail hfull (by omega) ?_⟩
    rw [Nat.sub_self, List.take_zero]
    rfl
  | @goesOn written n rest calls hrest hanswer h ih =>
    have hpos := List.length_pos_of_ne_nil hrest
    obtain ⟨hn, hnext⟩ := Sink.room_of_accept hroom hpos hanswer
    have hdrop := List.length_drop (i := n + 1) (l := rest)
    obtain ⟨before, last, rfl, hbefore, hending⟩ := ih hnext
    refine ⟨.write rest (.ok (n + 1)) :: before, last, rfl,
      List.forall_mem_cons.2 ⟨⟨_, _, rfl⟩, hbefore⟩, ?_⟩
    rw [List.flatMap_cons]
    cases hending with
    | closing htaken hend =>
      refine .closing ?_ ?_
      · rw [htaken]
        exact List.take_append_drop _ _
      · rwa [hdrop, show written + (n + 1) + (rest.length - (n + 1)) = written + rest.length by
          omega] at hend
    | @failing offered answer e m hfail hm hlt htaken =>
      have hle := hnext m hm
      refine .failing hfail hm (by omega) ?_
      rw [htaken, show m - written = (n + 1) + (m - (written + (n + 1))) by omega, List.take_add]
      rfl

/-! ## What a writer reports -/

/-- What a writer reports of its calls: the first failure, what the stream took, and whether it was
closed. -/
def Written.ofCalls (calls : List Call) : Written where
  result := match calls.findSome? Call.failure? with
    | some e => .error e
    | none => .ok ()
  taken := calls.flatMap Call.taken
  closed := calls.any Call.closes

/-- Writes that take something are reported by what they take. -/
theorem Written.ofCalls_append {before : List Call} (hbefore : ∀ call ∈ before, call.Takes)
    (calls : List Call) :
    Written.ofCalls (before ++ calls) =
      { Written.ofCalls calls with
        taken := before.flatMap Call.taken ++ (Written.ofCalls calls).taken } := by
  have hresult : before.findSome? Call.failure? = none :=
    List.findSome?_eq_none_iff.2 fun call hcall => (hbefore call hcall).failure?_eq
  have hclosed : before.any Call.closes = false :=
    List.any_eq_false.2 fun call hcall => by simp [(hbefore call hcall).closes_eq]
  simp only [Written.ofCalls, List.findSome?_append, hresult, Option.none_or, List.flatMap_append,
    List.any_append, hclosed, Bool.false_or]

theorem Written.ofCalls_close (failure : Option StreamError) :
    Written.ofCalls [.close failure] = ⟨failure.elim (.ok ()) .error, [], failure.isNone⟩ := by
  cases failure <;> rfl

theorem Written.ofCalls_write {offered : Bytes} {answer : Except StreamError Nat} {e : StreamError}
    (h : (Call.write offered answer).failure? = some e) :
    Written.ofCalls [.write offered answer] = ⟨.error e, [], false⟩ := by
  have htaken := Call.taken_of_failure h
  simp [Written.ofCalls, h, htaken, Call.closes]

/-- What a writer reports that has something left, with the pieces `done` before it. -/
theorem writeRest_of_calls (h : Calls s written rest calls) (hroom : s.HasRoomFor written)
    {size : Nat} (hsize : written + rest.length = size) (done : List Bytes) :
    writeRest s size written done rest =
      { Written.ofCalls calls with
        taken := done.reverse.flatten ++ (Written.ofCalls calls).taken } := by
  induction h generalizing done with
  | close written =>
    rw [writeRest]
    cases s.closeFailure <;>
      simp [Written.of, Written.ofCalls, Call.failure?, Call.taken, Call.closes]
  | @fails written rest answer e hrest hanswer hfail =>
    obtain ⟨b, more, rfl⟩ := List.exists_cons_of_ne_nil hrest
    have hoffered : size - written = (b :: more).length := by omega
    rw [writeRest, hoffered, hanswer]
    match answer with
    | .error e => simp [Written.of, Written.ofCalls, Call.failure?, Call.taken, Call.closes]
    | .ok 0 => simp [Written.of, Written.ofCalls, Call.failure?, Call.taken, Call.closes]
    | .ok (n + 1) => cases hfail
  | @goesOn written n rest calls hrest hanswer h ih =>
    obtain ⟨hn, hnext⟩ := Sink.room_of_accept hroom (List.length_pos_of_ne_nil hrest) hanswer
    obtain ⟨b, more, rfl⟩ := List.exists_cons_of_ne_nil hrest
    have hoffered : size - written = (b :: more).length := by omega
    have hsize' : written + (n + 1) + ((b :: more).drop (n + 1)).length = size := by
      rw [List.length_drop]
      omega
    have hrest' := ih hnext hsize' ((b :: more.take n) :: done)
    rw [List.drop_succ_cons] at hrest'
    have htakes : ∀ call ∈ [Call.write (b :: more) (.ok (n + 1))], call.Takes := by
      simp [Call.Takes]
    rw [writeRest, hoffered, hanswer, ← List.singleton_append, Written.ofCalls_append htakes]
    simp only [hrest']
    simp [Call.taken]

/-- **A writer reports what came of its calls.** -/
theorem write_of_calls (h : Calls s 0 f calls) : write s f = Written.ofCalls calls := by
  rw [write, writeRest_of_calls h s.hasRoomFor_zero (Nat.zero_add _) []]
  rfl

/-- **A stream takes a beginning of the frame and is closed only if it took all.**  A writer makes
one sequence of calls, with at most one for each octet and one more.  It reports success exactly if
the stream has taken the whole frame and has been closed, and the stream counts as closed exactly
then.  Every call but the last is a write that takes something, and what these took is all that the
stream has of the frame.  If the stream has room for the frame, it has taken all of it, and the last
call closes it; if that fails, its failure is reported.  If the frame is longer, the last call is a
write that fails, and its failure is reported; the stream has taken what it has room for, and it has
not been asked to close. -/
theorem write_closes_last (s : Sink) (f : Bytes) :
    (∃! calls, Calls s 0 f calls) ∧ ∀ calls, Calls s 0 f calls →
      calls.length ≤ f.length + 1 ∧ (write s f).taken <+: f ∧
      ((write s f).result = .ok () ↔ (write s f).taken = f ∧ .close none ∈ calls) ∧
      ((write s f).closed = true ↔ (write s f).result = .ok ()) ∧
      ∃ before last, calls = before ++ [last] ∧ (∀ call ∈ before, call.Takes) ∧
        (write s f).taken = before.flatMap Call.taken ∧
        ((last = .close s.closeFailure ∧ s.HasRoomFor f.length ∧ (write s f).taken = f ∧
            ∀ e, s.closeFailure = some e → (write s f).result = .error e) ∨
          ∃ offered answer e n, last = .write offered answer ∧ last.failure? = some e ∧
            (write s f).result = .error e ∧ s.room = some n ∧ n < f.length ∧
            (write s f).taken = f.take n ∧ ∀ failure, .close failure ∉ calls) := by
  obtain ⟨calls, hcalls⟩ := exists_calls s 0 f
  refine ⟨⟨calls, hcalls, fun calls' h' => h'.unique hcalls⟩, fun calls h => ?_⟩
  refine ⟨h.length_le, isPrefix_taken_write s f, ?_⟩
  obtain ⟨before, last, rfl, hbefore, hending⟩ := h.exists_ending s.hasRoomFor_zero
  have hnever : ∀ failure, Call.close failure ∉ before := fun failure hmem => by
    obtain ⟨offered, n, hcall⟩ := hbefore _ hmem
    cases hcall
  rw [write_of_calls h, Written.ofCalls_append hbefore]
  cases hending with
  | closing htaken hroom =>
    rw [Nat.zero_add] at hroom
    rw [Written.ofCalls_close, List.append_nil, htaken]
    refine ⟨?_, ?_, before, _, rfl, hbefore, htaken.symm, .inl ⟨rfl, hroom, rfl, ?_⟩⟩
    · cases s.closeFailure <;> simp [hnever]
    · cases s.closeFailure <;> simp
    · rintro e he
      rw [he]
      rfl
  | @failing offered answer e n hfail hroom hlt htaken =>
    rw [Nat.zero_add] at hlt
    rw [Nat.sub_zero] at htaken
    have hclose : ∀ failure, Call.close failure ∉ before ++ [Call.write offered answer] := by
      simp [hnever]
    rw [Written.ofCalls_write hfail, List.append_nil]
    refine ⟨?_, ?_, before, _, rfl, hbefore, rfl, .inr
      ⟨offered, answer, e, n, rfl, hfail, rfl, hroom, hlt, htaken, hclose⟩⟩
    · simp only [reduceCtorEq, false_iff, not_and]
      exact fun _ => hclose none
    · simp

/-- A frame of four octets for a stream that takes two in a write and fails after three, and for one
that fails after the fourth and cannot be closed. -/
theorem write_closes_last_torn :
    let gone : StreamError := ⟨.connectionReset, "gone"⟩
    let torn : Sink := { maxWrite := some 2, failAfter := some 3, failure := some gone }
    let whole : Sink := { failAfter := some 4, failure := some gone, closeFailure := some gone }
    let frame : Bytes := [104, 105, 33, 10]
    (Calls torn 0 frame [.write frame (.ok 2), .write [33, 10] (.ok 1), .write [10] (.error gone)] ∧
      (write torn frame).result = .error gone ∧ (write torn frame).taken = [104, 105, 33] ∧
      (write torn frame).closed = false) ∧
    Calls whole 0 frame [.write frame (.ok 4), .close (some gone)] ∧
      (write whole frame).result = .error gone ∧ (write whole frame).taken = frame ∧
      (write whole frame).closed = false := by
  intro gone torn whole frame
  have htorn : Calls torn 0 frame
      [.write frame (.ok 2), .write [33, 10] (.ok 1), .write [10] (.error gone)] :=
    .goesOn (by decide) rfl <| .goesOn (by decide) rfl <| .fails (by decide) rfl rfl
  have hwhole : Calls whole 0 frame [.write frame (.ok 4), .close (some gone)] :=
    .goesOn (by decide) rfl <| .close 4
  obtain ⟨-, -, -, hclosed, before, last, hcalls, -, -, hend⟩ :=
    (write_closes_last torn frame).2 _ htorn
  obtain ⟨-, -, -, hclosed', before', last', hcalls', -, -, hend'⟩ :=
    (write_closes_last whole frame).2 _ hwhole
  have hlast : Call.write [10] (.error gone) = last := by
    simpa using congrArg List.getLast? hcalls
  have hlast' : Call.close (some gone) = last' := by
    simpa using congrArg List.getLast? hcalls'
  refine ⟨⟨htorn, ?_⟩, hwhole, ?_⟩
  · obtain ⟨h, -⟩ | ⟨offered, answer, e, n, -, he, hresult, hn, -, htaken, -⟩ := hend
    · cases hlast.trans h
    · rw [← hlast] at he
      cases he
      cases hn
      exact ⟨hresult, htaken,
        Bool.eq_false_iff.2 fun h => nomatch hresult.symm.trans (hclosed.1 h)⟩
  · obtain ⟨-, -, htaken, hresult⟩ | ⟨offered, answer, e, n, h, -⟩ := hend'
    · exact ⟨hresult gone rfl, htaken,
        Bool.eq_false_iff.2 fun h => nomatch (hresult gone rfl).symm.trans (hclosed'.1 h)⟩
    · cases hlast'.trans h

end Frame
end PeerNode
