import PeerNode.Exchange.Session
import Mathlib.Tactic.ByContra

/-!
# What flows through a channel

Whatever happens in an exchange, every channel obeys one law: the messages that waited in it and
those that come in are those that go out and the ones that wait then, in this order.  The law is
local --- it speaks of one change and of one channel --- and it composes, so that it holds of any
sequence of changes once it holds of each.

* `Flow`: the law for one change of an exchange, with what came in and what went out; the
  histories of the channel grow by just these messages.
* `Flow.refl`, `Flow.trans`: nothing flows, and one change after another.
* `flow_push`, `flow_pull`: the two changes by which a message moves.
* `flow_perform`: an act of a task.
* `flow_trySend`, `flow_offer`, `flow_tryReceive`, `flow_drain`: what is done from outside.
-/

namespace PeerNode

variable {x y z : Exchange} {c : Nat}

namespace Exchange

/-- A change of an exchange by which the messages `ins` enter a channel and `outs` leave it. -/
structure Flow (x y : Exchange) (c : Nat) (ins outs : List Message) : Prop where
  /-- Nothing is lost, nothing appears and nothing overtakes. -/
  conserved : x.buffer c ++ ins = outs ++ y.buffer c
  accepted : y.accepted c = x.accepted c ++ ins
  delivered : y.delivered c = x.delivered c ++ outs

namespace Flow

theorem refl (x : Exchange) (c : Nat) : Flow x x c [] [] := by
  constructor <;> simp

theorem trans {ins outs ins' outs' : List Message} (h : Flow x y c ins outs)
    (h' : Flow y z c ins' outs') : Flow x z c (ins ++ ins') (outs ++ outs') := by
  refine ⟨?_, ?_, ?_⟩
  · rw [← List.append_assoc, h.conserved, List.append_assoc, h'.conserved, List.append_assoc]
  · rw [h'.accepted, h.accepted, List.append_assoc]
  · rw [h'.delivered, h.delivered, List.append_assoc]

theorem trans_still {ins outs : List Message} (h : Flow x y c ins outs)
    (h' : Flow y z c [] []) : Flow x z c ins outs := by
  have := h.trans h'
  rwa [List.append_nil, List.append_nil] at this

theorem still_trans {ins outs : List Message} (h : Flow x y c [] [])
    (h' : Flow y z c ins outs) : Flow x z c ins outs := h.trans h'

end Flow

/-- The messages that have entered and left a channel depend on the journal alone, and those that
wait on the channels alone. -/
theorem flow_of_eq (hj : y.journal = x.journal) (hb : y.buffer c = x.buffer c) :
    Flow x y c [] [] := by
  constructor <;> simp [Exchange.accepted, Exchange.delivered, hj, hb]

/-! ## One message moves -/

theorem buffer_onChannel (x : Exchange) (c d : Nat) (f : Channel → Channel) :
    (x.onChannel d f).buffer c =
      if d = c then (match x.channels[c]? with
        | some channel => (f channel).buffer
        | none => []) else x.buffer c := by
  simp only [buffer, onChannel, List.getElem?_modify]
  by_cases h : d = c
  · subst h
    cases x.channels[d]? <;> simp
  · cases x.channels[c]? <;> simp [h]

/-- Those of the messages that move at the end of channel `d` that move at the end of `c`. -/
def inChannel (c d : Nat) (ms : List Message) : List Message := if d = c then ms else []

@[simp] theorem inChannel_self (c : Nat) (ms : List Message) : inChannel c c ms = ms :=
  if_pos rfl

@[simp] theorem inChannel_nil (c d : Nat) : inChannel c d [] = [] := ite_self _

theorem inChannel_append (c d : Nat) (ms ms' : List Message) :
    inChannel c d (ms ++ ms') = inChannel c d ms ++ inChannel c d ms' := by
  by_cases h : d = c <;> simp [inChannel, h]

theorem eq_of_inChannel_ne_nil {c d : Nat} {ms : List Message} (h : inChannel c d ms ≠ []) :
    d = c := by
  by_contra hne
  exact h (if_neg hne)

/-- What moves at the end of `c` may be told by `c`. -/
theorem inChannel_congr (f : Nat → List Message) (c d : Nat) :
    inChannel c d (f d) = inChannel c d (f c) := by
  by_cases h : d = c
  · rw [h]
  · rw [inChannel, inChannel, if_neg h, if_neg h]

theorem lt_length_of_room_pos {d : Nat} (h : 0 < x.room d) : d < x.channels.length := by
  unfold room at h
  cases hc : x.channels[d]? with
  | none => simp [hc] at h
  | some channel => exact (List.getElem?_eq_some_iff.1 hc).1

theorem flow_push {d : Nat} (hroom : 0 < x.room d) (m : Message) (c : Nat) :
    Flow x (x.push d m) c (inChannel c d [m]) [] := by
  have hd := lt_length_of_room_pos hroom
  refine ⟨?_, ?_, ?_⟩
  · change x.buffer c ++ _ = [] ++ (x.onChannel d _).buffer c
    rw [buffer_onChannel]
    by_cases h : d = c
    · subst h
      simp [inChannel, buffer, hd]
    · simp [inChannel, h]
  · by_cases h : d = c <;>
      simp [Exchange.accepted, push, record, onChannel, inChannel, h, List.filterMap_append]
  · simp [Exchange.delivered, push, record, onChannel, List.filterMap_append]

theorem flow_pull {d : Nat} {m : Message} {ms : List Message} (hb : x.buffer d = m :: ms)
    (c : Nat) : Flow x (x.pull d m) c [] (inChannel c d [m]) := by
  refine ⟨?_, ?_, ?_⟩
  · change x.buffer c ++ [] = _ ++ (x.onChannel d _).buffer c
    rw [buffer_onChannel]
    by_cases h : d = c
    · subst h
      unfold buffer at hb ⊢
      cases hc : x.channels[d]? with
      | none => simp [hc] at hb
      | some channel =>
        simp only [hc] at hb
        simp [inChannel, hb]
    · simp [inChannel, h]
  · simp [Exchange.accepted, pull, record, onChannel, List.filterMap_append]
  · by_cases h : d = c <;>
      simp [Exchange.delivered, pull, record, onChannel, inChannel, h, List.filterMap_append]

/-! ## A task acts -/

theorem flow_conclude (x : Exchange) (id : Nat) (after : After) (c : Nat) :
    Flow x (x.conclude id after) c [] [] := by
  cases after with
  | goesOn w => exact flow_of_eq rfl rfl
  | ends o =>
    refine ⟨?_, ?_, ?_⟩
    · simp [conclude, record, buffer]
    · simp [Exchange.accepted, conclude, record, List.filterMap_append]
    · simp [Exchange.delivered, conclude, record, List.filterMap_append]

end Exchange

/-- The messages that an act puts into a channel. -/
def Act.ins (c : Nat) : Act → List Message
  | .push d m _ => Exchange.inChannel c d [m]
  | _ => []

/-- The messages that an act takes out of a channel. -/
def Act.outs (c : Nat) : Act → List Message
  | .pull d m _ => Exchange.inChannel c d [m]
  | _ => []

namespace Exchange

/-- An act can be carried out: there is room for what it puts into a channel, and what it takes is
the first message there. -/
def Feasible (x : Exchange) : Act → Prop
  | .alone _ => True
  | .push d _ _ => 0 < x.room d
  | .pull d m _ => ∃ ms, x.buffer d = m :: ms

/-- **An act moves what it says.** -/
theorem flow_perform {a : Act} (ha : x.Feasible a) (t : Task) (c : Nat) :
    Flow x (x.perform t a) c (a.ins c) (a.outs c) := by
  have hstill : Flow x (x.without t).tick c [] [] := flow_of_eq rfl rfl
  cases a with
  | alone after => exact hstill.trans_still (flow_conclude _ _ _ _)
  | push d m after =>
    have hpush := flow_push (x := (x.without t).tick) ha m c
    exact (hstill.still_trans hpush).trans_still (flow_conclude _ _ _ _)
  | pull d m after =>
    obtain ⟨ms, hms⟩ := ha
    have hpull := flow_pull (x := (x.without t).tick) hms c
    exact (hstill.still_trans hpull).trans_still (flow_conclude _ _ _ _)

/-! ## What is done from outside -/

/-- For how many more messages a channel has room that no task waits for. -/
def free (x : Exchange) (c : Nat) : Nat := x.room c - (x.waitingSenders c).length

/-- **What becomes of a message that is to be put into a channel at once.** -/
theorem trySend_cases (x : Exchange) (d : Nat) (m : Message) :
    (x.hasReceiver d = false ∧ x.trySend d m = (x, .closed)) ∨
    (x.hasReceiver d = true ∧ 0 < x.free d ∧ x.trySend d m = (x.push d m, .ok)) ∨
    (x.hasReceiver d = true ∧ x.free d = 0 ∧ x.trySend d m = (x, .full)) := by
  cases hr : x.hasReceiver d with
  | false => exact Or.inl ⟨rfl, by simp [trySend, hr]⟩
  | true =>
    by_cases hf : (x.waitingSenders d).length < x.room d
    · exact Or.inr (Or.inl ⟨rfl, by unfold free; omega, by simp [trySend, hr, hf]⟩)
    · exact Or.inr (Or.inr ⟨rfl, by unfold free; omega, by simp [trySend, hr, hf]⟩)

theorem room_pos_of_free_pos {d : Nat} (h : 0 < x.free d) : 0 < x.room d := by
  unfold free at h
  omega

theorem flow_trySend (x : Exchange) (d : Nat) (m : Message) (c : Nat) :
    Flow x (x.trySend d m).1 c
      (if (x.trySend d m).2 = .ok then inChannel c d [m] else []) [] := by
  rcases trySend_cases x d m with ⟨-, h⟩ | ⟨-, hf, h⟩ | ⟨-, -, h⟩
  · rw [h]
    exact Flow.refl x c
  · rw [h]
    exact flow_push (room_pos_of_free_pos hf) m c
  · rw [h]
    exact Flow.refl x c

theorem offer_eq (x : Exchange) (d : Nat) (m : Message) :
    x.offer d m = ((x.trySend d m).1, x.hasReceiver d) := by
  unfold offer
  rcases trySend_cases x d m with ⟨hr, h⟩ | ⟨hr, -, h⟩ | ⟨hr, -, h⟩ <;> rw [h, hr]

/-- An offer puts its message in if there is free room for it and somebody to take it. -/
theorem flow_offer (x : Exchange) (d : Nat) (m : Message) (c : Nat) :
    Flow x (x.offer d m).1 c
      (inChannel c d (if x.hasReceiver d then [m].take (x.free d) else [])) [] := by
  rw [offer_eq]
  rcases trySend_cases x d m with ⟨hr, h⟩ | ⟨hr, hf, h⟩ | ⟨hr, hf, h⟩
  · rw [h, hr, if_neg Bool.false_ne_true, inChannel_nil]
    exact Flow.refl x c
  · rw [h, hr, if_pos rfl, List.take_of_length_le hf]
    exact flow_push (room_pos_of_free_pos hf) m c
  · rw [h, hr, if_pos rfl, hf, List.take_zero, inChannel_nil]
    exact Flow.refl x c

/-- **What a consumer finds that does not wait.** -/
theorem tryReceive_cases (x : Exchange) (d : Nat) :
    (∃ m ms, x.buffer d = m :: ms ∧ x.tryReceive d = (x.pull d m, .message m)) ∨
    (∃ f, (∀ m, f ≠ .message m) ∧ x.tryReceive d = (x, f)) := by
  unfold tryReceive
  split
  · exact Or.inr ⟨_, by simp, rfl⟩
  · split
    · rename_i m ms hb
      exact Or.inl ⟨m, ms, hb, rfl⟩
    · refine Or.inr ⟨_, ?_, rfl⟩
      intro m
      split <;> simp

theorem tryReceive_nothing {x : Exchange} {d : Nat} (h : (x.tryReceive d).2 = .nothing) :
    x.tryReceive d = (x, .nothing) := by
  rcases tryReceive_cases x d with ⟨m, ms, -, he⟩ | ⟨f, -, he⟩
  · rw [he] at h
    cases h
  · rw [he] at h ⊢
    exact congrArg (Prod.mk x) h

end Exchange

/-- The messages that a consumer has found. -/
def Found.messages : Found → List Message
  | message m => [m]
  | nothing | closed => []

namespace Exchange

theorem flow_tryReceive (x : Exchange) (d c : Nat) :
    Flow x (x.tryReceive d).1 c [] (inChannel c d (x.tryReceive d).2.messages) := by
  rcases tryReceive_cases x d with ⟨m, ms, hb, h⟩ | ⟨f, hf, h⟩
  · rw [h]
    exact flow_pull hb c
  · have hnone : f.messages = [] := by
      cases f with
      | message m => exact absurd rfl (hf m)
      | nothing => rfl
      | closed => rfl
    rw [h]
    simp only [hnone, inChannel_nil]
    exact Flow.refl x c

theorem flow_drainFrom (x : Exchange) (d fuel c : Nat) :
    Flow x (x.drainFrom d fuel).1 c [] (inChannel c d (x.drainFrom d fuel).2.1) := by
  induction fuel generalizing x with
  | zero =>
    simp only [drainFrom, inChannel_nil]
    exact Flow.refl x c
  | succ fuel ih =>
    unfold drainFrom
    rcases tryReceive_cases x d with ⟨m, ms, hb, h⟩ | ⟨f, hf, h⟩
    · rw [h]
      simp only
      rw [show m :: ((x.pull d m).drainFrom d fuel).2.1 =
        [m] ++ ((x.pull d m).drainFrom d fuel).2.1 from rfl, inChannel_append]
      exact (flow_pull hb c).trans (ih (x.pull d m))
    · rw [h]
      cases f with
      | message m => exact absurd rfl (hf m)
      | nothing =>
        simp only [inChannel_nil]
        exact Flow.refl x c
      | closed =>
        simp only [inChannel_nil]
        exact Flow.refl x c

theorem flow_drain (x : Exchange) (d c : Nat) :
    Flow x (x.drain d).1 c [] (inChannel c d (x.drain d).2.1) :=
  flow_drainFrom x d _ c

theorem flow_abort (x : Exchange) (id c : Nat) : Flow x (x.abort id) c [] [] := by
  unfold abort
  split
  · rename_i t _
    exact Flow.trans_still (y := x.without t) (flow_of_eq rfl rfl) (flow_conclude _ _ _ _)
  · exact Flow.refl x c

theorem flow_onChannel (x : Exchange) (d : Nat) (f : Channel → Channel)
    (hf : ∀ ch, (f ch).buffer = ch.buffer) (c : Nat) : Flow x (x.onChannel d f) c [] [] := by
  refine flow_of_eq rfl ?_
  rw [buffer_onChannel]
  split
  · cases hc : x.channels[c]? <;> simp [buffer, hc, hf]
  · rfl

theorem flow_addChannel (x : Exchange) (capacity senders inboxes c : Nat) :
    Flow x (x.addChannel capacity senders inboxes).1 c [] [] := by
  refine flow_of_eq rfl ?_
  simp only [addChannel, buffer, List.getElem?_append]
  by_cases hlt : c < x.channels.length
  · rw [if_pos hlt]
  · rw [if_neg hlt, List.getElem?_eq_none (Nat.le_of_not_lt hlt)]
    cases c - x.channels.length with
    | zero => rfl
    | succ k => rfl

/-! ## Many messages at once -/

theorem hasReceiver_push (x : Exchange) (d c : Nat) (m : Message) :
    (x.push d m).hasReceiver c = x.hasReceiver c := by
  simp only [hasReceiver, push, record, onChannel, List.getElem?_modify]
  cases x.channels[c]? with
  | none => rfl
  | some ch => by_cases h : d = c <;> simp [h]

/-- A message that has been put into a channel takes one place of the free room. -/
theorem free_push (x : Exchange) (d : Nat) (m : Message) :
    (x.push d m).free d = x.free d - 1 := by
  have hroom : (x.push d m).room d = x.room d - 1 := by
    simp only [room, push, record, onChannel, List.getElem?_modify]
    cases x.channels[d]? with
    | none => rfl
    | some ch =>
      simp only [Option.map_eq_map, Option.map_some, if_true, List.length_append,
        List.length_singleton]
      omega
  unfold free
  rw [hroom]
  simp only [waitingSenders, push, record, onChannel]
  omega

/-- **Sending in a row puts in what it counts.** -/
theorem flow_sendAll (x : Exchange) (d count c : Nat) (last : Option (SendResult ⊕ Bool))
    (ms : List Message) :
    count ≤ (Session.sendAll x d count last ms).2.1 ∧
      Flow x (Session.sendAll x d count last ms).1 c
        (inChannel c d (ms.take ((Session.sendAll x d count last ms).2.1 - count))) [] := by
  induction ms generalizing x count last with
  | nil =>
    simp only [Session.sendAll, List.take_nil, inChannel_nil]
    exact ⟨Nat.le_refl _, Flow.refl x c⟩
  | cons m ms ih =>
    unfold Session.sendAll
    rcases trySend_cases x d m with ⟨-, h⟩ | ⟨-, hf, h⟩ | ⟨-, -, h⟩
    · simp only [h, Nat.sub_self, List.take_zero, inChannel_nil]
      exact ⟨Nat.le_refl _, Flow.refl x c⟩
    · simp only [h]
      obtain ⟨hle, hflow⟩ := ih (x.push d m) (count + 1) (some (.inl .ok))
      generalize Session.sendAll (x.push d m) d (count + 1) (some (.inl .ok)) ms = r
        at hle hflow ⊢
      refine ⟨by omega, ?_⟩
      rw [show r.2.1 - count = (r.2.1 - (count + 1)) + 1 by omega, List.take_succ_cons]
      have := (flow_push (room_pos_of_free_pos hf) m c).trans hflow
      rwa [← inChannel_append] at this
    · simp only [h, Nat.sub_self, List.take_zero, inChannel_nil]
      exact ⟨Nat.le_refl _, Flow.refl x c⟩

/-- **Offering in a row puts in as many messages as there is free room for**, if anybody holds the
receiving end, and counts them all. -/
theorem flow_offerAll (x : Exchange) (d count c : Nat) (last : Option (SendResult ⊕ Bool))
    (ms : List Message) :
    (Session.offerAll x d count last ms).2.1 =
        count + (if x.hasReceiver d then ms.length else 0) ∧
      Flow x (Session.offerAll x d count last ms).1 c
        (inChannel c d (if x.hasReceiver d then ms.take (x.free d) else [])) [] := by
  induction ms generalizing x count last with
  | nil =>
    simp only [Session.offerAll, List.take_nil, List.length_nil, ite_self, inChannel_nil]
    exact ⟨rfl, Flow.refl x c⟩
  | cons m ms ih =>
    unfold Session.offerAll
    simp only [offer_eq]
    rcases trySend_cases x d m with ⟨hr, h⟩ | ⟨hr, hf, h⟩ | ⟨hr, hf, h⟩
    · rw [h]
      have := ih x count (some (.inr (x.hasReceiver d)))
      simpa [hr] using this
    · rw [h]
      obtain ⟨hcount, hflow⟩ := ih (x.push d m) (count + 1) (some (.inr (x.hasReceiver d)))
      rw [hasReceiver_push, hr, free_push] at hflow
      rw [hasReceiver_push, hr] at hcount
      simp only [hr, if_true] at hcount hflow ⊢
      refine ⟨by rw [hcount, List.length_cons]; omega, ?_⟩
      rw [show x.free d = (x.free d - 1) + 1 by omega, List.take_succ_cons]
      have := (flow_push (room_pos_of_free_pos hf) m c).trans hflow
      rwa [← inChannel_append] at this
    · rw [h]
      have := ih x (count + 1) (some (.inr (x.hasReceiver d)))
      simp only [hr, hf, if_true, List.take_zero, inChannel_nil] at this ⊢
      refine ⟨by rw [this.1, List.length_cons]; omega, this.2⟩

end Exchange
end PeerNode
