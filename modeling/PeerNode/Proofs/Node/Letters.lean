import PeerNode.Proofs.Exchange.Waiting
import PeerNode.Proofs.Frame.Wire
import PeerNode.Proofs.Node.Sound

/-!
# The direct messages of a node

The octets of a direct message arrive on a stream of their own, which a handler reads.  From its
first octet on it is decided whether they will become a message and which one (`letter`): the
handler reads its frame as soon as it acts, and then keeps the message until there is room for it.
So the messages that handlers are going to deliver (`Exchange.pending`) are added to when a stream
is accepted, and otherwise only move into the queue.

The order in which they do so depends on who acts first.  The law is therefore one of multisets:
what has entered the queue, together with what is pending, stays the same but for its order.

* `letter`: the message that the octets of a stream bring.
* `Exchange.pending`: the messages that handlers are going to deliver.
* `Sound.letters_settle`: settling loses and repeats none of them.
* `pending_handling`: accepting a stream adds its letter.
* `Exchange.waitingMessages`, `Sound.waitingMessages_eq`: in a calm node they are the messages of
  those who wait for room.
-/

namespace PeerNode

variable {x : Exchange} {n : Node} {spare : List Nat} {t : Task} {a : Act} {c : Nat}

/-- The message that octets bring which are sent on a stream of their own: what stands before
their first newline, if that is within reach of a reader. -/
def letter (sender : PeerName) (octets : Bytes) : List Message :=
  if Frame.terminator ∈ octets.take (Frame.limit + 1) then
    [.direct sender (octets.takeWhile (· != Frame.terminator))]
  else []

/-- The letter of a frame is the body of its payload. -/
theorem letter_frame {payload frame : Bytes} (h : Frame.ofPayload payload = .ok frame)
    (sender : PeerName) : letter sender frame = [.direct sender (Frame.body payload)] := by
  obtain ⟨hbody, rfl⟩ := Frame.open_body_of_ofPayload h
  have hlength : (Frame.body payload ++ [Frame.terminator]).length ≤ Frame.limit + 1 := by
    have hshort := hbody.short
    rw [List.length_append, List.length_singleton]
    omega
  have hinside : ∀ b ∈ Frame.body payload, (b != Frame.terminator) = true := fun b hb =>
    bne_iff_ne.2 fun he => hbody.unterminated (he ▸ hb)
  unfold letter
  rw [List.take_of_length_le hlength, if_pos (List.mem_append_right _ (List.mem_singleton_self _)),
    List.takeWhile_append_of_pos hinside, List.takeWhile_cons_of_neg (by simp), List.append_nil]

/-- The message that a handler is going to deliver. -/
def Handler.pending (h : Handler) : List Message :=
  match h.stage with
  | .enqueuing m => [m]
  | .stalled _ => []
  | .reading r _ _ =>
    match r.advance with
    | .body bs => [.direct h.sender bs]
    | .failed _ | .pausing .. | .silent => []

/-- The message that a handler is going to deliver to a channel; other tasks have none of their
own. -/
def Work.pending (c : Nat) : Work → List Message
  | .handle h => if h.target = c then h.pending else []
  | .send .. | .receive _ | .listen _ => []

namespace Exchange

/-- The messages that handlers are going to deliver to a channel. -/
def pending (x : Exchange) (c : Nat) : List Message := x.tasks.flatMap (·.work.pending c)

theorem pending_start (target : Nat) (sender : PeerName) (token : Token) (closes : Bool)
    {script : List ReadEvent} (hprompt : Frame.Prompt script) (wake deadline : Timer) :
    Handler.pending ⟨target, sender, token, closes, .reading (.start script) wake deadline⟩ =
      letter sender (Frame.heard script) := by
  rcases hprompt.advance with ⟨hnone, e, he⟩ | ⟨hframe, hbody⟩
  · rw [Frame.HasFrame] at hnone
    simp only [Handler.pending, he, letter, if_neg hnone]
  · rw [Frame.HasFrame] at hframe
    simp only [Handler.pending, hbody, letter, if_pos hframe, Frame.heardBody]

/-- **A handler's act moves its message or leaves it pending**, unless it is told to give up. -/
theorem Does.pending_handler (ha : x.Does t a) {h : Handler} (hw : t.work = .handle h)
    (hready : x.Ready) (ht : t ∈ x.tasks)
    (hwanted : (x.isCancelled h.token || !x.hasReceiver h.target) = false) :
    a.ins c ++ (a.after.rest t.id).flatMap (·.work.pending c) = t.work.pending c := by
  rcases ha.ready hw (hready t ht h hw) with
    ⟨script, wake, deadline, hst, ⟨⟨e, he⟩, rfl⟩ | ⟨hbody, rfl⟩⟩ | ⟨m, hst, ⟨hc, rfl⟩ | rfl⟩
  · simp [Act.ins, Act.after, After.rest, hw, Work.pending, Handler.pending, hst, he]
  · simp [Act.ins, Act.after, After.rest, hw, Work.pending, Handler.pending, Handler.offering, hst,
      hbody]
  · exact absurd (hc.symm.trans hwanted) Bool.false_ne_true.symm
  · simp [Act.ins, Act.after, After.rest, hw, Work.pending, Handler.pending, hst, inChannel]

end Exchange

namespace Node

namespace Sound

/-- **Whoever acts moves a direct message or leaves it pending.** -/
theorem pending_does (h : n.Sound spare) (hready : n.exchange.Ready) (hc : c ∈ n.directQueue)
    (ht : t ∈ n.exchange.tasks) (ha : n.exchange.Does t a) :
    a.ins c ++ (a.after.rest t.id).flatMap (·.work.pending c) = t.work.pending c := by
  have hemployed := h.employed t ht
  cases hw : t.work with
  | send | receive =>
    rw [hw] at hemployed
    exact False.elim hemployed
  | handle hd =>
    rw [hw] at hemployed
    rw [← hw]
    refine ha.pending_handler hw hready ht ?_
    rw [h.isCancelled, h.hasReceiver (mem_queues_of_direct hemployed)]
    rfl
  | listen l =>
    rw [hw] at hemployed
    have hins : a.ins c = [] := by
      by_contra hne
      have hheld := ha.holdsSender_of_ins hne
      obtain rfl : l.target = c := by simpa [hw, Work.holdsSender] using hheld
      exact (h.topic_notMem hemployed.1).2 hc
    rw [hins]
    cases hafter : a.after with
    | ends o => rfl
    | goesOn w =>
      have hpost := ha.atPost hafter
      rw [hw] at hpost
      cases hpost <;> rfl

/-- **An act loses no direct message and repeats none.** -/
theorem letters_perform (h : n.Sound spare) (hready : n.exchange.Ready) (hc : c ∈ n.directQueue)
    (ht : t ∈ n.exchange.tasks) (ha : n.exchange.Does t a) :
    ((n.exchange.perform t a).accepted c ++ (n.exchange.perform t a).pending c).Perm
      (n.exchange.accepted c ++ n.exchange.pending c) := by
  have hown := h.pending_does hready hc ht ha
  have hmove := ((List.perm_cons_erase ht).flatMap_right (·.work.pending c)).symm
  rw [List.flatMap_cons, ← hown] at hmove
  unfold Exchange.pending
  rw [(Exchange.flow_perform ha.feasible t c).accepted, Exchange.tasks_perform, List.flatMap_append,
    List.append_assoc]
  refine List.Perm.append_left _ (List.Perm.trans ?_ hmove)
  rw [List.append_assoc]
  exact List.Perm.append_left _ List.perm_append_comm

/-- **Settling loses no direct message and repeats none.** -/
theorem letters_settle (h : n.Sound spare) (hready : n.exchange.Ready) (hc : c ∈ n.directQueue) :
    (n.settle.exchange.accepted c ++ n.settle.exchange.pending c).Perm
      (n.exchange.accepted c ++ n.exchange.pending c) := by
  refine (h.settle_induction (P := fun y => y.Ready ∧ (y.accepted c ++ y.pending c).Perm
    (n.exchange.accepted c ++ n.exchange.pending c)) ⟨hready, .refl _⟩ ?_).2.2
  rintro y t a hs ⟨hy, hperm⟩ ht ha
  exact ⟨hy.perform ht ha, (hs.letters_perform hy hc ht ha).trans hperm⟩

/-- Accepting a stream adds its letter. -/
theorem pending_handling (n : Node) (d : DirectChannel) (sender : PeerName)
    {script : List ReadEvent} (hprompt : Frame.Prompt script) :
    (n.handling d sender script).exchange.pending d.queue =
      n.exchange.pending d.queue ++ letter sender (Frame.heard script) := by
  rw [← Exchange.pending_start d.queue sender token true hprompt (n.exchange.timer 0)
    (n.exchange.timer n.config.requestTimeout.toNat)]
  change (n.exchange.tasks ++ [_]).flatMap (fun t : Task => t.work.pending d.queue) = _
  rw [List.flatMap_append, List.flatMap_singleton]
  exact congrArg (n.exchange.pending d.queue ++ ·) (if_pos rfl)

theorem ready_handling (hready : n.exchange.Ready) (d : DirectChannel) (sender : PeerName)
    {script : List ReadEvent} (hprompt : Frame.Prompt script) :
    (n.handling d sender script).exchange.Ready := by
  intro t ht hd hw
  rcases List.mem_append.1 ht with ht | ht
  · exact hready t ht hd hw
  · obtain rfl := List.mem_singleton.1 ht
    obtain rfl := Work.handle.inj hw
    refine Or.inr ⟨script, _, _, rfl, hprompt, ?_⟩
    exact decide_eq_true (Nat.le_refl n.exchange.clock)

/-! ## Those who wait for room -/

/-- **Whoever waits in a calm node waits for a queue that is full.** -/
theorem length_buffer_of_pending (h : n.Sound spare) (hcalm : n.exchange.Calm)
    (hc : c ∈ n.directQueue) (hne : n.exchange.pending c ≠ []) :
    (n.exchange.buffer c).length = deliveryQueueCapacity := by
  obtain ⟨m, hm⟩ := List.exists_mem_of_ne_nil _ hne
  obtain ⟨t, ht, hmt⟩ := List.mem_flatMap.1 hm
  cases hw : t.work with
  | send | receive | listen => simp [hw, Work.pending] at hmt
  | handle hd =>
    have hroom := (hcalm.handler t ht hd hw).2
    obtain rfl : hd.target = c := by
      by_contra hne
      simp [hw, Work.pending, hne] at hmt
    obtain ⟨ch, hch, hcapacity, -⟩ := h.queue _ (mem_queues_of_direct hc)
    have hfits := h.fits _ ch hch
    simp only [Exchange.room, hch] at hroom
    simp only [Exchange.buffer, hch]
    omega

end Sound
end Node
end PeerNode
