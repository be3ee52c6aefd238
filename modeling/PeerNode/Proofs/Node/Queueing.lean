import PeerNode.Proofs.Exchange.Alongside
import PeerNode.Proofs.Exchange.Turns
import PeerNode.Proofs.Node.Letters

/-!
# The order of direct messages

Which handler acts first is not for the handlers to say, so in general their messages keep no order.
But a node settles after every stream that it accepts and after every message that is taken.  Then
at most one handler is still reading, the last one; and there is room for more than one message only
if there are not two who wait for it.  In such an exchange (`Orderly`) whoever acts is the one whose
turn it is, and the messages in the queue, followed by those that are pending, stay the same list
(`Sound.line_settle`).  When all have settled it is divided where the queue is full, so two nodes
with the same list have the same queue again (`Sound.sameLine_settle`).

* `Exchange.handlers`: the handlers that fill a channel, in order.
* `Orderly`: when they keep their order; `orderly_of_room_le`, `orderly_handling`: when that is so.
* `Sound.line_perform`, `Sound.line_settle`: an act keeps the list, and so does settling.
* `Sound.line_split`: how it is divided then.
* `Exchange.SameLine`, `Sound.sameLine_settle`: two nodes with the same list.
-/

namespace PeerNode

variable {x y z : Exchange} {n m : Node} {spare : List Nat} {t : Task} {a : Act} {c : Nat}
  {h : Handler}

/-! ## The handlers of a channel -/

/-- The handler that fills a channel, if this is its work. -/
def Work.handler? (c : Nat) : Work → Option Handler
  | handle h => if h.target = c then some h else none
  | send .. | receive _ | listen _ => none

theorem Work.handler?_eq_some_iff {w : Work} :
    w.handler? c = some h ↔ w = .handle h ∧ h.target = c := by
  cases w with
  | handle h' =>
    simp only [handler?, handle.injEq]
    split
    · rename_i hc
      rw [Option.some.injEq]
      exact ⟨fun he => ⟨he, he ▸ hc⟩, fun he => he.1⟩
    · rename_i hc
      exact ⟨nofun, fun he => absurd (he.1 ▸ he.2) hc⟩
  | send | receive | listen => simp [handler?]

theorem Work.pending_eq (c : Nat) (w : Work) :
    w.pending c = (w.handler? c).toList.flatMap Handler.pending := by
  cases w with
  | handle h' =>
    simp only [pending, handler?]
    split <;> simp
  | send | receive | listen => rfl

namespace Exchange

/-- The handlers that fill a channel, in the order in which they last acted. -/
def handlers (x : Exchange) (c : Nat) : List Handler := x.tasks.filterMap (·.work.handler? c)

theorem mem_handlers : h ∈ x.handlers c ↔ ∃ t ∈ x.tasks, t.work = .handle h ∧ h.target = c := by
  simp only [handlers, List.mem_filterMap, Work.handler?_eq_some_iff]

theorem pending_eq (x : Exchange) (c : Nat) :
    x.pending c = (x.handlers c).flatMap Handler.pending := by
  unfold pending handlers
  induction x.tasks with
  | nil => rfl
  | cons t ts ih =>
    rw [List.flatMap_cons, ih, Work.pending_eq, List.filterMap_cons]
    cases t.work.handler? c <;> simp

/-- What becomes of the handlers when a task acts that is none of them. -/
theorem Does.handlers_of_ne (ha : x.Does t a) (ht : t ∈ x.tasks)
    (hne : t.work.handler? c = none) : (x.perform t a).handlers c = x.handlers c := by
  obtain ⟨ts, us, -, hsplit, herase⟩ := List.exists_erase_eq ht
  have hrest : (a.after.rest t.id).filterMap (·.work.handler? c) = [] := by
    cases hafter : a.after with
    | ends o => rfl
    | goesOn w =>
      have hpost := ha.atPost hafter
      have hw : w.handler? c = none := by
        cases hw : w.handler? c with
        | none => rfl
        | some h' =>
          obtain ⟨rfl, rfl⟩ := Work.handler?_eq_some_iff.1 hw
          obtain ⟨h₀, hw₀, htarget, -⟩ := hpost.of_handle
          rw [hw₀, Work.handler?, if_pos htarget.symm] at hne
          cases hne
      simp [After.rest, hw]
  rw [handlers, tasks_perform, herase, List.filterMap_append, hrest, List.append_nil, handlers,
    hsplit, List.filterMap_append, List.filterMap_append, List.filterMap_cons, hne]

/-- What becomes of the handlers when one of them acts: it goes behind the others, or is gone. -/
theorem handlers_perform (ht : t ∈ x.tasks) (hw : t.work = .handle h) (hc : h.target = c)
    (a : Act) :
    ∃ hs hs', x.handlers c = hs ++ h :: hs' ∧
      (x.perform t a).handlers c =
        hs ++ hs' ++ (a.after.rest t.id).filterMap (·.work.handler? c) ∧
      ((x.waitingSenders c).takeWhile (·.id != t.id) = [] → (x.tasks.map (·.id)).Nodup →
        ∀ h' ∈ hs, ∀ m, h'.stage ≠ .enqueuing m) := by
  obtain ⟨ts, us, -, hsplit, herase⟩ := List.exists_erase_eq ht
  have hown : t.work.handler? c = some h := Work.handler?_eq_some_iff.2 ⟨hw, hc⟩
  refine ⟨ts.filterMap (·.work.handler? c), us.filterMap (·.work.handler? c), ?_, ?_, ?_⟩
  · rw [handlers, hsplit, List.filterMap_append, List.filterMap_cons, hown]
  · rw [handlers, tasks_perform, herase, List.filterMap_append, List.filterMap_append]
  · intro hfirst hnodup h' hh' m hst
    obtain ⟨u, hu, hw'⟩ := List.mem_filterMap.1 hh'
    obtain ⟨hwork, htarget⟩ := Work.handler?_eq_some_iff.1 hw'
    have hwants : u.work.wantsRoom c = true :=
      Work.wantsRoom_iff.2 (Or.inr (Or.inr ⟨h', m, hwork, htarget, hst⟩))
    -- whoever stands before the one who acts is counted by `takeWhile`
    have hne : ∀ v ∈ ts, (v.id != t.id) = true := by
      intro v hv
      rw [hsplit, List.map_append, List.map_cons, List.nodup_append] at hnodup
      exact bne_iff_ne.2 (hnodup.2.2 v.id (List.mem_map_of_mem hv) t.id List.mem_cons_self)
    rw [waitingSenders, hsplit, List.filter_append, List.takeWhile_append_of_pos
      (fun v hv => hne v (List.mem_of_mem_filter hv)), List.append_eq_nil_iff] at hfirst
    have hmem : u ∈ ts.filter (·.work.wantsRoom c) := List.mem_filter.2 ⟨hu, hwants⟩
    rw [hfirst.1] at hmem
    cases hmem

end Exchange

/-! ## Handlers that keep their order -/

/-- A handler that has read its message. -/
def Handler.Waits (h : Handler) : Prop := ∃ m, h.stage = .enqueuing m

/-- Handlers that keep their order in a queue with so much room. -/
inductive Orderly (room : Nat) : List Handler → Prop
  /-- All wait, and there is room for one of them or only one. -/
  | waiting {hs : List Handler} (hall : ∀ h ∈ hs, h.Waits) (hroom : room ≤ 1 ∨ hs.length ≤ 1) :
      Orderly room hs
  /-- The last one reads, and there is no room or nobody else. -/
  | reading {hs : List Handler} {h : Handler} (hall : ∀ h ∈ hs, h.Waits) (hreads : ¬ h.Waits)
      (hroom : room = 0 ∨ hs = []) : Orderly room (hs ++ [h])

/-- Whoever reads is the last. -/
theorem Orderly.of_reading {room : Nat} {hs hs' : List Handler} (ho : Orderly room (hs ++ h :: hs'))
    (hreads : ¬ h.Waits) : hs' = [] ∧ (∀ h ∈ hs, h.Waits) ∧ (room = 0 ∨ hs = []) := by
  generalize hall : hs ++ h :: hs' = all at ho
  cases ho with
  | waiting hwaits =>
    exact absurd (hwaits h (hall ▸ List.mem_append_right _ List.mem_cons_self)) hreads
  | @reading ks k hwaits hk hroom =>
    rcases List.eq_nil_or_concat hs' with rfl | ⟨ls, l, rfl⟩
    · obtain ⟨rfl, -⟩ := List.append_inj' hall rfl
      exact ⟨rfl, hwaits, hroom⟩
    · rw [List.concat_eq_append, ← List.cons_append, ← List.append_assoc] at hall
      obtain ⟨rfl, -⟩ := List.append_inj' hall rfl
      exact absurd (hwaits h (List.mem_append_right _ List.mem_cons_self)) hreads

/-- Whoever waits where there is room waits among others that wait, and there is room for one of
them or only one. -/
theorem Orderly.of_waiting {room : Nat} {hs hs' : List Handler} (ho : Orderly room (hs ++ h :: hs'))
    (hwaits : h.Waits) (hpos : 0 < room) :
    (∀ k ∈ hs ++ h :: hs', k.Waits) ∧ (room ≤ 1 ∨ hs = [] ∧ hs' = []) := by
  generalize hall : hs ++ h :: hs' = all at ho
  cases ho with
  | waiting hwaits' hroom =>
    refine ⟨hwaits', hroom.imp_right fun hlen => ?_⟩
    subst hall
    simp only [List.length_append, List.length_cons] at hlen
    exact ⟨List.eq_nil_of_length_eq_zero (by omega), List.eq_nil_of_length_eq_zero (by omega)⟩
  | @reading ks k hwaits' hk hroom =>
    rcases hroom with hroom | rfl
    · omega
    · rw [List.nil_append, List.append_eq_singleton_iff] at hall
      rcases hall with ⟨-, he⟩ | ⟨-, he⟩
      · rw [List.cons.injEq] at he
        exact absurd (he.1 ▸ hwaits) hk
      · cases he

theorem Orderly.without {room : Nat} {hs hs' : List Handler} (ho : Orderly room (hs ++ h :: hs'))
    (hreads : ¬ h.Waits) : Orderly room (hs ++ hs') := by
  obtain ⟨rfl, hall, hroom⟩ := ho.of_reading hreads
  rw [List.append_nil]
  refine .waiting hall (hroom.imp (fun hzero => Nat.le_succ_of_le (Nat.le_of_eq hzero)) ?_)
  rintro rfl
  exact Nat.zero_le 1

/-- When the one who reads has done so, all wait. -/
theorem Orderly.with {room : Nat} {hs hs' : List Handler} (ho : Orderly room (hs ++ h :: hs'))
    (hreads : ¬ h.Waits) {h' : Handler} (hwaits : h'.Waits) :
    hs' = [] ∧ Orderly room (hs ++ hs' ++ [h']) := by
  obtain ⟨rfl, hall, hroom⟩ := ho.of_reading hreads
  refine ⟨rfl, .waiting ?_ (hroom.imp (fun hzero => Nat.le_succ_of_le (Nat.le_of_eq hzero)) ?_)⟩
  · intro k hk
    rw [List.append_nil, List.mem_append, List.mem_singleton] at hk
    rcases hk with hk | rfl
    · exact hall k hk
    · exact hwaits
  · rintro rfl
    exact Nat.le_refl 1

theorem Act.upon_push_self (c : Nat) (m : Message) (after : After) (ch : Channel) :
    (Act.push c m after).upon c ch = { ch with buffer := ch.buffer ++ [m] } := if_pos rfl

namespace Exchange

theorem room_perform_push (x : Exchange) (t : Task) (c : Nat) (m : Message) (after : After) :
    (x.perform t (.push c m after)).room c = x.room c - 1 := by
  simp only [room, getElem_perform]
  cases x.channels[c]? with
  | none => rfl
  | some ch =>
    simp only [Option.map_some, Act.upon_push_self, List.length_append, List.length_singleton]
    omega

theorem buffer_perform_push (t : Task) (m : Message) (after : After) (hroom : 0 < x.room c) :
    (x.perform t (.push c m after)).buffer c = x.buffer c ++ [m] := by
  have hlt := lt_length_of_room_pos hroom
  simp only [buffer, getElem_perform, List.getElem?_eq_getElem hlt, Option.map_some,
    Act.upon_push_self]

end Exchange

namespace Node
namespace Sound

/-- Who fills the queue of direct messages is a handler. -/
theorem handler?_of_holdsSender (hn : n.Sound spare) (hc : c ∈ n.directQueue)
    (ht : t ∈ n.exchange.tasks) (hheld : t.work.holdsSender c = true) :
    t.work.handler? c ≠ none := by
  have hemployed := hn.employed t ht
  cases hw : t.work with
  | send | receive =>
    rw [hw] at hemployed
    exact False.elim hemployed
  | listen l =>
    rw [hw] at hemployed
    obtain rfl : l.target = c := by simpa [hw, Work.holdsSender] using hheld
    exact absurd hc (hn.topic_notMem hemployed.1).2
  | handle hd =>
    obtain rfl : hd.target = c := by simpa [hw, Work.holdsSender] using hheld
    simp [Work.handler?]

/-- **Whoever acts keeps the handlers in order**, and the messages that are there or pending. -/
theorem line_perform (hn : n.Sound spare) (hready : n.exchange.Ready) (hc : c ∈ n.directQueue)
    (ho : Orderly (n.exchange.room c) (n.exchange.handlers c)) (ht : t ∈ n.exchange.tasks)
    (ha : n.exchange.Does t a) :
    Orderly ((n.exchange.perform t a).room c) ((n.exchange.perform t a).handlers c) ∧
      (n.exchange.perform t a).buffer c ++ (n.exchange.perform t a).pending c =
        n.exchange.buffer c ++ n.exchange.pending c := by
  have houts : a.outs c = [] := by
    by_contra hne
    exact Bool.false_ne_true ((hn.unread t ht c (mem_queues_of_direct hc)).symm.trans
      (ha.holdsReceiver_of_outs hne))
  have hstill : a.ins c = [] → (n.exchange.perform t a).channels[c]? = n.exchange.channels[c]? :=
    fun hins => n.exchange.getElem_perform_of_still t hins houts
  simp only [Exchange.pending_eq]
  cases hown : t.work.handler? c with
  | none =>
    have hins : a.ins c = [] := by
      by_contra hne
      exact hn.handler?_of_holdsSender hc ht (ha.holdsSender_of_ins hne) hown
    rw [ha.handlers_of_ne ht hown, Exchange.room_congr (hstill hins),
      Exchange.buffer_congr (hstill hins)]
    exact ⟨ho, rfl⟩
  | some hd =>
    obtain ⟨hw, htarget⟩ := Work.handler?_eq_some_iff.1 hown
    obtain ⟨hs, hs', hbefore, hafter, hfirst⟩ := Exchange.handlers_perform ht hw htarget a
    rw [hbefore] at ho
    rw [hafter, hbefore]
    rcases ha.ready hw (hready t ht hd hw) with
      ⟨script, wake, deadline, hst, ⟨⟨e, he⟩, rfl⟩ | ⟨hbody, rfl⟩⟩ | ⟨m, hst, ⟨hgone, rfl⟩ | rfl⟩
    · -- it fails to read its message, of which there was none
      have hreads : ¬ hd.Waits := fun ⟨m, hm⟩ => by cases hst.symm.trans hm
      have hnone : hd.pending = [] := by simp only [Handler.pending, hst, he]
      rw [Exchange.room_congr (hstill rfl), Exchange.buffer_congr (hstill rfl)]
      simp only [Act.after, After.rest, List.filterMap_nil, List.append_nil, List.flatMap_append,
        List.flatMap_cons, hnone, List.nil_append]
      exact ⟨ho.without hreads, trivial⟩
    · -- it goes behind the others with its message, and is the last of them already
      have hreads : ¬ hd.Waits := fun ⟨m, hm⟩ => by cases hst.symm.trans hm
      have hwaits : (hd.offering (Frame.heardBody script)).Waits := ⟨_, rfl⟩
      obtain ⟨rfl, hordered⟩ := ho.with hreads hwaits
      have hsame : (hd.offering (Frame.heardBody script)).pending = hd.pending := by
        simp only [Handler.pending, Handler.offering, hst, hbody]
      have hstays : (Work.handle (hd.offering (Frame.heardBody script))).handler? c =
          some (hd.offering (Frame.heardBody script)) := if_pos htarget
      rw [Exchange.room_congr (hstill rfl), Exchange.buffer_congr (hstill rfl)]
      simp only [Act.after, After.rest, List.filterMap_cons, List.filterMap_nil, hstays]
      refine ⟨hordered, ?_⟩
      simp only [List.append_nil, List.flatMap_append, List.flatMap_cons, List.flatMap_nil, hsame]
    · -- a node that runs does not cancel anything
      rw [hn.isCancelled, hn.hasReceiver (mem_queues_of_direct (htarget ▸ hc))] at hgone
      cases hgone
    · -- it has all the room to itself, or is the first for the only place
      have hwaits : hd.Waits := ⟨m, hst⟩
      have hwants : t.work.wantsRoom c = true :=
        Work.wantsRoom_iff.2 (Or.inr (Or.inr ⟨hd, m, hw, htarget, hst⟩))
      have hpos : ((n.exchange.waitingSenders c).takeWhile (·.id != t.id)).length <
          n.exchange.room c := by
        rcases ha.of_wantsRoom hwants with ⟨⟨o, ho⟩, -⟩ | ⟨-, -, -, hmay, -⟩
        · cases ho
        · simpa only [Exchange.mayPush, decide_eq_true_eq] using hmay
      rw [htarget]
      have hroom : 0 < n.exchange.room c := Nat.lt_of_le_of_lt (Nat.zero_le _) hpos
      obtain ⟨hall, hlast⟩ := ho.of_waiting hwaits hroom
      obtain rfl : hs = [] := by
        rcases hlast with hone | ⟨hnil, -⟩
        · have hnone := List.eq_nil_of_length_eq_zero
            (Nat.lt_one_iff.1 (Nat.lt_of_lt_of_le hpos hone))
          refine List.eq_nil_iff_forall_not_mem.2 fun k hk => ?_
          obtain ⟨m', hm'⟩ := hall k (List.mem_append_left _ hk)
          exact hfirst hnone hn.tidy.distinct k hk m' hm'
        · exact hnil
      have hmessage : hd.pending = [m] := by simp only [Handler.pending, hst]
      rw [Exchange.room_perform_push, Exchange.buffer_perform_push t m _ hroom]
      simp only [Act.after, After.rest, List.filterMap_nil, List.append_nil, List.nil_append,
        List.flatMap_cons, hmessage, List.append_assoc]
      refine ⟨.waiting (fun k hk => hall k (List.mem_cons_of_mem _ hk)) ?_, trivial⟩
      rcases hlast with hone | ⟨-, rfl⟩
      · exact Or.inl (by omega)
      · exact Or.inr (Nat.zero_le 1)

/-- **Settling keeps the messages that are there or pending, in their order.** -/
theorem line_settle (hn : n.Sound spare) (hready : n.exchange.Ready) (hc : c ∈ n.directQueue)
    (ho : Orderly (n.exchange.room c) (n.exchange.handlers c)) :
    n.settle.exchange.buffer c ++ n.settle.exchange.pending c =
      n.exchange.buffer c ++ n.exchange.pending c := by
  refine (hn.settle_induction (P := fun y => y.Ready ∧ Orderly (y.room c) (y.handlers c) ∧
    y.buffer c ++ y.pending c = n.exchange.buffer c ++ n.exchange.pending c)
    ⟨hready, ho, rfl⟩ ?_).2.2.2
  rintro y t a hs ⟨hy, hordered, hline⟩ ht ha
  obtain ⟨hordered', hline'⟩ := hs.line_perform hy hc hordered ht ha
  exact ⟨hy.perform ht ha, hordered', hline'.trans hline⟩

/-- **In a calm node the queue is full before anything is pending.** -/
theorem line_split (hn : n.Sound spare) (hcalm : n.exchange.Calm) (hc : c ∈ n.directQueue) :
    n.exchange.buffer c =
        (n.exchange.buffer c ++ n.exchange.pending c).take deliveryQueueCapacity ∧
      n.exchange.pending c =
        (n.exchange.buffer c ++ n.exchange.pending c).drop deliveryQueueCapacity := by
  have hfits : (n.exchange.buffer c).length ≤ deliveryQueueCapacity := by
    obtain ⟨ch, hch, hcapacity, -⟩ := hn.queue c (mem_queues_of_direct hc)
    rw [Exchange.buffer, hch, ← hcapacity]
    exact hn.fits c ch hch
  by_cases hnone : n.exchange.pending c = []
  · rw [hnone, List.append_nil, List.take_of_length_le hfits, List.drop_eq_nil_of_le hfits]
    exact ⟨rfl, rfl⟩
  · rw [← hn.length_buffer_of_pending hcalm hc hnone, List.take_left, List.drop_left]
    exact ⟨rfl, rfl⟩

end Sound

/-! ## Two nodes with the same line -/

end Node

/-- In two exchanges the same waits in a queue, and the same is pending for it. -/
structure Exchange.SameLine (x y : Exchange) (q : Nat) : Prop where
  queue : x.channels[q]? = y.channels[q]?
  pending : x.pending q = y.pending q

theorem Exchange.SameLine.symm (h : x.SameLine y c) : y.SameLine x c :=
  ⟨h.queue.symm, h.pending.symm⟩

theorem Exchange.SameLine.trans (h : x.SameLine y c) (h' : y.SameLine z c) : x.SameLine z c :=
  ⟨h.queue.trans h'.queue, h.pending.trans h'.pending⟩

namespace Node

/-- **Settling keeps the line of direct messages the same** in two nodes whose handlers keep their
order. -/
theorem Sound.sameLine_settle (hn : n.Sound spare) (hm : m.Sound spare) (hc : c ∈ n.directQueue)
    (hc' : c ∈ m.directQueue) (hready : n.exchange.Ready) (hready' : m.exchange.Ready)
    (ho : Orderly (n.exchange.room c) (n.exchange.handlers c))
    (ho' : Orderly (m.exchange.room c) (m.exchange.handlers c))
    (hs : n.exchange.SameLine m.exchange c) :
    n.settle.exchange.SameLine m.settle.exchange c := by
  have hline : n.settle.exchange.buffer c ++ n.settle.exchange.pending c =
      m.settle.exchange.buffer c ++ m.settle.exchange.pending c := by
    rw [hn.line_settle hready hc ho, hm.line_settle hready' hc' ho',
      Exchange.buffer_congr hs.queue, hs.pending]
  obtain ⟨hbuffer, hpending⟩ := hn.settle.line_split hready.calm_settle hc
  obtain ⟨hbuffer', hpending'⟩ := hm.settle.line_split hready'.calm_settle hc'
  refine ⟨Exchange.getElem_eq_of_emptied ?_ ?_, ?_⟩
  · refine (n.exchange.emptied_settle c).trans (Eq.trans ?_ (m.exchange.emptied_settle c).symm)
    rw [hs.queue]
  · rw [hbuffer, hline, ← hbuffer']
  · rw [hpending, hline, ← hpending']

/-! ## When handlers keep their order -/

/-- In a calm node all handlers wait for a queue that is full, so they keep their order when room is
made for one of them. -/
theorem orderly_of_room_le (hcalm : n.exchange.Calm) (htasks : x.tasks = n.exchange.tasks)
    (hroom : x.room c ≤ n.exchange.room c + 1) : Orderly (x.room c) (x.handlers c) := by
  have hsame : x.handlers c = n.exchange.handlers c := by
    rw [Exchange.handlers, htasks, Exchange.handlers]
  rw [hsame]
  refine .waiting (fun k hk => ?_) ?_
  · obtain ⟨t, ht, hw, -⟩ := Exchange.mem_handlers.1 hk
    exact (hcalm.handler t ht k hw).1
  · cases hhandlers : n.exchange.handlers c with
    | nil => exact Or.inr (Nat.zero_le 1)
    | cons k ks =>
      obtain ⟨t, ht, hw, rfl⟩ := Exchange.mem_handlers.1 (hhandlers ▸ List.mem_cons_self)
      have hfull := (hcalm.handler t ht k hw).2
      exact Or.inl (by omega)

/-- One more handler that reads is the last. -/
theorem orderly_handling (hcalm : n.exchange.Calm) (d : DirectChannel) (sender : PeerName)
    (script : List ReadEvent) :
    Orderly ((n.handling d sender script).exchange.room d.queue)
      ((n.handling d sender script).exchange.handlers d.queue) := by
  have hnew : (n.handling d sender script).exchange.handlers d.queue =
      n.exchange.handlers d.queue ++ [⟨d.queue, sender, token, true, .reading (.start script)
        (n.exchange.timer 0) (n.exchange.timer n.config.requestTimeout.toNat)⟩] := by
    refine List.filterMap_append.trans (congrArg _ ?_)
    exact List.filterMap_cons_some (if_pos rfl)
  rw [hnew]
  refine .reading (fun k hk => ?_) (fun ⟨m, hm⟩ => by cases hm) ?_
  · obtain ⟨t, ht, hw, -⟩ := Exchange.mem_handlers.1 hk
    exact (hcalm.handler t ht k hw).1
  · cases hhandlers : n.exchange.handlers d.queue with
    | nil => exact Or.inr rfl
    | cons k ks =>
      obtain ⟨t, ht, hw, hk⟩ := Exchange.mem_handlers.1 (hhandlers ▸ List.mem_cons_self)
      exact Or.inl (hk ▸ (hcalm.handler t ht k hw).2)

end Node
end PeerNode
