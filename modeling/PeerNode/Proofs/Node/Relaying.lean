import PeerNode.Proofs.Node.Sound
import PeerNode.Proofs.Session.Listener

/-!
# The listeners of a node pass on what others have sent

Each listener of a node has a subscription and a queue to itself.  So what has gone into its queue,
followed by what it holds, is the foreign part of what it has taken from its subscription
(`Relays`): its own acts keep the law (`Exchange.Does.listener`), and nobody else acts at these two
ends.  Every operation of a node keeps it, since none of them takes anything out of a subscription
or puts anything into a topic's queue.

A node that is starting has not yet received anything, so nothing moves in it at all (`Quiet`).

* `Exchange.Relays`: the law of all listeners at once.
* `Sound.relays_settle`, and one lemma for each operation: it is kept.
* `Exchange.Quiet`: nothing has moved.
-/

namespace PeerNode

variable {x y : Exchange} {n : Node} {spare : List Nat} {t : Task} {a : Act}

namespace Exchange

/-- What has gone into the queue of a listener, with what it holds, is the foreign part of what it
has taken from its subscription. -/
def Relays (x : Exchange) : Prop :=
  ∀ t ∈ x.tasks, ∀ l, t.work = .listen l →
    x.accepted l.target ++ l.held.toList = foreign l.me (x.delivered l.source)

theorem Relays.of_still (h : x.Relays)
    (htasks : ∀ t ∈ y.tasks, ∀ l, t.work = .listen l → t ∈ x.tasks ∧
      y.accepted l.target = x.accepted l.target ∧ y.delivered l.source = x.delivered l.source) :
    y.Relays := by
  intro t ht l hl
  obtain ⟨hold, haccepted, hdelivered⟩ := htasks t ht l hl
  rw [haccepted, hdelivered]
  exact h t hold l hl

/-- Nothing has moved in an exchange. -/
def Quiet (x : Exchange) : Prop := ∀ c, x.accepted c = []

theorem Quiet.held (hq : x.Quiet) (hbooks : x.Books) (hr : x.Relays) {l : Listener}
    (ht : t ∈ x.tasks) (hl : t.work = .listen l) : l.held = none := by
  have hlaw := hr t ht l hl
  rw [hq, (hbooks.eq_nil (hq l.source)).1] at hlaw
  cases hm : l.held with
  | none => rfl
  | some m =>
    rw [hm] at hlaw
    cases hlaw

end Exchange

namespace Node

open Exchange (Relays Quiet)

namespace Sound

/-- Nobody but a listener acts at its two ends. -/
theorem still_of_ne (h : n.Sound spare) (ht : t ∈ n.exchange.tasks) (ha : n.exchange.Does t a)
    {u : Task} {l : Listener} (hu : u ∈ n.exchange.tasks) (hl : u.work = .listen l)
    (hne : u.id ≠ t.id) : a.ins l.target = [] ∧ a.outs l.source = [] := by
  have hemployed := h.employed t ht
  refine ⟨by_contra fun hins => ?_, by_contra fun houts => ?_⟩
  · have hheld := ha.holdsSender_of_ins hins
    cases hw : t.work with
    | send | receive =>
      rw [hw] at hemployed
      exact hemployed
    | listen l' =>
      rw [hw] at hheld
      have htarget : l'.target = l.target := by simpa [Work.holdsSender] using hheld
      exact hne (h.apart u hu t ht l l' hl hw (Or.inr htarget.symm))
    | handle hd =>
      rw [hw] at hheld hemployed
      have htopic := h.employed u hu
      rw [hl] at htopic
      have htarget : hd.target = l.target := by simpa [Work.holdsSender] using hheld
      exact (h.topic_notMem htopic.1).2 (htarget ▸ hemployed)
  · have hheld := ha.holdsReceiver_of_outs houts
    cases hw : t.work with
    | send | receive =>
      rw [hw] at hemployed
      exact hemployed
    | listen l' =>
      rw [hw] at hheld
      have hsource : l'.source = l.source := by simpa [Work.holdsReceiver] using hheld
      exact hne (h.apart u hu t ht l l' hl hw (Or.inl hsource.symm))
    | handle hd =>
      rw [hw] at hheld
      cases hheld

/-- **An act keeps the law of the listeners.** -/
theorem relays_perform (h : n.Sound spare) (hr : n.exchange.Relays) (ht : t ∈ n.exchange.tasks)
    (ha : n.exchange.Does t a) : (n.exchange.perform t a).Relays := by
  have hflow := fun c => Exchange.flow_perform ha.feasible t c
  intro u hu l hl
  rcases Exchange.mem_tasks_perform hu with hu | ⟨w, hafter, rfl⟩
  · obtain ⟨hins, houts⟩ := h.still_of_ne ht ha (List.mem_of_mem_erase hu) hl
      (h.tidy.id_ne_of_mem_erase ht hu)
    rw [(hflow l.target).accepted, (hflow l.source).delivered, hins, houts, List.append_nil,
      List.append_nil]
    exact hr u (List.mem_of_mem_erase hu) l hl
  · obtain rfl : w = .listen l := hl
    obtain ⟨l₀, hl₀, -⟩ := (ha.atPost hafter).of_listen
    rcases ha.listener hl₀ with ⟨l', hafter', hsource, htarget, hme, -, hown⟩ | ⟨rfl, -⟩
    · obtain rfl := Work.listen.inj (After.goesOn.inj (hafter.symm.trans hafter'))
      rw [(hflow _).accepted, (hflow _).delivered, htarget, hsource, hme, List.append_assoc, hown,
        foreign_append, ← List.append_assoc, hr t ht l₀ hl₀]
    · cases hafter

/-- **Settling keeps the law of the listeners.** -/
theorem relays_settle (h : n.Sound spare) (hr : n.exchange.Relays) : n.settle.exchange.Relays :=
  (h.settle_induction hr fun _ _ _ hs hy ht ha => hs.relays_perform hy ht ha).2

theorem relays_unsubscribe (hr : n.exchange.Relays) (topic : String) :
    (n.unsubscribe topic).exchange.Relays := by
  unfold Node.unsubscribe
  split
  · exact hr
  · exact hr

/-- **Subscribing keeps the law of the listeners.** -/
theorem relays_subscribe (h : n.Sound spare) (hr : n.exchange.Relays) (topic : String) :
    (n.subscribe topic).1.exchange.Relays :=
  (h.subscribing topic).relays_settle (relays_unsubscribe hr topic)

theorem relays_abandon (h : n.Sound spare) (hr : n.exchange.Relays) {c : Nat}
    (hc : c ∉ n.queues spare) : (n.abandon c).exchange.Relays :=
  (h.abandoning hc).relays_settle hr

/-- A new listener has passed nothing on. -/
theorem relays_attaching (hr : n.exchange.Relays) {q c : Nat} (hlt : q < c)
    (hq : n.exchange.accepted q = []) (hc : n.exchange.delivered c = []) (topic : String) :
    (n.attaching topic hlt).exchange.Relays := by
  intro t ht l hl
  rcases List.mem_append.1 ht with ht | ht
  · exact hr t ht l hl
  · obtain rfl := List.mem_singleton.1 ht
    cases hl
    change n.exchange.accepted q ++ [] = foreign _ (n.exchange.delivered c)
    rw [hq, hc]
    rfl

/-- The queue and the subscription of a topic that is being joined are untouched. -/
theorem joining_fresh (h : n.Sound []) (topic : String) :
    ((n.addQueue 0).subscribe topic).1.exchange.accepted n.exchange.channels.length = [] ∧
      ((n.addQueue 0).subscribe topic).1.exchange.accepted
        ((n.addQueue 0).subscribe topic).2 = [] := by
  have hadd := h.addQueue
  have hsub := hadd.subscribing topic
  have hkeeps := (n.addQueue 0).accepted_unsubscribe topic
  refine ⟨?_, ?_⟩
  · refine (Exchange.accepted_settle (hsub.unfilled (List.mem_singleton_self _))).trans ?_
    exact (hkeeps _).trans (h.books.unborn _ (Nat.le_refl _))
  · refine (Exchange.accepted_settle (hsub.unfilled_subscription List.mem_cons_self)).trans ?_
    exact (hadd.unsubscribe topic).books.unborn _ (Nat.le_refl _)

/-- **Joining a topic keeps the law of the listeners.** -/
theorem relays_join (h : n.Sound []) (hr : n.exchange.Relays) (topic : String) :
    (n.join topic).exchange.Relays := by
  obtain ⟨hsound, hunread⟩ := h.joining topic
  obtain ⟨hqueue, hsub⟩ := h.joining_fresh topic
  rw [Node.join]
  refine (hsound.attaching (n.queue_lt_subscription topic 0) ⟨_, List.mem_cons_self, rfl⟩ hunread
    topic).relays_settle ?_
  refine relays_attaching ?_ _ hqueue (hsound.books.eq_nil hsub).1 topic
  exact h.addQueue.relays_subscribe hr topic

/-- A message that is offered to a subscription passes by the listeners. -/
theorem relays_offer (h : n.Sound spare) (hr : n.exchange.Relays) {p : String × Nat}
    (hp : p ∈ n.subscriptions) (m : Message) : (n.exchange.offer p.2 m).1.Relays := by
  have hflow := fun c => Exchange.flow_offer n.exchange p.2 m c
  refine hr.of_still fun t ht l hl => ?_
  rw [(Exchange.onlyMessages_offer n.exchange p.2 m).tasks] at ht
  refine ⟨ht, ?_, ?_⟩
  · have hne : p.2 ≠ l.target := by
      intro he
      have hnone := h.unfilled_subscription hp t ht
      rw [hl] at hnone
      simp [Work.holdsSender, he] at hnone
    rw [(hflow l.target).accepted, Exchange.inChannel, if_neg hne, List.append_nil]
  · rw [(hflow l.source).delivered, List.append_nil]

/-- **Taking in a message keeps the law of the listeners.** -/
theorem relays_hear (h : n.Sound spare) (hr : n.exchange.Relays) (sender : PeerName)
    (topic : String) (data : Bytes) : (n.hear sender topic data).exchange.Relays := by
  rcases n.hear_cases sender topic data with ⟨-, he⟩ | ⟨c, hc, -, he⟩ | ⟨c, -, -, he⟩ <;> rw [he]
  · exact hr
  · have hp := Session.mem_of_lookup_eq_some hc
    exact h.relays_offer hr hp _
  · exact relays_unsubscribe hr topic

theorem relays_handling (hr : n.exchange.Relays) (d : DirectChannel) (sender : PeerName)
    (script : List ReadEvent) : (n.handling d sender script).exchange.Relays := by
  intro t ht l hl
  rcases List.mem_append.1 ht with ht | ht
  · exact hr t ht l hl
  · obtain rfl := List.mem_singleton.1 ht
    cases hl

/-- **Handling a stream keeps the law of the listeners.** -/
theorem relays_handleStream (h : n.Sound spare) (hr : n.exchange.Relays) (sender : PeerName)
    (script : List ReadEvent) : (n.handleStream sender script).exchange.Relays := by
  cases hd : n.direct with
  | none => simpa [Node.handleStream, hd] using hr
  | some d =>
    rw [handleStream_eq hd]
    exact (h.handling hd sender script).relays_settle (relays_handling hr d sender script)

theorem relays_poll (h : n.Sound spare) (hr : n.exchange.Relays) {q : Nat}
    (hq : q ∈ n.queues spare) : (n.poll q).1.exchange.Relays := by
  have hflow := fun c => Exchange.flow_tryReceive n.exchange q c
  refine hr.of_still fun t ht l hl => ?_
  change t ∈ (n.exchange.tryReceive q).1.tasks at ht
  rw [(Exchange.onlyMessages_tryReceive n.exchange q).tasks] at ht
  refine ⟨ht, ?_, ?_⟩
  · exact (hflow l.target).accepted.trans (List.append_nil _)
  · have hne : q ≠ l.source := by
      intro he
      have hnone := h.unread t ht q hq
      rw [hl] at hnone
      simp [Work.holdsReceiver, he] at hnone
    refine (hflow l.source).delivered.trans ?_
    rw [Exchange.inChannel, if_neg hne, List.append_nil]

/-- **Receiving keeps the law of the listeners.** -/
theorem relays_take (h : n.Sound spare) (hr : n.exchange.Relays) {q : Nat}
    (hq : q ∈ n.queues spare) : (n.take q).1.exchange.Relays :=
  (h.onlyMessages (Exchange.onlyMessages_tryReceive _ _) (h.books.tryReceive _)).relays_settle
    (h.relays_poll hr hq)

/-! ## A node that is starting -/

/-- **Nothing moves where nothing has moved**, if no stream is handled. -/
theorem quiet_perform (h : n.Sound spare) (hr : n.exchange.Relays) (hq : n.exchange.Quiet)
    (hdirect : n.direct = none) (ht : t ∈ n.exchange.tasks) (ha : n.exchange.Does t a) :
    (n.exchange.perform t a).Quiet := by
  intro c
  have hins : a.ins c = [] := by
    have hemployed := h.employed t ht
    cases ha with
    | sent hw =>
      rw [hw] at hemployed
      exact False.elim hemployed
    | forwarded hw _ hm =>
      rw [hq.held h.books hr ht hw] at hm
      cases hm
    | handed hw =>
      rw [hw] at hemployed
      simp [Employs, directQueue, hdirect] at hemployed
    | _ => rfl
  rw [(Exchange.flow_perform ha.feasible t c).accepted, hins, hq, List.append_nil]

theorem quiet_settle (h : n.Sound spare) (hr : n.exchange.Relays) (hq : n.exchange.Quiet)
    (hdirect : n.direct = none) : n.settle.exchange.Quiet := by
  refine (h.settle_induction (P := fun y => y.Relays ∧ y.Quiet) ⟨hr, hq⟩ ?_).2.2
  rintro y t a hs ⟨hry, hqy⟩ ht ha
  exact ⟨hs.relays_perform hry ht ha, hs.quiet_perform hry hqy hdirect ht ha⟩

theorem quiet_subscribe (h : n.Sound spare) (hr : n.exchange.Relays) (hq : n.exchange.Quiet)
    (hdirect : n.direct = none) (topic : String) : (n.subscribe topic).1.exchange.Quiet := by
  refine (h.subscribing topic).quiet_settle (relays_unsubscribe hr topic) ?_ ?_
  · intro c
    exact (n.accepted_unsubscribe topic c).trans (hq c)
  · exact (n.alike_unsubscribe topic).direct.trans hdirect

theorem quiet_join (h : n.Sound []) (hr : n.exchange.Relays) (hq : n.exchange.Quiet)
    (hdirect : n.direct = none) (topic : String) : (n.join topic).exchange.Quiet := by
  obtain ⟨hsound, hunread⟩ := h.joining topic
  obtain ⟨hqueue, hsub⟩ := h.joining_fresh topic
  have hrelays := h.addQueue.relays_subscribe hr topic
  rw [Node.join]
  refine (hsound.attaching (n.queue_lt_subscription topic 0) ⟨_, List.mem_cons_self, rfl⟩ hunread
    topic).quiet_settle ?_ ?_ ?_
  · exact relays_attaching hrelays _ hqueue (hsound.books.eq_nil hsub).1 topic
  · exact h.addQueue.quiet_subscribe hr hq hdirect topic
  · exact ((n.addQueue 0).alike_subscribe topic).direct.trans hdirect

end Sound
end Node
end PeerNode
