import PeerNode.Proofs.Node.Happening
import PeerNode.Proofs.Node.Relaying

/-!
# Which topics of a node are served

A node that joins a topic subscribes to it, and only the last subscription to a topic receives its
messages.  So a topic that is joined twice is served once: when it is joined again, the subscription
of the earlier listener loses its sender, the listener stops, and its queue is left without senders.
Until then nothing has arrived, so that queue is also empty, and it is closed from then on.

This is all that can happen to a topic (`Standing`): the listener of a topic that is not joined again
finds its subscription open, its queue heard and its token uncancelled whenever it acts, and so it
never stops.

* `Node.Served`, `Node.Retired`: how a topic may stand.
* `Standing`: a topic is retired exactly if it is joined again later.
* `Sound.retires`: what becomes of a topic that is joined again.
* `Opening.join`, `standing_start`: a node that starts.
* `Standing.happen`, `run`, `serving`: a node that runs.
* `Standing.poll_eq_closed_iff`: what a receive is told.
-/

namespace PeerNode

open Exchange (Quiet)

variable {x y : Exchange} {n m : Node} {spare : List Nat} {t : Task} {a : Act} {e : JoinedTopic}

namespace Node

/-- A topic whose listener is at work, and whose messages go to the subscription that it reads. -/
def Served (n : Node) (e : JoinedTopic) : Prop :=
  ∃ t ∈ n.exchange.tasks, ∃ l, t.work = .listen l ∧ l.target = e.queue ∧
    (e.name, l.source) ∈ n.subscriptions

/-- A topic whose queue is empty and filled by nobody. -/
def Retired (n : Node) (e : JoinedTopic) : Prop :=
  (∀ t ∈ n.exchange.tasks, t.work.holdsSender e.queue = false) ∧ n.exchange.buffer e.queue = []

/-- A topic is retired if it is joined again later, and served if it is not. -/
def Standing (n : Node) : Prop :=
  ∀ k e, n.topics[k]? = some e →
    if e.name ∈ (n.topics.drop (k + 1)).map (·.name) then n.Retired e else n.Served e

/-! ## Staying served -/

theorem Served.mono (h : n.Served e) (htasks : ∀ t ∈ n.exchange.tasks, t ∈ m.exchange.tasks)
    (hsubs : ∀ c, (e.name, c) ∈ n.subscriptions → (e.name, c) ∈ m.subscriptions) :
    m.Served e := by
  obtain ⟨t, ht, l, hl, htarget, hsource⟩ := h
  exact ⟨t, htasks t ht, l, hl, htarget, hsubs _ hsource⟩

/-- **The listener of a served topic does not stop**, whoever acts. -/
theorem Served.perform (hs : n.Served e) (h : n.Sound spare) (ht : t ∈ n.exchange.tasks)
    (ha : n.exchange.Does t a) :
    ({ n with exchange := n.exchange.perform t a } : Node).Served e := by
  obtain ⟨u, hu, l, hl, htarget, hsource⟩ := hs
  by_cases hut : u = t
  · subst hut
    rcases ha.listener hl with ⟨l', hafter, hsource', htarget', -⟩ | ⟨-, hstop⟩
    · exact ⟨_, Exchange.mem_tasks_perform_of_goesOn _ u hafter, l', rfl,
        htarget'.trans htarget, hsource' ▸ hsource⟩
    · cases hstop with
      | cancelled hc => exact absurd hc (by rw [h.isCancelled]; exact Bool.false_ne_true)
      | drained _ _ hnone =>
        have hsome : n.exchange.hasSender l.source = true :=
          (h.hasSender_iff l.source).2 (Or.inl ⟨_, hsource, rfl⟩)
        exact absurd (hnone.symm.trans hsome) Bool.false_ne_true
      | unheard _ hnone =>
        have hemployed := h.employed u hu
        rw [hl] at hemployed
        have hsome : n.exchange.hasReceiver l.target = true :=
          h.hasReceiver (mem_queues_of_topic hemployed.1)
        exact absurd (hnone.symm.trans hsome) Bool.false_ne_true
  · exact ⟨u, Exchange.mem_tasks_perform_of_ne hu hut a, l, hl, htarget, hsource⟩

theorem Served.settle (hs : n.Served e) (h : n.Sound spare) : n.settle.Served e :=
  (h.settle_induction (P := fun y => ({ n with exchange := y } : Node).Served e) hs
    fun _ _ _ hy hserved ht ha => hserved.perform hy ht ha).2

theorem Served.unsubscribe (hs : n.Served e) {topic : String} (hne : e.name ≠ topic) :
    (n.unsubscribe topic).Served e := by
  unfold Node.unsubscribe
  split
  · exact hs.mono (fun _ ht => ht) fun c hc => List.mem_filter.2 ⟨hc, by simpa using hne⟩
  · exact hs

theorem Served.subscribe (hs : n.Served e) (h : n.Sound spare) {topic : String}
    (hne : e.name ≠ topic) : (n.subscribe topic).1.Served e := by
  have hold := hs.unsubscribe hne
  have hnew : (n.subscribing topic).Served e :=
    hold.mono (fun _ ht => ht) fun c hc => List.mem_cons_of_mem _ hc
  exact hnew.settle (h.subscribing topic)

theorem Served.hasReceiver (hs : n.Served e) (h : n.Sound spare) {c : Nat}
    (hc : n.subscription? e.name = some c) : n.exchange.hasReceiver c = true := by
  obtain ⟨t, ht, l, hl, -, hsource⟩ := hs
  have hsame : l.source = c := by
    have := Session.eq_of_mem_of_lookup h.senders.distinct hsource hc
    exact this
  unfold Exchange.hasReceiver
  rw [Bool.or_eq_true, List.any_eq_true]
  exact Or.inr ⟨t, ht, by simp [hl, Work.holdsReceiver, hsame]⟩

theorem Served.hear (hs : n.Served e) (h : n.Sound spare) (sender : PeerName) (topic : String)
    (data : Bytes) : (n.hear sender topic data).Served e := by
  rcases n.hear_cases sender topic data with ⟨-, he⟩ | ⟨c, -, -, he⟩ | ⟨c, hc, hnone, he⟩ <;> rw [he]
  · exact hs
  · have hoffer := Exchange.onlyMessages_offer n.exchange c (.onTopic sender topic data)
    exact hs.mono (fun t ht => hoffer.tasks.symm ▸ ht) fun _ hc => hc
  · refine hs.unsubscribe ?_
    rintro rfl
    exact absurd (hnone.symm.trans (hs.hasReceiver h hc)) Bool.false_ne_true

theorem Served.accept (hs : n.Served e) (sender : PeerName) (script : List ReadEvent) :
    (n.accept sender script).Served e := by
  rcases n.accept_cases sender script with ⟨-, he⟩ | ⟨d, -, he⟩ <;> rw [he]
  · exact hs
  · exact hs.mono (fun t ht => List.mem_append_left _ ht) fun _ hc => hc

theorem Served.poll (hs : n.Served e) (q : Nat) : (n.poll q).1.Served e :=
  hs.mono (fun _ ht => (Exchange.onlyMessages_tryReceive n.exchange q).tasks.symm ▸ ht)
    fun _ hc => hc

/-! ## Staying retired -/

theorem Retired.of_flow {outs : List Message} (hr : n.Retired e)
    (htasks : ∀ t ∈ m.exchange.tasks, t.work.holdsSender e.queue = false)
    (hflow : Exchange.Flow n.exchange m.exchange e.queue [] outs) : m.Retired e := by
  refine ⟨htasks, ?_⟩
  have hlaw := hflow.conserved
  rw [hr.2, List.nil_append, eq_comm, List.append_eq_nil_iff] at hlaw
  exact hlaw.2

/-- **A queue that nobody fills stays empty**, whoever acts. -/
theorem Retired.perform (hr : n.Retired e) (ht : t ∈ n.exchange.tasks)
    (ha : n.exchange.Does t a) :
    ({ n with exchange := n.exchange.perform t a } : Node).Retired e := by
  have hins : a.ins e.queue = [] := by
    by_contra hne
    exact Bool.false_ne_true ((hr.1 t ht).symm.trans (ha.holdsSender_of_ins hne))
  refine hr.of_flow (m := { n with exchange := n.exchange.perform t a }) ?_
    (hins ▸ Exchange.flow_perform ha.feasible t e.queue)
  intro u hu
  obtain ⟨v, hv, -, hpost⟩ := Exchange.mem_tasks_of_perform ht ha hu
  rw [(hpost.holds e.queue).1, hr.1 v hv]

theorem Retired.settle (hr : n.Retired e) : n.settle.Retired e :=
  Exchange.settle_induction (P := fun y => ({ n with exchange := y } : Node).Retired e) hr
    fun _ _ _ hy ht ha => hy.perform ht ha

theorem Retired.unsubscribe (hr : n.Retired e) (topic : String) :
    (n.unsubscribe topic).Retired e := by
  unfold Node.unsubscribe
  split
  · exact hr.of_flow hr.1 (Exchange.flow_onChannel _ _
      (fun ch => { ch with senders := ch.senders - 1 }) (fun _ => rfl) _)
  · exact hr

theorem Retired.subscribe (hr : n.Retired e) (topic : String) :
    (n.subscribe topic).1.Retired e := by
  have hold := hr.unsubscribe topic
  have hnew : (n.subscribing topic).Retired e :=
    hold.of_flow hold.1 (Exchange.flow_addChannel _ subscriptionCapacity 1 1 _)
  exact hnew.settle

theorem Retired.hear (hr : n.Retired e) (h : n.Sound spare) (he : e ∈ n.topics)
    (sender : PeerName) (topic : String) (data : Bytes) :
    (n.hear sender topic data).Retired e := by
  rcases n.hear_cases sender topic data with ⟨-, hh⟩ | ⟨c, hc, -, hh⟩ | ⟨c, -, -, hh⟩ <;> rw [hh]
  · exact hr
  · have hoffer := Exchange.onlyMessages_offer n.exchange c (.onTopic sender topic data)
    have hne : c ≠ e.queue := by
      rintro rfl
      exact (h.subscription _ (Session.mem_of_lookup_eq_some hc)).1
        (mem_queues_of_topic (List.mem_map_of_mem he))
    have hflow := Exchange.flow_offer n.exchange c (.onTopic sender topic data) e.queue
    rw [Exchange.inChannel, if_neg hne] at hflow
    exact hr.of_flow (m := { n with exchange := _ }) (fun t ht => hr.1 t (hoffer.tasks ▸ ht)) hflow
  · exact hr.unsubscribe topic

theorem Retired.accept (hr : n.Retired e) (h : n.Sound spare) (he : e ∈ n.topics)
    (sender : PeerName) (script : List ReadEvent) : (n.accept sender script).Retired e := by
  rcases n.accept_cases sender script with ⟨-, ha⟩ | ⟨d, hd, ha⟩ <;> rw [ha]
  · exact hr
  · refine hr.of_flow (m := n.handling d sender script) ?_ (Exchange.flow_of_eq rfl rfl)
    intro t ht
    rcases List.mem_append.1 ht with ht | ht
    · exact hr.1 t ht
    · obtain rfl := List.mem_singleton.1 ht
      have hnot := (h.topic_notMem (List.mem_map_of_mem he)).2
      simp only [directQueue, hd, Option.map_some, Option.toList_some, List.mem_singleton] at hnot
      simpa [Work.holdsSender] using fun hq => hnot hq.symm

theorem Retired.poll (hr : n.Retired e) (q : Nat) : (n.poll q).1.Retired e :=
  hr.of_flow (m := { n with exchange := _ })
    (fun t ht => hr.1 t ((Exchange.onlyMessages_tryReceive n.exchange q).tasks ▸ ht))
    (Exchange.flow_tryReceive n.exchange q e.queue)

/-! ## Joining again -/

/-- **The listener of a topic that is subscribed to again stops, and leaves its queue empty.** -/
theorem Sound.retires (h : n.Sound spare) (hr : n.exchange.Relays) (hq : n.exchange.Quiet)
    (hdirect : n.direct = none) (hs : n.Served e) : (n.subscribe e.name).1.Retired e := by
  obtain ⟨t, ht, l, hl, htarget, hsource⟩ := hs
  have hsound := h.subscribe e.name
  have hquiet := h.quiet_subscribe hr hq hdirect e.name
  have hrelays := h.relays_subscribe hr e.name
  have hnodirect : (n.subscribe e.name).1.direct = none :=
    (n.alike_subscribe e.name).direct.trans hdirect
  have hrest : (n.subscribe e.name).1.exchange.Settled := Exchange.settled_settle _
  have hbefore : ∀ u ∈ (n.subscribe e.name).1.exchange.tasks,
      ∃ v ∈ n.exchange.tasks, v.id = u.id ∧ v.work.AtPost u.work := by
    intro u hu
    obtain ⟨v, hv, hpost⟩ := Exchange.mem_tasks_settle hu
    exact ⟨v, n.tasks_unsubscribe e.name ▸ hv, hpost⟩
  -- The entry of the topic was the only holder of a sender of the earlier subscription.
  have hnone : (n.subscribe e.name).1.exchange.hasSender l.source = false := by
    rw [← Bool.not_eq_true, hsound.hasSender_iff]
    rintro (⟨p, hp, hpc⟩ | hmem | ⟨u, hu, hheld⟩)
    · rcases List.mem_cons.1 hp with rfl | hp
      · have hlt := h.senders.known _ hsource
        rw [← n.length_channels_unsubscribe e.name] at hlt
        exact absurd hpc (Nat.ne_of_gt hlt)
      · obtain ⟨hmem, hne⟩ := mem_unsubscribe hp
        have hsame := List.inj_on_of_nodup_map h.fresh hmem hsource hpc
        exact hne (congrArg Prod.fst hsame)
    · simp [directQueue, hnodirect] at hmem
    · obtain ⟨v, hv, -, hpost⟩ := hbefore u hu
      rw [(hpost.holds _).1, h.unfilled_subscription hsource v hv] at hheld
      cases hheld
  refine ⟨?_, (hsound.books.eq_nil (hquiet e.queue)).2⟩
  intro u hu
  by_contra hheld
  rw [Bool.not_eq_false] at hheld
  have hemployed := hsound.employed u hu
  obtain ⟨v, hv, hid, hpost⟩ := hbefore u hu
  cases hw : u.work with
  | send | receive =>
    rw [hw] at hemployed
    exact hemployed
  | handle hd =>
    rw [hw] at hemployed
    simp [Employs, directQueue, hnodirect] at hemployed
  | listen l' =>
    rw [hw] at hheld hpost
    have htarget' : l'.target = e.queue := by simpa [Work.holdsSender] using hheld
    obtain ⟨k, hk, hsource', htarget'', -⟩ := hpost.of_listen
    have hsame : v = t := by
      refine h.tidy.eq_of_id_eq hv ht (h.apart v hv t ht k l hk hl (Or.inr ?_))
      rw [← htarget'', htarget', htarget]
    obtain rfl : k = l := by
      rw [hsame, hl, Work.listen.injEq] at hk
      exact hk.symm
    rcases hrest.listener hu hw with ⟨-, -, hsome⟩ | ⟨m, hm, -⟩
    · rw [hsource'] at hsome
      exact Bool.false_ne_true (hnone.symm.trans hsome)
    · rw [hquiet.held hsound.books hrelays hu hw] at hm
      cases hm

/-- A node that is starting: nothing has moved in it, and it serves no direct messages yet. -/
structure Opening (n : Node) : Prop where
  sound : n.Sound []
  relays : n.exchange.Relays
  quiet : n.exchange.Quiet
  direct : n.direct = none
  standing : n.Standing

namespace Opening

theorem served_attaching (hs : n.Served e) {q c : Nat} (hlt : q < c) (topic : String) :
    (n.attaching topic hlt).Served e :=
  hs.mono (fun _ ht => List.mem_append_left _ ht) fun _ hc => hc

theorem retired_attaching (hr : n.Retired e) {q c : Nat} (hlt : q < c) (hq : q ≠ e.queue)
    (topic : String) : (n.attaching topic hlt).Retired e := by
  have hdrop : Exchange.Flow n.exchange (n.exchange.dropInbox c) e.queue [] [] :=
    Exchange.flow_onChannel n.exchange c (fun ch => { ch with inboxes := ch.inboxes - 1 })
      (fun _ => rfl) e.queue
  refine hr.of_flow (m := n.attaching topic hlt) ?_
    (hdrop.trans_still (Exchange.flow_of_eq rfl rfl))
  intro t ht
  rcases List.mem_append.1 ht with ht | ht
  · exact hr.1 t ht
  · obtain rfl := List.mem_singleton.1 ht
    simpa [Work.holdsSender] using hq

/-- How the earlier topics stand when one more is joined. -/
theorem standing_old (h : n.Opening) (he : e ∈ n.topics) (topic : String) :
    (n.Retired e ∨ e.name = topic ∧ n.Served e → (n.join topic).Retired e) ∧
      (e.name ≠ topic → n.Served e → (n.join topic).Served e) := by
  have hadd := h.sound.addQueue
  obtain ⟨hsound, hunread⟩ := h.sound.joining topic
  have hnew := hsound.attaching (n.queue_lt_subscription topic 0) ⟨_, List.mem_cons_self, rfl⟩
    hunread topic
  have hlt : n.exchange.channels.length ≠ e.queue :=
    Nat.ne_of_gt (h.sound.queue_lt (mem_queues_of_topic (List.mem_map_of_mem he)))
  have hserved : n.Served e → (n.addQueue 0).Served e := fun hs => hs.mono (fun _ ht => ht)
    fun _ hc => hc
  rw [Node.join]
  refine ⟨fun hor => ?_, fun hne hs => ?_⟩
  · refine (retired_attaching ?_ (n.queue_lt_subscription topic 0) hlt topic).settle
    rcases hor with hr | ⟨rfl, hs⟩
    · refine Retired.subscribe ?_ topic
      exact hr.of_flow (m := n.addQueue 0) hr.1 (Exchange.flow_addChannel _ _ 0 1 _)
    · exact hadd.retires h.relays h.quiet h.direct (hserved hs)
  · refine (served_attaching ?_ (n.queue_lt_subscription topic 0) topic).settle hnew
    exact (hserved hs).subscribe hadd hne

theorem served_new (h : n.Opening) (topic : String) :
    (n.join topic).Served ⟨topic, n.exchange.channels.length⟩ := by
  obtain ⟨hsound, hunread⟩ := h.sound.joining topic
  have hnew := hsound.attaching (n.queue_lt_subscription topic 0) ⟨_, List.mem_cons_self, rfl⟩
    hunread topic
  rw [Node.join]
  refine Served.settle ?_ hnew
  exact ⟨_, List.mem_append_right _ (List.mem_singleton_self _), _, rfl, rfl, List.mem_cons_self⟩

/-- **Joining a topic retires an earlier one of the same name, and no other.** -/
theorem join (h : n.Opening) (topic : String) : (n.join topic).Opening where
  sound := h.sound.join topic
  relays := h.sound.relays_join h.relays topic
  quiet := h.sound.quiet_join h.relays h.quiet h.direct topic
  direct := (n.joined_join topic).direct.trans h.direct
  standing := by
    intro k e hk
    rw [(n.joined_join topic).topics] at hk ⊢
    by_cases hlt : k < n.topics.length
    · rw [List.getElem?_append_left hlt] at hk
      have hold := h.standing k e hk
      obtain ⟨hretired, hserved⟩ := h.standing_old (List.mem_of_getElem? hk) topic
      simp only [List.drop_append_of_le_length hlt, List.map_append, List.mem_append,
        List.map_cons, List.map_nil, List.mem_singleton]
      by_cases hlater : e.name ∈ (n.topics.drop (k + 1)).map (·.name)
      · rw [if_pos hlater] at hold
        rw [if_pos (Or.inl hlater)]
        exact hretired (Or.inl hold)
      · rw [if_neg hlater] at hold
        by_cases hname : e.name = topic
        · rw [if_pos (Or.inr hname)]
          exact hretired (Or.inr ⟨hname, hold⟩)
        · rw [if_neg (not_or.2 ⟨hlater, hname⟩)]
          exact hserved hname hold
    · have hlen : k = n.topics.length := by
        have := (List.getElem?_eq_some_iff.1 hk).1
        rw [List.length_append, List.length_singleton] at this
        omega
      subst hlen
      rw [List.getElem?_append_right (Nat.le_refl _), Nat.sub_self, List.getElem?_cons_zero,
        Option.some.injEq] at hk
      subst hk
      rw [List.drop_eq_nil_of_le (by simp), if_neg (by simp)]
      exact h.served_new topic

theorem joinAll (h : n.Opening) (topics : List String) : (topics.foldl Node.join n).Opening := by
  induction topics generalizing n with
  | nil => exact h
  | cons topic topics ih => exact ih (h.join topic)

theorem bare (c : Config) (id : PeerId) (services : Services)
    (contacts : List (PeerId × Multiaddr)) :
    ({ config := c, id := id, services := services, contacts := contacts } : Node).Opening where
  sound := .bare c id services contacts
  relays := fun t ht => absurd ht List.not_mem_nil
  quiet := fun _ => rfl
  direct := rfl
  standing := fun k e hk => by simp at hk

end Opening

/-! ## A node that runs -/

/-- **A topic stays served, whatever happens.** -/
theorem Served.happen (hs : n.Served e) (h : n.Sound []) (happening : Happening) :
    (n.happen happening).Served e := by
  cases happening with
  | publishes | sends => exact hs
  | hears via author topic data => exact hs.hear h _ topic data
  | accepts sender script => exact hs.accept sender script
  | receives inbox =>
    simp only [Node.happen]
    split
    · exact hs.poll _
    · exact hs
  | waits secs => exact hs.mono (fun _ ht => ht) fun _ hc => hc
  | acts k =>
    rcases n.letAct_cases k with hk | ⟨t, a, ht, ha, hk⟩ <;> rw [Node.happen, hk]
    · exact hs
    · exact hs.perform h ht ha
  | settles => exact hs.settle h

/-- **A topic stays retired, whatever happens.** -/
theorem Retired.happen (hr : n.Retired e) (h : n.Sound []) (he : e ∈ n.topics)
    (happening : Happening) : (n.happen happening).Retired e := by
  cases happening with
  | publishes | sends => exact hr
  | hears via author topic data => exact hr.hear h he _ topic data
  | accepts sender script => exact hr.accept h he sender script
  | receives inbox =>
    simp only [Node.happen]
    split
    · exact hr.poll _
    · exact hr
  | waits secs =>
    exact hr.of_flow (m := { n with exchange := n.exchange.advance secs }) hr.1
      (Exchange.flow_of_eq rfl rfl)
  | acts k =>
    rcases n.letAct_cases k with hk | ⟨t, a, ht, ha, hk⟩ <;> rw [Node.happen, hk]
    · exact hr
    · exact hr.perform ht ha
  | settles => exact hr.settle

namespace Standing

/-- Operations after which every topic stands as before. -/
theorem of_alike (hst : n.Standing) (halike : n.Alike m)
    (hretired : ∀ e ∈ n.topics, n.Retired e → m.Retired e)
    (hserved : ∀ e ∈ n.topics, n.Served e → m.Served e) : m.Standing := by
  intro k e hk
  rw [halike.topics] at hk ⊢
  have hold := hst k e hk
  have he := List.mem_of_getElem? hk
  split
  · rename_i hlater
    rw [if_pos hlater] at hold
    exact hretired e he hold
  · rename_i hlater
    rw [if_neg hlater] at hold
    exact hserved e he hold

/-- **Topics stand as before, whatever happens.** -/
theorem happen (hst : n.Standing) (h : n.Sound []) (happening : Happening) :
    (n.happen happening).Standing :=
  hst.of_alike (n.alike_happen happening) (fun _ he hr => hr.happen h he happening)
    fun _ _ hs => hs.happen h happening

/-- Topics stand as before, whatever happens and in whatever order. -/
theorem run (hst : n.Standing) (h : n.Sound []) (es : List Happening) :
    (n.run es).Standing := by
  induction es generalizing n with
  | nil => exact hst
  | cons e es ih => exact ih (hst.happen h e) (h.happen e)

theorem serving (hst : n.Standing) (protocol : String) : (n.serving protocol).Standing := by
  intro k e hk
  have hold := hst k e hk
  by_cases hlater : e.name ∈ (n.topics.drop (k + 1)).map (·.name)
  · rw [if_pos hlater] at hold
    refine (if_pos hlater).mpr ?_
    exact hold.of_flow (m := n.serving protocol) hold.1 (Exchange.flow_addChannel _ _ 1 1 _)
  · rw [if_neg hlater] at hold
    refine (if_neg hlater).mpr ?_
    exact hold.mono (fun _ ht => ht) fun _ hc => hc

end Standing

/-- **A node starts with every topic served that is not joined again.** -/
theorem standing_start {fresh : KeyPair} {config : Config}
    (h : Node.start fresh config = .ok n) : n.Standing := by
  obtain ⟨key, services, addresses, -, -, -, hstart⟩ := start_eq_ok h
  obtain ⟨cs, hcs⟩ :=
    ({ config, id := key.peerId, services } : Node).addContacts_eq addresses
  have hjoined := (Opening.bare config key.peerId services cs).joinAll config.topics
  rw [hcs] at hstart
  rcases hstart with ⟨-, rfl⟩ | ⟨protocol, -, rfl⟩
  · exact hjoined.standing
  · exact hjoined.standing.serving protocol

/-- If no name comes up twice, then every topic is served. -/
theorem Standing.served (hst : n.Standing) (hnames : (n.topics.map (·.name)).Nodup) {k : Nat}
    (hk : n.topics[k]? = some e) : n.Served e := by
  obtain ⟨hlt, rfl⟩ := List.getElem?_eq_some_iff.1 hk
  have hrest := hnames.sublist ((List.drop_sublist k n.topics).map (·.name))
  rw [List.drop_eq_getElem_cons hlt, List.map_cons, List.nodup_cons] at hrest
  have hstands := hst k _ hk
  rwa [if_neg hrest.1] at hstands

/-! ## What a receive is told -/

/-- No consumer waits in a node. -/
theorem Sound.hasWaitingReceiver (h : n.Sound spare) (q : Nat) :
    n.exchange.hasWaitingReceiver q = false := by
  unfold Exchange.hasWaitingReceiver
  rw [List.any_eq_false]
  intro t ht hconsumes
  have hemployed := h.employed t ht
  cases hw : t.work with
  | send | receive =>
    rw [hw] at hemployed
    exact hemployed
  | listen | handle => simp [hw, Work.consumes] at hconsumes

/-- A receive is told that a queue is closed if it is drained and nobody fills it. -/
theorem Sound.poll_eq_closed_iff (h : n.Sound spare) (q : Nat) : (n.poll q).2 = .closed ↔
    n.exchange.buffer q = [] ∧ n.exchange.hasSender q = false := by
  change (n.exchange.tryReceive q).2 = .closed ↔ _
  unfold Exchange.tryReceive
  rw [h.hasWaitingReceiver, if_neg Bool.false_ne_true]
  cases hb : n.exchange.buffer q with
  | nil => cases hs : n.exchange.hasSender q <;> simp
  | cons m ms => simp

/-- **A receive is told that a topic is closed exactly if the topic is joined again later.** -/
theorem Standing.poll_eq_closed_iff (hst : n.Standing) (h : n.Sound []) {k : Nat}
    (hk : n.topics[k]? = some e) : (n.poll e.queue).2 = .closed ↔
      e.name ∈ (n.topics.drop (k + 1)).map (·.name) := by
  have hstands := hst k e hk
  have hqueue := List.mem_map_of_mem (f := JoinedTopic.queue) (List.mem_of_getElem? hk)
  rw [h.poll_eq_closed_iff]
  split at hstands
  · rename_i hlater
    refine iff_of_true ⟨hstands.2, ?_⟩ hlater
    rw [← Bool.not_eq_true, h.hasSender_iff]
    rintro (⟨p, hp, hpq⟩ | hmem | ⟨t, ht, hheld⟩)
    · exact (h.subscription p hp).1 (hpq ▸ mem_queues_of_topic hqueue)
    · exact (h.topic_notMem hqueue).2 hmem
    · rw [hstands.1 t ht] at hheld
      cases hheld
  · rename_i hlater
    refine iff_of_false ?_ hlater
    rintro ⟨-, hnone⟩
    obtain ⟨t, ht, l, hl, htarget, -⟩ := hstands
    have hsome : n.exchange.hasSender e.queue = true := by
      rw [h.hasSender_iff]
      exact Or.inr (Or.inr ⟨t, ht, by simp [hl, Work.holdsSender, htarget]⟩)
    exact Bool.false_ne_true (hnone.symm.trans hsome)

end Node
end PeerNode
