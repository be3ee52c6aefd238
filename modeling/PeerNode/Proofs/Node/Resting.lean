import PeerNode.Proofs.Node.Beginning
import PeerNode.Proofs.Session.Cancellation

/-!
# Nodes at rest

Between two actions every node of a network is at rest: each of its tasks waits.  Most operations
end by settling, which is enough.  The one that does not, serving direct messages, changes nothing
that a task looks at (`act?_congr`).

A node that is stopped has no tasks any more: all of them can be cancelled by the token of the node,
so they withdraw, and those that were waiting with a message do so at once.  Until then a listener
reads no subscription to another topic than its own (`Bound`).

* `Exchange.act?_congr`, `Settled.of_eq`: what a task looks at.
* `Exchange.settle_of_cancelled`: tasks that are cancelled move no message.
* `Node.Bound`: tasks are bound to the node and to their topics; `Bound.settle`, `join`.
* `Node.Rested`: a node at rest; `rested_start` and one lemma for each operation.
-/

namespace PeerNode

variable {x y : Exchange} {n m : Node} {spare : List Nat} {t : Task} {a : Act} {c : Nat}

namespace Exchange

/-! ## What a task looks at -/

/-- **What a task does next depends only on what it finds at its ends**, on the other tasks, on its
token and on the time. -/
theorem act?_congr (htasks : y.tasks = x.tasks) (hcancelled : y.cancelled = x.cancelled)
    (hclock : y.clock = x.clock) (hmoment : y.moment = x.moment)
    (hfills : ∀ c, t.work.holdsSender c = true →
      y.hasReceiver c = x.hasReceiver c ∧ y.room c = x.room c)
    (hreads : ∀ c, t.work.holdsReceiver c = true →
      y.buffer c = x.buffer c ∧ y.hasSender c = x.hasSender c) : y.act? t = x.act? t := by
  have hpush : ∀ c, t.work.holdsSender c = true → y.mayPush t c = x.mayPush t c := by
    intro c hc
    rw [mayPush, mayPush, waitingSenders, waitingSenders, htasks, (hfills c hc).2]
  have htoken : ∀ token, y.isCancelled token = x.isCancelled token := by
    intro token
    rw [isCancelled, isCancelled, hcancelled]
  have htimer : ∀ secs, y.timer secs = x.timer secs := by
    intro secs
    rw [timer, timer, hclock, hmoment]
  cases hw : t.work with
  | send target m =>
    have hends : t.work.holdsSender target = true := by simp [hw, Work.holdsSender]
    simp only [act?, hw, (hfills target hends).1, hpush target hends]
  | receive source =>
    have hends : t.work.holdsReceiver source = true := by simp [hw, Work.holdsReceiver]
    have hpull : y.mayPull t source = x.mayPull t source := by rw [mayPull, mayPull, htasks]
    unfold act?
    rw [hw]
    dsimp only
    rw [hpull, (hreads source hends).1, (hreads source hends).2]
  | listen l =>
    have hends : t.work.holdsSender l.target = true := by simp [hw, Work.holdsSender]
    have hends' : t.work.holdsReceiver l.source = true := by simp [hw, Work.holdsReceiver]
    simp only [act?, hw, listenerAct?, htoken, (hfills l.target hends).1, hpush l.target hends,
      (hreads l.source hends').1, (hreads l.source hends').2]
  | handle h =>
    have hends : t.work.holdsSender h.target = true := by simp [hw, Work.holdsSender]
    unfold act?
    rw [hw]
    dsimp only
    unfold handlerAct? readingAct? giveUp? hasRung
    rw [hclock, htoken, (hfills h.target hends).1, hpush h.target hends, funext htimer]

/-- Tasks that find the same as before wait as before. -/
theorem Settled.of_eq (h : x.Settled) (htasks : y.tasks = x.tasks)
    (hact : ∀ t ∈ x.tasks, y.act? t = x.act? t) : y.Settled := by
  refine Eq.trans ?_ h
  rw [able, able, htasks]
  exact List.filterMap_congr fun t ht => by rw [hact t ht]

theorem Settled.addChannel (h : x.Settled) (hx : x.Tidy) (capacity senders inboxes : Nat) :
    (x.addChannel capacity senders inboxes).1.Settled := by
  refine h.of_eq rfl fun t ht => act?_congr rfl rfl rfl rfl (fun c hc => ?_) fun c hc => ?_
  · have hlt := hx.known t ht c (Or.inl hc)
    simp only [hasReceiver, room, Exchange.addChannel, List.getElem?_append_left hlt, and_self]
  · have hlt := hx.known t ht c (Or.inr hc)
    simp only [buffer, hasSender, Exchange.addChannel, List.getElem?_append_left hlt, and_self]

/-! ## Tasks that are cancelled -/

theorem Does.token?_eq {w : Work} (h : x.Does t a) (hafter : a.after = .goesOn w) :
    w.token? = t.work.token? := by
  cases h with
  | forwarded hw | listenerQueues hw | taken hw | frameRead hw | paused hw | silenced hw =>
    rw [hw, ← After.goesOn.inj hafter]
    rfl
  | _ => cases hafter

/-- **Tasks that are cancelled move no message.** -/
theorem settle_of_cancelled {token : Token} (hc : x.isCancelled token = true)
    (htoken : ∀ t ∈ x.tasks, t.work.token? = some token) :
    x.settle.channels = x.channels ∧ x.settle.isCancelled token = true ∧
      ∀ t ∈ x.settle.tasks, t.work.token? = some token := by
  refine settle_induction (P := fun y => y.channels = x.channels ∧ y.isCancelled token = true ∧
    ∀ t ∈ y.tasks, t.work.token? = some token) ⟨rfl, hc, htoken⟩ ?_
  rintro y t a ⟨hchannels, hcancelled, htokens⟩ ht ha
  refine ⟨?_, ?_, fun u hu => ?_⟩
  · have halone : ∃ after, a = .alone after := by
      rcases ha.cancelled (htokens t ht) hcancelled with rfl | ⟨w, rfl, -⟩
      · exact ⟨_, rfl⟩
      · exact ⟨_, rfl⟩
    obtain ⟨after, rfl⟩ := halone
    rw [perform, channels_conclude]
    exact hchannels
  · rw [isCancelled, ha.onlyMessages_perform.cancelled, cancelled_conclude]
    exact hcancelled
  · rcases mem_tasks_perform hu with hu | ⟨w, hafter, rfl⟩
    · exact htokens u (List.mem_of_mem_erase hu)
    · exact (ha.token?_eq hafter).trans (htokens t ht)

/-- **Where no handler has to wait for its stream, all who are cancelled are gone.** -/
theorem Ready.tasks_eq_nil {token : Token} (h : x.Ready) (hc : x.isCancelled token = true)
    (htoken : ∀ t ∈ x.tasks, t.work.token? = some token) : x.settle.tasks = [] := by
  obtain ⟨-, hcancelled, htokens⟩ := settle_of_cancelled hc htoken
  refine List.eq_nil_iff_forall_not_mem.2 fun t ht => ?_
  obtain ⟨hd, deadline, hw, hst, -⟩ := (settled_settle x).cancelled ht (htokens t ht) hcancelled
  obtain ⟨⟨m, hm⟩, -⟩ := h.calm_settle.handler t ht hd hw
  rw [hm] at hst
  cases hst

end Exchange

namespace Node

/-! ## What tasks are bound to -/

/-- A task with this work is cancelled with the node, and if it is a listener, then no subscription
to another topic is the one that it reads. -/
def Binds (n : Node) (w : Work) : Prop :=
  w.token? = some token ∧ ∀ l, w = .listen l → ∀ e ∈ n.topics, e.queue = l.target →
    ∀ s, (s, l.source) ∈ n.subscriptions → s = e.name

/-- All tasks of a node are bound to it. -/
def Bound (n : Node) : Prop := ∀ t ∈ n.exchange.tasks, n.Binds t.work

theorem Binds.mono {w : Work} (h : n.Binds w) (htopics : m.topics = n.topics)
    (hsubs : ∀ p ∈ m.subscriptions, p ∈ n.subscriptions) : m.Binds w :=
  ⟨h.1, fun l hl e he hq s hs => h.2 l hl e (htopics ▸ he) hq s (hsubs _ hs)⟩

theorem Bound.mono (h : n.Bound) (htasks : ∀ t ∈ m.exchange.tasks, t ∈ n.exchange.tasks)
    (htopics : m.topics = n.topics) (hsubs : ∀ p ∈ m.subscriptions, p ∈ n.subscriptions) :
    m.Bound :=
  fun t ht => (h t (htasks t ht)).mono htopics hsubs

/-- **Who acts stays bound.** -/
theorem Bound.settle (h : n.Bound) : n.settle.Bound := by
  refine Exchange.settle_induction (P := fun y => ∀ t ∈ y.tasks, n.Binds t.work) h ?_
  intro y t a hy ht ha u hu
  rcases Exchange.mem_tasks_perform hu with hu | ⟨w, hafter, rfl⟩
  · exact hy u (List.mem_of_mem_erase hu)
  · refine ⟨(ha.token?_eq hafter).trans (hy t ht).1, ?_⟩
    rintro l rfl e he hq s hs
    obtain ⟨l₀, hl₀, hsource, htarget, -⟩ := (ha.atPost hafter).of_listen
    exact (hy t ht).2 l₀ hl₀ e he (hq.trans htarget) s (hsource ▸ hs)

theorem Bound.unsubscribe (h : n.Bound) (topic : String) : (n.unsubscribe topic).Bound :=
  h.mono (fun _ ht => n.tasks_unsubscribe topic ▸ ht) (n.alike_unsubscribe topic).topics
    fun _ hp => (mem_unsubscribe hp).1

theorem Bound.subscribing (h : n.Bound) (hn : n.Sound spare) (topic : String) :
    (n.subscribing topic).Bound := by
  intro t ht
  have hold := h.unsubscribe topic t ht
  refine ⟨hold.1, fun l hl e he hq s hs => ?_⟩
  rcases List.mem_cons.1 hs with hnew | hs
  · have hidle := ((hn.unsubscribe topic).idle_youngest t ht).2
    rw [hl, ← (Prod.mk.inj hnew).2] at hidle
    simp [Work.holdsReceiver] at hidle
  · exact hold.2 l hl e he hq s hs

theorem Bound.subscribe (h : n.Bound) (hn : n.Sound spare) (topic : String) :
    (n.subscribe topic).1.Bound := (h.subscribing hn topic).settle

/-- **A new listener reads the subscription to its own topic.** -/
theorem Bound.attaching {q : Nat} (h : n.Bound) (hn : n.Sound [q]) (topic : String) (hlt : q < c)
    (hc : (topic, c) ∈ n.subscriptions) : (n.attaching topic hlt).Bound := by
  intro t ht
  rcases List.mem_append.1 ht with ht | ht
  · refine ⟨(h t ht).1, fun l hl e he hq s hs => ?_⟩
    rcases List.mem_append.1 he with he | he
    · exact (h t ht).2 l hl e he hq s hs
    · rw [List.mem_singleton.1 he] at hq
      have hfills := hn.unfilled (List.mem_singleton_self q) t ht
      rw [hl] at hfills
      simp [Work.holdsSender, ← hq] at hfills
  · obtain rfl := List.mem_singleton.1 ht
    refine ⟨rfl, fun l hl e he hq s hs => ?_⟩
    obtain rfl := Work.listen.inj hl
    rcases List.mem_append.1 he with he | he
    · exact absurd (hq ▸ List.mem_singleton_self _)
        (hn.topic_notMem (List.mem_map_of_mem he)).1
    · rw [List.mem_singleton.1 he]
      exact congrArg Prod.fst (List.inj_on_of_nodup_map hn.fresh hs hc rfl)

theorem Bound.join (h : n.Bound) (hn : n.Sound []) (topic : String) : (n.join topic).Bound := by
  have hadd : (n.addQueue 0).Bound := h.mono (fun _ ht => ht) rfl fun _ hp => hp
  rw [Node.join]
  exact ((hadd.subscribe hn.addQueue topic).attaching (hn.joining topic).1 topic
    (n.queue_lt_subscription topic 0) List.mem_cons_self).settle

theorem Bound.handling (h : n.Bound) (d : DirectChannel) (sender : PeerName)
    (script : List ReadEvent) : (n.handling d sender script).Bound := by
  intro t ht
  rcases List.mem_append.1 ht with ht | ht
  · exact (h t ht).mono rfl fun _ hp => hp
  · obtain rfl := List.mem_singleton.1 ht
    exact ⟨rfl, nofun⟩

/-! ## Being at rest -/

/-- A node at rest, which runs or has been stopped. -/
structure Rested (n : Node) : Prop where
  settled : n.exchange.Settled
  bound : n.Bound
  distinct : (n.queues []).Nodup
  steady : n.running = true → n.Steady
  stopped : n.running = false → n.exchange.tasks = [] ∧ n.subscriptions = []

theorem Rested.settle_eq (h : n.Rested) : n.settle = n := by
  rw [Node.settle, Exchange.settle_of_settled h.settled]

theorem rested_settle (hbound : n.Bound) (hsteady : n.settle.Steady) (hr : n.running = true) :
    n.settle.Rested :=
  ⟨Exchange.settled_settle _, hbound.settle, hsteady.sound.distinct, fun _ => hsteady,
    fun hstopped => Bool.noConfusion (hr.symm.trans hstopped)⟩

theorem Rested.serving (h : n.Rested) (hr : n.running = true) (hnone : n.direct = none)
    (protocol : String) : (n.serving protocol).Rested where
  settled := h.settled.addChannel (h.steady hr).sound.tidy _ _ _
  bound := h.bound.mono (fun _ ht => ht) rfl fun _ hp => hp
  distinct := ((h.steady hr).serving hnone protocol).sound.distinct
  steady := fun _ => (h.steady hr).serving hnone protocol
  stopped := fun hstopped => Bool.noConfusion (hr.symm.trans hstopped)

theorem Rested.joinAll (h : n.Rested) (hr : n.running = true) (hnone : n.direct = none)
    (topics : List String) : (topics.foldl Node.join n).Rested := by
  induction topics generalizing n with
  | nil => exact h
  | cons topic topics ih =>
    have hjoined := n.joined_join topic
    have hsteady := (h.steady hr).join hnone topic
    have hbound := h.bound.join (h.steady hr).sound topic
    refine ih ⟨?_, hbound, hsteady.sound.distinct, fun _ => hsteady, fun hstopped => ?_⟩
      (hjoined.running.trans hr) (hjoined.direct.trans hnone)
    · exact Exchange.settled_settle _
    · exact Bool.noConfusion ((hjoined.running.trans hr).symm.trans hstopped)

/-- **A node that has just started is at rest.** -/
theorem rested_start {fresh : KeyPair} {config : Config} (h : Node.start fresh config = .ok n) :
    n.Rested := by
  obtain ⟨key, services, addresses, -, -, -, hstart⟩ := start_eq_ok h
  obtain ⟨cs, hcs⟩ := ({ config, id := key.peerId, services } : Node).addContacts_eq addresses
  have hfields := fields_joinAll
    ({ config, id := key.peerId, services, contacts := cs } : Node) config.topics
  have hbare : ({ config, id := key.peerId, services, contacts := cs } : Node).Rested :=
    ⟨rfl, fun _ ht => absurd ht List.not_mem_nil, List.nodup_nil, fun _ =>
      ⟨.bare _ _ _ _, fun _ ht => absurd ht List.not_mem_nil,
        ⟨fun _ ht => absurd ht List.not_mem_nil, fun _ ht => absurd ht List.not_mem_nil⟩,
        fun _ hp => absurd hp List.not_mem_nil⟩, fun _ => ⟨rfl, rfl⟩⟩
  have hjoined := hbare.joinAll rfl rfl config.topics
  rw [hcs] at hstart
  rcases hstart with ⟨-, rfl⟩ | ⟨protocol, -, rfl⟩
  · exact hjoined
  · exact hjoined.serving hfields.2.2.2.1 hfields.2.2.1 protocol

theorem Rested.running_of_subscription (h : n.Rested) {s : String}
    (hc : n.subscription? s = some c) : n.running = true := by
  by_contra hr
  rw [subscription?, (h.stopped (Bool.not_eq_true _ ▸ hr)).2] at hc
  cases hc

theorem Rested.hear_of_stopped (h : n.Rested) (hr : n.running = false) (author : PeerName)
    (topic : String) (data : Bytes) : n.hear author topic data = n := by
  rcases n.hear_cases author topic data with ⟨-, he⟩ | ⟨c, hc, -, -⟩ | ⟨c, hc, -, -⟩
  · exact he
  all_goals exact Bool.noConfusion ((h.running_of_subscription hc).symm.trans hr)

theorem Bound.hear (h : n.Bound) (author : PeerName) (topic : String) (data : Bytes) :
    (n.hear author topic data).Bound := by
  rcases n.hear_cases author topic data with ⟨-, he⟩ | ⟨c, -, -, he⟩ | ⟨c, -, -, he⟩ <;> rw [he]
  · exact h
  · have hoffer := Exchange.onlyMessages_offer n.exchange c (.onTopic author topic data)
    exact h.mono (fun t ht => hoffer.tasks ▸ ht) rfl fun _ hp => hp
  · exact h.unsubscribe topic

/-- **Taking in a message and settling leaves a node at rest.** -/
theorem Rested.hear (h : n.Rested) (author : PeerName) (topic : String) (data : Bytes) :
    (n.hear author topic data).settle.Rested := by
  cases hr : n.running with
  | true =>
    exact rested_settle (h.bound.hear author topic data) ((h.steady hr).hear author topic data)
      ((n.alike_hear author topic data).running.trans hr)
  | false =>
    rw [h.hear_of_stopped hr, h.settle_eq]
    exact h

/-- **Handling a stream leaves a node at rest.** -/
theorem Rested.handleStream (h : n.Rested) (hr : n.running = true) (sender : PeerName)
    (octets : Bytes) : (n.handleStream sender [.bytes octets]).Rested := by
  have hsteady := (h.steady hr).handleStream sender octets
  cases hd : n.direct with
  | none => simpa [Node.handleStream, hd] using h
  | some d =>
    rw [handleStream_eq hd] at hsteady ⊢
    exact rested_settle (h.bound.handling d sender _) hsteady hr

theorem take_eq (n : Node) {q : Nat} (hnone : n.exchange.tasks = []) :
    (n.take q).1 = { n with exchange := (n.exchange.tryReceive q).1 } := by
  have hsettled : (n.exchange.tryReceive q).1.Settled := by
    rw [Exchange.Settled, Exchange.able, (Exchange.onlyMessages_tryReceive n.exchange q).tasks,
      hnone, List.filterMap_nil]
  change ({ n with exchange := (n.exchange.tryReceive q).1 } : Node).settle = _
  rw [Node.settle, Exchange.settle_of_settled hsettled]

/-- **Receiving leaves a node at rest.** -/
theorem Rested.take (h : n.Rested) {q : Nat} (hq : q ∈ n.queues []) : (n.take q).1.Rested := by
  have htake := Exchange.onlyMessages_tryReceive n.exchange q
  have hbound : ({ n with exchange := (n.exchange.tryReceive q).1 } : Node).Bound :=
    h.bound.mono (fun t ht => htake.tasks ▸ ht) rfl fun _ hp => hp
  cases hr : n.running with
  | true => exact rested_settle hbound ((h.steady hr).take hq) hr
  | false =>
    refine ⟨Exchange.settled_settle _, hbound.settle, h.distinct, fun hruns => ?_,
      fun _ => ⟨?_, ?_⟩⟩
    · exact Bool.noConfusion (hr.symm.trans hruns)
    · rw [n.take_eq (h.stopped hr).1]
      exact htake.tasks.trans (h.stopped hr).1
    · exact (h.stopped hr).2

theorem Rested.subscribe (h : n.Rested) (hr : n.running = true) (topic : String) :
    (n.subscribe topic).1.Rested :=
  rested_settle (h.bound.subscribing (h.steady hr).sound topic) ((h.steady hr).subscribe topic)
    ((n.alike_unsubscribe topic).running.trans hr)

/-- **Giving up a subscription leaves a node at rest.** -/
theorem Rested.leaving (h : n.Rested) (hr : n.running = true) (topic : String) :
    ((n.subscribe topic).1.abandon (n.subscribe topic).2).Rested := by
  refine rested_settle ?_ ((h.steady hr).leaving topic) ((n.alike_subscribe topic).running.trans hr)
  exact (h.subscribe hr topic).bound.mono (fun _ ht => ht) rfl fun _ hp => hp

theorem Rested.source_notMem (h : n.Rested) (ht : t ∈ n.exchange.tasks) {l : Listener}
    (hl : t.work = .listen l) : l.source ∉ n.queues [] := by
  cases hr : n.running with
  | true =>
    intro hmem
    have hunread := (h.steady hr).sound.unread t ht _ hmem
    simp [hl, Work.holdsReceiver] at hunread
  | false => exact absurd ht ((h.stopped hr).1 ▸ List.not_mem_nil)

theorem Rested.subscription_notMem (h : n.Rested) {s : String} (hs : n.subscription? s = some c) :
    c ∉ n.queues [] := by
  have hmem := Session.mem_of_lookup_eq_some hs
  cases hr : n.running with
  | true => exact ((h.steady hr).sound.subscription _ hmem).1
  | false =>
    rw [(h.stopped hr).2] at hmem
    cases hmem

/-! ## Stopping -/

/-- A node that stops gives up its senders, and nothing else. -/
theorem silenced_eq (n : Node) : n.silenced.tasks = n.exchange.tasks ∧
    n.silenced.clock = n.exchange.clock ∧ n.silenced.isCancelled token = true ∧
      n.silenced.channels.length = n.exchange.channels.length := by
  have hfold : ∀ (subs : List (String × Nat)) (x : Exchange),
      (subs.foldl (fun x s => x.dropSender s.2) x).tasks = x.tasks ∧
        (subs.foldl (fun x s => x.dropSender s.2) x).clock = x.clock ∧
        (subs.foldl (fun x s => x.dropSender s.2) x).cancelled = x.cancelled ∧
        (subs.foldl (fun x s => x.dropSender s.2) x).channels.length = x.channels.length := by
    intro subs
    induction subs with
    | nil => exact fun _ => ⟨rfl, rfl, rfl, rfl⟩
    | cons p subs ih =>
      intro x
      obtain ⟨htasks, hclock, hcancelled, hlength⟩ := ih (x.dropSender p.2)
      exact ⟨htasks, hclock, hcancelled, hlength.trans (List.length_modify _ _ _)⟩
  obtain ⟨htasks, hclock, hcancelled, hlength⟩ :=
    hfold n.subscriptions (n.exchange.cancel token)
  have hc : (n.subscriptions.foldl (fun x s => x.dropSender s.2)
      (n.exchange.cancel token)).isCancelled token = true := by
    rw [Exchange.isCancelled, hcancelled]
    exact List.contains_iff_mem.2 List.mem_cons_self
  unfold silenced
  split
  · exact ⟨htasks, hclock, hc, (List.length_modify _ _ _).trans hlength⟩
  · exact ⟨htasks, hclock, hc, hlength⟩

/-- **A node that has stopped has no tasks**, and its channels are as it has left them. -/
theorem Rested.stop_eq (h : n.Rested) (hr : n.running = true) : n.stop.exchange.tasks = [] ∧
    n.stop.exchange.channels = n.silenced.channels := by
  obtain ⟨htasks, hclock, hcancelled, -⟩ := n.silenced_eq
  have htoken : ∀ t ∈ n.silenced.tasks, t.work.token? = some token :=
    fun t ht => (h.bound t (htasks ▸ ht)).1
  have hready : n.silenced.Ready := (h.steady hr).calm.ready.of_eq htasks hclock
  rw [Node.stop, if_pos hr]
  exact ⟨hready.tasks_eq_nil hcancelled htoken, (Exchange.settle_of_cancelled hcancelled htoken).1⟩

/-- **A node that has been stopped is at rest.** -/
theorem Rested.stop (h : n.Rested) : n.stop.Rested := by
  cases hr : n.running with
  | false => rwa [Node.stop, if_neg (by rw [hr]; exact Bool.false_ne_true)]
  | true =>
    obtain ⟨htasks, -⟩ := h.stop_eq hr
    refine ⟨?_, fun t ht => absurd ht (by rw [htasks]; exact List.not_mem_nil), ?_, ?_,
      fun _ => ?_⟩
    · rw [Node.stop, if_pos hr]
      exact Exchange.settled_settle _
    · rw [Node.stop, if_pos hr]
      exact h.distinct
    · rw [Node.stop, if_pos hr]
      exact fun hruns => Bool.noConfusion hruns
    · refine ⟨htasks, ?_⟩
      rw [Node.stop, if_pos hr]
      rfl

end Node
end PeerNode
