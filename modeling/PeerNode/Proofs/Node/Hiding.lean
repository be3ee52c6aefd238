import PeerNode.Proofs.Node.Likeness
import PeerNode.Proofs.Node.Queueing
import PeerNode.Proofs.Node.Resting
import PeerNode.Proofs.Node.Traffic

/-!
# States that differ only in what is hidden

Messages arrive at a node on several lanes: on each topic, and as direct messages.  Suppose that
some lanes are hidden.  Two states of a node are alike (`Like`) if they differ only in what is
hidden: what waits in the queues and subscriptions that are not, who relays there, and all that is
not in a channel are the same.

Settling keeps two states alike (`Like.settle`).  For the queues of topics this is
`Sound.sameRelay_settle`, and for that of direct messages `Sound.sameLine_settle`.  A subscription
either has a listener, which relays its topic and goes on since the subscription stays open, or
nobody reads it and it stays as it is.

What waits in the channels of hidden lanes does not matter, and a change of such a channel leaves a
state like it was (`Like.of_apart`).

* `Lane`: the lanes of a network; `Node.lane?`: the lane of an inbox.
* `Like`: two states that differ only on hidden lanes; `Like.withExchange`: equal changes.
* `Poised`: what holds before a running node settles; `Like.settle`: settling keeps states alike.
* `Apart`, `Like.of_apart`: the channels of hidden lanes.
-/

namespace PeerNode

open Exchange (SameRelay SameLine)

/-- A way on which messages arrive: a topic, or the direct messages to the node at a position. -/
inductive Lane where
  | topic (name : String)
  | direct (i : Nat)
  deriving DecidableEq, Repr

variable {hidden : Lane → Bool} {i : Nat} {n m k : Node} {x y : Exchange} {c q : Nat} {s : String}

namespace Node

/-! ## Two states of a node -/

/-- The lane on which the messages of an inbox arrive. -/
def lane? (n : Node) (i : Nat) : Inbox → Option Lane
  | .topic k => n.topics[k]?.map fun e => .topic e.name
  | .direct => some (.direct i)

theorem exists_lane (n : Node) (i : Nat) {inbox : Inbox} (hq : n.queue? inbox = some q) :
    ∃ lane, n.lane? i inbox = some lane := by
  cases inbox with
  | topic k =>
    obtain ⟨e, he, -⟩ := Option.map_eq_some_iff.1 hq
    exact ⟨.topic e.name, by rw [lane?, he, Option.map_some]⟩
  | direct => exact ⟨.direct i, rfl⟩

/-- What a node is apart from its channels. -/
def face (n : Node) : Node := { n with exchange := {}, subscriptions := [] }

/-- Two states of the node at a position that differ only on hidden lanes. -/
structure Like (hidden : Lane → Bool) (i : Nat) (n m : Node) : Prop where
  face : n.face = m.face
  length : n.exchange.channels.length = m.exchange.channels.length
  relay : ∀ e ∈ n.topics, hidden (.topic e.name) = false →
    SameRelay n.exchange m.exchange e.queue
  entry : ∀ s, hidden (.topic s) = false → n.subscription? s = m.subscription? s
  source : ∀ s c, hidden (.topic s) = false → n.subscription? s = some c →
    n.exchange.channels[c]? = m.exchange.channels[c]?
  line : hidden (.direct i) = false → ∀ q ∈ n.directQueue, SameLine n.exchange m.exchange q

namespace Like

theorem refl (hidden : Lane → Bool) (i : Nat) (n : Node) : Like hidden i n n :=
  ⟨rfl, rfl, fun _ _ _ => .refl _ _, fun _ _ => rfl, fun _ _ _ _ => rfl, fun _ _ _ => ⟨rfl, rfl⟩⟩

theorem topics (h : Like hidden i n m) : m.topics = n.topics :=
  (congrArg Node.topics h.face).symm

theorem direct (h : Like hidden i n m) : m.direct = n.direct :=
  (congrArg Node.direct h.face).symm

theorem running (h : Like hidden i n m) : m.running = n.running :=
  (congrArg Node.running h.face).symm

theorem directQueue (h : Like hidden i n m) : m.directQueue = n.directQueue := by
  rw [Node.directQueue, h.direct, Node.directQueue]

theorem symm (h : Like hidden i n m) : Like hidden i m n where
  face := h.face.symm
  length := h.length.symm
  relay := fun e he hs => (h.relay e (h.topics ▸ he) hs).symm
  entry := fun s hs => (h.entry s hs).symm
  source := fun s c hs hc => (h.source s c hs ((h.entry s hs).trans hc)).symm
  line := fun hs q hq => (h.line hs q (h.directQueue ▸ hq)).symm

theorem trans (h : Like hidden i n m) (h' : Like hidden i m k) : Like hidden i n k where
  face := h.face.trans h'.face
  length := h.length.trans h'.length
  relay := fun e he hs => (h.relay e he hs).trans (h'.relay e (h.topics.symm ▸ he) hs)
  entry := fun s hs => (h.entry s hs).trans (h'.entry s hs)
  source := fun s c hs hc => (h.source s c hs hc).trans
    (h'.source s c hs ((h.entry s hs).symm.trans hc))
  line := fun hs q hq => (h.line hs q hq).trans (h'.line hs q (h.directQueue.symm ▸ hq))

/-- **Changes of both exchanges by which equal channels stay equal.** -/
theorem withExchange (h : Like hidden i n m) (hx : x.tasks = n.exchange.tasks)
    (hy : y.tasks = m.exchange.tasks) (hlength : x.channels.length = y.channels.length)
    (hsame : ∀ k : Nat, n.exchange.channels[k]? = m.exchange.channels[k]? →
      x.channels[k]? = y.channels[k]?) :
    Like hidden i { n with exchange := x } { m with exchange := y } where
  face := h.face
  length := hlength
  relay := by
    intro e he hs
    obtain ⟨hqueue, hlistener, hsource⟩ := h.relay e he hs
    refine ⟨hsame _ hqueue, fun l hl => ?_, fun l hl hlistens => hsame _ (hsource l hl ?_)⟩
    · simpa only [Exchange.Listens, hx, hy] using hlistener l hl
    · simpa only [Exchange.Listens, hx] using hlistens
  entry := h.entry
  source := fun s c hs hc => hsame c (h.source s c hs hc)
  line := by
    intro hs q hq
    obtain ⟨hqueue, hpending⟩ := h.line hs q hq
    exact ⟨hsame q hqueue, by simpa only [Exchange.pending, hx, hy] using hpending⟩

end Like

/-! ## Before settling -/

/-- What holds of a running node when something has been done, before it settles. -/
structure Poised (n : Node) : Prop where
  sound : n.Sound []
  bound : n.Bound
  ready : n.exchange.Ready
  orderly : ∀ q ∈ n.directQueue, Orderly (n.exchange.room q) (n.exchange.handlers q)

/-- **A node is poised when at most one direct message has been taken.** -/
theorem Steady.poised (h : n.Steady) (hsound : m.Sound []) (hbound : m.Bound)
    (hdirect : m.directQueue = n.directQueue) (htasks : m.exchange.tasks = n.exchange.tasks)
    (hclock : m.exchange.clock = n.exchange.clock)
    (hflow : ∀ q ∈ n.directQueue, ∃ ins outs,
      Exchange.Flow n.exchange m.exchange q ins outs ∧ outs.length ≤ 1) : m.Poised := by
  refine ⟨hsound, hbound, h.calm.ready.of_eq htasks hclock, fun q hq => ?_⟩
  refine orderly_of_room_le h.calm htasks ?_
  rw [hsound.room_eq (mem_queues_of_direct hq),
    h.sound.room_eq (mem_queues_of_direct (hdirect ▸ hq))]
  obtain ⟨ins, outs, hlaw, hone⟩ := hflow q (hdirect ▸ hq)
  have hlength := congrArg List.length hlaw.conserved
  rw [List.length_append, List.length_append] at hlength
  omega

theorem Rested.poised (h : n.Rested) (hr : n.running = true) : n.Poised :=
  (h.steady hr).poised (h.steady hr).sound h.bound rfl rfl rfl
    fun q _ => ⟨[], [], .refl _ q, Nat.zero_le 1⟩

theorem Poised.served (h : n.Poised) (hc : n.subscription? s = some c) {l : Listener}
    (hl : n.exchange.Listens l) (hsource : l.source = c) :
    ∃ e ∈ n.topics, e.queue = l.target ∧ e.name = s := by
  obtain ⟨e, he, hqueue⟩ := List.mem_map.1 (h.sound.target_mem hl)
  obtain ⟨t, ht, hw⟩ := hl
  refine ⟨e, he, hqueue, ((h.bound t ht).2 l hw e he hqueue s ?_).symm⟩
  rw [hsource]
  exact Session.mem_of_lookup_eq_some hc

/-- Where a node with no listener for it has an entry, no task works. -/
theorem Poised.idle (h : n.Poised) (hc : n.subscription? s = some c)
    (hnone : ∀ l, n.exchange.Listens l → l.source ≠ c) :
    ∀ t ∈ n.exchange.tasks, t.work.holdsSender c = false ∧ t.work.holdsReceiver c = false := by
  intro t ht
  refine ⟨h.sound.unfilled_subscription (Session.mem_of_lookup_eq_some hc) t ht, ?_⟩
  have hemployed := h.sound.employed t ht
  cases hw : t.work with
  | send | receive =>
    rw [hw] at hemployed
    exact False.elim hemployed
  | handle hd => rfl
  | listen l => simpa [Work.holdsReceiver] using hnone l ⟨t, ht, hw⟩

/-- **Settling keeps two states alike.** -/
theorem Like.settle (h : Like hidden i n m) (hn : n.Poised) (hm : m.Poised) :
    Like hidden i n.settle m.settle where
  face := h.face
  length := (n.exchange.length_settle.trans h.length).trans m.exchange.length_settle.symm
  relay := by
    intro e he hs
    refine hn.sound.sameRelay_settle hm.sound (List.mem_map_of_mem he) ?_ (h.relay e he hs)
    exact h.topics ▸ List.mem_map_of_mem he
  entry := h.entry
  source := by
    intro s c hs hc
    by_cases hlistens : ∃ l, n.exchange.Listens l ∧ l.source = c
    · -- the listener of the entry goes on, since its subscription stays open
      obtain ⟨l, hl, hsource⟩ := hlistens
      obtain ⟨e, he, hqueue, rfl⟩ := hn.served hc hl hsource
      have hserved : n.Served e := by
        obtain ⟨t, ht, hw⟩ := hl
        refine ⟨t, ht, l, hw, hqueue.symm, ?_⟩
        rw [hsource]
        exact Session.mem_of_lookup_eq_some hc
      obtain ⟨t', ht', l', hw', htarget', hsource'⟩ := hserved.settle hn.sound
      have hsame : l'.source = c :=
        Session.eq_of_mem_of_lookup hn.sound.senders.distinct hsource' hc
      have hrelay := hn.sound.sameRelay_settle hm.sound (List.mem_map_of_mem he)
        (h.topics ▸ List.mem_map_of_mem he) (h.relay e he hs)
      have hequal := hrelay.source l' htarget' ⟨t', ht', hw'⟩
      rwa [hsame] at hequal
    · -- nobody reads the subscription, so it stays as it is
      have hnone : ∀ l, n.exchange.Listens l → l.source ≠ c :=
        fun l hl he => hlistens ⟨l, hl, he⟩
      have hc' : m.subscription? s = some c := (h.entry s hs).symm.trans hc
      have hnone' : ∀ l, m.exchange.Listens l → l.source ≠ c := by
        intro l hl hsource
        obtain ⟨e, he, hqueue, rfl⟩ := hm.served hc' hl hsource
        exact hnone l (((h.relay e (h.topics ▸ he) hs).listener l hqueue.symm).2 hl) hsource
      refine (Exchange.getElem_settle (hn.idle hc hnone)).trans ?_
      exact (h.source s c hs hc).trans (Exchange.getElem_settle (hm.idle hc' hnone')).symm
  line := by
    intro hs q hq
    have hq' : q ∈ m.directQueue := h.directQueue.symm ▸ hq
    exact hn.sound.sameLine_settle hm.sound hq hq' hn.ready hm.ready (hn.orderly q hq)
      (hm.orderly q hq') (h.line hs q hq)

/-! ## The channels of hidden lanes -/

theorem ne_of_hidden {s' : String} (hs : hidden (.topic s) = true)
    (hs' : hidden (.topic s') = false) : s' ≠ s := by
  rintro rfl
  exact Bool.false_ne_true (hs'.symm.trans hs)

/-- A channel that is none of those which are not hidden. -/
structure Apart (hidden : Lane → Bool) (i : Nat) (n : Node) (c : Nat) : Prop where
  queue : ∀ e ∈ n.topics, hidden (.topic e.name) = false → e.queue ≠ c ∧
    ∀ l, l.target = e.queue → n.exchange.Listens l → l.source ≠ c
  entry : ∀ s, hidden (.topic s) = false → n.subscription? s ≠ some c
  line : hidden (.direct i) = false → c ∉ n.directQueue

/-- **A change of a channel that is apart leaves a node like it was.** -/
theorem Like.of_apart (h : Apart hidden i n c) (htasks : x.tasks = n.exchange.tasks)
    (hlength : x.channels.length = n.exchange.channels.length)
    (hsame : ∀ k : Nat, c ≠ k → x.channels[k]? = n.exchange.channels[k]?) :
    Like hidden i n { n with exchange := x } where
  face := rfl
  length := hlength.symm
  relay := by
    intro e he hs
    obtain ⟨hqueue, hsource⟩ := h.queue e he hs
    refine ⟨(hsame _ hqueue.symm).symm, fun l _ => ?_, fun l hl hlistens => ?_⟩
    · simp only [Exchange.Listens, htasks]
    · exact (hsame _ (hsource l hl hlistens).symm).symm
  entry := fun _ _ => rfl
  source := fun s d hs hd => (hsame d fun he => h.entry s hs (he ▸ hd)).symm
  line := by
    intro hs q hq
    refine ⟨(hsame q fun he => h.line hs (he ▸ hq)).symm, ?_⟩
    simp only [Exchange.pending, htasks]

/-- The subscription of a hidden topic is apart. -/
theorem Rested.apart_subscription (h : n.Rested) (hs : hidden (.topic s) = true)
    (hc : n.subscription? s = some c) : Apart hidden i n c := by
  have hmem := Session.mem_of_lookup_eq_some hc
  have hne : ∀ s', hidden (.topic s') = false → s' ≠ s := fun s' => ne_of_hidden hs
  refine ⟨fun e he hs' => ⟨?_, fun l hl hlistens hsource => ?_⟩, fun s' hs' hc' => ?_, ?_⟩
  · rintro rfl
    exact h.subscription_notMem hc (mem_queues_of_topic (List.mem_map_of_mem he))
  · obtain ⟨t, ht, hw⟩ := hlistens
    refine hne e.name hs' ((h.bound t ht).2 l hw e he hl.symm s ?_).symm
    rw [hsource]
    exact hmem
  · cases hr : n.running with
    | true => exact hne s' hs' ((h.steady hr).sound.topic_eq hmem hc')
    | false =>
      rw [(h.stopped hr).2] at hmem
      cases hmem
  · exact fun _ hq => h.subscription_notMem hc (mem_queues_of_direct hq)

/-- The queue of a hidden inbox is apart. -/
theorem Rested.apart_queue (h : n.Rested) {inbox : Inbox} (hq : n.queue? inbox = some q)
    {lane : Lane} (hlane : n.lane? i inbox = some lane) (hs : hidden lane = true) :
    Apart hidden i n q := by
  have hdistinct := h.distinct
  rw [queues, List.append_nil, List.nodup_append] at hdistinct
  have hmem : q ∈ n.queues [] := mem_queues_of_queue? hq
  refine ⟨fun e he hs' => ⟨?_, fun l _ hlistens hsource => ?_⟩, fun s hs' hc => ?_,
    fun hs' hmem' => ?_⟩
  · rintro rfl
    cases inbox with
    | topic k =>
      obtain ⟨e', he', hqueue⟩ := Option.map_eq_some_iff.1 hq
      rw [lane?, he', Option.map_some, Option.some.injEq] at hlane
      have hsame := List.inj_on_of_nodup_map hdistinct.1 (List.mem_of_getElem? he') he hqueue
      rw [← hlane, hsame] at hs
      exact Bool.false_ne_true (hs'.symm.trans hs)
    | direct =>
      obtain ⟨d, hd, hqueue⟩ := Option.map_eq_some_iff.1 hq
      exact hdistinct.2.2 _ (List.mem_map_of_mem he) _ (mem_directQueue hd) hqueue.symm
  · obtain ⟨t, ht, hw⟩ := hlistens
    exact h.source_notMem ht hw (hsource ▸ hmem)
  · exact h.subscription_notMem hc hmem
  · cases inbox with
    | topic k =>
      obtain ⟨e', he', rfl⟩ := Option.map_eq_some_iff.1 hq
      exact hdistinct.2.2 _ (List.mem_map_of_mem (List.mem_of_getElem? he')) _ hmem' rfl
    | direct =>
      rw [lane?, Option.some.injEq] at hlane
      rw [← hlane] at hs
      exact Bool.false_ne_true (hs'.symm.trans hs)

end Node
end PeerNode
