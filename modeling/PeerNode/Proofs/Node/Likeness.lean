import PeerNode.Proofs.Exchange.Alongside
import PeerNode.Proofs.Exchange.Turns
import PeerNode.Proofs.Node.Relaying

/-!
# What is relayed to one queue

A topic's queue is filled by its listener from what the listener reads.  Nothing else matters to the
queue: neither the other channels of the node nor its other tasks.  So let two nodes be given in
which the same waits in a queue and in what is relayed to it (`SameRelay`).  When both have settled,
each in its own order, this is so again (`Sound.sameRelay_settle`).

The acts of all others are passed over, since they leave those channels alone
(`Sound.sameRelay_passes`).  The acts of the listeners pair off: what a listener does next can be
read off what is the same in both nodes (`Sound.does_of_sameRelay`), because it has all the room of
its queue to itself and only the table of subscriptions keeps what it reads open.

* `SameRelay`: the same waits in a queue and in what its listeners read.
* `Sound.eq_of_listens`, `Sound.mayPush_listener`, `Sound.hasSender_source`: a listener is alone.
* `Sound.sameRelay_passes`, `Sound.sameRelay_both`: one act of others, and one of the listener.
* `Sound.sameRelay_settle`: settling.
-/

namespace PeerNode

variable {x y z : Exchange} {n m : Node} {spare : List Nat} {t : Task} {a : Act} {q : Nat}
  {l : Listener}

namespace Exchange

/-! ## What is relayed to a queue -/

/-- In two exchanges the same waits in a queue, and the same listeners fill it from the same. -/
structure SameRelay (x y : Exchange) (q : Nat) : Prop where
  queue : x.channels[q]? = y.channels[q]?
  listener : ∀ l, l.target = q → (x.Listens l ↔ y.Listens l)
  source : ∀ l, l.target = q → x.Listens l → x.channels[l.source]? = y.channels[l.source]?

theorem SameRelay.refl (x : Exchange) (q : Nat) : SameRelay x x q :=
  ⟨rfl, fun _ _ => .rfl, fun _ _ _ => rfl⟩

theorem SameRelay.symm (h : SameRelay x y q) : SameRelay y x q :=
  ⟨h.queue.symm, fun l hl => (h.listener l hl).symm,
    fun l hl hy => (h.source l hl ((h.listener l hl).2 hy)).symm⟩

theorem SameRelay.trans (h : SameRelay x y q) (h' : SameRelay y z q) : SameRelay x z q :=
  ⟨h.queue.trans h'.queue, fun l hl => (h.listener l hl).trans (h'.listener l hl),
    fun l hl hx => (h.source l hl hx).trans (h'.source l hl ((h.listener l hl).1 hx))⟩

end Exchange

open Exchange (SameRelay)

namespace Node

namespace Sound

theorem source_notMem (h : n.Sound spare) (hl : n.exchange.Listens l) :
    l.source ∉ n.queues spare := by
  obtain ⟨t, ht, hw⟩ := hl
  intro hmem
  have hunread := h.unread t ht _ hmem
  simp [hw, Work.holdsReceiver] at hunread

theorem target_mem (h : n.Sound spare) (hl : n.exchange.Listens l) :
    l.target ∈ n.topics.map (·.queue) := by
  obtain ⟨t, ht, hw⟩ := hl
  have hemployed := h.employed t ht
  rw [hw] at hemployed
  exact hemployed.1

theorem unfilled_source (h : n.Sound spare) (hl : n.exchange.Listens l) :
    ∀ t ∈ n.exchange.tasks, t.work.holdsSender l.source = false := by
  intro t ht
  by_contra hheld
  rw [Bool.not_eq_false] at hheld
  refine h.source_notMem hl ?_
  rcases List.mem_append.1 ((h.employed t ht).target hheld) with hmem | hmem
  · rw [List.append_nil] at hmem
    exact mem_queues_of_topic hmem
  · exact mem_queues_of_direct hmem

/-- Only the names in the table keep what a listener reads open. -/
theorem hasSender_source (h : n.Sound spare) (hl : n.exchange.Listens l) :
    n.exchange.hasSender l.source = n.exchange.channels[l.source]?.any (0 < ·.senders) := by
  have hnone : n.exchange.tasks.any (·.work.holdsSender l.source) = false :=
    List.any_eq_false.2 fun t ht => by simp [h.unfilled_source hl t ht]
  rw [Exchange.hasSender, hnone, Bool.or_false]

/-- Nobody but its listener fills the queue of a topic. -/
theorem eq_listen_of_holdsSender (h : n.Sound spare) (hq : q ∈ n.topics.map (·.queue))
    (ht : t ∈ n.exchange.tasks) (hheld : t.work.holdsSender q = true) :
    ∃ l, t.work = .listen l ∧ l.target = q := by
  have hemployed := h.employed t ht
  cases hw : t.work with
  | send | receive =>
    rw [hw] at hemployed
    exact False.elim hemployed
  | listen l => exact ⟨l, rfl, by simpa [hw, Work.holdsSender] using hheld⟩
  | handle hd =>
    rw [hw] at hemployed
    obtain rfl : hd.target = q := by simpa [hw, Work.holdsSender] using hheld
    exact absurd hemployed (h.topic_notMem hq).2

/-- A queue has at most one listener. -/
theorem eq_of_listens (h : n.Sound spare) (ht : t ∈ n.exchange.tasks) (hw : t.work = .listen l)
    {l' : Listener} {u : Task} (hu : u ∈ n.exchange.tasks) (hw' : u.work = .listen l')
    (he : l'.target = l.target) : u = t :=
  h.tidy.eq_of_id_eq hu ht (h.apart u hu t ht l' l hw' hw (Or.inr he))

/-- A listener has all the room of its queue to itself. -/
theorem mayPush_listener (h : n.Sound spare) (ht : t ∈ n.exchange.tasks)
    (hw : t.work = .listen l) :
    n.exchange.mayPush t l.target = decide (0 < n.exchange.room l.target) := by
  have hnone : (n.exchange.waitingSenders l.target).takeWhile (·.id != t.id) = [] := by
    cases hwaiting : n.exchange.waitingSenders l.target with
    | nil => rfl
    | cons u us =>
      have hmem : u ∈ n.exchange.waitingSenders l.target := hwaiting ▸ List.mem_cons_self
      obtain ⟨hu, hwants⟩ := List.mem_filter.1 hmem
      obtain ⟨l', hw', htarget⟩ := h.eq_listen_of_holdsSender (h.target_mem ⟨t, ht, hw⟩) hu
        (Work.holdsSender_of_wantsRoom hwants)
      rw [h.eq_of_listens ht hw hu hw' htarget, List.takeWhile_cons_of_neg (by simp)]
  rw [Exchange.mayPush, hnone]
  rfl

/-- **What others do leaves alone what is relayed to the queue of a topic.** -/
theorem sameRelay_passes (h : n.Sound spare) (hq : q ∈ n.topics.map (·.queue))
    (hs : SameRelay n.exchange y q) (ht : t ∈ n.exchange.tasks) (ha : n.exchange.Does t a)
    (hne : t.work.holdsSender q = false) : SameRelay (n.exchange.perform t a) y q := by
  refine ⟨?_, fun l hl => (ha.listens_of_ne ht hne hl).trans (hs.listener l hl), fun l hl hx => ?_⟩
  · rw [ha.getElem_of_ne hne (h.unread t ht q (mem_queues_of_topic hq))]
    exact hs.queue
  · have hlistens := (ha.listens_of_ne ht hne hl).1 hx
    rw [ha.getElem_of_ne (h.unfilled_source hlistens t ht) ?_]
    · exact hs.source l hl hlistens
    · -- nobody else reads what the listener reads
      obtain ⟨u, hu, hw⟩ := hlistens
      rw [← Bool.not_eq_true]
      intro hreads
      cases hwork : t.work with
      | send | handle => simp [hwork, Work.holdsReceiver] at hreads
      | receive source =>
        have hemployed := h.employed t ht
        rw [hwork] at hemployed
        exact hemployed
      | listen l' =>
        have hsource : l'.source = l.source := by simpa [hwork, Work.holdsReceiver] using hreads
        have hid := h.apart t ht u hu l' l hwork hw (Or.inl hsource)
        obtain rfl := h.tidy.eq_of_id_eq ht hu hid
        rw [hw] at hne
        simp [Work.holdsSender, hl] at hne

/-- **A listener can do the same wherever the same is relayed.** -/
theorem does_of_sameRelay (h : n.Sound spare) (h' : m.Sound spare)
    (hs : SameRelay n.exchange m.exchange l.target) (ht : t ∈ n.exchange.tasks)
    (hw : t.work = .listen l) (ha : n.exchange.Does t a) :
    ∃ u ∈ m.exchange.tasks, u.work = .listen l ∧ m.exchange.Does u a := by
  have hlistens : n.exchange.Listens l := ⟨t, ht, hw⟩
  have hlistens' := (hs.listener l rfl).1 hlistens
  obtain ⟨u, hu, hw'⟩ := hlistens'
  have hsource := hs.source l rfl hlistens
  refine ⟨u, hu, hw', Exchange.act?_eq_some_iff.1 ?_⟩
  have hact : n.exchange.listenerAct? t l = some a := by
    have := Exchange.act?_eq_some_iff.2 ha
    rwa [Exchange.act?, hw] at this
  rw [Exchange.act?, hw', ← hact]
  refine (Exchange.listenerAct?_congr ?_ ?_ ?_ (Exchange.buffer_congr hsource) ?_).symm
  · rw [h.isCancelled, h'.isCancelled]
  · rw [h.hasReceiver (mem_queues_of_topic (h.target_mem hlistens)),
      h'.hasReceiver (mem_queues_of_topic (h'.target_mem ⟨u, hu, hw'⟩))]
  · rw [h.mayPush_listener ht hw, h'.mayPush_listener hu hw', Exchange.room_congr hs.queue]
  · rw [h.hasSender_source hlistens, h'.hasSender_source ⟨u, hu, hw'⟩, hsource]

theorem listens_perform_iff (h : n.Sound spare) (ht : t ∈ n.exchange.tasks)
    (hw : t.work = .listen l) {l' : Listener} (htarget : l'.target = l.target) :
    (n.exchange.perform t a).Listens l' ↔ a.after = .goesOn (.listen l') := by
  refine ⟨?_, fun hafter => ⟨_, Exchange.mem_tasks_perform_of_goesOn _ t hafter, rfl⟩⟩
  rintro ⟨u, hu, hw'⟩
  rcases Exchange.mem_tasks_perform hu with hu | ⟨w, hafter, rfl⟩
  · obtain rfl := h.eq_of_listens ht hw (List.mem_of_mem_erase hu) hw' htarget
    exact absurd rfl (h.tidy.id_ne_of_mem_erase ht hu)
  · rw [hafter, show w = .listen l' from hw']

/-- **A listener that does the same in both leaves the same.** -/
theorem sameRelay_both (h : n.Sound spare) (h' : m.Sound spare)
    (hs : SameRelay n.exchange m.exchange l.target) (ht : t ∈ n.exchange.tasks)
    (hw : t.work = .listen l) (ha : n.exchange.Does t a) {u : Task}
    (hu : u ∈ m.exchange.tasks) (hw' : u.work = .listen l) :
    SameRelay (n.exchange.perform t a) (m.exchange.perform u a) l.target := by
  refine ⟨?_, fun l' hl' => ?_, fun l' hl' hx => ?_⟩
  · rw [Exchange.getElem_perform, Exchange.getElem_perform, hs.queue]
  · rw [h.listens_perform_iff ht hw hl', h'.listens_perform_iff hu hw' hl']
  · have hafter := (h.listens_perform_iff ht hw hl').1 hx
    obtain ⟨l₀, hl₀, hsource, -⟩ := (ha.atPost hafter).of_listen
    obtain rfl := Work.listen.inj (hw.symm.trans hl₀)
    rw [hsource, Exchange.getElem_perform, Exchange.getElem_perform, hs.source l rfl ⟨t, ht, hw⟩]

end Sound

/-- The exchanges of two nodes in order, in which the same is relayed to a queue. -/
structure Abreast (n m : Node) (q : Nat) (x y : Exchange) : Prop where
  first : ({ n with exchange := x } : Node).Sound []
  second : ({ m with exchange := y } : Node).Sound []
  same : SameRelay x y q

theorem Abreast.symm (h : Abreast n m q x y) : Abreast m n q y x :=
  ⟨h.second, h.first, h.same.symm⟩

theorem alongside_abreast (hq : q ∈ n.topics.map (·.queue)) :
    Exchange.Alongside (Work.holdsSender q) (Abreast n m q) where
  passes := by
    intro x y t a h ht ha hne
    exact ⟨h.first.perform ht ha, h.second, h.first.sameRelay_passes hq h.same ht ha hne⟩
  meets := by
    intro x y t a h ht ha hheld
    obtain ⟨l, hw, rfl⟩ := h.first.eq_listen_of_holdsSender hq ht hheld
    obtain ⟨u, hu, -, hb⟩ := h.first.does_of_sameRelay h.second h.same ht hw ha
    exact ⟨_, u, hu, a, hb, rfl⟩

/-- **Settling keeps what is relayed to the queue of a topic the same.** -/
theorem Sound.sameRelay_settle (h : n.Sound []) (h' : m.Sound [])
    (hq : q ∈ n.topics.map (·.queue)) (hq' : q ∈ m.topics.map (·.queue))
    (hs : SameRelay n.exchange m.exchange q) :
    SameRelay n.settle.exchange m.settle.exchange q := by
  have hswap : (fun y x => Abreast n m q x y) = Abreast m n q := by
    funext y x
    exact propext ⟨Abreast.symm, Abreast.symm⟩
  have habreast : Abreast n m q n.exchange m.exchange := ⟨h, h', hs⟩
  refine ((alongside_abreast hq).settle (hswap ▸ alongside_abreast hq') ?_ habreast).same
  intro x y t a u b hxy ht ha hheld hu hb hheld'
  obtain ⟨l, hw, rfl⟩ := hxy.first.eq_listen_of_holdsSender hq ht hheld
  obtain ⟨l', hw', htarget⟩ := hxy.second.eq_listen_of_holdsSender hq' hu hheld'
  obtain ⟨v, hv, hwork, hdoes⟩ := hxy.first.does_of_sameRelay hxy.second hxy.same ht hw ha
  -- the queue has one listener in each, and what it does is determined
  obtain rfl := hxy.second.eq_of_listens hv hwork hu hw' htarget
  obtain rfl : a = b := Option.some.inj ((Exchange.act?_eq_some_iff.2 hdoes).symm.trans
    (Exchange.act?_eq_some_iff.2 hb))
  exact ⟨hxy.first.perform ht ha, hxy.second.perform hu hb,
    hxy.first.sameRelay_both hxy.second hxy.same ht hw ha hu hwork⟩

end Node
end PeerNode
