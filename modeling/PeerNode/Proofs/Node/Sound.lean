import PeerNode.Proofs.Exchange.Settling
import PeerNode.Proofs.Node.Operations
import PeerNode.Proofs.Session.Steps

/-!
# How the parts of a node fit together

A node that runs keeps a few things in order: each listener has a subscription of its own and fills
the delivery queue of one topic, which nobody else does; handlers fill the queue of direct messages;
the inboxes of the delivery queues are held; and the table of subscriptions accounts for the senders
that are held outside of tasks.  `Sound` collects this, and every operation of a running node keeps
it.

While a topic is being joined there is already a queue for it that no listener fills yet.  Such
queues are listed apart, as `spare`; a node that nobody works on has none.

* `Exchange.Retains`: a channel that keeps its capacity and its inboxes.
* `Node.Employs`, `Node.queues`: the works for which a node has tasks; its delivery queues.
* `Node.Sound`: everything is in order.
* `Sound.settle`, `subscribe`, `abandoning`, `join`, `hear`, `serving`, `handling`: and it stays so.
* `Sound.settle_induction`: what the acts of a sound node preserve is preserved.
* `Sound.hasSender_iff`, `Sound.hasReceiver`: who holds an end.
-/

namespace PeerNode

open Exchange (OnlyMessages Books)
open Session (Accounts)

variable {x y z : Exchange} {c d : Nat}

namespace Exchange

/-! ## Channels that stay what they are -/

/-- A channel keeps its capacity, and its inboxes if it has any. -/
def Retains (x y : Exchange) (c : Nat) : Prop :=
  ∀ ch, x.channels[c]? = some ch → ∃ ch', y.channels[c]? = some ch' ∧
    ch'.capacity = ch.capacity ∧ (0 < ch.inboxes → 0 < ch'.inboxes)

theorem retains_of_emptied
    (h : y.channels.map Channel.emptied = x.channels.map Channel.emptied) (c : Nat) :
    Retains x y c := by
  intro ch hch
  have he : y.channels[c]?.map Channel.emptied = some ch.emptied := by
    rw [← List.getElem?_map, h, List.getElem?_map, hch, Option.map_some]
  obtain ⟨ch', hch', hsame⟩ := Option.map_eq_some_iff.1 he
  have hcapacity : ch'.emptied.capacity = ch.emptied.capacity := by rw [hsame]
  have hinboxes : ch'.emptied.inboxes = ch.emptied.inboxes := by rw [hsame]
  exact ⟨ch', hch', hcapacity, fun hpos => Nat.lt_of_lt_of_eq hpos hinboxes.symm⟩

theorem retains_addChannel (x : Exchange) (capacity senders inboxes c : Nat) :
    Retains x (x.addChannel capacity senders inboxes).1 c := by
  intro ch hch
  refine ⟨ch, ?_, rfl, id⟩
  rw [Exchange.addChannel, List.getElem?_append_left (List.getElem?_eq_some_iff.1 hch).1]
  exact hch

theorem retains_dropSender (x : Exchange) (d c : Nat) : Retains x (x.dropSender d) c := by
  intro ch hch
  by_cases hdc : d = c
  · subst hdc
    refine ⟨{ ch with senders := ch.senders - 1 }, ?_, rfl, id⟩
    simp only [dropSender, onChannel, List.getElem?_modify, hch, if_pos]
    rfl
  · refine ⟨ch, ?_, rfl, id⟩
    simp only [dropSender, onChannel, List.getElem?_modify, hch, if_neg hdc]
    rfl

theorem retains_dropInbox (x : Exchange) (h : d ≠ c) : Retains x (x.dropInbox d) c := by
  intro ch hch
  refine ⟨ch, ?_, rfl, id⟩
  simp only [dropInbox, onChannel, List.getElem?_modify, hch, if_neg h]
  rfl

/-- A channel is a delivery queue whose inbox is held. -/
def IsQueue (x : Exchange) (q : Nat) : Prop :=
  ∃ ch, x.channels[q]? = some ch ∧ ch.capacity = deliveryQueueCapacity ∧ 0 < ch.inboxes

def IsSubscription (x : Exchange) (c : Nat) : Prop :=
  ∃ ch, x.channels[c]? = some ch ∧ ch.capacity = subscriptionCapacity

theorem IsQueue.of_retains (h : x.IsQueue c) (hxy : Retains x y c) : y.IsQueue c := by
  obtain ⟨ch, hch, hcapacity, hinboxes⟩ := h
  obtain ⟨ch', hch', hcapacity', hinboxes'⟩ := hxy ch hch
  exact ⟨ch', hch', hcapacity'.trans hcapacity, hinboxes' hinboxes⟩

theorem IsSubscription.of_retains (h : x.IsSubscription c) (hxy : Retains x y c) :
    y.IsSubscription c := by
  obtain ⟨ch, hch, hcapacity⟩ := h
  obtain ⟨ch', hch', hcapacity', -⟩ := hxy ch hch
  exact ⟨ch', hch', hcapacity'.trans hcapacity⟩

theorem IsSubscription.dropInbox (h : x.IsSubscription c) (d : Nat) :
    (x.dropInbox d).IsSubscription c := by
  obtain ⟨ch, hch, hcapacity⟩ := h
  refine ⟨if d = c then { ch with inboxes := ch.inboxes - 1 } else ch, ?_, ?_⟩
  · simp only [Exchange.dropInbox, onChannel, List.getElem?_modify, hch]
    rfl
  · split <;> exact hcapacity

theorem IsQueue.lt_length (h : x.IsQueue c) : c < x.channels.length := by
  obtain ⟨ch, hch, -⟩ := h
  exact (List.getElem?_eq_some_iff.1 hch).1

theorem getElem_addChannel (x : Exchange) (capacity senders inboxes : Nat) :
    (x.addChannel capacity senders inboxes).1.channels[x.channels.length]? =
      some ⟨capacity, [], senders, inboxes⟩ := by
  rw [Exchange.addChannel, List.getElem?_append_right (Nat.le_refl _), Nat.sub_self,
    List.getElem?_cons_zero]

theorem Tidy.addChannel (h : x.Tidy) (capacity senders inboxes : Nat) :
    (x.addChannel capacity senders inboxes).1.Tidy :=
  h.of_le rfl (Nat.le_refl _) (by simp [Exchange.addChannel]) fun _ => rfl

theorem Books.addChannel (h : x.Books) (capacity senders inboxes : Nat) :
    (x.addChannel capacity senders inboxes).1.Books :=
  h.still (by simp [Exchange.addChannel]) fun c => flow_addChannel x capacity senders inboxes c

theorem Books.dropInbox (h : x.Books) (d : Nat) : (x.dropInbox d).Books :=
  h.still (by simp [Exchange.dropInbox, onChannel])
    fun c => flow_onChannel x d (fun ch => { ch with inboxes := ch.inboxes - 1 }) (fun _ => rfl) c

theorem Books.dropSender (h : x.Books) (d : Nat) : (x.dropSender d).Books :=
  h.still (by simp [Exchange.dropSender, onChannel])
    fun c => flow_onChannel x d (fun ch => { ch with senders := ch.senders - 1 }) (fun _ => rfl) c

end Exchange

namespace Node

variable {n : Node} {spare : List Nat} {t : Task} {a : Act}

/-! ## Being in order -/

/-- The queue of direct messages, if the node serves them. -/
def directQueue (n : Node) : List Nat := (n.direct.map (·.queue)).toList

def queues (n : Node) (spare : List Nat) : List Nat :=
  n.topics.map (·.queue) ++ spare ++ n.directQueue

/-- The works for which a node has tasks. -/
def Employs (n : Node) : Work → Prop
  | .listen l => l.target ∈ n.topics.map (·.queue) ∧ l.me = n.name
  | .handle h => h.target ∈ n.directQueue
  | .send _ _ | .receive _ => False

/-- Everything in a running node is in order. -/
structure Sound (n : Node) (spare : List Nat) : Prop where
  tidy : n.exchange.Tidy
  fits : n.exchange.Fits
  books : n.exchange.Books
  uncancelled : n.exchange.cancelled = []
  employed : ∀ t ∈ n.exchange.tasks, n.Employs t.work
  apart : ∀ t ∈ n.exchange.tasks, ∀ u ∈ n.exchange.tasks, ∀ l l', t.work = .listen l →
    u.work = .listen l' → l.source = l'.source ∨ l.target = l'.target → t.id = u.id
  unread : ∀ t ∈ n.exchange.tasks, ∀ q ∈ n.queues spare, t.work.holdsReceiver q = false
  distinct : (n.queues spare).Nodup
  queue : ∀ q ∈ n.queues spare, n.exchange.IsQueue q
  subscription : ∀ p ∈ n.subscriptions, p.2 ∉ n.queues spare ∧ n.exchange.IsSubscription p.2
  senders : Accounts n.subscriptions n.directQueue n.exchange.channels (·.senders)
  fresh : (n.subscriptions.map (·.2)).Nodup

theorem mem_directQueue {d : DirectChannel} (hd : n.direct = some d) : d.queue ∈ n.directQueue := by
  simp [directQueue, hd]

theorem mem_queues_of_topic (h : c ∈ n.topics.map (·.queue)) : c ∈ n.queues spare :=
  List.mem_append_left _ (List.mem_append_left _ h)

theorem mem_queues_of_direct (h : c ∈ n.directQueue) : c ∈ n.queues spare :=
  List.mem_append_right _ h

theorem mem_queues_of_spare (h : c ∈ spare) : c ∈ n.queues spare :=
  List.mem_append_left _ (List.mem_append_right _ h)

theorem Employs.atPost {w w' : Work} (h : n.Employs w) (hpost : w.AtPost w') : n.Employs w' := by
  cases hpost with
  | listen hsource htarget hme => exact ⟨htarget ▸ h.1, hme.trans h.2⟩
  | handle htarget hsender => exact (show _ ∈ _ from htarget ▸ h)
  | other => exact h

theorem Employs.target {w : Work} (h : n.Employs w) (hc : w.holdsSender c = true) :
    c ∈ n.queues [] := by
  cases w with
  | send | receive => exact False.elim h
  | listen l =>
    obtain rfl : l.target = c := by simpa [Work.holdsSender] using hc
    exact mem_queues_of_topic h.1
  | handle hd =>
    obtain rfl : hd.target = c := by simpa [Work.holdsSender] using hc
    exact mem_queues_of_direct h

theorem Employs.attaching {w : Work} {q : Nat} (h : n.Employs w) (topic : String) (hlt : q < c) :
    (n.attaching topic hlt).Employs w := by
  cases w with
  | send | receive => exact False.elim h
  | listen l =>
    refine ⟨?_, h.2⟩
    simp only [Node.attaching, List.map_append]
    exact List.mem_append_left _ h.1
  | handle hd => exact h

namespace Sound

theorem topic_notMem (h : n.Sound spare) {q : Nat} (hq : q ∈ n.topics.map (·.queue)) :
    q ∉ spare ∧ q ∉ n.directQueue := by
  have hdistinct := h.distinct
  rw [queues, List.append_assoc, List.nodup_append] at hdistinct
  refine ⟨fun hs => ?_, fun hs => ?_⟩
  · exact hdistinct.2.2 q hq q (List.mem_append_left _ hs) rfl
  · exact hdistinct.2.2 q hq q (List.mem_append_right _ hs) rfl

theorem queue_lt (h : n.Sound spare) {q : Nat} (hq : q ∈ n.queues spare) :
    q < n.exchange.channels.length := (h.queue q hq).lt_length

/-- No task holds a sender of a spare queue. -/
theorem unfilled (h : n.Sound spare) {q : Nat} (hq : q ∈ spare) :
    ∀ t ∈ n.exchange.tasks, t.work.holdsSender q = false := by
  intro t ht
  by_contra hheld
  rw [Bool.not_eq_false] at hheld
  have hdistinct := h.distinct
  rw [queues, List.nodup_append, List.nodup_append] at hdistinct
  rcases List.mem_append.1 ((h.employed t ht).target hheld) with hmem | hmem
  · rw [List.append_nil] at hmem
    exact hdistinct.1.2.2 q hmem q hq rfl
  · exact hdistinct.2.2 q (List.mem_append_right _ hq) q hmem rfl

theorem unfilled_subscription (h : n.Sound spare) {p : String × Nat} (hp : p ∈ n.subscriptions) :
    ∀ t ∈ n.exchange.tasks, t.work.holdsSender p.2 = false := by
  intro t ht
  by_contra hheld
  rw [Bool.not_eq_false] at hheld
  rcases List.mem_append.1 ((h.employed t ht).target hheld) with hmem | hmem
  · rw [List.append_nil] at hmem
    exact (h.subscription p hp).1 (mem_queues_of_topic hmem)
  · exact (h.subscription p hp).1 (mem_queues_of_direct hmem)

/-- Whoever holds a sender of a channel. -/
theorem hasSender_iff (h : n.Sound spare) (c : Nat) :
    n.exchange.hasSender c = true ↔ (∃ p ∈ n.subscriptions, p.2 = c) ∨ c ∈ n.directQueue ∨
      ∃ t ∈ n.exchange.tasks, t.work.holdsSender c = true := by
  unfold Exchange.hasSender
  rw [Bool.or_eq_true, List.any_eq_true,
    h.senders.any_pos_iff_owed fun q hq => h.queue_lt (mem_queues_of_direct hq), or_assoc]

/-- A delivery queue is heard. -/
theorem hasReceiver (h : n.Sound spare) {q : Nat} (hq : q ∈ n.queues spare) :
    n.exchange.hasReceiver q = true := by
  obtain ⟨ch, hch, -, hinboxes⟩ := h.queue q hq
  simp [Exchange.hasReceiver, hch, hinboxes]

theorem isCancelled (h : n.Sound spare) (token : Token) :
    n.exchange.isCancelled token = false := by
  simp [Exchange.isCancelled, h.uncancelled]

/-! ## Staying in order -/

/-- A change of the exchange that leaves holders alone and tasks at their posts. -/
theorem withExchange (h : n.Sound spare)
    (hch : y.channels.map Channel.emptied = n.exchange.channels.map Channel.emptied)
    (hcancelled : y.cancelled = n.exchange.cancelled) (htidy : y.Tidy) (hfits : y.Fits)
    (hbooks : y.Books)
    (htasks : ∀ u ∈ y.tasks, ∃ v ∈ n.exchange.tasks, v.id = u.id ∧ v.work.AtPost u.work) :
    ({ n with exchange := y } : Node).Sound spare where
  tidy := htidy
  fits := hfits
  books := hbooks
  uncancelled := hcancelled.trans h.uncancelled
  employed := by
    intro u hu
    obtain ⟨v, hv, -, hpost⟩ := htasks u hu
    exact (h.employed v hv).atPost hpost
  apart := by
    intro t ht u hu l l' hl hl' hor
    obtain ⟨v, hv, hid, hpost⟩ := htasks t ht
    obtain ⟨v', hv', hid', hpost'⟩ := htasks u hu
    rw [hl] at hpost
    rw [hl'] at hpost'
    obtain ⟨k, hk, hsource, htarget, -⟩ := hpost.of_listen
    obtain ⟨k', hk', hsource', htarget', -⟩ := hpost'.of_listen
    rw [hsource, htarget, hsource', htarget'] at hor
    rw [← hid, ← hid']
    exact h.apart v hv v' hv' k k' hk hk' hor
  unread := by
    intro u hu q hq
    obtain ⟨v, hv, -, hpost⟩ := htasks u hu
    rw [(hpost.holds q).2]
    exact h.unread v hv q hq
  distinct := h.distinct
  queue := fun q hq => (h.queue q hq).of_retains (Exchange.retains_of_emptied hch q)
  subscription := fun p hp => ⟨(h.subscription p hp).1,
    (h.subscription p hp).2.of_retains (Exchange.retains_of_emptied hch p.2)⟩
  senders := h.senders.of_emptied hch fun _ => rfl
  fresh := h.fresh

theorem onlyMessages (h : n.Sound spare) (hy : OnlyMessages n.exchange y) (hbooks : y.Books) :
    ({ n with exchange := y } : Node).Sound spare :=
  h.withExchange hy.channels hy.cancelled (h.tidy.onlyMessages hy) (hy.fits h.fits) hbooks
    fun u hu => ⟨u, hy.tasks ▸ hu, rfl, .other _⟩

/-- **An act keeps a node in order.** -/
theorem perform (h : n.Sound spare) (ht : t ∈ n.exchange.tasks) (ha : n.exchange.Does t a) :
    ({ n with exchange := n.exchange.perform t a } : Node).Sound spare := by
  have hm := ha.onlyMessages_perform
  refine h.withExchange ?_ ?_ (h.tidy.perform ht ha) (hm.fits ?_) (h.books.perform h.tidy ht ha)
    fun u hu => Exchange.mem_tasks_of_perform ht ha hu
  · rw [hm.channels, Exchange.channels_conclude]
    rfl
  · rw [hm.cancelled, Exchange.cancelled_conclude]
    rfl
  · unfold Exchange.Fits
    rw [Exchange.channels_conclude]
    exact h.fits

/-- **What the acts of a sound node preserve is preserved by settling**, which keeps the node
sound. -/
theorem settle_induction {P : Exchange → Prop} (h : n.Sound spare) (hP : P n.exchange)
    (hstep : ∀ y t a, ({ n with exchange := y } : Node).Sound spare → P y → t ∈ y.tasks →
      y.Does t a → P (y.perform t a)) : n.settle.Sound spare ∧ P n.settle.exchange := by
  refine Exchange.settle_induction
    (P := fun y => ({ n with exchange := y } : Node).Sound spare ∧ P y) ⟨h, hP⟩ ?_
  rintro y t a ⟨hsound, hy⟩ ht ha
  exact ⟨hsound.perform ht ha, hstep y t a hsound hy ht ha⟩

theorem settle (h : n.Sound spare) : n.settle.Sound spare :=
  (h.settle_induction (P := fun _ => True) trivial fun _ _ _ _ _ _ _ => trivial).1

theorem contacts (h : n.Sound spare) (cs : List (PeerId × Multiaddr)) :
    ({ n with contacts := cs } : Node).Sound spare :=
  ⟨h.tidy, h.fits, h.books, h.uncancelled, h.employed, h.apart, h.unread, h.distinct, h.queue,
    h.subscription, h.senders, h.fresh⟩

/-! ### Subscriptions -/

theorem unsubscribe (h : n.Sound spare) (topic : String) : (n.unsubscribe topic).Sound spare := by
  unfold Node.unsubscribe
  split
  · rename_i c hl
    have hretains := Exchange.retains_dropSender n.exchange c
    exact {
      tidy := h.tidy.onChannel _ _
      fits := h.fits.onChannel fun _ _ hle => hle
      books := h.books.dropSender c
      uncancelled := h.uncancelled
      employed := h.employed
      apart := h.apart
      unread := h.unread
      distinct := h.distinct
      queue := fun q hq => (h.queue q hq).of_retains (hretains q)
      subscription := fun p hp => ⟨(h.subscription p (List.mem_of_mem_filter hp)).1,
        (h.subscription p (List.mem_of_mem_filter hp)).2.of_retains (hretains p.2)⟩
      senders := h.senders.drop (fun _ => rfl) hl
      fresh := h.fresh.sublist (List.filter_sublist.map _) }
  · exact h

theorem youngest_notMem (h : n.Sound spare) : n.exchange.channels.length ∉ n.queues spare :=
  fun hmem => absurd (h.queue_lt hmem) (Nat.lt_irrefl _)

theorem idle_youngest (h : n.Sound spare) : ∀ t ∈ n.exchange.tasks,
    t.work.holdsSender n.exchange.channels.length = false ∧
      t.work.holdsReceiver n.exchange.channels.length = false := by
  intro t ht
  have hknown := h.tidy.known t ht n.exchange.channels.length
  refine ⟨?_, ?_⟩
  · by_contra hheld
    exact absurd (hknown (Or.inl (by simpa using hheld))) (Nat.lt_irrefl _)
  · by_contra hheld
    exact absurd (hknown (Or.inr (by simpa using hheld))) (Nat.lt_irrefl _)

/-- A new subscription takes the place of the one before. -/
theorem subscribing (h : n.Sound spare) (topic : String) : (n.subscribing topic).Sound spare := by
  have hold := h.unsubscribe topic
  have hretains := Exchange.retains_addChannel (n.unsubscribe topic).exchange
    subscriptionCapacity 1 1
  exact {
    tidy := hold.tidy.addChannel subscriptionCapacity 1 1
    fits := Session.fits_addChannel hold.fits subscriptionCapacity 1 1
    books := hold.books.addChannel subscriptionCapacity 1 1
    uncancelled := hold.uncancelled
    employed := hold.employed
    apart := hold.apart
    unread := hold.unread
    distinct := hold.distinct
    queue := fun q hq => (hold.queue q hq).of_retains (hretains q)
    subscription := by
      intro p hp
      rcases List.mem_cons.1 hp with rfl | hp
      · exact ⟨hold.youngest_notMem, _, Exchange.getElem_addChannel _ _ _ _, rfl⟩
      · exact ⟨(hold.subscription p hp).1, (hold.subscription p hp).2.of_retains (hretains p.2)⟩
    senders := by
      have howed : ∀ c ∈ (n.unsubscribe topic).directQueue,
          c < (n.unsubscribe topic).exchange.channels.length :=
        fun c hc => hold.queue_lt (mem_queues_of_direct hc)
      have hgrown := hold.senders.extend_owed ⟨subscriptionCapacity, [], 1, 1⟩
        [(n.unsubscribe topic).exchange.channels.length] howed (by simp) (by simp)
      refine hgrown.pay ?_ (notMem_unsubscribe n topic)
      simp
    fresh := by
      refine List.nodup_cons.2 ⟨fun hmem => ?_, hold.fresh⟩
      obtain ⟨p, hp, hlen⟩ := List.mem_map.1 hmem
      exact absurd (hold.senders.known p hp) (by rw [hlen]; exact Nat.lt_irrefl _) }

/-- **Subscribing keeps a node in order.** -/
theorem subscribe (h : n.Sound spare) (topic : String) : (n.subscribe topic).1.Sound spare :=
  (h.subscribing topic).settle

/-- Giving up the receiving end of a channel that is no queue. -/
theorem abandoning (h : n.Sound spare) (hc : c ∉ n.queues spare) :
    ({ n with exchange := n.exchange.dropInbox c } : Node).Sound spare := by
  have hretains : ∀ q ∈ n.queues spare, Exchange.Retains n.exchange (n.exchange.dropInbox c) q :=
    fun q hq => Exchange.retains_dropInbox _ fun he => hc (he ▸ hq)
  exact {
    tidy := h.tidy.onChannel _ _
    fits := h.fits.onChannel fun _ _ hle => hle
    books := h.books.dropInbox c
    uncancelled := h.uncancelled
    employed := h.employed
    apart := h.apart
    unread := h.unread
    distinct := h.distinct
    queue := fun q hq => (h.queue q hq).of_retains (hretains q hq)
    subscription := fun p hp => ⟨(h.subscription p hp).1,
      (h.subscription p hp).2.dropInbox c⟩
    senders := h.senders.of_modify fun _ => rfl
    fresh := h.fresh }

/-! ### Joining a topic -/

/-- A queue that no listener fills yet. -/
theorem addQueue (h : n.Sound []) : (n.addQueue 0).Sound [n.exchange.channels.length] := by
  have hretains := Exchange.retains_addChannel n.exchange deliveryQueueCapacity 0 1
  have hqueues : ∀ q ∈ (n.addQueue 0).queues [n.exchange.channels.length],
      q ∈ n.queues [] ∨ q = n.exchange.channels.length := by
    intro q hq
    simp only [queues, List.mem_append, List.mem_singleton, List.not_mem_nil, or_false] at hq ⊢
    tauto
  exact {
    tidy := h.tidy.addChannel deliveryQueueCapacity 0 1
    fits := Session.fits_addChannel h.fits deliveryQueueCapacity 0 1
    books := h.books.addChannel deliveryQueueCapacity 0 1
    uncancelled := h.uncancelled
    employed := h.employed
    apart := h.apart
    unread := by
      intro t ht q hq
      rcases hqueues q hq with hq | rfl
      · exact h.unread t ht q hq
      · exact (h.idle_youngest t ht).2
    distinct := by
      have hnew := h.youngest_notMem
      have hdistinct := h.distinct
      simp only [queues, List.append_nil] at hnew hdistinct
      rw [queues, List.append_assoc, List.singleton_append, List.nodup_middle]
      exact List.nodup_cons.2 ⟨hnew, hdistinct⟩
    queue := by
      intro q hq
      rcases hqueues q hq with hq | rfl
      · exact (h.queue q hq).of_retains (hretains q)
      · exact ⟨_, Exchange.getElem_addChannel _ _ _ _, rfl, Nat.zero_lt_one⟩
    subscription := by
      intro p hp
      refine ⟨fun hmem => ?_, (h.subscription p hp).2.of_retains (hretains p.2)⟩
      rcases hqueues p.2 hmem with hmem | hlen
      · exact (h.subscription p hp).1 hmem
      · exact absurd (h.senders.known p hp) (by omega)
    senders := by
      have howed : ∀ c ∈ n.directQueue, c < n.exchange.channels.length :=
        fun c hc => h.queue_lt (mem_queues_of_direct hc)
      exact h.senders.extend_owed _ [] howed rfl fun c hc => absurd hc List.not_mem_nil
    fresh := h.fresh }

/-- **A new listener on a new subscription fills the spare queue.** -/
theorem attaching {q : Nat} (h : n.Sound [q]) (hlt : q < c) (hc : ∃ p ∈ n.subscriptions, p.2 = c)
    (hunread : ∀ t ∈ n.exchange.tasks, t.work.holdsReceiver c = false) (topic : String) :
    (n.attaching topic hlt).Sound [] := by
  obtain ⟨p, hp, rfl⟩ := hc
  have hqueue : q ∈ n.queues [q] := mem_queues_of_spare (List.mem_singleton_self q)
  have hqueues : (n.attaching topic hlt).queues [] = n.queues [q] := by
    simp [queues, Node.attaching, directQueue]
  have hretains : ∀ q' ∈ n.queues [q], Exchange.Retains n.exchange (n.exchange.dropInbox p.2) q' :=
    fun q' hq' => Exchange.retains_dropInbox _ fun he => (h.subscription p hp).1 (he ▸ hq')
  have htasks : ∀ t ∈ (n.attaching topic hlt).exchange.tasks, t ∈ n.exchange.tasks ∨
      t = ⟨n.exchange.moment, .listen ⟨p.2, q, hlt, n.name, token, none, false⟩⟩ := by
    intro t ht
    exact (List.mem_append.1 ht).imp_right List.mem_singleton.1
  -- No listener that was there before reads the subscription or fills the queue.
  have hnew : ∀ t ∈ n.exchange.tasks, ∀ l, t.work = .listen l → l.source ≠ p.2 ∧ l.target ≠ q := by
    intro t ht l hl
    refine ⟨fun he => ?_, fun he => ?_⟩
    · have hread := hunread t ht
      rw [hl] at hread
      simp [Work.holdsReceiver, he] at hread
    · have hfill := h.unfilled (List.mem_singleton_self q) t ht
      rw [hl] at hfill
      simp [Work.holdsSender, he] at hfill
  exact {
    tidy := by
      refine (h.tidy.onChannel _ _).spawn fun d hd => ?_
      simp only [Work.holdsSender, Work.holdsReceiver, beq_iff_eq] at hd
      simp only [Exchange.onChannel, List.length_modify]
      have hsub := h.senders.known p hp
      omega
    fits := h.fits.onChannel (d := p.2) fun _ _ hle => hle
    books := (h.books.dropInbox p.2).still (Nat.le_refl _) fun d => Exchange.flow_of_eq rfl rfl
    uncancelled := h.uncancelled
    employed := by
      intro t ht
      rcases htasks t ht with ht | rfl
      · exact (h.employed t ht).attaching topic hlt
      · exact ⟨by simp [Node.attaching], rfl⟩
    apart := by
      intro t ht u hu l l' hl hl' hor
      rcases htasks t ht with ht | rfl <;> rcases htasks u hu with hu | rfl
      · exact h.apart t ht u hu l l' hl hl' hor
      · cases hl'
        exact absurd hor (not_or.2 (hnew t ht l hl))
      · cases hl
        obtain ⟨hsource, htarget⟩ := hnew u hu l' hl'
        exact absurd hor (not_or.2 ⟨hsource.symm, htarget.symm⟩)
      · rfl
    unread := by
      intro t ht q' hq'
      rw [hqueues] at hq'
      rcases htasks t ht with ht | rfl
      · exact h.unread t ht q' hq'
      · rw [← Bool.not_eq_true]
        intro hread
        obtain rfl : p.2 = q' := by simpa [Work.holdsReceiver] using hread
        exact (h.subscription p hp).1 hq'
    distinct := hqueues ▸ h.distinct
    queue := fun q' hq' => (h.queue q' (hqueues ▸ hq')).of_retains (hretains q' (hqueues ▸ hq'))
    subscription := fun p' hp' => ⟨hqueues ▸ (h.subscription p' hp').1,
      (h.subscription p' hp').2.dropInbox p.2⟩
    senders := h.senders.of_modify fun _ => rfl
    fresh := h.fresh }

theorem joining (h : n.Sound []) (topic : String) :
    ((n.addQueue 0).subscribe topic).1.Sound [n.exchange.channels.length] ∧
      ∀ t ∈ ((n.addQueue 0).subscribe topic).1.exchange.tasks,
        t.work.holdsReceiver ((n.addQueue 0).subscribe topic).2 = false := by
  refine ⟨h.addQueue.subscribe topic, ?_⟩
  intro t ht
  obtain ⟨v, hv, -, hpost⟩ := Exchange.mem_tasks_settle ht
  rw [(hpost.holds _).2]
  exact ((h.addQueue.unsubscribe topic).idle_youngest v hv).2

/-- **Joining a topic keeps a node in order.** -/
theorem join (h : n.Sound []) (topic : String) : (n.join topic).Sound [] := by
  obtain ⟨hsound, hunread⟩ := h.joining topic
  rw [Node.join]
  exact (hsound.attaching (n.queue_lt_subscription topic 0) ⟨_, List.mem_cons_self, rfl⟩ hunread
    topic).settle

/-! ### Messages -/

/-- **Taking in a message keeps a node in order.** -/
theorem hear (h : n.Sound spare) (sender : PeerName) (topic : String) (data : Bytes) :
    (n.hear sender topic data).Sound spare := by
  rcases n.hear_cases sender topic data with ⟨-, he⟩ | ⟨c, -, -, he⟩ | ⟨c, -, -, he⟩ <;> rw [he]
  · exact h
  · exact h.onlyMessages (Exchange.onlyMessages_offer _ _ _) (h.books.offer _ _)
  · exact h.unsubscribe topic

/-- **Serving direct messages keeps a node in order.** -/
theorem serving (h : n.Sound []) (hnone : n.direct = none) (protocol : String) :
    (n.serving protocol).Sound [] := by
  have hretains := Exchange.retains_addChannel n.exchange deliveryQueueCapacity 1 1
  have hold : n.queues [] = n.topics.map (·.queue) := by simp [queues, directQueue, hnone]
  have hdirect : (n.serving protocol).directQueue = [n.exchange.channels.length] := rfl
  have hqueues : (n.serving protocol).queues [] = n.queues [] ++ [n.exchange.channels.length] := by
    rw [hold, queues, hdirect, List.append_nil]
    rfl
  have hnew : ∀ q ∈ (n.serving protocol).queues [],
      q ∈ n.queues [] ∨ q = n.exchange.channels.length := by
    intro q hq
    rwa [hqueues, List.mem_append, List.mem_singleton] at hq
  exact {
    tidy := h.tidy.addChannel deliveryQueueCapacity 1 1
    fits := Session.fits_addChannel h.fits deliveryQueueCapacity 1 1
    books := h.books.addChannel deliveryQueueCapacity 1 1
    uncancelled := h.uncancelled
    employed := by
      intro t ht
      have hemployed := h.employed t ht
      cases hw : t.work with
      | send | receive =>
        rw [hw] at hemployed
        exact hemployed
      | listen l =>
        rw [hw] at hemployed
        exact hemployed
      | handle hd =>
        rw [hw] at hemployed
        simp [Employs, directQueue, hnone] at hemployed
    apart := h.apart
    unread := by
      intro t ht q hq
      rcases hnew q hq with hq | rfl
      · exact h.unread t ht q hq
      · exact (h.idle_youngest t ht).2
    distinct := by
      rw [hqueues, ← List.concat_eq_append, List.nodup_concat]
      exact ⟨h.youngest_notMem, h.distinct⟩
    queue := by
      intro q hq
      rcases hnew q hq with hq | rfl
      · exact (h.queue q hq).of_retains (hretains q)
      · exact ⟨_, Exchange.getElem_addChannel _ _ _ _, rfl, Nat.zero_lt_one⟩
    subscription := by
      intro p hp
      refine ⟨fun hmem => ?_, (h.subscription p hp).2.of_retains (hretains p.2)⟩
      rcases hnew p.2 hmem with hmem | hlen
      · exact (h.subscription p hp).1 hmem
      · exact absurd (h.senders.known p hp) (by omega)
    senders := by
      have hsenders := h.senders
      simp only [directQueue, hnone, Option.map_none, Option.toList_none] at hsenders
      rw [hdirect]
      exact hsenders.extend (by simp) (by simp)
    fresh := h.fresh }

/-- A stream for which there is a new handler. -/
theorem handling (h : n.Sound spare) {d : DirectChannel} (hd : n.direct = some d)
    (sender : PeerName) (script : List ReadEvent) : (n.handling d sender script).Sound spare := by
  have hdirect := mem_directQueue hd
  have htasks : ∀ t ∈ (n.exchange.accept d.queue sender script true
      n.config.requestTimeout.toNat token).1.tasks, t ∈ n.exchange.tasks ∨
        ∃ stage, t = ⟨n.exchange.moment, .handle ⟨d.queue, sender, token, true, stage⟩⟩ := by
    intro t ht
    refine (List.mem_append.1 ht).imp_right fun ht => ?_
    exact ⟨_, List.mem_singleton.1 ht⟩
  exact {
    tidy := by
      refine h.tidy.spawn fun c hc => ?_
      obtain rfl : d.queue = c := by simpa [Work.holdsSender, Work.holdsReceiver] using hc
      exact h.queue_lt (mem_queues_of_direct hdirect)
    fits := h.fits
    books := h.books.still (Nat.le_refl _) fun c => Exchange.flow_of_eq rfl rfl
    uncancelled := h.uncancelled
    employed := by
      intro t ht
      rcases htasks t ht with ht | ⟨stage, rfl⟩
      · exact h.employed t ht
      · exact hdirect
    apart := by
      intro t ht u hu l l' hl hl' hor
      rcases htasks t ht with ht | ⟨stage, rfl⟩
      · rcases htasks u hu with hu | ⟨stage, rfl⟩
        · exact h.apart t ht u hu l l' hl hl' hor
        · cases hl'
      · cases hl
    unread := by
      intro t ht q hq
      rcases htasks t ht with ht | ⟨stage, rfl⟩
      · exact h.unread t ht q hq
      · rfl
    distinct := h.distinct
    queue := h.queue
    subscription := h.subscription
    senders := h.senders
    fresh := h.fresh }

/-- A node that has done nothing yet. -/
theorem bare (c : Config) (id : PeerId) (services : Services)
    (contacts : List (PeerId × Multiaddr)) :
    ({ config := c, id := id, services := services, contacts := contacts } : Node).Sound [] where
  tidy := ⟨List.nodup_nil, fun t ht => absurd ht List.not_mem_nil,
    fun t ht => absurd ht List.not_mem_nil, fun id o ho => by cases ho⟩
  fits := fun c channel hc => by simp at hc
  books := ⟨fun c => rfl, fun c _ => rfl⟩
  uncancelled := rfl
  employed := fun t ht => absurd ht List.not_mem_nil
  apart := fun t ht => absurd ht List.not_mem_nil
  unread := fun t ht => absurd ht List.not_mem_nil
  distinct := List.nodup_nil
  queue := fun q hq => absurd hq List.not_mem_nil
  subscription := fun p hp => absurd hp List.not_mem_nil
  senders := ⟨List.nodup_nil, fun p hp => absurd hp List.not_mem_nil, fun c ch hc => by simp at hc⟩
  fresh := List.nodup_nil

end Sound
end Node
end PeerNode
