import PeerNode.Proofs.Node.Isolation

/-!
# The ledger of a node's subscriptions

Whoever subscribes to a topic gets the receiving end of a new channel, and the node keeps the
sender in its table.  Beside the table one can keep a ledger: of all subscriptions that were ever
`made`, the latest first, and of those whose receiving end is `lent` to some caller.  The ledger is
right (`Ledger`) if each entry of the table is the latest subscription to its topic, the only sender
of a subscription is the one in the table, and its receiving end is with the caller to whom it was
lent, or else with a listener or nowhere.

This needs nothing of what a node is otherwise, so it survives a listener that stops because its
queue is given up and tasks that are cancelled while the node still runs.  Whatever leaves the table
and the ends of the subscriptions alone keeps it (`withExchange`), and so four changes are left: an
entry is given up, a subscription is made, a listener takes over a receiving end, and a caller gives
one up.

What goes through a subscription is said apart (`Carries`): what enters it, and what leaves it while
a caller holds its receiving end.

* `subscription?_subscribe`, `subscription?_join`, `subscription?_hear`: what becomes of entries.
* `Node.Ledger`: the ledger is right.
* `Ledger.hasSender_iff`, `hasReceiver_iff`: who holds the ends of a subscription.
* `Ledger.withExchange`, `perform`, `settle`, `onlyMessages`, `serving`: what leaves it alone.
* `Ledger.unsubscribe`, `subscribing`, `attaching`, `dropping`: what changes it.
* `Ledger.happen`: whatever happens to a node that runs.
* `Carries`: what enters and leaves subscriptions; `Ledger.carries_happen`.
* `Ledger.carries_subscribe`, `carries_join`: for subscribing and joining.
-/

namespace PeerNode

open Exchange (OnlyMessages Books Flow)
open Session (Accounts)

variable {x y : Exchange} {c d : Nat}

namespace Exchange

theorem flow_settle (h : ∀ t ∈ x.tasks,
    t.work.holdsSender c = false ∧ t.work.holdsReceiver c = false) :
    Flow x x.settle c [] [] where
  conserved := by rw [List.append_nil, List.nil_append, buffer_congr (getElem_settle h)]
  accepted := by rw [accepted_settle fun t ht => (h t ht).1, List.append_nil]
  delivered := by rw [delivered_settle fun t ht => (h t ht).2, List.append_nil]

end Exchange

namespace Node

/-! ## What becomes of the entries -/

/-- Subscribing enters a new subscription, and leaves the entries of other topics. -/
theorem subscription?_subscribe (n : Node) (topic s : String) :
    (n.subscribe topic).1.subscription? s =
      if s = topic then some (n.subscribe topic).2 else n.subscription? s := by
  change List.lookup s ((topic, (n.subscribe topic).2) :: (n.unsubscribe topic).subscriptions) = _
  split
  · rename_i he
    rw [he, List.lookup_cons_self]
  · rename_i hne
    rw [List.lookup_cons, beq_false_of_ne hne]
    exact n.subscription?_unsubscribe hne

theorem subscription?_join (n : Node) (topic s : String) : (n.join topic).subscription? s =
    if s = topic then some ((n.addQueue 0).subscribe topic).2 else n.subscription? s :=
  (n.addQueue 0).subscription?_subscribe topic s

/-- **A message removes the entry of its topic** if the receiving end is nowhere, and no other. -/
theorem subscription?_hear (n : Node) (author : PeerName) (topic : String) (data : Bytes)
    (s : String) : (n.hear author topic data).subscription? s =
      (n.subscription? s).filter fun c => s != topic || n.exchange.hasReceiver c := by
  by_cases hs : s = topic
  · subst hs
    rcases n.hear_cases author s data with ⟨hc, he⟩ | ⟨c, hc, hsome, he⟩ | ⟨c, hc, hnone, he⟩ <;>
      rw [he, hc]
    · rfl
    · rw [Option.filter_some, hsome, Bool.or_true, if_pos rfl]
      exact hc
    · rw [n.subscription?_unsubscribe_self, Option.filter_some, hnone]
      simp
  · have hall : (n.subscription? s).filter (fun c => s != topic || n.exchange.hasReceiver c) =
        n.subscription? s := by
      cases n.subscription? s <;> simp [Option.filter_some, hs]
    rw [hall]
    rcases n.hear_cases author topic data with ⟨-, he⟩ | ⟨c, -, -, he⟩ | ⟨c, -, -, he⟩ <;> rw [he]
    · rfl
    · exact n.subscription?_unsubscribe hs

/-! ## The ledger -/

variable {n m k : Node} {made : List (String × Nat)} {lent : List Nat} {topic : String}

/-- The ledger of a node's subscriptions is right: `made` are all that were made, the latest first,
and `lent` those whose receiving end some caller has. -/
structure Ledger (n : Node) (made : List (String × Nat)) (lent : List Nat) : Prop where
  running : n.running = true
  tidy : n.exchange.Tidy
  books : n.exchange.Books
  senders : Accounts n.subscriptions n.directQueue n.exchange.channels (·.senders)
  latest : ∀ p ∈ n.subscriptions, made.lookup p.1 = some p.2
  distinct : (made.map (·.2)).Nodup
  inboxes : ∀ c ∈ made.map (·.2),
    n.exchange.channels[c]?.map (·.inboxes) = some (if c ∈ lent then 1 else 0)
  unfilled : ∀ c ∈ made.map (·.2), ∀ t ∈ n.exchange.tasks, t.work.holdsSender c = false
  unread : ∀ c ∈ lent, ∀ t ∈ n.exchange.tasks, t.work.holdsReceiver c = false
  known : ∀ c ∈ lent, c ∈ made.map (·.2)
  queues : ∀ q ∈ n.queues [], q < n.exchange.channels.length ∧ q ∉ made.map (·.2)

namespace Ledger

/-- A node that has done nothing yet. -/
theorem bare (c : Config) (id : PeerId) (services : Services)
    (contacts : List (PeerId × Multiaddr)) :
    ({ config := c, id := id, services := services, contacts := contacts } : Node).Ledger [] [] :=
  have hsound := Sound.bare c id services contacts
  { running := rfl
    tidy := hsound.tidy
    books := hsound.books
    senders := hsound.senders
    latest := fun _ hp => absurd hp List.not_mem_nil
    distinct := List.nodup_nil
    inboxes := fun _ hc => absurd hc List.not_mem_nil
    unfilled := fun _ hc => absurd hc List.not_mem_nil
    unread := fun _ hc => absurd hc List.not_mem_nil
    known := fun _ hc => absurd hc List.not_mem_nil
    queues := fun _ hq => absurd hq List.not_mem_nil }

/-! ## Who holds the ends of a subscription -/

theorem lt_length (h : n.Ledger made lent) (hc : c ∈ made.map (·.2)) :
    c < n.exchange.channels.length := by
  obtain ⟨ch, hch, -⟩ := Option.map_eq_some_iff.1 (h.inboxes c hc)
  exact (List.getElem?_eq_some_iff.1 hch).1

theorem youngest_notMem (h : n.Ledger made lent) : n.exchange.channels.length ∉ made.map (·.2) :=
  fun hmem => absurd (h.lt_length hmem) (Nat.lt_irrefl _)

theorem mem_made (h : n.Ledger made lent) (hc : n.subscription? topic = some c) :
    c ∈ made.map (·.2) :=
  List.mem_map_of_mem (Session.mem_of_lookup_eq_some
    (h.latest (topic, c) (Session.mem_of_lookup_eq_some hc)))

theorem lookup_made (h : n.Ledger made lent) (hc : n.subscription? topic = some c) :
    made.lookup topic = some c :=
  h.latest (topic, c) (Session.mem_of_lookup_eq_some hc)

theorem topic_eq (h : n.Ledger made lent) {other : String} (hc : n.subscription? topic = some c)
    (hc' : n.subscription? other = some c) : topic = other :=
  congrArg Prod.fst (List.inj_on_of_nodup_map h.distinct
    (Session.mem_of_lookup_eq_some (h.lookup_made hc))
    (Session.mem_of_lookup_eq_some (h.lookup_made hc')) rfl)

theorem exists_entry_iff (h : n.Ledger made lent) :
    (∃ p ∈ n.subscriptions, p.2 = c) ↔ ∃ topic, n.subscription? topic = some c := by
  constructor
  · rintro ⟨⟨topic, c'⟩, hp, rfl⟩
    refine ⟨topic, ?_⟩
    cases hl : n.subscription? topic with
    | none => exact absurd (List.mem_map_of_mem hp) (Session.notMem_of_lookup_eq_none hl)
    | some c => rw [Session.eq_of_mem_of_lookup h.senders.distinct hp hl]
  · rintro ⟨topic, hc⟩
    exact ⟨_, Session.mem_of_lookup_eq_some hc, rfl⟩

/-- **The only sender of a subscription is the one in the table.** -/
theorem hasSender_iff (h : n.Ledger made lent) (hc : c ∈ made.map (·.2)) :
    n.exchange.hasSender c = true ↔ ∃ topic, n.subscription? topic = some c := by
  have hdirect : c ∉ n.directQueue := fun hq => (h.queues c (mem_queues_of_direct hq)).2 hc
  have htasks : n.exchange.tasks.any (·.work.holdsSender c) = false := by
    rw [List.any_eq_false]
    exact fun t ht => by rw [h.unfilled c hc t ht]; exact Bool.false_ne_true
  unfold Exchange.hasSender
  rw [htasks, Bool.or_false, h.senders.any_pos_iff_owed
    fun q hq => (h.queues q (mem_queues_of_direct hq)).1, h.exists_entry_iff,
    or_iff_left hdirect]

/-- **The receiving end of a subscription** is with a caller or with a listener, or nowhere. -/
theorem hasReceiver_iff (h : n.Ledger made lent) (hc : c ∈ made.map (·.2)) :
    n.exchange.hasReceiver c = true ↔
      c ∈ lent ∨ ∃ t ∈ n.exchange.tasks, t.work.holdsReceiver c = true := by
  have hinboxes := h.inboxes c hc
  obtain ⟨ch, hch, hcount⟩ := Option.map_eq_some_iff.1 hinboxes
  unfold Exchange.hasReceiver
  rw [Bool.or_eq_true, List.any_eq_true, hch, Option.any_some, decide_eq_true_eq, hcount]
  by_cases hlent : c ∈ lent <;> simp [hlent]

theorem idle (h : n.Ledger made lent) (hc : c ∈ lent) : ∀ t ∈ n.exchange.tasks,
    t.work.holdsSender c = false ∧ t.work.holdsReceiver c = false :=
  fun t ht => ⟨h.unfilled c (h.known c hc) t ht, h.unread c hc t ht⟩

theorem idle_youngest (h : n.Ledger made lent) : ∀ t ∈ n.exchange.tasks,
    t.work.holdsSender n.exchange.channels.length = false ∧
      t.work.holdsReceiver n.exchange.channels.length = false := by
  intro t ht
  have hknown := h.tidy.known t ht n.exchange.channels.length
  simpa [Nat.lt_irrefl] using hknown

/-! ## What leaves the ledger alone -/

/-- **A change that leaves the ends of all subscriptions alone.**  Tasks stay at their posts, and
new ones work elsewhere. -/
theorem withExchange (h : n.Ledger made lent) (htidy : y.Tidy) (hbooks : y.Books)
    (hlength : n.exchange.channels.length ≤ y.channels.length)
    (hsenders : Accounts n.subscriptions n.directQueue y.channels (·.senders))
    (hinboxes : ∀ c ∈ made.map (·.2),
      y.channels[c]?.map (·.inboxes) = n.exchange.channels[c]?.map (·.inboxes))
    (htasks : ∀ u ∈ y.tasks, (∃ v ∈ n.exchange.tasks, v.work.AtPost u.work) ∨
      ∀ c ∈ made.map (·.2), u.work.holdsSender c = false ∧ u.work.holdsReceiver c = false) :
    ({ n with exchange := y } : Node).Ledger made lent where
  running := h.running
  tidy := htidy
  books := hbooks
  senders := hsenders
  latest := h.latest
  distinct := h.distinct
  inboxes := fun c hc => (hinboxes c hc).trans (h.inboxes c hc)
  unfilled := by
    intro c hc u hu
    rcases htasks u hu with ⟨v, hv, hpost⟩ | helsewhere
    · rw [(hpost.holds c).1]
      exact h.unfilled c hc v hv
    · exact (helsewhere c hc).1
  unread := by
    intro c hc u hu
    rcases htasks u hu with ⟨v, hv, hpost⟩ | helsewhere
    · rw [(hpost.holds c).2]
      exact h.unread c hc v hv
    · exact (helsewhere c (h.known c hc)).2
  known := h.known
  queues := fun q hq => ⟨Nat.lt_of_lt_of_le (h.queues q hq).1 hlength, (h.queues q hq).2⟩

theorem sameChannels (h : n.Ledger made lent) (htidy : y.Tidy) (hbooks : y.Books)
    (hchannels : y.channels = n.exchange.channels)
    (htasks : ∀ u ∈ y.tasks, u ∈ n.exchange.tasks ∨
      ∀ c ∈ made.map (·.2), u.work.holdsSender c = false ∧ u.work.holdsReceiver c = false) :
    ({ n with exchange := y } : Node).Ledger made lent := by
  refine h.withExchange htidy hbooks (by rw [hchannels]) (hchannels ▸ h.senders)
    (fun c _ => by rw [hchannels]) fun u hu => (htasks u hu).imp_left fun hu => ?_
  exact ⟨u, hu, .other _⟩

/-- Moving messages from outside leaves the ledger alone. -/
theorem onlyMessages (h : n.Ledger made lent) (hy : OnlyMessages n.exchange y) (hbooks : y.Books) :
    ({ n with exchange := y } : Node).Ledger made lent := by
  refine h.withExchange (h.tidy.onlyMessages hy) hbooks (Nat.le_of_eq hy.length_channels.symm)
    (h.senders.of_emptied hy.channels fun _ => rfl) (fun c _ => ?_)
    fun u hu => Or.inl ⟨u, hy.tasks ▸ hu, .other _⟩
  have hsame := congrArg (fun l => l[c]?.map (·.inboxes)) hy.channels
  simpa only [List.getElem?_map, Option.map_map, Function.comp_def, Channel.emptied] using hsame

/-- **An act leaves the ledger alone.** -/
theorem perform (h : n.Ledger made lent) {t : Task} {a : Act} (ht : t ∈ n.exchange.tasks)
    (ha : n.exchange.Does t a) :
    ({ n with exchange := n.exchange.perform t a } : Node).Ledger made lent := by
  have hchannels : (n.exchange.perform t a).channels.map Channel.emptied =
      n.exchange.channels.map Channel.emptied := by
    rw [ha.onlyMessages_perform.channels, Exchange.channels_conclude]
    rfl
  have hlength := congrArg List.length hchannels
  rw [List.length_map, List.length_map] at hlength
  refine h.withExchange (h.tidy.perform ht ha) (h.books.perform h.tidy ht ha)
    (Nat.le_of_eq hlength.symm) (h.senders.of_emptied hchannels fun _ => rfl) (fun c _ => ?_)
    fun u hu => ?_
  · have hsame := congrArg (fun l => l[c]?.map (·.inboxes)) hchannels
    simpa only [List.getElem?_map, Option.map_map, Function.comp_def, Channel.emptied] using hsame
  · obtain ⟨v, hv, -, hpost⟩ := Exchange.mem_tasks_of_perform ht ha hu
    exact Or.inl ⟨v, hv, hpost⟩

/-- **Settling leaves the ledger alone.** -/
theorem settle (h : n.Ledger made lent) : n.settle.Ledger made lent :=
  Exchange.settle_induction (P := fun y => ({ n with exchange := y } : Node).Ledger made lent) h
    fun _ _ _ hy ht ha => hy.perform ht ha

theorem contacts (h : n.Ledger made lent) (cs : List (PeerId × Multiaddr)) :
    ({ n with contacts := cs } : Node).Ledger made lent :=
  ⟨h.running, h.tidy, h.books, h.senders, h.latest, h.distinct, h.inboxes, h.unfilled, h.unread,
    h.known, h.queues⟩

/-- A handler works at no subscription. -/
theorem handling (h : n.Ledger made lent) {d : DirectChannel} (hd : n.direct = some d)
    (sender : PeerName) (script : List ReadEvent) :
    (n.handling d sender script).Ledger made lent := by
  obtain ⟨hlt, hnot⟩ := h.queues d.queue (mem_queues_of_direct (mem_directQueue hd))
  refine h.sameChannels (h.tidy.spawn fun c hc => ?_)
    (h.books.still (Nat.le_refl _) fun c => Exchange.flow_of_eq rfl rfl) rfl fun u hu => ?_
  · obtain rfl : d.queue = c := by simpa [Work.holdsSender, Work.holdsReceiver] using hc
    exact hlt
  · refine (List.mem_append.1 hu).imp_right fun hu c hc => ?_
    obtain rfl := List.mem_singleton.1 hu
    have hne : d.queue ≠ c := fun he => hnot (he ▸ hc)
    simpa [Work.holdsSender, Work.holdsReceiver] using hne

theorem releasing {q : Nat} (h : n.Ledger made lent) (hq : q ∉ made.map (·.2)) :
    ({ n with exchange := n.exchange.dropInbox q } : Node).Ledger made lent := by
  refine h.withExchange (h.tidy.onChannel _ _) (h.books.dropInbox q)
    (Nat.le_of_eq (List.length_modify _ _ _).symm) (h.senders.of_modify fun _ => rfl)
    (fun c hc => ?_) fun u hu => Or.inl ⟨u, hu, .other _⟩
  have hne : q ≠ c := fun he => hq (he ▸ hc)
  rw [Exchange.dropInbox, Exchange.onChannel, List.getElem?_modify_ne _ _ hne]

theorem getElem_addChannel (h : n.Ledger made lent) (hc : c ∈ made.map (·.2))
    (capacity senders inboxes : Nat) :
    (n.exchange.addChannel capacity senders inboxes).1.channels[c]? = n.exchange.channels[c]? :=
  List.getElem?_append_left (h.lt_length hc)

theorem direct_lt (h : n.Ledger made lent) : ∀ q ∈ n.directQueue, q < n.exchange.channels.length :=
  fun q hq => (h.queues q (mem_queues_of_direct hq)).1

theorem addQueue (h : n.Ledger made lent) : (n.addQueue 0).Ledger made lent := by
  refine h.withExchange (h.tidy.addChannel _ 0 1) (h.books.addChannel _ 0 1)
    (by simp [Exchange.addChannel]) ?_
    (fun c hc => by rw [h.getElem_addChannel hc]) fun u hu => Or.inl ⟨u, hu, .other _⟩
  exact h.senders.extend_owed _ [] h.direct_lt rfl fun c hc => absurd hc List.not_mem_nil

/-- Nor is the queue of direct messages. -/
theorem serving (h : n.Ledger made lent) (hnone : n.direct = none) (protocol : String) :
    (n.serving protocol).Ledger made lent := by
  have hdirect : n.directQueue = [] := by simp [directQueue, hnone]
  exact {
    running := h.running
    tidy := h.tidy.addChannel _ 1 1
    books := h.books.addChannel _ 1 1
    senders := by
      have hsenders := h.senders
      rw [hdirect] at hsenders
      have hqueue : (n.serving protocol).directQueue = [n.exchange.channels.length] := rfl
      rw [hqueue]
      exact hsenders.extend (by simp) (by simp)
    latest := h.latest
    distinct := h.distinct
    inboxes := fun c hc =>
      (congrArg (Option.map (·.inboxes)) (h.getElem_addChannel hc _ 1 1)).trans (h.inboxes c hc)
    unfilled := h.unfilled
    unread := h.unread
    known := h.known
    queues := by
      intro q hq
      have hlength : (n.serving protocol).exchange.channels.length =
          n.exchange.channels.length + 1 := by
        simp [Node.serving, Node.addQueue, Exchange.addChannel]
      rw [hlength]
      rcases List.mem_append.1 hq with hq | hq
      · rw [List.append_nil] at hq
        obtain ⟨hlt, hnot⟩ := h.queues q (mem_queues_of_topic hq)
        exact ⟨Nat.lt_succ_of_lt hlt, hnot⟩
      · obtain rfl := List.mem_singleton.1 hq
        exact ⟨Nat.lt_succ_self _, h.youngest_notMem⟩ }

/-! ## What changes the ledger -/

/-- **Giving up an entry** drops the only sender of its subscription. -/
theorem unsubscribe (h : n.Ledger made lent) (topic : String) :
    (n.unsubscribe topic).Ledger made lent := by
  unfold Node.unsubscribe
  split
  · rename_i c hc
    exact {
      running := h.running
      tidy := h.tidy.onChannel _ _
      books := h.books.dropSender c
      senders := h.senders.drop (fun _ => rfl) hc
      latest := fun p hp => h.latest p (List.mem_of_mem_filter hp)
      distinct := h.distinct
      inboxes := by
        intro d hd
        rw [← h.inboxes d hd, Exchange.dropSender, Exchange.onChannel, List.getElem?_modify]
        cases n.exchange.channels[d]? with
        | none => rfl
        | some ch => by_cases hcd : c = d <;> simp [hcd]
      unfilled := h.unfilled
      unread := h.unread
      known := h.known
      queues := by
        intro q hq
        obtain ⟨hlt, hnot⟩ := h.queues q hq
        exact ⟨by simpa [Exchange.dropSender, Exchange.onChannel] using hlt, hnot⟩ }
  · exact h

/-- A new subscription is the latest to its topic, and its receiving end is lent. -/
theorem subscribing (h : n.Ledger made lent) (topic : String) :
    (n.subscribing topic).Ledger ((topic, n.exchange.channels.length) :: made)
      (n.exchange.channels.length :: lent) := by
  have hold := h.unsubscribe topic
  have hnew := hold.youngest_notMem
  have hlength := n.length_channels_unsubscribe topic
  rw [hlength] at hnew
  have hne : ∀ c ∈ made.map (·.2), c ≠ n.exchange.channels.length := fun c hc he => hnew (he ▸ hc)
  exact {
    running := hold.running
    tidy := hold.tidy.addChannel _ 1 1
    books := hold.books.addChannel _ 1 1
    senders := by
      have hgrown := hold.senders.extend_owed ⟨subscriptionCapacity, [], 1, 1⟩
        [(n.unsubscribe topic).exchange.channels.length] hold.direct_lt (by simp) (by simp)
      exact hgrown.pay (by simp) (notMem_unsubscribe n topic)
    latest := by
      intro p hp
      rcases List.mem_cons.1 hp with rfl | hp
      · rw [List.lookup_cons_self, hlength]
      · rw [List.lookup_cons, beq_false_of_ne (mem_unsubscribe hp).2]
        exact hold.latest p hp
    distinct := List.nodup_cons.2 ⟨hnew, h.distinct⟩
    inboxes := by
      intro c hc
      rcases List.mem_cons.1 hc with rfl | hc
      · rw [if_pos List.mem_cons_self]
        exact congrArg (Option.map (·.inboxes)) (hlength ▸ Exchange.getElem_addChannel _ _ 1 1)
      · have hsame : c ∈ n.exchange.channels.length :: lent ↔ c ∈ lent :=
          List.mem_cons.trans (or_iff_right (hne c hc))
        simp only [hsame]
        exact (congrArg (Option.map (·.inboxes)) (hold.getElem_addChannel hc _ 1 1)).trans
          (hold.inboxes c hc)
    unfilled := by
      intro c hc t ht
      rcases List.mem_cons.1 hc with rfl | hc
      · exact (h.idle_youngest t (n.tasks_unsubscribe topic ▸ ht)).1
      · exact hold.unfilled c hc t ht
    unread := by
      intro c hc t ht
      rcases List.mem_cons.1 hc with rfl | hc
      · exact (h.idle_youngest t (n.tasks_unsubscribe topic ▸ ht)).2
      · exact hold.unread c hc t ht
    known := fun c hc => by
      rcases List.mem_cons.1 hc with rfl | hc
      · exact List.mem_cons_self
      · exact List.mem_cons_of_mem _ (h.known c hc)
    queues := by
      intro q hq
      obtain ⟨hlt, hnot⟩ := hold.queues q hq
      refine ⟨Nat.lt_of_lt_of_le hlt (by simp [Node.subscribing, Exchange.addChannel]),
        fun hmem => ?_⟩
      rcases List.mem_cons.1 hmem with rfl | hmem
      · exact absurd (hlength ▸ hlt) (Nat.lt_irrefl _)
      · exact hnot hmem }

theorem subscribe (h : n.Ledger made lent) (topic : String) :
    (n.subscribe topic).1.Ledger ((topic, (n.subscribe topic).2) :: made)
      ((n.subscribe topic).2 :: lent) := by
  rw [n.subscribe_snd topic]
  exact (h.subscribing topic).settle

/-- **A caller gives up the receiving end that was lent to it.** -/
theorem dropping (h : n.Ledger made lent) (hc : c ∈ lent) :
    ({ n with exchange := n.exchange.dropInbox c } : Node).Ledger made (lent.filter (· != c)) where
  running := h.running
  tidy := h.tidy.onChannel _ _
  books := h.books.dropInbox c
  senders := h.senders.of_modify fun _ => rfl
  latest := h.latest
  distinct := h.distinct
  inboxes := by
    intro d hd
    obtain ⟨ch, hch, hcount⟩ := Option.map_eq_some_iff.1 (h.inboxes d hd)
    simp only [Exchange.dropInbox, Exchange.onChannel, List.getElem?_modify, hch, List.mem_filter,
      bne_iff_ne]
    by_cases hcd : c = d
    · subst hcd
      simp [hcount, hc]
    · simp [hcd, hcount, Ne.symm hcd]
  unfilled := h.unfilled
  unread := fun d hd => h.unread d (List.mem_of_mem_filter hd)
  known := fun d hd => h.known d (List.mem_of_mem_filter hd)
  queues := by
    intro q hq
    obtain ⟨hlt, hnot⟩ := h.queues q hq
    exact ⟨by simpa [Exchange.dropInbox, Exchange.onChannel] using hlt, hnot⟩

/-- **A listener takes over the receiving end of a subscription**, and fills a new queue. -/
theorem attaching {q : Nat} (h : n.Ledger made lent) (hc : c ∈ lent) (hlt : q < c)
    (hq : q ∉ made.map (·.2)) (topic : String) :
    (n.attaching topic hlt).Ledger made (lent.filter (· != c)) := by
  have hdrop := h.dropping hc
  have hc' := h.lt_length (h.known c hc)
  have hlength : (n.attaching topic hlt).exchange.channels.length = n.exchange.channels.length := by
    simp [Node.attaching, Exchange.attach, Exchange.spawn, Exchange.tick, Exchange.dropInbox,
      Exchange.onChannel]
  have htasks : ∀ t ∈ (n.attaching topic hlt).exchange.tasks, t ∈ n.exchange.tasks ∨
      t = ⟨n.exchange.moment, .listen ⟨c, q, hlt, n.name, token, none, false⟩⟩ := by
    intro t ht
    exact (List.mem_append.1 ht).imp_right List.mem_singleton.1
  exact {
    running := h.running
    tidy := by
      refine hdrop.tidy.spawn fun d hd => ?_
      simp only [Work.holdsSender, Work.holdsReceiver, beq_iff_eq] at hd
      simp only [Exchange.dropInbox, Exchange.onChannel, List.length_modify]
      omega
    books := hdrop.books.still (Nat.le_refl _) fun d => Exchange.flow_of_eq rfl rfl
    senders := hdrop.senders
    latest := h.latest
    distinct := h.distinct
    inboxes := hdrop.inboxes
    unfilled := by
      intro d hd t ht
      rcases htasks t ht with ht | rfl
      · exact h.unfilled d hd t ht
      · have hne : q ≠ d := fun he => hq (he ▸ hd)
        simpa [Work.holdsSender] using hne
    unread := by
      intro d hd t ht
      rcases htasks t ht with ht | rfl
      · exact hdrop.unread d hd t ht
      · have hne : d ≠ c := by simpa using (List.mem_filter.1 hd).2
        simpa [Work.holdsReceiver] using hne.symm
    known := hdrop.known
    queues := by
      intro q' hq'
      rw [hlength]
      rcases List.mem_append.1 hq' with hmem | hmem
      · rw [List.append_nil, Node.attaching, List.map_append] at hmem
        rcases List.mem_append.1 hmem with hmem | hmem
        · exact h.queues q' (mem_queues_of_topic hmem)
        · obtain rfl := List.mem_singleton.1 hmem
          exact ⟨Nat.lt_trans hlt hc', hq⟩
      · exact h.queues q' (mem_queues_of_direct hmem) }

/-- A subscription that nobody has but the new listener. -/
theorem joining (h : n.Ledger made lent) (topic : String) :
    (((n.addQueue 0).subscribe topic).1.attaching topic (n.queue_lt_subscription topic 0)).Ledger
      ((topic, ((n.addQueue 0).subscribe topic).2) :: made) lent := by
  have hnew := (n.addQueue 0).subscribe_snd topic
  have hlt := n.queue_lt_subscription topic 0
  have hsub := h.addQueue.subscribe topic
  have hfresh : ((n.addQueue 0).subscribe topic).2 ∉ lent := fun hmem =>
    h.addQueue.youngest_notMem (hnew ▸ h.known _ hmem)
  have hattached := hsub.attaching List.mem_cons_self hlt (fun hmem => ?_) topic
  · rw [List.filter_cons, if_neg (by simp), List.filter_eq_self.2] at hattached
    · exact hattached
    · intro c hc
      exact bne_iff_ne.2 fun he => hfresh (he ▸ hc)
  · rcases List.mem_cons.1 hmem with he | hmem
    · exact absurd he (Nat.ne_of_lt hlt)
    · exact h.youngest_notMem hmem

/-- **Joining a topic** makes a subscription. -/
theorem join (h : n.Ledger made lent) (topic : String) :
    (n.join topic).Ledger ((topic, ((n.addQueue 0).subscribe topic).2) :: made) lent := by
  rw [Node.join]
  exact (h.joining topic).settle

/-- **A message that arrives** is offered to the entry of its topic, which is given up if its
receiving end is nowhere. -/
theorem hear (h : n.Ledger made lent) (author : PeerName) (topic : String) (data : Bytes) :
    (n.hear author topic data).Ledger made lent := by
  rcases n.hear_cases author topic data with ⟨-, he⟩ | ⟨c, -, -, he⟩ | ⟨c, -, -, he⟩ <;> rw [he]
  · exact h
  · exact h.onlyMessages (Exchange.onlyMessages_offer _ _ _) (h.books.offer _ _)
  · exact h.unsubscribe topic

theorem poll (h : n.Ledger made lent) (q : Nat) : (n.poll q).1.Ledger made lent :=
  h.onlyMessages (Exchange.onlyMessages_tryReceive _ q) (h.books.tryReceive q)

/-- **Whatever happens to a node that runs** leaves the ledger right. -/
theorem happen (h : n.Ledger made lent) (e : Happening) : (n.happen e).Ledger made lent := by
  cases e with
  | publishes | sends => exact h
  | hears via author topic data => exact h.hear _ topic data
  | accepts sender script =>
    rcases n.accept_cases sender script with ⟨-, he⟩ | ⟨d, hd, he⟩ <;> rw [Node.happen, he]
    · exact h
    · exact h.handling hd sender script
  | receives inbox =>
    simp only [Node.happen]
    split
    · exact h.poll _
    · exact h
  | waits secs =>
    exact h.sameChannels (h.tidy.of_le rfl (Nat.le_refl _) (Nat.le_refl _) fun _ => rfl)
      (h.books.still (Nat.le_refl _) fun c => Exchange.flow_of_eq rfl rfl) rfl fun u hu => Or.inl hu
  | acts k =>
    rcases n.letAct_cases k with hk | ⟨t, a, ht, ha, hk⟩ <;> rw [Node.happen, hk]
    · exact h
    · exact h.perform ht ha
  | settles => exact h.settle

end Ledger

/-! ## What goes through subscriptions -/

/-- What a change of a node does to its subscriptions: `ins` enters each that was made, and `outs`
leaves those that are lent. -/
structure Carries (made : List (String × Nat)) (lent : List Nat) (n m : Node)
    (ins outs : Nat → List Message) : Prop where
  accepted : ∀ c ∈ made.map (·.2), m.exchange.accepted c = n.exchange.accepted c ++ ins c
  flow : ∀ c ∈ lent, Flow n.exchange m.exchange c (ins c) (outs c)

/-- A change by which nothing goes through subscriptions. -/
abbrev Still (made : List (String × Nat)) (lent : List Nat) (n m : Node) : Prop :=
  Carries made lent n m (fun _ => []) (fun _ => [])

namespace Carries

variable {ins outs : Nat → List Message}

theorem of_flow (h : ∀ c, Flow n.exchange m.exchange c (ins c) (outs c)) :
    Carries made lent n m ins outs := ⟨fun c _ => (h c).accepted, fun c _ => h c⟩

theorem refl (n : Node) : Still made lent n n := of_flow fun c => .refl _ c

theorem trans_still (h : Carries made lent n m ins outs) (h' : Still made lent m k) :
    Carries made lent n k ins outs where
  accepted := fun c hc => by rw [h'.accepted c hc, h.accepted c hc, List.append_nil]
  flow := fun c hc => (h.flow c hc).trans_still (h'.flow c hc)

end Carries

namespace Ledger

/-- **An act takes nothing into subscriptions**, and nothing out of those that are lent. -/
theorem carries_perform (h : n.Ledger made lent) {t : Task} {a : Act} (ht : t ∈ n.exchange.tasks)
    (ha : n.exchange.Does t a) :
    Still made lent n { n with exchange := n.exchange.perform t a } := by
  have hins : ∀ c ∈ made.map (·.2), a.ins c = [] := by
    intro c hc
    by_contra hne
    exact Bool.false_ne_true ((h.unfilled c hc t ht).symm.trans (ha.holdsSender_of_ins hne))
  have houts : ∀ c ∈ lent, a.outs c = [] := by
    intro c hc
    by_contra hne
    exact Bool.false_ne_true ((h.unread c hc t ht).symm.trans (ha.holdsReceiver_of_outs hne))
  refine ⟨fun c hc => ?_, fun c hc => ?_⟩
  · rw [(Exchange.flow_perform ha.feasible t c).accepted, hins c hc]
  · have hflow := Exchange.flow_perform ha.feasible t c
    rwa [hins c (h.known c hc), houts c hc] at hflow

theorem carries_settle (h : n.Ledger made lent) : Still made lent n n.settle where
  accepted := fun c hc => by
    rw [List.append_nil]
    exact Exchange.accepted_settle (h.unfilled c hc)
  flow := fun _ hc => Exchange.flow_settle (h.idle hc)

theorem settled {ins outs : Nat → List Message} (h : m.Ledger made lent)
    (hflow : ∀ c, Flow n.exchange m.exchange c (ins c) (outs c)) :
    Carries made lent n m.settle ins outs := (Carries.of_flow hflow).trans_still h.carries_settle

theorem carries_subscribe (h : n.Ledger made lent) (topic : String) :
    Still ((topic, (n.subscribe topic).2) :: made) ((n.subscribe topic).2 :: lent) n
      (n.subscribe topic).1 := by
  rw [n.subscribe_snd topic]
  exact (h.subscribing topic).settled fun c =>
    (n.flow_unsubscribe topic c).trans_still (Exchange.flow_addChannel _ _ 1 1 c)

theorem carries_join (h : n.Ledger made lent) (topic : String) :
    Still ((topic, ((n.addQueue 0).subscribe topic).2) :: made) lent n (n.join topic) := by
  have hadd : ∀ c, Flow n.exchange (n.addQueue 0).exchange c [] [] :=
    fun c => Exchange.flow_addChannel _ _ 0 1 c
  have hsub := (Carries.of_flow hadd).trans_still (h.addQueue.carries_subscribe topic)
  have hattach : ∀ c, Flow ((n.addQueue 0).subscribe topic).1.exchange
      (((n.addQueue 0).subscribe topic).1.attaching topic
        (n.queue_lt_subscription topic 0)).exchange c [] [] := fun c =>
    (Exchange.flow_onChannel _ ((n.addQueue 0).subscribe topic).2
      (fun ch => { ch with inboxes := ch.inboxes - 1 }) (fun _ => rfl) c).trans_still
      (Exchange.flow_of_eq rfl rfl)
  rw [Node.join]
  have hall := hsub.trans_still (Carries.of_flow hattach)
  refine Carries.trans_still ⟨hall.accepted, fun c hc => hall.flow c (List.mem_cons_of_mem _ hc)⟩ ?_
  exact (h.joining topic).carries_settle

theorem carries_of_notMem {q : Nat} {ins : Nat → List Message} {ms : List Message}
    (h : Carries made lent n m ins fun c => Exchange.inChannel c q ms) (hq : q ∉ lent) :
    Carries made lent n m ins fun _ => [] := by
  refine ⟨h.accepted, fun c hc => ?_⟩
  have hne : q ≠ c := fun he => hq (he ▸ hc)
  have hflow := h.flow c hc
  rwa [Exchange.inChannel, if_neg hne] at hflow

/-- **What goes through subscriptions when something happens to the node.** -/
theorem carries_happen (h : n.Ledger made lent) (e : Happening) :
    Carries made lent n (n.happen e) (fun c => n.put c e) (fun _ => []) := by
  cases e with
  | publishes | sends => exact .refl n
  | hears via author topic data => exact .of_flow (n.flow_hear _ topic data)
  | accepts sender script => exact .of_flow (n.flow_accept sender script)
  | receives inbox =>
    simp only [Node.happen]
    split
    · rename_i q hq
      have hnot := (h.queues q (mem_queues_of_queue? hq)).2
      exact carries_of_notMem (.of_flow (n.flow_poll q)) fun hmem => hnot (h.known q hmem)
    · exact .refl n
  | waits secs => exact .of_flow fun c => Exchange.flow_of_eq rfl rfl
  | acts k =>
    rcases n.letAct_cases k with hk | ⟨t, a, ht, ha, hk⟩ <;> rw [Node.happen, hk]
    · exact .refl n
    · exact h.carries_perform ht ha
  | settles => exact h.carries_settle

/-- **A caller receives what waits in its subscription**, or learns that it is closed. -/
theorem poll_eq (h : n.Ledger made lent) (hc : c ∈ lent) :
    (n.poll c).2 = match n.exchange.buffer c with
      | m :: _ => .message m
      | [] => if n.exchange.hasSender c then .nothing else .closed := by
  have hwaits : n.exchange.hasWaitingReceiver c = false := by
    unfold Exchange.hasWaitingReceiver
    rw [List.any_eq_false]
    intro t ht hconsumes
    have hreads : t.work.holdsReceiver c = true := by
      cases hw : t.work <;> rw [hw] at hconsumes <;> first | exact hconsumes | cases hconsumes
    exact Bool.false_ne_true ((h.unread c hc t ht).symm.trans hreads)
  change (n.exchange.tryReceive c).2 = _
  unfold Exchange.tryReceive
  rw [hwaits, if_neg Bool.false_ne_true]
  cases n.exchange.buffer c <;> rfl

end Ledger
end Node
end PeerNode
