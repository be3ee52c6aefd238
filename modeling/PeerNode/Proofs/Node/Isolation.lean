import PeerNode.Proofs.Node.Hiding

/-!
# What a node keeps apart

What is done on a hidden lane changes nothing that is not hidden: the node is like it was.  What is
done on another lane, or on none, is done alike in two states that are alike, and keeps them alike.
Each time there are two parts.  The change itself concerns one channel, which is apart if its lane
is hidden and looks the same in both states if not; and then both states settle.

Something that is done in both states may concern a hidden lane, as when a subscription to a hidden
topic is given up.  Then it is done on the hidden lane of one state and of the other, and both are
like they were.

* `like_take`, `like_hear`, `like_unsubscribe`, `like_handleStream`: what is done on hidden lanes.
* `Like.take`, `Like.hear`, `Like.leaving`, `Like.handleStream`, `Like.serving`, `Like.stop`: what
  is done in both states.
-/

namespace PeerNode

variable {hidden : Lane → Bool} {i : Nat} {n m : Node} {x : Exchange} {c q : Nat} {s : String}

namespace Exchange

theorem channels_offer (x : Exchange) (c : Nat) (m : Message) : (x.offer c m).1.channels =
    if x.hasReceiver c = true ∧ 0 < x.free c then
      x.channels.modify c fun ch => { ch with buffer := ch.buffer ++ [m] }
    else x.channels := by
  rw [offer_eq]
  rcases trySend_cases x c m with ⟨hr, h⟩ | ⟨hr, hf, h⟩ | ⟨hr, hf, h⟩ <;> rw [h]
  · rw [if_neg (by simp [hr])]
  · rw [if_pos ⟨hr, hf⟩]
    rfl
  · rw [if_neg (by simp [hf])]

theorem tryReceive_snd (hnone : x.hasWaitingReceiver c = false) : (x.tryReceive c).2 =
    match x.buffer c with
    | m :: _ => .message m
    | [] => if x.hasSender c then .nothing else .closed := by
  rw [tryReceive, if_neg (by simp [hnone])]
  cases x.buffer c <;> rfl

/-- A receive takes the first message away, if there is one. -/
theorem channels_tryReceive (hnone : x.hasWaitingReceiver c = false) :
    (x.tryReceive c).1.channels =
      x.channels.modify c fun ch => { ch with buffer := ch.buffer.tail } := by
  rw [tryReceive, if_neg (by simp [hnone])]
  cases hb : x.buffer c with
  | cons m ms => rfl
  | nil =>
    refine List.ext_getElem? fun k => ?_
    rw [List.getElem?_modify]
    by_cases hk : c = k
    · subst hk
      unfold buffer at hb
      cases hch : x.channels[c]? with
      | none => rfl
      | some ch =>
        rw [hch] at hb
        obtain ⟨capacity, buffer, senders, inboxes⟩ := ch
        obtain rfl : buffer = [] := hb
        simp
    · simp only [if_neg hk, Option.map_eq_map, Option.map_id']

end Exchange

namespace Node

/-! ## Receiving -/

theorem Rested.hasWaitingReceiver (h : n.Rested) (q : Nat) :
    n.exchange.hasWaitingReceiver q = false := by
  cases hr : n.running with
  | true => exact (h.steady hr).sound.hasWaitingReceiver q
  | false => rw [Exchange.hasWaitingReceiver, (h.stopped hr).1, List.any_nil]

/-- Whoever receives takes at most one message. -/
theorem Rested.poised_take (h : n.Rested) (hr : n.running = true) (q : Nat) :
    ({ n with exchange := (n.exchange.tryReceive q).1 } : Node).Poised := by
  have htake := Exchange.onlyMessages_tryReceive n.exchange q
  have hsteady := h.steady hr
  refine hsteady.poised (hsteady.sound.onlyMessages htake (hsteady.sound.books.tryReceive q)) ?_ rfl
    htake.tasks htake.clock fun d _ => ⟨_, _, Exchange.flow_tryReceive n.exchange q d, ?_⟩
  · exact h.bound.mono (fun _ ht => htake.tasks ▸ ht) rfl fun _ hp => hp
  · have hone : (n.exchange.tryReceive q).2.messages.length ≤ 1 := by
      cases (n.exchange.tryReceive q).2 <;> simp [Found.messages]
    unfold Exchange.inChannel
    split
    · exact hone
    · exact Nat.zero_le 1

theorem Like.take_of_change (hn : n.Rested) (hm : m.Rested)
    (h : Like hidden i { n with exchange := (n.exchange.tryReceive q).1 }
      { m with exchange := (m.exchange.tryReceive q).1 }) :
    Like hidden i (n.take q).1 (m.take q).1 := by
  cases hr : n.running with
  | true => exact h.settle (hn.poised_take hr q) (hm.poised_take (h.running.trans hr) q)
  | false =>
    rw [n.take_eq (hn.stopped hr).1, m.take_eq (hm.stopped (h.running.trans hr)).1]
    exact h

/-- **Receiving from a hidden inbox** leaves a node like it was. -/
theorem like_take (h : n.Rested) {inbox : Inbox} (hq : n.queue? inbox = some q)
    {lane : Lane} (hlane : n.lane? i inbox = some lane) (hs : hidden lane = true) :
    Like hidden i n (n.take q).1 := by
  have htake := Exchange.onlyMessages_tryReceive n.exchange q
  have hchange : Like hidden i n { n with exchange := (n.exchange.tryReceive q).1 } := by
    refine .of_apart (h.apart_queue hq hlane hs) htake.tasks htake.length_channels fun k hk => ?_
    rw [Exchange.channels_tryReceive (h.hasWaitingReceiver q), List.getElem?_modify_ne _ _ hk]
  cases hr : n.running with
  | true =>
    have hsettled := hchange.settle (h.poised hr) (h.poised_take hr q)
    rwa [h.settle_eq] at hsettled
  | false =>
    rw [n.take_eq (h.stopped hr).1]
    exact hchange

/-- The queue of an inbox that is not hidden is the same in states that are alike. -/
theorem Like.getElem_queue (h : Like hidden i n m) {inbox : Inbox} (hq : n.queue? inbox = some q)
    {lane : Lane} (hlane : n.lane? i inbox = some lane) (hs : hidden lane = false) :
    n.exchange.channels[q]? = m.exchange.channels[q]? := by
  cases inbox with
  | topic k =>
    obtain ⟨e, he, rfl⟩ := Option.map_eq_some_iff.1 hq
    rw [lane?, he, Option.map_some, Option.some.injEq] at hlane
    exact (h.relay e (List.mem_of_getElem? he) (hlane ▸ hs)).queue
  | direct =>
    obtain ⟨d, hd, rfl⟩ := Option.map_eq_some_iff.1 hq
    rw [lane?, Option.some.injEq] at hlane
    exact (h.line (hlane ▸ hs) _ (mem_directQueue hd)).queue

/-- Whether somebody fills such a queue, too. -/
theorem Like.hasSender_queue (h : Like hidden i n m) (hn : n.Rested) (hm : m.Rested)
    {inbox : Inbox} (hq : n.queue? inbox = some q) {lane : Lane}
    (hlane : n.lane? i inbox = some lane) (hs : hidden lane = false)
    (hsender : n.exchange.hasSender q = true) : m.exchange.hasSender q = true := by
  rw [Exchange.hasSender, Bool.or_eq_true] at hsender
  rcases hsender with hsender | hsender
  · rw [Exchange.hasSender, ← h.getElem_queue hq hlane hs, hsender, Bool.true_or]
  · obtain ⟨t, ht, hheld⟩ := List.any_eq_true.1 hsender
    have hr : n.running = true := by
      by_contra hr
      rw [(hn.stopped (Bool.not_eq_true _ ▸ hr)).1] at ht
      cases ht
    rw [(hm.steady (h.running.trans hr)).sound.hasSender_iff]
    cases inbox with
    | topic k =>
      obtain ⟨e, he, rfl⟩ := Option.map_eq_some_iff.1 hq
      have hmem := List.mem_of_getElem? he
      rw [lane?, he, Option.map_some, Option.some.injEq] at hlane
      obtain ⟨l, hw, hl⟩ := (hn.steady hr).sound.eq_listen_of_holdsSender
        (List.mem_map_of_mem hmem) ht hheld
      obtain ⟨u, hu, hw'⟩ := ((h.relay e hmem (hlane ▸ hs)).listener l hl).1 ⟨t, ht, hw⟩
      exact Or.inr (Or.inr ⟨u, hu, by simp [hw', Work.holdsSender, hl]⟩)
    | direct =>
      obtain ⟨d, hd, rfl⟩ := Option.map_eq_some_iff.1 hq
      exact Or.inr (Or.inl (h.directQueue.symm ▸ mem_directQueue hd))

/-- **Receiving from an inbox that is not hidden** finds the same and keeps two states alike. -/
theorem Like.take (h : Like hidden i n m) (hn : n.Rested) (hm : m.Rested) {inbox : Inbox}
    (hq : n.queue? inbox = some q) {lane : Lane} (hlane : n.lane? i inbox = some lane)
    (hs : hidden lane = false) :
    (n.take q).2 = (m.take q).2 ∧ Like hidden i (n.take q).1 (m.take q).1 := by
  have hq' : m.queue? inbox = some q := by
    cases inbox <;> simpa only [queue?, h.topics, h.direct] using hq
  have hlane' : m.lane? i inbox = some lane := by
    cases inbox <;> simpa only [lane?, h.topics] using hlane
  have hqueue := h.getElem_queue hq hlane hs
  have hsender : n.exchange.hasSender q = m.exchange.hasSender q :=
    Bool.eq_iff_iff.2 ⟨h.hasSender_queue hn hm hq hlane hs,
      h.symm.hasSender_queue hm hn hq' hlane' hs⟩
  refine ⟨?_, .take_of_change hn hm ?_⟩
  · change (n.exchange.tryReceive q).2 = (m.exchange.tryReceive q).2
    rw [Exchange.tryReceive_snd (hn.hasWaitingReceiver q),
      Exchange.tryReceive_snd (hm.hasWaitingReceiver q), Exchange.buffer_congr hqueue, hsender]
  · refine h.withExchange (Exchange.onlyMessages_tryReceive _ q).tasks
      (Exchange.onlyMessages_tryReceive _ q).tasks ?_ fun k hk => ?_
    · rw [(Exchange.onlyMessages_tryReceive _ q).length_channels, h.length,
        (Exchange.onlyMessages_tryReceive _ q).length_channels]
    · rw [Exchange.channels_tryReceive (hn.hasWaitingReceiver q),
        Exchange.channels_tryReceive (hm.hasWaitingReceiver q), List.getElem?_modify,
        List.getElem?_modify, hk]

/-! ## Subscriptions -/

/-- The entries of other topics stay. -/
theorem subscription?_unsubscribe (n : Node) {topic : String} (hne : s ≠ topic) :
    (n.unsubscribe topic).subscription? s = n.subscription? s := by
  unfold unsubscribe
  split
  · simp only [subscription?]
    induction n.subscriptions with
    | nil => rfl
    | cons p subs ih =>
      rw [List.filter_cons, List.lookup_cons]
      by_cases hp : p.1 = topic
      · rw [if_neg (by simp [hp]), ih, hp, beq_false_of_ne hne]
      · rw [if_pos (by simpa using hp), List.lookup_cons, ih]
  · rfl

theorem subscription?_unsubscribe_self (n : Node) (topic : String) :
    (n.unsubscribe topic).subscription? topic = none := by
  cases hc : (n.unsubscribe topic).subscription? topic with
  | none => rfl
  | some c =>
    exact absurd (List.mem_map_of_mem (Session.mem_of_lookup_eq_some hc))
      (n.notMem_unsubscribe topic)

/-- **Giving up the subscription to a hidden topic** leaves a node like it was. -/
theorem like_unsubscribe (h : n.Rested) {topic : String} (hs : hidden (.topic topic) = true) :
    Like hidden i n (n.unsubscribe topic) := by
  have hentry : ∀ s, hidden (.topic s) = false →
      n.subscription? s = (n.unsubscribe topic).subscription? s :=
    fun s hs' => (n.subscription?_unsubscribe (ne_of_hidden hs hs')).symm
  revert hentry
  unfold unsubscribe
  split
  · rename_i c hc
    have hchange : Like hidden i n { n with exchange := n.exchange.dropSender c } := by
      refine .of_apart (h.apart_subscription hs hc) rfl (List.length_modify _ _ _) fun k hk => ?_
      exact List.getElem?_modify_ne _ _ hk
    exact fun hentry => ⟨hchange.face, hchange.length, hchange.relay, hentry, hchange.source,
      hchange.line⟩
  · exact fun _ => .refl hidden i n

/-- **Giving up a subscription in two states** keeps them alike. -/
theorem Like.unsubscribe (h : Like hidden i n m) (hn : n.Rested) (hm : m.Rested)
    (topic : String) : Like hidden i (n.unsubscribe topic) (m.unsubscribe topic) := by
  cases hs : hidden (.topic topic) with
  | true => exact (like_unsubscribe hn hs).symm.trans (h.trans (like_unsubscribe hm hs))
  | false =>
    have hentry : ∀ s, hidden (.topic s) = false →
        (n.unsubscribe topic).subscription? s = (m.unsubscribe topic).subscription? s := by
      intro s hs'
      by_cases hne : s = topic
      · rw [hne, subscription?_unsubscribe_self, subscription?_unsubscribe_self]
      · rw [n.subscription?_unsubscribe hne, m.subscription?_unsubscribe hne, h.entry s hs']
    cases hc : n.subscription? topic with
    | none =>
      have hc' := (h.entry topic hs).symm.trans hc
      simp only [Node.unsubscribe, hc, hc']
      exact h
    | some c =>
      have hc' := (h.entry topic hs).symm.trans hc
      have hsource : ∀ s d, hidden (.topic s) = false →
          (n.unsubscribe topic).subscription? s = some d → n.subscription? s = some d := by
        intro s d _ hd
        rw [← hd, n.subscription?_unsubscribe]
        rintro rfl
        rw [subscription?_unsubscribe_self] at hd
        cases hd
      have hchange : Like hidden i { n with exchange := n.exchange.dropSender c }
          { m with exchange := m.exchange.dropSender c } := by
        refine h.withExchange rfl rfl ?_ fun k hk => ?_
        · rw [Exchange.dropSender, Exchange.dropSender, Exchange.onChannel, Exchange.onChannel,
            List.length_modify, List.length_modify, h.length]
        · simp only [Exchange.dropSender, Exchange.onChannel, List.getElem?_modify, hk]
      simp only [Node.unsubscribe, hc, hc'] at hentry hsource ⊢
      exact ⟨hchange.face, hchange.length, hchange.relay, hentry,
        fun s d hs' hd => hchange.source s d hs' (hsource s d hs' hd), hchange.line⟩

/-- **A new subscription in two states** keeps them alike. -/
theorem Like.subscribing (h : Like hidden i n m) (hn : n.Rested) (hm : m.Rested)
    (topic : String) : Like hidden i (n.subscribing topic) (m.subscribing topic) := by
  have hgone := h.unsubscribe hn hm topic
  have hlength := hgone.length
  have hadded := hgone.withExchange
    (x := ((n.unsubscribe topic).exchange.addChannel subscriptionCapacity 1 1).1)
    (y := ((m.unsubscribe topic).exchange.addChannel subscriptionCapacity 1 1).1) rfl rfl
    (by simp [Exchange.addChannel, hlength]) fun k hk => by
      simp only [Exchange.addChannel, List.getElem?_append, hk, hlength]
  refine ⟨?_, hadded.length, hadded.relay, fun s hs => ?_, fun s d hs hd => ?_, hadded.line⟩
  · exact congrArg (fun k : Node => { k with
      announced := if k.announced.contains topic then k.announced else k.announced ++ [topic] })
      hgone.face
  · have hold := hgone.entry s hs
    simp only [subscription?, Node.subscribing, List.lookup_cons, hlength] at hold ⊢
    rw [hold]
  · simp only [subscription?, Node.subscribing, List.lookup_cons] at hd
    split at hd
    · rw [← Option.some.inj hd]
      refine (Exchange.getElem_addChannel _ _ _ _).trans ?_
      rw [hlength]
      exact (Exchange.getElem_addChannel _ _ _ _).symm
    · exact hadded.source s d hs hd

theorem Rested.poised_subscribing (h : n.Rested) (hr : n.running = true) (topic : String) :
    (n.subscribing topic).Poised := by
  have hsteady := h.steady hr
  refine hsteady.poised (hsteady.sound.subscribing topic) (h.bound.subscribing hsteady.sound topic)
    ?_ (n.tasks_unsubscribe topic) (n.clock_unsubscribe topic) fun q _ => ?_
  · exact congrArg (fun d : Option DirectChannel => (d.map (·.queue)).toList)
      (n.alike_unsubscribe topic).direct
  · exact ⟨[], [], (n.flow_unsubscribe topic q).trans_still (Exchange.flow_addChannel _ _ _ _ q),
      Nat.zero_le 1⟩

theorem Rested.poised_abandoning (h : n.Rested) (hr : n.running = true) (hc : c ∉ n.queues []) :
    ({ n with exchange := n.exchange.dropInbox c } : Node).Poised := by
  have hsteady := h.steady hr
  refine hsteady.poised (hsteady.sound.abandoning hc)
    (h.bound.mono (fun _ ht => ht) rfl fun _ hp => hp) rfl rfl rfl fun q _ => ?_
  exact ⟨[], [], Exchange.flow_onChannel _ _ (fun ch => { ch with inboxes := ch.inboxes - 1 })
    (fun _ => rfl) q, Nat.zero_le 1⟩

/-- **Subscribing and giving the subscription up in two states** keeps them alike. -/
theorem Like.leaving (h : Like hidden i n m) (hn : n.Rested) (hm : m.Rested)
    (hr : n.running = true) (topic : String) :
    Like hidden i ((n.subscribe topic).1.abandon (n.subscribe topic).2)
      ((m.subscribe topic).1.abandon (m.subscribe topic).2) := by
  have hr' := h.running.trans hr
  have hsub : Like hidden i (n.subscribe topic).1 (m.subscribe topic).1 :=
    (h.subscribing hn hm topic).settle (hn.poised_subscribing hr topic)
      (hm.poised_subscribing hr' topic)
  have hsame : (n.subscribe topic).2 = (m.subscribe topic).2 := by
    rw [subscribe_snd, subscribe_snd, h.length]
  have hrested := hn.subscribe hr topic
  have hrested' := hm.subscribe hr' topic
  refine Like.settle ?_ (hrested.poised_abandoning ((n.alike_subscribe topic).running.trans hr)
    ((hn.steady hr).sound.subscribe_notMem topic))
    (hrested'.poised_abandoning ((m.alike_subscribe topic).running.trans hr')
      ((hm.steady hr').sound.subscribe_notMem topic))
  rw [hsame]
  refine hsub.withExchange rfl rfl ?_ fun k hk => ?_
  · rw [Exchange.dropInbox, Exchange.dropInbox, Exchange.onChannel, Exchange.onChannel,
      List.length_modify, List.length_modify, hsub.length]
  · simp only [Exchange.dropInbox, Exchange.onChannel, List.getElem?_modify, hk]

/-! ## Messages on topics -/

theorem Rested.poised_hear (h : n.Rested) (hr : n.running = true) (author : PeerName)
    (topic : String) (data : Bytes) : (n.hear author topic data).Poised := by
  obtain ⟨htasks, hclock⟩ := n.tasks_hear author topic data
  have hsteady := h.steady hr
  refine hsteady.poised (hsteady.sound.hear author topic data) (h.bound.hear author topic data) ?_
    htasks hclock fun q _ => ⟨_, [], n.flow_hear author topic data q, Nat.zero_le 1⟩
  rw [directQueue, (n.alike_hear author topic data).direct, ← directQueue]

/-- **What is heard on a hidden topic** leaves a node like it was. -/
theorem like_hear (h : n.Rested) {topic : String} (hs : hidden (.topic topic) = true)
    (author : PeerName) (data : Bytes) :
    Like hidden i n (n.hear author topic data).settle := by
  have hchange : Like hidden i n (n.hear author topic data) := by
    rcases n.hear_cases author topic data with ⟨-, he⟩ | ⟨c, hc, -, he⟩ | ⟨c, -, -, he⟩ <;> rw [he]
    · exact .refl hidden i n
    · have hoffer := Exchange.onlyMessages_offer n.exchange c (.onTopic author topic data)
      refine .of_apart (h.apart_subscription hs hc) hoffer.tasks hoffer.length_channels
        fun k hk => ?_
      rw [Exchange.channels_offer]
      split
      · exact List.getElem?_modify_ne _ _ hk
      · rfl
    · exact like_unsubscribe h hs
  cases hr : n.running with
  | true =>
    have hsettled := hchange.settle (h.poised hr) (h.poised_hear hr author topic data)
    rwa [h.settle_eq] at hsettled
  | false =>
    rw [h.hear_of_stopped hr, h.settle_eq]
    exact .refl hidden i n

/-- Whoever reads a subscription to a topic that is not hidden reads it in both states. -/
theorem Like.hasReceiver_subscription (h : Like hidden i n m) (hn : n.Rested)
    (hs : hidden (.topic s) = false) (hc : n.subscription? s = some c)
    (hreceiver : n.exchange.hasReceiver c = true) : m.exchange.hasReceiver c = true := by
  rw [Exchange.hasReceiver, Bool.or_eq_true] at hreceiver ⊢
  refine hreceiver.imp (fun hheld => (h.source s c hs hc) ▸ hheld) fun hread => ?_
  obtain ⟨t, ht, hheld⟩ := List.any_eq_true.1 hread
  have hpoised := hn.poised (hn.running_of_subscription hc)
  have hidle := fun hnone => Bool.false_ne_true
    ((hpoised.idle hc hnone t ht).2.symm.trans hheld)
  by_contra hunread
  refine hidle fun l hl hsource => hunread ?_
  obtain ⟨e, he, hqueue, rfl⟩ := hpoised.served hc hl hsource
  obtain ⟨u, hu, hw⟩ := ((h.relay e he hs).listener l hqueue.symm).1 hl
  exact List.any_eq_true.2 ⟨u, hu, by simp [hw, Work.holdsReceiver, hsource]⟩

theorem hear_eq {topic : String} (hc : n.subscription? topic = some c) (author : PeerName)
    (data : Bytes) : n.hear author topic data = if n.exchange.hasReceiver c then
        { n with exchange := (n.exchange.offer c (.onTopic author topic data)).1 }
      else n.unsubscribe topic := by
  rcases n.hear_cases author topic data with ⟨hnone, -⟩ | ⟨d, hd, hr, he⟩ | ⟨d, hd, hr, he⟩
  · cases hnone.symm.trans hc
  · obtain rfl := Option.some.inj (hd.symm.trans hc)
    rw [he, if_pos hr]
  · obtain rfl := Option.some.inj (hd.symm.trans hc)
    rw [he, if_neg (by simp [hr])]

/-- **What is heard on a topic that is not hidden** keeps two states alike. -/
theorem Like.hear (h : Like hidden i n m) (hn : n.Rested) (hm : m.Rested) {topic : String}
    (hs : hidden (.topic topic) = false) (author : PeerName) (data : Bytes) :
    Like hidden i (n.hear author topic data).settle (m.hear author topic data).settle := by
  have hentry := h.entry topic hs
  cases hc : n.subscription? topic with
  | none =>
    rw [show n.hear author topic data = n by simp only [Node.hear, hc],
      show m.hear author topic data = m by simp only [Node.hear, hentry ▸ hc], hn.settle_eq,
      hm.settle_eq]
    exact h
  | some c =>
    have hc' := hentry.symm.trans hc
    have hr := hn.running_of_subscription hc
    have hr' := hm.running_of_subscription hc'
    have hreceiver : n.exchange.hasReceiver c = m.exchange.hasReceiver c :=
      Bool.eq_iff_iff.2 ⟨h.hasReceiver_subscription hn hs hc,
        h.symm.hasReceiver_subscription hm hs hc'⟩
    have hfree : n.exchange.free c = m.exchange.free c := by
      rw [(hn.steady hr).sound.free_subscription (Session.mem_of_lookup_eq_some hc),
        (hm.steady hr').sound.free_subscription (Session.mem_of_lookup_eq_some hc'),
        Exchange.room_congr (h.source topic c hs hc)]
    refine Like.settle ?_ (hn.poised_hear hr author topic data)
      (hm.poised_hear hr' author topic data)
    rw [hear_eq hc, hear_eq hc', ← hreceiver]
    split
    · refine h.withExchange (Exchange.onlyMessages_offer _ c _).tasks
        (Exchange.onlyMessages_offer _ c _).tasks ?_ fun k hk => ?_
      · rw [(Exchange.onlyMessages_offer _ c _).length_channels, h.length,
          (Exchange.onlyMessages_offer _ c _).length_channels]
      · rw [Exchange.channels_offer, Exchange.channels_offer, ← hreceiver, ← hfree]
        split
        · rw [List.getElem?_modify, List.getElem?_modify, hk]
        · exact hk
    · exact h.unsubscribe hn hm topic

/-! ## Direct messages -/

theorem listens_handling (n : Node) (d : DirectChannel) (sender : PeerName)
    (script : List ReadEvent) (l : Listener) :
    (n.handling d sender script).exchange.Listens l ↔ n.exchange.Listens l := by
  refine ⟨fun ⟨t, ht, hw⟩ => ?_, fun ⟨t, ht, hw⟩ => ⟨t, List.mem_append_left _ ht, hw⟩⟩
  rcases List.mem_append.1 ht with ht | ht
  · exact ⟨t, ht, hw⟩
  · rw [List.mem_singleton.1 ht] at hw
    cases hw

theorem Rested.poised_handling (h : n.Rested) (hr : n.running = true) {d : DirectChannel}
    (hd : n.direct = some d) (sender : PeerName) (octets : Bytes) :
    (n.handling d sender [.bytes octets]).Poised := by
  have hsteady := h.steady hr
  refine ⟨hsteady.sound.handling hd sender _, h.bound.handling d sender _,
    Sound.ready_handling hsteady.calm.ready d sender (Frame.prompt_bytes octets), fun q hq => ?_⟩
  obtain rfl : q = d.queue := by
    have hmem : q ∈ n.directQueue := hq
    rwa [directQueue, hd, Option.map_some, Option.toList_some, List.mem_singleton] at hmem
  exact orderly_handling hsteady.calm d sender _

/-- **A direct message on a hidden lane** leaves a node like it was. -/
theorem like_handleStream (h : n.Rested) (hr : n.running = true)
    (hs : hidden (.direct i) = true) (sender : PeerName) (octets : Bytes) :
    Like hidden i n (n.handleStream sender [.bytes octets]) := by
  cases hd : n.direct with
  | none => simpa only [Node.handleStream, hd] using Like.refl hidden i n
  | some d =>
    have hchange : Like hidden i n (n.handling d sender [.bytes octets]) :=
      ⟨rfl, rfl, fun e _ _ => ⟨rfl, fun l _ => (n.listens_handling d sender _ l).symm,
          fun _ _ _ => rfl⟩, fun _ _ => rfl, fun _ _ _ _ => rfl,
        fun hs' => Bool.noConfusion (hs'.symm.trans hs)⟩
    have hsettled := hchange.settle (h.poised hr) (h.poised_handling hr hd sender octets)
    rw [handleStream_eq hd]
    rwa [h.settle_eq] at hsettled

/-- **A direct message in two states** keeps them alike. -/
theorem Like.handleStream (h : Like hidden i n m) (hn : n.Rested) (hm : m.Rested)
    (hr : n.running = true) (sender : PeerName) (octets : Bytes) :
    Like hidden i (n.handleStream sender [.bytes octets])
      (m.handleStream sender [.bytes octets]) := by
  have hr' := h.running.trans hr
  cases hs : hidden (.direct i) with
  | true =>
    exact (like_handleStream hn hr hs sender octets).symm.trans
      (h.trans (like_handleStream hm hr' hs sender octets))
  | false =>
    cases hd : n.direct with
    | none => simpa only [Node.handleStream, hd, h.direct] using h
    | some d =>
      have hd' := h.direct.trans hd
      rw [handleStream_eq hd, handleStream_eq hd']
      refine Like.settle ?_ (hn.poised_handling hr hd sender octets)
        (hm.poised_handling hr' hd' sender octets)
      refine ⟨h.face, h.length, fun e he hs' => ?_, h.entry, h.source, fun _ q hq => ?_⟩
      · obtain ⟨hqueue, hlistener, hsource⟩ := h.relay e he hs'
        refine ⟨hqueue, fun l hl => ?_, fun l hl hlistens => hsource l hl ?_⟩
        · rw [listens_handling, listens_handling]
          exact hlistener l hl
        · exact (n.listens_handling d sender _ l).1 hlistens
      · have hmem : q ∈ n.directQueue := hq
        obtain ⟨hqueue, hpending⟩ := h.line hs q hmem
        rw [Node.directQueue, hd, Option.map_some, Option.toList_some,
          List.mem_singleton] at hmem
        refine ⟨hqueue, ?_⟩
        subst hmem
        rw [Sound.pending_handling n d sender (Frame.prompt_bytes octets),
          Sound.pending_handling m d sender (Frame.prompt_bytes octets), hpending]

/-- **Two states that begin to serve direct messages** stay alike. -/
theorem Like.serving (h : Like hidden i n m) (hn : n.Rested) (hm : m.Rested)
    (hr : n.running = true) (hnone : n.direct = none) (protocol : String) :
    Like hidden i (n.serving protocol) (m.serving protocol) := by
  have hadded := h.withExchange
    (x := (n.exchange.addChannel deliveryQueueCapacity 1 1).1)
    (y := (m.exchange.addChannel deliveryQueueCapacity 1 1).1) rfl rfl
    (by simp [Exchange.addChannel, h.length]) fun k hk => by
      simp only [Exchange.addChannel, List.getElem?_append, hk, h.length]
  refine ⟨?_, hadded.length, hadded.relay, hadded.entry, hadded.source, fun _ q hq => ?_⟩
  · simp only [Node.serving, Node.addQueue, Node.face, h.length]
    exact congrArg (fun k : Node =>
      { k with direct := some ⟨protocol, m.exchange.channels.length⟩ }) h.face
  · -- the queue is new, and there are no handlers yet
    have hunwritten : ∀ {k : Node}, k.Rested → k.running = true → k.direct = none →
        k.exchange.pending q = [] := by
      intro k hk hr hnone
      refine List.flatMap_eq_nil_iff.2 fun t ht => ?_
      cases hw : t.work with
      | send | receive | listen => rfl
      | handle hd => exact absurd hw ((hk.steady hr).sound.no_handler hnone ht)
    obtain rfl : q = n.exchange.channels.length := List.mem_singleton.1 hq
    refine ⟨(Exchange.getElem_addChannel _ _ _ _).trans ?_, ?_⟩
    · rw [h.length]
      exact (Exchange.getElem_addChannel _ _ _ _).symm
    · exact (hunwritten hn hr hnone).trans
        (hunwritten hm (h.running.trans hr) (h.direct.trans hnone)).symm

/-! ## Stopping -/

/-- What becomes of a channel that is no subscription when a node stops. -/
theorem getElem_silenced (n : Node) {q : Nat} (hq : ∀ p ∈ n.subscriptions, p.2 ≠ q) :
    n.silenced.channels[q]? = n.exchange.channels[q]?.map fun ch =>
      if q ∈ n.directQueue then { ch with senders := ch.senders - 1 } else ch := by
  have hfold : ∀ (subs : List (String × Nat)) (x : Exchange), (∀ p ∈ subs, p.2 ≠ q) →
      (subs.foldl (fun x s => x.dropSender s.2) x).channels[q]? = x.channels[q]? := by
    intro subs
    induction subs with
    | nil => exact fun _ _ => rfl
    | cons p subs ih =>
      intro x hne
      rw [List.foldl_cons, ih _ fun p' hp' => hne p' (List.mem_cons_of_mem _ hp')]
      exact List.getElem?_modify_ne _ _ (hne p List.mem_cons_self)
  have hold := hfold n.subscriptions (n.exchange.cancel token) hq
  cases hd : n.direct with
  | none =>
    simp only [silenced, hd, directQueue, Option.map_none, Option.toList_none, List.not_mem_nil,
      if_false, Option.map_id']
    exact hold
  | some d =>
    simp only [silenced, hd, directQueue, Option.map_some, Option.toList_some,
      List.mem_singleton]
    rw [Exchange.dropSender, Exchange.onChannel, List.getElem?_modify, hold]
    by_cases hdirect : d.queue = q
    · simp only [if_pos hdirect, if_pos hdirect.symm]
      rfl
    · simp only [if_neg hdirect, if_neg (Ne.symm hdirect)]
      rfl

/-- **Two states that stop** stay alike. -/
theorem Like.stop (h : Like hidden i n m) (hn : n.Rested) (hm : m.Rested) :
    Like hidden i n.stop m.stop := by
  cases hr : n.running with
  | false =>
    rw [Node.stop, if_neg (by simp [hr]), Node.stop, if_neg (by simp [h.running, hr])]
    exact h
  | true =>
    have hr' := h.running.trans hr
    obtain ⟨htasks, hchannels⟩ := hn.stop_eq hr
    obtain ⟨htasks', hchannels'⟩ := hm.stop_eq hr'
    have hqueue : ∀ q ∈ n.queues [], n.exchange.channels[q]? = m.exchange.channels[q]? →
        n.stop.exchange.channels[q]? = m.stop.exchange.channels[q]? := by
      intro q hq hsame
      have hq' : q ∈ m.queues [] := by rwa [queues, h.topics, h.directQueue]
      have hne : ∀ {k : Node}, k.Rested → k.running = true → q ∈ k.queues [] →
          ∀ p ∈ k.subscriptions, p.2 ≠ q := by
        rintro k hk hr hq p hp rfl
        exact ((hk.steady hr).sound.subscription p hp).1 hq
      rw [hchannels, hchannels', n.getElem_silenced (hne hn hr hq),
        m.getElem_silenced (hne hm hr' hq'), hsame, h.directQueue]
    have hface : n.stop.face = m.stop.face := by
      rw [Node.stop, if_pos hr, Node.stop, if_pos hr']
      exact congrArg (fun k : Node => { k with running := false }) h.face
    have htopics : n.stop.topics = n.topics := (n.lasts_stop).topics
    refine ⟨hface, ?_, fun e he hs => ?_, fun s _ => ?_, fun s c _ hc => ?_, fun hs q hq => ?_⟩
    · rw [hchannels, hchannels', n.silenced_eq.2.2.2, m.silenced_eq.2.2.2, h.length]
    · rw [htopics] at he
      refine ⟨hqueue _ (mem_queues_of_topic (List.mem_map_of_mem he)) (h.relay e he hs).queue,
        fun l _ => ?_, ?_⟩
      · simp only [Exchange.Listens, htasks, htasks']
      · rintro l - ⟨t, ht, -⟩
        rw [htasks] at ht
        cases ht
    · rw [Node.stop, if_pos hr, Node.stop, if_pos hr']
      rfl
    · rw [Node.stop, if_pos hr] at hc
      cases hc
    · rw [Node.stop, if_pos hr] at hq
      refine ⟨hqueue q (mem_queues_of_direct hq) (h.line hs q hq).queue, ?_⟩
      simp only [Exchange.pending, htasks, htasks']

end Node
end PeerNode
