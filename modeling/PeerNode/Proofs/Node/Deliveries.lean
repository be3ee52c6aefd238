import PeerNode.Proofs.Node.Beginning
import PeerNode.Proofs.Node.Receipts

/-!
# What a node receives on a topic

A message that arrives on a topic is put into the subscription of the topic if there is room for it.
The listener takes it out of there, and unless it is the node's own it goes into the delivery queue.
So whatever happens, and however far the tasks have got, the messages of others that have been put
into the subscription stand in one line: those that have been received, those that wait in the
queue, the one that the listener holds, and those that wait in the subscription
(`Serves.line_run`).
A message that has a place in the line keeps it and is received in the end; one that finds no room
never gets a place.

The subscription is much smaller than the queue.  When the tasks have acted it is empty as long as
the queue is not full (`Serves.idle`); but of messages that arrive before that only so many get a
place.

* `Happening.arrivals`: the message that arrives on a topic.
* `Node.undelivered`: what has a place in the line and has not been received.
* `Node.Serves`: a node that serves a topic; `Serves.run`.
* `Serves.line_run`: the line of a topic.
* `Serves.put_eq`: who gets a place.
* `Serves.received_undelivered`: everything in the line is received in the end.
-/

namespace PeerNode

variable {x : Exchange} {n m : Node} {t : Task} {e : JoinedTopic} {c j : Nat}

/-- The listener that fills a queue, if that is the work. -/
def Work.listener? (q : Nat) : Work → Option Listener
  | listen l => if l.target = q then some l else none
  | send .. | receive _ | handle _ => none

theorem Work.listener?_eq_some_iff {w : Work} {q : Nat} {l : Listener} :
    w.listener? q = some l ↔ w = .listen l ∧ l.target = q := by
  cases w with
  | listen l' =>
    simp only [listener?, listen.injEq]
    constructor
    · intro h
      split at h
      · rename_i hq
        obtain rfl := Option.some.inj h
        exact ⟨rfl, hq⟩
      · cases h
    · rintro ⟨rfl, hq⟩
      exact if_pos hq
  | send | receive | handle => simp [listener?]

/-- The message that the listener of a queue holds. -/
def Exchange.held (x : Exchange) (q : Nat) : List Message :=
  ((x.tasks.findSome? (·.work.listener? q)).bind (·.held)).toList

namespace Node

/-- The message that arrives on a topic, as it counts for the node. -/
def Happening.arrivals (topic : String) : Happening → List Message
  | .hears via author t data => if t = topic then [.onTopic (author.getD via) t data] else []
  | .publishes .. | .sends .. | .accepts .. | .receives _ | .waits _ | .acts _ | .settles => []

/-- What waits in the subscription of a topic for the listener. -/
def unread (n : Node) (e : JoinedTopic) : List Message :=
  (n.subscription? e.name).toList.flatMap n.exchange.buffer

/-- What others have sent on a topic and has not been received: what waits in the queue, what the
listener holds, and what waits in the subscription. -/
def undelivered (n : Node) (e : JoinedTopic) : List Message :=
  n.exchange.buffer e.queue ++ n.exchange.held e.queue ++ foreign n.name (n.unread e)

/-! ## Where messages go -/

/-- The listener of a queue is the only one. -/
theorem Sound.held_eq (h : n.Sound []) (ht : t ∈ n.exchange.tasks) {l : Listener}
    (hl : t.work = .listen l) : n.exchange.held l.target = l.held.toList := by
  have hfind : n.exchange.tasks.findSome? (·.work.listener? l.target) = some l := by
    cases hfound : n.exchange.tasks.findSome? (·.work.listener? l.target) with
    | none =>
      have hnone := List.findSome?_eq_none_iff.1 hfound t ht
      cases hnone.symm.trans (Work.listener?_eq_some_iff.2 ⟨hl, rfl⟩)
    | some l' =>
      obtain ⟨u, hu, hfound⟩ := List.exists_of_findSome?_eq_some hfound
      obtain ⟨hl', htarget⟩ := Work.listener?_eq_some_iff.1 hfound
      have hid := h.apart t ht u hu l l' hl hl' (Or.inr htarget.symm)
      obtain rfl := h.tidy.eq_of_id_eq ht hu hid
      rw [Work.listen.inj (hl'.symm.trans hl)]
  rw [Exchange.held, hfind]
  rfl

/-- Whatever happens keeps the law of the listeners. -/
theorem Sound.relays_happen (h : n.Sound []) (hr : n.exchange.Relays) (happening : Happening) :
    (n.happen happening).exchange.Relays := by
  cases happening with
  | publishes | sends | waits => exact hr
  | hears via author topic data => exact h.relays_hear hr _ topic data
  | accepts sender script =>
    rcases n.accept_cases sender script with ⟨-, he⟩ | ⟨d, -, he⟩ <;> rw [Node.happen, he]
    · exact hr
    · exact relays_handling hr d sender script
  | receives inbox =>
    simp only [Node.happen]
    split
    · rename_i q hq
      exact h.relays_poll hr (mem_queues_of_queue? hq)
    · exact hr
  | acts k =>
    rcases n.letAct_cases k with hk | ⟨t, a, ht, ha, hk⟩ <;> rw [Node.happen, hk]
    · exact hr
    · exact h.relays_perform hr ht ha
  | settles => exact h.relays_settle hr

/-- The entry of a served topic stays. -/
theorem Served.mem_subscriptions_happen (hs : n.Served e) (h : n.Sound [])
    (hc : (e.name, c) ∈ n.subscriptions) (happening : Happening) :
    (e.name, c) ∈ (n.happen happening).subscriptions := by
  cases happening with
  | publishes | sends | waits | settles => exact hc
  | hears via author topic data =>
    rw [Node.happen, deliver]
    rcases n.hear_cases (author.getD via) topic data with
      ⟨-, he⟩ | ⟨d, -, -, he⟩ | ⟨d, hd, hgone, he⟩ <;> rw [he]
    · exact hc
    · exact hc
    · have hne : e.name ≠ topic := by
        rintro rfl
        rw [hs.hasReceiver h hd] at hgone
        cases hgone
      simp only [Node.unsubscribe, hd]
      exact List.mem_filter.2 ⟨hc, by simpa using hne⟩
  | accepts sender script =>
    rcases n.accept_cases sender script with ⟨-, he⟩ | ⟨d, -, he⟩ <;> rw [Node.happen, he] <;>
      exact hc
  | receives inbox =>
    simp only [Node.happen]
    split <;> exact hc
  | acts k =>
    rcases n.letAct_cases k with hk | ⟨t, a, ht, ha, hk⟩ <;> rw [Node.happen, hk] <;> exact hc

/-- A node that serves a topic, whose messages go to a subscription. -/
structure Serves (n : Node) (e : JoinedTopic) (c : Nat) : Prop where
  sound : n.Sound []
  relays : n.exchange.Relays
  served : n.Served e
  topic : e ∈ n.topics
  entry : (e.name, c) ∈ n.subscriptions

theorem Begun.serves (h : n.Begun) (hnames : (n.topics.map (·.name)).Nodup)
    (he : n.topics[j]? = some e) : ∃ c, n.Serves e c := by
  have hserved := h.standing.served hnames he
  have hstays := hserved
  obtain ⟨-, -, l, -, -, hsource⟩ := hstays
  exact ⟨l.source, h.steady.sound, h.steady.relays, hserved, List.mem_of_getElem? he, hsource⟩

namespace Serves

variable {n : Node} {happening : Happening} {es : List Happening}

theorem happen (h : n.Serves e c) (happening : Happening) : (n.happen happening).Serves e c where
  sound := h.sound.happen happening
  relays := h.sound.relays_happen h.relays happening
  served := h.served.happen h.sound happening
  topic := (n.alike_happen happening).topics ▸ h.topic
  entry := h.served.mem_subscriptions_happen h.sound h.entry happening

theorem run (h : n.Serves e c) (es : List Happening) : (n.run es).Serves e c := by
  induction es generalizing n with
  | nil => exact h
  | cons e es ih => exact ih (h.happen e)

theorem subscription?_eq (h : n.Serves e c) : n.subscription? e.name = some c :=
  h.sound.subscription?_eq h.entry

theorem unread_eq (h : n.Serves e c) : n.unread e = n.exchange.buffer c := by
  rw [unread, h.subscription?_eq, Option.toList_some, List.flatMap_singleton]

/-! ## The line of a topic -/

/-- **The line of a topic**: what has left the queue and what has not been received is what others
have put into the subscription. -/
theorem line_eq (h : n.Serves e c) : n.exchange.delivered e.queue ++ n.undelivered e =
    foreign n.name (n.exchange.accepted c) := by
  obtain ⟨t, ht, l, hl, htarget, hsource⟩ := h.served
  have hc : l.source = c := Session.eq_of_mem_of_lookup h.sound.senders.distinct hsource
    h.subscription?_eq
  have hemployed := h.sound.employed t ht
  rw [hl] at hemployed
  have hlaw := h.relays t ht l hl
  rw [undelivered, h.unread_eq, ← htarget, ← hc, h.sound.held_eq ht hl,
    ← h.sound.books.conserved l.source, foreign_append, ← hemployed.2, ← hlaw,
    ← h.sound.books.conserved l.target]
  simp only [List.append_assoc]

theorem put_sublist (h : n.Serves e c) (happening : Happening) :
    (n.put c happening).Sublist (happening.arrivals e.name) := by
  cases happening with
  | hears via author topic data =>
    simp only [put, offered, Happening.arrivals]
    split
    · rename_i hoffered
      rw [if_pos (h.sound.topic_eq h.entry hoffered.1), h.sound.topic_eq h.entry hoffered.1]
    · exact List.nil_sublist _
  | publishes | sends | accepts | receives | waits | acts | settles => exact List.nil_sublist _

theorem accepted_run (h : n.Serves e c) (es : List Happening) :
    (n.run es).exchange.accepted c = n.exchange.accepted c ++ gather (·.put c ·) n es := by
  induction es generalizing n with
  | nil => exact (List.append_nil _).symm
  | cons happening es ih =>
    rw [Node.run, ih (h.happen happening), h.sound.accepted_happen h.entry happening, gather,
      List.append_assoc]

theorem gather_put_sublist (h : n.Serves e c) (es : List Happening) :
    (gather (·.put c ·) n es).Sublist (es.flatMap (Happening.arrivals e.name)) := by
  induction es generalizing n with
  | nil => exact List.Sublist.refl _
  | cons happening es ih =>
    rw [gather, List.flatMap_cons]
    exact (h.put_sublist happening).append (ih (h.happen happening))

/-- **What has been received and what has not stand in one line**, which consists of the messages
of others that have found room. -/
theorem line_run (h : n.Serves e c) (hj : n.topics[j]? = some e) (es : List Happening) :
    n.exchange.delivered e.queue ++ n.received (.topic j) es ++ (n.run es).undelivered e =
      n.exchange.delivered e.queue ++ n.undelivered e ++
        foreign n.name (gather (·.put c ·) n es) := by
  have hname : (n.run es).name = n.name := congrArg PeerName.ofId (n.alike_run es).id
  rw [← h.sound.delivered_run (queue?_topic hj), (h.run es).line_eq, h.accepted_run, foreign_append,
    hname, h.line_eq]

/-! ## Who gets a place -/

theorem free_eq (h : n.Serves e c) :
    n.exchange.free c = subscriptionCapacity - (n.exchange.buffer c).length := by
  obtain ⟨-, ch, hch, hcapacity⟩ := h.sound.subscription _ h.entry
  rw [h.sound.free_subscription h.entry, Exchange.room, Exchange.buffer, hch]
  exact congrArg (· - ch.buffer.length) hcapacity

/-- **A message that arrives is put into the subscription exactly if there is room.** -/
theorem put_eq (h : n.Serves e c) (via : PeerName) (author : Option PeerName) (data : Bytes) :
    n.put c (.hears via author e.name data) =
      if (n.unread e).length < subscriptionCapacity then
        [.onTopic (author.getD via) e.name data] else [] := by
  have hroom : n.subscription? e.name = some c ∧ n.exchange.hasReceiver c = true ∧
      0 < n.exchange.free c ↔ (n.unread e).length < subscriptionCapacity := by
    rw [h.free_eq, h.unread_eq]
    refine ⟨fun hall => by omega, fun hroom => ⟨h.subscription?_eq, ?_, by omega⟩⟩
    exact h.served.hasReceiver h.sound h.subscription?_eq
  simp only [put, offered, hroom]

/-- **Of messages that arrive before any task acts, as many get a place as there is room for**, and
those that come after are lost. -/
theorem gather_put_hears (h : n.Serves e c) (via : PeerName) (author : Option PeerName)
    (ds : List Bytes) :
    gather (·.put c ·) n (ds.map fun d => .hears via author e.name d) =
      (ds.take (subscriptionCapacity - (n.unread e).length)).map
        fun d => .onTopic (author.getD via) e.name d := by
  induction ds generalizing n with
  | nil => rw [List.take_nil]; rfl
  | cons d ds ih =>
    have hflow := (n.flow_hear (author.getD via) e.name d c).conserved
    have hput := h.put_eq via author d
    have hnext := h.happen (.hears via author e.name d)
    rw [List.map_cons, gather, ih hnext, hput]
    rw [put] at hput
    rw [hput, List.nil_append, ← h.unread_eq] at hflow
    have hunread : (n.happen (.hears via author e.name d)).unread e = _ :=
      hnext.unread_eq.trans hflow.symm
    rw [hunread]
    split
    · rename_i hroom
      have hsucc : subscriptionCapacity - (n.unread e).length =
          subscriptionCapacity - ((n.unread e).length + 1) + 1 := by omega
      rw [hsucc, List.take_succ_cons, List.length_append]
      rfl
    · rename_i hfull
      have hzero : subscriptionCapacity - (n.unread e).length = 0 := by omega
      rw [List.append_nil, hzero, List.take_zero, List.take_zero]
      rfl

/-- **Where no task can act, only a full queue keeps anything behind it.** -/
theorem idle (h : n.Serves e c) (hsettled : n.exchange.Settled)
    (hroom : (n.exchange.buffer e.queue).length < deliveryQueueCapacity) :
    n.unread e = [] ∧ n.undelivered e = n.exchange.buffer e.queue := by
  obtain ⟨t, ht, l, hl, htarget, hsource⟩ := h.served
  have hc : l.source = c := Session.eq_of_mem_of_lookup h.sound.senders.distinct hsource
    h.subscription?_eq
  rcases hsettled.listener ht hl with ⟨hm, hb, -⟩ | ⟨m, -, hp⟩
  · have hunread : n.unread e = [] := by rw [h.unread_eq, ← hc, hb]
    refine ⟨hunread, ?_⟩
    rw [undelivered, hunread, ← htarget, h.sound.held_eq ht hl, hm]
    simp [foreign]
  · have hfull := hsettled.room_eq_zero hp
    rw [htarget, h.sound.room_eq (mem_queues_of_topic (List.mem_map_of_mem h.topic))] at hfull
    omega

/-! ## Receiving everything -/

theorem line_of_put_eq_nil (h : n.Serves e c) (hj : n.topics[j]? = some e) (es : List Happening)
    (hnone : gather (·.put c ·) n es = []) :
    (n.run es).exchange.delivered e.queue ++ (n.run es).undelivered e =
      n.exchange.delivered e.queue ++ n.undelivered e := by
  have hline := h.line_run hj es
  rwa [hnone, ← h.sound.delivered_run (queue?_topic hj), foreign, List.filter_nil,
    List.append_nil] at hline

/-- **Everything in the line is received**, if there are receives enough. -/
theorem received_undelivered (h : n.Serves e c) (hj : n.topics[j]? = some e) {count : Nat}
    (henough : (n.undelivered e).length ≤ count) :
    n.received (.topic j) (drain (.topic j) count) = n.undelivered e := by
  have hqueue := queue?_topic hj
  let P (m : Node) : Prop := m.Serves e c ∧ m.exchange.Settled ∧ m.topics[j]? = some e ∧
    m.exchange.delivered e.queue ++ m.undelivered e =
      n.exchange.delivered e.queue ++ n.undelivered e
  have hkeeps : ∀ m, P m → P ((m.happen (.receives (.topic j))).happen .settles) := by
    rintro m ⟨hserves, -, htopic, hline⟩
    refine ⟨(hserves.happen _).happen _, Exchange.settled_settle _, ?_, ?_⟩
    · exact (m.alike_run [.receives (.topic j), .settles]).topics ▸ htopic
    · exact (hserves.line_of_put_eq_nil htopic [.receives (.topic j), .settles] rfl).trans hline
  have hempty : ∀ m, P m → m.Sound [] ∧ m.queue? (.topic j) = some e.queue ∧
      (m.exchange.buffer e.queue = [] →
        (n.exchange.delivered e.queue ++ n.undelivered e).length ≤
          (m.exchange.delivered e.queue).length) := by
    rintro m ⟨hserves, hsettled, htopic, hline⟩
    refine ⟨hserves.sound, queue?_topic htopic, fun hb => ?_⟩
    have hidle := hserves.idle hsettled (by rw [hb]; decide)
    rw [hidle.2, hb, List.append_nil] at hline
    exact Nat.le_of_eq (congrArg List.length hline.symm)
  have hfirst : P n.settle :=
    ⟨h.happen .settles, Exchange.settled_settle _, hj, h.line_of_put_eq_nil hj [.settles] rfl⟩
  have hstill : n.settle.exchange.delivered e.queue = n.exchange.delivered e.queue :=
    (h.sound.delivered_happen (mem_queues_of_queue? hqueue) .settles).trans (List.append_nil _)
  obtain ⟨⟨-, -, -, hline⟩, hcount⟩ := exists_drained hkeeps hempty hfirst count
  have hdelivered := h.sound.delivered_run hqueue (drain (.topic j) count)
  generalize n.run (drain (.topic j) count) = m at *
  rw [hdelivered, List.append_assoc, List.append_cancel_left_eq] at hline
  rw [hstill, hdelivered, List.length_append, List.length_append] at hcount
  have hlength := congrArg List.length hline
  rw [List.length_append] at hlength
  have hrest : m.undelivered e = [] := List.eq_nil_of_length_eq_zero (by omega)
  rwa [hrest, List.append_nil] at hline

end Serves
end Node
end PeerNode
