import PeerNode.Proofs.Exchange.Turns
import PeerNode.Proofs.Node.Letters
import PeerNode.Proofs.Node.Standing
import PeerNode.Proofs.Node.Steadiness

/-!
# What comes to a node that runs, and what leaves it

Only a receive takes messages out of a delivery queue, and only a message on its topic goes into a
subscription, since no task takes from a delivery queue or puts into a subscription.

* `taken`, `delivered_happen`: what a happening takes out of a delivery queue.
* `offered`, `accepted_happen`: what it puts into a subscription.
-/

namespace PeerNode

variable {n : Node} {spare : List Nat} {q c d : Nat} {p : String × Nat} {topic : String}

namespace Node

/-- The messages that a happening takes out of a delivery queue. -/
def taken (n : Node) (q : Nat) : Happening → List Message
  | .receives inbox => if n.queue? inbox = some q then (n.poll q).2.messages else []
  | .publishes .. | .sends .. | .hears .. | .accepts .. | .waits _ | .acts _ | .settles => []

/-- What a message that arrives puts into a subscription: itself, if the subscription is the entry
of its topic, somebody has the receiving end, and there is room. -/
def offered (n : Node) (author : PeerName) (topic : String) (data : Bytes) (c : Nat) :
    List Message :=
  if n.subscription? topic = some c ∧ n.exchange.hasReceiver c = true ∧ 0 < n.exchange.free c then
    [.onTopic author topic data]
  else []

/-- The messages that a happening puts into a subscription. -/
def put (n : Node) (c : Nat) : Happening → List Message
  | .hears via author topic data => n.offered (author.getD via) topic data c
  | .publishes .. | .sends .. | .accepts .. | .receives _ | .waits _ | .acts _ | .settles => []

theorem offered_eq (hd : n.subscription? topic = some d) (author : PeerName) (data : Bytes)
    (c : Nat) : n.offered author topic data c = Exchange.inChannel c d
      (if n.exchange.hasReceiver d then [.onTopic author topic data].take (n.exchange.free d)
        else []) := by
  unfold offered Exchange.inChannel
  simp only [hd, Option.some.injEq]
  by_cases hdc : d = c
  · subst hdc
    cases n.exchange.free d <;> simp
  · simp [hdc]

theorem flow_unsubscribe (n : Node) (topic : String) (c : Nat) :
    Exchange.Flow n.exchange (n.unsubscribe topic).exchange c [] [] := by
  unfold unsubscribe
  split
  · exact Exchange.flow_onChannel _ _ (fun ch => { ch with senders := ch.senders - 1 })
      (fun _ => rfl) c
  · exact .refl _ c

/-- **What goes through channels when a message arrives.** -/
theorem flow_hear (n : Node) (author : PeerName) (topic : String) (data : Bytes) (c : Nat) :
    Exchange.Flow n.exchange (n.hear author topic data).exchange c
      (n.offered author topic data c) [] := by
  rcases n.hear_cases author topic data with ⟨hnone, he⟩ | ⟨d, hd, -, he⟩ | ⟨d, hd, hgone, he⟩ <;>
    rw [he]
  · rw [offered, if_neg (by simp [hnone])]
    exact .refl _ c
  · rw [offered_eq hd]
    exact Exchange.flow_offer n.exchange d (.onTopic author topic data) c
  · rw [offered_eq hd, hgone, if_neg Bool.false_ne_true, Exchange.inChannel_nil]
    exact n.flow_unsubscribe topic c

theorem flow_accept (n : Node) (sender : PeerName) (script : List ReadEvent) (c : Nat) :
    Exchange.Flow n.exchange (n.accept sender script).exchange c [] [] := by
  rcases n.accept_cases sender script with ⟨-, he⟩ | ⟨d, -, he⟩ <;> rw [he]
  · exact .refl _ c
  · exact Exchange.flow_of_eq rfl rfl

theorem flow_poll (n : Node) (q c : Nat) : Exchange.Flow n.exchange (n.poll q).1.exchange c []
    (Exchange.inChannel c q (n.poll q).2.messages) := Exchange.flow_tryReceive n.exchange q c

/-! ## Out of a delivery queue -/

/-- **Only a receive takes messages out of a delivery queue.** -/
theorem Sound.delivered_happen (h : n.Sound spare) (hq : q ∈ n.queues spare) (e : Happening) :
    (n.happen e).exchange.delivered q = n.exchange.delivered q ++ n.taken q e := by
  cases e with
  | publishes | sends | waits => exact (List.append_nil _).symm
  | hears via author topic data => exact (n.flow_hear _ topic data q).delivered
  | accepts sender script => exact (n.flow_accept sender script q).delivered
  | receives inbox =>
    simp only [Node.happen, taken]
    cases hr : n.queue? inbox with
    | none => simp
    | some r =>
      refine (n.flow_poll r q).delivered.trans ?_
      by_cases hrq : r = q
      · subst hrq
        simp [Exchange.inChannel]
      · simp [Exchange.inChannel, hrq]
  | acts k =>
    rcases n.letAct_cases k with hk | ⟨t, a, ht, ha, hk⟩ <;> simp only [Node.happen, hk, taken]
    · rw [List.append_nil]
    · rw [(Exchange.flow_perform ha.feasible t q).delivered]
      congr 1
      by_contra hne
      exact Bool.false_ne_true ((h.unread t ht q hq).symm.trans (ha.holdsReceiver_of_outs hne))
  | settles =>
    exact (Exchange.delivered_settle fun t ht => h.unread t ht q hq).trans
      (List.append_nil _).symm

theorem Sound.messages_poll (h : n.Sound spare) (q : Nat) :
    (n.poll q).2.messages = (n.exchange.buffer q).take 1 := by
  change (n.exchange.tryReceive q).2.messages = _
  unfold Exchange.tryReceive
  rw [h.hasWaitingReceiver, if_neg Bool.false_ne_true]
  cases n.exchange.buffer q with
  | nil => cases hs : n.exchange.hasSender q <;> simp [Found.messages]
  | cons m ms => rfl

/-! ## Into a subscription -/

theorem Sound.subscription?_eq (h : n.Sound spare) (hp : p ∈ n.subscriptions) :
    n.subscription? p.1 = some p.2 := by
  cases hl : n.subscription? p.1 with
  | none => exact absurd (List.mem_map_of_mem hp) (Session.notMem_of_lookup_eq_none hl)
  | some c => rw [Session.eq_of_mem_of_lookup h.senders.distinct hp hl]

theorem Sound.topic_eq (h : n.Sound spare) (hp : p ∈ n.subscriptions) {topic : String}
    (hc : n.subscription? topic = some p.2) : topic = p.1 :=
  congrArg Prod.fst
    (List.inj_on_of_nodup_map h.fresh (Session.mem_of_lookup_eq_some hc) hp rfl)

/-- **Only a message on its topic goes into a subscription.** -/
theorem Sound.accepted_happen (h : n.Sound spare) (hp : p ∈ n.subscriptions) (e : Happening) :
    (n.happen e).exchange.accepted p.2 = n.exchange.accepted p.2 ++ n.put p.2 e := by
  cases e with
  | publishes | sends | waits => exact (List.append_nil _).symm
  | hears via author topic data => exact (n.flow_hear _ topic data p.2).accepted
  | accepts sender script => exact (n.flow_accept sender script p.2).accepted
  | receives inbox =>
    simp only [Node.happen, put]
    split
    · exact (n.flow_poll _ p.2).accepted
    · exact (List.append_nil _).symm
  | acts k =>
    rcases n.letAct_cases k with hk | ⟨t, a, ht, ha, hk⟩ <;> simp only [Node.happen, hk, put]
    · rw [List.append_nil]
    · rw [(Exchange.flow_perform ha.feasible t p.2).accepted]
      congr 1
      by_contra hne
      exact Bool.false_ne_true
        ((h.unfilled_subscription hp t ht).symm.trans (ha.holdsSender_of_ins hne))
  | settles =>
    exact (Exchange.accepted_settle (h.unfilled_subscription hp)).trans (List.append_nil _).symm

/-! ## Room -/

theorem Sound.room_eq (h : n.Sound spare) (hq : q ∈ n.queues spare) :
    n.exchange.room q = deliveryQueueCapacity - (n.exchange.buffer q).length := by
  obtain ⟨ch, hch, hcapacity, -⟩ := h.queue q hq
  simp only [Exchange.room, Exchange.buffer, hch, hcapacity]

theorem Sound.free_subscription (h : n.Sound spare) (hp : p ∈ n.subscriptions) :
    n.exchange.free p.2 = n.exchange.room p.2 := by
  have hnone : n.exchange.waitingSenders p.2 = [] := by
    refine List.filter_eq_nil_iff.2 fun t ht hwants => ?_
    have hheld := h.unfilled_subscription hp t ht
    exact Bool.false_ne_true (hheld.symm.trans (Work.holdsSender_of_wantsRoom hwants))
  rw [Exchange.free, hnone, List.length_nil, Nat.sub_zero]

end Node
end PeerNode
