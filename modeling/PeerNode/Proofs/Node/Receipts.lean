import PeerNode.Proofs.Node.Traffic

/-!
# What a node has received

Whatever happens to a node and in whatever order, what the receives from an inbox have found is what
has left the queue of the inbox, and no message of a stream that was accepted is lost: it has
entered the queue of direct messages, or a handler is going to deliver it.

Receives that are repeated, with enough time for the tasks between them, empty a queue, if nothing
is left behind a queue that is empty (`exists_drained`).

* `gather`: what may be said of all that happens to a node, one thing after another.
* `found`, `received`, `Sound.delivered_run`: what receives have found.
* `Happening.letters`, `Sound.letters_run`: what streams have brought.
* `drain`, `exists_drained`, `Sound.received_drain`: everything is received in the end.
-/

namespace PeerNode
namespace Node

variable {n m : Node} {spare : List Nat} {inbox inbox' : Inbox} {q : Nat} {d : DirectChannel}
  {α : Type}

/-! ## One thing after another -/

/-- What something says of all that happens to a node, each time of the node as it then is. -/
def gather (f : Node → Happening → List α) (n : Node) : List Happening → List α
  | [] => []
  | e :: rest => f n e ++ gather f (n.happen e) rest

theorem run_append (n : Node) (es es' : List Happening) :
    n.run (es ++ es') = (n.run es).run es' := by
  induction es generalizing n with
  | nil => rfl
  | cons e es ih => exact ih (n.happen e)

theorem gather_append (f : Node → Happening → List α) (n : Node) (es es' : List Happening) :
    gather f n (es ++ es') = gather f n es ++ gather f (n.run es) es' := by
  induction es generalizing n with
  | nil => rfl
  | cons e es ih => rw [List.cons_append, gather, gather, ih, run, List.append_assoc]

/-! ## Receives -/

/-- What a happening finds in an inbox. -/
def found (inbox : Inbox) (n : Node) : Happening → List Message
  | .receives r =>
    if r = inbox then (n.queue? r).toList.flatMap fun q => (n.poll q).2.messages else []
  | .publishes .. | .sends .. | .hears .. | .accepts .. | .waits _ | .acts _ | .settles => []

def received (inbox : Inbox) : Node → List Happening → List Message := gather (found inbox)

/-- The inboxes of a node have queues of their own. -/
theorem Sound.queue?_inj (h : n.Sound spare) (hq : n.queue? inbox = some q)
    (hq' : n.queue? inbox' = some q) : inbox = inbox' := by
  have htopic : ∀ {k : Nat} {e : JoinedTopic}, n.topics[k]? = some e → e.queue = q →
      (n.topics.map (·.queue))[k]? = some q := by
    intro k e he hqueue
    rw [List.getElem?_map, he, Option.map_some, hqueue]
  have hnodup : (n.topics.map (·.queue)).Nodup := by
    have hdistinct := h.distinct
    rw [queues, List.append_assoc] at hdistinct
    exact (List.nodup_append.1 hdistinct).1
  have hdirect : ∀ {k : Nat} {e : JoinedTopic} {d : DirectChannel}, n.topics[k]? = some e →
      e.queue = q → n.direct = some d → d.queue ≠ q := by
    intro k e d he hqueue hd hdq
    refine (h.topic_notMem (List.mem_map_of_mem (List.mem_of_getElem? he))).2 ?_
    simp [directQueue, hd, hqueue, hdq]
  cases inbox with
  | topic k =>
    obtain ⟨e, he, hqueue⟩ := Option.map_eq_some_iff.1 hq
    cases inbox' with
    | topic k' =>
      obtain ⟨e', he', hqueue'⟩ := Option.map_eq_some_iff.1 hq'
      have hlt := (List.getElem?_eq_some_iff.1 (htopic he hqueue)).1
      have hsame := (htopic he hqueue).trans (htopic he' hqueue').symm
      rw [(List.getElem?_inj hlt hnodup).1 hsame]
    | direct =>
      obtain ⟨d, hd, hdq⟩ := Option.map_eq_some_iff.1 hq'
      exact absurd hdq (hdirect he hqueue hd)
  | direct =>
    obtain ⟨d, hd, hdq⟩ := Option.map_eq_some_iff.1 hq
    cases inbox' with
    | topic k' =>
      obtain ⟨e', he', hqueue'⟩ := Option.map_eq_some_iff.1 hq'
      exact absurd hdq (hdirect he' hqueue' hd)
    | direct => rfl

theorem Sound.found_eq_taken (h : n.Sound spare) (hq : n.queue? inbox = some q) (e : Happening) :
    n.found inbox e = n.taken q e := by
  cases e with
  | receives r =>
    simp only [found, taken]
    by_cases hr : r = inbox
    · subst hr
      simp [hq]
    · rw [if_neg hr, if_neg fun hsame => hr (h.queue?_inj hsame hq)]
  | publishes | sends | hears | accepts | waits | acts | settles => rfl

theorem queue?_run (n : Node) (es : List Happening) (inbox : Inbox) :
    (n.run es).queue? inbox = n.queue? inbox := by
  have halike := n.alike_run es
  cases inbox with
  | topic k => rw [queue?, queue?, halike.topics]
  | direct => rw [queue?, queue?, halike.direct]

/-- **What receives from an inbox have found has left its queue.** -/
theorem Sound.delivered_run (h : n.Sound spare) (hq : n.queue? inbox = some q)
    (es : List Happening) :
    (n.run es).exchange.delivered q = n.exchange.delivered q ++ n.received inbox es := by
  induction es generalizing n with
  | nil => exact (List.append_nil _).symm
  | cons e es ih =>
    rw [Node.run, ih (h.happen e) ((n.queue?_run [e] inbox).trans hq),
      h.delivered_happen (mem_queues_of_queue? hq), received, gather, h.found_eq_taken hq,
      List.append_assoc]

/-! ## Streams -/

/-- The message that a happening brings on a stream. -/
def Happening.letters : Happening → List Message
  | .accepts sender script => letter sender (Frame.heard script)
  | .publishes .. | .sends .. | .hears .. | .receives _ | .waits _ | .acts _ | .settles => []

/-- The stream of a happening, if there is one, hands out everything at once. -/
def Happening.Prompt : Happening → Prop
  | .accepts _ script => Frame.Prompt script
  | .publishes .. | .sends .. | .hears .. | .receives _ | .waits _ | .acts _ | .settles => True

/-- **What happens adds the message that it brings, and loses none.** -/
theorem Sound.letters_happen (h : n.Sound spare) (hready : n.exchange.Ready)
    (hd : n.direct = some d) {e : Happening} (he : e.Prompt) :
    (n.happen e).exchange.Ready ∧
      ((n.happen e).exchange.accepted d.queue ++ (n.happen e).exchange.pending d.queue).Perm
        (n.exchange.accepted d.queue ++ n.exchange.pending d.queue ++ e.letters) := by
  have hqueue := mem_directQueue hd
  have hstill : ∀ {x : Exchange}, x.tasks = n.exchange.tasks → n.exchange.clock ≤ x.clock →
      x.accepted d.queue = n.exchange.accepted d.queue → x.Ready ∧
        (x.accepted d.queue ++ x.pending d.queue).Perm
          (n.exchange.accepted d.queue ++ n.exchange.pending d.queue ++ []) := by
    intro x htasks hclock haccepted
    refine ⟨hready.of_le htasks hclock, ?_⟩
    rw [haccepted, Exchange.pending, htasks, ← Exchange.pending, List.append_nil]
  cases e with
  | publishes | sends => exact hstill rfl (Nat.le_refl _) rfl
  | hears via author topic data =>
    obtain ⟨htasks, hclock⟩ := n.tasks_hear (author.getD via) topic data
    refine hstill htasks (Nat.le_of_eq hclock.symm) ?_
    rw [Node.happen, deliver, (n.flow_hear _ topic data d.queue).accepted, offered, if_neg,
      List.append_nil]
    rintro ⟨hc, -⟩
    exact (h.subscription _ (Session.mem_of_lookup_eq_some hc)).1 (mem_queues_of_direct hqueue)
  | accepts sender script =>
    have haccept : n.accept sender script = n.handling d sender script := by rw [Node.accept, hd]
    rw [Node.happen, haccept]
    refine ⟨Sound.ready_handling hready d sender he, List.Perm.of_eq ?_⟩
    rw [Sound.pending_handling n d sender he, ← List.append_assoc, Happening.letters]
    rfl
  | receives r =>
    simp only [Node.happen]
    split
    · rename_i r' _
      have hpoll := Exchange.onlyMessages_tryReceive n.exchange r'
      refine hstill hpoll.tasks (Nat.le_of_eq hpoll.clock.symm) ?_
      exact (n.flow_poll r' d.queue).accepted.trans (List.append_nil _)
    · exact hstill rfl (Nat.le_refl _) rfl
  | waits secs => exact hstill rfl (Nat.le_add_right _ _) rfl
  | acts k =>
    rcases n.letAct_cases k with hk | ⟨t, a, ht, ha, hk⟩ <;> rw [Node.happen, hk]
    · exact hstill rfl (Nat.le_refl _) rfl
    · refine ⟨hready.perform ht ha, ?_⟩
      rw [Happening.letters, List.append_nil]
      exact h.letters_perform hready hqueue ht ha
  | settles =>
    refine ⟨hready.settle, ?_⟩
    rw [Happening.letters, List.append_nil]
    exact h.letters_settle hready hqueue

/-- **No message of a stream is lost, and none is there twice.** -/
theorem Sound.letters_run (h : n.Sound spare) (hready : n.exchange.Ready) (hd : n.direct = some d)
    {es : List Happening} (hes : ∀ e ∈ es, e.Prompt) :
    (n.run es).exchange.Ready ∧
      ((n.run es).exchange.accepted d.queue ++ (n.run es).exchange.pending d.queue).Perm
        (n.exchange.accepted d.queue ++ n.exchange.pending d.queue ++
          es.flatMap Happening.letters) := by
  induction es generalizing n with
  | nil => exact ⟨hready, by rw [List.flatMap_nil, List.append_nil, Node.run]⟩
  | cons e es ih =>
    obtain ⟨hready', hone⟩ := h.letters_happen hready hd (hes e List.mem_cons_self)
    obtain ⟨hready'', hall⟩ := ih (h.happen e) hready' ((n.alike_happen e).direct.trans hd)
      fun e he => hes e (List.mem_cons_of_mem _ he)
    refine ⟨hready'', hall.trans ?_⟩
    rw [List.flatMap_cons, ← List.append_assoc]
    exact hone.append_right _

/-! ## Receiving everything -/

/-- Time for the tasks, and then so many receives from an inbox, with time for the tasks after each
of them. -/
def drain (inbox : Inbox) (count : Nat) : List Happening :=
  .settles :: (List.replicate count [.receives inbox, .settles]).flatten

/-- **A queue that is drained has been emptied**, if it is always empty only when so many messages
have left it. -/
theorem exists_drained {P : Node → Prop} {total : Nat}
    (hkeeps : ∀ m, P m → P ((m.happen (.receives inbox)).happen .settles))
    (hempty : ∀ m, P m → m.Sound [] ∧ m.queue? inbox = some q ∧
      (m.exchange.buffer q = [] → total ≤ (m.exchange.delivered q).length))
    (hn : P n.settle) (count : Nat) :
    P (n.run (drain inbox count)) ∧ min total ((n.settle.exchange.delivered q).length + count) ≤
      ((n.run (drain inbox count)).exchange.delivered q).length := by
  have hall : ∀ m : Node, P m → ∀ count : Nat,
      P (m.run (List.replicate count [.receives inbox, .settles]).flatten) ∧
        min total ((m.exchange.delivered q).length + count) ≤
          ((m.run (List.replicate count [.receives inbox, .settles]).flatten).exchange.delivered
            q).length := by
    intro m hm count
    induction count generalizing m with
    | zero => exact ⟨hm, Nat.min_le_right _ _⟩
    | succ count ih =>
      obtain ⟨hsound, hqueue, htotal⟩ := hempty m hm
      have hnext := hkeeps m hm
      obtain ⟨hlast, hcount⟩ := ih _ hnext
      refine ⟨hlast, Nat.le_trans ?_ hcount⟩
      -- a receive finds a message, or all of them have left the queue
      have hdelivered := hsound.delivered_run hqueue [.receives inbox, .settles]
      have hfound : m.received inbox [.receives inbox, .settles] =
          (m.exchange.buffer q).take 1 := by
        simp only [received, gather, found, if_true, hqueue, Option.toList_some,
          List.flatMap_singleton, List.append_nil, hsound.messages_poll]
      rw [hfound] at hdelivered
      change ((m.happen (.receives inbox)).happen .settles).exchange.delivered q = _ at hdelivered
      rw [hdelivered, List.length_append, List.length_take]
      by_cases hb : m.exchange.buffer q = []
      · have := htotal hb
        omega
      · have := List.length_pos_iff.2 hb
        omega
  exact hall n.settle hn count

end Node
end PeerNode
