import PeerNode.Network.Loopback
import PeerNode.Proofs.Network.Happenings

/-!
# The table of subscriptions of a node that runs

The ledger of a node that runs tells what its table of subscriptions must be: the entry of a topic
is the latest subscription to it, or there is none, which comes about only by a message that finds
the receiving end of that subscription gone.  A message on a topic goes into that subscription and
no other.  A subscription whose entry has been replaced has no sender from then on (`Replaced`), so
its holder receives what waited in it at that moment, and then the end.

* `Replaced`, `Replaced.run`: a subscription whose entry has been replaced, and that it stays so.
* `received_of_replaced`: what its holder receives.
* `entry_happen_eq_none_iff`: when an entry disappears.
* `publish_eq_topicNotJoined_iff`: when publishing fails for want of an entry.
* `Faithful`, `faithful_run`: what the table is, and what each happening makes of it.
-/

namespace PeerNode

open Exchange (Flow)

namespace Runtime

variable {H : Host} {r : Runtime} {c d : Nat} {topic : String} {e : Happening H}

/-! ## Subscriptions whose entry has been replaced -/

/-- A subscription that is no entry any more. -/
structure Replaced (r : Runtime) (c : Nat) : Prop where
  made : c ∈ r.made.map (·.2)
  entry : ∀ topic, r.current? topic ≠ some c

namespace Replaced

/-- **It never is one again.** -/
theorem happen (hc : r.Replaced c) (h : r.Ledger) (e : Happening H) : (r.happen e).Replaced c := by
  refine ⟨mem_made_happen h hc.made e, fun s hs => ?_⟩
  cases he : e.subscribed? with
  | some topic =>
    obtain ⟨d, hnew, -, hentry, -⟩ := happen_of_subscribed h he
    rw [hentry] at hs
    split at hs
    · exact hnew (Option.some.inj hs ▸ hc.made)
    · exact hc.entry s hs
  | none => exact hc.entry s (entry_of_happen he hs)

theorem offered_eq (hc : r.Replaced c) (e : Happening H) : r.offered e c = [] := by
  cases e with
  | node e =>
    cases e with
    | hears via author topic data => exact if_neg fun hall => hc.entry topic hall.1
    | publishes | sends | accepts | receives | waits | acts | settles => rfl
  | command | joins | drops | takes | releases | cancels | learns => rfl

theorem hasSender (hc : r.Replaced c) (h : r.Ledger) : r.exchange.hasSender c = false := by
  rw [← Bool.not_eq_true, h.hasSender_iff hc.made]
  rintro ⟨topic, hs⟩
  exact hc.entry topic hs

/-- **In the long run** nothing enters it, and who has its receiving end has received from it what
does not wait in it any more. -/
theorem run (hc : r.Replaced c) (h : r.Ledger) (es : List (Happening H)) : (r.run es).Replaced c ∧
    (r.run es).exchange.accepted c = r.exchange.accepted c ∧
    (c ∈ (r.run es).lent →
      c ∈ r.lent ∧ Flow r.exchange (r.run es).exchange c [] (r.received c es)) := by
  induction es generalizing r with
  | nil => exact ⟨hc, rfl, fun hlent => ⟨hlent, .refl _ c⟩⟩
  | cons e es ih =>
    obtain ⟨hnext, hcarries⟩ := h.happen e
    have hc' := hc.happen h e
    obtain ⟨hlast, haccepted, hlent⟩ := ih hc' hnext
    have hmade : c ∈ r.made.map (·.2) := hc.made
    refine ⟨hlast, haccepted.trans ?_, fun hmem => ?_⟩
    · rw [hcarries.accepted c hc'.made, hc.offered_eq e, List.append_nil]
    · obtain ⟨hmem', hflow⟩ := hlent hmem
      have hfirst := hcarries.flow c hmem'
      rw [hc.offered_eq e] at hfirst
      exact ⟨mem_lent_of_happen h hmem' hmade, hfirst.trans hflow⟩

end Replaced

/-- **An entry that is replaced is replaced for good.** -/
theorem replaced_happen (h : r.Ledger) (he : e.subscribed? = some topic)
    (hc : r.current? topic = some c) : (r.happen e).Replaced c := by
  obtain ⟨d, hnew, -, hentry, -⟩ := happen_of_subscribed h he
  have hold : c ∈ r.made.map (·.2) := h.mem_made hc
  refine ⟨mem_made_happen h hold e, fun s hs => ?_⟩
  rw [hentry] at hs
  split at hs
  · exact hnew (Option.some.inj hs ▸ hold)
  · rename_i hne
    exact hne (h.topic_eq hs hc)

/-- **What the holder of a subscription receives once its entry has been replaced**: what waited in
it at that moment, and then the end. -/
theorem received_of_replaced (h : r.Ledger) (he : e.subscribed? = some topic)
    (hc : r.current? topic = some c) (later : List (Happening H))
    (hlent : c ∈ ((r.happen e).run later).lent) :
    r.exchange.buffer c =
        (r.happen e).received c later ++ ((r.happen e).run later).exchange.buffer c ∧
      (((r.happen e).run later).node.poll c).2 =
        match ((r.happen e).run later).exchange.buffer c with
        | m :: _ => .message m
        | [] => .closed := by
  have hnext := (h.happen e).1
  have hs := hnext.run later
  obtain ⟨hlast, -, hheld⟩ := (replaced_happen h he hc).run hnext later
  obtain ⟨hlent', hflow⟩ := hheld hlent
  have hlaw := (((still_of_subscribed h he).flow c hlent').trans hflow).conserved
  rw [List.append_nil, List.append_nil, List.nil_append] at hlaw
  refine ⟨hlaw, ?_⟩
  rw [hs.poll_eq hlent, hlast.hasSender hs]
  cases ((r.happen e).run later).exchange.buffer c <;> rfl

/-- Subscribing takes no sender away but the one of the entry before. -/
theorem hasSender_of_subscribed (h : r.Ledger) (he : e.subscribed? = some topic)
    (hc : c ∈ r.made.map (·.2)) (hold : r.current? topic ≠ some c) :
    (r.happen e).exchange.hasSender c = r.exchange.hasSender c := by
  obtain ⟨d, hnew, -, hentry, -⟩ := happen_of_subscribed h he
  rw [Bool.eq_iff_iff, (h.happen e).1.hasSender_iff (mem_made_happen h hc e), h.hasSender_iff hc]
  refine exists_congr fun s => ?_
  change (r.happen e).current? s = some c ↔ r.current? s = some c
  rw [hentry]
  split
  · rename_i hs
    rw [hs]
    exact iff_of_false (fun hd => hnew (Option.some.inj hd ▸ hc)) hold
  · rfl

theorem lent_of_subscribed (h : r.Ledger) (he : e.subscribed? = some topic) (hc : c ∈ r.lent) :
    c ∈ (r.happen e).lent ∧ (r.happen e).exchange.buffer c = r.exchange.buffer c := by
  obtain ⟨d, -, -, -, hlent⟩ := happen_of_subscribed h he
  have hc' : c ∈ (r.happen e).lent := by
    rcases hlent with hlent | hlent <;> rw [hlent]
    · exact List.mem_cons_of_mem _ hc
    · exact hc
  have hlaw := ((still_of_subscribed h he).flow c hc').conserved
  rw [List.append_nil, List.nil_append] at hlaw
  exact ⟨hc', hlaw.symm⟩

/-! ## What the table is -/

theorem gone_iff (h : r.Ledger) (hc : c ∈ r.made.map (·.2)) :
    r.Gone c ↔ r.exchange.hasReceiver c = false := by
  rw [← Bool.not_eq_true, h.hasReceiver_iff hc, not_or, Gone]
  simp

/-- The table of a node's subscriptions is what the happenings so far have made of it, and every
happening makes of it what it should. -/
structure Faithful (H : Host) (r : Runtime) : Prop where
  /-- The entry of a topic is the latest subscription to it. -/
  latest : ∀ topic c, r.current? topic = some c → r.made.lookup topic = some c
  /-- Into subscriptions goes a message that arrives, and nothing else: into the entry of its topic
  if the receiving end is somewhere and there is room. -/
  offers : ∀ e : Happening H, ∀ c ∈ r.made.map (·.2),
    (r.happen e).exchange.accepted c = r.exchange.accepted c ++
      match e with
      | .node (.hears via author topic data) =>
        if r.current? topic = some c ∧ ¬ r.Gone c ∧ 0 < r.exchange.free c then
          [.onTopic (author.getD via) topic data]
        else []
      | _ => []
  /-- Who subscribes to a topic gets a new subscription, which is the entry of the topic from then
  on.  The entries of other topics stay, each subscription but the one that was the entry before
  keeps its sender, and callers keep what they have, with all that waits in it. -/
  subscribes : ∀ (e : Happening H) topic, e.subscribed? = some topic → ∃ c, c ∉ r.made.map (·.2) ∧
    (r.happen e).made = (topic, c) :: r.made ∧ (r.happen e).current? topic = some c ∧
    (∀ other, other ≠ topic → (r.happen e).current? other = r.current? other) ∧
    (∀ d ∈ r.made.map (·.2), r.current? topic ≠ some d →
      (r.happen e).exchange.hasSender d = r.exchange.hasSender d) ∧
    ∀ d ∈ r.lent, d ∈ (r.happen e).lent ∧ (r.happen e).exchange.buffer d = r.exchange.buffer d
  /-- Nothing else makes a subscription, or an entry. -/
  remembers : ∀ e : Happening H, e.subscribed? = none → (r.happen e).made = r.made ∧
    ∀ topic c, (r.happen e).current? topic = some c → r.current? topic = some c
  /-- The subscription that was the entry before has no sender from then on, and nothing leaves it
  that was not in it.  The caller who has its receiving end receives, now or later, what waited in
  it, and then the end. -/
  replaces : ∀ (e : Happening H) topic c (later : List (Happening H)), e.subscribed? = some topic → r.current? topic = some c →
    let s := (r.happen e).run later
    s.exchange.hasSender c = false ∧
    s.exchange.delivered c ++ s.exchange.buffer c =
      r.exchange.delivered c ++ r.exchange.buffer c ∧
    (c ∈ s.lent →
      r.exchange.buffer c = (r.happen e).received c later ++ s.exchange.buffer c ∧
      (s.node.poll c).2 = match s.exchange.buffer c with
        | m :: _ => .message m
        | [] => .closed)
  /-- An entry disappears if a message on its topic arrives and the receiving end of the latest
  subscription to it is gone, and only then. -/
  disappears : ∀ (e : Happening H) topic, r.current? topic ≠ none →
    ((r.happen e).current? topic = none ↔ ∃ via author data c,
      e = .node (.hears via author topic data) ∧ r.made.lookup topic = some c ∧ r.Gone c)
  /-- The table stays as it is unless the node subscribes or a message arrives. -/
  stays : ∀ e : Happening H, e.subscribed? = none → e.heard? = none →
    (r.happen e).node.subscriptions = r.node.subscriptions
  /-- Publishing on a topic fails for want of a subscription if there is no entry, and only then. -/
  publishes : ∀ (a : Surroundings H) topic data,
    ((a.around r.node).publish a.position topic data).2 = .error (.topicNotJoined topic) ↔
      r.current? topic = none

theorem offered_hears (h : r.Ledger) (hc : c ∈ r.made.map (·.2)) (via : PeerName)
    (author : Option PeerName) (topic : String) (data : Bytes) :
    r.offered (.node (.hears via author topic data) : Happening H) c =
      if r.current? topic = some c ∧ ¬ r.Gone c ∧ 0 < r.exchange.free c then
        [.onTopic (author.getD via) topic data]
      else [] := by
  have hgone : ¬ r.Gone c ↔ r.exchange.hasReceiver c = true := by
    rw [gone_iff h hc, Bool.not_eq_false]
  simp only [hgone]
  rfl

/-- **An entry disappears by a message that finds the receiving end gone.** -/
theorem entry_happen_eq_none_iff (h : r.Ledger) (hc : r.current? topic = some c) :
    (r.happen e).current? topic = none ↔
      r.Gone c ∧ ∃ via author data, e = .node (.hears via author topic data) := by
  cases he : e.subscribed? with
  | some topic' =>
    obtain ⟨d, -, -, hentry, -⟩ := happen_of_subscribed h he
    rw [hentry topic]
    refine iff_of_false ?_ ?_
    · split
      · exact Option.some_ne_none d
      · rw [hc]
        exact Option.some_ne_none c
    · rintro ⟨-, via, author, data, rfl⟩
      cases he
  | none =>
    cases he' : e.heard? with
    | none =>
      rw [current?, Node.subscription?, subscriptions_happen he he']
      refine iff_of_false ?_ ?_
      · rw [show List.lookup topic r.node.subscriptions = some c from hc]
        exact Option.some_ne_none c
      · rintro ⟨-, via, author, data, rfl⟩
        cases he'
    | some topic' =>
      cases e with
      | node e =>
        cases e with
        | hears via author topic' data =>
          have hheard := r.node.subscription?_hear (author.getD via) topic' data topic
          rw [show r.node.subscription? topic = some c from hc, Option.filter_some] at hheard
          change Node.subscription? (r.node.hear _ topic' data) topic = none ↔ _
          rw [hheard, gone_iff h (h.mem_made hc)]
          by_cases hsame : topic = topic'
          · subst hsame
            cases r.exchange.hasReceiver c <;> simp
          · simp [hsame, Ne.symm hsame]
        | publishes | sends | accepts | receives | waits | acts | settles => cases he'
      | command | joins | drops | takes | releases | cancels | learns => cases he'

/-- **Publishing needs an entry.** -/
theorem publish_eq_topicNotJoined_iff (hr : r.node.running = true) (a : Surroundings H)
    (topic : String) (data : Bytes) :
    ((a.around r.node).publish a.position topic data).2 = .error (.topicNotJoined topic) ↔
      r.current? topic = none := by
  rw [Network.publish, Network.request_of_runs (a.getElem_around r.node) hr, current?]
  cases r.node.subscription? topic with
  | none => simp
  | some c =>
    simp only [Option.isNone_some, Bool.false_eq_true, if_false, reduceCtorEq, iff_false]
    cases (H.publish (a.around r.node).state (a.around r.node).profiles a.position topic data).2 <;>
      simp [Verdict.result]

/-- **A right ledger tells what the table is.** -/
theorem faithful_of_ledger (H : Host) (h : r.Ledger) : r.Faithful H where
  latest := fun topic c hc => h.lookup_made hc
  offers := by
    intro e c hc
    rw [(h.happen e).2.accepted c (mem_made_happen h hc e)]
    cases e with
    | node e =>
      cases e with
      | hears via author topic data => rw [offered_hears h hc]
      | publishes | sends | accepts | receives | waits | acts | settles => rfl
    | command | joins | drops | takes | releases | cancels | learns => rfl
  subscribes := by
    intro e topic he
    obtain ⟨c, hnew, hmade, hentry, -⟩ := happen_of_subscribed h he
    refine ⟨c, hnew, hmade, ?_, fun other hother => ?_,
      fun d => hasSender_of_subscribed h he, fun d => lent_of_subscribed h he⟩
    · rw [hentry, if_pos rfl]
    · rw [hentry, if_neg hother]
  remembers := fun e he => ⟨(happen_of_not_subscribed he).1, fun _ _ => entry_of_happen he⟩
  replaces := by
    intro e topic c later he hc s
    have hnext := (h.happen e).1
    have hreplaced := replaced_happen h he hc
    have hs : s.Ledger := hnext.run later
    obtain ⟨hlast, haccepted, -⟩ := hreplaced.run hnext later
    have hfirst := (still_of_subscribed h he).accepted c hreplaced.made
    refine ⟨hlast.hasSender hs, ?_, received_of_replaced h he hc later⟩
    rw [hs.books.conserved, h.books.conserved, haccepted, hfirst, List.append_nil]
  disappears := by
    intro e topic hne
    obtain ⟨c, hc⟩ := Option.ne_none_iff_exists'.1 hne
    rw [entry_happen_eq_none_iff h hc]
    have hlast := h.lookup_made hc
    constructor
    · rintro ⟨hgone, via, author, data, rfl⟩
      exact ⟨via, author, data, c, rfl, hlast, hgone⟩
    · rintro ⟨via, author, data, d, rfl, hd, hgone⟩
      obtain rfl := Option.some.inj (hlast.symm.trans hd)
      exact ⟨hgone, via, author, data, rfl⟩
  stays := fun e => subscriptions_happen
  publishes := publish_eq_topicNotJoined_iff h.running

/-- **The table of a node that runs is a faithful record of its subscriptions**, whatever
happens, and whatever the host makes of it. -/
theorem faithful_run (H : Host) (config : Config) (id : PeerId) (services : Services)
    (contacts : List (PeerId × Multiaddr)) (es : List (Happening H)) :
    ((bare config id services contacts).run es).Faithful H :=
  faithful_of_ledger H (Ledger.run (Node.Ledger.bare config id services contacts) es)

/-- Whoever has the earlier of two subscriptions to a topic receives the message that came before
the second, and then the end. -/
theorem faithful_run_again :
    let author : PeerName := ⟨"a"⟩
    let m := Message.onTopic author "t" [1]
    let again := Happening.command (nobody loopback) (.subscribe "t")
    let r := (bare {} ⟨⟨0, []⟩, by decide⟩ ⟨false, false, false, false, false⟩ []).run
      [again, .node (.hears ⟨"b"⟩ (some author) "t" [1])]
    r.current? "t" = some 0 ∧ (r.happen again).current? "t" = some 1 ∧
      ((r.happen again).node.poll 0).2 = .message m ∧
      ((r.run [again, .takes 0]).node.poll 0).2 = .closed := by
  intro author m again r
  let n := Node.subscribing
    (bare {} ⟨⟨0, []⟩, by decide⟩ ⟨false, false, false, false, false⟩ []).node "t"
  have hsubscribe : (bare {} ⟨⟨0, []⟩, by decide⟩ ⟨false, false, false, false, false⟩ []).happen
      again = ⟨n, [("t", 0)], [0]⟩ := by
    have hidle : n.exchange.Settled := rfl
    rw [happen, command_subscribe rfl]
    congr 1
    change n.settle = n
    rw [Node.settle, Exchange.settle_of_settled hidle]
  have hhear : n.hear author "t" [1] = { n with exchange := (n.exchange.offer 0 m).1 } := by
    rw [Node.hear_eq (c := 0) (by decide), if_pos (by decide)]
  have hr : r = ⟨{ n with exchange := (n.exchange.offer 0 m).1 }, [("t", 0)], [0]⟩ := by
    simp only [r, run, hsubscribe]
    rw [← hhear]
    rfl
  have hentry : r.current? "t" = some 0 := by rw [hr]; rfl
  have hbuffer : r.exchange.buffer 0 = [m] := by rw [hr]; decide
  have hlent : 0 ∈ (r.happen again).lent := by rw [hr]; decide
  have hfaithful : r.Faithful loopback := faithful_run loopback _ _ _ _ _
  -- Before anything is received, the message waits.
  obtain ⟨-, -, hnow⟩ := hfaithful.replaces again "t" 0 [] rfl hentry
  obtain ⟨hwaits, hpoll⟩ := hnow hlent
  rw [received, List.nil_append, hbuffer] at hwaits
  rw [← hwaits] at hpoll
  -- Once it has been received, nothing does.
  obtain ⟨-, -, hlater⟩ := hfaithful.replaces again "t" 0 [.takes 0] rfl hentry
  obtain ⟨hdrained, hclosed⟩ := hlater (by rw [hr]; decide)
  have hfound : (r.happen again).received (H := loopback) 0 [.takes 0] = [m] := by
    have hpoll' : ((r.happen again).node.poll 0).2 = .message m := hpoll
    simp [received, found, hlent, hpoll', Found.messages]
  rw [hfound, hbuffer, List.singleton_append, List.cons_eq_cons] at hdrained
  rw [← hdrained.2] at hclosed
  exact ⟨hentry, by rw [hr]; rfl, hpoll, hclosed⟩

end Runtime
end PeerNode
