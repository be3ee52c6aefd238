import PeerNode.Proofs.Exchange.Spawning
import PeerNode.Proofs.Session.Fairness

/-!
# A queue closes when it must, and for good

Nowhere does it stand written that a delivery queue is closed; who asks is told what is found at
that moment.  To consumers the queue is closed once nothing waits in it and nobody holds a sender
(`Exhausted`), and to producers once nobody holds an inbox (`Deserted`).  Holders are the names of
a session, however often they are cloned, given up and given again, and the tasks: sends, listeners
and handlers hold senders, and receives hold inboxes.

Whichever way one asks, by trying, by draining or by a task of one's own, the answer is the same.
For a task this has to be seen through all that happens once it has begun.  Where everybody waits,
a new task is the only one that can act (`outcome_begun`), so it finds the queue as it was.

Neither condition ends once it holds: no step makes a sender or an inbox from nothing
(`Sound.exhausted_path`, `Sound.deserted_path`).  So tasks that wait when it begins to hold find out
as soon as they act, which they do before everybody waits again (`outcome_of_exhausted`,
`outcome_of_deserted`).

* `Exhausted`, `Deserted`: what it is for a queue to be closed, from either side.
* `TellsConsumers`, `TellsProducers`: whoever asks is told so exactly then.
* `closes_exactly_and_for_good`: all of this of every session.
-/

namespace PeerNode

open Exchange (OnlyMessages)

variable {x : Exchange} {t : Task} {a : Act} {c : Nat}

/-- How a task ends whose message nobody would receive. -/
def Work.refusal : Work → Outcome
  | send _ _ => .closed
  | w => w.withdrawal

namespace Exchange

/-- **Whoever has a message that nobody would receive gives it up.** -/
theorem Does.of_unheard {m : Message} (ha : x.Does t a) (h : t.work.brings? c = some m)
    (hr : x.hasReceiver c = false) : a = .alone (.ends t.work.refusal) := by
  cases hw : t.work with
  | send target m' =>
    obtain rfl : target = c := by
      by_contra hne
      simp [hw, Work.brings?, hne] at h
    cases ha <;> simp_all [Work.refusal]
  | receive source => simp [hw, Work.brings?] at h
  | listen l =>
    have htarget : l.target = c := by
      by_contra hne
      simp [hw, Work.brings?, hne] at h
    cases ha <;> simp_all [Work.refusal, Work.withdrawal, Work.brings?]
  | handle h' =>
    cases hst : h'.stage with
    | reading | stalled => simp [hw, Work.brings?, hst] at h
    | enqueuing m' =>
      have htarget : h'.target = c := by
        by_contra hne
        simp [hw, Work.brings?, hst, hne] at h
      cases ha <;> simp_all [Work.refusal, Work.withdrawal, Work.brings?]

/-- **What a receive is told**: that the queue is closed exactly if it is. -/
theorem Does.receive_closed_iff (ha : x.Does t a) (hw : t.work = .receive c) :
    a.after = .ends .channelClosed ↔ x.buffer c = [] ∧ x.hasSender c = false := by
  cases ha with
  | received hw' hp hb =>
    obtain rfl := Work.receive.inj (hw.symm.trans hw')
    refine ⟨nofun, fun h => ?_⟩
    cases h.1.symm.trans hb
  | receiveClosed hw' hp hb hs =>
    obtain rfl := Work.receive.inj (hw.symm.trans hw')
    exact ⟨fun _ => ⟨hb, hs⟩, fun _ => rfl⟩
  | _ => simp_all

/-- **What a send is told**: that the queue is closed exactly if it is. -/
theorem Does.send_closed_iff {m : Message} (ha : x.Does t a) (hw : t.work = .send c m) :
    a.after = .ends .closed ↔ x.hasReceiver c = false := by
  cases ha with
  | sendClosed hw' hr =>
    obtain ⟨rfl, -⟩ := Work.send.inj (hw.symm.trans hw')
    exact ⟨fun _ => hr, fun _ => rfl⟩
  | sent hw' hr hp =>
    obtain ⟨rfl, -⟩ := Work.send.inj (hw.symm.trans hw')
    refine ⟨nofun, fun h => ?_⟩
    cases h.symm.trans hr
  | _ => simp_all

/-- What a consumer finds in a settled exchange that does not wait. -/
theorem Settled.tryReceive_closed_iff (hx : x.Settled) (c : Nat) :
    (x.tryReceive c).2 = .closed ↔ x.buffer c = [] ∧ x.hasSender c = false := by
  refine ⟨fun h => ?_, fun h => by rw [hx.tryReceive_closed h.2 h.1]⟩
  cases hb : x.buffer c with
  | cons m ms =>
    rw [hx.tryReceive hb] at h
    cases h
  | nil =>
    refine ⟨rfl, ?_⟩
    cases hwait : x.hasWaitingReceiver c <;> cases hs : x.hasSender c <;>
      simp [Exchange.tryReceive, hwait, hb, hs] at h ⊢

/-- **A drain ends with an empty channel**, and says that it is closed exactly if nobody could
fill it. -/
theorem drainFrom_closed_iff {fuel : Nat} (hwait : x.hasWaitingReceiver c = false)
    (hfuel : (x.buffer c).length < fuel) : (x.drainFrom c fuel).1.buffer c = [] ∧
      ((x.drainFrom c fuel).2.2 = .closed ↔ (x.drainFrom c fuel).1.hasSender c = false) := by
  induction fuel generalizing x with
  | zero => exact absurd hfuel (Nat.not_lt_zero _)
  | succ fuel ih =>
    unfold drainFrom
    cases hb : x.buffer c with
    | nil =>
      have htry : x.tryReceive c = (x, if x.hasSender c then .nothing else .closed) := by
        simp [tryReceive, hwait, hb]
      rw [htry]
      cases hs : x.hasSender c <;> simp [hb, hs]
    | cons m ms =>
      have htry : x.tryReceive c = (x.pull c m, .message m) := by
        simp [tryReceive, hwait, hb]
      have hrest : (x.pull c m).buffer c = ms := by
        have hflow := (flow_pull hb c).conserved
        rw [hb, inChannel_self, List.append_nil] at hflow
        exact (List.cons.inj hflow).2.symm
      rw [htry]
      refine ih hwait ?_
      rw [hrest]
      rw [hb, List.length_cons] at hfuel
      omega

end Exchange

namespace Session

variable {s s' : Session} {capacity : Nat} {path : List (Session × Cause)} {w : Work}

/-! ## Closed, from either side -/

/-- Whether nothing waits in the delivery queue and nobody is left who could put anything in. -/
structure Exhausted (s : Session) : Prop where
  buffer : s.exchange.buffer 0 = []
  names : ∀ p ∈ s.senders, p.2 ≠ 0
  tasks : ∀ t ∈ s.exchange.tasks, t.work.holdsSender 0 = false

/-- Whether nobody is left who could take anything out of the delivery queue. -/
structure Deserted (s : Session) : Prop where
  names : s.inboxes = []
  tasks : ∀ t ∈ s.exchange.tasks, t.work ≠ .receive 0

theorem Sound.exhausted_iff (hs : s.Sound) :
    s.Exhausted ↔ s.exchange.buffer 0 = [] ∧ s.exchange.hasSender 0 = false := by
  rw [← Bool.not_eq_true, hs.hasSender_iff, not_or]
  refine ⟨fun h => ⟨h.buffer, ?_, ?_⟩, fun ⟨hb, hnames, htasks⟩ => ⟨hb, ?_, ?_⟩⟩
  · rintro ⟨p, hp, hzero⟩
    exact h.names p hp hzero
  · rintro ⟨t, ht, hheld⟩
    rw [h.tasks t ht] at hheld
    cases hheld
  · exact fun p hp hzero => hnames ⟨p, hp, hzero⟩
  · exact fun t ht => Bool.eq_false_iff.2 fun hheld => htasks ⟨t, ht, hheld⟩

/-- Only a receive holds the receiving end of the delivery queue: it is older than all other
channels, and a listener reads a newer one than it fills. -/
theorem holdsReceiver_zero_iff : w.holdsReceiver 0 = true ↔ w = .receive 0 := by
  cases w with
  | send | handle => simp [Work.holdsReceiver]
  | receive source => simp [Work.holdsReceiver]
  | listen l =>
    have hlt := l.target_lt_source
    simp only [Work.holdsReceiver, beq_iff_eq, reduceCtorEq, iff_false]
    omega

theorem Sound.deserted_iff (hs : s.Sound) :
    s.Deserted ↔ s.exchange.hasReceiver 0 = false := by
  rw [← Bool.not_eq_true, hs.hasReceiver_iff, not_or]
  refine ⟨fun h => ⟨?_, ?_⟩, fun ⟨hnames, htasks⟩ => ⟨?_, ?_⟩⟩
  · rintro ⟨p, hp, -⟩
    rw [h.names] at hp
    cases hp
  · rintro ⟨t, ht, hheld⟩
    exact h.tasks t ht (holdsReceiver_zero_iff.1 hheld)
  · exact List.eq_nil_iff_forall_not_mem.2 fun p hp => hnames ⟨p, hp, hs.queue p hp⟩
  · exact fun t ht hw => htasks ⟨t, ht, holdsReceiver_zero_iff.2 hw⟩

/-- **An exhausted queue stays exhausted.** -/
theorem Sound.exhausted_path (hs : s.Sound) (hlt : 0 < s.exchange.channels.length)
    (h : s.Exhausted) (hp : Path s path s') : s'.Exhausted := by
  obtain ⟨hb, hnone⟩ := hs.exhausted_iff.1 h
  refine (hs.path hp).exhausted_iff.2 ⟨?_, (hs.later hp).unfed 0 hlt hnone⟩
  have hlaw := ins_eq_outs_append hp hb
  rw [hs.ins_eq_nil hlt hnone hp, eq_comm, List.append_eq_nil_iff] at hlaw
  exact hlaw.2

/-- **A deserted queue stays deserted.** -/
theorem Sound.deserted_path (hs : s.Sound) (hlt : 0 < s.exchange.channels.length)
    (h : s.Deserted) (hp : Path s path s') : s'.Deserted :=
  (hs.path hp).deserted_iff.2 ((hs.later hp).unheard 0 hlt (hs.deserted_iff.1 h))

/-! ## Those who wait find out -/

/-- Whether a path consists of acts. -/
def OnlyActs (path : List (Session × Cause)) : Prop := ∀ p ∈ path, ∃ t a, p.2 = .act t a

/-- **A task that would end in one way whenever it acts** is still there after others have acted,
or has ended so. -/
theorem mem_or_outcome (hs : s.Sound) (hp : Path s path s') (hacts : OnlyActs path)
    (ht : t ∈ s.exchange.tasks) {o : Outcome}
    (hends : ∀ init s₁ a, Path s init s₁ → t ∈ s₁.exchange.tasks → s₁.exchange.Does t a →
      a = .alone (.ends o)) :
    t ∈ s'.exchange.tasks ∨ s'.exchange.outcome? t.id = some o := by
  induction hp with
  | refl => exact Or.inl ht
  | @snoc path s₁ s₂ k hp hk ih =>
    obtain ⟨u, a, rfl⟩ := hacts _ (List.mem_append_right _ List.mem_cons_self)
    have hacts : OnlyActs path := fun p hmem => hacts p (List.mem_append_left _ hmem)
    rcases ih hacts with hmem | ho
    · cases hk with
      | act hu ha =>
        by_cases htu : t = u
        · subst htu
          obtain rfl := hends path s₁ a hp hmem ha
          exact Or.inr (ha.outcome_perform_of_ends rfl)
        · exact Or.inl (Exchange.mem_tasks_perform_of_ne hmem htu a)
    · exact Or.inr (((hs.path hp).later_next hk).persists.outcome _ _ ho)

/-- **A receive that waits at an exhausted queue is told that it is closed.** -/
theorem outcome_of_exhausted (hs : s.Sound) (hlt : 0 < s.exchange.channels.length)
    (h : s.Exhausted) (hp : Path s path s') (hacts : OnlyActs path) (hx : s'.exchange.Settled)
    (ht : t ∈ s.exchange.tasks) (hw : t.work = .receive 0) :
    s'.exchange.outcome? t.id = some .channelClosed := by
  have hclosed : ∀ {init s₁}, Path s init s₁ →
      s₁.exchange.buffer 0 = [] ∧ s₁.exchange.hasSender 0 = false := fun hinit =>
    (hs.path hinit).exhausted_iff.1 (hs.exhausted_path hlt h hinit)
  refine (mem_or_outcome hs hp hacts ht fun init s₁ a hinit hmem ha => ?_).resolve_left
    fun hmem => ?_
  · exact (shut_of_drained (hclosed hinit).2 (hclosed hinit).1).receives t hmem hw a ha
  · exact Bool.false_ne_true ((hclosed hp).2.symm.trans (hx.of_receives hmem hw).2)

/-- **Whoever waits with a message at a deserted queue gives it up.** -/
theorem outcome_of_deserted {m : Message} (hs : s.Sound) (hlt : 0 < s.exchange.channels.length)
    (h : s.Deserted) (hp : Path s path s') (hacts : OnlyActs path) (hx : s'.exchange.Settled)
    (ht : t ∈ s.exchange.tasks) (hm : t.work.brings? 0 = some m) :
    s'.exchange.outcome? t.id = some t.work.refusal := by
  have hclosed : ∀ {init s₁}, Path s init s₁ → s₁.exchange.hasReceiver 0 = false := fun hinit =>
    (hs.path hinit).deserted_iff.1 (hs.deserted_path hlt h hinit)
  refine (mem_or_outcome hs hp hacts ht fun init s₁ a hinit _ ha => ?_).resolve_left
    fun hmem => ?_
  · exact ha.of_unheard hm (hclosed hinit)
  · exact Bool.false_ne_true ((hclosed hp).symm.trans (hx.of_brings hmem hm).2.2)

/-! ## A task of one's own -/

/-- A task that is begun by name holds no end that nobody held. -/
theorem Startable.holders (hs : s.Sound) (hw : s.Startable w) (c : Nat) :
    (s.exchange.spawn w).1.hasReceiver c = s.exchange.hasReceiver c ∧
    (s.exchange.spawn w).1.hasSender c = s.exchange.hasSender c := by
  have hreceiver : w.holdsReceiver c = true → s.exchange.hasReceiver c = true := by
    intro hheld
    obtain ⟨inbox, hl⟩ := hw.receiver c hheld
    exact (hs.hasReceiver_iff c).2 (Or.inl ⟨_, mem_of_lookup_eq_some hl, rfl⟩)
  have hsender : w.holdsSender c = true → s.exchange.hasSender c = true := by
    intro hheld
    obtain ⟨tx, hl⟩ := hw.sender c hheld
    exact (hs.hasSender_iff c).2 (Or.inl ⟨_, mem_of_lookup_eq_some hl, rfl⟩)
  have hreceiver' : (s.exchange.spawn w).1.hasReceiver c =
      (s.exchange.hasReceiver c || w.holdsReceiver c) := by
    simp [Exchange.hasReceiver, Exchange.spawn, Exchange.tick, Bool.or_assoc]
  have hsender' : (s.exchange.spawn w).1.hasSender c =
      (s.exchange.hasSender c || w.holdsSender c) := by
    simp [Exchange.hasSender, Exchange.spawn, Exchange.tick, Bool.or_assoc]
  rw [hreceiver', hsender', Bool.or_eq_left_iff_imp, Bool.or_eq_left_iff_imp]
  exact ⟨hreceiver, hsender⟩

/-- **What a new send or receive comes to** is what it does in the exchange into which it is
begun. -/
theorem outcome_begun (hs : s.Sound) (hx : s.exchange.Settled) (hw : s.Startable w)
    (hends : (∃ target m, w = .send target m) ∨ ∃ source, w = .receive source) (o : Outcome) :
    (s.exchange.spawn w).1.settle.outcome? s.exchange.moment = some o ↔
      ∃ a, (s.exchange.spawn w).1.Does ⟨s.exchange.moment, w⟩ a ∧ a.after = .ends o := by
  have hs' : (s.withExchange (s.exchange.spawn w).1).Sound :=
    hs.change (.begins hw s.tasks s.streams)
  have hnew : (⟨s.exchange.moment, w⟩ : Task) ∈ (s.exchange.spawn w).1.tasks :=
    List.mem_append_right _ (List.mem_singleton_self _)
  by_cases hy : (s.exchange.spawn w).1.Settled
  · rw [Exchange.settle_of_settled hy]
    have hnone := hs'.tidy.outcome_eq_none hnew
    refine ⟨fun ho => ?_, fun ⟨a, ha, _⟩ => ?_⟩
    · cases hnone.symm.trans ho
    · exact absurd ha (Exchange.not_does_of_settled hy hnew)
  · obtain ⟨t, ht, a, ha, line, resting, hsettle⟩ := Exchange.exists_first_act hy
    obtain rfl := hx.eq_of_spawn (fun c => (hw.holders hs c).1) (fun c => (hw.holders hs c).2) ht ha
    obtain ⟨o', hafter⟩ := after_of_waiter ha hends
    have hperform := hs'.perform hnew ha
    obtain ⟨path, hp, -⟩ := Path.settleFrom
      ((s.withExchange (s.exchange.spawn w).1).withExchange ((s.exchange.spawn w).1.perform _ a))
      line resting
    have houtcome := (hperform.later hp).persists.outcome _ _
      (ha.outcome_perform_of_ends hafter)
    rw [hsettle]
    refine ⟨fun ho => ⟨a, ha, ?_⟩, fun ⟨b, hb, hbo⟩ => ?_⟩
    · rw [hafter, Option.some.inj (houtcome.symm.trans ho)]
    · have hab : b = a := Option.some.inj
        ((Exchange.act?_eq_some_iff.2 hb).symm.trans (Exchange.act?_eq_some_iff.2 ha))
      rw [hab, hafter, After.ends.injEq] at hbo
      rw [← hbo]
      exact houtcome

/-! ## Whoever asks is told -/

/-- Whether a consumer who asks through an inbox is told that the queue is closed exactly if it is:
at once, or when a drain has come to its end, or by a task of his own. -/
structure TellsConsumers (s : Session) (inbox : String) : Prop where
  tryReceive : (s.apply (.tryReceive inbox)).2 = .found .closed ↔ s.Exhausted
  receiveBlocking : (s.apply (.receiveBlocking inbox)).2 = .found .closed ↔ s.Exhausted
  drain : ∃ ms last, (s.apply (.drain inbox)).2 = .drained ms last ∧
    (last = .closed ↔ (s.apply (.drain inbox)).1.Exhausted)
  receive : ∀ name, (s.step (.receive inbox name)).1.exchange.outcome? s.exchange.moment =
    some .channelClosed ↔ s.Exhausted

/-- Whether a producer who sends through a sender is told that the queue is closed exactly if it is:
at once, or after sending in a row, or by a task of his own. -/
structure TellsProducers (s : Session) (tx : String) : Prop where
  trySend : ∀ m, (s.apply (.trySend tx m)).2 = .sent .closed ↔ s.Deserted
  offer : ∀ m, (s.apply (.offer tx m)).2 = .flag false ↔ s.Deserted
  sends : ∀ m ms, (∃ count, (s.apply (.fill tx (m :: ms) .trySend)).2 =
    .filled count (some (.inl .closed))) ↔ s.Deserted
  offers : ∀ m ms, (∃ count, (s.apply (.fill tx (m :: ms) .offer)).2 =
    .filled count (some (.inr false))) ↔ s.Deserted
  send : ∀ m name, (s.step (.send tx m name)).1.exchange.outcome? s.exchange.moment =
    some .closed ↔ s.Deserted

/-- Sending in a row ends with the word that the queue is closed exactly if it is. -/
theorem sendAll_closed_iff (x : Exchange) (c count : Nat) (last : Option (SendResult ⊕ Bool))
    (m : Message) (ms : List Message) :
    (sendAll x c count last (m :: ms)).2.2 = some (.inl .closed) ↔ x.hasReceiver c = false := by
  induction ms generalizing x m count last with
  | nil =>
    rcases x.trySend_cases c m with ⟨hr, h⟩ | ⟨hr, -, h⟩ | ⟨hr, -, h⟩ <;> simp [sendAll, h, hr]
  | cons m' ms ih =>
    rcases x.trySend_cases c m with ⟨hr, h⟩ | ⟨hr, -, h⟩ | ⟨hr, -, h⟩
    · simp [sendAll, h, hr]
    · rw [← Exchange.hasReceiver_push x c c m, ← ih _ (count + 1) (some (.inl .ok)) m']
      conv_lhs => rw [sendAll, h]
    · simp [sendAll, h, hr]

theorem offerAll_closed_iff (x : Exchange) (c count : Nat) (last : Option (SendResult ⊕ Bool))
    (m : Message) (ms : List Message) :
    (offerAll x c count last (m :: ms)).2.2 = some (.inr false) ↔ x.hasReceiver c = false := by
  induction ms generalizing x m count last with
  | nil => simp [offerAll, Exchange.offer_eq]
  | cons m' ms ih =>
    have hsame : ((x.offer c m).1).hasReceiver c = x.hasReceiver c := by
      rw [Exchange.offer_eq]
      rcases x.trySend_cases c m with ⟨-, h⟩ | ⟨-, -, h⟩ | ⟨-, -, h⟩ <;> rw [h]
      exact Exchange.hasReceiver_push x c c m
    rw [← hsame, ← ih (x.offer c m).1 (if (x.offer c m).2 then count + 1 else count)
      (some (.inr (x.offer c m).2)) m']
    conv_lhs => rw [offerAll]

/-- **Where every task waits, consumers are told that a queue is closed exactly if it is.** -/
theorem tellsConsumers (hs : s.Sound) (hx : s.exchange.Settled) {inbox : String}
    (hl : s.inboxes.lookup inbox = some 0) : s.TellsConsumers inbox := by
  have hfound : (s.exchange.tryReceive 0).2 = .closed ↔ s.Exhausted := by
    rw [hs.exhausted_iff, hx.tryReceive_closed_iff]
  have hanswer : (Answer.found (s.exchange.tryReceive 0).2 = .found .closed) ↔ s.Exhausted := by
    rw [Answer.found.injEq, hfound]
  refine ⟨?_, ?_, ?_, fun name => ?_⟩
  · simp only [apply, withInbox, hl]
    exact hanswer
  · rcases s.receiveBlocking_cases inbox with ⟨c, hl', hnothing, h⟩ | h <;> rw [h]
    · obtain rfl := Option.some.inj (hl.symm.trans hl')
      rw [← hfound, hnothing]
      simp
    · simp only [apply, withInbox, hl]
      exact hanswer
  · have hdrained : (s.apply (.drain inbox)).1.Sound := hs.change (change_apply s _)
    rw [hdrained.exhausted_iff]
    simp only [apply, withInbox, hl]
    refine ⟨_, _, rfl, ?_⟩
    cases hwait : s.exchange.hasWaitingReceiver 0 with
    | true =>
      -- whoever waits has a message coming, so the queue is not closed
      obtain ⟨hb, hsender⟩ := hx.waitingReceiver hwait
      simp [withExchange, Exchange.drain, Exchange.drainFrom, Exchange.tryReceive, hwait, hsender]
    | false =>
      obtain ⟨hb, hclosed⟩ := Exchange.drainFrom_closed_iff hwait (Nat.lt_succ_self _)
      exact hclosed.trans (and_iff_right hb).symm
  · have hw : s.Startable (.receive 0) := startable_receive hl
    have hstep : (s.step (.receive inbox name)).1.exchange =
        (s.exchange.spawn (.receive 0)).1.settle := by
      simp only [step, apply, withInbox, hl]
      rfl
    rw [hstep, outcome_begun hs hx hw (Or.inr ⟨0, rfl⟩), hs.exhausted_iff]
    have hsender := (hw.holders hs 0).2
    constructor
    · rintro ⟨a, ha, hafter⟩
      obtain ⟨hb, hnone⟩ := (ha.receive_closed_iff rfl).1 hafter
      exact ⟨hb, hsender.symm.trans hnone⟩
    · rintro ⟨hb, hnone⟩
      refine ⟨_, .receiveClosed rfl ?_ hb (hsender.trans hnone), rfl⟩
      -- nobody else waits at a queue that is closed, so it is the new task's turn
      have hfind : s.exchange.tasks.find? (·.work.consumes 0) = none := by
        rw [List.find?_eq_none]
        intro t ht hconsumes
        have hwait := hx.waitingReceiver (c := 0) (List.any_eq_true.2 ⟨t, ht, hconsumes⟩)
        exact Bool.false_ne_true (hnone.symm.trans hwait.2)
      simp only [Exchange.mayPull, Exchange.spawn, List.find?_append, hfind]
      exact beq_self_eq_true _

/-- **Where every task waits, producers are told that a queue is closed exactly if it is.** -/
theorem tellsProducers (hs : s.Sound) (hx : s.exchange.Settled) {tx : String}
    (hl : s.senders.lookup tx = some 0) : s.TellsProducers tx := by
  refine ⟨fun m => ?_, fun m => ?_, fun m ms => ?_, fun m ms => ?_, fun m name => ?_⟩
  · rw [hs.deserted_iff]
    simp only [apply, withSender, hl, Answer.sent.injEq]
    rcases s.exchange.trySend_cases 0 m with ⟨hr, h⟩ | ⟨hr, -, h⟩ | ⟨hr, -, h⟩ <;> simp [h, hr]
  · rw [hs.deserted_iff]
    simp only [apply, withSender, hl, Answer.flag.injEq, Exchange.offer_eq]
  · rw [hs.deserted_iff, ← sendAll_closed_iff s.exchange 0 0 none m ms]
    simp only [apply, withSender, hl, Answer.filled.injEq, exists_eq_left']
  · rw [hs.deserted_iff, ← offerAll_closed_iff s.exchange 0 0 none m ms]
    simp only [apply, withSender, hl, Answer.filled.injEq, exists_eq_left']
  · have hw : s.Startable (.send 0 m) := by
      refine ⟨fun c hc => ⟨tx, ?_⟩, fun c hc => by simp [Work.holdsReceiver] at hc⟩
      obtain rfl : 0 = c := by simpa [Work.holdsSender] using hc
      exact hl
    have hstep : (s.step (.send tx m name)).1.exchange =
        (s.exchange.spawn (.send 0 m)).1.settle := by
      simp only [step, apply, withSender, hl]
      rfl
    rw [hstep, outcome_begun hs hx hw (Or.inl ⟨0, m, rfl⟩), hs.deserted_iff]
    have hreceiver := (hw.holders hs 0).1
    constructor
    · rintro ⟨a, ha, hafter⟩
      exact hreceiver.symm.trans ((ha.send_closed_iff rfl).1 hafter)
    · intro hnone
      exact ⟨_, .sendClosed rfl (hreceiver.trans hnone), rfl⟩

/-- **A queue closes when it must, and for good.**

Once all tasks have done what they can, whoever asks for a message is told that the queue is closed
exactly if nothing waits in it and nobody holds a sender, and whoever sends one exactly if nobody
holds an inbox; so is every task that asks or sends, whenever it acts.  Tasks that wait when this
comes about have ended so before all wait again.  Whatever happens later, it stays so, and all are
told so through every name. -/
theorem closes_exactly_and_for_good (hp : Path (Session.start capacity) path s) :
    (s.exchange.Settled →
      (∀ inbox, s.inboxes.lookup inbox = some 0 → s.TellsConsumers inbox) ∧
      ∀ tx, s.senders.lookup tx = some 0 → s.TellsProducers tx) ∧
    (∀ t ∈ s.exchange.tasks, ∀ a, s.exchange.Does t a →
      (t.work = .receive 0 → (a.after = .ends .channelClosed ↔ s.Exhausted)) ∧
      ∀ m, t.work = .send 0 m → (a.after = .ends .closed ↔ s.Deserted)) ∧
    (∀ acts s', Path s acts s' → OnlyActs acts → s'.exchange.Settled →
      (s.Exhausted → ∀ t ∈ s.exchange.tasks, t.work = .receive 0 →
        s'.exchange.outcome? t.id = some .channelClosed) ∧
      (s.Deserted → ∀ t ∈ s.exchange.tasks, ∀ m, t.work.brings? 0 = some m →
        s'.exchange.outcome? t.id = some t.work.refusal)) ∧
    (s.Exhausted → ∀ path' s', Path s path' s' → s'.Exhausted ∧
      (s'.exchange.Settled → ∀ inbox, s'.inboxes.lookup inbox = some 0 →
        (s'.apply (.tryReceive inbox)).2 = .found .closed ∧
        (s'.apply (.receiveBlocking inbox)).2 = .found .closed ∧
        (s'.apply (.drain inbox)).2 = .drained [] .closed ∧
        ∀ name, (s'.step (.receive inbox name)).1.exchange.outcome? s'.exchange.moment =
          some .channelClosed)) ∧
    (s.Deserted → ∀ path' s', Path s path' s' → s'.Deserted ∧
      (s'.exchange.Settled → ∀ tx m, s'.senders.lookup tx = some 0 →
        (s'.apply (.trySend tx m)).2 = .sent .closed ∧
        (s'.apply (.offer tx m)).2 = .flag false ∧
        ∀ name, (s'.step (.send tx m name)).1.exchange.outcome? s'.exchange.moment =
          some .closed)) := by
  have hstart := Sound.start capacity
  have hs := hstart.path hp
  have hlt : 0 < s.exchange.channels.length := (hstart.later hp).length_channels
  refine ⟨fun hx => ⟨fun inbox => tellsConsumers hs hx, fun tx => tellsProducers hs hx⟩,
    ?_, ?_, ?_, ?_⟩
  · intro t ht a ha
    refine ⟨fun hw => ?_, fun m hw => ?_⟩
    · rw [hs.exhausted_iff, ha.receive_closed_iff hw]
    · rw [hs.deserted_iff, ha.send_closed_iff hw]
  · intro acts s' hp' hacts hx
    exact ⟨fun h t ht hw => outcome_of_exhausted hs hlt h hp' hacts hx ht hw,
      fun h t ht m hm => outcome_of_deserted hs hlt h hp' hacts hx ht hm⟩
  · intro h path' s' hp'
    have hs' := hs.path hp'
    have h' := hs.exhausted_path hlt h hp'
    refine ⟨h', fun hx inbox hl => ?_⟩
    have htold := tellsConsumers hs' hx hl
    have hshut := (shut_of_drained (hs'.exhausted_iff.1 h').2 h'.buffer).answers hx inbox hl
    exact ⟨htold.tryReceive.2 h', htold.receiveBlocking.2 h', hshut.2.2,
      fun name => (htold.receive name).2 h'⟩
  · intro h path' s' hp'
    have h' := hs.deserted_path hlt h hp'
    refine ⟨h', fun hx tx m hl => ?_⟩
    have htold := tellsProducers (hs.path hp') hx hl
    exact ⟨(htold.trySend m).2 h', (htold.offer m).2 h', fun name => (htold.send m name).2 h'⟩

/-- A receive waits when the only sender is given up.  It is told that the queue is closed, and so
is whoever asks later through a clone of the inbox. -/
theorem closes_exactly_and_for_good_cloned : ∃ path s acts s' path' s'',
    Path (Session.start 1) path s ∧ s.Exhausted ∧ Path s acts s' ∧ Path s' path' s'' ∧
    s'.exchange.outcome? 0 = some .channelClosed ∧
    s''.inboxes.lookup "j" = some 0 ∧
    (s''.apply (.tryReceive "j")).2 = .found .closed := by
  have hp := ((Path.single (.step (s := Session.start 1) (.receive "i" "r"))).snoc
    (.step (.dropSender "p")))
  have hexhausted : Exhausted (((Session.start 1).apply (.receive "i" "r")).1.apply
      (.dropSender "p")).1 :=
    ⟨rfl, fun p hmem => absurd hmem List.not_mem_nil, fun t ht => by
      rw [List.mem_singleton.1 ht]
      rfl⟩
  have hact := Path.single (Next.act (s := (((Session.start 1).apply (.receive "i" "r")).1.apply
    (.dropSender "p")).1) List.mem_cons_self (.receiveClosed rfl rfl rfl rfl))
  have hhere : ∀ {s s' : Session} {path}, Path s path s' → Path s' [] s' := fun _ => .refl
  have hclone := (hhere hact).snoc (.step (.cloneInbox "i" "j"))
  have hlate := hact.snoc (.step (.cloneInbox "i" "j"))
  obtain ⟨-, -, hfinish, hfor, -⟩ := closes_exactly_and_for_good hp
  have htold := (hfinish _ _ hact (fun p hmem => by
    rw [List.mem_singleton.1 hmem]
    exact ⟨_, _, rfl⟩) rfl).1 hexhausted _ List.mem_cons_self rfl
  have hlater := ((hfor hexhausted _ _ hlate).2 rfl "j" rfl).1
  exact ⟨_, _, _, _, _, _, hp, hexhausted, hact, hclone, htold, rfl, hlater⟩

end Session
end PeerNode
