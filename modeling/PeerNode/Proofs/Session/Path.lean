import PeerNode.Proofs.Session.Later

/-!
# Paths

A session moves in two ways: somebody outside takes a step, or a task acts.  A path is any
sequence of these, in any order: steps may come before the tasks have acted on earlier ones, and
tasks may act in any order, so whatever holds along all paths holds however tasks are scheduled.
In particular it holds when all tasks act after each step until none can, which is how a session
runs (`path_steps`).

What a path has put into a channel and taken out of it is what the callers were told: the answers
to the steps and the outcomes of the tasks.

* `Cause`, `Next`: one move, with its cause.
* `Cause.ins`, `Cause.outs`: the messages that went into a channel and came out of it, as told.
* `Path`, `ins`, `outs`: many moves, and all that they put in and took out.
* `flow_next`, `flow_path`: what is told is what happened.
* `Sound.path`, `Sound.later`: a path keeps a session sound and undoes nothing.
* `Sound.task_path`: a task goes on until it ends.
* `producer_of_ins`, `consumer_of_outs`: who moves messages holds an end of the channel.
* `AtRest`: whether time has passed only while every task waited.
* `path_steps`: steps with all that follows from them are a path, and time passes at rest.
-/

namespace PeerNode

open Exchange (Flow OnlyMessages inChannel)

/-! ## What the callers are told -/

/-- What moves at the end of channel `c`, if a name stands for that end. -/
def Session.byName (table : List (String × Nat)) (c : Nat) (name : String)
    (ms : List Message) : List Message :=
  if table.lookup name = some c then ms else []

/-- The messages that a step has put into a channel, by its answer.  An offer that is not refused
may still have been dropped: it was not if there was free room for it. -/
def Step.ins (s : Session) (c : Nat) : Step → Answer → List Message
  | .trySend tx m, .sent .ok => Session.byName s.senders c tx [m]
  | .offer tx m, .flag true => Session.byName s.senders c tx ([m].take (s.exchange.free c))
  | .fill tx ms .trySend, .filled count _ => Session.byName s.senders c tx (ms.take count)
  | .fill tx ms .offer, .filled count _ =>
    Session.byName s.senders c tx (ms.take (min count (s.exchange.free c)))
  | _, _ => []

/-- The messages that a step has taken out of a channel, by its answer. -/
def Step.outs (s : Session) (c : Nat) : Step → Answer → List Message
  | .tryReceive inbox, .found f | .receiveBlocking inbox, .found f =>
    Session.byName s.inboxes c inbox f.messages
  | .drain inbox, .drained ms _ => Session.byName s.inboxes c inbox ms
  | _, _ => []

/-- The messages that a task has put into a channel by an act.  A send tells when it ends; the
others have put in a message when they have done so. -/
def Task.ins (c : Nat) (t : Task) (a : Act) : List Message :=
  match t.work with
  | .send target m => if a.after = .ends .sent then inChannel c target [m] else []
  | .receive _ => []
  | .listen _ | .handle _ => a.ins c

/-- The messages that a task has taken out of a channel by an act.  A receive tells when it
ends. -/
def Task.outs (c : Nat) (t : Task) (a : Act) : List Message :=
  match t.work with
  | .receive source =>
    match a.after with
    | .ends (.received m) => inChannel c source [m]
    | _ => []
  | .listen _ => a.outs c
  | .send _ _ | .handle _ => []

namespace Session

/-- Why a session moves. -/
inductive Cause where
  | step (st : Step)
  | act (t : Task) (a : Act)

/-- Whether a move is an act of the task with this number. -/
def Cause.By (id : Nat) : Cause → Prop
  | .step _ => False
  | .act t _ => t.id = id

/-- The messages that a move of a session has put into a channel, as its callers are told. -/
def Cause.ins (c : Nat) (s : Session) : Cause → List Message
  | step st => st.ins s c (s.apply st).2
  | act t a => t.ins c a

/-- The messages that a move of a session has taken out of a channel, as its callers are told. -/
def Cause.outs (c : Nat) (s : Session) : Cause → List Message
  | step st => st.outs s c (s.apply st).2
  | act t a => t.outs c a

/-- One move of a session. -/
inductive Next (s : Session) : Cause → Session → Prop
  | step (st : Step) : Next s (.step st) (s.apply st).1
  | act {t : Task} {a : Act} (ht : t ∈ s.exchange.tasks) (ha : s.exchange.Does t a) :
      Next s (.act t a) (s.withExchange (s.exchange.perform t a))

/-- Many moves, each with the session before it. -/
inductive Path (s : Session) : List (Session × Cause) → Session → Prop
  | refl : Path s [] s
  | snoc {path : List (Session × Cause)} {s' s'' : Session} {k : Cause} (h : Path s path s')
      (hk : Next s' k s'') : Path s (path ++ [(s', k)]) s''

def ins (c : Nat) (path : List (Session × Cause)) : List Message :=
  path.flatMap fun p => p.2.ins c p.1

def outs (c : Nat) (path : List (Session × Cause)) : List Message :=
  path.flatMap fun p => p.2.outs c p.1

theorem ins_snoc (c : Nat) (path : List (Session × Cause)) (s : Session) (k : Cause) :
    ins c (path ++ [(s, k)]) = ins c path ++ k.ins c s := by
  simp only [ins, List.flatMap_append, List.flatMap_singleton]

theorem outs_snoc (c : Nat) (path : List (Session × Cause)) (s : Session) (k : Cause) :
    outs c (path ++ [(s, k)]) = outs c path ++ k.outs c s := by
  simp only [outs, List.flatMap_append, List.flatMap_singleton]

variable {s s' s'' : Session} {t : Task} {a : Act}

namespace Path

variable {path path' : List (Session × Cause)}

theorem trans (h : Path s path s') (h' : Path s' path' s'') : Path s (path ++ path') s'' := by
  induction h' with
  | refl =>
    rw [List.append_nil]
    exact h
  | snoc _ hk ih =>
    rw [← List.append_assoc]
    exact .snoc ih hk

theorem single {k : Cause} (hk : Next s k s') : Path s [(s, k)] s' := .snoc .refl hk

theorem next_of_schedule {x : Exchange} {line : List (Nat × Nat)} {resting : List Nat}
    {left : Nat} {rest : List (Task × Act × Nat)} (hx : s.exchange = x)
    (h : x.schedule line resting = (t, a, left) :: rest) :
    Next s (.act t a) (s.withExchange (x.perform t a)) := by
  subst hx
  have hable := Exchange.mem_able (Exchange.mem_able_of_mem_schedule (h ▸ List.mem_cons_self))
  exact .act hable.1 (Exchange.act?_eq_some_iff.1 hable.2)

theorem before {k : Cause} {s₁ : Session} (h : Path s path s') (hmem : (s₁, k) ∈ path) :
    ∃ init s₂, init <+: path ∧ Path s init s₁ ∧ Next s₁ k s₂ := by
  induction h with
  | refl => cases hmem
  | @snoc path s' s'' k' h hk ih =>
    rcases List.mem_append.1 hmem with hmem | hmem
    · obtain ⟨init, s₂, hinit, hp, hnext⟩ := ih hmem
      exact ⟨init, s₂, hinit.trans (List.prefix_append _ _), hp, hnext⟩
    · obtain ⟨rfl, rfl⟩ := Prod.mk.inj (List.mem_singleton.1 hmem)
      exact ⟨path, s'', List.prefix_append _ _, h, hk⟩

/-- A path leads to each of its moves, and on from it. -/
theorem split {k : Cause} {s₁ : Session} {past future : List (Session × Cause)}
    (h : Path s (past ++ (s₁, k) :: future) s') :
    ∃ s₂, Path s past s₁ ∧ Next s₁ k s₂ ∧ Path s₂ future s' := by
  generalize hall : past ++ (s₁, k) :: future = whole at h
  induction h generalizing future with
  | refl => cases (List.append_eq_nil_iff.1 hall).2
  | @snoc path s' s'' k' h hk ih =>
    rcases List.eq_nil_or_concat future with rfl | ⟨future, p, rfl⟩
    · obtain ⟨rfl, hlast⟩ := List.append_inj' hall rfl
      obtain ⟨rfl, rfl⟩ := Prod.mk.inj (List.singleton_inj.1 hlast)
      exact ⟨s'', h, hk, .refl⟩
    · rw [List.concat_eq_append, ← List.cons_append, ← List.append_assoc] at hall
      obtain ⟨hinit, hlast⟩ := List.append_inj' hall rfl
      obtain ⟨s₂, hpast, hnext, hfuture⟩ := ih hinit
      obtain rfl := List.singleton_inj.1 hlast
      rw [List.concat_eq_append]
      exact ⟨s₂, hpast, hnext, hfuture.snoc hk⟩

/-- Tasks that act until none can make a path, on which they alone move. -/
theorem settleFrom (s : Session) (line : List (Nat × Nat)) (resting : List Nat) :
    ∃ path, Path s path (s.withExchange (s.exchange.settleFrom line resting)) ∧
      ∀ p ∈ path, ∃ t a, p.2 = .act t a := by
  have hact : ∀ {s s' s'' : Session} {t : Task} {a : Act} {path : List (Session × Cause)},
      Next s (.act t a) s' → Path s' path s'' ∧ (∀ p ∈ path, ∃ t a, p.2 = Cause.act t a) →
      ∃ path, Path s path s'' ∧ ∀ p ∈ path, ∃ t a, p.2 = Cause.act t a := by
    rintro s s' s'' t a path hk ⟨hp, hall⟩
    refine ⟨_, (single hk).trans hp, ?_⟩
    intro p hmem
    rcases List.mem_cons.1 hmem with rfl | hmem
    · exact ⟨t, a, rfl⟩
    · exact hall p hmem
  generalize hx : s.exchange = x
  fun_induction Exchange.settleFrom x line resting generalizing s with
  | case1 x line resting t a left rest h others hm ih =>
    obtain ⟨path, hpath⟩ := ih (s.withExchange (x.perform t a)) rfl
    exact hact (next_of_schedule hx h) hpath
  | case2 x line resting t a left rest h others hm ih =>
    obtain ⟨path, hpath⟩ := ih (s.withExchange (x.perform t a)) rfl
    exact hact (next_of_schedule hx h) hpath
  | case3 x line h =>
    subst hx
    exact ⟨[], .refl, fun p hp => absurd hp List.not_mem_nil⟩
  | case4 x line id more h ih => exact ih s hx

end Path

/-! ## Time passes at rest -/

/-- Whether time has passed only while every task waited. -/
def AtRest (path : List (Session × Cause)) : Prop :=
  ∀ s st, (s, Cause.step st) ∈ path →
    (s.apply st).1.exchange.clock ≠ s.exchange.clock → s.exchange.Settled

namespace AtRest

variable {path path' : List (Session × Cause)}

theorem nil : AtRest [] := fun _ _ hmem => absurd hmem List.not_mem_nil

theorem append (h : AtRest path) (h' : AtRest path') : AtRest (path ++ path') :=
  fun s st hmem => (List.mem_append.1 hmem).elim (h s st) (h' s st)

theorem step (h : AtRest path) (hs : s.exchange.Settled) (st : Step) :
    AtRest (path ++ [(s, .step st)]) := by
  refine h.append fun s' st' hmem _ => ?_
  rw [(Prod.mk.inj (List.mem_singleton.1 hmem)).1]
  exact hs

theorem acts (h : AtRest path) (hall : ∀ p ∈ path', ∃ t a, p.2 = .act t a) :
    AtRest (path ++ path') := by
  refine h.append fun s' st' hmem => ?_
  obtain ⟨t, a, ha⟩ := hall _ hmem
  cases ha

theorem act (h : AtRest path) (s : Session) (t : Task) (a : Act) :
    AtRest (path ++ [(s, .act t a)]) := by
  refine h.acts fun p hmem => ?_
  rw [List.mem_singleton.1 hmem]
  exact ⟨t, a, rfl⟩

end AtRest

theorem path_step (hs : s.exchange.Settled) (st : Step) :
    ∃ path, Path s path (s.step st).1 ∧ AtRest path := by
  obtain ⟨path, hp, hall⟩ := Path.settleFrom (s.apply st).1 [] []
  exact ⟨_, (Path.refl.snoc (.step st)).trans hp, (AtRest.nil.step hs st).acts hall⟩

/-- **Steps, each with all that follows from it, are a path on which time passes at rest**, and
they lead from rest to rest. -/
theorem path_steps (hs : s.exchange.Settled) (steps : List Step) :
    (steps.foldl (fun s st => (s.step st).1) s).exchange.Settled ∧
      ∃ path, Path s path (steps.foldl (fun s st => (s.step st).1) s) ∧ AtRest path := by
  induction steps generalizing s with
  | nil => exact ⟨hs, [], .refl, .nil⟩
  | cons st steps ih =>
    obtain ⟨path, hp, hrest⟩ := path_step hs st
    obtain ⟨hsettled, path', hp', hrest'⟩ :=
      ih (s := (s.step st).1) (Exchange.settled_settle (s.apply st).1.exchange)
    exact ⟨hsettled, _, hp.trans hp', hrest.append hrest'⟩

/-! ## Soundness -/

theorem Sound.next {k : Cause} (h : s.Sound) (hk : Next s k s') : s'.Sound := by
  cases hk with
  | step st => exact h.change (change_apply s st)
  | act ht ha => exact h.perform ht ha

/-- **A path keeps a session sound.** -/
theorem Sound.path {path : List (Session × Cause)} (h : s.Sound) (hp : Path s path s') :
    s'.Sound := by
  induction hp with
  | refl => exact h
  | snoc _ hk ih => exact ih.next hk

theorem Sound.later_next {k : Cause} (h : s.Sound) (hk : Next s k s') : Later s s' := by
  cases hk with
  | step st => exact h.later_change (change_apply s st)
  | act ht ha => exact h.later_perform ht ha

/-- **A path undoes nothing.** -/
theorem Sound.later {path : List (Session × Cause)} (h : s.Sound) (hp : Path s path s') :
    Later s s' := by
  induction hp with
  | refl => exact .refl s
  | snoc hp hk ih => exact ih.trans ((h.path hp).later_next hk)

/-- A task goes on across a move, or it ends. -/
theorem task_next {k : Cause} (hk : Next s k s') (ht : t ∈ s.exchange.tasks) :
    (∃ u ∈ s'.exchange.tasks, u.id = t.id) ∨ ∃ o, s'.exchange.outcome? t.id = some o := by
  cases hk with
  | step st =>
    rcases (change_apply s st).task_kept ht with ht | ho
    · exact Or.inl ⟨t, ht, rfl⟩
    · exact Or.inr ⟨_, ho⟩
  | @act u a hu ha =>
    by_cases htu : t = u
    · subst htu
      cases hafter : a.after with
      | goesOn w =>
        have hmem := Exchange.mem_tasks_perform_of_goesOn s.exchange t hafter
        exact Or.inl ⟨⟨t.id, w⟩, hmem, rfl⟩
      | ends o => exact Or.inr ⟨o, ha.outcome_perform_of_ends hafter⟩
    · have hmem := Exchange.mem_tasks_perform_of_ne ht htu a
      exact Or.inl ⟨t, hmem, rfl⟩

/-- **A task goes on along a path until it ends.** -/
theorem Sound.task_path {path : List (Session × Cause)} (h : s.Sound) (hp : Path s path s')
    (ht : t ∈ s.exchange.tasks) :
    (∃ u ∈ s'.exchange.tasks, u.id = t.id) ∨ ∃ o, s'.exchange.outcome? t.id = some o := by
  induction hp with
  | refl => exact Or.inl ⟨t, ht, rfl⟩
  | snoc hp hk ih =>
    have hsound := h.path hp
    rcases ih with ⟨u, hu, hid⟩ | ⟨o, ho⟩
    · rw [← hid]
      exact task_next hk hu
    · exact Or.inr ⟨o, (hsound.later_next hk).persists.outcome _ o ho⟩

/-! ## What is told is what happened -/

theorem ins_of_does (h : s.exchange.Does t a) (c : Nat) : t.ins c a = a.ins c := by
  cases h <;> simp_all [Task.ins, Act.ins, Act.after]

theorem outs_of_does (h : s.exchange.Does t a) (c : Nat) : t.outs c a = a.outs c := by
  cases h <;> simp_all [Task.outs, Act.outs, Act.after]

theorem flow_dropSender (s : Session) (name : String) (c : Nat) :
    Flow s.exchange (s.dropSender name).exchange c [] [] := by
  unfold dropSender
  split
  · exact Exchange.flow_onChannel _ _ (fun ch => { ch with senders := ch.senders - 1 })
      (fun _ => rfl) c
  · exact Flow.refl _ _

theorem flow_dropInbox (s : Session) (name : String) (c : Nat) :
    Flow s.exchange (s.dropInbox name).exchange c [] [] := by
  unfold dropInbox
  split
  · exact Exchange.flow_onChannel _ _ (fun ch => { ch with inboxes := ch.inboxes - 1 })
      (fun _ => rfl) c
  · exact Flow.refl _ _

theorem byName_of_lookup {table : List (String × Nat)} {name : String} {d : Nat}
    (h : table.lookup name = some d) (c : Nat) (ms : List Message) :
    byName table c name ms = inChannel c d ms := by
  simp only [byName, h, Option.some.injEq, inChannel]

/-- A flow through a sender, if there is one by that name. -/
theorem flow_withSender {tx : String} {f : Nat → Session × Answer} {c : Nat} {st : Step}
    (hnone : st.ins s c .unknownName = [] ∧ st.outs s c .unknownName = [])
    (hf : ∀ d, s.senders.lookup tx = some d →
      Flow s.exchange (f d).1.exchange c (st.ins s c (f d).2) (st.outs s c (f d).2)) :
    Flow s.exchange (s.withSender tx f).1.exchange c (st.ins s c (s.withSender tx f).2)
      (st.outs s c (s.withSender tx f).2) := by
  unfold withSender
  split
  · rename_i d hl
    exact hf d hl
  · rw [hnone.1, hnone.2]
    exact Flow.refl _ _

/-- A flow through an inbox, if there is one by that name. -/
theorem flow_withInbox {inbox : String} {f : Nat → Session × Answer} {c : Nat} {st : Step}
    (hnone : st.ins s c .unknownName = [] ∧ st.outs s c .unknownName = [])
    (hf : ∀ d, s.inboxes.lookup inbox = some d →
      Flow s.exchange (f d).1.exchange c (st.ins s c (f d).2) (st.outs s c (f d).2)) :
    Flow s.exchange (s.withInbox inbox f).1.exchange c (st.ins s c (s.withInbox inbox f).2)
      (st.outs s c (s.withInbox inbox f).2) := by
  unfold withInbox
  split
  · rename_i d hl
    exact hf d hl
  · rw [hnone.1, hnone.2]
    exact Flow.refl _ _

/-- **A step moves what its answer tells.** -/
theorem flow_apply (s : Session) (st : Step) (c : Nat) :
    Flow s.exchange (s.apply st).1.exchange c (st.ins s c (s.apply st).2)
      (st.outs s c (s.apply st).2) := by
  cases st with
  | trySend tx m =>
    refine flow_withSender ⟨rfl, rfl⟩ fun d hl => ?_
    have hflow := Exchange.flow_trySend s.exchange d m c
    cases hr : (s.exchange.trySend d m).2 <;>
      simpa [hr, Step.ins, Step.outs, byName_of_lookup hl, withExchange] using hflow
  | offer tx m =>
    refine flow_withSender ⟨rfl, rfl⟩ fun d hl => ?_
    have hflow := Exchange.flow_offer s.exchange d m c
    have hcongr := Exchange.inChannel_congr (fun e => [m].take (s.exchange.free e)) c d
    rw [Exchange.offer_eq] at hflow ⊢
    cases hr : s.exchange.hasReceiver d <;>
      simpa [hr, Step.ins, Step.outs, byName_of_lookup hl, withExchange, hcongr] using hflow
  | send tx m name =>
    exact flow_withSender ⟨rfl, rfl⟩ fun d hl => Exchange.flow_of_eq rfl rfl
  | fill tx ms manner =>
    cases manner with
    | trySend =>
      refine flow_withSender ⟨rfl, rfl⟩ fun d hl => ?_
      have hflow := (Exchange.flow_sendAll s.exchange d 0 c none ms).2
      simpa [Step.ins, Step.outs, byName_of_lookup hl, withExchange] using hflow
    | offer =>
      refine flow_withSender ⟨rfl, rfl⟩ fun d hl => ?_
      obtain ⟨hcount, hflow⟩ := Exchange.flow_offerAll s.exchange d 0 c none ms
      have hcongr := Exchange.inChannel_congr (fun e => ms.take (s.exchange.free e)) c d
      have htake : ms.take (min ms.length (s.exchange.free c)) = ms.take (s.exchange.free c) := by
        rw [List.take_eq_take_iff]
        omega
      cases hr : s.exchange.hasReceiver d <;>
        simpa [hr, hcount, Step.ins, Step.outs, byName_of_lookup hl, withExchange, hcongr,
          htake] using hflow
  | cloneSender tx name =>
    refine flow_withSender ⟨rfl, rfl⟩ fun d hl => ?_
    have hclone := Exchange.flow_onChannel s.exchange d
      (fun ch => { ch with senders := ch.senders + 1 }) (fun _ => rfl) c
    have hdrop := flow_dropSender (s.withExchange (s.exchange.cloneSender d)) name c
    exact hclone.trans hdrop
  | dropSender tx => exact flow_dropSender s tx c
  | cloneInbox inbox name =>
    refine flow_withInbox ⟨rfl, rfl⟩ fun d hl => ?_
    have hclone := Exchange.flow_onChannel s.exchange d
      (fun ch => { ch with inboxes := ch.inboxes + 1 }) (fun _ => rfl) c
    have hdrop := flow_dropInbox (s.withExchange (s.exchange.cloneInbox d)) name c
    exact hclone.trans hdrop
  | dropInbox inbox => exact flow_dropInbox s inbox c
  | tryReceive inbox =>
    refine flow_withInbox ⟨rfl, rfl⟩ fun d hl => ?_
    have hflow := Exchange.flow_tryReceive s.exchange d c
    simpa [Step.ins, Step.outs, byName_of_lookup hl, withExchange] using hflow
  | drain inbox =>
    refine flow_withInbox ⟨rfl, rfl⟩ fun d hl => ?_
    have hflow := Exchange.flow_drain s.exchange d c
    simpa [Step.ins, Step.outs, byName_of_lookup hl, withExchange] using hflow
  | receive inbox name =>
    exact flow_withInbox ⟨rfl, rfl⟩ fun d hl => Exchange.flow_of_eq rfl rfl
  | receiveBlocking inbox =>
    rcases s.receiveBlocking_cases inbox with ⟨d, -, -, h⟩ | h <;> rw [h]
    · exact Exchange.flow_of_eq rfl rfl
    · refine @flow_withInbox _ inbox _ c (.receiveBlocking inbox) ⟨rfl, rfl⟩ fun d hl => ?_
      have hflow := Exchange.flow_tryReceive s.exchange d c
      simpa [Step.ins, Step.outs, byName_of_lookup hl, withExchange] using hflow
  | abort task =>
    simp only [apply]
    split
    · exact Exchange.flow_abort _ _ _
    · exact Flow.refl _ _
  | pending => exact Flow.refl _ _
  | cancel token => exact Exchange.flow_of_eq rfl rfl
  | nothing => exact Flow.refl _ _
  | advance secs => exact Exchange.flow_of_eq rfl rfl
  | listen sub capacity me tx token name =>
    refine flow_withSender ⟨rfl, rfl⟩ fun d hl => ?_
    split
    · rename_i hd
      have hadd := Exchange.flow_addChannel s.exchange capacity 1 0 c
      have hbegin := hadd.trans_still (z := (s.exchange.listen d capacity me token hd).1)
        (Exchange.flow_of_eq rfl rfl)
      have hdrop := flow_dropSender (s.begin name ((s.exchange.listen d capacity me token hd).1,
        (s.exchange.listen d capacity me token hd).2.2)) sub c
      exact hbegin.trans_still hdrop
    · exact Flow.refl _ _
  | inbound script closes sender timeout tx token name =>
    exact flow_withSender ⟨rfl, rfl⟩ fun d hl => Exchange.flow_of_eq rfl rfl
  | stream name =>
    simp only [apply]
    split <;> exact Flow.refl _ _

/-- A move moves what its callers are told. -/
theorem flow_next {k : Cause} (hk : Next s k s') (c : Nat) :
    Flow s.exchange s'.exchange c (k.ins c s) (k.outs c s) := by
  cases hk with
  | step st => exact flow_apply s st c
  | @act t a ht ha =>
    have := Exchange.flow_perform ha.feasible t c
    rwa [← ins_of_does ha, ← outs_of_does ha] at this

/-- **A path moves what the callers were told along it.** -/
theorem flow_path {path : List (Session × Cause)} (hp : Path s path s') (c : Nat) :
    Flow s.exchange s'.exchange c (ins c path) (outs c path) := by
  induction hp with
  | refl => exact Flow.refl _ _
  | snoc _ hk ih =>
    rw [ins_snoc, outs_snoc]
    exact ih.trans (flow_next hk c)

/-! ## Who moves messages -/

theorem lookup_of_byName_ne_nil {table : List (String × Nat)} {name : String} {c : Nat}
    {ms : List Message} (h : byName table c name ms ≠ []) : table.lookup name = some c := by
  by_contra hne
  exact h (if_neg hne)

/-- **Who puts a message into a channel holds a sender of it.** -/
theorem producer_of_ins {k : Cause} (hk : Next s k s') {c : Nat} (h : k.ins c s ≠ []) :
    (∃ p ∈ s.senders, p.2 = c) ∨ ∃ t a, k = .act t a ∧ t.work.holdsSender c = true := by
  cases hk with
  | step st =>
    have hname : ∀ {tx ms}, byName s.senders c tx ms ≠ [] → ∃ p ∈ s.senders, p.2 = c :=
      fun hne => ⟨_, mem_of_lookup_eq_some (lookup_of_byName_ne_nil hne), rfl⟩
    refine Or.inl ?_
    simp only [Cause.ins] at h
    unfold Step.ins at h
    split at h
    · exact hname h
    · exact hname h
    · exact hname h
    · exact hname h
    · exact absurd rfl h
  | @act t a ht ha =>
    refine Or.inr ⟨t, a, rfl, ?_⟩
    simp only [Cause.ins, ins_of_does ha] at h
    exact ha.holdsSender_of_ins h

/-- **Who takes a message out of a channel holds its receiving end.** -/
theorem consumer_of_outs {k : Cause} (hk : Next s k s') {c : Nat} (h : k.outs c s ≠ []) :
    (∃ p ∈ s.inboxes, p.2 = c) ∨ ∃ t a, k = .act t a ∧ t.work.holdsReceiver c = true := by
  cases hk with
  | step st =>
    have hname : ∀ {inbox ms}, byName s.inboxes c inbox ms ≠ [] → ∃ p ∈ s.inboxes, p.2 = c :=
      fun hne => ⟨_, mem_of_lookup_eq_some (lookup_of_byName_ne_nil hne), rfl⟩
    refine Or.inl ?_
    simp only [Cause.outs] at h
    unfold Step.outs at h
    split at h
    · exact hname h
    · exact hname h
    · exact hname h
    · exact absurd rfl h
  | @act t a ht ha =>
    refine Or.inr ⟨t, a, rfl, ?_⟩
    simp only [Cause.outs, outs_of_does ha] at h
    exact ha.holdsReceiver_of_outs h

theorem act_mem_tasks {k : Cause} (hk : Next s k s') (h : k = .act t a) :
    t ∈ s.exchange.tasks ∧ s.exchange.Does t a := by
  subst h
  cases hk with
  | act ht ha => exact ⟨ht, ha⟩

theorem Sound.hasSender_of_ins (h : s.Sound) {k : Cause} (hk : Next s k s') {c : Nat}
    (hne : k.ins c s ≠ []) : s.exchange.hasSender c = true := by
  rw [h.hasSender_iff]
  rcases producer_of_ins hk hne with hp | ⟨t, a, hact, hheld⟩
  · exact Or.inl hp
  · exact Or.inr ⟨t, (act_mem_tasks hk hact).1, hheld⟩

theorem Sound.hasReceiver_of_outs (h : s.Sound) {k : Cause} (hk : Next s k s') {c : Nat}
    (hne : k.outs c s ≠ []) : s.exchange.hasReceiver c = true := by
  rw [h.hasReceiver_iff]
  rcases consumer_of_outs hk hne with hp | ⟨t, a, hact, hheld⟩
  · exact Or.inl hp
  · exact Or.inr ⟨t, (act_mem_tasks hk hact).1, hheld⟩

/-- **Nothing more enters a channel without senders.** -/
theorem Sound.ins_eq_nil (h : s.Sound) {c : Nat} (hc : c < s.exchange.channels.length)
    (hnone : s.exchange.hasSender c = false) {path : List (Session × Cause)}
    (hp : Path s path s') : ins c path = [] := by
  induction hp with
  | refl => rfl
  | @snoc path s' s'' k hp hk ih =>
    have hstill := (h.later hp).unfed c hc hnone
    have hnext : k.ins c s' = [] := by
      by_contra hne
      rw [(h.path hp).hasSender_of_ins hk hne] at hstill
      cases hstill
    rw [ins_snoc, hnext, ih, List.append_nil]

/-- **Nothing more leaves a channel without receiving ends.** -/
theorem Sound.outs_eq_nil (h : s.Sound) {c : Nat} (hc : c < s.exchange.channels.length)
    (hnone : s.exchange.hasReceiver c = false) {path : List (Session × Cause)}
    (hp : Path s path s') : outs c path = [] := by
  induction hp with
  | refl => rfl
  | @snoc path s' s'' k hp hk ih =>
    have hstill := (h.later hp).unheard c hc hnone
    have hnext : k.outs c s' = [] := by
      by_contra hne
      rw [(h.path hp).hasReceiver_of_outs hk hne] at hstill
      cases hstill
    rw [outs_snoc, hnext, ih, List.append_nil]

end Session
end PeerNode
