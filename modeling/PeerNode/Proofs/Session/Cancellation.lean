import PeerNode.Proofs.Session.Listener
import PeerNode.Proofs.Session.Handler

/-!
# Cancellation is final

A token is cancelled once and for all the tasks that hold it, those that are at work and those that
are begun later.  From then on none of them puts anything into a queue, whether or not there is
room, and whatever lies ready for it.  What a task may still do depends on where it was found: a
listener only stops, a handler with a message only gives up, and a handler that is still reading
reads on, but no longer than it was given time for, and then gives up as well (`Does.cancelled`).

That such a task loses no more than the message it held has to be read off its whole history,
which began long before.  So each task has a ledger of what it has put in and taken out since it
was begun (`Ledger`); it is kept along every path from a new session, and a cancelled task adds
nothing to it.

* `Work.token?`, `Work.Lingers`: who is cancelled, and how he may go on.
* `Exchange.Does.cancelled`: what he does.
* `outsBy`, `Balanced`, `Ledger`: what a task has put in and taken out since it was begun.
* `Withdrawn`, `withdrawn_path`: what becomes of a task whose token is cancelled.
* `Shut`: a channel at which every receive is told that it is closed.
* `cancellation_is_final`: what everybody may rely on.
-/

namespace PeerNode

variable {x : Exchange} {t : Task} {a : Act} {token : Token}

/-- The token by which a task with this work is cancelled. -/
def Work.token? : Work → Option Token
  | send _ _ | receive _ => none
  | listen l => some l.token
  | handle h => some h.token

/-- When a handler gives up that has no message yet. -/
def Stage.deadline? : Stage → Option Timer
  | reading _ _ deadline | stalled deadline => some deadline
  | enqueuing _ => none

/-- How a task ends that withdraws. -/
def Work.withdrawal : Work → Outcome
  | listen _ => .stopped
  | _ => .handled false

/-- How a cancelled task may go on: a listener not at all, and a handler within its time. -/
inductive Work.Lingers : Work → Work → Prop
  | listener (l : Listener) : Lingers (.listen l) (.listen l)
  | handler {h h' : Handler} (htoken : h'.token = h.token)
      (htime : ∀ d, h'.stage.deadline? = some d → h.stage.deadline? = some d) :
      Lingers (.handle h) (.handle h')

namespace Work.Lingers

variable {w w' w'' : Work}

theorem refl (hw : w.token? = some token) : w.Lingers w := by
  cases w with
  | send | receive => cases hw
  | listen l => exact .listener l
  | handle h => exact .handler rfl fun _ hd => hd

theorem trans (h : w.Lingers w') (h' : w'.Lingers w'') : w.Lingers w'' := by
  cases h with
  | listener l => exact h'
  | handler htoken htime =>
    cases h' with
    | handler htoken' htime' =>
      exact .handler (htoken'.trans htoken) fun d hd => htime d (htime' d hd)

theorem token?_eq (h : w.Lingers w') : w'.token? = w.token? := by
  cases h with
  | listener l => rfl
  | handler htoken htime => exact congrArg some htoken

theorem withdrawal_eq (h : w.Lingers w') : w'.withdrawal = w.withdrawal := by
  cases h <;> rfl

end Work.Lingers

namespace Exchange

/-- **What a cancelled task does**: it withdraws, or it reads on. -/
theorem Does.cancelled (h : x.Does t a) (htoken : t.work.token? = some token)
    (hc : x.isCancelled token = true) :
    a = .alone (.ends t.work.withdrawal) ∨
      ∃ w, a = .alone (.goesOn w) ∧ t.work.Lingers w := by
  have hmine : ∀ {w : Work}, t.work = w → w.token? = some token := fun hw => hw ▸ htoken
  have hon : ∀ {token' : Token}, some token' = some token → x.isCancelled token' = true := by
    intro token' he
    rwa [Option.some.inj he]
  cases h with
  | sendClosed hw | sent hw | received hw | receiveClosed hw => cases hmine hw
  | listenerCancelled hw _ =>
    rw [hw]
    exact Or.inl rfl
  | listenerUnheard hw hc' | forwarded hw hc' | listenerQueues hw hc' | taken hw hc'
  | listenerDone hw hc' => exact absurd (hon (hmine hw)) (by rw [hc']; exact Bool.false_ne_true)
  | handed hw _ hc' => exact absurd (hon (hmine hw)) (by rw [hc']; exact Bool.false_ne_true)
  | readFailed hw | timedOut hw | stalledOut hw | released hw =>
    rw [hw]
    exact Or.inl rfl
  | frameRead hw hst =>
    rw [hw]
    exact Or.inr ⟨_, rfl, .handler rfl fun d hd => by cases hd⟩
  | paused hw hst | silenced hw hst =>
    rw [hw]
    refine Or.inr ⟨_, rfl, .handler rfl fun d hd => ?_⟩
    rw [hst]
    exact hd

theorem Does.handler_goesOn {h : Handler} {w : Work} (ha : x.Does t a) (hw : t.work = .handle h)
    (hafter : a.after = .goesOn w) : a = .alone (.goesOn w) ∧ ∃ h', w = .handle h' := by
  cases ha <;> simp_all [Act.after]
  all_goals exact ⟨_, hafter.symm⟩

/-- **Where a cancelled task waits**: for its stream, within its time. -/
theorem Settled.cancelled (hx : x.Settled) (ht : t ∈ x.tasks)
    (htoken : t.work.token? = some token) (hc : x.isCancelled token = true) :
    ∃ h deadline, t.work = .handle h ∧ h.stage.deadline? = some deadline ∧
      x.clock < deadline.due ∧
      ∀ r wake deadline', h.stage = .reading r wake deadline' → x.clock < wake.due := by
  cases hw : t.work with
  | send | receive =>
    rw [hw] at htoken
    cases htoken
  | listen l =>
    rw [hw, Work.token?, Option.some.injEq] at htoken
    exact absurd (.listenerCancelled hw (htoken ▸ hc)) (not_does_of_settled hx ht)
  | handle h =>
    rw [hw, Work.token?, Option.some.injEq] at htoken
    have hwaits := hx.handler ht hw
    refine ⟨h, ?_⟩
    cases hst : h.stage with
    | reading r wake deadline =>
      rw [hst] at hwaits
      refine ⟨deadline, rfl, rfl, hwaits.2, ?_⟩
      intro r' wake' deadline' he
      cases he
      exact hwaits.1
    | stalled deadline =>
      rw [hst] at hwaits
      exact ⟨deadline, rfl, rfl, hwaits, fun _ _ _ he => by cases he⟩
    | enqueuing m =>
      rw [hst, htoken, hc] at hwaits
      cases hwaits.1

/-- While a consumer waits on a channel there is nothing in it, and somebody may fill it. -/
theorem Settled.waitingReceiver {c : Nat} (hx : x.Settled)
    (h : x.hasWaitingReceiver c = true) : x.buffer c = [] ∧ x.hasSender c = true := by
  obtain ⟨t, ht⟩ := List.find?_isSome.2 (List.any_eq_true.1 h) |> Option.isSome_iff_exists.1
  have hmem := List.mem_of_find?_eq_some ht
  have hconsumes := List.find?_some ht
  obtain ⟨source, hw⟩ : ∃ source, t.work = .receive source := by
    cases hw : t.work with
    | receive source => exact ⟨source, rfl⟩
    | _ => simp [hw, Work.consumes] at hconsumes
  obtain rfl : source = c := by simpa [hw, Work.consumes] using hconsumes
  have hturn : x.mayPull t source = true := by simp [mayPull, ht]
  have hidle : ∀ a, ¬ x.Does t a := fun a => not_does_of_settled hx hmem
  cases hb : x.buffer source with
  | cons m ms => exact absurd (.received hw hturn hb) (hidle _)
  | nil =>
    refine ⟨rfl, ?_⟩
    by_contra hs
    exact hidle _ (.receiveClosed hw hturn hb (by simpa using hs))

theorem Settled.tryReceive {c : Nat} {m : Message} {ms : List Message} (hx : x.Settled)
    (hb : x.buffer c = m :: ms) : (x.tryReceive c).2 = .message m := by
  unfold Exchange.tryReceive
  rw [if_neg]
  · simp only [hb]
  · intro h
    rw [(hx.waitingReceiver h).1] at hb
    cases hb

theorem Settled.tryReceive_closed {c : Nat} (hx : x.Settled) (hs : x.hasSender c = false)
    (hb : x.buffer c = []) : x.tryReceive c = (x, .closed) := by
  unfold Exchange.tryReceive
  rw [if_neg]
  · simp only [hb, hs, Bool.false_eq_true, if_false]
  · intro h
    rw [(hx.waitingReceiver h).2] at hs
    cases hs

end Exchange

namespace Session

variable {path whole : List (Session × Cause)} {s s' : Session} {k : Cause} {id c : Nat}

/-! ## The ledger of a task -/

/-- The messages that the task with this number has taken out of a channel by a move. -/
def Cause.outsBy (id c : Nat) : Cause → List Message
  | .step _ => []
  | .act t a => if t.id = id then t.outs c a else []

/-- All messages that the task with this number has taken out of a channel along a path. -/
def outsBy (id c : Nat) (path : List (Session × Cause)) : List Message :=
  path.flatMap fun p => p.2.outsBy id c

theorem outsBy_snoc (id c : Nat) (path : List (Session × Cause)) (s : Session) (k : Cause) :
    outsBy id c (path ++ [(s, k)]) = outsBy id c path ++ k.outsBy id c := by
  simp only [outsBy, List.flatMap_append, List.flatMap_singleton]

theorem outsBy_of_not_by (h : ¬ k.By id) (c : Nat) : k.outsBy id c = [] := by
  cases k with
  | step st => rfl
  | act t a => exact if_neg h

theorem outsBy_act (ha : s.exchange.Does t a) (hid : t.id = id) (c : Nat) :
    (Cause.act t a).outsBy id c = a.outs c := by
  simp only [Cause.outsBy, if_pos hid, outs_of_does ha]

/-- The account of a task along a path: what a listener has put in and what it holds is the foreign
part of what it has taken out, and a handler at work has put in nothing. -/
def Balanced (path : List (Session × Cause)) (t : Task) : Prop :=
  match t.work with
  | .send _ _ | .receive _ => True
  | .listen l => insBy t.id l.target path ++ l.held.toList =
      foreign l.me (outsBy t.id l.source path)
  | .handle _ => ∀ c, insBy t.id c path = []

/-- Only what the task itself has moved counts. -/
theorem Balanced.congr {path' : List (Session × Cause)} (h : Balanced path t)
    (hins : ∀ c, insBy t.id c path' = insBy t.id c path)
    (houts : ∀ c, outsBy t.id c path' = outsBy t.id c path) : Balanced path' t := by
  unfold Balanced at h ⊢
  split
  · exact trivial
  · exact trivial
  · rename_i hw
    rw [hw] at h
    rw [hins, houts]
    exact h
  · rename_i hw
    rw [hw] at h
    intro c
    rw [hins]
    exact h c

theorem Balanced.of_not_by (h : Balanced path t) (s : Session) (hby : ¬ k.By t.id) :
    Balanced (path ++ [(s, k)]) t := by
  refine h.congr (fun c => ?_) fun c => ?_
  · rw [insBy_snoc, insBy_of_not_by hby, List.append_nil]
  · rw [outsBy_snoc, outsBy_of_not_by hby, List.append_nil]

/-- A task that has moved nothing and holds nothing has a balanced account. -/
theorem Balanced.of_fresh (hins : ∀ c, insBy t.id c path = [])
    (houts : ∀ c, outsBy t.id c path = [])
    (hheld : ∀ l, t.work = .listen l → l.held = none) : Balanced path t := by
  unfold Balanced
  split
  · exact trivial
  · exact trivial
  · rename_i l hw
    rw [hins, houts, hheld l hw]
    rfl
  · exact hins

/-- The accounts of all tasks are balanced, and of those not yet begun there is none. -/
structure Ledger (path : List (Session × Cause)) (s : Session) : Prop where
  fresh : ∀ id, s.exchange.moment ≤ id → ∀ c, insBy id c path = [] ∧ outsBy id c path = []
  balanced : ∀ t ∈ s.exchange.tasks, Balanced path t

/-- No step begins a listener by name: a named inbox is one of the first channel, and no message
moves from there to an older one. -/
theorem Startable.not_listen {w : Work} (hs : s.Sound) (hw : s.Startable w) (l : Listener) :
    w ≠ .listen l := by
  rintro rfl
  obtain ⟨inbox, hl⟩ := hw.receiver l.source (by simp [Work.holdsReceiver])
  have hzero := hs.inbox_eq_zero hl
  have hlt := l.target_lt_source
  omega

/-- A listener that a step has begun holds nothing and waits for no room. -/
theorem held_of_change (hs : s.Sound) (h : Change s s') {u : Task} {l : Listener}
    (hu : u ∈ s'.exchange.tasks) (hw : u.work = .listen l) :
    u ∈ s.exchange.tasks ∨ l.held = none ∧ l.queued = false := by
  cases h with
  | idle => exact Or.inl hu
  | moves hy => exact Or.inl (hy.tasks ▸ hu)
  | begins hstart tasks streams =>
    rcases List.mem_append.1 hu with hu | hu
    · exact Or.inl hu
    · obtain rfl := List.mem_singleton.1 hu
      exact absurd hw (hstart.not_listen hs l)
  | clonesSender hl name =>
    exact Or.inl ((still_dropSender (s.withExchange (s.exchange.cloneSender _)) name).tasks ▸ hu)
  | dropsSender name => exact Or.inl ((still_dropSender s name).tasks ▸ hu)
  | clonesInbox hl name =>
    exact Or.inl ((still_dropInbox (s.withExchange (s.exchange.cloneInbox _)) name).tasks ▸ hu)
  | dropsInbox name => exact Or.inl ((still_dropInbox s name).tasks ▸ hu)
  | aborts id =>
    rcases Exchange.abort_cases s.exchange id with ⟨v, -, -, hy⟩ | hy
    · rw [show (s.withExchange (s.exchange.abort id)).exchange = _ from hy] at hu
      exact Or.inl (List.mem_of_mem_erase hu)
    · rw [show (s.withExchange (s.exchange.abort id)).exchange = _ from hy] at hu
      exact Or.inl hu
  | cancels | advances => exact Or.inl hu
  | listens hl hc capacity me token sub name =>
    rw [tasks_listening] at hu
    rcases List.mem_append.1 hu with hu | hu
    · exact Or.inl hu
    · obtain rfl := List.mem_singleton.1 hu
      cases hw
      exact Or.inr ⟨rfl, rfl⟩

/-- A task that acts and goes on keeps its account balanced. -/
theorem Balanced.own {w : Work} (h : Balanced path t) (ha : s.exchange.Does t a)
    (hafter : a.after = .goesOn w) : Balanced (path ++ [(s, .act t a)]) ⟨t.id, w⟩ := by
  have hins : ∀ c, insBy t.id c (path ++ [(s, .act t a)]) = insBy t.id c path ++ a.ins c := by
    intro c
    rw [insBy_snoc, insBy_act ha rfl]
  have houts : ∀ c, outsBy t.id c (path ++ [(s, .act t a)]) = outsBy t.id c path ++ a.outs c := by
    intro c
    rw [outsBy_snoc, outsBy_act ha rfl]
  cases hw : t.work with
  | send target m =>
    obtain ⟨o, ho⟩ := after_of_waiter ha (Or.inl ⟨target, m, hw⟩)
    cases hafter.symm.trans ho
  | receive source =>
    obtain ⟨o, ho⟩ := after_of_waiter ha (Or.inr ⟨source, hw⟩)
    cases hafter.symm.trans ho
  | listen l =>
    rcases ha.listener hw with ⟨l', hafter', hsource, htarget, hme, -, hown⟩ | ⟨rfl, -⟩
    · obtain rfl := After.goesOn.inj (hafter.symm.trans hafter')
      simp only [Balanced, hw] at h
      simp only [Balanced, hins, houts, hsource, htarget, hme, foreign_append]
      rw [List.append_assoc, hown, ← List.append_assoc, h]
    · cases hafter
  | handle hd =>
    obtain ⟨rfl, hd', rfl⟩ := ha.handler_goesOn hw hafter
    simp only [Balanced, hw] at h
    intro c
    rw [hins, h]
    rfl

/-- **Every move keeps the ledger.** -/
theorem Ledger.next (hs : s.Sound) (h : Ledger path s) (hk : Next s k s') :
    Ledger (path ++ [(s, k)]) s' := by
  have hmoment := (hs.later_next hk).persists.moment
  refine ⟨?_, ?_⟩
  · intro id hid c
    have hby : ¬ k.By id := by
      cases hk with
      | step st => exact fun hby => hby
      | act ht ha =>
        rintro rfl
        exact absurd (hs.tidy.numbered _ ht) (by omega)
    have hold := h.fresh id (Nat.le_trans hmoment hid) c
    rw [insBy_snoc, outsBy_snoc, insBy_of_not_by hby, outsBy_of_not_by hby, hold.1, hold.2]
    exact ⟨rfl, rfl⟩
  · intro u hu
    cases hk with
    | step st =>
      have hchange := change_apply s st
      rcases hchange.mem_tasks hu with hu' | ⟨hid, -⟩
      · exact (h.balanced u hu').of_not_by s fun hby => hby
      · have hnot : u ∉ s.exchange.tasks := by
          intro hu'
          exact absurd (hs.tidy.numbered u hu') (by omega)
        have hfresh := h.fresh u.id (Nat.le_of_eq hid.symm)
        refine (Balanced.of_fresh (fun c => (hfresh c).1) (fun c => (hfresh c).2) ?_).of_not_by s
          fun hby => hby
        exact fun l hw => ((held_of_change hs hchange hu hw).resolve_left hnot).1
    | @act t a ht ha =>
      rcases Exchange.mem_tasks_perform hu with hu | ⟨w, hafter, rfl⟩
      · refine (h.balanced u (List.mem_of_mem_erase hu)).of_not_by s ?_
        exact fun hby => hs.tidy.id_ne_of_mem_erase ht hu hby.symm
      · exact (h.balanced t ht).own ha hafter

/-- **A path from a new session keeps a ledger.** -/
theorem ledger_path {capacity : Nat} (hp : Path (Session.start capacity) path s) :
    Ledger path s := by
  induction hp with
  | refl => exact ⟨fun _ _ _ => ⟨rfl, rfl⟩, fun t ht => absurd ht List.not_mem_nil⟩
  | snoc hp hk ih => exact ih.next ((Sound.start capacity).path hp) hk

/-! ## Withdrawing -/

/-- What has become of a task whose token is cancelled. -/
structure Withdrawn (whole : List (Session × Cause)) (s : Session) (t : Task) : Prop where
  balanced : Balanced whole t
  fate : (∃ w, ⟨t.id, w⟩ ∈ s.exchange.tasks ∧ t.work.Lingers w) ∨
    s.exchange.outcome? t.id = some t.work.withdrawal ∨
    s.exchange.outcome? t.id = some .aborted

theorem Withdrawn.begins (h : Ledger whole s) (ht : t ∈ s.exchange.tasks)
    (htoken : t.work.token? = some token) : Withdrawn whole s t :=
  ⟨h.balanced t ht, Or.inl ⟨t.work, ht, .refl htoken⟩⟩

/-- **Every move withdraws cancelled tasks or leaves them lingering.** -/
theorem Withdrawn.next (hs : s.Sound) (hc : s.exchange.isCancelled token = true)
    (h : Withdrawn whole s t) (htoken : t.work.token? = some token) (hk : Next s k s') :
    Withdrawn (whole ++ [(s, k)]) s' t := by
  have hlater := (hs.later_next hk).persists.outcome
  rcases h.fate with ⟨w, hmem, hlingers⟩ | ho | ho
  · cases hk with
    | step st =>
      refine ⟨h.balanced.of_not_by s fun hby => hby, ?_⟩
      rcases (change_apply s st).task_kept hmem with hkept | ho
      · exact Or.inl ⟨w, hkept, hlingers⟩
      · exact Or.inr (Or.inr ho)
    | @act u a hu ha =>
      by_cases hid : u.id = t.id
      · obtain rfl := hs.tidy.eq_of_id_eq hu hmem hid
        have hstill : ∀ b, a = .alone b → Balanced (whole ++ [(s, .act ⟨t.id, w⟩ a)]) t := by
          rintro b rfl
          refine h.balanced.congr (fun c => ?_) fun c => ?_
          · rw [insBy_snoc, insBy_act ha rfl]
            exact List.append_nil _
          · rw [outsBy_snoc, outsBy_act ha rfl]
            exact List.append_nil _
        rcases ha.cancelled (hlingers.token?_eq.trans htoken) hc with rfl | ⟨w', rfl, hlingers'⟩
        · refine ⟨hstill _ rfl, Or.inr (Or.inl ?_)⟩
          rw [← hlingers.withdrawal_eq]
          exact ha.outcome_perform_of_ends rfl
        · refine ⟨hstill _ rfl, Or.inl ⟨w', ?_, hlingers.trans hlingers'⟩⟩
          exact Exchange.mem_tasks_perform_of_goesOn s.exchange ⟨t.id, w⟩ rfl
      · refine ⟨h.balanced.of_not_by s hid, Or.inl ⟨w, ?_, hlingers⟩⟩
        refine Exchange.mem_tasks_perform_of_ne hmem ?_ a
        rintro rfl
        exact hid rfl
  · have hby := not_by_of_outcome hs ho hk
    exact ⟨h.balanced.of_not_by s hby, Or.inr (Or.inl (hlater _ _ ho))⟩
  · have hby := not_by_of_outcome hs ho hk
    exact ⟨h.balanced.of_not_by s hby, Or.inr (Or.inr (hlater _ _ ho))⟩

/-- Whether a task is at work at some time along a path or at its end. -/
def Met (path : List (Session × Cause)) (s : Session) (t : Task) : Prop :=
  (∃ p ∈ path, t ∈ p.1.exchange.tasks) ∨ t ∈ s.exchange.tasks

theorem Sound.cancelled_path (hs : s.Sound) (hc : s.exchange.isCancelled token = true)
    (hp : Path s path s') : s'.exchange.isCancelled token = true :=
  (hs.later hp).persists.cancelled token hc

/-- **A path withdraws all tasks whose token was cancelled before it**, those at work and those
begun along it. -/
theorem withdrawn_path {capacity : Nat} {path₀ : List (Session × Cause)} {s₁ : Session}
    (h₀ : Path (Session.start capacity) path₀ s₁) (hc : s₁.exchange.isCancelled token = true)
    (hp : Path s₁ path s) (hmet : Met path s t) (htoken : t.work.token? = some token) :
    Withdrawn (path₀ ++ path) s t := by
  have hsound := (Sound.start capacity).path h₀
  induction hp with
  | refl =>
    rw [List.append_nil]
    rcases hmet with ⟨p, hp, -⟩ | ht
    · cases hp
    · exact .begins (ledger_path h₀) ht htoken
  | @snoc path s' s'' k hp hk ih =>
    have hwhole := (h₀.trans hp).snoc hk
    rw [← List.append_assoc]
    by_cases hold : Met path s' t
    · exact (ih hold).next (hsound.path hp) (hsound.cancelled_path hc hp) htoken hk
    · refine .begins (ledger_path hwhole) ?_ htoken
      rcases hmet with ⟨p, hmem, ht⟩ | ht
      · rcases List.mem_append.1 hmem with hmem | hmem
        · exact absurd (Or.inl ⟨p, hmem, ht⟩) hold
        · rw [List.mem_singleton.1 hmem] at ht
          exact absurd (Or.inr ht) hold
      · exact ht

/-! ## Closing -/

/-- A channel at which every receive is told that it is closed: those that wait end so, and so are
the others answered. -/
structure Shut (s : Session) (c : Nat) : Prop where
  receives : ∀ t ∈ s.exchange.tasks, t.work = .receive c →
    ∀ a, s.exchange.Does t a → a = .alone (.ends .channelClosed)
  gone : s.exchange.Settled → ∀ t ∈ s.exchange.tasks, t.work ≠ .receive c
  answers : s.exchange.Settled → ∀ inbox, s.inboxes.lookup inbox = some c →
    (s.apply (.tryReceive inbox)).2 = .found .closed ∧
    (s.apply (.receiveBlocking inbox)).2 = .found .closed ∧
    (s.apply (.drain inbox)).2 = .drained [] .closed

/-- A drained channel that nobody can fill is shut. -/
theorem shut_of_drained (hnone : s.exchange.hasSender c = false)
    (hempty : s.exchange.buffer c = []) : s.Shut c := by
  refine ⟨?_, ?_, ?_⟩
  · intro t ht hw a ha
    cases ha with
    | received hw' hp hb =>
      obtain rfl := Work.receive.inj (hw.symm.trans hw')
      cases hempty.symm.trans hb
    | receiveClosed => rfl
    | _ => simp_all
  · intro hrest t ht hw
    have hwaits : s.exchange.hasWaitingReceiver c = true :=
      List.any_eq_true.2 ⟨t, ht, by simp [hw, Work.consumes]⟩
    exact Bool.false_ne_true (hnone.symm.trans (hrest.waitingReceiver hwaits).2)
  · intro hrest inbox hl
    have hfound := hrest.tryReceive_closed hnone hempty
    refine ⟨?_, ?_, ?_⟩
    · simp only [apply, withInbox, hl, hfound]
    · simp only [apply, withInbox, hl, hfound]
    · simp only [apply, withInbox, hl, Exchange.drain, Exchange.drainFrom, hfound]

/-- **A drained channel without senders is shut for good.** -/
theorem Sound.shut (hs : s.Sound) (hlt : c < s.exchange.channels.length)
    (hnone : s.exchange.hasSender c = false) (hempty : s.exchange.buffer c = [])
    (hp : Path s path s') : s'.Shut c := by
  refine shut_of_drained ((hs.later hp).unfed c hlt hnone) ?_
  have hlaw := ins_eq_outs_append hp hempty
  rw [hs.ins_eq_nil hlt hnone hp, eq_comm, List.append_eq_nil_iff] at hlaw
  exact hlaw.2

/-! ## What everybody may rely on -/

/-- **Cancellation is final.**

From the cancellation of a token on, no task that holds it moves a message, be it at work already
or begun later.  Once all tasks wait, its listeners are gone, and its handlers are gone or still
waiting for their streams, within their time; the listeners have lost what they held, and the
handlers, which have delivered nothing, have dropped their streams.  All else stays where it was
and is received in order, and when nobody is left to fill a queue and it is drained, every receive
is told so. -/
theorem cancellation_is_final {capacity : Nat} {path₀ path : List (Session × Cause)}
    {s₀ s : Session} (h₀ : Path (Session.start capacity) path₀ s₀)
    (hp : Path (s₀.apply (.cancel token)).1 path s) :
    let whole := path₀ ++ (s₀, .step (.cancel token)) :: path
    (∀ s' t a, (s', Cause.act t a) ∈ path → t.work.token? = some token →
      ∀ c, s'.exchange.Untouched (s'.exchange.perform t a) c) ∧
    (∀ t l, Met path s t → t.work = .listen l → l.token = token →
      insBy t.id l.target whole ++ l.held.toList = foreign l.me (outsBy t.id l.source whole) ∧
      (s.exchange.Settled → (∀ u ∈ s.exchange.tasks, u.id ≠ t.id) ∧
        (s.exchange.outcome? t.id = some .stopped ∨
          s.exchange.outcome? t.id = some .aborted))) ∧
    (∀ t h, Met path s t → t.work = .handle h → h.token = token →
      (∀ c, insBy t.id c whole = []) ∧
      (s.exchange.Settled → streamOf s.exchange t.id = .stream false true ∨
        ∃ h' deadline, ⟨t.id, .handle h'⟩ ∈ s.exchange.tasks ∧
          h'.stage.deadline? = some deadline ∧ h.stage.deadline? = some deadline ∧
          s.exchange.clock < deadline.due ∧
          ∀ r wake d, h'.stage = .reading r wake d → s.exchange.clock < wake.due)) ∧
    (∀ c, s₀.exchange.buffer c ++ ins c path = outs c path ++ s.exchange.buffer c) ∧
    (s.exchange.Settled → ∀ inbox c m ms, s.inboxes.lookup inbox = some c →
      s.exchange.buffer c = m :: ms →
      (s.apply (.tryReceive inbox)).2 = .found (.message m)) ∧
    (∀ c < s.exchange.channels.length, (∀ p ∈ s.senders, p.2 ≠ c) →
      (∀ t ∈ s.exchange.tasks, t.work.holdsSender c = false) → s.exchange.buffer c = [] →
      ∀ path' s', Path s path' s' → s'.Shut c) := by
  intro whole
  have h₁ : Path (Session.start capacity) (path₀ ++ [(s₀, .step (.cancel token))])
      (s₀.apply (.cancel token)).1 := h₀.snoc (.step _)
  have hsound₁ := (Sound.start capacity).path h₁
  have hsound := hsound₁.path hp
  have hc : (s₀.apply (.cancel token)).1.exchange.isCancelled token = true := by
    simp [apply, withExchange, Exchange.cancel, Exchange.isCancelled]
  have hstill : s.exchange.isCancelled token = true := hsound₁.cancelled_path hc hp
  have hwithdrawn : ∀ {t : Task}, Met path s t → t.work.token? = some token →
      Withdrawn whole s t := by
    intro t hmet htoken
    have h := withdrawn_path h₁ hc hp hmet htoken
    rwa [List.append_assoc] at h
  have hended : ∀ {t : Task} {o : Outcome}, s.exchange.outcome? t.id = some o →
      ∀ u ∈ s.exchange.tasks, u.id ≠ t.id := fun ho => (hsound.tidy.ended _ _ ho).2
  refine ⟨?_, ?_, ?_, ?_, ?_, ?_⟩
  · intro s' t a hmem htoken c
    obtain ⟨init, s₂, -, hp', hk⟩ := hp.before hmem
    obtain ⟨-, ha⟩ := act_mem_tasks hk rfl
    have hflow := Exchange.flow_perform ha.feasible t c
    rcases ha.cancelled htoken (hsound₁.cancelled_path hc hp') with rfl | ⟨w, rfl, -⟩
    · exact hflow.untouched
    · exact hflow.untouched
  · intro t l hmet hw hl
    have htoken : t.work.token? = some token := by rw [hw, ← hl]; rfl
    obtain ⟨hbalanced, hfate⟩ := hwithdrawn hmet htoken
    simp only [Balanced, hw] at hbalanced
    refine ⟨hbalanced, fun hrest => ?_⟩
    rw [hw] at hfate
    rcases hfate with ⟨w, hmem, hlingers⟩ | ho | ho
    · cases hlingers with
      | listener =>
        obtain ⟨h, -, hh, -⟩ := hrest.cancelled (t := ⟨t.id, .listen l⟩) hmem
          (congrArg some hl) hstill
        cases hh
    · exact ⟨hended ho, Or.inl ho⟩
    · exact ⟨hended ho, Or.inr ho⟩
  · intro t h hmet hw hh
    have htoken : t.work.token? = some token := by rw [hw, ← hh]; rfl
    obtain ⟨hbalanced, hfate⟩ := hwithdrawn hmet htoken
    simp only [Balanced, hw] at hbalanced
    refine ⟨hbalanced, fun hrest => ?_⟩
    rw [hw] at hfate
    rcases hfate with ⟨w, hmem, hlingers⟩ | ho | ho
    · cases hlingers with
      | @handler _ h' htoken' htime =>
        obtain ⟨g, deadline, hg, hdeadline, hbefore, hwake⟩ := hrest.cancelled
          (t := ⟨t.id, .handle h'⟩) hmem (congrArg some (htoken'.trans hh)) hstill
        obtain rfl := Work.handle.inj hg
        exact Or.inr ⟨h', deadline, hmem, hdeadline, htime _ hdeadline, hbefore, hwake⟩
    · exact Or.inl (by simp only [streamOf, ho, Work.withdrawal])
    · exact Or.inl (by simp only [streamOf, ho])
  · intro c
    exact (flow_path hp c).conserved
  · intro hrest inbox c m ms hl hb
    simp only [apply, withInbox, hl, hrest.tryReceive hb]
  · intro c hlt hnames htasks hempty path' s' hp'
    refine hsound.shut hlt ?_ hempty hp'
    rw [← Bool.not_eq_true, hsound.hasSender_iff]
    rintro (⟨p, hmem, hpc⟩ | ⟨t, ht, hheld⟩)
    · exact hnames p hmem hpc
    · rw [htasks t ht] at hheld
      cases hheld

/-- A handler waits with its message for a queue that is full.  Its token is cancelled and it gives
up; the message in the queue is still received, and then the queue is closed. -/
theorem cancellation_is_final_full : ∃ path₀ s₀ path s,
    Path (Session.start 1) path₀ s₀ ∧ Path (s₀.apply (.cancel "stop")).1 path s ∧
    s₀.exchange.buffer 0 = [Message.direct ⟨"a"⟩ [1]] ∧
    (∀ c, insBy 0 c (path₀ ++ (s₀, .step (.cancel "stop")) :: path) = []) ∧
    streamOf s.exchange 0 = .stream false true ∧
    outs 0 path = [Message.direct ⟨"a"⟩ [1]] ∧ s.Shut 0 := by
  have h₀ := ((Path.single (.step (s := Session.start 1)
    (.trySend "p" (.direct ⟨"a"⟩ [1])))).snoc
    (.step (.inbound [.bytes [2, 10]] true ⟨"b"⟩ 5 "p" "stop" "h"))).snoc
    (.act List.mem_cons_self (.frameRead rfl rfl rfl rfl))
  have hhere : ∀ {s s' : Session} {path}, Path s path s' → Path s' [] s' := fun _ => .refl
  have hp := (((hhere (h₀.snoc (.step (.cancel "stop")))).snoc
    (.act List.mem_cons_self (.released rfl rfl rfl))).snoc
    (.step (.dropSender "p"))).snoc
    (.step (.tryReceive "i"))
  have hfinal := cancellation_is_final h₀ hp
  refine ⟨_, _, _, _, h₀, hp, rfl, ?_, rfl, rfl, ?_⟩
  · exact (hfinal.2.2.1 _ _ (Or.inl ⟨_, List.mem_cons_self, List.mem_cons_self⟩) rfl rfl).1
  · refine hfinal.2.2.2.2.2 0 (Nat.zero_lt_one) ?_ ?_ rfl _ _ .refl
    · exact fun p hmem => absurd hmem List.not_mem_nil
    · exact fun t ht => absurd ht List.not_mem_nil

end Session
end PeerNode
