import PeerNode.Proofs.Session.Conservation
import PeerNode.Proofs.Frame.Arrival

/-!
# A handler delivers all or nothing

A handler reads one frame off a stream, waits until the delivery queue has a place for it, and
closes the stream.  Meanwhile everything can happen: the stream pauses, fails or falls silent, the
time is up, the token is cancelled, the last inbox goes away, others fill the queue.  However these
meet, either the one message of the frame is in the queue and the stream was closed as well as it
closes, or nothing of the handler is left and the stream was dropped.

Time has to pass at rest for this (`AtRest`), as it does whenever all tasks act after each step
until none can (`path_steps`): a handler that could act and is not allowed to before the clock goes
on may find its time up through no fault of the stream.

* `clocks`: the readings of the clock along a path.
* `Inbound`: what was told when a handler was begun.
* `Inbound.StageLaw`: what a handler has made of its stream so far.
* `Does.handler`: what a handler does --- it goes on, gives up, or delivers.
* `Fate`, `fate_path`: what has become of a handler.
* `handler_all_or_nothing`: what a sender may rely on.
-/

namespace PeerNode

open PeerNode.Frame (HasFrame Timely OnTime TooLate Readings Reading)
open Exchange (inChannel)

variable {x : Exchange} {t : Task} {a : Act}

/-- What was told when a handler was begun, and when that was. -/
structure Inbound where
  /-- The number of the task. -/
  task : Nat
  target : Nat
  sender : PeerName
  token : Token
  closes : Bool
  script : List ReadEvent
  start : Nat
  deadline : Nat

namespace Inbound

/-- The message of the frame on the stream. -/
def message (i : Inbound) : Message := .direct i.sender (Frame.heardBody i.script)

/-- A handler at work for this stream. -/
structure Serves (i : Inbound) (h : Handler) : Prop where
  target : h.target = i.target
  sender : h.sender = i.sender
  token : h.token = i.token
  closes : h.closes = i.closes

/-- What a handler has made of its stream, by the readings of the clock so far. -/
def StageLaw (i : Inbound) (clocks : List Nat) (now : Nat) : Stage → Prop
  | .reading r wake deadline => deadline.due = i.deadline ∧
      Reading i.script i.start i.deadline clocks now r wake.due
  | .stalled deadline => deadline.due = i.deadline ∧ ¬ HasFrame i.script
  | .enqueuing m => m = i.message ∧ HasFrame i.script ∧
      OnTime i.script i.start i.deadline clocks now

/-- Why a handler gives up. -/
inductive Refused (i : Inbound) (clocks : List Nat) (now : Nat) (x : Exchange) : Prop
  | noFrame (h : ¬ HasFrame i.script)
  | late (h : TooLate i.script i.start i.deadline clocks now)
  | cancelled (h : x.isCancelled i.token = true)
  | unheard (h : x.hasReceiver i.target = false)

/-- When a handler delivers. -/
structure Granted (i : Inbound) (clocks : List Nat) (now : Nat) (x : Exchange) : Prop where
  frame : HasFrame i.script
  onTime : OnTime i.script i.start i.deadline clocks now
  wanted : x.isCancelled i.token = false
  heard : x.hasReceiver i.target = true

variable {i : Inbound} {clocks : List Nat} {now now' : Nat}

/-- Time goes on, and a handler that reads must have been waiting. -/
theorem StageLaw.extend {stage : Stage} (h : i.StageLaw clocks now stage)
    (hclocks : Readings clocks now) (hle : now ≤ now')
    (hwait : now < now' → ∀ r wake deadline, stage = .reading r wake deadline →
      now < wake.due ∧ now < deadline.due) : i.StageLaw (clocks ++ [now']) now' stage := by
  cases stage with
  | reading r wake deadline =>
    refine ⟨h.1, h.2.extend hclocks hle ?_⟩
    intro hlt
    have := hwait hlt r wake deadline rfl
    rwa [h.1] at this
  | stalled deadline => exact h
  | enqueuing m => exact ⟨h.1, h.2.1, h.2.2.extend hle⟩

theorem Refused.extend (h : i.Refused clocks now x) (hle : now ≤ now') :
    i.Refused (clocks ++ [now']) now' x := by
  cases h with
  | noFrame h => exact .noFrame h
  | late h => exact .late (h.extend hle)
  | cancelled h => exact .cancelled h
  | unheard h => exact .unheard h

theorem Refused.not_granted (h : i.Refused clocks now x) :
    ¬ ((HasFrame i.script ∧ Timely i.script clocks i.start i.deadline) ∧
      x.isCancelled i.token = false ∧ x.hasReceiver i.target = true) := by
  rintro ⟨⟨hframe, htimely⟩, hwanted, hheard⟩
  cases h with
  | noFrame h => exact h hframe
  | late h => exact h.not_timely htimely
  | cancelled h => exact Bool.false_ne_true (hwanted.symm.trans h)
  | unheard h => exact Bool.false_ne_true (h.symm.trans hheard)

theorem Granted.extend (h : i.Granted clocks now x) (hle : now ≤ now') :
    i.Granted (clocks ++ [now']) now' x := ⟨h.frame, h.onTime.extend hle, h.wanted, h.heard⟩

end Inbound

namespace Exchange

variable {i : Inbound} {clocks : List Nat} {h : Handler}

/-- **What a handler does**: it goes on, it gives up for a reason, or it delivers. -/
theorem Does.handler (ha : x.Does t a) (hw : t.work = .handle h) (hs : i.Serves h)
    (hclocks : Readings clocks x.clock) (hlaw : i.StageLaw clocks x.clock h.stage) :
    (∃ h', a = .alone (.goesOn (.handle h')) ∧ i.Serves h' ∧
      i.StageLaw clocks x.clock h'.stage) ∨
    (a = .alone (.ends (.handled false)) ∧ i.Refused clocks x.clock x) ∨
    (a = .push i.target i.message (.ends (.handled i.closes)) ∧
      i.Granted clocks x.clock x) := by
  have hwork : ∀ {h' : Handler}, t.work = .handle h' → h' = h := by
    intro h' hw'
    rw [hw, Work.handle.injEq] at hw'
    exact hw'.symm
  cases ha with
  | frameRead hw' hst hk hr =>
    obtain rfl := hwork hw'
    rw [hst] at hlaw
    obtain ⟨hframe, hbody, hontime⟩ := hlaw.2.body hclocks (by simpa [hasRung] using hk) hr
    refine Or.inl ⟨_, rfl, ⟨hs.target, hs.sender, hs.token, hs.closes⟩, ?_, hframe, hontime⟩
    rw [Inbound.message, hs.sender, hbody]
  | readFailed hw' hst hk hr =>
    obtain rfl := hwork hw'
    rw [hst] at hlaw
    exact Or.inr (Or.inl ⟨rfl, .noFrame (hlaw.2.failed hr)⟩)
  | paused hw' hst hk hr =>
    obtain rfl := hwork hw'
    rw [hst] at hlaw
    have hnext := hlaw.2.pausing hclocks (by simpa [hasRung] using hk) hr
    exact Or.inl ⟨_, rfl, ⟨hs.target, hs.sender, hs.token, hs.closes⟩, hlaw.1, hnext⟩
  | silenced hw' hst hk hr =>
    obtain rfl := hwork hw'
    rw [hst] at hlaw
    exact Or.inl ⟨_, rfl, ⟨hs.target, hs.sender, hs.token, hs.closes⟩, hlaw.1,
      hlaw.2.silent hr⟩
  | timedOut hw' hst hk hd =>
    obtain rfl := hwork hw'
    rw [hst] at hlaw
    have hlate := hlaw.2.tooLate hclocks (by simpa [hasRung] using hk)
      (by simpa [hasRung, hlaw.1] using hd)
    exact Or.inr (Or.inl ⟨rfl, .late hlate⟩)
  | stalledOut hw' hst hd =>
    obtain rfl := hwork hw'
    rw [hst] at hlaw
    exact Or.inr (Or.inl ⟨rfl, .noFrame hlaw.2⟩)
  | released hw' hst hc =>
    obtain rfl := hwork hw'
    refine Or.inr (Or.inl ⟨rfl, ?_⟩)
    rw [Bool.or_eq_true] at hc
    rcases hc with hc | hr
    · exact .cancelled (hs.token ▸ hc)
    · exact .unheard (by simpa [hs.target] using hr)
  | handed hw' hst hc hr hp =>
    obtain rfl := hwork hw'
    rw [hst] at hlaw
    obtain ⟨rfl, hframe, hontime⟩ := hlaw
    refine Or.inr (Or.inr ⟨?_, hframe, hontime, hs.token ▸ hc, hs.target ▸ hr⟩)
    rw [hs.target, hs.closes]
  | _ => simp_all

/-- **Where a handler waits.** -/
theorem Settled.handler (hx : x.Settled) (ht : t ∈ x.tasks) (hw : t.work = .handle h) :
    match h.stage with
    | .reading _ wake deadline => x.clock < wake.due ∧ x.clock < deadline.due
    | .stalled deadline => x.clock < deadline.due
    | .enqueuing _ => x.isCancelled h.token = false ∧ x.hasReceiver h.target = true ∧
        x.mayPush t h.target = false := by
  have hidle : ∀ a, ¬ x.Does t a := fun a => not_does_of_settled hx ht
  cases hst : h.stage with
  | reading r wake deadline =>
    have hk : x.hasRung wake = false := by
      by_contra hk
      rw [Bool.not_eq_false] at hk
      cases hr : r.advance with
      | body bs => exact hidle _ (.frameRead hw hst hk hr)
      | failed e => exact hidle _ (.readFailed hw hst hk hr)
      | pausing secs next => exact hidle _ (.paused hw hst hk hr)
      | silent => exact hidle _ (.silenced hw hst hk hr)
    have hd : x.hasRung deadline = false := by
      by_contra hd
      exact hidle _ (.timedOut hw hst hk (by simpa using hd))
    exact ⟨by simpa [hasRung] using hk, by simpa [hasRung] using hd⟩
  | stalled deadline =>
    have hd : x.hasRung deadline = false := by
      by_contra hd
      exact hidle _ (.stalledOut hw hst (by simpa using hd))
    simpa [hasRung] using hd
  | enqueuing m =>
    have hc : (x.isCancelled h.token || !x.hasReceiver h.target) = false := by
      by_contra hc
      rw [Bool.not_eq_false] at hc
      exact hidle _ (.released hw hst hc)
    rw [Bool.or_eq_false_iff, Bool.not_eq_false'] at hc
    refine ⟨hc.1, hc.2, ?_⟩
    by_contra hp
    exact hidle _ (.handed hw hst hc.1 hc.2 (by simpa using hp))

end Exchange

namespace Session

/-! ## Time and the acts of one task along a path -/

/-- The readings of the clock along a path, the last one at its end. -/
def clocks (path : List (Session × Cause)) (s : Session) : List Nat :=
  path.map (·.1.exchange.clock) ++ [s.exchange.clock]

/-- The messages that the task with this number has put into a channel by a move. -/
def Cause.insBy (id c : Nat) : Cause → List Message
  | .step _ => []
  | .act t a => if t.id = id then t.ins c a else []

/-- All messages that the task with this number has put into a channel along a path. -/
def insBy (id c : Nat) (path : List (Session × Cause)) : List Message :=
  path.flatMap fun p => p.2.insBy id c

/-- Whether a move is the last act of the task with this number. -/
def Cause.Ends (id : Nat) : Cause → Prop
  | .step _ => False
  | .act t a => t.id = id ∧ ∃ o, a.after = .ends o

variable {path : List (Session × Cause)} {s s₁ s' : Session} {k : Cause} {i : Inbound} {id : Nat}

theorem clocks_snoc (path : List (Session × Cause)) (s s' : Session) (k : Cause) :
    clocks (path ++ [(s, k)]) s' = clocks path s ++ [s'.exchange.clock] := by
  simp only [clocks, List.map_append, List.map_singleton]

theorem insBy_snoc (id c : Nat) (path : List (Session × Cause)) (s : Session) (k : Cause) :
    insBy id c (path ++ [(s, k)]) = insBy id c path ++ k.insBy id c := by
  simp only [insBy, List.flatMap_append, List.flatMap_singleton]

theorem readings_path (hs : s₁.Sound) (hp : Path s₁ path s) :
    Readings (clocks path s) s.exchange.clock := by
  induction hp with
  | refl => exact ⟨List.mem_singleton_self _, fun c hc => Nat.le_of_eq (List.mem_singleton.1 hc)⟩
  | snoc hp hk ih =>
    rw [clocks_snoc]
    exact ih.extend ((hs.path hp).later_next hk).persists.clock

theorem clock_perform (ha : s.exchange.Does t a) :
    (s.exchange.perform t a).clock = s.exchange.clock := by
  rw [ha.onlyMessages_perform.clock, Exchange.clock_conclude]
  rfl

theorem not_by_of_outcome (hs : s.Sound) {o : Outcome} (ho : s.exchange.outcome? id = some o)
    (hk : Next s k s') : ¬ k.By id := by
  cases hk with
  | step st => exact fun h => h
  | act ht ha => exact (hs.tidy.ended id o ho).2 _ ht

theorem insBy_of_not_by (h : ¬ k.By id) (c : Nat) : k.insBy id c = [] := by
  cases k with
  | step st => rfl
  | act t a => exact if_neg h

theorem not_ends_of_not_by (h : ¬ k.By id) : ¬ k.Ends id := by
  cases k with
  | step st => exact fun h => h
  | act t a => exact fun he => h he.1

/-! ## What has become of a handler -/

/-- What has become of a handler. -/
inductive Fate (i : Inbound) (path : List (Session × Cause)) (s : Session) : Prop
  | running {h : Handler} (ht : ⟨i.task, .handle h⟩ ∈ s.exchange.tasks) (hs : i.Serves h)
      (hlaw : i.StageLaw (clocks path s) s.exchange.clock h.stage)
      (hins : ∀ c, insBy i.task c path = []) (hends : ∀ p ∈ path, ¬ p.2.Ends i.task)
  | aborted (ho : s.exchange.outcome? i.task = some .aborted)
      (hins : ∀ c, insBy i.task c path = []) (hends : ∀ p ∈ path, ¬ p.2.Ends i.task)
  | refused (ho : s.exchange.outcome? i.task = some (.handled false))
      (hins : ∀ c, insBy i.task c path = [])
      (hwhy : ∀ p ∈ path, p.2.Ends i.task →
        i.Refused (clocks path s) s.exchange.clock p.1.exchange)
  | delivered (ho : s.exchange.outcome? i.task = some (.handled i.closes))
      (hins : ∀ c, insBy i.task c path = inChannel c i.target [i.message])
      (hend : ∃ p ∈ path, p.2.Ends i.task)
      (hwhy : ∀ p ∈ path, p.2.Ends i.task →
        i.Granted (clocks path s) s.exchange.clock p.1.exchange)

theorem forall_mem_snoc {P : Session × Cause → Prop} (h : ∀ p ∈ path, P p) (hk : P (s, k)) :
    ∀ p ∈ path ++ [(s, k)], P p := by
  intro p hp
  rcases List.mem_append.1 hp with hp | hp
  · exact h p hp
  · rw [List.mem_singleton.1 hp]
    exact hk

theorem insBy_snoc_of_not_by {ms : Nat → List Message} (h : ∀ c, insBy id c path = ms c)
    (hk : ¬ k.By id) (c : Nat) : insBy id c (path ++ [(s, k)]) = ms c := by
  rw [insBy_snoc, h, insBy_of_not_by hk, List.append_nil]

/-- A handler at which it is not the turn stays where it is. -/
theorem Fate.still {h : Handler} (hs : s.Sound)
    (hclocks : Readings (clocks path s) s.exchange.clock) (hk : Next s k s')
    (hrest : AtRest [(s, k)]) (hby : ¬ k.By i.task)
    (ht : ⟨i.task, .handle h⟩ ∈ s.exchange.tasks) (hserves : i.Serves h)
    (hlaw : i.StageLaw (clocks path s) s.exchange.clock h.stage)
    (hins : ∀ c, insBy i.task c path = []) (hends : ∀ p ∈ path, ¬ p.2.Ends i.task) :
    Fate i (path ++ [(s, k)]) s' := by
  have hnone := insBy_snoc_of_not_by (s := s) hins hby
  have hno := forall_mem_snoc (s := s) hends (not_ends_of_not_by hby)
  have hle := (hs.later_next hk).persists.clock
  have hextend : (s.exchange.clock < s'.exchange.clock → s.exchange.Settled) →
      i.StageLaw (clocks (path ++ [(s, k)]) s') s'.exchange.clock h.stage := by
    intro hsettled
    rw [clocks_snoc]
    refine hlaw.extend hclocks hle ?_
    intro hlt r wake deadline hst
    have hwaits := (hsettled hlt).handler ht rfl
    rwa [hst] at hwaits
  cases hk with
  | step st =>
    rcases (change_apply s st).task_kept ht with hkept | ho
    · refine .running hkept hserves (hextend ?_) hnone hno
      intro hlt
      exact hrest s st (List.mem_singleton_self _) (Nat.ne_of_gt hlt)
    · exact .aborted ho hnone hno
  | @act t a hact ha =>
    refine .running ?_ hserves (hextend ?_) hnone hno
    · have hne : (⟨i.task, .handle h⟩ : Task) ≠ t := by
        rintro rfl
        exact hby rfl
      exact Exchange.mem_tasks_perform_of_ne ht hne a
    · intro hlt
      exact absurd (clock_perform ha) (Nat.ne_of_gt hlt)

theorem insBy_act (ha : s.exchange.Does t a) (hid : t.id = id) (c : Nat) :
    (Cause.act t a).insBy id c = a.ins c := by
  simp only [Cause.insBy, if_pos hid, ins_of_does ha]

/-- A handler acts: it goes on, gives up or delivers. -/
theorem Fate.own {h : Handler} (hclocks : Readings (clocks path s) s.exchange.clock)
    (hserves : i.Serves h)
    (hlaw : i.StageLaw (clocks path s) s.exchange.clock h.stage)
    (hins : ∀ c, insBy i.task c path = []) (hends : ∀ p ∈ path, ¬ p.2.Ends i.task)
    (ha : s.exchange.Does ⟨i.task, .handle h⟩ a) :
    Fate i (path ++ [(s, .act ⟨i.task, .handle h⟩ a)])
      (s.withExchange (s.exchange.perform ⟨i.task, .handle h⟩ a)) := by
  have hclock : (s.withExchange (s.exchange.perform ⟨i.task, .handle h⟩ a)).exchange.clock =
      s.exchange.clock := clock_perform ha
  have hnew : ∀ c, insBy i.task c (path ++ [(s, .act ⟨i.task, .handle h⟩ a)]) = a.ins c := by
    intro c
    rw [insBy_snoc, hins, List.nil_append]
    exact insBy_act ha rfl c
  have hlast : ∀ {P : Session × Cause → Prop}, P (s, .act ⟨i.task, .handle h⟩ a) →
      ∀ p ∈ path ++ [(s, .act ⟨i.task, .handle h⟩ a)], p.2.Ends i.task → P p := by
    intro P hP p hp hend
    rcases List.mem_append.1 hp with hp | hp
    · exact absurd hend (hends p hp)
    · rw [List.mem_singleton.1 hp]
      exact hP
  rcases ha.handler rfl hserves hclocks hlaw with ⟨h', rfl, hserves', hlaw'⟩ | ⟨rfl, hwhy⟩ |
    ⟨rfl, hwhy⟩
  · refine .running (h := h') ?_ hserves' ?_ hnew ?_
    · exact Exchange.mem_tasks_perform_of_goesOn s.exchange ⟨i.task, .handle h⟩ rfl
    · rw [clocks_snoc, hclock]
      refine hlaw'.extend hclocks (Nat.le_refl _) ?_
      exact fun hlt => absurd hlt (Nat.lt_irrefl _)
    · refine forall_mem_snoc hends ?_
      rintro ⟨-, o, ho⟩
      cases ho
  · refine .refused (ha.outcome_perform_of_ends rfl) hnew ?_
    rw [clocks_snoc, hclock]
    exact hlast (hwhy.extend (Nat.le_refl _))
  · refine .delivered (ha.outcome_perform_of_ends rfl) hnew ?_ ?_
    · exact ⟨_, List.mem_append_right _ (List.mem_singleton_self _), rfl, _, rfl⟩
    rw [clocks_snoc, hclock]
    exact hlast (hwhy.extend (Nat.le_refl _))

/-- **Every move decides what has become of a handler.** -/
theorem fate_next (hs : s.Sound) (hclocks : Readings (clocks path s) s.exchange.clock)
    (h : Fate i path s) (hk : Next s k s') (hrest : AtRest [(s, k)]) :
    Fate i (path ++ [(s, k)]) s' := by
  have hlater := hs.later_next hk
  have hle := hlater.persists.clock
  cases h with
  | @running h ht hserves hlaw hins hends =>
    by_cases hby : k.By i.task
    · cases hk with
      | step st => exact absurd hby id
      | @act t a hact ha =>
        obtain rfl := hs.tidy.eq_of_id_eq hact ht hby
        exact Fate.own hclocks hserves hlaw hins hends ha
    · exact Fate.still hs hclocks hk hrest hby ht hserves hlaw hins hends
  | aborted ho hins hends =>
    have hby := not_by_of_outcome hs ho hk
    exact .aborted (hlater.persists.outcome _ _ ho) (insBy_snoc_of_not_by hins hby)
      (forall_mem_snoc hends (not_ends_of_not_by hby))
  | refused ho hins hwhy =>
    have hby := not_by_of_outcome hs ho hk
    refine .refused (hlater.persists.outcome _ _ ho) (insBy_snoc_of_not_by hins hby) ?_
    rw [clocks_snoc]
    exact forall_mem_snoc (fun p hp he => (hwhy p hp he).extend hle)
      fun he => absurd he (not_ends_of_not_by hby)
  | delivered ho hins hend hwhy =>
    have hby := not_by_of_outcome hs ho hk
    obtain ⟨p, hmem, hend⟩ := hend
    refine .delivered (hlater.persists.outcome _ _ ho) (insBy_snoc_of_not_by hins hby)
      ⟨p, List.mem_append_left _ hmem, hend⟩ ?_
    rw [clocks_snoc]
    exact forall_mem_snoc (fun p hp he => (hwhy p hp he).extend hle)
      fun he => absurd he (not_ends_of_not_by hby)

/-- **A path decides what has become of a handler**, if time passes at rest. -/
theorem fate_path (hs : s₁.Sound) (h : Fate i [] s₁) (hp : Path s₁ path s)
    (hrest : AtRest path) : Fate i path s := by
  induction hp with
  | refl => exact h
  | snoc hp hk ih =>
    have hinit := ih fun s st hmem => hrest s st (List.mem_append_left _ hmem)
    exact fate_next (hs.path hp) (readings_path hs hp) hinit hk
      fun s st hmem => hrest s st (List.mem_append_right _ hmem)

/-! ## A handler begins -/

section Begins

variable {q timeout : Nat} {script : List ReadEvent} {closes : Bool} {sender : PeerName}
  {tx name : String} {token : Token}

/-- What was told when this handler was begun. -/
def inbound (x : Exchange) (target : Nat) (script : List ReadEvent) (closes : Bool)
    (sender : PeerName) (timeout : Nat) (token : Token) : Inbound :=
  ⟨x.moment, target, sender, token, closes, script, x.clock, x.clock + timeout⟩

theorem apply_inbound (htx : s.senders.lookup tx = some q) :
    (s.apply (.inbound script closes sender timeout tx token name)).1 =
      { s.begin name (s.exchange.accept q sender script closes timeout token) with
        streams := (name, s.exchange.moment) :: forget name s.streams } := by
  simp only [apply, withSender, htx]
  rfl

theorem fate_inbound (htx : s.senders.lookup tx = some q) :
    Fate (inbound s.exchange q script closes sender timeout token) []
      (s.apply (.inbound script closes sender timeout tx token name)).1 := by
  rw [apply_inbound htx]
  refine .running (h := ⟨q, sender, token, closes,
    .reading (.start script) (s.exchange.timer 0) (s.exchange.timer timeout)⟩) ?_
    ⟨rfl, rfl, rfl, rfl⟩ ⟨rfl, ?_⟩ (fun _ => rfl) fun p hp => absurd hp List.not_mem_nil
  · exact List.mem_append_right _ (List.mem_singleton_self _)
  · exact Reading.begins script s.exchange.clock (s.exchange.clock + timeout)

end Begins

/-! ## What a sender may rely on -/

/-- A handler that is found at work is running. -/
theorem Fate.of_mem (hs : s.Sound) (h : Fate i path s) (ht : t ∈ s.exchange.tasks)
    (hid : t.id = i.task) : ∃ h, t = ⟨i.task, .handle h⟩ ∧ i.Serves h ∧
      i.StageLaw (clocks path s) s.exchange.clock h.stage ∧ ∀ c, insBy i.task c path = [] := by
  have hgone : ∀ {o}, s.exchange.outcome? i.task = some o → False :=
    fun ho => (hs.tidy.ended _ _ ho).2 t ht hid
  cases h with
  | @running h hmem hserves hlaw hins hends =>
    exact ⟨h, hs.tidy.eq_of_id_eq ht hmem hid, hserves, hlaw, hins⟩
  | aborted ho => exact absurd ho fun ho => hgone ho
  | refused ho => exact absurd ho fun ho => hgone ho
  | delivered ho => exact absurd ho fun ho => hgone ho

/-- **A handler delivers exactly when it has a frame in time and, at its last act, is wanted and
heard.** -/
theorem Fate.delivered_iff (h : Fate i path s) :
    (∀ c, insBy i.task c path = inChannel c i.target [i.message]) ↔
      ∃ p ∈ path, p.2.Ends i.task ∧
        (HasFrame i.script ∧ Timely i.script (clocks path s) i.start i.deadline) ∧
        p.1.exchange.isCancelled i.token = false ∧ p.1.exchange.hasReceiver i.target = true := by
  have hnothing : (∀ c, insBy i.task c path = []) →
      ¬ ∀ c, insBy i.task c path = inChannel c i.target [i.message] := by
    intro hins hall
    have := (hins i.target).symm.trans (hall i.target)
    rw [Exchange.inChannel_self] at this
    cases this
  cases h with
  | running ht hserves hlaw hins hends =>
    refine iff_of_false (hnothing hins) ?_
    rintro ⟨p, hp, hend, -⟩
    exact hends p hp hend
  | aborted ho hins hends =>
    refine iff_of_false (hnothing hins) ?_
    rintro ⟨p, hp, hend, -⟩
    exact hends p hp hend
  | refused ho hins hwhy =>
    refine iff_of_false (hnothing hins) ?_
    rintro ⟨p, hp, hend, hgranted⟩
    exact (hwhy p hp hend).not_granted hgranted
  | delivered ho hins hend hwhy =>
    obtain ⟨p, hp, hend⟩ := hend
    have hgranted := hwhy p hp hend
    exact iff_of_true hins ⟨p, hp, hend, ⟨hgranted.frame, hgranted.onTime.timely⟩,
      hgranted.wanted, hgranted.heard⟩

/-- **All or nothing.** -/
theorem Fate.all_or_nothing (h : Fate i path s) : (∀ c, insBy i.task c path = []) ∨
    ∀ c, insBy i.task c path = inChannel c i.target [i.message] := by
  cases h with
  | running _ _ _ hins => exact Or.inl hins
  | aborted _ hins => exact Or.inl hins
  | refused _ hins => exact Or.inl hins
  | delivered _ hins => exact Or.inr hins

/-- **A stream is closed in order exactly when its message is delivered and it closes.** -/
theorem Fate.stream (hs : s.Sound) (h : Fate i path s) :
    streamOf s.exchange i.task = .stream (i.closes && !(insBy i.task i.target path).isEmpty)
      (s.exchange.tasks.all (·.id != i.task)) := by
  have hgone : ∀ {o}, s.exchange.outcome? i.task = some o →
      s.exchange.tasks.all (·.id != i.task) = true := by
    intro o ho
    rw [List.all_eq_true]
    exact fun t ht => bne_iff_ne.2 ((hs.tidy.ended _ _ ho).2 t ht)
  cases h with
  | @running h ht hserves hlaw hins hends =>
    have hnone : s.exchange.outcome? i.task = none := hs.tidy.outcome_eq_none ht
    have hthere : s.exchange.tasks.all (·.id != i.task) = false := by
      rw [List.all_eq_false]
      exact ⟨_, ht, by simp⟩
    simp only [streamOf, hnone, hthere, hins, List.isEmpty_nil, Bool.not_true, Bool.and_false]
  | aborted ho hins hends =>
    simp only [streamOf, ho, hgone ho, hins, List.isEmpty_nil, Bool.not_true, Bool.and_false]
  | refused ho hins hwhy =>
    simp only [streamOf, ho, hgone ho, hins, List.isEmpty_nil, Bool.not_true, Bool.and_false]
  | delivered ho hins hend hwhy =>
    simp only [streamOf, ho, hgone ho, hins, Exchange.inChannel_self, List.isEmpty_cons,
      Bool.not_false, Bool.and_true]

/-- **Where a handler waits**: for its stream, which may still be in time, or for room. -/
theorem Fate.waiting (hs : s.Sound) (hclocks : Readings (clocks path s) s.exchange.clock)
    (h : Fate i path s) (hrest : s.exchange.Settled) (ht : t ∈ s.exchange.tasks)
    (hid : t.id = i.task) :
    (¬ (HasFrame i.script ∧ Timely i.script (clocks path s) i.start i.deadline) ∧
      s.exchange.clock < i.deadline) ∨
    ((HasFrame i.script ∧ Timely i.script (clocks path s) i.start i.deadline) ∧
      s.exchange.isCancelled i.token = false ∧ s.exchange.hasReceiver i.target = true ∧
      s.exchange.mayPush t i.target = false) := by
  obtain ⟨h, rfl, hserves, hlaw, -⟩ := h.of_mem hs ht hid
  have hwaits := hrest.handler ht rfl
  cases hst : h.stage with
  | reading r wake deadline =>
    rw [hst] at hwaits hlaw
    refine Or.inl ⟨fun hin => hlaw.2.not_timely hclocks hwaits.1 hin.2, ?_⟩
    rw [← hlaw.1]
    exact hwaits.2
  | stalled deadline =>
    rw [hst] at hwaits hlaw
    refine Or.inl ⟨fun hin => hlaw.2 hin.1, ?_⟩
    rw [← hlaw.1]
    exact hwaits
  | enqueuing m =>
    rw [hst] at hwaits hlaw
    rw [hserves.token, hserves.target] at hwaits
    exact Or.inr ⟨⟨hlaw.2.1, hlaw.2.2.timely⟩, hwaits⟩

/-- **A handler that has delivered nothing has left no trace.** -/
theorem untouched_of_fate (hs : s₁.Sound) (h : Fate i [] s₁) (hp : Path s₁ path s)
    (hrest : AtRest path) (hnone : insBy i.task i.target path = []) {s' : Session}
    (hmem : (s', Cause.act t a) ∈ path) (hid : t.id = i.task) (c : Nat) :
    s'.exchange.Untouched (s'.exchange.perform t a) c := by
  obtain ⟨init, s₂, hinit, hp', hk⟩ := hp.before hmem
  obtain ⟨ht, ha⟩ := act_mem_tasks hk rfl
  have hsound := hs.path hp'
  have hfate := fate_path hs h hp' fun s st hm => hrest s st (hinit.subset hm)
  obtain ⟨h, rfl, hserves, hlaw, -⟩ := hfate.of_mem hsound ht hid
  have hins : a.ins i.target = [] := by
    rw [← insBy_act ha hid]
    exact List.flatMap_eq_nil_iff.1 hnone _ hmem
  have hflow := Exchange.flow_perform ha.feasible ⟨i.task, .handle h⟩ c
  rcases ha.handler rfl hserves (readings_path hs hp') hlaw with ⟨h', rfl, -⟩ | ⟨rfl, -⟩ |
    ⟨rfl, -⟩
  · exact hflow.untouched
  · exact hflow.untouched
  · rw [Act.ins, Exchange.inChannel_self] at hins
    cases hins

/-- **An inbound handler delivers all or nothing, and a stream that is closed in order
acknowledges a delivery.**

The last act of a handler is the one at which its message gets a place in the queue, or at which
the handler gives up. -/
theorem handler_all_or_nothing {capacity timeout q : Nat} {path₀ : List (Session × Cause)}
    {s₀ : Session} {script : List ReadEvent} {closes : Bool} {sender : PeerName}
    {tx name : String} {token : Token} (h₀ : Path (Session.start capacity) path₀ s₀)
    (htx : s₀.senders.lookup tx = some q)
    (h₁ : s₁ = (s₀.apply (.inbound script closes sender timeout tx token name)).1)
    (hp : Path s₁ path s) (hrest : AtRest path) :
    let handler := s₀.exchange.moment
    let message := Message.direct sender ((Frame.heard script).takeWhile (· != Frame.terminator))
    let inTime := HasFrame script ∧
      Timely script (clocks path s) s₀.exchange.clock (s₀.exchange.clock + timeout)
    ((∀ c, insBy handler c path = []) ∨ ∀ c, insBy handler c path = inChannel c q [message]) ∧
    ((∀ c, insBy handler c path = inChannel c q [message]) ↔
      ∃ p ∈ path, p.2.Ends handler ∧ inTime ∧
        p.1.exchange.isCancelled token = false ∧ p.1.exchange.hasReceiver q = true) ∧
    (∀ t ∈ s.exchange.tasks, t.id = handler → s.exchange.Settled →
      (¬ inTime ∧ s.exchange.clock < s₀.exchange.clock + timeout) ∨
      (inTime ∧ s.exchange.isCancelled token = false ∧ s.exchange.hasReceiver q = true ∧
        s.exchange.mayPush t q = false)) ∧
    streamOf s.exchange handler = .stream (closes && !(insBy handler q path).isEmpty)
      (s.exchange.tasks.all (·.id != handler)) ∧
    (insBy handler q path = [] → ∀ s' t a, (s', Cause.act t a) ∈ path → t.id = handler →
      ∀ c, s'.exchange.Untouched (s'.exchange.perform t a) c) := by
  intro handler message inTime
  have hsound₀ := (Sound.start capacity).path h₀
  have hsound₁ : s₁.Sound := h₁ ▸ hsound₀.change (change_apply _ _)
  have hsound := hsound₁.path hp
  have hclocks := readings_path hsound₁ hp
  have hbegun : Fate (inbound s₀.exchange q script closes sender timeout token) [] s₁ :=
    h₁ ▸ fate_inbound htx
  have hfate := fate_path hsound₁ hbegun hp hrest
  refine ⟨hfate.all_or_nothing, hfate.delivered_iff, ?_, hfate.stream hsound, ?_⟩
  · intro t ht hid hsettled
    exact hfate.waiting hsound hclocks hsettled ht hid
  · intro hnone s' t a hmem hid c
    exact untouched_of_fate hsound₁ hbegun hp hrest hnone hmem hid c

/-- A frame that arrives in two pieces, two seconds apart, where there are five: it is delivered,
and the stream is closed in order. -/
theorem handler_all_or_nothing_hi : ∃ s₁ path s,
    s₁ = ((Session.start 1).apply (.inbound [.bytes [104], .pause 2, .bytes [105, 10]] true ⟨"a"⟩ 5
      "p" "stop" "h")).1 ∧
    Path s₁ path s ∧ AtRest path ∧ insBy 0 0 path = [Message.direct ⟨"a"⟩ [104, 105]] ∧
    streamOf s.exchange 0 = .stream true true := by
  have hp := (((Path.single (.act (s := ((Session.start 1).apply
    (.inbound [.bytes [104], .pause 2, .bytes [105, 10]] true ⟨"a"⟩ 5 "p" "stop" "h")).1)
    List.mem_cons_self (.paused rfl rfl rfl rfl))).snoc
    (.step (.advance 2))).snoc
    (.act List.mem_cons_self (.frameRead rfl rfl rfl rfl))).snoc
    (.act List.mem_cons_self (.handed rfl rfl rfl rfl rfl))
  have hall := fun hrest => handler_all_or_nothing (q := 0) .refl rfl rfl hp hrest
  refine ⟨_, _, _, rfl, hp, ?atRest, rfl, (hall ?atRest).2.2.2.1⟩
  refine AtRest.act (AtRest.act (AtRest.step (AtRest.act .nil _ _ _) ?_ _) _ _ _) _ _ _
  exact rfl

end Session
end PeerNode
