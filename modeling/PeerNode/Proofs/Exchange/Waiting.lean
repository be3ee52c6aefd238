import PeerNode.Proofs.Exchange.Settling
import PeerNode.Proofs.Session.Handler
import PeerNode.Proofs.Session.Listener

/-!
# Who still waits when nobody can act

In a settled exchange a task with a message for a channel waits only because the channel is full.
The room in a channel belongs to those who wait for it, in order; so if there is any, the first of
them may go ahead, and then the exchange is not settled.

Where all streams hand out everything at once and then end or fail (`Prompt`), no handler waits for
its stream either: it reads its frame, or fails to, as soon as it acts (`Ready`).  What such an
exchange looks like when it has settled is said by `Calm`, which speaks of nothing but tasks and
buffers and so outlives operations that move neither.

* `Settled.room_eq_zero`: only a full channel makes a task wait.
* `Frame.Prompt`, `Prompt.advance`: streams that are read, or found wanting, at once.
* `Ready`: handlers that need not wait for their streams; `Ready.settle`.
* `Calm`: where tasks wait then; `Ready.calm_settle`.
-/

namespace PeerNode

variable {x y : Exchange} {t : Task} {a : Act} {c : Nat}

namespace Exchange

/-! ## Waiting for room -/

/-- Whoever waits for room in a settled exchange has not enough of it. -/
theorem Settled.mayPush_eq_false (hx : x.Settled) (ht : t ∈ x.tasks)
    (hwants : t.work.wantsRoom c = true) : x.mayPush t c = false := by
  unfold Work.wantsRoom at hwants
  cases hw : t.work with
  | send target m =>
    obtain rfl : target = c := by simpa [hw, Work.offered?] using hwants
    by_contra hp
    rw [Bool.not_eq_false] at hp
    cases hr : x.hasReceiver target with
    | false => exact not_does_of_settled hx ht (.sendClosed hw hr)
    | true => exact not_does_of_settled hx ht (.sent hw hr hp)
  | receive source => simp [hw, Work.offered?] at hwants
  | listen l =>
    rcases hx.listener ht hw with ⟨hm, -, -⟩ | ⟨m, -, hp⟩
    · simp [hw, Work.offered?, hm] at hwants
    · obtain rfl : l.target = c := by
        rw [hw] at hwants
        simp only [Work.offered?] at hwants
        split at hwants
        · cases hm : l.held with
          | none => simp [hm] at hwants
          | some m' => simpa [hm] using hwants
        · simp at hwants
      exact hp
  | handle h =>
    have hwait := hx.handler ht hw
    cases hst : h.stage with
    | reading | stalled => simp [hw, Work.offered?, hst] at hwants
    | enqueuing m =>
      obtain rfl : h.target = c := by simpa [hw, Work.offered?, hst] using hwants
      rw [hst] at hwait
      exact hwait.2.2

/-- **In a settled exchange only a full channel makes a task wait.** -/
theorem Settled.room_eq_zero (hx : x.Settled) (hp : x.mayPush t c = false) : x.room c = 0 := by
  cases hq : x.waitingSenders c with
  | nil => simpa [mayPush, hq] using hp
  | cons u us =>
    have hu : u ∈ x.waitingSenders c := hq ▸ List.mem_cons_self
    obtain ⟨hmem, hwants⟩ := List.mem_filter.1 hu
    have hfirst := hx.mayPush_eq_false hmem hwants
    simpa [mayPush, hq] using hfirst

end Exchange

/-! ## Streams that hand out everything at once -/

namespace Frame

/-- A stream that hands out octets and then ends or fails, without a pause. -/
def Prompt (script : List ReadEvent) : Prop :=
  ∃ (pieces : List Bytes) (rest : List ReadEvent), script = pieces.map .bytes ++ rest ∧
    (rest = [] ∨ ∃ e more, rest = .fail e :: more)

theorem prompt_pieces (pieces : List Bytes) : Prompt (pieces.map .bytes) :=
  ⟨pieces, [], (List.append_nil _).symm, Or.inl rfl⟩

theorem prompt_bytes (octets : Bytes) : Prompt [.bytes octets] := prompt_pieces [octets]

/-- Reading such a stream comes to an end at once. -/
theorem Prompt.decided {script : List ReadEvent} (h : Prompt script) (taken : Bytes) :
    (∃ b, advanceFrom taken script = .body b) ∨ ∃ e, advanceFrom taken script = .failed e := by
  obtain ⟨pieces, rest, rfl, hrest⟩ := h
  induction pieces generalizing taken with
  | nil =>
    rcases hrest with rfl | ⟨e, more, rfl⟩
    · exact Or.inr ⟨_, rfl⟩
    · exact Or.inr ⟨_, rfl⟩
  | cons piece pieces ih =>
    rw [List.map_cons, List.cons_append, advanceFrom]
    split
    · exact Or.inl ⟨_, rfl⟩
    · exact Or.inr ⟨_, rfl⟩
    · exact ih _

/-- **A stream that hands out everything at once is read or found wanting at once.** -/
theorem Prompt.advance {script : List ReadEvent} (h : Prompt script) :
    (¬ HasFrame script ∧ ∃ e, (Reader.start script).advance = .failed e) ∨
      (HasFrame script ∧ (Reader.start script).advance = .body (heardBody script)) := by
  have hspec := advanceFrom_spec open_nil script
  rcases h.decided [] with ⟨b, hb⟩ | ⟨e, he⟩
  · rw [hb] at hspec
    have hread : read script = some (.ok b) := hspec.1
    have hframe := hasFrame_of_read hread
    rw [read_of_hasFrame hframe, Option.some.injEq, Except.ok.injEq] at hread
    exact Or.inr ⟨hframe, hb.trans (congrArg Progress.body hread.symm)⟩
  · rw [he] at hspec
    refine Or.inl ⟨fun hframe => ?_, e, he⟩
    cases (read_of_hasFrame hframe).symm.trans hspec

end Frame

namespace Exchange

/-! ## Handlers that need not wait for their streams -/

/-- A handler has read its message, or its stream hands out everything now. -/
def Ready (x : Exchange) : Prop :=
  ∀ t ∈ x.tasks, ∀ h, t.work = .handle h → (∃ m, h.stage = .enqueuing m) ∨
    ∃ script wake deadline, h.stage = .reading (.start script) wake deadline ∧
      Frame.Prompt script ∧ x.hasRung wake = true

theorem Does.clock (ha : x.Does t a) : (x.perform t a).clock = x.clock := by
  rw [ha.onlyMessages_perform.clock, clock_conclude]
  rfl

/-- **A ready handler that acts goes on with its message, delivers it, or gives up.** -/
theorem Does.ready (ha : x.Does t a) {h : Handler} (hw : t.work = .handle h)
    (hready : (∃ m, h.stage = .enqueuing m) ∨
      ∃ script wake deadline, h.stage = .reading (.start script) wake deadline ∧
        Frame.Prompt script ∧ x.hasRung wake = true) :
    (∃ script wake deadline, h.stage = .reading (.start script) wake deadline ∧
      ((∃ e, (Frame.Reader.start script).advance = .failed e) ∧
          a = .alone (.ends (.handled false)) ∨
        (Frame.Reader.start script).advance = .body (Frame.heardBody script) ∧
          a = .alone (.goesOn (.handle (h.offering (Frame.heardBody script)))))) ∨
    (∃ m, h.stage = .enqueuing m ∧
      ((x.isCancelled h.token || !x.hasReceiver h.target) = true ∧
          a = .alone (.ends (.handled false)) ∨
        a = .push h.target m (.ends (.handled h.closes)))) := by
  have hwork : ∀ {h' : Handler}, t.work = .handle h' → h' = h := by
    intro h' hw'
    rw [hw, Work.handle.injEq] at hw'
    exact hw'.symm
  rcases hready with ⟨m, hst⟩ | ⟨script, wake, deadline, hst, hprompt, hrung⟩
  · refine Or.inr ⟨m, hst, ?_⟩
    cases ha with
    | released hw' hst' hc =>
      obtain rfl := hwork hw'
      exact Or.inl ⟨hc, rfl⟩
    | handed hw' hst' hc hr hp =>
      obtain rfl := hwork hw'
      obtain rfl := Stage.enqueuing.inj (hst.symm.trans hst')
      exact Or.inr rfl
    | _ => simp_all
  · refine Or.inl ⟨script, wake, deadline, hst, ?_⟩
    have hadvance := hprompt.advance
    cases ha with
    | frameRead hw' hst' hk hr =>
      obtain rfl := hwork hw'
      obtain ⟨rfl, rfl, rfl⟩ := Stage.reading.inj (hst.symm.trans hst')
      rcases hadvance with ⟨-, e, he⟩ | ⟨-, hbody⟩
      · cases hr.symm.trans he
      · obtain rfl := Frame.Progress.body.inj (hr.symm.trans hbody)
        exact Or.inr ⟨hbody, rfl⟩
    | readFailed hw' hst' hk hr =>
      obtain rfl := hwork hw'
      obtain ⟨rfl, rfl, rfl⟩ := Stage.reading.inj (hst.symm.trans hst')
      exact Or.inl ⟨⟨_, hr⟩, rfl⟩
    | paused hw' hst' hk hr =>
      obtain rfl := hwork hw'
      obtain ⟨rfl, rfl, rfl⟩ := Stage.reading.inj (hst.symm.trans hst')
      rcases hadvance with ⟨-, e, he⟩ | ⟨-, hbody⟩
      · cases hr.symm.trans he
      · cases hr.symm.trans hbody
    | silenced hw' hst' hk hr =>
      obtain rfl := hwork hw'
      obtain ⟨rfl, rfl, rfl⟩ := Stage.reading.inj (hst.symm.trans hst')
      rcases hadvance with ⟨-, e, he⟩ | ⟨-, hbody⟩
      · cases hr.symm.trans he
      · cases hr.symm.trans hbody
    | timedOut hw' hst' hk hd =>
      obtain rfl := hwork hw'
      obtain ⟨rfl, rfl, rfl⟩ := Stage.reading.inj (hst.symm.trans hst')
      exact absurd (hk.symm.trans hrung) Bool.false_ne_true
    | _ => simp_all

theorem Ready.of_le (h : x.Ready) (htasks : y.tasks = x.tasks) (hclock : x.clock ≤ y.clock) :
    y.Ready := by
  intro t ht hd hw
  rcases h t (htasks ▸ ht) hd hw with hm | ⟨script, wake, deadline, hst, hprompt, hrung⟩
  · exact Or.inl hm
  · refine Or.inr ⟨script, wake, deadline, hst, hprompt, ?_⟩
    rw [hasRung, decide_eq_true_eq] at hrung ⊢
    exact Nat.le_trans hrung hclock

theorem Ready.of_eq (h : x.Ready) (htasks : y.tasks = x.tasks) (hclock : y.clock = x.clock) :
    y.Ready := h.of_le htasks (Nat.le_of_eq hclock.symm)

/-- Handlers stay ready while tasks act. -/
theorem Ready.perform (h : x.Ready) (ht : t ∈ x.tasks) (ha : x.Does t a) :
    (x.perform t a).Ready := by
  intro u hu hd hw
  rcases mem_tasks_perform hu with hu | ⟨w, hafter, rfl⟩
  · rcases h u (List.mem_of_mem_erase hu) hd hw with
      hm | ⟨script, wake, deadline, hst, hprompt, hrung⟩
    · exact Or.inl hm
    · refine Or.inr ⟨script, wake, deadline, hst, hprompt, ?_⟩
      rw [hasRung, ha.clock]
      exact hrung
  · obtain rfl : w = .handle hd := hw
    obtain ⟨hd₀, hw₀, -⟩ := (ha.atPost hafter).of_handle
    rcases ha.ready hw₀ (h t ht hd₀ hw₀) with
      ⟨script, wake, deadline, -, ⟨-, rfl⟩ | ⟨-, rfl⟩⟩ | ⟨m, -, ⟨-, rfl⟩ | rfl⟩
    · cases hafter
    · cases hafter
      exact Or.inl ⟨_, rfl⟩
    · cases hafter
    · cases hafter

theorem Ready.settle (h : x.Ready) : x.settle.Ready :=
  settle_induction h fun _ _ _ hy ht ha => hy.perform ht ha

/-! ## Where tasks wait -/

/-- A listener waits for something to pass on or for room for it, and a handler for room. -/
structure Calm (x : Exchange) : Prop where
  listener : ∀ t ∈ x.tasks, ∀ l, t.work = .listen l →
    l.held = none ∧ x.buffer l.source = [] ∨ x.room l.target = 0
  handler : ∀ t ∈ x.tasks, ∀ h, t.work = .handle h →
    (∃ m, h.stage = .enqueuing m) ∧ x.room h.target = 0

/-- **When everything has settled, tasks wait for messages or for room.** -/
theorem Ready.calm_settle (h : x.Ready) : x.settle.Calm := by
  have hsettled := settled_settle x
  refine ⟨fun t ht l hl => ?_, fun t ht hd hw => ?_⟩
  · rcases hsettled.listener ht hl with ⟨hm, hb, -⟩ | ⟨m, -, hp⟩
    · exact Or.inl ⟨hm, hb⟩
    · exact Or.inr (hsettled.room_eq_zero hp)
  · have hwait := hsettled.handler ht hw
    rcases h.settle t ht hd hw with ⟨m, hst⟩ | ⟨script, wake, deadline, hst, -, hrung⟩
    · rw [hst] at hwait
      exact ⟨⟨m, hst⟩, hsettled.room_eq_zero hwait.2.2⟩
    · rw [hst] at hwait
      have hrung : wake.due ≤ x.settle.clock := by simpa [hasRung] using hrung
      exact absurd hwait.1 (Nat.not_lt.2 hrung)

theorem Calm.ready (h : x.Calm) : x.Ready := fun t ht hd hw => Or.inl (h.handler t ht hd hw).1

/-- What moves neither tasks nor messages leaves an exchange calm. -/
theorem Calm.of_still (h : x.Calm) (htasks : y.tasks = x.tasks)
    (hstill : ∀ t ∈ x.tasks, ∀ c, (t.work.holdsSender c = true ∨ t.work.holdsReceiver c = true) →
      y.buffer c = x.buffer c ∧ y.room c = x.room c) : y.Calm := by
  refine ⟨fun t ht l hl => ?_, fun t ht hd hw => ?_⟩
  · rw [htasks] at ht
    have hsource := hstill t ht l.source (Or.inr (by simp [hl, Work.holdsReceiver]))
    have htarget := hstill t ht l.target (Or.inl (by simp [hl, Work.holdsSender]))
    rw [hsource.1, htarget.2]
    exact h.listener t ht l hl
  · rw [htasks] at ht
    have htarget := hstill t ht hd.target (Or.inl (by simp [hw, Work.holdsSender]))
    rw [htarget.2]
    exact h.handler t ht hd hw

end Exchange
end PeerNode
