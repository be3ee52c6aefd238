import PeerNode.Proofs.Exchange.Settling
import PeerNode.Proofs.Session.Path

/-!
# A delivery queue conserves its messages

The delivery queue of a session is its first channel.  Whoever puts messages into it and whoever
takes them out, and in whatever order senders, receives, listeners, handlers and all others get
their turn, no message is lost, none appears twice and none overtakes another: what has entered
the queue is what has left it followed by what waits in it.  The queue never holds more messages
than it has places, and once its last inbox is gone nothing leaves it any more.

What has entered and left is what the callers were told, so that the law speaks of their answers
and outcomes and not of the queue's own record; the record says the same.

* `Untouched`: a channel from which and into which nothing has moved.
* `outcome_of_act`: a send and a receive act once, and their outcomes tell what they have done.
* `outcome_of_abort`: an aborted task has ended for good, and moves nothing at its end.
* `queue_conserves`: the law.
-/

namespace PeerNode

open Exchange (inChannel)

/-- A channel in which nothing has moved. -/
structure Exchange.Untouched (x y : Exchange) (c : Nat) : Prop where
  buffer : y.buffer c = x.buffer c
  accepted : y.accepted c = x.accepted c
  delivered : y.delivered c = x.delivered c

theorem Exchange.Flow.untouched {x y : Exchange} {c : Nat} (h : Flow x y c [] []) :
    x.Untouched y c := by
  refine ⟨?_, ?_, ?_⟩
  · have := h.conserved
    rwa [List.append_nil, List.nil_append, eq_comm] at this
  · rw [h.accepted, List.append_nil]
  · rw [h.delivered, List.append_nil]

namespace Session

variable {capacity : Nat} {path : List (Session × Cause)} {s : Session} {t : Task} {a : Act}

/-- Whether a step is an attempt to send that was refused, or an abort. -/
def Declined (s : Session) : Step → Prop
  | .trySend tx m => ∃ r, r ≠ .ok ∧ (s.apply (.trySend tx m)).2 = .sent r
  | .offer tx m => (s.apply (.offer tx m)).2 = .flag false
  | .abort _ => True
  | _ => False

/-- A declined step has told nobody of any message. -/
theorem told_of_declined {st : Step} (h : s.Declined st) (c : Nat) :
    st.ins s c (s.apply st).2 = [] ∧ st.outs s c (s.apply st).2 = [] := by
  cases st with
  | trySend tx m =>
    obtain ⟨r, hr, heq⟩ := h
    rw [heq]
    cases r with
    | ok => exact absurd rfl hr
    | full => exact ⟨rfl, rfl⟩
    | closed => exact ⟨rfl, rfl⟩
  | offer tx m =>
    rw [show (s.apply (.offer tx m)).2 = .flag false from h]
    exact ⟨rfl, rfl⟩
  | abort name => exact ⟨rfl, rfl⟩
  | _ => exact absurd h id

theorem untouched_of_declined {st : Step} (h : s.Declined st) (c : Nat) :
    s.exchange.Untouched (s.apply st).1.exchange c := by
  have hflow := flow_apply s st c
  rw [(told_of_declined h c).1, (told_of_declined h c).2] at hflow
  exact hflow.untouched

/-! ## What the outcome of a task tells -/

theorem after_of_waiter {x : Exchange} (h : x.Does t a)
    (hw : (∃ target m, t.work = .send target m) ∨ ∃ source, t.work = .receive source) :
    ∃ o, a.after = .ends o := by
  cases h with
  | sendClosed | sent | received | receiveClosed => exact ⟨_, rfl⟩
  | _ => simp_all

/-- **A send and a receive act once**: what they did is their outcome for good. -/
theorem outcome_of_act {s₀ s₁ : Session} (h₀ : s₀.Sound) (hp : Path s₀ path s)
    (hmem : (s₁, Cause.act t a) ∈ path)
    (hw : (∃ target m, t.work = .send target m) ∨ ∃ source, t.work = .receive source) :
    ∃ o, a.after = .ends o ∧ s.exchange.outcome? t.id = some o := by
  induction hp with
  | refl => cases hmem
  | @snoc path s' s'' k hp hk ih =>
    have hlater := (h₀.path hp).later_next hk
    rcases List.mem_append.1 hmem with hmem | hmem
    · obtain ⟨o, hafter, ho⟩ := ih hmem
      exact ⟨o, hafter, hlater.persists.outcome t.id o ho⟩
    · obtain ⟨rfl, rfl⟩ := Prod.mk.inj (List.mem_singleton.1 hmem)
      cases hk with
      | act ht ha =>
        obtain ⟨o, hafter⟩ := after_of_waiter ha hw
        exact ⟨o, hafter, ha.outcome_perform_of_ends hafter⟩

/-! ## Aborted tasks -/

theorem Sound.not_by_path (h : s.Sound) {s' : Session} {id : Nat} {o : Outcome}
    (ho : s.exchange.outcome? id = some o) (hp : Path s path s') : ∀ p ∈ path, ¬ p.2.By id := by
  rintro ⟨s₁, k⟩ hmem
  obtain ⟨init, s₂, -, hinit, hk⟩ := hp.before hmem
  have hended := (h.later hinit).persists.outcome id o ho
  cases hk with
  | step st => exact fun hby => hby
  | act ht ha => exact ((h.path hinit).tidy.ended id o hended).2 _ ht

/-- A task stays at its post along a path. -/
theorem Sound.atPost_path (h : s.Sound) {s' : Session} {u : Task} (hp : Path s path s')
    (ht : t ∈ s.exchange.tasks) (hu : u ∈ s'.exchange.tasks) (hid : u.id = t.id) :
    t.work.AtPost u.work := by
  induction hp generalizing u with
  | refl =>
    rw [h.tidy.eq_of_id_eq hu ht hid]
    exact .other _
  | @snoc path s' s'' k hp hk ih =>
    cases hk with
    | step st =>
      rcases (change_apply s' st).mem_tasks hu with hu | ⟨hnew, -⟩
      · exact ih hu hid
      · have hold := h.tidy.numbered t ht
        have hmoment := (h.later hp).persists.moment
        omega
    | act hv ha =>
      obtain ⟨v, hv, hvu, hpost⟩ := Exchange.mem_tasks_of_perform hv ha hu
      exact (ih hv (hvu.trans hid)).trans hpost

theorem nil_of_goesOn {w : Work} (h : s.exchange.Does t a) (ha : a.after = .goesOn w)
    (hw : ∀ l, w ≠ .listen l) (c : Nat) : t.ins c a = [] ∧ t.outs c a = [] := by
  rw [ins_of_does h, outs_of_does h]
  cases h with
  | forwarded | taken => exact absurd (After.goesOn.inj ha).symm (hw _)
  | sent | received | handed => cases ha
  | _ => exact ⟨rfl, rfl⟩

/-- **An aborted task** has ended so for good.  From then on it does nothing, and unless it is a
listener it has moved no message before. -/
theorem outcome_of_abort {s₀ s₁ : Session} {past future : List (Session × Cause)} {name : String}
    (h₀ : s₀.Sound) (hp : Path s₀ (past ++ (s₁, Cause.step (.abort name)) :: future) s)
    (ht : t ∈ s₁.exchange.tasks) (hname : s₁.tasks.lookup name = some t.id) :
    s.exchange.outcome? t.id = some .aborted ∧ (∀ p ∈ future, ¬ p.2.By t.id) ∧
    ((∀ l, t.work ≠ .listen l) → ∀ p ∈ past, p.2.By t.id →
      ∀ c, p.2.ins c p.1 = [] ∧ p.2.outs c p.1 = []) := by
  obtain ⟨s₂, hpast, hk, hfuture⟩ := hp.split
  have h₁ := h₀.path hpast
  have h₂ := h₁.next hk
  have haborted : s₂.exchange.outcome? t.id = some .aborted := by
    cases hk with
    | step =>
      simp only [apply, hname]
      exact Exchange.outcome_abort ht
  refine ⟨(h₂.later hfuture).persists.outcome _ _ haborted, h₂.not_by_path haborted hfuture, ?_⟩
  rintro hw ⟨s', k⟩ hmem hby c
  obtain ⟨past', future', rfl⟩ := List.append_of_mem hmem
  obtain ⟨s'', hpast', hk', hfuture'⟩ := hpast.split
  have h' := h₀.path hpast'
  cases hk' with
  | step st => exact hby.elim
  | @act u a hu ha =>
    have hid : u.id = t.id := hby
    cases hafter : a.after with
    | ends o =>
      -- who has ended is no longer there to be aborted
      have hended := (h'.perform hu ha).later hfuture'
      have ho := hended.persists.outcome _ _ (ha.outcome_perform_of_ends hafter)
      rw [hid, h₁.tidy.outcome_eq_none ht] at ho
      cases ho
    | goesOn w =>
      have hon := Exchange.mem_tasks_perform_of_goesOn s'.exchange u hafter
      have hpost := (h'.perform hu ha).atPost_path hfuture' hon ht hid.symm
      refine nil_of_goesOn ha hafter ?_ c
      rintro l rfl
      obtain ⟨l', hl'⟩ := hpost.stays_listen
      exact hw l' hl'

/-! ## The law -/

theorem capacity_queue (hp : Path (Session.start capacity) path s) :
    ∃ channel, s.exchange.channels[0]? = some channel ∧ channel.capacity = capacity := by
  obtain ⟨rest, hrest⟩ := ((Sound.start capacity).later hp).persists.capacities
  have hcap : s.exchange.channels[0]?.map (·.capacity) = some capacity := by
    rw [← List.getElem?_map, ← hrest]
    rfl
  exact Option.map_eq_some_iff.1 hcap

theorem length_buffer_le (hp : Path (Session.start capacity) path s) :
    (s.exchange.buffer 0).length ≤ capacity := by
  obtain ⟨channel, hc, hcap⟩ := capacity_queue hp
  simp only [Exchange.buffer, hc, ← hcap]
  exact ((Sound.start capacity).path hp).fits 0 channel hc

theorem length_buffer_eq (hp : Path (Session.start capacity) path s)
    (hroom : s.exchange.room 0 = 0) : (s.exchange.buffer 0).length = capacity := by
  have hle := length_buffer_le hp
  obtain ⟨channel, hc, hcap⟩ := capacity_queue hp
  simp only [Exchange.room, Exchange.buffer, hc] at hroom hle ⊢
  omega

theorem ins_eq_outs_append {s₀ : Session} {c : Nat} (hp : Path s₀ path s)
    (hempty : s₀.exchange.buffer c = []) :
    ins c path = outs c path ++ s.exchange.buffer c := by
  have h := (flow_path hp c).conserved
  rwa [hempty, List.nil_append] at h

/-- **A delivery queue neither loses nor repeats nor reorders messages, and never holds too
many.**

What was refused has not entered it, a send or a receive that ends otherwise has moved nothing, and
a task that is aborted has ended so for good, without having moved anything unless it is a
listener. -/
theorem queue_conserves (hp : Path (Session.start capacity) path s) :
    (s.exchange.buffer 0).length ≤ capacity ∧
    (s.exchange.accepted 0 = ins 0 path ∧ s.exchange.delivered 0 = outs 0 path) ∧
    (s.exchange.hasReceiver 0 = true → ins 0 path = outs 0 path ++ s.exchange.buffer 0) ∧
    (s.exchange.hasReceiver 0 = false → outs 0 path <+: ins 0 path ∧
      ∀ path' s', Path s path' s' → outs 0 path' = []) ∧
    (∀ st, s.Declined st → s.exchange.Untouched (s.apply st).1.exchange 0) ∧
    (∀ s₁ t a, (s₁, Cause.act t a) ∈ path →
      (∀ target m, t.work = .send target m → s.exchange.outcome? t.id ≠ some .sent →
        t.ins 0 a = []) ∧
      (∀ source, t.work = .receive source →
        (∀ m, s.exchange.outcome? t.id ≠ some (.received m)) → t.outs 0 a = [])) ∧
    (∀ past s₁ name future, path = past ++ (s₁, Cause.step (.abort name)) :: future →
      ∀ t ∈ s₁.exchange.tasks, s₁.tasks.lookup name = some t.id →
        s.exchange.outcome? t.id = some .aborted ∧ (∀ p ∈ future, ¬ p.2.By t.id) ∧
        ((∀ l, t.work ≠ .listen l) → ∀ p ∈ past, p.2.By t.id →
          p.2.ins 0 p.1 = [] ∧ p.2.outs 0 p.1 = [])) := by
  have hstart := Sound.start capacity
  have hsound := hstart.path hp
  have hflow := flow_path hp 0
  have hlaw := ins_eq_outs_append hp (c := 0) rfl
  have hlen : 0 < s.exchange.channels.length := (hstart.later hp).length_channels
  refine ⟨length_buffer_le hp, ⟨hflow.accepted, hflow.delivered⟩, fun _ => hlaw, ?_, ?_, ?_, ?_⟩
  · intro hnone
    refine ⟨⟨_, hlaw.symm⟩, ?_⟩
    intro path' s' hp'
    exact hsound.outs_eq_nil hlen hnone hp'
  · exact fun st hst => untouched_of_declined hst 0
  · intro s₁ t a hmem
    refine ⟨?_, ?_⟩
    · intro target m hw hne
      obtain ⟨o, hafter, ho⟩ := outcome_of_act hstart hp hmem (Or.inl ⟨target, m, hw⟩)
      have hsent : a.after ≠ .ends .sent := by
        intro h
        rw [h, After.ends.injEq] at hafter
        exact hne (hafter ▸ ho)
      simp only [Task.ins, hw, if_neg hsent]
    · intro source hw hne
      obtain ⟨o, hafter, ho⟩ := outcome_of_act hstart hp hmem (Or.inr ⟨source, hw⟩)
      simp only [Task.outs, hw, hafter]
      split
      · rename_i heq
        obtain rfl := After.ends.inj heq
        exact absurd ho (hne _)
      · rfl
  · rintro past s₁ name future rfl t ht hname
    obtain ⟨haborted, hstill, hidle⟩ := outcome_of_abort hstart hp ht hname
    exact ⟨haborted, hstill, fun hw p hmem hby => hidle hw p hmem hby 0⟩

/-- A queue with one place takes a message; a second one is refused, a third one waits for room and
is aborted, and the first one is received. -/
theorem queue_conserves_full : ∃ path s, Path (Session.start 1) path s ∧
    s.exchange.hasReceiver 0 = true ∧
    ins 0 path = [Message.direct ⟨"a"⟩ [1]] ∧ outs 0 path = [Message.direct ⟨"a"⟩ [1]] ∧
    ins 0 path = outs 0 path ++ s.exchange.buffer 0 ∧
    s.exchange.outcome? 0 = some .aborted := by
  let s₁ := ((Session.start 1).apply (.trySend "p" (.direct ⟨"a"⟩ [1]))).1
  let s₂ := (s₁.apply (.trySend "p" (.direct ⟨"a"⟩ [2]))).1
  let s₃ := (s₂.apply (.send "p" (.direct ⟨"a"⟩ [3]) "w")).1
  let s₄ := (s₃.apply (.abort "w")).1
  have hp : Path (Session.start 1)
      ([(Session.start 1, .step (.trySend "p" (.direct ⟨"a"⟩ [1]))),
        (s₁, .step (.trySend "p" (.direct ⟨"a"⟩ [2]))),
        (s₂, .step (.send "p" (.direct ⟨"a"⟩ [3]) "w"))] ++
        (s₃, .step (.abort "w")) :: [(s₄, .step (.tryReceive "i"))])
      (s₄.apply (.tryReceive "i")).1 :=
    ((((Path.single (.step _)).snoc (.step _)).snoc (.step _)).snoc (.step _)).snoc (.step _)
  obtain ⟨-, -, hlaw, -, -, -, habort⟩ := queue_conserves hp
  have haborted := (habort _ s₃ "w" _ rfl ⟨0, .send 0 (.direct ⟨"a"⟩ [3])⟩ List.mem_cons_self rfl).1
  exact ⟨_, _, hp, rfl, rfl, rfl, hlaw rfl, haborted⟩

end Session
end PeerNode
