import PeerNode.Proofs.Exchange.Flow
import PeerNode.Proofs.Exchange.Rules
import Mathlib.Data.List.Nodup

/-!
# Who holds the ends of a channel

A channel closes for its consumers when its last sender is gone, and for its producers when its
last receiving end is, so what is said about closing rests on who holds an end.  Two facts carry
it.  Moving messages changes nobody's hold on anything (`OnlyMessages`), and a task that acts goes
on with the ends that it held before or gives them all up (`Does.holds_of_goesOn`).

* `OnlyMessages`: changes that move messages and do nothing else.
* `Act.after`, `tasks_perform`: what an act leaves of the tasks; `mem_tasks_perform`,
  `mem_tasks_perform_of_ne`, `mem_tasks_perform_of_goesOn`: which tasks are there then.
* `Tidy`: tasks are numbered apart, and the channels that they work on exist.
* `Tidy.perform`, `Tidy.spawn`, `Tidy.abort`: this is preserved.
-/

namespace PeerNode

/-- A channel without its messages: its capacity and its holders. -/
def Channel.emptied (channel : Channel) : Channel := { channel with buffer := [] }

variable {x y z : Exchange} {t : Task} {a : Act}

namespace Exchange

/-! ## Moving messages -/

/-- No channel holds more messages than it has places. -/
def Fits (x : Exchange) : Prop :=
  ∀ (c : Nat) (channel : Channel), x.channels[c]? = some channel →
    channel.buffer.length ≤ channel.capacity

theorem exists_of_modify {channels : List Channel} {f : Channel → Channel} {c d : Nat}
    {channel : Channel} (h : (channels.modify c f)[d]? = some channel) :
    ∃ ch, channels[d]? = some ch ∧ channel = if c = d then f ch else ch := by
  rw [List.getElem?_modify] at h
  cases hd : channels[d]? with
  | none => simp [hd] at h
  | some ch =>
    refine ⟨ch, rfl, ?_⟩
    rw [hd] at h
    exact (Option.some.inj h).symm

theorem Fits.onChannel {d : Nat} {f : Channel → Channel} (hx : x.Fits)
    (hf : ∀ ch, x.channels[d]? = some ch → ch.buffer.length ≤ ch.capacity →
      (f ch).buffer.length ≤ (f ch).capacity) : (x.onChannel d f).Fits := by
  intro c channel hc
  obtain ⟨ch, hch, rfl⟩ := exists_of_modify hc
  split
  · rename_i hd
    subst hd
    exact hf ch hch (hx d ch hch)
  · exact hx c ch hch

/-- A change that moves messages and does nothing else. -/
structure OnlyMessages (x y : Exchange) : Prop where
  tasks : y.tasks = x.tasks
  moment : y.moment = x.moment
  cancelled : y.cancelled = x.cancelled
  clock : y.clock = x.clock
  outcome : ∀ id, y.outcome? id = x.outcome? id
  channels : y.channels.map Channel.emptied = x.channels.map Channel.emptied
  fits : x.Fits → y.Fits

namespace OnlyMessages

theorem refl (x : Exchange) : OnlyMessages x x := ⟨rfl, rfl, rfl, rfl, fun _ => rfl, rfl, id⟩

theorem trans (h : OnlyMessages x y) (h' : OnlyMessages y z) : OnlyMessages x z :=
  ⟨h'.tasks.trans h.tasks, h'.moment.trans h.moment, h'.cancelled.trans h.cancelled,
    h'.clock.trans h.clock, fun id => (h'.outcome id).trans (h.outcome id),
    h'.channels.trans h.channels, fun hx => h'.fits (h.fits hx)⟩

theorem length_channels (h : OnlyMessages x y) : y.channels.length = x.channels.length := by
  have := congrArg List.length h.channels
  simpa using this

theorem of_modify {d : Nat} {f : Channel → Channel} (h : y.channels = x.channels.modify d f)
    (ht : y.tasks = x.tasks) (hm : y.moment = x.moment) (hc : y.cancelled = x.cancelled)
    (hk : y.clock = x.clock) (ho : ∀ id, y.outcome? id = x.outcome? id)
    (hf : ∀ ch, (f ch).emptied = ch.emptied)
    (hfits : ∀ ch, x.channels[d]? = some ch → ch.buffer.length ≤ ch.capacity →
      (f ch).buffer.length ≤ (f ch).capacity) : OnlyMessages x y := by
  refine ⟨ht, hm, hc, hk, ho, ?_, ?_⟩
  · rw [h]
    apply List.ext_getElem?
    intro c
    simp only [List.getElem?_map, List.getElem?_modify]
    cases x.channels[c]? with
    | none => rfl
    | some ch => by_cases hd : d = c <;> simp [hd, hf]
  · intro hx c channel hget
    rw [h] at hget
    exact hx.onChannel hfits c channel hget

theorem push {d : Nat} {m : Message} (h : (x.push d m).channels = y.channels)
    (ht : y.tasks = x.tasks) (hm : y.moment = x.moment) (hc : y.cancelled = x.cancelled)
    (hk : y.clock = x.clock) (ho : ∀ id, y.outcome? id = x.outcome? id)
    (hroom : 0 < x.room d) : OnlyMessages x y := by
  refine of_modify h.symm ht hm hc hk ho (fun _ => rfl) ?_
  intro ch hch _
  simp only [room, hch] at hroom
  simp only [List.length_append, List.length_singleton]
  omega

theorem pull {d : Nat} {m : Message} (h : (x.pull d m).channels = y.channels)
    (ht : y.tasks = x.tasks) (hm : y.moment = x.moment) (hc : y.cancelled = x.cancelled)
    (hk : y.clock = x.clock) (ho : ∀ id, y.outcome? id = x.outcome? id) : OnlyMessages x y := by
  refine of_modify h.symm ht hm hc hk ho (fun _ => rfl) ?_
  intro ch _ hle
  simp only [List.length_tail]
  omega

end OnlyMessages

theorem onlyMessages_trySend (x : Exchange) (d : Nat) (m : Message) :
    OnlyMessages x (x.trySend d m).1 := by
  rcases trySend_cases x d m with ⟨-, h⟩ | ⟨-, hf, h⟩ | ⟨-, -, h⟩ <;> rw [h]
  · exact .refl x
  · exact .push rfl rfl rfl rfl rfl (fun _ => rfl) (room_pos_of_free_pos hf)
  · exact .refl x

theorem onlyMessages_offer (x : Exchange) (d : Nat) (m : Message) :
    OnlyMessages x (x.offer d m).1 := by
  rw [offer_eq]
  exact onlyMessages_trySend x d m

theorem onlyMessages_tryReceive (x : Exchange) (d : Nat) :
    OnlyMessages x (x.tryReceive d).1 := by
  rcases tryReceive_cases x d with ⟨m, ms, -, h⟩ | ⟨f, -, h⟩ <;> rw [h]
  · exact .pull (m := m) rfl rfl rfl rfl rfl fun _ => rfl
  · exact .refl x

theorem onlyMessages_drainFrom (x : Exchange) (d fuel : Nat) :
    OnlyMessages x (x.drainFrom d fuel).1 := by
  induction fuel generalizing x with
  | zero => exact .refl x
  | succ fuel ih =>
    unfold drainFrom
    have hfirst := onlyMessages_tryReceive x d
    generalize x.tryReceive d = r at hfirst
    obtain ⟨y, f⟩ := r
    cases f with
    | message m => exact hfirst.trans (ih y)
    | nothing => exact hfirst
    | closed => exact hfirst

theorem onlyMessages_sendAll (x : Exchange) (d count : Nat) (last : Option (SendResult ⊕ Bool))
    (ms : List Message) : OnlyMessages x (Session.sendAll x d count last ms).1 := by
  induction ms generalizing x count last with
  | nil => exact .refl x
  | cons m ms ih =>
    unfold Session.sendAll
    have hfirst := onlyMessages_trySend x d m
    generalize x.trySend d m = r at hfirst
    obtain ⟨y, r⟩ := r
    cases r with
    | ok => exact hfirst.trans (ih y (count + 1) _)
    | full => exact hfirst
    | closed => exact hfirst

theorem onlyMessages_offerAll (x : Exchange) (d count : Nat)
    (last : Option (SendResult ⊕ Bool)) (ms : List Message) :
    OnlyMessages x (Session.offerAll x d count last ms).1 := by
  induction ms generalizing x count last with
  | nil => exact .refl x
  | cons m ms ih =>
    unfold Session.offerAll
    exact (onlyMessages_offer x d m).trans (ih _ _ _)

end Exchange

/-! ## What an act leaves -/

/-- What becomes of the task that acts. -/
def Act.after : Act → After
  | .alone after | .push _ _ after | .pull _ _ after => after

/-- What is left of a task. -/
def After.rest (id : Nat) : After → List Task
  | goesOn w => [⟨id, w⟩]
  | ends _ => []

namespace Exchange

/-- Whoever acts goes behind the others, or is gone. -/
theorem tasks_perform (x : Exchange) (t : Task) (a : Act) :
    (x.perform t a).tasks = x.tasks.erase t ++ a.after.rest t.id := by
  cases a with
  | alone after =>
    cases after <;> simp [perform, conclude, record, without, tick, Act.after, After.rest]
  | push d m after =>
    cases after <;>
      simp [perform, conclude, push, record, onChannel, without, tick, Act.after, After.rest]
  | pull d m after =>
    cases after <;>
      simp [perform, conclude, pull, record, onChannel, without, tick, Act.after, After.rest]

/-- A task after an act was one before and did not act, or is the one that acted. -/
theorem mem_tasks_perform {u : Task} (hu : u ∈ (x.perform t a).tasks) :
    u ∈ x.tasks.erase t ∨ ∃ w, a.after = .goesOn w ∧ u = ⟨t.id, w⟩ := by
  rw [tasks_perform, List.mem_append] at hu
  refine hu.imp_right fun hu => ?_
  cases ha : a.after with
  | goesOn w =>
    rw [ha] at hu
    exact ⟨w, rfl, List.mem_singleton.1 hu⟩
  | ends o =>
    rw [ha] at hu
    cases hu

/-- A task that does not act stays. -/
theorem mem_tasks_perform_of_ne {u : Task} (hu : u ∈ x.tasks) (hne : u ≠ t) (a : Act) :
    u ∈ (x.perform t a).tasks := by
  rw [tasks_perform]
  exact List.mem_append_left _ ((List.mem_erase_of_ne hne).2 hu)

/-- A task that acts and goes on is there with the work that is left. -/
theorem mem_tasks_perform_of_goesOn {w : Work} (x : Exchange) (t : Task)
    (ha : a.after = .goesOn w) : ⟨t.id, w⟩ ∈ (x.perform t a).tasks := by
  rw [tasks_perform, ha]
  exact List.mem_append_right _ (List.mem_singleton_self _)

@[simp] theorem channels_conclude (x : Exchange) (id : Nat) (after : After) :
    (x.conclude id after).channels = x.channels := by
  cases after <;> rfl

@[simp] theorem moment_conclude (x : Exchange) (id : Nat) (after : After) :
    (x.conclude id after).moment = x.moment := by
  cases after <;> rfl

@[simp] theorem clock_conclude (x : Exchange) (id : Nat) (after : After) :
    (x.conclude id after).clock = x.clock := by
  cases after <;> rfl

@[simp] theorem cancelled_conclude (x : Exchange) (id : Nat) (after : After) :
    (x.conclude id after).cancelled = x.cancelled := by
  cases after <;> rfl

theorem outcome_conclude_of_ne (x : Exchange) {id k : Nat} (h : k ≠ id) (after : After) :
    (x.conclude id after).outcome? k = x.outcome? k := by
  cases after with
  | goesOn w => rfl
  | ends o => simp [outcome?, conclude, record, h.symm]

theorem outcome_conclude_ends (x : Exchange) (id : Nat) (o : Outcome) :
    (x.conclude id (.ends o)).outcome? id = some o := by
  simp [outcome?, conclude, record]

/-- **What an abort does.**  It does nothing if the task has ended before. -/
theorem abort_cases (x : Exchange) (id : Nat) :
    (∃ t ∈ x.tasks, t.id = id ∧
      x.abort id = (x.without t).conclude t.id (.ends .aborted)) ∨ x.abort id = x := by
  unfold abort
  split
  · rename_i t hfind
    have hid : t.id = id := by simpa using List.find?_some hfind
    exact Or.inl ⟨t, List.mem_of_find?_eq_some hfind, hid, by rw [hid]⟩
  · exact Or.inr rfl

theorem outcome_abort (ht : t ∈ x.tasks) : (x.abort t.id).outcome? t.id = some .aborted := by
  unfold abort
  split
  · exact outcome_conclude_ends _ _ _
  · rename_i hfind
    simpa using List.find?_eq_none.1 hfind t ht

/-- **A task that goes on holds the ends that it held.** -/
theorem Does.holds_of_goesOn {w : Work} (h : x.Does t a) (ha : a.after = .goesOn w) (c : Nat) :
    w.holdsSender c = t.work.holdsSender c ∧ w.holdsReceiver c = t.work.holdsReceiver c := by
  cases h <;> simp only [Act.after, After.goesOn.injEq, reduceCtorEq] at ha <;> subst ha <;>
    simp_all [Work.holdsSender, Work.holdsReceiver, Handler.offering]

theorem Does.holdsSender_of_ins (h : x.Does t a) {c : Nat} (hne : a.ins c ≠ []) :
    t.work.holdsSender c = true := by
  cases h with
  | sent hw | forwarded hw | handed hw =>
    obtain rfl := eq_of_inChannel_ne_nil hne
    rw [hw]
    exact beq_self_eq_true _
  | _ => exact absurd rfl hne

theorem Does.holdsReceiver_of_outs (h : x.Does t a) {c : Nat} (hne : a.outs c ≠ []) :
    t.work.holdsReceiver c = true := by
  cases h with
  | received hw | taken hw =>
    obtain rfl := eq_of_inChannel_ne_nil hne
    rw [hw]
    exact beq_self_eq_true _
  | _ => exact absurd rfl hne

/-- What a task may do can be carried out. -/
theorem Does.feasible (h : x.Does t a) : x.Feasible a := by
  have hroom : ∀ c, x.mayPush t c = true → 0 < x.room c := by
    intro c hp
    simp only [mayPush, decide_eq_true_eq] at hp
    omega
  cases h with
  | sent _ _ hp => exact hroom _ hp
  | forwarded _ _ _ _ hp => exact hroom _ hp
  | handed _ _ _ _ hp => exact hroom _ hp
  | received _ _ hb => exact ⟨_, hb⟩
  | taken _ _ _ hb => exact ⟨_, hb⟩
  | _ => trivial

/-- Apart from the messages that it moves, an act only changes the tasks and, if it ends one, what
is recorded of it. -/
theorem Does.onlyMessages_perform (h : x.Does t a) :
    OnlyMessages ((x.without t).tick.conclude t.id a.after) (x.perform t a) := by
  have hfeasible := h.feasible
  cases a with
  | alone after => exact .refl _
  | push d m after =>
    cases after <;> exact .push rfl rfl rfl rfl rfl (fun _ => rfl) hfeasible
  | pull d m after =>
    cases after <;> exact .pull (m := m) rfl rfl rfl rfl rfl fun _ => rfl

theorem Does.outcome_perform_of_ne (h : x.Does t a) {id : Nat} (hid : id ≠ t.id) :
    (x.perform t a).outcome? id = x.outcome? id := by
  rw [h.onlyMessages_perform.outcome, outcome_conclude_of_ne _ hid]
  rfl

theorem Does.outcome_perform_of_ends {o : Outcome} (h : x.Does t a) (ha : a.after = .ends o) :
    (x.perform t a).outcome? t.id = some o := by
  rw [h.onlyMessages_perform.outcome, ha, outcome_conclude_ends]

theorem Does.outcome_perform_of_goesOn {w : Work} (h : x.Does t a) (ha : a.after = .goesOn w)
    (id : Nat) : (x.perform t a).outcome? id = x.outcome? id := by
  rw [h.onlyMessages_perform.outcome, ha]
  rfl

/-! ## Tasks are told apart -/

/-- The tasks of an exchange are numbered apart, the channels that they work on exist, and what
has ended is gone. -/
structure Tidy (x : Exchange) : Prop where
  distinct : (x.tasks.map (·.id)).Nodup
  numbered : ∀ t ∈ x.tasks, t.id < x.moment
  known : ∀ t ∈ x.tasks, ∀ c, t.work.holdsSender c = true ∨ t.work.holdsReceiver c = true →
    c < x.channels.length
  ended : ∀ id o, x.outcome? id = some o → id < x.moment ∧ ∀ t ∈ x.tasks, t.id ≠ id

namespace Tidy

theorem eq_of_id_eq (hx : x.Tidy) {u : Task} (ht : t ∈ x.tasks) (hu : u ∈ x.tasks)
    (h : t.id = u.id) : t = u :=
  List.inj_on_of_nodup_map hx.distinct ht hu h

theorem id_ne_of_mem_erase (hx : x.Tidy) (ht : t ∈ x.tasks) {u : Task}
    (hu : u ∈ x.tasks.erase t) : u.id ≠ t.id := by
  have hperm : (x.tasks.map (·.id)).Perm (t.id :: (x.tasks.erase t).map (·.id)) :=
    (List.perm_cons_erase ht).map (·.id)
  have hnodup := List.nodup_cons.1 (hperm.nodup_iff.1 hx.distinct)
  exact fun he => hnodup.1 (List.mem_map.2 ⟨u, hu, he⟩)

theorem outcome_eq_none (hx : x.Tidy) (ht : t ∈ x.tasks) : x.outcome? t.id = none := by
  cases ho : x.outcome? t.id with
  | none => rfl
  | some o => exact absurd rfl ((hx.ended t.id o ho).2 t ht)

theorem of_le (hx : x.Tidy) (ht : y.tasks = x.tasks) (hm : x.moment ≤ y.moment)
    (hc : x.channels.length ≤ y.channels.length)
    (ho : ∀ id, y.outcome? id = x.outcome? id) : y.Tidy := by
  refine ⟨by rw [ht]; exact hx.distinct, ?_, ?_, ?_⟩
  · intro t hmem
    rw [ht] at hmem
    exact Nat.lt_of_lt_of_le (hx.numbered t hmem) hm
  · intro t hmem c hheld
    rw [ht] at hmem
    exact Nat.lt_of_lt_of_le (hx.known t hmem c hheld) hc
  · intro id o hout
    rw [ho] at hout
    rw [ht]
    exact ⟨Nat.lt_of_lt_of_le (hx.ended id o hout).1 hm, (hx.ended id o hout).2⟩

theorem onChannel (hx : x.Tidy) (c : Nat) (f : Channel → Channel) : (x.onChannel c f).Tidy :=
  hx.of_le (y := x.onChannel c f) rfl (Nat.le_refl _) (by simp [Exchange.onChannel]) fun _ => rfl

theorem onlyMessages (hx : x.Tidy) (h : OnlyMessages x y) : y.Tidy :=
  hx.of_le h.tasks (Nat.le_of_eq h.moment.symm) (Nat.le_of_eq h.length_channels.symm) h.outcome

/-- A new task gets a new number. -/
theorem spawn (hx : x.Tidy) {w : Work}
    (hw : ∀ c, w.holdsSender c = true ∨ w.holdsReceiver c = true → c < x.channels.length) :
    (x.spawn w).1.Tidy := by
  have hmem : ∀ t ∈ (x.spawn w).1.tasks, t ∈ x.tasks ∨ t = ⟨x.moment, w⟩ := by
    intro t ht
    rcases List.mem_append.1 ht with ht | ht
    · exact Or.inl ht
    · exact Or.inr (List.mem_singleton.1 ht)
  refine ⟨?_, ?_, ?_, ?_⟩
  · simp only [Exchange.spawn, List.map_append, List.map_cons, List.map_nil]
    rw [List.nodup_append]
    refine ⟨hx.distinct, List.nodup_singleton _, ?_⟩
    intro n hn k hk hnk
    obtain ⟨t, ht, rfl⟩ := List.mem_map.1 hn
    rw [List.mem_singleton] at hk
    exact absurd (hx.numbered t ht) (by omega)
  · intro t ht
    rcases hmem t ht with ht | rfl
    · exact Nat.lt_succ_of_lt (hx.numbered t ht)
    · exact Nat.lt_succ_self _
  · intro t ht c hc
    rcases hmem t ht with ht | rfl
    · exact hx.known t ht c hc
    · exact hw c hc
  · intro id o hout
    obtain ⟨hlt, hgone⟩ := hx.ended id o hout
    refine ⟨Nat.lt_succ_of_lt hlt, ?_⟩
    intro t ht
    rcases hmem t ht with ht | rfl
    · exact hgone t ht
    · exact Nat.ne_of_gt hlt

/-- The tasks of which one is gone. -/
theorem of_erase (hx : x.Tidy) (ht : t ∈ x.tasks) (hy : y.tasks = x.tasks.erase t)
    (hm : x.moment ≤ y.moment) (hc : x.channels.length = y.channels.length)
    (ho : ∀ id, id ≠ t.id → y.outcome? id = x.outcome? id) : y.Tidy := by
  have hdistinct : ((x.tasks.erase t).map (·.id)).Nodup :=
    hx.distinct.sublist (List.erase_sublist.map _)
  refine ⟨by rw [hy]; exact hdistinct, ?_, ?_, ?_⟩
  · intro u hu
    rw [hy] at hu
    exact Nat.lt_of_lt_of_le (hx.numbered u (List.mem_of_mem_erase hu)) hm
  · intro u hu c hheld
    rw [hy] at hu
    rw [← hc]
    exact hx.known u (List.mem_of_mem_erase hu) c hheld
  · intro id o hout
    by_cases hid : id = t.id
    · subst hid
      refine ⟨Nat.lt_of_lt_of_le (hx.numbered t ht) hm, ?_⟩
      intro u hu
      rw [hy] at hu
      exact hx.id_ne_of_mem_erase ht hu
    · rw [ho id hid] at hout
      refine ⟨Nat.lt_of_lt_of_le (hx.ended id o hout).1 hm, ?_⟩
      intro u hu
      rw [hy] at hu
      exact (hx.ended id o hout).2 u (List.mem_of_mem_erase hu)

/-- The tasks of which one comes back with other work, for which it holds the same ends. -/
theorem of_replace (hx : x.Tidy) (ht : t ∈ x.tasks) {w : Work}
    (hw : ∀ c, w.holdsSender c = t.work.holdsSender c ∧
      w.holdsReceiver c = t.work.holdsReceiver c)
    (hy : y.tasks = x.tasks.erase t ++ [⟨t.id, w⟩]) (hm : x.moment ≤ y.moment)
    (hc : x.channels.length = y.channels.length)
    (ho : ∀ id, y.outcome? id = x.outcome? id) : y.Tidy := by
  have hperm : (x.tasks.map (·.id)).Perm (y.tasks.map (·.id)) := by
    rw [hy, List.map_append]
    exact ((List.perm_cons_erase ht).map (·.id)).trans (List.perm_append_singleton _ _).symm
  have hmem : ∀ u ∈ y.tasks, u ∈ x.tasks ∨ u = ⟨t.id, w⟩ := by
    intro u hu
    rw [hy, List.mem_append, List.mem_singleton] at hu
    exact hu.imp_left List.mem_of_mem_erase
  refine ⟨hperm.nodup_iff.1 hx.distinct, ?_, ?_, ?_⟩
  · intro u hu
    rcases hmem u hu with hu | rfl
    · exact Nat.lt_of_lt_of_le (hx.numbered u hu) hm
    · exact Nat.lt_of_lt_of_le (hx.numbered t ht) hm
  · intro u hu c hheld
    rw [← hc]
    rcases hmem u hu with hu | rfl
    · exact hx.known u hu c hheld
    · simp only [hw c] at hheld
      exact hx.known t ht c hheld
  · intro id o hout
    rw [ho] at hout
    obtain ⟨hlt, hgone⟩ := hx.ended id o hout
    refine ⟨Nat.lt_of_lt_of_le hlt hm, ?_⟩
    intro u hu
    rcases hmem u hu with hu | rfl
    · exact hgone u hu
    · exact hgone t ht

theorem perform (hx : x.Tidy) (ht : t ∈ x.tasks) (h : x.Does t a) : (x.perform t a).Tidy := by
  have hlen : x.channels.length = (x.perform t a).channels.length := by
    rw [h.onlyMessages_perform.length_channels, channels_conclude]
    rfl
  have hmoment : x.moment ≤ (x.perform t a).moment := by
    rw [h.onlyMessages_perform.moment, moment_conclude]
    exact Nat.le_succ _
  have htasks := tasks_perform x t a
  cases ha : a.after with
  | goesOn w =>
    rw [ha] at htasks
    exact hx.of_replace ht (h.holds_of_goesOn ha) htasks hmoment hlen
      (h.outcome_perform_of_goesOn ha)
  | ends o =>
    rw [ha] at htasks
    exact hx.of_erase ht (htasks.trans (List.append_nil _)) hmoment hlen
      fun id hid => h.outcome_perform_of_ne hid

theorem abort (hx : x.Tidy) (id : Nat) : (x.abort id).Tidy := by
  rcases abort_cases x id with ⟨t, ht, -, h⟩ | h
  · rw [h]
    exact hx.of_erase ht rfl (Nat.le_refl _) rfl fun k hk => outcome_conclude_of_ne _ hk _
  · rw [h]
    exact hx

end Tidy
end Exchange
end PeerNode
