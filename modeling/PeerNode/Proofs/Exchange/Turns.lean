import PeerNode.Proofs.Session.Cancellation
import Mathlib.Data.List.Chain

/-!
# Whose turn it is

Of the tasks that wait for the same thing the one that began first stands first, and in this order
they go ahead.  For consumers a single act shows it: none may take a message but the first.  For
producers it does not.  A channel with room for two messages would take the second one's as well
as the first one's, so it is the order in which tasks get to act that has to be right.

That order is kept in a line, which is rearranged whenever a task has acted.  Two tasks that wait
for room keep their order in it for three reasons.  Whenever the later one can act the earlier one
can (`exists_does_of_before`); those that have just become able to act join the line in the order
in which they stand among the tasks, since no timer wakes them (`sublist_schedule`); and a task
rests only when it has moved a message, after which it waits for no room.  One exception has to be
carried along: a task that has begun to wait by its own act keeps its place at the head of the line
(`InLine.newcomer`).  It may then find room beside all who wait, and put its message in without
having waited for anybody's act.

* `Exchange.waiting`, `Exchange.Passes`: who waits for the same thing, and how this changes.
* `Does.of_wantsRoom`, `exists_does_of_before`: what those do who wait for room, and when.
* `settlingFrom`, `settling`: the acts by which tasks act until none can.
* `InLine`, `InLine.next`: what is kept along them.
* `InTurn`, `isChain_settling`: **whoever has waited for an act is first when its message goes in.**
-/

namespace PeerNode

variable {x y z : Exchange} {t u : Task} {a b : Act} {c : Nat} {kind : Work → Bool}

/-- **Who waits for room**: a send, a listener that has begun to wait with its message, and a
handler that has read its message. -/
theorem Work.wantsRoom_iff {w : Work} : w.wantsRoom c = true ↔
    (∃ m, w = .send c m) ∨
    (∃ l m, w = .listen l ∧ l.target = c ∧ l.held = some m ∧ l.queued = true) ∨
    (∃ h m, w = .handle h ∧ h.target = c ∧ h.stage = .enqueuing m) := by
  cases w with
  | send target m => simp [wantsRoom, offered?]
  | receive source => simp [wantsRoom, offered?]
  | listen l =>
    cases hm : l.held <;> cases hq : l.queued <;> simp [wantsRoom, offered?, hm, hq]
  | handle h => cases hst : h.stage <;> simp [wantsRoom, offered?, hst]

theorem Work.holdsSender_of_wantsRoom {w : Work} (h : w.wantsRoom c = true) :
    w.holdsSender c = true := by
  rcases wantsRoom_iff.1 h with ⟨m, rfl⟩ | ⟨l, m, rfl, rfl, -⟩ | ⟨hd, m, rfl, rfl, -⟩ <;>
    exact beq_self_eq_true _

namespace Exchange

/-! ## Who waits for the same thing -/

/-- The tasks with a kind of work, the one that has waited longest first. -/
def waiting (x : Exchange) (kind : Work → Bool) : List Task := x.tasks.filter (kind ·.work)

/-- How those who wait change from one moment to the next: some leave, and others join them at the
end. -/
def Passes (before after : List Task) : Prop :=
  ∃ kept new, after = kept ++ new ∧ kept.Sublist before ∧ ∀ t ∈ new, t ∉ before

theorem mem_waiting : t ∈ x.waiting kind ↔ t ∈ x.tasks ∧ kind t.work = true := List.mem_filter

theorem Tidy.nodup_waiting (hx : x.Tidy) : ((x.waiting kind).map (·.id)).Nodup :=
  hx.distinct.sublist (List.filter_sublist.map _)

/-- Who waits after an act: all who did before, but for the one that acted, who may have begun to
wait. -/
theorem waiting_perform (x : Exchange) (t : Task) (a : Act) : (x.perform t a).waiting kind =
    (x.waiting kind).erase t ++ (a.after.rest t.id).filter (kind ·.work) := by
  rw [waiting, tasks_perform, List.filter_append, ← List.erase_filter]
  rfl

theorem mem_rest {id : Nat} {after : After} {v : Task}
    (hv : v ∈ (after.rest id).filter (kind ·.work)) :
    ∃ w, after = .goesOn w ∧ kind w = true ∧ v = ⟨id, w⟩ := by
  obtain ⟨hv, hk⟩ := List.mem_filter.1 hv
  cases after with
  | goesOn w =>
    obtain rfl := List.mem_singleton.1 hv
    exact ⟨w, rfl, hk, rfl⟩
  | ends o => cases hv

/-- Of two who stand in a row the second of whom does not come from the end, neither does the
first. -/
theorem sublist_of_notMem {u v : Task} {kept new : List Task}
    (h : [u, v].Sublist (kept ++ new)) (hv : v ∉ new) : [u, v].Sublist kept := by
  obtain ⟨l₁, l₂, hsplit, h₁, h₂⟩ := List.sublist_append_iff.1 h
  rcases l₁ with _ | ⟨p, _ | ⟨q, l₁⟩⟩
  · rw [List.nil_append] at hsplit
    exact absurd (h₂.subset (hsplit ▸ by simp)) hv
  · rw [List.singleton_append, List.cons.injEq] at hsplit
    exact absurd (h₂.subset (hsplit.2 ▸ by simp)) hv
  · simp only [List.cons_append, List.cons.injEq, List.nil_eq_append_iff] at hsplit
    obtain ⟨rfl, rfl, rfl, -⟩ := hsplit
    exact h₁

/-- Whether nobody whose work is of a kind goes on with such work when he acts. -/
def Momentary (kind : Work → Bool) : Prop :=
  ∀ ⦃x : Exchange⦄ ⦃t : Task⦄ ⦃a : Act⦄ ⦃w : Work⦄, x.Does t a → kind t.work = true →
    a.after = .goesOn w → kind w = false

theorem notMem_of_mem_rest (hkind : Momentary kind) (hx : x.Tidy) (ht : t ∈ x.tasks)
    (ha : x.Does t a) {v : Task} (hv : v ∈ (a.after.rest t.id).filter (kind ·.work)) :
    v ∉ x.waiting kind := by
  intro hold
  obtain ⟨w, hafter, hk, heq⟩ := mem_rest hv
  obtain ⟨hvt, hvk⟩ := mem_waiting.1 hold
  have hsame : v = t := hx.eq_of_id_eq hvt ht (by rw [heq])
  have hgone := hkind ha (hsame ▸ hvk) hafter
  exact Bool.false_ne_true (hgone.symm.trans hk)

theorem passes_perform (hkind : Momentary kind) (hx : x.Tidy) (ht : t ∈ x.tasks)
    (ha : x.Does t a) : Passes (x.waiting kind) ((x.perform t a).waiting kind) :=
  ⟨_, _, waiting_perform x t a, List.erase_sublist,
    fun _ hv => notMem_of_mem_rest hkind hx ht ha hv⟩

/-- **Two who wait after an act, the later of whom waited before, have both done so.** -/
theorem sublist_of_perform (hkind : Momentary kind) (hx : x.Tidy) (ht : t ∈ x.tasks)
    (ha : x.Does t a) {u v : Task} (h : [u, v].Sublist ((x.perform t a).waiting kind))
    (hv : v ∈ x.waiting kind) :
    [u, v].Sublist (x.waiting kind) ∧ u.id ≠ t.id ∧ v.id ≠ t.id := by
  rw [waiting_perform] at h
  have hkept := sublist_of_notMem h fun hnew => notMem_of_mem_rest hkind hx ht ha hnew hv
  have hne : ∀ p ∈ (x.waiting kind).erase t, p.id ≠ t.id := by
    intro p hp
    rw [waiting, List.erase_filter] at hp
    exact hx.id_ne_of_mem_erase ht (List.mem_of_mem_filter hp)
  exact ⟨hkept.trans List.erase_sublist, hne u (hkept.subset (by simp)),
    hne v (hkept.subset (by simp))⟩

/-! ## Those who wait for room -/

def Revoked (x : Exchange) (t : Task) : Prop :=
  ∃ token, t.work.token? = some token ∧ x.isCancelled token = true

/-- **What those do who wait for room.**  They give up because they are cancelled or because nobody
would receive their message, or they put it in. -/
theorem Does.of_wantsRoom (ha : x.Does t a) (hwants : t.work.wantsRoom c = true) :
    ((∃ o, a = .alone (.ends o)) ∧ (x.Revoked t ∨ x.hasReceiver c = false)) ∨
    ((∃ m, t.work.offered? = some (c, m) ∧ a = .push c m a.after) ∧ ¬ x.Revoked t ∧
      x.hasReceiver c = true ∧ x.mayPush t c = true ∧
      ∀ w, a.after = .goesOn w → ∀ d, w.wantsRoom d = false) := by
  rcases Work.wantsRoom_iff.1 hwants with ⟨m, hw⟩ | ⟨l, m, hw, rfl, hm, hq⟩ | ⟨h, m, hw, rfl, hst⟩
  · have hfree : ¬ x.Revoked t := by
      rintro ⟨token, htoken, -⟩
      rw [hw] at htoken
      cases htoken
    cases ha with
    | sendClosed hw' hr =>
      obtain ⟨rfl, rfl⟩ := Work.send.inj (hw.symm.trans hw')
      exact Or.inl ⟨⟨_, rfl⟩, Or.inr hr⟩
    | sent hw' hr hp =>
      obtain ⟨rfl, rfl⟩ := Work.send.inj (hw.symm.trans hw')
      exact Or.inr ⟨⟨m, by rw [hw]; rfl, rfl⟩, hfree, hr, hp, fun w hafter => by cases hafter⟩
    | _ => simp_all
  · have hrevoked : x.Revoked t ↔ x.isCancelled l.token = true := by
      simp [Revoked, hw, Work.token?]
    cases ha with
    | listenerCancelled hw' hc =>
      obtain rfl := Work.listen.inj (hw.symm.trans hw')
      exact Or.inl ⟨⟨_, rfl⟩, Or.inl (hrevoked.2 hc)⟩
    | listenerUnheard hw' hc hm' hr =>
      obtain rfl := Work.listen.inj (hw.symm.trans hw')
      exact Or.inl ⟨⟨_, rfl⟩, Or.inr hr⟩
    | forwarded hw' hc hm' hr hp =>
      obtain rfl := Work.listen.inj (hw.symm.trans hw')
      refine Or.inr ⟨⟨_, by simp [hw, Work.offered?, hm', hq], rfl⟩,
        by rw [hrevoked, hc]; exact Bool.false_ne_true, hr, hp, ?_⟩
      intro w hafter d
      obtain rfl := After.goesOn.inj hafter
      rfl
    | _ => simp_all
  · have hrevoked : x.Revoked t ↔ x.isCancelled h.token = true := by
      simp [Revoked, hw, Work.token?]
    cases ha with
    | released hw' hst' hc =>
      obtain rfl := Work.handle.inj (hw.symm.trans hw')
      refine Or.inl ⟨⟨_, rfl⟩, ?_⟩
      rw [Bool.or_eq_true, Bool.not_eq_true'] at hc
      exact hc.imp_left hrevoked.2
    | handed hw' hst' hc hr hp =>
      obtain rfl := Work.handle.inj (hw.symm.trans hw')
      refine Or.inr ⟨⟨_, by simp [hw, Work.offered?, hst'], rfl⟩,
        by rw [hrevoked, hc]; exact Bool.false_ne_true, hr, hp, ?_⟩
      intro w hafter
      cases hafter
    | _ => simp_all

theorem momentary_wantsRoom (c : Nat) : Momentary (Work.wantsRoom c) := by
  intro x t a w ha hw hafter
  rcases ha.of_wantsRoom hw with ⟨⟨o, rfl⟩, -⟩ | ⟨-, -, -, -, hgone⟩
  · cases hafter
  · exact hgone w hafter c

/-- **Who waits for room can act once there is some or nobody would receive his message.** -/
theorem exists_does_of_wantsRoom (hwants : t.work.wantsRoom c = true)
    (h : x.hasReceiver c = false ∨ x.mayPush t c = true) : ∃ a, x.Does t a := by
  have h : x.hasReceiver c = false ∨ x.hasReceiver c = true ∧ x.mayPush t c = true := by
    cases hr : x.hasReceiver c with
    | false => exact Or.inl rfl
    | true => exact Or.inr ⟨rfl, h.resolve_left (by rw [hr]; exact Bool.noConfusion)⟩
  rcases Work.wantsRoom_iff.1 hwants with
    ⟨m, hw⟩ | ⟨l, m, hw, rfl, hm, -⟩ | ⟨h', m, hw, rfl, hst⟩
  · rcases h with hr | ⟨hr, hp⟩
    · exact ⟨_, .sendClosed hw hr⟩
    · exact ⟨_, .sent hw hr hp⟩
  · cases hc : x.isCancelled l.token with
    | true => exact ⟨_, .listenerCancelled hw hc⟩
    | false =>
      rcases h with hr | ⟨hr, hp⟩
      · exact ⟨_, .listenerUnheard hw hc hm hr⟩
      · exact ⟨_, .forwarded hw hc hm hr hp⟩
  · cases hc : x.isCancelled h'.token with
    | true => exact ⟨_, .released hw hst (by rw [hc]; rfl)⟩
    | false =>
      rcases h with hr | ⟨hr, hp⟩
      · exact ⟨_, .released hw hst (by rw [hr, hc]; rfl)⟩
      · exact ⟨_, .handed hw hst hc hr hp⟩

/-- Before the earlier of two in a row stand no more than before the later. -/
theorem length_takeWhile_le {l : List Task} (hl : (l.map (·.id)).Nodup)
    (h : [u, t].Sublist l) :
    (l.takeWhile (·.id != u.id)).length ≤ (l.takeWhile (·.id != t.id)).length := by
  induction l with
  | nil => exact absurd h (by simp)
  | cons v l ih =>
    rw [List.map_cons, List.nodup_cons] at hl
    by_cases hv : v.id = u.id
    · simp [hv]
    · have h : [u, t].Sublist l := by
        cases h with
        | cons _ h => exact h
        | cons_cons => exact absurd rfl hv
      have ht : v.id ≠ t.id := fun he =>
        hl.1 (he ▸ List.mem_map_of_mem (h.subset (by simp)))
      rw [List.takeWhile_cons_of_pos (by simpa using hv),
        List.takeWhile_cons_of_pos (by simpa using ht)]
      exact Nat.succ_le_succ (ih hl.2 h)

/-- **Whoever has waited longer can act if the other can**, unless that one can because it is
cancelled. -/
theorem exists_does_of_before (hx : x.Tidy) (h : [u, t].Sublist (x.waiting (Work.wantsRoom c)))
    (ha : x.Does t a) (hfree : ¬ x.Revoked t) : ∃ b, x.Does u b := by
  have hu := (mem_waiting.1 (h.subset List.mem_cons_self)).2
  have ht := (mem_waiting.1 (h.subset (by simp : t ∈ [u, t]))).2
  refine exists_does_of_wantsRoom hu ?_
  rcases ha.of_wantsRoom ht with ⟨-, hgone⟩ | ⟨-, -, -, hp, -⟩
  · exact Or.inl (hgone.resolve_left hfree)
  · refine Or.inr ?_
    have hle := length_takeWhile_le hx.nodup_waiting h
    simp only [mayPush, decide_eq_true_eq] at hp ⊢
    exact Nat.lt_of_le_of_lt hle hp

/-! ## The line -/

theorem timer_le_iff {d e : Timer} :
    d.le e = true ↔ d.due < e.due ∨ d.due = e.due ∧ d.since ≤ e.since := by
  simp [Timer.le]

theorem mayPrecede_trans {t u v : Task} (h : x.mayPrecede t u = true)
    (h' : x.mayPrecede u v = true) : x.mayPrecede t v = true := by
  unfold mayPrecede at *
  cases ht : x.alarm? t <;> cases hu : x.alarm? u <;> cases hv : x.alarm? v <;>
    simp only [ht, hu, hv, timer_le_iff] at h h' ⊢
  all_goals first | omega | cases h

theorem mayPrecede_total (x : Exchange) (t u : Task) :
    (x.mayPrecede t u || x.mayPrecede u t) = true := by
  rw [Bool.or_eq_true]
  unfold mayPrecede
  cases x.alarm? t <;> cases x.alarm? u <;> simp only [timer_le_iff]
  all_goals first | omega | simp

theorem mayPrecede_of_wantsRoom (x : Exchange) (ht : t.work.wantsRoom c = true) :
    x.mayPrecede t u = true := by
  have hnone : x.alarm? t = none := by
    rcases Work.wantsRoom_iff.1 ht with ⟨m, hw⟩ | ⟨l, m, hw, -⟩ | ⟨h, m, hw, -, hst⟩ <;>
      simp [alarm?, *]
  simp only [mayPrecede, hnone]

theorem mem_able_of_does (ht : t ∈ x.tasks) (ha : x.Does t a) : (t, a) ∈ x.able := by
  simp only [able, List.mem_filterMap, Option.map_eq_some_iff]
  exact ⟨t, ht, a, act?_eq_some_iff.2 ha, rfl⟩

theorem sublist_able (h : [u, t].Sublist x.tasks) (hu : x.Does u b) (ht : x.Does t a) :
    [(u, b), (t, a)].Sublist x.able := by
  have hsub := h.filterMap fun t => (x.act? t).map fun a => (t, a)
  simp only [List.filterMap_cons, List.filterMap_nil, act?_eq_some_iff.2 hu,
    act?_eq_some_iff.2 ht, Option.map_some] at hsub
  exact hsub

theorem Tidy.nodup_able (hx : x.Tidy) : (x.able.map (·.1.id)).Nodup := by
  refine hx.distinct.sublist ?_
  unfold able
  induction x.tasks with
  | nil => exact .slnil
  | cons v ts ih =>
    cases hv : x.act? v with
    | none =>
      rw [List.filterMap_cons_none (by rw [hv]; rfl)]
      exact ih.cons _
    | some d =>
      rw [List.filterMap_cons_some (by rw [hv]; rfl)]
      exact ih.cons_cons _

variable {line : List (Nat × Nat)} {resting : List Nat} {p : Task × Act}

def canAct (x : Exchange) (id : Nat) : Bool := x.able.any (·.1.id == id)

/-- Whether a task neither stands in the line nor rests. -/
def stirs (line : List (Nat × Nat)) (resting : List Nat) (p : Task × Act) : Bool :=
  !line.any (·.1 == p.1.id) && !resting.contains p.1.id

theorem stirs_iff : stirs line resting p = true ↔
    p.1.id ∉ line.map (·.1) ∧ p.1.id ∉ resting := by
  rw [stirs, Bool.and_eq_true, Bool.not_eq_true', Bool.not_eq_true', ← Bool.not_eq_true,
    ← Bool.not_eq_true, List.any_eq_true, List.contains_iff_mem, List.mem_map]
  simp only [beq_iff_eq]

theorem mem_woken : p ∈ x.woken line resting ↔
    p ∈ x.able ∧ p.1.id ∉ line.map (·.1) ∧ p.1.id ∉ resting := by
  change p ∈ (x.able.filter (stirs line resting)).mergeSort _ ↔ _
  rw [List.mem_mergeSort, List.mem_filter, stirs_iff]

/-- Who is scheduled: those in the line who can act, and then those who have become able to. -/
theorem ids_schedule (x : Exchange) (line : List (Nat × Nat)) (resting : List Nat) :
    (x.schedule line resting).map (·.1.id) =
      (line.map (·.1)).filter x.canAct ++ (x.woken line resting).map (·.1.id) := by
  simp only [schedule, List.map_append, List.map_map]
  congr 1
  induction line with
  | nil => rfl
  | cons e line ih =>
    have hcan : x.canAct e.1 = (x.able.find? (·.1.id == e.1)).isSome := by
      rw [List.isSome_find?]
      rfl
    rw [List.map_cons]
    cases hf : x.able.find? (·.1.id == e.1) with
    | none =>
      rw [List.filterMap_cons_none (by rw [hf]; rfl), ih,
        List.filter_cons_of_neg (by rw [hcan, hf]; exact Bool.false_ne_true)]
    | some p =>
      have hid : p.1.id = e.1 := by simpa using List.find?_some hf
      rw [List.filterMap_cons_some (by rw [hf]; rfl), List.map_cons, ih,
        List.filter_cons_of_pos (by rw [hcan, hf]; rfl)]
      exact congrArg (· :: _) hid

/-- Nobody is scheduled twice, nor while he rests. -/
theorem nodup_schedule (hx : x.Tidy) (h : (line.map (·.1) ++ resting).Nodup) :
    ((x.schedule line resting).map (·.1.id) ++ resting).Nodup := by
  rw [List.nodup_append] at h
  obtain ⟨hline, hresting, hapart⟩ := h
  have hwoken : ((x.woken line resting).map (·.1.id)).Nodup := by
    have hperm := List.mergeSort_perm (x.able.filter (stirs line resting))
      fun p q => x.mayPrecede p.1 q.1
    exact (hperm.map (·.1.id)).nodup_iff.2 (hx.nodup_able.sublist (List.filter_sublist.map _))
  rw [ids_schedule, List.append_assoc, List.nodup_append, List.nodup_append]
  refine ⟨hline.filter _, ⟨hwoken, hresting, ?_⟩, ?_⟩
  · rintro id hid k hk rfl
    obtain ⟨p, hp, rfl⟩ := List.mem_map.1 hid
    exact (mem_woken.1 hp).2.2 hk
  · rintro id hid k hk rfl
    have hmem := List.mem_of_mem_filter hid
    rcases List.mem_append.1 hk with hk | hk
    · obtain ⟨p, hp, rfl⟩ := List.mem_map.1 hk
      exact (mem_woken.1 hp).2.1 hmem
    · exact hapart _ hmem _ hk rfl

/-- **Two who wait for room are scheduled in order**, if they stand so in the line. -/
theorem sublist_schedule (hx : x.Tidy) (h : [u, t].Sublist (x.waiting (Work.wantsRoom c)))
    (ha : x.Does t a) (hfree : ¬ x.Revoked t) (hu : u.id ∉ resting) (ht : t.id ∉ resting)
    (hline : t.id ∈ line.map (·.1) → [u.id, t.id].Sublist (line.map (·.1))) :
    [u.id, t.id].Sublist ((x.schedule line resting).map (·.1.id)) := by
  obtain ⟨b, hb⟩ := exists_does_of_before hx h ha hfree
  have huw := mem_waiting.1 (h.subset List.mem_cons_self)
  have htw := mem_waiting.1 (h.subset (by simp : t ∈ [u, t]))
  have hucan : x.canAct u.id = true :=
    List.any_eq_true.2 ⟨_, mem_able_of_does huw.1 hb, beq_self_eq_true _⟩
  have htcan : x.canAct t.id = true :=
    List.any_eq_true.2 ⟨_, mem_able_of_does htw.1 ha, beq_self_eq_true _⟩
  rw [ids_schedule]
  by_cases htline : t.id ∈ line.map (·.1)
  · have hsub := (hline htline).filter x.canAct
    rw [List.filter_cons_of_pos hucan, List.filter_cons_of_pos htcan] at hsub
    exact hsub.trans (List.sublist_append_left _ _)
  · have htwoken := mem_woken.2 ⟨mem_able_of_does htw.1 ha, htline, ht⟩
    by_cases huline : u.id ∈ line.map (·.1)
    · have hfirst : u.id ∈ (line.map (·.1)).filter x.canAct :=
        List.mem_filter.2 ⟨huline, hucan⟩
      have hlast : t.id ∈ (x.woken line resting).map (·.1.id) :=
        List.mem_map.2 ⟨_, htwoken, rfl⟩
      have hhead := List.singleton_sublist.2 hfirst
      exact hhead.append (List.singleton_sublist.2 hlast)
    · -- both have just become able to act, and sorting them by their timers leaves them in order
      have hsub := (sublist_able (h.trans List.filter_sublist) hb ha).filter (stirs line resting)
      rw [List.filter_cons_of_pos (stirs_iff.2 ⟨huline, hu⟩),
        List.filter_cons_of_pos (stirs_iff.2 ⟨htline, ht⟩)] at hsub
      have hwoken : [(u, b), (t, a)].Sublist (x.woken line resting) :=
        List.pair_sublist_mergeSort (fun _ _ _ => mayPrecede_trans)
          (fun p q => x.mayPrecede_total p.1 q.1) (x.mayPrecede_of_wantsRoom huw.2) hsub
      exact (hwoken.map fun p => p.1.id).trans (List.sublist_append_right _ _)

/-! ## Running in line -/

/-- Whether listeners begin to wait for room only with a message. -/
def Laden (x : Exchange) : Prop :=
  ∀ t ∈ x.tasks, ∀ l, t.work = .listen l → l.held = none → l.queued = false

theorem Laden.perform (h : x.Laden) (ht : t ∈ x.tasks) (ha : x.Does t a) :
    (x.perform t a).Laden := by
  intro v hv l hl hm
  rcases mem_tasks_perform hv with hv | ⟨w, hafter, rfl⟩
  · exact h v (List.mem_of_mem_erase hv) l hl hm
  · obtain rfl : w = .listen l := hl
    cases ha with
    | forwarded =>
      obtain rfl := Work.listen.inj (After.goesOn.inj hafter)
      rfl
    | listenerQueues hw hc hm' =>
      obtain rfl := Work.listen.inj (After.goesOn.inj hafter)
      cases hm.symm.trans hm'
    | taken hw hc hm' =>
      obtain rfl := Work.listen.inj (After.goesOn.inj hafter)
      have hq := h t ht _ hw hm'
      exact hq
    | _ => cases hafter

/-- **Whoever has just moved a message waits for no room.** -/
theorem Laden.wantsRoom_of_moves {w : Work} (h : x.Laden) (ht : t ∈ x.tasks) (ha : x.Does t a)
    (hmoves : 0 < a.moves) (hafter : a.after = .goesOn w) : w.wantsRoom c = false := by
  cases ha with
  | forwarded =>
    obtain rfl := After.goesOn.inj hafter
    rfl
  | taken hw hc hm =>
    obtain rfl := After.goesOn.inj hafter
    simp [Work.wantsRoom, Work.offered?, h t ht _ hw hm]
  | sent | handed | received => cases hafter
  | _ => exact absurd hmoves (Nat.lt_irrefl 0)

/-- Whether whoever puts a message into a channel, having waited already at an earlier moment, is
the first of those who wait. -/
def InTurn (c : Nat) (before x : Exchange) (t : Task) (a : Act) : Prop :=
  a.ins c ≠ [] → t ∈ before.waiting (Work.wantsRoom c) →
    (x.waiting (Work.wantsRoom c)).head? = some t

/-- How the line stands to those who wait for room in a channel.  Of two of them the earlier one
stands before the later one, which only one may not have got to that has begun to wait by the last
act: it still stands first. -/
structure InLine (c : Nat) (before x : Exchange) (line : List (Nat × Nat)) (resting : List Nat) :
    Prop where
  tidy : x.Tidy
  laden : x.Laden
  apart : (line.map (·.1) ++ resting).Nodup
  unspent : ∀ e ∈ line, 0 < e.2
  awake : ∀ t ∈ x.waiting (Work.wantsRoom c), t.id ∉ resting
  ordered : ∀ u t, [u, t].Sublist (x.waiting (Work.wantsRoom c)) →
    t ∈ before.waiting (Work.wantsRoom c) → ¬ x.Revoked t → t.id ∈ line.map (·.1) →
    [u.id, t.id].Sublist (line.map (·.1))
  newcomer : ∀ t ∈ x.waiting (Work.wantsRoom c), t ∉ before.waiting (Work.wantsRoom c) →
    t.id ∈ line.map (·.1) → (line.map (·.1)).head? = some t.id

namespace InLine

variable {left : Nat} {rest : List (Task × Act × Nat)}

theorem empty (htidy : x.Tidy) (hladen : x.Laden) : InLine c y x [] [] :=
  ⟨htidy, hladen, List.nodup_nil, fun _ h => absurd h List.not_mem_nil,
    fun _ _ => List.not_mem_nil, fun _ _ _ _ _ h => absurd h List.not_mem_nil,
    fun _ _ _ h => absurd h List.not_mem_nil⟩

theorem rejoin {more : List Nat} (h : InLine c y x line more) :
    InLine c y x (more.map fun id => (id, turnLength)) [] := by
  have hids : (more.map fun id => (id, turnLength)).map (·.1) = more := by
    rw [List.map_map]
    exact List.map_id more
  refine ⟨h.tidy, h.laden, ?_, ?_, fun _ _ => List.not_mem_nil, ?_, ?_⟩
  · rw [hids, List.append_nil]
    exact (List.nodup_append.1 h.apart).2.1
  · intro e he
    obtain ⟨id, -, rfl⟩ := List.mem_map.1 he
    exact Nat.zero_lt_succ _
  · intro u t hut _ _ hmem
    rw [hids] at hmem
    exact absurd hmem (h.awake t (hut.subset (by simp)))
  · intro t ht _ hmem
    rw [hids] at hmem
    exact absurd hmem (h.awake t ht)

/-- What is known of the one who acts first. -/
theorem first (h : InLine c y x line resting)
    (hs : x.schedule line resting = (t, a, left) :: rest) :
    t ∈ x.tasks ∧ x.Does t a ∧ 0 < left ∧
      (t.id :: rest.map (·.1.id) ++ resting).Nodup ∧ ∀ p ∈ rest, 0 < p.2.2 := by
  have hable := mem_able (mem_able_of_mem_schedule (hs ▸ List.mem_cons_self))
  have hleft : ∀ p ∈ x.schedule line resting, 0 < p.2.2 := by
    intro p hp
    simp only [schedule, List.mem_append, List.mem_filterMap, List.mem_map,
      Option.map_eq_some_iff] at hp
    rcases hp with ⟨e, he, q, -, rfl⟩ | ⟨q, -, rfl⟩
    · exact h.unspent e he
    · exact Nat.zero_lt_succ _
  have hnodup := nodup_schedule h.tidy h.apart
  rw [hs] at hnodup hleft
  exact ⟨hable.1, act?_eq_some_iff.1 hable.2, hleft _ List.mem_cons_self, hnodup,
    fun p hp => hleft p (List.mem_cons_of_mem _ hp)⟩

/-- **Of two who wait for room the earlier one is scheduled first**, unless the later one has just
begun to wait and stands first in the line. -/
theorem scheduled (h : InLine c y x line resting) {u v : Task} {b : Act}
    (huv : [u, v].Sublist (x.waiting (Work.wantsRoom c))) (hv : x.Does v b)
    (hfree : ¬ x.Revoked v)
    (hold : v ∈ y.waiting (Work.wantsRoom c) ∨ (line.map (·.1)).head? ≠ some v.id) :
    [u.id, v.id].Sublist ((x.schedule line resting).map (·.1.id)) := by
  refine sublist_schedule h.tidy huv hv hfree (h.awake u (huv.subset (by simp)))
    (h.awake v (huv.subset (by simp))) fun hmem => ?_
  by_cases hvy : v ∈ y.waiting (Work.wantsRoom c)
  · exact h.ordered u v huv hvy hfree hmem
  · exact absurd (h.newcomer v (huv.subset (by simp)) hvy hmem) (hold.resolve_left hvy)

/-- **Whoever puts a message in, having waited before, is first.** -/
theorem inTurn (h : InLine c y x line resting)
    (hs : x.schedule line resting = (t, a, left) :: rest) : InTurn c y x t a := by
  intro hins hty
  obtain ⟨ht, ha, -, hnodup, -⟩ := h.first hs
  have hwaits : t ∈ x.waiting (Work.wantsRoom c) := mem_waiting.2 ⟨ht, (mem_waiting.1 hty).2⟩
  have hfree : ¬ x.Revoked t := by
    rcases ha.of_wantsRoom (mem_waiting.1 hwaits).2 with ⟨⟨o, rfl⟩, -⟩ | ⟨-, hfree, -⟩
    · exact absurd rfl hins
    · exact hfree
  cases hw : x.waiting (Work.wantsRoom c) with
  | nil =>
    rw [hw] at hwaits
    cases hwaits
  | cons u us =>
    rw [hw] at hwaits
    rcases List.mem_cons.1 hwaits with rfl | hmem
    · rfl
    · have hsub : [u, t].Sublist (x.waiting (Work.wantsRoom c)) := by
        rw [hw]
        exact (List.singleton_sublist.2 hmem).cons_cons u
      have hids := h.scheduled hsub ha hfree (Or.inl hty)
      rw [hs, List.map_cons] at hids
      exact absurd (List.singleton_sublist.1 hids.tail)
        (List.nodup_cons.1 (List.nodup_append.1 hnodup).1).1

/-- **The line stays in order when its first has acted**, who stays first or is gone from it. -/
theorem perform (h : InLine c y x line resting)
    (hs : x.schedule line resting = (t, a, left) :: rest) {line' : List (Nat × Nat)}
    {resting' : List Nat}
    (hline : line'.map (·.1) = rest.map (·.1.id) ∨ line'.map (·.1) = t.id :: rest.map (·.1.id))
    (hapart : (line'.map (·.1) ++ resting').Nodup) (hunspent : ∀ e ∈ line', 0 < e.2)
    (hawake : ∀ v ∈ (x.perform t a).waiting (Work.wantsRoom c), v.id ∉ resting') :
    InLine c x (x.perform t a) line' resting' := by
  obtain ⟨ht, ha, -, hnodup, -⟩ := h.first hs
  have hmomentary := momentary_wantsRoom c
  have hgone : t.id ∉ rest.map (·.1.id) :=
    (List.nodup_cons.1 (List.nodup_append.1 hnodup).1).1
  have hcancelled : (x.perform t a).cancelled = x.cancelled := by
    rw [ha.onlyMessages_perform.cancelled, cancelled_conclude]
    rfl
  refine ⟨h.tidy.perform ht ha, h.laden.perform ht ha, hapart, hunspent, hawake, ?_, ?_⟩
  · intro u v huv hvx hfree hmem
    obtain ⟨huv, hut, hvt⟩ := sublist_of_perform hmomentary h.tidy ht ha huv hvx
    have hmem : v.id ∈ rest.map (·.1.id) := by
      rcases hline with heq | heq
      · exact heq ▸ hmem
      · exact (List.mem_cons.1 (heq ▸ hmem)).resolve_left hvt
    obtain ⟨p, hp, hpv⟩ := List.mem_map.1 hmem
    have hable := mem_able (mem_able_of_mem_schedule (hs ▸ List.mem_cons_of_mem _ hp))
    have hpeq : p.1 = v := h.tidy.eq_of_id_eq hable.1 (mem_waiting.1 hvx).1 hpv
    have hv : x.Does v p.2.1 := hpeq ▸ act?_eq_some_iff.1 hable.2
    have hnotFirst : (line.map (·.1)).head? ≠ some v.id := by
      intro hhead
      cases hline' : line with
      | nil =>
        rw [hline'] at hhead
        cases hhead
      | cons e others =>
        rw [hline'] at hhead
        have he : e.1 = v.id := Option.some.inj hhead
        have hcan : x.canAct e.1 = true :=
          List.any_eq_true.2 ⟨_, mem_able_of_does (mem_waiting.1 hvx).1 hv, by simp [he]⟩
        have hids := ids_schedule x line resting
        rw [hs, hline', List.map_cons, List.map_cons, List.filter_cons_of_pos hcan,
          List.cons_append, List.cons.injEq] at hids
        exact hvt (he.symm.trans hids.1.symm)
    have hfree' : ¬ x.Revoked v := by
      rintro ⟨token, htoken, hc⟩
      exact hfree ⟨token, htoken, by rwa [isCancelled, hcancelled]⟩
    have hsub := h.scheduled huv hv hfree' (Or.inr hnotFirst)
    rw [hs, List.map_cons] at hsub
    have hsub := List.Sublist.of_cons_of_ne hut hsub
    rcases hline with heq | heq
    · rwa [heq]
    · rw [heq]
      exact hsub.cons _
  · intro v hv hnew hmem
    rw [waiting_perform, List.mem_append] at hv
    have hid : v.id = t.id := by
      rcases hv with hv | hv
      · exact absurd (List.mem_of_mem_erase hv) hnew
      · obtain ⟨w, -, -, rfl⟩ := mem_rest hv
        rfl
    rcases hline with heq | heq
    · rw [heq, hid] at hmem
      exact absurd hmem hgone
    · rw [heq, hid]
      rfl

/-- **The line stays in order when its first goes on**, having moves left. -/
theorem goesOn (h : InLine c y x line resting)
    (hs : x.schedule line resting = (t, a, left) :: rest) (hleft : ¬ left ≤ a.moves) :
    InLine c x (x.perform t a)
      ((t.id, left - a.moves) :: rest.map fun p => (p.1.id, p.2.2)) resting := by
  obtain ⟨ht, ha, -, hnodup, hunspent⟩ := h.first hs
  have hids : (rest.map fun p => (p.1.id, p.2.2)).map (·.1) = rest.map (·.1.id) := by
    rw [List.map_map]
    rfl
  refine h.perform hs (Or.inr ?_) ?_ ?_ ?_
  · rw [List.map_cons, hids]
  · rwa [List.map_cons, hids]
  · intro e he
    rcases List.mem_cons.1 he with rfl | he
    · exact Nat.sub_pos_of_lt (Nat.lt_of_not_le hleft)
    · obtain ⟨p, hp, rfl⟩ := List.mem_map.1 he
      exact hunspent p hp
  · intro v hv hmem
    obtain ⟨-, -, happart⟩ := List.nodup_append.1 hnodup
    rw [waiting_perform, List.mem_append] at hv
    rcases hv with hv | hv
    · exact h.awake v (List.mem_of_mem_erase hv) hmem
    · obtain ⟨w, -, -, rfl⟩ := mem_rest hv
      exact happart _ List.mem_cons_self _ hmem rfl

/-- **The line stays in order when its first rests**, having moved as much as he may in a turn. -/
theorem rests (h : InLine c y x line resting)
    (hs : x.schedule line resting = (t, a, left) :: rest) (hleft : left ≤ a.moves) :
    InLine c x (x.perform t a) (rest.map fun p => (p.1.id, p.2.2)) (t.id :: resting) := by
  obtain ⟨ht, ha, hpos, hnodup, hunspent⟩ := h.first hs
  have hids : (rest.map fun p => (p.1.id, p.2.2)).map (·.1) = rest.map (·.1.id) := by
    rw [List.map_map]
    rfl
  refine h.perform hs (Or.inl hids) ?_ ?_ ?_
  · rw [hids]
    exact (List.perm_middle.nodup_iff).2 hnodup
  · intro e he
    obtain ⟨p, hp, rfl⟩ := List.mem_map.1 he
    exact hunspent p hp
  · intro v hv hmem
    rw [waiting_perform, List.mem_append] at hv
    rcases hv with hv | hv
    · rcases List.mem_cons.1 hmem with hid | hmem
      · rw [waiting, List.erase_filter] at hv
        exact h.tidy.id_ne_of_mem_erase ht (List.mem_of_mem_filter hv) hid
      · exact h.awake v (List.mem_of_mem_erase hv) hmem
    · obtain ⟨w, hafter, hwants, -⟩ := mem_rest hv
      have hmoved := Nat.lt_of_lt_of_le hpos hleft
      rw [h.laden.wantsRoom_of_moves ht ha hmoved hafter] at hwants
      cases hwants

end InLine

/-! ## All acts until none can act -/

/-- The acts by which tasks act until none can, where some stand in the line and some rest, each
with the exchange before it. -/
def settlingFrom (x : Exchange) (line : List (Nat × Nat)) (resting : List Nat) :
    List (Exchange × Task × Act) :=
  match _h : x.schedule line resting with
  | (t, a, left) :: rest =>
    let others := rest.map fun p => (p.1.id, p.2.2)
    if left ≤ a.moves then
      (x, t, a) :: settlingFrom (x.perform t a) others (t.id :: resting)
    else (x, t, a) :: settlingFrom (x.perform t a) ((t.id, left - a.moves) :: others) resting
  | [] =>
    match resting with
    | [] => []
    | id :: more => settlingFrom x ((id :: more).map fun id => (id, turnLength)) []
termination_by (x.load, resting.length)
decreasing_by
  · have hm := mem_able (mem_able_of_mem_schedule (_h ▸ List.mem_cons_self))
    exact Prod.Lex.left _ _ (load_perform_lt hm.1 hm.2)
  · have hm := mem_able (mem_able_of_mem_schedule (_h ▸ List.mem_cons_self))
    exact Prod.Lex.left _ _ (load_perform_lt hm.1 hm.2)
  · exact Prod.Lex.right _ (by simp)

theorem settlingFrom_cons {left : Nat} {rest : List (Task × Act × Nat)}
    (hs : x.schedule line resting = (t, a, left) :: rest) :
    x.settlingFrom line resting = (x, t, a) ::
      if left ≤ a.moves then
        (x.perform t a).settlingFrom (rest.map fun p => (p.1.id, p.2.2)) (t.id :: resting)
      else (x.perform t a).settlingFrom
        ((t.id, left - a.moves) :: rest.map fun p => (p.1.id, p.2.2)) resting := by
  rw [settlingFrom]
  split
  · rename_i heq
    obtain ⟨⟨rfl, rfl, rfl⟩, rfl⟩ : (_ ∧ _ ∧ _) ∧ _ := by simpa [hs] using heq
    split <;> rfl
  · rename_i heq
    cases hs.symm.trans heq

theorem settlingFrom_nil (hs : x.schedule line resting = []) :
    x.settlingFrom line resting = if resting = [] then [] else
      x.settlingFrom (resting.map fun id => (id, turnLength)) [] := by
  rw [settlingFrom]
  split
  · rename_i heq
    cases hs.symm.trans heq
  · split <;> rfl

/-- **Along all acts until none can act, whoever puts a message in, having waited before, is
first.** -/
theorem isChain_settlingFrom (h : InLine c y x line resting) (p : Task × Act) :
    List.IsChain (fun p q => InTurn c p.1 q.1 q.2.1 q.2.2)
      ((y, p) :: x.settlingFrom line resting) := by
  suffices hall : ∀ y p, InLine c y x line resting →
      List.IsChain (fun p q => InTurn c p.1 q.1 q.2.1 q.2.2)
        ((y, p) :: x.settlingFrom line resting) from hall y p h
  clear h
  fun_induction settlingFrom x line resting with
  | case1 x line resting t a left rest hs others hleft ih =>
    intro y p h
    exact List.isChain_cons_cons.2 ⟨h.inTurn hs, ih x (t, a) (h.rests hs hleft)⟩
  | case2 x line resting t a left rest hs others hleft ih =>
    intro y p h
    exact List.isChain_cons_cons.2 ⟨h.inTurn hs, ih x (t, a) (h.goesOn hs hleft)⟩
  | case3 => exact fun y p _ => List.isChain_singleton _
  | case4 x line id more hs ih => exact fun y p h => ih y p h.rejoin

end Exchange
end PeerNode
