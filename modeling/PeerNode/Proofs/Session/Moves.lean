import PeerNode.Proofs.Exchange.Turns

/-!
# All moves of a session

A path may take its moves in any order.  A session that takes its steps one after another, each
with all that follows from it, is bound to one order: after a step the tasks act as the line has
it, until none can.  `history` lists these moves.  It is one path among others (`path_history`), so
whatever holds along paths holds along it; but only along it do those who wait go ahead in turn
(`isChain_history`).

That turn is told by two things at a time, a move and the one before it.  What follows for moves
that lie far apart is found by going from one to the next (`departs_of_inTurn`): whoever goes ahead
has nobody before him who has waited longer, so all of those have departed.

* `settling`, `history`: all moves in order; `path_history`: they are a path.
* `passes_next`: how those who wait change by one move.
* `isChain_history`: whoever puts a message in, having waited before, is first.
* `Departs`, `departs_of_inTurn`: whoever goes ahead has waited longest.
-/

namespace PeerNode

open Exchange (Passes Momentary)

namespace Session

variable {s s' : Session} {t u : Task} {a : Act} {c : Nat} {kind : Work → Bool}
  {path : List (Session × Cause)} {k : Cause}

/-! ## All moves in order -/

/-- The acts by which the tasks of a session act until none can. -/
def settling (s : Session) : List (Session × Cause) :=
  (s.exchange.settlingFrom [] []).map fun (x, t, a) => (s.withExchange x, .act t a)

/-- All moves of a session that takes steps, each with all that follows from it. -/
def history (s : Session) : List Step → List (Session × Cause)
  | [] => []
  | st :: steps => (s, .step st) :: ((s.apply st).1.settling ++ (s.step st).1.history steps)

/-- The session after steps, each with all that follows from it. -/
def after (s : Session) (steps : List Step) : Session :=
  steps.foldl (fun s st => (s.step st).1) s

/-- The acts of a session that settles are a path. -/
theorem path_settling (s : Session) :
    Path s s.settling (s.withExchange s.exchange.settle) := by
  suffices hall : ∀ x line resting, Path (s.withExchange x)
      ((Exchange.settlingFrom x line resting).map fun (x, t, a) => (s.withExchange x, .act t a))
      (s.withExchange (x.settleFrom line resting)) from hall s.exchange [] []
  have hact : ∀ {x line resting t a left rest} {path : List (Session × Cause)} {s' : Session},
      x.schedule line resting = (t, a, left) :: rest →
      Path (s.withExchange (x.perform t a)) path s' →
      Path (s.withExchange x) ((s.withExchange x, .act t a) :: path) s' := fun hs hp =>
    (Path.single (Path.next_of_schedule (s := s.withExchange _) rfl hs)).trans hp
  intro x line resting
  fun_induction Exchange.settleFrom x line resting with
  | case1 x line resting t a left rest hs others hleft ih =>
    rw [Exchange.settlingFrom_cons hs, if_pos hleft]
    exact hact hs ih
  | case2 x line resting t a left rest hs others hleft ih =>
    rw [Exchange.settlingFrom_cons hs, if_neg hleft]
    exact hact hs ih
  | case3 x line hs =>
    rw [Exchange.settlingFrom_nil hs]
    exact .refl
  | case4 x line id more hs ih =>
    rw [Exchange.settlingFrom_nil hs, if_neg (List.cons_ne_nil _ _)]
    exact ih

/-- **The history of a session is a path.** -/
theorem path_history (s : Session) (steps : List Step) :
    Path s (s.history steps) (s.after steps) := by
  induction steps generalizing s with
  | nil => exact .refl
  | cons st steps ih =>
    have hstep := (Path.single (.step (s := s) st)).trans (path_settling (s.apply st).1)
    exact hstep.trans (ih (s.step st).1)

/-! ## How those who wait change -/

/-- A step leaves those who wait alone, or has one of them go or another come. -/
theorem passes_step (hs : s.Sound) (st : Step) :
    Passes (s.exchange.waiting kind) ((s.apply st).1.exchange.waiting kind) := by
  have hsame : ∀ {y : Exchange}, y.tasks = s.exchange.tasks →
      Passes (s.exchange.waiting kind) (y.waiting kind) := by
    intro y hy
    refine ⟨s.exchange.waiting kind, [], ?_, List.Sublist.refl _, ?_⟩
    · rw [List.append_nil, Exchange.waiting, hy]
      rfl
    · exact fun t ht => absurd ht List.not_mem_nil
  cases (change_apply s st).turn with
  | still hy => exact hsame hy.tasks
  | @begins w hw extra hy =>
    refine ⟨s.exchange.waiting kind, [⟨s.exchange.moment, w⟩].filter (kind ·.work), ?_,
      List.Sublist.refl _, ?_⟩
    · rw [Exchange.waiting, hy.tasks, Exchange.waiting, ← List.filter_append]
      rfl
    · intro t ht hold
      have heq := List.mem_singleton.1 (List.mem_of_mem_filter ht)
      have hlt := hs.tidy.numbered t (Exchange.mem_waiting.1 hold).1
      rw [heq] at hlt
      exact Nat.lt_irrefl _ hlt
  | @aborts u hu hy =>
    refine ⟨(s.exchange.waiting kind).erase u, [], ?_, List.erase_sublist, ?_⟩
    · rw [List.append_nil, hy, Exchange.waiting, Exchange.waiting, List.erase_filter]
      rfl
    · exact fun t ht => absurd ht List.not_mem_nil
  | cancels token hy => exact hsame (by rw [hy]; rfl)
  | advances secs hy => exact hsame (by rw [hy]; rfl)

/-- **By every move some of those who wait leave, and others join them at the end.** -/
theorem passes_next (hkind : Momentary kind) (hs : s.Sound) (hk : Next s k s') :
    Passes (s.exchange.waiting kind) (s'.exchange.waiting kind) := by
  cases hk with
  | step st => exact passes_step hs st
  | act ht ha => exact Exchange.passes_perform hkind hs.tidy ht ha

/-! ## Whose turn it is -/

/-- Whether whoever makes a move of a kind, having waited already before the last one, is the first
of those who wait. -/
def InTurn (kind : Work → Bool) (moves : Act → Prop) (p q : Session × Cause) : Prop :=
  ∀ t a, q.2 = .act t a → moves a → t ∈ p.1.exchange.waiting kind →
    (q.1.exchange.waiting kind).head? = some t

/-- Listeners begin to wait for room only with a message, whatever moves. -/
theorem laden_next (hs : s.Sound) (h : s.exchange.Laden) (hk : Next s k s') :
    s'.exchange.Laden := by
  cases hk with
  | step st =>
    intro t ht l hl hm
    rcases held_of_change hs (change_apply s st) ht hl with ht | ⟨-, hq⟩
    · exact h t ht l hl hm
    · exact hq
  | act ht ha => exact h.perform ht ha

theorem laden_path (hs : s.Sound) (h : s.exchange.Laden) (hp : Path s path s') :
    s'.exchange.Laden := by
  induction hp with
  | refl => exact h
  | snoc hp hk ih => exact laden_next (hs.path hp) ih hk

/-- While tasks act until none can, whoever puts a message in, having waited before, is first. -/
theorem isChain_settling (hs : s.Sound) (h : s.exchange.Laden) (p : Session × Cause) :
    List.IsChain (InTurn (Work.wantsRoom c) (·.ins c ≠ [])) (p :: s.settling) := by
  have hline := Exchange.InLine.empty (c := c) (y := p.1.exchange) hs.tidy h
  -- the first task acts after the move `p`, and all others after an act
  have hchain := Exchange.isChain_settlingFrom hline (⟨0, .receive 0⟩, .alone (.ends .aborted))
  rw [List.isChain_cons] at hchain ⊢
  refine ⟨?_, (List.isChain_map _).2 (hchain.2.imp ?_)⟩
  · rintro q hq t a hqt
    rw [settling, List.head?_map, Option.mem_def, Option.map_eq_some_iff] at hq
    obtain ⟨e, he, rfl⟩ := hq
    obtain ⟨rfl, rfl⟩ := Cause.act.inj hqt
    exact hchain.1 e he
  · rintro d e hde t a hqt
    obtain ⟨rfl, rfl⟩ := Cause.act.inj hqt
    exact hde

/-- **While a session takes its steps, whoever puts a message in, having waited before, is
first.** -/
theorem isChain_history (hs : s.Sound) (h : s.exchange.Laden) (steps : List Step) :
    List.IsChain (InTurn (Work.wantsRoom c) (·.ins c ≠ [])) (s.history steps) := by
  induction steps generalizing s with
  | nil => exact List.isChain_nil
  | cons st steps ih =>
    have hk : Next s (.step st) (s.apply st).1 := .step st
    have hs' := hs.next hk
    have hladen := laden_next hs h hk
    have hp := path_settling (s.apply st).1
    have hrest := ih (s := (s.step st).1) (hs'.path hp) (laden_path hs' hladen hp)
    refine List.IsChain.append (isChain_settling hs' hladen _) hrest ?_
    -- what comes next is a step, and so nobody's act
    rintro p - q hq t a hqt
    cases steps with
    | nil => cases hq
    | cons st' steps =>
      obtain rfl := Option.some.inj hq
      cases hqt

/-! ## Whoever goes ahead has waited longest -/

/-- Whether a task stops waiting by a move: it acts, or it is aborted. -/
def Departs (t : Task) (p : Session × Cause) : Prop :=
  match p.2 with
  | .act u _ => u = t
  | .step st => (p.1.apply st).1.exchange.outcome? t.id = some .aborted

theorem departs_of_notMem (hk : Next s k s') (ht : t ∈ s.exchange.waiting kind)
    (hgone : t ∉ s'.exchange.waiting kind) : Departs t (s, k) := by
  obtain ⟨ht, hkind⟩ := Exchange.mem_waiting.1 ht
  have hgone : t ∉ s'.exchange.tasks := fun hmem =>
    hgone (Exchange.mem_waiting.2 ⟨hmem, hkind⟩)
  cases hk with
  | step st => exact ((change_apply s st).task_kept ht).resolve_left hgone
  | @act u a hu ha =>
    by_contra hne
    exact hgone (Exchange.mem_tasks_perform_of_ne ht (fun he => hne he.symm) a)

/-- Two who stand in a row in a list stand so in what is left of it. -/
theorem pair_sublist_of_mem {kept before : List Task} (h : kept.Sublist before)
    (hnodup : before.Nodup) (htu : [t, u].Sublist before) (ht : t ∈ kept) (hu : u ∈ kept) :
    [t, u].Sublist kept := by
  induction h with
  | slnil => cases ht
  | @cons kept before v hkept ih =>
    obtain ⟨hv, hnodup⟩ := List.nodup_cons.1 hnodup
    have htv : t ≠ v := fun he => hv (he ▸ hkept.subset ht)
    exact ih hnodup (List.Sublist.of_cons_of_ne htv htu) ht hu
  | @cons_cons kept before v hkept ih =>
    obtain ⟨hv, hnodup⟩ := List.nodup_cons.1 hnodup
    by_cases htv : t = v
    · subst htv
      have hut : u ≠ t := fun he => hv (he ▸ List.singleton_sublist.1 htu.tail)
      exact (List.singleton_sublist.2 ((List.mem_cons.1 hu).resolve_left hut)).cons_cons t
    · have htu := List.Sublist.of_cons_of_ne htv htu
      have huv : u ≠ v := fun he => hv (he ▸ htu.subset (by simp))
      exact (ih hnodup htu ((List.mem_cons.1 ht).resolve_left htv)
        ((List.mem_cons.1 hu).resolve_left huv)).cons v

/-- Two who wait before a move and after it do so in the same order. -/
theorem sublist_next (hkind : Momentary kind) (hs : s.Sound) (hk : Next s k s')
    (htu : [t, u].Sublist (s.exchange.waiting kind)) (ht : t ∈ s'.exchange.waiting kind)
    (hu : u ∈ s'.exchange.waiting kind) : [t, u].Sublist (s'.exchange.waiting kind) := by
  obtain ⟨kept, new, hafter, hkept, hnew⟩ := passes_next hkind hs hk
  have hstays : ∀ v ∈ [t, u], v ∈ s'.exchange.waiting kind → v ∈ kept := by
    intro v hv hmem
    rw [hafter] at hmem
    exact (List.mem_append.1 hmem).resolve_right fun hmem => hnew v hmem (htu.subset hv)
  rw [hafter]
  exact (pair_sublist_of_mem hkept (List.Nodup.of_map _ hs.tidy.nodup_waiting) htu
    (hstays t (by simp) ht) (hstays u (by simp) hu)).trans (List.sublist_append_left _ _)

theorem not_before_first (hs : s.Sound) (h : (s.exchange.waiting kind).head? = some u) :
    ¬ [t, u].Sublist (s.exchange.waiting kind) := by
  intro htu
  obtain ⟨us, hus⟩ := List.head?_eq_some_iff.1 h
  have hnodup : (s.exchange.waiting kind).Nodup := List.Nodup.of_map _ hs.tidy.nodup_waiting
  rw [hus] at htu hnodup
  exact (List.nodup_cons.1 hnodup).1 (List.singleton_sublist.1 htu.tail)

/-- **Whoever goes ahead has waited longest**: those who waited before him have departed
meanwhile. -/
theorem departs_of_inTurn {moves : Act → Prop} {s₁ s₂ : Session} (hkind : Momentary kind)
    (hsound : ∀ p ∈ (s₁, k) :: path, p.1.Sound) (h₂ : s₂.Sound)
    (hnext : List.IsChain (fun p q : Session × Cause => Next p.1 p.2 q.1)
      ((s₁, k) :: (path ++ [(s₂, .act u a)])))
    (hturn : List.IsChain (InTurn kind moves) ((s₁, k) :: (path ++ [(s₂, .act u a)])))
    (hmoves : moves a) (hu : u ∈ s₂.exchange.tasks)
    (hwaits : ∀ p ∈ path, u ∈ p.1.exchange.waiting kind)
    (htu : [t, u].Sublist (s₁.exchange.waiting kind)) :
    ∃ p ∈ (s₁, k) :: path, t ∈ p.1.exchange.waiting kind ∧ Departs t p := by
  have htw : t ∈ s₁.exchange.waiting kind := htu.subset List.mem_cons_self
  induction path generalizing s₁ k with
  | nil =>
    rw [List.nil_append, List.isChain_cons_cons] at hnext hturn
    have huw : u ∈ s₁.exchange.waiting kind := htu.subset (by simp)
    have hfirst := hturn.1 u a rfl hmoves huw
    refine ⟨_, List.mem_cons_self, htw, departs_of_notMem hnext.1 htw fun ht => ?_⟩
    have huw₂ := Exchange.mem_waiting.2 ⟨hu, (Exchange.mem_waiting.1 huw).2⟩
    exact not_before_first h₂ hfirst
      (sublist_next hkind (hsound _ List.mem_cons_self) hnext.1 htu ht huw₂)
  | cons p path ih =>
    rw [List.cons_append, List.isChain_cons_cons] at hnext hturn
    by_cases ht : t ∈ p.1.exchange.waiting kind
    · have htu := sublist_next hkind (hsound _ List.mem_cons_self) hnext.1 htu ht
        (hwaits p List.mem_cons_self)
      obtain ⟨q, hq, hdeparts⟩ := ih (fun q hq => hsound q (List.mem_cons_of_mem _ hq))
        hnext.2 hturn.2
        (fun q hq => hwaits q (List.mem_cons_of_mem _ hq)) htu ht
      exact ⟨q, List.mem_cons_of_mem _ hq, hdeparts⟩
    · exact ⟨_, List.mem_cons_self, htw, departs_of_notMem hnext.1 htw ht⟩

/-- Each move of a path leads to the next. -/
theorem Path.isChain (h : Path s path s') :
    List.IsChain (fun p q : Session × Cause => Next p.1 p.2 q.1) path ∧
      ∀ p ∈ path.getLast?, Next p.1 p.2 s' := by
  induction h with
  | refl => exact ⟨List.isChain_nil, fun p hp => by cases hp⟩
  | @snoc path s' s'' k h hk ih =>
    refine ⟨List.IsChain.append ih.1 (List.isChain_singleton _) ?_, ?_⟩
    · intro p hp q hq
      obtain rfl := Option.some.inj hq
      exact ih.2 p hp
    · intro p hp
      rw [List.getLast?_concat] at hp
      obtain rfl := Option.some.inj hp
      exact hk

end Session
end PeerNode
