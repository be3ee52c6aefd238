import PeerNode.Proofs.Session.Steps

/-!
# What is never undone

Much of what happens in a session is for good.  A channel that has lost all its senders or all its
receiving ends stays without them, a cancelled token stays cancelled, a task that has ended is not
heard of again, and time does not go back.  `Later` collects this; it holds between any two
moments because it holds across every step (`Sound.later_change`) and every act
(`Sound.later_perform`).

For what a step does to the tasks a coarser view is enough than the one of `Change`: it leaves them
alone, begins one or aborts one (`Turn`).

* `Exchange.Still`: changes that leave tasks, tokens, time and capacities alone.
* `Exchange.Persists`: changes that keep what is recorded.
* `Turn`, `Change.turn`: what a step does to tasks, tokens and time.
* `Change.mem_tasks`, `Change.task_kept`: the tasks after a step are those before it and the one
  that it begins; all go on but the one that it aborts.
* `Later`, `Sound.later_change`, `Sound.later_perform`: what is never undone.
-/

namespace PeerNode

variable {x y z : Exchange} {s s' s'' : Session} {t : Task} {a : Act}

namespace Exchange

/-- A change that leaves tasks, tokens, time and capacities alone. -/
structure Still (x y : Exchange) : Prop where
  tasks : y.tasks = x.tasks
  moment : y.moment = x.moment
  cancelled : y.cancelled = x.cancelled
  clock : y.clock = x.clock
  outcome : ∀ id, y.outcome? id = x.outcome? id
  capacities : y.channels.map (·.capacity) = x.channels.map (·.capacity)

namespace Still

theorem refl (x : Exchange) : Still x x := ⟨rfl, rfl, rfl, rfl, fun _ => rfl, rfl⟩

theorem trans (h : Still x y) (h' : Still y z) : Still x z :=
  ⟨h'.tasks.trans h.tasks, h'.moment.trans h.moment, h'.cancelled.trans h.cancelled,
    h'.clock.trans h.clock, fun id => (h'.outcome id).trans (h.outcome id),
    h'.capacities.trans h.capacities⟩

theorem of_onlyMessages (h : OnlyMessages x y) : Still x y := by
  refine ⟨h.tasks, h.moment, h.cancelled, h.clock, h.outcome, ?_⟩
  have he := congrArg (List.map (·.capacity)) h.channels
  rwa [List.map_map, List.map_map] at he

theorem onChannel (x : Exchange) (c : Nat) (f : Channel → Channel)
    (hf : ∀ ch, (f ch).capacity = ch.capacity) : Still x (x.onChannel c f) := by
  refine ⟨rfl, rfl, rfl, rfl, fun _ => rfl, ?_⟩
  apply List.ext_getElem?
  intro d
  simp only [Exchange.onChannel, List.getElem?_map, List.getElem?_modify]
  cases x.channels[d]? with
  | none => rfl
  | some ch => by_cases hd : c = d <;> simp [hd, hf]

end Still

/-- A change that keeps what is recorded: time and the count of tasks only grow, and tokens,
outcomes and capacities stay. -/
structure Persists (x y : Exchange) : Prop where
  moment : x.moment ≤ y.moment
  clock : x.clock ≤ y.clock
  cancelled : ∀ token, x.isCancelled token = true → y.isCancelled token = true
  outcome : ∀ id o, x.outcome? id = some o → y.outcome? id = some o
  capacities : x.channels.map (·.capacity) <+: y.channels.map (·.capacity)

namespace Persists

theorem trans (h : Persists x y) (h' : Persists y z) : Persists x z :=
  ⟨Nat.le_trans h.moment h'.moment, Nat.le_trans h.clock h'.clock,
    fun token hc => h'.cancelled token (h.cancelled token hc),
    fun id o ho => h'.outcome id o (h.outcome id o ho), h.capacities.trans h'.capacities⟩

theorem of_still (h : Still x y) : Persists x y := by
  refine ⟨Nat.le_of_eq h.moment.symm, Nat.le_of_eq h.clock.symm, ?_, ?_, ?_⟩
  · intro token hc
    rwa [isCancelled, h.cancelled]
  · intro id o ho
    rwa [h.outcome]
  · exact ⟨[], by rw [h.capacities, List.append_nil]⟩

theorem refl (x : Exchange) : Persists x x := of_still (.refl x)

/-- What becomes of a task that has not ended yet. -/
theorem conclude {id : Nat} (h : x.outcome? id = none) (after : After) :
    Persists x (x.conclude id after) := by
  refine ⟨Nat.le_of_eq (moment_conclude x id after).symm,
    Nat.le_of_eq (clock_conclude x id after).symm, ?_, ?_, ?_⟩
  · intro token hc
    rwa [isCancelled, cancelled_conclude]
  · intro k o ho
    have hne : k ≠ id := by
      rintro rfl
      rw [h] at ho
      cases ho
    rwa [outcome_conclude_of_ne _ hne]
  · exact ⟨[], by rw [channels_conclude, List.append_nil]⟩

theorem without (x : Exchange) (t : Task) : Persists x (x.without t) :=
  ⟨Nat.le_refl _, Nat.le_refl _, fun _ hc => hc, fun _ _ ho => ho, List.prefix_refl _⟩

theorem tick (x : Exchange) : Persists x x.tick :=
  ⟨Nat.le_succ _, Nat.le_refl _, fun _ hc => hc, fun _ _ ho => ho, List.prefix_refl _⟩

theorem spawn (x : Exchange) (extra : List Channel) (w : Work) :
    Persists x ({ x with channels := x.channels ++ extra }.spawn w).1 :=
  ⟨Nat.le_succ _, Nat.le_refl _, fun _ hc => hc, fun _ _ ho => ho,
    ⟨extra.map (·.capacity), List.map_append.symm⟩⟩

end Persists
end Exchange

open Exchange (Still)

namespace Session

theorem still_dropSender (s : Session) (name : String) :
    Still s.exchange (s.dropSender name).exchange := by
  unfold dropSender
  split
  · exact .onChannel _ _ (fun ch => { ch with senders := ch.senders - 1 }) fun _ => rfl
  · exact .refl _

theorem still_dropInbox (s : Session) (name : String) :
    Still s.exchange (s.dropInbox name).exchange := by
  unfold dropInbox
  split
  · exact .onChannel _ _ (fun ch => { ch with inboxes := ch.inboxes - 1 }) fun _ => rfl
  · exact .refl _

/-! ## What a step does to the tasks -/

/-- The ends that a task holds which a step has begun: a sender that had a name, and the receiving
end of a channel whose inbox had one, or of a new channel. -/
structure Begun (s : Session) (w : Work) : Prop where
  sender : ∀ c, w.holdsSender c = true → ∃ p ∈ s.senders, p.2 = c
  receiver : ∀ c, w.holdsReceiver c = true →
    (∃ p ∈ s.inboxes, p.2 = c) ∨ c = s.exchange.channels.length

/-- What a step does to tasks, tokens and time. -/
inductive Turn (s : Session) (y : Exchange) : Prop
  | still (hy : Still s.exchange y)
  | begins {w : Work} (hw : s.Begun w) (extra : List Channel)
      (hy : Still ({ s.exchange with channels := s.exchange.channels ++ extra }.spawn w).1 y)
  | aborts {u : Task} (hu : u ∈ s.exchange.tasks)
      (hy : y = (s.exchange.without u).conclude u.id (.ends .aborted))
  | cancels (token : Token) (hy : y = s.exchange.cancel token)
  | advances (secs : Nat) (hy : y = s.exchange.advance secs)

theorem Startable.begun {w : Work} (hw : s.Startable w) : s.Begun w := by
  refine ⟨fun c hc => ?_, fun c hc => Or.inl ?_⟩
  · obtain ⟨tx, hl⟩ := hw.sender c hc
    exact ⟨_, mem_of_lookup_eq_some hl, rfl⟩
  · obtain ⟨inbox, hl⟩ := hw.receiver c hc
    exact ⟨_, mem_of_lookup_eq_some hl, rfl⟩

theorem begun_listen {c : Nat} {tx : String} (hl : s.senders.lookup tx = some c)
    (hc : c < s.exchange.channels.length) (me : PeerName) (token : Token) :
    s.Begun (.listen ⟨s.exchange.channels.length, c, hc, me, token, none, false⟩) := by
  refine ⟨fun d hd => ?_, fun d hd => Or.inr ?_⟩
  · obtain rfl : c = d := by simpa [Work.holdsSender] using hd
    exact ⟨_, mem_of_lookup_eq_some hl, rfl⟩
  · simpa [Work.holdsReceiver] using (Eq.symm (by simpa [Work.holdsReceiver] using hd))

/-- **What a step does to tasks, tokens and time.** -/
theorem Change.turn (hs : Change s s') : s.Turn s'.exchange := by
  cases hs with
  | idle => exact .still (.refl _)
  | moves hy => exact .still (.of_onlyMessages hy)
  | begins hw tasks streams =>
    refine .begins hw.begun [] ?_
    rw [List.append_nil]
    exact .refl _
  | @clonesSender c tx hl name =>
    have hclone := Still.onChannel s.exchange c
      (fun ch => { ch with senders := ch.senders + 1 }) fun _ => rfl
    have hdrop := still_dropSender (s.withExchange (s.exchange.cloneSender c)) name
    exact .still (hclone.trans hdrop)
  | dropsSender name => exact .still (still_dropSender s name)
  | @clonesInbox c inbox hl name =>
    have hclone := Still.onChannel s.exchange c
      (fun ch => { ch with inboxes := ch.inboxes + 1 }) fun _ => rfl
    have hdrop := still_dropInbox (s.withExchange (s.exchange.cloneInbox c)) name
    exact .still (hclone.trans hdrop)
  | dropsInbox name => exact .still (still_dropInbox s name)
  | aborts id =>
    rcases Exchange.abort_cases s.exchange id with ⟨u, hu, -, hy⟩ | hy
    · exact .aborts hu hy
    · rw [show (s.withExchange (s.exchange.abort id)).exchange = s.exchange from hy]
      exact .still (.refl _)
  | cancels token => exact .cancels token rfl
  | advances secs => exact .advances secs rfl
  | listens hl hc capacity me token sub name =>
    refine .begins (begun_listen hl hc me token) [⟨capacity, [], 1, 0⟩] ?_
    exact still_dropSender (s.begin name ((s.exchange.listen _ capacity me token hc).1,
      (s.exchange.listen _ capacity me token hc).2.2)) sub

/-- **A task after a step was one before, or has just been begun.** -/
theorem Change.mem_tasks (hs : Change s s') {u : Task} (hu : u ∈ s'.exchange.tasks) :
    u ∈ s.exchange.tasks ∨ u.id = s.exchange.moment ∧ s.Begun u.work := by
  cases hs.turn with
  | still hy =>
    rw [hy.tasks] at hu
    exact Or.inl hu
  | begins hw extra hy =>
    rw [hy.tasks] at hu
    rcases List.mem_append.1 hu with hu | hu
    · exact Or.inl hu
    · obtain rfl := List.mem_singleton.1 hu
      exact Or.inr ⟨rfl, hw⟩
  | aborts _ hy =>
    rw [hy] at hu
    exact Or.inl (List.mem_of_mem_erase hu)
  | cancels token hy =>
    rw [hy] at hu
    exact Or.inl hu
  | advances secs hy =>
    rw [hy] at hu
    exact Or.inl hu

/-- **A task that a step does not abort goes on.** -/
theorem Change.task_kept (hs : Change s s') (ht : t ∈ s.exchange.tasks) :
    t ∈ s'.exchange.tasks ∨ s'.exchange.outcome? t.id = some .aborted := by
  cases hs.turn with
  | still hy =>
    rw [hy.tasks]
    exact Or.inl ht
  | begins hw extra hy =>
    rw [hy.tasks]
    exact Or.inl (List.mem_append_left _ ht)
  | @aborts u hu hy =>
    rw [hy]
    by_cases htu : t = u
    · rw [htu]
      exact Or.inr (Exchange.outcome_conclude_ends _ _ _)
    · exact Or.inl ((List.mem_erase_of_ne htu).2 ht)
  | cancels token hy =>
    rw [hy]
    exact Or.inl ht
  | advances secs hy =>
    rw [hy]
    exact Or.inl ht

/-! ## What is never undone -/

/-- What a session that has gone on has not undone. -/
structure Later (s s' : Session) : Prop where
  persists : s.exchange.Persists s'.exchange
  unfed : ∀ c < s.exchange.channels.length, s.exchange.hasSender c = false →
    s'.exchange.hasSender c = false
  unheard : ∀ c < s.exchange.channels.length, s.exchange.hasReceiver c = false →
    s'.exchange.hasReceiver c = false

namespace Later

theorem refl (s : Session) : Later s s := ⟨.refl _, fun _ _ h => h, fun _ _ h => h⟩

theorem length_channels (h : Later s s') :
    s.exchange.channels.length ≤ s'.exchange.channels.length := by
  have := h.persists.capacities.length_le
  rwa [List.length_map, List.length_map] at this

theorem trans (h : Later s s') (h' : Later s' s'') : Later s s'' := by
  have hlen := h.length_channels
  refine ⟨h.persists.trans h'.persists, ?_, ?_⟩
  · exact fun c hc hs => h'.unfed c (Nat.lt_of_lt_of_le hc hlen) (h.unfed c hc hs)
  · exact fun c hc hr => h'.unheard c (Nat.lt_of_lt_of_le hc hlen) (h.unheard c hc hr)

/-- Nothing is undone if what is recorded stays and no old channel is opened again. -/
theorem of_holders (hp : s.exchange.Persists s'.exchange)
    (hsend : ∀ c < s.exchange.channels.length, s'.exchange.hasSender c = true →
      s.exchange.hasSender c = true)
    (hrecv : ∀ c < s.exchange.channels.length, s'.exchange.hasReceiver c = true →
      s.exchange.hasReceiver c = true) : Later s s' := by
  refine ⟨hp, ?_, ?_⟩
  · intro c hc hnone
    rw [← Bool.not_eq_true] at hnone ⊢
    exact fun hheld => hnone (hsend c hc hheld)
  · intro c hc hnone
    rw [← Bool.not_eq_true] at hnone ⊢
    exact fun hheld => hnone (hrecv c hc hheld)

end Later

theorem hasSender_of_change (h : s.Sound) (hs : Change s s') {c : Nat}
    (hc : c < s.exchange.channels.length) (hheld : s'.exchange.hasSender c = true) :
    s.exchange.hasSender c = true := by
  rw [(h.change hs).hasSender_iff] at hheld
  rw [h.hasSender_iff]
  rcases hheld with ⟨p, hp, rfl⟩ | ⟨u, hu, hheld⟩
  · exact Or.inl (hs.senders p hp hc)
  · rcases hs.mem_tasks hu with hu | ⟨-, hw⟩
    · exact Or.inr ⟨u, hu, hheld⟩
    · exact Or.inl (hw.sender c hheld)

/-- A channel that nobody could read cannot be read by anyone after a step. -/
theorem hasReceiver_of_change (h : s.Sound) (hs : Change s s') {c : Nat}
    (hc : c < s.exchange.channels.length) (hheld : s'.exchange.hasReceiver c = true) :
    s.exchange.hasReceiver c = true := by
  rw [(h.change hs).hasReceiver_iff] at hheld
  rw [h.hasReceiver_iff]
  rcases hheld with ⟨p, hp, rfl⟩ | ⟨u, hu, hheld⟩
  · exact Or.inl (hs.inboxes p hp)
  · rcases hs.mem_tasks hu with hu | ⟨-, hw⟩
    · exact Or.inr ⟨u, hu, hheld⟩
    · rcases hw.receiver c hheld with hp | rfl
      · exact Or.inl hp
      · exact absurd hc (Nat.lt_irrefl _)

theorem holds_of_perform (ht : t ∈ s.exchange.tasks) (ha : s.exchange.Does t a) {u : Task}
    (hu : u ∈ (s.exchange.perform t a).tasks) : ∃ v ∈ s.exchange.tasks, ∀ c,
      u.work.holdsSender c = v.work.holdsSender c ∧
        u.work.holdsReceiver c = v.work.holdsReceiver c := by
  rcases Exchange.mem_tasks_perform hu with hu | ⟨w, hafter, rfl⟩
  · exact ⟨u, List.mem_of_mem_erase hu, fun _ => ⟨rfl, rfl⟩⟩
  · exact ⟨t, ht, fun c => ha.holds_of_goesOn hafter c⟩

/-- What is recorded stays recorded across a step. -/
theorem Sound.persists_change (h : s.Sound) (hs : Change s s') :
    s.exchange.Persists s'.exchange := by
  cases hs.turn with
  | still hy => exact .of_still hy
  | begins hw extra hy => exact (Exchange.Persists.spawn s.exchange extra _).trans (.of_still hy)
  | @aborts u hu hy =>
    rw [hy]
    have hnone : (s.exchange.without u).outcome? u.id = none := h.tidy.outcome_eq_none hu
    exact (Exchange.Persists.without s.exchange u).trans (.conclude hnone _)
  | cancels token hy =>
    rw [hy]
    refine ⟨Nat.le_refl _, Nat.le_refl _, ?_, fun _ _ ho => ho, List.prefix_refl _⟩
    intro other hc
    simp only [Exchange.isCancelled, Exchange.cancel, List.contains_cons, Bool.or_eq_true]
    exact Or.inr hc
  | advances secs hy =>
    rw [hy]
    exact ⟨Nat.le_refl _, Nat.le_add_right _ _, fun _ hc => hc, fun _ _ ho => ho,
      List.prefix_refl _⟩

/-- **A step undoes nothing.** -/
theorem Sound.later_change (h : s.Sound) (hs : Change s s') : Later s s' := by
  refine .of_holders (h.persists_change hs) ?_ ?_
  · intro c hc hheld
    exact hasSender_of_change h hs hc hheld
  · intro c hc hheld
    exact hasReceiver_of_change h hs hc hheld

theorem Sound.persists_perform (h : s.Sound) (ht : t ∈ s.exchange.tasks)
    (ha : s.exchange.Does t a) : s.exchange.Persists (s.exchange.perform t a) := by
  have hnone : (s.exchange.without t).tick.outcome? t.id = none := h.tidy.outcome_eq_none ht
  have htick := (Exchange.Persists.without s.exchange t).trans (.tick _)
  have hend := htick.trans (.conclude hnone a.after)
  exact hend.trans (.of_still (.of_onlyMessages ha.onlyMessages_perform))

/-- **An act undoes nothing.** -/
theorem Sound.later_perform (h : s.Sound) (ht : t ∈ s.exchange.tasks)
    (ha : s.exchange.Does t a) : Later s (s.withExchange (s.exchange.perform t a)) := by
  have hsound := h.perform ht ha
  refine .of_holders (h.persists_perform ht ha) ?_ ?_
  · intro c _ hheld
    rw [h.hasSender_iff]
    rcases (hsound.hasSender_iff c).1 hheld with hp | ⟨u, hu, hheld⟩
    · exact Or.inl hp
    · obtain ⟨v, hv, hsame⟩ := holds_of_perform ht ha hu
      exact Or.inr ⟨v, hv, (hsame c).1 ▸ hheld⟩
  · intro c _ hheld
    rw [h.hasReceiver_iff]
    rcases (hsound.hasReceiver_iff c).1 hheld with hp | ⟨u, hu, hheld⟩
    · exact Or.inl hp
    · obtain ⟨v, hv, hsame⟩ := holds_of_perform ht ha hu
      exact Or.inr ⟨v, hv, (hsame c).2 ▸ hheld⟩

end Session
end PeerNode
