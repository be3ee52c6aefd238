import PeerNode.Proofs.Exchange.Holders

/-!
# What settling preserves

Settling lets tasks act in an order that depends on many things.  What is said about it never does:
whatever every act preserves is preserved (`settle_induction`).

The first use of this is that tasks stay at their posts.  A listener that acts goes on between the
same two channels and a handler goes on serving the same stream, so of the tasks after settling
each was there before, with the same ends (`mem_tasks_settle`).  The second is that a channel that
no task fills takes in nothing, and one that no task empties gives nothing away.

* `settle_induction`: what every act preserves is preserved; `settle_of_settled`: what is settled
  stays as it is.
* `Work.AtPost`, `Does.atPost`: tasks stay at their posts.
* `Books`: what has left a channel and what waits in it is what has entered it.
* `accepted_settle`, `delivered_settle`: channels at which no task works.
-/

namespace PeerNode

variable {x y : Exchange} {t : Task} {a : Act}

/-- Whether two works are of the same kind and at the same post; they may differ in how far they
have come. -/
inductive Work.AtPost : Work → Work → Prop
  | listen {l l' : Listener} (hsource : l'.source = l.source) (htarget : l'.target = l.target)
      (hme : l'.me = l.me) : AtPost (.listen l) (.listen l')
  | handle {h h' : Handler} (htarget : h'.target = h.target) (hsender : h'.sender = h.sender) :
      AtPost (.handle h) (.handle h')
  | other (w : Work) : AtPost w w

namespace Work.AtPost

variable {w w' w'' : Work}

theorem trans (h : w.AtPost w') (h' : w'.AtPost w'') : w.AtPost w'' := by
  cases h with
  | listen hsource htarget hme =>
    cases h' with
    | listen hsource' htarget' hme' =>
      exact .listen (hsource'.trans hsource) (htarget'.trans htarget) (hme'.trans hme)
    | other => exact .listen hsource htarget hme
  | handle htarget hsender =>
    cases h' with
    | handle htarget' hsender' =>
      exact .handle (htarget'.trans htarget) (hsender'.trans hsender)
    | other => exact .handle htarget hsender
  | other => exact h'

theorem holds (h : w.AtPost w') (c : Nat) :
    w'.holdsSender c = w.holdsSender c ∧ w'.holdsReceiver c = w.holdsReceiver c := by
  cases h with
  | listen hsource htarget => simp only [holdsSender, holdsReceiver, hsource, htarget, and_self]
  | handle htarget => simp only [holdsSender, holdsReceiver, htarget, and_self]
  | other => exact ⟨rfl, rfl⟩

theorem of_listen {l' : Listener} (h : w.AtPost (.listen l')) : ∃ l, w = .listen l ∧
    l'.source = l.source ∧ l'.target = l.target ∧ l'.me = l.me := by
  cases h with
  | listen hsource htarget hme => exact ⟨_, rfl, hsource, htarget, hme⟩
  | other => exact ⟨_, rfl, rfl, rfl, rfl⟩

theorem stays_listen {l : Listener} (h : (Work.listen l).AtPost w) : ∃ l', w = .listen l' := by
  cases h with
  | listen => exact ⟨_, rfl⟩
  | other => exact ⟨l, rfl⟩

theorem of_handle {h' : Handler} (hw : w.AtPost (.handle h')) : ∃ h, w = .handle h ∧
    h'.target = h.target ∧ h'.sender = h.sender := by
  cases hw with
  | handle htarget hsender => exact ⟨_, rfl, htarget, hsender⟩
  | other => exact ⟨_, rfl, rfl, rfl⟩

end Work.AtPost

namespace Exchange

/-- **Who acts and goes on stays at his post.** -/
theorem Does.atPost {w : Work} (h : x.Does t a) (hafter : a.after = .goesOn w) :
    t.work.AtPost w := by
  cases h with
  | forwarded hw | listenerQueues hw | taken hw =>
    rw [hw, ← After.goesOn.inj hafter]
    exact .listen rfl rfl rfl
  | frameRead hw | paused hw | silenced hw =>
    rw [hw, ← After.goesOn.inj hafter]
    exact .handle rfl rfl
  | _ => cases hafter

/-- **Whatever every act preserves is preserved by settling.** -/
theorem settle_induction {P : Exchange → Prop} (h : P x)
    (hstep : ∀ y t a, P y → t ∈ y.tasks → y.Does t a → P (y.perform t a)) : P x.settle := by
  have hnext : ∀ {y : Exchange} {line resting t a left rest}, P y →
      y.schedule line resting = (t, a, left) :: rest → P (y.perform t a) := by
    intro y line resting t a left rest hy hs
    have hable := mem_able (mem_able_of_mem_schedule (hs ▸ List.mem_cons_self))
    exact hstep y t a hy hable.1 (act?_eq_some_iff.1 hable.2)
  suffices hall : ∀ y line resting, P y → P (y.settleFrom line resting) from hall x [] [] h
  intro y line resting
  fun_induction settleFrom y line resting with
  | case1 y line resting t a left rest hs others hm ih => exact fun hy => ih (hnext hy hs)
  | case2 y line resting t a left rest hs others hm ih => exact fun hy => ih (hnext hy hs)
  | case3 y line hs => exact id
  | case4 y line id more hs ih => exact ih

/-- An exchange in which every task waits is settled already. -/
theorem settle_of_settled (hx : x.Settled) : x.settle = x := by
  have hs : x.schedule [] [] = [] := by
    simp [schedule, woken, show x.able = [] from hx]
  rw [settle, settleFrom]
  split
  · rename_i heq
    cases hs.symm.trans heq
  · rfl

theorem mem_tasks_of_perform (ht : t ∈ x.tasks) (ha : x.Does t a) {u : Task}
    (hu : u ∈ (x.perform t a).tasks) :
    ∃ v ∈ x.tasks, v.id = u.id ∧ v.work.AtPost u.work := by
  rcases mem_tasks_perform hu with hu | ⟨w, hafter, rfl⟩
  · exact ⟨u, List.mem_of_mem_erase hu, rfl, .other _⟩
  · exact ⟨t, ht, rfl, ha.atPost hafter⟩

/-- **A task after settling was one before, at the same post.** -/
theorem mem_tasks_settle {u : Task} (hu : u ∈ x.settle.tasks) :
    ∃ v ∈ x.tasks, v.id = u.id ∧ v.work.AtPost u.work := by
  suffices hall : ∀ u ∈ x.settle.tasks, ∃ v ∈ x.tasks, v.id = u.id ∧ v.work.AtPost u.work from
    hall u hu
  refine settle_induction (P := fun y => ∀ u ∈ y.tasks,
    ∃ v ∈ x.tasks, v.id = u.id ∧ v.work.AtPost u.work) ?_ ?_
  · exact fun u hu => ⟨u, hu, rfl, .other _⟩
  · intro y t a hy ht ha u hu
    obtain ⟨v, hv, hid, hpost⟩ := mem_tasks_of_perform ht ha hu
    obtain ⟨v', hv', hid', hpost'⟩ := hy v hv
    exact ⟨v', hv', hid'.trans hid, hpost'.trans hpost⟩

/-! ## Books -/

/-- What has left a channel and what waits in it is what has entered it, and nothing has entered a
channel that is not there. -/
structure Books (x : Exchange) : Prop where
  conserved : ∀ c, x.delivered c ++ x.buffer c = x.accepted c
  unborn : ∀ c, x.channels.length ≤ c → x.accepted c = []

/-- The books are right after whatever moves messages between channels that are there. -/
theorem Books.flow (h : x.Books) (hlen : x.channels.length ≤ y.channels.length)
    (hflow : ∀ c, ∃ ins outs, Flow x y c ins outs ∧ (y.channels.length ≤ c → ins = [])) :
    y.Books := by
  refine ⟨fun c => ?_, fun c hc => ?_⟩
  · obtain ⟨ins, outs, hf, -⟩ := hflow c
    rw [hf.delivered, hf.accepted, List.append_assoc, ← hf.conserved, ← List.append_assoc,
      h.conserved]
  · obtain ⟨ins, outs, hf, hnone⟩ := hflow c
    rw [hf.accepted, h.unborn c (Nat.le_trans hlen hc), hnone hc, List.append_nil]

/-- The books are right after whatever moves no message. -/
theorem Books.still (h : x.Books) (hlen : x.channels.length ≤ y.channels.length)
    (hflow : ∀ c, Flow x y c [] []) : y.Books :=
  h.flow hlen fun c => ⟨[], [], hflow c, fun _ => rfl⟩

theorem Books.eq_nil (h : x.Books) {c : Nat} (hc : x.accepted c = []) :
    x.delivered c = [] ∧ x.buffer c = [] := by
  have hlaw := h.conserved c
  rw [hc, List.append_eq_nil_iff] at hlaw
  exact hlaw

theorem Does.length_channels (h : x.Does t a) :
    (x.perform t a).channels.length = x.channels.length := by
  rw [h.onlyMessages_perform.length_channels, channels_conclude]
  rfl

theorem Books.perform (h : x.Books) (hx : x.Tidy) (ht : t ∈ x.tasks) (ha : x.Does t a) :
    (x.perform t a).Books := by
  refine h.flow (Nat.le_of_eq ha.length_channels.symm) fun c => ?_
  refine ⟨_, _, flow_perform ha.feasible t c, fun hc => ?_⟩
  by_contra hne
  have hknown := hx.known t ht c (Or.inl (ha.holdsSender_of_ins hne))
  rw [ha.length_channels] at hc
  omega

/-- A message that is offered goes into a channel that is there. -/
theorem Books.offer (h : x.Books) (d : Nat) (m : Message) : (x.offer d m).1.Books := by
  have hlen := (onlyMessages_offer x d m).length_channels
  refine h.flow (Nat.le_of_eq hlen.symm) fun c => ?_
  refine ⟨_, _, flow_offer x d m c, fun hc => ?_⟩
  by_contra hne
  obtain rfl := eq_of_inChannel_ne_nil hne
  rw [inChannel_self] at hne
  have hfree : 0 < x.free d := by
    by_contra hzero
    rw [Nat.eq_zero_of_not_pos hzero, List.take_zero, ite_self] at hne
    exact hne rfl
  have := lt_length_of_room_pos (room_pos_of_free_pos hfree)
  omega

theorem Books.tryReceive (h : x.Books) (d : Nat) : (x.tryReceive d).1.Books :=
  h.flow (Nat.le_of_eq (onlyMessages_tryReceive x d).length_channels.symm)
    fun c => ⟨_, _, flow_tryReceive x d c, fun _ => rfl⟩

/-! ## Channels at which no task works -/

/-- **A channel that no task fills takes in nothing.** -/
theorem accepted_settle {c : Nat} (h : ∀ t ∈ x.tasks, t.work.holdsSender c = false) :
    x.settle.accepted c = x.accepted c := by
  refine (settle_induction (P := fun y => y.accepted c = x.accepted c ∧
    ∀ t ∈ y.tasks, t.work.holdsSender c = false) ⟨rfl, h⟩ ?_).1
  rintro y t a ⟨hacc, hnone⟩ ht ha
  refine ⟨?_, ?_⟩
  · have hins : a.ins c = [] := by
      by_contra hne
      exact Bool.false_ne_true ((hnone t ht).symm.trans (ha.holdsSender_of_ins hne))
    rw [(flow_perform ha.feasible t c).accepted, hins, List.append_nil, hacc]
  · intro u hu
    obtain ⟨v, hv, -, hpost⟩ := mem_tasks_of_perform ht ha hu
    rw [(hpost.holds c).1, hnone v hv]

/-- **A channel that no task empties gives nothing away.** -/
theorem delivered_settle {c : Nat} (h : ∀ t ∈ x.tasks, t.work.holdsReceiver c = false) :
    x.settle.delivered c = x.delivered c := by
  refine (settle_induction (P := fun y => y.delivered c = x.delivered c ∧
    ∀ t ∈ y.tasks, t.work.holdsReceiver c = false) ⟨rfl, h⟩ ?_).1
  rintro y t a ⟨hdel, hnone⟩ ht ha
  refine ⟨?_, ?_⟩
  · have houts : a.outs c = [] := by
      by_contra hne
      exact Bool.false_ne_true ((hnone t ht).symm.trans (ha.holdsReceiver_of_outs hne))
    rw [(flow_perform ha.feasible t c).delivered, houts, List.append_nil, hdel]
  · intro u hu
    obtain ⟨v, hv, -, hpost⟩ := mem_tasks_of_perform ht ha hu
    rw [(hpost.holds c).2, hnone v hv]

end Exchange
end PeerNode
