import PeerNode.Proofs.Exchange.Waiting

/-!
# Who feeds a listener

A listener loses nothing between its subscription and its queue, but that says little unless it is
known who else puts messages into the two.  Here messages come to the subscription by offers alone
and to the queue from the listener alone.  Both are properties of the steps that are taken
(`Step.OnlyOffers`), and from the steps they pass to the tasks: none but the listener ever holds a
sender of the queue, and none holds a sender of the subscription, so nobody waits for room in it.

The law of the listener outlives it.  When the listener stops, it may keep one message that it has
taken and not delivered; nothing moves at its two ends any more, so that message stays the only
one that is missing (`Fed.kept`).

* `Step.sender?`, `sender_of_ins`, `sender_of_begun`: the sender that a step works with.
* `Step.OnlyOffers`: the steps that leave a listener's ends to offers and to the listener.
* `Fed`, `Fed.next`, `fed_path`: what follows for the tasks, with the law of the listener.
* `Fed.hasReceiver_iff`: a subscription has a receiving end as long as its listener is at work.
-/

namespace PeerNode

open Exchange (OnlyMessages)

variable {s s' : Session} {t u : Task} {a : Act} {c : Nat}

/-- The sender through which a step puts messages into a channel, or begins a task that does. -/
def Step.sender? : Step → Option String
  | .trySend tx _ | .offer tx _ | .send tx _ _ | .fill tx _ _ | .listen _ _ _ tx _ _
  | .inbound _ _ _ _ tx _ _ => some tx
  | _ => none

/-- Whether a step puts messages into `source`, if into that, by an offer, and none into
`target`. -/
structure Step.OnlyOffers (s : Session) (source target : Nat) (st : Step) : Prop where
  offers : ∀ tx, st.sender? = some tx → s.senders.lookup tx = some source → ∃ m, st = .offer tx m
  apart : ∀ tx, st.sender? = some tx → s.senders.lookup tx ≠ some target

namespace Session

/-! ## The sender that a step works with -/

/-- A step that puts messages into a channel does so through a sender of it. -/
theorem sender_of_ins {st : Step} {answer : Answer} (h : st.ins s c answer ≠ []) :
    ∃ tx, st.sender? = some tx ∧ s.senders.lookup tx = some c := by
  unfold Step.ins at h
  split at h
  · exact ⟨_, rfl, lookup_of_byName_ne_nil h⟩
  · exact ⟨_, rfl, lookup_of_byName_ne_nil h⟩
  · exact ⟨_, rfl, lookup_of_byName_ne_nil h⟩
  · exact ⟨_, rfl, lookup_of_byName_ne_nil h⟩
  · exact absurd rfl h

theorem mem_tasks_withSender {tx : String} {f : Nat → Session × Answer}
    (hu : u ∈ (s.withSender tx f).1.exchange.tasks) :
    u ∈ s.exchange.tasks ∨ ∃ d, s.senders.lookup tx = some d ∧ u ∈ (f d).1.exchange.tasks := by
  unfold withSender at hu
  split at hu
  · rename_i d hl
    exact Or.inr ⟨d, hl, hu⟩
  · exact Or.inl hu

theorem mem_tasks_withInbox {inbox : String} {f : Nat → Session × Answer}
    (hu : u ∈ (s.withInbox inbox f).1.exchange.tasks) :
    u ∈ s.exchange.tasks ∨ ∃ d, u ∈ (f d).1.exchange.tasks := by
  unfold withInbox at hu
  split at hu
  · exact Or.inr ⟨_, hu⟩
  · exact Or.inl hu

theorem mem_tasks_of_onlyMessages {y : Exchange} (hy : OnlyMessages s.exchange y)
    (hu : u ∈ (s.withExchange y).exchange.tasks) : u ∈ s.exchange.tasks := hy.tasks ▸ hu

/-- **A task that a step begins, and that may put messages into a channel, was begun with a sender
of it**, and not by an offer. -/
theorem sender_of_begun {st : Step} (hu : u ∈ (s.apply st).1.exchange.tasks)
    (hheld : u.work.holdsSender c = true) :
    u ∈ s.exchange.tasks ∨ ∃ tx, st.sender? = some tx ∧ s.senders.lookup tx = some c ∧
      ∀ m, st ≠ .offer tx m := by
  have hnew : ∀ {tx : String} {d : Nat} {t : Task}, s.senders.lookup tx = some d →
      u ∈ s.exchange.tasks ++ [t] → (t.work.holdsSender c = true → d = c) →
      u ∈ s.exchange.tasks ∨ s.senders.lookup tx = some c := by
    intro tx d t hl hu hc
    rcases List.mem_append.1 hu with hu | hu
    · exact Or.inl hu
    · obtain rfl := List.mem_singleton.1 hu
      exact Or.inr (hc hheld ▸ hl)
  cases st with
  | trySend tx m =>
    rcases mem_tasks_withSender hu with hu | ⟨d, -, hu⟩
    · exact Or.inl hu
    · exact Or.inl (mem_tasks_of_onlyMessages (s.exchange.onlyMessages_trySend d m) hu)
  | offer tx m =>
    rcases mem_tasks_withSender hu with hu | ⟨d, -, hu⟩
    · exact Or.inl hu
    · exact Or.inl (mem_tasks_of_onlyMessages (s.exchange.onlyMessages_offer d m) hu)
  | send tx m name =>
    rcases mem_tasks_withSender hu with hu | ⟨d, hl, hu⟩
    · exact Or.inl hu
    · refine (hnew hl hu fun h => ?_).imp_right fun h => ⟨tx, rfl, h, by simp⟩
      simpa [Work.holdsSender] using h
  | fill tx ms manner =>
    rcases mem_tasks_withSender hu with hu | ⟨d, -, hu⟩
    · exact Or.inl hu
    · cases manner with
      | trySend =>
        exact Or.inl (mem_tasks_of_onlyMessages (s.exchange.onlyMessages_sendAll d 0 none ms) hu)
      | offer =>
        exact Or.inl (mem_tasks_of_onlyMessages (s.exchange.onlyMessages_offerAll d 0 none ms) hu)
  | cloneSender tx name =>
    rcases mem_tasks_withSender hu with hu | ⟨d, -, hu⟩
    · exact Or.inl hu
    · have hstill := still_dropSender (s.withExchange (s.exchange.cloneSender d)) name
      exact Or.inl (hstill.tasks ▸ hu)
  | dropSender tx => exact Or.inl ((still_dropSender s tx).tasks ▸ hu)
  | cloneInbox inbox name =>
    rcases mem_tasks_withInbox hu with hu | ⟨d, hu⟩
    · exact Or.inl hu
    · have hstill := still_dropInbox (s.withExchange (s.exchange.cloneInbox d)) name
      exact Or.inl (hstill.tasks ▸ hu)
  | dropInbox inbox => exact Or.inl ((still_dropInbox s inbox).tasks ▸ hu)
  | tryReceive inbox =>
    rcases mem_tasks_withInbox hu with hu | ⟨d, hu⟩
    · exact Or.inl hu
    · exact Or.inl (mem_tasks_of_onlyMessages (s.exchange.onlyMessages_tryReceive d) hu)
  | receiveBlocking inbox =>
    rcases s.receiveBlocking_cases inbox with ⟨d, -, -, h⟩ | h <;> rw [h] at hu
    · rcases List.mem_append.1 hu with hu | hu
      · exact Or.inl hu
      · obtain rfl := List.mem_singleton.1 hu
        cases hheld
    · rcases mem_tasks_withInbox hu with hu | ⟨d, hu⟩
      · exact Or.inl hu
      · exact Or.inl (mem_tasks_of_onlyMessages (s.exchange.onlyMessages_tryReceive d) hu)
  | drain inbox =>
    rcases mem_tasks_withInbox hu with hu | ⟨d, hu⟩
    · exact Or.inl hu
    · exact Or.inl (mem_tasks_of_onlyMessages (s.exchange.onlyMessages_drainFrom d _) hu)
  | receive inbox name =>
    rcases mem_tasks_withInbox hu with hu | ⟨d, hu⟩
    · exact Or.inl hu
    · rcases List.mem_append.1 hu with hu | hu
      · exact Or.inl hu
      · obtain rfl := List.mem_singleton.1 hu
        cases hheld
  | abort task =>
    simp only [apply] at hu
    split at hu
    · rename_i id _
      rcases Exchange.abort_cases s.exchange id with ⟨v, -, -, hy⟩ | hy
      · rw [withExchange, hy] at hu
        exact Or.inl (List.mem_of_mem_erase hu)
      · rw [withExchange, hy] at hu
        exact Or.inl hu
    · exact Or.inl hu
  | pending | cancel | nothing | advance => exact Or.inl hu
  | listen sub capacity me tx token name =>
    rcases mem_tasks_withSender hu with hu | ⟨d, hl, hu⟩
    · exact Or.inl hu
    · split at hu
      · rename_i hd
        have hu : u ∈ (s.listening capacity me token hd sub name).exchange.tasks := hu
        rw [tasks_listening] at hu
        refine (hnew hl hu fun h => ?_).imp_right fun h => ⟨tx, rfl, h, by simp⟩
        simpa [Work.holdsSender] using h
      · exact Or.inl hu
  | inbound script closes sender timeout tx token name =>
    rcases mem_tasks_withSender hu with hu | ⟨d, hl, hu⟩
    · exact Or.inl hu
    · refine (hnew hl hu fun h => ?_).imp_right fun h => ⟨tx, rfl, h, by simp⟩
      simpa [Work.holdsSender] using h
  | stream name =>
    simp only [apply] at hu
    split at hu <;> exact Or.inl hu

/-! ## What follows for the tasks -/

variable {id source target : Nat} {me : PeerName} {token : Token}
  {path : List (Session × Cause)} {k : Cause}

/-- The law of a listener whose queue nobody else fills and for whose subscription nobody waits,
whether or not it is still at work. -/
structure Fed (id source target : Nat) (me : PeerName) (token : Token)
    (path : List (Session × Cause)) (s : Session) : Prop where
  forwarding : Forwarding id source target me token path s
  /-- Nobody but the listener may put a message into its queue. -/
  queue : ∀ t ∈ s.exchange.tasks, t.work.holdsSender target = true → t.id = id
  /-- No task may put a message into the subscription. -/
  subscription : ∀ t ∈ s.exchange.tasks, t.work.holdsSender source = false
  /-- But for one message all that the listener has taken from others is delivered. -/
  kept : ∃ held : Option Message,
    ins target path ++ held.toList = foreign me (outs source path)

/-- Whether a move is an act, or a step that leaves a listener's ends alone. -/
def Cause.OnlyOffers (s : Session) (source target : Nat) (k : Cause) : Prop :=
  ∀ st, k = .step st → st.OnlyOffers s source target

namespace Fed

theorem by_of_ins (h : Fed id source target me token path s) (hk : Next s k s')
    (honly : k.OnlyOffers s source target) (hne : k.ins target s ≠ []) : k.By id := by
  cases hk with
  | step st =>
    obtain ⟨tx, htx, hl⟩ := sender_of_ins hne
    exact absurd hl ((honly st rfl).apart tx htx)
  | @act t a ht ha =>
    simp only [Cause.ins, ins_of_does ha] at hne
    exact h.queue t ht (ha.holdsSender_of_ins hne)

/-- A new task fills neither end of the listener. -/
theorem mem_of_holdsSender (honly : k.OnlyOffers s source target) (hk : Next s k s')
    (hu : u ∈ s'.exchange.tasks) (hc : c = source ∨ c = target)
    (hheld : u.work.holdsSender c = true) :
    ∃ v ∈ s.exchange.tasks, v.id = u.id ∧ v.work.holdsSender c = true := by
  cases hk with
  | step st =>
    rcases sender_of_begun hu hheld with hu | ⟨tx, htx, hl, hne⟩
    · exact ⟨u, hu, rfl, hheld⟩
    · rcases hc with rfl | rfl
      · obtain ⟨m, rfl⟩ := (honly st rfl).offers tx htx hl
        exact absurd rfl (hne m)
      · exact absurd hl ((honly st rfl).apart tx htx)
  | act ht ha =>
    obtain ⟨v, hv, hid, hpost⟩ := Exchange.mem_tasks_of_perform ht ha hu
    exact ⟨v, hv, hid, (hpost.holds c).1 ▸ hheld⟩

/-- **Every move keeps the law.** -/
theorem next (hs : s.Sound) (h : Fed id source target me token path s) (hpos : 0 < source)
    (hk : Next s k s') (honly : k.OnlyOffers s source target) :
    Fed id source target me token (path ++ [(s, k)]) s' := by
  have hby := h.by_of_ins hk honly
  refine ⟨forwarding_next hs h.forwarding hpos hk hby, ?_, ?_, ?_⟩
  · intro u hu hheld
    obtain ⟨v, hv, hid, hheld⟩ := mem_of_holdsSender honly hk hu (Or.inr rfl) hheld
    exact hid ▸ h.queue v hv hheld
  · intro u hu
    by_contra hheld
    rw [Bool.not_eq_false] at hheld
    obtain ⟨v, hv, -, hheld⟩ := mem_of_holdsSender honly hk hu (Or.inl rfl) hheld
    exact Bool.false_ne_true ((h.subscription v hv).symm.trans hheld)
  · have hstill : ¬ k.By id → ∃ held : Option Message,
        ins target (path ++ [(s, k)]) ++ held.toList =
          foreign me (outs source (path ++ [(s, k)])) := by
      intro hne
      obtain ⟨hins, houts⟩ := still_of_not_by hs h.forwarding hpos hk hby hne
      rw [ins_snoc, outs_snoc, hins, houts, List.append_nil, List.append_nil]
      exact h.kept
    cases hk with
    | step st => exact hstill fun hby => hby
    | @act t a ht ha =>
      by_cases hid : t.id = id
      · obtain ⟨l, hw, rfl, rfl, rfl, rfl, hlaw⟩ := h.forwarding.law t ht hid
        have hins : Cause.ins l.target s (.act t a) = a.ins l.target := ins_of_does ha _
        have houts : Cause.outs l.source s (.act t a) = a.outs l.source := outs_of_does ha _
        rcases ha.listener hw with ⟨l', -, -, -, -, -, hown⟩ | ⟨rfl, -⟩
        · refine ⟨l'.held, ?_⟩
          rw [ins_snoc, outs_snoc, hins, houts, List.append_assoc, hown, ← List.append_assoc, hlaw,
            foreign_append]
        · -- The listener stops with what it holds.
          refine ⟨l.held, ?_⟩
          rw [ins_snoc, outs_snoc, hins, houts]
          simpa [Act.ins, Act.outs] using hlaw
      · exact hstill hid

/-- **A subscription has a receiving end exactly as long as its listener is at work.** -/
theorem hasReceiver_iff (hs : s.Sound) (h : Fed id source target me token path s)
    (hpos : 0 < source) :
    s.exchange.hasReceiver source = true ↔ ∃ t ∈ s.exchange.tasks, t.id = id := by
  rw [hs.hasReceiver_iff]
  constructor
  · rintro (⟨p, hp, hsource⟩ | ⟨t, ht, hheld⟩)
    · exact absurd (hs.queue p hp) (by omega)
    · exact ⟨t, ht, h.forwarding.alone t ht hheld⟩
  · rintro ⟨t, ht, hid⟩
    obtain ⟨l, hw, hsource, -⟩ := h.forwarding.law t ht hid
    refine Or.inr ⟨t, ht, ?_⟩
    rw [hw]
    exact beq_iff_eq.2 hsource

end Fed

/-- **A path keeps the law**, if its steps leave the listener's ends alone. -/
theorem fed_path (hs : s.Sound) (h : Fed id source target me token [] s) (hpos : 0 < source)
    (hp : Path s path s') (honly : ∀ p ∈ path, p.2.OnlyOffers p.1 source target) :
    Fed id source target me token path s' := by
  induction hp with
  | refl => exact h
  | snoc hp hk ih =>
    have hrest := ih fun p hmem => honly p (List.mem_append_left _ hmem)
    have hlast := honly _ (List.mem_append_right _ (List.mem_singleton_self _))
    exact hrest.next (hs.path hp) hpos hk hlast

end Session
end PeerNode
