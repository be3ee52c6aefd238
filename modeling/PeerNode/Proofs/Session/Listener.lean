import PeerNode.Proofs.Session.Conservation

/-!
# A listener delivers what others have published

A listener stands between two channels: it takes from the subscription, passes over what the node
itself sent, and puts the rest into the delivery queue.  Between the two it holds at most one
message, for which it may have to wait.  So at any time the foreign messages that the subscription
has accepted are, in order: those that consumers have received, those that wait in the queue, the
one that the listener holds, and the foreign ones among those that wait in the subscription.

The law is found by looking at one act at a time (`Does.listener`): what the listener puts into
the queue and then holds is what it held before and the foreign part of what it has taken.  That
nobody else takes anything out of the subscription has to be carried along (`Forwarding`); that
nobody else puts anything into the queue is assumed.

* `foreign`: the messages of others.
* `Exchange.MayStop`: the reasons for which a listener stops of its own accord.
* `Forwarding`, `forwarding_next`, `forwarding_path`: the law, with all that carries it.
* `listener_delivers`: what consumers may rely on.
-/

namespace PeerNode

/-- The messages that others than `me` have sent. -/
def foreign (me : PeerName) (ms : List Message) : List Message := ms.filter (·.sender != me)

theorem foreign_append (me : PeerName) (ms ms' : List Message) :
    foreign me (ms ++ ms') = foreign me ms ++ foreign me ms' := List.filter_append ..

theorem sender_ne_of_mem_foreign {me : PeerName} {ms : List Message} {m : Message}
    (h : m ∈ foreign me ms) : m.sender ≠ me := by
  have := (List.mem_filter.1 h).2
  simpa using this

theorem toList_kept (me : PeerName) (m : Message) :
    (if m.sender = me then none else some m).toList = foreign me [m] := by
  by_cases h : m.sender = me <;> simp [foreign, h]

variable {x : Exchange} {t : Task} {a : Act}

namespace Exchange

/-- The reasons for which a listener stops of its own accord. -/
inductive MayStop (x : Exchange) (l : Listener) : Prop
  /-- It has been cancelled. -/
  | cancelled (hc : x.isCancelled l.token = true)
  /-- Its subscription is drained and nobody can fill it any more. -/
  | drained (hm : l.held = none) (hb : x.buffer l.source = [])
      (hs : x.hasSender l.source = false)
  /-- It has a message to deliver and nobody is there to receive it. -/
  | unheard {m : Message} (hm : l.held = some m) (hr : x.hasReceiver l.target = false)

/-- **What a listener does**: it passes on, or it stops for a reason. -/
theorem Does.listener {l : Listener} (h : x.Does t a) (hw : t.work = .listen l) :
    (∃ l' : Listener, a.after = .goesOn (.listen l') ∧ l'.source = l.source ∧
      l'.target = l.target ∧ l'.me = l.me ∧ l'.token = l.token ∧
      a.ins l.target ++ l'.held.toList = l.held.toList ++ foreign l.me (a.outs l.source)) ∨
    (a = .alone (.ends .stopped) ∧ x.MayStop l) := by
  have hwork : ∀ {l' : Listener}, t.work = .listen l' → l' = l := by
    intro l' hw'
    rw [hw, Work.listen.injEq] at hw'
    exact hw'.symm
  cases h with
  | listenerCancelled hw' hc =>
    obtain rfl := hwork hw'
    exact Or.inr ⟨rfl, .cancelled hc⟩
  | listenerUnheard hw' hc hm hr =>
    obtain rfl := hwork hw'
    exact Or.inr ⟨rfl, .unheard hm hr⟩
  | forwarded hw' hc hm hr hp =>
    obtain rfl := hwork hw'
    refine Or.inl ⟨_, rfl, rfl, rfl, rfl, rfl, ?_⟩
    simp [Act.ins, Act.outs, hm, foreign]
  | listenerQueues hw' hc hm hr hp hq =>
    obtain rfl := hwork hw'
    refine Or.inl ⟨_, rfl, rfl, rfl, rfl, rfl, ?_⟩
    simp [Act.ins, Act.outs, foreign]
  | taken hw' hc hm hb =>
    obtain rfl := hwork hw'
    refine Or.inl ⟨_, rfl, rfl, rfl, rfl, rfl, ?_⟩
    simp only [Act.ins, Act.outs, hm, inChannel_self, Option.toList_none, List.nil_append]
    exact toList_kept _ _
  | listenerDone hw' hc hm hb hs =>
    obtain rfl := hwork hw'
    exact Or.inr ⟨rfl, .drained hm hb hs⟩
  | _ => simp_all

/-- **Where a listener waits**: at its subscription, or for room in its queue. -/
theorem Settled.listener {l : Listener} (hx : x.Settled) (ht : t ∈ x.tasks)
    (hw : t.work = .listen l) :
    (l.held = none ∧ x.buffer l.source = [] ∧ x.hasSender l.source = true) ∨
    (∃ m, l.held = some m ∧ x.mayPush t l.target = false) := by
  have hidle : ∀ a, ¬ x.Does t a := fun a => not_does_of_settled hx ht
  have hc : x.isCancelled l.token = false := by
    by_contra hc
    exact hidle _ (.listenerCancelled hw (by simpa using hc))
  cases hm : l.held with
  | none =>
    refine Or.inl ⟨rfl, ?_⟩
    cases hb : x.buffer l.source with
    | cons m ms => exact absurd (.taken hw hc hm hb) (hidle _)
    | nil =>
      refine ⟨rfl, ?_⟩
      by_contra hs
      exact hidle _ (.listenerDone hw hc hm hb (by simpa using hs))
  | some m =>
    refine Or.inr ⟨m, rfl, ?_⟩
    by_contra hp
    cases hr : x.hasReceiver l.target with
    | false => exact hidle _ (.listenerUnheard hw hc hm hr)
    | true => exact hidle _ (.forwarded hw hc hm hr (by simpa using hp))

end Exchange

namespace Session

/-- The law of a listener that reads `source` and fills `target`, with all that carries it: what
`path` has put into the queue, and what the listener holds, is the foreign part of what it has
taken. -/
structure Forwarding (id source target : Nat) (me : PeerName) (token : Token)
    (path : List (Session × Cause)) (s : Session) : Prop where
  begun : id < s.exchange.moment
  known : source < s.exchange.channels.length
  alone : ∀ t ∈ s.exchange.tasks, t.work.holdsReceiver source = true → t.id = id
  law : ∀ t ∈ s.exchange.tasks, t.id = id → ∃ l : Listener, t.work = .listen l ∧
    l.source = source ∧ l.target = target ∧ l.me = me ∧ l.token = token ∧
    ins target path ++ l.held.toList = foreign me (outs source path)
  clean : ∀ m ∈ ins target path, m.sender ≠ me

variable {id source target : Nat} {me : PeerName} {token : Token}
  {path : List (Session × Cause)} {s s' : Session} {k : Cause}

/-- A move that is not the listener's own moves nothing at the two ends that the listener holds. -/
theorem still_of_not_by (hs : s.Sound) (h : Forwarding id source target me token path s)
    (hpos : 0 < source) (hk : Next s k s') (honly : k.ins target s ≠ [] → k.By id)
    (hby : ¬ k.By id) : k.ins target s = [] ∧ k.outs source s = [] := by
  refine ⟨by_contra fun hne => hby (honly hne), ?_⟩
  by_contra hne
  rcases consumer_of_outs hk hne with ⟨p, hp, hsource⟩ | ⟨t, a, rfl, hheld⟩
  · exact absurd (hs.queue p hp) (by omega)
  · exact hby (h.alone t (act_mem_tasks hk rfl).1 hheld)

/-- A step leaves the law as it is. -/
theorem forwarding_step (hs : s.Sound) (h : Forwarding id source target me token path s)
    (hpos : 0 < source) {st : Step} (honly : Cause.ins target s (.step st) = []) :
    Forwarding id source target me token (path ++ [(s, .step st)]) (s.apply st).1 := by
  have hchange := change_apply s st
  have hlater := hs.later_change hchange
  obtain ⟨hins, houts⟩ := still_of_not_by hs h hpos (.step st) (fun hne => absurd honly hne)
    fun hby => hby
  refine ⟨Nat.lt_of_lt_of_le h.begun hlater.persists.moment,
    Nat.lt_of_lt_of_le h.known hlater.length_channels, ?_, ?_, ?_⟩
  · intro t ht hheld
    rcases hchange.mem_tasks ht with ht | ⟨-, hbegun⟩
    · exact h.alone t ht hheld
    · rcases hbegun.receiver source hheld with ⟨p, hp, hsource⟩ | hsource
      · exact absurd (hs.queue p hp) (by omega)
      · exact absurd h.known (by omega)
  · intro t ht hid
    rw [ins_snoc, outs_snoc, hins, houts, List.append_nil, List.append_nil]
    rcases hchange.mem_tasks ht with ht | ⟨hnew, -⟩
    · exact h.law t ht hid
    · exact absurd h.begun (by omega)
  · rw [ins_snoc, hins, List.append_nil]
    exact h.clean

/-- An act of another task leaves the law as it is. -/
theorem forwarding_other (hs : s.Sound) (h : Forwarding id source target me token path s)
    (hpos : 0 < source) (ht : t ∈ s.exchange.tasks) (ha : s.exchange.Does t a)
    (honly : Cause.ins target s (.act t a) ≠ [] → t.id = id) (hid : t.id ≠ id) :
    Forwarding id source target me token (path ++ [(s, .act t a)])
      (s.withExchange (s.exchange.perform t a)) := by
  have hlater := hs.later_perform ht ha
  obtain ⟨hins, houts⟩ := still_of_not_by hs h hpos (.act ht ha) honly hid
  refine ⟨Nat.lt_of_lt_of_le h.begun hlater.persists.moment,
    Nat.lt_of_lt_of_le h.known hlater.length_channels, ?_, ?_, ?_⟩
  · intro u hu hheld
    rcases Exchange.mem_tasks_perform hu with hu | ⟨w, hafter, rfl⟩
    · exact h.alone u (List.mem_of_mem_erase hu) hheld
    · exact h.alone t ht ((ha.holds_of_goesOn hafter source).2 ▸ hheld)
  · intro u hu huid
    rw [ins_snoc, outs_snoc, hins, houts, List.append_nil, List.append_nil]
    rcases Exchange.mem_tasks_perform hu with hu | ⟨w, hafter, rfl⟩
    · exact h.law u (List.mem_of_mem_erase hu) huid
    · exact absurd huid hid
  · rw [ins_snoc, hins, List.append_nil]
    exact h.clean

/-- The listener's own acts keep the law. -/
theorem forwarding_own (hs : s.Sound) (h : Forwarding id source target me token path s)
    (ht : t ∈ s.exchange.tasks) (ha : s.exchange.Does t a) (hid : t.id = id) :
    Forwarding id source target me token (path ++ [(s, .act t a)])
      (s.withExchange (s.exchange.perform t a)) := by
  have hlater := hs.later_perform ht ha
  obtain ⟨l, hw, rfl, rfl, rfl, rfl, hlaw⟩ := h.law t ht hid
  have hins : Cause.ins l.target s (.act t a) = a.ins l.target := ins_of_does ha _
  have houts : Cause.outs l.source s (.act t a) = a.outs l.source := outs_of_does ha _
  have halone : ∀ u ∈ (s.exchange.perform t a).tasks,
      u.work.holdsReceiver l.source = true → u.id = id := by
    intro u hu hheld
    rcases Exchange.mem_tasks_perform hu with hu | ⟨w, hafter, rfl⟩
    · exact h.alone u (List.mem_of_mem_erase hu) hheld
    · exact hid
  rcases ha.listener hw with ⟨l', hafter, hsource, htarget, hme, htoken, hown⟩ | ⟨rfl, -⟩
  · -- The listener passes on; it alone stands behind the others with its number.
    have hnew : ins l.target (path ++ [(s, .act t a)]) ++ l'.held.toList =
        foreign l.me (outs l.source (path ++ [(s, .act t a)])) := by
      rw [ins_snoc, outs_snoc, hins, houts, List.append_assoc, hown, ← List.append_assoc, hlaw,
        foreign_append]
    refine ⟨Nat.lt_of_lt_of_le h.begun hlater.persists.moment,
      Nat.lt_of_lt_of_le h.known hlater.length_channels, halone, ?_, ?_⟩
    · intro u hu huid
      rcases Exchange.mem_tasks_perform hu with hu | ⟨w, hw', rfl⟩
      · exact absurd (huid.trans hid.symm) (hs.tidy.id_ne_of_mem_erase ht hu)
      · rw [hafter, After.goesOn.injEq] at hw'
        exact ⟨l', hw'.symm, hsource, htarget, hme, htoken, hnew⟩
    · intro m hm
      exact sender_ne_of_mem_foreign (hnew ▸ List.mem_append_left _ hm)
  · -- The listener stops; nobody has its number any more.
    refine ⟨Nat.lt_of_lt_of_le h.begun hlater.persists.moment,
      Nat.lt_of_lt_of_le h.known hlater.length_channels, halone, ?_, ?_⟩
    · intro u hu huid
      rcases Exchange.mem_tasks_perform hu with hu | ⟨w, hw', rfl⟩
      · exact absurd (huid.trans hid.symm) (hs.tidy.id_ne_of_mem_erase ht hu)
      · cases hw'
    · rw [ins_snoc, hins]
      simpa [Act.ins] using h.clean

/-- **Every move keeps the law.** -/
theorem forwarding_next (hs : s.Sound) (h : Forwarding id source target me token path s)
    (hpos : 0 < source) (hk : Next s k s') (honly : k.ins target s ≠ [] → k.By id) :
    Forwarding id source target me token (path ++ [(s, k)]) s' := by
  cases hk with
  | step st => exact forwarding_step hs h hpos (by_contra honly)
  | @act t a ht ha =>
    by_cases hid : t.id = id
    · exact forwarding_own hs h ht ha hid
    · exact forwarding_other hs h hpos ht ha honly hid

/-- **A path keeps the law**, if nobody but the listener fills its queue. -/
theorem forwarding_path (hs : s.Sound) (h : Forwarding id source target me token [] s)
    (hpos : 0 < source) (hp : Path s path s')
    (honly : ∀ p ∈ path, p.2.ins target p.1 ≠ [] → p.2.By id) :
    Forwarding id source target me token path s' := by
  induction hp with
  | refl => exact h
  | snoc hp hk ih =>
    have hrest := ih fun p hmem => honly p (List.mem_append_left _ hmem)
    refine forwarding_next (hs.path hp) hrest hpos hk ?_
    exact honly _ (List.mem_append_right _ (List.mem_singleton_self _))

/-! ## A listener begins -/

section Listening

variable {q capacity : Nat} {sub tx name : String} {hq : q < s.exchange.channels.length}

theorem apply_listen (htx : s.senders.lookup tx = some q) (hq : q < s.exchange.channels.length) :
    (s.apply (.listen sub capacity me tx token name)).1 =
      s.listening capacity me token hq sub name := by
  simp only [apply, withSender, htx, dif_pos hq]
  rfl

/-- The exchange in which a listener has just been begun on a new subscription. -/
def begunListener (x : Exchange) (capacity : Nat) (hq : q < x.channels.length) (me : PeerName)
    (token : Token) : Exchange :=
  (({ x with channels := x.channels ++ [⟨capacity, [], 1, 0⟩] } : Exchange).spawn
    (.listen ⟨x.channels.length, q, hq, me, token, none, false⟩)).1

theorem still_listening (s : Session) (capacity : Nat) (hq : q < s.exchange.channels.length)
    (me : PeerName) (token : Token) (sub name : String) :
    (begunListener s.exchange capacity hq me token).Still
      (s.listening capacity me token hq sub name).exchange :=
  still_dropSender (s.begin name ((s.exchange.listen q capacity me token hq).1,
    (s.exchange.listen q capacity me token hq).2.2)) sub

theorem tasks_listening (s : Session) (capacity : Nat) (hq : q < s.exchange.channels.length)
    (me : PeerName) (token : Token) (sub name : String) :
    (s.listening capacity me token hq sub name).exchange.tasks = s.exchange.tasks ++
      [⟨s.exchange.moment,
        .listen ⟨s.exchange.channels.length, q, hq, me, token, none, false⟩⟩] :=
  (still_listening s capacity hq me token sub name).tasks

/-- A new listener has its subscription to itself and has passed nothing on. -/
theorem forwarding_listening (hs : s.Sound) :
    Forwarding s.exchange.moment s.exchange.channels.length q me token []
      (s.listening capacity me token hq sub name) := by
  have hstill := still_listening s capacity hq me token sub name
  have hmem : ∀ t ∈ (s.listening capacity me token hq sub name).exchange.tasks,
      t ∈ s.exchange.tasks ∨ t = ⟨s.exchange.moment,
        .listen ⟨s.exchange.channels.length, q, hq, me, token, none, false⟩⟩ := by
    intro t ht
    rw [tasks_listening] at ht
    exact (List.mem_append.1 ht).imp_right List.mem_singleton.1
  refine ⟨?_, ?_, ?_, ?_, ?_⟩
  · rw [hstill.moment]
    exact Nat.lt_succ_self _
  · have hlen := congrArg List.length hstill.capacities
    simp only [List.length_map, begunListener, Exchange.spawn, Exchange.tick,
      List.length_append, List.length_singleton] at hlen
    omega
  · intro t ht hheld
    rcases hmem t ht with ht | rfl
    · exact absurd (hs.tidy.known t ht _ (Or.inr hheld)) (Nat.lt_irrefl _)
    · rfl
  · intro t ht hid
    rcases hmem t ht with ht | rfl
    · exact absurd (hs.tidy.numbered t ht) (by omega)
    · exact ⟨_, rfl, rfl, rfl, rfl, rfl, rfl⟩
  · exact fun m hm => absurd hm List.not_mem_nil

end Listening

/-! ## What consumers may rely on -/

/-- A channel into which nothing has gone is empty. -/
theorem buffer_eq_nil_of_accepted {capacity : Nat} (hp : Path (Session.start capacity) path s)
    (c : Nat) (h : s.exchange.accepted c = []) : s.exchange.buffer c = [] := by
  have hflow := flow_path hp c
  have hstart : (Session.start capacity).exchange.buffer c = [] := by
    cases c with
    | zero => rfl
    | succ c => rfl
  have hins : ins c path = [] := by
    have := hflow.accepted
    rw [h, eq_comm, List.append_eq_nil_iff] at this
    exact this.2
  have hlaw := ins_eq_outs_append hp hstart
  rw [hins, eq_comm, List.append_eq_nil_iff] at hlaw
  exact hlaw.2

theorem delivered_of_forwarding {l : Listener} (hp : Path s path s')
    (htarget : s.exchange.buffer target = []) (hsource : s.exchange.buffer source = [])
    (hlaw : ins target path ++ l.held.toList = foreign me (outs source path)) :
    outs target path ++ s'.exchange.buffer target ++ l.held.toList ++
      foreign me (s'.exchange.buffer source) = foreign me (ins source path) := by
  rw [← ins_eq_outs_append hp htarget, hlaw, ← foreign_append, ← ins_eq_outs_append hp hsource]

/-- **Why a listener has stopped**: it was aborted, or it had a reason of its own. -/
theorem stop_reason {l : Listener} (hk : Next s k s') (ht : t ∈ s.exchange.tasks)
    (hw : t.work = .listen l) (hgone : ∀ u ∈ s'.exchange.tasks, u.id ≠ t.id) :
    s'.exchange.outcome? t.id = some .aborted ∨ s.exchange.MayStop l := by
  cases hk with
  | step st =>
    rcases (change_apply s st).task_kept ht with hkept | ho
    · exact absurd rfl (hgone t hkept)
    · exact Or.inl ho
  | @act u a hu ha =>
    by_cases htu : t = u
    · subst htu
      rcases ha.listener hw with ⟨l', hafter, -⟩ | ⟨-, hstop⟩
      · have hmem := Exchange.mem_tasks_perform_of_goesOn s.exchange t hafter
        exact absurd rfl (hgone ⟨t.id, .listen l'⟩ hmem)
      · exact Or.inr hstop
    · have hmem := Exchange.mem_tasks_perform_of_ne ht htu a
      exact absurd rfl (hgone t hmem)

/-- **A listener delivers what others have published, in order, and stops for good reasons only.**

It is begun on a new subscription for a queue into which nothing has gone, and nobody else puts
anything into that queue. -/
theorem listener_delivers {capacity room q : Nat} {path₀ : List (Session × Cause)}
    {s₀ s₁ : Session} {sub tx name : String} (h₀ : Path (Session.start capacity) path₀ s₀)
    (htx : s₀.senders.lookup tx = some q) (hempty : s₀.exchange.accepted q = [])
    (h₁ : s₁ = (s₀.apply (.listen sub room me tx token name)).1) (hp : Path s₁ path s)
    (honly : ∀ p ∈ path, p.2.ins q p.1 ≠ [] → p.2.By s₀.exchange.moment) :
    let listener := s₀.exchange.moment
    let subscription := s₀.exchange.channels.length
    (∀ m ∈ ins q path, m.sender ≠ me) ∧
    ((∃ o, s.exchange.outcome? listener = some o) ∨
      ∃ t ∈ s.exchange.tasks, t.id = listener ∧ ∃ l : Listener, t.work = .listen l ∧
        outs q path ++ s.exchange.buffer q ++ l.held.toList ++
          foreign me (s.exchange.buffer subscription) = foreign me (ins subscription path) ∧
        (s.exchange.Settled →
          (l.held = none ∧ s.exchange.buffer subscription = []) ∨
          (∃ m, l.held = some m ∧ s.exchange.mayPush t q = false))) ∧
    (∀ k s', Next s k s' → ∀ t ∈ s.exchange.tasks, t.id = listener →
      (∀ u ∈ s'.exchange.tasks, u.id ≠ listener) →
      s'.exchange.outcome? listener = some .aborted ∨
      s.exchange.isCancelled token = true ∨
      (s.exchange.hasSender subscription = false ∧ s.exchange.buffer subscription = [] ∧
        ins q path = foreign me (ins subscription path) ∧
        ∀ path' s'', Path s' path' s'' → ins subscription path' = []) ∨
      (∃ l m, t.work = .listen l ∧ l.held = some m ∧ m.sender ≠ me ∧
        s.exchange.hasReceiver q = false)) := by
  intro listener subscription
  have hsound₀ := (Sound.start capacity).path h₀
  have hq := hsound₀.sender_lt htx
  have hpos : 0 < subscription := Nat.lt_of_le_of_lt (Nat.zero_le q) hq
  have hlisten : s₁ = s₀.listening room me token hq sub name := h₁.trans (apply_listen htx hq)
  have hsound₁ : s₁.Sound := h₁ ▸ hsound₀.change (change_apply _ _)
  have hsound := hsound₁.path hp
  have hflow₁ : ∀ c, s₁.exchange.buffer c = s₀.exchange.buffer c := by
    intro c
    rw [h₁]
    exact (flow_apply s₀ (.listen sub room me tx token name) c).untouched.buffer
  have hqueue : s₁.exchange.buffer q = [] :=
    (hflow₁ q).trans (buffer_eq_nil_of_accepted h₀ q hempty)
  have hnew : s₁.exchange.buffer subscription = [] := by
    rw [hflow₁]
    simp [Exchange.buffer, subscription]
  have hinv : Forwarding listener subscription q me token path s := by
    refine forwarding_path hsound₁ ?_ hpos hp honly
    rw [hlisten]
    exact forwarding_listening hsound₀
  refine ⟨hinv.clean, ?_, ?_⟩
  · have hrun : ⟨listener, .listen ⟨subscription, q, hq, me, token, none, false⟩⟩ ∈
        s₁.exchange.tasks := by
      rw [hlisten, tasks_listening]
      exact List.mem_append_right _ (List.mem_singleton_self _)
    rcases hsound₁.task_path hp hrun with ⟨t, ht, hid⟩ | ho
    · obtain ⟨l, hw, hsource, htarget, -, -, hlaw⟩ := hinv.law t ht hid
      refine Or.inr ⟨t, ht, hid, l, hw, delivered_of_forwarding hp hqueue hnew hlaw, ?_⟩
      intro hrest
      rw [← hsource, ← htarget]
      exact (hrest.listener ht hw).imp_left fun h => ⟨h.1, h.2.1⟩
    · exact Or.inl ho
  · intro k s' hk t ht hid hgone
    obtain ⟨l, hw, hsource, htarget, -, htoken, hlaw⟩ := hinv.law t ht hid
    rw [← hid] at hgone ⊢
    refine (stop_reason hk ht hw hgone).imp_right fun hstop => ?_
    cases hstop with
    | cancelled hc => exact Or.inl (htoken ▸ hc)
    | drained hm hb hnone =>
      rw [hsource] at hb hnone
      have hall : ins q path = foreign me (ins subscription path) := by
        have hold := ins_eq_outs_append hp hnew
        rw [hb, List.append_nil] at hold
        rwa [hm, Option.toList_none, List.append_nil, ← hold] at hlaw
      have hlater := hsound.later_next hk
      refine Or.inr (Or.inl ⟨hnone, hb, hall, ?_⟩)
      intro path' s'' hp'
      exact (hsound.next hk).ins_eq_nil (Nat.lt_of_lt_of_le hinv.known hlater.length_channels)
        (hlater.unfed _ hinv.known hnone) hp'
    | @unheard m hm hnone =>
      rw [htarget] at hnone
      refine Or.inr (Or.inr ⟨l, m, hw, hm, ?_, hnone⟩)
      rw [hm] at hlaw
      exact sender_ne_of_mem_foreign
        (hlaw ▸ List.mem_append_right _ (List.mem_singleton_self m))

/-- A listener on a new subscription for the queue of a new session passes on the message of
another, passes over one of its own, and then waits. -/
theorem listener_delivers_foreign : ∃ s₁ path s,
    s₁ = ((Session.start 1).apply (.listen "sub" 2 ⟨"me"⟩ "p" "stop" "l")).1 ∧
    Path s₁ path s ∧ ins 1 path = [Message.onTopic ⟨"a"⟩ "t" [1], Message.onTopic ⟨"me"⟩ "t" [2]] ∧
    ins 0 path = [Message.onTopic ⟨"a"⟩ "t" [1]] ∧
    ∀ m ∈ ins 0 path, m.sender ≠ ⟨"me"⟩ := by
  have hp := (((((Path.single (.step (s := ((Session.start 1).apply
    (.listen "sub" 2 ⟨"me"⟩ "p" "stop" "l")).1)
    (.trySend "sub" (.onTopic ⟨"a"⟩ "t" [1])))).snoc
    (.act List.mem_cons_self (.taken rfl rfl rfl rfl))).snoc
    (.act List.mem_cons_self (.forwarded rfl rfl rfl rfl rfl))).snoc
    (.step (.trySend "sub" (.onTopic ⟨"me"⟩ "t" [2])))).snoc
    (.act List.mem_cons_self (.taken rfl rfl rfl rfl)))
  refine ⟨_, _, _, rfl, hp, rfl, rfl, ?_⟩
  refine (listener_delivers .refl rfl rfl rfl hp ?_).1
  intro p hmem hne
  simp only [List.mem_append, List.mem_singleton] at hmem
  rcases hmem with (((rfl | rfl) | rfl) | rfl) | rfl
  · exact absurd rfl hne
  · exact rfl
  · exact rfl
  · exact absurd rfl hne
  · exact rfl

end Session
end PeerNode
