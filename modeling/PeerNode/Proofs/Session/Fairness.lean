import PeerNode.Proofs.Session.Moves
import PeerNode.Proofs.Exchange.Waiting

/-!
# Nobody waits in vain, and nobody is overtaken

Once the tasks of a session have done what they can, whoever still waits at the delivery queue has
cause to.  A task with a message for the queue waits only while the queue is full and somebody may
empty it, and a consumer waits only while it is empty and somebody may fill it.  So the two never
wait for each other: no freed place and no message is left lying while somebody waits for it.

A message that is sent without waiting does not get between: while anybody waits for room that he
has not been given, none is left over.

Those who wait are given what they wait for in the order in which they began to.  Consumers also
take it in that order, since only one of them at a time may look at the queue.  Producers have been
given their room before they use it, so of two who have, the second may come first if it is polled
first.  They put in their messages in order if tasks are polled in the order in which they were
woken (`PolledInOrder`), as they are in a session that settles after each step.

* `Work.brings?`: the message that a task has for a channel.
* `Settled.of_brings`, `Settled.of_receives`: why a task waits at a channel.
* `refused_while_waiting`: what comes of a message that is sent without waiting.
* `ServesInOrder`, `servesInOrder_of_isChain`: those who wait go ahead in order.
* `awake`, `PolledInOrder`: how long a task has been woken; the order in which tasks are polled.
* `inTurn_of_polledInOrder`, `polledInOrder_of_inTurn`: whoever goes ahead then is the first.
* `waits_for_cause_and_in_order`: all of this along every path.
-/

namespace PeerNode

open Exchange (Passes Momentary)

/-- The message that a task with this work has for a channel and has not put in. -/
def Work.brings? (c : Nat) : Work → Option Message
  | send target m => if target = c then some m else none
  | receive _ => none
  | listen l => if l.target = c then l.held else none
  | handle h =>
    match h.stage with
    | .reading .. | .stalled _ => none
    | .enqueuing m => if h.target = c then some m else none

namespace Exchange

variable {x : Exchange} {t : Task} {a : Act} {c : Nat} {m : Message}

/-- In a settled exchange whoever has a message for a channel waits for room in it. -/
theorem Settled.wantsRoom_of_brings (hx : x.Settled) (ht : t ∈ x.tasks)
    (h : t.work.brings? c = some m) : t.work.wantsRoom c = true := by
  rw [Work.wantsRoom_iff]
  cases hw : t.work with
  | send target m' =>
    rw [hw] at h
    simp only [Work.brings?] at h
    split at h
    · rename_i htarget
      exact Or.inl ⟨m', by rw [htarget]⟩
    · cases h
  | receive source =>
    rw [hw] at h
    cases h
  | listen l =>
    rw [hw] at h
    simp only [Work.brings?] at h
    split at h
    · rename_i htarget
      refine Or.inr (Or.inl ⟨l, m, rfl, htarget, h, ?_⟩)
      rcases hx.listener ht hw with ⟨hm, -⟩ | ⟨-, -, hp⟩
      · cases hm.symm.trans h
      · by_contra hq
        have hc : x.isCancelled l.token = false := by
          by_contra hc
          exact not_does_of_settled hx ht (.listenerCancelled hw (by simpa using hc))
        cases hr : x.hasReceiver l.target with
        | false => exact not_does_of_settled hx ht (.listenerUnheard hw hc h hr)
        | true =>
          exact not_does_of_settled hx ht (.listenerQueues hw hc h hr hp (by simpa using hq))
    · cases h
  | handle h' =>
    rw [hw] at h
    simp only [Work.brings?] at h
    split at h
    · cases h
    · cases h
    · rename_i m' hst
      split at h
      · rename_i htarget
        exact Or.inr (Or.inr ⟨h', m', rfl, htarget, hst⟩)
      · cases h

/-- **Who has a message for a channel waits because it is full**, and only while somebody may
empty it. -/
theorem Settled.of_brings (hx : x.Settled) (ht : t ∈ x.tasks) (h : t.work.brings? c = some m) :
    t ∈ x.waitingSenders c ∧ x.room c = 0 ∧ x.hasReceiver c = true := by
  have hwants := hx.wantsRoom_of_brings ht h
  have hidle : ∀ a, ¬ x.Does t a := fun a => not_does_of_settled hx ht
  refine ⟨List.mem_filter.2 ⟨ht, hwants⟩, hx.room_eq_zero (hx.mayPush_eq_false ht hwants), ?_⟩
  by_contra hr
  obtain ⟨a, ha⟩ := exists_does_of_wantsRoom hwants (Or.inl (by simpa using hr))
  exact hidle a ha

/-- **A consumer waits because the channel is empty**, and only while somebody may fill it. -/
theorem Settled.of_receives (hx : x.Settled) (ht : t ∈ x.tasks) (hw : t.work = .receive c) :
    x.buffer c = [] ∧ x.hasSender c = true :=
  hx.waitingReceiver (List.any_eq_true.2 ⟨t, ht, by simp [hw, Work.consumes]⟩)

theorem Settled.mayPush_of_brings (hx : x.Settled) (ht : t ∈ x.tasks)
    (h : t.work.brings? c = some m) : x.mayPush t c = false :=
  hx.mayPush_eq_false ht (hx.wantsRoom_of_brings ht h)

theorem trySend_full (hr : x.hasReceiver c = true) (hp : x.mayPush t c = false) (m : Message) :
    x.trySend c m = (x, .full) := by
  have hbefore := ((x.waitingSenders c).takeWhile_sublist (·.id != t.id)).length_le
  simp only [mayPush, decide_eq_false_iff_not, Nat.not_lt] at hp
  rw [trySend, hr, if_neg (by simp), if_neg (by omega)]

theorem Does.enters_or_ends (ha : x.Does t a) (h : t.work.offered? = some (c, m)) :
    a.ins c = [m] ∨ ∃ o, a = .alone (.ends o) := by
  have hwants : t.work.wantsRoom c = true := by simp [Work.wantsRoom, h]
  rcases ha.of_wantsRoom hwants with ⟨hends, -⟩ | ⟨⟨m', hm', hpush⟩, -⟩
  · exact Or.inr hends
  · obtain ⟨-, rfl⟩ := Prod.mk.inj (Option.some.inj (h.symm.trans hm'))
    rw [hpush]
    exact Or.inl (inChannel_self c [m])

theorem momentary_consumes (c : Nat) : Momentary (Work.consumes c) := by
  intro x t a w ha hconsumes hafter
  cases hw : t.work with
  | receive source =>
    obtain ⟨o, ho⟩ := Session.after_of_waiter ha (Or.inr ⟨source, hw⟩)
    cases hafter.symm.trans ho
  | _ => simp [hw, Work.consumes] at hconsumes

/-- Only the first of those who wait for a message may take one. -/
theorem Does.first_of_consumes (ha : x.Does t a) (hconsumes : t.work.consumes c = true)
    (hx : x.Tidy) (ht : t ∈ x.tasks) : (x.waiting (Work.consumes c)).head? = some t := by
  have hpull : x.mayPull t c = true := by
    cases ha with
    | received hw hp | receiveClosed hw hp =>
      obtain rfl : _ = c := by simpa [hw, Work.consumes] using hconsumes
      exact hp
    | _ => simp_all [Work.consumes]
  rw [waiting, List.head?_filter]
  rw [mayPull, Option.any_eq_true] at hpull
  obtain ⟨u, hfind, hid⟩ := hpull
  rw [hfind, hx.eq_of_id_eq (List.mem_of_find?_eq_some hfind) ht (by simpa using hid)]

end Exchange

namespace Session

variable {s s' : Session} {t : Task} {a : Act} {capacity : Nat} {kind : Work → Bool}
  {moves : Act → Prop} {path : List (Session × Cause)}

/-! ## Going ahead in order -/

/-- Whether those with a kind of work make their moves in the order in which they began to wait.
From one moment to the next some leave and others join them at the end; and when one of them makes
a move, all those who already stood before him at an earlier moment, from which on he has waited,
have departed since. -/
structure ServesInOrder (kind : Work → Bool) (moves : Act → Prop)
    (history : List (Session × Cause)) (last : Session) : Prop where
  passes : List.IsChain (fun x y : Exchange => Passes (x.waiting kind) (y.waiting kind))
    (history.map (·.1.exchange) ++ [last.exchange])
  departed : ∀ past s₁ k path s₂ u a future t,
    history = past ++ (s₁, k) :: (path ++ (s₂, Cause.act u a) :: future) →
    [t, u].Sublist (s₁.exchange.waiting kind) →
    (∀ p ∈ path, u ∈ p.1.exchange.waiting kind) → moves a →
    ∃ p ∈ (s₁, k) :: path, t ∈ p.1.exchange.waiting kind ∧ Departs t p

/-- Along a path those who wait pass on. -/
theorem passes_path (hkind : Momentary kind) (hs : s.Sound) (hp : Path s path s') :
    List.IsChain (fun x y : Exchange => Passes (x.waiting kind) (y.waiting kind))
      (path.map (·.1.exchange) ++ [s'.exchange]) := by
  induction hp with
  | refl => exact List.isChain_singleton _
  | @snoc path s' s'' k hp hk ih =>
    rw [List.map_append]
    refine List.IsChain.append ih (List.isChain_singleton _) fun x hx y hy => ?_
    rw [List.map_singleton, List.getLast?_concat] at hx
    obtain rfl := Option.some.inj hx
    obtain rfl := Option.some.inj hy
    exact passes_next hkind (hs.path hp) hk

/-- **If the first of those who wait goes ahead at every move, they go ahead in order.** -/
theorem servesInOrder_of_isChain (hkind : Momentary kind) (hs : s.Sound) (hp : Path s path s')
    (hturn : List.IsChain (InTurn kind moves) path) : ServesInOrder kind moves path s' := by
  refine ⟨passes_path hkind hs hp, ?_⟩
  intro past s₁ k between s₂ u a future t heq htu hwaits hmoves
  have hsplit : path = past ++ ((s₁, k) :: (between ++ [(s₂, .act u a)])) ++ future := by
    rw [heq]
    simp
  have hpart : (s₁, k) :: (between ++ [(s₂, .act u a)]) <:+: path := ⟨past, future, hsplit.symm⟩
  have hsound : ∀ p ∈ path, p.1.Sound := by
    intro p hmem
    obtain ⟨_, _, -, hinit, -⟩ := hp.before hmem
    exact hs.path hinit
  have hact : (s₂, Cause.act u a) ∈ path := hpart.subset (by simp)
  obtain ⟨_, _, -, -, hk⟩ := hp.before hact
  have hpassing := List.IsChain.infix hp.isChain.1 hpart
  have hturning := List.IsChain.infix hturn hpart
  refine departs_of_inTurn hkind ?_ (hsound _ hact) hpassing hturning hmoves
    (act_mem_tasks hk rfl).1 hwaits htu
  intro p hmem
  refine hsound p (hpart.subset ?_)
  rcases List.mem_cons.1 hmem with rfl | hmem
  · exact List.mem_cons_self
  · exact List.mem_cons_of_mem _ (List.mem_append_left _ hmem)

/-! ## Being polled in order -/

/-- Before how many of the last moves a task could act. -/
def awake (t : Task) (path : List (Session × Cause)) : Nat :=
  (path.reverse.takeWhile fun p => p.1.exchange.able.any (·.1 == t)).length

/-- Whether those who have waited for room in a channel are polled in the order in which they were
woken.  Whoever puts in a message has been awake for longer than any other who waits and could act,
or for as long if he began to wait before: room that becomes free at once for several wakes the one
first who has waited longest.  A cancelled task that stands behind him does not count, since it only
ends. -/
def PolledInOrder (c : Nat) (path : List (Session × Cause)) : Prop :=
  ∀ past p s₁ u a future, path = past ++ p :: (s₁, Cause.act u a) :: future →
    a.ins c ≠ [] → u ∈ p.1.exchange.waiting (Work.wantsRoom c) →
    ∀ t ∈ s₁.exchange.waiting (Work.wantsRoom c), t ≠ u → (∃ b, s₁.exchange.Does t b) →
      (s₁.exchange.Revoked t → [t, u].Sublist (s₁.exchange.waiting (Work.wantsRoom c))) →
      awake t (past ++ [p]) < awake u (past ++ [p]) ∨
      awake t (past ++ [p]) = awake u (past ++ [p]) ∧
        [u, t].Sublist (s₁.exchange.waiting (Work.wantsRoom c))

theorem awake_snoc (t : Task) (path : List (Session × Cause)) (s : Session) (k : Cause) :
    awake t (path ++ [(s, k)]) =
      if s.exchange.able.any (·.1 == t) then awake t path + 1 else 0 := by
  rw [awake, List.reverse_append, List.reverse_singleton, List.singleton_append,
    List.takeWhile_cons]
  split <;> rfl

theorem any_able_iff {x : Exchange} : x.able.any (·.1 == t) = true ↔
    t ∈ x.tasks ∧ ∃ a, x.Does t a := by
  rw [List.any_eq_true]
  constructor
  · rintro ⟨⟨u, a⟩, hmem, hu⟩
    obtain rfl : u = t := beq_iff_eq.1 hu
    obtain ⟨hu, ha⟩ := Exchange.mem_able hmem
    exact ⟨hu, a, Exchange.act?_eq_some_iff.1 ha⟩
  · rintro ⟨ht, a, ha⟩
    exact ⟨(t, a), Exchange.mem_able_of_does ht ha, beq_self_eq_true t⟩

/-- Who stood before another after a move and waited before it did so then. -/
theorem sublist_of_next (hkind : Momentary kind) (hs : s.Sound) {k : Cause} (hk : Next s k s')
    (htu : [t, u].Sublist (s'.exchange.waiting kind)) (hu : u ∈ s.exchange.waiting kind) :
    [t, u].Sublist (s.exchange.waiting kind) := by
  obtain ⟨kept, new, hafter, hkept, hnew⟩ := passes_next hkind hs hk
  rw [hafter, List.sublist_append_iff] at htu
  obtain ⟨front, back, hsplit, hfront, hback⟩ := htu
  rcases List.eq_nil_or_concat back with rfl | ⟨back, v, rfl⟩
  · rw [List.append_nil] at hsplit
    exact hsplit ▸ hfront.trans hkept
  · -- the second of the two is the last one, and has not just come
    rw [List.concat_eq_append, ← List.append_assoc] at hsplit
    obtain rfl : u = v := by
      have := congrArg List.getLast? hsplit
      simpa using this
    exact absurd hu (hnew u (hback.subset (by simp)))

/-- **Who has waited longer has been awake for as long**, unless the other one is cancelled. -/
theorem awake_le (hs : s.Sound) (hp : Path s path s') {c : Nat}
    (htu : [t, u].Sublist (s'.exchange.waiting (Work.wantsRoom c)))
    (hfree : ¬ s'.exchange.Revoked u) : awake u path ≤ awake t path := by
  induction hp with
  | refl => exact Nat.le_refl _
  | @snoc path s' s'' k hp hk ih =>
    have hs' := hs.path hp
    rw [awake_snoc, awake_snoc]
    split
    · rename_i hable
      obtain ⟨hu, a, ha⟩ := any_able_iff.1 hable
      have hwants := (Exchange.mem_waiting.1 (htu.subset (by simp : u ∈ [t, u]))).2
      have hbefore := sublist_of_next (Exchange.momentary_wantsRoom c) hs' hk htu
        (Exchange.mem_waiting.2 ⟨hu, hwants⟩)
      have hfree' : ¬ s'.exchange.Revoked u := by
        rintro ⟨token, htoken, hc⟩
        exact hfree ⟨token, htoken, (hs'.later_next hk).persists.cancelled token hc⟩
      have ht := Exchange.exists_does_of_before hs'.tidy hbefore ha hfree'
      rw [if_pos (any_able_iff.2 ⟨(Exchange.mem_waiting.1 (hbefore.subset (by simp))).1, ht⟩)]
      exact Nat.succ_le_succ (ih hbefore hfree')
    · exact Nat.zero_le _

theorem not_revoked_of_ins {x : Exchange} {c : Nat} (ha : x.Does t a) (hne : a.ins c ≠ [])
    (hwants : t.work.wantsRoom c = true) : ¬ x.Revoked t := by
  rcases ha.of_wantsRoom hwants with ⟨⟨o, rfl⟩, -⟩ | ⟨-, hfree, -⟩
  · exact absurd rfl hne
  · exact hfree

/-- **Where tasks are polled in order, whoever puts in a message is the first of those who have
waited.** -/
theorem inTurn_of_polledInOrder (hs : s.Sound) (hp : Path s path s') {c : Nat}
    (h : PolledInOrder c path) :
    List.IsChain (InTurn (Work.wantsRoom c) (·.ins c ≠ [])) path := by
  rw [List.isChain_iff_getElem]
  intro i hi u a hact hne hu
  have hsplit : path = path.take i ++ path[i] :: path[i + 1] :: path.drop (i + 2) := by
    rw [← List.drop_eq_getElem_cons hi, ← List.drop_eq_getElem_cons (by omega),
      List.take_append_drop]
  rw [show path[i + 1] = (path[i + 1].1, Cause.act u a) from Prod.ext rfl hact] at hsplit
  have hp' := hp
  rw [hsplit, List.append_cons] at hp'
  obtain ⟨_, hpast, hk, -⟩ := hp'.split
  obtain ⟨htask, ha⟩ := act_mem_tasks hk rfl
  have hs' := hs.path hpast
  have hwants := (Exchange.mem_waiting.1 hu).2
  have hwaits := Exchange.mem_waiting.2 ⟨htask, hwants⟩
  have hfree := not_revoked_of_ins ha hne hwants
  obtain ⟨t, hfirst⟩ : ∃ t, (path[i + 1].1.exchange.waiting (Work.wantsRoom c)).head? = some t := by
    rw [← Option.isSome_iff_exists, List.isSome_head?]
    exact List.ne_nil_of_mem hwaits
  by_contra hne'
  have htu : t ≠ u := fun he => hne' (he ▸ hfirst)
  obtain ⟨others, hothers⟩ := List.head?_eq_some_iff.1 hfirst
  have hbefore : [t, u].Sublist (path[i + 1].1.exchange.waiting (Work.wantsRoom c)) := by
    rw [hothers] at hwaits ⊢
    have hmem := (List.mem_cons.1 hwaits).resolve_left fun he => htu he.symm
    exact (List.singleton_sublist.2 hmem).cons_cons t
  have hable := Exchange.exists_does_of_before hs'.tidy hbefore ha hfree
  have hle := awake_le hs hpast hbefore hfree
  rcases h _ _ _ _ _ _ hsplit hne hu t (List.mem_of_mem_head? hfirst) htu hable
    (fun _ => hbefore) with hlt | ⟨-, hafter⟩
  · omega
  · exact not_before_first hs' hfirst hafter

/-- Tasks are polled in order if whoever puts in a message is the first of those who have waited. -/
theorem polledInOrder_of_inTurn (hs : s.Sound) (hp : Path s path s') {c : Nat}
    (h : List.IsChain (InTurn (Work.wantsRoom c) (·.ins c ≠ [])) path) :
    PolledInOrder c path := by
  rintro past p s₁ u a future rfl hne hu t ht htu - hrevoked
  have hpair : [p, (s₁, Cause.act u a)] <:+: past ++ p :: (s₁, Cause.act u a) :: future :=
    ⟨past, future, by simp⟩
  have hturning := List.IsChain.infix h hpair
  have hfirst := List.isChain_pair.1 hturning u a rfl hne hu
  rw [List.append_cons] at hp
  obtain ⟨_, hpast, hk, -⟩ := hp.split
  obtain ⟨-, ha⟩ := act_mem_tasks hk rfl
  obtain ⟨others, hothers⟩ := List.head?_eq_some_iff.1 hfirst
  have hbefore : [u, t].Sublist (s₁.exchange.waiting (Work.wantsRoom c)) := by
    rw [hothers] at ht ⊢
    exact (List.singleton_sublist.2 ((List.mem_cons.1 ht).resolve_left htu)).cons_cons u
  have hle := awake_le hs hpast hbefore fun h => not_before_first (hs.path hpast) hfirst (hrevoked h)
  exact (Nat.lt_or_eq_of_le hle).imp_right fun heq => ⟨heq, hbefore⟩

theorem isChain_consumes (hs : s.Sound) (hp : Path s path s') (c : Nat) :
    List.IsChain (InTurn (Work.consumes c) fun _ => True) path := by
  rw [List.isChain_iff_getElem]
  intro i hi t a hact _ ht
  have hmem : (path[i + 1].1, Cause.act t a) ∈ path := by
    rw [← hact]
    exact List.getElem_mem hi
  obtain ⟨_, _, -, hinit, hk⟩ := hp.before hmem
  obtain ⟨htask, ha⟩ := act_mem_tasks hk rfl
  exact ha.first_of_consumes (Exchange.mem_waiting.1 ht).2 (hs.path hinit).tidy htask

/-! ## At rest -/

/-- Whoever may empty the delivery queue while it is not empty is known by name. -/
theorem Sound.exists_inbox (hs : s.Sound) (hx : s.exchange.Settled)
    (hr : s.exchange.hasReceiver 0 = true) (hb : s.exchange.buffer 0 ≠ []) :
    ∃ inbox, (inbox, 0) ∈ s.inboxes := by
  rcases (hs.hasReceiver_iff 0).1 hr with ⟨⟨inbox, c⟩, hmem, rfl⟩ | ⟨t, ht, hheld⟩
  · exact ⟨inbox, hmem⟩
  · cases hw : t.work with
    | send | handle => simp [hw, Work.holdsReceiver] at hheld
    | receive source =>
      obtain rfl : source = 0 := by simpa [hw, Work.holdsReceiver] using hheld
      exact absurd (hx.of_receives ht hw).1 hb
    | listen l =>
      have hsource : l.source = 0 := by simpa [hw, Work.holdsReceiver] using hheld
      have hlt := l.target_lt_source
      omega

theorem offerAll_of_full {x : Exchange} {c : Nat} (h : ∀ m, x.trySend c m = (x, .full))
    (count : Nat) (last : Option (SendResult ⊕ Bool)) (ms : List Message) :
    (offerAll x c count last ms).1 = x := by
  induction ms generalizing count last with
  | nil => rfl
  | cons m ms ih =>
    simp only [offerAll, Exchange.offer, h]
    exact ih _ _

theorem sendAll_of_full {x : Exchange} {c : Nat} (h : ∀ m, x.trySend c m = (x, .full))
    (count : Nat) (last : Option (SendResult ⊕ Bool)) (ms : List Message) :
    (sendAll x c count last ms).1 = x := by
  cases ms with
  | nil => rfl
  | cons m ms => simp only [sendAll, h]

theorem buffer_of_tryReceive_nothing (hx : s.exchange.Settled) {inbox : String}
    (hl : s.inboxes.lookup inbox = some 0)
    (h : (s.apply (.tryReceive inbox)).2 = .found .nothing) : s.exchange.buffer 0 = [] := by
  cases hb : s.exchange.buffer 0 with
  | nil => rfl
  | cons m ms =>
    simp only [apply, withInbox, hl, hx.tryReceive hb] at h
    cases h

/-- **While somebody waits for room that is not there for him, others are refused**, and change
nothing. -/
theorem refused_while_waiting (hr : s.exchange.hasReceiver 0 = true)
    (hp : s.exchange.mayPush t 0 = false) {tx : String} (hl : s.senders.lookup tx = some 0) :
    (∀ m, s.apply (.trySend tx m) = (s, .sent .full) ∧
      s.apply (.offer tx m) = (s, .flag true)) ∧
    ∀ ms manner, (s.apply (.fill tx ms manner)).1 = s := by
  have hrefused := Exchange.trySend_full hr hp
  refine ⟨fun m => ⟨?_, ?_⟩, fun ms manner => ?_⟩
  · simp only [apply, withSender, hl, hrefused]
    rfl
  · simp only [apply, withSender, hl, Exchange.offer, hrefused]
    rfl
  · cases manner with
    | trySend =>
      simp only [apply, withSender, hl, sendAll_of_full hrefused]
      rfl
    | offer =>
      simp only [apply, withSender, hl, offerAll_of_full hrefused]
      rfl

/-- **Nobody waits in vain at a delivery queue, and nobody is overtaken there.**

Whichever way a session has gone, once all tasks have done what they can a task that has a message
for the queue waits for room, the queue is full, and an inbox may empty it; and a consumer that
waits finds the queue empty and somebody who may fill it.  So both never wait at a time, and whoever
tries to receive and finds nothing leaves nothing behind.

At any time nothing is put in past those who wait for room that is not there for them.  They put in
their messages, or end without doing so, in the order in which they began to wait if they are polled
in the order in which they were woken; and consumers take theirs in order in any case. -/
theorem waits_for_cause_and_in_order (hcap : 1 ≤ capacity)
    (hp : Path (Session.start capacity) path s) :
    (s.exchange.Settled →
      (∀ t ∈ s.exchange.tasks, ∀ m, t.work.brings? 0 = some m →
        t ∈ s.exchange.waitingSenders 0 ∧ s.exchange.mayPush t 0 = false ∧
        (s.exchange.buffer 0).length = capacity ∧ s.exchange.hasReceiver 0 = true ∧
        (∃ inbox, (inbox, 0) ∈ s.inboxes) ∧ ∀ u ∈ s.exchange.tasks, u.work ≠ .receive 0) ∧
      (∀ t ∈ s.exchange.tasks, t.work = .receive 0 →
        s.exchange.buffer 0 = [] ∧ s.exchange.hasSender 0 = true ∧
        ∀ u ∈ s.exchange.tasks, u.work.brings? 0 = none) ∧
      (∀ inbox, s.inboxes.lookup inbox = some 0 →
        (s.apply (.tryReceive inbox)).2 = .found .nothing → s.exchange.buffer 0 = [])) ∧
    (∀ t ∈ s.exchange.waitingSenders 0, s.exchange.hasReceiver 0 = true →
      s.exchange.mayPush t 0 = false → ∀ tx, s.senders.lookup tx = some 0 →
        (∀ m, s.apply (.trySend tx m) = (s, .sent .full) ∧
          s.apply (.offer tx m) = (s, .flag true)) ∧
        ∀ ms manner, (s.apply (.fill tx ms manner)).1 = s) ∧
    (∀ s' t a m, (s', Cause.act t a) ∈ path → t.work.offered? = some (0, m) →
      a.ins 0 = [m] ∨ ∃ o, a = .alone (.ends o)) ∧
    (PolledInOrder 0 path → ServesInOrder (Work.wantsRoom 0) (·.ins 0 ≠ []) path s) ∧
    ServesInOrder (Work.consumes 0) (fun _ => True) path s := by
  have hstart := Sound.start capacity
  have hs := hstart.path hp
  refine ⟨fun hx => ?_, ?_, ?_, ?_, ?_⟩
  · have hfull : ∀ t ∈ s.exchange.tasks, ∀ m, t.work.brings? 0 = some m →
        (s.exchange.buffer 0).length = capacity ∧ s.exchange.buffer 0 ≠ [] := by
      intro t ht m hm
      have hlength := length_buffer_eq hp (hx.of_brings ht hm).2.1
      refine ⟨hlength, fun hb => ?_⟩
      rw [hb, List.length_nil] at hlength
      omega
    refine ⟨?_, ?_, fun inbox hl hfound => buffer_of_tryReceive_nothing hx hl hfound⟩
    · intro t ht m hm
      obtain ⟨hwaits, -, hr⟩ := hx.of_brings ht hm
      obtain ⟨hlength, hb⟩ := hfull t ht m hm
      exact ⟨hwaits, hx.mayPush_of_brings ht hm, hlength, hr, hs.exists_inbox hx hr hb,
        fun u hu hw => hb (hx.of_receives hu hw).1⟩
    · intro t ht hw
      obtain ⟨hb, hsender⟩ := hx.of_receives ht hw
      refine ⟨hb, hsender, fun u hu => ?_⟩
      by_contra hne
      obtain ⟨m, hm⟩ := Option.ne_none_iff_exists'.1 hne
      exact (hfull u hu m hm).2 hb
  · exact fun t _ hr hpush tx hl => refused_while_waiting hr hpush hl
  · intro s' t a m hmem hoffered
    obtain ⟨_, _, -, -, hk⟩ := hp.before hmem
    exact (act_mem_tasks hk rfl).2.enters_or_ends hoffered
  · exact fun h => servesInOrder_of_isChain (Exchange.momentary_wantsRoom 0) hstart hp
      (inTurn_of_polledInOrder hstart hp h)
  · exact servesInOrder_of_isChain (Exchange.momentary_consumes 0) hstart hp
      (isChain_consumes hstart hp 0)

/-- In a session that settles after each step tasks are polled in the order in which they were
woken. -/
theorem polledInOrder_history (capacity : Nat) (steps : List Step) :
    PolledInOrder 0 ((Session.start capacity).history steps) :=
  have hladen : (Session.start capacity).exchange.Laden := fun _ ht => absurd ht List.not_mem_nil
  polledInOrder_of_inTurn (Sound.start capacity) (path_history _ _)
    (isChain_history (Sound.start capacity) hladen steps)

/-- A queue with one place is full, and two sends wait for room.  Once the message there has been
received the first puts in its own; the second still waits, and so a further message is refused. -/
theorem waits_for_cause_and_in_order_full : ∃ path s, Path (Session.start 1) path s ∧
    s.exchange.Settled ∧ PolledInOrder 0 path ∧
    ServesInOrder (Work.wantsRoom 0) (·.ins 0 ≠ []) path s ∧
    s.exchange.buffer 0 = [.direct ⟨"b"⟩ [2]] ∧
    ∃ t ∈ s.exchange.waitingSenders 0, t.work.brings? 0 = some (.direct ⟨"c"⟩ [3]) ∧
      s.apply (.trySend "p" (.direct ⟨"d"⟩ [4])) = (s, .sent .full) := by
  let b : Task := ⟨0, .send 0 (.direct ⟨"b"⟩ [2])⟩
  let c : Task := ⟨1, .send 0 (.direct ⟨"c"⟩ [3])⟩
  let s₁ := ((Session.start 1).apply (.trySend "p" (.direct ⟨"a"⟩ [1]))).1
  let s₂ := (s₁.apply (.send "p" (.direct ⟨"b"⟩ [2]) "v")).1
  let s₃ := (s₂.apply (.send "p" (.direct ⟨"c"⟩ [3]) "w")).1
  let s₄ := (s₃.apply (.tryReceive "i")).1
  let s₅ := s₄.withExchange (s₄.exchange.perform b (.push 0 (.direct ⟨"b"⟩ [2]) (.ends .sent)))
  have hp : Path (Session.start 1)
      [(Session.start 1, .step (.trySend "p" (.direct ⟨"a"⟩ [1]))),
        (s₁, .step (.send "p" (.direct ⟨"b"⟩ [2]) "v")),
        (s₂, .step (.send "p" (.direct ⟨"c"⟩ [3]) "w")), (s₃, .step (.tryReceive "i")),
        (s₄, .act b (.push 0 (.direct ⟨"b"⟩ [2]) (.ends .sent)))] s₅ :=
    ((((Path.single (.step _)).snoc (.step _)).snoc (.step _)).snoc (.step _)).snoc
      (.act List.mem_cons_self (.sent rfl rfl (by decide)))
  have hsettled : s₅.exchange.Settled := by
    change s₅.exchange.able = []
    decide
  have hpolled := polledInOrder_of_inTurn (c := 0) (Sound.start 1) hp <| by
    rw [List.isChain_iff_getElem]
    rintro (_ | _ | _ | _ | _ | i) hi t a hact - -
    · cases hact
    · cases hact
    · cases hact
    · cases hact
      rfl
    · exact absurd hi (by simp)
    · exact absurd hi (by simp)
  obtain ⟨hrest, hrefused, -, hserves, -⟩ := waits_for_cause_and_in_order (Nat.le_refl 1) hp
  obtain ⟨hwaits, hpush, -, hreceiver, -⟩ := (hrest hsettled).1 c List.mem_cons_self _ rfl
  exact ⟨_, s₅, hp, hsettled, hpolled, hserves hpolled, by decide, c, hwaits, rfl,
    ((hrefused c hwaits hreceiver hpush "p" rfl).1 _).1⟩

end Session
end PeerNode
