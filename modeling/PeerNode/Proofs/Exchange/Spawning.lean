import PeerNode.Proofs.Exchange.Settling

/-!
# What a new task does first

Where every task waits, a new task changes nothing for the others: it stands behind them, so it
takes away neither room nor messages that they could have.  Unless it also holds an end of a
channel that nobody held before, none of them can act because of it (`exists_does_of_spawn`).  So
when tasks act then, the new one acts first, and what it does is decided by the exchange into which
it was begun.

* `exists_does_of_spawn`: a new task makes no other able to act.
* `Settled.eq_of_spawn`: so only the new one can.
* `exists_first_act`: settling begins with an act.
-/

namespace PeerNode

variable {x : Exchange} {t u : Task} {a : Act} {w : Work} {c : Nat}

namespace Exchange

/-- Whoever has room beside a new task had room before. -/
theorem mayPush_of_spawn (hp : (x.spawn w).1.mayPush u c = true) : x.mayPush u c = true := by
  have hwaiting : (x.spawn w).1.waitingSenders c =
      x.waitingSenders c ++ [⟨x.moment, w⟩].filter (·.work.wantsRoom c) := by
    rw [waitingSenders, waitingSenders, ← List.filter_append]
    rfl
  have hle : ∀ new : List Task, ((x.waitingSenders c).takeWhile (·.id != u.id)).length ≤
      ((x.waitingSenders c ++ new).takeWhile (·.id != u.id)).length := by
    intro new
    rw [List.takeWhile_append]
    split
    · rename_i heq
      rw [heq, List.length_append]
      exact Nat.le_add_right _ _
    · exact Nat.le_refl _
  simp only [mayPush, hwaiting, decide_eq_true_eq] at hp ⊢
  exact Nat.lt_of_le_of_lt (hle _) hp

theorem mayPull_of_spawn (hu : u ∈ x.tasks) (hw : u.work = .receive c)
    (hp : (x.spawn w).1.mayPull u c = true) : x.mayPull u c = true := by
  have hconsumes : u.work.consumes c = true := by
    rw [hw]
    exact beq_self_eq_true c
  obtain ⟨v, hv⟩ := Option.isSome_iff_exists.1
    (List.find?_isSome.2 ⟨u, hu, hconsumes⟩ : (x.tasks.find? (·.work.consumes c)).isSome)
  simp only [mayPull, spawn, List.find?_append, hv, Option.some_or] at hp ⊢
  exact hp

/-- **A new task makes no other able to act**, unless it holds an end that nobody held. -/
theorem exists_does_of_spawn
    (hreceiver : ∀ c, (x.spawn w).1.hasReceiver c = x.hasReceiver c)
    (hsender : ∀ c, (x.spawn w).1.hasSender c = x.hasSender c) (hu : u ∈ x.tasks)
    (ha : (x.spawn w).1.Does u a) : ∃ b, x.Does u b := by
  cases ha with
  | sendClosed hw hr => exact ⟨_, .sendClosed hw ((hreceiver _).symm.trans hr)⟩
  | sent hw hr hp =>
    exact ⟨_, .sent hw ((hreceiver _).symm.trans hr) (mayPush_of_spawn hp)⟩
  | received hw hp hb => exact ⟨_, .received hw (mayPull_of_spawn hu hw hp) hb⟩
  | receiveClosed hw hp hb hs =>
    exact ⟨_, .receiveClosed hw (mayPull_of_spawn hu hw hp) hb ((hsender _).symm.trans hs)⟩
  | listenerCancelled hw hc => exact ⟨_, .listenerCancelled hw hc⟩
  | listenerUnheard hw hc hm hr =>
    exact ⟨_, .listenerUnheard hw hc hm ((hreceiver _).symm.trans hr)⟩
  | forwarded hw hc hm hr hp =>
    exact ⟨_, .forwarded hw hc hm ((hreceiver _).symm.trans hr) (mayPush_of_spawn hp)⟩
  | @listenerQueues l m hw hc hm hr hp hq =>
    -- it may have had room before, and then it would have put its message in
    cases hp' : x.mayPush u l.target with
    | true => exact ⟨_, .forwarded hw hc hm ((hreceiver _).symm.trans hr) hp'⟩
    | false => exact ⟨_, .listenerQueues hw hc hm ((hreceiver _).symm.trans hr) hp' hq⟩
  | taken hw hc hm hb => exact ⟨_, .taken hw hc hm hb⟩
  | listenerDone hw hc hm hb hs =>
    exact ⟨_, .listenerDone hw hc hm hb ((hsender _).symm.trans hs)⟩
  | frameRead hw hst hk hr => exact ⟨_, .frameRead hw hst hk hr⟩
  | readFailed hw hst hk hr => exact ⟨_, .readFailed hw hst hk hr⟩
  | paused hw hst hk hr => exact ⟨_, .paused hw hst hk hr⟩
  | silenced hw hst hk hr => exact ⟨_, .silenced hw hst hk hr⟩
  | timedOut hw hst hk hd => exact ⟨_, .timedOut hw hst hk hd⟩
  | stalledOut hw hst hd => exact ⟨_, .stalledOut hw hst hd⟩
  | released hw hst hc =>
    refine ⟨_, .released hw hst ?_⟩
    rw [hreceiver] at hc
    exact hc
  | handed hw hst hc hr hp =>
    exact ⟨_, .handed hw hst hc ((hreceiver _).symm.trans hr) (mayPush_of_spawn hp)⟩

/-- Where every task waits, only a new one can act. -/
theorem Settled.eq_of_spawn (hx : x.Settled)
    (hreceiver : ∀ c, (x.spawn w).1.hasReceiver c = x.hasReceiver c)
    (hsender : ∀ c, (x.spawn w).1.hasSender c = x.hasSender c) (hu : u ∈ (x.spawn w).1.tasks)
    (ha : (x.spawn w).1.Does u a) : u = ⟨x.moment, w⟩ := by
  rcases List.mem_append.1 hu with hold | hnew
  · obtain ⟨b, hb⟩ := exists_does_of_spawn hreceiver hsender hold ha
    exact absurd hb (not_does_of_settled hx hold)
  · exact List.mem_singleton.1 hnew

/-- **Settling begins with an act**, unless every task waits. -/
theorem exists_first_act (hx : ¬ x.Settled) : ∃ t ∈ x.tasks, ∃ a, x.Does t a ∧
    ∃ line resting, x.settle = (x.perform t a).settleFrom line resting := by
  cases hs : x.schedule [] [] with
  | nil => exact absurd (able_eq_nil_of_schedule_eq_nil hs) hx
  | cons p rest =>
    obtain ⟨t, a, left⟩ := p
    have hable := mem_able (mem_able_of_mem_schedule (hs ▸ List.mem_cons_self))
    refine ⟨t, hable.1, a, act?_eq_some_iff.1 hable.2, ?_⟩
    rw [settle, settleFrom]
    split
    · rename_i heq
      obtain ⟨⟨rfl, rfl, rfl⟩, rfl⟩ : (_ ∧ _ ∧ _) ∧ _ := by simpa [hs] using heq
      split
      · exact ⟨_, _, rfl⟩
      · exact ⟨_, _, rfl⟩
    · rename_i heq
      cases hs.symm.trans heq

end Exchange
end PeerNode
