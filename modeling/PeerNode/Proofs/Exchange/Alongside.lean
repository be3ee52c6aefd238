import PeerNode.Proofs.Exchange.Settling
import Mathlib.Logic.Relation

/-!
# Settling two exchanges side by side

Two exchanges look the same in some part, and each is settled in an order of its own.  If acts
outside of the part leave it alone, and those inside of it are the same in both exchanges whenever
there are any, then the part looks the same again afterwards: acts outside are passed over and acts
inside pair off, until neither exchange has any left (`Alongside.settle`).

* `Exchange.Step`, `steps_settle`: settling as a sequence of acts.
* `Alongside`: what a part must obey; `Alongside.settle`: it looks the same when all has settled.
* `Act.upon`, `getElem_perform`: what an act does to one channel.
* `getElem_settle`: a channel for which no task works stays as it is.
-/

namespace PeerNode

open Relation (ReflTransGen)

variable {x y : Exchange} {t : Task} {a : Act} {c : Nat}

namespace Exchange

/-! ## Acts inside and outside of a part -/

def Step (x y : Exchange) : Prop := ∃ t ∈ x.tasks, ∃ a, x.Does t a ∧ y = x.perform t a

/-- Settling is nothing but acts. -/
theorem steps_settle (x : Exchange) : ReflTransGen Step x x.settle :=
  settle_induction .refl fun _ t a hy ht ha => hy.tail ⟨t, ht, a, ha, rfl⟩

theorem not_step_of_settled (hx : x.Settled) : ¬ Step x y := fun ⟨_, ht, _, ha, _⟩ =>
  not_does_of_settled hx ht ha

/-- Two exchanges that look the same in a part, in which the works that are `inside` act.  What the
others do in the first exchange leaves the part alone, and if one of the works inside can act there,
somebody can act in the second exchange too. -/
structure Alongside (inside : Work → Bool) (R : Exchange → Exchange → Prop) : Prop where
  passes : ∀ x y t a, R x y → t ∈ x.tasks → x.Does t a → inside t.work = false →
    R (x.perform t a) y
  meets : ∀ x y t a, R x y → t ∈ x.tasks → x.Does t a → inside t.work = true → ∃ z, Step y z

/-- **Two exchanges that look the same in a part do so when they have settled.** -/
theorem Alongside.settle {inside : Work → Bool} {R : Exchange → Exchange → Prop}
    (h : Alongside inside R) (h' : Alongside inside fun y x => R x y)
    (both : ∀ x y t a u b, R x y → t ∈ x.tasks → x.Does t a → inside t.work = true →
      u ∈ y.tasks → y.Does u b → inside u.work = true → R (x.perform t a) (y.perform u b))
    (hxy : R x y) : R x.settle y.settle := by
  have hx := x.steps_settle
  have hy := y.steps_settle
  have hdone := settled_settle x
  have hdone' := settled_settle y
  generalize x.settle = X at hx hdone
  generalize y.settle = Y at hy hdone'
  -- The acts of `x` are followed first, and for each of them those of `y` up to its counterpart.
  induction hx using ReflTransGen.head_induction_on generalizing y with
  | refl =>
    induction hy using ReflTransGen.head_induction_on with
    | refl => exact hxy
    | head hstep _ ih =>
      obtain ⟨u, hu, b, hb, rfl⟩ := hstep
      cases hin : inside u.work with
      | false => exact ih (h'.passes _ _ u b hxy hu hb hin)
      | true =>
        obtain ⟨z, hz⟩ := h'.meets _ _ u b hxy hu hb hin
        exact absurd hz (not_step_of_settled hdone)
  | head hstep _ ih =>
    obtain ⟨t, ht, a, ha, rfl⟩ := hstep
    cases hin : inside t.work with
    | false => exact ih (h.passes _ _ t a hxy ht ha hin) hy
    | true =>
      induction hy using ReflTransGen.head_induction_on with
      | refl =>
        obtain ⟨z, hz⟩ := h.meets _ _ t a hxy ht ha hin
        exact absurd hz (not_step_of_settled hdone')
      | head hstep' hrest ih' =>
        obtain ⟨u, hu, b, hb, rfl⟩ := hstep'
        cases hin' : inside u.work with
        | false => exact ih' (h'.passes _ _ u b hxy hu hb hin')
        | true => exact ih (both _ _ t a u b hxy ht ha hin hu hb hin') hrest

end Exchange

/-! ## What an act does to a channel -/

/-- What an act does to one channel. -/
def Act.upon (c : Nat) : Act → Channel → Channel
  | .alone _, ch => ch
  | .push d m _, ch => if d = c then { ch with buffer := ch.buffer ++ [m] } else ch
  | .pull d _ _, ch => if d = c then { ch with buffer := ch.buffer.tail } else ch

namespace Exchange

theorem getElem_perform (x : Exchange) (t : Task) (a : Act) (c : Nat) :
    (x.perform t a).channels[c]? = x.channels[c]?.map (a.upon c) := by
  cases a with
  | alone after =>
    simp only [perform, channels_conclude, without, tick]
    exact (Option.map_id_apply).symm
  | push d m after =>
    simp only [perform, channels_conclude, push, record, onChannel, List.getElem?_modify]
    rfl
  | pull d m after =>
    simp only [perform, channels_conclude, pull, record, onChannel, List.getElem?_modify]
    rfl

theorem getElem_perform_of_still (x : Exchange) (t : Task) (hins : a.ins c = [])
    (houts : a.outs c = []) : (x.perform t a).channels[c]? = x.channels[c]? := by
  have hupon : a.upon c = id := by
    funext ch
    cases a with
    | alone after => rfl
    | push d m after => exact if_neg fun he => by simp [Act.ins, he] at hins
    | pull d m after => exact if_neg fun he => by simp [Act.outs, he] at houts
  rw [getElem_perform, hupon, Option.map_id_fun, id]

theorem Does.getElem_of_ne (ha : x.Does t a) (hsender : t.work.holdsSender c = false)
    (hreceiver : t.work.holdsReceiver c = false) :
    (x.perform t a).channels[c]? = x.channels[c]? := by
  refine x.getElem_perform_of_still t ?_ ?_
  · by_contra hins
    exact Bool.false_ne_true (hsender.symm.trans (ha.holdsSender_of_ins hins))
  · by_contra houts
    exact Bool.false_ne_true (hreceiver.symm.trans (ha.holdsReceiver_of_outs houts))

/-- A channel is what it is without its messages, with its messages. -/
theorem getElem_eq_of_emptied
    (h : x.channels[c]?.map Channel.emptied = y.channels[c]?.map Channel.emptied)
    (hbuffer : x.buffer c = y.buffer c) : x.channels[c]? = y.channels[c]? := by
  unfold buffer at hbuffer
  cases hx : x.channels[c]? with
  | none =>
    rw [hx, Option.map_none, eq_comm, Option.map_eq_none_iff] at h
    rw [h]
  | some ch =>
    rw [hx, Option.map_some, eq_comm] at h
    obtain ⟨ch', hy, hsame⟩ := Option.map_eq_some_iff.1 h
    rw [hx, hy] at hbuffer
    obtain ⟨capacity, buffer, senders, inboxes⟩ := ch
    obtain ⟨capacity', buffer', senders', inboxes'⟩ := ch'
    simp only [Channel.emptied, Channel.mk.injEq] at hsame hbuffer
    rw [hy, hbuffer, hsame.1, hsame.2.2.1, hsame.2.2.2]

/-- Settling moves messages and leaves the rest of a channel alone. -/
theorem emptied_settle (x : Exchange) (c : Nat) :
    x.settle.channels[c]?.map Channel.emptied = x.channels[c]?.map Channel.emptied := by
  refine settle_induction (P := fun y =>
    y.channels[c]?.map Channel.emptied = x.channels[c]?.map Channel.emptied) rfl ?_
  intro y t a hy _ _
  have hupon : ∀ ch, (a.upon c ch).emptied = ch.emptied := by
    intro ch
    cases a with
    | alone after => rfl
    | push d m after | pull d m after =>
      simp only [Act.upon]
      split <;> rfl
  rw [getElem_perform, Option.map_map, ← hy]
  exact congrArg (fun f => y.channels[c]?.map f) (funext hupon)

theorem length_settle (x : Exchange) : x.settle.channels.length = x.channels.length :=
  settle_induction (P := fun y => y.channels.length = x.channels.length) rfl
    fun _ _ _ hy _ ha => ha.length_channels.trans hy

/-- **A channel at which no task works stays as it is.** -/
theorem getElem_settle (h : ∀ t ∈ x.tasks,
    t.work.holdsSender c = false ∧ t.work.holdsReceiver c = false) :
    x.settle.channels[c]? = x.channels[c]? := by
  refine (settle_induction (P := fun y => y.channels[c]? = x.channels[c]? ∧
    ∀ t ∈ y.tasks, t.work.holdsSender c = false ∧ t.work.holdsReceiver c = false) ⟨rfl, h⟩ ?_).1
  rintro y t a ⟨hy, hnone⟩ ht ha
  refine ⟨?_, fun u hu => ?_⟩
  · exact (ha.getElem_of_ne (hnone t ht).1 (hnone t ht).2).trans hy
  · obtain ⟨v, hv, -, hpost⟩ := mem_tasks_of_perform ht ha hu
    rw [(hpost.holds c).1, (hpost.holds c).2]
    exact hnone v hv

/-! ## Listeners -/

def Listens (x : Exchange) (l : Listener) : Prop := ∃ t ∈ x.tasks, t.work = .listen l

/-- What the others do does not concern the listeners that fill a channel. -/
theorem Does.listens_of_ne (ha : x.Does t a) (ht : t ∈ x.tasks)
    (hne : t.work.holdsSender c = false) {l : Listener} (hl : l.target = c) :
    (x.perform t a).Listens l ↔ x.Listens l := by
  have hfills : (Work.listen l).holdsSender c = true := by simp [Work.holdsSender, hl]
  constructor
  · rintro ⟨u, hu, hw⟩
    obtain ⟨v, hv, -, hpost⟩ := mem_tasks_of_perform ht ha hu
    rcases mem_tasks_perform hu with hu | ⟨w, hafter, rfl⟩
    · exact ⟨u, List.mem_of_mem_erase hu, hw⟩
    · have hsame := ((ha.atPost hafter).holds c).1
      rw [show w = .listen l from hw, hfills, hne] at hsame
      cases hsame
  · rintro ⟨u, hu, hw⟩
    refine ⟨u, mem_tasks_perform_of_ne hu ?_ a, hw⟩
    rintro rfl
    rw [hw, hfills] at hne
    cases hne

theorem listenerAct?_congr {u : Task} {l : Listener}
    (hcancelled : x.isCancelled l.token = y.isCancelled l.token)
    (hreceiver : x.hasReceiver l.target = y.hasReceiver l.target)
    (hpush : x.mayPush t l.target = y.mayPush u l.target)
    (hbuffer : x.buffer l.source = y.buffer l.source)
    (hsender : x.hasSender l.source = y.hasSender l.source) :
    x.listenerAct? t l = y.listenerAct? u l := by
  unfold listenerAct?
  rw [hcancelled, hreceiver, hpush, hbuffer, hsender]

theorem buffer_congr (h : x.channels[c]? = y.channels[c]?) : x.buffer c = y.buffer c := by
  rw [buffer, buffer, h]

theorem room_congr (h : x.channels[c]? = y.channels[c]?) : x.room c = y.room c := by
  rw [room, room, h]

end Exchange
end PeerNode
