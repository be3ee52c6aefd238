import PeerNode.Exchange.Act

/-!
# Running until every task waits

After each change from outside the tasks act until none of them can go further.  A task that has
begun to act goes on until it waits; the others stand in line in the order in which they became
able to act, and tasks that time woke at once in the order in which their timers rang.

A task does not keep the others waiting for ever: when it has moved a certain number of messages
in one turn it rests.  Once the line is empty those that rest join it again, the last one first.

This comes to an end because messages only move on: towards older channels, into the hands of
tasks, and out of the exchange.  `Exchange.load` counts how far all messages and frames still have
to go, and every act makes it smaller (`load_perform_lt`).

* `Exchange.able`: the tasks that can act, with their acts.
* `Exchange.settle`: the exchange in which every task waits.
* `settled_settle`: in it no task can act.
-/

namespace PeerNode

/-! ## How far everything still has to go -/

/-- How far a message in a channel still has to go. -/
def Channel.distance (c : Nat) : Nat := 3 * c + 3

/-- How far the messages of a task with this work still have to go. -/
def Work.load : Work → Nat
  | send target _ => Channel.distance target + 1
  | receive _ => 1
  | listen l =>
    match l.held with
    | none => 1
    | some _ => Channel.distance l.target + if l.queued then 2 else 3
  | handle h =>
    match h.stage with
    | .reading reader _ _ => Channel.distance h.target + 2 + reader.script.length
    | .stalled _ => 1
    | .enqueuing _ => Channel.distance h.target + 1

/-- How far the messages in channels still have to go, the first channel having number `c`. -/
def channelsLoad (c : Nat) : List Channel → Nat
  | [] => 0
  | channel :: rest => Channel.distance c * channel.buffer.length + channelsLoad (c + 1) rest

/-- How far the messages of tasks still have to go. -/
def tasksLoad : List Task → Nat
  | [] => 0
  | t :: rest => t.work.load + tasksLoad rest

/-- How far all messages and frames still have to go. -/
def Exchange.load (x : Exchange) : Nat := channelsLoad 0 x.channels + tasksLoad x.tasks

/-- What is left to go for a task that has acted. -/
def After.load : After → Nat
  | goesOn w => w.load
  | ends _ => 0

theorem tasksLoad_append (ts us : List Task) :
    tasksLoad (ts ++ us) = tasksLoad ts + tasksLoad us := by
  induction ts with
  | nil => simp [tasksLoad]
  | cons t ts ih =>
    simp only [List.cons_append, tasksLoad, ih]
    omega

/-- A task that leaves takes its load with it. -/
theorem tasksLoad_erase {ts : List Task} {t : Task} (h : t ∈ ts) :
    tasksLoad (ts.erase t) + t.work.load = tasksLoad ts := by
  induction ts with
  | nil => cases h
  | cons u us ih =>
    by_cases hu : u = t
    · subst hu
      simp [tasksLoad, Nat.add_comm]
    · have ht : t ∈ us := by
        rcases List.mem_cons.1 h with h | h
        · exact absurd h.symm hu
        · exact h
      have := ih ht
      rw [List.erase_cons_tail (by simpa using hu)]
      simp only [tasksLoad] at this ⊢
      omega

/-- A message more in a channel adds at most its distance. -/
theorem channelsLoad_push (m : Message) (chs : List Channel) (c d : Nat) :
    channelsLoad d (chs.modify c fun ch => { ch with buffer := ch.buffer ++ [m] }) ≤
      channelsLoad d chs + Channel.distance (d + c) := by
  induction chs generalizing c d with
  | nil => simp [channelsLoad]
  | cons ch chs ih =>
    cases c with
    | zero =>
      simp [channelsLoad, Nat.mul_add]
      omega
    | succ c =>
      have := ih c (d + 1)
      have hd : d + 1 + c = d + (c + 1) := by omega
      rw [hd] at this
      simp only [List.modify_succ_cons, channelsLoad]
      omega

/-- A message less in a channel takes its distance away. -/
theorem channelsLoad_pull {chs : List Channel} {c : Nat} {ch : Channel} (d : Nat)
    (h : chs[c]? = some ch) (hb : ch.buffer ≠ []) :
    channelsLoad d (chs.modify c fun ch => { ch with buffer := ch.buffer.tail }) +
      Channel.distance (d + c) = channelsLoad d chs := by
  induction chs generalizing c d with
  | nil => simp at h
  | cons e chs ih =>
    cases c with
    | zero =>
      simp only [List.getElem?_cons_zero, Option.some.injEq] at h
      subst h
      obtain ⟨m, ms, hm⟩ := List.exists_cons_of_ne_nil hb
      simp [channelsLoad, hm, Nat.mul_add]
      omega
    | succ c =>
      have := ih (d + 1) (by simpa using h)
      have hd : d + 1 + c = d + (c + 1) := by omega
      rw [hd] at this
      simp only [List.modify_succ_cons, channelsLoad]
      omega

namespace Exchange

/-- A task goes on with its load, or without any if it ends. -/
theorem load_conclude (x : Exchange) (id : Nat) (after : After) :
    (x.conclude id after).load = x.load + after.load := by
  cases after with
  | goesOn w => simp [conclude, load, After.load, tasksLoad_append, tasksLoad]; omega
  | ends o => simp [conclude, load, After.load, record]

/-- What an act leaves to go, beside what all others leave. -/
def actLoad : Act → Nat
  | .alone after => after.load
  | .push c _ after => Channel.distance c + after.load
  | .pull _ _ after => after.load

/-- What an act takes out of the channels. -/
def actRelief : Act → Nat
  | .pull c _ _ => Channel.distance c
  | _ => 0

/-- An act that takes a message takes one that is there. -/
def ActSound (x : Exchange) : Act → Prop
  | .pull c _ _ => x.buffer c ≠ []
  | _ => True

theorem exists_channel_of_buffer_ne_nil {x : Exchange} {c : Nat} (h : x.buffer c ≠ []) :
    ∃ channel, x.channels[c]? = some channel ∧ channel.buffer ≠ [] := by
  unfold buffer at h
  split at h
  · rename_i channel hc
    exact ⟨channel, hc, h⟩
  · exact absurd rfl h

/-- What an act leaves to go, all in all. -/
theorem load_perform_le {x : Exchange} {t : Task} {a : Act} (ht : t ∈ x.tasks)
    (ha : x.ActSound a) :
    (x.perform t a).load + t.work.load + actRelief a ≤ x.load + actLoad a := by
  have he := tasksLoad_erase ht
  cases a with
  | alone after =>
    simp only [perform, load_conclude, actLoad, actRelief]
    simp only [load, without, tick]
    omega
  | push c m after =>
    have hp := channelsLoad_push m x.channels c 0
    simp only [perform, load_conclude, actLoad, actRelief]
    simp only [load, without, tick, push, onChannel, record, Nat.zero_add] at *
    omega
  | pull c m after =>
    obtain ⟨channel, hc, hb⟩ := exists_channel_of_buffer_ne_nil ha
    have hp := channelsLoad_pull 0 hc hb
    simp only [perform, load_conclude, actLoad, actRelief]
    simp only [load, without, tick, pull, onChannel, record, Nat.zero_add] at *
    omega

/-! ## Every act makes it smaller -/

/-- A frame that is read on has fewer events before it. -/
theorem length_of_advanceFrom {taken : Bytes} {script : List ReadEvent} {secs : Nat}
    {next : Frame.Reader} (h : Frame.advanceFrom taken script = .pausing secs next) :
    next.script.length < script.length := by
  induction script generalizing taken with
  | nil => simp [Frame.advanceFrom] at h
  | cons e rest ih =>
    cases e with
    | fail e => simp [Frame.advanceFrom] at h
    | silence => simp [Frame.advanceFrom] at h
    | pause s =>
      simp only [Frame.advanceFrom, Frame.Progress.pausing.injEq] at h
      rw [← h.2]
      simp
    | bytes piece =>
      simp only [Frame.advanceFrom] at h
      split at h
      · cases h
      · cases h
      · have := ih h
        simp only [List.length_cons]
        omega

theorem listenerAct_sound {x : Exchange} {t : Task} {l : Listener} {a : Act}
    (h : x.listenerAct? t l = some a) :
    x.ActSound a ∧ actLoad a < (Work.listen l).load + actRelief a := by
  have hlt := l.target_lt_source
  unfold listenerAct? at h
  split at h
  · cases h
    refine ⟨trivial, ?_⟩
    simp only [actLoad, actRelief, After.load, Work.load, Channel.distance]
    split <;> omega
  · split at h
    · rename_i m hm
      split at h
      · cases h
        refine ⟨trivial, ?_⟩
        simp only [actLoad, actRelief, After.load, Work.load, Channel.distance, hm]
        omega
      · split at h
        · cases h
          refine ⟨trivial, ?_⟩
          simp only [actLoad, actRelief, After.load, Work.load, Channel.distance, hm]
          split <;> omega
        · split at h
          · cases h
          · rename_i hq
            cases h
            refine ⟨trivial, ?_⟩
            simp only [actLoad, actRelief, After.load, Work.load, hm, hq]
            simp
    · rename_i hm
      split at h
      · rename_i m ms hb
        cases h
        refine ⟨by simp [ActSound, hb], ?_⟩
        simp only [actLoad, actRelief, After.load, Work.load, hm, Channel.distance]
        repeat' split
        all_goals omega
      · split at h
        · cases h
        · cases h
          refine ⟨trivial, ?_⟩
          simp only [actLoad, actRelief, After.load, Work.load, hm]
          omega

theorem giveUp_sound {x : Exchange} {h : Handler} {deadline : Timer} {a : Act}
    (ha : x.giveUp? deadline = some a) :
    x.ActSound a ∧ actLoad a < (Work.handle h).load + actRelief a := by
  unfold giveUp? at ha
  split at ha
  · cases ha
    refine ⟨trivial, ?_⟩
    simp only [actLoad, actRelief, After.load, Work.load]
    split <;> omega
  · cases ha

theorem readingAct_sound {x : Exchange} {h : Handler} {reader : Frame.Reader}
    {wake deadline : Timer} {a : Act} (hs : h.stage = .reading reader wake deadline)
    (ha : x.readingAct? h reader wake deadline = some a) :
    x.ActSound a ∧ actLoad a < (Work.handle h).load + actRelief a := by
  have hl : (Work.handle h).load = Channel.distance h.target + 2 + reader.script.length := by
    simp [Work.load, hs]
  unfold readingAct? at ha
  split at ha
  · exact giveUp_sound ha
  · split at ha
    · cases ha
      refine ⟨trivial, ?_⟩
      rw [hl]
      simp only [actLoad, actRelief, After.load, Work.load]
      omega
    · cases ha
      refine ⟨trivial, ?_⟩
      simp only [actLoad, actRelief, After.load, hl]
      omega
    · rename_i secs next hn
      cases ha
      have := length_of_advanceFrom hn
      refine ⟨trivial, ?_⟩
      rw [hl]
      simp only [actLoad, actRelief, After.load, Work.load]
      omega
    · cases ha
      refine ⟨trivial, ?_⟩
      rw [hl]
      simp only [actLoad, actRelief, After.load, Work.load]
      omega

theorem act_sound {x : Exchange} {t : Task} {a : Act} (h : x.act? t = some a) :
    x.ActSound a ∧ actLoad a < t.work.load + actRelief a := by
  unfold act? at h
  split at h
  · rename_i target m hw
    rw [hw]
    split at h
    · cases h
      refine ⟨trivial, ?_⟩
      simp only [actLoad, actRelief, After.load, Work.load]
      omega
    · split at h
      · cases h
        refine ⟨trivial, ?_⟩
        simp only [actLoad, actRelief, After.load, Work.load]
        omega
      · cases h
  · rename_i source hw
    rw [hw]
    split at h
    · cases h
    · split at h
      · rename_i m ms hb
        cases h
        refine ⟨by simp [ActSound, hb], ?_⟩
        simp only [actLoad, actRelief, After.load, Work.load]
        omega
      · split at h
        · cases h
        · cases h
          refine ⟨trivial, ?_⟩
          simp only [actLoad, actRelief, After.load, Work.load]
          omega
  · rename_i l hw
    rw [hw]
    exact listenerAct_sound h
  · rename_i hd hw
    rw [hw]
    unfold handlerAct? at h
    split at h
    · rename_i hs
      exact readingAct_sound hs h
    · exact giveUp_sound h
    · rename_i m hs
      have hl : (Work.handle hd).load = Channel.distance hd.target + 1 := by
        simp [Work.load, hs]
      split at h
      · cases h
        refine ⟨trivial, ?_⟩
        simp only [actLoad, actRelief, After.load, hl]
        omega
      · split at h
        · cases h
          refine ⟨trivial, ?_⟩
          simp only [actLoad, actRelief, After.load, hl]
          omega
        · cases h

/-- Every act brings some message or frame further. -/
theorem load_perform_lt {x : Exchange} {t : Task} {a : Act} (ht : t ∈ x.tasks)
    (ha : x.act? t = some a) : (x.perform t a).load < x.load := by
  obtain ⟨hs, hlt⟩ := act_sound ha
  have := load_perform_le ht hs
  omega

end Exchange

/-! ## Running -/

/-- How many messages a task may take and put in one turn. -/
def turnLength : Nat := 128

/-- How many messages an act takes or puts. -/
def Act.moves : Act → Nat
  | .alone _ => 0
  | _ => 1

namespace Exchange

def able (x : Exchange) : List (Task × Act) :=
  x.tasks.filterMap fun t => (x.act? t).map fun a => (t, a)

/-- The timer that woke a task, if time did. -/
def alarm? (x : Exchange) (t : Task) : Option Timer :=
  match t.work with
  | .handle h =>
    match h.stage with
    | .reading _ wake deadline =>
      some (if x.hasRung wake && wake.le deadline then wake else deadline)
    | .stalled deadline => some deadline
    | .enqueuing _ => none
  | _ => none

/-- Whether a task that has become able to act may stand before another in the line. -/
def mayPrecede (x : Exchange) (t u : Task) : Bool :=
  match x.alarm? t, x.alarm? u with
  | some a, some b => a.le b
  | some _, none => false
  | none, _ => true

/-- The tasks that have become able to act: those that neither stand in the line nor rest. -/
def woken (x : Exchange) (line : List (Nat × Nat)) (resting : List Nat) : List (Task × Act) :=
  (x.able.filter fun p => !line.any (·.1 == p.1.id) && !resting.contains p.1.id).mergeSort
    fun p q => x.mayPrecede p.1 q.1

/-- The tasks that can act, in the order in which they are to do so, with their acts and with how
many messages they may still move in their turn.  First come those that stand in the line, where
they are given by their numbers, then those that have become able to act. -/
def schedule (x : Exchange) (line : List (Nat × Nat)) (resting : List Nat) :
    List (Task × Act × Nat) :=
  let able := x.able
  line.filterMap (fun (id, left) =>
      (able.find? (·.1.id == id)).map fun (t, a) => (t, a, left)) ++
    (x.woken line resting).map fun (t, a) => (t, a, turnLength)

theorem mem_able {x : Exchange} {p : Task × Act} (h : p ∈ x.able) :
    p.1 ∈ x.tasks ∧ x.act? p.1 = some p.2 := by
  simp only [able, List.mem_filterMap, Option.map_eq_some_iff] at h
  obtain ⟨t, ht, a, ha, rfl⟩ := h
  exact ⟨ht, ha⟩

theorem mem_able_of_mem_schedule {x : Exchange} {line : List (Nat × Nat)} {resting : List Nat}
    {p : Task × Act × Nat} (h : p ∈ x.schedule line resting) : (p.1, p.2.1) ∈ x.able := by
  simp only [schedule, woken, List.mem_append, List.mem_filterMap, List.mem_map,
    Option.map_eq_some_iff, List.mem_mergeSort, List.mem_filter] at h
  rcases h with ⟨_, _, q, hf, rfl⟩ | ⟨q, ⟨hm, _⟩, rfl⟩
  · exact List.mem_of_find?_eq_some hf
  · exact hm

/-- Lets tasks act until none can, where some stand in the line and some rest. -/
def settleFrom (x : Exchange) (line : List (Nat × Nat)) (resting : List Nat) : Exchange :=
  match _h : x.schedule line resting with
  | (t, a, left) :: rest =>
    let others := rest.map fun p => (p.1.id, p.2.2)
    if left ≤ a.moves then settleFrom (x.perform t a) others (t.id :: resting)
    else settleFrom (x.perform t a) ((t.id, left - a.moves) :: others) resting
  | [] =>
    match resting with
    | [] => x
    | id :: more => settleFrom x ((id :: more).map fun id => (id, turnLength)) []
termination_by (x.load, resting.length)
decreasing_by
  · have hm := mem_able (mem_able_of_mem_schedule (_h ▸ List.mem_cons_self))
    exact Prod.Lex.left _ _ (load_perform_lt hm.1 hm.2)
  · have hm := mem_able (mem_able_of_mem_schedule (_h ▸ List.mem_cons_self))
    exact Prod.Lex.left _ _ (load_perform_lt hm.1 hm.2)
  · exact Prod.Lex.right _ (by simp)

def settle (x : Exchange) : Exchange := x.settleFrom [] []

/-- Whether every task waits. -/
def Settled (x : Exchange) : Prop := x.able = []

/-- With nobody resting, whoever can act is scheduled. -/
theorem able_eq_nil_of_schedule_eq_nil {x : Exchange} {line : List (Nat × Nat)}
    (h : x.schedule line [] = []) : x.able = [] := by
  simp only [schedule, List.append_eq_nil_iff, List.filterMap_eq_nil_iff, List.map_eq_nil_iff,
    Option.map_eq_none_iff] at h
  obtain ⟨hl, hw⟩ := h
  have hf : x.able.filter (fun p => !line.any (·.1 == p.1.id) && !([] : List Nat).contains p.1.id)
      = [] := by
    have h := congrArg List.length hw
    rw [woken, List.length_mergeSort] at h
    exact List.eq_nil_of_length_eq_zero h
  rw [List.eq_nil_iff_forall_not_mem]
  intro p hp
  by_cases hc : line.any (·.1 == p.1.id) = true
  · obtain ⟨e, he, hid⟩ := List.any_eq_true.1 hc
    have := hl e he
    rw [List.find?_eq_none] at this
    exact this p hp (beq_iff_eq.2 (beq_iff_eq.1 hid).symm)
  · have : p ∈ x.able.filter
        (fun p => !line.any (·.1 == p.1.id) && !([] : List Nat).contains p.1.id) := by
      rw [Bool.not_eq_true] at hc
      simp [List.mem_filter, hp, hc]
    rw [hf] at this
    cases this

/-- After running every task waits. -/
theorem settled_settleFrom (x : Exchange) (line : List (Nat × Nat)) (resting : List Nat) :
    (x.settleFrom line resting).Settled := by
  fun_induction settleFrom x line resting with
  | case1 x line resting t a left rest h others hm ih => exact ih
  | case2 x line resting t a left rest h others hm ih => exact ih
  | case3 x line h => exact able_eq_nil_of_schedule_eq_nil h
  | case4 x line id more h ih => exact ih

/-- After running every task waits. -/
theorem settled_settle (x : Exchange) : x.settle.Settled := settled_settleFrom x [] []

end Exchange
end PeerNode
