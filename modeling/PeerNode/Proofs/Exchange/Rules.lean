import PeerNode.Exchange.Settle

/-!
# The rules by which tasks act

`Exchange.act?` decides what a task does next by looking at one thing after another.  For proofs
the opposite order is better: here is one rule for each thing a task can do, with all the
conditions under which it does it.  `act?_eq_some_iff` says that the rules and the decision are
the same, so a proof about acts is a proof about rules, case by case, and a task waits exactly
when no rule applies to it.

* `Does`: the rules.
* `act?_eq_some_iff`: they are what `act?` decides.
* `not_does_of_settled`: in a settled exchange no rule applies.
-/

namespace PeerNode

/-- A handler whose message waits for room. -/
def Handler.offering (h : Handler) (bs : Bytes) : Handler :=
  { h with stage := .enqueuing (Message.direct h.sender bs) }

namespace Exchange

/-- What a task may do, and when.  There is one rule for each thing that can be done. -/
inductive Does (x : Exchange) (t : Task) : Act → Prop
  /-- A send finds that nobody holds the receiving end. -/
  | sendClosed {target : Nat} {m : Message} (hw : t.work = .send target m)
      (hr : x.hasReceiver target = false) : Does x t (.alone (.ends .closed))
  /-- A send puts its message into the channel. -/
  | sent {target : Nat} {m : Message} (hw : t.work = .send target m)
      (hr : x.hasReceiver target = true) (hp : x.mayPush t target = true) :
      Does x t (.push target m (.ends .sent))
  /-- A receive takes the first message. -/
  | received {source : Nat} {m : Message} {ms : List Message} (hw : t.work = .receive source)
      (hp : x.mayPull t source = true) (hb : x.buffer source = m :: ms) :
      Does x t (.pull source m (.ends (.received m)))
  /-- A receive finds the channel drained and nobody who could fill it. -/
  | receiveClosed {source : Nat} (hw : t.work = .receive source)
      (hp : x.mayPull t source = true) (hb : x.buffer source = [])
      (hs : x.hasSender source = false) : Does x t (.alone (.ends .channelClosed))
  /-- A listener has been cancelled. -/
  | listenerCancelled {l : Listener} (hw : t.work = .listen l)
      (hc : x.isCancelled l.token = true) : Does x t (.alone (.ends .stopped))
  /-- A listener holds a message for which there is no consumer any more. -/
  | listenerUnheard {l : Listener} {m : Message} (hw : t.work = .listen l)
      (hc : x.isCancelled l.token = false) (hm : l.held = some m)
      (hr : x.hasReceiver l.target = false) : Does x t (.alone (.ends .stopped))
  /-- A listener delivers the message that it holds. -/
  | forwarded {l : Listener} {m : Message} (hw : t.work = .listen l)
      (hc : x.isCancelled l.token = false) (hm : l.held = some m)
      (hr : x.hasReceiver l.target = true) (hp : x.mayPush t l.target = true) :
      Does x t (.push l.target m (.goesOn (.listen { l with held := none, queued := false })))
  /-- A listener begins to wait for room. -/
  | listenerQueues {l : Listener} {m : Message} (hw : t.work = .listen l)
      (hc : x.isCancelled l.token = false) (hm : l.held = some m)
      (hr : x.hasReceiver l.target = true) (hp : x.mayPush t l.target = false)
      (hq : l.queued = false) :
      Does x t (.alone (.goesOn (.listen { l with queued := true })))
  /-- A listener takes a message from its subscription, and drops it if the node sent it. -/
  | taken {l : Listener} {m : Message} {ms : List Message} (hw : t.work = .listen l)
      (hc : x.isCancelled l.token = false) (hm : l.held = none)
      (hb : x.buffer l.source = m :: ms) :
      Does x t (.pull l.source m
        (.goesOn (.listen { l with held := if m.sender = l.me then none else some m })))
  /-- A listener finds its subscription drained and nobody who could fill it. -/
  | listenerDone {l : Listener} (hw : t.work = .listen l)
      (hc : x.isCancelled l.token = false) (hm : l.held = none) (hb : x.buffer l.source = [])
      (hs : x.hasSender l.source = false) : Does x t (.alone (.ends .stopped))
  /-- A handler has the body of its frame. -/
  | frameRead {h : Handler} {r : Frame.Reader} {wake deadline : Timer} {bs : Bytes}
      (hw : t.work = .handle h) (hst : h.stage = .reading r wake deadline)
      (hk : x.hasRung wake = true) (hr : r.advance = .body bs) :
      Does x t (.alone (.goesOn (.handle (h.offering bs))))
  /-- A handler fails to read its frame. -/
  | readFailed {h : Handler} {r : Frame.Reader} {wake deadline : Timer} {e : StreamError}
      (hw : t.work = .handle h) (hst : h.stage = .reading r wake deadline)
      (hk : x.hasRung wake = true) (hr : r.advance = .failed e) :
      Does x t (.alone (.ends (.handled false)))
  /-- A handler waits for its stream to go on. -/
  | paused {h : Handler} {r next : Frame.Reader} {wake deadline : Timer} {secs : Nat}
      (hw : t.work = .handle h) (hst : h.stage = .reading r wake deadline)
      (hk : x.hasRung wake = true) (hr : r.advance = .pausing secs next) :
      Does x t (.alone (.goesOn
        (.handle { h with stage := .reading next (x.timer secs) deadline })))
  /-- A handler's stream has fallen silent. -/
  | silenced {h : Handler} {r : Frame.Reader} {wake deadline : Timer}
      (hw : t.work = .handle h) (hst : h.stage = .reading r wake deadline)
      (hk : x.hasRung wake = true) (hr : r.advance = .silent) :
      Does x t (.alone (.goesOn (.handle { h with stage := .stalled deadline })))
  /-- A handler has nothing to read and no time left. -/
  | timedOut {h : Handler} {r : Frame.Reader} {wake deadline : Timer}
      (hw : t.work = .handle h) (hst : h.stage = .reading r wake deadline)
      (hk : x.hasRung wake = false) (hd : x.hasRung deadline = true) :
      Does x t (.alone (.ends (.handled false)))
  /-- A handler of a silent stream has no time left. -/
  | stalledOut {h : Handler} {deadline : Timer} (hw : t.work = .handle h)
      (hst : h.stage = .stalled deadline) (hd : x.hasRung deadline = true) :
      Does x t (.alone (.ends (.handled false)))
  /-- A handler with a message is cancelled, or finds that there is no consumer any more. -/
  | released {h : Handler} {m : Message} (hw : t.work = .handle h)
      (hst : h.stage = .enqueuing m)
      (hc : (x.isCancelled h.token || !x.hasReceiver h.target) = true) :
      Does x t (.alone (.ends (.handled false)))
  /-- A handler delivers its message and closes its stream. -/
  | handed {h : Handler} {m : Message} (hw : t.work = .handle h)
      (hst : h.stage = .enqueuing m) (hc : x.isCancelled h.token = false)
      (hr : x.hasReceiver h.target = true) (hp : x.mayPush t h.target = true) :
      Does x t (.push h.target m (.ends (.handled h.closes)))

variable {x : Exchange} {t : Task} {a : Act}

/-! ## The decision follows the rules -/

theorem does_of_listenerAct {l : Listener} (hw : t.work = .listen l)
    (h : x.listenerAct? t l = some a) : x.Does t a := by
  unfold listenerAct? at h
  split at h
  · rename_i hc
    cases h
    exact .listenerCancelled hw hc
  · rename_i hc
    rw [Bool.not_eq_true] at hc
    split at h
    · rename_i m hm
      split at h
      · rename_i hr
        cases h
        exact .listenerUnheard hw hc hm (by simpa using hr)
      · rename_i hr
        have hr : x.hasReceiver l.target = true := by simpa using hr
        split at h
        · rename_i hp
          cases h
          exact .forwarded hw hc hm hr hp
        · rename_i hp
          split at h
          · cases h
          · rename_i hq
            cases h
            exact .listenerQueues hw hc hm hr (by simpa using hp) (by simpa using hq)
    · rename_i hm
      split at h
      · rename_i m ms hb
        cases h
        exact .taken hw hc hm hb
      · rename_i hb
        split at h
        · cases h
        · rename_i hs
          cases h
          exact .listenerDone hw hc hm hb (by simpa using hs)

theorem does_of_readingAct {h : Handler} {r : Frame.Reader} {wake deadline : Timer}
    (hw : t.work = .handle h) (hst : h.stage = .reading r wake deadline)
    (ha : x.readingAct? h r wake deadline = some a) : x.Does t a := by
  unfold readingAct? at ha
  split at ha
  · rename_i hk
    unfold giveUp? at ha
    split at ha
    · rename_i hd
      cases ha
      exact .timedOut hw hst (by simpa using hk) hd
    · cases ha
  · rename_i hk
    have hk : x.hasRung wake = true := by simpa using hk
    split at ha
    · rename_i hr
      cases ha
      exact .frameRead hw hst hk hr
    · rename_i hr
      cases ha
      exact .readFailed hw hst hk hr
    · rename_i hr
      cases ha
      exact .paused hw hst hk hr
    · rename_i hr
      cases ha
      exact .silenced hw hst hk hr

theorem does_of_handlerAct {h : Handler} (hw : t.work = .handle h)
    (ha : x.handlerAct? t h = some a) : x.Does t a := by
  unfold handlerAct? at ha
  split at ha
  · rename_i hst
    exact does_of_readingAct hw hst ha
  · rename_i hst
    unfold giveUp? at ha
    split at ha
    · rename_i hd
      cases ha
      exact .stalledOut hw hst hd
    · cases ha
  · rename_i hst
    split at ha
    · rename_i hc
      cases ha
      exact .released hw hst hc
    · rename_i hc
      simp only [Bool.or_eq_true, Bool.not_eq_true', not_or, Bool.not_eq_true,
        Bool.not_eq_false] at hc
      split at ha
      · rename_i hp
        cases ha
        exact .handed hw hst hc.1 hc.2 hp
      · cases ha

theorem does_of_act (h : x.act? t = some a) : x.Does t a := by
  unfold act? at h
  split at h
  · rename_i hw
    split at h
    · rename_i hr
      cases h
      exact .sendClosed hw (by simpa using hr)
    · rename_i hr
      split at h
      · rename_i hp
        cases h
        exact .sent hw (by simpa using hr) hp
      · cases h
  · rename_i source hw
    split at h
    · cases h
    · rename_i hp
      have hp : x.mayPull t source = true := by simpa using hp
      split at h
      · rename_i hb
        cases h
        exact .received hw hp hb
      · rename_i hb
        split at h
        · cases h
        · rename_i hs
          cases h
          exact .receiveClosed hw hp hb (by simpa using hs)
  · rename_i hw
    exact does_of_listenerAct hw h
  · rename_i hw
    exact does_of_handlerAct hw h

/-- **What a task does next is what a rule lets it do.** -/
theorem act?_eq_some_iff : x.act? t = some a ↔ x.Does t a := by
  refine ⟨does_of_act, fun h => ?_⟩
  cases h <;>
    simp_all [act?, listenerAct?, handlerAct?, readingAct?, giveUp?, Handler.offering]

/-- In a settled exchange no rule applies to any task. -/
theorem not_does_of_settled (hx : x.Settled) (ht : t ∈ x.tasks) : ¬ x.Does t a := by
  intro h
  have hmem : (t, a) ∈ x.able := by
    simp only [able, List.mem_filterMap, Option.map_eq_some_iff]
    exact ⟨t, ht, a, act?_eq_some_iff.2 h, rfl⟩
  rw [show x.able = [] from hx] at hmem
  cases hmem

end Exchange
end PeerNode
