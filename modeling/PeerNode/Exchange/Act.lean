import PeerNode.Exchange.Basic

/-!
# What a task does next

A task acts or waits.  What it does next is decided by `Exchange.act?` and carried out by
`Exchange.perform`; each act moves at most one message, and the task that acted goes behind the
others.  A listener that finds no room for its message begins to wait for it, which is an act of
its own.

A listener that has been cancelled stops before it does anything else, and so does a handler that
waits for room.  A handler that is still reading does not look at its token: it ends with its
frame or with its time.  Octets that are there count even if the time is up.
-/

namespace PeerNode

/-- What becomes of a task that has acted. -/
inductive After where
  | goesOn (w : Work)
  | ends (o : Outcome)
  deriving DecidableEq

/-- What a task does. -/
inductive Act where
  /-- It changes nothing but itself. -/
  | alone (after : After)
  /-- It puts a message into a channel. -/
  | push (c : Nat) (m : Message) (after : After)
  /-- It takes the first message out of a channel. -/
  | pull (c : Nat) (m : Message) (after : After)
  deriving DecidableEq

namespace Exchange

/-- A listener's next act. -/
def listenerAct? (x : Exchange) (t : Task) (l : Listener) : Option Act :=
  if x.isCancelled l.token then some (.alone (.ends .stopped))
  else match l.held with
    | some m =>
      if !x.hasReceiver l.target then some (.alone (.ends .stopped))
      else if x.mayPush t l.target then
        some (.push l.target m (.goesOn (.listen { l with held := none, queued := false })))
      else if l.queued then none
      else some (.alone (.goesOn (.listen { l with queued := true })))
    | none =>
      match x.buffer l.source with
      | m :: _ =>
        let held := if m.sender = l.me then none else some m
        some (.pull l.source m (.goesOn (.listen { l with held := held })))
      | [] => if x.hasSender l.source then none else some (.alone (.ends .stopped))

def hasRung (x : Exchange) (timer : Timer) : Bool := timer.due ≤ x.clock

/-- The timer that is set now and rings after some seconds. -/
def timer (x : Exchange) (secs : Nat) : Timer := ⟨x.clock + secs, x.moment⟩

/-- The act of a handler for which there is nothing to read: it gives up once its time is up. -/
def giveUp? (x : Exchange) (deadline : Timer) : Option Act :=
  if x.hasRung deadline then some (.alone (.ends (.handled false))) else none

/-- The next act of a handler that is reading. -/
def readingAct? (x : Exchange) (h : Handler) (reader : Frame.Reader) (wake deadline : Timer) :
    Option Act :=
  if !x.hasRung wake then x.giveUp? deadline
  else match reader.advance with
    | .body bs =>
      some (.alone (.goesOn
        (.handle { h with stage := .enqueuing (Message.direct h.sender bs) })))
    | .failed _ => some (.alone (.ends (.handled false)))
    | .pausing secs next =>
      some (.alone (.goesOn
        (.handle { h with stage := .reading next (x.timer secs) deadline })))
    | .silent => some (.alone (.goesOn (.handle { h with stage := .stalled deadline })))

/-- A handler's next act. -/
def handlerAct? (x : Exchange) (t : Task) (h : Handler) : Option Act :=
  match h.stage with
  | .reading reader wake deadline => x.readingAct? h reader wake deadline
  | .stalled deadline => x.giveUp? deadline
  | .enqueuing m =>
    if x.isCancelled h.token || !x.hasReceiver h.target then
      some (.alone (.ends (.handled false)))
    else if x.mayPush t h.target then some (.push h.target m (.ends (.handled h.closes)))
    else none

/-- What a task does next; none if it waits. -/
def act? (x : Exchange) (t : Task) : Option Act :=
  match t.work with
  | .send target m =>
    if !x.hasReceiver target then some (.alone (.ends .closed))
    else if x.mayPush t target then some (.push target m (.ends .sent))
    else none
  | .receive source =>
    if !x.mayPull t source then none
    else match x.buffer source with
      | m :: _ => some (.pull source m (.ends (.received m)))
      | [] => if x.hasSender source then none else some (.alone (.ends .channelClosed))
  | .listen l => x.listenerAct? t l
  | .handle h => x.handlerAct? t h

/-- Lets a task that has acted go on behind the others, or end. -/
def conclude (x : Exchange) (id : Nat) : After → Exchange
  | .goesOn w => { x with tasks := x.tasks ++ [⟨id, w⟩] }
  | .ends o => x.record (.finished id o)

def without (x : Exchange) (t : Task) : Exchange := { x with tasks := x.tasks.erase t }

/-- Counts that a task has begun or acted. -/
def tick (x : Exchange) : Exchange := { x with moment := x.moment + 1 }

/-- Carries out an act of a task. -/
def perform (x : Exchange) (t : Task) : Act → Exchange
  | .alone after => (x.without t).tick.conclude t.id after
  | .push c m after => ((x.without t).tick.push c m).conclude t.id after
  | .pull c m after => ((x.without t).tick.pull c m).conclude t.id after

end Exchange
end PeerNode
