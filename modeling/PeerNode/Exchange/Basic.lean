import PeerNode.Frame.Reader
import PeerNode.Message

/-!
# Channels and the tasks that work on them

Messages wait in bounded channels between the tasks that bring them and those that take them.  A
*delivery queue* is such a channel with consumers at its end; a *subscription* is one that a
topic's listener reads.  Four kinds of task work on channels:

* a *send* waits until its channel has room for one message;
* a *receive* waits for one message;
* a *listener* moves the messages of a subscription into a delivery queue, except those that the
  node itself sent;
* a *handler* reads one frame off an inbound stream, puts it into a delivery queue and then closes
  the stream.

An `Exchange` holds the channels, the unfinished tasks, the cancelled tokens and the time.  Its
tasks stand in the order in which they last acted, so of the tasks that wait for the same thing
the one that began to wait first stands first.

Room in a channel belongs to the tasks that wait for it, one message each, in the order in which
they began to wait; only what is left over is free for a message whose task has not begun to wait.

Whether a channel is closed is not stored but read off: its consumers find it closed once nobody
holds a sender, and its producers once nobody holds its receiving end.  Holders are the tasks and,
as counted in the channel, everybody else.

* `Exchange.hasSender`, `Exchange.hasReceiver`: whether an end of a channel is held.
* `Exchange.waitingSenders`: the tasks that wait for room, in order.
* `Exchange.mayPush`, `Exchange.mayPull`: whose turn it is at an end of a channel.
* `Exchange.journal`: what has happened, the latest first.
-/

namespace PeerNode

/-- A bounded channel. -/
structure Channel where
  /-- The most messages that wait in it. -/
  capacity : Nat
  /-- The messages that wait, in order. -/
  buffer : List Message
  /-- How many senders are held outside of tasks. -/
  senders : Nat
  /-- How many receiving ends are held outside of tasks. -/
  inboxes : Nat
  deriving DecidableEq, Repr

/-- What cancels tasks, by its name. -/
abbrev Token := String

/-- The work of a listener.  A message only moves to a channel that is older than the one it comes
from, so it cannot go round in circles. -/
structure Listener where
  /-- The subscription that it reads. -/
  source : Nat
  /-- The delivery queue that it fills. -/
  target : Nat
  target_lt_source : target < source
  /-- The name of the node, whose own messages are passed over. -/
  me : PeerName
  token : Token
  /-- The message that it has taken and not delivered. -/
  held : Option Message
  /-- Whether it has begun to wait for room for that message. -/
  queued : Bool
  deriving DecidableEq

/-- An alarm that wakes a task. -/
structure Timer where
  /-- The time at which it rings. -/
  due : Nat
  /-- The moment at which it was set: of the timers due at one time, the one set first rings
  first. -/
  since : Nat
  deriving DecidableEq, Repr

/-- Whether a timer rings no later than another. -/
def Timer.le (a b : Timer) : Bool := a.due < b.due || a.due == b.due && a.since ≤ b.since

/-- How far a handler has come. -/
inductive Stage where
  /-- It reads on when `wake` rings, and gives up when `deadline` does. -/
  | reading (reader : Frame.Reader) (wake deadline : Timer)
  /-- The stream has fallen silent, and it gives up when `deadline` rings. -/
  | stalled (deadline : Timer)
  /-- It waits for room for its message. -/
  | enqueuing (m : Message)
  deriving DecidableEq

/-- The work of a handler. -/
structure Handler where
  /-- The delivery queue that it fills. -/
  target : Nat
  /-- The peer at the other end of the stream. -/
  sender : PeerName
  token : Token
  /-- Whether the stream closes in order when it is closed. -/
  closes : Bool
  stage : Stage
  deriving DecidableEq

/-- What a task does. -/
inductive Work where
  | send (target : Nat) (m : Message)
  | receive (source : Nat)
  | listen (l : Listener)
  | handle (h : Handler)
  deriving DecidableEq

/-- An unfinished task. -/
structure Task where
  id : Nat
  work : Work
  deriving DecidableEq

/-- How a task has ended. -/
inductive Outcome where
  /-- The message of a send is in the channel. -/
  | sent
  /-- Nobody holds the receiving end of a send's channel. -/
  | closed
  /-- A receive got a message. -/
  | received (m : Message)
  /-- A receive found its channel closed. -/
  | channelClosed
  /-- A listener has stopped. -/
  | stopped
  /-- A handler has dropped its stream, after closing it in order or not. -/
  | handled (closedInOrder : Bool)
  | aborted
  deriving DecidableEq, Repr

/-- What happens in an exchange. -/
inductive Event where
  /-- A message has entered a channel. -/
  | accepted (channel : Nat) (m : Message)
  /-- A message has left a channel. -/
  | delivered (channel : Nat) (m : Message)
  /-- A task has ended. -/
  | finished (task : Nat) (outcome : Outcome)
  deriving DecidableEq, Repr

/-- Channels and the tasks that work on them. -/
structure Exchange where
  channels : List Channel := []
  /-- The unfinished tasks, in the order in which they last acted. -/
  tasks : List Task := []
  cancelled : List Token := []
  /-- The time, in seconds. -/
  clock : Nat := 0
  /-- How often a task has begun or acted: the number of the next task, and the moment at which a
  timer is set. -/
  moment : Nat := 0
  /-- What has happened, the latest first. -/
  journal : List Event := []

namespace Work

/-- Whether a task with this work holds a sender of a channel. -/
def holdsSender (c : Nat) : Work → Bool
  | send target _ => target == c
  | receive _ => false
  | listen l => l.target == c
  | handle h => h.target == c

/-- Whether a task with this work holds the receiving end of a channel. -/
def holdsReceiver (c : Nat) : Work → Bool
  | send _ _ => false
  | receive source => source == c
  | listen l => l.source == c
  | handle _ => false

/-- The channel and the message for which a task with this work waits for room. -/
def offered? : Work → Option (Nat × Message)
  | send target m => some (target, m)
  | receive _ => none
  | listen l => if l.queued then l.held.map fun m => (l.target, m) else none
  | handle h =>
    match h.stage with
    | .reading .. | .stalled _ => none
    | .enqueuing m => some (h.target, m)

/-- Whether a task with this work waits for room in a channel. -/
def wantsRoom (c : Nat) (w : Work) : Bool := w.offered?.any fun (target, _) => target == c

/-- Whether a task with this work is a consumer that waits on a channel. -/
def consumes (c : Nat) : Work → Bool
  | receive source => source == c
  | _ => false

end Work

namespace Exchange

/-- The messages that wait in a channel. -/
def buffer (x : Exchange) (c : Nat) : List Message :=
  match x.channels[c]? with
  | some channel => channel.buffer
  | none => []

/-- For how many more messages a channel has room. -/
def room (x : Exchange) (c : Nat) : Nat :=
  match x.channels[c]? with
  | some channel => channel.capacity - channel.buffer.length
  | none => 0

def hasSender (x : Exchange) (c : Nat) : Bool :=
  x.channels[c]?.any (0 < ·.senders) || x.tasks.any (·.work.holdsSender c)

def hasReceiver (x : Exchange) (c : Nat) : Bool :=
  x.channels[c]?.any (0 < ·.inboxes) || x.tasks.any (·.work.holdsReceiver c)

/-- The tasks that wait for room in a channel, the one that has waited longest first. -/
def waitingSenders (x : Exchange) (c : Nat) : List Task := x.tasks.filter (·.work.wantsRoom c)

def hasWaitingReceiver (x : Exchange) (c : Nat) : Bool := x.tasks.any (·.work.consumes c)

/-- Whether a task may put its message into a channel: there is room for it beside the messages of
all tasks that have waited longer. -/
def mayPush (x : Exchange) (t : Task) (c : Nat) : Bool :=
  ((x.waitingSenders c).takeWhile (·.id != t.id)).length < x.room c

/-- Whether it is a consumer's turn on a channel: none has waited longer. -/
def mayPull (x : Exchange) (t : Task) (c : Nat) : Bool :=
  (x.tasks.find? (·.work.consumes c)).any (·.id == t.id)

def isCancelled (x : Exchange) (token : Token) : Bool := x.cancelled.contains token

def record (x : Exchange) (e : Event) : Exchange := { x with journal := e :: x.journal }

def onChannel (x : Exchange) (c : Nat) (f : Channel → Channel) : Exchange :=
  { x with channels := x.channels.modify c f }

/-- Puts a message into a channel. -/
def push (x : Exchange) (c : Nat) (m : Message) : Exchange :=
  (x.onChannel c fun channel => { channel with buffer := channel.buffer ++ [m] }).record
    (.accepted c m)

/-- Takes the first message out of a channel; it is `m`. -/
def pull (x : Exchange) (c : Nat) (m : Message) : Exchange :=
  (x.onChannel c fun channel => { channel with buffer := channel.buffer.tail }).record
    (.delivered c m)

/-! ## Histories -/

/-- The messages that entered a channel, in order. -/
def accepted (x : Exchange) (c : Nat) : List Message :=
  x.journal.reverse.filterMap fun
    | .accepted d m => if d = c then some m else none
    | _ => none

/-- The messages that left a channel, in order. -/
def delivered (x : Exchange) (c : Nat) : List Message :=
  x.journal.reverse.filterMap fun
    | .delivered d m => if d = c then some m else none
    | _ => none

/-- How a task has ended, if it has. -/
def outcome? (x : Exchange) (task : Nat) : Option Outcome :=
  x.journal.findSome? fun
    | .finished id o => if id = task then some o else none
    | _ => none

end Exchange
end PeerNode
