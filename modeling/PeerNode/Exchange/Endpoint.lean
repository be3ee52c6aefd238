import PeerNode.Exchange.Settle

/-!
# The ends of a channel

What is done to an exchange from outside its tasks: messages are put into a channel or taken out
of it without waiting, ends of channels are handed on and given up, tasks are begun and aborted,
tokens are cancelled and time passes.  None of these lets a task act; that is what `settle` is
for.

* `Exchange.trySend`, `Exchange.offer`: put a message into a channel if it has room.
* `Exchange.tryReceive`, `Exchange.drain`: take what waits in a channel.
* `Exchange.spawn`, `Exchange.abort`: begin and abort a task.
-/

namespace PeerNode

/-- The most messages that wait in a delivery queue. -/
def deliveryQueueCapacity : Nat := 128

/-- The most messages that wait in a subscription. -/
def subscriptionCapacity : Nat := 32

/-- What became of a message that was to be put into a channel at once. -/
inductive SendResult where
  | ok
  | full
  | closed
  deriving DecidableEq, Repr

/-- What was found in a channel. -/
inductive Found where
  | message (m : Message)
  | nothing
  | closed
  deriving DecidableEq, Repr

namespace Exchange

/-! ## Channels -/

/-- Adds a channel with some holders of its ends; its number comes with it. -/
def addChannel (x : Exchange) (capacity senders inboxes : Nat) : Exchange × Nat :=
  ({ x with channels := x.channels ++ [⟨capacity, [], senders, inboxes⟩] }, x.channels.length)

def cloneSender (x : Exchange) (c : Nat) : Exchange :=
  x.onChannel c fun ch => { ch with senders := ch.senders + 1 }

def dropSender (x : Exchange) (c : Nat) : Exchange :=
  x.onChannel c fun ch => { ch with senders := ch.senders - 1 }

def cloneInbox (x : Exchange) (c : Nat) : Exchange :=
  x.onChannel c fun ch => { ch with inboxes := ch.inboxes + 1 }

def dropInbox (x : Exchange) (c : Nat) : Exchange :=
  x.onChannel c fun ch => { ch with inboxes := ch.inboxes - 1 }

/-! ## Messages -/

/-- Puts a message into a channel if there is room for it now.  Room that a task waits for is not
free.  A send waits from when it is begun; an attempt that comes before its first act comes before
it in time. -/
def trySend (x : Exchange) (c : Nat) (m : Message) : Exchange × SendResult :=
  if !x.hasReceiver c then (x, .closed)
  else if (x.waitingSenders c).length < x.room c then (x.push c m, .ok)
  else (x, .full)

/-- Puts a message into a subscription or drops it; false once the listener is gone. -/
def offer (x : Exchange) (c : Nat) (m : Message) : Exchange × Bool :=
  match x.trySend c m with
  | (x, .closed) => (x, false)
  | (x, _) => (x, true)

/-- Takes the first message of a channel.  While another consumer waits nothing is found. -/
def tryReceive (x : Exchange) (c : Nat) : Exchange × Found :=
  if x.hasWaitingReceiver c then (x, .nothing)
  else match x.buffer c with
    | m :: _ => (x.pull c m, .message m)
    | [] => (x, if x.hasSender c then .nothing else .closed)

/-- Takes messages until none is found, at most `fuel` of them. -/
def drainFrom (x : Exchange) (c : Nat) : Nat → Exchange × List Message × Found
  | 0 => (x, [], .nothing)
  | fuel + 1 =>
    match x.tryReceive c with
    | (x, .message m) =>
      let (x, ms, last) := x.drainFrom c fuel
      (x, m :: ms, last)
    | (x, found) => (x, [], found)

/-- Takes the messages of a channel until none is found; what was found instead comes last. -/
def drain (x : Exchange) (c : Nat) : Exchange × List Message × Found :=
  x.drainFrom c ((x.buffer c).length + 1)

/-! ## Tasks, tokens and time -/

/-- Begins a task; its number comes with it. -/
def spawn (x : Exchange) (w : Work) : Exchange × Nat :=
  ({ x.tick with tasks := x.tasks ++ [⟨x.moment, w⟩] }, x.moment)

/-- Aborts a task, if it is not finished. -/
def abort (x : Exchange) (id : Nat) : Exchange :=
  match x.tasks.find? (·.id == id) with
  | some t => (x.without t).conclude id (.ends .aborted)
  | none => x

def cancel (x : Exchange) (token : Token) : Exchange :=
  { x with cancelled := token :: x.cancelled }

def advance (x : Exchange) (secs : Nat) : Exchange := { x with clock := x.clock + secs }

/-- Begins to move messages from a new subscription into a channel: the exchange, the number of
the subscription and that of the task.  The one sender of the subscription is held outside. -/
def listen (x : Exchange) (target capacity : Nat) (me : PeerName) (token : Token)
    (h : target < x.channels.length) : Exchange × Nat × Nat :=
  let (y, source) := x.addChannel capacity 1 0
  let (y, task) := y.spawn (.listen ⟨x.channels.length, target, h, me, token, none, false⟩)
  (y, source, task)

/-- Lets a new listener read a subscription, whose receiving end was held outside. -/
def attach (x : Exchange) (source target : Nat) (me : PeerName) (token : Token)
    (h : target < source) : Exchange :=
  ((x.dropInbox source).spawn (.listen ⟨source, target, h, me, token, none, false⟩)).1

/-- Begins to handle an inbound stream: the exchange and the number of the task. -/
def accept (x : Exchange) (target : Nat) (sender : PeerName) (script : List ReadEvent)
    (closes : Bool) (timeout : Nat) (token : Token) : Exchange × Nat :=
  x.spawn (.handle ⟨target, sender, token, closes,
    .reading (.start script) (x.timer 0) (x.timer timeout)⟩)

end Exchange
end PeerNode
