import PeerNode.Exchange.Endpoint

/-!
# Working on an exchange by name

A session gives names to the ends of channels and to tasks, and works on the exchange step by
step.  Each step first does what it says; then all tasks act until every one of them waits.  A
name that is given again leaves what it stood for: an end of a channel is given up, and a task
goes on without a name.  A stream goes by the name of the task that was begun to handle it, and
keeps that name until another stream is given it.

* `Session.start`: a session with one delivery queue, whose sender is `p` and whose inbox is `i`.
* `Step`, `Answer`: the steps, and what is answered.
* `Session.step`: one step with all that follows from it; `Session.run` takes several.
-/

namespace PeerNode

/-- An exchange whose parts have names. -/
structure Session where
  exchange : Exchange := {}
  /-- The channels of named senders. -/
  senders : List (String × Nat) := []
  /-- The channels of named inboxes. -/
  inboxes : List (String × Nat) := []
  /-- The numbers of named tasks. -/
  tasks : List (String × Nat) := []
  /-- The numbers of the tasks that handle named streams. -/
  streams : List (String × Nat) := []

/-- How messages are sent in a row. -/
inductive Manner where
  /-- Until one is refused. -/
  | trySend
  /-- Each is offered, whatever becomes of the one before. -/
  | offer
  deriving DecidableEq, Repr

/-- A step of a session. -/
inductive Step where
  | trySend (tx : String) (m : Message)
  | offer (tx : String) (m : Message)
  | send (tx : String) (m : Message) (name : String)
  | fill (tx : String) (ms : List Message) (manner : Manner)
  | cloneSender (tx name : String)
  | dropSender (tx : String)
  | cloneInbox (inbox name : String)
  | dropInbox (inbox : String)
  | tryReceive (inbox : String)
  | drain (inbox : String)
  | receive (inbox name : String)
  /-- Like `receive`, but the caller does nothing else meanwhile: what is there it gets at once, and
  otherwise a receive without a name waits for it. -/
  | receiveBlocking (inbox : String)
  | abort (task : String)
  | pending
  | cancel (token : Token)
  | nothing
  | advance (secs : Nat)
  | listen (sub : String) (capacity : Nat) (me : PeerName) (tx : String) (token : Token)
      (name : String)
  | inbound (script : List ReadEvent) (closes : Bool) (sender : PeerName) (timeout : Nat)
      (tx : String) (token : Token) (name : String)
  | stream (name : String)
  deriving DecidableEq

/-- What a step answers. -/
inductive Answer where
  | ok
  | spawned
  | flag (b : Bool)
  | sent (r : SendResult)
  | found (f : Found)
  /-- The caller waits for a message. -/
  | waits
  /-- How many messages were not refused, and the last result. -/
  | filled (count : Nat) (last : Option (SendResult ⊕ Bool))
  /-- The messages taken, and what was found after them. -/
  | drained (ms : List Message) (last : Found)
  | names (ns : List String)
  /-- Whether a stream was closed in order, and whether it is gone. -/
  | stream (closedInOrder dropped : Bool)
  /-- A name stands for nothing. -/
  | unknownName
  deriving DecidableEq

namespace Session

/-- A session with one delivery queue, whose sender is `p` and whose inbox is `i`. -/
def start (capacity : Nat) : Session :=
  let (x, c) := ({} : Exchange).addChannel capacity 1 1
  { exchange := x, senders := [("p", c)], inboxes := [("i", c)] }

def forget (name : String) (table : List (String × Nat)) : List (String × Nat) :=
  table.filter (·.1 != name)

/-- Gives up the sender with a name, if there is one. -/
def dropSender (s : Session) (name : String) : Session :=
  match s.senders.lookup name with
  | some c =>
    { s with exchange := s.exchange.dropSender c, senders := forget name s.senders }
  | none => s

/-- Gives up the inbox with a name, if there is one. -/
def dropInbox (s : Session) (name : String) : Session :=
  match s.inboxes.lookup name with
  | some c =>
    { s with exchange := s.exchange.dropInbox c, inboxes := forget name s.inboxes }
  | none => s

/-- Gives a sender, which is already counted, a name. -/
def nameSender (s : Session) (name : String) (c : Nat) : Session :=
  let s := s.dropSender name
  { s with senders := (name, c) :: s.senders }

/-- Gives an inbox, which is already counted, a name. -/
def nameInbox (s : Session) (name : String) (c : Nat) : Session :=
  let s := s.dropInbox name
  { s with inboxes := (name, c) :: s.inboxes }

def withExchange (s : Session) (x : Exchange) : Session := { s with exchange := x }

/-- The session with a task that was begun under a name. -/
def begin (s : Session) (name : String) (spawned : Exchange × Nat) : Session :=
  { s with exchange := spawned.1, tasks := (name, spawned.2) :: forget name s.tasks }

/-- The names of the unfinished tasks, in order. -/
def pendingNames (s : Session) : List String :=
  (s.tasks.filter fun (_, id) => s.exchange.tasks.any (·.id == id)).map (·.1)
    |>.mergeSort fun a b => decide (a ≤ b)

/-- Sends messages in a row until one is refused: the exchange, how many were not, and the last
result. -/
def sendAll (x : Exchange) (c : Nat) (count : Nat) (last : Option (SendResult ⊕ Bool)) :
    List Message → Exchange × Nat × Option (SendResult ⊕ Bool)
  | [] => (x, count, last)
  | m :: ms =>
    match x.trySend c m with
    | (x, .ok) => sendAll x c (count + 1) (some (.inl .ok)) ms
    | (x, r) => (x, count, some (.inl r))

/-- Offers messages in a row: the exchange, how many were not refused, and the last result. -/
def offerAll (x : Exchange) (c : Nat) (count : Nat) (last : Option (SendResult ⊕ Bool)) :
    List Message → Exchange × Nat × Option (SendResult ⊕ Bool)
  | [] => (x, count, last)
  | m :: ms =>
    let (x, b) := x.offer c m
    offerAll x c (if b then count + 1 else count) (some (.inr b)) ms

/-- How the stream of a task stands. -/
def streamOf (x : Exchange) (task : Nat) : Answer :=
  match x.outcome? task with
  | some (.handled closedInOrder) => .stream closedInOrder true
  | some _ => .stream false true
  | none => .stream false false

/-- Does something with the channel of a named sender. -/
def withSender (s : Session) (tx : String) (f : Nat → Session × Answer) : Session × Answer :=
  match s.senders.lookup tx with
  | some c => f c
  | none => (s, .unknownName)

/-- Does something with the channel of a named inbox. -/
def withInbox (s : Session) (inbox : String) (f : Nat → Session × Answer) : Session × Answer :=
  match s.inboxes.lookup inbox with
  | some c => f c
  | none => (s, .unknownName)

/-- What a step does before any task acts. -/
def apply (s : Session) : Step → Session × Answer
  | .trySend tx m => s.withSender tx fun c =>
    let (x, r) := s.exchange.trySend c m
    (s.withExchange x, .sent r)
  | .offer tx m => s.withSender tx fun c =>
    let (x, b) := s.exchange.offer c m
    (s.withExchange x, .flag b)
  | .send tx m name => s.withSender tx fun c =>
    (s.begin name (s.exchange.spawn (.send c m)), .spawned)
  | .fill tx ms manner => s.withSender tx fun c =>
    let (x, count, last) := match manner with
      | .trySend => sendAll s.exchange c 0 none ms
      | .offer => offerAll s.exchange c 0 none ms
    (s.withExchange x, .filled count last)
  | .cloneSender tx name => s.withSender tx fun c =>
    ((s.withExchange (s.exchange.cloneSender c)).nameSender name c, .ok)
  | .dropSender tx => (s.dropSender tx, .flag (s.senders.lookup tx).isSome)
  | .cloneInbox inbox name => s.withInbox inbox fun c =>
    ((s.withExchange (s.exchange.cloneInbox c)).nameInbox name c, .ok)
  | .dropInbox inbox => (s.dropInbox inbox, .flag (s.inboxes.lookup inbox).isSome)
  | .tryReceive inbox => s.withInbox inbox fun c =>
    let (x, f) := s.exchange.tryReceive c
    (s.withExchange x, .found f)
  | .receiveBlocking inbox => s.withInbox inbox fun c =>
    match s.exchange.tryReceive c with
    | (x, .nothing) => (s.withExchange (x.spawn (.receive c)).1, .waits)
    | (x, f) => (s.withExchange x, .found f)
  | .drain inbox => s.withInbox inbox fun c =>
    let (x, ms, last) := s.exchange.drain c
    (s.withExchange x, .drained ms last)
  | .receive inbox name => s.withInbox inbox fun c =>
    (s.begin name (s.exchange.spawn (.receive c)), .spawned)
  | .abort task =>
    match s.tasks.lookup task with
    | some id => (s.withExchange (s.exchange.abort id), .ok)
    | none => (s, .ok)
  | .pending => (s, .names s.pendingNames)
  | .cancel token => (s.withExchange (s.exchange.cancel token), .ok)
  | .nothing => (s, .ok)
  | .advance secs => (s.withExchange (s.exchange.advance secs), .ok)
  | .listen sub capacity me tx token name => s.withSender tx fun c =>
    if h : c < s.exchange.channels.length then
      let (x, source, task) := s.exchange.listen c capacity me token h
      ((s.begin name (x, task)).nameSender sub source, .spawned)
    else (s, .unknownName)
  | .inbound script closes sender timeout tx token name => s.withSender tx fun c =>
    let (x, task) := s.exchange.accept c sender script closes timeout token
    ({ s.begin name (x, task) with streams := (name, task) :: forget name s.streams }, .spawned)
  | .stream name =>
    match s.streams.lookup name with
    | some id => (s, streamOf s.exchange id)
    | none => (s, .unknownName)

/-- The named tasks that have ended since the journal had `length` entries, with their
outcomes. -/
def finishedSince (s : Session) (length : Nat) : List (String × Outcome) :=
  let news := (s.exchange.journal.take (s.exchange.journal.length - length)).reverse
  news.filterMap fun
    | .finished id o => (s.tasks.find? (·.2 == id)).map fun (name, _) => (name, o)
    | _ => none

/-- One step with all that follows from it: the session, the answer, and the tasks that have ended
with their outcomes. -/
def step (s : Session) (st : Step) : Session × Answer × List (String × Outcome) :=
  let (t, answer) := s.apply st
  let t := t.withExchange t.exchange.settle
  (t, answer, t.finishedSince s.exchange.journal.length)

/-- The answers of several steps. -/
def run (s : Session) : List Step → List (Answer × List (String × Outcome))
  | [] => []
  | st :: rest =>
    let (s, answer, ended) := s.step st
    (answer, ended) :: s.run rest

end Session
end PeerNode
