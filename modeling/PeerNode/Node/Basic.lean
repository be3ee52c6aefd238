import PeerNode.Exchange.Endpoint
import PeerNode.Node.Passage
import PeerNode.Node.Services

/-!
# A node

A node is one identity with its channels.  For each topic that it has joined there is a
subscription, into which arriving messages are put without waiting, and a delivery queue, which
the topic's listener fills from it.  If the node serves direct messages there is one more delivery
queue, into which the handlers of inbound streams put what they have read.

Which subscription the messages on a topic go to is kept in a table.  Subscribing to a topic again
replaces the entry, and so gives up the sender of the earlier subscription.  An entry whose
receiving end is gone is dropped when the next message for it arrives.  What the node has told its
peers is not taken back by either.

Most operations come in two forms.  In the one no task acts (`subscribing`, `handling`, `poll`), so
much may happen to a node before its tasks do; in the other all of them act until they wait
(`subscribe`, `handleStream`, `take`).  A message that arrives lets no task act.

* `Node.subscribing`, `Node.subscribe`, `Node.abandon`: subscribe to a topic; give a subscription up.
* `Node.joining`, `Node.join`: join a topic, with a queue and a listener.
* `Node.hear`, `Node.deliver`: a message on a topic arrives.
* `Node.publish`: what comes of publishing on a topic.
* `Node.register`, `Node.handling`, `Node.handleStream`: serve direct messages; handle an inbound
  stream.
* `Node.poll`, `Node.take`: receive from a queue; `Node.stop`: stop for good.
-/

namespace PeerNode

/-- A topic that a node has joined. -/
structure JoinedTopic where
  name : String
  /-- The delivery queue of its messages. -/
  queue : Nat
  deriving DecidableEq, Repr

/-- The direct messages that a node serves. -/
structure DirectChannel where
  protocol : String
  /-- The delivery queue of its messages. -/
  queue : Nat
  deriving DecidableEq, Repr

/-- The places where a node's messages are received. -/
inductive Inbox where
  /-- That of a joined topic, by its position; the first one is the primary topic. -/
  | topic (k : Nat)
  /-- That of direct messages. -/
  | direct
  deriving DecidableEq, Repr

/-- What is reported about an inbox that a node does not have. -/
def Inbox.missing : Inbox → NodeError
  | topic _ => .topicNotJoined "<none>"
  | direct => .protocolNotConfigured

/-- A node. -/
structure Node where
  config : Config
  id : PeerId
  services : Services
  exchange : Exchange := {}
  /-- The topics that the node tells its peers it listens to. -/
  announced : List String := []
  /-- The subscription that the messages on a topic go to. -/
  subscriptions : List (String × Nat) := []
  /-- The topics that the node has joined, in order. -/
  topics : List JoinedTopic := []
  direct : Option DirectChannel := none
  /-- The addresses at which peers may be reached. -/
  contacts : List (PeerId × Multiaddr) := []
  running : Bool := true

namespace Node

def name (n : Node) : PeerName := .ofId n.id

/-- What cancels the node's tasks. -/
def token : Token := "node"

def settle (n : Node) : Node := { n with exchange := n.exchange.settle }

/-! ## Topics -/

def subscription? (n : Node) (topic : String) : Option Nat := n.subscriptions.lookup topic

/-- The table without the entry of a topic, whose sender is given up. -/
def unsubscribe (n : Node) (topic : String) : Node :=
  match n.subscription? topic with
  | some c =>
    { n with
      exchange := n.exchange.dropSender c
      subscriptions := n.subscriptions.filter (·.1 != topic) }
  | none => n

/-- The node with a new subscription to a topic, before its tasks have acted. -/
def subscribing (n : Node) (topic : String) : Node :=
  { n.unsubscribe topic with
    exchange := ((n.unsubscribe topic).exchange.addChannel subscriptionCapacity 1 1).1
    announced := if (n.unsubscribe topic).announced.contains topic
      then (n.unsubscribe topic).announced else (n.unsubscribe topic).announced ++ [topic]
    subscriptions := (topic, (n.unsubscribe topic).exchange.channels.length) ::
      (n.unsubscribe topic).subscriptions }

/-- Subscribes to a topic: the node and the number of the new subscription, whose receiving end is
the caller's. -/
def subscribe (n : Node) (topic : String) : Node × Nat :=
  ((n.subscribing topic).settle, (n.unsubscribe topic).exchange.channels.length)

theorem length_channels_unsubscribe (n : Node) (topic : String) :
    (n.unsubscribe topic).exchange.channels.length = n.exchange.channels.length := by
  unfold unsubscribe
  split <;> simp [Exchange.dropSender, Exchange.onChannel]

/-- A new subscription is the youngest channel. -/
theorem subscribe_snd (n : Node) (topic : String) :
    (n.subscribe topic).2 = n.exchange.channels.length := length_channels_unsubscribe n topic

def abandon (n : Node) (c : Nat) : Node :=
  settle { n with exchange := n.exchange.dropInbox c }

/-- The node with one more delivery queue, of which it holds the inbox and, outside of tasks, so
many senders. -/
def addQueue (n : Node) (senders : Nat) : Node :=
  { n with exchange := (n.exchange.addChannel deliveryQueueCapacity senders 1).1 }

/-- A subscription is younger than a queue that was there before. -/
theorem queue_lt_subscription (n : Node) (topic : String) (senders : Nat) :
    n.exchange.channels.length < ((n.addQueue senders).subscribe topic).2 := by
  simp [subscribe_snd, addQueue, Exchange.addChannel]

/-- The node with one more topic, whose new listener reads a subscription and fills a queue. -/
def attaching (n : Node) {q c : Nat} (topic : String) (hlt : q < c) : Node :=
  { n with
    exchange := n.exchange.attach c q n.name token hlt
    topics := n.topics ++ [⟨topic, q⟩] }

/-- The node that has joined a topic, before its tasks have acted. -/
def joining (n : Node) (topic : String) : Node :=
  ((n.addQueue 0).subscribing topic).attaching topic (n.queue_lt_subscription topic 0)

/-- Joins a topic: subscribes to it and lets a listener move its messages into a new delivery
queue. -/
def join (n : Node) (topic : String) : Node :=
  (((n.addQueue 0).subscribe topic).1.attaching topic (n.queue_lt_subscription topic 0)).settle

/-- Takes in a message on a topic, if there is a subscription for it.  A full subscription lets it
drop. -/
def hear (n : Node) (sender : PeerName) (topic : String) (data : Bytes) : Node :=
  match n.subscription? topic with
  | none => n
  | some c =>
    match n.exchange.offer c (.onTopic sender topic data) with
    | (x, true) => { n with exchange := x }
    | (x, false) => unsubscribe { n with exchange := x } topic

/-- Takes in a message on a topic that a peer hands on.  It counts as the author's, and as that
peer's if no author is named. -/
def deliver (n : Node) (via : PeerName) (author : Option PeerName) (topic : String)
    (data : Bytes) : Node := n.hear (author.getD via) topic data

def topic? (n : Node) (name : String) : Option JoinedTopic := n.topics.find? (·.name == name)

/-- Publishes on a topic that the node has subscribed to. -/
def publish (n : Node) (topic : String) (verdict : Verdict) : Except NodeError Unit :=
  if (n.subscription? topic).isNone then .error (.topicNotJoined topic) else verdict.result

/-! ## Direct messages -/

/-- The node that serves direct messages from now on. -/
def serving (n : Node) (protocol : String) : Node :=
  { n.addQueue 1 with direct := some ⟨protocol, n.exchange.channels.length⟩ }

/-- Serves direct messages, under the protocol of the configuration and at most once. -/
def register (n : Node) : Except NodeError Node :=
  match n.config.protocolName, n.direct with
  | none, _ => .error .protocolNotConfigured
  | some _, some _ => .error (.internal "The protocol is already registered")
  | some protocol, none => .ok (n.serving protocol)

/-- Whether the node accepts streams of a protocol. -/
def serves (n : Node) (protocol : String) : Bool :=
  n.running && n.direct.any (·.protocol == protocol)

/-- The node with a handler for a stream, before its tasks have acted. -/
def handling (n : Node) (d : DirectChannel) (sender : PeerName) (script : List ReadEvent) : Node :=
  { n with
    exchange := (n.exchange.accept d.queue sender script true
      n.config.requestTimeout.toNat token).1 }

/-- Handles an inbound stream. -/
def handleStream (n : Node) (sender : PeerName) (script : List ReadEvent) : Node :=
  match n.direct with
  | none => n
  | some d => (n.handling d sender script).settle

/-- The node with a handler for a stream that arrives, if it serves direct messages; its tasks have
not acted yet. -/
def accept (n : Node) (sender : PeerName) (script : List ReadEvent) : Node :=
  match n.direct with
  | none => n
  | some d => n.handling d sender script

/-! ## Receiving and stopping -/

/-- The delivery queue of an inbox. -/
def queue? (n : Node) : Inbox → Option Nat
  | .topic k => n.topics[k]?.map (·.queue)
  | .direct => n.direct.map (·.queue)

/-- Takes the first message of a delivery queue, before the tasks have acted. -/
def poll (n : Node) (queue : Nat) : Node × Found :=
  ({ n with exchange := (n.exchange.tryReceive queue).1 }, (n.exchange.tryReceive queue).2)

/-- Takes the first message of a delivery queue. -/
def take (n : Node) (queue : Nat) : Node × Found := ((n.poll queue).1.settle, (n.poll queue).2)

/-- The exchange of a node that stops: its tasks are cancelled and its senders given up. -/
def silenced (n : Node) : Exchange :=
  let x := n.subscriptions.foldl (fun x s => x.dropSender s.2) (n.exchange.cancel token)
  match n.direct with
  | some d => x.dropSender d.queue
  | none => x

/-- Whether the listener of a topic is still at work. -/
def listens (n : Node) : Bool :=
  n.topics.any fun e => n.exchange.tasks.any fun t =>
    match t.work with
    | .listen l => l.target == e.queue
    | .send .. | .receive _ | .handle _ => false

/-- Stops the node for good.  What waits in its delivery queues can still be received. -/
def stop (n : Node) : Node :=
  if n.running then settle { n with exchange := n.silenced, subscriptions := [], running := false }
  else n

/-! ## Contacts -/

/-- An address that ends in the identity of a peer; none if it ends in another one. -/
def completed? (peer : PeerId) (address : Multiaddr) : Option Multiaddr :=
  match address.getLast? with
  | some (.p2p last) => if last = peer then some address else none
  | _ => some (address ++ [.p2p peer])

/-- Files an address under a peer, unless the peer is the node itself or the address leads to
another peer. -/
def addContact (n : Node) (peer : PeerId) (address : Multiaddr) : Node :=
  if peer = n.id then n
  else match completed? peer address with
    | none => n
    | some address =>
      if n.contacts.contains (peer, address) then n
      else { n with contacts := n.contacts ++ [(peer, address)] }

def addressesOf (n : Node) (peer : PeerId) : List Multiaddr :=
  (n.contacts.filter (·.1 == peer)).map (·.2)

def forget (n : Node) (peer : PeerId) : Node :=
  { n with contacts := n.contacts.filter (·.1 != peer) }

end Node
end PeerNode
