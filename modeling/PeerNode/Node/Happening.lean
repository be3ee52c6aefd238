import PeerNode.Node.Basic

/-!
# What happens to a node that runs

A node publishes and sends, and learns what its host makes of it; messages and streams arrive;
somebody receives; time passes; and its tasks act, one at a time or all of them until they wait.
This comes in any order.  In particular many messages may arrive before a task has acted at all.

What the host makes of what is published and sent stands in the happening itself.

* `Parcel`, `Node.send`: what is sent to a peer, and what comes of it.
* `Node.Happening`: what may happen to a node.
* `Node.happen`, `Node.run`: what becomes of the node.
-/

namespace PeerNode

/-- What is to be sent to a peer. -/
inductive Parcel where
  /-- A payload, which is sent as one frame. -/
  | payload (bs : Bytes)
  /-- Octets as they are. -/
  | raw (octets : Bytes)
  deriving DecidableEq, Repr

/-- The octets that are sent. -/
def Parcel.octets : Parcel → Except NodeError Bytes
  | payload bs =>
    match Frame.ofPayload bs with
    | .ok frame => .ok frame
    | .error fault => .error (.invalidPayload fault.message)
  | raw octets => .ok octets

namespace Node

/-- Sends a parcel to whom a name denotes, on a stream of its own. -/
def send (n : Node) (recipient : PeerName) (parcel : Parcel) (passage : Passage) :
    Except NodeError Unit := do
  let peer ← recipient.toId
  let octets ← parcel.octets
  if !n.running then .error .notStarted
  else if n.config.protocolName.isNone then .error .protocolNotConfigured
  else passage.result peer octets

/-- What may happen to a node that runs. -/
inductive Happening where
  | publishes (topic : String) (data : Bytes) (verdict : Verdict)
  | sends (recipient : PeerName) (parcel : Parcel) (passage : Passage)
  /-- A peer hands on a message on a topic, with the name of its author if it has one. -/
  | hears (via : PeerName) (author : Option PeerName) (topic : String) (data : Bytes)
  /-- A stream arrives. -/
  | accepts (sender : PeerName) (script : List ReadEvent)
  | receives (inbox : Inbox)
  | waits (secs : Nat)
  /-- One task acts, if it can. -/
  | acts (k : Nat)
  /-- All tasks act until they wait. -/
  | settles

/-- Lets one task act, if it can. -/
def letAct (n : Node) (k : Nat) : Node :=
  match n.exchange.tasks[k]? with
  | none => n
  | some t =>
    match n.exchange.act? t with
    | none => n
    | some a => { n with exchange := n.exchange.perform t a }

/-- What becomes of a node. -/
def happen (n : Node) : Happening → Node
  | .publishes .. | .sends .. => n
  | .hears via author topic data => n.deliver via author topic data
  | .accepts sender script => n.accept sender script
  | .receives inbox =>
    match n.queue? inbox with
    | some q => (n.poll q).1
    | none => n
  | .waits secs => { n with exchange := n.exchange.advance secs }
  | .acts k => n.letAct k
  | .settles => n.settle

/-- What becomes of a node by and by. -/
def run (n : Node) : List Happening → Node
  | [] => n
  | e :: rest => (n.happen e).run rest

end Node
end PeerNode
