import PeerNode.Proofs.Network.Requests
import PeerNode.Proofs.Node.Ledger

/-!
# A node that runs and those around it

A node that runs is asked for things, while callers receive from the subscriptions that they were
given and give them up, and while all happens to the node that may happen to one.  The network and
the host around the node may be others each time.

Whoever watches writes a ledger: each subscription that is made, the latest first, and which of them
callers still have.  The ledger is right after every happening (`Ledger.happen`), hence after every
run.  Entries are made by subscribing and by nothing else, and a table changes only if the node
subscribes or hears a message.

* `Surroundings`, `Command`, `Runtime.Happening`: the network around a node, what the node is asked
  for, and what happens to it and around it.
* `Runtime`, `Runtime.happen`, `Runtime.run`: a node with its ledger.
* `command_cases`: what commands make of a node.
* `Ledger.happen`, `Ledger.run`: the ledger stays right.
* `happen_of_subscribed`, `happen_of_not_subscribed`, `subscriptions_happen`, `entry_of_happen`:
  what becomes of the entries.
* `exists_run_of_start`: a node that starts is the run of its joins.
-/

namespace PeerNode

open Exchange (Flow)
open Node (Carries Still)

variable {H : Host}

/-! ## What can happen to a node that runs -/

/-- The rest of a network, in which a node has its position, with the state of the host. -/
structure Surroundings (H : Host) where
  before : List Node
  after : List Node
  state : H.State

namespace Surroundings

def position (a : Surroundings H) : Nat := a.before.length

/-- The network with the node at its position. -/
def around (a : Surroundings H) (n : Node) : Network H :=
  { nodes := a.before ++ n :: a.after, state := a.state }

def node (a : Surroundings H) (n : Node) (net : Network H) : Node := net.nodes[a.position]?.getD n

theorem getElem_around (a : Surroundings H) (n : Node) :
    (a.around n).nodes[a.position]? = some n := by
  simp [around, position]

end Surroundings

/-- What a node can be asked for while it runs. -/
inductive Command where
  | subscribe (topic : String)
  | publish (topic : String) (data : Bytes)
  | register
  | send (peer : PeerId) (octets : Bytes)
  | connectedPeers
  | listenAddresses
  | topicPeers (topic : String)
  | discover

namespace Command

/-- The network after the node at a position has handled a command. -/
def handle (net : Network H) (i : Nat) : Command → Network H
  | subscribe topic => (net.subscribe i topic).1
  | publish topic data => (net.publish i topic data).1
  | register => (net.register i).1
  | send peer octets => (net.sendOctets i peer octets).1
  | connectedPeers => (net.connectedPeers i).1
  | listenAddresses => (net.listenAddresses i).1
  | topicPeers topic => (net.topicPeers i topic).1
  | discover => (net.discover i).1

/-- The subscription that the caller gets, if it gets one. -/
def made? (net : Network H) (i : Nat) : Command → Option (String × Nat)
  | subscribe topic => (net.subscribe i topic).2.toOption.map fun c => (topic, c)
  | publish .. | register | send .. | connectedPeers | listenAddresses | topicPeers _
  | discover => none

end Command

/-- A node that runs, with the ledger of its subscriptions. -/
structure Runtime where
  node : Node
  /-- The subscriptions that were made, the latest first. -/
  made : List (String × Nat) := []
  /-- The subscriptions whose receiving end some caller has. -/
  lent : List Nat := []

namespace Runtime

/-- What happens to a node that runs, and to what it has given to callers. -/
inductive Happening (H : Host) where
  /-- The node handles a command. -/
  | command (surroundings : Surroundings H) (c : Command)
  /-- The node joins a topic: it subscribes, and a listener gets the receiving end. -/
  | joins (topic : String)
  /-- Something that may happen to any node. -/
  | node (e : Node.Happening)
  /-- A caller gives up the receiving end of a subscription. -/
  | drops (c : Nat)
  /-- A caller receives from a subscription. -/
  | takes (c : Nat)
  /-- Somebody gives up the receiving end of a delivery queue. -/
  | releases (inbox : Inbox)
  /-- The node's tasks are told to stop. -/
  | cancels
  /-- Where peers are reached becomes known or is forgotten. -/
  | learns (contacts : List (PeerId × Multiaddr))

/-- The topic to which a happening subscribes. -/
def Happening.subscribed? : Happening H → Option String
  | command _ (.subscribe topic) | joins topic => some topic
  | command _ _ | node _ | drops _ | takes _ | releases _ | cancels | learns _ => none

/-- The topic on which a message arrives. -/
def Happening.heard? : Happening H → Option String
  | node (.hears _ _ topic _) => some topic
  | node _ | command .. | joins _ | drops _ | takes _ | releases _ | cancels | learns _ => none

/-- A node that has done nothing yet. -/
def bare (config : Config) (id : PeerId) (services : Services)
    (contacts : List (PeerId × Multiaddr)) : Runtime :=
  { node := { config, id, services, contacts } }

abbrev exchange (r : Runtime) : Exchange := r.node.exchange

/-- What becomes of a node that handles a command. -/
def command (r : Runtime) (a : Surroundings H) (c : Command) : Runtime :=
  let node := a.node r.node (c.handle (a.around r.node) a.position)
  match c.made? (a.around r.node) a.position with
  | some (topic, k) => { node, made := (topic, k) :: r.made, lent := k :: r.lent }
  | none => { r with node }

/-- What becomes of a node whose channels and tasks have changed. -/
def withExchange (r : Runtime) (x : Exchange) : Runtime :=
  { r with node := { r.node with exchange := x } }

/-- What becomes of a node. -/
def happen (r : Runtime) : Happening H → Runtime
  | .command a c => r.command a c
  | .joins topic =>
    { r with
      node := r.node.join topic
      made := (topic, ((r.node.addQueue 0).subscribe topic).2) :: r.made }
  | .node e => { r with node := r.node.happen e }
  | .drops c =>
    if c ∈ r.lent then
      { r.withExchange (r.exchange.dropInbox c) with lent := r.lent.filter (· != c) }
    else r
  | .takes c => if c ∈ r.lent then { r with node := (r.node.poll c).1 } else r
  | .releases inbox =>
    match r.node.queue? inbox with
    | some q => r.withExchange (r.exchange.dropInbox q)
    | none => r
  | .cancels => r.withExchange (r.exchange.cancel Node.token)
  | .learns contacts => { r with node := { r.node with contacts } }

/-- What becomes of a node by and by. -/
def run (r : Runtime) : List (Happening H) → Runtime
  | [] => r
  | e :: rest => (r.happen e).run rest

/-- The subscription that the messages on a topic go to. -/
def current? (r : Runtime) (topic : String) : Option Nat := r.node.subscription? topic

/-- The receiving end of a subscription has been given up: no caller has it and no listener. -/
def Gone (r : Runtime) (c : Nat) : Prop :=
  c ∉ r.lent ∧ ∀ t ∈ r.exchange.tasks, t.work.holdsReceiver c = false

instance (r : Runtime) (c : Nat) : Decidable (r.Gone c) := inferInstanceAs (Decidable (_ ∧ _))

/-- What a happening puts into a subscription. -/
def offered (r : Runtime) : Happening H → Nat → List Message
  | .node e => fun c => r.node.put c e
  | _ => fun _ => []

/-- What a caller receives from a subscription. -/
def found (r : Runtime) : Happening H → Nat → List Message
  | .takes c =>
    if c ∈ r.lent then fun d => Exchange.inChannel d c (r.node.poll c).2.messages else fun _ => []
  | _ => fun _ => []

/-- What callers receive from a subscription by and by. -/
def received (r : Runtime) (c : Nat) : List (Happening H) → List Message
  | [] => []
  | e :: rest => r.found e c ++ (r.happen e).received c rest

/-- The ledger is right. -/
abbrev Ledger (r : Runtime) : Prop := r.node.Ledger r.made r.lent

variable {r : Runtime} {c : Nat} {topic : String} {e : Happening H}

/-! ## Commands -/

/-- Who subscribes gets a subscription. -/
theorem command_subscribe (hr : r.node.running = true) (a : Surroundings H) (topic : String) :
    r.command a (.subscribe topic) =
      { node := (r.node.subscribe topic).1
        made := (topic, (r.node.subscribe topic).2) :: r.made
        lent := (r.node.subscribe topic).2 :: r.lent } := by
  have hsub : (a.around r.node).subscribe a.position topic =
      ((a.around r.node).onNode a.position fun n => (n.subscribe topic).1,
        .ok (r.node.subscribe topic).2) :=
    Network.request_of_runs (a.getElem_around r.node) hr _
  simp only [command, Command.made?, Command.handle, hsub, Except.toOption, Option.map_some,
    Surroundings.node, Network.getElem_onNode_self (a.getElem_around r.node), Option.getD_some]

/-- **What any other command makes of a node**: nothing, or the node serves direct messages. -/
theorem handle_cases {net : Network H} {i : Nat} {n : Node} (hn : net.nodes[i]? = some n)
    {c : Command} (hc : ∀ topic, c ≠ .subscribe topic) :
    (c.handle net i).nodes[i]? = some n ∨
      ∃ protocol, n.direct = none ∧ (c.handle net i).nodes[i]? = some (n.serving protocol) := by
  have hsame : ∀ {net' : Network H}, net'.nodes = net.nodes → net'.nodes[i]? = some n :=
    fun h => by rw [h, hn]
  cases c with
  | subscribe topic => exact absurd rfl (hc topic)
  | publish topic data => exact Or.inl (hsame (net.nodes_publish i topic data))
  | register =>
    simp only [Command.handle, Network.register]
    rcases net.request_cases i _ with h | ⟨k, hk, -, h⟩ <;> rw [h]
    · exact Or.inl hn
    · obtain rfl := Option.some.inj (hn.symm.trans hk)
      split
      · rename_i m hm
        obtain ⟨hnone, protocol, -, rfl⟩ := Node.register_eq_ok hm
        exact Or.inr ⟨protocol, hnone, Network.getElem_onNode_self hn _⟩
      · exact Or.inl hn
  | send peer octets => exact Or.inl (hsame (net.nodes_sendOctets i peer octets))
  | connectedPeers | listenAddresses | topicPeers =>
    exact Or.inl (hsame (congrArg Network.nodes (net.request_eq_self i _)))
  | discover => exact Or.inl (hsame (net.nodes_discover i))

/-- Who is not asked to subscribe gives nothing to a caller. -/
theorem command_cases (a : Surroundings H) {c : Command} (hc : ∀ topic, c ≠ .subscribe topic) :
    r.command a c = r ∨ ∃ protocol, r.node.direct = none ∧
      r.command a c = { r with node := r.node.serving protocol } := by
  have hnode : r.command a c =
      { r with node := a.node r.node (c.handle (a.around r.node) a.position) } := by
    cases c with
    | subscribe topic => exact absurd rfl (hc topic)
    | publish | register | send | connectedPeers | listenAddresses | topicPeers | discover => rfl
  rw [hnode, Surroundings.node]
  rcases handle_cases (a.getElem_around r.node) hc with h | ⟨protocol, hnone, h⟩ <;> rw [h]
  · exact Or.inl rfl
  · exact Or.inr ⟨protocol, hnone, rfl⟩

theorem node_command_register (hr : r.node.running = true) {m : Node}
    (hm : r.node.register = .ok m) (a : Surroundings H) : (r.command a .register).node = m := by
  have hregister : (a.around r.node).register a.position =
      ((a.around r.node).onNode a.position fun _ => m, .ok ()) := by
    rw [Network.register, Network.request_of_runs (a.getElem_around r.node) hr]
    simp only [hm]
  simp only [command, Command.made?, Command.handle, hregister, Surroundings.node,
    Network.getElem_onNode_self (a.getElem_around r.node), Option.getD_some]

/-! ## The ledger stays right -/

/-- **What commands keep.** -/
theorem Ledger.command (h : r.Ledger) (a : Surroundings H) (c : Command) :
    (r.command a c).Ledger ∧
      Still (r.command a c).made (r.command a c).lent r.node (r.command a c).node := by
  by_cases hc : ∃ topic, c = .subscribe topic
  · obtain ⟨topic, rfl⟩ := hc
    rw [command_subscribe h.running a topic]
    exact ⟨h.subscribe topic, h.carries_subscribe topic⟩
  · rcases r.command_cases a (not_exists.1 hc) with he | ⟨protocol, hnone, he⟩ <;> rw [he]
    · exact ⟨h, .refl _⟩
    · exact ⟨h.serving hnone protocol, .of_flow fun c => Exchange.flow_addChannel _ _ 1 1 c⟩

/-- **What every happening keeps**: the ledger stays right, and through subscriptions goes what the
happening puts into them and what callers find. -/
theorem Ledger.happen (h : r.Ledger) (e : Happening H) : (r.happen e).Ledger ∧
    Carries (r.happen e).made (r.happen e).lent r.node (r.happen e).node (r.offered e)
      (r.found e) := by
  cases e with
  | command a c => exact h.command a c
  | joins topic => exact ⟨h.join topic, h.carries_join topic⟩
  | node e => exact ⟨Node.Ledger.happen h e, Node.Ledger.carries_happen h e⟩
  | drops c =>
    simp only [Runtime.happen, offered, found]
    split
    · rename_i hc
      exact ⟨h.dropping hc, .of_flow fun d => Exchange.flow_onChannel _ c
        (fun ch => { ch with inboxes := ch.inboxes - 1 }) (fun _ => rfl) d⟩
    · exact ⟨h, .refl _⟩
  | takes c =>
    simp only [Runtime.happen, offered, found]
    split
    · exact ⟨h.poll c, .of_flow (r.node.flow_poll c)⟩
    · exact ⟨h, .refl _⟩
  | releases inbox =>
    simp only [Runtime.happen, offered, found]
    split
    · rename_i q hq
      have hnot := (h.queues q (Node.mem_queues_of_queue? hq)).2
      exact ⟨h.releasing hnot, .of_flow fun d => Exchange.flow_onChannel _ q
        (fun ch => { ch with inboxes := ch.inboxes - 1 }) (fun _ => rfl) d⟩
    · exact ⟨h, .refl _⟩
  | cancels =>
    refine ⟨h.sameChannels (y := r.exchange.cancel Node.token) ?_ ?_ rfl fun u hu => Or.inl hu,
      .of_flow fun c => Exchange.flow_of_eq rfl rfl⟩
    · exact h.tidy.of_le rfl (Nat.le_refl _) (Nat.le_refl _) fun _ => rfl
    · exact h.books.still (Nat.le_refl _) fun c => Exchange.flow_of_eq rfl rfl
  | learns contacts => exact ⟨h.contacts contacts, .of_flow fun c => Exchange.flow_of_eq rfl rfl⟩

/-- **The ledger is right after every run.** -/
theorem Ledger.run (h : r.Ledger) (es : List (Happening H)) : (r.run es).Ledger := by
  induction es generalizing r with
  | nil => exact h
  | cons e es ih => exact ih (h.happen e).1

/-! ## What becomes of the entries -/

/-- **Subscribing enters a new subscription**, and leaves the entries of other topics. -/
theorem happen_of_subscribed (h : r.Ledger) (he : e.subscribed? = some topic) :
    ∃ c, c ∉ r.made.map (·.2) ∧ (r.happen e).made = (topic, c) :: r.made ∧
      (∀ s, (r.happen e).current? s = if s = topic then some c else r.current? s) ∧
      ((r.happen e).lent = c :: r.lent ∨ (r.happen e).lent = r.lent) := by
  have hnew : ∀ c, (r.happen e).made = (topic, c) :: r.made → c ∉ r.made.map (·.2) := by
    intro c hc
    have hdistinct := (h.happen e).1.distinct
    rw [hc] at hdistinct
    exact (List.nodup_cons.1 hdistinct).1
  cases e with
  | command a cmd =>
    cases cmd with
    | subscribe topic' =>
      obtain rfl : topic' = topic := Option.some.inj he
      simp only [happen, command_subscribe h.running] at hnew ⊢
      exact ⟨_, hnew _ rfl, rfl, fun s => r.node.subscription?_subscribe topic' s, Or.inl rfl⟩
    | publish | register | send | connectedPeers | listenAddresses | topicPeers
    | discover => cases he
  | joins topic' =>
    obtain rfl : topic' = topic := Option.some.inj he
    exact ⟨_, hnew _ rfl, rfl, fun s => r.node.subscription?_join topic' s, Or.inr rfl⟩
  | node | drops | takes | releases | cancels | learns => cases he

theorem still_of_subscribed (h : r.Ledger) (he : e.subscribed? = some topic) :
    Still (r.happen e).made (r.happen e).lent r.node (r.happen e).node := by
  have hcarries := (h.happen e).2
  cases e with
  | command | joins => exact hcarries
  | node | drops | takes | releases | cancels | learns => cases he

theorem ne_subscribe_of_not_subscribed {a : Surroundings H} {cmd : Command}
    (he : (Happening.command a cmd).subscribed? = none) (topic : String) :
    cmd ≠ .subscribe topic := by
  rintro rfl
  cases he

/-- Nothing else makes a subscription or lends one. -/
theorem happen_of_not_subscribed (he : e.subscribed? = none) :
    (r.happen e).made = r.made ∧ ∀ c ∈ (r.happen e).lent, c ∈ r.lent := by
  cases e with
  | command a cmd =>
    rw [happen]
    rcases r.command_cases a (ne_subscribe_of_not_subscribed he) with h | ⟨protocol, -, h⟩ <;>
      rw [h] <;> exact ⟨rfl, fun _ hc => hc⟩
  | joins topic => cases he
  | drops c =>
    simp only [happen]
    split
    · exact ⟨rfl, fun _ hc => List.mem_of_mem_filter hc⟩
    · exact ⟨rfl, fun _ hc => hc⟩
  | takes | releases =>
    simp only [happen]
    split <;> exact ⟨rfl, fun _ hc => hc⟩
  | node | cancels | learns => exact ⟨rfl, fun _ hc => hc⟩

/-- **The table stays as it is** unless the node subscribes or hears a message. -/
theorem subscriptions_happen (he : e.subscribed? = none) (he' : e.heard? = none) :
    (r.happen e).node.subscriptions = r.node.subscriptions := by
  cases e with
  | command a cmd =>
    rcases r.command_cases a (ne_subscribe_of_not_subscribed he) with h | ⟨protocol, -, h⟩
    · rw [happen, h]
    · rw [happen, h]
      rfl
  | joins topic => cases he
  | node e =>
    cases e with
    | hears => cases he'
    | publishes | sends | waits | settles => rfl
    | accepts sender script =>
      rcases r.node.accept_cases sender script with ⟨-, h⟩ | ⟨d, -, h⟩
      · simp only [happen, Node.happen, h]
      · simp only [happen, Node.happen, h]
        rfl
    | receives inbox =>
      simp only [happen, Node.happen]
      split <;> rfl
    | acts k =>
      rcases r.node.letAct_cases k with hk | ⟨t, a, -, -, hk⟩ <;>
        simp only [happen, Node.happen, hk]
  | drops | takes | releases =>
    simp only [happen]
    split <;> rfl
  | cancels | learns => rfl

theorem mem_made_happen (h : r.Ledger) (hc : c ∈ r.made.map (·.2)) (e : Happening H) :
    c ∈ (r.happen e).made.map (·.2) := by
  cases he : e.subscribed? with
  | none => rwa [(happen_of_not_subscribed he).1]
  | some topic =>
    obtain ⟨d, -, hmade, -⟩ := happen_of_subscribed h he
    rw [hmade]
    exact List.mem_cons_of_mem _ hc

theorem mem_lent_of_happen (h : r.Ledger) (hc : c ∈ (r.happen e).lent)
    (hmade : c ∈ r.made.map (·.2)) : c ∈ r.lent := by
  cases he : e.subscribed? with
  | none => exact (happen_of_not_subscribed he).2 c hc
  | some topic =>
    obtain ⟨d, hnew, -, -, hlent | hlent⟩ := happen_of_subscribed h he <;> rw [hlent] at hc
    · exact (List.mem_cons.1 hc).resolve_left fun he => hnew (he ▸ hmade)
    · exact hc

/-- Nothing but subscribing makes an entry. -/
theorem entry_of_happen (he : e.subscribed? = none) {s : String}
    (hs : (r.happen e).current? s = some c) : r.current? s = some c := by
  cases he' : e.heard? with
  | none =>
    rw [current?, Node.subscription?, subscriptions_happen he he'] at hs
    exact hs
  | some topic =>
    cases e with
    | node e =>
      cases e with
      | hears via author topic data =>
        have hheard := r.node.subscription?_hear (author.getD via) topic data s
        rw [show (r.node.hear _ topic data).subscription? s = some c from hs] at hheard
        exact Option.eq_some_of_filter_eq_some hheard.symm
      | publishes | sends | accepts | receives | waits | acts | settles => cases he'
    | command | joins | drops | takes | releases | cancels | learns => cases he'

/-! ## Nodes that start -/

theorem run_append (r : Runtime) (es fs : List (Happening H)) :
    r.run (es ++ fs) = (r.run es).run fs := by
  induction es generalizing r with
  | nil => rfl
  | cons e es ih => exact ih (r.happen e)

theorem node_run_joins (r : Runtime) (topics : List String) :
    (r.run (topics.map (.joins (H := H)))).node = topics.foldl Node.join r.node := by
  induction topics generalizing r with
  | nil => rfl
  | cons topic topics ih => exact ih (r.happen (H := H) (.joins topic))

/-- A network in which there is nobody else, on a host to which nothing has happened. -/
def nobody (H : Host) : Surroundings H := ⟨[], [], H.initial⟩

/-- **A node that starts** is what joining its topics, and registering, makes of a bare one. -/
theorem exists_run_of_start (H : Host) {fresh : KeyPair} {config : Config} {n : Node}
    (h : Node.start fresh config = .ok n) : ∃ id services contacts, ∃ es : List (Happening H),
      ((bare config id services contacts).run es).node = n := by
  obtain ⟨key, services, addresses, -, -, -, hcases⟩ := Node.start_eq_ok h
  obtain ⟨cs, hcs⟩ :=
    ({ config, id := key.peerId, services } : Node).addContacts_eq addresses
  simp only [hcs] at hcases
  have hjoins := node_run_joins (H := H) (bare config key.peerId services cs) config.topics
  rcases hcases with ⟨-, rfl⟩ | ⟨protocol, hprotocol, rfl⟩
  · exact ⟨_, _, _, _, hjoins⟩
  · refine ⟨key.peerId, services, cs,
      config.topics.map .joins ++ [.command (nobody H) .register], ?_⟩
    obtain ⟨hconfig, -, hdirect, hrunning, -⟩ :=
      Node.fields_joinAll (bare config key.peerId services cs).node config.topics
    rw [← hjoins] at hconfig hdirect hrunning
    have hregister := Node.register_of_none hdirect (by rw [hconfig]; exact hprotocol)
    rw [run_append]
    exact (node_command_register hrunning hregister (nobody H)).trans
      (congrArg (Node.serving · protocol) hjoins)

end Runtime
end PeerNode
