import PeerNode.Network.Action
import PeerNode.Proofs.Node.Beginning
import PeerNode.Proofs.Node.Happening

/-!
# What a request does to the nodes of a network

Most of what nodes are asked for concerns the host, and leaves every node as it is.  The rest is
done to the one node that is asked.  Either way a node stays at its position, keeps its identity,
and does not run again once it has stopped (`lasts_run`); a position is never given away twice.

* `getElem_onNode`: what is done to one node.
* `request_cases`, `request_of_runs`: who answers.
* `nodes_publish`, `nodes_sendOctets` and others: requests that leave all nodes as they are.
* `start_eq_ok`: what a start comes to.
* `Network.Kept`, `act_cases`: what an action does to the nodes.
* `lasts_run`, `speaks_run`: what holds however much is done.
-/

namespace PeerNode
namespace Network

variable {H : Host} {net net' net'' : Network H} {n m : Node} {i j : Nat}

/-! ## One node -/

theorem getElem_onNode (net : Network H) (i j : Nat) (f : Node → Node) :
    (net.onNode i f).nodes[j]? = (net.nodes[j]?).map fun n => if i = j then f n else n := by
  simp only [onNode, List.getElem?_modify]
  cases net.nodes[j]? <;> split <;> simp_all

theorem getElem_onNode_self (hn : net.nodes[i]? = some n) (f : Node → Node) :
    (net.onNode i f).nodes[i]? = some (f n) := by
  rw [getElem_onNode, hn, Option.map_some, if_pos rfl]

@[simp]
theorem state_onNode (net : Network H) (i : Nat) (f : Node → Node) :
    (net.onNode i f).state = net.state := rfl

/-- Who is asked runs, or nothing happens. -/
theorem request_cases {α : Type} (net : Network H) (i : Nat)
    (f : Node → Network H × Except NodeError α) : net.request i f = (net, .error .notStarted) ∨
      ∃ n, net.nodes[i]? = some n ∧ n.running = true ∧ net.request i f = f n := by
  unfold request
  split
  · rename_i n hn
    split
    · rename_i hrunning
      exact Or.inr ⟨n, hn, hrunning, rfl⟩
    · exact Or.inl rfl
  · exact Or.inl rfl

theorem request_of_runs {α : Type} (hn : net.nodes[i]? = some n) (hrunning : n.running = true)
    (f : Node → Network H × Except NodeError α) : net.request i f = f n := by
  simp only [request, hn, hrunning, if_true]

/-! ## Requests that only concern the host -/

theorem nodes_request {α : Type} {f : Node → Network H × Except NodeError α}
    (hf : ∀ n, (f n).1.nodes = net.nodes) (i : Nat) : (net.request i f).1.nodes = net.nodes := by
  rcases net.request_cases i f with h | ⟨n, -, -, h⟩ <;> rw [h]
  exact hf n

theorem nodes_publish (net : Network H) (i : Nat) (topic : String) (data : Bytes) :
    (net.publish i topic data).1.nodes = net.nodes :=
  nodes_request (fun _ => by split <;> rfl) i

theorem nodes_publishPrimary (net : Network H) (i : Nat) (data : Bytes) :
    (net.publishPrimary i data).1.nodes = net.nodes := by
  unfold publishPrimary
  split
  · exact net.nodes_publish i _ data
  · rfl

theorem nodes_sendOctets (net : Network H) (i : Nat) (peer : PeerId) (octets : Bytes) :
    (net.sendOctets i peer octets).1.nodes = net.nodes :=
  nodes_request (fun _ => by split <;> rfl) i

theorem nodes_sendRaw (net : Network H) (i : Nat) (recipient : PeerName) (octets : Bytes) :
    (net.sendRaw i recipient octets).1.nodes = net.nodes := by
  unfold sendRaw
  split
  · rfl
  · exact net.nodes_sendOctets i _ octets

theorem nodes_sendTo (net : Network H) (i : Nat) (recipient : PeerName) (payload : Bytes) :
    (net.sendTo i recipient payload).1.nodes = net.nodes := by
  unfold sendTo
  split
  · rfl
  · split
    · rfl
    · exact net.nodes_sendOctets i _ _

theorem nodes_sendFrom (net : Network H) (i : Nat) (recipient : PeerName) (payload : Bytes) :
    (net.sendFrom i recipient payload).1.nodes = net.nodes := by
  unfold sendFrom
  split
  · exact net.nodes_sendTo i recipient payload
  · rfl

theorem nodes_discover (net : Network H) (i : Nat) : (net.discover i).1.nodes = net.nodes := by
  refine nodes_request (fun n => ?_) i
  split
  · rfl
  · split <;> rfl

theorem request_eq_self {α : Type} (net : Network H) (i : Nat) (r : Node → Except NodeError α) :
    (net.request i fun n => (net, r n)).1 = net := by
  rcases net.request_cases i (fun n => (net, r n)) with h | ⟨n, -, -, h⟩ <;> rw [h]

/-! ## Starting -/

/-- What a start comes to. -/
theorem start_eq_ok {fresh : KeyPair} {config : Config}
    (h : net.start fresh config = .ok (net', i)) : i = net.nodes.length ∧
      ∃ n addresses, Node.start fresh config = .ok n ∧ config.bootstrapAddresses = .ok addresses ∧
        net' = ⟨net.nodes ++ [n], H.enter net.state ((net.nodes ++ [n]).map Node.profile) i
          addresses⟩ := by
  unfold start at h
  simp only [bind, Except.bind, pure, Except.pure] at h
  split at h
  · cases h
  · rename_i n hn
    split at h
    · cases h
    · rename_i addresses haddresses
      obtain ⟨rfl, rfl⟩ := Prod.mk.inj (Except.ok.inj h)
      exact ⟨rfl, n, addresses, hn, haddresses, rfl⟩

/-! ## Nodes stay -/

/-- Every node stays at its position, and what an operation never changes of it stays. -/
structure Kept (net net' : Network H) : Prop where
  length : net'.nodes.length = net.nodes.length
  node : ∀ (j : Nat) (n : Node), net.nodes[j]? = some n →
    ∃ m, net'.nodes[j]? = some m ∧ n.Lasts m

theorem Kept.of_nodes (h : net'.nodes = net.nodes) : net.Kept net' :=
  ⟨by rw [h], fun _ n hn => ⟨n, by rw [h, hn], .refl n⟩⟩

theorem Kept.trans (h : net.Kept net') (h' : net'.Kept net'') : net.Kept net'' := by
  refine ⟨h'.length.trans h.length, fun j n hn => ?_⟩
  obtain ⟨m, hm, hlasts⟩ := h.node j n hn
  obtain ⟨k, hk, hlasts'⟩ := h'.node j m hm
  exact ⟨k, hk, hlasts.trans hlasts'⟩

theorem kept_onNode {f : Node → Node} (hf : ∀ n, net.nodes[i]? = some n → n.Lasts (f n)) :
    net.Kept (net.onNode i f) := by
  refine ⟨List.length_modify _ _ _, fun j n hn => ?_⟩
  refine ⟨_, by rw [getElem_onNode, hn, Option.map_some], ?_⟩
  split
  · rename_i hij
    subst hij
    exact hf n hn
  · exact .refl n

/-- **An action starts a node or keeps all nodes.** -/
theorem act_cases (net : Network H) (a : Action H) :
    (∃ fresh config n, a = .start fresh config ∧ Node.start fresh config = .ok n ∧
      (net.act a).1.nodes = net.nodes ++ [n]) ∨ net.Kept (net.act a).1 := by
  cases a with
  | start fresh config =>
    cases hstart : net.start fresh config with
    | error e =>
      simp only [act, hstart]
      exact Or.inr (.of_nodes rfl)
    | ok started =>
      obtain ⟨-, n, addresses, hn, -, he⟩ := start_eq_ok hstart
      exact Or.inl ⟨fresh, config, n, rfl, hn, by simp only [act, hstart, he]⟩
  | stop i =>
    have hkept : net.Kept (net.onNode i Node.stop) := kept_onNode fun n _ => n.lasts_stop
    exact Or.inr ⟨hkept.length, hkept.node⟩
  | publishPrimary i data => exact Or.inr (.of_nodes (net.nodes_publishPrimary i data))
  | publish i topic data => exact Or.inr (.of_nodes (net.nodes_publish i topic data))
  | subscribeAndDrop i topic =>
    simp only [act, subscribeAndDrop, subscribe]
    rcases net.request_cases i _ with h | ⟨k, -, -, h⟩ <;> rw [h]
    · exact Or.inr (.of_nodes rfl)
    · exact Or.inr ((kept_onNode fun n _ => (n.alike_subscribe topic).lasts).trans
        (kept_onNode fun n _ => (n.alike_abandon _).lasts))
  | sendFrom i recipient payload =>
    exact Or.inr (.of_nodes (net.nodes_sendFrom i recipient payload))
  | sendTo i recipient payload => exact Or.inr (.of_nodes (net.nodes_sendTo i recipient payload))
  | sendRaw i recipient octets => exact Or.inr (.of_nodes (net.nodes_sendRaw i recipient octets))
  | register i =>
    simp only [act, register]
    rcases net.request_cases i _ with h | ⟨k, hk, -, h⟩ <;> rw [h]
    · exact Or.inr (.of_nodes rfl)
    · split
      · rename_i m hm
        refine Or.inr (kept_onNode fun n hn => ?_)
        obtain rfl := Option.some.inj (hk.symm.trans hn)
        exact Node.lasts_register hm
      · exact Or.inr (.of_nodes rfl)
  | receive i inbox =>
    simp only [act, receive]
    split
    · rename_i q hq
      obtain ⟨k, hk, -⟩ := Option.bind_eq_some_iff.1 hq
      simp only [receiveFrom, hk]
      exact Or.inr (kept_onNode fun n _ => (n.alike_take q).lasts)
    · exact Or.inr (.of_nodes rfl)
  | connectedPeers i => exact Or.inr (.of_nodes (congrArg nodes (net.request_eq_self i _)))
  | topicPeers i topic => exact Or.inr (.of_nodes (congrArg nodes (net.request_eq_self i _)))
  | listenAddresses i => exact Or.inr (.of_nodes (congrArg nodes (net.request_eq_self i _)))
  | discover i => exact Or.inr (.of_nodes (net.nodes_discover i))
  | bring i via author topic data =>
    refine Or.inr (kept_onNode fun n _ => ?_)
    exact ((n.alike_hear _ topic data).trans
      ((n.deliver via author topic data).alike_happen .settles)).lasts
  | receiveStream i sender octets =>
    refine Or.inr (kept_onNode fun n _ => ?_)
    split
    · exact (n.alike_handleStream sender _).lasts
    · exact .refl n
  | react e => exact Or.inr (.of_nodes rfl)

theorem run_append (net : Network H) (as bs : List (Action H)) :
    (net.run (as ++ bs)).1 = ((net.run as).1.run bs).1 := by
  induction as generalizing net with
  | nil => rfl
  | cons a as ih => exact ih (net.act a).1

/-- **Nodes stay, however much is done.** -/
theorem lasts_run (as : List (Action H)) (hn : net.nodes[j]? = some n) :
    ∃ m, (net.run as).1.nodes[j]? = some m ∧ n.Lasts m := by
  induction as generalizing net n with
  | nil => exact ⟨n, hn, .refl n⟩
  | cons a as ih =>
    obtain ⟨m, hm, hlasts⟩ : ∃ m, (net.act a).1.nodes[j]? = some m ∧ n.Lasts m := by
      rcases net.act_cases a with ⟨_, _, k, -, -, he⟩ | hkept
      · refine ⟨n, ?_, .refl n⟩
        rw [he, List.getElem?_append_left (List.getElem?_eq_some_iff.1 hn).1, hn]
      · exact hkept.node j n hn
    obtain ⟨m', hm', hlasts'⟩ := ih hm
    exact ⟨m', hm', hlasts.trans hlasts'⟩

theorem speaks_act (hnet : ∀ n ∈ net.nodes, n.Speaks) (a : Action H) :
    ∀ n ∈ (net.act a).1.nodes, n.Speaks := by
  intro m hm
  rcases net.act_cases a with ⟨fresh, config, k, -, hk, he⟩ | hkept
  · rw [he] at hm
    rcases List.mem_append.1 hm with hm | hm
    · exact hnet m hm
    · obtain rfl := List.mem_singleton.1 hm
      have hconfigured := Node.configured_start hk
      rw [Node.Speaks, hconfigured.protocol, hconfigured.config]
  · obtain ⟨j, hj⟩ := List.getElem?_of_mem hm
    have hlt := (List.getElem?_eq_some_iff.1 hj).1
    rw [hkept.length] at hlt
    obtain ⟨m', hm', hlasts⟩ := hkept.node j _ (List.getElem?_eq_getElem hlt)
    obtain rfl := Option.some.inj (hj.symm.trans hm')
    exact hlasts.speaks (hnet _ (List.getElem_mem hlt))

/-- **Every node serves direct messages under the protocol of its configuration.** -/
theorem speaks_run (hnet : ∀ n ∈ net.nodes, n.Speaks) (as : List (Action H)) :
    ∀ n ∈ (net.run as).1.nodes, n.Speaks := by
  induction as generalizing net with
  | nil => exact hnet
  | cons a as ih => exact ih (speaks_act hnet a)

end Network
end PeerNode
