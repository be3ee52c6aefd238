import PeerNode.Proofs.Config.Listening
import PeerNode.Proofs.Node.Beginning
import PeerNode.Proofs.Node.Receipts
import PeerNode.Proofs.PeerId.Naming

/-!
# Several nodes at once

A fleet consists of nodes that have just started, no two of them with the same identity.  What then
happens to them is a trace: which node, and what.  Messages and streams that arrive are part of the
trace, and so is what the host makes of what is sent.  A trace is not required to make sense: where
arrivals come from is a matter of the host, and what is assumed of it is said where it is needed.

To each node happens its own part of the trace and nothing else (`getElem_after`).

* `Fleet`, `Fleet.Trace`, `Fleet.after`: nodes, what happens to them, and what becomes of them.
* `Fleet.gather`: what may be said of all that happens.
* `Fleet.received`: what is received from an inbox.
-/

namespace PeerNode

/-- Nodes that have just started, no two of them with the same identity. -/
structure Fleet where
  nodes : List Node
  started : ∀ n ∈ nodes, ∃ fresh config, Node.start fresh config = .ok n
  distinct : (nodes.map (·.id)).Nodup

namespace Fleet

variable {F : Fleet} {nodes : List Node} {n m : Node} {b i : Nat} {α : Type}

/-- What happens to which node. -/
abbrev Trace := List (Nat × Node.Happening)

def step (nodes : List Node) (p : Nat × Node.Happening) : List Node :=
  nodes.modify p.1 (·.happen p.2)

def after (F : Fleet) (trace : Trace) : List Node := trace.foldl step F.nodes

/-- The part of a trace that happens to one node. -/
def own (b : Nat) (trace : Trace) : List Node.Happening :=
  trace.filterMap fun p => if p.1 = b then some p.2 else none

/-- What something says of all that happens, each time of the node as it then is. -/
def gather (f : Nat → Node → Node.Happening → List α) : List Node → Trace → List α
  | _, [] => []
  | nodes, p :: rest =>
    (nodes[p.1]?.toList.flatMap fun n => f p.1 n p.2) ++ gather f (step nodes p) rest

/-- What is received from an inbox of a node. -/
def received (F : Fleet) (b : Nat) (inbox : Inbox) (trace : Trace) : List Message :=
  gather (fun i n e => if i = b then n.found inbox e else []) F.nodes trace

/-! ## Each node for itself -/

theorem getElem_step (nodes : List Node) (p : Nat × Node.Happening) (b : Nat) :
    (step nodes p)[b]? = nodes[b]?.map (·.run (own b [p])) := by
  simp only [step, own, List.getElem?_modify, List.filterMap_cons, List.filterMap_nil]
  by_cases hp : p.1 = b
  · simp [hp, Node.run]
  · simp [hp, Node.run]

theorem own_append (b : Nat) (trace trace' : Trace) :
    own b (trace ++ trace') = own b trace ++ own b trace' := List.filterMap_append

theorem own_map (b : Nat) (es : List Node.Happening) : own b (es.map (b, ·)) = es := by
  simp only [own, List.filterMap_map, Function.comp_def, if_true, List.filterMap_some]

theorem own_map_of_ne (h : i ≠ b) (es : List Node.Happening) : own b (es.map (i, ·)) = [] := by
  simp only [own, List.filterMap_map, Function.comp_def, if_neg h]
  exact List.filterMap_eq_nil_iff.2 fun _ _ => rfl

theorem mem_own {e : Node.Happening} {trace : Trace} : e ∈ own b trace ↔ (b, e) ∈ trace := by
  simp only [own, List.mem_filterMap, Option.ite_none_right_eq_some, Option.some.injEq]
  constructor
  · rintro ⟨⟨i, e'⟩, hmem, rfl, rfl⟩
    exact hmem
  · exact fun hmem => ⟨(b, e), hmem, rfl, rfl⟩

/-- **To each node happens its own part of the trace.** -/
theorem getElem_foldl_step (nodes : List Node) (trace : Trace) (b : Nat) :
    (trace.foldl step nodes)[b]? = nodes[b]?.map (·.run (own b trace)) := by
  induction trace generalizing nodes with
  | nil => exact (Option.map_id' (x := nodes[b]?)).symm
  | cons p trace ih =>
    have hown : own b (p :: trace) = own b [p] ++ own b trace := own_append b [p] trace
    rw [List.foldl_cons, ih, getElem_step, Option.map_map, hown]
    exact congrArg (nodes[b]?.map ·) (funext fun n => (n.run_append _ _).symm)

theorem getElem_after (hn : F.nodes[b]? = some n) (trace : Trace) :
    (F.after trace)[b]? = some (n.run (own b trace)) := by
  rw [after, getElem_foldl_step, hn, Option.map_some]

theorem exists_of_getElem_after {trace : Trace} (hm : (F.after trace)[b]? = some m) :
    ∃ n, F.nodes[b]? = some n ∧ n.run (own b trace) = m := by
  rw [after, getElem_foldl_step] at hm
  exact Option.map_eq_some_iff.1 hm

theorem begun (hn : F.nodes[b]? = some n) : n.Begun := by
  obtain ⟨_, _, hstart⟩ := F.started n (List.mem_of_getElem? hn)
  exact Node.begun_start hstart

theorem eq_of_name_eq (hn : F.nodes[b]? = some n) (hm : F.nodes[i]? = some m)
    (hname : m.name = n.name) : i = b := by
  have hid : (F.nodes.map (·.id))[i]? = (F.nodes.map (·.id))[b]? := by
    rw [List.getElem?_map, List.getElem?_map, hn, hm, Option.map_some, Option.map_some,
      PeerName.ofId_injective hname]
  refine (List.getElem?_inj ?_ F.distinct).1 hid
  rw [List.length_map]
  exact (List.getElem?_eq_some_iff.1 hm).1

/-! ## All that happens -/

/-- What is said of one node only is said of its own part. -/
theorem gather_own (f : Node → Node.Happening → List α) (hn : nodes[b]? = some n)
    (trace : Trace) : gather (fun i n e => if i = b then f n e else []) nodes trace =
      Node.gather f n (own b trace) := by
  induction trace generalizing nodes n with
  | nil => rfl
  | cons p trace ih =>
    have hstep := getElem_step nodes p b
    rw [hn, Option.map_some] at hstep
    rw [gather, ih hstep]
    by_cases hp : p.1 = b
    · simp [own, hp, hn, Node.gather, Node.run]
    · cases hq : nodes[p.1]? <;> simp [own, hp, Node.run]

theorem received_eq (hn : F.nodes[b]? = some n) (inbox : Inbox) (trace : Trace) :
    F.received b inbox trace = n.received inbox (own b trace) :=
  gather_own (Node.found inbox) hn trace

theorem received_append {trace : Trace} (hm : (F.after trace)[b]? = some m) (inbox : Inbox)
    (es : List Node.Happening) : F.received b inbox (trace ++ es.map (b, ·)) =
      F.received b inbox trace ++ m.received inbox es := by
  obtain ⟨n, hn, rfl⟩ := exists_of_getElem_after hm
  rw [received_eq hn, received_eq hn, own_append, own_map]
  exact Node.gather_append _ n _ _

theorem delivered_after (hn : F.nodes[b]? = some n) {inbox : Inbox} {q : Nat}
    (hq : n.queue? inbox = some q) (trace : Trace) :
    (n.run (own b trace)).exchange.delivered q = F.received b inbox trace := by
  have hbegun := begun hn
  rw [hbegun.steady.sound.delivered_run hq, received_eq hn,
    (hbegun.steady.sound.books.eq_nil (hbegun.quiet q)).1, List.nil_append]

theorem gather_congr {f g : Nat → Node → Node.Happening → List α}
    (h : ∀ i n e, f i n e = g i n e) (nodes : List Node) (trace : Trace) :
    gather f nodes trace = gather g nodes trace := by
  rw [show f = g from funext fun i => funext fun n => funext fun e => h i n e]

theorem flatMap_gather {β : Type} (f : Nat → Node → Node.Happening → List α) (g : α → List β)
    (nodes : List Node) (trace : Trace) : (gather f nodes trace).flatMap g =
      gather (fun i n e => (f i n e).flatMap g) nodes trace := by
  induction trace generalizing nodes with
  | nil => rfl
  | cons p trace ih =>
    rw [gather, gather, List.flatMap_append, ih, List.flatMap_assoc]

/-! ## Two nodes -/

/-- A configuration with one topic and with direct messages. -/
def pairConfig : Config := { topics := ["t"], protocolName := some "/p" }

theorem exists_pair {key key' : KeyPair} (hkeys : key.peerId ≠ key'.peerId) :
    ∃ (F : Fleet) (n m : Node), F.nodes = [n, m] ∧ n.Configured key pairConfig ∧
      m.Configured key' pairConfig := by
  have hstart : ∀ fresh, ∃ n, Node.start fresh pairConfig = .ok n := fun fresh =>
    Node.exists_start (by decide) ⟨_, rfl⟩ ⟨_, pairConfig.listenMultiaddr_eq⟩
  obtain ⟨n, hn⟩ := hstart key
  obtain ⟨m, hm⟩ := hstart key'
  have hnc := Node.configured_start hn
  have hmc := Node.configured_start hm
  refine ⟨⟨[n, m], ?_, ?_⟩, n, m, rfl, hnc, hmc⟩
  · intro k hk
    rcases List.mem_pair.1 hk with rfl | rfl
    · exact ⟨key, pairConfig, hn⟩
    · exact ⟨key', pairConfig, hm⟩
  · simpa [hnc.id_eq rfl, hmc.id_eq rfl] using hkeys

end Fleet
end PeerNode
