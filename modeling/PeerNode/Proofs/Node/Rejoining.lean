import PeerNode.Proofs.Config.Listening
import PeerNode.Proofs.Node.Beginning

/-!
# How long a topic of a node can be received

A node keeps the queues of its topics for as long as it runs, and the listener of a topic does not
stop.  The one exception is made when the node starts: of a topic that its configuration names
several times, only the last entry is served, and the others are closed from the beginning.

How a topic stands is settled when it is joined (`standing_start`), and nothing that happens to a
node that runs changes it (`Standing.run`).

* `Node.receive_closed_iff_joined_again`: what a receive from a topic is told.
-/

namespace PeerNode
namespace Node

variable {n : Node}

/-- **A receive from a topic is told that the topic is closed exactly if its name comes up again
later among the topics of the configuration.**  This holds from the start on, as long as the node
runs, and does not depend on what the node has published, sent and received, nor on what has arrived
and how far the tasks have got with it.  So a node whose configuration names no topic twice never
reports that a topic is closed, and one that names its first topic twice reports it of its primary
topic at once. -/
theorem receive_closed_iff_joined_again {fresh : KeyPair} {config : Config}
    (hstart : Node.start fresh config = .ok n) (es : List Happening) {k : Nat} {topic : String}
    (hk : config.topics[k]? = some topic) :
    (n.run es).running = true ∧ ∃ q, (n.run es).queue? (.topic k) = some q ∧
      (((n.run es).poll q).2 = .closed ↔ topic ∈ config.topics.drop (k + 1)) := by
  have hbegun := begun_start hstart
  have hconfigured := configured_start hstart
  have halike := n.alike_run es
  have hsound := hbegun.steady.sound.run es
  have hstanding := hbegun.standing.run hbegun.steady.sound es
  have hnames : (n.run es).topics.map (·.name) = config.topics := by
    rw [halike.topics, hconfigured.topics]
  obtain ⟨e, he, rfl⟩ : ∃ e, (n.run es).topics[k]? = some e ∧ e.name = topic := by
    rwa [← hnames, List.getElem?_map, Option.map_eq_some_iff] at hk
  refine ⟨halike.running.trans hconfigured.running, e.queue, ?_, ?_⟩
  · rw [queue?, he, Option.map_some]
  · rw [hstanding.poll_eq_closed_iff hsound he, List.map_drop, hnames]

/-- A node whose configuration names a topic twice.  It runs, and yet its primary topic is closed;
the other entry of the same name is open. -/
theorem receive_closed_iff_joined_again_twice : ∃ n q q',
    Node.start (.ofSeed []) { topics := ["t", "t"] } = .ok n ∧ n.running = true ∧
      n.queue? (.topic 0) = some q ∧ (n.poll q).2 = .closed ∧
      n.queue? (.topic 1) = some q' ∧ (n.poll q').2 ≠ .closed := by
  obtain ⟨n, hstart⟩ : ∃ n, Node.start (.ofSeed []) { topics := ["t", "t"] } = .ok n :=
    exists_start (by decide) ⟨_, rfl⟩ ⟨_, Config.listenMultiaddr_eq _⟩
  obtain ⟨hrunning, q, hq, hclosed⟩ :=
    receive_closed_iff_joined_again hstart [] (show ["t", "t"][0]? = some "t" from rfl)
  obtain ⟨-, q', hq', hopen⟩ :=
    receive_closed_iff_joined_again hstart [] (show ["t", "t"][1]? = some "t" from rfl)
  exact ⟨n, q, q', hstart, hrunning, hq, hclosed.2 (by decide), hq',
    fun he => absurd (hopen.1 he) (by decide)⟩

end Node
end PeerNode
