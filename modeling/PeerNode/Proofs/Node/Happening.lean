import PeerNode.Node.Happening
import PeerNode.Proofs.Exchange.Rules
import PeerNode.Proofs.Node.Sound

/-!
# A node that runs stays in order

Whatever happens to a node that runs, its configuration, its topics and its queues stay what they
are, and everything in it stays in order.

* `Node.letAct_cases`: one task acts, or nothing changes.
* `Node.alike_happen`, `Node.alike_run`: what a node is does not change.
* `Sound.happen`, `Sound.run`: a node stays in order.
-/

namespace PeerNode
namespace Node

variable {n : Node} {spare : List Nat}

/-- Letting a task act is an act of the task, or it does nothing. -/
theorem letAct_cases (n : Node) (k : Nat) : n.letAct k = n ∨
    ∃ t a, t ∈ n.exchange.tasks ∧ n.exchange.Does t a ∧
      n.letAct k = { n with exchange := n.exchange.perform t a } := by
  unfold letAct
  split
  · exact Or.inl rfl
  · rename_i t ht
    split
    · exact Or.inl rfl
    · rename_i a ha
      exact Or.inr ⟨t, a, List.mem_of_getElem? ht, Exchange.act?_eq_some_iff.1 ha, rfl⟩

theorem alike_happen (n : Node) (e : Happening) : n.Alike (n.happen e) := by
  cases e with
  | publishes | sends => exact .refl n
  | hears via author topic data => exact n.alike_hear _ topic data
  | accepts sender script => exact n.alike_accept sender script
  | receives inbox =>
    simp only [happen]
    split
    · exact ⟨rfl, rfl, rfl, rfl, rfl, rfl, rfl⟩
    · exact .refl n
  | waits secs => exact ⟨rfl, rfl, rfl, rfl, rfl, rfl, rfl⟩
  | acts k =>
    rcases n.letAct_cases k with hk | ⟨t, a, -, -, hk⟩ <;> rw [happen, hk]
    · exact .refl n
    · exact ⟨rfl, rfl, rfl, rfl, rfl, rfl, rfl⟩
  | settles => exact ⟨rfl, rfl, rfl, rfl, rfl, rfl, rfl⟩

theorem alike_run (n : Node) (es : List Happening) : n.Alike (n.run es) := by
  induction es generalizing n with
  | nil => exact .refl n
  | cons e es ih => exact (n.alike_happen e).trans (ih (n.happen e))

namespace Sound

theorem accept (h : n.Sound spare) (sender : PeerName) (script : List ReadEvent) :
    (n.accept sender script).Sound spare := by
  rcases n.accept_cases sender script with ⟨-, he⟩ | ⟨d, hd, he⟩ <;> rw [he]
  · exact h
  · exact h.handling hd sender script

theorem poll (h : n.Sound spare) (q : Nat) : (n.poll q).1.Sound spare :=
  h.onlyMessages (Exchange.onlyMessages_tryReceive _ _) (h.books.tryReceive _)

theorem advance (h : n.Sound spare) (secs : Nat) :
    ({ n with exchange := n.exchange.advance secs } : Node).Sound spare :=
  h.withExchange rfl rfl ⟨h.tidy.distinct, h.tidy.numbered, h.tidy.known, h.tidy.ended⟩ h.fits
    (h.books.still (Nat.le_refl _) fun _ => Exchange.flow_of_eq rfl rfl)
    fun u hu => ⟨u, hu, rfl, .other _⟩

/-- **Whatever happens to a node keeps it in order.** -/
theorem happen (h : n.Sound spare) (e : Happening) : (n.happen e).Sound spare := by
  cases e with
  | publishes | sends => exact h
  | hears via author topic data => exact h.hear _ topic data
  | accepts sender script => exact h.accept sender script
  | receives inbox =>
    simp only [Node.happen]
    split
    · exact h.poll _
    · exact h
  | waits secs => exact h.advance secs
  | acts k =>
    rcases n.letAct_cases k with hk | ⟨t, a, ht, ha, hk⟩ <;> rw [Node.happen, hk]
    · exact h
    · exact h.perform ht ha
  | settles => exact h.settle

theorem run (h : n.Sound spare) (es : List Happening) : (n.run es).Sound spare := by
  induction es generalizing n with
  | nil => exact h
  | cons e es ih => exact ih (h.happen e)

end Sound
end Node
end PeerNode
