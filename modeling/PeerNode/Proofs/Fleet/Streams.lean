import PeerNode.Proofs.Fleet.Basic

/-!
# Direct messages between nodes

A node that sends something to a peer has the host open a stream, and is told in the end that all of
it has been written or that it has not.  It may not have been although the peer has got it: when the
time is up nobody knows how far the octets have come.

What is assumed of the host is that it carries streams (`Fleet.Carried`).  A stream that has been
written arrives once and unchanged, or is still under way; and one that has not been written brings
at most the octets that it has taken.  Then the messages at a node are those that have been sent to
it, each of them once, and those that came of sends that failed (`direct_exactly_once`).  If streams
never fail once they are open there are none of the latter.

The order may change, since handlers that begin at the same time need not come to their turn in that
order, so the law is one of multisets.  The queue is bounded, but no sender is refused because it is
full: the message then waits with its handler.

* `Parcel.message`: the message that is sent.
* `Node.order?`, `Node.streams`, `Node.mail`: the streams that sends open, and what they bring.
* `Passage.Sure`, `Fleet.Carried`: what is assumed of the host.
* `Fleet.Carried.conserved`: nothing is lost and nothing is there twice.
-/

namespace PeerNode

variable {n m k : Node} {peer : PeerId} {recipient : PeerName} {parcel : Parcel} {octets : Bytes}
  {passage : Passage} {told : Bool} {d : DirectChannel}

/-- What a parcel brings: a payload without its trailing newline, and of raw octets what a reader
takes for a frame. -/
def Parcel.message (sender : PeerName) : Parcel → List Message
  | payload bs => [.direct sender (Frame.body bs)]
  | raw octets => letter sender octets

theorem Parcel.message_eq (h : parcel.octets = .ok octets) (sender : PeerName) :
    parcel.message sender = letter sender octets := by
  cases parcel with
  | payload bs =>
    simp only [Parcel.octets] at h
    split at h
    · rename_i frame hframe
      rw [← Except.ok.inj h, letter_frame hframe, Parcel.message]
    · cases h
  | raw bs => rw [Parcel.message, Except.ok.inj h]

namespace Passage

/-- A stream, once there is one, takes everything in time. -/
def Sure (p : Passage) : Prop :=
  p.overdue = none ∧ ∀ sink, p.opening = .ok sink →
    ∀ octets, (Frame.write sink octets).result = .ok ()

/-- What has been written has been taken. -/
theorem taken_of_result (h : passage.result peer octets = .ok ()) :
    passage.taken octets = some octets := by
  unfold result at h
  split at h
  · cases h
  · rename_i hoverdue
    rw [Option.not_isSome_iff_eq_none] at hoverdue
    split at h
    · cases h
    · rename_i sink hopening
      split at h
      · rename_i hwrite
        simp only [taken, hopening, hoverdue, Frame.taken_write_of_ok hwrite]
      · cases h

theorem Sure.result (h : passage.Sure) {sink : Frame.Sink} (hopening : passage.opening = .ok sink)
    (peer : PeerId) (octets : Bytes) : passage.result peer octets = .ok () := by
  simp [Passage.result, h.1, hopening, h.2 sink hopening octets]

theorem Sure.taken (h : passage.Sure) (hfails : passage.result peer octets ≠ .ok ()) :
    passage.taken octets = none := by
  cases hopening : passage.opening with
  | error reason => simp only [Passage.taken, hopening]
  | ok sink => exact absurd (h.result hopening peer octets) hfails

end Passage

namespace Node

/-! ## What a node sends -/

/-- What a node that sends a parcel asks of its host: who is to get which octets. -/
def order? (n : Node) (recipient : PeerName) (parcel : Parcel) : Option (PeerId × Bytes) :=
  match recipient.toId, parcel.octets with
  | .ok peer, .ok octets =>
    if n.running ∧ n.config.protocolName.isSome then some (peer, octets) else none
  | .ok _, .error _ | .error _, _ => none

/-- **What is told of a send is what comes of the order**, if there is one; otherwise it fails. -/
theorem send_eq (n : Node) (recipient : PeerName) (parcel : Parcel) (passage : Passage) :
    (∃ peer octets, n.order? recipient parcel = some (peer, octets) ∧ recipient.toId = .ok peer ∧
      parcel.octets = .ok octets ∧ n.send recipient parcel passage = passage.result peer octets) ∨
    n.order? recipient parcel = none ∧ ∃ e, n.send recipient parcel passage = .error e := by
  cases hpeer : recipient.toId with
  | error e => exact Or.inr ⟨by simp [order?, hpeer], e, by simp [send, hpeer, bind, Except.bind]⟩
  | ok peer =>
    cases hoctets : parcel.octets with
    | error e =>
      exact Or.inr ⟨by simp [order?, hpeer, hoctets], e,
        by simp [send, hpeer, hoctets, bind, Except.bind]⟩
    | ok octets =>
      simp only [order?, send, hpeer, hoctets, bind, Except.bind]
      cases hrunning : n.running with
      | false => exact Or.inr ⟨by simp, _, rfl⟩
      | true =>
        cases hprotocol : n.config.protocolName with
        | none => exact Or.inr ⟨by simp, _, rfl⟩
        | some protocol => exact Or.inl ⟨peer, octets, by simp, rfl, rfl, rfl⟩

/-- The streams to a peer that a happening opens, each with its sender and the octets that it takes;
those of which the sender is told that they have been written, or those of which it is told that
they have not. -/
def streams (peer : PeerId) (told : Bool) (n : Node) : Happening → List (PeerName × Bytes)
  | .sends recipient parcel passage =>
    match n.order? recipient parcel with
    | some (p, octets) =>
      if p = peer ∧ (passage.result p octets).toBool = told then
        (passage.taken octets).toList.map (n.name, ·)
      else []
    | none => []
  | .publishes .. | .hears .. | .accepts .. | .receives _ | .waits _ | .acts _ | .settles => []

/-- What a happening sends to a peer, if the sender is told that it has been sent. -/
def mail (peer : PeerId) (n : Node) : Happening → List Message
  | .sends recipient parcel passage =>
    if recipient.toId.toOption = some peer ∧ n.send recipient parcel passage = .ok () then
      parcel.message n.name
    else []
  | .publishes .. | .hears .. | .accepts .. | .receives _ | .waits _ | .acts _ | .settles => []

end Node

def letters (streams : List (PeerName × Bytes)) : List Message :=
  streams.flatMap fun s => letter s.1 s.2

namespace Node

/-- **What has been sent is what the streams bring that have been written.** -/
theorem letters_streams (peer : PeerId) (n : Node) (e : Happening) :
    letters (n.streams peer true e) = n.mail peer e := by
  cases e with
  | sends recipient parcel passage =>
    rcases n.send_eq recipient parcel passage with
      ⟨p, octets, horder, hpeer, hoctets, hsend⟩ | ⟨horder, e, hsend⟩
    · simp only [streams, mail, horder, hsend, hpeer, Except.toOption, Option.some.injEq]
      by_cases hp : p = peer
      · cases hresult : passage.result p octets with
        | ok u =>
          simp [hp, letters, Except.toBool, Passage.taken_of_result hresult,
            parcel.message_eq hoctets]
        | error e => simp [letters, Except.toBool]
      · simp [hp, letters]
    · simp [streams, mail, horder, hsend, letters]
  | publishes | hears | accepts | receives | waits | acts | settles => rfl

/-- The stream that a happening brings, with its sender and the octets that can be read from it. -/
def Happening.stream : Happening → List (PeerName × Bytes)
  | .accepts sender script => [(sender, Frame.heard script)]
  | .publishes .. | .sends .. | .hears .. | .receives _ | .waits _ | .acts _ | .settles => []

theorem Happening.letters_stream (e : Happening) : PeerNode.letters e.stream = e.letters := by
  cases e with
  | accepts sender script => exact List.append_nil _
  | publishes | sends | hears | receives | waits | acts | settles => rfl

/-- The stream of a happening, if it opens one, takes everything in time. -/
def Happening.Sure : Happening → Prop
  | .sends _ _ passage => passage.Sure
  | .publishes .. | .hears .. | .accepts .. | .receives _ | .waits _ | .acts _ | .settles => True

end Node

namespace Fleet

variable {F : Fleet} {b i : Nat} {trace : Trace} {underway strays : List (PeerName × Bytes)}

/-- The messages that have been sent to a peer, as far as the senders were told so. -/
def sent (F : Fleet) (peer : PeerId) (trace : Trace) : List Message :=
  gather (fun _ n e => n.mail peer e) F.nodes trace

/-- The streams that have been opened to a peer. -/
def streams (F : Fleet) (peer : PeerId) (told : Bool) (trace : Trace) : List (PeerName × Bytes) :=
  gather (fun _ n e => n.streams peer told e) F.nodes trace

def arrived (b : Nat) (trace : Trace) : List (PeerName × Bytes) :=
  (own b trace).flatMap Node.Happening.stream

/-- **The host carries streams to a node**, which goes by the name of a peer. -/
structure Carried (F : Fleet) (b : Nat) (peer : PeerId) (trace : Trace)
    (underway strays : List (PeerName × Bytes)) : Prop where
  /-- What has been written has arrived or is under way, and else there are some strays. -/
  whole : (arrived b trace ++ underway).Perm (F.streams peer true trace ++ strays)
  /-- A stray comes of a stream that has not been written, and brings a beginning of what that has
  taken. -/
  torn : List.SublistForall₂ (fun s t => s.1 = t.1 ∧ s.2 <+: t.2) strays
    (F.streams peer false trace)
  /-- Streams that arrive do so in time. -/
  prompt : ∀ e ∈ own b trace, e.Prompt

theorem letters_streams (F : Fleet) (peer : PeerId) (trace : Trace) :
    letters (F.streams peer true trace) = F.sent peer trace := by
  rw [letters, streams, flatMap_gather, sent]
  exact gather_congr (fun _ n e => n.letters_streams peer e) F.nodes trace

/-- **Nothing that has been sent is lost, and nothing is there twice.** -/
theorem Carried.conserved (h : F.Carried b m.id trace underway strays)
    (hm : (F.after trace)[b]? = some m) (hd : m.direct = some d) :
    (m.exchange.accepted d.queue ++ m.exchange.pending d.queue ++ letters underway).Perm
      (F.sent m.id trace ++ letters strays) ∧
    m.exchange.delivered d.queue = F.received b .direct trace ∧ m.Sound [] ∧
    m.exchange.Ready := by
  obtain ⟨n, hn, rfl⟩ := exists_of_getElem_after hm
  have hbegun := begun hn
  have hdirect := (n.alike_run (own b trace)).direct.symm.trans hd
  obtain ⟨hready, hletters⟩ :=
    hbegun.steady.sound.letters_run hbegun.steady.calm.ready hdirect h.prompt
  refine ⟨?_, delivered_after hn (Node.queue?_direct hdirect) trace, hbegun.steady.sound.run _,
    hready⟩
  rw [hbegun.quiet d.queue, hbegun.unwritten, List.nil_append, List.nil_append] at hletters
  have harrived : letters (arrived b trace) =
      (own b trace).flatMap Node.Happening.letters := by
    rw [letters, arrived, List.flatMap_assoc]
    exact congrArg (own b trace).flatMap (funext fun e => e.letters_stream)
  have hwhole := h.whole.flatMap_right fun s => letter s.1 s.2
  rw [List.flatMap_append, List.flatMap_append] at hwhole
  refine (hletters.append_right _).trans ?_
  rw [← harrived, ← F.letters_streams]
  exact hwhole

end Fleet
end PeerNode
