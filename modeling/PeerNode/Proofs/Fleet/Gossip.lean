import PeerNode.Proofs.Fleet.Basic
import PeerNode.Proofs.Node.Deliveries

/-!
# Messages on topics between nodes

What is published is carried by the host, perhaps over several peers.  What is assumed of it is that
it makes nothing up and keeps to the order of each publisher (`Fleet.Gossip`), and that it hands on
what is published to those who are connected with the publisher (`Fleet.Handed`).  A message names
its author.  If it does not, then the author himself has handed it on.

What a node receives on a topic, and what it has not received yet, stand in one line.  The messages
of one publisher in this line have been published by it, each of them once and in the same order,
and the node itself is none of the publishers.  A message that finds room in the subscription gets
the next place in the line and keeps it (`gossip_in_order`).

There is room for thirty-two messages in a subscription, so of a longer burst of messages that
arrive before the listener acts the last ones are lost, while the delivery queue is empty
(`gossip_drops_in_burst`).

* `Node.publications`, `Fleet.published`: what has been published.
* `Fleet.Gossip`, `Fleet.Handed`: what is assumed of the host.
* `line_eq`, `place_of_room`: the line, and who gets a place in it.
-/

namespace PeerNode

variable {n m k : Node} {via name : PeerName} {author : Option PeerName} {e : JoinedTopic}
  {b c i j : Nat} {topic : String} {data : Bytes}

/-- Whether a message comes from somebody: it names him as its author, or it names nobody and he
himself hands it on. -/
def ComesFrom (name via : PeerName) (author : Option PeerName) : Prop :=
  author = some name ∨ author = none ∧ via = name

instance : Decidable (ComesFrom name via author) := inferInstanceAs (Decidable (_ ∨ _))

theorem comesFrom_iff : ComesFrom name via author ↔ author.getD via = name := by
  cases author <;> simp [ComesFrom]

/-- What somebody has published on a topic, as messages. -/
def posts (name : PeerName) (topic : String) (published : List (String × Bytes)) : List Message :=
  (published.filter (·.1 = topic)).map fun p => .onTopic name p.1 p.2

namespace Node

/-- What a happening publishes, if the publisher is told so. -/
def publications (n : Node) : Happening → List (String × Bytes)
  | .publishes topic data verdict =>
    if n.publish topic verdict = .ok () then [(topic, data)] else []
  | .sends .. | .hears .. | .accepts .. | .receives _ | .waits _ | .acts _ | .settles => []

theorem gather_publications (h : n.publish topic .taken = .ok ()) (ds : List Bytes) :
    n.gather publications (ds.map fun d => .publishes topic d .taken) = ds.map (topic, ·) := by
  induction ds with
  | nil => rfl
  | cons d ds ih =>
    rw [List.map_cons, gather, publications, if_pos h, happen, ih]
    rfl

/-- The message that arrives from somebody. -/
def Happening.heardFrom (name : PeerName) : Happening → List (String × Bytes)
  | .hears via author topic data => if ComesFrom name via author then [(topic, data)] else []
  | .publishes .. | .sends .. | .accepts .. | .receives _ | .waits _ | .acts _ | .settles => []

/-- What arrives on a topic, of which somebody is the sender. -/
theorem Happening.filter_arrivals (name : PeerName) (topic : String) (happening : Happening) :
    (happening.arrivals topic).filter (·.sender = name) =
      posts name topic (happening.heardFrom name) := by
  cases happening with
  | hears via author t data =>
    by_cases htopic : t = topic
    · by_cases hname : author.getD via = name
      · simp [arrivals, heardFrom, posts, htopic, comesFrom_iff, hname, Message.onTopic]
      · simp [arrivals, heardFrom, posts, htopic, comesFrom_iff, hname, Message.onTopic]
    · by_cases hname : author.getD via = name
      · simp [arrivals, heardFrom, posts, htopic, comesFrom_iff, hname]
      · simp [arrivals, heardFrom, posts, htopic, comesFrom_iff, hname]
  | publishes | sends | accepts | receives | waits | acts | settles => rfl

theorem filter_flatMap_arrivals (name : PeerName) (topic : String) (es : List Happening) :
    (es.flatMap (Happening.arrivals topic)).filter (·.sender = name) =
      posts name topic (es.flatMap (Happening.heardFrom name)) := by
  induction es with
  | nil => rfl
  | cons happening es ih =>
    rw [List.flatMap_cons, List.flatMap_cons, List.filter_append, ih, happening.filter_arrivals,
      posts, posts, posts, List.filter_append, List.map_append]

end Node

namespace Fleet

variable {F : Fleet} {trace before after : Trace} {linked : Trace → Nat → Nat → Prop}

/-- What a node has published, as far as it was told so. -/
def published (F : Fleet) (i : Nat) (trace : Trace) : List (String × Bytes) :=
  gather (fun j n e => if j = i then n.publications e else []) F.nodes trace

/-- **The host makes nothing up and keeps to the order of each publisher.** -/
structure Gossip (F : Fleet) (trace : Trace) : Prop where
  /-- Every message comes from one of the nodes. -/
  genuine : ∀ b via author topic data, (b, .hears via author topic data) ∈ trace →
    ∃ (i : Nat) (k : Node), F.nodes[i]? = some k ∧ ComesFrom k.name via author
  /-- What has arrived from a node by some time, it has published by then; each message arrives at
  most once, and in that order. -/
  ordered : ∀ before, before <+: trace → ∀ (b i : Nat) (k : Node), F.nodes[i]? = some k →
    ((own b before).flatMap (Node.Happening.heardFrom k.name)).Sublist (F.published i before)

/-- **The host hands on what is published** to every node that is connected with the publisher and
has joined the topic. -/
def Handed (F : Fleet) (linked : Trace → Nat → Nat → Prop) (trace : Trace) : Prop :=
  ∀ (before after : Trace) (i : Nat) topic data verdict (k : Node),
    trace = before ++ (i, .publishes topic data verdict) :: after →
    (F.after before)[i]? = some k → k.publish topic verdict = .ok () →
    ∀ (b : Nat) (m : Node), (F.after before)[b]? = some m → b ≠ i → linked before i b →
      topic ∈ m.topics.map (·.name) →
      ∃ mid via author rest, after = mid ++ (b, .hears via author topic data) :: rest ∧
        ComesFrom k.name via author

/-! ## The line of a topic -/

/-- The line of a topic: what has been received from it, and what has not. -/
def line (F : Fleet) (b j : Nat) (e : JoinedTopic) (trace : Trace) : List Message :=
  F.received b (.topic j) trace ++ (F.after trace)[b]?.toList.flatMap (·.undelivered e)

theorem line_after (hm : (F.after trace)[b]? = some m) :
    F.line b j e trace = F.received b (.topic j) trace ++ m.undelivered e := by
  rw [line, hm, Option.toList_some, List.flatMap_singleton]

/-- **The line consists of what others have sent and has found room.** -/
theorem line_eq (hn : F.nodes[b]? = some n) (hserves : n.Serves e c) (hj : n.topics[j]? = some e)
    (trace : Trace) :
    F.line b j e trace = foreign n.name (Node.gather (·.put c ·) n (own b trace)) := by
  have hbegun := begun hn
  have hnothing := hserves.line_eq
  rw [hbegun.quiet c] at hnothing
  obtain ⟨hdelivered, hundelivered⟩ := List.append_eq_nil_iff.1 hnothing
  have hline := hserves.line_run hj (own b trace)
  rwa [hdelivered, hundelivered, List.nil_append, List.append_nil, List.nil_append,
    ← received_eq hn, ← line_after (getElem_after hn trace)] at hline

theorem line_append (hn : F.nodes[b]? = some n) (hserves : n.Serves e c)
    (hj : n.topics[j]? = some e) (trace trace' : Trace) :
    F.line b j e (trace ++ trace') = F.line b j e trace ++
      foreign n.name (Node.gather (·.put c ·) (n.run (own b trace)) (own b trace')) := by
  rw [line_eq hn hserves hj, line_eq hn hserves hj, own_append, Node.gather_append, foreign_append]

theorem line_sublist (hn : F.nodes[b]? = some n) (hserves : n.Serves e c)
    (hj : n.topics[j]? = some e) (trace : Trace) :
    (F.line b j e trace).Sublist ((own b trace).flatMap (Node.Happening.arrivals e.name)) := by
  rw [line_eq hn hserves hj]
  exact List.filter_sublist.trans (hserves.gather_put_sublist _)

/-- **What stands in the line of one publisher has been published by it**, each message once and in
the same order. -/
theorem Gossip.filter_line (h : F.Gossip trace) (hn : F.nodes[b]? = some n)
    (hserves : n.Serves e c) (hj : n.topics[j]? = some e) (hk : F.nodes[i]? = some k)
    (hbefore : before <+: trace) : ((F.line b j e before).filter (·.sender = k.name)).Sublist
      (posts k.name e.name (F.published i before)) := by
  have harrived := (line_sublist hn hserves hj before).filter (·.sender = k.name)
  rw [Node.filter_flatMap_arrivals] at harrived
  exact harrived.trans (((h.ordered before hbefore b i k hk).filter _).map _)

/-- **Every message in the line has been published by somebody else.** -/
theorem Gossip.mem_line (h : F.Gossip trace) (hn : F.nodes[b]? = some n)
    (hserves : n.Serves e c) (hj : n.topics[j]? = some e) (hbefore : before <+: trace)
    {msg : Message} (hmsg : msg ∈ F.line b j e before) : msg.topic = some e.name ∧
      ∃ i k, i ≠ b ∧ F.nodes[i]? = some k ∧ msg.sender = k.name ∧
        (e.name, msg.data) ∈ F.published i before := by
  have hforeign : msg.sender ≠ n.name := by
    rw [line_eq hn hserves hj] at hmsg
    exact sender_ne_of_mem_foreign hmsg
  obtain ⟨happening, hown, harrived⟩ :=
    List.mem_flatMap.1 ((line_sublist hn hserves hj before).subset hmsg)
  cases happening with
  | hears via author topic data =>
    simp only [Node.Happening.arrivals] at harrived
    split at harrived
    · rename_i htopic
      obtain rfl := List.mem_singleton.1 harrived
      obtain ⟨i, k, hk, hfrom⟩ :=
        h.genuine b via author topic data (hbefore.subset (mem_own.1 hown))
      have hsender : author.getD via = k.name := comesFrom_iff.1 hfrom
      refine ⟨congrArg some htopic, i, k, ?_, hk, hsender, ?_⟩
      · rintro rfl
        obtain rfl := Option.some.inj (hk.symm.trans hn)
        exact hforeign hsender
      · have hmem := (h.filter_line hn hserves hj hk hbefore).subset
          (List.mem_filter.2 ⟨hmsg, decide_eq_true hsender⟩)
        obtain ⟨p, hp, hpost⟩ := List.mem_map.1 hmem
        obtain ⟨hpublished, hname⟩ := List.mem_filter.1 hp
        have hdata : p.2 = data := congrArg Message.data hpost
        rw [← of_decide_eq_true hname]
        exact hdata ▸ hpublished
    · cases harrived
  | publishes | sends | accepts | receives | waits | acts | settles => cases harrived

/-- **A message that finds room gets the next place in the line and keeps it.** -/
theorem place_of_room (hn : F.nodes[b]? = some n) (hserves : n.Serves e c)
    (hj : n.topics[j]? = some e) (hauthor : author.getD via ≠ n.name) (data : Bytes)
    (after : Trace)
    (hroom : ((n.run (own b before)).unread e).length < subscriptionCapacity) :
    F.line b j e before ++ [.onTopic (author.getD via) e.name data] <+:
      F.line b j e (before ++ (b, .hears via author e.name data) :: after) := by
  have hown : own b ((b, .hears via author e.name data) :: after) =
      .hears via author e.name data :: own b after := by simp [own]
  have hforeign : foreign n.name [.onTopic (author.getD via) e.name data] =
      [.onTopic (author.getD via) e.name data] := by simp [foreign, Message.onTopic, hauthor]
  rw [line_append hn hserves hj, hown, Node.gather, (hserves.run (own b before)).put_eq,
    if_pos hroom, foreign_append, hforeign, ← List.append_assoc]
  exact List.prefix_append _ _

/-! ## Bursts -/

/-- Of two nodes the second one publishes, and then everything arrives at the first one before a
task acts. -/
def burst (name : PeerName) (author : Option PeerName) (ds : List Bytes) : Trace :=
  (ds.map fun d => Node.Happening.publishes "t" d .taken).map (1, ·) ++
    (ds.map fun d => Node.Happening.hears name author "t" d).map (0, ·)

theorem mem_burst {ds : List Bytes} {happening : Node.Happening} :
    (b, happening) ∈ burst name author ds ↔
      (b = 1 ∧ ∃ d ∈ ds, happening = .publishes "t" d .taken) ∨
        b = 0 ∧ ∃ d ∈ ds, happening = .hears name author "t" d := by
  simp only [burst, List.mem_append, List.mem_map, Prod.mk.injEq, exists_exists_and_eq_and]
  constructor
  · rintro (⟨d, hd, rfl, rfl⟩ | ⟨d, hd, rfl, rfl⟩)
    · exact Or.inl ⟨rfl, d, hd, rfl⟩
    · exact Or.inr ⟨rfl, d, hd, rfl⟩
  · rintro (⟨rfl, d, hd, rfl⟩ | ⟨rfl, d, hd, rfl⟩)
    · exact Or.inl ⟨d, hd, rfl, rfl⟩
    · exact Or.inr ⟨d, hd, rfl, rfl⟩

theorem own_burst (name : PeerName) (author : Option PeerName) (ds : List Bytes) :
    own 0 (burst name author ds) = ds.map fun d => .hears name author "t" d := by
  rw [burst, own_append, own_map_of_ne Nat.one_ne_zero, own_map, List.nil_append]

/-- Nothing is heard in a burst before everything has been published. -/
theorem gossip_burst (hnodes : F.nodes = [n, k]) (hauthor : ComesFrom k.name k.name author)
    (hok : k.publish "t" .taken = .ok ()) (ds : List Bytes) :
    F.Gossip (burst k.name author ds) := by
  have hone : F.nodes[1]? = some k := by rw [hnodes]; rfl
  refine ⟨?_, ?_⟩
  · intro b via author' topic data hmem
    rcases mem_burst.1 hmem with ⟨-, d, -, heq⟩ | ⟨-, d, -, heq⟩
    · cases heq
    · obtain ⟨rfl, rfl, rfl, rfl⟩ := Node.Happening.hears.inj heq
      exact ⟨1, k, hone, hauthor⟩
  · intro before hbefore b i m hm
    by_cases hheard : ∀ happening ∈ own b before, happening.heardFrom m.name = []
    · rw [List.flatMap_eq_nil_iff.2 hheard]
      exact List.nil_sublist _
    · push Not at hheard
      obtain ⟨happening, hmem, hne⟩ := hheard
      rcases mem_burst.1 (hbefore.subset (mem_own.1 hmem)) with ⟨-, d, -, rfl⟩ | ⟨rfl, d, -, rfl⟩
      · exact absurd rfl hne
      · -- it is the second node that has been heard, and all its messages have been published
        have hfrom : ComesFrom m.name k.name author := by
          by_contra hnot
          exact hne (if_neg hnot)
        have hname : m.name = k.name := (comesFrom_iff.1 hfrom).symm.trans (comesFrom_iff.1 hauthor)
        obtain rfl := eq_of_name_eq hone hm hname
        obtain rfl := Option.some.inj (hm.symm.trans hone)
        have hpublished : (ds.map ("t", ·)).Sublist (F.published 1 before) := by
          rcases List.prefix_or_prefix_of_prefix hbefore (List.prefix_append _ _) with hpart | hall
          · simpa using hpart.subset (mem_own.1 hmem)
          · obtain ⟨more, rfl⟩ := hall
            rw [published, gather_own _ hone, own_append, own_map, Node.gather_append,
              Node.gather_publications hok]
            exact List.sublist_append_left _ _
        refine List.Sublist.trans ?_ hpublished
        obtain ⟨more, hmore⟩ := hbefore
        have hown := congrArg (own 0) hmore
        rw [own_append, own_burst] at hown
        have hall : (own 0 before).flatMap (Node.Happening.heardFrom m.name) ++
            (own 0 more).flatMap (Node.Happening.heardFrom m.name) = ds.map ("t", ·) := by
          rw [← List.flatMap_append, hown, List.flatMap_map, ← List.flatMap_pure_eq_map]
          exact congrArg ds.flatMap (funext fun d => if_pos hauthor)
        rw [← hall]
        exact List.sublist_append_left _ _

/-- In a burst everything is handed on. -/
theorem handed_burst (hnodes : F.nodes = [n, k]) (hauthor : ComesFrom k.name k.name author)
    (ds : List Bytes) : F.Handed linked (burst k.name author ds) := by
  intro before after i topic data verdict k' htrace hk _ b m hm hne _ _
  have hmem : (i, .publishes topic data verdict) ∈ burst k.name author ds := by
    rw [htrace]
    exact List.mem_append_right _ List.mem_cons_self
  rcases mem_burst.1 hmem with ⟨rfl, d, hd, heq⟩ | ⟨-, d, -, heq⟩
  · obtain ⟨rfl, rfl, rfl⟩ := Node.Happening.publishes.inj heq
    obtain rfl : b = 0 := by
      obtain ⟨_, hb, -⟩ := exists_of_getElem_after hm
      rw [hnodes] at hb
      match b, hb with
      | 0, _ => rfl
      | 1, _ => exact absurd rfl hne
    have hname : k'.name = k.name := by
      obtain ⟨_, hone, rfl⟩ := exists_of_getElem_after hk
      rw [hnodes] at hone
      obtain rfl := Option.some.inj hone
      exact congrArg PeerName.ofId (Node.alike_run _ _).id
    have hlate : ∀ {x rest : Trace}, (ds.map fun d => Node.Happening.hears k.name author "t" d).map
        (0, ·) ≠ x ++ (1, .publishes "t" data .taken) :: rest := by
      intro x rest heq
      have hmem : ((1, .publishes "t" data .taken) : Nat × Node.Happening) ∈
          x ++ (1, .publishes "t" data .taken) :: rest :=
        List.mem_append_right _ List.mem_cons_self
      rw [← heq] at hmem
      simp at hmem
    rw [burst] at htrace
    rcases List.append_eq_append_iff.1 htrace with ⟨x, -, hx⟩ | ⟨x, -, hx⟩
    · exact absurd hx hlate
    · cases x with
      | nil => exact absurd hx.symm (hlate (x := []))
      | cons p x =>
        have hafter : after = x ++ _ := (List.cons.inj hx).2
        obtain ⟨s, t, hst⟩ := List.append_of_mem (List.mem_map_of_mem (f := ((0, ·) : _ → _ × _))
          (List.mem_map_of_mem (f := fun d => Node.Happening.hears k.name author "t" d) hd))
        refine ⟨x ++ s, k.name, author, t, ?_, hname ▸ hauthor⟩
        rw [hafter, hst, List.append_assoc]
  · cases heq

/-- Two nodes that have joined one topic, of which the second one may publish on it. -/
theorem exists_pair_serves : ∃ (F : Fleet) (n k : Node) (e : JoinedTopic) (c : Nat),
    F.nodes = [n, k] ∧ n.topics[0]? = some e ∧ e.name = "t" ∧
      (n.topics.map (·.name)).Nodup ∧ n.Serves e c ∧ n.exchange.Quiet ∧ k.name ≠ n.name ∧
      k.publish "t" .taken = .ok () := by
  have hkeys : (KeyPair.ofSeed [1]).peerId ≠ (KeyPair.ofSeed [2]).peerId := by decide +kernel
  generalize KeyPair.ofSeed [1] = key at hkeys
  generalize KeyPair.ofSeed [2] = key' at hkeys
  obtain ⟨F, n, k, hnodes, hn, hk⟩ := exists_pair hkeys
  have hzero : F.nodes[0]? = some n := by rw [hnodes]; rfl
  have hone : F.nodes[1]? = some k := by rw [hnodes]; rfl
  have hserves : ∀ {i : Nat} {m : Node}, F.nodes[i]? = some m → m.topics.map (·.name) = ["t"] →
      ∃ e c, m.topics[0]? = some e ∧ e.name = "t" ∧ (m.topics.map (·.name)).Nodup ∧
        m.Serves e c := by
    intro i m hm htopics
    have hnames : (m.topics.map (·.name)).Nodup := htopics ▸ List.nodup_singleton "t"
    obtain ⟨e, he, hname⟩ := Option.map_eq_some_iff.1
      (List.getElem?_map.symm.trans (congrArg (·[0]?) htopics))
    obtain ⟨c, hserves⟩ := (begun hm).serves hnames he
    exact ⟨e, c, he, hname, hnames, hserves⟩
  obtain ⟨e, c, he, hname, hnames, hnserves⟩ := hserves hzero hn.topics
  obtain ⟨e', c', -, hname', -, hkserves⟩ := hserves hone hk.topics
  refine ⟨F, n, k, e, c, hnodes, he, hname, hnames, hnserves, (begun hzero).quiet, ?_, ?_⟩
  · intro hsame
    exact Nat.one_ne_zero (eq_of_name_eq hzero hone hsame)
  · rw [Node.publish, ← hname', hkserves.subscription?_eq]
    rfl

/-- After a burst as many messages stand in the line as there is room for. -/
theorem line_burst (hn : F.nodes[0]? = some n) (hserves : n.Serves e c)
    (hj : n.topics[0]? = some e) (hname : e.name = "t") (hquiet : n.exchange.Quiet)
    (hauthor : ComesFrom name name author) (hother : name ≠ n.name) (ds : List Bytes) :
    F.line 0 0 e (burst name author ds) =
      (ds.take subscriptionCapacity).map fun d => .onTopic name "t" d := by
  have hsender := comesFrom_iff.1 hauthor
  have hempty : (n.unread e).length = 0 := by
    have hbooks := hserves.sound.books.conserved c
    rw [hquiet] at hbooks
    rw [hserves.unread_eq, (List.append_eq_nil_iff.1 hbooks).2]
    rfl
  rw [line_eq hn hserves hj, own_burst, ← hname, hserves.gather_put_hears, hempty, Nat.sub_zero,
    hsender, foreign, List.filter_eq_self.2]
  intro msg hmsg
  obtain ⟨d, -, rfl⟩ := List.mem_map.1 hmsg
  simpa [Message.onTopic] using hother

/-! ## What is received -/

/-- **What a node receives on a topic has been published by others before, and comes in order.**
Take the line of a topic that a node has joined once: what it has received, and what waits in the
queue, with the listener, or in the subscription.  At any time every message in the line has been
published on the topic by another node, whose name it bears; and the messages of one publisher are,
in order, some of those that it has published, each of them once.  What a node that is connected
publishes arrives, and gets the next place in the line if fewer messages wait in the subscription
than there is room for; it keeps this place, and everything in the line is received in the end.
Once the tasks have acted nothing waits in the subscription, unless the queue is full. -/
theorem gossip_in_order (hn : F.nodes[b]? = some n) (hj : n.topics[j]? = some e)
    (hnames : (n.topics.map (·.name)).Nodup) (h : F.Gossip trace) :
    (∀ before, before <+: trace →
      (∀ msg ∈ F.line b j e before, msg.topic = some e.name ∧
        ∃ i k, i ≠ b ∧ F.nodes[i]? = some k ∧ msg.sender = k.name ∧
          (e.name, msg.data) ∈ F.published i before) ∧
      ∀ i k, F.nodes[i]? = some k → ((F.line b j e before).filter (·.sender = k.name)).Sublist
        (posts k.name e.name (F.published i before))) ∧
    (∀ linked : Trace → Nat → Nat → Prop, F.Handed linked trace →
      ∀ before i data verdict after k,
      trace = before ++ (i, .publishes e.name data verdict) :: after →
      (F.after before)[i]? = some k → k.publish e.name verdict = .ok () → b ≠ i →
      linked before i b → ∃ mid via author rest m,
        after = mid ++ (b, .hears via author e.name data) :: rest ∧
        (F.after (before ++ (i, .publishes e.name data verdict) :: mid))[b]? = some m ∧
        ((m.unread e).length < subscriptionCapacity →
          F.line b j e (before ++ (i, .publishes e.name data verdict) :: mid) ++
            [.onTopic k.name e.name data] <+: F.line b j e trace)) ∧
    (∀ count, (F.line b j e trace).length ≤ count → F.received b (.topic j)
      (trace ++ (Node.drain (.topic j) count).map (b, ·)) = F.line b j e trace) ∧
    ∀ m, (F.after trace)[b]? = some m →
      (m.settle.exchange.buffer e.queue).length < deliveryQueueCapacity →
        m.settle.unread e = [] := by
  obtain ⟨c, hserves⟩ := (begun hn).serves hnames hj
  refine ⟨fun before hbefore => ⟨fun msg hmsg => h.mem_line hn hserves hj hbefore hmsg,
    fun i k hk => h.filter_line hn hserves hj hk hbefore⟩, ?_, ?_, ?_⟩
  · intro linked hhanded before i data verdict after k htrace hk hok hne hlinked
    have hm := getElem_after hn before
    have htopic : e.name ∈ (n.run (own b before)).topics.map (·.name) := by
      rw [(n.alike_run _).topics]
      exact List.mem_map_of_mem (List.mem_of_getElem? hj)
    obtain ⟨mid, via, author, rest, hafter, hfrom⟩ := hhanded before after i e.name data verdict k
      htrace hk hok b _ hm hne hlinked htopic
    refine ⟨mid, via, author, rest, _, hafter, getElem_after hn _, fun hroom => ?_⟩
    have hsender : author.getD via = k.name := comesFrom_iff.1 hfrom
    -- the publisher is another node, so the message is no echo
    obtain ⟨k', hk', rfl⟩ := exists_of_getElem_after hk
    have hauthor : author.getD via ≠ n.name := by
      rw [hsender]
      intro hsame
      have hname : k'.name = n.name :=
        (congrArg PeerName.ofId (k'.alike_run (own i before)).id).symm.trans hsame
      exact hne (eq_of_name_eq hn hk' hname).symm
    have hplace := place_of_room hn hserves hj hauthor data rest hroom
    rw [htrace, hafter, ← hsender]
    simpa using hplace
  · intro count hcount
    have hm := getElem_after hn trace
    have hj' : (n.run (own b trace)).topics[j]? = some e := (n.alike_run _).topics ▸ hj
    rw [received_append hm, line_after hm,
      (hserves.run (own b trace)).received_undelivered hj']
    rw [line_after hm, List.length_append] at hcount
    omega
  · intro m hm hroom
    obtain ⟨n', hn', rfl⟩ := exists_of_getElem_after hm
    obtain rfl := Option.some.inj (hn.symm.trans hn')
    exact (((hserves.run (own b trace)).happen .settles).idle (Exchange.settled_settle _) hroom).1

/-- The second node publishes `hi`, which names no author, and the first one receives it. -/
theorem gossip_in_order_hi : ∃ (F : Fleet) (n k : Node) (e : JoinedTopic) (trace : Trace),
    (F.nodes[0]? = some n ∧ n.topics[0]? = some e ∧ (n.topics.map (·.name)).Nodup ∧
      F.Gossip trace ∧ F.Handed (fun _ _ _ => True) trace) ∧ F.nodes[1]? = some k ∧
    F.received 0 (.topic 0) (trace ++ [(0, .settles), (0, .receives (.topic 0)), (0, .settles)]) =
      [.onTopic k.name "t" [104, 105]] := by
  obtain ⟨F, n, k, e, c, hnodes, hj, hname, hnames, hserves, hquiet, hother, hok⟩ :=
    exists_pair_serves
  have hzero : F.nodes[0]? = some n := by rw [hnodes]; rfl
  have hone : F.nodes[1]? = some k := by rw [hnodes]; rfl
  have hauthor : ComesFrom k.name k.name none := Or.inr ⟨rfl, rfl⟩
  have hgossip := gossip_burst hnodes hauthor hok [[104, 105]]
  obtain ⟨-, -, hreceived, -⟩ := gossip_in_order hzero hj hnames hgossip
  have hline := line_burst hzero hserves hj hname hquiet hauthor hother [[104, 105]]
  have hall := hreceived 1 (Nat.le_of_eq (congrArg List.length hline))
  rw [hline] at hall
  exact ⟨F, n, k, e, _, ⟨hzero, hj, hnames, hgossip, handed_burst hnodes hauthor _⟩, hone, hall⟩

/-- **Where thirty-three messages arrive before a task acts, the last one is lost**, although at no
time more than thirty-two messages are undelivered: it is never received, whatever else happens
that brings no message to the node. -/
theorem gossip_drops_in_burst : ∃ (F : Fleet) (n : Node) (e : JoinedTopic) (trace : Trace)
    (data : Bytes),
    (F.nodes[0]? = some n ∧ n.topics[0]? = some e ∧ (n.topics.map (·.name)).Nodup ∧
      F.Gossip trace ∧ F.Handed (fun _ _ _ => True) trace) ∧
    (e.name, data) ∈ F.published 1 trace ∧
    (∀ before, before <+: trace → ∀ m, (F.after before)[0]? = some m →
      (m.undelivered e).length < deliveryQueueCapacity) ∧
    ∀ rest : Trace, (∀ via author topic data, (0, .hears via author topic data) ∉ rest) →
      ∀ msg ∈ F.received 0 (.topic 0) (trace ++ rest), msg.data ≠ data := by
  obtain ⟨F, n, k, e, c, hnodes, hj, hname, hnames, hserves, hquiet, hother, hok⟩ :=
    exists_pair_serves
  have hzero : F.nodes[0]? = some n := by rw [hnodes]; rfl
  have hone : F.nodes[1]? = some k := by rw [hnodes]; rfl
  have hauthor : ComesFrom k.name k.name (some k.name) := Or.inl rfl
  obtain ⟨ds, hds⟩ : ∃ ds : List Bytes, ds = (List.range 33).map fun i => [UInt8.ofNat i] :=
    ⟨_, rfl⟩
  have hline := line_burst hzero hserves hj hname hquiet hauthor hother ds
  refine ⟨F, n, e, _, [32], ⟨hzero, hj, hnames, gossip_burst hnodes hauthor hok ds,
    handed_burst hnodes hauthor ds⟩, ?_, ?_, ?_⟩
  · rw [published, gather_own _ hone, burst, own_append, own_map, own_map_of_ne Nat.zero_ne_one,
      List.append_nil, Node.gather_publications hok, hname, hds]
    decide
  · rintro before ⟨rest, htrace⟩ m hm
    rw [← htrace, line_append hzero hserves hj, line_after hm] at hline
    have hlength := congrArg List.length hline
    simp only [List.length_append, List.length_map, List.length_take] at hlength
    have hcapacity : subscriptionCapacity < deliveryQueueCapacity := by decide
    omega
  · intro rest hrest msg hmsg
    -- nothing gets a place any more
    have hnone : (own 0 rest).flatMap (Node.Happening.arrivals e.name) = [] := by
      refine List.flatMap_eq_nil_iff.2 fun happening hmem => ?_
      cases happening with
      | hears via author topic data => exact absurd (mem_own.1 hmem) (hrest via author topic data)
      | publishes | sends | accepts | receives | waits | acts | settles => rfl
    have hput := (hserves.run (own 0 (burst k.name (some k.name) ds))).gather_put_sublist (own 0 rest)
    rw [hnone, List.sublist_nil] at hput
    have hlast := line_append hzero hserves hj (burst k.name (some k.name) ds) rest
    rw [hput, hline, foreign, List.filter_nil, List.append_nil] at hlast
    have hmem : msg ∈ F.line 0 0 e (burst k.name (some k.name) ds ++ rest) :=
      List.mem_append_left _ hmsg
    rw [hlast] at hmem
    obtain ⟨d, hd, rfl⟩ := List.mem_map.1 hmem
    have hfirst : ∀ d ∈ ((List.range 33).map fun i => [UInt8.ofNat i]).take subscriptionCapacity,
        d ≠ [32] := by decide
    exact hfirst d (hds ▸ hd)

end Fleet
end PeerNode
