import PeerNode.Network.Loopback
import PeerNode.Proofs.Config.Listening
import PeerNode.Proofs.Key.Encoding
import PeerNode.Proofs.Network.Requests

/-!
# Which configurations start a node

Four parts of a node look at the same texts: the check of a configuration, the start of a node,
which reads the addresses once more, the set-up of its services and the registration of direct
messages, which read the name of the protocol once more.  What the check lets pass passes them all,
so nothing but the check and the key decides whether a node starts.

The check itself is seen against a list of all that is wrong with a configuration
(`Config.faults`): it reports the first one.

* `Config.faults`, `Config.validate_eq_error_iff`: what is wrong, and what is reported of it.
* `Config.accepted_of_validate`: what the check lets pass.
* `Node.start_eq_error_iff`, `Network.start_fails_iff`: for what reasons no node starts.
* `Network.validate_decides_start`: both, and what has started, of every configuration.
-/

namespace PeerNode

variable {c : Config} {e : NodeError} {fresh : KeyPair}

namespace Config

/-! ## What is wrong with a configuration -/

/-- What is wrong with a text that is to be the address of a peer. -/
def peerFault? (text : String) : Option NodeError :=
  match Multiaddr.read text with
  | .ok _ => none
  | .error fault =>
    some (.invalidConfig ("bad bootstrap peer " ++ text ++ ": " ++ fault.message))

/-- All that is wrong with a configuration, in the order in which it is looked for: no topic, blank
topics, a protocol without a slash in front, no time for a request, and peers without an address. -/
def faults (c : Config) : List NodeError :=
  (if c.topics = [] then [.invalidConfig "at least one topic is required"] else []) ++
  (c.topics.filter Text.allBlank).map (fun topic => .invalidTopic (Text.quote topic)) ++
  (c.protocolName.toList.filter (!startsWithSlash ·)).map
    (fun name => .invalidConfig ("protocol name must start with '/': " ++ name)) ++
  (if c.requestTimeout = 0 then [.invalidConfig "request_timeout_secs must be greater than 0"]
    else []) ++
  c.bootstrapPeers.filterMap peerFault?

/-- What a check says that finds these faults: the first of them. -/
def report : List NodeError → Except NodeError Unit
  | [] => .ok ()
  | e :: _ => .error e

@[simp]
theorem report_eq_ok_iff {es : List NodeError} : report es = .ok () ↔ es = [] := by
  cases es <;> simp [report]

@[simp]
theorem report_eq_error_iff {es : List NodeError} : report es = .error e ↔ es.head? = some e := by
  cases es <;> simp [report]

theorem report_append (es es' : List NodeError) :
    report (es ++ es') = report es >>= fun _ => report es' := by
  cases es <;> rfl

/-- Reading the peers reports the first one without an address. -/
theorem read_bootstrapPeers (texts : List String) :
    (texts.mapM bootstrapAddress >>= fun _ => pure ()) = report (texts.filterMap peerFault?) := by
  induction texts with
  | nil => rfl
  | cons text texts ih =>
    rw [List.mapM_cons, List.filterMap_cons, bootstrapAddress, peerFault?]
    cases Multiaddr.read text with
    | error fault => rfl
    | ok address =>
      rw [← ih]
      cases texts.mapM bootstrapAddress <;> rfl

/-- **The check reports the first of all faults.** -/
theorem validate_eq_report (c : Config) : c.validate = report c.faults := by
  simp only [faults, report_append, ← read_bootstrapPeers, validate, bootstrapAddresses,
    List.isEmpty_iff, ← List.head?_filter]
  by_cases htopics : c.topics = []
  · simp only [if_pos htopics]
    rfl
  · simp only [if_neg htopics]
    cases c.topics.filter Text.allBlank with
    | cons topic _ => rfl
    | nil =>
      by_cases htime : c.requestTimeout = 0
      all_goals
        simp only [htime, if_true, if_false]
        cases c.protocolName with
        | none => rfl
        | some name =>
          simp only [Option.toList_some, List.filter_cons, List.filter_nil]
          cases startsWithSlash name <;> rfl

theorem validate_eq_error_iff : c.validate = .error e ↔ c.faults.head? = some e := by
  rw [validate_eq_report, report_eq_error_iff]

/-- What is wrong with a configuration is a matter of configuring or of topics. -/
theorem kind_of_mem_faults (h : e ∈ c.faults) :
    (∃ d, e = .invalidConfig d) ∨ ∃ d, e = .invalidTopic d := by
  simp only [faults, List.mem_append, List.mem_map, List.mem_filterMap] at h
  rcases h with (((h | ⟨topic, -, rfl⟩) | ⟨name, -, rfl⟩) | h) | ⟨text, -, h⟩
  · split at h <;> simp_all
  · exact Or.inr ⟨_, rfl⟩
  · exact Or.inl ⟨_, rfl⟩
  · split at h <;> simp_all
  · rw [peerFault?] at h
    split at h
    · cases h
    · exact Or.inl ⟨_, (Option.some.inj h).symm⟩

theorem kind_of_validate (h : c.validate = .error e) :
    (∃ d, e = .invalidConfig d) ∨ ∃ d, e = .invalidTopic d :=
  kind_of_mem_faults (List.mem_of_head? (validate_eq_error_iff.1 h))

/-- **What the check lets pass is not rejected later**: there are addresses to listen on and to
start from, and the name of the protocol is good enough for the services too. -/
theorem accepted_of_validate (h : c.validate = .ok ()) :
    (∃ address, c.listenMultiaddr = .ok address) ∧
    (∃ addresses, c.bootstrapAddresses = .ok addresses) ∧
    (∀ name, c.protocolName = some name → protocolOfName name = .ok name) ∧
    ∃ services, Services.ofConfig c = .ok services := by
  have hname : ∀ name, c.protocolName = some name → protocolOfName name = .ok name :=
    fun name => Node.protocolOfName_of_validate h
  refine ⟨⟨_, c.listenMultiaddr_eq⟩, Node.bootstrapAddresses_of_validate h, hname, ?_⟩
  cases hprotocol : c.protocolName with
  | none => exact ⟨_, by simp only [Services.ofConfig, hprotocol]; rfl⟩
  | some name =>
    exact ⟨_, by
      simp only [Services.ofConfig, hprotocol, hname name hprotocol, bind, Except.bind]
      rfl⟩

end Config

namespace Node

/-! ## For what reasons no node starts -/

/-- **Only the check and the key keep a node from starting**, and the check comes first. -/
theorem start_eq_error_iff : Node.start fresh c = .error e ↔ c.validate = .error e ∨
    c.validate = .ok () ∧ KeyPair.resolve fresh c.privateKey = .error e := by
  cases hvalidate : c.validate with
  | error e' => simp [Node.start, bind, Except.bind, hvalidate]
  | ok u =>
    cases hkey : KeyPair.resolve fresh c.privateKey with
    | error e' => simp [Node.start, bind, Except.bind, hvalidate, hkey]
    | ok key =>
      obtain ⟨n, hn⟩ := exists_start hvalidate ⟨key, hkey⟩ ⟨_, c.listenMultiaddr_eq⟩
      simp [hn]

end Node

namespace KeyPair

theorem resolve_eq_error_iff {bs? : Option Bytes} : resolve fresh bs? = .error e ↔
    ∃ bs, bs? = some bs ∧ decode bs = .error e := by
  cases bs? <;> simp [resolve]

theorem kind_of_decode {bs : Bytes} (h : decode bs = .error e) : ∃ d, e = .invalidKey d := by
  rw [decode] at h
  split at h
  · cases h
  · exact ⟨_, (Except.error.inj h).symm⟩

end KeyPair

namespace Network

variable {H : Host}

/-- A network does not get a node exactly for the reasons for which none starts. -/
theorem start_eq_error_iff {net : Network H} :
    net.start fresh c = .error e ↔ Node.start fresh c = .error e := by
  cases hstart : Node.start fresh c with
  | error e' => simp [start, bind, Except.bind, hstart]
  | ok n =>
    have hvalidate : c.validate = .ok () := by
      cases hvalidate : c.validate with
      | ok u => rfl
      | error e =>
        rw [Node.start_eq_error_iff.2 (Or.inl hvalidate)] at hstart
        cases hstart
    obtain ⟨addresses, hread⟩ := Node.bootstrapAddresses_of_validate hvalidate
    simp [start, bind, Except.bind, pure, Except.pure, hstart, hread]

/-- **A start fails with what the check says, or with what is wrong with the key.** -/
theorem start_fails_iff {net : Network H} : net.start fresh c = .error e ↔ c.validate = .error e ∨
    c.validate = .ok () ∧ ∃ bs, c.privateKey = some bs ∧ KeyPair.decode bs = .error e := by
  rw [start_eq_error_iff, Node.start_eq_error_iff, KeyPair.resolve_eq_error_iff]

/-- A start fails because of the configuration exactly if the check does. -/
theorem start_invalid_iff {net : Network H} : ((∃ d, net.start fresh c = .error (.invalidConfig d)) ∨
    ∃ d, net.start fresh c = .error (.invalidTopic d)) ↔ ∃ e, c.validate = .error e := by
  constructor
  · rintro (⟨d, hd⟩ | ⟨d, hd⟩)
    all_goals
      rcases start_fails_iff.1 hd with he | ⟨-, bs, -, hdecode⟩
      · exact ⟨_, he⟩
      · obtain ⟨d', hd'⟩ := KeyPair.kind_of_decode hdecode
        cases hd'
  · rintro ⟨e, he⟩
    have hstart : net.start fresh c = .error e := start_fails_iff.2 (Or.inl he)
    rcases Config.kind_of_validate he with ⟨d, rfl⟩ | ⟨d, rfl⟩
    · exact Or.inl ⟨d, hstart⟩
    · exact Or.inr ⟨d, hstart⟩

theorem start_invalidKey_iff {net : Network H} :
    (∃ d, net.start fresh c = .error (.invalidKey d)) ↔ c.validate = .ok () ∧
      ∃ bs, c.privateKey = some bs ∧ ∀ key, KeyPair.decode bs ≠ .ok key := by
  constructor
  · rintro ⟨d, hd⟩
    rcases start_fails_iff.1 hd with he | ⟨hvalid, bs, hbs, hdecode⟩
    · rcases Config.kind_of_validate he with ⟨d', hd'⟩ | ⟨d', hd'⟩ <;> cases hd'
    · refine ⟨hvalid, bs, hbs, fun key hkey => ?_⟩
      rw [hkey] at hdecode
      cases hdecode
  · rintro ⟨hvalid, bs, hbs, hnone⟩
    cases hdecode : KeyPair.decode bs with
    | ok key => exact absurd hdecode (hnone key)
    | error e =>
      obtain ⟨d, rfl⟩ := KeyPair.kind_of_decode hdecode
      exact ⟨d, start_fails_iff.2 (Or.inr ⟨hvalid, bs, hbs, hdecode⟩)⟩

/-- What has started is what the configuration asks for. -/
theorem exists_started (net : Network H) (fresh : KeyPair) (hvalid : c.validate = .ok ())
    (hkey : ∀ bs, c.privateKey = some bs → ∃ key, KeyPair.decode bs = .ok key) :
    ∃ net' n, net.start fresh c = .ok (net', net.nodes.length) ∧
      net'.nodes[net.nodes.length]? = some n ∧ n.Configured fresh c := by
  cases hstart : net.start fresh c with
  | error e =>
    rcases Node.start_eq_error_iff.1 (start_eq_error_iff.1 hstart) with h | ⟨-, h⟩
    · rw [hvalid] at h
      cases h
    · obtain ⟨bs, hbs, hdecode⟩ := KeyPair.resolve_eq_error_iff.1 h
      obtain ⟨key, hok⟩ := hkey bs hbs
      rw [hok] at hdecode
      cases hdecode
  | ok started =>
    obtain ⟨net', i⟩ := started
    obtain ⟨rfl, n, _, hn, -, rfl⟩ := start_eq_ok hstart
    exact ⟨_, n, rfl, List.getElem?_concat_length, Node.configured_start hn⟩

theorem nodes_start_of_valid (net : Network H) (fresh : KeyPair) (hvalid : c.validate = .ok ())
    (hkey : c.privateKey = none) : ∃ n, (net.act (.start fresh c)).1.nodes = net.nodes ++ [n] := by
  obtain ⟨net', n, hstart, -⟩ := exists_started net fresh hvalid fun bs hbs => by
    rw [hkey] at hbs
    cases hbs
  obtain ⟨-, n, _, -, -, rfl⟩ := start_eq_ok hstart
  exact ⟨n, by simp only [act, hstart]⟩

/-- **The check decides whether a node starts**, and where it lets a configuration pass, the key.

The check reports the first of all faults of a configuration.  With a fault no node starts, and the
same is reported; without one no node starts only if there is a key that cannot be decoded, which is
then reported.  Otherwise there is a new node.  It has joined the topics of its configuration in
order, serves direct messages if there is a protocol for them, and is whoever its key says.  What
looks at the configuration after the check finds no fault any more. -/
theorem validate_decides_start (net : Network H) (fresh : KeyPair) (c : Config) :
    (∀ e, c.validate = .error e ↔ c.faults.head? = some e) ∧
    (∀ e, c.validate = .error e → net.start fresh c = .error e) ∧
    (((∃ d, net.start fresh c = .error (.invalidConfig d)) ∨
      ∃ d, net.start fresh c = .error (.invalidTopic d)) ↔ ∃ e, c.validate = .error e) ∧
    ((∃ d, net.start fresh c = .error (.invalidKey d)) ↔ c.validate = .ok () ∧
      ∃ bs, c.privateKey = some bs ∧ ∀ key, KeyPair.decode bs ≠ .ok key) ∧
    (c.validate = .ok () →
      (∀ bs, c.privateKey = some bs → ∃ key, KeyPair.decode bs = .ok key) →
      ∃ net' n, net.start fresh c = .ok (net', net.nodes.length) ∧
        net'.nodes[net.nodes.length]? = some n ∧ n.running = true ∧
        n.topics.map (·.name) = c.topics ∧ n.direct.map (·.protocol) = c.protocolName ∧
        n.config = c ∧
        ∀ bs, c.privateKey = some bs → (KeyPair.decode bs).map KeyPair.peerId = .ok n.id) ∧
    (c.validate = .ok () →
      (∃ address, c.listenMultiaddr = .ok address) ∧
      (∃ addresses, c.bootstrapAddresses = .ok addresses) ∧
      (∀ name, c.protocolName = some name → Config.protocolOfName name = .ok name) ∧
      ∃ services, Services.ofConfig c = .ok services) := by
  refine ⟨fun e => Config.validate_eq_error_iff, fun e he => start_fails_iff.2 (Or.inl he),
    start_invalid_iff, start_invalidKey_iff, fun hvalid hkey => ?_, Config.accepted_of_validate⟩
  obtain ⟨net', n, hstart, hn, hconfigured⟩ := exists_started net fresh hvalid hkey
  refine ⟨net', n, hstart, hn, hconfigured.running, hconfigured.topics, hconfigured.protocol,
    hconfigured.config, fun bs hbs => ?_⟩
  obtain ⟨key, hresolve, hid⟩ := hconfigured.identity
  rw [hbs, KeyPair.resolve] at hresolve
  rw [hresolve, hid]
  rfl

/-- A configuration with two topics, a protocol, a peer and a key starts a node, which is whoever
the key says.  With a blank topic beside a peer that is none it fails, and only the topic is
reported; with octets that are no key it fails because of these. -/
theorem validate_decides_start_keyed :
    let key := KeyPair.ofSeed [1]
    let c : Config :=
      { topics := ["a", "b"], protocolName := some "/direct/1", privateKey := some key.encode,
        bootstrapPeers := ["/ip4/1.2.3.4/tcp/1"] }
    let net : Network loopback := {}
    (∃ net' n, net.start (.ofSeed []) c = .ok (net', 0) ∧ net'.nodes[0]? = some n ∧
      n.topics.map (·.name) = ["a", "b"] ∧ n.direct.map (·.protocol) = some "/direct/1" ∧
      n.id = key.peerId) ∧
    net.start (.ofSeed []) { c with topics := ["a", " "], bootstrapPeers := ["x"] } =
      .error (.invalidTopic (Text.quote " ")) ∧
    ∃ d, net.start (.ofSeed []) { c with privateKey := some [1] } = .error (.invalidKey d) := by
  intro key c net
  have hdecode : KeyPair.decode key.encode = .ok key := KeyPair.decode_encode key
  refine ⟨?_, ?_, ?_⟩
  · obtain ⟨-, -, -, -, hstarts, -⟩ := validate_decides_start net (.ofSeed []) c
    obtain ⟨net', n, hstart, hn, -, htopics, hprotocol, -, hkey⟩ :=
      hstarts (by decide +kernel) fun bs hbs => ⟨key, Option.some.inj hbs ▸ hdecode⟩
    refine ⟨net', n, hstart, hn, htopics, hprotocol, ?_⟩
    have hid := hkey key.encode rfl
    rw [hdecode] at hid
    exact (Except.ok.inj hid).symm
  · obtain ⟨-, hfails, -⟩ := validate_decides_start net (.ofSeed [])
      { c with topics := ["a", " "], bootstrapPeers := ["x"] }
    exact hfails _ (by decide +kernel)
  · obtain ⟨-, -, -, hinvalid, -⟩ :=
      validate_decides_start net (.ofSeed []) { c with privateKey := some [1] }
    refine hinvalid.2 ⟨by decide +kernel, [1], rfl, fun key hkey => ?_⟩
    have hnone : KeyPair.decode [1] = .error (.invalidKey KeyPair.Fault.fields.message) := by decide
    rw [hnone] at hkey
    cases hkey

end Network
end PeerNode
