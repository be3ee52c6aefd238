import PeerNode.Proofs.CommandLine.Reading
import PeerNode.Proofs.Config.KeyEntry

/-!
# What the options change in a configuration

The configuration to start from is that of a file, or the default.  `Overrides` says of each of its
entries what the options make of it; it determines the configuration that comes out, and the key is
the only entry that it may be impossible to have (`toConfig_eq_error_iff`).

* `fileConfig`: the configuration to start from.
* `Overrides`: a configuration in which options have replaced what they are about.
* `options_override_file`: the configuration that a command line asks for.
-/

namespace PeerNode
namespace Arguments

open Occurrence

variable {os : List Occurrence} {c c' : Config} {read : String → Except FileProblem Bytes}

/-- The configuration to start from: that of the file that is named, or the default. -/
def fileConfig (read : String → Except FileProblem Bytes) (os : List Occurrence) :
    Except NodeError Config :=
  match values os .config with
  | [] => .ok Config.default
  | path :: _ => Config.ofContents path (read path)

/-- The port is the one that is given, if one is given. -/
def PortGiven (texts : List String) (old new : UInt16) : Prop :=
  texts = [] ∧ new = old ∨ ∃ text, texts = [text] ∧ readPortOption? text = some new

/-- The key is the one that is given, if one is given, and a blank text clears it. -/
def KeyGiven (texts : List String) (old new : Option Bytes) : Prop :=
  texts = [] ∧ new = old ∨ ∃ text, texts = [text] ∧
    (Text.allBlank text = true ∧ new = none ∨
      Text.allBlank text = false ∧ ∃ octets, readKeyText text = .ok octets ∧ new = some octets)

/-- The configuration `c'` is `c` with what options replace. -/
structure Overrides (os : List Occurrence) (c c' : Config) : Prop where
  topics : c'.topics = if values os .topic = [] then c.topics else values os .topic
  protocolName : c'.protocolName = (values os .protocol).head?.or c.protocolName
  listenPort : PortGiven (values os .port) c.listenPort c'.listenPort
  bootstrapPeers : c'.bootstrapPeers = c.bootstrapPeers ++ values os .bootstrap ++
    (values os .bundle).flatMap fun bundle =>
      (Config.bundlePieces bundle.toList).map String.ofList
  privateKey : KeyGiven (values os .key) c.privateKey c'.privateKey
  localOnly : c'.localOnly = (c.localOnly || os.contains (.flag .localOnly))
  enableMdns : c'.enableMdns = (c.enableMdns && !os.contains (.flag .noMdns))
  nodeName : c'.nodeName = c.nodeName
  enableKad : c'.enableKad = c.enableKad
  enableUpnp : c'.enableUpnp = c.enableUpnp
  enableRelay : c'.enableRelay = c.enableRelay
  requestTimeout : c'.requestTimeout = c.requestTimeout
  idleTimeout : c'.idleTimeout = c.idleTimeout

/-! ## Options that may be given once -/

theorem values_once (hos : WellFormed os) {o : ValueOption} (ho : o.isRepeatable = false) :
    values os o = [] ∨ ∃ text, values os o = [text] := by
  match hvalues : values os o, hos.once o ho with
  | [], _ => exact .inl rfl
  | [text], _ => exact .inr ⟨text, rfl⟩

theorem accepts_of_values_eq (hos : WellFormed os) {o : ValueOption} {text : String}
    (h : values os o = [text]) : o.Accepts text :=
  hos.accepted o text (mem_values.1 (h ▸ List.mem_singleton_self text))

/-! ## The entries -/

theorem baseConfig_ofGiven (read : String → Except FileProblem Bytes) (os : List Occurrence) :
    baseConfig read (ofGiven os) = fileConfig read os := by
  rw [baseConfig, fileConfig, ofGiven]
  cases values os .config <;> rfl

/-- The changes of the options but the key, entry by entry. -/
theorem amend_eq (a : Arguments) (c : Config) :
    a.amend c =
      { c with
        topics := if a.topics = [] then c.topics else a.topics
        protocolName := a.protocol.or c.protocolName
        listenPort := a.port.getD c.listenPort
        bootstrapPeers := c.bootstrapPeers ++ a.bootstrap ++ a.bundle.toList.flatMap fun bundle =>
          (Config.bundlePieces bundle.toList).map String.ofList
        localOnly := c.localOnly || a.localOnly
        enableMdns := c.enableMdns && !a.noMdns } := by
  obtain ⟨path, topics, protocol, port, bootstrap, bundle, key, localOnly, noMdns, generateKey⟩ := a
  cases topics <;> cases protocol <;> cases port <;> cases bundle <;>
    simp [amend, Config.withProtocol, Config.withBundle]

/-- **What the options make of a configuration**, with whatever key is given. -/
theorem overrides_amend (hos : WellFormed os) {key : Option Bytes}
    (hkey : KeyGiven (values os .key) c.privateKey key) :
    Overrides os c { amend (ofGiven os) c with privateKey := key } := by
  have hport : PortGiven (values os .port) c.listenPort
      (((values os .port).head?.bind readPortOption?).getD c.listenPort) := by
    obtain hnone | ⟨text, htext⟩ := values_once hos (o := .port) rfl
    · exact .inl ⟨hnone, by rw [hnone]; rfl⟩
    · obtain ⟨n, hn⟩ : ∃ n, readPortOption? text = some n := accepts_of_values_eq hos htext
      exact .inr ⟨text, htext, by simp [htext, hn]⟩
  have hbundle : (values os .bundle).head?.toList = values os .bundle := by
    obtain hnone | ⟨text, htext⟩ := values_once hos (o := .bundle) rfl
    · rw [hnone]; rfl
    · rw [htext]; rfl
  rw [amend_eq]
  constructor <;> first | rfl | exact hport | exact hkey | simp only [ofGiven, hbundle]

theorem PortGiven.unique {texts : List String} {old new new' : UInt16}
    (h : PortGiven texts old new) (h' : PortGiven texts old new') : new = new' := by
  rcases h with ⟨rfl, rfl⟩ | ⟨text, rfl, hread⟩ <;> rcases h' with ⟨heq, rfl⟩ | ⟨text', heq, hread'⟩
  · rfl
  · cases heq
  · cases heq
  · cases heq
    exact Option.some.inj (hread.symm.trans hread')

theorem keyGiven_singleton {text : String} {old new : Option Bytes} :
    KeyGiven [text] old new ↔ Config.keyOfText text = .ok new := by
  unfold KeyGiven Config.keyOfText
  cases hblank : Text.allBlank text with
  | true => simp [hblank, eq_comm (a := new)]
  | false => cases hread : readKeyText text <;> simp [hblank, hread, eq_comm (a := new)]

theorem KeyGiven.unique {texts : List String} {old new new' : Option Bytes}
    (h : KeyGiven texts old new) (h' : KeyGiven texts old new') : new = new' := by
  cases texts with
  | nil => simp_all [KeyGiven]
  | cons text rest =>
    obtain rfl : rest = [] := by
      obtain ⟨heq, -⟩ | ⟨text', heq, -⟩ := h
      · cases heq
      · exact (List.cons.inj heq).2
    exact Except.ok.inj ((keyGiven_singleton.1 h).symm.trans (keyGiven_singleton.1 h'))

/-- What the options make of a configuration is determined. -/
theorem Overrides.unique {c'' : Config} (h : Overrides os c c') (h' : Overrides os c c'') :
    c' = c'' := by
  have hport := h.listenPort.unique h'.listenPort
  have hkey := h.privateKey.unique h'.privateKey
  obtain ⟨⟩ := c'
  obtain ⟨⟩ := c''
  rw [Config.mk.injEq]
  exact ⟨h.topics.trans h'.topics.symm, h.protocolName.trans h'.protocolName.symm, hport,
    h.bootstrapPeers.trans h'.bootstrapPeers.symm, hkey, h.nodeName.trans h'.nodeName.symm,
    h.localOnly.trans h'.localOnly.symm, h.enableMdns.trans h'.enableMdns.symm,
    h.enableKad.trans h'.enableKad.symm, h.enableUpnp.trans h'.enableUpnp.symm,
    h.enableRelay.trans h'.enableRelay.symm, h.requestTimeout.trans h'.requestTimeout.symm,
    h.idleTimeout.trans h'.idleTimeout.symm⟩

/-- A configuration in which options have replaced what they are about is the one with their
changes, and a key that is given. -/
theorem overrides_iff (hos : WellFormed os) :
    Overrides os c c' ↔ ∃ key, KeyGiven (values os .key) c.privateKey key ∧
      c' = { amend (ofGiven os) c with privateKey := key } := by
  constructor
  · exact fun h => ⟨_, h.privateKey, h.unique (overrides_amend hos h.privateKey)⟩
  · rintro ⟨key, hkey, rfl⟩
    exact overrides_amend hos hkey

/-! ## The configuration that is asked for -/

theorem keyOfText_eq_error_iff {text : String} {e : NodeError} :
    Config.keyOfText text = .error e ↔
      Text.allBlank text = false ∧ readKeyText text = .error e := by
  unfold Config.keyOfText
  cases hblank : Text.allBlank text with
  | true => simp
  | false => cases readKeyText text <;> simp

/-- **The configuration that comes out** is the one to start from with what the options replace. -/
theorem toConfig_eq_ok_iff (hos : WellFormed os) :
    (ofGiven os).toConfig read = .ok c' ↔
      ∃ c, fileConfig read os = .ok c ∧ Overrides os c c' := by
  rw [toConfig, baseConfig_ofGiven]
  cases hfile : fileConfig read os with
  | error e => simp
  | ok c =>
    simp only [Except.ok.injEq, exists_eq_left', overrides_iff hos]
    obtain hnone | ⟨text, htext⟩ := values_once hos (o := .key) rfl
    · have hkey : (ofGiven os).key = none := congrArg List.head? hnone
      have hsame : { amend (ofGiven os) c with privateKey := c.privateKey } =
          amend (ofGiven os) c := by rw [amend_eq]
      simp [hkey, hnone, KeyGiven, hsame, eq_comm (a := c')]
    · have hkey : (ofGiven os).key = some text := congrArg List.head? htext
      simp only [hkey, htext, keyGiven_singleton, Config.withKeyText]
      cases Config.keyOfText text <;> simp [eq_comm (a := c')]

/-- **The errors** are those of the file, and then those of the key. -/
theorem toConfig_eq_error_iff (hos : WellFormed os) {e : NodeError} :
    (ofGiven os).toConfig read = .error e ↔
      fileConfig read os = .error e ∨
        ∃ c text, fileConfig read os = .ok c ∧ values os .key = [text] ∧
          Text.allBlank text = false ∧ readKeyText text = .error e := by
  rw [toConfig, baseConfig_ofGiven]
  cases hfile : fileConfig read os with
  | error e => simp
  | ok c =>
    obtain hnone | ⟨text, htext⟩ := values_once hos (o := .key) rfl
    · have hkey : (ofGiven os).key = none := congrArg List.head? hnone
      simp [hkey, hnone]
    · have hkey : (ofGiven os).key = some text := congrArg List.head? htext
      simp only [hkey, htext, Config.withKeyText, ← keyOfText_eq_error_iff]
      cases hread : Config.keyOfText text <;> simp [hread]

/-- **The options on the command line override the file.**  A line that spells options is read
exactly if they can be given together.  Then they replace what they are about in the configuration
of the file, or in the default, and nothing else; the only errors are that the file cannot be
loaded and, if it can, that the text of the key stands for no key.  A line that spells the same
options in another order asks for the same. -/
theorem options_override_file (read : String → Except FileProblem Bytes) {line : List String}
    (hline : Spells os line) :
    ((∃ a, Arguments.read line = .ok a) ↔ WellFormed os) ∧
    ∀ a, Arguments.read line = .ok a →
      (∀ c', a.toConfig read = .ok c' ↔ ∃ c, fileConfig read os = .ok c ∧ Overrides os c c') ∧
      (∀ e, a.toConfig read = .error e ↔
        fileConfig read os = .error e ∨
          ∃ c text, fileConfig read os = .ok c ∧ values os .key = [text] ∧
            Text.allBlank text = false ∧ readKeyText text = .error e) ∧
      ∀ os' line', Reordered os os' → Spells os' line' → Arguments.read line' = .ok a := by
  refine ⟨⟨?_, fun hos => ⟨_, (read_eq_ok_iff hline).2 ⟨hos, rfl⟩⟩⟩, fun a ha => ?_⟩
  · rintro ⟨a, ha⟩
    exact ((read_eq_ok_iff hline).1 ha).1
  · obtain ⟨hos, rfl⟩ := (read_eq_ok_iff hline).1 ha
    refine ⟨fun c' => toConfig_eq_ok_iff hos, fun e => toConfig_eq_error_iff hos,
      fun os' line' horder hline' => ?_⟩
    exact (read_eq_ok_iff hline').2 ⟨horder.wellFormed hos, (horder.ofGiven_eq hos).symm⟩

/-- All options that change the configuration, on a line and on one in another order, with a file
whose key a blank text clears; and the same with a file that is not there. -/
theorem options_override_file_reordered :
    let line :=
      ["--topic=a", "--config", "f", "--key-base64= ", "--no-mdns", "--bootstrap-bundle", "q; ;r ",
        "--topic", "b", "--port=+7", "--bootstrap", "s", "--protocol=/d", "--local-only", "--"]
    let line' :=
      ["--local-only", "--protocol", "/d", "--topic", "a", "--port", "+7", "--no-mdns",
        "--bootstrap=s", "--topic=b", "--bootstrap-bundle=q; ;r ", "--key-base64", " ",
        "--config=f"]
    let contents :=
      "\x7b\"private_key\":\"AQ==\",\"bootstrap_peers\":[\"p\"],\"node_name\":\"n\"\x7d"
    ∃ a, Arguments.read line = .ok a ∧ Arguments.read line' = .ok a ∧
      a.toConfig (fun _ => .ok (Bytes.ofText contents)) =
        .ok { topics := ["a", "b"], protocolName := some "/d", listenPort := 7,
              bootstrapPeers := ["p", "s", "q", "r"], nodeName := "n", localOnly := true,
              enableMdns := false } ∧
      a.toConfig (fun _ => .error .missing) =
        .error (.invalidConfig "cannot read f: No such file or directory (os error 2)") := by
  intro line line' contents
  let os : List Occurrence :=
    [.value .topic "a", .value .config "f", .value .key " ", .flag .noMdns,
      .value .bundle "q; ;r ", .value .topic "b", .value .port "+7", .value .bootstrap "s",
      .value .protocol "/d", .flag .localOnly]
  let os' : List Occurrence :=
    [.flag .localOnly, .value .protocol "/d", .value .topic "a", .value .port "+7", .flag .noMdns,
      .value .bootstrap "s", .value .topic "b", .value .bundle "q; ;r ", .value .key " ",
      .value .config "f"]
  have hline : Spells os line := cast (congrArg (Spells os) (by decide)) <|
    Spells.attached _ _ <| .apart _ _ (by decide) <| .attached _ _ <| .flag _ <|
      .apart _ _ (by decide) <| .apart _ _ (by decide) <| .attached _ _ <|
      .apart _ _ (by decide) <| .attached _ _ <| .flag _ .closed
  have hline' : Spells os' line' := cast (congrArg (Spells os') (by decide)) <|
    Spells.flag _ <| .apart _ _ (by decide) <| .apart _ _ (by decide) <| .apart _ _ (by decide) <|
      .flag _ <| .attached _ _ <| .attached _ _ <| .attached _ _ <| .apart _ _ (by decide) <|
      .attached _ _ .nil
  have hread : Arguments.read line = .ok (ofGiven os) := by decide
  have horder : Reordered os os' := ⟨by decide, fun o => by cases o <;> decide⟩
  obtain ⟨hfile, -, hsame⟩ :=
    (options_override_file (fun _ => .ok (Bytes.ofText contents)) hline).2 _ hread
  obtain ⟨-, hmissing, -⟩ := (options_override_file (fun _ => .error .missing) hline).2 _ hread
  have hloaded : fileConfig (fun _ => .ok (Bytes.ofText contents)) os =
      .ok { privateKey := some [1], bootstrapPeers := ["p"], nodeName := "n" } := by decide +kernel
  refine ⟨_, hread, hsame os' line' horder hline', (hfile _).2 ⟨_, hloaded, ?_⟩,
    (hmissing _).2 (.inl (by decide))⟩
  constructor
  case listenPort => exact .inr ⟨"+7", by decide, by decide⟩
  case privateKey => exact .inr ⟨" ", by decide, .inl ⟨by decide, rfl⟩⟩
  all_goals decide

end Arguments
end PeerNode
