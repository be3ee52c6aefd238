import PeerNode.Proofs.Key.Encoding
import PeerNode.Proofs.Config.RoundTrip
import PeerNode.CommandLine.Reader

/-!
# A key keeps its identity

A key pair reaches a node as octets or as text: on its own, as an option of the command line or in
a configuration that is a JSON text, which may be stored and loaded again on the way.  Each of
these ways is a composition of codings of which every one gives back what was coded; what they
have in common is that the text of the octets may stand between blank characters, and is read as
the octets all the same (`readKeyText_padded`).  The identity of the node is made of the key pair
alone, so it is the same on every way.

Octets that came from elsewhere may be laid out differently.  They are not the octets that the
key pair is encoded as, but they have the same fields, and so the same key pair and identity.

* `Arguments.read_key`: the key on the command line.
* `key_keeps_identity`: all ways together.
-/

namespace PeerNode

variable {text : String} {bs : Bytes}

theorem Arguments.tokenOf_plain (h : '-' ∉ text.toList) : tokenOf text = .plain text := by
  unfold tokenOf
  split
  · rename_i heq
    exact absurd (heq ▸ List.mem_cons_self) h
  · rename_i heq
    exact absurd (heq ▸ List.mem_cons_self) h
  · rename_i heq
    exact absurd (heq ▸ List.mem_cons_self) h
  · rfl

/-- A text without hyphens may stand as the value of an option. -/
theorem Arguments.read_key (h : '-' ∉ text.toList) :
    read ["--key-base64", text] = .ok { key := some text } := by
  have hoption : tokenOf "--key-base64" = .long "key-base64" none := by decide
  have hfind : ValueOption.all.find? (fun o => o.name == "key-base64") = some .key := by decide
  rw [read, readFrom, hoption]
  simp only [hfind, resolve]
  rw [readFrom, tokenOf_plain h]
  simp only
  rw [readFrom]
  rfl

/-- The text of octets between blank characters has no hyphen. -/
theorem hyphen_notMem_padded {front back : List Char}
    (hfront : ∀ c ∈ front, Text.isBlank c = true) (hback : ∀ c ∈ back, Text.isBlank c = true)
    (bs : Bytes) : '-' ∉ front ++ ((keyText bs).toList ++ back) := by
  have hblank : Text.isBlank '-' = false := by decide
  have hkey : ∀ c ∈ (keyText bs).toList, c ≠ '-' :=
    forall_mem_keyText (by decide) (by decide) bs
  rw [List.mem_append, List.mem_append]
  rintro (h | h | h)
  · exact absurd (hfront '-' h) (by rw [hblank]; exact Bool.false_ne_true)
  · exact hkey '-' h rfl
  · exact absurd (hback '-' h) (by rw [hblank]; exact Bool.false_ne_true)

namespace Config

theorem keyOfText_of_read_ne_nil (h : readKeyText text = .ok bs) (hne : bs ≠ []) :
    keyOfText text = .ok (some bs) := by
  rw [keyOfText_of_read h, if_neg hne]

theorem withKeyText_of_read (h : readKeyText text = .ok bs) (hne : bs ≠ []) (c : Config) :
    c.withKeyText text = .ok { c with privateKey := some bs } := by
  rw [withKeyText, keyOfText_of_read_ne_nil h hne]

theorem ofJson_toJson_of_key {c : Config} (h : c.privateKey = some bs) (hne : bs ≠ []) :
    ofJson c.toJson = .ok c := by
  rw [ofJson_toJson, withoutEmptyKey_eq, if_neg]
  rw [h]
  exact fun hnil => hne (Option.some.inj hnil)

end Config

theorem KeyPair.encode_ne_nil (k : KeyPair) : k.encode ≠ [] := by
  rw [encode, Key.Fields.encode]
  exact List.cons_ne_nil _ _

/-- **A key keeps its identity on every way that it takes.**  The octets of a key pair are decoded
as it.  Their text, between any blank characters, is read as these octets: on its own, as the key
of any configuration, as an option of the command line, and in every JSON text of a configuration
with a member for the key, however its name, its value and the rest of the text are spelled; and a
configuration with this key is the same after it has been stored and loaded.  It makes the key
pair that of the node.

For octets that are decoded as the key pair, however they are laid out, encoding it gives octets
with the same fields, which are decoded as the same key pair, are encoded as themselves and have
the same name, and that name denotes the identity: it is read as itself, and sending to it is never
refused for it. -/
theorem key_keeps_identity (k : KeyPair) :
    KeyPair.decode k.encode = .ok k ∧
    (∀ (front back : List Char) (text : String), (∀ c ∈ front, Text.isBlank c = true) →
      (∀ c ∈ back, Text.isBlank c = true) →
      text = String.ofList (front ++ ((keyText k.encode).toList ++ back)) →
      readKeyText text = .ok k.encode ∧
      (∀ c : Config, c.withKeyText text = .ok { c with privateKey := some k.encode }) ∧
      Arguments.read ["--key-base64", text] = .ok { key := some text } ∧
      (∀ (read : String → Except FileProblem Bytes) (a : Arguments) (c : Config),
        a.key = some text → a.baseConfig read = .ok c →
        a.toConfig read = .ok { a.amend c with privateKey := some k.encode }) ∧
      ∀ (d : Config) (fs : List Config.Field) (json : String),
        d.privateKey = some k.encode → .privateKey ∈ fs → fs.Nodup →
        Config.Document d (some text) fs json.toList →
        Config.ofJson json = .ok (Config.taking fs d .default) ∧
        (Config.taking fs d .default).privateKey = some k.encode) ∧
    (∀ c : Config, c.privateKey = some k.encode → Config.ofJson c.toJson = .ok c ∧
      ∀ fresh, KeyPair.resolve fresh c.privateKey = .ok k) ∧
    ∀ bs : Bytes, KeyPair.decode bs = .ok k →
      Key.Fields.decode? k.encode = Key.Fields.decode? bs ∧
      (KeyPair.decode k.encode).map KeyPair.encode = .ok k.encode ∧
      (KeyPair.decode k.encode).map KeyPair.peerName = (KeyPair.decode bs).map KeyPair.peerName ∧
      PeerName.parse k.peerName.text = .ok k.peerName ∧ k.peerName.toId = .ok k.peerId ∧
      ∀ (H : Host) (net : Network H) (i : Nat) (payload : Bytes) (detail : String),
        (net.sendTo i k.peerName payload).2 ≠ .error (.invalidPeerId detail) ∧
        (net.sendFrom i k.peerName payload).2 ≠ .error (.invalidPeerId detail) := by
  have hdecode := k.decode_encode
  have hne := k.encode_ne_nil
  refine ⟨hdecode, ?_, ?_, ?_⟩
  · rintro front back text hfront hback rfl
    have hread := readKeyText_padded hfront hback k.encode
    refine ⟨hread, Config.withKeyText_of_read hread hne, ?_, ?_, ?_⟩
    · exact Arguments.read_key (by
        rw [String.toList_ofList]
        exact hyphen_notMem_padded hfront hback k.encode)
    · intro read a c hkey hbase
      rw [Arguments.toConfig, hbase]
      simp only [hkey, Config.withKeyText_of_read hread hne]
    · intro d fs json hkey hmem hnodup hdoc
      refine ⟨Config.ofJson_document hdoc hnodup fun _ => ?_, (if_pos hmem).trans hkey⟩
      rw [hkey]
      exact Config.keyOfText_of_read_ne_nil hread hne
  · intro c hkey
    refine ⟨Config.ofJson_toJson_of_key hkey hne, fun fresh => ?_⟩
    rw [hkey]
    exact hdecode
  · intro bs hbs
    refine ⟨?_, by rw [hdecode]; rfl, by rw [hdecode, hbs], k.parse_peerName, k.toId_peerName, ?_⟩
    · rw [KeyPair.decode_eq_ok_iff.1 hdecode, KeyPair.decode_eq_ok_iff.1 hbs]
    exact fun _ net i payload detail => ⟨Network.sendTo_ne_invalidPeerId k.toId_peerName payload,
      Network.sendFrom_ne_invalidPeerId k.toId_peerName payload⟩

/-- Said of a key in a JSON text with another member, an escape in the name and blank characters
around the key, and of octets with the fields in another order and one that is passed over. -/
theorem key_keeps_identity_layout :
    let k := KeyPair.ofSeed [1, 2, 3]
    let text := String.ofList ([' '] ++ ((keyText k.encode).toList ++ ['\n']))
    let json := String.ofList ("\x7b \"x\" : [\x7b\x7d],\"\\u0070rivate_key\":\"".toList ++
      (text.toList.flatMap Json.writeChar ++ "\" \x7d".toList))
    let octets : Bytes := 24 :: 5 :: 18 :: 64 :: (k.seed ++ k.publicKey ++ [8, 1])
    readKeyText text = .ok k.encode ∧
      Config.ofJson json = .ok { privateKey := some k.encode } ∧
      Config.ofJson (Config.toJson { privateKey := some k.encode }) =
        .ok { privateKey := some k.encode } ∧
      KeyPair.decode octets = .ok k ∧
      (KeyPair.decode k.encode).map KeyPair.peerName =
        (KeyPair.decode octets).map KeyPair.peerName := by
  intro k text json octets
  obtain ⟨_, htexts, hconfigs, hlayouts⟩ := key_keeps_identity k
  have hspace : Json.Spaces [' '] := List.forall_mem_singleton.2 rfl
  obtain ⟨hread, _, _, _, hjson⟩ := htexts [' '] ['\n'] text (List.forall_mem_singleton.2 rfl)
    (List.forall_mem_singleton.2 rfl) rfl
  have hother : Json.Form .value "[\x7b\x7d]".toList :=
    .container .list (.first Json.spaces_nil .list Json.spaces_nil
      (.container .object (.empty .object Json.spaces_nil)) (.close .list Json.spaces_nil))
  have hx : Json.IsText "\"x\"".toList "x" :=
    ⟨"x".toList, rfl, Json.spells_writeChars "x".toList⟩
  have hname : Json.IsText "\"\\u0070rivate_key\"".toList "private_key" :=
    ⟨"\\u0070rivate_key".toList, rfl, .cons (.number (n := 0x70) (by decide) rfl rfl)
      (Json.spells_writeChars "rivate_key".toList)⟩
  have hdoc : Config.Document { privateKey := some k.encode } (some text) [.privateKey]
      json.toList := by
    have h := Config.Document.mk Json.spaces_nil
      (.other (.first hspace) hx (by intro f; cases f <;> decide) hspace
        hspace hother
        (.entry (d := { privateKey := some k.encode }) (f := .privateKey)
          (.next Json.spaces_nil Json.spaces_nil) hname Json.spaces_nil Json.spaces_nil
          (.some (Json.isText_writeText text)) (.close false hspace))) Json.spaces_nil
    rw [String.toList_ofList]
    convert h using 1
    simp [Json.writeText]
  have hoctets : KeyPair.decode octets = .ok k := by
    have hlength := k.length_data
    have hpassed : ∀ (fuel : Nat) (f : Key.Fields) (rest : Bytes),
        Key.readFields? (fuel + 1) f (24 :: 5 :: rest) = Key.readFields? fuel f rest := by
      intro fuel f rest
      have hheader : Key.readHeader? (24 :: 5 :: rest) = some (3, .varint, 5 :: rest) := by
        rw [Key.readHeader?, Key.readLoose?_cons (by decide)]
        rfl
      rw [Key.readFields?, hheader]
      simp [Key.skipValue?, Key.skipPlain?, Key.readLoose?_cons]
    have hone : Key.signed32 (1 : UInt8).toNat = 1 := by decide
    rw [KeyPair.decode_eq_ok_iff]
    simp only [octets]
    generalize k.seed ++ k.publicKey = data at hlength ⊢
    have hsize : (64 : UInt8) = data.length.toUInt8 := by rw [hlength]; rfl
    rw [hsize, Key.Fields.decode?, List.length_cons, List.length_cons, List.length_cons, hpassed,
      Key.readFields?_data (by omega), List.length_cons, List.length_append, List.length_cons,
      ← Nat.add_assoc, Key.readFields?_type (by decide), Key.readFields?, hone]
    rfl
  obtain ⟨_, _, hsame, _⟩ := hlayouts octets hoctets
  have hloaded := (hjson _ [.privateKey] json rfl List.mem_cons_self (by decide) hdoc).1
  exact ⟨hread, hloaded, (hconfigs _ rfl).1, hoctets, hsame⟩

end PeerNode
