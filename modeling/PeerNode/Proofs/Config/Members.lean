import PeerNode.Proofs.Json.Passing
import PeerNode.Config.Reader

/-!
# Objects that hold a configuration

`Document` is the grammar of the texts of a configuration: an object with members in any order,
each the entry of a configuration `d` under its name or something else under another, every name
and value in any of its spellings, with insignificant characters anywhere between them.  Loading
such a text takes the default and gives it the entries that occur, and nothing else of the text
matters (`ofJson_document`).  Members are read one after the other, each of them setting one entry
(`read_spelled`), so the proof is an induction on the members with the configuration so far.

A private key stands in the text as text, and not every key has exactly one, so the grammar takes
the key as the text that stands for it.

* `Config.taking`: a configuration with some entries of another.
* `Field.Spelled`: the spellings of the value of an entry.
* `Members`, `Document`: the grammar.
* `ofJson_document`: what a text of the grammar is loaded as.
-/

namespace PeerNode
namespace Config

open Json

/-! ## Replacing entries -/

/-- The configuration `c` with the entries `fs` of `d`. -/
def taking (fs : List Field) (d c : Config) : Config where
  topics := if .topics ∈ fs then d.topics else c.topics
  protocolName := if .protocolName ∈ fs then d.protocolName else c.protocolName
  listenPort := if .listenPort ∈ fs then d.listenPort else c.listenPort
  bootstrapPeers := if .bootstrapPeers ∈ fs then d.bootstrapPeers else c.bootstrapPeers
  privateKey := if .privateKey ∈ fs then d.privateKey else c.privateKey
  nodeName := if .nodeName ∈ fs then d.nodeName else c.nodeName
  localOnly := if .localOnly ∈ fs then d.localOnly else c.localOnly
  enableMdns := if .enableMdns ∈ fs then d.enableMdns else c.enableMdns
  enableKad := if .enableKad ∈ fs then d.enableKad else c.enableKad
  enableUpnp := if .enableUpnp ∈ fs then d.enableUpnp else c.enableUpnp
  enableRelay := if .enableRelay ∈ fs then d.enableRelay else c.enableRelay
  requestTimeout := if .requestTimeout ∈ fs then d.requestTimeout else c.requestTimeout
  idleTimeout := if .idleTimeout ∈ fs then d.idleTimeout else c.idleTimeout

theorem taking_nil (d c : Config) : taking [] d c = c := by
  simp [taking]

theorem taking_all (d c : Config) : taking Field.all d c = d := by
  simp [taking, Field.all]

theorem taking_cons (f : Field) (fs : List Field) (d c : Config) :
    taking (f :: fs) d c = taking fs d (taking [f] d c) := by
  cases f <;> simp [taking]

/-! ## The value of an entry -/

/-- The private key that an optional text stands for. -/
def keyOfOptional : Option String → Except NodeError (Option Bytes)
  | none => .ok none
  | some text => keyOfText text

/-- The spellings of the value of an entry of `d`, where `key` is the text of the private key. -/
def Field.Spelled (d : Config) (key : Option String) (cs : List Char) : Field → Prop
  | topics => IsTexts cs d.topics
  | protocolName => IsOptional cs d.protocolName
  | listenPort => cs = Nat.toDigits 10 d.listenPort.toNat
  | bootstrapPeers => IsTexts cs d.bootstrapPeers
  | privateKey => IsOptional cs key
  | nodeName => IsText cs d.nodeName
  | localOnly => IsBool cs d.localOnly
  | enableMdns => IsBool cs d.enableMdns
  | enableKad => IsBool cs d.enableKad
  | enableUpnp => IsBool cs d.enableUpnp
  | enableRelay => IsBool cs d.enableRelay
  | requestTimeout => cs = Nat.toDigits 10 d.requestTimeout.toNat
  | idleTimeout => cs = Nat.toDigits 10 d.idleTimeout.toNat

/-- **A spelled value is read as the entry**, and no other entry changes. -/
theorem read_spelled {d c : Config} {key : Option String} {f : Field} {cs ws rest : List Char}
    (h : f.Spelled d key cs)
    (hkey : f = .privateKey → keyOfOptional key = .ok d.privateKey) (hws : Spaces ws)
    (hrest : Ends rest) : f.read c (ws ++ (cs ++ rest)) = .ok (taking [f] d c, rest) := by
  cases f with
  | topics => simp [Field.read, reads_texts h hws hrest, ofRead, taking]
  | protocolName => simp [Field.read, reads_optional h hws hrest, ofRead, taking]
  | listenPort =>
    obtain rfl : cs = Nat.toDigits 10 d.listenPort.toNat := h
    have hread : readNatural UInt16.size "u16" _ = .ok (_, rest) :=
      reads_natural d.listenPort.toNat_lt (by decide) hws hrest
    simp [Field.read, hread, ofRead, taking]
  | bootstrapPeers => simp [Field.read, reads_texts h hws hrest, ofRead, taking]
  | privateKey =>
    have hkey := hkey rfl
    rw [Field.read, reads_optional h hws hrest]
    cases key with
    | none =>
      have hnone : d.privateKey = none := (Except.ok.inj hkey).symm
      simp [readKey, taking, hnone]
    | some text =>
      have hsome : keyOfText text = .ok d.privateKey := hkey
      simp [readKey, taking, hsome]
  | nodeName => simp [Field.read, reads_text h hws hrest, ofRead, taking]
  | localOnly | enableMdns | enableKad | enableUpnp | enableRelay =>
    simp [Field.read, reads_bool h hws hrest, ofRead, taking]
  | requestTimeout =>
    obtain rfl : cs = Nat.toDigits 10 d.requestTimeout.toNat := h
    have hread : readNatural UInt64.size "u64" _ = .ok (_, rest) :=
      reads_natural d.requestTimeout.toNat_lt (by decide) hws hrest
    simp [Field.read, hread, ofRead, taking]
  | idleTimeout =>
    obtain rfl : cs = Nat.toDigits 10 d.idleTimeout.toNat := h
    have hread : readNatural UInt64.size "u64" _ = .ok (_, rest) :=
      reads_natural d.idleTimeout.toNat_lt (by decide) hws hrest
    simp [Field.read, hread, ofRead, taking]

/-! ## The grammar -/

/-- What stands in front of a member: a comma, unless it is the first. -/
inductive Lead : Bool → List Char → Prop
  | first {ws : List Char} (hws : Spaces ws) : Lead true ws
  | next {ws after : List Char} (hws : Spaces ws) (hafter : Spaces after) :
      Lead false (ws ++ ',' :: after)

/-- The members of an object and its close, which hold the entries `fs` of `d` and things that are
no entries; `first` says that no members stand before them. -/
inductive Members (d : Config) (key : Option String) : Bool → List Field → List Char → Prop
  | close {ws : List Char} (first : Bool) (hws : Spaces ws) :
      Members d key first [] (ws ++ ['}'])
  | entry {first : Bool} {lead name before after value more : List Char} {f : Field}
      {fs : List Field} (hlead : Lead first lead) (hname : IsText name f.name)
      (hbefore : Spaces before) (hafter : Spaces after) (hvalue : f.Spelled d key value)
      (hmore : Members d key false fs more) :
      Members d key first (f :: fs)
        (lead ++ (name ++ (before ++ ':' :: (after ++ (value ++ more)))))
  | other {first : Bool} {lead name before after value more : List Char} {t : String}
      {fs : List Field} (hlead : Lead first lead) (hname : IsText name t)
      (hnone : ∀ f : Field, f.name ≠ t) (hbefore : Spaces before) (hafter : Spaces after)
      (hvalue : Form .value value) (hmore : Members d key false fs more) :
      Members d key first fs
        (lead ++ (name ++ (before ++ ':' :: (after ++ (value ++ more)))))

/-- **The texts of objects that hold the entries `fs` of a configuration.** -/
inductive Document (d : Config) (key : Option String) (fs : List Field) : List Char → Prop
  | mk {before members after : List Char} (hbefore : Spaces before)
      (hmembers : Members d key true fs members) (hafter : Spaces after) :
      Document d key fs (before ++ '{' :: (members ++ after))

/-! ## Reading members -/

variable {d : Config} {key : Option String} {fs : List Field}

theorem Field.ofName?_name (f : Field) : ofName? f.name = some f := by
  cases f <;> decide

theorem Field.ofName?_eq_none {t : String} (h : ∀ f : Field, f.name ≠ t) : ofName? t = none :=
  List.find?_eq_none.2 fun f _ hf => h f (beq_iff_eq.1 hf)

/-- The name of a member is found behind what leads to it. -/
theorem nextName_eq {first : Bool} {lead cs : List Char} {t : String} (hlead : Lead first lead)
    (hname : IsText cs t) (rest : List Char) :
    nextName first (lead ++ (cs ++ rest)) = .ok (some (t, rest)) := by
  obtain ⟨tail, htail, hscan⟩ := hname.scan rest
  have hread : readName tail = .ok (some (t, rest)) := by
    rw [readName, hscan]
    simp only [Except.map, String.ofList_toList]
  rw [htail]
  cases hlead with
  | first hws =>
    rw [nextName, skipSpace_spaces_cons hws (by decide)]
    simp [hread]
  | @next ws after hws hafter =>
    rw [List.append_assoc, List.cons_append, nextName, skipSpace_spaces_cons hws (by decide)]
    simp [skipSpace_spaces_cons hafter (show isSpace '"' = false by decide), hread]

theorem nextName_close (first : Bool) {ws : List Char} (hws : Spaces ws) (rest : List Char) :
    nextName first (ws ++ '}' :: rest) = .ok none := by
  rw [nextName, skipSpace_spaces_cons hws (by decide)]
  simp

theorem readColon_eq {ws : List Char} (hws : Spaces ws) (rest : List Char) :
    readColon (ws ++ ':' :: rest) = .ok rest := by
  rw [readColon, skipSpace_spaces_cons hws (by decide)]
  simp

theorem Lead.ends {lead : List Char} (h : Lead false lead) (rest : List Char) :
    Ends (lead ++ rest) := by
  cases h with
  | next hws =>
    rw [List.append_assoc]
    exact Ends.spaces_append hws (ends_cons (.inr (.inl rfl)))

theorem ends_close {ws : List Char} (hws : Spaces ws) (rest : List Char) :
    Ends (ws ++ ['}'] ++ rest) := by
  rw [List.append_assoc]
  exact Ends.spaces_append hws (ends_cons (.inr (.inr (.inr rfl))))

theorem Members.ends {cs : List Char} (h : Members d key false fs cs) (rest : List Char) :
    Ends (cs ++ rest) := by
  cases h with
  | close first hws => exact ends_close hws rest
  | entry h => rw [List.append_assoc]; exact h.ends _
  | other h => rw [List.append_assoc]; exact h.ends _

theorem member_append (lead name before after value more rest : List Char) :
    lead ++ (name ++ (before ++ ':' :: (after ++ (value ++ more)))) ++ rest =
      lead ++ (name ++ (before ++ ':' :: (after ++ (value ++ (more ++ rest))))) := by
  simp only [List.append_assoc, List.cons_append]

/-- **Members are read one after the other**, each in a round, up to the close of the object. -/
theorem readMembers_eq {first : Bool} {cs : List Char} (h : Members d key first fs cs)
    (seen : List Field) (c : Config) (hnodup : fs.Nodup) (hseen : ∀ f ∈ fs, f ∉ seen)
    (hkey : .privateKey ∈ fs → keyOfOptional key = .ok d.privateKey) (rest : List Char) :
    ∃ n ws, n ≤ cs.length ∧ Spaces ws ∧ ∀ fuel, readMembers (fuel + n) first seen c (cs ++ rest) =
      .ok (taking fs d c, ws ++ '}' :: rest) := by
  induction h generalizing seen c with
  | @close ws first hws =>
    refine ⟨1, ws, by rw [List.length_append, List.length_singleton]; omega, hws, fun fuel => ?_⟩
    rw [List.append_assoc, List.singleton_append, readMembers, nextName_close first hws,
      taking_nil]
  | @entry first lead name before after value more f fs hlead hname hbefore hafter hvalue hmore
      ih =>
    obtain ⟨hfresh, hnodup⟩ := List.nodup_cons.1 hnodup
    have hread := read_spelled (c := c) hvalue (fun hf => hkey (hf ▸ List.mem_cons_self)) hafter
      (hmore.ends rest)
    obtain ⟨n, ws, hn, hws, hrun⟩ := ih (f :: seen) (taking [f] d c) hnodup
      (fun g hg hmem => (List.mem_cons.1 hmem).elim (fun hgf => hfresh (hgf ▸ hg))
        (hseen g (List.mem_cons_of_mem f hg)))
      (fun hmem => hkey (List.mem_cons_of_mem f hmem))
    refine ⟨n + 1, ws, by simp only [List.length_append, List.length_cons]; omega, hws,
      fun fuel => ?_⟩
    rw [member_append, ← Nat.add_assoc, readMembers, nextName_eq hlead hname]
    simp only [readMember, Field.ofName?_name, if_neg (hseen f List.mem_cons_self),
      readColon_eq hbefore, hread]
    rw [hrun fuel, taking_cons f fs]
  | @other first lead name before after value more t fs hlead hname hnone hbefore hafter hvalue
      hmore ih =>
    obtain ⟨n, ws, hn, hws, hrun⟩ := ih seen c hnodup hseen hkey
    refine ⟨n + 1, ws, by simp only [List.length_append, List.length_cons]; omega, hws,
      fun fuel => ?_⟩
    rw [member_append, ← Nat.add_assoc, readMembers, nextName_eq hlead hname]
    simp only [readMember, Field.ofName?_eq_none hnone, readColon_eq hbefore,
      skipValue_eq hvalue hafter (hmore.ends rest)]
    exact hrun fuel

/-- **Loading a text gives the default with the entries that the text holds.** -/
theorem ofJson_document {text : String} (hdoc : Document d key fs text.toList)
    (hnodup : fs.Nodup) (hkey : .privateKey ∈ fs → keyOfOptional key = .ok d.privateKey) :
    ofJson text = .ok (taking fs d default) := by
  have hwhole : readWhole text.toList = .ok (taking fs d default) := by
    generalize text.toList = cs at hdoc
    obtain @⟨before, members, after, hbefore, hmembers, hafter⟩ := hdoc
    obtain ⟨n, ws, hn, hws, hrun⟩ := readMembers_eq hmembers [] default hnodup
      (fun f _ => List.not_mem_nil) hkey after
    have hfuel : n ≤ (members ++ after).length + 1 := by
      rw [List.length_append]
      omega
    have hmembersRead := hrun ((members ++ after).length + 1 - n)
    rw [Nat.sub_add_cancel hfuel] at hmembersRead
    have hobject : readObject (members ++ after) = .ok (taking fs d default, after) := by
      rw [readObject, hmembersRead]
      simp only [afterObject, skipSpace_spaces_cons hws (show isSpace '}' = false by decide)]
    rw [readWhole, readValue, skipSpace_spaces_cons hbefore (by decide)]
    simp [hobject, skipSpace_spaces hafter]
  rw [ofJson, hwhole]

end Config
end PeerNode
