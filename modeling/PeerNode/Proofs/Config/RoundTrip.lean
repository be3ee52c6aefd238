import PeerNode.Proofs.Config.Members
import PeerNode.Proofs.Key.Text

/-!
# What is stored is loaded

The text of a configuration is an object that holds all of its entries, in the shortest of their
spellings (`document_toJson`), so loading it gives them back.  The one thing that has no text of
its own is a key without octets: its text is blank, and a blank text stands for no key.  Such a
key cannot come from a text, either, so configurations that were loaded, or made from the default
by the changes that a configuration offers, are not concerned (`Made.key_ne_nil`).

* `document_toJson`: a configuration is written in the grammar of its texts.
* `ofJson_keeps`: what reading each entry keeps, loading keeps.
* `Made`: the configurations that come from texts and changes.
* `json_round_trip`: storing and loading.
-/

namespace PeerNode
namespace Config

open Json

/-! ## Writing -/

theorem write_natural (n : Nat) : (Value.number (.natural n)).write = Nat.toDigits 10 n := by
  rw [Value.write, Number.render, Nat.toString_eq_ofList_toDigits, String.toList_ofList]

theorem isOptional_write (t : Option String) : IsOptional (Field.optionalValue t).write t := by
  cases t with
  | none =>
    rw [Field.optionalValue, Value.write]
    exact .none
  | some t =>
    rw [Field.optionalValue, Value.write]
    exact .some (isText_writeText t)

theorem isBool_write (b : Bool) : IsBool (Value.bool b).write b := by
  cases b
  · rw [Value.write]
    exact .false
  · rw [Value.write]
    exact .true

/-- A configuration without the one key that has no text. -/
def withoutEmptyKey (c : Config) : Config :=
  { c with privateKey := c.privateKey.filter fun key => !key.isEmpty }

/-- **The value of an entry is written in one of its spellings.** -/
theorem spelled_value (c : Config) (f : Field) :
    f.Spelled c.withoutEmptyKey (c.privateKey.map keyText) (f.value c).write := by
  cases f with
  | topics => exact isTexts_write c.topics
  | protocolName => exact isOptional_write c.protocolName
  | listenPort => exact write_natural c.listenPort.toNat
  | bootstrapPeers => exact isTexts_write c.bootstrapPeers
  | privateKey => exact isOptional_write (c.privateKey.map keyText)
  | nodeName =>
    rw [Field.value, Value.write]
    exact isText_writeText c.nodeName
  | localOnly => exact isBool_write c.localOnly
  | enableMdns => exact isBool_write c.enableMdns
  | enableKad => exact isBool_write c.enableKad
  | enableUpnp => exact isBool_write c.enableUpnp
  | enableRelay => exact isBool_write c.enableRelay
  | requestTimeout => exact write_natural c.requestTimeout.toNat
  | idleTimeout => exact write_natural c.idleTimeout.toNat

/-- A member of the object that a configuration is written as. -/
def writeEntry (c : Config) (f : Field) : List Char := writeText f.name ++ ':' :: (f.value c).write

/-- The members of an object are written one after the other, with commas between them. -/
theorem writeMembers_entries (c : Config) (f : Field) (fs : List Field) :
    writeMembers ((f :: fs).map fun f => (f.name, f.value c)) =
      writeEntry c f ++ fs.flatMap fun f => ',' :: writeEntry c f := by
  induction fs generalizing f with
  | nil => simp [writeMembers, writeEntry]
  | cons g gs ih =>
    have hmore := ih g
    rw [List.map_cons] at hmore
    rw [List.map_cons, List.map_cons, writeMembers, hmore]
    · simp [writeEntry]
    · simp

theorem members_write (c : Config) (fs : List Field) :
    Members c.withoutEmptyKey (c.privateKey.map keyText) false fs
      ((fs.flatMap fun f => ',' :: writeEntry c f) ++ ['}']) := by
  induction fs with
  | nil => exact .close false spaces_nil
  | cons f fs ih =>
    have h := Members.entry (.next spaces_nil spaces_nil) (isText_writeText f.name) spaces_nil
      spaces_nil (spelled_value c f) ih
    simpa [writeEntry] using h

/-- **A configuration is written in the grammar of its texts**, with all entries. -/
theorem document_toJson (c : Config) :
    Document c.withoutEmptyKey (c.privateKey.map keyText) Field.all c.toJson.toList := by
  obtain ⟨f, fs, hall⟩ : ∃ f fs, Field.all = f :: fs := ⟨_, _, rfl⟩
  have hmembers := Members.entry (.first spaces_nil) (isText_writeText f.name) spaces_nil
    spaces_nil (spelled_value c f) (members_write c fs)
  have h := Document.mk spaces_nil hmembers spaces_nil
  rw [toJson, Value.render, String.toList_ofList, Value.write, hall, writeMembers_entries]
  simpa [writeEntry] using h

/-! ## Loading what was written -/

theorem keyOfOptional_write (c : Config) :
    keyOfOptional (c.privateKey.map keyText) = .ok c.withoutEmptyKey.privateKey := by
  unfold withoutEmptyKey
  cases c.privateKey with
  | none => rfl
  | some bs =>
    rw [Option.map_some, keyOfOptional, keyOfText_keyText]
    cases bs <;> rfl

/-- **What was stored is loaded.** -/
theorem ofJson_toJson (c : Config) : ofJson c.toJson = .ok c.withoutEmptyKey := by
  have h := ofJson_document (document_toJson c) (by decide) fun _ => keyOfOptional_write c
  rwa [taking_all] at h

theorem withoutEmptyKey_eq (c : Config) :
    c.withoutEmptyKey = if c.privateKey = some [] then { c with privateKey := none } else c := by
  obtain ⟨_, _, _, _, key, _, _, _, _, _, _, _, _⟩ := c
  rcases key with _ | (_ | _) <;> simp [withoutEmptyKey]

/-! ## What loading keeps -/

section Keeping

variable {P : Config → Prop}
  (hread : ∀ {c c' : Config} {f : Field} {cs rest : List Char}, P c →
    f.read c cs = .ok (c', rest) → P c')

include hread

theorem readMember_keeps {seen seen' : List Field} {c c' : Config} {name : String}
    {cs rest : List Char} (hc : P c)
    (h : readMember seen c name cs = .ok (seen', c', rest)) : P c' := by
  unfold readMember at h
  split at h
  · split at h
    · cases h
    · split at h
      · cases h
      · cases h
        exact hc
  · split at h
    · cases h
    · split at h
      · cases h
      · split at h
        · cases h
        · rename_i hfield
          cases h
          exact hread hc hfield

theorem readMembers_keeps {fuel : Nat} {first : Bool} {seen : List Field} {c c' : Config}
    {cs rest : List Char} (hc : P c) (h : readMembers fuel first seen c cs = .ok (c', rest)) : P c' := by
  induction fuel generalizing first seen c cs with
  | zero =>
    cases h
    exact hc
  | succ fuel ih =>
    rw [readMembers] at h
    split at h
    · cases h
    · cases h
      exact hc
    · split at h
      · cases h
      · rename_i hmember
        exact ih (readMember_keeps hread hc hmember) h

theorem readElements_keeps {first : Bool} {fs : List Field} {c c' : Config} {cs rest : List Char}
    (hc : P c) (h : readElements first fs c cs = .ok (c', rest)) : P c' := by
  induction fs generalizing first c cs with
  | nil =>
    cases h
    exact hc
  | cons f fs ih =>
    rw [readElements] at h
    split at h
    · cases h
    · cases h
      exact hc
    · split at h
      · cases h
      · rename_i hfield
        exact ih (hread hc hfield) h

/-- **What the default has and reading each entry keeps, every loaded configuration has**, be it
loaded from an object or from a list. -/
theorem ofJson_keeps (hdefault : P default) {text : String} {c : Config}
    (h : ofJson text = .ok c) : P c := by
  have hobject : ∀ {cs rest : List Char} {c : Config}, readObject cs = .ok (c, rest) → P c := by
    intro cs rest c h
    unfold readObject at h
    split at h
    · rename_i hmembers
      cases h
      exact readMembers_keeps hread hdefault hmembers
    · cases h
    · cases h
  have hlist : ∀ {cs rest : List Char} {c : Config}, readList cs = .ok (c, rest) → P c := by
    intro cs rest c h
    unfold readList at h
    split at h
    · rename_i helements
      split at h
      · cases h
      · cases h
        exact readElements_keeps hread hdefault helements
    · cases h
    · cases h
  have hvalue : ∀ {cs rest : List Char} {c : Config}, readValue cs = .ok (c, rest) → P c := by
    intro cs rest c h
    unfold readValue at h
    split at h
    · cases h
    · split at h
      · exact hobject h
      · split at h
        · exact hlist h
        · cases h
  unfold ofJson readWhole at h
  split at h
  · rename_i hwhole
    cases h
    split at hwhole
    · cases hwhole
    · rename_i hread
      split at hwhole
      · cases hwhole
        exact hvalue hread
      · cases hwhole
  · cases h

end Keeping

/-! ## Keys without octets -/

/-- Only the entry of the key sets the key, and not to one without octets. -/
theorem read_key_ne_nil {c c' : Config} {f : Field} {cs rest : List Char}
    (hc : c.privateKey ≠ some []) (h : f.read c cs = .ok (c', rest)) :
    c'.privateKey ≠ some [] := by
  have hother : ∀ {α : Type} {set : α → Config} {r : Except Fault (α × List Char)},
      ofRead set r = .ok (c', rest) → (∀ v, (set v).privateKey = c.privateKey) →
      c'.privateKey ≠ some [] := by
    intro α set r hr hset
    cases r with
    | error fault => cases hr
    | ok read =>
      cases hr
      rw [hset]
      exact hc
  cases f with
  | privateKey =>
    rw [Field.read] at h
    unfold readKey at h
    split at h
    · cases h
    · cases h
      exact (Option.some_ne_none []).symm
    · split at h
      · rename_i hkey
        cases h
        exact ne_nil_of_keyOfText hkey
      · cases h
  | topics | protocolName | listenPort | bootstrapPeers | nodeName | localOnly | enableMdns
  | enableKad | enableUpnp | enableRelay | requestTimeout | idleTimeout =>
    rw [Field.read] at h
    exact hother h fun _ => rfl

theorem ofJson_key_ne_nil {text : String} {c : Config} (h : ofJson text = .ok c) :
    c.privateKey ≠ some [] :=
  ofJson_keeps (P := fun c => c.privateKey ≠ some []) read_key_ne_nil (by decide) h

theorem withKeyText_key_ne_nil {c c' : Config} {text : String}
    (h : c.withKeyText text = .ok c') : c'.privateKey ≠ some [] := by
  unfold withKeyText at h
  split at h
  · rename_i hkey
    cases h
    exact ne_nil_of_keyOfText hkey
  · cases h

/-- The configurations that come from texts, and from the default and these by the changes that a
configuration offers. -/
inductive Made : Config → Prop
  | default : Made default
  | topic (topic : String) : Made (ofTopic topic)
  | json {text : String} {c : Config} (h : ofJson text = .ok c) : Made c
  | protocol {c : Config} (h : Made c) (name : String) : Made (c.withProtocol name)
  | bundle {c : Config} (h : Made c) (bundle : String) : Made (c.withBundle bundle)
  | key {c c' : Config} {text : String} (h : Made c) (hkey : c.withKeyText text = .ok c') : Made c'

/-- None of them has a key without octets. -/
theorem Made.key_ne_nil {c : Config} (h : Made c) : c.privateKey ≠ some [] := by
  induction h with
  | default => decide
  | topic topic => exact fun hnone => nomatch hnone
  | json h => exact ofJson_key_ne_nil h
  | protocol _ name ih => exact ih
  | bundle _ bundle ih => exact ih
  | key _ hkey _ => exact withKeyText_key_ne_nil hkey

/-- **Storing a configuration and loading it gives it back**, whatever texts and numbers it holds.
Only a key without octets is lost, which no configuration has that was loaded or had its key set
from a text; so what was loaded, or made from the default, comes back as it is. -/
theorem json_round_trip :
    (∀ c : Config, ofJson c.toJson =
      .ok (if c.privateKey = some [] then { c with privateKey := none } else c)) ∧
    (∀ (text : String) (c : Config), ofJson text = .ok c → c.privateKey ≠ some []) ∧
    (∀ (c c' : Config) (text : String), c.withKeyText text = .ok c' → c'.privateKey ≠ some []) ∧
    ∀ c : Config, Made c → ofJson c.toJson = .ok c := by
  have hall : ∀ c : Config, ofJson c.toJson =
      .ok (if c.privateKey = some [] then { c with privateKey := none } else c) := by
    intro c
    rw [ofJson_toJson, withoutEmptyKey_eq]
  refine ⟨hall, fun _ _ h => ofJson_key_ne_nil h, fun _ _ _ h => withKeyText_key_ne_nil h,
    fun c hc => ?_⟩
  rw [hall, if_neg hc.key_ne_nil]

/-- Said of texts with characters of every kind and the greatest numbers, with the key that is
lost and with one that comes from a text. -/
theorem json_round_trip_escapes :
    ofJson (toJson
        { topics := ["\"\\/\n\x00\u00e9\u2028", ""], listenPort := 65535, privateKey := some [],
          idleTimeout := 18446744073709551615 }) =
      .ok
        { topics := ["\"\\/\n\x00\u00e9\u2028", ""], listenPort := 65535, privateKey := none,
          idleTimeout := 18446744073709551615 } ∧
    (default.withProtocol "/a\x1f").withKeyText " AQ==\n" =
      .ok { protocolName := some "/a\x1f", privateKey := some [1] } ∧
    (some [1] : Option Bytes) ≠ some [] ∧
    ofJson (toJson { protocolName := some "/a\x1f", privateKey := some [1] }) =
      .ok { protocolName := some "/a\x1f", privateKey := some [1] } := by
  have hkey : (default.withProtocol "/a\x1f").withKeyText " AQ==\n" =
      .ok { protocolName := some "/a\x1f", privateKey := some [1] } := by
    have hread : readKeyText " AQ==\n" = .ok [1] := readKeyText_eq_ok_iff.2 (by decide)
    rw [withKeyText, keyOfText_of_read hread]
    rfl
  obtain ⟨hstored, hloaded, hset, hmade⟩ := json_round_trip
  have hback := hmade _ (.key (.protocol .default "/a\x1f") hkey)
  exact ⟨hstored _, hkey, (hset _ _ _ hkey : _), hback⟩

end Config
end PeerNode
