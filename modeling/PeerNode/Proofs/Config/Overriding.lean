import PeerNode.Proofs.Config.Members
import PeerNode.Proofs.Json.Accepting
import Mathlib.Data.List.TakeWhile

/-!
# What loading an object replaces, and when it fails

`Members` describes the objects that are loaded; `Listed` describes any object at all, with the
name of each member and its value as it is spelled.  The values that an entry can have are those
of its kind (`Field.Fits`).  Reading a member whose value does not fit fails, since a reader
accepts of all values only those of its kind, and so does reading an entry that has been read
before; so an induction on the members shows of an object that was read that it holds no entry
twice and that all values fit (`readMembers_sound`).  Conversely such an object is one of
`Members`: the values are put together to one configuration entry by entry
(`Listed.exists_members`).  Hence the objects that are not loaded are known exactly.

* `Field.Fits`: the spellings of the values that an entry can have.
* `Listed`, `entriesOf`: the members of any object, and the entries among them.
* `ofJson_listed`: what has to hold of an object that is loaded.
* `loading_replaces_named_entries`: what is loaded, and what is not.
-/

namespace PeerNode
namespace Config

open Json

variable {d : Config} {key : Option String} {fs : List Field}

/-! ## Values that fit -/

/-- The spellings of the values that an entry can have. -/
def Field.Fits (cs : List Char) : Field → Prop
  | topics | bootstrapPeers => ∃ ts, IsTexts cs ts
  | protocolName => ∃ t, IsOptional cs t
  | listenPort => ∃ n, IsNatural UInt16.size cs n
  | privateKey => ∃ text key, IsOptional cs text ∧ keyOfOptional text = .ok key
  | nodeName => ∃ t, IsText cs t
  | localOnly | enableMdns | enableKad | enableUpnp | enableRelay => ∃ b, IsBool cs b
  | requestTimeout | idleTimeout => ∃ n, IsNatural UInt64.size cs n

/-- What fits is the spelling of the entry of some configuration. -/
theorem Field.Fits.exists_spelled {f : Field} {cs : List Char} (h : f.Fits cs) :
    ∃ (d : Config) (key : Option String), f.Spelled d key cs ∧
      (f = .privateKey → keyOfOptional key = .ok d.privateKey) := by
  have hother : ∀ {d : Config}, f ≠ .privateKey → f.Spelled d none cs →
      ∃ (d : Config) (key : Option String), f.Spelled d key cs ∧
        (f = .privateKey → keyOfOptional key = .ok d.privateKey) :=
    fun hne h => ⟨_, none, h, fun hf => absurd hf hne⟩
  cases f with
  | topics =>
    obtain ⟨ts, h⟩ := h
    exact hother (d := { topics := ts }) (by decide) h
  | protocolName =>
    obtain ⟨t, h⟩ := h
    exact hother (d := { protocolName := t }) (by decide) h
  | listenPort =>
    obtain ⟨n, hn, h⟩ := h
    refine hother (d := { listenPort := n.toUInt16 }) (by decide) ?_
    simpa only [Spelled, UInt16.toNat_ofNat_of_lt' hn] using h
  | bootstrapPeers =>
    obtain ⟨ts, h⟩ := h
    exact hother (d := { bootstrapPeers := ts }) (by decide) h
  | privateKey =>
    obtain ⟨text, key, h, hkey⟩ := h
    exact ⟨{ privateKey := key }, text, h, fun _ => hkey⟩
  | nodeName =>
    obtain ⟨t, h⟩ := h
    exact hother (d := { nodeName := t }) (by decide) h
  | localOnly =>
    obtain ⟨b, h⟩ := h
    exact hother (d := { localOnly := b }) (by decide) h
  | enableMdns =>
    obtain ⟨b, h⟩ := h
    exact hother (d := { enableMdns := b }) (by decide) h
  | enableKad =>
    obtain ⟨b, h⟩ := h
    exact hother (d := { enableKad := b }) (by decide) h
  | enableUpnp =>
    obtain ⟨b, h⟩ := h
    exact hother (d := { enableUpnp := b }) (by decide) h
  | enableRelay =>
    obtain ⟨b, h⟩ := h
    exact hother (d := { enableRelay := b }) (by decide) h
  | requestTimeout =>
    obtain ⟨n, hn, h⟩ := h
    refine hother (d := { requestTimeout := n.toUInt64 }) (by decide) ?_
    simpa only [Spelled, UInt64.toNat_ofNat_of_lt' hn] using h
  | idleTimeout =>
    obtain ⟨n, hn, h⟩ := h
    refine hother (d := { idleTimeout := n.toUInt64 }) (by decide) ?_
    simpa only [Spelled, UInt64.toNat_ofNat_of_lt' hn] using h

/-- The spelling of an entry is a value. -/
theorem Field.Spelled.form {f : Field} {cs : List Char} (h : f.Spelled d key cs) :
    Form .value cs := by
  cases f with
  | topics | bootstrapPeers => exact IsTexts.form h
  | protocolName | privateKey => exact IsOptional.form h
  | nodeName => exact IsText.form h
  | localOnly | enableMdns | enableKad | enableUpnp | enableRelay => exact IsBool.form h
  | listenPort =>
    have hport : IsNatural UInt16.size cs _ := ⟨d.listenPort.toNat_lt, h⟩
    exact hport.form
  | requestTimeout =>
    have hseconds : IsNatural UInt64.size cs _ := ⟨d.requestTimeout.toNat_lt, h⟩
    exact hseconds.form
  | idleTimeout =>
    have hseconds : IsNatural UInt64.size cs _ := ⟨d.idleTimeout.toNat_lt, h⟩
    exact hseconds.form

theorem ofRead_eq_ok {α : Type} {set : α → Config} {r : Except Fault (α × List Char)} {c : Config}
    {rest : List Char} (h : ofRead set r = .ok (c, rest)) : ∃ v, r = .ok (v, rest) := by
  cases r with
  | error fault => cases h
  | ok read =>
    cases h
    exact ⟨read.1, rfl⟩

/-- **A value that is read as an entry fits it**, and it is read to its end. -/
theorem Field.fits_of_read {c c' : Config} {f : Field} {ws value rest left : List Char}
    (hws : Spaces ws) (hvalue : Form .value value) (hrest : Ends rest)
    (h : f.read c (ws ++ (value ++ rest)) = .ok (c', left)) : f.Fits value ∧ left = rest := by
  have hkind : ∀ {α : Type} {set : α → Config} {read : List Char → Except Fault (α × List Char)}
      {Is : List Char → α → Prop}, AcceptsOnly read Is →
      ofRead set (read (ws ++ (value ++ rest))) = .ok (c', left) →
      (∃ v, Is value v) ∧ left = rest := by
    intro α set read Is hread h
    obtain ⟨v, hv⟩ := ofRead_eq_ok h
    obtain ⟨his, hleft⟩ := hread hws hvalue hrest hv
    exact ⟨⟨v, his⟩, hleft⟩
  cases f with
  | topics | bootstrapPeers => exact hkind acceptsOnly_texts h
  | protocolName => exact hkind acceptsOnly_optional h
  | listenPort => exact hkind (acceptsOnly_natural _ _) h
  | privateKey =>
    rw [Field.read] at h
    cases hread : readOptional (ws ++ (value ++ rest)) with
    | error fault =>
      rw [hread] at h
      cases h
    | ok read =>
      obtain ⟨text, left'⟩ := read
      obtain ⟨his, rfl⟩ := acceptsOnly_optional hws hvalue hrest hread
      rw [hread] at h
      cases text with
      | none =>
        cases h
        exact ⟨⟨none, none, his, rfl⟩, rfl⟩
      | some text =>
        rw [readKey] at h
        split at h
        · rename_i key hkey
          cases h
          exact ⟨⟨some text, key, his, hkey⟩, rfl⟩
        · cases h
  | nodeName => exact hkind acceptsOnly_text h
  | localOnly | enableMdns | enableKad | enableUpnp | enableRelay => exact hkind acceptsOnly_bool h
  | requestTimeout | idleTimeout => exact hkind (acceptsOnly_natural _ _) h

/-! ## Any object -/

/-- The members of an object, each with its name and the spelling of its value, and the close of
the object; `first` says that no members stand before them. -/
inductive Listed : Bool → List (String × List Char) → List Char → Prop
  | close {ws : List Char} (first : Bool) (hws : Spaces ws) : Listed first [] (ws ++ ['}'])
  | member {first : Bool} {lead name before after value more : List Char} {t : String}
      {ms : List (String × List Char)} (hlead : Lead first lead) (hname : IsText name t)
      (hbefore : Spaces before) (hafter : Spaces after) (hvalue : Form .value value)
      (hmore : Listed false ms more) :
      Listed first ((t, value) :: ms)
        (lead ++ (name ++ (before ++ ':' :: (after ++ (value ++ more)))))

/-- The entries that members have the names of, in order. -/
def entriesOf (ms : List (String × List Char)) : List Field :=
  ms.filterMap fun m => Field.ofName? m.1

theorem Field.name_of_ofName? {t : String} {f : Field} (h : ofName? t = some f) : f.name = t :=
  beq_iff_eq.1 (List.find?_some (p := fun f : Field => f.name == t) h)

theorem Field.name_ne_of_ofName? {t : String} (h : ofName? t = none) (f : Field) : f.name ≠ t := by
  rintro rfl
  rw [ofName?_name] at h
  cases h

theorem entriesOf_other {t : String} {value : List Char} {ms : List (String × List Char)}
    (h : Field.ofName? t = none) : entriesOf ((t, value) :: ms) = entriesOf ms :=
  List.filterMap_cons_none h

theorem entriesOf_entry {t : String} {value : List Char} {ms : List (String × List Char)}
    {f : Field} (h : Field.ofName? t = some f) :
    entriesOf ((t, value) :: ms) = f :: entriesOf ms :=
  List.filterMap_cons_some h

theorem Listed.ends {ms : List (String × List Char)} {cs : List Char} (h : Listed false ms cs)
    (rest : List Char) : Ends (cs ++ rest) := by
  cases h with
  | close first hws => exact ends_close hws rest
  | member hlead =>
    rw [List.append_assoc]
    exact hlead.ends _

/-- **A member that is read** holds no entry, or one that has not been read before and whose value
fits. -/
theorem readMember_sound {seen seen' : List Field} {c c' : Config} {t : String}
    {before after value rest left : List Char} (hbefore : Spaces before) (hafter : Spaces after)
    (hvalue : Form .value value) (hrest : Ends rest)
    (h : readMember seen c t (before ++ ':' :: (after ++ (value ++ rest))) =
      .ok (seen', c', left)) :
    left = rest ∧ (Field.ofName? t = none ∧ seen' = seen ∨
      ∃ f, Field.ofName? t = some f ∧ f ∉ seen ∧ seen' = f :: seen ∧ f.Fits value) := by
  unfold readMember at h
  rw [readColon_eq hbefore] at h
  split at h
  · rename_i hnone
    simp only [skipValue_eq hvalue hafter hrest] at h
    cases h
    exact ⟨rfl, .inl ⟨hnone, rfl⟩⟩
  · rename_i f hf
    split_ifs at h with hseen
    dsimp only at h
    split at h
    · cases h
    · rename_i hread
      cases h
      obtain ⟨hfits, rfl⟩ := Field.fits_of_read hafter hvalue hrest hread
      exact ⟨rfl, .inr ⟨f, hf, hseen, rfl, hfits⟩⟩

/-- **Of the members that are read, none holds an entry that another one holds**, and all values
fit. -/
theorem readMembers_sound {first : Bool} {ms : List (String × List Char)} {cs : List Char}
    (h : Listed first ms cs) {fuel : Nat} (hfuel : cs.length ≤ fuel) {seen : List Field}
    {c c' : Config} {rest left : List Char}
    (hread : readMembers fuel first seen c (cs ++ rest) = .ok (c', left)) :
    (entriesOf ms).Nodup ∧ (∀ f ∈ entriesOf ms, f ∉ seen) ∧
      (∀ (f : Field) (value : List Char), (f.name, value) ∈ ms → f.Fits value) ∧
      ∃ ws, Spaces ws ∧ left = ws ++ '}' :: rest := by
  induction h generalizing fuel seen c with
  | @close ws first hws =>
    rw [List.length_append, List.length_singleton] at hfuel
    obtain ⟨fuel, rfl⟩ := Nat.exists_eq_succ_of_ne_zero (n := fuel) (by omega)
    rw [List.append_assoc, List.singleton_append, readMembers, nextName_close first hws] at hread
    cases hread
    exact ⟨List.nodup_nil, fun f hf => absurd hf List.not_mem_nil,
      fun f value hf => absurd hf List.not_mem_nil, ws, hws, rfl⟩
  | @member first lead name before after value more t ms hlead hname hbefore hafter hvalue hmore
      ih =>
    simp only [List.length_append, List.length_cons] at hfuel
    obtain ⟨fuel, rfl⟩ := Nat.exists_eq_succ_of_ne_zero (n := fuel) (by omega)
    rw [member_append, readMembers, nextName_eq hlead hname] at hread
    dsimp only at hread
    split at hread
    · cases hread
    · rename_i hmember
      obtain ⟨rfl, ⟨hnone, rfl⟩ | ⟨f, hf, hseen, rfl, hfits⟩⟩ :=
        readMember_sound hbefore hafter hvalue (hmore.ends rest) hmember
      · obtain ⟨hnodup, hfresh, hall, hclose⟩ := ih (by omega) hread
        rw [entriesOf_other hnone]
        refine ⟨hnodup, hfresh, fun f v hmem => ?_, hclose⟩
        rcases List.mem_cons.1 hmem with heq | hmem
        · exact absurd (congrArg Prod.fst heq) (Field.name_ne_of_ofName? hnone f)
        · exact hall f v hmem
      · -- the members behind this one are read with its entry among those seen
        obtain ⟨hnodup, hfresh, hall, hclose⟩ := ih (by omega) hread
        rw [entriesOf_entry hf]
        refine ⟨List.nodup_cons.2 ⟨fun hmem => hfresh f hmem List.mem_cons_self, hnodup⟩, ?_,
          fun g v hmem => ?_, hclose⟩
        · rintro g hg hgseen
          rcases List.mem_cons.1 hg with rfl | hg
          · exact hseen hgseen
          · exact hfresh g hg (List.mem_cons_of_mem f hgseen)
        · rcases List.mem_cons.1 hmem with heq | hmem
          · cases heq
            rw [Field.ofName?_name] at hf
            cases hf
            exact hfits
          · exact hall g v hmem

/-- **An object that is loaded** holds no entry twice, its values fit, and nothing but
insignificant characters follows it. -/
theorem ofJson_listed {before members after : List Char} {ms : List (String × List Char)}
    {text : String} {c : Config} (hbefore : Spaces before) (hmembers : Listed true ms members)
    (htext : text.toList = before ++ '{' :: (members ++ after)) (h : ofJson text = .ok c) :
    (entriesOf ms).Nodup ∧
      (∀ (f : Field) (value : List Char), (f.name, value) ∈ ms → f.Fits value) ∧ Spaces after := by
  unfold ofJson readWhole at h
  rw [htext, readValue, skipSpace_spaces_cons hbefore (by decide)] at h
  simp only [if_true] at h
  unfold readObject at h
  cases hread : readMembers ((members ++ after).length + 1) true [] default (members ++ after) with
  | error r =>
    rw [hread] at h
    cases r <;> cases h
  | ok read =>
    obtain ⟨c', left⟩ := read
    have hfuel : members.length ≤ (members ++ after).length + 1 := by
      rw [List.length_append]
      omega
    obtain ⟨hnodup, -, hall, ws, hws, rfl⟩ := readMembers_sound hmembers hfuel hread
    refine ⟨hnodup, hall, ?_⟩
    have hclose : afterObject (ws ++ '}' :: after) = after := by
      simp only [afterObject, skipSpace_spaces_cons hws (show isSpace '}' = false by decide)]
    simp only [hread, hclose] at h
    split at h
    · rename_i hwhole
      split at hwhole
      · rename_i hnone
        exact fun e he => List.dropWhile_eq_nil_iff.1 hnone e he
      · cases hwhole
    · cases h

/-! ## Objects without faults -/

/-- Only the entries that occur matter for the members of an object. -/
theorem Members.congr {d' : Config} {key' : Option String} {first : Bool} {cs : List Char}
    (h : Members d key first fs cs)
    (hspelled : ∀ f ∈ fs, ∀ value, f.Spelled d key value → f.Spelled d' key' value) :
    Members d' key' first fs cs := by
  induction h with
  | close first hws => exact .close first hws
  | entry hlead hname hbefore hafter hvalue _ ih =>
    exact .entry hlead hname hbefore hafter (hspelled _ List.mem_cons_self _ hvalue)
      (ih fun f hf => hspelled f (List.mem_cons_of_mem _ hf))
  | other hlead hname hnone hbefore hafter hvalue _ ih =>
    exact .other hlead hname hnone hbefore hafter hvalue (ih hspelled)

/-- The spelling of an entry that is replaced, and those of the others. -/
theorem Field.spelled_taking {f g : Field} {d d' : Config} {key key' : Option String}
    {cs : List Char} :
    g.Spelled (taking [f] d' d) (if f = .privateKey then key' else key) cs ↔
      if g = f then g.Spelled d' key' cs else g.Spelled d key cs := by
  by_cases hgf : g = f
  · subst hgf
    rw [if_pos rfl]
    cases g <;> simp [Spelled, taking]
  · rw [if_neg hgf]
    cases g with
    | privateKey => simp [Spelled, Ne.symm hgf]
    | topics | protocolName | listenPort | bootstrapPeers | nodeName | localOnly | enableMdns
    | enableKad | enableUpnp | enableRelay | requestTimeout | idleTimeout =>
      simp [Spelled, taking, hgf]

/-- **Members that hold no entry twice and whose values fit hold the entries of some
configuration.** -/
theorem Listed.exists_members {first : Bool} {ms : List (String × List Char)} {cs : List Char}
    (h : Listed first ms cs) (hnodup : (entriesOf ms).Nodup)
    (hfits : ∀ (f : Field) (value : List Char), (f.name, value) ∈ ms → f.Fits value) :
    ∃ (d : Config) (key : Option String), Members d key first (entriesOf ms) cs ∧
      (.privateKey ∈ entriesOf ms → keyOfOptional key = .ok d.privateKey) := by
  induction h with
  | close first hws => exact ⟨default, none, .close first hws, fun hmem => nomatch hmem⟩
  | @member first lead name before after value more t ms hlead hname hbefore hafter hvalue hmore
      ih =>
    have hrest : ∀ (f : Field) (v : List Char), (f.name, v) ∈ ms → f.Fits v :=
      fun f v hmem => hfits f v (List.mem_cons_of_mem _ hmem)
    cases hf : Field.ofName? t with
    | none =>
      rw [entriesOf_other hf] at hnodup ⊢
      obtain ⟨d, key, hmembers, hkey⟩ := ih hnodup hrest
      exact ⟨d, key, .other hlead hname (Field.name_ne_of_ofName? hf) hbefore hafter hvalue
        hmembers, hkey⟩
    | some f =>
      obtain rfl := Field.name_of_ofName? hf
      rw [entriesOf_entry hf] at hnodup ⊢
      obtain ⟨hfresh, hnodup⟩ := List.nodup_cons.1 hnodup
      obtain ⟨d, key, hmembers, hkey⟩ := ih hnodup hrest
      obtain ⟨d', key', hspelled, hkey'⟩ := (hfits f value List.mem_cons_self).exists_spelled
      -- the entry of this member is taken from `d'`, all others from `d`
      refine ⟨taking [f] d' d, if f = .privateKey then key' else key,
        .entry hlead hname hbefore hafter ?_ (hmembers.congr fun g hg v hv => ?_), fun hmem => ?_⟩
      · exact Field.spelled_taking.2 (by rwa [if_pos rfl])
      · have hgf : g ≠ f := by
          rintro rfl
          exact hfresh hg
        exact Field.spelled_taking.2 (by rwa [if_neg hgf])
      · by_cases hprivate : f = .privateKey
        · rw [if_pos hprivate, hkey' hprivate]
          simp [taking, hprivate]
        · have hmem' := (List.mem_cons.1 hmem).resolve_left (Ne.symm hprivate)
          rw [if_neg hprivate, hkey hmem']
          simp [taking, Ne.symm hprivate]

theorem ofJson_eq_ok_or_error (text : String) :
    (∃ c, ofJson text = .ok c) ∨ ∃ reason, ofJson text = .error (.invalidConfig reason) := by
  unfold ofJson
  split
  · exact .inl ⟨_, rfl⟩
  · exact .inr ⟨_, rfl⟩

/-- **Exactly the objects with a fault of one of three kinds are not loaded**: an entry that is
held twice, a value that does not fit, and something behind the object. -/
theorem ofJson_eq_error_iff {before members after : List Char} {ms : List (String × List Char)}
    {text : String} (hbefore : Spaces before) (hmembers : Listed true ms members)
    (htext : text.toList = before ++ '{' :: (members ++ after)) :
    (∃ reason, ofJson text = .error (.invalidConfig reason)) ↔
      ¬(entriesOf ms).Nodup ∨
        (∃ (f : Field) (value : List Char), (f.name, value) ∈ ms ∧ ¬f.Fits value) ∨
        ¬Spaces after := by
  constructor
  · rintro ⟨reason, herror⟩
    by_contra hgood
    -- without a fault the object is that of some configuration, and so it is loaded
    obtain ⟨hnodup, hbad⟩ := not_or.1 hgood
    obtain ⟨hfits, hafter⟩ := not_or.1 hbad
    obtain ⟨d, key, hmem, hkey⟩ := hmembers.exists_members (not_not.1 hnodup)
      fun f value hv => by_contra fun hnot => hfits ⟨f, value, hv, hnot⟩
    have hdoc : Document d key (entriesOf ms) text.toList := by
      rw [htext]
      exact ⟨hbefore, hmem, not_not.1 hafter⟩
    rw [ofJson_document hdoc (not_not.1 hnodup) hkey] at herror
    cases herror
  · intro hfault
    refine (ofJson_eq_ok_or_error text).resolve_left ?_
    rintro ⟨c, hc⟩
    obtain ⟨hnodup, hfits, hafter⟩ := ofJson_listed hbefore hmembers htext hc
    rcases hfault with hdup | ⟨f, value, hv, hnot⟩ | hbehind
    · exact hdup hnodup
    · exact hnot (hfits f value hv)
    · exact hbehind hafter

theorem taking_perm {fs' : List Field} (h : fs'.Perm fs) (d c : Config) :
    taking fs' d c = taking fs d c := by
  simp only [taking, h.mem_iff]

/-- **Loading an object replaces exactly the entries that it names.**  Whatever stands between its
parts, in which order its members are, and whatever members with other names it has, the
configuration is the default with these entries.  Of all objects, those are not loaded that hold
an entry twice or a value that does not fit its entry, or that something follows. -/
theorem loading_replaces_named_entries :
    (∀ (d : Config) (key : Option String) (fs : List Field) (text : String),
      Document d key fs text.toList → fs.Nodup →
      (.privateKey ∈ fs → keyOfOptional key = .ok d.privateKey) →
        ofJson text = .ok (taking fs d default) ∧
        ∀ (fs' : List Field) (text' : String), fs'.Perm fs → Document d key fs' text'.toList →
          ofJson text' = ofJson text) ∧
    ∀ (before members after : List Char) (ms : List (String × List Char)) (text : String),
      Spaces before → Listed true ms members →
      text.toList = before ++ '{' :: (members ++ after) →
        ((∃ reason, ofJson text = .error (.invalidConfig reason)) ↔
          ¬(entriesOf ms).Nodup ∨
            (∃ (f : Field) (value : List Char), (f.name, value) ∈ ms ∧ ¬f.Fits value) ∨
            ¬Spaces after) := by
  refine ⟨fun d key fs text hdoc hnodup hkey => ?_,
    fun _ _ _ _ _ hbefore hmembers htext => ofJson_eq_error_iff hbefore hmembers htext⟩
  have hload := ofJson_document hdoc hnodup hkey
  refine ⟨hload, fun fs' text' hperm hdoc' => ?_⟩
  rw [hload, ofJson_document hdoc' (hperm.nodup_iff.2 hnodup) fun h => hkey (hperm.mem_iff.1 h),
    taking_perm hperm]

/-- The greatest port, with and without a member of another name and in two orders; and the ways
to fail: a port that is too great, an entry given twice, and something behind the object. -/
theorem loading_replaces_named_entries_port :
    ofJson "\x7b\"x\":[1],\"listen_port\":65535,\"local_only\":true\x7d" =
      .ok { listenPort := 65535, localOnly := true } ∧
    ofJson " \x7b\"local_only\":true ,\"listen_port\":65535\x7d" =
      ofJson "\x7b\"x\":[1],\"listen_port\":65535,\"local_only\":true\x7d" ∧
    (∃ reason, ofJson "\x7b\"listen_port\":65536\x7d" = .error (.invalidConfig reason)) ∧
    (∃ reason, ofJson "\x7b\"local_only\":true,\"local_only\":true\x7d" =
      .error (.invalidConfig reason)) ∧
    ∃ reason, ofJson "\x7b\x7d," = .error (.invalidConfig reason) := by
  have hname := isText_writeText
  have hnil := spaces_nil
  have hblank : Spaces [' '] := spaces_cons.2 ⟨rfl, hnil⟩
  have hone : Form .value ('[' :: ([] ++ ([] ++ ([] ++ (Nat.toDigits 10 1 ++ ([] ++ [']'])))))) :=
    .container .list (.first hnil .list hnil (.scalar (.positive (isMagnitude_toDigits 1)))
      (.close .list hnil))
  have hother : ∀ f : Field, f.name ≠ "x" := fun f => by cases f <;> decide
  let d : Config := { listenPort := 65535, localOnly := true }
  have hfirst : Members d none true [.listenPort, .localOnly] _ :=
    .other (.first hnil) (hname "x") hother hnil hnil hone
      (.entry (.next hnil hnil) (hname _) hnil hnil rfl
        (.entry (.next hnil hnil) (hname _) hnil hnil .true (.close false hnil)))
  have hsecond : Members d none true [.localOnly, .listenPort] _ :=
    .entry (.first hnil) (hname _) hnil hnil .true
      (.entry (.next hblank hnil) (hname _) hnil hnil rfl (.close false hnil))
  obtain ⟨hload, hfail⟩ := loading_replaces_named_entries
  have hdoc : Document d none [.listenPort, .localOnly]
      "\x7b\"x\":[1],\"listen_port\":65535,\"local_only\":true\x7d".toList :=
    cast (congrArg _ (by decide)) (Document.mk hnil hfirst hnil)
  have hdoc' : Document d none [.localOnly, .listenPort]
      " \x7b\"local_only\":true ,\"listen_port\":65535\x7d".toList :=
    cast (congrArg _ (by decide)) (Document.mk hblank hsecond hnil)
  obtain ⟨hport, hsame⟩ := hload d none _ _ hdoc (by decide) (by decide)
  have hwide : Listed true [("listen_port", Nat.toDigits 10 65536)] _ :=
    .member (.first hnil) (hname _) hnil hnil (.scalar (.positive (isMagnitude_toDigits _)))
      (.close false hnil)
  have htrue : Form .value "true".toList := .scalar .true
  have htwice : Listed true [("local_only", "true".toList), ("local_only", "true".toList)] _ :=
    .member (.first hnil) (hname _) hnil hnil htrue
      (.member (.next hnil hnil) (hname _) hnil hnil htrue (.close false hnil))
  have hmisfit : ¬Field.listenPort.Fits (Nat.toDigits 10 65536) := by
    rintro ⟨n, hn, h⟩
    have hvalue := congrArg (Nat.ofDigitChars 10 · 0) h
    simp only [Nat.ofDigitChars_ten_toDigits] at hvalue
    subst hvalue
    exact absurd hn (by decide)
  refine ⟨hport, hsame _ _ (by decide) hdoc', ?_, ?_, ?_⟩
  · refine (hfail [] _ [] _ _ hnil hwide (by decide)).2 (.inr (.inl ?_))
    exact ⟨.listenPort, _, List.mem_cons_self, hmisfit⟩
  · exact (hfail [] _ [] _ _ hnil htwice (by decide)).2 (.inl (by decide))
  · refine (hfail [] _ [','] _ _ hnil (.close true hnil) (by decide)).2 (.inr (.inr ?_))
    exact fun h => absurd (spaces_cons.1 h).1 (by decide)

end Config
end PeerNode
