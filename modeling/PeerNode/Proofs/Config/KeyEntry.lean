import PeerNode.Proofs.Config.Overriding
import PeerNode.Proofs.Key.Text

/-!
# The private key of a configuration as text

A private key enters a configuration as text in two ways: it is set, or it is the entry of an
object that is loaded.  In an object the text is spelled, and a spelling spells one text only
(`IsOptional.unique`), so both ways come down to the key that the text stands for.  If it stands
for one, the object is loaded with it (`ofJson_key`).  If it does not, the value of the entry does
not fit, and the object fails to be loaded whatever else it holds (`ofJson_no_key`).

* `Members.listed`: the members of a configuration among those of any object.
* `key_texts_agree`: both ways give the same key or fail, and which texts stand for which octets.
-/

namespace PeerNode

theorem readKeyText_eq_error {s : String} {e : NodeError} (h : readKeyText s = .error e) :
    ∃ reason, e = .invalidKey reason := by
  unfold readKeyText at h
  split at h
  · cases h
  · cases h
    exact ⟨_, rfl⟩

namespace Config

open Json

variable {d : Config} {key : Option String} {fs : List Field}

theorem keyOfText_eq_error {s : String} {e : NodeError} (h : keyOfText s = .error e) :
    ∃ reason, e = .invalidKey reason := by
  unfold keyOfText at h
  split at h
  · cases h
  · split at h
    · cases h
    · rename_i hread
      cases h
      exact readKeyText_eq_error hread

theorem keyOfText_eq_none_iff {s : String} : keyOfText s = .ok none ↔ Text.allBlank s = true := by
  unfold keyOfText
  split
  · rename_i hblank
    exact iff_of_true rfl hblank
  · rename_i hblank
    refine iff_of_false ?_ hblank
    split <;> exact fun h => nomatch h

/-- The members that hold the entries of a configuration are members like those of any object, and
each of the entries is the value of one. -/
theorem Members.listed {first : Bool} {cs : List Char} (h : Members d key first fs cs) :
    ∃ ms, Listed first ms cs ∧
      ∀ f ∈ fs, ∃ value, (f.name, value) ∈ ms ∧ f.Spelled d key value := by
  induction h with
  | close first hws => exact ⟨[], .close first hws, fun f hf => absurd hf List.not_mem_nil⟩
  | @entry first lead name before after value more f fs hlead hname hbefore hafter hvalue _ ih =>
    obtain ⟨ms, hlisted, hall⟩ := ih
    refine ⟨_, .member hlead hname hbefore hafter hvalue.form hlisted, fun g hg => ?_⟩
    rcases List.mem_cons.1 hg with rfl | hg
    · exact ⟨value, List.mem_cons_self, hvalue⟩
    · obtain ⟨v, hv, hspelled⟩ := hall g hg
      exact ⟨v, List.mem_cons_of_mem _ hv, hspelled⟩
  | other hlead hname _ hbefore hafter hvalue _ ih =>
    obtain ⟨ms, hlisted, hall⟩ := ih
    refine ⟨_, .member hlead hname hbefore hafter hvalue hlisted, fun g hg => ?_⟩
    obtain ⟨v, hv, hspelled⟩ := hall g hg
    exact ⟨v, List.mem_cons_of_mem _ hv, hspelled⟩

/-- **An object whose key text stands for a key is loaded with this key.** -/
theorem ofJson_key {t text : String} {k : Option Bytes} (hdoc : Document d (some t) fs text.toList)
    (hnodup : fs.Nodup) (hmem : .privateKey ∈ fs) (hkey : keyOfText t = .ok k) :
    ofJson text = .ok { taking fs d default with privateKey := k } := by
  have hdoc' : Document { d with privateKey := k } (some t) fs text.toList := by
    generalize text.toList = cs at hdoc
    obtain ⟨hbefore, hmembers, hafter⟩ := hdoc
    exact ⟨hbefore, hmembers.congr fun f _ value hvalue => by cases f <;> exact hvalue, hafter⟩
  rw [ofJson_document hdoc' hnodup fun _ => hkey]
  simp [taking, hmem]

/-- **An object whose key text stands for no key is not loaded.** -/
theorem ofJson_no_key {t text : String} {e : NodeError}
    (hdoc : Document d (some t) fs text.toList) (hmem : .privateKey ∈ fs)
    (hkey : keyOfText t = .error e) :
    ∃ reason, ofJson text = .error (.invalidConfig reason) := by
  generalize htext : text.toList = cs at hdoc
  obtain ⟨hbefore, hmembers, hafter⟩ := hdoc
  obtain ⟨ms, hlisted, hall⟩ := hmembers.listed
  obtain ⟨value, hvalue, hspelled⟩ := hall _ hmem
  refine (ofJson_eq_error_iff hbefore hlisted htext).2 (.inr (.inl ⟨_, value, hvalue, ?_⟩))
  rintro ⟨t', k, hspelled', hkey'⟩
  rw [← hspelled.unique hspelled'] at hkey'
  rw [show keyOfOptional (some t) = .error e from hkey] at hkey'
  cases hkey'

/-- **Both ways by which a key enters as text agree.**  Setting the key of a configuration to a
text and loading an object with this text as its key both give the key that the text stands for
and leave all else as it is, or they both fail; a blank text stands for the absence of a key.
Octets are read of a text exactly if it is their text, with blank characters around it at most,
and of every other text reading them fails. -/
theorem key_texts_agree :
    (∀ (t : String) (c d : Config) (fs : List Field) (text : String),
      Document d (some t) fs text.toList → fs.Nodup → .privateKey ∈ fs →
        ((∃ key, c.withKeyText t = .ok { c with privateKey := key } ∧
            ofJson text = .ok { taking fs d default with privateKey := key }) ∨
          ∃ e e', c.withKeyText t = .error (.invalidKey e) ∧
            ofJson text = .error (.invalidConfig e')) ∧
        (Text.allBlank t = true →
          c.withKeyText t = .ok { c with privateKey := none } ∧
          ofJson text = .ok { taking fs d default with privateKey := none })) ∧
    (∀ (t : String) (bs : Bytes), readKeyText t = .ok bs ↔ Text.trim t = keyText bs) ∧
    ∀ t : String, (∀ bs, Text.trim t ≠ keyText bs) →
      ∃ e, readKeyText t = .error (.invalidKey e) := by
  refine ⟨fun t c d fs text hdoc hnodup hmem => ?_, fun t bs => readKeyText_eq_ok_iff,
    fun t hother => ?_⟩
  · have hset : ∀ {key}, keyOfText t = .ok key →
        c.withKeyText t = .ok { c with privateKey := key } ∧
        ofJson text = .ok { taking fs d default with privateKey := key } := fun {key} hkey =>
      ⟨by rw [withKeyText, hkey], ofJson_key hdoc hnodup hmem hkey⟩
    refine ⟨?_, fun hblank => hset (keyOfText_eq_none_iff.2 hblank)⟩
    cases hkey : keyOfText t with
    | ok key => exact .inl ⟨key, hset hkey⟩
    | error e =>
      obtain ⟨reason, rfl⟩ := keyOfText_eq_error hkey
      obtain ⟨reason', hload⟩ := ofJson_no_key hdoc hmem hkey
      exact .inr ⟨reason, reason', by rw [withKeyText, hkey], hload⟩
  · cases hread : readKeyText t with
    | ok bs => exact absurd (readKeyText_eq_ok_iff.1 hread) (hother bs)
    | error e =>
      obtain ⟨reason, rfl⟩ := readKeyText_eq_error hread
      exact ⟨reason, rfl⟩

/-- A key with blank characters around it, a text with a bit too many set, and a blank text. -/
theorem key_texts_agree_padded :
    (default.withKeyText " AQ==\n" = .ok { privateKey := some [1] } ∧
      ofJson "\x7b\"private_key\":\" AQ==\\n\"\x7d" = .ok { privateKey := some [1] }) ∧
    ((∃ e, default.withKeyText "AR==" = .error (.invalidKey e)) ∧
      ∃ e, ofJson "\x7b\"private_key\":\"AR==\"\x7d" = .error (.invalidConfig e)) ∧
    (default.withKeyText "\u00a0" = .ok default ∧
      ofJson "\x7b\"private_key\":\"\u00a0\"\x7d" = .ok default) ∧
    readKeyText " AQ==\n" = .ok [1] ∧ ∃ e, readKeyText "A Q==" = .error (.invalidKey e) := by
  have hmembers : ∀ t, Members default (some t) true [.privateKey] _ := fun t =>
    .entry (.first spaces_nil) (isText_writeText _) spaces_nil spaces_nil
      (.some (isText_writeText t)) (.close false spaces_nil)
  have hdoc : ∀ t, Document default (some t) [.privateKey] _ := fun t =>
    .mk spaces_nil (hmembers t) spaces_nil
  have hpadded : Document default (some " AQ==\n") [.privateKey]
      "\x7b\"private_key\":\" AQ==\\n\"\x7d".toList :=
    cast (congrArg _ (by decide)) (hdoc " AQ==\n")
  have hbit : Document default (some "AR==") [.privateKey]
      "\x7b\"private_key\":\"AR==\"\x7d".toList :=
    cast (congrArg _ (by decide)) (hdoc "AR==")
  have hblank : Document default (some "\u00a0") [.privateKey]
      "\x7b\"private_key\":\"\u00a0\"\x7d".toList :=
    cast (congrArg _ (by decide)) (hdoc "\u00a0")
  obtain ⟨hways, hread, hother⟩ := key_texts_agree
  have hone : readKeyText " AQ==\n" = .ok [1] := (hread _ _).2 (by decide)
  have hset : default.withKeyText " AQ==\n" = .ok { privateKey := some [1] } := by
    rw [withKeyText, keyOfText_of_read hone]
    rfl
  have hunset : (default.withKeyText "AR==").isOk = false := by decide +kernel
  refine ⟨?_, ?_, ?_, hone, hother "A Q==" fun bs htrim => ?_⟩
  · obtain ⟨key, hkey, hload⟩ | ⟨e, -, he, -⟩ :=
      (hways _ default default _ _ hpadded (by decide) (by decide)).1
    · obtain rfl : some [1] = key := congrArg privateKey (Except.ok.inj (hset.symm.trans hkey))
      exact ⟨hset, hload⟩
    · rw [hset] at he
      cases he
  · obtain ⟨key, hkey, -⟩ | ⟨e, e', he, hload⟩ :=
      (hways _ default default _ _ hbit (by decide) (by decide)).1
    · rw [hkey] at hunset
      cases hunset
    · exact ⟨⟨e, he⟩, e', hload⟩
  · exact (hways _ default default _ _ hblank (by decide) (by decide)).2 (by decide)
  · have hspace : ' ' ∈ (keyText bs).toList := by
      rw [← htrim]
      decide
    exact absurd (isBlank_of_mem_keyText hspace) (by decide)

end Config
end PeerNode
