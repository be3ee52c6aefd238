import PeerNode.Proofs.Base64.Canonical
import PeerNode.Proofs.Text.Trimming
import PeerNode.Config.Basic

/-!
# Keys as text

The text of a key has no blank characters, so blank characters around it are told from it, and
trimming takes away exactly these.  What is left is read back by the reader of base64.  A text that
stands for a configured key stands for none if it is blank; the text of no octets is blank, and it
is the only text of a key that is (`keyOfText_keyText`), so no text stands for a key without
octets.

* `readKeyText_eq_ok_iff`: which texts are read as which octets.
* `readKeyText_padded`: the text of a key with blank characters around it.
* `keyOfText_keyText`, `ne_nil_of_keyOfText`: the keys that texts stand for.
-/

namespace PeerNode

/-! ## The text of a key -/

theorem forall_mem_keyText {P : Char → Prop}
    (hsymbol : ∀ n < 64, P (Char.ofNat (Base64.symbol Base64.standard n).toNat)) (hpad : P '=')
    (bs : Bytes) : ∀ c ∈ (keyText bs).toList, P c := by
  intro c hc
  rw [keyText, Base64.encode, Base64.asciiText, String.toList_ofList, List.mem_map] at hc
  obtain ⟨b, hb, rfl⟩ := hc
  exact Base64.forall_mem_encodeWith (P := fun b => P (Char.ofNat b.toNat)) hsymbol hpad bs b hb

theorem isBlank_of_mem_keyText {bs : Bytes} {c : Char} (h : c ∈ (keyText bs).toList) :
    Text.isBlank c = false :=
  forall_mem_keyText (P := fun c => Text.isBlank c = false) (by decide) (by decide) bs c h

/-- **A text is read as octets exactly if it is theirs** without the blank characters at its
ends. -/
theorem readKeyText_eq_ok_iff {s : String} {bs : Bytes} :
    readKeyText s = .ok bs ↔ Text.trim s = keyText bs := by
  rw [keyText, ← Base64.decode_eq_ok_iff, readKeyText]
  cases Base64.decode (Text.trim s) <;> simp

/-- **The text of octets is read as these octets**, with any blank characters around it. -/
theorem readKeyText_padded {front back : List Char} (hfront : ∀ c ∈ front, Text.isBlank c = true)
    (hback : ∀ c ∈ back, Text.isBlank c = true) (bs : Bytes) :
    readKeyText (String.ofList (front ++ ((keyText bs).toList ++ back))) = .ok bs := by
  rw [readKeyText_eq_ok_iff, Text.trim, String.toList_ofList,
    Text.trimChars_append hfront (.of_no_blank fun c => isBlank_of_mem_keyText) hback,
    String.ofList_toList]

theorem keyText_injective {bs cs : Bytes} (h : keyText bs = keyText cs) : bs = cs := by
  have hread := Base64.decode_encode bs
  rw [show Base64.encode bs = Base64.encode cs from h, Base64.decode_encode] at hread
  exact (Except.ok.inj hread).symm

namespace Config

theorem keyOfText_of_read {s : String} {bs : Bytes} (h : readKeyText s = .ok bs) :
    keyOfText s = .ok (if bs = [] then none else some bs) := by
  have htrim := readKeyText_eq_ok_iff.1 h
  have hblank : Text.allBlank s = true ↔ bs = [] := by
    rw [Text.allBlank_iff_trim, htrim]
    exact ⟨@keyText_injective bs [], fun hnone => by rw [hnone]; rfl⟩
  rw [keyOfText]
  by_cases hnone : bs = []
  · rw [if_pos (hblank.2 hnone), if_pos hnone]
  · rw [if_neg fun hb => hnone (hblank.1 hb), if_neg hnone, h]

/-- The key that the text of octets stands for. -/
theorem keyOfText_keyText (bs : Bytes) :
    keyOfText (keyText bs) = .ok (if bs = [] then none else some bs) := by
  have h := readKeyText_padded (fun c hc => absurd hc List.not_mem_nil)
    (fun c hc => absurd hc List.not_mem_nil) bs
  rw [List.nil_append, List.append_nil, String.ofList_toList] at h
  exact keyOfText_of_read h

/-- **No text stands for a key without octets.** -/
theorem ne_nil_of_keyOfText {s : String} {key : Option Bytes} (h : keyOfText s = .ok key) :
    key ≠ some [] := by
  rintro rfl
  have hread : readKeyText s = .ok [] := by
    unfold keyOfText at h
    split at h
    · cases h
    · split at h
      · rename_i hsome
        cases h
        exact hsome
      · cases h
  rw [keyOfText_of_read hread] at h
  cases h

end Config
end PeerNode
