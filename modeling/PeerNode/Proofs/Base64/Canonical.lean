import PeerNode.Base64

/-!
# Base64 is read back exactly

The reader of base64 accepts exactly what the writer writes.  Both go through the groups of six
bits: four groups are three octets (`joinGroups_three`), and two or three groups with no bits left
over are one or two.  A group and its character determine each other (`group_symbol`,
`symbol_of_group`), so a text that is accepted is, character by character, the one that is written
for the octets that are read; there is no second spelling of anything.

* `Bytes.ofText_injective`, `Base64.ofText_asciiText`: the octets of a text.
* `decodeFrom_encode`, `eq_encode_of_decodeFrom`: what is written is read, and nothing else.
* `decode_eq_ok_iff`: a text is read as octets exactly if it is their text.
-/

namespace PeerNode

/-! ## The octets of a text -/

namespace Bytes

theorem toList_loop (bs : ByteArray) (i : Nat) (done : List UInt8) :
    ByteArray.toList.loop bs i done = done.reverse ++ bs.data.toList.drop i := by
  fun_induction ByteArray.toList.loop bs i done with
  | case1 i done h ih =>
    have hi : i < bs.data.toList.length := h
    have hget : bs.get! i = bs.data.toList[i] := by
      exact getElem!_pos bs.data i hi
    rw [ih, List.reverse_cons, List.append_assoc, List.singleton_append,
      List.drop_eq_getElem_cons hi, hget]
  | case2 i done h =>
    rw [List.drop_eq_nil_of_le (Nat.le_of_not_lt h), List.append_nil]

theorem ofText_eq (s : String) : ofText s = s.toByteArray.data.toList := by
  rw [ofText, String.toUTF8_eq_toByteArray, ByteArray.toList, toList_loop]
  rfl

/-- Different texts have different octets. -/
theorem ofText_injective {s t : String} (h : ofText s = ofText t) : s = t := by
  rw [ofText_eq, ofText_eq] at h
  exact String.toByteArray_inj.1 (ByteArray.ext (Array.toList_inj.1 h))

theorem ofText_ofList (cs : List Char) :
    ofText (String.ofList cs) = cs.flatMap String.utf8EncodeChar := by
  rw [ofText_eq, String.toByteArray_ofList, List.utf8Encode, List.toList_data_toByteArray]

end Bytes

theorem bind_eq_ok {ε α β : Type} {x : Except ε α} {f : α → Except ε β} {r : β} :
    (x >>= f) = .ok r ↔ ∃ a, x = .ok a ∧ f a = .ok r := by
  cases x with
  | error e => simp [bind, Except.bind]
  | ok a => simp [bind, Except.bind]

namespace Base64

/-- The octets of a text of ASCII characters. -/
theorem ofText_asciiText {bs : Bytes} (h : ∀ b ∈ bs, b.toNat < 128) :
    Bytes.ofText (asciiText bs) = bs := by
  rw [asciiText, Bytes.ofText_ofList, List.flatMap_map]
  induction bs with
  | nil => rfl
  | cons b bs ih =>
    have hb := h b List.mem_cons_self
    have hval : (Char.ofNat b.toNat).val.toNat = b.toNat := by
      rw [Char.ofNat, dif_pos (Or.inl (by omega))]
      rfl
    rw [List.flatMap_cons, ih fun c hc => h c (List.mem_cons_of_mem b hc), String.utf8EncodeChar,
      hval, if_pos (by omega)]
    simp

/-! ## Groups and characters -/

/-- What holds of the character of each group. -/
theorem symbol_of_group : ∀ n < 64, group? standard (symbol standard n) = some n ∧
    symbol standard n ≠ pad ∧ (symbol standard n).toNat < 128 := by
  decide

/-- A character that has a group is the one of this group. -/
theorem group_symbol {b : UInt8} {n : Nat} (h : group? standard b = some n) :
    n < 64 ∧ symbol standard n = b := by
  have hall : ∀ m < 256, ∀ n ∈ group? standard (UInt8.ofNat m),
      n < 64 ∧ symbol standard n = UInt8.ofNat m := by
    decide +kernel
  have hb := hall b.toNat b.toNat_lt n
  rw [UInt8.ofNat_toNat] at hb
  exact hb h

theorem symbol_of_groupAt {b : UInt8} {offset n : Nat} (h : groupAt b offset = .ok n) :
    n < 64 ∧ symbol standard n = b := by
  unfold groupAt at h
  split at h
  · rename_i hsome
    cases h
    exact group_symbol hsome
  · cases h

/-! ## Octets and groups -/

theorem toNat_toUInt8 {n : Nat} (h : n < 256) : n.toUInt8.toNat = n := by
  rw [Nat.toUInt8_eq, UInt8.toNat_ofNat_of_lt' h]

theorem joinGroups_one (x : UInt8) :
    joinGroups [x.toNat * 16 / 64, x.toNat * 16 % 64] = ([x], 0) := by
  have hx := x.toNat_lt
  have hn : x.toNat * 16 / 64 * 64 + x.toNat * 16 % 64 = x.toNat * 16 := by omega
  rw [joinGroups]
  simp only [hn, show x.toNat * 16 / 16 = x.toNat by omega, show x.toNat * 16 % 16 = 0 by omega,
    Nat.toUInt8_eq, UInt8.ofNat_toNat]

theorem joinGroups_two (x y : UInt8) :
    joinGroups [(x.toNat * 256 + y.toNat) * 4 / 4096, (x.toNat * 256 + y.toNat) * 4 / 64 % 64,
      (x.toNat * 256 + y.toNat) * 4 % 64] = ([x, y], 0) := by
  have hx := x.toNat_lt
  have hy := y.toNat_lt
  generalize hn : (x.toNat * 256 + y.toNat) * 4 = n
  have hjoin : (n / 4096 * 64 + n / 64 % 64) * 64 + n % 64 = n := by omega
  rw [joinGroups]
  simp only [hjoin, show n / 1024 = x.toNat by omega, show n / 4 % 256 = y.toNat by omega,
    show n % 4 = 0 by omega, Nat.toUInt8_eq, UInt8.ofNat_toNat]

/-- **Four groups are three octets.** -/
theorem joinGroups_three (x y z : UInt8) :
    joinGroups [((x.toNat * 256 + y.toNat) * 256 + z.toNat) / 262144,
      ((x.toNat * 256 + y.toNat) * 256 + z.toNat) / 4096 % 64,
      ((x.toNat * 256 + y.toNat) * 256 + z.toNat) / 64 % 64,
      ((x.toNat * 256 + y.toNat) * 256 + z.toNat) % 64] = ([x, y, z], 0) := by
  have hx := x.toNat_lt
  have hy := y.toNat_lt
  have hz := z.toNat_lt
  generalize hn : (x.toNat * 256 + y.toNat) * 256 + z.toNat = n
  have hjoin : ((n / 262144 * 64 + n / 4096 % 64) * 64 + n / 64 % 64) * 64 + n % 64 = n := by
    omega
  rw [joinGroups]
  simp only [hjoin, show n / 65536 = x.toNat by omega, show n / 256 % 256 = y.toNat by omega,
    show n % 256 = z.toNat by omega, Nat.toUInt8_eq, UInt8.ofNat_toNat]

/-! ## The end of a text -/

section Suffix

variable {start seen firstPad pads : Nat} {groups : List Nat} {bs : Bytes}

theorem suffixGroups_padding (hseen : 2 ≤ seen) (more : Nat) :
    suffixGroups start seen firstPad (pads + 1) (List.replicate more pad) =
      .ok ([], pads + 1 + more) := by
  induction more generalizing seen firstPad pads with
  | zero => rfl
  | succ more ih =>
    rw [List.replicate_succ, suffixGroups, if_pos (beq_self_eq_true pad), if_neg (by omega),
      ih (by omega), show pads + 1 + 1 + more = pads + 1 + (more + 1) by omega]

/-- The groups of a suffix are read from their characters, and its padding is counted. -/
theorem suffixGroups_symbols (hgroups : ∀ g ∈ groups, g < 64) (hseen : 2 ≤ seen + groups.length)
    (more : Nat) :
    suffixGroups start seen firstPad 0
      (groups.map (symbol standard) ++ List.replicate more pad) = .ok (groups, more) := by
  induction groups generalizing seen with
  | nil =>
    cases more with
    | zero => rfl
    | succ more =>
      rw [List.length_nil, Nat.add_zero] at hseen
      rw [List.map_nil, List.nil_append, List.replicate_succ, suffixGroups,
        if_pos (beq_self_eq_true pad), if_neg (Nat.not_lt.2 hseen),
        suffixGroups_padding (Nat.le_succ_of_le hseen), Nat.add_comm]
  | cons g groups ih =>
    obtain ⟨hgroup, hpad, _⟩ := symbol_of_group g (hgroups g List.mem_cons_self)
    have hrest := @ih (seen + 1) (fun e he => hgroups e (List.mem_cons_of_mem g he))
      (by rw [List.length_cons] at hseen; omega)
    rw [List.map_cons, List.cons_append, suffixGroups, if_neg (by simpa using hpad),
      if_neg (Nat.lt_irrefl 0), groupAt, hgroup]
    simp only [hrest]
    rfl

/-- What is read behind padding is padding. -/
theorem eq_padding_of_suffixGroups (hpads : 0 < pads) {all : Nat}
    (h : suffixGroups start seen firstPad pads bs = .ok (groups, all)) :
    groups = [] ∧ bs = List.replicate (all - pads) pad ∧ pads ≤ all := by
  induction bs generalizing seen firstPad pads with
  | nil =>
    cases h
    simp
  | cons b bs ih =>
    rw [suffixGroups] at h
    by_cases hb : (b == pad) = true
    · rw [if_pos hb] at h
      split at h
      · cases h
      · obtain ⟨hnone, hbs, hle⟩ := ih (Nat.succ_pos pads) h
        refine ⟨hnone, ?_, by omega⟩
        rw [show all - pads = (all - (pads + 1)) + 1 by omega, List.replicate_succ, ← hbs,
          beq_iff_eq.1 hb]
    · rw [if_neg hb, if_pos hpads] at h
      cases h

/-- **What is read as the groups of a suffix are their characters and padding.** -/
theorem eq_symbols_of_suffixGroups {all : Nat}
    (h : suffixGroups start seen firstPad 0 bs = .ok (groups, all)) :
    bs = groups.map (symbol standard) ++ List.replicate all pad ∧ ∀ g ∈ groups, g < 64 := by
  induction bs generalizing seen groups with
  | nil =>
    cases h
    simp
  | cons b bs ih =>
    rw [suffixGroups] at h
    by_cases hb : (b == pad) = true
    · rw [if_pos hb] at h
      split at h
      · cases h
      · obtain ⟨rfl, hbs, hle⟩ := eq_padding_of_suffixGroups (Nat.succ_pos 0) h
        refine ⟨?_, by simp⟩
        rw [hbs, beq_iff_eq.1 hb, List.map_nil, List.nil_append, ← List.replicate_succ,
          show all - (0 + 1) + 1 = all by omega]
    · rw [if_neg hb, if_neg (Nat.lt_irrefl 0)] at h
      obtain ⟨g, hg, h⟩ := bind_eq_ok.1 h
      obtain ⟨⟨rest, pads⟩, hs, h⟩ := bind_eq_ok.1 h
      cases h
      obtain ⟨hbs, hgroups⟩ := ih hs
      obtain ⟨hlt, rfl⟩ := symbol_of_groupAt hg
      exact ⟨by rw [List.map_cons, List.cons_append, ← hbs],
        List.forall_mem_cons.2 ⟨hlt, hgroups⟩⟩

theorem decodeSuffix_symbols {octets : Bytes} (more : Nat) (hgroups : ∀ g ∈ groups, g < 64)
    (hlength : 2 ≤ groups.length) (hfull : (more + groups.length) % 4 = 0)
    (hjoin : joinGroups groups = (octets, 0)) :
    decodeSuffix start (groups.map (symbol standard) ++ List.replicate more pad) = .ok octets := by
  have hread : suffixGroups start 0 0 0
      (groups.map (symbol standard) ++ List.replicate more pad) = .ok (groups, more) :=
    suffixGroups_symbols hgroups (by omega) more
  have hshort : ¬groups.length < 2 := by omega
  simp [decodeSuffix, hread, bind, Except.bind, hshort, hfull, hjoin, pure, Except.pure]

/-- What is decoded are groups that leave no bits over. -/
theorem exists_groups_of_decodeSuffix {octets : Bytes} (h : decodeSuffix start bs = .ok octets) :
    ∃ (groups : List Nat) (more : Nat),
      bs = groups.map (symbol standard) ++ List.replicate more pad ∧ (∀ g ∈ groups, g < 64) ∧
      2 ≤ groups.length ∧ (more + groups.length) % 4 = 0 ∧ joinGroups groups = (octets, 0) := by
  unfold decodeSuffix at h
  obtain ⟨⟨groups, more⟩, hs, h⟩ := bind_eq_ok.1 h
  obtain ⟨hbs, hgroups⟩ := eq_symbols_of_suffixGroups hs
  simp only [bind, Except.bind, pure, Except.pure] at h
  split at h
  · cases h
  · rename_i hlength
    split at h
    · cases h
    · rename_i hfull
      split at h
      · cases h
      · rename_i hunused
        cases h
        refine ⟨groups, more, hbs, hgroups, by omega, by simpa using hfull, ?_⟩
        exact Prod.ext rfl (by simpa using hunused)

end Suffix

/-! ## Whole texts -/

theorem encodeWith_one {a b : Nat} (ha : a < 64) (hb : b < 64) (h : (a * 64 + b) % 16 = 0) :
    encodeWith standard id [((a * 64 + b) / 16).toUInt8] =
      [symbol standard a, symbol standard b, pad, pad] := by
  have hx : ((a * 64 + b) / 16).toUInt8.toNat = (a * 64 + b) / 16 := toNat_toUInt8 (by omega)
  rw [encodeWith, hx]
  simp only [id, show (a * 64 + b) / 16 * 16 / 64 = a by omega,
    show (a * 64 + b) / 16 * 16 % 64 = b by omega]

/-- The characters of two octets. -/
theorem encodeWith_two {a b c : Nat} (ha : a < 64) (hb : b < 64) (hc : c < 64)
    (h : ((a * 64 + b) * 64 + c) % 4 = 0) :
    encodeWith standard id [(((a * 64 + b) * 64 + c) / 1024).toUInt8,
        (((a * 64 + b) * 64 + c) / 4 % 256).toUInt8] =
      [symbol standard a, symbol standard b, symbol standard c, pad] := by
  generalize hn : (a * 64 + b) * 64 + c = n at h ⊢
  have hx : (n / 1024).toUInt8.toNat = n / 1024 := toNat_toUInt8 (by omega)
  have hy : (n / 4 % 256).toUInt8.toNat = n / 4 % 256 := toNat_toUInt8 (by omega)
  rw [encodeWith, hx, hy]
  simp only [id, show (n / 1024 * 256 + n / 4 % 256) * 4 = n by omega,
    show n / 4096 = a by omega, show n / 64 % 64 = b by omega, show n % 64 = c by omega]

/-- The characters of three octets and more. -/
theorem encodeWith_three {a b c d : Nat} (ha : a < 64) (hb : b < 64) (hc : c < 64) (hd : d < 64)
    (rest : Bytes) :
    encodeWith standard id ((joinGroups [a, b, c, d]).1 ++ rest) =
      symbol standard a :: symbol standard b :: symbol standard c :: symbol standard d ::
        encodeWith standard id rest := by
  rw [joinGroups]
  generalize hn : ((a * 64 + b) * 64 + c) * 64 + d = n
  have hx : (n / 65536).toUInt8.toNat = n / 65536 := toNat_toUInt8 (by omega)
  have hy : (n / 256 % 256).toUInt8.toNat = n / 256 % 256 := toNat_toUInt8 (by omega)
  have hz : (n % 256).toUInt8.toNat = n % 256 := toNat_toUInt8 (by omega)
  simp only [List.cons_append, List.nil_append]
  rw [encodeWith, hx, hy, hz]
  simp only [show (n / 65536 * 256 + n / 256 % 256) * 256 + n % 256 = n by omega,
    show n / 262144 = a by omega, show n / 4096 % 64 = b by omega,
    show n / 64 % 64 = c by omega, show n % 64 = d by omega]

/-- The characters of groups that are a suffix. -/
theorem encodeWith_joinGroups {groups : List Nat} {more : Nat} {octets : Bytes}
    (hgroups : ∀ g ∈ groups, g < 64) (hlength : 2 ≤ groups.length)
    (hfull : more + groups.length = 4) (hjoin : joinGroups groups = (octets, 0)) :
    encodeWith standard id octets =
      groups.map (symbol standard) ++ List.replicate more pad := by
  obtain ⟨rfl, hunused⟩ : octets = (joinGroups groups).1 ∧ (joinGroups groups).2 = 0 := by
    rw [hjoin]
    exact ⟨rfl, rfl⟩
  clear hjoin
  match groups, hgroups, hlength, hfull, hunused with
  | [a, b], hgroups, _, hfull, hunused =>
    obtain rfl : more = 2 := by simpa using hfull
    simp only [List.forall_mem_cons] at hgroups
    exact encodeWith_one hgroups.1 hgroups.2.1 hunused
  | [a, b, c], hgroups, _, hfull, hunused =>
    obtain rfl : more = 1 := by simpa using hfull
    simp only [List.forall_mem_cons] at hgroups
    exact encodeWith_two hgroups.1 hgroups.2.1 hgroups.2.2.1 hunused
  | [a, b, c, d], hgroups, _, hfull, _ =>
    obtain rfl : more = 0 := by simpa using hfull
    simp only [List.forall_mem_cons] at hgroups
    exact encodeWith_three hgroups.1 hgroups.2.1 hgroups.2.2.1 hgroups.2.2.2.1 []
  | _ :: _ :: _ :: _ :: _ :: _, _, _, hfull, _ =>
    simp only [List.length_cons] at hfull
    omega

/-- Four characters with more behind them are read as their groups. -/
theorem decodeFrom_symbols {a b c d : Nat} (ha : a < 64) (hb : b < 64) (hc : c < 64) (hd : d < 64)
    {start : Nat} {more octets : Bytes} (hmore : more ≠ [])
    (h : decodeFrom (start + 4) more = .ok octets) :
    decodeFrom start (symbol standard a :: symbol standard b :: symbol standard c ::
      symbol standard d :: more) = .ok ((joinGroups [a, b, c, d]).1 ++ octets) := by
  obtain ⟨e, rest, rfl⟩ := List.exists_cons_of_ne_nil hmore
  have hgroup : ∀ {n : Nat} (offset : Nat), n < 64 → groupAt (symbol standard n) offset = .ok n :=
    fun offset hn => by rw [groupAt, (symbol_of_group _ hn).1]
  rw [decodeFrom, hgroup start ha, hgroup (start + 1) hb, hgroup (start + 2) hc,
    hgroup (start + 3) hd, h]
  rfl

/-- **What is written is read.** -/
theorem decodeFrom_encode (octets : Bytes) (start : Nat) :
    decodeFrom start (encodeWith standard id octets) = .ok octets := by
  fun_induction encodeWith standard id octets generalizing start with
  | case1 => rfl
  | case2 x n =>
    have hx := x.toNat_lt
    refine decodeSuffix_symbols 2 ?_ (by simp) (by simp) (joinGroups_one x)
    simp only [List.forall_mem_cons]
    exact ⟨by omega, by omega, by simp⟩
  | case3 x y n =>
    have hx := x.toNat_lt
    have hy := y.toNat_lt
    refine decodeSuffix_symbols 1 ?_ (by simp) (by simp) (joinGroups_two x y)
    simp only [List.forall_mem_cons]
    exact ⟨by omega, by omega, by omega, by simp⟩
  | case4 x y z rest n ih =>
    have hx := x.toNat_lt
    have hy := y.toNat_lt
    have hz := z.toNat_lt
    have hjoin := joinGroups_three x y z
    by_cases hrest : encodeWith standard id rest = []
    · -- nothing else is written, so these four characters are the suffix
      have hnone : rest = [] := by
        have := ih 0
        rw [hrest] at this
        exact (Except.ok.inj this).symm
      rw [hrest, hnone]
      refine decodeSuffix_symbols 0 ?_ (by simp) (by simp) hjoin
      simp only [List.forall_mem_cons]
      exact ⟨by omega, by omega, by omega, by omega, by simp⟩
    · have h := decodeFrom_symbols (a := n / 262144) (b := n / 4096 % 64) (c := n / 64 % 64)
        (d := n % 64) (by omega) (by omega) (by omega) (by omega) hrest (ih (start + 4))
      rw [h, hjoin]
      rfl

/-- **What is read is what is written** for the octets that are read. -/
theorem eq_encode_of_decodeFrom {start : Nat} {bs octets : Bytes}
    (h : decodeFrom start bs = .ok octets) : bs = encodeWith standard id octets := by
  fun_induction decodeFrom start bs generalizing octets with
  | case1 =>
    cases h
    rfl
  | case2 start a b c d e rest ih =>
    obtain ⟨a', ha, h⟩ := bind_eq_ok.1 h
    obtain ⟨b', hb, h⟩ := bind_eq_ok.1 h
    obtain ⟨c', hc, h⟩ := bind_eq_ok.1 h
    obtain ⟨d', hd, h⟩ := bind_eq_ok.1 h
    obtain ⟨more, hmore, h⟩ := bind_eq_ok.1 h
    cases h
    obtain ⟨hltA, rfl⟩ := symbol_of_groupAt ha
    obtain ⟨hltB, rfl⟩ := symbol_of_groupAt hb
    obtain ⟨hltC, rfl⟩ := symbol_of_groupAt hc
    obtain ⟨hltD, rfl⟩ := symbol_of_groupAt hd
    rw [encodeWith_three hltA hltB hltC hltD, ← ih hmore]
  | case3 start bs hne hshort =>
    obtain ⟨groups, more, rfl, hgroups, hlength, hfull, hjoin⟩ := exists_groups_of_decodeSuffix h
    have hfew : (groups.map (symbol standard) ++ List.replicate more pad).length ≤ 4 := by
      generalize groups.map (symbol standard) ++ List.replicate more pad = bs at hshort
      match bs, hshort with
      | [], _ | [_], _ | [_, _], _ | [_, _, _], _ | [_, _, _, _], _ => simp
      | a :: b :: c :: d :: e :: rest, hshort => exact absurd rfl (hshort a b c d e rest)
    rw [List.length_append, List.length_map, List.length_replicate] at hfew
    exact (encodeWith_joinGroups hgroups hlength (by omega) hjoin).symm

theorem length_encodeWith (octets : Bytes) : (encodeWith standard id octets).length % 4 = 0 := by
  fun_induction encodeWith standard id octets with
  | case1 => rfl
  | case2 x n => simp
  | case3 x y n => simp
  | case4 x y z rest n ih =>
    simp only [List.length_cons]
    omega

/-- What holds of padding and of the character of each group holds of all that is written. -/
theorem forall_mem_encodeWith {P : UInt8 → Prop} (hsymbol : ∀ n < 64, P (symbol standard n))
    (hpad : P pad) (octets : Bytes) : ∀ b ∈ encodeWith standard id octets, P b := by
  fun_induction encodeWith standard id octets with
  | case1 => simp
  | case2 x n =>
    have hx := x.toNat_lt
    simp only [List.forall_mem_cons, id]
    exact ⟨hsymbol _ (by omega), hsymbol _ (by omega), hpad, hpad, by simp⟩
  | case3 x y n =>
    have hx := x.toNat_lt
    have hy := y.toNat_lt
    simp only [List.forall_mem_cons, id]
    exact ⟨hsymbol _ (by omega), hsymbol _ (by omega), hsymbol _ (by omega), hpad, by simp⟩
  | case4 x y z rest n ih =>
    have hx := x.toNat_lt
    have hy := y.toNat_lt
    have hz := z.toNat_lt
    simp only [List.forall_mem_cons]
    exact ⟨hsymbol _ (by omega), hsymbol _ (by omega), hsymbol _ (by omega),
      hsymbol _ (by omega), ih⟩

/-- Octets are decoded exactly if they are the characters of the octets that they spell. -/
theorem decodeBytes_eq_ok_iff {bs octets : Bytes} :
    decodeBytes bs = .ok octets ↔ bs = encodeWith standard id octets := by
  unfold decodeBytes
  constructor
  · intro h
    split at h
    · split at h
      · cases h
      · exact eq_encode_of_decodeFrom h
    · rename_i hnone
      cases h
      exact List.getLast?_eq_none_iff.1 hnone
  · rintro rfl
    have hlength := length_encodeWith octets
    split
    · rw [if_neg (by simp [hlength])]
      exact decodeFrom_encode octets 0
    · rename_i hnone
      have hread := decodeFrom_encode octets 0
      rw [List.getLast?_eq_none_iff.1 hnone] at hread
      exact hread

/-- **A text is read as octets exactly if it is their text.** -/
theorem decode_eq_ok_iff {s : String} {octets : Bytes} :
    decode s = .ok octets ↔ s = encode octets := by
  have htext : Bytes.ofText (encode octets) = encodeWith standard id octets :=
    ofText_asciiText
      (forall_mem_encodeWith (fun n hn => (symbol_of_group n hn).2.2) (by decide) octets)
  rw [decode, decodeBytes_eq_ok_iff, ← htext]
  exact ⟨Bytes.ofText_injective, congrArg Bytes.ofText⟩

theorem decode_encode (octets : Bytes) : decode (encode octets) = .ok octets :=
  decode_eq_ok_iff.2 rfl

end Base64
end PeerNode
