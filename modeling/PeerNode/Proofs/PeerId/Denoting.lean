import PeerNode.Exchange.Act
import PeerNode.Proofs.PeerId.Naming

/-!
# Which texts denote which peer

A text denotes a peer if it is a base-58 number whose octets spell the peer.  The number has one
form only: a text that is read as octets is what these octets are written as
(`Base58.decode_eq_ok_iff`), so all that two texts for one peer can differ in are the octets, of
which a multihash may have several.  Reading a text settles this by writing down again whom it
denotes, and the text that comes out is the one text that the peer has.

So peers may be compared by their names, which is how a listener tells the messages of its own node
from those of others.

* `Base58.decode_eq_ok_iff`: which text is read as which octets.
* `PeerName.parse_eq_map_toId`: reading a text is writing down whom it denotes.
* `PeerName.names_are_identities`: what names, and texts that are taken for names, say of peers.
-/

namespace PeerNode

namespace Base58

variable {n m d offset : Nat} {cs : List Char} {bs : Bytes}

/-! ## One text for the octets -/

theorem digit_of_value {c : Char} (h : value? c = some d) : d < 58 ∧ digit d = c := by
  obtain ⟨hd, hc, -⟩ := List.findIdx?_eq_some_iff_getElem.1 h
  refine ⟨hd, ?_⟩
  rw [digit, List.getD_eq_getElem?_getD, List.getElem?_eq_getElem hd]
  simpa using hc

theorem digitsOf_more (hd : d < 58) (hpos : n * 58 + d ≠ 0) (tail : List Char) :
    digitsOf (n * 58 + d) tail = digitsOf n (digit d :: tail) := by
  rw [digitsOf, if_neg hpos, show (n * 58 + d) / 58 = n by omega,
    show (n * 58 + d) % 58 = d by omega]

/-- Digits that are read after those of a number are written after them again, if the first of all
is not a zero. -/
theorem digitsOf_readDigits (h : readDigits n offset cs = .ok m)
    (hfirst : n = 0 → cs.head? ≠ some '1') (tail : List Char) :
    digitsOf m tail = digitsOf n (cs ++ tail) := by
  induction cs generalizing n offset with
  | nil =>
    rw [readDigits] at h
    rw [← Except.ok.inj h, List.nil_append]
  | cons c cs ih =>
    rw [readDigits] at h
    split at h
    · cases h
    · split at h
      · cases h
      · rename_i d hvalue
        obtain ⟨hd, hc⟩ := digit_of_value hvalue
        have hpos : n * 58 + d ≠ 0 := by
          intro hzero
          obtain ⟨rfl, rfl⟩ : n = 0 ∧ d = 0 := by omega
          exact hfirst rfl (congrArg some (hc.symm.trans ((value_digit hd).2.2.2 rfl)))
        rw [ih h fun hzero => absurd hzero hpos, digitsOf_more hd hpos, hc, List.cons_append]

/-- The number that the octets of a number spell, with further octets behind them. -/
theorem numberOfBytes_bytesOf (n : Nat) (tail : Bytes) :
    numberOfBytes (bytesOf n tail) = tail.foldl (fun n b => n * 256 + b.toNat) n := by
  induction n using Nat.strongRecOn generalizing tail with
  | ind n ih =>
    rw [bytesOf]
    by_cases hn : n = 0
    · rw [if_pos hn, hn, numberOfBytes]
    · rw [if_neg hn, ih (n / 256) (by omega), List.foldl_cons]
      congr 1
      simp only [Nat.toUInt8, UInt8.toNat_ofNat']
      omega

/-- The octets of a number do not begin with a zero. -/
theorem bytesOf_eq_cons (hn : n ≠ 0) (tail : Bytes) :
    ∃ b rest, bytesOf n tail = b :: rest ∧ b ≠ 0 := by
  induction n using Nat.strongRecOn generalizing tail with
  | ind n ih =>
    rw [bytesOf, if_neg hn]
    by_cases hsmall : n / 256 = 0
    · refine ⟨(n % 256).toUInt8, tail, by rw [hsmall, bytesOf, if_pos rfl], fun hzero => ?_⟩
      have hnat := congrArg UInt8.toNat hzero
      simp only [Nat.toUInt8, UInt8.toNat_ofNat', UInt8.toNat_zero] at hnat
      omega
    · exact ih (n / 256) (by omega) hsmall _

theorem takeWhile_bytesOf (n : Nat) : (bytesOf n []).takeWhile (· == 0) = [] := by
  by_cases hn : n = 0
  · rw [hn, bytesOf, if_pos rfl]
    rfl
  · obtain ⟨b, rest, h, hb⟩ := bytesOf_eq_cons hn []
    rw [h, List.takeWhile_cons_of_neg (by simpa using hb)]

/-- **A text that is read as octets is the text of these octets.** -/
theorem encode_of_decode {s : String} (h : decode s = .ok bs) : encode bs = s := by
  obtain ⟨cs, rfl⟩ : ∃ cs, s = String.ofList cs := ⟨s.toList, String.ofList_toList.symm⟩
  have hsplit := List.takeWhile_append_dropWhile (p := (· == '1')) (l := cs)
  have hones : cs.takeWhile (· == '1') = List.replicate (cs.takeWhile (· == '1')).length '1' :=
    List.eq_replicate_of_mem fun c hc => by simpa using List.mem_takeWhile_imp hc
  generalize (cs.takeWhile (· == '1')).length = zeros at hones
  generalize hrest : cs.dropWhile (· == '1') = rest at hsplit
  have hfirst : rest.head? ≠ some '1' := by
    intro hhead
    have := List.head?_dropWhile_not (· == '1') cs
    rw [hrest, hhead] at this
    cases this
  rw [decode, String.toList_ofList, decodeChars] at h
  cases hread : readDigits 0 0 cs with
  | error fault =>
    rw [hread] at h
    cases h
  | ok n =>
    rw [hread, hones, List.map_replicate] at h
    obtain rfl : List.replicate zeros 0 ++ bytesOf n [] = bs := Except.ok.inj h
    have hnumber : numberOfBytes (List.replicate zeros 0 ++ bytesOf n []) = n := by
      rw [numberOfBytes_zeros _ _ fun b hb => List.eq_of_mem_replicate hb, numberOfBytes_bytesOf]
      rfl
    have hzeros : (List.replicate zeros 0 ++ bytesOf n []).takeWhile (· == 0) =
        List.replicate zeros 0 := by
      rw [List.takeWhile_append_of_pos fun b hb => by simp [List.eq_of_mem_replicate hb],
        takeWhile_bytesOf, List.append_nil]
    rw [← hsplit, hones, readDigits_zeros] at hread
    rw [encode, hnumber, hzeros, List.map_replicate,
      digitsOf_readDigits hread (fun _ => hfirst) [], digitsOf, if_pos rfl, List.append_nil,
      ← hones, hsplit]

/-- **Octets have one text**, which is read as them. -/
theorem decode_eq_ok_iff {s : String} : decode s = .ok bs ↔ s = encode bs :=
  ⟨fun h => (encode_of_decode h).symm, fun h => h ▸ decode_encode bs⟩

end Base58

/-! ## Names -/

namespace PeerName

variable {s : String} {i : PeerId} {c : PeerName} {e : NodeError}

/-- **Reading a text is writing down whom it denotes**, and it fails as denoting somebody does. -/
theorem parse_eq_map_toId (s : String) : parse s = (⟨s⟩ : PeerName).toId.map ofId := by
  unfold parse toId
  cases PeerId.ofText s <;> rfl

theorem parse_eq_ok_iff : parse s = .ok c ↔ ∃ i, (⟨s⟩ : PeerName).toId = .ok i ∧ c = ofId i := by
  rw [parse_eq_map_toId]
  cases (⟨s⟩ : PeerName).toId with
  | ok i => simp [Except.map, eq_comm]
  | error e => simp [Except.map]

theorem parse_eq_error_iff : parse s = .error e ↔ (⟨s⟩ : PeerName).toId = .error e := by
  rw [parse_eq_map_toId]
  cases (⟨s⟩ : PeerName).toId <;> simp [Except.map]

/-- The texts that denote a peer are those of the octets that spell it. -/
theorem toId_eq_ok_iff :
    (⟨s⟩ : PeerName).toId = .ok i ↔ ∃ bs, s = Base58.encode bs ∧ PeerId.ofBytes bs = .ok i := by
  unfold toId PeerId.ofText
  constructor
  · intro h
    cases hread : Base58.decode s with
    | error fault =>
      rw [hread] at h
      cases h
    | ok bs =>
      refine ⟨bs, Base58.decode_eq_ok_iff.1 hread, ?_⟩
      rw [hread] at h
      cases hspelled : PeerId.ofBytes bs with
      | error fault =>
        simp only [hspelled] at h
        cases h
      | ok j =>
        simp only [hspelled] at h
        exact congrArg _ (Except.ok.inj h)
  · rintro ⟨bs, rfl, hbs⟩
    simp only [Base58.decode_encode, hbs]

end PeerName

/-- A listener that takes a message of a known author passes it over exactly if it is of the
listener's own node. -/
theorem Exchange.listenerAct?_of_author {x : Exchange} {t : Task} {l : Listener} {m : Message}
    {ms : List Message} {me author : PeerId} (hme : l.me = .ofId me) (hm : m.sender = .ofId author)
    (hfree : l.held = none) (hrun : x.isCancelled l.token = false)
    (hbuffer : x.buffer l.source = m :: ms) :
    x.listenerAct? t l = some (.pull l.source m
      (.goesOn (.listen { l with held := if author = me then none else some m }))) := by
  unfold listenerAct?
  simp only [hrun, Bool.false_eq_true, if_false, hfree, hbuffer, hm, hme,
    PeerName.ofId_injective.eq_iff]

namespace PeerName

/-- **Names are as good as the peers that they denote.**  The name of a peer denotes this peer and
is read as itself, and peers with one name are one peer; so a listener, which compares names, passes
over exactly the messages of its own node.

Every text is read exactly if it denotes somebody, and if not, both fail alike.  Whom a text denotes
is spelled by octets of which it is the text.  The text that comes out of reading it denotes the
same peer and is read as itself; and it is the same for two texts exactly if they denote one
peer. -/
theorem names_are_identities :
    (∀ i : PeerId, (ofId i).toId = .ok i ∧ parse (ofId i).text = .ok (ofId i)) ∧
    (∀ i j : PeerId, ofId i = ofId j ↔ i = j) ∧
    (∀ (x : Exchange) (t : Task) (l : Listener) (m : Message) (ms : List Message)
      (me author : PeerId), t.work = .listen l → l.me = ofId me → m.sender = ofId author →
      l.held = none → x.isCancelled l.token = false → x.buffer l.source = m :: ms →
      x.act? t = some (.pull l.source m
        (.goesOn (.listen { l with held := if author = me then none else some m })))) ∧
    (∀ s : String, ((∃ c, parse s = .ok c) ↔ ∃ i, (⟨s⟩ : PeerName).toId = .ok i) ∧
      ∀ e, parse s = .error e ↔ (⟨s⟩ : PeerName).toId = .error e) ∧
    (∀ (s : String) (i : PeerId),
      (⟨s⟩ : PeerName).toId = .ok i ↔ ∃ bs, s = Base58.encode bs ∧ PeerId.ofBytes bs = .ok i) ∧
    (∀ (s : String) (c : PeerName), parse s = .ok c →
      parse c.text = .ok c ∧ ∃ i, c.toId = .ok i ∧ (⟨s⟩ : PeerName).toId = .ok i) ∧
    ∀ (s t : String) (c d : PeerName), parse s = .ok c → parse t = .ok d →
      (c = d ↔ (⟨s⟩ : PeerName).toId = (⟨t⟩ : PeerName).toId) := by
  have hself : ∀ i : PeerId, parse (ofId i).text = .ok (ofId i) := fun i =>
    parse_eq_ok_iff.2 ⟨i, toId_ofId i, rfl⟩
  refine ⟨fun i => ⟨toId_ofId i, hself i⟩, fun i j => ofId_injective.eq_iff, ?_,
    fun s => ⟨?_, fun e => parse_eq_error_iff⟩, fun s i => toId_eq_ok_iff, ?_, ?_⟩
  · intro x t l m ms me author hwork hme hm hfree hrun hbuffer
    unfold Exchange.act?
    rw [hwork]
    exact Exchange.listenerAct?_of_author hme hm hfree hrun hbuffer
  · constructor
    · rintro ⟨c, hc⟩
      obtain ⟨i, hi, -⟩ := parse_eq_ok_iff.1 hc
      exact ⟨i, hi⟩
    · rintro ⟨i, hi⟩
      exact ⟨ofId i, parse_eq_ok_iff.2 ⟨i, hi, rfl⟩⟩
  · intro s c hc
    obtain ⟨i, hi, rfl⟩ := parse_eq_ok_iff.1 hc
    exact ⟨hself i, i, toId_ofId i, hi⟩
  · intro s t c d hc hd
    obtain ⟨i, hi, rfl⟩ := parse_eq_ok_iff.1 hc
    obtain ⟨j, hj, rfl⟩ := parse_eq_ok_iff.1 hd
    rw [hi, hj, ofId_injective.eq_iff, Except.ok.injEq]

/-- Two texts of one peer, the second of octets in which the code has nine groups too many, and a
listener of another node that takes a message of that peer. -/
theorem names_are_identities_overlong : ∃ (i me : PeerId) (c : PeerName),
    let plain := Base58.encode [0, 0]
    let overlong := Base58.encode [128, 128, 128, 128, 128, 128, 128, 128, 128, 2, 0]
    let m : Message := .direct (ofId i) [7]
    let l : Listener := ⟨1, 0, by decide, ofId me, "node", none, false⟩
    let x : Exchange := { channels := [⟨1, [], 0, 1⟩, ⟨1, [m], 1, 0⟩] }
    plain ≠ overlong ∧ parse plain = .ok c ∧ parse overlong = .ok c ∧
      parse c.text = .ok c ∧ c.toId = .ok i ∧
      x.act? ⟨0, .listen l⟩ = some (.pull 1 m (.goesOn (.listen { l with held := some m }))) := by
  let i : PeerId := ⟨⟨0, []⟩, by decide⟩
  let me : PeerId := ⟨⟨0, [1]⟩, by decide⟩
  obtain ⟨hname, -, hlisten, htexts, hspelled, hread, hsame⟩ := names_are_identities
  have hplain := (hspelled _ i).2 ⟨[0, 0], rfl, by decide⟩
  have hoverlong := (hspelled _ i).2
    ⟨[128, 128, 128, 128, 128, 128, 128, 128, 128, 2, 0], rfl, by decide⟩
  obtain ⟨c, hc⟩ := (htexts _).1.2 ⟨i, hplain⟩
  obtain ⟨d, hd⟩ := (htexts _).1.2 ⟨i, hoverlong⟩
  obtain rfl := (hsame _ _ c d hc hd).2 (hplain.trans hoverlong.symm)
  obtain ⟨hself, j, hj, hplain'⟩ := hread _ c hc
  obtain rfl := Except.ok.inj (hplain.symm.trans hplain')
  refine ⟨i, me, c, ?_⟩
  intro plain overlong m l x
  refine ⟨fun heq => ?_, hc, hd, hself, hj, ?_⟩
  · have hoctets := (Base58.decode_encode _).symm.trans
      ((congrArg Base58.decode heq).trans (Base58.decode_encode _))
    cases hoctets
  · have hact := hlisten x ⟨0, .listen l⟩ l m [] me i rfl rfl rfl rfl rfl rfl
    rwa [if_neg (by decide)] at hact

end PeerName
end PeerNode
