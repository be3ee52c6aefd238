import PeerNode.PeerId
import Mathlib.Data.List.Induction
import Mathlib.Data.List.TakeWhile

/-!
# The name of a peer denotes the peer

The text of an identity is a base-58 number, and reading it gives back the octets of the identity:
leading zero octets are counted apart, and what is left has a first digit that is not zero, so
nothing is lost on the way (`Base58.decode_encode`).  The octets are those of a multihash whose two
numbers are small, so the multihash is read back too.  Hence the name of an identity denotes it
(`toId_ofId`), and peers with different identities have different names (`ofId_injective`); whoever
compares names compares identities.

* `Base58.decode_encode`: what is written in base 58 is read back.
* `Multihash.decode_encode`: so is a multihash with small numbers.
* `PeerName.toId_ofId`, `PeerName.ofId_injective`: a name denotes one identity.
-/

namespace PeerNode

namespace Base58

/-! ## Digits -/

theorem value_digit {d : Nat} (h : d < 58) :
    value? (digit d) = some d ∧ (digit d).toNat ≤ 127 ∧ (digit d = '1' ↔ d = 0) := by
  revert d
  decide

/-- Reading the digits of a number gives the number, whatever comes after them. -/
theorem readDigits_digitsOf (n : Nat) (tail : List Char) (offset : Nat) :
    ∃ offset', readDigits 0 offset (digitsOf n tail) = readDigits n offset' tail := by
  induction n using Nat.strongRecOn generalizing tail offset with
  | ind n ih =>
    rw [digitsOf]
    by_cases hn : n = 0
    · rw [if_pos hn, hn]
      exact ⟨offset, rfl⟩
    · obtain ⟨offset', hread⟩ := ih (n / 58) (by omega) (digit (n % 58) :: tail) offset
      obtain ⟨hvalue, hascii, -⟩ := value_digit (Nat.mod_lt n (by decide : 0 < 58))
      rw [if_neg hn, hread, readDigits, if_neg (by omega), hvalue]
      refine ⟨offset' + 1, ?_⟩
      simp only [Nat.div_add_mod']

theorem readDigits_zeros (zeros offset : Nat) (rest : List Char) :
    readDigits 0 offset (List.replicate zeros '1' ++ rest) = readDigits 0 (offset + zeros) rest := by
  induction zeros generalizing offset with
  | zero => rfl
  | succ zeros ih =>
    rw [List.replicate_succ, List.cons_append, readDigits, if_neg (by decide),
      show value? '1' = some 0 by decide]
    exact (ih (offset + 1)).trans (by rw [Nat.add_right_comm, Nat.add_assoc])

theorem digitsOf_eq_cons {n : Nat} (hn : n ≠ 0) (tail : List Char) :
    ∃ c rest, digitsOf n tail = c :: rest ∧ c ≠ '1' := by
  induction n using Nat.strongRecOn generalizing tail with
  | ind n ih =>
    rw [digitsOf, if_neg hn]
    by_cases hsmall : n / 58 = 0
    · refine ⟨digit (n % 58), tail, by rw [hsmall, digitsOf, if_pos rfl], fun hzero => ?_⟩
      have := (value_digit (Nat.mod_lt n (by decide : 0 < 58))).2.2.1 hzero
      omega
    · exact ih (n / 58) (by omega) hsmall _

theorem takeWhile_digitsOf (n : Nat) : (digitsOf n []).takeWhile (· == '1') = [] := by
  by_cases hn : n = 0
  · rw [hn, digitsOf, if_pos rfl]
    rfl
  · obtain ⟨c, rest, h, hc⟩ := digitsOf_eq_cons hn []
    rw [h, List.takeWhile_cons_of_neg (by simpa using hc)]

/-! ## Octets -/

theorem numberOfBytes_concat (bs : Bytes) (b : UInt8) :
    numberOfBytes (bs ++ [b]) = numberOfBytes bs * 256 + b.toNat := by
  rw [numberOfBytes, List.foldl_append]
  rfl

theorem numberOfBytes_zeros (zeros bs : Bytes) (h : ∀ b ∈ zeros, b = 0) :
    numberOfBytes (zeros ++ bs) = numberOfBytes bs := by
  induction zeros with
  | nil => rfl
  | cons b zeros ih =>
    rw [h b List.mem_cons_self]
    exact ih fun c hc => h c (List.mem_cons_of_mem _ hc)

/-- The octets of a number that octets spell are these octets, if the first one is not zero. -/
theorem bytesOf_numberOfBytes (bs tail : Bytes) (h : ∀ b ∈ bs.head?, b ≠ 0) :
    bytesOf (numberOfBytes bs) tail = bs ++ tail ∧ (numberOfBytes bs = 0 → bs = []) := by
  induction bs using List.reverseRecOn generalizing tail with
  | nil => exact ⟨by rw [show numberOfBytes [] = 0 from rfl, bytesOf, if_pos rfl]; rfl, fun _ => rfl⟩
  | append_singleton bs b ih =>
    have hfirst : ∀ c ∈ bs.head?, c ≠ 0 := by
      intro c hc
      cases bs with
      | nil => cases hc
      | cons d ds => exact h c hc
    have hlt := b.toNat_lt
    have hpos : numberOfBytes bs * 256 + b.toNat ≠ 0 := by
      intro hzero
      have hnone := (ih [] hfirst).2 (by omega)
      subst hnone
      exact h b rfl (UInt8.toNat_inj.1 (by simpa using by omega))
    rw [numberOfBytes_concat]
    refine ⟨?_, fun hzero => absurd hzero hpos⟩
    rw [bytesOf, if_neg hpos, show (numberOfBytes bs * 256 + b.toNat) / 256 = numberOfBytes bs by
      omega, show (numberOfBytes bs * 256 + b.toNat) % 256 = b.toNat by omega, (ih _ hfirst).1]
    simp

/-- **What is written in base 58 is read back.** -/
theorem decode_encode (bs : Bytes) : decode (encode bs) = .ok bs := by
  have hsplit := List.takeWhile_append_dropWhile (p := (· == 0)) (l := bs)
  have hzeros : bs.takeWhile (· == 0) = List.replicate (bs.takeWhile (· == 0)).length 0 :=
    List.eq_replicate_of_mem fun b hb => by simpa using List.mem_takeWhile_imp hb
  generalize (bs.takeWhile (· == 0)).length = zeros at hzeros
  have hnumber : numberOfBytes bs = numberOfBytes (bs.dropWhile (· == 0)) := by
    conv_lhs => rw [← hsplit]
    refine numberOfBytes_zeros _ _ fun b hb => ?_
    simpa using List.mem_takeWhile_imp hb
  have hfirst : ∀ b ∈ (bs.dropWhile (· == 0)).head?, b ≠ 0 := fun b hb => by
    simpa [Option.mem_def.1 hb] using List.head?_dropWhile_not (· == 0) bs
  have hread : readDigits 0 0 (List.replicate zeros '1' ++ digitsOf (numberOfBytes bs) []) =
      .ok (numberOfBytes bs) := by
    obtain ⟨offset', h⟩ := readDigits_digitsOf (numberOfBytes bs) [] (0 + zeros)
    rw [readDigits_zeros, h, readDigits]
  have hones : (List.replicate zeros '1' ++ digitsOf (numberOfBytes bs) []).takeWhile (· == '1') =
      List.replicate zeros '1' := by
    rw [List.takeWhile_append_of_pos fun c hc => by simp [List.eq_of_mem_replicate hc],
      takeWhile_digitsOf, List.append_nil]
  unfold decode encode
  rw [String.toList_ofList, hzeros, List.map_replicate]
  simp only [decodeChars, hread, bind, Except.bind, pure, Except.pure, hones, List.map_replicate]
  rw [hnumber, (bytesOf_numberOfBytes _ [] hfirst).1, List.append_nil, ← hzeros, hsplit]

end Base58

/-! ## Multihashes -/

namespace Varint

/-- A number below 128 takes one octet. -/
theorem read_encode {n : Nat} (h : n < 128) (rest : Bytes) :
    read (encode n ++ rest) = .ok (n, rest) := by
  have hsmall : n.toUInt8 < 128 := by
    rw [UInt8.lt_iff_toNat_lt, Nat.toUInt8, UInt8.toNat_ofNat']
    simpa using by omega
  have hvalue : n.toUInt8.toNat = n := by
    rw [Nat.toUInt8, UInt8.toNat_ofNat']
    omega
  rw [encode, if_pos h, List.singleton_append, read, readGroups, if_pos hsmall]
  simp only [bne_self_eq_false, Bool.and_false, Bool.false_eq_true, if_false, hvalue]
  rw [Nat.mod_eq_of_lt (by have : UInt64.size = 2 ^ 64 := rfl; omega)]

end Varint

/-- **A multihash with small numbers is read back.** -/
theorem Multihash.decode_encode (h : Multihash) (hcode : h.code < 128)
    (hdigest : h.digest.length ≤ maxDigest) : decode h.encode = .ok h := by
  have hsize : h.digest.length < 128 := lt_of_le_of_lt hdigest (by decide)
  unfold decode encode
  rw [List.append_assoc, Varint.read_encode hcode]
  simp only [Varint.read_encode hsize, if_neg (Nat.not_lt.2 hdigest), if_neg (Nat.lt_irrefl _)]

/-! ## Peers -/

theorem PeerId.small (i : PeerId) :
    i.hash.code < 128 ∧ i.hash.digest.length ≤ Multihash.maxDigest := by
  rcases Bool.or_eq_true_iff.1 i.identifies with h | h <;>
    obtain ⟨hcode, hlength⟩ := Bool.and_eq_true_iff.1 h <;>
    rw [beq_iff_eq.1 hcode]
  · exact ⟨by decide, of_decide_eq_true hlength⟩
  · exact ⟨by decide, (of_decide_eq_true hlength).trans (by decide)⟩

/-- **The text of an identity denotes it.** -/
theorem PeerId.ofText_toText (i : PeerId) : ofText i.toText = .ok i := by
  obtain ⟨hcode, hdigest⟩ := i.small
  rw [ofText, toText, Base58.decode_encode]
  simp only [ofBytes, toBytes, Multihash.decode_encode i.hash hcode hdigest, i.identifies, dif_pos]

namespace PeerName

/-- **The name of an identity denotes it.** -/
theorem toId_ofId (i : PeerId) : (ofId i).toId = .ok i := by
  unfold toId ofId
  rw [PeerId.ofText_toText]

/-- **Different identities have different names.** -/
theorem ofId_injective : Function.Injective ofId := by
  intro i j h
  have hboth := (toId_ofId i).symm.trans ((congrArg toId h).trans (toId_ofId j))
  exact Except.ok.inj hboth

end PeerName
end PeerNode
