import PeerNode.Node.Start

/-!
# Where a node listens

A node reads the address to listen on from a text that it has written itself.  The text has four
parts and no slash inside of any, so it is divided as it was put together (`readChars_parts`); and
the port, which is written in decimal, is read back (`Whole.readChars_toDigits`).

* `Config.listenMultiaddr_eq`: whatever the configuration, the address is one.
-/

namespace PeerNode

/-! ## Numbers in decimal -/

namespace Whole

theorem le_ofDigitChars (ds : List Char) (n : Nat) : n ≤ Nat.ofDigitChars 10 ds n := by
  induction ds generalizing n with
  | nil => simp
  | cons d ds ih =>
    rw [Nat.ofDigitChars_cons]
    exact Nat.le_trans (by omega) (ih _)

/-- Digits are read as the number that they spell, if it fits. -/
theorem readDigits_eq {bound n : Nat} {ds : List Char} (hdigits : ∀ d ∈ ds, d.isDigit = true)
    (hlt : Nat.ofDigitChars 10 ds n < bound) :
    readDigits bound n ds = .ok (Nat.ofDigitChars 10 ds n) := by
  induction ds generalizing n with
  | nil => simp [readDigits]
  | cons d ds ih =>
    rw [Nat.ofDigitChars_cons, Nat.mul_comm] at hlt ⊢
    rw [readDigits, if_pos (hdigits d List.mem_cons_self)]
    -- the number so far fits, since the whole number does
    exact (if_pos (Nat.lt_of_le_of_lt (le_ofDigitChars ds _) hlt)).trans
      (ih (fun e he => hdigits e (List.mem_cons_of_mem d he)) hlt)

/-- **A number is read back from its digits.** -/
theorem readChars_toDigits {bound n : Nat} (h : n < bound) :
    readChars bound (Nat.toDigits 10 n) = .ok n := by
  have hdigits : ∀ d ∈ Nat.toDigits 10 n, d.isDigit = true := fun d hd =>
    Nat.isDigit_of_mem_toDigits (by omega) (by omega) hd
  have hvalue : Nat.ofDigitChars 10 (Nat.toDigits 10 n) 0 = n := Nat.ofDigitChars_ten_toDigits
  have hread := readDigits_eq hdigits (hvalue.symm ▸ h)
  rw [hvalue] at hread
  rw [← hread]
  cases hds : Nat.toDigits 10 n with
  | nil => exact absurd hds Nat.toDigits_ne_nil
  | cons d ds =>
    have hplus : d ≠ '+' := by
      rintro rfl
      exact absurd (hdigits '+' (hds ▸ List.mem_cons_self)) (by decide)
    unfold readChars
    split <;> simp_all

end Whole

/-! ## Addresses -/

namespace Multiaddr

theorem readPort_toDigits (port : UInt16) :
    readPort (Nat.toDigits 10 port.toNat) = .ok port := by
  rw [readPort, readWhole, Whole.readChars_toDigits port.toNat_lt]
  simp [Except.map]

/-- An address is divided at its slashes. -/
theorem readChars_parts {a b c d : List Char} (ha : '/' ∉ a) (hb : '/' ∉ b) (hc : '/' ∉ c)
    (hd : '/' ∉ d) :
    readChars ('/' :: a ++ '/' :: b ++ '/' :: c ++ '/' :: d) = readParts [a, b, c, d] := by
  have hsplit : ('/' :: a ++ '/' :: b ++ '/' :: c ++ '/' :: d).splitOn '/' = [[], a, b, c, d] := by
    have happend : '/' :: a ++ '/' :: b ++ '/' :: c ++ '/' :: d =
        [] ++ '/' :: (a ++ '/' :: (b ++ '/' :: (c ++ '/' :: d))) := by
      simp
    rw [happend, List.splitOn_append_cons_self_of_not_mem List.not_mem_nil,
      List.splitOn_append_cons_self_of_not_mem ha, List.splitOn_append_cons_self_of_not_mem hb,
      List.splitOn_append_cons_self_of_not_mem hc, List.splitOn_eq_singleton hd]
  rw [readChars, hsplit]

theorem readParts_argument {name : String} {reader : ArgumentReader} {argument : List Char}
    {rest : List (List Char)} {component : Component} {more : Multiaddr}
    (hbare : bare? name = none) (hreader : argumentReader? name = some reader)
    (hread : reader argument = .ok component) (hrest : readParts rest = .ok more) :
    readParts (name.toList :: argument :: rest) = .ok (component :: more) := by
  simp [readParts, hbare, hreader, hread, hrest]

theorem readParts_listening {ip : List Char} {address : Ip4} (hip : Ip4.read? ip = some address)
    (port : UInt16) :
    readParts ["ip4".toList, ip, "tcp".toList, Nat.toDigits 10 port.toNat] =
      .ok [.ip4 address, .port .tcp port] := by
  refine readParts_argument (by decide) rfl (by simp [hip]) ?_
  refine readParts_argument (by decide) rfl ?_ rfl
  rw [readPort_toDigits]
  rfl

end Multiaddr

namespace Config

/-- **Whatever the configuration, there is an address to listen on.** -/
theorem listenMultiaddr_eq (c : Config) : c.listenMultiaddr =
    .ok [.ip4 (if c.localOnly then ⟨127, 0, 0, 1⟩ else ⟨0, 0, 0, 0⟩), .port .tcp c.listenPort] := by
  have hdigits : '/' ∉ Nat.toDigits 10 c.listenPort.toNat := fun hmem =>
    absurd (Nat.isDigit_of_mem_toDigits (by omega) (by omega) hmem) (by decide)
  have hread : ∀ ip : String, '/' ∉ ip.toList →
      Multiaddr.read ("/ip4/" ++ ip ++ "/tcp/" ++ toString c.listenPort.toNat) =
      Multiaddr.readParts ["ip4".toList, ip.toList, "tcp".toList,
        Nat.toDigits 10 c.listenPort.toNat] := by
    intro ip hip
    rw [← Multiaddr.readChars_parts (by decide) hip (by decide) hdigits, Multiaddr.read]
    simp
  have hall : Ip4.read? "0.0.0.0".toList = some ⟨0, 0, 0, 0⟩ := by decide
  have hlocal : Ip4.read? "127.0.0.1".toList = some ⟨127, 0, 0, 1⟩ := by decide
  rw [listenMultiaddr, listenAddress]
  cases c.localOnly
  · rw [if_neg Bool.false_ne_true, hread _ (by decide),
      Multiaddr.readParts_listening hall]
    rfl
  · rw [if_pos rfl, hread _ (by decide),
      Multiaddr.readParts_listening hlocal]
    rfl

end Config
end PeerNode
