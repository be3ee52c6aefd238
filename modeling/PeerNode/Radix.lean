import PeerNode.Bytes

/-!
# Octets as text, a few bits to a character

In a base that is a power of two each character stands for the same number of bits, and the bits
of the octets are written in order, the last character filled with zero bits.  Reading is strict:
bits left over at the end must be zero and too few for a further character.  A base whose letters
may stand in either case writes one of them and reads both.

In a padded form the text is filled with `=` to a multiple of a block.  Padded texts may follow
one another, so that any block may end in padding.

* `Radix`: the characters of a base and the number of bits of each.
* `Radix.encode`, `Radix.decode?`: octets as text, and back.
* `Radix.decodePadded?`: reads padded forms.
* `base2`, …, `base64Url`: the bases.
-/

namespace PeerNode

/-- A base that is a power of two. -/
structure Radix where
  /-- The characters, in order of value. -/
  symbols : List Char
  /-- The number of bits of a character. -/
  bits : Nat
  /-- Characters that are read like those of the same value, but not written. -/
  variants : List Char := []

namespace Radix

/-- The characters of octets, after `carry` of which the lowest `held` bits are still to be
written; each octet brings eight bits more. -/
def encodeFrom (r : Radix) (carry held : Nat) : Bytes → List Char
  | [] => if held = 0 then [] else [r.symbols.getD (carry * 2 ^ (r.bits - held)) '?']
  | b :: rest =>
    let all := carry * 256 + b.toNat
    let count := (held + 8) / r.bits
    let left := (held + 8) % r.bits
    let full := all / 2 ^ left
    (List.range count).map (fun i =>
        r.symbols.getD (full / 2 ^ (r.bits * (count - 1 - i)) % 2 ^ r.bits) '?') ++
      r.encodeFrom (all % 2 ^ left) left rest

def encode (r : Radix) (bs : Bytes) : String := String.ofList (r.encodeFrom 0 0 bs)

def value? (r : Radix) (c : Char) : Option Nat := (r.symbols.idxOf? c).or (r.variants.idxOf? c)

/-- The octets of characters, after `carry` of which the lowest `held` bits are still to be
used. -/
def decodeFrom (r : Radix) (carry held : Nat) : List Char → Option Bytes
  | [] => if held < r.bits ∧ carry = 0 then some [] else none
  | c :: rest => do
    let v ← r.value? c
    let all := carry * 2 ^ r.bits + v
    let held := held + r.bits
    if held < 8 then r.decodeFrom all held rest
    else
      let left := held - 8
      let octets ← r.decodeFrom (all % 2 ^ left) left rest
      return (all / 2 ^ left).toUInt8 :: octets

def decode? (r : Radix) (cs : List Char) : Option Bytes := r.decodeFrom 0 0 cs

/-- The octets of a block, which may end in padding but has to hold something else. -/
def decodeBlock? (r : Radix) (cs : List Char) : Option Bytes :=
  let bare := (cs.reverse.dropWhile (· == '=')).reverse
  if bare.isEmpty then none else r.decode? bare

/-- The octets of blocks of `size` characters each. -/
def decodeBlocks? (r : Radix) (size : Nat) (cs : List Char) : Option Bytes :=
  if _h : 0 < size ∧ size ≤ cs.length then do
    let bs ← r.decodeBlock? (cs.take size)
    let rest ← r.decodeBlocks? size (cs.drop size)
    return bs ++ rest
  else if cs.isEmpty then some [] else none
termination_by cs.length
decreasing_by rw [List.length_drop]; omega

/-- The number of characters for a whole number of octets. -/
def blockSize (r : Radix) : Nat := Nat.lcm 8 r.bits / r.bits

/-- The octets of a text of padded blocks. -/
def decodePadded? (r : Radix) (cs : List Char) : Option Bytes := r.decodeBlocks? r.blockSize cs

end Radix

def lowerLetters : List Char := "abcdefghijklmnopqrstuvwxyz".toList

def upperLetters : List Char := "ABCDEFGHIJKLMNOPQRSTUVWXYZ".toList

def decimalDigits : List Char := "0123456789".toList

namespace Radix

/-- Binary digits. -/
def base2 : Radix := ⟨"01".toList, 1, []⟩
/-- Octal digits. -/
def base8 : Radix := ⟨"01234567".toList, 3, []⟩
/-- Hexadecimal digits in lower case, read in either. -/
def base16 : Radix := ⟨"0123456789abcdef".toList, 4, "0123456789ABCDEF".toList⟩
/-- Letters in lower case, read in either, then digits. -/
def base32 : Radix := ⟨lowerLetters ++ "234567".toList, 5, upperLetters⟩
/-- Digits, then letters in lower case, read in either. -/
def base32Hex : Radix :=
  ⟨decimalDigits ++ "abcdefghijklmnopqrstuv".toList, 5,
    decimalDigits ++ "ABCDEFGHIJKLMNOPQRSTUV".toList⟩
/-- Letters and digits in an order made for reading aloud. -/
def base32Z : Radix := ⟨"ybndrfg8ejkmcpqxot1uwisza345h769".toList, 5, []⟩
/-- The base-64 characters with `+` and `/`. -/
def base64 : Radix := ⟨upperLetters ++ lowerLetters ++ decimalDigits ++ "+/".toList, 6, []⟩
/-- The base-64 characters with `-` and `_`. -/
def base64Url : Radix := ⟨upperLetters ++ lowerLetters ++ decimalDigits ++ "-_".toList, 6, []⟩

end Radix
end PeerNode
