import PeerNode.Base45
import PeerNode.Base58
import PeerNode.EmojiCode
import PeerNode.Radix

/-!
# Texts that name their base

A multibase text starts with a character that says in which base the rest of it is written.

* `Multibase.decode`: the octets of such a text.
-/

namespace PeerNode
namespace Multibase

/-- The ways in which a text fails to be a multibase text. -/
inductive Fault where
  /-- The first character names no base. -/
  | unknownBase (code : Char)
  /-- The text is empty, or its rest is not written in the base it names. -/
  | invalidText
  deriving DecidableEq, Repr

/-- What the user reads about a text that is no multibase text. -/
def Fault.message : Fault → String
  | unknownBase c => "Unknown base code: " ++ String.ofList [c]
  | invalidText => "Invalid base string"

/-- The octets of a number written with the given digits; each leading zero digit is a zero
octet. -/
def positional? (digits : List Char) (cs : List Char) : Option Bytes := do
  let values ← cs.mapM fun c => digits.idxOf? c
  let n := values.foldl (fun n v => n * digits.length + v) 0
  return (values.takeWhile (· == 0)).map (fun _ => 0) ++ Base58.bytesOf n []

/-- The base-58 digits with lower case before upper case. -/
def swappedDigits : List Char :=
  "123456789abcdefghijkmnopqrstuvwxyzABCDEFGHJKLMNPQRSTUVWXYZ".toList

def base36Digits : List Char := decimalDigits ++ lowerLetters

/-- The octets of a text in the base that a character names; the outer `none` if it names
none. -/
def decodeIn (code : Char) (cs : List Char) : Option (Option Bytes) :=
  match code with
  | '\x00' => some (some (Bytes.ofText (String.ofList cs)))
  | '0' => some (Radix.base2.decode? cs)
  | '7' => some (Radix.base8.decode? cs)
  | '9' => some (positional? decimalDigits cs)
  | 'f' | 'F' => some (Radix.base16.decode? cs)
  | 'b' | 'B' => some (Radix.base32.decode? cs)
  | 'c' | 'C' => some (Radix.base32.decodePadded? cs)
  | 'v' | 'V' => some (Radix.base32Hex.decode? cs)
  | 't' | 'T' => some (Radix.base32Hex.decodePadded? cs)
  | 'h' => some (Radix.base32Z.decode? cs)
  | 'k' | 'K' => some (positional? base36Digits (cs.map Char.toLower))
  | 'R' => some (Base45.decode? cs)
  | 'Z' => some (positional? swappedDigits cs)
  | 'z' => some (positional? Base58.digits cs)
  | 'm' => some (Radix.base64.decode? cs)
  | 'M' => some (Radix.base64.decodePadded? cs)
  | 'u' => some (Radix.base64Url.decode? cs)
  | 'U' => some (Radix.base64Url.decodePadded? cs)
  | '🚀' => some (EmojiCode.decode? cs)
  | _ => none

/-- The octets of a multibase text. -/
def decode (cs : List Char) : Except Fault Bytes :=
  match cs with
  | [] => .error .invalidText
  | code :: rest =>
    match decodeIn code rest with
    | none => .error (.unknownBase code)
    | some none => .error .invalidText
    | some (some bs) => .ok bs

end Multibase
end PeerNode
