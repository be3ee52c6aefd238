import PeerNode.Bytes

/-!
# SHA-512

The secret scalar of an Ed25519 key is derived from its seed by this digest.  A message is padded
to a multiple of 128 octets and taken in block by block; each block is stretched to eighty words,
which are mixed into eight words of state one after the other.

* `sha512`: the 64 octets of the digest.
-/

namespace PeerNode
namespace Sha512

/-- The round constants: the first 64 bits after the point of the cube roots of the first eighty
primes. -/
def roundConstants : List UInt64 :=
  [0x428a2f98d728ae22, 0x7137449123ef65cd, 0xb5c0fbcfec4d3b2f, 0xe9b5dba58189dbbc,
   0x3956c25bf348b538, 0x59f111f1b605d019, 0x923f82a4af194f9b, 0xab1c5ed5da6d8118,
   0xd807aa98a3030242, 0x12835b0145706fbe, 0x243185be4ee4b28c, 0x550c7dc3d5ffb4e2,
   0x72be5d74f27b896f, 0x80deb1fe3b1696b1, 0x9bdc06a725c71235, 0xc19bf174cf692694,
   0xe49b69c19ef14ad2, 0xefbe4786384f25e3, 0x0fc19dc68b8cd5b5, 0x240ca1cc77ac9c65,
   0x2de92c6f592b0275, 0x4a7484aa6ea6e483, 0x5cb0a9dcbd41fbd4, 0x76f988da831153b5,
   0x983e5152ee66dfab, 0xa831c66d2db43210, 0xb00327c898fb213f, 0xbf597fc7beef0ee4,
   0xc6e00bf33da88fc2, 0xd5a79147930aa725, 0x06ca6351e003826f, 0x142929670a0e6e70,
   0x27b70a8546d22ffc, 0x2e1b21385c26c926, 0x4d2c6dfc5ac42aed, 0x53380d139d95b3df,
   0x650a73548baf63de, 0x766a0abb3c77b2a8, 0x81c2c92e47edaee6, 0x92722c851482353b,
   0xa2bfe8a14cf10364, 0xa81a664bbc423001, 0xc24b8b70d0f89791, 0xc76c51a30654be30,
   0xd192e819d6ef5218, 0xd69906245565a910, 0xf40e35855771202a, 0x106aa07032bbd1b8,
   0x19a4c116b8d2d0c8, 0x1e376c085141ab53, 0x2748774cdf8eeb99, 0x34b0bcb5e19b48a8,
   0x391c0cb3c5c95a63, 0x4ed8aa4ae3418acb, 0x5b9cca4f7763e373, 0x682e6ff3d6b2b8a3,
   0x748f82ee5defb2fc, 0x78a5636f43172f60, 0x84c87814a1f0ab72, 0x8cc702081a6439ec,
   0x90befffa23631e28, 0xa4506cebde82bde9, 0xbef9a3f7b2c67915, 0xc67178f2e372532b,
   0xca273eceea26619c, 0xd186b8c721c0c207, 0xeada7dd6cde0eb1e, 0xf57d4f7fee6ed178,
   0x06f067aa72176fba, 0x0a637dc5a2c898a6, 0x113f9804bef90dae, 0x1b710b35131c471b,
   0x28db77f523047d84, 0x32caab7b40c72493, 0x3c9ebe0a15c9bebc, 0x431d67c49c100d4c,
   0x4cc5d4becb3e42b6, 0x597f299cfc657e2a, 0x5fcb6fab3ad6faec, 0x6c44198c4a475817]

/-- The state before the first block: the first 64 bits after the point of the square roots of
the first eight primes. -/
def initialState : List UInt64 :=
  [0x6a09e667f3bcc908, 0xbb67ae8584caa73b, 0x3c6ef372fe94f82b, 0xa54ff53a5f1d36f1,
   0x510e527fade682d1, 0x9b05688c2b3e6c1f, 0x1f83d9abfb41bd6b, 0x5be0cd19137e2179]

/-- A word rotated right by `n` places, for `0 < n < 64`. -/
def rotateRight (x : UInt64) (n : UInt64) : UInt64 := (x >>> n) ||| (x <<< (64 - n))

def wordBytes (x : UInt64) : Bytes :=
  ([56, 48, 40, 32, 24, 16, 8, 0] : List UInt64).map fun n => (x >>> n).toUInt8

/-- The words that octets spell, eight octets to a word, the most significant first. -/
def words : Bytes → List UInt64
  | a :: b :: c :: d :: e :: f :: g :: h :: rest =>
    [a, b, c, d, e, f, g, h].foldl (fun w x => (w <<< 8) ||| x.toUInt64) 0 :: words rest
  | _ => []

/-- A message with a one bit, zero bits and its length in bits appended, so that its size is a
multiple of 128 octets. -/
def padded (msg : Bytes) : Bytes :=
  let zeros := (239 - msg.length % 128) % 128
  msg ++ [0x80] ++ List.replicate (zeros + 8) 0 ++ wordBytes (msg.length * 8).toUInt64

/-- The next word of the schedule, from the sixteen before it, the latest first. -/
def nextWord (latest : List UInt64) : UInt64 :=
  let w2 := latest.getD 1 0
  let w15 := latest.getD 14 0
  let s0 := rotateRight w15 1 ^^^ rotateRight w15 8 ^^^ (w15 >>> 7)
  let s1 := rotateRight w2 19 ^^^ rotateRight w2 61 ^^^ (w2 >>> 6)
  latest.getD 15 0 + s0 + latest.getD 6 0 + s1

/-- The schedule of a block with `n` words more than `latest` holds, the latest first. -/
def stretch : Nat → List UInt64 → List UInt64
  | 0, latest => latest
  | n + 1, latest => stretch n (nextWord latest :: latest)

/-- One round on the state, with its constant and its word of the schedule added. -/
def round (state : List UInt64) (added : UInt64) : List UInt64 :=
  match state with
  | [a, b, c, d, e, f, g, h] =>
    let s1 := rotateRight e 14 ^^^ rotateRight e 18 ^^^ rotateRight e 41
    let choice := (e &&& f) ^^^ ((~~~e) &&& g)
    let t1 := h + s1 + choice + added
    let s0 := rotateRight a 28 ^^^ rotateRight a 34 ^^^ rotateRight a 39
    let majority := (a &&& b) ^^^ (a &&& c) ^^^ (b &&& c)
    [t1 + (s0 + majority), a, b, c, d + t1, e, f, g]
  | _ => state

/-- The state after one block of sixteen words. -/
def compress (state block : List UInt64) : List UInt64 :=
  let schedule := (stretch 64 block.reverse).reverse
  let mixed := (List.zipWith (· + ·) roundConstants schedule).foldl round state
  List.zipWith (· + ·) state mixed

/-- The state after the blocks of a message, sixteen words each. -/
def absorb (state : List UInt64) (ws : List UInt64) : List UInt64 :=
  if ws.isEmpty then state else absorb (compress state (ws.take 16)) (ws.drop 16)
termination_by ws.length
decreasing_by
  cases ws with
  | nil => simp at *
  | cons w ws => simp only [List.length_drop, List.length_cons]; omega

end Sha512

/-- The 64 octets of the digest of a message. -/
def sha512 (msg : Bytes) : Bytes :=
  (Sha512.absorb Sha512.initialState (Sha512.words (Sha512.padded msg))).flatMap Sha512.wordBytes

end PeerNode
