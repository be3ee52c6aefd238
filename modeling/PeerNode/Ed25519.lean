import PeerNode.Digest.Sha512

/-!
# Ed25519 public keys

An Ed25519 key pair is determined by a seed of 32 octets.  The digest of the seed gives a secret
number, and the public key is that multiple of a fixed point on the curve
`-x^2 + y^2 = 1 + d x^2 y^2` over the integers modulo `2^255 - 19`.

Points are kept in extended coordinates `(X : Y : Z : T)` with `x = X / Z`, `y = Y / Z` and
`x y = T / Z`, in which adding two points takes no division and has no exceptional case.

* `publicKey`: the 32 octets of the public key of a seed.
-/

namespace PeerNode
namespace Ed25519

def prime : Nat := Nat.pow 2 255 - 19

/-- The coefficient `2 d` of the curve, where `d = -121665 / 121666`. -/
def twiceD : Nat := 16295367250680780974490674513165176452449235426866156013048779062215315747161

/-- A point in extended coordinates, each below the prime. -/
structure Point where
  x : Nat
  y : Nat
  z : Nat
  t : Nat

def Point.zero : Point := ⟨0, 1, 1, 0⟩

/-- The fixed point whose multiples are the public keys. -/
def Point.base : Point :=
  ⟨15112221349535400772501151409588531511454012693041857206046113283949847762202,
   46316835694926478169428394003475163141307993866256225615783033603165251855960,
   1,
   46827403850823179245072216630277197565144205554125654976674165829533817101731⟩

/-- The sum of two points. -/
def Point.add (p q : Point) : Point :=
  let a := (p.y + (prime - p.x)) * (q.y + (prime - q.x)) % prime
  let b := (p.y + p.x) * (q.y + q.x) % prime
  let c := p.t * twiceD % prime * q.t % prime
  let d := 2 * p.z * q.z % prime
  let e := b + (prime - a)
  let f := d + (prime - c)
  let g := d + c
  let h := b + a
  ⟨e * f % prime, g * h % prime, f * g % prime, e * h % prime⟩

/-- The multiple `n p`, after `acc`, over the lowest `bits` binary digits of `n`. -/
def Point.multiple (n : Nat) (p acc : Point) : Nat → Point
  | 0 => acc
  | bits + 1 =>
    Point.multiple (n / 2) (p.add p) (if n % 2 == 1 then acc.add p else acc) bits

/-- The power `b ^ n` modulo the prime, times `acc`, over the lowest `bits` binary digits of
`n`. -/
def power (b n acc : Nat) : Nat → Nat
  | 0 => acc
  | bits + 1 =>
    power (b * b % prime) (n / 2) (if n % 2 == 1 then acc * b % prime else acc) bits

/-- The inverse modulo the prime, by Fermat's little theorem. -/
def inverse (n : Nat) : Nat := power n (prime - 2) 1 255

/-- The octets of a number, `count` of them, the least significant first. -/
def littleEndian (n : Nat) : Nat → Bytes
  | 0 => []
  | count + 1 => (n % 256).toUInt8 :: littleEndian (n / 256) count

/-- The number that octets spell, the least significant first. -/
def ofLittleEndian : Bytes → Nat
  | [] => 0
  | b :: rest => b.toNat + 256 * ofLittleEndian rest

/-- The 32 octets of a point: the coordinate `y` with the parity of `x` as highest bit. -/
def Point.encode (p : Point) : Bytes :=
  let i := inverse p.z
  let x := p.x * i % prime
  let y := p.y * i % prime
  littleEndian (y + x % 2 * Nat.pow 2 255) 32

/-- The secret number of a seed: the lower half of its digest, made a multiple of eight between
`2^254` and `2^255`. -/
def secret (seed : Bytes) : Nat :=
  let n := ofLittleEndian ((sha512 seed).take 32)
  n % Nat.pow 2 254 / 8 * 8 + Nat.pow 2 254

/-- The 32 octets of the public key of a seed. -/
def publicKey (seed : Bytes) : Bytes :=
  (Point.multiple (secret seed) Point.base Point.zero 255).encode

end Ed25519
end PeerNode
