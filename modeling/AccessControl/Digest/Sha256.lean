/-! # The hash function SHA-256

A message is padded to blocks of sixty-four octets.  Each block is spread to
sixty-four words, and each of these words moves eight working words one round
further; the working words are added to the state after every block.
-/
namespace AccessControl.Sha256

/-- The eight words of the state. -/
structure State where
  a : UInt32
  b : UInt32
  c : UInt32
  d : UInt32
  e : UInt32
  f : UInt32
  g : UInt32
  h : UInt32
  deriving DecidableEq, Repr

/-- The state before the first block: of the square roots of the first eight
primes, the first thirty-two bits of the fractional parts. -/
def State.initial : State :=
  ⟨0x6a09e667, 0xbb67ae85, 0x3c6ef372, 0xa54ff53a, 0x510e527f, 0x9b05688c, 0x1f83d9ab,
    0x5be0cd19⟩

/-- One constant for each round: of the cube roots of the first sixty-four primes,
the first thirty-two bits of the fractional parts. -/
def roundConstants : List UInt32 :=
  [0x428a2f98, 0x71374491, 0xb5c0fbcf, 0xe9b5dba5, 0x3956c25b, 0x59f111f1, 0x923f82a4, 0xab1c5ed5,
   0xd807aa98, 0x12835b01, 0x243185be, 0x550c7dc3, 0x72be5d74, 0x80deb1fe, 0x9bdc06a7, 0xc19bf174,
   0xe49b69c1, 0xefbe4786, 0x0fc19dc6, 0x240ca1cc, 0x2de92c6f, 0x4a7484aa, 0x5cb0a9dc, 0x76f988da,
   0x983e5152, 0xa831c66d, 0xb00327c8, 0xbf597fc7, 0xc6e00bf3, 0xd5a79147, 0x06ca6351, 0x14292967,
   0x27b70a85, 0x2e1b2138, 0x4d2c6dfc, 0x53380d13, 0x650a7354, 0x766a0abb, 0x81c2c92e, 0x92722c85,
   0xa2bfe8a1, 0xa81a664b, 0xc24b8b70, 0xc76c51a3, 0xd192e819, 0xd6990624, 0xf40e3585, 0x106aa070,
   0x19a4c116, 0x1e376c08, 0x2748774c, 0x34b0bcb5, 0x391c0cb3, 0x4ed8aa4a, 0x5b9cca4f, 0x682e6ff3,
   0x748f82ee, 0x78a5636f, 0x84c87814, 0x8cc70208, 0x90befffa, 0xa4506ceb, 0xbef9a3f7, 0xc67178f2]

/-- A word turned to the right by `n` bits. -/
def rotate (n : UInt32) (x : UInt32) : UInt32 := (x >>> n) ||| (x <<< (32 - n))

/-- The words of octets, four octets to a word, the first octet highest. -/
def words : List UInt8 → List UInt32
  | w :: x :: y :: z :: rest =>
    ((w.toUInt32 <<< 24) ||| (x.toUInt32 <<< 16) ||| (y.toUInt32 <<< 8) ||| z.toUInt32) ::
      words rest
  | _ => []

/-- The four octets of a word, the highest first. -/
def wordOctets (x : UInt32) : List UInt8 :=
  [(x >>> 24).toUInt8, (x >>> 16).toUInt8, (x >>> 8).toUInt8, x.toUInt8]

/-- Adds `n` words to a block's words, which are listed newest first. -/
def spread : Nat → List UInt32 → List UInt32
  | 0, ws => ws
  | n + 1, ws =>
    let x := ws.getD 14 0
    let y := ws.getD 1 0
    let s0 := rotate 7 x ^^^ rotate 18 x ^^^ (x >>> 3)
    let s1 := rotate 17 y ^^^ rotate 19 y ^^^ (y >>> 10)
    spread n ((ws.getD 15 0 + s0 + ws.getD 6 0 + s1) :: ws)

/-- One round, with the sum of the round's word and constant. -/
def State.round (s : State) (input : UInt32) : State :=
  let s1 := rotate 6 s.e ^^^ rotate 11 s.e ^^^ rotate 25 s.e
  let choice := (s.e &&& s.f) ^^^ ((s.e ^^^ 0xffffffff) &&& s.g)
  let t1 := s.h + s1 + choice + input
  let s0 := rotate 2 s.a ^^^ rotate 13 s.a ^^^ rotate 22 s.a
  let majority := (s.a &&& s.b) ^^^ (s.a &&& s.c) ^^^ (s.b &&& s.c)
  ⟨t1 + (s0 + majority), s.a, s.b, s.c, s.d + t1, s.e, s.f, s.g⟩

/-- The state after one block. -/
def State.absorb (s : State) (block : List UInt8) : State :=
  let inputs := List.zipWith (· + ·) roundConstants (spread 48 (words block).reverse).reverse
  let t := inputs.foldl State.round s
  ⟨s.a + t.a, s.b + t.b, s.c + t.c, s.d + t.d, s.e + t.e, s.f + t.f, s.g + t.g, s.h + t.h⟩

/-- The state after at most `fuel` blocks of a padded message. -/
def State.absorbAll : Nat → State → List UInt8 → State
  | 0, s, _ => s
  | _, s, [] => s
  | fuel + 1, s, l@(_ :: _) => absorbAll fuel (s.absorb (l.take 64)) (l.drop 64)

/-- The message with a one bit after it, zeros up to eight octets before the end of
a block, and its length in bits. -/
def pad (message : List UInt8) : List UInt8 :=
  let bits := message.length * 8
  let zeros := (119 - message.length % 64) % 64
  message ++ 0x80 :: List.replicate zeros 0 ++
    (List.range 8).map (fun i => UInt8.ofNat (bits / Nat.pow 256 (7 - i)))

/-- The thirty-two octets of the hash of a message. -/
def hash (message : List UInt8) : List UInt8 :=
  let padded := pad message
  let s := State.absorbAll (padded.length / 64) .initial padded
  [s.a, s.b, s.c, s.d, s.e, s.f, s.g, s.h].flatMap wordOctets

end AccessControl.Sha256
