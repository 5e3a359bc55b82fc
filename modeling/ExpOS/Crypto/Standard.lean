import ExpOS.Support.Bits
import Mathlib.Data.Nat.NthRoot.Defs

/-!
# The digest, its keyed form and key derivation as published

What the digest of a message is, written on bits and 32-bit words without a
buffer or a stream: the message is padded to whole blocks, a block is expanded
to a schedule, and the schedule drives 64 rounds on eight words.  The keyed
digest and the derivation of a key from a password are functions of an
arbitrary digest.
-/

namespace ExpOS

namespace Sha2

abbrev Word := BitVec 32

/-- The eight words of a hash value. -/
abbrev Hash := Vector Word 8

def ch (x y z : Word) : Word := (x &&& y) ^^^ (~~~x &&& z)

def maj (x y z : Word) : Word := (x &&& y) ^^^ (x &&& z) ^^^ (y &&& z)

def bigSigma0 (x : Word) : Word := x.rotateRight 2 ^^^ x.rotateRight 13 ^^^ x.rotateRight 22

def bigSigma1 (x : Word) : Word := x.rotateRight 6 ^^^ x.rotateRight 11 ^^^ x.rotateRight 25

def smallSigma0 (x : Word) : Word := x.rotateRight 7 ^^^ x.rotateRight 18 ^^^ (x >>> 3)

def smallSigma1 (x : Word) : Word := x.rotateRight 17 ^^^ x.rotateRight 19 ^^^ (x >>> 10)

/-! ## Constants -/

/-- The first 64 primes. -/
def primes : List ℕ :=
  [2, 3, 5, 7, 11, 13, 17, 19, 23, 29, 31, 37, 41, 43, 47, 53, 59, 61, 67, 71, 73, 79, 83,
    89, 97, 101, 103, 107, 109, 113, 127, 131, 137, 139, 149, 151, 157, 163, 167, 173, 179,
    181, 191, 193, 197, 199, 211, 223, 227, 229, 233, 239, 241, 251, 257, 263, 269, 271, 277,
    281, 283, 293, 307, 311]

/-- The first 32 bits of the fraction of the cube root of a prime. -/
def roundConstant (t : ℕ) : Word :=
  BitVec.ofNat 32 (Nat.nthRoot 3 (primes.getD t 0 * 2 ^ 96))

/-- The first 32 bits of the fractions of the square roots of eight primes. -/
def initialHash : Hash :=
  Vector.ofFn fun i => BitVec.ofNat 32 (Nat.sqrt (primes.getD i 0 * 2 ^ 64))

/-! ## Padding -/

/-- The least number of zeros that brings a length with the marking bit to 448
modulo 512. -/
def zeroCount (length : ℕ) : ℕ := (959 - length % 512) % 512

def pad (message : List Bool) : List Bool :=
  message ++ true :: List.replicate (zeroCount message.length) false ++ Bits.ofNat 64 message.length

/-! ## Blocks -/

/-- The word `t` of the block `i`. -/
def blockWord (padded : List Bool) (i : ℕ) (t : Fin 16) : Word :=
  BitVec.ofNat 32 (Bits.toNat ((padded.drop (512 * i + 32 * t)).take 32))

/-- The schedule of the block with the words `m`. -/
def scheduleWord (m : Fin 16 → Word) (t : ℕ) : Word :=
  if h : t < 16 then m ⟨t, h⟩
  else
    smallSigma1 (scheduleWord m (t - 2)) + scheduleWord m (t - 7) +
      smallSigma0 (scheduleWord m (t - 15)) + scheduleWord m (t - 16)
termination_by t

/-- One round on the working variables `a` to `h`. -/
def round (v : Hash) (k w : Word) : Hash :=
  let t1 := v[7] + bigSigma1 v[4] + ch v[4] v[5] v[6] + k + w
  let t2 := bigSigma0 v[0] + maj v[0] v[1] v[2]
  #v[t1 + t2, v[0], v[1], v[2], v[3] + t1, v[4], v[5], v[6]]

def compress (hash : Hash) (m : Fin 16 → Word) : Hash :=
  let v := (List.range 64).foldl (fun v t => round v (roundConstant t) (scheduleWord m t)) hash
  Vector.zipWith (· + ·) v hash

/-- The hash value after the first blocks. -/
def chain (padded : List Bool) : ℕ → Hash
  | 0 => initialHash
  | i + 1 => compress (chain padded i) (blockWord padded i)

/-! ## The digest -/

/-- The digest of a bit string. -/
def digest (message : List Bool) : List Bool :=
  (chain (pad message) ((pad message).length / 512)).toList.flatMap
    fun word => Bits.ofNat 32 word.toNat

/-- The digest of a byte string. -/
def sha256 (message : Bytes) : Bytes :=
  Bits.toBytes (digest (Bits.ofBytes message))

end Sha2

open List

/-- The keyed digest made from a digest with blocks of a number of octets. -/
def keyedHash (hash : Bytes → Bytes) (blockLength : ℕ) (key text : Bytes) : Bytes :=
  let short := if blockLength < key.length then hash key else key
  let padded := short ++ replicate (blockLength - short.length) 0
  hash (padded.map (· ^^^ 0x5c) ++ hash (padded.map (· ^^^ 0x36) ++ text))

/-! ## Key derivation -/

namespace Pbkdf2

variable (prf : Bytes → Bytes → Bytes) (password salt : Bytes) (index : ℕ)

/-- The sequence that a block is the sum of, from its first member on. -/
def iterate : ℕ → Bytes
  | 0 => prf password (salt ++ Bytes.toBeBytes 4 index)
  | j + 1 => prf password (iterate j)

/-- The block with a number derived in `count` rounds. -/
def block (count : ℕ) : Bytes :=
  (List.range (count - 1)).foldl
    (fun sum j => zipWith (· ^^^ ·) sum (iterate prf password salt index (j + 1)))
    (iterate prf password salt index 0)

end Pbkdf2

end ExpOS
