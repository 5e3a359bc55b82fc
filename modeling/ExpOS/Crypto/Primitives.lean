import ExpOS.Support.Blocks

/-!
# SHA-256, HMAC and the storage nonce

The streaming digest of the kernel, its keyed form, and the nonce that the
system database derives from the key, the CFC, the generation and the place on
disk a slot is written to.
-/

namespace ExpOS

open Blocks

/-- The eight words of the chaining state. -/
structure HashWords where
  a : UInt32
  b : UInt32
  c : UInt32
  d : UInt32
  e : UInt32
  f : UInt32
  g : UInt32
  h : UInt32

def sha256Initial : HashWords :=
  { a := 0x6a09e667, b := 0xbb67ae85, c := 0x3c6ef372, d := 0xa54ff53a
    e := 0x510e527f, f := 0x9b05688c, g := 0x1f83d9ab, h := 0x5be0cd19 }

def sha256K : List UInt32 :=
  [0x428a2f98, 0x71374491, 0xb5c0fbcf, 0xe9b5dba5, 0x3956c25b, 0x59f111f1,
    0x923f82a4, 0xab1c5ed5, 0xd807aa98, 0x12835b01, 0x243185be, 0x550c7dc3,
    0x72be5d74, 0x80deb1fe, 0x9bdc06a7, 0xc19bf174, 0xe49b69c1, 0xefbe4786,
    0x0fc19dc6, 0x240ca1cc, 0x2de92c6f, 0x4a7484aa, 0x5cb0a9dc, 0x76f988da,
    0x983e5152, 0xa831c66d, 0xb00327c8, 0xbf597fc7, 0xc6e00bf3, 0xd5a79147,
    0x06ca6351, 0x14292967, 0x27b70a85, 0x2e1b2138, 0x4d2c6dfc, 0x53380d13,
    0x650a7354, 0x766a0abb, 0x81c2c92e, 0x92722c85, 0xa2bfe8a1, 0xa81a664b,
    0xc24b8b70, 0xc76c51a3, 0xd192e819, 0xd6990624, 0xf40e3585, 0x106aa070,
    0x19a4c116, 0x1e376c08, 0x2748774c, 0x34b0bcb5, 0x391c0cb3, 0x4ed8aa4a,
    0x5b9cca4f, 0x682e6ff3, 0x748f82ee, 0x78a5636f, 0x84c87814, 0x8cc70208,
    0x90befffa, 0xa4506ceb, 0xbef9a3f7, 0xc67178f2]

namespace HashWords

def rotateRight (x : UInt32) (count : UInt32) : UInt32 :=
  (x >>> count) ||| (x <<< (32 - count))

/-- Extend a message schedule of at least sixteen words by `count` more. -/
def extendSchedule : ℕ → List UInt32 → List UInt32
  | 0, schedule => schedule
  | count + 1, schedule =>
    let index := schedule.length
    let x := schedule.getD (index - 15) 0
    let y := schedule.getD (index - 2) 0
    let s0 := rotateRight x 7 ^^^ rotateRight x 18 ^^^ (x >>> 3)
    let s1 := rotateRight y 17 ^^^ rotateRight y 19 ^^^ (y >>> 10)
    extendSchedule count (schedule ++ [schedule.getD (index - 16) 0 + s0 +
        schedule.getD (index - 7) 0 + s1])

/-- The schedule of one block. -/
def schedule (block : ByteBlock 64) : List UInt32 :=
  extendSchedule 48 ((List.range 16).map (fun index =>
    UInt32.ofNat (Bytes.fromBeBytes ((block.val.drop (index * 4)).take 4))))

def round (w : HashWords) (k scheduled : UInt32) : HashWords :=
  let sum1 := rotateRight w.e 6 ^^^ rotateRight w.e 11 ^^^
    rotateRight w.e 25
  let choice := (w.e &&& w.f) ^^^ (~~~w.e &&& w.g)
  let temp1 := w.h + sum1 + choice + k + scheduled
  let sum0 := rotateRight w.a 2 ^^^ rotateRight w.a 13 ^^^
    rotateRight w.a 22
  let majority := (w.a &&& w.b) ^^^ (w.a &&& w.c) ^^^ (w.b &&& w.c)
  let temp2 := sum0 + majority
  { a := temp1 + temp2, b := w.a, c := w.b, d := w.c
    e := w.d + temp1, f := w.e, g := w.f, h := w.g }

def compress (state : HashWords) (block : ByteBlock 64) : HashWords :=
  let w := (sha256K.zip (schedule block)).foldl
    (fun w entry => w.round entry.1 entry.2) state
  { a := state.a + w.a, b := state.b + w.b, c := state.c + w.c
    d := state.d + w.d, e := state.e + w.e, f := state.f + w.f
    g := state.g + w.g, h := state.h + w.h }

/-- The words in order, each most significant octet first. -/
def toBytes (w : HashWords) : ByteBlock 32 :=
  ⟨[w.a, w.b, w.c, w.d, w.e, w.f, w.g, w.h].flatMap
    (fun word => Bytes.toBeBytes 4 word.toNat), by simp⟩

end HashWords

/-- The running digest; the buffer never holds a whole block. -/
structure Sha256 where
  state : HashWords
  buffer : ByteBlock 64
  buffered : ℕ
  totalLen : UInt64
  buffered_lt : buffered < 64

namespace Sha256

def new : Sha256 where
  state := sha256Initial
  buffer := ByteBlock.zeros 64
  buffered := 0
  totalLen := 0
  buffered_lt := by decide

/-- Overwrite part of a buffer; an empty or short piece always fits. -/
def fill (buffer : ByteBlock 64) (start : ℕ) (piece : Bytes)
    (h : start + piece.length ≤ 64) : ByteBlock 64 :=
  ⟨splice buffer.val start piece, by
    rw [length_splice, buffer.property]
    rw [buffer.property]
    omega⟩

/-- Compress whole blocks off the input; the state and what is left. -/
def compressBlocks : ℕ → HashWords → Bytes → HashWords × Bytes
  | 0, state, input => (state, input)
  | fuel + 1, state, input =>
    if h : 64 ≤ input.length then
      compressBlocks fuel
        (state.compress ⟨input.take 64, by
          rw [List.length_take]
          omega⟩)
        (input.drop 64)
    else
      (state, input)

theorem length_compressBlocks {fuel : ℕ} {state : HashWords}
    {input : Bytes} (h : input.length < 64 * (fuel + 1)) :
    (compressBlocks fuel state input).2.length < 64 := by
  induction fuel generalizing state input with
  | zero => simpa [compressBlocks] using h
  | succ fuel ih =>
    rw [compressBlocks]
    split
    · apply ih
      rw [List.length_drop]
      omega
    · next hshort => exact Nat.not_le.mp hshort

/-- The end of `update`: whole blocks are compressed, the rest is kept. -/
def absorb (digest : Sha256) (input : Bytes) : Sha256 :=
  let rest := compressBlocks input.length digest.state input
  have hrest : rest.2.length < 64 := length_compressBlocks (by omega)
  if rest.2 = [] then { digest with state := rest.1 }
  else
    { digest with
      state := rest.1
      buffer := fill digest.buffer 0 rest.2 (by omega)
      buffered := rest.2.length
      buffered_lt := hrest }

def update (digest : Sha256) (input : Bytes) : Sha256 :=
  let totalLen := digest.totalLen + UInt64.ofNat input.length
  if digest.buffered = 0 then absorb { digest with totalLen } input
  else
    let take := min (64 - digest.buffered) input.length
    have htake : (input.take take).length = take := by
      rw [List.length_take]
      omega
    let buffer := fill digest.buffer digest.buffered (input.take take)
      (by have := digest.buffered_lt; omega)
    if h : digest.buffered + take = 64 then
      absorb
        { state := digest.state.compress buffer
          buffer, buffered := 0, totalLen, buffered_lt := by decide }
        (input.drop take)
    else
      absorb
        { state := digest.state
          buffer, buffered := digest.buffered + take, totalLen
          buffered_lt := by have := digest.buffered_lt; omega }
        (input.drop take)

def finalize (digest : Sha256) : ByteBlock 32 :=
  let bitLen := digest.totalLen * 8
  let marked := fill digest.buffer digest.buffered [0x80]
    (by have := digest.buffered_lt; rw [List.length_singleton]; omega)
  let buffered := digest.buffered + 1
  have hlen := Bytes.length_toBeBytes 8 bitLen.toNat
  if h : 56 < buffered then
    let full := fill marked buffered (List.replicate (64 - buffered) 0)
      (by have := digest.buffered_lt; rw [List.length_replicate]; omega)
    let last := fill (ByteBlock.zeros 64) 56
      (Bytes.toBeBytes 8 bitLen.toNat) (by rw [hlen])
    ((digest.state.compress full).compress last).toBytes
  else
    let padded := fill marked buffered (List.replicate (56 - buffered) 0)
      (by rw [List.length_replicate]; omega)
    let last := fill padded 56 (Bytes.toBeBytes 8 bitLen.toNat)
      (by rw [hlen])
    (digest.state.compress last).toBytes

end Sha256

/-! ## The keyed digest -/

def hmacSha256 (key : Bytes) (parts : List Bytes) : ByteBlock 32 :=
  let keyBlock : Bytes :=
    if 64 < key.length then
      (Sha256.new.update key).finalize.val ++ List.replicate 32 0
    else
      key ++ List.replicate (64 - key.length) 0
  let innerPad := keyBlock.map (fun octet => 0x36 ^^^ octet)
  let outerPad := keyBlock.map (fun octet => 0x5c ^^^ octet)
  let inner := parts.foldl Sha256.update (Sha256.new.update innerPad)
  ((Sha256.new.update outerPad).update inner.finalize.val).finalize

/-- A turn of the derivation: the last member of the sequence and the sum of
all so far. -/
def pbkdf2Round (password : Bytes) (state : ByteBlock 32 × ByteBlock 32) :
    ByteBlock 32 × ByteBlock 32 :=
  let u := hmacSha256 password [state.1.val]
  (u, ⟨List.zipWith (· ^^^ ·) state.2.val u.val, by
    rw [List.length_zipWith, state.2.property, u.property, Nat.min_self]⟩)

/-- The first block of the derivation. -/
def pbkdf2HmacSha256 (password salt : Bytes) (rounds : UInt32) : ByteBlock 32 :=
  let rounds := max rounds.toNat 1
  let blockNumber := Bytes.toBeBytes 4 1
  let u := hmacSha256 password [salt, blockNumber]
  ((List.range (rounds - 1)).foldl (fun state _ => pbkdf2Round password state) (u, u)).2

def passwordHash (password : Bytes) (salt : ByteBlock 16) (rounds : UInt32) : ByteBlock 32 :=
  pbkdf2HmacSha256 password salt.val rounds

def storageKeyLen : ℕ := 32
def storageNonceLen : ℕ := 24
def storageTagLen : ℕ := 16

def storageNonce (key : ByteBlock storageKeyLen) (cfc : ByteBlock 16)
    (generation : UInt64) (domain : UInt32) : ByteBlock storageNonceLen :=
  let digest := hmacSha256 key.val
    [asciiBytes "ExpOS ExpFS nonce v1", cfc.val,
      Bytes.toLeBytes 8 generation.toNat, Bytes.toLeBytes 4 domain.toNat]
  ⟨digest.val.take storageNonceLen, by
    rw [List.length_take, digest.property]
    decide⟩

/-! ## Authenticated encryption -/

/-- The in-place AEAD the storage layer calls.  Encrypting and decrypting in
place keeps the length, whatever the algorithm. -/
structure StorageCipher where
  sealStorage : ByteBlock storageKeyLen → ByteBlock storageNonceLen →
    Bytes → Bytes → Option (Bytes × ByteBlock storageTagLen)
  openStorage : ByteBlock storageKeyLen → ByteBlock storageNonceLen →
    Bytes → Bytes → ByteBlock storageTagLen → Option Bytes
  length_seal : ∀ key nonce associated plain sealed tag,
    sealStorage key nonce associated plain = some (sealed, tag) → sealed.length = plain.length
  length_open : ∀ key nonce associated sealed tag plain,
    openStorage key nonce associated sealed tag = some plain → plain.length = sealed.length

end ExpOS
