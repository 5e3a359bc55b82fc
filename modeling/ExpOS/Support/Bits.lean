import ExpOS.Support.Bytes
import Mathlib.Data.Nat.Bitwise

/-!
# Bit strings

Numbers and byte strings written out as bits, the most significant first.
-/

namespace ExpOS.Bits

open List Bytes

/-- The `width` low bits of a number. -/
def ofNat : ℕ → ℕ → List Bool
  | 0, _ => []
  | width + 1, n => n.testBit width :: ofNat width n

/-- The number that bits write. -/
def toNat : List Bool → ℕ
  | [] => 0
  | bit :: bits => bit.toNat * 2 ^ bits.length + toNat bits

def ofBytes (bytes : Bytes) : List Bool :=
  bytes.flatMap fun octet => ofNat 8 octet.toNat

/-- The octets that bits write, eight to one. -/
def toBytes (bits : List Bool) : Bytes :=
  Bytes.toBeBytes (bits.length / 8) (toNat bits)

/-! ## Numbers -/

variable (width n : ℕ)

@[simp]
theorem length_ofNat : (ofNat width n).length = width := by
  induction width with
  | zero => rfl
  | succ width ih => rw [ofNat, length_cons, ih]

variable (bits : List Bool)

theorem toNat_lt : toNat bits < 2 ^ bits.length := by
  induction bits with
  | nil => decide
  | cons bit bits ih =>
    rw [toNat, length_cons]
    cases bit
    · rw [Bool.toNat_false]
      omega
    · rw [Bool.toNat_true]
      omega

theorem toNat_append (more : List Bool) :
    toNat (bits ++ more) = toNat bits * 2 ^ more.length + toNat more := by
  induction bits with
  | nil => simp [toNat]
  | cons bit bits ih =>
    rw [cons_append, toNat, toNat, ih, length_append]
    ring

theorem toNat_ofNat : toNat (ofNat width n) = n % 2 ^ width := by
  induction width with
  | zero => simp [ofNat, toNat, Nat.mod_one]
  | succ width ih =>
    rw [ofNat, toNat, ih, length_ofNat, Nat.toNat_testBit, Nat.mod_pow_succ]
    ring

/-- Bits of one length are told apart by their number. -/
theorem eq_of_toNat_eq {bits more : List Bool} (hlength : bits.length = more.length)
    (h : toNat bits = toNat more) : bits = more := by
  induction bits generalizing more with
  | nil => exact (length_eq_zero_iff.mp hlength.symm).symm
  | cons bit bits ih =>
    cases more with
    | nil => cases hlength
    | cons bit' more =>
      have hlengths : bits.length = more.length := Nat.succ.inj hlength
      have hbits := toNat_lt bits
      have hmore := toNat_lt more
      rw [toNat, toNat, hlengths] at h
      rw [hlengths] at hbits
      cases bit <;> cases bit' <;> simp only [Bool.toNat_false, Bool.toNat_true] at h
      · rw [ih hlengths (by omega)]
      · omega
      · omega
      · rw [ih hlengths (by omega)]

theorem ofNat_mod : ofNat width (n % 2 ^ width) = ofNat width n := by
  apply eq_of_toNat_eq
  · rw [length_ofNat, length_ofNat]
  · rw [toNat_ofNat, toNat_ofNat, Nat.mod_mod]

/-! ## Byte strings -/

theorem ofBytes_cons (octet : UInt8) (bytes : Bytes) :
    ofBytes (octet :: bytes) = ofNat 8 octet.toNat ++ ofBytes bytes :=
  rfl

@[simp]
theorem ofBytes_append (bytes more : Bytes) :
    ofBytes (bytes ++ more) = ofBytes bytes ++ ofBytes more :=
  flatMap_append

variable (bytes : Bytes)

@[simp]
theorem length_ofBytes : (ofBytes bytes).length = 8 * bytes.length := by
  induction bytes with
  | nil => rfl
  | cons octet bytes ih =>
    rw [ofBytes_cons, length_append, length_ofNat, length_cons]
    omega

theorem toNat_ofBytes : toNat (ofBytes bytes) = fromBeBytes bytes := by
  induction bytes with
  | nil => rfl
  | cons octet bytes ih =>
    have hoctet : octet.toNat < 2 ^ 8 := octet.toNat_lt
    rw [ofBytes_cons, toNat_append, toNat_ofNat, Nat.mod_eq_of_lt hoctet, ih, length_ofBytes,
      fromBeBytes_cons, pow_mul]
    rfl

/-- Octets of a number and its bits. -/
theorem ofBytes_toBeBytes : ofBytes (toBeBytes width n) = ofNat (8 * width) n := by
  apply eq_of_toNat_eq
  · rw [length_ofBytes, length_toBeBytes, length_ofNat]
  · rw [toNat_ofBytes, toNat_ofNat, fromBeBytes, toBeBytes, reverse_reverse,
      fromLeBytes_toLeBytes, pow_mul]
    rfl

theorem toBytes_ofBytes : toBytes (ofBytes bytes) = bytes := by
  rw [toBytes, length_ofBytes, Nat.mul_div_cancel_left _ (by decide), toNat_ofBytes,
    toBeBytes_fromBeBytes]

variable (count : ℕ)

theorem take_ofBytes : (ofBytes bytes).take (8 * count) = ofBytes (bytes.take count) := by
  rcases Nat.le_total count bytes.length with hle | hle
  · have hlength : (ofBytes (bytes.take count)).length = 8 * count := by
      rw [length_ofBytes, length_take, Nat.min_eq_left hle]
    conv_lhs => rw [← take_append_drop count bytes, ofBytes_append]
    exact take_left' hlength
  · rw [take_of_length_le hle, take_of_length_le (by rw [length_ofBytes]; omega)]

theorem drop_ofBytes : (ofBytes bytes).drop (8 * count) = ofBytes (bytes.drop count) := by
  refine @append_cancel_left _ (ofBytes (bytes.take count)) _ _ ?_
  rw [← ofBytes_append, take_append_drop, ← take_ofBytes, take_append_drop]

theorem ofBytes_zeros : ofBytes (replicate count 0) = replicate (8 * count) false := by
  induction count with
  | zero => rfl
  | succ count ih =>
    rw [replicate_succ, ofBytes_cons, ih, Nat.mul_succ, Nat.add_comm, replicate_add]
    rfl

end ExpOS.Bits
