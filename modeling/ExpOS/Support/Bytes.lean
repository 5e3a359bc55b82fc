import Mathlib.Data.List.Basic
import Mathlib.Tactic.Ring

/-!
# Byte strings and fixed-width words

Byte strings are lists of octets.  A word of a fixed width is written either
least significant octet first or most significant octet first; both layouts
are inverse to reading on words of that width, in both directions.
-/

namespace ExpOS

open List

/-- A byte string. -/
abbrev Bytes := List UInt8

/-- The octets of an ASCII literal. -/
def asciiBytes (literal : String) : Bytes :=
  literal.toList.map (fun c => UInt8.ofNat c.toNat)

/-- The first place at which the octets searched for stand. -/
def findBytes (needle : Bytes) : Bytes → Option ℕ
  | [] => if needle = [] then some 0 else none
  | octet :: haystack =>
    if needle.isPrefixOf (octet :: haystack) then some 0
    else (findBytes needle haystack).map (· + 1)

/-- A place that is found lies inside, and more octets behind do not move it. -/
theorem findBytes_append {needle hay : Bytes} {place : ℕ} (h : findBytes needle hay = some place)
    (more : Bytes) :
    place + needle.length ≤ hay.length ∧ findBytes needle (hay ++ more) = some place := by
  induction hay generalizing place with
  | nil =>
    rw [findBytes] at h
    split at h
    · next hempty =>
        subst hempty
        cases h
        cases more <;> exact ⟨le_rfl, rfl⟩
    · cases h
  | cons octet hay ih =>
    have hmore := prefix_append (octet :: hay) more
    rw [cons_append] at hmore ⊢
    simp only [findBytes, isPrefixOf_iff_prefix] at h ⊢
    split at h
    · next hstart =>
        cases h
        rw [if_pos (hstart.trans hmore)]
        exact ⟨by simpa using hstart.length_le, rfl⟩
    rename_i hstart
    obtain ⟨before, hbefore, rfl⟩ := Option.map_eq_some_iff.mp h
    obtain ⟨hle, hfind⟩ := ih hbefore
    have hlength : needle.length ≤ (octet :: hay).length := by
      rw [length_cons]
      omega
    rw [if_neg fun hlong => hstart (prefix_of_prefix_length_le hlong hmore hlength),
      hfind, length_cons]
    exact ⟨by omega, rfl⟩

/-- A byte string of one fixed length. -/
abbrev ByteBlock (length : ℕ) := {bytes : Bytes // bytes.length = length}

namespace ByteBlock

/-- The block of zero octets. -/
def zeros (length : ℕ) : ByteBlock length :=
  ⟨List.replicate length 0, by simp⟩

/-- Every octet of the block is zero. -/
def isZero {length : ℕ} (block : ByteBlock length) : Bool :=
  block.val.all (· == 0)

theorem isZero_iff {length : ℕ} {block : ByteBlock length} :
    block.isZero = true ↔ block = zeros length := by
  rw [isZero, all_eq_true]
  constructor
  · intro h
    apply Subtype.ext
    apply eq_replicate_iff.mpr
    exact ⟨block.property, fun b hb => by simpa using h b hb⟩
  · rintro rfl
    simp [zeros]

end ByteBlock

namespace Bytes

/-- The `width` low octets of a number, least significant first. -/
def toLeBytes : ℕ → ℕ → Bytes
  | 0, _ => []
  | width + 1, n => UInt8.ofNat n :: toLeBytes width (n / 256)

/-- The octets from one place on. -/
def part (octets : Bytes) (start width : ℕ) : Bytes :=
  (octets.drop start).take width

/-- The octet at one place, zero outside the string. -/
def octet (octets : Bytes) (place : ℕ) : UInt8 :=
  octets.getD place 0

/-- The octet with an ASCII capital letter made small. -/
def toAsciiLower (octet : UInt8) : UInt8 :=
  if 65 ≤ octet ∧ octet ≤ 90 then octet + 32 else octet

/-- Equal up to the case of ASCII letters. -/
def eqIgnoreAsciiCase (a b : Bytes) : Bool :=
  a.map toAsciiLower == b.map toAsciiLower

/-- The number written by octets whose first is the least significant. -/
def fromLeBytes : Bytes → ℕ
  | [] => 0
  | b :: bs => b.toNat + 256 * fromLeBytes bs

/-- The `width` low octets of a number, most significant first. -/
def toBeBytes (width n : ℕ) : Bytes :=
  (toLeBytes width n).reverse

/-- The number written by octets whose first is the most significant. -/
def fromBeBytes (bs : Bytes) : ℕ :=
  fromLeBytes bs.reverse

variable (width n : ℕ)

@[simp] theorem length_toLeBytes : (toLeBytes width n).length = width := by
  induction width generalizing n with
  | zero => rfl
  | succ width ih => simp [toLeBytes, ih]

@[simp] theorem length_toBeBytes : (toBeBytes width n).length = width := by
  simp [toBeBytes]

variable (bs : Bytes)

theorem fromLeBytes_lt : fromLeBytes bs < 256 ^ bs.length := by
  induction bs with
  | nil => simp [fromLeBytes]
  | cons b bs ih =>
    have hb : b.toNat < 256 := b.toNat_lt
    simp only [fromLeBytes, length_cons]
    omega

theorem fromLeBytes_toLeBytes : fromLeBytes (toLeBytes width n) = n % 256 ^ width := by
  induction width generalizing n with
  | zero => simp [toLeBytes, fromLeBytes, Nat.mod_one]
  | succ width ih =>
    simp only [toLeBytes, fromLeBytes, ih]
    have hb : (UInt8.ofNat n).toNat = n % 256 := by simp
    rw [hb, pow_succ, Nat.mul_comm (256 ^ width) 256, Nat.mod_mul]

/-- Reading what was written gives a word of that width back. -/
theorem fromLeBytes_toLeBytes_of_lt {width n : ℕ} (h : n < 256 ^ width) :
    fromLeBytes (toLeBytes width n) = n := by
  rw [fromLeBytes_toLeBytes, Nat.mod_eq_of_lt h]

/-- Writing what was read gives the octets back. -/
theorem toLeBytes_fromLeBytes : toLeBytes bs.length (fromLeBytes bs) = bs := by
  induction bs with
  | nil => rfl
  | cons b bs ih =>
    have hb : b.toNat < 256 := b.toNat_lt
    have hlow : UInt8.ofNat (b.toNat + 256 * fromLeBytes bs) = b := by
      apply UInt8.toNat_inj.mp
      simp only [UInt8.toNat_ofNat']
      omega
    have hhigh : (b.toNat + 256 * fromLeBytes bs) / 256 = fromLeBytes bs := by omega
    simp only [length_cons, toLeBytes, fromLeBytes, hlow, hhigh, ih]

theorem fromLeBytes_append (cs : Bytes) :
    fromLeBytes (bs ++ cs) = fromLeBytes bs + 256 ^ bs.length * fromLeBytes cs := by
  induction bs with
  | nil => simp [fromLeBytes]
  | cons b bs ih =>
    rw [cons_append, fromLeBytes, fromLeBytes, ih, length_cons]
    ring

theorem fromBeBytes_cons (b : UInt8) (bs : Bytes) :
    fromBeBytes (b :: bs) = b.toNat * 256 ^ bs.length + fromBeBytes bs := by
  rw [fromBeBytes, fromBeBytes, reverse_cons, fromLeBytes_append, length_reverse]
  simp only [fromLeBytes]
  ring

theorem fromBeBytes_toBeBytes_of_lt {width n : ℕ} (h : n < 256 ^ width) :
    fromBeBytes (toBeBytes width n) = n := by
  rw [fromBeBytes, toBeBytes, reverse_reverse, fromLeBytes_toLeBytes_of_lt h]

theorem toBeBytes_fromBeBytes : toBeBytes bs.length (fromBeBytes bs) = bs := by
  have h := toLeBytes_fromLeBytes bs.reverse
  rw [length_reverse] at h
  rw [toBeBytes, fromBeBytes, h, reverse_reverse]

end Bytes

end ExpOS
