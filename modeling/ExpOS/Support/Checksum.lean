import ExpOS.Support.Bytes
import Mathlib.Data.Nat.ModEq

/-!
# The ones' complement checksum

Octets are read as 16-bit words, a last odd octet as the high half of one.
The words are added with every carry folded back into the low end, and the
checksum is the complement of the sum.  Folding keeps a number modulo 65535
and never makes a nonzero number zero, so the check of a block is a statement
about the plain sum of its words: octets that carry their own checksum in a
field add up to 65535.
-/

namespace ExpOS.Checksum

open Bytes

/-! ## Folding carries -/

/-- Fold the part above 16 bits back in until none is left. -/
def foldCarry (sum : ℕ) : ℕ :=
  if 65535 < sum then foldCarry (sum % 65536 + sum / 65536) else sum
termination_by sum

theorem foldCarry_le (sum : ℕ) : foldCarry sum ≤ 65535 := by
  fun_induction foldCarry sum with
  | case1 sum h ih => exact ih
  | case2 sum h => exact Nat.le_of_not_lt h

theorem foldCarry_modEq (sum : ℕ) : foldCarry sum ≡ sum [MOD 65535] := by
  fun_induction foldCarry sum with
  | case1 sum h ih =>
    apply ih.trans
    have hsum : 65535 * (sum / 65536) + (sum % 65536 + sum / 65536) = sum := by omega
    conv_rhs => rw [← hsum]
    exact (Nat.add_modEq_right_iff.mpr (Nat.dvd_mul_right _ _)).symm
  | case2 sum h => exact .refl _

theorem foldCarry_eq_zero_iff (sum : ℕ) : foldCarry sum = 0 ↔ sum = 0 := by
  fun_induction foldCarry sum with
  | case1 sum h ih =>
    omega
  | case2 sum h => exact Iff.rfl

/-! ## Sums of words -/

/-- Add the words of a block to a running sum. -/
def checksumAdd (sum : ℕ) : Bytes → ℕ
  | high :: low :: rest =>
    checksumAdd (foldCarry (sum + Bytes.fromBeBytes [high, low])) rest
  | [high] => foldCarry (sum + high.toNat * 256)
  | [] => sum

/-- The complement of the sum. -/
def checksum (octets : Bytes) : ℕ :=
  65535 - checksumAdd 0 octets

/-- The plain sum of the words of a block. -/
def wordSum : Bytes → ℕ
  | high :: low :: rest => Bytes.fromBeBytes [high, low] + wordSum rest
  | [high] => high.toNat * 256
  | [] => 0

variable {sum : ℕ}

theorem checksumAdd_le (h : sum ≤ 65535) (octets : Bytes) : checksumAdd sum octets ≤ 65535 := by
  fun_induction checksumAdd sum octets with
  | case1 sum high low rest ih => exact ih (foldCarry_le _)
  | case2 sum high => exact foldCarry_le _
  | case3 sum => exact h

theorem checksumAdd_modEq (sum : ℕ) (octets : Bytes) :
    checksumAdd sum octets ≡ sum + wordSum octets [MOD 65535] := by
  fun_induction checksumAdd sum octets with
  | case1 sum high low rest ih =>
    apply ih.trans
    rw [wordSum, ← Nat.add_assoc]
    exact (foldCarry_modEq _).add_right _
  | case2 sum high => exact foldCarry_modEq _
  | case3 sum => exact .refl _

theorem checksumAdd_eq_zero_iff (sum : ℕ) (octets : Bytes) :
    checksumAdd sum octets = 0 ↔ sum + wordSum octets = 0 := by
  fun_induction checksumAdd sum octets with
  | case1 sum high low rest ih =>
    rw [ih, wordSum, Nat.add_eq_zero_iff, foldCarry_eq_zero_iff]
    omega
  | case2 sum high => exact foldCarry_eq_zero_iff _
  | case3 sum => exact Iff.rfl

variable {front : Bytes}

/-- After an even number of octets the next word starts afresh. -/
theorem wordSum_append (h : front.length % 2 = 0)
    (back : Bytes) : wordSum (front ++ back) = wordSum front + wordSum back := by
  fun_induction wordSum front with
  | case1 high low rest ih =>
    have hrest : rest.length % 2 = 0 := by
      simp only [List.length_cons] at h
      omega
    rw [List.cons_append, List.cons_append, wordSum, ih hrest, Nat.add_assoc]
  | case2 high => simp at h
  | case3 => simp

theorem wordSum_toBeBytes {word : ℕ} (h : word ≤ 65535) (back : Bytes) :
    wordSum (Bytes.toBeBytes 2 word ++ back) = word + wordSum back := by
  have hlength := length_toBeBytes 2 word
  have hword : fromBeBytes (toBeBytes 2 word) = word :=
    fromBeBytes_toBeBytes_of_lt (by omega)
  obtain ⟨high, low, heq⟩ := List.length_eq_two.mp hlength
  rw [heq] at hword ⊢
  rw [List.cons_append, List.cons_append, List.nil_append, wordSum, hword]

/-! ## The check of a block -/

/-- A sum that is a nonzero multiple of 65535 folds to 65535. -/
theorem checksumAdd_eq_of_dvd {octets : Bytes}
    (hsum : sum ≤ 65535) (hdvd : 65535 ∣ sum + wordSum octets)
    (hpos : sum + wordSum octets ≠ 0) : checksumAdd sum octets = 65535 := by
  have hle := checksumAdd_le hsum octets
  have hne : checksumAdd sum octets ≠ 0 := fun h => hpos ((checksumAdd_eq_zero_iff sum octets).mp h)
  have hmod : checksumAdd sum octets ≡ 0 [MOD 65535] :=
    (checksumAdd_modEq sum octets).trans (Nat.modEq_zero_iff_dvd.mpr hdvd)
  obtain ⟨times, htimes⟩ := Nat.modEq_zero_iff_dvd.mp hmod
  omega

/-- Octets whose checksum field holds the complement of the sum over the
octets with a zero field add up to 65535. -/
theorem checksumAdd_field (hsum : sum ≤ 65535) (hfront : front.length % 2 = 0) (back : Bytes) :
    checksumAdd sum (front ++ Bytes.toBeBytes 2
      (65535 - checksumAdd sum (front ++ Bytes.toBeBytes 2 0 ++ back)) ++ back) = 65535 := by
  have hempty : wordSum (front ++ toBeBytes 2 0 ++ back) = wordSum front + wordSum back := by
    rw [List.append_assoc, wordSum_append hfront, wordSum_toBeBytes (Nat.zero_le _), Nat.zero_add]
  have hle := checksumAdd_le hsum (front ++ toBeBytes 2 0 ++ back)
  have hmod := checksumAdd_modEq sum (front ++ toBeBytes 2 0 ++ back)
  have hzero := checksumAdd_eq_zero_iff sum (front ++ toBeBytes 2 0 ++ back)
  generalize checksumAdd sum (front ++ toBeBytes 2 0 ++ back) = folded at hle hmod hzero ⊢
  rw [hempty] at hmod hzero
  have hfull : wordSum (front ++ toBeBytes 2 (65535 - folded) ++ back) =
        wordSum front + (65535 - folded + wordSum back) := by
    rw [List.append_assoc, wordSum_append hfront, wordSum_toBeBytes (Nat.sub_le _ _)]
  apply checksumAdd_eq_of_dvd hsum
  · rw [hfull]
    apply Nat.modEq_zero_iff_dvd.mp
    calc
      sum + (wordSum front + (65535 - folded + wordSum back)) =
          sum + (wordSum front + wordSum back) + (65535 - folded) := by omega
      _ ≡ folded + (65535 - folded) [MOD 65535] := hmod.symm.add_right _
      _ = 65535 := by omega
      _ ≡ 0 [MOD 65535] := rfl
  · rw [hfull]
    omega

end ExpOS.Checksum
