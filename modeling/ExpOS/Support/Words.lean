import Mathlib.Algebra.Group.Nat.Defs

/-!
# Checked and saturating arithmetic

Machine words have operations that stop at the ends of their range or report
that they left it.  Each is described by what it does to the numbers the
words stand for.
-/

namespace ExpOS

open UInt64 (toNat_add toNat_inj toNat_zero toNat_mul)

/-- Addition that stops at the largest word. -/
def saturatingAdd (a b : UInt64) : UInt64 :=
  if a.toNat + b.toNat < 2 ^ 64 then a + b else UInt64.ofNat (2 ^ 64 - 1)

/-- Subtraction that stops at zero. -/
def saturatingSub (a b : UInt64) : UInt64 :=
  if b ≤ a then a - b else 0

def checkedAdd (a b : UInt64) : Option UInt64 :=
  if a.toNat + b.toNat < 2 ^ 64 then some (a + b) else none

def checkedMul (a b : UInt64) : Option UInt64 :=
  if a.toNat * b.toNat < 2 ^ 64 then some (a * b) else none

def checkedDiv (a b : UInt64) : Option UInt64 :=
  if b = 0 then none else some (a / b)

variable {a b c : UInt64}

theorem exists_toNat_eq {n : ℕ} (h : n < 2 ^ 64) : ∃ word : UInt64, word.toNat = n :=
  ⟨.ofNat n, UInt64.toNat_ofNat_of_lt' h⟩

theorem toNat_saturatingAdd (a b : UInt64) :
    (saturatingAdd a b).toNat = min (a.toNat + b.toNat) (2 ^ 64 - 1) := by
  rw [saturatingAdd]
  split
  · next hfits =>
      rw [toNat_add]
      omega
  rw [UInt64.toNat_ofNat_of_lt' (by decide)]
  omega

theorem toNat_saturatingAdd_of_lt (h : a.toNat + b.toNat < 2 ^ 64) :
    (saturatingAdd a b).toNat = a.toNat + b.toNat := by
  rw [toNat_saturatingAdd]
  omega

@[simp]
theorem saturatingAdd_zero (a : UInt64) : saturatingAdd a 0 = a := by
  have hlt := a.toNat_lt
  apply toNat_inj.mp
  rw [toNat_saturatingAdd, toNat_zero]
  omega

@[simp]
theorem zero_saturatingAdd (a : UInt64) : saturatingAdd 0 a = a := by
  have hlt := a.toNat_lt
  apply toNat_inj.mp
  rw [toNat_saturatingAdd, toNat_zero]
  omega

/-- Sums that stop at the same end are the same in any order. -/
theorem saturatingAdd_assoc (a b c : UInt64) :
    saturatingAdd (saturatingAdd a b) c = saturatingAdd a (saturatingAdd b c) := by
  apply toNat_inj.mp
  simp only [toNat_saturatingAdd]
  omega

theorem toNat_saturatingSub (a b : UInt64) : (saturatingSub a b).toNat = a.toNat - b.toNat := by
  rw [saturatingSub]
  split
  · next hle => exact UInt64.toNat_sub_of_le _ _ hle
  rename_i hlt
  rw [UInt64.not_le, UInt64.lt_iff_toNat_lt] at hlt
  rw [toNat_zero]
  omega

/-- A result that is returned only if it fits. -/
theorem checked_eq_some {x : UInt64} {n : ℕ} (hx : x.toNat = n % 2 ^ 64) :
    (if n < 2 ^ 64 then some x else none) = some c ↔ n = c.toNat := by
  have hc := c.toNat_lt
  constructor
  · intro h
    split at h
    · next hfits =>
        cases h
        rw [hx, Nat.mod_eq_of_lt hfits]
    · cases h
  · intro h
    rw [if_pos (by omega)]
    refine congrArg some (toNat_inj.mp ?_)
    rw [hx, h, Nat.mod_eq_of_lt hc]

theorem checkedAdd_eq_some : checkedAdd a b = some c ↔ a.toNat + b.toNat = c.toNat :=
  checked_eq_some (toNat_add a b)

theorem checkedAdd_eq_none : checkedAdd a b = none ↔ 2 ^ 64 ≤ a.toNat + b.toNat := by
  rw [checkedAdd]
  split
  · next hfits => simpa using hfits
  · next hfull => simpa using hfull

theorem checkedMul_eq_some : checkedMul a b = some c ↔ a.toNat * b.toNat = c.toNat :=
  checked_eq_some (toNat_mul a b)

end ExpOS
