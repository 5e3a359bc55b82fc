import Mathlib.Algebra.Group.Nat.Defs
import Mathlib.Data.List.Nodup
import Mathlib.Data.List.Perm.Subperm

/-!
# Counters that skip zero

Numbers are handed out by machine counters that go on from one, not from zero,
when they wrap.  Before that they count, and more of them than are taken leave
one that is free.
-/

namespace ExpOS

theorem max_one_eq {x : UInt32} (h : x ≠ 0) : max x 1 = x := by
  change (if x ≤ 1 then 1 else x) = x
  split
  · next hle =>
    have hpos : x.toNat ≠ 0 := fun hzero => h (UInt32.toNat_inj.mp hzero)
    have hone : x.toNat ≤ 1 := UInt32.le_iff_toNat_le.mp hle
    exact UInt32.toNat_inj.mp (Nat.le_antisymm (Nat.pos_of_ne_zero hpos) hone)
  · rfl

theorem toNat_max_succ32 {n : UInt32} (h : n.toNat + 1 < 2 ^ 32) :
    (max (n + 1) 1).toNat = n.toNat + 1 := by
  have hsucc : (n + 1).toNat = n.toNat + 1 := Nat.mod_eq_of_lt h
  have hne : n + 1 ≠ 0 := by
    intro hzero
    rw [hzero] at hsucc
    cases hsucc
  rw [max_one_eq hne, hsucc]

theorem toNat_max_succ64 {n : UInt64} (h : n.toNat + 1 < 2 ^ 64) :
    (max (n + 1) 1).toNat = n.toNat + 1 := by
  have hsucc : (n + 1).toNat = n.toNat + 1 := Nat.mod_eq_of_lt h
  change (if n + 1 ≤ 1 then 1 else n + 1).toNat = n.toNat + 1
  split
  · next hle =>
    rw [UInt64.le_iff_toNat_le, hsucc] at hle
    exact Nat.le_antisymm (Nat.le_add_left 1 _) hle
  · exact hsucc

/-- The number after one that is not zero, also when the counter wraps. -/
theorem toNat_max_succ_mod {n : UInt32} (h : n ≠ 0) :
    (max (n + 1) 1).toNat = n.toNat % (2 ^ 32 - 1) + 1 := by
  have hlt := n.toNat_lt
  by_cases hlast : n.toNat + 1 < 2 ^ 32
  · rw [toNat_max_succ32 hlast, Nat.mod_eq_of_lt (Nat.lt_sub_of_add_lt hlast)]
  · obtain rfl : n = 0xFFFFFFFF := UInt32.toNat_inj.mp (by simp; omega)
    decide

/-- More values than a list has entries do not all occur in it. -/
theorem exists_lt_notMem {α : Type*} {g : ℕ → α} {n : ℕ} {l : List α} (hlength : l.length < n)
    (hg : ∀ i < n, ∀ j < n, g i = g j → i = j) : ∃ j < n, g j ∉ l := by
  by_contra! hall
  have hnodup : ((List.range n).map g).Nodup :=
    List.nodup_range.map_on fun i hi j hj =>
      hg i (List.mem_range.mp hi) j (List.mem_range.mp hj)
  have hsubset : (List.range n).map g ⊆ l := by
    intro a ha
    obtain ⟨j, hj, rfl⟩ := List.mem_map.mp ha
    exact hall j (List.mem_range.mp hj)
  have hle := (List.subperm_of_subset hnodup hsubset).length_le
  rw [List.length_map, List.length_range] at hle
  omega

end ExpOS
