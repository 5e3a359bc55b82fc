import Mathlib.Logic.Basic

/-!
# Tables as functions

A table gives at most one entry for a place.
-/

namespace ExpOS

variable {ι α β : Type*} {f f' : ι → Option α} {i j : ι} {a entry : α}

theorem ne_of_some_none (hi : f i = some a) (hj : f j = none) : i ≠ j := by
  rintro rfl
  rw [hi] at hj
  cases hj

/-- Keys stay distinct when one place changes and no other has the new key. -/
theorem distinct_of_changed {key : α → β}
    (h : ∀ i j a b, f i = some a → f j = some b → key a = key b → i = j)
    (hchanged : ∀ {i a}, f' i = some a → i = j ∧ entry = a ∨ i ≠ j ∧ f i = some a)
    (hnew : ∀ i a, f i = some a → key a = key entry → i = j) :
    ∀ i j a b, f' i = some a → f' j = some b → key a = key b → i = j := by
  intro i j a b hi hj hkey
  rcases hchanged hi with ⟨rfl, rfl⟩ | ⟨-, hi⟩
  · rcases hchanged hj with ⟨rfl, -⟩ | ⟨-, hj⟩
    · rfl
    · exact (hnew j b hj hkey.symm).symm
  · rcases hchanged hj with ⟨rfl, rfl⟩ | ⟨-, hj⟩
    · exact hnew i a hi hkey
    · exact h i j a b hi hj hkey

end ExpOS
