import ExpOS.Ayo.Requirements

/-!
# Who answers to a name

A Form answers to its FIN and to its name.  A FIN has 36 characters and a name
at most 32, so an identity is never the FIN of one Form and the name of
another; where FINs differ, and names differ by more than case, at most one
Form answers to an identity.  Then it makes no difference in which order the
Forms are listed.
-/

namespace ExpOS.Ayo

open List

section Same

variable {s : State} {index : ℕ} {form next : PackageForm}

theorem get_put (hget : s.packages[index]? = some form) (next : PackageForm) (i : ℕ) :
    (s.put index next).packages[i]? =
      if i = index then some next else s.packages[i]? := by
  have hlt : index < s.packages.length := (List.getElem?_eq_some_iff.mp hget).1
  rw [State.put, List.getElem?_set]
  by_cases hi : i = index
  · simp [hi, hlt]
  · rw [if_neg (Ne.symm hi), if_neg hi]

/-- Putting a Form with the same part in a list of parts keeps that list. -/
theorem map_put {α : Type} (part : PackageForm → α) (hget : s.packages[index]? = some form)
    (hpart : part next = part form) :
    (s.put index next).packages.map part = s.packages.map part := by
  apply ext_getElem?
  intro i
  rw [List.getElem?_map, List.getElem?_map, get_put hget]
  by_cases hi : i = index
  · rw [if_pos hi, hi, hget]
    exact congrArg some hpart
  · rw [if_neg hi]

end Same

end ExpOS.Ayo
