import Mathlib.Data.Nat.Notation
import Mathlib.Logic.Function.Basic

/-!
# Two-level tables with entries that are split on demand

A directory entry either stands for a whole block of leaves, or names a table
with one entry for each of them.  Splitting fills a fresh table with what the
entry stood for; the leaves are the same before and after.  As long as no
table is named twice, setting one entry of a table changes one leaf.
-/

namespace ExpOS

open Function

/-- A directory whose entries are blocks or names of tables. -/
structure TwoLevel (ι α : Type*) where
  directory : ℕ → α ⊕ ι
  tables : ι → ℕ → α

namespace TwoLevel

variable {ι α : Type*} [DecidableEq ι] {width : ℕ} {expand : α → ℕ → α}
  {t : TwoLevel ι α}

/-- The leaf with a number, where `expand` gives the leaves of a block. -/
def leaf (width : ℕ) (expand : α → ℕ → α) (t : TwoLevel ι α) (page : ℕ) : α :=
  match t.directory (page / width) with
  | .inl block => expand block (page % width)
  | .inr id => t.tables id (page % width)

/-- Fill a table with the leaves of a block and name it in the directory. -/
def split (t : TwoLevel ι α) (index : ℕ) (id : ι) (leaves : ℕ → α) : TwoLevel ι α where
  directory := Function.update t.directory index (.inr id)
  tables := Function.update t.tables id leaves

/-- Let a directory entry stand for a block. -/
def setBlock (t : TwoLevel ι α) (index : ℕ) (block : α) : TwoLevel ι α :=
  { t with directory := Function.update t.directory index (.inl block) }

def setEntry (t : TwoLevel ι α) (id : ι) (offset : ℕ) (value : α) : TwoLevel ι α :=
  { t with
    tables :=
      Function.update t.tables id
        (Function.update (t.tables id) offset value) }

/-- No table is named twice. -/
def Unshared (t : TwoLevel ι α) : Prop :=
  ∀ i j id, t.directory i = .inr id → t.directory j = .inr id → i = j

/-- The table is not named. -/
def Unused (t : TwoLevel ι α) (id : ι) : Prop :=
  ∀ index, t.directory index ≠ .inr id

variable {page : ℕ} {id : ι}

omit [DecidableEq ι] in
theorem leaf_of_table (h : t.directory (page / width) = .inr id) :
    t.leaf width expand page = t.tables id (page % width) := by
  rw [leaf, h]

variable {block : α}

omit [DecidableEq ι] in
theorem leaf_of_block (h : t.directory (page / width) = .inl block) :
    t.leaf width expand page = expand block (page % width) := by
  rw [leaf, h]

variable {index : ℕ}

omit [DecidableEq ι] in
/-- A name that is left in the directory stood there before. -/
theorem directory_setBlock {i : ℕ}
    (h : (t.setBlock index block).directory i = .inr id) : t.directory i = .inr id := by
  by_cases heq : i = index
  · rw [heq, show (t.setBlock index block).directory index = .inl block from
      update_self _ _ _] at h
    cases h
  · rwa [show (t.setBlock index block).directory i = t.directory i from
      update_of_ne heq _ _] at h

/-- A name in the directory after a split stood there before, or is the new
one. -/
theorem directory_split {i : ℕ} {other : ι} {leaves : ℕ → α}
    (h : (t.split index id leaves).directory i = .inr other) :
    i = index ∧ other = id ∨ t.directory i = .inr other := by
  by_cases heq : i = index
  · rw [heq, show (t.split index id leaves).directory index = .inr id from
      update_self _ _ _] at h
    exact .inl ⟨heq, (Sum.inr.inj h).symm⟩
  · right
    rwa [show (t.split index id leaves).directory i = t.directory i from
      update_of_ne heq _ _] at h

/-- The leaves after an entry was replaced by a fresh table. -/
theorem leaf_split (hunused : t.Unused id) (index : ℕ) (leaves : ℕ → α) (page : ℕ) :
    (t.split index id leaves).leaf width expand page =
      if page / width = index then leaves (page % width)
      else t.leaf width expand page := by
  by_cases heq : page / width = index
  · have hentry : (t.split index id leaves).directory (page / width) = .inr id := by
      rw [heq]
      exact update_self _ _ _
    rw [if_pos heq, leaf_of_table hentry]
    exact congrFun (update_self _ _ _) _
  · have hentry : (t.split index id leaves).directory (page / width) =
        t.directory (page / width) := update_of_ne heq _ _
    rw [if_neg heq, leaf, hentry, leaf]
    cases hold : t.directory (page / width) with
    | inl block => rfl
    | inr other =>
      have hne : other ≠ id := by
        rintro rfl
        exact hunused _ hold
      change Function.update t.tables id leaves other (page % width) = _
      rw [update_of_ne hne]

/-- Splitting a block leaves every leaf as it is. -/
theorem leaf_split_block (hunused : t.Unused id) (hblock : t.directory index = .inl block)
    (page : ℕ) :
    (t.split index id (expand block)).leaf width expand page = t.leaf width expand page := by
  rw [leaf_split hunused]
  by_cases heq : page / width = index
  · rw [if_pos heq, leaf_of_block (heq ▸ hblock)]
  · rw [if_neg heq]

omit [DecidableEq ι] in
theorem unshared_setBlock (h : t.Unshared) (index : ℕ) (block : α) :
    (t.setBlock index block).Unshared := by
  intro i j id hi hj
  exact h i j id (directory_setBlock hi) (directory_setBlock hj)

theorem unshared_split (hunused : t.Unused id)
    (hunshared : t.Unshared) (index : ℕ) (leaves : ℕ → α) : (t.split index id leaves).Unshared := by
  intro i j other hi hj
  rcases directory_split hi with ⟨rfl, rfl⟩ | hiold
  · rcases directory_split hj with ⟨rfl, -⟩ | hjold
    · rfl
    · exact absurd hjold (hunused j)
  · rcases directory_split hj with ⟨rfl, rfl⟩ | hjold
    · exact absurd hiold (hunused i)
    · exact hunshared i j other hiold hjold

/-- Setting the entry of a leaf changes this leaf only. -/
theorem leaf_setEntry (hunshared : t.Unshared)
    (h : t.directory (page / width) = .inr id) (value : α) (other : ℕ) :
    (t.setEntry id (page % width) value).leaf width expand other =
      if other = page then value else t.leaf width expand other := by
  have hdirectory : (t.setEntry id (page % width) value).directory = t.directory := rfl
  by_cases heq : other = page
  · rw [if_pos heq, heq, leaf_of_table (hdirectory ▸ h)]
    change Function.update t.tables id _ id (page % width) = value
    rw [update_self, update_self]
  rw [if_neg heq, leaf, hdirectory, leaf]
  cases hentry : t.directory (other / width) with
  | inl block => rfl
  | inr id' =>
    change Function.update t.tables id _ id' (other % width) = _
    by_cases hid : id' = id
    · -- both leaves are in one table, so their offsets differ
      have hsame := hunshared _ _ id (hid ▸ hentry) h
      have hoffset : other % width ≠ page % width := by
        intro hmod
        apply heq
        rw [← Nat.div_add_mod other width, ← Nat.div_add_mod page width, hsame, hmod]
      rw [hid, update_self, update_of_ne hoffset]
    · rw [update_of_ne hid]

end TwoLevel

end ExpOS
