import ExpOS.Ayo.Manager

/-!
# What the requirement checks accept

The checks report the first rule that fails.  Here is what it means that none
does, and on which parts of the state the answer depends.
-/

namespace ExpOS.Ayo

open List Option State

variable {ε α : Type} {check : α → Except ε Unit} {l : List α}

/-- Checks made one after the other pass when each of them does. -/
theorem forM_eq_ok : l.forM check = .ok () ↔ ∀ a ∈ l, check a = .ok () := by
  induction l with
  | nil => simp [pure, Except.pure]
  | cons a rest ih =>
    rw [List.forM_eq_forM, List.forM_cons, List.forall_mem_cons, ← ih]
    cases h : check a with
    | error e => simp [bind, Except.bind]
    | ok u => simp [bind, Except.bind]

/-- Checks that agree on the list report the same. -/
theorem forM_congr {check' : α → Except ε Unit} (h : ∀ a ∈ l, check a = check' a) :
    l.forM check = l.forM check' := by
  induction l with
  | nil => rfl
  | cons a rest ih =>
    rw [forall_mem_cons] at h
    rw [List.forM_eq_forM, List.forM_cons, List.forM_cons, h.1, ← List.forM_eq_forM, ih h.2]

/-! ## Activation and the rest of a state -/

/-- The Form without what a reconciliation changes. -/
def PackageForm.core (form : PackageForm) : PackageForm :=
  { form with active := false, lastError := [], revision := 0 }

/-- The Forms without what a reconciliation changes. -/
def State.cores (state : State) : List PackageForm :=
  state.packages.map PackageForm.core

/-- The places of the active Forms. -/
def State.on (state : State) : Set ℕ :=
  {index | ∃ form, state.packages[index]? = some form ∧ form.active = true}

section Cores

variable {s t : State}

theorem length_eq_of_cores (h : s.cores = t.cores) : s.packages.length = t.packages.length := by
  simpa [cores] using congrArg List.length h

variable {form : PackageForm} {index : ℕ}

/-- States with the same cores have corresponding Forms. -/
theorem get_of_cores (h : s.cores = t.cores) (hget : s.packages[index]? = some form) :
    ∃ form', t.packages[index]? = some form' ∧ form.core = form'.core := by
  have hcore : t.cores[index]? = some form.core := by
    rw [← h, cores, List.getElem?_map, hget]
    rfl
  rw [cores, List.getElem?_map, map_eq_some_iff] at hcore
  obtain ⟨form', hget', hcore⟩ := hcore
  exact ⟨form', hget', hcore.symm⟩

variable {form' : PackageForm}

theorem active_eq_of_on (hon : s.on = t.on) (hget : s.packages[index]? = some form)
    (hget' : t.packages[index]? = some form') : form.active = form'.active := by
  have hs : index ∈ s.on ↔ form.active = true := by
    simp [on, hget]
  have ht : index ∈ t.on ↔ form'.active = true := by
    simp [on, hget']
  rw [Bool.eq_iff_iff, ← hs, ← ht, hon]

theorem version_eq_of_core (h : form.core = form'.core) : form.version = form'.version := by
  have hversion := congrArg PackageForm.version h
  exact hversion

end Cores

/-! ## Finding and checking -/

section Library

variable [TextLibrary] {state : State} {identity dimension : Text} {index : ℕ}
  {form : PackageForm}

theorem locate_eq_some : state.locate identity dimension = some (index, form) ↔
      state.place identity dimension = some index ∧ state.packages[index]? = some form := by
  simp only [locate, bind_eq_bind, bind_eq_some_iff,
    Option.pure_def, Option.some.injEq, Prod.mk.injEq]
  constructor
  · rintro ⟨i, hplace, f, hget, rfl, rfl⟩
    exact ⟨hplace, hget⟩
  · rintro ⟨hplace, hget⟩
    exact ⟨index, hplace, form, hget, rfl, rfl⟩

/-- The Form at the place found is there and answers to the identity. -/
theorem place_eq_some (h : state.place identity dimension = some index) :
    ∃ form, state.packages[index]? = some form ∧ form.answers identity dimension = true := by
  rw [place, List.findIdx?_eq_some_iff_getElem] at h
  obtain ⟨hlt, hanswers, -⟩ := h
  exact ⟨_, List.getElem?_eq_getElem hlt, hanswers⟩

/-- The dependency is declared properly and the Form it names is active at a
version that satisfies the constraint. -/
def Met (state : State) (dimension raw : Text) : Prop :=
  ∃ name constraint index dependency, parseDependency raw = .ok (name, constraint) ∧
      state.locate name dimension = some (index, dependency) ∧ dependency.active = true ∧
          satisfies dependency.version constraint = .ok true

theorem checkFound_eq_ok {name constraint : Text}
    {found : Option (ℕ × PackageForm)} : checkFound name constraint found = .ok () ↔
      ∃ index dependency, found = some (index, dependency) ∧ dependency.active = true ∧
          satisfies dependency.version constraint = .ok true := by
  rcases found with _ | ⟨index, dependency⟩
  · simp [checkFound]
  rw [checkFound]
  by_cases hactive : dependency.active = true
  · rw [if_pos hactive]
    rcases hsat : satisfies dependency.version constraint with e | value
    · simp [hsat, bind, Except.bind]
    · cases value with
      | false => simp [hsat, bind, Except.bind]
      | true => simp [hactive, hsat, bind, Except.bind, pure, Except.pure]
  · rw [if_neg hactive]
    simp [hactive]

theorem checkDependency_eq_ok {raw : Text} : checkDependency state dimension raw = .ok () ↔
      Met state dimension raw := by
  rw [checkDependency]
  rcases hparse : parseDependency raw with e | ⟨name, constraint⟩
  · simp [Met, hparse, bind, Except.bind]
  change checkFound name constraint _ = _ ↔ _
  rw [checkFound_eq_ok]
  constructor
  · rintro ⟨index, dependency, hlocate, hactive, hsat⟩
    exact ⟨name, constraint, index, dependency, hparse, hlocate, hactive, hsat⟩
  rintro ⟨name', constraint', index, dependency, hparse', hlocate, hactive, hsat⟩
  rw [hparse] at hparse'
  cases hparse'
  exact ⟨index, dependency, hlocate, hactive, hsat⟩

theorem checkDependencies_eq_ok
    {dependencies : List Text} : checkDependencies state dimension dependencies = .ok () ↔
      ∀ raw ∈ dependencies, Met state dimension raw := by
  rw [checkDependencies, forM_eq_ok]
  simp only [checkDependency_eq_ok]

theorem packageRequirements_eq_ok : packageRequirements state form = .ok () ↔
      checkCompatibility form.compatibility form.dimension = .ok () ∧
        ∀ raw ∈ form.dependencies, Met state form.dimension raw := by
  rw [← checkDependencies_eq_ok, packageRequirements]
  cases checkCompatibility form.compatibility form.dimension with
  | error e => simp [bind, Except.bind]
  | ok u => simp [bind, Except.bind]

/-! ## What a verdict depends on -/

section Congruence

variable {s t : State} {dimension : Text}

theorem place_eq_of_cores (h : s.cores = t.cores) (identity : Text) :
    s.place identity dimension = t.place identity dimension := by
  have hmap : ∀ u : State, u.place identity dimension =
      u.cores.findIdx? fun form => form.answers identity dimension := by
    intro u
    rw [cores, List.findIdx?_map]
    rfl
  rw [hmap, hmap, h]

variable {form' : PackageForm}

theorem wanted_eq_of_core (h : form.core = form'.core) : form.wanted = form'.wanted := by
  have hwanted := congrArg PackageForm.wanted h
  exact hwanted

/-- A dependency check sees the cores and the active places only. -/
theorem checkDependency_congr (hcores : s.cores = t.cores) (hon : s.on = t.on) (raw : Text) :
    checkDependency s dimension raw = checkDependency t dimension raw := by
  rw [checkDependency, checkDependency]
  rcases parseDependency raw with e | ⟨name, constraint⟩
  · rfl
  change checkFound name constraint _ = checkFound name constraint _
  have hplace : s.place name dimension = t.place name dimension := place_eq_of_cores hcores name
  cases hfound : s.place name dimension with
  | none =>
    rw [locate, locate, ← hplace, hfound]
    rfl
  | some index =>
    obtain ⟨form, hget, -⟩ := place_eq_some hfound
    obtain ⟨form', hget', hcore⟩ := get_of_cores hcores hget
    rw [locate_eq_some.mpr ⟨hfound, hget⟩,
      locate_eq_some.mpr ⟨hplace ▸ hfound, hget'⟩, checkFound, checkFound,
      active_eq_of_on hon hget hget', version_eq_of_core hcore]

/-- The verdict on a Form depends on its core, the other cores and the active
places only. -/
theorem verdict_congr (hcores : s.cores = t.cores) (hon : s.on = t.on)
    (hcore : form.core = form'.core) : form.verdict s = form'.verdict t := by
  have hrequirements : packageRequirements s form = packageRequirements t form' := by
    have hform := congrArg (packageRequirements s) hcore
    change packageRequirements s form = packageRequirements s form' at hform
    rw [hform, packageRequirements, packageRequirements, checkDependencies, checkDependencies,
      forM_congr fun raw _ => checkDependency_congr hcores hon raw]
  rw [PackageForm.verdict, PackageForm.verdict, hrequirements, wanted_eq_of_core hcore]

end Congruence

end Library

end ExpOS.Ayo
