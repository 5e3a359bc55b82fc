import ExpOS.Ayo.Identities
import ExpOS.Support.Sweep

/-!
# Reconciliation

A reconciliation passes over the Forms of a Dimension and gives each of them
the activation and the message that fit what the others show at that moment.
It stops when a pass changes nothing, or after one pass more than there are
Forms.

On the activations a pass is a sweep over a board of switches: the Forms that
are wanted and whose rules, versions and names fit are allowed to be on, and
each needs the Forms it depends on.  Forms that depend on one another in a
circle can pass their activations round for ever.  Where no such circle exists
the passes come to rest in time.
-/

namespace ExpOS.Ayo

open List Function Board

section Library

variable [TextLibrary]

/-! ## The board of a Dimension -/

/-- The switches of a Dimension: a Form is allowed to be on if it is wanted,
its rules hold and the Forms it depends on exist at fitting versions. -/
def board (forms : List PackageForm) (dimension : Text) : Board ℕ where
  Allowed i := ∃ form, forms[i]? = some form ∧ form.dimension = dimension ∧ form.wanted = true ∧
    checkCompatibility form.compatibility dimension = .ok () ∧
    ∀ raw ∈ form.dependencies, ∃ name constraint index dependency,
      parseDependency raw = .ok (name, constraint) ∧
        forms.findIdx? (·.answers name dimension) = some index ∧ forms[index]? = some dependency ∧
        satisfies dependency.version constraint = .ok true
  Needs i j := ∃ form, forms[i]? = some form ∧ form.dimension = dimension ∧
    ∃ raw ∈ form.dependencies, ∃ name constraint, parseDependency raw = .ok (name, constraint) ∧
        forms.findIdx? (·.answers name dimension) = some j

/-- The place holds a Form of the Dimension. -/
def inDimension (forms : List PackageForm) (dimension : Text) (i : ℕ) :
    Bool :=
  (forms[i]?).any (·.dimension == dimension)

/-- The places of the Forms of the Dimension. -/
def places (forms : List PackageForm) (dimension : Text) : List ℕ :=
  (List.range forms.length).filter (inDimension forms dimension)

variable {s : State} {dimension : Text} {index : ℕ} {form : PackageForm}

theorem findIdx_cores (s : State) (name dimension : Text) :
    s.cores.findIdx? (·.answers name dimension) = s.place name dimension := by
  rw [State.cores, List.findIdx?_map]
  rfl

omit [TextLibrary] in
theorem get_cores (hget : s.packages[index]? = some form) : s.cores[index]? = some form.core := by
  rw [State.cores, List.getElem?_map, hget]
  rfl

omit [TextLibrary] in
theorem inDimension_cores (hget : s.packages[index]? = some form) :
    inDimension s.cores dimension index = true ↔ form.dimension = dimension := by
  simp [inDimension, get_cores hget, PackageForm.core]

/-- A Form may be on while the active ones are if it is wanted and its
requirements hold. -/
theorem ready_iff (hget : s.packages[index]? = some form) (hdim : form.dimension = dimension) :
    (board s.cores dimension).Ready s.on index ↔
      form.wanted = true ∧ packageRequirements s form = .ok () := by
  rw [packageRequirements_eq_ok, hdim]
  constructor
  · rintro ⟨⟨f, hf, -, hwanted, hrules, hdeps⟩, hneeds⟩
    obtain rfl : form.core = f := by
      rw [get_cores hget] at hf
      exact Option.some.inj hf
    refine ⟨hwanted, hrules, ?_⟩
    intro raw hraw
    obtain ⟨name, constraint, i, dependency, hparse, hplace, hdep, hsat⟩ := hdeps raw hraw
    obtain ⟨found, hfound, hactive⟩ :=
      hneeds i ⟨form.core, hf, hdim, raw, hraw, name, constraint, hparse, hplace⟩
    obtain rfl : found.core = dependency := by
      rw [get_cores hfound] at hdep
      exact Option.some.inj hdep
    rw [findIdx_cores] at hplace
    exact ⟨name, constraint, i, found, hparse, locate_eq_some.mpr ⟨hplace, hfound⟩, hactive, hsat⟩
  · rintro ⟨hwanted, hrules, hmet⟩
    refine ⟨⟨form.core, get_cores hget, hdim, hwanted, hrules, ?_⟩, ?_⟩
    · intro raw hraw
      obtain ⟨name, constraint, i, dependency, hparse, hlocate, -, hsat⟩ := hmet raw hraw
      obtain ⟨hplace, hfound⟩ := locate_eq_some.mp hlocate
      refine ⟨name, constraint, i, dependency.core, hparse, ?_, get_cores hfound, hsat⟩
      rw [findIdx_cores]
      exact hplace
    · rintro j ⟨f, hf, -, raw, hraw, name, constraint, hparse, hplace⟩
      obtain rfl : form.core = f := by
        rw [get_cores hget] at hf
        exact Option.some.inj hf
      rw [findIdx_cores] at hplace
      obtain ⟨name', constraint', i, dependency, hparse', hlocate, hactive, -⟩ := hmet raw hraw
      rw [hparse] at hparse'
      cases hparse'
      obtain ⟨hplace', hfound⟩ := locate_eq_some.mp hlocate
      rw [hplace] at hplace'
      cases hplace'
      exact ⟨dependency, hfound, hactive⟩

theorem verdict_active : (form.verdict s).1 = true ↔
      form.wanted = true ∧ packageRequirements s form = .ok () := by
  rw [PackageForm.verdict]
  rcases packageRequirements s form with e | u
  · simp
  · simp

/-! ## One Form at a time -/

/-- The Form with another activation and message. -/
def PackageForm.settled (form : PackageForm) (verdict : Bool × Text) :
    PackageForm :=
  { form with
    active := verdict.1
    lastError := verdict.2
    revision := form.revision + 1 }

/-- The Form shows the activation and the message that fit the state. -/
def Fits (s : State) (form : PackageForm) : Prop :=
  form.active = (form.verdict s).1 ∧ form.lastError = (form.verdict s).2

/-- The step at a place: nothing there to do, or the Form gets its verdict and
the change is counted. -/
theorem reconcileForm_cases (dimension : Text) (s : State) (count index : ℕ) :
    (reconcileForm dimension (s, count) index = (s, count) ∧
      ∀ form, s.packages[index]? = some form → form.dimension = dimension → Fits s form) ∨
    ∃ form, s.packages[index]? = some form ∧ form.dimension = dimension ∧ ¬ Fits s form ∧
      reconcileForm dimension (s, count) index =
        (s.put index (form.settled (form.verdict s)), count + 1) := by
  rw [reconcileForm]
  cases hget : s.packages[index]? with
  | none =>
    left
    exact ⟨rfl, fun form hform => by cases hform⟩
  | some form =>
    dsimp only
    by_cases hdim : form.dimension = dimension
    · rw [if_neg (not_not.mpr hdim)]
      by_cases hfits : Fits s form
      · left
        rw [if_neg (by rw [not_or, not_not, not_not]; exact hfits)]
        refine ⟨rfl, fun form' hform' _ => ?_⟩
        cases hform'
        exact hfits
      · right
        rw [if_pos (by rw [← not_and_or]; exact hfits)]
        exact ⟨form, rfl, hdim, hfits, rfl⟩
    · left
      rw [if_pos hdim]
      refine ⟨rfl, fun form' hform' hdim' => ?_⟩
      cases hform'
      exact absurd hdim' hdim

omit [TextLibrary] in
theorem cores_put (hget : s.packages[index]? = some form)
    {next : PackageForm} (hcore : next.core = form.core) : (s.put index next).cores = s.cores :=
  map_put PackageForm.core hget hcore

omit [TextLibrary] in
theorem mem_on_iff (hget : s.packages[index]? = some form) : index ∈ s.on ↔ form.active = true := by
  simp [State.on, hget]

/-- A step keeps the cores and, on the activations, sets one switch. -/
theorem reconcileForm_on (dimension : Text) (s : State) (count index : ℕ) :
    (reconcileForm dimension (s, count) index).1.cores = s.cores ∧
      (reconcileForm dimension (s, count) index).1.on =
        if inDimension s.cores dimension index then
          (board s.cores dimension).update s.on index
        else s.on := by
  rcases reconcileForm_cases dimension s count index with
    ⟨heq, hfits⟩ | ⟨form, hget, hdim, -, heq⟩
  · rw [heq]
    refine ⟨rfl, ?_⟩
    split
    · next hin =>
        obtain ⟨form, hget, hdim⟩ : ∃ form,
            s.packages[index]? = some form ∧ form.dimension = dimension := by
          cases hget : s.packages[index]? with
          | none =>
            simp [inDimension, State.cores, hget] at hin
          | some form => exact ⟨form, rfl, (inDimension_cores hget).mp hin⟩
        ext i
        by_cases hi : i = index
        · rw [hi, mem_update_self, ready_iff hget hdim,
            ← verdict_active, ← (hfits form hget hdim).1, mem_on_iff hget]
        · rw [mem_update_of_ne hi]
    · rfl
  · rw [heq]
    refine ⟨cores_put hget rfl, ?_⟩
    rw [if_pos ((inDimension_cores hget).mpr hdim)]
    ext i
    by_cases hi : i = index
    · rw [hi, mem_update_self, ready_iff hget hdim, ← verdict_active]
      simp [State.on, get_put hget, PackageForm.settled]
    · rw [mem_update_of_ne hi]
      simp [State.on, get_put hget, hi]

variable {i : ℕ}

/-- A step leaves the other places alone. -/
theorem reconcileForm_get (dimension : Text) (s : State) (count index : ℕ) (hi : i ≠ index) :
    (reconcileForm dimension (s, count) index).1.packages[i]? = s.packages[i]? := by
  rcases reconcileForm_cases dimension s count index with
    ⟨heq, -⟩ | ⟨form, hget, -, -, heq⟩
  · rw [heq]
  · rw [heq, get_put hget, if_neg hi]

/-- A step leaves the Forms of other Dimensions alone. -/
theorem reconcileForm_other (dimension : Text) (s : State) (count index : ℕ)
    (hget : s.packages[i]? = some form) (hdim : form.dimension ≠ dimension) :
    (reconcileForm dimension (s, count) index).1.packages[i]? = some form := by
  rcases reconcileForm_cases dimension s count index with
    ⟨heq, -⟩ | ⟨found, hfound, hfoundDim, -, heq⟩
  · rw [heq, hget]
  rw [heq, get_put hfound]
  have hi : i ≠ index := by
    rintro rfl
    rw [hget] at hfound
    cases hfound
    exact hdim hfoundDim
  rw [if_neg hi, hget]

/-! ## Passes -/

/-- The steps at a list of places. -/
def stepsAt (dimension : Text) (l : List ℕ) (progress : State × ℕ) : State × ℕ :=
  l.foldl (reconcileForm dimension) progress

theorem reconcilePass_eq (dimension : Text) (s : State) : reconcilePass dimension s =
      stepsAt dimension (List.range s.packages.length) (s, 0) := rfl

variable {l : List ℕ}

/-- A property that every step keeps holds after the steps. -/
theorem stepsAt_induct {P : State → Prop} (hstep : ∀ s count, ∀ i ∈ l, P s →
      P (reconcileForm dimension (s, count) i).1)
    {progress : State × ℕ} (h : P progress.1) : P (stepsAt dimension l progress).1 := by
  induction l generalizing progress with
  | nil => exact h
  | cons i rest ih =>
    apply ih
    · intro s count j hj
      exact hstep s count j (mem_cons_of_mem i hj)
    · exact hstep progress.1 progress.2 i mem_cons_self h

theorem stepsAt_cores (dimension : Text) (l : List ℕ) (progress : State × ℕ) :
    (stepsAt dimension l progress).1.cores = progress.1.cores := by
  apply stepsAt_induct (P := fun s => s.cores = progress.1.cores)
  · intro s count i _ hs
    rw [(reconcileForm_on dimension s count i).1, hs]
  · rfl

theorem stepsAt_get (dimension : Text) (hi : i ∉ l) (progress : State × ℕ) :
    (stepsAt dimension l progress).1.packages[i]? = progress.1.packages[i]? := by
  apply stepsAt_induct (P := fun s => s.packages[i]? = progress.1.packages[i]?)
  · intro s count j hj hs
    rw [reconcileForm_get dimension s count j (by rintro rfl; exact hi hj), hs]
  · rfl

/-- On the activations, steps are a sweep. -/
theorem stepsAt_on (dimension : Text) (l : List ℕ) (progress : State × ℕ) :
    (stepsAt dimension l progress).1.on = (board progress.1.cores dimension).sweep
        (l.filter (inDimension progress.1.cores dimension)) progress.1.on := by
  induction l generalizing progress with
  | nil => rfl
  | cons i rest ih =>
    obtain ⟨s, count⟩ := progress
    obtain ⟨hcores, hon⟩ := reconcileForm_on dimension s count i
    change (stepsAt dimension rest (reconcileForm dimension (s, count) i)).1.on = _
    rw [ih, hcores, hon]
    by_cases hin : inDimension s.cores dimension i = true
    · rw [if_pos hin, filter_cons_of_pos hin, sweep_cons]
    · rw [if_neg hin, filter_cons_of_neg hin]

/-- The count of changes does not fall, and stays only if the state does and
the Forms at the places fit. -/
theorem stepsAt_count (dimension : Text) (l : List ℕ) (s : State) (count : ℕ) :
    count ≤ (stepsAt dimension l (s, count)).2 ∧ ((stepsAt dimension l (s, count)).2 = count →
        (stepsAt dimension l (s, count)).1 = s ∧ ∀ i ∈ l, ∀ form, s.packages[i]? = some form →
            form.dimension = dimension → Fits s form) := by
  induction l generalizing s count with
  | nil => exact ⟨le_rfl, fun _ => ⟨rfl, fun i hi => by cases hi⟩⟩
  | cons i rest ih =>
    change count ≤ (stepsAt dimension rest (reconcileForm dimension (s, count) i)).2 ∧
      ((stepsAt dimension rest (reconcileForm dimension (s, count) i)).2 = count → _)
    rcases reconcileForm_cases dimension s count i with
      ⟨heq, hfits⟩ | ⟨form, -, -, -, heq⟩
    · obtain ⟨hle, hsame⟩ := ih s count
      change _ ∧ (_ → (stepsAt dimension rest (reconcileForm dimension (s, count) i)).1 = s ∧ _)
      rw [heq]
      refine ⟨hle, fun hcount => ?_⟩
      obtain ⟨hstate, hrest⟩ := hsame hcount
      refine ⟨hstate, ?_⟩
      intro j hj
      rcases mem_cons.mp hj with rfl | hj
      · exact hfits
      · exact hrest j hj
    · rw [heq]
      have hle := (ih (s.put i (form.settled (form.verdict s))) (count + 1)).1
      refine ⟨by omega, fun hcount => ?_⟩
      omega

/-- Every Form of the Dimension shows what fits the state. -/
def Settled (dimension : Text) (s : State) : Prop :=
  ∀ (index : ℕ) (form : PackageForm), s.packages[index]? = some form →
    form.dimension = dimension → Fits s form

theorem stepsAt_of_settled (h : Settled dimension s) (l : List ℕ)
    (count : ℕ) : stepsAt dimension l (s, count) = (s, count) := by
  induction l with
  | nil => rfl
  | cons i rest ih =>
    change stepsAt dimension rest (reconcileForm dimension (s, count) i) = _
    rcases reconcileForm_cases dimension s count i with
      ⟨heq, -⟩ | ⟨form, hget, hdim, hfits, -⟩
    · rw [heq, ih]
    · exact absurd (h i form hget hdim) hfits

/-- A pass counts no change exactly where every Form fits. -/
theorem reconcilePass_count : (reconcilePass dimension s).2 = 0 ↔ Settled dimension s := by
  constructor
  · intro hcount
    obtain ⟨-, hfits⟩ := (stepsAt_count dimension (List.range s.packages.length) s 0).2 hcount
    intro index form hget hdim
    refine hfits index ?_ form hget hdim
    rw [mem_range]
    exact (List.getElem?_eq_some_iff.mp hget).1
  · intro h
    rw [reconcilePass_eq, stepsAt_of_settled h]

theorem reconcilePass_of_settled (h : Settled dimension s) :
    reconcilePass dimension s = (s, 0) := by
  rw [reconcilePass_eq, stepsAt_of_settled h]

theorem reconcilePass_cores (dimension : Text) (s : State) :
    (reconcilePass dimension s).1.cores = s.cores :=
  stepsAt_cores _ _ _

omit [TextLibrary] in
theorem nodup_places (forms : List PackageForm) (dimension : Text) :
    (places forms dimension).Nodup :=
  nodup_range.filter _

/-- On the activations, a pass is a sweep. -/
theorem reconcilePass_on (s : State) : (reconcilePass dimension s).1.on =
      (board s.cores dimension).sweep (places s.cores dimension) s.on := by
  have hlength : s.cores.length = s.packages.length := by
    rw [State.cores, length_map]
  rw [reconcilePass_eq, stepsAt_on, places, hlength]

/-- A pass that leaves all activations as they were leaves every Form with the
message that fits, too. -/
theorem settled_of_on_eq (h : (reconcilePass dimension s).1.on = s.on) :
    Settled dimension (reconcilePass dimension s).1 := by
  intro index form hget hdim
  have hlt : index < s.packages.length := by
    rw [← length_eq_of_cores (reconcilePass_cores dimension s)]
    exact (List.getElem?_eq_some_iff.mp hget).1
  obtain ⟨first, second, hrange⟩ := append_of_mem (mem_range.mpr hlt)
  have hnodup : (first ++ index :: second).Nodup := hrange ▸ nodup_range
  have hsecond : index ∉ second := (nodup_cons.mp (nodup_append.mp hnodup).2.1).1
  -- The state in the middle of the pass, when it comes to this Form.
  obtain ⟨m, count, hm⟩ : ∃ m count, stepsAt dimension first (s, 0) = (m, count) := ⟨_, _, rfl⟩
  have hpass : reconcilePass dimension s =
      stepsAt dimension second (reconcileForm dimension (m, count) index) := by
    rw [reconcilePass_eq, hrange, stepsAt, foldl_append, show foldl _ _ first = _ from hm]
    rfl
  have hmcores : m.cores = s.cores := by
    rw [← stepsAt_cores dimension first (s, 0), hm]
  have hmon : m.on = s.on := by
    have hsplit : places s.cores dimension = first.filter (inDimension s.cores dimension) ++
          (index :: second).filter (inDimension s.cores dimension) := by
      have hlength : s.cores.length = s.packages.length := by
        rw [State.cores, length_map]
      rw [places, hlength, hrange, filter_append]
    have hswept : m.on = (board s.cores dimension).sweep
        (first.filter (inDimension s.cores dimension)) s.on := by
      have hfirst := stepsAt_on dimension first (s, 0)
      rw [hm] at hfirst
      exact hfirst
    ext i
    have hpart := mem_sweep_part (b := board s.cores dimension) s.on
      (hsplit ▸ nodup_places s.cores dimension) i
    rw [← hsplit, ← hswept, ← reconcilePass_on, h] at hpart
    exact hpart.elim id id
  have hget' : (reconcileForm dimension (m, count) index).1.packages[index]? = some form := by
    rw [← stepsAt_get dimension hsecond, ← hpass, hget]
  have hfinal : (reconcilePass dimension s).1.on = m.on := by
    rw [h, hmon]
  have hfinalCores : (reconcilePass dimension s).1.cores = m.cores := by
    rw [reconcilePass_cores, hmcores]
  rcases reconcileForm_cases dimension m count index with
    ⟨heq, hfits⟩ | ⟨found, hfound, -, -, heq⟩
  · rw [heq] at hget'
    have hform := hfits form hget' hdim
    rw [Fits, verdict_congr hfinalCores hfinal rfl]
    exact hform
  rw [heq, get_put hfound, if_pos rfl] at hget'
  cases hget'
  have hverdict : (found.settled (found.verdict m)).verdict
      (reconcilePass dimension s).1 = found.verdict m :=
    verdict_congr hfinalCores hfinal rfl
  rw [Fits, hverdict]
  exact ⟨rfl, rfl⟩

/-! ## The loop -/

/-- The state after a number of passes. -/
def passes (dimension : Text) (count : ℕ) (s : State) : State :=
  (fun s => (reconcilePass dimension s).1)^[count] s

variable (count : ℕ)

theorem passes_succ (s : State) : passes dimension (count + 1) s =
      passes dimension count (reconcilePass dimension s).1 :=
  iterate_succ_apply _ count s

theorem passes_succ' (s : State) : passes dimension (count + 1) s =
      (reconcilePass dimension (passes dimension count s)).1 :=
  iterate_succ_apply' _ count s

theorem passes_of_settled (h : Settled dimension s) (count : ℕ) : passes dimension count s = s := by
  induction count with
  | zero => rfl
  | succ count ih =>
    rw [passes_succ, reconcilePass_of_settled h, ih]

theorem settled_passes_mono {first second : ℕ} (hle : first ≤ second)
    (h : Settled dimension (passes dimension first s)) :
    Settled dimension (passes dimension second s) := by
  induction second, hle using Nat.le_induction with
  | base => exact h
  | succ second _ ih =>
    rw [passes_succ', reconcilePass_of_settled ih]
    exact ih

/-- Stopping early makes no difference to the state reached. -/
theorem reconcileLoop_state (s : State) (changed : ℕ) :
    (reconcileLoop dimension count s changed).1 = passes dimension count s := by
  induction count generalizing s changed with
  | zero => rfl
  | succ count ih =>
    rw [reconcileLoop]
    dsimp only
    by_cases hzero : (reconcilePass dimension s).2 = 0
    · rw [if_pos hzero, reconcilePass_of_settled (reconcilePass_count.mp hzero),
        passes_of_settled (reconcilePass_count.mp hzero)]
    · rw [if_neg hzero, ih, passes_succ]

theorem reconcile_state (s : State) : (reconcile s dimension).1 =
      passes dimension (s.packages.length + 1) s :=
  reconcileLoop_state _ _ _

theorem changed_le_reconcileLoop (dimension : Text) (count : ℕ) (s : State) (changed : ℕ) :
    changed ≤ (reconcileLoop dimension count s changed).2 := by
  induction count generalizing s changed with
  | zero => exact le_rfl
  | succ count ih =>
    rw [reconcileLoop]
    dsimp only
    split
    · exact le_rfl
    · exact (Nat.le_add_right _ _).trans (ih _ _)

/-- A reconciliation reports no change exactly where every Form fits. -/
theorem reconcile_changed : (reconcile s dimension).2 = 0 ↔ Settled dimension s := by
  rw [reconcile, reconcileLoop]
  dsimp only
  constructor
  · intro h
    by_contra hnot
    rw [← reconcilePass_count] at hnot
    rw [if_neg hnot] at h
    have hle := changed_le_reconcileLoop dimension s.packages.length (reconcilePass dimension s).1
      (0 + (reconcilePass dimension s).2)
    omega
  · intro h
    rw [reconcilePass_of_settled h]
    rfl

/-! ## Where the passes come to rest -/

theorem passes_cores (s : State) : (passes dimension count s).cores = s.cores := by
  induction count with
  | zero => rfl
  | succ count ih => rw [passes_succ', reconcilePass_cores, ih]

/-- On the activations, passes are sweeps. -/
theorem passes_on (s : State) : (passes dimension count s).on =
      (board s.cores dimension).swept (places s.cores dimension) s.on
        count := by
  induction count with
  | zero => rfl
  | succ count ih =>
    rw [passes_succ', reconcilePass_on, passes_cores, ih, swept_succ]

/-- If the sweeps settle every switch of the Dimension in as many rounds as it
has Forms, the passes of a reconciliation come to rest. -/
theorem settled_of_board (h : (board s.cores dimension).unsettled (places s.cores dimension) s.on
      (places s.cores dimension).length = ∅) : Settled dimension (reconcile s dimension).1 := by
  have hlength : (places s.cores dimension).length ≤ s.packages.length := by
    calc
      (places s.cores dimension).length ≤ (List.range s.cores.length).length := length_filter_le _ _
      _ = s.packages.length := by simp [State.cores]
  have hon : (reconcilePass dimension (passes dimension (places s.cores dimension).length s)).1.on =
        (passes dimension (places s.cores dimension).length s).on := by
    rw [reconcilePass_on, passes_cores, passes_on]
    exact sweep_swept_of_settled h
  have hrest := settled_of_on_eq hon
  rw [← passes_succ'] at hrest
  rw [reconcile_state]
  exact settled_passes_mono (by omega) hrest

/-- The wanted Form at the first place depends on the Form at the second. -/
def DependsOn (s : State) (dimension : Text) (i j : ℕ) : Prop :=
  ∃ form, s.packages[i]? = some form ∧ form.dimension = dimension ∧
    form.wanted = true ∧ ∃ raw ∈ form.dependencies, ∃ name constraint,
      parseDependency raw = .ok (name, constraint) ∧ s.place name dimension = some j

/-- No wanted Form depends on itself through others. -/
def Acyclic (dimension : Text) (s : State) : Prop :=
  ∀ i, ¬ Relation.TransGen (DependsOn s dimension) i i

theorem dependsOn_of_link {j : ℕ} (h : (board s.cores dimension).Link i j) :
    DependsOn s dimension i j := by
  obtain ⟨⟨f, hf, hdim, hwanted, -, -⟩, f', hf', -, raw, hraw, name,
    constraint, hparse, hplace⟩ := h
  obtain rfl : f = f' := by
    rw [hf] at hf'
    exact Option.some.inj hf'
  rw [findIdx_cores] at hplace
  rw [State.cores, List.getElem?_map, Option.map_eq_some_iff] at hf
  obtain ⟨form, hget, rfl⟩ := hf
  exact ⟨form, hget, hdim, hwanted, raw, hraw, name, constraint, hparse, hplace⟩

theorem settled_of_acyclic (h : Acyclic dimension s) :
    Settled dimension (reconcile s dimension).1 := by
  apply settled_of_board
  apply settles_of_acyclic (nodup_places _ _)
  intro i hi
  exact h i (hi.lift id fun _ _ => dependsOn_of_link)

/-- A reconciliation did all there is to do: the Forms of the Dimension are
active exactly where they are wanted and their requirements hold, a second one
changes nothing, and other Dimensions are as they were. -/
structure Reconciled (dimension : Text) (s r : State) : Prop where
  active : ∀ form ∈ r.packages, form.dimension = dimension → (form.active = true ↔
      form.wanted = true ∧ packageRequirements r form = .ok ())
  again : reconcile r dimension = (r, 0)
  others : ∀ (index : ℕ) (form : PackageForm),
    s.packages[index]? = some form → form.dimension ≠ dimension → r.packages[index]? = some form

theorem reconcile_others (hget : s.packages[index]? = some form)
    (hdim : form.dimension ≠ dimension) :
    (reconcile s dimension).1.packages[index]? = some form := by
  rw [reconcile_state]
  induction s.packages.length + 1 with
  | zero => exact hget
  | succ count ih =>
    rw [passes_succ']
    apply stepsAt_induct (P := fun s => s.packages[index]? = some form)
    · intro s count i _ hs
      exact reconcileForm_other dimension s count i hs hdim
    · exact ih

/-- A reconciliation does all there is to do where no wanted Form depends on
itself through others. -/
theorem reconcile_reaches_fixpoint {dimension : Text} {s : State} (h : Acyclic dimension s) :
    Reconciled dimension s (reconcile s dimension).1 := by
  have hsettled := settled_of_acyclic h
  refine ⟨?_, ?_, fun index form => reconcile_others⟩
  · intro form hmem hdim
    obtain ⟨index, hget⟩ := mem_iff_getElem?.mp hmem
    rw [(hsettled index form hget hdim).1, verdict_active]
  · apply Prod.ext
    · rw [reconcile_state, passes_of_settled hsettled]
    · exact reconcile_changed.mpr hsettled

end Library

/-! ## A chain and a circle of three -/

/-- A wanted Form with its dependencies. -/
def wantedForm (name : String) (dependencies : List Text) (active : Bool) : PackageForm where
  fin := text name ++ text "-FIN"
  name := text name
  version := text "1.0.0"
  dimension := text "main"
  active := active
  desiredActive := true
  hidden := false
  excluded := false
  revision := 1
  capabilities := []
  providedForms := []
  dependencies := dependencies
  compatibility := []
  pimp := []
  mergedFrom := []
  artifact := none
  lastError := []

/-- Three inactive Forms, of which the first two depend on the next. -/
def chainState : State :=
  { State.empty with
    packages := [wantedForm "Alpha" [text "Beta"] false, wantedForm "Beta" [text "Gamma"] false,
      wantedForm "Gamma" [] false] }

theorem chain_later {i j : ℕ} (h : @DependsOn asciiLibrary chainState (text "main") i j) :
    i < j := by
  obtain ⟨form, hget, -, -, raw, hraw, name, constraint, hparse, hplace⟩ := h
  have hlater : ∀ i < 3, ∀ form ∈ chainState.packages[i]?, ∀ raw ∈ form.dependencies,
      ∀ found ∈ (@parseDependency asciiLibrary raw).toOption,
        ∀ j ∈ @State.place asciiLibrary chainState found.1 (text "main"), i < j := by
    decide +kernel
  exact hlater i (List.getElem?_eq_some_iff.mp hget).1 form hget raw hraw (name, constraint)
    (by rw [hparse]; rfl) j hplace

/-- The last Form becomes active first and the others after it. -/
theorem chain_reconciled : @Reconciled asciiLibrary (text "main") chainState
      (@reconcile asciiLibrary chainState (text "main")).1 ∧
    (@reconcile asciiLibrary chainState (text "main")).1.packages.map (·.active) =
      [true, true, true] := by
  refine ⟨@reconcile_reaches_fixpoint asciiLibrary _ _ ?_, by decide +kernel⟩
  have hlater : ∀ i j, Relation.TransGen (@DependsOn asciiLibrary chainState (text "main")) i j →
      i < j := by
    intro i j h
    induction h with
    | single h => exact chain_later h
    | tail _ h ih => exact ih.trans (chain_later h)
  exact fun i hi => Nat.lt_irrefl i (hlater i i hi)

/-- Three Forms, each depending on the next, of which one is active. -/
def circleState : State :=
  { State.empty with
    packages := [wantedForm "Alpha" [text "Beta"] false, wantedForm "Beta" [text "Gamma"] true,
      wantedForm "Gamma" [text "Alpha"] false] }

/-- The activations go round: a pass that finds only Beta active leaves the
other two active, and the next one only Beta. -/
theorem circle_never_rests : @State.validate asciiLibrary circleState = .ok () ∧
      ¬ @Reconciled asciiLibrary (text "main") circleState
        (@reconcile asciiLibrary circleState (text "main")).1 := by
  constructor
  · decide +kernel
  rintro ⟨-, hagain, -⟩
  have hchanged := congrArg Prod.snd hagain
  revert hchanged
  decide +kernel

end ExpOS.Ayo
