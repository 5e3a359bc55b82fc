import ExpOS.Ayo.State

/-!
# The operations of the package manager

Installing, removing, hiding, excluding, merging, checkpointing and repairing
Package Forms of one Dimension.  A Form may be active only while its
compatibility rules hold and everything it depends on is active at a version
that satisfies the constraint.

For a package with files the operations here are the part that changes the
state, run by the installer once the files are in place.
-/

namespace ExpOS.Ayo

def exposVersion : Text := text "8.0.0"

section Library

variable [TextLibrary]

/-- The policy forbids activation. -/
def denied (pimp : List (Text × Text)) : Bool :=
  equalFold ((pimp.lookup (text "activation")).getD []) (text "denied")

/-! ## Requirements -/

def checkRule (dimension raw : Text) : Except Text Unit :=
  let rule := trim raw
  if startsWith (toLower rule) (text "dimension=") then
    let wanted := trim ((cut '=' rule).2.getD [])
    if equalFold wanted dimension then .ok ()
    else .error (text "compatibility requires Dimension " ++ wanted ++
      text ", current Dimension is " ++ dimension)
  else if startsWith (toLower rule) (text "expos") then
    let constraint := trim (rule.drop 5)
    match satisfies exposVersion constraint with
    | .error reason =>
      .error (text "invalid compatibility " ++ TextLibrary.quote rule ++ text ": " ++ reason)
    | .ok true => .ok ()
    | .ok false =>
      .error (text "compatibility requires ExpOS " ++ constraint ++
        text ", current version is " ++ exposVersion)
  else
    .error (text "unknown compatibility requirement " ++ TextLibrary.quote rule)

def checkCompatibility (requirements : List Text) (dimension : Text) : Except Text Unit :=
  requirements.forM (checkRule dimension)

/-- The check of what was found under the name of a dependency. -/
def checkFound (name constraint : Text) : Option (ℕ × PackageForm) → Except Text Unit
  | none => .error (text "missing active dependency " ++ name)
  | some (_, dependency) =>
    if dependency.active then do
      if ← satisfies dependency.version constraint then pure ()
      else throw (text "dependency " ++ name ++ text " is " ++
        dependency.version ++ text " but requires " ++ constraint)
    else .error (text "missing active dependency " ++ name)

def checkDependency (state : State) (dimension raw : Text) : Except Text Unit := do
  let (name, constraint) ← parseDependency raw
  checkFound name constraint (state.locate name dimension)

def checkDependencies (state : State) (dimension : Text)
    (dependencies : List Text) : Except Text Unit :=
  dependencies.forM (checkDependency state dimension)

def packageRequirements (state : State) (form : PackageForm) : Except Text Unit := do
  checkCompatibility form.compatibility form.dimension
  checkDependencies state form.dimension form.dependencies

/-! ## Reconciliation -/

/-- The Form is meant to be active. -/
def PackageForm.wanted (form : PackageForm) : Bool :=
  form.desiredActive && !form.hidden && !form.excluded && !denied form.pimp

/-- The activation and the message that a Form should show. -/
def PackageForm.verdict (state : State) (form : PackageForm) : Bool × Text :=
  match packageRequirements state form with
  | .ok _ => (form.wanted, [])
  | .error message => (false, if form.wanted then message else [])

/-- Give one Form of the Dimension its activation and message, and count the
change if there is one. -/
def reconcileForm (dimension : Text) (progress : State × ℕ) (index : ℕ) : State × ℕ :=
  match progress.1.packages[index]? with
  | none => progress
  | some form =>
    if form.dimension ≠ dimension then progress
    else
      let (active, lastError) := form.verdict progress.1
      if form.active ≠ active ∨ form.lastError ≠ lastError then
        (progress.1.put index
          { form with active, lastError, revision := form.revision + 1 },
          progress.2 + 1)
      else progress

/-- One pass over all Forms, and the number of changes. -/
def reconcilePass (dimension : Text) (state : State) : State × ℕ :=
  (List.range state.packages.length).foldl (reconcileForm dimension)
    (state, 0)

/-- Passes until one changes nothing, at most as many as given. -/
def reconcileLoop (dimension : Text) : ℕ → State → ℕ → State × ℕ
  | 0, state, changed => (state, changed)
  | passes + 1, state, changed =>
    let (next, count) := reconcilePass dimension state
    if count = 0 then (next, changed)
    else reconcileLoop dimension passes next (changed + count)

def reconcile (state : State) (dimension : Text) : State × ℕ :=
  reconcileLoop dimension (state.packages.length + 1) state 0

end Library

end ExpOS.Ayo
