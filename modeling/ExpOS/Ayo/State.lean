import Mathlib.Data.List.Sort
import ExpOS.Ayo.Version

/-!
# The state of the package manager

The state lists Package Forms with their receipts, the manifests and the
journal.  A Form is found in its Dimension by its FIN or, without regard to
case, by its name.  A change is made on a copy, which replaces the state only
if it is valid.
-/

namespace ExpOS.Ayo

/-- A file that a Package Form installed. -/
structure OwnedFile where
  path : Text
  sha256 : Text
  mode : UInt32
  size : ℤ

structure InstalledArtifact where
  source : Text
  sha256 : Text
  format : Text
  files : List OwnedFile

structure PackageForm where
  fin : Text
  name : Text
  version : Text
  dimension : Text
  active : Bool
  desiredActive : Bool
  hidden : Bool
  excluded : Bool
  revision : UInt64
  capabilities : List Text
  providedForms : List Text
  dependencies : List Text
  compatibility : List Text
  pimp : List (Text × Text)
  mergedFrom : List Text
  artifact : Option InstalledArtifact
  lastError : Text

structure JournalEntry where
  sequence : UInt64
  action : Text
  fin : Text

structure Manifest where
  sequence : UInt64
  label : Text
  forms : ℕ
  checksum : Text
  snapshot : List PackageForm

structure State where
  schemaVersion : UInt32
  packages : List PackageForm
  journal : List JournalEntry
  manifests : List Manifest
  sequence : UInt64
  artifactTransaction : Text

def currentSchema : UInt32 := 3

/-- The state of an install root that was never used. -/
def State.empty : State :=
  ⟨currentSchema, [], [], [], 0, []⟩

/-! ## Finding Forms -/

section Library

variable [TextLibrary]

/-- The Form answers to the identity in the Dimension. -/
def PackageForm.answers (form : PackageForm) (identity dimension : Text) :
    Bool :=
  form.dimension == dimension &&
    (form.fin == identity || equalFold form.name identity)

/-- The place of the first Form that answers to the identity. -/
def State.place (state : State) (identity dimension : Text) : Option ℕ :=
  state.packages.findIdx? fun form => form.answers identity dimension

/-- The first Form that answers to the identity, with its place. -/
def State.locate (state : State) (identity dimension : Text) : Option (ℕ × PackageForm) := do
  let index ← state.place identity dimension
  let form ← state.packages[index]?
  pure (index, form)

end Library

/-- The state with another Form at a place. -/
def State.put (state : State) (index : ℕ) (form : PackageForm) : State :=
  { state with packages := state.packages.set index form }

/-! ## Validation -/

/-- What the validation has met: FINs, names with their Dimensions, and owned
paths with the Form that owns them. -/
structure Seen where
  fins : List Text
  names : List Text
  owned : List (Text × Text)

section Library

variable [TextLibrary]

/-- The path is written in its shortest form and stays below the root. -/
def unsafePath (path : Text) : Bool :=
  let clean := pathClean path
  clean != path || clean == text "." || clean == text ".." ||
    startsWith clean (text "../") || startsWith clean (text "/") ||
    clean.contains '\\'

/-- The key of an owned path. -/
def pathKey (dimension path : Text) : Text :=
  dimension ++ '\x00' :: toLower path

def validateFile (form : PackageForm) (seen : List Text × List (Text × Text)) (file : OwnedFile) :
    Except Text (List Text × List (Text × Text)) :=
  if file.path = [] ∨ file.sha256 = [] ∨ file.size < 0 then
    .error (text "Package Form " ++ form.name ++ text " has an invalid artifact receipt")
  else if unsafePath file.path then
    .error (text "Package Form " ++ form.name ++ text " owns unsafe path " ++
      TextLibrary.quote file.path)
  else
    let key := pathKey form.dimension file.path
    if key ∈ seen.1 then
      .error (text "Package Form " ++ form.name ++ text " owns " ++
        file.path ++ text " more than once")
    else
      match seen.2.lookup key with
      | some owner =>
        .error (text "Package Forms " ++ owner ++ text " and " ++
          form.name ++ text " both own " ++ file.path)
      | none => .ok (key :: seen.1, (key, form.name) :: seen.2)

def validateReceipt (form : PackageForm) (owned : List (Text × Text)) :
    Except Text (List (Text × Text)) :=
  match form.artifact with
  | none => .ok owned
  | some artifact =>
    if artifact.source = [] ∨ artifact.sha256 = [] then
      .error (text "Package Form " ++ form.name ++ text " has an incomplete artifact receipt")
    else
      (artifact.files.foldlM (validateFile form) ([], owned)).map (·.2)

def validateForm (seen : Seen) (form : PackageForm) : Except Text Seen :=
  if form.fin = [] ∨ form.name = [] ∨ form.version = [] ∨
      form.dimension = [] ∨ form.revision = 0 then
    .error (text "invalid Package Form record")
  else if form.active ∧ (form.hidden ∨ form.excluded) then
    .error (text "Package Form " ++ form.name ++ text " has conflicting activation state")
  else if form.fin ∈ seen.fins then
    .error (text "duplicate FIN " ++ form.fin)
  else
    let identity := form.dimension ++ '\x00' :: toLower form.name
    if identity ∈ seen.names then
      .error (text "duplicate Package Form " ++ form.name ++
        text " in Dimension " ++ form.dimension)
    else
      (validateReceipt form seen.owned).map fun owned =>
        ⟨form.fin :: seen.fins, identity :: seen.names, owned⟩

/-- The numbers of the journal start above zero and grow. -/
def journalGrows (journal : List JournalEntry) : Bool :=
  journal.all (fun entry => entry.sequence != 0) &&
    (journal.zip journal.tail).all fun (first, second) =>
      decide (first.sequence < second.sequence)

def State.validate (state : State) : Except Text Unit :=
  if state.schemaVersion > currentSchema then
    .error (text "unsupported ayo state schema " ++ (toString state.schemaVersion.toNat).toList)
  else do
    let _ ← state.packages.foldlM validateForm ⟨[], [], []⟩
    if journalGrows state.journal then .ok ()
    else .error (text "journal sequence is not monotonic")

end Library

end ExpOS.Ayo
