import ExpOS.Capability.Broker
import ExpOS.Core.Blob

/-!
# Snapshots of the system database

A snapshot is everything the system database keeps about one CFC: the Form
graph with its content, Dimensions, relationships, persisted Handles and the
counters.  Each table is an array of optional entries, and an entry keeps its
index through a save and a load.
-/

namespace ExpOS

def maxStoredForms : ℕ := 12
def maxStoredDimensions : ℕ := 6
def maxStoredRelationships : ℕ := 48
def maxStoredHandles : ℕ := 16
def formContentCapacity : ℕ := defaultFormBlobQuota
def cfcContentCapacity : ℕ := 48 * 1024
def settingsRecordCapacity : ℕ := 32
def accountsRecordCapacity : ℕ := 12 * 80

inductive StorageError where
  | noDevice
  | unsupportedDevice
  | outOfRange
  | timeout
  | deviceFault (code : UInt8)
  | controllerFault (code : UInt32)
deriving DecidableEq

inductive StoreError where
  | unavailable
  | full
  | wrongCfc
  | invalidSnapshot
  | disk (error : StorageError)
  | verificationFailed
  | noCurrentState
  | checkpointNotFound
  | baselineNotFound
  | baselineDamaged
  | streamNotFound
  | streamMode
  | staleStream
deriving DecidableEq

structure StoredForm where
  form : Form
  content : ChunkedBlob
deriving DecidableEq

namespace StoredForm

def contentLen (stored : StoredForm) : ℕ :=
  stored.content.len

def bytes {ε : Type} (stored : StoredForm) : Outcome ε Bytes :=
  stored.content.toVec

end StoredForm

structure Snapshot where
  cfc : CfcFin
  cfcName : Text
  primaryDimension : FormFin
  forms : SlotTable StoredForm maxStoredForms
  dimensions : SlotTable Dimension maxStoredDimensions
  relationships : SlotTable Relationship maxStoredRelationships
  handles : SlotTable FormHandle maxStoredHandles
  nextFin : UInt32
  nextDimensionFin : UInt32
  journalSequence : UInt32
  networkPolicy : NetworkPolicy
  formGraphPresent : Bool
  settings : Option (ByteBlock settingsRecordCapacity)
  accounts : Option (ByteBlock accountsRecordCapacity)
deriving DecidableEq

namespace Snapshot

def empty (cfc : CfcFin) (cfcName : Text) (primaryDimension : FormFin) : Snapshot where
  cfc := cfc
  cfcName := cfcName
  primaryDimension := primaryDimension
  forms := SlotTable.empty _ _
  dimensions := SlotTable.empty _ _
  relationships := SlotTable.empty _ _
  handles := SlotTable.empty _ _
  nextFin := 2
  nextDimensionFin := 2
  journalSequence := 1
  networkPolicy := .restricted
  formGraphPresent := false
  settings := none
  accounts := none

end Snapshot

/-! ## Validation -/

/-- The checks on one stored Form. -/
def StoredForm.invalid (stored : StoredForm) : Bool :=
  stored.form.fin.isZero || stored.form.name.content == [] ||
    stored.form.revision == 0 ||
    decide (stored.contentLen > formContentCapacity)

def Dimension.invalid (dimension : Dimension) : Bool :=
  dimension.fin.isZero || dimension.name.content == []

/-- The checks on the persisted Handles, each against the ones after it. -/
def handlesInvalid (cfc : CfcFin) : List FormHandle → Bool
  | [] => false
  | handle :: rest =>
    handle.id == 0 || handle.cfc != cfc || handle.requester.isZero ||
      handle.target.isZero || handle.dimension.isZero ||
      handle.operations == Operations.none ||
      rest.any (·.id == handle.id) || handlesInvalid cfc rest

def validateSnapshot (snapshot : Snapshot) : Except StoreError Unit :=
  if snapshot.cfc.isZero ∨ snapshot.cfcName.content = [] ∨
      snapshot.primaryDimension.isZero ∨ snapshot.journalSequence = 0 ∨
      snapshot.nextFin = 0 ∨ snapshot.nextDimensionFin = 0 then
    .error .invalidSnapshot
  else if snapshot.forms.occupants.any StoredForm.invalid then
    .error .invalidSnapshot
  else if (snapshot.forms.occupants.map StoredForm.contentLen).sum >
      cfcContentCapacity then
    .error .full
  else if snapshot.dimensions.occupants.any Dimension.invalid then
    .error .invalidSnapshot
  else if handlesInvalid snapshot.cfc snapshot.handles.occupants then
    .error .invalidSnapshot
  else
    .ok ()

/-- What `validateSnapshot` accepts. -/
structure Snapshot.Valid (snapshot : Snapshot) : Prop where
  cfc : snapshot.cfc.isZero = false
  cfcName : snapshot.cfcName.content ≠ []
  primaryDimension : snapshot.primaryDimension.isZero = false
  journalSequence : snapshot.journalSequence ≠ 0
  nextFin : snapshot.nextFin ≠ 0
  nextDimensionFin : snapshot.nextDimensionFin ≠ 0
  forms : ∀ stored ∈ snapshot.forms.occupants,
    stored.form.fin.isZero = false ∧ stored.form.name.content ≠ [] ∧ stored.form.revision ≠ 0 ∧
      stored.contentLen ≤ formContentCapacity
  content : (snapshot.forms.occupants.map StoredForm.contentLen).sum ≤ cfcContentCapacity
  dimensions : ∀ dimension ∈ snapshot.dimensions.occupants,
    dimension.fin.isZero = false ∧ dimension.name.content ≠ []
  handles : handlesInvalid snapshot.cfc snapshot.handles.occupants = false

theorem StoredForm.invalid_eq_false {stored : StoredForm} : stored.invalid = false ↔
      stored.form.fin.isZero = false ∧ stored.form.name.content ≠ [] ∧ stored.form.revision ≠ 0 ∧
        stored.contentLen ≤ formContentCapacity := by
  simp [StoredForm.invalid, and_assoc]

theorem Dimension.invalid_eq_false {dimension : Dimension} : dimension.invalid = false ↔
      dimension.fin.isZero = false ∧ dimension.name.content ≠ [] := by
  simp [Dimension.invalid]

theorem validateSnapshot_eq_ok {snapshot : Snapshot} :
    validateSnapshot snapshot = .ok () ↔ snapshot.Valid := by
  rw [validateSnapshot]
  constructor
  · intro h
    iterate 5
      split at h
      · cases h
    rename_i hhead hforms hcontent hdimensions hhandles
    simp only [not_or, Bool.not_eq_true] at hhead
    obtain ⟨h₁, h₂, h₃, h₄, h₅, h₆⟩ := hhead
    simp only [Bool.not_eq_true, List.any_eq_false] at hforms hdimensions
    refine ⟨h₁, h₂, h₃, h₄, h₅, h₆, ?_, ?_, ?_, ?_⟩
    · intro stored hstored
      exact StoredForm.invalid_eq_false.mp (by
        simpa using hforms stored hstored)
    · omega
    · intro dimension hdimension
      exact Dimension.invalid_eq_false.mp (by
        simpa using hdimensions dimension hdimension)
    · simpa using hhandles
  · intro h
    have hforms : ¬ snapshot.forms.occupants.any StoredForm.invalid = true := by
      rw [Bool.not_eq_true, List.any_eq_false]
      intro stored hstored
      rw [StoredForm.invalid_eq_false.mpr (h.forms stored hstored)]
      simp
    have hdimensions : ¬ snapshot.dimensions.occupants.any Dimension.invalid = true := by
      rw [Bool.not_eq_true, List.any_eq_false]
      intro dimension hdimension
      rw [Dimension.invalid_eq_false.mpr (h.dimensions dimension hdimension)]
      simp
    rw [if_neg (by
        simp [h.cfc, h.cfcName, h.primaryDimension, h.journalSequence,
          h.nextFin, h.nextDimensionFin]),
      if_neg hforms, if_neg (Nat.not_lt.mpr h.content),
      if_neg hdimensions, if_neg (by simp [h.handles])]

/-- A valid list of Handles belongs to one CFC. -/
theorem cfc_of_handlesInvalid {cfc : CfcFin} {handles : List FormHandle}
    (h : handlesInvalid cfc handles = false) : ∀ handle ∈ handles, handle.cfc = cfc := by
  induction handles with
  | nil => simp
  | cons first rest ih =>
    simp only [handlesInvalid, Bool.or_eq_false_iff, bne_eq_false_iff_eq] at h
    intro handle hmem
    rcases List.mem_cons.mp hmem with rfl | hrest
    · exact h.1.1.1.1.1.1.2
    · exact ih h.2 handle hrest

end ExpOS
