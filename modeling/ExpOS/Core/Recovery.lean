import Mathlib.Data.List.Nodup
import ExpOS.Core.Cfc
import ExpOS.Support.Ring

/-!
# Recovery metadata

A CFC keeps the description of its installation baseline and of the last
eight checkpoints.  A checkpoint is accepted only as a successor of the latest
one.  A catalog holds one such history for each CFC.

The log of all accepted checkpoints is the specification: the ring of a
history is the ring of its log.
-/

namespace ExpOS

open List SlotTable Function Option

def recoveryCheckpointCapacity : ℕ := 8
def maxRecoveryCfcs : ℕ := maxCfcs

inductive RecoveryError where
  | invalidCfcFin
  | wrongCfc
  | invalidMetadata
  | duplicateCfc
  | unknownCfc
  | catalogFull
  | checkpointNotNewer
  | staleJournalSequence
  | staleStateRevision
  | checkpointNotFound
deriving DecidableEq

/-! ## Metadata -/

structure RecoveryMetadata where
  stateId : UInt64
  expfsSequence : UInt32
  formGraphRevision : UInt32
  nonzero : stateId ≠ 0 ∧ expfsSequence ≠ 0 ∧ formGraphRevision ≠ 0
deriving DecidableEq

def RecoveryMetadata.new (stateId : UInt64) (expfsSequence formGraphRevision : UInt32) :
    Except RecoveryError RecoveryMetadata :=
  if h : stateId = 0 ∨ expfsSequence = 0 ∨ formGraphRevision = 0 then
    .error .invalidMetadata
  else
    .ok ⟨stateId, expfsSequence, formGraphRevision, by
      rw [not_or, not_or] at h
      exact h⟩

/-- What a baseline and a checkpoint have in common. -/
structure RecoveryPoint where
  cfc : CfcFin
  metadata : RecoveryMetadata
  cfc_nonzero : cfc.isZero = false
deriving DecidableEq

def RecoveryPoint.new (cfc : CfcFin) (stateId : UInt64) (expfsSequence formGraphRevision : UInt32) :
    Except RecoveryError RecoveryPoint :=
  if h : cfc.isZero then .error .invalidCfcFin
  else
    match RecoveryMetadata.new stateId expfsSequence formGraphRevision with
    | .error error => .error error
    | .ok metadata => .ok ⟨cfc, metadata, Bool.eq_false_iff.mpr h⟩

/-- The protected installation state. -/
structure InstallationBaseline extends RecoveryPoint

def InstallationBaseline.new (cfc : CfcFin) (stateId : UInt64)
    (expfsSequence formGraphRevision : UInt32) : Except RecoveryError InstallationBaseline :=
  (RecoveryPoint.new cfc stateId expfsSequence formGraphRevision).map .mk

structure CheckpointMetadata extends RecoveryPoint
deriving DecidableEq

def CheckpointMetadata.new (cfc : CfcFin) (stateId : UInt64)
    (expfsSequence formGraphRevision : UInt32) : Except RecoveryError CheckpointMetadata :=
  (RecoveryPoint.new cfc stateId expfsSequence formGraphRevision).map .mk

inductive RestoreTarget where
  | installationBaseline
  | checkpoint (stateId : UInt64)

inductive RestoreSource where
  | installationBaseline
  | checkpoint

structure RestoreSelection where
  cfc : CfcFin
  source : RestoreSource
  metadata : RecoveryMetadata

/-! ## The history of one CFC -/

structure CfcRecovery where
  cfc : CfcFin
  baseline : InstallationBaseline
  checkpoints : SlotTable CheckpointMetadata recoveryCheckpointCapacity
  oldest : ℕ
  len : ℕ

namespace CfcRecovery

def new (cfc : CfcFin) (baseline : InstallationBaseline) : Except RecoveryError CfcRecovery :=
  if cfc.isZero then .error .invalidCfcFin
  else if baseline.cfc ≠ cfc then .error .wrongCfc
  else
    .ok
      { cfc
        baseline
        checkpoints := SlotTable.empty _ _
        oldest := 0
        len := 0 }

/-- A checkpoint by age; the first one is the oldest that is kept. -/
def checkpoint (history : CfcRecovery) (index : ℕ) : Option CheckpointMetadata :=
  if history.len ≤ index then none
  else
    history.checkpoints.get
      ((history.oldest + index) % recoveryCheckpointCapacity)

def latestCheckpoint (history : CfcRecovery) : Option CheckpointMetadata :=
  history.checkpoint (history.len - 1)

def latestMetadata (history : CfcRecovery) : RecoveryMetadata :=
  (history.latestCheckpoint.map fun checkpoint =>
    checkpoint.metadata).getD history.baseline.metadata

def validateSuccessor (history : CfcRecovery)
    (checkpoint : CheckpointMetadata) : Except RecoveryError Unit :=
  let latest := history.latestMetadata
  let candidate := checkpoint.metadata
  if candidate.stateId ≤ latest.stateId then .error .checkpointNotNewer
  else if candidate.expfsSequence < latest.expfsSequence then
    .error .staleJournalSequence
  else if candidate.formGraphRevision < latest.formGraphRevision then
    .error .staleStateRevision
  else .ok ()

/-- Put a checkpoint into the ring and answer with the one it replaces. -/
def publish (history : CfcRecovery) (checkpoint : CheckpointMetadata) :
    Option CheckpointMetadata × CfcRecovery :=
  if history.len < recoveryCheckpointCapacity then
    let slot := (history.oldest + history.len) % recoveryCheckpointCapacity
    (none,
      { history with
        checkpoints := history.checkpoints.put slot (some checkpoint)
        len := history.len + 1 })
  else
    let slot := history.oldest
    (history.checkpoints.get slot,
      { history with
        checkpoints := history.checkpoints.put slot (some checkpoint)
        oldest := (slot + 1) % recoveryCheckpointCapacity })

def recordCheckpoint (checkpoint : CheckpointMetadata) :
    Mutator CfcRecovery RecoveryError (Option CheckpointMetadata) :=
  fun history =>
    if checkpoint.cfc ≠ history.cfc then (.fail .wrongCfc, history)
    else
      match history.validateSuccessor checkpoint with
      | .error error => (.fail error, history)
      | .ok () =>
        let (evicted, history) := history.publish checkpoint
        (.done evicted, history)

/-- Record the checkpoints one after the other, up to the first error. -/
def recordEach : List CheckpointMetadata → Mutator CfcRecovery RecoveryError Unit
  | [], history => (.done (), history)
  | checkpoint :: checkpoints, history =>
    match recordCheckpoint checkpoint history with
    | (.done _, history) => recordEach checkpoints history
    | (.fail error, history) => (.fail error, history)
    | (.halt, history) => (.halt, history)

/-- The batch is recorded on a copy, which replaces the history only when
every checkpoint was accepted. -/
def recordBatch (checkpoints : List CheckpointMetadata) : Mutator CfcRecovery RecoveryError Unit :=
  fun history =>
    match recordEach checkpoints history with
    | (.done (), candidate) => (.done (), candidate)
    | (.fail error, _) => (.fail error, history)
    | (.halt, _) => (.halt, history)

def selectRestore (history : CfcRecovery) : RestoreTarget → Except RecoveryError RestoreSelection
  | .installationBaseline =>
    .ok ⟨history.cfc, .installationBaseline, history.baseline.metadata⟩
  | .checkpoint stateId =>
    match history.checkpoints.occupants.find? fun checkpoint =>
        checkpoint.metadata.stateId == stateId with
    | some checkpoint =>
      .ok ⟨history.cfc, .checkpoint, checkpoint.metadata⟩
    | none => .error .checkpointNotFound

/-- The checkpoints that are kept, the oldest one first. -/
def retained (history : CfcRecovery) : List CheckpointMetadata :=
  (List.range history.len).filterMap history.checkpoint

end CfcRecovery

/-! ## The catalog -/

structure RecoveryCatalog where
  histories : SlotTable CfcRecovery maxRecoveryCfcs

namespace RecoveryCatalog

def new : RecoveryCatalog := ⟨SlotTable.empty _ _⟩

def recovery (catalog : RecoveryCatalog) (cfc : CfcFin) : Option CfcRecovery :=
  catalog.histories.occupants.find? fun history => history.cfc == cfc

def install (cfc : CfcFin) (baseline : InstallationBaseline) :
    Mutator RecoveryCatalog RecoveryError Unit := fun catalog =>
  if (catalog.recovery cfc).isSome then (.fail .duplicateCfc, catalog)
  else
    match CfcRecovery.new cfc baseline with
    | .error error => (.fail error, catalog)
    | .ok history =>
      match catalog.histories.freeIndex with
      | none => (.fail .catalogFull, catalog)
      | some slot =>
        (.done (), ⟨catalog.histories.put slot (some history)⟩)

/-- A call on the history of a CFC. -/
def onHistory {α : Type} (cfc : CfcFin) (call : Mutator CfcRecovery RecoveryError α) :
    Mutator RecoveryCatalog RecoveryError α := fun catalog =>
  match catalog.histories.findIndex fun history => history.cfc == cfc with
  | none => (.fail .unknownCfc, catalog)
  | some slot =>
    match catalog.histories.get slot with
    | none => (.fail .unknownCfc, catalog)
    | some history =>
      let (answer, history) := call history
      (answer, ⟨catalog.histories.put slot (some history)⟩)

def recordCheckpoint (cfc : CfcFin) (checkpoint : CheckpointMetadata) :
    Mutator RecoveryCatalog RecoveryError (Option CheckpointMetadata) :=
  onHistory cfc (CfcRecovery.recordCheckpoint checkpoint)

/-- The batch goes to the history itself; the catalog has no call of its own
for it. -/
def recordBatch (cfc : CfcFin) (checkpoints : List CheckpointMetadata) :
    Mutator RecoveryCatalog RecoveryError Unit :=
  onHistory cfc (CfcRecovery.recordBatch checkpoints)

def selectRestore (catalog : RecoveryCatalog) (cfc : CfcFin)
    (target : RestoreTarget) : Except RecoveryError RestoreSelection :=
  match catalog.recovery cfc with
  | none => .error .unknownCfc
  | some history => history.selectRestore target

end RecoveryCatalog

/-! ## The log of a history -/

/-- The order in which checkpoints are accepted. -/
def RecoveryMetadata.Precedes (a b : RecoveryMetadata) : Prop :=
  a.stateId < b.stateId ∧ a.expfsSequence ≤ b.expfsSequence ∧
    a.formGraphRevision ≤ b.formGraphRevision

theorem RecoveryMetadata.Precedes.trans {a b c : RecoveryMetadata}
    (h : a.Precedes b) (h' : b.Precedes c) : a.Precedes c :=
  ⟨UInt64.lt_trans h.1 h'.1, UInt32.le_trans h.2.1 h'.2.1, UInt32.le_trans h.2.2 h'.2.2⟩

namespace CfcRecovery

/-- The history keeps the last checkpoints of the log. -/
structure Records (history : CfcRecovery) (cfc : CfcFin)
    (baseline : InstallationBaseline) (log : List CheckpointMetadata) :
    Prop where
  cfc_eq : history.cfc = cfc
  baseline_eq : history.baseline = baseline
  checkpoints_eq : history.checkpoints = SlotTable.ring _ log
  oldest_eq : history.oldest =
    (log.length - recoveryCheckpointCapacity) % recoveryCheckpointCapacity
  len_eq : history.len = min log.length recoveryCheckpointCapacity
  ordered : (baseline.metadata :: log.map fun checkpoint =>
    checkpoint.metadata).Pairwise RecoveryMetadata.Precedes

/-- The last checkpoints of a log. -/
def lastOf (log : List CheckpointMetadata) : List CheckpointMetadata :=
  log.drop (log.length - recoveryCheckpointCapacity)

variable {history : CfcRecovery} {cfc : CfcFin}
  {baseline : InstallationBaseline} {log : List CheckpointMetadata}
  {checkpoint : CheckpointMetadata}

theorem records_new (h : new cfc baseline = .ok history) : history.Records cfc baseline [] := by
  rw [new] at h
  split at h
  · cases h
  split at h
  · cases h
  · cases h
    exact ⟨rfl, rfl, rfl, rfl, rfl, pairwise_singleton _ _⟩

theorem length_lastOf (log : List CheckpointMetadata) :
    (lastOf log).length = min log.length recoveryCheckpointCapacity := by
  rw [lastOf, length_drop]
  omega

theorem Records.checkpoint_eq (h : history.Records cfc baseline log)
    (index : ℕ) : history.checkpoint index = (lastOf log)[index]? := by
  rw [CfcRecovery.checkpoint, h.len_eq]
  split
  · rename_i hge
    rw [getElem?_eq_none]
    rw [length_lastOf]
    exact hge
  · rename_i hlt
    rw [h.oldest_eq, h.checkpoints_eq, Nat.mod_add_mod]
    exact get_ring_age (by decide) (Nat.not_le.mp hlt)

theorem Records.retained_eq (h : history.Records cfc baseline log) :
    history.retained = lastOf log := by
  have hcheckpoint : history.checkpoint = fun index =>
      (lastOf log)[index]? := funext h.checkpoint_eq
  rw [retained, hcheckpoint, h.len_eq, ← length_lastOf]
  exact filterMap_getElem?_range _

theorem Records.latestMetadata_eq (h : history.Records cfc baseline log) : history.latestMetadata =
      (baseline.metadata :: log.map fun checkpoint =>
        checkpoint.metadata).getLast (cons_ne_nil _ _) := by
  rw [latestMetadata, latestCheckpoint, h.checkpoint_eq, h.len_eq,
    h.baseline_eq, lastOf, getElem?_drop]
  rcases eq_nil_or_concat log with rfl | ⟨front, last, rfl⟩
  · rfl
  have hindex : (front ++ [last]).length - recoveryCheckpointCapacity +
      (min (front ++ [last]).length recoveryCheckpointCapacity - 1) = front.length := by
    rw [length_append, length_singleton, recoveryCheckpointCapacity]
    omega
  rw [concat_eq_append, hindex]
  simp

theorem validateSuccessor_eq_ok : history.validateSuccessor checkpoint = .ok () ↔
      history.latestMetadata.Precedes checkpoint.metadata := by
  rw [validateSuccessor]
  constructor
  · intro h
    iterate 3
      split at h
      · cases h
    · rename_i hid hsequence hrevision
      exact ⟨UInt64.not_le.mp hid, UInt32.not_lt.mp hsequence, UInt32.not_lt.mp hrevision⟩
  · rintro ⟨hid, hsequence, hrevision⟩
    rw [if_neg (UInt64.not_le.mpr hid), if_neg (UInt32.not_lt.mpr hsequence),
      if_neg (UInt32.not_lt.mpr hrevision)]

section

variable (h : history.Records cfc baseline log)
include h

theorem Records.ordered_concat
    (hnext : history.latestMetadata.Precedes checkpoint.metadata) :
    (baseline.metadata :: (log ++ [checkpoint]).map fun checkpoint =>
      checkpoint.metadata).Pairwise RecoveryMetadata.Precedes := by
  rw [h.latestMetadata_eq] at hnext
  rw [map_append, ← cons_append, pairwise_append]
  refine ⟨h.ordered, pairwise_singleton _ _, ?_⟩
  intro metadata hmem next hmem'
  rw [mem_singleton.mp hmem']
  have hordered := h.ordered
  rw [← dropLast_append_getLast (cons_ne_nil _ _)] at hordered hmem
  rw [pairwise_append] at hordered
  rcases mem_append.mp hmem with hfront | hback
  · exact (hordered.2.2 metadata hfront _ (mem_singleton_self _)).trans hnext
  · rw [mem_singleton.mp hback]
    exact hnext

/-- A checkpoint that is put into the ring replaces the oldest one. -/
theorem Records.publish
    (hnext : history.latestMetadata.Precedes checkpoint.metadata) :
    (history.publish checkpoint).2.Records cfc baseline (log ++ [checkpoint]) ∧
      (history.publish checkpoint).1 =
        if log.length < recoveryCheckpointCapacity then none
        else (lastOf log).head? := by
  have hordered := h.ordered_concat hnext
  have hring : SlotTable.ring recoveryCheckpointCapacity
      (log ++ [checkpoint]) = _ := ring_concat log checkpoint
  have hlength : (log ++ [checkpoint]).length = log.length + 1 := by simp
  rw [CfcRecovery.publish]
  by_cases hspace : log.length < recoveryCheckpointCapacity
  · have hslot : (history.oldest + history.len) % recoveryCheckpointCapacity =
          log.length % recoveryCheckpointCapacity := by
      rw [h.oldest_eq, h.len_eq]
      rw [recoveryCheckpointCapacity] at hspace ⊢
      omega
    rw [if_pos (by rw [h.len_eq]; omega), if_pos hspace]
    refine ⟨⟨h.cfc_eq, h.baseline_eq, ?_, ?_, ?_, hordered⟩, rfl⟩
    · rw [hring, hslot, h.checkpoints_eq]
    · rw [h.oldest_eq]
      rw [recoveryCheckpointCapacity] at hspace ⊢
      omega
    · dsimp only
      rw [h.len_eq]
      omega
  · have hslot : history.oldest = log.length % recoveryCheckpointCapacity := by
      rw [h.oldest_eq]
      rw [recoveryCheckpointCapacity] at hspace ⊢
      omega
    rw [if_neg (by rw [h.len_eq]; omega), if_neg hspace]
    refine ⟨⟨h.cfc_eq, h.baseline_eq, ?_, ?_, ?_, hordered⟩, ?_⟩
    · rw [hring, ← hslot, h.checkpoints_eq]
    · dsimp only
      rw [h.oldest_eq]
      rw [recoveryCheckpointCapacity] at hspace ⊢
      omega
    · dsimp only
      rw [h.len_eq]
      omega
    · dsimp only
      rw [hslot, h.checkpoints_eq,
        get_ring_full (by decide) (Nat.not_lt.mp hspace), lastOf, head?_drop]
      exact (getElem?_eq_getElem _).symm

/-- A checkpoint is accepted and logged, or the history stays as it is. -/
theorem Records.recordCheckpoint
    (checkpoint : CheckpointMetadata) : (∃ error, CfcRecovery.recordCheckpoint checkpoint history =
      (.fail error, history)) ∨
    ∃ evicted history', CfcRecovery.recordCheckpoint checkpoint history =
        (.done evicted, history') ∧ history'.Records cfc baseline (log ++ [checkpoint]) ∧
      evicted = if log.length < recoveryCheckpointCapacity then none else (lastOf log).head? := by
  rw [CfcRecovery.recordCheckpoint]
  split
  · exact .inl ⟨_, rfl⟩
  cases hvalid : history.validateSuccessor checkpoint with
  | error error => exact .inl ⟨error, rfl⟩
  | ok _ =>
    have hnext := validateSuccessor_eq_ok.mp hvalid
    obtain ⟨hrecords, hevicted⟩ := h.publish hnext
    exact .inr ⟨_, _, rfl, hrecords, hevicted⟩

variable (checkpoints : List CheckpointMetadata)

theorem Records.recordEach :
    (∃ error history', CfcRecovery.recordEach checkpoints history = (.fail error, history')) ∨
    ∃ history', CfcRecovery.recordEach checkpoints history = (.done (), history') ∧
      history'.Records cfc baseline (log ++ checkpoints) := by
  induction checkpoints generalizing history log with
  | nil =>
    rw [append_nil]
    exact .inr ⟨history, rfl, h⟩
  | cons checkpoint checkpoints ih =>
    rw [CfcRecovery.recordEach]
    rcases h.recordCheckpoint checkpoint with
      ⟨error, hrun⟩ | ⟨evicted, next, hrun, hrecords, -⟩
    · rw [hrun]
      exact .inl ⟨error, history, rfl⟩
    · rw [hrun, append_cons]
      exact ih hrecords

/-- A batch is accepted and logged as a whole, or the history stays as it
is. -/
theorem Records.recordBatch :
    (∃ error, CfcRecovery.recordBatch checkpoints history = (.fail error, history)) ∨
    ∃ history', CfcRecovery.recordBatch checkpoints history = (.done (), history') ∧
      history'.Records cfc baseline (log ++ checkpoints) := by
  rw [CfcRecovery.recordBatch]
  rcases h.recordEach checkpoints with
    ⟨error, history', hrun⟩ | ⟨history', hrun, hrecords⟩
  · rw [hrun]
    exact .inl ⟨error, rfl⟩
  · rw [hrun]
    exact .inr ⟨history', rfl, hrecords⟩

end

/-! ## Restoring -/

theorem Records.pairwise_retained (h : history.Records cfc baseline log) :
    history.retained.Pairwise fun a b =>
      a.metadata.Precedes b.metadata := by
  have hlog := pairwise_map.mp (pairwise_cons.mp h.ordered).2
  rw [h.retained_eq]
  exact hlog.sublist (drop_sublist _ _)

theorem Records.mem_occupants (h : history.Records cfc baseline log) :
    checkpoint ∈ history.checkpoints.occupants ↔ checkpoint ∈ history.retained := by
  rw [h.checkpoints_eq, h.retained_eq]
  exact (perm_occupants_ring log (by decide)).mem_iff

theorem Records.retained_unique (h : history.Records cfc baseline log)
    {other : CheckpointMetadata} (hmem : checkpoint ∈ history.retained)
    (hother : other ∈ history.retained)
    (hid : other.metadata.stateId = checkpoint.metadata.stateId) : other = checkpoint := by
  have hids : (history.retained.map fun checkpoint => checkpoint.metadata.stateId).Nodup := by
    rw [List.Nodup, pairwise_map]
    apply h.pairwise_retained.imp
    intro a b hprecedes heq
    rw [RecoveryMetadata.Precedes, heq] at hprecedes
    exact UInt64.lt_irrefl _ hprecedes.1
  exact inj_on_of_nodup_map hids hother hmem hid

theorem Records.selectRestore_retained (h : history.Records cfc baseline log)
    (hmem : checkpoint ∈ history.retained) :
    history.selectRestore (.checkpoint checkpoint.metadata.stateId) =
      .ok ⟨cfc, .checkpoint, checkpoint.metadata⟩ := by
  rw [selectRestore]
  cases hfind : history.checkpoints.occupants.find? fun other =>
      other.metadata.stateId == checkpoint.metadata.stateId with
  | none =>
    have hnot := find?_eq_none.mp hfind checkpoint (h.mem_occupants.mpr hmem)
    exact absurd (beq_self_eq_true _) hnot
  | some other =>
    have hother := h.mem_occupants.mp (mem_of_find?_eq_some hfind)
    have hid : other.metadata.stateId = checkpoint.metadata.stateId := by
      simpa using find?_some hfind
    rw [h.retained_unique hmem hother hid, h.cfc_eq]

theorem Records.selectRestore_other (h : history.Records cfc baseline log)
    {stateId : UInt64} (hother : ∀ checkpoint ∈ history.retained,
      checkpoint.metadata.stateId ≠ stateId) : history.selectRestore (.checkpoint stateId) =
      .error .checkpointNotFound := by
  have hnone : (history.checkpoints.occupants.find? fun checkpoint =>
      checkpoint.metadata.stateId == stateId) = none := by
    rw [find?_eq_none]
    intro checkpoint hmem hid
    exact hother checkpoint (h.mem_occupants.mp hmem) (beq_iff_eq.mp hid)
  rw [selectRestore, hnone]

end CfcRecovery

/-! ## Runs of the catalog -/

/-- The catalog, the baseline that was installed for each CFC and the
checkpoints that were accepted for it. -/
structure RecoveryRun where
  catalog : RecoveryCatalog
  installed : CfcFin → Option InstallationBaseline
  log : CfcFin → List CheckpointMetadata

inductive RecoveryAction where
  | install (cfc : CfcFin) (baseline : InstallationBaseline)
  | recordCheckpoint (cfc : CfcFin) (checkpoint : CheckpointMetadata)
  | recordBatch (cfc : CfcFin) (checkpoints : List CheckpointMetadata)

namespace RecoveryRun

def start : RecoveryRun := ⟨.new, fun _ => none, fun _ => []⟩

/-- The run with more checkpoints accepted for a CFC. -/
def accept (run : RecoveryRun) (catalog : RecoveryCatalog) (cfc : CfcFin)
    (checkpoints : List CheckpointMetadata) : RecoveryRun :=
  { run with
    catalog
    log := Function.update run.log cfc (run.log cfc ++ checkpoints) }

/-- The run after a call that records these checkpoints or none. -/
def settle {α : Type} (run : RecoveryRun) (cfc : CfcFin) (checkpoints : List CheckpointMetadata) :
    Outcome RecoveryError α × RecoveryCatalog → RecoveryRun
  | (.done _, catalog) => run.accept catalog cfc checkpoints
  | (_, catalog) => { run with catalog }

def step (run : RecoveryRun) : RecoveryAction → RecoveryRun
  | .install cfc baseline =>
    match RecoveryCatalog.install cfc baseline run.catalog with
    | (.done (), catalog) =>
      { run with
        catalog
        installed := Function.update run.installed cfc (some baseline) }
    | (_, catalog) => { run with catalog }
  | .recordCheckpoint cfc checkpoint =>
    run.settle cfc [checkpoint]
      (RecoveryCatalog.recordCheckpoint cfc checkpoint run.catalog)
  | .recordBatch cfc checkpoints =>
    run.settle cfc checkpoints
      (RecoveryCatalog.recordBatch cfc checkpoints run.catalog)

def after (actions : List RecoveryAction) : RecoveryRun :=
  actions.foldl step start

end RecoveryRun

namespace RecoveryCatalog

variable {catalog : RecoveryCatalog} {cfc : CfcFin} {history : CfcRecovery}
  {α : Type}

/-- A call on a history is a call on what `recovery` finds. -/
theorem onHistory_eq (h : catalog.recovery cfc = some history)
    (call : Mutator CfcRecovery RecoveryError α) : ∃ slot, slot < maxRecoveryCfcs ∧
      catalog.histories.get slot = some history ∧ (∀ other < slot, ∀ earlier,
        catalog.histories.get other = some earlier → (earlier.cfc == cfc) = false) ∧
      onHistory cfc call catalog = ((call history).1,
          ⟨catalog.histories.put slot (some (call history).2)⟩) := by
  rw [recovery, SlotTable.find?_occupants, bind_eq_some_iff] at h
  obtain ⟨slot, hfind, hget⟩ := h
  refine ⟨slot, lt_of_get hget, hget, (findIndex_spec hfind).2, ?_⟩
  rw [onHistory, hfind]
  dsimp only
  rw [hget]

theorem onHistory_unknown (h : catalog.recovery cfc = none)
    (call : Mutator CfcRecovery RecoveryError α) :
    onHistory cfc call catalog = (.fail .unknownCfc, catalog) := by
  have hfind : catalog.histories.findIndex (fun history => history.cfc == cfc) = none := by
    rw [recovery, SlotTable.find?_occupants] at h
    cases hfind : catalog.histories.findIndex (fun history => history.cfc == cfc) with
    | none => rfl
    | some slot =>
      obtain ⟨⟨history, hget, -⟩, -⟩ := findIndex_spec hfind
      rw [hfind, bind_some, hget] at h
      cases h
  rw [onHistory, hfind]

/-- Writing the first history of a CFC changes what is found for this CFC
only. -/
theorem recovery_put {slot : ℕ} (hslot : slot < maxRecoveryCfcs) (hcfc : history.cfc = cfc)
    (hold : ∀ earlier, catalog.histories.get slot = some earlier → earlier.cfc = cfc)
    (hbefore : ∀ other < slot, ∀ earlier, catalog.histories.get other = some earlier →
        (earlier.cfc == cfc) = false) (other : CfcFin) :
    (⟨catalog.histories.put slot (some history)⟩ : RecoveryCatalog).recovery other =
        if other = cfc then some history else catalog.recovery other := by
  by_cases heq : other = cfc
  · rw [if_pos heq, heq]
    exact SlotTable.find?_reduceOption_set_first (by rwa [catalog.histories.length_slots])
      (beq_iff_eq.mpr hcfc) hbefore
  rw [if_neg heq]
  apply SlotTable.find?_put_of_false
  · intro earlier hearlier
    rw [hold earlier hearlier]
    exact beq_false_of_ne (Ne.symm heq)
  · rintro _ ⟨⟩
    rw [hcfc]
    exact beq_false_of_ne (Ne.symm heq)

/-- An installation adds a history without checkpoints for a CFC that has
none. -/
theorem install_cases (cfc : CfcFin) (baseline : InstallationBaseline) (catalog : RecoveryCatalog) :
    (∃ error, install cfc baseline catalog = (.fail error, catalog)) ∨
    ∃ history catalog', install cfc baseline catalog = (.done (), catalog') ∧
      catalog.recovery cfc = none ∧ history.Records cfc baseline [] ∧
      ∀ other, catalog'.recovery other =
        if other = cfc then some history else catalog.recovery other := by
  rw [install]
  split
  · exact .inl ⟨_, rfl⟩
  rename_i habsent
  rw [not_isSome_iff_eq_none] at habsent
  cases hnew : CfcRecovery.new cfc baseline with
  | error error => exact .inl ⟨error, rfl⟩
  | ok history =>
    cases hfree : catalog.histories.freeIndex with
    | none => exact .inl ⟨_, rfl⟩
    | some slot =>
      have hrecords := CfcRecovery.records_new hnew
      refine .inr ⟨history, _, rfl, habsent, hrecords, ?_⟩
      apply recovery_put (slots_of_freeIndex hfree).1 hrecords.cfc_eq
      · intro earlier hearlier
        rw [get_of_freeIndex hfree] at hearlier
        cases hearlier
      · intro other _ earlier hearlier
        have hnot := find?_eq_none.mp habsent earlier (mem_occupants_of_get hearlier)
        exact Bool.eq_false_iff.mpr hnot

/-- A call on a history that reports errors without an effect does so on the
catalog. -/
theorem onHistory_cases {baseline : InstallationBaseline} {log log' : List CheckpointMetadata}
    {call : Mutator CfcRecovery RecoveryError α} (h : catalog.recovery cfc = some history)
    (hrecords : history.Records cfc baseline log)
    (hcall : (∃ error, call history = (.fail error, history)) ∨
      ∃ answer history', call history = (.done answer, history') ∧
        history'.Records cfc baseline log') :
    (∃ error, onHistory cfc call catalog = (.fail error, catalog)) ∨ ∃ answer history' catalog',
      onHistory cfc call catalog = (.done answer, catalog') ∧ history'.Records cfc baseline log' ∧
      ∀ other, catalog'.recovery other =
        if other = cfc then some history' else catalog.recovery other := by
  obtain ⟨slot, hslot, hget, hbefore, honce⟩ := onHistory_eq h call
  rcases hcall with ⟨error, hrun⟩ | ⟨answer, history', hrun, hrecords'⟩
  · left
    rw [hrun] at honce
    rw [put_self hget] at honce
    exact ⟨error, honce⟩
  right
  rw [hrun] at honce
  refine ⟨answer, history', _, honce, hrecords', ?_⟩
  apply recovery_put hslot hrecords'.cfc_eq _ hbefore
  intro earlier hearlier
  rw [hget] at hearlier
  rw [← Option.some.inj hearlier, hrecords.cfc_eq]

end RecoveryCatalog

namespace RecoveryRun

/-- Each history records the log of its CFC. -/
def Sound (run : RecoveryRun) : Prop :=
  ∀ cfc, (run.catalog.recovery cfc = none → run.log cfc = []) ∧
    ∀ history, run.catalog.recovery cfc = some history →
      ∃ baseline, run.installed cfc = some baseline ∧ history.Records cfc baseline (run.log cfc)

theorem sound_start : start.Sound := by
  intro cfc
  refine ⟨fun _ => rfl, ?_⟩
  intro history h
  cases h

variable {run : RecoveryRun} {cfc : CfcFin}

theorem Sound.install (h : run.Sound) (cfc : CfcFin) (baseline : InstallationBaseline) :
    (run.step (.install cfc baseline)).Sound := by
  rw [step]
  rcases RecoveryCatalog.install_cases cfc baseline run.catalog with
    ⟨error, hrun⟩ | ⟨history, catalog, hrun, habsent, hrecords, hfound⟩
  · rw [hrun]
    exact h
  rw [hrun]
  intro other
  dsimp only
  rw [hfound other]
  by_cases heq : other = cfc
  · rw [if_pos heq, heq, update_self, (h cfc).1 habsent]
    constructor
    · intro hnone
      cases hnone
    · intro found hsome
      rw [← Option.some.inj hsome]
      exact ⟨baseline, rfl, hrecords⟩
  · rw [if_neg heq, update_of_ne heq]
    exact h other

variable {checkpoints : List CheckpointMetadata}

/-- A call that is logged with what it recorded. -/
theorem Sound.accept (h : run.Sound) {history : CfcRecovery}
    {catalog : RecoveryCatalog} {baseline : InstallationBaseline}
    (hinstalled : run.installed cfc = some baseline)
    (hrecords : history.Records cfc baseline (run.log cfc ++ checkpoints))
    (hfound : ∀ other, catalog.recovery other =
      if other = cfc then some history else run.catalog.recovery other) :
    (run.accept catalog cfc checkpoints).Sound := by
  intro other
  rw [RecoveryRun.accept]
  dsimp only
  rw [hfound other]
  by_cases heq : other = cfc
  · rw [if_pos heq, heq, update_self]
    constructor
    · intro hnone
      cases hnone
    · intro found hsome
      rw [← Option.some.inj hsome]
      exact ⟨baseline, hinstalled, hrecords⟩
  · rw [if_neg heq, update_of_ne heq]
    exact h other

theorem Sound.onHistory (h : run.Sound) {α : Type} (cfc : CfcFin)
    {call : Mutator CfcRecovery RecoveryError α}
    (hcall : ∀ history baseline log, history.Records cfc baseline log →
      (∃ error, call history = (.fail error, history)) ∨
      ∃ answer history', call history = (.done answer, history') ∧
        history'.Records cfc baseline (log ++ checkpoints)) : (run.settle cfc checkpoints
      (RecoveryCatalog.onHistory cfc call run.catalog)).Sound := by
  cases hfound : run.catalog.recovery cfc with
  | none =>
    rw [RecoveryCatalog.onHistory_unknown hfound]
    exact h
  | some history =>
    obtain ⟨baseline, hinstalled, hrecords⟩ := (h cfc).2 history hfound
    rcases RecoveryCatalog.onHistory_cases hfound hrecords (hcall history baseline _ hrecords) with
      ⟨error, hrun⟩ | ⟨answer, history', catalog, hrun, hnew, hothers⟩
    · rw [hrun]
      exact h
    · rw [hrun]
      exact h.accept hinstalled hnew hothers

theorem Sound.step (h : run.Sound) (action : RecoveryAction) : (run.step action).Sound := by
  cases action with
  | install cfc baseline => exact h.install cfc baseline
  | recordCheckpoint cfc checkpoint =>
    apply h.onHistory cfc
    intro history baseline log hrecords
    rcases hrecords.recordCheckpoint checkpoint with
      hfail | ⟨evicted, history', hrun, hrecords', -⟩
    · exact .inl hfail
    · exact .inr ⟨evicted, history', hrun, hrecords'⟩
  | recordBatch cfc checkpoints =>
    apply h.onHistory cfc
    intro history baseline log hrecords
    rcases hrecords.recordBatch checkpoints with
      hfail | ⟨history', hrun, hrecords'⟩
    · exact .inl hfail
    · exact .inr ⟨(), history', hrun, hrecords'⟩

theorem sound_after (actions : List RecoveryAction) : (after actions).Sound := by
  induction actions using reverseRecOn with
  | nil => exact sound_start
  | append_singleton actions action ih =>
    rw [after, foldl_append]
    exact ih.step action

end RecoveryRun

open CfcRecovery in
/-- In every run of a catalog each history keeps the last eight checkpoints
that were accepted for its CFC, and its baseline. -/
theorem recovery_keeps_last_eight (actions : List RecoveryAction)
    {cfc : CfcFin} {history : CfcRecovery}
    (h : (RecoveryRun.after actions).catalog.recovery cfc = some history) :
    let run := RecoveryRun.after actions
    history.retained = (run.log cfc).drop ((run.log cfc).length - 8) ∧
    (history.retained.Pairwise fun a b => a.metadata.stateId < b.metadata.stateId ∧
      a.metadata.expfsSequence ≤ b.metadata.expfsSequence ∧
      a.metadata.formGraphRevision ≤ b.metadata.formGraphRevision) ∧
    run.installed cfc = some history.baseline ∧ (∀ checkpoint evicted catalog,
      RecoveryCatalog.recordCheckpoint cfc checkpoint run.catalog = (.done evicted, catalog) →
      evicted = if history.retained.length < 8 then none else history.retained.head?) ∧
    run.catalog.selectRestore cfc .installationBaseline =
      .ok ⟨cfc, .installationBaseline, history.baseline.metadata⟩ ∧
    (∀ checkpoint ∈ history.retained, run.catalog.selectRestore cfc
        (.checkpoint checkpoint.metadata.stateId) = .ok ⟨cfc, .checkpoint, checkpoint.metadata⟩) ∧
    (∀ stateId, (∀ checkpoint ∈ history.retained, checkpoint.metadata.stateId ≠ stateId) →
      run.catalog.selectRestore cfc (.checkpoint stateId) = .error .checkpointNotFound) ∧
    (∀ checkpoints, (∃ after, recordEach checkpoints history = (.done (), after) ∧
        CfcRecovery.recordBatch checkpoints history = (.done (), after)) ∨
      ∃ error reached, recordEach checkpoints history = (.fail error, reached) ∧
        CfcRecovery.recordBatch checkpoints history = (.fail error, history) ∧
        RecoveryCatalog.recordBatch cfc checkpoints run.catalog = (.fail error, run.catalog)) := by
  intro run
  obtain ⟨baseline, hinstalled, hrecords⟩ :
      ∃ baseline, run.installed cfc = some baseline ∧ history.Records cfc baseline (run.log cfc) :=
    (RecoveryRun.sound_after actions cfc).2 history h
  have hselect : ∀ target, run.catalog.selectRestore cfc target = history.selectRestore target := by
    intro target
    rw [RecoveryCatalog.selectRestore, h]
  refine ⟨hrecords.retained_eq, hrecords.pairwise_retained, ?_, ?_, ?_, ?_, ?_, ?_⟩
  · rw [hrecords.baseline_eq]
    exact hinstalled
  · intro checkpoint evicted catalog hrun
    obtain ⟨slot, -, -, -, honce⟩ := RecoveryCatalog.onHistory_eq h
      (CfcRecovery.recordCheckpoint checkpoint)
    have hanswer := congrArg Prod.fst (honce.symm.trans hrun)
    have hspace : history.retained.length < 8 ↔
        (run.log cfc).length < recoveryCheckpointCapacity := by
      rw [hrecords.retained_eq, length_lastOf, recoveryCheckpointCapacity]
      omega
    rcases hrecords.recordCheckpoint checkpoint with
      ⟨error, hcall⟩ | ⟨evicted', history', hcall, -, hevicted⟩
    · rw [hcall] at hanswer
      cases hanswer
    rw [hcall] at hanswer
    cases hanswer
    rw [hevicted, ← hrecords.retained_eq]
    exact if_congr hspace.symm rfl rfl
  · rw [hselect, selectRestore, hrecords.cfc_eq]
  · intro checkpoint hmem
    rw [hselect]
    exact hrecords.selectRestore_retained hmem
  · intro stateId hother
    rw [hselect]
    exact hrecords.selectRestore_other hother
  · intro checkpoints
    rcases hrecords.recordEach checkpoints with
      ⟨error, reached, heach⟩ | ⟨after, heach, -⟩
    · have hbatch : CfcRecovery.recordBatch checkpoints history = (.fail error, history) := by
        rw [CfcRecovery.recordBatch, heach]
      obtain ⟨slot, -, hget, -, honce⟩ := RecoveryCatalog.onHistory_eq h
        (CfcRecovery.recordBatch checkpoints)
      rw [hbatch] at honce
      dsimp only at honce
      rw [put_self hget] at honce
      exact .inr ⟨error, reached, heach, hbatch, honce⟩
    · refine .inl ⟨after, heach, ?_⟩
      rw [CfcRecovery.recordBatch, heach]

/-- The metadata of the state with a small number. -/
def smallPoint (stateId : Fin 16) : RecoveryPoint where
  cfc := CfcFin.fromU128 1
  metadata :=
    { stateId := UInt64.ofNat (stateId + 1)
      expfsSequence := 1
      formGraphRevision := 1
      nonzero := by
        revert stateId
        decide }
  cfc_nonzero := by decide

/-- A baseline and nine checkpoints, the last two of them in one batch. -/
def nineCheckpoints : List RecoveryAction :=
  .install (CfcFin.fromU128 1) ⟨smallPoint 0⟩ :: ([1, 2, 3, 4, 5, 6, 7].map fun stateId =>
      .recordCheckpoint (CfcFin.fromU128 1) ⟨smallPoint stateId⟩) ++
    [.recordBatch (CfcFin.fromU128 1) [⟨smallPoint 8⟩, ⟨smallPoint 9⟩]]

theorem nineCheckpoints_kept : ∃ history, (RecoveryRun.after nineCheckpoints).catalog.recovery
        (CfcFin.fromU128 1) = some history ∧
      history.retained = [2, 3, 4, 5, 6, 7, 8, 9].map fun stateId =>
        ⟨smallPoint stateId⟩ := by
  have hsome : ((RecoveryRun.after nineCheckpoints).catalog.recovery
      (CfcFin.fromU128 1)).isSome = true := by decide +kernel
  obtain ⟨history, hhistory⟩ := isSome_iff_exists.mp hsome
  refine ⟨history, hhistory, ?_⟩
  rw [(recovery_keeps_last_eight nineCheckpoints hhistory).1]
  decide +kernel

end ExpOS
