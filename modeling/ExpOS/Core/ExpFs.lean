import ExpOS.Core.BlobContent
import ExpOS.Core.Cfc
import ExpOS.Support.VersionLog

/-!
# The transactional record store

An `ExpFs` store holds versions of Form contents and of typed system records
for one CFC.  A transaction stages versions privately; a commit checks all of
them against the store and then appends them under one new sequence number.

Both tables are append-only version logs.  The checks of `commit` say that the
staged versions extend these logs, and the rest follows from that.
-/

namespace ExpOS

open List SlotTable Bool VersionLog
open UInt32 (lt_iff_toNat_lt le_iff_toNat_le)

def maxRecords : ℕ := 32
def maxStaged : ℕ := 8
def maxSystemRecords : ℕ := 64
def maxStagedSystemRecords : ℕ := 16
def defaultCfcBlobQuota : ℕ := 48 * 1024
def systemRecordCapacity : ℕ := 512

inductive RecordKind where
  | cfc
  | primaryDimension
  | dimension
  | form
  | relationship
  | pimp
  | capability
  | account
  | revision
  | setting
  | checkpoint
deriving DecidableEq

structure RecordKey where
  kind : RecordKind
  identity : FormFin
  dimension : FormFin
deriving DecidableEq

/-- A version of a typed record.  The source stores a zero-padded buffer and
a length; only the occupied part is kept here. -/
structure SystemRecord where
  cfc : CfcFin
  key : RecordKey
  revision : UInt32
  journalSequence : UInt32
  bytes : Bytes
  length_le : bytes.length ≤ systemRecordCapacity

structure PersistentForm where
  cfc : CfcFin
  form : FormFin
  dimension : FormFin
  revision : UInt32
  journalSequence : UInt32
  content : ChunkedBlob

def PersistentForm.contentLen (record : PersistentForm) : ℕ :=
  record.content.len

/-- The Form and the Dimension of a content version. -/
def PersistentForm.key (record : PersistentForm) : FormFin × FormFin :=
  (record.form, record.dimension)

/-- The version under the sequence number of its commit. -/
def PersistentForm.stamp (sequence : UInt32) (record : PersistentForm) :
    PersistentForm :=
  { record with journalSequence := sequence }

/-- The version under the sequence number of its commit. -/
def SystemRecord.stamp (sequence : UInt32) (record : SystemRecord) :
    SystemRecord :=
  { record with journalSequence := sequence }

/-! ## Transactions -/

namespace ExpFs

inductive StorageError where
  | full
  | emptyTransaction
  | invalidRecord
  | contentTooLarge
  | cfcQuotaExceeded
  | duplicateRecord
  | duplicateKey
  | staleRevision
  | sequenceExhausted
  | wrongCfc
  | unownedForm
  | unownedDimension
deriving DecidableEq

structure Transaction where
  cfc : Cfc
  records : SlotTable PersistentForm maxStaged
  systemRecords : SlotTable SystemRecord maxStagedSystemRecords

namespace Transaction

/-- The kinds whose identity has to be an owned Form. -/
def ownedKind : RecordKind → Bool
  | .form | .capability | .pimp => true
  | _ => false

def stageRecord (key : RecordKey) (revision : UInt32) (bytes : Bytes) :
    Mutator Transaction StorageError Unit := fun transaction =>
  if key.identity.isZero ∨ revision = 0 then
    (.fail .invalidRecord, transaction)
  else if hlen : bytes.length > systemRecordCapacity then
    (.fail .contentTooLarge, transaction)
  else if ¬ key.dimension.isZero ∧ ¬ transaction.cfc.ownsDimension key.dimension then
    (.fail .unownedDimension, transaction)
  else if ownedKind key.kind ∧ ¬ transaction.cfc.ownsForm key.identity then
    (.fail .unownedForm, transaction)
  else if transaction.systemRecords.occupants.any (·.key == key) then
    (.fail .duplicateKey, transaction)
  else
    match transaction.systemRecords.freeIndex with
    | none => (.fail .full, transaction)
    | some slot => (.done (),
        { transaction with
          systemRecords := transaction.systemRecords.put slot (some
            { cfc := transaction.cfc.fin
              key
              revision
              journalSequence := 0
              bytes
              length_le := Nat.not_lt.mp hlen }) })

def stageContent (form dimension : FormFin) (revision : UInt32)
    (bytes : Bytes) : Mutator Transaction StorageError Unit :=
  fun transaction =>
    if form.isZero ∨ dimension.isZero ∨ revision = 0 then
      (.fail .invalidRecord, transaction)
    else if ¬ transaction.cfc.ownsForm form then
      (.fail .unownedForm, transaction)
    else if ¬ transaction.cfc.ownsDimension dimension then
      (.fail .unownedDimension, transaction)
    else if bytes.length > defaultFormBlobQuota then
      (.fail .contentTooLarge, transaction)
    else if transaction.records.occupants.any fun record =>
        record.form == form && record.dimension == dimension then
      (.fail .duplicateRecord, transaction)
    else
      match transaction.records.freeIndex with
      | none => (.fail .full, transaction)
      | some slot => (.done (),
          { transaction with
            records := transaction.records.put slot (some
              { cfc := transaction.cfc.fin
                form
                dimension
                revision
                journalSequence := 0
                content := ChunkedBlob.fromBytes bytes }) })

end Transaction

end ExpFs

/-! ## The store -/

structure ExpFs where
  cfc : Cfc
  records : SlotTable PersistentForm maxRecords
  systemRecords : SlotTable SystemRecord maxSystemRecords
  nextSequence : UInt32

namespace ExpFs

/-- A new store.  An invalid CFC fails an assertion. -/
def new {ε : Type} (cfc : Cfc) : Outcome ε ExpFs :=
  match cfc.validate with
  | .error _ => .halt
  | .ok () => .done
      { cfc
        records := SlotTable.empty _ _
        systemRecords := SlotTable.empty _ _
        nextSequence := 1 }

/-- The source's `begin`. -/
def beginTransaction (store : ExpFs) : Transaction where
  cfc := store.cfc
  records := SlotTable.empty _ _
  systemRecords := SlotTable.empty _ _

def latest (store : ExpFs) (form dimension : FormFin) : Option PersistentForm :=
  VersionLog.latest PersistentForm.key (·.revision.toNat)
    store.records.occupants (form, dimension)

def latestRecord (store : ExpFs) (key : RecordKey) : Option SystemRecord :=
  VersionLog.latest SystemRecord.key (·.revision.toNat)
    store.systemRecords.occupants key

def recordsAt (store : ExpFs) (sequence : UInt32) : List SystemRecord :=
  VersionLog.viewAt SystemRecord.key (·.revision.toNat)
    (·.journalSequence.toNat) store.systemRecords.occupants sequence.toNat

variable {α : Type}

/-- Put each record into the first free cell.  A full table fails an
assertion. -/
def publish {capacity : ℕ} : List α → Mutator (SlotTable α capacity) StorageError Unit
  | [], table => (.done (), table)
  | record :: rest, table =>
    match table.freeIndex with
    | none => (.halt, table)
    | some slot => publish rest (table.put slot (some record))

/-- The bytes of the newest contents that a transaction does not replace. -/
def retainedBytes (store : ExpFs) (transaction : Transaction) : ℕ :=
  ((store.records.occupants.filter fun record =>
    ((store.latest record.form record.dimension).any fun latest =>
      latest.revision == record.revision) &&
    !transaction.records.occupants.any fun replacement =>
      replacement.form == record.form &&
        replacement.dimension == record.dimension).map
          PersistentForm.contentLen).sum

def stagedBytes (transaction : Transaction) : ℕ :=
  (transaction.records.occupants.map PersistentForm.contentLen).sum

/-- The loops of `commit` after all checks. -/
def publishAll (transaction : Transaction) (store : ExpFs) : Outcome StorageError UInt32 × ExpFs :=
  let sequence := store.nextSequence
  match publish (transaction.records.occupants.map
      (PersistentForm.stamp sequence)) store.records with
  | (.done (), records) =>
    match publish (transaction.systemRecords.occupants.map
        (SystemRecord.stamp sequence)) store.systemRecords with
    | (.done (), systemRecords) =>
      (.done sequence,
        { store with
          records, systemRecords, nextSequence := sequence + 1 })
    | (_, systemRecords) =>
      (.halt,
        { store with
          records, systemRecords, nextSequence := sequence + 1 })
  | (_, records) =>
    (.halt, { store with records, nextSequence := sequence + 1 })

def commit (transaction : Transaction) : Mutator ExpFs StorageError UInt32 := fun store =>
  let staged := transaction.records.occupants
  let stagedSystem := transaction.systemRecords.occupants
  if transaction.cfc ≠ store.cfc then (.fail .wrongCfc, store)
  else if staged.length = 0 ∧ stagedSystem.length = 0 then
    (.fail .emptyTransaction, store)
  else if staged.length > store.records.freeCount then (.fail .full, store)
  else if stagedSystem.length > store.systemRecords.freeCount then
    (.fail .full, store)
  else if staged.any fun record =>
      (store.latest record.form record.dimension).any fun previous =>
        previous.revision ≥ record.revision then
    (.fail .staleRevision, store)
  else if store.retainedBytes transaction + stagedBytes transaction >
      defaultCfcBlobQuota then
    (.fail .cfcQuotaExceeded, store)
  else if stagedSystem.any fun record =>
      (store.latestRecord record.key).any fun previous =>
        previous.revision ≥ record.revision then
    (.fail .staleRevision, store)
  -- `checked_add` on the sequence counter
  else if store.nextSequence.toNat + 1 = 2 ^ 32 then
    (.fail .sequenceExhausted, store)
  else publishAll transaction store

/-! ## Staging -/

/-- The transactions that staging calls, successful or not, lead to. -/
inductive Transaction.Staged : Transaction → Prop
  | start (store : ExpFs) : Staged store.beginTransaction
  | record {transaction transaction' : Transaction} {key : RecordKey}
      {revision : UInt32} {bytes : Bytes}
      {outcome : Outcome StorageError Unit} (h : Staged transaction)
      (hrun : stageRecord key revision bytes transaction =
        (outcome, transaction')) : Staged transaction'
  | content {transaction transaction' : Transaction}
      {form dimension : FormFin} {revision : UInt32} {bytes : Bytes}
      {outcome : Outcome StorageError Unit} (h : Staged transaction)
      (hrun : stageContent form dimension revision bytes transaction =
        (outcome, transaction')) : Staged transaction'

/-- No key is staged twice. -/
structure Transaction.KeysDistinct (transaction : Transaction) : Prop where
  records : (transaction.records.occupants.map PersistentForm.key).Nodup
  systemRecords :
    (transaction.systemRecords.occupants.map SystemRecord.key).Nodup

variable {transaction : Transaction}

theorem Transaction.stageRecord_keysDistinct
    (h : transaction.KeysDistinct) (key : RecordKey) (revision : UInt32) (bytes : Bytes) :
    (stageRecord key revision bytes transaction).2.KeysDistinct := by
  rw [stageRecord]
  iterate 5
    split
    · exact h
  rename_i hfresh
  split
  · exact h
  rename_i slot hslot
  refine ⟨h.records, ?_⟩
  have hperm := perm_occupants_put hslot
  rw [((hperm _).map _).nodup_iff, map_cons, nodup_cons]
  refine ⟨?_, h.systemRecords⟩
  rw [mem_map]
  rintro ⟨other, hother, heq⟩
  exact hfresh (any_eq_true.mpr ⟨other, hother, by simpa using heq⟩)

theorem Transaction.stageContent_keysDistinct
    (h : transaction.KeysDistinct) (form dimension : FormFin) (revision : UInt32) (bytes : Bytes) :
    (stageContent form dimension revision bytes transaction).2.KeysDistinct := by
  rw [stageContent]
  iterate 5
    split
    · exact h
  rename_i hfresh
  split
  · exact h
  rename_i slot hslot
  refine ⟨?_, h.systemRecords⟩
  have hperm := perm_occupants_put hslot
  rw [((hperm _).map _).nodup_iff, map_cons, nodup_cons]
  refine ⟨?_, h.records⟩
  rw [mem_map]
  rintro ⟨other, hother, heq⟩
  refine hfresh (any_eq_true.mpr ⟨other, hother, ?_⟩)
  simpa [PersistentForm.key] using heq

theorem Transaction.Staged.keysDistinct (h : transaction.Staged) : transaction.KeysDistinct := by
  induction h with
  | start store =>
    exact ⟨by simp [beginTransaction], by simp [beginTransaction]⟩
  | @record _ _ key revision bytes _ _ hrun ih =>
    have hkeys := stageRecord_keysDistinct ih key revision bytes
    rwa [hrun] at hkeys
  | @content _ _ form dimension revision bytes _ _ hrun ih =>
    have hkeys := stageContent_keysDistinct ih form dimension revision bytes
    rwa [hrun] at hkeys

/-! ## Publishing -/

/-- On a packed table with enough room the records are appended. -/
theorem publish_packed {capacity : ℕ} (batch : List α)
    {table : SlotTable α capacity} (h : table.Packed)
    (hroom : table.occupants.length + batch.length ≤ capacity) :
    ∃ table', publish batch table = (.done (), table') ∧ table'.Packed ∧
      table'.occupants = table.occupants ++ batch := by
  induction batch generalizing table with
  | nil => exact ⟨table, rfl, h, by simp⟩
  | cons record rest ih =>
    rw [length_cons] at hroom
    obtain ⟨slot, hslot⟩ := exists_freeIndex (t := table) (by omega)
    have hput := h.occupants_put hslot record
    obtain ⟨table', hrun, hpacked, hocc⟩ := ih (h.put hslot record) (by
      rw [hput, length_append, length_singleton]
      omega)
    refine ⟨table', ?_, hpacked, ?_⟩
    · simp only [publish, hslot, hrun]
    · rw [hocc, hput, append_assoc, singleton_append]

/-! ## Commits -/

/-- The bytes of the newest contents. -/
def currentBytes (store : ExpFs) : ℕ :=
  ((VersionLog.current PersistentForm.key (·.revision.toNat)
    store.records.occupants).map PersistentForm.contentLen).sum

/-- Both tables are increasing logs of earlier sequence numbers, and the
newest contents fit the quota. -/
structure Sound (store : ExpFs) : Prop where
  packed : store.records.Packed
  systemPacked : store.systemRecords.Packed
  revisions : VersionLog.Increasing PersistentForm.key
    (·.revision.toNat) store.records.occupants
  systemRevisions : VersionLog.Increasing SystemRecord.key
    (·.revision.toNat) store.systemRecords.occupants
  sequences : ∀ record ∈ store.records.occupants, record.journalSequence < store.nextSequence
  systemSequences : ∀ record ∈ store.systemRecords.occupants,
    record.journalSequence < store.nextSequence
  systemOrder : VersionLog.Increasing SystemRecord.key
    (·.journalSequence.toNat) store.systemRecords.occupants
  quota : store.currentBytes ≤ defaultCfcBlobQuota

/-- What a commit that returns has done. -/
structure Published (transaction : Transaction) (store store' : ExpFs) :
    Prop where
  cfc : store'.cfc = store.cfc
  packed : store'.records.Packed
  systemPacked : store'.systemRecords.Packed
  records : store'.records.occupants = store.records.occupants ++ transaction.records.occupants.map
      (PersistentForm.stamp store.nextSequence)
  systemRecords : store'.systemRecords.occupants = store.systemRecords.occupants ++
      transaction.systemRecords.occupants.map
        (SystemRecord.stamp store.nextSequence)
  nextSequence : store'.nextSequence.toNat = store.nextSequence.toNat + 1
  newer : VersionLog.Extends PersistentForm.key (·.revision.toNat)
    store.records.occupants (transaction.records.occupants.map
      (PersistentForm.stamp store.nextSequence))
  systemNewer : VersionLog.Extends SystemRecord.key (·.revision.toNat)
    store.systemRecords.occupants (transaction.systemRecords.occupants.map
      (SystemRecord.stamp store.nextSequence))
  quota : store.retainedBytes transaction + stagedBytes transaction ≤ defaultCfcBlobQuota

/-- Distinct keys that pass the check against the latest versions extend the
log, whatever else is stamped on them. -/
theorem extends_of_fresh {κ : Type} [DecidableEq κ] {key : α → κ}
    {revision : α → UInt32} (stamp : α → α) (hkey : ∀ record, key (stamp record) = key record)
    (hrevision : ∀ record, revision (stamp record) = revision record)
    {log batch : List α} (hkeys : (batch.map key).Nodup) (hfresh : ¬ (batch.any fun record =>
      (VersionLog.latest key (fun r => (revision r).toNat) log (key record)).any fun previous =>
          revision previous ≥ revision record) = true) :
    VersionLog.Extends key (fun r => (revision r).toNat) log (batch.map stamp) where
  keys := by
    rw [map_map, show key ∘ stamp = key from funext hkey]
    exact hkeys
  newer := by
    intro b hb
    obtain ⟨record, hrecord, rfl⟩ := mem_map.mp hb
    rw [← newer_iff, hkey]
    intro previous hprevious
    rw [not_eq_true, any_eq_false] at hfresh
    have hnone := hfresh record hrecord
    rw [not_eq_true, Option.any_eq_false] at hnone
    have hlt := hnone previous hprevious
    rw [decide_eq_false_iff_not, ge_iff_le] at hlt
    rw [hrevision]
    exact Nat.not_le.mp hlt

variable {store : ExpFs}

theorem publishAll_published (h : store.Sound) (hroom : transaction.records.occupants.length ≤
      store.records.freeCount) (hsystemRoom : transaction.systemRecords.occupants.length ≤
      store.systemRecords.freeCount) (hcount : store.nextSequence.toNat + 1 ≠ 2 ^ 32)
    (hnewer : VersionLog.Extends PersistentForm.key (·.revision.toNat)
      store.records.occupants (transaction.records.occupants.map
        (PersistentForm.stamp store.nextSequence)))
    (hsystemNewer : VersionLog.Extends SystemRecord.key
      (·.revision.toNat) store.systemRecords.occupants (transaction.systemRecords.occupants.map
        (SystemRecord.stamp store.nextSequence)))
    (hquota : store.retainedBytes transaction + stagedBytes transaction ≤ defaultCfcBlobQuota) :
    ∃ store', publishAll transaction store = (.done store.nextSequence, store') ∧
        Published transaction store store' := by
  have hfree := store.records.freeCount_add_length
  have hsystemFree := store.systemRecords.freeCount_add_length
  obtain ⟨records, hrun, hpacked, hocc⟩ := publish_packed (transaction.records.occupants.map
      (PersistentForm.stamp store.nextSequence)) h.packed (by
        rw [length_map]
        omega)
  obtain ⟨systemRecords, hsystemRun, hsystemPacked, hsystemOcc⟩ :=
    publish_packed (transaction.systemRecords.occupants.map
      (SystemRecord.stamp store.nextSequence)) h.systemPacked (by
        rw [length_map]
        omega)
  have hnext : (store.nextSequence + 1).toNat = store.nextSequence.toNat + 1 := by
    have hlt := store.nextSequence.toNat_lt
    rw [UInt32.toNat_add, UInt32.toNat_one]
    omega
  refine ⟨{ store with
      records, systemRecords, nextSequence := store.nextSequence + 1 }, ?_,
    rfl, hpacked, hsystemPacked, hocc, hsystemOcc, hnext, hnewer, hsystemNewer, hquota⟩
  simp only [publishAll, hrun, hsystemRun]

/-- A commit either refuses and changes nothing, or appends everything that
was staged.  It never halts. -/
theorem commit_cases (h : store.Sound) (hkeys : transaction.KeysDistinct) :
    (∃ error, commit transaction store = (.fail error, store)) ∨
      ∃ store', commit transaction store = (.done store.nextSequence, store') ∧
          Published transaction store store' := by
  simp only [commit]
  iterate 8
    split
    · exact .inl ⟨_, rfl⟩
  rename_i hroom hsystemRoom hfresh hquota hsystemFresh hcount
  exact .inr (publishAll_published h (Nat.not_lt.mp hroom) (Nat.not_lt.mp hsystemRoom) hcount
    (extends_of_fresh (PersistentForm.stamp _) (fun _ => rfl) (fun _ => rfl) hkeys.records hfresh)
    (extends_of_fresh (SystemRecord.stamp _) (fun _ => rfl) (fun _ => rfl)
      hkeys.systemRecords hsystemFresh)
    (Nat.not_lt.mp hquota))

variable {store' : ExpFs}

/-- The preflighted number of bytes is the number afterwards. -/
theorem Published.currentBytes_eq (h : store.Sound)
    (hpublished : Published transaction store store') : store'.currentBytes =
      store.retainedBytes transaction + stagedBytes transaction := by
  rw [currentBytes, hpublished.records, hpublished.newer.current_append h.revisions, map_append,
    sum_append, map_map]
  congr 3
  apply filter_congr
  intro record _
  congr 1
  · simp only [isNewest, UInt32.toNat_inj]
    rfl
  · simp only [any_map, PersistentForm.key, Prod.mk.injEq, decide_and]
    rfl

theorem Published.sound (h : store.Sound) (hpublished : Published transaction store store') :
    store'.Sound where
  packed := hpublished.packed
  systemPacked := hpublished.systemPacked
  revisions := by
    rw [hpublished.records]
    exact hpublished.newer.increasing h.revisions
  systemRevisions := by
    rw [hpublished.systemRecords]
    exact hpublished.systemNewer.increasing h.systemRevisions
  sequences := by
    intro record hrecord
    have hnext := hpublished.nextSequence
    rw [lt_iff_toNat_lt, hnext]
    rw [hpublished.records, mem_append] at hrecord
    rcases hrecord with hold | hnew
    · have hlt := lt_iff_toNat_lt.mp (h.sequences record hold)
      omega
    · obtain ⟨staged, -, rfl⟩ := mem_map.mp hnew
      exact Nat.lt_succ_self _
  systemSequences := by
    intro record hrecord
    have hnext := hpublished.nextSequence
    rw [lt_iff_toNat_lt, hnext]
    rw [hpublished.systemRecords, mem_append] at hrecord
    rcases hrecord with hold | hnew
    · have hlt := lt_iff_toNat_lt.mp (h.systemSequences record hold)
      omega
    · obtain ⟨staged, -, rfl⟩ := mem_map.mp hnew
      exact Nat.lt_succ_self _
  systemOrder := by
    rw [hpublished.systemRecords]
    refine VersionLog.Extends.increasing h.systemOrder
      ⟨hpublished.systemNewer.keys, fun b hb a ha _ => ?_⟩
    obtain ⟨staged, -, rfl⟩ := mem_map.mp hb
    exact lt_iff_toNat_lt.mp (h.systemSequences a ha)
  quota := by
    rw [hpublished.currentBytes_eq h]
    exact hpublished.quota

/-- The stores that commits of staged transactions, successful or not, lead
to. -/
inductive Reachable : ExpFs → Prop
  | new {cfc : Cfc} {store : ExpFs}
      (h : ExpFs.new (ε := StorageError) cfc = .done store) :
      Reachable store
  | commit {store store' : ExpFs} {transaction : Transaction}
      {outcome : Outcome StorageError UInt32} (h : Reachable store)
      (htransaction : transaction.Staged)
      (hrun : ExpFs.commit transaction store = (outcome, store')) :
      Reachable store'

theorem new_sound {ε : Type} {cfc : Cfc} (h : new (ε := ε) cfc = .done store) : store.Sound := by
  rw [new] at h
  split at h
  · cases h
  cases h
  exact ⟨packed_empty, packed_empty,
    by simp [VersionLog.Increasing], by simp [VersionLog.Increasing],
    by simp, by simp, by simp [VersionLog.Increasing], by simp [currentBytes, current]⟩

theorem Reachable.sound (h : Reachable store) : store.Sound := by
  induction h with
  | new hnew => exact new_sound hnew
  | @commit store store' transaction outcome _ htransaction hrun ih =>
    rcases commit_cases ih htransaction.keysDistinct with
      ⟨error, hfail⟩ | ⟨next, hdone, hpublished⟩
    · rw [hfail] at hrun
      cases hrun
      exact ih
    · rw [hdone] at hrun
      cases hrun
      exact hpublished.sound ih

/-- A commit on a reachable store refuses without any effect or publishes all
that was staged under a sequence number larger than every earlier one.  It
does not halt.  Versions of a key have increasing revisions and the newest
contents fit the quota. -/
theorem commit_atomic {store : ExpFs} (h : Reachable store)
    {transaction : Transaction} (htransaction : transaction.Staged) :
    ((∃ error, commit transaction store = (.fail error, store)) ∨
      ∃ store', commit transaction store = (.done store.nextSequence, store') ∧
        store'.cfc = store.cfc ∧ store'.nextSequence.toNat = store.nextSequence.toNat + 1 ∧
        store'.records.occupants = store.records.occupants ++ transaction.records.occupants.map
            (PersistentForm.stamp store.nextSequence) ∧
        store'.systemRecords.occupants = store.systemRecords.occupants ++
          transaction.systemRecords.occupants.map (SystemRecord.stamp store.nextSequence)) ∧
    (∀ record ∈ store.records.occupants, record.journalSequence < store.nextSequence) ∧
    (∀ record ∈ store.systemRecords.occupants, record.journalSequence < store.nextSequence) ∧
    store.records.occupants.Pairwise (fun a b =>
      a.form = b.form → a.dimension = b.dimension → a.revision < b.revision) ∧
    store.systemRecords.occupants.Pairwise (fun a b =>
      a.key = b.key → a.revision < b.revision) ∧ store.currentBytes ≤ defaultCfcBlobQuota := by
  have hsound := h.sound
  refine ⟨?_, hsound.sequences, hsound.systemSequences, ?_, ?_, hsound.quota⟩
  · rcases commit_cases hsound htransaction.keysDistinct with
      hfail | ⟨store', hdone, hpublished⟩
    · exact .inl hfail
    · exact .inr ⟨store', hdone, hpublished.cfc, hpublished.nextSequence,
        hpublished.records, hpublished.systemRecords⟩
  · refine hsound.revisions.imp fun hlt hform hdimension => ?_
    exact lt_iff_toNat_lt.mpr (hlt (Prod.ext hform hdimension))
  · refine hsound.systemRevisions.imp fun hlt hkey => ?_
    exact lt_iff_toNat_lt.mpr (hlt hkey)

section SmallStore

/-- The store of a CFC with one Form, before any commit. -/
def smallStore : ExpFs where
  cfc := smallCfc 100 1 2
  records := SlotTable.empty _ _
  systemRecords := SlotTable.empty _ _
  nextSequence := 1

/-- A setting and a content of the one Form, both at the given revision. -/
def smallTransaction (revision : UInt32) : Transaction :=
  (Transaction.stageContent (FormFin.fromU128 2) (FormFin.fromU128 1)
    revision [7] (Transaction.stageRecord
      { kind := .setting
        identity := FormFin.fromU128 2
        dimension := FormFin.zero } revision [8]
      smallStore.beginTransaction).2).2

theorem smallStore_reachable : Reachable smallStore :=
  @Reachable.new (smallCfc 100 1 2) _ (by
    rfl)

theorem smallTransaction_staged (revision : UInt32) : (smallTransaction revision).Staged :=
  .content (.record (.start smallStore) rfl) rfl

theorem first_commit_atomic : (commit (smallTransaction 1) smallStore).1 = .done 1 ∧
      ∃ store', commit (smallTransaction 1) smallStore = (.done 1, store') ∧
        store'.records.occupants = (smallTransaction 1).records.occupants.map
            (PersistentForm.stamp 1) := by
  have hdone : (commit (smallTransaction 1) smallStore).1 = .done 1 := by
    decide +kernel
  refine ⟨hdone, ?_⟩
  rcases (commit_atomic smallStore_reachable (smallTransaction_staged 1)).1 with
    ⟨error, hfail⟩ | ⟨store', hrun, -, -, hrecords, -⟩
  · rw [hfail] at hdone
    cases hdone
  · exact ⟨store', hrun, hrecords⟩

end SmallStore

/-! ## Point-in-time views -/

/-- The second store comes from the first one by commits. -/
inductive Later (store : ExpFs) : ExpFs → Prop
  | refl : Later store store
  | commit {earlier later : ExpFs} {transaction : Transaction}
      {outcome : Outcome StorageError UInt32} (h : Later store earlier)
      (htransaction : transaction.Staged)
      (hrun : ExpFs.commit transaction earlier = (outcome, later)) :
      Later store later

variable {later : ExpFs}

theorem Later.reachable (h : Later store later)
    (hreachable : Reachable store) : Reachable later := by
  induction h with
  | refl => exact hreachable
  | commit _ htransaction hrun ih => exact ih.commit htransaction hrun

variable {sequence : UInt32}

theorem Published.recordsAt_eq (hpublished : Published transaction store store')
    (hsequence : sequence < store.nextSequence) :
    store'.recordsAt sequence = store.recordsAt sequence := by
  rw [recordsAt, hpublished.systemRecords, viewAt_append, recordsAt]
  intro record hrecord
  obtain ⟨staged, -, rfl⟩ := mem_map.mp hrecord
  exact lt_iff_toNat_lt.mp hsequence

/-- Later commits keep the view of a committed sequence number. -/
theorem Later.recordsAt_eq (h : Later store later) (hreachable : Reachable store)
    (hsequence : sequence < store.nextSequence) :
    later.recordsAt sequence = store.recordsAt sequence ∧ sequence < later.nextSequence := by
  induction h with
  | refl => exact ⟨rfl, hsequence⟩
  | @commit earlier later transaction outcome hlater htransaction hrun ih =>
    obtain ⟨heq, hlt⟩ := ih
    rcases commit_cases (hlater.reachable hreachable).sound htransaction.keysDistinct with
      ⟨error, hfail⟩ | ⟨next, hdone, hpublished⟩
    · rw [hfail] at hrun
      cases hrun
      exact ⟨heq, hlt⟩
    rw [hdone] at hrun
    cases hrun
    refine ⟨(hpublished.recordsAt_eq hlt).trans heq, ?_⟩
    have hnext := hpublished.nextSequence
    rw [lt_iff_toNat_lt] at hlt ⊢
    omega

/-- The view of a committed sequence number is the same after any later
commits: one record for each key that had one by then, the newest. -/
theorem recordsAt_stable {store later : ExpFs} (h : Reachable store)
    {sequence : UInt32} (hsequence : sequence < store.nextSequence) (hlater : Later store later) :
    later.recordsAt sequence = store.recordsAt sequence ∧ (∀ record ∈ later.recordsAt sequence,
      record ∈ later.systemRecords.occupants ∧ record.journalSequence ≤ sequence) ∧
    ∀ record ∈ later.systemRecords.occupants, record.journalSequence ≤ sequence →
      ∃ newest, (later.recordsAt sequence).filter (fun other => other.key = record.key) = [newest] ∧
        newest.journalSequence ≤ sequence ∧ ∀ other ∈ later.systemRecords.occupants,
          other.key = record.key → other.journalSequence ≤ sequence →
            other.revision ≤ newest.revision ∧ other.journalSequence ≤ newest.journalSequence := by
  have hsound := (hlater.reachable h).sound
  refine ⟨(hlater.recordsAt_eq h hsequence).1, ?_, ?_⟩
  · intro record hrecord
    rw [recordsAt, viewAt, mem_filter, and_eq_true, decide_eq_true_eq] at hrecord
    exact ⟨hrecord.1, le_iff_toNat_le.mpr hrecord.2.1⟩
  intro record hrecord hle
  obtain ⟨newest, hview, hmem, hkey, hseq, hmax⟩ :=
    hsound.systemRevisions.viewAt_key (·.journalSequence.toNat) hrecord
      rfl (le_iff_toNat_le.mp hle)
  refine ⟨newest, hview, le_iff_toNat_le.mpr hseq, ?_⟩
  intro other hother hotherKey hotherSeq
  have hrevision := hmax other hother hotherKey (le_iff_toNat_le.mp hotherSeq)
  exact ⟨le_iff_toNat_le.mpr hrevision,
    le_iff_toNat_le.mpr (hsound.systemRevisions.le_of_le
      hsound.systemOrder hother hmem (hotherKey.trans hkey.symm)
      hrevision)⟩

/-- The view of the first commit after a second commit of the same key. -/
theorem first_view_stable : ∃ store later, Later store later ∧ store.nextSequence = 2 ∧
      later.nextSequence = 3 ∧ later.recordsAt 1 = store.recordsAt 1 := by
  have hfirst : (commit (smallTransaction 1) smallStore).2.nextSequence = 2 := by decide +kernel
  have hreachable : Reachable (commit (smallTransaction 1) smallStore).2 :=
    smallStore_reachable.commit (smallTransaction_staged 1) rfl
  have hlater : Later (commit (smallTransaction 1) smallStore).2 (commit (smallTransaction 2)
        (commit (smallTransaction 1) smallStore).2).2 :=
    .commit .refl (smallTransaction_staged 2) rfl
  refine ⟨_, _, hlater, hfirst, by decide +kernel, ?_⟩
  refine (recordsAt_stable hreachable ?_ hlater).1
  decide

end ExpFs

end ExpOS
