import ExpOS.Store.Crash
import ExpOS.Store.Forms

/-!
# Calls on a disk without faults

On a quiet device every call that publishes a snapshot completes if the
snapshot can be stored.
-/

namespace ExpOS

open Effect

/-! ## Writing a region -/

/-- The entry of the history was encoded from its snapshot. -/
def SlotEncoding.Encodes (cipher : StorageCipher) (e : SlotEncoding) :
    Prop :=
  encodeSlot cipher e.snapshot e.generation e.key (UInt32.ofNat e.base) =
    .done e.encoded

section Writing

variable (cipher : StorageCipher) {m : Machine}

/-- On a quiet device a region is written as a whole, or nothing is written
and at most the attempt is logged. -/
theorem writeSlot_cases (hquiet : m.device.Quiet) (s : Snapshot) (generation : UInt64) (base : ℕ) :
    (∃ e : SlotEncoding, e.Encodes cipher ∧ (e.key = m.store.storageKey ∧ e.snapshot = s ∧
        e.generation = generation ∧ e.base = base) ∧
      sectorCount e.encoded ≤ slotSectors ∧
      (writeSlot cipher s generation base).run m = (.done e.encoded, m.stored e)) ∨
    ∃ (o : Outcome StoreError Bytes) (log : List SlotEncoding),
      (writeSlot cipher s generation base).run m = (o, { m with encodings := m.encodings ++ log }) ∧
      (∀ encoded, o ≠ .done encoded) ∧ ∀ e ∈ log, e.base = base := by
  rw [writeSlot]
  simp only [encodeFor, getStore, run_bind, Effect.get, run_pure]
  rcases hencode : encodeSlot cipher s generation m.store.storageKey
    (UInt32.ofNat base) with encoded | e | _
  · let e : SlotEncoding :=
      { key := m.store.storageKey, snapshot := s, generation, base,
        encoded }
    let logged : Machine := { m with encodings := m.encodings ++ [e] }
    change (∃ e, _ ∧ _ ∧ _ ∧ (writeAt base encoded >>= fun _ =>
      pure encoded).run logged = _) ∨ ∃ o log,
        (writeAt base encoded >>= fun _ => pure encoded).run logged = _ ∧ _
    by_cases hcount : sectorCount encoded = 0 ∨ slotSectors < sectorCount encoded
    · refine .inr ⟨.fail .invalidSnapshot, [e], ?_, by simp, by simp [e]⟩
      rw [writeAt, if_pos hcount]
      rfl
    have hpos : 0 < sectorCount encoded := by omega
    have hle : sectorCount encoded ≤ slotSectors := by omega
    have hdevice : logged.device = ⟨m.device.blocks, Device.powered none⟩ := by
      rw [← show m.device.script = Device.powered none from hquiet]
    obtain ⟨power, hnone, hwrite⟩ := writeAt_lasts hdevice base hpos hle
      (fun calls hcalls => by cases hcalls)
    cases hnone rfl
    refine .inl ⟨e, hencode, ⟨rfl, rfl, rfl, rfl⟩, hle, ?_⟩
    rw [run_bind, hwrite]
    rfl
  · exact .inr ⟨.fail e, [], by simp, by simp, by simp⟩
  · exact .inr ⟨.halt, [], by simp, by simp, by simp⟩

end Writing

/-! ## Calls -/

/-- The store runs on a quiet device. -/
structure Machine.Ready (config : StoreConfig) (m : Machine) : Prop where
  device : m.store.device = true
  storageKey : m.store.storageKey = config.storageKey
  cfc : m.store.cfc = config.cfc
  primaryDimension : m.store.primaryDimension = config.primaryDimension
  quiet : m.device.Quiet

/-- The store can write the snapshot and read it back. -/
structure StoreConfig.Stores (config : StoreConfig) (s : Snapshot) :
    Prop where
  admitted : config.Admits s
  covers : ∀ stored ∈ s.forms.occupants, stored.content.Covers

/-- The snapshot has been published, and the store still runs. -/
structure Machine.Published (config : StoreConfig) (s : Snapshot)
    (m m' : Machine) : Prop where
  ready : m'.Ready config
  store : m'.store = m.store.publishing s
  streams : m'.streamState = m.streamState

section Quiet

variable (cipher : StorageCipher) {config : StoreConfig} {m : Machine}
  (hcipher : config.Opens cipher)
  (hm : m.Ready config)

include hcipher hm

omit hcipher in
/-- A commit writes the other slot and publishes the snapshot, or it leaves
the store and the disk as they were. -/
theorem commitLocked_cases (s : Snapshot) :
    (∃ e : SlotEncoding, e.Encodes cipher ∧
      (e.key = config.storageKey ∧ e.snapshot = s ∧
        e.generation = nextGeneration m.store.generation ∧
        e.base = slotLba (m.store.activeSlot ^^^ 1)) ∧
      sectorCount e.encoded ≤ slotSectors ∧
      (commitLocked cipher s).run m =
        (.done (nextGeneration m.store.generation),
          { m.stored e with store := m.store.publishing s })) ∨
    ∃ (o : Outcome StoreError UInt64) (log : List SlotEncoding),
      (commitLocked cipher s).run m =
        (o, { m with encodings := m.encodings ++ log }) ∧
      (∀ generation, o ≠ .done generation) ∧
      ∀ e ∈ log, e.base = slotLba (m.store.activeSlot ^^^ 1) := by
  rw [commitLocked_run cipher s hm.device, run_bind]
  rcases writeSlot_cases cipher hm.quiet s (nextGeneration m.store.generation)
    (slotLba (m.store.activeSlot ^^^ 1)) with
    ⟨e, hencodes, ⟨hkey, hs, hgeneration, hbase⟩, hcount, hwrite⟩ | ⟨o, log, hwrite, hnot, hlog⟩
  · refine .inl ⟨e, hencodes, ⟨hkey.trans hm.storageKey, hs, hgeneration, hbase⟩, hcount, ?_⟩
    rw [hwrite, ← hbase]
    simp only [run_bind, verifyWrite_stored]
    rfl
  · rw [hwrite]
    rcases o with encoded | error | _
    · exact absurd rfl (hnot encoded)
    · exact .inr ⟨.fail error, log, rfl, by simp, hlog⟩
    · exact .inr ⟨.halt, log, rfl, by simp, hlog⟩

variable {s : Snapshot}

theorem commitLocked_ready (hs : config.Stores s) : ∃ m', (commitLocked cipher s).run m =
        (.done (nextGeneration m.store.generation), m') ∧
      Machine.Published config s m m' := by
  obtain ⟨r, hsnapshot, hgeneration⟩ :=
    StoredRecord.exists_of_covers (slotLba (m.store.activeSlot ^^^ 1))
      hcipher hs.admitted (nextGeneration_ne_zero m.store.generation)
      hs.covers
  have hrun := commitLocked_quiet hcipher hm.device hm.storageKey hm.quiet rfl r hgeneration
  rw [hsnapshot, hgeneration] at hrun
  exact ⟨_, hrun, ⟨hm.device, hm.storageKey, hm.cfc, hm.primaryDimension, rfl⟩, rfl, rfl⟩

variable {revision : UInt32}

theorem saveNamedForm_ready {name bytes : Bytes} {kind : FormKind}
    {text : Text} {fin : FormFin}
    (hlen : bytes.length ≤ formContentCapacity)
    (hname : Text.new name = .ok text)
    (hwith : m.store.base.withNamedForm text kind bytes =
      .done (s, fin, revision)) (hs : config.Stores s) :
    ∃ m', (saveNamedForm cipher config.cfc name kind bytes).run m = (.done (fin, revision), m') ∧
      Machine.Published config s m m' := by
  obtain ⟨m', hrun, hpublished⟩ := commitLocked_ready cipher hcipher hm hs
  refine ⟨m', ?_, hpublished⟩
  have hready : ¬ (m.store.device = false ∨ m.store.cfc ≠ config.cfc ∨
      m.store.primaryDimension.isZero = true) := by
    rw [hm.device, hm.cfc, hm.primaryDimension,
      ← hs.admitted.primaryDimension, hs.admitted.valid.primaryDimension]
    simp
  simp only [saveNamedForm, if_neg (Nat.not_lt.mpr hlen), hname,
    getStore, run_bind, Effect.get, run_pure, if_neg hready,
    run_lift, hwith, validated,
    validateSnapshot_eq_ok.mpr hs.admitted.valid, hrun]

theorem commitBlobStream_ready {cfc : CfcFin} {form : FormFin}
    {id : UInt32} {index : ℕ} {stream : BlobStream}
    {snapshot : Snapshot}
    (hindex : m.streams.findIndex (BlobStream.isNamed cfc form id) = some index)
    (hget : m.streams.get index = some stream)
    (hwritable : stream.writable = true)
    (hsnapshot : m.store.snapshot = some snapshot)
    (hwith : snapshot.withStream form stream.baseRevision stream.content =
      .done (s, revision)) (hs : config.Stores s) :
    ∃ m', (commitBlobStream cipher cfc form id).run m =
        (.done (revision, nextGeneration m.store.generation), m') ∧
      Machine.Published config s (m.closing index) m' := by
  have hclosed : (m.closing index).Ready config :=
    ⟨hm.device, hm.storageKey, hm.cfc, hm.primaryDimension, hm.quiet⟩
  obtain ⟨m', hrun, hpublished⟩ := commitLocked_ready cipher hcipher hclosed hs
  refine ⟨m', ?_, hpublished⟩
  simp only [Machine.closing] at hrun
  simp [-bind_pure_comp, commitBlobStream, findStream, setStream, getStore,
    validated, run_bind, Effect.get, Effect.modify, hindex, hget,
    hwritable, hsnapshot, hwith,
    validateSnapshot_eq_ok.mpr hs.admitted.valid, hrun]

theorem commitSystemRecords_ready (settings : ByteBlock settingsRecordCapacity)
    (accounts : Option (ByteBlock accountsRecordCapacity))
    (hs : config.Stores { m.store.base with settings := some settings, accounts }.journaled) :
    ∃ m', (commitSystemRecords cipher settings accounts).run m =
      (.done (nextGeneration m.store.generation), m') := by
  obtain ⟨m', hrun, -⟩ := commitLocked_ready cipher hcipher hm hs
  refine ⟨m', ?_⟩
  have hready : ¬ (m.store.cfc.isZero = true ∨ m.store.primaryDimension.isZero = true) := by
    rw [hm.cfc, hm.primaryDimension, ← hs.admitted.cfc, ← hs.admitted.primaryDimension,
      hs.admitted.valid.cfc, hs.admitted.valid.primaryDimension]
    simp
  simp only [commitSystemRecords, getStore, run_bind, Effect.get, run_pure, if_neg hready,
    validated, validateSnapshot_eq_ok.mpr hs.admitted.valid, hrun]

theorem recordCheckpoint_ready {slot : ℕ} (r : StoredRecord cipher config (checkpointLba slot))
    (hsnapshot : m.store.snapshot = some r.snapshot)
    (hslot : (m.store.checkpoints.freeIndex <|> oldestCheckpoint m.store.checkpoints) = some slot)
    (hgeneration : r.generation = nextStateId m.store.checkpoints) :
    let info : CheckpointInfo :=
      { stateId := r.generation
        journalSequence := r.snapshot.journalSequence
        slot := UInt8.ofNat slot
        legacy := false }
    (recordCheckpoint cipher).run m = (.done info,
        { m.stored r.encoding with
          store :=
            { m.store with
              checkpoints := m.store.checkpoints.put slot (some info) } }) := by
  simp only [recordCheckpoint, getStore, run_bind, Effect.get,
    run_pure, run_lift, hsnapshot, Outcome.ofOption_some,
    hm.device, Bool.true_eq_false, if_false, hslot, ← hgeneration,
    writeSlot_record hcipher hm.storageKey hm.quiet r, verifyWrite_record,
    modifyStore, Effect.modify, Machine.stored_store]

theorem establishBaseline_ready (r : StoredRecord cipher config baselineLba)
    (hbaseline : m.store.baseline = .missing)
    (hsnapshot : m.store.snapshot = some r.snapshot)
    (hgeneration : r.generation = max m.store.generation 1) :
    let info : BaselineInfo :=
      { generation := r.generation
        journalSequence := r.snapshot.journalSequence }
    (establishBaseline cipher).run m = (.done info,
        { m.stored r.encoding with
          store :=
            { m.store with
              baseline := .ready info
              baselineLba := ExpOS.baselineLba } }) := by
  simp only [establishBaseline, getStore, run_bind, Effect.get,
    run_pure, hbaseline, run_lift, hsnapshot,
    Outcome.ofOption_some, hm.device, Bool.true_eq_false, if_false,
    ← hgeneration, writeSlot_record hcipher hm.storageKey hm.quiet r,
    run_attempt, verifyWrite_record, modifyStore, Effect.modify,
    Machine.stored_store]

end Quiet

theorem openBlobStream_run {m : Machine} {snapshot : Snapshot}
    {stored : StoredForm} {form : FormFin} {index : ℕ}
    (hsnapshot : m.store.snapshot = some snapshot)
    (hstored : snapshot.form? form = some stored)
    (hfree : m.streams.freeIndex = some index) (writable : Bool) :
    (openBlobStream m.store.cfc form writable).run m =
      (.done (max m.nextStreamId 1, stored.contentLen),
        { m with
          streams := m.streams.put index (some
            { id := max m.nextStreamId 1
              cfc := m.store.cfc
              form, writable
              baseRevision := stored.form.revision
              content := stored.content })
          nextStreamId := m.nextStreamId + 1 }) := by
  simp [-bind_pure_comp, openBlobStream, currentSnapshot, getStore,
    setStream, run_bind, Effect.get, Effect.modify, hsnapshot,
    hstored, hfree]

/-! ## A CFC without a key -/

def plainConfig : StoreConfig :=
  { testConfig with storageKey := none }

/-- One Form at a revision, in a snapshot of its own. -/
def notesAt (revision : UInt32) (bytes : Bytes) (sequence : UInt32) :
    Snapshot :=
  { notesSnapshot with
    forms := notesSnapshot.forms.put 0 (some
      { form := { notesForm with revision }
        content := ChunkedBlob.fromBytes bytes })
    journalSequence := sequence }

theorem notesAt_occupants (revision : UInt32) (bytes : Bytes)
    (sequence : UInt32) :
    (notesAt revision bytes sequence).forms.occupants =
      [{ form := { notesForm with revision }
         content := .fromBytes bytes }] := rfl

theorem plainConfig_stores {revision : UInt32} {bytes : Bytes}
    {sequence : UInt32} (hrevision : revision ≠ 0)
    (hbytes : bytes.length ≤ formContentCapacity)
    (hsequence : sequence ≠ 0) :
    plainConfig.Stores (notesAt revision bytes sequence) where
  admitted :=
    { valid :=
        { cfc := testConfig_admits.valid.cfc
          cfcName := testConfig_admits.valid.cfcName
          primaryDimension := testConfig_admits.valid.primaryDimension
          journalSequence := hsequence
          nextFin := testConfig_admits.valid.nextFin
          nextDimensionFin := testConfig_admits.valid.nextDimensionFin
          forms := by
            intro stored hstored
            rw [notesAt_occupants, List.mem_singleton] at hstored
            subst hstored
            exact ⟨show notesForm.fin.isZero = false by decide,
              show notesForm.name.content ≠ [] by decide, hrevision,
              hbytes⟩
          content := by
            change bytes.length + 0 ≤ cfcContentCapacity
            simp only [formContentCapacity, defaultFormBlobQuota, cfcContentCapacity] at hbytes ⊢
            omega
          dimensions := testConfig_admits.valid.dimensions
          handles := testConfig_admits.valid.handles }
      cfc := rfl
      primaryDimension := rfl
      relationships := testConfig_admits.relationships }
  covers := by
    intro stored hstored
    rw [notesAt_occupants, List.mem_singleton] at hstored
    subst hstored
    exact ChunkedBlob.covers_replace _ _

theorem freshMachine_ready (config : StoreConfig) : (freshMachine config).Ready config :=
  ⟨rfl, rfl, rfl, rfl, rfl⟩

theorem plainConfig_opens (cipher : StorageCipher) : plainConfig.Opens cipher :=
  fun h => absurd rfl h

/-- The record of a first commit of the sample Form. -/
theorem exists_firstNotes (cipher : StorageCipher) :
    ∃ r : StoredRecord cipher plainConfig (slotLba 0),
      r.snapshot = notesAt 1 [65] 1 ∧ r.generation = 1 ∧
      sectorCount r.encoded ≤ legacySlotSectors ∧
      (commit cipher (notesAt 1 [65] 1)).run (freshMachine plainConfig) =
        (.done 1, firstCommitted r plainConfig) := by
  have hcipher := plainConfig_opens cipher
  have hstores : plainConfig.Stores (notesAt 1 [65] 1) :=
    plainConfig_stores (by decide) (by decide) (by decide)
  obtain ⟨r, hsnapshot, hgeneration⟩ :=
    StoredRecord.exists_of_covers (slotLba 0) hcipher hstores.admitted
      (show (1 : UInt64) ≠ 0 by decide) hstores.covers
  have hlen := (r.roundTrip hcipher 0).1
  rw [hsnapshot] at hlen
  have hrun := firstCommitted_run r plainConfig hcipher rfl hgeneration
  rw [hsnapshot] at hrun
  exact ⟨r, hsnapshot, hgeneration, sectorCount_le_legacy hlen (by decide +kernel),
    commit_run_same rfl hstores.admitted.valid rfl hrun⟩

end ExpOS
