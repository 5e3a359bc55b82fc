import Mathlib.Data.List.MinMax
import ExpOS.Store.Codec
import ExpOS.Support.Device

/-!
# The running store

The store keeps the selected snapshot in memory and two slots for it on disk.
A commit writes the other slot, its header sector last, and reads it back
before the memory changes.  Checkpoints and the baseline have regions of their
own.  At boot the newest slot that decodes is selected.

The machine also carries two records that no code reads: every slot that was
encoded, and every slot that was read and accepted.  They let statements speak
about whole runs.
-/

namespace ExpOS

/-! ## The disk layout -/

def checkpointCapacity : ℕ := 8
def maxBlobStreams : ℕ := 8
def legacySlotSectors : ℕ := 24
def slotALba : ℕ := 64
def slotBLba : ℕ := slotALba + slotSectors
def checkpointBaseLba : ℕ := slotBLba + slotSectors
def baselineLba : ℕ := checkpointBaseLba + checkpointCapacity * slotSectors
def minimumDiskSectors : ℕ := baselineLba + slotSectors
def legacySlotBLba : ℕ := slotALba + legacySlotSectors
def legacyCheckpointBaseLba : ℕ := legacySlotBLba + legacySlotSectors
def legacyBaselineLba : ℕ :=
  legacyCheckpointBaseLba + checkpointCapacity * legacySlotSectors

def slotLba (slot : UInt8) : ℕ := if slot = 0 then slotALba else slotBLba

def legacySlotLba (slot : UInt8) : ℕ :=
  if slot = 0 then slotALba else legacySlotBLba

def checkpointLba (slot : ℕ) : ℕ := checkpointBaseLba + slot * slotSectors

def legacyCheckpointLba (slot : ℕ) : ℕ :=
  legacyCheckpointBaseLba + slot * legacySlotSectors

abbrev Sector := ByteBlock sectorSize

/-! ## The machine -/

structure CheckpointInfo where
  stateId : UInt64
  journalSequence : UInt32
  slot : UInt8
  legacy : Bool
deriving DecidableEq

structure BaselineInfo where
  generation : UInt64
  journalSequence : UInt32
deriving DecidableEq

inductive BaselineState where
  | missing
  | ready (info : BaselineInfo)
  | damaged
deriving DecidableEq

structure RuntimeStore where
  device : Bool
  cfc : CfcFin
  cfcName : Text
  primaryDimension : FormFin
  snapshot : Option Snapshot
  generation : UInt64
  activeSlot : UInt8
  checkpoints : SlotTable CheckpointInfo checkpointCapacity
  baseline : BaselineState
  baselineLba : ℕ
  storageKey : Option (ByteBlock storageKeyLen)

def RuntimeStore.new : RuntimeStore where
  device := false
  cfc := CfcFin.zero
  cfcName := Text.empty
  primaryDimension := FormFin.zero
  snapshot := none
  generation := 0
  activeSlot := 1
  checkpoints := SlotTable.empty _ _
  baseline := .missing
  baselineLba := ExpOS.baselineLba
  storageKey := none

structure BlobStream where
  id : UInt32
  cfc : CfcFin
  form : FormFin
  writable : Bool
  baseRevision : UInt32
  content : ChunkedBlob

/-- A decoded slot with the octets it was decoded from and their address. -/
structure SlotRead extends DecodedSlot where
  encoded : Bytes
  base : ℕ

/-- A slot that was encoded for the region at `base`. -/
structure SlotEncoding where
  key : Option (ByteBlock storageKeyLen)
  snapshot : Snapshot
  generation : UInt64
  base : ℕ
  encoded : Bytes

structure Machine where
  device : Device Sector StorageError
  store : RuntimeStore
  streams : SlotTable BlobStream maxBlobStreams
  nextStreamId : UInt32
  /-- Every slot encoded so far. -/
  encodings : List SlotEncoding
  /-- Every slot read from the disk and accepted so far. -/
  accepted : List SlotRead

/-- A call on the machine. -/
abbrev StoreM (α : Type) := Effect Machine StoreError α

def getStore : StoreM RuntimeStore := do
  let m ← Effect.get
  pure m.store

def modifyStore (f : RuntimeStore → RuntimeStore) : StoreM Unit :=
  Effect.modify fun m => { m with store := f m.store }

/-- A call on the device, its errors mapped to `StoreError.disk`. -/
def onDevice {α : Type} (x : Effect (Device Sector StorageError) StorageError α) : StoreM α where
  run m :=
    match x.run m.device with
    | (.done a, d) => (.done a, { m with device := d })
    | (.fail e, d) => (.fail (.disk e), { m with device := d })
    | (.halt, d) => (.halt, { m with device := d })

def readSector (lba : ℕ) : StoreM Sector := onDevice (Device.read lba)

/-- Record that a slot was accepted. -/
def accept (slot : SlotRead) : StoreM Unit :=
  Effect.modify fun m => { m with accepted := m.accepted ++ [slot] }

/-! ## Reading slots -/

section Reading

variable (cipher : StorageCipher)
  (key : Option (ByteBlock storageKeyLen))

/-- Decode octets read from `base`. -/
def decodeRead (encoded : Bytes) (base : ℕ) (slot : UInt8) : StoreM SlotRead :=
  match decodeSlot cipher encoded slot key (UInt32.ofNat base) with
  | .done decoded => pure { decoded with encoded, base }
  | .fail _ => Effect.fail .verificationFailed
  | .halt => Effect.lift .halt

/-- The header sector cannot begin a slot. -/
def headerRejected (header : Bytes) : Prop :=
  header.take 8 ≠ magic ∨ wordAt header 10 2 ≠ headerLen ∨ slotLen - headerLen < wordAt header 12 4

instance (header : Bytes) : Decidable (headerRejected header) :=
  inferInstanceAs (Decidable (_ ∨ _))

def readAt (base : ℕ) (slot : UInt8) : StoreM SlotRead := do
  let header ← readSector base
  if headerRejected header.val then
    Effect.fail .verificationFailed
  else
    let encodedLen := headerLen + wordAt header.val 12 4
    let sectors := divCeil encodedLen sectorSize
    let rest ← onDevice (Device.readAll
      ((List.range' 1 (sectors - 1)).map (base + ·)))
    decodeRead cipher key ((Blocks.flat (header :: rest)).take encodedLen)
      base slot

def readLegacyAt (base : ℕ) (slot : UInt8) : StoreM SlotRead := do
  let sectors ← onDevice (Device.readAll
    ((List.range legacySlotSectors).map (base + ·)))
  decodeRead cipher key (Blocks.flat sectors) base slot

/-- Read a slot in the current layout or else in the old one.  The flag says
that the current layout was not readable. -/
def readOrLegacy (base legacyBase : ℕ) (slot : UInt8) : StoreM (Option SlotRead × Bool) := do
  let current ← (readAt cipher key base slot).attempt
  match current with
  | some read => pure (some read, false)
  | none => do
      let legacy ← (readLegacyAt cipher key legacyBase slot).attempt
      pure (legacy, true)

end Reading

def regionIsBlank (base : ℕ) : StoreM Bool := do
  let sector ← (readSector base).attempt
  pure (sector.any fun sector => sector.val.all (· == 0))

/-- The generation after `generation`; zero is skipped when it wraps. -/
def nextGeneration (generation : UInt64) : UInt64 := max (generation + 1) 1

def newest : Option SlotRead → Option SlotRead → Option SlotRead
  | some first, some second =>
    if second.generation ≠ first.generation ∧
        second.generation - first.generation < 0x8000000000000000 then
      some second
    else
      some first
  | some slot, none => some slot
  | none, some slot => some slot
  | none, none => none

/-! ## Boot -/

/-- What a store is opened for. -/
structure StoreConfig where
  cfc : CfcFin
  cfcName : Text
  primaryDimension : FormFin
  storageKey : Option (ByteBlock storageKeyLen)

/-- The slot belongs to the CFC and Dimension being booted. -/
def StoreConfig.owns (config : StoreConfig) (slot : SlotRead) : Bool :=
  slot.snapshot.cfc == config.cfc &&
    slot.snapshot.primaryDimension == config.primaryDimension

/-- The store opened for `config`, with no checkpoint loaded yet. -/
def RuntimeStore.opened (config : StoreConfig) (store : RuntimeStore) :
    RuntimeStore :=
  { store with
    device := true
    cfc := config.cfc
    cfcName := config.cfcName
    primaryDimension := config.primaryDimension
    storageKey := config.storageKey
    checkpoints := SlotTable.empty _ _ }

section Boot

variable (cipher : StorageCipher) (config : StoreConfig)

def loadCheckpoint (index : ℕ) : StoreM Unit := do
  let (checkpoint, legacy) ← readOrLegacy cipher config.storageKey
    (checkpointLba index) (legacyCheckpointLba index) (UInt8.ofNat index)
  match checkpoint.filter config.owns with
  | none => pure ()
  | some checkpoint => do
      accept checkpoint
      modifyStore fun store =>
        { store with
          checkpoints := store.checkpoints.put index (some
            { stateId := checkpoint.generation
              journalSequence := checkpoint.snapshot.journalSequence
              slot := UInt8.ofNat index
              legacy }) }

def loadBaseline : StoreM Unit := do
  let (baseline, legacy) ← readOrLegacy cipher config.storageKey
    baselineLba legacyBaselineLba 255
  modifyStore fun store =>
    { store with
      baselineLba := if legacy then legacyBaselineLba else baselineLba }
  match baseline.filter config.owns with
  | some baseline => do
      accept baseline
      modifyStore fun store =>
        { store with
          baseline := .ready
            { generation := baseline.generation
              journalSequence := baseline.snapshot.journalSequence } }
  | none => do
      let blank ← regionIsBlank baselineLba
      modifyStore fun store =>
        { store with baseline := if blank then .missing else .damaged }

/-- The source's `initialize`.  `probe` is what the disk driver found: an
error or a number of sectors. -/
def initializeStore (probe : Except StorageError ℕ) : StoreM Unit :=
  match probe with
  | .error _ => pure ()
  | .ok sectors =>
    if sectors < minimumDiskSectors then pure ()
    else do
      let (first, _) ← readOrLegacy cipher config.storageKey
        (slotLba 0) (legacySlotLba 0) 0
      let (second, _) ← readOrLegacy cipher config.storageKey
        (slotLba 1) (legacySlotLba 1) 1
      let selected := newest (first.filter config.owns)
        (second.filter config.owns)
      modifyStore (RuntimeStore.opened config)
      (List.range checkpointCapacity).forM
        (loadCheckpoint cipher config)
      loadBaseline cipher config
      match selected with
      | none => pure ()
      | some slot => do
          accept slot
          modifyStore fun store =>
            { store with
              snapshot := some slot.snapshot
              generation := slot.generation
              activeSlot := slot.slot }

end Boot

/-! ## Writing slots -/

/-- The sector at `index` of the zero-filled slot buffer. -/
def sectorAt (encoded : Bytes) (index : ℕ) : Sector :=
  Blocks.padded 0 encoded index

def sectorCount (encoded : Bytes) : ℕ := divCeil encoded.length sectorSize

/-- The writes of a slot.  Sector zero holds the header and comes last. -/
def slotWrites (base : ℕ) (encoded : Bytes) : List (ℕ × Sector) :=
  (List.range (sectorCount encoded)).map fun writeIndex =>
    let sectorIndex := (writeIndex + 1) % sectorCount encoded
    (base + sectorIndex, sectorAt encoded sectorIndex)

def writeAt (base : ℕ) (encoded : Bytes) : StoreM Unit :=
  if sectorCount encoded = 0 ∨ slotSectors < sectorCount encoded then
    Effect.fail .invalidSnapshot
  else
    onDevice (Device.writeAll (slotWrites base encoded))

def verifySector (base : ℕ) (expected : Bytes) (sectorIndex : ℕ) : StoreM Unit := do
  let sector ← readSector (base + sectorIndex)
  let start := sectorIndex * sectorSize
  let compared := min (expected.length - start) sectorSize
  if sector.val.take compared ≠ (expected.drop start).take compared then
    Effect.fail .verificationFailed
  else
    pure ()

def verifyWrite (base : ℕ) (expected : Bytes) : StoreM Unit :=
  (List.range (sectorCount expected)).forM (verifySector base expected)

section Writing

variable (cipher : StorageCipher)

/-- Encode a snapshot for a region under the key of the store. -/
def encodeFor (snapshot : Snapshot) (generation : UInt64) (base : ℕ) : StoreM Bytes := do
  let store ← getStore
  let encoded ← Effect.lift (encodeSlot cipher snapshot generation
    store.storageKey (UInt32.ofNat base))
  Effect.modify fun m =>
    { m with
      encodings := m.encodings ++
        [{ key := store.storageKey, snapshot, generation, base,
           encoded }] }
  pure encoded

/-- Encode a snapshot and write it into a region. -/
def writeSlot (snapshot : Snapshot) (generation : UInt64) (base : ℕ) : StoreM Bytes := do
  let encoded ← encodeFor cipher snapshot generation base
  writeAt base encoded
  pure encoded

def commitLocked (snapshot : Snapshot) : StoreM UInt64 := do
  let store ← getStore
  if store.device = false then Effect.fail .unavailable
  else
    let generation := nextGeneration store.generation
    let targetSlot := store.activeSlot ^^^ 1
    let base := slotLba targetSlot
    let encoded ← writeSlot cipher snapshot generation base
    verifyWrite base encoded
    modifyStore fun store =>
      { store with
        snapshot := some snapshot
        generation
        activeSlot := targetSlot }
    pure generation

/-- What `commit` makes of a snapshot: the system records are those of the
current one and the journal sequence moves on. -/
def Snapshot.published (snapshot : Snapshot) (current : Option Snapshot) :
    Snapshot :=
  match current with
  | none => { snapshot with formGraphPresent := true }
  | some current =>
    { snapshot with
      formGraphPresent := true
      settings := current.settings
      accounts := current.accounts
      journalSequence :=
        if snapshot.journalSequence ≤ current.journalSequence then
          max (current.journalSequence + 1) 1
        else
          snapshot.journalSequence }

def commit (snapshot : Snapshot) : StoreM UInt32 := do
  let store ← getStore
  let snapshot := snapshot.published store.snapshot
  match validateSnapshot snapshot with
  | .error error => Effect.fail error
  | .ok () =>
    if snapshot.cfc ≠ store.cfc then Effect.fail .wrongCfc
    else do
      let _ ← commitLocked cipher snapshot
      pure snapshot.journalSequence

/-! ## Checkpoints and the baseline -/

/-- The state id of the next checkpoint. -/
def nextStateId (checkpoints : SlotTable CheckpointInfo checkpointCapacity) : UInt64 :=
  nextGeneration
    ((checkpoints.occupants.map CheckpointInfo.stateId).max?.getD 0)

/-- The cell of the oldest checkpoint. -/
def oldestCheckpoint (checkpoints : SlotTable CheckpointInfo checkpointCapacity) : Option ℕ :=
  ((checkpoints.slots.zipIdx.filterMap fun (entry, index) =>
    entry.map fun entry => (index, entry.stateId)).argmin
      fun entry => entry.2.toNat).map Prod.fst

def recordCheckpoint : StoreM CheckpointInfo := do
  let store ← getStore
  let snapshot ← Effect.lift (.ofOption .noCurrentState store.snapshot)
  if store.device = false then Effect.fail .unavailable
  else
    let stateId := nextStateId store.checkpoints
    let slot ← Effect.lift (.ofOption .verificationFailed
      (store.checkpoints.freeIndex <|> oldestCheckpoint store.checkpoints))
    let encoded ← writeSlot cipher snapshot stateId (checkpointLba slot)
    verifyWrite (checkpointLba slot) encoded
    let checkpoint : CheckpointInfo :=
      { stateId, journalSequence := snapshot.journalSequence
        slot := UInt8.ofNat slot, legacy := false }
    modifyStore fun store =>
      { store with
        checkpoints := store.checkpoints.put slot (some checkpoint) }
    pure checkpoint

/-- The snapshot with a journal sequence after the current one. -/
def Snapshot.after (snapshot : Snapshot) (current : Option Snapshot) :
    Snapshot :=
  match current with
  | none => snapshot
  | some current =>
    { snapshot with
      journalSequence := max (current.journalSequence + 1) 1 }

def restoreCheckpoint (stateId : UInt64) : StoreM UInt64 := do
  let store ← getStore
  let checkpoint ← Effect.lift (.ofOption .checkpointNotFound
    (store.checkpoints.occupants.find? (·.stateId == stateId)))
  if store.device = false then Effect.fail .unavailable
  else
    let read ←
      if checkpoint.legacy then
        readLegacyAt cipher store.storageKey
          (legacyCheckpointLba checkpoint.slot.toNat) checkpoint.slot
      else
        readAt cipher store.storageKey
          (checkpointLba checkpoint.slot.toNat) checkpoint.slot
    accept read
    commitLocked cipher (read.snapshot.after store.snapshot)

def establishBaseline : StoreM BaselineInfo := do
  let store ← getStore
  match store.baseline with
  | .ready info => pure info
  | .damaged => Effect.fail .baselineDamaged
  | .missing => do
      let snapshot ← Effect.lift (.ofOption .noCurrentState store.snapshot)
      if store.device = false then Effect.fail .unavailable
      else
        let generation := max store.generation 1
        let encoded ← writeSlot cipher snapshot generation baselineLba
        let verified ← (verifyWrite baselineLba encoded).attempt
        match verified with
        | none => do
            modifyStore fun store => { store with baseline := .damaged }
            Effect.fail .verificationFailed
        | some _ => do
            let info : BaselineInfo :=
              { generation, journalSequence := snapshot.journalSequence }
            modifyStore fun store =>
              { store with
                baseline := .ready info
                baselineLba := ExpOS.baselineLba }
            pure info

def restoreBaseline : StoreM UInt64 := do
  let store ← getStore
  match store.baseline with
  | .missing => Effect.fail .baselineNotFound
  | .damaged => Effect.fail .baselineDamaged
  | .ready _ =>
    if store.device = false then Effect.fail .unavailable
    else do
      let read ←
        if store.baselineLba = legacyBaselineLba then
          readLegacyAt cipher store.storageKey store.baselineLba 255
        else
          readAt cipher store.storageKey store.baselineLba 255
      accept read
      commitLocked cipher (read.snapshot.after store.snapshot)

end Writing

end ExpOS
