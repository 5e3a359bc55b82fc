import ExpOS.Store.Boot
import ExpOS.Store.Commit

/-!
# Commits survive a loss of power

A run of the machine is a sequence of boots, commits, checkpoints and baseline
creations, each of which may lose power after any number of calls on the disk.
Whatever happens, the active slot holds the last completed commit in full, and
the other slot is blank or carries the header of the generation before it.  So
a boot selects exactly that commit, unless the interrupted one had written its
header sector, which is its last write.
-/

namespace ExpOS

open List Outcome Option BootReads

open Effect

/-! ## Generations -/

variable (g : UInt64)

theorem toNat_nextGeneration : (nextGeneration g).toNat =
      if g.toNat = 2 ^ 64 - 1 then 1 else g.toNat + 1 := by
  have hlt := g.toNat_lt
  rw [nextGeneration, UInt64.max_def]
  split
  · next h =>
      rw [UInt64.le_iff_toNat_le] at h
      simp at h ⊢
      omega
  rename_i h
  rw [UInt64.le_iff_toNat_le] at h
  simp at h ⊢
  split <;> omega

theorem max_one_ne_zero : max g 1 ≠ 0 := by
  rw [UInt64.max_def]
  split
  · decide
  rename_i h
  rintro rfl
  exact h (by decide)

theorem nextGeneration_ne_zero : nextGeneration g ≠ 0 :=
  max_one_ne_zero _

/-- The comparison of `newest` orders a generation before the next one, also
where the counter wraps. -/
theorem nextGeneration_newer : nextGeneration g ≠ g ∧ nextGeneration g - g < 0x8000000000000000 ∧
      ¬ g - nextGeneration g < 0x8000000000000000 := by
  have h := toNat_nextGeneration g
  have hlt := g.toNat_lt
  generalize nextGeneration g = k at h
  refine ⟨?_, ?_, ?_⟩
  · rintro rfl
    split at h <;> omega
  · rw [UInt64.lt_iff_toNat_lt, UInt64.toNat_sub]
    simp
    split at h <;> omega
  · rw [UInt64.lt_iff_toNat_lt, UInt64.toNat_sub]
    simp
    split at h <;> omega

variable {first second : SlotRead}

theorem newest_eq_second (h : second.generation = nextGeneration first.generation) :
    newest (some first) (some second) = some second := by
  obtain ⟨hne, hlt, -⟩ := nextGeneration_newer first.generation
  rw [newest, h, if_pos ⟨hne, hlt⟩]

theorem newest_eq_first (h : first.generation = nextGeneration second.generation) :
    newest (some first) (some second) = some first := by
  obtain ⟨-, -, hlt⟩ := nextGeneration_newer second.generation
  rw [newest, h, if_neg (fun hnew => hlt hnew.2)]

/-! ## Runs with losses of power -/

/-- The machine switched on again: the disk is all that is left. -/
def Machine.restarted (m : Machine) : Machine :=
  { m with
    device := ⟨m.device.blocks, []⟩
    store := RuntimeStore.new
    streams := SlotTable.empty _ _
    nextStreamId := 1 }

/-- The machine on a disk without faults whose power lasts for the given
number of calls. -/
def Machine.withPower (m : Machine) (power : Option ℕ) : Machine :=
  { m with device := ⟨m.device.blocks, Device.powered power⟩ }

section Runs

variable (cipher : StorageCipher) (config : StoreConfig)

/-- Torn regions are rejected: what a region holds for the header of a record
written to it opens only if it is that record. -/
def NoCollision (m : Machine) : Prop :=
  ∀ base, ∀ r : StoredRecord cipher config base,
    r.encoding ∈ m.encodings → r.Headed m.device.blocks → r.Checks m.device.blocks

/-- Nothing decodes at the addresses of the old layout.  Slot A is not among
them: both layouts start it at the same sector. -/
structure LegacyAbsent (m : Machine) : Prop where
  slotB : LegacyUnreadable cipher config.storageKey m.device.blocks
    (legacySlotLba 1)
  checkpoint : ∀ index < checkpointCapacity,
    LegacyUnreadable cipher config.storageKey m.device.blocks
      (legacyCheckpointLba index)
  baseline : LegacyUnreadable cipher config.storageKey m.device.blocks
    legacyBaselineLba

variable {cipher config} in
theorem LegacyAbsent.elsewhere {m : Machine} {base legacyBase : ℕ} {slot : UInt8}
    (h : LegacyAbsent cipher config m) (hprobe : BootProbe base legacyBase slot) :
    legacyBase = base ∨ LegacyUnreadable cipher config.storageKey m.device.blocks legacyBase := by
  cases hprobe with
  | slotA => exact .inl rfl
  | slotB => exact .inr h.slotB
  | checkpoint hindex => exact .inr (h.checkpoint _ hindex)
  | baseline => exact .inr h.baseline

/-- A commit of `s` gets to write the header sector, its last write. -/
def HeaderWritten (m : Machine) (s : Snapshot) (power : Option ℕ) : Prop :=
  ∃ encoded, encodeSlot cipher s (nextGeneration m.store.generation)
      m.store.storageKey
      (UInt32.ofNat (slotLba (m.store.activeSlot ^^^ 1))) = .done encoded ∧
      Device.Lasts power (sectorCount encoded)

/-- Runs from a blank disk.  `durable` is the snapshot and generation of the
last commit that completed, or was interrupted after its header sector was
written; `up` says that the machine is running. -/
inductive CrashRun (sectors : ℕ) :
    Machine → Option (Snapshot × UInt64) → Bool → Prop
  | blank {m : Machine}
      (hblank : ∀ lba, m.device.blocks lba = ByteBlock.zeros sectorSize) :
      CrashRun sectors m none false
  | boot {m : Machine} {durable : Option (Snapshot × UInt64)} {up : Bool}
      (h : CrashRun sectors m durable up)
      (hcollision : NoCollision cipher config m)
      (hlegacy : LegacyAbsent cipher config m) :
      CrashRun sectors
        ((initializeStore cipher config (.ok sectors)).run m.restarted).2
        durable true
  | committed {m m' : Machine} {durable : Option (Snapshot × UInt64)}
      {s : Snapshot} {power : Option ℕ} {generation : UInt64}
      (h : CrashRun sectors m durable true) (hs : config.Admits s)
      (hrun : (commitLocked cipher s).run (m.withPower power) = (.done generation, m')) :
      CrashRun sectors m' (some (s, generation)) true
  | interruptedAfter {m m' : Machine}
      {durable : Option (Snapshot × UInt64)} {s : Snapshot}
      {power : Option ℕ}
      (h : CrashRun sectors m durable true) (hs : config.Admits s)
      (hrun : (commitLocked cipher s).run (m.withPower power) = (.halt, m'))
      (hheader : HeaderWritten cipher m s power) :
      CrashRun sectors m' (some (s, nextGeneration m.store.generation))
        false
  | interruptedBefore {m m' : Machine}
      {durable : Option (Snapshot × UInt64)} {s : Snapshot}
      {power : Option ℕ}
      (h : CrashRun sectors m durable true) (hs : config.Admits s)
      (hrun : (commitLocked cipher s).run (m.withPower power) = (.halt, m'))
      (hheader : ¬ HeaderWritten cipher m s power) :
      CrashRun sectors m' durable false
  | refused {m m' : Machine} {durable : Option (Snapshot × UInt64)}
      {s : Snapshot} {power : Option ℕ} {error : StoreError}
      (h : CrashRun sectors m durable true) (hs : config.Admits s)
      (hrun : (commitLocked cipher s).run (m.withPower power) = (.fail error, m')) :
      CrashRun sectors m' durable true
  | checkpoint {m m' : Machine} {durable : Option (Snapshot × UInt64)}
      {power : Option ℕ} {o : Outcome StoreError CheckpointInfo}
      (h : CrashRun sectors m durable true)
      (hrun : (recordCheckpoint cipher).run (m.withPower power) = (o, m')) :
      CrashRun sectors m' durable (decide (o ≠ .halt))
  | baseline {m m' : Machine} {durable : Option (Snapshot × UInt64)}
      {power : Option ℕ} {o : Outcome StoreError BaselineInfo}
      (h : CrashRun sectors m durable true)
      (hrun : (establishBaseline cipher).run (m.withPower power) = (o, m')) :
      CrashRun sectors m' durable (decide (o ≠ .halt))

/-! ## The invariant -/

/-- The region is blank or carries the header of a record written to it whose
generation satisfies `P`. -/
def RegionHolds (m : Machine) (base : ℕ) (P : UInt64 → Prop) : Prop :=
  m.device.blocks base = ByteBlock.zeros sectorSize ∨
    ∃ r : StoredRecord cipher config base, r.encoding ∈ m.encodings ∧
      r.Headed m.device.blocks ∧ P r.generation

/-- The two slots: the active one holds the durable commit in full. -/
def SlotsHold (m : Machine) (active : UInt8) : Option (Snapshot × UInt64) → Prop
  | none => active = 1 ∧
      m.device.blocks (slotLba 0) = ByteBlock.zeros sectorSize ∧
      m.device.blocks (slotLba 1) = ByteBlock.zeros sectorSize
  | some (s, generation) => (active = 0 ∨ active = 1) ∧
      (∃ r : StoredRecord cipher config (slotLba active),
        r.encoding ∈ m.encodings ∧ r.Whole m.device.blocks ∧
          r.snapshot = s ∧ r.generation = generation) ∧
      RegionHolds cipher config m (slotLba (active ^^^ 1))
        (fun older => generation = nextGeneration older)

/-- The store in memory agrees with the durable commit. -/
structure StoreHolds (store : RuntimeStore) (active : UInt8)
    (durable : Option (Snapshot × UInt64)) : Prop where
  device : store.device = true
  cfc : store.cfc = config.cfc
  storageKey : store.storageKey = config.storageKey
  snapshot : store.snapshot = durable.map Prod.fst
  generation : store.generation = (durable.map Prod.snd).getD 0
  activeSlot : store.activeSlot = active

/-- The regions of the checkpoints and the baseline. -/
def SideRegion (base : ℕ) : Prop :=
  base = baselineLba ∨ ∃ index < checkpointCapacity, base = checkpointLba index

/-- What holds throughout a run. -/
structure CrashInvariant (m : Machine)
    (durable : Option (Snapshot × UInt64)) (up : Bool) (active : UInt8) :
    Prop where
  slots : SlotsHold cipher config m active durable
  side : ∀ base, SideRegion base → RegionHolds cipher config m base fun _ => True
  store : up = true → StoreHolds config m.store active durable

end Runs

section Preservation

variable {cipher : StorageCipher} {config : StoreConfig}
  {m m' : Machine} {durable : Option (Snapshot × UInt64)}
  {active : UInt8} {base : ℕ}

variable {P : UInt64 → Prop}

theorem RegionHolds.mono (h : RegionHolds cipher config m base P)
    (hheader : m'.device.blocks base = m.device.blocks base)
    (hencodings : m.encodings ⊆ m'.encodings) : RegionHolds cipher config m' base P := by
  rcases h with hzeros | ⟨r, hmem, hheaded, hP⟩
  · exact .inl (hheader.trans hzeros)
  · exact .inr ⟨r, hencodings hmem, hheader.trans hheaded, hP⟩

/-- The slots hold as long as the active one keeps its sectors and the other
one its header sector. -/
theorem SlotsHold.mono (hcipher : config.Opens cipher)
    (h : SlotsHold cipher config m active durable) (hblocks : ∀ index < slotSectors,
      m'.device.blocks (slotLba active + index) = m.device.blocks (slotLba active + index))
    (hheader : m'.device.blocks (slotLba (active ^^^ 1)) = m.device.blocks (slotLba (active ^^^ 1)))
    (hencodings : m.encodings ⊆ m'.encodings) : SlotsHold cipher config m' active durable := by
  rcases durable with _ | ⟨s, generation⟩
  · obtain ⟨rfl, hzero, hone⟩ := h
    exact ⟨rfl, hheader.trans hzero, (hblocks 0 (by decide)).trans hone⟩
  obtain ⟨hactive, ⟨r, hmem, hwhole, hrecord⟩, hother⟩ := h
  refine ⟨hactive, ⟨r, hencodings hmem, ?_, hrecord⟩, hother.mono hheader hencodings⟩
  intro index hindex
  have hcount := r.sectorCount_le hcipher
  rw [hblocks index (by omega)]
  exact hwhole index hindex

theorem SlotsHold.active_eq (h : SlotsHold cipher config m active durable) :
    active = 0 ∨ active = 1 := by
  rcases durable with _ | ⟨s, generation⟩
  · exact .inr h.1
  · exact h.1

namespace WriteEnds

variable {base : ℕ} {s : Snapshot} {generation : UInt64}
  {power : Option ℕ} {o : Outcome StoreError Bytes}

theorem store_eq (h : WriteEnds cipher config base s generation power m o m') :
    m'.store = m.store := by
  cases h <;> rfl

theorem encodings_subset (h : WriteEnds cipher config base s generation power m o m') :
    m.encodings ⊆ m'.encodings := by
  cases h with
  | whole r power' => exact subset_append_left _ _
  | torn r calls => exact subset_append_left _ _
  | refused o => exact .refl _

theorem blocks_outside (hcipher : config.Opens cipher)
    (h : WriteEnds cipher config base s generation power m o m') {lba : ℕ}
    (hlba : ¬ (base ≤ lba ∧ lba < base + slotSectors)) :
    m'.device.blocks lba = m.device.blocks lba := by
  cases h with
  | whole r power' =>
    have hcount := r.sectorCount_le hcipher
    exact partlyWritten_outside _ (by omega)
  | torn r calls =>
    have hcount := r.sectorCount_le hcipher
    exact partlyWritten_outside _ (by omega)
  | refused o => rfl

/-- The region written to still carries the header of a record. -/
theorem regionHolds (hcipher : config.Opens cipher)
    (h : WriteEnds cipher config base s generation power m o m')
    (hregion : RegionHolds cipher config m base fun _ => True) :
    RegionHolds cipher config m' base fun _ => True := by
  have hencodings := h.encodings_subset
  cases h with
  | whole r power' =>
    refine .inr ⟨r, mem_append_right _ (mem_singleton.mpr rfl), ?_, trivial⟩
    exact partlyWritten_all _ (Nat.le_refl _) (r.sectorCount_pos hcipher)
  | torn r calls _ _ _ hcalls =>
    exact hregion.mono (partlyWritten_header _ hcalls) hencodings
  | refused o => exact hregion

end WriteEnds

/-! ## Commits -/

variable {slot : UInt8}

/-- The two slots do not overlap. -/
theorem slots_apart (h : slot = 0 ∨ slot = 1) {index : ℕ}
    (hindex : index < slotSectors) : ¬ (slotLba (slot ^^^ 1) ≤ slotLba slot + index ∧
      slotLba slot + index < slotLba (slot ^^^ 1) + slotSectors) := by
  have hsize : slotSectors = 128 := rfl
  rcases h with rfl | rfl
  · have hzero : slotLba 0 = 64 := rfl
    have hone : slotLba (0 ^^^ 1) = 192 := rfl
    omega
  · have hone : slotLba 1 = 192 := rfl
    have hzero : slotLba (1 ^^^ 1) = 64 := rfl
    omega

theorem slot_flip (h : slot = 0 ∨ slot = 1) :
    (slot ^^^ 1 = 0 ∨ slot ^^^ 1 = 1) ∧ slot ^^^ 1 ^^^ 1 = slot := by
  rcases h with rfl | rfl <;> decide

/-- A slot written in full takes the place of the active one. -/
theorem SlotsHold.advance (hcipher : config.Opens cipher)
    (h : SlotsHold cipher config m active durable)
    (r : StoredRecord cipher config (slotLba (active ^^^ 1))) (hgeneration :
      r.generation = nextGeneration ((durable.map Prod.snd).getD 0))
    (hwhole : r.Whole m'.device.blocks) (hmem : r.encoding ∈ m'.encodings)
    (houtside : ∀ lba, ¬ (slotLba (active ^^^ 1) ≤ lba ∧
        lba < slotLba (active ^^^ 1) + slotSectors) → m'.device.blocks lba = m.device.blocks lba)
    (hencodings : m.encodings ⊆ m'.encodings) : SlotsHold cipher config m' (active ^^^ 1)
      (some (r.snapshot, r.generation)) := by
  obtain ⟨htarget, hback⟩ := slot_flip h.active_eq
  have hold := houtside _ (slots_apart h.active_eq (show 0 < slotSectors by decide))
  refine ⟨htarget, ⟨r, hmem, hwhole, rfl, rfl⟩, ?_⟩
  rw [hback]
  rcases durable with _ | ⟨s, generation⟩
  · obtain ⟨rfl, -, hone⟩ := h
    exact .inl (hold.trans hone)
  · obtain ⟨-, ⟨old, hlogged, hfull, -, rfl⟩, -⟩ := h
    exact .inr ⟨old, hencodings hlogged, hold.trans (hfull.headed hcipher), hgeneration⟩

theorem sideRegion_bounds (h : SideRegion base) : checkpointBaseLba ≤ base := by
  rcases h with rfl | ⟨index, -, rfl⟩
  · decide
  · exact Nat.le_add_right _ _

variable {s : Snapshot} {power : Option ℕ} {generation : UInt64} {o : Outcome StoreError Bytes}

/-- Writing to a slot leaves the checkpoint and baseline regions alone. -/
theorem side_of_writeEnds (hcipher : config.Opens cipher)
    (h : WriteEnds cipher config base s generation power m o m')
    (hbase : base + slotSectors ≤ checkpointBaseLba) (hside : ∀ base, SideRegion base →
      RegionHolds cipher config m base fun _ => True) : ∀ base, SideRegion base →
      RegionHolds cipher config m' base fun _ => True := by
  intro other hother
  have hbound := sideRegion_bounds hother
  exact (hside other hother).mono (h.blocks_outside hcipher (by omega)) h.encodings_subset

/-- A commit that gets to its header sector makes its snapshot durable; any
other one leaves the durable commit as it was. -/
theorem CrashInvariant.commit
    {o : Outcome StoreError UInt64} (hcipher : config.Opens cipher)
    (h : CrashInvariant cipher config m durable true active)
    (hscript : m.device.script = Device.powered power) (hs : config.Admits s)
    (hrun : (commitLocked cipher s).run m = (o, m')) : (HeaderWritten cipher m s power ∧
      (o = .done (nextGeneration m.store.generation) ∨ power ≠ none ∧ o = .halt) ∧
      CrashInvariant cipher config m' (some (s, nextGeneration m.store.generation))
        (decide (o ≠ .halt)) (active ^^^ 1)) ∨ (¬ HeaderWritten cipher m s power ∧ (∀ generation,
        o ≠ .done generation) ∧ CrashInvariant cipher config m' durable (decide (o ≠ .halt))
        active) := by
  have hstore := h.store rfl
  have hbounds := slotLba_bounds (active ^^^ 1)
  rw [commitLocked_run cipher s hstore.device, hstore.activeSlot, run_bind] at hrun
  have hends : WriteEnds cipher config (slotLba (active ^^^ 1)) s
      (nextGeneration m.store.generation) power m _ _ :=
    writeSlot_powered hcipher hs (nextGeneration_ne_zero _) hstore.storageKey hscript
  generalize (writeSlot cipher s (nextGeneration m.store.generation)
    (slotLba (active ^^^ 1))).run m = w at hends hrun
  obtain ⟨ow, mw⟩ := w
  have hside := side_of_writeEnds hcipher hends hbounds.2 h.side
  have houtside : ∀ lba, ¬ (slotLba (active ^^^ 1) ≤ lba ∧
      lba < slotLba (active ^^^ 1) + slotSectors) → mw.device.blocks lba = m.device.blocks lba :=
    fun _ hlba => hends.blocks_outside hcipher hlba
  have hencodings := hends.encodings_subset
  cases hends with
  | whole r power' hsnapshot hgeneration hlasts hnone =>
    have hwhole : r.Whole (partlyWritten (slotLba (active ^^^ 1))
        r.encoded (sectorCount r.encoded) m.device.blocks) :=
      fun index hindex => partlyWritten_all _ (Nat.le_refl _) hindex
    have hheader : HeaderWritten cipher m s power := by
      refine ⟨r.encoded, ?_, hlasts⟩
      rw [hstore.storageKey, hstore.activeSlot, ← hsnapshot, ← hgeneration]
      exact r.encodes
    have hslots := h.slots.advance hcipher r
      (hgeneration.trans (congrArg _ hstore.generation)) hwhole
      (mem_append_right _ (mem_singleton.mpr rfl))
      houtside hencodings
    rw [hsnapshot, hgeneration] at hslots
    refine .inl ⟨hheader, ?_⟩
    obtain ⟨power'', -, hverify | ⟨hpower, hverify⟩⟩ := verifyWrite_powered (m := { m with
        device := ⟨partlyWritten (slotLba (active ^^^ 1)) r.encoded
          (sectorCount r.encoded) m.device.blocks,
          Device.powered power'⟩
        encodings := m.encodings ++ [r.encoding] }) rfl hwhole
    · simp only [run_bind, hverify] at hrun
      cases hrun
      refine ⟨.inl rfl, hslots, hside, fun _ => ?_⟩
      exact ⟨hstore.device, hstore.cfc, hstore.storageKey, rfl, rfl, rfl⟩
    · simp only [run_bind, hverify] at hrun
      cases hrun
      refine ⟨.inr ⟨fun hcontra => hpower (hnone hcontra), rfl⟩,
        hslots, hside, fun hup => by simp at hup⟩
  | torn r calls hsnapshot hgeneration hpower hcalls =>
    cases hrun
    refine .inr ⟨?_, by simp, ?_, hside, fun hup => by simp at hup⟩
    · rintro ⟨encoded, hencode, hlasts⟩
      rw [hstore.storageKey, hstore.activeSlot, ← hsnapshot, ← hgeneration, r.encodes] at hencode
      cases hencode
      exact absurd (hlasts calls hpower) (Nat.not_le.mpr hcalls)
    · exact h.slots.mono hcipher (fun index hindex =>
          houtside _ (slots_apart h.slots.active_eq hindex))
        (partlyWritten_header _ hcalls) hencodings
  | refused _ hencode hne =>
    refine .inr ⟨?_, ?_⟩
    · rintro ⟨encoded, hdone, -⟩
      rw [hstore.storageKey, hstore.activeSlot] at hdone
      exact hencode encoded hdone
    rcases ow with encoded | error | _
    · exact absurd rfl (hne encoded)
    · cases hrun
      exact ⟨by simp, h.slots, h.side, fun _ => hstore⟩
    · cases hrun
      exact ⟨by simp, h.slots, h.side, fun hup => by simp at hup⟩

/-! ## Checkpoints and the baseline -/

/-- The baseline region follows the checkpoint regions. -/
theorem SideRegion.exists_index (h : SideRegion base) : ∃ index, base = checkpointLba index := by
  rcases h with rfl | ⟨index, -, rfl⟩
  · exact ⟨checkpointCapacity, rfl⟩
  · exact ⟨index, rfl⟩

theorem side_apart {other : ℕ} (hbase : SideRegion base)
    (hother : SideRegion other) (hne : other ≠ base) :
    ¬ (base ≤ other ∧ other < base + slotSectors) := by
  obtain ⟨i, rfl⟩ := hbase.exists_index
  obtain ⟨j, rfl⟩ := hother.exists_index
  simp only [checkpointLba, slotSectors] at hne ⊢
  omega

theorem CrashInvariant.writeSide (hcipher : config.Opens cipher)
    (h : CrashInvariant cipher config m durable true active) (hbase : SideRegion base)
    (hends : WriteEnds cipher config base s generation power m o m') :
    CrashInvariant cipher config m' durable true active where
  slots := by
    have hbound := sideRegion_bounds hbase
    have hslot := fun slot => (slotLba_bounds slot).2
    refine h.slots.mono hcipher (fun index hindex => ?_) ?_ hends.encodings_subset
    · have hactive := hslot active
      exact hends.blocks_outside hcipher (by omega)
    · have htarget := hslot (active ^^^ 1)
      exact hends.blocks_outside hcipher (by omega)
  side := by
    intro other hother
    by_cases heq : other = base
    · subst heq
      exact hends.regionHolds hcipher (h.side other hother)
    · exact (h.side other hother).mono (hends.blocks_outside hcipher (side_apart hbase hother heq))
        hends.encodings_subset
  store := by
    intro hup
    rw [hends.store_eq]
    exact h.store hup

/-- The invariant only looks at the blocks, the history and a few fields of
the store. -/
theorem CrashInvariant.congr (h : CrashInvariant cipher config m durable true active)
    (hstore : StoreHolds config m'.store active durable)
    (hblocks : m'.device.blocks = m.device.blocks) (hencodings : m'.encodings = m.encodings) :
    CrashInvariant cipher config m' durable true active := by
  obtain ⟨device, store, streams, next, encodings, accepted⟩ := m'
  obtain ⟨blocks, script⟩ := device
  cases hblocks
  cases hencodings
  exact ⟨h.slots, h.side, fun _ => hstore⟩

theorem CrashInvariant.ignoresScript : IgnoresScript fun m =>
      CrashInvariant cipher config m durable true active :=
  fun m d hblocks _ h =>
    show CrashInvariant cipher config { m with device := d } _ _ _ from
      CrashInvariant.congr h (h.store rfl) hblocks rfl

/-- The durable commit is a snapshot the store admits. -/
theorem CrashInvariant.admits (h : CrashInvariant cipher config m durable true active)
    (hs : m.store.snapshot = some s) : config.Admits s := by
  rw [(h.store rfl).snapshot] at hs
  obtain ⟨⟨s', generation⟩, rfl, rfl⟩ := map_eq_some_iff.mp hs
  obtain ⟨-, ⟨r, -, -, rfl, -⟩, -⟩ := h.slots
  exact r.admitted

section

variable (hcipher : config.Opens cipher)
  (h : CrashInvariant cipher config m durable true active)
  (hscript : m.device.script = Device.powered power)
include hcipher h hscript

theorem CrashInvariant.recordCheckpoint :
    CrashInvariant cipher config ((recordCheckpoint cipher).run m).2 durable true active := by
  have hstore := h.store rfl
  simp only [ExpOS.recordCheckpoint, getStore, run_bind, Effect.get, run_pure, run_lift]
  rcases hs : m.store.snapshot with _ | s
  · exact h
  simp only [ofOption_some, hstore.device, Bool.true_eq_false, if_false]
  rw [run_bind]
  rcases hslot : (m.store.checkpoints.freeIndex <|>
      oldestCheckpoint m.store.checkpoints) with _ | slot
  · exact h
  refine run_bind_keeps (P := fun m => CrashInvariant cipher config m durable true active)
    ?_ fun encoded => ?_
  · exact h.writeSide hcipher (.inr ⟨slot, checkpointSlot_lt hslot, rfl⟩)
      (writeSlot_powered hcipher (h.admits hs) (nextGeneration_ne_zero _) hstore.storageKey hscript)
  · refine (verifyWrite_keeps CrashInvariant.ignoresScript _ _).bind fun _ => ?_
    refine (keeps_modify fun m hm => ?_).bind fun _ => keeps_pure _
    obtain ⟨h₁, h₂, h₃, h₄, h₅, h₆⟩ := hm.store rfl
    refine CrashInvariant.congr hm ?_ rfl rfl
    exact ⟨h₁, h₂, h₃, h₄, h₅, h₆⟩

theorem CrashInvariant.establishBaseline :
    CrashInvariant cipher config ((establishBaseline cipher).run m).2 durable true active := by
  have hstore := h.store rfl
  have hmodify : ∀ baseline (lba : RuntimeStore → ℕ), Keeps
      (fun m => CrashInvariant cipher config m durable true active)
      (modifyStore fun store =>
        { store with baseline := baseline, baselineLba := lba store }) := by
    intro baseline lba
    refine keeps_modify fun m hm => ?_
    obtain ⟨h₁, h₂, h₃, h₄, h₅, h₆⟩ := hm.store rfl
    refine CrashInvariant.congr hm ?_ rfl rfl
    exact ⟨h₁, h₂, h₃, h₄, h₅, h₆⟩
  simp only [ExpOS.establishBaseline, getStore, run_bind, Effect.get, run_pure]
  rcases m.store.baseline with _ | info | _
  · rcases hs : m.store.snapshot with _ | s
    · exact h
    rw [run_bind]
    simp only [hstore.device]
    refine run_bind_keeps (P := fun m => CrashInvariant cipher config m durable true active)
      ?_ fun encoded => ?_
    · exact h.writeSide hcipher (.inl rfl)
        (writeSlot_powered hcipher (h.admits hs) (max_one_ne_zero _) hstore.storageKey hscript)
    refine (verifyWrite_keeps CrashInvariant.ignoresScript _ _).attempt.bind fun verified => ?_
    rcases verified with _ | _
    · exact (hmodify .damaged (·.baselineLba)).bind fun _ => keeps_fail _
    · exact (hmodify (.ready _) (fun _ => baselineLba)).bind fun _ => keeps_pure _
  · exact h
  · exact h

end

/-! ## Boots -/

/-- A region is read as a record written to it, or not at all. -/
theorem RegionHolds.probes {legacyBase : ℕ}
    (hcipher : config.Opens cipher) (h : RegionHolds cipher config m base P)
    (hcollision : NoCollision cipher config m) (hlegacy : legacyBase = base ∨
      LegacyUnreadable cipher config.storageKey m.device.blocks legacyBase) (slot : UInt8) :
    ∃ o : Option SlotRead, Probes cipher config.storageKey m.device.blocks base legacyBase slot
        (o, o.isNone) ∧ ∀ read ∈ o, config.owns read = true ∧ read.slot = slot ∧
        P read.generation := by
  rcases h with hzeros | ⟨r, hmem, hheaded, hP⟩
  · exact ⟨none, probes_blank hzeros hlegacy, by simp⟩
  have hchecks := hcollision base r hmem hheaded
  by_cases hheld : r.held m.device.blocks = r.encoded
  · refine ⟨some (r.read slot), hheaded.probes_held hcipher hheld legacyBase slot, ?_⟩
    rintro read hread
    cases hread
    exact ⟨r.owned slot, rfl, hP⟩
  · have holder : LegacyUnreadable cipher config.storageKey m.device.blocks legacyBase := by
      rcases hlegacy with rfl | hlegacy
      · exact hheaded.legacyUnreadable hcipher hheld hchecks
      · exact hlegacy
    exact ⟨none, hheaded.probes_torn hcipher hheld hchecks holder, by simp⟩

/-- What the two slots are read as, and which of them is selected. -/
theorem SlotsHold.selects (hcipher : config.Opens cipher)
    (h : SlotsHold cipher config m active durable) (hcollision : NoCollision cipher config m)
    (hlegacy : LegacyAbsent cipher config m) : ∃ a b : Option SlotRead,
      Probes cipher config.storageKey m.device.blocks (slotLba 0)
        (legacySlotLba 0) 0 (a, a.isNone) ∧
      Probes cipher config.storageKey m.device.blocks (slotLba 1)
        (legacySlotLba 1) 1 (b, b.isNone) ∧
      ((newest (a.filter config.owns) (b.filter config.owns)).map
        fun read => ((read.snapshot, read.generation), read.slot)) =
        durable.map fun commit => (commit, active) := by
  rcases durable with _ | ⟨s, generation⟩
  · obtain ⟨rfl, hzero, hone⟩ := h
    have hblankA : RegionHolds cipher config m (slotLba 0) (fun _ => False) := .inl hzero
    have hblankB : RegionHolds cipher config m (slotLba 1) (fun _ => False) := .inl hone
    obtain ⟨a, hprobeA, ha⟩ := hblankA.probes hcipher hcollision
      (.inl (show legacySlotLba 0 = slotLba 0 from rfl)) 0
    obtain ⟨b, hprobeB, hb⟩ := hblankB.probes hcipher hcollision (.inr hlegacy.slotB) 1
    refine ⟨a, b, hprobeA, hprobeB, ?_⟩
    rw [eq_none_iff_forall_not_mem.mpr fun read hread => (ha read hread).2.2,
      eq_none_iff_forall_not_mem.mpr fun read hread => (hb read hread).2.2]
    rfl
  · obtain ⟨rfl | rfl, ⟨r, -, hwhole, rfl, rfl⟩, hother⟩ := h
    · obtain ⟨b, hprobeB, hb⟩ := hother.probes hcipher hcollision (.inr hlegacy.slotB) 1
      refine ⟨some (r.read 0), b, (hwhole.headed hcipher).probes_held
        hcipher hwhole.held_eq _ 0, hprobeB, ?_⟩
      rw [filter_some_pos (r.owned 0)]
      rcases b with _ | read
      · rfl
      · obtain ⟨howns, -, hnext⟩ := hb read rfl
        rw [filter_some_pos howns, newest_eq_first hnext]
        rfl
    · obtain ⟨a, hprobeA, ha⟩ := hother.probes hcipher hcollision
        (.inl (show legacySlotLba 0 = slotLba 0 from rfl)) 0
      refine ⟨a, some (r.read 1), hprobeA, (hwhole.headed
        hcipher).probes_held hcipher hwhole.held_eq _ 1, ?_⟩
      rw [filter_some_pos (r.owned 1)]
      rcases a with _ | read
      · rfl
      · obtain ⟨howns, -, hnext⟩ := ha read rfl
        rw [filter_some_pos howns, newest_eq_second hnext]
        rfl

/-- The store after a boot that selects the durable commit. -/
theorem BootReads.storeHolds {reads : BootReads} (hselected : (reads.selected config).map
        (fun read => ((read.snapshot, read.generation), read.slot)) =
      durable.map fun commit => (commit, active)) (hnone : durable = none → active = 1) :
    StoreHolds config (reads.store config) active durable := by
  rcases durable with _ | ⟨s, generation⟩
  · have hselected : reads.selected config = none := by
      simpa using hselected
    refine ⟨rfl, rfl, rfl, ?_, ?_, ?_⟩
    · simp [store, hselected]
    · simp [store, hselected]
    · simp [store, hselected, hnone rfl]
  · obtain ⟨read, hread, heq⟩ := map_eq_some_iff.mp hselected
    cases heq
    refine ⟨rfl, rfl, rfl, ?_, ?_, ?_⟩
    · simp [store, hread]
    · simp [store, hread]
    · simp [store, hread]

variable {up : Bool} {sectors : ℕ}

/-- A boot returns and selects the durable commit. -/
theorem CrashInvariant.boot (hcipher : config.Opens cipher)
    (h : CrashInvariant cipher config m durable up active)
    (hcollision : NoCollision cipher config m) (hlegacy : LegacyAbsent cipher config m)
    (hsectors : minimumDiskSectors ≤ sectors) :
    ∃ m', (initializeStore cipher config (.ok sectors)).run m.restarted = (.done (), m') ∧
      CrashInvariant cipher config m' durable true active := by
  obtain ⟨a, b, hslotA, hslotB, hselected⟩ := h.slots.selects hcipher hcollision hlegacy
  have hcheckpoints : ∀ index, ∃ o : Option SlotRead, index < checkpointCapacity →
      Probes cipher config.storageKey m.device.blocks
        (checkpointLba index) (legacyCheckpointLba index)
        (UInt8.ofNat index) (o, o.isNone) := by
    intro index
    by_cases hindex : index < checkpointCapacity
    · obtain ⟨o, hprobe, -⟩ := (h.side _ (.inr ⟨index, hindex, rfl⟩)).probes
        hcipher hcollision (.inr (hlegacy.checkpoint index hindex))
        (UInt8.ofNat index)
      exact ⟨o, fun _ => hprobe⟩
    · exact ⟨none, fun hlt => absurd hlt hindex⟩
  choose checkpoint hcheckpoint using hcheckpoints
  obtain ⟨baseline, hbaseline, -⟩ := (h.side _ (.inl rfl)).probes
    hcipher hcollision (.inr hlegacy.baseline) 255
  let reads : BootReads :=
    { slotA := (a, a.isNone)
      slotB := (b, b.isNone)
      checkpoint := fun index => (checkpoint index, (checkpoint index).isNone)
      baseline := (baseline, baseline.isNone)
      blank := (m.device.blocks baselineLba).val.all (· == 0) }
  have hmatch : reads.Match cipher config m.restarted.device.blocks :=
    ⟨hslotA, hslotB, hcheckpoint, hbaseline, rfl⟩
  have hrun := initializeStore_run hmatch rfl hsectors rfl
  refine ⟨_, hrun, h.slots, h.side, fun _ => storeHolds hselected fun hnone => ?_⟩
  have hslots := h.slots
  rw [hnone] at hslots
  exact hslots.1

/-! ## Whole runs -/

theorem CrashInvariant.down (h : CrashInvariant cipher config m durable true active) :
    CrashInvariant cipher config m durable up active :=
  ⟨h.slots, h.side, fun _ => h.store rfl⟩

theorem CrashInvariant.withPower (h : CrashInvariant cipher config m durable true active)
    (power : Option ℕ) : CrashInvariant cipher config (m.withPower power) durable true active :=
  ⟨h.slots, h.side, fun _ => h.store rfl⟩

theorem crashInvariant_blank (hblank : ∀ lba, m.device.blocks lba = .zeros sectorSize) :
    CrashInvariant cipher config m none false 1 :=
  ⟨⟨rfl, hblank _, hblank _⟩, fun _ _ => .inl (hblank _), fun hup => by simp at hup⟩

theorem CrashRun.invariant (hcipher : config.Opens cipher)
    (hsectors : minimumDiskSectors ≤ sectors) (h : CrashRun cipher config sectors m durable up) :
    ∃ active, CrashInvariant cipher config m durable up active := by
  induction h with
  | blank hblank => exact ⟨1, crashInvariant_blank hblank⟩
  | boot _ hcollision hlegacy ih =>
    obtain ⟨active, h⟩ := ih
    obtain ⟨m', hrun, hinv⟩ := h.boot hcipher hcollision hlegacy hsectors
    exact ⟨active, by rw [hrun]; exact hinv⟩
  | committed _ hs hrun ih =>
    obtain ⟨active, h⟩ := ih
    rcases (h.withPower _).commit hcipher rfl hs hrun with
      ⟨-, hdone | ⟨-, hhalt⟩, hinv⟩ | ⟨-, hne, -⟩
    · cases hdone
      exact ⟨_, hinv⟩
    · cases hhalt
    · exact absurd rfl (hne _)
  | interruptedAfter _ hs hrun hheader ih =>
    obtain ⟨active, h⟩ := ih
    rcases (h.withPower _).commit hcipher rfl hs hrun with
      ⟨-, -, hinv⟩ | ⟨hnot, -, -⟩
    · exact ⟨_, hinv⟩
    · exact absurd hheader hnot
  | interruptedBefore _ hs hrun hheader ih =>
    obtain ⟨active, h⟩ := ih
    rcases (h.withPower _).commit hcipher rfl hs hrun with
      ⟨hwritten, -, -⟩ | ⟨-, -, hinv⟩
    · exact absurd hwritten hheader
    · exact ⟨_, hinv⟩
  | refused _ hs hrun ih =>
    obtain ⟨active, h⟩ := ih
    rcases (h.withPower _).commit hcipher rfl hs hrun with
      ⟨-, hdone | ⟨-, hhalt⟩, -⟩ | ⟨-, -, hinv⟩
    · cases hdone
    · cases hhalt
    · exact ⟨_, hinv⟩
  | @checkpoint m m' durable power o _ hrun ih =>
    obtain ⟨active, h⟩ := ih
    have hinv := (h.withPower power).recordCheckpoint hcipher rfl
    rw [hrun] at hinv
    exact ⟨active, hinv.down⟩
  | @baseline m m' durable power o _ hrun ih =>
    obtain ⟨active, h⟩ := ih
    have hinv := (h.withPower power).establishBaseline hcipher rfl
    rw [hrun] at hinv
    exact ⟨active, hinv.down⟩

/-- Whatever sequence of commits, losses of power and boots a machine has gone
through, a boot returns and selects exactly the durable commit, and a running
machine holds it in memory.  A commit that reports an error, on any disk, has
not touched the store in memory. -/
theorem crashRun_selects_durable {sectors : ℕ} {up : Bool}
    (hcipher : config.storageKey ≠ none → cipher.Inverts) (hsectors : minimumDiskSectors ≤ sectors)
    (hrun : CrashRun cipher config sectors m durable up) (hcollision : NoCollision cipher config m)
    (hlegacy : LegacyAbsent cipher config m) :
    (∃ m', (initializeStore cipher config (.ok sectors)).run m.restarted = (.done (), m') ∧
      m'.store.snapshot = durable.map Prod.fst ∧
      m'.store.generation = (durable.map Prod.snd).getD 0) ∧
    (up = true → m.store.snapshot = durable.map Prod.fst ∧
      m.store.generation = (durable.map Prod.snd).getD 0) ∧
    ∀ (s : Snapshot) (n n' : Machine) (error : StoreError),
      (commit cipher s).run n = (.fail error, n') ∨
        (commitLocked cipher s).run n = (.fail error, n') → n'.store = n.store := by
  obtain ⟨active, hinv⟩ := hrun.invariant hcipher hsectors
  obtain ⟨m', hboot, hinv'⟩ := hinv.boot hcipher hcollision hlegacy hsectors
  have hstore := hinv'.store rfl
  refine ⟨⟨m', hboot, hstore.snapshot, hstore.generation⟩, fun hup => ?_, ?_⟩
  · have hmemory := hinv.store hup
    exact ⟨hmemory.snapshot, hmemory.generation⟩
  · rintro s n n' error (hfail | hfail)
    · exact commit_fail hfail
    · exact commitLocked_fail hfail

end Preservation

/-! ## One commit on a blank disk -/

/-- The store of the test CFC, with a key of zeros. -/
def testConfig : StoreConfig where
  cfc := CfcFin.fromU128 100
  cfcName := testCfcName
  primaryDimension := FormFin.fromU128 2
  storageKey := some (ByteBlock.zeros storageKeyLen)

def notesSnapshot : Snapshot :=
  { oneFormSnapshot (ChunkedBlob.fromBytes [104, 105]) with
    formGraphPresent := true }

theorem notesSnapshot_covers : ∀ stored ∈ notesSnapshot.forms.occupants, stored.content.Covers := by
  intro stored hstored
  rw [oneFormSnapshot_occupants.mp hstored]
  exact ChunkedBlob.covers_replace _ _

theorem testConfig_admits : testConfig.Admits notesSnapshot where
  valid := by
    have h : (oneFormSnapshot (.fromBytes [104, 105])).Valid :=
      oneFormSnapshot_valid (show 2 ≤ 32 * 1024 by decide)
    exact ⟨h.cfc, h.cfcName, h.primaryDimension, h.journalSequence,
      h.nextFin, h.nextDimensionFin, h.forms, h.content, h.dimensions, h.handles⟩
  cfc := rfl
  primaryDimension := rfl
  relationships := by simp [notesSnapshot, oneFormSnapshot, Snapshot.empty]

theorem sectorCount_le_legacy {encoded : Bytes} {n : ℕ}
    (hlen : encoded.length = headerLen + n) (hn : n ≤ 1500) :
    sectorCount encoded ≤ legacySlotSectors := by
  rw [sectorCount, hlen, divCeil]
  simp only [headerLen, sectorSize, legacySlotSectors]
  omega

variable {config : StoreConfig}

theorem exists_notesRecord (base : ℕ) (hadmits : config.Admits notesSnapshot) :
    ∃ r : StoredRecord clearCipher config base, r.snapshot = notesSnapshot ∧ r.generation = 1 ∧
        sectorCount r.encoded ≤ legacySlotSectors := by
  obtain ⟨r, hsnapshot, hgeneration⟩ := StoredRecord.exists_of_covers base
    (fun _ => clearCipher_inverts) hadmits
    (show (1 : UInt64) ≠ 0 by decide) notesSnapshot_covers
  have hlen := (r.roundTrip (fun _ => clearCipher_inverts) 0).1
  rw [hsnapshot] at hlen
  exact ⟨r, hsnapshot, hgeneration, sectorCount_le_legacy hlen (by decide +kernel)⟩

variable {cipher : StorageCipher} {m : Machine}

/-- Nothing decodes at the old addresses of a disk that is blank there. -/
theorem legacyAbsent_of_zeros (h : ∀ lba, legacySlotBLba ≤ lba → lba < checkpointBaseLba →
      m.device.blocks lba = .zeros sectorSize) : LegacyAbsent cipher config m where
  slotB := legacyUnreadable_zeros (h _ (by decide) (by decide))
  checkpoint index hindex := by
    change index < 8 at hindex
    refine legacyUnreadable_zeros (h _ ?_ ?_)
    · change 88 ≤ 112 + index * 24
      omega
    · change 112 + index * 24 < 320
      omega
  baseline := legacyUnreadable_zeros (h _ (by decide) (by decide))

theorem blankMachine_restarted : blankMachine.restarted = blankMachine := by
  simp only [Machine.restarted, blankMachine]

section FirstCommit

variable {cipher : StorageCipher} {owner : StoreConfig}
  (r : StoredRecord cipher owner (slotLba 0)) (config : StoreConfig)

/-- The machine after the first commit on a blank disk, booted for `config`
and given a snapshot of `owner`. -/
def firstCommitted : Machine :=
  { blankMachine with
    device :=
      ⟨partlyWritten (slotLba 0) r.encoded (sectorCount r.encoded)
        (fun _ => ByteBlock.zeros sectorSize), []⟩
    store :=
      { RuntimeStore.fresh config with
        snapshot := some r.snapshot
        generation := r.generation
        activeSlot := 0 }
    encodings := [r.encoding] }

theorem firstCommitted_run (hcipher : owner.Opens cipher)
    (hkey : config.storageKey = owner.storageKey) (hgeneration : r.generation = 1) :
    (commitLocked cipher r.snapshot).run (freshMachine config) =
      (.done r.generation, firstCommitted r config) :=
  commitLocked_quiet (m := freshMachine config) hcipher rfl hkey
    rfl (show (1 : UInt8) ^^^ 1 = 0 by decide) r hgeneration

theorem firstCommitted_whole : r.Whole (firstCommitted r config).device.blocks :=
  fun _ hindex => partlyWritten_all _ (Nat.le_refl _) hindex

theorem firstCommitted_zeros (hcount : sectorCount r.encoded ≤ legacySlotSectors) (lba : ℕ)
    (hlba : legacySlotBLba ≤ lba) : (firstCommitted r config).device.blocks lba =
      .zeros sectorSize := by
  refine partlyWritten_outside _ ?_
  simp only [legacySlotBLba] at hlba
  have hbase : slotLba 0 = slotALba := rfl
  omega

end FirstCommit

/-- A blank region has the header of no record. -/
theorem StoredRecord.Headed.ne_zeros {base : ℕ} {blocks : ℕ → Sector}
    {r : StoredRecord cipher config base} (hcipher : config.Opens cipher) (h : r.Headed blocks) :
    blocks base ≠ .zeros sectorSize := by
  intro hzeros
  apply (not_headerRejected (r.wellShaped hcipher) (r.length_le hcipher)).1
  rw [← show blocks base = sectorAt r.encoded 0 from h, hzeros]
  exact .inl take_zeros_ne_magic

/-- A commit that loses power at its first write leaves the disk as it was. -/
theorem commitLocked_cut {target : UInt8} (hcipher : config.Opens cipher)
    (hdevice : m.store.device = true) (hkey : m.store.storageKey = config.storageKey)
    (hscript : m.device.script = Device.powered (some 0))
    (htarget : m.store.activeSlot ^^^ 1 = target) (r : StoredRecord cipher config (slotLba target))
    (hgeneration : r.generation = nextGeneration m.store.generation) :
    (commitLocked cipher r.snapshot).run m =
      (.halt,
        { m with
          device := ⟨m.device.blocks, []⟩
          encodings := m.encodings ++ [r.encoding] }) := by
  subst htarget
  let logged : Machine := { m with encodings := m.encodings ++ [r.encoding] }
  have hpowered : logged.device = ⟨m.device.blocks, Device.powered (some 0)⟩ := by
    rw [← hscript]
  have hwrite := writeAt_cut hpowered (slotLba (m.store.activeSlot ^^^ 1))
    (r.sectorCount_le hcipher) rfl (r.sectorCount_pos hcipher)
  rw [commitLocked_run cipher _ hdevice, ← hgeneration, run_bind, writeSlot, run_bind,
    encodeFor_run hkey, r.encodes]
  simp only [logged, StoredRecord.encoding] at hwrite
  simp only [run_bind, hwrite]
  rfl

theorem firstCommitted_noCollision (hcipher : config.Opens cipher)
    (r : StoredRecord cipher config (slotLba 0)) (r' : StoredRecord cipher config (slotLba 1))
    (hcount : sectorCount r.encoded ≤ legacySlotSectors) :
    NoCollision cipher config
      { firstCommitted r config with encodings := [r.encoding, r'.encoding] } := by
  intro base r'' hmem hheaded htorn
  rcases mem_pair.mp hmem with hentry | hentry
  · obtain rfl : base = slotLba 0 := congrArg SlotEncoding.base hentry
    have hencoded : r''.encoded = r.encoded := congrArg SlotEncoding.encoded hentry
    have hheld := (firstCommitted_whole r config).held_eq
    rw [StoredRecord.held, hencoded] at htorn
    exact absurd hheld htorn
  · obtain rfl : base = slotLba 1 := congrArg SlotEncoding.base hentry
    exact absurd (firstCommitted_zeros r config hcount _ (by decide)) (hheaded.ne_zeros hcipher)

theorem firstCommitted_crashRun (r : StoredRecord clearCipher testConfig (slotLba 0))
    (hsnapshot : r.snapshot = notesSnapshot) (hgeneration : r.generation = 1) :
    CrashRun clearCipher testConfig minimumDiskSectors (firstCommitted r testConfig)
      (some (notesSnapshot, 1)) true := by
  have hboot := blankMachine_boot clearCipher testConfig (Nat.le_refl minimumDiskSectors)
  have hblank : CrashRun clearCipher testConfig minimumDiskSectors
      blankMachine none false := .blank fun _ => rfl
  have hon := hblank.boot (fun _ _ hmem => by cases hmem) (legacyAbsent_of_zeros fun _ _ _ => rfl)
  rw [blankMachine_restarted, hboot] at hon
  dsimp only at hon
  have hcommit := firstCommitted_run r testConfig (fun _ => clearCipher_inverts) rfl hgeneration
  rw [hsnapshot, hgeneration] at hcommit
  rw [← show (freshMachine testConfig).withPower none = freshMachine testConfig from rfl] at hcommit
  exact hon.committed testConfig_admits hcommit

/-- A boot after an interrupted second commit selects the first one. -/
theorem interrupted_commit_not_selected : ∃ m, CrashRun clearCipher testConfig minimumDiskSectors m
        (some (notesSnapshot, 1)) false ∧ ∃ m', (initializeStore clearCipher testConfig
          (.ok minimumDiskSectors)).run m.restarted = (.done (), m') ∧
        m'.store.snapshot = some notesSnapshot ∧ m'.store.generation = 1 := by
  obtain ⟨r, hsnapshot, hgeneration, hcount⟩ := exists_notesRecord (slotLba 0) testConfig_admits
  have hcipher : testConfig.storageKey ≠ none → clearCipher.Inverts := fun _ => clearCipher_inverts
  have hrun := firstCommitted_crashRun r hsnapshot hgeneration
  obtain ⟨r', hsnapshot', hgeneration'⟩ := StoredRecord.exists_of_covers (slotLba 1) hcipher
    testConfig_admits (nextGeneration_ne_zero r.generation) notesSnapshot_covers
  have hcut := commitLocked_cut (m := (firstCommitted r testConfig).withPower (some 0)) hcipher
    rfl rfl rfl (show (0 : UInt8) ^^^ 1 = 1 by decide) r' hgeneration'
  have hheader : ¬ HeaderWritten clearCipher (firstCommitted r testConfig) notesSnapshot
      (some 0) := by
    rintro ⟨encoded, hencode, hlasts⟩
    change encodeSlot clearCipher notesSnapshot (nextGeneration r.generation)
      testConfig.storageKey (UInt32.ofNat (slotLba (0 ^^^ 1))) = _ at hencode
    rw [show (0 : UInt8) ^^^ 1 = 1 by decide, ← hsnapshot', ← hgeneration', r'.encodes] at hencode
    cases hencode
    exact (r'.sectorCount_pos hcipher).not_ge (hlasts 0 rfl)
  rw [hsnapshot'] at hcut
  have hcrash : CrashRun clearCipher testConfig minimumDiskSectors
      { firstCommitted r testConfig with encodings := [r.encoding, r'.encoding] }
      (some (notesSnapshot, 1)) false :=
    hrun.interruptedBefore testConfig_admits hcut hheader
  refine ⟨_, hcrash, ?_⟩
  exact (crashRun_selects_durable hcipher (Nat.le_refl _) hcrash
    (firstCommitted_noCollision hcipher r r' hcount)
    (legacyAbsent_of_zeros fun lba hlow _ => firstCommitted_zeros r testConfig hcount lba hlow)).1

/-- The same CFC under another Dimension. -/
def otherDimension : StoreConfig :=
  { testConfig with primaryDimension := FormFin.fromU128 3 }

/-- `commit` checks the CFC of a snapshot but not its Dimension, and a boot
ignores slots of another Dimension: such a commit is reported as completed
and is not selected. -/
theorem foreign_dimension_commit_lost : ∃ m m' m'' : Machine,
      (initializeStore clearCipher otherDimension
        (.ok minimumDiskSectors)).run blankMachine = (.done (), m) ∧
      (commit clearCipher notesSnapshot).run m = (.done 1, m') ∧
      m'.store.snapshot = some notesSnapshot ∧ (initializeStore clearCipher otherDimension
        (.ok minimumDiskSectors)).run m'.restarted = (.done (), m'') ∧
      m''.store.snapshot = none := by
  obtain ⟨r, hsnapshot, hgeneration, hcount⟩ := exists_notesRecord (slotLba 0) testConfig_admits
  have hcipher : testConfig.storageKey ≠ none → clearCipher.Inverts := fun _ => clearCipher_inverts
  have hboot := blankMachine_boot clearCipher otherDimension (Nat.le_refl minimumDiskSectors)
  have hcommit := firstCommitted_run r otherDimension hcipher rfl hgeneration
  rw [hsnapshot] at hcommit
  have hwhole := firstCommitted_whole r otherDimension
  have hmatch : (onlySlotA (some (r.read 0), false)).Match clearCipher otherDimension _ :=
    onlySlotA_match (firstCommitted_zeros r otherDimension hcount)
      ((hwhole.headed hcipher).probes_held hcipher hwhole.held_eq (legacySlotLba 0) 0)
  have hreboot := initializeStore_run (m := (firstCommitted r otherDimension).restarted) hmatch rfl
    (Nat.le_refl minimumDiskSectors) rfl
  refine ⟨_, _, _, hboot, commit_run_same rfl testConfig_admits.valid rfl hcommit, ?_, hreboot, ?_⟩
  · exact congrArg some hsnapshot
  have hforeign : otherDimension.owns (r.read 0) = false := by
    simp only [StoreConfig.owns, StoredRecord.read, hsnapshot]
    decide
  simp [store, selected, onlySlotA, filter_some_neg, hforeign, newest]

end ExpOS
