import ExpOS.Store.Region

/-!
# Booting the store

On a quiet device `initializeStore` returns, changes nothing on the disk, and
sets the store up from what the eleven regions are read as.
-/

namespace ExpOS

open List Option RuntimeStore

open Effect

/-! ## What a boot keeps -/

/-- What `newest` selects is one of the two slots. -/
theorem mem_newest {first second : Option SlotRead} {read : SlotRead}
    (h : read ∈ newest first second) : read ∈ first ∨ read ∈ second := by
  rcases first with _ | a <;> rcases second with _ | b
  · cases h
  · exact .inr h
  · exact .inl h
  · rw [newest] at h
    split at h
    · exact .inr h
    · exact .inl h

/-- The region, the address in the old layout and the slot number that a boot
probes together. -/
inductive BootProbe : ℕ → ℕ → UInt8 → Prop
  | slotA : BootProbe (slotLba 0) (legacySlotLba 0) 0
  | slotB : BootProbe (slotLba 1) (legacySlotLba 1) 1
  | checkpoint {index : ℕ} (hindex : index < checkpointCapacity) :
      BootProbe (checkpointLba index) (legacyCheckpointLba index)
        (UInt8.ofNat index)
  | baseline : BootProbe baselineLba legacyBaselineLba 255

theorem BootProbe.isRegion {base legacyBase : ℕ} {slot : UInt8}
    (h : BootProbe base legacyBase slot) : IsRegion base := by
  cases h with
  | slotA => exact isRegion_slot 0
  | slotB => exact isRegion_slot 1
  | checkpoint hindex => exact isRegion_checkpoint hindex
  | baseline => exact isRegion_baseline

/-- The steps of a boot keep `P`, given that whatever is read for the store
satisfies `Q`. -/
structure BootKeeps (cipher : StorageCipher) (config : StoreConfig)
    (P : Machine → Prop) (Q : SlotRead → Prop) : Prop where
  script : IgnoresScript P
  reads : ∀ base legacyBase slot, BootProbe base legacyBase slot → ∀ m, P m → ∀ result m',
    (readOrLegacy cipher config.storageKey base legacyBase slot).run m = (.done result, m') →
      ∀ read ∈ result.1, config.owns read = true → Q read
  accept : ∀ read, Q read → Keeps P (accept read)
  update : ∀ f : RuntimeStore → RuntimeStore, (∀ store, (f store).storageKey = store.storageKey ∧
      (f store).device = store.device) → Keeps P (modifyStore f)
  opened : Keeps P (modifyStore (RuntimeStore.opened config))

section Keeping

variable {cipher : StorageCipher} {config : StoreConfig}
  {P : Machine → Prop} {Q : SlotRead → Prop}
  (h : BootKeeps cipher config P Q)

include h

theorem BootKeeps.readOrLegacy_bind {α : Type} {base legacyBase : ℕ}
    {slot : UInt8} (hprobe : BootProbe base legacyBase slot)
    {f : Option SlotRead × Bool → StoreM α}
    (hf : ∀ result, (∀ read ∈ result.1.filter config.owns, Q read) → Keeps P (f result)) :
    Keeps P (readOrLegacy cipher config.storageKey base legacyBase slot >>= f) := by
  refine (readOrLegacy_keeps h.script base legacyBase slot).bind_yields ?_ hf
  intro m hm result m' hrun read hread
  obtain ⟨hmem, howns⟩ := mem_filter_iff.mp hread
  exact h.reads base legacyBase slot hprobe m hm result m' hrun read hmem howns

theorem loadCheckpoint_keeps {index : ℕ} (hindex : index < checkpointCapacity) :
    Keeps P (loadCheckpoint cipher config index) := by
  refine h.readOrLegacy_bind (.checkpoint hindex) fun result hresult => ?_
  obtain ⟨checkpoint, legacy⟩ := result
  dsimp only
  rcases hread : checkpoint.filter config.owns with _ | read
  · exact keeps_pure _
  · exact (h.accept read (hresult read hread)).bind fun _ => h.update _ fun _ => ⟨rfl, rfl⟩

theorem loadBaseline_keeps : Keeps P (loadBaseline cipher config) := by
  refine h.readOrLegacy_bind .baseline fun result hresult => ?_
  obtain ⟨baseline, legacy⟩ := result
  refine Keeps.bind (h.update _ fun _ => ?_) fun _ => ?_
  · exact ⟨rfl, rfl⟩
  rcases hread : baseline.filter config.owns with _ | read
  · refine Keeps.bind ?_ fun _ => h.update _ fun _ => ⟨rfl, rfl⟩
    exact (readSector_keeps h.script _).attempt.bind fun _ => keeps_pure _
  · exact (h.accept read (hresult read hread)).bind fun _ => h.update _ fun _ => ⟨rfl, rfl⟩

theorem initializeStore_keeps (probe : Except StorageError ℕ) :
    Keeps P (initializeStore cipher config probe) := by
  rcases probe with error | sectors
  · exact keeps_pure _
  simp only [initializeStore]
  split
  · exact keeps_pure _
  refine h.readOrLegacy_bind .slotA fun first hfirst => ?_
  refine h.readOrLegacy_bind .slotB fun second hsecond => ?_
  refine h.opened.bind fun _ => ?_
  refine Keeps.bind (keeps_forM _ fun index hindex => ?_) fun _ => ?_
  · exact loadCheckpoint_keeps h (mem_range.mp hindex)
  refine (loadBaseline_keeps h).bind fun _ => ?_
  rcases hselected : newest (first.1.filter config.owns) (second.1.filter config.owns) with _ | read
  · exact keeps_pure _
  have hQ : Q read := by
    rcases mem_newest hselected with hread | hread
    · exact hfirst read hread
    · exact hsecond read hread
  exact (h.accept read hQ).bind fun _ => h.update _ fun _ => ⟨rfl, rfl⟩

end Keeping

/-! ## What a boot reads -/

/-- What the regions are read as at boot. -/
structure BootReads where
  slotA : Option SlotRead × Bool
  slotB : Option SlotRead × Bool
  checkpoint : ℕ → Option SlotRead × Bool
  baseline : Option SlotRead × Bool
  /-- The first sector of the baseline region is zero. -/
  blank : Bool

/-- The regions of a disk are read as `reads`. -/
structure BootReads.Match (reads : BootReads) (cipher : StorageCipher)
    (config : StoreConfig) (blocks : ℕ → Sector) : Prop where
  slotA : Probes cipher config.storageKey blocks (slotLba 0)
    (legacySlotLba 0) 0 reads.slotA
  slotB : Probes cipher config.storageKey blocks (slotLba 1)
    (legacySlotLba 1) 1 reads.slotB
  checkpoint : ∀ index < checkpointCapacity,
    Probes cipher config.storageKey blocks (checkpointLba index)
      (legacyCheckpointLba index) (UInt8.ofNat index)
      (reads.checkpoint index)
  baseline : Probes cipher config.storageKey blocks baselineLba
    legacyBaselineLba 255 reads.baseline
  blank : reads.blank = (blocks baselineLba).val.all (· == 0)

/-- A property of what each region is read as. -/
structure BootReads.All (reads : BootReads)
    (Q : ℕ → Option SlotRead × Bool → Prop) : Prop where
  slotA : Q (slotLba 0) reads.slotA
  slotB : Q (slotLba 1) reads.slotB
  checkpoint : ∀ index < checkpointCapacity, Q (checkpointLba index) (reads.checkpoint index)
  baseline : Q baselineLba reads.baseline

variable {cipher : StorageCipher} {config : StoreConfig} {blocks : ℕ → Sector}

/-- If every region is read as something, the disk is read. -/
theorem BootReads.exists_match {Q : ℕ → Option SlotRead × Bool → Prop}
    (h : ∀ base legacyBase slot, BootProbe base legacyBase slot →
      ∃ result, Probes cipher config.storageKey blocks base legacyBase slot
        result ∧ Q base result) : ∃ reads : BootReads, reads.Match cipher config blocks ∧
      reads.All Q := by
  obtain ⟨slotA, hslotA, hQA⟩ := h _ _ _ .slotA
  obtain ⟨slotB, hslotB, hQB⟩ := h _ _ _ .slotB
  obtain ⟨baseline, hbaseline, hQ⟩ := h _ _ _ .baseline
  have hcheckpoints : ∀ index, ∃ result, index < checkpointCapacity →
      Probes cipher config.storageKey blocks (checkpointLba index)
        (legacyCheckpointLba index) (UInt8.ofNat index) result ∧
      Q (checkpointLba index) result := by
    intro index
    by_cases hindex : index < checkpointCapacity
    · obtain ⟨result, hresult⟩ := h _ _ _ (.checkpoint hindex)
      exact ⟨result, fun _ => hresult⟩
    · exact ⟨(none, true), fun hlt => absurd hlt hindex⟩
  choose checkpoint hcheckpoint using hcheckpoints
  exact ⟨
    { slotA, slotB, checkpoint, baseline
      blank := (blocks baselineLba).val.all (· == 0) },
    ⟨hslotA, hslotB, fun index hindex => (hcheckpoint index hindex).1, hbaseline, rfl⟩,
    ⟨hQA, hQB, fun index hindex => (hcheckpoint index hindex).2, hQ⟩⟩

namespace BootReads

variable (config : StoreConfig) (reads : BootReads)

/-- The slot that is selected. -/
def selected : Option SlotRead :=
  newest (reads.slotA.1.filter config.owns)
    (reads.slotB.1.filter config.owns)

/-- The entry of a checkpoint. -/
def checkpointInfo (index : ℕ) : Option CheckpointInfo :=
  ((reads.checkpoint index).1.filter config.owns).map fun read =>
    { stateId := read.generation
      journalSequence := read.snapshot.journalSequence
      slot := UInt8.ofNat index
      legacy := (reads.checkpoint index).2 }

def baselineState : BaselineState :=
  match reads.baseline.1.filter config.owns with
  | some read => .ready
      { generation := read.generation
        journalSequence := read.snapshot.journalSequence }
  | none => if reads.blank then .missing else .damaged

/-- The slots that are accepted, in the order of the reads. -/
def accepted : List SlotRead :=
  (List.range checkpointCapacity).filterMap (fun index =>
    (reads.checkpoint index).1.filter config.owns) ++
  (reads.baseline.1.filter config.owns).toList ++ (reads.selected config).toList

/-- The store after boot. -/
def store : RuntimeStore where
  device := true
  cfc := config.cfc
  cfcName := config.cfcName
  primaryDimension := config.primaryDimension
  snapshot := (reads.selected config).map (·.snapshot)
  generation := ((reads.selected config).map (·.generation)).getD 0
  activeSlot := ((reads.selected config).map (·.slot)).getD 1
  checkpoints :=
    ⟨(List.range checkpointCapacity).map (reads.checkpointInfo config), by simp⟩
  baseline := reads.baselineState config
  baselineLba :=
    if reads.baseline.2 then legacyBaselineLba else ExpOS.baselineLba
  storageKey := config.storageKey

end BootReads

section Loading

variable {cipher : StorageCipher} {config : StoreConfig}
  {reads : BootReads} {m : Machine}
  (hmatch : reads.Match cipher config m.device.blocks)
  (hquiet : m.device.Quiet)

include hmatch hquiet

theorem loadCheckpoint_run {index : ℕ} (hindex : index < checkpointCapacity) :
    (loadCheckpoint cipher config index).run m = (.done (),
        { m with
          store :=
            { m.store with
              checkpoints := m.store.checkpoints.fill index (reads.checkpointInfo config index) }
          accepted := m.accepted ++ ((reads.checkpoint index).1.filter config.owns).toList }) := by
  have hprobe := hmatch.checkpoint index hindex m hquiet rfl
  rw [loadCheckpoint, run_bind, hprobe]
  simp only [BootReads.checkpointInfo]
  rcases (reads.checkpoint index).1.filter config.owns with _ | read
  · simp only [Option.toList, append_nil]
    rfl
  · rfl

theorem loadCheckpoints_run (indices : List ℕ)
    (hindices : ∀ index ∈ indices, index < checkpointCapacity) :
    (indices.forM (loadCheckpoint cipher config)).run m = (.done (),
        { m with
          store :=
            { m.store with
              checkpoints := indices.foldl (fun t index =>
                  t.fill index (reads.checkpointInfo config index))
                m.store.checkpoints }
          accepted := m.accepted ++ indices.filterMap fun index =>
            (reads.checkpoint index).1.filter config.owns }) := by
  induction indices generalizing m with
  | nil =>
    simp only [filterMap_nil, append_nil]
    rfl
  | cons index rest ih =>
    have hfirst := loadCheckpoint_run hmatch hquiet (hindices index mem_cons_self)
    change (loadCheckpoint cipher config index >>= fun _ =>
      rest.forM (loadCheckpoint cipher config)).run m = _
    rw [run_bind, hfirst]
    dsimp only
    rw [ih (by exact hmatch) (by exact hquiet) (fun i hi => hindices i (mem_cons_of_mem _ hi))]
    rcases h : (reads.checkpoint index).1.filter config.owns with _ | read
    · simp [h]
    · simp [h]

theorem loadBaseline_run : (loadBaseline cipher config).run m = (.done (),
        { m with
          store :=
            { m.store with
              baseline := reads.baselineState config
              baselineLba :=
                if reads.baseline.2 then legacyBaselineLba
                else ExpOS.baselineLba }
          accepted := m.accepted ++ (reads.baseline.1.filter config.owns).toList }) := by
  have hprobe := hmatch.baseline m hquiet rfl
  rw [loadBaseline, run_bind, hprobe]
  simp only [BootReads.baselineState]
  rcases reads.baseline.1.filter config.owns with _ | read
  · simp only [run_bind, modifyStore, Effect.modify, regionIsBlank, run_attempt]
    rw [readSector_quiet (by exact hquiet)]
    simp [hmatch.blank]
  · rfl

/-- A boot on a quiet device returns and leaves the disk alone. -/
theorem initializeStore_run {sectors : ℕ} (hsectors : minimumDiskSectors ≤ sectors)
    (hstore : m.store = new) : (initializeStore cipher config (.ok sectors)).run m =
      (.done (),
        { m with
          store := reads.store config
          accepted := m.accepted ++ reads.accepted config }) := by
  have hslotA := hmatch.slotA m hquiet rfl
  have hslotB := hmatch.slotB m hquiet rfl
  have hcheckpoints := loadCheckpoints_run (m := { m with store := m.store.opened config })
    hmatch hquiet (List.range checkpointCapacity)
    (fun _ => mem_range.mp)
  have htable : (List.range checkpointCapacity).foldl
      (fun t index => t.fill index (reads.checkpointInfo config index))
      (.empty _ _) = (reads.store config).checkpoints := by
    apply SlotTable.ext
    rw [SlotTable.foldl_fill _ (Nat.le_refl _)]
    refine map_congr_left fun index hindex => ?_
    rw [if_pos (mem_range.mp hindex)]
  have hbaseline := loadBaseline_run (m := { m with
      store :=
        { m.store.opened config with
          checkpoints := (reads.store config).checkpoints }
      accepted := m.accepted ++ (List.range checkpointCapacity).filterMap fun index =>
          (reads.checkpoint index).1.filter config.owns }) hmatch hquiet
  have hopened : (m.store.opened config).checkpoints = .empty _ _ := rfl
  rw [hopened, htable] at hcheckpoints
  simp only [initializeStore, if_neg (Nat.not_lt.mpr hsectors),
    run_bind, hslotA, hslotB, modifyStore, Effect.modify, hcheckpoints, hbaseline]
  rw [show newest (reads.slotA.1.filter config.owns)
    (reads.slotB.1.filter config.owns) = reads.selected config from rfl]
  rcases hselected : reads.selected config with _ | read
  · simp [hselected, BootReads.store, BootReads.accepted,
      opened, hstore, new]
  · simp [hselected, BootReads.store, BootReads.accepted,
      opened, hstore, new, accept, run_bind, Effect.modify]

end Loading

/-! ## Disks with at most one slot -/

/-- What is read when only slot A is readable. -/
def BootReads.onlySlotA (slotA : Option SlotRead × Bool) : BootReads where
  slotA := slotA
  slotB := (none, true)
  checkpoint _ := (none, true)
  baseline := (none, true)
  blank := true

theorem BootReads.onlySlotA_match
    {slotA : Option SlotRead × Bool} (hzeros : ∀ lba, legacySlotBLba ≤ lba →
      blocks lba = .zeros sectorSize)
    (hslotA : Probes cipher config.storageKey blocks (slotLba 0) (legacySlotLba 0) 0 slotA) :
    (BootReads.onlySlotA slotA).Match cipher config blocks where
  slotA := hslotA
  slotB := probes_zeros (hzeros _ (by decide)) (legacyUnreadable_zeros (hzeros _ (by decide)))
  checkpoint index _ := by
    refine probes_zeros (hzeros _ ?_) (legacyUnreadable_zeros (hzeros _ ?_))
    · simp only [checkpointLba, checkpointBaseLba, slotBLba, slotALba,
        slotSectors, legacySlotBLba, legacySlotSectors]
      omega
    · simp only [legacyCheckpointLba, legacyCheckpointBaseLba,
        legacySlotBLba, slotALba, legacySlotSectors]
      omega
  baseline := probes_zeros (hzeros _ (by decide)) (legacyUnreadable_zeros (hzeros _ (by decide)))
  blank := by
    rw [hzeros _ (by decide)]
    simp [BootReads.onlySlotA, ByteBlock.zeros]

/-- A machine with a blank disk, before its first boot. -/
def blankMachine : Machine where
  device := ⟨fun _ => ByteBlock.zeros sectorSize, []⟩
  store := RuntimeStore.new
  streams := SlotTable.empty _ _
  nextStreamId := 1
  encodings := []
  accepted := []

/-- The store of a CFC without any snapshot. -/
def RuntimeStore.fresh (config : StoreConfig) : RuntimeStore :=
  (BootReads.onlySlotA (none, true)).store config

/-- A machine with a blank disk, booted for `config`. -/
def freshMachine (config : StoreConfig) : Machine :=
  { blankMachine with store := RuntimeStore.fresh config }

theorem blankMachine_boot (cipher : StorageCipher) (config : StoreConfig)
    {sectors : ℕ} (hsectors : minimumDiskSectors ≤ sectors) :
    (initializeStore cipher config (.ok sectors)).run blankMachine =
      (.done (), freshMachine config) := by
  have hmatch : (BootReads.onlySlotA (none, true)).Match cipher config blankMachine.device.blocks :=
    BootReads.onlySlotA_match (fun _ _ => rfl) (probes_zeros rfl (legacyUnreadable_zeros rfl))
  exact initializeStore_run hmatch rfl hsectors rfl

end ExpOS
