import ExpOS.Store.Boot

/-!
# Probing a quiet disk

On a quiet device what a region is read as is a function of the blocks of the
disk.  A boot that returns has therefore read every region as something, and
its result is known.
-/

namespace ExpOS

open Effect

variable {base : ℕ}

section Reads

variable (cipher : StorageCipher) (key : Option (ByteBlock storageKeyLen))
  (blocks : ℕ → Sector)

/-- What octets from `base` are read as. -/
def decodedRead (encoded : Bytes) (base : ℕ) (slot : UInt8) : Outcome StoreError SlotRead :=
  match decodeSlot cipher encoded slot key (UInt32.ofNat base) with
  | .done decoded => .done { decoded with encoded, base }
  | .fail _ => .fail .verificationFailed
  | .halt => .halt

/-- The length that the header sector at `base` gives. -/
def headedLen (base : ℕ) : ℕ := headerLen + wordAt (blocks base).val 12 4

/-- The octets of the slot at `base`, as long as its header says. -/
def headedBytes (base : ℕ) : Bytes :=
  (regionBytes blocks base (divCeil (headedLen blocks base)
    sectorSize)).take (headedLen blocks base)

/-- What the slot at `base` is read as in the current layout. -/
def currentRead (base : ℕ) (slot : UInt8) : Outcome StoreError SlotRead :=
  if headerRejected (blocks base).val then .fail .verificationFailed
  else decodedRead cipher key (headedBytes blocks base) base slot

/-- What the slot at `base` is read as in the old layout. -/
def legacyRead (base : ℕ) (slot : UInt8) : Outcome StoreError SlotRead :=
  decodedRead cipher key (regionBytes blocks base legacySlotSectors) base
    slot

/-- The current layout first, the old one if that is rejected. -/
def probed (base legacyBase : ℕ) (slot : UInt8) : Outcome StoreError (Option SlotRead × Bool) :=
  match currentRead cipher key blocks base slot with
  | .done read => .done (some read, false)
  | .halt => .halt
  | .fail _ =>
    match legacyRead cipher key blocks legacyBase slot with
    | .done read => .done (some read, true)
    | .halt => .halt
    | .fail _ => .done (none, true)

variable {cipher key blocks}

theorem decodeRead_run (encoded : Bytes) (base : ℕ) (slot : UInt8) (m : Machine) :
    (decodeRead cipher key encoded base slot).run m =
      (decodedRead cipher key encoded base slot, m) := by
  rw [decodeRead, decodedRead]
  rcases decodeSlot cipher encoded slot key (UInt32.ofNat base) with
    decoded | _ | _
  · rfl
  · rfl
  · rfl

section Quiet

variable {m : Machine} (hquiet : m.device.Quiet)

include hquiet

theorem readAt_run (base : ℕ) (slot : UInt8) : (readAt cipher key base slot).run m =
      (currentRead cipher key m.device.blocks base slot, m) := by
  by_cases hheader : headerRejected (m.device.blocks base).val
  · rw [readAt_rejected hquiet cipher key slot hheader, currentRead, if_pos hheader]
  · rw [readAt_quiet hquiet cipher key slot hheader rfl, currentRead, if_neg hheader]
    exact decodeRead_run _ _ _ _

theorem readLegacyAt_run (base : ℕ) (slot : UInt8) : (readLegacyAt cipher key base slot).run m =
      (legacyRead cipher key m.device.blocks base slot, m) := by
  rw [readLegacyAt_quiet hquiet]
  exact decodeRead_run _ _ _ _

theorem readOrLegacy_run (base legacyBase : ℕ) (slot : UInt8) :
    (readOrLegacy cipher key base legacyBase slot).run m =
      (probed cipher key m.device.blocks base legacyBase slot, m) := by
  rw [readOrLegacy, run_bind, run_attempt, readAt_run hquiet, probed]
  rcases currentRead cipher key m.device.blocks base slot with read | e | _
  · rfl
  · dsimp only
    rw [run_bind, run_attempt, readLegacyAt_run hquiet]
    rcases legacyRead cipher key m.device.blocks legacyBase slot with
      read | e | _
    · rfl
    · rfl
    · rfl
  · rfl

end Quiet

variable {legacyBase : ℕ} {slot : UInt8} {result : Option SlotRead × Bool}

theorem probes_iff : Probes cipher key blocks base legacyBase slot result ↔
      probed cipher key blocks base legacyBase slot = .done result := by
  constructor
  · intro h
    let m : Machine := { blankMachine with device := ⟨blocks, []⟩ }
    have hrun := h m rfl rfl
    rw [readOrLegacy_run (m := m) rfl] at hrun
    exact congrArg Prod.fst hrun
  · rintro h m hquiet rfl
    rw [readOrLegacy_run hquiet, h]

variable {read : SlotRead}

/-- A region that is only readable in the old layout. -/
theorem probes_legacy (hzeros : blocks base = .zeros sectorSize)
    (h : legacyRead cipher key blocks legacyBase slot = .done read) :
    Probes cipher key blocks base legacyBase slot (some read, true) := by
  have hheader : headerRejected (blocks base).val := by
    rw [hzeros]
    exact .inl take_zeros_ne_magic
  rw [probes_iff, probed, currentRead, if_pos hheader, h]

/-! ## What a read says about the disk -/

theorem decodedRead_eq_done {encoded : Bytes}
    (h : decodedRead cipher key encoded base slot = .done read) :
    read.base = base ∧ read.encoded = encoded ∧ wellShaped encoded ∧
      decodeSlot cipher encoded slot key (UInt32.ofNat base) = .done read.toDecodedSlot := by
  rw [decodedRead] at h
  split at h <;> cases h
  rename_i decoded hdecode
  exact ⟨rfl, rfl, (decodeSlot_eq_done hdecode).1, hdecode⟩

theorem currentRead_eq_done : currentRead cipher key blocks base slot = .done read ↔
      ¬ headerRejected (blocks base).val ∧
        decodedRead cipher key (headedBytes blocks base) base slot = .done read := by
  rw [currentRead]
  split
  · next h => simp [h]
  · next h => simp [h]

/-! ### Where a read comes from -/

/-- A slot of the old layout also reads in the current one from the same
sector. -/
theorem currentRead_of_legacyRead (h : legacyRead cipher key blocks base slot = .done read) :
    currentRead cipher key blocks base slot = .done read := by
  obtain ⟨-, -, hshape, -⟩ := decodedRead_eq_done h
  obtain ⟨-, hmagic, -, -, hheader, hpayload⟩ := hshape
  have htake : ∀ {n}, n ≤ sectorSize → (regionBytes blocks base legacySlotSectors).take n =
        (blocks base).val.take n :=
    fun hn => take_regionBytes blocks base (by decide) hn
  have hhead := htake (show headerLen ≤ sectorSize by decide)
  rw [htake (by decide)] at hmagic
  rw [wordAt_congr hhead (by decide)] at hheader
  rw [wordAt_congr hhead (by decide), length_regionBytes] at hpayload
  have hlen : headedLen blocks base = legacySlotSectors * sectorSize := by
    rw [headedLen, hpayload]
    decide
  have hbytes : headedBytes blocks base = regionBytes blocks base legacySlotSectors := by
    have hcount : divCeil (legacySlotSectors * sectorSize) sectorSize =
        legacySlotSectors := by decide
    rw [headedBytes, hlen, hcount, List.take_of_length_le]
    rw [length_regionBytes]
  refine currentRead_eq_done.mpr ⟨?_, ?_⟩
  · rw [headerRejected, hmagic, hheader, hpayload]
    decide
  · rw [hbytes]
    exact h

/-- A probe reads the current layout, or else the old one. -/
theorem probed_eq_done
    (h : probed cipher key blocks base legacyBase slot = .done result) (hread : read ∈ result.1) :
    currentRead cipher key blocks base slot = .done read ∨ legacyBase ≠ base ∧
        legacyRead cipher key blocks legacyBase slot = .done read := by
  rw [probed] at h
  split at h
  · next found hcurrent =>
      cases h
      cases hread
      exact .inl hcurrent
  · cases h
  rename_i e hcurrent
  split at h
  · next found hlegacy =>
      cases h
      cases hread
      refine .inr ⟨fun heq => ?_, hlegacy⟩
      rw [heq] at hlegacy
      rw [currentRead_of_legacyRead hlegacy] at hcurrent
      cases hcurrent
  · cases h
  · cases h
    cases hread

/-- Where the current layout was not readable, or both start at the same sector,
a probe misses nothing. -/
theorem mem_of_probed (h : probed cipher key blocks base legacyBase slot = .done result)
    (hbase : result.2 = true ∨ legacyBase = base)
    (hread : currentRead cipher key blocks base slot = .done read ∨
      legacyRead cipher key blocks legacyBase slot = .done read) : read ∈ result.1 := by
  rw [probed] at h
  rcases hread with hcurrent | hlegacy
  · rw [hcurrent] at h
    cases h
    rfl
  rcases hbase with hold | rfl
  · rw [hlegacy] at h
    split at h
    · cases h
      cases hold
    · cases h
    · cases h
      rfl
  · rw [currentRead_of_legacyRead hlegacy] at h
    cases h
    rfl

/-! ### Reads that may report errors -/

section Serving

/-- The disk holds these blocks, and a read that returns gives one of them. -/
def Machine.Serves (blocks : ℕ → Sector) (m : Machine) : Prop :=
  m.device.Honest ∧ m.device.blocks = blocks

theorem serves_ignoresScript (blocks : ℕ → Sector) : IgnoresScript (Machine.Serves blocks) :=
  fun _ _ hblocks hscript h => ⟨fun block hmem => h.1 block (hscript.subset hmem),
    hblocks.trans h.2⟩

variable {m m' : Machine} (h : m.Serves blocks)

include h

theorem Machine.Serves.readAll {lbas : List ℕ} {sectors : List Sector}
    (hrun : (onDevice (Device.readAll lbas)).run m = (.done sectors, m')) :
    sectors = lbas.map blocks := by
  simp only [onDevice] at hrun
  split at hrun <;> cases hrun
  rename_i hread
  rw [h.1.readAll hread, h.2]

theorem Machine.Serves.readSector {lba : ℕ} {sector : Sector}
    (hrun : (readSector lba).run m = (.done sector, m')) : sector = blocks lba := by
  simp only [ExpOS.readSector, onDevice] at hrun
  split at hrun <;> cases hrun
  rename_i hread
  rw [h.1.read hread, h.2]

theorem Machine.Serves.readAt (hrun : (readAt cipher key base slot).run m = (.done read, m')) :
    currentRead cipher key blocks base slot = .done read := by
  obtain ⟨header, n, hheader, hrest⟩ := run_bind_eq_done.mp hrun
  have hserves := readSector_keeps (serves_ignoresScript blocks) base m h
  rw [hheader] at hserves
  rw [h.readSector hheader] at hrest
  split at hrest
  · cases hrest
  rename_i hvalid
  obtain ⟨rest, n', hread, hdecode⟩ := run_bind_eq_done.mp hrest
  rw [hserves.readAll hread, decodeRead_run, ← regionBytes_headed] at hdecode
  exact currentRead_eq_done.mpr ⟨hvalid, congrArg Prod.fst hdecode⟩

theorem Machine.Serves.readLegacyAt
    (hrun : (readLegacyAt cipher key base slot).run m = (.done read, m')) :
    legacyRead cipher key blocks base slot = .done read := by
  obtain ⟨sectors, n, hread, hdecode⟩ := run_bind_eq_done.mp hrun
  rw [h.readAll hread, decodeRead_run, List.map_map] at hdecode
  exact congrArg Prod.fst hdecode

theorem Machine.Serves.readOrLegacy
    (hrun : (readOrLegacy cipher key base legacyBase slot).run m = (.done result, m'))
    (hread : read ∈ result.1) : currentRead cipher key blocks base slot = .done read ∨
      legacyRead cipher key blocks legacyBase slot = .done read := by
  obtain ⟨current, n, hcurrent, hrun⟩ := run_bind_eq_done.mp hrun
  have hkeeps : Keeps (Machine.Serves blocks) (ExpOS.readAt cipher key base slot) :=
    readAt_keeps (serves_ignoresScript blocks) base slot
  have hserves := hkeeps.attempt m h
  rw [hcurrent] at hserves
  rcases current with _ | found
  · obtain ⟨legacy, n', hlegacy, hrun⟩ := run_bind_eq_done.mp hrun
    cases hrun
    cases hread
    exact .inr (hserves.readLegacyAt (run_attempt_eq_some hlegacy))
  · cases hrun
    cases hread
    exact .inl (h.readAt (run_attempt_eq_some hcurrent))

end Serving

end Reads

/-! ## Boots that return -/

section Boots

variable {cipher : StorageCipher} {config : StoreConfig}

/-- On a quiet device with these blocks. -/
def Machine.On (blocks : ℕ → Sector) (m : Machine) : Prop :=
  m.device.Quiet ∧ m.device.blocks = blocks

variable {blocks : ℕ → Sector}

theorem keeps_on_modifyStore (f : RuntimeStore → RuntimeStore) :
    Keeps (Machine.On blocks) (modifyStore f) :=
  keeps_modify fun _ h => h

theorem keeps_on_accept (read : SlotRead) : Keeps (Machine.On blocks) (accept read) :=
  keeps_modify fun _ h => h

theorem keeps_on_readOrLegacy (key : Option (ByteBlock storageKeyLen))
    (base legacyBase : ℕ) (slot : UInt8) : Keeps (Machine.On blocks)
      (readOrLegacy cipher key base legacyBase slot) := by
  rintro m ⟨hquiet, hblocks⟩
  rw [readOrLegacy_run hquiet]
  exact ⟨hquiet, hblocks⟩

theorem keeps_on_loadCheckpoint (index : ℕ) : Keeps (Machine.On blocks)
      (loadCheckpoint cipher config index) := by
  refine (keeps_on_readOrLegacy _ _ _ _).bind fun result => ?_
  obtain ⟨checkpoint, legacy⟩ := result
  dsimp only
  split
  · exact keeps_pure _
  · exact (keeps_on_accept _).bind fun _ => keeps_on_modifyStore _

variable {m m' : Machine}

/-- A probe that returned on these blocks. -/
theorem Machine.On.probes {legacyBase : ℕ} {slot : UInt8} {key : Option (ByteBlock storageKeyLen)}
    {result : Option SlotRead × Bool} (h : m.On blocks)
    (hrun : (readOrLegacy cipher key base legacyBase slot).run m = (.done result, m')) :
    m = m' ∧ Probes cipher key blocks base legacyBase slot result := by
  obtain ⟨hquiet, rfl⟩ := h
  rw [readOrLegacy_run hquiet] at hrun
  exact ⟨congrArg Prod.snd hrun, probes_iff.mpr (congrArg Prod.fst hrun)⟩

/-- A boot that returned has read every region as something. -/
theorem exists_reads_of_boot {sectors : ℕ}
    (hquiet : m.device.Quiet) (hsectors : minimumDiskSectors ≤ sectors)
    (hrun : (initializeStore cipher config (.ok sectors)).run m = (.done (), m')) :
    ∃ reads : BootReads, reads.Match cipher config m.device.blocks := by
  have hon : m.On m.device.blocks := ⟨hquiet, rfl⟩
  simp only [initializeStore, if_neg (Nat.not_lt.mpr hsectors), run_bind_eq_done] at hrun
  obtain ⟨slotA, _, hslotA, slotB, _, hslotB, _, _, hopened, _, _,
    hcheckpoints, _, _, hbaseline, -⟩ := hrun
  obtain ⟨rfl, hprobeA⟩ := hon.probes hslotA
  obtain ⟨rfl, hprobeB⟩ := hon.probes hslotB
  have hon₁ := keeps_on_modifyStore (RuntimeStore.opened config) _ hon
  rw [hopened] at hon₁
  obtain ⟨hon₂, hrounds⟩ := forM_run_done
    (fun index _ => keeps_on_loadCheckpoint index) hon₁ hcheckpoints
  have hcheckpoint : ∀ index, ∃ result, index < checkpointCapacity →
      Probes cipher config.storageKey m.device.blocks
        (checkpointLba index) (legacyCheckpointLba index)
        (UInt8.ofNat index) result := by
    intro index
    by_cases hindex : index < checkpointCapacity
    · obtain ⟨n, n', _, hn, hround⟩ := hrounds index (List.mem_range.mpr hindex)
      simp only [loadCheckpoint, run_bind_eq_done] at hround
      obtain ⟨result, _, hread, -⟩ := hround
      exact ⟨result, fun _ => (hn.probes hread).2⟩
    · exact ⟨(none, true), fun hlt => absurd hlt hindex⟩
  choose checkpoint hprobe using hcheckpoint
  simp only [loadBaseline, run_bind_eq_done] at hbaseline
  obtain ⟨baseline, _, hread, -⟩ := hbaseline
  exact ⟨
    { slotA, slotB, checkpoint, baseline
      blank := (m.device.blocks baselineLba).val.all (· == 0) },
    hprobeA, hprobeB, hprobe, (hon₂.probes hread).2, rfl⟩

end Boots

end ExpOS
