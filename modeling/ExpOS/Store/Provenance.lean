import ExpOS.Store.Forged

/-!
# Where the records of a disk come from

On a quiet device every region is blank or holds what was encoded for it
last.  So whatever is read from the start of a region was written there as a
slot, a checkpoint or the baseline.

The old layout starts its records in the middle of the current slots.  What a
boot finds there, when it finds nothing at the current address, is content of
Forms.
-/

namespace ExpOS

open List Option

open Effect

/-! ## Records and roles -/

/-- What was read had been encoded for the address it was read from. -/
def WrittenInRole (cipher : StorageCipher) (m : Machine) (read : SlotRead) : Prop :=
  ∃ e ∈ m.encodings, e.Encodes cipher ∧ e.base = read.base ∧ e.encoded = read.encoded

section Invariant

variable (cipher : StorageCipher)

/-- The region is blank, or it holds a record that was encoded for it. -/
def RegionWritten (m : Machine) (base : ℕ) : Prop :=
  m.device.blocks base = ByteBlock.zeros sectorSize ∨
    ∃ e ∈ m.encodings, e.Encodes cipher ∧ e.base = base ∧ sectorCount e.encoded ≤ slotSectors ∧
      ∀ index < sectorCount e.encoded, m.device.blocks (base + index) = sectorAt e.encoded index

/-- The machine runs without faults, and everything that was accepted was
written in its role. -/
structure Traceable (m : Machine) : Prop where
  quiet : m.device.Quiet
  regions : ∀ base, IsRegion base → RegionWritten cipher m base
  accepted : ∀ read ∈ m.accepted, WrittenInRole cipher m read

end Invariant

section Preservation

variable {cipher : StorageCipher} {m m' : Machine}

/-- Whatever is written to a region begins with a usable header. -/
theorem SlotEncoding.Encodes.wellShaped {e : SlotEncoding}
    (h : e.Encodes cipher) (hcount : sectorCount e.encoded ≤ slotSectors) :
    wellShaped e.encoded ∧ e.encoded.length ≤ slotLen := by
  obtain ⟨payload, -, hwrap⟩ := encodeSlot_eq_done.mp h
  obtain ⟨tail, body, htail, hbody, hencoded⟩ := wrapPayload_eq hwrap
  have hlen : e.encoded.length = headerLen + payload.length := by
    rw [hencoded, length_append, length_append, length_slotHeader, headerLen]
    omega
  have hfits : e.encoded.length ≤ slotLen := by
    simp only [sectorCount, divCeil, sectorSize, slotLen] at hcount ⊢
    omega
  refine ⟨?_, hfits⟩
  rw [hencoded]
  refine wellShaped_frame ?_ (by omega)
  rw [length_append, htail, hbody]

variable {base : ℕ} {key : Option (ByteBlock storageKeyLen)} {slot : UInt8}

/-- What is read from the start of a region was written there. -/
theorem RegionWritten.read (h : RegionWritten cipher m base)
    {read : SlotRead} (hread : currentRead cipher key m.device.blocks base slot =
      .done read) : WrittenInRole cipher m read := by
  obtain ⟨hheader, hdecoded⟩ := currentRead_eq_done.mp hread
  obtain ⟨hbase, hbytes, -, -⟩ := decodedRead_eq_done hdecoded
  rcases h with hzeros | ⟨e, hmem, hencodes, heq, hcount, hblocks⟩
  · refine absurd (.inl ?_) hheader
    rw [hzeros]
    exact take_zeros_ne_magic
  obtain ⟨hshape, hfits⟩ := hencodes.wellShaped hcount
  have hpos : 0 < sectorCount e.encoded := by
    have hlong := hshape.1
    simp only [sectorCount, divCeil, sectorSize, headerLen] at hlong ⊢
    omega
  have hfirst : m.device.blocks base = sectorAt e.encoded 0 := hblocks 0 hpos
  have hlen : headedLen m.device.blocks base = e.encoded.length := by
    rw [headedLen, hfirst]
    exact (not_headerRejected hshape hfits).2
  refine ⟨e, hmem, hencodes, heq.trans hbase.symm, ?_⟩
  rw [hbytes, headedBytes, hlen]
  have hregion : regionBytes m.device.blocks base
      (divCeil e.encoded.length sectorSize) = Blocks.flat
        ((List.range (sectorCount e.encoded)).map (sectorAt e.encoded)) := by
    rw [regionBytes]
    congr 1
    exact map_congr_left fun index hindex => hblocks index (mem_range.mp hindex)
  rw [hregion, take_sectors]

theorem RegionWritten.mono (h : RegionWritten cipher m base) (hblocks : ∀ index < slotSectors,
      m'.device.blocks (base + index) = m.device.blocks (base + index))
    (hencodings : m.encodings ⊆ m'.encodings) : RegionWritten cipher m' base := by
  rcases h with hzeros | ⟨e, hmem, hencodes, heq, hcount, hwhole⟩
  · exact .inl ((hblocks 0 (by decide)).trans hzeros)
  refine .inr ⟨e, hencodings hmem, hencodes, heq, hcount, ?_⟩
  intro index hindex
  rw [hblocks index (by omega)]
  exact hwhole index hindex

/-- A write that leaves the other regions alone. -/
theorem Traceable.written {log : List SlotEncoding} (h : Traceable cipher m) (hbase : IsRegion base)
    (hquiet : m'.device.Quiet) (hlog : m'.encodings = m.encodings ++ log)
    (haccepted : m'.accepted = m.accepted)
    (houtside : ∀ lba, ¬ (base ≤ lba ∧ lba < base + slotSectors) →
      m'.device.blocks lba = m.device.blocks lba)
    (hregion : RegionWritten cipher m' base) : Traceable cipher m' where
  quiet := hquiet
  regions := by
    intro other hother
    by_cases hsame : other = base
    · rwa [hsame]
    refine (h.regions other hother).mono (fun index hindex => ?_) ?_
    · exact houtside _ (hbase.apart hother hsame hindex)
    · rw [hlog]
      exact subset_append_left _ _
  accepted := by
    intro read hread
    rw [haccepted] at hread
    obtain ⟨e', hmem, hrole⟩ := h.accepted read hread
    refine ⟨e', ?_, hrole⟩
    rw [hlog]
    exact mem_append_left _ hmem

/-- Writing a record to a region of a quiet disk. -/
theorem traceable_writeSlot (s : Snapshot) (generation : UInt64) (hbase : IsRegion base) :
    Keeps (Traceable cipher) (writeSlot cipher s generation base) := by
  intro m h
  rcases writeSlot_cases cipher h.quiet s generation base with
    ⟨e, hencodes, ⟨-, -, -, rfl⟩, hle, hrun⟩ | ⟨o, log, hrun, -⟩
  · rw [hrun]
    refine h.written hbase rfl rfl rfl
      (fun lba hlba => partlyWritten_outside _ (by omega)) ?_
    exact .inr ⟨e, mem_append_right _ (mem_singleton.mpr rfl), hencodes, rfl, hle,
      fun index hindex => partlyWritten_all _ (Nat.le_refl _) hindex⟩
  · rw [hrun]
    refine h.written hbase h.quiet rfl rfl (fun _ _ => rfl) ?_
    exact (h.regions base hbase).mono (fun _ _ => rfl) (subset_append_left _ _)

/-- Reading a quiet disk changes nothing. -/
theorem verifyWrite_quiet_state (hquiet : m.device.Quiet)
    (base : ℕ) (encoded : Bytes) : ((verifyWrite base encoded).run m).2 = m := by
  have hkeeps : Keeps (fun n => n = m) (verifyWrite base encoded) := by
    refine keeps_forM _ fun index _ => ?_
    rintro n rfl
    rw [verifySector, run_bind, readSector_quiet hquiet]
    dsimp only
    split
    · rfl
    · rfl
  exact hkeeps m rfl

theorem traceable_callKeeps : CallKeeps cipher (Traceable cipher) where
  write s generation _ hbase := traceable_writeSlot s generation hbase
  verify base encoded m hm := by
    rw [verifyWrite_quiet_state hm.quiet]
    exact hm
  update _ _ := keeps_modify fun _ hm => ⟨hm.quiet, hm.regions, hm.accepted⟩

/-! ## Boots -/

variable {config : StoreConfig}

/-- What a probe of a region reads, if nothing decodes at the old address. -/
theorem Traceable.probes (h : Traceable cipher m) (hlegacy : LegacyAbsent cipher config m)
    {legacyBase : ℕ} (hprobe : BootProbe base legacyBase slot) {result : Option SlotRead × Bool}
    (hprobes : Probes cipher config.storageKey m.device.blocks base legacyBase slot
      result) {read : SlotRead} (hread : read ∈ result.1) : WrittenInRole cipher m read := by
  rcases probed_eq_done (probes_iff.mp hprobes) hread with
    hcurrent | ⟨hne, hold⟩
  · exact (h.regions base hprobe.isRegion).read hcurrent
  · obtain ⟨-, -, -, hdecode⟩ := decodedRead_eq_done hold
    rw [(hlegacy.elsewhere hprobe).resolve_left hne slot] at hdecode
    cases hdecode

/-- Everything such a boot accepts can be traced. -/
theorem Traceable.accepts {reads : BootReads} (h : Traceable cipher m)
    (hlegacy : LegacyAbsent cipher config m) (hmatch : reads.Match cipher config m.device.blocks) :
    ∀ read ∈ reads.accepted config, WrittenInRole cipher m read := by
  have hfilter : ∀ {o : Option SlotRead} {read : SlotRead},
      read ∈ o.filter config.owns → read ∈ o :=
    fun hread => (mem_filter_iff.mp hread).1
  intro read hread
  simp only [BootReads.accepted, mem_append, mem_filterMap, mem_toList, mem_range] at hread
  rcases hread with (⟨index, hindex, hread⟩ | hread) | hread
  · exact h.probes hlegacy (.checkpoint hindex) (hmatch.checkpoint index hindex) (hfilter hread)
  · exact h.probes hlegacy .baseline hmatch.baseline (hfilter hread)
  · rcases mem_newest hread with hread | hread
    · exact h.probes hlegacy .slotA hmatch.slotA (hfilter hread)
    · exact h.probes hlegacy .slotB hmatch.slotB (hfilter hread)

theorem Traceable.restarted (h : Traceable cipher m) : Traceable cipher m.restarted :=
  ⟨rfl, h.regions, h.accepted⟩

theorem Traceable.boot {probe : Except StorageError ℕ} (h : Traceable cipher m)
    (hlegacy : LegacyAbsent cipher config m)
    (hrun : (initializeStore cipher config probe).run m.restarted =
      (.done (), m')) : Traceable cipher m' := by
  rcases probe with error | sectors
  · cases hrun
    exact h.restarted
  by_cases hsmall : sectors < minimumDiskSectors
  · rw [initializeStore, if_pos hsmall] at hrun
    cases hrun
    exact h.restarted
  have hsectors := Nat.not_lt.mp hsmall
  obtain ⟨reads, hmatch⟩ := exists_reads_of_boot (m := m.restarted) rfl hsectors hrun
  rw [initializeStore_run (m := m.restarted) hmatch rfl hsectors rfl] at hrun
  cases hrun
  refine ⟨rfl, h.regions, fun read hread => ?_⟩
  rcases mem_append.mp hread with hold | hnew
  · exact h.accepted read hold
  · exact h.accepts hlegacy hmatch read hnew

/-! ## Runs -/

/-- Runs from a blank disk without faults, with boots between the calls.  If
`absent` is required, no boot finds anything at the old addresses. -/
inductive DiskRun (cipher : StorageCipher) (config : StoreConfig) (absent : Prop) :
    Machine → Prop
  | blank {m : Machine} (hquiet : m.device.Quiet)
      (hblank : ∀ lba, m.device.blocks lba = ByteBlock.zeros sectorSize)
      (hencodings : m.encodings = []) (haccepted : m.accepted = []) :
      DiskRun cipher config absent m
  | boot {m m' : Machine} {probe : Except StorageError ℕ}
      (h : DiskRun cipher config absent m)
      (hlegacy : absent → LegacyAbsent cipher config m)
      (hrun : (initializeStore cipher config probe).run m.restarted =
        (.done (), m')) : DiskRun cipher config absent m'
  | call {m : Machine} (h : DiskRun cipher config absent m) (call : StoreCall)
      (hcall : call.isRestore = false) :
      DiskRun cipher config absent ((call.exec cipher).run m).2

theorem DiskRun.traceable (h : DiskRun cipher config True m) : Traceable cipher m := by
  induction h with
  | blank hquiet hblank hencodings haccepted =>
    refine ⟨hquiet, fun _ _ => .inl (hblank _), ?_⟩
    rw [haccepted]
    simp
  | boot _ hlegacy hrun ih => exact ih.boot (hlegacy trivial) hrun
  | call _ call hcall ih =>
    refine StoreCall.exec_keeps traceable_callKeeps ?_ hcall _ ih
    exact fun n _ _ hn => ⟨hn.quiet, hn.regions, hn.accepted⟩

/-- In every state of every run whose boots find nothing at the addresses of the
old layout, everything they accepted was written in its role. -/
theorem accepted_written {config : StoreConfig} (h : DiskRun cipher config True m) :
    ∀ read ∈ m.accepted, WrittenInRole cipher m read :=
  h.traceable.accepted

end Preservation

theorem diskRun_fresh (cipher : StorageCipher) (config : StoreConfig) (absent : Prop) :
    DiskRun cipher config absent (freshMachine config) := by
  have hblank : DiskRun cipher config absent blankMachine := .blank rfl (fun _ => rfl) rfl rfl
  have hboot := blankMachine_boot cipher config (Nat.le_refl minimumDiskSectors)
  rw [← blankMachine_restarted] at hboot
  exact hblank.boot (fun _ => legacyAbsent_of_zeros fun _ _ _ => rfl) hboot

theorem DiskRun.commit {cipher : StorageCipher} {config : StoreConfig} {absent : Prop}
    {m m' : Machine} {s : Snapshot} {sequence : UInt32} (h : DiskRun cipher config absent m)
    (hrun : (ExpOS.commit cipher s).run m = (.done sequence, m')) :
    DiskRun cipher config absent m' := by
  have hcall := h.call (.commit s) rfl
  rw [StoreCall.exec, run_bind, hrun] at hcall
  exact hcall

/-- A boot accepts what the first commit wrote. -/
theorem first_commit_written : ∃ m, DiskRun clearCipher plainConfig True m ∧ m.accepted ≠ [] ∧
      ∀ read ∈ m.accepted, WrittenInRole clearCipher m read := by
  have hcipher : plainConfig.storageKey ≠ none → clearCipher.Inverts := fun h => absurd rfl h
  obtain ⟨r, hsnapshot, -, hcount, hcommit⟩ := exists_firstNotes clearCipher
  have hwhole := firstCommitted_whole r plainConfig
  have hmatch : (BootReads.onlySlotA (some (r.read 0), false)).Match clearCipher plainConfig _ :=
    BootReads.onlySlotA_match (firstCommitted_zeros r plainConfig hcount)
      ((hwhole.headed hcipher).probes_held hcipher hwhole.held_eq (legacySlotLba 0) 0)
  have hboot := initializeStore_run (m := (firstCommitted r plainConfig).restarted) hmatch rfl
    (Nat.le_refl minimumDiskSectors) rfl
  have hrun := ((diskRun_fresh clearCipher plainConfig True).commit hcommit).boot
    (fun _ => legacyAbsent_of_zeros fun lba hlow _ =>
      firstCommitted_zeros r plainConfig hcount lba hlow) hboot
  have howns : plainConfig.owns (r.read 0) = true := by
    simp only [StoreConfig.owns, StoredRecord.read, hsnapshot]
    decide
  have haccepted : (BootReads.onlySlotA
      (some (r.read 0), false)).accepted plainConfig = [r.read 0] := by
    simp [BootReads.accepted, BootReads.selected, BootReads.onlySlotA,
      newest, filter_some_pos howns]
  refine ⟨_, hrun, ?_, accepted_written hrun⟩
  change [] ++ BootReads.accepted plainConfig _ ≠ []
  rw [haccepted]
  simp

/-- A boot takes the content of a Form for a checkpoint of the old layout,
which nobody recorded. -/
theorem form_content_listed_as_checkpoint : ∃ m₁ m₂ m₃ : Machine,
      (commit clearCipher (notesAt 1 [65] 1)).run (freshMachine plainConfig) = (.done 1, m₁) ∧
      (commit clearCipher (notesAt 2 forgedContent 2)).run m₁ = (.done 2, m₂) ∧
      (initializeStore clearCipher plainConfig
        (.ok minimumDiskSectors)).run m₂.restarted = (.done (), m₃) ∧
      DiskRun clearCipher plainConfig False m₃ ∧ m₃.store.checkpoints.get 4 =
        some { stateId := 1, journalSequence := 5, slot := 4
               legacy := true } ∧ forgedRead ∈ m₃.accepted ∧
      ¬ WrittenInRole clearCipher m₃ forgedRead := by
  obtain ⟨m₁, m₂, m₃, hfirst, hsecond, hboot, haccepted, hregions,
    hlisted⟩ := forged_boot clearCipher
  have hrun := (((diskRun_fresh clearCipher plainConfig False).commit hfirst).commit hsecond).boot
    False.elim hboot
  refine ⟨m₁, m₂, m₃, hfirst, hsecond, hboot, hrun, hlisted, haccepted, ?_⟩
  rintro ⟨e, he, -, hbase, -⟩
  obtain ⟨k, -, hk⟩ := hregions e he
  have hold : forgedRead.base = 208 := rfl
  rw [hbase, hold, slotALba, slotSectors] at hk
  omega

end ExpOS
