import ExpOS.Store.Legacy
import ExpOS.Store.Quiet

/-!
# An old record inside a Form

The fifth checkpoint of the old layout begins sixteen sectors into slot B.  A
Form whose content holds an old slot there is committed into slot B, and the
next boot lists that content as a checkpoint.
-/

namespace ExpOS

open List

/-! ## Sectors of a sequence -/

variable {rest : Bytes}

/-- The sectors behind whole sectors. -/
theorem sectorAt_append {front : Bytes} {k : ℕ} (h : front.length = k * sectorSize) (index : ℕ) :
    sectorAt (front ++ rest) (k + index) = sectorAt rest index := by
  have hdrop : (front ++ rest).drop ((k + index) * sectorSize) =
      rest.drop (index * sectorSize) := by
    rw [Nat.add_mul, ← h, ← drop_drop, drop_left' rfl]
  apply Subtype.ext
  simp only [sectorAt, Blocks.padded, hdrop]

variable {base : ℕ}

/-- Sectors that spell a sequence with something behind it. -/
theorem regionBytes_of_sectors {blocks : ℕ → Sector} {count : ℕ}
    {items : Bytes} (hlen : items.length = count * sectorSize) (h : ∀ index < count,
      blocks (base + index) = sectorAt (items ++ rest) index) :
    regionBytes blocks base count = items := by
  have hmap : ((range count).map fun index =>
      blocks (base + index)) = (range count).map (Blocks.padded 0 (items ++ rest)) :=
    map_congr_left fun index hindex => h index (mem_range.mp hindex)
  rw [regionBytes, hmap, Blocks.flat_padded, ← hlen, take_left' rfl, length_append,
    Nat.sub_eq_zero_of_le (Nat.le_add_right _ _), replicate_zero, append_nil]

theorem sectorAt_zeros (n : ℕ) : sectorAt (replicate n 0) 0 = .zeros sectorSize := by
  apply Subtype.ext
  simp only [sectorAt, Blocks.padded, Nat.zero_mul, drop_zero, take_replicate, length_replicate,
    replicate_append_replicate]
  congr 1
  omega

variable {cipher : StorageCipher}

/-- Without a key the payload stands in the clear behind the header. -/
theorem encodeSlot_plain {s : Snapshot}
    {generation : UInt64} {nonceDomain : UInt32} {encoded : Bytes} (hvalid : s.Valid)
    (hcovers : s.Covers)
    (h : encodeSlot cipher s generation none nonceDomain = .done encoded) :
    ∃ head : Bytes, head.length = headerLen ∧ encoded = head ++ payloadBytes s := by
  obtain ⟨payload, hpayload, hwrap⟩ := encodeSlot_eq_done.mp h
  rw [putPayload_eq hvalid hcovers] at hpayload
  cases hpayload
  cases hwrap
  refine ⟨_, ?_, rfl⟩
  rw [length_append, length_slotHeader]
  rfl

/-! ## The content -/

/-- A snapshot of an older release. -/
def oldSnapshot : Snapshot :=
  { Snapshot.empty (CfcFin.fromU128 100) testCfcName
      (FormFin.fromU128 2) with
    journalSequence := 5
    formGraphPresent := true }

theorem oldSnapshot_valid : oldSnapshot.Valid where
  cfc := show (CfcFin.fromU128 100).isZero = false by decide
  cfcName := show testCfcName.content ≠ [] by decide
  primaryDimension := show (FormFin.fromU128 2).isZero = false by decide
  journalSequence := show (5 : UInt32) ≠ 0 by decide
  nextFin := show (2 : UInt32) ≠ 0 by decide
  nextDimensionFin := show (2 : UInt32) ≠ 0 by decide
  forms := by simp [oldSnapshot, Snapshot.empty]
  content := by simp [oldSnapshot, Snapshot.empty]
  dimensions := by simp [oldSnapshot, Snapshot.empty]
  handles := by simp [oldSnapshot, Snapshot.empty, handlesInvalid]

/-- The octets of the sample Form before its content. -/
def notesHead (revision : UInt32) (length : ℕ) : Bytes :=
  notesForm.fin.bytes.val ++ (textBytes notesForm.name ++
    ([encodeKind .data] ++ (u32Bytes revision ++
      ([encodeLifecycle .active] ++ u16Bytes (UInt16.ofNat length)))))

/-- Where the content of the sample Form stands in its snapshot. -/
theorem payloadBytes_notesAt (revision : UInt32) (bytes : Bytes) (sequence : UInt32) :
    payloadBytes (notesAt revision bytes sequence) =
      payloadHead (notesAt revision bytes sequence) ++
        (replicate 6 0 ++ ([1] ++ (notesHead revision bytes.length ++
          (bytes ++ replicate 75 0)))) := by
  have hforms : tableBytes formBytes
      (notesAt revision bytes sequence).forms = [1] ++ (notesHead revision bytes.length ++
        (bytes ++ replicate 11 0)) := by
    change [1] ++ formBytes _ ++ replicate 11 0 = _
    have hcontent : (ChunkedBlob.fromBytes bytes).content = bytes := ChunkedBlob.content_replace _ _
    simp only [formBytes, hcontent]
    rfl
  simp only [payloadBytes, payloadHead, append_assoc, hforms]
  rfl

/-- A Form content that holds an old slot. -/
def forgedContent : Bytes :=
  List.replicate 7007 0 ++ legacySlot oldSnapshot 1

theorem length_forgedContent : forgedContent.length ≤ formContentCapacity := by
  rw [forgedContent, length_append, length_legacySlot, length_replicate]
  decide

variable {revision sequence : UInt32}

/-- Where the content of the sample Form reaches the seventeenth sector. -/
theorem encoded_notesAt (r : StoredRecord cipher plainConfig base) (hsnapshot : r.snapshot =
      notesAt revision (replicate 7007 0 ++ rest) sequence) :
    ∃ front : Bytes, front.length = 16 * sectorSize ∧
      r.encoded = front ++ (rest ++ replicate 75 0) := by
  obtain ⟨head, hhead, hencoded⟩ := encodeSlot_plain r.admitted.valid r.covers r.encodes
  rw [hsnapshot, payloadBytes_notesAt] at hencoded
  generalize hcontent : replicate 7007 0 ++ rest = content at hencoded
  refine ⟨head ++ payloadHead (notesAt revision content sequence) ++
    replicate 6 0 ++ [1] ++ notesHead revision content.length ++ replicate 7007 0, ?_, ?_⟩
  · simp only [length_append, hhead, length_payloadHead, length_replicate]
    rfl
  · rw [hencoded, ← hcontent]
    simp only [append_assoc]

/-! ## The run -/

/-- The content as it is read at the next boot. -/
def forgedRead : SlotRead where
  snapshot := oldSnapshot
  generation := 1
  slot := 4
  encoded := legacySlot oldSnapshot 1
  base := legacyCheckpointLba 4

section Run

variable {cipher : StorageCipher}
  (r₁ : StoredRecord cipher plainConfig (slotLba 0))
  (r₂ : StoredRecord cipher plainConfig (slotLba 1))

/-- The disk after both commits. -/
def forgedBlocks : ℕ → Sector :=
  partlyWritten (slotLba 1) r₂.encoded (sectorCount r₂.encoded)
    (firstCommitted r₁ plainConfig).device.blocks

/-- The machine after both commits. -/
def forgedMachine : Machine :=
  { firstCommitted r₁ plainConfig with
    device := ⟨forgedBlocks r₁ r₂, []⟩
    store :=
      { RuntimeStore.fresh plainConfig with
        snapshot := some r₂.snapshot
        generation := r₂.generation
        activeSlot := 1 }
    encodings := [r₁.encoding, r₂.encoding] }

theorem forgedMachine_run (hgeneration : r₂.generation = nextGeneration r₁.generation) :
    (commitLocked cipher r₂.snapshot).run (firstCommitted r₁ plainConfig) =
      (.done r₂.generation, forgedMachine r₁ r₂) :=
  commitLocked_quiet (m := firstCommitted r₁ plainConfig) (fun h => absurd rfl h) rfl rfl rfl
    (show (0 : UInt8) ^^^ 1 = 1 by decide) r₂ hgeneration

/-- What the next boot reads. -/
def forgedReads : BootReads where
  slotA := (some (r₁.read 0), false)
  slotB := (some (r₂.read 1), false)
  checkpoint index :=
    if index = 4 then (some forgedRead, true) else (none, true)
  baseline := (none, true)
  blank := true

variable {r₁ r₂}
  (hcount : sectorCount r₁.encoded ≤ legacySlotSectors)
  (hsnapshot : r₂.snapshot = notesAt 2 forgedContent 2)

include hsnapshot

theorem sectorCount_forged : sectorCount r₂.encoded = 41 := by
  obtain ⟨front, hfront, hencoded⟩ := encoded_notesAt r₂ hsnapshot
  rw [sectorCount, hencoded, length_append, length_append, hfront, length_legacySlot]
  decide

/-- The sectors from the sixteenth on spell the old slot. -/
theorem forgedBlocks_legacy {index : ℕ} (hindex : index < 25) :
    forgedBlocks r₁ r₂ (legacyCheckpointLba 4 + index) =
      sectorAt (legacySlot oldSnapshot 1 ++ replicate 75 0)
        index := by
  obtain ⟨front, hfront, hencoded⟩ := encoded_notesAt r₂ hsnapshot
  have hcount := sectorCount_forged hsnapshot
  have hbase : legacyCheckpointLba 4 + index = slotLba 1 + (16 + index) := by
    rw [← Nat.add_assoc]
    rfl
  rw [hbase, forgedBlocks, partlyWritten_all _ (Nat.le_refl _) (by omega)]
  rw [hencoded, sectorAt_append hfront]

include hcount

/-- Beside the two slots the disk is blank, and so is the last sector of the
second one. -/
theorem forgedBlocks_zeros {lba : ℕ} (hlba : legacySlotBLba ≤ lba)
    (hout : lba < slotBLba ∨ legacyCheckpointLba 5 ≤ lba) :
    forgedBlocks r₁ r₂ lba = .zeros sectorSize := by
  rcases eq_or_ne lba (legacyCheckpointLba 5) with rfl | hne
  · change forgedBlocks r₁ r₂ (legacyCheckpointLba 4 + 24) = _
    rw [forgedBlocks_legacy hsnapshot (by decide)]
    have hlen : (legacySlot oldSnapshot 1).length = 24 * sectorSize := length_legacySlot
    exact (sectorAt_append hlen 0).trans (sectorAt_zeros 75)
  rw [forgedBlocks, partlyWritten_outside]
  · exact firstCommitted_zeros r₁ plainConfig hcount lba hlba
  rw [sectorCount_forged hsnapshot]
  change ¬ (192 ≤ lba ∧ lba < 192 + 41)
  change lba < 192 ∨ 232 ≤ lba at hout
  change lba ≠ 232 at hne
  omega

omit hsnapshot in
/-- The second commit leaves the first one alone. -/
theorem forgedBlocks_first : r₁.Whole (forgedBlocks r₁ r₂) := by
  intro index hindex
  rw [forgedBlocks, partlyWritten_outside]
  · exact firstCommitted_whole r₁ plainConfig index hindex
  · change sectorCount r₁.encoded ≤ 24 at hcount
    change ¬ (192 ≤ 64 + index ∧ _)
    omega

omit hcount in
theorem forged_legacyRead : legacyRead cipher plainConfig.storageKey (forgedBlocks r₁ r₂)
      (legacyCheckpointLba 4) 4 = .done forgedRead := by
  rw [legacyRead, regionBytes_of_sectors length_legacySlot fun index h =>
    forgedBlocks_legacy hsnapshot (Nat.lt_succ_of_lt h), decodedRead,
    decodeSlot_legacySlot cipher _ _ 4 oldSnapshot_valid ⟨rfl, rfl, rfl, rfl⟩ (by decide)]
  rfl

theorem forgedReads_match : (forgedReads r₁ r₂).Match cipher plainConfig (forgedBlocks r₁ r₂) := by
  have hcipher := plainConfig_opens cipher
  have hzeros : ∀ {lba}, legacyCheckpointLba 5 ≤ lba →
      forgedBlocks r₁ r₂ lba = .zeros sectorSize := fun h =>
    forgedBlocks_zeros hcount hsnapshot (Nat.le_trans (by decide) h) (.inr h)
  have hfirst : r₁.Whole (forgedBlocks r₁ r₂) := forgedBlocks_first hcount
  have hsecond : r₂.Whole (forgedBlocks r₁ r₂) := fun index hindex =>
    partlyWritten_all _ (Nat.le_refl _) hindex
  refine ⟨(hfirst.headed hcipher).probes_held hcipher hfirst.held_eq _ _,
    (hsecond.headed hcipher).probes_held hcipher hsecond.held_eq _ _,
    fun index hindex => ?_, probes_zeros (hzeros (by decide))
      (legacyUnreadable_zeros (hzeros (by decide))), ?_⟩
  · have hcurrent : forgedBlocks r₁ r₂ (checkpointLba index) = .zeros sectorSize := by
      refine hzeros ?_
      change 232 ≤ 320 + index * 128
      omega
    rcases eq_or_ne index 4 with rfl | hne
    · exact probes_legacy hcurrent (forged_legacyRead hsnapshot)
    simp only [forgedReads, if_neg hne]
    refine probes_zeros hcurrent (legacyUnreadable_zeros ?_)
    refine forgedBlocks_zeros hcount hsnapshot ?_ ?_
    · change 88 ≤ 112 + index * 24
      omega
    · change 112 + index * 24 < 192 ∨ 232 ≤ 112 + index * 24
      omega
  · rw [hzeros (by decide)]
    simp [forgedReads, ByteBlock.zeros]

end Run

theorem notesAt_published {bytes : Bytes}
    {current : Snapshot} (hsettings : current.settings = none) (haccounts : current.accounts = none)
    (hsequence : current.journalSequence < sequence) :
    (notesAt revision bytes sequence).published (some current) =
      notesAt revision bytes sequence := by
  have hnot : ¬ sequence ≤ current.journalSequence := by
    simpa using hsequence
  change ({ notesAt revision bytes sequence with
    settings := current.settings
    accounts := current.accounts
    journalSequence := if sequence ≤ current.journalSequence then _ else sequence } : Snapshot) = _
  rw [if_neg hnot, hsettings, haccounts]
  rfl

/-- Two commits and a boot: the content of a Form is listed as the fifth
checkpoint. -/
theorem forged_boot (cipher : StorageCipher) : ∃ m₁ m₂ m₃ : Machine,
      (commit cipher (notesAt 1 [65] 1)).run (freshMachine plainConfig) = (.done 1, m₁) ∧
      (commit cipher (notesAt 2 forgedContent 2)).run m₁ = (.done 2, m₂) ∧
      (initializeStore cipher plainConfig (.ok minimumDiskSectors)).run
        m₂.restarted = (.done (), m₃) ∧ forgedRead ∈ m₃.accepted ∧
      (∀ e ∈ m₃.encodings, IsRegion e.base) ∧ m₃.store.checkpoints.get 4 =
        some { stateId := 1, journalSequence := 5, slot := 4
               legacy := true } := by
  have hcipher := plainConfig_opens cipher
  have hstores : plainConfig.Stores (notesAt 2 forgedContent 2) :=
    plainConfig_stores (by decide) length_forgedContent (by decide)
  obtain ⟨r₁, hsnapshot₁, hgeneration₁, hcount, hcommit₁⟩ := exists_firstNotes cipher
  obtain ⟨r₂, hsnapshot₂, hgeneration₂⟩ :=
    StoredRecord.exists_of_covers (slotLba 1) hcipher hstores.admitted
      (show (2 : UInt64) ≠ 0 by decide) hstores.covers
  have hsecond := forgedMachine_run r₁ r₂
    (hgeneration₂.trans (congrArg nextGeneration hgeneration₁).symm)
  rw [hsnapshot₂] at hsecond
  have hsame : (notesAt 2 forgedContent 2).published
      (firstCommitted r₁ plainConfig).store.snapshot = notesAt 2 forgedContent 2 := by
    change Snapshot.published _ (some r₁.snapshot) = _
    rw [hsnapshot₁]
    exact notesAt_published rfl rfl (by decide)
  have hcommit₂ := commit_run_same hsame hstores.admitted.valid rfl hsecond
  have hboot := initializeStore_run (m := (forgedMachine r₁ r₂).restarted)
    (forgedReads_match hcount hsnapshot₂) rfl (Nat.le_refl _) rfl
  have howns : plainConfig.owns forgedRead = true := by decide
  refine ⟨_, _, _, hcommit₁, hcommit₂, hboot, ?_, ?_, ?_⟩
  · refine mem_append_right _ (mem_append_left _
      (mem_append_left _ (mem_filterMap.mpr ⟨4, by decide, ?_⟩)))
    simp [forgedReads, howns]
  · intro e he
    rcases mem_pair.mp he with rfl | rfl
    · exact isRegion_slot 0
    · exact isRegion_slot 1
  · change BootReads.checkpointInfo plainConfig (forgedReads r₁ r₂) 4 = _
    rfl

end ExpOS
