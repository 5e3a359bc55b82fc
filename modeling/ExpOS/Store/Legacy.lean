import ExpOS.Store.Probe

/-!
# Records of the old format

The format before the current one keeps the space of an absent record, in
slots of twenty-four sectors.  The store no longer writes it but still reads
it.  A snapshot without any record shows what such a slot looks like: the
fields before the tables, and zeros.
-/

namespace ExpOS

open List Outcome

open Reader

/-- The size of the payload of an old slot. -/
def legacyPayloadLen : ℕ := legacySlotSectors * sectorSize - headerLen

/-- The octets of a payload before its tables. -/
def payloadHead (s : Snapshot) : Bytes :=
  s.primaryDimension.bytes.val ++ (textBytes s.cfcName ++
    (u32Bytes s.nextFin ++ (u32Bytes s.nextDimensionFin ++
      (u32Bytes s.journalSequence ++ ([encodeNetwork s.networkPolicy] ++
        ([encodeFlag s.formGraphPresent] ++ (recordBytes s.settings ++ recordBytes s.accounts)))))))

theorem length_payloadHead (s : Snapshot) : (payloadHead s).length = 1057 := by
  have hsettings : (recordBytes s.settings).length = 33 := length_recordBytes s.settings
  have haccounts : (recordBytes s.accounts).length = 961 := length_recordBytes s.accounts
  simp only [payloadHead, length_append, length_textBytes, u32Bytes,
    Bytes.length_toLeBytes, s.primaryDimension.bytes.property, hsettings,
    haccounts, length_cons, length_nil]

/-- A snapshot without Forms, Dimensions, relationships and Handles. -/
structure Snapshot.NoRecords (s : Snapshot) : Prop where
  dimensions : s.dimensions = SlotTable.empty _ _
  forms : s.forms = SlotTable.empty _ _
  relationships : s.relationships = SlotTable.empty _ _
  handles : s.handles = SlotTable.empty _ _

/-- The header of an old slot up to its checksums. -/
def legacyHeader (s : Snapshot) (generation : UInt64) : Bytes :=
  magic ++ (Bytes.toLeBytes 2 2 ++ (Bytes.toLeBytes 2 headerLen ++
    (Bytes.toLeBytes 4 legacyPayloadLen ++
      (Bytes.toLeBytes 8 generation.toNat ++ (s.cfc.bytes.val ++
        (Bytes.toLeBytes 4 s.journalSequence.toNat ++ List.replicate 4 0))))))

def legacyPayload (s : Snapshot) : Bytes :=
  payloadHead s ++ List.replicate (legacyPayloadLen - 1057) 0

/-- The old slot of a snapshot without records and without a key. -/
def legacySlot (s : Snapshot) (generation : UInt64) : Bytes :=
  legacyHeader s generation ++ (slotChecksums (legacyHeader s generation) (legacyPayload s) ++
      legacyPayload s)

section Shape

variable {s : Snapshot} {generation : UInt64}

theorem length_legacyHeader : (legacyHeader s generation).length = 48 := by
  simp [legacyHeader, s.cfc.bytes.property]

theorem length_legacyPayload : (legacyPayload s).length = legacyPayloadLen := by
  rw [legacyPayload, length_append, length_payloadHead, length_replicate]
  rfl

theorem length_legacySlot : (legacySlot s generation).length = legacySlotSectors * sectorSize := by
  simp only [legacySlot, length_append, length_legacyHeader,
    length_slotChecksums, length_legacyPayload]
  rfl

theorem legacySlot_version : wordAt (legacySlot s generation) 8 2 = 2 :=
  wordAt_eq magic _ (by simp only [legacySlot]; rfl) length_magic (by decide)

/-- Behind the version an old header has the fields of a new one. -/
theorem drop_legacySlot {offset : ℕ} (h : 10 ≤ offset) : (legacySlot s generation).drop offset =
      (slotHeader s generation legacyPayloadLen 0 ++ (slotChecksums (legacyHeader s generation)
        (legacyPayload s) ++ legacyPayload s)).drop offset := by
  obtain ⟨k, rfl⟩ := Nat.exists_eq_add_of_le h
  rw [← drop_drop, ← drop_drop]
  simp only [legacySlot, legacyHeader, slotHeader, append_assoc]
  rfl

theorem wordAt_legacySlot {offset width : ℕ} (h : 10 ≤ offset) :
    wordAt (legacySlot s generation) offset width =
      wordAt (slotHeader s generation legacyPayloadLen 0 ++ (slotChecksums
        (legacyHeader s generation) (legacyPayload s) ++ legacyPayload s)) offset width := by
  rw [wordAt, wordAt, drop_legacySlot h]

theorem legacySlot_cfc : blockAt (legacySlot s generation) 24 16 = .done s.cfc.bytes := by
  rw [blockAt]
  simp only [drop_legacySlot (show 10 ≤ 24 by decide)]
  exact cfc_frame

theorem legacySlot_wellShaped : wellShaped (legacySlot s generation) := by
  refine ⟨?_, take_left' length_magic, ?_, ?_, ?_, ?_⟩
  · rw [length_legacySlot]
    decide
  · rw [legacySlot_version]
    decide
  · rw [legacySlot_version]
    decide
  · rw [wordAt_legacySlot (by decide), headerLen_frame]
  · rw [wordAt_legacySlot (by decide), payloadLen_frame (by decide), length_legacySlot]
    rfl

theorem openSlot_legacySlot (cipher : StorageCipher)
    (key : Option (ByteBlock storageKeyLen)) (nonceDomain : UInt32) :
    openSlot cipher (legacySlot s generation) key nonceDomain =
      .done (legacySlot s generation) := by
  have hplain : ¬ isEncrypted (legacySlot s generation) := by
    rw [isEncrypted, wordAt_legacySlot (show 10 ≤ 44 by decide), flag_frame]
    simp
  rw [openSlot, if_neg hplain]
  exact if_neg (checksums_match length_legacyHeader)

end Shape

/-! ## Reading -/

variable {α : Type} (recordLen : ℕ) (reader : SlotReader α)

/-- A cell of the old format without a record. -/
theorem consumes_absent :
    Consumes (SlotReader.slot true recordLen reader) (List.replicate (1 + recordLen) 0) none := by
  rw [replicate_add]
  refine (consumes_byte () 0).bind ?_
  have hskip : Consumes (Reader.skip recordLen : SlotReader Unit) (replicate recordLen 0) () :=
    consumes_skip length_replicate
  exact hskip.bind_nil (consumes_pure none)

theorem consumes_absentCells (count : ℕ) :
    Consumes (Reader.times (SlotReader.slot true recordLen reader) count)
      (List.replicate (count * (1 + recordLen)) 0)
      ⟨List.replicate count none, List.length_replicate⟩ := by
  induction count with
  | zero =>
    rw [Nat.zero_mul]
    exact consumes_pure _
  | succ count ih =>
    have hlen : (count + 1) * (1 + recordLen) = 1 + recordLen + count * (1 + recordLen) := by
      rw [Nat.succ_mul, Nat.add_comm]
    rw [hlen, replicate_add]
    refine (consumes_absent recordLen reader).bind ?_
    exact ih.bind_nil (consumes_pure _)

/-- A table of the old format without records. -/
theorem consumes_absentTable (capacity : ℕ) (reader : SlotReader α) :
    Consumes (SlotReader.table true recordLen capacity reader)
      (List.replicate (capacity * (1 + recordLen)) 0) (.empty α capacity) :=
  (consumes_absentCells recordLen reader capacity).bind_nil (consumes_pure _)

/-- The size of the four tables of the old format. -/
def legacyTablesLen : ℕ := 6 * 51 + (12 * 570 + (48 * 51 + 16 * 68))

variable {s : Snapshot}

/-- An old payload without records is read as its snapshot. -/
theorem consumes_legacyPayload (hname : s.cfcName.content ≠ []) (hs : s.NoRecords) :
    Consumes (SlotReader.payload true s.cfc s.journalSequence.toNat)
      (payloadHead s ++ List.replicate legacyTablesLen 0) s := by
  have htables : replicate legacyTablesLen (0 : UInt8) =
      replicate (6 * 51) 0 ++ (replicate (12 * 570) 0 ++
        (replicate (48 * 51) 0 ++ replicate (16 * 68) 0)) := by
    simp only [legacyTablesLen, replicate_add]
  rw [htables]
  simp only [payloadHead, recordBytes, append_assoc]
  refine (consumes_fin _).bind ((consumes_text hname).bind
    ((consumes_u32 _).bind ((consumes_u32 _).bind
      ((consumes_u32 _).bind ((consumes_require rfl).nil_bind
        ((consumes_decode (decodeNetwork_encodeNetwork _)).bind ((consumes_flag _).bind ?_)))))))
  refine (consumes_byte () _).bind ((consumes_block _).bind
    ((consumes_byte () _).bind ((consumes_block _).bind ((consumes_require
        ⟨encodeFlag_le _, encodeFlag_le _⟩).nil_bind ?_))))
  refine (consumes_absentTable _ _ _).bind
    ((consumes_absentTable _ _ _).bind ((consumes_absentTable _ _ _).bind
      ((consumes_absentTable _ _ _).bind_nil ?_)))
  rw [restore_record, restore_record, ← hs.dimensions, ← hs.forms, ← hs.relationships, ← hs.handles]
  exact consumes_pure s

/-- The fields and tables of an old payload stand behind the header. -/
theorem legacySlot_split (s : Snapshot) (generation : UInt64) :
    ∃ before after : Bytes, before.length = headerLen ∧ legacySlot s generation = before ++
        (payloadHead s ++ List.replicate legacyTablesLen 0) ++ after := by
  have hzeros : replicate (legacyPayloadLen - 1057) (0 : UInt8) =
      replicate legacyTablesLen 0 ++
        replicate (legacyPayloadLen - 1057 - legacyTablesLen) 0 := by
    rw [← replicate_add, Nat.add_sub_of_le (by decide)]
  refine ⟨legacyHeader s generation ++ slotChecksums (legacyHeader s generation) (legacyPayload s),
    replicate (legacyPayloadLen - 1057 - legacyTablesLen) 0, ?_, ?_⟩
  · rw [length_append, length_legacyHeader]
    rfl
  · generalize hsum : slotChecksums (legacyHeader s generation) (legacyPayload s) = sums
    rw [legacySlot, hsum, legacyPayload, hzeros]
    simp only [append_assoc]

theorem decodeSlot_of_openSlot {cipher : StorageCipher}
    {encoded decoded : Bytes} {key : Option (ByteBlock storageKeyLen)}
    {nonceDomain : UInt32} (slot : UInt8) (hshape : wellShaped encoded)
    (hopen : openSlot cipher encoded key nonceDomain = .done decoded) :
    decodeSlot cipher encoded slot key nonceDomain = readRecords decoded slot := by
  have hlong : ¬ encoded.length < 10 := by
    have hlen := hshape.1
    simp only [headerLen] at hlen
    omega
  rw [decodeSlot, if_neg hlong, if_neg (not_not.mpr hshape), hopen, done_bind]

/-- An old slot without records decodes to its snapshot. -/
theorem decodeSlot_legacySlot (cipher : StorageCipher)
    (key : Option (ByteBlock storageKeyLen)) (nonceDomain : UInt32)
    {generation : UInt64} (slot : UInt8) (hvalid : s.Valid)
    (hs : s.NoRecords) (hne : generation ≠ 0) :
    decodeSlot cipher (legacySlot s generation) slot key nonceDomain =
      .done { snapshot := s, generation, slot } := by
  obtain ⟨before, after, hbefore, hsplit⟩ := legacySlot_split s generation
  have hpayload := consumes_legacyPayload hvalid.cfcName hs before after
  rw [← hsplit, hbefore] at hpayload
  rw [decodeSlot_of_openSlot slot legacySlot_wellShaped
    (openSlot_legacySlot cipher key nonceDomain)]
  exact readRecords_of_payload slot (by rw [legacySlot_version]; rfl) hpayload
    ((wordAt_legacySlot (by decide)).trans generation_frame) legacySlot_cfc
    ((wordAt_legacySlot (by decide)).trans journal_frame) hne hvalid

end ExpOS
