import ExpOS.Store.RoundTrip

/-!
# Where the slot decoder panics

The decoder rejects nearly everything it cannot read, but it builds a
Dimension or a Form as soon as it has read its fields, and the constructors
assert that the FIN is not zero.  The older formats also slice a record of
fixed size at a length that is only checked against the present limit.  These
are the only panics: the decoder returns exactly when it comes to no such
record.
-/

namespace ExpOS

open List Outcome

open Effect

open Reader

namespace SlotReader

/-! ## Readers that never halt -/

/-- The longest record that the older formats skip. -/
def maxRecordLen : ℕ :=
  16 + 1 + 32 + 1 + 4 + 1 + 2 + legacyFormContentCapacity

theorem tame_u16 : Tame maxRecordLen u16 :=
  (tame_word () 2).bind fun _ => tame_pure _

theorem tame_u32 : Tame maxRecordLen u32 :=
  (tame_word () 4).bind fun _ => tame_pure _

theorem tame_u64 : Tame maxRecordLen u64 :=
  (tame_word () 8).bind fun _ => tame_pure _

variable {α : Type}

theorem tame_ofOption (value : Option α) : Tame maxRecordLen (ofOption value) := by
  refine tame_lift ?_
  cases value with
  | none => simp
  | some a => simp

theorem tame_decode (decode : UInt8 → Option α) :
    Tame maxRecordLen (byte >>= fun value => ofOption (decode value)) :=
  (tame_byte ()).bind fun _ => tame_ofOption _

theorem tame_block (length : ℕ) : Tame maxRecordLen (block length) :=
  (tame_take () length).bind fun _ => tame_ofOption _

theorem tame_fin : Tame maxRecordLen fin :=
  (tame_take () 16).bind fun _ => tame_pure _

theorem tame_text : Tame maxRecordLen text :=
  (tame_byte ()).bind fun _ => (tame_take () 32).bind fun _ =>
    (tame_require _ _).bind fun _ => tame_ofOption _

theorem tame_flag : Tame maxRecordLen flag := tame_decode _

theorem tame_relationship : Tame maxRecordLen relationship :=
  tame_fin.bind fun _ => tame_fin.bind fun _ => (tame_decode _).bind fun _ =>
    (tame_byte ()).bind fun _ => tame_fin.bind fun _ => (tame_ofOption _).bind fun _ => tame_pure _

theorem tame_handle (cfc : CfcFin) : Tame maxRecordLen (handle cfc) :=
  tame_u32.bind fun _ => tame_u32.bind fun _ => tame_fin.bind fun _ =>
    tame_fin.bind fun _ => tame_fin.bind fun _ =>
      (tame_u16.bind fun _ => tame_ofOption _).bind fun _ =>
        tame_u64.bind fun _ => tame_flag.bind fun _ => tame_pure _

/-! ## The fields of a record -/

/-- The fields of a Dimension record. -/
structure DimensionFields where
  fin : FormFin
  name : Text
  securityBoundary : Bool

def dimensionFields : SlotReader DimensionFields := do
  let fin ← fin
  let name ← text
  let securityBoundary ← flag
  pure { fin, name, securityBoundary }

/-- The fields of a Form record. -/
structure FormFields where
  fin : FormFin
  name : Text
  kind : FormKind
  revision : UInt32
  lifecycle : Lifecycle
  contentLen : UInt16
  stored : Bytes

def formFields (fixedRecords : Bool) : SlotReader FormFields := do
  let fin ← fin
  let name ← text
  let kind ← byte >>= fun value => ofOption (decodeKind value)
  let revision ← u32
  let lifecycle ← byte >>= fun value => ofOption (decodeLifecycle value)
  let contentLen ← u16
  Reader.require () (contentLen.toNat ≤ formContentCapacity)
  let stored ← take
    (if fixedRecords then legacyFormContentCapacity
      else contentLen.toNat)
  pure { fin, name, kind, revision, lifecycle, contentLen, stored }

/-- The fields before the records. -/
structure PayloadFields where
  primaryDimension : FormFin
  cfcName : Text
  nextFin : UInt32
  nextDimensionFin : UInt32
  journalSequence : UInt32
  networkPolicy : NetworkPolicy
  formGraphPresent : Bool
  settings : Option (ByteBlock settingsRecordCapacity)
  accounts : Option (ByteBlock accountsRecordCapacity)

def payloadFields (journal : ℕ) : SlotReader PayloadFields := do
  let primaryDimension ← fin
  let cfcName ← text
  let nextFin ← u32
  let nextDimensionFin ← u32
  let journalSequence ← u32
  Reader.require () (journalSequence.toNat = journal)
  let networkPolicy ← byte >>= fun value => ofOption (decodeNetwork value)
  let formGraphPresent ← flag
  let settingsPresent ← byte
  let settings ← block settingsRecordCapacity
  let accountsPresent ← byte
  let accounts ← block accountsRecordCapacity
  Reader.require () (settingsPresent ≤ 1 ∧ accountsPresent ≤ 1)
  pure
    { primaryDimension, cfcName, nextFin, nextDimensionFin,
      journalSequence, networkPolicy, formGraphPresent
      settings := if settingsPresent = 1 then some settings else none
      accounts := if accountsPresent = 1 then some accounts else none }

theorem dimension_eq : dimension = (do
    let fields ← dimensionFields
    Reader.lift (Dimension.new fields.fin fields.name.content fields.securityBoundary)) := by
  simp only [dimension, dimensionFields, bind_assoc, pure_bind]

variable (fixedRecords : Bool)

theorem form_eq : form fixedRecords = (do
    let fields ← formFields fixedRecords
    let form ← Reader.lift (Form.new fields.fin fields.name.content fields.kind)
    Reader.lift (if fields.contentLen.toNat ≤ fields.stored.length
      then .done () else .halt)
    pure
      { form :=
          { form with
            revision := fields.revision
            lifecycle := fields.lifecycle }
        content := .fromBytes (fields.stored.take fields.contentLen.toNat) }) := by
  simp only [form, formFields, bind_assoc, pure_bind]

theorem payload_eq (cfc : CfcFin) (journal : ℕ) :
    payload fixedRecords cfc journal = (do
      let fields ← payloadFields journal
      let dimensions ← table fixedRecords (16 + 1 + 32 + 1) maxStoredDimensions dimension
      let forms ← table fixedRecords (16 + 1 + 32 + 1 + 4 + 1 + 2 + legacyFormContentCapacity)
        maxStoredForms (form fixedRecords)
      let relationships ← table fixedRecords (16 + 16 + 1 + 1 + 16)
        maxStoredRelationships relationship
      let handles ← table fixedRecords (4 + 4 + 16 + 16 + 16 + 2 + 8 + 1)
        maxStoredHandles (handle cfc)
      pure
        { cfc
          cfcName := fields.cfcName
          primaryDimension := fields.primaryDimension
          forms, dimensions, relationships, handles
          nextFin := fields.nextFin
          nextDimensionFin := fields.nextDimensionFin
          journalSequence := fields.journalSequence
          networkPolicy := fields.networkPolicy
          formGraphPresent := fields.formGraphPresent
          settings := fields.settings
          accounts := fields.accounts }) := by
  simp only [payload, payloadFields, bind_assoc, pure_bind]

theorem tame_dimensionFields : Tame maxRecordLen dimensionFields :=
  tame_fin.bind fun _ => tame_text.bind fun _ => tame_flag.bind fun _ => tame_pure _

theorem tame_formFields : Tame maxRecordLen (formFields fixedRecords) :=
  tame_fin.bind fun _ => tame_text.bind fun _ => (tame_decode _).bind fun _ =>
    tame_u32.bind fun _ => (tame_decode _).bind fun _ =>
      tame_u16.bind fun _ => (tame_require _ _).bind fun _ =>
        (tame_take () _).bind fun _ => tame_pure _

variable (journal : ℕ)

theorem tame_payloadFields : Tame maxRecordLen (payloadFields journal) :=
  tame_fin.bind fun _ => tame_text.bind fun _ => tame_u32.bind fun _ =>
    tame_u32.bind fun _ => tame_u32.bind fun _ =>
      (tame_require _ _).bind fun _ => (tame_decode _).bind fun _ =>
        tame_flag.bind fun _ => (tame_byte ()).bind fun _ =>
          (tame_block _).bind fun _ => (tame_byte ()).bind fun _ =>
            (tame_block _).bind fun _ => (tame_require _ _).bind fun _ => tame_pure _

variable (input : Bytes)

theorem yields_text : Yields (fun name : Text => name.content ≠ []) (text input) := by
  refine Yields.bind fun length => Yields.bind fun octets => Yields.bind fun _ => ?_
  intro offset name stop h
  obtain ⟨hdone, -⟩ := Prod.mk.inj h
  have hnew := ofOption_eq_done.mp hdone
  rcases htext : Text.new (octets.take length.toNat) with _ | text
  · rw [htext] at hnew
    cases hnew
  rw [htext] at hnew
  cases hnew
  obtain ⟨hcontent, hne⟩ := Text.content_of_new htext
  rwa [hcontent]

theorem yields_dimensionFields : Yields (fun fields : DimensionFields =>
      fields.name.content ≠ []) (dimensionFields input) := by
  refine Yields.bind fun fin => (yields_text input).bind_yields fun name hname =>
      Yields.bind fun boundary => ?_
  exact yields_pure hname

/-- The name of a Form is not empty.  The content of a fixed record has a
fixed size; otherwise it has the size the record states. -/
theorem yields_formFields : Yields (fun fields : FormFields => fields.name.content ≠ [] ∧
      fields.stored.length = if fixedRecords
        then legacyFormContentCapacity else fields.contentLen.toNat)
      (formFields fixedRecords input) := by
  refine Yields.bind fun fin => (yields_text input).bind_yields fun name hname =>
      Yields.bind fun kind => Yields.bind fun revision => Yields.bind fun lifecycle =>
          Yields.bind fun contentLen => Yields.bind fun _ =>
              (yields_take () _ input).bind_yields fun stored hstored => ?_
  exact yields_pure ⟨hname, hstored⟩

/-! ## A record that cannot be built -/

/-- A record that is present. -/
def present (record : SlotReader α) : SlotReader α := do
  let present ← byte
  Reader.require () (present = 1)
  record

theorem safe_byte : Safe byte := (@tame_byte _ 0 ()).safe

variable {record : SlotReader α}

theorem safe_present (h : Safe record) : Safe (present record) :=
  safe_byte.bind fun _ => (safe_require _ _).bind fun _ => h

theorem present_bind {β : Type} (record : SlotReader α) (next : α → SlotReader β) :
    present (record >>= next) = present record >>= next := by
  simp only [present, bind_assoc]

theorem yields_present {Q : α → Prop}
    (h : ∀ input, Yields Q (record input)) (input : Bytes) : Yields Q (present record input) :=
  Yields.bind fun _ => Yields.bind fun _ => h input

section Records

variable {input : Bytes} {offset : ℕ} {fixedRecords : Bool} {recordLen : ℕ}

theorem halts_slot : Halts (slot fixedRecords recordLen record) input offset ↔
      Halts (present record) input offset := by
  rw [slot, present, safe_byte.halts_bind, safe_byte.halts_bind]
  refine exists_congr fun value => exists_congr fun stop => and_congr_right fun _ => ?_
  by_cases hzero : value = 0
  · subst hzero
    constructor
    · intro h
      exact absurd h (((safe_skip _).bind fun _ => safe_pure _) _ _)
    · intro h
      cases h
  · rw [if_neg hzero, (safe_require _ _).halts_bind, (safe_require _ _).halts_bind]
    refine exists_congr fun _ => exists_congr fun stop' => and_congr_right fun _ => ?_
    exact halts_bind_safe fun _ => safe_pure _

theorem halts_table {capacity : ℕ} :
    Halts (table fixedRecords recordLen capacity record) input offset ↔
      ∃ k < capacity, ∃ items stop, (Reader.times (slot fixedRecords recordLen record) k input).run
            offset = (.done items, stop) ∧ Halts (present record) input stop := by
  rw [table, halts_bind_safe fun _ => safe_pure _, halts_times]
  simp only [halts_slot]

theorem safe_table (h : Safe record) (fixedRecords : Bool) (recordLen capacity : ℕ) :
    Safe (table fixedRecords recordLen capacity record) := by
  intro input offset hhalts
  obtain ⟨k, -, items, stop, -, hstop⟩ := halts_table.mp hhalts
  exact safe_present h input stop hstop

variable (input offset) in
/-- A Dimension is present at the offset and its FIN is zero. -/
def ZeroDimension : Prop :=
  ∃ fields stop,
    (present dimensionFields input).run offset = (.done fields, stop) ∧
      fields.fin.isZero = true

variable (input offset) in
/-- A Form is present at the offset whose FIN is zero, or whose content is
longer than the fixed record that holds it. -/
def UnusableForm (fixedRecords : Bool) : Prop :=
  ∃ fields stop,
    (present (formFields fixedRecords) input).run offset =
        (.done fields, stop) ∧
      (fields.fin.isZero = true ∨ fixedRecords = true ∧
        legacyFormContentCapacity < fields.contentLen.toNat)

theorem halts_dimension : Halts (present dimension) input offset ↔ ZeroDimension input offset := by
  rw [dimension_eq, present_bind, (safe_present tame_dimensionFields.safe).halts_bind]
  refine exists_congr fun fields => exists_congr fun stop => and_congr_right fun hrun => ?_
  have hname := yields_present yields_dimensionFields input _ _ _ hrun
  rw [halts_lift]
  rcases hzero : fields.fin.isZero with _ | _
  · rw [Dimension.new_eq _ hzero hname]
    simp
  · simp [Dimension.new, hzero]

theorem halts_form : Halts (present (form fixedRecords)) input offset ↔
      UnusableForm input offset fixedRecords := by
  rw [form_eq, present_bind, (safe_present (tame_formFields fixedRecords).safe).halts_bind]
  refine exists_congr fun fields => exists_congr fun stop => and_congr_right fun hrun => ?_
  obtain ⟨hname, hstored⟩ := yields_present (yields_formFields fixedRecords) input _ _ _ hrun
  rcases hzero : fields.fin.isZero with _ | _
  · rw [Form.new_eq _ hzero hname]
    have hlong : Halts (Reader.lift (ε := Unit) (if fields.contentLen.toNat ≤ fields.stored.length
          then .done () else .halt)) input stop ↔
        fixedRecords = true ∧ legacyFormContentCapacity < fields.contentLen.toNat := by
      rw [halts_lift, hstored]
      cases fixedRecords with
      | false => simp
      | true => simp
    change Halts (Reader.lift _ >>= fun _ => pure _) input stop ↔ _
    rw [halts_bind_safe fun _ => safe_pure _, hlong]
    simp
  · simp [Form.new, hzero, halts_bind, halts_lift]

end Records

/-! ## The records the decoder comes to -/

section Payload

variable (fixedRecords : Bool) (journal : ℕ) (input : Bytes) (offset : ℕ)

/-- The decoder comes to a Dimension at the offset: the fields before the
records and the Dimensions before it are read. -/
def ReachesDimension : Prop :=
  ∃ k < maxStoredDimensions, ∃ before,
    ((do
      let _ ← payloadFields journal
      Reader.times (slot fixedRecords (16 + 1 + 32 + 1) dimension) k)
      input).run headerLen = (.done before, offset)

/-- The decoder comes to a Form at the offset. -/
def ReachesForm : Prop :=
  ∃ k < maxStoredForms, ∃ before,
    ((do
      let _ ← payloadFields journal
      let _ ← table fixedRecords (16 + 1 + 32 + 1) maxStoredDimensions
        dimension
      Reader.times (slot fixedRecords
        (16 + 1 + 32 + 1 + 4 + 1 + 2 + legacyFormContentCapacity)
        (form fixedRecords)) k)
      input).run headerLen = (.done before, offset)

/-- The decoder comes to a record it cannot build. -/
def ComesToUnusable : Prop :=
  ∃ offset,
    ReachesDimension fixedRecords journal input offset ∧
        ZeroDimension input offset ∨
      ReachesForm fixedRecords journal input offset ∧
        UnusableForm input offset fixedRecords

theorem halts_payload (cfc : CfcFin) : Halts (payload fixedRecords cfc journal) input headerLen ↔
      ComesToUnusable fixedRecords journal input := by
  rw [payload_eq, (tame_payloadFields journal).safe.halts_bind]
  constructor
  · rintro ⟨fields, start, hfields, h⟩
    rcases halts_bind.mp h with h | ⟨dimensions, middle, hdimensions, h⟩
    · obtain ⟨k, hk, items, stop, hitems, hstop⟩ := halts_table.mp h
      exact ⟨stop, .inl ⟨⟨k, hk, items, run_bind_eq_done.mpr ⟨fields, start, hfields, hitems⟩⟩,
        halts_dimension.mp hstop⟩⟩
    -- relationships and handles are plain data: reading them never halts
    rw [halts_bind_safe fun forms => (safe_table tame_relationship.safe _ _ _).bind fun _ =>
        (safe_table (tame_handle cfc).safe _ _ _).bind fun _ => safe_pure _] at h
    obtain ⟨k, hk, items, stop, hitems, hstop⟩ := halts_table.mp h
    exact ⟨stop, .inr ⟨⟨k, hk, items, run_bind_eq_done.mpr ⟨fields, start, hfields,
        run_bind_eq_done.mpr ⟨dimensions, middle, hdimensions, hitems⟩⟩⟩, halts_form.mp hstop⟩⟩
  · rintro ⟨stop, ⟨⟨k, hk, items, hrun⟩, hzero⟩ | ⟨⟨k, hk, items, hrun⟩, hform⟩⟩
    · obtain ⟨fields, start, hfields, hitems⟩ := run_bind_eq_done.mp hrun
      refine ⟨fields, start, hfields, halts_bind.mpr (.inl ?_)⟩
      exact halts_table.mpr ⟨k, hk, items, stop, hitems, halts_dimension.mpr hzero⟩
    · obtain ⟨fields, start, hfields, hrun⟩ := run_bind_eq_done.mp hrun
      obtain ⟨dimensions, middle, hdimensions, hitems⟩ := run_bind_eq_done.mp hrun
      refine ⟨fields, start, hfields, halts_bind.mpr (.inr
        ⟨dimensions, middle, hdimensions, halts_bind.mpr (.inl ?_)⟩)⟩
      exact halts_table.mpr ⟨k, hk, items, stop, hitems, halts_form.mpr hform⟩

end Payload

/-! ## The cursor -/

variable {slack recordLen : ℕ}

theorem within_slot (hlen : recordLen ≤ slack) (h : Within slack record) :
    Within slack (slot fixedRecords recordLen record) := by
  refine within_byte_bind () fun value input offset hoffset => ?_
  split
  · change offset + (if fixedRecords then recordLen else 0) ≤ _
    split
    · omega
    · omega
  · exact ((within_require _ _).bind fun _ => h.bind fun _ =>
      within_pure _) input offset (Nat.le_add_right_of_le hoffset)

theorem within_table (hlen : recordLen ≤ slack) (h : Within slack record) (capacity : ℕ) :
    Within slack (table fixedRecords recordLen capacity record) :=
  (within_times (within_slot fixedRecords hlen h) capacity).bind fun _ => within_pure _

theorem within_payload (cfc : CfcFin) (journal : ℕ) :
    Within maxRecordLen (payload fixedRecords cfc journal) := by
  have hdimension : Within maxRecordLen dimension := by
    rw [dimension_eq]
    exact tame_dimensionFields.within.bind fun _ => within_lift _
  have hform : Within maxRecordLen (form fixedRecords) := by
    rw [form_eq]
    exact (tame_formFields fixedRecords).within.bind fun _ =>
      (within_lift _).bind fun _ => (within_lift _).bind fun _ => within_pure _
  rw [payload_eq]
  exact (tame_payloadFields journal).within.bind fun _ =>
    (within_table _ (by decide) hdimension _).bind fun _ =>
      (within_table _ (by decide) hform _).bind fun _ =>
        (within_table _ (by decide) tame_relationship.within _).bind
          fun _ => (within_table _ (by decide)
            (tame_handle cfc).within _).bind fun _ => within_pure _

end SlotReader

/-! ## The whole decoder -/

/-- Reading the records of an opened slot comes to one that cannot be
built. -/
def Unreadable (clear : Bytes) : Prop :=
  UInt64.ofNat (wordAt clear 16 8) ≠ 0 ∧
    SlotReader.ComesToUnusable (decide (wordAt clear 8 2 ≤ 2))
      (wordAt clear 40 4) clear

theorem blockAt_eq_some {octets : Bytes} {offset length : ℕ} (h : offset + length ≤ octets.length) :
    ∃ block, blockAt octets offset length = .done block := by
  have hlen : ((octets.drop offset).take length).length = length := by
    rw [length_take, length_drop]
    exact Nat.min_eq_left (by omega)
  exact ⟨⟨_, hlen⟩, by rw [blockAt, dif_pos hlen]; rfl⟩

variable {clear : Bytes}

theorem readRecords_halts_iff (slot : UInt8) (hlen : headerLen ≤ clear.length) :
    readRecords clear slot = .halt ↔ Unreadable clear := by
  obtain ⟨cfc, hcfc⟩ : ∃ cfc, blockAt clear 24 16 = .done cfc :=
    blockAt_eq_some (by rw [headerLen] at hlen; omega)
  rw [readRecords, Unreadable]
  by_cases hzero : UInt64.ofNat (wordAt clear 16 8) = 0
  · simp [hzero]
  rw [if_neg hzero, hcfc, done_bind, and_iff_right hzero, ← SlotReader.halts_payload _ _ _
      (CfcFin.fromU128 (Bytes.fromBeBytes cfc.val)), Halts]
  dsimp only
  rcases ((SlotReader.payload (decide (wordAt clear 8 2 ≤ 2))
    (CfcFin.fromU128 (Bytes.fromBeBytes cfc.val)) (wordAt clear 40 4)
      clear).run headerLen).1 with snapshot | e | _
  · rw [done_bind]
    rcases validateSnapshot snapshot with _ | _
    · simp
    · simp
  · simp
  · simp

theorem readRecords_valid {slot : UInt8} {decoded : DecodedSlot}
    (h : readRecords clear slot = .done decoded) : validateSnapshot decoded.snapshot = .ok () := by
  rw [readRecords] at h
  split at h
  · cases h
  obtain ⟨cfc, -, h⟩ := bind_eq_done.mp h
  obtain ⟨snapshot, -, h⟩ := bind_eq_done.mp h
  split at h
  · next hvalid =>
      cases h
      exact hvalid
  · cases h

variable (cipher : StorageCipher) (key : Option (ByteBlock storageKeyLen)) (nonceDomain : UInt32)

theorem openSlot_spec {encoded : Bytes}
    (hlen : headerLen ≤ encoded.length) : openSlot cipher encoded key nonceDomain = .fail () ∨
      ∃ clear, openSlot cipher encoded key nonceDomain = .done clear ∧
        clear.length = encoded.length := by
  obtain ⟨cfc, hcfc⟩ : ∃ cfc, blockAt encoded 24 16 = .done cfc :=
    blockAt_eq_some (by rw [headerLen] at hlen; omega)
  obtain ⟨tag, htag⟩ : ∃ tag, blockAt encoded 48 storageTagLen = .done tag :=
    blockAt_eq_some (by rw [headerLen] at hlen; exact hlen)
  rw [openSlot]
  split
  · split
    · exact .inl rfl
    cases key with
    | none => exact .inl rfl
    | some key =>
      rw [ofOption_some, done_bind, hcfc, done_bind, htag, done_bind]
      rcases hopen : cipher.openStorage key
          (storageNonce key cfc (UInt64.ofNat (wordAt encoded 16 8))
            nonceDomain) (encoded.take 48) (encoded.drop headerLen)
          tag with _ | plain
      · exact .inl rfl
      · refine .inr ⟨_, rfl, ?_⟩
        rw [length_append, length_take, cipher.length_open _ _ _ _ _ _ hopen, length_drop]
        omega
  · split
    · exact .inl rfl
    · exact .inr ⟨encoded, rfl, rfl⟩

/-- The decoder returns, and what it returns is valid, unless it comes to a
record it cannot build.  The cursor stays within one record of the slot. -/
theorem decodeSlot_returns_iff (cipher : StorageCipher) (encoded : Bytes)
    (slot : UInt8) (key : Option (ByteBlock storageKeyLen))
    (nonceDomain : UInt32) (hlen : headerLen ≤ encoded.length) :
    ((decodeSlot cipher encoded slot key nonceDomain = .fail () ∨
        ∃ decoded, decodeSlot cipher encoded slot key nonceDomain = .done decoded ∧
          validateSnapshot decoded.snapshot = .ok ()) ↔
      ¬ ∃ clear, wellShaped encoded ∧ openSlot cipher encoded key nonceDomain = .done clear ∧
          Unreadable clear) ∧
    ∀ clear fixedRecords cfc journal, openSlot cipher encoded key nonceDomain = .done clear →
        ((SlotReader.payload fixedRecords cfc journal clear).run
          headerLen).2 ≤ encoded.length + SlotReader.maxRecordLen := by
  have hlong : ¬ encoded.length < 10 := by
    rw [headerLen] at hlen
    omega
  constructor
  · rw [decodeSlot, if_neg hlong]
    by_cases hshape : wellShaped encoded
    · rw [if_neg (not_not.mpr hshape)]
      rcases openSlot_spec cipher key nonceDomain hlen with hopen | ⟨clear, hopen, hclear⟩
      · simp [hopen]
      have hiff := readRecords_halts_iff slot (hclear ▸ hlen)
      have hunique : (∃ clear', wellShaped encoded ∧
          openSlot cipher encoded key nonceDomain = .done clear' ∧
            Unreadable clear') ↔ Unreadable clear := by
        rw [hopen]
        simp [hshape]
      rw [hunique, ← hiff, hopen, done_bind]
      rcases hread : readRecords clear slot with decoded | ⟨⟩ | _
      · simp [readRecords_valid hread]
      · simp
      · simp
    · rw [if_pos hshape]
      simp [hshape]
  · intro clear fixedRecords cfc journal hopen
    rcases openSlot_spec cipher key nonceDomain hlen with hfail | ⟨clear', hopen', hclear⟩
    · rw [hfail] at hopen
      cases hopen
    rw [hopen'] at hopen
    cases hopen
    rw [← hclear]
    exact SlotReader.within_payload fixedRecords cfc journal clear
      headerLen (Nat.le_add_right_of_le (hclear ▸ hlen))

theorem oneFormSnapshot_readable : ∃ encoded, encodeSlot clearCipher
        (oneFormSnapshot (ChunkedBlob.fromBytes [104, 105])) 1
        (some (ByteBlock.zeros storageKeyLen)) 64 = .done encoded ∧ headerLen ≤ encoded.length ∧
      ¬ ∃ clear, wellShaped encoded ∧ openSlot clearCipher encoded
          (some (ByteBlock.zeros storageKeyLen)) 64 = .done clear ∧ Unreadable clear := by
  have hvalid : (oneFormSnapshot (.fromBytes [104, 105])).Valid :=
    oneFormSnapshot_valid (show 2 ≤ 32 * 1024 by decide)
  obtain ⟨encoded, hencode, hlen, hdecode⟩ :=
    @encodeSlot_roundTrip clearCipher _ 1 (some (.zeros storageKeyLen)) 64 0 hvalid
      oneFormSnapshot_relationships (by decide)
      (fun _ => clearCipher_inverts) (by
        intro stored hstored
        rw [oneFormSnapshot_occupants.mp hstored]
        exact ChunkedBlob.covers_replace _ _)
  have hheader : headerLen ≤ encoded.length := by
    rw [hlen]
    exact Nat.le_add_right _ _
  refine ⟨encoded, hencode, hheader, ?_⟩
  exact (decodeSlot_returns_iff clearCipher encoded 0 _ 64 hheader).1.mp (.inr ⟨_, hdecode,
      validateSnapshot_eq_ok.mpr hvalid⟩)

/-- A snapshot whose only Dimension has no FIN. -/
def zeroDimensionSnapshot : Snapshot :=
  { Snapshot.empty (CfcFin.fromU128 100) testCfcName
      (FormFin.fromU128 2) with
    dimensions := ⟨some ⟨FormFin.zero, testCfcName, false⟩ ::
      List.replicate 5 none, by simp; rfl⟩ }

def zeroDimensionHeader : Bytes :=
  slotHeader zeroDimensionSnapshot 1
    (payloadBytes zeroDimensionSnapshot).length 0

/-- The slot of that snapshot, with the right checksums. -/
def zeroDimensionSlot : Bytes :=
  zeroDimensionHeader ++
    (slotChecksums zeroDimensionHeader
      (payloadBytes zeroDimensionSnapshot) ++
        payloadBytes zeroDimensionSnapshot)

theorem zeroDimensionSlot_open :
    openSlot cipher zeroDimensionSlot key nonceDomain = .done zeroDimensionSlot := by
  have hplain : ¬ isEncrypted zeroDimensionSlot := isEncrypted_frame.not.mpr (by decide)
  have hsums : ¬ ((crc32 (zeroDimensionSlot.take 52)).toNat ≠ wordAt zeroDimensionSlot 52 4 ∨
      (crc32 (zeroDimensionSlot.drop headerLen)).toNat ≠ wordAt zeroDimensionSlot 48 4) :=
    checksums_match length_slotHeader
  rw [openSlot, if_neg hplain, if_neg hsums]

/-- A slot with a Dimension whose FIN is zero has the right checksums and
makes the decoder fail its assertion. -/
theorem zero_fin_halts_decoder : headerLen ≤ zeroDimensionSlot.length ∧
      ∀ cipher slot key nonceDomain, decodeSlot cipher zeroDimensionSlot slot key nonceDomain =
          .halt := by
  have hlen : headerLen ≤ zeroDimensionSlot.length ∧ wellShaped zeroDimensionSlot := by
    decide +kernel
  have hrecords : ∀ slot, readRecords zeroDimensionSlot slot = .halt := by
    intro slot
    have hread : readRecords zeroDimensionSlot 0 = .halt := by
      decide +kernel
    rw [readRecords_halts_iff _ hlen.1] at hread ⊢
    exact hread
  refine ⟨hlen.1, fun cipher slot key nonceDomain => ?_⟩
  have hlong : ¬ zeroDimensionSlot.length < 10 := by
    have := hlen.1
    rw [headerLen] at this
    omega
  rw [decodeSlot, if_neg hlong, if_neg (not_not.mpr hlen.2),
    zeroDimensionSlot_open, done_bind, hrecords]

end ExpOS
