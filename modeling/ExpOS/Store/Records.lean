import ExpOS.Core.BlobContent
import ExpOS.Store.Codec

/-!
# The records of a slot

For every record the octets its writer emits are the octets its reader
consumes, so the payload of a snapshot reads back as that snapshot, and the
payload of a valid snapshot fits into a slot.  Writing it reads every stored
blob, which is where a blob whose chunks do not reach up to its length halts.
-/

namespace ExpOS

open List SlotTable Effect

open Reader Writer

/-! ## Words and small records -/

/-- What writers of a slot emit. -/
abbrev SlotEmits (writer : SlotWriter) (octets : Bytes) : Prop :=
  Writer.Emits (slotLen - headerLen) writer octets

theorem emits_put (octets : Bytes) : SlotEmits (put octets) octets :=
  Writer.emits_put _ octets

def u16Bytes (value : UInt16) : Bytes := Bytes.toLeBytes 2 value.toNat
def u32Bytes (value : UInt32) : Bytes := Bytes.toLeBytes 4 value.toNat
def u64Bytes (value : UInt64) : Bytes := Bytes.toLeBytes 8 value.toNat

theorem consumes_u16 (value : UInt16) : Consumes SlotReader.u16 (u16Bytes value) value := by
  refine (consumes_word () value.toNat_lt).bind_nil ?_
  rw [UInt16.ofNat_toNat]
  exact consumes_pure value

theorem consumes_u32 (value : UInt32) : Consumes SlotReader.u32 (u32Bytes value) value := by
  refine (consumes_word () value.toNat_lt).bind_nil ?_
  rw [UInt32.ofNat_toNat]
  exact consumes_pure value

theorem consumes_u64 (value : UInt64) : Consumes SlotReader.u64 (u64Bytes value) value := by
  refine (consumes_word () value.toNat_lt).bind_nil ?_
  rw [UInt64.ofNat_toNat]
  exact consumes_pure value

variable {α : Type}

theorem consumes_ofOption {value : Option α} {a : α}
    (h : value = some a) : Consumes (SlotReader.ofOption value) [] a := by
  apply consumes_lift
  rw [h]
  rfl

/-- An octet that stands for a value of an enumeration. -/
theorem consumes_decode {decode : UInt8 → Option α}
    {value : UInt8} {a : α} (h : decode value = some a) : Consumes (SlotReader.byte >>= fun value =>
      SlotReader.ofOption (decode value)) [value] a :=
  (consumes_byte () value).bind_nil (consumes_ofOption h)

theorem decodeKind_encodeKind (kind : FormKind) : decodeKind (encodeKind kind) = some kind := by
  cases kind <;> rfl

theorem decodeLifecycle_encodeLifecycle (lifecycle : Lifecycle) :
    decodeLifecycle (encodeLifecycle lifecycle) = some lifecycle := by
  cases lifecycle <;> rfl

theorem decodeRelationship_encodeRelationship (kind : RelationshipKind) :
    decodeRelationship (encodeRelationship kind) = some kind := by
  cases kind <;> rfl

theorem decodeNetwork_encodeNetwork (policy : NetworkPolicy) :
    decodeNetwork (encodeNetwork policy) = some policy := by
  cases policy <;> rfl

variable (flag : Bool)

theorem consumes_flag : Consumes SlotReader.flag [encodeFlag flag] flag := by
  refine (consumes_byte () _).bind_nil (consumes_ofOption ?_)
  cases flag <;> rfl

theorem consumes_fin (fin : FormFin) : Consumes SlotReader.fin fin.bytes.val fin := by
  refine (consumes_take () fin.bytes.property).bind_nil ?_
  rw [FormFin.fromU128_fromBeBytes]
  exact consumes_pure fin

variable {length : ℕ}

theorem consumes_block (block : ByteBlock length) :
    Consumes (SlotReader.block length) block.val block := by
  refine (consumes_take () block.property).bind_nil (consumes_ofOption ?_)
  rw [dif_pos block.property]

def textBytes (text : Text) : Bytes :=
  [UInt8.ofNat text.content.length] ++ (text.content ++
    List.replicate (textCapacity - text.content.length) 0)

variable (text : Text)

theorem length_textBytes : (textBytes text).length = 33 := by
  have h := text.length_le
  simp only [textCapacity] at h
  simp only [textBytes, textCapacity, length_append, length_cons, length_nil, length_replicate]
  omega

theorem emits_text : SlotEmits (putText text) (textBytes text) :=
  (emits_put _).bind (emits_put _)

theorem consumes_text {text : Text} (h : text.content ≠ []) :
    Consumes SlotReader.text (textBytes text) text := by
  have hle : text.content.length ≤ 32 := text.length_le
  have hpos : 0 < text.content.length := length_pos_of_ne_nil h
  have hlen : (UInt8.ofNat text.content.length).toNat = text.content.length := by
    simp only [UInt8.toNat_ofNat']
    omega
  have hne : UInt8.ofNat text.content.length ≠ 0 := by
    intro hzero
    rw [hzero] at hlen
    simp only [UInt8.toNat_ofNat] at hlen
    omega
  have hpad : (text.content ++ List.replicate
      (textCapacity - text.content.length) 0).length = 32 := by
    simp only [textCapacity, length_append, length_replicate]
    omega
  refine (consumes_byte () _).bind ((consumes_take () hpad).bind_nil ?_)
  rw [hlen, take_left' rfl]
  refine (consumes_require ⟨hne, hle, isAscii_iff.mpr text.ascii⟩).nil_bind (consumes_ofOption ?_)
  rw [Text.new_content h]
  rfl

/-! ## Records -/

def dimensionBytes (dimension : Dimension) : Bytes :=
  dimension.fin.bytes.val ++ (textBytes dimension.name ++ [encodeFlag dimension.securityBoundary])

theorem emits_dimension (dimension : Dimension) :
    SlotEmits (putDimension dimension) (dimensionBytes dimension) :=
  (emits_put _).bind ((emits_text _).bind (emits_put _))

theorem consumes_dimension {dimension : Dimension} (hfin : dimension.fin.isZero = false)
    (hname : dimension.name.content ≠ []) : Consumes SlotReader.dimension (dimensionBytes dimension)
      dimension :=
  (consumes_fin _).bind ((consumes_text hname).bind ((consumes_flag _).bind_nil
      (consumes_lift (Dimension.new_eq _ hfin hname))))

def formBytes (stored : StoredForm) : Bytes :=
  stored.form.fin.bytes.val ++ (textBytes stored.form.name ++
    ([encodeKind stored.form.kind] ++ (u32Bytes stored.form.revision ++
      ([encodeLifecycle stored.form.lifecycle] ++
        (u16Bytes (UInt16.ofNat stored.content.content.length) ++ stored.content.content)))))

variable {stored : StoredForm}

theorem emits_form (h : stored.content.Covers) : SlotEmits (putForm stored) (formBytes stored) := by
  refine (emits_put _).bind ((emits_text _).bind ((emits_put _).bind
    ((emits_put _).bind ((emits_put _).bind ?_))))
  rw [show stored.bytes = _ from h.toVec_eq]
  exact (emits_put _).bind (emits_put _)

theorem consumes_form (hfin : stored.form.fin.isZero = false)
    (hname : stored.form.name.content ≠ []) (hlen : stored.contentLen ≤ formContentCapacity)
    (h : stored.content.Covers) : Consumes (SlotReader.form false) (formBytes stored) stored := by
  have hcontent : stored.content.content.length ≤ 32 * 1024 := by
    rw [h.length_content]
    exact hlen
  have hword : (UInt16.ofNat stored.content.content.length).toNat =
      stored.content.content.length := by
    simp only [UInt16.toNat_ofNat']
    omega
  refine (consumes_fin _).bind ((consumes_text hname).bind
    ((consumes_decode (decodeKind_encodeKind _)).bind ((consumes_u32 _).bind
        ((consumes_decode (decodeLifecycle_encodeLifecycle _)).bind ((consumes_u16 _).bind ?_)))))
  rw [hword]
  refine (consumes_require hcontent).nil_bind ?_
  refine (consumes_take () rfl).bind_nil ?_
  refine (consumes_lift (Form.new_eq _ hfin hname)).nil_bind ?_
  refine (consumes_lift (if_pos (Nat.le_refl _))).nil_bind ?_
  rw [take_length, h.fromBytes_content]
  exact consumes_pure stored

def relationshipBytes (relationship : Relationship) : Bytes :=
  relationship.source.bytes.val ++ (relationship.target.bytes.val ++
    ([encodeRelationship relationship.kind] ++ ([encodeFlag relationship.dimension.isSome] ++
        (relationship.dimension.getD FormFin.zero).bytes.val)))

theorem emits_relationship (relationship : Relationship) : SlotEmits (putRelationship relationship)
      (relationshipBytes relationship) :=
  (emits_put _).bind ((emits_put _).bind ((emits_put _).bind ((emits_put _).bind (emits_put _))))

theorem consumes_relationship {relationship : Relationship}
    (h : relationship.dimension ≠ some .zero) :
    Consumes SlotReader.relationship (relationshipBytes relationship)
      relationship := by
  refine (consumes_fin _).bind ((consumes_fin _).bind
    ((consumes_decode (decodeRelationship_encodeRelationship _)).bind
      ((consumes_byte () _).bind ((consumes_fin _).bind_nil ?_))))
  refine Consumes.nil_bind (consumes_ofOption ?_) (consumes_pure _)
  cases hdim : relationship.dimension with
  | none => rfl
  | some dimension =>
    rw [hdim] at h
    have hzero : dimension.isZero = false := by
      rw [← Bool.not_eq_true, FormFin.isZero_iff]
      intro heq
      exact h (congrArg some heq)
    simp [encodeFlag, hzero]

def handleBytes (handle : FormHandle) : Bytes :=
  u32Bytes handle.id ++ (u32Bytes handle.parentId ++
    (handle.requester.bytes.val ++ (handle.target.bytes.val ++
      (handle.dimension.bytes.val ++ (u16Bytes handle.operations.bits ++
        (u64Bytes handle.validUntilTick ++ [encodeFlag handle.revoked]))))))

variable (handle : FormHandle)

theorem emits_handle : SlotEmits (putHandle handle) (handleBytes handle) :=
  (emits_put _).bind ((emits_put _).bind ((emits_put _).bind
    ((emits_put _).bind ((emits_put _).bind ((emits_put _).bind
      ((emits_put _).bind (emits_put _)))))))

theorem consumes_handle : Consumes (SlotReader.handle handle.cfc) (handleBytes handle)
      handle := by
  refine (consumes_u32 _).bind ((consumes_u32 _).bind ((consumes_fin _).bind ((consumes_fin _).bind
      ((consumes_fin _).bind (Consumes.bind (a := handle.operations) ?_
        ((consumes_u64 _).bind ((consumes_flag _).bind_nil (consumes_pure _))))))))
  exact (consumes_u16 _).bind_nil (consumes_ofOption (Operations.fromBits_bits _))

/-! ## Tables -/

def slotBytes (encode : α → Bytes) : Option α → Bytes
  | none => [0]
  | some record => [1] ++ encode record

variable {encode : α → Bytes} {cell : Option α}

theorem emits_slot {putRecord : α → SlotWriter} (h : ∀ record,
  cell = some record →
      SlotEmits (putRecord record) (encode record)) :
    SlotEmits (putSlot putRecord cell) (slotBytes encode cell) := by
  cases cell with
  | none => exact emits_put _
  | some record => exact (emits_put _).bind (h record rfl)

variable {reader : SlotReader α} (recordLen : ℕ)

theorem consumes_slot (h : ∀ record,
  cell = some record →
      Consumes reader (encode record) record) : Consumes (SlotReader.slot false recordLen reader)
      (slotBytes encode cell) cell := by
  cases cell with
  | none => exact (consumes_byte () 0).bind_nil (consumes_pure none)
  | some record =>
    refine (consumes_byte () 1).bind ?_
    exact (consumes_require rfl).nil_bind ((h record rfl).bind_nil (consumes_pure _))

variable {capacity : ℕ}

def tableBytes (encode : α → Bytes) (table : SlotTable α capacity) : Bytes :=
  table.slots.flatMap (slotBytes encode)

variable {table : SlotTable α capacity}

theorem emits_table {putRecord : α → SlotWriter} (h : ∀ record ∈ table.occupants,
      SlotEmits (putRecord record) (encode record)) :
    SlotEmits (table.slots.forM (putSlot putRecord)) (tableBytes encode table) := by
  refine emits_forM fun cell hcell => emits_slot fun record hrecord => ?_
  rw [hrecord] at hcell
  exact h record (mem_occupants.mpr hcell)

theorem consumes_table (h : ∀ record ∈ table.occupants, Consumes reader (encode record) record) :
    Consumes (SlotReader.table false recordLen capacity reader)
      (tableBytes encode table) table := by
  obtain ⟨slots, rfl⟩ := table
  refine (consumes_times fun cell hcell =>
    consumes_slot recordLen fun record hrecord => ?_).bind_nil (consumes_pure _)
  rw [hrecord] at hcell
  exact h record (mem_occupants.mpr hcell)

/-! ## The payload -/

def recordBytes (record : Option (ByteBlock length)) :
    Bytes :=
  [encodeFlag record.isSome] ++ (record.getD (ByteBlock.zeros length)).val

variable (record : Option (ByteBlock length))

theorem emits_record :
    SlotEmits (putRecord record) (recordBytes record) :=
  (emits_put _).bind (emits_put _)

theorem length_recordBytes :
    (recordBytes record).length = 1 + length := by
  rw [recordBytes, length_append, (record.getD (.zeros length)).property]
  rfl

def payloadBytes (s : Snapshot) : Bytes :=
  s.primaryDimension.bytes.val ++ (textBytes s.cfcName ++
    (u32Bytes s.nextFin ++ (u32Bytes s.nextDimensionFin ++
      (u32Bytes s.journalSequence ++ ([encodeNetwork s.networkPolicy] ++
        ([encodeFlag s.formGraphPresent] ++ (recordBytes s.settings ++ (recordBytes s.accounts ++
            (tableBytes dimensionBytes s.dimensions ++ (tableBytes formBytes s.forms ++
                (tableBytes relationshipBytes s.relationships ++
                  tableBytes handleBytes s.handles)))))))))))

variable {s : Snapshot}

/-- The chunks of every stored blob reach up to its length. -/
abbrev Snapshot.Covers (s : Snapshot) : Prop :=
  ∀ stored ∈ s.forms.occupants, stored.content.Covers

theorem emits_payload (h : s.Covers) :
    SlotEmits (putPayload s) (payloadBytes s) := by
  refine (emits_put _).bind ((emits_text _).bind ((emits_put _).bind
    ((emits_put _).bind ((emits_put _).bind ((emits_put _).bind
      ((emits_put _).bind ((emits_record _).bind ((emits_record _).bind
        ((emits_table fun _ _ => emits_dimension _).bind
          ((emits_table fun _ hstored => emits_form ?_).bind
            ((emits_table fun _ _ => emits_relationship _).bind
              (emits_table fun _ _ => emits_handle _))))))))))))
  exact h _ hstored

/-- Restoring an optional record from its presence octet. -/
theorem restore_record : (if encodeFlag record.isSome = 1 then
      some (record.getD (.zeros length)) else none) = record := by
  cases record <;> simp [encodeFlag]

theorem encodeFlag_le : encodeFlag flag ≤ 1 := by
  cases flag <;> decide

theorem consumes_payload (hvalid : s.Valid) (hrel : ∀ r ∈ s.relationships.occupants,
      r.dimension ≠ some .zero) (h : s.Covers) :
    Consumes (SlotReader.payload false s.cfc s.journalSequence.toNat) (payloadBytes s) s := by
  refine (consumes_fin _).bind ((consumes_text hvalid.cfcName).bind
    ((consumes_u32 _).bind ((consumes_u32 _).bind
      ((consumes_u32 _).bind ((consumes_require rfl).nil_bind
        ((consumes_decode (decodeNetwork_encodeNetwork _)).bind ((consumes_flag _).bind ?_)))))))
  refine (consumes_byte () _).bind ((consumes_block _).bind
    ((consumes_byte () _).bind ((consumes_block _).bind ((consumes_require
        ⟨encodeFlag_le _, encodeFlag_le _⟩).nil_bind ?_))))
  refine (consumes_table _ fun d hd => ?_).bind ((consumes_table _ fun stored hstored => ?_).bind
      ((consumes_table _ fun r hr => consumes_relationship (hrel r hr)).bind
        ((consumes_table _ fun handle hhandle => ?_).bind_nil ?_)))
  · obtain ⟨hfin, hname⟩ := hvalid.dimensions d hd
    exact consumes_dimension hfin hname
  · obtain ⟨hfin, hname, -, hlen⟩ := hvalid.forms stored hstored
    exact consumes_form hfin hname hlen (h stored hstored)
  · rw [← cfc_of_handlesInvalid hvalid.handles handle hhandle]
    exact consumes_handle handle
  · rw [restore_record, restore_record]
    exact consumes_pure s

/-! ## The payload fits -/

variable {fixed : ℕ}

theorem length_cells_le {extra : α → ℕ} {slots : List (Option α)}
    (h : ∀ a, some a ∈ slots → (encode a).length ≤ fixed + extra a) :
    (slots.flatMap (slotBytes encode)).length ≤
      slots.length * (1 + fixed) + (slots.reduceOption.map extra).sum := by
  induction slots with
  | nil => simp
  | cons cell slots ih =>
    have htail := ih fun a ha => h a (mem_cons_of_mem cell ha)
    rw [flatMap_cons, length_append, length_cons, Nat.succ_mul]
    cases cell with
    | none =>
      simp only [slotBytes, length_cons, length_nil, reduceOption_cons_of_none]
      omega
    | some record =>
      have hhead := h record mem_cons_self
      simp only [slotBytes, length_append, length_cons,
        length_nil, reduceOption_cons_of_some, map_cons, sum_cons]
      omega

/-- A table takes one octet per cell and the size of each record. -/
theorem length_tableBytes_le (extra : α → ℕ) (table : SlotTable α capacity)
    (h : ∀ a ∈ table.occupants, (encode a).length ≤ fixed + extra a) :
    (tableBytes encode table).length ≤
      capacity * (1 + fixed) + (table.occupants.map extra).sum := by
  have hcells := length_cells_le fun a ha => h a (mem_occupants.mpr ha)
  rwa [table.length_slots] at hcells

theorem length_tableBytes_le_of_const (h : ∀ a, (encode a).length = fixed) :
    (tableBytes encode table).length ≤ capacity * (1 + fixed) := by
  have hle := length_tableBytes_le (fun _ => 0) table fun a _ => Nat.le_of_eq (h a)
  simpa using hle

theorem length_payloadBytes_le (hvalid : s.Valid)
    (h : s.Covers) :
    (payloadBytes s).length ≤ slotLen - headerLen := by
  have hfin : ∀ fin : FormFin, fin.bytes.val.length = 16 := fun fin => fin.bytes.property
  have hdimensions : (tableBytes dimensionBytes s.dimensions).length ≤ 6 * (1 + 50) := by
    refine length_tableBytes_le_of_const fun d => ?_
    simp [dimensionBytes, hfin, length_textBytes]
  have hforms : (tableBytes formBytes s.forms).length ≤ 12 * (1 + 57) +
      (s.forms.occupants.map StoredForm.contentLen).sum := by
    refine length_tableBytes_le _ _ fun stored hstored => ?_
    have hlen := (h stored hstored).length_content
    simp only [formBytes, length_append, hfin, length_textBytes, length_cons, length_nil, u32Bytes,
      u16Bytes, Bytes.length_toLeBytes, StoredForm.contentLen]
    omega
  have hrelationships : (tableBytes relationshipBytes s.relationships).length ≤ 48 * (1 + 50) := by
    refine length_tableBytes_le_of_const fun r => ?_
    simp [relationshipBytes, hfin]
  have hhandles : (tableBytes handleBytes s.handles).length ≤ 16 * (1 + 67) := by
    refine length_tableBytes_le_of_const fun handle => ?_
    simp [handleBytes, hfin, u32Bytes, u16Bytes, u64Bytes]
  have hsettings : (recordBytes s.settings).length = 33 := by
    rw [length_recordBytes]
    rfl
  have haccounts : (recordBytes s.accounts).length = 961 := by
    rw [length_recordBytes]
    rfl
  have hcontent := hvalid.content
  simp only [payloadBytes, length_append, hfin, length_textBytes, u32Bytes, Bytes.length_toLeBytes,
    length_cons, length_nil]
  simp only [slotLen, slotSectors, sectorSize, headerLen, cfcContentCapacity] at hcontent ⊢
  omega

/-- The payload of a valid snapshot whose blobs are whole. -/
theorem putPayload_eq (hvalid : s.Valid) (h : s.Covers) :
    (putPayload s).run [] = (.done (), payloadBytes s) := by
  have hrun := emits_payload h [] (by
    simpa using length_payloadBytes_le hvalid h)
  simpa using hrun

/-- Writing the payload of a snapshot reads every stored blob. -/
theorem covers_of_putPayload {payload : Bytes} (h : (putPayload s).run [] = (.done (), payload)) :
    s.Covers := by
  simp only [putPayload, run_bind_eq_done] at h
  obtain ⟨_, _, -, _, _, -, _, _, -, _, _, -, _, _, -, _, _, -, _, _, -,
    _, _, -, _, _, -, _, _, -, _, _, hforms, -⟩ := h
  intro stored hstored
  obtain ⟨start, stop, hrun⟩ := forM_done hforms (some stored) (mem_occupants.mp hstored)
  simp only [putSlot, putForm, run_bind_eq_done] at hrun
  obtain ⟨_, _, -, _, _, -, _, _, -, _, _, -, _, _, -, _, _, -, content, _, hread, -⟩ := hrun
  by_contra hcovers
  rw [StoredForm.bytes, ChunkedBlob.toVec_eq_halt hcovers] at hread
  cases hread

end ExpOS
