import ExpOS.Store.RoundTrip
import ExpOS.Store.Runtime

/-!
# Regions of the disk

A region begins with a header sector.  The store only ever writes records into
it that decode, so a region whose header sector belongs to such a record is
either whole, and then it is read as that record, or torn.  A torn region is
rejected by its seal or its checksums, unless these collide.
-/

namespace ExpOS

open List Function Option UInt32

open Effect

/-! ## Reading changes no block -/

/-- The property still holds after some calls that change no block. -/
def IgnoresScript (P : Machine → Prop) : Prop :=
  ∀ (m : Machine) (d : Device Sector StorageError), d.blocks = m.device.blocks →
    d.script <:+ m.device.script → P m → P { m with device := d }

/-- The property does not depend on the device at all. -/
def IgnoresDevice (P : Machine → Prop) : Prop :=
  ∀ (m : Machine) (d : Device Sector StorageError), P m → P { m with device := d }

variable {P : Machine → Prop}

/-- No call on the device changes the rest of the machine. -/
theorem IgnoresDevice.onDevice_keeps (hP : IgnoresDevice P) {α : Type}
    (x : Effect (Device Sector StorageError) StorageError α) : Keeps P (onDevice x) := by
  intro m hm
  simp only [onDevice]
  rcases x.run m.device with ⟨a | error | _, d⟩ <;> exact hP m d hm

theorem IgnoresDevice.ignoresScript (hP : IgnoresDevice P) : IgnoresScript P :=
  fun m d _ _ hm => hP m d hm

theorem onDevice_keeps {α : Type} {x : Effect (Device Sector StorageError) StorageError α}
    (hx : ∀ blocks script, Keeps (Device.Holds blocks script) x)
    (hP : IgnoresScript P) : Keeps P (onDevice x) := by
  intro m hm
  have hholds := hx m.device.blocks m.device.script m.device ⟨rfl, suffix_refl _⟩
  simp only [onDevice]
  revert hholds
  rcases x.run m.device with ⟨a | error | _, d⟩
  · exact fun hholds => hP m d hholds.1 hholds.2 hm
  · exact fun hholds => hP m d hholds.1 hholds.2 hm
  · exact fun hholds => hP m d hholds.1 hholds.2 hm

theorem readSector_keeps (hP : IgnoresScript P) (lba : ℕ) : Keeps P (readSector lba) :=
  onDevice_keeps (fun blocks script => Device.read_keeps_blocks blocks script lba) hP

theorem verifyWrite_keeps (hP : IgnoresScript P) (base : ℕ) (expected : Bytes) :
    Keeps P (verifyWrite base expected) := by
  refine keeps_forM _ fun index _ => ?_
  refine (readSector_keeps hP _).bind fun sector => ?_
  dsimp only
  split
  · exact keeps_fail _
  · exact keeps_pure _

theorem keeps_getStore : Keeps P getStore :=
  keeps_get.bind fun _ => keeps_pure _

section Reading

variable {cipher : StorageCipher} {P : Machine → Prop}
  {key : Option (ByteBlock storageKeyLen)}

theorem decodeRead_keeps (encoded : Bytes) (base : ℕ) (slot : UInt8) :
    Keeps P (decodeRead cipher key encoded base slot) := by
  rw [decodeRead]
  split
  · exact keeps_pure _
  · exact keeps_fail _
  · exact keeps_lift _

variable (hP : IgnoresScript P)

include hP

theorem readSectors_keeps (lbas : List ℕ) : Keeps P (onDevice (Device.readAll lbas)) :=
  onDevice_keeps (fun blocks script => Device.readAll_keeps_blocks blocks script lbas) hP

variable (base : ℕ) (slot : UInt8)

theorem readAt_keeps : Keeps P (readAt cipher key base slot) := by
  refine (readSector_keeps hP _).bind fun header => ?_
  split
  · exact keeps_fail _
  · exact (readSectors_keeps hP _).bind fun _ => decodeRead_keeps _ _ _

theorem readLegacyAt_keeps : Keeps P (readLegacyAt cipher key base slot) :=
  (readSectors_keeps hP _).bind fun _ => decodeRead_keeps _ _ _

theorem readOrLegacy_keeps (legacyBase : ℕ) (slot : UInt8) :
    Keeps P (readOrLegacy cipher key base legacyBase slot) := by
  refine (readAt_keeps hP base slot).attempt.bind fun current => ?_
  rcases current with _ | read
  · exact (readLegacyAt_keeps hP legacyBase slot).attempt.bind fun _ => keeps_pure _
  · exact keeps_pure _

end Reading

/-! ## Reading a quiet device -/

/-- The octets of `count` sectors. -/
def regionBytes (blocks : ℕ → Sector) (base count : ℕ) : Bytes :=
  Blocks.flat ((List.range count).map fun index => blocks (base + index))

/-- The header sector and those behind it. -/
theorem regionBytes_headed (blocks : ℕ → Sector) (base len : ℕ) :
    regionBytes blocks base (divCeil (headerLen + len) sectorSize) = Blocks.flat (blocks base ::
      ((List.range' 1 (divCeil (headerLen + len) sectorSize - 1)).map (base + ·)).map blocks) := by
  obtain ⟨count, hcount⟩ : ∃ count, divCeil (headerLen + len) sectorSize = count + 1 := by
    refine Nat.exists_eq_add_one.mpr ?_
    simp only [divCeil, sectorSize, headerLen]
    omega
  rw [regionBytes, hcount, range_eq_range', List.map_map]
  rfl

theorem length_regionBytes (blocks : ℕ → Sector) (base count : ℕ) :
    (regionBytes blocks base count).length = count * sectorSize := by
  simp [regionBytes]

section Quiet

variable {m : Machine} (h : m.device.Quiet)

include h

theorem readSector_quiet (lba : ℕ) : (readSector lba).run m = (.done (m.device.blocks lba), m) := by
  simp only [readSector, onDevice, Device.Quiet.read h]

theorem readAll_quiet (lbas : List ℕ) : (onDevice (Device.readAll lbas)).run m =
      (.done (lbas.map m.device.blocks), m) := by
  simp only [onDevice, Device.Quiet.readAll h]

variable (cipher : StorageCipher) (key : Option (ByteBlock storageKeyLen))

theorem readLegacyAt_quiet (base : ℕ) (slot : UInt8) :
    (readLegacyAt cipher key base slot).run m = (decodeRead cipher key
        (regionBytes m.device.blocks base legacySlotSectors) base slot).run m := by
  rw [readLegacyAt, run_bind, readAll_quiet h]
  simp [regionBytes, comp_def]

variable {base : ℕ} (slot : UInt8)

theorem readAt_rejected
    (hheader : headerRejected (m.device.blocks base).val) : (readAt cipher key base slot).run m =
      (.fail .verificationFailed, m) := by
  rw [readAt, run_bind, readSector_quiet h]
  simp only [if_pos hheader]
  rfl

theorem readAt_quiet {len : ℕ} (hheader : ¬ headerRejected (m.device.blocks base).val)
    (hlen : headerLen + wordAt (m.device.blocks base).val 12 4 = len) :
    (readAt cipher key base slot).run m = (decodeRead cipher key
        ((regionBytes m.device.blocks base (divCeil len sectorSize)).take
          len) base slot).run m := by
  subst hlen
  rw [readAt, run_bind, readSector_quiet h, regionBytes_headed]
  simp only [if_neg hheader, run_bind, readAll_quiet h]

end Quiet

/-! ## Header sectors -/

variable {n : ℕ}

theorem wordAt_congr {xs ys : Bytes} {offset width : ℕ}
    (h : xs.take n = ys.take n) (hn : offset + width ≤ n) :
    wordAt xs offset width = wordAt ys offset width := by
  have hcut : ∀ zs : Bytes, (zs.drop offset).take width =
      (((zs.take n).drop offset)).take width := by
    intro zs
    rw [drop_take, take_take, Nat.min_eq_left (by omega)]
  rw [wordAt, wordAt, hcut xs, hcut ys, h]

variable {encoded : Bytes}

/-- The header sector begins with the header. -/
theorem take_sectorAt (h : headerLen ≤ encoded.length) :
    (sectorAt encoded 0).val.take headerLen = encoded.take headerLen := by
  simp only [sectorAt, Blocks.padded, Nat.zero_mul, drop_zero]
  have hlen : headerLen ≤ (encoded.take sectorSize).length := by
    rw [length_take]
    simp only [headerLen, sectorSize] at h ⊢
    omega
  rw [take_append_of_le_length hlen, take_take]
  rfl

theorem not_headerRejected (h : wellShaped encoded) (hlen : encoded.length ≤ slotLen) :
    ¬ headerRejected (sectorAt encoded 0).val ∧ headerLen + wordAt (sectorAt encoded 0).val 12 4 =
        encoded.length := by
  obtain ⟨hlong, hmagic, -, -, hheader, hpayload⟩ := h
  have hhead := take_sectorAt hlong
  have hword : wordAt (sectorAt encoded 0).val 12 4 = encoded.length - headerLen := by
    rw [wordAt_congr hhead (by decide), hpayload]
  have height : (sectorAt encoded 0).val.take 8 = encoded.take 8 := by
    have hcut := congrArg (List.take 8) hhead
    rwa [take_take, take_take] at hcut
  refine ⟨?_, by omega⟩
  rw [headerRejected, height, wordAt_congr hhead (by decide), hmagic]
  simp only [ne_eq, not_true_eq_false, false_or]
  omega

/-- A blank sector is no header. -/
theorem take_zeros_ne_magic : (ByteBlock.zeros sectorSize).val.take 8 ≠ magic := by
  decide

/-- The sectors of a slot spell it, up to its length. -/
theorem take_sectors (encoded : Bytes) : (Blocks.flat ((List.range (sectorCount encoded)).map
      (sectorAt encoded))).take encoded.length = encoded := by
  have h : sectorAt encoded = Blocks.padded 0 encoded := rfl
  have hlen : encoded.length ≤ sectorCount encoded * sectorSize := by
    simp only [sectorCount, divCeil, sectorSize]
    omega
  rw [h, Blocks.flat_padded, take_of_length_le hlen, take_left' rfl]

/-! ## Decoding -/

variable {cipher : StorageCipher} {slot : UInt8}

variable {key : Option (ByteBlock storageKeyLen)} {nonceDomain : UInt32} {decoded : DecodedSlot}

/-- What a slot must satisfy to be decoded. -/
theorem decodeSlot_eq_done (h : decodeSlot cipher encoded slot key nonceDomain = .done decoded) :
    wellShaped encoded ∧ ∃ opened, openSlot cipher encoded key nonceDomain = .done opened ∧
      readRecords opened slot = .done decoded := by
  rw [decodeSlot] at h
  split at h
  · cases h
  split at h
  · cases h
  · next hshape =>
      exact ⟨not_not.mp hshape, Outcome.bind_eq_done.mp h⟩

/-- A slot that does not open is rejected. -/
theorem decodeSlot_eq_fail (slot : UInt8) (hlen : 10 ≤ encoded.length) (h : wellShaped encoded →
      openSlot cipher encoded key nonceDomain = .fail ()) :
    decodeSlot cipher encoded slot key nonceDomain = .fail () := by
  rw [decodeSlot, if_neg (Nat.not_lt.mpr hlen)]
  by_cases hshape : wellShaped encoded
  · rw [if_neg (not_not.mpr hshape), h hshape]
    rfl
  · rw [if_pos hshape]

/-! ## Records on the disk -/

/-- A snapshot that a store can hold and read back. -/
structure StoreConfig.Admits (config : StoreConfig) (s : Snapshot) :
    Prop where
  valid : s.Valid
  cfc : s.cfc = config.cfc
  primaryDimension : s.primaryDimension = config.primaryDimension
  relationships : ∀ r ∈ s.relationships.occupants, r.dimension ≠ some FormFin.zero

/-- A store with a key has a cipher that opens what it seals. -/
abbrev StoreConfig.Opens (config : StoreConfig) (cipher : StorageCipher) : Prop :=
  config.storageKey ≠ none → cipher.Inverts

/-- What the store writes into the region at `base`. -/
structure StoredRecord (cipher : StorageCipher) (config : StoreConfig)
    (base : ℕ) where
  snapshot : Snapshot
  generation : UInt64
  encoded : Bytes
  admitted : config.Admits snapshot
  generation_ne : generation ≠ 0
  encodes : encodeSlot cipher snapshot generation config.storageKey
    (UInt32.ofNat base) = .done encoded

namespace StoredRecord

variable {cipher : StorageCipher} {config : StoreConfig} {base : ℕ}

/-- The record as it is read back. -/
def read (r : StoredRecord cipher config base) (slot : UInt8) : SlotRead where
  snapshot := r.snapshot
  generation := r.generation
  slot := slot
  encoded := r.encoded
  base := base

variable (r : StoredRecord cipher config base)

theorem covers : r.snapshot.Covers := by
  obtain ⟨payload, hpayload, -⟩ := encodeSlot_eq_done.mp r.encodes
  exact covers_of_putPayload hpayload

theorem owned (slot : UInt8) : config.owns (r.read slot) = true := by
  simp [StoreConfig.owns, read, r.admitted.cfc, r.admitted.primaryDimension]

section Decodes

variable (r : StoredRecord cipher config base)
  (hcipher : config.Opens cipher)

include hcipher

theorem roundTrip (slot : UInt8) : r.encoded.length = headerLen + (payloadBytes r.snapshot).length ∧
    decodeSlot cipher r.encoded slot config.storageKey (ofNat base) = .done
        { snapshot := r.snapshot, generation := r.generation, slot } := by
  have hround := encodeSlot_roundTrip (ofNat base) slot
    r.admitted.valid r.admitted.relationships r.generation_ne hcipher
    r.covers
  rw [r.encodes] at hround
  obtain ⟨encoded, hencoded, hlen, hdecode⟩ := hround
  cases hencoded
  exact ⟨hlen, hdecode⟩

theorem length_le : r.encoded.length ≤ slotLen := by
  have hlen := (r.roundTrip hcipher 0).1
  have hfits := length_payloadBytes_le r.admitted.valid r.covers
  simp only [slotLen, slotSectors, sectorSize, headerLen] at hlen hfits ⊢
  omega

theorem wellShaped : wellShaped r.encoded :=
  (decodeSlot_eq_done (r.roundTrip hcipher 0).2).1

theorem sectorCount_pos : 0 < sectorCount r.encoded := by
  have hlen := (r.wellShaped hcipher).1
  simp only [sectorCount, divCeil, sectorSize, headerLen] at hlen ⊢
  omega

theorem sectorCount_le : sectorCount r.encoded ≤ slotSectors := by
  have hlen := r.length_le hcipher
  simp only [sectorCount, divCeil, sectorSize, slotLen] at hlen ⊢
  omega

end Decodes

/-- Every snapshot the store admits can be written, if its blobs are whole. -/
theorem exists_of_covers {s : Snapshot} {generation : UInt64} (base : ℕ)
    (hcipher : config.Opens cipher)
    (hs : config.Admits s) (hgeneration : generation ≠ 0)
    (hcovers : s.Covers) :
    ∃ r : StoredRecord cipher config base, r.snapshot = s ∧ r.generation = generation := by
  obtain ⟨encoded, hencode, -, -⟩ :=
    encodeSlot_roundTrip (ofNat base) 0 hs.valid hs.relationships hgeneration hcipher hcovers
  exact ⟨⟨s, generation, encoded, hs, hgeneration, hencode⟩, rfl, rfl⟩

/-! ## Whole and torn regions -/

variable (r : StoredRecord cipher config base) (blocks : ℕ → Sector)

/-- The header sector of the record is on the disk. -/
def Headed : Prop := blocks base = sectorAt r.encoded 0

/-- Every sector of the record is on the disk. -/
def Whole : Prop :=
  ∀ index < sectorCount r.encoded, blocks (base + index) = sectorAt r.encoded index

/-- What the disk holds where the record was written. -/
def held : Bytes :=
  (regionBytes blocks base (sectorCount r.encoded)).take r.encoded.length

variable {r blocks}

theorem Whole.headed (hcipher : config.Opens cipher)
    (h : r.Whole blocks) : r.Headed blocks :=
  h 0 (r.sectorCount_pos hcipher)

theorem Whole.held_eq (h : r.Whole blocks) : r.held blocks = r.encoded := by
  have hsectors : (List.range (sectorCount r.encoded)).map (fun index => blocks (base + index)) =
      (List.range (sectorCount r.encoded)).map (sectorAt r.encoded) :=
    map_congr_left fun index hindex => h index (mem_range.mp hindex)
  rw [held, regionBytes, hsectors, take_sectors]

theorem length_held : (r.held blocks).length = r.encoded.length := by
  rw [held, length_take, length_regionBytes]
  simp only [sectorCount, divCeil, sectorSize]
  omega

/-- A region is read by decoding what it holds for its header. -/
theorem Headed.readAt {m : Machine} (hcipher : config.Opens cipher)
    (h : r.Headed m.device.blocks) (hquiet : m.device.Quiet)
    (key : Option (ByteBlock storageKeyLen)) (slot : UInt8) : (readAt cipher key base slot).run m =
      (decodeRead cipher key (r.held m.device.blocks) base slot).run m := by
  obtain ⟨hheader, hlen⟩ := not_headerRejected (r.wellShaped hcipher) (r.length_le hcipher)
  rw [← show m.device.blocks base = sectorAt r.encoded 0 from h] at hheader hlen
  rw [readAt_quiet hquiet cipher key slot hheader hlen]
  rfl

/-- What the region holds does not open, unless it is the record. -/
def Checks (r : StoredRecord cipher config base) (blocks : ℕ → Sector) :
    Prop :=
  r.held blocks ≠ r.encoded → openSlot cipher (r.held blocks) config.storageKey
      (UInt32.ofNat base) = .fail ()

end StoredRecord

/-! ## Probing a region -/

variable {base : ℕ}

theorem decodeRead_eq_done (h : decodeSlot cipher encoded slot key (ofNat base) =
      .done decoded) (m : Machine) : (decodeRead cipher key encoded base slot).run m =
      (.done { decoded with encoded, base }, m) := by
  simp only [decodeRead, h]
  rfl

theorem decodeRead_eq_fail
    (h : decodeSlot cipher encoded slot key (ofNat base) = .fail ()) (m : Machine) :
    (decodeRead cipher key encoded base slot).run m = (.fail .verificationFailed, m) := by
  simp only [decodeRead, h]
  rfl

/-- Every quiet machine with these blocks reads the region as `result`. -/
def Probes (cipher : StorageCipher) (key : Option (ByteBlock storageKeyLen)) (blocks : ℕ → Sector)
    (base legacyBase : ℕ) (slot : UInt8) (result : Option SlotRead × Bool) : Prop :=
  ∀ m : Machine, m.device.Quiet → m.device.blocks = blocks →
    (readOrLegacy cipher key base legacyBase slot).run m = (.done result, m)

/-- Nothing that starts at `base` decodes in the old layout. -/
def LegacyUnreadable (cipher : StorageCipher)
    (key : Option (ByteBlock storageKeyLen)) (blocks : ℕ → Sector) (base : ℕ) : Prop :=
  ∀ slot, decodeSlot cipher (regionBytes blocks base legacySlotSectors)
    slot key (UInt32.ofNat base) = .fail ()

section Probing

variable {cipher : StorageCipher} {config : StoreConfig}
  {key : Option (ByteBlock storageKeyLen)} {blocks : ℕ → Sector}
  {base legacyBase : ℕ} {slot : UInt8}

/-- A region that is not readable in either layout. -/
theorem probes_none (hread : ∀ m : Machine, m.device.Quiet → m.device.blocks = blocks →
      (readAt cipher key base slot).run m = (.fail .verificationFailed, m))
    (hlegacy : LegacyUnreadable cipher key blocks legacyBase) :
    Probes cipher key blocks base legacyBase slot (none, true) := by
  intro m hquiet hblocks
  have holder : (readLegacyAt cipher key legacyBase slot).run m =
      (.fail .verificationFailed, m) := by
    rw [readLegacyAt_quiet hquiet, hblocks]
    exact decodeRead_eq_fail (hlegacy slot) m
  rw [readOrLegacy, run_bind, run_attempt, hread m hquiet hblocks]
  simp only [run_bind, run_attempt, holder]
  rfl

theorem probes_zeros (hzeros : blocks base = .zeros sectorSize)
    (hlegacy : LegacyUnreadable cipher key blocks legacyBase) :
    Probes cipher key blocks base legacyBase slot (none, true) := by
  refine probes_none (fun m hquiet hblocks => ?_) hlegacy
  refine readAt_rejected hquiet cipher key slot (.inl ?_)
  rw [hblocks, hzeros]
  exact take_zeros_ne_magic

namespace StoredRecord

variable {r : StoredRecord cipher config base}
  (hcipher : config.Opens cipher)
  (h : r.Headed blocks)

include hcipher h

theorem Headed.probes_torn (htorn : r.held blocks ≠ r.encoded) (hchecks : r.Checks blocks)
    (hlegacy : LegacyUnreadable cipher config.storageKey blocks legacyBase) :
    Probes cipher config.storageKey blocks base legacyBase slot (none, true) := by
  refine probes_none (fun m hquiet hblocks => ?_) hlegacy
  subst hblocks
  rw [h.readAt hcipher hquiet]
  refine decodeRead_eq_fail (decodeSlot_eq_fail slot ?_ ?_) m
  · have hlong := (r.wellShaped hcipher).1
    rw [length_held]
    simp only [headerLen] at hlong
    omega
  · exact fun _ => hchecks htorn

/-- The region may be probed under another key than it was written under. -/
theorem Headed.probes_decoded (hheld : r.held blocks = r.encoded) (legacyBase : ℕ)
    (hdecode : decodeSlot cipher r.encoded slot key (ofNat base) =
      .done { snapshot := r.snapshot, generation := r.generation, slot }) :
    Probes cipher key blocks base legacyBase slot (some (r.read slot), false) := by
  intro m hquiet hblocks
  subst hblocks
  have hread : (ExpOS.readAt cipher key base slot).run m = (.done (r.read slot), m) := by
    rw [h.readAt hcipher hquiet, hheld]
    exact decodeRead_eq_done hdecode m
  rw [readOrLegacy, run_bind, run_attempt, hread]
  rfl

theorem Headed.probes_held (hheld : r.held blocks = r.encoded) (legacyBase : ℕ) (slot : UInt8) :
    Probes cipher config.storageKey blocks base legacyBase slot (some (r.read slot), false) :=
  h.probes_decoded hcipher hheld legacyBase (r.roundTrip hcipher slot).2

end StoredRecord

theorem take_regionBytes (blocks : ℕ → Sector) (base : ℕ) {count : ℕ}
    (hcount : 0 < count) (hn : n ≤ sectorSize) :
    (regionBytes blocks base count).take n = (blocks base).val.take n := by
  obtain ⟨k, rfl⟩ := Nat.exists_eq_succ_of_ne_zero hcount.ne'
  rw [regionBytes, range_succ_eq_map, map_cons,
    Blocks.flat_cons, Nat.add_zero, take_append_of_le_length]
  rw [(blocks base).property]
  exact hn

/-- The old layout starts slot A at the same sector as the current one.  A
slot A that is unreadable is unreadable in both. -/
theorem legacyUnreadable_zeros (h : blocks base = .zeros sectorSize) :
    LegacyUnreadable cipher key blocks base := by
  intro slot
  refine decodeSlot_eq_fail slot ?_ ?_
  · rw [length_regionBytes]
    decide
  intro hshape
  have hmagic := hshape.2.1
  rw [take_regionBytes blocks base (by decide) (by decide), h] at hmagic
  exact absurd hmagic take_zeros_ne_magic

theorem probes_blank (hzeros : blocks base = .zeros sectorSize)
    (hlegacy : legacyBase = base ∨ LegacyUnreadable cipher key blocks legacyBase) :
    Probes cipher key blocks base legacyBase slot (none, true) := by
  rcases hlegacy with rfl | hlegacy
  · exact probes_zeros hzeros (legacyUnreadable_zeros hzeros)
  · exact probes_zeros hzeros hlegacy

theorem StoredRecord.Headed.legacyUnreadable
    {r : StoredRecord cipher config base} (hcipher : config.Opens cipher)
    (h : r.Headed blocks) (htorn : r.held blocks ≠ r.encoded) (hchecks : r.Checks blocks) :
    LegacyUnreadable cipher config.storageKey blocks base := by
  intro slot
  refine decodeSlot_eq_fail slot ?_ ?_
  · rw [length_regionBytes]
    decide
  intro hshape
  obtain ⟨-, hlen⟩ := not_headerRejected (r.wellShaped hcipher) (r.length_le hcipher)
  have hword := hshape.2.2.2.2.2
  have htake := take_regionBytes blocks base (show 0 < legacySlotSectors by decide)
    (show headerLen ≤ sectorSize by decide)
  rw [wordAt_congr htake (by decide), length_regionBytes,
    show blocks base = sectorAt r.encoded 0 from h] at hword
  have hfull : r.encoded.length = legacySlotSectors * sectorSize := by
    rw [← hlen, hword]
    decide
  have hheld : r.held blocks = regionBytes blocks base legacySlotSectors := by
    have hcount : sectorCount r.encoded = legacySlotSectors := by
      rw [sectorCount, hfull]
      decide
    rw [StoredRecord.held, hcount, take_of_length_le]
    rw [length_regionBytes, hfull]
  rw [← hheld]
  exact hchecks htorn

end Probing

/-! ## Regions -/

/-- The eleven regions of the disk follow each other. -/
def IsRegion (base : ℕ) : Prop :=
  ∃ k < 11, base = slotALba + k * slotSectors

theorem isRegion_slot (slot : UInt8) : IsRegion (slotLba slot) := by
  rw [slotLba]
  split
  · exact ⟨0, by decide, rfl⟩
  · exact ⟨1, by decide, rfl⟩

variable {index : ℕ}

theorem isRegion_checkpoint (h : index < checkpointCapacity) : IsRegion (checkpointLba index) := by
  simp only [checkpointCapacity] at h
  refine ⟨index + 2, by omega, ?_⟩
  simp only [checkpointLba, checkpointBaseLba, slotBLba, slotSectors]
  omega

theorem isRegion_baseline : IsRegion baselineLba := ⟨10, by decide, rfl⟩

namespace IsRegion

variable {base other : ℕ} (h : IsRegion base) (hother : IsRegion other)

include h hother

theorem apart (hne : other ≠ base) (hindex : index < slotSectors) :
    ¬ (base ≤ other + index ∧ other + index < base + slotSectors) := by
  obtain ⟨k, -, rfl⟩ := h
  obtain ⟨j, -, rfl⟩ := hother
  simp only [slotSectors] at hne hindex ⊢
  omega

/-- The nonce domain of a region determines it. -/
theorem domain_inj (heq : ofNat base = ofNat other) : base = other := by
  obtain ⟨k, hk, rfl⟩ := h
  obtain ⟨j, hj, rfl⟩ := hother
  simp only [slotSectors] at heq ⊢
  have hnat := congrArg toNat heq
  rw [toNat_ofNat', toNat_ofNat'] at hnat
  omega

end IsRegion

theorem slotLba_bounds (slot : UInt8) : slotALba ≤ slotLba slot ∧
      slotLba slot + slotSectors ≤ checkpointBaseLba := by
  rw [slotLba]
  split <;> decide

theorem slotLba_ne_checkpointLba (slot : UInt8) (index : ℕ) :
    slotLba slot ≠ checkpointLba index := by
  have h := (slotLba_bounds slot).2
  simp only [checkpointLba, slotSectors] at h ⊢
  omega

theorem checkpointLba_inj {i j : ℕ} (h : checkpointLba i = checkpointLba j) : i = j := by
  simp only [checkpointLba, slotSectors] at h
  omega

theorem baselineLba_eq : baselineLba = checkpointLba checkpointCapacity :=
  rfl

theorem slotLba_ne_baselineLba (slot : UInt8) : slotLba slot ≠ baselineLba :=
  slotLba_ne_checkpointLba slot checkpointCapacity

theorem checkpointLba_ne_baselineLba
    (h : index < checkpointCapacity) : checkpointLba index ≠ baselineLba :=
  fun heq => h.ne (checkpointLba_inj heq)

/-! ## The table of checkpoints -/

instance instLawfulOrderMaxUInt64 : Std.LawfulOrderMax UInt64 where
  max_eq_or a b := by
    rw [UInt64.max_def]
    split
    · exact .inr rfl
    · exact .inl rfl
  max_le_iff a b c := by
    simp only [UInt64.max_def, UInt64.le_iff_toNat_le]
    split <;> omega

section StateIds

variable {checkpoints : SlotTable CheckpointInfo checkpointCapacity}

/-- The largest state id of the table. -/
def lastStateId (checkpoints : SlotTable CheckpointInfo checkpointCapacity) : UInt64 :=
  (checkpoints.occupants.map CheckpointInfo.stateId).max?.getD 0

theorem le_lastStateId {info : CheckpointInfo} (h : info ∈ checkpoints.occupants) :
    info.stateId ≤ lastStateId checkpoints := by
  have hmem := mem_map_of_mem (f := CheckpointInfo.stateId) h
  rw [lastStateId]
  rcases hmax : (checkpoints.occupants.map CheckpointInfo.stateId).max? with _ | last
  · rw [List.max?_eq_none_iff] at hmax
    rw [hmax] at hmem
    cases hmem
  · exact (List.max?_eq_some_iff.mp hmax).2 _ hmem

theorem lastStateId_le (h : ∀ info ∈ checkpoints.occupants, info.stateId.toNat ≤ n) :
    (lastStateId checkpoints).toNat ≤ n := by
  rw [lastStateId]
  rcases hmax : (checkpoints.occupants.map CheckpointInfo.stateId).max? with _ | last
  · exact Nat.zero_le n
  · obtain ⟨info, hinfo, rfl⟩ := mem_map.mp (List.max?_eq_some_iff.mp hmax).1
    exact h info hinfo

end StateIds

/-- The cell a checkpoint goes to exists. -/
theorem checkpointSlot_lt {checkpoints : SlotTable CheckpointInfo checkpointCapacity} {slot : ℕ}
    (h : (checkpoints.freeIndex <|> oldestCheckpoint checkpoints) = some slot) :
    slot < checkpointCapacity := by
  have hlen := checkpoints.length_slots
  rcases hfree : checkpoints.freeIndex with _ | index
  · rw [hfree] at h
    change oldestCheckpoint checkpoints = some slot at h
    rw [oldestCheckpoint, map_eq_some_iff] at h
    obtain ⟨⟨index, stateId⟩, hmin, rfl⟩ := h
    obtain ⟨⟨entry, i⟩, hmem, hentry⟩ := mem_filterMap.mp (argmin_mem hmin)
    have hlt := snd_lt_of_mem_zipIdx hmem
    obtain ⟨info, -, hinfo⟩ := map_eq_some_iff.mp hentry
    cases hinfo
    omega
  · rw [hfree] at h
    cases h
    have hlt := (List.findIdx?_eq_some_iff_getElem.mp hfree).1
    omega

end ExpOS
