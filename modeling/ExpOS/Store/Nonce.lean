import ExpOS.Store.Crash

/-!
# Nonces of sealed slots

The nonce of a seal is derived from the CFC, the generation and the region of
the slot.  Generations and checkpoint ids are recomputed at boot from what is
on the disk, and a call that reports an error leaves them as they were, so a
seal that did not reach the disk leaves no trace and its nonce is used again.

As long as everything that is sealed reaches the disk, the generations sealed
for one region increase, whatever else happens.
-/

namespace ExpOS

open List SlotTable Option BootReads Nat
open UInt64 (le_of_lt le_refl le_trans le_of_eq lt_irrefl)

open Effect

/-! ## Sealing on a powered device -/

variable {base : ℕ} {α : Type}

/-- After `encoded` was written only the power stops the call: it changes
neither a block nor the history, and if it returns it has changed the store by
`f`. -/
def Finishes (base : ℕ) (encoded : Bytes) (f : RuntimeStore → RuntimeStore) (x : StoreM α) : Prop :=
  ∀ m blocks power, m.device = ⟨blocks, Device.powered power⟩ →
    (∀ index < sectorCount encoded, blocks (base + index) = sectorAt encoded index) →
    (x.run m).2.device.blocks = blocks ∧ (x.run m).2.encodings = m.encodings ∧
      ((x.run m).1 = .halt ∨ (x.run m).2.store = f m.store)

theorem finishes_verify (f : RuntimeStore → RuntimeStore) (encoded : Bytes) (a : α) :
    Finishes base encoded f (verifyWrite base encoded >>= fun _ =>
      modifyStore f >>= fun _ => pure a) := by
  intro m blocks power hdevice hwhole
  rw [run_bind]
  obtain ⟨power', -, hrun | ⟨-, hrun⟩⟩ := verifyWrite_powered hdevice hwhole
  · rw [hrun]
    exact ⟨rfl, rfl, .inr rfl⟩
  · rw [hrun]
    exact ⟨rfl, rfl, .inl rfl⟩

/-- A verification whose failure is recorded in the store. -/
theorem finishes_attempt (f g : RuntimeStore → RuntimeStore)
    (encoded : Bytes) (error : StoreError) (a : α) :
    Finishes base encoded f ((verifyWrite base encoded).attempt >>= fun verified =>
      match verified with
      | none => modifyStore g >>= fun _ => Effect.fail error
      | some _ => modifyStore f >>= fun _ => pure a) := by
  intro m blocks power hdevice hwhole
  rw [run_bind, run_attempt]
  obtain ⟨power', -, hrun | ⟨-, hrun⟩⟩ := verifyWrite_powered hdevice hwhole
  · rw [hrun]
    exact ⟨rfl, rfl, .inr rfl⟩
  · rw [hrun]
    exact ⟨rfl, rfl, .inl rfl⟩

/-- The disk has no faults, and its power lasts until the snapshot is sealed
and written. -/
def Settles (cipher : StorageCipher) (s : Snapshot) (m : Machine) : Prop :=
  ∃ power, m.device.script = Device.powered power ∧ ∀ generation domain encoded,
    encodeSlot cipher s generation m.store.storageKey domain = .done encoded →
      Device.Lasts power (sectorCount encoded)

section SealEnds

variable (cipher : StorageCipher) (config : StoreConfig) (base : ℕ)
  (s : Snapshot) (generation : UInt64) (f : RuntimeStore → RuntimeStore)

/-- How a call ends that seals `s` for the region at `base` and, if it
returns, changes the store by `f`: nothing was sealed, or a record was, and
it is whole on the disk. -/
def SealEnds (m : Machine) (o : Outcome StoreError α) (m' : Machine) : Prop :=
  m' = m ∨ ∃ r : StoredRecord cipher config base, r.snapshot = s ∧
      r.generation = generation ∧ m'.encodings = m.encodings ++ [r.encoding] ∧
      (∀ lba, ¬ (base ≤ lba ∧ lba < base + slotSectors) →
        m'.device.blocks lba = m.device.blocks lba) ∧
      r.Whole m'.device.blocks ∧ (o = .halt ∨ m'.store = f m.store)

variable {cipher config base s generation f}

theorem sealEnds_of_finishes {m m' : Machine} {o : Outcome StoreError α} {k : Bytes → StoreM α}
    (hcipher : config.Opens cipher) (hsettles : Settles cipher s m)
    (hrun : (writeSlot cipher s generation base >>= k).run m = (o, m'))
    (hk : ∀ encoded, Finishes base encoded f (k encoded)) (hs : config.Admits s)
    (hgeneration : generation ≠ 0) (hkey : m.store.storageKey = config.storageKey) :
    SealEnds cipher config base s generation f m o m' := by
  obtain ⟨power, hscript, hlasts⟩ := hsettles
  have hends : WriteEnds cipher config base s generation power m _ _ :=
    writeSlot_powered hcipher hs hgeneration hkey hscript
  rw [run_bind] at hrun
  revert hends hrun
  rcases (writeSlot cipher s generation base).run m with ⟨o', n⟩
  rintro hrun (⟨r, power', hsnapshot, hgeneration, -, -⟩ |
    ⟨r, calls, hsnapshot, -, hpower, hcalls⟩ | ⟨-, -, hne⟩)
  · have hwhole : r.Whole (partlyWritten base r.encoded (sectorCount r.encoded) m.device.blocks) :=
      fun index hindex => partlyWritten_all _ (le_refl _) hindex
    obtain ⟨hblocks, hencodings, hend⟩ := hk r.encoded
      { m with
        device := ⟨_, Device.powered power'⟩
        encodings := m.encodings ++ [r.encoding] } _ power' rfl hwhole
    dsimp only at hrun
    rw [hrun] at hblocks hencodings hend
    dsimp only at hblocks
    refine .inr ⟨r, hsnapshot, hgeneration, hencodings, ?_, hblocks ▸ hwhole, hend⟩
    intro lba hlba
    have hcount := r.sectorCount_le hcipher
    rw [hblocks]
    exact partlyWritten_outside _ (by omega)
  · have hle := hlasts r.generation (UInt32.ofNat base) r.encoded
      (by rw [hkey, ← hsnapshot]; exact r.encodes) calls hpower
    omega
  · rcases o' with encoded | error | _
    · exact absurd rfl (hne encoded)
    · cases hrun
      exact .inl rfl
    · cases hrun
      exact .inl rfl

end SealEnds

/-! ## What the calls seal -/

section Calls

variable {cipher : StorageCipher} {config : StoreConfig} {m m' : Machine}
  (hcipher : config.Opens cipher)
  (hdevice : m.store.device = true)
  (hkey : m.store.storageKey = config.storageKey)
  (hadmits : ∀ s ∈ m.store.snapshot, config.Admits s)
  (hsettles : ∀ s ∈ m.store.snapshot, Settles cipher s m)

include hcipher hdevice hkey hadmits hsettles

theorem recordCheckpoint_ends {o : Outcome StoreError CheckpointInfo}
    (hrun : (recordCheckpoint cipher).run m = (o, m')) :
    m' = m ∨ ∃ s slot info, s ∈ m.store.snapshot ∧ slot < checkpointCapacity ∧
      info.stateId = nextStateId m.store.checkpoints ∧ SealEnds cipher config (checkpointLba slot) s
        (nextStateId m.store.checkpoints) (fun store =>
          { store with
            checkpoints := store.checkpoints.put slot (some info) }) m o m' := by
  simp only [recordCheckpoint, getStore, run_bind, Effect.get, run_pure] at hrun
  rcases hs : m.store.snapshot with _ | s
  · rw [hs] at hrun
    cases hrun
    exact .inl rfl
  simp only [hs, hdevice] at hrun
  rcases hslot : (m.store.checkpoints.freeIndex <|>
      oldestCheckpoint m.store.checkpoints) with _ | slot
  · rw [hslot] at hrun
    cases hrun
    exact .inl rfl
  · simp only [hslot] at hrun
    refine .inr ⟨s, slot, _, rfl, checkpointSlot_lt hslot, ?_,
      sealEnds_of_finishes hcipher (hsettles s hs) hrun (fun encoded => finishes_verify _ _ _)
        (hadmits s hs) (nextGeneration_ne_zero _) hkey⟩
    rfl

theorem establishBaseline_ends {o : Outcome StoreError BaselineInfo}
    (hrun : (establishBaseline cipher).run m = (o, m')) :
    m' = m ∨ ∃ s info, s ∈ m.store.snapshot ∧ m.store.baseline = .missing ∧
      SealEnds cipher config baselineLba s (max m.store.generation 1) (fun store =>
          { store with
            baseline := .ready info
            baselineLba := ExpOS.baselineLba }) m o m' := by
  simp only [establishBaseline, getStore, run_bind, Effect.get, run_pure] at hrun
  rcases hbaseline : m.store.baseline with _ | info | _
  · rcases hs : m.store.snapshot with _ | s
    · rw [hbaseline, hs] at hrun
      cases hrun
      exact .inl rfl
    · rw [hbaseline] at hrun
      simp only [hs, hdevice] at hrun
      refine .inr ⟨s, _, rfl, rfl, sealEnds_of_finishes hcipher (hsettles s hs) hrun
        (fun encoded => finishes_attempt _ _ _ _ _)
        (hadmits s hs) (max_one_ne_zero _) hkey⟩
  · rw [hbaseline] at hrun
    cases hrun
    exact .inl rfl
  · rw [hbaseline] at hrun
    cases hrun
    exact .inl rfl

end Calls

/-! ## Counters -/

variable {g : UInt64}

/-- As long as it does not wrap, the next generation is one more. -/
theorem toNat_nextGeneration_of_lt {n : ℕ} (h : g.toNat ≤ n) (hn : n < 2 ^ 63) :
    (nextGeneration g).toNat = g.toNat + 1 := by
  rw [toNat_nextGeneration, if_neg (by omega)]

theorem lt_nextGeneration {n : ℕ} (h : g.toNat ≤ n) (hn : n < 2 ^ 63) : g < nextGeneration g := by
  rw [UInt64.lt_iff_toNat_lt, toNat_nextGeneration_of_lt h hn]
  omega

/-! ## The invariant -/

section Invariant

variable (cipher : StorageCipher) (config : StoreConfig)

/-- The region is blank and nothing was sealed for it, or it holds the record
that was sealed for it last. -/
def RegionFresh (m : Machine) (base : ℕ) : Prop :=
  (m.device.blocks base = ByteBlock.zeros sectorSize ∧ ∀ e ∈ m.encodings, e.base ≠ base) ∨
  ∃ r : StoredRecord cipher config base, r.encoding ∈ m.encodings ∧ r.Whole m.device.blocks ∧
    ∀ e ∈ m.encodings, e.base = base → e.generation ≤ r.generation

/-- The generations sealed for one region increase, and the disk knows the
last one of each region. -/
structure DiskFresh (m : Machine) : Prop where
  increasing : m.encodings.Pairwise fun e e' =>
    e.base = e'.base → e.generation < e'.generation
  logged : ∀ e ∈ m.encodings, IsRegion e.base ∧ e.generation.toNat ≤ m.encodings.length
  regions : ∀ base, IsRegion base → RegionFresh cipher config m base

/-- The counters of the store are not behind anything that was sealed. -/
structure StoreFresh (m : Machine) : Prop where
  device : m.store.device = true
  storageKey : m.store.storageKey = config.storageKey
  admits : ∀ s ∈ m.store.snapshot, config.Admits s
  generation_le : m.store.generation.toNat ≤ m.encodings.length
  slots : ∀ slot, ∀ e ∈ m.encodings, e.base = slotLba slot → e.generation ≤ m.store.generation
  stateId_le : ∀ info ∈ m.store.checkpoints.occupants, info.stateId.toNat ≤ m.encodings.length
  checkpoints : ∀ index < checkpointCapacity, ∀ e ∈ m.encodings, e.base = checkpointLba index →
      ∃ info ∈ m.store.checkpoints.occupants, e.generation ≤ info.stateId
  baseline : m.store.baseline = .missing → ∀ e ∈ m.encodings, e.base ≠ baselineLba

variable {cipher config} {m m' : Machine}

/-- What holds of the records sealed for a region holds with one more. -/
theorem forall_sealed_concat {log : List SlotEncoding} {e : SlotEncoding}
    {P : SlotEncoding → Prop} (h : ∀ e' ∈ log, e'.base = base → P e') (he : e.base = base → P e) :
    ∀ e' ∈ log ++ [e], e'.base = base → P e' := by
  intro e' he' heq
  rw [mem_append, mem_singleton] at he'
  rcases he' with hold | rfl
  · exact h e' hold heq
  · exact he heq

/-- A record sealed for a region and whole on the disk. -/
theorem DiskFresh.sealed
    {r : StoredRecord cipher config base} (hcipher : config.Opens cipher)
    (h : DiskFresh cipher config m) (hbase : IsRegion base)
    (hfresh : ∀ e ∈ m.encodings, e.base = base → e.generation < r.generation)
    (hle : r.generation.toNat ≤ m.encodings.length + 1)
    (hlog : m'.encodings = m.encodings ++ [r.encoding])
    (houtside : ∀ lba, ¬ (base ≤ lba ∧ lba < base + slotSectors) →
      m'.device.blocks lba = m.device.blocks lba) (hwhole : r.Whole m'.device.blocks) :
    DiskFresh cipher config m' where
  increasing := by
    rw [hlog, pairwise_append]
    refine ⟨h.increasing, pairwise_singleton _ _, ?_⟩
    intro e he e' he' heq
    obtain rfl := mem_singleton.mp he'
    exact hfresh e he heq
  logged := by
    intro e he
    rw [hlog, length_append]
    rw [hlog, mem_append, mem_singleton] at he
    rcases he with hold | rfl
    · have hlogged := h.logged e hold
      exact ⟨hlogged.1, by omega⟩
    · exact ⟨hbase, hle⟩
  regions := by
    intro other hother
    by_cases heq : other = base
    · subst heq
      refine .inr ⟨r, by simp [hlog], hwhole, ?_⟩
      rw [hlog]
      exact forall_sealed_concat (fun e he heq => le_of_lt (hfresh e he heq)) fun _ => le_refl _
    · have hnew : r.encoding.base ≠ other := fun hcontra => heq hcontra.symm
      have hblocks : ∀ index < slotSectors, m'.device.blocks (other + index) =
            m.device.blocks (other + index) :=
        fun index hindex => houtside _ (hbase.apart hother heq hindex)
      rcases h.regions other hother with
        ⟨hzeros, hnone⟩ | ⟨r', hmem, hwhole', hlast⟩
      · refine .inl ⟨(hblocks 0 (by decide)).trans hzeros, ?_⟩
        rw [hlog]
        exact forall_sealed_concat hnone hnew
      · refine .inr ⟨r', by simp [hlog, hmem], fun index hindex => ?_, ?_⟩
        · have hcount := r'.sectorCount_le hcipher
          rw [hblocks index (by omega)]
          exact hwhole' index hindex
        · rw [hlog]
          exact forall_sealed_concat hlast fun heq' => absurd heq' hnew

/-- The invariant on the disk only looks at the blocks and the history. -/
theorem DiskFresh.congr (h : DiskFresh cipher config m)
    (hblocks : m'.device.blocks = m.device.blocks) (hencodings : m'.encodings = m.encodings) :
    DiskFresh cipher config m' := by
  obtain ⟨device, store, streams, next, encodings, accepted⟩ := m'
  obtain ⟨blocks, script⟩ := device
  cases hblocks
  cases hencodings
  exact ⟨h.increasing, h.logged, h.regions⟩

theorem StoreFresh.congr (h : StoreFresh config m) (hstore : m'.store = m.store)
    (hencodings : m'.encodings = m.encodings) : StoreFresh config m' := by
  obtain ⟨device, store, streams, next, encodings, accepted⟩ := m'
  cases hstore
  cases hencodings
  exact ⟨h.device, h.storageKey, h.admits, h.generation_le, h.slots,
    h.stateId_le, h.checkpoints, h.baseline⟩

/-! ## One call -/

/-- The invariant is kept if the generation that is sealed is new for its region
and the store has caught up. -/
theorem SealEnds.fresh {s : Snapshot} {generation : UInt64} {f : RuntimeStore → RuntimeStore}
    {o : Outcome StoreError α} (hcipher : config.Opens cipher)
    (hends : SealEnds cipher config base s generation f m o m')
    (hdisk : DiskFresh cipher config m) (hstore : StoreFresh config m) (hbase : IsRegion base)
    (hfresh : ∀ e ∈ m.encodings, e.base = base → e.generation < generation)
    (hle : generation.toNat ≤ m.encodings.length + 1)
    (hf : ∀ e : SlotEncoding, e.base = base → e.generation = generation → StoreFresh config
        { m with store := f m.store, encodings := m.encodings ++ [e] }) :
    DiskFresh cipher config m' ∧ (o ≠ .halt → StoreFresh config m') := by
  rcases hends with rfl | ⟨r, rfl, rfl, hlog, houtside, hwhole, hdone⟩
  · exact ⟨hdisk, fun _ => hstore⟩
  · exact ⟨hdisk.sealed hcipher hbase hfresh hle hlog houtside hwhole, fun hup =>
      (hf r.encoding rfl rfl).congr (hdone.resolve_left hup) hlog⟩

variable {e : SlotEncoding}

section

variable (h : StoreFresh config m)
include h

theorem StoreFresh.generation_le_append (e : SlotEncoding) :
    m.store.generation.toNat ≤ (m.encodings ++ [e]).length := by
  rw [length_append]
  exact le_add_right_of_le h.generation_le

theorem StoreFresh.commit {s : Snapshot} {slot : UInt8} (hs : config.Admits s)
    (hcount : m.encodings.length < 2 ^ 63)
    (hbase : e.base = slotLba slot)
    (hgeneration : e.generation = nextGeneration m.store.generation) : StoreFresh config
      { m with
        store :=
          { m.store with
            snapshot := some s
            generation := nextGeneration m.store.generation
            activeSlot := slot }
        encodings := m.encodings ++ [e] } where
  device := h.device
  storageKey := h.storageKey
  admits := by
    rintro s' hs'
    cases hs'
    exact hs
  generation_le := by
    have hle := h.generation_le
    have hnext := toNat_nextGeneration_of_lt hle hcount
    simp only [length_append, length_singleton]
    omega
  slots other := by
    have hlt := lt_nextGeneration h.generation_le hcount
    refine forall_sealed_concat (fun e' he' heq => ?_) fun _ => le_of_eq hgeneration
    exact le_trans (h.slots other e' he' heq) (le_of_lt hlt)
  stateId_le := by
    intro info hinfo
    have hle := h.stateId_le info hinfo
    simp only [length_append, length_singleton]
    omega
  checkpoints index hindex := forall_sealed_concat (h.checkpoints index hindex)
    fun heq => absurd (hbase.symm.trans heq) (slotLba_ne_checkpointLba slot index)
  baseline hmissing := forall_sealed_concat (h.baseline hmissing)
    fun heq => slotLba_ne_checkpointLba slot _ (hbase.symm.trans heq)

theorem StoreFresh.recordCheckpoint {info : CheckpointInfo} {slot : ℕ}
    (hcount : m.encodings.length < 2 ^ 63) (hslot : slot < checkpointCapacity)
    (hinfo : info.stateId = nextStateId m.store.checkpoints) (hbase : e.base = checkpointLba slot)
    (hgeneration : e.generation = nextStateId m.store.checkpoints) : StoreFresh config
      { m with
        store :=
          { m.store with
            checkpoints := m.store.checkpoints.put slot (some info) }
        encodings := m.encodings ++ [e] } where
  device := h.device
  storageKey := h.storageKey
  admits := h.admits
  generation_le := h.generation_le_append e
  slots other := forall_sealed_concat (h.slots other)
    fun heq => absurd (heq.symm.trans hbase) (slotLba_ne_checkpointLba other slot)
  stateId_le := by
    intro other hother
    have hlast := lastStateId_le h.stateId_le
    have hnext := toNat_nextGeneration_of_lt hlast hcount
    simp only [length_append, length_singleton]
    rcases mem_occupants_put hother with rfl | hold
    · rw [hinfo]
      change (nextGeneration (lastStateId _)).toNat ≤ _
      omega
    · have hle := h.stateId_le other hold
      omega
  checkpoints := by
    intro index hindex
    have hnew : info ∈ (m.store.checkpoints.put slot (some info)).occupants :=
      mem_put_occupants hslot
    refine forall_sealed_concat (fun e' he' heq => ⟨info, hnew, ?_⟩)
      fun _ => ⟨info, hnew, le_of_eq (hgeneration.trans hinfo.symm)⟩
    obtain ⟨old, hmem, hle⟩ := h.checkpoints index hindex e' he' heq
    rw [hinfo]
    exact le_trans hle (le_trans (le_lastStateId hmem) (le_of_lt
        (lt_nextGeneration (lastStateId_le h.stateId_le) hcount)))
  baseline := by
    intro hmissing
    refine forall_sealed_concat (h.baseline hmissing) fun heq => ?_
    have hindex := checkpointLba_inj (hbase.symm.trans (heq.trans baselineLba_eq))
    omega

theorem StoreFresh.establishBaseline {info : BaselineInfo}
    {lba : ℕ} (hbase : e.base = baselineLba) : StoreFresh config
      { m with
        store :=
          { m.store with
            baseline := .ready info
            baselineLba := lba }
        encodings := m.encodings ++ [e] } where
  device := h.device
  storageKey := h.storageKey
  admits := h.admits
  generation_le := h.generation_le_append e
  slots other := forall_sealed_concat (h.slots other) fun heq =>
    absurd (heq.symm.trans (hbase.trans baselineLba_eq)) (slotLba_ne_checkpointLba other _)
  stateId_le := by
    intro other hother
    have hle := h.stateId_le other hother
    simp only [length_append]
    omega
  checkpoints := by
    intro index hindex
    refine forall_sealed_concat (h.checkpoints index hindex) fun heq => ?_
    have hcontra := checkpointLba_inj (heq.symm.trans (hbase.trans baselineLba_eq))
    omega
  baseline := by
    intro hmissing
    cases hmissing

end

/-! ## Boots -/

/-- A region was read as `o`: as the record sealed for it last, if there is
one. -/
structure ReadsLast (config : StoreConfig) (m : Machine) (base : ℕ)
    (o : Option SlotRead) : Prop where
  owned : o.filter config.owns = o
  admits : ∀ read ∈ o, config.Admits read.snapshot
  generation_le : ∀ read ∈ o, read.generation.toNat ≤ m.encodings.length
  last : ∀ e ∈ m.encodings, e.base = base → ∃ read ∈ o, e.generation ≤ read.generation

theorem DiskFresh.probes {legacyBase : ℕ} (hcipher : config.Opens cipher)
    (h : DiskFresh cipher config m) (hbase : IsRegion base) (hlegacy : legacyBase = base ∨
      LegacyUnreadable cipher config.storageKey m.device.blocks legacyBase) (slot : UInt8) :
    ∃ o : Option SlotRead, Probes cipher config.storageKey m.device.blocks base legacyBase slot
        (o, o.isNone) ∧ ReadsLast config m base o := by
  rcases h.regions base hbase with
    ⟨hzeros, hnone⟩ | ⟨r, hmem, hwhole, hlast⟩
  · refine ⟨none, probes_blank hzeros hlegacy, rfl, by simp, by simp, ?_⟩
    exact fun e he heq => absurd heq (hnone e he)
  refine ⟨some (r.read slot), (hwhole.headed hcipher).probes_held hcipher
    hwhole.held_eq legacyBase slot, filter_some_pos (r.owned slot), ?_, ?_, ?_⟩
  · rintro read hread
    cases hread
    exact r.admitted
  · rintro read hread
    cases hread
    exact (h.logged _ hmem).2
  · exact fun e he heq => ⟨_, rfl, hlast e he heq⟩

/-- Below the middle of its range the generation that is selected is the
larger one. -/
theorem newest_ge {first second : Option SlotRead}
    (hfirst : ∀ read ∈ first, read.generation.toNat < 2 ^ 63)
    (hsecond : ∀ read ∈ second, read.generation.toNat < 2 ^ 63)
    {read : SlotRead} (hread : read ∈ first ∨ read ∈ second) : ∃ selected ∈ newest first second,
      read.generation ≤ selected.generation := by
  rcases first with _ | a <;> rcases second with _ | b
  · rcases hread with hread | hread <;> cases hread
  · obtain rfl : b = read := by simpa using hread
    exact ⟨b, rfl, le_refl _⟩
  · obtain rfl : a = read := by simpa using hread
    exact ⟨a, rfl, le_refl _⟩
  have ha := hfirst a rfl
  have hb := hsecond b rfl
  have hsub : (b.generation - a.generation).toNat =
      (2 ^ 64 - a.generation.toNat + b.generation.toNat) % 2 ^ 64 :=
    UInt64.toNat_sub _ _
  simp only [newest, UInt64.le_iff_toNat_le, UInt64.lt_iff_toNat_lt, ne_eq, ← UInt64.toNat_inj]
  have hcases : a = read ∨ b = read := by simpa using hread
  split
  · refine ⟨b, rfl, ?_⟩
    rcases hcases with rfl | rfl
    · next hnew => simp at hnew; omega
    · omega
  · refine ⟨a, rfl, ?_⟩
    rcases hcases with rfl | rfl
    · omega
    · next hold => simp at hold; omega

/-- The regions as a boot reads them. -/
structure BootReads.Last (reads : BootReads) (config : StoreConfig)
    (m : Machine) : Prop where
  slotA : ReadsLast config m (slotLba 0) reads.slotA.1
  slotB : ReadsLast config m (slotLba 1) reads.slotB.1
  checkpoint : ∀ index < checkpointCapacity,
    ReadsLast config m (checkpointLba index) (reads.checkpoint index).1
  baseline : ReadsLast config m baselineLba reads.baseline.1

theorem DiskFresh.exists_reads (hcipher : config.Opens cipher)
    (h : DiskFresh cipher config m) (hlegacy : LegacyAbsent cipher config m) :
    ∃ reads : BootReads, reads.Match cipher config m.device.blocks ∧ reads.Last config m := by
  have hprobes : ∀ base legacyBase slot, BootProbe base legacyBase slot →
      ∃ result, Probes cipher config.storageKey m.device.blocks base legacyBase slot result ∧
        ReadsLast config m base result.1 := by
    intro base legacyBase slot hprobe
    obtain ⟨o, ho, hlast⟩ := h.probes hcipher hprobe.isRegion (hlegacy.elsewhere hprobe) slot
    exact ⟨(o, o.isNone), ho, hlast⟩
  obtain ⟨reads, hmatch, hall⟩ := exists_match hprobes
  exact ⟨reads, hmatch, hall.slotA, hall.slotB, hall.checkpoint, hall.baseline⟩

/-- The store a boot sets up has caught up with everything sealed. -/
theorem BootReads.Last.storeFresh {reads : BootReads}
    (h : reads.Last config m) (hcount : m.encodings.length < 2 ^ 63)
    (hstore : m'.store = reads.store config)
    (hencodings : m'.encodings = m.encodings) : StoreFresh config m' := by
  have hselected : ∀ read ∈ reads.selected config, read ∈ reads.slotA.1 ∨ read ∈ reads.slotB.1 := by
    intro read hread
    rw [selected, h.slotA.owned, h.slotB.owned] at hread
    exact mem_newest hread
  have hbound : ∀ read, read ∈ reads.slotA.1 ∨ read ∈ reads.slotB.1 →
      read.generation.toNat ≤ m.encodings.length := by
    rintro read (hread | hread)
    · exact h.slotA.generation_le read hread
    · exact h.slotB.generation_le read hread
  have hge : ∀ read, read ∈ reads.slotA.1 ∨ read ∈ reads.slotB.1 →
      read.generation ≤ (reads.store config).generation := by
    intro read hread
    obtain ⟨selected, hmem, hle⟩ := newest_ge
      (fun read hread => lt_of_le_of_lt (hbound read (.inl hread)) hcount)
      (fun read hread => lt_of_le_of_lt (hbound read (.inr hread)) hcount)
      hread
    rw [← h.slotA.owned, ← h.slotB.owned] at hmem
    change selected ∈ reads.selected config at hmem
    simp only [store, mem_def.mp hmem]
    exact hle
  obtain ⟨device, store, streams, next, encodings, accepted⟩ := m'
  cases hstore
  cases hencodings
  refine ⟨rfl, rfl, ?_, ?_, ?_, ?_, ?_, ?_⟩
  · intro s hs
    obtain ⟨read, hread, rfl⟩ := map_eq_some_iff.mp hs
    rcases hselected read hread with hread | hread
    · exact h.slotA.admits read hread
    · exact h.slotB.admits read hread
  · change (reads.store config).generation.toNat ≤ _
    simp only [store]
    rcases hread : reads.selected config with _ | read
    · exact zero_le _
    · exact hbound read (hselected read hread)
  · intro slot e he heq
    rw [slotLba] at heq
    split at heq
    · obtain ⟨read, hread, hle⟩ := h.slotA.last e he heq
      exact le_trans hle (hge read (.inl hread))
    · obtain ⟨read, hread, hle⟩ := h.slotB.last e he heq
      exact le_trans hle (hge read (.inr hread))
  · intro info hinfo
    obtain ⟨index, hindex, hentry⟩ := mem_map.mp (mem_occupants.mp hinfo)
    have hlast := h.checkpoint index (mem_range.mp hindex)
    rw [checkpointInfo, hlast.owned] at hentry
    obtain ⟨read, hread, rfl⟩ := map_eq_some_iff.mp hentry
    exact hlast.generation_le read hread
  · intro index hindex e he heq
    have hlast := h.checkpoint index hindex
    obtain ⟨read, hread, hle⟩ := hlast.last e he heq
    have hentry : reads.checkpointInfo config index = some
        { stateId := read.generation
          journalSequence := read.snapshot.journalSequence
          slot := UInt8.ofNat index
          legacy := (reads.checkpoint index).2 } := by
      rw [checkpointInfo, hlast.owned, mem_def.mp hread]
      rfl
    exact ⟨_, mem_occupants.mpr (mem_map.mpr ⟨index, mem_range.mpr hindex, hentry⟩), hle⟩
  · intro hmissing e he heq
    obtain ⟨read, hread, -⟩ := h.baseline.last e he heq
    rw [baselineState, h.baseline.owned, mem_def.mp hread] at hmissing
    cases hmissing

end Invariant

/-! ## Boots that lose power -/

section Cuttable

/-- On a disk without faults only the power changes how the call ends. -/
def Cuttable (x : StoreM α) : Prop :=
  ∀ (m : Machine) (power : Option ℕ), m.device.Quiet →
    (∃ n, x.run (m.withPower power) = (.halt, n)) ∨ (x.run m).2.device.Quiet ∧
      ∃ power', x.run (m.withPower power) = ((x.run m).1, (x.run m).2.withPower power')

/-- The call does not use the disk. -/
theorem cuttable_of_eq {x : StoreM α} (hquiet : ∀ m, (x.run m).2.device = m.device)
    (h : ∀ m power, x.run (m.withPower power) = ((x.run m).1, (x.run m).2.withPower power)) :
    Cuttable x :=
  fun m power hm => .inr ⟨by rwa [hquiet], power, h m power⟩

theorem cuttable_lift (x : Outcome StoreError α) : Cuttable (Effect.lift x) :=
  cuttable_of_eq (fun _ => rfl) fun _ _ => rfl

theorem cuttable_modifyStore (f : RuntimeStore → RuntimeStore) : Cuttable (modifyStore f) :=
  cuttable_of_eq (fun _ => rfl) fun _ _ => rfl

theorem cuttable_accept (read : SlotRead) : Cuttable (accept read) :=
  cuttable_of_eq (fun _ => rfl) fun _ _ => rfl

theorem Cuttable.bind {β : Type} {x : StoreM α} {f : α → StoreM β} (hx : Cuttable x)
    (hf : ∀ a, Cuttable (f a)) : Cuttable (x >>= f) := by
  intro m power hm
  rw [run_bind, run_bind]
  rcases hx m power hm with ⟨n, hrun⟩ | ⟨hquiet, power', hrun⟩
  · rw [hrun]
    exact .inl ⟨n, rfl⟩
  · rw [hrun]
    revert hquiet
    rcases x.run m with ⟨a | e | _, n⟩
    · exact hf a n power'
    · exact fun hquiet => .inr ⟨hquiet, power', rfl⟩
    · exact fun _ => .inl ⟨_, rfl⟩

theorem Cuttable.attempt {x : StoreM α} (hx : Cuttable x) : Cuttable x.attempt := by
  intro m power hm
  rw [run_attempt, run_attempt]
  rcases hx m power hm with ⟨n, hrun⟩ | ⟨hquiet, power', hrun⟩
  · rw [hrun]
    exact .inl ⟨n, rfl⟩
  · rw [hrun]
    revert hquiet
    rcases x.run m with ⟨a | e | _, n⟩
    · exact fun hquiet => .inr ⟨hquiet, power', rfl⟩
    · exact fun hquiet => .inr ⟨hquiet, power', rfl⟩
    · exact fun _ => .inl ⟨_, rfl⟩

theorem cuttable_forM {f : ℕ → StoreM Unit} (hf : ∀ index, Cuttable (f index))
    (indices : List ℕ) : Cuttable (indices.forM f) := by
  induction indices with
  | nil => exact cuttable_lift (.done ())
  | cons index rest ih => exact (hf index).bind fun _ => ih

theorem cuttable_readAll (lbas : List ℕ) : Cuttable (onDevice (Device.readAll lbas)) := by
  intro m power hm
  rw [readAll_quiet hm]
  rcases Device.readAll_powered (ε := StorageError) lbas m.device.blocks power with
    ⟨power', hread⟩ | ⟨d, hread⟩
  · refine .inr ⟨hm, power', ?_⟩
    simp only [onDevice, Machine.withPower, hread]
  · refine .inl ⟨{ m with device := d }, ?_⟩
    simp only [onDevice, Machine.withPower, hread]

theorem cuttable_readSector (lba : ℕ) : Cuttable (readSector lba) := by
  intro m power hm
  rw [readSector_quiet hm]
  rcases Device.read_powered (ε := StorageError) lba m.device.blocks power with
    ⟨power', -, hread⟩ | ⟨-, hread⟩
  · refine .inr ⟨hm, power', ?_⟩
    simp only [readSector, onDevice, Machine.withPower, hread]
  · refine .inl ⟨m.withPower none, ?_⟩
    simp only [readSector, onDevice, Machine.withPower, hread]

variable (cipher : StorageCipher) (config : StoreConfig)

theorem cuttable_decodeRead (encoded : Bytes) (base : ℕ) (slot : UInt8) :
    Cuttable (decodeRead cipher config.storageKey encoded base slot) := by
  rw [decodeRead]
  split
  · exact cuttable_lift (.done _)
  · exact cuttable_lift (.fail _)
  · exact cuttable_lift _

theorem cuttable_readOrLegacy (base legacyBase : ℕ) (slot : UInt8) :
    Cuttable (readOrLegacy cipher config.storageKey base legacyBase slot) := by
  have hcurrent : Cuttable (readAt cipher config.storageKey base slot) := by
    refine (cuttable_readSector base).bind fun header => ?_
    split
    · exact cuttable_lift (.fail _)
    · exact (cuttable_readAll _).bind fun _ => cuttable_decodeRead cipher config _ _ _
  have hlegacy : Cuttable (readLegacyAt cipher config.storageKey legacyBase slot) :=
    (cuttable_readAll _).bind fun _ => cuttable_decodeRead cipher config _ _ _
  refine hcurrent.attempt.bind fun current => ?_
  rcases current with _ | read
  · exact hlegacy.attempt.bind fun _ => cuttable_lift (.done _)
  · exact cuttable_lift (.done _)

theorem cuttable_initializeStore (probe : Except StorageError ℕ) :
    Cuttable (initializeStore cipher config probe) := by
  have hcheckpoint : ∀ index, Cuttable (loadCheckpoint cipher config index) := by
    intro index
    refine (cuttable_readOrLegacy cipher config _ _ _).bind fun result => ?_
    obtain ⟨checkpoint, legacy⟩ := result
    dsimp only
    split
    · exact cuttable_lift (.done _)
    · exact (cuttable_accept _).bind fun _ => cuttable_modifyStore _
  have hbaseline : Cuttable (loadBaseline cipher config) := by
    refine (cuttable_readOrLegacy cipher config _ _ _).bind fun result => ?_
    obtain ⟨baseline, legacy⟩ := result
    refine (cuttable_modifyStore _).bind fun _ => ?_
    split
    · exact (cuttable_accept _).bind fun _ => cuttable_modifyStore _
    · refine ((cuttable_readSector _).attempt.bind fun _ => cuttable_lift (.done _)).bind ?_
      exact fun _ => cuttable_modifyStore _
  rcases probe with error | sectors
  · exact cuttable_lift (.done _)
  simp only [initializeStore]
  split
  · exact cuttable_lift (.done _)
  refine (cuttable_readOrLegacy cipher config _ _ _).bind fun first => ?_
  refine (cuttable_readOrLegacy cipher config _ _ _).bind fun second => ?_
  refine (cuttable_modifyStore _).bind fun _ => (cuttable_forM hcheckpoint _).bind fun _ => ?_
  refine hbaseline.bind fun _ => ?_
  split
  · exact cuttable_lift (.done _)
  · exact (cuttable_accept _).bind fun _ => cuttable_modifyStore _

end Cuttable

theorem DiskFresh.boot {cipher : StorageCipher} {config : StoreConfig} {m m' : Machine}
    {sectors : ℕ} (hcipher : config.Opens cipher)
    (h : DiskFresh cipher config m) (hlegacy : LegacyAbsent cipher config m)
    (hcount : m.encodings.length < 2 ^ 63) (hsectors : minimumDiskSectors ≤ sectors)
    {o : Outcome StoreError Unit} {power : Option ℕ}
    (hrun : (initializeStore cipher config (.ok sectors)).run (m.restarted.withPower power) =
      (o, m')) (hup : o ≠ .halt) : StoreFresh config m' := by
  obtain ⟨reads, hmatch, hlast⟩ := h.exists_reads hcipher hlegacy
  rcases cuttable_initializeStore cipher config (.ok sectors) m.restarted power rfl with
    ⟨n, hhalt⟩ | ⟨-, power', hcut⟩
  · rw [hrun] at hhalt
    exact absurd (congrArg Prod.fst hhalt) hup
  · rw [hrun, initializeStore_run (m := m.restarted) hmatch rfl hsectors rfl] at hcut
    cases hcut
    exact hlast.storeFresh hcount rfl rfl

/-! ## Runs -/

/-- The machine whose next calls on the disk go as the script says. -/
def Machine.withScript (m : Machine) (script : List (IoEvent Sector StorageError)) : Machine :=
  { m with device := ⟨m.device.blocks, script⟩ }

section Runs

variable (cipher : StorageCipher) (config : StoreConfig) (sectors : ℕ)

/-- Runs from a blank disk on which any call may fail in any way.  All writers
of the store, restores included, end in `commitLocked`.  In a careful run only
the power fails, after what a call seals is written; the snapshots that are
committed are admitted, and no boot finds anything in the old layout. -/
inductive StoreRun (careful : Prop) : Machine → Bool → Prop
  | blank {m : Machine} (hlog : m.encodings = [])
      (hblank : ∀ lba, m.device.blocks lba = ByteBlock.zeros sectorSize) :
      StoreRun careful m false
  | boot {m m' : Machine} {up : Bool}
      {script : List (IoEvent Sector StorageError)}
      {o : Outcome StoreError Unit} (h : StoreRun careful m up)
      (hrun : (initializeStore cipher config (.ok sectors)).run
        (m.restarted.withScript script) = (o, m'))
      (hreads : careful → (∃ power, script = Device.powered power) ∧
        LegacyAbsent cipher config m) :
      StoreRun careful m' (decide (o ≠ .halt))
  | commit {m m' : Machine} {s : Snapshot}
      {script : List (IoEvent Sector StorageError)}
      {o : Outcome StoreError UInt64} (h : StoreRun careful m true)
      (hs : careful → config.Admits s)
      (hrun : (commitLocked cipher s).run (m.withScript script) = (o, m'))
      (hsettles : careful → Settles cipher s (m.withScript script)) :
      StoreRun careful m' (decide (o ≠ .halt))
  | checkpoint {m m' : Machine}
      {script : List (IoEvent Sector StorageError)}
      {o : Outcome StoreError CheckpointInfo} (h : StoreRun careful m true)
      (hrun : (recordCheckpoint cipher).run (m.withScript script) = (o, m'))
      (hsettles : careful → ∀ s ∈ m.store.snapshot, Settles cipher s (m.withScript script)) :
      StoreRun careful m' (decide (o ≠ .halt))
  | baseline {m m' : Machine}
      {script : List (IoEvent Sector StorageError)}
      {o : Outcome StoreError BaselineInfo} (h : StoreRun careful m true)
      (hrun : (establishBaseline cipher).run (m.withScript script) = (o, m'))
      (hsettles : careful → ∀ s ∈ m.store.snapshot, Settles cipher s (m.withScript script)) :
      StoreRun careful m' (decide (o ≠ .halt))

variable {cipher config sectors}

variable (cipher config sectors) in
/-- A boot leaves the disk and the history alone. -/
theorem initializeStore_keeps_disk (m : Machine) : Keeps (fun n : Machine =>
        n.device.blocks = m.device.blocks ∧ n.encodings = m.encodings)
      (initializeStore cipher config (.ok sectors)) := by
  refine initializeStore_keeps (Q := fun _ => True) ⟨?_, ?_, ?_, ?_, ?_⟩ _
  · exact fun n d hblocks _ hn => ⟨hblocks.trans hn.1, hn.2⟩
  · exact fun _ _ _ _ _ _ _ _ _ _ _ _ => trivial
  · exact fun _ _ => keeps_modify fun n hn => hn
  · exact fun f _ => keeps_modify fun n hn => hn
  · exact keeps_modify fun n hn => hn

/-- No call removes anything from the history. -/
theorem writeKeeps_length (k : ℕ) : WriteKeeps fun m => k ≤ m.encodings.length where
  device _ _ hm := hm
  log m e hm := by
    rw [length_append]
    exact le_add_right_of_le hm
  update _ _ := keeps_modify fun _ hm => hm

section Steps

variable {m m' : Machine}
  (hcipher : config.Opens cipher)
  (hdisk : DiskFresh cipher config m) (hstore : StoreFresh config m)

include hcipher hdisk hstore

theorem commitLocked_fresh {s : Snapshot} {o : Outcome StoreError UInt64}
    (hcount : m.encodings.length < 2 ^ 63) (hs : config.Admits s)
    (hrun : (commitLocked cipher s).run m = (o, m')) (hsettles : Settles cipher s m) :
    DiskFresh cipher config m' ∧ (o ≠ .halt → StoreFresh config m') := by
  rw [commitLocked_run cipher s hstore.device] at hrun
  have hends := sealEnds_of_finishes hcipher hsettles hrun (fun encoded => finishes_verify _ _ _)
    hs (nextGeneration_ne_zero _) hstore.storageKey
  have hle := hstore.generation_le
  have hnext := toNat_nextGeneration_of_lt hle hcount
  refine hends.fresh hcipher hdisk hstore (isRegion_slot _) ?_ (by omega)
    fun e hbase hgeneration => hstore.commit hs hcount hbase hgeneration
  exact fun e he heq => UInt64.lt_of_le_of_lt (hstore.slots _ e he heq)
    (lt_nextGeneration hle hcount)

theorem recordCheckpoint_fresh {o : Outcome StoreError CheckpointInfo}
    (hcount : m.encodings.length < 2 ^ 63) (hrun : (recordCheckpoint cipher).run m = (o, m'))
    (hsettles : ∀ s ∈ m.store.snapshot, Settles cipher s m) :
    DiskFresh cipher config m' ∧ (o ≠ .halt → StoreFresh config m') := by
  rcases recordCheckpoint_ends hcipher hstore.device hstore.storageKey
    hstore.admits hsettles hrun with rfl | ⟨s, slot, info, -, hslot, hinfo, hends⟩
  · exact ⟨hdisk, fun _ => hstore⟩
  have hlast := lastStateId_le hstore.stateId_le
  have hnext : (nextStateId m.store.checkpoints).toNat =
      (lastStateId m.store.checkpoints).toNat + 1 :=
    toNat_nextGeneration_of_lt hlast hcount
  refine hends.fresh hcipher hdisk hstore (isRegion_checkpoint hslot) ?_
    (by omega) fun e hbase hgeneration =>
      hstore.recordCheckpoint hcount hslot hinfo hbase hgeneration
  intro e he heq
  obtain ⟨other, hother, hle⟩ := hstore.checkpoints slot hslot e he heq
  exact UInt64.lt_of_le_of_lt (le_trans hle (le_lastStateId hother))
    (lt_nextGeneration hlast hcount)

theorem establishBaseline_fresh {o : Outcome StoreError BaselineInfo}
    (hrun : (establishBaseline cipher).run m = (o, m'))
    (hsettles : ∀ s ∈ m.store.snapshot, Settles cipher s m) :
    DiskFresh cipher config m' ∧ (o ≠ .halt → StoreFresh config m') := by
  rcases establishBaseline_ends hcipher hstore.device hstore.storageKey
    hstore.admits hsettles hrun with rfl | ⟨s, info, -, hmissing, hends⟩
  · exact ⟨hdisk, fun _ => hstore⟩
  have hle := hstore.generation_le
  have hone : (max m.store.generation 1).toNat ≤ m.encodings.length + 1 := by
    rw [UInt64.max_def]
    split
    · exact le_add_left 1 _
    · omega
  refine hends.fresh hcipher hdisk hstore isRegion_baseline ?_ hone
    fun e hbase _ => hstore.establishBaseline hbase
  exact fun e he heq => absurd heq (hstore.baseline hmissing e he)

end Steps

/-- A run keeps what its calls keep.  None of them takes back what was sealed. -/
theorem fresh_call {α : Type} [DecidableEq α] {x : StoreM α} {m m' : Machine} {script : List _}
    {o : Outcome StoreError α} (hx : ∀ k, Keeps (fun m => k ≤ m.encodings.length) x)
    (hrun : x.run (m.withScript script) = (o, m')) (hcount : m'.encodings.length < 2 ^ 63)
    (hbefore : m.encodings.length < 2 ^ 63 → DiskFresh cipher config m ∧
      (true = true → StoreFresh config m))
    (hcall : DiskFresh cipher config (m.withScript script) →
      StoreFresh config (m.withScript script) → m.encodings.length < 2 ^ 63 →
      DiskFresh cipher config m' ∧ (o ≠ .halt → StoreFresh config m')) :
    DiskFresh cipher config m' ∧ (decide (o ≠ .halt) = true → StoreFresh config m') := by
  have hlen := hx _ (m.withScript script) (le_refl m.encodings.length)
  rw [hrun] at hlen
  have hless := lt_of_le_of_lt hlen hcount
  obtain ⟨hdisk, hstore⟩ := hbefore hless
  rw [decide_eq_true_eq]
  exact hcall (hdisk.congr rfl rfl) ((hstore rfl).congr rfl rfl) hless

/-- What holds throughout a careful run. -/
theorem StoreRun.fresh {up : Bool}
    (hcipher : config.Opens cipher) (hsectors : minimumDiskSectors ≤ sectors)
    (h : StoreRun cipher config sectors True m up) (hcount : m.encodings.length < 2 ^ 63) :
    DiskFresh cipher config m ∧ (up = true → StoreFresh config m) := by
  induction h with
  | @blank m hlog hblank =>
    refine ⟨⟨?_, ?_, fun base _ => .inl ⟨hblank base, ?_⟩⟩, fun hup => by cases hup⟩
    · rw [hlog]
      exact .nil
    · simp [hlog]
    · simp [hlog]
  | @boot m m' up script o _ hrun hreads ih =>
    have hsame := initializeStore_keeps_disk cipher config sectors m
      (m.restarted.withScript script) ⟨rfl, rfl⟩
    rw [hrun] at hsame
    obtain ⟨hblocks, hencodings⟩ := hsame
    rw [hencodings] at hcount
    have hdisk := (ih hcount).1
    refine ⟨hdisk.congr hblocks hencodings, fun hup => ?_⟩
    obtain ⟨⟨power, rfl⟩, hlegacy⟩ := hreads trivial
    exact hdisk.boot hcipher hlegacy hcount hsectors hrun (of_decide_eq_true hup)
  | commit _ hs hrun hsettles ih =>
    refine fresh_call (fun k => commitLocked_keeps (writeKeeps_length k) _) hrun hcount ih ?_
    intro hdisk hstore hless
    exact commitLocked_fresh hcipher hdisk hstore hless (hs trivial) hrun (hsettles trivial)
  | checkpoint _ hrun hsettles ih =>
    refine fresh_call (fun k => recordCheckpoint_keeps (writeKeeps_length k)) hrun hcount ih ?_
    intro hdisk hstore hless
    exact recordCheckpoint_fresh hcipher hdisk hstore hless hrun (hsettles trivial)
  | baseline _ hrun hsettles ih =>
    refine fresh_call (fun k => establishBaseline_keeps (writeKeeps_length k)) hrun hcount ih ?_
    intro hdisk hstore _
    exact establishBaseline_fresh hcipher hdisk hstore hrun (hsettles trivial)

/-- No two different snapshots were sealed under the key with one nonce: with
the same CFC, generation and domain. -/
def NonceUnique (key : ByteBlock storageKeyLen) (log : List SlotEncoding) :
    Prop :=
  ∀ e ∈ log, ∀ e' ∈ log, e.key = some key → e'.key = some key →
    e.snapshot.cfc = e'.snapshot.cfc → e.generation = e'.generation →
    UInt32.ofNat e.base = UInt32.ofNat e'.base → e.snapshot = e'.snapshot

theorem DiskFresh.eq_of_same (h : DiskFresh cipher config m)
    {e e' : SlotEncoding} (he : e ∈ m.encodings) (he' : e' ∈ m.encodings)
    (hbase : e.base = e'.base) (hgeneration : e.generation = e'.generation) : e = e' := by
  obtain ⟨i, hi, rfl⟩ := getElem_of_mem he
  obtain ⟨j, hj, rfl⟩ := getElem_of_mem he'
  have hlt := pairwise_iff_getElem.mp h.increasing
  rcases lt_trichotomy i j with hij | rfl | hij
  · have hless := hlt i j hi hj hij hbase
    rw [hgeneration] at hless
    exact absurd hless (lt_irrefl _)
  · rfl
  · have hless := hlt j i hj hi hij hbase.symm
    rw [hgeneration] at hless
    exact absurd hless (lt_irrefl _)

/-- In every run in which all that is sealed reaches the disk, no nonce is
used for two snapshots. -/
theorem carefulRun_nonceUnique {m : Machine} {up : Bool} (key : ByteBlock storageKeyLen)
    (hcipher : config.storageKey ≠ none → cipher.Inverts) (hsectors : minimumDiskSectors ≤ sectors)
    (hrun : StoreRun cipher config sectors True m up) (hcount : m.encodings.length < 2 ^ 63) :
    NonceUnique key m.encodings := by
  intro e he e' he' _ _ _ hgeneration hdomain
  obtain ⟨hdisk, -⟩ := hrun.fresh hcipher hsectors hcount
  have hbase := (hdisk.logged e he).1.domain_inj (hdisk.logged e' he').1 hdomain
  rw [hdisk.eq_of_same he he' hbase hgeneration]

end Runs

/-! ## Two commits -/

/-- The snapshot of the notes after one more change. -/
def laterNotes : Snapshot := { notesSnapshot with journalSequence := 9 }

theorem laterNotes_admits : testConfig.Admits laterNotes where
  valid := by
    have h := testConfig_admits.valid
    exact ⟨h.cfc, h.cfcName, h.primaryDimension, by decide, h.nextFin,
      h.nextDimensionFin, h.forms, h.content, h.dimensions, h.handles⟩
  cfc := rfl
  primaryDimension := rfl
  relationships := testConfig_admits.relationships

theorem exists_laterRecord (base : ℕ) {generation : UInt64} (hgeneration : generation ≠ 0) :
    ∃ r : StoredRecord clearCipher testConfig base,
      r.snapshot = laterNotes ∧ r.generation = generation :=
  StoredRecord.exists_of_covers base (fun _ => clearCipher_inverts)
    laterNotes_admits hgeneration notesSnapshot_covers

variable {m : Machine}

/-- A booted machine with a blank disk, in a run of either kind. -/
theorem freshMachine_storeRun (careful : Prop) :
    StoreRun clearCipher testConfig minimumDiskSectors careful (freshMachine testConfig) true := by
  have hblank : StoreRun clearCipher testConfig minimumDiskSectors careful
      blankMachine false := .blank rfl fun _ => rfl
  have hboot := blankMachine_boot clearCipher testConfig (le_refl minimumDiskSectors)
  rw [← show blankMachine.withScript [] = blankMachine from rfl, ← blankMachine_restarted] at hboot
  exact hblank.boot hboot fun _ => ⟨⟨none, rfl⟩, legacyAbsent_of_zeros fun _ _ _ => rfl⟩

variable {target : UInt8}

/-- A commit on a disk without faults settles what it seals. -/
theorem StoreRun.commit_quiet {careful : Prop}
    (h : StoreRun clearCipher testConfig minimumDiskSectors careful m true)
    (hdevice : m.store.device = true) (hkey : m.store.storageKey = testConfig.storageKey)
    (htarget : m.store.activeSlot ^^^ 1 = target)
    (r : StoredRecord clearCipher testConfig (slotLba target))
    (hgeneration : r.generation = nextGeneration m.store.generation) :
    ∃ m', StoreRun clearCipher testConfig minimumDiskSectors careful m' true ∧
      m'.store.device = true ∧ m'.store.storageKey = testConfig.storageKey ∧
      m'.store.activeSlot = target ∧ m'.store.generation = r.generation ∧
      m'.encodings = m.encodings ++ [r.encoding] := by
  have hrun := commitLocked_quiet (m := m.withScript [])
    (fun _ => clearCipher_inverts) hdevice hkey rfl htarget r hgeneration
  refine ⟨_, h.commit (fun _ => r.admitted) hrun fun _ => ⟨none, rfl, ?_⟩,
    hdevice, hkey, rfl, rfl, rfl⟩
  intro _ _ _ _ _ hnone
  cases hnone

/-- Two commits seal two snapshots under two nonces. -/
theorem two_commits_nonceUnique :
    ∃ m, StoreRun clearCipher testConfig minimumDiskSectors True m true ∧ m.encodings.length = 2 ∧
      NonceUnique (ByteBlock.zeros storageKeyLen) m.encodings := by
  obtain ⟨r, -, hgeneration, -⟩ := exists_notesRecord (slotLba 0) testConfig_admits
  obtain ⟨m, hrun, hdevice, hkey, hactive, hcurrent, hlog⟩ :=
    (freshMachine_storeRun True).commit_quiet rfl rfl
      (show (1 : UInt8) ^^^ 1 = 0 by decide) r hgeneration
  obtain ⟨r', -, hgeneration'⟩ := exists_laterRecord (slotLba 1)
    (nextGeneration_ne_zero m.store.generation)
  obtain ⟨m', hrun', -, -, -, -, hlog'⟩ := hrun.commit_quiet hdevice hkey
    (by rw [hactive]; decide) r' hgeneration'
  have hlen : m'.encodings.length = 2 := by
    rw [hlog', hlog]
    rfl
  refine ⟨m', hrun', hlen, carefulRun_nonceUnique _
    (fun _ => clearCipher_inverts) (le_refl _) hrun' ?_⟩
  rw [hlen]
  decide

/-- The snapshot is sealed before the first write reports an error. -/
theorem writeSlot_fault {cipher : StorageCipher} {config : StoreConfig}
    (hcipher : config.Opens cipher)
    (hkey : m.store.storageKey = config.storageKey)
    (r : StoredRecord cipher config base) (error : StorageError) :
    (writeSlot cipher r.snapshot r.generation base).run
      (m.withScript [.fault error]) = (.fail (.disk error),
        { m.withScript [] with
          encodings := m.encodings ++ [r.encoding] }) := by
  have hpos := r.sectorCount_pos hcipher
  have hle := r.sectorCount_le hcipher
  have hwrites : slotWrites base r.encoded ≠ [] := by
    rw [← length_pos_iff, length_slotWrites]
    exact hpos
  have hfault := Device.writeAll_fault hwrites m.device.blocks error []
  have hkey' : (m.withScript [.fault error]).store.storageKey = config.storageKey := hkey
  have hbounds : ¬ (sectorCount r.encoded = 0 ∨ slotSectors < sectorCount r.encoded) := by omega
  rw [writeSlot, run_bind, encodeFor_run hkey', r.encodes]
  simp only [run_bind, writeAt, if_neg hbounds, onDevice, Machine.withScript, hfault]
  rfl

/-- A commit whose first write reports an error leaves the store as it
was. -/
theorem StoreRun.commit_fault (h : StoreRun clearCipher testConfig minimumDiskSectors False m true)
    (hdevice : m.store.device = true) (hkey : m.store.storageKey = testConfig.storageKey)
    (htarget : m.store.activeSlot ^^^ 1 = target)
    (r : StoredRecord clearCipher testConfig (slotLba target))
    (hgeneration : r.generation = nextGeneration m.store.generation) (error : StorageError) :
    ∃ m', StoreRun clearCipher testConfig minimumDiskSectors False m' true ∧ m'.store = m.store ∧
      m'.encodings = m.encodings ++ [r.encoding] := by
  subst htarget
  have hwrite := writeSlot_fault (fun _ => clearCipher_inverts) hkey r error
  rw [hgeneration] at hwrite
  have hrun := commitLocked_run clearCipher r.snapshot (m := m.withScript [.fault error]) hdevice
  rw [run_bind] at hrun
  simp only [Machine.withScript] at hrun hwrite
  rw [hwrite] at hrun
  exact ⟨_, h.commit (fun _ => r.admitted) hrun False.elim, rfl, rfl⟩

/-- A commit fails with a disk error and the next one commits another
snapshot: both are sealed with the same nonce. -/
theorem retried_commit_reuses_nonce :
    ∃ m, StoreRun clearCipher testConfig minimumDiskSectors False m true ∧
      ¬ NonceUnique (ByteBlock.zeros storageKeyLen) m.encodings := by
  have htarget : (1 : UInt8) ^^^ 1 = 0 := by decide
  obtain ⟨r, hsnapshot, hgeneration, -⟩ := exists_notesRecord (slotLba 0) testConfig_admits
  obtain ⟨m, hrun, hstore, hlog⟩ :=
    (freshMachine_storeRun False).commit_fault rfl rfl htarget r hgeneration .timeout
  obtain ⟨r', hsnapshot', hgeneration'⟩ := exists_laterRecord (slotLba 0)
    (show (1 : UInt64) ≠ 0 by decide)
  obtain ⟨m', hrun', -, -, -, -, hlog'⟩ := hrun.commit_quiet
    (by rw [hstore]; rfl) (by rw [hstore]; rfl)
    (by rw [hstore]; exact htarget) r'
    (by rw [hstore]; exact hgeneration')
  refine ⟨m', hrun', fun hunique => ?_⟩
  rw [hlog', hlog] at hunique
  have heq := hunique r.encoding (by simp) r'.encoding (by simp) rfl rfl
    (r.admitted.cfc.trans r'.admitted.cfc.symm)
    (hgeneration.trans hgeneration'.symm) rfl
  have hjournal : notesSnapshot.journalSequence = laterNotes.journalSequence := by
    rw [← hsnapshot, ← hsnapshot']
    exact congrArg Snapshot.journalSequence heq
  revert hjournal
  decide

end ExpOS
