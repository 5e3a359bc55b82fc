import ExpOS.Store.Region

/-!
# Writing a slot

The sectors of a slot are written in a rotated order: the header sector comes
last.  When the power fails in between, the old header sector is still there;
when all sectors are written, the region is whole.
-/

namespace ExpOS

open List Outcome Device

open Effect

/-! ## The order of the writes -/

theorem length_slotWrites (base : ℕ) (encoded : Bytes) :
    (slotWrites base encoded).length = sectorCount encoded := by
  simp [slotWrites]

variable {base : ℕ} {encoded : Bytes}

theorem mem_slotWrites_addresses {lba : ℕ} : lba ∈ (slotWrites base encoded).map Prod.fst ↔
      base ≤ lba ∧ lba < base + sectorCount encoded := by
  rw [slotWrites, map_map, mem_map]
  constructor
  · rintro ⟨writeIndex, hindex, rfl⟩
    rw [mem_range] at hindex
    have hlt := Nat.mod_lt (writeIndex + 1) (show 0 < sectorCount encoded by omega)
    exact ⟨Nat.le_add_right _ _, Nat.add_lt_add_left hlt _⟩
  rintro ⟨hle, hlt⟩
  obtain ⟨index, rfl⟩ := Nat.exists_eq_add_of_le hle
  have hindex : index < sectorCount encoded := by omega
  cases index with
  | zero =>
    refine ⟨sectorCount encoded - 1, by rw [mem_range]; omega, ?_⟩
    have hlast : sectorCount encoded - 1 + 1 = sectorCount encoded := by
      omega
    simp [hlast]
  | succ index =>
    refine ⟨index, by rw [mem_range]; omega, ?_⟩
    simp [Nat.mod_eq_of_lt hindex]

/-- The disk after the first `calls` writes of a slot. -/
def partlyWritten (base : ℕ) (encoded : Bytes) (calls : ℕ) (blocks : ℕ → Sector) : ℕ → Sector :=
  Device.written ((slotWrites base encoded).take calls) blocks

section PartlyWritten

variable {base calls : ℕ} {encoded : Bytes} (blocks : ℕ → Sector)

theorem partlyWritten_eq (lba : ℕ) : partlyWritten base encoded calls blocks lba =
      if lba ∈ ((slotWrites base encoded).take calls).map Prod.fst then
        sectorAt encoded (lba - base)
      else blocks lba := by
  refine written_eq (fun lba => sectorAt encoded (lba - base)) ?_ blocks lba
  intro w hw
  obtain ⟨writeIndex, -, rfl⟩ := mem_map.mp (mem_of_mem_take hw)
  simp

theorem partlyWritten_outside {lba : ℕ} (h : ¬ (base ≤ lba ∧ lba < base + sectorCount encoded)) :
    partlyWritten base encoded calls blocks lba = blocks lba := by
  rw [partlyWritten_eq, if_neg]
  intro hmem
  rw [map_take] at hmem
  exact h (mem_slotWrites_addresses.mp (mem_of_mem_take hmem))

/-- Before its last write a slot has its old header sector. -/
theorem partlyWritten_header (h : calls < sectorCount encoded) :
    partlyWritten base encoded calls blocks base = blocks base := by
  rw [partlyWritten_eq, if_neg]
  rw [slotWrites, ← map_take, take_range, map_map, mem_map]
  rintro ⟨writeIndex, hindex, heq⟩
  rw [mem_range] at hindex
  have hmod : (writeIndex + 1) % sectorCount encoded = writeIndex + 1 := Nat.mod_eq_of_lt (by omega)
  simp only [Function.comp_apply] at heq
  omega

/-- After its last write every sector of a slot is on the disk. -/
theorem partlyWritten_all (h : sectorCount encoded ≤ calls) {index : ℕ}
    (hindex : index < sectorCount encoded) :
    partlyWritten base encoded calls blocks (base + index) = sectorAt encoded index := by
  rw [partlyWritten_eq, if_pos, Nat.add_sub_cancel_left]
  rw [take_of_length_le (by rwa [length_slotWrites])]
  exact mem_slotWrites_addresses.mpr ⟨by omega, by omega⟩

end PartlyWritten

/-! ## Writing on a powered device -/

/-- A step that leaves the blocks alone and is stopped only by the power. -/
def OnlyCut (m : Machine) (blocks : ℕ → Sector) (power : Option ℕ) (x : StoreM Unit) : Prop :=
  ∃ power', (power = none → power' = none) ∧ (x.run m =
      (.done (), { m with device := ⟨blocks, powered power'⟩ }) ∨
    (power ≠ none ∧ x.run m = (.halt, { m with device := ⟨blocks, powered power'⟩ })))

section Powered

variable {m : Machine} {blocks : ℕ → Sector} {power : Option ℕ}
  (hdevice : m.device = ⟨blocks, Device.powered power⟩)

include hdevice

theorem writeAt_lasts (base : ℕ) (hpos : 0 < sectorCount encoded)
    (hle : sectorCount encoded ≤ slotSectors) (h : Device.Lasts power (sectorCount encoded)) :
    ∃ power', (power = none → power' = none) ∧ (writeAt base encoded).run m = (.done (),
          { m with
            device :=
              ⟨partlyWritten base encoded (sectorCount encoded) blocks,
                powered power'⟩ }) := by
  rw [partlyWritten, ← length_slotWrites base, take_length]
  rw [← length_slotWrites base] at h
  obtain ⟨power', hnone, hwrite⟩ := writeAll_powered (ε := StorageError) blocks h
  refine ⟨power', hnone, ?_⟩
  rw [writeAt, if_neg (by omega)]
  simp only [onDevice, hdevice, hwrite]

theorem writeAt_cut (base : ℕ) {calls : ℕ} (hle : sectorCount encoded ≤ slotSectors)
    (hpower : power = some calls) (h : calls < sectorCount encoded) : (writeAt base encoded).run m =
      (.halt,
        { m with
          device := ⟨partlyWritten base encoded calls blocks, []⟩ }) := by
  subst hpower
  rw [← length_slotWrites base] at h
  have hwrite := writeAll_cut (ε := StorageError) blocks h
  rw [length_slotWrites] at h
  rw [writeAt, if_neg (by omega)]
  simp only [onDevice, hdevice, hwrite, partlyWritten]

/-- On a whole region the verification never reports a mismatch. -/
theorem verifySector_powered {index : ℕ} {expected : Bytes}
    (h : blocks (base + index) = sectorAt expected index) :
    OnlyCut m blocks power (verifySector base expected index) := by
  have hmatch : (sectorAt expected index).val.take
      (min (expected.length - index * sectorSize) sectorSize) =
      (expected.drop (index * sectorSize)).take
        (min (expected.length - index * sectorSize) sectorSize) := by
    simp only [sectorAt, Blocks.padded]
    rw [take_append_of_le_length, take_take]
    · congr 1
      omega
    · rw [length_take, length_drop]
      omega
  rcases read_powered (ε := StorageError) (base + index) blocks power
    with ⟨power', hnone, hread⟩ | ⟨hpower, hread⟩
  · refine ⟨power', hnone, .inl ?_⟩
    rw [verifySector, run_bind]
    simp only [readSector, onDevice, hdevice, hread, h, hmatch, ne_eq]
    rfl
  · refine ⟨none, fun _ => rfl, .inr ⟨hpower, ?_⟩⟩
    rw [verifySector, run_bind]
    simp only [readSector, onDevice, hdevice, hread]

end Powered

variable {m : Machine} {blocks : ℕ → Sector} {power : Option ℕ} {expected : Bytes}

theorem verifySectors_powered (indices : List ℕ)
    (hdevice : m.device = ⟨blocks, powered power⟩) (h : ∀ index ∈ indices,
      blocks (base + index) = sectorAt expected index) :
    OnlyCut m blocks power (indices.forM (verifySector base expected)) := by
  induction indices generalizing m power with
  | nil =>
    refine ⟨power, id, .inl ?_⟩
    rw [← hdevice]
    rfl
  | cons index rest ih =>
    have hcons : (index :: rest).forM (verifySector base expected) =
        verifySector base expected index >>= fun _ => rest.forM (verifySector base expected) := rfl
    rw [hcons, OnlyCut, run_bind]
    obtain ⟨power', hnone, hfirst | ⟨hpower, hfirst⟩⟩ :=
      verifySector_powered hdevice (h index mem_cons_self)
    · rw [hfirst]
      obtain ⟨power'', hnone', hrest | ⟨hpower, hrest⟩⟩ :=
        ih (m := { m with device := ⟨blocks, powered power'⟩ })
          rfl fun i hi => h i (mem_cons_of_mem _ hi)
      · exact ⟨power'', hnone' ∘ hnone, .inl hrest⟩
      · exact ⟨power'', hnone' ∘ hnone, .inr ⟨fun hpower' => hpower (hnone hpower'), hrest⟩⟩
    · rw [hfirst]
      exact ⟨power', hnone, .inr ⟨hpower, rfl⟩⟩

theorem verifyWrite_powered (hdevice : m.device = ⟨blocks, powered power⟩)
    (h : ∀ index < sectorCount expected, blocks (base + index) = sectorAt expected index) :
    OnlyCut m blocks power (verifyWrite base expected) :=
  verifySectors_powered _ hdevice fun index hindex => h index (mem_range.mp hindex)

/-! ## How writing a slot ends -/

variable {cipher : StorageCipher} {config : StoreConfig}

/-- The entry of a record in the history of encodings. -/
def StoredRecord.encoding (r : StoredRecord cipher config base) : SlotEncoding where
  key := config.storageKey
  snapshot := r.snapshot
  generation := r.generation
  base := base
  encoded := r.encoded

section WriteEnds

variable (cipher : StorageCipher) (config : StoreConfig) (base : ℕ)
  (s : Snapshot) (generation : UInt64) (power : Option ℕ) (m : Machine)

/-- How `writeSlot` ends on a powered device: the record is whole, it is torn
with the old header in place, or the snapshot has no encoding. -/
inductive WriteEnds : Outcome StoreError Bytes → Machine → Prop
  | whole (r : StoredRecord cipher config base) (power' : Option ℕ)
      (hsnapshot : r.snapshot = s) (hgeneration : r.generation = generation)
      (hlasts : Device.Lasts power (sectorCount r.encoded))
      (hnone : power = none → power' = none) :
      WriteEnds (.done r.encoded)
        { m with
          device :=
            ⟨partlyWritten base r.encoded (sectorCount r.encoded)
              m.device.blocks, Device.powered power'⟩
          encodings := m.encodings ++ [r.encoding] }
  | torn (r : StoredRecord cipher config base) (calls : ℕ)
      (hsnapshot : r.snapshot = s) (hgeneration : r.generation = generation)
      (hpower : power = some calls)
      (hcalls : calls < sectorCount r.encoded) :
      WriteEnds .halt
        { m with
          device := ⟨partlyWritten base r.encoded calls m.device.blocks, []⟩
          encodings := m.encodings ++ [r.encoding] }
  | refused (o : Outcome StoreError Bytes)
      (hencode : ∀ encoded, encodeSlot cipher s generation
        config.storageKey (UInt32.ofNat base) ≠ .done encoded)
      (hne : ∀ encoded, o ≠ .done encoded) : WriteEnds o m

variable {cipher config base s generation power m}

theorem encodeFor_run (hkey : m.store.storageKey = config.storageKey) :
    (encodeFor cipher s generation base).run m =
      match encodeSlot cipher s generation config.storageKey (UInt32.ofNat base) with
      | .done encoded => (.done encoded,
          { m with
            encodings := m.encodings ++
              [{ key := config.storageKey, snapshot := s, generation,
                 base, encoded }] })
      | .fail e => (.fail e, m)
      | .halt => (.halt, m) := by
  simp only [encodeFor, getStore, run_bind, Effect.get, run_pure, hkey]
  rcases encodeSlot cipher s generation config.storageKey
    (UInt32.ofNat base) with encoded | e | _ <;> rfl

theorem writeSlot_powered (hcipher : config.Opens cipher)
    (hs : config.Admits s) (hgeneration : generation ≠ 0)
    (hkey : m.store.storageKey = config.storageKey)
    (hscript : m.device.script = powered power) :
    WriteEnds cipher config base s generation power m ((writeSlot cipher s generation base).run m).1
      ((writeSlot cipher s generation base).run m).2 := by
  rw [writeSlot, run_bind, encodeFor_run hkey]
  rcases hencode : encodeSlot cipher s generation config.storageKey
    (UInt32.ofNat base) with encoded | e | _
  · let r : StoredRecord cipher config base :=
      { snapshot := s, generation, encoded, admitted := hs
        generation_ne := hgeneration, encodes := hencode }
    have hpos := r.sectorCount_pos hcipher
    have hle := r.sectorCount_le hcipher
    have hdevice : m.device = ⟨m.device.blocks, powered power⟩ := by
      rw [← hscript]
    simp only [run_bind]
    by_cases hlasts : Device.Lasts power (sectorCount encoded)
    · obtain ⟨power', hnone, hwrite⟩ := writeAt_lasts
        (m := { m with encodings := m.encodings ++ [r.encoding] })
        hdevice base hpos hle hlasts
      simp only [StoredRecord.encoding] at hwrite
      rw [hwrite]
      exact WriteEnds.whole r power' rfl rfl hlasts hnone
    · obtain ⟨calls, hpower, hcalls⟩ : ∃ calls, power = some calls ∧
          calls < sectorCount encoded := by
        simpa [Device.Lasts] using hlasts
      have hwrite := writeAt_cut (m := { m with encodings := m.encodings ++ [r.encoding] })
        hdevice base hle hpower hcalls
      simp only [StoredRecord.encoding] at hwrite
      rw [hwrite]
      exact WriteEnds.torn r calls rfl rfl hpower hcalls
  · exact WriteEnds.refused _ (by simp [hencode]) (by simp)
  · exact WriteEnds.refused _ (by simp [hencode]) (by simp)

end WriteEnds

/-! ## Commits -/

theorem commitLocked_run (cipher : StorageCipher) (s : Snapshot) (hdevice : m.store.device = true) :
    (commitLocked cipher s).run m = (writeSlot cipher s (nextGeneration m.store.generation)
        (slotLba (m.store.activeSlot ^^^ 1)) >>= fun encoded =>
      verifyWrite (slotLba (m.store.activeSlot ^^^ 1)) encoded >>= fun _ =>
      modifyStore (fun store =>
        { store with
          snapshot := some s
          generation := nextGeneration m.store.generation
          activeSlot := m.store.activeSlot ^^^ 1 }) >>= fun _ =>
      pure (nextGeneration m.store.generation)).run m := by
  simp only [commitLocked, getStore, run_bind, Effect.get,
    run_pure, hdevice, Bool.true_eq_false, if_false]

/-- `commit` refuses a snapshot, or it goes on to write what it makes of
it. -/
theorem commit_cases (cipher : StorageCipher) (m : Machine) (s : Snapshot) :
    (∃ error, (commit cipher s).run m = (.fail error, m)) ∨ (s.published m.store.snapshot).Valid ∧
        (s.published m.store.snapshot).cfc = m.store.cfc ∧ ((commit cipher s).run m).2 =
          ((commitLocked cipher (s.published m.store.snapshot)).run m).2 := by
  simp only [commit, getStore, run_bind, Effect.get, run_pure]
  rcases hvalid : validateSnapshot (s.published m.store.snapshot) with
    error | _
  · exact .inl ⟨error, rfl⟩
  by_cases hcfc : (s.published m.store.snapshot).cfc ≠ m.store.cfc
  · simp only [if_pos hcfc]
    exact .inl ⟨.wrongCfc, rfl⟩
  refine .inr ⟨validateSnapshot_eq_ok.mp hvalid, not_not.mp hcfc, ?_⟩
  simp only [if_neg hcfc, run_bind]
  rcases (commitLocked cipher (s.published m.store.snapshot)).run m with
    ⟨_ | _ | _, _⟩
  · rfl
  · rfl
  · rfl

variable {m' : Machine} {s : Snapshot} {generation : UInt64}

/-- `commit` writes what it makes of the snapshot. -/
theorem commit_run (hvalid : (s.published m.store.snapshot).Valid)
    (hcfc : (s.published m.store.snapshot).cfc = m.store.cfc)
    (hrun : (commitLocked cipher (s.published m.store.snapshot)).run m = (.done generation, m')) :
    (commit cipher s).run m = (.done (s.published m.store.snapshot).journalSequence, m') := by
  simp only [commit, getStore, run_bind, Effect.get,
    run_pure, validateSnapshot_eq_ok.mpr hvalid, if_neg (not_not.mpr hcfc), hrun]

/-- A snapshot that `commit` leaves as it is. -/
theorem commit_run_same (hsame : s.published m.store.snapshot = s) (hvalid : s.Valid)
    (hcfc : s.cfc = m.store.cfc) (hrun : (commitLocked cipher s).run m = (.done generation, m')) :
    (commit cipher s).run m = (.done s.journalSequence, m') := by
  have h := commit_run (s := s) (m := m) (by rwa [hsame]) (by rwa [hsame]) (by rwa [hsame])
  rwa [hsame] at h

/-- The machine once the region of an entry has been written. -/
def Machine.stored (m : Machine) (e : SlotEncoding) : Machine :=
  { m with
    device :=
      ⟨partlyWritten e.base e.encoded (sectorCount e.encoded)
        m.device.blocks, []⟩
    encodings := m.encodings ++ [e] }

@[simp] theorem Machine.stored_store (m : Machine) (e : SlotEncoding) :
    (m.stored e).store = m.store := rfl

theorem verifyWrite_stored (m : Machine) (e : SlotEncoding) :
    (verifyWrite e.base e.encoded).run (m.stored e) = (.done (), m.stored e) := by
  have hdevice : (m.stored e).device = ⟨(m.stored e).device.blocks, powered none⟩ := rfl
  obtain ⟨power, hnone, hverify | ⟨hpower, -⟩⟩ := verifyWrite_powered hdevice fun index hindex =>
      partlyWritten_all _ (Nat.le_refl _) hindex
  · cases hnone rfl
    exact hverify
  · exact absurd rfl hpower

theorem verifyWrite_record (m : Machine) (r : StoredRecord cipher config base) :
    (verifyWrite base r.encoded).run (m.stored r.encoding) = (.done (), m.stored r.encoding) :=
  verifyWrite_stored m r.encoding

/-- A record that can be encoded is written as a whole. -/
theorem writeSlot_record (hcipher : config.Opens cipher)
    (hkey : m.store.storageKey = config.storageKey)
    (hquiet : m.device.Quiet) (r : StoredRecord cipher config base) :
    (writeSlot cipher r.snapshot r.generation base).run m =
      (.done r.encoded, m.stored r.encoding) := by
  let logged : Machine := { m with encodings := m.encodings ++ [r.encoding] }
  have hdevice : logged.device = ⟨m.device.blocks, powered none⟩ := by
    rw [← show m.device.script = powered none from hquiet]
  obtain ⟨power, hnone, hwrite⟩ := writeAt_lasts hdevice base
    (r.sectorCount_pos hcipher) (r.sectorCount_le hcipher)
    (fun calls hcalls => by cases hcalls)
  cases hnone rfl
  rw [writeSlot, run_bind, encodeFor_run hkey, r.encodes]
  change (writeAt base r.encoded >>= fun _ => pure r.encoded).run logged = _
  rw [run_bind, hwrite]
  rfl

/-- On a disk without faults a commit of a snapshot that can be encoded
completes. -/
theorem commitLocked_quiet {target : UInt8} (hcipher : config.Opens cipher)
    (hdevice : m.store.device = true) (hkey : m.store.storageKey = config.storageKey)
    (hquiet : m.device.Quiet) (htarget : m.store.activeSlot ^^^ 1 = target)
    (r : StoredRecord cipher config (slotLba target))
    (hgeneration : r.generation = nextGeneration m.store.generation) :
    (commitLocked cipher r.snapshot).run m = (.done r.generation,
        { m with
          device :=
            ⟨partlyWritten (slotLba target) r.encoded (sectorCount r.encoded) m.device.blocks, []⟩
          store :=
            { m.store with
              snapshot := some r.snapshot
              generation := r.generation
              activeSlot := target }
          encodings := m.encodings ++ [r.encoding] }) := by
  subst htarget
  rw [commitLocked_run cipher _ hdevice, ← hgeneration, run_bind,
    writeSlot_record hcipher hkey hquiet r]
  dsimp only
  rw [run_bind, verifyWrite_record]
  rfl

/-! ## Errors -/

variable {P : Machine → Prop}

/-- Writing a slot touches the device and the history of encodings only. -/
theorem writeSlot_keeps (hP : IgnoresDevice P)
    (hlog : ∀ (m : Machine) (e : SlotEncoding), P m → P { m with encodings := m.encodings ++ [e] })
    (cipher : StorageCipher) (s : Snapshot) (generation : UInt64) (base : ℕ) :
    Keeps P (writeSlot cipher s generation base) := by
  have hencode : Keeps P (encodeFor cipher s generation base) := by
    refine keeps_getStore.bind fun _ => ?_
    refine (keeps_lift _).bind fun _ => ?_
    refine (keeps_modify fun m hm => ?_).bind fun _ => keeps_pure _
    exact hlog m _ hm
  refine hencode.bind fun encoded => ?_
  refine Keeps.bind ?_ fun _ => keeps_pure _
  rw [writeAt]
  split
  · exact keeps_fail _
  · exact hP.onDevice_keeps _

/-- The steps of the calls that write keep `P`. -/
structure WriteKeeps (P : Machine → Prop) : Prop where
  device : IgnoresDevice P
  log : ∀ (m : Machine) (e : SlotEncoding), P m → P { m with encodings := m.encodings ++ [e] }
  update : ∀ f : RuntimeStore → RuntimeStore, (∀ store, (f store).storageKey = store.storageKey ∧
      (f store).device = store.device) → Keeps P (modifyStore f)

/-- Writing to a region, checking it and updating the store keep `P`. -/
structure CallKeeps (cipher : StorageCipher) (P : Machine → Prop) :
    Prop where
  write : ∀ s generation base, IsRegion base → Keeps P (writeSlot cipher s generation base)
  verify : ∀ base encoded, Keeps P (verifyWrite base encoded)
  update : ∀ f : RuntimeStore → RuntimeStore, (∀ store, (f store).storageKey = store.storageKey ∧
      (f store).device = store.device) → Keeps P (modifyStore f)

theorem WriteKeeps.callKeeps (h : WriteKeeps P) (cipher : StorageCipher) : CallKeeps cipher P where
  write s generation base _ := writeSlot_keeps h.device h.log cipher s generation base
  verify := verifyWrite_keeps h.device.ignoresScript
  update := h.update

namespace CallKeeps

variable {cipher : StorageCipher} {P : Machine → Prop}
  (h : CallKeeps cipher P)

include h

theorem commitLocked (s : Snapshot) : Keeps P (commitLocked cipher s) := by
  refine keeps_getStore.bind fun store => ?_
  split
  · exact keeps_fail _
  refine (h.write _ _ _ (isRegion_slot _)).bind fun encoded => ?_
  refine (h.verify _ _).bind fun _ => ?_
  refine Keeps.bind (h.update _ fun _ => ?_) fun _ => keeps_pure _
  exact ⟨rfl, rfl⟩

theorem commit (s : Snapshot) : Keeps P (commit cipher s) := by
  refine keeps_getStore.bind fun store => ?_
  dsimp only
  split
  · exact keeps_fail _
  · split
    · exact keeps_fail _
    · exact (h.commitLocked _).bind fun _ => keeps_pure _

theorem recordCheckpoint : Keeps P (recordCheckpoint cipher) := by
  refine keeps_getStore.bind fun store => ?_
  refine (keeps_lift _).bind fun snapshot => ?_
  split
  · exact keeps_fail _
  have hcell : Yields (· < checkpointCapacity) (Effect.lift (.ofOption .verificationFailed
        (store.checkpoints.freeIndex <|> oldestCheckpoint store.checkpoints)) : StoreM ℕ) := by
    intro m slot m' hrun
    exact checkpointSlot_lt (ofOption_eq_done.mp (congrArg Prod.fst hrun))
  refine (keeps_lift _).bind_yields (fun m _ => hcell m) fun slot hslot => ?_
  refine (h.write _ _ _ (isRegion_checkpoint hslot)).bind fun encoded => ?_
  refine (h.verify _ _).bind fun _ => ?_
  refine Keeps.bind (h.update _ fun _ => ?_) fun _ => keeps_pure _
  exact ⟨rfl, rfl⟩

theorem establishBaseline : Keeps P (establishBaseline cipher) := by
  refine keeps_getStore.bind fun store => ?_
  split
  · exact keeps_pure _
  · exact keeps_fail _
  refine (keeps_lift _).bind fun snapshot => ?_
  split
  · exact keeps_fail _
  refine (h.write _ _ _ isRegion_baseline).bind fun encoded => ?_
  refine (h.verify _ _).attempt.bind fun verified => ?_
  rcases verified with _ | _
  · refine Keeps.bind (h.update _ fun _ => ?_) fun _ => keeps_fail _
    exact ⟨rfl, rfl⟩
  · refine Keeps.bind (h.update _ fun _ => ?_) fun _ => keeps_pure _
    exact ⟨rfl, rfl⟩

end CallKeeps

section Keeping

variable {cipher : StorageCipher} {P : Machine → Prop} (h : WriteKeeps P)

include h

theorem commitLocked_keeps (s : Snapshot) : Keeps P (commitLocked cipher s) :=
  (h.callKeeps cipher).commitLocked s

theorem commit_keeps (s : Snapshot) : Keeps P (commit cipher s) :=
  (h.callKeeps cipher).commit s

theorem recordCheckpoint_keeps : Keeps P (recordCheckpoint cipher) :=
  (h.callKeeps cipher).recordCheckpoint

theorem establishBaseline_keeps : Keeps P (establishBaseline cipher) :=
  (h.callKeeps cipher).establishBaseline

end Keeping

variable {error : StoreError}

/-- A commit that reports an error has not touched the store in memory. -/
theorem commitLocked_fail (h : (commitLocked cipher s).run m = (.fail error, m')) :
    m'.store = m.store := by
  by_cases hdevice : m.store.device = true
  · rw [commitLocked_run cipher s hdevice] at h
    have hdev : IgnoresDevice fun n => n.store = m.store := fun _ _ hn => hn
    have hkeeps := writeSlot_keeps hdev (fun _ _ hn => hn) cipher s
      (nextGeneration m.store.generation)
      (slotLba (m.store.activeSlot ^^^ 1)) m rfl
    rcases run_bind_eq_fail h with hwrite | ⟨encoded, m₁, hwrite, h⟩
    · rwa [hwrite] at hkeeps
    rw [hwrite] at hkeeps
    rcases run_bind_eq_fail h with hverify | ⟨_, m₂, -, h⟩
    · have hreads := verifyWrite_keeps hdev.ignoresScript
        (slotLba (m.store.activeSlot ^^^ 1)) encoded m₁ hkeeps
      rwa [hverify] at hreads
    · rcases run_bind_eq_fail h with hmodify | ⟨_, m₃, -, h⟩
      · cases hmodify
      · cases h
  · rw [Bool.not_eq_true] at hdevice
    simp only [commitLocked, getStore, run_bind, Effect.get, run_pure, hdevice] at h
    cases h
    rfl

theorem commit_fail (h : (commit cipher s).run m = (.fail error, m')) : m'.store = m.store := by
  simp only [commit, getStore, run_bind, Effect.get, run_pure] at h
  split at h
  · cases h
    rfl
  split at h
  · cases h
    rfl
  · rcases run_bind_eq_fail h with hlocked | ⟨_, _, -, h⟩
    · exact commitLocked_fail hlocked
    · cases h

end ExpOS
