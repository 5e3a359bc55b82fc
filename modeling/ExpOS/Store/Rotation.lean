import ExpOS.Store.Forged
import ExpOS.Support.Ring

/-!
# The rotation of checkpoints

Checkpoints go to the cells of their table in turn, because a free cell is
taken first and the oldest checkpoint is overwritten then.  So the table is a
ring: it holds the last checkpoints that were recorded, and a boot finds the
same ones on the disk.
-/

namespace ExpOS

open List SlotTable Option

open Effect

/-! ## What a region holds -/

/-- The region is blank, or it holds the record of a snapshot. -/
def Held (cipher : StorageCipher) (config : StoreConfig)
    (blocks : ℕ → Sector) (base : ℕ) : Option (Snapshot × UInt64) → Prop
  | none => blocks base = ByteBlock.zeros sectorSize
  | some (s, generation) => ∃ r : StoredRecord cipher config base,
      r.snapshot = s ∧ r.generation = generation ∧ r.Whole blocks

section Held

variable {cipher : StorageCipher} {config : StoreConfig}
  (hcipher : config.Opens cipher)
  {blocks blocks' : ℕ → Sector} {base : ℕ}
  {content : Option (Snapshot × UInt64)}

include hcipher

theorem Held.congr (h : Held cipher config blocks base content) (hblocks : ∀ index < slotSectors,
      blocks' (base + index) = blocks (base + index)) :
    Held cipher config blocks' base content := by
  rcases content with _ | ⟨s, generation⟩
  · exact (hblocks 0 (by decide)).trans h
  obtain ⟨r, hsnapshot, hgeneration, hwhole⟩ := h
  have hcount := r.sectorCount_le hcipher
  refine ⟨r, hsnapshot, hgeneration, fun index hindex => ?_⟩
  rw [hblocks index (by omega)]
  exact hwhole index hindex

/-- Writing a region leaves the others alone. -/
theorem Held.write {other : ℕ} (h : Held cipher config blocks other content)
    (hbase : IsRegion base) (hother : IsRegion other) (hne : other ≠ base)
    {encoded : Bytes} (hcount : sectorCount encoded ≤ slotSectors) (calls : ℕ) :
    Held cipher config (partlyWritten base encoded calls blocks) other
      content := by
  refine h.congr hcipher fun index hindex => partlyWritten_outside _ ?_
  have hapart := hbase.apart hother hne hindex
  omega

/-- What a boot or a restore reads from a region. -/
theorem Held.probes {legacyBase : ℕ} (h : Held cipher config blocks base content)
    (hlegacy : legacyBase = base ∨ LegacyUnreadable cipher config.storageKey blocks legacyBase)
    (slot : UInt8) : ∃ o : Option SlotRead,
      Probes cipher config.storageKey blocks base legacyBase slot
        (o, o.isNone) ∧ o.filter config.owns = o ∧
      o.map (fun read => (read.snapshot, read.generation)) = content ∧
      ∀ read ∈ o, read.slot = slot ∧ config.Stores read.snapshot := by
  rcases content with _ | ⟨s, generation⟩
  · exact ⟨none, probes_blank h hlegacy, rfl, rfl, by simp⟩
  obtain ⟨r, rfl, rfl, hwhole⟩ := h
  refine ⟨some (r.read slot), (hwhole.headed hcipher).probes_held hcipher
    hwhole.held_eq legacyBase slot, filter_some_pos (r.owned slot), rfl, ?_⟩
  rintro read hread
  cases hread
  exact ⟨rfl, r.admitted, r.covers⟩

/-- A record is read back. -/
theorem Held.readAt {m : Machine} {generation : UInt64}
    (h : Held cipher config m.device.blocks base (some (s, generation)))
    (hquiet : m.device.Quiet) (slot : UInt8) :
    config.Stores s ∧ ∃ read : SlotRead, read.snapshot = s ∧
      (readAt cipher config.storageKey base slot).run m = (.done read, m) := by
  obtain ⟨r, rfl, rfl, hwhole⟩ := h
  refine ⟨⟨r.admitted, r.covers⟩, r.read slot, rfl, ?_⟩
  rw [(hwhole.headed hcipher).readAt hcipher hquiet, hwhole.held_eq]
  exact decodeRead_eq_done (r.roundTrip hcipher slot).2 m

end Held

variable {s : Snapshot}

theorem StoreConfig.Stores.after {config : StoreConfig}
    (h : config.Stores s) (current : Option Snapshot) : config.Stores (s.after current) := by
  rcases current with _ | current
  · exact h
  have hvalid := h.admitted.valid
  exact ⟨⟨⟨hvalid.cfc, hvalid.cfcName, hvalid.primaryDimension,
    nextRevision_ne_zero _, hvalid.nextFin, hvalid.nextDimensionFin,
    hvalid.forms, hvalid.content, hvalid.dimensions, hvalid.handles⟩,
    h.admitted.cfc, h.admitted.primaryDimension, h.admitted.relationships⟩, h.covers⟩

/-! ## Runs -/

/-- The steps of a run. -/
inductive ArchiveStep where
  | commit (snapshot : Snapshot)
  | recordCheckpoint
  | restoreCheckpoint (stateId : UInt64)
  | establishBaseline
  | reboot

/-- A machine, and the checkpoints that it recorded with the snapshots that
were current then. -/
structure Archive where
  machine : Machine
  recorded : List (CheckpointInfo × Snapshot)

namespace Archive

/-- A machine with a blank disk, booted for `config`. -/
def start (config : StoreConfig) : Archive where
  machine := freshMachine config
  recorded := []

theorem start_machine (config : StoreConfig) : (start config).machine = freshMachine config := rfl

/-- The last checkpoints that were recorded. -/
def retained (a : Archive) : List (CheckpointInfo × Snapshot) :=
  a.recorded.drop (a.recorded.length - checkpointCapacity)

variable (cipher : StorageCipher) (config : StoreConfig) (sectors : ℕ)

def step (a : Archive) : ArchiveStep → Archive
  | .commit snapshot =>
    { a with machine := ((commit cipher snapshot).run a.machine).2 }
  | .recordCheckpoint =>
    match (recordCheckpoint cipher).run a.machine, a.machine.store.snapshot with
    | (.done info, m'), some snapshot =>
      { machine := m', recorded := a.recorded ++ [(info, snapshot)] }
    | (_, m'), _ => { a with machine := m' }
  | .restoreCheckpoint stateId =>
    { a with
      machine := ((restoreCheckpoint cipher stateId).run a.machine).2 }
  | .establishBaseline =>
    { a with machine := ((establishBaseline cipher).run a.machine).2 }
  | .reboot =>
    { a with
      machine := ((initializeStore cipher config (.ok sectors)).run
        a.machine.restarted).2 }

def after (a : Archive) (steps : List ArchiveStep) : Archive :=
  steps.foldl (step cipher config sectors) a

/-- A commit that completes is of a snapshot that a boot accepts, and a boot
finds nothing at the addresses of the old layout. -/
def Careful (a : Archive) : ArchiveStep → Prop
  | .commit snapshot =>
    ∀ sequence m', (commit cipher snapshot).run a.machine = (.done sequence, m') →
    config.Admits (snapshot.published a.machine.store.snapshot)
  | .reboot => LegacyAbsent cipher config a.machine
  | _ => True

/-- Every step of a sequence is careful when its turn comes. -/
def AllCareful (a : Archive) : List ArchiveStep → Prop
  | [] => True
  | next :: rest =>
    a.Careful cipher config next ∧ (a.step cipher config sectors next).AllCareful rest

/-- The entry of the checkpoint that was recorded as the `k`th one. -/
def Numbered (k : ℕ) (entry : CheckpointInfo × Snapshot) : Prop :=
  entry.1.stateId.toNat = k + 1 ∧ entry.1 =
      { stateId := entry.1.stateId
        journalSequence := entry.2.journalSequence
        slot := UInt8.ofNat (k % checkpointCapacity)
        legacy := false }

/-- The disk and the store hold the last checkpoints and the baseline. -/
structure Rotates (a : Archive) : Prop where
  ready : a.machine.Ready config
  snapshot : ∀ s, a.machine.store.snapshot = some s → config.Stores s
  slots : ∀ slot, ∃ content, Held cipher config a.machine.device.blocks (slotLba slot) content
  numbered : ∀ k entry, a.recorded[k]? = some entry → Numbered k entry
  table : a.machine.store.checkpoints = (SlotTable.ring checkpointCapacity a.recorded).map Prod.fst
  checkpoints : ∀ index < checkpointCapacity,
    Held cipher config a.machine.device.blocks (checkpointLba index)
      (((SlotTable.ring checkpointCapacity a.recorded).get index).map
        fun entry => (entry.2, entry.1.stateId))
  baseline : ∃ content, Held cipher config a.machine.device.blocks baselineLba content ∧
      a.machine.store.baseline = content.elim .missing fun entry =>
        .ready
          { generation := entry.2
            journalSequence := entry.1.journalSequence }

end Archive

/-- The baseline has not been written since. -/
structure BaselineKept (m m' : Machine) : Prop where
  baseline : m'.store.baseline = m.store.baseline
  blocks : ∀ index < slotSectors, m'.device.blocks (baselineLba + index) =
      m.device.blocks (baselineLba + index)
  encodings : m'.encodings.filter (·.base = baselineLba) = m.encodings.filter (·.base = baselineLba)

section BaselineKept

variable {m m' m'' : Machine}

theorem BaselineKept.refl (m : Machine) : BaselineKept m m :=
  ⟨rfl, fun _ _ => rfl, rfl⟩

theorem BaselineKept.trans (h : BaselineKept m m')
    (h' : BaselineKept m' m'') : BaselineKept m m'' where
  baseline := h'.baseline.trans h.baseline
  blocks index hindex := (h'.blocks index hindex).trans (h.blocks index hindex)
  encodings := h'.encodings.trans h.encodings

/-- An attempt that wrote nothing. -/
theorem BaselineKept.logged {log : List SlotEncoding} {base : ℕ}
    (hne : base ≠ baselineLba) (hlog : ∀ e ∈ log, e.base = base) :
    BaselineKept m { m with encodings := m.encodings ++ log } := by
  refine ⟨rfl, fun _ _ => rfl, ?_⟩
  have hnone : log.filter (·.base = baselineLba) = [] := by
    refine filter_eq_nil_iff.mpr fun e he => ?_
    rw [hlog e he]
    simpa using hne
  rw [filter_append, hnone, append_nil]

/-- Another region has been written. -/
theorem BaselineKept.stored {e : SlotEncoding} {store : RuntimeStore}
    (hbase : IsRegion e.base) (hne : e.base ≠ baselineLba)
    (hcount : sectorCount e.encoded ≤ slotSectors) (hstore : store.baseline = m.store.baseline) :
    BaselineKept m { m.stored e with store } where
  baseline := hstore
  blocks index hindex := by
    refine partlyWritten_outside _ ?_
    have hapart := hbase.apart isRegion_baseline hne.symm hindex
    omega
  encodings := (BaselineKept.logged hne (by simp) :
      BaselineKept m { m with encodings := m.encodings ++ [e] }).encodings

end BaselineKept

namespace Archive

/-- A step leaves the archive in order and an established baseline alone. -/
structure Follows (cipher : StorageCipher) (config : StoreConfig)
    (a b : Archive) : Prop where
  rotates : b.Rotates cipher config
  baseline : ∀ info, a.machine.store.baseline = .ready info → BaselineKept a.machine b.machine

section Steps

variable {cipher : StorageCipher} {config : StoreConfig}
  (hcipher : config.Opens cipher) {a : Archive}
  (h : a.Rotates cipher config)

include h

theorem Rotates.refl : Follows cipher config a a :=
  ⟨h, fun _ _ => .refl _⟩

theorem Rotates.logged {log : List SlotEncoding} {base : ℕ}
    (hne : base ≠ baselineLba) (hlog : ∀ e ∈ log, e.base = base) : Follows cipher config a
      { a with
        machine :=
          { a.machine with
            encodings := a.machine.encodings ++ log } } where
  rotates := ⟨⟨h.ready.device, h.ready.storageKey, h.ready.cfc,
      h.ready.primaryDimension, h.ready.quiet⟩, h.snapshot, h.slots,
      h.numbered, h.table, h.checkpoints, h.baseline⟩
  baseline _ _ := .logged hne hlog

theorem Rotates.accepted (reads : List SlotRead) : Rotates cipher config
      { a with machine := { a.machine with accepted := reads } } :=
  ⟨⟨h.ready.device, h.ready.storageKey, h.ready.cfc,
    h.ready.primaryDimension, h.ready.quiet⟩, h.snapshot, h.slots,
    h.numbered, h.table, h.checkpoints, h.baseline⟩

include hcipher

/-- A commit to the other slot. -/
theorem Rotates.published (r : StoredRecord cipher config
      (slotLba (a.machine.store.activeSlot ^^^ 1))) : Follows cipher config a
      { a with
        machine :=
          { a.machine.stored r.encoding with
            store := a.machine.store.publishing r.snapshot } } := by
  have hcount := r.sectorCount_le hcipher
  have hregion := isRegion_slot (a.machine.store.activeSlot ^^^ 1)
  refine ⟨⟨⟨h.ready.device, h.ready.storageKey, h.ready.cfc,
    h.ready.primaryDimension, rfl⟩, ?_, ?_, h.numbered, h.table, ?_, ?_⟩,
    fun _ _ => .stored hregion (slotLba_ne_baselineLba _) hcount rfl⟩
  · rintro s hs
    cases hs
    exact ⟨r.admitted, r.covers⟩
  · intro slot
    by_cases hsame : slotLba slot = slotLba (a.machine.store.activeSlot ^^^ 1)
    · refine ⟨some (r.snapshot, r.generation), ?_⟩
      rw [hsame]
      exact ⟨r, rfl, rfl, fun index hindex => partlyWritten_all _ (Nat.le_refl _) hindex⟩
    · obtain ⟨content, hheld⟩ := h.slots slot
      exact ⟨content, hheld.write hcipher hregion (isRegion_slot slot) hsame hcount _⟩
  · intro index hindex
    exact (h.checkpoints index hindex).write hcipher hregion
      (isRegion_checkpoint hindex) (slotLba_ne_checkpointLba _ _).symm
      hcount _
  · obtain ⟨content, hheld, hbaseline⟩ := h.baseline
    exact ⟨content, hheld.write hcipher hregion isRegion_baseline
      (slotLba_ne_baselineLba _).symm hcount _, hbaseline⟩

variable {s : Snapshot}

/-- Commits of a snapshot that the store admits. -/
theorem Rotates.commitLocked (hs : config.Admits s) : Follows cipher config a
      { a with
        machine := ((commitLocked cipher s).run a.machine).2 } := by
  rcases commitLocked_cases cipher h.ready s with
    ⟨e, hencodes, ⟨hkey, hsnapshot, hgeneration, hbase⟩, -, hrun⟩ | ⟨o, log, hrun, -, hlog⟩
  · obtain ⟨key, snapshot, generation, base, encoded⟩ := e
    subst hkey hsnapshot hgeneration hbase
    rw [hrun]
    exact h.published hcipher ⟨_, _, encoded, hs, nextGeneration_ne_zero _, hencodes⟩
  · rw [hrun]
    exact h.logged (slotLba_ne_baselineLba _) hlog

omit hcipher

/-! ### The table -/

variable {index : ℕ}

theorem Rotates.entry {entry : CheckpointInfo × Snapshot}
    (hget : (SlotTable.ring checkpointCapacity a.recorded).get index = some entry) :
    ∃ k, a.recorded[k]? = some entry ∧ a.recorded.length ≤ k + checkpointCapacity ∧
      k % checkpointCapacity = index ∧ Numbered k entry := by
  obtain ⟨k, hk, hrecent, hturn⟩ := (get_ring (lt_of_get hget)).mp hget
  exact ⟨k, hk, hrecent, hturn, h.numbered k entry hk⟩

theorem Rotates.ids_increase : a.recorded.Pairwise fun x y =>
      x.1.stateId.toNat < y.1.stateId.toNat := by
  refine pairwise_iff_getElem.mpr fun i j hi hj hlt => ?_
  have hfirst := (h.numbered i _ (List.getElem?_eq_getElem hi)).1
  have hsecond := (h.numbered j _ (List.getElem?_eq_getElem hj)).1
  omega

/-- The next checkpoint goes to the cell whose turn it is. -/
theorem Rotates.next_cell : (a.machine.store.checkpoints.freeIndex <|>
      oldestCheckpoint a.machine.store.checkpoints) =
        some (a.recorded.length % checkpointCapacity) := by
  rw [h.table, ring_map, freeIndex_ring, length_map]
  split
  · next hlt => rw [Nat.mod_eq_of_lt hlt]; rfl
  have hkeys : (a.recorded.map Prod.fst).Pairwise fun x y => x.stateId.toNat < y.stateId.toNat :=
    pairwise_map.mpr h.ids_increase
  have holdest := argmin_keyedCells_ring (show 0 < checkpointCapacity by decide)
    (by rw [length_map]; omega) hkeys
  rw [length_map] at holdest
  exact holdest

/-- The table holds the last checkpoints. -/
theorem Rotates.perm_retained : a.machine.store.checkpoints.occupants.Perm
      (a.retained.map Prod.fst) := by
  have hperm := perm_occupants_ring (a.recorded.map Prod.fst)
    (show 0 < checkpointCapacity by decide)
  rwa [← ring_map, ← h.table, length_map, ← map_drop] at hperm

omit h in
theorem mem_retained {entry : CheckpointInfo × Snapshot} :
    entry ∈ a.retained ↔ ∃ k, a.recorded[k]? = some entry ∧
      a.recorded.length ≤ k + checkpointCapacity := by
  rw [retained, mem_drop_iff_getElem]
  constructor
  · rintro ⟨j, hj, rfl⟩
    exact ⟨a.recorded.length - checkpointCapacity + j,
      List.getElem?_eq_getElem (by omega), by omega⟩
  · rintro ⟨k, hk, hrecent⟩
    obtain ⟨hlt, rfl⟩ := List.getElem?_eq_some_iff.mp hk
    refine ⟨k - (a.recorded.length - checkpointCapacity), by omega, ?_⟩
    congr 1
    omega

/-- The next state id is the number of the checkpoint. -/
theorem Rotates.next_stateId (hcount : a.recorded.length + 1 < 2 ^ 64) :
    (nextStateId a.machine.store.checkpoints).toNat = a.recorded.length + 1 := by
  have hle : (lastStateId a.machine.store.checkpoints).toNat ≤ a.recorded.length := by
    refine lastStateId_le fun info hinfo => ?_
    obtain ⟨entry, hentry, rfl⟩ := mem_map.mp (h.perm_retained.mem_iff.mp hinfo)
    obtain ⟨k, hk, -⟩ := mem_retained.mp hentry
    have hlt := (List.getElem?_eq_some_iff.mp hk).1
    rw [(h.numbered k entry hk).1]
    exact hlt
  have hge : a.recorded.length ≤ (lastStateId a.machine.store.checkpoints).toNat := by
    rcases Nat.eq_zero_or_pos a.recorded.length with hzero | hpos
    · omega
    have hk : a.recorded.length - 1 < a.recorded.length := by omega
    have hlast := List.getElem?_eq_getElem hk
    have hrecent : a.recorded.length ≤ a.recorded.length - 1 + checkpointCapacity := by
      simp only [checkpointCapacity]
      omega
    have hmem := h.perm_retained.mem_iff.mpr (mem_map_of_mem
      (f := Prod.fst) (mem_retained.mpr ⟨_, hlast, hrecent⟩))
    have hid := UInt64.le_iff_toNat_le.mp (le_lastStateId hmem)
    rw [(h.numbered _ _ hlast).1] at hid
    omega
  change (nextGeneration (lastStateId _)).toNat = _
  rw [toNat_nextGeneration]
  split <;> omega

/-! ### The calls -/

include hcipher

theorem Rotates.commit {snapshot : Snapshot}
    (hcareful : a.Careful cipher config (.commit snapshot)) : Follows cipher config a
      { a with
        machine := ((commit cipher snapshot).run a.machine).2 } := by
  rcases commit_cases cipher a.machine snapshot with
    ⟨error, hrun⟩ | ⟨hvalid, hcfc, hstate⟩
  · rw [hrun]
    exact h.refl
  rw [hstate]
  rcases commitLocked_cases cipher h.ready (snapshot.published a.machine.store.snapshot) with
    ⟨e, -, -, -, hrun⟩ | ⟨o, log, hrun, -, hlog⟩
  · exact h.commitLocked hcipher (hcareful _ _ (commit_run hvalid hcfc hrun))
  · rw [hrun]
    exact h.logged (slotLba_ne_baselineLba _) hlog

variable {info : CheckpointInfo}

/-- A checkpoint in the cell whose turn it is. -/
theorem Rotates.recorded (r : StoredRecord cipher config
      (checkpointLba (a.recorded.length % checkpointCapacity)))
    (hnumbered : Numbered a.recorded.length (info, r.snapshot))
    (hid : info.stateId = r.generation) : Follows cipher config a
      { machine :=
          { a.machine.stored r.encoding with
            store :=
              { a.machine.store with
                checkpoints := a.machine.store.checkpoints.put
                  (a.recorded.length % checkpointCapacity)
                  (some info) } }
        recorded := a.recorded ++ [(info, r.snapshot)] } := by
  have hcount := r.sectorCount_le hcipher
  have hturn : a.recorded.length % checkpointCapacity <
      checkpointCapacity := Nat.mod_lt _ (by decide)
  have hregion := isRegion_checkpoint hturn
  refine ⟨⟨⟨h.ready.device, h.ready.storageKey, h.ready.cfc,
    h.ready.primaryDimension, rfl⟩, h.snapshot, ?_, ?_, ?_, ?_, ?_⟩,
    fun _ _ => .stored hregion (checkpointLba_ne_baselineLba hturn) hcount rfl⟩
  · intro slot
    obtain ⟨content, hheld⟩ := h.slots slot
    exact ⟨content, hheld.write hcipher hregion (isRegion_slot slot)
      (slotLba_ne_checkpointLba _ _) hcount _⟩
  · intro k entry hk
    rcases Nat.lt_or_ge k a.recorded.length with hlt | hge
    · rw [List.getElem?_append_left hlt] at hk
      exact h.numbered k entry hk
    rw [List.getElem?_append_right hge, List.getElem?_singleton] at hk
    split at hk
    · next hzero =>
        cases hk
        rwa [show k = a.recorded.length by omega]
    · cases hk
  · change a.machine.store.checkpoints.put _ _ = _
    rw [ring_concat, map_put, ← h.table]
  · intro index hindex
    rw [ring_concat]
    by_cases hsame : index = a.recorded.length % checkpointCapacity
    · subst hsame
      rw [get_put_self hindex]
      exact ⟨r, rfl, hid.symm, fun index hindex => partlyWritten_all _ (Nat.le_refl _) hindex⟩
    · rw [get_put_of_ne hsame]
      exact (h.checkpoints index hindex).write hcipher hregion (isRegion_checkpoint hindex)
        (fun heq => hsame (checkpointLba_inj heq)) hcount _
  · obtain ⟨content, hheld, hbaseline⟩ := h.baseline
    exact ⟨content, hheld.write hcipher hregion isRegion_baseline
      (checkpointLba_ne_baselineLba hturn).symm hcount _, hbaseline⟩

variable {sectors : ℕ} {m' : Machine}

omit hcipher h in
theorem step_commit
    {o : Outcome StoreError UInt32} (hrun : (ExpOS.commit cipher s).run a.machine = (o, m')) :
    a.step cipher config sectors (.commit s) = ⟨m', a.recorded⟩ := by
  rw [step, hrun]

omit hcipher h in
theorem step_reboot
    {o : Outcome StoreError Unit} (hrun : (initializeStore cipher config (.ok sectors)).run
      a.machine.restarted = (o, m')) : a.step cipher config sectors .reboot = ⟨m', a.recorded⟩ := by
  rw [step, hrun]

omit hcipher h in
theorem step_recordCheckpoint (hrun : (ExpOS.recordCheckpoint cipher).run a.machine =
      (.done info, m')) (hsnapshot : a.machine.store.snapshot = some s) :
    a.step cipher config sectors .recordCheckpoint =
      { machine := m', recorded := a.recorded ++ [(info, s)] } := by
  rw [step, hrun, hsnapshot]

theorem Rotates.recordCheckpoint (hcount : (a.step cipher config sectors
      .recordCheckpoint).recorded.length < 2 ^ 64) : Follows cipher config a
      (a.step cipher config sectors .recordCheckpoint) := by
  rcases hsnapshot : a.machine.store.snapshot with _ | s
  · have hrun : (ExpOS.recordCheckpoint cipher).run a.machine =
        (.fail .noCurrentState, a.machine) := by
      simp only [ExpOS.recordCheckpoint, getStore, run_bind,
        Effect.get, run_pure, run_lift, hsnapshot]
      rfl
    rw [step, hrun]
    exact h.refl
  · obtain ⟨hadmits, hcovers⟩ := h.snapshot s hsnapshot
    obtain ⟨r, rfl, hgeneration⟩ := StoredRecord.exists_of_covers
      (checkpointLba (a.recorded.length % checkpointCapacity)) hcipher
      hadmits (nextGeneration_ne_zero _) hcovers
    have hrun := recordCheckpoint_ready cipher hcipher h.ready r hsnapshot
      h.next_cell hgeneration
    rw [step_recordCheckpoint hrun hsnapshot] at hcount ⊢
    have hid : r.generation.toNat = a.recorded.length + 1 := by
      rw [hgeneration]
      exact h.next_stateId (by simpa using hcount)
    have hnumbered : Numbered a.recorded.length
        ({ stateId := r.generation
           journalSequence := r.snapshot.journalSequence
           slot := UInt8.ofNat (a.recorded.length % checkpointCapacity)
           legacy := false }, r.snapshot) := ⟨hid, rfl⟩
    exact h.recorded hcipher r hnumbered rfl

omit hcipher in
/-- State ids are unique, so a search finds the entry. -/
theorem Rotates.find_entry {entry : CheckpointInfo × Snapshot} (hentry : entry ∈ a.retained) :
    a.machine.store.checkpoints.occupants.find? (·.stateId == entry.1.stateId) = some entry.1 := by
  obtain ⟨info, hfind⟩ : ∃ info, a.machine.store.checkpoints.occupants.find?
        (·.stateId == entry.1.stateId) = some info := by
    rw [← isSome_iff_exists, List.find?_isSome]
    exact ⟨entry.1, h.perm_retained.mem_iff.mpr (mem_map_of_mem hentry), by simp⟩
  obtain ⟨other, hother, rfl⟩ := mem_map.mp
    (h.perm_retained.mem_iff.mp (mem_of_find?_eq_some hfind))
  have hid : other.1.stateId = entry.1.stateId := by
    simpa using List.find?_some hfind
  obtain ⟨k, hk, -⟩ := mem_retained.mp hentry
  obtain ⟨j, hj, -⟩ := mem_retained.mp hother
  have hnumber := (h.numbered k entry hk).1
  rw [← hid, (h.numbered j other hj).1] at hnumber
  obtain rfl : j = k := by omega
  rw [hfind, Option.some.inj (hj.symm.trans hk)]

/-- Restoring a checkpoint of the table commits the snapshot that was current
when it was recorded. -/
theorem Rotates.restore_run {entry : CheckpointInfo × Snapshot} (hentry : entry ∈ a.retained) :
    config.Stores (entry.2.after a.machine.store.snapshot) ∧
    ∃ read, (restoreCheckpoint cipher entry.1.stateId).run a.machine = (ExpOS.commitLocked cipher
        (entry.2.after a.machine.store.snapshot)).run
          { a.machine with accepted := a.machine.accepted ++ [read] } := by
  obtain ⟨k, hk, hrecent⟩ := mem_retained.mp hentry
  have hturn : k % checkpointCapacity < checkpointCapacity := Nat.mod_lt _ (by decide)
  have hget := (get_ring hturn).mpr ⟨k, hk, hrecent, rfl⟩
  obtain ⟨hid, hinfo⟩ := h.numbered k entry hk
  have hheld := h.checkpoints _ hturn
  rw [hget] at hheld
  have hslot : entry.1.slot.toNat = k % checkpointCapacity := by
    rw [hinfo]
    change k % checkpointCapacity % 256 = _
    simp only [checkpointCapacity]
    omega
  obtain ⟨hstores, read, hsnapshot, hread⟩ := hheld.readAt hcipher h.ready.quiet entry.1.slot
  refine ⟨hstores.after _, read, ?_⟩
  have hlegacy : entry.1.legacy = false := by rw [hinfo]
  simp only [ExpOS.restoreCheckpoint, getStore, run_bind, Effect.get,
    run_pure, run_lift, h.find_entry hentry,
    Outcome.ofOption_some, h.ready.device, hlegacy, Bool.true_eq_false,
    Bool.false_eq_true, if_false, hslot, h.ready.storageKey, hread, accept, Effect.modify]
  rw [hsnapshot]

theorem Rotates.restoreCheckpoint (stateId : UInt64) : Follows cipher config a
      { a with
        machine := ((restoreCheckpoint cipher stateId).run a.machine).2 } := by
  rcases hfound : a.machine.store.checkpoints.occupants.find? (·.stateId == stateId) with _ | info
  · have hrun : (ExpOS.restoreCheckpoint cipher stateId).run a.machine =
        (.fail .checkpointNotFound, a.machine) := by
      simp only [ExpOS.restoreCheckpoint, getStore, run_bind, Effect.get, run_pure, hfound]
      rfl
    rw [hrun]
    exact h.refl
  · have hmem := h.perm_retained.mem_iff.mp (mem_of_find?_eq_some hfound)
    obtain ⟨entry, hentry, rfl⟩ := mem_map.mp hmem
    have hid : entry.1.stateId = stateId := by
      simpa using List.find?_some hfound
    obtain ⟨hstores, read, hrun⟩ := h.restore_run hcipher hentry
    rw [← hid, hrun]
    have hfollows := (h.accepted
      (a.machine.accepted ++ [read])).commitLocked hcipher hstores.admitted
    refine ⟨hfollows.rotates, fun info hready => ?_⟩
    have hkept := hfollows.baseline info hready
    exact ⟨hkept.baseline, hkept.blocks, hkept.encodings⟩

/-- The baseline, once. -/
theorem Rotates.established (r : StoredRecord cipher config baselineLba)
    (hbaseline : a.machine.store.baseline = .missing) : Follows cipher config a
      { a with
        machine :=
          { a.machine.stored r.encoding with
            store :=
              { a.machine.store with
                baseline := .ready
                  { generation := r.generation
                    journalSequence := r.snapshot.journalSequence }
                baselineLba := ExpOS.baselineLba } } } := by
  have hcount := r.sectorCount_le hcipher
  have hregion := isRegion_baseline
  refine ⟨⟨⟨h.ready.device, h.ready.storageKey, h.ready.cfc,
    h.ready.primaryDimension, rfl⟩, h.snapshot, ?_, h.numbered, h.table,
    ?_, ?_⟩, fun info hready => ?_⟩
  · intro slot
    obtain ⟨content, hheld⟩ := h.slots slot
    exact ⟨content, hheld.write hcipher hregion (isRegion_slot slot)
      (slotLba_ne_baselineLba _) hcount _⟩
  · intro index hindex
    exact (h.checkpoints index hindex).write hcipher hregion
      (isRegion_checkpoint hindex) (checkpointLba_ne_baselineLba hindex)
      hcount _
  · exact ⟨some (r.snapshot, r.generation), ⟨r, rfl, rfl,
      fun index hindex => partlyWritten_all _ (Nat.le_refl _) hindex⟩, rfl⟩
  · rw [hbaseline] at hready
    cases hready

theorem Rotates.establishBaseline : Follows cipher config a
      { a with
        machine := ((establishBaseline cipher).run a.machine).2 } := by
  obtain ⟨content, hheld, hbaseline⟩ := h.baseline
  rcases content with _ | ⟨s, generation⟩
  · rcases hsnapshot : a.machine.store.snapshot with _ | s
    · have hrun : ((ExpOS.establishBaseline cipher).run a.machine).2 = a.machine := by
        simp only [ExpOS.establishBaseline, getStore, run_bind, Effect.get, run_pure, hbaseline,
          hsnapshot]
        rfl
      rw [hrun]
      exact h.refl
    · obtain ⟨hadmits, hcovers⟩ := h.snapshot s hsnapshot
      obtain ⟨r, rfl, hgeneration⟩ := StoredRecord.exists_of_covers baselineLba hcipher hadmits
        (max_one_ne_zero a.machine.store.generation) hcovers
      rw [establishBaseline_ready cipher hcipher h.ready r hbaseline hsnapshot hgeneration]
      exact h.established hcipher r hbaseline
  · have hrun : ((ExpOS.establishBaseline cipher).run a.machine).2 = a.machine := by
      simp only [ExpOS.establishBaseline, getStore, run_bind,
        Effect.get, run_pure, hbaseline, elim_some]
    rw [hrun]
    exact h.refl

/-- The regions as a boot reads them. -/
structure Reads (config : StoreConfig) (a : Archive) (reads : BootReads) :
    Prop where
  owned : ∀ read, read ∈ reads.slotA.1 ∨ read ∈ reads.slotB.1 → config.Stores read.snapshot
  checkpoint : ∀ index < checkpointCapacity, reads.checkpointInfo config index =
      ((SlotTable.ring checkpointCapacity a.recorded).get index).map
        Prod.fst
  baseline : reads.baselineState config = a.machine.store.baseline

omit hcipher in
/-- A record of the table is listed as it was recorded. -/
theorem Rotates.listed {o : Option SlotRead}
    (ho : o.map (fun read => (read.snapshot, read.generation)) =
      ((SlotTable.ring checkpointCapacity a.recorded).get index).map
        fun entry => (entry.2, entry.1.stateId)) : o.map (fun read : SlotRead =>
      ({ stateId := read.generation
         journalSequence := read.snapshot.journalSequence
         slot := UInt8.ofNat index
         legacy := o.isNone } : CheckpointInfo)) =
      ((SlotTable.ring checkpointCapacity a.recorded).get index).map Prod.fst := by
  rcases hget : (SlotTable.ring checkpointCapacity a.recorded).get index with _ | entry
  · rw [hget] at ho
    rw [map_eq_none_iff.mp ho]
    rfl
  rw [hget] at ho
  obtain ⟨read, rfl, hread⟩ := map_eq_some_iff.mp ho
  obtain ⟨hsnapshot, hgeneration⟩ := Prod.mk.inj hread
  obtain ⟨k, hk, -, rfl, -, hinfo⟩ := h.entry hget
  rw [map_some, map_some, hinfo, hsnapshot, hgeneration]
  rfl

theorem Rotates.exists_reads (hlegacy : LegacyAbsent cipher config a.machine) : ∃ reads : BootReads,
      reads.Match cipher config a.machine.device.blocks ∧ Reads config a reads := by
  obtain ⟨_, hheldA⟩ := h.slots 0
  obtain ⟨_, hheldB⟩ := h.slots 1
  obtain ⟨content, hheld, hbaseline⟩ := h.baseline
  obtain ⟨first, hfirst, -, -, hstoresA⟩ := hheldA.probes hcipher
    (.inl (show legacySlotLba 0 = slotLba 0 from rfl)) 0
  obtain ⟨second, hsecond, -, -, hstoresB⟩ := hheldB.probes hcipher (.inr hlegacy.slotB) 1
  obtain ⟨base, hbase, hownedBase, hcontent, -⟩ := hheld.probes hcipher
    (.inr hlegacy.baseline) 255
  have hcheckpoints : ∀ index, ∃ o : Option SlotRead, index < checkpointCapacity →
      Probes cipher config.storageKey a.machine.device.blocks
        (checkpointLba index) (legacyCheckpointLba index)
        (UInt8.ofNat index) (o, o.isNone) ∧
      o.filter config.owns = o ∧ o.map (fun read => (read.snapshot, read.generation)) =
        ((SlotTable.ring checkpointCapacity a.recorded).get index).map
          fun entry => (entry.2, entry.1.stateId) := by
    intro index
    by_cases hindex : index < checkpointCapacity
    · obtain ⟨o, hprobes, howned, hread, -⟩ := (h.checkpoints index hindex).probes hcipher
          (.inr (hlegacy.checkpoint index hindex)) (UInt8.ofNat index)
      exact ⟨o, fun _ => ⟨hprobes, howned, hread⟩⟩
    · exact ⟨none, fun hlt => absurd hlt hindex⟩
  choose checkpoint hcheckpoint using hcheckpoints
  refine ⟨
    { slotA := (first, first.isNone)
      slotB := (second, second.isNone)
      checkpoint := fun index => (checkpoint index, (checkpoint index).isNone)
      baseline := (base, base.isNone)
      blank := (a.machine.device.blocks baselineLba).val.all (· == 0) },
    ⟨hfirst, hsecond, fun index hindex => (hcheckpoint index hindex).1, hbase, rfl⟩, ?_, ?_, ?_⟩
  · rintro read (hread | hread)
    · exact (hstoresA read hread).2
    · exact (hstoresB read hread).2
  · intro index hindex
    obtain ⟨-, howned, hread⟩ := hcheckpoint index hindex
    rw [BootReads.checkpointInfo, howned]
    exact h.listed hread
  rw [BootReads.baselineState, hownedBase, hbaseline, ← hcontent]
  rcases base with _ | read
  · have hzeros : a.machine.device.blocks baselineLba = .zeros sectorSize := by
      rw [← hcontent] at hheld
      exact hheld
    simp [hzeros, ByteBlock.zeros]
  · rfl

/-- A boot finds the archive as it was left. -/
theorem Rotates.reboot (hsectors : minimumDiskSectors ≤ sectors)
    (hlegacy : LegacyAbsent cipher config a.machine) : Follows cipher config a
      { a with
        machine := ((initializeStore cipher config (.ok sectors)).run a.machine.restarted).2 } := by
  obtain ⟨reads, hmatch, hreads⟩ := h.exists_reads hcipher hlegacy
  rw [initializeStore_run (m := a.machine.restarted) hmatch rfl hsectors rfl]
  refine ⟨⟨⟨rfl, rfl, rfl, rfl, rfl⟩, ?_, h.slots, h.numbered, ?_,
    h.checkpoints, ?_⟩, fun _ _ => ⟨hreads.baseline, fun _ _ => rfl, rfl⟩⟩
  · intro s hs
    obtain ⟨read, hread, rfl⟩ := map_eq_some_iff.mp hs
    refine hreads.owned read ?_
    rcases mem_newest hread with hread | hread
    · exact .inl (mem_filter_iff.mp hread).1
    · exact .inr (mem_filter_iff.mp hread).1
  · refine ext_get fun index hindex => ?_
    rw [SlotTable.get_map, ← hreads.checkpoint index hindex]
    simp [SlotTable.get, BootReads.store, hindex]
  · obtain ⟨content, hheld, hbaseline⟩ := h.baseline
    exact ⟨content, hheld, hreads.baseline.trans hbaseline⟩

/-! ### Whole runs -/

theorem Rotates.step {next : ArchiveStep} (hsectors : minimumDiskSectors ≤ sectors)
    (hcareful : a.Careful cipher config next)
    (hcount : (a.step cipher config sectors next).recorded.length < 2 ^ 64) :
    Follows cipher config a (a.step cipher config sectors next) := by
  cases next with
  | commit snapshot => exact h.commit hcipher hcareful
  | recordCheckpoint => exact h.recordCheckpoint hcipher hcount
  | restoreCheckpoint stateId => exact h.restoreCheckpoint hcipher stateId
  | establishBaseline => exact h.establishBaseline hcipher
  | reboot => exact h.reboot hcipher hsectors hcareful

omit hcipher h in
theorem length_recorded_le_step (sectors : ℕ) (next : ArchiveStep) : a.recorded.length ≤
      (a.step cipher config sectors next).recorded.length := by
  cases next with
  | recordCheckpoint =>
    rw [Archive.step]
    split
    · simp
    · exact Nat.le_refl _
  | _ => exact Nat.le_refl _

omit hcipher h in
theorem length_recorded_le_after (sectors : ℕ) (steps : List ArchiveStep) : a.recorded.length ≤
      (a.after cipher config sectors steps).recorded.length := by
  induction steps generalizing a with
  | nil => exact Nat.le_refl _
  | cons next rest ih =>
    exact Nat.le_trans (length_recorded_le_step sectors next) ih

theorem Rotates.after {steps : List ArchiveStep}
    (hsectors : minimumDiskSectors ≤ sectors) (hcareful : a.AllCareful cipher config sectors steps)
    (hcount : (a.after cipher config sectors steps).recorded.length < 2 ^ 64) :
    Follows cipher config a (a.after cipher config sectors steps) := by
  induction steps generalizing a with
  | nil => exact h.refl
  | cons next rest ih =>
    have hfirst := h.step hcipher hsectors hcareful.1
      (Nat.lt_of_le_of_lt (length_recorded_le_after sectors rest) hcount)
    have hrest := ih hfirst.rotates hcareful.2 hcount
    refine ⟨hrest.rotates, fun info hready => ?_⟩
    have hkept := hfirst.baseline info hready
    exact hkept.trans (hrest.baseline info (hkept.baseline.trans hready))

end Steps

theorem rotates_start (cipher : StorageCipher) (config : StoreConfig) :
    (start config).Rotates cipher config where
  ready := freshMachine_ready config
  snapshot := by
    intro s hs
    cases hs
  slots _ := ⟨none, rfl⟩
  numbered := by simp [start]
  table := SlotTable.ext rfl
  checkpoints := by
    intro index hindex
    have hfree : (SlotTable.ring checkpointCapacity (start config).recorded).get index = none := by
      simp [SlotTable.ring, SlotTable.get, SlotTable.empty, start, hindex]
    rw [hfree]
    rfl
  baseline := ⟨none, rfl, rfl⟩

end Archive

/-- In every run from a blank disk without faults whose commits a boot
accepts and whose boots find nothing at the old addresses, the table holds
the last checkpoints, their state ids increase, each can be restored, and the
baseline is written at most once. -/
theorem checkpoints_rotate {cipher : StorageCipher} {config : StoreConfig}
    {sectors : ℕ} (hcipher : config.storageKey ≠ none → cipher.Inverts)
    (hsectors : minimumDiskSectors ≤ sectors) {steps : List ArchiveStep}
    (hcareful : (Archive.start config).AllCareful cipher config sectors steps)
    (hcount : ((Archive.start config).after cipher config sectors steps).recorded.length < 2 ^ 64) :
    let a := (Archive.start config).after cipher config sectors steps
    a.machine.store.checkpoints.occupants.Perm (a.retained.map Prod.fst) ∧
    (a.recorded.Pairwise fun x y => x.1.stateId < y.1.stateId) ∧
    (∀ entry ∈ a.retained, ∃ generation m',
      (restoreCheckpoint cipher entry.1.stateId).run a.machine = (.done generation, m') ∧
      m'.store.snapshot = some (entry.2.after a.machine.store.snapshot)) ∧
    ∀ info, a.machine.store.baseline = .ready info →
      ∀ later, a.AllCareful cipher config sectors later →
        (a.after cipher config sectors later).recorded.length < 2 ^ 64 → BaselineKept a.machine
          (a.after cipher config sectors later).machine := by
  have h := ((Archive.rotates_start cipher config).after hcipher hsectors hcareful hcount).rotates
  refine ⟨h.perm_retained, ?_, fun entry hentry => ?_, fun info hready later hlater hlength =>
      (h.after hcipher hsectors hlater hlength).baseline info hready⟩
  · exact h.ids_increase.imp fun hlt => UInt64.lt_iff_toNat_lt.mpr hlt
  obtain ⟨hstores, read, hrun⟩ := h.restore_run hcipher hentry
  obtain ⟨m', hcommit, hpublished⟩ := commitLocked_ready cipher hcipher (h.accepted _).ready hstores
  rw [hrun, hcommit]
  refine ⟨_, m', rfl, ?_⟩
  rw [hpublished.store]
  rfl

section Filling

variable {cipher : StorageCipher} {config : StoreConfig} {a : Archive} {n : ℕ}

/-- Some checkpoints of a current snapshot are recorded, and the slots are blank
at the addresses of the old layout. -/
structure Archive.Filled (cipher : StorageCipher) (config : StoreConfig) (a : Archive) (n : ℕ) :
    Prop where
  rotates : a.Rotates cipher config
  current : a.machine.store.snapshot.isSome = true
  count : a.recorded.length = n
  zeros : ∀ lba, legacySlotBLba ≤ lba → lba < checkpointBaseLba →
    a.machine.device.blocks lba = .zeros sectorSize

theorem Archive.Filled.recordCheckpoint (hcipher : config.Opens cipher)
    (h : a.Filled cipher config n) (sectors : ℕ) (hn : n + 1 < 2 ^ 64) :
    (a.step cipher config sectors .recordCheckpoint).Filled cipher config (n + 1) := by
  obtain ⟨s, hsnapshot⟩ := isSome_iff_exists.mp h.current
  obtain ⟨hadmits, hcovers⟩ := h.rotates.snapshot s hsnapshot
  obtain ⟨r, rfl, hgeneration⟩ := StoredRecord.exists_of_covers
    (checkpointLba (a.recorded.length % checkpointCapacity)) hcipher
    hadmits (nextGeneration_ne_zero _) hcovers
  have hstep : a.step cipher config sectors .recordCheckpoint = _ :=
    Archive.step_recordCheckpoint (recordCheckpoint_ready cipher hcipher h.rotates.ready r
      hsnapshot h.rotates.next_cell hgeneration) hsnapshot
  have hlength : (a.step cipher config sectors .recordCheckpoint).recorded.length = n + 1 := by
    rw [hstep, length_append]
    exact congrArg Nat.succ h.count
  refine ⟨(h.rotates.recordCheckpoint hcipher (hlength ▸ hn)).rotates, ?_, hlength, ?_⟩
  · rw [hstep]
    exact h.current
  · rw [hstep]
    intro lba hlow hhigh
    refine (partlyWritten_outside _ ?_).trans (h.zeros lba hlow hhigh)
    change ¬ (checkpointBaseLba + _ ≤ lba ∧ _)
    omega

/-- Checkpoints in a row are all recorded, and the boot behind them is a careful
one. -/
theorem Archive.Filled.after (hcipher : config.Opens cipher) (h : a.Filled cipher config n)
    (sectors k : ℕ) (hk : n + k < 2 ^ 64) :
    a.AllCareful cipher config sectors (replicate k .recordCheckpoint ++ [.reboot]) ∧
      (a.after cipher config sectors
        (replicate k .recordCheckpoint ++ [.reboot])).recorded.length = n + k := by
  induction k generalizing a n with
  | zero => exact ⟨⟨legacyAbsent_of_zeros h.zeros, trivial⟩, h.count⟩
  | succ k ih =>
    have hrest := ih (h.recordCheckpoint hcipher sectors (by omega)) (by omega)
    rw [replicate_succ, cons_append]
    refine ⟨⟨trivial, hrest.1⟩, ?_⟩
    rw [← Nat.add_assoc, Nat.add_right_comm]
    exact hrest.2

end Filling

/-- A commit, nine checkpoints and a boot. -/
def fullRotation : List ArchiveStep :=
  .commit (notesAt 1 [65] 1) :: (replicate 9 .recordCheckpoint ++ [.reboot])

/-- The table holds the last eight, and each of them can be restored. -/
theorem nine_checkpoints_rotate :
    let a := (Archive.start plainConfig).after clearCipher plainConfig minimumDiskSectors
      fullRotation
    a.retained.length = 8 ∧ a.machine.store.checkpoints.occupants.Perm (a.retained.map Prod.fst) ∧
    ∀ entry ∈ a.retained, ∃ generation m',
      (restoreCheckpoint clearCipher entry.1.stateId).run a.machine = (.done generation, m') ∧
      m'.store.snapshot = some (entry.2.after a.machine.store.snapshot) := by
  have hcipher := plainConfig_opens clearCipher
  have hcommits : (Archive.start plainConfig).Careful clearCipher plainConfig
      (.commit (notesAt 1 [65] 1)) :=
    fun _ _ _ => (plainConfig_stores (by decide) (by decide) (by decide)).admitted
  obtain ⟨r, -, -, hcount, hcommit⟩ := exists_firstNotes clearCipher
  have hstep : (Archive.start plainConfig).step clearCipher plainConfig minimumDiskSectors
      (.commit (notesAt 1 [65] 1)) = ⟨firstCommitted r plainConfig, []⟩ :=
    Archive.step_commit (a := .start plainConfig) (Archive.start_machine plainConfig ▸ hcommit)
  have hfilled : Archive.Filled clearCipher plainConfig ⟨firstCommitted r plainConfig, []⟩ 0 := by
    refine ⟨?_, rfl, rfl, fun lba hlow _ => firstCommitted_zeros r plainConfig hcount lba hlow⟩
    rw [← hstep]
    exact ((Archive.rotates_start clearCipher plainConfig).commit hcipher hcommits).rotates
  obtain ⟨hrest, hlength⟩ := hfilled.after hcipher minimumDiskSectors 9 (by omega)
  rw [← hstep] at hrest hlength
  have hcareful : (Archive.start plainConfig).AllCareful clearCipher plainConfig
      minimumDiskSectors fullRotation := ⟨hcommits, hrest⟩
  have hnine : ((Archive.start plainConfig).after clearCipher plainConfig minimumDiskSectors
      fullRotation).recorded.length = 9 := by
    rw [Archive.after, fullRotation, foldl_cons]
    exact hlength
  have hrotates := checkpoints_rotate hcipher (Nat.le_refl _) hcareful (by omega)
  refine ⟨?_, hrotates.1, hrotates.2.2.1⟩
  rw [Archive.retained, length_drop, hnine]
  rfl

/-- A boot lists a checkpoint that was never recorded: the content of a Form
of the second commit. -/
theorem unrecorded_checkpoint_listed :
    let a := (Archive.start plainConfig).after clearCipher plainConfig minimumDiskSectors
      [.commit (notesAt 1 [65] 1), .commit (notesAt 2 forgedContent 2), .reboot]
    a.recorded = [] ∧ a.machine.store.checkpoints.get 4 =
      some { stateId := 1, journalSequence := 5, slot := 4
             legacy := true } := by
  obtain ⟨m₁, m₂, m₃, hfirst, hsecond, hboot, -, -, hlisted⟩ := forged_boot clearCipher
  have hafter : (Archive.start plainConfig).after clearCipher plainConfig
      minimumDiskSectors [.commit (notesAt 1 [65] 1),
        .commit (notesAt 2 forgedContent 2), .reboot] = ⟨m₃, []⟩ := by
    have hone : (Archive.start plainConfig).step clearCipher plainConfig
        minimumDiskSectors (.commit (notesAt 1 [65] 1)) = ⟨m₁, []⟩ :=
      Archive.step_commit (a := .start plainConfig)
        (Archive.start_machine plainConfig ▸ hfirst)
    have htwo : Archive.step clearCipher plainConfig minimumDiskSectors
        ⟨m₁, []⟩ (.commit (notesAt 2 forgedContent 2)) = ⟨m₂, []⟩ :=
      Archive.step_commit (a := ⟨m₁, []⟩) hsecond
    have hthree : Archive.step clearCipher plainConfig minimumDiskSectors
        ⟨m₂, []⟩ .reboot = ⟨m₃, []⟩ :=
      Archive.step_reboot (a := ⟨m₂, []⟩) hboot
    simp only [Archive.after, foldl_cons, foldl_nil, hone, htwo, hthree]
  rw [hafter]
  exact ⟨rfl, hlisted⟩

end ExpOS
