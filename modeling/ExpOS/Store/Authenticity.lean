import ExpOS.Store.Crash
import ExpOS.Store.Probe

/-!
# Which slots are authentic

With a storage key every slot the store writes is sealed.  The reader decides
from the slot itself whether to open a seal or to compare two checksums, also
when it has a key.  So everything that is accepted was sealed under the key
for its region if no slot on the disk claims not to be encrypted, whatever else
an adversary has put there.
-/

namespace ExpOS

open List Outcome BootReads

open Effect

/-! ## Seals -/

/-- The call of `sealStorage` that wrote the entry, if it was made under the
key with this nonce and associated data and gave this ciphertext and tag. -/
def SlotEncoding.Seals (e : SlotEncoding) (cipher : StorageCipher)
    (key : ByteBlock storageKeyLen) (nonce : ByteBlock storageNonceLen)
    (associated sealed : Bytes) (tag : ByteBlock storageTagLen) : Prop :=
  e.key = some key ∧ ∃ payload, (putPayload e.snapshot).run [] = (.done (), payload) ∧
    nonce = storageNonce key e.snapshot.cfc.bytes e.generation
      (UInt32.ofNat e.base) ∧
    associated = slotHeader e.snapshot e.generation payload.length 1 ∧
    cipher.sealStorage key nonce associated payload = some (sealed, tag)

section Slot

variable (cipher : StorageCipher) (key : ByteBlock storageKeyLen)
  (log : List SlotEncoding) (encoded : Bytes) (base : ℕ)

/-- The nonce under which `decodeSlot` opens the slot. -/
def slotNonce (cfc : ByteBlock 16) : ByteBlock storageNonceLen :=
  storageNonce key cfc (UInt64.ofNat (wordAt encoded 16 8))
    (UInt32.ofNat base)

/-- The slot was sealed under the key for the region at `base`. -/
def SealedFor : Prop :=
  ∃ e ∈ log, UInt32.ofNat e.base = UInt32.ofNat base ∧ ∃ cfc tag,
    blockAt encoded 24 16 = .done cfc ∧ blockAt encoded 48 storageTagLen = .done tag ∧
    e.Seals cipher key (slotNonce key encoded base cfc) (encoded.take 48)
      (encoded.drop headerLen) tag

/-- What the cipher promises for one slot that is opened: it was sealed, and
its nonce is not also that of another region. -/
structure Unforged : Prop where
  opens : isEncrypted encoded → ∀ cfc tag plain, blockAt encoded 24 16 = .done cfc →
    blockAt encoded 48 storageTagLen = .done tag →
    cipher.openStorage key (slotNonce key encoded base cfc)
      (encoded.take 48) (encoded.drop headerLen) tag = some plain →
    ∃ e ∈ log, e.Seals cipher key (slotNonce key encoded base cfc)
      (encoded.take 48) (encoded.drop headerLen) tag
  domain : ∀ e ∈ log, ∀ cfc, blockAt encoded 24 16 = .done cfc → slotNonce key encoded base cfc =
      storageNonce key e.snapshot.cfc.bytes e.generation
        (UInt32.ofNat e.base) →
    UInt32.ofNat e.base = UInt32.ofNat base

variable {cipher key log encoded base}

/-- A slot that is opened with the key was sealed under it. -/
theorem sealedFor_of_openSlot (h : Unforged cipher key log encoded base)
    (hencrypted : isEncrypted encoded) {opened : Bytes}
    (hopen : openSlot cipher encoded (some key) (UInt32.ofNat base) = .done opened) :
    SealedFor cipher key log encoded base := by
  rw [openSlot, if_pos hencrypted] at hopen
  split at hopen
  · cases hopen
  simp only [ofOption_some, done_bind] at hopen
  obtain ⟨cfc, hcfc, hopen⟩ := bind_eq_done.mp hopen
  obtain ⟨tag, htag, hopen⟩ := bind_eq_done.mp hopen
  obtain ⟨plain, hplain, -⟩ := bind_eq_done.mp hopen
  obtain ⟨e, hmem, hseals⟩ := h.opens hencrypted cfc tag plain hcfc htag
    (ofOption_eq_done.mp hplain)
  have hnonce := hseals
  obtain ⟨_, _, _, hnonce, _⟩ := hnonce
  exact ⟨e, hmem, h.domain e hmem cfc hcfc hnonce, cfc, tag, hcfc, htag, hseals⟩

/-- Every slot that was sealed says so. -/
theorem isEncrypted_of_sealedFor (hsealed : SealedFor cipher key log encoded base) :
    isEncrypted encoded := by
  obtain ⟨e, -, -, -, -, -, -, -, payload, -, -, hheader, -⟩ := hsealed
  have htake : encoded.take 48 = (slotHeader e.snapshot e.generation payload.length 1 ++ []).take
        48 := by
    rw [hheader, append_nil]
    exact (take_of_length_le (Nat.le_of_eq length_slotHeader)).symm
  have hframe : isEncrypted (slotHeader e.snapshot e.generation payload.length 1 ++ []) :=
    isEncrypted_frame.mpr rfl
  rw [isEncrypted, wordAt_congr htake (by decide), wordAt_congr htake (by decide)]
  exact hframe

/-- What `encodeSlot` seals for a region is sealed for it. -/
theorem sealedFor_of_encodeSlot {e : SlotEncoding} (hmem : e ∈ log) (hkey : e.key = some key)
    (hencode : encodeSlot cipher e.snapshot e.generation e.key
      (UInt32.ofNat e.base) = .done e.encoded) : SealedFor cipher key log e.encoded e.base := by
  rw [hkey] at hencode
  obtain ⟨payload, hpayload, hwrap⟩ := encodeSlot_eq_done.mp hencode
  simp only [wrapPayload] at hwrap
  split at hwrap
  · cases hwrap
  rename_i sealed tag hseal
  have hencoded := (Outcome.done.inj hwrap).symm
  rw [append_assoc] at hencoded
  refine ⟨e, hmem, rfl, e.snapshot.cfc.bytes, tag, ?_, ?_, hkey, payload, hpayload, ?_, ?_, ?_⟩
  · rw [hencoded, cfc_frame]
  · rw [hencoded, tag_frame]
  · rw [slotNonce, hencoded, generation_frame, UInt64.ofNat_toNat]
  · rw [hencoded, take_frame]
  · rw [slotNonce, hencoded, generation_frame, UInt64.ofNat_toNat, take_frame, drop_sealedFrame]
    exact hseal

/-- The promises hold for a slot that was sealed for its region. -/
theorem SealedFor.unforged (h : SealedFor cipher key log encoded base)
    (hlog : ∀ e ∈ log, e.base = base) : Unforged cipher key log encoded base := by
  obtain ⟨e, hmem, -, cfc, tag, hcfc, htag, hseals⟩ := h
  refine ⟨fun _ cfc' tag' plain hcfc' htag' _ => ?_, fun e' hmem' _ _ _ => by rw [hlog e' hmem']⟩
  cases hcfc.symm.trans hcfc'
  cases htag.symm.trans htag'
  exact ⟨e, hmem, hseals⟩

/-- The key is not consulted for a slot that is not marked as encrypted. -/
theorem decodeSlot_ignores_key (hclear : ¬ isEncrypted encoded)
    (slot : UInt8) (k k' : Option (ByteBlock storageKeyLen)) (nonceDomain : UInt32) :
    decodeSlot cipher encoded slot k nonceDomain =
      decodeSlot cipher encoded slot k' nonceDomain := by
  simp only [decodeSlot, openSlot, if_neg hclear]

theorem not_isEncrypted_of_encodeSlot {s : Snapshot} {generation : UInt64}
    {nonceDomain : UInt32} (h : encodeSlot cipher s generation none nonceDomain = .done encoded) :
    ¬ isEncrypted encoded := by
  obtain ⟨payload, -, hwrap⟩ := encodeSlot_eq_done.mp h
  rw [← Outcome.done.inj hwrap, append_assoc, isEncrypted_frame]
  decide

end Slot

/-! ## Sessions under an adversary -/

/-- The addresses in both layouts at which a restore reads. -/
inductive RestoreProbe (store : RuntimeStore) : ℕ → ℕ → UInt8 → Prop
  | checkpoint (slot : UInt8) :
      RestoreProbe store (checkpointLba slot.toNat) (legacyCheckpointLba slot.toNat) slot
  | baseline : RestoreProbe store store.baselineLba store.baselineLba 255

/-- At none of the addresses the disk holds a slot, in either layout, that would
be accepted and is not marked as encrypted; and no read gives another block. -/
def Marked (cipher : StorageCipher) (key : Option (ByteBlock storageKeyLen))
    (accepts : SlotRead → Prop) (probe : ℕ → ℕ → UInt8 → Prop)
    (device : Device Sector StorageError) : Prop :=
  device.Honest ∧ ∀ base legacyBase slot read, probe base legacyBase slot → accepts read →
    currentRead cipher key device.blocks base slot = .done read ∨
      legacyRead cipher key device.blocks legacyBase slot = .done read →
    isEncrypted read.encoded

/-- A machine booted with `config`, then used in any order, while an adversary
may replace the disk and the fate of its calls at any time.  If `marked` is
required, all slots are marked as encrypted where a boot or a restore reads. -/
inductive Session (cipher : StorageCipher) (config : StoreConfig) (marked : Prop) :
    Machine → Prop
  | boot {m : Machine} (probe : Except StorageError ℕ)
      (hstore : m.store = RuntimeStore.new) (hlog : m.accepted = [])
      (hmarked : marked → Marked cipher config.storageKey (config.owns · = true) BootProbe
        m.device) :
      Session cipher config marked ((initializeStore cipher config probe).run m).2
  | tamper {m : Machine} (device : Device Sector StorageError)
      (h : Session cipher config marked m) :
      Session cipher config marked { m with device }
  | restoreCheckpoint {m : Machine} (stateId : UInt64)
      (h : Session cipher config marked m)
      (hmarked : marked → Marked cipher config.storageKey (fun _ => True)
        (RestoreProbe m.store) m.device) :
      Session cipher config marked ((restoreCheckpoint cipher stateId).run m).2
  | restoreBaseline {m : Machine} (h : Session cipher config marked m)
      (hmarked : marked → Marked cipher config.storageKey (fun _ => True)
        (RestoreProbe m.store) m.device) :
      Session cipher config marked ((restoreBaseline cipher).run m).2
  | commit {m : Machine} (s : Snapshot) (h : Session cipher config marked m) :
      Session cipher config marked ((commit cipher s).run m).2
  | recordCheckpoint {m : Machine} (h : Session cipher config marked m) :
      Session cipher config marked ((recordCheckpoint cipher).run m).2
  | establishBaseline {m : Machine} (h : Session cipher config marked m) :
      Session cipher config marked ((establishBaseline cipher).run m).2

section Sessions

variable (cipher : StorageCipher) (key : ByteBlock storageKeyLen)

/-- The slot is what opening its octets under the key gives. -/
def Opened (read : SlotRead) : Prop :=
  isEncrypted read.encoded ∧ ∃ slot, decodeSlot cipher read.encoded slot (some key)
    (UInt32.ofNat read.base) = .done read.toDecodedSlot

/-- Everything accepted was opened under the key, and the store uses it as
soon as it has a device. -/
structure UsesKey (m : Machine) : Prop where
  accepted : ∀ read ∈ m.accepted, Opened cipher key read
  store : m.store.storageKey = some key ∨ m.store.device = false

variable {cipher key}

theorem usesKey_ignoresDevice : IgnoresDevice (UsesKey cipher key) :=
  fun _ _ h => ⟨h.accepted, h.store⟩

theorem usesKey_ignoresScript : IgnoresScript (UsesKey cipher key) :=
  usesKey_ignoresDevice.ignoresScript

theorem keeps_accept {read : SlotRead} (h : Opened cipher key read) :
    Keeps (UsesKey cipher key) (accept read) := by
  refine keeps_modify fun m hm => ⟨?_, hm.store⟩
  intro other hother
  rcases mem_append.mp hother with hold | hnew
  · exact hm.accepted other hold
  · rw [mem_singleton.mp hnew]
    exact h

/-- A change of the store that keeps its key and its device. -/
theorem keeps_modifyStore {f : RuntimeStore → RuntimeStore}
    (hkey : ∀ store, (f store).storageKey = store.storageKey)
    (hdevice : ∀ store, (f store).device = store.device) :
    Keeps (UsesKey cipher key) (modifyStore f) := by
  refine keeps_modify fun m hm => ⟨hm.accepted, ?_⟩
  rw [hkey, hdevice]
  exact hm.store

/-- What is read from a marked disk is opened. -/
theorem Marked.opened {accepts : SlotRead → Prop} {probe : ℕ → ℕ → UInt8 → Prop}
    {device : Device Sector StorageError} (h : Marked cipher (some key) accepts probe device)
    {base legacyBase : ℕ} {slot : UInt8} (hprobe : probe base legacyBase slot) {read : SlotRead}
    (haccepts : accepts read)
    (hread : currentRead cipher (some key) device.blocks base slot = .done read ∨
      legacyRead cipher (some key) device.blocks legacyBase slot = .done read) :
    Opened cipher key read := by
  refine ⟨h.2 base legacyBase slot read hprobe haccepts hread, slot, ?_⟩
  rcases hread with hcurrent | hlegacy
  · obtain ⟨-, hdecoded⟩ := currentRead_eq_done.mp hcurrent
    obtain ⟨hbase, hbytes, -, hdecode⟩ := decodedRead_eq_done hdecoded
    rw [hbase, hbytes]
    exact hdecode
  · obtain ⟨hbase, hbytes, -, hdecode⟩ := decodedRead_eq_done hlegacy
    rw [hbase, hbytes]
    exact hdecode

/-! ## Every call uses the key -/

variable {config : StoreConfig} {m : Machine}

theorem usesKey_bootKeeps (hkey : config.storageKey = some key) {blocks : ℕ → Sector}
    (hmarked : Marked cipher (some key) (config.owns · = true) BootProbe ⟨blocks, []⟩) :
    BootKeeps cipher config (fun m => UsesKey cipher key m ∧ m.Serves blocks)
      (Opened cipher key) where
  script m d hblocks hscript hm :=
    ⟨usesKey_ignoresDevice m d hm.1, serves_ignoresScript blocks m d hblocks hscript hm.2⟩
  reads base legacyBase slot hprobe m hm result m' hrun read hread howns := by
    rw [hkey] at hrun
    exact hmarked.opened hprobe howns (hm.2.readOrLegacy hrun hread)
  accept _ hread m hm := ⟨keeps_accept hread m hm.1, hm.2⟩
  update _ hf m hm :=
    ⟨keeps_modifyStore (fun store => (hf store).1) (fun store => (hf store).2) m hm.1, hm.2⟩
  opened m hm := ⟨⟨hm.1.accepted, .inl hkey⟩, hm.2⟩

theorem usesKey_writeKeeps : WriteKeeps (UsesKey cipher key) where
  device := usesKey_ignoresDevice
  log _ _ hm := ⟨hm.accepted, hm.store⟩
  update _ hf := keeps_modifyStore (fun store => (hf store).1) fun store => (hf store).2

section Restores

variable (h : UsesKey cipher key m)
  (hmarked : Marked cipher (some key) (fun _ => True) (RestoreProbe m.store) m.device)

include h

/-- A recovery slot that was opened is accepted and committed. -/
theorem UsesKey.acceptRead {x : StoreM SlotRead} (hkeeps : Keeps (UsesKey cipher key) x)
    (hopened : ∀ read n, x.run m = (.done read, n) → Opened cipher key read)
    (restored : SlotRead → Snapshot) : UsesKey cipher key ((x >>= fun read =>
      accept read >>= fun _ => commitLocked cipher (restored read)).run m).2 := by
  have hread := hkeeps m h
  rw [run_bind]
  rcases hrun : x.run m with ⟨read | error | _, n⟩
  · rw [hrun] at hread
    refine ((keeps_accept (hopened read n hrun)).bind fun _ => ?_) n hread
    exact commitLocked_keeps usesKey_writeKeeps _
  · rwa [hrun] at hread
  · rwa [hrun] at hread

include hmarked

variable {base legacyBase : ℕ} {slot : UInt8}
  (hprobe : RestoreProbe m.store base legacyBase slot) (restored : SlotRead → Snapshot)

include hprobe in
theorem UsesKey.acceptCurrent : UsesKey cipher key ((readAt cipher (some key) base slot >>=
      fun read => accept read >>= fun _ => commitLocked cipher (restored read)).run m).2 := by
  refine h.acceptRead (readAt_keeps usesKey_ignoresScript _ _) (fun read n hrun => ?_) restored
  exact hmarked.opened hprobe trivial (.inl (Machine.Serves.readAt ⟨hmarked.1, rfl⟩ hrun))

include hprobe in
theorem UsesKey.acceptLegacy : UsesKey cipher key
      ((readLegacyAt cipher (some key) legacyBase slot >>=
      fun read => accept read >>= fun _ => commitLocked cipher (restored read)).run m).2 := by
  refine h.acceptRead (readLegacyAt_keeps usesKey_ignoresScript _ _) (fun read n hrun => ?_) _
  exact hmarked.opened hprobe trivial (.inr (Machine.Serves.readLegacyAt ⟨hmarked.1, rfl⟩ hrun))

theorem UsesKey.restoreCheckpoint (stateId : UInt64) :
    UsesKey cipher key ((restoreCheckpoint cipher stateId).run m).2 := by
  simp only [ExpOS.restoreCheckpoint, getStore, run_bind, Effect.get, run_pure, run_lift]
  generalize ofOption StoreError.checkpointNotFound _ = found
  rcases found with checkpoint | e | _
  · dsimp only
    split
    · exact h
    rename_i hdevice
    rw [h.store.resolve_right hdevice]
    split
    · exact h.acceptLegacy hmarked (.checkpoint checkpoint.slot) _
    · exact h.acceptCurrent hmarked (.checkpoint checkpoint.slot) _
  · exact h
  · exact h

theorem UsesKey.restoreBaseline : UsesKey cipher key ((restoreBaseline cipher).run m).2 := by
  simp only [ExpOS.restoreBaseline, getStore, run_bind, Effect.get, run_pure]
  rcases m.store.baseline with _ | info | _
  · exact h
  · dsimp only
    split
    · exact h
    rename_i hdevice
    rw [h.store.resolve_right hdevice]
    split
    · exact h.acceptLegacy hmarked .baseline _
    · exact h.acceptCurrent hmarked .baseline _
  · exact h

end Restores

/-- Whatever the adversary does, everything accepted from marked disks was
opened under the key. -/
theorem Session.usesKey (hkey : config.storageKey = some key)
    (h : Session cipher config True m) : UsesKey cipher key m := by
  induction h with
  | @boot m probe hstore hlog hmarked =>
    have hdisk := hmarked trivial
    rw [hkey] at hdisk
    refine (initializeStore_keeps (usesKey_bootKeeps hkey ⟨fun _ => not_mem_nil, hdisk.2⟩) probe m
      ⟨⟨?_, .inr ?_⟩, hdisk.1, rfl⟩).1
    · simp [hlog]
    · rw [hstore]
      rfl
  | tamper device _ ih => exact ⟨ih.accepted, ih.store⟩
  | restoreCheckpoint stateId _ hmarked ih =>
    exact ih.restoreCheckpoint (hkey ▸ hmarked trivial) stateId
  | restoreBaseline _ hmarked ih => exact ih.restoreBaseline (hkey ▸ hmarked trivial)
  | commit s _ ih => exact commit_keeps usesKey_writeKeeps s _ ih
  | recordCheckpoint _ ih => exact recordCheckpoint_keeps usesKey_writeKeeps _ ih
  | establishBaseline _ ih =>
    exact establishBaseline_keeps usesKey_writeKeeps _ ih

end Sessions

/-- Every slot that a session with a key accepts was sealed under the key for
its region, if all slots are marked as encrypted where it reads; and a slot
that is not marked was not sealed. -/
theorem markedSession_sealed {cipher : StorageCipher}
    {config : StoreConfig} {key : ByteBlock storageKeyLen}
    (hkey : config.storageKey = some key) {m : Machine} (hsession : Session cipher config True m)
    (hunforged : ∀ read ∈ m.accepted, Unforged cipher key m.encodings read.encoded read.base) :
    (∀ read ∈ m.accepted, SealedFor cipher key m.encodings read.encoded read.base) ∧
      ∀ encoded base, ¬ isEncrypted encoded → ¬ SealedFor cipher key m.encodings encoded base := by
  refine ⟨fun read hread => ?_, fun encoded base => mt isEncrypted_of_sealedFor⟩
  obtain ⟨hencrypted, slot, hdecode⟩ := (hsession.usesKey hkey).accepted read hread
  obtain ⟨-, opened, hopen, -⟩ := decodeSlot_eq_done hdecode
  exact sealedFor_of_openSlot (hunforged read hread) hencrypted hopen

/-! ## A sealed and an unsealed disk -/

/-- A boot on a disk that holds one record, in slot A, accepts the record if
it decodes under the key of the boot. -/
theorem exists_session_onlySlotA {owner : StoreConfig} {marked : Prop} (config : StoreConfig)
    (r : StoredRecord clearCipher owner (slotLba 0)) (log : List SlotEncoding)
    (hcount : sectorCount r.encoded ≤ legacySlotSectors) (howns : config.owns (r.read 0) = true)
    (hdecode : decodeSlot clearCipher r.encoded 0 config.storageKey
      (UInt32.ofNat (slotLba 0)) = .done (r.read 0).toDecodedSlot)
    (hmarked : marked → isEncrypted r.encoded) :
    ∃ m, Session clearCipher config marked m ∧ m.encodings = log ∧
      m.accepted = [r.read 0] ∧ m.store.snapshot = some r.snapshot := by
  have hcipher : owner.storageKey ≠ none → clearCipher.Inverts := fun _ => clearCipher_inverts
  have hwhole := firstCommitted_whole r config
  let disk : Machine :=
    { blankMachine with
      device := (firstCommitted r config).device
      encodings := log }
  have hmatch : (onlySlotA (some (r.read 0), false)).Match
      clearCipher config disk.device.blocks :=
    onlySlotA_match (firstCommitted_zeros r config hcount)
      ((hwhole.headed hcipher).probes_decoded hcipher hwhole.held_eq (legacySlotLba 0) hdecode)
  have hboot := initializeStore_run hmatch rfl (Nat.le_refl minimumDiskSectors) rfl
  have hdisk : marked → Marked clearCipher config.storageKey (config.owns · = true) BootProbe
      disk.device := by
    refine fun h => ⟨fun _ => not_mem_nil, fun base legacyBase slot read hprobe _ hread => ?_⟩
    cases hprobe with
    | slotA =>
      cases mem_of_probed (probes_iff.mp hmatch.slotA) (.inr rfl) hread
      exact hmarked h
    | slotB => cases mem_of_probed (probes_iff.mp hmatch.slotB) (.inl rfl) hread
    | checkpoint hindex =>
      cases mem_of_probed (probes_iff.mp (hmatch.checkpoint _ hindex)) (.inl rfl) hread
    | baseline => cases mem_of_probed (probes_iff.mp hmatch.baseline) (.inl rfl) hread
  have hsession : Session clearCipher config marked
      ((initializeStore clearCipher config (.ok minimumDiskSectors)).run
        disk).2 := Session.boot _ rfl rfl hdisk
  rw [hboot] at hsession
  have hselected : (onlySlotA (some (r.read 0), false)).selected config = some (r.read 0) := by
    simp [selected, onlySlotA, newest, Option.filter_some, howns]
  refine ⟨_, hsession, rfl, ?_, ?_⟩
  · simp only [accepted, hselected]
    rfl
  · simp only [store, hselected]
    rfl

/-- After a first commit under the key, what a boot accepts was sealed. -/
theorem first_commit_sealed : ∃ m, Session clearCipher testConfig True m ∧ m.accepted ≠ [] ∧
      ∀ read ∈ m.accepted, SealedFor clearCipher
        (ByteBlock.zeros storageKeyLen) m.encodings read.encoded read.base := by
  obtain ⟨r, -, -, hcount⟩ := exists_notesRecord (slotLba 0) testConfig_admits
  have hsealed : SealedFor clearCipher (.zeros storageKeyLen)
      [r.encoding] r.encoded (slotLba 0) :=
    sealedFor_of_encodeSlot (e := r.encoding) (by simp) rfl r.encodes
  obtain ⟨m, hsession, hlog, haccepted, -⟩ := exists_session_onlySlotA
    testConfig r [r.encoding] hcount (r.owned 0)
    (r.roundTrip (fun _ => clearCipher_inverts) 0).2 fun _ => isEncrypted_of_sealedFor hsealed
  refine ⟨m, hsession, by simp [haccepted], (markedSession_sealed rfl hsession ?_).1⟩
  rw [hlog, haccepted]
  simpa [StoredRecord.read] using hsealed.unforged (by simp [StoredRecord.encoding])

/-- The test CFC without a key. -/
def clearConfig : StoreConfig := { testConfig with storageKey := none }

/-- A disk that nobody sealed anything on is accepted by a boot with a key:
the slot says that it is not encrypted, and only its checksums are compared.
-/
theorem unsealed_slot_accepted : ∃ m, Session clearCipher testConfig False m ∧ m.encodings = [] ∧
      m.store.snapshot = some notesSnapshot ∧ (∀ read ∈ m.accepted, Unforged clearCipher
        (ByteBlock.zeros storageKeyLen) m.encodings read.encoded read.base) ∧
      ∃ read ∈ m.accepted, ¬ SealedFor clearCipher
        (ByteBlock.zeros storageKeyLen) m.encodings read.encoded read.base := by
  have hadmits : clearConfig.Admits notesSnapshot :=
    ⟨testConfig_admits.valid, rfl, rfl, testConfig_admits.relationships⟩
  obtain ⟨r, hsnapshot, -, hcount⟩ := exists_notesRecord (slotLba 0) hadmits
  have hclear : ¬ isEncrypted r.encoded := not_isEncrypted_of_encodeSlot r.encodes
  have hdecode : decodeSlot clearCipher r.encoded 0 testConfig.storageKey
      (UInt32.ofNat (slotLba 0)) = .done (r.read 0).toDecodedSlot := by
    rw [decodeSlot_ignores_key hclear 0 _ clearConfig.storageKey]
    exact (r.roundTrip (fun _ => clearCipher_inverts) 0).2
  obtain ⟨m, hsession, hlog, haccepted, hstore⟩ := exists_session_onlySlotA
    testConfig r [] hcount (r.owned 0) hdecode False.elim
  rw [hsnapshot] at hstore
  refine ⟨m, hsession, hlog, hstore, ?_, r.read 0, by simp [haccepted], ?_⟩
  · rw [hlog, haccepted]
    intro read hread
    obtain rfl := mem_singleton.mp hread
    exact ⟨fun hencrypted => absurd hencrypted hclear, fun _ hmem => by cases hmem⟩
  · rw [hlog]
    rintro ⟨e, hmem, -⟩
    cases hmem

end ExpOS
