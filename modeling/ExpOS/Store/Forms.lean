import ExpOS.Store.Commit

/-!
# Saving Forms and blob streams

Applications save whole Forms by name; Ring 3 programs open a stream over the
content of one Form, write to a private copy and commit it.  Both read the
current snapshot, change one Form of it and publish the result, like the
shell's own commits.  A stream remembers the revision it was opened on and is
refused when the Form has another one by then.
-/

namespace ExpOS

open Effect

/-! ## Reading -/

def currentSnapshot (store : RuntimeStore) (cfc : CfcFin) : Option Snapshot :=
  if store.cfc = cfc then store.snapshot else none

def textSuffixes : List Bytes :=
  [".txt", ".sys", ".py", ".rs", ".go", ".c", ".h"].map asciiBytes

def isTextName (name : Bytes) : Bool :=
  textSuffixes.any (·.isSuffixOf name)

/-- The first active Data Form whose name is looked for. -/
def Snapshot.dataForm (snapshot : Snapshot) (wanted : Text → Bool) : Option StoredForm :=
  snapshot.forms.occupants.find? fun stored =>
    stored.form.kind == .data && stored.form.lifecycle == .active &&
      wanted stored.form.name

def loadTextForm {ε : Type} (store : RuntimeStore) (cfc : CfcFin) :
    Outcome ε (Option (Text × Bytes × ℕ)) :=
  match (currentSnapshot store cfc).bind
      (·.dataForm fun name => isTextName name.content) with
  | none => .done none
  | some stored => do
      let bytes ← stored.bytes
      pure (some (stored.form.name, bytes, stored.contentLen))

/-! ## Changing one Form of a snapshot -/

/-- The FIN of the next Form that is created. -/
def newFormFin (nextFin : UInt32) : FormFin :=
  FormFin.fromU128
    (0x464F524D000000000000000000000000 ||| nextFin.toNat)

def nextRevision (revision : UInt32) : UInt32 := max (revision + 1) 1

theorem nextRevision_ne_zero (revision : UInt32) : nextRevision revision ≠ 0 := by
  change (if revision + 1 ≤ 1 then 1 else revision + 1) ≠ 0
  split
  · decide
  rename_i h
  intro heq
  rw [heq] at h
  exact h (by decide)

namespace Snapshot

/-- The snapshot with its journal moved on. -/
def journaled (snapshot : Snapshot) : Snapshot :=
  { snapshot with
    journalSequence := max (snapshot.journalSequence + 1) 1 }

/-- The stored Form with a FIN, and its cell. -/
def formIndex (snapshot : Snapshot) (fin : FormFin) : Option ℕ :=
  snapshot.forms.findIndex (·.form.fin == fin)

def form? (snapshot : Snapshot) (fin : FormFin) : Option StoredForm :=
  snapshot.forms.occupants.find? (·.form.fin == fin)

/-- Hang a new Form below the root Form, if there is one and there is room. -/
def contained (snapshot : Snapshot) (fin : FormFin) : Snapshot :=
  match snapshot.forms.occupants.find? (·.form.kind == .root),
      snapshot.relationships.freeIndex with
  | some root, some index =>
    { snapshot with
      relationships := snapshot.relationships.put index (some
        { source := root.form.fin
          target := fin
          kind := .contains
          dimension := some snapshot.primaryDimension }) }
  | _, _ => snapshot

/-- Store `bytes` under a name: revise the Form that has it, or create one. -/
def withNamedForm (snapshot : Snapshot) (name : Text) (kind : FormKind)
    (bytes : Bytes) : Outcome StoreError (Snapshot × FormFin × UInt32) :=
  match snapshot.forms.findIndex (·.form.name == name) with
  | some index =>
    match snapshot.forms.get index with
    | none => .fail .invalidSnapshot
    | some stored =>
      if stored.form.kind ≠ kind then .fail .invalidSnapshot
      else do
        let form ← Form.new stored.form.fin name.content kind
        let revision := nextRevision stored.form.revision
        pure
          ({ snapshot with
              forms := snapshot.forms.put index (some
                { form := { form with revision }
                  content := ChunkedBlob.fromBytes bytes }) }.journaled,
            stored.form.fin, revision)
  | none =>
    match snapshot.forms.freeIndex with
    | none => .fail .full
    | some index => do
        let fin := newFormFin snapshot.nextFin
        let form ← Form.new fin name.content kind
        let created : Snapshot :=
          { snapshot with
            nextFin := max (snapshot.nextFin + 1) 2
            forms := snapshot.forms.put index (some
              { form := { form with revision := 1 }
                content := ChunkedBlob.fromBytes bytes }) }
        pure ((created.contained fin).journaled, fin, 1)

/-- Store the content of a stream that was opened on a revision. -/
def withStream (snapshot : Snapshot) (fin : FormFin)
    (baseRevision : UInt32) (content : ChunkedBlob) : Outcome StoreError (Snapshot × UInt32) :=
  match (snapshot.formIndex fin).bind fun index =>
      (snapshot.forms.get index).map fun stored => (index, stored) with
  | none => .fail .streamNotFound
  | some (index, stored) =>
    if stored.form.revision ≠ baseRevision then .fail .staleStream
    else
      let revision := nextRevision stored.form.revision
      .done
        ({ snapshot with
            forms := snapshot.forms.put index (some
              { form := { stored.form with revision }
                content }) }.journaled,
          revision)

end Snapshot

/-- The snapshot a save starts from. -/
def RuntimeStore.base (store : RuntimeStore) : Snapshot :=
  store.snapshot.getD
    (Snapshot.empty store.cfc store.cfcName store.primaryDimension)

/-- Validate a snapshot. -/
def validated (snapshot : Snapshot) : StoreM Unit :=
  match validateSnapshot snapshot with
  | .ok () => pure ()
  | .error error => Effect.fail error

section Saving

variable (cipher : StorageCipher)

def saveNamedForm (cfc : CfcFin) (name : Bytes) (kind : FormKind)
    (bytes : Bytes) : StoreM (FormFin × UInt32) :=
  if bytes.length > formContentCapacity then Effect.fail .invalidSnapshot
  else
    match Text.new name with
    | .error _ => Effect.fail .invalidSnapshot
    | .ok name => do
        let store ← getStore
        if store.device = false ∨ store.cfc ≠ cfc ∨
            store.primaryDimension.isZero then
          Effect.fail .unavailable
        else
          let (snapshot, fin, revision) ← Effect.lift
            (store.base.withNamedForm name kind bytes)
          validated snapshot
          let _ ← commitLocked cipher snapshot
          pure (fin, revision)

def commitSystemRecords (settings : ByteBlock settingsRecordCapacity)
    (accounts : Option (ByteBlock accountsRecordCapacity)) : StoreM UInt64 := do
  let store ← getStore
  if store.cfc.isZero ∨ store.primaryDimension.isZero then
    Effect.fail .unavailable
  else
    let snapshot :=
      { store.base with settings := some settings, accounts }.journaled
    validated snapshot
    commitLocked cipher snapshot

/-! ## Blob streams -/

/-- The stream is the one that is asked for. -/
def BlobStream.isNamed (cfc : CfcFin) (form : FormFin) (id : UInt32) (stream : BlobStream) : Bool :=
  stream.id == id && stream.cfc == cfc && stream.form == form

/-- The first stream that is asked for, and its cell. -/
def findStream (cfc : CfcFin) (form : FormFin) (id : UInt32) : StoreM (ℕ × BlobStream) := do
  let m ← Effect.get
  Effect.lift (.ofOption .streamNotFound
    ((m.streams.findIndex (BlobStream.isNamed cfc form id)).bind
      fun index => (m.streams.get index).map fun stream =>
        (index, stream)))

def setStream (index : ℕ) (stream : Option BlobStream) : StoreM Unit :=
  Effect.modify fun m =>
    { m with streams := m.streams.put index stream }

def openBlobStream (cfc : CfcFin) (form : FormFin) (writable : Bool) : StoreM (UInt32 × ℕ) := do
  let store ← getStore
  let snapshot ← Effect.lift (.ofOption .unavailable
    (currentSnapshot store cfc))
  let stored ← Effect.lift (.ofOption .streamNotFound
    (snapshot.form? form))
  let m ← Effect.get
  let index ← Effect.lift (.ofOption .full m.streams.freeIndex)
  let id := max m.nextStreamId 1
  Effect.modify fun m => { m with nextStreamId := m.nextStreamId + 1 }
  setStream index (some
    { id, cfc, form, writable
      baseRevision := stored.form.revision
      content := stored.content })
  pure (id, stored.contentLen)

def readBlobStream (cfc : CfcFin) (form : FormFin) (id : UInt32)
    (offset : ℕ) (output : Bytes) : StoreM ((ℕ × Bytes) × ℕ) := do
  let (_, stream) ← findStream cfc form id
  let read ← Effect.lift (stream.content.read offset output)
  pure (read, stream.content.len)

def writeBlobStream (cfc : CfcFin) (form : FormFin) (id : UInt32)
    (offset : ℕ) (bytes : Bytes) : StoreM ℕ := do
  let (index, stream) ← findStream cfc form id
  if stream.writable = false then Effect.fail .streamMode
  else if offset + bytes.length > formContentCapacity then
    Effect.fail .full
  else
    match stream.content.write offset bytes with
    | .done content => do
        setStream index (some { stream with content })
        pure (offset + bytes.length)
    | .fail _ => Effect.fail .invalidSnapshot
    | .halt => Effect.lift .halt

def abortBlobStream (cfc : CfcFin) (form : FormFin) (id : UInt32) : StoreM Unit := do
  let (index, _) ← findStream cfc form id
  setStream index none

def commitBlobStream (cfc : CfcFin) (form : FormFin) (id : UInt32) : StoreM (UInt32 × UInt64) := do
  let (index, stream) ← findStream cfc form id
  setStream index none
  if stream.writable = false then Effect.fail .streamMode
  else
    let store ← getStore
    let snapshot ← Effect.lift (.ofOption .unavailable store.snapshot)
    let (snapshot, revision) ← Effect.lift
      (snapshot.withStream form stream.baseRevision stream.content)
    validated snapshot
    let generation ← commitLocked cipher snapshot
    pure (revision, generation)

end Saving

/-! ## What the calls publish -/

/-- The store after it published a snapshot. -/
def RuntimeStore.publishing (store : RuntimeStore) (s : Snapshot) :
    RuntimeStore :=
  { store with
    snapshot := some s
    generation := nextGeneration store.generation
    activeSlot := store.activeSlot ^^^ 1 }

/-- The streams of the machine. -/
def Machine.streamState (m : Machine) : SlotTable BlobStream maxBlobStreams × UInt32 :=
  (m.streams, m.nextStreamId)

/-- Neither the store in memory nor the streams have changed. -/
structure SameMemory (m n : Machine) : Prop where
  store : n.store = m.store
  streams : n.streamState = m.streamState

/-- The call has published a snapshot with the property if it returned, and
has left the store alone otherwise.  The streams are as before. -/
structure Publishes {α : Type} (S : Snapshot → Prop) (m : Machine)
    (r : Outcome StoreError α × Machine) : Prop where
  streams : r.2.streamState = m.streamState
  store : (∃ a, r.1 = .done a) ∧
      (∃ s, S s ∧ r.2.store = m.store.publishing s) ∨
    (∀ a, r.1 ≠ .done a) ∧ r.2.store = m.store

theorem sameMemory_ignoresDevice (m : Machine) : IgnoresDevice (SameMemory m) :=
  fun _ _ h => ⟨h.store, h.streams⟩

section Specs

variable {cipher : StorageCipher} {α β : Type} {S : Snapshot → Prop}
  {m : Machine}

theorem publishes_fail (error : StoreError) :
    Publishes S m ((Effect.fail error : StoreM α).run m) :=
  ⟨rfl, .inr ⟨by simp, rfl⟩⟩

theorem publishes_getStore_bind {next : RuntimeStore → StoreM α}
    (h : Publishes S m ((next m.store).run m)) : Publishes S m ((getStore >>= next).run m) :=
  h

variable {next : β → StoreM α}

theorem publishes_lift_bind {o : Outcome StoreError β}
    (h : ∀ b, o = .done b → Publishes S m ((next b).run m)) :
    Publishes S m ((Effect.lift o >>= next).run m) := by
  rw [run_bind]
  rcases o with b | e | _
  · exact h b rfl
  · exact publishes_fail e
  · exact ⟨rfl, .inr ⟨by simp, rfl⟩⟩

variable {s : Snapshot}

theorem publishes_validated_bind {next : Unit → StoreM α}
    (h : s.Valid → Publishes S m ((next ()).run m)) :
    Publishes S m ((validated s >>= next).run m) := by
  rcases hvalid : validateSnapshot s with e | ⟨⟩
  · simp only [validated, hvalid]
    exact publishes_fail e
  · simp only [validated, hvalid]
    exact h (validateSnapshot_eq_ok.mp hvalid)

variable {x : StoreM β}

/-- However a call ends that does not touch the memory, the rest of a commit
publishes if it returns. -/
theorem publishes_of_sameMemory {f : RuntimeStore → RuntimeStore} {a : α} (hs : S s)
    (hx : Keeps (SameMemory m) x) (hf : f m.store = m.store.publishing s) :
    Publishes S m ((x >>= fun _ => modifyStore f >>= fun _ =>
      (pure a : StoreM α)).run m) := by
  have h := hx m ⟨rfl, rfl⟩
  rw [run_bind]
  revert h
  rcases x.run m with ⟨b | e | _, n⟩
  · intro h
    refine ⟨h.streams, .inl ⟨⟨a, rfl⟩, s, hs, ?_⟩⟩
    change f n.store = _
    rw [h.store, hf]
  · exact fun h => ⟨h.streams, .inr ⟨by simp, h.store⟩⟩
  · exact fun h => ⟨h.streams, .inr ⟨by simp, h.store⟩⟩

theorem commitLocked_publishes (hs : S s) (m : Machine) :
    Publishes S m ((commitLocked cipher s).run m) := by
  by_cases hdevice : m.store.device = true
  · have hsame := sameMemory_ignoresDevice m
    have hwrite := fun base => (writeSlot_keeps hsame (fun _ _ h => ⟨h.store, h.streams⟩) cipher s
        (nextGeneration m.store.generation) base).bind fun encoded =>
          verifyWrite_keeps hsame.ignoresScript base encoded
    rw [commitLocked_run cipher s hdevice, ← bind_assoc]
    exact publishes_of_sameMemory hs (hwrite _) rfl
  · rw [Bool.not_eq_true] at hdevice
    refine ⟨?_, .inr ⟨?_, ?_⟩⟩ <;>
    simp [commitLocked, getStore, run_bind, Effect.get, hdevice]

/-- What is computed from the generation of a commit does not matter. -/
theorem commitLocked_bind_publishes (hs : S s) (f : UInt64 → α) :
    Publishes S m ((commitLocked cipher s >>= fun generation =>
      pure (f generation)).run m) := by
  have h : Publishes S m ((commitLocked cipher s).run m) := commitLocked_publishes hs m
  obtain ⟨hstreams, hstore⟩ := h
  rw [run_bind]
  revert hstreams hstore
  rcases (commitLocked cipher s).run m with ⟨g | e | _, n⟩
  · rintro hstreams (⟨-, hstore⟩ | ⟨hne, -⟩)
    · exact ⟨hstreams, .inl ⟨⟨_, rfl⟩, hstore⟩⟩
    · exact absurd rfl (hne g)
  · rintro hstreams (⟨⟨a, ha⟩, -⟩ | ⟨-, hstore⟩)
    · cases ha
    · exact ⟨hstreams, .inr ⟨by simp, hstore⟩⟩
  · rintro hstreams (⟨⟨a, ha⟩, -⟩ | ⟨-, hstore⟩)
    · cases ha
    · exact ⟨hstreams, .inr ⟨by simp, hstore⟩⟩

theorem commit_publishes (s : Snapshot) (m : Machine) :
    Publishes (fun s' => s' = s.published m.store.snapshot ∧ s'.Valid) m
      ((commit cipher s).run m) := by
  refine publishes_getStore_bind ?_
  dsimp only
  split
  · next e _ => exact publishes_fail e
  rename_i hvalid
  split
  · exact publishes_fail _
  · exact commitLocked_bind_publishes ⟨rfl, validateSnapshot_eq_ok.mp hvalid⟩ _

theorem saveNamedForm_publishes (cfc : CfcFin) (name : Bytes)
    (kind : FormKind) (bytes : Bytes) (m : Machine) :
    Publishes (fun s => s.Valid ∧ ∃ text fin revision, Text.new name = .ok text ∧
        m.store.base.withNamedForm text kind bytes = .done (s, fin, revision)) m
      ((saveNamedForm cipher cfc name kind bytes).run m) := by
  rw [saveNamedForm]
  split
  · exact publishes_fail _
  split
  · exact publishes_fail _
  rename_i text htext
  refine publishes_getStore_bind ?_
  split
  · exact publishes_fail _
  refine publishes_lift_bind fun result hresult => ?_
  obtain ⟨s, fin, revision⟩ := result
  refine publishes_validated_bind fun hvalid => ?_
  exact commitLocked_bind_publishes ⟨hvalid, text, fin, revision, htext, hresult⟩ _

theorem commitSystemRecords_publishes (settings : ByteBlock settingsRecordCapacity)
    (accounts : Option (ByteBlock accountsRecordCapacity)) (m : Machine) :
    Publishes (fun s => s.Valid ∧ s = { m.store.base with
          settings := some settings, accounts }.journaled) m
      ((commitSystemRecords cipher settings accounts).run m) := by
  refine publishes_getStore_bind ?_
  split
  · exact publishes_fail _
  · refine publishes_validated_bind fun hvalid => ?_
    exact commitLocked_publishes ⟨hvalid, rfl⟩ m

/-- A first part that does not touch the memory. -/
theorem publishes_bind (hx : Keeps (SameMemory m) x)
    (h : ∀ b n, SameMemory m n → Publishes S n ((next b).run n)) :
    Publishes S m ((x >>= next).run m) := by
  have hsame := hx m ⟨rfl, rfl⟩
  rw [run_bind]
  revert hsame
  rcases x.run m with ⟨b | e | _, n⟩
  · intro hsame
    obtain ⟨hstreams, hstore⟩ := h b n hsame
    rw [hsame.store, hsame.streams] at *
    exact ⟨hstreams, hstore⟩
  · exact fun hsame => ⟨hsame.streams, .inr ⟨by simp, hsame.store⟩⟩
  · exact fun hsame => ⟨hsame.streams, .inr ⟨by simp, hsame.store⟩⟩

/-- Both ways of restoring publish what was read, with the journal moved
on. -/
theorem restore_publishes {read : StoreM SlotRead} (hread : Keeps (SameMemory m) read) :
    Publishes (fun s => ∃ slot : SlotRead, s = slot.snapshot.after m.store.snapshot) m
      ((read >>= fun slot => accept slot >>= fun _ =>
        commitLocked cipher (slot.snapshot.after m.store.snapshot)).run m) := by
  refine publishes_bind hread fun slot n hn => ?_
  refine publishes_bind (x := accept slot) ?_ fun _ k _ => ?_
  · exact keeps_modify fun _ h => ⟨h.store, h.streams⟩
  · exact commitLocked_publishes ⟨slot, rfl⟩ k

theorem restoreCheckpoint_publishes (stateId : UInt64) (m : Machine) :
    Publishes (fun s => ∃ slot : SlotRead, s = slot.snapshot.after m.store.snapshot) m
      ((restoreCheckpoint cipher stateId).run m) := by
  have hsame := (sameMemory_ignoresDevice m).ignoresScript
  refine publishes_getStore_bind ?_
  refine publishes_lift_bind fun checkpoint _ => ?_
  split
  · exact publishes_fail _
  · split
    · exact restore_publishes (readLegacyAt_keeps hsame _ _)
    · exact restore_publishes (readAt_keeps hsame _ _)

theorem restoreBaseline_publishes (m : Machine) : Publishes (fun s => ∃ slot : SlotRead,
        s = slot.snapshot.after m.store.snapshot) m ((restoreBaseline cipher).run m) := by
  have hsame := (sameMemory_ignoresDevice m).ignoresScript
  refine publishes_getStore_bind ?_
  split
  · exact publishes_fail _
  · exact publishes_fail _
  · split
    · exact publishes_fail _
    · split
      · exact restore_publishes (readLegacyAt_keeps hsame _ _)
      · exact restore_publishes (readAt_keeps hsame _ _)

/-- The snapshot, its owner and the streams have not changed. -/
structure SameForms (m n : Machine) : Prop where
  snapshot : n.store.snapshot = m.store.snapshot
  cfc : n.store.cfc = m.store.cfc
  cfcName : n.store.cfcName = m.store.cfcName
  primaryDimension : n.store.primaryDimension = m.store.primaryDimension
  streams : n.streamState = m.streamState

theorem sameForms_ignoresDevice (m : Machine) : IgnoresDevice (SameForms m) :=
  fun _ _ h => ⟨h.snapshot, h.cfc, h.cfcName, h.primaryDimension, h.streams⟩

theorem SameMemory.sameForms {n : Machine} (h : SameMemory m n) : SameForms m n :=
  ⟨by rw [h.store], by rw [h.store], by rw [h.store], by rw [h.store], h.streams⟩

theorem sameForms_writeSlot (s : Snapshot) (generation : UInt64) (base : ℕ) :
    Keeps (SameForms m) (writeSlot cipher s generation base) :=
  writeSlot_keeps (sameForms_ignoresDevice m)
    (fun _ _ h => ⟨h.snapshot, h.cfc, h.cfcName, h.primaryDimension,
      h.streams⟩) cipher s generation base

theorem recordCheckpoint_sameForms (m : Machine) :
    SameForms m ((recordCheckpoint cipher).run m).2 := by
  have hkeeps : Keeps (SameForms m) (recordCheckpoint cipher) := by
    refine keeps_getStore.bind fun store => ?_
    refine (keeps_lift _).bind fun snapshot => ?_
    split
    · exact keeps_fail _
    refine (keeps_lift _).bind fun slot => ?_
    refine (sameForms_writeSlot _ _ _).bind fun encoded => ?_
    refine (verifyWrite_keeps (sameForms_ignoresDevice m).ignoresScript _ _).bind fun _ => ?_
    refine (keeps_modify fun n h => ?_).bind fun _ => keeps_pure _
    exact ⟨h.snapshot, h.cfc, h.cfcName, h.primaryDimension, h.streams⟩
  exact hkeeps m ⟨rfl, rfl, rfl, rfl, rfl⟩

theorem establishBaseline_sameForms (m : Machine) :
    SameForms m ((establishBaseline cipher).run m).2 := by
  have hupdate : ∀ baseline (lba : RuntimeStore → ℕ), Keeps (SameForms m) (modifyStore fun store =>
        { store with baseline := baseline, baselineLba := lba store }) :=
    fun _ _ => keeps_modify fun _ h => ⟨h.snapshot, h.cfc, h.cfcName, h.primaryDimension, h.streams⟩
  have hkeeps : Keeps (SameForms m) (establishBaseline cipher) := by
    refine keeps_getStore.bind fun store => ?_
    split
    · exact keeps_pure _
    · exact keeps_fail _
    refine (keeps_lift _).bind fun snapshot => ?_
    split
    · exact keeps_fail _
    refine (sameForms_writeSlot _ _ _).bind fun encoded => ?_
    refine (verifyWrite_keeps (sameForms_ignoresDevice
      m).ignoresScript _ _).attempt.bind fun verified => ?_
    rcases verified with _ | _
    · exact (hupdate .damaged (·.baselineLba)).bind fun _ => keeps_fail _
    · exact (hupdate (.ready _) (fun _ => ExpOS.baselineLba)).bind fun _ => keeps_pure _
  exact hkeeps m ⟨rfl, rfl, rfl, rfl, rfl⟩

end Specs

/-! ## The calls of a session -/

/-- A call of one of the store's entry points that may change it. -/
inductive StoreCall where
  | commit (snapshot : Snapshot)
  | saveNamedForm (cfc : CfcFin) (name : Bytes) (kind : FormKind)
      (bytes : Bytes)
  | commitSystemRecords (settings : ByteBlock settingsRecordCapacity)
      (accounts : Option (ByteBlock accountsRecordCapacity))
  | recordCheckpoint
  | establishBaseline
  | restoreCheckpoint (stateId : UInt64)
  | restoreBaseline
  | openBlobStream (cfc : CfcFin) (form : FormFin) (writable : Bool)
  | writeBlobStream (cfc : CfcFin) (form : FormFin) (id : UInt32)
      (offset : ℕ) (bytes : Bytes)
  | abortBlobStream (cfc : CfcFin) (form : FormFin) (id : UInt32)
  | commitBlobStream (cfc : CfcFin) (form : FormFin) (id : UInt32)

namespace StoreCall

/-- The call, without the value it returns. -/
def exec (cipher : StorageCipher) : StoreCall → StoreM Unit
  | .commit snapshot => do
      let _ ← ExpOS.commit cipher snapshot
  | .saveNamedForm cfc name kind bytes => do
      let _ ← ExpOS.saveNamedForm cipher cfc name kind bytes
  | .commitSystemRecords settings accounts => do
      let _ ← ExpOS.commitSystemRecords cipher settings accounts
  | .recordCheckpoint => do
      let _ ← ExpOS.recordCheckpoint cipher
  | .establishBaseline => do
      let _ ← ExpOS.establishBaseline cipher
  | .restoreCheckpoint stateId => do
      let _ ← ExpOS.restoreCheckpoint cipher stateId
  | .restoreBaseline => do
      let _ ← ExpOS.restoreBaseline cipher
  | .openBlobStream cfc form writable => do
      let _ ← ExpOS.openBlobStream cfc form writable
  | .writeBlobStream cfc form id offset bytes => do
      let _ ← ExpOS.writeBlobStream cfc form id offset bytes
  | .abortBlobStream cfc form id => ExpOS.abortBlobStream cfc form id
  | .commitBlobStream cfc form id => do
      let _ ← ExpOS.commitBlobStream cipher cfc form id

/-- What the call publishes when it returns; stream commits apart. -/
def Offers (m : Machine) (s : Snapshot) : StoreCall → Prop
  | .commit snapshot =>
    s = snapshot.published m.store.snapshot ∧ s.Valid
  | .saveNamedForm _ name kind bytes =>
    s.Valid ∧ ∃ text fin revision, Text.new name = .ok text ∧
      m.store.base.withNamedForm text kind bytes =
        .done (s, fin, revision)
  | .commitSystemRecords settings accounts =>
    s.Valid ∧ s = { m.store.base with
      settings := some settings, accounts }.journaled
  | .restoreCheckpoint _ | .restoreBaseline =>
    ∃ slot : SlotRead, s = slot.snapshot.after m.store.snapshot
  | _ => False

/-- The call returns without publishing anything. -/
def isQuiet : StoreCall → Bool
  | .recordCheckpoint | .establishBaseline => true
  | _ => false

end StoreCall

/-- What a call does to the current snapshot and the streams. -/
inductive MemoryChange (call : StoreCall) (m : Machine) :
    Outcome StoreError Unit × Machine → Prop
  | same {r : Outcome StoreError Unit × Machine} (h : SameForms m r.2)
      (hquiet : r.1 = .done () → call.isQuiet = true) :
      MemoryChange call m r
  | published {r : Outcome StoreError Unit × Machine} {s : Snapshot}
      (hoffer : call.Offers m s) (hdone : r.1 = .done ())
      (hstore : r.2.store = m.store.publishing s)
      (hstreams : r.2.streamState = m.streamState) :
      MemoryChange call m r
  | opened {index : ℕ} {stream : BlobStream} {snapshot : Snapshot}
      {stored : StoredForm} (hfree : m.streams.freeIndex = some index)
      (hsnapshot : m.store.snapshot = some snapshot)
      (hstored : snapshot.form? stream.form = some stored)
      (hrevision : stream.baseRevision = stored.form.revision)
      (hcontent : stream.content = stored.content) :
      MemoryChange call m (.done (),
        { m with
          streams := m.streams.put index (some stream)
          nextStreamId := m.nextStreamId + 1 })
  | rewritten {index : ℕ} {stream : BlobStream} (content : ChunkedBlob)
      (hget : m.streams.get index = some stream) :
      MemoryChange call m (.done (),
        { m with
          streams := m.streams.put index (some { stream with content }) })
  | closed {r : Outcome StoreError Unit × Machine} (index : ℕ)
      (hstore : r.2.store = m.store)
      (hstreams : r.2.streams = m.streams.put index none)
      (hdone : r.1 = .done () → ∃ cfc form id,
        call = .abortBlobStream cfc form id) :
      MemoryChange call m r
  | streamed {r : Outcome StoreError Unit × Machine} {cfc : CfcFin}
      {form : FormFin} {id : UInt32} {index : ℕ} {stream : BlobStream}
      {snapshot s : Snapshot} {revision : UInt32}
      (hcall : call = .commitBlobStream cfc form id)
      (hget : m.streams.get index = some stream)
      (hform : stream.form = form)
      (hsnapshot : m.store.snapshot = some snapshot)
      (hwith : snapshot.withStream form stream.baseRevision
        stream.content = .done (s, revision))
      (hvalid : s.Valid) (hdone : r.1 = .done ())
      (hstore : r.2.store = m.store.publishing s)
      (hstreams : r.2.streams = m.streams.put index none) :
      MemoryChange call m r

section Changes

variable {cipher : StorageCipher} {m : Machine}

/-- A call that fails at once. -/
theorem MemoryChange.failed {call : StoreCall} {e : StoreError} :
    MemoryChange call m (.fail e, m) :=
  .same (SameMemory.sameForms ⟨rfl, rfl⟩) (by simp)

/-- A call that publishes or fails. -/
theorem Publishes.memoryChange (call : StoreCall) {α : Type} {x : StoreM α}
    (h : Publishes (fun s => call.Offers m s) m (x.run m)) :
    MemoryChange call m ((x >>= fun _ => pure ()).run m) := by
  obtain ⟨hstreams, hstore⟩ := h
  rw [run_bind]
  revert hstreams hstore
  rcases x.run m with ⟨a | e | _, n⟩
  · rintro hstreams (⟨-, s, hs, hstore⟩ | ⟨hne, -⟩)
    · exact .published hs rfl hstore hstreams
    · exact absurd rfl (hne a)
  · rintro hstreams (⟨⟨a, ha⟩, -⟩ | ⟨-, hstore⟩)
    · cases ha
    · exact .same (SameMemory.sameForms ⟨hstore, hstreams⟩) (by simp)
  · rintro hstreams (⟨⟨a, ha⟩, -⟩ | ⟨-, hstore⟩)
    · cases ha
    · exact .same (SameMemory.sameForms ⟨hstore, hstreams⟩) (by simp)

/-- A call that changes neither the snapshot nor the streams. -/
theorem SameForms.memoryChange {call : StoreCall} {α : Type}
    {x : StoreM α} (hcall : call.isQuiet = true) (h : SameForms m (x.run m).2) :
    MemoryChange call m ((x >>= fun _ => pure ()).run m) := by
  refine .same ?_ fun _ => hcall
  rw [run_bind]
  revert h
  rcases x.run m with ⟨a | e | _, n⟩
  · exact id
  · exact id
  · exact id

variable (cfc : CfcFin) (form : FormFin) (id : UInt32)

theorem findStream_cases (m : Machine) :
    (findStream cfc form id).run m = (.fail .streamNotFound, m) ∨ ∃ index stream,
        m.streams.findIndex (BlobStream.isNamed cfc form id) = some index ∧
        m.streams.get index = some stream ∧ stream.form = form ∧
        (findStream cfc form id).run m = (.done (index, stream), m) := by
  simp only [findStream, run_bind, Effect.get]
  rcases hindex : m.streams.findIndex (BlobStream.isNamed cfc form id) with _ | index
  · exact .inl rfl
  obtain ⟨⟨stream, hget, hnamed⟩, -⟩ := SlotTable.findIndex_spec hindex
  refine .inr ⟨index, stream, rfl, hget, ?_, by simp [hget]⟩
  simp only [BlobStream.isNamed, Bool.and_eq_true, beq_iff_eq] at hnamed
  exact hnamed.2

theorem openBlobStream_change (writable : Bool) (m : Machine) :
    MemoryChange (.openBlobStream cfc form writable) m
      ((StoreCall.openBlobStream cfc form writable).exec cipher |>.run m) := by
  simp only [StoreCall.exec, openBlobStream, getStore, Effect.get, run_bind, run_pure, run_lift]
  rcases hcurrent : currentSnapshot m.store cfc with _ | snapshot
  · exact .failed
  rcases hstored : snapshot.form? form with _ | stored
  · simp only [Outcome.ofOption_some, hstored]
    exact .failed
  rcases hfree : m.streams.freeIndex with _ | index
  · simp only [Outcome.ofOption_some, hstored, hfree]
    exact .failed
  simp only [Outcome.ofOption_some, hstored, hfree]
  have hsnapshot : m.store.snapshot = some snapshot := by
    rw [currentSnapshot] at hcurrent
    split at hcurrent
    · exact hcurrent
    · cases hcurrent
  exact .opened hfree hsnapshot hstored rfl rfl

theorem writeBlobStream_change (offset : ℕ) (bytes : Bytes) (m : Machine) :
    MemoryChange (.writeBlobStream cfc form id offset bytes) m
      ((StoreCall.writeBlobStream cfc form id offset bytes).exec cipher
        |>.run m) := by
  simp only [StoreCall.exec, writeBlobStream, run_bind]
  obtain hfind | ⟨index, stream, -, hget, -, hfind⟩ := findStream_cases cfc form id m
  · rw [hfind]
    exact .failed
  rw [hfind]
  by_cases hwritable : stream.writable = false
  · simp only [if_pos hwritable]
    exact .failed
  simp only [if_neg hwritable]
  by_cases hfits : offset + bytes.length > formContentCapacity
  · simp only [if_pos hfits]
    exact .failed
  simp only [if_neg hfits]
  rcases stream.content.write offset bytes with content | e | _
  · exact .rewritten content hget
  · exact .failed
  · exact .same (SameMemory.sameForms ⟨rfl, rfl⟩) (by simp)

theorem abortBlobStream_change (m : Machine) : MemoryChange (.abortBlobStream cfc form id) m
      ((StoreCall.abortBlobStream cfc form id).exec cipher |>.run m) := by
  simp only [StoreCall.exec, abortBlobStream, run_bind]
  obtain hfind | ⟨index, stream, -, -, -, hfind⟩ := findStream_cases cfc form id m
  · rw [hfind]
    exact .failed
  · rw [hfind]
    exact .closed index rfl rfl fun _ => ⟨cfc, form, id, rfl⟩

/-- The machine after a stream was closed. -/
def Machine.closing (m : Machine) (index : ℕ) : Machine :=
  { m with streams := m.streams.put index none }

/-- A commit of a stream closes it and then publishes or fails. -/
theorem commitBlobStream_cases (cipher : StorageCipher) (cfc : CfcFin) (form : FormFin)
    (id : UInt32) (m : Machine) :
    (commitBlobStream cipher cfc form id).run m = (.fail .streamNotFound, m) ∨ ∃ index stream,
        m.streams.findIndex (BlobStream.isNamed cfc form id) = some index ∧
        m.streams.get index = some stream ∧ stream.form = form ∧
        Publishes (fun s => s.Valid ∧ ∃ snapshot revision, m.store.snapshot = some snapshot ∧
            snapshot.withStream form stream.baseRevision stream.content = .done (s, revision))
          (m.closing index) ((commitBlobStream cipher cfc form id).run m) := by
  obtain hfind | ⟨index, stream, hindex, hget, hform, hfind⟩ := findStream_cases cfc form id m
  · left
    simp only [commitBlobStream, run_bind, hfind]
  refine .inr ⟨index, stream, hindex, hget, hform, ?_⟩
  rw [commitBlobStream, run_bind, hfind]
  dsimp only
  rw [run_bind]
  simp only [setStream, Effect.modify]
  split
  · exact publishes_fail _
  refine publishes_getStore_bind ?_
  refine publishes_lift_bind fun snapshot hsnapshot => ?_
  refine publishes_lift_bind fun result hresult => ?_
  obtain ⟨s, revision⟩ := result
  refine publishes_validated_bind fun hvalid => ?_
  exact commitLocked_bind_publishes ⟨hvalid, snapshot, revision,
    Outcome.ofOption_eq_done.mp hsnapshot, hresult⟩ _

theorem commitBlobStream_change (m : Machine) : MemoryChange (.commitBlobStream cfc form id) m
      ((StoreCall.commitBlobStream cfc form id).exec cipher |>.run m) := by
  simp only [StoreCall.exec, run_bind]
  obtain hnone | ⟨index, stream, -, hget, hform, hpublishes⟩ :=
    commitBlobStream_cases cipher cfc form id m
  · rw [hnone]
    exact .failed
  obtain ⟨hstreams, hstore⟩ := hpublishes
  have hput : ((commitBlobStream cipher cfc form id).run m).2.streams =
      m.streams.put index none := congrArg Prod.fst hstreams
  revert hput hstore
  rcases (commitBlobStream cipher cfc form id).run m with ⟨a | e | _, n⟩
  · rintro (⟨-, s, ⟨hvalid, snapshot, revision, hsnapshot, hwith⟩, hstore⟩ | ⟨hne, -⟩) hput
    · exact .streamed rfl hget hform hsnapshot hwith hvalid rfl hstore hput
    · exact absurd rfl (hne a)
  · rintro (⟨⟨a, ha⟩, -⟩ | ⟨-, hstore⟩) hput
    · cases ha
    · exact .closed index hstore hput (by simp)
  · rintro (⟨⟨a, ha⟩, -⟩ | ⟨-, hstore⟩) hput
    · cases ha
    · exact .closed index hstore hput (by simp)

/-- Everything a call can do to the current snapshot and the streams. -/
theorem StoreCall.change (cipher : StorageCipher) (call : StoreCall) (m : Machine) :
    MemoryChange call m ((call.exec cipher).run m) := by
  cases call with
  | commit snapshot =>
    exact Publishes.memoryChange (.commit snapshot) (commit_publishes snapshot m)
  | saveNamedForm cfc name kind bytes =>
    exact Publishes.memoryChange (.saveNamedForm cfc name kind bytes)
      (saveNamedForm_publishes cfc name kind bytes m)
  | commitSystemRecords settings accounts =>
    exact Publishes.memoryChange (.commitSystemRecords settings accounts)
      (commitSystemRecords_publishes settings accounts m)
  | recordCheckpoint =>
    exact (recordCheckpoint_sameForms m).memoryChange rfl
  | establishBaseline =>
    exact (establishBaseline_sameForms m).memoryChange rfl
  | restoreCheckpoint stateId =>
    exact Publishes.memoryChange (.restoreCheckpoint stateId)
      (restoreCheckpoint_publishes stateId m)
  | restoreBaseline =>
    exact Publishes.memoryChange .restoreBaseline (restoreBaseline_publishes m)
  | openBlobStream cfc form writable =>
    exact openBlobStream_change cfc form writable m
  | writeBlobStream cfc form id offset bytes =>
    exact writeBlobStream_change cfc form id offset bytes m
  | abortBlobStream cfc form id => exact abortBlobStream_change cfc form id m
  | commitBlobStream cfc form id =>
    exact commitBlobStream_change cfc form id m

end Changes

/-! ## What the calls keep -/

/-- The call reads a checkpoint or the baseline back. -/
def StoreCall.isRestore : StoreCall → Bool
  | .restoreCheckpoint _ | .restoreBaseline => true
  | _ => false

section Keeping

variable {cipher : StorageCipher} {P : Machine → Prop}
  (h : CallKeeps cipher P)
  (hstreams : ∀ (m : Machine) streams next, P m →
    P { m with streams := streams, nextStreamId := next })

omit h hstreams in
theorem validated_keeps (s : Snapshot) : Keeps P (validated s) := by
  rw [validated]
  split
  · exact keeps_pure _
  · exact keeps_fail _

variable (cfc : CfcFin)

include h in
theorem saveNamedForm_keeps (name : Bytes) (kind : FormKind) (bytes : Bytes) :
    Keeps P (saveNamedForm cipher cfc name kind bytes) := by
  rw [saveNamedForm]
  split
  · exact keeps_fail _
  split
  · exact keeps_fail _
  refine keeps_getStore.bind fun store => ?_
  split
  · exact keeps_fail _
  · refine (keeps_lift _).bind fun result => ?_
    refine (validated_keeps _).bind fun _ => ?_
    exact (h.commitLocked _).bind fun _ => keeps_pure _

include h in
theorem commitSystemRecords_keeps (settings : ByteBlock settingsRecordCapacity)
    (accounts : Option (ByteBlock accountsRecordCapacity)) :
    Keeps P (commitSystemRecords cipher settings accounts) := by
  refine keeps_getStore.bind fun store => ?_
  split
  · exact keeps_fail _
  · exact (validated_keeps _).bind fun _ => h.commitLocked _

omit h hstreams in
theorem findStream_keeps (form : FormFin) (id : UInt32) :
    Keeps P (findStream cfc form id) :=
  keeps_get.bind fun _ => keeps_lift _

include hstreams in
theorem setStream_keeps (index : ℕ) (stream : Option BlobStream) :
    Keeps P (setStream index stream) :=
  keeps_modify fun m hm => hstreams m _ m.nextStreamId hm

include hstreams in
theorem openBlobStream_keeps (form : FormFin) (writable : Bool) :
    Keeps P (openBlobStream cfc form writable) := by
  refine keeps_getStore.bind fun store => ?_
  refine (keeps_lift _).bind fun snapshot => ?_
  refine (keeps_lift _).bind fun stored => ?_
  refine keeps_get.bind fun m => ?_
  refine (keeps_lift _).bind fun index => ?_
  refine (keeps_modify fun m hm => ?_).bind fun _ => ?_
  · exact hstreams m m.streams _ hm
  · exact (setStream_keeps hstreams _ _).bind fun _ => keeps_pure _

include hstreams in
theorem writeBlobStream_keeps (form : FormFin)
    (id : UInt32) (offset : ℕ) (bytes : Bytes) :
    Keeps P (writeBlobStream cfc form id offset bytes) := by
  refine (findStream_keeps cfc form id).bind fun found => ?_
  obtain ⟨index, stream⟩ := found
  dsimp only
  split
  · exact keeps_fail _
  split
  · exact keeps_fail _
  split
  · exact (setStream_keeps hstreams _ _).bind fun _ => keeps_pure _
  · exact keeps_fail _
  · exact keeps_lift _

include h hstreams in
theorem commitBlobStream_keeps (form : FormFin) (id : UInt32) :
    Keeps P (commitBlobStream cipher cfc form id) := by
  refine (findStream_keeps cfc form id).bind fun found => ?_
  obtain ⟨index, stream⟩ := found
  refine (setStream_keeps hstreams _ _).bind fun _ => ?_
  split
  · exact keeps_fail _
  refine keeps_getStore.bind fun store => ?_
  refine (keeps_lift _).bind fun snapshot => ?_
  refine (keeps_lift _).bind fun result => ?_
  refine (validated_keeps _).bind fun _ => ?_
  exact (h.commitLocked _).bind fun _ => keeps_pure _

include h hstreams in
/-- Whatever writing to a region and updating the store keep, every call
keeps that does not read a slot. -/
theorem StoreCall.exec_keeps {call : StoreCall} (hcall : call.isRestore = false) :
    Keeps P (call.exec cipher) := by
  cases call with
  | commit snapshot =>
    exact (h.commit snapshot).bind fun _ => keeps_pure _
  | saveNamedForm cfc name kind bytes =>
    exact (saveNamedForm_keeps h cfc name kind bytes).bind fun _ => keeps_pure _
  | commitSystemRecords settings accounts =>
    exact (commitSystemRecords_keeps h settings accounts).bind fun _ => keeps_pure _
  | recordCheckpoint =>
    exact h.recordCheckpoint.bind fun _ => keeps_pure _
  | establishBaseline =>
    exact h.establishBaseline.bind fun _ => keeps_pure _
  | restoreCheckpoint stateId => cases hcall
  | restoreBaseline => cases hcall
  | openBlobStream cfc form writable =>
    exact (openBlobStream_keeps hstreams cfc form writable).bind fun _ => keeps_pure _
  | writeBlobStream cfc form id offset bytes =>
    exact (writeBlobStream_keeps hstreams cfc form id offset bytes).bind fun _ => keeps_pure _
  | abortBlobStream cfc form id =>
    exact (findStream_keeps cfc form id).bind fun found => setStream_keeps hstreams _ _
  | commitBlobStream cfc form id =>
    exact (commitBlobStream_keeps h hstreams cfc form id).bind fun _ => keeps_pure _

end Keeping

end ExpOS
