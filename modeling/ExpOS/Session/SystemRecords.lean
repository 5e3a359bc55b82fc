import ExpOS.Session.Accounts
import ExpOS.Session.Preferences
import ExpOS.Store.Quiet

/-!
# Saving preferences and accounts

The preferences and the accounts are kept in memory and saved together, as two
records of the store.  The record of the accounts is left out until they have
been initialised once.  On boot the records are read back.
-/

namespace ExpOS.PersistentState

open List Option

/-! ## The records -/

structure PersistentData where
  accountsInitialized : Bool
  preferences : PersistentPreferences
  accounts : StoredTable

namespace PersistentData

def new : PersistentData where
  accountsInitialized := false
  preferences := .new
  accounts := ⟨replicate maxAccounts .empty, length_replicate⟩

/-- The accounts, if there are any yet. -/
def loadAccounts (data : PersistentData) : Option StoredTable :=
  if data.accountsInitialized then some data.accounts else none

end PersistentData

theorem length_encodeAccounts (table : List StoredAccount) :
    (encodeAccounts table).length = table.length * accountRecordLen := by
  induction table with
  | nil => simp [encodeAccounts]
  | cons account table ih =>
    rw [encodeAccounts, flatMap_cons, length_append, length_encodeAccount, ← encodeAccounts, ih,
      length_cons, Nat.succ_mul, Nat.add_comm]

def encodeTable (table : StoredTable) : ByteBlock accountsRecordCapacity :=
  ⟨encodeAccounts table.val, by rw [length_encodeAccounts, table.property]; rfl⟩

def encodeExpfsRecords (data : PersistentData) :
    ByteBlock settingsRecordCapacity × Option (ByteBlock accountsRecordCapacity) :=
  (encodePreferences data.preferences,
    if data.accountsInitialized then some (encodeTable data.accounts) else none)

variable {count : ℕ} {octets : Bytes} {table : List StoredAccount}

theorem length_decodeAccounts
    (h : decodeAccounts count octets = some table) : table.length = count := by
  induction count generalizing octets table with
  | zero => cases h; rfl
  | succ count ih =>
    rw [decodeAccounts] at h
    split at h
    · obtain ⟨account, -, h⟩ := bind_eq_some_iff.mp h
      obtain ⟨rest, hrest, h⟩ := bind_eq_some_iff.mp h
      cases h
      rw [length_cons, ih hrest]
    · cases h

def decodeTable (record : ByteBlock accountsRecordCapacity) : Option StoredTable :=
  match h : decodeAccounts maxAccounts record.val with
  | none => none
  | some table => some ⟨table, length_decodeAccounts h⟩

def decodeExpfsRecords (settings : Option (ByteBlock settingsRecordCapacity))
    (accounts : Option (ByteBlock accountsRecordCapacity)) : Option PersistentData :=
  if settings.isNone && accounts.isNone then none
  else
    let data : PersistentData :=
      match settings with
      | none => .new
      | some settings => { PersistentData.new with preferences := decodePreferences settings }
    match accounts with
    | none => some data
    | some accounts => do
        let accounts ← decodeTable accounts
        some { data with accounts, accountsInitialized := true }

/-! ## Saves -/

/-- The records of the current snapshot (`system_records` in the source). -/
def systemRecords (store : RuntimeStore) :
    Option (ByteBlock settingsRecordCapacity) × Option (ByteBlock accountsRecordCapacity) :=
  match store.snapshot with
  | none => (none, none)
  | some snapshot => (snapshot.settings, snapshot.accounts)

/-- What a boot makes of the records in the store. -/
def loadRecords (store : RuntimeStore) : Option PersistentData :=
  decodeExpfsRecords (systemRecords store).1 (systemRecords store).2

/-- The two calls that save something. -/
inductive Save where
  | preferences (chosen : PersistentPreferences)
  | accounts (table : StoredTable)

namespace Save

/-- The data a save tries to commit. -/
def candidate : Save → PersistentData → PersistentData
  | .preferences chosen, data => { data with preferences := sanitizePreferences chosen }
  | .accounts table, data => { data with accounts := table, accountsInitialized := true }

/-- The data in memory change only when the store has committed the records. -/
def perform (cipher : StorageCipher) (save : Save) :
    Mutator (PersistentData × Machine) StoreError Unit := fun (data, m) =>
  let records := encodeExpfsRecords (save.candidate data)
  match (commitSystemRecords cipher records.1 records.2).run m with
  | (.done _, m) => (.done (), save.candidate data, m)
  | (.fail error, m) => (.fail error, data, m)
  | (.halt, m) => (.halt, data, m)

/-- The accounts that are saved can be read back. -/
def Readable : Save → Prop
  | .preferences _ => True
  | .accounts table => ∀ account ∈ table.val, account.Decodable

end Save

/-- A save, or preferences that are put into memory alone. -/
inductive Call where
  | save (save : Save)
  | applyRuntimePreferences (chosen : PersistentPreferences)

namespace Call

/-- The state after a call, whatever becomes of it. -/
def perform (cipher : StorageCipher) : Call → PersistentData × Machine → PersistentData × Machine
  | .save chosen, state => (chosen.perform cipher state).2
  | .applyRuntimePreferences chosen, state =>
    ({ state.1 with preferences := sanitizePreferences chosen }, state.2)

def run (cipher : StorageCipher) (calls : List Call) (state : PersistentData × Machine) :
    PersistentData × Machine :=
  calls.foldl (fun state call => call.perform cipher state) state

def Readable : Call → Prop
  | .save chosen => chosen.Readable
  | .applyRuntimePreferences _ => True

end Call

/-! ## What is read back -/

/-- Whatever the decoder accepts, it accepts again. -/
theorem decodeAccount_decodable {input : ByteBlock accountRecordLen} {account : StoredAccount}
    (h : decodeAccount input = some account) : account.Decodable := by
  unfold decodeAccount at h
  dsimp only at h
  split at h
  · cases h
  rename_i hvalid
  cases h
  simp only [not_or, not_and] at hvalid
  obtain ⟨-, hauthority, hlen, hoccupied⟩ := hvalid
  refine ⟨UInt8.not_lt.mp hauthority, Nat.not_lt.mp hlen, fun hset =>
    ⟨(hoccupied hset).1, fun hzero => (hoccupied hset).2 ?_⟩⟩
  -- four octets are a number that the word can hold
  have hlt : Bytes.fromLeBytes (recordPart input 76 4 (by decide)).val < 2 ^ 32 := by
    have hbound := Bytes.fromLeBytes_lt (recordPart input 76 4 (by decide)).val
    rw [(recordPart input 76 4 (by decide)).property] at hbound
    exact hbound
  exact (UInt32.toNat_ofNat_of_lt' hlt).symm.trans (congrArg UInt32.toNat hzero)

theorem decodeAccounts_decodable
    (h : decodeAccounts count octets = some table) : ∀ account ∈ table, account.Decodable := by
  induction count generalizing octets table with
  | zero =>
    cases h
    exact fun account haccount => absurd haccount not_mem_nil
  | succ count ih =>
    rw [decodeAccounts] at h
    split at h
    · obtain ⟨account, haccount, h⟩ := bind_eq_some_iff.mp h
      obtain ⟨rest, hrest, h⟩ := bind_eq_some_iff.mp h
      cases h
      exact forall_mem_cons.mpr ⟨decodeAccount_decodable haccount, ih hrest⟩
    · cases h

theorem decodeTable_eq_some {record : ByteBlock accountsRecordCapacity} {table : StoredTable} :
    decodeTable record = some table ↔ decodeAccounts maxAccounts record.val = some table.val := by
  unfold decodeTable
  split
  · next hnone => simp [hnone]
  · next accounts hsome => simp [hsome, Subtype.ext_iff]

/-- A table is read back exactly if the decoder accepts its accounts. -/
theorem decodeTable_encodeTable_iff (table : StoredTable) :
    decodeTable (encodeTable table) = some table ↔
      ∀ account ∈ table.val, account.Decodable := by
  rw [decodeTable_eq_some]
  exact ⟨decodeAccounts_decodable, decodeAccounts_encodeAccounts table.property⟩

/-- The data that the records keep. -/
structure Storable (data : PersistentData) : Prop where
  preferences : sanitizePreferences data.preferences = data.preferences
  accounts : ∀ table, data.loadAccounts = some table → ∀ account ∈ table.val, account.Decodable

/-- Two data with the same preferences and the same accounts. -/
def SameSettings (data other : PersistentData) : Prop :=
  data.preferences = other.preferences ∧ data.loadAccounts = other.loadAccounts

/-- The data that are read back from the records of others. -/
def reload (data : PersistentData) : Option PersistentData :=
  decodeExpfsRecords (some (encodeExpfsRecords data).1) (encodeExpfsRecords data).2

variable {data : PersistentData}

theorem reload_of_initialized (h : data.accountsInitialized = true) :
    reload data = (decodeTable (encodeTable data.accounts)).map fun accounts =>
      { accountsInitialized := true
        preferences := decodePreferences (encodePreferences data.preferences)
        accounts } := by
  simp only [reload, decodeExpfsRecords, encodeExpfsRecords, h, if_true]
  cases decodeTable (encodeTable data.accounts) <;> rfl

/-- A save and a load preserve preferences and accounts exactly if the
preferences are sanitized and the decoder accepts the accounts. -/
theorem reload_sameSettings_iff (data : PersistentData) :
    (∃ loaded, reload data = some loaded ∧ SameSettings loaded data) ↔ Storable data := by
  have hpreferences := decodePreferences_encodePreferences_eq_iff data.preferences
  cases hinit : data.accountsInitialized with
  | false =>
    have hload : data.loadAccounts = none := by simp [PersistentData.loadAccounts, hinit]
    have hreload : reload data = some { PersistentData.new with
        preferences := decodePreferences (encodePreferences data.preferences) } := by
      simp [reload, decodeExpfsRecords, encodeExpfsRecords, hinit]
    rw [hreload]
    constructor
    · rintro ⟨loaded, hloaded, hsame, -⟩
      cases hloaded
      exact ⟨hpreferences.mp hsame, by simp [hload]⟩
    · intro h
      exact ⟨_, rfl, hpreferences.mpr h.preferences, hload.symm⟩
  | true =>
    have hload : data.loadAccounts = some data.accounts := by
      simp [PersistentData.loadAccounts, hinit]
    rw [reload_of_initialized hinit]
    constructor
    · rintro ⟨loaded, hloaded, hsame, haccounts⟩
      obtain ⟨table, htable, rfl⟩ := map_eq_some_iff.mp hloaded
      have hsaved : table = data.accounts := some.inj (haccounts.trans hload)
      subst hsaved
      refine ⟨hpreferences.mp hsame, fun other hother => ?_⟩
      cases hload.symm.trans hother
      exact (decodeTable_encodeTable_iff data.accounts).mp htable
    · intro h
      rw [(decodeTable_encodeTable_iff data.accounts).mpr (h.accounts _ hload)]
      exact ⟨_, rfl, hpreferences.mpr h.preferences, hload.symm⟩

/-! ## Runs of calls -/

theorem storable_new : Storable .new :=
  ⟨by decide, by simp [PersistentData.loadAccounts, PersistentData.new]⟩

/-- Whatever is read from records is kept by them. -/
theorem storable_decodeExpfsRecords {settings : Option (ByteBlock settingsRecordCapacity)}
    {accounts : Option (ByteBlock accountsRecordCapacity)}
    (h : decodeExpfsRecords settings accounts = some data) : Storable data := by
  have hread : ∀ preferences, preferences = .new ∨
      (∃ record, preferences = decodePreferences record) →
        sanitizePreferences preferences = preferences := by
    rintro preferences (rfl | ⟨record, rfl⟩)
    · exact storable_new.preferences
    · exact sanitizePreferences_decodePreferences record
  unfold decodeExpfsRecords at h
  split at h
  · cases h
  cases accounts with
  | none =>
    cases settings with
    | none => exact (some.inj h) ▸ storable_new
    | some record =>
      cases h
      exact ⟨hread _ (.inr ⟨record, rfl⟩), storable_new.accounts⟩
  | some accounts =>
    obtain ⟨table, htable, hdata⟩ := bind_eq_some_iff.mp h
    cases hdata
    refine ⟨hread _ ?_, fun other hother => ?_⟩
    · cases settings with
      | none => exact .inl rfl
      | some record => exact .inr ⟨record, rfl⟩
    · cases hother
      exact decodeAccounts_decodable (decodeTable_eq_some.mp htable)

variable {save : Save}

theorem Save.storable_candidate (hsave : save.Readable)
    (h : Storable data) : Storable (save.candidate data) := by
  cases save with
  | preferences chosen => exact ⟨sanitizePreferences_idem chosen, h.accounts⟩
  | accounts table =>
    refine ⟨h.preferences, fun other hother => ?_⟩
    cases hother
    exact hsave

variable (cipher : StorageCipher)

/-- A save that returns has put the candidate into memory and its records into
the store; any other save leaves the data alone. -/
theorem Save.perform_spec (save : Save) (data : PersistentData) (m : Machine) :
    let after := save.perform cipher (data, m)
    after.1 = .done () ∧ after.2.1 = save.candidate data ∧
        loadRecords after.2.2.store = reload (save.candidate data) ∨
      after.1 ≠ .done () ∧ after.2.1 = data := by
  have hstore := (@commitSystemRecords_publishes cipher
    (encodeExpfsRecords (save.candidate data)).1 (encodeExpfsRecords (save.candidate data)).2
      m).store
  simp only [Save.perform]
  revert hstore
  rcases (commitSystemRecords cipher (encodeExpfsRecords (save.candidate data)).1
    (encodeExpfsRecords (save.candidate data)).2).run m with ⟨generation | error | _, n⟩
  · rintro (⟨-, snapshot, ⟨-, rfl⟩, hn⟩ | ⟨hne, -⟩)
    · refine .inl ⟨rfl, rfl, ?_⟩
      rw [hn]
      rfl
    · exact absurd rfl (hne generation)
  · exact fun _ => .inr ⟨by simp, rfl⟩
  · exact fun _ => .inr ⟨by simp, rfl⟩

variable {state : PersistentData × Machine}

theorem Save.storable_perform (hsave : save.Readable) (h : Storable state.1) :
    Storable (save.perform cipher state).2.1 := by
  rcases save.perform_spec cipher state.1 state.2 with ⟨-, hdata, -⟩ | ⟨-, hdata⟩
  · exact hdata ▸ storable_candidate hsave h
  · exact hdata ▸ h

theorem Call.storable_run {calls : List Call} (hcalls : ∀ call ∈ calls, call.Readable)
    (h : Storable state.1) : Storable (Call.run cipher calls state).1 := by
  induction calls generalizing state with
  | nil => exact h
  | cons call calls ih =>
    have hboth := forall_mem_cons.mp hcalls
    refine ih hboth.2 ?_
    cases call with
    | save save => exact Save.storable_perform cipher hboth.1 h
    | applyRuntimePreferences chosen => exact ⟨sanitizePreferences_idem chosen, h.accounts⟩

/-- Preference records and the saves that write them.  A record holds two bits
of each selector of the window layout, so encoding and decoding is sanitizing
exactly for preferences whose selectors fit.  Sanitized preferences do, and
only those are ever saved: after any run of calls, a save that returns can be
loaded with the same preferences and accounts. -/
theorem preference_records :
    (∀ value, decodePreferences (encodePreferences value) = sanitizePreferences value ↔
      LayoutFits value) ∧
    (∀ value, LayoutFits (sanitizePreferences value)) ∧
    (∀ value, sanitizePreferences (sanitizePreferences value) = sanitizePreferences value) ∧
    (∀ record, sanitizePreferences (decodePreferences record) = decodePreferences record) ∧
    (∀ data, (∃ loaded, reload data = some loaded ∧ SameSettings loaded data) ↔
      Storable data) ∧
    (∀ cipher calls save data m, (data = .new ∨ ∃ settings accounts,
        decodeExpfsRecords settings accounts = some data) →
      (∀ call ∈ calls ++ [.save save], call.Readable) →
      let before := Call.run cipher calls (data, m)
      let after := save.perform cipher before
      after.1 = .done () → after.2.1 = save.candidate before.1 ∧
        ∃ loaded, loadRecords after.2.2.store = some loaded ∧
          SameSettings loaded (save.candidate before.1)) := by
  refine ⟨decodePreferences_encodePreferences_iff, layoutFits_sanitizePreferences,
    sanitizePreferences_idem, sanitizePreferences_decodePreferences, reload_sameSettings_iff, ?_⟩
  intro cipher calls save data m hdata hreadable
  dsimp only
  intro hdone
  have hstart : Storable data := by
    rcases hdata with rfl | ⟨settings, accounts, hdata⟩
    · exact storable_new
    · exact storable_decodeExpfsRecords hdata
  have hbefore : Storable (Call.run cipher calls (data, m)).1 :=
    Call.storable_run cipher (fun call hcall => hreadable call (mem_append_left _ hcall)) hstart
  have hcandidate := Save.storable_candidate
    (hreadable (.save save) (mem_append_right _ mem_cons_self)) hbefore
  rcases save.perform_spec cipher (Call.run cipher calls (data, m)).1
    (Call.run cipher calls (data, m)).2 with ⟨-, hkept, hload⟩ | ⟨hne, -⟩
  · refine ⟨hkept, ?_⟩
    rw [hload]
    exact (reload_sameSettings_iff _).mpr hcandidate
  · exact absurd hdone hne

def visitorAccount : StoredAccount :=
  { StoredAccount.empty with nameLen := 7, kdfRounds := 1, occupied := true }

def visitorTable : StoredTable :=
  ⟨visitorAccount :: replicate 11 .empty, rfl⟩

/-- A placement that is out of range is put into memory. -/
def clippedCalls : List Call :=
  [.applyRuntimePreferences { PersistentPreferences.new with taskbarPlacement := 5 }]

def clippedState : PersistentData × Machine :=
  Call.run clearCipher clippedCalls (.new, freshMachine plainConfig)

/-- It is saved with a table of accounts, and both are read back. -/
theorem visitorTable_reloaded :
    ((Save.accounts visitorTable).perform clearCipher clippedState).1 = .done () ∧
    ∃ loaded, loadRecords ((Save.accounts visitorTable).perform clearCipher
        clippedState).2.2.store = some loaded ∧
      SameSettings loaded ((Save.accounts visitorTable).candidate clippedState.1) := by
  have hreadable : ∀ account ∈ visitorTable.val, account.Decodable := by
    refine forall_mem_cons.mpr ⟨⟨by decide, by decide, by decide⟩, fun account haccount => ?_⟩
    rw [eq_of_mem_replicate haccount]
    exact ⟨by decide, by decide, by decide⟩
  have hdone : ((Save.accounts visitorTable).perform clearCipher clippedState).1 = .done () := by
    let records := encodeExpfsRecords ((Save.accounts visitorTable).candidate clippedState.1)
    obtain ⟨m, hcommit⟩ := commitSystemRecords_ready clearCipher (plainConfig_opens clearCipher)
      (freshMachine_ready plainConfig) records.1 records.2
      ⟨⟨validateSnapshot_eq_ok.mp (by decide +kernel), rfl, rfl, by decide +kernel⟩,
        fun stored hstored => absurd (show stored ∈ [] from hstored) not_mem_nil⟩
    have hmachine : clippedState.2 = freshMachine plainConfig := rfl
    rw [← hmachine] at hcommit
    rw [Save.perform, hcommit]
  have hcalls : ∀ call ∈ clippedCalls ++ [.save (.accounts visitorTable)], call.Readable :=
    forall_mem_cons.mpr ⟨trivial, forall_mem_singleton.mpr hreadable⟩
  rw [clippedState] at hdone ⊢
  exact ⟨hdone, (preference_records.2.2.2.2.2 clearCipher clippedCalls (.accounts visitorTable)
    .new (freshMachine plainConfig) (.inl rfl) hcalls hdone).2⟩

/-- A placement that is out of range keeps its two low bits in the record and
is another placement when it is read back. -/
theorem placement_five_reads_as_top :
    decodePreferences (encodePreferences { PersistentPreferences.new with taskbarPlacement := 5 }) ≠
      sanitizePreferences { PersistentPreferences.new with taskbarPlacement := 5 } := by
  intro h
  have hplacement := congrArg PersistentPreferences.taskbarPlacement h
  revert hplacement
  decide

end ExpOS.PersistentState
