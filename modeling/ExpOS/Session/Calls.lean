import ExpOS.Session.Accounts

/-!
# Changing accounts

A call that adds or removes an account or changes a password prepares the new
table, saves it, and only then takes it over.  On boot the table in memory is
replaced first and saved afterwards, if it did not come from disk.

Whether a save succeeds is an input of each call.  Every table that is reached
after a boot is sound, so the next boot accepts what was saved of it.
-/

namespace ExpOS

open SlotTable

inductive AccountError where
  | invalidName
  | invalidPassword
  | duplicate
  | full
  | missing
  | protectedAccount
  | active
  | persistence
deriving DecidableEq

/-- The table in memory and the one the system database holds, if any. -/
structure SessionState where
  accounts : AccountStore
  saved : Option StoredTable

abbrev AccountM := Effect SessionState AccountError

/-- Save a table. -/
def saveAccounts (persisted : Bool) (table : StoredTable) : AccountM Unit :=
  if persisted then Effect.modify fun s => { s with saved := some table }
  else Effect.fail .persistence

/-- Save a new table and take it over. -/
def replaceAccounts (persisted : Bool) (candidate : AccountStore) : AccountM Unit := do
  saveAccounts persisted candidate.persistent
  Effect.modify fun s => { s with accounts := candidate }

/-- The account has this name. -/
def Account.named (name : Bytes) (account : Account) : Bool :=
  account.name.content == name

section Calls

variable (kdf : PasswordKdf)

def addAccount (persisted : Bool) (salt : PasswordSalt)
    (name password : Bytes) (authority : Authority) : AccountM Unit where
  run s :=
    if hname : validName name = true then
      if validPassword password = false then (.fail .invalidPassword, s)
      else
        let normalized := AccountField.fromInput name true
        if s.accounts.occupants.any (Account.named normalized.content) then
          (.fail .duplicate, s)
        else
          match s.accounts.freeIndex with
          | none => (.fail .full, s)
          | some slot =>
            let account := Account.withPassword kdf salt normalized
              (by rw [content_fromInput hname]; exact hname)
              password authority
            (replaceAccounts persisted
              (s.accounts.put slot (some account))).run s
    else (.fail .invalidName, s)

def removeAccount (persisted : Bool) (name activeName : Bytes) : AccountM Unit where
  run s :=
    let normalized := AccountField.fromInput name true
    if normalized.content = operatorName then (.fail .protectedAccount, s)
    else if normalized.content = activeName then (.fail .active, s)
    else
      match s.accounts.findIndex (Account.named normalized.content) with
      | none => (.fail .missing, s)
      | some slot =>
        (replaceAccounts persisted (s.accounts.put slot none)).run s

def changePassword (persisted : Bool) (salt : PasswordSalt)
    (name password : Bytes) : AccountM Unit where
  run s :=
    if validPassword password = false then (.fail .invalidPassword, s)
    else
      let normalized := AccountField.fromInput name true
      match s.accounts.findIndex (Account.named normalized.content) with
      | none => (.fail .missing, s)
      | some slot =>
        match s.accounts.get slot with
        | none => (.fail .missing, s)
        | some account =>
          (replaceAccounts persisted (s.accounts.put slot
            (some (Account.withPassword kdf salt account.name
              account.name_valid password account.authority)))).run s

/-- The salts drawn for the three built-in accounts. -/
structure BuiltinSalts where
  operator : PasswordSalt
  developer : PasswordSalt
  guest : PasswordSalt

def AccountStore.builtins (salts : BuiltinSalts) : AccountStore :=
  ((AccountStore.new.put 0 (some (Account.withPassword kdf salts.operator
      (.fromStatic operatorName) (by decide) (asciiBytes "expos")
      .operator))).put 1
    (some (Account.withPassword kdf salts.developer
      (.fromStatic (asciiBytes "developer")) (by decide)
      (asciiBytes "prism") .power))).put 2
    (some (Account.withPassword kdf salts.guest
      (.fromStatic (asciiBytes "guest")) (by decide) (asciiBytes "guest")
      .guest))

/-- The table the installer's seeds make up. -/
def seedTable (operator first second : Option StoredAccount) : Option StoredTable :=
  operator.map fun record =>
    ⟨record :: [first, second].reduceOption ++
      List.replicate (11 - [first, second].reduceOption.length) .empty, by
        have hlength : [first, second].reduceOption.length ≤ 2 :=
          List.reduceOption_length_le [first, second]
        simp only [List.cons_append, List.length_cons, List.length_append,
          List.length_replicate, maxAccounts]
        omega⟩

/-- The accounts of a table that is there and accepted. -/
def acceptedAccounts (table : Option StoredTable) : Outcome AccountError (Option AccountStore) :=
  match table with
  | none => .done none
  | some table =>
    match AccountStore.fromPersistent table with
    | .done accounts => .done (some accounts)
    | .fail _ => .done none
    | .halt => .halt

/-- Take over accounts that are not on disk yet and try to save them. -/
def startWith (persisted : Bool) (accounts : AccountStore) : AccountM Unit := do
  Effect.modify fun s => { s with accounts }
  let _ ← (saveAccounts persisted accounts.persistent).attempt

def initializeWithSeeds (persisted : Bool) (salts : BuiltinSalts)
    (operator first second : Option StoredAccount) : AccountM Unit where
  run s :=
    match acceptedAccounts s.saved with
    | .halt => (.halt, s)
    | .fail failure => (.fail failure, s)
    | .done (some accounts) => (.done (), { s with accounts })
    | .done none =>
      match acceptedAccounts (seedTable operator first second) with
      | .halt => (.halt, s)
      | .fail failure => (.fail failure, s)
      | .done (some accounts) => (startWith persisted accounts).run s
      | .done none =>
        (startWith persisted (AccountStore.builtins kdf salts)).run s

/-! ## What one call can do -/

variable (persisted : Bool)

theorem startWith_run (accounts : AccountStore) (s : SessionState) :
    (startWith persisted accounts).run s = (.done (), ⟨accounts,
        if persisted then some accounts.persistent else s.saved⟩) := by
  cases persisted <;> rfl

/-- A call either leaves everything as it was or saves and takes over a sound
table. -/
def Replaces (persisted : Bool) (s t : SessionState) : Prop :=
  t = s ∨ persisted = true ∧ t.accounts.Sound ∧ t.saved = some t.accounts.persistent

theorem replaces_refl (s : SessionState) : Replaces persisted s s :=
  .inl rfl

theorem replaces_replaceAccounts (s : SessionState)
    {candidate : AccountStore} (h : candidate.Sound) :
    Replaces persisted s ((replaceAccounts persisted candidate).run s).2 := by
  cases persisted with
  | false => exact .inl rfl
  | true => exact .inr ⟨rfl, h, rfl⟩

namespace AccountStore

variable {store : AccountStore} {slot : ℕ} {account : Account}

/-- A free slot takes an account with a new name. -/
theorem Sound.put_free (h : store.Sound)
    (hslot : store.freeIndex = some slot) (hnew : ∀ other ∈ store.occupants,
      other.name.content ≠ account.name.content) : Sound (store.put slot (some account)) := by
  constructor
  · apply distinct_of_changed h.distinct get_put_some_cases
    intro i a hi hname
    exact absurd hname (hnew a (mem_occupants_of_get hi))
  · obtain ⟨i, operator, hi, hname, hauthority⟩ := h.operator
    refine ⟨i, operator, ?_, hname, hauthority⟩
    rw [get_put_of_ne (ne_of_some_none hi (get_of_freeIndex hslot)), hi]

/-- Every account but the operator can be removed. -/
theorem Sound.put_none (h : store.Sound)
    (hslot : store.get slot = some account) (hname : account.name.content ≠ operatorName) :
    Sound (store.put slot none) := by
  have hold : ∀ i a, (store.put slot none).get i = some a → store.get i = some a := by
    intro i a hi
    rw [get_put] at hi
    split at hi
    · cases hi
    · exact hi
  constructor
  · intro i j a b hi hj
    exact h.distinct i j a b (hold i a hi) (hold j b hj)
  obtain ⟨i, operator, hi, hoperator, hauthority⟩ := h.operator
  refine ⟨i, operator, ?_, hoperator, hauthority⟩
  rw [get_put_of_ne, hi]
  rintro rfl
  rw [hslot] at hi
  obtain rfl := Option.some.inj hi
  exact hname hoperator

/-- An account can be replaced by one with its name and authority. -/
theorem Sound.put_same (h : store.Sound)
    {account' : Account} (hslot : store.get slot = some account)
    (hname : account'.name = account.name) (hauthority : account'.authority = account.authority) :
    Sound (store.put slot (some account')) := by
  constructor
  · apply distinct_of_changed h.distinct get_put_some_cases
    intro i a hi heq
    exact h.distinct i slot a account hi hslot (by rw [heq, hname])
  · obtain ⟨i, operator, hi, hoperator, hrole⟩ := h.operator
    by_cases hsame : i = slot
    · subst hsame
      rw [hslot] at hi
      obtain rfl := Option.some.inj hi
      exact ⟨i, account', get_put_self (lt_of_get hslot) _,
        by rw [hname, hoperator], by rw [hauthority, hrole]⟩
    · refine ⟨i, operator, ?_, hoperator, hrole⟩
      rw [get_put_of_ne hsame, hi]

theorem builtins_sound (salts : BuiltinSalts) : (builtins kdf salts).Sound := by
  have hempty : ∀ i, AccountStore.new.get i = none := get_empty
  have hoperator : (AccountField.fromStatic operatorName).content = operatorName := by decide
  have hdeveloper : (AccountField.fromStatic (asciiBytes "developer")).content
      = asciiBytes "developer" := by decide
  have hguest : (AccountField.fromStatic (asciiBytes "guest")).content =
      asciiBytes "guest" := by decide
  constructor
  · intro i j a b hi hj hname
    have hcases : ∀ i a, (builtins kdf salts).get i = some a →
        i = 0 ∧ a.name.content = operatorName ∨ i = 1 ∧ a.name.content = asciiBytes "developer" ∨
        i = 2 ∧ a.name.content = asciiBytes "guest" := by
      intro i a hi
      rcases get_put_some_cases hi with ⟨rfl, rfl⟩ | ⟨-, hi⟩
      · exact .inr (.inr ⟨rfl, hguest⟩)
      rcases get_put_some_cases hi with ⟨rfl, rfl⟩ | ⟨-, hi⟩
      · exact .inr (.inl ⟨rfl, hdeveloper⟩)
      rcases get_put_some_cases hi with ⟨rfl, rfl⟩ | ⟨-, hi⟩
      · exact .inl ⟨rfl, hoperator⟩
      · rw [hempty] at hi
        cases hi
    rcases hcases i a hi with ⟨rfl, ha⟩ | ⟨rfl, ha⟩ | ⟨rfl, ha⟩ <;>
      rcases hcases j b hj with ⟨rfl, hb⟩ | ⟨rfl, hb⟩ | ⟨rfl, hb⟩ <;>
      first
      | rfl
      | (rw [ha, hb] at hname
         exact absurd hname (by decide))
  · refine ⟨0, Account.withPassword kdf salts.operator
      (.fromStatic operatorName) (by decide) (asciiBytes "expos") .operator, ?_, hoperator, rfl⟩
    rw [builtins, get_put_of_ne (by decide), get_put_of_ne (by decide), get_put_self (by decide)]

end AccountStore

section Steps

variable {s : SessionState} (hsound : s.accounts.Sound)
include hsound

theorem addAccount_replaces (persisted : Bool) (salt : PasswordSalt)
    (name password : Bytes) (authority : Authority) : Replaces persisted s
      ((addAccount kdf persisted salt name password authority).run s).2 := by
  simp only [addAccount]
  split
  · split
    · exact replaces_refl persisted s
    split
    · exact replaces_refl persisted s
    rename_i hnew
    split
    · exact replaces_refl persisted s
    rename_i slot hslot
    refine replaces_replaceAccounts persisted s
      (hsound.put_free hslot fun other hother hsame => hnew ?_)
    exact List.any_eq_true.mpr ⟨other, hother, beq_iff_eq.mpr hsame⟩
  · exact replaces_refl persisted s

theorem removeAccount_replaces (persisted : Bool) (name activeName : Bytes) : Replaces persisted s
      ((removeAccount persisted name activeName).run s).2 := by
  simp only [removeAccount]
  split
  · exact replaces_refl persisted s
  rename_i hoperator
  split
  · exact replaces_refl persisted s
  split
  · exact replaces_refl persisted s
  rename_i slot hslot
  obtain ⟨⟨account, haccount, hname⟩, -⟩ := findIndex_spec hslot
  refine replaces_replaceAccounts persisted s (hsound.put_none haccount ?_)
  rw [beq_iff_eq.mp hname]
  exact hoperator

theorem changePassword_replaces (persisted : Bool) (salt : PasswordSalt) (name password : Bytes) :
    Replaces persisted s ((changePassword kdf persisted salt name password).run s).2 := by
  simp only [changePassword]
  iterate 3
    split
    · exact replaces_refl persisted s
  · next account haccount =>
      exact replaces_replaceAccounts persisted s (hsound.put_same haccount rfl rfl)

end Steps

theorem acceptedAccounts_sound {table : Option StoredTable}
    {accounts : AccountStore} (h : acceptedAccounts table = .done (some accounts)) :
    accounts.Sound := by
  unfold acceptedAccounts at h
  split at h
  · cases h
  split at h
  · next haccepted =>
      cases h
      exact AccountStore.sound_of_fromPersistent haccepted
  · cases h
  · cases h

/-- A boot that returns leaves a sound table. -/
theorem initializeWithSeeds_sound {persisted : Bool} {salts : BuiltinSalts}
    {operator first second : Option StoredAccount} {s : SessionState}
    (hreturns : ((initializeWithSeeds kdf persisted salts operator first
      second).run s).1 = .done ()) :
    ((initializeWithSeeds kdf persisted salts operator first second).run s).2.accounts.Sound := by
  simp only [initializeWithSeeds] at hreturns ⊢
  split at hreturns
  · cases hreturns
  · cases hreturns
  · next haccepted => exact acceptedAccounts_sound haccepted
  split at hreturns
  · cases hreturns
  · cases hreturns
  · next haccepted =>
      rw [startWith_run]
      exact acceptedAccounts_sound haccepted
  · rw [startWith_run]
    exact AccountStore.builtins_sound kdf salts

/-! ## Whole runs -/

/-- The calls on the account table. -/
inductive AccountCall where
  | boot (salts : BuiltinSalts) (operator first second : Option StoredAccount)
  | add (salt : PasswordSalt) (name password : Bytes) (authority : Authority)
  | remove (name activeName : Bytes)
  | change (salt : PasswordSalt) (name password : Bytes)

def AccountCall.run (persisted : Bool) : AccountCall → AccountM Unit
  | boot salts operator first second =>
    initializeWithSeeds kdf persisted salts operator first second
  | add salt name password authority =>
    addAccount kdf persisted salt name password authority
  | remove name activeName => removeAccount persisted name activeName
  | change salt name password =>
    changePassword kdf persisted salt name password

/-- The call is a boot. -/
def AccountCall.isBoot : AccountCall → Bool
  | boot .. => true
  | _ => false

/-- Calls that return or report an error, each saved or not. -/
inductive AccountRun : SessionState → SessionState → Prop
  | refl (s : SessionState) : AccountRun s s
  | call {s t : SessionState} (h : AccountRun s t) (call : AccountCall)
      (persisted : Bool)
      (hreturns : ((call.run kdf persisted).run t).1 ≠ .halt) :
      AccountRun s ((call.run kdf persisted).run t).2

variable {call : AccountCall}

theorem AccountCall.replaces (hcall : call.isBoot = false)
    {s : SessionState} (hsound : s.accounts.Sound) (persisted : Bool) :
    Replaces persisted s ((call.run kdf persisted).run s).2 := by
  cases call with
  | boot => cases hcall
  | add salt name password authority =>
    exact addAccount_replaces kdf hsound persisted salt name password authority
  | remove name activeName =>
    exact removeAccount_replaces hsound persisted name activeName
  | change salt name password =>
    exact changePassword_replaces kdf hsound persisted salt name password

theorem initializeWithSeeds_ne_fail (salts : BuiltinSalts)
    (operator first second : Option StoredAccount) (s : SessionState) (failure : AccountError) :
    ((initializeWithSeeds kdf persisted salts operator first second).run s).1 ≠ .fail failure := by
  have haccepted : ∀ (table : Option StoredTable) (e : AccountError),
      acceptedAccounts table ≠ .fail e := by
    intro table e h
    unfold acceptedAccounts at h
    split at h
    · cases h
    · split at h <;> cases h
  intro h
  simp only [initializeWithSeeds] at h
  split at h
  · cases h
  · next hfail => exact haccepted _ _ hfail
  · cases h
  split at h
  · cases h
  · next hfail => exact haccepted _ _ hfail
  · rw [startWith_run] at h
    cases h
  · rw [startWith_run] at h
    cases h

/-- One call keeps the table sound. -/
theorem AccountCall.run_sound {persisted : Bool} {s : SessionState} (hsound : s.accounts.Sound)
    (hreturns : ((call.run kdf persisted).run s).1 ≠ .halt) :
    ((call.run kdf persisted).run s).2.accounts.Sound := by
  by_cases hboot : call.isBoot = true
  · cases call with
    | boot salts operator first second =>
      apply initializeWithSeeds_sound kdf
      cases hend : ((initializeWithSeeds kdf persisted salts operator first second).run s).1 with
      | done value => rfl
      | fail failure =>
        exact absurd hend (initializeWithSeeds_ne_fail kdf persisted
          salts operator first second s failure)
      | halt => exact absurd hend hreturns
    | add => cases hboot
    | remove => cases hboot
    | change => cases hboot
  · rcases AccountCall.replaces kdf (Bool.eq_false_of_not_eq_true hboot)
      hsound persisted with hsame | ⟨-, hnew, -⟩
    · rw [hsame]
      exact hsound
    · exact hnew

/-- Every run keeps the table sound. -/
theorem AccountRun.sound {s t : SessionState} (h : AccountRun kdf s t)
    (hsound : s.accounts.Sound) : t.accounts.Sound := by
  induction h with
  | refl => exact hsound
  | call _ call persisted hreturns ih =>
    exact AccountCall.run_sound kdf ih hreturns

/-- Whatever was saved before a boot, after it and any calls names are valid
and distinct, there is an operator, the saved form of the table is accepted
again, and a call other than a boot that is not saved changes nothing. -/
theorem accounts_reload {before start s : SessionState} {persisted : Bool}
    {salts : BuiltinSalts} {operator first second : Option StoredAccount}
    (hboot : (initializeWithSeeds kdf persisted salts operator first
      second).run before = (.done (), start)) (hrun : AccountRun kdf start s) :
    (∀ account ∈ s.accounts.occupants, validName account.name.content = true) ∧
      (∀ i j a b, s.accounts.get i = some a → s.accounts.get j = some b →
        a.name.content = b.name.content → i = j) ∧ (∃ i account, s.accounts.get i = some account ∧
        account.name.content = operatorName ∧ account.authority = .operator) ∧
      AccountStore.fromPersistent s.accounts.persistent = .done s.accounts ∧
      decodeAccounts maxAccounts (encodeAccounts s.accounts.persistent.val) =
        some s.accounts.persistent.val ∧ ∀ call : AccountCall, call.isBoot = false →
        ((call.run kdf false).run s).2 = s := by
  have hstart : start.accounts.Sound := by
    have hsound := @initializeWithSeeds_sound kdf persisted salts operator
      first second before (by rw [hboot])
    rwa [hboot] at hsound
  have hsound := hrun.sound kdf hstart
  refine ⟨fun account _ => account.name_valid, hsound.distinct,
    hsound.operator, hsound.fromPersistent_persistent,
    s.accounts.decodeAccounts_persistent, fun call hcall => ?_⟩
  rcases AccountCall.replaces kdf hcall hsound false with hsame | ⟨hno, -⟩
  · exact hsame
  · cases hno

end Calls

/-- A verifier that is the same for all passwords. -/
def constantKdf : PasswordKdf := fun _ _ _ => .zeros 32

def zeroSalts : BuiltinSalts := ⟨.zeros 16, .zeros 16, .zeros 16⟩

/-- The state before the first boot of a blank system. -/
def blankSession : SessionState := ⟨AccountStore.new, none⟩

/-- The state after the first boot of a blank system. -/
def builtinSession : SessionState :=
  ⟨AccountStore.builtins constantKdf zeroSalts,
    some (AccountStore.builtins constantKdf zeroSalts).persistent⟩

/-- An account is added, the guest is removed and a password is changed. -/
def sessionCalls : List AccountCall :=
  [.add (.zeros 16) (asciiBytes "visitor") (asciiBytes "opensesame") .power,
    .remove (asciiBytes "guest") operatorName,
    .change (.zeros 16) (asciiBytes "visitor") (asciiBytes "opensesame2")]

def busySession : SessionState :=
  sessionCalls.foldl (fun s call => ((call.run constantKdf true).run s).2) builtinSession

theorem busySession_reloads : (initializeWithSeeds constantKdf true zeroSalts none none none).run
        blankSession = (.done (), builtinSession) ∧
      AccountRun constantKdf builtinSession busySession ∧
      busySession.accounts.occupants.map (·.name.content) =
        [operatorName, asciiBytes "developer", asciiBytes "visitor"] ∧
      AccountStore.fromPersistent busySession.accounts.persistent = .done busySession.accounts ∧
      decodeAccounts maxAccounts (encodeAccounts busySession.accounts.persistent.val) =
        some busySession.accounts.persistent.val ∧ ∀ call : AccountCall, call.isBoot = false →
        ((call.run constantKdf false).run busySession).2 = busySession := by
  have hboot : (initializeWithSeeds constantKdf true zeroSalts none none
      none).run blankSession = (.done (), builtinSession) := rfl
  have hrun : AccountRun constantKdf builtinSession busySession :=
    (((AccountRun.refl _).call _ true (by decide +kernel)).call _ true (by decide +kernel)).call
      _ true (by decide +kernel)
  obtain ⟨-, -, -, hreload⟩ := accounts_reload constantKdf hboot hrun
  exact ⟨hboot, hrun, by decide +kernel, hreload⟩

/-- Before the first boot there is no operator, and a boot whose save fails
still replaces the accounts. -/
theorem unsaved_boot_replaces :
    AccountStore.fromPersistent blankSession.accounts.persistent = .fail () ∧
      ((initializeWithSeeds constantKdf false zeroSalts none none none).run
        blankSession).1 = .done () ∧
      ((initializeWithSeeds constantKdf false zeroSalts none none none).run
        blankSession).2.saved = none ∧
      ((initializeWithSeeds constantKdf false zeroSalts none none none).run
        blankSession).2.accounts ≠ blankSession.accounts := by
  decide +kernel

end ExpOS
