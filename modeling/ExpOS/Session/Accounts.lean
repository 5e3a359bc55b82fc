import ExpOS.Capability.Broker

/-!
# The account table

Twelve accounts at most, each with a short name, a password verifier and an
authority.  The table lives in memory and is saved as a record of the system
database; on boot it is loaded from there, from the seeds the installer left,
or from built-in defaults.

In the source an account carries an `occupied` flag, and an account without it
is always the empty one.  Here a slot is free or holds an account, and an
account carries what its two constructors check: a valid name and a bounded
number of rounds.  Stored accounts are kept as they are on disk, since nothing
is known about them before they are checked.
-/

namespace ExpOS

open List SlotTable Outcome Bytes

def fieldCapacity : ℕ := 24
def maxAccounts : ℕ := 12
def passwordKdfRounds : UInt32 := 100000

abbrev PasswordSalt := ByteBlock 16
abbrev PasswordHash := ByteBlock 32

/-! ## Names -/

/-- A zero-padded name (`Field` in the source). -/
structure AccountField where
  bytes : ByteBlock fieldCapacity
  len : UInt8
  len_le : len.toNat ≤ fieldCapacity
deriving DecidableEq

namespace AccountField

def content (field : AccountField) : Bytes :=
  field.bytes.val.take field.len.toNat

/-- The first octets of a value, padded. -/
def padded (value : Bytes) : AccountField where
  bytes := ⟨value.take fieldCapacity ++ List.replicate (fieldCapacity - value.length) 0, by
      rw [List.length_append, List.length_take, List.length_replicate]
      omega⟩
  len := UInt8.ofNat (value.take fieldCapacity).length
  len_le := by
    have hlength : (value.take fieldCapacity).length ≤ 24 :=
      List.length_take_le _ _
    rw [UInt8.toNat_ofNat_of_lt' (by
      change _ < 256
      omega)]
    exact hlength

def fromStatic (value : Bytes) : AccountField := padded value

def fromInput (value : Bytes) (lowercase : Bool) : AccountField :=
  padded (if lowercase then value.map Bytes.toAsciiLower else value)

theorem content_padded {value : Bytes} (h : value.length ≤ fieldCapacity) :
    (padded value).content = value := by
  have hcapacity : fieldCapacity = 24 := rfl
  have hlen : (padded value).len.toNat = value.length := by
    change (UInt8.ofNat (value.take fieldCapacity).length).toNat = _
    rw [take_of_length_le h, UInt8.toNat_ofNat_of_lt' (by
      change _ < 256
      omega)]
  rw [content, hlen]
  change (value.take fieldCapacity ++ _).take value.length = value
  rw [take_of_length_le h, take_left]

end AccountField

def validNameOctet (octet : UInt8) : Bool :=
  (0x61 ≤ octet && octet ≤ 0x7A) || (0x30 ≤ octet && octet ≤ 0x39) ||
    octet == 0x2D || octet == 0x5F

def validName (name : Bytes) : Bool :=
  2 ≤ name.length && name.length ≤ 16 && name.all validNameOctet

def validPassword (password : Bytes) : Bool :=
  8 ≤ password.length && password.length < fieldCapacity &&
    password.all fun octet => 0x21 ≤ octet && octet ≤ 0x7E

theorem toAsciiLower_of_valid {octet : UInt8}
    (h : validNameOctet octet = true) : Bytes.toAsciiLower octet = octet := by
  rw [toAsciiLower, if_neg]
  rintro ⟨hlow, hhigh⟩
  simp only [validNameOctet, Bool.or_eq_true, Bool.and_eq_true, decide_eq_true_eq, beq_iff_eq] at h
  have hlow' : 65 ≤ octet.toNat := hlow
  have hhigh' : octet.toNat ≤ 90 := hhigh
  rcases h with ((h | h) | rfl) | rfl
  · have : 97 ≤ octet.toNat := UInt8.le_iff_toNat_le.mp h.1
    omega
  · have : octet.toNat ≤ 57 := UInt8.le_iff_toNat_le.mp h.2
    omega
  · exact absurd hlow' (by decide)
  · exact absurd hhigh' (by decide)

/-- A valid name is not changed by being put in a field. -/
theorem content_fromInput {name : Bytes} (h : validName name = true) :
    (AccountField.fromInput name true).content = name := by
  simp only [validName, Bool.and_eq_true, decide_eq_true_eq, all_eq_true] at h
  obtain ⟨⟨-, hlength⟩, hall⟩ := h
  have hmap : name.map toAsciiLower = name := by
    conv_rhs => rw [← map_id name]
    exact map_congr_left fun octet hoctet => toAsciiLower_of_valid (hall octet hoctet)
  have hcapacity : fieldCapacity = 24 := rfl
  rw [AccountField.fromInput, if_pos rfl, hmap]
  exact AccountField.content_padded (by omega)

/-! ## Accounts and their stored form -/

structure Account where
  name : AccountField
  passwordSalt : PasswordSalt
  passwordHash : PasswordHash
  kdfRounds : UInt32
  authority : Authority
  name_valid : validName name.content = true
  rounds_ge : 1000 ≤ kdfRounds
  rounds_le : kdfRounds ≤ 250000
deriving DecidableEq

structure StoredAccount where
  name : ByteBlock fieldCapacity
  nameLen : UInt8
  passwordSalt : PasswordSalt
  passwordHash : PasswordHash
  kdfRounds : UInt32
  authority : UInt8
  occupied : Bool

def StoredAccount.empty : StoredAccount where
  name := .zeros _
  nameLen := 0
  passwordSalt := .zeros _
  passwordHash := .zeros _
  kdfRounds := 0
  authority := 2
  occupied := false

def authorityToWire : Authority → UInt8
  | .operator => 0
  | .power => 1
  | .guest => 2

def authorityFromWire (value : UInt8) : Option Authority :=
  if value = 0 then some .operator
  else if value = 1 then some .power
  else if value = 2 then some .guest
  else none

theorem authorityFromWire_toWire (authority : Authority) :
    authorityFromWire (authorityToWire authority) = some authority := by
  cases authority <;> rfl

/-- How a password verifier is derived from password, salt and rounds. -/
abbrev PasswordKdf := Bytes → PasswordSalt → UInt32 → PasswordHash

namespace Account

def withPassword (kdf : PasswordKdf) (salt : PasswordSalt)
    (name : AccountField) (hname : validName name.content = true)
    (password : Bytes) (authority : Authority) : Account where
  name := name
  passwordSalt := salt
  passwordHash := kdf password salt passwordKdfRounds
  kdfRounds := passwordKdfRounds
  authority := authority
  name_valid := hname
  rounds_ge := by decide
  rounds_le := by decide

def stored (account : Account) : StoredAccount where
  name := account.name.bytes
  nameLen := account.name.len
  passwordSalt := account.passwordSalt
  passwordHash := account.passwordHash
  kdfRounds := account.kdfRounds
  authority := authorityToWire account.authority
  occupied := true

/-- The account in a stored slot, if the slot is occupied.  A name length
beyond the field halts. -/
def fromStored (stored : StoredAccount) : Outcome Unit (Option Account) :=
  if stored.occupied = false then .done none
  else if hlen : stored.nameLen.toNat ≤ fieldCapacity then
    let name : AccountField := ⟨stored.name, stored.nameLen, hlen⟩
    if hvalid : validName name.content = true ∧ 1000 ≤ stored.kdfRounds ∧
        stored.kdfRounds ≤ 250000 then
      match authorityFromWire stored.authority with
      | none => .fail ()
      | some authority => .done (some
          { name, authority
            passwordSalt := stored.passwordSalt
            passwordHash := stored.passwordHash
            kdfRounds := stored.kdfRounds
            name_valid := hvalid.1
            rounds_ge := hvalid.2.1
            rounds_le := hvalid.2.2 })
    else .fail ()
  else .halt

theorem fromStored_stored (account : Account) :
    fromStored account.stored = .done (some account) := by
  have hlen : account.stored.nameLen.toNat ≤ fieldCapacity := account.name.len_le
  have hvalid : validName account.name.content = true ∧
      1000 ≤ account.kdfRounds ∧ account.kdfRounds ≤ 250000 :=
    ⟨account.name_valid, account.rounds_ge, account.rounds_le⟩
  rw [fromStored, dif_pos hlen]
  simp only [stored, hvalid, authorityFromWire_toWire]
  rfl

end Account

/-! ## The table -/

/-- The table as it is saved. -/
abbrev StoredTable := {table : List StoredAccount // table.length = maxAccounts}

abbrev AccountStore := SlotTable Account maxAccounts

def operatorName : Bytes := asciiBytes "operator"

/-- Check the stored slots one after the other. -/
def fromStoredAll : List StoredAccount → Outcome Unit (List (Option Account))
  | [] => .done []
  | stored :: rest => do
      let account ← Account.fromStored stored
      let accounts ← fromStoredAll rest
      .done (account :: accounts)

variable {table : List StoredAccount}

theorem length_fromStoredAll
    {slots : List (Option Account)} (h : fromStoredAll table = .done slots) :
    slots.length = table.length := by
  induction table generalizing slots with
  | nil =>
    obtain rfl := Outcome.done.inj h
    rfl
  | cons stored rest ih =>
    obtain ⟨account, -, hrest⟩ := bind_eq_done.mp h
    obtain ⟨accounts, haccounts, hslots⟩ := bind_eq_done.mp hrest
    obtain rfl := Outcome.done.inj hslots
    rw [length_cons, length_cons, ih haccounts]

namespace AccountStore

def new : AccountStore := SlotTable.empty Account maxAccounts

/-- Two occupied slots with one name. -/
def sameName (store : AccountStore) (left right : ℕ) : Bool :=
  match store.get left, store.get right with
  | some a, some b => a.name.content == b.name.content
  | _, _ => false

def hasDuplicate (store : AccountStore) : Bool :=
  (List.range maxAccounts).any fun left =>
    (List.range maxAccounts).any fun right =>
      decide (left < right) && store.sameName left right

def hasOperator (store : AccountStore) : Bool :=
  store.occupants.any fun account =>
    account.name.content == operatorName && account.authority == .operator

def fromPersistent (table : StoredTable) : Outcome Unit AccountStore :=
  match hslots : fromStoredAll table.val with
  | .halt => .halt
  | .fail failure => .fail failure
  | .done slots =>
    let store : AccountStore :=
      ⟨slots, (length_fromStoredAll hslots).trans table.property⟩
    if store.hasDuplicate then .fail ()
    else if store.hasOperator then .done store
    else .fail ()

def storedSlot : Option Account → StoredAccount
  | none => .empty
  | some account => account.stored

def persistent (store : AccountStore) : StoredTable :=
  ⟨store.slots.map storedSlot, by
    rw [List.length_map, store.length_slots]⟩

/-- Names are distinct and the operator has its authority. -/
structure Sound (store : AccountStore) : Prop where
  distinct : ∀ i j a b, store.get i = some a → store.get j = some b →
    a.name.content = b.name.content → i = j
  operator : ∃ i account, store.get i = some account ∧
    account.name.content = operatorName ∧ account.authority = .operator

variable {store : AccountStore}

theorem sameName_eq_true {left right : ℕ} : store.sameName left right = true ↔
      ∃ a b, store.get left = some a ∧ store.get right = some b ∧
        a.name.content = b.name.content := by
  unfold sameName
  cases store.get left with
  | none => simp
  | some a =>
    cases store.get right with
    | none => simp
    | some b => simp

theorem hasDuplicate_eq_false : store.hasDuplicate = false ↔
      ∀ i j a b, store.get i = some a → store.get j = some b →
        a.name.content = b.name.content → i = j := by
  constructor
  · intro h i j a b hi hj hname
    simp only [hasDuplicate, any_eq_false, mem_range] at h
    have hfree : ∀ left right, left < right → right < maxAccounts →
        store.sameName left right = false := by
      intro left right hlt hright
      have hpair := h left (hlt.trans hright)
      simp only [any_eq_true, mem_range, not_exists, not_and,
        Bool.and_eq_true, decide_eq_true_eq] at hpair
      exact Bool.eq_false_of_not_eq_true (hpair right hright hlt)
    rcases lt_trichotomy i j with hlt | heq | hlt
    · have hsame := hfree i j hlt (lt_of_get hj)
      rw [sameName_eq_true.mpr ⟨a, b, hi, hj, hname⟩] at hsame
      cases hsame
    · exact heq
    · have hsame := hfree j i hlt (lt_of_get hi)
      rw [sameName_eq_true.mpr ⟨b, a, hj, hi, hname.symm⟩] at hsame
      cases hsame
  · intro h
    apply Bool.eq_false_of_not_eq_true
    intro hduplicate
    simp only [hasDuplicate, any_eq_true, mem_range,
      Bool.and_eq_true, decide_eq_true_eq] at hduplicate
    obtain ⟨left, -, right, -, hlt, hsame⟩ := hduplicate
    obtain ⟨a, b, ha, hb, hname⟩ := sameName_eq_true.mp hsame
    exact hlt.ne (h left right a b ha hb hname)

theorem hasOperator_eq_true : store.hasOperator = true ↔ ∃ i account, store.get i = some account ∧
        account.name.content = operatorName ∧ account.authority = .operator := by
  simp only [hasOperator, any_eq_true, Bool.and_eq_true, beq_iff_eq]
  constructor
  · rintro ⟨account, hmem, hname, hauthority⟩
    obtain ⟨i, hi⟩ := exists_get_of_mem_occupants hmem
    exact ⟨i, account, hi, hname, hauthority⟩
  · rintro ⟨i, account, hi, hname, hauthority⟩
    exact ⟨account, mem_occupants_of_get hi, hname, hauthority⟩

/-- What is accepted from disk is sound. -/
theorem sound_of_fromPersistent {table : StoredTable}
    (h : fromPersistent table = .done store) : store.Sound := by
  unfold fromPersistent at h
  split at h
  · cases h
  · cases h
  dsimp only at h
  split at h
  · cases h
  rename_i hduplicate
  split at h
  · next hoperator =>
      obtain rfl := Outcome.done.inj h
      exact ⟨hasDuplicate_eq_false.mp
        (Bool.eq_false_of_not_eq_true hduplicate), hasOperator_eq_true.mp hoperator⟩
  · cases h

theorem fromStored_storedSlot (slot : Option Account) :
    Account.fromStored (storedSlot slot) = .done slot := by
  cases slot with
  | none => rfl
  | some account => exact account.fromStored_stored

theorem fromStoredAll_map (slots : List (Option Account)) :
    fromStoredAll (slots.map storedSlot) = .done slots := by
  induction slots with
  | nil => rfl
  | cons slot slots ih =>
    rw [map_cons, fromStoredAll, fromStored_storedSlot, done_bind, ih, done_bind]

/-- A sound table is accepted as it was saved. -/
theorem Sound.fromPersistent_persistent
    (h : store.Sound) : fromPersistent store.persistent = .done store := by
  have hall : fromStoredAll store.persistent.val = .done store.slots :=
    fromStoredAll_map store.slots
  unfold fromPersistent
  split
  · next hslots =>
      rw [hall] at hslots
      cases hslots
  · next hslots =>
      rw [hall] at hslots
      cases hslots
  rename_i slots hslots
  have hsame : store.slots = slots := by
    rw [hall] at hslots
    exact Outcome.done.inj hslots
  subst hsame
  dsimp only
  rw [hasDuplicate_eq_false.mpr h.distinct, hasOperator_eq_true.mpr h.operator]
  rfl

end AccountStore

/-! ## The record of the system database -/

def accountRecordLen : ℕ := 80

def encodeAccount (account : StoredAccount) : Bytes :=
  [if account.occupied then 1 else 0] ++ [account.authority] ++
    [account.nameLen] ++ [0] ++ account.name.val ++
    account.passwordSalt.val ++ account.passwordHash.val ++
    Bytes.toLeBytes 4 account.kdfRounds.toNat

theorem length_encodeAccount (account : StoredAccount) :
    (encodeAccount account).length = accountRecordLen := by
  simp [encodeAccount, account.name.property, account.passwordSalt.property,
    account.passwordHash.property, fieldCapacity, accountRecordLen]

/-- A part of an account record. -/
def recordPart (input : ByteBlock accountRecordLen) (start length : ℕ)
    (h : start + length ≤ accountRecordLen) : ByteBlock length :=
  ⟨(input.val.drop start).take length, by
    rw [List.length_take, List.length_drop, input.property]
    omega⟩

def decodeAccount (input : ByteBlock accountRecordLen) : Option StoredAccount :=
  let occupied := input.val.getD 0 0 != 0
  let authority := input.val.getD 1 0
  let nameLen := input.val.getD 2 0
  let rounds := Bytes.fromLeBytes (recordPart input 76 4 (by decide)).val
  if 1 < input.val.getD 0 0 ∨ 2 < authority ∨ fieldCapacity < nameLen.toNat ∨
      (occupied = true ∧ (nameLen = 0 ∨ rounds = 0)) then
    none
  else
    some
      { occupied, authority, nameLen
        name := recordPart input 4 24 (by decide)
        passwordSalt := recordPart input 28 16 (by decide)
        passwordHash := recordPart input 44 32 (by decide)
        kdfRounds := UInt32.ofNat rounds }

/-- What the decoder asks of an account. -/
structure StoredAccount.Decodable (account : StoredAccount) : Prop where
  authority : account.authority ≤ 2
  nameLen : account.nameLen.toNat ≤ fieldCapacity
  occupied : account.occupied = true → account.nameLen ≠ 0 ∧ account.kdfRounds ≠ 0

/-- Where the parts of an account stand in its record. -/
structure RecordParts (account : StoredAccount) (octets : Bytes) : Prop where
  occupied : octets.getD 0 0 = if account.occupied then 1 else 0
  authority : octets.getD 1 0 = account.authority
  nameLen : octets.getD 2 0 = account.nameLen
  name : (octets.drop 4).take 24 = account.name.val
  passwordSalt : (octets.drop 28).take 16 = account.passwordSalt.val
  passwordHash : (octets.drop 44).take 32 = account.passwordHash.val
  kdfRounds : (octets.drop 76).take 4 = Bytes.toLeBytes 4 account.kdfRounds.toNat

theorem recordParts (account : StoredAccount) : RecordParts account (encodeAccount account) := by
  have hname : account.name.val.length = 24 := account.name.property
  have h4 : (encodeAccount account).drop 4 = account.name.val ++
      (account.passwordSalt.val ++ (account.passwordHash.val ++
        toLeBytes 4 account.kdfRounds.toNat)) := by
    simp [encodeAccount]
  have h28 : (encodeAccount account).drop (4 + 24) =
      account.passwordSalt.val ++ (account.passwordHash.val ++
        toLeBytes 4 account.kdfRounds.toNat) := by
    rw [← drop_drop, h4, drop_left' hname]
  have h44 : (encodeAccount account).drop (4 + 24 + 16) = account.passwordHash.val ++
        toLeBytes 4 account.kdfRounds.toNat := by
    rw [← drop_drop, h28, drop_left' account.passwordSalt.property]
  have h76 : (encodeAccount account).drop (4 + 24 + 16 + 32) =
      toLeBytes 4 account.kdfRounds.toNat := by
    rw [← drop_drop, h44, drop_left' account.passwordHash.property]
  constructor
  · simp [encodeAccount]
  · simp [encodeAccount]
  · simp [encodeAccount]
  · rw [h4, take_left' hname]
  · rw [h28, take_left' account.passwordSalt.property]
  · rw [h44, take_left' account.passwordHash.property]
  · rw [h76, take_of_length_le (by simp)]

/-- Such an account is read back from its record. -/
theorem decodeAccount_encodeAccount {account : StoredAccount} (h : account.Decodable) :
    decodeAccount ⟨encodeAccount account, length_encodeAccount account⟩ = some account := by
  have hparts := recordParts account
  have hrounds : fromLeBytes (toLeBytes 4
      account.kdfRounds.toNat) = account.kdfRounds.toNat :=
    fromLeBytes_toLeBytes_of_lt account.kdfRounds.toNat_lt
  have hoccupied : ((if account.occupied then 1 else 0 : UInt8) != 0) = account.occupied := by
    cases account.occupied <;> rfl
  simp only [decodeAccount, recordPart, hparts.occupied, hparts.name, hparts.passwordSalt,
    hparts.passwordHash, hparts.kdfRounds, hrounds, hoccupied, UInt32.ofNat_toNat]
  rw [if_neg]
  · rfl
  rintro (hflag | hauthority | hlen | ⟨hset, hname | hzero⟩)
  · split at hflag
    · exact absurd hflag (by decide)
    · exact absurd hflag (by decide)
  · exact absurd h.authority (UInt8.not_le.mpr hauthority)
  · exact absurd h.nameLen (Nat.not_le.mpr hlen)
  · exact (h.occupied hset).1 hname
  · refine (h.occupied hset).2 (UInt32.toNat_inj.mp ?_)
    rw [hzero]
    rfl

theorem Account.stored_decodable (account : Account) : account.stored.Decodable := by
  have hname := account.name_valid
  simp only [validName, Bool.and_eq_true] at hname
  refine ⟨?_, account.name.len_le, fun _ => ⟨?_, ?_⟩⟩
  · change authorityToWire account.authority ≤ 2
    cases account.authority <;> decide
  · intro hzero
    have hlen : account.name.len = 0 := hzero
    rw [AccountField.content, hlen] at hname
    exact absurd hname.1.1 (by simp)
  · intro hzero
    have hrounds : account.kdfRounds = 0 := hzero
    have hge := account.rounds_ge
    rw [hrounds] at hge
    exact absurd hge (by decide)

theorem AccountStore.storedSlot_decodable (slot : Option Account) :
    (AccountStore.storedSlot slot).Decodable := by
  cases slot with
  | none => exact ⟨by decide, by decide, by decide⟩
  | some account => exact account.stored_decodable

def encodeAccounts (table : List StoredAccount) : Bytes :=
  table.flatMap encodeAccount

/-- The accounts of a record, one after the other. -/
def decodeAccounts : ℕ → Bytes → Option (List StoredAccount)
  | 0, _ => some []
  | count + 1, octets =>
    if h : (octets.take accountRecordLen).length = accountRecordLen then do
      let account ← decodeAccount ⟨octets.take accountRecordLen, h⟩
      let rest ← decodeAccounts count (octets.drop accountRecordLen)
      some (account :: rest)
    else none

theorem decodeAccounts_encodeAccounts
    {count : ℕ} (hcount : table.length = count) (h : ∀ account ∈ table, account.Decodable) :
    decodeAccounts count (encodeAccounts table) = some table := by
  subst hcount
  induction table with
  | nil => rfl
  | cons account table ih =>
    have htake : (encodeAccounts (account :: table)).take
        accountRecordLen = encodeAccount account := by
      rw [encodeAccounts, flatMap_cons, take_left' (length_encodeAccount account)]
    have hdrop : (encodeAccounts (account :: table)).drop
        accountRecordLen = encodeAccounts table := by
      rw [encodeAccounts, flatMap_cons, drop_left' (length_encodeAccount account)]
      rfl
    have hlength : ((encodeAccounts (account :: table)).take
        accountRecordLen).length = accountRecordLen := by
      rw [htake, length_encodeAccount]
    rw [length_cons, decodeAccounts, dif_pos hlength, hdrop,
      ih fun other hother => h other (mem_cons_of_mem account hother)]
    simp only [htake, decodeAccount_encodeAccount (h account mem_cons_self)]
    rfl

/-- Every saved table is read back from its record. -/
theorem AccountStore.decodeAccounts_persistent (store : AccountStore) :
    decodeAccounts maxAccounts (encodeAccounts store.persistent.val) =
      some store.persistent.val := by
  refine decodeAccounts_encodeAccounts store.persistent.property fun account haccount => ?_
  obtain ⟨slot, -, rfl⟩ := mem_map.mp haccount
  exact storedSlot_decodable slot

end ExpOS
