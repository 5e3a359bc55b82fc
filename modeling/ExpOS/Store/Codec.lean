import ExpOS.Crypto.Primitives
import ExpOS.Store.Snapshot
import ExpOS.Support.Cursor

/-!
# The slot codec

A slot holds one snapshot: a header of 64 octets and a payload.  With a
storage key the payload is encrypted and the header carries a tag; without one
the header carries two checksums.  `encodeSlot` writes the current format;
`decodeSlot` also reads the two older ones, whose records have a fixed size
even when they are absent.

A reader that ends in `fail ()` is a `None` of the source; one that ends in
`halt` is a panic.
-/

namespace ExpOS

def sectorSize : ℕ := 512
def headerLen : ℕ := 64
def slotSectors : ℕ := 128
def slotLen : ℕ := slotSectors * sectorSize
def formatVersion : ℕ := 3
def legacyFormContentCapacity : ℕ := 512

def magic : Bytes := asciiBytes "EXPFSDB1"

/-- One octet of the checksum. -/
def crc32Step (crc : UInt32) (octet : UInt8) : UInt32 :=
  let shift (crc : UInt32) : UInt32 :=
    (crc >>> 1) ^^^ (0xEDB88320 &&& (0 - (crc &&& 1)))
  Nat.iterate shift 8 (crc ^^^ octet.toUInt32)

def crc32 (octets : Bytes) : UInt32 :=
  ~~~(octets.foldl crc32Step 0xFFFFFFFF)

/-! ## Enumerations -/

def encodeKind : FormKind → UInt8
  | .root => 0
  | .service => 1
  | .interface => 2
  | .package => 3
  | .driver => 4
  | .data => 5
  | .policy => 6
  | .executable => 7

def decodeKind (value : UInt8) : Option FormKind :=
  match value.toNat with
  | 0 => some .root
  | 1 => some .service
  | 2 => some .interface
  | 3 => some .package
  | 4 => some .driver
  | 5 => some .data
  | 6 => some .policy
  | 7 => some .executable
  | _ => none

def encodeLifecycle : Lifecycle → UInt8
  | .active => 0
  | .retired => 1
  | .recoverable => 2
  | .removed => 3

def decodeLifecycle (value : UInt8) : Option Lifecycle :=
  match value.toNat with
  | 0 => some .active
  | 1 => some .retired
  | 2 => some .recoverable
  | 3 => some .removed
  | _ => none

def encodeRelationship : RelationshipKind → UInt8
  | .dependsOn => 0
  | .provides => 1
  | .contains => 2
  | .configuredBy => 3
  | .revises => 4

def decodeRelationship (value : UInt8) : Option RelationshipKind :=
  match value.toNat with
  | 0 => some .dependsOn
  | 1 => some .provides
  | 2 => some .contains
  | 3 => some .configuredBy
  | 4 => some .revises
  | _ => none

def encodeNetwork : NetworkPolicy → UInt8
  | .openAccess => 0
  | .restricted => 1
  | .disabled => 2

def decodeNetwork (value : UInt8) : Option NetworkPolicy :=
  match value.toNat with
  | 0 => some .openAccess
  | 1 => some .restricted
  | 2 => some .disabled
  | _ => none

def encodeFlag (flag : Bool) : UInt8 := if flag then 1 else 0

/-! ## Writing records -/

/-- A writer into the payload of a slot. -/
abbrev SlotWriter := Writer StoreError Unit

def put (octets : Bytes) : SlotWriter :=
  Writer.put .invalidSnapshot (slotLen - headerLen) octets

def putByte (value : UInt8) : SlotWriter := put [value]

def putU16 (value : UInt16) : SlotWriter :=
  put (Bytes.toLeBytes 2 value.toNat)

def putU32 (value : UInt32) : SlotWriter :=
  put (Bytes.toLeBytes 4 value.toNat)

def putU64 (value : UInt64) : SlotWriter :=
  put (Bytes.toLeBytes 8 value.toNat)

def putFin (fin : FormFin) : SlotWriter := put fin.bytes.val

def putText (text : Text) : SlotWriter := do
  putByte (UInt8.ofNat text.content.length)
  put (text.content ++ List.replicate (textCapacity - text.content.length) 0)

def putDimension (dimension : Dimension) : SlotWriter := do
  putFin dimension.fin
  putText dimension.name
  putByte (encodeFlag dimension.securityBoundary)

def putForm (stored : StoredForm) : SlotWriter := do
  putFin stored.form.fin
  putText stored.form.name
  putByte (encodeKind stored.form.kind)
  putU32 stored.form.revision
  putByte (encodeLifecycle stored.form.lifecycle)
  let content ← Effect.lift stored.bytes
  putU16 (UInt16.ofNat content.length)
  put content

def putRelationship (relationship : Relationship) : SlotWriter := do
  putFin relationship.source
  putFin relationship.target
  putByte (encodeRelationship relationship.kind)
  putByte (encodeFlag relationship.dimension.isSome)
  putFin (relationship.dimension.getD FormFin.zero)

def putHandle (handle : FormHandle) : SlotWriter := do
  putU32 handle.id
  putU32 handle.parentId
  putFin handle.requester
  putFin handle.target
  putFin handle.dimension
  putU16 handle.operations.bits
  putU64 handle.validUntilTick
  putByte (encodeFlag handle.revoked)

variable {α : Type}

/-- A presence octet and, for an occupied cell, its record. -/
def putSlot (putRecord : α → SlotWriter) : Option α → SlotWriter
  | none => putByte 0
  | some record => do
      putByte 1
      putRecord record

/-- A presence octet and the record, zeros when there is none. -/
def putRecord {length : ℕ} (record : Option (ByteBlock length)) :
    SlotWriter := do
  putByte (encodeFlag record.isSome)
  put (record.getD (ByteBlock.zeros length)).val

def putPayload (snapshot : Snapshot) : SlotWriter := do
  putFin snapshot.primaryDimension
  putText snapshot.cfcName
  putU32 snapshot.nextFin
  putU32 snapshot.nextDimensionFin
  putU32 snapshot.journalSequence
  putByte (encodeNetwork snapshot.networkPolicy)
  putByte (encodeFlag snapshot.formGraphPresent)
  putRecord snapshot.settings
  putRecord snapshot.accounts
  snapshot.dimensions.slots.forM (putSlot putDimension)
  snapshot.forms.slots.forM (putSlot putForm)
  snapshot.relationships.slots.forM (putSlot putRelationship)
  snapshot.handles.slots.forM (putSlot putHandle)

/-! ## The header -/

/-- Octets 0 to 48 of a slot: magic, format, header length, payload length,
generation, CFC, journal sequence, encryption flag and suite. -/
def slotHeader (snapshot : Snapshot) (generation : UInt64)
    (payloadLen : ℕ) (flag : UInt8) : Bytes :=
  magic ++ Bytes.toLeBytes 2 formatVersion ++
    Bytes.toLeBytes 2 headerLen ++ Bytes.toLeBytes 4 payloadLen ++
    Bytes.toLeBytes 8 generation.toNat ++ snapshot.cfc.bytes.val ++
    Bytes.toLeBytes 4 snapshot.journalSequence.toNat ++ [flag, flag, 0, 0]

/-- Octets 48 to 64 of a slot without a key: the checksum of the payload,
the checksum of everything before it, and zeros. -/
def slotChecksums (header payload : Bytes) : Bytes :=
  let payloadCrc := Bytes.toLeBytes 4 (crc32 payload).toNat
  payloadCrc ++ (Bytes.toLeBytes 4 (crc32 (header ++ payloadCrc)).toNat ++ List.replicate 8 0)

/-- Wrap a payload: sealed with a tag at octet 48 under a key, with the
checksums of payload and header at octets 48 and 52 otherwise. -/
def wrapPayload (cipher : StorageCipher) (snapshot : Snapshot)
    (generation : UInt64) (key : Option (ByteBlock storageKeyLen))
    (nonceDomain : UInt32) (payload : Bytes) : Outcome StoreError Bytes :=
  match key with
  | some key =>
    let header := slotHeader snapshot generation payload.length 1
    let nonce := storageNonce key snapshot.cfc.bytes generation
      nonceDomain
    match cipher.sealStorage key nonce header payload with
    | none => .fail .verificationFailed
    | some (sealed, tag) => .done (header ++ tag.val ++ sealed)
  | none =>
    let header := slotHeader snapshot generation payload.length 0
    .done (header ++ slotChecksums header payload ++ payload)

/-- The occupied part of the slot buffer; the rest of it stays zero. -/
def encodeSlot (cipher : StorageCipher) (snapshot : Snapshot)
    (generation : UInt64) (key : Option (ByteBlock storageKeyLen))
    (nonceDomain : UInt32) : Outcome StoreError Bytes :=
  match (putPayload snapshot).run [] with
  | (.done (), payload) =>
    wrapPayload cipher snapshot generation key nonceDomain payload
  | (.fail e, _) => .fail e
  | (.halt, _) => .halt

/-! ## Reading records -/

/-- A reader of a slot. -/
abbrev SlotReader (α : Type) := Reader Unit α

namespace SlotReader

def take (length : ℕ) : SlotReader Bytes := Reader.take () length

def byte : SlotReader UInt8 := Reader.byte ()

def u16 : SlotReader UInt16 := do
  let n ← Reader.word () 2
  pure (UInt16.ofNat n)

def u32 : SlotReader UInt32 := do
  let n ← Reader.word () 4
  pure (UInt32.ofNat n)

def u64 : SlotReader UInt64 := do
  let n ← Reader.word () 8
  pure (UInt64.ofNat n)

def ofOption (value : Option α) : SlotReader α :=
  Reader.lift (Outcome.ofOption () value)

/-- The octets as a block of the expected length. -/
def block (length : ℕ) : SlotReader (ByteBlock length) := do
  let octets ← take length
  ofOption (if h : octets.length = length then some ⟨octets, h⟩ else none)

def fin : SlotReader FormFin := do
  let octets ← take 16
  pure (FormFin.fromU128 (Bytes.fromBeBytes octets))

def text : SlotReader Text := do
  let length ← byte
  let octets ← take 32
  Reader.require () (length ≠ 0 ∧ length.toNat ≤ 32 ∧ isAscii (octets.take length.toNat))
  ofOption (Text.new (octets.take length.toNat)).toOption

def flag : SlotReader Bool := do
  let value ← byte
  ofOption (match value.toNat with
    | 0 => some false
    | 1 => some true
    | _ => none)

def dimension : SlotReader Dimension := do
  let fin ← fin
  let name ← text
  let securityBoundary ← flag
  Reader.lift (Dimension.new fin name.content securityBoundary)

def form (fixedRecords : Bool) : SlotReader StoredForm := do
  let fin ← fin
  let name ← text
  let kind ← byte >>= fun value => ofOption (decodeKind value)
  let revision ← u32
  let lifecycle ← byte >>= fun value => ofOption (decodeLifecycle value)
  let contentLen ← u16
  Reader.require () (contentLen.toNat ≤ formContentCapacity)
  let stored ← take
    (if fixedRecords then legacyFormContentCapacity
      else contentLen.toNat)
  let form ← Reader.lift (Form.new fin name.content kind)
  -- Slicing a fixed record past its end is out of range.
  Reader.lift (if contentLen.toNat ≤ stored.length then .done () else .halt)
  pure
    { form := { form with revision, lifecycle }
      content := ChunkedBlob.fromBytes (stored.take contentLen.toNat) }

def relationship : SlotReader Relationship := do
  let source ← fin
  let target ← fin
  let kind ← byte >>= fun value => ofOption (decodeRelationship value)
  let present ← byte
  let dimension ← fin
  let dimension ← ofOption (match present.toNat with
    | 0 => if dimension.isZero then some none else none
    | 1 => if dimension.isZero then none else some (some dimension)
    | _ => none)
  pure { source, target, kind, dimension }

def handle (cfc : CfcFin) : SlotReader FormHandle := do
  let id ← u32
  let parentId ← u32
  let requester ← fin
  let target ← fin
  let dimension ← fin
  let operations ← u16 >>= fun bits => ofOption (Operations.fromBits bits)
  let validUntilTick ← u64
  let revoked ← flag
  pure
    { id, parentId, cfc, requester, target, dimension, operations,
      validUntilTick, revoked }

/-- One cell.  The older formats keep the space of an absent record. -/
def slot (fixedRecords : Bool) (recordLen : ℕ) (record : SlotReader α) : SlotReader (Option α) := do
  let present ← byte
  if present = 0 then
    Reader.skip (if fixedRecords then recordLen else 0)
    pure none
  else
    Reader.require () (present = 1)
    let value ← record
    pure (some value)

/-- A whole array of cells. -/
def table (fixedRecords : Bool) (recordLen capacity : ℕ)
    (record : SlotReader α) : SlotReader (SlotTable α capacity) := do
  let slots ← Reader.times (slot fixedRecords recordLen record) capacity
  pure ⟨slots.val, slots.property⟩

/-- The payload of a slot whose header names the CFC and the journal
sequence. -/
def payload (fixedRecords : Bool) (cfc : CfcFin) (journal : ℕ) : SlotReader Snapshot := do
  let primaryDimension ← fin
  let cfcName ← text
  let nextFin ← u32
  let nextDimensionFin ← u32
  let journalSequence ← u32
  Reader.require () (journalSequence.toNat = journal)
  let networkPolicy ← byte >>= fun value => ofOption (decodeNetwork value)
  let formGraphPresent ← flag
  let settingsPresent ← byte
  let settings ← block settingsRecordCapacity
  let accountsPresent ← byte
  let accounts ← block accountsRecordCapacity
  Reader.require () (settingsPresent ≤ 1 ∧ accountsPresent ≤ 1)
  let dimensions ← table fixedRecords (16 + 1 + 32 + 1)
    maxStoredDimensions dimension
  let forms ← table fixedRecords
    (16 + 1 + 32 + 1 + 4 + 1 + 2 + legacyFormContentCapacity)
    maxStoredForms (form fixedRecords)
  let relationships ← table fixedRecords (16 + 16 + 1 + 1 + 16)
    maxStoredRelationships relationship
  let handles ← table fixedRecords (4 + 4 + 16 + 16 + 16 + 2 + 8 + 1)
    maxStoredHandles (handle cfc)
  pure
    { cfc, cfcName, primaryDimension, forms, dimensions, relationships,
      handles, nextFin, nextDimensionFin, journalSequence, networkPolicy,
      formGraphPresent
      settings := if settingsPresent = 1 then some settings else none
      accounts := if accountsPresent = 1 then some accounts else none }

end SlotReader

/-! ## Reading a slot -/

structure DecodedSlot where
  snapshot : Snapshot
  generation : UInt64
  slot : UInt8
deriving DecidableEq

/-- The word of `width` octets at a fixed offset. -/
def wordAt (octets : Bytes) (offset width : ℕ) : ℕ :=
  Bytes.fromLeBytes ((octets.drop offset).take width)

/-- The octets from `offset` on as a block. -/
def blockAt (octets : Bytes) (offset length : ℕ) : Outcome Unit (ByteBlock length) :=
  Outcome.ofOption ()
    (if h : ((octets.drop offset).take length).length = length then
      some ⟨_, h⟩
    else none)

/-- The slot carries a sealed payload.  This is read from the slot itself. -/
def isEncrypted (encoded : Bytes) : Prop :=
  2 ≤ wordAt encoded 8 2 ∧ wordAt encoded 44 1 = 1

instance (encoded : Bytes) : Decidable (isEncrypted encoded) :=
  inferInstanceAs (Decidable (_ ∧ _))

/-- The slot with its payload in the clear, if its seal or its checksums are
right. -/
def openSlot (cipher : StorageCipher) (encoded : Bytes)
    (key : Option (ByteBlock storageKeyLen)) (nonceDomain : UInt32) : Outcome Unit Bytes :=
  if isEncrypted encoded then
    if wordAt encoded 45 1 ≠ 1 then .fail ()
    else do
      let key ← Outcome.ofOption () key
      let generation := UInt64.ofNat (wordAt encoded 16 8)
      let cfc ← blockAt encoded 24 16
      let nonce := storageNonce key cfc generation nonceDomain
      let tag ← blockAt encoded 48 storageTagLen
      let plain ← Outcome.ofOption () (cipher.openStorage key nonce
        (encoded.take 48) (encoded.drop headerLen) tag)
      pure (encoded.take headerLen ++ plain)
  else if (crc32 (encoded.take 52)).toNat ≠ wordAt encoded 52 4 ∨
      (crc32 (encoded.drop headerLen)).toNat ≠ wordAt encoded 48 4 then
    .fail ()
  else .done encoded

/-- The checks on the shape of a slot. -/
def wellShaped (encoded : Bytes) : Prop :=
  headerLen ≤ encoded.length ∧ encoded.take 8 = magic ∧
    1 ≤ wordAt encoded 8 2 ∧ wordAt encoded 8 2 ≤ formatVersion ∧ wordAt encoded 10 2 = headerLen ∧
    wordAt encoded 12 4 = encoded.length - headerLen

instance (encoded : Bytes) : Decidable (wellShaped encoded) :=
  inferInstanceAs (Decidable (_ ∧ _))

/-- The records of a slot whose payload is in the clear. -/
def readRecords (decoded : Bytes) (slot : UInt8) : Outcome Unit DecodedSlot :=
  let fixedRecords := decide (wordAt decoded 8 2 ≤ 2)
  let generation := UInt64.ofNat (wordAt decoded 16 8)
  if generation = 0 then .fail ()
  else do
    let cfc ← blockAt decoded 24 16
    let cfc := CfcFin.fromU128 (Bytes.fromBeBytes cfc.val)
    let snapshot ← (SlotReader.payload fixedRecords cfc
      (wordAt decoded 40 4) decoded).run headerLen |>.1
    match validateSnapshot snapshot with
    | .ok () => pure { snapshot, generation, slot }
    | .error _ => .fail ()

def decodeSlot (cipher : StorageCipher) (encoded : Bytes) (slot : UInt8)
    (key : Option (ByteBlock storageKeyLen)) (nonceDomain : UInt32) : Outcome Unit DecodedSlot :=
  -- The version is read before the length is known to cover it.
  if encoded.length < 10 then .halt
  else if ¬ wellShaped encoded then .fail ()
  else do
    let decoded ← openSlot cipher encoded key nonceDomain
    readRecords decoded slot

end ExpOS
