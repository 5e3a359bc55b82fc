import ExpOS.Store.Records

/-!
# The slot codec round-trips

Both ways of wrapping a payload are undone by opening the slot, so decoding an
encoded slot gives the snapshot and the generation back, for every valid
snapshot whose stored blobs are whole and under every cipher that opens what
it sealed.
-/

namespace ExpOS

open List Outcome Bytes

/-! ## Fields at fixed offsets -/

variable {encoded : Bytes} {offset : ℕ} (before after : Bytes)

theorem wordAt_eq {width n : ℕ} (h : encoded = before ++ (toLeBytes width n ++ after))
    (hoffset : before.length = offset) (hn : n < 256 ^ width) :
    wordAt encoded offset width = n := by
  subst h hoffset
  rw [wordAt, drop_left' rfl, take_left' (length_toLeBytes width n),
    fromLeBytes_toLeBytes_of_lt hn]

theorem blockAt_eq {length : ℕ}
    {block : ByteBlock length} (h : encoded = before ++ (block.val ++ after))
    (hoffset : before.length = offset) : blockAt encoded offset length = .done block := by
  subst h hoffset
  simp only [blockAt, drop_left' rfl, take_left' block.property, dif_pos block.property]
  rfl

section Frame

variable {s : Snapshot} {generation : UInt64} {flag : UInt8}
  {payloadLen : ℕ} {rest : Bytes}

@[simp] theorem length_magic : magic.length = 8 := by
  decide

@[simp] theorem length_slotHeader : (slotHeader s generation payloadLen flag).length = 48 := by
  simp [slotHeader, s.cfc.bytes.property]

theorem take_magic : (slotHeader s generation payloadLen flag ++ rest).take 8 = magic := by
  exact take_left' length_magic

theorem version_frame : wordAt (slotHeader s generation payloadLen flag ++ rest) 8 2 =
      formatVersion :=
  wordAt_eq magic _ (by simp only [slotHeader]; rfl) length_magic (by decide)

theorem headerLen_frame : wordAt (slotHeader s generation payloadLen flag ++ rest) 10 2 =
      headerLen :=
  wordAt_eq (magic ++ toLeBytes 2 formatVersion) _
    (by simp only [slotHeader]; rfl) (by simp) (by decide)

theorem payloadLen_frame (h : payloadLen < 256 ^ 4) :
    wordAt (slotHeader s generation payloadLen flag ++ rest) 12 4 =
      payloadLen :=
  wordAt_eq (magic ++ toLeBytes 2 formatVersion ++ toLeBytes 2 headerLen) _
    (by simp only [slotHeader]; rfl) (by simp) h

theorem generation_frame : wordAt (slotHeader s generation payloadLen flag ++ rest) 16 8 =
      generation.toNat :=
  wordAt_eq (magic ++ toLeBytes 2 formatVersion ++
    toLeBytes 2 headerLen ++ toLeBytes 4 payloadLen) _
    (by simp only [slotHeader]; rfl) (by simp)
    generation.toNat_lt

theorem cfc_frame : blockAt (slotHeader s generation payloadLen flag ++ rest) 24 16 =
      .done s.cfc.bytes :=
  blockAt_eq (magic ++ toLeBytes 2 formatVersion ++
    toLeBytes 2 headerLen ++ toLeBytes 4 payloadLen ++
    toLeBytes 8 generation.toNat) _
    (by simp only [slotHeader, append_assoc]; rfl) (by simp)

theorem journal_frame : wordAt (slotHeader s generation payloadLen flag ++ rest) 40 4 =
      s.journalSequence.toNat :=
  wordAt_eq (magic ++ toLeBytes 2 formatVersion ++
    toLeBytes 2 headerLen ++ toLeBytes 4 payloadLen ++
    toLeBytes 8 generation.toNat ++ s.cfc.bytes.val) _
    (by simp only [slotHeader, append_assoc]; rfl)
    (by simp [s.cfc.bytes.property]) s.journalSequence.toNat_lt

/-- The fields of a header before its flag octets. -/
def headerFields (s : Snapshot) (generation : UInt64) (payloadLen : ℕ) : Bytes :=
  magic ++ Bytes.toLeBytes 2 formatVersion ++
    Bytes.toLeBytes 2 headerLen ++ Bytes.toLeBytes 4 payloadLen ++
    Bytes.toLeBytes 8 generation.toNat ++ s.cfc.bytes.val ++
    Bytes.toLeBytes 4 s.journalSequence.toNat

theorem length_headerFields : (headerFields s generation payloadLen).length = 44 := by
  simp [headerFields, s.cfc.bytes.property]

theorem flag_frame : wordAt (slotHeader s generation payloadLen flag ++ rest) 44 1 = flag.toNat :=
  wordAt_eq (headerFields s generation payloadLen) ([flag, 0, 0] ++ rest)
    (by simp [slotHeader, headerFields, toLeBytes])
    length_headerFields flag.toNat_lt

theorem suite_frame : wordAt (slotHeader s generation payloadLen flag ++ rest) 45 1 = flag.toNat :=
  wordAt_eq (headerFields s generation payloadLen ++ [flag]) ([0, 0] ++ rest)
    (by simp [slotHeader, headerFields, toLeBytes])
    (by simp [length_headerFields]) flag.toNat_lt

theorem isEncrypted_frame : isEncrypted (slotHeader s generation payloadLen flag ++ rest) ↔
      flag = 1 := by
  rw [isEncrypted, version_frame, flag_frame, ← UInt8.toNat_inj]
  simp [formatVersion]

theorem wellShaped_frame (hlen : rest.length = 16 + payloadLen)
    (hpayload : payloadLen ≤ slotLen - headerLen) :
    wellShaped (slotHeader s generation payloadLen flag ++ rest) := by
  have hsmall : payloadLen < 256 ^ 4 := by
    simp only [slotLen, slotSectors, sectorSize] at hpayload
    omega
  refine ⟨?_, take_magic, ?_, ?_, headerLen_frame, ?_⟩
  · simp only [length_append, length_slotHeader, headerLen]
    omega
  · rw [version_frame]
    decide
  · rw [version_frame]
  · rw [payloadLen_frame hsmall, length_append, length_slotHeader, headerLen]
    omega

end Frame

/-! ## Reading the records back -/

variable {s : Snapshot} {generation : UInt64} (slot : UInt8)

/-- Records of either format are read if their payload is. -/
theorem readRecords_of_payload {decoded : Bytes} {stop : ℕ} {fixedRecords : Bool}
    (hversion : decide (wordAt decoded 8 2 ≤ 2) = fixedRecords)
    (hpayload : (SlotReader.payload fixedRecords s.cfc s.journalSequence.toNat
      decoded).run headerLen = (.done s, stop))
    (hgeneration : wordAt decoded 16 8 = generation.toNat)
    (hcfc : blockAt decoded 24 16 = .done s.cfc.bytes)
    (hjournal : wordAt decoded 40 4 = s.journalSequence.toNat)
    (hne : generation ≠ 0) (hvalid : s.Valid) :
    readRecords decoded slot = .done { snapshot := s, generation, slot } := by
  simp only [readRecords, hversion, hgeneration, hcfc, hjournal,
    UInt64.ofNat_toNat, if_neg hne, done_bind,
    CfcFin.fromU128_fromBeBytes, hpayload, validateSnapshot_eq_ok.mpr hvalid]
  rfl

theorem readRecords_frame {flag : UInt8} {payloadLen : ℕ} {tail : Bytes}
    (htail : tail.length = 16) (hne : generation ≠ 0) (hvalid : s.Valid)
    (hrel : ∀ r ∈ s.relationships.occupants, r.dimension ≠ some .zero)
    (h : s.Covers) :
    readRecords (slotHeader s generation payloadLen flag ++ (tail ++ payloadBytes s)) slot =
      .done { snapshot := s, generation, slot } := by
  have hbefore : (slotHeader s generation payloadLen flag ++ tail).length = headerLen := by
    rw [length_append, length_slotHeader, htail]
    rfl
  have hpayload := (consumes_payload hvalid hrel h).run_end hbefore
  have hdecoded : slotHeader s generation payloadLen flag ++ tail ++ payloadBytes s =
      slotHeader s generation payloadLen flag ++ (tail ++ payloadBytes s) := append_assoc _ _ _
  rw [hdecoded] at hpayload
  exact readRecords_of_payload slot (by rw [version_frame]; rfl) hpayload generation_frame
    cfc_frame journal_frame hne hvalid

/-- A cipher that accepts buffers of the size of a slot and opens what it
sealed. -/
structure StorageCipher.Inverts (cipher : StorageCipher) : Prop where
  seals : ∀ key nonce associated plain, plain.length ≤ slotLen →
    ∃ sealed tag, cipher.sealStorage key nonce associated plain = some (sealed, tag)
  opens : ∀ key nonce associated plain sealed tag,
    cipher.sealStorage key nonce associated plain = some (sealed, tag) →
      cipher.openStorage key nonce associated sealed tag = some plain

/-! ## Wrapping and opening -/

variable {payload : Bytes} {header : Bytes}

theorem length_slotChecksums : (slotChecksums header payload).length = 16 := by
  simp [slotChecksums]

/-- The checksums of a slot are the ones its reader computes. -/
theorem checksums_match (hlen : header.length = 48) :
    ¬ ((crc32 ((header ++ (slotChecksums header payload ++ payload)).take 52)).toNat ≠
        wordAt (header ++ (slotChecksums header payload ++ payload)) 52 4 ∨
      (crc32 ((header ++ (slotChecksums header payload ++ payload)).drop headerLen)).toNat ≠
        wordAt (header ++ (slotChecksums header payload ++ payload)) 48 4) := by
  generalize hpayload : toLeBytes 4 (crc32 payload).toNat = first
  have hfirst : first.length = 4 := by
    rw [← hpayload]
    exact length_toLeBytes _ _
  have hfront : (header ++ first).length = 52 := by
    rw [length_append, hlen, hfirst]
  have htake : (header ++ (slotChecksums header payload ++ payload)).take 52 = header ++ first := by
    have hsplit : header ++ (slotChecksums header payload ++ payload) =
        (header ++ first) ++ ((slotChecksums header payload).drop 4 ++ payload) := by
      simp [slotChecksums, hpayload, hfirst]
    rw [hsplit]
    exact take_left' hfront
  have hdrop : (header ++ (slotChecksums header payload ++ payload)).drop headerLen = payload := by
    rw [← append_assoc]
    refine drop_left' ?_
    rw [length_append, hlen]
    rfl
  have hword₁ : wordAt (header ++ (slotChecksums header payload ++
      payload)) 48 4 = (crc32 payload).toNat :=
    wordAt_eq header _ (by
      simp only [slotChecksums]; rfl) hlen
      (crc32 payload).toNat_lt
  have hword₂ : wordAt (header ++ (slotChecksums header payload ++
      payload)) 52 4 = (crc32 (header ++ first)).toNat :=
    wordAt_eq (header ++ first) _ (by
      simp only [slotChecksums, hpayload, append_assoc]; rfl) hfront
      (crc32 (header ++ first)).toNat_lt
  rw [htake, hdrop, hword₁, hword₂]
  simp

variable {cipher : StorageCipher} {key : Option (ByteBlock storageKeyLen)} {nonceDomain : UInt32}

/-- What a wrapped payload looks like: a header, sixteen octets of tag or
checksums, and a body of the payload's length. -/
theorem wrapPayload_eq (h : wrapPayload cipher s generation key nonceDomain payload =
      .done encoded) : ∃ tail body : Bytes, tail.length = 16 ∧ body.length = payload.length ∧
      encoded = slotHeader s generation payload.length
        (encodeFlag key.isSome) ++ (tail ++ body) := by
  cases key with
  | some key =>
    simp only [wrapPayload] at h
    split at h
    · cases h
    rename_i sealed tag hseal
    cases h
    refine ⟨tag.val, sealed, tag.property, cipher.length_seal _ _ _ _ _ _ hseal, ?_⟩
    simp [encodeFlag]
  | none =>
    cases h
    refine ⟨slotChecksums (slotHeader s generation payload.length 0)
      payload, payload, length_slotChecksums, rfl, ?_⟩
    exact append_assoc _ _ _

section SealedFrame

variable {s : Snapshot} {generation : UInt64} {payloadLen : ℕ}
  {flag : UInt8} {tag : ByteBlock storageTagLen} {sealed : Bytes}

theorem tag_frame : blockAt (slotHeader s generation payloadLen flag ++
      (tag.val ++ sealed)) 48 storageTagLen = .done tag :=
  blockAt_eq _ _ rfl length_slotHeader

theorem take_frame {rest : Bytes} : (slotHeader s generation payloadLen flag ++ rest).take 48 =
      slotHeader s generation payloadLen flag :=
  take_left' length_slotHeader

theorem length_sealedHeader : (slotHeader s generation payloadLen flag ++ tag.val).length =
      headerLen := by
  rw [length_append, length_slotHeader, tag.property]
  rfl

theorem drop_sealedFrame : (slotHeader s generation payloadLen flag ++ (tag.val ++ sealed)).drop
      headerLen = sealed := by
  rw [← append_assoc]
  exact drop_left' length_sealedHeader

theorem take_sealedFrame : (slotHeader s generation payloadLen flag ++ (tag.val ++ sealed)).take
      headerLen = slotHeader s generation payloadLen flag ++ tag.val := by
  rw [← append_assoc]
  exact take_left' length_sealedHeader

end SealedFrame

/-- Opening undoes wrapping. -/
theorem openSlot_wrapPayload (hcipher : key ≠ none → cipher.Inverts)
    (h : wrapPayload cipher s generation key nonceDomain payload = .done encoded) :
    ∃ tail : Bytes, tail.length = 16 ∧ openSlot cipher encoded key nonceDomain =
        .done (slotHeader s generation payload.length
          (encodeFlag key.isSome) ++ (tail ++ payload)) := by
  cases key with
  | some key =>
    simp only [wrapPayload] at h
    split at h
    · cases h
    rename_i sealed tag hseal
    cases h
    refine ⟨tag.val, tag.property, ?_⟩
    have hopen := (hcipher (by simp)).opens _ _ _ _ _ _ hseal
    rw [append_assoc, openSlot, if_pos (isEncrypted_frame.mpr rfl), suite_frame]
    simp only [ofOption_some, done_bind, generation_frame, UInt64.ofNat_toNat, cfc_frame,
      tag_frame, take_frame, drop_sealedFrame, hopen, take_sealedFrame, append_assoc]
    rfl
  | none =>
    cases h
    refine ⟨slotChecksums (slotHeader s generation payload.length 0)
      payload, length_slotChecksums, ?_⟩
    have hplain : ¬ isEncrypted (slotHeader s generation
        payload.length 0 ++ (slotChecksums (slotHeader s generation
          payload.length 0) payload ++ payload)) := by
      rw [isEncrypted_frame]
      decide
    rw [append_assoc, openSlot, if_neg hplain, if_neg (checksums_match length_slotHeader)]
    rfl

/-! ## Encoding and decoding -/

section RoundTrip

variable {cipher : StorageCipher} {s : Snapshot} {generation : UInt64}
  {key : Option (ByteBlock storageKeyLen)} {nonceDomain : UInt32}

theorem encodeSlot_eq_done : encodeSlot cipher s generation key nonceDomain = .done encoded ↔
      ∃ payload, (putPayload s).run [] = (.done (), payload) ∧
        wrapPayload cipher s generation key nonceDomain payload = .done encoded := by
  rw [encodeSlot]
  rcases (putPayload s).run [] with ⟨⟨⟨⟩⟩ | e | _, payload⟩
  · simp
  · simp
  · simp

theorem wrapPayload_done (s : Snapshot) (generation : UInt64)
    (nonceDomain : UInt32) (hcipher : key ≠ none → cipher.Inverts)
    (hlen : payload.length ≤ slotLen) :
    ∃ encoded, wrapPayload cipher s generation key nonceDomain payload = .done encoded := by
  cases key with
  | none => exact ⟨_, rfl⟩
  | some key =>
    obtain ⟨sealed, tag, hseal⟩ := (hcipher (by simp)).seals key
      (storageNonce key s.cfc.bytes generation nonceDomain)
      (slotHeader s generation payload.length 1) payload hlen
    exact ⟨_, by simp only [wrapPayload, hseal]; rfl⟩

/-- A valid snapshot with whole blobs is encoded, fits, and decodes to
itself. -/
theorem encodeSlot_roundTrip (nonceDomain : UInt32) (slot : UInt8) (hvalid : s.Valid)
    (hrel : ∀ r ∈ s.relationships.occupants, r.dimension ≠ some .zero)
    (hne : generation ≠ 0) (hcipher : key ≠ none → cipher.Inverts)
    (hcovers : s.Covers) : ∃ encoded,
      encodeSlot cipher s generation key nonceDomain = .done encoded ∧
      encoded.length = headerLen + (payloadBytes s).length ∧
      decodeSlot cipher encoded slot key nonceDomain =
        .done { snapshot := s, generation, slot } := by
  have hpayload := putPayload_eq hvalid hcovers
  have hfits := length_payloadBytes_le hvalid hcovers
  have hslot : (payloadBytes s).length ≤ slotLen := Nat.le_trans hfits (Nat.sub_le _ _)
  obtain ⟨encoded, hwrap⟩ := wrapPayload_done s generation nonceDomain hcipher hslot
  obtain ⟨tail, body, htail, hbody, hencoded⟩ := wrapPayload_eq hwrap
  obtain ⟨tail', htail', hopen⟩ := openSlot_wrapPayload hcipher hwrap
  have hlen : encoded.length = headerLen + (payloadBytes s).length := by
    rw [hencoded, length_append, length_append, length_slotHeader, headerLen]
    omega
  have hshape : wellShaped encoded := by
    rw [hencoded]
    refine wellShaped_frame ?_ hfits
    rw [length_append, htail, hbody]
  refine ⟨encoded, encodeSlot_eq_done.mpr ⟨_, hpayload, hwrap⟩, hlen, ?_⟩
  have hlong : ¬ encoded.length < 10 := by
    rw [hlen, headerLen]
    omega
  rw [decodeSlot, if_neg hlong, if_neg (not_not.mpr hshape), hopen, done_bind]
  exact readRecords_frame slot htail' hne hvalid hrel hcovers

/-- For every valid snapshot, with or without a key, encoding succeeds within
the size of a slot and decoding gives the snapshot and the generation back,
exactly when the chunks of every stored blob reach up to its length. -/
theorem encodeSlot_decodes_iff (slot : UInt8) (hvalid : validateSnapshot s = .ok ())
    (hrel : ∀ r ∈ s.relationships.occupants, r.dimension ≠ some FormFin.zero)
    (hne : generation ≠ 0) (hcipher : key ≠ none → cipher.Inverts) : (∃ encoded,
      encodeSlot cipher s generation key nonceDomain = .done encoded ∧ encoded.length ≤ slotLen ∧
      decodeSlot cipher encoded slot key nonceDomain = .done { snapshot := s, generation, slot }) ↔
    ∀ stored ∈ s.forms.occupants, stored.content.Covers := by
  rw [validateSnapshot_eq_ok] at hvalid
  constructor
  · rintro ⟨encoded, hencode, -, -⟩
    obtain ⟨payload, hpayload, -⟩ := encodeSlot_eq_done.mp hencode
    exact covers_of_putPayload hpayload
  intro hcovers
  obtain ⟨encoded, hencode, hlen, hdecode⟩ :=
    encodeSlot_roundTrip nonceDomain slot hvalid hrel hne hcipher hcovers
  refine ⟨encoded, hencode, ?_, hdecode⟩
  have hfits := length_payloadBytes_le hvalid hcovers
  rw [hlen]
  simp only [slotLen, slotSectors, sectorSize, headerLen] at hfits ⊢
  omega

end RoundTrip

/-! ## A snapshot with one Form -/

def notesForm : Form where
  fin := FormFin.fromU128 3
  name := ⟨asciiBytes "MyNotes", by decide, isAscii_iff.mp (by decide)⟩
  kind := .data
  revision := 1
  lifecycle := .active

def testCfcName : Text :=
  ⟨asciiBytes "Test CFC", by decide, isAscii_iff.mp (by decide)⟩

/-- A snapshot that holds one Form with the given content. -/
def oneFormSnapshot (content : ChunkedBlob) : Snapshot :=
  { Snapshot.empty (CfcFin.fromU128 100) testCfcName
      (FormFin.fromU128 2) with
    forms := ⟨some { form := notesForm, content } ::
      List.replicate 11 none, by simp; rfl⟩ }

variable {content : ChunkedBlob}

theorem oneFormSnapshot_occupants
    {stored : StoredForm} : stored ∈ (oneFormSnapshot content).forms.occupants ↔
      stored = { form := notesForm, content } := by
  rw [SlotTable.mem_occupants]
  simp [oneFormSnapshot]

theorem oneFormSnapshot_valid (h : content.len ≤ formContentCapacity) :
    (oneFormSnapshot content).Valid where
  cfc := show (CfcFin.fromU128 100).isZero = false by decide
  cfcName := show testCfcName.content ≠ [] by decide
  primaryDimension := show (FormFin.fromU128 2).isZero = false by decide
  journalSequence := show (1 : UInt32) ≠ 0 by decide
  nextFin := show (2 : UInt32) ≠ 0 by decide
  nextDimensionFin := show (2 : UInt32) ≠ 0 by decide
  forms := by
    intro stored hstored
    rw [oneFormSnapshot_occupants.mp hstored]
    exact ⟨show notesForm.fin.isZero = false by decide, show notesForm.name.content ≠ [] by decide,
      show notesForm.revision ≠ 0 by decide, h⟩
  content := by
    change content.len + 0 ≤ cfcContentCapacity
    simp only [formContentCapacity, defaultFormBlobQuota, cfcContentCapacity] at h ⊢
    omega
  dimensions := by simp [oneFormSnapshot, Snapshot.empty]
  handles := by simp [oneFormSnapshot, Snapshot.empty, handlesInvalid]

theorem oneFormSnapshot_relationships : ∀ r ∈ (oneFormSnapshot content).relationships.occupants,
      r.dimension ≠ some .zero := by
  simp [oneFormSnapshot, Snapshot.empty]

/-- A cipher that encrypts nothing, to instantiate hypotheses with. -/
def clearCipher : StorageCipher where
  sealStorage _ _ _ plain := some (plain, ByteBlock.zeros storageTagLen)
  openStorage _ _ _ sealed _ := some sealed
  length_seal := by
    rintro key nonce associated plain sealed tag h
    cases h
    rfl
  length_open := by
    rintro key nonce associated sealed tag plain h
    cases h
    rfl

theorem clearCipher_inverts : clearCipher.Inverts where
  seals _ _ _ plain _ := ⟨plain, _, rfl⟩
  opens := by
    rintro key nonce associated plain sealed tag h
    cases h
    rfl

theorem oneFormSnapshot_decodes :
    validateSnapshot (oneFormSnapshot (ChunkedBlob.fromBytes [104, 105])) = .ok () ∧ ∃ encoded,
      encodeSlot clearCipher (oneFormSnapshot (ChunkedBlob.fromBytes [104, 105])) 1
        (some (ByteBlock.zeros storageKeyLen)) 64 = .done encoded ∧ encoded.length ≤ slotLen ∧
      decodeSlot clearCipher encoded 0 (some (ByteBlock.zeros storageKeyLen)) 64 = .done
          { snapshot := oneFormSnapshot (ChunkedBlob.fromBytes [104, 105])
            generation := 1
            slot := 0 } := by
  have hvalid : validateSnapshot (oneFormSnapshot (.fromBytes [104, 105])) = .ok () :=
    validateSnapshot_eq_ok.mpr (oneFormSnapshot_valid (show 2 ≤ 32 * 1024 by decide))
  refine ⟨hvalid, (encodeSlot_decodes_iff 0 hvalid oneFormSnapshot_relationships (by decide)
    (fun _ => clearCipher_inverts)).mpr ?_⟩
  intro stored hstored
  rw [oneFormSnapshot_occupants.mp hstored]
  exact ChunkedBlob.covers_replace _ _

/-- One byte written at the start of a two-chunk Form makes a snapshot that
passes validation and that no call of `encodeSlot` encodes. -/
theorem truncated_snapshot_not_encoded : ∃ content, (ChunkedBlob.fromBytes
        (List.replicate (blobChunkBytes + 1) 7)).write 0 [1] = .done content ∧
      validateSnapshot (oneFormSnapshot content) = .ok () ∧
      ∀ cipher generation key nonceDomain encoded,
        encodeSlot cipher (oneFormSnapshot content) generation key nonceDomain ≠ .done encoded := by
  obtain ⟨content, hwrite, hlen, hcovers⟩ :=
    ChunkedBlob.write_drops_chunk (length_replicate (n := 4097))
  refine ⟨content, hwrite, ?_, ?_⟩
  · refine validateSnapshot_eq_ok.mpr (oneFormSnapshot_valid ?_)
    rw [hlen]
    decide
  · intro cipher generation key nonceDomain encoded hencode
    obtain ⟨payload, hpayload, -⟩ := encodeSlot_eq_done.mp hencode
    exact hcovers (covers_of_putPayload hpayload _ (oneFormSnapshot_occupants.mpr rfl))

end ExpOS
