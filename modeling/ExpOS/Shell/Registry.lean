import ExpOS.Core.NativeImage
import ExpOS.Network.Http
import ExpOS.Store.Snapshot
import ExpOS.Support.Chars

/-!
# Signed registry manifests

A manifest of the package registry is a header line, lines of the form
`name=value` and a last line with a signature.  The signature covers
everything before the line feed that introduces it, and the fields are read
from nothing else.
-/

namespace ExpOS

open List

/-- The answers of the signature library. -/
structure Ed25519 where
  isKey : ByteBlock 32 → Bool
  verifyStrict : ByteBlock 32 → Bytes → ByteBlock 64 → Bool

structure RegistryManifest where
  name : Text
  url : Bytes
  length : ℕ
  sha256 : ByteBlock 32
deriving DecidableEq

namespace Registry

def header : Bytes := asciiBytes "EXPOS-AYO-REGISTRY-V1"

def signatureMarker : Bytes := asciiBytes "\nsignature="

/-! ## Parts of a text -/

def trimEnd (text : Bytes) : Bytes :=
  match fromUtf8 text with
  | some chars => utf8 (chars.rdropWhile isWhitespace)
  | none => text

def textLines (text : Bytes) : List Bytes := linesBetween 0x0A 0x0D text

def hexPairs : Bytes → Option Bytes
  | high :: low :: rest => do
    let high ← hexDigit high
    let low ← hexDigit low
    let rest ← hexPairs rest
    return UInt8.ofNat (high * 16 + low) :: rest
  | _ => some []

def parseFixedHex (count : ℕ) (value : Bytes) : Option (ByteBlock count) :=
  if value.length ≠ count * 2 then none
  else
    match hexPairs value with
    | none => none
    | some octets => if h : octets.length = count then some ⟨octets, h⟩ else none

def parseSha256 (value : Bytes) : Option (ByteBlock 32) := parseFixedHex 32 value

def digitsValue : ℕ → Bytes → Option ℕ
  | found, [] => some found
  | found, octet :: rest =>
    match decimalDigit octet with
    | none => none
    | some digit =>
      if found * 10 + digit < usizeLimit then digitsValue (found * 10 + digit) rest else none

/-- A decimal number, which a plus sign may introduce. -/
def parseUsize (text : Bytes) : Option ℕ :=
  let digits := if text.head? = some 0x2B then text.tail else text
  if digits = [] then none else digitsValue 0 digits

/-! ## Fields -/

/-- The one line with the name, among lines of other names. -/
def findField (name : Bytes) : Option Bytes → List Bytes → Except String (Option Bytes)
  | found, [] => .ok found
  | found, line :: rest =>
    if name.isPrefixOf line then
      let value := line.drop name.length
      if found.isSome ∨ value = [] then .error "duplicate or empty manifest field"
      else findField name (some value) rest
    else findField name found rest

def field (fields : Bytes) (name : String) : Except String Bytes :=
  match findField (asciiBytes name ++ [0x3D]) none ((textLines fields).filter (· ≠ [])) with
  | .error error => .error error
  | .ok none => .error "missing manifest field"
  | .ok (some value) => .ok value

def readFields (fields : Bytes) : Except String RegistryManifest := do
  let name ← (Text.new (← field fields "name")).mapError fun _ => "invalid Form name"
  let url ← field fields "url"
  if ¬(asciiBytes "https://").isPrefixOf url then throw "artifact URL must use HTTPS"
  let some length := parseUsize (← field fields "bytes") | throw "invalid artifact length"
  if ¬(nativeImageHeader ≤ length ∧ length ≤ httpBodyCapacity) ∨ formContentCapacity < length then
    throw "artifact length exceeds the bounded registry transfer"
  let some sha256 := parseSha256 (← field fields "sha256") | throw "invalid SHA-256"
  return { name, url, length, sha256 }

/-! ## The envelope -/

variable (ed : Ed25519) (bytes : Bytes) (key : ByteBlock 32)

/-- The octets before the signature, if there is one. -/
def signedPart : Option Bytes :=
  (findBytes signatureMarker bytes).map bytes.take

def parseSignedRegistryManifest : Outcome String RegistryManifest :=
  if fromUtf8 bytes = none then .fail "manifest is not UTF-8"
  else if ¬(header ++ [0x0A]).isPrefixOf bytes then .fail "unsupported registry schema"
  else
    match findBytes signatureMarker bytes with
    | none => .fail "missing signature"
    | some marker =>
      let signed := bytes.take marker
      let signatureText := trimEnd (bytes.drop (marker + signatureMarker.length))
      if 0x0A ∈ signatureText then .fail "signature must be the final field"
      else
        match parseFixedHex 64 signatureText with
        | none => .fail "invalid signature hex"
        | some signature =>
          if ed.isKey key = false then .fail "invalid Ed25519 public key"
          else if ed.verifyStrict key signed signature = false then
            .fail "Ed25519 verification failed"
          -- A slice that ends before it begins.
          else if marker < header.length then .halt
          else
            match readFields (signed.drop header.length) with
            | .error error => .fail error
            | .ok manifest => .done manifest

variable {ed bytes key} {manifest : RegistryManifest}

/-- What is accepted was verified and read from the same octets. -/
theorem accepted_cases (h : parseSignedRegistryManifest ed bytes key = .done manifest) :
    ∃ signed signature, signedPart bytes = some signed ∧
      ed.verifyStrict key signed signature = true ∧
      readFields (signed.drop header.length) = .ok manifest := by
  rw [parseSignedRegistryManifest] at h
  iterate 3
    split at h
    · cases h
  rename_i marker hmarker
  dsimp only at h
  split at h
  · cases h
  split at h
  · cases h
  rename_i signature hsignature
  split at h
  · cases h
  split at h
  · cases h
  rename_i hverified
  split at h
  · cases h
  split at h
  · cases h
  rename_i hfields
  cases h
  refine ⟨bytes.take marker, signature, ?_, ?_, hfields⟩
  · rw [signedPart, hmarker, Option.map_some]
  · exact Bool.not_eq_false _ ▸ hverified

end Registry

open Registry

/-- Every field of an accepted manifest is read from octets that were signed,
and manifests with the same signed octets have the same fields. -/
theorem registry_fields_signed (ed : Ed25519) (key : ByteBlock 32) (genuine : Set Bytes)
    (hstrict : ∀ message signature,
      ed.verifyStrict key message signature = true → message ∈ genuine) :
    (∀ bytes manifest, parseSignedRegistryManifest ed bytes key = .done manifest →
      ∃ signed ∈ genuine, signedPart bytes = some signed ∧
        readFields (signed.drop header.length) = .ok manifest) ∧
    ∀ bytes bytes' manifest manifest',
      parseSignedRegistryManifest ed bytes key = .done manifest →
      parseSignedRegistryManifest ed bytes' key = .done manifest' →
      signedPart bytes = signedPart bytes' → manifest = manifest' := by
  constructor
  · intro bytes manifest haccepted
    obtain ⟨signed, signature, hpart, hverified, hfields⟩ := accepted_cases haccepted
    exact ⟨signed, hstrict signed signature hverified, hpart, hfields⟩
  intro bytes bytes' manifest manifest' haccepted haccepted' hsame
  obtain ⟨signed, -, hpart, -, hfields⟩ := accepted_cases haccepted
  obtain ⟨signed', -, hpart', -, hfields'⟩ := accepted_cases haccepted'
  have heq : signed = signed' := by
    rw [hpart, hpart'] at hsame
    exact Option.some.inj hsame
  rw [heq, hfields'] at hfields
  exact (Except.ok.inj hfields).symm

/-- The signed octets of a small manifest. -/
def clockSigned : Bytes :=
  asciiBytes "EXPOS-AYO-REGISTRY-V1\nname=Clock\nurl=https://r.example/Clock\nbytes=24\nsha256=" ++
    replicate 64 0x30

/-- A library that knows one message. -/
def clockLibrary : Ed25519 where
  isKey _ := true
  verifyStrict _ message _ := message == clockSigned

/-- Two manifests that differ only behind the signed octets. -/
def clockManifests : List Bytes :=
  [clockSigned ++ signatureMarker ++ replicate 128 0x61 ++ [0x0D, 0x0A],
    clockSigned ++ signatureMarker ++ replicate 128 0x62]

theorem registry_fields_signed_clock :
    (∀ bytes ∈ clockManifests, ∃ manifest,
      parseSignedRegistryManifest clockLibrary bytes (.zeros 32) = .done manifest ∧
      ∃ signed ∈ ({clockSigned} : Set Bytes), signedPart bytes = some signed ∧
        readFields (signed.drop header.length) = .ok manifest) ∧
    ∀ bytes ∈ clockManifests, ∀ bytes' ∈ clockManifests, ∀ manifest manifest',
      parseSignedRegistryManifest clockLibrary bytes (.zeros 32) = .done manifest →
      parseSignedRegistryManifest clockLibrary bytes' (.zeros 32) = .done manifest' →
      manifest = manifest' := by
  have hsigned := registry_fields_signed clockLibrary (.zeros 32) {clockSigned}
    (fun message _ h => eq_of_beq h)
  have haccepted : ∀ bytes ∈ clockManifests,
      parseSignedRegistryManifest clockLibrary bytes (.zeros 32) = .done
        ⟨⟨asciiBytes "Clock", by decide, isAscii_iff.mp (by decide)⟩,
          asciiBytes "https://r.example/Clock", 24, .zeros 32⟩ := by decide +kernel
  have hpart : ∀ bytes ∈ clockManifests, signedPart bytes = some clockSigned := by
    decide +kernel
  constructor
  · intro bytes hbytes
    exact ⟨_, haccepted bytes hbytes, hsigned.1 bytes _ (haccepted bytes hbytes)⟩
  · intro bytes hbytes bytes' hbytes' manifest manifest' h h'
    exact hsigned.2 _ _ _ _ h h' ((hpart bytes hbytes).trans (hpart bytes' hbytes').symm)

end ExpOS
