import ExpOS.Support.Bytes
import ExpOS.Support.Outcome

/-!
# Identities, names and Form records

The identity types of the semantic core: Form identification numbers, CFC
identities, bounded ASCII names, and the Form, Dimension and relationship
records that carry them.

A value of these types can only be built by the constructors of the source,
so each type states what those constructors establish: a name is short ASCII,
an operation set uses only the nine defined bits.
-/

namespace ExpOS

/-- Stable 128-bit Form Identification Number (`Fin` in the source). -/
structure FormFin where
  bytes : ByteBlock 16
deriving DecidableEq

namespace FormFin

def zero : FormFin := ⟨ByteBlock.zeros 16⟩

/-- The identity whose big-endian octets spell `value`. -/
def fromU128 (value : ℕ) : FormFin :=
  ⟨Bytes.toBeBytes 16 value, by simp⟩

def isZero (fin : FormFin) : Bool :=
  fin.bytes.isZero

theorem isZero_iff {fin : FormFin} : fin.isZero = true ↔ fin = zero := by
  rw [isZero, ByteBlock.isZero_iff]
  constructor
  · intro h
    cases fin
    exact congrArg FormFin.mk h
  · rintro rfl
    rfl

/-- An identity is recovered from the number its octets spell. -/
theorem fromU128_fromBeBytes (fin : FormFin) :
    fromU128 (Bytes.fromBeBytes fin.bytes.val) = fin := by
  obtain ⟨⟨bs, hbs⟩⟩ := fin
  simp only [fromU128, mk.injEq, Subtype.mk.injEq]
  rw [← hbs]
  exact Bytes.toBeBytes_fromBeBytes bs

end FormFin

/-- Stable identity of a Central Inflation Fabric. -/
structure CfcFin where
  bytes : ByteBlock 16
deriving DecidableEq

namespace CfcFin

def zero : CfcFin := ⟨ByteBlock.zeros 16⟩

/-- The identity whose big-endian octets spell `value`. -/
def fromU128 (value : ℕ) : CfcFin :=
  ⟨Bytes.toBeBytes 16 value, by simp⟩

def isZero (cfc : CfcFin) : Bool :=
  cfc.bytes.isZero

theorem isZero_iff {cfc : CfcFin} : cfc.isZero = true ↔ cfc = zero := by
  rw [isZero, ByteBlock.isZero_iff]
  constructor
  · intro h
    cases cfc
    exact congrArg CfcFin.mk h
  · rintro rfl
    rfl

theorem fromU128_fromBeBytes (cfc : CfcFin) : fromU128 (Bytes.fromBeBytes cfc.bytes.val) = cfc := by
  obtain ⟨⟨bs, hbs⟩⟩ := cfc
  simp only [fromU128, mk.injEq, Subtype.mk.injEq]
  rw [← hbs]
  exact Bytes.toBeBytes_fromBeBytes bs

end CfcFin

/-! ## Names -/

def textCapacity : ℕ := 32

inductive TextError where
  | empty
  | invalid
deriving DecidableEq

def isAscii (octets : Bytes) : Bool := octets.all (· < 128)

theorem isAscii_iff {octets : Bytes} : isAscii octets = true ↔ ∀ b ∈ octets, b < 128 := by
  simp [isAscii]

/-- A bounded ASCII name.  The source stores a zero-padded buffer and a
length; only the occupied part is kept here, since the padding is always
zero. -/
structure Text where
  content : Bytes
  length_le : content.length ≤ textCapacity
  ascii : ∀ b ∈ content, b < 128
deriving DecidableEq

namespace Text

def empty : Text := ⟨[], by simp, by simp⟩

/-- Build a name from the octets of a string. -/
def new (value : Bytes) : Except TextError Text :=
  if value = [] then
    .error .empty
  else if h : value.length ≤ textCapacity ∧ isAscii value then
    .ok ⟨value, h.1, isAscii_iff.mp h.2⟩
  else
    .error .invalid

variable {text : Text}

theorem new_content (h : text.content ≠ []) : new text.content = .ok text := by
  rw [new, if_neg h, dif_pos ⟨text.length_le, isAscii_iff.mpr text.ascii⟩]

theorem content_of_new {value : Bytes}
    (h : new value = .ok text) : text.content = value ∧ value ≠ [] := by
  rw [new] at h
  split at h
  · simp at h
  rename_i hne
  split at h
  · cases h
    exact ⟨rfl, hne⟩
  · simp at h

end Text

/-! ## Operation sets -/

/-- A set of operations, one bit each. -/
structure Operations where
  bits : UInt16
  defined : bits &&& ~~~(0x01FF : UInt16) = 0
deriving DecidableEq

namespace Operations

def none : Operations := ⟨0, by decide⟩
def read : Operations := ⟨(1 : UInt16) <<< 0, by decide⟩
def execute : Operations := ⟨(1 : UInt16) <<< 1, by decide⟩
def configure : Operations := ⟨(1 : UInt16) <<< 2, by decide⟩
def retire : Operations := ⟨(1 : UInt16) <<< 4, by decide⟩
def package : Operations := ⟨(1 : UInt16) <<< 5, by decide⟩
def display : Operations := ⟨(1 : UInt16) <<< 6, by decide⟩
def input : Operations := ⟨(1 : UInt16) <<< 7, by decide⟩
def network : Operations := ⟨(1 : UInt16) <<< 8, by decide⟩

theorem or_and_distrib (a b c : UInt16) : (a ||| b) &&& c = (a &&& c) ||| (b &&& c) := by
  apply UInt16.toBitVec_inj.mp
  ext i hi
  simp [Bool.and_or_distrib_right]

def union (a b : Operations) : Operations :=
  ⟨a.bits ||| b.bits, by
    rw [or_and_distrib, a.defined, b.defined]
    decide⟩

/-- Every operation of `b` is one of `a`. -/
def contains (a b : Operations) : Bool :=
  a.bits &&& b.bits == b.bits

def fromBits (bits : UInt16) : Option Operations :=
  if h : bits &&& ~~~(0x01FF : UInt16) = 0 then some ⟨bits, h⟩
  else Option.none

@[simp] theorem fromBits_bits (a : Operations) : fromBits a.bits = some a := by
  rw [fromBits, dif_pos a.defined]

variable {a b : Operations}

theorem contains_iff : a.contains b = true ↔ a.bits &&& b.bits = b.bits := by
  simp [contains]

@[simp] theorem contains_refl (a : Operations) : a.contains a = true := by
  simp [contains_iff]

theorem contains_trans {c : Operations}
    (hab : a.contains b = true) (hbc : b.contains c = true) : a.contains c = true := by
  rw [contains_iff] at hab hbc ⊢
  calc
    a.bits &&& c.bits = a.bits &&& (b.bits &&& c.bits) := by rw [hbc]
    _ = a.bits &&& b.bits &&& c.bits := (UInt16.and_assoc _ _ _).symm
    _ = c.bits := by rw [hab, hbc]

end Operations

/-! ## Form, Dimension and relationship records -/

inductive FormKind where
  | root
  | service
  | interface
  | package
  | driver
  | data
  | policy
  | executable
deriving DecidableEq

inductive Lifecycle where
  | active
  | retired
  | recoverable
  | removed
deriving DecidableEq

structure Form where
  fin : FormFin
  name : Text
  kind : FormKind
  revision : UInt32
  lifecycle : Lifecycle
deriving DecidableEq

variable {ε : Type}

/-- A new active Form at revision one.  A zero identity or an unusable name
fails an assertion. -/
def Form.new (fin : FormFin) (name : Bytes) (kind : FormKind) : Outcome ε Form :=
  if fin.isZero then
    .halt
  else
    match Text.new name with
    | .ok name => .done
        { fin, name, kind, revision := 1, lifecycle := .active }
    | .error _ => .halt

structure Dimension where
  fin : FormFin
  name : Text
  securityBoundary : Bool
deriving DecidableEq

/-- A new Dimension, with the assertions of `Form.new`. -/
def Dimension.new (fin : FormFin) (name : Bytes) (securityBoundary : Bool) : Outcome ε Dimension :=
  if fin.isZero then
    .halt
  else
    match Text.new name with
    | .ok name => .done { fin, name, securityBoundary }
    | .error _ => .halt

inductive RelationshipKind where
  | dependsOn
  | provides
  | contains
  | configuredBy
  | revises
deriving DecidableEq

structure Relationship where
  source : FormFin
  target : FormFin
  kind : RelationshipKind
  dimension : Option FormFin
deriving DecidableEq

inductive NetworkPolicy where
  | openAccess
  | restricted
  | disabled
deriving DecidableEq

variable {fin : FormFin} {name : Text}

theorem Form.new_eq (kind : FormKind) (hfin : fin.isZero = false)
    (hname : name.content ≠ []) : Form.new (ε := ε) fin name.content kind = .done
      { fin, name, kind, revision := 1, lifecycle := .active } := by
  simp [Form.new, hfin, Text.new_content hname]

theorem Dimension.new_eq
    (securityBoundary : Bool) (hfin : fin.isZero = false) (hname : name.content ≠ []) :
    Dimension.new (ε := ε) fin name.content securityBoundary =
      .done { fin, name, securityBoundary } := by
  simp [Dimension.new, hfin, Text.new_content hname]

end ExpOS
