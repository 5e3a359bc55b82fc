import ExpOS.Core.Identity
import ExpOS.Support.Chars
import Mathlib.Data.List.Nodup
import Mathlib.Data.List.Perm.Subperm

/-!
# PIMP policy specifications

A policy specification sets some of five keys for a Form, at one of five
scopes and optionally for one Dimension only.  Its text has one `key=value`
line for each key; empty lines and lines that start with `#` are skipped.

The entries of a specification are private in the source and only `parse`
fills them, so a specification carries what `parse` establishes: it sets at
least one key, none twice, and each to a value of the key's kind.
-/

namespace ExpOS

inductive PimpScope where
  | builtIn
  | system
  | subsystem
  | dimension
  | form
deriving DecidableEq

namespace PimpScope

/-- The position of a scope in the order the source derives. -/
def level : PimpScope → ℕ
  | builtIn => 0
  | system => 1
  | subsystem => 2
  | dimension => 3
  | form => 4

theorem level_injective : Function.Injective level := by
  intro a b h
  cases a <;> cases b <;> first | rfl | cases h

instance : LinearOrder PimpScope :=
  LinearOrder.lift' level level_injective

end PimpScope

inductive SpecKey where
  | use
  | backend
  | network
  | debug
  | isolation
deriving DecidableEq

inductive PimpValue where
  | enabled (flag : Bool)
  | network (policy : NetworkPolicy)
  | name (text : Text)
deriving DecidableEq

/-- The value is of the kind its key takes. -/
def PimpValue.suits : PimpValue → SpecKey → Bool
  | .name _, .use | .name _, .backend => true
  | .network _, .network => true
  | .enabled _, .debug | .enabled _, .isolation => true
  | _, _ => false

structure PimpEntry where
  key : SpecKey
  value : PimpValue
deriving DecidableEq

inductive PimpParseError where
  | empty
  | malformedLine
  | unknownKey
  | invalidValue
  | duplicateKey
  | tooManyEntries
deriving DecidableEq

def maxEntries : ℕ := 8

/-- The entries read so far. -/
structure PimpEntries where
  list : List PimpEntry
  distinct : (list.map PimpEntry.key).Nodup
  suited : ∀ entry ∈ list, entry.value.suits entry.key = true
deriving DecidableEq

namespace PimpEntries

def none : PimpEntries := ⟨[], by simp, by simp⟩

end PimpEntries

structure PimpSpec where
  scope : PimpScope
  target : FormFin
  dimension : Option FormFin
  entries : PimpEntries
  nonempty : entries.list ≠ []
deriving DecidableEq

/-! ## Parsing -/

/-- The key a line names. -/
def parseKey (text : List Char) : Except PimpParseError SpecKey :=
  if text = "use".toList then .ok .use
  else if text = "backend".toList then .ok .backend
  else if text = "network".toList then .ok .network
  else if text = "debug".toList then .ok .debug
  else if text = "isolation".toList then .ok .isolation
  else .error .unknownKey

def parseEnabled (text : List Char) : Except PimpParseError PimpValue :=
  if text = "enabled".toList ∨ text = "true".toList then
    .ok (.enabled true)
  else if text = "disabled".toList ∨ text = "false".toList then
    .ok (.enabled false)
  else
    .error .invalidValue

def parseNetwork (text : List Char) : Except PimpParseError PimpValue :=
  if text = "open".toList then .ok (.network .openAccess)
  else if text = "restricted".toList then .ok (.network .restricted)
  else if text = "disabled".toList then .ok (.network .disabled)
  else .error .invalidValue

def parseName (text : List Char) : Except PimpParseError PimpValue :=
  match Text.new (utf8 text) with
  | .ok name => .ok (.name name)
  | .error _ => .error .invalidValue

def parseValue (key : SpecKey) (text : List Char) : Except PimpParseError PimpValue :=
  match key with
  | .debug | .isolation => parseEnabled text
  | .network => parseNetwork text
  | .use | .backend => parseName text

variable {text : List Char} {value : PimpValue}

theorem parseEnabled_suits (h : parseEnabled text = .ok value) : ∃ flag, value = .enabled flag := by
  unfold parseEnabled at h
  split at h
  · exact ⟨true, (Except.ok.inj h).symm⟩
  · split at h
    · exact ⟨false, (Except.ok.inj h).symm⟩
    · cases h

theorem parseNetwork_suits (h : parseNetwork text = .ok value) :
    ∃ policy, value = .network policy := by
  unfold parseNetwork at h
  split at h
  · exact ⟨_, (Except.ok.inj h).symm⟩
  split at h
  · exact ⟨_, (Except.ok.inj h).symm⟩
  · split at h
    · exact ⟨_, (Except.ok.inj h).symm⟩
    · cases h

theorem parseName_suits (h : parseName text = .ok value) : ∃ name, value = .name name := by
  unfold parseName at h
  split at h
  · exact ⟨_, (Except.ok.inj h).symm⟩
  · cases h

/-- A value that is read is of the kind its key takes. -/
theorem parseValue_suits {key : SpecKey} (h : parseValue key text = .ok value) :
    value.suits key = true := by
  cases key with
  | use =>
    obtain ⟨name, rfl⟩ := parseName_suits h
    rfl
  | backend =>
    obtain ⟨name, rfl⟩ := parseName_suits h
    rfl
  | network =>
    obtain ⟨policy, rfl⟩ := parseNetwork_suits h
    rfl
  | debug =>
    obtain ⟨flag, rfl⟩ := parseEnabled_suits h
    rfl
  | isolation =>
    obtain ⟨flag, rfl⟩ := parseEnabled_suits h
    rfl

/-- Store the value of a key that is not set yet. -/
def addEntry (entries : PimpEntries) (key : SpecKey)
    (hfresh : ¬ entries.list.any (·.key == key)) (text : List Char) :
    Except PimpParseError PimpEntries :=
  match hvalue : parseValue key text with
  | .error failure => .error failure
  | .ok value =>
    if maxEntries ≤ entries.list.length then .error .tooManyEntries
    else .ok
      { list := entries.list ++ [⟨key, value⟩]
        distinct := by
          rw [List.map_append, List.nodup_append]
          refine ⟨entries.distinct, by simp, ?_⟩
          intro k hk k' hk'
          obtain ⟨entry, hentry, rfl⟩ := List.mem_map.mp hk
          rw [List.map_singleton, List.mem_singleton] at hk'
          rintro rfl
          refine hfresh (List.any_eq_true.mpr ⟨entry, hentry, ?_⟩)
          rw [hk']
          exact beq_self_eq_true key
        suited := by
          intro entry hentry
          rcases List.mem_append.mp hentry with hentry | hentry
          · exact entries.suited entry hentry
          · rw [List.mem_singleton.mp hentry]
            exact parseValue_suits hvalue }

/-- Read one line. -/
def parseLine (entries : PimpEntries) (rawLine : List Char) : Except PimpParseError PimpEntries :=
  let line := trim rawLine
  if line = [] ∨ line.head? = some '#' then .ok entries
  else
    match splitOnce '=' line with
    | none => .error .malformedLine
    | some (rawKey, rawValue) =>
      match parseKey (trim rawKey) with
      | .error failure => .error failure
      | .ok key =>
        if hseen : entries.list.any (·.key == key) then
          .error .duplicateKey
        else
          addEntry entries key hseen (trim rawValue)

def PimpSpec.parse (scope : PimpScope) (target : FormFin)
    (dimension : Option FormFin) (source : List Char) : Except PimpParseError PimpSpec :=
  match (lines source).foldlM parseLine PimpEntries.none with
  | .error failure => .error failure
  | .ok entries =>
    if hempty : entries.list = [] then .error .empty
    else .ok ⟨scope, target, dimension, entries, hempty⟩

end ExpOS
