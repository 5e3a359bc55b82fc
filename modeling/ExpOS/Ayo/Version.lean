import ExpOS.Ayo.Text

/-!
# Versions and constraints

A version has up to three numbers; a constraint compares it with another one.
A dependency names a Package Form and a constraint on its version.
-/

namespace ExpOS.Ayo

structure Version where
  major : ℕ
  minor : ℕ
  patch : ℕ
deriving DecidableEq

inductive Operator where
  | atLeast
  | atMost
  | above
  | below
  | caret
  | exactly
deriving DecidableEq

/-- The operators in the order in which they are tried. -/
def operators : List (Text × Operator) :=
  [(text ">=", .atLeast), (text "<=", .atMost), (text ">", .above),
    (text "<", .below), (text "^", .caret), (text "=", .exactly)]

def compareVersion (left right : Version) : Ordering :=
  (compare left.major right.major).then
    ((compare left.minor right.minor).then (compare left.patch right.patch))

/-- The numbers of a version; missing ones are zero. -/
def versionNumbers (clean : Text) : Option Version := do
  let numbers ← (clean.splitOn '.').mapM fun part => do
    let value ← atoi part
    if value < 0 then none else some value.toNat
  match numbers with
  | [major] => some ⟨major, 0, 0⟩
  | [major, minor] => some ⟨major, minor, 0⟩
  | [major, minor, patch] => some ⟨major, minor, patch⟩
  | _ => none

/-- The text without a leading `v`. -/
def dropV : Text → Text
  | 'v' :: rest => rest
  | s => s

section Library

variable [TextLibrary]

def parseVersion (raw : Text) : Except Text Version :=
  match versionNumbers (dropV (cut '-' (trim raw)).1) with
  | some version => .ok version
  | none => .error (text "invalid version " ++ TextLibrary.quote raw)

/-- The comparison an operator asks for. -/
def Operator.holds (op : Operator) (actual wanted : Version) : Bool :=
  match op with
  | .atLeast => compareVersion actual wanted != .lt
  | .atMost => compareVersion actual wanted != .gt
  | .above => compareVersion actual wanted == .gt
  | .below => compareVersion actual wanted == .lt
  | .caret =>
    compareVersion actual wanted != .lt && actual.major == wanted.major
  | .exactly => compareVersion actual wanted == .eq

/-- The operator of a constraint and the version it compares with. -/
def splitConstraint (constraint : Text) : Operator × Text :=
  match operators.find? fun candidate =>
      startsWith constraint candidate.1 with
  | some (spelling, op) => (op, trim (constraint.drop spelling.length))
  | none => (.exactly, constraint)

def satisfies (version constraint : Text) : Except Text Bool :=
  if constraint = [] ∨ constraint = text "*" then do
    let _ ← parseVersion version
    pure true
  else do
    let (op, wanted) := splitConstraint constraint
    let actualParts ← parseVersion version
    let wantedParts ← parseVersion wanted
    pure (op.holds actualParts wantedParts)

/-- The name and the constraint of a dependency. -/
def parseDependency (raw : Text) : Except Text (Text × Text) :=
  let declared := trim raw
  if declared = [] then .error (text "empty dependency declaration")
  else
    let (name, rest) := cut '@' declared
    let constraint := (rest.map trim).getD (text "*")
    if name = [] ∨ constraint = [] then
      .error (text "invalid dependency " ++ TextLibrary.quote declared)
    else .ok (name, constraint)

end Library

end ExpOS.Ayo
