import ExpOS.Core.Identity
import ExpOS.Support.Lineage

/-!
# The capability broker

One broker per CFC issues, narrows, restores and revokes Form Handles and
closes contexts against further issuance.  Every call is a `Mutator` of
the broker: a refused call keeps whatever state it had already changed, which
matters for the identifier counter.
-/

namespace ExpOS

def maxHandles : ℕ := 32
def maxSeals : ℕ := 16

inductive Authority where
  | operator
  | power
  | guest
deriving DecidableEq

structure FormHandle where
  id : UInt32
  parentId : UInt32
  cfc : CfcFin
  requester : FormFin
  target : FormFin
  dimension : FormFin
  operations : Operations
  validUntilTick : UInt64
  revoked : Bool
deriving DecidableEq

inductive CapabilityError where
  | denied
  | full
  | notFound
  | revoked
  | expired
  | wrongDimension
  | wrongCfc
  | operationDenied
  | amplification
  | isSealed
  | alreadySealed
  | sealTableFull
  | duplicate
deriving DecidableEq

/-- A monotonic ceiling over ambient capability issuance for one execution
context. -/
structure ExpSeal where
  cfc : CfcFin
  requester : FormFin
  dimension : FormFin
  rootHandleLimit : UInt32
deriving DecidableEq

structure CapabilityBroker where
  cfc : CfcFin
  handles : SlotTable FormHandle maxHandles
  seals : SlotTable ExpSeal maxSeals
  nextId : UInt32
deriving DecidableEq

namespace FormHandle

/-- The key of the parent; the source writes a root as parent zero. -/
def parentKey (handle : FormHandle) : Option UInt32 :=
  if handle.parentId = 0 then none else some handle.parentId

end FormHandle

namespace CapabilityBroker

/-- A fresh broker.  A zero CFC identity fails an assertion. -/
def new {ε : Type} (cfc : CfcFin) : Outcome ε CapabilityBroker :=
  if cfc.isZero then
    .halt
  else
    .done
      { cfc
        handles := SlotTable.empty FormHandle maxHandles
        seals := SlotTable.empty ExpSeal maxSeals
        nextId := 1 }

/-- The first stored Handle with the given identifier. -/
def find (b : CapabilityBroker) (id : UInt32) : Option FormHandle :=
  Lineage.lookup FormHandle.id b.handles.occupants id

/-! ## Authorization -/

def authorize (b : CapabilityBroker) (id : UInt32)
    (target dimension : FormFin) (operation : Operations)
    (tick : UInt64) : Except CapabilityError Unit :=
  match b.find id with
  | none => .error .notFound
  | some handle =>
    if handle.revoked then .error .revoked
    else if tick > handle.validUntilTick then .error .expired
    else if handle.target ≠ target ∨ handle.dimension ≠ dimension then
      .error .wrongDimension
    else if ¬ handle.operations.contains operation then
      .error .operationDenied
    else .ok ()

def authorizeIn (b : CapabilityBroker) (cfc : CfcFin) (id : UInt32)
    (target dimension : FormFin) (operation : Operations)
    (tick : UInt64) : Except CapabilityError Unit :=
  if cfc ≠ b.cfc then .error .wrongCfc
  else
    match b.find id with
    | none => .error .notFound
    | some handle =>
      if handle.cfc ≠ cfc then .error .wrongCfc
      else b.authorize id target dimension operation tick

def authorizeRequester (b : CapabilityBroker) (id : UInt32)
    (requester target dimension : FormFin) (operation : Operations)
    (tick : UInt64) : Except CapabilityError Unit :=
  match b.authorize id target dimension operation tick with
  | .error e => .error e
  | .ok () =>
    match b.find id with
    | none => .error .notFound
    | some handle =>
      if handle.requester ≠ requester then .error .denied
      else .ok ()

def findAuthorized (b : CapabilityBroker)
    (requester target dimension : FormFin) (operations : Operations)
    (tick : UInt64) : Option FormHandle :=
  b.handles.occupants.find? (fun handle =>
    handle.requester = requester ∧ b.authorizeRequester handle.id requester target dimension
        operations tick = .ok ())

/-! ## Seals -/

def sealOf (b : CapabilityBroker) (requester dimension : FormFin) : Option ExpSeal :=
  b.seals.occupants.find? (fun s =>
    s.requester = requester ∧ s.dimension = dimension)

def isSealed (b : CapabilityBroker) (requester dimension : FormFin) :
    Bool :=
  (b.sealOf requester dimension).isSome

/-- Close root issuance for a requester in one Dimension.  There is no
operation that opens it again. -/
def sealContext (requester dimension : FormFin) :
    Mutator CapabilityBroker CapabilityError ExpSeal := fun b =>
  if requester.isZero ∨ dimension.isZero then (.fail .denied, b)
  else if b.isSealed requester dimension then (.fail .alreadySealed, b)
  else
    match b.seals.freeIndex with
    | none => (.fail .sealTableFull, b)
    | some slot =>
      let s : ExpSeal :=
        { cfc := b.cfc
          requester
          dimension
          -- saturating subtraction
          rootHandleLimit := if b.nextId = 0 then 0 else b.nextId - 1 }
      (.done s, { b with seals := b.seals.put slot (some s) })

/-! ## Issuing, restoring and narrowing -/

/-- Try successive counter values until one is unused. -/
def allocateIdLoop : ℕ → Mutator CapabilityBroker CapabilityError UInt32
  | 0, b => (.fail .full, b)
  | fuel + 1, b =>
    let candidate := max b.nextId 1
    let b' := { b with nextId := max (candidate + 1) 1 }
    if b.handles.occupants.any (·.id = candidate) then
      allocateIdLoop fuel b'
    else
      (.done candidate, b')

def allocateId : Mutator CapabilityBroker CapabilityError UInt32 :=
  allocateIdLoop (maxHandles + 1)

/-- Which operation sets an authority may issue. -/
def permitted : Authority → Operations → Bool
  | .operator, _ => true
  | .power, operations =>
    !operations.contains Operations.retire &&
      !operations.contains Operations.configure
  | .guest, operations =>
    operations.bits != 0 && Operations.read.contains operations

/-- Store a Handle under a newly allocated identifier in the given cell. -/
def publish (slot : ℕ) (handle : UInt32 → FormHandle) :
    Mutator CapabilityBroker CapabilityError FormHandle := fun b =>
  match allocateId b with
  | (.done id, b') =>
    (.done (handle id),
      { b' with handles := b'.handles.put slot (some (handle id)) })
  | (.fail e, b') => (.fail e, b')
  | (.halt, b') => (.halt, b')

def issueFor (requester : FormFin) (authority : Authority)
    (target dimension : FormFin) (operations : Operations) (validUntilTick : UInt64) :
    Mutator CapabilityBroker CapabilityError FormHandle := fun b =>
  if b.isSealed requester dimension then (.fail .isSealed, b)
  else if ¬ permitted authority operations ∨ requester.isZero ∨
      operations = Operations.none ∨ target.isZero ∨ dimension.isZero then
    (.fail .denied, b)
  else
    match b.handles.freeIndex with
    | none => (.fail .full, b)
    | some slot =>
      publish slot (fun id =>
        { id, parentId := 0, cfc := b.cfc, requester, target, dimension,
          operations, validUntilTick, revoked := false }) b

/-- Derive a narrower Handle without consulting ambient authority. -/
def delegate (parentId : UInt32) (requester : FormFin)
    (operations : Operations) (validUntilTick tick : UInt64) :
    Mutator CapabilityBroker CapabilityError FormHandle := fun b =>
  match b.find parentId with
  | none => (.fail .notFound, b)
  | some parent =>
    if b.isSealed requester parent.dimension ∧ requester ≠ parent.requester then
      (.fail .isSealed, b)
    else
      match b.authorize parent.id parent.target parent.dimension
          operations tick with
      | .error e => (.fail e, b)
      | .ok () =>
        if requester.isZero ∨ operations = Operations.none ∨
            ¬ parent.operations.contains operations ∨ validUntilTick > parent.validUntilTick ∨
            (operations = parent.operations ∧ validUntilTick = parent.validUntilTick) then
          (.fail .amplification, b)
        else
          match b.handles.freeIndex with
          | none => (.fail .full, b)
          | some slot =>
            publish slot (fun id =>
              { id, parentId := parent.id, cfc := b.cfc, requester,
                target := parent.target
                dimension := parent.dimension
                operations, validUntilTick, revoked := false }) b

/-- The attenuation rule a persisted child is held to. -/
def checkParent (b : CapabilityBroker) (handle : FormHandle) : Except CapabilityError Unit :=
  if handle.parentId = 0 then .ok ()
  else
    match b.find handle.parentId with
    | none => .error .notFound
    | some parent =>
      if parent.cfc ≠ handle.cfc ∨ parent.target ≠ handle.target ∨
          parent.dimension ≠ handle.dimension ∨ parent.revoked ∨
          ¬ parent.operations.contains handle.operations ∨
          handle.validUntilTick > parent.validUntilTick then
        .error .amplification
      else if handle.operations = parent.operations ∧
          handle.validUntilTick = parent.validUntilTick then
        .error .amplification
      else .ok ()

/-- Restore a Handle from a persisted capability record. -/
def restore (handle : FormHandle) : Mutator CapabilityBroker CapabilityError Unit := fun b =>
  if handle.cfc ≠ b.cfc then (.fail .wrongCfc, b)
  else if handle.id = 0 ∨ handle.requester.isZero ∨ handle.target.isZero ∨ handle.dimension.isZero ∨
      handle.operations = Operations.none then
    (.fail .denied, b)
  else if b.handles.occupants.any (·.id = handle.id) then
    (.fail .duplicate, b)
  else
    match b.checkParent handle with
    | .error e => (.fail e, b)
    | .ok () =>
      match b.handles.freeIndex with
      | none => (.fail .full, b)
      | some slot =>
        (.done (),
          { b with
            handles := b.handles.put slot (some handle)
            nextId :=
              if handle.id = 0xFFFFFFFF then max b.nextId 1
              else max b.nextId (handle.id + 1) })

/-! ## Revocation -/

/-- The condition under which one pass of `revoke` flips a Handle, read from
the table as it stood before the pass. -/
def revokeFlag (id : UInt32) (handles : List FormHandle) (handle : FormHandle) : Bool :=
  let parentRevoked := handle.parentId != 0 &&
    handles.any (fun parent => parent.id == handle.parentId &&
      parent.revoked)
  (handle.id == id || parentRevoked) && !handle.revoked

def markRevoked (handle : FormHandle) : FormHandle :=
  { handle with revoked := true }

/-- Revoke a Handle and, pass by pass, everything below it.  The loop of the
source is given one pass for each cell and one more. -/
def revoke (id : UInt32) : Mutator CapabilityBroker CapabilityError Unit := fun b =>
  if ¬ b.handles.occupants.any (·.id = id) then (.fail .notFound, b)
  else
    match Lineage.sweepLoop (revokeFlag id) markRevoked
        (maxHandles + 1) b.handles with
    | some handles => (.done (), { b with handles })
    | none => (.halt, b)

/-! ## Runs -/

/-- One call on the broker with arbitrary arguments. -/
inductive Call where
  | issueFor (requester : FormFin) (authority : Authority)
      (target dimension : FormFin) (operations : Operations)
      (validUntilTick : UInt64)
  | delegate (parentId : UInt32) (requester : FormFin)
      (operations : Operations) (validUntilTick tick : UInt64)
  | restore (handle : FormHandle)
  | revoke (id : UInt32)
  | sealContext (requester dimension : FormFin)

/-- The broker after a call, whether the call succeeded or not. -/
def after (b : CapabilityBroker) : Call → CapabilityBroker
  | .issueFor requester authority target dimension operations valid =>
    (issueFor requester authority target dimension operations valid b).2
  | .delegate parentId requester operations valid tick =>
    (delegate parentId requester operations valid tick b).2
  | .restore handle => (restore handle b).2
  | .revoke id => (revoke id b).2
  | .sealContext requester dimension =>
    (sealContext requester dimension b).2

/-- The broker after a sequence of calls. -/
def run (b : CapabilityBroker) (calls : List Call) : CapabilityBroker :=
  calls.foldl after b

/-- Brokers reachable from a fresh one. -/
def Reachable (b : CapabilityBroker) : Prop :=
  ∃ cfc b₀ calls, new (ε := Empty) cfc = .done b₀ ∧ b = b₀.run calls

end CapabilityBroker

end ExpOS
