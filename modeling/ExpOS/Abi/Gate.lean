import ExpOS.Capability.Attenuation

/-!
# The native call gate of Form ABI v1

A request is a record of raw words.  The gate validates it, derives the
operation its call number requires, and asks the broker twice: once for the
CFC, target, Dimension and operation of the Handle, once for its requester.
Only then does it run the service.

The service is an arbitrary computation in an arbitrary monad, so a reply that
is `pure` was produced without running it.
-/

namespace ExpOS

def formAbiVersion : UInt16 := 1

inductive AbiCall where
  | log
  | formResolve
  | handleAuthorize
  | timeNow
  | ipcSend
  | ipcReceive
  | executionYield
  | executionExit
  | surfaceCreate
  | bufferAttach
  | surfaceDamage
  | surfaceCommit
  | eventPoll
  | browserNavigate
  | storageRead
  | storageWrite
  | networkSend
  | networkReceive
  | packageTransaction
deriving DecidableEq

namespace AbiCall

def fromRaw (value : UInt16) : Option AbiCall :=
  match value.toNat with
  | 1 => some .log
  | 2 => some .formResolve
  | 3 => some .handleAuthorize
  | 4 => some .timeNow
  | 5 => some .ipcSend
  | 6 => some .ipcReceive
  | 7 => some .executionYield
  | 8 => some .executionExit
  | 16 => some .surfaceCreate
  | 17 => some .bufferAttach
  | 18 => some .surfaceDamage
  | 19 => some .surfaceCommit
  | 20 => some .eventPoll
  | 32 => some .browserNavigate
  | 33 => some .storageRead
  | 34 => some .storageWrite
  | 35 => some .networkSend
  | 36 => some .networkReceive
  | 48 => some .packageTransaction
  | _ => none

/-- The operation a Handle must grant for the call. -/
def operation : AbiCall → Operations
  | .log | .formResolve | .timeNow => Operations.read
  | .eventPoll => Operations.input
  | .handleAuthorize | .ipcSend | .ipcReceive | .executionYield
  | .executionExit => Operations.execute
  | .surfaceCreate | .bufferAttach | .surfaceDamage
  | .surfaceCommit => Operations.display
  | .browserNavigate => Operations.execute
  | .storageRead => Operations.read
  | .storageWrite => Operations.configure
  | .networkSend | .networkReceive => Operations.network
  | .packageTransaction => Operations.package

end AbiCall

inductive AbiStatus where
  | ok
  | invalid
  | denied
  | unsupported
  | wouldBlock
deriving DecidableEq

def AbiStatus.raw : AbiStatus → UInt16
  | .ok => 0
  | .invalid => 1
  | .denied => 2
  | .unsupported => 3
  | .wouldBlock => 4

structure AbiRequest where
  version : UInt16
  /-- Kept raw: an unknown number is data, not an invalid call. -/
  call : UInt16
  caller : FormFin
  handleId : UInt32
  arguments : Vector UInt64 6

structure AbiResponse where
  /-- Kept raw, as the call number is. -/
  status : UInt16
  values : Vector UInt64 4

namespace AbiResponse

/-- The reply that carries a status and nothing else. -/
def ofStatus (status : AbiStatus) : AbiResponse :=
  { status := status.raw, values := Vector.replicate 4 0 }

end AbiResponse

/-- The operation the request needs, or the status it is refused with. -/
def AbiRequest.validate (request : AbiRequest) : Except AbiStatus Operations :=
  if request.version ≠ formAbiVersion ∨ request.caller.isZero then
    .error .invalid
  else
    match AbiCall.fromRaw request.call with
    | none => .error .unsupported
    | some call =>
      if request.handleId = 0 ∧ call ≠ .log then .error .denied
      else .ok call.operation

structure NativeCallGate where
  broker : CapabilityBroker
  cfc : CfcFin
  target : FormFin
  dimension : FormFin

namespace NativeCallGate

variable {m : Type → Type} [Monad m]

def dispatch (gate : NativeCallGate) (request : AbiRequest) (tick : UInt64)
    (service : AbiCall → Vector UInt64 6 → m AbiResponse) : m AbiResponse :=
  match request.validate with
  | .error status => pure (.ofStatus status)
  | .ok operation =>
    if gate.cfc.isZero ∨ gate.target.isZero ∨ gate.dimension.isZero then
      pure (.ofStatus .invalid)
    else if gate.broker.authorizeIn gate.cfc request.handleId
          gate.target gate.dimension operation tick ≠ .ok () ∨
        gate.broker.authorizeRequester request.handleId request.caller
          gate.target gate.dimension operation tick ≠ .ok () then
      pure (.ofStatus .denied)
    else
      match AbiCall.fromRaw request.call with
      | none => pure (.ofStatus .unsupported)
      | some call => service call request.arguments

/-- What the gate establishes before it runs the service for `call`. -/
structure Admits (gate : NativeCallGate) (request : AbiRequest)
    (tick : UInt64) (call : AbiCall) : Prop where
  version : request.version = formAbiVersion
  caller : request.caller ≠ FormFin.zero
  number : AbiCall.fromRaw request.call = some call
  bound : gate.cfc ≠ CfcFin.zero ∧ gate.target ≠ FormFin.zero ∧ gate.dimension ≠ FormFin.zero
  handle : ∃ h ∈ gate.broker.handles.occupants, h.id = request.handleId ∧ h.revoked = false ∧
    tick ≤ h.validUntilTick ∧ h.cfc = gate.cfc ∧
    gate.broker.cfc = gate.cfc ∧ h.requester = request.caller ∧
    h.target = gate.target ∧ h.dimension = gate.dimension ∧
    h.operations.contains call.operation = true

end NativeCallGate

variable {request : AbiRequest}

theorem AbiRequest.validate_eq_ok {operation : Operations} : request.validate = .ok operation ↔
      request.version = formAbiVersion ∧ request.caller ≠ .zero ∧
      ∃ call, AbiCall.fromRaw request.call = some call ∧ (request.handleId = 0 → call = .log) ∧
        operation = call.operation := by
  rw [validate, ne_eq request.caller, ← FormFin.isZero_iff]
  by_cases hversion : request.version = formAbiVersion
  · by_cases hcaller : request.caller.isZero = true
    · simp [hcaller]
    cases AbiCall.fromRaw request.call with
    | none => simp [hversion, hcaller]
    | some call =>
      by_cases hid : request.handleId = 0 ∧ call ≠ .log
      · simp [hversion, hcaller, hid]
      have hlog : request.handleId = 0 → call = .log := by
        simpa using hid
      simp only [hversion, hcaller, if_neg hid, ne_eq,
        not_true_eq_false, false_or, if_false, true_and,
        not_false_eq_true, Except.ok.injEq, Option.some.injEq,
        Bool.false_eq_true, exists_eq_left']
      exact ⟨fun h => ⟨hlog, h.symm⟩, fun h => h.2.symm⟩
  · simp [hversion]

theorem AbiRequest.validate_ne_ok
    {status : AbiStatus} (h : request.validate = .error status) : status ≠ .ok := by
  rw [validate] at h
  split at h
  · cases h
    decide
  split at h
  · cases h
    decide
  split at h
  · cases h
    decide
  · cases h

namespace CapabilityBroker

/-- The two questions the gate asks the broker, as one fact about the
stored Handle. -/
theorem WellFormed.authorize_gate {b : CapabilityBroker}
    (hb : b.WellFormed) {cfc : CfcFin} {id : UInt32}
    {requester target dimension : FormFin} {operation : Operations}
    {tick : UInt64} : b.authorizeIn cfc id target dimension operation tick = .ok () ∧
      b.authorizeRequester id requester target dimension operation tick = .ok () ↔
    ∃ h ∈ b.handles.occupants, h.id = id ∧ h.revoked = false ∧
      tick ≤ h.validUntilTick ∧ h.cfc = cfc ∧ b.cfc = cfc ∧
      h.requester = requester ∧ h.target = target ∧ h.dimension = dimension ∧
      h.operations.contains operation = true := by
  rw [authorizeIn_eq_ok, authorizeRequester_eq_ok, authorize_eq_ok]
  constructor
  · rintro ⟨⟨hcfc, ⟨h, hfind, hhcfc⟩, m, hm, hlive, htick, ht, hd, ho⟩, -, n, hn, hholder⟩
    obtain rfl : h = m := Option.some.inj (hfind.symm.trans hm)
    obtain rfl : h = n := Option.some.inj (hfind.symm.trans hn)
    obtain ⟨hmem, hid⟩ := find_eq_some hfind
    exact ⟨h, hmem, hid, hlive, htick, hhcfc, hcfc, hholder, ht, hd, ho⟩
  · rintro ⟨h, hmem, rfl, hlive, htick, hhcfc, hcfc, hholder, ht, hd, ho⟩
    have hfind : b.find h.id = some h := hb.grown.lookup_key hmem
    have hok := And.intro hfind (And.intro hlive (And.intro htick (And.intro ht (And.intro hd ho))))
    exact ⟨⟨hcfc, ⟨h, hfind, hhcfc⟩, h, hok⟩, ⟨h, hok⟩, h, hfind, hholder⟩

end CapabilityBroker

namespace NativeCallGate

variable {m : Type → Type} [Monad m] {gate : NativeCallGate} {tick : UInt64}

/-- An admitted request runs the service for its call. -/
theorem Admits.dispatch_eq (hb : gate.broker.Reachable)
    {call : AbiCall} (h : gate.Admits request tick call)
    (service : AbiCall → Vector UInt64 6 → m AbiResponse) : gate.dispatch request tick service =
      service call request.arguments := by
  have hwf := hb.wellFormed
  obtain ⟨hm, hmem, hid, -⟩ := h.handle
  have hvalid : request.validate = .ok call.operation := by
    refine AbiRequest.validate_eq_ok.mpr ⟨h.version, h.caller, call, h.number, ?_, rfl⟩
    intro hzero
    exact absurd (hid.trans hzero) (hwf.id_ne_zero hm hmem)
  obtain ⟨hin, hreq⟩ := hwf.authorize_gate.mpr h.handle
  have hbound : ¬ (gate.cfc.isZero = true ∨ gate.target.isZero = true ∨
      gate.dimension.isZero = true) := by
    rw [CfcFin.isZero_iff, FormFin.isZero_iff, FormFin.isZero_iff]
    obtain ⟨h₁, h₂, h₃⟩ := h.bound
    simp [h₁, h₂, h₃]
  simp only [dispatch, hvalid, if_neg hbound, hin, hreq, h.number]
  simp

/-- The reply to a request that is not admitted is an error status with
zero values, whatever the service. -/
theorem dispatch_of_not_admits (hb : gate.broker.Reachable)
    (h : ∀ call, ¬ gate.Admits request tick call) : ∃ status, status ≠ AbiStatus.ok ∧
      ∀ service : AbiCall → Vector UInt64 6 → m AbiResponse, gate.dispatch request tick service =
          pure (.ofStatus status) := by
  cases hvalid : request.validate with
  | error status =>
    refine ⟨status, AbiRequest.validate_ne_ok hvalid, ?_⟩
    intro service
    rw [dispatch, hvalid]
  | ok operation =>
    by_cases hbound : gate.cfc.isZero = true ∨
        gate.target.isZero = true ∨ gate.dimension.isZero = true
    · refine ⟨.invalid, by decide, ?_⟩
      intro service
      simp only [dispatch, hvalid, if_pos hbound]
    refine ⟨.denied, by decide, ?_⟩
    intro service
    have hdenied : gate.broker.authorizeIn gate.cfc request.handleId
          gate.target gate.dimension operation tick ≠ .ok () ∨
        gate.broker.authorizeRequester request.handleId
          request.caller gate.target gate.dimension operation tick ≠ .ok () := by
      by_contra hok
      rw [not_or, not_not, not_not] at hok
      obtain ⟨hversion, hcaller, call, hnumber, -, rfl⟩ := AbiRequest.validate_eq_ok.mp hvalid
      rw [CfcFin.isZero_iff, FormFin.isZero_iff, FormFin.isZero_iff, not_or, not_or] at hbound
      exact h call ⟨hversion, hcaller, hnumber, hbound, hb.wellFormed.authorize_gate.mp hok⟩
    simp only [dispatch, hvalid, if_neg hbound, if_pos hdenied]

/-- The gate runs the service exactly for the requests it admits: a valid
version and call number, a nonzero caller, and a live Handle of the gate's
CFC, target and Dimension that was issued to that caller and covers the call.
Every other request is answered without the service, by an error status and
zero values. -/
theorem dispatch_runs_iff_admits (gate : NativeCallGate)
    (hb : gate.broker.Reachable) (request : AbiRequest) (tick : UInt64) :
    (∃ call, gate.Admits request tick call ∧ ∀ service : AbiCall → Vector UInt64 6 → m AbiResponse,
        gate.dispatch request tick service = service call request.arguments) ∨
    ((∀ call, ¬ gate.Admits request tick call) ∧ ∃ status, status ≠ AbiStatus.ok ∧
        ∀ service : AbiCall → Vector UInt64 6 → m AbiResponse, gate.dispatch request tick service =
            pure { status := status.raw
                   values := Vector.replicate 4 0 }) := by
  by_cases h : ∃ call, gate.Admits request tick call
  · obtain ⟨call, hcall⟩ := h
    exact .inl ⟨call, hcall, hcall.dispatch_eq hb⟩
  · rw [not_exists] at h
    exact .inr ⟨h, dispatch_of_not_admits hb h⟩

open CapabilityBroker

/-- A gate onto the sample broker, for the Handle delegated to Form 5. -/
def delegatedGate : NativeCallGate :=
  { broker := delegatedBroker
    cfc := CfcFin.fromU128 1
    target := FormFin.fromU128 3
    dimension := FormFin.fromU128 4 }

def timeRequest : AbiRequest :=
  { version := formAbiVersion
    call := 4
    caller := FormFin.fromU128 5
    handleId := 2
    arguments := Vector.replicate 6 0 }

theorem delegatedGate_dispatch : delegatedGate.broker.Reachable ∧
    ∀ service : AbiCall → Vector UInt64 6 → Id AbiResponse,
      delegatedGate.dispatch timeRequest 20 service = service .timeNow (Vector.replicate 6 0) := by
  refine ⟨delegatedBroker_reachable, ?_⟩
  rcases dispatch_runs_iff_admits (m := Id) delegatedGate
    delegatedBroker_reachable timeRequest 20 with h | ⟨hnone, -⟩
  · obtain ⟨call, hcall, hrun⟩ := h
    obtain rfl : AbiCall.timeNow = call := Option.some.inj hcall.number
    exact hrun
  · refine absurd ?_ (hnone .timeNow)
    exact ⟨rfl, by decide, rfl, by decide, delegatedHandle, by decide, by decide⟩

/-- The gate has no notion of one admitted Form.  It runs the service for any
caller that owns the Handle it presents, here Form 5, although Form 2 might be
the one expected. -/
theorem dispatch_ignores_expected_caller :
    ∃ (gate : NativeCallGate) (request : AbiRequest) (tick : UInt64) (expected : FormFin),
      gate.broker.Reachable ∧ request.caller ≠ expected ∧
      ∀ service : AbiCall → Vector UInt64 6 → Id AbiResponse, gate.dispatch request tick service =
          service .timeNow request.arguments := by
  refine ⟨delegatedGate, timeRequest, 20, FormFin.fromU128 2,
    delegatedBroker_reachable, by decide, ?_⟩
  have hadmits : delegatedGate.Admits timeRequest 20 .timeNow :=
    ⟨rfl, by decide, rfl, by decide, delegatedHandle, by decide, by decide⟩
  exact hadmits.dispatch_eq delegatedBroker_reachable

end NativeCallGate

end ExpOS
