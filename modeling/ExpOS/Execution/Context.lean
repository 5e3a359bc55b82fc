import ExpOS.Capability.Broker
import ExpOS.Execution.Budget

/-!
# Execution contexts and the scheduler

A context is one Form prepared to run in one Dimension of a CFC.  The
scheduler keeps eight contexts and remembers which of them has the processor.
A context is found by its number; its own state and the scheduler's current
slot are separate data.
-/

namespace ExpOS

def maxExecutionContexts : ℕ := 8
def maxContextHandles : ℕ := 16
def maxContextEvents : ℕ := 16
def maxContextMessages : ℕ := 8
def ipcInlineBytes : ℕ := 64

structure ExecutionIdentity where
  cfc : CfcFin
  dimension : FormFin
  form : FormFin
deriving DecidableEq

def ExecutionIdentity.isValid (identity : ExecutionIdentity) : Bool :=
  !identity.cfc.isZero && !identity.dimension.isZero &&
    !identity.form.isZero

structure AddressSpace where
  root : UInt64
  lowerBound : UInt64
  upperBound : UInt64

def AddressSpace.kernelBootstrap : AddressSpace where
  root := 0
  lowerBound := 0
  upperBound := UInt64.ofNat (2 ^ 64 - 1)

structure CpuState where
  instructionPointer : UInt64
  stackPointer : UInt64
  flags : UInt64
  accumulator : UInt64

def CpuState.default : CpuState := ⟨0, 0, 0, 0⟩

structure ExecutionEvent where
  source : FormFin
  code : UInt32
  value : UInt64

/-- A message.  The source stores a zero-padded buffer and a length; only the
occupied part is kept here. -/
structure IpcMessage where
  source : FormFin
  correlation : UInt64
  streamId : UInt32
  payload : Bytes
  length_le : payload.length ≤ ipcInlineBytes

structure ContextHeap where
  base : UInt64
  reservedPages : UInt32
  committedPages : UInt32
  guardPages : UInt8

inductive ExecutionState where
  | ready
  | running
  | paused
  | waiting
  | budgetBlocked
  | exited
  | terminated
deriving DecidableEq

inductive ExecutionRuntime where
  | kernelNative
  | expPython
  | nativeForm
deriving DecidableEq

inductive ExecutionError where
  | invalidIdentity
  | invalidAddressSpace
  | duplicateContext
  | contextTableFull
  | unknownContext
  | handleSetFull
  | duplicateHandle
  | foreignHandle
  | eventQueueFull
  | messageQueueFull
  | invalidMessage
  | heapLimit
  | budgetDenied
  | notRunnable
deriving DecidableEq

structure ExecutionContext where
  id : UInt32
  identity : ExecutionIdentity
  addressSpace : AddressSpace
  handles : SlotTable FormHandle maxContextHandles
  events : SlotTable ExecutionEvent maxContextEvents
  eventHead : ℕ
  eventLen : ℕ
  messages : SlotTable IpcMessage maxContextMessages
  messageHead : ℕ
  messageLen : ℕ
  heap : Option ContextHeap
  budget : ExpBudget ExecutionIdentity
  cpu : CpuState
  runtime : ExecutionRuntime
  state : ExecutionState
  dispatches : UInt64
  preemptions : UInt64
  cpuTicks : UInt64

namespace ExecutionContext

/-- A context before it is admitted. -/
def prepared (identity : ExecutionIdentity) (addressSpace : AddressSpace)
    (budgetCeiling : UInt64) : ExecutionContext where
  id := 0
  identity
  addressSpace
  handles := SlotTable.empty _ _
  events := SlotTable.empty _ _
  eventHead := 0
  eventLen := 0
  messages := SlotTable.empty _ _
  messageHead := 0
  messageLen := 0
  heap := none
  budget := ExpBudget.uniform identity budgetCeiling
  cpu := CpuState.default
  runtime := .kernelNative
  state := .ready
  dispatches := 0
  preemptions := 0
  cpuTicks := 0

def new (identity : ExecutionIdentity) (addressSpace : AddressSpace)
    (budgetCeiling : UInt64) : Except ExecutionError ExecutionContext :=
  if ¬ identity.isValid then .error .invalidIdentity
  else if addressSpace.root ≠ 0 ∧ addressSpace.lowerBound ≥ addressSpace.upperBound then
    .error .invalidAddressSpace
  else .ok (prepared identity addressSpace budgetCeiling)

def pushMessage (message : IpcMessage) :
    Mutator ExecutionContext ExecutionError Unit := fun context =>
  if context.messageLen = maxContextMessages then
    (.fail .messageQueueFull, context)
  else
    match context.budget.charge .ipcMessages 1 with
    | (.done _, budget) =>
      match budget.charge .ipcBytes
          (UInt64.ofNat message.payload.length) with
      | (.done _, budget) =>
        let slot := (context.messageHead + context.messageLen) % maxContextMessages
        (.done (),
          { context with
            budget
            messages := context.messages.put slot (some message)
            messageLen := context.messageLen + 1 })
      | (_, budget) =>
        (.fail .budgetDenied,
          { context with
            budget := (budget.release .ipcMessages 1).2 })
    | (_, budget) => (.fail .budgetDenied, { context with budget })

end ExecutionContext

/-! ## The scheduler -/

structure Scheduler where
  contexts : SlotTable ExecutionContext maxExecutionContexts
  currentSlot : Option ℕ
  cursor : ℕ
  nextId : UInt32

namespace Scheduler

def new : Scheduler where
  contexts := SlotTable.empty _ _
  currentSlot := none
  cursor := 0
  nextId := 1

/-- The state of a context whose slot may be used again. -/
def reusable : ExecutionState → Bool
  | .exited | .terminated => true
  | _ => false

/-- The slot that `admitContext` takes. -/
def admitSlot (s : Scheduler) : Option ℕ :=
  s.contexts.slots.findIdx? fun slot =>
    slot.all fun context => reusable context.state

def admitContext (context : ExecutionContext) : Mutator Scheduler ExecutionError UInt32 := fun s =>
  if s.contexts.occupants.any fun item =>
      item.identity = context.identity ∧ ¬ reusable item.state then
    (.fail .duplicateContext, s)
  else
    match s.admitSlot with
    | none => (.fail .contextTableFull, s)
    | some slot => (.done s.nextId,
        { s with
          nextId := max (s.nextId + 1) 1
          contexts := s.contexts.put slot (some
            { context with id := s.nextId, state := .ready }) })

/-- The slot of the first context with a number. -/
def slotOf (s : Scheduler) (id : UInt32) : Option ℕ :=
  s.contexts.findIndex (·.id == id)

def current (s : Scheduler) : Option ExecutionContext :=
  s.currentSlot.bind s.contexts.get

def isCurrent (s : Scheduler) (id : UInt32) : Bool :=
  s.current.any (·.id == id)

/-- Call a method on the context with a number. -/
def onContext (id : UInt32) (f : Mutator ExecutionContext ExecutionError Unit) :
    Mutator Scheduler ExecutionError Unit := fun s =>
  match (s.slotOf id).bind fun slot =>
      (s.contexts.get slot).map fun context => (slot, context) with
  | none => (.fail .unknownContext, s)
  | some (slot, context) =>
    ((f context).1,
      { s with contexts := s.contexts.put slot (some (f context).2) })

/-- Clear the current slot if the call succeeded on the current context. -/
def leaving (isCurrent : Bool) (r : Outcome ExecutionError Unit × Scheduler) :
    Outcome ExecutionError Unit × Scheduler :=
  match r with
  | (.done (), s) =>
    (.done (), if isCurrent then { s with currentSlot := none } else s)
  | r => r

/-- Take the processor from the current context, if there is one. -/
def takeCurrent (s : Scheduler) : Scheduler :=
  match s.currentSlot with
  | none => s
  | some slot =>
    { s with
      currentSlot := none
      contexts :=
        match s.contexts.get slot with
        | some context =>
          if context.state = .running then
            s.contexts.put slot (some { context with state := .ready })
          else s.contexts
        | none => s.contexts }

/-- Give the processor to the context in a slot. -/
def give (s : Scheduler) (slot : ℕ) (context : ExecutionContext) :
    Scheduler :=
  { s with
    contexts := s.contexts.put slot (some
      { context with
        state := .running
        dispatches := saturatingAdd context.dispatches 1 })
    currentSlot := some slot }

/-- The slots in the order `dispatchNext` looks at them. -/
def dispatchOrder (s : Scheduler) : List ℕ :=
  (List.range maxExecutionContexts).map fun offset =>
    (s.cursor + offset) % maxExecutionContexts

def isReady (s : Scheduler) (slot : ℕ) : Bool :=
  (s.contexts.get slot).any (·.state == .ready)

def dispatchNext : Mutator Scheduler ExecutionError UInt32 := fun s =>
  let s := s.takeCurrent
  match (s.dispatchOrder.find? s.isReady).bind fun slot =>
      (s.contexts.get slot).map fun context => (slot, context) with
  | none => (.fail .notRunnable, s)
  | some (slot, context) => (.done context.id,
      { s.give slot context with
        cursor := (slot + 1) % maxExecutionContexts })

def resume (id : UInt32) : Mutator Scheduler ExecutionError Unit :=
  fun s =>
    match s.slotOf id with
    | none => (.fail .unknownContext, s)
    | some slot =>
      if ¬ s.isReady slot then (.fail .notRunnable, s)
      else
        match s.takeCurrent.contexts.get slot with
        | none => (.halt, s.takeCurrent)
        | some context => (.done (), s.takeCurrent.give slot context)

def preempt (id : UInt32) (cpu : CpuState) (ticks : UInt64)
    (budgetExhausted : Bool) : Mutator Scheduler ExecutionError Unit :=
  fun s => leaving (s.isCurrent id) (onContext id (fun context =>
    if context.state ≠ .running then (.fail .notRunnable, context)
    else
      match context.budget.charge .cpuTicks ticks with
      | (.done _, budget) => (.done (),
          { context with
            budget
            cpuTicks := saturatingAdd context.cpuTicks ticks
            preemptions := saturatingAdd context.preemptions 1
            cpu
            state := if budgetExhausted then .budgetBlocked else .ready })
      | (_, budget) => (.done (),
          { context with budget, state := .budgetBlocked })) s)

def finishSlice (id : UInt32) (cpu : CpuState) (ticks result : UInt64) :
    Mutator Scheduler ExecutionError Unit :=
  fun s => leaving (s.isCurrent id) (onContext id (fun context =>
    let charged := if ticks = 0 then (.done 0, context.budget)
      else context.budget.charge .cpuTicks ticks
    match charged with
    | (.done _, budget) => (.done (),
        { context with
          budget
          cpuTicks := saturatingAdd context.cpuTicks ticks
          cpu := { cpu with accumulator := result }
          state := .exited })
    | (_, budget) => (.done (),
        { context with budget, state := .budgetBlocked })) s)

def wait (id : UInt32) : Mutator Scheduler ExecutionError Unit := fun s =>
  let r := onContext id (fun context =>
    (.done (), { context with state := .waiting })) s
  -- the current context is looked up after the state was written
  leaving (r.2.isCurrent id) r

def wake (id : UInt32) : Mutator Scheduler ExecutionError Unit :=
  onContext id fun context =>
    if context.state ≠ .waiting then (.fail .notRunnable, context)
    else (.done (), { context with state := .ready })

def pause (id : UInt32) : Mutator Scheduler ExecutionError Unit :=
  fun s => leaving (s.isCurrent id) (onContext id (fun context =>
    if context.state ≠ .ready ∧ context.state ≠ .running then
      (.fail .notRunnable, context)
    else (.done (), { context with state := .paused })) s)

def continueContext (id : UInt32) : Mutator Scheduler ExecutionError Unit :=
  onContext id fun context =>
    if context.state ≠ .paused then (.fail .notRunnable, context)
    else (.done (), { context with state := .ready })

def terminate (id : UInt32) : Mutator Scheduler ExecutionError Unit :=
  fun s => leaving (s.isCurrent id) (onContext id (fun context =>
    (.done (), { context with state := .terminated })) s)

/-- The states from which a context can be restarted. -/
def ended : ExecutionState → Bool
  | .exited | .terminated | .budgetBlocked => true
  | _ => false

def restart (id : UInt32) : Mutator Scheduler ExecutionError Unit :=
  onContext id fun context =>
    if ¬ ended context.state then (.fail .notRunnable, context)
    else (.done (),
      { context with
        budget := ExpBudget.new context.identity fun kind =>
          (context.budget.account kind).ceiling
        cpu := CpuState.default
        events := SlotTable.empty _ _
        eventHead := 0
        eventLen := 0
        messages := SlotTable.empty _ _
        messageHead := 0
        messageLen := 0
        state := .ready })

def sendMessage (target : UInt32) (message : IpcMessage) : Mutator Scheduler ExecutionError Unit :=
  onContext target fun context =>
    match context.pushMessage message with
    | (.done (), context) =>
      (.done (),
        if context.state = .waiting then { context with state := .ready }
        else context)
    | r => r

def finish (id : UInt32) (result : UInt64) : Mutator Scheduler ExecutionError Unit := fun s =>
  let r := onContext id (fun context =>
    (.done (),
      { context with
        cpu := { context.cpu with accumulator := result }
        state := .exited })) s
  -- the current context is looked up after the state was written
  leaving (r.2.isCurrent id) r

def exit (id : UInt32) : Mutator Scheduler ExecutionError Unit :=
  finish id 0

end Scheduler

end ExpOS
