import ExpOS.Controls.Integrity
import ExpOS.Support.Bytes

/-!
# Kernel controls

The shell holds one set of kernel controls: tunables that are read and set by
name, the event queue, and a budget with one limit for each resource.  A
charge that is refused signals the watch of its resource.
-/

namespace ExpOS.Controls

open List

/-! ## Tunables -/

def maxTunables : ℕ := 9

inductive TunableValue where
  | bool (value : Bool)
  | unsigned (value : UInt64)
  | text (value : Bytes)
deriving DecidableEq

inductive TunableAccess where
  | readOnly
  | operatorWrite
deriving DecidableEq

structure TunableNode where
  name : Bytes
  value : TunableValue
  access : TunableAccess
  minimum : UInt64
  maximum : UInt64

namespace TunableNode

def readOnly (name : String) (value : TunableValue) : TunableNode where
  name := asciiBytes name
  value := value
  access := .readOnly
  minimum := 0
  maximum := UInt64.ofNat (2 ^ 64 - 1)

def unsigned (name : String) (value minimum maximum : UInt64) : TunableNode where
  name := asciiBytes name
  value := .unsigned value
  access := .operatorWrite
  minimum := minimum
  maximum := maximum

def boolean (name : String) (value : Bool) : TunableNode where
  name := asciiBytes name
  value := .bool value
  access := .operatorWrite
  minimum := 0
  maximum := 1

end TunableNode

structure TunableRegistry where
  nodes : List TunableNode
  length_nodes : nodes.length = maxTunables

def nodeEventBatch : ℕ := 2
def nodeEventCoalesce : ℕ := 3
def nodeEventDropped : ℕ := 5
def nodeEventCoalesced : ℕ := 6
def nodeExpbudgetDenials : ℕ := 7

def parseBool (raw : Bytes) : Except ControlError Bool :=
  if raw ∈ ["1", "true", "on", "yes"].map asciiBytes then .ok true
  else if raw ∈ ["0", "false", "off", "no"].map asciiBytes then .ok false
  else .error .invalidType

/-- `str::parse::<u64>`: decimal digits behind at most one plus sign. -/
def parseU64 (raw : Bytes) : Option UInt64 :=
  let digits := if raw.head? = some 43 then raw.tail else raw
  if digits = [] ∨ ¬ digits.all (fun digit => 48 ≤ digit && digit ≤ 57) then none
  else
    let value := digits.foldl (fun value digit => value * 10 + (digit.toNat - 48)) 0
    if value < 2 ^ 64 then some (UInt64.ofNat value) else none

namespace TunableRegistry

def new : TunableRegistry where
  nodes :=
    [.readOnly "kern.control.abi" (.text (asciiBytes "Form-native-v1")),
      .readOnly "security.capability.enforced" (.bool true),
      .unsigned "kern.event.batch" 4 1 16,
      .boolean "kern.event.coalesce" true,
      .boolean "kern.event.trace" false,
      .readOnly "kern.event.dropped" (.unsigned 0),
      .readOnly "kern.event.coalesced" (.unsigned 0),
      .readOnly "kern.expbudget.denials" (.unsigned 0),
      .readOnly "kern.event.capacity" (.unsigned (UInt64.ofNat maxWatches))]
  length_nodes := rfl

/-- Replace the value of one node. -/
def setValue (registry : TunableRegistry) (index : ℕ) (value : TunableValue) :
    TunableRegistry where
  nodes := registry.nodes.modify index fun node => { node with value }
  length_nodes := by rw [length_modify, registry.length_nodes]

/-- The value that a text sets a node to. -/
def parseValue (node : TunableNode) (raw : Bytes) : Except ControlError TunableValue :=
  if node.access = .readOnly then .error .readOnly
  else
    match node.value with
    | .bool _ =>
      match parseBool raw with
      | .ok value => .ok (.bool value)
      | .error e => .error e
    | .unsigned _ =>
      match parseU64 raw with
      | none => .error .invalidType
      | some value =>
        if value < node.minimum ∨ value > node.maximum then .error .outOfRange
        else .ok (.unsigned value)
    | .text _ => .error .readOnly

def setText (name raw : Bytes) : Mutator TunableRegistry ControlError TunableNode :=
  fun registry =>
    match registry.nodes.findIdx? (·.name == name) with
    | none => (.fail .unknownNode, registry)
    | some index =>
      match registry.nodes[index]? with
      | none => (.halt, registry)
      | some node =>
        match parseValue node raw with
        | .error e => (.fail e, registry)
        | .ok value => (.done { node with value }, registry.setValue index value)

/-- The number a node holds, zero if it holds none. -/
def unsigned (registry : TunableRegistry) (index : ℕ) : UInt64 :=
  match registry.nodes[index]?.map TunableNode.value with
  | some (.unsigned value) => value
  | _ => 0

def boolean (registry : TunableRegistry) (index : ℕ) : Bool :=
  registry.nodes[index]?.map TunableNode.value == some (.bool true)

def setCounter (registry : TunableRegistry) (index : ℕ) (value : UInt64) : TunableRegistry :=
  registry.setValue index (.unsigned value)

end TunableRegistry

/-! ## Resources -/

inductive Resource where
  | eventWatches
  | ipcBytes
  | scratchPages
  | formOperations
  | formBytes
deriving DecidableEq

/-- The number of a resource, under which its watch is registered. -/
def Resource.number : Resource → UInt32
  | .eventWatches => 0
  | .ipcBytes => 1
  | .scratchPages => 2
  | .formOperations => 3
  | .formBytes => 4

structure ResourceLimit where
  resource : Resource
  used : UInt64
  soft : UInt64
  hard : UInt64
  ceiling : UInt64
  denials : UInt64
deriving DecidableEq

def ResourceLimit.new (resource : Resource) (soft hard ceiling : UInt64) : ResourceLimit where
  resource := resource
  used := 0
  soft := soft
  hard := hard
  ceiling := ceiling
  denials := 0

/-- The budget of the shell; each resource has its limit. -/
structure ExpBudget where
  limits : Resource → ResourceLimit
  totalDenials : UInt64

namespace ExpBudget

def new : ExpBudget where
  limits
    | .eventWatches => .new .eventWatches 8 16 (UInt64.ofNat maxWatches)
    | .ipcBytes => .new .ipcBytes 4096 16384 65536
    | .scratchPages => .new .scratchPages 16 64 256
    | .formOperations => .new .formOperations 64 256 4096
    | .formBytes => .new .formBytes 49152 49152 49152
  totalDenials := 0

/-- Replace the limit of one resource. -/
def setLimit (budget : ExpBudget) (limit : ResourceLimit) (resource : Resource) : ExpBudget :=
  { budget with limits := Function.update budget.limits resource limit }

def set (resource : Resource) (soft hard : UInt64) :
    Mutator ExpBudget ControlError ResourceLimit := fun budget =>
  let limit := budget.limits resource
  if limit.used > soft ∨ soft > hard ∨ hard > limit.ceiling then (.fail .invalidLimit, budget)
  else
    (.done { limit with soft, hard }, budget.setLimit { limit with soft, hard } resource)

/-- The budget with one more refused charge. -/
def deny (budget : ExpBudget) (resource : Resource) : ExpBudget :=
  let limit := budget.limits resource
  { budget.setLimit { limit with denials := saturatingAdd limit.denials 1 } resource with
    totalDenials := saturatingAdd budget.totalDenials 1 }

def charge (resource : Resource) (amount : UInt64) : Mutator ExpBudget ControlError UInt64 :=
  fun budget =>
    let limit := budget.limits resource
    match checkedAdd limit.used amount with
    | none => (.fail .resourceExhausted, budget.deny resource)
    | some next =>
      if next > limit.soft then (.fail .resourceExhausted, budget.deny resource)
      else (.done next, budget.setLimit { limit with used := next } resource)

def release (resource : Resource) (amount : UInt64) : Mutator ExpBudget ControlError UInt64 :=
  fun budget =>
    let limit := budget.limits resource
    if amount > limit.used then (.fail .releaseExceedsUsage, budget)
    else
      (.done (limit.used - amount), budget.setLimit { limit with used := limit.used - amount }
        resource)

end ExpBudget

/-! ## The controls -/

structure KernelControls where
  tunables : TunableRegistry
  events : EventQueue
  resources : ExpBudget

namespace KernelControls

def new : KernelControls where
  tunables := .new
  events := .new
  resources := .new

def syncCounters (c : KernelControls) : KernelControls :=
  { c with
    tunables := ((c.tunables.setCounter nodeEventDropped c.events.dropped).setCounter
      nodeEventCoalesced c.events.coalesced).setCounter nodeExpbudgetDenials
        c.resources.totalDenials }

def setTunable (name value : Bytes) : Mutator KernelControls ControlError TunableNode := fun c =>
  let result := TunableRegistry.setText name value c.tunables
  (result.1, { c with tunables := result.2 })

/-- Charge a resource; a refusal signals its watch. -/
def chargeInternal (resource : Resource) (amount : UInt64) :
    Mutator KernelControls ControlError UInt64 := fun c =>
  match ExpBudget.charge resource amount c.resources with
  | (.done used, resources) => (.done used, { c with resources })
  | (result, resources) =>
    let coalesce := c.tunables.boolean nodeEventCoalesce
    let events := (EventQueue.signal resource.number .resource amount coalesce c.events).2
    (result, syncCounters { c with events, resources })

def releaseInternal (resource : Resource) (amount : UInt64) :
    Mutator KernelControls ControlError UInt64 := fun c =>
  let result := ExpBudget.release resource amount c.resources
  (result.1, { c with resources := result.2 })

def registerWatch (watch : EventWatch) : Mutator KernelControls ControlError Unit := fun c =>
  match chargeInternal .eventWatches 1 c with
  | (.done _, c) =>
    match EventQueue.register watch c.events with
    | (.fail e, events) => (.fail e, (releaseInternal .eventWatches 1 { c with events }).2)
    | (result, events) => (result, { c with events })
  | (.fail e, c) => (.fail e, c)
  | (.halt, c) => (.halt, c)

def unregisterWatch (identifier : UInt32) (filter : EventFilter) :
    Mutator KernelControls ControlError Unit := fun c =>
  match EventQueue.unregister identifier filter c.events with
  | (.done _, events) =>
    let result := releaseInternal .eventWatches 1 { c with events }
    (result.1 >>= fun _ => .done (), result.2)
  | (result, events) => (result, { c with events })

def signal (identifier : UInt32) (data : UInt64) : Mutator KernelControls ControlError Unit :=
  fun c =>
    let coalesce := c.tunables.boolean nodeEventCoalesce
    let result := EventQueue.signal identifier .signal data coalesce c.events
    (result.1 >>= fun _ => .done (), syncCounters { c with events := result.2 })

/-- Advance the timers to `now` and take what fits in `room` output cells. -/
def poll (now : UInt64) (room : ℕ) : Mutator KernelControls ControlError (List ReadyEvent) :=
  fun c =>
    let coalesce := c.tunables.boolean nodeEventCoalesce
    let events := c.events.advanceTimers now coalesce
    let budget := (c.tunables.unsigned nodeEventBatch).toNat
    let result := EventQueue.poll room budget events
    (result.1, syncCounters { c with events := result.2 })

def setLimit (resource : Resource) (soft hard : UInt64) :
    Mutator KernelControls ControlError ResourceLimit := fun c =>
  let result := ExpBudget.set resource soft hard c.resources
  (result.1, { c with resources := result.2 })

/-- Resources whose usage only their owners change. -/
def managed : Resource → Bool
  | .eventWatches | .formOperations | .formBytes => true
  | .ipcBytes | .scratchPages => false

def charge (resource : Resource) (amount : UInt64) :
    Mutator KernelControls ControlError UInt64 := fun c =>
  if managed resource then (.fail .managedResource, c) else chargeInternal resource amount c

def release (resource : Resource) (amount : UInt64) :
    Mutator KernelControls ControlError UInt64 := fun c =>
  if managed resource then (.fail .managedResource, c) else releaseInternal resource amount c

def chargeFormOperation : Mutator KernelControls ControlError Unit := fun c =>
  let result := chargeInternal .formOperations 1 c
  (result.1 >>= fun _ => .done (), result.2)

/-- Charge the growth of a content or release what it shrinks by. -/
def resizeFormContent (old new : UInt64) : Mutator KernelControls ControlError Unit := fun c =>
  let result :=
    if new ≥ old then chargeInternal .formBytes (new - old) c
    else releaseInternal .formBytes (old - new) c
  (result.1 >>= fun _ => .done (), result.2)

/-! ## Runs -/

/-- One call on the controls with arbitrary arguments. -/
inductive Call where
  | setTunable (name value : Bytes)
  | registerWatch (watch : EventWatch)
  | unregisterWatch (identifier : UInt32) (filter : EventFilter)
  | signal (identifier : UInt32) (data : UInt64)
  | poll (now : UInt64) (room : ℕ)
  | setLimit (resource : Resource) (soft hard : UInt64)
  | charge (resource : Resource) (amount : UInt64)
  | release (resource : Resource) (amount : UInt64)
  | chargeFormOperation
  | resizeFormContent (old new : UInt64)
deriving DecidableEq

/-- A call, with the events it returns if it is a poll. -/
def perform (c : KernelControls) : Call → Outcome ControlError (List ReadyEvent) × KernelControls
  | .setTunable name value =>
    let result := setTunable name value c
    (result.1 >>= fun _ => .done [], result.2)
  | .registerWatch watch =>
    let result := registerWatch watch c
    (result.1 >>= fun _ => .done [], result.2)
  | .unregisterWatch identifier filter =>
    let result := unregisterWatch identifier filter c
    (result.1 >>= fun _ => .done [], result.2)
  | .signal identifier data =>
    let result := signal identifier data c
    (result.1 >>= fun _ => .done [], result.2)
  | .poll now room => poll now room c
  | .setLimit resource soft hard =>
    let result := setLimit resource soft hard c
    (result.1 >>= fun _ => .done [], result.2)
  | .charge resource amount =>
    let result := charge resource amount c
    (result.1 >>= fun _ => .done [], result.2)
  | .release resource amount =>
    let result := release resource amount c
    (result.1 >>= fun _ => .done [], result.2)
  | .chargeFormOperation =>
    let result := chargeFormOperation c
    (result.1 >>= fun _ => .done [], result.2)
  | .resizeFormContent old new =>
    let result := resizeFormContent old new c
    (result.1 >>= fun _ => .done [], result.2)

/-- The events that a sequence of calls returns, and the controls after it. -/
def run : KernelControls → List Call → List ReadyEvent × KernelControls
  | c, [] => ([], c)
  | c, call :: calls =>
    let result := perform c call
    let rest := run result.2 calls
    (result.1.toOption.getD [] ++ rest.1, rest.2)

end KernelControls

end ExpOS.Controls
