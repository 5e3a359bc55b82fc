import ExpOS.Support.Fifo
import ExpOS.Support.Outcome
import ExpOS.Support.Words

/-!
# The kernel event queue

Watches are registered under an identifier and a filter.  A signal for a
registered watch becomes an event in a ring of sixteen cells, or is merged
into an event that is still waiting there; a poll takes events from the ring
in the order in which they were put.

The ring is read through the list of waiting events, and what each call does
to that list is stated once.  That the ring holds exactly that list, that its
events belong to registered watches and that sequence numbers grow are one
invariant.
-/

namespace ExpOS.Controls

def maxWatches : ℕ := 16
def maxReadyEvents : ℕ := 16

inductive ControlError where
  | unknownNode
  | readOnly
  | invalidType
  | outOfRange
  | duplicateWatch
  | watchTableFull
  | watchNotFound
  | readyQueueFull
  | invalidLimit
  | resourceExhausted
  | managedResource
  | releaseExceedsUsage
deriving DecidableEq

inductive EventFilter where
  | signal
  | timer
  | resource
deriving DecidableEq

structure EventWatch where
  identifier : UInt32
  filter : EventFilter
  deadline : UInt64
  interval : UInt64
  enabled : Bool
deriving DecidableEq

namespace EventWatch

def signal (identifier : UInt32) : EventWatch :=
  { identifier, filter := .signal, deadline := 0, interval := 0, enabled := true }

def timer (identifier : UInt32) (deadline interval : UInt64) : EventWatch :=
  { identifier, filter := .timer, deadline, interval, enabled := true }

/-- How often a due timer has expired, and when it expires next; there is no
next time for a timer without interval or beyond the range of the clock. -/
def expire (watch : EventWatch) (now : UInt64) : UInt64 × Option UInt64 :=
  let elapsed := saturatingSub now watch.deadline
  match checkedDiv elapsed watch.interval with
  | none => (1, none)
  | some expiredIntervals =>
    match checkedAdd expiredIntervals 1 with
    | some expirations =>
      (expirations,
        (checkedMul watch.interval expirations).bind fun delta => checkedAdd watch.deadline delta)
    | none => (UInt64.ofNat (2 ^ 64 - 1), none)

end EventWatch

structure ReadyEvent where
  identifier : UInt32
  filter : EventFilter
  data : UInt64
  sequence : UInt64
deriving DecidableEq

inductive SignalOutcome where
  | queued
  | coalesced
deriving DecidableEq

/-- What a watch and its events have in common. -/
abbrev EventKey := UInt32 × EventFilter

def EventWatch.key (watch : EventWatch) : EventKey := (watch.identifier, watch.filter)

def ReadyEvent.key (event : ReadyEvent) : EventKey := (event.identifier, event.filter)

structure EventQueue where
  watches : SlotTable EventWatch maxWatches
  ready : SlotTable ReadyEvent maxReadyEvents
  readyHead : ℕ
  readyCount : ℕ
  nextSequence : UInt64
  delivered : UInt64
  dropped : UInt64
  coalesced : UInt64

def sameEventKey (watch : EventWatch) (identifier : UInt32) (filter : EventFilter) : Bool :=
  watch.identifier == identifier && watch.filter == filter

namespace EventQueue

def new : EventQueue where
  watches := SlotTable.empty _ _
  ready := SlotTable.empty _ _
  readyHead := 0
  readyCount := 0
  nextSequence := 1
  delivered := 0
  dropped := 0
  coalesced := 0

/-- The place of the event a number of places behind the first one. -/
def place (q : EventQueue) (offset : ℕ) : ℕ :=
  (q.readyHead + offset) % maxReadyEvents

/-! ## Watches -/

def register (watch : EventWatch) : Mutator EventQueue ControlError Unit := fun q =>
  if q.watches.occupants.any (sameEventKey · watch.identifier watch.filter) then
    (.fail .duplicateWatch, q)
  else
    match q.watches.freeIndex with
    | none => (.fail .watchTableFull, q)
    | some slot => (.done (), { q with watches := q.watches.put slot (some watch) })

/-- The loop of `remove_ready`: events are taken from the ring in turn and
those with another key are packed at the front of a fresh one. -/
def removeReadyLoop (identifier : UInt32) (filter : EventFilter) (head : ℕ) :
    List ℕ → SlotTable ReadyEvent maxReadyEvents → SlotTable ReadyEvent maxReadyEvents → ℕ →
      SlotTable ReadyEvent maxReadyEvents × ℕ
  | [], _, retained, retainedCount => (retained, retainedCount)
  | offset :: offsets, ready, retained, retainedCount =>
    let index := (head + offset) % maxReadyEvents
    match ready.get index with
    | none => removeReadyLoop identifier filter head offsets ready retained retainedCount
    | some event =>
      if event.identifier ≠ identifier ∨ event.filter ≠ filter then
        removeReadyLoop identifier filter head offsets (ready.put index none)
          (retained.put retainedCount (some event)) (retainedCount + 1)
      else
        removeReadyLoop identifier filter head offsets (ready.put index none) retained
          retainedCount

def removeReady (identifier : UInt32) (filter : EventFilter) (q : EventQueue) : EventQueue :=
  let retained := removeReadyLoop identifier filter q.readyHead (List.range q.readyCount) q.ready
    (SlotTable.empty _ _) 0
  { q with ready := retained.1, readyHead := 0, readyCount := retained.2 }

def unregister (identifier : UInt32) (filter : EventFilter) :
    Mutator EventQueue ControlError Unit := fun q =>
  match q.watches.findIndex (sameEventKey · identifier filter) with
  | none => (.fail .watchNotFound, q)
  | some slot =>
    (.done (), removeReady identifier filter { q with watches := q.watches.put slot none })

/-! ## Signals -/

/-- The first waiting event that a signal can be merged into. -/
def coalesceOffset (q : EventQueue) (identifier : UInt32) (filter : EventFilter) : Option ℕ :=
  (List.range q.readyCount).find? fun offset =>
    (q.ready.get (q.place offset)).any fun event =>
      event.identifier == identifier && event.filter == filter

/-- A waiting event with a signal merged into it.  Expirations of a timer add
up; other data are replaced. -/
def coalesceEvent (event : ReadyEvent) (filter : EventFilter) (data : UInt64) : ReadyEvent :=
  { event with data := if filter = .timer then saturatingAdd event.data data else data }

/-- The end of `signal`: the event goes behind the last one. -/
def enqueue (identifier : UInt32) (filter : EventFilter) (data : UInt64) :
    Mutator EventQueue ControlError SignalOutcome := fun q =>
  if q.readyCount = maxReadyEvents then
    (.fail .readyQueueFull, { q with dropped := saturatingAdd q.dropped 1 })
  else
    (.done .queued,
      { q with
        ready := q.ready.put (q.place q.readyCount)
          (some { identifier, filter, data, sequence := q.nextSequence })
        nextSequence := saturatingAdd q.nextSequence 1
        readyCount := q.readyCount + 1 })

def signal (identifier : UInt32) (filter : EventFilter) (data : UInt64) (coalesce : Bool) :
    Mutator EventQueue ControlError SignalOutcome := fun q =>
  if ¬ q.watches.occupants.any (fun watch =>
      watch.enabled && sameEventKey watch identifier filter) then
    (.fail .watchNotFound, q)
  else if coalesce then
    match q.coalesceOffset identifier filter with
    | none => enqueue identifier filter data q
    | some offset =>
      match q.ready.get (q.place offset) with
      | none => enqueue identifier filter data q
      | some event =>
        (.done .coalesced,
          { q with
            ready := q.ready.put (q.place offset) (some (coalesceEvent event filter data))
            coalesced := saturatingAdd q.coalesced 1 })
  else
    enqueue identifier filter data q

/-! ## Timers -/

/-- One round of `advance_timers`.  The watch moves on only if its signal was
taken, so that a full queue is tried again. -/
def advanceTimer (now : UInt64) (coalesce : Bool) (q : EventQueue) (index : ℕ) : EventQueue :=
  match q.watches.get index with
  | none => q
  | some watch =>
    if ¬ watch.enabled ∨ watch.filter ≠ .timer ∨ now < watch.deadline then q
    else
      let (expirations, nextDeadline) := watch.expire now
      let watch' := match nextDeadline with
        | some deadline => { watch with deadline }
        | none => { watch with enabled := false }
      match signal watch.identifier .timer expirations coalesce q with
      | (.done _, q') => { q' with watches := q'.watches.put index (some watch') }
      | (_, q') => q'

def advanceTimers (now : UInt64) (coalesce : Bool) (q : EventQueue) : EventQueue :=
  (List.range maxWatches).foldl (advanceTimer now coalesce) q

/-! ## Polls -/

/-- Take a number of events; an empty cell fails the expectation. -/
def pollLoop : ℕ → Mutator EventQueue ControlError (List ReadyEvent)
  | 0, q => (.done [], q)
  | amount + 1, q =>
    match q.ready.get q.readyHead with
    | none => (.halt, q)
    | some event =>
      match pollLoop amount
          { q with
            ready := q.ready.put q.readyHead none
            readyHead := (q.readyHead + 1) % maxReadyEvents
            readyCount := q.readyCount - 1 } with
      | (.done events, q') => (.done (event :: events), q')
      | (.fail e, q') => (.fail e, q')
      | (.halt, q') => (.halt, q')

/-- Take what fits in `room` output cells and in the budget. -/
def poll (room budget : ℕ) : Mutator EventQueue ControlError (List ReadyEvent) := fun q =>
  let amount := min (min room budget) q.readyCount
  match pollLoop amount q with
  | (.done events, q') =>
    (.done events, { q' with delivered := saturatingAdd q'.delivered (UInt64.ofNat amount) })
  | (.fail e, q') => (.fail e, q')
  | (.halt, q') => (.halt, q')

end EventQueue

end ExpOS.Controls
