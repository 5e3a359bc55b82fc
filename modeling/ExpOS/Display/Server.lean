import ExpOS.Core.Identity
import ExpOS.Display.Rect
import ExpOS.Execution.Budget
import ExpOS.Support.Counter
import ExpOS.Support.SlotTable
import Mathlib.Data.List.MinMax

/-!
# The display server

A surface belongs to the Form that created it.  Its owner changes a pending
state and commits it as a whole; the compositor then presents a frame, which
is when the owner is told which commit became visible.  The regions to be
repainted and the commits that wait for a frame are kept by surface slot, all
events in one queue.
-/

namespace ExpOS

def maxSurfaces : ℕ := 16
def maxDisplayEvents : ℕ := 32

inductive BufferFormat where
  | xrgb8888
  | argb8888
  | rgb565
  | textCells
deriving DecidableEq

structure BufferHandle where
  id : UInt32
  owner : FormFin
  width : UInt16
  height : UInt16
  format : BufferFormat
deriving DecidableEq

inductive SurfaceRole where
  | background
  | window
  | panel
  | popup
deriving DecidableEq

structure SurfaceState where
  rect : Rect
  buffer : Option BufferHandle
  damage : Option Rect
  visible : Bool
deriving DecidableEq

structure Surface where
  id : UInt32
  owner : FormFin
  title : Text
  role : SurfaceRole
  current : SurfaceState
  pending : SurfaceState
  commitSequence : UInt64
  zIndex : UInt16
deriving DecidableEq

inductive DisplayError where
  | invalid
  | denied
  | notFound
  | full
  | bufferSizeMismatch
deriving DecidableEq

inductive DisplayEventKind where
  | configure
  | focusIn
  | focusOut
  | frameDone
  | key
  | pointerMotion
  | pointerButton
deriving DecidableEq

structure DisplayEvent where
  serial : UInt64
  owner : FormFin
  surfaceId : UInt32
  kind : DisplayEventKind
  value : UInt64
deriving DecidableEq

structure DisplayServer where
  surfaces : SlotTable Surface maxSurfaces
  pendingOutputDamage : SlotTable Rect maxSurfaces
  nextSurfaceId : UInt32
  nextZ : UInt16
  commitSequence : UInt64
  frameSequence : UInt64
  pendingFrameCommits : Vector UInt64 maxSurfaces
  focused : Option UInt32
  events : SlotTable DisplayEvent maxDisplayEvents
  nextEventSerial : UInt64
  commits : UInt64
  callbacks : UInt64
  coalescedFrameCallbacks : UInt64
  coalescedPointerMotion : UInt64
  recoveredEventSlots : UInt64
  droppedEvents : UInt64

/-- The next number of a counter that skips zero when it wraps. -/
def nextNumber (n : UInt64) : UInt64 :=
  max (n + 1) 1

theorem nextNumber_toNat {n : UInt64} (h : n.toNat + 1 < 2 ^ 64) :
    (nextNumber n).toNat = n.toNat + 1 :=
  toNat_max_succ64 h

def packSize (rect : Rect) : UInt64 :=
  rect.width.toUInt64 <<< 32 ||| rect.height.toUInt64

def addPendingDamage (surface : Surface) (damage : Rect) : Surface :=
  { surface with
    pending := { surface.pending with
      damage := Rect.mergeDamage surface.pending.damage (some damage) } }

/-- The output region a commit changes. -/
def committedOutputDamage (old new : SurfaceState) : Option Rect :=
  let changed := old.rect ≠ new.rect ∨ old.visible ≠ new.visible
  let output := none
  let output := if changed ∧ old.visible then
    Rect.mergeDamage output (some old.rect) else output
  let output := if changed ∧ new.visible then
    Rect.mergeDamage output (some new.rect) else output
  if new.visible then
    Rect.mergeDamage output (new.damage.map (Rect.translateDamage new.rect))
  else output

namespace DisplayServer

def new : DisplayServer where
  surfaces := SlotTable.empty _ _
  pendingOutputDamage := SlotTable.empty _ _
  nextSurfaceId := 1
  nextZ := 1
  commitSequence := 0
  frameSequence := 0
  pendingFrameCommits := Vector.replicate _ 0
  focused := none
  events := SlotTable.empty _ _
  nextEventSerial := 1
  commits := 0
  callbacks := 0
  coalescedFrameCallbacks := 0
  coalescedPointerMotion := 0
  recoveredEventSlots := 0
  droppedEvents := 0

/-- The commit of a surface slot that waits for a frame; zero if none does. -/
def pendingFrame (s : DisplayServer) (index : ℕ) : UInt64 :=
  s.pendingFrameCommits[index]?.getD 0

/-! ## The event queue -/

/-- The cells of the queue that hold an event searched for, in slot order. -/
def eventCells (s : DisplayServer) (p : DisplayEvent → Bool) : List (ℕ × DisplayEvent) :=
  (List.range maxDisplayEvents).filterMap fun index =>
    ((s.events.get index).filter p).map fun event => (index, event)

/-- The first of the oldest events searched for. -/
def oldestEvent (s : DisplayServer) (p : DisplayEvent → Bool) : Option (ℕ × DisplayEvent) :=
  (s.eventCells p).argmin fun cell => cell.2.serial.toNat

/-- The last of the newest events searched for. -/
def newestEvent (s : DisplayServer) (p : DisplayEvent → Bool) : Option (ℕ × DisplayEvent) :=
  (s.eventCells p).reverse.argmax fun cell => cell.2.serial.toNat

def pushEvent (owner : FormFin) (surfaceId : UInt32)
    (kind : DisplayEventKind) (value : UInt64) (s : DisplayServer) :
    DisplayServer :=
  let event : DisplayEvent :=
    ⟨s.nextEventSerial, owner, surfaceId, kind, value⟩
  let s := { s with nextEventSerial := nextNumber s.nextEventSerial }
  match s.events.freeIndex with
  | some index => { s with events := s.events.put index (some event) }
  | none =>
    -- an obsolete motion sample makes room for any other event
    match if kind ≠ .pointerMotion then
        s.oldestEvent (·.kind == .pointerMotion) else none with
    | some (index, _) =>
      { s with
        events := s.events.put index (some event)
        recoveredEventSlots := saturatingAdd s.recoveredEventSlots 1 }
    | none => { s with droppedEvents := saturatingAdd s.droppedEvents 1 }

def pushPointerMotion (owner : FormFin) (surfaceId : UInt32)
    (value : UInt64) (s : DisplayServer) : DisplayServer :=
  match s.newestEvent fun event =>
      event.owner == owner && event.surfaceId == surfaceId with
  | some (index, event) =>
    if event.kind = .pointerMotion then
      { s with
        nextEventSerial := nextNumber s.nextEventSerial
        events := s.events.put index
          (some { event with serial := s.nextEventSerial, value })
        coalescedPointerMotion :=
          saturatingAdd s.coalescedPointerMotion 1 }
    else s.pushEvent owner surfaceId .pointerMotion value
  | none => s.pushEvent owner surfaceId .pointerMotion value

/-- The queued completion event of a surface. -/
def isFrameDone (owner : FormFin) (surfaceId : UInt32) (event : DisplayEvent) : Bool :=
  event.owner == owner && event.surfaceId == surfaceId &&
    event.kind == .frameDone

def pushFrameDone (owner : FormFin) (surfaceId : UInt32)
    (sequence : UInt64) (s : DisplayServer) : Bool × DisplayServer :=
  match (s.events.findIndex (isFrameDone owner surfaceId)).bind fun index =>
      (s.events.get index).map fun event => (index, event) with
  | some (index, event) => (true,
      { s with
        nextEventSerial := nextNumber s.nextEventSerial
        events := s.events.put index
          (some { event with serial := s.nextEventSerial, value := sequence })
        coalescedFrameCallbacks :=
          saturatingAdd s.coalescedFrameCallbacks 1 })
  | none =>
    match s.events.freeIndex with
    | none => (false, s)
    | some index => (true,
        { s with
          events := s.events.put index (some
            ⟨s.nextEventSerial, owner, surfaceId, .frameDone, sequence⟩)
          nextEventSerial := nextNumber s.nextEventSerial })

def pollEvent (owner : FormFin) (s : DisplayServer) : Option DisplayEvent × DisplayServer :=
  match s.oldestEvent (·.owner == owner) with
  | none => (none, s)
  | some (index, event) =>
    (some event, { s with events := s.events.put index none })

/-! ## Surfaces -/

def surfaceIndex (s : DisplayServer) (surfaceId : UInt32) : Option ℕ :=
  s.surfaces.findIndex (·.id == surfaceId)

def surface (s : DisplayServer) (surfaceId : UInt32) : Option Surface :=
  (s.surfaceIndex surfaceId).bind s.surfaces.get

/-- The slot and the surface with a number, if it has the owner. -/
def owned (owner : FormFin) (surfaceId : UInt32) (s : DisplayServer) :
    Outcome DisplayError (ℕ × Surface) :=
  match (s.surfaceIndex surfaceId).bind fun index =>
      (s.surfaces.get index).map fun surface => (index, surface) with
  | none => .fail .notFound
  | some (index, surface) =>
    if surface.owner ≠ owner then .fail .denied
    else .done (index, surface)

theorem owned_get {owner : FormFin} {id : UInt32} {s : DisplayServer}
    {index : ℕ} {surface : Surface} (h : s.owned owner id = .done (index, surface)) :
    s.surfaces.get index = some surface ∧ surface.id = id ∧
      surface.owner = owner ∧ s.surfaceIndex id = some index := by
  rw [owned] at h
  rcases hindex : s.surfaceIndex id with _ | found
  · rw [hindex] at h
    cases h
  obtain ⟨⟨entry, hget, hid⟩, -⟩ := SlotTable.findIndex_spec hindex
  rw [hindex, Option.bind_some, hget, Option.map_some] at h
  dsimp only at h
  split at h
  · cases h
  rename_i howner
  cases h
  exact ⟨hget, by simpa using hid, not_not.mp howner, rfl⟩

/-- Call a method on an owned surface. -/
def onSurface {α : Type} (owner : FormFin) (surfaceId : UInt32)
    (f : Mutator Surface DisplayError α) : Mutator DisplayServer DisplayError α := fun s =>
  match s.owned owner surfaceId with
  | .done (index, surface) =>
    ((f surface).1,
      { s with surfaces := s.surfaces.put index (some (f surface).2) })
  | .fail error => (.fail error, s)
  | .halt => (.halt, s)

def createSurface (owner : FormFin) (title : Bytes) (role : SurfaceRole)
    (rect : Rect) : Mutator DisplayServer DisplayError UInt32 := fun s =>
  if owner.isZero ∨ rect.width = 0 ∨ rect.height = 0 then
    (.fail .invalid, s)
  else
    match Text.new title with
    | .error _ => (.fail .invalid, s)
    | .ok title =>
      match s.surfaces.freeIndex with
      | none => (.fail .full, s)
      | some index =>
        let id := s.nextSurfaceId
        let state : SurfaceState :=
          ⟨rect, none, some (Rect.surfaceBounds rect), true⟩
        let surface : Surface :=
          ⟨id, owner, title, role, state, state, 0, s.nextZ⟩
        let s :=
          { s with
            nextSurfaceId := max (s.nextSurfaceId + 1) 1
            surfaces := s.surfaces.put index (some surface)
            nextZ := UInt16.ofNat (min (s.nextZ.toNat + 1) 65535) }
        (.done id, s.pushEvent owner id .configure (packSize rect))

def attach (owner : FormFin) (surfaceId : UInt32) (buffer : BufferHandle) :
    Mutator DisplayServer DisplayError Unit :=
  onSurface owner surfaceId fun surface =>
    if buffer.owner ≠ owner then (.fail .denied, surface)
    else if buffer.width < surface.pending.rect.width ∨
        buffer.height < surface.pending.rect.height then
      (.fail .bufferSizeMismatch, surface)
    else
      (.done (), addPendingDamage
        { surface with
          pending := { surface.pending with buffer := some buffer } }
        (Rect.surfaceBounds surface.pending.rect))

def damage (owner : FormFin) (surfaceId : UInt32) (damage : Rect) :
    Mutator DisplayServer DisplayError Unit :=
  onSurface owner surfaceId fun surface =>
    if damage.width = 0 ∨ damage.height = 0 then (.fail .invalid, surface)
    else
      match Rect.intersectDamage damage
          (Rect.surfaceBounds surface.pending.rect) with
      | none => (.fail .invalid, surface)
      | some clipped => (.done (), addPendingDamage surface clipped)

def damageRegions (owner : FormFin) (surfaceId : UInt32)
    (regions : List Rect) : Mutator DisplayServer DisplayError ℕ := fun s =>
  if regions = [] then (.fail .invalid, s)
  else
    onSurface owner surfaceId (fun surface =>
      let bounds := Rect.surfaceBounds surface.pending.rect
      if regions.any fun region => region.width = 0 ∨ region.height = 0 ∨
          (Rect.intersectDamage region bounds).isNone then
        (.fail .invalid, surface)
      else
        (.done regions.length, (regions.filterMap fun region =>
            Rect.intersectDamage region bounds).foldl
            addPendingDamage surface)) s

def setPosition (owner : FormFin) (surfaceId : UInt32) (x y : Int16) :
    Mutator DisplayServer DisplayError Unit :=
  onSurface owner surfaceId fun surface =>
    if surface.pending.rect.x ≠ x ∨ surface.pending.rect.y ≠ y then
      let rect := { surface.pending.rect with x, y }
      (.done (), addPendingDamage
        { surface with pending := { surface.pending with rect } }
        (Rect.surfaceBounds rect))
    else (.done (), surface)

def setGeometry (owner : FormFin) (surfaceId : UInt32) (rect : Rect) :
    Mutator DisplayServer DisplayError Unit := fun s =>
  if rect.width = 0 ∨ rect.height = 0 then (.fail .invalid, s)
  else
    onSurface owner surfaceId (fun surface =>
      if surface.pending.buffer.any fun buffer =>
          buffer.width < rect.width ∨ buffer.height < rect.height then
        (.fail .bufferSizeMismatch, surface)
      else
        (.done (),
          { surface with
            pending := { surface.pending with
              rect
              damage := some (Rect.surfaceBounds rect) } })) s

def setVisible (owner : FormFin) (surfaceId : UInt32) (visible : Bool) :
    Mutator DisplayServer DisplayError Unit :=
  onSurface owner surfaceId fun surface =>
    if surface.pending.visible ≠ visible then
      (.done (), addPendingDamage
        { surface with pending := { surface.pending with visible } }
        (Rect.surfaceBounds surface.pending.rect))
    else (.done (), surface)

/-! ## Commits and frames -/

/-- The surface after its pending state was committed. -/
def committed (surface : Surface) (waiting : Bool) (sequence : UInt64) :
    Surface :=
  let unpresented := if waiting then
    surface.current.damage.bind fun damage =>
      Rect.intersectDamage damage
        (Rect.surfaceBounds surface.pending.rect)
    else none
  { surface with
    current := { surface.pending with
      damage := Rect.mergeDamage unpresented surface.pending.damage }
    pending := { surface.pending with damage := none }
    commitSequence := sequence }

def commit (owner : FormFin) (surfaceId : UInt32) :
    Mutator DisplayServer DisplayError UInt64 := fun s =>
  match s.owned owner surfaceId with
  | .done (index, surface) =>
    let sequence := nextNumber s.commitSequence
    (.done sequence,
      { s with
        commits := saturatingAdd s.commits 1
        commitSequence := sequence
        pendingOutputDamage := s.pendingOutputDamage.put index
          (Rect.mergeDamage (s.pendingOutputDamage.get index)
            (committedOutputDamage surface.current surface.pending))
        surfaces := s.surfaces.put index
          (some (committed surface (s.pendingFrame index ≠ 0) sequence))
        pendingFrameCommits :=
          s.pendingFrameCommits.setIfInBounds index sequence })
  | .fail error => (.fail error, s)
  | .halt => (.halt, s)

/-- One slot of a completed frame, with the number of callbacks so far. -/
def completeSurface (r : ℕ × DisplayServer) (index : ℕ) : ℕ × DisplayServer :=
  let s := r.2
  if s.pendingFrame index = 0 then r
  else
    match s.surfaces.get index with
    | none => (r.1,
        { s with
          pendingFrameCommits :=
            s.pendingFrameCommits.setIfInBounds index 0 })
    | some surface =>
      let presented :=
        { s with
          surfaces := s.surfaces.put index
            (some { surface with
              current := { surface.current with damage := none } }) }
      match presented.pushFrameDone surface.owner surface.id
          (s.pendingFrame index) with
      | (true, s) => (r.1 + 1,
          { s with
            pendingFrameCommits :=
              s.pendingFrameCommits.setIfInBounds index 0 })
      -- a full queue postpones the callback to the next frame
      | (false, s) => (r.1, s)

def completeFrame (s : DisplayServer) : ℕ × DisplayServer :=
  let r := (List.range maxSurfaces).foldl completeSurface
    (0, { s with frameSequence := nextNumber s.frameSequence })
  (r.1,
    { r.2 with
      pendingOutputDamage := SlotTable.empty _ _
      callbacks := saturatingAdd r.2.callbacks (UInt64.ofNat r.1) })

def destroy (owner : FormFin) (surfaceId : UInt32) :
    Mutator DisplayServer DisplayError Unit := fun s =>
  match s.owned owner surfaceId with
  | .done (index, surface) =>
    (.done (),
      { s with
        pendingOutputDamage :=
          if surface.current.visible then
            s.pendingOutputDamage.put index
              (Rect.mergeDamage (s.pendingOutputDamage.get index)
                (some surface.current.rect))
          else s.pendingOutputDamage
        surfaces := s.surfaces.put index none
        pendingFrameCommits :=
          s.pendingFrameCommits.setIfInBounds index 0
        events := s.events.clear fun event =>
          event.owner == owner && event.surfaceId == surfaceId
        focused := if s.focused = some surfaceId then none
          else s.focused })
  | .fail error => (.fail error, s)
  | .halt => (.halt, s)

/-! ## Focus and input -/

def focus (surfaceId : UInt32) : Mutator DisplayServer DisplayError Unit := fun s =>
  let previous := (s.focused.filter (· != surfaceId)).bind fun id =>
    (s.surface id).map fun surface => (id, surface.owner)
  match (s.surfaceIndex surfaceId).bind fun index =>
      (s.surfaces.get index).map fun surface => (index, surface) with
  | none => (.fail .notFound, s)
  | some (index, surface) =>
    if ¬ surface.current.visible ∨ surface.role = .background then
      (.fail .denied, s)
    else
      let s :=
        { s with
          surfaces := s.surfaces.put index
            (some { surface with zIndex := s.nextZ })
          nextZ := UInt16.ofNat (min (s.nextZ.toNat + 1) 65535)
          focused := some surfaceId }
      let s := match previous with
        | some (id, owner) => s.pushEvent owner id .focusOut 0
        | none => s
      (.done (), s.pushEvent surface.owner surfaceId .focusIn 0)

/-- The topmost visible surface at a pixel; of surfaces at the same height the
one in the last slot. -/
def hitTest (s : DisplayServer) (x y : Int16) : Option UInt32 :=
  ((s.surfaces.occupants.filter fun surface =>
    surface.current.visible && surface.current.rect.contains x y).reverse.argmax
      fun surface => surface.zIndex.toNat).map (·.id)

def routeKey (key : UInt8) : Mutator DisplayServer DisplayError Unit := fun s =>
  match s.focused.bind fun id =>
      (s.surface id).map fun surface => (id, surface.owner) with
  | none => (.fail .notFound, s)
  | some (id, owner) => (.done (), s.pushEvent owner id .key key.toUInt64)

def pointerValue (x y : Int16) (buttons changed : UInt8) : UInt64 :=
  x.toUInt16.toUInt64 ||| y.toUInt16.toUInt64 <<< 16 |||
    buttons.toUInt64 <<< 32 ||| changed.toUInt64 <<< 40

def routePointer (x y : Int16) (buttons changed : UInt8) :
    Mutator DisplayServer DisplayError UInt32 := fun s =>
  match (s.hitTest x y).bind fun id =>
      (s.surface id).map fun surface => (id, surface.owner) with
  | none => (.fail .notFound, s)
  | some (id, owner) =>
    let value := pointerValue x y buttons changed
    let s := s.pushPointerMotion owner id value
    (.done id,
      if changed ≠ 0 then s.pushEvent owner id .pointerButton value
      else s)

/-! ## Runs -/

/-- A call of one of the server's entry points. -/
inductive Call where
  | createSurface (owner : FormFin) (title : Bytes) (role : SurfaceRole)
      (rect : Rect)
  | attach (owner : FormFin) (surfaceId : UInt32) (buffer : BufferHandle)
  | damage (owner : FormFin) (surfaceId : UInt32) (damage : Rect)
  | damageRegions (owner : FormFin) (surfaceId : UInt32)
      (regions : List Rect)
  | setPosition (owner : FormFin) (surfaceId : UInt32) (x y : Int16)
  | setGeometry (owner : FormFin) (surfaceId : UInt32) (rect : Rect)
  | setVisible (owner : FormFin) (surfaceId : UInt32) (visible : Bool)
  | commit (owner : FormFin) (surfaceId : UInt32)
  | completeFrame
  | focus (surfaceId : UInt32)
  | destroy (owner : FormFin) (surfaceId : UInt32)
  | routeKey (key : UInt8)
  | routePointer (x y : Int16) (buttons changed : UInt8)
  | pollEvent (owner : FormFin)
deriving DecidableEq

/-- The server after a call. -/
def Call.run : Call → DisplayServer → DisplayServer
  | .createSurface owner title role rect, s =>
    (DisplayServer.createSurface owner title role rect s).2
  | .attach owner id buffer, s => (DisplayServer.attach owner id buffer s).2
  | .damage owner id rect, s => (DisplayServer.damage owner id rect s).2
  | .damageRegions owner id regions, s =>
    (DisplayServer.damageRegions owner id regions s).2
  | .setPosition owner id x y, s =>
    (DisplayServer.setPosition owner id x y s).2
  | .setGeometry owner id rect, s =>
    (DisplayServer.setGeometry owner id rect s).2
  | .setVisible owner id visible, s =>
    (DisplayServer.setVisible owner id visible s).2
  | .commit owner id, s => (DisplayServer.commit owner id s).2
  | .completeFrame, s => (DisplayServer.completeFrame s).2
  | .focus id, s => (DisplayServer.focus id s).2
  | .destroy owner id, s => (DisplayServer.destroy owner id s).2
  | .routeKey key, s => (DisplayServer.routeKey key s).2
  | .routePointer x y buttons changed, s =>
    (DisplayServer.routePointer x y buttons changed s).2
  | .pollEvent owner, s => (DisplayServer.pollEvent owner s).2

/-- The server after a list of calls. -/
def after : List Call → DisplayServer → DisplayServer
  | [], s => s
  | call :: calls, s => after calls (call.run s)

theorem after_append (first rest : List Call) (s : DisplayServer) :
    after (first ++ rest) s = after rest (after first s) := by
  induction first generalizing s with
  | nil => rfl
  | cons call first ih => exact ih _

end DisplayServer

end ExpOS
