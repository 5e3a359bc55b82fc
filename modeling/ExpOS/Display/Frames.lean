import ExpOS.Display.Server
import ExpOS.Support.Callback
import ExpOS.Support.Ring

/-!
# Frame completion events

The server, seen through its surfaces, its waiting commits and its queued
`frameDone` events, is a board of completion notices.  Completing a frame posts
notices; every other call leaves the board alone or takes one of its steps.

Surfaces are told apart by number, and so are commits.  Both counters wrap, so
a run is guarded: no surface is created under the number of another one that
still exists, and the commit counter has not reached its end.
-/

namespace ExpOS

namespace DisplayServer

open Callback Function SlotTable
open UInt64 (toNat_inj ofNat)

/-- A `frameDone` event with a number is queued for a surface. -/
def QueuedFrame (s : DisplayServer) (id : UInt32) (n : UInt64) : Prop :=
  ∃ cell event, s.events.get cell = some event ∧
    event.kind = .frameDone ∧ event.surfaceId = id ∧ event.value = n

/-- The commit a call makes: the surface and the number returned for it. -/
def Call.commits : Call → DisplayServer → List (UInt32 × UInt64)
  | .commit owner id, s =>
    match (DisplayServer.commit owner id s).1 with
    | .done n => [(id, n)]
    | _ => []
  | _, _ => []

/-- The number in the `frameDone` event of a surface that a call delivers. -/
def Call.delivers (id : UInt32) : Call → DisplayServer → List UInt64
  | .pollEvent owner, s =>
    match (DisplayServer.pollEvent owner s).1 with
    | some event =>
      if event.kind = .frameDone ∧ event.surfaceId = id then
        [event.value] else []
    | none => []
  | _, _ => []

/-- The commits of a run. -/
def commitLog : List Call → DisplayServer → List (UInt32 × UInt64)
  | [], _ => []
  | call :: calls, s => call.commits s ++ commitLog calls (call.run s)

/-- The numbers delivered for a surface in a run. -/
def deliveredTo (id : UInt32) : List Call → DisplayServer → List UInt64
  | [], _ => []
  | call :: calls, s =>
    call.delivers id s ++ deliveredTo id calls (call.run s)

/-- The call does not reuse a number that is still in use. -/
def Guarded : Call → DisplayServer → Prop
  | .createSurface .., s => ∀ slot surface,
      s.surfaces.get slot = some surface → surface.id ≠ s.nextSurfaceId
  | .commit .., s => s.commitSequence.toNat + 1 < 2 ^ 64
  | _, _ => True

def AllGuarded : List Call → DisplayServer → Prop
  | [], _ => True
  | call :: calls, s => Guarded call s ∧ AllGuarded calls (call.run s)

/-! ## The board of a server -/

def sourceOf (surface : Surface) : Source UInt32 FormFin :=
  ⟨surface.id, surface.owner, surface.commitSequence.toNat⟩

def noticeOf (event : DisplayEvent) : Option (Notice UInt32 FormFin) :=
  if event.kind = .frameDone then
    some ⟨event.surfaceId, event.owner, event.value.toNat⟩
  else none

def board (s : DisplayServer) (commits : List (UInt32 × UInt64))
    (delivered : UInt32 → List UInt64) : Callback.Board UInt32 FormFin where
  source slot := (s.surfaces.get slot).map sourceOf
  pending slot := (s.pendingFrame slot).toNat
  queued cell := (s.events.get cell).bind noticeOf
  last := s.commitSequence.toNat
  commits := commits.map fun commit => (commit.1, commit.2.toNat)
  delivered id := (delivered id).map UInt64.toNat

section Board

variable {s s' : DisplayServer} {commits : List (UInt32 × UInt64)}
  {delivered : UInt32 → List UInt64}

variable {notice : Notice UInt32 FormFin}

theorem noticeOf_eq_some {event : DisplayEvent} :
    noticeOf event = some notice ↔ event.kind = .frameDone ∧
      notice = ⟨event.surfaceId, event.owner, event.value.toNat⟩ := by
  rw [noticeOf]
  split
  · next hkind => simp [hkind, eq_comm]
  · next hkind => simp [hkind]

theorem board_queued {cell : ℕ} : (board s commits delivered).queued cell = some notice ↔
      ∃ event, s.events.get cell = some event ∧ event.kind = .frameDone ∧
        notice = ⟨event.surfaceId, event.owner, event.value.toNat⟩ := by
  simp only [board, Option.bind_eq_some_iff, noticeOf_eq_some]

theorem board_Queued {id : UInt32} {n : UInt64} : (board s commits delivered).Queued id n.toNat ↔
      s.QueuedFrame id n := by
  constructor
  · rintro ⟨cell, notice, hcell, hid, hvalue⟩
    obtain ⟨event, hget, hkind, rfl⟩ := board_queued.mp hcell
    exact ⟨cell, event, hget, hkind, hid, toNat_inj.mp hvalue⟩
  · rintro ⟨cell, event, hget, hkind, rfl, rfl⟩
    exact ⟨cell, _, board_queued.mpr ⟨event, hget, hkind, rfl⟩, rfl, rfl⟩

/-- The call changes nothing that the board shows. -/
structure Quiet (s s' : DisplayServer) : Prop where
  sources : ∀ slot, (s'.surfaces.get slot).map sourceOf = (s.surfaces.get slot).map sourceOf
  pending : s'.pendingFrameCommits = s.pendingFrameCommits
  notices : ∀ cell, (s'.events.get cell).bind noticeOf = (s.events.get cell).bind noticeOf
  last : s'.commitSequence = s.commitSequence

theorem Quiet.refl (s : DisplayServer) : Quiet s s :=
  ⟨fun _ => rfl, rfl, fun _ => rfl, rfl⟩

theorem Quiet.trans {s'' : DisplayServer} (h : Quiet s s') (h' : Quiet s' s'') : Quiet s s'' :=
  ⟨fun slot => (h'.sources slot).trans (h.sources slot), h'.pending.trans h.pending,
    fun cell => (h'.notices cell).trans (h.notices cell), h'.last.trans h.last⟩

theorem Quiet.board (h : Quiet s s') : s'.board commits delivered = s.board commits delivered := by
  simp only [DisplayServer.board, pendingFrame, h.sources, h.pending, h.notices, h.last]

end Board

/-! ## Quiet calls -/

section Quiet

variable {s : DisplayServer} {p : DisplayEvent → Bool} {cell : ℕ}
  {event : DisplayEvent}

theorem eventCells_get (h : (cell, event) ∈ s.eventCells p) :
    s.events.get cell = some event ∧ p event = true := by
  rw [eventCells, List.mem_filterMap] at h
  obtain ⟨index, -, hindex⟩ := h
  obtain ⟨found, hfound, heq⟩ := Option.map_eq_some_iff.mp hindex
  obtain ⟨rfl, rfl⟩ := Prod.mk.inj heq
  exact Option.filter_eq_some_iff.mp hfound

theorem oldestEvent_get (h : s.oldestEvent p = some (cell, event)) :
    s.events.get cell = some event ∧ p event = true :=
  eventCells_get (List.argmin_mem h)

variable {index : ℕ}

/-- Writing an event of another kind over a cell without a notice. -/
theorem notices_put (hold : (s.events.get index).bind noticeOf = none)
    (hkind : event.kind ≠ .frameDone) (cell : ℕ) :
    ((s.events.put index (some event)).get cell).bind noticeOf =
      (s.events.get cell).bind noticeOf := by
  rw [get_put]
  split
  · next heq =>
      rw [heq.1, hold, Option.bind_some, noticeOf, if_neg hkind]
  · rfl

variable (owner : FormFin) (id : UInt32)

theorem pushEvent_quiet {kind : DisplayEventKind} (hkind : kind ≠ .frameDone) (value : UInt64)
    (s : DisplayServer) : Quiet s (s.pushEvent owner id kind value) := by
  simp only [pushEvent]
  split
  · next index hfree =>
      refine ⟨fun _ => rfl, rfl, notices_put ?_ hkind, rfl⟩
      rw [get_of_freeIndex hfree]
      rfl
  split
  · next index event hoccupied =>
      refine ⟨fun _ => rfl, rfl, notices_put ?_ hkind, rfl⟩
      split at hoccupied
      · obtain ⟨hget, hmotion⟩ := oldestEvent_get hoccupied
        rw [hget, Option.bind_some, noticeOf, if_neg]
        intro hdone
        rw [hdone] at hmotion
        cases hmotion
      · cases hoccupied
  · exact ⟨fun _ => rfl, rfl, fun _ => rfl, rfl⟩

theorem pushPointerMotion_quiet
    (value : UInt64) (s : DisplayServer) : Quiet s (s.pushPointerMotion owner id value) := by
  rw [pushPointerMotion]
  split
  · next index event hnewest =>
      split
      · next hmotion =>
          refine ⟨fun _ => rfl, rfl, notices_put ?_ ?_, rfl⟩
          · rw [(eventCells_get (List.mem_reverse.mp (List.argmax_mem hnewest))).1,
              Option.bind_some, noticeOf, if_neg (by simp [hmotion])]
          · simp [hmotion]
      · exact pushEvent_quiet _ _ (by simp) _ s
  · exact pushEvent_quiet _ _ (by simp) _ s

/-- Rewriting a surface under its number, its owner and its last commit. -/
theorem quiet_put {surface surface' : Surface}
    (hget : s.surfaces.get index = some surface) (hsource : sourceOf surface' = sourceOf surface) :
    ∀ slot, ((s.surfaces.put index (some surface')).get slot).map
      sourceOf = (s.surfaces.get slot).map sourceOf := by
  intro slot
  rw [get_put]
  split
  · next heq => rw [heq.1, hget, Option.map_some, Option.map_some, hsource]
  · rfl

theorem onSurface_quiet {α : Type} {owner : FormFin} {id : UInt32}
    {f : Mutator Surface DisplayError α}
    (h : ∀ surface, sourceOf (f surface).2 = sourceOf surface) :
    Quiet s (onSurface owner id f s).2 := by
  rw [onSurface]
  rcases howned : s.owned owner id with ⟨index, surface⟩ | error | _
  · exact ⟨quiet_put (owned_get howned).1 (h surface), rfl, fun _ => rfl, rfl⟩
  · exact .refl s
  · exact .refl s

@[simp] theorem sourceOf_addPendingDamage (surface : Surface) (damage : Rect) :
    sourceOf (addPendingDamage surface damage) = sourceOf surface :=
  rfl

theorem sourceOf_foldl_addPendingDamage (regions : List Rect) (surface : Surface) :
    sourceOf (regions.foldl addPendingDamage surface) = sourceOf surface := by
  induction regions generalizing surface with
  | nil => rfl
  | cons region regions ih =>
    rw [List.foldl_cons, ih, sourceOf_addPendingDamage]

theorem focus_quiet : Quiet s (focus id s).2 := by
  simp only [focus]
  split
  · exact .refl s
  rename_i index surface hfound
  split
  · exact .refl s
  have hget : s.surfaces.get index = some surface := by
    obtain ⟨found, -, hfound⟩ := Option.bind_eq_some_iff.mp hfound
    obtain ⟨entry, hentry, heq⟩ := Option.map_eq_some_iff.mp hfound
    rw [Prod.mk.injEq] at heq
    rw [← heq.1, ← heq.2, hentry]
  refine Quiet.trans ?_ (pushEvent_quiet _ _ (by simp) _ _)
  have hraised : Quiet s
      { s with
        surfaces := s.surfaces.put index (some { surface with zIndex := s.nextZ })
        nextZ := UInt16.ofNat (min (s.nextZ.toNat + 1) 65535)
        focused := some id } :=
    ⟨quiet_put hget rfl, rfl, fun _ => rfl, rfl⟩
  split
  · exact hraised.trans (pushEvent_quiet _ _ (by simp) _ _)
  · exact hraised

theorem routeKey_quiet (key : UInt8) : Quiet s (routeKey key s).2 := by
  rw [routeKey]
  split
  · exact .refl s
  · exact pushEvent_quiet _ _ (by simp) _ s

theorem routePointer_quiet (x y : Int16) (buttons changed : UInt8) :
    Quiet s (routePointer x y buttons changed s).2 := by
  rw [routePointer]
  split
  · exact .refl s
  split
  · exact (pushPointerMotion_quiet _ _ _ s).trans (pushEvent_quiet _ _ (by simp) _ _)
  · exact pushPointerMotion_quiet _ _ _ s

end Quiet

/-! ## Steps of the board -/

section Steps

variable {s : DisplayServer} {commits : List (UInt32 × UInt64)}
  {delivered : UInt32 → List UInt64}

variable {index : ℕ}

theorem get_put_update {α β : Type} {capacity : ℕ}
    (t : SlotTable α capacity) (h : index < capacity)
    (entry : Option α) (g : Option α → β) : (fun slot => g ((t.put index entry).get slot)) =
      update (fun slot => g (t.get slot)) index (g entry) := by
  funext slot
  by_cases heq : slot = index
  · subst heq
    rw [update_self, get_put_self h]
  · rw [update_of_ne heq, get_put_of_ne heq]

theorem pending_set_update (h : index < maxSurfaces) (v : Vector UInt64 maxSurfaces) (n : UInt64) :
    (fun slot => ((v.setIfInBounds index n)[slot]?.getD 0).toNat) =
      update (fun slot => (v[slot]?.getD 0).toNat) index n.toNat := by
  funext slot
  rw [Vector.getElem?_setIfInBounds]
  by_cases heq : index = slot
  · subst heq
    rw [update_self, if_pos rfl, if_pos h, Option.getD_some]
  · rw [update_of_ne (Ne.symm heq), if_neg heq]

variable {owner : FormFin}

theorem createSurface_board {title : Bytes}
    {role : SurfaceRole} {rect : Rect} (hguard : Guarded (.createSurface owner title role rect) s) :
    let s' := (createSurface owner title role rect s).2
    s'.board commits delivered = s.board commits delivered ∨
      Callback.Board.Step (s.board commits delivered) (s'.board commits delivered) := by
  simp only [createSurface]
  iterate 3
    split
    · exact .inl rfl
  rename_i index hfree
  refine .inr ?_
  rw [(pushEvent_quiet _ _ (by simp) _ _).board]
  have hget := get_of_freeIndex hfree
  have hlt := (slots_of_freeIndex hfree).1
  have hopened := @Callback.Board.Step.opened _ _ _
    (s.board commits delivered) index s.nextSurfaceId owner
    (by simp only [board, hget, Option.map_none]) ?_
  · convert hopened using 1
    simp only [board]
    rw [get_put_update s.surfaces hlt _ (Option.map sourceOf)]
    rfl
  · intro i source hsource
    obtain ⟨surface, hsurface, rfl⟩ := Option.map_eq_some_iff.mp hsource
    exact hguard i surface hsurface

variable {id : UInt32}

theorem commit_board (hguard : Guarded (.commit owner id) s) :
    let s' := (commit owner id s).2
    let commits' := commits ++ Call.commits (.commit owner id) s
    s'.board commits' delivered = s.board commits delivered ∨
      Callback.Board.Step (s.board commits delivered) (s'.board commits' delivered) := by
  simp only [Call.commits, commit]
  rcases howned : s.owned owner id with ⟨index, surface⟩ | error | _
  · obtain ⟨hget, hid, -, -⟩ := owned_get howned
    have hlt := lt_of_get hget
    have hnext : (nextNumber s.commitSequence).toNat =
        s.commitSequence.toNat + 1 := nextNumber_toNat hguard
    have hcommitted := @Callback.Board.Step.committed _ _ _
      (s.board commits delivered) index (sourceOf surface)
      (by simp only [board, hget, Option.map_some])
    refine .inr ?_
    convert hcommitted using 1
    simp only [board, pendingFrame]
    rw [get_put_update s.surfaces hlt _ (Option.map sourceOf), pending_set_update hlt]
    simp [sourceOf, committed, hnext, hid]
  · exact .inl (by simp)
  · exact .inl (by simp)

theorem destroy_board (owner : FormFin) (id : UInt32) :
    let s' := (destroy owner id s).2
    s'.board commits delivered = s.board commits delivered ∨
      Callback.Board.Step (s.board commits delivered) (s'.board commits delivered) := by
  simp only [destroy]
  rcases howned : s.owned owner id with ⟨index, surface⟩ | error | _
  · obtain ⟨hget, hid, howner, -⟩ := owned_get howned
    have hlt := lt_of_get hget
    refine .inr ?_
    have hclosed := @Callback.Board.Step.closed _ _ _ (s.board commits delivered) index
      (sourceOf surface)
      (fun cell => ((s.events.clear fun event =>
        event.owner == owner && event.surfaceId == id).get cell).bind noticeOf)
      (by simp only [board, hget, Option.map_some]) ?_
    · convert hclosed using 1
      simp only [board, pendingFrame]
      rw [get_put_update s.surfaces hlt _ (Option.map sourceOf), pending_set_update hlt]
      rfl
    intro cell notice
    rw [board_queued, get_clear]
    simp only [Option.bind_eq_some_iff, Option.filter_eq_some_iff, noticeOf_eq_some]
    constructor
    · rintro ⟨event, ⟨hevent, hother⟩, hkind, rfl⟩
      refine ⟨⟨event, hevent, hkind, rfl⟩, ?_⟩
      rintro ⟨heid, heowner⟩
      simp [sourceOf] at heid heowner
      simp [heid, heowner, hid, howner] at hother
    · rintro ⟨⟨event, hevent, hkind, rfl⟩, hnot⟩
      refine ⟨event, ⟨hevent, ?_⟩, hkind, rfl⟩
      by_contra hother
      simp only [Bool.not_eq_true', Bool.not_eq_false, Bool.and_eq_true, beq_iff_eq] at hother
      exact hnot ⟨hother.2.trans hid.symm, hother.1.trans howner.symm⟩
  · exact .inl rfl
  · exact .inl rfl

theorem pollEvent_board (owner : FormFin) :
    let s' := (pollEvent owner s).2
    let delivered' := fun id => delivered id ++ Call.delivers id (.pollEvent owner) s
    s'.board commits delivered' = s.board commits delivered ∨
      Callback.Board.Step (s.board commits delivered) (s'.board commits delivered') := by
  simp only [Call.delivers, pollEvent]
  rcases holdest : s.oldestEvent (·.owner == owner) with
    _ | ⟨index, event⟩
  · exact .inl (by simp)
  obtain ⟨hget, -⟩ := oldestEvent_get holdest
  have hlt := lt_of_get hget
  by_cases hkind : event.kind = .frameDone
  · refine .inr ?_
    have hdelivered := @Callback.Board.Step.delivered _ _ _ (s.board commits delivered) index _
      (board_queued.mpr ⟨event, hget, hkind, rfl⟩)
    convert hdelivered using 1
    simp only [board, pendingFrame]
    rw [get_put_update s.events hlt _ (Option.bind · noticeOf)]
    simp only [hkind, true_and, Option.bind_none, Callback.Board.mk.injEq]
    funext id
    by_cases heq : id = event.surfaceId
    · subst heq
      simp
    · rw [update_of_ne heq]
      simp [Ne.symm heq]
  · refine .inl ?_
    simp only [hkind, false_and, if_false, List.append_nil]
    refine Quiet.board ⟨fun _ => rfl, rfl, fun cell => ?_, rfl⟩
    rw [get_put]
    split
    · next heq =>
        rw [heq.1, hget, Option.bind_some, noticeOf, if_neg hkind]
        rfl
    · rfl

/-- Every call but a completed frame leaves the board alone or takes one of
its steps. -/
theorem run_board (call : Call) (hframe : call ≠ .completeFrame) (hguard : Guarded call s) :
    let s' := call.run s
    let commits' := commits ++ call.commits s
    let delivered' := fun id => delivered id ++ call.delivers id s
    s'.board commits' delivered' = s.board commits delivered ∨
      Callback.Board.Step (s.board commits delivered) (s'.board commits' delivered') := by
  have hquiet : ∀ s', Quiet s s' → s'.board (commits ++ []) (fun id => delivered id ++ []) =
        s.board commits delivered := by
    intro s' h
    simp only [List.append_nil]
    exact h.board
  cases call with
  | createSurface owner title role rect =>
    simp only [Call.commits, Call.delivers, List.append_nil]
    exact createSurface_board hguard
  | attach owner id buffer =>
    refine .inl (hquiet _ (onSurface_quiet fun surface => ?_))
    split
    · rfl
    · split
      · rfl
      · rfl
  | damage owner id rect =>
    refine .inl (hquiet _ (onSurface_quiet fun surface => ?_))
    split
    · rfl
    · split
      · rfl
      · rfl
  | damageRegions owner id regions =>
    refine .inl (hquiet _ ?_)
    simp only [Call.run, damageRegions]
    split
    · exact .refl s
    refine onSurface_quiet fun surface => ?_
    split
    · rfl
    · exact sourceOf_foldl_addPendingDamage _ surface
  | setPosition owner id x y =>
    refine .inl (hquiet _ (onSurface_quiet fun surface => ?_))
    split
    · rfl
    · rfl
  | setGeometry owner id rect =>
    refine .inl (hquiet _ ?_)
    simp only [Call.run, setGeometry]
    split
    · exact .refl s
    refine onSurface_quiet fun surface => ?_
    split
    · rfl
    · rfl
  | setVisible owner id visible =>
    refine .inl (hquiet _ (onSurface_quiet fun surface => ?_))
    split
    · rfl
    · rfl
  | commit owner id =>
    simp only [Call.delivers, List.append_nil]
    exact commit_board hguard
  | completeFrame => exact absurd rfl hframe
  | focus id => exact .inl (hquiet _ (focus_quiet id))
  | destroy owner id =>
    simp only [Call.commits, Call.delivers, List.append_nil]
    exact destroy_board owner id
  | routeKey key => exact .inl (hquiet _ (routeKey_quiet key))
  | routePointer x y buttons changed =>
    exact .inl (hquiet _ (routePointer_quiet x y buttons changed))
  | pollEvent owner =>
    simp only [Call.commits, List.append_nil]
    exact pollEvent_board owner

theorem isFrameDone_iff
    {event : DisplayEvent} : isFrameDone owner id event = true ↔ event.owner = owner ∧
      event.surfaceId = id ∧ event.kind = .frameDone := by
  simp [isFrameDone, and_assoc]

variable {sequence : UInt64} {s' : DisplayServer}

/-- A posted notice goes to the cell of the older one, or to a free cell. -/
theorem pushFrameDone_cases (h : s.pushFrameDone owner id sequence = (true, s')) :
    s'.surfaces = s.surfaces ∧ s'.pendingFrameCommits = s.pendingFrameCommits ∧
    s'.commitSequence = s.commitSequence ∧ ∃ cell event, cell < maxDisplayEvents ∧
      s'.events = s.events.put cell (some event) ∧ event.kind = .frameDone ∧ event.surfaceId = id ∧
      event.owner = owner ∧ event.value = sequence ∧ ((∃ old, s.events.get cell = some old ∧
          isFrameDone owner id old = true) ∨
        s.events.get cell = none ∧ ∀ k old, s.events.get k = some old →
          isFrameDone owner id old = false) := by
  rw [pushFrameDone] at h
  rcases hindex : s.events.findIndex (isFrameDone owner id) with _ | cell
  · rw [hindex] at h
    rcases hfree : s.events.freeIndex with _ | cell
    · rw [hfree] at h
      cases h
    rw [hfree] at h
    cases h
    exact ⟨rfl, rfl, rfl, cell, _, (slots_of_freeIndex hfree).1, rfl, rfl, rfl, rfl, rfl,
      .inr ⟨get_of_freeIndex hfree, fun k old hk => findIndex_none hindex hk⟩⟩
  · obtain ⟨⟨old, hget, hold⟩, -⟩ := findIndex_spec hindex
    rw [hindex, Option.bind_some, hget] at h
    cases h
    obtain ⟨howner, hid, hkind⟩ := isFrameDone_iff.mp hold
    exact ⟨rfl, rfl, rfl, cell, _, lt_of_get hget, rfl, hkind,
      hid, howner, rfl, .inl ⟨old, hget, hold⟩⟩

theorem pushFrameDone_full (h : s.pushFrameDone owner id sequence = (false, s')) : s' = s := by
  rw [pushFrameDone] at h
  split at h
  · cases h
  split at h
  · cases h
    rfl
  · cases h

/-- One slot of a completed frame posts the commit that waits in it. -/
theorem completeSurface_board (h : (s.board commits delivered).Accounts) (count index : ℕ) :
    let s' := (completeSurface (count, s) index).2
    s'.board commits delivered = s.board commits delivered ∨
      Callback.Board.Post (s.board commits delivered)
        (s'.board commits delivered) := by
  simp only [completeSurface]
  split
  · exact .inl rfl
  have hpos : (s.board commits delivered).pending index ≠ 0 := by
    change (s.pendingFrame index).toNat ≠ 0
    rwa [ne_eq, ← UInt64.toNat_zero, toNat_inj]
  obtain ⟨source, hsource, -⟩ := h.pending index hpos
  obtain ⟨surface, hget, rfl⟩ := Option.map_eq_some_iff.mp hsource
  have hlt := lt_of_get hget
  rw [hget]
  dsimp only
  split
  · next s' hpush =>
      obtain ⟨hsurfaces, hcommits, hlast, cell, event, hcell, hevents,
        hkind, hid, howner, hvalue, hplace⟩ := pushFrameDone_cases hpush
      have hpost := @Callback.Board.Post.mk _ _ (s.board commits delivered) index
        cell (sourceOf surface) hsource hpos ?_
      · refine .inr ?_
        convert hpost using 1
        simp only [board, pendingFrame]
        rw [hcommits, pending_set_update hlt, hevents,
          get_put_update s.events hcell _ (Option.bind · noticeOf), hsurfaces, hlast]
        simp only [quiet_put hget (rfl : sourceOf { surface with
          current := { surface.current with damage := none } } =
            sourceOf surface), Option.bind_some, noticeOf, hkind, hid, howner, hvalue]
        rfl
      · rcases hplace with ⟨old, hold, hdone⟩ | ⟨hfree, hnone⟩
        · obtain ⟨hoowner, hoid, hokind⟩ := isFrameDone_iff.mp hdone
          exact .inl ⟨_, board_queued.mpr ⟨old, hold, hokind, rfl⟩, hoid, hoowner⟩
        refine .inr ⟨?_, ?_⟩
        · simp only [board]
          rw [hfree]
          rfl
        intro k notice hk hof
        obtain ⟨old, hold, hkind', rfl⟩ := board_queued.mp hk
        have hdone : isFrameDone surface.owner surface.id old =
            true := isFrameDone_iff.mpr ⟨hof.2, hof.1, hkind'⟩
        rw [hnone k old hold] at hdone
        cases hdone
  rename_i s' hpush
  refine .inl ?_
  rw [pushFrameDone_full hpush]
  exact Quiet.board ⟨quiet_put hget rfl, rfl, fun _ => rfl, rfl⟩

/-- Completing a frame posts notices, slot by slot. -/
theorem completeFrame_board (h : (s.board commits delivered).Accounts) :
    Relation.ReflTransGen Callback.Board.Post (s.board commits delivered)
      ((completeFrame s).2.board commits delivered) := by
  have hfold : ∀ (slots : List ℕ) (r : ℕ × DisplayServer),
      Relation.ReflTransGen Callback.Board.Post (s.board commits delivered)
        (r.2.board commits delivered) →
      Relation.ReflTransGen Callback.Board.Post (s.board commits delivered)
        ((slots.foldl completeSurface r).2.board commits delivered) := by
    intro slots
    induction slots with
    | nil => exact fun r hr => hr
    | cons slot slots ih =>
      rintro ⟨count, t⟩ ht
      apply ih
      rcases completeSurface_board (h.posts ht) count slot with heq | hpost
      · dsimp only at heq
        rw [heq]
        exact ht
      · exact ht.tail hpost
  have hstart : Quiet s
      { s with frameSequence := nextNumber s.frameSequence } :=
    ⟨fun _ => rfl, rfl, fun _ => rfl, rfl⟩
  have hrun := hfold (List.range maxSurfaces)
    (0, { s with frameSequence := nextNumber s.frameSequence })
    (by rw [hstart.board])
  simp only [completeFrame]
  generalize (List.range maxSurfaces).foldl completeSurface _ = r at hrun ⊢
  exact hrun

end Steps

/-! ## Runs -/

section Runs

variable {s : DisplayServer} {commits : List (UInt32 × UInt64)}
  {delivered : UInt32 → List UInt64}

variable {call : Call}

/-- Only a completed frame queues a `frameDone` event. -/
theorem QueuedFrame.of_run {id : UInt32} {n : UInt64}
    (h : (call.run s).QueuedFrame id n) (hframe : call ≠ .completeFrame)
    (hguard : Guarded call s) : s.QueuedFrame id n := by
  have hboard := @run_board s [] (fun _ => []) call hframe hguard
  have hqueued := (@board_Queued (call.run s) ([] ++ call.commits s)
    (fun id => [] ++ call.delivers id s) id n).mpr h
  rcases hboard with heq | hstep
  · rw [heq] at hqueued
    exact board_Queued.mp hqueued
  · exact board_Queued.mp (hstep.queued_of hqueued)

theorem accounts_run (h : (s.board commits delivered).Accounts) (hguard : Guarded call s) :
    ((call.run s).board (commits ++ call.commits s)
      fun id => delivered id ++ call.delivers id s).Accounts := by
  by_cases hframe : call = .completeFrame
  · subst hframe
    simp only [Call.commits, Call.delivers, List.append_nil]
    exact h.posts (completeFrame_board h)
  · rcases run_board call hframe hguard with heq | hstep
    · rw [heq]
      exact h
    · exact h.step hstep

variable {calls : List Call}

theorem accounts_after (h : (s.board commits delivered).Accounts) (hguard : AllGuarded calls s) :
    ((after calls s).board (commits ++ commitLog calls s)
      fun id => delivered id ++ deliveredTo id calls s).Accounts := by
  induction calls generalizing s commits delivered with
  | nil =>
    simp only [commitLog, deliveredTo, List.append_nil]
    exact h
  | cons call calls ih =>
    simp only [commitLog, deliveredTo, ← List.append_assoc]
    exact ih (accounts_run h hguard.1) hguard.2

theorem new_board :
    new.board [] (fun _ => []) = (.blank : Callback.Board UInt32 FormFin) := by
  have hpending : ∀ slot, (new.pendingFrame slot).toNat = 0 := by
    intro slot
    rw [pendingFrame, new, Vector.getElem?_replicate]
    split
    · rfl
    · rfl
  simp only [board, hpending]
  simp [new, get_empty, Callback.Board.blank]

theorem accounts_new (hguard : AllGuarded calls new) :
    ((after calls new).board (commitLog calls new)
      fun id => deliveredTo id calls new).Accounts := by
  have hnew : (new.board [] fun _ => []).Accounts := by
    rw [new_board]
    exact Callback.Board.blank_accounts
  simpa using accounts_after hnew hguard

theorem AllGuarded.of_append {first rest : List Call} (h : AllGuarded (first ++ rest) s) :
    AllGuarded first s ∧ AllGuarded rest (DisplayServer.after first s) := by
  induction first generalizing s with
  | nil => exact ⟨trivial, h⟩
  | cons call first ih => exact ⟨⟨h.1, (ih h.2).1⟩, (ih h.2).2⟩

end Runs

/-- In a guarded run a `frameDone` event is queued only by a frame completed
after its commit, the numbers delivered for a surface increase, and the last
commit of a surface is at every moment waiting for a frame, queued, or the
last one delivered. -/
theorem frame_done_delivery (calls : List Call) (hguard : AllGuarded calls new) :
    (∀ first call, first ++ [call] <+: calls → ∀ id n,
      (after (first ++ [call]) new).QueuedFrame id n → ¬ (after first new).QueuedFrame id n →
      call = .completeFrame ∧ (id, n) ∈ commitLog first new) ∧
    (∀ id, (deliveredTo id calls new).Pairwise (· < ·)) ∧ ∀ first, first <+: calls → ∀ slot surface,
      (after first new).surfaces.get slot = some surface → surface.commitSequence ≠ 0 →
      (after first new).pendingFrame slot = surface.commitSequence ∨
      (after first new).QueuedFrame surface.id surface.commitSequence ∨
      (deliveredTo surface.id first new).getLast? = some surface.commitSequence := by
  refine ⟨?_, ?_, ?_⟩
  · rintro first call ⟨rest, rfl⟩ id n hqueued hnot
    obtain ⟨hfirst, hcall, -⟩ := hguard.of_append.1.of_append
    have haccounts := accounts_new hfirst
    rw [after_append] at hqueued
    by_cases hframe : call = .completeFrame
    · subst hframe
      obtain ⟨cell, notice, hcell, rfl, hvalue⟩ := board_Queued.mpr hqueued
      have hlogged := ((haccounts.posts (completeFrame_board haccounts)).queued cell notice hcell).1
      obtain ⟨⟨id', m⟩, hmem, heq⟩ := List.mem_map.mp hlogged
      obtain ⟨rfl, hm⟩ := Prod.mk.inj heq
      rw [hvalue, toNat_inj] at hm
      exact ⟨rfl, hm ▸ hmem⟩
    · exact absurd (hqueued.of_run hframe hcall) hnot
  · intro id
    have hsorted := (accounts_new hguard).sorted id
    rw [board, List.pairwise_map] at hsorted
    exact hsorted.imp fun hlt => UInt64.lt_iff_toNat_lt.mpr hlt
  · rintro first ⟨rest, rfl⟩ slot surface hget hne
    have haccounts := accounts_new hguard.of_append.1
    have hsource : (board (after first new) (commitLog first new)
        fun id => deliveredTo id first new).source slot = some (sourceOf surface) := by
      simp only [board, hget, Option.map_some]
    rcases haccounts.accounted slot _ hsource
      (fun hzero => hne (toNat_inj.mp hzero)) with hold | hold | hold
    · exact .inl (toNat_inj.mp hold)
    · exact .inr (.inl (board_Queued.mp hold))
    · refine .inr (.inr ?_)
      simp only [board, List.getLast?_map, Option.map_eq_some_iff] at hold
      obtain ⟨m, hlast, hm⟩ := hold
      exact hlast.trans (congrArg some (toNat_inj.mp hm))

/-- The Form that opens all the surfaces. -/
def opener : FormFin := FormFin.fromU128 1

def openWindow : Call := .createSurface opener [65] .window ⟨0, 0, 8, 8⟩

/-- Two surfaces commit while key events fill the queue, so that the first
frame reports no commit and the second one only one of them. -/
def crowdedFrames : List Call :=
  [openWindow, openWindow, .focus 1] ++ List.replicate 29 (.routeKey 65) ++
    [.commit opener 1, .commit opener 2, .completeFrame, .pollEvent opener, .completeFrame] ++
    List.replicate 32 (.pollEvent opener) ++
    [.commit opener 1, .completeFrame, .pollEvent opener, .pollEvent opener]

theorem crowdedFrames_delivered : deliveredTo 1 crowdedFrames new = [1, 3] ∧
    deliveredTo 2 crowdedFrames new = [2] ∧ (deliveredTo 1 crowdedFrames new).Pairwise (· < ·) := by
  have hfresh : ∀ s : DisplayServer, (∀ surface ∈ s.surfaces.occupants,
      surface.id ≠ s.nextSurfaceId) → Guarded openWindow s :=
    fun s h slot surface hget => h surface (mem_occupants_of_get hget)
  have hcommit : ∀ s : DisplayServer, s.commitSequence.toNat + 1 < 2 ^ 64 →
      ∀ id, Guarded (.commit opener id) s := fun s h _ => h
  have hguard : AllGuarded crowdedFrames new := by
    refine ⟨hfresh _ (by decide +kernel), hfresh _ (by decide +kernel), trivial, ?_⟩
    iterate 29 refine ⟨trivial, ?_⟩
    refine ⟨hcommit _ (by decide +kernel) 1, hcommit _ (by decide +kernel) 2, ?_⟩
    iterate 35 refine ⟨trivial, ?_⟩
    exact ⟨hcommit _ (by decide +kernel) 1, trivial, trivial, trivial, trivial⟩
  exact ⟨by decide +kernel, by decide +kernel, (frame_done_delivery crowdedFrames hguard).2.1 1⟩

/-! ## Reused numbers -/

/-- Of two surfaces the second commits and the first is destroyed. -/
def reuseStart : List Call :=
  [openWindow, openWindow, .commit opener 2, .destroy opener 1, .pollEvent opener]

/-- The numbers given to surfaces, from the third on; zero is skipped. -/
def surfaceNumber (k : ℕ) : UInt32 :=
  UInt32.ofNat ((k + 2) % (2 ^ 32 - 1) + 1)

/-- Surfaces opened and destroyed one after the other. -/
def reuseCycles (n : ℕ) : List Call :=
  (List.range n).flatMap fun k =>
    [openWindow, .destroy opener (surfaceNumber k)]

/-- A surface with the number of the one that is left commits too. -/
def reuseEnd : List Call := [openWindow, .commit opener 2, .completeFrame]

def reuseRun : List Call :=
  reuseStart ++ reuseCycles (2 ^ 32 - 2) ++ reuseEnd

/-- The server between the cycles. -/
def parked (id : UInt32) (z : UInt16) (serial : UInt64) : DisplayServer :=
  { after reuseStart new with
    nextSurfaceId := id
    nextZ := z
    nextEventSerial := serial }

theorem started_surfaces : (after reuseStart new).surfaces.freeIndex = some 0 ∧
      (after reuseStart new).surfaces.put 0 none = (after reuseStart new).surfaces := by
  decide +kernel

theorem started_events : (after reuseStart new).events = .empty _ _ := by
  decide +kernel

theorem started_rest : (after reuseStart new).pendingOutputDamage.put 0
        (Rect.mergeDamage ((after reuseStart new).pendingOutputDamage.get 0) (some ⟨0, 0, 8, 8⟩)) =
      (after reuseStart new).pendingOutputDamage ∧
    (after reuseStart new).pendingFrameCommits.setIfInBounds 0 0 =
      (after reuseStart new).pendingFrameCommits ∧ (after reuseStart new).focused = none := by
  decide +kernel

/-- One more surface is opened and destroyed. -/
theorem parked_cycle (id : UInt32) (z : UInt16) (serial : UInt64) :
    after [openWindow, .destroy opener id] (parked id z serial) =
      parked (max (id + 1) 1) (UInt16.ofNat (min (z.toNat + 1) 65535)) (nextNumber serial) := by
  obtain ⟨hfree, hput⟩ := started_surfaces
  obtain ⟨hdamage, hframes, hfocused⟩ := started_rest
  have htext : Text.new [65] = .ok ⟨[65], by decide, isAscii_iff.mp rfl⟩ := rfl
  have hevents : (empty DisplayEvent maxDisplayEvents).freeIndex = some 0 := rfl
  simp only [after, Call.run, openWindow, createSurface, htext]
  rw [if_neg (by decide)]
  simp only [parked, hfree, pushEvent, started_events, hevents]
  have howned : ∀ (s : DisplayServer) (surface : Surface),
      s.surfaces.get 0 = some surface → surface.id = id →
      surface.owner = opener → s.owned opener id = .done (0, surface) := by
    intro s surface hget hid howner
    rw [owned, surfaceIndex, findIndex_zero hget (by simp [hid]),
      Option.bind_some, hget, Option.map_some]
    simp [howner]
  rw [destroy, howned _ _ (get_put_self (by decide) _) rfl rfl]
  simp only [if_true, hdamage, put_put, hput, hframes, hfocused, DisplayServer.mk.injEq]
  simp
  apply ext_get
  intro index _
  rw [get_clear, get_put]
  split
  · simp [get_empty]
  · simp [get_empty]

theorem surfaceNumber_succ (k : ℕ) : max (surfaceNumber k + 1) 1 = surfaceNumber (k + 1) := by
  have hlt : (k + 2) % (2 ^ 32 - 1) < 2 ^ 32 - 1 := Nat.mod_lt _ (by norm_num)
  have hcurrent : (surfaceNumber k).toNat = (k + 2) % (2 ^ 32 - 1) + 1 :=
    UInt32.toNat_ofNat_of_lt' (lt_of_lt_of_le (Nat.succ_lt_succ hlt) (by norm_num))
  by_cases hlast : (k + 2) % (2 ^ 32 - 1) = 2 ^ 32 - 2
  · have hwrap : (k + 1 + 2) % (2 ^ 32 - 1) = 0 := by omega
    rw [surfaceNumber, surfaceNumber, hlast, hwrap]
    decide
  have hnext : (k + 1 + 2) % (2 ^ 32 - 1) = (k + 2) % (2 ^ 32 - 1) + 1 := by omega
  have hsmall : (surfaceNumber k).toNat + 1 < 2 ^ 32 := by
    rw [hcurrent]
    omega
  apply UInt32.toNat_inj.mp
  rw [toNat_max_succ32 hsmall, hcurrent, surfaceNumber, hnext, UInt32.toNat_ofNat_of_lt']
  change _ < 2 ^ 32
  omega

theorem reuseCycles_succ (n : ℕ) : reuseCycles (n + 1) =
      reuseCycles n ++ [openWindow, .destroy opener (surfaceNumber n)] := by
  simp [reuseCycles, List.range_succ]

theorem parked_cycles (n : ℕ) (hn : n + 4 < 2 ^ 64) : after (reuseCycles n) (after reuseStart new) =
      parked (surfaceNumber n) (UInt16.ofNat (min (n + 3) 65535)) (UInt64.ofNat (n + 3)) := by
  induction n with
  | zero => rfl
  | succ n ih =>
    have hserial : nextNumber (ofNat (n + 3)) = ofNat (n + 1 + 3) := by
      have hnumber : ∀ m < 2 ^ 64, (ofNat m).toNat = m :=
        fun m hm => UInt64.toNat_ofNat_of_lt' hm
      apply toNat_inj.mp
      rw [nextNumber_toNat (by rw [hnumber _ (by omega)]; omega),
        hnumber _ (by omega), hnumber _ (by omega)]
    have hz : min ((UInt16.ofNat (min (n + 3) 65535)).toNat + 1) 65535 = min (n + 1 + 3) 65535 := by
      rw [UInt16.toNat_ofNat_of_lt' (by change _ < 2 ^ 16; omega)]
      omega
    rw [reuseCycles_succ, after_append, ih (by omega), parked_cycle,
      surfaceNumber_succ, hserial, hz]

theorem reuseRun_after : after reuseRun new = after reuseEnd (parked 2 65535 4294967297) := by
  rw [reuseRun, after_append, after_append, parked_cycles _ (by norm_num)]
  rfl

variable {id : UInt32}

/-- Without polling nothing is delivered. -/
theorem deliveredTo_nil {calls : List Call} (h : ∀ call ∈ calls, ∀ owner, call ≠ .pollEvent owner)
    (s : DisplayServer) : deliveredTo id calls s = [] := by
  induction calls generalizing s with
  | nil => rfl
  | cons call calls ih =>
    rw [deliveredTo, ih fun later hlater => h later
      (List.mem_cons_of_mem _ hlater), List.append_nil]
    cases call with
    | pollEvent owner =>
      exact absurd rfl (h _ List.mem_cons_self owner)
    | _ => rfl

theorem deliveredTo_append (first rest : List Call) (s : DisplayServer) :
    deliveredTo id (first ++ rest) s =
      deliveredTo id first s ++ deliveredTo id rest (after first s) := by
  induction first generalizing s with
  | nil => rfl
  | cons call first ih =>
    rw [List.cons_append, deliveredTo, deliveredTo, ih, List.append_assoc]
    rfl

theorem reuseRun_delivered : deliveredTo 2 reuseRun new = [] := by
  have hstart : deliveredTo 2 reuseStart new = [] := by decide +kernel
  rw [reuseRun, List.append_assoc, deliveredTo_append, hstart, List.nil_append]
  apply deliveredTo_nil
  intro call hcall owner
  rw [List.mem_append, reuseCycles, List.mem_flatMap] at hcall
  rcases hcall with ⟨k, -, hcall⟩ | hcall
  · simp only [openWindow, List.mem_cons, List.not_mem_nil, or_false] at hcall
    rcases hcall with rfl | rfl
    · simp
    · simp
  · simp only [reuseEnd, openWindow, List.mem_cons, List.not_mem_nil, or_false] at hcall
    rcases hcall with rfl | rfl | rfl
    · simp
    · simp
    · simp

/-- Two surfaces have the number 2 after the numbers have wrapped.  Their
`frameDone` events coalesce, and the newer commit is lost. -/
theorem reused_number_loses_frame : ∃ surface, (after reuseRun new).surfaces.get 0 = some surface ∧
      surface.id = 2 ∧ surface.commitSequence = 2 ∧ (after reuseRun new).pendingFrame 0 = 0 ∧
      ¬ (after reuseRun new).QueuedFrame 2 2 ∧ deliveredTo 2 reuseRun new = [] := by
  rw [reuseRun_after, reuseRun_delivered]
  have hsurface : ((after reuseEnd (parked 2 65535 4294967297)).surfaces.get 0).map
        (fun surface => (surface.id, surface.commitSequence)) =
      some (2, 2) := by decide +kernel
  have hqueue : ∀ event ∈ (after reuseEnd
      (parked 2 65535 4294967297)).events.occupants, event.value ≠ 2 := by decide +kernel
  obtain ⟨surface, hget, hpair⟩ := Option.map_eq_some_iff.mp hsurface
  obtain ⟨hid, hsequence⟩ := Prod.mk.inj hpair
  refine ⟨surface, hget, hid, hsequence, by decide +kernel, ?_, rfl⟩
  rintro ⟨cell, event, hevent, -, -, hvalue⟩
  exact hqueue event (mem_occupants_of_get hevent) hvalue

end DisplayServer

end ExpOS
