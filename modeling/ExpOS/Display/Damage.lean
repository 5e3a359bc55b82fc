import ExpOS.Display.Server

/-!
# Output damage

The regions to be repainted are kept as one rectangle for each surface slot.
A commit merges the footprints it changes into the rectangle of its slot, and
so does the end of a visible surface; a completed frame clears them all.

The rectangle around two others can be wider than its 16-bit size can say.
As long as what is merged lies in one window of 65535 by 65535 pixels this
does not happen, and no pixel is lost before the next frame.
-/

namespace ExpOS

open List SlotTable Option Rect

namespace DisplayServer

/-- The pixel must be repainted after a surface goes from one state to
another. -/
def CommitAffects (old new : SurfaceState) (x y : Int16) : Prop :=
  ((old.rect ≠ new.rect ∨ old.visible ≠ new.visible) ∧ (old.visible = true ∧ old.rect.Covers x y ∨
      new.visible = true ∧ new.rect.Covers x y)) ∨
  (new.visible = true ∧ ∃ damage ∈ new.damage, Rect.CoversLocal new.rect damage x y)

/-- The pixel must be repainted after the call. -/
def Affected (call : Call) (s : DisplayServer) (x y : Int16) : Prop :=
  match call with
  | .commit owner surfaceId => ∃ index surface,
      s.owned owner surfaceId = .done (index, surface) ∧
        CommitAffects surface.current surface.pending x y
  | .destroy owner surfaceId => ∃ index surface,
      s.owned owner surfaceId = .done (index, surface) ∧
        surface.current.visible = true ∧ surface.current.rect.Covers x y
  | _ => False

/-- One of the regions to be repainted covers the pixel. -/
def Damaged (s : DisplayServer) (x y : Int16) : Prop :=
  ∃ rect ∈ s.pendingOutputDamage.occupants, rect.Covers x y

/-! ## Footprints -/

/-- The rectangles a commit merges. -/
def commitFootprints (old new : SurfaceState) : List Rect :=
  (if (old.rect ≠ new.rect ∨ old.visible ≠ new.visible) ∧ old.visible then
    [old.rect] else []) ++
  (if (old.rect ≠ new.rect ∨ old.visible ≠ new.visible) ∧ new.visible then
    [new.rect] else []) ++
  if new.visible then
    (new.damage.map (Rect.translateDamage new.rect)).toList else []

/-- The slot and the rectangles a call merges into its damage. -/
def footprints : Call → DisplayServer → Option (ℕ × List Rect)
  | .commit owner surfaceId, s =>
    match s.owned owner surfaceId with
    | .done (index, surface) =>
      some (index, commitFootprints surface.current surface.pending)
    | _ => none
  | .destroy owner surfaceId, s =>
    match s.owned owner surfaceId with
    | .done (index, surface) =>
      if surface.current.visible then
        some (index, [surface.current.rect])
      else none
    | _ => none
  | _, _ => none

/-- What the call merges lies in one window, with the damage of its slot. -/
def InOneWindow (call : Call) (s : DisplayServer) : Prop :=
  ∀ index rects, footprints call s = some (index, rects) →
    ∃ window, ∀ rect ∈ (s.pendingOutputDamage.get index).toList ++ rects, Rect.InWindow window rect

def AllInOneWindow : List Call → DisplayServer → Prop
  | [], _ => True
  | call :: calls, s => InOneWindow call s ∧ AllInOneWindow calls (call.run s)

/-- Rectangles merged one after the other. -/
def mergeAll (damage : Option Rect) (rects : List Rect) : Option Rect :=
  rects.foldl (fun damage rect => Rect.mergeDamage damage (some rect)) damage

@[simp] theorem mergeDamage_none (damage : Option Rect) :
    mergeDamage damage none = damage := by
  cases damage <;> rfl

theorem committedOutputDamage_eq (old new : SurfaceState) : committedOutputDamage old new =
      mergeAll none (commitFootprints old new) := by
  simp only [committedOutputDamage, commitFootprints, mergeAll]
  rcases new.damage with _ | damage
  · split <;> split <;> split <;> simp_all
  · split <;> split <;> split <;> simp_all

section Window

variable {window : Rect.Window} {damage : Option Rect} {rects : List Rect}

theorem inWindow_mergeAll (hdamage : ∀ rect ∈ damage, Rect.InWindow window rect)
    (hrects : ∀ rect ∈ rects, Rect.InWindow window rect) :
    ∀ rect ∈ mergeAll damage rects, Rect.InWindow window rect := by
  induction rects generalizing damage with
  | nil => exact hdamage
  | cons first rects ih =>
    refine ih (inWindow_mergeDamage hdamage ?_)
      fun rect hrect => hrects rect (mem_cons_of_mem _ hrect)
    rintro rect ⟨⟩
    exact hrects first mem_cons_self

/-- Merging rectangles of one window loses none of their pixels. -/
theorem damages_mergeAll (hdamage : ∀ rect ∈ damage, Rect.InWindow window rect)
    (hrects : ∀ rect ∈ rects, Rect.InWindow window rect) {x y : Int16}
    (h : Rect.Damages damage x y ∨ ∃ rect ∈ rects, rect.Covers x y) :
    Rect.Damages (mergeAll damage rects) x y := by
  induction rects generalizing damage with
  | nil =>
    rcases h with h | ⟨_, hnil, -⟩
    · exact h
    · cases hnil
  | cons first rects ih =>
    have hfirst : ∀ rect ∈ some first, Rect.InWindow window rect := by
      rintro rect ⟨⟩
      exact hrects first mem_cons_self
    refine ih (inWindow_mergeDamage hdamage hfirst)
      (fun rect hrect => hrects rect (mem_cons_of_mem _ hrect)) ?_
    rcases h with h | ⟨rect, hrect, hcovers⟩
    · exact .inl (damages_mergeDamage hdamage hfirst (.inl h))
    · rcases mem_cons.mp hrect with rfl | hrect
      · exact .inl (damages_mergeDamage hdamage hfirst (.inr ⟨rect, rfl, hcovers⟩))
      · exact .inr ⟨rect, hrect, hcovers⟩

end Window

variable {x y : Int16}

/-- A pixel that a commit affects lies in one of its footprints. -/
theorem covers_of_commitAffects {old new : SurfaceState} (h : CommitAffects old new x y) :
    ∃ rect ∈ commitFootprints old new, rect.Covers x y := by
  simp only [commitFootprints, mem_append]
  rcases h with ⟨hchanged, ⟨hvisible, hcovers⟩ | ⟨hvisible, hcovers⟩⟩ |
    ⟨hvisible, damage, hdamage, hcovers⟩
  · refine ⟨old.rect, .inl (.inl ?_), hcovers⟩
    rw [if_pos ⟨hchanged, hvisible⟩]
    exact mem_singleton_self _
  · refine ⟨new.rect, .inl (.inr ?_), hcovers⟩
    rw [if_pos ⟨hchanged, hvisible⟩]
    exact mem_singleton_self _
  · refine ⟨_, ?_, covers_translateDamage hcovers⟩
    rw [mem_def] at hdamage
    simp [hvisible, hdamage]

/-! ## One call -/

section Step

variable {call : Call} {s : DisplayServer} {x y : Int16} (owner : FormFin) (id : UInt32)

theorem pushEvent_damage (kind : DisplayEventKind) (value : UInt64) (s : DisplayServer) :
    (s.pushEvent owner id kind value).pendingOutputDamage = s.pendingOutputDamage := by
  simp only [pushEvent]
  split
  · rfl
  · split
    · rfl
    · rfl

theorem pushPointerMotion_damage (value : UInt64) (s : DisplayServer) :
    (s.pushPointerMotion owner id value).pendingOutputDamage = s.pendingOutputDamage := by
  rw [pushPointerMotion]
  split
  · split
    · rfl
    · exact pushEvent_damage _ _ _ _ _
  · exact pushEvent_damage _ _ _ _ _

theorem onSurface_damage {α : Type} (f : Mutator Surface DisplayError α) (s : DisplayServer) :
    (onSurface owner id f s).2.pendingOutputDamage = s.pendingOutputDamage := by
  rw [onSurface]
  split
  · rfl
  · rfl
  · rfl

/-- A call that does not complete a frame merges its footprints into the
damage of one slot. -/
theorem run_damage (hframe : call ≠ .completeFrame) : (call.run s).pendingOutputDamage =
      match footprints call s with
      | some (index, rects) => s.pendingOutputDamage.put index
          (mergeDamage (s.pendingOutputDamage.get index) (mergeAll none rects))
      | none => s.pendingOutputDamage := by
  cases call with
  | createSurface owner title role rect =>
    simp only [Call.run, createSurface]
    split
    · rfl
    split
    · rfl
    · split
      · rfl
      · exact pushEvent_damage _ _ _ _ _
  | attach owner id buffer => exact onSurface_damage _ _ _ s
  | damage owner id rect => exact onSurface_damage _ _ _ s
  | damageRegions owner id regions =>
    simp only [Call.run, damageRegions, footprints]
    split
    · rfl
    · exact onSurface_damage _ _ _ s
  | setPosition owner id x y => exact onSurface_damage _ _ _ s
  | setGeometry owner id rect =>
    simp only [Call.run, setGeometry, footprints]
    split
    · rfl
    · exact onSurface_damage _ _ _ s
  | setVisible owner id visible => exact onSurface_damage _ _ _ s
  | commit owner id =>
    simp only [Call.run, commit, footprints]
    rcases s.owned owner id with ⟨index, surface⟩ | error | _
    · dsimp only
      rw [committedOutputDamage_eq]
    · rfl
    · rfl
  | completeFrame => exact absurd rfl hframe
  | focus id =>
    simp only [Call.run, focus, footprints]
    split
    · rfl
    split
    · rfl
    rw [pushEvent_damage]
    split
    · rw [pushEvent_damage]
    · rfl
  | destroy owner id =>
    simp only [Call.run, destroy, footprints]
    rcases s.owned owner id with ⟨index, surface⟩ | error | _
    · by_cases hvisible : surface.current.visible = true
      · simp [hvisible, mergeAll, mergeDamage]
      · simp [hvisible]
    · rfl
    · rfl
  | routeKey key =>
    simp only [Call.run, routeKey, footprints]
    split
    · rfl
    · exact pushEvent_damage _ _ _ _ _
  | routePointer x y buttons changed =>
    simp only [Call.run, routePointer, footprints]
    split
    · rfl
    split
    · rw [pushEvent_damage, pushPointerMotion_damage]
    · rw [pushPointerMotion_damage]
  | pollEvent owner =>
    simp only [Call.run, pollEvent, footprints]
    split
    · rfl
    · rfl

theorem damaged_iff : s.Damaged x y ↔
      ∃ index, Rect.Damages (s.pendingOutputDamage.get index) x y := by
  constructor
  · rintro ⟨rect, hrect, hcovers⟩
    obtain ⟨index, hget⟩ := exists_get_of_mem_occupants hrect
    exact ⟨index, rect, hget, hcovers⟩
  · rintro ⟨index, rect, hget, hcovers⟩
    exact ⟨rect, mem_occupants_of_get hget, hcovers⟩

/-- A call in one window keeps what is damaged and adds its footprints. -/
theorem damaged_run (hframe : call ≠ .completeFrame) (hwindow : InOneWindow call s)
    (h : s.Damaged x y ∨ ∃ index rects, index < maxSurfaces ∧
      footprints call s = some (index, rects) ∧ ∃ rect ∈ rects, rect.Covers x y) :
    (call.run s).Damaged x y := by
  rw [damaged_iff] at h ⊢
  rw [run_damage hframe]
  rcases hfoot : footprints call s with _ | ⟨index, rects⟩
  · rcases h with h | ⟨_, _, -, hsome, -⟩
    · exact h
    · rw [hfoot] at hsome
      cases hsome
  obtain ⟨window, hin⟩ := hwindow index rects hfoot
  have hdamage : ∀ rect ∈ s.pendingOutputDamage.get index,
      Rect.InWindow window rect := fun rect hrect =>
    hin rect (mem_append_left _ (mem_toList.mpr hrect))
  have hrects : ∀ rect ∈ mergeAll none rects, Rect.InWindow window rect :=
    inWindow_mergeAll (by simp) fun rect hrect => hin rect (mem_append_right _ hrect)
  rcases h with ⟨i, hdamaged⟩ | ⟨i, found, hi, hsome, rect, hrect, hcovers⟩
  · refine ⟨i, ?_⟩
    rw [get_put]
    split
    · next heq =>
        rw [heq.1] at hdamaged
        exact damages_mergeDamage hdamage hrects (.inl hdamaged)
    · exact hdamaged
  · rw [hfoot, some.injEq] at hsome
    obtain ⟨rfl, rfl⟩ := hsome
    refine ⟨index, ?_⟩
    rw [get_put_self hi]
    refine damages_mergeDamage hdamage hrects (.inr ?_)
    exact damages_mergeAll (by simp) (fun rect hrect => hin rect (mem_append_right _ hrect))
      (.inr ⟨rect, hrect, hcovers⟩)

/-- A pixel that a call affects lies in one of its footprints. -/
theorem Affected.covers (h : Affected call s x y) :
    call ≠ .completeFrame ∧ ∃ index rects, index < maxSurfaces ∧
      footprints call s = some (index, rects) ∧ ∃ rect ∈ rects, rect.Covers x y := by
  cases call with
  | commit owner id =>
    obtain ⟨index, surface, howned, haffects⟩ := h
    refine ⟨by simp, index, _, lt_of_get (owned_get howned).1, ?_, covers_of_commitAffects haffects⟩
    simp only [footprints, howned]
  | destroy owner id =>
    obtain ⟨index, surface, howned, hvisible, hcovers⟩ := h
    refine ⟨by simp, index, _, lt_of_get (owned_get howned).1,
      ?_, surface.current.rect, mem_singleton_self _, hcovers⟩
    simp only [footprints, howned, hvisible, if_true]
  | _ => exact h.elim

end Step

/-! ## Runs -/

variable {s : DisplayServer}

theorem Damaged.after (h : s.Damaged x y) {calls : List Call} (hframe : .completeFrame ∉ calls)
    (hwindow : AllInOneWindow calls s) : (after calls s).Damaged x y := by
  induction calls generalizing s with
  | nil => exact h
  | cons call calls ih =>
    obtain ⟨hcall, hcalls⟩ := hwindow
    rw [mem_cons, not_or] at hframe
    exact ih (damaged_run (.symm hframe.1) hcall (.inl h)) hframe.2 hcalls

theorem AllInOneWindow.append {first rest : List Call} (h : AllInOneWindow (first ++ rest) s) :
    AllInOneWindow rest (DisplayServer.after first s) := by
  induction first generalizing s with
  | nil => exact h
  | cons call first ih => exact ih h.2

/-- In a run whose calls each merge within one window, a pixel that a call
affects is to be repainted until the next frame is completed. -/
theorem affected_stays_damaged (first rest : List Call) (call : Call) (x y : Int16)
    (hwindow : AllInOneWindow (first ++ call :: rest) new) (hframe : .completeFrame ∉ rest)
    (haffected : Affected call (after first new) x y) :
    (after (first ++ call :: rest) new).Damaged x y := by
  obtain ⟨hcall, hrest⟩ := hwindow.append
  obtain ⟨hne, hcovers⟩ := haffected.covers
  rw [after_append]
  exact (damaged_run hne hcall (.inr hcovers)).after hframe hrest

/-- A surface whose pending geometry is one rectangle while it is shown in
another. -/
def moveSurface (old new : Rect) : List Call :=
  [.createSurface (FormFin.fromU128 1) [65] .window old, .setGeometry (FormFin.fromU128 1) 1 new]

/-- The commit of a move affects the pixels of the new rectangle. -/
theorem affected_move {owner : FormFin} {id : UInt32}
    (h : (s.owned owner id).toOption.any (fun found =>
      found.2.current.rect ≠ found.2.pending.rect ∧ found.2.pending.visible = true ∧
        found.2.pending.rect.Covers x y) = true) : Affected (.commit owner id) s x y := by
  obtain ⟨⟨index, surface⟩, howned, hmoved⟩ := (any_eq_true _ _).mp h
  obtain ⟨hrect, hvisible, hcovers⟩ := of_decide_eq_true hmoved
  rw [Outcome.toOption_eq_some] at howned
  exact ⟨index, surface, howned, .inl ⟨.inl hrect, .inr ⟨hvisible, hcovers⟩⟩⟩

theorem inOneWindow_of (window : Rect.Window) {call : Call} (h : ∀ found ∈ footprints call s,
      ∀ rect ∈ (s.pendingOutputDamage.get found.1).toList ++ found.2,
        Rect.InWindow window rect) : InOneWindow call s :=
  fun index rects hfoot => ⟨window, h (index, rects) hfoot⟩

/-- The move reaches the pixel `(25, 5)`, and another commit follows it. -/
theorem moved_surface_damaged : (after (moveSurface ⟨0, 0, 10, 10⟩ ⟨20, 0, 10, 10⟩ ++
      [.commit (FormFin.fromU128 1) 1, .commit (FormFin.fromU128 1) 1]) new).Damaged 25 5 := by
  apply affected_stays_damaged
  · refine ⟨?_, ?_, ?_, ?_, trivial⟩
    · exact inOneWindow_of ⟨0, 0⟩ (by decide +kernel)
    · exact inOneWindow_of ⟨0, 0⟩ (by decide +kernel)
    · exact inOneWindow_of ⟨0, 0⟩ (by decide +kernel)
    · exact inOneWindow_of ⟨0, 0⟩ (by decide +kernel)
  · simp
  · exact affected_move (by decide +kernel)

/-- A surface moves from the left end of the coordinates to the right end.
The rectangle around both is 65536 pixels wide, its width is narrowed to zero
and the surface is not repainted at its new place. -/
theorem wide_move_not_damaged : Affected (.commit (FormFin.fromU128 1) 1)
      (after (moveSurface ⟨-32768, 0, 10, 1⟩ ⟨32000, 0, 768, 1⟩) new) 32000 0 ∧
    ¬ (after (moveSurface ⟨-32768, 0, 10, 1⟩ ⟨32000, 0, 768, 1⟩ ++
      [.commit (FormFin.fromU128 1) 1]) new).Damaged 32000 0 := by
  constructor
  · exact affected_move (by decide +kernel)
  · rw [Damaged]
    decide +kernel

end DisplayServer

end ExpOS
