import ExpOS.Controls.Kernel
import ExpOS.Execution.Budget

/-!
# The ledgers of the kernel controls

The usage of event watches is the number of registered watches, whatever
calls succeed or fail, so the watch table is never full when the budget has
room.  Every limit keeps its order, and a call that fails changes no amount.
-/

namespace ExpOS.Controls

open List SlotTable EventQueue

/-! ## Limits -/

namespace ResourceLimit

/-- What a limit says about its resource, without the count of refusals. -/
def amounts (limit : ResourceLimit) : UInt64 × UInt64 × UInt64 × UInt64 :=
  (limit.used, limit.soft, limit.hard, limit.ceiling)

/-- The order that every limit keeps. -/
structure Ordered (limit : ResourceLimit) : Prop where
  used_le : limit.used ≤ limit.soft
  soft_le : limit.soft ≤ limit.hard
  hard_le : limit.hard ≤ limit.ceiling

theorem Ordered.of_amounts {limit limit' : ResourceLimit} (h : limit.Ordered)
    (heq : limit'.amounts = limit.amounts) : limit'.Ordered := by
  simp only [amounts, Prod.mk.injEq] at heq
  obtain ⟨hused, hsoft, hhard, hceiling⟩ := heq
  exact ⟨by rw [hused, hsoft]; exact h.used_le, by rw [hsoft, hhard]; exact h.soft_le,
    by rw [hhard, hceiling]; exact h.hard_le⟩

end ResourceLimit

namespace ExpBudget

variable {budget : ExpBudget} {resource other : Resource} {amount soft hard : UInt64}

theorem limits_setLimit (budget : ExpBudget) (limit : ResourceLimit) (resource other : Resource) :
    (budget.setLimit limit resource).limits other =
      if other = resource then limit else budget.limits other :=
  Function.update_apply _ _ _ _

theorem amounts_deny (budget : ExpBudget) (resource other : Resource) :
    ((budget.deny resource).limits other).amounts = (budget.limits other).amounts := by
  change ((budget.setLimit _ resource).limits other).amounts = _
  rw [limits_setLimit]
  split
  · next heq =>
      subst heq
      rfl
  · rfl

/-- Everything a charge can do. -/
theorem charge_cases (resource : Resource) (amount : UInt64) (budget : ExpBudget) :
    (∃ next, charge resource amount budget =
        (.done next, budget.setLimit { budget.limits resource with used := next } resource) ∧
      (budget.limits resource).used.toNat + amount.toNat = next.toNat ∧
      next ≤ (budget.limits resource).soft) ∨
    charge resource amount budget = (.fail .resourceExhausted, budget.deny resource) ∧
      (budget.limits resource).soft.toNat < (budget.limits resource).used.toNat + amount.toNat := by
  have hsoft := (budget.limits resource).soft.toNat_lt
  simp only [charge]
  split
  · next hnone =>
      have := checkedAdd_eq_none.mp hnone
      exact .inr ⟨rfl, by omega⟩
  rename_i next hsome
  have hsum := checkedAdd_eq_some.mp hsome
  split
  · next hover =>
      rw [gt_iff_lt, UInt64.lt_iff_toNat_lt] at hover
      exact .inr ⟨rfl, by omega⟩
  · next hfits => exact .inl ⟨next, rfl, hsum, UInt64.not_lt.mp hfits⟩

/-- Everything a configuration can do. -/
theorem set_cases (resource : Resource) (soft hard : UInt64) (budget : ExpBudget) :
    (set resource soft hard budget =
        (.done { budget.limits resource with soft, hard },
          budget.setLimit { budget.limits resource with soft, hard } resource) ∧
      (budget.limits resource).used ≤ soft ∧ soft ≤ hard ∧
      hard ≤ (budget.limits resource).ceiling) ∨
    set resource soft hard budget = (.fail .invalidLimit, budget) := by
  simp only [set]
  split
  · exact .inr rfl
  rename_i hvalid
  rw [not_or, not_or] at hvalid
  exact .inl ⟨rfl, UInt64.not_lt.mp hvalid.1, UInt64.not_lt.mp hvalid.2.1,
    UInt64.not_lt.mp hvalid.2.2⟩

end ExpBudget

/-! ## The number of watches -/

namespace EventQueue

variable {q q' : EventQueue} {delivered : List ReadyEvent}
variable {identifier : UInt32} {filter : EventFilter}

/-- The number of registered watches. -/
def watchCount (q : EventQueue) : ℕ := q.watches.occupants.length

/-- Everything a registration can do. -/
theorem register_cases (watch : EventWatch) (q : EventQueue) :
    register watch q = (.fail .duplicateWatch, q) ∨
    (register watch q = (.fail .watchTableFull, q) ∧ q.watchCount = maxWatches) ∨
    ((register watch q).1 = .done () ∧ (register watch q).2.watchCount = q.watchCount + 1) := by
  rw [register]
  split
  · exact .inl rfl
  split
  · next hfull =>
      refine .inr (.inl ⟨rfl, ?_⟩)
      refine le_antisymm q.watches.length_occupants_le (not_lt.mp fun hlt => ?_)
      obtain ⟨slot, hslot⟩ := exists_freeIndex hlt
      rw [hfull] at hslot
      cases hslot
  · next slot hslot =>
      exact .inr (.inr ⟨rfl, (perm_occupants_put hslot watch).length_eq⟩)

/-- Everything a removal can do. -/
theorem unregister_cases (q : EventQueue) :
    unregister identifier filter q = (.fail .watchNotFound, q) ∨
    ((unregister identifier filter q).1 = .done () ∧
      (unregister identifier filter q).2.watchCount + 1 = q.watchCount) := by
  rw [unregister]
  split
  · exact .inl rfl
  rename_i slot hslot
  obtain ⟨⟨watch, hget, -⟩, -⟩ := findIndex_spec hslot
  exact .inr ⟨rfl, (perm_occupants_free hget).length_eq.symm⟩

theorem Signalled.watchCount_eq {data : UInt64}
    {result : Outcome ControlError SignalOutcome × EventQueue}
    (h : Signalled q identifier filter data result) : result.2.watchCount = q.watchCount := by
  rw [watchCount, watchCount, h.watches_eq]

namespace Sound

theorem watchCount_advanced {now : UInt64} {index : ℕ} (hadvanced : Advanced now q index q') :
    q'.watchCount = q.watchCount := by
  cases hadvanced with
  | idle => rfl
  | refused _ _ hsignal => exact hsignal.watchCount_eq
  | fired hget _ _ hsignal =>
    have hwatches := hsignal.watches_eq
    rw [← hsignal.watchCount_eq]
    exact length_occupants_replace (hwatches ▸ hget) _

theorem watchCount_advanceTimers (h : Sound delivered q) (now : UInt64) (coalesce : Bool) :
    (EventQueue.advanceTimers now coalesce q).watchCount = q.watchCount := by
  have hkept : Sound delivered (EventQueue.advanceTimers now coalesce q) ∧
      (EventQueue.advanceTimers now coalesce q).watchCount = q.watchCount := by
    apply advanceTimers_induction (motive := fun q' => Sound delivered q' ∧
      q'.watchCount = q.watchCount)
    · exact fun _ hq => hq.1.ringed
    · exact fun _ _ _ hq hadvanced =>
        ⟨hq.1.advanced hadvanced, (watchCount_advanced hadvanced).trans hq.2⟩
    · exact ⟨h, rfl⟩
  exact hkept.2

end Sound

end EventQueue

/-! ## What each call keeps -/

namespace KernelControls

variable {c c' : KernelControls} {delivered : List ReadyEvent} {resource : Resource}
variable {amount : UInt64}

/-- The invariant, with the events that polls have returned so far. -/
structure Ledgered (delivered : List ReadyEvent) (c : KernelControls) : Prop where
  sound : Sound delivered c.events
  watches : (c.resources.limits .eventWatches).used.toNat = c.events.watchCount
  ceiling : (c.resources.limits .eventWatches).ceiling.toNat = maxWatches
  ordered : ∀ resource, (c.resources.limits resource).Ordered

/-- The controls with another usage of a resource. -/
def withUsed (c : KernelControls) (resource : Resource) (used : UInt64) : KernelControls :=
  let limit := { c.resources.limits resource with used }
  { c with resources := c.resources.setLimit limit resource }

theorem events_withUsed (c : KernelControls) (resource : Resource) (used : UInt64) :
    (c.withUsed resource used).events = c.events :=
  rfl

theorem limits_withUsed (c : KernelControls) (resource other : Resource) (used : UInt64) :
    (c.withUsed resource used).resources.limits other =
      if other = resource then { c.resources.limits resource with used }
      else c.resources.limits other :=
  ExpBudget.limits_setLimit ..

/-- No amount changes between the two states. -/
def SameAmounts (c c' : KernelControls) : Prop :=
  ∀ resource, (c'.resources.limits resource).amounts = (c.resources.limits resource).amounts

theorem ledgered_new : Ledgered [] new where
  sound := sound_new
  watches := rfl
  ceiling := rfl
  ordered resource := by cases resource <;> exact ⟨by decide, by decide, by decide⟩

/-- A call that keeps the amounts and the number of watches. -/
theorem Ledgered.same {delivered' : List ReadyEvent} (h : Ledgered delivered c)
    (hsound : Sound delivered' c'.events) (hcount : c'.events.watchCount = c.events.watchCount)
    (hamounts : SameAmounts c c') : Ledgered delivered' c' where
  sound := hsound
  watches := by
    have hused : (c'.resources.limits .eventWatches).used = _ :=
      congrArg Prod.fst (hamounts .eventWatches)
    rw [hused, hcount]
    exact h.watches
  ceiling := by
    have hceiling : (c'.resources.limits .eventWatches).ceiling = _ :=
      congrArg (·.2.2.2) (hamounts .eventWatches)
    rw [hceiling]
    exact h.ceiling
  ordered resource := (h.ordered resource).of_amounts (hamounts resource)

/-- Everything an internal charge can do. -/
theorem chargeInternal_cases (resource : Resource) (amount : UInt64) (c : KernelControls) :
    (∃ next, chargeInternal resource amount c = (.done next, c.withUsed resource next) ∧
      (c.resources.limits resource).used.toNat + amount.toNat = next.toNat ∧
      next ≤ (c.resources.limits resource).soft) ∨
    (∃ c', chargeInternal resource amount c = (.fail .resourceExhausted, c') ∧
      c'.resources = c.resources.deny resource ∧
      c'.events = (EventQueue.signal resource.number .resource amount
        (c.tunables.boolean nodeEventCoalesce) c.events).2 ∧
      (c.resources.limits resource).soft.toNat <
        (c.resources.limits resource).used.toNat + amount.toNat) := by
  rcases ExpBudget.charge_cases resource amount c.resources with
    ⟨next, hcharge, hsum, hle⟩ | ⟨hcharge, hover⟩
  · refine .inl ⟨next, ?_, hsum, hle⟩
    rw [chargeInternal, hcharge]
    rfl
  · refine .inr ⟨(chargeInternal resource amount c).2, ?_, ?_, ?_, hover⟩
    all_goals rw [chargeInternal, hcharge]
    all_goals rfl

/-- Everything an internal release can do. -/
theorem releaseInternal_cases (resource : Resource) (amount : UInt64) (c : KernelControls) :
    (∃ next, releaseInternal resource amount c = (.done next, c.withUsed resource next) ∧
      next.toNat + amount.toNat = (c.resources.limits resource).used.toNat) ∨
    releaseInternal resource amount c = (.fail .releaseExceedsUsage, c) ∧
      (c.resources.limits resource).used.toNat < amount.toNat := by
  simp only [releaseInternal, ExpBudget.release]
  split
  · next hover => exact .inr ⟨rfl, UInt64.lt_iff_toNat_lt.mp hover⟩
  rename_i hfits
  have hle := UInt64.not_lt.mp hfits
  refine .inl ⟨_, rfl, ?_⟩
  rw [UInt64.toNat_sub_of_le _ _ hle]
  rw [UInt64.le_iff_toNat_le] at hle
  omega

/-- A release takes a charge of the same amount back. -/
theorem resources_release (c : KernelControls) {next : UInt64}
    (hsum : (c.resources.limits resource).used.toNat + amount.toNat = next.toNat) :
    (releaseInternal resource amount (c.withUsed resource next)).2.resources = c.resources := by
  rcases releaseInternal_cases resource amount (c.withUsed resource next) with
    ⟨used, hrun, hused⟩ | ⟨-, hover⟩
  · rw [limits_withUsed, if_pos rfl] at hused
    have heq : used = (c.resources.limits resource).used :=
      UInt64.toNat_inj.mp (by dsimp only at hused; omega)
    rw [hrun, heq]
    simp [KernelControls.withUsed, ExpBudget.setLimit]
  · rw [limits_withUsed, if_pos rfl] at hover
    dsimp only at hover
    omega

/-- What every call keeps: the invariant, and the accounts if it fails, up to
the count of a refused charge. -/
structure Kept {α : Type} (delivered : List ReadyEvent) (c : KernelControls)
    (result : Outcome ControlError α × KernelControls) : Prop where
  ledgered : Ledgered delivered result.2
  refused : ∀ e, result.1 = .fail e → result.2.resources = c.resources ∨
    e = .resourceExhausted ∧ ∃ resource, result.2.resources = c.resources.deny resource

theorem Kept.sameAmounts {α : Type} {result : Outcome ControlError α × KernelControls}
    (h : Kept delivered c result) {e : ControlError} (he : result.1 = .fail e) :
    SameAmounts c result.2 := by
  intro other
  rcases h.refused e he with hsame | ⟨-, resource, hdenied⟩
  · rw [hsame]
  · rw [hdenied]
    exact ExpBudget.amounts_deny _ _ _

theorem kept_done {α : Type} {x : α} (h : Ledgered delivered c') :
    Kept delivered c (.done x, c') where
  ledgered := h
  refused e he := by cases he

/-- Forgetting the value of a call. -/
theorem Kept.bind {α β : Type} {result : Outcome ControlError α × KernelControls} {x : β}
    (h : Kept delivered c result) :
    Kept delivered c (result.1 >>= fun _ => .done x, result.2) where
  ledgered := h.ledgered
  refused e he := by
    obtain ⟨outcome, c'⟩ := result
    cases outcome with
    | done value => cases he
    | fail e' =>
        cases he
        exact h.refused _ rfl
    | halt => cases he

namespace Ledgered

theorem kept_same {α : Type} {outcome : Outcome ControlError α} (h : Ledgered delivered c) :
    Kept delivered c (outcome, c) where
  ledgered := h
  refused _ _ := .inl rfl

/-- A refused charge counts a refusal and signals a watch. -/
theorem denied {α : Type} (h : Ledgered delivered c)
    {coalesce : Bool} (hresources : c'.resources = c.resources.deny resource)
    (hevents : c'.events =
      (EventQueue.signal resource.number .resource amount coalesce c.events).2) :
    Kept delivered c ((.fail .resourceExhausted : Outcome ControlError α), c') := by
  have hsignal : Signalled c.events resource.number .resource amount _ :=
    signal_signalled h.sound.ringed coalesce
  have hamounts : SameAmounts c c' := by
    intro other
    rw [hresources]
    exact ExpBudget.amounts_deny _ _ _
  refine ⟨h.same ?_ ?_ hamounts, ?_⟩
  · rw [hevents]
    exact h.sound.signalled hsignal
  · rw [hevents]
    exact hsignal.watchCount_eq
  · intro e he
    cases he
    exact .inr ⟨rfl, resource, hresources⟩

variable {used : UInt64}

/-- The usage of a resource other than the watches may change within its
limit. -/
theorem withUsed (h : Ledgered delivered c) (hresource : resource ≠ .eventWatches)
    (hused : used ≤ (c.resources.limits resource).soft) :
    Ledgered delivered (c.withUsed resource used) where
  sound := h.sound
  watches := by
    rw [limits_withUsed, if_neg (Ne.symm hresource)]
    exact h.watches
  ceiling := by
    rw [limits_withUsed, if_neg (Ne.symm hresource)]
    exact h.ceiling
  ordered other := by
    rw [limits_withUsed]
    split
    · exact ⟨hused, (h.ordered resource).soft_le, (h.ordered resource).hard_le⟩
    · exact h.ordered other

theorem chargeInternal (h : Ledgered delivered c) (hresource : resource ≠ .eventWatches)
    (amount : UInt64) :
    Kept delivered c (KernelControls.chargeInternal resource amount c) := by
  rcases chargeInternal_cases resource amount c with
    ⟨next, hrun, -, hle⟩ | ⟨c', hrun, hresources, hevents, -⟩
  · rw [hrun]
    exact kept_done (h.withUsed hresource hle)
  · rw [hrun]
    exact h.denied hresources hevents

theorem releaseInternal (h : Ledgered delivered c) (hresource : resource ≠ .eventWatches)
    (amount : UInt64) :
    Kept delivered c (KernelControls.releaseInternal resource amount c) := by
  rcases releaseInternal_cases resource amount c with ⟨next, hrun, hsum⟩ | ⟨hrun, -⟩
  · rw [hrun]
    refine kept_done (h.withUsed hresource ?_)
    have hused := (h.ordered resource).used_le
    rw [UInt64.le_iff_toNat_le] at hused ⊢
    omega
  · rw [hrun]
    exact h.kept_same

/-- The usage of the watches follows their number. -/
theorem recount (h : Ledgered delivered c) {events : EventQueue}
    (hsound : Sound delivered events) (hcount : used.toNat = events.watchCount)
    (hused : used ≤ (c.resources.limits .eventWatches).soft) :
    Ledgered delivered (KernelControls.withUsed { c with events } .eventWatches used) where
  sound := hsound
  watches := by
    exact hcount
  ceiling := by
    exact h.ceiling
  ordered other := by
    rw [limits_withUsed]
    split
    · exact ⟨hused, (h.ordered .eventWatches).soft_le, (h.ordered .eventWatches).hard_le⟩
    · exact h.ordered other

/-- The charge of a watch precedes its registration and is taken back when
that fails. The table cannot be full after a successful charge. -/
theorem registerWatch (h : Ledgered delivered c) (watch : EventWatch) :
    Kept delivered c (KernelControls.registerWatch watch c) ∧
      (KernelControls.registerWatch watch c).1 ≠ .fail .watchTableFull := by
  rw [KernelControls.registerWatch]
  rcases chargeInternal_cases .eventWatches 1 c with
    ⟨next, hrun, hsum, hle⟩ | ⟨c', hrun, hresources, hevents, -⟩
  · have hordered := h.ordered .eventWatches
    have hceiling := h.ceiling
    have hwatches := h.watches
    have hsound := h.sound.register watch
    have hnext : (c.resources.limits .eventWatches).used.toNat + 1 = next.toNat := hsum
    rw [hrun]
    dsimp only [events_withUsed]
    rcases register_cases watch c.events with hdup | ⟨-, hfull⟩ | ⟨hdone, hcount⟩
    · rw [hdup]
      have hresources := resources_release c hsum
      have hamounts : SameAmounts c _ := fun other =>
        congrArg (fun accounts => (accounts.limits other).amounts) hresources
      exact ⟨⟨h.same h.sound rfl hamounts, fun _ _ => .inl hresources⟩, by simp⟩
    · -- the table is full, so its usage has reached the ceiling
      have hsoft := hordered.soft_le
      have hhard := hordered.hard_le
      rw [UInt64.le_iff_toNat_le] at hle hsoft hhard
      omega
    · generalize register watch c.events = result at *
      obtain ⟨outcome, events⟩ := result
      subst hdone
      refine ⟨kept_done (h.recount hsound ?_ hle), by simp⟩
      rw [hcount]
      omega
  · rw [hrun]
    exact ⟨h.denied hresources hevents, by simp⟩

theorem unregisterWatch (h : Ledgered delivered c) (identifier : UInt32) (filter : EventFilter) :
    Kept delivered c (KernelControls.unregisterWatch identifier filter c) := by
  have hsound : Sound delivered (unregister identifier filter c.events).2 :=
    h.sound.unregister
  rw [KernelControls.unregisterWatch]
  rcases @unregister_cases identifier filter c.events with hmissing | ⟨hdone, hcount⟩
  · rw [hmissing]
    exact h.kept_same
  generalize unregister identifier filter c.events = result at *
  obtain ⟨outcome, events⟩ := result
  subst hdone
  dsimp only at hcount ⊢
  have hwatches := h.watches
  rcases releaseInternal_cases .eventWatches 1 { c with events } with
    ⟨next, hrun, hsum⟩ | ⟨-, hover⟩
  · rw [hrun]
    rw [UInt64.toNat_one] at hsum
    dsimp only at hsum
    have hused := (h.ordered .eventWatches).used_le
    refine kept_done (h.recount hsound (by omega) ?_)
    rw [UInt64.le_iff_toNat_le] at hused ⊢
    omega
  · rw [UInt64.toNat_one] at hover
    dsimp only at hover
    omega

theorem signal (h : Ledgered delivered c) (identifier : UInt32) (data : UInt64) :
    Kept delivered c (KernelControls.signal identifier data c) := by
  have hsignal : Signalled c.events identifier .signal data _ :=
    signal_signalled h.sound.ringed (c.tunables.boolean nodeEventCoalesce)
  exact ⟨h.same (h.sound.signalled hsignal) hsignal.watchCount_eq fun _ => rfl,
    fun _ _ => .inl rfl⟩

theorem setLimit (h : Ledgered delivered c) (resource : Resource) (soft hard : UInt64) :
    Kept delivered c (KernelControls.setLimit resource soft hard c) := by
  rw [KernelControls.setLimit]
  rcases ExpBudget.set_cases resource soft hard c.resources with
    ⟨hrun, hused, hsoft, hhard⟩ | hrun
  · rw [hrun]
    refine kept_done ⟨h.sound, ?_, ?_, fun other => ?_⟩
    · rw [ExpBudget.limits_setLimit]
      split
      · next heq =>
          subst heq
          exact h.watches
      · exact h.watches
    · rw [ExpBudget.limits_setLimit]
      split
      · next heq =>
          subst heq
          exact h.ceiling
      · exact h.ceiling
    · rw [ExpBudget.limits_setLimit]
      split
      · exact ⟨hused, hsoft, hhard⟩
      · exact h.ordered other
  · rw [hrun]
    exact h.kept_same

theorem poll (h : Ledgered delivered c) (now : UInt64) (room : ℕ) :
    Kept (delivered ++ (KernelControls.poll now room c).1.toOption.getD []) c
      (KernelControls.poll now room c) := by
  have hadvanced := h.sound.advanceTimers now (c.tunables.boolean nodeEventCoalesce)
  obtain ⟨q', hrun, hbecomes⟩ :=
    poll_spec hadvanced.ringed room (c.tunables.unsigned nodeEventBatch).toNat
  obtain ⟨events, hdone, -, hsound⟩ :=
    hadvanced.poll room (c.tunables.unsigned nodeEventBatch).toNat
  have hcount : (KernelControls.poll now room c).2.events.watchCount = c.events.watchCount := by
    rw [← h.sound.watchCount_advanceTimers now (c.tunables.boolean nodeEventCoalesce),
      watchCount, watchCount, ← hbecomes.watches_eq]
    simp only [KernelControls.poll, hrun, syncCounters]
  refine ⟨h.same ?_ hcount fun _ => rfl, fun _ _ => .inl rfl⟩
  simp only [KernelControls.poll, hdone]
  exact hsound

end Ledgered

theorem ne_eventWatches_of_not_managed (hmanaged : ¬ managed resource) :
    resource ≠ .eventWatches := by
  intro heq
  subst heq
  exact hmanaged rfl

/-- One call. -/
theorem Ledgered.perform (h : Ledgered delivered c) (call : Call) :
    Kept (delivered ++ (c.perform call).1.toOption.getD []) c (c.perform call) := by
  cases call with
  | poll now room => exact h.poll now room
  | setTunable name value =>
    rw [KernelControls.perform, bind_nil_getD, append_nil]
    exact ⟨h.same h.sound rfl fun _ => rfl, fun _ _ => .inl rfl⟩
  | registerWatch watch =>
    rw [KernelControls.perform, bind_nil_getD, append_nil]
    exact (h.registerWatch watch).1.bind
  | unregisterWatch identifier filter =>
    rw [KernelControls.perform, bind_nil_getD, append_nil]
    exact (h.unregisterWatch identifier filter).bind
  | signal identifier data =>
    rw [KernelControls.perform, bind_nil_getD, append_nil]
    exact (h.signal identifier data).bind
  | setLimit resource soft hard =>
    rw [KernelControls.perform, bind_nil_getD, append_nil]
    exact (h.setLimit resource soft hard).bind
  | charge resource amount =>
    rw [KernelControls.perform, bind_nil_getD, append_nil, charge]
    split
    · exact h.kept_same.bind
    · next hmanaged =>
        exact (h.chargeInternal (ne_eventWatches_of_not_managed hmanaged) amount).bind
  | release resource amount =>
    rw [KernelControls.perform, bind_nil_getD, append_nil, release]
    split
    · exact h.kept_same.bind
    · next hmanaged =>
        exact (h.releaseInternal (ne_eventWatches_of_not_managed hmanaged) amount).bind
  | chargeFormOperation =>
    rw [KernelControls.perform, bind_nil_getD, append_nil]
    exact (h.chargeInternal (by decide) 1).bind.bind
  | resizeFormContent old new =>
    rw [KernelControls.perform, bind_nil_getD, append_nil, resizeFormContent]
    split
    · exact (h.chargeInternal (by decide) (new - old)).bind.bind
    · exact (h.releaseInternal (by decide) (old - new)).bind.bind

theorem Ledgered.run (h : Ledgered delivered c) (calls : List Call) :
    Ledgered (delivered ++ (c.run calls).1) (c.run calls).2 := by
  induction calls generalizing c delivered with
  | nil =>
    rw [run, append_nil]
    exact h
  | cons call calls ih =>
    rw [run, ← append_assoc]
    exact ih (h.perform call).ledgered

end KernelControls

section Refusals

open KernelControls

variable {c : KernelControls} {resource : Resource} {e : ControlError}

theorem chargeInternal_denied {amount : UInt64} (he : (chargeInternal resource amount c).1 =
      .fail e) : (chargeInternal resource amount c).2.resources = c.resources.deny resource := by
  rcases chargeInternal_cases resource amount c with ⟨next, hrun, -⟩ | ⟨c', hrun, hresources, -⟩
  · rw [hrun] at he
    cases he
  · rw [hrun]
    exact hresources

theorem setLimit_refused {soft hard : UInt64} (he : (setLimit resource soft hard c).1 = .fail e) :
    (setLimit resource soft hard c).2 = c := by
  rw [setLimit] at he ⊢
  rcases ExpBudget.set_cases resource soft hard c.resources with ⟨hrun, -⟩ | hrun
  · rw [hrun] at he
    cases he
  · rw [hrun]

end Refusals

open KernelControls in
/-- After every sequence of calls from the initial controls, the usage of the
event watches is the number of registered watches, so that a registration
never meets a full table; every resource has its usage within its soft, hard
and ceiling limits; a call that fails changes no usage and no limit, and no
account at all unless a charge is refused; a refused charge counts itself, and
a refused configuration changes nothing.  The accounts of an execution context
keep the same order in the same way. -/
theorem kernel_controls_ledger {C : Type} (calls : List KernelControls.Call) (context : C)
    (ceilings : ResourceKind → UInt64) (budgetCalls : List ExpOS.ExpBudget.Call) :
    let c := (KernelControls.new.run calls).2
    (c.resources.limits .eventWatches).used.toNat = c.events.watches.occupants.length ∧
    (∀ watch, (registerWatch watch c).1 ≠ .fail .watchTableFull) ∧
    (∀ resource, (c.resources.limits resource).used ≤ (c.resources.limits resource).soft ∧
      (c.resources.limits resource).soft ≤ (c.resources.limits resource).hard ∧
      (c.resources.limits resource).hard ≤ (c.resources.limits resource).ceiling) ∧
    (∀ call e, (c.perform call).1 = .fail e → ∀ resource,
      ((c.perform call).2.resources.limits resource).amounts =
        (c.resources.limits resource).amounts) ∧
    (∀ call e, (c.perform call).1 = .fail e →
      (c.perform call).2.resources = c.resources ∨ e = .resourceExhausted) ∧
    (∀ resource amount e, (chargeInternal resource amount c).1 = .fail e →
      let denied := (chargeInternal resource amount c).2.resources
      (denied.limits resource).denials =
        saturatingAdd (c.resources.limits resource).denials 1 ∧
      denied.totalDenials = saturatingAdd c.resources.totalDenials 1 ∧
      ∀ other ≠ resource, denied.limits other = c.resources.limits other) ∧
    (∀ resource soft hard e, (setLimit resource soft hard c).1 = .fail e →
      (setLimit resource soft hard c).2 = c) ∧
    let budget := (ExpOS.ExpBudget.new context ceilings).run budgetCalls
    (∀ kind, (budget.account kind).Ordered) ∧
    (∀ call e, (budget.perform call).1 = .fail e → ∀ kind,
      ((budget.perform call).2.account kind).amounts = (budget.account kind).amounts) ∧
    (∀ kind amount e, (ExpOS.ExpBudget.charge kind amount budget).1 = .fail e →
      ((ExpOS.ExpBudget.charge kind amount budget).2.account kind).deniedCharges =
        saturatingAdd (budget.account kind).deniedCharges 1) ∧
    ∀ kind soft hard e, (ExpOS.ExpBudget.configure kind soft hard budget).1 = .fail e →
      (ExpOS.ExpBudget.configure kind soft hard budget).2 = budget := by
  have h := ledgered_new.run calls
  have hbudget := @ExpOS.ExpBudget.ordered_run _ (.new context ceilings)
    (fun kind => ExpOS.ResourceAccount.ordered_withCeiling (ceilings kind)) budgetCalls
  refine ⟨h.watches, fun watch => (h.registerWatch watch).2, fun resource => ?_,
    fun call e => (h.perform call).sameAmounts, fun call e he => ?_, fun resource amount e he => ?_,
    fun resource soft hard e => setLimit_refused, hbudget,
    fun call => (ExpOS.ExpBudget.perform_spec hbudget call).2,
    fun kind amount e => ExpOS.ExpBudget.charge_denied,
    fun kind soft hard e => ExpOS.ExpBudget.configure_refused⟩
  · exact ⟨(h.ordered resource).used_le, (h.ordered resource).soft_le, (h.ordered resource).hard_le⟩
  · exact ((h.perform call).refused e he).imp_right And.left
  · rw [chargeInternal_denied he]
    exact ⟨by simp [ExpBudget.deny, ExpBudget.setLimit], rfl,
      fun other hother => Function.update_of_ne hother _ _⟩

open KernelControls in
/-- A refused charge still changes the account, which counts the refusal. -/
theorem refused_charge_counts :
    (KernelControls.new.perform (.charge .scratchPages 17)).1 = .fail .resourceExhausted ∧
      (KernelControls.new.perform (.charge .scratchPages 17)).2.resources.limits .scratchPages ≠
        KernelControls.new.resources.limits .scratchPages := by
  decide

end ExpOS.Controls
