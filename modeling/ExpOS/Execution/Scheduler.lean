import ExpOS.Execution.Context
import ExpOS.Support.Counter

/-!
# Runs of the scheduler

Every call of the scheduler is one of a few changes: it admits a context, takes
the processor from the current context, gives it to a ready one, or rewrites
one context in place.  The two results about runs read off what each change
does to the states and to the current slot.
-/

namespace ExpOS

open List SlotTable Option

namespace Scheduler

/-- A call of one of the scheduler's entry points. -/
inductive Call where
  | admitContext (context : ExecutionContext)
  | dispatchNext
  | resume (id : UInt32)
  | preempt (id : UInt32) (cpu : CpuState) (ticks : UInt64)
      (budgetExhausted : Bool)
  | finishSlice (id : UInt32) (cpu : CpuState) (ticks result : UInt64)
  | finish (id : UInt32) (result : UInt64)
  | wait (id : UInt32)
  | wake (id : UInt32)
  | pause (id : UInt32)
  | continueContext (id : UInt32)
  | terminate (id : UInt32)
  | restart (id : UInt32)
  | sendMessage (target : UInt32) (message : IpcMessage)

/-- The scheduler after a call. -/
def Call.run : Call → Scheduler → Scheduler
  | .admitContext context, s => (Scheduler.admitContext context s).2
  | .dispatchNext, s => (Scheduler.dispatchNext s).2
  | .resume id, s => (Scheduler.resume id s).2
  | .preempt id cpu ticks budgetExhausted, s =>
    (Scheduler.preempt id cpu ticks budgetExhausted s).2
  | .finishSlice id cpu ticks result, s =>
    (Scheduler.finishSlice id cpu ticks result s).2
  | .finish id result, s => (Scheduler.finish id result s).2
  | .wait id, s => (Scheduler.wait id s).2
  | .wake id, s => (Scheduler.wake id s).2
  | .pause id, s => (Scheduler.pause id s).2
  | .continueContext id, s => (Scheduler.continueContext id s).2
  | .terminate id, s => (Scheduler.terminate id s).2
  | .restart id, s => (Scheduler.restart id s).2
  | .sendMessage target message, s =>
    (Scheduler.sendMessage target message s).2

/-- The number of contexts a call admits. -/
def Call.admissions : Call → Scheduler → ℕ
  | .admitContext context, s =>
    match (Scheduler.admitContext context s).1 with
    | .done _ => 1
    | _ => 0
  | _, _ => 0

/-- The scheduler after a list of calls. -/
def after : List Call → Scheduler → Scheduler
  | [], s => s
  | call :: calls, s => after calls (call.run s)

/-- The number of contexts a list of calls admits. -/
def admissions : List Call → Scheduler → ℕ
  | [], _ => 0
  | call :: calls, s => call.admissions s + admissions calls (call.run s)

/-! ## What a call changes -/

variable {state : ExecutionState}

theorem ended_of_reusable (h : reusable state = true) : ended state = true := by
  cases state <;> first | rfl | cases h

/-- The call makes a context live that had exited or was terminated.  A slice
that ends over the budget leaves its context blocked, not exited. -/
def Call.revives : Call → ExecutionContext → Bool
  | .restart id, context | .wait id, context => context.id == id
  | .finishSlice id _ ticks _, context =>
    context.id == id && ticks != 0 &&
      match (context.budget.charge .cpuTicks ticks).1 with
      | .done _ => false
      | _ => true
  | _, _ => false

/-- A rewrite of one context keeps its number and its identity, and no context
starts to run by it. -/
structure Rewrites (call : Call) (context context' : ExecutionContext) :
    Prop where
  id : context'.id = context.id
  identity : context'.identity = context.identity
  running : context'.state = .running → context.state = .running
  ended : ended context.state = true → ended context'.state = true ∨
    call = .restart context.id ∨ call = .wait context.id
  revived : reusable context.state = true →
    reusable context'.state = true ∨ call.revives context = true

variable {call : Call} {context context' : ExecutionContext}

/-- A rewrite that keeps the state of the context. -/
theorem Rewrites.sameState (hid : context'.id = context.id)
    (hidentity : context'.identity = context.identity) (hstate : context'.state = context.state) :
    Rewrites call context context' := by
  refine ⟨hid, hidentity, ?_, ?_, ?_⟩
  · exact fun h => hstate ▸ h
  · exact fun h => .inl (hstate ▸ h)
  · exact fun h => .inl (hstate ▸ h)

theorem Rewrites.refl (call : Call) (context : ExecutionContext) : Rewrites call context context :=
  .sameState rfl rfl rfl

/-- A rewrite of a context that had not ended. -/
theorem Rewrites.unended (hid : context'.id = context.id)
    (hidentity : context'.identity = context.identity)
    (hrunning : context'.state = .running → context.state = .running)
    (hstate : Scheduler.ended context.state = false) : Rewrites call context context' := by
  refine ⟨hid, hidentity, hrunning, fun h => ?_, fun h => ?_⟩
  · rw [hstate] at h
    cases h
  · rw [ended_of_reusable h] at hstate
    cases hstate

/-- What a call can do. -/
inductive Change (call : Call) (s : Scheduler) : Scheduler → Prop
  | same : Change call s s
  | taken : Change call s s.takeCurrent
  | admitted {context : ExecutionContext} {slot : ℕ}
      (hdone : call.admissions s = 1) (hslot : s.admitSlot = some slot)
      (hfresh : ∀ other ∈ s.contexts.occupants,
        other.identity = context.identity → reusable other.state = true) :
      Change call s
        { s with
          nextId := max (s.nextId + 1) 1
          contexts := s.contexts.put slot (some
            { context with id := s.nextId, state := .ready }) }
  | given {slot : ℕ} {context : ExecutionContext} (cursor : ℕ)
      (hget : s.takeCurrent.contexts.get slot = some context)
      (hready : context.state = .ready) :
      Change call s { s.takeCurrent.give slot context with cursor }
  | rewritten {slot : ℕ} {context context' : ExecutionContext}
      (clear : Bool) (hslot : s.slotOf context.id = some slot)
      (hget : s.contexts.get slot = some context)
      (hrewrites : Rewrites call context context')
      -- a context that stops running gives up the processor
      (hclear : clear = true → s.isCurrent context.id = true ∧ context'.state ≠ .running)
      (hleft : context.state = .running → context'.state ≠ .running →
        clear = s.isCurrent context.id) :
      Change call s
        { s with
          contexts := s.contexts.put slot (some context')
          currentSlot := if clear then none else s.currentSlot }

section Inversion

variable {call : Call} {id : UInt32} {s : Scheduler}
  {f : Mutator ExecutionContext ExecutionError Unit}

theorem get_of_slotOf {slot : ℕ} (h : s.slotOf id = some slot) :
    ∃ context, s.contexts.get slot = some context ∧ context.id = id := by
  obtain ⟨⟨context, hget, hid⟩, -⟩ := findIndex_spec h
  exact ⟨context, hget, by simpa using hid⟩

variable (id s f) in
theorem onContext_cases : onContext id f s = (.fail .unknownContext, s) ∨
      ∃ slot context, s.slotOf context.id = some slot ∧
        s.contexts.get slot = some context ∧ context.id = id ∧ onContext id f s = ((f context).1,
          { s with
            contexts := s.contexts.put slot (some (f context).2) }) := by
  rcases hslot : s.slotOf id with _ | slot
  · exact .inl (by simp [onContext, hslot])
  · obtain ⟨context, hget, hid⟩ := get_of_slotOf hslot
    refine .inr ⟨slot, context, by rw [hid, hslot], hget, hid, ?_⟩
    simp [onContext, hslot, hget]

/-- A call that leaves the current slot alone. -/
theorem Change.onContext (h : ∀ context, context.id = id → Rewrites call context (f context).2 ∧
        (context.state = .running → (f context).2.state = .running)) :
    Change call s (onContext id f s).2 := by
  rcases onContext_cases id s f with hnone | ⟨slot, context, hslot, hget, hid, hrun⟩
  · rw [hnone]
    exact .same
  rw [hrun]
  obtain ⟨hrewrites, hkeeps⟩ := h context hid
  exact .rewritten false hslot hget hrewrites (by simp)
    fun hrunning hleft => absurd (hkeeps hrunning) hleft

/-- A call that clears the current slot when it succeeds. -/
theorem Change.leaving {clear : Bool} (hclear : clear = s.isCurrent id)
    (h : ∀ context, context.id = id → Rewrites call context (f context).2 ∧
        ((f context).1 = .done () → (f context).2.state ≠ .running) ∧ ((f context).1 ≠ .done () →
          (f context).2.state = context.state)) :
    Change call s (leaving clear (Scheduler.onContext id f s)).2 := by
  subst hclear
  rcases onContext_cases id s f with hnone | ⟨slot, context, hslot, hget, hid, hrun⟩
  · rw [hnone]
    exact .same
  rw [hrun]
  obtain ⟨hrewrites, hdone, hfail⟩ := h context hid
  rcases houtcome : (f context).1 with ⟨⟨⟩⟩ | error | _
  · have hchange : Change call s _ := .rewritten (s.isCurrent context.id) hslot hget hrewrites
        (fun hcurrent => ⟨hcurrent, hdone houtcome⟩) (fun _ _ => rfl)
    rw [hid] at hchange
    simp only [Scheduler.leaving]
    cases hcurrent : s.isCurrent id with
    | false =>
      rw [hcurrent] at hchange
      exact hchange
    | true =>
      rw [hcurrent] at hchange
      exact hchange
  · refine .rewritten false hslot hget hrewrites (by simp) fun hrunning hleft => absurd ?_ hleft
    rw [hfail (by rw [houtcome]; simp), hrunning]
  · refine .rewritten false hslot hget hrewrites (by simp) fun hrunning hleft => absurd ?_ hleft
    rw [hfail (by rw [houtcome]; simp), hrunning]

/-- A method that keeps the number of its context keeps the number of the
current one. -/
theorem isCurrent_onContext (h : ∀ context, (f context).2.id = context.id) (other : UInt32) :
    (Scheduler.onContext id f s).2.isCurrent other = s.isCurrent other := by
  rcases onContext_cases id s f with hnone | ⟨slot, context, -, hget, -, hrun⟩
  · rw [hnone]
  rw [hrun]
  simp only [isCurrent, current]
  rcases s.currentSlot with _ | current
  · rfl
  simp only [bind_some]
  by_cases heq : current = slot
  · subst heq
    rw [get_put_self (lt_of_get hget), hget]
    simp [h context]
  · rw [get_put_of_ne heq]

end Inversion

/-! ## The calls one by one -/

section Calls

variable (s : Scheduler)

theorem admit_change (context : ExecutionContext) :
    Change (.admitContext context) s (admitContext context s).2 := by
  rw [admitContext]
  split
  · exact .same
  rename_i hfresh
  split
  · exact .same
  rename_i slot hslot
  have hdone : (Call.admitContext context).admissions s = 1 := by
    simp only [Call.admissions, admitContext, if_neg hfresh, hslot]
  refine .admitted hdone hslot fun other hother hidentity => ?_
  by_contra hlive
  exact hfresh (any_eq_true.mpr ⟨other, hother, by simp [hidentity, hlive]⟩)

theorem isReady_iff {slot : ℕ} : s.isReady slot = true ↔
      ∃ context, s.contexts.get slot = some context ∧ context.state = .ready := by
  rw [isReady, Option.any_eq_true]
  simp

theorem dispatchNext_change : Change .dispatchNext s (dispatchNext s).2 := by
  simp only [dispatchNext]
  rcases hfind : s.takeCurrent.dispatchOrder.find? s.takeCurrent.isReady with _ | slot
  · exact .taken
  · obtain ⟨context, hget, hready⟩ := (isReady_iff _).mp (List.find?_some hfind)
    simp only [bind_some, hget]
    exact .given _ hget hready

/-- Only the current context changes when the processor is taken. -/
theorem takeCurrent_get (slot : ℕ) : s.takeCurrent.contexts.get slot =
      (s.contexts.get slot).map fun context =>
        if s.currentSlot = some slot ∧ context.state = .running then
          { context with state := .ready }
        else context := by
  rw [takeCurrent]
  rcases hcurrent : s.currentSlot with _ | current
  · simp
  dsimp only
  rcases hget : s.contexts.get current with _ | context
  · dsimp only
    by_cases heq : current = slot
    · subst heq
      simp [hget]
    · simp [heq]
  · dsimp only
    have hlt := lt_of_get hget
    by_cases heq : current = slot
    · subst heq
      by_cases hrunning : context.state = .running
      · simp [hrunning, get_put_self hlt, hget]
      · simp [hrunning, hget]
    · split
      · simp [get_put_of_ne (Ne.symm heq), heq]
      · simp [heq]

variable (id : UInt32)

theorem resume_change : Change (.resume id) s (resume id s).2 := by
  rw [resume]
  rcases hslot : s.slotOf id with _ | slot
  · exact .same
  dsimp only
  split
  · exact .same
  rename_i hready
  rw [not_not] at hready
  obtain ⟨context, hget, hstate⟩ := (isReady_iff s).mp hready
  have htaken : s.takeCurrent.contexts.get slot = some context := by
    rw [takeCurrent_get, hget, map_some, hstate]
    simp
  rw [htaken]
  exact .given _ htaken hstate

variable (cpu : CpuState) (ticks : UInt64)

theorem preempt_change (budgetExhausted : Bool) : Change (.preempt id cpu ticks budgetExhausted) s
      (preempt id cpu ticks budgetExhausted s).2 := by
  refine Change.leaving rfl fun context _ => ?_
  split
  · exact ⟨.refl _ _, by simp, fun _ => rfl⟩
  rename_i hrunning
  rw [not_not] at hrunning
  have hstate : ended context.state = false := by
    rw [hrunning]
    rfl
  split
  · refine ⟨.unended rfl rfl (fun _ => hrunning) hstate, ?_, by simp⟩
    intro _
    split <;> simp
  · exact ⟨.unended rfl rfl (by simp) hstate, by simp, by simp⟩

variable (result : UInt64)

theorem finishSlice_change :
    Change (.finishSlice id cpu ticks result) s (finishSlice id cpu ticks result s).2 := by
  refine Change.leaving rfl fun context hid => ?_
  dsimp only
  split
  · exact ⟨⟨rfl, rfl, by simp, by simp [ended], by simp [reusable]⟩, by simp, by simp⟩
  rename_i outcome _ hnot hcharge
  refine ⟨⟨rfl, rfl, by simp, by simp [ended], fun _ => .inr ?_⟩, by simp, by simp⟩
  by_cases hticks : ticks = 0
  · rw [if_pos hticks, Prod.mk.injEq] at hcharge
    exact (hnot 0 hcharge.1.symm).elim
  rw [if_neg hticks] at hcharge
  rcases outcome with used | error | _
  · exact (hnot used rfl).elim
  · simp [Call.revives, hid, hticks, hcharge]
  · simp [Call.revives, hid, hticks, hcharge]

theorem finish_change : Change (.finish id result) s (finish id result s).2 := by
  refine Change.leaving (isCurrent_onContext (fun _ => rfl) id) fun context _ => ?_
  exact ⟨⟨rfl, rfl, by simp, by simp [ended], by simp [reusable]⟩, by simp, by simp⟩

theorem wait_change : Change (.wait id) s (wait id s).2 := by
  refine Change.leaving (isCurrent_onContext (fun _ => rfl) id) fun context hid => ?_
  exact ⟨⟨rfl, rfl, by simp, fun _ => .inr (.inr (by rw [hid])),
    fun _ => .inr (by simp [Call.revives, hid])⟩, by simp, by simp⟩

theorem wake_change : Change (.wake id) s (wake id s).2 := by
  refine Change.onContext fun context _ => ?_
  split
  · exact ⟨.refl _ _, fun h => h⟩
  rename_i hwaiting
  rw [not_not] at hwaiting
  exact ⟨.unended rfl rfl (by simp) (by rw [hwaiting]; rfl), by simp [hwaiting]⟩

theorem pause_change : Change (.pause id) s (pause id s).2 := by
  refine Change.leaving rfl fun context _ => ?_
  split
  · exact ⟨.refl _ _, by simp, fun _ => rfl⟩
  rename_i hstate
  refine ⟨.unended rfl rfl (by simp) ?_, by simp, by simp⟩
  rw [← not_or, not_not] at hstate
  rcases hstate with hstate | hstate
  · rw [hstate]
    rfl
  · rw [hstate]
    rfl

theorem continueContext_change :
    Change (.continueContext id) s (continueContext id s).2 := by
  refine Change.onContext fun context _ => ?_
  split
  · exact ⟨.refl _ _, fun h => h⟩
  rename_i hpaused
  rw [not_not] at hpaused
  exact ⟨.unended rfl rfl (by simp) (by rw [hpaused]; rfl), by simp [hpaused]⟩

theorem terminate_change : Change (.terminate id) s (terminate id s).2 := by
  refine Change.leaving rfl fun context _ => ?_
  exact ⟨⟨rfl, rfl, by simp, by simp [ended], by simp [reusable]⟩, by simp, by simp⟩

theorem restart_change : Change (.restart id) s (restart id s).2 := by
  refine Change.onContext fun context hid => ?_
  split
  · exact ⟨.refl _ _, fun h => h⟩
  rename_i hended
  refine ⟨⟨rfl, rfl, by simp, fun _ => .inr (.inl (by rw [hid])),
    fun _ => .inr (by simp [Call.revives, hid])⟩, ?_⟩
  intro hrunning
  simp [hrunning, ended] at hended

theorem pushMessage_same (message : IpcMessage) (context : ExecutionContext) :
    (context.pushMessage message).2.id = context.id ∧
      (context.pushMessage message).2.identity = context.identity ∧
      (context.pushMessage message).2.state = context.state := by
  rw [ExecutionContext.pushMessage]
  split
  · exact ⟨rfl, rfl, rfl⟩
  split
  · split
    · exact ⟨rfl, rfl, rfl⟩
    · exact ⟨rfl, rfl, rfl⟩
  · exact ⟨rfl, rfl, rfl⟩

theorem sendMessage_change (target : UInt32) (message : IpcMessage) :
    Change (.sendMessage target message) s (sendMessage target message s).2 := by
  refine Change.onContext fun context _ => ?_
  obtain ⟨hid, hidentity, hstate⟩ := pushMessage_same message context
  revert hid hidentity hstate
  rcases context.pushMessage message with ⟨⟨⟨⟩⟩ | error | _, pushed⟩
  · intro hid hidentity hstate
    dsimp only at hid hidentity hstate ⊢
    split
    · next hwaiting =>
        rw [hstate] at hwaiting
        exact ⟨.unended hid hidentity (by simp) (by rw [hwaiting]; rfl), by simp [hwaiting]⟩
    · exact ⟨.sameState hid hidentity hstate, fun h => hstate ▸ h⟩
  · intro hid hidentity hstate
    exact ⟨.sameState hid hidentity hstate, fun h => hstate ▸ h⟩
  · intro hid hidentity hstate
    exact ⟨.sameState hid hidentity hstate, fun h => hstate ▸ h⟩

theorem Call.change (call : Call) : Change call s (call.run s) := by
  cases call with
  | admitContext context => exact admit_change s context
  | dispatchNext => exact dispatchNext_change s
  | resume id => exact resume_change s id
  | preempt id cpu ticks budgetExhausted =>
    exact preempt_change s id cpu ticks budgetExhausted
  | finishSlice id cpu ticks result =>
    exact finishSlice_change s id cpu ticks result
  | finish id result => exact finish_change s id result
  | wait id => exact wait_change s id
  | wake id => exact wake_change s id
  | pause id => exact pause_change s id
  | continueContext id => exact continueContext_change s id
  | terminate id => exact terminate_change s id
  | restart id => exact restart_change s id
  | sendMessage target message => exact sendMessage_change s target message

end Calls

/-! ## The current slot and the running context -/

/-- The current slot holds the running context, and contexts have distinct
numbers below the next one. -/
structure Sound (s : Scheduler) : Prop where
  running : ∀ slot context, s.contexts.get slot = some context →
    (context.state = .running ↔ s.currentSlot = some slot)
  occupied : ∀ slot, s.currentSlot = some slot → ∃ context, s.contexts.get slot = some context
  ids : ∀ i j a b, s.contexts.get i = some a → s.contexts.get j = some b → a.id = b.id → i = j
  below : ∀ slot context, s.contexts.get slot = some context → context.id.toNat < s.nextId.toNat

section Soundness

variable {s : Scheduler} (h : s.Sound)

include h

variable {slot : ℕ}

/-- The scheduler with one context rewritten under its number. -/
theorem Sound.rewrite (hget : s.contexts.get slot = some context) (hid : context'.id = context.id) :
    (∀ i j a b, (s.contexts.put slot (some context')).get i = some a →
      (s.contexts.put slot (some context')).get j = some b → a.id = b.id → i = j) ∧
    ∀ i a, (s.contexts.put slot (some context')).get i = some a → a.id.toNat < s.nextId.toNat := by
  constructor
  · apply distinct_of_changed h.ids get_put_some_cases
    intro i a hi hab
    exact h.ids i slot a context hi hget (hab.trans hid)
  · intro i a hi
    rcases get_put_some_cases hi with ⟨rfl, rfl⟩ | ⟨-, hi⟩
    · rw [hid]
      exact h.below _ context hget
    · exact h.below i a hi

theorem Sound.takeCurrent : s.takeCurrent.Sound ∧ s.takeCurrent.currentSlot = none ∧
      s.takeCurrent.nextId = s.nextId := by
  have hnone : s.takeCurrent.currentSlot = none := by
    rw [Scheduler.takeCurrent]
    split
    · next hcurrent => exact hcurrent
    · rfl
  have hnext : s.takeCurrent.nextId = s.nextId := by
    rw [Scheduler.takeCurrent]
    split
    · rfl
    · rfl
  have hget : ∀ slot context, s.takeCurrent.contexts.get slot = some context →
      ∃ old, s.contexts.get slot = some old ∧ context.id = old.id ∧ context.state ≠ .running := by
    intro slot context hcontext
    rw [takeCurrent_get, map_eq_some_iff] at hcontext
    obtain ⟨old, hold, rfl⟩ := hcontext
    refine ⟨old, hold, ?_, ?_⟩
    · split
      · rfl
      · rfl
    · split
      · simp
      rename_i hkept
      intro hrunning
      exact hkept ⟨(h.running slot old hold).mp hrunning, hrunning⟩
  refine ⟨⟨?_, ?_, ?_, ?_⟩, hnone, hnext⟩
  · intro slot context hcontext
    obtain ⟨-, -, -, hstate⟩ := hget slot context hcontext
    rw [hnone]
    simp [hstate]
  · intro slot hslot
    rw [hnone] at hslot
    cases hslot
  · intro i j a b hi hj hab
    obtain ⟨a', ha', haid, -⟩ := hget i a hi
    obtain ⟨b', hb', hbid, -⟩ := hget j b hj
    exact h.ids i j a' b' ha' hb' (by rw [← haid, ← hbid, hab])
  · intro slot context hcontext
    obtain ⟨old, hold, hid, -⟩ := hget slot context hcontext
    rw [hid, hnext]
    exact h.below slot old hold

/-- The slot that `admitContext` takes has not got the processor. -/
theorem Sound.admitSlot_ne (hslot : s.admitSlot = some slot) :
    s.currentSlot ≠ some slot ∧ slot < maxExecutionContexts := by
  rw [admitSlot, List.findIdx?_eq_some_iff_getElem] at hslot
  obtain ⟨hlt, hfree, -⟩ := hslot
  refine ⟨fun hcurrent => ?_, by rwa [s.contexts.length_slots] at hlt⟩
  obtain ⟨context, hget⟩ := h.occupied slot hcurrent
  have hrunning := (h.running slot context hget).mpr hcurrent
  rw [SlotTable.get, List.getElem?_eq_getElem hlt, getD_some] at hget
  rw [hget, all_some, hrunning] at hfree
  cases hfree

/-- With distinct numbers, the current context is found by its number. -/
theorem Sound.isCurrent_iff (hget : s.contexts.get slot = some context) :
    s.isCurrent context.id = true ↔ s.currentSlot = some slot := by
  constructor
  · intro hcurrent
    rw [isCurrent, current, Option.any_eq_true] at hcurrent
    obtain ⟨found, hfound, hid⟩ := hcurrent
    rw [Option.bind_eq_some_iff] at hfound
    obtain ⟨slot', hslot', hget'⟩ := hfound
    rw [hslot', h.ids slot' slot found context hget' hget (by simpa using hid)]
  · intro hslot
    simp [isCurrent, current, hslot, hget]

theorem Sound.admitted (context : ExecutionContext) (hcount : s.nextId.toNat + 1 < 2 ^ 32)
    (hslot : s.admitSlot = some slot) : Sound
      { s with
        nextId := max (s.nextId + 1) 1
        contexts := s.contexts.put slot (some
          { context with id := s.nextId, state := .ready }) } := by
  obtain ⟨hcurrent, hlt⟩ := h.admitSlot_ne hslot
  have hnext : (max (s.nextId + 1) 1).toNat = s.nextId.toNat + 1 := toNat_max_succ32 hcount
  refine ⟨?_, ?_, ?_, ?_⟩
  · intro i a hi
    rcases get_put_some_cases hi with ⟨rfl, rfl⟩ | ⟨-, hi⟩
    · simp [hcurrent]
    · exact h.running i a hi
  · intro i hi
    have hne : i ≠ slot := by
      rintro rfl
      exact hcurrent hi
    simp only [get_put_of_ne hne]
    exact h.occupied i hi
  · apply distinct_of_changed h.ids get_put_some_cases
    intro i a hi hab
    have hbelow := h.below i a hi
    rw [hab] at hbelow
    exact absurd hbelow (Nat.lt_irrefl _)
  · intro i a hi
    rw [hnext]
    rcases get_put_some_cases hi with ⟨rfl, rfl⟩ | ⟨-, hi⟩
    · exact Nat.lt_succ_self _
    · exact Nat.lt_succ_of_lt (h.below i a hi)

theorem Sound.given (cursor : ℕ) (hget : s.takeCurrent.contexts.get slot = some context) :
    Sound { s.takeCurrent.give slot context with cursor } := by
  obtain ⟨htaken, hnone, -⟩ := h.takeCurrent
  have hid : ({ context with
      state := .running
      dispatches := saturatingAdd context.dispatches 1 } : ExecutionContext).id = context.id := rfl
  obtain ⟨hids, hbelow⟩ := htaken.rewrite hget hid
  refine ⟨?_, ?_, hids, hbelow⟩
  · intro i a hi
    change _ ↔ some slot = some i
    rcases get_put_some_cases hi with ⟨rfl, rfl⟩ | ⟨heq, hi⟩
    · simp
    have hiff := htaken.running i a hi
    rw [hnone] at hiff
    constructor
    · intro hrunning
      cases hiff.mp hrunning
    · intro hslot
      cases hslot
      exact absurd rfl heq
  · intro i hi
    cases hi
    exact ⟨_, get_put_self (lt_of_get hget) _⟩

theorem Sound.rewritten (clear : Bool) (hget : s.contexts.get slot = some context)
    (hrewrites : Rewrites call context context')
    (hclear : clear = true → s.isCurrent context.id = true ∧ context'.state ≠ .running)
    (hleft : context.state = .running → context'.state ≠ .running →
      clear = s.isCurrent context.id) : Sound
      { s with
        contexts := s.contexts.put slot (some context')
        currentSlot := if clear then none else s.currentSlot } := by
  obtain ⟨hids, hbelow⟩ := h.rewrite hget hrewrites.id
  have hcurrent := h.isCurrent_iff hget
  have hiff := h.running slot context hget
  refine ⟨?_, ?_, hids, hbelow⟩
  · intro i a hi
    rcases get_put_some_cases hi with ⟨rfl, rfl⟩ | ⟨heq, hi⟩
    · constructor
      · intro hrunning
        have hkept : clear = false := by
          by_contra hnot
          exact (hclear (by simpa using hnot)).2 hrunning
        rw [hkept]
        exact hiff.mp (hrewrites.running hrunning)
      · intro hslot
        cases clear with
        | true => cases hslot
        | false =>
          by_contra hstopped
          have hrunning := hiff.mpr hslot
          have := hleft hrunning hstopped
          rw [hcurrent.mpr hslot] at this
          cases this
    · rw [h.running i a hi]
      cases hclear' : clear with
      | true =>
        have hslot := hcurrent.mp (hclear hclear').1
        rw [hslot]
        simp only [Option.some.injEq, if_true, reduceCtorEq, iff_false]
        exact fun hne => heq hne.symm
      | false => rfl
  · intro i hi
    split at hi
    · cases hi
    by_cases heq : i = slot
    · subst heq
      exact ⟨_, get_put_self (lt_of_get hget) _⟩
    · obtain ⟨a, ha⟩ := h.occupied i hi
      exact ⟨a, by rw [get_put_of_ne heq, ha]⟩

theorem Sound.change {s' : Scheduler} (hcount : s.nextId.toNat + call.admissions s < 2 ^ 32)
    (hchange : Change call s s') : s'.Sound ∧
      s'.nextId.toNat ≤ s.nextId.toNat + call.admissions s := by
  cases hchange with
  | same => exact ⟨h, Nat.le_add_right _ _⟩
  | taken =>
    refine ⟨h.takeCurrent.1, ?_⟩
    rw [h.takeCurrent.2.2]
    exact Nat.le_add_right _ _
  | @admitted context slot hdone hslot _ =>
    rw [hdone] at hcount ⊢
    exact ⟨h.admitted context hcount hslot, Nat.le_of_eq (toNat_max_succ32 hcount)⟩
  | given cursor hget _ =>
    refine ⟨h.given cursor hget, ?_⟩
    change s.takeCurrent.nextId.toNat ≤ _
    rw [h.takeCurrent.2.2]
    exact Nat.le_add_right _ _
  | rewritten clear _ hget hrewrites hclear hleft =>
    exact ⟨h.rewritten clear hget hrewrites hclear hleft, Nat.le_add_right _ _⟩

end Soundness

theorem new_get (slot : ℕ) : new.contexts.get slot = none := by
  by_contra hne
  obtain ⟨context, hget⟩ := ne_none_iff_exists'.mp hne
  simpa [new] using mem_occupants_of_get hget

theorem new_sound : new.Sound := by
  refine ⟨?_, ?_, ?_, ?_⟩
  · intro slot context hget
    rw [new_get slot] at hget
    cases hget
  · intro slot hslot
    cases hslot
  · intro i j a b hi
    rw [new_get i] at hi
    cases hi
  · intro slot context hget
    rw [new_get slot] at hget
    cases hget

variable {s : Scheduler}

theorem Sound.after (h : s.Sound) (calls : List Call)
    (hcount : s.nextId.toNat + admissions calls s < 2 ^ 32) : (after calls s).Sound := by
  induction calls generalizing s with
  | nil => exact h
  | cons call calls ih =>
    rw [admissions] at hcount
    obtain ⟨hsound, hnext⟩ := h.change (by omega) (call.change s)
    exact ih hsound (by omega)

/-- At most one context is running, and it is the one in the current slot. -/
theorem one_running (calls : List Call) (hcount : admissions calls new < 2 ^ 32 - 1) :
    (∀ slot, (after calls new).currentSlot = some slot ↔
      ∃ context, (after calls new).contexts.get slot = some context ∧ context.state = .running) ∧
    ∀ i j a b, (after calls new).contexts.get i = some a →
      (after calls new).contexts.get j = some b →
      a.state = .running → b.state = .running → i = j := by
  have hsound : (after calls new).Sound := by
    apply new_sound.after calls
    change 1 + admissions calls new < 2 ^ 32
    omega
  constructor
  · intro slot
    constructor
    · intro hslot
      obtain ⟨context, hget⟩ := hsound.occupied slot hslot
      exact ⟨context, hget, (hsound.running slot context hget).mpr hslot⟩
    · rintro ⟨context, hget, hrunning⟩
      exact (hsound.running slot context hget).mp hrunning
  · intro i j a b hi hj ha hb
    have hslot := (hsound.running i a hi).mp ha
    rw [(hsound.running j b hj).mp hb] at hslot
    exact (Option.some.inj hslot).symm

/-- Two contexts to be admitted. -/
def sampleContext : ExecutionContext :=
  .prepared ⟨CfcFin.fromU128 1, FormFin.fromU128 2, FormFin.fromU128 3⟩
    .kernelBootstrap 100

def otherContext : ExecutionContext :=
  .prepared ⟨CfcFin.fromU128 1, FormFin.fromU128 2, FormFin.fromU128 4⟩
    .kernelBootstrap 100

/-- The second of two contexts takes over from the first. -/
def handover : List Call :=
  [.admitContext sampleContext, .admitContext otherContext, .dispatchNext, .dispatchNext]

theorem handover_one_running : admissions handover new < 2 ^ 32 - 1 ∧
    ((after handover new).contexts.get 0).isSome = true ∧
    ∀ slot, (∃ context, (after handover new).contexts.get slot = some context ∧
      context.state = .running) ↔ slot = 1 := by
  have hcount : admissions handover new < 2 ^ 32 - 1 := by decide +kernel
  have hslot : (after handover new).currentSlot = some 1 := by decide +kernel
  refine ⟨hcount, by decide +kernel, fun slot => ?_⟩
  rw [← (one_running handover hcount).1 slot, hslot, Option.some_inj, eq_comm]

/-- Every context is the one that is found under its number. -/
theorem contexts_addressable (calls : List Call) (hcount : admissions calls new < 2 ^ 32 - 1)
    (slot : ℕ) : ∀ context ∈ (after calls new).contexts.get slot,
      (after calls new).slotOf context.id = some slot := by
  have hsound := new_sound.after calls (by change 1 + _ < _; omega)
  intro context hget
  cases hslot : (after calls new).slotOf context.id with
  | none => simpa using findIndex_none hslot hget
  | some found =>
    obtain ⟨⟨other, hother, hid⟩, -⟩ := findIndex_spec hslot
    rw [hsound.ids found slot other context hother hget (by simpa using hid)]

theorem handover_addressable :
    (after handover new).slotOf 1 = some 0 ∧ (after handover new).slotOf 2 = some 1 := by
  have hfound : ∀ slot id, ((after handover new).contexts.get slot).map (·.id) = some id →
      (after handover new).slotOf id = some slot := by
    intro slot id h
    obtain ⟨context, hget, rfl⟩ := Option.map_eq_some_iff.mp h
    exact contexts_addressable handover (by decide +kernel) slot context hget
  exact ⟨hfound 0 1 (by decide +kernel), hfound 1 2 (by decide +kernel)⟩

/-! ## Contexts that have ended -/

/-- The call admits a context into the slot. -/
def Call.takes (call : Call) (slot : ℕ) (s : Scheduler) : Prop :=
  call.admissions s = 1 ∧ s.admitSlot = some slot

/-- The context of a slot is not restarted by the calls, and none of them
admits a context into its slot. -/
def Undisturbed (slot : ℕ) (id : UInt32) : List Call → Scheduler → Prop
  | [], _ => True
  | call :: calls, s =>
    call ≠ .restart id ∧ ¬ call.takes slot s ∧ Undisturbed slot id calls (call.run s)

/-- The slot holds a context with a number that has ended. -/
def HasEnded (slot : ℕ) (id : UInt32) (s : Scheduler) : Prop :=
  ∃ context, s.contexts.get slot = some context ∧ context.id = id ∧ ended context.state = true

section Ended

variable {call : Call} {slot : ℕ} {id : UInt32} {s s' : Scheduler}
  (h : HasEnded slot id s)

include h

theorem HasEnded.takeCurrent : HasEnded slot id s.takeCurrent := by
  obtain ⟨context, hget, hid, hended⟩ := h
  refine ⟨context, ?_, hid, hended⟩
  rw [takeCurrent_get, hget, map_some, if_neg]
  rintro ⟨-, hrunning⟩
  rw [hrunning] at hended
  cases hended

theorem HasEnded.change (hrestart : call ≠ .restart id)
    (htakes : ¬ call.takes slot s) (hwait : call ≠ .wait id)
    (hchange : Change call s s') : HasEnded slot id s' := by
  cases hchange with
  | same => exact h
  | taken => exact h.takeCurrent
  | @admitted _ slot' hdone hslot _ =>
    obtain ⟨context, hget, hid, hended⟩ := h
    refine ⟨context, ?_, hid, hended⟩
    have hne : slot ≠ slot' := by
      rintro rfl
      exact htakes ⟨hdone, hslot⟩
    rw [get_put_of_ne hne, hget]
  | @given slot' ready _ hready hstate =>
    obtain ⟨context, hget, hid, hended⟩ := h.takeCurrent
    refine ⟨context, ?_, hid, hended⟩
    have hne : slot ≠ slot' := by
      rintro rfl
      rw [hready, Option.some.injEq] at hget
      rw [← hget, hstate] at hended
      cases hended
    change (s.takeCurrent.contexts.put slot' _).get slot = _
    rw [get_put_of_ne hne, hget]
  | @rewritten slot' old new _ _ hold hrewrites _ _ =>
    obtain ⟨context, hget, hid, hended⟩ := h
    by_cases hne : slot = slot'
    · subst hne
      rw [hold, Option.some.injEq] at hget
      subst hget
      refine ⟨new, get_put_self (lt_of_get hold) _,
        by rw [hrewrites.id, hid], ?_⟩
      rcases hrewrites.ended hended with hkept | hcall | hcall
      · exact hkept
      · exact absurd (hid ▸ hcall) hrestart
      · exact absurd (hid ▸ hcall) hwait
    · refine ⟨context, ?_, hid, hended⟩
      rw [get_put_of_ne hne, hget]

end Ended

/-- A context that has ended stays off the processor until it is restarted,
its slot is given to a new context, or it is told to wait. -/
theorem ended_stays_off (slot : ℕ) (calls : List Call) (s : Scheduler) (context : ExecutionContext)
    (hget : s.contexts.get slot = some context) (hended : ended context.state = true)
    (hkept : Undisturbed slot context.id calls s)
    (hwait : ∀ call ∈ calls, call ≠ .wait context.id) :
    ∃ context', (after calls s).contexts.get slot = some context' ∧
      context'.id = context.id ∧ context'.state ≠ .ready ∧ context'.state ≠ .running := by
  have hrun : HasEnded slot context.id (after calls s) := by
    have hstart : HasEnded slot context.id s := ⟨context, hget, rfl, hended⟩
    clear hget hended
    induction calls generalizing s with
    | nil => exact hstart
    | cons call calls ih =>
      obtain ⟨hrestart, htakes, hrest⟩ := hkept
      exact ih (call.run s) hrest (fun later hlater => hwait later (mem_cons_of_mem _ hlater))
        (hstart.change hrestart htakes (hwait call mem_cons_self) (call.change s))
  obtain ⟨context', hget', hid, hended'⟩ := hrun
  refine ⟨context', hget', hid, ?_, ?_⟩
  · intro hstate
    rw [hstate] at hended'
    cases hended'
  · intro hstate
    rw [hstate] at hended'
    cases hended'

/-- A context that has returned its result. -/
def returned : Scheduler :=
  after [.admitContext sampleContext, .dispatchNext, .finish 1 7] new

theorem get_of_map {slot : ℕ} {id : UInt32} (h : (s.contexts.get slot).map
      (fun context => (context.id, context.state)) = some (id, state)) :
    ∃ context, s.contexts.get slot = some context ∧ context.id = id ∧ context.state = state := by
  obtain ⟨context, hget, hpair⟩ := map_eq_some_iff.mp h
  obtain ⟨hid, hstate⟩ := Prod.mk.inj hpair
  exact ⟨context, hget, hid, hstate⟩

theorem returned_get : ∃ context, returned.contexts.get 0 = some context ∧
    context.id = 1 ∧ context.state = .exited :=
  get_of_map (by decide +kernel)

theorem returned_stays_off : ∃ context', (after [.dispatchNext, .wake 1] returned).contexts.get 0 =
        some context' ∧ context'.state ≠ .ready ∧ context'.state ≠ .running := by
  obtain ⟨context, hget, hid, hstate⟩ := returned_get
  have hkept : Undisturbed 0 context.id [.dispatchNext, .wake 1] returned := by
    refine ⟨by simp, ?_, by simp, ?_, trivial⟩
    · rintro ⟨hdone, -⟩
      cases hdone
    · rintro ⟨hdone, -⟩
      cases hdone
  obtain ⟨context', hget', -, hoff⟩ := ended_stays_off 0 _ returned context
    hget (by rw [hstate]; rfl) hkept (by simp)
  exact ⟨context', hget', hoff⟩

/-- A context that has returned its result is told to wait, is woken, and
runs again. -/
theorem waiting_revives : (∃ context, returned.contexts.get 0 = some context ∧
      context.id = 1 ∧ context.state = .exited) ∧
    Undisturbed 0 1 [.wait 1, .wake 1, .dispatchNext] returned ∧
    ∃ context, (after [.wait 1, .wake 1, .dispatchNext] returned).contexts.get 0 = some context ∧
      context.id = 1 ∧ context.state = .running := by
  refine ⟨returned_get, ?_, get_of_map (by decide +kernel)⟩
  refine ⟨by simp, ?_, by simp, ?_, by simp, ?_, trivial⟩ <;>
  · rintro ⟨hdone, -⟩
    cases hdone

end Scheduler

end ExpOS
