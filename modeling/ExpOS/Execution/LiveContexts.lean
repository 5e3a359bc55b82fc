import ExpOS.Execution.Scheduler

/-!
# Live contexts and their identities

A context is live unless it has exited or was terminated.  `admitContext`
refuses an identity that a live context already has.  A context that is no
longer live keeps its slot until the slot is taken again, and three calls can
make it live there; none of them looks at the identities.
-/

namespace ExpOS

open List SlotTable Option

namespace Scheduler

/-- The slot holds a live context of an identity. -/
def LiveAt (s : Scheduler) (slot : ℕ) (identity : ExecutionIdentity) :
    Prop :=
  ∃ context, s.contexts.get slot = some context ∧
    context.identity = identity ∧ reusable context.state = false

/-- No two live contexts have the same identity. -/
def OneLive (s : Scheduler) : Prop :=
  ∀ i j identity, s.LiveAt i identity → s.LiveAt j identity → i = j

/-- The call does not revive a context whose identity a live context has. -/
def Careful (call : Call) (s : Scheduler) : Prop :=
  ∀ slot context, s.slotOf context.id = some slot →
    s.contexts.get slot = some context → reusable context.state = true →
    call.revives context = true → ∀ other, ¬ s.LiveAt other context.identity

def AllCareful : List Call → Scheduler → Prop
  | [], _ => True
  | call :: calls, s => Careful call s ∧ AllCareful calls (call.run s)

/-! ## One call -/

section Step

variable {call : Call} {s s' : Scheduler} {slot : ℕ}
  {context : ExecutionContext} {identity : ExecutionIdentity}

/-- A live context after a slot was written. -/
theorem liveAt_put {current : Option ℕ} {cursor other : ℕ} {next : UInt32}
    {contexts : SlotTable ExecutionContext maxExecutionContexts}
    (h : LiveAt ⟨contexts.put slot (some context), current, cursor, next⟩ other identity) :
    (other = slot ∧ context.identity = identity ∧ reusable context.state = false) ∨
    ∃ found, contexts.get other = some found ∧
      found.identity = identity ∧ reusable found.state = false := by
  obtain ⟨found, hget, hidentity, hlive⟩ := h
  rcases get_put_some_cases hget with ⟨rfl, rfl⟩ | ⟨-, hget⟩
  · exact .inl ⟨rfl, hidentity, hlive⟩
  · exact .inr ⟨found, hget, hidentity, hlive⟩

theorem LiveAt.of_takeCurrent (h : s.takeCurrent.LiveAt slot identity) :
    s.LiveAt slot identity := by
  obtain ⟨context, hget, hidentity, hlive⟩ := h
  rw [takeCurrent_get, map_eq_some_iff] at hget
  obtain ⟨old, hold, rfl⟩ := hget
  refine ⟨old, hold, ?_, ?_⟩
  · rw [← hidentity]
    split
    · rfl
    · rfl
  · split at hlive
    · next hrunning =>
        rw [hrunning.2]
        rfl
    · exact hlive

/-- A call makes at most one context live: one it admits under an identity of
no live context, or one it revives. -/
theorem Change.live (hchange : Change call s s') :
    ∃ changed, ∀ slot identity, s'.LiveAt slot identity → s.LiveAt slot identity ∨ (slot = changed ∧
        ((∀ other, ¬ s.LiveAt other identity) ∨ ∃ context, s.slotOf context.id = some slot ∧
          s.contexts.get slot = some context ∧
          reusable context.state = true ∧ call.revives context = true ∧
          context.identity = identity)) := by
  cases hchange with
  | same => exact ⟨0, fun _ _ h => .inl h⟩
  | taken => exact ⟨0, fun _ _ h => .inl h.of_takeCurrent⟩
  | @admitted _ changed _ _ hfresh =>
    refine ⟨changed, fun slot identity h => ?_⟩
    rcases liveAt_put h with ⟨rfl, hidentity, -⟩ | hold
    · refine .inr ⟨rfl, .inl ?_⟩
      rintro other ⟨found, hget, hfound, hlive⟩
      rw [hfresh found (mem_occupants_of_get hget) (hfound.trans hidentity.symm)] at hlive
      cases hlive
    · exact .inl hold
  | @given changed ready _ hget hready =>
    refine ⟨changed, fun slot identity h => .inl ?_⟩
    rcases liveAt_put h with ⟨rfl, hidentity, -⟩ | hold
    · exact LiveAt.of_takeCurrent ⟨ready, hget, hidentity, by rw [hready]; rfl⟩
    · exact LiveAt.of_takeCurrent hold
  | @rewritten changed old new _ hslot hget hrewrites _ _ =>
    refine ⟨changed, fun slot identity h => ?_⟩
    rcases liveAt_put h with ⟨rfl, hidentity, hlive⟩ | hold
    · rw [hrewrites.identity] at hidentity
      by_cases hended : reusable old.state = true
      · rcases hrewrites.revived hended with hkept | hrevives
        · rw [hkept] at hlive
          cases hlive
        · exact .inr ⟨rfl, .inr ⟨old, hslot, hget, hended, hrevives, hidentity⟩⟩
      · exact .inl ⟨old, hget, hidentity, by simpa using hended⟩
    · exact .inl hold

/-- A careful call keeps the identities of live contexts apart. -/
theorem OneLive.run (h : s.OneLive) (hcareful : Careful call s) : (call.run s).OneLive := by
  obtain ⟨changed, hlive⟩ := (call.change s).live
  have hnew : ∀ i identity, (call.run s).LiveAt i identity → s.LiveAt i identity ∨
        (i = changed ∧ ∀ other, ¬ s.LiveAt other identity) := by
    intro i identity hi
    rcases hlive i identity hi with hold | ⟨heq, hnone |
      ⟨context, hslot, hget, hended, hrevives, rfl⟩⟩
    · exact .inl hold
    · exact .inr ⟨heq, hnone⟩
    · exact .inr ⟨heq, hcareful i context hslot hget hended hrevives⟩
  intro i j identity hi hj
  rcases hnew i identity hi with hi' | ⟨heqi, hnone⟩
  · rcases hnew j identity hj with hj' | ⟨-, hnone⟩
    · exact h i j identity hi' hj'
    · exact absurd hi' (hnone i)
  · rcases hnew j identity hj with hj' | ⟨heqj, -⟩
    · exact absurd hj' (hnone j)
    · rw [heqi, heqj]

/-- A call that revives a context writes it to its slot, live and with its
identity. -/
theorem revives_run (hslot : s.slotOf context.id = some slot)
    (hget : s.contexts.get slot = some context) (hended : reusable context.state = true)
    (hrevives : call.revives context = true) : ∃ context', (call.run s).contexts =
        s.contexts.put slot (some context') ∧ context'.identity = context.identity ∧
      reusable context'.state = false := by
  cases call with
  | restart id =>
    have hid : context.id = id := by simpa [Call.revives] using hrevives
    subst hid
    simp only [Call.run, restart, onContext, hslot, hget, bind_some, map_some]
    rw [if_neg (by simp [ended_of_reusable hended])]
    exact ⟨_, rfl, rfl, rfl⟩
  | wait id =>
    have hid : context.id = id := by simpa [Call.revives] using hrevives
    subst hid
    simp only [Call.run, wait, onContext, hslot, hget, bind_some, map_some, leaving]
    split
    · exact ⟨_, rfl, rfl, rfl⟩
    · exact ⟨_, rfl, rfl, rfl⟩
  | finishSlice id cpu ticks result =>
    rcases hcharge : context.budget.charge .cpuTicks ticks with
      ⟨outcome, budget⟩
    simp only [Call.revives, hcharge, Bool.and_eq_true, beq_iff_eq, bne_iff_ne] at hrevives
    obtain ⟨⟨hid, hticks⟩, hdenied⟩ := hrevives
    subst hid
    simp only [Call.run, finishSlice, onContext, hslot, hget,
      bind_some, map_some, hticks, if_false, hcharge]
    rcases outcome with used | error | _
    · cases hdenied
    · simp only [leaving]
      split
      · exact ⟨_, rfl, rfl, rfl⟩
      · exact ⟨_, rfl, rfl, rfl⟩
    · simp only [leaving]
      split
      · exact ⟨_, rfl, rfl, rfl⟩
      · exact ⟨_, rfl, rfl, rfl⟩
  | _ => cases hrevives

/-- A call that is not careful leaves two live contexts with one identity. -/
theorem careful_of_oneLive (h : (call.run s).OneLive) : Careful call s := by
  rintro slot context hslot hget hended hrevives other ⟨found, hfound, hidentity, hlive⟩
  obtain ⟨context', hrun, hidentity', hlive'⟩ := revives_run hslot hget hended hrevives
  have hne : other ≠ slot := by
    rintro rfl
    rw [hfound, Option.some.injEq] at hget
    rw [hget, hended] at hlive
    cases hlive
  apply hne
  apply h other slot context.identity
  · refine ⟨found, ?_, hidentity, hlive⟩
    rw [hrun, get_put_of_ne hne, hfound]
  · refine ⟨context', ?_, hidentity', hlive'⟩
    rw [hrun, get_put_self (lt_of_get hget)]

end Step

/-! ## Runs -/

theorem oneLive_runs {s : Scheduler} (h : s.OneLive) (calls : List Call) :
    (∀ first, first <+: calls → (after first s).OneLive) ↔ AllCareful calls s := by
  induction calls generalizing s with
  | nil =>
    refine ⟨fun _ => trivial, fun _ first hfirst => ?_⟩
    rw [prefix_nil.mp hfirst]
    exact h
  | cons call calls ih =>
    constructor
    · intro hall
      have hrun : (call.run s).OneLive := hall [call] ⟨calls, rfl⟩
      refine ⟨careful_of_oneLive hrun, (ih hrun).mp ?_⟩
      intro first hfirst
      exact hall (call :: first) (cons_prefix_cons.mpr ⟨rfl, hfirst⟩)
    · rintro ⟨hcareful, hrest⟩ first hfirst
      rcases prefix_cons_iff.mp hfirst with rfl | ⟨later, rfl, hlater⟩
      · exact h
      · exact (ih (h.run hcareful)).mpr hrest later hlater

theorem new_oneLive : new.OneLive := by
  rintro i j identity ⟨context, hget, -⟩
  rw [new_get] at hget
  cases hget

/-- Along a run of the scheduler no two live contexts share an identity,
exactly if no call revives a context whose identity a live one has. -/
theorem one_live_per_identity (calls : List Call) :
    (∀ first, first <+: calls → (after first new).OneLive) ↔ AllCareful calls new :=
  oneLive_runs new_oneLive calls

/-- Two contexts return, one of them is admitted again into the slot of the
other, and its first context is restarted. -/
def restartedTwin : Scheduler :=
  after [.admitContext otherContext, .admitContext sampleContext,
    .finish 1 0, .finish 2 0, .admitContext sampleContext, .restart 2] new

/-- Two ready contexts have the identity of `sampleContext`. -/
theorem restart_doubles_identity : restartedTwin.LiveAt 0 sampleContext.identity ∧
      restartedTwin.LiveAt 1 sampleContext.identity ∧ ¬ restartedTwin.OneLive := by
  have hlive : ∀ slot, (restartedTwin.contexts.get slot).any
      (fun context => context.identity = sampleContext.identity ∧
        reusable context.state = false) = true →
      restartedTwin.LiveAt slot sampleContext.identity := by
    intro slot hany
    obtain ⟨context, hget, hboth⟩ := (any_eq_true _ _).mp hany
    exact ⟨context, hget, by simpa using hboth⟩
  have hfirst := hlive 0 (by decide +kernel)
  have hsecond := hlive 1 (by decide +kernel)
  exact ⟨hfirst, hsecond, fun h => absurd (h 0 1 _ hfirst hsecond) (by simp)⟩

end Scheduler

end ExpOS
