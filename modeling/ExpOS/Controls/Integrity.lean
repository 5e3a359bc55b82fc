import ExpOS.Controls.Pending

/-!
# Integrity of the event queue

Over every sequence of calls the ring holds exactly the waiting events, no
poll finds an empty cell, events come out in the order of their sequence
numbers, and none comes out for a watch that is not registered.

The sequence counter stops at the largest word.  From there on the numbers
repeat, so they grow strictly only up to that number.
-/

namespace ExpOS.Controls

open List SlotTable

/-- One number is below the other, or both are the largest one, which the
counter repeats. -/
def Precedes (a b : UInt64) : Prop :=
  a < b ∨ a = b ∧ b.toNat = 2 ^ 64 - 1

theorem precedes_iff {a b : UInt64} :
    Precedes a b ↔ a.toNat < b.toNat ∨ a.toNat = b.toNat ∧ b.toNat = 2 ^ 64 - 1 := by
  rw [Precedes, UInt64.lt_iff_toNat_lt, ← UInt64.toNat_inj]

theorem precedes_next (next : UInt64) : Precedes next (saturatingAdd next 1) := by
  have hlt := next.toNat_lt
  rw [precedes_iff, toNat_saturatingAdd, UInt64.toNat_one]
  omega

theorem Precedes.next {number next : UInt64} (h : Precedes number next) :
    Precedes number (saturatingAdd next 1) := by
  have hlt := next.toNat_lt
  rw [precedes_iff] at h ⊢
  rw [toNat_saturatingAdd]
  omega

namespace EventQueue

variable {q q' : EventQueue} {identifier : UInt32} {filter : EventFilter} {data : UInt64}
variable {delivered : List ReadyEvent} {key : EventKey}

/-- A watch with the key is registered, enabled or not. -/
def Registered (q : EventQueue) (key : EventKey) : Prop :=
  ∃ index watch, q.watches.get index = some watch ∧ watch.key = key

/-- The invariant, with the events that polls have returned so far. -/
structure Sound (delivered : List ReadyEvent) (q : EventQueue) : Prop where
  ringed : q.Ringed
  distinct : ∀ i j v w, q.watches.get i = some v → q.watches.get j = some w → v.key = w.key → i = j
  registered : ∀ event ∈ q.pending, q.Registered event.key
  ordered : ((delivered ++ q.pending).map ReadyEvent.sequence).Pairwise Precedes
  below : ∀ event ∈ delivered ++ q.pending, Precedes event.sequence q.nextSequence

theorem sound_new : Sound [] new where
  ringed := ringed_new.1
  distinct i j v w hv := by
    rw [new, get_empty] at hv
    cases hv
  registered := by simp [ringed_new.2]
  ordered := by simp [ringed_new.2]
  below := by simp [ringed_new.2]

theorem Watched.registered (h : q.Watched key) : q.Registered key := by
  obtain ⟨watch, hmem, -, hkey⟩ := h
  obtain ⟨index, hget⟩ := exists_get_of_mem_occupants hmem
  exact ⟨index, watch, hget, hkey⟩

theorem Becomes.registered_iff {waiting : List ReadyEvent} {next : UInt64}
    (h : Becomes q q' waiting next) : q'.Registered key ↔ q.Registered key := by
  rw [Registered, Registered, h.watches_eq]

/-! ## What each call keeps -/

namespace Sound

/-- A call that keeps the watches and changes the waiting events. -/
theorem becomes {delivered' waiting : List ReadyEvent} {next : UInt64} (h : Sound delivered q)
    (hbecomes : Becomes q q' waiting next)
    (hregistered : ∀ event ∈ waiting, q.Registered event.key)
    (hordered : ((delivered' ++ waiting).map ReadyEvent.sequence).Pairwise Precedes)
    (hbelow : ∀ event ∈ delivered' ++ waiting, Precedes event.sequence next) :
    Sound delivered' q' where
  ringed := hbecomes.ringed
  distinct := by
    rw [hbecomes.watches_eq]
    exact h.distinct
  registered event hevent := by
    rw [hbecomes.pending_eq] at hevent
    exact hbecomes.registered_iff.mpr (hregistered event hevent)
  ordered := by rwa [hbecomes.pending_eq]
  below := by rwa [hbecomes.pending_eq, hbecomes.next_eq]

theorem signalled {result : Outcome ControlError SignalOutcome × EventQueue}
    (h : Sound delivered q) (hsignal : Signalled q identifier filter data result) :
    Sound delivered result.2 := by
  cases hsignal with
  | unwatched => exact h
  | full _ _ hbecomes => exact h.becomes hbecomes h.registered h.ordered h.below
  | queued hwatched hbecomes =>
    refine h.becomes hbecomes ?_ ?_ ?_
    · intro event hevent
      rcases mem_append.mp hevent with hold | hnew
      · exact h.registered event hold
      · rw [mem_singleton.mp hnew]
        exact hwatched.registered
    · -- the new number is not below any earlier one
      rw [← append_assoc, map_append, pairwise_append]
      refine ⟨h.ordered, pairwise_singleton _ _, ?_⟩
      intro number hnumber last hlast
      obtain ⟨event, hevent, rfl⟩ := mem_map.mp hnumber
      rw [map_singleton, mem_singleton] at hlast
      rw [hlast]
      exact h.below event hevent
    · intro event hevent
      rw [← append_assoc, mem_append] at hevent
      rcases hevent with hold | hnew
      · exact (h.below event hold).next
      · rw [mem_singleton.mp hnew]
        exact precedes_next _
  | @coalesced q' before after event hwatched hpending hkey hbecomes =>
    have hordered := h.ordered
    have hbelow := h.below
    have hregistered := h.registered
    rw [hpending] at hordered hbelow hregistered
    refine h.becomes hbecomes ?_ ?_ ?_
    · intro other hother
      rcases mem_append.mp hother with hbefore | hafter
      · exact hregistered other (mem_append_left _ hbefore)
      · rcases mem_cons.mp hafter with rfl | hlater
        · exact hregistered event (mem_append_right _ mem_cons_self)
        · exact hregistered other (mem_append_right _ (mem_cons_of_mem _ hlater))
    · -- merging changes no sequence number
      simpa [coalesceEvent] using hordered
    · intro other hother
      rcases mem_append.mp hother with hdelivered | hwaiting
      · exact hbelow other (mem_append_left _ hdelivered)
      rcases mem_append.mp hwaiting with hbefore | hafter
      · exact hbelow other (mem_append_right _ (mem_append_left _ hbefore))
      · rcases mem_cons.mp hafter with rfl | hlater
        · exact hbelow event (mem_append_right _ (mem_append_right _ mem_cons_self))
        · exact hbelow other (mem_append_right _ (mem_append_right _ (mem_cons_of_mem _ hlater)))

/-- A change of the watches under which every waiting event keeps one. -/
theorem watch {watches : SlotTable EventWatch maxWatches} (h : Sound delivered q)
    (hdistinct : ∀ i j v w, watches.get i = some v → watches.get j = some w →
      v.key = w.key → i = j)
    (hregistered : ∀ event ∈ q.pending, Registered { q with watches } event.key) :
    Sound delivered { q with watches } where
  ringed := h.ringed
  distinct := hdistinct
  registered := hregistered
  ordered := h.ordered
  below := h.below

variable {index : ℕ}

/-- A watch may be replaced by one with its key. -/
theorem replace {watch watch' : EventWatch} (h : Sound delivered q)
    (hget : q.watches.get index = some watch) (hkey : watch'.key = watch.key) :
    Sound delivered { q with watches := q.watches.put index (some watch') } := by
  have hlt := lt_of_get hget
  apply h.watch
  · apply distinct_of_changed h.distinct get_put_some_cases
    intro i w hw hsame
    exact h.distinct i index w watch hw hget (hsame.trans hkey)
  · intro event hevent
    obtain ⟨i, w, hw, hevents⟩ := h.registered event hevent
    by_cases heq : i = index
    · subst heq
      rw [hget] at hw
      cases hw
      exact ⟨i, watch', get_put_self hlt _, hkey.trans hevents⟩
    · exact ⟨i, w, by rwa [get_put_of_ne heq], hevents⟩

/-- A watch with a new key goes to the first free cell. -/
theorem register (h : Sound delivered q) (watch : EventWatch) :
    Sound delivered (EventQueue.register watch q).2 := by
  rw [EventQueue.register]
  split
  · exact h
  rename_i hfresh
  split
  · exact h
  rename_i slot hslot
  have hnone := get_of_freeIndex hslot
  have hnew : ∀ i w, q.watches.get i = some w → w.key ≠ watch.key := by
    intro i w hw hkey
    apply hfresh
    exact any_eq_true.mpr ⟨w, mem_occupants_of_get hw, sameEventKey_iff.mpr hkey⟩
  apply h.watch
  · apply distinct_of_changed h.distinct get_put_some_cases
    intro i w hw hsame
    exact absurd hsame (hnew i w hw)
  · intro event hevent
    obtain ⟨i, w, hw, hkey⟩ := h.registered event hevent
    have hne := ne_of_some_none hw hnone
    exact ⟨i, w, by rwa [get_put_of_ne hne], hkey⟩

/-- With a watch its waiting events go. -/
theorem unregister (h : Sound delivered q) :
    Sound delivered (EventQueue.unregister identifier filter q).2 := by
  rw [EventQueue.unregister]
  split
  · exact h
  rename_i slot hslot
  obtain ⟨⟨watch, hget, hmatch⟩, -⟩ := findIndex_spec hslot
  have hkey := sameEventKey_iff.mp hmatch
  let freed : EventQueue := { q with watches := q.watches.put slot none }
  have hbecomes : Becomes freed (removeReady identifier filter freed) _ _ :=
    removeReady_becomes (q := freed) h.ringed
  have hsub : (delivered ++ keptEvents identifier filter q.pending).Sublist
      (delivered ++ q.pending) :=
    filter_sublist.append_left _
  refine ⟨hbecomes.ringed, ?_, ?_, ?_, ?_⟩
  · intro i j v w hv hw hsame
    exact h.distinct _ _ _ _ (get_of_get_put_none hv) (get_of_get_put_none hw) hsame
  · intro event hevent
    rw [hbecomes.pending_eq] at hevent
    obtain ⟨hwaiting, hother⟩ := mem_filter.mp hevent
    obtain ⟨i, w, hw, hevents⟩ := h.registered event hwaiting
    refine hbecomes.registered_iff.mpr ⟨i, w, ?_, hevents⟩
    have hne : i ≠ slot := by
      rintro rfl
      rw [hget] at hw
      cases hw
      exact of_decide_eq_true hother (hevents.symm.trans hkey)
    rwa [get_put_of_ne hne]
  · rw [hbecomes.pending_eq]
    exact h.ordered.sublist (hsub.map _)
  · intro event hevent
    rw [hbecomes.pending_eq] at hevent
    exact h.below event (hsub.subset hevent)

variable {now : UInt64}

theorem advanced (h : Sound delivered q)
    (hadvanced : Advanced now q index q') : Sound delivered q' := by
  cases hadvanced with
  | idle => exact h
  | refused _ _ hsignal => exact h.signalled hsignal
  | fired hget _ _ hsignal =>
    have hwatches := hsignal.watches_eq
    exact (h.signalled hsignal).replace (hwatches ▸ hget) (EventWatch.key_after ..)

theorem advanceTimers (h : Sound delivered q) (now : UInt64) (coalesce : Bool) :
    Sound delivered (EventQueue.advanceTimers now coalesce q) :=
  advanceTimers_induction (fun _ hq => hq.ringed) (fun _ _ _ hq => hq.advanced) h coalesce

/-- A timer that moves on keeps its key. -/
theorem registered_of_advanced (hadvanced : Advanced now q index q')
    (hkey : q'.Registered key) : q.Registered key := by
  cases hadvanced with
  | idle => exact hkey
  | refused _ _ hsignal =>
    have hwatches := hsignal.watches_eq
    rwa [Registered, hwatches] at hkey
  | @fired watch q' outcome hget _ _ hsignal =>
    have hwatches := hsignal.watches_eq
    obtain ⟨i, found, hfound, rfl⟩ := hkey
    rcases get_put_some_cases hfound with ⟨-, rfl⟩ | ⟨-, hold⟩
    · exact ⟨index, watch, hget, (EventWatch.key_after ..).symm⟩
    · rw [hwatches] at hold
      exact ⟨i, found, hold, rfl⟩

theorem registered_of_advanceTimers (h : Sound delivered q) {coalesce : Bool}
    (hkey : (EventQueue.advanceTimers now coalesce q).Registered key) : q.Registered key := by
  have hkept : Sound delivered (EventQueue.advanceTimers now coalesce q) ∧
      ((EventQueue.advanceTimers now coalesce q).Registered key → q.Registered key) := by
    apply advanceTimers_induction (motive := fun q' => Sound delivered q' ∧
      (q'.Registered key → q.Registered key))
    · exact fun _ hq => hq.1.ringed
    · exact fun _ _ _ hq hadvanced =>
        ⟨hq.1.advanced hadvanced, hq.2 ∘ registered_of_advanced hadvanced⟩
    · exact ⟨h, id⟩
  exact hkept.2 hkey

/-- What a poll returns is delivered. -/
theorem poll (h : Sound delivered q) (room budget : ℕ) :
    ∃ events, (EventQueue.poll room budget q).1 = .done events ∧
      (∀ event ∈ events, event ∈ q.pending) ∧
      Sound (delivered ++ events) (EventQueue.poll room budget q).2 := by
  obtain ⟨q', hrun, hbecomes⟩ := poll_spec h.ringed room budget
  rw [hrun]
  have hsplit : delivered ++ q.pending.take (min room budget) ++
      q.pending.drop (min room budget) = delivered ++ q.pending := by
    rw [append_assoc, take_append_drop]
  refine ⟨_, rfl, fun event => mem_of_mem_take, h.becomes hbecomes ?_ ?_ ?_⟩
  · intro event hevent
    exact h.registered event (mem_of_mem_drop hevent)
  · rw [hsplit]
    exact h.ordered
  · rw [hsplit]
    exact h.below

end Sound

/-! ## Runs -/

/-- One call on the queue with arbitrary arguments; `room` is the length of
the output of a poll. -/
inductive Call where
  | register (watch : EventWatch)
  | unregister (identifier : UInt32) (filter : EventFilter)
  | signal (identifier : UInt32) (filter : EventFilter) (data : UInt64) (coalesce : Bool)
  | advanceTimers (now : UInt64) (coalesce : Bool)
  | poll (room budget : ℕ)

/-- A call, with the events it returns if it is a poll. -/
def perform (q : EventQueue) : Call → Outcome ControlError (List ReadyEvent) × EventQueue
  | .register watch =>
    let result := register watch q
    (result.1 >>= fun _ => .done [], result.2)
  | .unregister identifier filter =>
    let result := unregister identifier filter q
    (result.1 >>= fun _ => .done [], result.2)
  | .signal identifier filter data coalesce =>
    let result := signal identifier filter data coalesce q
    (result.1 >>= fun _ => .done [], result.2)
  | .advanceTimers now coalesce => (.done [], advanceTimers now coalesce q)
  | .poll room budget => poll room budget q

/-- The events that a sequence of calls returns, and the queue after it. -/
def run : EventQueue → List Call → List ReadyEvent × EventQueue
  | q, [] => ([], q)
  | q, call :: calls =>
    let result := perform q call
    let rest := run result.2 calls
    (result.1.toOption.getD [] ++ rest.1, rest.2)

/-- The call registers a watch with the key. -/
def Call.Registers (key : EventKey) : Call → Prop
  | .register watch => watch.key = key
  | _ => False

theorem run_append (q : EventQueue) (calls more : List Call) :
    run q (calls ++ more) =
      ((run q calls).1 ++ (run (run q calls).2 more).1, (run (run q calls).2 more).2) := by
  induction calls generalizing q with
  | nil => rfl
  | cons call calls ih => simp only [cons_append, run, ih, append_assoc]

theorem register_ne_halt (watch : EventWatch) (q : EventQueue) : (register watch q).1 ≠ .halt := by
  rw [register]
  split
  · simp
  · split <;> simp

theorem unregister_ne_halt (q : EventQueue) : (unregister identifier filter q).1 ≠ .halt := by
  rw [unregister]
  split <;> simp

theorem Signalled.ne_halt {result : Outcome ControlError SignalOutcome × EventQueue}
    (h : Signalled q identifier filter data result) : result.1 ≠ .halt := by
  cases h <;> simp

theorem bind_nil_getD {α : Type} (x : Outcome ControlError α) :
    (x >>= fun _ => (.done [] : Outcome ControlError (List ReadyEvent))).toOption.getD [] = [] := by
  cases x <;> rfl

theorem bind_nil_ne_halt {α : Type} {x : Outcome ControlError α} (h : x ≠ .halt) :
    (x >>= fun _ => (.done [] : Outcome ControlError (List ReadyEvent))) ≠ .halt :=
  Outcome.bind_ne_halt h fun _ _ => by simp

/-- One step: the call ends, it keeps the invariant, and what it returns was
waiting. -/
theorem Sound.perform (h : Sound delivered q) (call : Call) :
    (q.perform call).1 ≠ .halt ∧
      (∀ event ∈ (q.perform call).1.toOption.getD [], event ∈ q.pending) ∧
      Sound (delivered ++ (q.perform call).1.toOption.getD []) (q.perform call).2 := by
  cases call with
  | register watch =>
    rw [EventQueue.perform, bind_nil_getD, append_nil]
    exact ⟨bind_nil_ne_halt (register_ne_halt watch q), by simp, h.register watch⟩
  | unregister identifier filter =>
    rw [EventQueue.perform, bind_nil_getD, append_nil]
    exact ⟨bind_nil_ne_halt (unregister_ne_halt q), by simp, h.unregister⟩
  | signal identifier filter data coalesce =>
    rw [EventQueue.perform, bind_nil_getD, append_nil]
    have hsignal : Signalled q identifier filter data _ := signal_signalled h.ringed coalesce
    exact ⟨bind_nil_ne_halt hsignal.ne_halt, by simp, h.signalled hsignal⟩
  | advanceTimers now coalesce =>
    simp only [EventQueue.perform, Outcome.toOption_done, Option.getD_some, append_nil]
    exact ⟨by simp, by simp, h.advanceTimers now coalesce⟩
  | poll room budget =>
    obtain ⟨events, hdone, hwaiting, hsound⟩ := h.poll room budget
    rw [EventQueue.perform, hdone, Outcome.toOption_done]
    exact ⟨by simp, hwaiting, hsound⟩

theorem Sound.run (h : Sound delivered q) (calls : List Call) :
    Sound (delivered ++ (q.run calls).1) (q.run calls).2 := by
  induction calls generalizing q delivered with
  | nil =>
    rw [EventQueue.run, append_nil]
    exact h
  | cons call calls ih =>
    rw [EventQueue.run, ← append_assoc]
    exact ih (h.perform call).2.2

/-- Only a registration registers a watch. -/
theorem Sound.registered_of_perform (h : Sound delivered q) {call : Call}
    (hcall : ¬ call.Registers key) (hkey : (q.perform call).2.Registered key) :
    q.Registered key := by
  cases call with
  | register watch =>
    rw [EventQueue.perform, EventQueue.register] at hkey
    split at hkey
    · exact hkey
    split at hkey
    · exact hkey
    obtain ⟨index, found, hget, hfound⟩ := hkey
    rcases get_put_some_cases hget with ⟨-, rfl⟩ | ⟨-, hold⟩
    · exact absurd hfound hcall
    · exact ⟨index, found, hold, hfound⟩
  | unregister identifier filter =>
    rw [EventQueue.perform, EventQueue.unregister] at hkey
    split at hkey
    · exact hkey
    · obtain ⟨index, found, hget, hfound⟩ := hkey
      exact ⟨index, found, get_of_get_put_none hget, hfound⟩
  | signal identifier filter data coalesce =>
    obtain ⟨index, found, hget, hfound⟩ := hkey
    rw [EventQueue.perform, (signal_signalled h.ringed coalesce).watches_eq] at hget
    exact ⟨index, found, hget, hfound⟩
  | advanceTimers now coalesce =>
    simp only [EventQueue.perform] at hkey
    exact h.registered_of_advanceTimers hkey
  | poll room budget =>
    obtain ⟨q', hrun, hbecomes⟩ := poll_spec h.ringed room budget
    rw [EventQueue.perform, hrun] at hkey
    exact hbecomes.registered_iff.mp hkey

/-- Without a registration nothing is returned for a watch that is not
registered. -/
theorem Sound.run_unregistered (h : Sound delivered q) (hkey : ¬ q.Registered key)
    {calls : List Call} (hcalls : ∀ call ∈ calls, ¬ call.Registers key) :
    ∀ event ∈ (q.run calls).1, event.key ≠ key := by
  induction calls generalizing q delivered with
  | nil => simp [EventQueue.run]
  | cons call calls ih =>
    obtain ⟨-, hwaiting, hsound⟩ := h.perform call
    intro event hevent
    rcases mem_append.mp hevent with hnow | hlater
    · rintro rfl
      exact hkey (h.registered event (hwaiting event hnow))
    · refine ih hsound ?_ (fun c hc => hcalls c (mem_cons_of_mem _ hc)) event hlater
      exact fun hnext => hkey (h.registered_of_perform (hcalls call mem_cons_self) hnext)

/-- After a call to unregister a watch it is not registered. -/
theorem Sound.not_registered_unregister (h : Sound delivered q) :
    ¬ (EventQueue.unregister identifier filter q).2.Registered (identifier, filter) := by
  rw [EventQueue.unregister]
  split
  · next hnone =>
      rintro ⟨index, watch, hget, hkey⟩
      have hfound := findIndex_none hnone hget
      rw [sameEventKey_iff.mpr hkey] at hfound
      cases hfound
  rename_i slot hslot
  obtain ⟨⟨watch, hwatch, hmatch⟩, -⟩ := findIndex_spec hslot
  rintro ⟨index, found, hget, hkey⟩
  have hold := get_of_get_put_none hget
  have hslot : index = slot :=
    h.distinct _ _ _ _ hold hwatch (hkey.trans (sameEventKey_iff.mp hmatch).symm)
  subst hslot
  change (q.watches.put index none).get index = some found at hget
  rw [get_put_self (lt_of_get hwatch)] at hget
  cases hget

end EventQueue

open EventQueue in
/-- The ring is occupied exactly from its head on, no call halts, events are
returned in the order of their sequence numbers, which grow strictly until
the largest one, and none is returned for a watch that was unregistered and
not registered again. -/
theorem event_queue_integrity (calls : List EventQueue.Call) :
    let q := (run new calls).2
    (q.readyHead < maxReadyEvents ∧ q.readyCount ≤ maxReadyEvents ∧
      ∀ index < maxReadyEvents, (q.ready.get index).isSome ↔
        ∃ offset < q.readyCount, index = (q.readyHead + offset) % maxReadyEvents) ∧
    (∀ call, (perform q call).1 ≠ .halt) ∧
    ((run new calls).1.map ReadyEvent.sequence).Pairwise Precedes ∧
    ∀ identifier filter later, (∀ call ∈ later, ¬ call.Registers (identifier, filter)) →
      ∀ event ∈ (run (unregister identifier filter q).2 later).1,
        event.key ≠ (identifier, filter) := by
  intro q
  have h : Sound (run new calls).1 q := sound_new.run calls
  refine ⟨⟨h.ringed.head_lt, h.ringed.count_le, ?_⟩, ?_, ?_, ?_⟩
  · intro index hindex
    exact h.ringed.isSome_get_iff hindex
  · intro call
    exact (h.perform call).1
  · have hordered := h.ordered
    rw [map_append] at hordered
    exact (pairwise_append.mp hordered).1
  · intro identifier filter later hlater
    exact h.unregister.run_unregistered h.not_registered_unregister hlater

namespace EventQueue

/-- A watch is registered, a number of signals is put and taken one by one,
and then two more are taken together. -/
def saturatingCalls (rounds : ℕ) : List Call :=
  .register (EventWatch.signal 7) ::
    ((List.replicate rounds [Call.signal 7 .signal 0 false, .poll 1 1]).flatten ++
      [.signal 7 .signal 0 false, .signal 7 .signal 0 false, .poll 2 2])

/-- Nothing waits, and the next event of the watch gets the number. -/
structure IdleAt (number : ℕ) (q : EventQueue) : Prop where
  ringed : q.Ringed
  pending_eq : q.pending = []
  watched : q.Watched (7, .signal)
  next_eq : q.nextSequence.toNat = number

variable {q : EventQueue} {number : ℕ}

theorem IdleAt.round (h : IdleAt number q) : IdleAt (min (number + 1) (2 ^ 64 - 1))
      (run q [Call.signal 7 .signal 0 false, .poll 1 1]).2 := by
  have hsignal : Becomes q (signal 7 .signal 0 false q).2 _ _ :=
    signal_queued h.ringed h.watched (by
      rw [h.pending_eq]
      decide)
  obtain ⟨q', hpoll, hbecomes⟩ := poll_spec hsignal.ringed 1 1
  simp only [run, perform, hpoll]
  refine ⟨hbecomes.ringed, ?_, ?_, ?_⟩
  · rw [hbecomes.pending_eq, hsignal.pending_eq, h.pending_eq]
    rfl
  · exact hbecomes.watched_iff.mpr (hsignal.watched_iff.mpr h.watched)
  · rw [hbecomes.next_eq, hsignal.next_eq, toNat_saturatingAdd, h.next_eq, UInt64.toNat_one]

theorem IdleAt.rounds (h : IdleAt number q) (hnumber : number < 2 ^ 64) (rounds : ℕ) :
    IdleAt (min (number + rounds) (2 ^ 64 - 1))
      (run q (List.replicate rounds [Call.signal 7 .signal 0 false, .poll 1 1]).flatten).2 := by
  induction rounds generalizing q number with
  | zero =>
    rw [min_eq_left (by omega)]
    exact h
  | succ rounds ih =>
    have hnext := ih h.round (by omega)
    have hmin : min (min (number + 1) (2 ^ 64 - 1) + rounds) (2 ^ 64 - 1) =
        min (number + (rounds + 1)) (2 ^ 64 - 1) := by omega
    rwa [hmin] at hnext

/-- Two signals taken together once the counter has stopped have the same
number. -/
theorem IdleAt.repeats (h : IdleAt (2 ^ 64 - 1) q) :
    ¬ ((run q [.signal 7 .signal 0 false, .signal 7 .signal 0 false, .poll 2 2]).1.map
      ReadyEvent.sequence).Pairwise (· < ·) := by
  have hfirst : Becomes q (signal 7 .signal 0 false q).2 _ _ := signal_queued h.ringed h.watched (by
      rw [h.pending_eq]
      decide)
  have hsecond : Becomes (signal 7 .signal 0 false q).2
      (signal 7 .signal 0 false (signal 7 .signal 0 false q).2).2 _ _ :=
    signal_queued hfirst.ringed (hfirst.watched_iff.mpr h.watched) (by
      rw [hfirst.pending_eq, h.pending_eq, nil_append, length_singleton]
      decide)
  obtain ⟨q', hpoll, -⟩ := poll_spec hsecond.ringed 2 2
  simp only [run, perform, hpoll, bind_nil_getD, hsecond.pending_eq, hfirst.pending_eq,
    h.pending_eq, hfirst.next_eq]
  intro hordered
  have hlt : q.nextSequence < saturatingAdd q.nextSequence 1 := by simpa using hordered
  rw [UInt64.lt_iff_toNat_lt, toNat_saturatingAdd, h.next_eq] at hlt
  omega

/-- After 2⁶⁴ signals two events with the same number are returned. -/
theorem sequence_repeats :
    ¬ ((run new (saturatingCalls (2 ^ 64 - 2))).1.map ReadyEvent.sequence).Pairwise (· < ·) := by
  have hstart : IdleAt 1 (perform new (.register (EventWatch.signal 7))).2 := by
    refine ⟨ringed_new.1, ringed_new.2, ?_, rfl⟩
    exact ⟨EventWatch.signal 7, by decide, rfl, rfl⟩
  have hidle := hstart.rounds (by decide) (2 ^ 64 - 2)
  intro hordered
  rw [saturatingCalls, run, run_append, map_append, map_append] at hordered
  exact hidle.repeats (pairwise_append.mp (pairwise_append.mp hordered).2.1).2.1

end EventQueue

end ExpOS.Controls
