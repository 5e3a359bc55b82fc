import ExpOS.Controls.EventQueue

/-!
# The events that wait

What the calls on the event queue do, told by the list of waiting events
instead of the ring that holds it.
-/

namespace ExpOS.Controls

open List SlotTable Fifo

/-- The watch after its expirations up to `now` have been reported. -/
def EventWatch.after (watch : EventWatch) (now : UInt64) : EventWatch :=
  match (watch.expire now).2 with
  | some deadline => { watch with deadline }
  | none => { watch with enabled := false }

theorem EventWatch.key_after (watch : EventWatch) (now : UInt64) :
    (watch.after now).key = watch.key := by
  rw [EventWatch.after]
  split <;> rfl

namespace EventQueue

/-- The events that wait, the oldest first. -/
def pending (q : EventQueue) : List ReadyEvent :=
  (Fifo.window maxReadyEvents q.ready.get q.readyHead q.readyCount).reduceOption

/-- The ring holds the events that wait, and nothing else. -/
def Ringed (q : EventQueue) : Prop :=
  Holds q.ready q.readyHead q.readyCount q.pending

variable {q q' : EventQueue} {identifier : UInt32} {filter : EventFilter} {data : UInt64}

theorem pending_of_holds {entries : List ReadyEvent}
    (h : Holds q.ready q.readyHead q.readyCount entries) : q.Ringed ∧ q.pending = entries := by
  have heq : q.pending = entries := h.window_eq
  exact ⟨by rwa [Ringed, heq], heq⟩

theorem ringed_new : new.Ringed ∧ new.pending = [] :=
  pending_of_holds (holds_empty (by decide) (by decide))

/-- The state after a call whose only effects are on the waiting events, the
sequence counter and the statistics. -/
structure Becomes (q q' : EventQueue) (waiting : List ReadyEvent) (next : UInt64) : Prop where
  ringed : q'.Ringed
  pending_eq : q'.pending = waiting
  watches_eq : q'.watches = q.watches
  next_eq : q'.nextSequence = next

theorem becomes_of_holds {entries : List ReadyEvent}
    (h : Holds q'.ready q'.readyHead q'.readyCount entries) (hwatches : q'.watches = q.watches) :
    Becomes q q' entries q'.nextSequence where
  ringed := (pending_of_holds h).1
  pending_eq := (pending_of_holds h).2
  watches_eq := hwatches
  next_eq := rfl

theorem Ringed.readyCount_eq (h : q.Ringed) : q.readyCount = q.pending.length :=
  h.count_eq

/-! ## Signals -/

theorem sameEventKey_iff {watch : EventWatch} :
    sameEventKey watch identifier filter = true ↔ watch.key = (identifier, filter) := by
  rw [sameEventKey, Bool.and_eq_true, beq_iff_eq, beq_iff_eq, EventWatch.key, Prod.mk.injEq]

/-- A signal reaches a watch that is registered and enabled. -/
def Watched (q : EventQueue) (key : EventKey) : Prop :=
  ∃ watch ∈ q.watches.occupants, watch.enabled = true ∧ watch.key = key

theorem any_watches_iff :
    (q.watches.occupants.any fun watch =>
      watch.enabled && sameEventKey watch identifier filter) = true ↔
    q.Watched (identifier, filter) := by
  rw [any_eq_true]
  refine exists_congr fun watch => and_congr_right fun _ => ?_
  rw [Bool.and_eq_true, sameEventKey_iff]

/-- Everything a signal can do. -/
inductive Signalled (q : EventQueue) (identifier : UInt32) (filter : EventFilter)
    (data : UInt64) : Outcome ControlError SignalOutcome × EventQueue → Prop
  | unwatched (h : ¬ q.Watched (identifier, filter)) :
      Signalled q identifier filter data (.fail .watchNotFound, q)
  | full {q' : EventQueue} (hwatched : q.Watched (identifier, filter))
      (hfull : q.pending.length = maxReadyEvents)
      (h : Becomes q q' q.pending q.nextSequence) :
      Signalled q identifier filter data (.fail .readyQueueFull, q')
  | queued {q' : EventQueue} (hwatched : q.Watched (identifier, filter))
      (h : Becomes q q'
        (q.pending ++ [{ identifier, filter, data, sequence := q.nextSequence }])
        (saturatingAdd q.nextSequence 1)) :
      Signalled q identifier filter data (.done .queued, q')
  | coalesced {q' : EventQueue} {before after : List ReadyEvent} {event : ReadyEvent}
      (hwatched : q.Watched (identifier, filter))
      (hpending : q.pending = before ++ event :: after)
      (hkey : event.key = (identifier, filter))
      (h : Becomes q q' (before ++ coalesceEvent event filter data :: after) q.nextSequence) :
      Signalled q identifier filter data (.done .coalesced, q')

theorem enqueue_signalled (h : q.Ringed) (hwatched : q.Watched (identifier, filter)) :
    Signalled q identifier filter data (enqueue identifier filter data q) := by
  rw [enqueue]
  split
  · next hfull =>
      refine .full hwatched (h.readyCount_eq.symm.trans hfull) ?_
      exact becomes_of_holds (q := q) h rfl
  rename_i hroom
  have hlt : q.readyCount < maxReadyEvents := lt_of_le_of_ne h.count_le hroom
  exact .queued hwatched (becomes_of_holds (h.push hlt _) rfl)

/-- The event a signal is merged into waits with its key. -/
theorem coalesceOffset_eq_some (h : q.Ringed) {offset : ℕ}
    (hoffset : q.coalesceOffset identifier filter = some offset) :
    ∃ event before after, offset < q.readyCount ∧ q.ready.get (q.place offset) = some event ∧
      event.key = (identifier, filter) ∧ offset = before.length ∧
      q.pending = before ++ event :: after := by
  have hlt : offset < q.readyCount := mem_range.mp (mem_of_find?_eq_some hoffset)
  have hmatch := find?_some hoffset
  obtain ⟨event, hget, hkey⟩ := (Option.any_eq_true _ _).mp hmatch
  have hentry := h.get_eq offset (hlt.trans_le h.count_le)
  change q.ready.get (q.place offset) = q.pending[offset]? at hentry
  rw [hget] at hentry
  obtain ⟨hbound, hevent⟩ := List.getElem?_eq_some_iff.mp hentry.symm
  refine ⟨event, q.pending.take offset, q.pending.drop (offset + 1), hlt, hget, ?_, ?_, ?_⟩
  · rw [Bool.and_eq_true, beq_iff_eq, beq_iff_eq] at hkey
    rw [ReadyEvent.key, hkey.1, hkey.2]
  · rw [length_take]
    omega
  · rw [← hevent, getElem_cons_drop, take_append_drop]

theorem signal_signalled (h : q.Ringed) (coalesce : Bool) :
    Signalled q identifier filter data (signal identifier filter data coalesce q) := by
  rw [signal]
  split
  · next hnone => exact .unwatched fun hwatched => hnone (any_watches_iff.mpr hwatched)
  rename_i hsome
  have hwatched := any_watches_iff.mp (not_not.mp hsome)
  split
  · split
    · exact enqueue_signalled h hwatched
    rename_i offset hoffset
    obtain ⟨event, before, after, hlt, hget, hkey, hbefore, hpending⟩ :=
      coalesceOffset_eq_some h hoffset
    rw [hget]
    refine .coalesced hwatched hpending hkey ?_
    have hset := h.modify hlt (coalesceEvent event filter data)
    have hentries : q.pending.set offset (coalesceEvent event filter data) =
        before ++ coalesceEvent event filter data :: after := by
      rw [hpending, hbefore, set_append_right _ _ le_rfl, Nat.sub_self, set_cons_zero]
    rw [hentries] at hset
    exact becomes_of_holds hset rfl
  · exact enqueue_signalled h hwatched

/-- A signal that finds room in the ring puts its event there. -/
theorem signal_queued (h : q.Ringed) (hwatched : q.Watched (identifier, filter))
    (hroom : q.pending.length < maxReadyEvents) :
    Becomes q (signal identifier filter data false q).2
      (q.pending ++ [{ identifier, filter, data, sequence := q.nextSequence }])
      (saturatingAdd q.nextSequence 1) := by
  have hrun : signal identifier filter data false q = enqueue identifier filter data q := by
    rw [signal, if_neg (not_not.mpr (any_watches_iff.mpr hwatched)), if_neg Bool.false_ne_true]
  have hcount : q.readyCount < maxReadyEvents := by rwa [h.readyCount_eq]
  rw [hrun, enqueue, if_neg hcount.ne]
  exact becomes_of_holds (h.push hcount _) rfl

variable {waiting : List ReadyEvent} {next : UInt64}

theorem Becomes.watched_iff {key : EventKey}
    (h : Becomes q q' waiting next) : q'.Watched key ↔ q.Watched key := by
  rw [Watched, Watched, h.watches_eq]

variable {result : Outcome ControlError SignalOutcome × EventQueue}

theorem Signalled.watches_eq
    (h : Signalled q identifier filter data result) : result.2.watches = q.watches := by
  cases h with
  | unwatched => rfl
  | full _ _ hbecomes => exact hbecomes.watches_eq
  | queued _ hbecomes => exact hbecomes.watches_eq
  | coalesced _ _ _ hbecomes => exact hbecomes.watches_eq

theorem Becomes.length_le (h : Becomes q q' waiting next) : waiting.length ≤ maxReadyEvents := by
  rw [← h.pending_eq, ← h.ringed.readyCount_eq]
  exact h.ringed.count_le

/-- A full ring stays full. -/
theorem Signalled.full_of_full
    (h : Signalled q identifier filter data result) (hfull : q.pending.length = maxReadyEvents) :
    result.2.pending.length = maxReadyEvents := by
  cases h with
  | unwatched => exact hfull
  | full _ _ hbecomes => rwa [hbecomes.pending_eq]
  | queued _ hbecomes =>
    have hle := hbecomes.length_le
    rw [length_append, hfull] at hle
    exact absurd hle (by simp)
  | coalesced _ hpending _ hbecomes =>
    rw [hbecomes.pending_eq]
    simpa [hpending] using hfull

/-! ## Timers -/

/-- Everything that a round of the loop over the timers can do. -/
inductive Advanced (now : UInt64) (q : EventQueue) (index : ℕ) : EventQueue → Prop
  | idle (h : ∀ watch, q.watches.get index = some watch → watch.enabled = true →
        watch.filter = .timer → now < watch.deadline) :
      Advanced now q index q
  | refused {watch : EventWatch} {q' : EventQueue} {e : ControlError}
      (hget : q.watches.get index = some watch) (hfilter : watch.filter = .timer)
      (hsignal : Signalled q watch.identifier .timer (watch.expire now).1 (.fail e, q')) :
      Advanced now q index q'
  | fired {watch : EventWatch} {q' : EventQueue} {outcome : SignalOutcome}
      (hget : q.watches.get index = some watch) (hfilter : watch.filter = .timer)
      (hdue : watch.deadline ≤ now)
      (hsignal : Signalled q watch.identifier .timer (watch.expire now).1 (.done outcome, q')) :
      Advanced now q index
        { q' with watches := q'.watches.put index (some (watch.after now)) }

theorem advanceTimer_advanced (h : q.Ringed) (now : UInt64) (coalesce : Bool) (index : ℕ) :
    Advanced now q index (advanceTimer now coalesce q index) := by
  rw [advanceTimer]
  split
  · next hnone =>
      refine .idle fun watch hget => ?_
      rw [hnone] at hget
      cases hget
  rename_i watch hget
  split
  · next hidle =>
      refine .idle fun found hfound henabled hfilter => ?_
      rw [hget] at hfound
      cases hfound
      exact (hidle.resolve_left (not_not.mpr henabled)).resolve_left (not_not.mpr hfilter)
  rename_i hactive
  rw [not_or, not_or, not_not, not_not, UInt64.not_lt] at hactive
  obtain ⟨-, hfilter, hdue⟩ := hactive
  have hsignal : Signalled q watch.identifier .timer (watch.expire now).1
      (signal watch.identifier .timer (watch.expire now).1 coalesce q) :=
    signal_signalled h coalesce
  dsimp only
  generalize signal watch.identifier .timer (watch.expire now).1 coalesce q = result at *
  obtain ⟨outcome, q'⟩ := result
  cases outcome with
  | done outcome => exact .fired hget hfilter hdue hsignal
  | fail e => exact .refused hget hfilter hsignal
  | halt => cases hsignal

variable {motive : EventQueue → Prop} {now : UInt64}

/-- What every round keeps, the loop keeps. -/
theorem advanceTimers_induction (hringed : ∀ q, motive q → q.Ringed)
    (hstep : ∀ q index q', motive q → Advanced now q index q' → motive q')
    (h : motive q) (coalesce : Bool) : motive (advanceTimers now coalesce q) := by
  rw [advanceTimers]
  generalize range maxWatches = indices
  induction indices generalizing q with
  | nil => exact h
  | cons index indices ih =>
    exact ih (hstep _ _ _ h (advanceTimer_advanced (hringed q h) now coalesce index))

/-- A round that reaches a goal which later rounds keep. -/
theorem advanceTimers_reaches {goal : EventQueue → Prop} {index : ℕ}
    (hringed : ∀ q, motive q → q.Ringed)
    (hstep : ∀ q i q', motive q → Advanced now q i q' → motive q')
    (hkeep : ∀ q i q', motive q → goal q → Advanced now q i q' → goal q')
    (hreach : ∀ q q', motive q → Advanced now q index q' → goal q')
    (h : motive q) (hindex : index < maxWatches) (coalesce : Bool) :
    goal (advanceTimers now coalesce q) := by
  have hreached : ∀ indices : List ℕ, ∀ q, motive q → (goal q ∨ index ∈ indices) →
      goal (indices.foldl (advanceTimer now coalesce) q) := by
    intro indices
    induction indices with
    | nil => exact fun q _ hgoal => hgoal.resolve_right not_mem_nil
    | cons i indices ih =>
      intro q hq hgoal
      have hadvanced := advanceTimer_advanced (hringed q hq) now coalesce i
      apply ih _ (hstep _ _ _ hq hadvanced)
      rcases hgoal with hgoal | hmem
      · exact .inl (hkeep _ _ _ hq hgoal hadvanced)
      · rcases mem_cons.mp hmem with rfl | hlater
        · exact .inl (hreach _ _ hq hadvanced)
        · exact .inr hlater
  exact hreached _ q h (.inr (mem_range.mpr hindex))

/-! ## Removing the events of a watch -/

/-- The events whose watch is not the one removed. -/
def keptEvents (identifier : UInt32) (filter : EventFilter) (events : List ReadyEvent) :
    List ReadyEvent :=
  events.filter fun event => decide (event.key ≠ (identifier, filter))

theorem key_ne_iff {event : ReadyEvent} :
    event.key ≠ (identifier, filter) ↔ event.identifier ≠ identifier ∨ event.filter ≠ filter := by
  rw [ReadyEvent.key, Ne, Prod.mk.injEq, not_and_or]

theorem removeReadyLoop_holds {head first : ℕ} {entries kept : List ReadyEvent}
    {ready retained : SlotTable ReadyEvent maxReadyEvents}
    (hfits : first + entries.length ≤ maxReadyEvents)
    (hready : ∀ i < entries.length,
      ready.get ((head + (first + i)) % maxReadyEvents) = entries[i]?)
    (hkept : kept.length ≤ first) (hretained : Holds retained 0 kept.length kept) :
    let result := removeReadyLoop identifier filter head (List.range' first entries.length)
      ready retained kept.length
    Holds result.1 0 result.2 (kept ++ keptEvents identifier filter entries) := by
  induction entries generalizing first kept ready retained with
  | nil => simpa [removeReadyLoop, keptEvents] using hretained
  | cons event entries ih =>
    rw [length_cons] at hfits
    have hget : ready.get ((head + first) % maxReadyEvents) = some event := by
      simpa using hready 0 (by simp)
    -- taking this event leaves the later cells as they are
    have hlater : ∀ i < entries.length, (ready.put ((head + first) % maxReadyEvents) none).get
          ((head + (first + 1 + i)) % maxReadyEvents) = entries[i]? := by
      intro i hi
      have hplace : (head + (first + 1 + i)) % maxReadyEvents ≠
          (head + first) % maxReadyEvents := by
        intro hsame
        have := Fifo.place_injective (by omega) (by omega) hsame
        omega
      rw [get_put_of_ne hplace]
      have hnext := hready (i + 1) (by simpa using hi)
      rwa [show first + (i + 1) = first + 1 + i by omega] at hnext
    simp only [length_cons, range'_succ, removeReadyLoop, hget]
    split
    · next hother =>
        have hpush := hretained.push (by omega) event
        rw [Nat.mod_eq_of_lt (by omega)] at hpush
        have hnext := @ih (first + 1) (kept ++ [event]) _ _ (by omega) hlater
          (by simpa using hkept) (by simpa using hpush)
        have hkeeps : keptEvents identifier filter (event :: entries) =
            event :: keptEvents identifier filter entries :=
          filter_cons_of_pos (decide_eq_true (key_ne_iff.mpr hother))
        rw [hkeeps]
        simpa using hnext
    rename_i hsame
    have hdrops : keptEvents identifier filter (event :: entries) =
        keptEvents identifier filter entries :=
      filter_cons_of_neg (by simpa using fun hne => hsame (key_ne_iff.mp hne))
    rw [hdrops]
    exact ih (by omega) hlater (by omega) hretained

theorem removeReady_becomes (h : q.Ringed) :
    Becomes q (removeReady identifier filter q) (keptEvents identifier filter q.pending)
      q.nextSequence := by
  have hcount := h.readyCount_eq
  have hle := h.count_le
  have hget : ∀ i < q.pending.length,
      q.ready.get ((q.readyHead + (0 + i)) % maxReadyEvents) = q.pending[i]? := by
    intro i hi
    rw [zero_add]
    exact h.get_eq i (by omega)
  have hloop := @removeReadyLoop_holds identifier filter q.readyHead 0 q.pending [] q.ready
    (empty _ _) (by omega) hget le_rfl (holds_empty (by decide) (by decide))
  rw [← hcount, ← range_eq_range'] at hloop
  exact becomes_of_holds hloop rfl

/-! ## Polls -/

theorem pollLoop_spec {amount : ℕ} (h : q.Ringed) (hamount : amount ≤ q.pending.length) :
    ∃ q', pollLoop amount q = (.done (q.pending.take amount), q') ∧
      Becomes q q' (q.pending.drop amount) q.nextSequence := by
  induction amount generalizing q with
  | zero => exact ⟨q, rfl, h, rfl, rfl, rfl⟩
  | succ amount ih =>
    obtain ⟨event, rest, hpending⟩ := exists_cons_of_length_pos (Nat.zero_lt_of_lt hamount)
    have hholds : Holds q.ready q.readyHead q.readyCount (event :: rest) := by rwa [← hpending]
    obtain ⟨hringed, hrest⟩ := pending_of_holds (q :=
      { q with
        ready := q.ready.put q.readyHead none
        readyHead := (q.readyHead + 1) % maxReadyEvents
        readyCount := q.readyCount - 1 }) hholds.pop
    rw [hpending, length_cons] at hamount
    obtain ⟨q', hrun, hbecomes⟩ := ih hringed (by rw [hrest]; omega)
    refine ⟨q', ?_, ?_⟩
    · rw [pollLoop, hholds.get_head]
      simp only [hrun]
      rw [hrest, hpending, take_succ_cons]
    · rw [hrest] at hbecomes
      rw [hpending]
      exact ⟨hbecomes.ringed, hbecomes.pending_eq, hbecomes.watches_eq, hbecomes.next_eq⟩

/-- A poll returns the first waiting events and never fails its
expectation. -/
theorem poll_spec (h : q.Ringed) (room budget : ℕ) :
    ∃ q', poll room budget q = (.done (q.pending.take (min room budget)), q') ∧
      Becomes q q' (q.pending.drop (min room budget)) q.nextSequence := by
  have hcount := h.readyCount_eq
  have hamount : min (min room budget) q.readyCount ≤ q.pending.length := by
    rw [← hcount]
    exact min_le_right _ _
  obtain ⟨q', hrun, hbecomes⟩ := pollLoop_spec h hamount
  have htake : q.pending.take (min (min room budget) q.readyCount) =
      q.pending.take (min room budget) := by
    rw [hcount, ← take_eq_take_min]
  have hdrop : q.pending.drop (min (min room budget) q.readyCount) =
      q.pending.drop (min room budget) := by
    rw [hcount, ← drop_eq_drop_min]
  rw [htake] at hrun
  rw [hdrop] at hbecomes
  let amount := UInt64.ofNat (min (min room budget) q.readyCount)
  refine ⟨{ q' with delivered := saturatingAdd q'.delivered amount }, ?_, ?_⟩
  · rw [poll]
    simp only [hrun]
    rfl
  · exact ⟨hbecomes.ringed, hbecomes.pending_eq, hbecomes.watches_eq, hbecomes.next_eq⟩

end EventQueue

end ExpOS.Controls
