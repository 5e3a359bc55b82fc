import ExpOS.Controls.Ledger

/-!
# Periodic timers

A periodic timer that is polled late reports all its expirations at once, one
that meets a full ring tries again, and expirations that wait add up.  In
every run the expirations reported so far give the deadline.
-/

namespace ExpOS.Controls

open List SlotTable EventQueue

/-! ## Expirations -/

theorem interval_pos {n : UInt64} (h : n ≠ 0) : 0 < n.toNat :=
  pos_of_ne_zero fun hzero => h (UInt64.toNat_inj.mp hzero)

namespace EventWatch

/-- The first deadline of a periodic timer after the time `now` is beyond the
range of the clock. -/
def TickOverflow (watch : EventWatch) (now : UInt64) : Prop :=
  watch.deadline ≤ now ∧ 2 ^ 64 ≤ watch.deadline.toNat +
    watch.interval.toNat * ((now.toNat - watch.deadline.toNat) / watch.interval.toNat + 1)

theorem expire_spec {watch : EventWatch} {now : UInt64} (hinterval : watch.interval ≠ 0)
    (hdue : watch.deadline ≤ now) (hfits : ¬ watch.TickOverflow now) :
    ∃ expirations deadline, watch.expire now = (expirations, some deadline) ∧
      expirations.toNat =
        (now.toNat - watch.deadline.toNat) / watch.interval.toNat + 1 ∧
      deadline.toNat = watch.deadline.toNat + watch.interval.toNat * expirations.toNat := by
  have hpos := interval_pos hinterval
  have helapsed : (saturatingSub now watch.deadline / watch.interval).toNat =
      (now.toNat - watch.deadline.toNat) / watch.interval.toNat := by
    rw [UInt64.toNat_div, toNat_saturatingSub]
  have hnext : watch.deadline.toNat + watch.interval.toNat *
      ((now.toNat - watch.deadline.toNat) / watch.interval.toNat + 1) < 2 ^ 64 :=
    not_le.mp fun hover => hfits ⟨hdue, hover⟩
  generalize (now.toNat - watch.deadline.toNat) / watch.interval.toNat = passed at *
  have hle : passed + 1 ≤ watch.interval.toNat * (passed + 1) := Nat.le_mul_of_pos_left _ hpos
  obtain ⟨expirations, hexpirations⟩ := @exists_toNat_eq (passed + 1) (by omega)
  obtain ⟨delta, hdelta⟩ := @exists_toNat_eq (watch.interval.toNat * (passed + 1)) (by omega)
  obtain ⟨deadline, hdeadline⟩ := exists_toNat_eq hnext
  refine ⟨expirations, deadline, ?_, hexpirations, by rw [hdeadline, hexpirations]⟩
  have hadd : checkedAdd (saturatingSub now watch.deadline / watch.interval) 1 =
      some expirations := by
    rw [checkedAdd_eq_some, helapsed, UInt64.toNat_one, hexpirations]
  have hmul : checkedMul watch.interval expirations = some delta := by
    rw [checkedMul_eq_some, hexpirations, hdelta]
  have hsum : checkedAdd watch.deadline delta = some deadline := by
    rw [checkedAdd_eq_some, hdelta, hdeadline]
  simp only [expire, checkedDiv, if_neg hinterval, hadd, hmul, Option.bind_some, hsum]

/-- Deadlines that are a multiple of the interval apart overflow together. -/
theorem not_tickOverflow_later {first : EventWatch} {now deadline : UInt64} {total : ℕ}
    (hfits : ¬ first.TickOverflow now) (hinterval : first.interval ≠ 0)
    (hdeadline : deadline.toNat = first.deadline.toNat + first.interval.toNat * total) :
    ¬ TickOverflow { first with deadline } now := by
  have hpos := interval_pos hinterval
  rintro ⟨hdue, hover⟩
  rw [UInt64.le_iff_toNat_le] at hdue
  dsimp only at hdue hover
  have hsplit : now.toNat - first.deadline.toNat =
      now.toNat - deadline.toNat + first.interval.toNat * total := by omega
  refine hfits ⟨UInt64.le_iff_toNat_le.mpr (by omega), ?_⟩
  rw [hsplit, Nat.add_mul_div_left _ _ hpos]
  rw [hdeadline] at hover ⊢
  calc 2 ^ 64 ≤ _ := hover
    _ = _ := by ring

end EventWatch

namespace EventQueue

variable {q q' : EventQueue} {identifier : UInt32} {filter : EventFilter} {data : UInt64}
variable {delivered : List ReadyEvent} {key : EventKey}

/-! ## Reported expirations -/

/-- The sum of the data of the events with a key. -/
def reported (key : EventKey) (events : List ReadyEvent) : ℕ :=
  ((events.filter fun event => event.key = key).map fun event => event.data.toNat).sum

theorem reported_append (key : EventKey) (events more : List ReadyEvent) :
    reported key (events ++ more) = reported key events + reported key more := by
  simp [reported]

theorem reported_cons (key : EventKey) (event : ReadyEvent) (events : List ReadyEvent) :
    reported key (event :: events) =
      (if event.key = key then event.data.toNat else 0) + reported key events := by
  rw [reported, filter_cons]
  split
  · next hkey =>
      rw [if_pos (of_decide_eq_true hkey)]
      rfl
  rename_i hkey
  rw [if_neg (of_decide_eq_false (Bool.not_eq_true _ ▸ hkey)), zero_add]
  rfl

theorem reported_eq_zero {events : List ReadyEvent} (h : ∀ event ∈ events, event.key ≠ key) :
    reported key events = 0 := by
  have hnone : events.filter (fun event => decide (event.key = key)) = [] :=
    filter_eq_nil_iff.mpr fun event hevent => by simpa using h event hevent
  rw [reported, hnone]
  rfl

theorem reported_keptEvents (hkey : (identifier, filter) ≠ key) (events : List ReadyEvent) :
    reported key (keptEvents identifier filter events) = reported key events := by
  have hsame : ∀ event : ReadyEvent,
      (decide (event.key = key) && decide (event.key ≠ (identifier, filter))) =
        decide (event.key = key) := by
    intro event
    by_cases heq : event.key = key
    · simp [heq, Ne.symm hkey]
    · simp [heq]
  rw [reported, keptEvents, filter_filter]
  simp only [hsame]
  rfl

/-- A signal for another key reports nothing for this one. -/
theorem Signalled.reported_of_ne {result : Outcome ControlError SignalOutcome × EventQueue}
    (h : Signalled q identifier filter data result) (hkey : (identifier, filter) ≠ key) :
    reported key result.2.pending = reported key q.pending := by
  cases h with
  | unwatched => rfl
  | full _ _ hbecomes => rw [hbecomes.pending_eq]
  | queued _ hbecomes =>
    have hevent : ∀ event ∈ [(⟨identifier, filter, data, q.nextSequence⟩ : ReadyEvent)],
        event.key ≠ key := by simpa [ReadyEvent.key] using hkey
    rw [hbecomes.pending_eq, reported_append, reported_eq_zero hevent, add_zero]
  | @coalesced q' before after event _ hpending hevent hbecomes =>
    have hmerged : (coalesceEvent event filter data).key ≠ key := by
      have hsame : (coalesceEvent event filter data).key = event.key := rfl
      rwa [hsame, hevent]
    rw [hbecomes.pending_eq, hpending, reported_append, reported_append, reported_cons,
      reported_cons, if_neg hmerged, if_neg (by rwa [hevent])]

/-- A signal of a timer that is taken adds its expirations. -/
theorem Signalled.reported_timer {outcome : SignalOutcome}
    (h : Signalled q identifier .timer data (.done outcome, q'))
    (hfits : reported (identifier, .timer) q.pending + data.toNat < 2 ^ 64) :
    reported (identifier, .timer) q'.pending =
      reported (identifier, .timer) q.pending + data.toNat := by
  cases h with
  | queued _ hbecomes =>
    rw [hbecomes.pending_eq]
    simp [reported, ReadyEvent.key]
  | @coalesced _ before after event _ hpending hevent hbecomes =>
    rw [hpending, reported_append, reported_cons, if_pos hevent] at hfits
    have hmerged : (coalesceEvent event .timer data).key = (identifier, .timer) := hevent
    have hdata : (coalesceEvent event .timer data).data.toNat = event.data.toNat + data.toNat := by
      exact toNat_saturatingAdd_of_lt (by omega)
    rw [hbecomes.pending_eq, hpending, reported_append, reported_append, reported_cons,
      reported_cons, if_pos hmerged, if_pos hevent]
    omega

/-! ## The account of one timer -/

/-- The timer registered as `first` is in the cell `index`, all the
expirations reported for it are those up to its deadline, and each was due at
one of the polls. -/
structure Timed (first : EventWatch) (index : ℕ) (clocks : List UInt64)
    (delivered : List ReadyEvent) (q : EventQueue) : Prop where
  watch : ∃ deadline, q.watches.get index = some { first with deadline } ∧
    deadline.toNat = first.deadline.toNat +
      first.interval.toNat * reported first.key (delivered ++ q.pending)
  passed : ∀ n < reported first.key (delivered ++ q.pending), ∃ now ∈ clocks,
    first.deadline.toNat + first.interval.toNat * n ≤ now.toNat

variable {first : EventWatch} {index : ℕ} {clocks : List UInt64} {now : UInt64}

namespace Timed

/-- A step that leaves the watch and its reports as they are. -/
theorem same {delivered' : List ReadyEvent} {clocks' : List UInt64}
    (h : Timed first index clocks delivered q)
    (hget : q'.watches.get index = q.watches.get index)
    (hreported : reported first.key (delivered' ++ q'.pending) =
      reported first.key (delivered ++ q.pending))
    (hclocks : clocks ⊆ clocks') : Timed first index clocks' delivered' q' := by
  obtain ⟨⟨deadline, hwatch, hdeadline⟩, hpassed⟩ := h
  refine ⟨⟨deadline, hget.trans hwatch, by rwa [hreported]⟩, ?_⟩
  intro n hn
  rw [hreported] at hn
  obtain ⟨now, hmem, hle⟩ := hpassed n hn
  exact ⟨now, hclocks hmem, hle⟩

theorem signalled {result : Outcome ControlError SignalOutcome × EventQueue}
    (h : Timed first index clocks delivered q)
    (hsignal : Signalled q identifier filter data result)
    (hkey : (identifier, filter) ≠ first.key) :
    Timed first index clocks delivered result.2 := by
  refine h.same (by rw [hsignal.watches_eq]) ?_ (.refl _)
  rw [reported_append, reported_append, hsignal.reported_of_ne hkey]

/-- A signal that is refused changes no report. -/
theorem refused {e : ControlError} (h : Timed first index clocks delivered q)
    (hsignal : Signalled q identifier filter data (.fail e, q')) :
    Timed first index clocks delivered q' := by
  cases hsignal with
  | unwatched => exact h
  | full _ _ hbecomes =>
    exact h.same (by rw [hbecomes.watches_eq]) (by rw [hbecomes.pending_eq]) (.refl _)

/-- The timer itself: what it reports is what its deadline moves by. -/
theorem expired {outcome : SignalOutcome} (h : Timed first index clocks delivered q)
    (hfilter : first.filter = .timer) (hinterval : first.interval ≠ 0)
    {deadline deadline' expirations : UInt64}
    (hget : q.watches.get index = some { first with deadline })
    (hexpirations : expirations.toNat =
      (now.toNat - deadline.toNat) / first.interval.toNat + 1)
    (hdue : deadline ≤ now) (hnow : now ∈ clocks)
    (hnext : deadline'.toNat = deadline.toNat + first.interval.toNat * expirations.toNat)
    (hsignal : Signalled q first.identifier .timer expirations (.done outcome, q')) :
    Timed first index clocks delivered
      { q' with watches := q'.watches.put index (some { first with deadline := deadline' }) } := by
  obtain ⟨⟨known, hwatch, hdeadline⟩, hpassed⟩ := h
  have hknown : known = deadline := by
    rw [hget] at hwatch
    cases hwatch
    rfl
  subst hknown
  have hkey : first.key = (first.identifier, .timer) := by rw [EventWatch.key, hfilter]
  rw [hkey] at hdeadline hpassed
  have hpos := interval_pos hinterval
  have hlt := deadline'.toNat_lt
  rw [reported_append] at hdeadline hpassed
  have hscale : ∀ n, n ≤ first.interval.toNat * n := fun n => Nat.le_mul_of_pos_left n hpos
  -- an expiration is at least one tick, so that the reports fit in a word
  have hfits : reported (first.identifier, .timer) q.pending + expirations.toNat < 2 ^ 64 := by
    have hsum := hscale (reported (first.identifier, .timer) delivered +
      reported (first.identifier, .timer) q.pending + expirations.toNat)
    rw [mul_add] at hsum
    omega
  have hreported := hsignal.reported_timer hfits
  have hslot : index < maxWatches := lt_of_get hget
  have htotal : reported first.key (delivered ++ q'.pending) =
      reported (first.identifier, .timer) delivered +
        reported (first.identifier, .timer) q.pending + expirations.toNat := by
    rw [hkey, reported_append]
    omega
  constructor
  · refine ⟨deadline', ?_, ?_⟩
    · exact get_put_self hslot _
    rw [hnext, hdeadline]
    change _ = _ + _ * reported first.key (delivered ++ q'.pending)
    rw [htotal]
    ring
  · intro n hn
    change n < reported first.key (delivered ++ q'.pending) at hn
    rcases lt_or_ge n (reported (first.identifier, .timer) delivered +
      reported (first.identifier, .timer) q.pending) with hold | hnew
    · obtain ⟨time, hmem, hle⟩ := hpassed n hold
      exact ⟨time, hmem, hle⟩
    obtain ⟨extra, rfl⟩ := Nat.exists_eq_add_of_le hnew
    refine ⟨now, hnow, ?_⟩
    have hextra : extra ≤ (now.toNat - known.toNat) / first.interval.toNat := by omega
    have hmul : first.interval.toNat * extra ≤ now.toNat - known.toNat :=
      (Nat.mul_le_mul_left _ hextra).trans (Nat.mul_div_le _ _)
    rw [UInt64.le_iff_toNat_le] at hdue
    rw [mul_add]
    omega

variable {past : List ReadyEvent}

section

variable (h : Timed first index clocks delivered q)
include h

/-- One round of the loop over the timers. -/
theorem advanced
    (hsound : Sound past q) (hfilter : first.filter = .timer) (hinterval : first.interval ≠ 0)
    (hfits : ¬ first.TickOverflow now) (hnow : now ∈ clocks) {i : ℕ}
    (hadvanced : Advanced now q i q') : Timed first index clocks delivered q' := by
  obtain ⟨deadline, hwatch, hdeadline⟩ := h.watch
  cases hadvanced with
  | idle => exact h
  | refused hget htimer hsignal => exact h.refused hsignal
  | @fired watch q' outcome hget htimer hdue hsignal =>
    by_cases hindex : i = index
    · subst hindex
      have hthis : watch = { first with deadline } := by
        rw [hget] at hwatch
        exact Option.some.inj hwatch
      subst hthis
      have hlater := EventWatch.not_tickOverflow_later hfits hinterval hdeadline
      obtain ⟨expirations, deadline', hexpire, hcount, hnext⟩ :=
        @EventWatch.expire_spec { first with deadline } now hinterval hdue hlater
      rw [hexpire] at hsignal
      have hafter : EventWatch.after { first with deadline } now =
          { first with deadline := deadline' } := by
        rw [EventWatch.after, hexpire]
      rw [hafter]
      exact h.expired hfilter hinterval hget hcount hdue hnow hnext hsignal
    · -- no other watch has the key of the timer
      have hkey : (watch.identifier, EventFilter.timer) ≠ first.key := by
        intro hsame
        refine hindex (hsound.distinct _ _ _ _ hget hwatch ?_)
        rw [EventWatch.key, htimer]
        exact hsame
      refine (h.signalled hsignal hkey).same ?_ rfl (.refl _)
      exact get_put_of_ne (Ne.symm hindex) _

/-- Times that are polled later. -/
theorem advanceTimers
    (hsound : Sound past q) (hfilter : first.filter = .timer) (hinterval : first.interval ≠ 0)
    (hfits : ¬ first.TickOverflow now) (hnow : now ∈ clocks) (coalesce : Bool) :
    Timed first index clocks delivered (EventQueue.advanceTimers now coalesce q) := by
  have hkept : Sound past (EventQueue.advanceTimers now coalesce q) ∧
      Timed first index clocks delivered (EventQueue.advanceTimers now coalesce q) := by
    apply advanceTimers_induction (motive := fun q' => Sound past q' ∧
      Timed first index clocks delivered q')
    · exact fun _ hq => hq.1.ringed
    · exact fun _ _ _ hq hadvanced => ⟨hq.1.advanced hadvanced,
        hq.2.advanced hq.1 hfilter hinterval hfits hnow hadvanced⟩
    · exact ⟨hsound, h⟩
  exact hkept.2

theorem poll (hringed : q.Ringed)
    {room budget : ℕ} {events : List ReadyEvent}
    (hrun : EventQueue.poll room budget q = (.done events, q')) :
    Timed first index clocks (delivered ++ events) q' := by
  obtain ⟨q'', hspec, hbecomes⟩ := poll_spec hringed room budget
  rw [hrun, Prod.mk.injEq, Outcome.done.injEq] at hspec
  obtain ⟨rfl, rfl⟩ := hspec
  refine h.same (by rw [hbecomes.watches_eq]) ?_ (.refl _)
  rw [hbecomes.pending_eq, append_assoc, take_append_drop]

theorem register (watch : EventWatch) :
    Timed first index clocks delivered (EventQueue.register watch q).2 := by
  obtain ⟨deadline, hwatch, -⟩ := h.watch
  rw [EventQueue.register]
  split
  · exact h
  split
  · exact h
  rename_i slot hslot
  have hne : index ≠ slot := by
    rintro rfl
    rw [get_of_freeIndex hslot] at hwatch
    cases hwatch
  exact h.same (get_put_of_ne hne _) rfl (.refl _)

theorem unregister (hringed : q.Ringed)
    (hkey : (identifier, filter) ≠ first.key) :
    Timed first index clocks delivered (EventQueue.unregister identifier filter q).2 := by
  obtain ⟨deadline, hwatch, -⟩ := h.watch
  rw [EventQueue.unregister]
  split
  · exact h
  rename_i slot hslot
  obtain ⟨⟨watch, hget, hmatch⟩, -⟩ := findIndex_spec hslot
  have hne : index ≠ slot := by
    rintro rfl
    rw [hget] at hwatch
    cases hwatch
    exact hkey (sameEventKey_iff.mp hmatch).symm
  let freed : EventQueue := { q with watches := q.watches.put slot none }
  have hbecomes : Becomes freed (removeReady identifier filter freed) _ _ :=
    removeReady_becomes (q := freed) hringed
  refine h.same ?_ ?_ (.refl _)
  · change (removeReady identifier filter freed).watches.get index = _
    exact get_put_of_ne hne _
  · change reported _ (_ ++ (removeReady identifier filter freed).pending) = _
    rw [hbecomes.pending_eq, reported_append, reported_append, reported_keptEvents hkey]
    rfl

end

/-- The timer has reported all that was due at `now`, or the ring is full. -/
def CaughtUp (first : EventWatch) (index : ℕ) (now : UInt64) (q : EventQueue) : Prop :=
  (∃ deadline, q.watches.get index = some { first with deadline } ∧ now < deadline) ∨
    q.pending.length = maxReadyEvents

theorem caughtUp_advanced (hcaught : CaughtUp first index now q) {i : ℕ}
    (hadvanced : Advanced now q i q') : CaughtUp first index now q' := by
  cases hadvanced with
  | idle => exact hcaught
  | refused _ _ hsignal =>
    rcases hcaught with ⟨deadline, hwatch, hlt⟩ | hfull
    · have hwatches := hsignal.watches_eq
      exact .inl ⟨deadline, by rwa [hwatches], hlt⟩
    · exact .inr (hsignal.full_of_full hfull)
  | @fired watch q' outcome hget _ hdue hsignal =>
    rcases hcaught with ⟨deadline, hwatch, hlt⟩ | hfull
    · have hwatches := hsignal.watches_eq
      have hne : index ≠ i := by
        rintro rfl
        rw [hwatch] at hget
        cases hget
        exact absurd hlt (UInt64.not_lt.mpr hdue)
      refine .inl ⟨deadline, ?_, hlt⟩
      rw [get_put_of_ne hne, hwatches]
      exact hwatch
    · exact .inr (hsignal.full_of_full hfull)

/-- The round of the timer itself. -/
theorem caughtUp_own (h : Timed first index clocks delivered q) (hfilter : first.filter = .timer)
    (henabled : first.enabled = true) (hinterval : first.interval ≠ 0)
    (hfits : ¬ first.TickOverflow now) (hadvanced : Advanced now q index q') :
    CaughtUp first index now q' := by
  obtain ⟨deadline, hwatch, hdeadline⟩ := h.watch
  cases hadvanced with
  | idle hidle => exact .inl ⟨deadline, hwatch, hidle _ hwatch henabled hfilter⟩
  | @refused watch q' e hget _ hsignal =>
    rw [hget] at hwatch
    cases hwatch
    cases hsignal with
    | unwatched hunwatched =>
      refine absurd ⟨_, mem_occupants_of_get hget, henabled, ?_⟩ hunwatched
      rw [EventWatch.key, hfilter]
    | full _ hfull hbecomes => exact .inr (by rwa [hbecomes.pending_eq])
  | @fired watch q' outcome hget _ hdue hsignal =>
    rw [hget] at hwatch
    cases hwatch
    have hlater := EventWatch.not_tickOverflow_later hfits hinterval hdeadline
    obtain ⟨expirations, deadline', hexpire, hcount, hnext⟩ :=
      @EventWatch.expire_spec { first with deadline } now hinterval hdue hlater
    refine .inl ⟨deadline', ?_, ?_⟩
    · have hafter : EventWatch.after { first with deadline } now =
          { first with deadline := deadline' } := by
        rw [EventWatch.after, hexpire]
      rw [hafter]
      exact get_put_self (lt_of_get hget) _
    · have hpos := interval_pos hinterval
      have hover := Nat.lt_mul_div_succ (now.toNat - deadline.toNat) hpos
      rw [hcount] at hnext
      rw [UInt64.lt_iff_toNat_lt, hnext]
      dsimp only at hdue hover ⊢
      omega

theorem caughtUp_advanceTimers (h : Timed first index clocks delivered q) (hsound : Sound past q)
    (hfilter : first.filter = .timer)
    (henabled : first.enabled = true) (hinterval : first.interval ≠ 0)
    (hfits : ¬ first.TickOverflow now) (coalesce : Bool) :
    CaughtUp first index now (EventQueue.advanceTimers now coalesce q) := by
  obtain ⟨deadline, hwatch, -⟩ := h.watch
  apply @advanceTimers_reaches q (fun q' => Sound past q' ∧
    Timed first index (now :: clocks) delivered q') now (CaughtUp first index now) index
  · exact fun _ hq => hq.1.ringed
  · exact fun _ _ _ hq hadvanced => ⟨hq.1.advanced hadvanced,
      hq.2.advanced hq.1 hfilter hinterval hfits mem_cons_self hadvanced⟩
  · exact fun _ _ _ _ hcaught => caughtUp_advanced hcaught
  · exact fun _ _ hq => hq.2.caughtUp_own hfilter henabled hinterval hfits
  · exact ⟨hsound, h.same rfl rfl (subset_cons_self _ _)⟩
  · exact lt_of_get hwatch

/-- A timer that has just been registered has reported nothing. -/
theorem registered (hsound : Sound past q)
    (hdone : (EventQueue.register first q).1 = .done ()) (clocks : List UInt64) :
    ∃ index, Timed first index clocks [] (EventQueue.register first q).2 := by
  rw [EventQueue.register] at hdone ⊢
  split at hdone
  · cases hdone
  rename_i hfresh
  rw [if_neg hfresh]
  split at hdone
  · cases hdone
  rename_i slot hslot
  have hnone : reported first.key ([] ++ q.pending) = 0 := by
    refine reported_eq_zero fun event hevent hkey => hfresh ?_
    obtain ⟨index, watch, hget, hwatch⟩ := hsound.registered event hevent
    exact any_eq_true.mpr ⟨watch, mem_occupants_of_get hget,
      sameEventKey_iff.mpr (hwatch.trans hkey)⟩
  refine ⟨slot, ⟨first.deadline, ?_, ?_⟩, ?_⟩
  · exact get_put_self (slots_of_freeIndex hslot).1 _
  · change _ = _ + _ * reported first.key ([] ++ q.pending)
    rw [hnone]
    rfl
  · intro n hn
    change n < reported first.key ([] ++ q.pending) at hn
    rw [hnone] at hn
    cases hn

end Timed

end EventQueue

/-! ## Runs -/

namespace KernelControls

variable {c : KernelControls} {past delivered : List ReadyEvent} {clocks : List UInt64}
variable {first : EventWatch} {index : ℕ}

/-- What a call can do to the queue. Only a poll reports timers. -/
inductive Driven (q : EventQueue) : Call → List ReadyEvent → EventQueue → Prop
  | same {call : Call} : Driven q call [] q
  | signalled {call : Call} {identifier : UInt32} {filter : EventFilter} {data : UInt64}
      {result : Outcome ControlError SignalOutcome × EventQueue} (hfilter : filter ≠ .timer)
      (h : Signalled q identifier filter data result) : Driven q call [] result.2
  | registered (watch : EventWatch) :
      Driven q (.registerWatch watch) [] (EventQueue.register watch q).2
  | unregistered (identifier : UInt32) (filter : EventFilter) :
      Driven q (.unregisterWatch identifier filter) []
        (EventQueue.unregister identifier filter q).2
  | polled {now : UInt64} {room budget : ℕ} {coalesce : Bool} {events : List ReadyEvent}
      {q' : EventQueue}
      (h : EventQueue.poll room budget (q.advanceTimers now coalesce) = (.done events, q')) :
      Driven q (.poll now room) events q'

/-- A charge signals the watch of its resource when it is refused. -/
theorem driven_chargeInternal (h : Sound past c.events) (call : Call) (resource : Resource)
    (amount : UInt64) :
    Driven c.events call [] (KernelControls.chargeInternal resource amount c).2.events := by
  rcases chargeInternal_cases resource amount c with
    ⟨next, hrun, -⟩ | ⟨c', hrun, -, hevents, -⟩
  · rw [hrun]
    exact .same
  · rw [hrun, hevents]
    exact .signalled (by decide) (signal_signalled h.ringed _)

theorem events_registerWatch_cases (watch : EventWatch) (c : KernelControls) :
    ((registerWatch watch c).2.events = (EventQueue.register watch c.events).2 ∧
      (registerWatch watch c).1 = (EventQueue.register watch c.events).1) ∨
    ((∃ e, (registerWatch watch c).1 = .fail e) ∧ (registerWatch watch c).2 =
      (KernelControls.chargeInternal .eventWatches 1 c).2) := by
  rw [registerWatch]
  rcases chargeInternal_cases .eventWatches 1 c with
    ⟨next, hrun, -⟩ | ⟨c', hrun, -⟩
  · left
    rw [hrun]
    dsimp only [events_withUsed]
    rcases register_cases watch c.events with hdup | ⟨hfull, -⟩ | ⟨hdone, -⟩
    · rw [hdup]
      exact ⟨rfl, rfl⟩
    · rw [hfull]
      exact ⟨rfl, rfl⟩
    · generalize EventQueue.register watch c.events = result at *
      obtain ⟨outcome, events⟩ := result
      subst hdone
      exact ⟨rfl, rfl⟩
  · rw [hrun]
    exact .inr ⟨⟨_, rfl⟩, rfl⟩

theorem driven_perform (h : Sound past c.events) (call : Call) :
    Driven c.events call ((c.perform call).1.toOption.getD []) (c.perform call).2.events := by
  cases call with
  | poll now room =>
    obtain ⟨events, hdone, -⟩ :=
      (h.advanceTimers now (c.tunables.boolean nodeEventCoalesce)).poll room
        (c.tunables.unsigned nodeEventBatch).toNat
    simp only [perform, poll, hdone]
    exact .polled (Prod.ext hdone rfl)
  | setTunable name value =>
    rw [perform, bind_nil_getD]
    exact .same
  | registerWatch watch =>
    rw [perform, bind_nil_getD]
    rcases events_registerWatch_cases watch c with ⟨hevents, -⟩ | ⟨-, hrun⟩
    · dsimp only
      rw [hevents]
      exact .registered watch
    · dsimp only
      rw [hrun]
      exact driven_chargeInternal h _ _ _
  | unregisterWatch identifier filter =>
    rw [perform, bind_nil_getD]
    have hevents : (unregisterWatch identifier filter c).2.events =
        (EventQueue.unregister identifier filter c.events).2 := by
      rw [unregisterWatch]
      split
      · next heq =>
          rw [heq]
          rcases releaseInternal_cases .eventWatches 1 { c with events := _ } with
            ⟨next, hrun, -⟩ | ⟨hrun, -⟩
          · rw [hrun]
            rfl
          · rw [hrun]
      · next heq => rw [heq]
    rw [hevents]
    exact .unregistered identifier filter
  | signal identifier data =>
    rw [perform, bind_nil_getD]
    exact .signalled (by decide) (signal_signalled h.ringed _)
  | setLimit resource soft hard =>
    rw [perform, bind_nil_getD]
    exact .same
  | charge resource amount =>
    rw [perform, bind_nil_getD, charge]
    split
    · exact .same
    · exact driven_chargeInternal h _ _ _
  | release resource amount =>
    rw [perform, bind_nil_getD, release]
    split
    · exact .same
    · exact .same
  | chargeFormOperation =>
    rw [perform, bind_nil_getD]
    exact driven_chargeInternal h _ _ _
  | resizeFormContent old new =>
    rw [perform, bind_nil_getD, resizeFormContent]
    split
    · exact driven_chargeInternal h _ _ _
    · exact .same

/-- One call that does not unregister the timer. -/
theorem timed_perform (h : Timed first index clocks delivered c.events)
    (hsound : Sound past c.events) (hfilter : first.filter = .timer)
    (hinterval : first.interval ≠ 0) {call : Call}
    (hcall : call ≠ .unregisterWatch first.identifier .timer)
    (hpoll : ∀ now room, call = .poll now room → now ∈ clocks ∧ ¬ first.TickOverflow now) :
    Timed first index clocks (delivered ++ (c.perform call).1.toOption.getD [])
      (c.perform call).2.events := by
  have hkey : first.key = (first.identifier, .timer) := by rw [EventWatch.key, hfilter]
  have hdriven := driven_perform hsound call
  generalize (c.perform call).1.toOption.getD [] = events at *
  generalize (c.perform call).2.events = q' at *
  cases hdriven with
  | same => rwa [append_nil]
  | signalled hother hsignal =>
    rw [append_nil]
    refine h.signalled hsignal ?_
    rw [hkey]
    exact fun hsame => hother (Prod.ext_iff.mp hsame).2
  | registered watch =>
    rw [append_nil]
    exact h.register watch
  | unregistered identifier filter =>
    rw [append_nil]
    refine h.unregister hsound.ringed ?_
    rw [hkey]
    rintro hsame
    cases hsame
    exact hcall rfl
  | @polled now room budget coalesce events q' hrun =>
    obtain ⟨hnow, hfits⟩ := hpoll now room rfl
    exact (h.advanceTimers hsound hfilter hinterval hfits hnow coalesce).poll
      (hsound.advanceTimers now coalesce).ringed hrun

variable {calls : List Call}

theorem timed_run (h : Timed first index clocks delivered c.events)
    (hledger : Ledgered past c) (hfilter : first.filter = .timer)
    (hinterval : first.interval ≠ 0)
    (hcalls : ∀ call ∈ calls, call ≠ .unregisterWatch first.identifier .timer)
    (hpolls : ∀ now room, .poll now room ∈ calls → now ∈ clocks ∧ ¬ first.TickOverflow now) :
    Timed first index clocks (delivered ++ (c.run calls).1) (c.run calls).2.events := by
  induction calls generalizing c past delivered with
  | nil => rwa [run, append_nil]
  | cons call calls ih =>
    have hnext := timed_perform h hledger.sound hfilter hinterval (hcalls call mem_cons_self)
      fun now room heq => hpolls now room (heq ▸ mem_cons_self)
    rw [run, ← append_assoc]
    exact ih hnext (hledger.perform call).ledgered
      (fun call hmem => hcalls call (mem_cons_of_mem _ hmem))
      fun now room hmem => hpolls now room (mem_cons_of_mem _ hmem)

/-- A poll reports all expirations that are due, unless they meet a full
ring. -/
theorem poll_caughtUp (h : Timed first index clocks delivered c.events)
    (hsound : Sound past c.events) (hfilter : first.filter = .timer)
    (henabled : first.enabled = true) (hinterval : first.interval ≠ 0) {now : UInt64}
    (hfits : ¬ first.TickOverflow now) (room : ℕ) :
    let q := c.events.advanceTimers now (c.tunables.boolean nodeEventCoalesce)
    (∃ deadline, (c.perform (.poll now room)).2.events.watches.get index =
      some { first with deadline } ∧ now < deadline) ∨ q.pending.length = maxReadyEvents := by
  intro q
  obtain ⟨q', hspec, hbecomes⟩ := poll_spec (hsound.advanceTimers now
    (c.tunables.boolean nodeEventCoalesce)).ringed room (c.tunables.unsigned nodeEventBatch).toNat
  have hpoll : (c.perform (.poll now room)).2.events = q' := congrArg Prod.snd hspec
  rw [hpoll, hbecomes.watches_eq]
  exact h.caughtUp_advanceTimers hsound hfilter henabled hinterval hfits _

theorem run_concat (c : KernelControls) (call : Call) :
    (c.run (calls ++ [call])).2 = ((c.run calls).2.perform call).2 := by
  induction calls generalizing c with
  | nil => rfl
  | cons first calls ih => exact ih _

/-- The times at which a sequence of calls polls. -/
def clocksOf (calls : List Call) : List UInt64 :=
  calls.filterMap fun
    | .poll now _ => some now
    | _ => none

theorem mem_clocksOf {now : UInt64} :
    now ∈ clocksOf calls ↔ ∃ room, Call.poll now room ∈ calls := by
  rw [clocksOf, mem_filterMap]
  constructor
  · rintro ⟨call, hmem, hclock⟩
    cases call with
    | poll time room =>
      cases hclock
      exact ⟨room, hmem⟩
    | _ => cases hclock
  · rintro ⟨room, hmem⟩
    exact ⟨_, hmem, rfl⟩

/-- A registration that succeeds starts the account of a timer. -/
theorem timed_registerWatch (hledger : Ledgered past c)
    (hdone : (registerWatch first c).1 = .done ()) (clocks : List UInt64) :
    ∃ index, Timed first index clocks [] (registerWatch first c).2.events := by
  rcases events_registerWatch_cases first c with ⟨hevents, hresult⟩ | ⟨⟨e, hfail⟩, -⟩
  · rw [hevents]
    exact Timed.registered hledger.sound (hresult.symm.trans hdone) clocks
  · rw [hfail] at hdone
    cases hdone

end KernelControls

open KernelControls in
/-- A periodic timer is registered and then any calls follow that neither
unregister it nor overflow its deadline.  Its deadline is the first one and
an interval for each expiration that was returned or still waits, each of
these expirations was due at a poll, and after a poll none that is due is
unreported, unless the ring was full. -/
theorem periodic_timer_conservation (before calls : List KernelControls.Call)
    (watch : EventWatch)
    (hfilter : watch.filter = .timer) (hinterval : watch.interval ≠ 0)
    (hdone : (registerWatch watch (KernelControls.new.run before).2).1 = .done ())
    (hcalls : ∀ call ∈ calls, call ≠ .unregisterWatch watch.identifier .timer)
    (hticks : ∀ now room, .poll now room ∈ calls → ¬ watch.TickOverflow now) :
    let start := (registerWatch watch (KernelControls.new.run before).2).2
    let result := start.run calls
    let total := reported watch.key (result.1 ++ result.2.events.pending)
    ∃ index deadline, result.2.events.watches.get index = some { watch with deadline } ∧
      deadline.toNat = watch.deadline.toNat + watch.interval.toNat * total ∧
      (∀ n < total, ∃ now room, KernelControls.Call.poll now room ∈ calls ∧
        watch.deadline.toNat + watch.interval.toNat * n ≤ now.toNat) ∧
      ∀ earlier now room, calls = earlier ++ [.poll now room] → watch.enabled = true →
        let c := (start.run earlier).2
        now < deadline ∨ (c.events.advanceTimers now
          (c.tunables.boolean nodeEventCoalesce)).pending.length = maxReadyEvents := by
  intro start result total
  have hledger := (ledgered_new.run before).registerWatch watch
  obtain ⟨index, hstart⟩ := timed_registerWatch (ledgered_new.run before) hdone (clocksOf calls)
  have htimed : ∀ earlier ⊆ calls,
      Timed watch index (clocksOf calls) (start.run earlier).1 (start.run earlier).2.events :=
    fun earlier hsub => timed_run hstart hledger.1.ledgered hfilter hinterval
      (fun call hmem => hcalls call (hsub hmem))
      fun now room hmem => ⟨mem_clocksOf.mpr ⟨room, hsub hmem⟩, hticks now room (hsub hmem)⟩
  obtain ⟨⟨deadline, hwatch, hdeadline⟩, hpassed⟩ := htimed calls (.refl _)
  refine ⟨index, deadline, hwatch, hdeadline, ?_, ?_⟩
  · intro n hn
    obtain ⟨now, hmem, hle⟩ := hpassed n hn
    obtain ⟨room, hpoll⟩ := mem_clocksOf.mp hmem
    exact ⟨now, room, hpoll, hle⟩
  · intro earlier now room heq henabled
    rcases poll_caughtUp (htimed earlier (heq ▸ subset_append_left _ _))
        (hledger.1.ledgered.run earlier).sound hfilter henabled hinterval
        (hticks now room (heq ▸ mem_append_right _ mem_cons_self)) room with
      ⟨later, hlater, hlt⟩ | hfull
    · rw [← run_concat, ← heq, hwatch] at hlater
      cases hlater
      exact .inl hlt
    · exact .inr hfull

/-- A timer due at 10 and every 5 ticks, polled at 22: three expirations. -/
theorem periodic_timer_conservation_late_poll :
    let result := (KernelControls.registerWatch (.timer 7 10 5) KernelControls.new).2.run
      [.poll 22 8]
    ∃ index deadline, result.2.events.watches.get index =
        some { EventWatch.timer 7 10 5 with deadline } ∧
      deadline.toNat = 10 + 5 * reported (7, .timer) (result.1 ++ result.2.events.pending) ∧
      reported (7, .timer) (result.1 ++ result.2.events.pending) = 3 ∧ 22 < deadline := by
  obtain ⟨index, deadline, hwatch, hdeadline, -, hpolled⟩ :=
    periodic_timer_conservation [] [.poll 22 8] (.timer 7 10 5) rfl (by decide) (by decide)
      (by decide) (by
        intro now room hmem
        obtain ⟨rfl, rfl⟩ := KernelControls.Call.poll.inj (mem_singleton.mp hmem)
        rintro ⟨-, hover⟩
        exact absurd hover (by decide))
  refine ⟨index, deadline, hwatch, hdeadline, by decide +kernel, ?_⟩
  exact (hpolled [] 22 8 rfl rfl).resolve_right (by decide +kernel)

end ExpOS.Controls
