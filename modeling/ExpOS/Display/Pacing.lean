import ExpOS.Display.Timing
import Mathlib.Data.List.Induction

/-!
# Frame pacing

The pacer hands out the refresh slots of a phase in order.  A slot is released
to a waiting frame, missed because a later one was released instead, or idle
because no frame was waiting; a clock that goes back begins a new phase.
-/

namespace ExpOS.DisplayTiming

open List

inductive FrameRelease where
  | unsynchronized (deadline : FrameDeadline)
  | synchronized (deadline : FrameDeadline)

def FrameRelease.deadline : FrameRelease → FrameDeadline
  | .unsynchronized deadline => deadline
  | .synchronized deadline => deadline

inductive FrameDecision where
  | idle (nextDeadline : Option FrameDeadline)
  | waitUntil (deadline : FrameDeadline)
  | presentNow (release : FrameRelease) (missedFrames : UInt64)
  | clockExhausted

structure PacingStats where
  frameReleases : UInt64 := 0
  missedFrames : UInt64 := 0
  idleFrames : UInt64 := 0
  clockDiscontinuities : UInt64 := 0

structure FramePacer where
  config : TimingConfig
  epochTick : UInt64
  nextFrameIndex : Option UInt64
  lastObservedTick : UInt64
  stats : PacingStats

namespace FramePacer

def new (config : TimingConfig) (startTick : UInt64) : FramePacer where
  config := config
  epochTick := startTick
  nextFrameIndex := some 0
  lastObservedTick := startTick
  stats := {}

def deadlineFor (p : FramePacer) (frameIndex : UInt64) : Option FrameDeadline :=
  deadlineFrom p.epochTick p.config.period frameIndex

def resetPhase (now : UInt64) (p : FramePacer) : FramePacer :=
  { p with epochTick := now, nextFrameIndex := some 0, lastObservedTick := now }

def reconfigure (config : TimingConfig) (now : UInt64) (p : FramePacer) : FramePacer :=
  resetPhase now { p with config }

def resetStats (p : FramePacer) : FramePacer :=
  { p with stats := {} }

/-- The last slot whose deadline is not after `now`.  The quotient is cut to a
word. -/
def latestDueIndex (p : FramePacer) (now : UInt64) : UInt64 :=
  let elapsed := saturatingSub now p.epochTick
  let scaled := elapsed.toNat * p.config.refreshRate.hz.toNat
  UInt64.ofNat (scaled / p.config.clockTicksPerSecond.toNat)

def observeClock (now : UInt64) (p : FramePacer) : FramePacer :=
  if now < p.lastObservedTick then
    let discontinuities := saturatingAdd p.stats.clockDiscontinuities 1
    resetPhase now { p with stats := { p.stats with clockDiscontinuities := discontinuities } }
  else
    { p with lastObservedTick := now }

/-- The end of `decide`, after the clock was observed. -/
def decideObserved (now : UInt64) (framePending : Bool) : Mutator FramePacer Empty FrameDecision :=
  fun p =>
    match p.nextFrameIndex with
    | none => (.done .clockExhausted, p)
    | some nextIndex =>
      match p.deadlineFor nextIndex with
      | none => (.done .clockExhausted, { p with nextFrameIndex := none })
      | some nextDeadline =>
        if ¬ framePending then
          if ¬ nextDeadline.isDue now then (.done (.idle (some nextDeadline)), p)
          else
            let latestDue := p.latestDueIndex now
            let idle := saturatingAdd (saturatingSub latestDue nextIndex) 1
            let idleFrames := saturatingAdd p.stats.idleFrames idle
            let p :=
              { p with
                stats := { p.stats with idleFrames }
                nextFrameIndex := checkedAdd latestDue 1 }
            (.done (.idle (p.nextFrameIndex.bind p.deadlineFor)), p)
        else if ¬ nextDeadline.isDue now then (.done (.waitUntil nextDeadline), p)
        else
          let latestDue := p.latestDueIndex now
          let missed := saturatingSub latestDue nextIndex
          match p.deadlineFor latestDue with
          -- "a deadline no later than now must fit the clock range"
          | none => (.halt, p)
          | some deadline =>
            let frameReleases := saturatingAdd p.stats.frameReleases 1
            let missedFrames := saturatingAdd p.stats.missedFrames missed
            let release :=
              if p.config.vsync = .on then .synchronized deadline else .unsynchronized deadline
            (.done (.presentNow release missed),
              { p with
                stats := { p.stats with frameReleases, missedFrames }
                nextFrameIndex := checkedAdd latestDue 1 })

def decide (now : UInt64) (framePending : Bool) : Mutator FramePacer Empty FrameDecision :=
  fun p => decideObserved now framePending (p.observeClock now)

/-! ## Slots that are due -/

variable {p p' : FramePacer} {now index : UInt64} {deadline : FrameDeadline}

theorem exact_of_deadlineFor (h : p.deadlineFor index = some deadline) :
    Exact p.epochTick p.config.period index deadline :=
  exact_of_deadlineFrom p.config.period_spec.1 h

/-- The quotient is a word, because a frame lasts at least one tick. -/
theorem toNat_latestDueIndex (p : FramePacer) (now : UInt64) :
    (p.latestDueIndex now).toNat = (now.toNat - p.epochTick.toNat) *
      p.config.refreshRate.hz.toNat / p.config.clockTicksPerSecond.toNat := by
  rw [latestDueIndex, toNat_saturatingSub, UInt64.toNat_ofNat_of_lt']
  calc _ ≤ (now.toNat - p.epochTick.toNat) * p.config.clockTicksPerSecond.toNat /
        p.config.clockTicksPerSecond.toNat :=
        Nat.div_le_div_right (Nat.mul_le_mul_left _ p.config.hz_le)
    _ = now.toNat - p.epochTick.toNat := Nat.mul_div_cancel _ p.config.ticks_pos
    _ < UInt64.size := (Nat.sub_le _ _).trans_lt now.toNat_lt

theorem isDue_iff_le_latestDueIndex (hnow : p.epochTick ≤ now)
    (h : p.deadlineFor index = some deadline) :
    deadline.isDue now = true ↔ index ≤ p.latestDueIndex now := by
  rw [p.config.isDue_iff (exact_of_deadlineFor h), p.config.frameTime_le_now_iff hnow,
    UInt64.le_iff_toNat_le, toNat_latestDueIndex]

/-- A slot that is due has a deadline within the range of the clock. -/
theorem exists_deadlineFor (hnow : p.epochTick ≤ now) (h : index ≤ p.latestDueIndex now) :
    ∃ deadline, p.deadlineFor index = some deadline := by
  refine Option.ne_none_iff_exists'.mp fun hnone => ?_
  have hover := p.config.deadlineFrom_eq_none_iff.mp hnone
  rw [UInt64.le_iff_toNat_le, toNat_latestDueIndex, ← p.config.frameTime_le_now_iff hnow] at h
  have hlast : (now.toNat : ℚ) ≤ (2 ^ 64 - 1 : ℕ) := by
    exact_mod_cast Nat.le_sub_one_of_lt now.toNat_lt
  exact absurd (h.trans hlast) (not_le.mpr hover)

/-- Everything that the end of `decide` can do to a pacer whose phase has
begun. -/
inductive Decided (p : FramePacer) (now : UInt64) :
    Outcome Empty FrameDecision × FramePacer → Prop
  | exhausted (h : p.nextFrameIndex = none) : Decided p now (.done .clockExhausted, p)
  | overflow {index : UInt64} (h : p.nextFrameIndex = some index) :
      Decided p now (.done .clockExhausted, { p with nextFrameIndex := none })
  | early {decision : FrameDecision} {deadline : FrameDeadline}
      (h : decision = .idle (some deadline) ∨ decision = .waitUntil deadline) :
      Decided p now (.done decision, p)
  | idle {index idleFrames : UInt64} {deadline : Option FrameDeadline}
      (h : p.nextFrameIndex = some index) (hdue : index ≤ p.latestDueIndex now)
      (hidle : idleFrames = saturatingAdd p.stats.idleFrames
        (saturatingAdd (saturatingSub (p.latestDueIndex now) index) 1)) :
      Decided p now (.done (.idle deadline),
        { p with
          stats := { p.stats with idleFrames }
          nextFrameIndex := checkedAdd (p.latestDueIndex now) 1 })
  | present {index frameReleases missedFrames : UInt64} {release : FrameRelease}
      (h : p.nextFrameIndex = some index) (hdue : index ≤ p.latestDueIndex now)
      (hrelease : p.deadlineFor (p.latestDueIndex now) = some release.deadline)
      (hframes : frameReleases = saturatingAdd p.stats.frameReleases 1)
      (hmissed : missedFrames = saturatingAdd p.stats.missedFrames
        (saturatingSub (p.latestDueIndex now) index)) :
      Decided p now
        (.done (.presentNow release (saturatingSub (p.latestDueIndex now) index)),
        { p with
          stats := { p.stats with frameReleases, missedFrames }
          nextFrameIndex := checkedAdd (p.latestDueIndex now) 1 })

theorem decideObserved_decided (hnow : p.epochTick ≤ now) (framePending : Bool) :
    Decided p now (decideObserved now framePending p) := by
  rw [decideObserved]
  split
  · next hnone => exact .exhausted hnone
  rename_i index hindex
  split
  · exact .overflow hindex
  rename_i deadline hdeadline
  have hiff := isDue_iff_le_latestDueIndex hnow hdeadline
  split
  · split
    · exact .early (.inl rfl)
    · next hdue => exact .idle hindex (hiff.mp (not_not.mp hdue)) rfl
  split
  · exact .early (.inr rfl)
  rename_i hdue
  obtain ⟨latest, hlatest⟩ := exists_deadlineFor hnow (UInt64.le_refl _)
  simp only [hlatest]
  refine .present hindex (hiff.mp (not_not.mp hdue)) ?_ rfl rfl
  rw [hlatest]
  split <;> rfl

/-! ## Statistics -/

end FramePacer

/-- Statistics with more added to them; each counter stops at its end. -/
def PacingStats.add (stats more : PacingStats) : PacingStats where
  frameReleases := saturatingAdd stats.frameReleases more.frameReleases
  missedFrames := saturatingAdd stats.missedFrames more.missedFrames
  idleFrames := saturatingAdd stats.idleFrames more.idleFrames
  clockDiscontinuities := saturatingAdd stats.clockDiscontinuities more.clockDiscontinuities

@[simp]
theorem PacingStats.add_empty (stats : PacingStats) : stats.add {} = stats := by
  simp [PacingStats.add]

@[simp]
theorem PacingStats.empty_add (stats : PacingStats) : PacingStats.add {} stats = stats := by
  simp [PacingStats.add]

theorem PacingStats.add_assoc (a b c : PacingStats) : (a.add b).add c = a.add (b.add c) := by
  simp [PacingStats.add, saturatingAdd_assoc]

namespace FramePacer

variable {p p' : FramePacer} {now index : UInt64} {deadline : FrameDeadline}

/-- What a call adds to the statistics. -/
def added (p : FramePacer) (now : UInt64) (framePending : Bool) : PacingStats :=
  (decide now framePending { p with stats := {} }).2.stats

@[simp]
theorem deadlineFor_stats (p : FramePacer) (stats : PacingStats) (index : UInt64) :
    deadlineFor { p with stats } index = p.deadlineFor index :=
  rfl

@[simp]
theorem latestDueIndex_stats (p : FramePacer) (stats : PacingStats) (now : UInt64) :
    latestDueIndex { p with stats } now = p.latestDueIndex now :=
  rfl

/-- The statistics play no part in a decision, which only adds to them. -/
theorem decideObserved_stats (p : FramePacer) (now : UInt64) (framePending : Bool) :
    ∃ added : PacingStats, ∀ stats, decideObserved now framePending { p with stats } =
      ((decideObserved now framePending p).1,
        { (decideObserved now framePending p).2 with stats := stats.add added }) := by
  simp only [decideObserved, deadlineFor_stats, latestDueIndex_stats]
  cases hnext : p.nextFrameIndex with
  | none => exact ⟨{}, fun stats => by simp [hnext]⟩
  | some index =>
    cases hdeadline : p.deadlineFor index with
    | none => exact ⟨{}, fun stats => by simp [hdeadline]⟩
    | some deadline =>
      cases hdue : deadline.isDue now with
      | false =>
        refine ⟨{}, fun stats => ?_⟩
        cases framePending <;> simp [hdeadline, hdue, hnext]
      | true =>
        let missed := saturatingSub (p.latestDueIndex now) index
        cases framePending with
        | false =>
          refine ⟨{ idleFrames := saturatingAdd missed 1 }, fun stats => ?_⟩
          simp [hdeadline, hdue, missed, PacingStats.add]
          rfl
        | true =>
          cases p.deadlineFor (p.latestDueIndex now) with
          | none => exact ⟨{}, fun stats => by simp [hdeadline, hdue, hnext]⟩
          | some found =>
            refine ⟨{ frameReleases := 1, missedFrames := missed }, fun stats => ?_⟩
            simp [hdeadline, hdue, PacingStats.add, missed]

theorem observeClock_stats (p : FramePacer) (now : UInt64) :
    ∃ added : PacingStats, ∀ stats, observeClock now { p with stats } =
      { p.observeClock now with stats := stats.add added } := by
  by_cases hback : now < p.lastObservedTick
  · refine ⟨{ clockDiscontinuities := 1 }, fun stats => ?_⟩
    simp [observeClock, hback, resetPhase, PacingStats.add]
  · refine ⟨{}, fun stats => ?_⟩
    simp [observeClock, hback]

theorem decide_stats (p : FramePacer) (now : UInt64) (framePending : Bool) (stats : PacingStats) :
    decide now framePending { p with stats } =
      ((decide now framePending p).1,
        { (decide now framePending p).2 with stats := stats.add (p.added now framePending) }) := by
  obtain ⟨observed, hobserved⟩ := observeClock_stats p now
  obtain ⟨decided, hdecided⟩ := decideObserved_stats (p.observeClock now) now framePending
  have hrun : ∀ stats, decide now framePending { p with stats } =
      ((decide now framePending p).1, { (decide now framePending p).2 with
        stats := stats.add (observed.add decided) }) := by
    intro stats
    rw [decide, hobserved, hdecided, PacingStats.add_assoc]
    rfl
  have hadded : p.added now framePending = observed.add decided := by
    rw [added, hrun, PacingStats.empty_add]
  rw [hrun, hadded]

/-! ## Phases -/

/-- One call on the pacer with arbitrary arguments. -/
inductive Call where
  | decide (now : UInt64) (framePending : Bool)
  | reconfigure (config : TimingConfig) (now : UInt64)
  | resetPhase (now : UInt64)
  | resetStats

/-- A call to decide: its clock, its result and what it added to the
statistics. -/
structure Turn where
  now : UInt64
  result : Outcome Empty FrameDecision
  added : PacingStats

namespace Turn

/-- The deadline that was presented. -/
def presented (turn : Turn) : Option FrameDeadline :=
  match turn.result with
  | .done (.presentNow release _) => some release.deadline
  | _ => none

def releases (turn : Turn) : ℕ :=
  if turn.presented.isSome then 1 else 0

def missed (turn : Turn) : ℕ :=
  match turn.result with
  | .done (.presentNow _ missedFrames) => missedFrames.toNat
  | _ => 0

def idle (turn : Turn) : ℕ := turn.added.idleFrames.toNat

/-- The number of slots that the turn consumed. -/
def slots (turn : Turn) : ℕ := turn.releases + turn.missed + turn.idle

section

variable (now : UInt64) (added : PacingStats)

theorem slots_presentNow (release : FrameRelease) (missedFrames : UInt64) :
    slots ⟨now, .done (.presentNow release missedFrames), added⟩ =
      1 + missedFrames.toNat + added.idleFrames.toNat :=
  rfl

theorem slots_idle (deadline : Option FrameDeadline) :
    slots ⟨now, .done (.idle deadline), added⟩ = added.idleFrames.toNat :=
  Nat.zero_add _

theorem slots_waitUntil (deadline : FrameDeadline) :
    slots ⟨now, .done (.waitUntil deadline), added⟩ = added.idleFrames.toNat :=
  Nat.zero_add _

end

end Turn

/-- A pacer with the turns since its phase began. -/
structure Phase where
  pacer : FramePacer
  turns : List Turn

/-- A clock that goes back begins a phase. -/
def Phase.observed (phase : Phase) (now : UInt64) : Phase where
  pacer := phase.pacer.observeClock now
  turns := if now < phase.pacer.lastObservedTick then [] else phase.turns

def Phase.step (phase : Phase) : Call → Phase
  | .decide now framePending =>
    let result := FramePacer.decide now framePending phase.pacer
    { pacer := result.2
      turns := (phase.observed now).turns ++
        [⟨now, result.1, phase.pacer.added now framePending⟩] }
  | .reconfigure config now => ⟨FramePacer.reconfigure config now phase.pacer, []⟩
  | .resetPhase now => ⟨FramePacer.resetPhase now phase.pacer, []⟩
  | .resetStats => { phase with pacer := phase.pacer.resetStats }

def Phase.run (phase : Phase) (calls : List Call) : Phase :=
  calls.foldl Phase.step phase

/-- The number of slots that some turns consumed. -/
def consumed (turns : List Turn) : ℕ := (turns.map Turn.slots).sum

theorem consumed_append (turns more : List Turn) :
    consumed (turns ++ more) = consumed turns + consumed more := by
  simp [consumed]

theorem consumed_singleton (turn : Turn) : consumed [turn] = turn.slots := by
  simp [consumed]

/-- A turn that released a slot: the slot is the last one consumed so far, and
its deadline has come. -/
structure Released (p : FramePacer) (before : List Turn) (turn : Turn)
    (deadline : FrameDeadline) : Prop where
  exact : Exact p.epochTick p.config.period deadline.frameIndex deadline
  last : deadline.frameIndex.toNat + 1 = consumed (before ++ [turn])
  due : deadline.isDue turn.now = true

/-- The invariant of a phase. -/
structure Paced (phase : Phase) : Prop where
  begun : phase.pacer.epochTick ≤ phase.pacer.lastObservedTick
  cursor : ∀ index, phase.pacer.nextFrameIndex = some index → consumed phase.turns = index.toNat
  released : ∀ before turn after deadline, phase.turns = before ++ turn :: after →
    turn.presented = some deadline → Released phase.pacer before turn deadline

theorem paced_begin (hepoch : p.epochTick ≤ p.lastObservedTick)
    (hnext : p.nextFrameIndex = some 0) : Paced ⟨p, []⟩ where
  begun := hepoch
  cursor index hindex := by
    rw [hnext] at hindex
    cases hindex
    rfl
  released before turn after deadline hsplit := by
    simp at hsplit

variable {phase : Phase}

/-- Only the phase and the place in it matter. -/
theorem Paced.congr (h : Paced phase)
    (hbegun : p.epochTick ≤ p.lastObservedTick) (hepoch : p.epochTick = phase.pacer.epochTick)
    (hconfig : p.config = phase.pacer.config)
    (hnext : p.nextFrameIndex = phase.pacer.nextFrameIndex) : Paced ⟨p, phase.turns⟩ where
  begun := hbegun
  cursor := by
    rw [hnext]
    exact h.cursor
  released before turn after deadline hsplit hpresented := by
    obtain ⟨hexact, hlast, hdue⟩ := h.released before turn after deadline hsplit hpresented
    exact ⟨by rwa [hepoch, hconfig], hlast, hdue⟩

theorem Paced.observed (h : Paced phase) (now : UInt64) :
    Paced (phase.observed now) ∧ (phase.observed now).pacer.epochTick ≤ now := by
  rw [Phase.observed, observeClock]
  split
  · exact ⟨paced_begin (UInt64.le_refl _) rfl, UInt64.le_refl _⟩
  rename_i hnow
  have hle := UInt64.le_trans h.begun (UInt64.not_lt.mp hnow)
  exact ⟨h.congr hle rfl rfl rfl, hle⟩

/-- What a turn does: it stays in its phase, moves the next slot by the slots
it consumes, and releases at most the last of these. -/
structure Moves (p p' : FramePacer) (turn : Turn) : Prop where
  ends : turn.result ≠ .halt
  config_eq : p'.config = p.config
  epoch_eq : p'.epochTick = p.epochTick
  last_eq : p'.lastObservedTick = p.lastObservedTick
  next_eq : ∀ index', p'.nextFrameIndex = some index' →
    ∃ index, p.nextFrameIndex = some index ∧ index.toNat + turn.slots = index'.toNat
  presents : ∀ deadline, turn.presented = some deadline →
    ∃ index, p.nextFrameIndex = some index ∧
      p.deadlineFor deadline.frameIndex = some deadline ∧
      deadline.frameIndex.toNat + 1 = index.toNat + turn.slots ∧ deadline.isDue turn.now = true

theorem Decided.moves {result : Outcome Empty FrameDecision × FramePacer}
    (h : Decided p now result) (hnow : p.epochTick ≤ now) (hidle : p.stats.idleFrames = 0) :
    Moves p result.2 ⟨now, result.1, result.2.stats⟩ := by
  cases h with
  | exhausted hnext =>
    refine ⟨by simp, rfl, rfl, rfl, ?_, by simp [Turn.presented]⟩
    intro index' hindex'
    rw [hnext] at hindex'
    cases hindex'
  | overflow hnext => exact ⟨by simp, rfl, rfl, rfl, by simp, by simp [Turn.presented]⟩
  | @early decision deadline hdecision =>
    have hslots : Turn.slots ⟨now, .done decision, p.stats⟩ = 0 := by
      rcases hdecision with rfl | rfl
      · rw [Turn.slots_idle, hidle, UInt64.toNat_zero]
      · rw [Turn.slots_waitUntil, hidle, UInt64.toNat_zero]
    refine ⟨by simp, rfl, rfl, rfl, ?_, ?_⟩
    · intro index' hindex'
      exact ⟨index', hindex', by rw [hslots, add_zero]⟩
    · rcases hdecision with rfl | rfl <;> simp [Turn.presented]
  | @idle index idleFrames deadline hnext hdue hframes =>
    refine ⟨by simp, rfl, rfl, rfl, ?_, by simp [Turn.presented]⟩
    intro index' hindex'
    have hsum := checkedAdd_eq_some.mp hindex'
    have hlt := index'.toNat_lt
    rw [UInt64.toNat_one] at hsum
    rw [UInt64.le_iff_toNat_le] at hdue
    refine ⟨index, hnext, ?_⟩
    rw [Turn.slots_idle, hframes, hidle, zero_saturatingAdd, toNat_saturatingAdd,
      toNat_saturatingSub, UInt64.toNat_one]
    omega
  | @present index frameReleases missedFrames release hnext hdue hrelease =>
    have hexact := exact_of_deadlineFor hrelease
    rw [UInt64.le_iff_toNat_le] at hdue
    refine ⟨by simp, rfl, rfl, rfl, ?_, ?_⟩
    · intro index' hindex'
      have hsum := checkedAdd_eq_some.mp hindex'
      rw [UInt64.toNat_one] at hsum
      refine ⟨index, hnext, ?_⟩
      rw [Turn.slots_presentNow, hidle, toNat_saturatingSub, UInt64.toNat_zero]
      omega
    · intro deadline hpresented
      have hdeadline : deadline = release.deadline := (Option.some.inj hpresented).symm
      subst hdeadline
      refine ⟨index, hnext, by rw [hexact.frameIndex_eq]; exact hrelease, ?_, ?_⟩
      · dsimp only
        rw [Turn.slots_presentNow, hidle, toNat_saturatingSub, UInt64.toNat_zero,
          hexact.frameIndex_eq]
        omega
      · exact (isDue_iff_le_latestDueIndex hnow hrelease).mpr (UInt64.le_refl _)

theorem moves_decide (p : FramePacer) (now : UInt64) (framePending : Bool)
    (hnow : (p.observeClock now).epochTick ≤ now) :
    Moves (p.observeClock now) (decide now framePending p).2
      ⟨now, (decide now framePending p).1, p.added now framePending⟩ := by
  -- the turn of the pacer with empty statistics
  obtain ⟨observed, hobserved⟩ := observeClock_stats p now
  have hbare : (observeClock now { p with stats := {} }).epochTick ≤ now := by
    rw [hobserved]
    exact hnow
  have hidle : (observeClock now { p with stats := {} }).stats.idleFrames = 0 := by
    rw [observeClock]
    split <;> rfl
  have hmoves := (decideObserved_decided hbare framePending).moves hbare hidle
  have hstats := decide_stats p now framePending {}
  rw [decide] at hstats
  rw [hstats, PacingStats.empty_add, hobserved] at hmoves
  exact ⟨hmoves.ends, hmoves.config_eq, hmoves.epoch_eq, hmoves.last_eq, hmoves.next_eq,
    hmoves.presents⟩

/-- A turn keeps the invariant. -/
theorem Paced.turn {turn : Turn} (h : Paced phase)
    (hmoves : Moves phase.pacer p' turn) : Paced ⟨p', phase.turns ++ [turn]⟩ where
  begun := by
    rw [hmoves.epoch_eq, hmoves.last_eq]
    exact h.begun
  cursor index' hindex' := by
    obtain ⟨index, hindex, hsum⟩ := hmoves.next_eq index' hindex'
    rw [consumed_append, h.cursor index hindex]
    exact hsum
  released before found after deadline hsplit hpresented := by
    rcases eq_nil_or_concat after with rfl | ⟨init, final, rfl⟩
    · -- the new turn
      obtain ⟨rfl, hturn⟩ := append_inj_left' hsplit rfl, append_inj_right' hsplit rfl
      cases hturn
      obtain ⟨index, hindex, hdeadline, hlast, hdue⟩ := hmoves.presents deadline hpresented
      refine ⟨?_, ?_, hdue⟩
      · rw [hmoves.epoch_eq, hmoves.config_eq]
        exact exact_of_deadlineFor hdeadline
      · rw [consumed_append, h.cursor index hindex]
        exact hlast
    · -- an earlier one
      have hshift : before ++ found :: (init ++ [final]) = before ++ found :: init ++ [final] := by
        simp
      rw [concat_eq_append, hshift] at hsplit
      obtain ⟨hexact, hlast, hdue⟩ :=
        h.released before found init deadline (append_inj_left' hsplit rfl) hpresented
      exact ⟨by rwa [hmoves.epoch_eq, hmoves.config_eq], hlast, hdue⟩

theorem Paced.step (h : Paced phase) (call : Call) : Paced (phase.step call) := by
  cases call with
  | decide now framePending =>
    obtain ⟨hobserved, hnow⟩ := h.observed now
    exact hobserved.turn (moves_decide phase.pacer now framePending hnow)
  | reconfigure config now => exact paced_begin (UInt64.le_refl _) rfl
  | resetPhase now => exact paced_begin (UInt64.le_refl _) rfl
  | resetStats => exact h.congr h.begun rfl rfl rfl

theorem Paced.run (h : Paced phase) (calls : List Call) :
    Paced (phase.run calls) := by
  induction calls generalizing phase with
  | nil => exact h
  | cons call calls ih => exact ih (h.step call)

/-- A slot that is the last one consumed so far is later than those before. -/
theorem presented_increasing {turns : List Turn}
    (h : ∀ before turn after deadline, turns = before ++ turn :: after →
      turn.presented = some deadline →
      deadline.frameIndex.toNat + 1 = consumed (before ++ [turn])) :
    (turns.filterMap Turn.presented).Pairwise (fun a b => a.frameIndex < b.frameIndex) ∧
      ∀ deadline ∈ turns.filterMap Turn.presented,
        deadline.frameIndex.toNat < consumed turns := by
  induction turns using reverseRecOn with
  | nil => exact ⟨.nil, by simp⟩
  | append_singleton turns turn ih =>
    obtain ⟨hpairwise, hbelow⟩ := ih fun before found after deadline hsplit =>
      h before found (after ++ [turn]) deadline (by simp [hsplit])
    have hnew := h turns turn []
    rw [consumed_append, consumed_singleton] at *
    rw [filterMap_append]
    cases hpresented : turn.presented with
    | none =>
      rw [filterMap_cons_none hpresented, filterMap_nil, append_nil]
      exact ⟨hpairwise, fun deadline hmem => (hbelow deadline hmem).trans_le (Nat.le_add_right ..)⟩
    | some deadline =>
      have hlast := hnew deadline rfl hpresented
      have hslots : 0 < turn.slots := by
        rw [Turn.slots, Turn.releases, hpresented]
        simp only [Option.isSome_some, if_true]
        omega
      rw [filterMap_cons_some hpresented, filterMap_nil]
      constructor
      · rw [pairwise_append]
        refine ⟨hpairwise, pairwise_singleton _ _, ?_⟩
        intro earlier hearlier found hfound
        rw [mem_singleton.mp hfound, UInt64.lt_iff_toNat_lt]
        have hlt := hbelow earlier hearlier
        omega
      · intro found hfound
        rcases mem_append.mp hfound with hold | hnew
        · exact (hbelow found hold).trans_le (Nat.le_add_right ..)
        · rw [mem_singleton.mp hnew]
          omega

theorem consumed_eq (turns : List Turn) :
    consumed turns = (turns.map Turn.releases).sum + (turns.map Turn.missed).sum +
      (turns.map Turn.idle).sum := by
  induction turns with
  | nil => rfl
  | cons turn turns ih =>
    have hcons : consumed (turn :: turns) = turn.slots + consumed turns := by simp [consumed]
    rw [hcons, Turn.slots]
    simp only [map_cons, sum_cons]
    omega

end FramePacer

open FramePacer in
/-- In every phase of every run the slots released, missed and idle make up the
next slot; the slot that a turn releases is the last one consumed so far, so
that none is consumed twice; deadlines are presented in increasing order and
none before its instant; and the statistics count what the turns consume. -/
theorem frame_slots_conserved (config : TimingConfig) (start : UInt64) (calls : List Call) :
    let phase := Phase.run ⟨FramePacer.new config start, []⟩ calls
    (∀ index, phase.pacer.nextFrameIndex = some index →
      (phase.turns.map Turn.releases).sum + (phase.turns.map Turn.missed).sum +
        (phase.turns.map Turn.idle).sum = index.toNat) ∧
    (∀ before turn after deadline, phase.turns = before ++ turn :: after →
      turn.presented = some deadline →
      deadline.frameIndex.toNat + 1 = consumed (before ++ [turn]) ∧
      deadline.isDue turn.now = true ∧ deadline.time ≤ turn.now.toNat) ∧
    (phase.turns.filterMap Turn.presented).Pairwise
      (fun a b => a.frameIndex < b.frameIndex ∧ a.time < b.time) ∧
    ∀ now framePending, (decide now framePending phase.pacer).2.stats =
      phase.pacer.stats.add (phase.pacer.added now framePending) := by
  intro phase
  have h : Paced phase := (paced_begin (UInt64.le_refl _) rfl).run calls
  refine ⟨?_, ?_, ?_, ?_⟩
  · intro index hindex
    rw [← consumed_eq]
    exact h.cursor index hindex
  · intro before turn after deadline hsplit hpresented
    obtain ⟨hexact, hlast, hdue⟩ := h.released before turn after deadline hsplit hpresented
    refine ⟨hlast, hdue, ?_⟩
    rw [phase.pacer.config.time_eq hexact]
    exact (phase.pacer.config.isDue_iff hexact).mp hdue
  · have hincreasing := (presented_increasing fun before turn after deadline hsplit hpresented =>
      (h.released before turn after deadline hsplit hpresented).last).1
    refine hincreasing.imp_of_mem fun {a b} ha hb hlt => ⟨hlt, ?_⟩
    have hexact : ∀ deadline ∈ phase.turns.filterMap Turn.presented,
        Exact phase.pacer.epochTick phase.pacer.config.period deadline.frameIndex deadline := by
      intro deadline hmem
      obtain ⟨turn, hturn, hpresented⟩ := mem_filterMap.mp hmem
      obtain ⟨before, after, hsplit⟩ := append_of_mem hturn
      exact (h.released before turn after deadline hsplit hpresented).exact
    rw [phase.pacer.config.time_eq (hexact a ha), phase.pacer.config.time_eq (hexact b hb)]
    exact phase.pacer.config.frameTime_strictMono hlt
  · intro now framePending
    exact congrArg (·.2.stats) (decide_stats phase.pacer now framePending phase.pacer.stats)

open FramePacer in
/-- A deadline is the exact instant of its frame and is refused only when that
is beyond the last tick; it is due exactly for the slots up to the latest one;
and no run of the pacer meets a released slot without a deadline. -/
theorem frame_deadlines_exact (config : TimingConfig) (epoch index : UInt64) :
    (∀ deadline, deadlineFrom epoch config.period index = some deadline →
      deadline.frameIndex = index ∧
      deadline.fractionalNumerator < deadline.fractionalDenominator ∧
      deadline.time = epoch.toNat +
        index.toNat * config.clockTicksPerSecond.toNat / config.refreshRate.hz.toNat) ∧
    (deadlineFrom epoch config.period index = none ↔
      ((2 ^ 64 - 1 : ℕ) : ℚ) < epoch.toNat +
        index.toNat * config.clockTicksPerSecond.toNat / config.refreshRate.hz.toNat) ∧
    (∀ p : FramePacer, p.config = config → p.epochTick = epoch → ∀ now, epoch ≤ now →
      ((∃ deadline, p.deadlineFor index = some deadline ∧ deadline.isDue now = true) ↔
        index ≤ p.latestDueIndex now)) ∧
    ∀ calls now framePending,
      (decide now framePending (Phase.run ⟨FramePacer.new config epoch, []⟩ calls).pacer).1 ≠
        .halt := by
  refine ⟨?_, config.deadlineFrom_eq_none_iff, ?_, ?_⟩
  · intro deadline hdeadline
    have hexact := exact_of_deadlineFrom config.period_spec.1 hdeadline
    refine ⟨hexact.frameIndex_eq, ?_, config.time_eq hexact⟩
    rw [UInt16.lt_iff_toNat_lt, hexact.denominator_eq]
    exact hexact.numerator_lt
  · rintro p rfl rfl now hnow
    constructor
    · rintro ⟨deadline, hdeadline, hdue⟩
      exact (isDue_iff_le_latestDueIndex hnow hdeadline).mp hdue
    · intro hle
      obtain ⟨deadline, hdeadline⟩ := exists_deadlineFor hnow hle
      exact ⟨deadline, hdeadline, (isDue_iff_le_latestDueIndex hnow hdeadline).mpr hle⟩
  · intro calls now framePending
    have h : Paced (Phase.run ⟨.new config epoch, []⟩ calls) :=
      (paced_begin (UInt64.le_refl _) rfl).run calls
    exact (moves_decide _ now framePending (h.observed now).2).ends

end ExpOS.DisplayTiming
