import ExpOS.Support.Outcome
import ExpOS.Support.Words
import Mathlib.Algebra.Order.Field.Rat
import Mathlib.Data.Nat.GCD.Basic
import Mathlib.Tactic.FieldSimp
import Mathlib.Tactic.Ring

/-!
# Frame deadlines

The compositor paces its frames by a clock of arbitrary resolution.  The
period of a frame is kept as a reduced fraction of ticks, so that a deadline is
a whole number of ticks and an exact rest.
-/

namespace ExpOS.DisplayTiming

/-! ## Configuration -/

inductive RefreshRate where
  | hz60
  | hz75
  | hz120
  | hz144
deriving DecidableEq

def RefreshRate.hz : RefreshRate → UInt16
  | .hz60 => 60
  | .hz75 => 75
  | .hz120 => 120
  | .hz144 => 144

inductive VSyncPolicy where
  | off
  | on
deriving DecidableEq

/-- A frame lasts `numeratorTicks / denominator` ticks. -/
structure FramePeriod where
  numeratorTicks : UInt64
  denominator : UInt16

inductive TimingError where
  | zeroClockFrequency
  | clockTooCoarse
deriving DecidableEq

/-- A configuration whose clock has a tick for each frame. -/
structure TimingConfig where
  refreshRate : RefreshRate
  vsync : VSyncPolicy
  clockTicksPerSecond : UInt64
  hz_le : refreshRate.hz.toNat ≤ clockTicksPerSecond.toNat

/-- The greatest common divisor, by remainders. -/
def gcd (left right : UInt64) : UInt64 :=
  if right = 0 then left else gcd right (left % right)
termination_by right.toNat
decreasing_by
  next hne =>
    rw [UInt64.toNat_mod]
    exact Nat.mod_lt _ (Nat.pos_of_ne_zero fun hzero => hne (UInt64.toNat_inj.mp hzero))

namespace TimingConfig

def new (refreshRate : RefreshRate) (vsync : VSyncPolicy) (clockTicksPerSecond : UInt64) :
    Outcome TimingError TimingConfig :=
  if clockTicksPerSecond = 0 then .fail .zeroClockFrequency
  else if hcoarse : clockTicksPerSecond.toNat < refreshRate.hz.toNat then .fail .clockTooCoarse
  else .done ⟨refreshRate, vsync, clockTicksPerSecond, Nat.not_lt.mp hcoarse⟩

def period (config : TimingConfig) : FramePeriod :=
  let divisor := gcd config.clockTicksPerSecond config.refreshRate.hz.toUInt64
  { numeratorTicks := config.clockTicksPerSecond / divisor
    denominator := (config.refreshRate.hz.toUInt64 / divisor).toUInt16 }

end TimingConfig

/-! ## Deadlines -/

structure FrameDeadline where
  frameIndex : UInt64
  wholeTick : UInt64
  fractionalNumerator : UInt16
  fractionalDenominator : UInt16

namespace FrameDeadline

/-- The first whole tick that is not before the deadline. -/
def notBeforeTick (deadline : FrameDeadline) : UInt64 :=
  saturatingAdd deadline.wholeTick (if deadline.fractionalNumerator ≠ 0 then 1 else 0)

def isDue (deadline : FrameDeadline) (now : UInt64) : Bool :=
  decide (now ≥ deadline.notBeforeTick)

/-- The instant that the deadline stands for. -/
def time (deadline : FrameDeadline) : ℚ :=
  deadline.wholeTick.toNat +
    deadline.fractionalNumerator.toNat / deadline.fractionalDenominator.toNat

end FrameDeadline

/-- The deadline of a frame, unless it is beyond the range of the clock.  The
products are taken in words of 128 bits, which hold them. -/
def deadlineFrom (epochTick : UInt64) (period : FramePeriod) (frameIndex : UInt64) :
    Option FrameDeadline :=
  let product := frameIndex.toNat * period.numeratorTicks.toNat
  let denominator := period.denominator.toNat
  let offset := product / denominator
  let fractionalNumerator := UInt16.ofNat (product % denominator)
  if offset > 2 ^ 64 - 1 - epochTick.toNat then none
  else
    let wholeTick := epochTick + UInt64.ofNat offset
    if wholeTick = UInt64.ofNat (2 ^ 64 - 1) ∧ fractionalNumerator ≠ 0 then none
    else
      some
        { frameIndex, wholeTick, fractionalNumerator
          fractionalDenominator := period.denominator }

/-! ## The period -/

theorem toNat_gcd (left right : UInt64) : (gcd left right).toNat = left.toNat.gcd right.toNat := by
  fun_induction gcd left right with
  | case1 left => rw [UInt64.toNat_zero, Nat.gcd_zero_right]
  | case2 left right _ ih =>
    rw [ih, UInt64.toNat_mod, Nat.gcd_comm right.toNat, ← Nat.gcd_rec, Nat.gcd_comm]

theorem RefreshRate.hz_bounds (rate : RefreshRate) : 0 < rate.hz.toNat ∧ rate.hz.toNat ≤ 144 := by
  cases rate <;> decide

namespace TimingConfig

variable (config : TimingConfig)

theorem ticks_pos : 0 < config.clockTicksPerSecond.toNat :=
  config.refreshRate.hz_bounds.1.trans_le config.hz_le

/-- The period is the number of ticks in a second over the frequency. -/
theorem period_spec :
    0 < config.period.denominator.toNat ∧
      config.period.numeratorTicks.toNat * config.refreshRate.hz.toNat =
        config.clockTicksPerSecond.toNat * config.period.denominator.toNat := by
  have hbounds := config.refreshRate.hz_bounds
  have hgcd : (gcd config.clockTicksPerSecond config.refreshRate.hz.toUInt64).toNat =
      config.clockTicksPerSecond.toNat.gcd config.refreshRate.hz.toNat := by
    rw [toNat_gcd, UInt16.toNat_toUInt64]
  have hpos : 0 < config.clockTicksPerSecond.toNat.gcd config.refreshRate.hz.toNat :=
    Nat.gcd_pos_of_pos_right _ hbounds.1
  have hnumerator : config.period.numeratorTicks.toNat = config.clockTicksPerSecond.toNat /
      config.clockTicksPerSecond.toNat.gcd config.refreshRate.hz.toNat := by
    rw [period, UInt64.toNat_div, hgcd]
  have hdenominator : config.period.denominator.toNat = config.refreshRate.hz.toNat /
      config.clockTicksPerSecond.toNat.gcd config.refreshRate.hz.toNat := by
    rw [period, UInt64.toNat_toUInt16, UInt64.toNat_div, hgcd, UInt16.toNat_toUInt64]
    exact Nat.mod_eq_of_lt ((Nat.div_le_self _ _).trans_lt (by omega))
  obtain ⟨n, hn⟩ := Nat.gcd_dvd_left config.clockTicksPerSecond.toNat config.refreshRate.hz.toNat
  obtain ⟨d, hd⟩ := Nat.gcd_dvd_right config.clockTicksPerSecond.toNat config.refreshRate.hz.toNat
  generalize config.clockTicksPerSecond.toNat.gcd config.refreshRate.hz.toNat = g at *
  rw [hd, Nat.mul_div_cancel_left _ hpos] at hdenominator
  rw [hn, Nat.mul_div_cancel_left _ hpos] at hnumerator
  rw [hdenominator, hnumerator, hn, hd]
  refine ⟨pos_of_ne_zero ?_, by ring⟩
  rintro rfl
  omega

end TimingConfig

/-! ## Exactness -/

/-- A whole number and a fraction, rounded up. -/
def roundUp (whole rest : ℕ) : ℕ :=
  whole + if rest = 0 then 0 else 1

theorem roundUp_le_iff {whole rest denominator total bound : ℕ}
    (htotal : whole * denominator + rest = total) (hrest : rest < denominator) :
    roundUp whole rest ≤ bound ↔ total ≤ bound * denominator := by
  subst htotal
  rw [roundUp]
  split
  · next hzero =>
      subst hzero
      exact (Nat.mul_le_mul_right_iff hrest).symm
  constructor
  · intro hle
    calc whole * denominator + rest ≤ whole * denominator + denominator := by omega
      _ = (whole + 1) * denominator := by ring
      _ ≤ bound * denominator := Nat.mul_le_mul_right _ hle
  · intro hle
    by_contra hlt
    have hmul := Nat.mul_le_mul_right denominator (show bound ≤ whole by omega)
    omega

variable {epoch index : UInt64} {period : FramePeriod} {deadline : FrameDeadline}

theorem toNat_rest (hdenominator : 0 < period.denominator.toNat) (product : ℕ) :
    (UInt16.ofNat (product % period.denominator.toNat)).toNat =
      product % period.denominator.toNat := by
  have hlt := Nat.mod_lt product hdenominator
  have hword := period.denominator.toNat_lt
  rw [UInt16.toNat_ofNat', Nat.mod_eq_of_lt (by omega)]

theorem toNat_whole {offset : ℕ} (h : offset ≤ 2 ^ 64 - 1 - epoch.toNat) :
    (epoch + UInt64.ofNat offset).toNat = epoch.toNat + offset := by
  have hepoch := epoch.toNat_lt
  rw [UInt64.toNat_add, UInt64.toNat_ofNat_of_lt' (by rw [UInt64.size]; omega),
    Nat.mod_eq_of_lt (by omega)]

/-- Both tests together say that the deadline, rounded up, is a tick. -/
theorem deadlineFrom_eq (hdenominator : 0 < period.denominator.toNat) :
    let product := index.toNat * period.numeratorTicks.toNat
    let offset := product / period.denominator.toNat
    let rest := product % period.denominator.toNat
    deadlineFrom epoch period index =
      if roundUp (epoch.toNat + offset) rest ≤ 2 ^ 64 - 1 then
        some
          { frameIndex := index
            wholeTick := epoch + UInt64.ofNat offset
            fractionalNumerator := UInt16.ofNat rest
            fractionalDenominator := period.denominator }
      else none := by
  have hepoch := epoch.toNat_lt
  have hrest := toNat_rest hdenominator (index.toNat * period.numeratorTicks.toNat)
  have hzero : UInt16.ofNat (index.toNat * period.numeratorTicks.toNat %
      period.denominator.toNat) ≠ 0 ↔
      index.toNat * period.numeratorTicks.toNat % period.denominator.toNat ≠ 0 := by
    rw [not_iff_not, ← UInt16.toNat_inj, hrest]
    rfl
  simp only [deadlineFrom, hzero]
  generalize index.toNat * period.numeratorTicks.toNat / period.denominator.toNat = offset
  generalize index.toNat * period.numeratorTicks.toNat % period.denominator.toNat = rest
  by_cases hfits : offset > 2 ^ 64 - 1 - epoch.toNat
  · rw [if_pos hfits, if_neg]
    rw [roundUp]
    omega
  have hwhole := toNat_whole (not_lt.mp hfits)
  have hlast : epoch + UInt64.ofNat offset = UInt64.ofNat (2 ^ 64 - 1) ↔
      epoch.toNat + offset = 2 ^ 64 - 1 := by
    rw [← UInt64.toNat_inj, hwhole, UInt64.toNat_ofNat_of_lt' (by decide)]
  rw [if_neg hfits]
  simp only [hlast]
  by_cases hover : epoch.toNat + offset = 2 ^ 64 - 1 ∧ rest ≠ 0
  · rw [if_pos hover, if_neg]
    rw [roundUp, if_neg hover.2]
    omega
  · rw [if_neg hover, if_pos]
    rw [roundUp]
    split <;> omega

/-- What a deadline that is computed says. -/
structure Exact (epoch : UInt64) (period : FramePeriod) (index : UInt64)
    (deadline : FrameDeadline) : Prop where
  frameIndex_eq : deadline.frameIndex = index
  denominator_eq : deadline.fractionalDenominator = period.denominator
  numerator_lt : deadline.fractionalNumerator.toNat < period.denominator.toNat
  ticks_eq : deadline.wholeTick.toNat * period.denominator.toNat +
      deadline.fractionalNumerator.toNat =
    epoch.toNat * period.denominator.toNat + index.toNat * period.numeratorTicks.toNat
  notBefore_eq : deadline.notBeforeTick.toNat =
    roundUp deadline.wholeTick.toNat deadline.fractionalNumerator.toNat

theorem exact_of_deadlineFrom (hdenominator : 0 < period.denominator.toNat)
    (h : deadlineFrom epoch period index = some deadline) : Exact epoch period index deadline := by
  have hrest := toNat_rest hdenominator (index.toNat * period.numeratorTicks.toNat)
  rw [deadlineFrom_eq hdenominator] at h
  split at h
  · next hfits =>
      rw [roundUp] at hfits
      have hwhole := @toNat_whole epoch (index.toNat * period.numeratorTicks.toNat /
        period.denominator.toNat) (by omega)
      cases h
      refine ⟨rfl, rfl, ?_, ?_, ?_⟩
      · rw [hrest]
        exact Nat.mod_lt _ hdenominator
      · rw [hwhole, hrest, add_mul, add_assoc, mul_comm (_ / _), Nat.div_add_mod]
      have hzero : UInt16.ofNat (index.toNat * period.numeratorTicks.toNat %
          period.denominator.toNat) = 0 ↔
          index.toNat * period.numeratorTicks.toNat % period.denominator.toNat = 0 := by
        rw [← UInt16.toNat_inj, hrest]
        rfl
      rw [FrameDeadline.notBeforeTick, toNat_saturatingAdd, hwhole, hrest, roundUp]
      simp only [hzero, ite_not]
      split
      · next hexact =>
          rw [UInt64.toNat_zero]
          omega
      rename_i hinexact
      rw [if_neg hinexact] at hfits
      rw [UInt64.toNat_one]
      omega
  · cases h

/-- A deadline is refused when it is beyond the last tick. -/
theorem deadlineFrom_eq_none (hdenominator : 0 < period.denominator.toNat) :
    deadlineFrom epoch period index = none ↔
      (2 ^ 64 - 1) * period.denominator.toNat <
        epoch.toNat * period.denominator.toNat + index.toNat * period.numeratorTicks.toNat := by
  have htotal : (epoch.toNat +
        index.toNat * period.numeratorTicks.toNat / period.denominator.toNat) *
          period.denominator.toNat +
        index.toNat * period.numeratorTicks.toNat % period.denominator.toNat =
      epoch.toNat * period.denominator.toNat + index.toNat * period.numeratorTicks.toNat := by
    rw [add_mul, add_assoc, mul_comm (_ / _), Nat.div_add_mod]
  rw [deadlineFrom_eq hdenominator, ← not_le,
    ← roundUp_le_iff htotal (Nat.mod_lt _ hdenominator)]
  split
  · next hfits => simpa using hfits
  · next hover => simpa using hover

namespace TimingConfig

variable (config : TimingConfig)

/-- The instant of a frame: the epoch and a frame's share of a second for each
frame before it. -/
def frameTime (epoch index : UInt64) : ℚ :=
  epoch.toNat + index.toNat * config.clockTicksPerSecond.toNat / config.refreshRate.hz.toNat

/-- The instant of a frame over the reduced denominator. -/
theorem frameTime_eq (epoch index : UInt64) :
    config.frameTime epoch index = ((epoch.toNat * config.period.denominator.toNat +
      index.toNat * config.period.numeratorTicks.toNat : ℕ) : ℚ) /
        config.period.denominator.toNat := by
  obtain ⟨hpos, hperiod⟩ := config.period_spec
  have hratio : (config.period.numeratorTicks.toNat * config.refreshRate.hz.toNat : ℚ) =
      config.clockTicksPerSecond.toNat * config.period.denominator.toNat := by
    exact_mod_cast hperiod
  have hden : (config.period.denominator.toNat : ℚ) ≠ 0 := by exact_mod_cast hpos.ne'
  have hhz : (config.refreshRate.hz.toNat : ℚ) ≠ 0 := by
    exact_mod_cast config.refreshRate.hz_bounds.1.ne'
  rw [frameTime]
  push_cast
  field_simp
  calc _ = (config.period.denominator.toNat * config.refreshRate.hz.toNat * epoch.toNat +
      index.toNat * (config.clockTicksPerSecond.toNat * config.period.denominator.toNat) : ℚ) := by
        ring
    _ = _ := by
      rw [← hratio]
      ring

theorem frameTime_le_iff {bound : ℕ} :
    config.frameTime epoch index ≤ bound ↔
      epoch.toNat * config.period.denominator.toNat +
        index.toNat * config.period.numeratorTicks.toNat ≤
          bound * config.period.denominator.toNat := by
  have hpos : (0 : ℚ) < config.period.denominator.toNat := by
    exact_mod_cast config.period_spec.1
  rw [frameTime_eq, div_le_iff₀ hpos]
  exact_mod_cast Iff.rfl

theorem frameTime_strictMono {index' : UInt64} (h : index < index') :
    config.frameTime epoch index < config.frameTime epoch index' := by
  have hhz : (0 : ℚ) < config.refreshRate.hz.toNat := by
    exact_mod_cast config.refreshRate.hz_bounds.1
  have hticks : (0 : ℚ) < config.clockTicksPerSecond.toNat := by exact_mod_cast config.ticks_pos
  have hindex : (index.toNat : ℚ) < index'.toNat := by
    exact_mod_cast UInt64.lt_iff_toNat_lt.mp h
  rw [frameTime, frameTime]
  gcongr

/-- A deadline that is computed is the instant of its frame. -/
theorem time_eq (h : Exact epoch config.period index deadline) :
    deadline.time = config.frameTime epoch index := by
  have hden : (config.period.denominator.toNat : ℚ) ≠ 0 := by
    exact_mod_cast config.period_spec.1.ne'
  rw [frameTime_eq, ← h.ticks_eq, FrameDeadline.time, h.denominator_eq]
  push_cast
  field_simp

variable {now : UInt64}

/-- A deadline is due from its instant on. -/
theorem isDue_iff (h : Exact epoch config.period index deadline) :
    deadline.isDue now = true ↔ config.frameTime epoch index ≤ now.toNat := by
  rw [FrameDeadline.isDue, decide_eq_true_iff, ge_iff_le, UInt64.le_iff_toNat_le, h.notBefore_eq,
    roundUp_le_iff h.ticks_eq h.numerator_lt, frameTime_le_iff]

theorem deadlineFrom_eq_none_iff :
    deadlineFrom epoch config.period index = none ↔
      ((2 ^ 64 - 1 : ℕ) : ℚ) < config.frameTime epoch index := by
  rw [deadlineFrom_eq_none config.period_spec.1, ← not_le, ← not_le, frameTime_le_iff]

/-- The instant of a frame has come when the frame fits in the time elapsed. -/
theorem frameTime_le_now_iff (hnow : epoch ≤ now) : config.frameTime epoch index ≤ now.toNat ↔
      index.toNat ≤ (now.toNat - epoch.toNat) * config.refreshRate.hz.toNat /
        config.clockTicksPerSecond.toNat := by
  have hhz : (0 : ℚ) < config.refreshRate.hz.toNat := by
    exact_mod_cast config.refreshRate.hz_bounds.1
  rw [UInt64.le_iff_toNat_le] at hnow
  obtain ⟨elapsed, helapsed⟩ := Nat.exists_eq_add_of_le hnow
  rw [helapsed, Nat.add_sub_cancel_left, Nat.le_div_iff_mul_le config.ticks_pos, frameTime,
    Nat.cast_add, add_le_add_iff_left, div_le_iff₀ hhz]
  exact_mod_cast Iff.rfl

end TimingConfig

end ExpOS.DisplayTiming
