/-
# `RedFireForge.Native.ArrivalRamp` — arrivals along a ramp

Translated from `compute_current_rps` and the producer of `run_constant_arrival` in
`arrival_executor.rs`.  The timer is ideal: a tick fires when it is due.  Every tick before
the end of the run is an arrival, launched or dropped; which of the two depends on the
requests that are under way, and is left open.
-/
import RedFireForge.Lib.Ramp
import RedFireForge.Lib.Run

namespace RedFireForge.Native

open RedFireForge.Lib

local instance atLeastTwo_two : Nat.AtLeastTwo 2 := ⟨le_rfl⟩

structure ArrivalRampConfig (K : Type*) where
  startRps : K
  endRps : K
  rampDurationSec : ℕ

def computeCurrentRps {K : Type*} [Field K] [LinearOrder K] (baseRps elapsedSec : K)
    (ramp : Option (ArrivalRampConfig K)) : K :=
  match ramp with
  | none => baseRps
  | some cfg =>
      let rampDur : K := cfg.rampDurationSec
      if rampDur ≤ 0 ∨ elapsedSec ≥ rampDur then max cfg.endRps 0
      else
        let t := elapsedSec / rampDur
        let start := max cfg.startRps 0
        let end' := max cfg.endRps 0
        start + (end' - start) * t

structure ArrivalConfig where
  scenarios : ℕ
  targetRps : ℚ
  durationSec : ℕ
  rampConfig : Option (ArrivalRampConfig ℚ)

/-- `tokio::time::interval`: when it ticks next, and how long after that. -/
structure Ticker where
  next : ℚ
  period : ℚ
deriving DecidableEq

def Ticker.tick (ticker : Ticker) : Ticker := { ticker with next := ticker.next + ticker.period }

/-- The first tick comes at once. -/
def Ticker.interval (now period : ℚ) : Ticker := ⟨now, period⟩

structure ArrivalProducer where
  clock : ℚ
  ticker : Ticker
  currentPeriod : ℚ
  launched : ℕ
  dropped : ℕ
deriving DecidableEq

def ArrivalConfig.rateAt (c : ArrivalConfig) (elapsedSec : ℚ) : ℚ :=
  computeCurrentRps c.targetRps elapsedSec c.rampConfig

namespace ArrivalProducer

def initialInterval (c : ArrivalConfig) : ℚ := 1 / max (c.rateAt 0) (1 / 1000)

/-- Before the loop, the immediate tick consumed; `none` where nothing is run. -/
def initial (c : ArrivalConfig) : Option ArrivalProducer :=
  if c.scenarios = 0 ∨ c.targetRps ≤ 0 then none
  else
    some { clock := 0
           ticker := (Ticker.interval 0 (initialInterval c)).tick
           currentPeriod := initialInterval c
           launched := 0
           dropped := 0 }

def awaitTick (p : ArrivalProducer) : ArrivalProducer :=
  { p with clock := p.ticker.next, ticker := p.ticker.tick }

/-- The rate is read again, and a new period replaces the ticker. -/
def adjust (c : ArrivalConfig) (p : ArrivalProducer) : ArrivalProducer :=
  if c.rampConfig.isSome then
    let currentRps := c.rateAt p.clock
    if currentRps > 0 then
      let newPeriod := 1 / currentRps
      if newPeriod ≠ p.currentPeriod then
        { p with
          ticker := (Ticker.interval p.clock newPeriod).tick
          currentPeriod := newPeriod }
      else p
    else p
  else p

/-- With a permit the request is launched, without one it is dropped. -/
def acquire (permit : Bool) (p : ArrivalProducer) : ArrivalProducer :=
  if permit then { p with launched := p.launched + 1 } else { p with dropped := p.dropped + 1 }

def arrivals (p : ArrivalProducer) : ℕ := p.launched + p.dropped

end ArrivalProducer

/-- Once round the loop; `none` where it breaks. -/
def producerNext (c : ArrivalConfig) (permit : Bool) (p : ArrivalProducer) : Option ArrivalProducer :=
  if p.clock ≥ c.durationSec then none
  else if p.awaitTick.clock ≥ c.durationSec then none
  else some ((p.awaitTick.adjust c).acquire permit)

/-- By the time `t` there have been `n` arrivals. -/
def ArrivalsBy (c : ArrivalConfig) (t : ℚ) (n : ℕ) : Prop :=
  ∃ p₀ permits p, ArrivalProducer.initial c = some p₀ ∧ exec (producerNext c) p₀ permits = some p ∧
    p.clock ≤ t ∧ t < p.ticker.next ∧ p.arrivals = n

/-- The curve, at every real time. -/
noncomputable def curve (c : ArrivalConfig) (x : ℝ) : ℝ :=
  computeCurrentRps (c.targetRps : ℝ) x
    (c.rampConfig.map fun cfg => ⟨(cfg.startRps : ℝ), (cfg.endRps : ℝ), cfg.rampDurationSec⟩)

/-- The arrivals follow the area under the curve, up to a factor of two and one request. -/
def FollowsCurve (c : ArrivalConfig) : Prop :=
  ∀ (t : ℚ) (n : ℕ), 0 ≤ t → t < c.durationSec → ArrivalsBy c t n →
    (∫ x in (0 : ℝ)..t, curve c x) / 2 - 1 ≤ n ∧ n ≤ 2 * (∫ x in (0 : ℝ)..t, curve c x) + 1

/-! ## The ticks -/

/-- When the second tick comes, if there is a ramp. -/
def secondTick (c : ArrivalConfig) : ℚ :=
  let first := ArrivalProducer.initialInterval c
  first + if 0 < c.rateAt first then 1 / c.rateAt first else first

structure Paced (c : ArrivalConfig) (p : ArrivalProducer) : Prop where
  next : p.ticker.next = p.clock + p.currentPeriod
  period : p.ticker.period = p.currentPeriod
  pos : 0 < p.currentPeriod
  clock : 0 ≤ p.clock
  start : p.arrivals = 0 → p.clock = 0 ∧ p.currentPeriod = ArrivalProducer.initialInterval c
  first : p.arrivals = 1 →
    p.clock = ArrivalProducer.initialInterval c ∧ p.clock + p.currentPeriod = secondTick c
  later : 2 ≤ p.arrivals → secondTick c ≤ p.clock
  rate_le : c.rateAt p.clock * p.currentPeriod ≤ 1
  rate_eq : 1 ≤ p.arrivals → 0 < c.rateAt p.clock → c.rateAt p.clock * p.currentPeriod = 1
  running : 1 ≤ p.arrivals → p.clock < c.durationSec

section Ticks

variable {c : ArrivalConfig} {cfg : ArrivalRampConfig ℚ} {p p' : ArrivalProducer} {permit : Bool}

@[simp] theorem arrivals_acquire : (p.acquire permit).arrivals = p.arrivals + 1 := by
  cases permit
  · exact (Nat.add_assoc _ _ _).symm
  · exact Nat.add_right_comm _ _ _

@[simp] theorem clock_acquire : (p.acquire permit).clock = p.clock := by cases permit <;> rfl

@[simp] theorem ticker_acquire : (p.acquire permit).ticker = p.ticker := by cases permit <;> rfl

@[simp] theorem currentPeriod_acquire : (p.acquire permit).currentPeriod = p.currentPeriod := by
  cases permit <;> rfl

/-- With a ramp, the ticker goes by the rate just read, unless that is zero. -/
theorem adjust_spec (hramp : c.rampConfig.isSome = true)
    (hnext : p.ticker.next = p.clock + p.currentPeriod) (hperiod : p.ticker.period = p.currentPeriod) :
    ∃ period, period = (if 0 < c.rateAt p.clock then 1 / c.rateAt p.clock else p.currentPeriod) ∧
      p.adjust c = { p with ticker := ⟨p.clock + period, period⟩, currentPeriod := period } := by
  have hticker : (⟨p.clock + p.currentPeriod, p.currentPeriod⟩ : Ticker) = p.ticker := by
    rw [← hnext, ← hperiod]
  have hsame : p = { p with ticker := ⟨p.clock + p.currentPeriod, p.currentPeriod⟩ } := by
    rw [hticker]
  refine ⟨_, rfl, ?_⟩
  unfold ArrivalProducer.adjust
  rw [if_pos hramp]
  dsimp only
  split
  next hrate =>
    split
    · rfl
    · next heq =>
        rw [not_not] at heq
        rw [heq]
        exact hsame
  next => exact hsame

theorem initialInterval_pos : 0 < ArrivalProducer.initialInterval c :=
  one_div_pos.mpr (lt_max_of_lt_right (by norm_num))

theorem paced_initial (hinit : ArrivalProducer.initial c = some p) : Paced c p ∧ p.arrivals = 0 := by
  unfold ArrivalProducer.initial at hinit
  split at hinit
  · cases hinit
  · cases hinit
    refine ⟨⟨rfl, rfl, initialInterval_pos, le_rfl, fun _ => ⟨rfl, rfl⟩, nofun, nofun, ?_, nofun, nofun⟩, rfl⟩
    show c.rateAt 0 * (1 / max (c.rateAt 0) (1 / 1000)) ≤ 1
    have hpos : 0 < max (c.rateAt 0) (1 / 1000) := lt_max_of_lt_right (by norm_num)
    rw [mul_one_div, div_le_one hpos]
    exact le_max_left _ _

/-- What a tick does: the next period is that of the rate just read. -/
theorem Paced.tick (h : Paced c p) (hramp : c.rampConfig.isSome = true)
    (hstep : producerNext c permit p = some p') :
    p'.arrivals = p.arrivals + 1 ∧ p'.clock = p.clock + p.currentPeriod ∧
      p'.clock < c.durationSec ∧
      p'.currentPeriod =
        (if 0 < c.rateAt p'.clock then 1 / c.rateAt p'.clock else p.currentPeriod) ∧
      p'.ticker = ⟨p'.clock + p'.currentPeriod, p'.currentPeriod⟩ := by
  unfold producerNext at hstep
  split at hstep
  · cases hstep
  · split at hstep
    · cases hstep
    next hend =>
      cases hstep
      have hnext : p.awaitTick.ticker.next = p.awaitTick.clock + p.awaitTick.currentPeriod := by
        simp [ArrivalProducer.awaitTick, Ticker.tick, h.period]
      obtain ⟨period, hperiod, hadjust⟩ := adjust_spec (p := p.awaitTick) hramp hnext h.period
      rw [hadjust]
      simp only [arrivals_acquire, clock_acquire, ticker_acquire, currentPeriod_acquire]
      exact ⟨rfl, h.next, not_le.mp hend, hperiod, trivial⟩

theorem Paced.step (h : Paced c p) (hramp : c.rampConfig.isSome = true)
    (hstep : producerNext c permit p = some p') :
    Paced c p' ∧ p'.arrivals = p.arrivals + 1 ∧ p'.clock = p.clock + p.currentPeriod := by
  obtain ⟨harrivals, hclock, hend, hperiod, hticker⟩ := h.tick hramp hstep
  have hpos : 0 < p'.currentPeriod := by
    rw [hperiod]
    split
    next hrate => exact one_div_pos.mpr hrate
    next => exact h.pos
  have hcarries : 0 < c.rateAt p'.clock → c.rateAt p'.clock * p'.currentPeriod = 1 := fun hrate => by
    rw [hperiod, if_pos hrate, mul_one_div_cancel hrate.ne']
  refine ⟨{ next := by rw [hticker]
            period := by rw [hticker]
            pos := hpos
            clock := by linarith [h.clock, h.pos]
            start := fun hzero => by omega
            first := fun hone => ?_
            later := fun htwo => ?_
            rate_le := ?_
            rate_eq := fun _ => hcarries
            running := fun _ => hend }, harrivals, hclock⟩
  · obtain ⟨hzero, hfirst⟩ := h.start (by omega)
    have hat : p'.clock = ArrivalProducer.initialInterval c := by rw [hclock, hzero, hfirst, zero_add]
    rw [hperiod, hat, hfirst]
    exact ⟨rfl, rfl⟩
  · rcases Nat.lt_or_ge p.arrivals 2 with hlt | hge
    · rw [hclock, (h.first (by omega)).2]
    · linarith [h.later hge, h.pos]
  · rcases le_or_gt (c.rateAt p'.clock) 0 with hrate | hrate
    · linarith [mul_nonpos_of_nonpos_of_nonneg hrate hpos.le]
    · exact (hcarries hrate).le

theorem initialInterval_lt_secondTick : ArrivalProducer.initialInterval c < secondTick c := by
  refine lt_add_of_pos_right _ ?_
  split
  next hrate => exact one_div_pos.mpr hrate
  next => exact initialInterval_pos

theorem Paced.clock_pos (h : Paced c p) (hone : 1 ≤ p.arrivals) : 0 < p.clock := by
  rcases Nat.eq_or_lt_of_le hone with hone | htwo
  · rw [(h.first hone.symm).1]
    exact initialInterval_pos
  · exact (initialInterval_pos.trans initialInterval_lt_secondTick).trans_le (h.later htwo)

end Ticks

/-! ## The curve is a ramp -/

section Curve

variable {K : Type*} [Field K] [LinearOrder K]

theorem computeCurrentRps_eq_ramp {baseRps t : K} {cfg : ArrivalRampConfig K} (ht : 0 ≤ t) :
    computeCurrentRps baseRps t (some cfg) =
      ramp (computeCurrentRps baseRps 0 (some cfg)) (max cfg.endRps 0) cfg.rampDurationSec t := by
  rcases le_or_gt (cfg.rampDurationSec : K) 0 with hT | hT
  · rw [ramp_of_le (hT.trans ht)]
    simp only [computeCurrentRps, hT, true_or, if_true]
  · have hzero : computeCurrentRps baseRps 0 (some cfg) = max cfg.startRps 0 := by
      simp [computeCurrentRps, hT.not_ge]
    rw [hzero]
    simp only [computeCurrentRps, hT.not_ge, false_or, ramp, ge_iff_le]

variable [IsStrictOrderedRing K]

theorem computeCurrentRps_nonneg {baseRps t : K} {cfg : ArrivalRampConfig K} (ht : 0 ≤ t) :
    0 ≤ computeCurrentRps baseRps t (some cfg) := by
  unfold computeCurrentRps
  dsimp only
  split
  · exact le_max_right _ _
  · next hbefore =>
      rw [not_or, not_le, ge_iff_le, not_le] at hbefore
      have hshare : t / cfg.rampDurationSec ≤ 1 := (div_le_one hbefore.1).mpr hbefore.2.le
      have hback : max cfg.startRps 0 + (max cfg.endRps 0 - max cfg.startRps 0) * (t / cfg.rampDurationSec) =
          max cfg.startRps 0 * (1 - t / cfg.rampDurationSec) +
            max cfg.endRps 0 * (t / cfg.rampDurationSec) := by ring
      rw [hback]
      have hstart := mul_nonneg (le_max_right cfg.startRps 0) (sub_nonneg.mpr hshare)
      have hend := mul_nonneg (le_max_right cfg.endRps 0) (div_nonneg ht hbefore.1.le)
      exact add_nonneg hstart hend

end Curve

section Area

variable {c : ArrivalConfig} {cfg : ArrivalRampConfig ℚ} {t : ℚ}

/-- The area under the curve. -/
def areaAt (c : ArrivalConfig) (cfg : ArrivalRampConfig ℚ) (t : ℚ) : ℚ :=
  rampArea (c.rateAt 0) (max cfg.endRps 0) cfg.rampDurationSec t

theorem rateAt_eq_ramp (hramp : c.rampConfig = some cfg) (ht : 0 ≤ t) :
    c.rateAt t = ramp (c.rateAt 0) (max cfg.endRps 0) cfg.rampDurationSec t := by
  simp only [ArrivalConfig.rateAt, hramp]
  exact computeCurrentRps_eq_ramp ht

theorem rateAt_nonneg (hramp : c.rampConfig = some cfg) (ht : 0 ≤ t) : 0 ≤ c.rateAt t := by
  simp only [ArrivalConfig.rateAt, hramp]
  exact computeCurrentRps_nonneg ht

theorem curve_zero (hramp : c.rampConfig = some cfg) : curve c 0 = (c.rateAt 0 : ℝ) := by
  simp only [curve, ArrivalConfig.rateAt, hramp, Option.map_some, computeCurrentRps]
  rcases Nat.eq_zero_or_pos cfg.rampDurationSec with hT | hT
  · simp [hT]
  · simp [hT.ne']

theorem integral_curve (hramp : c.rampConfig = some cfg) (ht : 0 ≤ t) :
    ∫ x in (0 : ℝ)..t, curve c x = (areaAt c cfg t : ℝ) := by
  have ht' : (0 : ℝ) ≤ t := Rat.cast_nonneg.mpr ht
  have hcongr : Set.EqOn (curve c)
      (ramp (c.rateAt 0 : ℝ) (max cfg.endRps 0 : ℚ) (cfg.rampDurationSec : ℚ)) (Set.uIcc 0 (t : ℝ)) := by
    intro x hx
    rw [Set.uIcc_of_le ht'] at hx
    have hzero := curve_zero hramp
    simp only [curve, hramp, Option.map_some] at hzero ⊢
    rw [computeCurrentRps_eq_ramp hx.1, hzero]
    push_cast
    rfl
  rw [intervalIntegral.integral_congr hcongr, integral_ramp (by positivity) ht', areaAt, cast_rampArea]

theorem areaAt_zero : areaAt c cfg 0 = 0 := rampArea_zero (Nat.cast_nonneg _)

theorem areaAt_mono (hramp : c.rampConfig = some cfg) {u v : ℚ} (hu : 0 ≤ u) (huv : u ≤ v) :
    areaAt c cfg u ≤ areaAt c cfg v := by
  have hT : (0 : ℚ) ≤ cfg.rampDurationSec := Nat.cast_nonneg _
  have hwidth := sub_nonneg.mpr huv
  rcases le_total (c.rateAt 0) (max cfg.endRps 0) with hab | hab
  · have hrate := mul_nonneg (rateAt_nonneg hramp hu) hwidth
    rw [rateAt_eq_ramp hramp hu] at hrate
    exact sub_nonneg.mp (hrate.trans (ramp_mul_le hab hT hu huv))
  · have hrate := mul_nonneg (le_max_right cfg.endRps 0) hwidth
    exact sub_nonneg.mp (hrate.trans (end_mul_le hab hT hu huv))

theorem areaAt_nonneg (hramp : c.rampConfig = some cfg) (ht : 0 ≤ t) : 0 ≤ areaAt c cfg t := by
  rw [← @areaAt_zero c cfg]
  exact areaAt_mono hramp le_rfl ht

end Area

/-! ## The condition -/

/-- A rising ramp asks for at most two requests by the first tick and four by the second, as
far as the run gets.  A falling one ends before the second tick, or begins with at least one
request in a thousand seconds and ends before it has come down to zero. -/
def KeepsUp (c : ArrivalConfig) (cfg : ArrivalRampConfig ℚ) : Prop :=
  if c.rateAt 0 ≤ max cfg.endRps 0 ∧ 0 < max cfg.endRps 0 then
    areaAt c cfg (min (ArrivalProducer.initialInterval c) c.durationSec) ≤ 2 ∧
      areaAt c cfg (min (secondTick c) c.durationSec) ≤ 4
  else
    c.durationSec ≤ secondTick c ∨
      1 / 1000 ≤ c.rateAt 0 ∧ (0 < max cfg.endRps 0 ∨ c.durationSec ≤ cfg.rampDurationSec)

instance (c : ArrivalConfig) (cfg : ArrivalRampConfig ℚ) : Decidable (KeepsUp c cfg) := by
  unfold KeepsUp
  infer_instance

/-! ## A rising ramp -/

section Rising

variable {c : ArrivalConfig} {cfg : ArrivalRampConfig ℚ} {p p' : ArrivalProducer} {permit : Bool} {u : ℚ}

theorem rateAt_pos (hramp : c.rampConfig = some cfg) (hrise : c.rateAt 0 ≤ max cfg.endRps 0)
    (hend : 0 < max cfg.endRps 0) (hu : 0 < u) : 0 < c.rateAt u := by
  have hT : (0 : ℚ) ≤ cfg.rampDurationSec := Nat.cast_nonneg _
  rw [rateAt_eq_ramp hramp hu.le]
  rcases (rateAt_nonneg hramp le_rfl).eq_or_lt with hzero | hpos
  · rcases le_or_gt (cfg.rampDurationSec : ℚ) u with hTu | hTu
    · rwa [ramp_of_le hTu]
    · rw [ramp_of_lt hTu, ← hzero, sub_zero, zero_add]
      exact mul_pos (div_pos hend (hu.trans hTu)) hu
  · exact hpos.trans_le (le_ramp hrise hT hu.le)

theorem secondTick_eq (hramp : c.rampConfig = some cfg) (hrise : c.rateAt 0 ≤ max cfg.endRps 0)
    (hend : 0 < max cfg.endRps 0) : secondTick c =
      ArrivalProducer.initialInterval c + 1 / c.rateAt (ArrivalProducer.initialInterval c) := by
  rw [secondTick, if_pos (rateAt_pos hramp hrise hend initialInterval_pos)]

/-- From the second tick on a period brings at most two requests. -/
theorem areaAt_step_le (hramp : c.rampConfig = some cfg) (hrise : c.rateAt 0 ≤ max cfg.endRps 0)
    (hend : 0 < max cfg.endRps 0) (hu : secondTick c ≤ u) :
    areaAt c cfg (u + 1 / c.rateAt u) ≤ areaAt c cfg u + 2 := by
  have hT : (0 : ℚ) ≤ cfg.rampDurationSec := Nat.cast_nonneg _
  have hfirst := rateAt_pos hramp hrise hend (@initialInterval_pos c)
  rw [secondTick_eq hramp hrise hend] at hu
  have hpos : 0 < u := by
    have := one_div_pos.mpr hfirst
    linarith [@initialInterval_pos c]
  have hrate := rateAt_pos hramp hrise hend hpos
  rw [rateAt_eq_ramp hramp hpos.le] at hrate ⊢
  rw [rateAt_eq_ramp hramp initialInterval_pos.le] at hfirst hu
  refine rampArea_period_le_two hrise hT hpos.le hrate fun huT => ?_
  have := four_mul_slope_le hrise hT hfirst hu huT
  linarith [sq_nonneg (ramp (c.rateAt 0) (max cfg.endRps 0) cfg.rampDurationSec u)]

/-- Behind by at most one request, and ahead by a factor of at most two. -/
structure Rising (c : ArrivalConfig) (cfg : ArrivalRampConfig ℚ) (p : ArrivalProducer) : Prop where
  behind : 1 ≤ p.arrivals → (p.arrivals : ℚ) - 1 ≤ areaAt c cfg p.clock
  ahead : 2 ≤ p.arrivals → areaAt c cfg p.clock ≤ 2 * p.arrivals

theorem Rising.step (h : Rising c cfg p) (hp : Paced c p) (hramp : c.rampConfig = some cfg)
    (hrise : c.rateAt 0 ≤ max cfg.endRps 0) (hend : 0 < max cfg.endRps 0)
    (hsecond : areaAt c cfg (min (secondTick c) c.durationSec) ≤ 4)
    (hstep : producerNext c permit p = some p') : Rising c cfg p' := by
  have hT : (0 : ℚ) ≤ cfg.rampDurationSec := Nat.cast_nonneg _
  obtain ⟨hp', harrivals, hclock⟩ := hp.step (by rw [hramp]; rfl) hstep
  have hperiod : 1 ≤ p.arrivals → c.rateAt p.clock * p.currentPeriod = 1 := fun hone =>
    hp.rate_eq hone (rateAt_pos hramp hrise hend (hp.clock_pos hone))
  constructor
  · intro _
    rw [harrivals, Nat.cast_succ, add_sub_cancel_right]
    rcases Nat.eq_zero_or_pos p.arrivals with hzero | hone
    · rw [hzero, Nat.cast_zero]
      exact areaAt_nonneg hramp hp'.clock
    · have hdiff := @ramp_mul_le _ _ _ (c.rateAt 0) (max cfg.endRps 0) cfg.rampDurationSec
        p.clock p'.clock _ hrise hT hp.clock (by linarith [hp.pos])
      rw [← rateAt_eq_ramp hramp hp.clock, hclock, add_sub_cancel_left, hperiod hone] at hdiff
      have hbehind := h.behind hone
      rw [hclock]
      unfold areaAt at hbehind ⊢
      linarith
  · intro htwo
    have hone : 1 ≤ p.arrivals := by omega
    rcases Nat.eq_or_lt_of_le hone with hone | hmore
    · have hat : p'.clock = secondTick c := by rw [hclock, (hp.first hone.symm).2]
      rw [min_eq_left (hat ▸ (hp'.running (by omega)).le)] at hsecond
      rw [hat, harrivals, ← hone]
      exact hsecond.trans (by norm_num)
    · have hrate : p.currentPeriod = 1 / c.rateAt p.clock :=
        eq_one_div_of_mul_eq_one_right (hperiod hone)
      have hdiff := areaAt_step_le hramp hrise hend (hp.later hmore)
      have hahead := h.ahead hmore
      rw [hclock, hrate, harrivals]
      push_cast
      linarith

/-- Up to the next tick. -/
theorem Rising.bounds (h : Rising c cfg p) (hp : Paced c p) (hramp : c.rampConfig = some cfg)
    (hrise : c.rateAt 0 ≤ max cfg.endRps 0) (hend : 0 < max cfg.endRps 0)
    (hfirst : areaAt c cfg (min (ArrivalProducer.initialInterval c) c.durationSec) ≤ 2)
    (hsecond : areaAt c cfg (min (secondTick c) c.durationSec) ≤ 4) {t : ℚ}
    (hclock : p.clock ≤ t) (hnext : t < p.ticker.next) (ht : t < c.durationSec) :
    areaAt c cfg t / 2 - 1 ≤ p.arrivals ∧ p.arrivals ≤ 2 * areaAt c cfg t + 1 := by
  have ht0 : 0 ≤ t := hp.clock.trans hclock
  rw [hp.next] at hnext
  rcases Nat.lt_trichotomy p.arrivals 1 with hzero | hone | htwo
  · rw [Nat.lt_one_iff] at hzero
    obtain ⟨hstart, hperiod⟩ := hp.start hzero
    rw [hstart, zero_add, hperiod] at hnext
    have hle := (areaAt_mono hramp ht0 (le_min hnext.le ht.le)).trans hfirst
    have := areaAt_nonneg hramp ht0
    rw [hzero]
    constructor <;> push_cast <;> linarith
  · rw [(hp.first hone).2] at hnext
    have hle := (areaAt_mono hramp ht0 (le_min hnext.le ht.le)).trans hsecond
    have := areaAt_nonneg hramp ht0
    rw [hone]
    constructor <;> push_cast <;> linarith
  · have hrate : p.currentPeriod = 1 / c.rateAt p.clock :=
      eq_one_div_of_mul_eq_one_right
        (hp.rate_eq htwo.le (rateAt_pos hramp hrise hend (hp.clock_pos htwo.le)))
    rw [hrate] at hnext
    have hle := areaAt_mono hramp ht0 hnext.le
    have hmore := areaAt_mono hramp hp.clock hclock
    have hstep := areaAt_step_le hramp hrise hend (hp.later htwo)
    have hahead := h.ahead htwo
    have hbehind := h.behind htwo.le
    have hcount : (1 : ℚ) ≤ p.arrivals := by exact_mod_cast htwo.le
    constructor <;> linarith

end Rising

/-! ## A falling ramp -/

section Falling

variable {c : ArrivalConfig} {cfg : ArrivalRampConfig ℚ} {p p' : ArrivalProducer} {permit : Bool} {u : ℚ}

/-- Never ahead, and behind by a factor of at most two, or, past the end, by one more. -/
def Falling (c : ArrivalConfig) (cfg : ArrivalRampConfig ℚ) (p : ArrivalProducer) : Prop :=
  p.arrivals ≤ 2 * areaAt c cfg p.clock ∨
    cfg.rampDurationSec ≤ p.clock ∧ p.arrivals ≤ 2 * areaAt c cfg p.clock + 1

/-- A period of a falling ramp brings at most one request. -/
theorem areaAt_next_le (hp : Paced c p) (hramp : c.rampConfig = some cfg)
    (hfall : max cfg.endRps 0 ≤ c.rateAt 0) :
    areaAt c cfg (p.clock + p.currentPeriod) ≤ areaAt c cfg p.clock + 1 := by
  have hdiff := @rampArea_sub_le_mul _ _ _ (c.rateAt 0) (max cfg.endRps 0) cfg.rampDurationSec
    p.clock (p.clock + p.currentPeriod) _ hfall (Nat.cast_nonneg _) hp.clock
    (le_add_of_nonneg_right hp.pos.le)
  rw [← rateAt_eq_ramp hramp hp.clock, add_sub_cancel_left] at hdiff
  have := hp.rate_le
  unfold areaAt
  linarith

/-- From a thousandth on, the first period too is that of the rate. -/
theorem Paced.period_eq (hp : Paced c p) (hstart : 1 / 1000 ≤ c.rateAt 0)
    (hrate : 0 < c.rateAt p.clock) : p.currentPeriod = 1 / c.rateAt p.clock := by
  rcases Nat.eq_zero_or_pos p.arrivals with hzero | hone
  · obtain ⟨hclock, hperiod⟩ := hp.start hzero
    rw [hperiod, hclock, ArrivalProducer.initialInterval, max_eq_left hstart]
  · exact eq_one_div_of_mul_eq_one_right (hp.rate_eq hone hrate)

theorem Falling.step (h : Falling c cfg p) (hp : Paced c p) (hramp : c.rampConfig = some cfg)
    (hfall : max cfg.endRps 0 ≤ c.rateAt 0) (hstart : 1 / 1000 ≤ c.rateAt 0)
    (hend : 0 < max cfg.endRps 0 ∨ (c.durationSec : ℚ) ≤ cfg.rampDurationSec)
    (hstep : producerNext c permit p = some p') : Falling c cfg p' := by
  have hT : (0 : ℚ) ≤ cfg.rampDurationSec := Nat.cast_nonneg _
  obtain ⟨hp', harrivals, hclock⟩ := hp.step (by rw [hramp]; rfl) hstep
  have hrunning := hp'.running (by omega)
  have hcount : (p'.arrivals : ℚ) = p.arrivals + 1 := by rw [harrivals, Nat.cast_succ]
  rcases le_or_gt (cfg.rampDurationSec : ℚ) p.clock with hpast | hbefore
  · -- past the end the rate is constant, and not zero
    have hb : 0 < max cfg.endRps 0 := hend.resolve_right fun hle => by linarith [hp.pos]
    have hrate : c.rateAt p.clock = max cfg.endRps 0 := by
      rw [rateAt_eq_ramp hramp hp.clock, ramp_of_le hpast]
    have hperiod := hp.period_eq hstart (hrate ▸ hb)
    rw [rateAt_eq_ramp hramp hp.clock] at hrate hperiod
    have hone := rampArea_period_of_le hpast (hrate ▸ hb)
    left
    rw [hcount, hclock, hperiod, areaAt, hone]
    unfold Falling areaAt at h
    rcases h with h | ⟨-, h⟩ <;> linarith
  · have hbehind : (p.arrivals : ℚ) ≤ 2 * areaAt c cfg p.clock :=
      h.resolve_right fun hpast => hbefore.not_ge hpast.1
    have hrate : 0 < ramp (c.rateAt 0) (max cfg.endRps 0) cfg.rampDurationSec p.clock :=
      ramp_pos_of_lt (le_max_right _ _) (by linarith) hp.clock hbefore
    have hperiod := hp.period_eq hstart (by rwa [rateAt_eq_ramp hramp hp.clock])
    rw [rateAt_eq_ramp hramp hp.clock] at hperiod
    have hmono := areaAt_mono hramp hp.clock (le_add_of_nonneg_right hp.pos.le)
    rw [← hclock] at hmono
    rcases half_le_rampArea_period hfall hT (le_max_right _ _) hp.clock hbefore hrate with hhalf | hover
    · rw [← hperiod, ← hclock] at hhalf
      left
      rw [hcount]
      unfold areaAt at hbehind ⊢
      linarith
    · rw [← hperiod, ← hclock] at hover
      exact .inr ⟨hover, by rw [hcount]; linarith⟩

theorem Falling.le (h : Falling c cfg p) : (p.arrivals : ℚ) ≤ 2 * areaAt c cfg p.clock + 1 := by
  rcases h with h | ⟨-, h⟩
  · linarith
  · exact h

end Falling

/-! ## Runs -/

section Runs

variable {c : ArrivalConfig} {cfg : ArrivalRampConfig ℚ} {p₀ p : ArrivalProducer} {permits : List Bool}

theorem paced_exec (hramp : c.rampConfig = some cfg) (hinit : ArrivalProducer.initial c = some p₀)
    (hrun : exec (producerNext c) p₀ permits = some p) : Paced c p :=
  exec_invariant' (fun _ _ _ hp hstep => (hp.step (by rw [hramp]; rfl) hstep).1)
    (paced_initial hinit).1 hrun

theorem falling_bounds (hramp : c.rampConfig = some cfg) (hfall : max cfg.endRps 0 ≤ c.rateAt 0)
    (hkeeps : c.durationSec ≤ secondTick c ∨
      1 / 1000 ≤ c.rateAt 0 ∧ (0 < max cfg.endRps 0 ∨ c.durationSec ≤ cfg.rampDurationSec))
    (hinit : ArrivalProducer.initial c = some p₀) (hrun : exec (producerNext c) p₀ permits = some p)
    {t : ℚ} (hclock : p.clock ≤ t) (hnext : t < p.ticker.next) (ht : t < c.durationSec) :
    areaAt c cfg t / 2 - 1 ≤ p.arrivals ∧ p.arrivals ≤ 2 * areaAt c cfg t + 1 := by
  have hp := paced_exec hramp hinit hrun
  obtain ⟨hp₀, hzero⟩ := paced_initial hinit
  have hclock₀ := (hp₀.start hzero).1
  have hsome : c.rampConfig.isSome = true := by rw [hramp]; rfl
  have hahead : areaAt c cfg p.clock ≤ p.arrivals ∧ Paced c p := by
    refine exec_invariant' (I := fun p => areaAt c cfg p.clock ≤ p.arrivals ∧ Paced c p)
      (fun permit p p' h hstep => ?_) ⟨by rw [hclock₀, areaAt_zero]; positivity, hp₀⟩ hrun
    obtain ⟨hp', harrivals, hclock⟩ := h.2.step hsome hstep
    refine ⟨?_, hp'⟩
    rw [hclock, harrivals, Nat.cast_succ]
    exact (areaAt_next_le h.2 hramp hfall).trans (add_le_add_left h.1 1)
  have hbehind : (p.arrivals : ℚ) ≤ 2 * areaAt c cfg p.clock + 1 := by
    rcases hkeeps with hshort | ⟨hstart, hend⟩
    · have harea := areaAt_nonneg hramp hp.clock
      have hfew : p.arrivals ≤ 1 := by
        by_contra htwo
        have := hp.later (by omega)
        have := hp.running (by omega)
        linarith
      have : (p.arrivals : ℚ) ≤ 1 := by exact_mod_cast hfew
      linarith
    · have hfalling : Falling c cfg p ∧ Paced c p := by
        refine exec_invariant' (I := fun p => Falling c cfg p ∧ Paced c p)
          (fun permit p p' h hstep => ?_) ⟨.inl ?_, hp₀⟩ hrun
        · exact ⟨h.1.step h.2 hramp hfall hstart (hend.imp_right Nat.cast_le.mpr) hstep, (h.2.step hsome hstep).1⟩
        · rw [hzero, hclock₀, areaAt_zero]
          norm_num
      exact hfalling.1.le
  rw [hp.next] at hnext
  have hstep := areaAt_next_le hp hramp hfall
  have hupto := areaAt_mono hramp (hp.clock.trans hclock) hnext.le
  have hsince := areaAt_mono hramp hp.clock hclock
  have hcount : (0 : ℚ) ≤ p.arrivals := Nat.cast_nonneg _
  constructor <;> linarith [hahead.1]

theorem bounds_of_keepsUp (hramp : c.rampConfig = some cfg) (hkeeps : KeepsUp c cfg)
    (hinit : ArrivalProducer.initial c = some p₀) (hrun : exec (producerNext c) p₀ permits = some p)
    {t : ℚ} (hclock : p.clock ≤ t) (hnext : t < p.ticker.next) (ht : t < c.durationSec) :
    areaAt c cfg t / 2 - 1 ≤ p.arrivals ∧ p.arrivals ≤ 2 * areaAt c cfg t + 1 := by
  have hp := paced_exec hramp hinit hrun
  obtain ⟨hp₀, hzero⟩ := paced_initial hinit
  unfold KeepsUp at hkeeps
  split at hkeeps
  next hup =>
    have hrising : Rising c cfg p ∧ Paced c p :=
      exec_invariant' (I := fun p => Rising c cfg p ∧ Paced c p)
        (fun _ _ _ h hstep => ⟨h.1.step h.2 hramp hup.1 hup.2 hkeeps.2 hstep,
          (h.2.step (by rw [hramp]; rfl) hstep).1⟩)
        ⟨⟨fun h => by omega, fun h => by omega⟩, hp₀⟩ hrun
    exact hrising.1.bounds hp hramp hup.1 hup.2 hkeeps.1 hkeeps.2 hclock hnext ht
  next hdown =>
    have hfall : max cfg.endRps 0 ≤ c.rateAt 0 := by
      rcases le_or_gt (max cfg.endRps 0) (c.rateAt 0) with h | h
      · exact h
      · exact absurd ⟨h.le, (rateAt_nonneg hramp le_rfl).trans_lt h⟩ hdown
    exact falling_bounds hramp hfall hkeeps hinit hrun hclock hnext ht

/-! ## The other direction, for a rising ramp -/

theorem arrivalsBy_none (hinit : ArrivalProducer.initial c = some p₀) {t : ℚ} (ht : 0 ≤ t)
    (hlt : t < ArrivalProducer.initialInterval c) : ArrivalsBy c t 0 := by
  obtain ⟨hp, hzero⟩ := paced_initial hinit
  obtain ⟨hclock, hperiod⟩ := hp.start hzero
  refine ⟨p₀, [], p₀, hinit, rfl, hclock.trans_le ht, ?_, hzero⟩
  rwa [hp.next, hclock, hperiod, zero_add]

theorem arrivalsBy_one (hramp : c.rampConfig = some cfg) (hinit : ArrivalProducer.initial c = some p₀)
    (hrun : ArrivalProducer.initialInterval c < c.durationSec) {t : ℚ}
    (ht : ArrivalProducer.initialInterval c ≤ t) (hlt : t < secondTick c) : ArrivalsBy c t 1 := by
  obtain ⟨hp, hzero⟩ := paced_initial hinit
  obtain ⟨hclock, hperiod⟩ := hp.start hzero
  have hnext : p₀.ticker.next = ArrivalProducer.initialInterval c := by
    rw [hp.next, hclock, hperiod, zero_add]
  obtain ⟨p, hstep⟩ : ∃ p, producerNext c true p₀ = some p := by
    have hbegun : ¬ p₀.clock ≥ c.durationSec := by
      rw [hclock, ge_iff_le, not_le]
      exact initialInterval_pos.trans hrun
    have hended : ¬ p₀.awaitTick.clock ≥ c.durationSec := by
      rw [show p₀.awaitTick.clock = p₀.ticker.next from rfl, hnext]
      exact hrun.not_ge
    exact ⟨_, (if_neg hbegun).trans (if_neg hended)⟩
  obtain ⟨hp', harrivals, -⟩ := hp.step (by rw [hramp]; rfl) hstep
  rw [hzero, zero_add] at harrivals
  obtain ⟨hfirst, hsecond⟩ := hp'.first harrivals
  refine ⟨p₀, [true], p, hinit, exec_cons.mpr ⟨p, hstep, rfl⟩, hfirst.trans_le ht, ?_, harrivals⟩
  rwa [hp'.next, hsecond]

/-! ## Every time is reached -/

theorem rateAt_le (hramp : c.rampConfig = some cfg) {t : ℚ} (ht : 0 ≤ t) :
    c.rateAt t ≤ max (c.rateAt 0) (max cfg.endRps 0) := by
  have hT : (0 : ℚ) ≤ cfg.rampDurationSec := Nat.cast_nonneg _
  rw [rateAt_eq_ramp hramp ht]
  rcases le_total (c.rateAt 0) (max cfg.endRps 0) with hab | hab
  · exact (ramp_le_end hab hT).trans (le_max_right _ _)
  · exact (ramp_le hab hT ht).trans (le_max_left _ _)

/-- No period is shorter than that of the highest rate. -/
def shortestPeriod (c : ArrivalConfig) (cfg : ArrivalRampConfig ℚ) : ℚ :=
  1 / (max (max (c.rateAt 0) (max cfg.endRps 0)) (1 / 1000))

theorem shortestPeriod_le (hramp : c.rampConfig = some cfg) (hp : Paced c p)
    (hperiod : shortestPeriod c cfg ≤ p.currentPeriod) {p' : ArrivalProducer} {permit : Bool}
    (hstep : producerNext c permit p = some p') : shortestPeriod c cfg ≤ p'.currentPeriod := by
  obtain ⟨-, -, -, hnew, -⟩ := hp.tick (by rw [hramp]; rfl) hstep
  have hp' := (hp.step (by rw [hramp]; rfl) hstep).1
  rw [hnew]
  split
  next hrate =>
    exact one_div_le_one_div_of_le hrate ((rateAt_le hramp hp'.clock).trans (le_max_left _ _))
  next => exact hperiod

theorem exists_arrivalsBy (hramp : c.rampConfig = some cfg) (hinit : ArrivalProducer.initial c = some p₀)
    {t : ℚ} (ht : 0 ≤ t) (hlt : t < c.durationSec) : ∃ n, ArrivalsBy c t n := by
  by_contra hnone
  rw [not_exists] at hnone
  obtain ⟨hp₀, hzero⟩ := paced_initial hinit
  have hpos : 0 < shortestPeriod c cfg := one_div_pos.mpr (lt_max_of_lt_right (by norm_num))
  -- otherwise every tick comes by the time `t`
  have hticks : ∀ n : ℕ, ∃ permits p, exec (producerNext c) p₀ permits = some p ∧
      p.clock ≤ t ∧ shortestPeriod c cfg ≤ p.currentPeriod ∧ n * shortestPeriod c cfg ≤ p.clock := by
    intro n
    induction n with
    | zero =>
        obtain ⟨hclock, hperiod⟩ := hp₀.start hzero
        refine ⟨[], p₀, rfl, hclock.trans_le ht, ?_, by rw [hclock]; simp⟩
        rw [hperiod]
        exact one_div_le_one_div_of_le (lt_max_of_lt_right (by norm_num))
          (max_le_max_right _ (le_max_left _ _))
    | succ n ih =>
        obtain ⟨permits, p, hrun, hclock, hperiod, hcount⟩ := ih
        have hp := paced_exec hramp hinit hrun
        have hnext : p.ticker.next ≤ t := by
          by_contra hafter
          exact hnone _ ⟨p₀, permits, p, hinit, hrun, hclock, not_le.mp hafter, rfl⟩
        obtain ⟨p', hstep⟩ : ∃ p', producerNext c true p = some p' :=
          ⟨_, (if_neg (hclock.trans_lt hlt).not_ge).trans (if_neg (hnext.trans_lt hlt).not_ge)⟩
        obtain ⟨hp', -, hclock'⟩ := hp.step (by rw [hramp]; rfl) hstep
        refine ⟨permits ++ [true], p', exec_append.mpr ⟨p, hrun, exec_cons.mpr ⟨p', hstep, rfl⟩⟩, ?_,
          shortestPeriod_le hramp hp hperiod hstep, ?_⟩
        · rwa [hclock', ← hp.next]
        · rw [hclock', Nat.cast_succ, add_mul, one_mul]
          exact add_le_add hcount hperiod
  obtain ⟨n, hn⟩ := exists_nat_gt (t / shortestPeriod c cfg)
  obtain ⟨-, p, -, hclock, -, hcount⟩ := hticks n
  rw [div_lt_iff₀ hpos] at hn
  exact absurd (hcount.trans hclock) hn.not_ge

/-- What is asked for by a tick that has not come yet. -/
theorem area_le_of_follows (hramp : c.rampConfig = some cfg)
    (hrise : c.rateAt 0 ≤ max cfg.endRps 0) (hinit : ArrivalProducer.initial c = some p₀)
    (h : ∀ (t : ℚ) (n : ℕ), 0 ≤ t → t < c.durationSec → ArrivalsBy c t n →
      areaAt c cfg t / 2 - 1 ≤ n ∧ n ≤ 2 * areaAt c cfg t + 1) :
    areaAt c cfg (min (ArrivalProducer.initialInterval c) c.durationSec) ≤ 2 ∧
      areaAt c cfg (min (secondTick c) c.durationSec) ≤ 4 := by
  have hT : (0 : ℚ) ≤ cfg.rampDurationSec := Nat.cast_nonneg _
  have hfirst : areaAt c cfg (min (ArrivalProducer.initialInterval c) c.durationSec) ≤ 2 := by
    rcases Nat.eq_zero_or_pos c.durationSec with hzero | hpos
    · rw [hzero, Nat.cast_zero, min_eq_right initialInterval_pos.le, areaAt_zero]
      norm_num
    · refine rampArea_le_of_forall_lt hrise hT le_rfl
        (lt_min initialInterval_pos (Nat.cast_pos.mpr hpos)) fun t ht hlt => ?_
      obtain ⟨hlt₁, hlt⟩ := lt_min_iff.mp hlt
      have hbound := (h t 0 ht hlt (arrivalsBy_none hinit ht hlt₁)).1
      unfold areaAt at hbound
      push_cast at hbound
      linarith
  refine ⟨hfirst, ?_⟩
  rcases le_or_gt (c.durationSec : ℚ) (ArrivalProducer.initialInterval c) with hshort | hlong
  · rw [min_eq_right hshort] at hfirst
    rw [min_eq_right (hshort.trans initialInterval_lt_secondTick.le)]
    linarith
  · refine rampArea_le_of_forall_lt hrise hT initialInterval_pos.le
      (lt_min initialInterval_lt_secondTick hlong) fun t ht hlt => ?_
    obtain ⟨hlt₂, hlt⟩ := lt_min_iff.mp hlt
    have hbound := (h t 1 (initialInterval_pos.le.trans ht) hlt
      (arrivalsBy_one hramp hinit hlong ht hlt₂)).1
    unfold areaAt at hbound
    push_cast at hbound
    linarith

end Runs

/-- The bounds, in closed form. -/
theorem followsCurve_iff_area {c : ArrivalConfig} {cfg : ArrivalRampConfig ℚ}
    (hramp : c.rampConfig = some cfg) : FollowsCurve c ↔
      ∀ (t : ℚ) (n : ℕ), 0 ≤ t → t < c.durationSec → ArrivalsBy c t n →
        areaAt c cfg t / 2 - 1 ≤ n ∧ n ≤ 2 * areaAt c cfg t + 1 := by
  refine forall_congr' fun t => forall_congr' fun n => forall_congr' fun ht => ?_
  rw [integral_curve hramp ht]
  refine forall_congr' fun _ => forall_congr' fun _ => ?_
  constructor
  · rintro ⟨hlow, hhigh⟩
    exact ⟨by exact_mod_cast hlow, by exact_mod_cast hhigh⟩
  · rintro ⟨hlow, hhigh⟩
    exact ⟨by exact_mod_cast hlow, by exact_mod_cast hhigh⟩

theorem initial_isSome {c : ArrivalConfig} (hstart : 0 < c.scenarios ∧ 0 < c.targetRps) :
    ∃ p₀, ArrivalProducer.initial c = some p₀ := by
  have hruns : ¬ (c.scenarios = 0 ∨ c.targetRps ≤ 0) := by
    rw [not_or, not_le]
    exact ⟨hstart.1.ne', hstart.2⟩
  exact ⟨_, if_neg hruns⟩

def warmRamp : ArrivalConfig where
  scenarios := 1
  targetRps := 10
  durationSec := 60
  rampConfig := some ⟨10, 50, 30⟩

/-- From rest to a hundred requests a second. -/
def coldRamp : ArrivalConfig := { warmRamp with rampConfig := some ⟨0, 100, 30⟩ }

/-- Down to nothing in a second. -/
def haltingRamp : ArrivalConfig := { warmRamp with rampConfig := some ⟨1, 0, 1⟩ }

end RedFireForge.Native
