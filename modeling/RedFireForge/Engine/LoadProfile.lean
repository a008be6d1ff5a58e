/-
# `RedFireForge.Engine.LoadProfile` — `runLoadProfile`

The run keeps as many scenarios in flight as its profile asks for at the time.
Three things start scenarios: the call itself, a ticker, and a timer or think-time
delay that each completion sets off.  When the profile is over, or a stop is seen,
whoever finds nothing in flight resolves the promise.
-/
import Mathlib.Algebra.Order.Ring.Rat
import Mathlib.Tactic.Linarith
import RedFireForge.Engine.Coverage

namespace RedFireForge.Engine

open RedFireForge.Lib

/-! ## The profile -/

inductive LoadProfileType
  | sustained | rampUp | spike
deriving DecidableEq, Repr

structure LoadProfileConfig where
  type : LoadProfileType
  durationSec : ℚ
  maxConcurrency : Int
  rampUpSec : Option ℚ := none
  spikeConcurrency : Option Int := none
  spikeStartSec : Option ℚ := none
  spikeDurationSec : Option ℚ := none
deriving DecidableEq, Repr

def LoadProfileConfig.durationMs (p : LoadProfileConfig) : ℚ := p.durationSec * 1000

/-- `rampUpSec || durationSec`: a ramp of no length counts as missing. -/
def LoadProfileConfig.rampSec (p : LoadProfileConfig) : ℚ :=
  (p.rampUpSec.filter (· ≠ 0)).getD p.durationSec

def LoadProfileConfig.spikeStart (p : LoadProfileConfig) : ℚ :=
  p.spikeStartSec.getD (p.durationSec * (3 / 10)).floor

def LoadProfileConfig.spikeDur (p : LoadProfileConfig) : ℚ :=
  p.spikeDurationSec.getD (p.durationSec * (1 / 5)).ceil

def getTargetConcurrency (profile : LoadProfileConfig) (elapsedMs : ℚ) : Int :=
  let elapsed := elapsedMs / 1000
  if elapsed ≥ profile.durationSec then 0
  else
    match profile.type with
    | .sustained => profile.maxConcurrency
    | .rampUp =>
        if profile.rampSec ≤ 0 ∨ elapsed ≥ profile.rampSec then profile.maxConcurrency
        else
          let t := elapsed / profile.rampSec
          max 1 (Rat.ceil (1 + (profile.maxConcurrency - 1) * t))
    | .spike =>
        let spikePeak := profile.spikeConcurrency.getD (profile.maxConcurrency * 3)
        if elapsed ≥ profile.spikeStart ∧ elapsed < profile.spikeStart + profile.spikeDur then
          max 1 spikePeak
        else max 1 profile.maxConcurrency

structure ScenarioWeight where
  scenarioId : String
  weight : ℕ
deriving DecidableEq, Repr

/-- The scenarios `buildWeightedIterator` goes round, before it shuffles them. -/
def weightedPool (scenarios : List Scenario) (weights : List ScenarioWeight) : List Scenario :=
  let active := weights.filter (fun w => 0 < w.weight)
  let pool := active.flatMap (fun sw =>
    ((scenarios.find? (fun s => s.id = sw.scenarioId)).map (List.replicate sw.weight)).getD [])
  if pool = [] then scenarios.take 1 else pool

/-- The arguments of `runLoadProfile`: `pool` is what the shuffle made of the
weighted pool, and `throws s` tells that the preparation of `s` throws. -/
structure LoadArgs where
  profile : LoadProfileConfig
  scenarios : List Scenario
  weights : List ScenarioWeight
  pool : List Scenario
  shuffled : pool.Perm (weightedPool scenarios weights)
  throws : Scenario → Bool

/-- The scenario of the `k`th call of the iterator, and of the `k`th launch. -/
def LoadArgs.nextScenario (c : LoadArgs) (k : ℕ) : Option Scenario := c.pool[k % c.pool.length]?

/-- `launchOne` throws after it has counted the launch: at the preparation of the
scenario, or because there is none. -/
def LoadArgs.launchThrows (c : LoadArgs) (k : ℕ) : Bool := (c.nextScenario k).all c.throws

/-! ## The run -/

/-- `thinking` counts the calls of `fillPool` that a timer or a think-time delay
makes.  `outcome` is how the promise was settled, `resolved` the flag of `finish`. -/
structure LoadRun where
  jobs : Jobs Bool
  thinking : ℕ
  elapsed : ℚ
  ticking : Bool
  timerStopped : Bool
  resolved : Bool
  breaker : CircuitBreaker
  aborted : Bool
  outcome : Option Outcome

namespace LoadRun

/-- `abortSignal?.aborted || breaker.shouldStop` -/
def stops (s : LoadRun) : Bool := s.aborted || s.breaker.shouldStop

/-- A stop was raised, or the time of the profile is up. -/
def expired (c : LoadArgs) (s : LoadRun) : Bool := s.stops || decide (s.elapsed ≥ c.profile.durationMs)

def finish (s : LoadRun) : LoadRun :=
  if s.resolved then s
  else
    { s with
      resolved := true
      timerStopped := true
      ticking := false
      outcome := s.outcome <|> some .resolved }

/-- `timerStopped = true; if (inFlight === 0) finish();` -/
def stopTimer (s : LoadRun) : LoadRun :=
  let s := { s with timerStopped := true }
  if s.jobs.inFlight = 0 then s.finish else s

/-- With whether `launchOne` threw. -/
def fillPool (c : LoadArgs) (s : LoadRun) : LoadRun × Bool :=
  if s.expired c then (s.stopTimer, false)
  else
    let target := getTargetConcurrency c.profile s.elapsed
    let (jobs, threw) := Jobs.startUpTo target.toNat none false c.launchThrows s.jobs
    ({ s with jobs := jobs }, threw)

/-- The state before the first `fillPool`, `elapsed` after the start time was read. -/
def start (breaker : CircuitBreaker) (aborted : Bool) (elapsed : ℚ) : LoadRun where
  jobs := .new
  thinking := 0
  elapsed := elapsed
  ticking := true
  timerStopped := false
  resolved := false
  breaker := breaker
  aborted := aborted
  outcome := none

end LoadRun

open LoadRun in
/-- The call.  The ticker is set before an exception rejects the promise. -/
def runLoadProfile (c : LoadArgs) (breaker : CircuitBreaker) (aborted : Bool) (elapsed : ℚ) :
    LoadRun :=
  match fillPool c (start breaker aborted elapsed) with
  | (s, true) => { s with outcome := some .rejected }
  | (s, false) => s

inductive LoadChoice
  /-- time passes -/
  | elapse (ms : ℚ)
  /-- the promise of launch `i` settles and its result, or an error result, is recorded -/
  | settle (i : ℕ) (passed : Bool)
  /-- a `finally` callback runs -/
  | callback
  /-- a timer or think-time delay is over -/
  | fill
  /-- the interval, with the time between its check and the one in `fillPool` -/
  | tick (ms : ℚ)
  | abort
deriving DecidableEq, Repr

def loadNext (c : LoadArgs) : LoadChoice → LoadRun → Option LoadRun
  | .elapse ms, s => if 0 ≤ ms then some { s with elapsed := s.elapsed + ms } else none
  | .settle i passed, s =>
      if i ∈ s.jobs.running then
        some { s with jobs := s.jobs.settle i passed, breaker := s.breaker.record passed }
      else none
  | .callback, s =>
      if 0 < s.jobs.due then
        let s := { s with jobs := s.jobs.collect }
        if s.stops then some s.stopTimer
        else if s.timerStopped && s.jobs.inFlight = 0 then some s.finish
        else if !s.timerStopped then some { s with thinking := s.thinking + 1 }
        else some s
      else none
  | .fill, s =>
      if 0 < s.thinking then some (LoadRun.fillPool c { s with thinking := s.thinking - 1 }).1 else none
  | .tick ms, s =>
      if s.ticking ∧ 0 ≤ ms then
        if s.expired c then some (LoadRun.stopTimer { s with ticking := false })
        else some (LoadRun.fillPool c { s with elapsed := s.elapsed + ms }).1
      else none
  | .abort, s => some { s with aborted := true }

/-! ## What holds in a state -/

/-- Nothing runs, and no completion is being handled. -/
def LoadRun.Quiet (s : LoadRun) : Prop := s.jobs.running = [] ∧ s.jobs.due = 0

instance (s : LoadRun) : Decidable s.Quiet := inferInstanceAs (Decidable (_ ∧ _))

/-- What is asked of a state of the run. -/
structure LoadRun.Correct (c : LoadArgs) (s : LoadRun) : Prop where
  /-- the counter counts what has no recorded result, and what the callbacks still subtract -/
  counter : s.jobs.inFlight = (s.jobs.launched - s.jobs.results.length) + s.jobs.due
  /-- each launch runs or has its result, and no two -/
  once : ∀ i < s.jobs.launched, s.jobs.accounted.count i = 1
  /-- nothing is launched once the promise is resolved -/
  closed : s.outcome = some .resolved →
    ∀ ch s', loadNext c ch s = some s' → s'.jobs.launched = s.jobs.launched
  /-- when the profile is over and nothing is left, the promise is resolved or a tick resolves it -/
  ends : s.expired c = true → s.Quiet → s.outcome = some .resolved ∨
    ∀ ms, 0 ≤ ms → ∃ s', loadNext c (.tick ms) s = some s' ∧ s'.outcome = some .resolved

/-- The next call of `fillPool` launches nothing that throws. -/
def fillsSafely (c : LoadArgs) (s : LoadRun) : Bool :=
  s.expired c ||
    (List.range' s.jobs.launched
      ((getTargetConcurrency c.profile s.elapsed).toNat - s.jobs.inFlight)).all
        (fun k => !c.launchThrows k)

/-- The same, of the call a step makes. -/
def stepFillsSafely (c : LoadArgs) : LoadChoice → LoadRun → Bool
  | .fill, s => fillsSafely c { s with thinking := s.thinking - 1 }
  | .tick ms, s => s.expired c || fillsSafely c { s with elapsed := s.elapsed + ms }
  | _, _ => true

structure LoadInv (c : LoadArgs) (s : LoadRun) : Prop where
  jobs : s.jobs.Inv
  /-- the timer is stopped for a reason that stays -/
  expired : s.timerStopped = true → s.expired c = true
  /-- whoever stops the timer resolves the promise, or a completion will -/
  waits : s.timerStopped = true → s.resolved = true ∨ 0 < s.jobs.inFlight
  ticks : s.ticking = true ∨ s.timerStopped = true
  drained : s.resolved = true → s.timerStopped = true ∧ s.jobs.inFlight = 0
  /-- only an exception rejects the promise -/
  outcome : s.jobs.Lost ∨ s.outcome = if s.resolved then some .resolved else none

section Fill

variable {c : LoadArgs} {s : LoadRun}

@[simp] theorem finish_jobs : s.finish.jobs = s.jobs := by
  unfold LoadRun.finish
  split <;> rfl

@[simp] theorem stopTimer_jobs : s.stopTimer.jobs = s.jobs := by
  unfold LoadRun.stopTimer
  dsimp only
  split <;> simp

/-- `finish` with the timer stopped and nothing in flight. -/
theorem LoadInv.finish (hI : s.jobs.Inv) (hstopped : s.timerStopped = true) (hover : s.expired c = true)
    (hzero : s.jobs.inFlight = 0)
    (hout : s.jobs.Lost ∨ s.outcome = if s.resolved then some .resolved else none) :
    LoadInv c s.finish ∧ s.finish.outcome = some .resolved := by
  have hlost : ¬ s.jobs.Lost := fun h => by have := hI.inFlight_pos h; omega
  have hout := hout.resolve_left hlost
  unfold LoadRun.finish
  split
  next hres =>
    rw [if_pos hres] at hout
    refine ⟨⟨hI, fun _ => hover, fun _ => Or.inl hres, Or.inr hstopped, fun _ => ⟨hstopped, hzero⟩, ?_⟩,
      hout⟩
    exact Or.inr (by rw [hout, if_pos hres])
  next hres =>
    rw [if_neg hres] at hout
    refine ⟨⟨hI, fun _ => hover, fun _ => Or.inl rfl, Or.inr rfl, fun _ => ⟨rfl, hzero⟩, ?_⟩, ?_⟩
    · exact Or.inr (by simp [hout])
    · simp [hout]

/-- Stopping the timer when the profile is over keeps the invariant, and resolves
the promise if nothing is in flight. -/
theorem LoadInv.stopTimer (hI : s.jobs.Inv) (hover : s.expired c = true)
    (hdrained : s.resolved = true → s.jobs.inFlight = 0)
    (hout : s.jobs.Lost ∨ s.outcome = if s.resolved then some .resolved else none) :
    LoadInv c s.stopTimer ∧ (s.jobs.inFlight = 0 → s.stopTimer.outcome = some .resolved) := by
  unfold LoadRun.stopTimer
  dsimp only
  split
  next hzero =>
    obtain ⟨hI', hres⟩ := LoadInv.finish (s := { s with timerStopped := true }) hI rfl hover hzero hout
    exact ⟨hI', fun _ => hres⟩
  next hzero =>
    refine ⟨⟨hI, fun _ => hover, fun _ => Or.inr (Nat.pos_of_ne_zero hzero), Or.inr rfl, ?_, hout⟩,
      fun h => absurd h hzero⟩
    exact fun hres => ⟨rfl, hdrained hres⟩

theorem fillsSafely_iff (hover : s.expired c = false) :
    fillsSafely c s = true ↔
      ∀ j < (getTargetConcurrency c.profile s.elapsed).toNat - s.jobs.inFlight,
        c.launchThrows (s.jobs.launched + j) = false := by
  simp only [fillsSafely, hover, Bool.false_or, List.all_eq_true, Bool.not_eq_true',
    List.mem_range'_1]
  constructor
  · intro h j hj
    exact h _ ⟨by omega, by omega⟩
  · rintro h i ⟨hle, hlt⟩
    have := h (i - s.jobs.launched) (by omega)
    rwa [Nat.add_sub_cancel' hle] at this

/-- **A call of `fillPool`** keeps the books.  It loses a launch exactly if it is
not safe, and launches nothing when the profile is over. -/
theorem LoadInv.fillPool (hI : LoadInv c s) :
    LoadInv c (s.fillPool c).1 ∧
      ((s.fillPool c).1.jobs.Lost ↔ s.jobs.Lost ∨ fillsSafely c s = false) ∧
      ((s.fillPool c).2 = true → (s.fillPool c).1.jobs.Lost) ∧
      (s.expired c = true → (s.fillPool c).1.jobs = s.jobs) := by
  unfold LoadRun.fillPool
  split
  next hover =>
    refine ⟨(LoadInv.stopTimer hI.jobs hover (fun h => (hI.drained h).2) hI.outcome).1, ?_, nofun, ?_⟩
    · simp [fillsSafely, hover]
    · exact fun _ => stopTimer_jobs
  next hover =>
    have hover : s.expired c = false := by simpa using hover
    have hgoing : s.timerStopped = false := by
      cases hstop : s.timerStopped with
      | false => rfl
      | true => rw [hI.expired hstop] at hover; cases hover
    have hticks : s.ticking = true := hI.ticks.resolve_right (by simp [hgoing])
    have hres : s.resolved = false := by
      cases hres : s.resolved with
      | false => rfl
      | true => rw [(hI.drained hres).1] at hgoing; cases hgoing
    have hsafe := fillsSafely_iff hover
    have hstarts : Jobs.Starts (getTargetConcurrency c.profile s.elapsed).toNat none false
        c.launchThrows s.jobs _ := Jobs.startUpTo_starts
    dsimp only
    generalize Jobs.startUpTo (getTargetConcurrency c.profile s.elapsed).toNat none false
      c.launchThrows s.jobs = out at hstarts
    have hstate : ∀ jobs : Jobs Bool, jobs.Inv → (s.jobs.Lost → jobs.Lost) →
        LoadInv c { s with jobs := jobs } := by
      intro jobs hjobs hlost
      refine ⟨hjobs, hI.expired, ?_, Or.inl hticks, ?_, hI.outcome.imp hlost id⟩
      · intro h
        rw [show s.timerStopped = true from h] at hgoing
        cases hgoing
      · intro h
        rw [show s.resolved = true from h] at hres
        cases hres
    cases hstarts with
    | ended k hbefore hzero hlimit htotal hend =>
        refine ⟨hstate _ (hI.jobs.startMany k) Jobs.lost_startMany.mpr, ?_, nofun, ?_⟩
        · have hall : fillsSafely c s = true := by
            rw [hsafe]
            intro j hj
            refine hbefore j ?_
            have : (getTargetConcurrency c.profile s.elapsed).toNat ≤ s.jobs.inFlight + k := by
              simpa using hend
            omega
          simp [Jobs.lost_startMany, hall]
        · intro h
          rw [hover] at h
          cases h
    | threw k hbefore hstop hlimit htotal hthrow =>
        obtain ⟨hlost, hjobs⟩ := (hI.jobs.startMany k).drop
        refine ⟨hstate _ hjobs (fun _ => hlost), ?_, fun _ => hlost, ?_⟩
        · refine iff_of_true hlost (Or.inr ?_)
          rw [← Bool.not_eq_true, hsafe]
          intro hall
          rw [hall k (by omega)] at hthrow
          cases hthrow
        · intro h
          rw [hover] at h
          cases h

end Fill

/-! ## Steps -/

section Steps

variable {c : LoadArgs} {s s' : LoadRun} {ch : LoadChoice}

theorem LoadInv.callback (hI : LoadInv c s) (h : loadNext c .callback s = some s') :
    LoadInv c s' ∧ s'.jobs = s.jobs.collect := by
  simp only [loadNext] at h
  split at h
  next hdue =>
    have hjobs := hI.jobs.collect hdue
    have hdrained : s.resolved = true → s.jobs.collect.inFlight = 0 := by
      intro hres
      have := (hI.drained hres).2
      simp only [Jobs.collect]
      omega
    split at h
    next hstop =>
      cases h
      have hover : s.expired c = true := by
        show (s.stops || _) = true
        rw [show s.stops = true from hstop]
        rfl
      exact ⟨(LoadInv.stopTimer (s := { s with jobs := s.jobs.collect }) hjobs hover hdrained
        hI.outcome).1, stopTimer_jobs⟩
    next hstop =>
      split at h
      next hend =>
        cases h
        obtain ⟨htimer, hzero⟩ : s.timerStopped = true ∧ s.jobs.collect.inFlight = 0 := by
          simpa using hend
        exact ⟨(LoadInv.finish (s := { s with jobs := s.jobs.collect }) hjobs htimer (hI.expired htimer)
          hzero hI.outcome).1, finish_jobs⟩
      next hend =>
        have hinv : ∀ n, LoadInv c { s with jobs := s.jobs.collect, thinking := n } := by
          intro n
          refine ⟨hjobs, hI.expired, ?_, hI.ticks, fun hres => ⟨(hI.drained hres).1, hdrained hres⟩,
            hI.outcome⟩
          intro htimer
          right
          have htimer : s.timerStopped = true := htimer
          simp only [htimer, Bool.true_and, decide_eq_true_eq] at hend
          exact Nat.pos_of_ne_zero hend
        split at h
        next => cases h; exact ⟨hinv _, rfl⟩
        next => cases h; exact ⟨hinv _, rfl⟩
  next => cases h

/-- **One step** keeps the invariant, loses a launch exactly if it is not safe, and
launches nothing once the promise is resolved. -/
theorem LoadInv.step (hI : LoadInv c s) (h : loadNext c ch s = some s') :
    LoadInv c s' ∧ (¬ s'.jobs.Lost ↔ ¬ s.jobs.Lost ∧ stepFillsSafely c ch s = true) ∧
      (s.resolved = true → s'.jobs.launched = s.jobs.launched) := by
  cases ch with
  | elapse ms =>
      simp only [loadNext] at h
      split at h
      next hms =>
        cases h
        refine ⟨⟨hI.jobs, fun hstop => ?_, hI.waits, hI.ticks, hI.drained, hI.outcome⟩, ?_, fun _ => rfl⟩
        · have hover := hI.expired hstop
          simp only [LoadRun.expired, LoadRun.stops, Bool.or_eq_true, decide_eq_true_eq] at hover ⊢
          exact hover.imp id (fun h => by linarith)
        · simp [stepFillsSafely]
      next => cases h
  | settle i passed =>
      simp only [loadNext] at h
      split at h
      next hi =>
        cases h
        have hlost : (s.jobs.settle i passed).Lost ↔ s.jobs.Lost := Jobs.lost_settle hi
        refine ⟨⟨hI.jobs.settle hi, fun hstop => ?_, hI.waits, hI.ticks, hI.drained, ?_⟩, ?_,
          fun _ => rfl⟩
        · have hover := hI.expired hstop
          simp only [LoadRun.expired, LoadRun.stops, Bool.or_eq_true] at hover ⊢
          exact hover.imp (Or.imp id CircuitBreaker.shouldStop_record) id
        · exact hI.outcome.imp hlost.mpr id
        · simp [stepFillsSafely, hlost]
      next => cases h
  | callback =>
      obtain ⟨hI', hjobs⟩ := hI.callback h
      refine ⟨hI', ?_, fun _ => by rw [hjobs]; rfl⟩
      rw [hjobs]
      simp only [stepFillsSafely, and_true]
      exact Iff.rfl
  | fill =>
      simp only [loadNext] at h
      split at h
      next =>
        cases h
        have hI₁ : LoadInv c { s with thinking := s.thinking - 1 } :=
          ⟨hI.jobs, hI.expired, hI.waits, hI.ticks, hI.drained, hI.outcome⟩
        obtain ⟨hI', hlost, -, hclosed⟩ := hI₁.fillPool
        refine ⟨hI', ?_, fun hres => ?_⟩
        · rw [hlost, not_or, Bool.not_eq_false]
          rfl
        · rw [hclosed (hI.expired (hI.drained hres).1)]
      next => cases h
  | tick ms =>
      simp only [loadNext] at h
      split at h
      next hgo =>
        split at h
        next hover =>
          cases h
          refine ⟨(LoadInv.stopTimer (s := { s with ticking := false }) hI.jobs hover
            (fun h => (hI.drained h).2) hI.outcome).1, ?_, fun _ => by rw [stopTimer_jobs]⟩
          rw [stopTimer_jobs]
          simp [stepFillsSafely, hover]
        next hover =>
          cases h
          have hI₁ : LoadInv c { s with elapsed := s.elapsed + ms } := by
            refine ⟨hI.jobs, fun hstop => ?_, hI.waits, hI.ticks, hI.drained, hI.outcome⟩
            exact absurd (hI.expired hstop) hover
          obtain ⟨hI', hlost, -, -⟩ := hI₁.fillPool
          refine ⟨hI', ?_, fun hres => absurd (hI.expired (hI.drained hres).1) hover⟩
          rw [hlost, not_or, Bool.not_eq_false]
          simp [stepFillsSafely, hover]
      next => cases h
  | abort =>
      cases h
      refine ⟨⟨hI.jobs, fun _ => ?_, hI.waits, hI.ticks, hI.drained, hI.outcome⟩, ?_, fun _ => rfl⟩
      · simp [LoadRun.expired, LoadRun.stops]
      · simp [stepFillsSafely]

theorem loadStart_inv (c : LoadArgs) (breaker : CircuitBreaker) (aborted : Bool) (elapsed : ℚ) :
    LoadInv c (LoadRun.start breaker aborted elapsed) :=
  ⟨Jobs.new_inv.1, nofun, nofun, Or.inl rfl, nofun, Or.inr rfl⟩

theorem runLoadProfile_inv (c : LoadArgs) (breaker : CircuitBreaker) (aborted : Bool) (elapsed : ℚ) :
    LoadInv c (runLoadProfile c breaker aborted elapsed) ∧
      (¬ (runLoadProfile c breaker aborted elapsed).jobs.Lost ↔
        fillsSafely c (LoadRun.start breaker aborted elapsed) = true) := by
  obtain ⟨hI, hlost, hthrew, -⟩ := (loadStart_inv c breaker aborted elapsed).fillPool
  have hnew : ¬ (LoadRun.start breaker aborted elapsed).jobs.Lost := Jobs.new_inv.2
  rw [or_iff_right hnew] at hlost
  unfold runLoadProfile
  split
  next s₁ hfill =>
    rw [hfill] at hI hlost hthrew
    have hlost₁ : s₁.jobs.Lost := hthrew rfl
    refine ⟨⟨hI.jobs, hI.expired, hI.waits, hI.ticks, hI.drained, Or.inl hlost₁⟩, ?_⟩
    rw [hlost, Bool.not_eq_false]
  next s₁ hfill =>
    rw [hfill] at hI hlost
    exact ⟨hI, by rw [hlost, Bool.not_eq_false]⟩

/-- A state is correct exactly if no launch is lost. -/
theorem LoadInv.correct_iff (hI : LoadInv c s) : s.Correct c ↔ ¬ s.jobs.Lost := by
  constructor
  · rintro h ⟨i, hi, hnot⟩
    have := h.once i hi
    rw [List.count_eq_zero_of_not_mem hnot] at this
    cases this
  · intro hlost
    have hout := hI.outcome.resolve_left hlost
    have hresolved : s.outcome = some .resolved → s.resolved = true := by
      intro h
      rw [h] at hout
      by_contra hres
      rw [if_neg hres] at hout
      cases hout
    refine ⟨?_, fun i hi => ?_, fun h ch s' hs => ?_, fun hover hquiet => ?_⟩
    · have := hI.jobs.accounts
      have := hI.jobs.results_length hlost
      omega
    · refine List.count_eq_one_of_mem hI.jobs.distinct ?_
      by_contra hnot
      exact hlost ⟨i, hi, hnot⟩
    · exact (hI.step hs).2.2 (hresolved h)
    · have hzero : s.jobs.inFlight = 0 := by
        rw [hI.jobs.inFlight_eq hlost, hquiet.1, hquiet.2]
        rfl
      cases hstop : s.timerStopped with
      | true =>
          left
          have hres := (hI.waits hstop).resolve_right (by omega)
          rw [hout, if_pos hres]
      | false =>
          right
          intro ms hms
          have hticks : s.ticking = true := hI.ticks.resolve_right (by simp [hstop])
          refine ⟨LoadRun.stopTimer { s with ticking := false }, ?_, ?_⟩
          · simp [loadNext, hticks, hms, hover]
          · exact (LoadInv.stopTimer (s := { s with ticking := false }) hI.jobs hover
              (fun h => (hI.drained h).2) hI.outcome).2 hzero

end Steps

/-! ## Every launch is accounted for -/

def oneSecond : LoadProfileConfig where
  type := .sustained
  durationSec := 1
  maxConcurrency := 1

/-- Two scenarios in turn, the second of which cannot be prepared if `throws`. -/
def twoScenarios (throws : Bool) : LoadArgs where
  profile := oneSecond
  scenarios := [⟨"a", none⟩, ⟨"b", none⟩]
  weights := [⟨"a", 1⟩, ⟨"b", 1⟩]
  pool := [⟨"a", none⟩, ⟨"b", none⟩]
  shuffled := by decide
  throws s := throws && s.id = "b"

end RedFireForge.Engine
