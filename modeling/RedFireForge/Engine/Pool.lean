/-
# `RedFireForge.Engine.Pool` — `runPool`

The pool starts scenarios up to a limit and starts more from the callbacks of
those that end.  A completion has two parts, the `then` that records the result
and the `finally` that decides how to go on; callbacks of other requests, the end
of think-time delays and the abort may come in between.  Its promise resolves
with `allResults` itself, so results recorded later are in that array too.
-/
import Mathlib
import RedFireForge.Lib.Jobs
import RedFireForge.Lib.Run

namespace RedFireForge.Engine

open RedFireForge.Lib

/-! ## The circuit breaker -/

inductive ErrorPolicy
  | continue | stopFirst | stopThreshold
deriving DecidableEq, Repr

/-- `rateReached e t` stands for `(e / t) * 100 >= maxErrorRate`, a comparison of
floating-point numbers. -/
structure CircuitBreaker where
  policy : ErrorPolicy
  maxErrors : Int
  rateReached : ℕ → ℕ → Bool
  minSampleSize : Int
  errorCount : ℕ := 0
  totalCount : ℕ := 0
  tripped : Bool := false

namespace CircuitBreaker

def record (b : CircuitBreaker) (passed : Bool) : CircuitBreaker :=
  let errorCount := if passed then b.errorCount else b.errorCount + 1
  let totalCount := b.totalCount + 1
  { b with
    errorCount := errorCount
    totalCount := totalCount
    tripped := b.tripped ||
      match b.policy with
      | .continue => false
      | .stopFirst => !passed
      | .stopThreshold =>
          decide ((errorCount : Int) ≥ b.maxErrors) ||
            (decide ((totalCount : Int) ≥ b.minSampleSize) && b.rateReached errorCount totalCount) }

def shouldStop (b : CircuitBreaker) : Bool := b.tripped

/-- A breaker never closes again. -/
theorem shouldStop_record {b : CircuitBreaker} {passed : Bool} (h : b.shouldStop = true) :
    (b.record passed).shouldStop = true := by
  have htripped : b.tripped = true := h
  simp [record, shouldStop, htripped]

@[simp] theorem record_policy {b : CircuitBreaker} {passed : Bool} :
    (b.record passed).policy = b.policy := rfl

/-- The policy `continue` never stops a run. -/
theorem shouldStop_record_continue {b : CircuitBreaker} {passed : Bool}
    (h : b.policy = .continue) : (b.record passed).shouldStop = b.shouldStop := by
  simp [record, h, shouldStop]

end CircuitBreaker

/-! ## The pool -/

/-- How the promise was settled first. -/
inductive Outcome
  | resolved | rejected
deriving DecidableEq, Repr

/-- The arguments of `runPool`: `total` is the length of the queue, and `throws i`
tells that the start of its `i`th scenario throws (`prepareScenario`, or an
`executeNonHttp` that throws before it returns a promise). -/
structure PoolArgs where
  concurrency : ℕ
  total : ℕ
  throws : ℕ → Bool

/-- `nextIdx` is `jobs.launched`, and `allResults` is `jobs.results`: a result is
the place in the queue of its scenario, and whether it passed.  The `finally`
callbacks to come are `jobs.due`; `thinking` counts the think-time delays that
`launch` follows. -/
structure Pool where
  jobs : Jobs Bool
  thinking : ℕ
  breaker : CircuitBreaker
  aborted : Bool
  outcome : Option Outcome

namespace Pool

/-- `abortSignal?.aborted || breaker.shouldStop` -/
def stops (s : Pool) : Bool := s.aborted || s.breaker.shouldStop

def resolve (s : Pool) : Pool := { s with outcome := s.outcome <|> some .resolved }

/-- What `launch` does after its loop. -/
def launched (c : PoolArgs) (s : Pool) (jobs : Jobs Bool) : Pool :=
  let s := { s with jobs := jobs }
  if jobs.launched ≥ c.total ∧ jobs.inFlight = 0 then s.resolve else s

/-- With whether the start of a scenario threw. -/
def launch (c : PoolArgs) (s : Pool) : Pool × Bool :=
  match Jobs.startUpTo c.concurrency (some c.total) s.stops c.throws s.jobs with
  | (jobs, true) => ({ s with jobs := jobs }, true)
  | (jobs, false) => (s.launched c jobs, false)

/-- The state before the first `launch`. -/
def start (breaker : CircuitBreaker) (aborted : Bool) : Pool where
  jobs := .new
  thinking := 0
  breaker := breaker
  aborted := aborted
  outcome := none

end Pool

open Pool in
/-- The call: what the executor of a promise throws rejects the promise. -/
def runPool (c : PoolArgs) (breaker : CircuitBreaker) (aborted : Bool) : Pool :=
  match launch c (start breaker aborted) with
  | (s, true) => { s with outcome := some .rejected }
  | (s, false) => s

inductive PoolChoice
  /-- the promise of scenario `i` settles and its result, or an error result, is recorded -/
  | settle (i : ℕ) (passed : Bool)
  /-- a `finally` callback runs -/
  | callback
  /-- a think-time delay is over -/
  | thought
  | abort
deriving DecidableEq, Repr

def poolNext (c : PoolArgs) : PoolChoice → Pool → Option Pool
  | .settle i passed, s =>
      if i ∈ s.jobs.running then
        some { s with jobs := s.jobs.settle i passed, breaker := s.breaker.record passed }
      else none
  | .callback, s =>
      if 0 < s.jobs.due then
        let s := { s with jobs := s.jobs.collect }
        if s.jobs.results.length ≥ c.total ∨ s.stops = true then some s.resolve
        else some { s with thinking := s.thinking + 1 }
      else none
  | .thought, s =>
      if 0 < s.thinking then some (Pool.launch c { s with thinking := s.thinking - 1 }).1 else none
  | .abort, s => some { s with aborted := true }

/-- No request is in flight and no think-time delay is pending. -/
def Pool.Idle (s : Pool) : Prop := s.jobs.running = [] ∧ s.jobs.due = 0 ∧ s.thinking = 0

instance (s : Pool) : Decidable s.Idle := inferInstanceAs (Decidable (_ ∧ _))

/-- The next call of `launch` neither throws nor finds a stop while nothing else
is left to resolve the promise. -/
def launchesSafely (c : PoolArgs) (s : Pool) : Bool :=
  if s.stops then
    decide (c.total ≤ s.jobs.launched) || decide (s.outcome = some .resolved) || !decide s.Idle
  else
    (List.range' s.jobs.launched
      (min (c.concurrency - s.jobs.inFlight) (c.total - s.jobs.launched))).all (fun i => !c.throws i)

/-- The same, of the call a step makes. -/
def thinksSafely (c : PoolArgs) : PoolChoice → Pool → Bool
  | .thought, s => launchesSafely c { s with thinking := s.thinking - 1 }
  | _, _ => true

/-! ## What a call of `launch` does -/

structure PoolInv (c : PoolArgs) (s : Pool) : Prop where
  jobs : s.jobs.Inv
  bound : s.jobs.launched ≤ c.total
  /-- only an exception rejects the promise -/
  rejected : s.jobs.Lost ∨ s.outcome ≠ some .rejected

/-- Nothing is lost, and when nothing is left to do the promise is resolved. -/
def Pool.Sound (s : Pool) : Prop := ¬ s.jobs.Lost ∧ (s.Idle → s.outcome = some .resolved)

section Launch

variable {c : PoolArgs} {s : Pool} {k : ℕ} {jobs : Jobs Bool}

@[simp] theorem launched_jobs : (s.launched c jobs).jobs = jobs := by
  unfold Pool.launched
  dsimp only
  split <;> rfl

theorem resolve_outcome (h : s.outcome ≠ some .rejected) : s.resolve.outcome = some .resolved := by
  unfold Pool.resolve
  match hout : s.outcome with
  | none => rfl
  | some .resolved => rfl
  | some .rejected => exact absurd hout h

theorem launched_outcome (h : s.outcome ≠ some .rejected) :
    (s.launched c jobs).outcome =
      if jobs.launched ≥ c.total ∧ jobs.inFlight = 0 then some .resolved else s.outcome := by
  unfold Pool.launched
  dsimp only
  split
  · exact resolve_outcome h
  · rfl

theorem launched_idle : (s.launched c jobs).Idle ↔ jobs.running = [] ∧ jobs.due = 0 ∧ s.thinking = 0 := by
  unfold Pool.launched Pool.Idle
  dsimp only
  split <;> rfl

theorem launchesSafely_of_not_stops (hstop : s.stops = false) :
    launchesSafely c s = true ↔
      ∀ j < min (c.concurrency - s.jobs.inFlight) (c.total - s.jobs.launched),
        c.throws (s.jobs.launched + j) = false := by
  simp only [launchesSafely, hstop, Bool.false_eq_true, if_false, List.all_eq_true, Bool.not_eq_true',
    List.mem_range'_1]
  constructor
  · intro h j hj
    exact h _ ⟨by omega, by omega⟩
  · rintro h i ⟨hle, hlt⟩
    have := h (i - s.jobs.launched) (by omega)
    rwa [Nat.add_sub_cancel' hle] at this

/-- What a call that does not throw leaves behind, when nothing was lost. -/
theorem PoolInv.sound_launched (hI : PoolInv c s) (hc : 1 ≤ c.concurrency) (hlost : ¬ s.jobs.Lost)
    (hzero : s.stops = true → k = 0)
    (hend : s.stops = true ∨ c.concurrency ≤ s.jobs.inFlight + k ∨ c.total ≤ s.jobs.launched + k) :
    (s.launched c (s.jobs.startMany k)).Sound ↔
      (s.stops = true → c.total ≤ s.jobs.launched ∨ s.outcome = some .resolved ∨ ¬ s.Idle) := by
  have hflight := hI.jobs.inFlight_eq hlost
  have hout := hI.rejected.resolve_left hlost
  have hlostk : ¬ (s.jobs.startMany k).Lost := fun h => hlost (Jobs.lost_startMany.mp h)
  have hidle : s.Idle → s.jobs.inFlight = 0 := by
    rintro ⟨hrun, hdue, -⟩
    simp [hflight, hrun, hdue]
  have hidlek : (s.launched c (s.jobs.startMany k)).Idle ↔ s.Idle ∧ k = 0 := by
    rw [launched_idle]
    simp only [Pool.Idle, Jobs.startMany, List.append_eq_nil_iff, List.range'_eq_nil_iff]
    tauto
  rw [Pool.Sound, launched_jobs, and_iff_right hlostk, hidlek, launched_outcome hout]
  simp only [Jobs.startMany, ge_iff_le]
  split
  next hdone =>
    refine iff_of_true (fun _ => rfl) (fun hstop => Or.inl ?_)
    have := hzero hstop
    omega
  next hdone =>
    constructor
    · intro h hstop
      by_cases hs : s.Idle
      · exact Or.inr (Or.inl (h ⟨hs, hzero hstop⟩))
      · exact Or.inr (Or.inr hs)
    · rintro h ⟨hs, rfl⟩
      have hzero := hidle hs
      have hstop : s.stops = true := hend.resolve_right (by omega)
      rcases h hstop with h | h | h
      · omega
      · exact h
      · exact absurd hs h

/-- **A call of `launch`** keeps the books; afterwards the pool is sound exactly if
nothing was lost before and the call is safe. -/
theorem PoolInv.launch (hI : PoolInv c s) (hc : 1 ≤ c.concurrency) :
    PoolInv c (Pool.launch c s).1 ∧
      ((Pool.launch c s).1.Sound ↔ ¬ s.jobs.Lost ∧ launchesSafely c s = true) ∧
        ((Pool.launch c s).2 = true → (Pool.launch c s).1.jobs.Lost) := by
  have hstarts : Jobs.Starts c.concurrency (some c.total) s.stops c.throws s.jobs _ :=
    Jobs.startUpTo_starts
  unfold Pool.launch
  generalize Jobs.startUpTo c.concurrency (some c.total) s.stops c.throws s.jobs = out at hstarts
  cases hstarts with
  | ended k hbefore hzero hlimit htotal hend =>
      simp only [Option.mem_def, Option.some.injEq, exists_eq_left'] at hend
      refine ⟨⟨?_, ?_, ?_⟩, ?_, nofun⟩
      · exact launched_jobs ▸ hI.jobs.startMany k
      · exact launched_jobs ▸ htotal c.total rfl hI.bound
      · rw [launched_jobs, Jobs.lost_startMany]
        refine hI.rejected.imp id (fun hout => ?_)
        rw [launched_outcome hout]
        split
        · exact nofun
        · exact hout
      · by_cases hlost : s.jobs.Lost
        · refine iff_of_false (fun h => h.1 ?_) (fun h => h.1 hlost)
          rw [launched_jobs]
          exact Jobs.lost_startMany.mpr hlost
        · rw [hI.sound_launched hc hlost hzero hend]
          cases hstop : s.stops with
          | true => simp [launchesSafely, hstop, hlost, or_assoc]
          | false =>
              have hsafe : launchesSafely c s = true := by
                rw [launchesSafely_of_not_stops hstop]
                intro j hj
                refine hbefore j ?_
                have := hend.resolve_left (by simp [hstop])
                omega
              simp [hsafe, hlost]
  | threw k hbefore hstop hlimit htotal hthrow =>
      have hlt : s.jobs.launched + k < c.total := htotal c.total rfl
      obtain ⟨hlost, hI'⟩ := (hI.jobs.startMany k).drop
      refine ⟨⟨hI', hlt, Or.inl hlost⟩, ?_, fun _ => hlost⟩
      constructor
      · exact fun h => absurd hlost h.1
      · rintro ⟨-, hsafe⟩
        have := (launchesSafely_of_not_stops hstop).mp hsafe k (by omega)
        rw [hthrow] at this
        cases this

end Launch

/-! ## Steps -/

section Steps

variable {c : PoolArgs} {s s' : Pool} {ch : PoolChoice}

theorem PoolInv.callback (hI : PoolInv c s) (h : poolNext c .callback s = some s') :
    PoolInv c s' ∧ (s'.jobs.Lost ↔ s.jobs.Lost) ∧ ¬ s.Idle ∧
      (¬ s.jobs.Lost → s'.Idle → s'.outcome = some .resolved) := by
  simp only [poolNext] at h
  split at h
  next hdue =>
    have hidle : ¬ s.Idle := fun hidle => by have := hidle.2.1; omega
    have hI₁ := hI.jobs.collect hdue
    have hres : s.outcome ≠ some .rejected →
        (Pool.resolve { s with jobs := s.jobs.collect }).outcome = some .resolved :=
      fun hout => resolve_outcome hout
    split at h
    next =>
      cases h
      refine ⟨⟨hI₁, hI.bound, hI.rejected.imp id (fun hout => ?_)⟩, Iff.rfl, hidle, fun hlost _ => ?_⟩
      · rw [hres hout]
        exact nofun
      · exact hres (hI.rejected.resolve_left hlost)
    next =>
      cases h
      refine ⟨⟨hI₁, hI.bound, hI.rejected⟩, Iff.rfl, hidle, ?_⟩
      exact fun _ hidle' => absurd hidle'.2.2 (Nat.succ_ne_zero _)
  next => cases h

theorem PoolInv.step (hI : PoolInv c s) (hc : 1 ≤ c.concurrency) (h : poolNext c ch s = some s') :
    PoolInv c s' ∧ (s'.Sound ↔ s.Sound ∧ thinksSafely c ch s = true) := by
  cases ch with
  | settle i passed =>
      simp only [poolNext] at h
      split at h
      next hi =>
        cases h
        have hlost : (s.jobs.settle i passed).Lost ↔ s.jobs.Lost := Jobs.lost_settle hi
        refine ⟨⟨hI.jobs.settle hi, hI.bound, hI.rejected.imp hlost.mpr id⟩, ?_⟩
        have hidle : ¬ s.Idle := fun hidle => by simp [hidle.1] at hi
        constructor
        · exact fun hs => ⟨⟨fun h => hs.1 (hlost.mpr h), fun h => absurd h hidle⟩, rfl⟩
        · exact fun hs => ⟨fun h => hs.1.1 (hlost.mp h), fun h => absurd h.2.1 (Nat.succ_ne_zero _)⟩
      next => cases h
  | callback =>
      obtain ⟨hI', hlost, hidle, hout⟩ := hI.callback h
      refine ⟨hI', ?_⟩
      simp only [Pool.Sound, hlost, thinksSafely, and_true]
      exact ⟨fun hs => ⟨hs.1, fun hi => absurd hi hidle⟩, fun hs => ⟨hs.1, hout hs.1⟩⟩
  | thought =>
      simp only [poolNext] at h
      split at h
      next hthink =>
        cases h
        have hI₁ : PoolInv c { s with thinking := s.thinking - 1 } := ⟨hI.jobs, hI.bound, hI.rejected⟩
        obtain ⟨hI', hsound, -⟩ := hI₁.launch hc
        refine ⟨hI', hsound.trans ?_⟩
        have hidle : ¬ s.Idle := fun hidle => by have := hidle.2.2; omega
        exact and_congr_left' ⟨fun hlost => ⟨hlost, fun hi => absurd hi hidle⟩, And.left⟩
      next => cases h
  | abort =>
      cases h
      exact ⟨⟨hI.jobs, hI.bound, hI.rejected⟩, by simp [thinksSafely]; rfl⟩

theorem start_inv (c : PoolArgs) (breaker : CircuitBreaker) (aborted : Bool) :
    PoolInv c (Pool.start breaker aborted) ∧ ¬ (Pool.start breaker aborted).jobs.Lost :=
  ⟨⟨Jobs.new_inv.1, Nat.zero_le _, Or.inr (by simp [Pool.start])⟩, Jobs.new_inv.2⟩

theorem runPool_inv (breaker : CircuitBreaker) (aborted : Bool) (hc : 1 ≤ c.concurrency) :
    PoolInv c (runPool c breaker aborted) ∧
      ((runPool c breaker aborted).Sound ↔ launchesSafely c (Pool.start breaker aborted) = true) := by
  obtain ⟨hI, hlost⟩ := start_inv c breaker aborted
  obtain ⟨hI', hsound, hthrew⟩ := hI.launch hc
  rw [and_iff_right hlost] at hsound
  unfold runPool
  split
  next s₁ hlaunch =>
    rw [hlaunch] at hI' hsound hthrew
    have hlost₁ : s₁.jobs.Lost := hthrew rfl
    refine ⟨⟨hI'.jobs, hI'.bound, Or.inl hlost₁⟩, ?_⟩
    rw [← hsound]
    exact iff_of_false (fun h => h.1 hlost₁) (fun h => h.1 hlost₁)
  next s₁ hlaunch =>
    rw [hlaunch] at hI' hsound
    exact ⟨hI', hsound⟩

end Steps

/-! ## The pool never gets stuck and loses nothing -/

/-- **The pool.**  In a state with no request in flight and no think-time delay
pending the promise is resolved, with one result for each scenario launched, if
and only if every call of `launch` was safe. -/
theorem runPool_settles_iff (c : PoolArgs) (breaker : CircuitBreaker) (aborted : Bool)
    (ls : List PoolChoice) (s : Pool) (hc : 1 ≤ c.concurrency)
    (hrun : exec (poolNext c) (runPool c breaker aborted) ls = some s) (hidle : s.Idle) :
    (s.outcome = some .resolved ∧
        ∀ i < s.jobs.launched, (s.jobs.results.map Prod.fst).count i = 1) ↔
      launchesSafely c (Pool.start breaker aborted) = true ∧
        AllSteps (poolNext c) (fun ch s => thinksSafely c ch s = true) (runPool c breaker aborted)
          ls := by
  obtain ⟨hI₀, hsound₀⟩ := runPool_inv breaker aborted hc
  have hstep : ∀ ch s s', PoolInv c s → poolNext c ch s = some s' →
      PoolInv c s' ∧ (s'.Sound ↔ s.Sound ∧ thinksSafely c ch s = true) :=
    fun _ _ _ hI h => hI.step hc h
  have hI : PoolInv c s := exec_invariant' (fun ch s s' hI h => (hstep ch s s' hI h).1) hI₀ hrun
  rw [← hsound₀, ← exec_iff_allSteps (P := Pool.Sound) hstep hI₀ hrun]
  constructor
  · rintro ⟨hout, hcount⟩
    refine ⟨?_, fun _ => hout⟩
    rintro ⟨i, hi, hnot⟩
    have := hcount i hi
    rw [List.count_eq_zero_of_not_mem (fun hmem => hnot (List.mem_append_right _ hmem))] at this
    cases this
  · rintro ⟨hlost, hout⟩
    exact ⟨hout hidle, fun i hi => hI.jobs.count_eq_one hlost hi (by simp [hidle.1])⟩

/-! ### Two scenarios, one at a time -/

/-- The default policy. -/
def lenient : CircuitBreaker where
  policy := .continue
  maxErrors := 10
  rateReached _ _ := false
  minSampleSize := 10

def twoInTurn : PoolArgs where
  concurrency := 1
  total := 2
  throws _ := false

theorem runPool_settles_iff_twoInTurn :
    ∃ s, exec (poolNext twoInTurn) (runPool twoInTurn lenient false)
        [.settle 0 true, .callback, .thought, .settle 1 false, .callback] = some s ∧
      s.Idle ∧ s.jobs.launched = 2 ∧ s.outcome = some .resolved ∧
      ∀ i < s.jobs.launched, (s.jobs.results.map Prod.fst).count i = 1 := by
  obtain ⟨s, hrun, hidle, hnext⟩ : ∃ s, exec (poolNext twoInTurn) (runPool twoInTurn lenient false)
      [.settle 0 true, .callback, .thought, .settle 1 false, .callback] = some s ∧
        s.Idle ∧ s.jobs.launched = 2 := exists_exec (by decide)
  exact ⟨s, hrun, hidle, hnext, (runPool_settles_iff twoInTurn lenient false _ s (by decide) hrun
    hidle).mpr (by decide)⟩

/-- An abort that is set at the call, or comes during the think time, leaves the
promise pending with nothing to wait for. -/
theorem aborted_pool_hangs :
    ((runPool twoInTurn lenient true).Idle ∧ (runPool twoInTurn lenient true).outcome = none) ∧
    ∃ s, exec (poolNext twoInTurn) (runPool twoInTurn lenient false)
        [.settle 0 true, .callback, .abort, .thought] = some s ∧ s.Idle ∧ s.outcome = none :=
  ⟨by decide, exists_exec (by decide)⟩

end RedFireForge.Engine
