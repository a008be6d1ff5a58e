/-
# `RedFireForge.Workflow.GraphLoad` — `runGraphLoad`

A workflow graph is run a number of times, a number of them at once.  With a
concurrency of one a loop awaits each iteration; otherwise `launchNext` starts
iterations up to the limit, and again from the callbacks of those that end.  The
end of an iteration has two parts: its results are added, and in a later callback
it is counted out.  Between any two parts other iterations, or an abort, may come.

Every start is followed by an end, so the books of `Lib.Jobs` are never short, and
the promise resolves in every run.
-/
import RedFireForge.Engine.Pool

namespace RedFireForge.Workflow

open RedFireForge.Lib
open RedFireForge.Engine (CircuitBreaker)

/-! ## The policy for `kafkaConsume` nodes -/

inductive KafkaConsumeLoadTestMode
  | autoResume | syntheticInject | waitForReal
deriving DecidableEq, Repr

inductive KafkaDecision
  | allow | warn | block
deriving DecidableEq, Repr

/-- `resolveKafkaConsumeLoadPolicy('workflow', …)` -/
def resolveKafkaConsumeLoadPolicy : Option KafkaConsumeLoadTestMode → KafkaDecision
  | some .waitForReal => .block
  | _ => .allow

/-! ## One iteration -/

/-- A result of `runGraph`, which leaves the iteration open. -/
structure StepResult where
  passed : Bool
  cancelled : Bool
  errorMessage : Option String
deriving DecidableEq, Repr

/-- A result of the load test. -/
structure IterationResult extends StepResult where
  iterationIndex : ℕ
deriving DecidableEq, Repr

def StepResult.tag (iterationIndex : ℕ) (r : StepResult) : IterationResult :=
  { r with iterationIndex := iterationIndex }

/-- How `runGraph` ends: `completed` is what it gave to `onComplete`, if it did. -/
inductive IterationEnd
  | returns (completed : Option (List StepResult)) (results : List StepResult)
  | throws (message : String)
deriving DecidableEq, Repr

def buildWorkflowMarkerResult (iterationIndex : ℕ) (cancelled : Bool) (errorMessage : String) :
    IterationResult where
  passed := false
  cancelled := cancelled
  errorMessage := some errorMessage
  iterationIndex := iterationIndex

/-- An abort marks what the iteration has. -/
def IterationResult.cancel (r : IterationResult) : IterationResult :=
  { r with
    cancelled := true
    errorMessage := (r.errorMessage.filter (· ≠ "")).or (some "Cancelled by user") }

/-- What `onComplete` was given, or what `runGraph` returned if that was nothing. -/
def targetResults (myIterationIndex : ℕ) (completed : Option (List StepResult))
    (results : List StepResult) : List IterationResult :=
  let iterationResults := (completed.getD []).map (StepResult.tag myIterationIndex)
  if iterationResults.length > 0 then iterationResults
  else results.map (StepResult.tag myIterationIndex)

/-- What the iteration pushes to `allResults`. -/
def finalResults (aborted : Bool) (myIterationIndex : ℕ) : IterationEnd → List IterationResult
  | .returns completed results =>
      let targetResults := targetResults myIterationIndex completed results
      if aborted then
        if targetResults.length = 0 then
          [buildWorkflowMarkerResult myIterationIndex true "Cancelled by user"]
        else targetResults.map IterationResult.cancel
      else targetResults
  | .throws message =>
      [buildWorkflowMarkerResult myIterationIndex aborted
        (if aborted then "Cancelled by user" else message)]

/-- A cancelled result is not recorded, but the marker of an exception is. -/
def recordIteration (breaker : CircuitBreaker) (out : IterationEnd)
    (results : List IterationResult) : CircuitBreaker :=
  match out with
  | .returns _ _ =>
      (results.filter (fun r => !r.cancelled)).foldl (fun b r => b.record r.passed) breaker
  | .throws _ => results.foldl (fun b r => b.record r.passed) breaker

theorem targetResults_tagged {i : ℕ} {completed : Option (List StepResult)}
    {results : List StepResult} {r : IterationResult} (hr : r ∈ targetResults i completed results) :
    r.iterationIndex = i := by
  have htag : ∀ rs : List StepResult, r ∈ rs.map (StepResult.tag i) → r.iterationIndex = i := by
    intro rs hr
    obtain ⟨r', -, rfl⟩ := List.mem_map.mp hr
    rfl
  unfold targetResults at hr
  dsimp only at hr
  split at hr
  · exact htag _ hr
  · exact htag _ hr

theorem finalResults_tagged {aborted : Bool} {i : ℕ} {out : IterationEnd} {r : IterationResult}
    (hr : r ∈ finalResults aborted i out) : r.iterationIndex = i := by
  cases out with
  | returns completed results =>
      simp only [finalResults] at hr
      split at hr
      · split at hr
        · rw [List.mem_singleton.mp hr]
          rfl
        · obtain ⟨r', hr', rfl⟩ := List.mem_map.mp hr
          have htag : r'.iterationIndex = i := targetResults_tagged hr'
          exact htag
      · exact targetResults_tagged hr
  | throws message =>
      rw [List.mem_singleton.mp hr]
      rfl

/-! ## The run -/

/-- `consumeModes` are the load-test modes of the `kafkaConsume` nodes. -/
structure GraphLoadRunOpts where
  iterations : ℕ
  concurrency : ℕ
  consumeModes : List (Option KafkaConsumeLoadTestMode)

/-- `launched` and `iterationCounter` are raised in one synchronous step: both are
`jobs.launched`.  `resolveCalls` counts the calls of `resolveAll`. -/
structure GraphLoad where
  jobs : Jobs (List IterationResult)
  breaker : CircuitBreaker
  aborted : Bool
  resolved : Bool
  resolveCalls : ℕ

namespace GraphLoad

/-- `abortSignal?.aborted || breaker?.shouldStop` -/
def stops (s : GraphLoad) : Bool := s.aborted || s.breaker.shouldStop

/-- The iterations' results, in the order they were added. -/
def allResults (s : GraphLoad) : List IterationResult := s.jobs.results.flatMap Prod.snd

def finish (s : GraphLoad) : GraphLoad :=
  if s.resolved then s else { s with resolved := true, resolveCalls := s.resolveCalls + 1 }

/-- The iterations it starts go on to `runGraph`: the flags they check first are
those the loop has just checked. -/
def launchNext (c : GraphLoadRunOpts) (s : GraphLoad) : GraphLoad :=
  let (jobs, _) := Jobs.startUpTo c.concurrency (some c.iterations) s.stops (fun _ => false) s.jobs
  let s := { s with jobs := jobs }
  if jobs.inFlight = 0 then s.finish else s

/-- The head of the loop for a concurrency of one. -/
def nextTurn (c : GraphLoadRunOpts) (s : GraphLoad) : GraphLoad :=
  if s.jobs.launched < c.iterations then
    if s.stops then s.finish else { s with jobs := s.jobs.start }
  else s.finish

def start (breaker : CircuitBreaker) (aborted : Bool) : GraphLoad where
  jobs := .new
  breaker := breaker
  aborted := aborted
  resolved := false
  resolveCalls := 0

end GraphLoad

open GraphLoad in
/-- The call; `none` when the policy blocks a node. -/
def runGraphLoad (c : GraphLoadRunOpts) (breaker : CircuitBreaker) (aborted : Bool) :
    Option GraphLoad :=
  if c.consumeModes.any (fun m => resolveKafkaConsumeLoadPolicy m = .block) then none
  else if c.concurrency ≤ 1 then some (nextTurn c (start breaker aborted))
  else some (launchNext c (start breaker aborted))

inductive GraphLoadChoice
  /-- `runGraph` of iteration `i` ends -/
  | settle (i : ℕ) (out : IterationEnd)
  /-- the end of an iteration is noticed: the `finally` callback, or the `await` of the loop -/
  | callback
  | abort
deriving DecidableEq, Repr

def graphLoadNext (c : GraphLoadRunOpts) : GraphLoadChoice → GraphLoad → Option GraphLoad
  | .settle i out, s =>
      if i ∈ s.jobs.running then
        let results := finalResults s.aborted i out
        some { s with
          jobs := s.jobs.settle i results
          breaker := recordIteration s.breaker out results }
      else none
  | .callback, s =>
      if 0 < s.jobs.due then
        let s := { s with jobs := s.jobs.collect }
        if c.concurrency ≤ 1 then some (s.nextTurn c)
        else if s.jobs.inFlight = 0 ∧ (s.jobs.launched ≥ c.iterations ∨ s.stops = true) then
          some s.finish
        else if s.stops = false then some (s.launchNext c)
        else some s
      else none
  | .abort, s => some { s with aborted := true }

/-! ## What the two loops do -/

/-- Both resolve the promise when they leave nothing in flight. -/
def GraphLoad.closing (s : GraphLoad) : GraphLoad := if s.jobs.inFlight = 0 then s.finish else s

section Loops

variable {c : GraphLoadRunOpts} {s s' : GraphLoad}

/-- `k` iterations are started: none at a stop, otherwise up to the limit or to the
last one. -/
structure Launches (c : GraphLoadRunOpts) (s s' : GraphLoad) (k : ℕ) : Prop where
  after : s' = GraphLoad.closing { s with jobs := s.jobs.startMany k }
  stopped : s.stops = true → k = 0
  limit : s.jobs.inFlight ≤ c.concurrency → s.jobs.inFlight + k ≤ c.concurrency
  bound : s.jobs.launched ≤ c.iterations → s.jobs.launched + k ≤ c.iterations
  filled : s.stops = true ∨ c.concurrency ≤ s.jobs.inFlight + k ∨ c.iterations ≤ s.jobs.launched + k

theorem launchNext_launches (c : GraphLoadRunOpts) (s : GraphLoad) :
    ∃ k, Launches c s (s.launchNext c) k := by
  have hstarts : Jobs.Starts c.concurrency (some c.iterations) s.stops (fun _ => false) s.jobs _ :=
    Jobs.startUpTo_starts
  unfold GraphLoad.launchNext
  generalize Jobs.startUpTo c.concurrency (some c.iterations) s.stops (fun _ => false) s.jobs = out
    at hstarts
  cases hstarts with
  | ended k hbefore hzero hlimit htotal hend =>
      refine ⟨k, rfl, hzero, hlimit, htotal c.iterations rfl, ?_⟩
      simpa using hend
  | threw k hbefore hstop hlimit htotal hthrow => cases hthrow

/-- One at a time, the loop does what `launchNext` would do. -/
theorem nextTurn_launches (hone : c.concurrency = 1) (hzero : s.jobs.inFlight = 0) :
    ∃ k, Launches c s (s.nextTurn c) k := by
  have hnone : GraphLoad.closing { s with jobs := s.jobs.startMany 0 } = s.finish := by
    rw [Jobs.startMany_zero]
    exact if_pos hzero
  unfold GraphLoad.nextTurn
  split
  next hmore =>
    split
    next hstop =>
      exact ⟨0, hnone.symm, fun _ => rfl, id, id, Or.inl hstop⟩
    next hstop =>
      have hstart : s.jobs.startMany 1 = s.jobs.start := by
        rw [Jobs.startMany_succ, Jobs.startMany_zero]
      refine ⟨1, ?_, fun h => absurd h hstop, fun _ => ?_, fun _ => hmore, Or.inr (Or.inl ?_)⟩
      · rw [hstart]
        exact (if_neg (Nat.succ_ne_zero _)).symm
      · omega
      · omega
  next hmore =>
    exact ⟨0, hnone.symm, fun _ => rfl, id, id, Or.inr (Or.inr (by omega))⟩

end Loops

/-! ## The invariant -/

structure GraphLoadInv (c : GraphLoadRunOpts) (s : GraphLoad) : Prop where
  jobs : s.jobs.Inv
  kept : ¬ s.jobs.Lost
  bound : s.jobs.launched ≤ c.iterations
  limit : s.jobs.inFlight ≤ c.concurrency
  resolved : s.resolved = true ↔ s.jobs.inFlight = 0
  calls : s.resolveCalls = if s.resolved then 1 else 0
  complete : s.resolved = true → s.stops = true ∨ s.jobs.launched = c.iterations
  tagged : ∀ p ∈ s.jobs.results, ∀ r ∈ p.2, r.iterationIndex = p.1

section Steps

variable {c : GraphLoadRunOpts} {s s' : GraphLoad} {ch : GraphLoadChoice} {k : ℕ}

@[simp] theorem closing_jobs : s.closing.jobs = s.jobs := by
  unfold GraphLoad.closing GraphLoad.finish
  split
  · split <;> rfl
  · rfl

/-- The books of a state that has not resolved, before it is closed. -/
structure Unresolved (c : GraphLoadRunOpts) (s : GraphLoad) : Prop where
  jobs : s.jobs.Inv
  kept : ¬ s.jobs.Lost
  bound : s.jobs.launched ≤ c.iterations
  limit : s.jobs.inFlight ≤ c.concurrency
  resolved : s.resolved = false
  calls : s.resolveCalls = 0
  tagged : ∀ p ∈ s.jobs.results, ∀ r ∈ p.2, r.iterationIndex = p.1

theorem Unresolved.closing (hU : Unresolved c s)
    (hend : s.jobs.inFlight = 0 → s.stops = true ∨ s.jobs.launched = c.iterations) :
    GraphLoadInv c s.closing := by
  unfold GraphLoad.closing
  split
  next hzero =>
    unfold GraphLoad.finish
    rw [if_neg (by simp [hU.resolved])]
    refine ⟨hU.jobs, hU.kept, hU.bound, hU.limit, iff_of_true rfl hzero, ?_, fun _ => hend hzero,
      hU.tagged⟩
    show s.resolveCalls + 1 = 1
    rw [hU.calls]
  next hzero =>
    refine ⟨hU.jobs, hU.kept, hU.bound, hU.limit, ?_, ?_, ?_, hU.tagged⟩
    · rw [hU.resolved]
      exact iff_of_false Bool.false_ne_true hzero
    · rw [hU.calls, hU.resolved]
      rfl
    · intro h
      rw [hU.resolved] at h
      cases h

/-- **A launch** keeps the books. -/
theorem Unresolved.launches (hU : Unresolved c s) (hM : 1 ≤ c.concurrency)
    (hl : Launches c s s' k) : GraphLoadInv c s' := by
  rw [hl.after]
  have hlost : ¬ (s.jobs.startMany k).Lost := fun h => hU.kept (Jobs.lost_startMany.mp h)
  refine Unresolved.closing ⟨hU.jobs.startMany k, hlost, hl.bound hU.bound, hl.limit hU.limit,
    hU.resolved, hU.calls, hU.tagged⟩ ?_
  intro hzero
  have hzero : s.jobs.inFlight + k = 0 := hzero
  have hbound := hl.bound hU.bound
  refine hl.filled.imp id (fun h => ?_)
  show s.jobs.launched + k = c.iterations
  omega

/-- What each step but the abort lowers: two for an iteration that has not ended,
one for an end that is not noticed. -/
def GraphLoad.stepsLeft (c : GraphLoadRunOpts) (s : GraphLoad) : ℕ :=
  2 * (c.iterations - s.jobs.launched) + 2 * s.jobs.running.length + s.jobs.due

theorem Launches.stepsLeft (hbound : s.jobs.launched ≤ c.iterations) (hl : Launches c s s' k) :
    s'.stepsLeft c = s.stepsLeft c := by
  have := hl.bound hbound
  rw [hl.after]
  simp only [GraphLoad.stepsLeft, closing_jobs, Jobs.startMany, List.length_append,
    List.length_range']
  omega

theorem GraphLoadInv.inFlight_eq (hI : GraphLoadInv c s) :
    s.jobs.inFlight = s.jobs.running.length + s.jobs.due := hI.jobs.inFlight_eq hI.kept

theorem GraphLoadInv.callback (hI : GraphLoadInv c s) (hM : 1 ≤ c.concurrency)
    (h : graphLoadNext c .callback s = some s') :
    GraphLoadInv c s' ∧ s'.stepsLeft c < s.stepsLeft c := by
  simp only [graphLoadNext] at h
  split at h
  next hdue =>
    have hflight := hI.inFlight_eq
    have hopen : s.resolved = false := by
      rw [← Bool.not_eq_true, hI.resolved]
      omega
    have hU : Unresolved c { s with jobs := s.jobs.collect } := by
      refine ⟨hI.jobs.collect hdue, hI.kept, hI.bound, ?_, hopen, ?_, hI.tagged⟩
      · exact Nat.le_trans (Nat.sub_le _ _) hI.limit
      · rw [hI.calls, hopen]
        rfl
    have hless : GraphLoad.stepsLeft c { s with jobs := s.jobs.collect } < s.stepsLeft c := by
      simp only [GraphLoad.stepsLeft, Jobs.collect]
      omega
    split at h
    next hone =>
      cases h
      have hzero : s.jobs.collect.inFlight = 0 := by
        have := hI.limit
        simp only [Jobs.collect]
        omega
      obtain ⟨k, hl⟩ := nextTurn_launches (s := { s with jobs := s.jobs.collect })
        (Nat.le_antisymm hone hM) hzero
      exact ⟨hU.launches hM hl, hl.stepsLeft hU.bound ▸ hless⟩
    next hmany =>
      split at h
      next hend =>
        cases h
        have hclose : GraphLoad.closing { s with jobs := s.jobs.collect } =
            GraphLoad.finish { s with jobs := s.jobs.collect } := if_pos hend.1
        refine ⟨hclose ▸ hU.closing (fun _ => ?_), ?_⟩
        · exact hend.2.symm.imp id (fun h => Nat.le_antisymm hI.bound h)
        · rw [← hclose]
          simpa only [GraphLoad.stepsLeft, closing_jobs] using hless
      next hend =>
        split at h
        next hstop =>
          cases h
          obtain ⟨k, hl⟩ := launchNext_launches c { s with jobs := s.jobs.collect }
          exact ⟨hU.launches hM hl, hl.stepsLeft hU.bound ▸ hless⟩
        next hstop =>
          cases h
          have hstop : s.stops = true := by
            rw [← Bool.not_eq_false]
            exact hstop
          have hpos : s.jobs.collect.inFlight ≠ 0 := fun hzero => hend ⟨hzero, Or.inr hstop⟩
          have hclose : GraphLoad.closing { s with jobs := s.jobs.collect } =
              { s with jobs := s.jobs.collect } := if_neg hpos
          exact ⟨hclose ▸ hU.closing (fun hzero => absurd hzero hpos), hless⟩
  next => cases h

/-- **One step** keeps the invariant and, unless it is an abort, leaves fewer to come. -/
theorem GraphLoadInv.step (hI : GraphLoadInv c s) (hM : 1 ≤ c.concurrency)
    (h : graphLoadNext c ch s = some s') :
    GraphLoadInv c s' ∧ s'.stepsLeft c ≤ s.stepsLeft c ∧
      (ch ≠ .abort → s'.stepsLeft c < s.stepsLeft c) := by
  cases ch with
  | settle i out =>
      simp only [graphLoadNext] at h
      split at h
      next hi =>
        cases h
        have hless : 2 * (s.jobs.running.erase i).length + (s.jobs.due + 1) <
            2 * s.jobs.running.length + s.jobs.due := by
          rw [List.length_erase_of_mem hi]
          have := List.length_pos_of_mem hi
          omega
        refine ⟨⟨hI.jobs.settle hi, ?_, hI.bound, hI.limit, hI.resolved, hI.calls, ?_, ?_⟩, ?_, ?_⟩
        · exact fun h => hI.kept ((Jobs.lost_settle hi).mp h)
        · -- nothing runs once the promise has resolved
          intro hres
          have hzero := hI.resolved.mp hres
          have := hI.inFlight_eq
          have := List.length_pos_of_mem hi
          omega
        · intro p hp
          rcases List.mem_append.mp hp with hp | hp
          · exact hI.tagged p hp
          · rw [List.mem_singleton.mp hp]
            exact fun r hr => finalResults_tagged hr
        · simp only [GraphLoad.stepsLeft, Jobs.settle]
          omega
        · intro _
          simp only [GraphLoad.stepsLeft, Jobs.settle]
          omega
      next => cases h
  | callback =>
      obtain ⟨hI', hless⟩ := hI.callback hM h
      exact ⟨hI', Nat.le_of_lt hless, fun _ => hless⟩
  | abort =>
      cases h
      refine ⟨⟨hI.jobs, hI.kept, hI.bound, hI.limit, hI.resolved, hI.calls, fun _ => Or.inl ?_,
        hI.tagged⟩, Nat.le_refl _, fun h => absurd rfl h⟩
      simp [GraphLoad.stops]

theorem runGraphLoad_inv {breaker : CircuitBreaker} {aborted : Bool} (hM : 1 ≤ c.concurrency)
    (hcall : runGraphLoad c breaker aborted = some s) :
    GraphLoadInv c s ∧ s.stepsLeft c = 2 * c.iterations := by
  have hU : Unresolved c (GraphLoad.start breaker aborted) :=
    ⟨Jobs.new_inv.1, Jobs.new_inv.2, Nat.zero_le _, Nat.zero_le _, rfl, rfl, nofun⟩
  have hstart : (GraphLoad.start breaker aborted).stepsLeft c = 2 * c.iterations := by
    simp [GraphLoad.stepsLeft, GraphLoad.start, Jobs.new]
  have hdone : ∀ {s' k}, Launches c (GraphLoad.start breaker aborted) s' k →
      GraphLoadInv c s' ∧ s'.stepsLeft c = 2 * c.iterations :=
    fun hl => ⟨hU.launches hM hl, (hl.stepsLeft hU.bound).trans hstart⟩
  unfold runGraphLoad at hcall
  split at hcall
  next => cases hcall
  next =>
    split at hcall
    next hone =>
      cases hcall
      obtain ⟨k, hl⟩ := nextTurn_launches (s := GraphLoad.start breaker aborted)
        (Nat.le_antisymm hone hM) rfl
      exact hdone hl
    next =>
      cases hcall
      obtain ⟨k, hl⟩ := launchNext_launches c (GraphLoad.start breaker aborted)
      exact hdone hl

end Steps

/-! ## Every iteration contributes once -/

/-- What is asked of a state of the load test. -/
structure GraphLoad.Correct (c : GraphLoadRunOpts) (s : GraphLoad) : Prop where
  /-- at most so many iterations are in flight -/
  limit : s.jobs.running.length ≤ c.concurrency
  /-- the indices handed out, of iterations that run and of those that have ended, are distinct
  and the first ones -/
  segment : s.jobs.accounted.Perm (List.range s.jobs.launched) ∧ s.jobs.launched ≤ c.iterations
  /-- the promise resolves at most once, and once when nothing is left to happen -/
  once : s.resolveCalls ≤ 1 ∧ (s.jobs.running = [] → s.jobs.due = 0 → s.resolveCalls = 1)
  /-- it resolves only when no iteration is in flight -/
  drained : s.resolveCalls = 1 → s.jobs.running = [] ∧ s.jobs.due = 0
  /-- then each iteration started has contributed its results, under its own index, once -/
  contributed : s.resolveCalls = 1 → ∀ i < s.jobs.launched,
    ∃ rs, s.jobs.results.filter (·.1 = i) = [(i, rs)] ∧
      s.allResults.filter (·.iterationIndex = i) = rs
  /-- without a stop all indices were handed out -/
  complete : s.resolveCalls = 1 → s.stops = false → s.jobs.launched = c.iterations

/-- Tagged results can be told apart again. -/
theorem filter_flatMap_tagged {results : List (ℕ × List IterationResult)} {i : ℕ}
    (htag : ∀ p ∈ results, ∀ r ∈ p.2, r.iterationIndex = p.1) :
    (results.flatMap Prod.snd).filter (·.iterationIndex = i) =
      (results.filter (·.1 = i)).flatMap Prod.snd := by
  induction results with
  | nil => rfl
  | cons p results ih =>
      rw [List.forall_mem_cons] at htag
      rw [List.flatMap_cons, List.filter_append, ih htag.2, List.filter_cons]
      split
      next hp =>
        have hp : p.1 = i := by simpa using hp
        have hall : p.2.filter (·.iterationIndex = i) = p.2 :=
          List.filter_eq_self.mpr (fun r hr => by simp [htag.1 r hr, hp])
        rw [hall, List.flatMap_cons]
      next hp =>
        have hp : p.1 ≠ i := by simpa using hp
        have hnone : p.2.filter (·.iterationIndex = i) = [] :=
          List.filter_eq_nil_iff.mpr (fun r hr => by simp [htag.1 r hr, hp])
        rw [hnone, List.nil_append]

theorem GraphLoadInv.correct {c : GraphLoadRunOpts} {s : GraphLoad} (hI : GraphLoadInv c s) :
    s.Correct c := by
  have hflight := hI.inFlight_eq
  have hcalls := hI.calls
  have hone : s.resolveCalls = 1 → s.resolved = true := by
    intro h
    by_contra hres
    rw [hcalls, if_neg hres] at h
    cases h
  have hempty : s.resolveCalls = 1 → s.jobs.running = [] ∧ s.jobs.due = 0 := by
    intro h
    have hzero := hI.resolved.mp (hone h)
    exact ⟨List.eq_nil_of_length_eq_zero (by omega), by omega⟩
  refine ⟨?_, ⟨?_, hI.bound⟩, ⟨?_, fun hrun hdue => ?_⟩, hempty, fun h i hi => ?_, fun h hstop => ?_⟩
  · have := hI.limit
    omega
  · refine (List.perm_ext_iff_of_nodup hI.jobs.distinct List.nodup_range).mpr (fun i => ?_)
    rw [List.mem_range]
    constructor
    · exact hI.jobs.launched i
    · intro hi
      by_contra hnot
      exact hI.kept ⟨i, hi, hnot⟩
  · rw [hcalls]
    split <;> omega
  · have hres := hI.resolved.mpr (by simp [hflight, hrun, hdue])
    rw [hcalls, if_pos hres]
  · have hcount := hI.jobs.count_eq_one hI.kept hi (by simp [(hempty h).1])
    have hlen : (s.jobs.results.filter (·.1 = i)).length = 1 := by
      rw [← List.countP_eq_length_filter, ← hcount, List.count, List.countP_map]
      exact List.countP_congr (fun p _ => by simp)
    obtain ⟨⟨i', rs⟩, hp⟩ := List.length_eq_one_iff.mp hlen
    have hi' : i' = i := by
      have hmem : (i', rs) ∈ s.jobs.results.filter (·.1 = i) := by simp [hp]
      simpa using (List.mem_filter.mp hmem).2
    subst hi'
    refine ⟨rs, hp, ?_⟩
    rw [GraphLoad.allResults, filter_flatMap_tagged hI.tagged, hp]
    simp
  · exact (hI.complete (hone h)).resolve_left (by simp [hstop])

def threeByTwo : GraphLoadRunOpts where
  iterations := 3
  concurrency := 2
  consumeModes := [some .autoResume]

end RedFireForge.Workflow
