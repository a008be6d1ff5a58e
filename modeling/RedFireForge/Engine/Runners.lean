/-
# `RedFireForge.Engine.Runners` — what the runners of `runTest` pass to `onProgress`

Each runner pushes results to one array, passes that array on, and returns it.  The
sequential and the batch runner are one loop; the pool, the load profile and the graph
load are the step functions of their own modules, with the calls they make.
-/
import RedFireForge.Engine.LoadProfile
import RedFireForge.Engine.Worker
import RedFireForge.Workflow.GraphLoad

namespace RedFireForge.Engine

open RedFireForge.Lib
open RedFireForge.Workflow (GraphLoad GraphLoadRunOpts GraphLoadChoice graphLoadNext runGraphLoad
  IterationResult StepResult)

/-- A result of a request, by the place of its scenario in the queue; of an iteration of
a graph; or of a step of a list of scenarios, with what only the workflow itself reads. -/
inductive Result
  | request (i : ℕ) (passed : Bool)
  | iteration (r : IterationResult)
  | step (iteration i : ℕ) (passed transient : Bool)
deriving DecidableEq, Repr

def requests (results : List (ℕ × Bool)) : List Result := results.map (fun p => .request p.1 p.2)

theorem requests_extend {results results' : List (ℕ × Bool)} (h : results <+: results') :
    requests results <+: requests results' := h.map _

theorem prefix_of_eq {α : Type*} {l l' : List α} (h : l' = l) : l <+: l' := h ▸ List.prefix_refl _

section Returned

variable {outcome : Option Outcome} {results l : List Result}

/-- The list of a promise, by how it was settled. -/
theorem returned_iff : (if outcome = some .resolved then some results else none) = some l ↔
    outcome = some .resolved ∧ l = results := by
  rw [Option.ite_none_right_eq_some, Option.some.injEq, eq_comm (a := results)]

theorem returned_isSome : (if outcome = some .resolved then some results else none).isSome = true ↔
    outcome = some .resolved := by
  split
  next h => exact iff_of_true rfl h
  next h => exact iff_of_false nofun h

end Returned

/-! ## Sequential and batch -/

/-- So many scenarios are awaited at once; `progressMeta` by the number of results. -/
structure SerialArgs where
  total : ℕ
  size : ℕ
  progressMeta : ℕ → Option ProgressMeta

structure Serial where
  /-- the index of the loop -/
  i : ℕ
  executing : Bool
  allResults : List (ℕ × Bool)
  breaker : CircuitBreaker
  aborted : Bool
  outcome : Option Outcome

/-- The head of the loop. -/
def Serial.turn (c : SerialArgs) (s : Serial) : Serial :=
  if s.i < c.total ∧ (s.aborted || s.breaker.shouldStop) = false then { s with executing := true }
  else { s with outcome := some .resolved }

inductive SerialChoice
  /-- the scenarios of the turn end, each passed or not -/
  | settle (passed : List Bool)
  | throws
  /-- the think time is over -/
  | thought
  | abort
deriving DecidableEq, Repr

def serialNext (c : SerialArgs) : SerialChoice → Serial → Option (Serial × List (ProgressCall Result))
  | .settle passed, s =>
      if s.executing ∧ passed.length = min c.size (c.total - s.i) then
        let allResults := s.allResults ++ passed.mapIdx (fun k p => (s.i + k, p))
        some ({ s with
            i := s.i + c.size
            executing := false
            allResults
            breaker := passed.foldl CircuitBreaker.record s.breaker },
          [{ completed := allResults.length, total := c.total, allResults := requests allResults,
             progressMeta := c.progressMeta allResults.length }])
      else none
  | .throws, s =>
      if s.executing then some ({ s with executing := false, outcome := some .rejected }, []) else none
  | .thought, s => if !s.executing ∧ s.outcome = none then some (s.turn c, []) else none
  | .abort, s => some ({ s with aborted := true }, [])

def serialRunner (c : SerialArgs) (breaker : CircuitBreaker) (aborted : Bool) : Runner Result where
  State := Serial
  Choice := SerialChoice
  start := (Serial.turn c ⟨0, false, [], breaker, aborted, none⟩, [])
  next := serialNext c
  returned s := if s.outcome = some .resolved then some (requests s.allResults) else none
  rejected s := decide (s.outcome = some .rejected)

/-- `runSequential`, turn by turn. -/
def sequentialTurns (total : ℕ) : CircuitBreaker → Bool → Runner Result :=
  serialRunner { total, size := 1, progressMeta := fun _ => none }

/-- `runBatch`, turn by turn. -/
def batchTurns (total concurrency : ℕ) : CircuitBreaker → Bool → Runner Result :=
  serialRunner
    { total
      size := concurrency
      progressMeta := fun completed => some
        { elapsedMs := 0
          targetConcurrency := concurrency
          currentInFlight := min concurrency (total - completed)
          durationMs := 0 } }

/-- Once settled nothing is awaited. -/
def SerialInv (s : Serial) : Prop := s.outcome ≠ none → s.executing = false

theorem turn_inv {c : SerialArgs} {s : Serial} (hout : s.outcome = none) (hexec : s.executing = false) :
    SerialInv (s.turn c) ∧ (s.turn c).allResults = s.allResults := by
  unfold Serial.turn SerialInv
  split
  · exact ⟨fun h => absurd hout h, rfl⟩
  · exact ⟨fun _ => hexec, rfl⟩

theorem serialNext_spec {c : SerialArgs} {ch : SerialChoice} {s s' : Serial}
    {calls : List (ProgressCall Result)} (hI : SerialInv s) (h : serialNext c ch s = some (s', calls)) :
    SerialInv s' ∧ s.allResults <+: s'.allResults ∧
      (∀ call ∈ calls, call.allResults = requests s'.allResults) ∧
      (s.outcome ≠ none → calls = [] ∧ s'.outcome = s.outcome) := by
  cases ch with
  | settle passed =>
      simp only [serialNext] at h
      split at h
      next hexec =>
        cases h
        have hopen : ¬ s.outcome ≠ none := by
          intro hout
          rw [hI hout] at hexec
          cases hexec.1
        refine ⟨fun hout => absurd hout hopen, List.prefix_append _ _, ?_, fun hout => absurd hout hopen⟩
        intro call hcall
        rw [List.mem_singleton.mp hcall]
      next => cases h
  | throws =>
      simp only [serialNext] at h
      split at h
      next hexec =>
        cases h
        refine ⟨fun _ => rfl, List.prefix_refl _, nofun, fun hout => ?_⟩
        rw [hI hout] at hexec
        cases hexec
      next => cases h
  | thought =>
      simp only [serialNext] at h
      split at h
      next hidle =>
        cases h
        have hexec : s.executing = false := by
          simpa using hidle.1
        obtain ⟨hinv, hresults⟩ := turn_inv (c := c) hidle.2 hexec
        exact ⟨hinv, hresults ▸ List.prefix_refl _, nofun, fun hout => absurd hidle.2 hout⟩
      next => cases h
  | abort =>
      cases h
      exact ⟨hI, List.prefix_refl _, nofun, fun _ => ⟨rfl, rfl⟩⟩

variable {β : Type} (f : Result → β)

/-- All results are passed on as they are. -/
def serialAppends (c : SerialArgs) (breaker : CircuitBreaker) (aborted : Bool) :
    AppendOnly (serialRunner c breaker aborted) f (fun _ _ => True) (fun _ => True) where
  Inv := SerialInv
  list s := (requests s.allResults).map f
  start := ⟨(turn_inv rfl rfl).1, nofun⟩
  step := by
    intro ch s s' calls hI _ h
    obtain ⟨hI', hlist, hcalls, -⟩ := serialNext_spec hI h
    exact ⟨hI', (requests_extend hlist).map f, fun call hcall => by rw [hcalls call hcall]⟩
  returned := by
    intro s l _ h
    rw [(returned_iff.mp h).2]
  quiet := by
    intro ch s s' calls hI _ hreturned _ h
    have hout := returned_isSome.mp hreturned
    obtain ⟨hcalls, hout'⟩ := (serialNext_spec hI h).2.2.2 (by rw [hout]; exact nofun)
    exact ⟨hcalls, returned_isSome.mpr (hout'.trans hout), trivial⟩

/-! ## The pool -/

def poolResult (s : Pool) : List Result := requests s.jobs.results

/-- The `finally` callback passes the results on before it looks whether to go on. -/
def poolCalls (c : PoolArgs) : PoolChoice → Pool → List (ProgressCall Result)
  | .callback, s =>
      [{ completed := s.jobs.results.length
         total := c.total
         allResults := poolResult s
         progressMeta := some
          { elapsedMs := 0
            targetConcurrency := c.concurrency
            currentInFlight := s.jobs.collect.inFlight
            durationMs := 0 } }]
  | _, _ => []

def poolRunner (c : PoolArgs) (breaker : CircuitBreaker) (aborted : Bool) : Runner Result where
  State := Pool
  Choice := PoolChoice
  start := (runPool c breaker aborted, [])
  next ch s := (poolNext c ch s).map (fun s' => (s', poolCalls c ch s))
  returned s := if s.outcome = some .resolved then some (poolResult s) else none
  rejected s := decide (s.outcome = some .rejected)

/-- The books of the pool, and why its promise was resolved. -/
structure PoolStream (c : PoolArgs) (s : Pool) : Prop where
  jobs : s.jobs.Inv
  bound : s.jobs.launched ≤ c.total
  resolved : s.outcome = some .resolved → s.stops = true ∨ c.total ≤ s.jobs.launched

theorem resolve_resolved {s : Pool} (h : s.outcome = some .resolved) :
    s.resolve.outcome = some .resolved := resolve_outcome (by rw [h]; exact nofun)

theorem launched_stream {c : PoolArgs} {s : Pool} {jobs : Jobs Bool} (h : PoolStream c s)
    (hjobs : jobs.Inv) (hbound : jobs.launched ≤ c.total) (hle : s.jobs.launched ≤ jobs.launched) :
    PoolStream c (s.launched c jobs) ∧
      (s.outcome = some .resolved → (s.launched c jobs).outcome = some .resolved) := by
  unfold Pool.launched
  dsimp only
  split
  next hend => exact ⟨⟨hjobs, hbound, fun _ => Or.inr hend.1⟩, fun hout => resolve_resolved hout⟩
  next =>
    exact ⟨⟨hjobs, hbound, fun hout => (h.resolved hout).imp_right (fun h => h.trans hle)⟩, id⟩

/-- `launch` starts what it may, and nothing once the promise is resolved. -/
theorem PoolStream.launch {c : PoolArgs} {s : Pool} (h : PoolStream c s) :
    PoolStream c (Pool.launch c s).1 ∧ (Pool.launch c s).1.jobs.results = s.jobs.results ∧
      (s.outcome = some .resolved → (Pool.launch c s).1.outcome = some .resolved ∧
        (Pool.launch c s).1.jobs = s.jobs) := by
  have hstarts : Jobs.Starts c.concurrency (some c.total) s.stops c.throws s.jobs _ :=
    Jobs.startUpTo_starts
  unfold Pool.launch
  have hnone := hstarts.none
  obtain ⟨hjobs, hresults, hbound⟩ := hstarts.inv h.jobs
  have hbound := hbound c.total rfl h.bound
  have hidle : s.outcome = some .resolved →
      Jobs.startUpTo c.concurrency (some c.total) s.stops c.throws s.jobs = (s.jobs, false) := by
    intro hout
    refine hnone ((h.resolved hout).imp_right (fun hlast => ?_))
    exact congrArg some (Nat.le_antisymm hlast h.bound)
  have hle : s.jobs.launched ≤
      (Jobs.startUpTo c.concurrency (some c.total) s.stops c.throws s.jobs).1.launched := by
    generalize Jobs.startUpTo c.concurrency (some c.total) s.stops c.throws s.jobs = out at hstarts
    cases hstarts with
    | ended k => exact Nat.le_add_right _ _
    | threw k => exact (Nat.le_add_right _ _).trans (Nat.le_succ _)
  split
  next jobs hout =>
    rw [hout] at hjobs hresults hbound hidle hle
    refine ⟨⟨hjobs, hbound, fun hres => ?_⟩, hresults, fun hres => ?_⟩
    · exact absurd (hidle hres) (by simp)
    · exact absurd (hidle hres) (by simp)
  next jobs hout =>
    rw [hout] at hjobs hresults hbound hidle hle
    obtain ⟨hstream, hresolved⟩ := launched_stream h hjobs hbound hle
    refine ⟨hstream, launched_jobs ▸ hresults, fun hres => ⟨hresolved hres, ?_⟩⟩
    rw [launched_jobs, (Prod.mk.inj (hidle hres)).1]

theorem poolNext_stream {c : PoolArgs} {ch : PoolChoice} {s s' : Pool} (h : PoolStream c s)
    (hnext : poolNext c ch s = some s') :
    PoolStream c s' ∧ s.jobs.results <+: s'.jobs.results ∧
      (ch = .callback → s'.jobs.results = s.jobs.results) ∧
      (s.outcome = some .resolved → s'.outcome = some .resolved ∧
        (s.jobs.inFlight = 0 → ch ≠ .callback ∧ s'.jobs.inFlight = 0)) := by
  have hlength := h.jobs.accounted_length.1
  have haccounts := h.jobs.accounts
  simp only [Jobs.accounted, List.length_append, List.length_map] at hlength
  cases ch with
  | settle i passed =>
      simp only [poolNext] at hnext
      split at hnext
      next hi =>
        cases hnext
        refine ⟨⟨h.jobs.settle hi, h.bound, fun hout => ?_⟩, List.prefix_append _ _, (by rintro ⟨⟩),
          fun hout => ⟨hout, fun hzero => ?_⟩⟩
        · refine (h.resolved hout).imp_left (fun hstop => ?_)
          simp only [Pool.stops, Bool.or_eq_true] at hstop ⊢
          exact hstop.imp_right CircuitBreaker.shouldStop_record
        · have := List.length_pos_of_mem hi
          omega
      next => cases hnext
  | callback =>
      simp only [poolNext] at hnext
      split at hnext
      next hdue =>
        have hbusy : s.jobs.inFlight ≠ 0 := by omega
        split at hnext
        next hend =>
          cases hnext
          have hwhy : s.stops = true ∨ c.total ≤ s.jobs.launched :=
            hend.symm.imp id (fun hall => by simp only [Jobs.collect] at hall; omega)
          exact ⟨⟨h.jobs.collect hdue, h.bound, fun _ => hwhy⟩, List.prefix_refl _, fun _ => rfl,
            fun hout => ⟨resolve_resolved hout, fun hzero => absurd hzero hbusy⟩⟩
        next =>
          cases hnext
          exact ⟨⟨h.jobs.collect hdue, h.bound, h.resolved⟩, List.prefix_refl _, fun _ => rfl,
            fun hout => ⟨hout, fun hzero => absurd hzero hbusy⟩⟩
      next => cases hnext
  | thought =>
      simp only [poolNext] at hnext
      split at hnext
      next =>
        cases hnext
        have h₁ : PoolStream c { s with thinking := s.thinking - 1 } := ⟨h.jobs, h.bound, h.resolved⟩
        obtain ⟨hstream, hresults, hresolved⟩ := h₁.launch
        refine ⟨hstream, hresults ▸ List.prefix_refl _, (by rintro ⟨⟩), fun hout => ?_⟩
        obtain ⟨hout', hjobs⟩ := hresolved hout
        exact ⟨hout', fun hzero => ⟨by rintro ⟨⟩, by rw [hjobs]; exact hzero⟩⟩
      next => cases hnext
  | abort =>
      cases hnext
      refine ⟨⟨h.jobs, h.bound, fun _ => Or.inl rfl⟩, List.prefix_refl _, (by rintro ⟨⟩), fun hout => ?_⟩
      exact ⟨hout, fun hzero => ⟨by rintro ⟨⟩, hzero⟩⟩

theorem runPool_stream (c : PoolArgs) (breaker : CircuitBreaker) (aborted : Bool) :
    PoolStream c (runPool c breaker aborted) := by
  have hstart : PoolStream c (Pool.start breaker aborted) :=
    ⟨Jobs.new_inv.1, Nat.zero_le _, nofun⟩
  obtain ⟨hstream, -, -⟩ := hstart.launch
  unfold runPool
  split
  next s hlaunch =>
    rw [hlaunch] at hstream
    exact ⟨hstream.jobs, hstream.bound, nofun⟩
  next s hlaunch =>
    rw [hlaunch] at hstream
    exact hstream

/-- The results in the array at the time; the pool is at rest when nothing is in flight. -/
def poolAppends (c : PoolArgs) (breaker : CircuitBreaker) (aborted : Bool) :
    AppendOnly (poolRunner c breaker aborted) f (fun _ _ => True) (fun s => s.jobs.inFlight = 0) where
  Inv := PoolStream c
  list s := (poolResult s).map f
  start := ⟨runPool_stream c breaker aborted, nofun⟩
  step := by
    intro ch s s' calls hI _ h
    obtain ⟨t, hnext, heq⟩ := Option.map_eq_some_iff.mp h
    obtain ⟨rfl, rfl⟩ := Prod.mk.inj heq
    obtain ⟨hI', hlist, hsame, -⟩ := poolNext_stream hI hnext
    refine ⟨hI', (requests_extend hlist).map f, fun call hcall => ?_⟩
    cases ch with
    | callback =>
        rw [List.mem_singleton.mp hcall]
        unfold poolResult
        rw [hsame rfl]
    | _ => cases hcall
  returned := by
    intro s l _ h
    rw [(returned_iff.mp h).2]
  quiet := by
    intro ch s s' calls hI _ hreturned hrest h
    obtain ⟨t, hnext, heq⟩ := Option.map_eq_some_iff.mp h
    obtain ⟨rfl, rfl⟩ := Prod.mk.inj heq
    obtain ⟨hout, hquiet⟩ := (poolNext_stream hI hnext).2.2.2 (returned_isSome.mp hreturned)
    obtain ⟨hch, hrest'⟩ := hquiet hrest
    refine ⟨?_, returned_isSome.mpr hout, hrest'⟩
    cases ch with
    | callback => exact absurd rfl hch
    | _ => rfl

/-! ## The load profile -/

/-- With the time of the last progress of the interval, since the start. -/
structure LoadProgress where
  run : LoadRun
  lastProgressTime : ℚ

def loadResult (s : LoadRun) : List Result := requests s.jobs.results

/-- The call in `finish`. -/
def finishCall (c : LoadArgs) (s : LoadRun) : ProgressCall Result where
  completed := s.jobs.results.length
  total := -1
  allResults := loadResult s
  progressMeta := some
    { elapsedMs := c.profile.durationMs
      targetConcurrency := getTargetConcurrency c.profile c.profile.durationMs
      currentInFlight := 0
      durationMs := c.profile.durationMs }

/-- The call in the interval. -/
def tickCall (c : LoadArgs) (s : LoadRun) : ProgressCall Result where
  completed := s.jobs.results.length
  total := -1
  allResults := loadResult s
  progressMeta := some
    { elapsedMs := s.elapsed
      targetConcurrency := getTargetConcurrency c.profile s.elapsed
      currentInFlight := s.jobs.inFlight
      durationMs := c.profile.durationMs }

/-- The interval finds no reason to stop, and its `fillPool` does not throw. -/
def ticksOn (c : LoadArgs) (s : LoadRun) : LoadChoice → Bool
  | .tick ms => !s.expired c && !(LoadRun.fillPool c { s with elapsed := s.elapsed + ms }).2
  | _ => false

/-- A step of the run; the clock is read again so much later. -/
def loadProgressNext (c : LoadArgs) :
    LoadChoice × ℚ → LoadProgress → Option (LoadProgress × List (ProgressCall Result))
  | (ch, later), s =>
      (loadNext c ch s.run).bind (fun ended =>
        let calls := if !s.run.resolved && ended.resolved then [finishCall c ended] else []
        (loadNext c (.elapse later) ended).map (fun run =>
          if ticksOn c s.run ch && decide (run.elapsed - s.lastProgressTime ≥ 500) then
            (⟨run, run.elapsed⟩, calls ++ [tickCall c run])
          else (⟨run, s.lastProgressTime⟩, calls)))

/-- `runLoadProfile`, with `elapsed` at its first `fillPool`. -/
def loadRunner (c : LoadArgs) (breaker : CircuitBreaker) (aborted : Bool) (elapsed : ℚ) :
    Runner Result where
  State := LoadProgress
  Choice := LoadChoice × ℚ
  start :=
    let run := runLoadProfile c breaker aborted elapsed
    (⟨run, 0⟩, if run.resolved then [finishCall c run] else [])
  next := loadProgressNext c
  returned s := if s.run.outcome = some .resolved then some (loadResult s.run) else none
  rejected s := decide (s.run.outcome = some .rejected)

/-- Who resolves the promise raises the flag, and ends the interval. -/
structure LoadClosed (s : LoadRun) : Prop where
  resolved : s.outcome = some .resolved → s.resolved = true
  ticking : s.resolved = true → s.ticking = false

/-- What was closed stays so. -/
structure LoadGoes (s s' : LoadRun) : Prop where
  closed : LoadClosed s → LoadClosed s'
  resolved : s.resolved = true → s'.resolved = true
  outcome : s.outcome = some .resolved → s'.outcome = some .resolved

section LoadSteps

variable {c : LoadArgs} {s s' : LoadRun} {ch : LoadChoice}

theorem finish_goes (s : LoadRun) : LoadGoes s s.finish := by
  unfold LoadRun.finish
  split
  next => exact ⟨id, id, id⟩
  next => exact ⟨fun _ => ⟨fun _ => rfl, fun _ => rfl⟩, fun _ => rfl, fun hout => by simp [hout]⟩

theorem stopTimer_goes (s : LoadRun) : LoadGoes s s.stopTimer := by
  unfold LoadRun.stopTimer
  dsimp only
  split
  next =>
    obtain ⟨hclosed, hres, hout⟩ := finish_goes { s with timerStopped := true }
    exact ⟨fun h => hclosed ⟨h.resolved, h.ticking⟩, hres, hout⟩
  next => exact ⟨fun h => ⟨h.resolved, h.ticking⟩, id, id⟩

theorem fillPool_goes (c : LoadArgs) (s : LoadRun) : LoadGoes s (s.fillPool c).1 := by
  unfold LoadRun.fillPool
  split
  next => exact stopTimer_goes s
  next => exact ⟨fun h => ⟨h.resolved, h.ticking⟩, id, id⟩

theorem loadNext_goes (h : loadNext c ch s = some s') : LoadGoes s s' := by
  cases ch with
  | elapse ms =>
      obtain ⟨-, h⟩ := Option.ite_none_right_eq_some.mp h
      cases h
      exact ⟨fun h => ⟨h.resolved, h.ticking⟩, id, id⟩
  | settle i passed =>
      obtain ⟨-, h⟩ := Option.ite_none_right_eq_some.mp h
      cases h
      exact ⟨fun h => ⟨h.resolved, h.ticking⟩, id, id⟩
  | callback =>
      obtain ⟨-, h⟩ := Option.ite_none_right_eq_some.mp h
      have hcollect : ∀ t : LoadRun, LoadGoes { s with jobs := s.jobs.collect } t → LoadGoes s t :=
        fun t ht => ⟨fun h => ht.closed ⟨h.resolved, h.ticking⟩, ht.resolved, ht.outcome⟩
      refine hcollect s' ?_
      dsimp only at h
      split at h
      next =>
        cases h
        exact stopTimer_goes _
      next =>
        split at h
        next =>
          cases h
          exact finish_goes _
        next =>
          split at h
          next =>
            cases h
            exact ⟨fun h => ⟨h.resolved, h.ticking⟩, id, id⟩
          next =>
            cases h
            exact ⟨id, id, id⟩
  | fill =>
      obtain ⟨-, h⟩ := Option.ite_none_right_eq_some.mp h
      cases h
      obtain ⟨hclosed, hres, hout⟩ := fillPool_goes c { s with thinking := s.thinking - 1 }
      exact ⟨fun h => hclosed ⟨h.resolved, h.ticking⟩, hres, hout⟩
  | tick ms =>
      obtain ⟨-, h⟩ := Option.ite_none_right_eq_some.mp h
      split at h
      next =>
        cases h
        obtain ⟨hclosed, hres, hout⟩ := stopTimer_goes { s with ticking := false }
        exact ⟨fun h => hclosed ⟨h.resolved, fun _ => rfl⟩, hres, hout⟩
      next =>
        cases h
        obtain ⟨hclosed, hres, hout⟩ := fillPool_goes c { s with elapsed := s.elapsed + ms }
        exact ⟨fun h => hclosed ⟨h.resolved, h.ticking⟩, hres, hout⟩
  | abort =>
      cases h
      exact ⟨fun h => ⟨h.resolved, h.ticking⟩, id, id⟩

theorem fillPool_results (hI : s.jobs.Inv) : (s.fillPool c).1.jobs.results = s.jobs.results := by
  unfold LoadRun.fillPool
  split
  next => rw [stopTimer_jobs]
  next =>
    have hstarts : Jobs.Starts (getTargetConcurrency c.profile s.elapsed).toNat none false
        c.launchThrows s.jobs _ := Jobs.startUpTo_starts
    exact (hstarts.inv hI).2.1

theorem loadNext_results (hI : LoadInv c s) (h : loadNext c ch s = some s') :
    s.jobs.results <+: s'.jobs.results := by
  cases ch with
  | settle i passed =>
      obtain ⟨-, h⟩ := Option.ite_none_right_eq_some.mp h
      cases h
      exact List.prefix_append _ _
  | callback =>
      have hsame : s'.jobs.results = s.jobs.collect.results := by rw [(hI.callback h).2]
      exact prefix_of_eq hsame
  | fill =>
      obtain ⟨-, h⟩ := Option.ite_none_right_eq_some.mp h
      cases h
      exact prefix_of_eq (fillPool_results (s := { s with thinking := s.thinking - 1 }) hI.jobs)
  | tick ms =>
      obtain ⟨-, h⟩ := Option.ite_none_right_eq_some.mp h
      split at h
      next =>
        cases h
        exact prefix_of_eq (congrArg Jobs.results stopTimer_jobs)
      next =>
        cases h
        exact prefix_of_eq (fillPool_results (s := { s with elapsed := s.elapsed + ms }) hI.jobs)
  | elapse ms =>
      obtain ⟨-, h⟩ := Option.ite_none_right_eq_some.mp h
      cases h
      exact List.prefix_refl _
  | abort =>
      cases h
      exact List.prefix_refl _

/-- The list of a step's calls is that of its end, and a closed run makes none. -/
theorem loadProgressNext_spec {choice : LoadChoice × ℚ} {s s' : LoadProgress}
    {calls : List (ProgressCall Result)} (hI : LoadInv c s.run) (hclosed : LoadClosed s.run)
    (h : loadProgressNext c choice s = some (s', calls)) :
    (LoadInv c s'.run ∧ LoadClosed s'.run) ∧ s.run.jobs.results <+: s'.run.jobs.results ∧
      (∀ call ∈ calls, call.allResults = loadResult s'.run) ∧
      (s.run.outcome = some .resolved → calls = [] ∧ s'.run.outcome = some .resolved) := by
  obtain ⟨ch, later⟩ := choice
  obtain ⟨ended, hended, h⟩ := Option.bind_eq_some_iff.mp h
  obtain ⟨run, hrun, h⟩ := Option.map_eq_some_iff.mp h
  have hgoes := loadNext_goes hended
  have hgoes' := loadNext_goes hrun
  have hI₁ := (hI.step hended).1
  have hI₂ := (hI₁.step hrun).1
  have hresults := loadNext_results hI hended
  have hjobs : run.jobs = ended.jobs := by
    obtain ⟨-, hrun⟩ := Option.ite_none_right_eq_some.mp hrun
    cases hrun
    rfl
  have hstate : s'.run = run := by
    split at h
    next => rw [← (Prod.mk.inj h).1]
    next => rw [← (Prod.mk.inj h).1]
  rw [hstate]
  refine ⟨⟨hI₂, hgoes'.closed (hgoes.closed hclosed)⟩, hjobs ▸ hresults, fun call hcall => ?_,
    fun hout => ?_⟩
  · have hfinish : (finishCall c ended).allResults = loadResult run := by
      unfold loadResult
      rw [hjobs]
      rfl
    have hcalls : ∀ call ∈ (if !s.run.resolved && ended.resolved then [finishCall c ended] else []),
        call.allResults = loadResult run := by
      intro call hcall
      split at hcall
      next => rw [List.mem_singleton.mp hcall, hfinish]
      next => cases hcall
    split at h
    next =>
      rw [← (Prod.mk.inj h).2] at hcall
      rcases List.mem_append.mp hcall with hcall | hcall
      · exact hcalls call hcall
      · rw [List.mem_singleton.mp hcall]
        rfl
    next =>
      rw [← (Prod.mk.inj h).2] at hcall
      exact hcalls call hcall
  · have hres := hclosed.resolved hout
    have hoff : ticksOn c s.run ch = false := by
      cases ch with
      | tick ms =>
          obtain ⟨hgo, -⟩ := Option.ite_none_right_eq_some.mp hended
          rw [hclosed.ticking hres] at hgo
          cases hgo.1
      | _ => rfl
    rw [hoff, Bool.false_and, if_neg Bool.false_ne_true, hres] at h
    exact ⟨(Prod.mk.inj h).2.symm, hgoes'.outcome (hgoes.outcome hout)⟩

theorem runLoadProfile_closed (c : LoadArgs) (breaker : CircuitBreaker) (aborted : Bool) (elapsed : ℚ) :
    LoadClosed (runLoadProfile c breaker aborted elapsed) := by
  have hstart : LoadClosed (LoadRun.start breaker aborted elapsed) := ⟨nofun, nofun⟩
  have hclosed := (fillPool_goes c _).closed hstart
  unfold runLoadProfile
  split
  next s hfill =>
    rw [hfill] at hclosed
    exact ⟨nofun, hclosed.ticking⟩
  next s hfill =>
    rw [hfill] at hclosed
    exact hclosed

end LoadSteps

/-- The promise is resolved only when nothing is in flight. -/
def loadAppends (c : LoadArgs) (breaker : CircuitBreaker) (aborted : Bool) (elapsed : ℚ) :
    AppendOnly (loadRunner c breaker aborted elapsed) f (fun _ _ => True) (fun _ => True) where
  Inv s := LoadInv c s.run ∧ LoadClosed s.run
  list s := (loadResult s.run).map f
  start := by
    refine ⟨⟨(runLoadProfile_inv c breaker aborted elapsed).1,
      runLoadProfile_closed c breaker aborted elapsed⟩, fun call hcall => ?_⟩
    change call ∈ if (runLoadProfile c breaker aborted elapsed).resolved then _ else _ at hcall
    split at hcall
    next =>
      rw [List.mem_singleton.mp hcall]
      rfl
    next => cases hcall
  step := by
    intro ch s s' calls hI _ h
    obtain ⟨hI', hlist, hcalls, -⟩ := loadProgressNext_spec hI.1 hI.2 h
    exact ⟨hI', (requests_extend hlist).map f, fun call hcall => by rw [hcalls call hcall]⟩
  returned := by
    intro s l _ h
    rw [(returned_iff.mp h).2]
  quiet := by
    intro ch s s' calls hI _ hreturned _ h
    obtain ⟨hcalls, hout⟩ :=
      (loadProgressNext_spec hI.1 hI.2 h).2.2.2 (returned_isSome.mp hreturned)
    exact ⟨hcalls, returned_isSome.mpr hout, trivial⟩

/-! ## The graph load -/

def graphResult (s : GraphLoad) : List Result := s.allResults.map .iteration

/-- The end of an iteration pushes its results and passes them on, so much time after
the start. -/
def graphCalls (c : GraphLoadRunOpts) (elapsed : ℚ) (s : GraphLoad) :
    GraphLoadChoice → List (ProgressCall Result)
  | .settle _ _ =>
      let completedIterations := s.jobs.results.length
      [{ completed := completedIterations
         total := c.iterations
         allResults := graphResult s
         progressMeta := some
          { elapsedMs := elapsed
            targetConcurrency := c.concurrency
            currentInFlight := s.jobs.launched - completedIterations
            durationMs := 0 } }]
  | _ => []

/-- No state: a node was blocked before the first iteration. -/
def graphRunner (c : GraphLoadRunOpts) (breaker : CircuitBreaker) (aborted : Bool) : Runner Result where
  State := Option GraphLoad
  Choice := GraphLoadChoice × ℚ
  start := (runGraphLoad c breaker aborted, [])
  next choice state := state.bind (fun s => (graphLoadNext c choice.1 s).map (fun s' =>
    (some s', graphCalls c choice.2 s' choice.1)))
  returned state := state.bind (fun s => if s.resolved then some (graphResult s) else none)
  rejected state := state.isNone

/-- A concurrency of zero is run as one. -/
def atLeastOne (c : GraphLoadRunOpts) : GraphLoadRunOpts := { c with concurrency := max 1 c.concurrency }

section GraphSteps

variable {c : GraphLoadRunOpts} {s s' : GraphLoad} {ch : GraphLoadChoice}

theorem atLeastOne_cases (c : GraphLoadRunOpts) :
    atLeastOne c = c ∨ (c.concurrency = 0 ∧ (atLeastOne c).concurrency = 1) := by
  rcases Nat.eq_zero_or_pos c.concurrency with hzero | hpos
  · right
    unfold atLeastOne
    rw [hzero]
    exact ⟨rfl, rfl⟩
  · left
    unfold atLeastOne
    rw [Nat.max_eq_right hpos]

theorem graphLoadNext_atLeastOne : graphLoadNext (atLeastOne c) ch s = graphLoadNext c ch s := by
  rcases atLeastOne_cases c with heq | ⟨hzero, hone⟩
  · rw [heq]
  · cases ch with
    | callback =>
        simp only [graphLoadNext]
        rw [if_pos (show (atLeastOne c).concurrency ≤ 1 by omega),
          if_pos (show c.concurrency ≤ 1 by omega)]
        rfl
    | _ => rfl

theorem runGraphLoad_atLeastOne (breaker : CircuitBreaker) (aborted : Bool) :
    runGraphLoad (atLeastOne c) breaker aborted = runGraphLoad c breaker aborted := by
  rcases atLeastOne_cases c with heq | ⟨hzero, hone⟩
  · rw [heq]
  · unfold runGraphLoad
    rw [if_pos (show (atLeastOne c).concurrency ≤ 1 by omega),
      if_pos (show c.concurrency ≤ 1 by omega)]
    rfl

theorem finish_results (s : GraphLoad) : s.finish.jobs.results = s.jobs.results := by
  unfold GraphLoad.finish
  split <;> rfl

theorem launchNext_results (c : GraphLoadRunOpts) (s : GraphLoad) :
    (s.launchNext c).jobs.results = s.jobs.results := by
  obtain ⟨k, hl⟩ := Workflow.launchNext_launches c s
  rw [hl.after, Workflow.closing_jobs]
  rfl

theorem nextTurn_results (c : GraphLoadRunOpts) (s : GraphLoad) :
    (s.nextTurn c).jobs.results = s.jobs.results := by
  unfold GraphLoad.nextTurn
  split
  next =>
    split
    next => exact finish_results s
    next => rfl
  next => exact finish_results s

theorem graphResult_extends (h : s.jobs.results <+: s'.jobs.results) :
    graphResult s <+: graphResult s' := by
  obtain ⟨rest, hrest⟩ := h
  unfold graphResult GraphLoad.allResults
  rw [← hrest, List.flatMap_append, List.map_append]
  exact List.prefix_append _ _

theorem graphLoadNext_results (h : graphLoadNext c ch s = some s') :
    s.jobs.results <+: s'.jobs.results := by
  cases ch with
  | settle i out =>
      obtain ⟨-, h⟩ := Option.ite_none_right_eq_some.mp h
      cases h
      exact List.prefix_append _ _
  | callback =>
      obtain ⟨-, h⟩ := Option.ite_none_right_eq_some.mp h
      dsimp only at h
      split at h
      next =>
        cases h
        exact prefix_of_eq (nextTurn_results c _)
      next =>
        split at h
        next =>
          cases h
          exact prefix_of_eq (finish_results _)
        next =>
          split at h
          next =>
            cases h
            exact prefix_of_eq (launchNext_results c _)
          next =>
            cases h
            exact List.prefix_refl _
  | abort =>
      cases h
      exact List.prefix_refl _

/-- Nothing but an abort comes after the promise is resolved. -/
theorem graphLoadNext_resolved (hI : Workflow.GraphLoadInv c s) (hres : s.resolved = true)
    (h : graphLoadNext c ch s = some s') : ch = .abort ∧ s'.resolved = true := by
  have hzero := hI.resolved.mp hres
  have hflight := hI.inFlight_eq
  cases ch with
  | settle i out =>
      obtain ⟨hi, -⟩ := Option.ite_none_right_eq_some.mp h
      have := List.length_pos_of_mem hi
      omega
  | callback =>
      obtain ⟨hdue, -⟩ := Option.ite_none_right_eq_some.mp h
      omega
  | abort =>
      cases h
      exact ⟨rfl, hres⟩

end GraphSteps

def graphAppends (c : GraphLoadRunOpts) (breaker : CircuitBreaker) (aborted : Bool) :
    AppendOnly (graphRunner c breaker aborted) f (fun _ _ => True) (fun _ => True) where
  Inv state := ∀ s, state = some s → Workflow.GraphLoadInv (atLeastOne c) s
  list := fun (state : Option GraphLoad) => ((state.map graphResult).getD []).map f
  start := by
    refine ⟨fun s hs => ?_, nofun⟩
    have hcall : runGraphLoad (atLeastOne c) breaker aborted = some s :=
      (runGraphLoad_atLeastOne breaker aborted).trans hs
    exact (Workflow.runGraphLoad_inv (Nat.le_max_left 1 c.concurrency) hcall).1
  step := by
    intro choice state state' calls hI _ h
    obtain ⟨s, rfl, h⟩ := Option.bind_eq_some_iff.mp h
    obtain ⟨s', hnext, heq⟩ := Option.map_eq_some_iff.mp h
    obtain ⟨rfl, rfl⟩ := Prod.mk.inj heq
    have hnext' := graphLoadNext_atLeastOne.trans hnext
    refine ⟨fun t ht => ?_, (graphResult_extends (graphLoadNext_results hnext)).map f,
      fun call hcall => ?_⟩
    · obtain rfl := Option.some.inj ht
      exact ((hI s rfl).step (Nat.le_max_left 1 c.concurrency) hnext').1
    · obtain ⟨ch, elapsed⟩ := choice
      cases ch with
      | settle i out =>
          rw [List.mem_singleton.mp hcall]
          rfl
      | _ => cases hcall
  returned := by
    intro state l _ h
    obtain ⟨s, rfl, h⟩ := Option.bind_eq_some_iff.mp h
    obtain ⟨-, h⟩ := Option.ite_none_right_eq_some.mp h
    rw [← Option.some.inj h]
    rfl
  quiet := by
    intro choice state state' calls hI _ hreturned _ h
    obtain ⟨s, rfl, h⟩ := Option.bind_eq_some_iff.mp h
    obtain ⟨s', hnext, heq⟩ := Option.map_eq_some_iff.mp h
    obtain ⟨rfl, rfl⟩ := Prod.mk.inj heq
    obtain ⟨l, hl⟩ := Option.isSome_iff_exists.mp hreturned
    obtain ⟨hres, -⟩ := Option.ite_none_right_eq_some.mp hl
    have hnext' := graphLoadNext_atLeastOne.trans hnext
    obtain ⟨hch, hres'⟩ := graphLoadNext_resolved (hI s rfl) hres hnext'
    obtain ⟨ch, elapsed⟩ := choice
    obtain rfl : ch = .abort := hch
    refine ⟨rfl, ?_, trivial⟩
    show (if s'.resolved then some (graphResult s') else none).isSome = true
    rw [if_pos hres']
    rfl

end RedFireForge.Engine
