/-
# `RedFireForge.Engine.Coverage` — what the execution modes return

`runSequential`, `runBatch` and `runPool` run one queue.  The first two await
each execution as it is: an exception leaves the loop, and the results so far with
it.  Both come down to running the queue in order up to the first exception.  The
pool turns a rejected promise into an error result, and loses only what throws
before there is a promise.
-/
import RedFireForge.Engine.Pool

namespace RedFireForge.Engine

open RedFireForge.Lib

/-! ## Scenarios and results -/

structure Scenario where
  id : String
  dataRowId : Option String
deriving DecidableEq, Repr

/-- How the execution of a scenario ends. -/
inductive Execution
  /-- with a result, passed or failed -/
  | result (passed : Bool)
  /-- its promise rejects: `executeNonHttp`, or the token request -/
  | rejects
  /-- it throws before it returns a promise: `prepareScenario`, or `executeNonHttp` -/
  | throws
deriving DecidableEq, Repr

structure RequestResult where
  scenarioId : String
  dataRowId : Option String
  passed : Bool
deriving DecidableEq, Repr

/-- What a result is told apart by: its scenario and its data row, if any
(`dataRowId ?? ''`). -/
def RequestResult.key (r : RequestResult) : String × String := (r.scenarioId, r.dataRowId.getD "")

def Scenario.key (s : Scenario) : String × String := (s.id, s.dataRowId.getD "")

/-- The result of an execution that has one. -/
def Scenario.result (s : Scenario) (passed : Bool) : RequestResult := ⟨s.id, s.dataRowId, passed⟩

/-- `if (scenario.dataRowId)` leaves out an empty row id. -/
def buildErrorResult (s : Scenario) : RequestResult := ⟨s.id, s.dataRowId.filter (· ≠ ""), false⟩

/-- A place of the queue. -/
structure Entry where
  scenario : Scenario
  execution : Execution
deriving DecidableEq, Repr

/-- `await` of the execution; `none` is the exception. -/
def Entry.await (e : Entry) : Option RequestResult :=
  match e.execution with
  | .result passed => some (e.scenario.result passed)
  | _ => none

def Entry.returns (e : Entry) : Bool := e.await.isSome

def Entry.throws (e : Entry) : Bool := e.execution == .throws

/-! ## `runSequential` and `runBatch` -/

/-- `none` when an exception leaves the loop; `aborted n` is the abort flag once
`n` results are there. -/
def sequentialLoop (aborted : ℕ → Bool) :
    List Entry → CircuitBreaker → List RequestResult → Option (List RequestResult)
  | [], _, allResults => some allResults
  | scenario :: queue, breaker, allResults =>
      if aborted allResults.length || breaker.shouldStop then some allResults
      else scenario.await.bind (fun result =>
        sequentialLoop aborted queue (breaker.record result.passed) (allResults ++ [result]))

def runSequential (aborted : ℕ → Bool) (breaker : CircuitBreaker) (queue : List Entry) :
    Option (List RequestResult) := sequentialLoop aborted queue breaker []

/-- The fuel is the number of batches left at most; `none` also when it is used up. -/
def batchLoop (aborted : ℕ → Bool) (concurrency : ℕ) :
    ℕ → List Entry → CircuitBreaker → List RequestResult → Option (List RequestResult)
  | _, [], _, allResults => some allResults
  | 0, _ :: _, _, _ => none
  | fuel + 1, queue, breaker, allResults =>
      if aborted allResults.length || breaker.shouldStop then some allResults
      else ((queue.take concurrency).mapM Entry.await).bind (fun batchResults =>
        batchLoop aborted concurrency fuel (queue.drop concurrency)
          (batchResults.foldl (fun b r => b.record r.passed) breaker)
          (allResults ++ batchResults))

def runBatch (aborted : ℕ → Bool) (concurrency : ℕ) (breaker : CircuitBreaker)
    (queue : List Entry) : Option (List RequestResult) :=
  batchLoop aborted concurrency queue.length queue breaker []

/-- No abort. -/
def never : ℕ → Bool := fun _ => false

section InOrder

variable {breaker : CircuitBreaker} {queue : List Entry} {allResults : List RequestResult}

/-- A breaker that never opens. -/
def CircuitBreaker.Lenient (b : CircuitBreaker) : Prop :=
  b.policy = .continue ∧ b.shouldStop = false

theorem CircuitBreaker.Lenient.record {b : CircuitBreaker} (h : b.Lenient) (passed : Bool) :
    (b.record passed).Lenient :=
  ⟨h.1, (shouldStop_record_continue h.1).trans h.2⟩

theorem CircuitBreaker.Lenient.foldl {b : CircuitBreaker} (h : b.Lenient)
    (rs : List RequestResult) : (rs.foldl (fun b r => b.record r.passed) b).Lenient := by
  induction rs generalizing b with
  | nil => exact h
  | cons r rs ih => exact ih (h.record r.passed)

theorem sequentialLoop_eq (h : breaker.Lenient) :
    sequentialLoop never queue breaker allResults =
      (queue.mapM Entry.await).map (allResults ++ ·) := by
  induction queue generalizing breaker allResults with
  | nil => simp [sequentialLoop]
  | cons e queue ih =>
      have hgo : (never allResults.length || breaker.shouldStop) = false := h.2
      simp only [sequentialLoop, hgo, Bool.false_eq_true, if_false, List.mapM_cons, ih (h.record _)]
      cases e.await with
      | none => rfl
      | some r => cases queue.mapM Entry.await <;> simp

/-- Batches that follow one another are the queue. -/
theorem batchLoop_eq {concurrency fuel : ℕ} (hc : 1 ≤ concurrency) (hfuel : queue.length ≤ fuel)
    (h : breaker.Lenient) :
    batchLoop never concurrency fuel queue breaker allResults =
      (queue.mapM Entry.await).map (allResults ++ ·) := by
  induction fuel generalizing queue breaker allResults with
  | zero =>
      obtain rfl := List.length_eq_zero_iff.mp (Nat.le_zero.mp hfuel)
      simp [batchLoop]
  | succ fuel ih =>
      cases queue with
      | nil => simp [batchLoop]
      | cons e queue =>
          have hgo : (never allResults.length || breaker.shouldStop) = false := h.2
          have hlen : ((e :: queue).drop concurrency).length ≤ fuel := by
            simp only [List.length_drop, List.length_cons] at hfuel ⊢
            omega
          have hsplit : (e :: queue).mapM Entry.await =
              (((e :: queue).take concurrency).mapM Entry.await).bind (fun rs =>
                (((e :: queue).drop concurrency).mapM Entry.await).map (rs ++ ·)) := by
            conv_lhs => rw [← List.take_append_drop concurrency (e :: queue)]
            rw [List.mapM_append]
            cases ((e :: queue).take concurrency).mapM Entry.await <;>
              cases ((e :: queue).drop concurrency).mapM Entry.await <;> rfl
          simp only [batchLoop, hgo, Bool.false_eq_true, if_false, hsplit]
          cases ((e :: queue).take concurrency).mapM Entry.await with
          | none => rfl
          | some rs =>
              simp only [Option.bind_some, ih hlen (h.foldl rs), Option.map_map]
              congr 1
              funext rs'
              simp

/-- In order, a queue gives its results exactly if every execution returns one. -/
theorem mapM_await_covers :
    (∃ rs, queue.mapM Entry.await = some rs ∧
        List.Perm (rs.map RequestResult.key) (queue.map (fun e => e.scenario.key))) ↔
      ∀ e ∈ queue, e.returns = true := by
  have hsome : (∀ e ∈ queue, e.returns = true) → ∃ rs, queue.mapM Entry.await = some rs ∧
      rs.map RequestResult.key = queue.map (fun e => e.scenario.key) := by
    intro h
    induction queue with
    | nil => exact ⟨[], rfl, rfl⟩
    | cons e queue ih =>
        rw [List.forall_mem_cons] at h
        obtain ⟨rs, hrs, hkeys⟩ := ih h.2
        obtain ⟨r, hr⟩ := Option.isSome_iff_exists.mp h.1
        have hkey : r.key = e.scenario.key := by
          unfold Entry.await at hr
          split at hr
          · cases hr
            rfl
          · cases hr
        exact ⟨r :: rs, by simp [List.mapM_cons, hr, hrs], by simp [hkey, hkeys]⟩
  constructor
  · rintro ⟨rs, hrs, -⟩
    clear hsome
    induction queue generalizing rs with
    | nil => simp
    | cons e queue ih =>
        cases hawait : e.await with
        | none => simp [List.mapM_cons, hawait] at hrs
        | some r =>
            cases hrest : queue.mapM Entry.await with
            | none => simp [List.mapM_cons, hawait, hrest] at hrs
            | some rs' =>
                exact List.forall_mem_cons.mpr ⟨by simp [Entry.returns, hawait], ih rs' hrest⟩
  · intro h
    obtain ⟨rs, hrs, hkeys⟩ := hsome h
    exact ⟨rs, hrs, by rw [hkeys]⟩

end InOrder

/-! ## The pool -/

def poolArgs (concurrency : ℕ) (queue : List Entry) : PoolArgs where
  concurrency := concurrency
  total := queue.length
  throws i := queue[i]?.any Entry.throws

/-- A promise settles as its execution says; there is no abort. -/
def behaves (queue : List Entry) : PoolChoice → Bool
  | .settle i passed => queue[i]?.any (fun e => passed == (e.execution == .result true))
  | .callback | .thought => true
  | .abort => false

/-- What the callbacks push: the result, or an error result. -/
def poolResults (queue : List Entry) (s : Pool) : List RequestResult :=
  s.jobs.results.filterMap (fun r =>
    queue[r.1]?.map (fun e => e.await.getD (buildErrorResult e.scenario)))

/-- Whatever the order of completions, the pool ends, and resolves with one result
for each place of the queue. -/
def PoolCovers (concurrency : ℕ) (breaker : CircuitBreaker) (queue : List Entry) : Prop :=
  ∀ ls s, (∀ ch ∈ ls, behaves queue ch = true) →
    exec (poolNext (poolArgs concurrency queue)) (runPool (poolArgs concurrency queue) breaker false)
      ls = some s →
    ls.length ≤ 3 * queue.length ∧
      (s.Idle ∨ ∃ ch s', behaves queue ch = true ∧
        poolNext (poolArgs concurrency queue) ch s = some s') ∧
      (s.Idle → s.outcome = some .resolved) ∧
      (s.outcome = some .resolved → List.Perm ((poolResults queue s).map RequestResult.key)
        (queue.map (fun e => e.scenario.key)))

section InPool

variable {c : PoolArgs} {s s' : Pool} {ch : PoolChoice} {queue : List Entry} {k : ℕ}

/-- No stop is set, nothing is lost, and a resolved promise has all its results. -/
structure Unstopped (c : PoolArgs) (s : Pool) : Prop where
  inv : PoolInv c s
  lenient : s.breaker.Lenient
  running : s.aborted = false
  sound : s.Sound
  complete : s.outcome = some .resolved → c.total ≤ s.jobs.results.length

/-- Steps left: three for each scenario. -/
def stepsLeft (c : PoolArgs) (s : Pool) : ℕ :=
  3 * (c.total - s.jobs.launched) + 3 * s.jobs.running.length + 2 * s.jobs.due + s.thinking

theorem Unstopped.stops (h : Unstopped c s) : s.stops = false := by
  simp [Pool.stops, h.running, h.lenient.2]

theorem launchesSafely_of_returns (hthrows : ∀ i, c.throws i = false) (hstop : s.stops = false) :
    launchesSafely c s = true :=
  (launchesSafely_of_not_stops hstop).mpr (fun _ _ => hthrows _)

@[simp] theorem stepsLeft_launched {jobs : Jobs Bool} :
    stepsLeft c (s.launched c jobs) = stepsLeft c { s with jobs := jobs } := by
  unfold Pool.launched
  dsimp only
  split <;> rfl

/-- A call of `launch` starts some scenarios. -/
theorem launch_unthrown (hthrows : ∀ i, c.throws i = false) :
    ∃ k, (s.jobs.launched ≤ c.total → s.jobs.launched + k ≤ c.total) ∧
      Pool.launch c s = (s.launched c (s.jobs.startMany k), false) := by
  have hstarts : Jobs.Starts c.concurrency (some c.total) s.stops c.throws s.jobs _ :=
    Jobs.startUpTo_starts
  unfold Pool.launch
  generalize Jobs.startUpTo c.concurrency (some c.total) s.stops c.throws s.jobs = out at hstarts
  cases hstarts with
  | ended k hbefore hzero hlimit htotal hend => exact ⟨k, htotal c.total rfl, rfl⟩
  | threw k hbefore hstop hlimit htotal hthrow =>
      rw [hthrows] at hthrow
      cases hthrow

/-- It resolves the promise only with all the results. -/
theorem PoolInv.launch_unstopped (hI : PoolInv c s) (hlost : ¬ s.jobs.Lost)
    (hlenient : s.breaker.Lenient) (hrunning : s.aborted = false)
    (hcomplete : s.outcome = some .resolved → c.total ≤ s.jobs.results.length)
    (hc : 1 ≤ c.concurrency) (hthrows : ∀ i, c.throws i = false) :
    Unstopped c (Pool.launch c s).1 ∧ (Pool.launch c s).2 = false ∧
      stepsLeft c (Pool.launch c s).1 ≤ stepsLeft c s := by
  have hstop : s.stops = false := by simp [Pool.stops, hrunning, hlenient.2]
  obtain ⟨hI', hsound, -⟩ := hI.launch hc
  have hsound := hsound.mpr ⟨hlost, launchesSafely_of_returns hthrows hstop⟩
  obtain ⟨k, hle, heq⟩ := launch_unthrown (s := s) hthrows
  have hle := hle hI.bound
  rw [heq] at hI' hsound ⊢
  have hkept : (s.launched c (s.jobs.startMany k)).breaker = s.breaker ∧
      (s.launched c (s.jobs.startMany k)).aborted = s.aborted := by
    unfold Pool.launched
    dsimp only
    split <;> exact ⟨rfl, rfl⟩
  refine ⟨⟨hI', hkept.1 ▸ hlenient, hkept.2 ▸ hrunning, hsound, fun hout => ?_⟩, rfl, ?_⟩
  · rw [launched_jobs]
    rw [launched_outcome (hI.rejected.resolve_left hlost)] at hout
    split at hout
    next hdone =>
      -- nothing runs, so every launched scenario has its result
      have hlostk : ¬ (s.jobs.startMany k).Lost := fun h => hlost (Jobs.lost_startMany.mp h)
      have hIk := hI.jobs.startMany k
      have hflight := hIk.inFlight_eq hlostk
      have hlen := hIk.results_length hlostk
      omega
    next => exact hcomplete hout
  · rw [stepsLeft_launched]
    simp only [stepsLeft, Jobs.startMany, List.length_append, List.length_range']
    omega

theorem Unstopped.step (h : Unstopped c s) (hc : 1 ≤ c.concurrency)
    (hthrows : ∀ i, c.throws i = false) (hch : ch ≠ .abort) (hnext : poolNext c ch s = some s') :
    Unstopped c s' ∧ stepsLeft c s' < stepsLeft c s := by
  obtain ⟨hI', hsound⟩ := h.inv.step hc hnext
  have hsafe : thinksSafely c ch s = true := by
    cases ch with
    | thought => exact launchesSafely_of_returns hthrows (s := { s with thinking := _ }) h.stops
    | _ => rfl
  have hsound' := hsound.mpr ⟨h.sound, hsafe⟩
  cases ch with
  | settle i passed =>
      simp only [poolNext] at hnext
      split at hnext
      next hi =>
        cases hnext
        refine ⟨⟨hI', h.lenient.record passed, h.running, hsound', fun hout => ?_⟩, ?_⟩
        · have := h.complete hout
          simp only [Jobs.settle, List.length_append, List.length_singleton]
          omega
        · have := List.length_erase_of_mem hi
          have := List.length_pos_of_mem hi
          simp only [stepsLeft, Jobs.settle]
          omega
      next => cases hnext
  | callback =>
      simp only [poolNext] at hnext
      split at hnext
      next hdue =>
        split at hnext
        next hdone =>
          cases hnext
          refine ⟨⟨hI', h.lenient, h.running, hsound', fun _ => ?_⟩, ?_⟩
          · refine hdone.resolve_right (fun hstop => ?_)
            have := h.stops
            simp only [Pool.stops] at this hstop
            simp [this] at hstop
          · simp only [stepsLeft, Pool.resolve, Jobs.collect]
            omega
        next =>
          cases hnext
          refine ⟨⟨hI', h.lenient, h.running, hsound', h.complete⟩, ?_⟩
          simp only [stepsLeft, Jobs.collect]
          omega
      next => cases hnext
  | thought =>
      simp only [poolNext] at hnext
      split at hnext
      next hthink =>
        cases hnext
        have hI₁ : PoolInv c { s with thinking := s.thinking - 1 } :=
          ⟨h.inv.jobs, h.inv.bound, h.inv.rejected⟩
        obtain ⟨hU, -, hle⟩ :=
          hI₁.launch_unstopped h.sound.1 h.lenient h.running h.complete hc hthrows
        refine ⟨hU, lt_of_le_of_lt hle ?_⟩
        simp only [stepsLeft]
        omega
      next => cases hnext
  | abort => exact absurd rfl hch

theorem runPool_unstopped {breaker : CircuitBreaker} (hc : 1 ≤ c.concurrency)
    (hthrows : ∀ i, c.throws i = false) (hlenient : breaker.Lenient) :
    Unstopped c (runPool c breaker false) ∧ stepsLeft c (runPool c breaker false) ≤ 3 * c.total := by
  obtain ⟨hI, hlost⟩ := start_inv c breaker false
  obtain ⟨hU, hret, hle⟩ := hI.launch_unstopped hlost hlenient rfl nofun hc hthrows
  have hstart : stepsLeft c (Pool.start breaker false) = 3 * c.total := by
    simp [stepsLeft, Pool.start, Jobs.new]
  rw [hstart] at hle
  unfold runPool
  split
  next s₁ hlaunch => simp [hlaunch] at hret
  next s₁ hlaunch =>
    rw [hlaunch] at hU hle
    exact ⟨hU, hle⟩

theorem key_buildErrorResult (s : Scenario) : (buildErrorResult s).key = s.key := by
  unfold buildErrorResult RequestResult.key Scenario.key
  match s.dataRowId with
  | none => rfl
  | some row => by_cases h : row = "" <;> simp [Option.filter, h]

theorem key_pushed (e : Entry) : (e.await.getD (buildErrorResult e.scenario)).key = e.scenario.key := by
  unfold Entry.await
  split
  · rfl
  · exact key_buildErrorResult e.scenario

theorem filterMap_range_getElem? {α : Type} (xs : List α) :
    (List.range xs.length).filterMap (fun i => xs[i]?) = xs := by
  induction xs using List.reverseRecOn with
  | nil => rfl
  | append_singleton xs x ih =>
      have hfront : (List.range xs.length).filterMap (fun i => (xs ++ [x])[i]?) =
          (List.range xs.length).filterMap (fun i => xs[i]?) :=
        List.filterMap_congr (fun i hi => List.getElem?_append_left (List.mem_range.mp hi))
      rw [List.length_append, List.length_singleton, List.range_succ, List.filterMap_append, hfront,
        ih]
      simp

/-- A result for each place of the queue. -/
theorem poolResults_covers {concurrency : ℕ} (hI : PoolInv (poolArgs concurrency queue) s)
    (hdone : queue.length ≤ s.jobs.results.length) :
    List.Perm ((poolResults queue s).map RequestResult.key) (queue.map (fun e => e.scenario.key)) := by
  have hnodup : (s.jobs.results.map Prod.fst).Nodup := (List.nodup_append.mp hI.jobs.distinct).2.1
  have hsub : s.jobs.results.map Prod.fst ⊆ List.range queue.length := by
    intro i hi
    have := hI.jobs.launched i (List.mem_append_right _ hi)
    have := hI.bound
    exact List.mem_range.mpr (by simp only [poolArgs] at *; omega)
  have hperm : List.Perm (s.jobs.results.map Prod.fst) (List.range queue.length) :=
    (List.subperm_of_subset hnodup hsub).perm_of_length_le (by simpa using hdone)
  have hkeys : (poolResults queue s).map RequestResult.key =
      (s.jobs.results.map Prod.fst).filterMap
        (fun i => queue[i]?.map (fun e => e.scenario.key)) := by
    simp only [poolResults, List.map_filterMap, List.filterMap_map, Option.map_map,
      Function.comp_def, key_pushed]
  have hqueue : (List.range queue.length).filterMap (fun i => queue[i]?.map (fun e => e.scenario.key)) =
      queue.map (fun e => e.scenario.key) := by
    rw [← List.map_filterMap, filterMap_range_getElem?]
  rw [hkeys, ← hqueue]
  exact hperm.filterMap _

/-- What runs or has a result was started without an exception. -/
def Returned (c : PoolArgs) (jobs : Jobs Bool) : Prop := ∀ i ∈ jobs.accounted, c.throws i = false

theorem Returned.launch (h : Returned c s.jobs) : Returned c (Pool.launch c s).1.jobs := by
  have hstarts : Jobs.Starts c.concurrency (some c.total) s.stops c.throws s.jobs _ :=
    Jobs.startUpTo_starts
  have hmany : ∀ k, (∀ j < k, c.throws (s.jobs.launched + j) = false) →
      Returned c (s.jobs.startMany k) := by
    intro k hbefore i hi
    rcases Jobs.mem_accounted_startMany.mp hi with hi | hi
    · rw [show i = s.jobs.launched + (i - s.jobs.launched) by omega]
      exact hbefore _ (by omega)
    · exact h i hi
  unfold Pool.launch
  generalize Jobs.startUpTo c.concurrency (some c.total) s.stops c.throws s.jobs = out at hstarts
  cases hstarts with
  | ended k hbefore _ _ _ _ => exact launched_jobs ▸ hmany k hbefore
  | threw k hbefore _ _ _ _ => exact hmany k hbefore

theorem Returned.step (h : Returned c s.jobs) (hnext : poolNext c ch s = some s') :
    Returned c s'.jobs := by
  cases ch with
  | settle i passed =>
      simp only [poolNext] at hnext
      split at hnext
      next hi =>
        cases hnext
        exact fun j hj => h j ((Jobs.accounted_settle hi).mem_iff.mp hj)
      next => cases hnext
  | callback =>
      simp only [poolNext] at hnext
      split at hnext
      · split at hnext <;> (cases hnext; exact h)
      · cases hnext
  | thought =>
      simp only [poolNext] at hnext
      split at hnext
      · cases hnext
        exact Returned.launch (s := { s with thinking := _ }) h
      · cases hnext
  | abort => cases hnext; exact h

theorem runPool_returned {breaker : CircuitBreaker} : Returned c (runPool c breaker false).jobs := by
  have hstart : Returned c (Pool.start breaker false).jobs := nofun
  have hlaunch := hstart.launch
  unfold runPool
  split <;> simp_all

/-- With a scenario whose start throws, results are missing at the end. -/
theorem results_lt_of_throws (hI : PoolInv c s) (hret : Returned c s.jobs) {j : ℕ} (hj : j < c.total)
    (hthrow : c.throws j = true) : s.jobs.results.length < c.total := by
  have hsub : s.jobs.accounted ⊆ (List.range c.total).filter (fun i => !c.throws i) := by
    intro i hi
    have := hI.jobs.launched i hi
    have := hI.bound
    exact List.mem_filter.mpr ⟨List.mem_range.mpr (by omega), by simp [hret i hi]⟩
  have hle := (List.subperm_of_subset hI.jobs.distinct hsub).length_le
  have hlt : ((List.range c.total).filter (fun i => !c.throws i)).length < (List.range c.total).length :=
    List.length_filter_lt_length_iff_exists.mpr ⟨j, List.mem_range.mpr hj, by simp [hthrow]⟩
  simp only [Jobs.accounted, List.length_append, List.length_map, List.length_range] at hle hlt
  omega

theorem idle_or_step {concurrency : ℕ} (hI : PoolInv (poolArgs concurrency queue) s) :
    s.Idle ∨ ∃ ch s', behaves queue ch = true ∧
      poolNext (poolArgs concurrency queue) ch s = some s' := by
  by_cases hrun : s.jobs.running = []
  · by_cases hdue : 0 < s.jobs.due
    · refine Or.inr ⟨.callback, ?_⟩
      by_cases hstop : s.jobs.results.length ≥ queue.length ∨ s.stops = true
      · exact ⟨_, rfl, by simp only [poolNext, if_pos hdue]; exact if_pos hstop⟩
      · exact ⟨_, rfl, by simp only [poolNext, if_pos hdue]; exact if_neg hstop⟩
    · by_cases hthink : 0 < s.thinking
      · exact Or.inr ⟨.thought, _, rfl, if_pos hthink⟩
      · exact Or.inl ⟨hrun, by omega, by omega⟩
  · obtain ⟨i, hi⟩ := List.exists_mem_of_ne_nil _ hrun
    have hlt := hI.jobs.launched i (List.mem_append_left _ hi)
    have hle := hI.bound
    have hlen : i < queue.length := lt_of_lt_of_le hlt hle
    refine Or.inr ⟨.settle i (queue[i].execution == .result true), _, ?_, if_pos hi⟩
    simp [behaves, hlen]

end InPool

section PoolIff

variable {queue : List Entry} {concurrency : ℕ} {breaker : CircuitBreaker}

theorem poolCovers_of_returns (hc : 1 ≤ concurrency) (hlenient : breaker.Lenient)
    (hqueue : ∀ e ∈ queue, e.throws = false) : PoolCovers concurrency breaker queue := by
  have hthrows : ∀ i, (poolArgs concurrency queue).throws i = false := by
    intro i
    cases hi : queue[i]? with
    | none => simp [poolArgs, hi]
    | some e => simpa [poolArgs, hi] using hqueue e (List.mem_of_getElem? hi)
  have hch : ∀ ch, behaves queue ch = true → ch ≠ .abort := by
    rintro ch h rfl
    cases h
  intro ls s hok hrun
  obtain ⟨hU₀, hle₀⟩ := runPool_unstopped (c := poolArgs concurrency queue) hc hthrows hlenient
  have hok : AllSteps (poolNext (poolArgs concurrency queue)) (fun ch _ => behaves queue ch = true)
      (runPool (poolArgs concurrency queue) breaker false) ls := allSteps_of_forall hok
  have hU : Unstopped (poolArgs concurrency queue) s :=
    exec_invariant (fun ch s s' hU hb h => (hU.step hc hthrows (hch ch hb) h).1) hU₀ hok hrun
  have hlen := length_le_of_measure (stepsLeft (poolArgs concurrency queue))
    (fun ch s s' hU hb h => hU.step hc hthrows (hch ch hb) h) hU₀ hok hrun
  refine ⟨?_, idle_or_step hU.inv, hU.sound.2,
    fun hout => poolResults_covers hU.inv (hU.complete hout)⟩
  simp only [poolArgs] at hle₀ hlen
  omega

theorem returns_of_poolCovers (hc : 1 ≤ concurrency) (h : PoolCovers concurrency breaker queue) :
    ∀ e ∈ queue, e.throws = false := by
  obtain ⟨ls, s, hok, hrun, hidle⟩ := exists_final (F := Pool.Idle)
    (fun ls t hok hrun => (h ls t hok hrun).1) (fun ls t hok hrun => (h ls t hok hrun).2.1)
  obtain ⟨-, -, hout, hperm⟩ := h ls s hok hrun
  have hlen := (hperm (hout hidle)).length_eq
  have hle : (poolResults queue s).length ≤ s.jobs.results.length := List.length_filterMap_le _ _
  have hI : PoolInv (poolArgs concurrency queue) s :=
    exec_invariant' (fun _ _ _ hI hnext => (hI.step hc hnext).1) (runPool_inv breaker false hc).1 hrun
  have hret : Returned (poolArgs concurrency queue) s.jobs :=
    exec_invariant' (I := fun s => Returned _ s.jobs) (fun _ _ _ hret hnext => hret.step hnext)
      runPool_returned hrun
  intro e he
  by_contra hthrow
  obtain ⟨j, hj, rfl⟩ := List.mem_iff_getElem.mp he
  have hlt := results_lt_of_throws hI hret (j := j) hj (by simpa [poolArgs, hj] using hthrow)
  simp only [List.length_map, poolArgs] at hlen hlt
  omega

end PoolIff

/-! ## The three modes -/

/-- **Coverage.**  With a policy that never stops a run and no abort: `runSequential`
and `runBatch` return one result for each place of the queue exactly if every
execution returns one, and so does the pool exactly if no execution throws before
it returns a promise. -/
theorem modes_cover_iff (queue : List Entry) (concurrency : ℕ) (breaker : CircuitBreaker)
    (hc : 1 ≤ concurrency) (hlenient : breaker.Lenient) :
    ((∃ rs, runSequential never breaker queue = some rs ∧
        List.Perm (rs.map RequestResult.key) (queue.map (fun e => e.scenario.key))) ↔
      ∀ e ∈ queue, e.returns = true) ∧
    ((∃ rs, runBatch never concurrency breaker queue = some rs ∧
        List.Perm (rs.map RequestResult.key) (queue.map (fun e => e.scenario.key))) ↔
      ∀ e ∈ queue, e.returns = true) ∧
    (PoolCovers concurrency breaker queue ↔ ∀ e ∈ queue, e.throws = false) := by
  refine ⟨?_, ?_, returns_of_poolCovers hc, poolCovers_of_returns hc hlenient⟩
  · simp only [runSequential, sequentialLoop_eq hlenient, List.nil_append, Option.map_id_fun', id_eq]
    exact mapM_await_covers
  · simp only [runBatch, batchLoop_eq hc le_rfl hlenient, List.nil_append, Option.map_id_fun', id_eq]
    exact mapM_await_covers

def oneFails : List Entry :=
  [⟨⟨"login", none⟩, .result true⟩, ⟨⟨"orders", some "row-1"⟩, .result false⟩]

theorem modes_cover_iff_oneFails :
    (∃ rs, runSequential never lenient oneFails = some rs ∧
        List.Perm (rs.map RequestResult.key) (oneFails.map (fun e => e.scenario.key))) ∧
      PoolCovers 2 lenient oneFails := by
  obtain ⟨hseq, -, hpool⟩ := modes_cover_iff oneFails 2 lenient (by decide) ⟨rfl, rfl⟩
  exact ⟨hseq.mpr (by decide), hpool.mpr (by decide)⟩

def oneRejects : List Entry :=
  [⟨⟨"login", none⟩, .result true⟩, ⟨⟨"publish", none⟩, .rejects⟩, ⟨⟨"orders", none⟩, .result true⟩]

/-- A rejected execution is an error result of the pool; in order it leaves the
loop, and no result is returned. -/
theorem rejection_leaves_the_loop :
    runSequential never lenient oneRejects = none ∧ runBatch never 2 lenient oneRejects = none ∧
      ∃ s, exec (poolNext (poolArgs 1 oneRejects)) (runPool (poolArgs 1 oneRejects) lenient false)
          [.settle 0 true, .callback, .thought, .settle 1 false, .callback, .thought, .settle 2 true,
            .callback] = some s ∧
        s.outcome = some .resolved ∧
          (poolResults oneRejects s).map (·.passed) = [true, false, true] :=
  ⟨by decide, by decide, exists_exec (by decide)⟩

end RedFireForge.Engine
