/-
# `RedFireForge.Workflow.WorkflowRunner` — lists of scenarios run as a workflow

Without a graph a workflow is a list of scenarios.  `runWorkflow` passes on the results
with the fields that only the extraction of variables reads, and returns them without.
`runWorkflowLoad` runs the list many times; each run passes on the results of all that
have ended, and its own so far, so the lists of runs at the same time cross each other.
-/
import RedFireForge.Engine.Runners

namespace RedFireForge.Workflow

open RedFireForge.Lib
open RedFireForge.Engine (CircuitBreaker ProgressCall Result Runner AppendOnly returned_iff
  returned_isSome)

/-- The full body and the headers of the response are for extraction only. -/
def stripTransientFields : Result → Result
  | .step iteration i passed _ => .step iteration i passed false
  | r => r

/-! ## One run of the list -/

/-- The index of the loop is the number of results. -/
structure WorkflowRun where
  executing : Bool
  results : List Result
  breaker : CircuitBreaker
  aborted : Bool
  outcome : Option Engine.Outcome

namespace WorkflowRun

/-- `abortSignal?.aborted || breaker.shouldStop` -/
def stops (s : WorkflowRun) : Bool := s.aborted || s.breaker.shouldStop

/-- The head of the loop. -/
def turn (steps : ℕ) (s : WorkflowRun) : WorkflowRun :=
  if s.results.length < steps ∧ s.stops = false then { s with executing := true }
  else { s with outcome := some .resolved }

end WorkflowRun

inductive WorkflowChoice
  /-- a step ends -/
  | settle (passed : Bool)
  | throws
  /-- the think time is over -/
  | thought
  | abort
deriving DecidableEq, Repr

/-- After the last step there is no think time. -/
def workflowNext (steps : ℕ) :
    WorkflowChoice → WorkflowRun → Option (WorkflowRun × List (ProgressCall Result))
  | .settle passed, s =>
      if s.executing then
        let results := s.results ++ [.step 0 s.results.length passed true]
        let s := { s with executing := false, results, breaker := s.breaker.record passed }
        some (if results.length < steps then s else s.turn steps,
          [{ completed := results.length, total := steps, allResults := results }])
      else none
  | .throws, s =>
      if s.executing then some ({ s with executing := false, outcome := some .rejected }, []) else none
  | .thought, s => if !s.executing ∧ s.outcome = none then some (s.turn steps, []) else none
  | .abort, s => some ({ s with aborted := true }, [])

def runWorkflow (steps : ℕ) (breaker : CircuitBreaker) (aborted : Bool) : Runner Result where
  State := WorkflowRun
  Choice := WorkflowChoice
  start := (WorkflowRun.turn steps ⟨false, [], breaker, aborted, none⟩, [])
  next := workflowNext steps
  returned s :=
    if s.outcome = some .resolved then some (s.results.map stripTransientFields) else none
  rejected s := decide (s.outcome = some .rejected)

/-! ## Many runs of the list -/

structure WorkflowLoadArgs where
  steps : ℕ
  iterations : ℕ
  concurrency : ℕ

/-- An iteration waits for its turn of the loop, executes a step, or has thrown. -/
inductive IterationPhase
  | waiting | executing | failed
deriving DecidableEq, Repr

/-- An iteration that has ended has its stripped results in `jobs.results`; `partials`
are those of one that has not.  `woken` says that the main loop can go on after its
`await`, `exited` that it waits for the iterations that are left. -/
structure WorkflowLoad where
  jobs : Jobs (List Result)
  partials : ℕ → List Result
  phase : ℕ → IterationPhase
  woken : Bool
  exited : Bool
  breaker : CircuitBreaker
  aborted : Bool
  outcome : Option Engine.Outcome

namespace WorkflowLoad

def stops (s : WorkflowLoad) : Bool := s.aborted || s.breaker.shouldStop

def allResults (s : WorkflowLoad) : List Result := s.jobs.results.flatMap Prod.snd

/-- When the main loop has ended and all iterations have, the promise is resolved. -/
def close (s : WorkflowLoad) : WorkflowLoad :=
  if s.exited ∧ s.jobs.inFlight = 0 then { s with outcome := s.outcome <|> some .resolved } else s

/-- The main loop, up to its next `await`.  With a concurrency of one or less it awaits
each iteration. -/
def resume (c : WorkflowLoadArgs) (s : WorkflowLoad) : WorkflowLoad :=
  let s := { s with woken := false }
  if s.jobs.launched < c.iterations ∧ s.stops = false then
    let (jobs, _) := Jobs.startUpTo (max 1 c.concurrency) (some c.iterations) false (fun _ => false)
      s.jobs
    { s with
      jobs
      phase := fun i => if s.jobs.launched ≤ i ∧ 0 < c.steps then .executing else s.phase i }
  else close { s with exited := true }

def start (breaker : CircuitBreaker) (aborted : Bool) : WorkflowLoad where
  jobs := .new
  partials := fun _ => []
  phase := fun _ => .waiting
  woken := false
  exited := false
  breaker := breaker
  aborted := aborted
  outcome := none

end WorkflowLoad

inductive WorkflowLoadChoice
  /-- a step of iteration `i` ends -/
  | step (i : ℕ) (passed : Bool)
  | throws (i : ℕ)
  /-- iteration `i` is at the head of its loop again, or has left it -/
  | turn (i : ℕ)
  /-- an iteration that has ended is taken from the pool -/
  | callback
  /-- the main loop goes on after its `await` -/
  | resume
  | abort
deriving DecidableEq, Repr

def workflowLoadNext (c : WorkflowLoadArgs) :
    WorkflowLoadChoice → WorkflowLoad → Option (WorkflowLoad × List (ProgressCall Result))
  | .step i passed, s =>
      if i ∈ s.jobs.running ∧ s.phase i = .executing then
        let results := s.partials i ++ [.step i (s.partials i).length passed true]
        some ({ s with
            partials := Function.update s.partials i results
            phase := Function.update s.phase i .waiting
            breaker := s.breaker.record passed },
          [{ completed := s.allResults.length + results.length
             total := c.steps * c.iterations
             allResults := s.allResults ++ results }])
      else none
  | .throws i, s =>
      if i ∈ s.jobs.running ∧ s.phase i = .executing then
        some ({ s with
          phase := Function.update s.phase i .failed
          outcome := s.outcome <|> some .rejected }, [])
      else none
  | .turn i, s =>
      if i ∈ s.jobs.running ∧ s.phase i = .waiting then
        if (s.partials i).length < c.steps ∧ s.stops = false then
          some ({ s with phase := Function.update s.phase i .executing }, [])
        else
          some ({ s with jobs := s.jobs.settle i ((s.partials i).map stripTransientFields) }, [])
      else none
  | .callback, s =>
      if 0 < s.jobs.due then
        some (WorkflowLoad.close { s with jobs := s.jobs.collect, woken := true }, [])
      else none
  | .resume, s =>
      if s.woken ∧ !s.exited ∧ s.outcome = none then some (s.resume c, []) else none
  | .abort, s => some ({ s with aborted := true }, [])

def runWorkflowLoad (c : WorkflowLoadArgs) (breaker : CircuitBreaker) (aborted : Bool) :
    Runner Result where
  State := WorkflowLoad
  Choice := WorkflowLoadChoice
  start := ((WorkflowLoad.start breaker aborted).resume c, [])
  next := workflowLoadNext c
  returned s := if s.outcome = some .resolved then some s.allResults else none
  rejected s := decide (s.outcome = some .rejected)

/-! ## What is passed on -/

section Once

variable {β : Type} (f : Result → β) {steps : ℕ} {ch : WorkflowChoice} {s s' : WorkflowRun}
  {calls : List (ProgressCall Result)}

/-- A step ends only if `f` does not look at what is stripped. -/
def StepKept : WorkflowChoice → WorkflowRun → Prop
  | .settle _, _ => ∀ r, f (stripTransientFields r) = f r
  | _, _ => True

/-- Once settled nothing is executed; what is to be stripped makes no difference. -/
structure WorkflowRunInv (s : WorkflowRun) : Prop where
  settled : s.outcome ≠ none → s.executing = false
  kept : s.results.map (f ∘ stripTransientFields) = s.results.map f

variable {f}

theorem runTurn_inv (hout : s.outcome = none) (hexec : s.executing = false)
    (hkept : s.results.map (f ∘ stripTransientFields) = s.results.map f) :
    WorkflowRunInv f (s.turn steps) ∧ (s.turn steps).results = s.results := by
  unfold WorkflowRun.turn
  split
  · exact ⟨⟨fun h => absurd hout h, hkept⟩, rfl⟩
  · exact ⟨⟨fun _ => hexec, hkept⟩, rfl⟩

theorem workflowNext_spec (hI : WorkflowRunInv f s) (hok : StepKept f ch s)
    (h : workflowNext steps ch s = some (s', calls)) :
    WorkflowRunInv f s' ∧ s.results <+: s'.results ∧
      (∀ call ∈ calls, call.allResults = s'.results) ∧
      (s.outcome ≠ none → calls = [] ∧ s'.outcome = s.outcome) := by
  cases ch with
  | settle passed =>
      obtain ⟨hexec, h⟩ := Option.ite_none_right_eq_some.mp h
      obtain ⟨hs', hcalls⟩ := Prod.mk.inj (Option.some.inj h)
      have hopen : ¬ s.outcome ≠ none := by
        intro hout
        rw [hI.settled hout] at hexec
        cases hexec
      have hout := not_not.mp hopen
      have hkept : (s.results ++ [Result.step 0 s.results.length passed true]).map
          (f ∘ stripTransientFields) =
          (s.results ++ [Result.step 0 s.results.length passed true]).map f :=
        List.map_congr_left (fun r _ => hok r)
      have hnext : WorkflowRunInv f s' ∧
          s'.results = s.results ++ [Result.step 0 s.results.length passed true] := by
        split at hs'
        next =>
          cases hs'
          exact ⟨⟨fun hne => absurd hout hne, hkept⟩, rfl⟩
        next =>
          cases hs'
          exact runTurn_inv hout rfl hkept
      refine ⟨hnext.1, hnext.2 ▸ List.prefix_append _ _, fun call hcall => ?_,
        fun hne => absurd hne hopen⟩
      rw [← hcalls] at hcall
      rw [List.mem_singleton.mp hcall, hnext.2]
  | throws =>
      obtain ⟨hexec, h⟩ := Option.ite_none_right_eq_some.mp h
      cases h
      refine ⟨⟨fun _ => rfl, hI.kept⟩, List.prefix_refl _, nofun, fun hout => ?_⟩
      rw [hI.settled hout] at hexec
      cases hexec
  | thought =>
      obtain ⟨hidle, h⟩ := Option.ite_none_right_eq_some.mp h
      cases h
      have hexec : s.executing = false := by
        simpa using hidle.1
      obtain ⟨hinv, hresults⟩ := @runTurn_inv _ f steps s hidle.2 hexec hI.kept
      exact ⟨hinv, hresults ▸ List.prefix_refl _, nofun, fun hout => absurd hidle.2 hout⟩
  | abort =>
      cases h
      exact ⟨⟨hI.settled, hI.kept⟩, List.prefix_refl _, nofun, fun _ => ⟨rfl, rfl⟩⟩

variable (f)

/-- The results so far, as far as `f` looks. -/
def workflowAppends (steps : ℕ) (breaker : CircuitBreaker) (aborted : Bool) :
    AppendOnly (runWorkflow steps breaker aborted) f (StepKept f) (fun _ => True) where
  Inv := WorkflowRunInv f
  list s := s.results.map f
  start := ⟨(runTurn_inv rfl rfl rfl).1, nofun⟩
  step := by
    intro ch s s' calls hI hok h
    obtain ⟨hI', hlist, hcalls, -⟩ := workflowNext_spec hI hok h
    exact ⟨hI', hlist.map f, fun call hcall => by rw [hcalls call hcall]⟩
  returned := by
    intro s l hI h
    rw [(returned_iff.mp h).2, List.map_map]
    exact hI.kept
  quiet := by
    intro ch s s' calls hI hok hreturned _ h
    have hout := returned_isSome.mp hreturned
    obtain ⟨hcalls, hout'⟩ := (workflowNext_spec hI hok h).2.2.2 (by rw [hout]; exact nofun)
    exact ⟨hcalls, returned_isSome.mpr (hout'.trans hout), trivial⟩

end Once

section FlatMap

variable {α : Type} {g : ℕ → List α} {l : List ℕ} {i : ℕ}

theorem flatMap_nil (h : ∀ j ∈ l, g j = []) : l.flatMap g = [] :=
  List.flatMap_eq_nil_iff.mpr h

/-- One member that contributes. -/
theorem flatMap_alone (hl : l.Nodup) (hi : i ∈ l) (h : ∀ j ∈ l, j ≠ i → g j = []) :
    l.flatMap g = g i := by
  obtain ⟨before, after, rfl⟩ := List.append_of_mem hi
  have hne : ∀ j ∈ before ++ after, j ≠ i := by
    rintro j hj rfl
    exact (List.nodup_middle.mp hl).notMem hj
  have hnone : ∀ j ∈ before ++ after, g j = [] := by
    intro j hj
    refine h j ?_ (hne j hj)
    rw [List.mem_append, List.mem_cons]
    exact (List.mem_append.mp hj).imp_right Or.inr
  rw [List.flatMap_append, List.flatMap_cons,
    flatMap_nil (fun j hj => hnone j (List.mem_append_left _ hj)),
    flatMap_nil (fun j hj => hnone j (List.mem_append_right _ hj)), List.nil_append, List.append_nil]

/-- One that contributes nothing. -/
theorem flatMap_erase (h : g i = []) : (l.erase i).flatMap g = l.flatMap g := by
  induction l with
  | nil => rfl
  | cons j l ih =>
      rw [List.erase_cons]
      split
      next heq =>
        rw [List.flatMap_cons, beq_iff_eq.mp heq, h, List.nil_append]
      next => rw [List.flatMap_cons, List.flatMap_cons, ih]

end FlatMap

section Many

variable {β : Type} (f : Result → β) {c : WorkflowLoadArgs} {ch : WorkflowLoadChoice}
  {s s' : WorkflowLoad} {calls : List (ProgressCall Result)}

/-- A step ends only if `f` does not look at what is stripped, and no other iteration
that runs has results of its own. -/
def StepAlone : WorkflowLoadChoice → WorkflowLoad → Prop
  | .step i _, s => (∀ r, f (stripTransientFields r) = f r) ∧
      ∀ j ∈ s.jobs.running, j ≠ i → s.partials j = []
  | _, _ => True

/-- The results of all iterations, ended or not. -/
def WorkflowLoad.soFar (s : WorkflowLoad) : List Result :=
  s.allResults ++ s.jobs.running.flatMap s.partials

/-- At most one iteration that runs has results; what is to be stripped makes no difference. -/
structure WorkflowLoadInv (s : WorkflowLoad) : Prop where
  jobs : s.jobs.Inv
  fresh : ∀ i, s.jobs.launched ≤ i → s.partials i = []
  alone : ∀ i ∈ s.jobs.running, ∀ j ∈ s.jobs.running, s.partials i ≠ [] → s.partials j ≠ [] → i = j
  kept : ∀ i, (s.partials i).map (f ∘ stripTransientFields) = (s.partials i).map f
  resolved : s.outcome = some .resolved → s.jobs.inFlight = 0

variable {f}

theorem running_nodup (h : s.jobs.Inv) : s.jobs.running.Nodup := (List.nodup_append.mp h.distinct).1

/-- With nothing in flight nothing runs, and no end is to be noticed. -/
theorem idle_of_inFlight (h : s.jobs.Inv) (hzero : s.jobs.inFlight = 0) :
    s.jobs.running = [] ∧ s.jobs.due = 0 := by
  have hlength := h.accounted_length.1
  have haccounts := h.accounts
  simp only [Jobs.accounted, List.length_append, List.length_map] at hlength
  exact ⟨List.eq_nil_of_length_eq_zero (by omega), by omega⟩

theorem close_inv (h : WorkflowLoadInv f s) : WorkflowLoadInv f s.close ∧ s.close.soFar = s.soFar := by
  unfold WorkflowLoad.close
  split
  next hend => exact ⟨⟨h.jobs, h.fresh, h.alone, h.kept, fun _ => hend.2⟩, rfl⟩
  next => exact ⟨h, rfl⟩

/-- New iterations have no results. -/
theorem resume_inv (h : WorkflowLoadInv f s) (hout : s.outcome = none) :
    WorkflowLoadInv f (s.resume c) ∧ (s.resume c).soFar = s.soFar := by
  have hstarts : Jobs.Starts (max 1 c.concurrency) (some c.iterations) false (fun _ => false) s.jobs
    _ := Jobs.startUpTo_starts
  unfold WorkflowLoad.resume
  dsimp only
  split
  next =>
    generalize Jobs.startUpTo (max 1 c.concurrency) (some c.iterations) false (fun _ => false) s.jobs =
      out at hstarts
    cases hstarts with
    | threw k hbefore hstop hlimit htotal hthrow => cases hthrow
    | ended k =>
        have hnew : ∀ i ∈ List.range' s.jobs.launched k, s.partials i = [] :=
          fun i hi => h.fresh i (List.mem_range'_1.mp hi).1
        have hold : ∀ i ∈ s.jobs.running ++ List.range' s.jobs.launched k, s.partials i ≠ [] →
            i ∈ s.jobs.running := by
          intro i hi hne
          exact (List.mem_append.mp hi).resolve_right (fun hi => hne (hnew i hi))
        refine ⟨⟨h.jobs.startMany k, fun i hi => h.fresh i ?_, ?_, h.kept, fun hres => ?_⟩, ?_⟩
        · exact (Nat.le_add_right _ _).trans hi
        · intro i hi j hj hne hne'
          exact h.alone i (hold i hi hne) j (hold j hj hne') hne hne'
        · exact absurd (hout.symm.trans hres) nofun
        · show s.allResults ++
            (s.jobs.running ++ List.range' s.jobs.launched k).flatMap s.partials = s.soFar
          rw [List.flatMap_append, flatMap_nil hnew, List.append_nil]
          rfl
  next =>
    exact close_inv (s := { s with woken := false, exited := true })
      ⟨h.jobs, h.fresh, h.alone, h.kept, h.resolved⟩

/-- The end of an iteration moves its results to those of all. -/
theorem settle_inv {i : ℕ} (h : WorkflowLoadInv f s) (hi : i ∈ s.jobs.running) :
    WorkflowLoadInv f
        { s with jobs := s.jobs.settle i ((s.partials i).map stripTransientFields) } ∧
      (WorkflowLoad.soFar
        { s with jobs := s.jobs.settle i ((s.partials i).map stripTransientFields) }).map f =
        s.soFar.map f := by
  have hnodup := running_nodup h.jobs
  refine ⟨⟨h.jobs.settle hi, h.fresh, ?_, h.kept, fun hres => ?_⟩, ?_⟩
  · intro j hj k hk
    exact h.alone j (List.mem_of_mem_erase hj) k (List.mem_of_mem_erase hk)
  · have hidle := (idle_of_inFlight h.jobs (h.resolved hres)).1
    rw [hidle] at hi
    cases hi
  · have hrest : (s.partials i ++ (s.jobs.running.erase i).flatMap s.partials) =
        s.jobs.running.flatMap s.partials := by
      rcases eq_or_ne (s.partials i) [] with hempty | hsome
      · rw [hempty, List.nil_append, flatMap_erase hempty]
      · have hothers : ∀ j ∈ s.jobs.running, j ≠ i → s.partials j = [] := by
          intro j hj hne
          by_contra hsome'
          exact hne (h.alone j hj i hi hsome' hsome)
        rw [flatMap_alone hnodup hi hothers, flatMap_nil, List.append_nil]
        intro j hj
        rw [hnodup.mem_erase_iff] at hj
        exact hothers j hj.2 hj.1
    show ((s.jobs.results ++ [(i, (s.partials i).map stripTransientFields)]).flatMap Prod.snd ++
      (s.jobs.running.erase i).flatMap s.partials).map f = _
    rw [List.flatMap_append, List.map_append, List.map_append, List.flatMap_singleton, List.map_map,
      h.kept, List.append_assoc, ← List.map_append, hrest, ← List.map_append]
    rfl

theorem step_inv {i : ℕ} {passed : Bool} (h : WorkflowLoadInv f s) (hi : i ∈ s.jobs.running)
    (hok : StepAlone f (.step i passed) s) {breaker : CircuitBreaker} {phase : ℕ → IterationPhase}
    {results : List Result} (hresults : s.partials i <+: results) :
    WorkflowLoadInv f
        { s with partials := Function.update s.partials i results, breaker, phase } ∧
      WorkflowLoad.soFar
        { s with partials := Function.update s.partials i results, breaker, phase } =
          s.allResults ++ results ∧ s.soFar <+: s.allResults ++ results := by
  have hnodup := running_nodup h.jobs
  have hself : Function.update s.partials i results i = results := Function.update_self ..
  have hother : ∀ j ∈ s.jobs.running, j ≠ i → Function.update s.partials i results j = [] := by
    intro j hj hne
    rw [Function.update_of_ne hne]
    exact hok.2 j hj hne
  refine ⟨⟨h.jobs, fun j hj => ?_, ?_, fun j => List.map_congr_left (fun r _ => hok.1 r), h.resolved⟩,
    ?_, ?_⟩
  · have hlt := h.jobs.launched i (List.mem_append_left _ hi)
    show Function.update s.partials i results j = []
    rw [Function.update_of_ne (Nat.ne_of_gt (Nat.lt_of_lt_of_le hlt hj))]
    exact h.fresh j hj
  · intro j hj k hk hne hne'
    have hj : j = i := by
      by_contra hji
      exact hne (hother j hj hji)
    have hk : k = i := by
      by_contra hki
      exact hne' (hother k hk hki)
    rw [hj, hk]
  · show s.allResults ++ s.jobs.running.flatMap (Function.update s.partials i results) = _
    rw [flatMap_alone hnodup hi hother, hself]
  · unfold WorkflowLoad.soFar
    rw [flatMap_alone hnodup hi hok.2]
    exact (List.prefix_append_right_inj _).mpr hresults

theorem workflowLoadNext_spec (hI : WorkflowLoadInv f s) (hok : StepAlone f ch s)
    (h : workflowLoadNext c ch s = some (s', calls)) :
    WorkflowLoadInv f s' ∧ s.soFar.map f <+: s'.soFar.map f ∧
      (∀ call ∈ calls, call.allResults = s'.soFar) ∧
      (s.outcome = some .resolved → calls = [] ∧ s'.outcome = some .resolved) := by
  have hidle : s.outcome = some .resolved → s.jobs.running = [] ∧ s.jobs.due = 0 :=
    fun hout => idle_of_inFlight hI.jobs (hI.resolved hout)
  have hbusy : ∀ {i}, i ∈ s.jobs.running → s.outcome ≠ some .resolved := by
    intro i hi hout
    rw [(hidle hout).1] at hi
    cases hi
  cases ch with
  | step i passed =>
      obtain ⟨⟨hi, -⟩, h⟩ := Option.ite_none_right_eq_some.mp h
      cases h
      obtain ⟨hinv, hsoFar, hlist⟩ := step_inv hI hi hok (List.prefix_append _ _)
      refine ⟨hinv, hsoFar ▸ hlist.map f, fun call hcall => ?_, fun hout => absurd hout (hbusy hi)⟩
      rw [List.mem_singleton.mp hcall, hsoFar]
  | throws i =>
      obtain ⟨⟨hi, -⟩, h⟩ := Option.ite_none_right_eq_some.mp h
      cases h
      refine ⟨⟨hI.jobs, hI.fresh, hI.alone, hI.kept, fun hout => ?_⟩, List.prefix_refl _, nofun,
        fun hout => absurd hout (hbusy hi)⟩
      refine hI.resolved ?_
      change (s.outcome <|> some .rejected) = some .resolved at hout
      cases hs : s.outcome with
      | none =>
          rw [hs] at hout
          cases hout
      | some outcome =>
          rw [hs] at hout
          exact hout
  | turn i =>
      obtain ⟨⟨hi, -⟩, h⟩ := Option.ite_none_right_eq_some.mp h
      split at h
      next =>
        cases h
        exact ⟨⟨hI.jobs, hI.fresh, hI.alone, hI.kept, hI.resolved⟩, List.prefix_refl _, nofun,
          fun hout => absurd hout (hbusy hi)⟩
      next =>
        cases h
        obtain ⟨hinv, hsoFar⟩ := settle_inv hI hi
        exact ⟨hinv, hsoFar ▸ List.prefix_refl _, nofun, fun hout => absurd hout (hbusy hi)⟩
  | callback =>
      obtain ⟨hdue, h⟩ := Option.ite_none_right_eq_some.mp h
      cases h
      have hopen : s.outcome ≠ some .resolved := by
        intro hout
        have := (hidle hout).2
        omega
      have hcollect : WorkflowLoadInv f { s with jobs := s.jobs.collect, woken := true } :=
        ⟨hI.jobs.collect hdue, hI.fresh, hI.alone, hI.kept, fun hout => absurd hout hopen⟩
      obtain ⟨hinv, hsoFar⟩ := close_inv hcollect
      refine ⟨hinv, ?_, nofun, fun hout => absurd hout hopen⟩
      exact hsoFar ▸ List.prefix_refl _
  | resume =>
      obtain ⟨⟨-, -, hout⟩, h⟩ := Option.ite_none_right_eq_some.mp h
      cases h
      obtain ⟨hinv, hsoFar⟩ := resume_inv (c := c) hI hout
      refine ⟨hinv, ?_, nofun, fun hres => absurd (hout.symm.trans hres) nofun⟩
      exact hsoFar ▸ List.prefix_refl _
  | abort =>
      cases h
      exact ⟨⟨hI.jobs, hI.fresh, hI.alone, hI.kept, hI.resolved⟩, List.prefix_refl _, nofun,
        fun hout => ⟨rfl, hout⟩⟩

variable (f)

/-- The results of all iterations, as far as `f` looks. -/
def workflowLoadAppends (c : WorkflowLoadArgs) (breaker : CircuitBreaker) (aborted : Bool) :
    AppendOnly (runWorkflowLoad c breaker aborted) f (StepAlone f) (fun _ => True) where
  Inv := WorkflowLoadInv f
  list s := s.soFar.map f
  start := by
    have hstart : WorkflowLoadInv f (WorkflowLoad.start breaker aborted) :=
      ⟨Jobs.new_inv.1, fun _ _ => rfl, nofun, fun _ => rfl, nofun⟩
    exact ⟨(resume_inv hstart rfl).1, nofun⟩
  step := by
    intro ch s s' calls hI hok h
    obtain ⟨hI', hlist, hcalls, -⟩ := workflowLoadNext_spec hI hok h
    exact ⟨hI', hlist, fun call hcall => by rw [hcalls call hcall]⟩
  returned := by
    intro s l hI h
    obtain ⟨hout, rfl⟩ := returned_iff.mp h
    unfold WorkflowLoad.soFar
    rw [(idle_of_inFlight hI.jobs (hI.resolved hout)).1, List.flatMap_nil, List.append_nil]
  quiet := by
    intro ch s s' calls hI hok hreturned _ h
    obtain ⟨hcalls, hout⟩ :=
      (workflowLoadNext_spec hI hok h).2.2.2 (returned_isSome.mp hreturned)
    exact ⟨hcalls, returned_isSome.mpr hout, trivial⟩

end Many

end RedFireForge.Workflow
