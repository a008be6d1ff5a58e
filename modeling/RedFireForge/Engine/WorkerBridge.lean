/-
# `RedFireForge.Engine.WorkerBridge` — tests in one worker and in many

`runTestInWorker` resolves with what one worker sends up to `done`.  `runTestMultiWorker`
gathers what many workers send, in the order in which their messages arrive, and resolves
at the last `done`.  Both resolve with what `runTest` returned in the workers, if each
runner passes one growing list on, and, for many workers, nothing is sent after `done`.
-/
import Mathlib.Algebra.BigOperators.Group.Finset.Basic
import Mathlib.Algebra.Order.BigOperators.Group.Finset
import Mathlib.Data.Fintype.BigOperators
import RedFireForge.Workflow.WorkflowRunner

namespace RedFireForge.Engine

open RedFireForge.Lib
open RedFireForge.Workflow (GraphLoadRunOpts WorkflowLoadArgs runWorkflow runWorkflowLoad StepKept
  StepAlone workflowAppends workflowLoadAppends)

/-! ## The modes of `runTest` -/

/-- By the execution mode: a workflow with a graph, or a list of scenarios, run once or
many times; a load profile; a queue. -/
inductive Test
  | graph (c : GraphLoadRunOpts)
  | workflow (steps : ℕ)
  | workflowLoad (c : WorkflowLoadArgs)
  | loadProfile (c : LoadArgs) (elapsed : ℚ)
  | sequential (total : ℕ)
  | pool (c : PoolArgs)
  | batch (total concurrency : ℕ)

/-- The signal of the worker is new. -/
def runTest (breaker : CircuitBreaker) : Test → Runner Result
  | .graph c => graphRunner c breaker false
  | .workflow steps => runWorkflow steps breaker false
  | .workflowLoad c => runWorkflowLoad c breaker false
  | .loadProfile c elapsed => loadRunner c breaker false elapsed
  | .sequential total => sequentialTurns total breaker false
  | .pool c => poolRunner c breaker false
  | .batch total concurrency => batchTurns total concurrency breaker false

/-- A turn passes the results on as `f` sees them in the list of the promise: where a step
of a list of scenarios ends, `f` does not look at what is stripped, and no other iteration
has results of its own. -/
def Keeps {β : Type} (f : Result → β) (breaker : CircuitBreaker) :
    (t : Test) → (runTest breaker t).Choice → (runTest breaker t).State → Prop
  | .workflow _ => StepKept f
  | .workflowLoad _ => StepAlone f
  | .graph _ | .loadProfile _ _ | .sequential _ | .pool _ | .batch _ _ => fun _ _ => True

/-- The pool has nothing in flight. -/
def AtRest (breaker : CircuitBreaker) : (t : Test) → (runTest breaker t).State → Prop
  | .pool _ => fun s => s.jobs.inFlight = 0
  | .graph _ | .workflow _ | .workflowLoad _ | .loadProfile _ _ | .sequential _ | .batch _ _ =>
      fun _ => True

def appends {β : Type} (f : Result → β) (breaker : CircuitBreaker) :
    (t : Test) → AppendOnly (runTest breaker t) f (Keeps f breaker t) (AtRest breaker t)
  | .graph c => graphAppends f c breaker false
  | .workflow steps => workflowAppends f steps breaker false
  | .workflowLoad c => workflowLoadAppends f c breaker false
  | .loadProfile c elapsed => loadAppends f c breaker false elapsed
  | .sequential _ => serialAppends f _ breaker false
  | .pool c => poolAppends f c breaker false
  | .batch _ _ => serialAppends f _ breaker false

/-! ## One worker -/

/-- What has been received, and how the promise is settled by the messages; after that
none is listened to. -/
def runTestInWorker : List Result → List (WorkerToMain Result) → List Result × Option Outcome
  | allResults, [] => (allResults, none)
  | allResults, .progress _ _ newResults _ :: messages =>
      runTestInWorker (allResults ++ newResults) messages
  | allResults, .done newResults :: _ => (allResults ++ newResults, some .resolved)
  | allResults, .error :: _ => (allResults, some .rejected)

theorem runTestInWorker_resolved {messages : List (WorkerToMain Result)} {allResults results : List Result}
    (h : runTestInWorker allResults messages = (results, some .resolved)) :
    messages.any (·.isDone) = true ∧ results = allResults ++ streamed messages := by
  induction messages generalizing allResults with
  | nil => cases h
  | cons m messages ih =>
      cases m with
      | progress completed total newResults progressMeta =>
          obtain ⟨hdone, hresults⟩ := ih h
          refine ⟨?_, ?_⟩
          · rw [List.any_cons, hdone, Bool.or_true]
          · rw [hresults, List.append_assoc]
            rfl
      | done newResults =>
          cases h
          exact ⟨rfl, by simp [streamed, WorkerToMain.newResults, WorkerToMain.isDone]⟩
      | error => cases h

/-! ## Many workers -/

structure BridgeArgs where
  isLoadProfile : Bool
  totalConcurrency : ℤ

/-- The state of the promise; `shown` is what was last passed to the `onProgress` of the
caller. -/
structure Main (n : ℕ) where
  allResults : List Result
  completedPerWorker : Fin n → ℤ
  totalPerWorker : Fin n → ℤ
  metaPerWorker : Fin n → Option ProgressMeta
  doneCount : ℕ
  settled : Bool
  outcome : Option Outcome
  shown : Option (ProgressCall Result)

def Main.new (n : ℕ) : Main n where
  allResults := []
  completedPerWorker := fun _ => 0
  totalPerWorker := fun _ => 0
  metaPerWorker := fun _ => none
  doneCount := 0
  settled := false
  outcome := none
  shown := none

def aggregateMeta {n : ℕ} (b : BridgeArgs) (metaPerWorker : Fin n → Option ProgressMeta)
    (own : ProgressMeta) : ProgressMeta :=
  let metas := (List.ofFn metaPerWorker).filterMap id
  if n > 1 then
    { elapsedMs := (metas.map (·.elapsedMs)).foldl max 0
      targetConcurrency :=
        if b.isLoadProfile then (metas.map (·.targetConcurrency)).sum else b.totalConcurrency
      currentInFlight :=
        if b.isLoadProfile then (metas.map (·.currentInFlight)).sum else b.totalConcurrency
      durationMs := own.durationMs }
  else own

/-- `createWorkerHandler` -/
def Main.onMessage {n : ℕ} (b : BridgeArgs) (m : Main n) (workerIdx : Fin n) :
    WorkerToMain Result → Main n
  | .progress completed total newResults progressMeta =>
      if m.settled then m
      else
        let allResults := m.allResults ++ newResults
        let completedPerWorker := Function.update m.completedPerWorker workerIdx completed
        let totalPerWorker := Function.update m.totalPerWorker workerIdx total
        let metaPerWorker := Function.update m.metaPerWorker workerIdx progressMeta
        { m with
          allResults
          completedPerWorker
          totalPerWorker
          metaPerWorker
          shown := some
            { completed := (List.ofFn completedPerWorker).sum
              total := if b.isLoadProfile then -1 else (List.ofFn totalPerWorker).sum
              allResults
              progressMeta := progressMeta.map (aggregateMeta b metaPerWorker) } }
  | .done newResults =>
      if m.settled then m
      else
        let m := { m with allResults := m.allResults ++ newResults, doneCount := m.doneCount + 1 }
        if m.doneCount ≥ n then { m with settled := true, outcome := some .resolved } else m
  | .error => if m.settled then m else { m with settled := true, outcome := some .rejected }

/-- `delivered` counts the messages of a worker that have arrived. -/
structure System {n : ℕ} (tests : Fin n → CircuitBreaker × Test) where
  workers : (i : Fin n) → WorkerRun (runTest (tests i).1 (tests i).2)
  delivered : Fin n → ℕ
  main : Main n

inductive SystemChoice {n : ℕ} (tests : Fin n → CircuitBreaker × Test)
  | worker (i : Fin n) (ch : WorkerChoice (runTest (tests i).1 (tests i).2).Choice)
  /-- the next message of worker `i` arrives -/
  | deliver (i : Fin n)

section System

variable {n : ℕ} {tests : Fin n → CircuitBreaker × Test}

def systemStart (tests : Fin n → CircuitBreaker × Test) (clock : Fin n → ℕ → ℚ) : System tests where
  workers := fun i => workerStart _ (clock i)
  delivered := fun _ => 0
  main := .new n

/-- `runTestMultiWorker`: the workers on their own, each with a queue to the main thread. -/
def systemNext (b : BridgeArgs) (tests : Fin n → CircuitBreaker × Test) :
    SystemChoice tests → System tests → Option (System tests)
  | .worker i ch, s =>
      (workerNext _ ch (s.workers i)).map (fun w =>
        { s with workers := Function.update s.workers i w })
  | .deliver i, s =>
      ((s.workers i).worker.posted[s.delivered i]?).map (fun message =>
        { s with
          delivered := Function.update s.delivered i (s.delivered i + 1)
          main := s.main.onMessage b i message })

/-- The turns of a worker keep the results as `f` sees them, and when it goes on after its
`await`, its runner is at rest. -/
def WorkerKeeps {β : Type} (f : Result → β) (test : CircuitBreaker × Test) :
    WorkerChoice (runTest test.1 test.2).Choice → WorkerRun (runTest test.1 test.2) → Prop
  | .turn c _, w => Keeps f test.1 test.2 c w.runner
  | .done, w => AtRest test.1 test.2 w.runner
  | .error, _ => True

def SystemKeeps {β : Type} (f : Result → β) (tests : Fin n → CircuitBreaker × Test) :
    SystemChoice tests → System tests → Prop
  | .worker i ch, s => WorkerKeeps f (tests i) ch (s.workers i)
  | .deliver _, _ => True

/-! ## What the main thread gathers -/

variable {β : Type} {f : Result → β} {b : BridgeArgs} {clock : Fin n → ℕ → ℚ} {s s' : System tests}
  {i : Fin n}

/-- The messages of a worker that have arrived. -/
def System.heard (s : System tests) (i : Fin n) : List (WorkerToMain Result) :=
  (s.workers i).worker.posted.take (s.delivered i)

/-- What the elements are, as `f` sees them, in no order. -/
def bag (f : Result → β) (results : List Result) : Multiset β := (results.map f : Multiset β)

theorem bag_append {results results' : List Result} :
    bag f (results ++ results') = bag f results + bag f results' := by
  unfold bag
  rw [List.map_append, ← Multiset.coe_add]

/-- A sum over the workers, when one of them has been heard once more. -/
theorem sum_update {M : Type} [AddCommMonoid M] {γ : Type} (g : γ → M) (h : Fin n → γ) (i : Fin n)
    {x : γ} {y : M} (hx : g x = g (h i) + y) :
    ∑ j, g (Function.update h i x j) = ∑ j, g (h j) + y := by
  have hrest : ∀ j ∈ Finset.univ.erase i, g (Function.update h i x j) = g (h j) := by
    intro j hj
    rw [Function.update_of_ne (Finset.ne_of_mem_erase hj)]
  rw [← Finset.add_sum_erase _ _ (Finset.mem_univ i), ← Finset.add_sum_erase _ _ (Finset.mem_univ i),
    Function.update_self, hx, Finset.sum_congr rfl hrest, add_right_comm]

/-- A worker that has gone on after its `await` sends nothing more. -/
structure Ended {test : CircuitBreaker × Test} (w : WorkerRun (runTest test.1 test.2)) : Prop where
  returned : ((runTest test.1 test.2).returned w.runner).isSome = true
  rest : AtRest test.1 test.2 w.runner
  last : ∃ messages newResults, w.worker.posted = messages ++ [.done newResults] ∧
    messages.any (·.isDone) = false

structure WorkersInv (f : Result → β) (s : System tests) : Prop where
  workers : ∀ i, WorkerInv (appends f (tests i).1 (tests i).2) (s.workers i)
  ended : ∀ i, (s.workers i).finished.isSome = true → Ended (s.workers i)
  delivered : ∀ i, s.delivered i ≤ (s.workers i).worker.posted.length

/-- Until the promise is settled everything heard is there; it is resolved with the lists of
all workers. -/
structure SystemInv (f : Result → β) (s : System tests) : Prop extends WorkersInv f s where
  received : s.main.settled = false → bag f s.main.allResults = ∑ i, bag f (sent (s.heard i)) ∧
    s.main.doneCount = ∑ i, (s.heard i).countP (·.isDone) ∧ s.main.outcome = none
  resolved : s.main.outcome = some .resolved → ∃ lists : Fin n → List Result,
    (∀ i, (s.workers i).finished = some (lists i)) ∧
      bag f s.main.allResults = ∑ i, bag f (lists i)

theorem countP_of_none {messages : List (WorkerToMain Result)} (h : messages.any (·.isDone) = false) :
    messages.countP (·.isDone) = 0 :=
  List.countP_eq_zero.mpr (List.any_eq_false.mp h)

/-- A worker posts `done` once, at its end. -/
theorem WorkersInv.countP_posted (hI : WorkersInv f s) (i : Fin n) :
    (s.workers i).worker.posted.countP (·.isDone) =
      if (s.workers i).finished.isSome then 1 else 0 := by
  split
  next hsome =>
    obtain ⟨messages, newResults, hposted, hnone⟩ := (hI.ended i hsome).last
    rw [hposted, List.countP_append, countP_of_none hnone]
    rfl
  next hnone =>
    refine countP_of_none ((hI.workers i).going ?_).1
    exact Option.not_isSome_iff_eq_none.mp hnone

theorem WorkersInv.countP_heard (hI : WorkersInv f s) (i : Fin n) :
    (s.heard i).countP (·.isDone) ≤ 1 := by
  have hle : (s.heard i).countP (·.isDone) ≤ (s.workers i).worker.posted.countP (·.isDone) :=
    (List.take_sublist _ _).countP_le
  refine hle.trans ?_
  rw [hI.countP_posted]
  split
  · exact le_rfl
  · exact Nat.zero_le _

/-- When `done` has been heard, all has been. -/
theorem WorkersInv.heard_all (hI : WorkersInv f s) (h : (s.heard i).countP (·.isDone) = 1) :
    ∃ l, (s.workers i).finished = some l ∧ bag f (sent (s.heard i)) = bag f l := by
  have hsome : (s.workers i).finished.isSome = true := by
    by_contra hnone
    have hle : (s.heard i).countP (·.isDone) ≤ (s.workers i).worker.posted.countP (·.isDone) :=
      (List.take_sublist _ _).countP_le
    rw [h, hI.countP_posted, if_neg hnone] at hle
    exact Nat.not_succ_le_zero _ hle
  obtain ⟨l, hl⟩ := Option.isSome_iff_exists.mp hsome
  obtain ⟨messages, newResults, hposted, hnone⟩ := (hI.ended i hsome).last
  have hheard : s.heard i = messages ++ [.done newResults] := by
    unfold System.heard at h ⊢
    rw [hposted] at h ⊢
    by_contra hne
    have hlt : s.delivered i ≤ messages.length := by
      by_contra hlt
      refine hne (List.take_of_length_le ?_)
      rw [List.length_append, List.length_singleton]
      omega
    rw [List.take_append_of_le_length hlt] at h
    have hzero := countP_of_none hnone
    have hle := (List.take_sublist (s.delivered i) messages).countP_le (p := (·.isDone))
    omega
  refine ⟨l, hl, ?_⟩
  have hstreamed := ((hI.workers i).ended l hl).2
  rw [hposted, streamed_done hnone] at hstreamed
  rw [hheard, sent_append, sent_singleton]
  exact congrArg Multiset.ofList hstreamed

section OneWorker

variable {test : CircuitBreaker × Test} {w w' : WorkerRun (runTest test.1 test.2)}
  {ch : WorkerChoice (runTest test.1 test.2).Choice}

theorem WorkerKeeps.meets (h : WorkerKeeps f test ch w) : TurnMeets (Keeps f test.1 test.2) ch w := by
  cases ch with
  | turn c clock => exact h
  | done => trivial
  | error => trivial

/-- Messages are added, none after `done`. -/
theorem workerNext_posted (hw : WorkerInv (appends f test.1 test.2) w)
    (hended : w.finished.isSome = true → Ended w) (hok : WorkerKeeps f test ch w)
    (h : workerNext _ ch w = some w') :
    (∃ messages, w'.worker.posted = w.worker.posted ++ messages) ∧
      (∀ l, w.finished = some l → w'.finished = some l) ∧
      (w'.finished.isSome = true → Ended w') := by
  cases ch with
  | turn c clock =>
      obtain ⟨⟨t, calls⟩, hstep, rfl⟩ := Option.map_eq_some_iff.mp h
      obtain ⟨messages, hposted, -⟩ := posted_onCalls w.worker clock calls
      refine ⟨⟨messages, hposted⟩, fun _ hl => hl, fun hsome => ?_⟩
      obtain ⟨hreturned, hrest, hlast⟩ := hended hsome
      obtain ⟨hcalls, hreturned', hrest'⟩ :=
        (appends f test.1 test.2).quiet hw.runner hok hreturned hrest hstep
      rw [hcalls]
      exact ⟨hreturned', hrest', hlast⟩
  | done =>
      rw [workerNext] at h
      split at h
      next => cases h
      next hopen =>
        obtain ⟨results, hreturned, rfl⟩ := Option.map_eq_some_iff.mp h
        have hgoing : w.finished = none := by
          rw [Bool.or_eq_true, not_or, Bool.not_eq_true, Option.isSome_eq_false_iff] at hopen
          exact Option.isNone_iff_eq_none.mp hopen.1
        obtain ⟨hnone, -⟩ := hw.going hgoing
        have hflush : ∃ messages, w.worker.flush.posted = w.worker.posted ++ messages ∧
            messages.any (·.isDone) = false := by
          unfold Worker.flush
          split
          next => exact ⟨_, rfl, rfl⟩
          next => exact ⟨[], (List.append_nil _).symm, rfl⟩
        obtain ⟨messages, hposted, hmessages⟩ := hflush
        refine ⟨⟨messages ++ [.done (results.drop w.worker.flush.lastSentCount)], ?_⟩, fun l hl => ?_,
          fun _ => ⟨Option.isSome_iff_exists.mpr ⟨results, hreturned⟩, hok, ?_⟩⟩
        · show w.worker.flush.posted ++ _ = _
          rw [hposted, List.append_assoc]
        · cases hgoing.symm.trans hl
        · refine ⟨w.worker.flush.posted, results.drop w.worker.flush.lastSentCount, rfl, ?_⟩
          rw [hposted, any_done_append hmessages]
          exact hnone
  | error =>
      obtain ⟨hgoing, h⟩ := Option.ite_none_right_eq_some.mp h
      cases h
      rw [Bool.and_eq_true, Bool.and_eq_true] at hgoing
      have hgoing := Option.isNone_iff_eq_none.mp hgoing.1.1
      refine ⟨⟨[.error], rfl⟩, fun _ hl => hl, fun hsome => ?_⟩
      change w.finished.isSome = true at hsome
      rw [hgoing] at hsome
      cases hsome

end OneWorker

theorem systemStart_inv (f : Result → β) (tests : Fin n → CircuitBreaker × Test)
    (clock : Fin n → ℕ → ℚ) : SystemInv f (systemStart tests clock) := by
  refine ⟨⟨fun i => workerStart_inv _ _, nofun, fun i => Nat.zero_le _⟩, fun _ => ⟨?_, ?_, rfl⟩, nofun⟩
  · exact (Finset.sum_eq_zero (fun i _ => rfl)).symm
  · exact (Finset.sum_eq_zero (fun i _ => rfl)).symm

/-- A step of a worker changes nothing of what was heard. -/
theorem SystemInv.worker {ch : WorkerChoice (runTest (tests i).1 (tests i).2).Choice}
    {w : WorkerRun (runTest (tests i).1 (tests i).2)} (hI : SystemInv f s)
    (hok : WorkerKeeps f (tests i) ch (s.workers i))
    (h : workerNext _ ch (s.workers i) = some w) :
    SystemInv f { s with workers := Function.update s.workers i w } := by
  obtain ⟨⟨messages, hposted⟩, hfinished, hended⟩ :=
    workerNext_posted (hI.workers i) (hI.ended i) hok h
  have hheard : ∀ j, System.heard { s with workers := Function.update s.workers i w } j = s.heard j := by
    intro j
    show List.take (s.delivered j) (Function.update s.workers i w j).worker.posted = _
    rcases eq_or_ne j i with rfl | hne
    · rw [Function.update_self, hposted, List.take_append_of_le_length (hI.delivered j)]
      rfl
    · rw [Function.update_of_ne hne]
      rfl
  refine ⟨⟨fun j => ?_, fun j => ?_, fun j => ?_⟩, fun hopen => ?_, fun hres => ?_⟩
  · show WorkerInv _ (Function.update s.workers i w j)
    rcases eq_or_ne j i with rfl | hne
    · rw [Function.update_self]
      exact (hI.workers j).next hok.meets h
    · rw [Function.update_of_ne hne]
      exact hI.workers j
  · show (Function.update s.workers i w j).finished.isSome = true →
      Ended (Function.update s.workers i w j)
    rcases eq_or_ne j i with rfl | hne
    · rw [Function.update_self]
      exact hended
    · rw [Function.update_of_ne hne]
      exact hI.ended j
  · show s.delivered j ≤ (Function.update s.workers i w j).worker.posted.length
    rcases eq_or_ne j i with rfl | hne
    · rw [Function.update_self, hposted, List.length_append]
      exact Nat.le_add_right_of_le (hI.delivered j)
    · rw [Function.update_of_ne hne]
      exact hI.delivered j
  · obtain ⟨hresults, hcount, hout⟩ := hI.received hopen
    simp only [hheard]
    exact ⟨hresults, hcount, hout⟩
  · obtain ⟨lists, hlists, hbag⟩ := hI.resolved hres
    refine ⟨lists, fun j => ?_, hbag⟩
    show (Function.update s.workers i w j).finished = _
    rcases eq_or_ne j i with rfl | hne
    · rw [Function.update_self]
      exact hfinished _ (hlists j)
    · rw [Function.update_of_ne hne]
      exact hlists j

/-- When all workers have said that they are done, all results are there. -/
theorem WorkersInv.complete (hI : WorkersInv f s) (h : n ≤ ∑ i, (s.heard i).countP (·.isDone)) :
    ∃ lists : Fin n → List Result, (∀ i, (s.workers i).finished = some (lists i)) ∧
      ∑ i, bag f (sent (s.heard i)) = ∑ i, bag f (lists i) := by
  have hone : ∀ i, (s.heard i).countP (·.isDone) = 1 := by
    intro i
    by_contra hne
    have hlt : ∑ i, (s.heard i).countP (·.isDone) < ∑ _i : Fin n, 1 := by
      refine Finset.sum_lt_sum (fun j _ => hI.countP_heard j) ⟨i, Finset.mem_univ i, ?_⟩
      exact Nat.lt_of_le_of_ne (hI.countP_heard i) hne
    rw [← Finset.card_eq_sum_ones, Finset.card_univ, Fintype.card_fin] at hlt
    exact absurd h (Nat.not_le_of_lt hlt)
  choose lists hlists using fun i => hI.heard_all (hone i)
  exact ⟨lists, fun i => (hlists i).1, Finset.sum_congr rfl (fun i _ => (hlists i).2)⟩

/-- A message that arrives. -/
theorem SystemInv.deliver (hI : SystemInv f s) (h : systemNext b tests (.deliver i) s = some s') :
    SystemInv f s' := by
  obtain ⟨message, hmessage, rfl⟩ := Option.map_eq_some_iff.mp h
  obtain ⟨hlt, -⟩ := List.getElem?_eq_some_iff.mp hmessage
  have hheard : ∀ main, System.heard
      { s with delivered := Function.update s.delivered i (s.delivered i + 1), main } =
        Function.update s.heard i (s.heard i ++ [message]) := by
    intro main
    funext j
    show List.take (Function.update s.delivered i (s.delivered i + 1) j) (s.workers j).worker.posted = _
    rcases eq_or_ne j i with rfl | hne
    · rw [Function.update_self, Function.update_self, List.take_add_one, hmessage]
      rfl
    · rw [Function.update_of_ne hne, Function.update_of_ne hne]
      rfl
  have hbase : ∀ main, WorkersInv f
      { s with delivered := Function.update s.delivered i (s.delivered i + 1), main } := by
    intro main
    refine ⟨hI.workers, hI.ended, fun j => ?_⟩
    show Function.update s.delivered i (s.delivered i + 1) j ≤ (s.workers j).worker.posted.length
    rcases eq_or_ne j i with rfl | hne
    · rw [Function.update_self]
      exact hlt
    · rw [Function.update_of_ne hne]
      exact hI.delivered j
  have hbag : ∑ j, bag f (sent (Function.update s.heard i (s.heard i ++ [message]) j)) =
      ∑ j, bag f (sent (s.heard j)) + bag f message.newResults := by
    refine sum_update (fun messages => bag f (sent messages)) s.heard i ?_
    rw [sent_append, sent_singleton, bag_append]
  have hcount : ∑ j, (Function.update s.heard i (s.heard i ++ [message]) j).countP (·.isDone) =
      ∑ j, (s.heard j).countP (·.isDone) + if message.isDone then 1 else 0 := by
    refine sum_update (fun messages : List (WorkerToMain Result) => messages.countP (·.isDone)) s.heard
      i ?_
    rw [List.countP_append, List.countP_singleton]
  cases hsettled : s.main.settled with
  | true =>
      have hsame : s.main.onMessage b i message = s.main := by
        cases message <;> exact if_pos hsettled
      rw [hsame]
      exact ⟨hbase _, fun hopen => absurd (hsettled.symm.trans hopen) nofun, hI.resolved⟩
  | false =>
      obtain ⟨hresults, hdone, hout⟩ := hI.received hsettled
      have hnot : ¬ s.main.settled = true := by rw [hsettled]; exact nofun
      cases message with
      | progress completed total newResults progressMeta =>
          have hmain : s.main.onMessage b i (.progress completed total newResults progressMeta) = _ :=
            if_neg hnot
          rw [hmain]
          refine ⟨hbase _, fun _ => ⟨?_, ?_, hout⟩, fun hres => absurd (hout.symm.trans hres) nofun⟩
          · rw [hheard, hbag, bag_append, hresults]
            rfl
          · rw [hheard, hcount, hdone]
            rfl
      | done newResults =>
          have hmain : s.main.onMessage b i (.done newResults) = _ := if_neg hnot
          rw [hmain]
          have hbag' : bag f (s.main.allResults ++ newResults) =
              ∑ j, bag f (sent (Function.update s.heard i (s.heard i ++ [.done newResults]) j)) := by
            rw [hbag, bag_append, hresults]
            rfl
          have hcount' : s.main.doneCount + 1 =
              ∑ j, (Function.update s.heard i (s.heard i ++ [.done newResults]) j).countP (·.isDone) := by
            rw [hcount, hdone]
            rfl
          dsimp only
          split
          next hall =>
            refine ⟨hbase _, nofun, fun _ => ?_⟩
            obtain ⟨lists, hlists, hsum⟩ := (hbase s.main).complete (by
              rw [hheard, ← hcount']
              exact hall)
            refine ⟨lists, hlists, ?_⟩
            rw [hheard] at hsum
            exact hbag'.trans hsum
          next =>
            refine ⟨hbase _, fun _ => ⟨?_, ?_, hout⟩, fun hres => absurd (hout.symm.trans hres) nofun⟩
            · rw [hheard]
              exact hbag'
            · rw [hheard]
              exact hcount'
      | error =>
          have hmain : s.main.onMessage b i .error = _ := if_neg hnot
          rw [hmain]
          exact ⟨hbase _, nofun, nofun⟩

theorem SystemInv.next {ch : SystemChoice tests} (hI : SystemInv f s) (hok : SystemKeeps f tests ch s)
    (h : systemNext b tests ch s = some s') : SystemInv f s' := by
  cases ch with
  | worker i ch =>
      obtain ⟨w, hnext, rfl⟩ := Option.map_eq_some_iff.mp h
      exact hI.worker hok hnext
  | deliver i => exact hI.deliver h

end System

/-! ## Nothing is lost, and nothing is sent twice -/

/-- **Streaming.**  As `f` sees the results: if the turns of a worker keep them, what it
sends up to `done` is the list of `runTest`, and `runTestInWorker` resolves with it; if
the turns of all workers do, and each is at rest at its end, `runTestMultiWorker` resolves
with the lists of all, in some order. -/
theorem streaming_lossless {β : Type} (f : Result → β) :
    (∀ (breaker : CircuitBreaker) (t : Test) (clock : ℕ → ℚ)
      (run : List (WorkerChoice (runTest breaker t).Choice)) (s : WorkerRun (runTest breaker t))
      (l : List Result),
      exec (workerNext (runTest breaker t)) (workerStart _ clock) run = some s →
      AllSteps (workerNext _) (TurnMeets (Keeps f breaker t)) (workerStart _ clock) run →
      s.finished = some l →
        (streamed s.worker.posted).map f = l.map f ∧
        ∀ received results, received <+: s.worker.posted →
          runTestInWorker [] received = (results, some .resolved) → results.map f = l.map f) ∧
    ∀ (n : ℕ) (b : BridgeArgs) (tests : Fin n → CircuitBreaker × Test) (clock : Fin n → ℕ → ℚ)
      (run : List (SystemChoice tests)) (s : System tests),
      exec (systemNext b tests) (systemStart tests clock) run = some s →
      AllSteps (systemNext b tests) (SystemKeeps f tests) (systemStart tests clock) run →
      s.main.outcome = some .resolved →
        ∃ lists : Fin n → List Result, (∀ i, (s.workers i).finished = some (lists i)) ∧
          bag f s.main.allResults = ∑ i, bag f (lists i) := by
  constructor
  · intro breaker t clock run s l hrun hok hl
    have hstreamed := streamed_eq (appends f breaker t) hrun hok hl
    refine ⟨hstreamed, fun received results hprefix hresolved => ?_⟩
    obtain ⟨hdone, rfl⟩ := runTestInWorker_resolved hresolved
    obtain ⟨rest, hrest⟩ := hprefix
    rw [← hrest, streamed_append hdone] at hstreamed
    exact hstreamed
  · intro n b tests clock run s hrun hok hresolved
    have hI : SystemInv f s := exec_invariant (fun _ _ _ hI hok h => hI.next hok h)
      (systemStart_inv f tests clock) hok hrun
    exact hI.resolved hresolved

/-- The clock of a turn. -/
def atMs (ms : ℚ) : ℕ → ℚ := fun _ => ms

/-! ### Two pools of one scenario -/

def onePool : Test := .pool { concurrency := 1, total := 1, throws := fun _ => false }

def twoPools : Fin 2 → CircuitBreaker × Test := fun _ => (lenient, onePool)

def twoPoolsRun : List (SystemChoice twoPools) :=
  [.worker 0 (.turn (.settle 0 true) (atMs 0)), .worker 0 (.turn .callback (atMs 10)),
    .worker 1 (.turn (.settle 0 false) (atMs 20)), .worker 0 .done, .deliver 0,
    .worker 1 (.turn .callback (atMs 30)), .deliver 1, .worker 1 .done, .deliver 1, .deliver 0]

instance (ch : SystemChoice twoPools) (s : System twoPools) :
    Decidable (SystemKeeps id twoPools ch s) :=
  match ch with
  | .worker _ (.turn _ _) => isTrue trivial
  | .worker i .done =>
      inferInstanceAs (Decidable (Jobs.inFlight (Pool.jobs (s.workers i).runner) = 0))
  | .worker _ .error => isTrue trivial
  | .deliver _ => isTrue trivial

theorem streaming_lossless_twoPools :
    ∃ s : System twoPools, exec (systemNext ⟨false, 2⟩ twoPools) (systemStart twoPools
        (fun _ => atMs 0)) twoPoolsRun = some s ∧
      s.main.allResults = [.request 0 true, .request 0 false] ∧
      ∃ lists : Fin 2 → List Result, (∀ i, (s.workers i).finished = some (lists i)) ∧
        bag id s.main.allResults = ∑ i, bag id (lists i) := by
  obtain ⟨s, hrun, hresults, hresolved⟩ : ∃ s : System twoPools,
      exec (systemNext ⟨false, 2⟩ twoPools) (systemStart twoPools (fun _ => atMs 0)) twoPoolsRun =
        some s ∧ s.main.allResults = [.request 0 true, .request 0 false] ∧
          s.main.outcome = some .resolved := exists_exec (by decide +kernel)
  exact ⟨s, hrun, hresults, (streaming_lossless id).2 2 ⟨false, 2⟩ twoPools (fun _ => atMs 0)
    twoPoolsRun s hrun (by decide +kernel) hresolved⟩

/-! ### Two iterations at once -/

def twoIterations : Test := .workflowLoad { steps := 2, iterations := 2, concurrency := 2 }

def crossing : List (WorkerChoice (runTest lenient twoIterations).Choice) :=
  [.turn (.step 1 true) (atMs 0), .turn (.step 0 true) (atMs 300), .turn (.turn 0) (atMs 300),
    .turn (.turn 1) (atMs 300), .turn (.step 0 true) (atMs 600), .turn (.turn 0) (atMs 600),
    .turn (.step 1 true) (atMs 900), .turn (.turn 1) (atMs 900), .turn .callback (atMs 900),
    .turn .callback (atMs 900), .turn .resume (atMs 900), .done]

/-- The first result of the first iteration is never sent and that of the second is sent
twice, whatever is stripped. -/
theorem crossing_iterations_lose :
    ∃ s, exec (workerNext (runTest lenient twoIterations)) (workerStart _ (atMs 0)) crossing = some s ∧
      s.finished = some [.step 0 0 true false, .step 0 1 true false, .step 1 0 true false,
        .step 1 1 true false] ∧
      (streamed s.worker.posted).map Workflow.stripTransientFields =
        [.step 1 0 true false, .step 0 1 true false, .step 1 0 true false, .step 1 1 true false] ∧
      runTestInWorker [] s.worker.posted = (streamed s.worker.posted, some .resolved) ∧
      ¬ (streamed s.worker.posted).Perm [.step 0 0 true false, .step 0 1 true false,
        .step 1 0 true false, .step 1 1 true false] :=
  exists_exec (by decide +kernel)

end RedFireForge.Engine
