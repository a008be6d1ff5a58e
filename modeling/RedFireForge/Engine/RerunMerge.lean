/-
# `RedFireForge.Engine.RerunMerge` — results of a re-run take the place of others

`mergeRerunResults` tells results apart by one text made of the id of the scenario and the id
of the row.  Two pairs can have one text, and then a result is dropped that was not run again.
-/
import RedFireForge.Engine.Metrics
import RedFireForge.Lib.Text

namespace RedFireForge.Engine.RerunMerge

open RedFireForge.Lib
open RedFireForge.Engine.Metrics

/-! ## The code -/

def GRPC_HARNESS_ROW_TRACE_SEP : String := "::"

def buildGrpcHarnessRowTraceKey (scenarioId dataRowId : String) : String :=
  scenarioId ++ GRPC_HARNESS_ROW_TRACE_SEP ++ dataRowId

def buildGrpcHarnessResultTraceKey (scenarioId : String) (dataRowId : Option String) : String :=
  buildGrpcHarnessRowTraceKey scenarioId (dataRowId.getD "")

/-- `C` is what else a run holds. -/
structure TestRun (C : Type) where
  results : List Metrics.RequestResult
  summary : TestSummary
  rest : C

variable {C : Type}

def mergeRerunResults (original : TestRun C) (rerunResults : List Metrics.RequestResult) : TestRun C :=
  let rerunKeys := rerunResults.map fun r => buildGrpcHarnessResultTraceKey r.scenarioId r.dataRowId
  let kept := original.results.filter fun r =>
    decide (buildGrpcHarnessResultTraceKey r.scenarioId r.dataRowId ∉ rerunKeys)
  let merged := kept ++ rerunResults
  { original with results := merged, summary := computeMetrics merged original.summary.totalDurationMs }

/-! ## What is wanted -/

/-- What a result is told apart by. -/
def pair (r : Metrics.RequestResult) : String × Option String := (r.scenarioId, r.dataRowId)

def traceKey (r : Metrics.RequestResult) : String := buildGrpcHarnessResultTraceKey r.scenarioId r.dataRowId

/-- The results that were run again are replaced and no others, and the summary is that of what
there is then. -/
structure ReplacesExactly (original : TestRun C) (rerunResults : List Metrics.RequestResult) (merged : TestRun C) : Prop where
  results : merged.results =
    (original.results.filter fun r => decide (∀ r' ∈ rerunResults, pair r' ≠ pair r)) ++ rerunResults
  summary : merged.summary = computeMetrics merged.results original.summary.totalDurationMs
  rest : merged.rest = original.rest

/-- The text of an original result is that of a re-run result only if its pair is that of one. -/
def NoCollision (original : TestRun C) (rerunResults : List Metrics.RequestResult) : Prop :=
  ∀ r ∈ original.results, ∀ r' ∈ rerunResults, traceKey r' = traceKey r → ∃ r'' ∈ rerunResults, pair r'' = pair r

theorem traceKey_of_pair {r r' : Metrics.RequestResult} (h : pair r = pair r') : traceKey r = traceKey r' := by
  obtain ⟨hscenario, hrow⟩ := Prod.mk.inj h
  rw [traceKey, traceKey, hscenario, hrow]

theorem filter_eq_iff {α : Type*} {l : List α} {p q : α → Bool} :
    l.filter p = l.filter q ↔ ∀ x ∈ l, p x = true ↔ q x = true := by
  constructor
  · intro h x hx
    have hmem : x ∈ l.filter p ↔ x ∈ l.filter q := by rw [h]
    rw [List.mem_filter, List.mem_filter] at hmem
    exact ⟨fun hp => (hmem.mp ⟨hx, hp⟩).2, fun hq => (hmem.mpr ⟨hx, hq⟩).2⟩
  · intro h
    exact List.filter_congr fun x hx => Bool.eq_iff_iff.mpr (h x hx)

/-- A result is dropped for a re-run result with the same pair if and only if no texts collide. -/
theorem mergeRerunResults_iff (original : TestRun C) (rerunResults : List Metrics.RequestResult) :
    ReplacesExactly original rerunResults (mergeRerunResults original rerunResults) ↔
      NoCollision original rerunResults := by
  have hresults : ReplacesExactly original rerunResults (mergeRerunResults original rerunResults) ↔
      (mergeRerunResults original rerunResults).results =
        (original.results.filter fun r => decide (∀ r' ∈ rerunResults, pair r' ≠ pair r)) ++ rerunResults :=
    ⟨fun h => h.results, fun h => ⟨h, rfl, rfl⟩⟩
  have hkept : ∀ r, buildGrpcHarnessResultTraceKey r.scenarioId r.dataRowId ∉
      (rerunResults.map fun r => buildGrpcHarnessResultTraceKey r.scenarioId r.dataRowId) ↔
        ∀ r' ∈ rerunResults, traceKey r' ≠ traceKey r := by
    intro r
    rw [List.mem_map, not_exists]
    exact ⟨fun h r' hr' heq => h r' ⟨hr', heq⟩, fun h r' hr' => h r' hr'.1 hr'.2⟩
  rw [hresults, mergeRerunResults]
  dsimp only
  rw [List.append_left_inj, filter_eq_iff]
  constructor
  · intro h r hr r' hr' hkey
    have hr := h r hr
    rw [decide_eq_true_iff, decide_eq_true_iff, hkept] at hr
    by_contra hnone
    have hpairs : ∀ r'' ∈ rerunResults, pair r'' ≠ pair r := fun r'' hr'' heq => hnone ⟨r'', hr'', heq⟩
    exact hr.mpr hpairs r' hr' hkey
  · intro h r hr
    rw [decide_eq_true_iff, decide_eq_true_iff, hkept]
    constructor
    · intro hkeys r' hr' heq
      exact hkeys r' hr' (traceKey_of_pair heq)
    · intro hpairs r' hr' hkey
      obtain ⟨r'', hr'', heq⟩ := h r hr r' hr' hkey
      exact hpairs r'' hr'' heq

/-! ## Collisions -/

/-- Without a colon in the ids of the scenarios only an absent and an empty row id collide. -/
theorem traceKey_eq_of_plain {r r' : Metrics.RequestResult} (hr : ':' ∉ r.scenarioId.toList) (hr' : ':' ∉ r'.scenarioId.toList)
    (h : traceKey r = traceKey r') :
    r.scenarioId = r'.scenarioId ∧ r.dataRowId.getD "" = r'.dataRowId.getD "" := by
  have hchars := congrArg String.toList h
  simp only [traceKey, buildGrpcHarnessResultTraceKey, buildGrpcHarnessRowTraceKey, GRPC_HARNESS_ROW_TRACE_SEP,
    String.toList_append] at hchars
  have hsplit : r.scenarioId.toList ++ ':' :: (':' :: (r.dataRowId.getD "").toList) =
      r'.scenarioId.toList ++ ':' :: (':' :: (r'.dataRowId.getD "").toList) := by
    simpa using hchars
  obtain ⟨hscenario, -⟩ := (append_cons_prefix_iff hr hr').mp ⟨[], by rw [List.append_nil, hsplit]⟩
  rw [hscenario] at hsplit
  have hrest := List.append_cancel_left hsplit
  exact ⟨String.toList_inj.mp hscenario, String.toList_inj.mp (by simpa using hrest)⟩

def sampleResult (scenarioId : String) (dataRowId : Option String) : Metrics.RequestResult where
  scenarioId := scenarioId
  dataRowId := dataRowId
  transportType := none
  httpStatus := 200
  responseTimeMs := 1
  passed := true
  failureDetails := []
  cancelled := false

/-- The result of row `:b` is dropped for that of another scenario. -/
theorem colliding_result_dropped :
    ¬ ReplacesExactly ⟨[sampleResult "a" (some ":b")], computeMetrics [] 0, ()⟩ [sampleResult "a:" (some "b")]
      (mergeRerunResults ⟨[sampleResult "a" (some ":b")], computeMetrics [] 0, ()⟩ [sampleResult "a:" (some "b")]) := by
  intro h
  have hlength := congrArg List.length h.results
  revert hlength
  decide

end RedFireForge.Engine.RerunMerge
