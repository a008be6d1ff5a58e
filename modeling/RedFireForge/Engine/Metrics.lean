/-
# `RedFireForge.Engine.Metrics` — the summary of a run

`computeMetrics` leaves out the cancelled requests, counts the failed ones by transport and
status, and takes the percentiles from the sorted response times.  The percentile from 99.9 on
has an index of its own, so that the order of the percentiles rests on arithmetic at every
length.  Numbers are exact.
-/
import Mathlib.Algebra.Order.Floor.Ring
import Mathlib.Data.List.Sort
import Mathlib.Data.Rat.Floor
import Mathlib.Tactic.Linarith
import RedFireForge.Engine.Verdict
import RedFireForge.Lib.FieldLoop

namespace RedFireForge.Engine.Metrics

open RedFireForge.Lib

/-! ## Percentiles -/

/-- `Math.round` -/
def mathRound (x : ℚ) : ℤ := ⌊x + 1 / 2⌋

def round2 (val : ℚ) : ℚ := mathRound (val * 100) / 100

def percentileIndex (length : ℕ) (p : ℚ) : ℤ :=
  min (length - 1) (max 0 (if p ≥ 999 / 1000 then ⌈length * p⌉ - 1 else ⌊length * p⌋))

def percentile (sorted : List ℚ) (p : ℚ) : ℚ :=
  if sorted.length = 0 then 0
  else
    (sorted[(percentileIndex sorted.length p).toNat]?).getD ((sorted[sorted.length - 1]?).getD 0)

/-! ## The summary -/

structure RequestResult where
  scenarioId : String
  dataRowId : Option String
  transportType : Option String
  httpStatus : ℕ
  responseTimeMs : ℚ
  passed : Bool
  failureDetails : List FailureDetail
  cancelled : Bool

/-- `(r.transportType ?? 'http') === 'http'` -/
def RequestResult.isHttp (r : RequestResult) : Bool := r.transportType.getD "http" == "http"

structure TestSummary where
  tps : ℚ
  avgResponseTime : ℚ
  minResponseTime : ℚ
  maxResponseTime : ℚ
  p50ResponseTime : ℚ
  p95ResponseTime : ℚ
  p99ResponseTime : ℚ
  p999ResponseTime : ℚ
  errorRate : ℚ
  errorsByStatus : List (ℕ × ℕ)
  totalRequests : ℕ
  successfulRequests : ℤ
  failedRequests : ℕ
  failedValidations : ℕ
  totalDurationMs : ℚ
  cancelledRequests : ℤ

/-- The counters of the loop over the results. -/
structure Counters where
  errorsByStatus : List (ℕ × ℕ) := []
  failedRequests : ℕ := 0
  failedValidations : ℕ := 0

def RequestResult.failedHttp (r : RequestResult) : Bool :=
  r.isHttp && (decide (r.httpStatus ≥ 400) || decide (r.httpStatus = 0))

def Counters.count (c : Counters) (r : RequestResult) : Counters :=
  let c :=
    if r.failedHttp then
      { c with
        failedRequests := c.failedRequests + 1
        errorsByStatus := putKey c.errorsByStatus r.httpStatus ((c.errorsByStatus.lookup r.httpStatus).getD 0 + 1) }
    else if !r.isHttp && !r.passed then { c with failedRequests := c.failedRequests + 1 }
    else c
  if !r.passed && decide (r.failureDetails.length > 0) then { c with failedValidations := c.failedValidations + 1 }
  else c

def computeMetrics (results : List RequestResult) (totalDurationMs : ℚ) : TestSummary :=
  let activeResults := results.filter (!·.cancelled)
  let times := (activeResults.map RequestResult.responseTimeMs).mergeSort
  let total := activeResults.length
  if total = 0 then
    { tps := 0, avgResponseTime := 0, minResponseTime := 0, maxResponseTime := 0
      p50ResponseTime := 0, p95ResponseTime := 0, p99ResponseTime := 0, p999ResponseTime := 0
      errorRate := 0, errorsByStatus := []
      totalRequests := results.length, successfulRequests := 0, failedRequests := 0, failedValidations := 0
      totalDurationMs := totalDurationMs, cancelledRequests := results.length - total }
  else
    let avg := times.sum / total
    let tps := if totalDurationMs > 0 then total / totalDurationMs * 1000 else 0
    let counters := activeResults.foldl Counters.count {}
    let errorRate := (counters.failedRequests / total : ℚ) * 100
    { tps := round2 tps
      avgResponseTime := round2 avg
      minResponseTime := round2 ((times[0]?).getD 0)
      maxResponseTime := round2 ((times[total - 1]?).getD 0)
      p50ResponseTime := round2 (percentile times (50 / 100))
      p95ResponseTime := round2 (percentile times (95 / 100))
      p99ResponseTime := round2 (percentile times (99 / 100))
      p999ResponseTime := round2 (percentile times (999 / 1000))
      errorRate := round2 errorRate
      errorsByStatus := counters.errorsByStatus
      totalRequests := results.length
      successfulRequests := total - counters.failedRequests
      failedRequests := counters.failedRequests
      failedValidations := counters.failedValidations
      totalDurationMs := mathRound totalDurationMs
      cancelledRequests := results.length - total }

/-! ## Order -/

theorem mathRound_mono {x y : ℚ} (h : x ≤ y) : mathRound x ≤ mathRound y :=
  Int.floor_mono (by linarith)

theorem round2_mono {x y : ℚ} (h : x ≤ y) : round2 x ≤ round2 y := by
  have hround : (mathRound (x * 100) : ℚ) ≤ mathRound (y * 100) := by
    exact_mod_cast mathRound_mono (by linarith)
  rw [round2, round2]
  linarith

/-- Below 99.9 the index is the floor, if it is in the list. -/
theorem percentileIndex_floor {n : ℕ} (hn : 0 < n) {p : ℚ} (hp : 0 ≤ p) (hlt : p < 999 / 1000) :
    percentileIndex n p = ⌊n * p⌋ ∧ 0 ≤ ⌊n * p⌋ ∧ ⌊n * p⌋ ≤ n - 1 := by
  have hpos : (0 : ℚ) < n := by exact_mod_cast hn
  have hlow : 0 ≤ ⌊(n : ℚ) * p⌋ := Int.floor_nonneg.mpr (by positivity)
  have hhigh : ⌊(n : ℚ) * p⌋ < n := by
    rw [Int.floor_lt]
    push_cast
    nlinarith
  refine ⟨?_, hlow, by omega⟩
  rw [percentileIndex, if_neg (not_le.mpr hlt)]
  omega

theorem percentileIndex_last {n : ℕ} (hn : 0 < n) :
    percentileIndex n (999 / 1000) = ⌈(n : ℚ) * (999 / 1000)⌉ - 1 ∧
      ⌊(n : ℚ) * (99 / 100)⌋ ≤ ⌈(n : ℚ) * (999 / 1000)⌉ - 1 ∧ ⌈(n : ℚ) * (999 / 1000)⌉ - 1 ≤ n - 1 := by
  have hpos : (0 : ℚ) < n := by exact_mod_cast hn
  have hhigh : ⌈(n : ℚ) * (999 / 1000)⌉ ≤ n := by
    rw [Int.ceil_le]
    push_cast
    linarith
  have hfloor : (⌊(n : ℚ) * (99 / 100)⌋ : ℚ) ≤ n * (99 / 100) := Int.floor_le _
  have hlow : ⌊(n : ℚ) * (99 / 100)⌋ < ⌈(n : ℚ) * (999 / 1000)⌉ := by
    rw [Int.lt_ceil]
    linarith
  have hzero : 0 ≤ ⌊(n : ℚ) * (99 / 100)⌋ := Int.floor_nonneg.mpr (by positivity)
  refine ⟨?_, by omega, by omega⟩
  rw [percentileIndex, if_pos le_rfl]
  omega

/-- In a sorted list an earlier place has no greater time. -/
theorem getElem_mono {sorted : List ℚ} (h : sorted.Pairwise (· ≤ ·)) {i j : ℕ} (hij : i ≤ j) (hj : j < sorted.length) :
    sorted[i] ≤ sorted[j] := by
  rcases Nat.eq_or_lt_of_le hij with rfl | hlt
  · exact le_rfl
  · exact List.pairwise_iff_getElem.mp h i j (by omega) hj hlt

theorem getElem?_mono {sorted : List ℚ} (h : sorted.Pairwise (· ≤ ·)) {i j : ℕ} (hij : i ≤ j)
    (hj : j < sorted.length) : (sorted[i]?).getD 0 ≤ (sorted[j]?).getD 0 := by
  rw [List.getElem?_eq_getElem (Nat.lt_of_le_of_lt hij hj), List.getElem?_eq_getElem hj]
  exact getElem_mono h hij hj

/-- An index of the list is the one that counts. -/
theorem percentile_eq {sorted : List ℚ} {p : ℚ} {i : ℤ} (hi : percentileIndex sorted.length p = i) (hlow : 0 ≤ i)
    (hhigh : i ≤ sorted.length - 1) (hne : 0 < sorted.length) :
    percentile sorted p = (sorted[i.toNat]?).getD 0 := by
  have hlt : i.toNat < sorted.length := by omega
  rw [percentile, if_neg (by omega), hi, List.getElem?_eq_getElem hlt]
  rfl

theorem percentile_floor {sorted : List ℚ} {p : ℚ} (hne : 0 < sorted.length) (hp : 0 ≤ p) (hlt : p < 999 / 1000) :
    percentile sorted p = (sorted[⌊sorted.length * p⌋.toNat]?).getD 0 := by
  obtain ⟨hindex, hlow, hhigh⟩ := percentileIndex_floor hne hp hlt
  exact percentile_eq hindex hlow hhigh hne

theorem percentile_mono {sorted : List ℚ} (h : sorted.Pairwise (· ≤ ·)) (hne : 0 < sorted.length) {p q : ℚ}
    (hp : 0 ≤ p) (hpq : p ≤ q) (hlt : q < 999 / 1000) : percentile sorted p ≤ percentile sorted q := by
  rw [percentile_floor hne hp (by linarith), percentile_floor hne (by linarith) hlt]
  obtain ⟨-, hlow, hhigh⟩ := percentileIndex_floor hne (by linarith : 0 ≤ q) hlt
  have hindex : ⌊sorted.length * p⌋ ≤ ⌊sorted.length * q⌋ :=
    Int.floor_mono (mul_le_mul_of_nonneg_left hpq (by positivity))
  exact getElem?_mono h (Int.toNat_le_toNat hindex) (by omega)

/-- All percentiles of a list in their order, between its ends. -/
theorem percentile_chain {sorted : List ℚ} (h : sorted.Pairwise (· ≤ ·)) (hne : 0 < sorted.length) :
    (sorted[0]?).getD 0 ≤ percentile sorted (50 / 100) ∧
      percentile sorted (50 / 100) ≤ percentile sorted (95 / 100) ∧
      percentile sorted (95 / 100) ≤ percentile sorted (99 / 100) ∧
      percentile sorted (99 / 100) ≤ percentile sorted (999 / 1000) ∧
      percentile sorted (999 / 1000) ≤ (sorted[sorted.length - 1]?).getD 0 := by
  obtain ⟨-, hlow, hhigh⟩ := percentileIndex_floor hne (by norm_num : (0 : ℚ) ≤ 50 / 100) (by norm_num)
  obtain ⟨-, hlow₉₉, hhigh₉₉⟩ := percentileIndex_floor hne (by norm_num : (0 : ℚ) ≤ 99 / 100) (by norm_num)
  obtain ⟨hlast, hle, hlen⟩ := percentileIndex_last hne
  have hlast' := percentile_eq hlast (by omega) hlen hne
  refine ⟨?_, percentile_mono h hne (by norm_num) (by norm_num) (by norm_num),
    percentile_mono h hne (by norm_num) (by norm_num) (by norm_num), ?_, ?_⟩
  · rw [percentile_floor hne (by norm_num) (by norm_num)]
    exact getElem?_mono h (Nat.zero_le _) (by omega)
  · rw [percentile_floor hne (by norm_num) (by norm_num), hlast']
    exact getElem?_mono h (Int.toNat_le_toNat hle) (by omega)
  · rw [hlast']
    exact getElem?_mono h (by omega) (by omega)

theorem sorted_times (times : List ℚ) : (times.mergeSort).Pairwise (· ≤ ·) := by
  have htrans : ∀ a b c : ℚ, decide (a ≤ b) = true → decide (b ≤ c) = true →
      decide (a ≤ c) = true :=
    fun a b c hab hbc => decide_eq_true ((of_decide_eq_true hab).trans (of_decide_eq_true hbc))
  have htotal : ∀ a b : ℚ, (decide (a ≤ b) || decide (b ≤ a)) = true :=
    fun a b => by simpa using le_total a b
  exact (List.pairwise_mergeSort htrans htotal times).imp fun hab => of_decide_eq_true hab

/-! ## Counters -/

/-- The sum of the values of a record. -/
def valueSum (record : List (ℕ × ℕ)) : ℕ := (record.map Prod.snd).sum

theorem valueSum_putKey (record : List (ℕ × ℕ)) (k : ℕ) :
    valueSum (putKey record k ((record.lookup k).getD 0 + 1)) = valueSum record + 1 := by
  induction record with
  | nil => rfl
  | cons e record ih =>
      obtain ⟨a, n⟩ := e
      rw [putKey, List.lookup_cons]
      by_cases hk : a = k
      · rw [if_pos hk, hk, beq_self_eq_true]
        show n + 1 + valueSum record = n + valueSum record + 1
        omega
      · rw [if_neg hk, beq_false_of_ne (Ne.symm hk)]
        show n + valueSum (putKey record k _) = n + valueSum record + 1
        rw [ih, Nat.add_assoc]

theorem count_step (c : Counters) (r : RequestResult) :
    valueSum (c.count r).errorsByStatus = valueSum c.errorsByStatus + (if r.failedHttp then 1 else 0) ∧
      (c.count r).failedRequests ≤ c.failedRequests + 1 := by
  rw [Counters.count]
  cases r.failedHttp with
  | true =>
      simp only [if_true]
      split <;> exact ⟨valueSum_putKey _ _, le_rfl⟩
  | false =>
      simp only [Bool.false_eq_true, if_false]
      constructor
      · split <;> split <;> rfl
      · split <;> split <;> first | exact Nat.le_succ _ | exact le_rfl

theorem count_run (c : Counters) (rs : List RequestResult) :
    valueSum (rs.foldl Counters.count c).errorsByStatus = valueSum c.errorsByStatus + (rs.filter (·.failedHttp)).length ∧
      (rs.foldl Counters.count c).failedRequests ≤ c.failedRequests + rs.length := by
  induction rs generalizing c with
  | nil => exact ⟨rfl, le_rfl⟩
  | cons r rs ih =>
      obtain ⟨hsum, hfailed⟩ := count_step c r
      obtain ⟨ihsum, ihfailed⟩ := ih (c.count r)
      rw [List.foldl_cons]
      constructor
      · rw [ihsum, hsum, List.filter_cons]
        split
        · rw [List.length_cons]
          omega
        · omega
      · rw [List.length_cons]
        omega

/-! ## The summary as a whole -/

/-- The counts add up, the errors by status are those of the failed HTTP results, and the
percentiles are in their order. -/
theorem computeMetrics_consistent (results : List RequestResult) (totalDurationMs : ℚ) :
    let summary := computeMetrics results totalDurationMs
    (summary.totalRequests = results.length ∧
      summary.successfulRequests + summary.failedRequests + summary.cancelledRequests = summary.totalRequests ∧
      0 ≤ summary.successfulRequests ∧ 0 ≤ summary.cancelledRequests) ∧
    valueSum summary.errorsByStatus = (results.filter fun r => !r.cancelled && r.failedHttp).length ∧
    summary.minResponseTime ≤ summary.p50ResponseTime ∧ summary.p50ResponseTime ≤ summary.p95ResponseTime ∧
    summary.p95ResponseTime ≤ summary.p99ResponseTime ∧ summary.p99ResponseTime ≤ summary.p999ResponseTime ∧
    summary.p999ResponseTime ≤ summary.maxResponseTime := by
  have hfilter : (results.filter fun r => !r.cancelled && r.failedHttp) =
      (results.filter (!·.cancelled)).filter (·.failedHttp) := by
    rw [List.filter_filter]
    exact List.filter_congr fun r _ => Bool.and_comm _ _
  have hle := List.length_filter_le (!·.cancelled) results
  intro summary
  by_cases htotal : (results.filter (!·.cancelled)).length = 0
  · have hsummary : summary = _ := if_pos htotal
    rw [hsummary, hfilter, List.length_eq_zero_iff.mp htotal]
    refine ⟨⟨rfl, ?_, le_rfl, ?_⟩, rfl, le_rfl, le_rfl, le_rfl, le_rfl, le_rfl⟩
    · dsimp only
      rw [List.length_nil]
      omega
    · dsimp only
      rw [List.length_nil]
      omega
  · have hsummary : summary = _ := if_neg htotal
    obtain ⟨hsum, hfailed⟩ := count_run {} (results.filter (!·.cancelled))
    have htimes : 0 < (((results.filter (!·.cancelled)).map RequestResult.responseTimeMs).mergeSort).length := by
      rw [List.length_mergeSort, List.length_map]
      omega
    obtain ⟨hmin, h95, h99, h999, hmax⟩ := percentile_chain (sorted_times _) htimes
    rw [List.length_mergeSort, List.length_map] at hmax
    rw [hsummary, hfilter]
    dsimp only at hfailed ⊢
    refine ⟨⟨rfl, by omega, by omega, by omega⟩, ?_, round2_mono hmin, round2_mono h95, round2_mono h99,
      round2_mono h999, round2_mono hmax⟩
    rw [hsum]
    exact Nat.zero_add _

end RedFireForge.Engine.Metrics
