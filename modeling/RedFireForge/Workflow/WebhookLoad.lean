/-
# `RedFireForge.Workflow.WebhookLoad` — the webhook load driver

Translated from `webhookLoadDriver.ts`, without an abort signal and without callbacks.
Between the driver's own moves time passes and requests settle, in any order: each label
carries the time that has gone by since the one before.  A request whose payload cannot be
expanded is rejected at once, and has no result.
-/
import RedFireForge.Lib.Jobs
import RedFireForge.Lib.Number
import RedFireForge.Lib.Ramp
import RedFireForge.Lib.Run
import RedFireForge.Workflow.PayloadTemplate

namespace RedFireForge.Workflow.WebhookLoad

open RedFireForge.Lib
open RedFireForge.Workflow.PayloadTemplate

local instance atLeastTwo_two : Nat.AtLeastTwo 2 := ⟨le_rfl⟩

/-! ## Rates -/

inductive WebhookRateMode
  | fixed | ramp | burst
deriving DecidableEq

structure WebhookRateConfig (K : Type*) where
  mode : WebhookRateMode
  rps : Option K := none
  durationSec : Option K := none
  endRps : Option K := none
  burstCount : Option K := none

section Rates

variable {K : Type*} [Field K] [LinearOrder K]

/-- `value || other` -/
def orElse (value : Option K) (other : K) : K :=
  match value with
  | some q => if q = 0 then other else q
  | none => other

namespace WebhookRateConfig

variable (rate : WebhookRateConfig K)

def startRps : K := orElse rate.rps 1

def finalRps : K := orElse rate.endRps rate.startRps

def duration : K := orElse rate.durationSec 1

def calculateRampRps (elapsedSec : K) : K :=
  let progress := min (elapsedSec / rate.duration) 1
  rate.startRps + (rate.finalRps - rate.startRps) * progress

/-- `currentRps` -/
def targetRps (elapsedSec : K) : K :=
  let cappedElapsedSec := min elapsedSec rate.duration
  if rate.mode = .ramp then rate.calculateRampRps cappedElapsedSec else rate.startRps

def expectedRequests (elapsedSec : K) : K :=
  if rate.mode = .ramp then
    let t := min elapsedSec rate.duration
    rate.startRps * t + (rate.finalRps - rate.startRps) * t * t / (2 * rate.duration)
  else rate.startRps * elapsedSec

/-- The fields that are given are positive. -/
def Positive : Prop :=
  (∀ q ∈ rate.rps, 0 < q) ∧ (∀ q ∈ rate.durationSec, 0 < q) ∧ (∀ q ∈ rate.endRps, 0 < q) ∧
    ∀ q ∈ rate.burstCount, 0 < q

def map {L : Type*} (f : K → L) : WebhookRateConfig L where
  mode := rate.mode
  rps := rate.rps.map f
  durationSec := rate.durationSec.map f
  endRps := rate.endRps.map f
  burstCount := rate.burstCount.map f

end WebhookRateConfig

end Rates

def calculateTotalRequests (rate : WebhookRateConfig ℚ) : ℚ :=
  match rate.mode with
  | .fixed => ⌈rate.startRps * rate.duration⌉
  | .ramp => ⌈(rate.startRps + rate.finalRps) / 2 * rate.duration⌉
  | .burst => orElse rate.burstCount 1

/-! ## Requests -/

/-- How a request ends: with a response, or with an error, which includes the timeout. -/
inductive Outcome
  | response (status : ℕ) (statusText : String) (body : String)
  | failure (message : String)

structure RequestResult where
  scenarioId : String
  groupName : String
  httpStatus : ℕ
  responseBody : String
  passed : Bool
  errorMessage : Option String
  iterationIndex : ℕ

def requestResult (myIndex : ℕ) (outcome : Outcome) : RequestResult :=
  let scenarioId := "webhook-load-" ++ toString myIndex
  let groupName := "Request #" ++ toString (myIndex + 1)
  match outcome with
  | .response status statusText body =>
      let passed := decide (status ≥ 200) && decide (status < 400)
      { scenarioId, groupName, httpStatus := status, responseBody := body, passed
        errorMessage :=
          if passed then none else some ("HTTP " ++ toString status ++ ": " ++ statusText)
        iterationIndex := myIndex }
  | .failure message =>
      { scenarioId, groupName, httpStatus := 0, responseBody := "", passed := false
        errorMessage := some message, iterationIndex := myIndex }

/-- A configuration, with what the platform draws and which time it shows at each request. -/
structure LoadConfig where
  payloadTemplate : List Char
  rate : WebhookRateConfig ℚ
  draws : ℕ → ℕ → Generators
  timestamp : ℕ → ℕ

/-- The part of `sendRequest` before the request goes out. -/
def LoadConfig.payload (c : LoadConfig) (myIndex : ℕ) : Option (List Char) :=
  expandPayloadTemplate (c.draws myIndex) c.payloadTemplate
    { requestIndex := myIndex, timestamp := c.timestamp myIndex }

def LoadConfig.totalRequests (c : LoadConfig) : ℚ := calculateTotalRequests c.rate

/-- The number of requests that are sent. -/
def LoadConfig.length (c : LoadConfig) : ℕ := ⌊c.totalRequests⌋.toNat

/-- Outside the guard the payload is expanded: where that throws, the promise is rejected. -/
def LoadConfig.sendRequest (c : LoadConfig) (jobs : Jobs Outcome) : Jobs Outcome :=
  if (c.payload jobs.launched).isSome then jobs.start else jobs.drop

/-! ## The driver -/

inductive Stage
  /-- at the head of the loop -/
  | looking
  /-- in the inner loop, with the requests expected by now -/
  | launching (expectedRequests : ℚ)
  /-- waits for one of more than a hundred slots -/
  | racing (expectedRequests : ℚ)
  | sleeping (since : ℚ)
  /-- waits for all slots -/
  | waiting
  | resolved
  | rejected

/-- Milliseconds since the start; requests launched, running and settled; and the slots of
`inFlight`, each named by its request. -/
structure LoadDriver where
  elapsedMs : ℚ
  jobs : Jobs Outcome
  inFlight : List ℕ
  stage : Stage

namespace LoadDriver

variable (c : LoadConfig) (s : LoadDriver)

/-- The promise of a request is rejected. -/
def threw (i : ℕ) : Bool := decide (i < s.jobs.launched) && !(decide (i ∈ s.jobs.accounted))

def settled (i : ℕ) : Bool := !(decide (i ∈ s.jobs.running))

def look : LoadDriver :=
  if (s.jobs.launched : ℚ) < c.totalRequests then
    { s with
      stage := .launching
        (if s.elapsedMs ≥ c.rate.duration * 1000 then c.totalRequests
        else c.rate.expectedRequests (s.elapsedMs / 1000)) }
  else { s with stage := .waiting }

def launch (expectedRequests : ℚ) : LoadDriver :=
  if (s.jobs.launched : ℚ) < min expectedRequests c.totalRequests then
    let inFlight := s.inFlight ++ [s.jobs.launched]
    { s with
      jobs := c.sendRequest s.jobs
      inFlight
      stage := if inFlight.length > 100 then .racing expectedRequests
        else .launching expectedRequests }
  else { s with stage := .sleeping s.elapsedMs }

/-- `Promise.all` is rejected with any of its promises. -/
def await : Option LoadDriver :=
  if s.inFlight.any s.threw then some { s with stage := .rejected }
  else if s.inFlight.all s.settled then some { s with stage := .resolved }
  else none

/-- The driver goes on, if it can. -/
def advance : Option LoadDriver :=
  match s.stage with
  | .looking => some (s.look c)
  | .launching expectedRequests => some (s.launch c expectedRequests)
  | .sleeping since => if s.elapsedMs ≥ since + 10 then some { s with stage := .looking } else none
  | .waiting => s.await
  | _ => none

/-- A settled slot wins the race. -/
def win (i : ℕ) : Option LoadDriver :=
  match s.stage with
  | .racing expectedRequests =>
      if i ∈ s.inFlight ∧ s.settled i = true then
        if s.threw i then some { s with stage := .rejected }
        else
          some { s with
            inFlight := s.inFlight.erase i
            stage := .launching expectedRequests }
      else none
  | _ => none

def settle (i : ℕ) (outcome : Outcome) : Option LoadDriver :=
  if i ∈ s.jobs.running then some { s with jobs := s.jobs.settle i outcome } else none

/-- What the promise resolves with: in burst mode the results stand in the order of the
requests, else in that of their ends. -/
def results : List RequestResult :=
  let done := s.jobs.results
  if c.rate.mode = .burst then
    (List.range s.jobs.launched).filterMap fun i =>
      (done.find? fun r => r.1 == i).map fun r => requestResult r.1 r.2
  else done.map fun r => requestResult r.1 r.2

end LoadDriver

/-- A burst sends as many requests as `Array.from` makes of the count. -/
def runWebhookLoadTest (c : LoadConfig) : LoadDriver :=
  if c.rate.mode = .burst then
    { elapsedMs := 0, jobs := c.sendRequest^[c.length] Jobs.new, inFlight := List.range c.length
      stage := .waiting }
  else { elapsedMs := 0, jobs := Jobs.new, inFlight := [], stage := .looking }

inductive LoadStep
  | advance
  | win (i : ℕ)
  | settle (i : ℕ) (outcome : Outcome)

/-- A time goes by, and then something happens. -/
def loadNext (c : LoadConfig) : ℚ × LoadStep → LoadDriver → Option LoadDriver
  | (ms, step), s =>
      if ms < 0 then none
      else
        let s := { s with elapsedMs := s.elapsedMs + ms }
        match step with
        | .advance => s.advance c
        | .win i => s.win i
        | .settle i outcome => s.settle i outcome

/-! ## What is to hold -/

/-- The target rate at every real time. -/
noncomputable def targetRate (c : LoadConfig) (x : ℝ) : ℝ :=
  (c.rate.map (Rat.cast : ℚ → ℝ)).targetRps x

/-- Every run ends resolved, with as many results as were planned, one for each index; and in
the paced modes never more requests have been sent than the integral of the target rate
allows, nor are more than 101 unsettled. -/
structure SendsPlanned (c : LoadConfig) : Prop where
  ends : ∃ bound, ∀ ls s, exec (loadNext c) (runWebhookLoadTest c) ls = some s → ls.length ≤ bound
  resolves : ∀ ls s, exec (loadNext c) (runWebhookLoadTest c) ls = some s →
    (∀ l, loadNext c l s = none) → s.stage = .resolved ∧
      ((s.results c).length : ℚ) = c.totalRequests ∧
      ((s.results c).map RequestResult.iterationIndex).Perm (List.range (s.results c).length)
  paced : c.rate.mode ≠ .burst →
    ∀ ls s, exec (loadNext c) (runWebhookLoadTest c) ls = some s → ∀ t : ℚ,
      s.elapsedMs ≤ t * 1000 → t < c.rate.duration →
        (s.jobs.launched : ℤ) ≤ ⌈∫ x in (0 : ℝ)..t, targetRate c x⌉
  bounded : c.rate.mode ≠ .burst →
    ∀ ls s, exec (loadNext c) (runWebhookLoadTest c) ls = some s → s.jobs.running.length ≤ 101

/-! ## The rate is a ramp -/

section Curve

variable {K : Type*} [Field K] [LinearOrder K]

theorem orElse_pos {value : Option K} {other : K} (h : ∀ q ∈ value, 0 < q) (hother : 0 < other) :
    0 < orElse value other := by
  unfold orElse
  split
  next q =>
    split
    · exact hother
    · exact h q rfl
  next => exact hother

namespace WebhookRateConfig

variable {rate : WebhookRateConfig K}

/-- The rate at the end; a fixed one does not change. -/
def lastRps (rate : WebhookRateConfig K) : K :=
  if rate.mode = .ramp then rate.finalRps else rate.startRps

variable [IsStrictOrderedRing K]

theorem Positive.startRps (h : rate.Positive) : 0 < rate.startRps := orElse_pos h.1 one_pos

theorem Positive.duration (h : rate.Positive) : 0 < rate.duration := orElse_pos h.2.1 one_pos

theorem Positive.finalRps (h : rate.Positive) : 0 < rate.finalRps := orElse_pos h.2.2.1 h.startRps

theorem Positive.lastRps (h : rate.Positive) : 0 < rate.lastRps := by
  unfold WebhookRateConfig.lastRps
  split
  · exact h.finalRps
  · exact h.startRps

theorem targetRps_eq_ramp (h : 0 < rate.duration) (t : K) :
    rate.targetRps t = ramp rate.startRps rate.lastRps rate.duration t := by
  unfold targetRps lastRps calculateRampRps
  dsimp only
  split
  next =>
    rcases le_or_gt rate.duration t with ht | ht
    · rw [min_eq_right ht, div_self h.ne', min_self, ramp_of_le ht]
      ring
    · rw [min_eq_left ht.le, min_eq_left ((div_le_one h).mpr ht.le), ramp, if_neg ht.not_ge]
  next =>
    unfold ramp
    split
    · rfl
    · ring

theorem expectedRequests_eq_area {t : K} (ht : t < rate.duration) :
    rate.expectedRequests t = rampArea rate.startRps rate.lastRps rate.duration t := by
  rw [rampArea_of_lt ht]
  unfold expectedRequests lastRps
  dsimp only
  split
  · rw [min_eq_left ht.le]
    ring
  · ring

end WebhookRateConfig

theorem orElse_map {value : Option ℚ} {other : ℚ} :
    orElse (value.map (Rat.cast : ℚ → ℝ)) (other : ℝ) = (orElse value other : ℚ) := by
  cases value with
  | none => rfl
  | some q =>
      simp only [Option.map_some, orElse, Rat.cast_eq_zero]
      split <;> rfl

theorem integral_targetRate {c : LoadConfig} (h : c.rate.Positive) {t : ℚ} (ht : 0 ≤ t) :
    ∫ x in (0 : ℝ)..t, targetRate c x =
      (rampArea c.rate.startRps c.rate.lastRps c.rate.duration t : ℚ) := by
  have hstart : (c.rate.map (Rat.cast : ℚ → ℝ)).startRps = (c.rate.startRps : ℝ) := by
    rw [WebhookRateConfig.startRps, ← Rat.cast_one]
    exact orElse_map
  have hduration : (c.rate.map (Rat.cast : ℚ → ℝ)).duration = (c.rate.duration : ℝ) := by
    rw [WebhookRateConfig.duration, ← Rat.cast_one]
    exact orElse_map
  have hlast : (c.rate.map (Rat.cast : ℚ → ℝ)).lastRps = (c.rate.lastRps : ℝ) := by
    unfold WebhookRateConfig.lastRps WebhookRateConfig.finalRps
    rw [hstart]
    show (if c.rate.mode = .ramp then _ else _) = _
    split
    · exact orElse_map
    · rfl
  have hpos : (0 : ℝ) < (c.rate.duration : ℝ) := Rat.cast_pos.mpr h.duration
  have htarget : targetRate c = ramp (c.rate.startRps : ℝ) c.rate.lastRps c.rate.duration := by
    funext x
    rw [targetRate, WebhookRateConfig.targetRps_eq_ramp (hduration ▸ hpos), hstart, hduration, hlast]
  rw [htarget, integral_ramp hpos.le (Rat.cast_nonneg.mpr ht), cast_rampArea]

end Curve

/-! ## How many requests -/

section Total

variable {c : LoadConfig}

theorem totalRequests_pos (h : c.rate.Positive) : 0 < c.totalRequests := by
  unfold LoadConfig.totalRequests calculateTotalRequests
  have hstart := h.startRps
  have hduration := h.duration
  have hfinal := h.finalRps
  split
  · exact Int.cast_pos.mpr (Int.ceil_pos.mpr (by positivity))
  · exact Int.cast_pos.mpr (Int.ceil_pos.mpr (by positivity))
  · exact orElse_pos h.2.2.2 one_pos

theorem length_le (h : c.rate.Positive) : (c.length : ℚ) ≤ c.totalRequests := by
  have hfloor : 0 ≤ ⌊c.totalRequests⌋ := Int.floor_nonneg.mpr (totalRequests_pos h).le
  have hcast : ((c.length : ℤ) : ℚ) = (⌊c.totalRequests⌋ : ℚ) := by
    rw [LoadConfig.length, Int.toNat_of_nonneg hfloor]
  rw [← Int.cast_natCast, hcast]
  exact Int.floor_le _

theorem totalRequests_int (hmode : c.rate.mode ≠ .burst) : ∃ n : ℤ, c.totalRequests = n := by
  unfold LoadConfig.totalRequests calculateTotalRequests
  split
  · exact ⟨_, rfl⟩
  · exact ⟨_, rfl⟩
  next hburst => exact absurd hburst hmode

/-- A whole total is sent. -/
theorem length_eq (h : c.rate.Positive) {n : ℤ} (hn : c.totalRequests = n) :
    (c.length : ℚ) = c.totalRequests := by
  have hpos := totalRequests_pos h
  rw [hn, Int.cast_pos] at hpos
  rw [LoadConfig.length, hn, Int.floor_intCast, ← Int.cast_natCast,
    Int.toNat_of_nonneg hpos.le]

theorem lt_totalRequests_iff (h : c.rate.Positive) (hmode : c.rate.mode ≠ .burst) {k : ℕ} :
    (k : ℚ) < c.totalRequests ↔ k < c.length := by
  obtain ⟨n, hn⟩ := totalRequests_int hmode
  rw [← length_eq h hn, Nat.cast_lt]

end Total

/-! ## Requests that are sent -/

section Requests

variable {c : LoadConfig} {jobs : Jobs Outcome}

theorem start_eq : jobs.start = jobs.startMany 1 := by
  rw [Jobs.startMany_succ, Jobs.startMany_zero]

@[simp] theorem launched_sendRequest : (c.sendRequest jobs).launched = jobs.launched + 1 := by
  unfold LoadConfig.sendRequest
  split <;> rfl

theorem sendRequest_inv (h : jobs.Inv) : (c.sendRequest jobs).Inv := by
  unfold LoadConfig.sendRequest
  split
  · rw [start_eq]
    exact h.startMany 1
  · exact h.drop.2

/-- A request that is sent runs, unless its payload throws. -/
theorem running_sendRequest : (c.sendRequest jobs).running = jobs.running ∨
    (c.sendRequest jobs).running = jobs.running ++ [jobs.launched] := by
  unfold LoadConfig.sendRequest
  split
  · exact .inr rfl
  · exact .inl rfl

@[simp] theorem results_sendRequest : (c.sendRequest jobs).results = jobs.results := by
  unfold LoadConfig.sendRequest
  split <;> rfl

theorem launched_iterate (n : ℕ) : (c.sendRequest^[n] jobs).launched = jobs.launched + n := by
  induction n with
  | zero => rfl
  | succ n ih => rw [Function.iterate_succ_apply', launched_sendRequest, ih, Nat.add_assoc]

theorem iterate_inv (h : jobs.Inv) (n : ℕ) : (c.sendRequest^[n] jobs).Inv := by
  induction n with
  | zero => exact h
  | succ n ih =>
      rw [Function.iterate_succ_apply']
      exact sendRequest_inv ih

end Requests

/-! ## What a step does -/

/-- What can happen at a time. -/
inductive Moves (c : LoadConfig) (s : LoadDriver) : LoadDriver → Prop
  | look : s.stage = .looking → (s.jobs.launched : ℚ) < c.totalRequests →
      Moves c s { s with
        stage := .launching
          (if s.elapsedMs ≥ c.rate.duration * 1000 then c.totalRequests
          else c.rate.expectedRequests (s.elapsedMs / 1000)) }
  | finish : s.stage = .looking → c.totalRequests ≤ s.jobs.launched →
      Moves c s { s with stage := .waiting }
  | launch (e : ℚ) : s.stage = .launching e → (s.jobs.launched : ℚ) < e →
      (s.jobs.launched : ℚ) < c.totalRequests →
      Moves c s { s with
        jobs := c.sendRequest s.jobs
        inFlight := s.inFlight ++ [s.jobs.launched]
        stage := if s.inFlight.length + 1 > 100 then .racing e else .launching e }
  | sleep (e : ℚ) : s.stage = .launching e →
      (c.totalRequests ≤ e → c.totalRequests ≤ s.jobs.launched) →
      Moves c s { s with stage := .sleeping s.elapsedMs }
  | wake (since : ℚ) : s.stage = .sleeping since → since + 10 ≤ s.elapsedMs →
      Moves c s { s with stage := .looking }
  | resolve : s.stage = .waiting → (∀ i ∈ s.inFlight, i ∉ s.jobs.running) →
      Moves c s { s with stage := .resolved }
  | reject (i : ℕ) : s.stage = .waiting ∨ (∃ e, s.stage = .racing e) → i < s.jobs.launched →
      i ∉ s.jobs.accounted → Moves c s { s with stage := .rejected }
  | win (i : ℕ) (e : ℚ) : s.stage = .racing e → i ∈ s.inFlight → i ∉ s.jobs.running →
      Moves c s { s with inFlight := s.inFlight.erase i, stage := .launching e }
  | settle (i : ℕ) (outcome : Outcome) : i ∈ s.jobs.running →
      Moves c s { s with jobs := s.jobs.settle i outcome }

section Inversion

variable {c : LoadConfig} {s s' : LoadDriver}

theorem threw_iff {i : ℕ} :
    s.threw i = true ↔ i < s.jobs.launched ∧ i ∉ s.jobs.accounted := by
  simp [LoadDriver.threw]

theorem settled_iff {i : ℕ} : s.settled i = true ↔ i ∉ s.jobs.running := by
  simp [LoadDriver.settled]

theorem advance_moves (h : s.advance c = some s') : Moves c s s' := by
  unfold LoadDriver.advance at h
  split at h
  next hstage =>
    cases h
    unfold LoadDriver.look
    split
    next hlt => exact .look hstage hlt
    next hge => exact .finish hstage (not_lt.mp hge)
  next e hstage =>
    cases h
    unfold LoadDriver.launch
    split
    next hlt =>
      rw [lt_min_iff] at hlt
      simpa using Moves.launch (s := s) e hstage hlt.1 hlt.2
    next hge =>
      refine .sleep e hstage fun hle => ?_
      rwa [min_eq_right hle, not_lt] at hge
  next since hstage =>
    split at h
    next hwake =>
      cases h
      exact .wake since hstage hwake
    next => cases h
  next hstage =>
    unfold LoadDriver.await at h
    split at h
    next hany =>
      cases h
      obtain ⟨i, -, hthrew⟩ := List.any_eq_true.mp hany
      rw [threw_iff] at hthrew
      exact .reject i (.inl hstage) hthrew.1 hthrew.2
    next =>
      split at h
      next hall =>
        cases h
        exact .resolve hstage fun i hi => settled_iff.mp (List.all_eq_true.mp hall i hi)
      next => cases h
  next => cases h

theorem win_moves {i : ℕ} (h : s.win i = some s') : Moves c s s' := by
  unfold LoadDriver.win at h
  split at h
  next e hstage =>
    split at h
    next hslot =>
      split at h
      next hthrew =>
        cases h
        rw [threw_iff] at hthrew
        exact .reject i (.inr ⟨e, hstage⟩) hthrew.1 hthrew.2
      next =>
        cases h
        exact .win i e hstage hslot.1 (settled_iff.mp hslot.2)
    next => cases h
  next => cases h

/-- Time goes by, then one of these happens. -/
theorem loadNext_moves {ms : ℚ} {step : LoadStep} (h : loadNext c (ms, step) s = some s') :
    0 ≤ ms ∧ Moves c { s with elapsedMs := s.elapsedMs + ms } s' := by
  unfold loadNext at h
  dsimp only at h
  split at h
  · cases h
  next hms =>
    refine ⟨not_lt.mp hms, ?_⟩
    split at h
    · exact advance_moves h
    · exact win_moves h
    · obtain ⟨hi, hs⟩ := Option.ite_none_right_eq_some.mp h
      cases hs
      exact .settle _ _ hi

end Inversion

/-! ## The books -/

structure Books (c : LoadConfig) (s : LoadDriver) : Prop where
  jobs : s.jobs.Inv
  nodup : s.inFlight.Nodup
  launched : ∀ i ∈ s.inFlight, i < s.jobs.launched
  running : ∀ i ∈ s.jobs.running, i ∈ s.inFlight
  planned : s.jobs.launched ≤ c.length
  /-- a race is run for slots, and there are at most a hundred without one -/
  slots : match s.stage with
    | .racing _ => s.inFlight ≠ [] ∧ s.inFlight.length ≤ 101
    | .rejected => c.rate.mode ≠ .burst → s.inFlight.length ≤ 101
    | _ => c.rate.mode ≠ .burst → s.inFlight.length ≤ 100
  all : match s.stage with
    | .waiting => s.jobs.launched = c.length
    | .resolved => s.jobs.launched = c.length ∧ s.jobs.running = []
    | .rejected => True
    | _ => c.rate.mode ≠ .burst

section Steps

variable {c : LoadConfig} {s s' : LoadDriver}

theorem books_start : Books c (runWebhookLoadTest c) := by
  unfold runWebhookLoadTest
  split
  next hburst =>
    have hlaunched := @launched_iterate c Jobs.new c.length
    have hinv := @iterate_inv c Jobs.new Jobs.new_inv.1 c.length
    rw [show (Jobs.new : Jobs Outcome).launched = 0 from rfl, Nat.zero_add] at hlaunched
    refine ⟨hinv, List.nodup_range, fun i hi => ?_, fun i hi => ?_, hlaunched.le,
      fun h => absurd hburst h, hlaunched⟩
    · rw [hlaunched]
      exact List.mem_range.mp hi
    · rw [List.mem_range, ← hlaunched]
      exact hinv.launched i (List.mem_append_left _ hi)
  next hmode =>
    exact ⟨Jobs.new_inv.1, List.nodup_nil, nofun, nofun, Nat.zero_le _, fun _ => Nat.zero_le _, hmode⟩

/-- Time goes by. -/
theorem Books.pass (h : Books c s) (ms : ℚ) : Books c { s with elapsedMs := s.elapsedMs + ms } :=
  ⟨h.jobs, h.nodup, h.launched, h.running, h.planned, h.slots, h.all⟩

theorem Books.move (h : Books c s) (hpos : c.rate.Positive) (hmove : Moves c s s') :
    Books c s' := by
  have hslots := h.slots
  have hall := h.all
  cases hmove with
  | look hstage hlt =>
      rw [hstage] at hslots hall
      exact ⟨h.jobs, h.nodup, h.launched, h.running, h.planned, hslots, hall⟩
  | finish hstage hge =>
      rw [hstage] at hslots
      have hlength : c.length ≤ s.jobs.launched := by exact_mod_cast (length_le hpos).trans hge
      exact ⟨h.jobs, h.nodup, h.launched, h.running, h.planned, hslots, le_antisymm h.planned hlength⟩
  | launch e hstage he hlt =>
      rw [hstage] at hslots hall
      refine ⟨sendRequest_inv h.jobs, ?_, fun i hi => ?_, fun i hi => ?_, ?_, ?_, ?_⟩
      · refine List.nodup_append.mpr ⟨h.nodup, List.nodup_singleton _, fun i hi j hj => ?_⟩
        rw [List.mem_singleton.mp hj]
        exact (h.launched i hi).ne
      · rw [launched_sendRequest]
        rcases List.mem_append.mp hi with hi | hi
        · exact Nat.lt_succ_of_lt (h.launched i hi)
        · rw [List.mem_singleton.mp hi]
          exact Nat.lt_succ_self _
      · rcases @running_sendRequest c s.jobs with hrun | hrun
        · rw [hrun] at hi
          exact List.mem_append_left _ (h.running i hi)
        · rw [hrun] at hi
          exact (List.mem_append.mp hi).elim (fun hi => List.mem_append_left _ (h.running i hi))
            (List.mem_append_right _)
      · rw [launched_sendRequest]
        exact (lt_totalRequests_iff hpos hall).mp hlt
      · have hlength := hslots hall
        dsimp only
        split
        next hstage' =>
          rw [List.length_append, List.length_singleton]
          exact ⟨by simp, by omega⟩
        next hstage' =>
          split at hstage' <;> cases hstage'
        next hnot _ =>
          intro _
          rw [List.length_append, List.length_singleton]
          by_contra hmany
          exact hnot e (if_pos (by omega))
      · dsimp only
        split
        next hstage' => split at hstage' <;> cases hstage'
        next hstage' => split at hstage' <;> cases hstage'
        next => trivial
        next => exact hall
  | sleep e hstage _ =>
      rw [hstage] at hslots hall
      exact ⟨h.jobs, h.nodup, h.launched, h.running, h.planned, hslots, hall⟩
  | wake since hstage _ =>
      rw [hstage] at hslots hall
      exact ⟨h.jobs, h.nodup, h.launched, h.running, h.planned, hslots, hall⟩
  | resolve hstage hsettled =>
      rw [hstage] at hslots hall
      refine ⟨h.jobs, h.nodup, h.launched, h.running, h.planned, hslots, hall, ?_⟩
      exact List.eq_nil_iff_forall_not_mem.mpr fun i hi => hsettled i (h.running i hi) hi
  | reject i hstage _ _ =>
      refine ⟨h.jobs, h.nodup, h.launched, h.running, h.planned, fun hmode => ?_, trivial⟩
      rcases hstage with hstage | ⟨e, hstage⟩
      · rw [hstage] at hslots
        exact (hslots hmode).trans (by norm_num)
      · rw [hstage] at hslots
        exact hslots.2
  | win i e hstage hi hsettled =>
      rw [hstage] at hslots hall
      refine ⟨h.jobs, h.nodup.erase i, fun j hj => h.launched j (List.mem_of_mem_erase hj),
        fun j hj => ?_, h.planned, fun _ => ?_, hall⟩
      · have hne : j ≠ i := fun heq => hsettled (heq ▸ hj)
        exact (List.mem_erase_of_ne hne).mpr (h.running j hj)
      · rw [List.length_erase_of_mem hi]
        exact Nat.sub_le_sub_right hslots.2 1
  | settle i outcome hi =>
      refine ⟨h.jobs.settle hi, h.nodup, h.launched,
        fun j hj => h.running j (List.mem_of_mem_erase hj), h.planned, hslots, ?_⟩
      cases hstage : s.stage with
      | resolved =>
          rw [hstage] at hall
          rw [hall.2] at hi
          cases hi
      | _ =>
          rw [hstage] at hall
          exact hall

theorem Books.step (h : Books c s) (hpos : c.rate.Positive) {l : ℚ × LoadStep}
    (hstep : loadNext c l s = some s') : Books c s' :=
  (h.pass l.1).move hpos (loadNext_moves hstep).2

end Steps

/-! ## Runs end -/

/-- How often the driver sleeps at most before the duration has elapsed. -/
def LoadConfig.pauses (c : LoadConfig) (ms : ℚ) : ℕ := ⌈(c.rate.duration * 1000 - ms) / 10⌉₊

/-- How often it wakes at most, with so many requests launched. -/
def LoadConfig.wakes (c : LoadConfig) (launched : ℕ) (ms : ℚ) : Stage → ℕ
  | .looking => if launched = c.length then 0 else c.pauses ms + 1
  | .launching e => if c.totalRequests ≤ e then 1 else c.pauses (ms + 10) + 2
  | .racing e => if c.totalRequests ≤ e then 1 else c.pauses (ms + 10) + 2
  | .sleeping since => if launched = c.length then 1 else c.pauses (since + 10) + 2
  | _ => 0

def rank : Stage → ℕ
  | .looking => 5
  | .racing _ => 4
  | .launching _ => 3
  | .sleeping _ => 2
  | .waiting => 1
  | _ => 0

/-- Pauses, requests to send and requests that run. -/
def work (c : LoadConfig) (s : LoadDriver) : ℕ :=
  4 * c.wakes s.jobs.launched s.elapsedMs s.stage + 3 * (c.length - s.jobs.launched) +
    s.jobs.running.length + rank s.stage

section Work

variable {c : LoadConfig} {s s' : LoadDriver} {t t' : ℚ}

theorem pauses_anti (h : t ≤ t') : c.pauses t' ≤ c.pauses t := by
  refine Nat.ceil_mono ?_
  linarith

theorem pauses_add (h : t < c.rate.duration * 1000) : c.pauses (t + 10) + 1 ≤ c.pauses t := by
  have hpos : 0 < c.pauses t := by
    refine Nat.ceil_pos.mpr ?_
    linarith
  have hsub : (c.rate.duration * 1000 - (t + 10)) / 10 = (c.rate.duration * 1000 - t) / 10 - 1 := by
    ring
  rw [LoadConfig.pauses, hsub, Nat.ceil_sub_one]
  unfold LoadConfig.pauses at hpos ⊢
  omega

theorem wakes_anti (launched : ℕ) (stage : Stage) (h : t ≤ t') :
    c.wakes launched t' stage ≤ c.wakes launched t stage := by
  have hlooks := @pauses_anti c _ _ h
  have hlater := @pauses_anti c _ _ (add_le_add_left h 10)
  cases stage with
  | looking =>
      simp only [LoadConfig.wakes]
      split <;> omega
  | launching e =>
      simp only [LoadConfig.wakes]
      split <;> omega
  | racing e =>
      simp only [LoadConfig.wakes]
      split <;> omega
  | _ => exact le_rfl

theorem work_pass {ms : ℚ} (hms : 0 ≤ ms) :
    work c { s with elapsedMs := s.elapsedMs + ms } ≤ work c s := by
  have hwakes := @wakes_anti c _ _ s.jobs.launched s.stage (le_add_of_nonneg_right hms : s.elapsedMs ≤ _)
  unfold work
  dsimp only
  omega

/-- A look before the end leaves one pause less, and one after it is the last. -/
theorem wakes_look {launched : ℕ} (hmore : launched ≠ c.length) :
    c.wakes launched t (.launching (if t ≥ c.rate.duration * 1000 then c.totalRequests
      else c.rate.expectedRequests (t / 1000))) ≤ c.wakes launched t .looking := by
  simp only [LoadConfig.wakes, if_neg hmore]
  split
  next =>
    rw [if_pos le_rfl]
    omega
  next hbefore =>
    have := @pauses_add c t (not_le.mp hbefore)
    split <;> omega

theorem length_running_sendRequest {jobs : Jobs Outcome} :
    (c.sendRequest jobs).running.length ≤ jobs.running.length + 1 := by
  rcases @running_sendRequest c jobs with h | h
  · rw [h]
    exact Nat.le_succ _
  · rw [h, List.length_append, List.length_singleton]

theorem Moves.work_lt (hmove : Moves c s s') (h : Books c s) (hpos : c.rate.Positive) :
    work c s' < work c s := by
  have hall := h.all
  unfold work
  cases hmove with
  | look hstage hlt =>
      rw [hstage] at hall ⊢
      have hmore := (lt_totalRequests_iff hpos hall).mp hlt
      have hwakes := @wakes_look c s.elapsedMs _ hmore.ne
      simp only [rank]
      omega
  | finish hstage hge =>
      rw [hstage]
      simp only [LoadConfig.wakes, rank]
      omega
  | launch e hstage he hlt =>
      rw [hstage] at hall ⊢
      have hmore := (lt_totalRequests_iff hpos hall).mp hlt
      have hrunning := @length_running_sendRequest c s.jobs
      have hlaunched := @launched_sendRequest c s.jobs
      dsimp only
      split <;> simp only [LoadConfig.wakes, rank] <;> omega
  | sleep e hstage hend =>
      rw [hstage] at hall ⊢
      have hlast : c.totalRequests ≤ e → s.jobs.launched = c.length := fun hle =>
        le_antisymm h.planned (by exact_mod_cast (length_le hpos).trans (hend hle))
      simp only [LoadConfig.wakes, rank]
      split
      next => split <;> omega
      next hmore =>
        rw [if_neg (fun hle => hmore (hlast hle))]
        omega
  | wake since hstage hwake =>
      rw [hstage]
      have hlater := @pauses_anti c _ _ hwake
      simp only [LoadConfig.wakes, rank]
      split <;> omega
  | resolve hstage _ =>
      rw [hstage]
      simp only [LoadConfig.wakes, rank]
      omega
  | reject i hstage _ _ =>
      rcases hstage with hstage | ⟨e, hstage⟩ <;> rw [hstage] <;>
        simp only [LoadConfig.wakes, rank] <;> omega
  | win i e hstage _ _ =>
      rw [hstage]
      simp only [LoadConfig.wakes, rank]
      omega
  | settle i outcome hi =>
      have hfewer := List.length_erase_of_mem hi
      have hone := List.length_pos_of_mem hi
      simp only [Jobs.settle]
      omega

theorem work_lt (h : Books c s) (hpos : c.rate.Positive) {l : ℚ × LoadStep}
    (hstep : loadNext c l s = some s') : work c s' < work c s := by
  obtain ⟨hms, hmove⟩ := loadNext_moves hstep
  exact (hmove.work_lt (h.pass l.1) hpos).trans_le (work_pass hms)

end Work

/-! ## Runs go on until the promise is settled -/

section Progress

variable {c : LoadConfig} {s : LoadDriver}

theorem loadNext_zero {step : LoadStep} (h : match step with
    | .advance => (s.advance c).isSome = true
    | .win i => (s.win i).isSome = true
    | .settle i outcome => (s.settle i outcome).isSome = true) :
    ∃ l, (loadNext c l s).isSome = true := by
  have hsame : ({ s with elapsedMs := s.elapsedMs + 0 } : LoadDriver) = s := by rw [add_zero]
  refine ⟨(0, step), ?_⟩
  unfold loadNext
  simp only [lt_irrefl, if_false, hsame]
  cases step <;> exact h

/-- Unless the promise is settled, something can happen. -/
theorem Books.goes_on (h : Books c s) (hresolved : s.stage ≠ .resolved)
    (hrejected : s.stage ≠ .rejected) : ∃ l, (loadNext c l s).isSome = true := by
  have hslots := h.slots
  cases hstage : s.stage with
  | looking => exact @loadNext_zero c s .advance (by simp [LoadDriver.advance, hstage])
  | launching e => exact @loadNext_zero c s .advance (by simp [LoadDriver.advance, hstage])
  | racing e =>
      rw [hstage] at hslots
      obtain ⟨i, hi⟩ := List.exists_mem_of_ne_nil _ hslots.1
      by_cases hrun : i ∈ s.jobs.running
      · exact @loadNext_zero c s (.settle i (.failure "")) (by simp [LoadDriver.settle, hrun])
      · refine @loadNext_zero c s (.win i) ?_
        simp only [LoadDriver.win, hstage, hi, settled_iff.mpr hrun, and_self, if_true]
        split <;> rfl
  | sleeping since =>
      refine ⟨(max 0 (since + 10 - s.elapsedMs), .advance), ?_⟩
      have hlater : since + 10 ≤ s.elapsedMs + max 0 (since + 10 - s.elapsedMs) := by
        linarith [le_max_right 0 (since + 10 - s.elapsedMs)]
      simp [loadNext, LoadDriver.advance, hstage, hlater]
  | waiting =>
      by_cases hany : s.inFlight.any s.threw = true
      · exact @loadNext_zero c s .advance (by simp [LoadDriver.advance, hstage, LoadDriver.await, hany])
      · by_cases hall : s.inFlight.all s.settled = true
        · exact @loadNext_zero c s .advance
            (by simp [LoadDriver.advance, hstage, LoadDriver.await, hany, hall])
        · obtain ⟨i, -, hrun⟩ : ∃ i ∈ s.inFlight, i ∈ s.jobs.running := by
            simpa [LoadDriver.settled] using hall
          exact @loadNext_zero c s (.settle i (.failure "")) (by simp [LoadDriver.settle, hrun])
  | resolved => exact absurd hstage hresolved
  | rejected => exact absurd hstage hrejected

end Progress

/-! ## Payloads that throw, and payloads that do not -/

section Payloads

variable {c : LoadConfig} {s s' : LoadDriver}

theorem payload_isSome (i : ℕ) : (c.payload i).isSome = true ↔ Expandable c.payloadTemplate := by
  rw [← not_iff_not, Option.not_isSome_iff_eq_none]
  exact expandPayloadTemplate_eq_none

/-- No request is lost, and the promise is not rejected. -/
def Fine (s : LoadDriver) : Prop := ¬ s.jobs.Lost ∧ s.stage ≠ .rejected

theorem sendRequest_fine (hexpand : Expandable c.payloadTemplate) {jobs : Jobs Outcome}
    (h : ¬ jobs.Lost) : ¬ (c.sendRequest jobs).Lost := by
  rwa [LoadConfig.sendRequest, if_pos ((payload_isSome _).mpr hexpand), start_eq, Jobs.lost_startMany]

theorem Fine.move (h : Fine s) (hexpand : Expandable c.payloadTemplate) (hmove : Moves c s s') :
    Fine s' := by
  cases hmove with
  | launch e _ _ _ =>
      refine ⟨sendRequest_fine hexpand h.1, ?_⟩
      dsimp only
      split <;> nofun
  | reject i _ hlaunched hlost => exact absurd ⟨i, hlaunched, hlost⟩ h.1
  | settle i outcome hi => exact ⟨fun hlost => h.1 ((Jobs.lost_settle hi).mp hlost), h.2⟩
  | _ => exact ⟨h.1, nofun⟩

theorem Fine.step (h : Fine s) (hexpand : Expandable c.payloadTemplate) {l : ℚ × LoadStep}
    (hstep : loadNext c l s = some s') : Fine s' := by
  have hpass : Fine { s with elapsedMs := s.elapsedMs + l.1 } := h
  exact hpass.move hexpand (loadNext_moves hstep).2

/-- Nothing has been sent. -/
def Empty (s : LoadDriver) : Prop := s.jobs.running = [] ∧ s.jobs.results = []

theorem sendRequest_empty (hthrows : ¬ Expandable c.payloadTemplate) {jobs : Jobs Outcome} :
    c.sendRequest jobs = jobs.drop := by
  rw [LoadConfig.sendRequest, if_neg (fun h => hthrows ((payload_isSome _).mp h))]

theorem Empty.move (h : Empty s) (hthrows : ¬ Expandable c.payloadTemplate)
    (hmove : Moves c s s') : Empty s' := by
  cases hmove with
  | launch e _ _ _ =>
      rw [Empty]
      simp only [sendRequest_empty hthrows]
      exact h
  | settle i outcome hi =>
      rw [h.1] at hi
      cases hi
  | _ => exact h

theorem Empty.step (h : Empty s) (hthrows : ¬ Expandable c.payloadTemplate) {l : ℚ × LoadStep}
    (hstep : loadNext c l s = some s') : Empty s' := by
  have hpass : Empty { s with elapsedMs := s.elapsedMs + l.1 } := h
  exact hpass.move hthrows (loadNext_moves hstep).2

end Payloads

/-! ## Pace -/

section Pace

variable {c : LoadConfig} {s s' : LoadDriver}

/-- The area under the target rate, by a time in milliseconds. -/
def LoadConfig.areaAt (c : LoadConfig) (ms : ℚ) : ℚ :=
  rampArea c.rate.startRps c.rate.lastRps c.rate.duration (ms / 1000)

theorem areaAt_mono (hpos : c.rate.Positive) {t t' : ℚ} (ht : 0 ≤ t) (h : t ≤ t') :
    c.areaAt t ≤ c.areaAt t' := by
  have hT := hpos.duration.le
  have ht' : 0 ≤ t / 1000 := by positivity
  have hle : t / 1000 ≤ t' / 1000 := by linarith
  have hwidth := sub_nonneg.mpr hle
  rcases le_total c.rate.startRps c.rate.lastRps with hab | hab
  · have hrate := mul_nonneg (hpos.startRps.le.trans (le_ramp hab hT ht')) hwidth
    exact sub_nonneg.mp (hrate.trans (ramp_mul_le hab hT ht' hle))
  · have hrate := mul_nonneg hpos.lastRps.le hwidth
    exact sub_nonneg.mp (hrate.trans (end_mul_le hab hT ht' hle))

/-- Before the duration has elapsed, neither what has been sent nor what is expected is more
than the area by now. -/
structure OnPace (c : LoadConfig) (s : LoadDriver) : Prop where
  elapsed : 0 ≤ s.elapsedMs
  sent : s.elapsedMs < c.rate.duration * 1000 → (s.jobs.launched : ℤ) ≤ ⌈c.areaAt s.elapsedMs⌉
  expected : s.elapsedMs < c.rate.duration * 1000 → ∀ e,
    s.stage = .launching e ∨ s.stage = .racing e → e ≤ c.areaAt s.elapsedMs

theorem OnPace.pass (h : OnPace c s) (hpos : c.rate.Positive) {ms : ℚ} (hms : 0 ≤ ms) :
    OnPace c { s with elapsedMs := s.elapsedMs + ms } := by
  have hmono := areaAt_mono hpos h.elapsed (le_add_of_nonneg_right hms : s.elapsedMs ≤ s.elapsedMs + ms)
  refine ⟨add_nonneg h.elapsed hms, fun hlt => ?_, fun hlt e he => ?_⟩
  · exact (h.sent (by dsimp only at hlt; linarith)).trans (Int.ceil_le_ceil hmono)
  · exact (h.expected (by dsimp only at hlt; linarith) e he).trans hmono

theorem OnPace.move (h : OnPace c s) (hmove : Moves c s s') : OnPace c s' := by
  cases hmove with
  | look hstage _ =>
      refine ⟨h.elapsed, h.sent, fun hlt e he => ?_⟩
      dsimp only at he hlt
      have hexpected := @WebhookRateConfig.expectedRequests_eq_area _ _ _ c.rate _
        (s.elapsedMs / 1000) (by linarith)
      rw [if_neg hlt.not_ge, hexpected] at he
      rcases he with he | he <;> cases he
      exact le_rfl
  | launch e hstage he _ =>
      refine ⟨h.elapsed, fun hlt => ?_, fun hlt e' he' => ?_⟩
      · have hexpected := h.expected hlt e (.inl hstage)
        rw [launched_sendRequest, Nat.cast_succ]
        exact Int.add_one_le_of_lt (Int.lt_ceil.mpr (by exact_mod_cast he.trans_le hexpected))
      · have hexpected := h.expected hlt e (.inl hstage)
        dsimp only at he'
        split at he' <;> rcases he' with he' | he' <;> cases he' <;> exact hexpected
  | win i e hstage _ _ =>
      refine ⟨h.elapsed, h.sent, fun hlt e' he' => ?_⟩
      rcases he' with he' | he' <;> cases he'
      exact h.expected hlt e (.inr hstage)
  | settle i outcome _ => exact ⟨h.elapsed, h.sent, h.expected⟩
  | _ =>
      refine ⟨h.elapsed, h.sent, fun _ e he => ?_⟩
      rcases he with he | he <;> cases he

end Pace

/-! ## Results -/

section Results

variable {c : LoadConfig} {s : LoadDriver}

@[simp] theorem requestResult_iterationIndex (i : ℕ) (outcome : Outcome) :
    (requestResult i outcome).iterationIndex = i := by
  cases outcome <;> rfl

/-- With nothing lost and nothing running there is one result for each request. -/
theorem indices_perm (h : s.jobs.Inv) (hlost : ¬ s.jobs.Lost) (hidle : s.jobs.running = []) :
    (s.jobs.results.map Prod.fst).Perm (List.range s.jobs.launched) := by
  have hdistinct := h.distinct
  have hlaunched := h.launched
  rw [Jobs.accounted, hidle, List.nil_append] at hdistinct hlaunched
  refine (List.perm_ext_iff_of_nodup hdistinct List.nodup_range).mpr fun i => ?_
  rw [List.mem_range]
  refine ⟨hlaunched i, fun hi => ?_⟩
  by_contra hnone
  refine hlost ⟨i, hi, ?_⟩
  rwa [Jobs.accounted, hidle, List.nil_append]

theorem burst_indices {done : List (ℕ × Outcome)} {is : List ℕ}
    (hall : ∀ i ∈ is, i ∈ done.map Prod.fst) :
    (is.filterMap fun i => (done.find? fun r => r.1 == i).map fun r => requestResult r.1 r.2).map
      RequestResult.iterationIndex = is := by
  induction is with
  | nil => rfl
  | cons i is ih =>
      obtain ⟨r, hr, hri⟩ := List.mem_map.mp (hall i List.mem_cons_self)
      obtain ⟨found, hfound⟩ := Option.isSome_iff_exists.mp
        (List.find?_isSome.mpr ⟨r, hr, beq_iff_eq.mpr hri⟩ : (done.find? fun r => r.1 == i).isSome = true)
      have hindex : found.1 = i := by simpa using List.find?_some hfound
      rw [List.filterMap_cons, hfound]
      simp [hindex, ih fun j hj => hall j (List.mem_cons_of_mem i hj)]

theorem results_indices (h : s.jobs.Inv) (hlost : ¬ s.jobs.Lost) (hidle : s.jobs.running = []) :
    ((s.results c).map RequestResult.iterationIndex).Perm (List.range s.jobs.launched) := by
  have hperm := indices_perm h hlost hidle
  unfold LoadDriver.results
  split
  · rw [burst_indices fun i hi => hperm.mem_iff.mpr hi]
  · rw [List.map_map]
    have hfst : (RequestResult.iterationIndex ∘ fun r : ℕ × Outcome => requestResult r.1 r.2) = Prod.fst :=
      funext fun r => requestResult_iterationIndex r.1 r.2
    rw [hfst]
    exact hperm

end Results

/-! ## Whole runs -/

section Runs

variable {c : LoadConfig} {s : LoadDriver} {ls : List (ℚ × LoadStep)}

theorem books_exec (hpos : c.rate.Positive)
    (hrun : exec (loadNext c) (runWebhookLoadTest c) ls = some s) : Books c s :=
  exec_invariant' (fun _ _ _ h hstep => h.step hpos hstep) books_start hrun

theorem runs_end (hpos : c.rate.Positive)
    (hrun : exec (loadNext c) (runWebhookLoadTest c) ls = some s) :
    ls.length ≤ work c (runWebhookLoadTest c) := by
  have hbound := @length_le_of_measure _ _ (loadNext c) (fun _ _ => True) (Books c) (work c)
    (fun _ _ _ h _ hstep => ⟨h.step hpos hstep, work_lt h hpos hstep⟩) ls _ _ books_start
    (allSteps_of_forall fun _ _ => trivial) hrun
  omega

theorem sent_le (hpos : c.rate.Positive) (hmode : c.rate.mode ≠ .burst)
    (hrun : exec (loadNext c) (runWebhookLoadTest c) ls = some s) {t : ℚ}
    (ht : s.elapsedMs ≤ t * 1000) (hlt : t < c.rate.duration) :
    (s.jobs.launched : ℤ) ≤ ⌈∫ x in (0 : ℝ)..t, targetRate c x⌉ := by
  have hstart : OnPace c (runWebhookLoadTest c) := by
    rw [runWebhookLoadTest, if_neg hmode]
    refine ⟨le_rfl, fun _ => ?_, fun _ e he => by rcases he with he | he <;> cases he⟩
    have hzero : c.areaAt 0 = 0 := by
      rw [LoadConfig.areaAt, zero_div]
      exact rampArea_zero hpos.duration.le
    simp [hzero, Jobs.new]
  have hpace : OnPace c s := exec_invariant' (fun l _ _ h hstep =>
    (h.pass hpos (loadNext_moves hstep).1).move (loadNext_moves hstep).2) hstart hrun
  have hback : t * 1000 / 1000 = t := by ring
  have hsent := hpace.sent (by linarith)
  have hmono := areaAt_mono hpos hpace.elapsed ht
  have ht0 : 0 ≤ t := by linarith [hpace.elapsed]
  rw [integral_targetRate hpos ht0, Rat.ceil_cast]
  refine hsent.trans (Int.ceil_le_ceil ?_)
  have harea : c.areaAt (t * 1000) = rampArea c.rate.startRps c.rate.lastRps c.rate.duration t := by
    rw [LoadConfig.areaAt, hback]
  exact harea ▸ hmono

theorem running_le (hpos : c.rate.Positive) (hmode : c.rate.mode ≠ .burst)
    (hrun : exec (loadNext c) (runWebhookLoadTest c) ls = some s) :
    s.jobs.running.length ≤ 101 := by
  have h := books_exec hpos hrun
  have hnodup : s.jobs.running.Nodup := (List.nodup_append.mp h.jobs.distinct).1
  have hsub := (List.subperm_of_subset hnodup h.running).length_le
  have hslots := h.slots
  refine hsub.trans ?_
  cases hstage : s.stage with
  | racing e =>
      rw [hstage] at hslots
      exact hslots.2
  | rejected =>
      rw [hstage] at hslots
      exact hslots hmode
  | _ =>
      rw [hstage] at hslots
      exact (hslots hmode).trans (by norm_num)

theorem stuck_settled (hpos : c.rate.Positive)
    (hrun : exec (loadNext c) (runWebhookLoadTest c) ls = some s)
    (hstuck : ∀ l, loadNext c l s = none) : s.stage = .resolved ∨ s.stage = .rejected := by
  by_contra hnot
  rw [not_or] at hnot
  obtain ⟨l, hl⟩ := (books_exec hpos hrun).goes_on hnot.1 hnot.2
  rw [hstuck l] at hl
  cases hl

/-- From any bound on the lengths of runs, one that is stuck. -/
theorem exists_stuck {bound : ℕ}
    (hbound : ∀ ls s, exec (loadNext c) (runWebhookLoadTest c) ls = some s → ls.length ≤ bound) :
    ∃ ls s, exec (loadNext c) (runWebhookLoadTest c) ls = some s ∧ ∀ l, loadNext c l s = none := by
  obtain ⟨ls, s, -, hrun, hstuck⟩ := @exists_final _ _ (loadNext c) (fun _ => True)
    (fun s => ∀ l, loadNext c l s = none) (runWebhookLoadTest c) bound
    (fun ls s _ hrun => hbound ls s hrun) fun ls s _ _ => by
      by_cases hstuck : ∀ l, loadNext c l s = none
      · exact .inl hstuck
      · rw [not_forall] at hstuck
        obtain ⟨l, hl⟩ := hstuck
        obtain ⟨s', hs'⟩ := Option.ne_none_iff_exists'.mp hl
        exact .inr ⟨l, s', trivial, hs'⟩
  exact ⟨ls, s, hrun, hstuck⟩

theorem fine_start (hexpand : Expandable c.payloadTemplate) : Fine (runWebhookLoadTest c) := by
  have hiterate : ∀ n, ¬ (c.sendRequest^[n] Jobs.new).Lost := by
    intro n
    induction n with
    | zero => exact Jobs.new_inv.2
    | succ n ih =>
        rw [Function.iterate_succ_apply']
        exact sendRequest_fine hexpand ih
  unfold runWebhookLoadTest
  split
  · exact ⟨hiterate _, nofun⟩
  · exact ⟨Jobs.new_inv.2, nofun⟩

theorem empty_start (hthrows : ¬ Expandable c.payloadTemplate) : Empty (runWebhookLoadTest c) := by
  have hiterate : ∀ n, (c.sendRequest^[n] Jobs.new).running = [] ∧
      (c.sendRequest^[n] Jobs.new).results = [] := by
    intro n
    induction n with
    | zero => exact ⟨rfl, rfl⟩
    | succ n ih =>
        rw [Function.iterate_succ_apply', sendRequest_empty hthrows]
        exact ih
  unfold runWebhookLoadTest
  split
  · exact hiterate _
  · exact ⟨rfl, rfl⟩

/-- Where no payload throws, the promise resolves with a result for each request sent. -/
theorem resolves_of_expandable (hpos : c.rate.Positive) (hexpand : Expandable c.payloadTemplate)
    (hrun : exec (loadNext c) (runWebhookLoadTest c) ls = some s)
    (hstuck : ∀ l, loadNext c l s = none) : s.stage = .resolved ∧
      ((s.results c).map RequestResult.iterationIndex).Perm (List.range c.length) := by
  have hfine : Fine s :=
    exec_invariant' (fun _ _ _ h hstep => h.step hexpand hstep) (fine_start hexpand) hrun
  have hresolved := (stuck_settled hpos hrun hstuck).resolve_right hfine.2
  have h := books_exec hpos hrun
  have hall := h.all
  rw [hresolved] at hall
  refine ⟨hresolved, ?_⟩
  rw [← hall.1]
  exact results_indices h.jobs hfine.1 hall.2

/-- Where it throws, there is no result. -/
theorem no_results (hthrows : ¬ Expandable c.payloadTemplate)
    (hrun : exec (loadNext c) (runWebhookLoadTest c) ls = some s) : s.results c = [] := by
  have hempty : Empty s :=
    exec_invariant' (fun _ _ _ h hstep => h.step hthrows hstep) (empty_start hthrows) hrun
  unfold LoadDriver.results
  dsimp only
  rw [hempty.2]
  split <;> simp

theorem expandable_of_sendsPlanned (hpos : c.rate.Positive) (h : SendsPlanned c) :
    Expandable c.payloadTemplate ∧ (c.rate.mode = .burst → c.totalRequests.den = 1) := by
  obtain ⟨bound, hbound⟩ := h.ends
  obtain ⟨ls, s, hrun, hstuck⟩ := exists_stuck hbound
  obtain ⟨-, htotal, -⟩ := h.resolves ls s hrun hstuck
  constructor
  · by_contra hthrows
    rw [no_results hthrows hrun, List.length_nil, Nat.cast_zero] at htotal
    exact absurd htotal (totalRequests_pos hpos).ne
  · intro _
    rw [← htotal]
    exact Rat.den_natCast _

end Runs

/-- A platform that always gives the same. -/
def sameEachTime : Generators where
  generateUuid := "7d444840-9dc0-41d1-b245-5ffdce74fad2".toList
  randomInt := fun lower _ => match lower with
    | some n => (toString n).toList
    | none => "NaN".toList
  parseFloat := numericValue
  randomFloat := fun _ _ _ => "5".toList
  randomEmail := "mary.smith7@test.com".toList
  randomName := "Mary Smith".toList
  randomPhone := "+1-200-200-1000".toList
  randomString := fun length => List.replicate (length.getD 0).toNat 'A'
  randomIndex := fun _ => 0
  isoDate := fun _ => "2024-05-01T12:34:56.789Z".toList
  formatDate := fun _ _ => "2024-05-01".toList
  sequenceCounter := 0

/-- From two to six requests a second, in three seconds. -/
def rampedLoad : LoadConfig where
  payloadTemplate :=
    ("\x7b \"n\": \x7b\x7b$requestIndex\x7d\x7d, " ++
      "\"price\": \x7b\x7b$randomFloat(0, 10, 2)\x7d\x7d \x7d").toList
  rate := { mode := .ramp, rps := some 2, endRps := some 6, durationSec := some 3 }
  draws := fun _ _ => sameEachTime
  timestamp := fun _ => 1714567890123

end RedFireForge.Workflow.WebhookLoad
