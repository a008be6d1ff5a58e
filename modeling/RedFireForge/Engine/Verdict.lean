/-
# `RedFireForge.Engine.Verdict` — the verdict on an HTTP response

`buildValidationResult` decides for the load tests and the graph runner whether a
request passed; the legacy workflow runner has its own copy of that decision in
`executeWorkflowStep`.  The copy reports an HTTP failure only if it has a message
for it, and it takes the message from the response body.
-/
import Mathlib.Data.Rat.Init
import RedFireForge.Lib.Json

namespace RedFireForge.Engine

open RedFireForge.Lib

/-! ## Assertions -/

inductive AssertionType
  | status | responseTime | header | regex | arrayLength | numeric | date | typeCheck | existence
  | arrayContains | each | containsSubset | jsonSchema | bodySize | datePrecise | kafkaField
  | wsField | wsNumericField | custom
deriving DecidableEq, Repr

def AssertionType.name : AssertionType → String
  | .status => "status"
  | .responseTime => "responseTime"
  | .header => "header"
  | .regex => "regex"
  | .arrayLength => "arrayLength"
  | .numeric => "numeric"
  | .date => "date"
  | .typeCheck => "typeCheck"
  | .existence => "existence"
  | .arrayContains => "arrayContains"
  | .each => "each"
  | .containsSubset => "containsSubset"
  | .jsonSchema => "jsonSchema"
  | .bodySize => "bodySize"
  | .datePrecise => "datePrecise"
  | .kafkaField => "kafkaField"
  | .wsField => "wsField"
  | .wsNumericField => "wsNumericField"
  | .custom => "custom"

/-- `P` are the fields of the assertion's own type. -/
structure Assertion (P : Type) where
  type : AssertionType
  negate : Bool
  fields : P

structure FailureDetail where
  path : String
  expected : String
  actual : String
deriving DecidableEq, Repr

structure AssertionContext where
  httpStatus : ℕ
  responseTimeMs : ℚ
  responseHeaders : List (String × String)
  responseBody : Json
  rawBody : String

inductive ValidationMode
  | none | full | selective
deriving DecidableEq, Repr

/-- `F` is an expected field, `C` what else the configuration holds. -/
structure ValidationConfig (P F C : Type) where
  mode : ValidationMode
  assertions : List (Assertion P)
  expectedFields : List F
  rest : C

/-- The handlers of the assertion types, which are given the place of the assertion,
and `validate`, the comparison with the expected JSON: both pipelines call the same. -/
structure Validators (P F C : Type) where
  handle : Assertion P → AssertionContext → ℕ → List FailureDetail
  validate : ValidationConfig P F C → Json → List FailureDetail

/-- Failures that a negation does not turn into a success. -/
def isConfigError (f : FailureDetail) : Bool :=
  f.actual == "invalid regex pattern" || f.actual == "invalid JSON in expected" ||
    f.actual == "empty expression" || f.actual.startsWith "expression error:" ||
    f.actual.startsWith "runtime error:" || f.actual.startsWith "invalid date:" ||
    f.actual.startsWith "invalid reference:" ||
    (f.expected == "valid JSON Schema" || f.expected == "valid JSON subset")

variable {P F C : Type}

/-- What one assertion adds. -/
def assertionFailures (v : Validators P F C) (ctx : AssertionContext) (a : Assertion P) (i : ℕ) :
    List FailureDetail :=
  let failures := v.handle a ctx i
  if a.negate then
    let configErrors := failures.filter isConfigError
    if configErrors.length > 0 then configErrors
    else if failures.length = 0 then
      [⟨"(" ++ a.type.name ++ ")", "NOT (assertion to fail)", "assertion passed (negated → fail)"⟩]
    else []
  else failures

def evaluateAssertions (v : Validators P F C) (assertions : List (Assertion P))
    (ctx : AssertionContext) : List FailureDetail × Bool :=
  (assertions.zipIdx.flatMap (fun (a, i) => assertionFailures v ctx a i),
    assertions.any (·.type = .status))

/-! ## The response -/

/-- What `httpFetch` ends with. -/
inductive Fetched
  | threw (message : String)
  | answered (error : Option String) (status : ℕ) (body : String) (headers : List (String × String))

/-- The locals of the pipelines after the request; `errorMessage` is empty when there
is none. -/
structure Received where
  httpStatus : ℕ
  responseBody : String
  responseObj : Json
  responseHeaders : List (String × String)
  errorMessage : String

def parseJsonOrRaw (json : Json.Parser) (body : String) : Json := (json.parse body).getD (.str body)

/-- The graph runner and the load tests parse a body only where it is looked at. -/
def receive (json : Json.Parser) (needsParse : ℕ → Bool) : Fetched → Received
  | .threw message => ⟨0, "", .null, [], message⟩
  | .answered error status body headers =>
      if error.getD "" ≠ "" then ⟨0, "", .null, [], error.getD ""⟩
      else
        ⟨status, body,
          if needsParse status ∧ body ≠ "" then parseJsonOrRaw json body else .str body, headers, ""⟩

/-- `parsed?.[key]`, where `null` counts as missing. -/
def field (key : String) : Json → Option Json
  | .obj fields => (fields.lookup key).filter (fun j => !j matches .null)
  | _ => none

/-- The message in the body of a failed request. -/
def bodyMessage (responseObj : Json) (responseBody : String) : String :=
  let raw := (field "message" responseObj).or ((field "error" responseObj).or
    ((field "detail" responseObj).or (field "errorMessage" responseObj)))
  match raw with
  | some (.str s) => s
  | some j => j.stringify
  | none => String.ofList (responseBody.toList.take 300)

/-! ## `buildValidationResult` -/

structure ValidationOutput where
  failureDetails : List FailureDetail
  passed : Bool
  errorMessage : String
deriving DecidableEq, Repr

/-- The assertions, or nothing where there are none. -/
def asserted (v : Validators P F C) (validation : ValidationConfig P F C) (responseTimeMs : ℚ)
    (r : Received) : List FailureDetail × Bool :=
  if validation.assertions.length > 0 then
    evaluateAssertions v validation.assertions
      ⟨r.httpStatus, responseTimeMs, r.responseHeaders, r.responseObj, r.responseBody⟩
  else ([], false)

/-- The JSON comparison is made where the status is as it should be. -/
def jsonFailures (v : Validators P F C) (validation : ValidationConfig P F C) (r : Received)
    (assertionFailures : List FailureDetail) (statusAsserted : Bool) : List FailureDetail :=
  let httpOk := decide (r.httpStatus > 0) && decide (r.httpStatus < 400)
  let statusOk :=
    if statusAsserted then assertionFailures.all (fun f => f.path != "(status)") else httpOk
  if validation.mode ≠ .none ∧ statusOk then v.validate validation r.responseObj else []

/-- Of an HTTP transport. -/
def buildValidationResult (v : Validators P F C) (validation : ValidationConfig P F C)
    (responseTimeMs : ℚ) (r : Received) : ValidationOutput :=
  let (assertionFailures, statusAsserted) := asserted v validation responseTimeMs r
  let jsonFailures := jsonFailures v validation r assertionFailures statusAsserted
  let httpFailed := !statusAsserted && (decide (r.httpStatus ≥ 400) || decide (r.httpStatus = 0))
  let failureDetails :=
    if httpFailed then
      let actual :=
        if r.errorMessage ≠ "" then r.errorMessage
        else if r.httpStatus = 0 then "network error"
        else "HTTP " ++ toString r.httpStatus
      ⟨"(http)", "2xx", actual⟩ :: assertionFailures
    else assertionFailures ++ jsonFailures
  let networkError := decide (r.httpStatus = 0) && !statusAsserted
  ⟨failureDetails, !networkError && decide (failureDetails.length = 0), r.errorMessage⟩

/-- The request of a load test. -/
def executeRequest (json : Json.Parser) (v : Validators P F C)
    (validation : ValidationConfig P F C) (responseTimeMs : ℚ) (fetched : Fetched) :
    ValidationOutput :=
  let needsParse (status : ℕ) := (decide (status ≥ 400) || decide (status = 0)) ||
    decide (validation.mode ≠ .none) || decide (validation.assertions.length > 0) ||
    decide (validation.expectedFields.length > 0)
  let r := receive json needsParse fetched
  let httpFailed := decide (r.httpStatus ≥ 400) || decide (r.httpStatus = 0)
  let errorMessage :=
    if httpFailed ∧ r.errorMessage = "" ∧ r.responseBody ≠ "" then
      bodyMessage r.responseObj r.responseBody
    else r.errorMessage
  buildValidationResult v validation responseTimeMs { r with errorMessage := errorMessage }

/-- The request of a graph node; `extractions` is the number of its extractions. -/
def executeHttpNode (json : Json.Parser) (v : Validators P F C)
    (validation : ValidationConfig P F C) (extractions : ℕ) (responseTimeMs : ℚ) (fetched : Fetched) :
    ValidationOutput :=
  let needsParse (status : ℕ) := (decide (status ≥ 400) || decide (status = 0)) ||
    decide (validation.mode ≠ .none) || decide (validation.assertions.length > 0) ||
    decide (validation.expectedFields.length > 0) || decide (extractions > 0)
  buildValidationResult v validation responseTimeMs (receive json needsParse fetched)

/-- The legacy workflow parses every body, an empty one too. -/
def stepReceived (json : Json.Parser) : Fetched → Received
  | .threw message => ⟨0, "", .null, [], message⟩
  | .answered error status body headers =>
      if error.getD "" ≠ "" then ⟨0, "", .null, [], error.getD ""⟩
      else ⟨status, body, parseJsonOrRaw json body, headers, ""⟩

/-- The step of a legacy workflow. -/
def executeWorkflowStep (json : Json.Parser) (v : Validators P F C)
    (validation : ValidationConfig P F C) (responseTimeMs : ℚ) (fetched : Fetched) :
    ValidationOutput :=
  let r := stepReceived json fetched
  let (assertionFailures, statusAsserted) := asserted v validation responseTimeMs r
  let jsonFailures := jsonFailures v validation r assertionFailures statusAsserted
  let httpFailed := !statusAsserted && (decide (r.httpStatus ≥ 400) || decide (r.httpStatus = 0))
  let errorMessage :=
    if httpFailed ∧ r.errorMessage = "" ∧ r.responseBody ≠ "" then
      bodyMessage r.responseObj r.responseBody
    else r.errorMessage
  let failureDetails :=
    if httpFailed ∧ errorMessage ≠ "" then
      ⟨"(http)", "2xx", errorMessage⟩ :: assertionFailures
    else assertionFailures ++ jsonFailures
  let networkError := decide (r.httpStatus = 0) && !statusAsserted
  ⟨failureDetails, !networkError && decide (failureDetails.length = 0), errorMessage⟩

/-! ## Where the verdicts differ -/

/-- An answer with an error status that no assertion looks at or complains about, and
no message for it. -/
def FailsSilently (json : Json.Parser) (v : Validators P F C) (validation : ValidationConfig P F C)
    (responseTimeMs : ℚ) : Fetched → Prop
  | .threw _ => False
  | .answered error status body headers =>
      error.getD "" = "" ∧ status ≥ 400 ∧
        asserted v validation responseTimeMs ⟨status, body, parseJsonOrRaw json body, headers, ""⟩ =
          ([], false) ∧
        (body = "" ∨ bodyMessage (parseJsonOrRaw json body) body = "")

section Verdicts

variable {json : Json.Parser} {v : Validators P F C} {validation : ValidationConfig P F C}
  {responseTimeMs : ℚ} {r r' : Received}

/-- An error status that is not asserted fails; otherwise the failures found decide. -/
theorem buildValidationResult_passed :
    (buildValidationResult v validation responseTimeMs r).passed = true ↔
      ((asserted v validation responseTimeMs r).2 = true ∨
        r.httpStatus ≠ 0 ∧ ¬ r.httpStatus ≥ 400) ∧
      (asserted v validation responseTimeMs r).1 = [] ∧
      jsonFailures v validation r (asserted v validation responseTimeMs r).1
        (asserted v validation responseTimeMs r).2 = [] := by
  unfold buildValidationResult
  obtain ⟨failures, statusAsserted⟩ := asserted v validation responseTimeMs r
  cases statusAsserted with
  | true => simp
  | false =>
      by_cases hzero : r.httpStatus = 0
      · simp [hzero]
      · by_cases hfail : r.httpStatus ≥ 400
        · simp [hzero, hfail]
        · simp [hzero, hfail]

/-- The verdict does not depend on the message. -/
theorem buildValidationResult_errorMessage {message : String} :
    (buildValidationResult v validation responseTimeMs { r with errorMessage := message }).passed =
      (buildValidationResult v validation responseTimeMs r).passed := by
  rw [Bool.eq_iff_iff, buildValidationResult_passed, buildValidationResult_passed]
  exact Iff.rfl

/-- Nor on a body that nothing looks at. -/
theorem buildValidationResult_responseObj {obj : Json}
    (h : obj = r.responseObj ∨ validation.mode = .none ∧ validation.assertions = []) :
    (buildValidationResult v validation responseTimeMs { r with responseObj := obj }).passed =
      (buildValidationResult v validation responseTimeMs r).passed := by
  rcases h with rfl | ⟨hmode, hassertions⟩
  · rfl
  · rw [Bool.eq_iff_iff, buildValidationResult_passed, buildValidationResult_passed]
    simp [asserted, hassertions, jsonFailures, hmode]

/-- The bodies of the pipelines are the same where they are looked at. -/
theorem receive_responseObj {needsParse : Bool} {body : String}
    (hneeds : validation.mode ≠ .none ∨ validation.assertions.length > 0 → needsParse = true) :
    (if needsParse ∧ body ≠ "" then parseJsonOrRaw json body else .str body) =
        parseJsonOrRaw json body ∨ validation.mode = .none ∧ validation.assertions = [] := by
  by_cases hlook : validation.mode ≠ .none ∨ validation.assertions.length > 0
  · left
    rw [hneeds hlook]
    split
    · rfl
    next hbody =>
      have hempty : body = "" := by simpa using hbody
      rw [hempty, parseJsonOrRaw, json.empty, Option.getD_none]
  · right
    simpa using hlook

theorem jsonFailures_unasserted (hstatus : r.httpStatus ≥ 400) (failures : List FailureDetail) :
    jsonFailures v validation r failures false = [] := by
  have hok : ¬ r.httpStatus < 400 := by omega
  simp [jsonFailures, hok]

/-- A message is there, or is found in the body. -/
def stepMessage (statusAsserted : Bool) (r : Received) : String :=
  if (!statusAsserted && (decide (r.httpStatus ≥ 400) || decide (r.httpStatus = 0))) ∧
      r.errorMessage = "" ∧ r.responseBody ≠ "" then bodyMessage r.responseObj r.responseBody
  else r.errorMessage

/-- The verdict of the step on what it received. -/
theorem executeWorkflowStep_passed {fetched : Fetched} (hr : stepReceived json fetched = r) :
    (executeWorkflowStep json v validation responseTimeMs fetched).passed = true ↔
      ((asserted v validation responseTimeMs r).2 = true ∨ r.httpStatus ≠ 0 ∧
        (r.httpStatus ≥ 400 → stepMessage (asserted v validation responseTimeMs r).2 r = "")) ∧
      (asserted v validation responseTimeMs r).1 = [] ∧
      jsonFailures v validation r (asserted v validation responseTimeMs r).1
        (asserted v validation responseTimeMs r).2 = [] := by
  unfold executeWorkflowStep
  dsimp only
  rw [hr]
  obtain ⟨failures, statusAsserted⟩ := asserted v validation responseTimeMs r
  cases statusAsserted with
  | true => simp
  | false =>
      by_cases hzero : r.httpStatus = 0
      · simp [hzero]
      · by_cases hfail : r.httpStatus ≥ 400
        · by_cases hmessage : stepMessage false r = ""
          · have hnone := hmessage
            simp only [stepMessage, hfail, decide_true, Bool.true_or, Bool.not_false, Bool.and_true,
              true_and] at hnone
            simp [hzero, hfail, hmessage, hnone]
          · have hsome := hmessage
            simp only [stepMessage, hfail, decide_true, Bool.true_or, Bool.not_false, Bool.and_true,
              true_and] at hsome
            simp [hzero, hfail, hmessage, hsome]
        · simp [hzero, hfail]

/-- The step and the helper differ on an error status for which there is no message. -/
theorem step_eq_helper_iff {fetched : Fetched} :
    (executeWorkflowStep json v validation responseTimeMs fetched).passed =
        (buildValidationResult v validation responseTimeMs (stepReceived json fetched)).passed ↔
      ¬ FailsSilently json v validation responseTimeMs fetched := by
  rw [Bool.eq_iff_iff, executeWorkflowStep_passed rfl, buildValidationResult_passed]
  cases fetched with
  | threw message => simp [stepReceived, FailsSilently]
  | answered error status body headers =>
      by_cases herror : error.getD "" = ""
      · have hr : stepReceived json (.answered error status body headers) =
            ⟨status, body, parseJsonOrRaw json body, headers, ""⟩ := by
          simp [stepReceived, herror]
        rw [hr]
        simp only [FailsSilently, herror, true_and]
        obtain ⟨failures, statusAsserted⟩ := asserted v validation responseTimeMs
          ⟨status, body, parseJsonOrRaw json body, headers, ""⟩
        cases statusAsserted with
        | true => simp
        | false =>
            by_cases hfail : status ≥ 400
            · rw [jsonFailures_unasserted hfail]
              have hzero : status ≠ 0 := by omega
              by_cases hbody : body = ""
              · simp [hfail, hzero, hbody, stepMessage]
              · simp [hfail, hzero, hbody, stepMessage, and_comm]
            · simp [hfail]
      · simp [stepReceived, FailsSilently, herror]

theorem executeRequest_passed {fetched : Fetched} :
    (executeRequest json v validation responseTimeMs fetched).passed =
      (buildValidationResult v validation responseTimeMs (stepReceived json fetched)).passed := by
  unfold executeRequest
  dsimp only
  rw [buildValidationResult_errorMessage]
  cases fetched with
  | threw message => rfl
  | answered error status body headers =>
      unfold receive stepReceived
      dsimp only
      split
      · rfl
      · exact (buildValidationResult_responseObj
          (r := ⟨status, body, parseJsonOrRaw json body, headers, ""⟩)
          (receive_responseObj (fun h => by rcases h with h | h <;> simp [h])))

theorem executeHttpNode_passed {fetched : Fetched} {extractions : ℕ} :
    (executeHttpNode json v validation extractions responseTimeMs fetched).passed =
      (buildValidationResult v validation responseTimeMs (stepReceived json fetched)).passed := by
  unfold executeHttpNode
  cases fetched with
  | threw message => rfl
  | answered error status body headers =>
      unfold receive stepReceived
      dsimp only
      split
      · rfl
      · exact (buildValidationResult_responseObj
          (r := ⟨status, body, parseJsonOrRaw json body, headers, ""⟩)
          (receive_responseObj (fun h => by rcases h with h | h <;> simp [h])))

end Verdicts

/-- **The two pipelines.**  They agree on a response, whoever asks the helper, if and
only if it does not fail silently. -/
theorem executeWorkflowStep_agrees_iff (json : Json.Parser) (v : Validators P F C)
    (validation : ValidationConfig P F C) (responseTimeMs : ℚ) (extractions : ℕ)
    (fetched : Fetched) :
    ((executeWorkflowStep json v validation responseTimeMs fetched).passed =
        (executeRequest json v validation responseTimeMs fetched).passed ∧
      (executeWorkflowStep json v validation responseTimeMs fetched).passed =
        (executeHttpNode json v validation extractions responseTimeMs fetched).passed) ↔
      ¬ FailsSilently json v validation responseTimeMs fetched := by
  rw [executeRequest_passed, executeHttpNode_passed, and_self, step_eq_helper_iff]

/-! ### An empty 404 -/

/-- No text is JSON, no assertion fails and no body differs. -/
def noJson : Json.Parser := ⟨fun _ => none, rfl⟩

def lax : Validators Unit Unit Unit := ⟨fun _ _ _ => [], fun _ _ => []⟩

def unchecked : ValidationConfig Unit Unit Unit := ⟨.none, [], [], ()⟩

/-- It passes in a legacy workflow only. -/
theorem empty_notFound_passes :
    (executeWorkflowStep noJson lax unchecked 5 (.answered none 404 "" [])).passed = true ∧
      (executeRequest noJson lax unchecked 5 (.answered none 404 "" [])).passed = false ∧
      (executeHttpNode noJson lax unchecked 0 5 (.answered none 404 "" [])).passed = false := by
  decide

end RedFireForge.Engine
