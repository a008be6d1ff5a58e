/-
# `RedFireForge.ApiMock.PredicateEvaluator` — when a route matches a request

Predicates stand in a tree of groups.  A route matches if its method and its path do,
and then its own tree, or in `rules` mode the conditions of one of its variants.
The operators that read JSON, XML, forms and files are a parameter.
-/
import Mathlib.Data.List.Infix
import RedFireForge.ApiMock.PathMatcher
import RedFireForge.Lib.Json

namespace RedFireForge.ApiMock

open RedFireForge.Lib

/-! ## Contracts -/

inductive Source
  | pathParam | query | header | cookie | security | body | transport
deriving DecidableEq, Repr

inductive Operator
  | exact | contains | prefix_ | suffix | regex | glob | present | absent
  | jsonPath_exists | jsonPath_equals | jsonSchema | json_strict | json_subset
  | xpath_exists | xpath_equals | xmlSchema
  | form_field_exact | form_field_regex | form_field_present
  | multipart_field | multipart_file | binary_exact | binary_sha256
deriving DecidableEq, Repr

/-- `none` is `undefined`. -/
structure Predicate where
  source : Source
  selector : Option String
  operator : Operator
  expected : Option Json
  options : Option Json

inductive Combinator
  | all | any | not
  | unknown (name : String)
deriving DecidableEq, Repr

inductive Condition
  | group (combinator : Combinator) (children : List Condition)
  | pred (p : Predicate)

structure PredicateGroup where
  combinator : Combinator
  children : List Condition

inductive Fault
  | none | timeout | close | reset | malformed | dribble
deriving DecidableEq, Repr

structure Behavior where
  maxMatches : Option ℚ
  expiresAt : Option String
  fault : Option Fault
  probability : Option ℚ

/-- Of a variant, what selects it. -/
structure ResponseVariant where
  id : String
  enabled : Bool
  isDefault : Bool
  conditions : Option PredicateGroup
  behavior : Behavior
  /-- of the transition: the state that it requires -/
  currentState : Option String

inductive ResponseMode
  | rules | sequence | weighted | state
deriving DecidableEq, Repr

inductive Method
  | any | get | head | post | put | patch | delete | options | trace
deriving DecidableEq, Repr

structure Route where
  id : String
  enabled : Bool
  method : Method
  path : PathMatcher
  priority : ℚ
  predicates : PredicateGroup
  responseMode : ResponseMode
  responses : List ResponseVariant

structure CapturedRequest where
  method : String
  path : String
  query : String → Option (List String)
  headers : String → Option (List String)
  cookies : String → Option String
  body : Option String
  contentType : Option String
  clientCertSubject : Option String

/-! ## Operators -/

inductive Value
  | one (s : String)
  | many (l : List String)
deriving DecidableEq, Repr

def field (key : String) : Option Json → Option Json
  | some (.obj fields) => (fields.find? (fun f => f.1 == key)).map Prod.snd
  | _ => none

/-- `options?.caseSensitive === false` -/
def ignoresCase (options : Option Json) : Bool :=
  match field "caseSensitive" options with
  | some (.bool false) => true
  | _ => false

def truthy : Json → Bool
  | .null => false
  | .bool b => b
  | .num n => n.text != ['0']
  | .str s => s != ""
  | _ => true

/-- `options?.negate` -/
def negated (options : Option Json) : Bool := ((field "negate" options).map truthy).getD false

mutual
/-- `String(v)`; in an array `null` is written as nothing. -/
def jsString : Json → List Char
  | .null => "null".toList
  | .bool true => "true".toList
  | .bool false => "false".toList
  | .num n => n.text
  | .str s => s.toList
  | .arr [] => []
  | .arr (.null :: items) => joinItems items
  | .arr (j :: items) => jsString j ++ joinItems items
  | .obj _ => "[object Object]".toList

/-- The items after the first. -/
def joinItems : List Json → List Char
  | [] => []
  | .null :: items => ',' :: joinItems items
  | j :: items => ',' :: (jsString j ++ joinItems items)
end

/-- `String(v)` of what may be undefined -/
def stringOf : Option Json → String
  | none => "undefined"
  | some j => String.ofList (jsString j)

def str : Option Json → String
  | none => ""
  | some .null => ""
  | some j => String.ofList (jsString j)

def Value.all : Option Value → List String
  | none => []
  | some (.one s) => [s]
  | some (.many l) => l

/-- Some value passes the test. -/
def anyValue (value : Option Value) (test : String → Bool) : Bool := (Value.all value).any test

def includes (s t : String) : Bool := decide (t.toList <:+: s.toList)

def matchExact (js : Js) (value : Option Value) (expected options : Option Json) : Bool :=
  anyValue value (fun v => sameText js v (str expected) (ignoresCase options))

def globPattern (pattern : String) : String :=
  String.ofList ('^' :: (pattern.toList.flatMap (fun c =>
    if c = '*' then ['.', '*'] else if c = '?' then ['.'] else escapeRegexChar c) ++ ['$']))

/-- The operators that read the structure of a body. -/
abbrev Matchers := Operator → Option Value → Option Json → Option Json → Option String → Bool

def evaluateOperator (js : Js) (matchers : Matchers) (operator : Operator) (value : Option Value)
    (expected options : Option Json) (contentType : Option String) : Bool :=
  match operator with
  | .present => value.isSome && value != some (.one "")
  | .absent => value.isNone || value == some (.one "")
  | .exact => matchExact js value expected options
  | .contains => anyValue value (fun v => includes v (str expected))
  | .prefix_ => anyValue value (fun v => startsWith v (str expected))
  | .suffix => anyValue value (fun v => endsWith v (str expected))
  | .regex => anyValue value (testRegex js (str expected) (ignoresCase options))
  | .glob => anyValue value (testRegex js (globPattern (str expected)) (ignoresCase options))
  | .binary_exact => value == some (.one (stringOf expected))
  | op => matchers op value expected options contentType

/-! ## Values -/

def authorization (request : CapturedRequest) : Option String :=
  (request.headers "authorization").bind List.head?

def apiKeyHeaders : List String := ["x-api-key", "api-key", "x-auth-token"]

def extractSecurityValue (js : Js) (selector : String) (request : CapturedRequest) : Option String :=
  let authHeader := authorization request
  match selector with
  | "scheme" => authHeader.bind (fun h => if h = "" then none else
      let scheme := h.toList.takeWhile (· != ' ')
      some (if scheme = [] then h else String.ofList scheme))
  | "username" => authHeader.bind (fun h =>
      if startsWith (js.toLowerCase h) "basic " then
        (js.atob (sliceFrom h 6)).bind (fun decoded =>
          let username := decoded.toList.takeWhile (· != ':')
          if username = [] then none else some (String.ofList username))
      else none)
  | "tokenClaim" => authHeader.bind (fun h =>
      if startsWith h "Bearer " then some (sliceFrom h 7) else none)
  | "apiKeyName" => apiKeyHeaders.find? (fun h => (request.headers h).isSome)
  | "apiKeyLocation" =>
      if apiKeyHeaders.any (fun h => (request.headers h).isSome) then some "header" else none
  | "certSubject" => request.clientCertSubject
  | _ => none

/-- A selector that is missing or empty selects nothing. -/
def selected (selector : Option String) : Option String := selector.filter (· != "")

def extractValue (js : Js) (p : Predicate) (request : CapturedRequest) (pathParams : Params) :
    Option Value :=
  match p.source with
  | .pathParam => ((selected p.selector).bind (fun s => pathParams.lookup s)).map .one
  | .query => ((selected p.selector).bind request.query).map .many
  | .header => ((selected p.selector).bind (fun s => request.headers (js.toLowerCase s))).map .many
  | .cookie => ((selected p.selector).bind request.cookies).map .one
  | .security => ((selected p.selector).bind (fun s => extractSecurityValue js s request)).map .one
  | .body => request.body.map .one
  | .transport => none

def contentTypeOf (request : CapturedRequest) : Option String :=
  ((request.headers "content-type").bind List.head?).orElse (fun _ => request.contentType)

/-! ## Trees -/

/-- Of a recorded result, what is read again: the evaluator looks for results that were
not evaluated, the selection of a route weighs those that passed. -/
structure PredicateResult where
  operator : Operator
  passed : Bool
  evaluated : Bool
deriving DecidableEq, Repr

def unavailablePredicateOperators : List Operator := []

variable (js : Js) (matchers : Matchers) (request : CapturedRequest) (pathParams : Params)

def evaluateSinglePredicate (p : Predicate) : Bool × List PredicateResult :=
  if p.operator ∈ unavailablePredicateOperators then (false, [⟨p.operator, false, false⟩])
  else
    let passed := evaluateOperator js matchers p.operator (extractValue js p request pathParams)
      p.expected p.options (contentTypeOf request)
    let passed := if negated p.options then !passed else passed
    (passed, [⟨p.operator, passed, true⟩])

def shouldRecordGroupResult (combinator : Combinator) (passed : Bool) : Bool :=
  match combinator with
  | .not => true
  | .any => !passed
  | .all => false
  | .unknown _ => true

/-- The result of a group after those of its children. -/
def record (combinator : Combinator) (passed : Bool) (results : List PredicateResult) :
    Bool × List PredicateResult :=
  (passed, if shouldRecordGroupResult combinator passed then
    results ++ [⟨.present, passed, true⟩] else results)

/-- The result of a group by what its children give, up to the first that fails and up
to the first that passes. -/
def groupResult (every some : Bool × List PredicateResult) : Combinator → Bool × List PredicateResult
  | .all => record .all every.1 every.2
  | .any => record .any some.1 some.2
  | .not =>
      -- a child that could not be evaluated fails the group
      record .not (!some.2.any (fun r => !r.evaluated) && !some.1) some.2
  | .unknown name => record (.unknown name) false []

mutual
def evalChild : Condition → Bool × List PredicateResult
  | .pred p => evaluateSinglePredicate js matchers request pathParams p
  | .group combinator children => groupResult (evalEvery children) (evalSome children) combinator

/-- Up to the first child that fails. -/
def evalEvery : List Condition → Bool × List PredicateResult
  | [] => (true, [])
  | c :: cs =>
      if (evalChild c).1 then ((evalEvery cs).1, (evalChild c).2 ++ (evalEvery cs).2)
      else (false, (evalChild c).2)

/-- Up to the first child that passes. -/
def evalSome : List Condition → Bool × List PredicateResult
  | [] => (false, [])
  | c :: cs =>
      if (evalChild c).1 then (true, (evalChild c).2)
      else ((evalSome cs).1, (evalChild c).2 ++ (evalSome cs).2)
end

def evaluateGroup (g : PredicateGroup) : Bool × List PredicateResult :=
  groupResult (evalEvery js matchers request pathParams g.children)
    (evalSome js matchers request pathParams g.children) g.combinator

def evaluatePredicateGroup (g : PredicateGroup) : Bool :=
  (evaluateGroup js matchers request pathParams g).1

/-! ## Routes -/

/-- `variant.conditions?.children.length` is not zero. -/
def ResponseVariant.hasConditions (v : ResponseVariant) : Bool :=
  (v.conditions.map (fun g => !g.children.isEmpty)).getD false

def ResponseVariant.conditionsHold (v : ResponseVariant) : Bool :=
  (v.conditions.map (evaluatePredicateGroup js matchers request pathParams)).getD false

def routeMatchesViaRulesVariant (route : Route) : Bool :=
  decide (route.responseMode = .rules) && route.responses.any (fun v =>
    v.enabled && !v.isDefault && v.hasConditions && v.conditionsHold js matchers request pathParams)

def Method.text : Method → String
  | .any => "ANY"
  | .get => "GET"
  | .head => "HEAD"
  | .post => "POST"
  | .put => "PUT"
  | .patch => "PATCH"
  | .delete => "DELETE"
  | .options => "OPTIONS"
  | .trace => "TRACE"

def matchMethod (routeMethod : Method) (requestMethod : String) : Bool :=
  decide (routeMethod = .any) || routeMethod.text == js.toUpperCase requestMethod

structure RouteEvaluationResult where
  routeId : String
  priority : ℚ
  enabled : Bool
  methodMatch : Bool
  pathMatch : Bool
  pathParams : Params
  predicateResults : List PredicateResult
  overallMatch : Bool

def evaluateRoute (basePath : String) (route : Route) : RouteEvaluationResult :=
  let methodMatch := matchMethod js route.method request.method
  let pathResult := matchPath js route.path (stripBasePath request.path basePath)
  let params := pathResult.getD []
  let methodAndPath := methodMatch && pathResult.isSome
  let predicates := if methodAndPath then
      evaluateGroup js matchers request params route.predicates
    else (false, [])
  let variantConditionMatch := methodAndPath && !predicates.1 &&
    routeMatchesViaRulesVariant js matchers request params route
  { routeId := route.id, priority := route.priority, enabled := route.enabled, methodMatch,
    pathMatch := pathResult.isSome, pathParams := params, predicateResults := predicates.2,
    overallMatch := route.enabled && methodAndPath && (predicates.1 || variantConditionMatch) }

/-! ## Trees of truth values -/

section Holds

variable (σ : Predicate → Bool)

def combine (every some : Bool) : Combinator → Bool
  | .all => every
  | .any => some
  | .not => !some
  | .unknown _ => false

mutual
/-- What a tree says if each predicate says what `σ` does. -/
def Condition.holds : Condition → Bool
  | .pred p => σ p
  | .group combinator children => combine (holdEvery children) (holdSome children) combinator

def holdEvery : List Condition → Bool
  | [] => true
  | c :: cs => c.holds && holdEvery cs

def holdSome : List Condition → Bool
  | [] => false
  | c :: cs => c.holds || holdSome cs
end

def PredicateGroup.holds (g : PredicateGroup) : Bool :=
  combine (holdEvery σ g.children) (holdSome σ g.children) g.combinator

variable {σ} {cs : List Condition}

theorem holdEvery_iff : holdEvery σ cs = true ↔ ∀ c ∈ cs, c.holds σ = true := by
  induction cs with
  | nil => simp [holdEvery]
  | cons c cs ih => rw [holdEvery, Bool.and_eq_true, ih, List.forall_mem_cons]

theorem holdSome_iff : holdSome σ cs = true ↔ ∃ c ∈ cs, c.holds σ = true := by
  induction cs with
  | nil => simp [holdSome]
  | cons c cs ih =>
      rw [holdSome, Bool.or_eq_true, ih]
      simp only [List.mem_cons, exists_eq_or_imp]

end Holds

section Evaluation

variable {js : Js} {matchers : Matchers} {request : CapturedRequest} {pathParams : Params}

/-- What the single predicates say of a request. -/
def verdict (js : Js) (matchers : Matchers) (request : CapturedRequest) (pathParams : Params)
    (p : Predicate) : Bool :=
  (evaluateSinglePredicate js matchers request pathParams p).1

theorem verdict_eq (p : Predicate) : verdict js matchers request pathParams p =
    Bool.xor (negated p.options) (evaluateOperator js matchers p.operator
      (extractValue js p request pathParams) p.expected p.options (contentTypeOf request)) := by
  have havailable : p.operator ∉ unavailablePredicateOperators := List.not_mem_nil
  unfold verdict evaluateSinglePredicate
  rw [if_neg havailable]
  dsimp only
  cases negated p.options with
  | true => rw [if_pos rfl, Bool.true_xor]
  | false => rw [if_neg Bool.false_ne_true, Bool.false_xor]

theorem evaluated_single (p : Predicate) :
    ∀ r ∈ (evaluateSinglePredicate js matchers request pathParams p).2, r.evaluated = true := by
  have havailable : p.operator ∉ unavailablePredicateOperators := List.not_mem_nil
  intro r hr
  rw [evaluateSinglePredicate, if_neg havailable] at hr
  rw [List.mem_singleton.mp hr]

theorem evaluated_record {combinator : Combinator} {passed : Bool} {results : List PredicateResult}
    (h : ∀ r ∈ results, r.evaluated = true) : ∀ r ∈ (record combinator passed results).2,
    r.evaluated = true := by
  intro r hr
  unfold record at hr
  split at hr
  · rcases List.mem_append.mp hr with hr | hr
    · exact h r hr
    · rw [List.mem_singleton.mp hr]
  · exact h r hr

theorem evaluated_groupResult {every some : Bool × List PredicateResult}
    (hevery : ∀ r ∈ every.2, r.evaluated = true) (hsome : ∀ r ∈ some.2, r.evaluated = true)
    (combinator : Combinator) :
    ∀ r ∈ (groupResult every some combinator).2, r.evaluated = true := by
  cases combinator with
  | all => exact evaluated_record hevery
  | any => exact evaluated_record hsome
  | not => exact evaluated_record hsome
  | unknown name => exact evaluated_record (by simp)

theorem groupResult_fst {every some : Bool × List PredicateResult}
    (hsome : ∀ r ∈ some.2, r.evaluated = true) (combinator : Combinator) :
    (groupResult every some combinator).1 = combine every.1 some.1 combinator := by
  cases combinator with
  | not =>
      have hnone : some.2.any (fun r => !r.evaluated) = false := by
        refine List.any_eq_false.mpr (fun r hr => ?_)
        rw [hsome r hr]
        exact Bool.false_ne_true
      show (!some.2.any (fun r => !r.evaluated) && !some.1) = !some.1
      rw [hnone, Bool.not_false, Bool.true_and]
  | _ => rfl

mutual
/-- Every operator is evaluated, so a tree says what its predicates say. -/
theorem evalChild_spec : ∀ c : Condition,
    (evalChild js matchers request pathParams c).1 = c.holds (verdict js matchers request pathParams) ∧
      ∀ r ∈ (evalChild js matchers request pathParams c).2, r.evaluated = true
  | .pred p => ⟨rfl, evaluated_single p⟩
  | .group combinator children => by
      obtain ⟨hevery, hevery'⟩ := evalEvery_spec children
      obtain ⟨hsome, hsome'⟩ := evalSome_spec children
      rw [evalChild, groupResult_fst hsome', hevery, hsome]
      exact ⟨rfl, evaluated_groupResult hevery' hsome' combinator⟩

theorem evalEvery_spec : ∀ cs : List Condition,
    (evalEvery js matchers request pathParams cs).1 =
      holdEvery (verdict js matchers request pathParams) cs ∧
      ∀ r ∈ (evalEvery js matchers request pathParams cs).2, r.evaluated = true
  | [] => ⟨rfl, by simp [evalEvery]⟩
  | c :: cs => by
      obtain ⟨hc, hc'⟩ := evalChild_spec c
      obtain ⟨hcs, hcs'⟩ := evalEvery_spec cs
      rw [evalEvery, holdEvery, ← hc, ← hcs]
      cases hpass : (evalChild js matchers request pathParams c).1 with
      | true =>
          rw [if_pos rfl]
          refine ⟨rfl, fun r hr => ?_⟩
          rcases List.mem_append.mp hr with hr | hr
          · exact hc' r hr
          · exact hcs' r hr
      | false =>
          rw [if_neg Bool.false_ne_true]
          exact ⟨rfl, hc'⟩

theorem evalSome_spec : ∀ cs : List Condition,
    (evalSome js matchers request pathParams cs).1 =
      holdSome (verdict js matchers request pathParams) cs ∧
      ∀ r ∈ (evalSome js matchers request pathParams cs).2, r.evaluated = true
  | [] => ⟨rfl, by simp [evalSome]⟩
  | c :: cs => by
      obtain ⟨hc, hc'⟩ := evalChild_spec c
      obtain ⟨hcs, hcs'⟩ := evalSome_spec cs
      rw [evalSome, holdSome, ← hc, ← hcs]
      cases hpass : (evalChild js matchers request pathParams c).1 with
      | true =>
          rw [if_pos rfl]
          exact ⟨rfl, hc'⟩
      | false =>
          rw [if_neg Bool.false_ne_true]
          refine ⟨rfl, fun r hr => ?_⟩
          rcases List.mem_append.mp hr with hr | hr
          · exact hc' r hr
          · exact hcs' r hr
end

theorem evaluatePredicateGroup_eq (g : PredicateGroup) :
    evaluatePredicateGroup js matchers request pathParams g =
      g.holds (verdict js matchers request pathParams) := by
  obtain ⟨hevery, -⟩ := @evalEvery_spec js matchers request pathParams g.children
  obtain ⟨hsome, hsome'⟩ := @evalSome_spec js matchers request pathParams g.children
  unfold evaluatePredicateGroup evaluateGroup PredicateGroup.holds
  rw [groupResult_fst hsome', hevery, hsome]

/-- The groups one of which must hold: the tree of the route, and in `rules` mode the
conditions of its variants. -/
def Route.ways (route : Route) : List PredicateGroup :=
  route.predicates :: (if route.responseMode = .rules then
    (route.responses.filter (fun v => v.enabled && !v.isDefault && v.hasConditions)).filterMap
      (·.conditions) else [])

theorem routeMatchesViaRulesVariant_iff {route : Route} :
    routeMatchesViaRulesVariant js matchers request pathParams route = true ↔
      ∃ g ∈ route.ways.tail, evaluatePredicateGroup js matchers request pathParams g = true := by
  unfold routeMatchesViaRulesVariant Route.ways
  rw [List.tail_cons, Bool.and_eq_true, decide_eq_true_eq, List.any_eq_true]
  split
  next hmode =>
    simp only [hmode, true_and, Bool.and_eq_true, List.mem_filterMap, List.mem_filter]
    constructor
    · rintro ⟨v, hv, hshape, hholds⟩
      cases hg : v.conditions with
      | none =>
          rw [ResponseVariant.conditionsHold, hg] at hholds
          cases hholds
      | some g =>
          rw [ResponseVariant.conditionsHold, hg] at hholds
          exact ⟨g, ⟨v, ⟨hv, hshape⟩, hg⟩, hholds⟩
    · rintro ⟨g, ⟨v, ⟨hv, hshape⟩, hg⟩, hholds⟩
      refine ⟨v, hv, hshape, ?_⟩
      rw [ResponseVariant.conditionsHold, hg]
      exact hholds
  next hmode => simp [hmode]

/-- A route matches by its method, its path and one of its ways. -/
theorem evaluateRoute_iff {basePath : String} {route : Route} :
    (evaluateRoute js matchers request basePath route).overallMatch = true ↔
      route.enabled = true ∧ matchMethod js route.method request.method = true ∧
      ∃ params, matchPath js route.path (stripBasePath request.path basePath) = some params ∧
        ∃ g ∈ route.ways, g.holds (verdict js matchers request params) = true := by
  have hways : ∀ params, ((evaluateGroup js matchers request params route.predicates).1 = true ∨
      ((evaluateGroup js matchers request params route.predicates).1 = false ∧
        routeMatchesViaRulesVariant js matchers request params route = true)) ↔
      ∃ g ∈ route.ways, g.holds (verdict js matchers request params) = true := by
    intro params
    have htree : (evaluateGroup js matchers request params route.predicates).1 =
        route.predicates.holds (verdict js matchers request params) :=
      evaluatePredicateGroup_eq route.predicates
    have hsplit : route.ways = route.predicates :: route.ways.tail := rfl
    rw [hsplit, htree, routeMatchesViaRulesVariant_iff]
    simp only [List.mem_cons, exists_eq_or_imp, evaluatePredicateGroup_eq]
    cases route.predicates.holds (verdict js matchers request params) <;> simp
  unfold evaluateRoute
  cases hpath : matchPath js route.path (stripBasePath request.path basePath) with
  | none => simp
  | some params =>
      have hparams := hways params
      cases hmethod : matchMethod js route.method request.method with
      | false => simp
      | true =>
          simp only [Option.isSome_some, Bool.and_true, Bool.true_and, Option.getD_some, if_true,
            Bool.and_eq_true, Bool.or_eq_true, Bool.not_eq_true', true_and, Option.some.injEq,
            exists_eq_left', hparams]

end Evaluation

end RedFireForge.ApiMock
