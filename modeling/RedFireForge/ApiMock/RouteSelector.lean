/-
# `RedFireForge.ApiMock.RouteSelector` — which of the matching routes is selected

Of the routes that match, those of the highest priority remain; between several of
them the more specific one is selected, or none.
-/
import RedFireForge.ApiMock.PredicateEvaluator

namespace RedFireForge.ApiMock

inductive MultipleMatchPolicy
  | highest_priority | reject_multiple
deriving DecidableEq, Repr

inductive EqualPriorityPolicy
  | specificity_then_id | reject
deriving DecidableEq, Repr

structure SelectionSettings where
  multipleMatchPolicy : MultipleMatchPolicy
  equalPriorityPolicy : EqualPriorityPolicy
deriving DecidableEq, Repr

/-- The outcome of a selection; `matched` with the route that won. -/
inductive Selection
  | unmatched
  | ambiguous
  | matched (winner : RouteEvaluationResult)

def operatorSpecificityWeight : Operator → ℕ
  | .exact => 8
  | .contains => 5
  | .prefix_ => 5
  | .suffix => 5
  | .present => 2
  | .absent => 2
  | .regex => 3
  | .glob => 3
  | .json_strict => 10
  | .json_subset => 7
  | .jsonPath_exists => 6
  | .jsonPath_equals => 6
  | _ => 1

def pathWeight : PathMatcherKind → ℕ
  | .exact => 50
  | .parameterized => 30
  | .glob => 15
  | .regex => 10

/-- By identifier; of several routes with one identifier the last. -/
def routeOf (routes : List Route) (id : String) : Option Route := routes.reverse.find? (·.id == id)

def computeSpecificityFromRoute (route : Route) (e : RouteEvaluationResult) : ℕ :=
  (if route.method = .any then 1 else 10) + pathWeight route.path.kind +
    ((e.predicateResults.filter (·.passed)).map (fun r => operatorSpecificityWeight r.operator)).sum

def computeSpecificity (routes : List Route) (e : RouteEvaluationResult) : ℕ :=
  ((routeOf routes e.routeId).map (fun route => computeSpecificityFromRoute route e)).getD 0

/-- `a` stands before `b`, or they are equal: first the more specific, then by identifier. -/
def ranksBefore (js : Js) (routes : List Route) (a b : RouteEvaluationResult) : Bool :=
  if computeSpecificity routes a = computeSpecificity routes b then
    decide (js.localeCompare a.routeId b.routeId ≤ 0)
  else decide (computeSpecificity routes a > computeSpecificity routes b)

/-- The results of the highest priority. -/
def atHighest (found : List RouteEvaluationResult) : List RouteEvaluationResult :=
  found.filter (fun e => found.all (fun f => decide (f.priority ≤ e.priority)))

def selectRoute (js : Js) (matchers : Matchers) (routes : List Route) (request : CapturedRequest)
    (settings : SelectionSettings) (basePath : String) : Selection :=
  let found := (routes.map (evaluateRoute js matchers request basePath)).filter (·.overallMatch)
  if found.length > 1 ∧ settings.multipleMatchPolicy = .reject_multiple then .ambiguous
  else
    let highest := atHighest found
    if highest.length > 1 ∧ settings.equalPriorityPolicy = .reject then .ambiguous
    else
      match highest.mergeSort (ranksBefore js routes) with
      | [] => .unmatched
      | winner :: _ => .matched winner

section Winner

variable {js : Js} {matchers : Matchers} {routes : List Route} {request : CapturedRequest}
  {settings : SelectionSettings} {basePath : String} {winner : RouteEvaluationResult}

theorem selectRoute_winner
    (h : selectRoute js matchers routes request settings basePath = .matched winner) :
    winner ∈ atHighest
      ((routes.map (evaluateRoute js matchers request basePath)).filter (·.overallMatch)) := by
  unfold selectRoute at h
  dsimp only at h
  split at h
  next => cases h
  next =>
    split at h
    next => cases h
    next =>
      split at h
      next => cases h
      next first rest hsort =>
        cases h
        have hmem : winner ∈ winner :: rest := List.mem_cons_self
        rwa [← hsort, List.mem_mergeSort] at hmem

theorem selectRoute_matches
    (h : selectRoute js matchers routes request settings basePath = .matched winner) :
    winner.overallMatch = true :=
  (List.mem_filter.mp (List.mem_filter.mp (selectRoute_winner h)).1).2

/-- No route of a higher priority matches. -/
theorem selectRoute_highest
    (h : selectRoute js matchers routes request settings basePath = .matched winner) {route : Route}
    (hroute : route ∈ routes)
    (hmatch : (evaluateRoute js matchers request basePath route).overallMatch = true) :
    route.priority ≤ winner.priority := by
  have hall := (List.mem_filter.mp (selectRoute_winner h)).2
  have hfound : evaluateRoute js matchers request basePath route ∈
      (routes.map (evaluateRoute js matchers request basePath)).filter (·.overallMatch) :=
    List.mem_filter.mpr ⟨List.mem_map_of_mem hroute, hmatch⟩
  exact of_decide_eq_true (List.all_eq_true.mp hall _ hfound)

/-- The only route that matches is selected, whatever the settings. -/
theorem selectRoute_only (h : (routes.map (evaluateRoute js matchers request basePath)).filter
    (·.overallMatch) = [winner]) :
    selectRoute js matchers routes request settings basePath = .matched winner := by
  have hhighest : atHighest [winner] = [winner] := by
    unfold atHighest
    rw [List.filter_eq_self]
    intro e he
    rw [List.mem_singleton.mp he, List.all_eq_true]
    intro f hf
    rw [List.mem_singleton.mp hf]
    exact decide_eq_true le_rfl
  unfold selectRoute
  dsimp only
  rw [h, hhighest, if_neg (fun h => absurd h.1 (by simp)), if_neg (fun h => absurd h.1 (by simp)),
    List.mergeSort_singleton]

end Winner

end RedFireForge.ApiMock
