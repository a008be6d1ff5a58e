/-
# `RedFireForge.ApiMock.ConflictWitness` — the request that a finding shows

The path is that of the exact route, or a pattern with its parameters filled in; the headers are
those that `exact` and `contains` predicates name, as they are written.  There is no query, no
cookie and no body, and a header is read under its name in lower case.
-/
import RedFireForge.ApiMock.ConflictAbsence

namespace RedFireForge.ApiMock

open RedFireForge.Lib

/-! ## The code -/

/-- `replace(/:[^/]+/g, '42')`; `skipping` is true in a name. -/
def fillColons (skipping : Bool) : List Char → List Char
  | [] => []
  | c :: cs =>
      if skipping && c != '/' then fillColons true cs
      else if c = ':' ∧ cs.head?.any (· != '/') then '4' :: '2' :: fillColons true cs
      else c :: fillColons false cs

/-- `replace(/\{[^}]+\}/g, '42')`; `skipping` is true in braces. -/
def fillBraces (skipping : Bool) : List Char → List Char
  | [] => []
  | c :: cs =>
      if skipping then fillBraces (c != '}') cs
      else if c = '{' ∧ cs.head? ≠ some '}' ∧ '}' ∈ cs then '4' :: '2' :: fillBraces true cs
      else c :: fillBraces false cs

/-- `s || t` -/
def orElse (s t : String) : String := if s = "" then t else s

def pickWitnessPath (a b : Route) : String :=
  if a.path.kind = .exact then orElse a.path.value "/"
  else if b.path.kind = .exact then orElse b.path.value "/"
  else
    let pattern := orElse a.path.value (orElse b.path.value "/")
    orElse (String.ofList (fillBraces false (fillColons false pattern.toList))) "/"

/-- A predicate whose header is written into the request. -/
def namesHeader (p : Predicate) : Bool :=
  decide (p.source = .header) && (selected p.selector).isSome &&
    (decide (p.operator = .exact) || decide (p.operator = .contains))

/-- `String(p.expected ?? 'value')` -/
def headerSample (p : Predicate) : String :=
  match p.expected with
  | none | some .null => "value"
  | expected => stringOf expected

/-- The last predicate that names a header gives it its value. -/
def witnessHeaders (a b : Route) (name : String) : Option (List String) :=
  (((flattenPredicates a.predicates ++ flattenPredicates b.predicates).filter namesHeader).reverse.find? fun p =>
    p.selector == some name).map fun p => [headerSample p]

def buildWitnessRequest (a b : Route) : CapturedRequest where
  method := if a.method ≠ .any then a.method.text else if b.method ≠ .any then b.method.text else "GET"
  path := pickWitnessPath a b
  query := fun _ => none
  headers := witnessHeaders a b
  cookies := fun _ => none
  body := none
  contentType := none
  clientCertSubject := none

def ConflictFinding.witnessRequest (f : ConflictFinding) : CapturedRequest := buildWitnessRequest f.left f.right

/-! ## What the predicates see -/

/-- Only captures of the path and headers that are named in lower case have a value. -/
def sampleValue (js : Js) (headers : String → Option (List String)) (params : Params) (p : Predicate) : Option Value :=
  match p.source with
  | .pathParam => ((selected p.selector).bind (fun s => params.lookup s)).map .one
  | .header => ((selected p.selector).bind (fun s => headers (js.toLowerCase s))).map .many
  | .security => ((selected p.selector).bind fun s =>
      extractSecurityValue js s ⟨"", "", fun _ => none, headers, fun _ => none, none, none, none⟩).map .one
  | _ => none

/-- The path is matched, and one of the ways of the route holds of these values. -/
def Served (js : Js) (matchers : Matchers) (path : String) (headers : String → Option (List String)) (route : Route) : Prop :=
  ∃ params, matchPath js route.path path = some params ∧
    ∃ g ∈ route.ways, g.holds (fun p =>
      passes js matchers ((headers "content-type").bind List.head?) (sampleValue js headers params p) p) = true

section Witness

variable {js : Js} {matchers : Matchers} {a b : Route} {f : ConflictFinding} {routes : List Route} {serverId : String}

theorem extractSecurityValue_witness (s : String) : extractSecurityValue js s (buildWitnessRequest a b) =
    extractSecurityValue js s ⟨"", "", fun _ => none, witnessHeaders a b, fun _ => none, none, none, none⟩ := by
  unfold extractSecurityValue
  rfl

theorem extractValue_witness (params : Params) (p : Predicate) :
    extractValue js p (buildWitnessRequest a b) params = sampleValue js (witnessHeaders a b) params p := by
  have hnone : ∀ s : Option String, (s.bind fun _ => (none : Option (List String))) = none := by
    intro s
    cases s <;> rfl
  have hnone' : ∀ s : Option String, (s.bind fun _ => (none : Option String)) = none := by
    intro s
    cases s <;> rfl
  rw [extractValue, sampleValue]
  cases p.source with
  | query => exact congrArg (Option.map Value.many) (hnone _)
  | cookie => exact congrArg (Option.map Value.one) (hnone' _)
  | security => simp only [extractSecurityValue_witness]
  | _ => rfl

theorem contentTypeOf_witness : contentTypeOf (buildWitnessRequest a b) =
    (witnessHeaders a b "content-type").bind List.head? := by
  show ((witnessHeaders a b "content-type").bind List.head?).orElse (fun _ => none) = _
  cases (witnessHeaders a b "content-type").bind List.head? <;> rfl

/-- The routes of a reported pair have a method in common. -/
theorem methods_of_pair (h : analyzeRoutePair js serverId a b = some f) :
    a.method = .any ∨ b.method = .any ∨ a.method = b.method := by
  by_contra hnone
  have hdisjoint : (analyzeMethodDimension a b).result = .disjoint := by rw [analyzeMethodDimension, if_neg hnone]
  have hdup : isDuplicate a b ≠ true := fun hdup => hnone (.inr (.inr (isDuplicate_iff hdup).1))
  have hany : (analyzeDimensions js a b).any (fun d => d.result == .disjoint) = true := by
    rw [analyzeDimensions, List.any_cons, hdisjoint]
    rfl
  simp [analyzeRoutePair, hdup, hany] at h

theorem methods_of_finding (h : f ∈ analyzeConflicts js routes serverId) :
    f.left.method = .any ∨ f.right.method = .any ∨ f.left.method = f.right.method := by
  obtain ⟨a, -, b, -, hf⟩ := mem_analyzePairs h
  have hmethods := methods_of_pair hf
  obtain ⟨⟨hl, hr⟩ | ⟨hl, hr⟩, -⟩ := analyzeRoutePair_cases hf
  · rwa [hl, hr]
  · rw [hl, hr]
    rcases hmethods with h | h | h
    · exact .inr (.inl h)
    · exact .inl h
    · exact .inr (.inr h.symm)

theorem matchMethod_witness (hupper : ∀ m : Method, js.toUpperCase m.text = m.text)
    (h : a.method = .any ∨ b.method = .any ∨ a.method = b.method) :
    matchMethod js a.method (buildWitnessRequest a b).method = true ∧
      matchMethod js b.method (buildWitnessRequest a b).method = true := by
  have hself : ∀ m : Method, matchMethod js m m.text = true := by
    intro m
    rw [matchMethod, hupper, beq_self_eq_true, Bool.or_true]
  have hany : ∀ method, matchMethod js .any method = true := fun method => rfl
  by_cases ha : a.method = .any
  · rw [ha]
    refine ⟨hany _, ?_⟩
    by_cases hb : b.method = .any
    · rw [hb]
      exact hany _
    · have hmethod : (buildWitnessRequest a b).method = b.method.text := by
        simp [buildWitnessRequest, ha, hb]
      rw [hmethod]
      exact hself _
  · have hmethod : (buildWitnessRequest a b).method = a.method.text := by
      simp [buildWitnessRequest, ha]
    rw [hmethod]
    refine ⟨hself _, ?_⟩
    rcases h with h | h | h
    · exact absurd h ha
    · rw [h]
      exact hany _
    · rw [h]
      exact hself _

/-- Besides its method a route is served by the path and the headers. -/
theorem evaluateRoute_witness {route : Route} (henabled : route.enabled = true)
    (hmethod : matchMethod js route.method (buildWitnessRequest a b).method = true) :
    (evaluateRoute js matchers (buildWitnessRequest a b) "" route).overallMatch = true ↔
      Served js matchers (pickWitnessPath a b) (witnessHeaders a b) route := by
  have hverdict : ∀ params, verdict js matchers (buildWitnessRequest a b) params = fun p =>
      passes js matchers ((witnessHeaders a b "content-type").bind List.head?)
        (sampleValue js (witnessHeaders a b) params p) p := by
    intro params
    funext p
    rw [verdict_passes, extractValue_witness, contentTypeOf_witness]
  rw [evaluateRoute_iff, and_iff_right henabled, and_iff_right hmethod, Served]
  refine exists_congr fun params => and_congr_right fun _ => exists_congr fun g => and_congr_right fun _ => ?_
  rw [hverdict]

end Witness

/-- The finding of two routes that are the same but for their identifiers. -/
def twins (a b : Route) : ConflictFinding :=
  makeFinding a b "s" .duplicate .error
    [{ source := .method, result := .overlap, explanation := "Both use " ++ a.method.text },
      { source := .path, result := .overlap, explanation := "Both match " ++ a.path.value }]

theorem twins_reported {a b : Route} (ha : a.enabled = true) (hb : b.enabled = true) (h : isDuplicate a b = true) :
    twins a b ∈ analyzeConflicts asciiJs [a, b] "s" := by
  have hpair : analyzeRoutePair asciiJs "s" a b = some (twins a b) := by
    rw [analyzeRoutePair, if_pos h]
    rfl
  have henabled : [a, b].filter (·.enabled) = [a, b] := by simp [ha, hb]
  rw [analyzeConflicts, henabled]
  exact mem_analyzePairs_of_sublist (List.Sublist.refl _) hpair

def goldPlan (id : String) : Route := planRoute id "/plan" 10 none (headerIs "x-plan" "gold")

/-- Who asks for a plan by a parameter of the query. -/
def queriedPlan (id : String) : Route :=
  planRoute id "/plan" 10 none ⟨.all, [.pred ⟨.query, some "plan", .exact, some (.str "gold"), none⟩]⟩

end RedFireForge.ApiMock
