/-
# `RedFireForge.ApiMock.ConflictAnalyzer` — conflicts between routes, found without requests

`analyzeConflicts` compares the routes in pairs.  It looks at methods, at paths and at
the first predicates of one source and selector, and calls a pair disjoint if one of
these is.  What is not disjoint is reported: as a duplicate, as shadowed by a route of a
higher priority, or as an overlap.

The trees of the two routes are flattened for this, and the routes are taken to match
by their trees alone.  What the report says of requests holds where these shortcuts do.
-/
import RedFireForge.ApiMock.RouteSelector

namespace RedFireForge.ApiMock

open RedFireForge.Lib

/-! ## Findings -/

inductive Dimension
  | method | path
  | pred (source : Source)
deriving DecidableEq, Repr

inductive DimKind
  | overlap | disjoint | unknown
deriving DecidableEq, Repr

structure DimResult where
  source : Dimension
  selector : Option String := none
  result : DimKind
  explanation : String
deriving DecidableEq, Repr

inductive ConflictKind
  | definite_overlap | potential_overlap | duplicate | shadowed
deriving DecidableEq, Repr

inductive Severity
  | error | warning | info
deriving DecidableEq, Repr

inductive SelectionOutcome
  | reject_ambiguous | left_wins | right_wins
deriving DecidableEq, Repr

/-- The rules of a finding stand for their identifiers. -/
structure ConflictFinding where
  id : String
  serverId : String
  left : Route
  right : Route
  kind : ConflictKind
  severity : Severity
  dimensions : List DimResult
  selectionOutcome : SelectionOutcome

/-! ## Trees -/

mutual
def flattenCondition : Condition → List Predicate
  | .pred p => [p]
  | .group _ children => flattenChildren children

def flattenChildren : List Condition → List Predicate
  | [] => []
  | c :: cs => flattenCondition c ++ flattenChildren cs
end

def flattenPredicates (g : PredicateGroup) : List Predicate := flattenChildren g.children

/-- `JSON.stringify(x) === JSON.stringify(y)` -/
def sameJson (x y : Option Json) : Bool := decide (x.map Json.stringify = y.map Json.stringify)

def predicatesEqual (a b : Predicate) : Bool :=
  decide (a.source = b.source) && decide (a.selector = b.selector) &&
    decide (a.operator = b.operator) && sameJson a.expected b.expected && sameJson a.options b.options

mutual
def conditionsEqual : Condition → Condition → Bool
  | .group c cs, .group d ds => decide (c = d) && childrenEqual cs ds
  | .pred p, .pred q => predicatesEqual p q
  | _, _ => false

def childrenEqual : List Condition → List Condition → Bool
  | [], [] => true
  | c :: cs, d :: ds => conditionsEqual c d && childrenEqual cs ds
  | _, _ => false
end

def predicateTreesEqual (a b : PredicateGroup) : Bool :=
  decide (a.combinator = b.combinator) && childrenEqual a.children b.children

def isDuplicate (a b : Route) : Bool :=
  decide (a.method = b.method) && decide (a.path.kind = b.path.kind) &&
    decide (a.path.value = b.path.value) && decide (a.priority = b.priority) &&
    predicateTreesEqual a.predicates b.predicates

def isSuperset (a b : PredicateGroup) : Bool :=
  a.children.isEmpty ||
    (flattenPredicates b).all (fun bp => (flattenPredicates a).any (fun ap => predicatesEqual ap bp))

/-! ## Dimensions -/

def analyzeMethodDimension (a b : Route) : DimResult :=
  if a.method = .any ∨ b.method = .any ∨ a.method = b.method then
    { source := .method, result := .overlap,
      explanation := "Both match " ++
        (if a.method = b.method then a.method.text else "overlapping methods") }
  else
    { source := .method, result := .disjoint,
      explanation := a.method.text ++ " vs " ++ b.method.text }

/-- The literal is run through the matcher of the other path. -/
def analyzeLiteral (js : Js) (pattern literal : PathMatcher) (does doesNot : String) : DimResult :=
  if (matchPath js pattern literal.value).isSome then
    { source := .path, result := .overlap,
      explanation := pattern.value ++ " " ++ does ++ " " ++ literal.value }
  else
    { source := .path, result := .disjoint,
      explanation := pattern.value ++ " " ++ doesNot ++ " " ++ literal.value }

def analyzeRegexLiteral (js : Js) (regex exact : PathMatcher) : DimResult :=
  match js.regexp regex.value "" with
  | some test =>
      if test exact.value then
        { source := .path, result := .overlap, explanation := "Regex matches " ++ exact.value }
      else
        { source := .path, result := .disjoint, explanation := "Regex does not match " ++ exact.value }
  | none => { source := .path, result := .unknown, explanation := "Invalid regex" }

/-- The first place where two literal segments differ. -/
def literalDifference : List String → List String → Option (String × String)
  | ap :: as, bp :: bs =>
      if !isParam ap && !isParam bp && ap != bp then some (ap, bp) else literalDifference as bs
  | _, _ => none

def analyzeTemplates (a b : PathMatcher) : DimResult :=
  if (splitPath a.value).length ≠ (splitPath b.value).length then
    { source := .path, result := .disjoint, explanation := "Different segment count" }
  else
    match literalDifference (splitPath a.value) (splitPath b.value) with
    | some (ap, bp) =>
        { source := .path, result := .disjoint,
          explanation := "Literal segments differ: " ++ ap ++ " vs " ++ bp }
    | none =>
        { source := .path, result := .overlap, explanation := "Compatible parameterized paths" }

def analyzePathDimension (js : Js) (a b : Route) : DimResult :=
  match a.path.kind, b.path.kind with
  | .exact, .exact =>
      if a.path.value = b.path.value then
        { source := .path, result := .overlap, explanation := "Both match " ++ a.path.value }
      else
        { source := .path, result := .disjoint, explanation := a.path.value ++ " vs " ++ b.path.value }
  | .parameterized, .exact => analyzeLiteral js a.path b.path "captures" "does not capture"
  | .exact, .parameterized => analyzeLiteral js b.path a.path "captures" "does not capture"
  | .glob, .exact => analyzeLiteral js a.path b.path "matches" "does not match"
  | .exact, .glob => analyzeLiteral js b.path a.path "matches" "does not match"
  | .regex, .exact => analyzeRegexLiteral js a.path b.path
  | .exact, .regex => analyzeRegexLiteral js b.path a.path
  | .regex, _ | _, .regex =>
      { source := .path, result := .unknown, explanation := "Regex intersection is undecidable" }
  | .parameterized, .parameterized => analyzeTemplates a.path b.path
  | _, _ =>
      { source := .path, result := .unknown,
        explanation := "Path intersection cannot be determined statically" }

def Source.text : Source → String
  | .pathParam => "pathParam"
  | .query => "query"
  | .header => "header"
  | .cookie => "cookie"
  | .security => "security"
  | .body => "body"
  | .transport => "transport"

def Operator.text : Operator → String
  | .exact => "exact"
  | .contains => "contains"
  | .prefix_ => "prefix"
  | .suffix => "suffix"
  | .regex => "regex"
  | .glob => "glob"
  | .present => "present"
  | .absent => "absent"
  | .jsonPath_exists => "jsonPath_exists"
  | .jsonPath_equals => "jsonPath_equals"
  | .jsonSchema => "jsonSchema"
  | .json_strict => "json_strict"
  | .json_subset => "json_subset"
  | .xpath_exists => "xpath_exists"
  | .xpath_equals => "xpath_equals"
  | .xmlSchema => "xmlSchema"
  | .form_field_exact => "form_field_exact"
  | .form_field_regex => "form_field_regex"
  | .form_field_present => "form_field_present"
  | .multipart_field => "multipart_field"
  | .multipart_file => "multipart_file"
  | .binary_exact => "binary_exact"
  | .binary_sha256 => "binary_sha256"

def involvesSchemasOrPaths (op : Operator) : Bool :=
  op ∈ [.jsonPath_exists, .jsonPath_equals, .jsonSchema, .xpath_exists, .xpath_equals, .xmlSchema]

def predicateLabel (p : Predicate) : String :=
  match selected p.selector with
  | some sel => p.source.text ++ " \"" ++ sel ++ "\""
  | none => p.source.text

/-- A result about the source and selector of `a`. -/
def pairResult (a : Predicate) (result : DimKind) (explanation : String) : DimResult :=
  { source := .pred a.source, selector := a.selector, result,
    explanation := predicateLabel a ++ ": " ++ explanation }

def analyzeContains (a exact sub : Predicate) : DimResult :=
  if includes (stringOf exact.expected) (stringOf sub.expected) then
    pairResult a .overlap "exact contains substring"
  else pairResult a .disjoint "exact does not contain substring"

def analyzeRegex (js : Js) (a regex exact : Predicate) : DimResult :=
  match js.regexp (stringOf regex.expected) "" with
  | some test =>
      if test (stringOf exact.expected) then pairResult a .overlap "regex matches exact"
      else pairResult a .disjoint "regex does not match exact"
  | none => pairResult a .unknown "invalid regex"

def analyzePredicatePairDimension (js : Js) (a b : Predicate) : DimResult :=
  if a.operator = .present ∧ b.operator = .absent then pairResult a .disjoint "present vs absent"
  else if a.operator = .absent ∧ b.operator = .present then pairResult a .disjoint "absent vs present"
  else if a.operator = .present ∨ b.operator = .present then
    pairResult a .overlap "present implies overlap"
  else if a.operator = .absent ∧ b.operator = .absent then pairResult a .overlap "both absent"
  else if negated a.options ∧ ¬ negated b.options ∧ a.operator = .exact ∧ b.operator = .exact ∧
      sameJson a.expected b.expected then
    pairResult a .disjoint "negated exact vs same exact"
  else if a.operator = .exact ∧ b.operator = .exact then
    if sameJson a.expected b.expected then pairResult a .overlap "identical exact values"
    else pairResult a .disjoint "different exact values"
  else if a.operator = .exact ∧ b.operator = .contains then analyzeContains a a b
  else if a.operator = .contains ∧ b.operator = .exact then analyzeContains a b a
  else if a.operator = .regex ∧ b.operator = .exact then analyzeRegex js a a b
  else if a.operator = .exact ∧ b.operator = .regex then analyzeRegex js a b a
  else if a.operator = .regex ∧ b.operator = .regex then
    pairResult a .unknown "regex intersection undecidable"
  else if involvesSchemasOrPaths a.operator ∨ involvesSchemasOrPaths b.operator then
    pairResult a .unknown "schema/path intersection undecidable"
  else pairResult a .unknown "cannot determine overlap"

def oneSided (p : Predicate) (has other : String) : DimResult :=
  { source := .pred p.source, selector := p.selector, result := .unknown,
    explanation := has ++ " has " ++ p.operator.text ++
      ((selected p.selector).map (fun sel => " on " ++ sel)).getD "" ++
      (match p.expected with
        | none => ""
        | some .null => ""
        | expected => " " ++ stringOf expected) ++
      "; " ++ other ++ " has none" }

def keyOf (p : Predicate) : Source × String := (p.source, p.selector.getD "")

/-- The predicates of the left route; only the first of a key is looked at. -/
def leftDimensions (js : Js) (bPreds : List Predicate) :
    List Predicate → List (Source × String) → List DimResult
  | [], _ => []
  | ap :: aPreds, seen =>
      if keyOf ap ∈ seen then leftDimensions js bPreds aPreds seen
      else
        (match bPreds.find? (fun p =>
            decide (p.source = ap.source) && decide (p.selector = ap.selector)) with
          | some bp => analyzePredicatePairDimension js ap bp
          | none => oneSided ap "Left" "right") ::
          leftDimensions js bPreds aPreds (keyOf ap :: seen)

def rightDimensions : List Predicate → List (Source × String) → List DimResult
  | [], _ => []
  | bp :: bPreds, seen =>
      if keyOf bp ∈ seen then rightDimensions bPreds seen
      else oneSided bp "Right" "left" :: rightDimensions bPreds (keyOf bp :: seen)

def analyzeDimensions (js : Js) (a b : Route) : List DimResult :=
  let aPreds := flattenPredicates a.predicates
  let bPreds := flattenPredicates b.predicates
  analyzeMethodDimension a b :: analyzePathDimension js a b ::
    (leftDimensions js bPreds aPreds [] ++ rightDimensions bPreds (aPreds.map keyOf))

/-! ## Pairs -/

def resolveSelectionOutcome (a b : Route) : SelectionOutcome :=
  if a.priority > b.priority then .left_wins
  else if b.priority > a.priority then .right_wins
  else .reject_ambiguous

def makeFinding (a b : Route) (serverId : String) (kind : ConflictKind) (severity : Severity)
    (dimensions : List DimResult) : ConflictFinding :=
  { id := "conflict-" ++ a.id ++ "-" ++ b.id, serverId, left := a, right := b, kind, severity,
    dimensions, selectionOutcome := resolveSelectionOutcome a b }

def analyzeRoutePair (js : Js) (serverId : String) (a b : Route) : Option ConflictFinding :=
  if isDuplicate a b then
    some (makeFinding a b serverId .duplicate .error
      [{ source := .method, result := .overlap, explanation := "Both use " ++ a.method.text },
        { source := .path, result := .overlap, explanation := "Both match " ++ a.path.value }])
  else
    let dims := analyzeDimensions js a b
    if dims.any (fun d => d.result == .disjoint) then none
    else
      let kind := if dims.any (fun d => d.result == .unknown) then ConflictKind.potential_overlap
        else .definite_overlap
      if a.priority > b.priority ∧ isSuperset a.predicates b.predicates then
        some (makeFinding a b serverId .shadowed .warning dims)
      else if b.priority > a.priority ∧ isSuperset b.predicates a.predicates then
        some (makeFinding b a serverId .shadowed .warning dims)
      else
        some (makeFinding a b serverId kind (if kind = .definite_overlap then .warning else .info) dims)

/-- Each route with those after it. -/
def analyzePairs (js : Js) (serverId : String) : List Route → List ConflictFinding
  | [] => []
  | a :: routes => routes.filterMap (analyzeRoutePair js serverId a) ++ analyzePairs js serverId routes

def analyzeConflicts (js : Js) (routes : List Route) (serverId : String) : List ConflictFinding :=
  analyzePairs js serverId (routes.filter (·.enabled))

end RedFireForge.ApiMock
