/-
# `RedFireForge.ApiMock.NativeSelector` — the native engine selects a route

The same contracts, read by a second evaluator.  It takes a path matcher as it is declared,
looks at each value of a header or a query key by itself, and records no results of groups.
-/
import Mathlib.Data.List.DropRight
import RedFireForge.ApiMock.RouteSelector

namespace RedFireForge.ApiMock

open RedFireForge.Lib

/-- What the libraries of the native engine bring: regular expressions, with whether case is
ignored; Base64, decoded to a text; and the operators that read the structure of one value. -/
structure NativeLib where
  regex : String → Bool → Option (String → Bool)
  base64 : String → Option String
  matchers : Operator → Option String → Option Json → Option Json → Option String → Bool

namespace Native

/-! ## Text -/

def toAsciiLowercase (s : String) : String := String.ofList (s.toList.map Char.toLower)

def eqIgnoreAsciiCase (s t : String) : Bool := toAsciiLowercase s == toAsciiLowercase t

def sameText (s t : String) (ci : Bool) : Bool := if ci then eqIgnoreAsciiCase s t else s == t

/-- `char::is_whitespace` -/
def isWhitespace (ch : Char) : Bool :=
  ch.toNat ∈ [9, 10, 11, 12, 13, 32, 0x85, 0xA0, 0x1680, 0x2028, 0x2029, 0x202F, 0x205F, 0x3000] ||
    decide (0x2000 ≤ ch.toNat ∧ ch.toNat ≤ 0x200A)

def trimWhitespace (cs : List Char) : List Char :=
  (cs.dropWhile isWhitespace).rdropWhile isWhitespace

def isMatch (lib : NativeLib) (source : String) (ci : Bool) (text : String) : Bool :=
  match lib.regex source ci with
  | some test => test text
  | none => false

/-! ## Paths -/

def stripBasePath (path basePath : String) : String :=
  if basePath = "" then path
  else if startsWith path basePath then
    let rest := sliceFrom path basePath.length
    if rest = "" then "/" else rest
  else path

/-- The loop over the parts of a pattern and those of a path. -/
def matchZipped (ci : Bool) : List (String × String) → Params → Option Params
  | [], params => some params
  | (pp, rp) :: parts, params =>
      if startsWith pp ":" || (startsWith pp "\x7b" && endsWith pp "\x7d") then
        let name :=
          if startsWith pp ":" then sliceFrom pp 1 else String.ofList (pp.toList.drop 1).dropLast
        matchZipped ci parts (if name = "" then params else (name, rp) :: params)
      else if sameText pp rp ci then matchZipped ci parts params
      else none

def matchParameterized (pattern path : String) (ci : Bool) : Option Params :=
  let patternParts := splitPath pattern
  let pathParts := splitPath path
  if patternParts.length ≠ pathParts.length then none
  else matchZipped ci (patternParts.zip pathParts) []

/-- The regular expression of a glob, from a position on. -/
def globRegex : List Char → List Char
  | [] => []
  | '*' :: '*' :: '/' :: cs => ['.', '*'] ++ globRegex cs
  | '*' :: '*' :: cs => ['.', '*'] ++ globRegex cs
  | '*' :: cs => ['[', '^', '/', ']', '*'] ++ globRegex cs
  | '?' :: cs => ['[', '^', '/', ']'] ++ globRegex cs
  | c :: cs => (if ".+*?^$\x7b\x7d()|[]\\".toList.contains c then ['\\', c] else [c]) ++ globRegex cs

def globToRegex (glob : String) : String := String.ofList ('^' :: (globRegex glob.toList ++ ['$']))

def matchPath (lib : NativeLib) (matcher : PathMatcher) (path : String) : Option Params :=
  let ci := matcher.caseInsensitive.getD false
  match matcher.kind with
  | .exact => if sameText matcher.value path ci then some [] else none
  | .parameterized => matchParameterized matcher.value path ci
  | .glob => if isMatch lib (globToRegex matcher.value) ci path then some [] else none
  | .regex => if isMatch lib matcher.value ci path then some [] else none

/-! ## Operators -/

/-- `options.case_sensitive` is false. -/
def ignoresCase (options : Option Json) : Bool :=
  match field "caseSensitive" options with
  | some (.bool b) => !b
  | _ => false

def negated (options : Option Json) : Bool :=
  match field "negate" options with
  | some (.bool b) => b
  | _ => false

def trimQuotes (cs : List Char) : List Char := (cs.dropWhile (· == '"')).rdropWhile (· == '"')

/-- A `null` is read as no value. -/
def expectedStr : Option Json → String
  | none => ""
  | some .null => ""
  | some (.str s) => s
  | some j => String.ofList (trimQuotes j.render)

/-- The glob of a predicate, in which a star goes across slashes. -/
def predicateGlob (glob : String) : String :=
  String.ofList ('^' :: (glob.toList.flatMap (fun c =>
    if c = '*' then ['.', '*'] else if c = '?' then ['.']
    else if ".+*^$\x7b\x7d()|[]\\".toList.contains c then ['\\', c] else [c]) ++ ['$']))

def evaluateOperator (lib : NativeLib) (operator : Operator) (value : Option String)
    (expected options : Option Json) (contentType : Option String) : Bool :=
  let ci := ignoresCase options
  match operator with
  | .present => value.any (· != "")
  | .absent => value.all (· == "")
  | .exact => value.any fun v => sameText v (expectedStr expected) ci
  | .contains => value.any fun v => includes v (expectedStr expected)
  | .prefix_ => value.any fun v => startsWith v (expectedStr expected)
  | .suffix => value.any fun v => endsWith v (expectedStr expected)
  | .regex => value.any fun v => isMatch lib (expectedStr expected) ci v
  | .glob => value.any fun v => isMatch lib (predicateGlob (expectedStr expected)) ci v
  | .binary_exact => value.any (· == expectedStr expected)
  | op => lib.matchers op value expected options contentType

/-! ## Values -/

def extractSecurity (lib : NativeLib) (selector : Option String) (request : CapturedRequest) :
    Option String :=
  let auth := authorization request
  match selector.getD "" with
  | "scheme" => auth.map fun h => String.ofList (h.toList.takeWhile (· != ' '))
  | "username" => auth.bind fun h =>
      if startsWith (toAsciiLowercase h) "basic " then
        (lib.base64 (sliceFrom h 6)).bind fun text =>
          let user := text.toList.takeWhile (· != ':')
          if user = [] then none else some (String.ofList user)
      else none
  | "tokenClaim" => (auth.filter (startsWith · "Bearer ")).map (sliceFrom · 7)
  | "apiKeyName" => apiKeyHeaders.find? (fun h => (request.headers h).isSome)
  | "apiKeyLocation" =>
      if apiKeyHeaders.any (fun h => (request.headers h).isSome) then some "header" else none
  | "certSubject" => request.clientCertSubject
  | _ => none

/-- Of the sources with one value at most. -/
def extractValue (lib : NativeLib) (p : Predicate) (request : CapturedRequest) (pathParams : Params) :
    Option String :=
  match p.source with
  | .pathParam => p.selector.bind fun s => pathParams.lookup s
  | .query => p.selector.bind fun s => (request.query s).bind List.head?
  | .header => p.selector.bind fun s => (request.headers (toAsciiLowercase s)).bind List.head?
  | .cookie => p.selector.bind request.cookies
  | .body => request.body
  | .security => extractSecurity lib p.selector request
  | .transport => none

def extractValues (lib : NativeLib) (p : Predicate) (request : CapturedRequest) (pathParams : Params) :
    List String :=
  match p.source with
  | .query => (p.selector.bind request.query).getD []
  | .header => (p.selector.bind fun s => request.headers (toAsciiLowercase s)).getD []
  | _ => (extractValue lib p request pathParams).toList

/-! ## Trees -/

variable (lib : NativeLib) (request : CapturedRequest) (pathParams : Params)

/-- One of the values passes, or none is there and that passes. -/
def evaluateValues (p : Predicate) (values : List String) : Bool :=
  if values = [] then
    evaluateOperator lib p.operator none p.expected p.options request.contentType
  else values.any fun v =>
    evaluateOperator lib p.operator (some v) p.expected p.options request.contentType

def evaluateSingle (p : Predicate) : Bool × List PredicateResult :=
  let passed := evaluateValues lib request p (extractValues lib p request pathParams)
  let passed := if negated p.options then !passed else passed
  (passed, [⟨p.operator, passed, true⟩])

/-- The result of a group by what its children give, up to the first that fails and up
to the first that passes. -/
def groupResult (every some : Bool × List PredicateResult) : Combinator → Bool × List PredicateResult
  | .all => every
  | .any => some
  | .not => (!some.2.any (fun r => !r.evaluated) && !some.1, some.2)
  | .unknown _ => (false, [])

mutual
def evalChild : Condition → Bool × List PredicateResult
  | .pred p => evaluateSingle lib request pathParams p
  | .group combinator children => groupResult (evalEvery children) (evalSome children) combinator

/-- Up to the first child that fails. -/
def evalEvery : List Condition → Bool × List PredicateResult
  | [] => (true, [])
  | c :: cs =>
      if (evalChild c).1 then ((evalEvery cs).1, (evalChild c).2 ++ (evalEvery cs).2)
      else (false, (evalChild c).2)

/-- Up to the first child that passes. -/
def evalSome : List Condition → Bool × List PredicateResult
  | [] => (false, [])
  | c :: cs =>
      if (evalChild c).1 then (true, (evalChild c).2)
      else ((evalSome cs).1, (evalChild c).2 ++ (evalSome cs).2)
end

def evaluateGroup (g : PredicateGroup) : Bool × List PredicateResult :=
  groupResult (evalEvery lib request pathParams g.children)
    (evalSome lib request pathParams g.children) g.combinator

def evaluatePredicateGroup (g : PredicateGroup) : Bool :=
  (evaluateGroup lib request pathParams g).1

/-! ## Routes -/

def matchMethod (routeMethod : Method) (requestMethod : String) : Bool :=
  eqIgnoreAsciiCase routeMethod.text "ANY" || eqIgnoreAsciiCase routeMethod.text requestMethod

def evaluateRoute (basePath : String) (route : Route) : RouteEvaluationResult :=
  let methodMatch := matchMethod route.method request.method
  let pathResult := matchPath lib route.path (stripBasePath request.path basePath)
  let params := pathResult.getD []
  let predicates := if methodMatch && pathResult.isSome then
      evaluateGroup lib request params route.predicates
    else (false, [])
  { routeId := route.id, priority := route.priority, enabled := route.enabled, methodMatch,
    pathMatch := pathResult.isSome, pathParams := params, predicateResults := predicates.2,
    overallMatch := route.enabled && methodMatch && pathResult.isSome && predicates.1 }

def operatorWeight : Operator → ℕ
  | .exact => 8
  | .contains | .prefix_ | .suffix => 5
  | .present | .absent => 2
  | .regex | .glob => 3
  | .json_strict => 10
  | .json_subset => 7
  | .jsonPath_exists | .jsonPath_equals => 6
  | _ => 1

def kindWeight : PathMatcherKind → ℕ
  | .exact => 50
  | .parameterized => 30
  | .glob => 15
  | .regex => 10

/-- By the first route of the identifier. -/
def specificity (routes : List Route) (e : RouteEvaluationResult) : ℕ :=
  match routes.find? (·.id == e.routeId) with
  | none => 0
  | some route =>
      (if eqIgnoreAsciiCase route.method.text "ANY" then 1 else 10) + kindWeight route.path.kind +
        ((e.predicateResults.filter (·.passed)).map (fun r => operatorWeight r.operator)).sum

/-- `a` stands before `b`, or they are equal: first the more specific, then by identifier. -/
def ranksBefore (routes : List Route) (a b : RouteEvaluationResult) : Bool :=
  if specificity routes a = specificity routes b then decide (a.routeId ≤ b.routeId)
  else decide (specificity routes a > specificity routes b)

def selectRoute (routes : List Route) (settings : SelectionSettings) (basePath : String) : Selection :=
  let found := (routes.map (evaluateRoute lib request basePath)).filter (·.overallMatch)
  if found = [] then .unmatched
  else if found.length > 1 ∧ settings.multipleMatchPolicy = .reject_multiple then .ambiguous
  else
    let highest := atHighest found
    if highest.length > 1 ∧ settings.equalPriorityPolicy = .reject then .ambiguous
    else
      match highest.mergeSort (ranksBefore routes) with
      | [] => .unmatched
      | winner :: _ => .matched winner

end Native

end RedFireForge.ApiMock
