/-
# `RedFireForge.ApiMock.NativeParity` — where the two engines route alike

Both read one list of routes.  The native engine knows no templates in an exact path, no
conditions of a variant as another way to match a route, and no weight of a group; and it
asks each value by itself where the other asks whether there are any.  Away from these,
the same route is selected.
-/
import Mathlib.Tactic.SplitIfs
import RedFireForge.ApiMock.NativeSelector
import RedFireForge.ApiMock.ResponseSelector
import RedFireForge.Lib.Letters

namespace RedFireForge.ApiMock

open RedFireForge.Lib

/-- Regular expressions, letter case and the order of strings agree. -/
structure NativeAgrees (js : Js) (lib : NativeLib) : Prop where
  regex : ∀ source ci, js.regexp source (if ci then "i" else "") = lib.regex source ci
  lower : ∀ s, js.toLowerCase s = String.ofList (s.toList.map Char.toLower)
  upper : ∀ s, js.toUpperCase s = String.ofList (s.toList.map Char.toUpper)
  order : ∀ s t, js.localeCompare s t ≤ 0 ↔ s ≤ t

/-! ## Trees in the order of evaluation -/

section Trees

variable (σ : Predicate → Bool)

mutual
/-- The predicates that are looked at, under the truth values of `σ`, all pass the test. -/
def Condition.reaches (ok : Predicate → Bool) : Condition → Bool
  | .pred p => ok p
  | .group .all children => reachesEvery ok children
  | .group .any children => reachesSome ok children
  | .group .not children => reachesSome ok children
  | .group (.unknown _) _ => true

def reachesEvery (ok : Predicate → Bool) : List Condition → Bool
  | [] => true
  | c :: cs => c.reaches ok && (!c.holds σ || reachesEvery ok cs)

def reachesSome (ok : Predicate → Bool) : List Condition → Bool
  | [] => true
  | c :: cs => c.reaches ok && (c.holds σ || reachesSome ok cs)
end

mutual
/-- How many of the None-of groups that are looked at hold. -/
def Condition.passedNones : Condition → ℕ
  | .pred _ => 0
  | .group .all children => nonesEvery children
  | .group .any children => nonesSome children
  | .group .not children => nonesSome children + if holdSome σ children then 0 else 1
  | .group (.unknown _) _ => 0

def nonesEvery : List Condition → ℕ
  | [] => 0
  | c :: cs => c.passedNones + if c.holds σ then nonesEvery cs else 0

def nonesSome : List Condition → ℕ
  | [] => 0
  | c :: cs => c.passedNones + if c.holds σ then 0 else nonesSome cs
end

def PredicateGroup.condition (g : PredicateGroup) : Condition := .group g.combinator g.children

end Trees

/-- What the results add to the specificity of a route. -/
def weigh (results : List PredicateResult) : ℕ :=
  ((results.filter (·.passed)).map (fun r => operatorSpecificityWeight r.operator)).sum

theorem weigh_append (l l' : List PredicateResult) : weigh (l ++ l') = weigh l + weigh l' := by
  simp [weigh]

namespace Native

theorem operatorWeight_eq (operator : Operator) :
    operatorWeight operator = operatorSpecificityWeight operator := by
  cases operator <;> rfl

theorem kindWeight_eq (kind : PathMatcherKind) : kindWeight kind = pathWeight kind := by
  cases kind <;> rfl

/-! ## Conditions -/

section Conditions

variable (js : Js) (matchers : Matchers) (lib : NativeLib) (request : CapturedRequest)
  (pathParams : Params)

/-- The user of a decoded text. -/
def userOf (text : Option String) : Option (List Char) :=
  (text.map fun t => t.toList.takeWhile (· != ':')).filter (· != [])

/-- The scheme does not begin with a space, and a user is decoded alike. -/
def securityMeets (selector : String) : Bool :=
  match selector with
  | "scheme" => (authorization request).all fun h => h.toList.head?.any (· != ' ')
  | "username" => (authorization request).all fun h =>
      !startsWith (toAsciiLowercase h) "basic " ||
        userOf (js.atob (sliceFrom h 6)) == userOf (lib.base64 (sliceFrom h 6))
  | _ => true

/-- The same values are found. -/
def valuesMeet (p : Predicate) : Bool :=
  match p.source with
  | .security => securityMeets js lib request (p.selector.getD "")
  | .body => true
  | .transport => true
  | _ => p.selector != some "" || (extractValues lib p request pathParams).isEmpty

/-- The operator treats many values as it treats each of them, and reads the expected value
as a text. -/
def operatorMeets (p : Predicate) (value : Option Value) : Bool :=
  match p.operator with
  | .present =>
      match value with
      | some (.many l) => l.any (· != "")
      | _ => true
  | .absent =>
      match value with
      | some (.many l) => !l.isEmpty && l.all (· != "")
      | _ => true
  | .exact | .contains | .prefix_ | .suffix | .regex | .glob =>
      (Value.all value).isEmpty || str p.expected == expectedStr p.expected
  | .binary_exact =>
      match value with
      | none => true
      | some (.one v) => (v == stringOf p.expected) == (v == expectedStr p.expected)
      | some (.many l) => !l.contains (expectedStr p.expected)
  | op =>
      matchers op value p.expected p.options (contentTypeOf request) ==
        if Value.all value = [] then lib.matchers op none p.expected p.options request.contentType
        else (Value.all value).any fun v =>
          lib.matchers op (some v) p.expected p.options request.contentType

def predicateMeets (p : Predicate) : Bool :=
  ApiMock.negated p.options == negated p.options && valuesMeet js lib request pathParams p &&
    operatorMeets matchers lib request p (ApiMock.extractValue js p request pathParams)

/-- An exact path is no template, or neither reading of it matches. -/
def pathMeets (matcher : PathMatcher) (path : String) : Bool :=
  matcher.kind != .exact || inferPathKind matcher.value == .exact ||
    ((ApiMock.matchPath js matcher path).isNone && (matchPath lib matcher path).isNone)

/-- An enabled route whose method and path match is matched by its tree or not at all, and
all predicates that are looked at meet the condition. -/
def routeMeets (basePath : String) (route : Route) : Bool :=
  let path := ApiMock.stripBasePath request.path basePath
  !route.enabled || !ApiMock.matchMethod js route.method request.method ||
    (pathMeets js lib route.path path &&
      (ApiMock.matchPath js route.path path).all fun params =>
        route.predicates.condition.reaches (verdict js matchers request params)
            (predicateMeets js matchers lib request params) &&
          (ApiMock.evaluatePredicateGroup js matchers request params route.predicates ||
            !routeMatchesViaRulesVariant js matchers request params route))

/-- What a route weighs without its predicates. -/
def ownWeight (route : Route) : ℕ :=
  (if route.method = .any then 1 else 10) + pathWeight route.path.kind

/-- How many None-of groups of a route hold. -/
def routeNones (basePath : String) (route : Route) : ℕ :=
  route.predicates.condition.passedNones (verdict js matchers request
    (routeParams js route request basePath))

/-- The matching routes of the highest priority. -/
def highestRoutes (routes : List Route) (basePath : String) : List Route :=
  let found := routes.filter fun r => (ApiMock.evaluateRoute js matchers request basePath r).overallMatch
  found.filter fun r => found.all fun r' => decide (r'.priority ≤ r.priority)

/-- Where specificity decides, no identifier stands for two routes that weigh differently, and
as many None-of groups hold in each route. -/
def ranksMeet (routes : List Route) (settings : SelectionSettings) (basePath : String) : Bool :=
  let highest := highestRoutes js matchers request routes basePath
  decide (highest.length ≤ 1) || settings.equalPriorityPolicy == .reject ||
    highest.all fun r =>
      (routeOf routes r.id).map ownWeight == (routes.find? (·.id == r.id)).map ownWeight &&
        highest.all fun r' =>
          routeNones js matchers request basePath r == routeNones js matchers request basePath r'

end Conditions

/-! ## Text and paths -/

section Paths

variable {js : Js} {lib : NativeLib}

theorem sameText_alike (h : NativeAgrees js lib) (s t : String) (ci : Bool) :
    ApiMock.sameText js s t ci = sameText s t ci := by
  unfold ApiMock.sameText sameText eqIgnoreAsciiCase toAsciiLowercase
  rw [h.lower, h.lower]

theorem isMatch_alike (h : NativeAgrees js lib) (source : String) (ci : Bool) (text : String) :
    testRegex js source ci text = isMatch lib source ci text := by
  cases hregex : lib.regex source ci with
  | none => simp only [testRegex, isMatch, h.regex, hregex]
  | some test => simp only [testRegex, isMatch, h.regex, hregex]

theorem upper_text (m : Method) : m.text.toList.map Char.toUpper = m.text.toList := by
  cases m <;> rfl

/-- A method is written in upper case. -/
theorem matchMethod_alike (h : NativeAgrees js lib) (m : Method) (requestMethod : String) :
    ApiMock.matchMethod js m requestMethod = matchMethod m requestMethod := by
  have hany : decide (m = .any) = eqIgnoreAsciiCase m.text "ANY" := by cases m <;> rfl
  have hrest : (m.text == js.toUpperCase requestMethod) = eqIgnoreAsciiCase m.text requestMethod := by
    rw [h.upper, Bool.eq_iff_iff, beq_iff_eq, eqIgnoreAsciiCase, beq_iff_eq, toAsciiLowercase,
      toAsciiLowercase, String.ofList_inj]
    constructor
    · intro heq
      rw [heq, String.toList_ofList, List.map_map]
      exact List.map_congr_left fun c _ => toLower_toUpper c
    · intro heq
      have hup := congrArg (List.map Char.toUpper) heq
      simp only [List.map_map, Function.comp_def, toUpper_toLower] at hup
      rw [← hup, upper_text, String.ofList_toList]
  rw [ApiMock.matchMethod, matchMethod, hany, hrest]

theorem matchZipped_alike (h : NativeAgrees js lib) (ci : Bool) {pattern path : List String}
    (hlen : pattern.length = path.length) (params : Params) :
    matchParts js ci pattern path params = matchZipped ci (pattern.zip path) params := by
  induction pattern generalizing path params with
  | nil =>
      rw [List.length_nil] at hlen
      rw [List.length_eq_zero_iff.mp hlen.symm]
      rfl
  | cons pp pattern ih =>
      cases path with
      | nil => cases hlen
      | cons rp path =>
          have hlen := Nat.succ.inj hlen
          rw [List.zip_cons_cons, matchParts, matchZipped, sameText_alike h, ih hlen, ih hlen]
          rfl

theorem matchParts_length {ci : Bool} {pattern path : List String} {params : Params}
    (hlen : pattern.length ≠ path.length) : matchParts js ci pattern path params = none := by
  induction pattern generalizing path params with
  | nil =>
      cases path with
      | nil => exact absurd rfl hlen
      | cons rp path => rfl
  | cons pp pattern ih =>
      cases path with
      | nil => rfl
      | cons rp path =>
          have hlen : pattern.length ≠ path.length := fun heq => hlen (congrArg Nat.succ heq)
          rw [matchParts, ih hlen, ih hlen, ite_self, ite_self]

theorem matchParameterized_alike (h : NativeAgrees js lib) (pattern path : String) (ci : Bool) :
    matchParameterizedPath js pattern path ci = matchParameterized pattern path ci := by
  unfold matchParameterizedPath matchParameterized
  dsimp only
  split
  next hlen => exact matchParts_length hlen
  next hlen => exact matchZipped_alike h ci (not_not.mp hlen) []

theorem globRegex_eq (cs : List Char) : globSource cs = globRegex cs := by
  induction cs using globRegex.induct with
  | case1 => rfl
  | case2 cs ih => rw [globSource, globRegex, ih]
  | case3 cs hnot ih => rw [globSource, globRegex, ih] <;> exact hnot
  | case4 cs h₁ h₂ ih => rw [globSource, globRegex, ih] <;> assumption
  | case5 cs ih => rw [globSource, globRegex, ih]
  | case6 c cs h₁ h₂ h₃ h₄ ih =>
      rw [globSource, globRegex, ih]
      · rfl
      all_goals assumption

/-- A path that is no template is matched alike. -/
theorem matchPath_alike (h : NativeAgrees js lib) {matcher : PathMatcher} {path : String}
    (hmeets : pathMeets js lib matcher path = true) :
    ApiMock.matchPath js matcher path = matchPath lib matcher path := by
  have hplain : normalizePathMatcher matcher = matcher →
      ApiMock.matchPath js matcher path = matchPath lib matcher path := by
    intro hsame
    unfold ApiMock.matchPath matchPath
    dsimp only
    rw [hsame]
    cases matcher.kind with
    | exact => simp only [sameText_alike h]
    | parameterized => exact matchParameterized_alike h _ _ _
    | glob =>
        rw [ApiMock.globToRegex, globRegex_eq]
        simp only [isMatch_alike h]
        rfl
    | regex => simp only [isMatch_alike h]
  simp only [pathMeets, Bool.or_eq_true, Bool.and_eq_true, bne_iff_ne, beq_iff_eq,
    Option.isNone_iff_eq_none] at hmeets
  rcases hmeets with (hkind | hinfer) | hnone
  · exact hplain (if_neg hkind)
  · by_cases hkind : matcher.kind = .exact
    · refine hplain ((if_pos hkind).trans ?_)
      rw [hinfer, ← hkind]
    · exact hplain (if_neg hkind)
  · rw [hnone.1, hnone.2]

end Paths

/-! ## Predicates -/

section Predicates

variable {js : Js} {matchers : Matchers} {lib : NativeLib} {request : CapturedRequest}
  {pathParams : Params} {p : Predicate}

theorem username_alike (text : Option String) :
    (text.bind fun t =>
      if t.toList.takeWhile (· != ':') = [] then none
      else some (String.ofList (t.toList.takeWhile (· != ':')))) =
      (userOf text).map String.ofList := by
  cases text with
  | none => rfl
  | some t =>
      rw [userOf, Option.map_some, Option.bind_some, Option.filter_some]
      by_cases hnil : t.toList.takeWhile (· != ':') = []
      · rw [if_pos hnil, hnil]
        rfl
      · rw [if_neg hnil, if_pos (by simpa using hnil), Option.map_some]

theorem scheme_alike {auth : Option String}
    (hmeets : (auth.all fun h => h.toList.head?.any (· != ' ')) = true) :
    (auth.bind fun h => if h = "" then none else
      some (if h.toList.takeWhile (· != ' ') = [] then h
        else String.ofList (h.toList.takeWhile (· != ' ')))) =
      auth.map fun h => String.ofList (h.toList.takeWhile (· != ' ')) := by
  cases auth with
  | none => rfl
  | some h =>
      rw [Option.all_some] at hmeets
      rw [Option.bind_some, Option.map_some]
      cases hcs : h.toList with
      | nil =>
          rw [hcs] at hmeets
          cases hmeets
      | cons c cs =>
          rw [hcs] at hmeets
          have hc : (c != ' ') = true := hmeets
          have hne : h ≠ "" := by
            rintro rfl
            cases hcs
          rw [if_neg hne, List.takeWhile_cons, if_pos hc, if_neg (List.cons_ne_nil _ _)]

theorem extractSecurity_alike (h : NativeAgrees js lib) {s : String}
    (hmeets : securityMeets js lib request s = true) :
    extractSecurityValue js s request = extractSecurity lib (some s) request := by
  unfold extractSecurityValue extractSecurity
  rw [Option.getD_some]
  split
  next => exact scheme_alike hmeets
  next =>
    show (authorization request).bind (fun h =>
        if startsWith (js.toLowerCase h) "basic " then (js.atob (sliceFrom h 6)).bind fun t =>
          if t.toList.takeWhile (· != ':') = [] then none
          else some (String.ofList (t.toList.takeWhile (· != ':')))
        else none) =
      (authorization request).bind fun h =>
        if startsWith (toAsciiLowercase h) "basic " then (lib.base64 (sliceFrom h 6)).bind fun t =>
          if t.toList.takeWhile (· != ':') = [] then none
          else some (String.ofList (t.toList.takeWhile (· != ':')))
        else none
    refine Option.bind_congr fun text htext => ?_
    have hmeets := (Option.all_eq_true _ _).mp hmeets text htext
    rw [Bool.or_eq_true, Bool.not_eq_true', beq_iff_eq] at hmeets
    rw [show js.toLowerCase text = toAsciiLowercase text from h.lower text]
    rcases hmeets with hplain | hsame
    · rw [hplain]
      rfl
    · rw [username_alike, username_alike, hsame]
  next =>
    show (authorization request).bind (fun h =>
      if startsWith h "Bearer " then some (sliceFrom h 7) else none) =
        ((authorization request).filter (startsWith · "Bearer ")).map (sliceFrom · 7)
    cases authorization request with
    | none => rfl
    | some text =>
        rw [Option.bind_some, Option.filter_some]
        split
        next hbearer => rw [Option.map_some]
        next hbearer => rw [Option.map_none]
  next => rfl
  next => rfl
  next => rfl
  next h₁ h₂ h₃ h₄ h₅ h₆ =>
    first
    | rfl
    | split
      all_goals first | rfl | exact absurd rfl (by assumption)

theorem selected_some {selector : Option String} (h : selector ≠ some "") :
    selected selector = selector := by
  cases selector with
  | none => rfl
  | some s =>
      have hs : (s != "") = true := bne_iff_ne.mpr fun heq => h (congrArg some heq)
      rw [selected, Option.filter_some, if_pos hs]

theorem all_one (o : Option String) : Value.all (o.map .one) = o.toList := by
  cases o <;> rfl

theorem all_many (o : Option (List String)) : Value.all (o.map .many) = o.getD [] := by
  cases o <;> rfl

/-- The same values are found. -/
theorem extractValues_alike (h : NativeAgrees js lib)
    (hmeets : valuesMeet js lib request pathParams p = true) :
    Value.all (ApiMock.extractValue js p request pathParams) =
      extractValues lib p request pathParams := by
  have hlower : ∀ s, js.toLowerCase s = toAsciiLowercase s := h.lower
  obtain ⟨source, selector, operator, expected, options⟩ := p
  by_cases hempty : selector = some ""
  · subst hempty
    cases source with
    | security => rfl
    | body => exact all_one _
    | transport => rfl
    | _ =>
        simp only [valuesMeet, bne_self_eq_false, Bool.false_or, List.isEmpty_iff] at hmeets
        rw [hmeets]
        rfl
  · have hsame := selected_some hempty
    cases source with
    | pathParam =>
        simp only [ApiMock.extractValue, extractValues, extractValue, hsame]
        exact all_one _
    | query =>
        simp only [ApiMock.extractValue, extractValues, hsame]
        exact all_many _
    | header =>
        simp only [ApiMock.extractValue, extractValues, hsame, hlower]
        exact all_many _
    | cookie =>
        simp only [ApiMock.extractValue, extractValues, extractValue, hsame]
        exact all_one _
    | body => exact all_one _
    | transport => rfl
    | security =>
        simp only [ApiMock.extractValue, extractValues, extractValue, hsame]
        rw [all_one]
        cases selector with
        | none => rfl
        | some s =>
            rw [Option.bind_some]
            exact congrArg Option.toList (extractSecurity_alike h hmeets)

theorem escapeRegexChar_eq {c : Char} (h : c ≠ '?') : escapeRegexChar c =
    if ".+*^$\x7b\x7d()|[]\\".toList.contains c then ['\\', c] else [c] := by
  unfold escapeRegexChar
  congr 1
  rw [Bool.eq_iff_iff, List.contains_iff_mem, List.contains_iff_mem]
  simp [h]

theorem predicateGlob_eq (pattern : String) : globPattern pattern = predicateGlob pattern := by
  unfold globPattern predicateGlob
  congr 3
  refine List.flatMap_congr fun c _ => ?_
  split
  next => rfl
  next =>
    split
    next => rfl
    next hne => exact escapeRegexChar_eq hne

theorem ignoresCase_alike (options : Option Json) :
    ApiMock.ignoresCase options = ignoresCase options := by
  unfold ApiMock.ignoresCase ignoresCase
  split
  next hfield => rw [hfield]; rfl
  next hfield =>
    split
    next b hb =>
      cases b with
      | true => rfl
      | false => exact absurd hb hfield
    next => rfl

/-- An operator that tests a value asks whether one of the values passes. -/
theorem evaluateValues_any {test : String → Bool} (htest : ∀ o, evaluateOperator lib p.operator o
    p.expected p.options request.contentType = o.any test) (values : List String) :
    evaluateValues lib request p values = values.any test := by
  unfold evaluateValues
  split
  next hnil =>
    rw [htest, hnil]
    rfl
  next => simp only [htest, Option.any_some]

theorem anyValue_alike {test test' : String → Bool} {value : Option Value}
    (htest : ∀ o, evaluateOperator lib p.operator o p.expected p.options request.contentType =
      o.any test')
    (hmeets : ((Value.all value).isEmpty || str p.expected == expectedStr p.expected) = true)
    (hsame : str p.expected = expectedStr p.expected → test = test') :
    anyValue value test = evaluateValues lib request p (Value.all value) := by
  rw [evaluateValues_any htest, anyValue]
  rw [Bool.or_eq_true, List.isEmpty_iff, beq_iff_eq] at hmeets
  rcases hmeets with hnil | htext
  · rw [hnil]
    rfl
  · rw [hsame htext]

theorem present_alike {value : Option Value} (hop : p.operator = .present)
    (hmeets : operatorMeets matchers lib request p value = true) :
    (value.isSome && value != some (.one "")) = evaluateValues lib request p (Value.all value) := by
  have htest : ∀ o, evaluateOperator lib p.operator o p.expected p.options request.contentType =
      o.any (· != "") := by
    intro o
    rw [hop]
    rfl
  rw [evaluateValues_any htest]
  simp only [operatorMeets, hop] at hmeets
  cases value with
  | none => rfl
  | some v =>
      cases v with
      | one s =>
          rw [Value.all, List.any_cons, List.any_nil, Bool.or_false, Bool.eq_iff_iff]
          simp
      | many l =>
          have hmeets : l.any (· != "") = true := hmeets
          rw [Value.all, hmeets]
          rfl

theorem absent_alike {value : Option Value} (hop : p.operator = .absent)
    (hmeets : operatorMeets matchers lib request p value = true) :
    (value.isNone || value == some (.one "")) = evaluateValues lib request p (Value.all value) := by
  have htest : ∀ o, evaluateOperator lib p.operator o p.expected p.options request.contentType =
      o.all (· == "") := by
    intro o
    rw [hop]
    rfl
  unfold evaluateValues
  simp only [htest]
  simp only [operatorMeets, hop] at hmeets
  cases value with
  | none => rfl
  | some v =>
      cases v with
      | one s =>
          by_cases hs : s = ""
          · rw [hs]
            rfl
          · simp [Value.all, hs]
      | many l =>
          have hmeets : (!l.isEmpty && l.all (· != "")) = true := hmeets
          rw [Bool.and_eq_true, Bool.not_eq_true', List.isEmpty_eq_false_iff, List.all_eq_true] at hmeets
          rw [Value.all, if_neg hmeets.1]
          have hnone : l.any (fun v => (some v).all (· == "")) = false := by
            rw [List.any_eq_false]
            intro v hv
            simpa using hmeets.2 v hv
          rw [hnone]
          rfl

theorem binary_alike {value : Option Value} (hop : p.operator = .binary_exact)
    (hmeets : operatorMeets matchers lib request p value = true) :
    (value == some (.one (stringOf p.expected))) =
      evaluateValues lib request p (Value.all value) := by
  have htest : ∀ o, evaluateOperator lib p.operator o p.expected p.options request.contentType =
      o.any (· == expectedStr p.expected) := by
    intro o
    rw [hop]
    rfl
  rw [evaluateValues_any htest]
  simp only [operatorMeets, hop] at hmeets
  cases value with
  | none => rfl
  | some v =>
      cases v with
      | one s =>
          have hmeets : ((s == stringOf p.expected) == (s == expectedStr p.expected)) = true := hmeets
          rw [Value.all, List.any_cons, List.any_nil, Bool.or_false, ← beq_iff_eq.mp hmeets,
            Bool.eq_iff_iff]
          simp
      | many l =>
          have hmeets : (!l.contains (expectedStr p.expected)) = true := hmeets
          have hnone : l.any (· == expectedStr p.expected) = false := by
            rw [List.any_eq_false]
            intro v hv hsame
            rw [Bool.not_eq_true', ← Bool.not_eq_true, List.contains_iff_mem] at hmeets
            exact hmeets (beq_iff_eq.mp hsame ▸ hv)
          rw [Value.all, hnone]
          rfl

/-- An operator says the same of the values together and of each by itself. -/
theorem evaluateOperator_alike (h : NativeAgrees js lib) (value : Option Value)
    (hmeets : operatorMeets matchers lib request p value = true) :
    ApiMock.evaluateOperator js matchers p.operator value p.expected p.options
      (contentTypeOf request) = evaluateValues lib request p (Value.all value) := by
  have hcase : ApiMock.ignoresCase p.options = ignoresCase p.options := ignoresCase_alike _
  cases hop : p.operator with
  | present => exact present_alike hop hmeets
  | absent => exact absent_alike hop hmeets
  | binary_exact => exact binary_alike hop hmeets
  | exact =>
      simp only [operatorMeets, hop] at hmeets
      refine anyValue_alike (fun o => by rw [hop]; rfl) hmeets fun htext => funext fun v => ?_
      rw [sameText_alike h, htext, hcase]
  | contains =>
      simp only [operatorMeets, hop] at hmeets
      exact anyValue_alike (fun o => by rw [hop]; rfl) hmeets fun htext => by rw [htext]
  | prefix_ =>
      simp only [operatorMeets, hop] at hmeets
      exact anyValue_alike (fun o => by rw [hop]; rfl) hmeets fun htext => by rw [htext]
  | suffix =>
      simp only [operatorMeets, hop] at hmeets
      exact anyValue_alike (fun o => by rw [hop]; rfl) hmeets fun htext => by rw [htext]
  | regex =>
      simp only [operatorMeets, hop] at hmeets
      refine anyValue_alike (fun o => by rw [hop]; rfl) hmeets fun htext => funext fun v => ?_
      rw [isMatch_alike h, htext, hcase]
  | glob =>
      simp only [operatorMeets, hop] at hmeets
      refine anyValue_alike (fun o => by rw [hop]; rfl) hmeets fun htext => funext fun v => ?_
      rw [isMatch_alike h, htext, hcase, predicateGlob_eq]
  | _ =>
      simp only [operatorMeets, hop] at hmeets
      rw [evaluateValues, hop]
      exact beq_iff_eq.mp hmeets

/-- A predicate gives the same result. -/
theorem evaluateSingle_alike (h : NativeAgrees js lib)
    (hmeets : predicateMeets js matchers lib request pathParams p = true) :
    evaluateSinglePredicate js matchers request pathParams p =
      evaluateSingle lib request pathParams p := by
  simp only [predicateMeets, Bool.and_eq_true, beq_iff_eq] at hmeets
  obtain ⟨⟨hnegated, hvalues⟩, hoperator⟩ := hmeets
  have havailable : p.operator ∉ unavailablePredicateOperators := List.not_mem_nil
  unfold evaluateSinglePredicate evaluateSingle
  rw [if_neg havailable, evaluateOperator_alike h _ hoperator, extractValues_alike h hvalues, hnegated]

end Predicates

/-! ## Trees -/

section Evaluation

variable {js : Js} {matchers : Matchers} {lib : NativeLib} {request : CapturedRequest}
  {pathParams : Params} {σ : Predicate → Bool} {ok : Predicate → Bool}

theorem evaluated_groupResult {every some : Bool × List PredicateResult}
    (hevery : ∀ r ∈ every.2, r.evaluated = true) (hsome : ∀ r ∈ some.2, r.evaluated = true)
    (combinator : Combinator) : ∀ r ∈ (groupResult every some combinator).2, r.evaluated = true := by
  cases combinator with
  | all => exact hevery
  | any => exact hsome
  | not => exact hsome
  | unknown name => exact List.forall_mem_nil _

mutual
/-- Every result of the native engine was evaluated. -/
theorem evaluated_child : ∀ c : Condition,
    ∀ r ∈ (evalChild lib request pathParams c).2, r.evaluated = true
  | .pred p => fun r hr => by rw [List.mem_singleton.mp hr]
  | .group combinator children => by
      rw [evalChild]
      exact evaluated_groupResult (evaluated_every children) (evaluated_some children) combinator

theorem evaluated_every : ∀ cs : List Condition,
    ∀ r ∈ (evalEvery lib request pathParams cs).2, r.evaluated = true
  | [] => List.forall_mem_nil _
  | c :: cs => by
      rw [evalEvery]
      split
      · exact List.forall_mem_append.mpr ⟨evaluated_child c, evaluated_every cs⟩
      · exact evaluated_child c

theorem evaluated_some : ∀ cs : List Condition,
    ∀ r ∈ (evalSome lib request pathParams cs).2, r.evaluated = true
  | [] => List.forall_mem_nil _
  | c :: cs => by
      rw [evalSome]
      split
      · exact evaluated_child c
      · exact List.forall_mem_append.mpr ⟨evaluated_child c, evaluated_some cs⟩
end

theorem not_unevaluated {l : List PredicateResult} (h : ∀ r ∈ l, r.evaluated = true) :
    l.any (fun r => !r.evaluated) = false := by
  rw [List.any_eq_false]
  intro r hr
  rw [h r hr]
  exact Bool.false_ne_true

/-- One verdict, and the results here weigh two more for each None-of group that holds. -/
structure Alike (nones : ℕ) (here there : Bool × List PredicateResult) : Prop where
  same : there.1 = here.1
  weight : weigh here.2 = weigh there.2 + 2 * nones

theorem weigh_failed {l : List PredicateResult} : weigh (l ++ [⟨.present, false, true⟩]) = weigh l := by
  rw [weigh_append]
  rfl

theorem weigh_passed {l : List PredicateResult} :
    weigh (l ++ [⟨.present, true, true⟩]) = weigh l + 2 := by
  rw [weigh_append]
  rfl

/-- A group of either engine by what its children give. -/
theorem groupResult_alike {every some every' some' : Bool × List PredicateResult} {m n : ℕ}
    (hevaluated : ∀ r ∈ some.2, r.evaluated = true) (hevaluated' : ∀ r ∈ some'.2, r.evaluated = true)
    (combinator : Combinator) (hall : combinator = .all → Alike m every every')
    (hsome : combinator = .any ∨ combinator = .not → Alike n some some') :
    Alike (match combinator with
        | .all => m
        | .any => n
        | .not => n + if some.1 then 0 else 1
        | .unknown _ => 0)
      (ApiMock.groupResult every some combinator) (groupResult every' some' combinator) := by
  cases combinator with
  | all => exact hall rfl
  | any =>
      obtain ⟨hsame, hweight⟩ := hsome (Or.inl rfl)
      refine ⟨hsame, ?_⟩
      show weigh (record .any some.1 some.2).2 = weigh some'.2 + 2 * n
      rw [← hweight, record]
      cases some.1 with
      | true => rfl
      | false => exact weigh_failed
  | not =>
      obtain ⟨hsame, hweight⟩ := hsome (Or.inr rfl)
      have hpassed : (!some.2.any (fun r => !r.evaluated) && !some.1) = !some.1 := by
        rw [not_unevaluated hevaluated, Bool.not_false, Bool.true_and]
      have hpassed' : (!some'.2.any (fun r => !r.evaluated) && !some'.1) = !some'.1 := by
        rw [not_unevaluated hevaluated', Bool.not_false, Bool.true_and]
      refine ⟨?_, ?_⟩
      · show (!some'.2.any (fun r => !r.evaluated) && !some'.1) =
          (!some.2.any (fun r => !r.evaluated) && !some.1)
        rw [hpassed, hpassed', hsame]
      · show weigh (some.2 ++ [⟨.present, !some.2.any (fun r => !r.evaluated) && !some.1, true⟩]) =
          weigh some'.2 + 2 * (n + if some.1 then 0 else 1)
        rw [hpassed, Nat.mul_add, ← Nat.add_assoc, ← hweight]
        cases some.1 with
        | true => exact weigh_failed
        | false => exact weigh_passed
  | unknown name => exact ⟨rfl, rfl⟩

mutual
/-- A tree all of whose predicates that are looked at give the same result. -/
theorem evalChild_alike (hsingle : ∀ p, ok p = true →
      evaluateSinglePredicate js matchers request pathParams p = evaluateSingle lib request pathParams p) :
    ∀ c : Condition, c.reaches (verdict js matchers request pathParams) ok = true →
      Alike (c.passedNones (verdict js matchers request pathParams))
        (ApiMock.evalChild js matchers request pathParams c) (evalChild lib request pathParams c)
  | .pred p, h => by
      have hp : ok p = true := h
      have hsame := hsingle p hp
      refine ⟨congrArg Prod.fst hsame.symm, ?_⟩
      show weigh (evaluateSinglePredicate js matchers request pathParams p).2 = _
      rw [hsame]
      rfl
  | .group combinator children, h => by
      obtain ⟨hholds, hevaluated⟩ := @evalSome_spec js matchers request pathParams children
      have hall : combinator = .all → Alike (nonesEvery (verdict js matchers request pathParams) children)
          (ApiMock.evalEvery js matchers request pathParams children)
          (evalEvery lib request pathParams children) := by
        rintro rfl
        exact evalEvery_alike hsingle children h
      have hsome : combinator = .any ∨ combinator = .not →
          Alike (nonesSome (verdict js matchers request pathParams) children)
            (ApiMock.evalSome js matchers request pathParams children)
            (evalSome lib request pathParams children) := by
        rintro (rfl | rfl)
        · exact evalSome_alike hsingle children h
        · exact evalSome_alike hsingle children h
      have hgroup := groupResult_alike hevaluated (evaluated_some children) combinator hall hsome
      rw [ApiMock.evalChild, evalChild]
      rw [hholds] at hgroup
      cases combinator <;> exact hgroup

theorem evalEvery_alike (hsingle : ∀ p, ok p = true →
      evaluateSinglePredicate js matchers request pathParams p = evaluateSingle lib request pathParams p) :
    ∀ cs : List Condition, reachesEvery (verdict js matchers request pathParams) ok cs = true →
      Alike (nonesEvery (verdict js matchers request pathParams) cs)
        (ApiMock.evalEvery js matchers request pathParams cs) (evalEvery lib request pathParams cs)
  | [], _ => ⟨rfl, rfl⟩
  | c :: cs, h => by
      rw [reachesEvery, Bool.and_eq_true, Bool.or_eq_true, Bool.not_eq_true'] at h
      obtain ⟨hsame, hweight⟩ := evalChild_alike hsingle c h.1
      have hspec := (@evalChild_spec js matchers request pathParams c).1
      rw [ApiMock.evalEvery, evalEvery, nonesEvery, hsame, hspec]
      cases hholds : c.holds (verdict js matchers request pathParams) with
      | false =>
          rw [if_neg Bool.false_ne_true, if_neg Bool.false_ne_true, if_neg Bool.false_ne_true]
          exact ⟨rfl, hweight⟩
      | true =>
          obtain ⟨hrest, hweights⟩ := evalEvery_alike hsingle cs
            (h.2.resolve_left fun hfalse => by rw [hholds] at hfalse; cases hfalse)
          rw [if_pos rfl, if_pos rfl, if_pos rfl]
          refine ⟨hrest, ?_⟩
          rw [weigh_append, weigh_append, hweight, hweights]
          omega

theorem evalSome_alike (hsingle : ∀ p, ok p = true →
      evaluateSinglePredicate js matchers request pathParams p = evaluateSingle lib request pathParams p) :
    ∀ cs : List Condition, reachesSome (verdict js matchers request pathParams) ok cs = true →
      Alike (nonesSome (verdict js matchers request pathParams) cs)
        (ApiMock.evalSome js matchers request pathParams cs) (evalSome lib request pathParams cs)
  | [], _ => ⟨rfl, rfl⟩
  | c :: cs, h => by
      rw [reachesSome, Bool.and_eq_true, Bool.or_eq_true] at h
      obtain ⟨hsame, hweight⟩ := evalChild_alike hsingle c h.1
      have hspec := (@evalChild_spec js matchers request pathParams c).1
      rw [ApiMock.evalSome, evalSome, nonesSome, hsame, hspec]
      cases hholds : c.holds (verdict js matchers request pathParams) with
      | true =>
          rw [if_pos rfl, if_pos rfl, if_pos rfl]
          exact ⟨rfl, hweight⟩
      | false =>
          obtain ⟨hrest, hweights⟩ := evalSome_alike hsingle cs
            (h.2.resolve_left fun htrue => by rw [hholds] at htrue; cases htrue)
          rw [if_neg Bool.false_ne_true, if_neg Bool.false_ne_true, if_neg Bool.false_ne_true]
          refine ⟨hrest, ?_⟩
          rw [weigh_append, weigh_append, hweight, hweights]
          omega
end

end Evaluation

/-! ## Routes -/

section Routes

variable {js : Js} {matchers : Matchers} {lib : NativeLib} {request : CapturedRequest}
  {basePath : String} {route : Route} {routes : List Route} {settings : SelectionSettings}

/-- A route matches for both or for neither; if it does, its results weigh the same up to the
groups that hold. -/
theorem evaluateRoute_alike (h : NativeAgrees js lib)
    (hmeets : routeMeets js matchers lib request basePath route = true) :
    (evaluateRoute lib request basePath route).overallMatch =
        (ApiMock.evaluateRoute js matchers request basePath route).overallMatch ∧
      ((ApiMock.evaluateRoute js matchers request basePath route).overallMatch = true →
        weigh (ApiMock.evaluateRoute js matchers request basePath route).predicateResults =
          weigh (evaluateRoute lib request basePath route).predicateResults +
            2 * routeNones js matchers request basePath route) := by
  simp only [routeMeets, Bool.or_eq_true, Bool.and_eq_true, Bool.not_eq_true'] at hmeets
  have hmethod := matchMethod_alike h route.method request.method
  unfold evaluateRoute ApiMock.evaluateRoute
  dsimp only
  rw [← hmethod]
  rcases hmeets with (hdisabled | hother) | ⟨hpath, hall⟩
  · rw [hdisabled]
    exact ⟨by simp, fun hmatch => by simp at hmatch⟩
  · rw [hother]
    exact ⟨by simp, fun hmatch => by simp at hmatch⟩
  · have hbase : stripBasePath request.path basePath = ApiMock.stripBasePath request.path basePath := rfl
    rw [hbase, ← matchPath_alike h hpath]
    unfold routeNones routeParams
    cases hparams : ApiMock.matchPath js route.path (ApiMock.stripBasePath request.path basePath) with
    | none => exact ⟨by simp, fun hmatch => by simp at hmatch⟩
    | some params =>
        rw [hparams, Option.all_some, Bool.and_eq_true, Bool.or_eq_true, Bool.not_eq_true'] at hall
        obtain ⟨hsame, hweight⟩ := evalChild_alike (fun p hp => evaluateSingle_alike h hp) _ hall.1
        have hhere : ApiMock.evaluateGroup js matchers request params route.predicates =
            ApiMock.evalChild js matchers request params route.predicates.condition := rfl
        have hthere : evaluateGroup lib request params route.predicates =
            evalChild lib request params route.predicates.condition := rfl
        cases hmatch : ApiMock.matchMethod js route.method request.method with
        | false => exact ⟨by simp, fun hmatch => by simp at hmatch⟩
        | true =>
            simp only [Option.isSome_some, Bool.and_true, Bool.true_and, if_true, Option.getD_some]
            rw [hhere, hthere, hsame]
            refine ⟨?_, fun _ => hweight⟩
            have htree : (ApiMock.evalChild js matchers request params route.predicates.condition).1 =
                true ∨ routeMatchesViaRulesVariant js matchers request params route = false := hall.2
            rcases htree with htree | hvariant
            · rw [htree]
              simp
            · rw [hvariant]
              simp

/-- The matching routes of the highest priority, evaluated. -/
theorem atHighest_map {f : Route → RouteEvaluationResult} (hpriority : ∀ r, (f r).priority = r.priority)
    (l : List Route) : atHighest (l.map f) =
      (l.filter fun r => l.all fun r' => decide (r'.priority ≤ r.priority)).map f := by
  rw [atHighest, List.filter_map]
  congr 1
  refine List.filter_congr fun r _ => ?_
  rw [Function.comp_apply, List.all_map, hpriority]
  refine List.all_congr rfl fun r' => ?_
  rw [Function.comp_apply, hpriority]

theorem found_map {f : Route → RouteEvaluationResult} (l : List Route) :
    (l.map f).filter (·.overallMatch) = (l.filter fun r => (f r).overallMatch).map f := by
  rw [List.filter_map]
  rfl

theorem computeSpecificity_eq (e : RouteEvaluationResult) : computeSpecificity routes e =
    ((routeOf routes e.routeId).map ownWeight).elim 0 (· + weigh e.predicateResults) := by
  unfold computeSpecificity
  cases routeOf routes e.routeId with
  | none => rfl
  | some route => rfl

theorem specificity_eq (e : RouteEvaluationResult) : specificity routes e =
    ((routes.find? (·.id == e.routeId)).map ownWeight).elim 0 (· + weigh e.predicateResults) := by
  unfold specificity
  cases routes.find? (·.id == e.routeId) with
  | none => rfl
  | some route =>
      have hany : (if eqIgnoreAsciiCase route.method.text "ANY" = true then 1 else 10) =
          if route.method = .any then 1 else 10 := by
        cases route.method <;> rfl
      dsimp only
      rw [hany]
      simp only [operatorWeight_eq, kindWeight_eq]
      rfl

theorem mem_highestRoutes {r : Route} (hr : r ∈ highestRoutes js matchers request routes basePath) :
    r ∈ routes ∧ (ApiMock.evaluateRoute js matchers request basePath r).overallMatch = true :=
  List.mem_filter.mp (List.mem_filter.mp hr).1

/-- A route of the highest priority is as specific here as there, up to its groups. -/
theorem specificity_alike (h : NativeAgrees js lib)
    (hroutes : ∀ r ∈ routes, routeMeets js matchers lib request basePath r = true)
    {r : Route} (hr : r ∈ highestRoutes js matchers request routes basePath)
    (hown : (routeOf routes r.id).map ownWeight = (routes.find? (·.id == r.id)).map ownWeight) :
    computeSpecificity routes (ApiMock.evaluateRoute js matchers request basePath r) =
      specificity routes (evaluateRoute lib request basePath r) +
        2 * routeNones js matchers request basePath r := by
  obtain ⟨hmem, hmatch⟩ := mem_highestRoutes hr
  have hweight := (evaluateRoute_alike h (hroutes r hmem)).2 hmatch
  rw [computeSpecificity_eq, specificity_eq, hweight]
  show ((routeOf routes r.id).map ownWeight).elim 0 _ =
    ((routes.find? (·.id == r.id)).map ownWeight).elim 0 _ + _
  rw [hown]
  cases hfind : routes.find? (·.id == r.id) with
  | none => exact absurd (List.find?_eq_none.mp hfind r hmem) (by simp)
  | some first =>
      rw [Option.map_some, Option.elim_some, Option.elim_some]
      omega

/-- Two routes rank alike. -/
theorem ranksBefore_alike (h : NativeAgrees js lib)
    (hroutes : ∀ r ∈ routes, routeMeets js matchers lib request basePath r = true)
    {r r' : Route} (hr : r ∈ highestRoutes js matchers request routes basePath)
    (hr' : r' ∈ highestRoutes js matchers request routes basePath)
    (hown : ∀ r ∈ highestRoutes js matchers request routes basePath,
      (routeOf routes r.id).map ownWeight = (routes.find? (·.id == r.id)).map ownWeight)
    (hnones : routeNones js matchers request basePath r = routeNones js matchers request basePath r') :
    ApiMock.ranksBefore js routes (ApiMock.evaluateRoute js matchers request basePath r)
        (ApiMock.evaluateRoute js matchers request basePath r') =
      ranksBefore routes (evaluateRoute lib request basePath r) (evaluateRoute lib request basePath r') := by
  unfold ApiMock.ranksBefore ranksBefore
  rw [specificity_alike h hroutes hr (hown r hr), specificity_alike h hroutes hr' (hown r' hr'), hnones]
  have horder : decide (js.localeCompare r.id r'.id ≤ 0) = decide (r.id ≤ r'.id) :=
    decide_eq_decide.mpr (h.order _ _)
  split
  next heq => rw [if_pos (Nat.add_right_cancel heq)]; exact horder
  next hne =>
    rw [if_neg fun heq => hne (congrArg (· + _) heq)]
    exact decide_eq_decide.mpr (Nat.add_lt_add_iff_right)

/-- The winner of a list of routes that rank alike. -/
theorem mergeSort_alike {f g : Route → RouteEvaluationResult} {rf rg : RouteEvaluationResult →
      RouteEvaluationResult → Bool} {l : List Route}
    (hranks : l.length ≤ 1 ∨ ∀ r ∈ l, ∀ r' ∈ l, rf (f r) (f r') = rg (g r) (g r')) :
    ∃ sorted : List Route, (l.map f).mergeSort rf = sorted.map f ∧
      (l.map g).mergeSort rg = sorted.map g := by
  rcases hranks with hshort | hranks
  · match l, hshort with
    | [], _ => exact ⟨[], by simp, by simp⟩
    | [r], _ => exact ⟨[r], by simp, by simp⟩
    | _ :: _ :: _, hshort => simp at hshort
  · refine ⟨l.mergeSort fun r r' => rf (f r) (f r'), ?_, ?_⟩
    · exact (List.map_mergeSort (f := f) fun r _ r' _ => rfl).symm
    · exact (List.map_mergeSort hranks).symm

/-- Where specificity decides, both engines sort the routes alike. -/
theorem sorted_alike (h : NativeAgrees js lib)
    (hroutes : ∀ r ∈ routes, routeMeets js matchers lib request basePath r = true)
    (hranks : ranksMeet js matchers request routes settings basePath = true)
    (hdecided : ¬ ((highestRoutes js matchers request routes basePath).length > 1 ∧
      settings.equalPriorityPolicy = .reject)) :
    ∃ sorted : List Route,
      ((highestRoutes js matchers request routes basePath).map
          (ApiMock.evaluateRoute js matchers request basePath)).mergeSort
            (ApiMock.ranksBefore js routes) =
        sorted.map (ApiMock.evaluateRoute js matchers request basePath) ∧
      ((highestRoutes js matchers request routes basePath).map
          (evaluateRoute lib request basePath)).mergeSort (ranksBefore routes) =
        sorted.map (evaluateRoute lib request basePath) := by
  simp only [ranksMeet, Bool.or_eq_true, decide_eq_true_eq, beq_iff_eq, List.all_eq_true,
    Bool.and_eq_true] at hranks
  refine mergeSort_alike ?_
  rcases hranks with (hshort | hreject) | hall
  · exact Or.inl hshort
  · exact Or.inl (not_lt.mp fun hlong => hdecided ⟨hlong, hreject⟩)
  · refine Or.inr fun r hr r' hr' => ?_
    exact ranksBefore_alike h hroutes hr hr' (fun r hr => (hall r hr).1) ((hall r hr).2 r' hr')

end Routes

end Native

/-- The outcome, with the route that was selected. -/
def Selection.routeId : Selection → String × Option String
  | .unmatched => ("unmatched", none)
  | .ambiguous => ("ambiguous", none)
  | .matched winner => ("matched", some winner.routeId)

def asciiLib : NativeLib := ⟨fun _ _ => none, fun _ => none, fun _ _ _ _ _ => false⟩

theorem asciiLib_agrees : NativeAgrees asciiJs asciiLib where
  regex := fun _ _ => rfl
  lower := fun _ => rfl
  upper := fun _ => rfl
  order := fun s t => by
    show (if s = t then (0 : ℤ) else if s < t then -1 else 1) ≤ 0 ↔ s ≤ t
    split
    next heq => simp [heq]
    next hne =>
      split
      next hlt => simp [String.not_lt.mp (String.lt_asymm hlt)]
      next hnot =>
        have hafter : ¬ s ≤ t := fun hle => hne (String.le_antisymm hle (String.not_lt.mp hnot))
        simp [hafter]

/-- Between two results of one priority the ranks decide. -/
theorem sorted_pair (ranks : RouteEvaluationResult → RouteEvaluationResult → Bool)
    {a b : RouteEvaluationResult} (h : a.priority = b.priority) :
    (atHighest [a, b]).mergeSort ranks = if ranks a b then [a, b] else [b, a] := by
  have hboth : atHighest [a, b] = [a, b] := by simp [atHighest, h]
  rw [hboth]
  simp [List.mergeSort, List.merge, List.MergeSort.Internal.splitInTwo]

def byPriority : SelectionSettings := ⟨.highest_priority, .specificity_then_id⟩

section Few

variable {request : CapturedRequest} {basePath : String} {r r' : Route}

theorem selectRoute_none {js : Js} {matchers : Matchers}
    (h : (evaluateRoute js matchers request basePath r).overallMatch = false) :
    (selectRoute js matchers [r] request byPriority basePath).routeId = ("unmatched", none) := by
  simp [selectRoute, h, atHighest, Selection.routeId]

theorem selectRoute_one {js : Js} {matchers : Matchers}
    (h : (evaluateRoute js matchers request basePath r).overallMatch = true) :
    (selectRoute js matchers [r] request byPriority basePath).routeId = ("matched", some r.id) := by
  have hid : (evaluateRoute js matchers request basePath r).routeId = r.id := rfl
  simp [selectRoute, h, atHighest, Selection.routeId, hid]

theorem selectRoute_two {js : Js} {matchers : Matchers} (first : Bool)
    (h : (evaluateRoute js matchers request basePath r).overallMatch = true)
    (h' : (evaluateRoute js matchers request basePath r').overallMatch = true)
    (hpriority : r.priority = r'.priority)
    (hranks : ranksBefore js [r, r'] (evaluateRoute js matchers request basePath r)
      (evaluateRoute js matchers request basePath r') = first) :
    (selectRoute js matchers [r, r'] request byPriority basePath).routeId =
      ("matched", some (if first then r.id else r'.id)) := by
  have hsorted := sorted_pair (ranksBefore js [r, r']) (a := evaluateRoute js matchers request basePath r)
    (b := evaluateRoute js matchers request basePath r') hpriority
  rw [hranks] at hsorted
  have hid : ∀ r, (evaluateRoute js matchers request basePath r).routeId = r.id := fun _ => rfl
  cases first <;> simp [selectRoute, h, h', byPriority, hsorted, Selection.routeId, hid]

theorem Native.selectRoute_none {lib : NativeLib}
    (h : (Native.evaluateRoute lib request basePath r).overallMatch = false) :
    (Native.selectRoute lib request [r] byPriority basePath).routeId = ("unmatched", none) := by
  simp [Native.selectRoute, h, Selection.routeId]

theorem Native.selectRoute_one {lib : NativeLib}
    (h : (Native.evaluateRoute lib request basePath r).overallMatch = true) :
    (Native.selectRoute lib request [r] byPriority basePath).routeId = ("matched", some r.id) := by
  have hid : (Native.evaluateRoute lib request basePath r).routeId = r.id := rfl
  simp [Native.selectRoute, h, atHighest, Selection.routeId, hid]

theorem Native.selectRoute_two {lib : NativeLib} (first : Bool)
    (h : (Native.evaluateRoute lib request basePath r).overallMatch = true)
    (h' : (Native.evaluateRoute lib request basePath r').overallMatch = true)
    (hpriority : r.priority = r'.priority)
    (hranks : Native.ranksBefore [r, r'] (Native.evaluateRoute lib request basePath r)
      (Native.evaluateRoute lib request basePath r') = first) :
    (Native.selectRoute lib request [r, r'] byPriority basePath).routeId =
      ("matched", some (if first then r.id else r'.id)) := by
  have hsorted := sorted_pair (Native.ranksBefore [r, r'])
    (a := Native.evaluateRoute lib request basePath r)
    (b := Native.evaluateRoute lib request basePath r') hpriority
  rw [hranks] at hsorted
  have hid : ∀ r, (Native.evaluateRoute lib request basePath r).routeId = r.id := fun _ => rfl
  cases first <;> simp [Native.selectRoute, h, h', byPriority, hsorted, Selection.routeId, hid]

end Few

def getRoute (id path : String) (predicates : PredicateGroup) : Route :=
  ⟨id, true, .get, ⟨.exact, path, none⟩, 10, predicates, .rules, []⟩

/-- Two routes of one priority, the second with a header predicate. -/
def goldAndAll : List Route :=
  [getRoute "all" "/plan" ⟨.all, []⟩, getRoute "gold" "/plan" (headerIs "x-plan" "gold")]

/-- Gold by the condition of a variant only. -/
def variantGold : Route :=
  { getRoute "gold" "/plan" ⟨.any, []⟩ with
    responses := [⟨"v", true, false, some (headerIs "x-plan" "gold"), unlimited, none⟩] }

/-- A request with a key that has no value. -/
def flagRequest : CapturedRequest :=
  { emptyRequest "GET" "/plan" with query := fun key => if key = "debug" then some [""] else none }

def hasFlag : PredicateGroup := ⟨.all, [.pred ⟨.query, some "debug", .present, none, none⟩]⟩

/-- No header `x-beta`, and nothing else. -/
def notBeta : PredicateGroup :=
  ⟨.all, [.group .not [.pred ⟨.header, some "x-beta", .present, none, none⟩]]⟩

def allAndStable : List Route := [getRoute "all" "/plan" ⟨.all, []⟩, getRoute "stable" "/plan" notBeta]

end RedFireForge.ApiMock
