/-
# `RedFireForge.ApiMock.ResponseSelector` — which variant of a route answers

A variant is selected by its conditions or by the state of the scenario.  Then its
limits are looked at: a variant that is used up, has expired or missed its probability
gives way to the first other variant whose limits allow it.  That sibling is not asked
for its conditions, nor for the state it requires.
-/
import RedFireForge.ApiMock.PredicateEvaluator

namespace RedFireForge.ApiMock

open RedFireForge.Lib

variable (js : Js) (matchers : Matchers)

/-! ## Selection -/

def Route.enabledResponses (route : Route) : List ResponseVariant := route.responses.filter (·.enabled)

/-- The state of each key; counters play no part in the selection. -/
abbrev ScenarioState := String → Option String

def getState (scenario : ScenarioState) (key : String) : String := (scenario key).getD ""

def selectStateResponse (route : Route) (scenario : ScenarioState) (stateKey : String) :
    Option ResponseVariant :=
  let current := getState scenario stateKey
  let enabled := route.enabledResponses
  match enabled.find? (fun v => v.currentState == some current) with
  | some guarded => some guarded
  | none =>
      match enabled.find? (fun v => v.currentState.getD "" == "") with
      | some unguarded => some unguarded
      | none => if current = "" then enabled.head? else none

/-- The captures under which the conditions of a route are evaluated. -/
def routeParams (route : Route) (request : CapturedRequest) (basePath : String) : Params :=
  (matchPath js route.path (stripBasePath request.path basePath)).getD []

def selectRulesResponse (route : Route) (request : CapturedRequest) (basePath : String) :
    Option ResponseVariant :=
  let enabled := route.enabledResponses
  let pathParams := routeParams js route request basePath
  match enabled.find? (fun v =>
      !v.isDefault && v.hasConditions && v.conditionsHold js matchers request pathParams) with
  | some conditional => some conditional
  | none =>
      match enabled.find? (·.isDefault) with
      | some v => some v
      | none => enabled.head?

/-! ## Eligibility -/

/-- The reason against it, if any. -/
def isVariantEligible (variant : ResponseVariant) (matchCount : ℕ) (now : ℤ) (roll : ℚ) :
    Option String :=
  let b := variant.behavior
  match b.maxMatches.filter (fun limit => decide ((matchCount : ℚ) ≥ limit)) with
  | some limit => some ("Match limit " ++ js.numberText limit ++ " reached")
  | none =>
      match b.expiresAt.filter (fun e =>
          e != "" && ((js.date e).map (fun expiry => decide (now ≥ expiry))).getD false) with
      | some e => some ("Expired at " ++ e)
      | none =>
          match b.probability.filter (fun p => decide (p < 1) && decide (roll > p)) with
          | some p => some ("Probability " ++ js.numberText p ++ " not met (rolled " ++
              js.toFixed roll 3 ++ ")")
          | none => none

/-- What is known when a variant is resolved; a roll is given or drawn. -/
structure EligibilityOpts where
  matchCount : ℕ
  now : ℤ
  probabilityRoll : ℚ
  siblingMatchCount : String → ℕ
  siblingProbabilityRoll : String → ℚ

structure ResolveEligibleVariantResult where
  variant : ResponseVariant
  fallbackUsed : Bool
  eligibilityReason : Option String

def stripVariantFault (variant : ResponseVariant) : ResponseVariant :=
  match variant.behavior.fault with
  | none => variant
  | some .none => variant
  | some _ => { variant with behavior := { variant.behavior with fault := none } }

def siblingEligible (opts : EligibilityOpts) (selected v : ResponseVariant) : Bool :=
  v.enabled && v.id != selected.id &&
    (isVariantEligible js v (opts.siblingMatchCount v.id) opts.now
      (opts.siblingProbabilityRoll v.id)).isNone

def resolveEligibleVariant (route : Route) (selected : ResponseVariant) (opts : EligibilityOpts) :
    ResolveEligibleVariantResult :=
  match isVariantEligible js selected opts.matchCount opts.now opts.probabilityRoll with
  | none => ⟨selected, false, none⟩
  | some reason =>
      let probabilityMiss := startsWith reason "Probability"
      let selectedByCondition := !selected.isDefault && selected.hasConditions
      if probabilityMiss && selectedByCondition then
        ⟨stripVariantFault selected, false, some reason⟩
      else
        let fallback := route.responses.find? (siblingEligible js opts selected)
        ⟨fallback.getD selected, fallback.isSome, some reason⟩

/-- A variant of a `rules` route, selected and resolved. -/
def rulesVariant (route : Route) (request : CapturedRequest) (basePath : String)
    (opts : EligibilityOpts) : Option ResponseVariant :=
  (selectRulesResponse js matchers route request basePath).map
    (fun selected => (resolveEligibleVariant js route selected opts).variant)

/-- A variant of a `state` route, selected and resolved. -/
def stateVariant (route : Route) (scenario : ScenarioState) (stateKey : String)
    (opts : EligibilityOpts) : Option ResponseVariant :=
  (selectStateResponse route scenario stateKey).map
    (fun selected => (resolveEligibleVariant js route selected opts).variant)

/-! ## Limits -/

section Limits

variable {js : Js} {v : ResponseVariant} {matchCount : ℕ} {now : ℤ} {roll : ℚ}

def Exhausted (v : ResponseVariant) (matchCount : ℕ) : Prop :=
  ∃ limit, v.behavior.maxMatches = some limit ∧ limit ≤ matchCount

def Expired (js : Js) (v : ResponseVariant) (now : ℤ) : Prop :=
  ∃ e expiry, v.behavior.expiresAt = some e ∧ e ≠ "" ∧ js.date e = some expiry ∧ expiry ≤ now

def Missed (v : ResponseVariant) (roll : ℚ) : Prop :=
  ∃ p, v.behavior.probability = some p ∧ p < 1 ∧ p < roll

theorem exhausted_iff : Exhausted v matchCount ↔
    (v.behavior.maxMatches.filter (fun limit => decide ((matchCount : ℚ) ≥ limit))).isSome = true := by
  cases h : v.behavior.maxMatches with
  | none => simp [Exhausted, h]
  | some limit => simp [Exhausted, h, Option.filter_some]

theorem expired_iff : Expired js v now ↔ (v.behavior.expiresAt.filter (fun e =>
    e != "" && ((js.date e).map (fun expiry => decide (now ≥ expiry))).getD false)).isSome = true := by
  cases h : v.behavior.expiresAt with
  | none => simp [Expired, h]
  | some e =>
      cases hdate : js.date e with
      | none => simp [Expired, h, hdate, Option.filter_some]
      | some expiry => simp [Expired, h, hdate, Option.filter_some]

theorem missed_iff : Missed v roll ↔
    (v.behavior.probability.filter (fun p => decide (p < 1) && decide (roll > p))).isSome = true := by
  cases h : v.behavior.probability with
  | none => simp [Missed, h]
  | some p => simp [Missed, h, Option.filter_some]

/-- The three limits, and what the text of the reason tells about them. -/
theorem isVariantEligible_cases (js : Js) (v : ResponseVariant) (matchCount : ℕ) (now : ℤ) (roll : ℚ) :
    (isVariantEligible js v matchCount now roll = none ∧
      ¬ Exhausted v matchCount ∧ ¬ Expired js v now ∧ ¬ Missed v roll) ∨
    (∃ reason, isVariantEligible js v matchCount now roll = some reason ∧
      startsWith reason "Probability" = false ∧ (Exhausted v matchCount ∨ Expired js v now)) ∨
    (∃ reason, isVariantEligible js v matchCount now roll = some reason ∧
      startsWith reason "Probability" = true ∧
      ¬ Exhausted v matchCount ∧ ¬ Expired js v now ∧ Missed v roll) := by
  rw [exhausted_iff, expired_iff, missed_iff]
  unfold isVariantEligible
  dsimp only
  split
  next limit hlimit =>
    exact Or.inr (Or.inl ⟨_, rfl, by simp [startsWith, List.isPrefixOf], Or.inl (by rw [hlimit]; rfl)⟩)
  next hlimit =>
    rw [hlimit]
    split
    next e he =>
      exact Or.inr (Or.inl ⟨_, rfl, by simp [startsWith, List.isPrefixOf], Or.inr (by rw [he]; rfl)⟩)
    next he =>
      rw [he]
      split
      next p hp =>
        refine Or.inr (Or.inr ⟨_, rfl, by simp [startsWith], by simp, by simp, ?_⟩)
        rw [hp]
        rfl
      next hp =>
        rw [hp]
        exact Or.inl ⟨rfl, by simp, by simp, by simp⟩

end Limits

/-! ## Who answers -/

section Answers

variable {js : Js} {matchers : Matchers} {route : Route} {request : CapturedRequest}
  {basePath : String} {scenario : ScenarioState} {stateKey : String} {opts : EligibilityOpts}
  {s v : ResponseVariant}

/-- The first of a list that passes a test. -/
def FirstOf {α : Type} (test : α → Bool) (l : List α) (x : α) : Prop :=
  ∃ before after, l = before ++ x :: after ∧ test x = true ∧ ∀ y ∈ before, test y = false

theorem find?_eq_some_iff_firstOf {α : Type} {test : α → Bool} {l : List α} {x : α} :
    l.find? test = some x ↔ FirstOf test l x := by
  rw [List.find?_eq_some_iff_append]
  constructor
  · rintro ⟨hx, before, after, hl, hbefore⟩
    exact ⟨before, after, hl, hx, fun y hy => by simpa using hbefore y hy⟩
  · rintro ⟨before, after, hl, hx, hbefore⟩
    exact ⟨hx, before, after, hl, fun y hy => by simpa using hbefore y hy⟩

/-- A selected variant gives way if it is used up or has expired; if it only missed its
probability, then unless its conditions selected it. -/
def GivesWay (js : Js) (opts : EligibilityOpts) (s : ResponseVariant) : Prop :=
  Exhausted s opts.matchCount ∨ Expired js s opts.now ∨
    (Missed s opts.probabilityRoll ∧ (s.isDefault = true ∨ s.hasConditions = false))

/-- `v` answers in the place of `s`. -/
def StandsIn (js : Js) (opts : EligibilityOpts) (route : Route) (s v : ResponseVariant) : Prop :=
  GivesWay js opts s ∧ FirstOf (siblingEligible js opts s) route.responses v

/-- Either a sibling answers, or the selected variant, perhaps without its fault. -/
theorem resolveEligibleVariant_cases (js : Js) (route : Route) (s : ResponseVariant)
    (opts : EligibilityOpts) :
    StandsIn js opts route s (resolveEligibleVariant js route s opts).variant ∨
    ((∀ v, ¬ StandsIn js opts route s v) ∧
      ((resolveEligibleVariant js route s opts).variant = s ∨
        (resolveEligibleVariant js route s opts).variant = stripVariantFault s)) := by
  have hfound : ∀ hway : GivesWay js opts s,
      StandsIn js opts route s ((route.responses.find? (siblingEligible js opts s)).getD s) ∨
      ((∀ v, ¬ StandsIn js opts route s v) ∧
        (route.responses.find? (siblingEligible js opts s)).getD s = s) := by
    intro hway
    cases hfind : route.responses.find? (siblingEligible js opts s) with
    | some v => exact Or.inl ⟨hway, find?_eq_some_iff_firstOf.mp hfind⟩
    | none =>
        refine Or.inr ⟨fun v hv => ?_, rfl⟩
        rw [find?_eq_some_iff_firstOf.mpr hv.2] at hfind
        cases hfind
  unfold resolveEligibleVariant
  rcases isVariantEligible_cases js s opts.matchCount opts.now opts.probabilityRoll with
    ⟨hnone, hex, hexp, hmiss⟩ | ⟨reason, hreason, htext, hlimit⟩ |
      ⟨reason, hreason, htext, hex, hexp, hmiss⟩
  · rw [hnone]
    refine Or.inr ⟨fun v hv => ?_, Or.inl rfl⟩
    rcases hv.1 with h | h | h
    · exact hex h
    · exact hexp h
    · exact hmiss h.1
  · rw [hreason]
    simp only [htext, Bool.false_and, Bool.false_eq_true, if_false]
    rcases hfound (hlimit.imp id Or.inl) with h | h
    · exact Or.inl h
    · exact Or.inr ⟨h.1, Or.inl h.2⟩
  · rw [hreason]
    simp only [htext, Bool.true_and, Bool.and_eq_true, Bool.not_eq_true']
    split
    next hcond =>
      refine Or.inr ⟨fun v hv => ?_, Or.inr rfl⟩
      rcases hv.1 with h | h | h
      · exact hex h
      · exact hexp h
      · rcases h.2 with hd | hc
        · rw [hd] at hcond
          exact absurd hcond.1 (by decide)
        · rw [hc] at hcond
          exact absurd hcond.2 (by decide)
    next hcond =>
      have hway : GivesWay js opts s := by
        refine Or.inr (Or.inr ⟨hmiss, ?_⟩)
        cases hd : s.isDefault with
        | true => exact Or.inl rfl
        | false =>
            cases hc : s.hasConditions with
            | false => exact Or.inr rfl
            | true => exact absurd ⟨hd, hc⟩ hcond
      rcases hfound hway with h | h
      · exact Or.inl h
      · exact Or.inr ⟨h.1, Or.inl h.2⟩

/-- The conditions that a variant has hold. -/
def Respected (js : Js) (matchers : Matchers) (request : CapturedRequest) (pathParams : Params)
    (v : ResponseVariant) : Prop :=
  v.isDefault = false → v.hasConditions = true → v.conditionsHold js matchers request pathParams = true

/-- The state that a variant requires is the current one, or there is none yet. -/
def AllowedIn (current : String) (v : ResponseVariant) : Prop :=
  ∀ required, v.currentState = some required → required ≠ "" → required = current ∨ current = ""

theorem respected_strip {pathParams : Params} :
    Respected js matchers request pathParams (stripVariantFault s) ↔
      Respected js matchers request pathParams s := by
  unfold stripVariantFault
  split <;> exact Iff.rfl

theorem allowedIn_strip {current : String} :
    AllowedIn current (stripVariantFault s) ↔ AllowedIn current s := by
  unfold stripVariantFault
  split <;> exact Iff.rfl

/-- What holds of whoever answers: of the sibling, or of the selected variant where
none stands in. -/
theorem resolveEligibleVariant_iff {P : ResponseVariant → Prop} (js : Js) (route : Route)
    (s : ResponseVariant) (opts : EligibilityOpts) (hstrip : ∀ v, P (stripVariantFault v) ↔ P v) :
    P (resolveEligibleVariant js route s opts).variant ↔
      (∀ v, StandsIn js opts route s v → P v) ∧ ((∀ v, ¬ StandsIn js opts route s v) → P s) := by
  rcases resolveEligibleVariant_cases js route s opts with hin | ⟨hnone, heq⟩
  · constructor
    · intro hP
      refine ⟨fun v hv => ?_, fun hnone => absurd hin (hnone _)⟩
      have hfind := find?_eq_some_iff_firstOf.mpr hv.2
      rw [find?_eq_some_iff_firstOf.mpr hin.2] at hfind
      rwa [← Option.some.inj hfind]
    · exact fun h => h.1 _ hin
  · have hself : P (resolveEligibleVariant js route s opts).variant ↔ P s := by
      rcases heq with heq | heq
      · rw [heq]
      · rw [heq, hstrip]
    rw [hself]
    exact ⟨fun hP => ⟨fun v hv => absurd hv (hnone v), fun _ => hP⟩, fun h => h.2 hnone⟩

/-! ### Rules -/

/-- Its conditions select the variant. -/
def matchesRules (js : Js) (matchers : Matchers) (request : CapturedRequest) (pathParams : Params)
    (v : ResponseVariant) : Bool :=
  !v.isDefault && v.hasConditions && v.conditionsHold js matchers request pathParams

/-- The first variant whose conditions hold, else the first default, else the first. -/
def ChosenByRules (js : Js) (matchers : Matchers) (route : Route) (request : CapturedRequest)
    (pathParams : Params) (s : ResponseVariant) : Prop :=
  FirstOf (matchesRules js matchers request pathParams) route.enabledResponses s ∨
  ((∀ v ∈ route.enabledResponses, matchesRules js matchers request pathParams v = false) ∧
    (FirstOf (·.isDefault) route.enabledResponses s ∨
      ((∀ v ∈ route.enabledResponses, v.isDefault = false) ∧
        route.enabledResponses.head? = some s)))

theorem find?_eq_none_iff {α : Type} {test : α → Bool} {l : List α} :
    l.find? test = none ↔ ∀ x ∈ l, test x = false := by
  rw [List.find?_eq_none]
  exact ⟨fun h x hx => Bool.eq_false_iff.mpr (h x hx), fun h x hx => Bool.eq_false_iff.mp (h x hx)⟩

theorem selectRulesResponse_iff : selectRulesResponse js matchers route request basePath = some s ↔
    ChosenByRules js matchers route request (routeParams js route request basePath) s := by
  unfold selectRulesResponse ChosenByRules
  dsimp only
  rw [← find?_eq_some_iff_firstOf, ← find?_eq_some_iff_firstOf, ← find?_eq_none_iff, ← find?_eq_none_iff]
  show _ ↔ route.enabledResponses.find? (fun v => !v.isDefault && v.hasConditions &&
    v.conditionsHold js matchers request (routeParams js route request basePath)) = some s ∨
      (route.enabledResponses.find? (fun v => !v.isDefault && v.hasConditions &&
        v.conditionsHold js matchers request (routeParams js route request basePath)) = none ∧ _)
  split
  next conditional hfind => simp [hfind]
  next hfind =>
    rw [hfind]
    split
    next v hdefault => simp [hdefault]
    next hdefault => simp [hdefault]

/-- Nothing but the order of the variants selects the variant, and it has conditions. -/
def OnlyFirst (js : Js) (matchers : Matchers) (route : Route) (request : CapturedRequest)
    (pathParams : Params) (s : ResponseVariant) : Prop :=
  route.enabledResponses.head? = some s ∧ s.hasConditions = true ∧
    ∀ v ∈ route.enabledResponses,
      v.isDefault = false ∧ matchesRules js matchers request pathParams v = false

/-- A selected variant has conditions that fail only if just its place selects it. -/
theorem ChosenByRules.respected_iff {pathParams : Params}
    (h : ChosenByRules js matchers route request pathParams s) :
    Respected js matchers request pathParams s ↔
      ¬ OnlyFirst js matchers route request pathParams s := by
  unfold Respected
  rcases h with ⟨before, after, hl, hs, -⟩ | ⟨hnone, hdefault | ⟨hplain, hhead⟩⟩
  · simp only [matchesRules, Bool.and_eq_true, Bool.not_eq_true'] at hs
    refine ⟨fun _ honly => ?_, fun _ _ _ => hs.2⟩
    have := (honly.2.2 s (by rw [hl]; simp)).2
    simp [matchesRules, hs.1.1, hs.1.2, hs.2] at this
  · obtain ⟨before, after, hl, hs, -⟩ := hdefault
    have hdefault : s.isDefault = true := hs
    refine ⟨fun _ honly => ?_, fun _ hd => ?_⟩
    · have := (honly.2.2 s (by rw [hl]; simp)).1
      rw [hdefault] at this
      cases this
    · rw [hdefault] at hd
      cases hd
  · have hmem : s ∈ route.enabledResponses := List.mem_of_mem_head? hhead
    have hfails := hnone s hmem
    simp only [matchesRules, hplain s hmem, Bool.not_false, Bool.true_and] at hfails
    constructor
    · intro hres honly
      rw [honly.2.1, hres (hplain s hmem) honly.2.1] at hfails
      cases hfails
    · intro honly _ hcond
      exact absurd ⟨hhead, hcond, fun v hv => ⟨hplain v hv, hnone v hv⟩⟩ honly

/-! ### States -/

/-- The first variant that requires the current state, else the first that requires
none, else, where there is no state yet, the first. -/
def ChosenByState (route : Route) (current : String) (s : ResponseVariant) : Prop :=
  FirstOf (fun v => v.currentState == some current) route.enabledResponses s ∨
  ((∀ v ∈ route.enabledResponses, (v.currentState == some current) = false) ∧
    (FirstOf (fun v => v.currentState.getD "" == "") route.enabledResponses s ∨
      ((∀ v ∈ route.enabledResponses, (v.currentState.getD "" == "") = false) ∧
        current = "" ∧ route.enabledResponses.head? = some s)))

theorem selectStateResponse_iff : selectStateResponse route scenario stateKey = some s ↔
    ChosenByState route (getState scenario stateKey) s := by
  unfold selectStateResponse ChosenByState
  dsimp only
  rw [← find?_eq_some_iff_firstOf, ← find?_eq_some_iff_firstOf, ← find?_eq_none_iff, ← find?_eq_none_iff]
  split
  next guarded hfind => simp [hfind]
  next hfind =>
    split
    next unguarded hfree => simp [hfind, hfree]
    next hfree => simp [hfind, hfree]

theorem ChosenByState.allowedIn {current : String} (h : ChosenByState route current s) :
    AllowedIn current s := by
  intro required hrequired hne
  rcases h with ⟨-, -, -, hs, -⟩ | ⟨-, ⟨-, -, -, hs, -⟩ | ⟨-, hcurrent, -⟩⟩
  · have heq : s.currentState = some current := beq_iff_eq.mp hs
    rw [hrequired] at heq
    exact Or.inl (Option.some.inj heq)
  · have heq : s.currentState.getD "" = "" := beq_iff_eq.mp hs
    rw [hrequired] at heq
    exact absurd heq hne
  · exact Or.inr hcurrent

/-! ### End to end -/

end Answers

/-! ### A sibling with failing conditions -/

/-- A platform for plain texts, without expressions and dates. -/
def asciiJs : Js where
  regexp := fun _ _ => none
  toLowerCase := fun s => String.ofList (s.toList.map Char.toLower)
  toUpperCase := fun s => String.ofList (s.toList.map Char.toUpper)
  atob := fun _ => none
  localeCompare := fun s t => if s = t then 0 else if s < t then -1 else 1
  date := fun _ => none
  numberText := fun _ => ""
  toFixed := fun _ _ => ""

def noMatchers : Matchers := fun _ _ _ _ _ => false

def headerIs (name value : String) : PredicateGroup :=
  ⟨.all, [.pred ⟨.header, some name, .exact, some (.str value), none⟩]⟩

def once : Behavior := ⟨some 1, none, none, none⟩

def unlimited : Behavior := ⟨none, none, none, none⟩

/-- Gold once, silver, and the default. -/
def plans : Route where
  id := "plans"
  enabled := true
  method := .any
  path := ⟨.exact, "/plan", none⟩
  priority := 10
  predicates := ⟨.all, []⟩
  responseMode := .rules
  responses :=
    [⟨"gold", true, false, some (headerIs "x-plan" "gold"), once, none⟩,
      ⟨"silver", true, false, some (headerIs "x-plan" "silver"), unlimited, none⟩,
      ⟨"default", true, true, none, unlimited, none⟩]

def emptyRequest (method path : String) : CapturedRequest :=
  ⟨method, path, fun _ => none, fun _ => none, fun _ => none, none, none, none⟩

def goldRequest : CapturedRequest :=
  { emptyRequest "GET" "/plan" with
    headers := fun name => if name = "x-plan" then some ["gold"] else none }

/-- An order is paid or shipped; the first answer is given once. -/
def orders : Route where
  id := "orders"
  enabled := true
  method := .any
  path := ⟨.exact, "/order", none⟩
  priority := 10
  predicates := ⟨.all, []⟩
  responseMode := .state
  responses :=
    [⟨"pay", true, false, none, once, some "OPEN"⟩,
      ⟨"ship", true, false, none, unlimited, some "PAID"⟩]

/-- Each variant with a limit has been used up. -/
def usedUp : EligibilityOpts := ⟨1, 0, 0, fun _ => 1, fun _ => 0⟩

end RedFireForge.ApiMock
