/-
# `RedFireForge.ApiMock.ConflictSoundness` — what findings, and their absence, say of requests

A finding `duplicate` or `shadowed` speaks of all requests, and so does the absence of
a finding.  Each is true where the shortcuts of the analyzer make no difference; the
conditions below name them.
-/
import RedFireForge.ApiMock.ConflictAnalyzer
import RedFireForge.ApiMock.ResponseSelector

namespace RedFireForge.ApiMock

open RedFireForge.Lib

/-! ## Equal trees -/

section Equal

theorem sameJson_iff {x y : Option Json} : sameJson x y = true ↔ x = y := by
  unfold sameJson
  rw [decide_eq_true_eq]
  exact (Option.map_injective Json.stringify_injective).eq_iff

theorem predicatesEqual_iff {a b : Predicate} : predicatesEqual a b = true ↔ a = b := by
  obtain ⟨source, selector, operator, expected, options⟩ := a
  obtain ⟨source', selector', operator', expected', options'⟩ := b
  unfold predicatesEqual
  simp only [Bool.and_eq_true, decide_eq_true_eq, sameJson_iff, Predicate.mk.injEq, and_assoc]

mutual
theorem eq_of_conditionsEqual : ∀ {c d : Condition}, conditionsEqual c d = true → c = d
  | .pred p, .pred q, h => congrArg Condition.pred (predicatesEqual_iff.mp h)
  | .group c cs, .group d ds, h => by
      rw [conditionsEqual, Bool.and_eq_true, decide_eq_true_eq] at h
      rw [h.1, eq_of_childrenEqual h.2]
  | .pred _, .group _ _, h => by cases h
  | .group _ _, .pred _, h => by cases h

theorem eq_of_childrenEqual : ∀ {cs ds : List Condition}, childrenEqual cs ds = true → cs = ds
  | [], [], _ => rfl
  | c :: cs, d :: ds, h => by
      rw [childrenEqual, Bool.and_eq_true] at h
      rw [eq_of_conditionsEqual h.1, eq_of_childrenEqual h.2]
  | [], _ :: _, h => by cases h
  | _ :: _, [], h => by cases h
end

theorem eq_of_predicateTreesEqual {a b : PredicateGroup} (h : predicateTreesEqual a b = true) :
    a = b := by
  obtain ⟨combinator, children⟩ := a
  obtain ⟨combinator', children'⟩ := b
  unfold predicateTreesEqual at h
  rw [Bool.and_eq_true, decide_eq_true_eq] at h
  rw [PredicateGroup.mk.injEq]
  exact ⟨h.1, eq_of_childrenEqual h.2⟩

end Equal

/-! ## Trees and truth values -/

section Trees

variable {σ τ : Predicate → Bool}

mutual
theorem holds_congr : ∀ {c : Condition}, (∀ p ∈ flattenCondition c, σ p = τ p) →
    c.holds σ = c.holds τ
  | .pred p, h => h p (by simp [flattenCondition])
  | .group combinator children, h => by
      obtain ⟨hevery, hsome⟩ := @holdList_congr children h
      rw [Condition.holds, Condition.holds, hevery, hsome]

theorem holdList_congr : ∀ {cs : List Condition}, (∀ p ∈ flattenChildren cs, σ p = τ p) →
    holdEvery σ cs = holdEvery τ cs ∧ holdSome σ cs = holdSome τ cs
  | [], _ => ⟨rfl, rfl⟩
  | c :: cs, h => by
      have hc := @holds_congr c (fun p hp => h p (List.mem_append_left _ hp))
      obtain ⟨hevery, hsome⟩ := @holdList_congr cs (fun p hp => h p (List.mem_append_right _ hp))
      rw [holdEvery, holdEvery, holdSome, holdSome, hc, hevery, hsome]
      exact ⟨rfl, rfl⟩
end

theorem groupHolds_congr {g : PredicateGroup} (h : ∀ p ∈ flattenPredicates g, σ p = τ p) :
    g.holds σ = g.holds τ := by
  obtain ⟨hevery, hsome⟩ := holdList_congr h
  rw [PredicateGroup.holds, PredicateGroup.holds, hevery, hsome]

mutual
/-- The predicates that stand under `all` groups only. -/
def required : Condition → List Predicate
  | .pred p => [p]
  | .group .all children => requiredChildren children
  | .group _ _ => []

def requiredChildren : List Condition → List Predicate
  | [] => []
  | c :: cs => required c ++ requiredChildren cs
end

def requiredPredicates (g : PredicateGroup) : List Predicate :=
  if g.combinator = .all then requiredChildren g.children else []

mutual
theorem required_holds : ∀ {c : Condition}, c.holds σ = true → ∀ p ∈ required c, σ p = true
  | .pred p, h, q, hq => by
      rw [List.mem_singleton.mp hq]
      exact h
  | .group .all children, h, q, hq => requiredChildren_holds h q hq
  | .group .any _, _, _, hq => by cases hq
  | .group .not _, _, _, hq => by cases hq
  | .group (.unknown _) _, _, _, hq => by cases hq

theorem requiredChildren_holds : ∀ {cs : List Condition}, holdEvery σ cs = true →
    ∀ p ∈ requiredChildren cs, σ p = true
  | [], _, _, hq => by cases hq
  | c :: cs, h, q, hq => by
      rw [holdEvery, Bool.and_eq_true] at h
      rcases List.mem_append.mp hq with hq | hq
      · exact required_holds h.1 q hq
      · exact requiredChildren_holds h.2 q hq
end

theorem requiredPredicates_holds {g : PredicateGroup} (h : g.holds σ = true) :
    ∀ p ∈ requiredPredicates g, σ p = true := by
  intro p hp
  unfold requiredPredicates at hp
  split at hp
  next hall =>
    rw [PredicateGroup.holds, hall] at h
    exact requiredChildren_holds h p hp
  next => cases hp

end Trees

/-! ## What is reported -/

section Reported

variable {js : Js} {serverId : String} {routes : List Route} {a b : Route} {f : ConflictFinding}

theorem isDuplicate_iff : isDuplicate a b = true → a.method = b.method ∧ a.path.kind = b.path.kind ∧
    a.path.value = b.path.value ∧ a.predicates = b.predicates := by
  intro h
  simp only [isDuplicate, Bool.and_eq_true, decide_eq_true_eq] at h
  exact ⟨h.1.1.1.1, h.1.1.1.2, h.1.1.2, eq_of_predicateTreesEqual h.2⟩

/-- The two routes of a finding, and what was compared for its kind. -/
theorem analyzeRoutePair_cases (h : analyzeRoutePair js serverId a b = some f) :
    ((f.left = a ∧ f.right = b) ∨ (f.left = b ∧ f.right = a)) ∧
    (f.kind = .shadowed → f.right.priority < f.left.priority) ∧
    (f.kind = .duplicate → isDuplicate f.left f.right = true) := by
  unfold analyzeRoutePair at h
  dsimp only at h
  split at h
  next hdup =>
    cases h
    exact ⟨Or.inl ⟨rfl, rfl⟩, (fun hkind => by cases hkind), fun _ => hdup⟩
  next =>
    split at h
    next => cases h
    next =>
      split at h
      next hshadow =>
        cases h
        exact ⟨Or.inl ⟨rfl, rfl⟩, fun _ => hshadow.1, (fun hkind => by cases hkind)⟩
      next =>
        split at h
        next hshadow =>
          cases h
          exact ⟨Or.inr ⟨rfl, rfl⟩, fun _ => hshadow.1, (fun hkind => by cases hkind)⟩
        next =>
          cases h
          refine ⟨Or.inl ⟨rfl, rfl⟩, fun hkind => ?_, fun hkind => ?_⟩
          · dsimp only [makeFinding] at hkind
            split at hkind <;> cases hkind
          · dsimp only [makeFinding] at hkind
            split at hkind <;> cases hkind

theorem mem_analyzePairs (h : f ∈ analyzePairs js serverId routes) :
    ∃ a ∈ routes, ∃ b ∈ routes, analyzeRoutePair js serverId a b = some f := by
  induction routes with
  | nil => cases h
  | cons a routes ih =>
      rcases List.mem_append.mp h with h | h
      · obtain ⟨b, hb, hf⟩ := List.mem_filterMap.mp h
        exact ⟨a, List.mem_cons_self, b, List.mem_cons_of_mem _ hb, hf⟩
      · obtain ⟨c, hc, b, hb, hf⟩ := ih h
        exact ⟨c, List.mem_cons_of_mem _ hc, b, List.mem_cons_of_mem _ hb, hf⟩

/-- A pair of routes is compared in the order of the list. -/
theorem mem_analyzePairs_of_sublist (hab : [a, b].Sublist routes)
    (h : analyzeRoutePair js serverId a b = some f) : f ∈ analyzePairs js serverId routes := by
  induction routes with
  | nil => cases hab
  | cons c routes ih =>
      refine List.mem_append.mpr ?_
      rcases List.sublist_cons_iff.mp hab with hab | ⟨r, hr, hsub⟩
      · exact Or.inr (ih hab)
      · obtain ⟨rfl, rfl⟩ := List.cons.inj hr
        exact Or.inl (List.mem_filterMap.mpr ⟨b, List.singleton_sublist.mp hsub, h⟩)

theorem finding_spec (h : f ∈ analyzeConflicts js routes serverId) :
    (f.left ∈ routes ∧ f.left.enabled = true) ∧ (f.right ∈ routes ∧ f.right.enabled = true) ∧
    (f.kind = .shadowed → f.right.priority < f.left.priority) ∧
    (f.kind = .duplicate → isDuplicate f.left f.right = true) := by
  obtain ⟨a, ha, b, hb, hf⟩ := mem_analyzePairs h
  obtain ⟨hends, hshadowed, hduplicate⟩ := analyzeRoutePair_cases hf
  have ha := List.mem_filter.mp ha
  have hb := List.mem_filter.mp hb
  rcases hends with ⟨hl, hr⟩ | ⟨hl, hr⟩
  · rw [hl, hr] at hshadowed hduplicate ⊢
    exact ⟨ha, hb, hshadowed, hduplicate⟩
  · rw [hl, hr] at hshadowed hduplicate ⊢
    exact ⟨hb, ha, hshadowed, hduplicate⟩

end Reported

/-! ## Paths -/

section Paths

variable {js : Js} {a b : PathMatcher} {path : String}

def PathMatcher.ignoresCase (m : PathMatcher) : Bool := m.caseInsensitive.getD false

/-- The matchers differ in nothing that matching looks at. -/
def SamePath (a b : PathMatcher) : Prop :=
  a.kind = b.kind ∧ a.value = b.value ∧ a.ignoresCase = b.ignoresCase

theorem normalize_congr (h : SamePath a b) :
    SamePath (normalizePathMatcher a) (normalizePathMatcher b) := by
  obtain ⟨hkind, hvalue, hci⟩ := h
  unfold normalizePathMatcher
  rw [hkind, hvalue]
  split
  next => exact ⟨rfl, rfl, hci⟩
  next => exact ⟨hkind, hvalue, hci⟩

theorem matchPath_congr (h : SamePath a b) : matchPath js a path = matchPath js b path := by
  obtain ⟨hkind, hvalue, hci⟩ := normalize_congr h
  unfold PathMatcher.ignoresCase at hci
  unfold matchPath
  dsimp only
  rw [hkind, hvalue, hci]

end Paths

/-! ## Shadowed and duplicate routes -/

section Truth

variable {js : Js} {matchers : Matchers} {routes : List Route} {serverId : String}
  {request : CapturedRequest} {basePath : String} {a b : Route}

/-- Whatever the single predicates say, one of the first groups holds only if one of the
others does. -/
def Follows (first others : List PredicateGroup) : Prop :=
  ∀ σ, (∃ g ∈ first, g.holds σ = true) → ∃ g ∈ others, g.holds σ = true

/-- A path that `b` matches, `a` matches with the same captures, or with any if it reads
none. -/
def CoversPath (js : Js) (a b : Route) : Prop :=
  (∀ path params, matchPath js b.path path = some params → matchPath js a.path path = some params) ∨
  ((∀ path, (matchPath js b.path path).isSome = true → (matchPath js a.path path).isSome = true) ∧
    ∀ g ∈ a.ways, ∀ p ∈ flattenPredicates g, p.source ≠ .pathParam)

theorem coversPath_of_samePath {js : Js} (h : SamePath a.path b.path) : CoversPath js a b := by
  refine Or.inl (fun path params hmatch => ?_)
  rwa [matchPath_congr h]

/-- `a` takes in `b`: by its method, its path, and its groups. -/
structure Covers (js : Js) (a b : Route) : Prop where
  method : a.method = .any ∨ a.method = b.method
  path : CoversPath js a b
  ways : Follows b.ways a.ways

theorem extractValue_congr {p : Predicate} (hp : p.source ≠ .pathParam) (params params' : Params) :
    extractValue js p request params = extractValue js p request params' := by
  unfold extractValue
  split
  next h => exact absurd h hp
  all_goals rfl

theorem verdict_congr {p : Predicate} (hp : p.source ≠ .pathParam) (params params' : Params) :
    verdict js matchers request params p = verdict js matchers request params' p := by
  rw [verdict_eq, verdict_eq, extractValue_congr hp params params']

/-- A route that takes in another matches what that one matches. -/
theorem Covers.overallMatch (h : Covers js a b) (ha : a.enabled = true)
    (hb : (evaluateRoute js matchers request basePath b).overallMatch = true) :
    (evaluateRoute js matchers request basePath a).overallMatch = true := by
  obtain ⟨-, hmethod, params, hpath, hway⟩ := evaluateRoute_iff.mp hb
  obtain ⟨g, hg, hholds⟩ := h.ways _ hway
  refine evaluateRoute_iff.mpr ⟨ha, ?_, ?_⟩
  · rcases h.method with hany | heq
    · rw [hany]
      rfl
    · rwa [heq]
  · rcases h.path with hsame | ⟨hcovers, hreads⟩
    · exact ⟨params, hsame _ _ hpath, g, hg, hholds⟩
    · obtain ⟨params', hparams'⟩ :=
        Option.isSome_iff_exists.mp (hcovers _ (Option.isSome_iff_exists.mpr ⟨params, hpath⟩))
      refine ⟨params', hparams', g, hg, ?_⟩
      rw [groupHolds_congr (fun p hp => verdict_congr (hreads g hg p hp) params' params)]
      exact hholds

/-- What the routes of a duplicate may still differ in: the case of the path, and the
conditions of their variants. -/
structure AlikeBesides (a b : Route) : Prop where
  path : a.path.ignoresCase = b.path.ignoresCase
  left : Follows a.ways.tail b.ways
  right : Follows b.ways.tail a.ways

theorem follows_of_tail (htree : a.predicates = b.predicates) (h : Follows a.ways.tail b.ways) :
    Follows a.ways b.ways := by
  rintro σ ⟨g, hg, hholds⟩
  rcases List.mem_cons.mp (show g ∈ a.predicates :: a.ways.tail from hg) with rfl | hg
  · exact ⟨b.predicates, List.mem_cons_self, by rwa [← htree]⟩
  · exact h σ ⟨g, hg, hholds⟩

theorem AlikeBesides.covers (js : Js) (h : AlikeBesides a b) (hdup : isDuplicate a b = true) :
    Covers js a b ∧ Covers js b a := by
  obtain ⟨hmethod, hkind, hvalue, htree⟩ := isDuplicate_iff hdup
  have hpath : SamePath a.path b.path := ⟨hkind, hvalue, h.path⟩
  have hpath' : SamePath b.path a.path := ⟨hkind.symm, hvalue.symm, h.path.symm⟩
  exact ⟨⟨Or.inr hmethod, coversPath_of_samePath hpath, follows_of_tail htree.symm h.right⟩,
    ⟨Or.inr hmethod.symm, coversPath_of_samePath hpath', follows_of_tail htree h.left⟩⟩

end Truth

/-! ### Plans with and without a header -/

def planRoute (id value : String) (priority : ℚ) (caseInsensitive : Option Bool)
    (predicates : PredicateGroup) : Route where
  id
  enabled := true
  method := .any
  path := ⟨.exact, value, caseInsensitive⟩
  priority
  predicates
  responseMode := .sequence
  responses := []

def goldFirst : Route := planRoute "gold" "/plan" 20 none (headerIs "x-plan" "gold")

def everyone : Route := planRoute "everyone" "/plan" 10 none ⟨.all, []⟩

def everyoneFirst : Route := planRoute "everyone-first" "/plan" 20 none ⟨.all, []⟩

def everyoneFolded : Route := planRoute "everyone-folded" "/plan" 10 (some true) ⟨.all, []⟩

theorem everyoneFirst_covers : Covers asciiJs everyoneFirst goldFirst where
  method := Or.inl rfl
  path := coversPath_of_samePath ⟨rfl, rfl, rfl⟩
  ways := fun _ _ => ⟨⟨.all, []⟩, List.mem_cons_self, rfl⟩

theorem everyone_alike : AlikeBesides everyone everyone where
  path := rfl
  left := by
    rintro σ ⟨g, hg, -⟩
    cases hg
  right := by
    rintro σ ⟨g, hg, -⟩
    cases hg

end RedFireForge.ApiMock
