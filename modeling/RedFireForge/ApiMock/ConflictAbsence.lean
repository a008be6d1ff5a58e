/-
# `RedFireForge.ApiMock.ConflictAbsence` — what the absence of a finding says of requests

A pair of routes that is not reported has a dimension that is called disjoint: a method,
a path, or a pair of predicates.  No request matches both routes if that dimension was
judged by what the evaluator does; the conditions name where the two part.
-/
import RedFireForge.ApiMock.ConflictSoundness

namespace RedFireForge.ApiMock

open RedFireForge.Lib

/-! ## Paths -/

section Literals

variable {js : Js} {a : PathMatcher} {path : String}

/-- An exact path that is matched as it stands. -/
def Literal (m : PathMatcher) : Prop :=
  m.kind = .exact ∧ inferPathKind m.value = .exact ∧ m.ignoresCase = false

theorem sameText_iff {s t : String} : sameText js s t false = true ↔ s = t := by
  unfold sameText
  rw [if_neg Bool.false_ne_true, beq_iff_eq]

theorem normalize_other (h : a.kind ≠ .exact) : normalizePathMatcher a = a := if_neg h

theorem normalize_literal (h : Literal a) : normalizePathMatcher a = a := by
  rw [normalizePathMatcher, if_pos h.1, h.2.1, ← h.1]

theorem matchPath_literal (h : Literal a) {params : Params} :
    matchPath js a path = some params ↔ path = a.value ∧ params = [] := by
  unfold matchPath
  rw [normalize_literal h]
  dsimp only
  have hci : a.caseInsensitive.getD false = false := h.2.2
  rw [h.1, hci]
  have htext := @sameText_iff js a.value path
  dsimp only
  split
  next hsame =>
    rw [htext.mp hsame, Option.some.injEq]
    simp [eq_comm]
  next hsame =>
    have hne : path ≠ a.value := fun h => hsame (htext.mpr h.symm)
    simp [hne]

end Literals

section DisjointPaths

variable {js : Js} {a b : PathMatcher} {path : String} {params params' : Params}

/-- An exact path is matched as it stands, and case is not ignored where the analyzer
compares texts itself or runs an expression itself. -/
structure TrustedPaths (a b : PathMatcher) : Prop where
  left : a.kind = .exact → Literal a
  right : b.kind = .exact → Literal b
  leftRegex : a.kind = .regex → a.ignoresCase = false
  rightRegex : b.kind = .regex → b.ignoresCase = false
  templates : a.kind = .parameterized → b.kind = .parameterized →
    (splitPath a.value).length ≠ (splitPath b.value).length ∨
      (a.ignoresCase = false ∧ b.ignoresCase = false)

theorem matchPath_regex (hkind : a.kind = .regex) (hci : a.ignoresCase = false)
    (h : matchPath js a path = some params) :
    ∃ test, js.regexp a.value "" = some test ∧ test path = true := by
  unfold matchPath at h
  rw [normalize_other (by rw [hkind]; decide)] at h
  dsimp only at h
  rw [hkind, show a.caseInsensitive.getD false = false from hci] at h
  dsimp only at h
  split at h
  next htest =>
    unfold testRegex at htest
    rw [if_neg Bool.false_ne_true] at htest
    cases hregexp : js.regexp a.value "" with
    | none =>
        rw [hregexp] at htest
        cases htest
    | some test =>
        rw [hregexp] at htest
        exact ⟨test, rfl, htest⟩
  next => cases h

theorem matchPath_parameterized (hkind : a.kind = .parameterized) :
    matchPath js a path = matchParameterizedPath js a.value path a.ignoresCase := by
  unfold matchPath
  rw [normalize_other (by rw [hkind]; decide)]
  dsimp only
  rw [hkind]
  rfl

theorem analyzeLiteral_sound {does doesNot : String}
    (h : (analyzeLiteral js a b does doesNot).result = .disjoint) (hb : Literal b)
    (hmatch : matchPath js a path = some params) : matchPath js b path ≠ some params' := by
  intro hmatch'
  obtain ⟨rfl, -⟩ := (matchPath_literal hb).mp hmatch'
  unfold analyzeLiteral at h
  rw [hmatch] at h
  cases h

theorem analyzeRegexLiteral_sound (h : (analyzeRegexLiteral js a b).result = .disjoint)
    (hkind : a.kind = .regex) (hci : a.ignoresCase = false) (hb : Literal b)
    (hmatch : matchPath js a path = some params) : matchPath js b path ≠ some params' := by
  intro hmatch'
  obtain ⟨rfl, -⟩ := (matchPath_literal hb).mp hmatch'
  obtain ⟨test, hregexp, htest⟩ := matchPath_regex hkind hci hmatch
  unfold analyzeRegexLiteral at h
  rw [hregexp] at h
  dsimp only at h
  rw [if_pos htest] at h
  cases h

theorem matchParts_cons {ci : Bool} {pp rp : String} {pattern path : List String} {x : Params}
    (h : matchParts js ci (pp :: pattern) (rp :: path) x = some params) :
    (isParam pp = true ∨ sameText js pp rp ci = true) ∧
      ∃ y, matchParts js ci pattern path y = some params := by
  unfold matchParts at h
  split at h
  next hparam => exact ⟨Or.inl hparam, _, h⟩
  next =>
    split at h
    next hsame => exact ⟨Or.inr hsame, _, h⟩
    next => cases h

theorem matchParts_length {ci : Bool} : ∀ {pattern path : List String} {x params : Params},
    matchParts js ci pattern path x = some params → pattern.length = path.length
  | [], [], _, _, _ => rfl
  | [], _ :: _, _, _, h => by cases h
  | _ :: _, [], _, _, h => by cases h
  | _ :: _, _ :: _, _, _, h => by
      obtain ⟨-, _, hrest⟩ := matchParts_cons h
      exact congrArg Nat.succ (matchParts_length hrest)

/-- Segments that both templates match nowhere differ as literals. -/
theorem matchParts_agree : ∀ {as bs path : List String} {x y params params' : Params},
    matchParts js false as path x = some params → matchParts js false bs path y = some params' →
      literalDifference as bs = none
  | [], _, _, _, _, _, _, _, _ => by rw [literalDifference.eq_def]
  | _ :: _, [], _, _, _, _, _, _, _ => by rw [literalDifference.eq_def]
  | _ :: _, _ :: _, [], _, _, _, _, h, _ => by cases h
  | ap :: as, bp :: bs, rp :: path, x, y, params, params', ha, hb => by
      obtain ⟨hap, _, has⟩ := matchParts_cons ha
      obtain ⟨hbp, _, hbs⟩ := matchParts_cons hb
      unfold literalDifference
      rw [if_neg, matchParts_agree has hbs]
      intro h
      simp only [Bool.and_eq_true, Bool.not_eq_true', bne_iff_ne] at h
      obtain ⟨⟨hlit, hlit'⟩, hne⟩ := h
      rw [hlit] at hap
      rw [hlit'] at hbp
      have hap := sameText_iff.mp (hap.resolve_left Bool.false_ne_true)
      have hbp := sameText_iff.mp (hbp.resolve_left Bool.false_ne_true)
      exact hne (hap.trans hbp.symm)

theorem analyzeTemplates_sound (h : (analyzeTemplates a b).result = .disjoint)
    (ha : a.kind = .parameterized) (hb : b.kind = .parameterized)
    (htrusted : (splitPath a.value).length ≠ (splitPath b.value).length ∨
      (a.ignoresCase = false ∧ b.ignoresCase = false))
    (hmatch : matchPath js a path = some params) : matchPath js b path ≠ some params' := by
  intro hmatch'
  rw [matchPath_parameterized ha] at hmatch
  rw [matchPath_parameterized hb] at hmatch'
  have hlen := (matchParts_length hmatch).trans (matchParts_length hmatch').symm
  obtain ⟨hcia, hcib⟩ := htrusted.resolve_left (not_not.mpr hlen)
  rw [hcia] at hmatch
  rw [hcib] at hmatch'
  unfold analyzeTemplates at h
  rw [if_neg (not_not.mpr hlen), matchParts_agree hmatch hmatch'] at h
  cases h

/-- No path matches both of two paths that are found disjoint and can be trusted. -/
theorem analyzePathDimension_sound {a b : Route}
    (h : (analyzePathDimension js a b).result = .disjoint) (htrusted : TrustedPaths a.path b.path)
    (hmatch : matchPath js a.path path = some params) : matchPath js b.path path ≠ some params' := by
  unfold analyzePathDimension at h
  split at h
  next ha hb =>
    split at h
    next => cases h
    next hne =>
      intro hmatch'
      obtain ⟨rfl, -⟩ := (matchPath_literal (htrusted.left ha)).mp hmatch
      exact hne ((matchPath_literal (htrusted.right hb)).mp hmatch').1
  next ha hb => exact analyzeLiteral_sound h (htrusted.right hb) hmatch
  next ha hb =>
    exact fun hmatch' => analyzeLiteral_sound h (htrusted.left ha) hmatch' hmatch
  next ha hb => exact analyzeLiteral_sound h (htrusted.right hb) hmatch
  next ha hb =>
    exact fun hmatch' => analyzeLiteral_sound h (htrusted.left ha) hmatch' hmatch
  next ha hb =>
    exact analyzeRegexLiteral_sound h ha (htrusted.leftRegex ha) (htrusted.right hb) hmatch
  next ha hb =>
    exact fun hmatch' =>
      analyzeRegexLiteral_sound h hb (htrusted.rightRegex hb) (htrusted.left ha) hmatch' hmatch
  next => cases h
  next => cases h
  next ha hb =>
    exact analyzeTemplates_sound h ha hb (htrusted.templates ha hb) hmatch
  next => cases h

end DisjointPaths

/-! ## Predicates -/

section Pairs

variable {js : Js} {matchers : Matchers} {request : CapturedRequest} {params params' : Params}
  {a b p : Predicate} {value : Option Value} {contentType : Option String}

/-- What a predicate says of a value. -/
def passes (js : Js) (matchers : Matchers) (contentType : Option String) (value : Option Value)
    (p : Predicate) : Bool :=
  Bool.xor (negated p.options)
    (evaluateOperator js matchers p.operator value p.expected p.options contentType)

/-- The source gives one value at most. -/
def Source.Single (s : Source) : Prop := s ≠ .query ∧ s ≠ .header

/-- A value is compared with the text that was expected, as it stands. -/
structure PlainText (p : Predicate) : Prop where
  asked : negated p.options = false
  cased : p.operator = .contains ∨ ignoresCase p.options = false
  given : p.expected ≠ none ∧ p.expected ≠ some .null

/-- The analyzer judges the two predicates by what they test. -/
inductive TrustedPair (a b : Predicate) : Prop
  | presence
      (operators : (a.operator = .present ∧ b.operator = .absent) ∨
        (a.operator = .absent ∧ b.operator = .present))
      (alike : negated a.options = negated b.options)
  | negation
      (operators : a.operator = .exact ∧ b.operator = .exact)
      (options : negated a.options = true ∧ negated b.options = false)
      (expected : a.expected = b.expected)
      (cased : ignoresCase b.options = true → ignoresCase a.options = true)
  | texts
      (single : a.source.Single)
      (left : PlainText a) (right : PlainText b)
      (differ : a.operator = .exact → b.operator = .exact → str a.expected ≠ str b.expected)

theorem stringOf_given (h : p.expected ≠ none ∧ p.expected ≠ some .null) :
    stringOf p.expected = str p.expected := by
  cases hexpected : p.expected with
  | none => exact absurd hexpected h.1
  | some j =>
      cases j with
      | null => exact absurd hexpected h.2
      | _ => rfl

/-- A value, or none. -/
theorem extractValue_single (h : p.source.Single) :
    ∃ text : Option String, extractValue js p request params = text.map .one := by
  unfold extractValue
  cases hsource : p.source with
  | query => exact absurd hsource h.1
  | header => exact absurd hsource h.2
  | transport => exact ⟨none, rfl⟩
  | _ => exact ⟨_, rfl⟩

theorem extractValue_same (hsource : a.source = b.source) (hselector : a.selector = b.selector)
    (hparams : a.source = .pathParam → params = params') :
    extractValue js a request params = extractValue js b request params' := by
  unfold extractValue
  rw [← hsource, ← hselector]
  cases hs : a.source with
  | pathParam => rw [hparams hs]
  | _ => rfl

theorem anyValue_one {test : String → Bool} {text : Option String} :
    anyValue (text.map .one) test = true ↔ ∃ v, text = some v ∧ test v = true := by
  cases text with
  | none => simp [anyValue, Value.all]
  | some v => simp [anyValue, Value.all]

theorem present_eq_not_absent : evaluateOperator js matchers .present value p.expected p.options
    contentType = !evaluateOperator js matchers .absent value b.expected b.options contentType := by
  unfold evaluateOperator
  rcases value with - | v
  · rfl
  · cases hv : (some v == some (Value.one "")) <;> simp_all

theorem sameText_folded {s t : String} {ci ci' : Bool} (hci : ci = true → ci' = true)
    (h : sameText js s t ci = true) : sameText js s t ci' = true := by
  cases ci with
  | true => rwa [hci rfl]
  | false =>
      rw [sameText_iff.mp h]
      unfold sameText
      cases ci' <;> simp

theorem passes_plain (h : PlainText p) : passes js matchers contentType value p =
    evaluateOperator js matchers p.operator value p.expected p.options contentType := by
  unfold passes
  rw [h.asked, Bool.false_xor]

theorem passes_exact (h : PlainText p) (hop : p.operator = .exact) {text : Option String}
    (hpass : passes js matchers contentType (text.map .one) p = true) :
    text = some (str p.expected) := by
  rw [passes_plain h, hop] at hpass
  obtain ⟨v, htext, hsame⟩ := anyValue_one.mp hpass
  have hcased := h.cased.resolve_left (by rw [hop]; decide)
  rw [hcased] at hsame
  rw [htext, sameText_iff.mp hsame]

theorem passes_contains (h : PlainText p) (hop : p.operator = .contains) {text : String}
    (hpass : passes js matchers contentType ((some text).map .one) p = true) :
    includes text (str p.expected) = true := by
  rw [passes_plain h, hop] at hpass
  obtain ⟨v, htext, hincludes⟩ := anyValue_one.mp hpass
  rwa [Option.some.inj htext]

theorem passes_regex (h : PlainText p) (hop : p.operator = .regex) {text : String}
    (hpass : passes js matchers contentType ((some text).map .one) p = true) :
    ∃ test, js.regexp (str p.expected) "" = some test ∧ test text = true := by
  rw [passes_plain h, hop] at hpass
  obtain ⟨v, htext, htest⟩ := anyValue_one.mp hpass
  have hcased := h.cased.resolve_left (by rw [hop]; decide)
  rw [hcased, ← Option.some.inj htext] at htest
  unfold testRegex at htest
  rw [if_neg Bool.false_ne_true] at htest
  cases hregexp : js.regexp (str p.expected) "" with
  | none =>
      rw [hregexp] at htest
      cases htest
  | some test =>
      rw [hregexp] at htest
      exact ⟨test, rfl, htest⟩

theorem result_ite {c : Prop} [Decidable c] {x y : DimResult} {r : DimKind}
    (h : (if c then x else y).result = r) : (c ∧ x.result = r) ∨ (¬ c ∧ y.result = r) := by
  split at h
  next hc => exact Or.inl ⟨hc, h⟩
  next hc => exact Or.inr ⟨hc, h⟩

theorem analyzeContains_disjoint {exact sub : Predicate}
    (h : (analyzeContains a exact sub).result = .disjoint) :
    includes (stringOf exact.expected) (stringOf sub.expected) = false := by
  rcases result_ite h with ⟨-, h⟩ | ⟨hnot, -⟩
  · cases h
  · exact Bool.eq_false_iff.mpr hnot

theorem analyzeRegex_disjoint {regex exact : Predicate}
    (h : (analyzeRegex js a regex exact).result = .disjoint) :
    ∃ test, js.regexp (stringOf regex.expected) "" = some test ∧
      test (stringOf exact.expected) = false := by
  unfold analyzeRegex at h
  split at h
  next test hregexp =>
    rcases result_ite h with ⟨-, h⟩ | ⟨hnot, -⟩
    · cases h
    · exact ⟨test, hregexp, Bool.eq_false_iff.mpr hnot⟩
  next => cases h

/-- The pairs of operators that can be found disjoint, and by which test. -/
theorem analyzePredicatePairDimension_cases
    (h : (analyzePredicatePairDimension js a b).result = .disjoint) :
    (a.operator = .present ∧ b.operator = .absent) ∨ (a.operator = .absent ∧ b.operator = .present) ∨
    (a.operator = .exact ∧ b.operator = .exact) ∨
    (a.operator = .exact ∧ b.operator = .contains ∧
      includes (stringOf a.expected) (stringOf b.expected) = false) ∨
    (a.operator = .contains ∧ b.operator = .exact ∧
      includes (stringOf b.expected) (stringOf a.expected) = false) ∨
    (a.operator = .regex ∧ b.operator = .exact ∧ ∃ test,
      js.regexp (stringOf a.expected) "" = some test ∧ test (stringOf b.expected) = false) ∨
    (a.operator = .exact ∧ b.operator = .regex ∧ ∃ test,
      js.regexp (stringOf b.expected) "" = some test ∧ test (stringOf a.expected) = false) := by
  rcases result_ite h with ⟨hop, -⟩ | ⟨-, h⟩
  · exact Or.inl hop
  rcases result_ite h with ⟨hop, -⟩ | ⟨-, h⟩
  · exact Or.inr (Or.inl hop)
  rcases result_ite h with ⟨-, h⟩ | ⟨-, h⟩
  · cases h
  rcases result_ite h with ⟨-, h⟩ | ⟨-, h⟩
  · cases h
  rcases result_ite h with ⟨hop, -⟩ | ⟨-, h⟩
  · exact Or.inr (Or.inr (Or.inl ⟨hop.2.2.1, hop.2.2.2.1⟩))
  rcases result_ite h with ⟨hop, -⟩ | ⟨-, h⟩
  · exact Or.inr (Or.inr (Or.inl hop))
  rcases result_ite h with ⟨hop, h⟩ | ⟨-, h⟩
  · exact Or.inr (Or.inr (Or.inr (Or.inl ⟨hop.1, hop.2, analyzeContains_disjoint h⟩)))
  rcases result_ite h with ⟨hop, h⟩ | ⟨-, h⟩
  · exact Or.inr (Or.inr (Or.inr (Or.inr (Or.inl ⟨hop.1, hop.2, analyzeContains_disjoint h⟩))))
  rcases result_ite h with ⟨hop, h⟩ | ⟨-, h⟩
  · exact Or.inr (Or.inr (Or.inr (Or.inr (Or.inr (Or.inl
      ⟨hop.1, hop.2, analyzeRegex_disjoint h⟩)))))
  rcases result_ite h with ⟨hop, h⟩ | ⟨-, h⟩
  · exact Or.inr (Or.inr (Or.inr (Or.inr (Or.inr (Or.inr
      ⟨hop.1, hop.2, analyzeRegex_disjoint h⟩)))))
  rcases result_ite h with ⟨-, h⟩ | ⟨-, h⟩
  · cases h
  rcases result_ite h with ⟨-, h⟩ | ⟨-, h⟩
  · cases h
  · cases h

section Texts

variable {exact other : Predicate} {text : Option String} {contentType : Option String}

/-- A text that is expected exactly does not contain what it was found not to. -/
theorem contains_sound (hexact : PlainText exact) (hother : PlainText other)
    (hop : exact.operator = .exact) (hop' : other.operator = .contains)
    (hnot : includes (stringOf exact.expected) (stringOf other.expected) = false)
    (he : passes js matchers contentType (text.map .one) exact = true)
    (ho : passes js matchers contentType (text.map .one) other = true) : False := by
  rw [passes_exact hexact hop he] at ho
  have hincludes := passes_contains hother hop' ho
  rw [stringOf_given hexact.given, stringOf_given hother.given, hincludes] at hnot
  cases hnot

theorem regex_sound (hexact : PlainText exact) (hother : PlainText other)
    (hop : exact.operator = .exact) (hop' : other.operator = .regex)
    (hnot : ∃ test, js.regexp (stringOf other.expected) "" = some test ∧
      test (stringOf exact.expected) = false)
    (he : passes js matchers contentType (text.map .one) exact = true)
    (ho : passes js matchers contentType (text.map .one) other = true) : False := by
  rw [passes_exact hexact hop he] at ho
  obtain ⟨test, hregexp, htest⟩ := passes_regex hother hop' ho
  obtain ⟨test', hregexp', hnot⟩ := hnot
  rw [stringOf_given hother.given, hregexp] at hregexp'
  rw [stringOf_given hexact.given, ← Option.some.inj hregexp', htest] at hnot
  cases hnot

end Texts

/-- Two texts that are found apart are not both tested with success. -/
theorem texts_sound (h : (analyzePredicatePairDimension js a b).result = .disjoint)
    (hleft : PlainText a) (hright : PlainText b)
    (hdiffer : a.operator = .exact → b.operator = .exact → str a.expected ≠ str b.expected)
    {text : Option String} (ha : passes js matchers contentType (text.map .one) a = true)
    (hb : passes js matchers contentType (text.map .one) b = true) : False := by
  rcases analyzePredicatePairDimension_cases h with hop | hop | hop | hop | hop | hop | hop
  · rw [passes_plain hleft, hop.1, present_eq_not_absent (b := b), ← hop.2, ← passes_plain hright,
      hb] at ha
    cases ha
  · rw [passes_plain hright, hop.2, present_eq_not_absent (b := a), ← hop.1, ← passes_plain hleft,
      ha] at hb
    cases hb
  · have htexts := (passes_exact hleft hop.1 ha).symm.trans (passes_exact hright hop.2 hb)
    exact hdiffer hop.1 hop.2 (Option.some.inj htexts)
  · exact contains_sound hleft hright hop.1 hop.2.1 hop.2.2 ha hb
  · exact contains_sound hright hleft hop.2.1 hop.1 hop.2.2 hb ha
  · exact regex_sound hright hleft hop.2.1 hop.1 hop.2.2 hb ha
  · exact regex_sound hleft hright hop.1 hop.2.1 hop.2.2 ha hb

/-- No value passes both of two predicates that are found disjoint and can be trusted. -/
theorem analyzePredicatePairDimension_sound
    (h : (analyzePredicatePairDimension js a b).result = .disjoint) (htrusted : TrustedPair a b)
    (hvalue : a.source.Single → ∃ text : Option String, value = text.map .one)
    (ha : passes js matchers contentType value a = true) :
    passes js matchers contentType value b = false := by
  rw [← Bool.not_eq_true]
  intro hb
  cases htrusted with
  | presence operators alike =>
      unfold passes at ha hb
      rw [alike] at ha
      rcases operators with ⟨hopa, hopb⟩ | ⟨hopa, hopb⟩
      · rw [hopa, present_eq_not_absent (b := b)] at ha
        rw [hopb] at hb
        rw [Bool.xor_not, hb] at ha
        cases ha
      · rw [hopb, present_eq_not_absent (b := a)] at hb
        rw [hopa] at ha
        rw [Bool.xor_not, ha] at hb
        cases hb
  | negation operators options expected cased =>
      unfold passes at ha hb
      rw [operators.1, options.1, Bool.true_xor, Bool.not_eq_true'] at ha
      rw [operators.2, options.2, Bool.false_xor] at hb
      obtain ⟨v, hv, hsame⟩ := List.any_eq_true.mp hb
      have hfolded := sameText_folded cased hsame
      rw [← expected] at hfolded
      exact Bool.false_ne_true ((List.any_eq_false.mp ha v hv) hfolded).elim
  | texts single left right differ =>
      obtain ⟨text, rfl⟩ := hvalue single
      exact texts_sound h left right differ ha hb

end Pairs

/-! ## Routes -/

section Routes

variable {js : Js} {matchers : Matchers} {request : CapturedRequest} {basePath serverId : String}
  {params params' : Params} {a b : Route}

/-- A dimension is disjoint, and was judged by what the evaluator does: methods; paths;
or two predicates of the same value that all ways to match the routes require. -/
inductive Trusted (js : Js) (a b : Route) : Prop
  | method (disjoint : (analyzeMethodDimension a b).result = .disjoint)
  | path (disjoint : (analyzePathDimension js a b).result = .disjoint)
      (trusted : TrustedPaths a.path b.path)
  | predicates (ap bp : Predicate) (source : ap.source = bp.source)
      (selector : ap.selector = bp.selector)
      (disjoint : (analyzePredicatePairDimension js ap bp).result = .disjoint)
      (trusted : TrustedPair ap bp)
      (left : ∀ g ∈ a.ways, ap ∈ requiredPredicates g)
      (right : ∀ g ∈ b.ways, bp ∈ requiredPredicates g)
      (captures : ap.source = .pathParam → SamePath a.path b.path)

theorem Method.text_injective : Function.Injective Method.text := by
  intro m n
  cases m <;> cases n <;> decide

theorem analyzeMethodDimension_sound (h : (analyzeMethodDimension a b).result = .disjoint)
    {method : String} (ha : matchMethod js a.method method = true) :
    matchMethod js b.method method = false := by
  rcases result_ite h with ⟨-, h⟩ | ⟨hne, -⟩
  · cases h
  · rw [← Bool.not_eq_true]
    intro hb
    obtain ⟨hanya, hne⟩ := not_or.mp hne
    obtain ⟨hanyb, hne⟩ := not_or.mp hne
    simp only [matchMethod, Bool.or_eq_true, decide_eq_true_eq, beq_iff_eq] at ha hb
    have htext := (ha.resolve_left hanya).trans (hb.resolve_left hanyb).symm
    exact hne (Method.text_injective htext)

theorem verdict_passes (p : Predicate) : verdict js matchers request params p =
    passes js matchers (contentTypeOf request) (extractValue js p request params) p :=
  verdict_eq p

/-- No request passes two required predicates that are found disjoint and can be trusted. -/
theorem required_sound {ap bp : Predicate} (hsource : ap.source = bp.source)
    (hselector : ap.selector = bp.selector)
    (h : (analyzePredicatePairDimension js ap bp).result = .disjoint) (htrusted : TrustedPair ap bp)
    (hparams : ap.source = .pathParam → params = params')
    (ha : verdict js matchers request params ap = true) :
    verdict js matchers request params' bp = false := by
  rw [verdict_passes] at ha ⊢
  rw [← extractValue_same hsource hselector hparams]
  exact analyzePredicatePairDimension_sound h htrusted extractValue_single ha

/-- No request matches both routes of a pair with a dimension that can be trusted. -/
theorem Trusted.apart (h : Trusted js a b)
    (ha : (evaluateRoute js matchers request basePath a).overallMatch = true) :
    (evaluateRoute js matchers request basePath b).overallMatch = false := by
  rw [← Bool.not_eq_true]
  intro hb
  obtain ⟨-, hmethod, params, hpath, g, hg, hholds⟩ := evaluateRoute_iff.mp ha
  obtain ⟨-, hmethod', params', hpath', g', hg', hholds'⟩ := evaluateRoute_iff.mp hb
  cases h with
  | method disjoint =>
      rw [analyzeMethodDimension_sound disjoint hmethod] at hmethod'
      cases hmethod'
  | path disjoint trusted => exact analyzePathDimension_sound disjoint trusted hpath hpath'
  | predicates ap bp source selector disjoint trusted left right captures =>
      have hap := requiredPredicates_holds hholds ap (left g hg)
      have hbp := requiredPredicates_holds hholds' bp (right g' hg')
      have hparams : ap.source = .pathParam → params = params' := by
        intro hcapture
        rw [matchPath_congr (captures hcapture), hpath'] at hpath
        exact (Option.some.inj hpath).symm
      rw [required_sound source selector disjoint trusted hparams hap] at hbp
      cases hbp

theorem analyzeRoutePair_none (h : analyzeRoutePair js serverId a b = none) :
    ∃ d ∈ analyzeDimensions js a b, d.result = .disjoint := by
  unfold analyzeRoutePair at h
  dsimp only at h
  split at h
  next => cases h
  next =>
    split at h
    next hany =>
      obtain ⟨d, hd, hdisjoint⟩ := List.any_eq_true.mp hany
      exact ⟨d, hd, beq_iff_eq.mp hdisjoint⟩
    next =>
      split at h
      next => cases h
      next =>
        split at h
        next => cases h
        next => cases h

/-- Two enabled routes without a finding match no common request, if one of the
dimensions called disjoint can be trusted. -/
theorem no_finding_no_request (js : Js) (matchers : Matchers) (routes : List Route)
    (serverId : String) {a b : Route} (hab : [a, b].Sublist (routes.filter (·.enabled)))
    (hnone : ∀ f ∈ analyzeConflicts js routes serverId,
      ¬ ((f.left = a ∧ f.right = b) ∨ (f.left = b ∧ f.right = a)))
    (htrusted : (∃ d ∈ analyzeDimensions js a b, d.result = .disjoint) → Trusted js a b) :
    ∀ request basePath, ¬ ((evaluateRoute js matchers request basePath a).overallMatch = true ∧
      (evaluateRoute js matchers request basePath b).overallMatch = true) := by
  intro request basePath hboth
  have hpair : analyzeRoutePair js serverId a b = none := by
    cases hfinding : analyzeRoutePair js serverId a b with
    | none => rfl
    | some f =>
        have hmem := mem_analyzePairs_of_sublist hab hfinding
        exact absurd (analyzeRoutePair_cases hfinding).1 (hnone f hmem)
  have htrusted := htrusted (analyzeRoutePair_none hpair)
  have hapart := htrusted.apart hboth.1
  rw [hboth.2] at hapart
  cases hapart

end Routes

/-! ### Plans in cookies and in headers -/

def cookieIs (value : String) : Predicate := ⟨.cookie, some "plan", .exact, some (.str value), none⟩

def goldCookie : Route := planRoute "gold" "/plan" 10 none ⟨.all, [.pred (cookieIs "gold")]⟩

def silverCookie : Route := planRoute "silver" "/plan" 10 none ⟨.all, [.pred (cookieIs "silver")]⟩

theorem cookies_trusted : Trusted asciiJs goldCookie silverCookie := by
  have hplain : ∀ value, PlainText (cookieIs value) := by
    intro value
    exact ⟨rfl, Or.inr rfl, Option.some_ne_none _, by rintro ⟨⟩⟩
  refine .predicates (cookieIs "gold") (cookieIs "silver") rfl rfl rfl ?_ ?_ ?_ ?_
  · exact .texts ⟨by decide, by decide⟩ (hplain "gold") (hplain "silver") (fun _ _ => by decide)
  · intro g hg
    rw [List.mem_singleton.mp (show g ∈ [goldCookie.predicates] from hg)]
    exact List.mem_cons_self
  · intro g hg
    rw [List.mem_singleton.mp (show g ∈ [silverCookie.predicates] from hg)]
    exact List.mem_cons_self
  · intro h
    cases h

def goldCookieRequest : CapturedRequest :=
  { emptyRequest "GET" "/plan" with
    cookies := fun name => if name = "plan" then some "gold" else none }

/-- Two values of a cookie are not reported, and who has one has not the other. -/
theorem no_finding_no_request_cookies :
    (evaluateRoute asciiJs noMatchers goldCookieRequest "" goldCookie).overallMatch = true ∧
    (evaluateRoute asciiJs noMatchers goldCookieRequest "" silverCookie).overallMatch = false := by
  have hgold : (evaluateRoute asciiJs noMatchers goldCookieRequest "" goldCookie).overallMatch = true :=
    by rfl
  refine ⟨hgold, ?_⟩
  rw [← Bool.not_eq_true]
  intro hsilver
  exact no_finding_no_request asciiJs noMatchers [goldCookie, silverCookie] "s" (List.Sublist.refl _)
    (fun f hf => absurd (show f ∈ [] from hf) List.not_mem_nil) (fun _ => cookies_trusted)
    goldCookieRequest "" ⟨hgold, hsilver⟩

/-- Of the gold plan, or of the red team. -/
def goldOrRed : Route := planRoute "gold-or-red" "/plan" 10 none
  ⟨.any, [.pred ⟨.header, some "x-plan", .exact, some (.str "gold"), none⟩,
    .pred ⟨.header, some "x-team", .exact, some (.str "red"), none⟩]⟩

def silver : Route := planRoute "silver" "/plan" 10 none (headerIs "x-plan" "silver")

def silverRedRequest : CapturedRequest :=
  { emptyRequest "GET" "/plan" with
    headers := fun name => if name = "x-plan" then some ["silver"] else
      if name = "x-team" then some ["red"] else none }

/-- The alternatives of a route are compared as if it required each, and no finding is
reported for two routes that the same request matches. -/
theorem silver_red_matches_both :
    (∀ f ∈ analyzeConflicts asciiJs [goldOrRed, silver] "s",
      ¬ ((f.left = goldOrRed ∧ f.right = silver) ∨ (f.left = silver ∧ f.right = goldOrRed))) ∧
    (evaluateRoute asciiJs noMatchers silverRedRequest "" goldOrRed).overallMatch = true ∧
    (evaluateRoute asciiJs noMatchers silverRedRequest "" silver).overallMatch = true := by
  refine ⟨fun f hf => absurd (show f ∈ [] from hf) List.not_mem_nil, by rfl, by rfl⟩

end RedFireForge.ApiMock
