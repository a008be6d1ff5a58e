/-
# `RedFireForge.Engine.Negation` — when a negated assertion is the complement

A mistake in an assertion is known by the texts of the failure.  Most handlers begin what they show
with words of their own; a header, a field of a message and a text from the body are shown as they
are, and so may be taken for a mistake.
-/
import RedFireForge.Engine.Assertions

namespace RedFireForge.Engine.Assertions

open RedFireForge.Lib
open RedFireForge.ApiMock (Js trim)
open RedFireForge.Engine.JsonPath
open RedFireForge.Engine.StatusPattern (elements Guarded matchesStatusPattern)
open RedFireForge.Mapper (ComparisonOperator ContainsMode FieldOperator utf16 firstUnits)

/-! ## What is wanted -/

def Reported (r : Option (List Failure)) : Prop := ∃ f fs, r = some (f :: fs)

/-- With `negate` a failure is reported exactly where none is without. -/
def Complementary (env : Env) (ctx : AssertionContext) (i : ℕ) (check : Check) : Prop :=
  Reported (assertionFailures env ctx ⟨check, true⟩ i) ↔ ¬ Reported (assertionFailures env ctx ⟨check, false⟩ i)

/-- What is known of the runtime: a number is written with a digit or a sign first, a message of
the schema validator is none of the texts by which a mistake is known, and the stack holds a
recursion into the parts of a status pattern. -/
structure Env.Lawful (env : Env) : Prop where
  numberText : ∀ q, ∃ c cs, (env.js.numberText q).toList = c :: cs ∧ (c = '-' ∨ c.isDigit = true)
  message : ∀ schema violations body e, env.compile schema = .ok violations → e ∈ violations body →
    e.message ≠ some "valid JSON Schema" ∧ e.message ≠ some "valid JSON subset"
  stack : 2 ≤ env.stack

/-- The expression, the regular expressions, the JSON and the date that an assertion holds are such. -/
def Check.Valid (env : Env) : Check → Prop
  | .header _ .regex value | .kafkaField _ .regex value | .wsField _ .regex value =>
      env.js.regexp (value.getD "") "" ≠ none
  | .regex _ pattern => env.js.regexp pattern "" ≠ none
  | .datePrecise _ _ reference _ => env.js.date reference ≠ none
  | .containsSubset _ expected => env.json.parse expected ≠ none
  | .jsonSchema schema => ∃ j violations, env.json.parse schema = some j ∧ env.compile j = .ok violations
  | .custom expression _ => trim expression.toList ≠ []
  | _ => True

/-- A text by which a mistake is known. -/
def IsMistakeText (text : String) : Prop := Engine.isConfigError ⟨"", "", text⟩ = true

instance (text : String) : Decidable (IsMistakeText text) := inferInstanceAs (Decidable (_ = true))

/-- A field on which an operator fails, and of which the value, or the value looked for, is a text by
which a mistake is known. -/
def FieldMisread (env : Env) (field : Option String) (operator : AssertionOperator) (value : Option String) : Prop :=
  (evaluateHeaderOp env field operator value).pass = false ∧
    ((∃ text, field = some text ∧ IsMistakeText text) ∨
      operator = .equals ∧ (value = some "valid JSON Schema" ∨ value = some "valid JSON subset"))

/-- A text that a pattern does not match, as far as it is shown. -/
def shownText (s : String) : String :=
  if (utf16 s.toList).length > 200 then String.ofList (firstUnits 200 s.toList) ++ "…" else s

/-- The responses at which an assertion and its negation both fail, or the handler throws. -/
def Misread (env : Env) (ctx : AssertionContext) : Check → Prop
  | .status expected => ¬ Guarded ctx.httpStatus (elements expected.toList)
  | .header name operator value => FieldMisread env (findHeader env ctx.responseHeaders name) operator value
  | .kafkaField target operator value =>
      FieldMisread env (resolveKafkaContextField env (ApiMock.sliceFrom target 6) ctx) operator value
  | .wsField target operator value => FieldMisread env (wsFieldVal env target ctx) operator value
  | .regex jsonPath pattern =>
      let str := stringifyAssertionValue (readValue env ctx jsonPath)
      (∃ re, env.js.regexp pattern "" = some re ∧ re (str.getD "undefined") = false) ∧
        (str = none ∨ ∃ s, str = some s ∧ IsMistakeText (shownText s))
  | .numeric jsonPath _ _ => (readValue env ctx jsonPath).toNumber = none
  | .date jsonPath _ _ => toDayString (readValue env ctx jsonPath) = none
  | .datePrecise jsonPath operator reference precision =>
      let rawDp := readValue env ctx jsonPath
      rawDp.typeof ≠ "undefined" ∧
        (rawDp.toText = none ∨ ∃ text, rawDp.toText = some text ∧
          (env.js.date text = none ∨ IsMistakeText text ∧ ∃ actualDate refDate,
            env.js.date text = some actualDate ∧ env.js.date reference = some refDate ∧
              compare (intNumber (truncateToUnit actualDate precision)) operator
                (intNumber (truncateToUnit refDate precision)) = false))
  | .custom expression _ =>
      ∃ message, env.evaluateExpression (String.ofList (trim expression.toList)) ctx = .error message ∧ message ≠ ""
  | _ => False

/-! ## What is reported -/

/-- None of the failures is taken for a mistake. -/
def Ordinary (fs : List Failure) : Prop := ∀ f ∈ fs, f.isConfigError = false

theorem Ordinary.nil : Ordinary [] := nofun

theorem ordinary_ite {c : Prop} [Decidable c] {fs fs' : List Failure} (h : Ordinary fs) (h' : Ordinary fs') :
    Ordinary (if c then fs else fs') := by
  split
  next => exact h
  next => exact h'

section Reports

variable {env : Env} {ctx : AssertionContext} {i : ℕ} {check : Check} {type : AssertionType} {f f' : Failure}
  {fs fs' : List Failure}

theorem reported_some : Reported (some fs) ↔ fs ≠ [] := by
  cases fs with
  | nil => simp [Reported]
  | cons f fs => simp [Reported]

theorem not_reported_none : ¬ Reported none := nofun

theorem isConfigError_iff : f.isConfigError = true ↔
    ∃ actual, f.actual = some actual ∧
      (IsMistakeText actual ∨ f.expected = "valid JSON Schema" ∨ f.expected = "valid JSON subset") := by
  rw [Failure.isConfigError, Option.any_eq_true]
  refine exists_congr fun actual => and_congr_right fun _ => ?_
  simp [IsMistakeText, Engine.isConfigError]

/-- Without a mistake the negation reports exactly what has no failure. -/
theorem reported_settle_ordinary (h : Ordinary fs) : Reported (settle type true fs) ↔ fs = [] := by
  rw [settle, if_pos rfl, configErrors, List.filter_eq_nil_iff.mpr fun f hf => by simp [h f hf]]
  cases fs with
  | nil => simp [reported_some, buildFailure]
  | cons f fs => cases (f :: fs).all (·.actual.isSome) <;> simp [reported_some, not_reported_none]

/-- A mistake is reported. -/
theorem reported_settle_mistake (h : f.isConfigError = true) : Reported (settle type true [f]) := by
  obtain ⟨actual, hactual, -⟩ := isConfigError_iff.mp h
  simp [settle, configErrors, hactual, h, reported_some]

theorem complementary_of_ordinary (h : handle env "NOT " ctx i check = some fs)
    (h' : handle env "" ctx i check = some fs') (hempty : fs = [] ↔ fs' = [])
    (hordinary : Ordinary fs) : Complementary env ctx i check := by
  have hnegated : assertionFailures env ctx ⟨check, true⟩ i = settle check.type true fs := by simp [assertionFailures, h]
  have hplain : assertionFailures env ctx ⟨check, false⟩ i = some fs' := by simp [assertionFailures, h', settle]
  rw [Complementary, hnegated, hplain, reported_settle_ordinary hordinary, reported_some, hempty, not_not]

theorem not_complementary_of_throw (h : handle env "NOT " ctx i check = none) (h' : handle env "" ctx i check = none) :
    ¬ Complementary env ctx i check := by
  simp [Complementary, assertionFailures, h, h', not_reported_none]

theorem not_complementary_of_mistake (h : handle env "NOT " ctx i check = some [f])
    (h' : handle env "" ctx i check = some [f']) (hmistake : f.isConfigError = true) :
    ¬ Complementary env ctx i check := by
  have hnegated : assertionFailures env ctx ⟨check, true⟩ i = settle check.type true [f] := by simp [assertionFailures, h]
  have hplain : assertionFailures env ctx ⟨check, false⟩ i = some [f'] := by simp [assertionFailures, h', settle]
  rw [Complementary, hnegated, hplain, reported_some]
  exact fun hiff => hiff.mp (reported_settle_mistake hmistake) (List.cons_ne_nil f' [])

end Reports

/-! ## Texts that are shown -/

section Texts

variable {s : String} {f : Failure} {path expected actual : String}

/-- The first letters of the texts by which a mistake is known. -/
def mistakeStarts : List (List Char) := [['i', 'n', 'v'], ['e', 'm', 'p'], ['e', 'x', 'p'], ['r', 'u', 'n']]

theorem take_of_mistake (h : IsMistakeText s) : s.toList.take 3 ∈ mistakeStarts := by
  have hbegins {p : List Char} (hlength : 3 ≤ p.length) (hp : p <+: s.toList) : s.toList.take 3 = p.take 3 := by
    obtain ⟨t, ht⟩ := hp
    rw [← ht, List.take_append_of_le_length hlength]
  simp only [IsMistakeText, Engine.isConfigError, Bool.or_eq_true, beq_iff_eq, String.startsWith_string_iff] at h
  rcases h with ((((((rfl | rfl) | rfl) | h) | h) | h) | h) | h
  · decide
  · decide
  · decide
  · rw [hbegins (by decide) h]
    decide
  · rw [hbegins (by decide) h]
    decide
  · rw [hbegins (by decide) h]
    decide
  · rw [hbegins (by decide) h]
    decide
  · exact absurd h (by decide)

theorem mistake_invalidDate (t : String) : IsMistakeText ("invalid date: " ++ t) := by
  simp [IsMistakeText, Engine.isConfigError]

theorem mistake_expression (t : String) : IsMistakeText ("expression error: " ++ t) := by
  simp [IsMistakeText, Engine.isConfigError]

/-- Texts that are not taken for those of a mistake, as one sees by their first letters. -/
structure Plain (expected actual : String) : Prop where
  title : expected ≠ "valid JSON Schema" ∧ expected ≠ "valid JSON subset"
  text : actual.toList.take 3 ∉ mistakeStarts

theorem Plain.of_head (h : expected.toList.head? ≠ some 'v') (htext : actual.toList.take 3 ∉ mistakeStarts) :
    Plain expected actual where
  title := by
    constructor
    · rintro rfl
      exact h (by decide)
    · rintro rfl
      exact h (by decide)
  text := htext

theorem Plain.isConfigError (h : Plain expected actual) (path : String) :
    (Failure.mk path expected (some actual)).isConfigError = false := by
  rw [Bool.eq_false_iff, ne_eq, isConfigError_iff]
  rintro ⟨shown, hshown, hmistake⟩
  obtain rfl : actual = shown := Option.some.inj hshown
  rcases hmistake with htext | htitle | htitle
  · exact h.text (take_of_mistake htext)
  · exact h.title.1 htitle
  · exact h.title.2 htitle

theorem Plain.ordinary (h : Plain expected actual) : Ordinary (buildFailure path expected actual) := by
  intro f hf
  rw [List.mem_singleton.mp hf]
  exact h.isConfigError path

/-- It is enough to look at the first letter of what is shown. -/
theorem take_notMem {c : Char} {cs : List Char} (h : s.toList = c :: cs) (hc : c ∉ ['i', 'e', 'r']) :
    s.toList.take 3 ∉ mistakeStarts := by
  intro hmem
  rw [h, mistakeStarts] at hmem
  simp only [List.take_succ_cons, List.mem_cons, List.cons.injEq, List.not_mem_nil, or_false] at hmem hc
  tauto

theorem digit_notMem {c : Char} (h : c.isDigit = true) : c ∉ ['i', 'e', 'r'] := by
  intro hmem
  simp only [List.mem_cons, List.not_mem_nil, or_false] at hmem
  rcases hmem with rfl | rfl | rfl <;> cases h

theorem digits_notMem (n : ℕ) (t : String) : (toString n ++ t).toList.take 3 ∉ mistakeStarts := by
  cases hn : Nat.toDigits 10 n with
  | nil => exact absurd hn Nat.toDigits_ne_nil
  | cons c cs =>
      have hc : c.isDigit = true := isDigit_decimal c (hn ▸ List.mem_cons_self)
      exact @take_notMem _ c (cs ++ t.toList) (by simp [hn]) (digit_notMem hc)

theorem number_notMem {env : Env} (h : env.Lawful) (q : ℚ) (t : String) :
    (env.js.numberText q ++ t).toList.take 3 ∉ mistakeStarts := by
  obtain ⟨c, cs, htext, hc⟩ := h.numberText q
  have htext' : (env.js.numberText q ++ t).toList = c :: (cs ++ t.toList) := by simp [htext]
  rcases hc with rfl | hc
  · exact take_notMem htext' (by decide)
  · exact take_notMem htext' (digit_notMem hc)

theorem isNumberChar_notMem {cs : List Char} (h : ∀ c ∈ cs, isNumberChar c = true) : cs.take 3 ∉ mistakeStarts := by
  intro hmem
  have hchars : ∀ c ∈ cs.take 3, isNumberChar c = true := fun c hc => h c (List.mem_of_mem_take hc)
  simp only [mistakeStarts, List.mem_cons, List.not_mem_nil, or_false] at hmem
  rcases hmem with hmem | hmem | hmem | hmem <;> rw [hmem] at hchars <;> exact absurd hchars (by decide)

theorem head_stringify (j : Json) : j.stringify.toList.head? ≠ some 'v' := by
  cases j with
  | num n =>
      intro h
      obtain ⟨hne, hchars⟩ := n.written
      rw [Json.stringify, String.toList_ofList, Json.render] at h
      exact absurd (hchars 'v' (List.mem_of_mem_head? h)) (by decide)
  | bool b => cases b <;> decide
  | arr items => cases items <;> simp [Json.stringify, Json.render]
  | obj fields => cases fields <;> simp [Json.stringify, Json.render]
  | _ => simp [Json.stringify, Json.render]

/-- The text of a JSON value is none by which a mistake is known. -/
theorem text_json (j : Json) : j.stringify.toList.take 3 ∉ mistakeStarts := by
  cases j with
  | num n =>
      rw [Json.stringify, String.toList_ofList, Json.render]
      exact isNumberChar_notMem n.written.2
  | bool b => cases b <;> decide
  | arr items => cases items <;> simp [Json.stringify, Json.render, mistakeStarts]
  | obj fields => cases fields <;> simp [Json.stringify, Json.render, mistakeStarts]
  | _ => simp [Json.stringify, Json.render, mistakeStarts]

end Texts

/-! ## The handlers that show texts of their own -/

section Ordinary

variable {env : Env} {ctx : AssertionContext} {jsonPath : String} {operator : ComparisonOperator} {value : ℚ}

theorem head_formatOp (t : String) : (formatOp operator ++ " " ++ t).toList.head? ≠ some 'v' := by
  cases operator <;> simp [formatOp]

theorem text_typeof (v : Value) : v.typeof.toList.take 3 ∉ mistakeStarts := by
  rcases v with _ | _ | _ | (_ | _ | _ | _ | _ | _) | _ <;> simp [Value.typeof, mistakeStarts]

theorem text_notAnArray (v : Value) : (notAnArray v).toList.take 3 ∉ mistakeStarts := by
  rw [notAnArray]
  split
  next => decide
  next => simp [mistakeStarts]

theorem ordinary_status {expected : String} {fs : List Failure} (h : handleStatus env expected ctx = some fs)
    (hguarded : Guarded ctx.httpStatus (elements expected.toList)) : Ordinary fs := by
  obtain ⟨matched, -, rfl⟩ := Option.map_eq_some_iff.mp h
  have htitle {s : String} (hs : elements s.toList = [s.toList] ∧ StatusPattern.elementOf s.toList = none) :
      expected ≠ s := by
    rintro rfl
    obtain ⟨_, hmem, -⟩ := hguarded [] expected.toList [] hs.1 hs.2
    exact absurd hmem List.not_mem_nil
  refine ordinary_ite .nil (Plain.ordinary ⟨⟨htitle (by decide), htitle (by decide)⟩, ?_⟩)
  simpa using digits_notMem ctx.httpStatus ""

theorem ordinary_responseTime (h : env.Lawful) {maxMs : ℚ} : Ordinary (handleResponseTime env maxMs ctx) :=
  ordinary_ite (Plain.ordinary (.of_head (by simp) (number_notMem h _ _))) .nil

theorem ordinary_arrayLength : Ordinary (handleArrayLength env jsonPath operator value ctx) := by
  rw [handleArrayLength]
  split
  next => exact Plain.ordinary (.of_head (by simp) (text_notAnArray _))
  next => exact ordinary_ite .nil (Plain.ordinary (.of_head (by simp) (by simp [mistakeStarts])))

theorem text_num (h : env.Lawful) (num : Number) : (num.text env.js).toList.take 3 ∉ mistakeStarts := by
  cases num with
  | nan => simp [Number.text, mistakeStarts]
  | infinite negative => cases negative <;> simp [Number.text, mistakeStarts]
  | finite q => simpa [Number.text] using number_notMem h q ""

theorem ordinary_numeric (h : env.Lawful) {fs : List Failure}
    (hfs : handleNumeric env jsonPath operator value ctx = some fs) : Ordinary fs := by
  obtain ⟨num, -, rfl⟩ := Option.map_eq_some_iff.mp hfs
  refine ordinary_ite (Plain.ordinary (.of_head (by simp) (by decide))) (ordinary_ite ?_ (ordinary_ite .nil ?_))
  · exact Plain.ordinary (.of_head (by simp) (by simp [mistakeStarts]))
  · exact Plain.ordinary (.of_head (head_formatOp _) (text_num h num))

theorem ordinary_typeCheck {expectedType : JsonTypeName} : Ordinary (handleTypeCheck env jsonPath expectedType ctx) := by
  refine ordinary_ite (Plain.ordinary (.of_head (by simp) (by decide))) (ordinary_ite .nil ?_)
  exact Plain.ordinary (.of_head (by simp) (by simp [mistakeStarts]))

theorem ordinary_existence {expectExists : Bool} : Ordinary (handleExistence env jsonPath expectExists ctx) := by
  refine ordinary_ite .nil (Plain.ordinary (.of_head ?_ ?_))
  · cases expectExists <;> decide
  · split <;> decide

theorem ordinary_arrayContains {item : String} {mode : ContainsMode} :
    Ordinary (handleArrayContains env jsonPath item mode ctx) := by
  rw [handleArrayContains]
  split
  next => exact Plain.ordinary (.of_head (by decide) (text_notAnArray _))
  next items _ =>
    cases mode with
    | any => exact ordinary_ite .nil (Plain.ordinary (.of_head (by simp) (by simp [mistakeStarts])))
    | all =>
        refine ordinary_ite (Plain.ordinary (.of_head (by simp) ?_)) .nil
        simpa only [String.append_assoc] using digits_notMem _ _
    | only =>
        dsimp only
        generalize List.filter _ _ = unmatched
        generalize List.filter _ _ = extras
        cases hunmatched : unmatched.isEmpty with
        | true =>
            cases hextras : extras.isEmpty with
            | true => exact .nil
            | false => exact Plain.ordinary (.of_head (by simp) (by simp [mistakeStarts]))
        | false => cases extras.isEmpty <;> exact Plain.ordinary (.of_head (by simp) (by simp [mistakeStarts]))
    | none =>
        dsimp only
        split
        next => exact Plain.ordinary (.of_head (by simp) (by simp [mistakeStarts]))
        next => exact .nil

theorem ordinary_each {fieldPath : String} {operator : FieldOperator} {value : Option String} :
    Ordinary (handleEach env jsonPath fieldPath operator value ctx) := by
  rw [handleEach]
  cases (readValue env ctx jsonPath).items? with
  | none => exact Plain.ordinary (.of_head (by decide) (text_notAnArray _))
  | some items =>
      refine ordinary_ite (Plain.ordinary (.of_head (by simp) ?_)) .nil
      simpa only [String.append_assoc] using digits_notMem _ _

theorem ordinary_jsonSchema (h : env.Lawful) {schema : String} {i : ℕ} (hvalid : (Check.jsonSchema schema).Valid env) :
    Ordinary (handleJsonSchema env schema ctx i) := by
  obtain ⟨j, violations, hparse, hcompile⟩ := hvalid
  simp only [handleJsonSchema, hparse, hcompile]
  intro f hf
  obtain ⟨err, herr, rfl⟩ := List.mem_map.mp hf
  have hmessage := h.message j violations ctx.responseBody err hcompile (List.mem_of_mem_take herr)
  refine Plain.isConfigError ⟨?_, by simp [mistakeStarts]⟩ _
  cases hm : err.message with
  | none => exact ⟨by decide, by decide⟩
  | some message => simpa [hm] using hmessage

theorem ordinary_bodySize (h : env.Lawful) {unit : SizeUnit} : Ordinary (handleBodySize env operator value unit ctx) := by
  refine ordinary_ite .nil (Plain.ordinary (.of_head (by simp) ?_))
  simpa only [String.append_assoc] using number_notMem h _ _

theorem ordinary_wsNumericField (h : env.Lawful) {target : String} :
    Ordinary (handleWsNumericField env target operator value ctx) := by
  rw [handleWsNumericField]
  split
  next => exact Plain.ordinary (.of_head (by simp) (by decide))
  next q _ =>
    refine ordinary_ite .nil (Plain.ordinary (.of_head (head_formatOp _) ?_))
    simpa using number_notMem h q ""

end Ordinary

/-! ## Subsets -/

section Subsets

variable {env : Env} {ctx : AssertionContext} {jsonPath : String}

structure Mismatch.Plain (m : Mismatch) : Prop where
  title : m.expected.toList.head? ≠ some 'v'
  text : ∀ actual, m.actual = some actual → actual.toList.take 3 ∉ mistakeStarts

theorem text_stringify {v : Value} {s : String} (h : v.stringify = some s) : s.toList.take 3 ∉ mistakeStarts := by
  obtain ⟨j, -, rfl⟩ := Option.map_eq_some_iff.mp h
  exact text_json j

/-- Of what is no object and no array. -/
theorem plain_primitive {e : Json} {actual : Value} {path : String} {m : Mismatch}
    (h : (if sameAs e actual then none else some (Mismatch.mk (orRoot path) e.stringify actual.stringify)) = some m) :
    m.Plain := by
  split at h
  next => cases h
  next =>
    cases h
    exact ⟨head_stringify e, fun _ => text_stringify⟩

mutual
theorem plain_deepSubsetMatch : ∀ (e : Json) {actual : Value} {path : String} {m : Mismatch},
    deepSubsetMatch e actual path = some m → m.Plain
  | .arr expected, actual, path, m, h => by
      rw [deepSubsetMatch] at h
      cases hitems : actual.items? with
      | none =>
          rw [hitems] at h
          cases h
          exact ⟨by simp, fun _ hactual => Option.some.inj hactual ▸ text_typeof actual⟩
      | some items =>
          rw [hitems] at h
          exact plain_subsetItems expected h
  | .obj fields, actual, path, m, h => by
      have hcompared {actual : Value} {path : String} {m : Mismatch}
          (h : (if actual.typeof = "object" ∧ isNull actual = false then subsetFields fields actual path
            else some ⟨orRoot path, "object", some (if isNull actual then "null" else actual.typeof)⟩) = some m) :
          m.Plain := by
        split at h
        next => exact plain_subsetFields fields h
        next =>
          cases h
          refine ⟨by simp, fun _ hactual => Option.some.inj hactual ▸ ?_⟩
          split
          next => decide
          next => exact text_typeof _
      rw [deepSubsetMatch] at h
      dsimp only at h
      split at h
      next =>
        split at h
        next => cases h
        next =>
          cases h
          exact ⟨head_stringify _, fun _ hactual => Option.some.inj hactual ▸ by decide⟩
      next => exact hcompared h
  | .null, actual, path, m, h => plain_primitive h
  | .bool _, actual, path, m, h => plain_primitive h
  | .num _, actual, path, m, h => plain_primitive h
  | .str _, actual, path, m, h => plain_primitive h

theorem plain_subsetItems : ∀ (expected : List Json) {items : List Value} {path : String} {i : ℕ} {m : Mismatch},
    subsetItems expected items path i = some m → m.Plain
  | [], _, _, _, _, h => by cases h
  | e :: expected, items, path, i, m, h => by
      rw [subsetItems] at h
      split at h
      next => exact plain_subsetItems expected h
      next =>
        cases h
        exact ⟨head_stringify e, fun _ hactual => Option.some.inj hactual ▸ by decide⟩

theorem plain_subsetFields : ∀ (fields : List (String × Json)) {actual : Value} {path : String} {m : Mismatch},
    subsetFields fields actual path = some m → m.Plain
  | [], _, _, _, h => by cases h
  | (key, e) :: fields, actual, path, m, h => by
      rw [subsetFields] at h
      cases hmember : actual.member key with
      | none =>
          rw [hmember] at h
          cases h
          exact ⟨head_stringify e, fun _ hactual => Option.some.inj hactual ▸ by decide⟩
      | some v =>
          rw [hmember] at h
          rcases Option.or_eq_some_iff.mp h with h | ⟨-, h⟩
          · exact plain_deepSubsetMatch e h
          · exact plain_subsetFields fields h
end

theorem ordinary_containsSubset {expected : String} (hvalid : (Check.containsSubset jsonPath expected).Valid env) :
    Ordinary (handleContainsSubset env jsonPath expected ctx) := by
  rw [handleContainsSubset]
  refine ordinary_ite (Plain.ordinary (.of_head (by simp) (by decide))) ?_
  cases hparse : env.json.parse expected with
  | none => exact absurd hparse hvalid
  | some parsedExpected =>
      dsimp only
      cases hmatch : deepSubsetMatch parsedExpected (readValue env ctx jsonPath) "" with
      | none => exact .nil
      | some m =>
          intro f hf
          rw [List.mem_singleton.mp hf]
          have hm : m.Plain := plain_deepSubsetMatch parsedExpected hmatch
          cases hactual : m.actual.or (readValue env ctx jsonPath).stringify with
          | none => rfl
          | some actual =>
              refine Plain.isConfigError (.of_head hm.title ?_) _
              rcases Option.or_eq_some_iff.mp hactual with h | ⟨-, h⟩
              · exact hm.text actual h
              · exact text_stringify h

end Subsets

/-! ## Fields -/

section Fields

variable {env : Env} {field value : Option String} {operator : AssertionOperator} {path : String}

/-- What an operator shows of a field. -/
theorem evaluateHeaderOp_shown (hvalid : operator = .regex → env.js.regexp (value.getD "") "" ≠ none) :
    (evaluateHeaderOp env field operator value).actual = field.getD "(not present)" ∧
      ((evaluateHeaderOp env field operator value).expected.toList.head? ≠ some 'v' ∨
        operator = .equals ∧ (evaluateHeaderOp env field operator value).expected = value.getD "") := by
  cases operator with
  | equals => exact ⟨rfl, .inr ⟨rfl, rfl⟩⟩
  | contains => exact ⟨rfl, .inl (by simp [evaluateHeaderOp])⟩
  | «exists» => exact ⟨rfl, .inl (by simp [evaluateHeaderOp])⟩
  | regex =>
      obtain ⟨re, hre⟩ := Option.ne_none_iff_exists'.mp (hvalid rfl)
      rw [evaluateHeaderOp, hre]
      exact ⟨rfl, .inl (by simp)⟩

theorem getD_eq_iff {text : String} (h : text ≠ "") : value.getD "" = text ↔ value = some text := by
  cases value with
  | none => simpa using h.symm
  | some v => simp

theorem isConfigError_field (hvalid : operator = .regex → env.js.regexp (value.getD "") "" ≠ none) :
    (Failure.mk path (evaluateHeaderOp env field operator value).expected
      (some (evaluateHeaderOp env field operator value).actual)).isConfigError = true ↔
    (∃ text, field = some text ∧ IsMistakeText text) ∨
      operator = .equals ∧ (value = some "valid JSON Schema" ∨ value = some "valid JSON subset") := by
  obtain ⟨hactual, hexpected⟩ := @evaluateHeaderOp_shown env field value operator hvalid
  have htext : IsMistakeText (field.getD "(not present)") ↔ ∃ text, field = some text ∧ IsMistakeText text := by
    cases field with
    | none => exact iff_of_false (fun h => absurd (take_of_mistake h) (by decide)) (by simp)
    | some text => simp
  have htitle (text : String) (hv : text.toList.head? = some 'v') :
      (evaluateHeaderOp env field operator value).expected = text ↔ operator = .equals ∧ value = some text := by
    have hne : text ≠ "" := by
      rintro rfl
      cases hv
    constructor
    · intro h
      rcases hexpected with hhead | ⟨hop, heq⟩
      · exact absurd (h ▸ hv) hhead
      · exact ⟨hop, (getD_eq_iff hne).mp (heq.symm.trans h)⟩
    · rintro ⟨rfl, rfl⟩
      rfl
  rw [isConfigError_iff]
  simp only [Option.some.injEq, exists_eq_left', hactual, htext, htitle "valid JSON Schema" (by decide),
    htitle "valid JSON subset" (by decide)]
  rw [and_or_left]

/-- **A header or a field of a message.** -/
theorem complementary_field {ctx : AssertionContext} {i : ℕ} {check : Check}
    (h : ∀ negPrefix, handle env negPrefix ctx i check = some (reportOp path (evaluateHeaderOp env field operator value)))
    (hvalid : operator = .regex → env.js.regexp (value.getD "") "" ≠ none) :
    Complementary env ctx i check ↔ ¬ FieldMisread env field operator value := by
  cases hpass : (evaluateHeaderOp env field operator value).pass with
  | true =>
      have hnil : reportOp path (evaluateHeaderOp env field operator value) = [] := by rw [reportOp, if_pos hpass]
      refine iff_of_true (complementary_of_ordinary (h _) (h _) Iff.rfl (hnil ▸ .nil)) ?_
      exact fun hmisread => absurd (hpass.symm.trans hmisread.1) (by decide)
  | false =>
      have hreport : reportOp path (evaluateHeaderOp env field operator value) =
          [⟨path, (evaluateHeaderOp env field operator value).expected,
            some (evaluateHeaderOp env field operator value).actual⟩] := by
        rw [reportOp, hpass]
        rfl
      have hmistake := @isConfigError_field env field value operator path hvalid
      constructor
      · rintro hcomplementary ⟨-, hmisread⟩
        exact not_complementary_of_mistake (hreport ▸ h _) (hreport ▸ h _) (hmistake.mpr hmisread) hcomplementary
      · intro hmisread
        refine complementary_of_ordinary (h _) (h _) Iff.rfl ?_
        rw [hreport]
        intro f hf
        rw [List.mem_singleton.mp hf, Bool.eq_false_iff]
        exact fun hconfig => hmisread ⟨hpass, hmistake.mp hconfig⟩

end Fields

/-! ## Texts from the body, dates and expressions -/

section Shown

variable {env : Env} {ctx : AssertionContext} {i : ℕ} {jsonPath : String}

/-- A failure with a fixed title is a mistake by its text. -/
theorem isConfigError_titled {path expected actual : String} (h : expected.toList.head? ≠ some 'v') :
    (Failure.mk path expected (some actual)).isConfigError = true ↔ IsMistakeText actual := by
  have htitle {text : String} (hv : text.toList.head? = some 'v') : expected ≠ text := fun heq => h (heq ▸ hv)
  rw [isConfigError_iff]
  simp [htitle (by decide : "valid JSON Schema".toList.head? = _), htitle (by decide : "valid JSON subset".toList.head? = _)]

/-- A handler that shows a text or nothing. -/
theorem complementary_shown {check : Check} {path expected actual : String}
    (h : ∀ negPrefix, handle env negPrefix ctx i check = some (buildFailure path expected actual))
    (hexpected : expected.toList.head? ≠ some 'v') : Complementary env ctx i check ↔ ¬ IsMistakeText actual := by
  constructor
  · intro hcomplementary htext
    exact not_complementary_of_mistake (h _) (h _) ((isConfigError_titled hexpected).mpr htext) hcomplementary
  · intro htext
    refine complementary_of_ordinary (h _) (h _) Iff.rfl fun f hf => ?_
    rw [List.mem_singleton.mp hf, Bool.eq_false_iff]
    exact fun hconfig => htext ((isConfigError_titled hexpected).mp hconfig)

theorem complementary_nil {check : Check} (h : ∀ negPrefix, handle env negPrefix ctx i check = some []) :
    Complementary env ctx i check :=
  complementary_of_ordinary (h _) (h _) Iff.rfl .nil

theorem complementary_status {expected : String} (henv : env.Lawful) :
    Complementary env ctx i (.status expected) ↔ ¬ Misread env ctx (.status expected) := by
  rw [Misread, not_not, ← StatusPattern.matches_isSome_iff henv.stack]
  constructor
  · intro hcomplementary
    refine Option.ne_none_iff_exists'.mp fun hnone => ?_
    have hthrow (negPrefix : String) : handle env negPrefix ctx i (.status expected) = none := by
      rw [handle, handleStatus, hnone]
      rfl
    exact not_complementary_of_throw (hthrow _) (hthrow _) hcomplementary
  · rintro ⟨matched, hmatched⟩
    obtain ⟨fs, hfs⟩ : ∃ fs, handleStatus env expected ctx = some fs := by
      rw [handleStatus, hmatched]
      exact ⟨_, rfl⟩
    exact complementary_of_ordinary hfs hfs Iff.rfl (ordinary_status hfs (StatusPattern.guarded_of_matches hmatched))

theorem complementary_regex {pattern : String} (hvalid : (Check.regex jsonPath pattern).Valid env) :
    Complementary env ctx i (.regex jsonPath pattern) ↔ ¬ Misread env ctx (.regex jsonPath pattern) := by
  obtain ⟨re, hre⟩ := Option.ne_none_iff_exists'.mp hvalid
  rw [Misread]
  cases hstr : stringifyAssertionValue (readValue env ctx jsonPath) with
  | none =>
      cases htest : re "undefined" with
      | true =>
          have hnil (negPrefix : String) : handle env negPrefix ctx i (.regex jsonPath pattern) = some [] := by
            simp [handle, handleRegex, hre, hstr, htest]
          exact iff_of_true (complementary_nil hnil) (by simp [hre, htest])
      | false =>
          have hinvalid (negPrefix : String) : handle env negPrefix ctx i (.regex jsonPath pattern) =
              some (buildFailure ("(regex:" ++ jsonPath ++ ")") ("valid regex /" ++ pattern ++ "/") "invalid regex pattern") := by
            simp [handle, handleRegex, hre, hstr, htest]
          have hmistake := (@isConfigError_iff ⟨"(regex:" ++ jsonPath ++ ")", "valid regex /" ++ pattern ++ "/",
            some "invalid regex pattern"⟩).mpr ⟨_, rfl, .inl (by decide)⟩
          exact iff_of_false (not_complementary_of_mistake (hinvalid _) (hinvalid _) hmistake) (by simp [hre, htest])
  | some s =>
      cases htest : re s with
      | true =>
          have hnil (negPrefix : String) : handle env negPrefix ctx i (.regex jsonPath pattern) = some [] := by
            simp [handle, handleRegex, hre, hstr, htest]
          exact iff_of_true (complementary_nil hnil) (by simp [hre, htest])
      | false =>
          have hshown (negPrefix : String) : handle env negPrefix ctx i (.regex jsonPath pattern) =
              some (buildFailure ("(regex:" ++ jsonPath ++ ")") ("matches /" ++ pattern ++ "/") (shownText s)) := by
            simp [handle, handleRegex, hre, hstr, htest, shownText]
          rw [complementary_shown hshown (by simp)]
          simp [hre, htest]

theorem complementary_numeric {operator : ComparisonOperator} {value : ℚ} (henv : env.Lawful) :
    Complementary env ctx i (.numeric jsonPath operator value) ↔ ¬ Misread env ctx (.numeric jsonPath operator value) := by
  rw [Misread]
  cases hnum : (readValue env ctx jsonPath).toNumber with
  | none =>
      have hthrow (negPrefix : String) : handle env negPrefix ctx i (.numeric jsonPath operator value) = none := by
        rw [handle, handleNumeric, hnum]
        rfl
      exact iff_of_false (not_complementary_of_throw (hthrow _) (hthrow _)) (by simp)
  | some num =>
      obtain ⟨fs, hfs⟩ : ∃ fs, handleNumeric env jsonPath operator value ctx = some fs := by
        rw [handleNumeric, hnum]
        exact ⟨_, rfl⟩
      exact iff_of_true (complementary_of_ordinary hfs hfs Iff.rfl (ordinary_numeric henv hfs)) (by simp)

/-- A date begins with a digit or a sign. -/
theorem text_dayPrefix {cs day : List Char} (h : dayPrefix cs = some day) :
    (String.ofList day).toList.take 3 ∉ mistakeStarts := by
  rw [dayPrefix] at h
  dsimp only at h
  split at h
  next hday =>
    obtain rfl := Option.some.inj h
    cases htake : cs.take 10 with
    | nil =>
        rw [htake] at hday
        exact absurd hday.1 (by decide)
    | cons c rest =>
        rw [htake] at hday
        have hc : c.isDigit = true := by simpa using (List.all_eq_true.mp hday.2) (c, 0) (by simp)
        exact take_notMem String.toList_ofList (digit_notMem hc)
  next => cases h

theorem text_isoText (ms : ℤ) : (String.ofList ((isoText ms).take 10)).toList.take 3 ∉ mistakeStarts := by
  have hyear (y : ℤ) : ∃ c cs, yearText y = c :: cs ∧ c ∉ ['i', 'e', 'r'] := by
    rw [yearText]
    split
    next =>
      cases hdigits : padDigits 4 y.toNat with
      | nil => exact absurd (length_padDigits 4 y.toNat) (by simp [hdigits])
      | cons c cs => exact ⟨c, cs, rfl, digit_notMem (isDigit_padDigits 4 _ c (hdigits ▸ List.mem_cons_self))⟩
    next => exact ⟨_, _, rfl, by split <;> decide⟩
  obtain ⟨c, cs, htext, hc⟩ := hyear (yearFromDay (ms / 86400000))
  obtain ⟨rest, hrest⟩ : ∃ rest, (isoText ms).take 10 = c :: rest := by
    rw [isoText, dateText, htext]
    exact ⟨_, rfl⟩
  rw [hrest]
  exact take_notMem String.toList_ofList hc

theorem text_toDayString {v : Value} {dayStr : String} (h : toDayString v = some (some dayStr)) :
    dayStr.toList.take 3 ∉ mistakeStarts := by
  rw [toDayString.eq_def] at h
  split at h
  next s =>
    obtain ⟨day, hday, rfl⟩ := Option.map_eq_some_iff.mp (Option.some.inj h)
    exact text_dayPrefix hday
  next n =>
    split at h
    next q _ =>
      obtain ⟨ms, -, hms⟩ := Option.map_eq_some_iff.mp h
      obtain rfl := Option.some.inj hms
      exact text_isoText ms
    next => cases h
  next => cases h

theorem ordinary_date {operator : ComparisonOperator} {reference : DateReference} {fs : List Failure}
    (hfs : handleDate env jsonPath operator reference ctx = some fs) : Ordinary fs := by
  obtain ⟨day, hday, rfl⟩ := Option.map_eq_some_iff.mp hfs
  cases day with
  | none =>
      refine Plain.ordinary (.of_head (by simp) ?_)
      split
      next => decide
      next => simp [mistakeStarts]
  | some dayStr =>
      exact ordinary_ite .nil (Plain.ordinary (.of_head (head_formatOp _) (text_toDayString hday)))

theorem complementary_date {operator : ComparisonOperator} {reference : DateReference} :
    Complementary env ctx i (.date jsonPath operator reference) ↔ ¬ Misread env ctx (.date jsonPath operator reference) := by
  rw [Misread]
  cases hday : toDayString (readValue env ctx jsonPath) with
  | none =>
      have hthrow (negPrefix : String) : handle env negPrefix ctx i (.date jsonPath operator reference) = none := by
        rw [handle, handleDate, hday]
        rfl
      exact iff_of_false (not_complementary_of_throw (hthrow _) (hthrow _)) (by simp)
  | some day =>
      obtain ⟨fs, hfs⟩ : ∃ fs, handleDate env jsonPath operator reference ctx = some fs := by
        rw [handleDate, hday]
        exact ⟨_, rfl⟩
      exact iff_of_true (complementary_of_ordinary hfs hfs Iff.rfl (ordinary_date hfs)) (by simp)

theorem complementary_datePrecise {operator : ComparisonOperator} {reference : String} {precision : Precision}
    (hvalid : (Check.datePrecise jsonPath operator reference precision).Valid env) :
    Complementary env ctx i (.datePrecise jsonPath operator reference precision) ↔
      ¬ Misread env ctx (.datePrecise jsonPath operator reference precision) := by
  obtain ⟨refDate, href⟩ := Option.ne_none_iff_exists'.mp hvalid
  rw [Misread]
  generalize hraw : readValue env ctx jsonPath = rawDp
  by_cases hundefined : rawDp.typeof = "undefined"
  · have hshown (negPrefix : String) : handle env negPrefix ctx i (.datePrecise jsonPath operator reference precision) =
        some (buildFailure ("(datePrecise:" ++ jsonPath ++ ")")
          ("date " ++ formatOp operator ++ " " ++ reference ++ " (" ++ precision.text ++ ")") "undefined") := by
      simp only [handle, handleDatePrecise, hraw, if_pos hundefined]
    rw [complementary_shown hshown (by simp)]
    exact iff_of_true (by decide) fun hmisread => hmisread.1 hundefined
  cases htext : rawDp.toText with
  | none =>
      have hthrow (negPrefix : String) :
          handle env negPrefix ctx i (.datePrecise jsonPath operator reference precision) = none := by
        simp [handle, handleDatePrecise, hraw, hundefined, htext]
      exact iff_of_false (not_complementary_of_throw (hthrow _) (hthrow _)) (by simp [hundefined])
  | some text =>
      cases hdate : env.js.date text with
      | none =>
          have hshown (negPrefix : String) : handle env negPrefix ctx i (.datePrecise jsonPath operator reference precision) =
              some (buildFailure ("(datePrecise:" ++ jsonPath ++ ")") "valid date" ("invalid date: " ++ text)) := by
            simp [handle, handleDatePrecise, hraw, hundefined, htext, hdate]
          have hmistake := (@isConfigError_iff ⟨"(datePrecise:" ++ jsonPath ++ ")", "valid date",
            some ("invalid date: " ++ text)⟩).mpr ⟨_, rfl, .inl (mistake_invalidDate text)⟩
          exact iff_of_false (not_complementary_of_mistake (hshown _) (hshown _) hmistake) (by simp [hundefined, hdate])
      | some actualDate =>
          cases hcompare : compare (intNumber (truncateToUnit actualDate precision)) operator
              (intNumber (truncateToUnit refDate precision)) with
          | true =>
              have hnil (negPrefix : String) :
                  handle env negPrefix ctx i (.datePrecise jsonPath operator reference precision) = some [] := by
                simp [handle, handleDatePrecise, hraw, hundefined, htext, hdate, href, hcompare]
              exact iff_of_true (complementary_nil hnil) (by simp [hdate, href, hcompare])
          | false =>
              have hshown (negPrefix : String) :
                  handle env negPrefix ctx i (.datePrecise jsonPath operator reference precision) =
                    some (buildFailure ("(datePrecise:" ++ jsonPath ++ ")")
                      ("date " ++ formatOp operator ++ " " ++ reference ++ " (precision: " ++ precision.text ++ ")") text) := by
                simp [handle, handleDatePrecise, hraw, hundefined, htext, hdate, href, hcompare]
              rw [complementary_shown hshown (by simp)]
              simp [hundefined, hdate, href, hcompare]

theorem complementary_custom {expression : String} {description : Option String}
    (hvalid : (Check.custom expression description).Valid env) :
    Complementary env ctx i (.custom expression description) ↔ ¬ Misread env ctx (.custom expression description) := by
  have hexpr : String.ofList (trim expression.toList) ≠ "" := fun h => hvalid (String.ofList_eq_empty_iff.mp h)
  have hhandle (negPrefix : String) : handle env negPrefix ctx i (.custom expression description) =
      some (handleCustom env expression description ctx negPrefix) := rfl
  rw [Misread]
  cases hvalue : env.evaluateExpression (String.ofList (trim expression.toList)) ctx with
  | error message =>
      by_cases hmessage : message = ""
      · have hshown (negPrefix : String) : handle env negPrefix ctx i (.custom expression description) =
            some (buildFailure "(custom)" (negPrefix ++ "custom predicate to pass" ++
              if description.getD "" = "" then "" else " (" ++ description.getD "" ++ ")") "") := by
          simp only [hhandle, handleCustom, if_neg hexpr, hvalue, if_pos hmessage]
        refine iff_of_true (complementary_of_ordinary (hshown _) (hshown _) (by simp [buildFailure]) ?_) (by simp [hmessage])
        exact Plain.ordinary (.of_head (by simp) (by decide))
      · have hshown (negPrefix : String) : handle env negPrefix ctx i (.custom expression description) =
            some [⟨"(custom)", negPrefix ++ "expression to evaluate without error",
              some ("expression error: " ++ message)⟩] := by
          simp only [hhandle, handleCustom, if_neg hexpr, hvalue, if_neg hmessage, buildFailure]
        have hmistake := (@isConfigError_iff ⟨"(custom)", "NOT " ++ "expression to evaluate without error",
          some ("expression error: " ++ message)⟩).mpr ⟨_, rfl, .inl (mistake_expression message)⟩
        exact iff_of_false (not_complementary_of_mistake (hshown _) (hshown _) hmistake) (by simp [hmessage])
  | ok value =>
      cases value with
      | none =>
          have hnil (negPrefix : String) : handle env negPrefix ctx i (.custom expression description) = some [] := by
            rw [hhandle, handleCustom, if_neg hexpr, hvalue]
          exact iff_of_true (complementary_nil hnil) (by simp)
      | some v =>
          have hshown (negPrefix : String) : handle env negPrefix ctx i (.custom expression description) =
              some (buildFailure "(custom)" (negPrefix ++ "custom predicate to pass" ++
                if description.getD "" = "" then "" else " (" ++ description.getD "" ++ ")") v.text) := by
            simp only [hhandle, handleCustom, if_neg hexpr, hvalue]
          refine iff_of_true (complementary_of_ordinary (hshown _) (hshown _) (by simp [buildFailure]) ?_) (by simp)
          exact Plain.ordinary (.of_head (by simp) (by cases v <;> decide))

end Shown

/-! ## The loop -/

section Loop

variable {α β : Type} {f : α → Option (List β)} {env : Env} {ctx : AssertionContext}
  {assertions : List NegatableAssertion}

theorem flatten_ne_nil_iff {l : List α} {ys : List (List β)} (h : l.mapM f = some ys) :
    ys.flatten ≠ [] ↔ ∃ x ∈ l, ∃ y, f x = some y ∧ y ≠ [] := by
  induction l generalizing ys with
  | nil =>
      obtain rfl : [] = ys := by simpa using h
      simp
  | cons x l ih =>
      rw [List.mapM_cons] at h
      obtain ⟨y, hy, h⟩ := Option.bind_eq_some_iff.mp h
      obtain ⟨ys', hys', h⟩ := Option.bind_eq_some_iff.mp h
      obtain rfl := Option.some.inj h
      rw [List.flatten_cons, Ne, List.append_eq_nil_iff, not_and_or, ← Ne, ← Ne, ih hys', List.exists_mem_cons_iff]
      simp [hy]

theorem mapM_eq_map {g : α → List β} {l : List α} (h : ∀ x ∈ l, f x = some (g x)) : l.mapM f = some (l.map g) := by
  induction l with
  | nil => rfl
  | cons x l ih =>
      rw [List.mapM_cons, h x List.mem_cons_self, ih fun y hy => h y (List.mem_cons_of_mem x hy)]
      rfl

/-- A failure is reported exactly if one is reported of an assertion. -/
theorem evaluateAssertions_ne_nil_iff {failures : List Failure} {statusAsserted : Bool}
    (h : evaluateAssertions env assertions ctx = some (failures, statusAsserted)) :
    failures ≠ [] ↔ ∃ i a, assertions[i]? = some a ∧ Reported (assertionFailures env ctx a i) := by
  obtain ⟨turns, hturns, hresult⟩ := Option.bind_eq_some_iff.mp h
  obtain rfl : turns.flatten = failures := congrArg Prod.fst (Option.some.inj hresult)
  rw [flatten_ne_nil_iff hturns]
  constructor
  · rintro ⟨⟨a, i⟩, hmem, fs, hfs, hne⟩
    have hturn : assertionFailures env ctx a i = some fs := hfs
    exact ⟨i, a, List.mem_zipIdx_iff_getElem?.mp hmem, hturn ▸ reported_some.mpr hne⟩
  · rintro ⟨i, a, ha, f, fs, hfs⟩
    exact ⟨(a, i), List.mem_zipIdx_iff_getElem?.mpr ha, _, hfs, List.cons_ne_nil f fs⟩

end Loop

/-! ## The loop of the pipelines -/

section Pipelines

variable {F C : Type} {env : Env} {ctx : AssertionContext} {c : Engine.AssertionContext}
  {v : Validators Check F C} {assertions : List NegatableAssertion}

def NegatableAssertion.toAssertion (a : NegatableAssertion) : Engine.Assertion Check := ⟨a.check.type, a.negate, a.check⟩

def shown (f : FailureDetail) : Failure := ⟨f.path, f.expected, some f.actual⟩

theorem configErrors_shown (fs : List FailureDetail) :
    configErrors (fs.map shown) = some ((fs.filter Engine.isConfigError).map shown) := by
  rw [configErrors, if_pos (by simp [shown]), List.filter_map]
  rfl

/-- One turn, where every failure has a text. -/
theorem assertionFailures_shown {a : NegatableAssertion} {i : ℕ}
    (h : handle env (if a.negate then "NOT " else "") ctx i a.check = some ((v.handle a.toAssertion c i).map shown)) :
    assertionFailures env ctx a i = some ((Engine.assertionFailures v c a.toAssertion i).map shown) := by
  rw [assertionFailures, h, Option.bind_some, settle, Engine.assertionFailures, configErrors_shown]
  have hnegate : a.toAssertion.negate = a.negate := rfl
  rw [hnegate]
  cases a.negate with
  | false => rfl
  | true =>
      simp only [if_true, Option.map_some, List.length_map]
      split
      next => rfl
      next =>
        split
        next => rfl
        next => rfl

/-- **The loop is that of the pipelines, where no handler throws and every failure has a text.** -/
theorem evaluateAssertions_shown
    (h : ∀ a ∈ assertions, ∀ i, handle env (if a.negate then "NOT " else "") ctx i a.check =
      some ((v.handle a.toAssertion c i).map shown)) :
    evaluateAssertions env assertions ctx =
      some ((Engine.evaluateAssertions v (assertions.map NegatableAssertion.toAssertion) c).1.map shown,
        (Engine.evaluateAssertions v (assertions.map NegatableAssertion.toAssertion) c).2) := by
  have hturns : (assertions.zipIdx.mapM fun x => assertionFailures env ctx x.1 x.2) =
      some (assertions.zipIdx.map fun x => (Engine.assertionFailures v c x.1.toAssertion x.2).map shown) :=
    mapM_eq_map fun x hx => assertionFailures_shown (h x.1 (List.fst_mem_of_mem_zipIdx hx) x.2)
  rw [evaluateAssertions, hturns, Engine.evaluateAssertions, List.zipIdx_map, List.flatMap_map, List.any_map,
    List.map_flatMap, List.flatMap_def]
  rfl

end Pipelines

/-! ## The result -/

/-- **A negated assertion is the complement of the assertion exactly where nothing that it shows of
the response is a text by which a mistake is known, and its handler comes to an end.** -/
theorem complementary_iff (env : Env) (henv : env.Lawful) (ctx : AssertionContext) (i : ℕ) (check : Check)
    (hvalid : check.Valid env) : Complementary env ctx i check ↔ ¬ Misread env ctx check := by
  cases check with
  | status expected => exact complementary_status henv
  | responseTime maxMs =>
      exact iff_of_true (complementary_of_ordinary rfl rfl Iff.rfl (ordinary_responseTime henv)) id
  | header name operator value =>
      refine complementary_field (fun _ => rfl) ?_
      rintro rfl
      exact hvalid
  | regex jsonPath pattern => exact complementary_regex hvalid
  | arrayLength jsonPath operator value =>
      exact iff_of_true (complementary_of_ordinary rfl rfl Iff.rfl ordinary_arrayLength) id
  | numeric jsonPath operator value => exact complementary_numeric henv
  | date jsonPath operator reference => exact complementary_date
  | datePrecise jsonPath operator reference precision => exact complementary_datePrecise hvalid
  | typeCheck jsonPath expectedType =>
      exact iff_of_true (complementary_of_ordinary rfl rfl Iff.rfl ordinary_typeCheck) id
  | existence jsonPath expectExists =>
      exact iff_of_true (complementary_of_ordinary rfl rfl Iff.rfl ordinary_existence) id
  | arrayContains jsonPath value mode =>
      exact iff_of_true (complementary_of_ordinary rfl rfl Iff.rfl ordinary_arrayContains) id
  | each jsonPath fieldPath operator value =>
      exact iff_of_true (complementary_of_ordinary rfl rfl Iff.rfl ordinary_each) id
  | containsSubset jsonPath expected =>
      exact iff_of_true (complementary_of_ordinary rfl rfl Iff.rfl (ordinary_containsSubset hvalid)) id
  | jsonSchema schema =>
      exact iff_of_true (complementary_of_ordinary rfl rfl Iff.rfl (ordinary_jsonSchema henv hvalid)) id
  | bodySize operator value unit =>
      exact iff_of_true (complementary_of_ordinary rfl rfl Iff.rfl (ordinary_bodySize henv)) id
  | kafkaField target operator value =>
      refine complementary_field (fun _ => rfl) ?_
      rintro rfl
      exact hvalid
  | wsField target operator value =>
      refine complementary_field (fun _ => rfl) ?_
      rintro rfl
      exact hvalid
  | wsNumericField target operator value =>
      exact iff_of_true (complementary_of_ordinary rfl rfl Iff.rfl (ordinary_wsNumericField henv)) id
  | custom expression description => exact complementary_custom hvalid

/-- A runtime in which numbers are whole and nothing is a date, an expression or JSON. -/
def wholeEnv : Env where
  js :=
    { regexp := fun _ _ => none, toLowerCase := fun s => String.ofList (s.toList.map Char.toLower), toUpperCase := id,
      atob := fun _ => none, localeCompare := fun _ _ => 0, date := fun _ => none,
      numberText := fun q => toString q.num, toFixed := fun q _ => toString q.num }
  json := ⟨fun _ => none, noJson.2⟩
  syntaxError := fun _ => "Unexpected token"
  stack := 10000
  today := fun _ => "2026-01-01"
  compile := fun _ => .ok fun _ => []
  evaluateFieldOperator := fun _ _ _ _ => ⟨true, "", ""⟩
  evaluateExpression := fun _ _ => .ok none

theorem wholeEnv_lawful : wholeEnv.Lawful where
  numberText q := by
    have hne : (toString q.num).toList ≠ [] := by
      cases q.num with
      | ofNat n => exact toList_toString_natCast n ▸ Nat.toDigits_ne_nil
      | negSucc n => exact toList_toString_negSucc n ▸ List.cons_ne_nil _ _
    obtain ⟨c, cs, htext⟩ := List.exists_cons_of_ne_nil hne
    exact ⟨c, cs, htext, toString_chars q.num c (htext ▸ List.mem_cons_self)⟩
  message _ _ _ _ hcompile he := by
    cases hcompile
    cases he
  stack := by decide

/-- A response with a header. -/
def withHeader (value : String) : AssertionContext :=
  ⟨200, 12, [("X-Status", value)], .arr [], some "[]", none, none⟩

def statusIsOk : Check := .header "x-status" .equals (some "ok")

/-- A header that is not as it should be. -/
theorem header_complementary : Complementary wholeEnv (withHeader "failed") 0 statusIsOk := by
  refine (complementary_iff wholeEnv wholeEnv_lawful (withHeader "failed") 0 statusIsOk trivial).mpr ?_
  rintro ⟨-, ⟨text, htext, hmistake⟩ | ⟨-, hvalue | hvalue⟩⟩
  · obtain rfl : "failed" = text := Option.some.inj htext
    exact absurd (take_of_mistake hmistake) (by decide)
  · exact absurd hvalue (by decide)
  · exact absurd hvalue (by decide)

/-- The assertion and its negation both fail at a header that has the words of a mistake. -/
theorem header_not_complementary :
    statusIsOk.Valid wholeEnv ∧ ¬ Complementary wholeEnv (withHeader "invalid regex pattern") 0 statusIsOk := by
  have hreported (negate : Bool) : assertionFailures wholeEnv (withHeader "invalid regex pattern") ⟨statusIsOk, negate⟩ 0 =
      some [⟨"(header:x-status)", "ok", some "invalid regex pattern"⟩] := by
    cases negate <;> decide
  refine ⟨trivial, fun h => ?_⟩
  rw [Complementary, hreported, hreported] at h
  exact iff_not_self h

end RedFireForge.Engine.Assertions
