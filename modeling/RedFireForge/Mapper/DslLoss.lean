/-
# `RedFireForge.Mapper.DslLoss` — what becomes of the other rules

A rule that does not come back is refused, or it is read as one that is smaller: of a kind
that is read from its own lines, with a shorter path or a shorter text.  Were every rule of a
model read from some line, a largest one of those that do not come back would be read from a
larger one.
-/
import Mathlib.Data.Prod.Lex
import Mathlib.Data.Set.Finite.Lemmas
import RedFireForge.Mapper.DslRoundTrip

namespace RedFireForge.Mapper

open RedFireForge.Lib
open RedFireForge.ApiMock (isSpace trim)

variable {ν : Type} {rt : Runtime ν} {q r v cs : List Char} {n : Bool} {op : FieldOperator}

/-! ## The size of a rule -/

/-- Kinds: the lines of one are read as its own kind or as a lower one. -/
def rank : Entry ν → ℕ
  | .inl f =>
      if f.operator.getD .equals = .exists ∨ f.operator.getD .equals = .notExists then 2 else 4
  | .inr (.each ..) => 3
  | .inr (.existence ..) => 2
  | .inr (.custom ..) => 0
  | .inr _ => 1

/-- The length of the path; a predicate with blanks around has one instead. -/
def pathSize : Entry ν → ℕ
  | .inl f => f.jsonPath.length
  | .inr (.custom expression _ _) => if trim expression = expression ∧ expression ≠ [] then 0 else 1
  | .inr a => (a.path?.getD []).length

/-- A member's path can only grow; a description of blanks is lost. -/
def tailSize : Entry ν → ℤ
  | .inr (.each _ fieldPath _ _ _) => -fieldPath.length
  | .inr (.custom _ description _) =>
      if (description.bind nonempty).any (fun d => decide (trim d = [])) then 1 else 0
  | _ => 0

/-- A value that will be put between marks, or the length of a predicate. -/
def textSize : Entry ν → ℕ
  | .inr (.each _ _ op value _) =>
      if op.noValue ∨ op.isList ∨ op = .isType ∨ isRaw (value.getD []) then 0 else 1
  | .inr (.custom expression _ _) => expression.length
  | _ => 0

/-- The length of the value and of the expression; `{}` stands for a subset of blanks. -/
def valueSize : Entry ν → ℕ
  | .inl f =>
      (if (f.operator.getD .equals).noValue then 0 else (f.operatorValue.getD f.expectedValue).length) +
        ((f.expression.bind nonempty).getD []).length
  | .inr (.each _ _ op value _) => if op.noValue then 0 else (value.getD []).length
  | .inr (.arrayContains _ value _ _) => value.length
  | .inr (.containsSubset _ expected _) => expected.length + if trim expected = [] then 3 else 0
  | .inr (.custom _ description _) => ((description.bind nonempty).getD []).length
  | _ => 0

def weight (e : Entry ν) : ℕ ×ₗ ℕ ×ₗ ℤ ×ₗ ℕ ×ₗ ℕ :=
  toLex (rank e, toLex (pathSize e, toLex (tailSize e, toLex (textSize e, valueSize e))))

theorem weight_lt_iff {e e' : Entry ν} : weight e < weight e' ↔ rank e < rank e' ∨ rank e = rank e' ∧
    (pathSize e < pathSize e' ∨ pathSize e = pathSize e' ∧
      (tailSize e < tailSize e' ∨ tailSize e = tailSize e' ∧
        (textSize e < textSize e' ∨ textSize e = textSize e' ∧ valueSize e < valueSize e'))) := by
  simp only [weight, Prod.Lex.toLex_lt_toLex]

theorem weight_canonical (e : Entry ν) : weight (canonical e) = weight e := by
  cases e with
  | inl f =>
      cases h : (f.operator.getD .equals).noValue <;>
        simp [weight, rank, pathSize, tailSize, textSize, valueSize, canonical, h, bind_nonempty_twice]
  | inr a =>
      cases a with
      | existence path expectExists negate =>
          cases expectExists <;>
            simp [weight, rank, pathSize, tailSize, textSize, valueSize, canonical, Assertion.path?]
      | each path fieldPath op value negate =>
          cases h : op.noValue <;>
            simp [weight, rank, pathSize, tailSize, textSize, valueSize, canonical, h, Assertion.path?]
      | custom expression description negate =>
          simp [weight, rank, pathSize, tailSize, textSize, valueSize, canonical, bind_nonempty_twice]
      | _ => rfl

theorem kept_canonical {width : ℕ} (e : Entry ν) : Kept rt width (canonical e) ↔ Kept rt width e := by
  cases e with
  | inl f =>
      have hvalue : ∀ {op : FieldOperator} {value : List Char} {o : Option (List Char)},
          ValueKept op (if op.noValue then [] else value) o ↔ ValueKept op value o := by
        intro op value o
        cases h : op.noValue <;> cases o <;> simp [ValueKept, h]
      simp only [Kept, FieldKept, canonical, Option.getD_some, Option.getD_none, bind_nonempty_twice, hvalue]
  | inr a =>
      cases a with
      | existence path expectExists negate =>
          cases expectExists <;> simp [Kept, FieldKept, ValueKept, canonical, FieldOperator.noValue]
      | each path fieldPath op value negate =>
          cases h : op.noValue <;> simp [Kept, EachKept, canonical, h]
      | custom expression description negate =>
          simp [Kept, CustomKept, canonical, bind_nonempty_twice]
      | _ => rfl

/-! ## Paths -/

/-- The path of a rule that was read is not longer, and as long only if it is kept. -/
theorem modelPath_shown {jsonPath : List Char} (h : CleanPath jsonPath)
    (hassert : dropKeyword "ASSERT".toList (barePath jsonPath) = none) :
    (PathKept jsonPath ∧ modelPath (shownPath jsonPath) = jsonPath) ∨
      (modelPath (shownPath jsonPath)).length < jsonPath.length := by
  have hlength : jsonPath.length = (barePath jsonPath).length + 2 := by
    rw [cleanPath_eq h]
    rfl
  by_cases hnil : barePath jsonPath = []
  · refine .inr ?_
    rw [shownPath, if_pos hnil, hlength]
    show 1 < _
    omega
  · have hshown : shownPath jsonPath = barePath jsonPath := if_neg hnil
    rw [hshown]
    by_cases hdollar : ['$'] <+: barePath jsonPath
    · refine .inr ?_
      rw [modelPath, if_pos hdollar, hlength]
      omega
    · have hkept : PathKept jsonPath := by
        refine ⟨hnil, hdollar, fun hword => ?_⟩
        have hsome : dropKeyword "ASSERT".toList (barePath jsonPath) = some _ := if_pos hword
        rw [hsome] at hassert
        cases hassert
      exact .inl ⟨hkept, path_restored h hkept⟩

theorem isPath_shown {jsonPath : List Char} (h : CleanPath jsonPath)
    (hassert : dropKeyword "ASSERT".toList (barePath jsonPath) = none) : IsPath (shownPath jsonPath) := by
  rw [shownPath]
  split
  · exact ⟨by simp, by simp; rfl, by decide, rfl⟩
  · next hne =>
      refine ⟨hne, h.2.solid, ⟨fun hhash => ?_, fun hslash => h.2.2 hslash.isInfix⟩, hassert⟩
      exact (h.2.1 '#' (hhash.subset (by simp))).2 (by simp)

/-- The width holds the path as it is shown. -/
theorem shown_lt {jsonPath : List Char} {width : ℕ} (h : (utf16 (barePath jsonPath)).length < width)
    (htwo : 1 < width) : (utf16 (shownPath jsonPath)).length < width := by
  rw [shownPath]
  split
  · exact htwo
  · exact h

theorem kind_parseAssert {after : List Char} {rule : Rule} (h : parseAssert n after = .ok rule) :
    rule.kind = .custom := by
  simp only [parseAssert] at h
  split at h
  · cases h
  · cases h
    rfl

/-- A path that starts like a predicate is read as one. -/
theorem readLine_assert {rule : Rule} (hone : OneLine (q ++ r)) (hsolid : ∀ c ∈ q, isSpace c = false)
    (hassert : dropKeyword "ASSERT".toList q ≠ none) (hread : readLine rt (q ++ r) = some (.ok rule)) :
    rule.kind = .custom := by
  have hword : (q.take 6).map Char.toUpper = "ASSERT".toList := by
    by_contra h
    exact hassert (if_neg h)
  obtain ⟨c, cs, rfl, hc⟩ : ∃ c cs, q = c :: cs ∧ c.toUpper = 'A' := by
    cases q with
    | nil => simp at hword
    | cons c cs => exact ⟨c, cs, rfl, by simpa using congrArg List.head? hword⟩
  have hlength : 6 ≤ (c :: cs).length := by
    have := congrArg List.length hword
    simp only [List.length_map, List.length_take, String.length_toList] at this
    have hsix : "ASSERT".length = 6 := by decide
    omega
  have htrim : trim (c :: cs ++ r) = c :: cs ++ r.rdropWhile isSpace := trim_word_append hsolid (by simp)
  have hmatch : ∃ after, assertMatch (c :: cs ++ r.rdropWhile isSpace) = some (false, after) := by
    have hnot : stripNot (c :: cs ++ r.rdropWhile isSpace) = none :=
      stripNot_of_head (by rw [hc]; decide)
    have hdrop : dropKeyword "ASSERT".toList (c :: cs ++ r.rdropWhile isSpace) =
        some ((c :: cs ++ r.rdropWhile isSpace).drop 6) := by
      refine if_pos ?_
      have htake : (c :: cs ++ r.rdropWhile isSpace).take "ASSERT".toList.length = (c :: cs).take 6 :=
        List.take_append_of_le_length hlength
      rw [htake]
      exact hword
    have hend : ¬ (((c :: cs ++ r.rdropWhile isSpace).drop 6).dropWhile isSpace).any lineEnd = true := by
      apply OneLine.any
      intro a ha
      have hmem := (List.drop_suffix 6 _).subset ((List.dropWhile_suffix _).subset ha)
      rcases List.mem_append.mp hmem with hmem | hmem
      · exact hone a (List.mem_append_left _ hmem)
      · exact hone a (List.mem_append_right _ ((List.rdropWhile_prefix _ _).subset hmem))
    refine ⟨((c :: cs ++ r.rdropWhile isSpace).drop 6).dropWhile isSpace, ?_⟩
    rw [assertMatch, hnot, Option.getD_none, hdrop]
    simp only [Option.bind_some]
    rw [if_neg hend]
    rfl
  obtain ⟨after, hmatch⟩ := hmatch
  simp only [readLine, htrim, hmatch] at hread
  split at hread
  · cases hread
  · exact kind_parseAssert (Option.some.inj hread)

/-- What a predicate adds is a predicate. -/
theorem rank_custom {rule : Rule} {e : Entry ν} (hkind : rule.kind = .custom)
    (h : ruleToModel rt rule = some e) : rank e = 0 := by
  obtain ⟨path, operator, value, negate, expression, kind⟩ := rule
  subst hkind
  cases h
  rfl

/-! ## Fields -/

theorem weight_lt_of_rank {e e' : Entry ν} (h : rank e < rank e') : weight e < weight e' :=
  weight_lt_iff.mpr (.inl h)

theorem weight_lt_of_path {e e' : Entry ν} (hrank : rank e = rank e') (h : pathSize e < pathSize e') :
    weight e < weight e' :=
  weight_lt_iff.mpr (.inr ⟨hrank, .inl h⟩)

/-- What a field operator with its value is read as. -/
theorem fieldRule_ok {rawOp : List Char} {rawValue : Option (List Char)} {rule : Rule}
    (h : fieldRule op rawOp q rawValue n = .ok rule) :
    (op.noValue = false → rawValue ≠ none) ∧
      (op = .isType ∧ rule.kind = .typeCheck ∨
        (op = .exists ∨ op = .notExists) ∧ rule = ⟨q, op.text, none, n, none, .existence⟩ ∨
          op ≠ .isType ∧ ¬ (op = .exists ∨ op = .notExists) ∧
            (rule.kind = .each ∧ rule.path = q ∨ hasStar q = false ∧
              ("expr:".toList <+: rawValue.getD [] ∧
                rule = ⟨q, op.text, none, n, some ((rawValue.getD []).drop 5), .field⟩ ∨
                ¬ "expr:".toList <+: rawValue.getD [] ∧
                  rule = ⟨q, op.text, storedValue op rawValue, n, none, .field⟩))) := by
  rw [fieldRule] at h
  split at h
  · cases h
  · next hvalue =>
      refine ⟨fun hno hnone => hvalue ⟨hno, hnone⟩, ?_⟩
      split at h
      · next htype =>
          cases h
          exact .inl ⟨htype, rfl⟩
      · next htype =>
          split at h
          · next hexists =>
              cases h
              exact .inr (.inl ⟨hexists, rfl⟩)
          · next hexists =>
              refine .inr (.inr ⟨htype, hexists, ?_⟩)
              split at h
              · cases h
                exact .inl ⟨rfl, rfl⟩
              · next hstar =>
                  refine .inr ⟨by simpa using hstar, ?_⟩
                  split at h
                  · next hexpr =>
                      cases h
                      exact .inl ⟨hexpr, rfl⟩
                  · next hexpr =>
                      cases h
                      exact .inr ⟨hexpr, rfl⟩

theorem rank_typeCheck {rule : Rule} {e : Entry ν} (hkind : rule.kind = .typeCheck)
    (h : ruleToModel rt rule = some e) : rank e = 1 := by
  obtain ⟨path, operator, value, negate, expression, kind⟩ := rule
  subst hkind
  cases h
  rfl

theorem rank_each {rule : Rule} {e : Entry ν} (hkind : rule.kind = .each)
    (h : ruleToModel rt rule = some e) : rank e = 3 := by
  obtain ⟨path, operator, value, negate, expression, kind⟩ := rule
  subst hkind
  obtain ⟨op, -, he⟩ := Option.map_eq_some_iff.mp h
  rw [← he]
  rfl

theorem length_nonempty (cs : List Char) : ((nonempty cs).getD []).length = cs.length := by
  rw [nonempty]
  split
  · next h => rw [h]; rfl
  · rfl

theorem length_unescape (cs : List Char) : (unescape cs).length ≤ cs.length := by
  fun_induction unescape cs with
  | case1 c cs hend ih => simpa using ih
  | case2 c cs hend ih =>
      simp only [List.length_cons]
      omega
  | case3 c cs hne ih => simpa using ih
  | case4 => simp

theorem length_trim (cs : List Char) : (trim cs).length ≤ cs.length :=
  (List.rdropWhile_prefix _ _).length_le.trans (List.dropWhile_suffix _).length_le

theorem trim_eq_of_length {cs : List Char} (h : (trim cs).length = cs.length) : trim cs = cs := by
  have hdrop : (cs.dropWhile isSpace).length ≤ cs.length := (List.dropWhile_suffix _).length_le
  have hcut : (trim cs).length ≤ (cs.dropWhile isSpace).length := (List.rdropWhile_prefix _ _).length_le
  have hfirst : cs.dropWhile isSpace = cs := (List.dropWhile_suffix _).eq_of_length (by omega)
  have hlast : trim cs = cs.dropWhile isSpace := (List.rdropWhile_prefix _ _).eq_of_length (by
    show (trim cs).length = _
    omega)
  rw [hlast, hfirst]

/-- What is read of a printed value is shorter, or it is the value. -/
theorem storedValue_quoteValue (hvalue : op.noValue = false) (hlist : op.isList = false)
    (htype : op ≠ .isType) : trim (quoteValue v op) = quoteValue v op ∧ quoteValue v op ≠ [] ∧
      ¬ "expr:".toList <+: quoteValue v op ∧
      ∃ w, storedValue op (some (quoteValue v op)) = some w ∧
        (isQuoted '"' v = false ∨ w.length < v.length) := by
  by_cases hquoted : isQuoted '"' v = true
  · have hraw : isRaw v = true := by simp [isRaw, hquoted]
    rw [quoteValue_eq hvalue hlist htype, if_pos hraw]
    refine ⟨(trim_isRaw hraw).1, (trim_isRaw hraw).2, not_expr_isRaw hraw, unquote v, ?_, .inr ?_⟩
    · simp [storedValue, hlist]
    · have hpos : 0 < v.length := List.length_pos_iff.mpr (trim_isRaw hraw).2
      have hinner := length_unescape (v.drop 1).dropLast
      rw [unquote, if_pos (by simp [hquoted])]
      simp only [List.length_dropLast, List.length_drop] at hinner
      omega
  · have hplain : isQuoted '"' v = false := by simpa using hquoted
    obtain ⟨htrim, hne, hexpr, hstored⟩ := storedValue_printed hvalue hlist htype hplain
    exact ⟨htrim, hne, hexpr, v, hstored, .inl hplain⟩

/-- The value of a field as it is found on its line. -/
def foundValue (f : ExpectedField) : Option (List Char) :=
  let op := f.operator.getD .equals
  if op.noValue then none
  else match f.expression.bind nonempty with
    | some x => some ("expr:".toList ++ x.rdropWhile isSpace)
    | none => nonempty (trim (quoteValue (f.operatorValue.getD f.expectedValue) op))

theorem readLine_fieldLine {f : ExpectedField} {width : ℕ} (hdom : InDomain (ν := ν) (.inl f))
    (hq : IsPath (shownPath f.jsonPath)) (hwidth : (utf16 (shownPath f.jsonPath)).length < width) :
    readLine rt (fieldLine width f) = some (fieldRule (f.operator.getD .equals)
      (f.operator.getD .equals).keyword (shownPath f.jsonPath) (foundValue f) f.negate) := by
  obtain ⟨-, hop, hvalue, hexpression⟩ := hdom
  simp only [fieldLine, foundValue]
  generalize f.operator.getD .equals = op at *
  cases hnone : op.noValue with
  | true =>
      have hread : readLine rt (padEnd width (shownPath f.jsonPath) ++
          (negText f.negate ++ (op.keyword ++ (gap 0 ++ [])))) = some (fieldRule op op.keyword
            (shownPath f.jsonPath) none f.negate) :=
        readLine_operator rt hq hwidth hop (.inr rfl) (oneLine_of_all rfl)
      rw [if_pos rfl, if_pos rfl, ← hread]
      simp [gap]
  | false =>
      obtain ⟨m, hm, hgap⟩ := (gap_keyword hop).1
      rw [if_neg (by simp), if_neg (by simp), hgap]
      cases hexp : f.expression.bind nonempty with
      | some x =>
          have hone : OneLine ("expr:".toList ++ x) :=
            oneLine_append (oneLine_of_all rfl) (oneLine_expression hexpression hexp)
          have hread := readLine_operator rt (n := f.negate) hq hwidth hop (.inl hm) hone
          rw [trim_expr, nonempty_of_ne (by simp), ← List.append_assoc op.keyword] at hread
          exact hread
      | none =>
          have hread := readLine_operator rt (n := f.negate) hq hwidth hop (.inl hm)
            (oneLine_quoteValue op hvalue)
          rw [← List.append_assoc op.keyword] at hread
          exact hread

/-- A field is smaller if it has another path, or less in it. -/
theorem weight_field_lt {f w : ExpectedField}
    (hmp : (PathKept f.jsonPath ∧ modelPath (shownPath f.jsonPath) = f.jsonPath) ∨
      (modelPath (shownPath f.jsonPath)).length < f.jsonPath.length)
    (hpath : w.jsonPath = modelPath (shownPath f.jsonPath))
    (hoperator : w.operator = some (f.operator.getD .equals))
    (hvalue : PathKept f.jsonPath → valueSize (.inl w : Entry ν) < valueSize (.inl f : Entry ν)) :
    weight (.inl w : Entry ν) < weight (.inl f : Entry ν) := by
  have hrank : rank (.inl w : Entry ν) = rank (.inl f : Entry ν) := by
    simp [rank, hoperator]
  rcases hmp with ⟨hkept, heq⟩ | hlt
  · refine weight_lt_iff.mpr (.inr ⟨hrank, .inr ⟨?_, .inr ⟨rfl, .inr ⟨rfl, hvalue hkept⟩⟩⟩⟩)
    rw [pathSize, pathSize, hpath, heq]
  · refine weight_lt_of_path hrank ?_
    rw [pathSize, pathSize, hpath]
    exact hlt

/-- An operator without a value loses its expression only. -/
theorem noValue_lost {f : ExpectedField} (hnot : ¬ FieldKept f) (hkept : PathKept f.jsonPath)
    (hnone : (f.operator.getD .equals).noValue = true)
    (hstar : hasStar (barePath f.jsonPath) = true →
      f.operator.getD .equals = .exists ∨ f.operator.getD .equals = .notExists) :
    0 < valueSize (.inl f : Entry ν) := by
  have htype : f.operator.getD .equals ≠ .isType := by
    intro h
    rw [h] at hnone
    cases hnone
  cases hexp : f.expression.bind nonempty with
  | none =>
      refine absurd ⟨hkept, htype, hstar, ?_⟩ hnot
      rw [hexp]
      exact .inl hnone
  | some x =>
      simp only [valueSize, hexp, Option.getD_some]
      have hpos := List.length_pos_iff.mpr (bind_nonempty hexp).2
      omega

/-- With a value, what is read is shorter. -/
theorem foundValue_lost {f : ExpectedField} (hnot : ¬ FieldKept f) (hkept : PathKept f.jsonPath)
    (hnone : (f.operator.getD .equals).noValue = false) (htype : f.operator.getD .equals ≠ .isType)
    (hstar : hasStar (barePath f.jsonPath) = false) (hfound : foundValue f ≠ none) :
    if "expr:".toList <+: (foundValue f).getD [] then
      ((foundValue f).getD []).length < 5 + valueSize (.inl f : Entry ν)
    else ((storedValue (f.operator.getD .equals) (foundValue f)).getD []).length <
      valueSize (.inl f : Entry ν) := by
  have hlost : ¬ ValueKept (f.operator.getD .equals) (f.operatorValue.getD f.expectedValue)
      (f.expression.bind nonempty) :=
    fun h => hnot ⟨hkept, htype, by simp [hstar], h⟩
  simp only [foundValue, hnone, valueSize] at hfound ⊢
  generalize f.operator.getD .equals = op at *
  generalize f.operatorValue.getD f.expectedValue = value at *
  cases hexp : f.expression.bind nonempty with
  | some x =>
      rw [hexp] at hlost hfound
      have hcut : (x.rdropWhile isSpace).length ≤ x.length := (List.rdropWhile_prefix _ _).length_le
      have hfive : "expr:".toList.length = 5 := rfl
      simp only [Bool.false_eq_true, if_false, Option.getD_some]
      rw [if_pos (List.prefix_append _ _), List.length_append, hfive]
      by_contra hle
      refine hlost ⟨hnone, List.length_eq_zero_iff.mp (by omega), (List.rdropWhile_prefix _ _).eq_of_length ?_⟩
      omega
  | none =>
      rw [hexp] at hlost hfound
      simp only [Bool.false_eq_true, if_false, Option.getD_none, List.length_nil, Nat.add_zero] at hfound ⊢
      cases hlist : op.isList with
      | true =>
          have hquote : quoteValue value op = value := by
            rw [quoteValue, if_neg (by simp [hnone]), if_pos (.inl hlist)]
          rw [hquote] at hfound ⊢
          have hne : trim value ≠ [] := by
            intro h
            exact hfound (by rw [h]; rfl)
          have hle := length_trim value
          rw [nonempty_of_ne hne, Option.getD_some]
          split
          · omega
          · next hexpr =>
              simp only [storedValue, hlist, Option.map_some, if_true, Option.getD_some]
              by_contra hlt
              have htrim := trim_eq_of_length (le_antisymm hle (not_lt.mp hlt))
              rw [htrim] at hne hexpr
              refine hlost (.inr ?_)
              rw [if_pos hlist]
              exact ⟨htrim, hne, hexpr⟩
      | false =>
          obtain ⟨htrim, hne, hexpr, w, hstored, hw⟩ :=
            storedValue_quoteValue (v := value) hnone hlist htype
          rw [htrim, nonempty_of_ne hne, Option.getD_some, if_neg hexpr, hstored, Option.getD_some]
          refine hw.resolve_left fun hquoted => hlost (.inr ?_)
          rw [if_neg (by simp [hlist])]
          exact hquoted

theorem hasStar_shown {jsonPath : List Char} (h : PathKept jsonPath) :
    hasStar (shownPath jsonPath) = hasStar (barePath jsonPath) := by
  rw [shownPath_of_kept h]

/-- A field that does not come back is read as a smaller rule. -/
theorem field_lost {f : ExpectedField} {width : ℕ} {rule : Rule} {e : Entry ν}
    (hdom : InDomain (ν := ν) (.inl f))
    (hassert : dropKeyword "ASSERT".toList (barePath f.jsonPath) = none)
    (hwidth : (utf16 (shownPath f.jsonPath)).length < width) (hnot : ¬ FieldKept f)
    (hread : readLine rt (fieldLine width f) = some (.ok rule)) (hmodel : ruleToModel rt rule = some e) :
    weight e < weight (.inl f : Entry ν) := by
  rw [readLine_fieldLine hdom (isPath_shown hdom.1 hassert) hwidth, Option.some.injEq] at hread
  have hmp := modelPath_shown hdom.1 hassert
  have hop := hdom.2.1
  obtain ⟨hsome, hcases⟩ := fieldRule_ok hread
  rcases hcases with ⟨htype, hkind⟩ | ⟨hexists, rfl⟩ | ⟨htype, hexists, ⟨hkind, -⟩ | ⟨hstar, hrule⟩⟩
  · refine weight_lt_of_rank ?_
    rw [rank_typeCheck hkind hmodel]
    simp [rank, htype]
  · have hnone : (f.operator.getD .equals).noValue = true := by
      rcases hexists with h | h <;> rw [h] <;> rfl
    simp only [ruleToModel, ofText_text hop, Option.some.injEq] at hmodel
    rw [← hmodel]
    refine weight_field_lt hmp rfl rfl fun hkept => ?_
    have hpos := noValue_lost (ν := ν) hnot hkept hnone fun _ => hexists
    simpa [valueSize, hnone] using hpos
  · refine weight_lt_of_rank ?_
    rw [rank_each hkind hmodel]
    simp [rank, hexists]
  · cases hnone : (f.operator.getD .equals).noValue with
    | true =>
        have hfound : foundValue f = none := by rw [foundValue, if_pos hnone]
        rw [hfound] at hrule
        rcases hrule with ⟨hexpr, -⟩ | ⟨-, rfl⟩
        · simp at hexpr
        · simp only [ruleToModel, ofText_text hop, hnone, Option.some.injEq] at hmodel
          rw [← hmodel]
          refine weight_field_lt hmp rfl rfl fun hkept => ?_
          have hpos := noValue_lost (ν := ν) hnot hkept hnone (by simp [← hasStar_shown hkept, hstar])
          simpa [valueSize, hnone, storedValue] using hpos
    | false =>
        have hshorter := fun hkept => foundValue_lost (ν := ν) hnot hkept hnone htype
          (by rw [← hasStar_shown hkept, hstar]) (hsome hnone)
        rcases hrule with ⟨hexpr, rfl⟩ | ⟨hexpr, rfl⟩
        · rw [ruleToModel_field hop hnone, Option.some.injEq] at hmodel
          rw [← hmodel]
          refine weight_field_lt hmp rfl rfl fun hkept => ?_
          have hlt := hshorter hkept
          rw [if_pos hexpr] at hlt
          have hfive := hexpr.length_le
          have hprefix : "expr:".toList.length = 5 := rfl
          have hvalue : valueSize (.inl ⟨modelPath (shownPath f.jsonPath), [], some (f.operator.getD .equals), none,
              f.negate, (some (((foundValue f).getD []).drop 5)).bind nonempty⟩ : Entry ν) =
                ((foundValue f).getD []).length - 5 := by
            have htwice : (nonempty (((foundValue f).getD []).drop 5)).bind nonempty =
                nonempty (((foundValue f).getD []).drop 5) := bind_nonempty_twice (some _)
            simp [valueSize, hnone, htwice, length_nonempty]
          simp only [Option.getD_none]
          rw [hvalue]
          omega
        · rw [ruleToModel_field hop hnone, Option.some.injEq] at hmodel
          rw [← hmodel]
          refine weight_field_lt hmp rfl rfl fun hkept => ?_
          have hlt := hshorter hkept
          rw [if_neg hexpr] at hlt
          refine lt_of_eq_of_lt ?_ hlt
          cases storedValue (f.operator.getD .equals) (foundValue f) <;> simp [valueSize, hnone]

/-! ## Assertions with a path of their own -/

/-- An assertion of which only the path matters. -/
theorem weight_path_lt {path : List Char} {e e' : Entry ν} (hrank : rank e = rank e')
    (hmp : (PathKept path ∧ modelPath (shownPath path) = path) ∨
      (modelPath (shownPath path)).length < path.length)
    (hpath : pathSize e = (modelPath (shownPath path)).length) (hpath' : pathSize e' = path.length)
    (hnot : PathKept path → tailSize e = tailSize e' ∧ textSize e = textSize e' ∧
      valueSize e < valueSize e') : weight e < weight e' := by
  rcases hmp with ⟨hkept, heq⟩ | hlt
  · obtain ⟨htail, htext, hvalue⟩ := hnot hkept
    exact weight_lt_iff.mpr (.inr ⟨hrank, .inr ⟨by rw [hpath, hpath', heq],
      .inr ⟨htail, .inr ⟨htext, hvalue⟩⟩⟩⟩)
  · exact weight_lt_of_path hrank (by rw [hpath, hpath']; exact hlt)

variable {path : List Char} {width : ℕ} {rule : Rule} {e : Entry ν}

theorem typeCheck_lost {expectedType : List Char} (hpath : CleanPath path)
    (htype : expectedType ∈ jsonTypeNames)
    (hassert : dropKeyword "ASSERT".toList (barePath path) = none)
    (hwidth : (utf16 (shownPath path)).length < width) (hnot : ¬ PathKept path)
    (hread : readLine rt (assertionLine rt width (.typeCheck path expectedType n)) = some (.ok rule))
    (hmodel : ruleToModel rt rule = some e) :
    weight e < weight (.inr (.typeCheck path expectedType n) : Entry ν) := by
  obtain ⟨hone, htrim, hne, -⟩ := typeName_plain (ν := ν) htype
  have hline := readLine_operator rt (n := n) (m := 13) (isPath_shown hpath hassert) hwidth
    (show FieldOperator.isType.Known by decide) (.inl (by decide)) hone
  rw [htrim, nonempty_of_ne hne, fieldRule, if_neg (by simp), if_pos rfl] at hline
  have hread := hline.symm.trans hread
  rw [Option.some.injEq, Except.ok.injEq] at hread
  subst hread
  cases hmodel
  exact weight_path_lt rfl (modelPath_shown hpath hassert) rfl rfl fun hkept => absurd hkept hnot

theorem existence_lost {expectExists : Bool} (hpath : CleanPath path)
    (hassert : dropKeyword "ASSERT".toList (barePath path) = none)
    (hwidth : (utf16 (shownPath path)).length < width) (hnot : ¬ PathKept path)
    (hread : readLine rt (assertionLine rt width (.existence path expectExists n)) = some (.ok rule))
    (hmodel : ruleToModel rt rule = some e) :
    weight e < weight (.inr (.existence path expectExists n) : Entry ν) := by
  rw [existence_line] at hread
  have hlt := field_lost (existence_inDomain expectExists n hpath) hassert hwidth
    (fun hkept => hnot hkept.1) hread hmodel
  rw [← weight_canonical (.inr (.existence path expectExists n)), canonical]
  exact hlt

theorem arrayLength_lost {op : ComparisonOperator} {value : ν} (hpath : CleanPath path)
    (hassert : dropKeyword "ASSERT".toList (barePath path) = none)
    (hwidth : (utf16 (shownPath path)).length < width) (hnot : ¬ PathKept path)
    (hread : readLine rt (assertionLine rt width (.arrayLength path op value n)) = some (.ok rule))
    (hmodel : ruleToModel rt rule = some e) :
    weight e < weight (.inr (.arrayLength path op value n) : Entry ν) := by
  have hread := (readLine_arrayLength rt op value (isPath_shown hpath hassert) hwidth).symm.trans hread
  rw [Option.some.injEq, Except.ok.injEq] at hread
  subst hread
  rw [ruleToModel_length, Option.some.injEq] at hmodel
  subst hmodel
  exact weight_path_lt rfl (modelPath_shown hpath hassert) rfl rfl fun hkept => absurd hkept hnot

/-- A value that is accepted is one that is read as JSON. -/
theorem parseContains_ok {opLower : List Char} {raw : Option (List Char)}
    (h : parseContains rt opLower q raw n = .ok rule) :
    rule = ⟨q, opLower, raw, n, none, .containsItem⟩ ∧ ∀ v, raw = some v → trim v = v → JsonKept rt v := by
  cases raw with
  | none =>
      cases h
      exact ⟨rfl, nofun⟩
  | some value =>
      simp only [parseContains] at h
      split at h
      · cases h
      · next hlooks =>
          split at h
          · cases h
          · next hparse =>
              cases h
              refine ⟨rfl, fun v hv htrim => ⟨htrim, ?_⟩⟩
              obtain rfl := Option.some.inj hv
              rw [htrim] at hlooks hparse
              by_cases hmark : value.head? = some '"'
              · exact .inl hmark
              · have hnested : looksNested value = true := by
                  by_contra hno
                  exact hlooks (by simp [hno, hmark])
                refine .inr ⟨hnested, ?_⟩
                by_contra hnone
                exact hparse ⟨hnested, by simpa using hnone⟩

theorem parseSubset_ok {raw : Option (List Char)} (h : parseSubset rt q raw n = .ok rule) :
    rule = ⟨q, "subset".toList, raw, n, none, .subset⟩ ∧
      ∀ v, raw = some v → trim v = v → JsonKept rt v := by
  cases raw with
  | none =>
      cases h
      exact ⟨rfl, nofun⟩
  | some value =>
      simp only [parseSubset] at h
      split at h
      · next hnested =>
          split at h
          · cases h
          · next hparse =>
              cases h
              refine ⟨rfl, fun v hv htrim => ⟨htrim, .inr ?_⟩⟩
              obtain rfl := Option.some.inj hv
              rw [htrim] at hnested hparse
              exact ⟨hnested, Option.isSome_iff_ne_none.mpr (by simpa using hparse)⟩
      · split at h
        · cases h
        · next hmark =>
            cases h
            refine ⟨rfl, fun v hv htrim => ⟨htrim, .inl ?_⟩⟩
            obtain rfl := Option.some.inj hv
            rw [htrim] at hmark
            simpa using hmark

theorem arrayContains_lost {value : List Char} {mode : ContainsMode} (hpath : CleanPath path)
    (hone : OneLine value) (hassert : dropKeyword "ASSERT".toList (barePath path) = none)
    (hwidth : (utf16 (shownPath path)).length < width)
    (hnot : ¬ (PathKept path ∧ (value = [] ∨ JsonKept rt value)))
    (hread : readLine rt (assertionLine rt width (.arrayContains path value mode n)) = some (.ok rule))
    (hmodel : ruleToModel rt rule = some e) :
    weight e < weight (.inr (.arrayContains path value mode n) : Entry ν) := by
  have hread := (readLine_contains rt mode (isPath_shown hpath hassert) hwidth hone).symm.trans hread
  obtain ⟨hrule, hjson⟩ := parseContains_ok (Option.some.inj hread)
  rw [hrule, ruleToModel_contains, Option.some.injEq] at hmodel
  subst hmodel
  refine weight_path_lt rfl (modelPath_shown hpath hassert) rfl rfl fun hkept => ⟨rfl, rfl, ?_⟩
  have hle := length_trim value
  show ((nonempty (trim value)).getD []).length < value.length
  rw [length_nonempty]
  refine lt_of_le_of_ne hle fun heq => hnot ⟨hkept, ?_⟩
  have htrim := trim_eq_of_length heq
  by_cases hnil : value = []
  · exact .inl hnil
  · exact .inr (hjson value (by rw [htrim, nonempty_of_ne hnil]) htrim)

theorem containsSubset_lost {expected : List Char} (hpath : CleanPath path) (hone : OneLine expected)
    (hassert : dropKeyword "ASSERT".toList (barePath path) = none)
    (hwidth : (utf16 (shownPath path)).length < width) (hnot : ¬ (PathKept path ∧ JsonKept rt expected))
    (hread : readLine rt (assertionLine rt width (.containsSubset path expected n)) = some (.ok rule))
    (hmodel : ruleToModel rt rule = some e) :
    weight e < weight (.inr (.containsSubset path expected n) : Entry ν) := by
  have hread := (readLine_subset rt (isPath_shown hpath hassert) hwidth hone).symm.trans hread
  obtain ⟨hrule, hjson⟩ := parseSubset_ok (Option.some.inj hread)
  rw [hrule] at hmodel
  cases hmodel
  refine weight_path_lt rfl (modelPath_shown hpath hassert) rfl rfl fun hkept => ⟨rfl, rfl, ?_⟩
  by_cases hnil : trim expected = []
  · simp only [valueSize, hnil]
    show 2 + 0 < expected.length + 3
    omega
  · have hle := length_trim expected
    have htwice : trim (trim expected) = trim expected := trimBy_trimBy
    simp only [valueSize, nonempty_of_ne hnil, Option.getD_some, htwice, hnil]
    refine lt_of_le_of_ne (by simpa using hle) fun heq => hnot ⟨hkept, ?_⟩
    have htrim := trim_eq_of_length (by simpa using heq)
    rw [htrim] at hnil
    exact hjson expected (by rw [htrim, nonempty_of_ne hnil]) htrim

/-! ## Assertions about members -/

theorem splitStar_of_hasStar {c : Char} (h : hasStar cs = true) :
    ∃ a f, splitStar (c :: (cs ++ r)) = some (a, f) ∧ a.length ≤ cs.length := by
  induction cs generalizing c with
  | nil => simp [hasStar] at h
  | cons d ds ih =>
      by_cases hfirst : "[*]".toList <+: d :: ds ++ r
      · obtain ⟨t, ht⟩ := hfirst
        have hsplit := splitStar_append (r := t) (List.cons_ne_nil c []) (hasStar_eq_false.mpr (by
          intro hin
          have := hin.length_le
          simp at this))
        rw [← ht]
        exact ⟨[c], _, hsplit, by simp⟩
      · have hrest : hasStar ds = true := by
          have hin : "[*]".toList <:+: d :: ds := of_decide_eq_true h
          rw [List.infix_cons_iff] at hin
          refine decide_eq_true (hin.resolve_left fun hstart => hfirst ?_)
          exact hstart.trans (List.prefix_append _ _)
        obtain ⟨a, f, hsplit, hle⟩ := ih (c := d) hrest
        rw [splitStar_cons hfirst, List.cons_append, hsplit]
        exact ⟨c :: a, f, rfl, by simpa using hle⟩

/-- The path of the array ends at the first star, or before. -/
theorem starMatch_path {s : List Char} (hq : IsPath q) (hs : ∀ c ∈ s, isSpace c = false) :
    ∃ a f, starMatch (modelPath (q ++ ("[*]".toList ++ s))) = some (a, f) ∧
      (a = modelPath q ∧ f = (if s.head? = some '.' then s.drop 1 else s) ∧ hasStar (modelPath q) = false ∨
        a.length < (modelPath q).length) := by
  have hdollar : ['$'] <+: q ++ ("[*]".toList ++ s) ↔ ['$'] <+: q := by
    constructor
    · intro h
      exact List.prefix_of_prefix_length_le h (List.prefix_append _ _) (List.length_pos_iff.mpr hq.ne_nil)
    · exact fun h => h.trans (List.prefix_append _ _)
  have hmodel : modelPath (q ++ ("[*]".toList ++ s)) = modelPath q ++ ("[*]".toList ++ s) := by
    by_cases h : ['$'] <+: q
    · rw [modelPath, if_pos (hdollar.mpr h), modelPath, if_pos h]
    · rw [modelPath, if_neg (mt hdollar.mp h), modelPath, if_neg h, List.append_assoc]
  obtain ⟨cs, hcs⟩ : ∃ cs, modelPath q = '$' :: cs := by
    by_cases h : ['$'] <+: q
    · obtain ⟨t, ht⟩ := h
      exact ⟨t, by rw [modelPath, if_pos ⟨t, ht⟩, ← ht]; rfl⟩
    · exact ⟨_, by rw [modelPath, if_neg h]; rfl⟩
  have hone : OneLine (modelPath q ++ ("[*]".toList ++ s)) := by
    refine oneLine_append ?_ (oneLine_append (oneLine_of_all rfl) (oneLine_solid hs))
    rw [modelPath]
    split
    · exact oneLine_solid hq.solid
    · exact oneLine_append (oneLine_of_all rfl) (oneLine_solid hq.solid)
  rw [hmodel, starMatch, if_neg hone.any]
  by_cases hstar : hasStar (modelPath q) = true
  · have hrest : hasStar cs = true := by
      have hin : "[*]".toList <:+: '$' :: cs := by
        rw [← hcs]
        exact of_decide_eq_true hstar
      rw [List.infix_cons_iff] at hin
      refine decide_eq_true (hin.resolve_left ?_)
      rintro ⟨t, ht⟩
      simp at ht
    obtain ⟨a, f, hsplit, hle⟩ := splitStar_of_hasStar (c := '$') (r := "[*]".toList ++ s) hrest
    refine ⟨a, f, by rw [hcs]; exact hsplit, .inr ?_⟩
    rw [hcs, List.length_cons]
    omega
  · have hplain : hasStar (modelPath q) = false := by simpa using hstar
    exact ⟨modelPath q, _, splitStar_append (by rw [hcs]; simp) hplain, .inl ⟨rfl, rfl, hplain⟩⟩

/-- The text of an `each` after its path: a word, a gap and a value. -/
theorem each_tail {value : Option (List Char)} (hop : op.Known) (hvalue : OneLine (value.getD [])) :
    ∃ m w, (m ≠ 0 ∨ w = []) ∧ OneLine w ∧ w = (if op.noValue then [] else quoteValue (value.getD []) op) ∧
      (if op.noValue then op.keyword else padEnd 16 op.keyword ++ quoteValue (value.getD []) op) =
        op.keyword ++ (gap m ++ w) := by
  cases hnone : op.noValue with
  | true => exact ⟨0, [], .inr rfl, oneLine_of_all rfl, rfl, by simp [gap]⟩
  | false =>
      obtain ⟨m, hm, hgap⟩ := (gap_keyword hop).2
      refine ⟨m, _, .inl hm, oneLine_quoteValue op hvalue, rfl, ?_⟩
      rw [if_neg (by simp), hgap, List.append_assoc]

theorem ruleToModel_of_each {a f : List Char}
    (hkind : rule.kind = .each) (hstar : starMatch (modelPath rule.path) = some (a, f))
    (h : ruleToModel rt rule = some e) :
    ∃ op, eachOperator rt rule.operator = some op ∧ e = .inr (.each a f op rule.value rule.negate) := by
  obtain ⟨path, operator, value, negate, expression, kind⟩ := rule
  subst hkind
  obtain ⟨op, hop, he⟩ := Option.map_eq_some_iff.mp h
  refine ⟨op, hop, ?_⟩
  rw [← he]
  have hstar : starMatch (if ['$'] <+: path then path else "$.".toList ++ path) = some (a, f) := hstar
  rw [hstar]
  rfl

/-- Of an `each` whose path is printed with more behind it, the path of the members grows. -/
theorem each_grown {fieldPath w : List Char} {value : Option (List Char)} (hpath : CleanPath path)
    (hfield : Clean fieldPath) (hassert : dropKeyword "ASSERT".toList (barePath path) = none)
    (hw : ∀ c ∈ w, isSpace c = false) (hne : w ≠ []) (hdot : w.head? ≠ some '.')
    (hkind : rule.kind = .each) (hrule : rule.path = eachPath path fieldPath ++ w)
    (hmodel : ruleToModel rt rule = some e) :
    weight e < weight (.inr (.each path fieldPath op value n) : Entry ν) := by
  have hq := isPath_shown hpath hassert
  obtain ⟨s, hs, hsolid, hlength⟩ : ∃ s, eachPath path fieldPath ++ w = shownPath path ++ ("[*]".toList ++ s) ∧
      (∀ c ∈ s, isSpace c = false) ∧
        fieldPath.length < (if s.head? = some '.' then s.drop 1 else s).length := by
    by_cases hnil : fieldPath = []
    · refine ⟨w, by rw [eachPath, if_pos hnil, List.append_assoc], hw, ?_⟩
      rw [if_neg hdot, hnil]
      exact List.length_pos_iff.mpr hne
    · refine ⟨'.' :: (fieldPath ++ w), by rw [eachPath, if_neg hnil]; simp, ?_, ?_⟩
      · intro c hc
        rcases List.mem_cons.mp hc with rfl | hc
        · rfl
        · rcases List.mem_append.mp hc with hc | hc
          · exact hfield.solid c hc
          · exact hw c hc
      · have hpos := List.length_pos_iff.mpr hne
        simp only [List.head?_cons, if_true, List.drop_one, List.tail_cons, List.length_append]
        omega
  obtain ⟨a, f, hmatch, hcases⟩ := starMatch_path hq hsolid
  rw [← hs, ← hrule] at hmatch
  obtain ⟨op', -, rfl⟩ := ruleToModel_of_each hkind hmatch hmodel
  rcases hcases with ⟨rfl, rfl, -⟩ | hshort
  · rcases modelPath_shown hpath hassert with ⟨-, heq⟩ | hlt
    · refine weight_lt_iff.mpr (.inr ⟨rfl, .inr ⟨by rw [heq]; rfl, .inl ?_⟩⟩)
      simp only [tailSize]
      omega
    · exact weight_lt_of_path rfl hlt
  · refine weight_lt_of_path rfl ?_
    rcases modelPath_shown hpath hassert with ⟨-, heq⟩ | hlt
    · rw [heq] at hshort
      exact hshort
    · exact hshort.trans hlt

/-- An `each` in its column is read with its own value, which may have got marks. -/
theorem each_value_lost {fieldPath w : List Char} {value : Option (List Char)}
    (hw : w = if op.noValue then [] else quoteValue (value.getD []) op)
    (hnot : ¬ (op.noValue = true ∨
      if op.isList ∨ op = .isType then trim (value.getD []) = value.getD []
      else isRaw (value.getD []) = true)) :
    let found : Entry ν := .inr (.each path fieldPath op (nonempty (trim w)) n)
    let printed : Entry ν := .inr (.each path fieldPath op value n)
    textSize found < textSize printed ∨
      textSize found = textSize printed ∧ valueSize found < valueSize printed := by
  rw [not_or] at hnot
  have hnone : op.noValue = false := by simpa using hnot.1
  rw [hnone] at hw
  simp only [Bool.false_eq_true, if_false] at hw
  simp only [textSize, valueSize, hnone, Bool.false_eq_true, false_or, if_false]
  by_cases hlist : op.isList = true ∨ op = .isType
  · have hnottrim := hnot.2
    rw [if_pos hlist] at hnottrim
    have hquote : w = value.getD [] := by
      rw [hw, quoteValue, if_neg (by simp [hnone]), if_pos hlist]
    refine .inr ⟨?_, ?_⟩
    · rcases hlist with h | h <;> simp [h]
    · rw [hquote, length_nonempty]
      exact lt_of_le_of_ne (length_trim _) fun heq => hnottrim (trim_eq_of_length heq)
  · have hnotraw := hnot.2
    rw [if_neg hlist] at hnotraw
    rw [not_or] at hlist
    have hquoted : w = quote (value.getD []) := by
      rw [hw, quoteValue_eq hnone (by simpa using hlist.1) hlist.2, if_neg hnotraw]
    have hmarks := isQuoted_quote (value.getD [])
    have hraw : isRaw (quote (value.getD [])) = true := by simp [isRaw, hmarks]
    refine .inl ?_
    rw [hquoted, (trim_quoted hmarks).1, nonempty_of_ne (trim_quoted hmarks).2, Option.getD_some]
    simp [hlist.1, hlist.2, hraw, hnotraw]

theorem hasStar_barePath {jsonPath : List Char} (hpath : CleanPath jsonPath) (h : hasStar jsonPath = false) :
    hasStar (barePath jsonPath) = false := by
  rw [hasStar_eq_false] at h ⊢
  intro hin
  rw [cleanPath_eq hpath] at h
  exact h (hin.trans (List.suffix_append _ _).isInfix)

/-- An `each` whose path leaves its column has the next word for a part of it. -/
theorem each_overflow_lost {fieldPath w : List Char} {value : Option (List Char)} {m : ℕ}
    (hpath : CleanPath path) (hfield : Clean fieldPath) (hop : op.Known)
    (hassert : dropKeyword "ASSERT".toList (barePath path) = none) (hm : m ≠ 0 ∨ w = []) (hone : OneLine w)
    (hread : readLine rt (eachPath path fieldPath ++
      (negText n ++ ("each ".toList ++ (op.keyword ++ (gap m ++ w))))) = some (.ok rule))
    (hmodel : ruleToModel rt rule = some e) :
    weight e < weight (.inr (.each path fieldPath op value n) : Entry ν) := by
  obtain ⟨r, heach, -, hchars⟩ := eachPath_eq path fieldPath
  have htoken : ∀ {w : List Char}, (∀ c ∈ w, isSpace c = false) → IsPath (eachPath path fieldPath ++ w) := by
    intro w hw
    rw [heach, List.append_assoc]
    refine (isPath_shown hpath hassert).star (r := '*' :: ']' :: (r ++ w)) fun c hc => ?_
    simp only [List.mem_cons, List.mem_append] at hc
    rcases hc with rfl | rfl | hc | hc
    · rfl
    · rfl
    · rcases hchars c hc with rfl | hc
      · rfl
      · exact hfield.solid c hc
    · exact hw c hc
  cases n with
  | true =>
      have hsolid : ∀ c ∈ "NOT".toList, isSpace c = false := by decide
      have hline : eachPath path fieldPath ++ (negText true ++ ("each ".toList ++ (op.keyword ++ (gap m ++ w)))) =
          (eachPath path fieldPath ++ "NOT".toList) ++
            (gap 1 ++ (negText false ++ ("each ".toList ++ (op.keyword ++ (gap m ++ w))))) := by
        simp [negText, gap]
      rw [hline, readLine_each_spaced rt (htoken hsolid) hop hm hone, Option.some.injEq,
        Except.ok.injEq] at hread
      subst hread
      exact each_grown hpath hfield hassert hsolid (by decide) (by decide) rfl rfl hmodel
  | false =>
      have hsolid : ∀ c ∈ "each".toList, isSpace c = false := by decide
      have hline : eachPath path fieldPath ++ (negText false ++ ("each ".toList ++ (op.keyword ++ (gap m ++ w)))) =
          (eachPath path fieldPath ++ "each".toList) ++
            (gap 1 ++ (negText false ++ (op.keyword ++ (gap m ++ w)))) := by
        simp [negText, gap]
      rw [hline, readLine_spaced rt (htoken hsolid) (isKeyword_keyword hop) hm hone,
        parseOperation_keyword hop, Option.some.injEq] at hread
      obtain ⟨-, hcases⟩ := fieldRule_ok hread
      rcases hcases with ⟨-, hkind⟩ | ⟨hexists, rfl⟩ | ⟨-, -, ⟨hkind, hrule⟩ | ⟨hstar, -⟩⟩
      · refine weight_lt_of_rank ?_
        rw [rank_typeCheck hkind hmodel]
        show 1 < 3
        omega
      · simp only [ruleToModel, ofText_text hop, Option.some.injEq] at hmodel
        refine weight_lt_of_rank ?_
        rw [← hmodel]
        simp [rank, hexists]
      · exact each_grown hpath hfield hassert hsolid (by decide) (by decide) hkind hrule hmodel
      · rw [hasStar_eq_false, heach] at hstar
        exact absurd ⟨shownPath path, r ++ "each".toList, by simp⟩ hstar

/-- An `each` that does not come back is read as a smaller rule. -/
theorem each_lost {fieldPath : List Char} {value : Option (List Char)} (hpath : CleanPath path)
    (hfield : Clean fieldPath) (hop : op.Known) (hvalue : OneLine (value.getD []))
    (hassert : dropKeyword "ASSERT".toList (barePath path) = none)
    (hnot : ¬ EachKept width path fieldPath op (value.getD []))
    (hread : readLine rt (assertionLine rt width (.each path fieldPath op value n)) = some (.ok rule))
    (hmodel : ruleToModel rt rule = some e) :
    weight e < weight (.inr (.each path fieldPath op value n) : Entry ν) := by
  obtain ⟨m, w, hm, hone, hw, htail⟩ := each_tail hop hvalue
  rw [assertionLine, htail] at hread
  by_cases hwidth : (utf16 (eachPath path fieldPath)).length < width
  · have hq := isPath_shown hpath hassert
    obtain ⟨r, heach, hr, hchars⟩ := eachPath_eq path fieldPath
    rw [readLine_each rt (isPath_each hq hfield) hwidth hop hm hone, Option.some.injEq,
      Except.ok.injEq] at hread
    have hsolid : ∀ c ∈ r, isSpace c = false := by
      intro c hc
      rcases hchars c hc with rfl | hc
      · rfl
      · exact hfield.solid c hc
    obtain ⟨a, f, hmatch, hcases⟩ := starMatch_path hq hsolid
    rw [← heach] at hmatch
    subst hread
    obtain ⟨op', hop', rfl⟩ := ruleToModel_of_each rfl hmatch hmodel
    have heq : op' = op := Option.some.inj (hop'.symm.trans (eachOperator_keyword hop))
    rw [heq]
    rcases hcases with ⟨rfl, rfl, hplain⟩ | hshort
    · rcases modelPath_shown hpath hassert with ⟨hkept, hmp⟩ | hlt
      · rw [hmp] at hplain ⊢
        rw [hr]
        have hbad : ¬ (op.noValue = true ∨ if op.isList ∨ op = .isType then
            trim (value.getD []) = value.getD [] else isRaw (value.getD []) = true) :=
          fun h => hnot ⟨hkept, hasStar_barePath hpath hplain, hwidth, h⟩
        exact weight_lt_iff.mpr (.inr ⟨rfl, .inr ⟨rfl, .inr ⟨rfl, each_value_lost hw hbad⟩⟩⟩)
      · exact weight_lt_of_path rfl hlt
    · refine weight_lt_of_path rfl ?_
      rcases modelPath_shown hpath hassert with ⟨-, hmp⟩ | hlt
      · rw [hmp] at hshort
        exact hshort
      · exact hshort.trans hlt
  · have hpad : padEnd width (eachPath path fieldPath) = eachPath path fieldPath := by
      have hzero : width - (utf16 (eachPath path fieldPath)).length = 0 := by omega
      rw [padEnd, hzero, List.replicate_zero, List.append_nil]
    rw [hpad] at hread
    exact each_overflow_lost hpath hfield hop hassert hm hone hread hmodel

/-! ## Custom predicates -/

theorem splitDescription_spec {a b : List Char} (h : splitDescription cs = some (a, b)) :
    cs = a ++ ("//".toList ++ b) ∧ a ≠ [] ∧ b ≠ [] := by
  induction cs generalizing a with
  | nil => cases h
  | cons c cs ih =>
      by_cases hfirst : ∃ d ds, cs = '/' :: '/' :: d :: ds
      · obtain ⟨d, ds, rfl⟩ := hfirst
        rw [splitDescription] at h
        cases h
        exact ⟨rfl, by simp, by simp⟩
      · push Not at hfirst
        rw [splitDescription_cons hfirst] at h
        obtain ⟨⟨a', b'⟩, hrest, heq⟩ := Option.map_eq_some_iff.mp h
        cases heq
        obtain ⟨hcs, -, hb⟩ := ih hrest
        exact ⟨by rw [hcs]; rfl, by simp, hb⟩

/-- A `//` after the first character, with something behind it, starts a description. -/
theorem splitDescription_of_infix {t : List Char} (h : "//".toList <:+: t.drop 1) (hr : r ≠ []) :
    ∃ a b, splitDescription (t ++ r) = some (a, b) ∧ a.length + 2 ≤ t.length := by
  induction t with
  | nil =>
      have := h.length_le
      simp at this
  | cons c cs ih =>
      have hin : "//".toList <:+: cs := h
      by_cases hfirst : ∃ ds, cs = '/' :: '/' :: ds
      · obtain ⟨ds, rfl⟩ := hfirst
        obtain ⟨d, rest, hrest⟩ := List.exists_cons_of_ne_nil (l := ds ++ r) (by simp [hr])
        refine ⟨[c], ds ++ r, ?_, by simp⟩
        show splitDescription (c :: '/' :: '/' :: (ds ++ r)) = _
        rw [hrest, splitDescription]
      · push Not at hfirst
        cases cs with
        | nil => simp at hin
        | cons d ds =>
            have hrest : "//".toList <:+: ds := by
              rw [List.infix_cons_iff] at hin
              refine hin.resolve_left ?_
              rintro ⟨t, ht⟩
              exact hfirst t ht.symm
            have hcut : ∀ x xs, d :: ds ++ r ≠ '/' :: '/' :: x :: xs := by
              intro x xs heq
              cases ds with
              | nil => simp at hrest
              | cons e es =>
                  simp only [List.cons_append, List.cons.injEq] at heq
                  obtain ⟨rfl, rfl, -⟩ := heq
                  exact hfirst es rfl
            obtain ⟨a, b, hsplit, hle⟩ := ih hrest
            rw [List.cons_append, splitDescription_cons hcut, hsplit]
            exact ⟨c :: a, b, rfl, by simpa using hle⟩

theorem trim_ne_nil {a : List Char} (ha : a ≠ []) (hhead : ∀ c ∈ a.head?, isSpace c = false) : trim a ≠ [] := by
  obtain ⟨c, cs, rfl⟩ := List.exists_cons_of_ne_nil ha
  intro h
  have hspace := trimBy_eq_nil_iff.mp h c (by simp)
  rw [hhead c rfl] at hspace
  cases hspace

/-- What a predicate is read as. -/
theorem parseAssert_ok {t : List Char} (htrim : trim t = t) (hone : OneLine t)
    (h : parseAssert n t = .ok rule) (hmodel : ruleToModel rt rule = some e) : t ≠ [] ∧
      ∃ expression description, e = .inr (.custom expression (description.bind nonempty) n) ∧
        trim expression = expression ∧ expression ≠ [] ∧
          ((splitDescription t = none ∧ expression = t ∧ description = none) ∨
            ∃ a b, splitDescription t = some (a, b) ∧ expression = trim a ∧ description = some (trim b)) := by
  simp only [parseAssert, htrim] at h
  split at h
  · cases h
  · next hne =>
      refine ⟨hne, ?_⟩
      cases h
      have hhead := (trimmed_iff.mp htrim).1
      cases hsplit : splitDescription t with
      | none =>
          simp only [ruleToModel, hsplit, Option.getD_some, splitLine_one hone, Option.some.injEq] at hmodel
          exact ⟨t, none, hmodel.symm, htrim, hne, .inl ⟨rfl, rfl, rfl⟩⟩
      | some ab =>
          obtain ⟨a, b⟩ := ab
          obtain ⟨ht, ha, -⟩ := splitDescription_spec hsplit
          have honea : OneLine (trim a) := by
            intro c hc
            apply hone
            rw [ht]
            exact List.mem_append_left _ ((List.dropWhile_suffix _).subset ((List.rdropWhile_prefix _ _).subset hc))
          have hheada : ∀ c ∈ a.head?, isSpace c = false := by
            rw [ht, List.head?_append_of_ne_nil _ ha] at hhead
            exact hhead
          simp only [ruleToModel, hsplit, Option.getD_some, splitLine_two honea, Option.some.injEq] at hmodel
          exact ⟨trim a, some (trim b), hmodel.symm, trimBy_trimBy, trim_ne_nil ha hheada,
            .inr ⟨a, b, rfl, rfl, rfl⟩⟩

theorem any_blank_trim (o : Option (List Char)) (h : ∀ d ∈ o, trim d = d) :
    ((o.bind nonempty).any fun d => decide (trim d = [])) = false := by
  cases hd : o.bind nonempty with
  | none => rfl
  | some d =>
      obtain ⟨rfl, hne⟩ := bind_nonempty hd
      simp [h d rfl, hne]

/-- A predicate that does not come back is read as a smaller one. -/
theorem custom_lost {expression : List Char} {description : Option (List Char)}
    (hone : OneLine expression) (hdesc : OneLine (description.getD []))
    (hnot : ¬ CustomKept expression description)
    (hread : readLine rt (assertionLine rt width (.custom expression description n)) = some (.ok rule))
    (hmodel : ruleToModel rt rule = some e) :
    weight e < weight (.inr (.custom expression description n) : Entry ν) := by
  generalize htext : expression ++ ((description.bind nonempty).elim [] fun d => " // ".toList ++ d) = text
    at hread
  have hline : OneLine text := by
    rw [← htext]
    refine oneLine_append hone ?_
    cases hd : description.bind nonempty with
    | none => exact oneLine_of_all rfl
    | some d => exact oneLine_append (oneLine_of_all rfl) (oneLine_expression hdesc hd)
  have htrimmed : OneLine (trim text) := fun c hc =>
    hline c ((List.dropWhile_suffix _).subset ((List.rdropWhile_prefix _ _).subset hc))
  have hread : readLine rt (negText n ++ ("ASSERT ".toList ++ text)) = some (.ok rule) := by
    rw [← htext]
    exact hread
  rw [readLine_custom rt hline, Option.some.injEq] at hread
  obtain ⟨hne, x, y, rfl, hx, hxne, hcases⟩ :=
    parseAssert_ok (show trim (trim text) = trim text from trimBy_trimBy) htrimmed hread hmodel
  have hytrim : ∀ d ∈ y, trim d = d := by
    rcases hcases with ⟨-, -, rfl⟩ | ⟨a, b, -, -, rfl⟩
    · nofun
    · intro d hd
      rw [← Option.some.inj hd]
      exact trimBy_trimBy
  have hpath : pathSize (.inr (.custom x (y.bind nonempty) n) : Entry ν) = 0 := if_pos ⟨hx, hxne⟩
  have htail : tailSize (.inr (.custom x (y.bind nonempty) n) : Entry ν) = 0 := by
    simp [tailSize, bind_nonempty_twice, any_blank_trim y hytrim]
  by_cases hgood : trim expression = expression ∧ expression ≠ []
  swap
  · refine weight_lt_of_path rfl ?_
    rw [hpath, pathSize, if_neg hgood]
    omega
  have hpath' : pathSize (.inr (.custom expression description n) : Entry ν) = 0 := if_pos hgood
  cases hd : description.bind nonempty with
  | none =>
      have htail' : tailSize (.inr (.custom expression description n) : Entry ν) = 0 := by
        simp [tailSize, hd]
      have heq : trim text = expression := by
        rw [← htext, hd, Option.elim_none, List.append_nil, hgood.1]
      have hslash : "//".toList <:+: expression.dropLast.drop 1 := by
        by_contra h
        refine hnot ⟨hgood.2, hgood.1, ?_⟩
        rw [hd]
        show ¬ "//".toList <:+: (expression.drop 1).dropLast
        rwa [List.drop_one, ← List.tail_dropLast, ← List.drop_one]
      obtain ⟨a, b, hsplit, hle⟩ := splitDescription_of_infix (r := [expression.getLast hgood.2]) hslash (by simp)
      rw [List.dropLast_append_getLast hgood.2] at hsplit
      rw [heq, hsplit] at hcases
      rcases hcases with ⟨hcut, -, -⟩ | ⟨a', b', hab, rfl, rfl⟩
      · cases hcut
      · cases hab
        refine weight_lt_iff.mpr (.inr ⟨rfl, .inr ⟨by rw [hpath, hpath'], .inr ⟨by rw [htail, htail'], .inl ?_⟩⟩⟩)
        have htrim := length_trim a
        have hlast : expression.dropLast.length ≤ expression.length := (List.dropLast_sublist _).length_le
        show (trim a).length < expression.length
        omega
  | some d =>
      obtain ⟨rfl, hdne⟩ := bind_nonempty hd
      by_cases hblank : trim d = []
      · have htail' : tailSize (.inr (.custom expression (some d) n) : Entry ν) = 1 := by
          simp [tailSize, nonempty_of_ne hdne, hblank]
        exact weight_lt_iff.mpr (.inr ⟨rfl, .inr ⟨by rw [hpath, hpath'], .inl (by rw [htail, htail']; decide)⟩⟩)
      · have htail' : tailSize (.inr (.custom expression (some d) n) : Entry ν) = 0 := by
          simp [tailSize, nonempty_of_ne hdne, hblank]
        have hsolid : ∃ c ∈ d, isSpace c = false := by
          by_contra h
          push Not at h
          exact hblank (trimBy_eq_nil_iff.mpr (by simpa using h))
        have heq : trim text = expression ++ (" // ".toList ++ d.rdropWhile isSpace) := by
          obtain ⟨a, as, ha⟩ := List.exists_cons_of_ne_nil hgood.2
          have hhead := (trimmed_iff.mp hgood.1).1
          have hstart : ∀ c ∈ (expression ++ (" // ".toList ++ d)).head?, isSpace c = false := by
            rw [ha] at hhead ⊢
            exact hhead
          have htail : (" // ".toList ++ d).rdropWhile isSpace = " // ".toList ++ d.rdropWhile isSpace :=
            rdropWhile_append_of_neg hsolid
          obtain ⟨c, hc, hspace⟩ := hsolid
          rw [← htext, hd, Option.elim_some, trim_eq, trimBy_of_head hstart,
            rdropWhile_append_of_neg ⟨c, by simp [hc], hspace⟩, htail]
        by_cases hslash : "//".toList <:+: expression.drop 1
        · obtain ⟨a, b, hsplit, hle⟩ :=
            splitDescription_of_infix (r := " // ".toList ++ d.rdropWhile isSpace) hslash (by simp)
          rw [heq, hsplit] at hcases
          rcases hcases with ⟨hcut, -, -⟩ | ⟨a', b', hab, rfl, rfl⟩
          · cases hcut
          · cases hab
            refine weight_lt_iff.mpr (.inr ⟨rfl, .inr ⟨by rw [hpath, hpath'],
              .inr ⟨by rw [htail, htail'], .inl ?_⟩⟩⟩)
            have htrim := length_trim a
            show (trim a).length < expression.length
            omega
        · have hsplit : splitDescription (expression ++ (" // ".toList ++ d.rdropWhile isSpace)) =
              some (expression ++ [' '], ' ' :: d.rdropWhile isSpace) :=
            splitDescription_some hgood.2 (by simp) hslash
          rw [heq, hsplit] at hcases
          rcases hcases with ⟨hcut, -, -⟩ | ⟨a', b', hab, rfl, rfl⟩
          · cases hcut
          · cases hab
            have hleft := trim_append_space hgood.1 hgood.2
            have hright : trim (' ' :: d.rdropWhile isSpace) = trim d :=
              trim_space_cons.trans trimBy_rdropWhile
            rw [hleft] at hpath htail ⊢
            refine weight_lt_iff.mpr (.inr ⟨rfl, .inr ⟨by rw [hpath, hpath'],
              .inr ⟨by rw [htail, htail'], .inr ⟨rfl, ?_⟩⟩⟩⟩)
            have hsize : valueSize (.inr (.custom expression ((some (trim (' ' :: d.rdropWhile isSpace))).bind
                nonempty) n) : Entry ν) = (trim d).length := by
              rw [hright]
              simp [valueSize, nonempty_of_ne hblank]
            have hsize' : valueSize (.inr (.custom expression (some d) n) : Entry ν) = d.length := by
              simp [valueSize, nonempty_of_ne hdne]
            rw [hsize, hsize']
            refine lt_of_le_of_ne (length_trim d) fun hlength => hnot ⟨hgood.2, hgood.1, ?_⟩
            rw [hd]
            exact ⟨trim_eq_of_length hlength, hslash⟩

/-! ## Whole models -/

/-- A rule with a path is printed behind it. -/
theorem entryLine_path {p : List Char} (h : e.path? = some p) :
    ∃ r, entryLine rt width e = shownPath p ++ r := by
  have hpad : ∀ q r : List Char, padEnd width q ++ r = q ++ (List.replicate (width - (utf16 q).length) ' ' ++ r) :=
    fun q r => List.append_assoc ..
  cases e with
  | inl f =>
      cases h
      exact ⟨_, hpad _ _⟩
  | inr a =>
      cases a with
      | custom expression description negate => cases h
      | each path fieldPath op value negate =>
          cases h
          obtain ⟨r, heach, -⟩ := eachPath_eq p fieldPath
          exact ⟨_, (hpad _ _).trans ((congrArg (· ++ _) heach).trans (List.append_assoc ..))⟩
      | _ =>
          cases h
          exact ⟨_, hpad _ _⟩

theorem rank_pos {p : List Char} (h : e.path? = some p) : 0 < rank e := by
  cases e with
  | inl f =>
      simp only [rank]
      split <;> omega
  | inr a =>
      cases a with
      | custom expression description negate => cases h
      | _ => simp [rank]

theorem cleanPath_of_inDomain {p : List Char} (hdom : InDomain e) (h : e.path? = some p) : CleanPath p := by
  cases e with
  | inl f =>
      cases h
      exact hdom.1
  | inr a =>
      cases a with
      | custom expression description negate => cases h
      | existence path expectExists negate =>
          cases h
          exact hdom
      | arrayLength path op value negate =>
          cases h
          exact hdom
      | _ =>
          cases h
          exact hdom.1

/-- A rule whose path starts like a predicate is read as a predicate. -/
theorem assert_lost {p : List Char} {e' : Entry ν} (hdom : InDomain e) (hpath : e.path? = some p)
    (hassert : dropKeyword "ASSERT".toList (barePath p) ≠ none)
    (hread : readLine rt (entryLine rt width e) = some (.ok rule)) (hmodel : ruleToModel rt rule = some e') :
    weight e' < weight e := by
  obtain ⟨r, hline⟩ : ∃ r, entryLine rt width e = shownPath p ++ r := entryLine_path hpath
  have hshown : shownPath p = barePath p := by
    refine if_neg fun hnil => hassert ?_
    rw [hnil]
    rfl
  have hone : OneLine (entryLine rt width e) := oneLine_entryLine rt hdom
  have hclean := cleanPath_of_inDomain hdom hpath
  rw [hline, hshown] at hread hone
  refine weight_lt_of_rank ?_
  rw [rank_custom (readLine_assert hone hclean.2.solid hassert hread) hmodel]
  exact rank_pos hpath

/-- **A rule that does not come back is refused, or read as a smaller one.** -/
theorem entry_lost {e' : Entry ν} (hdom : InDomain e)
    (hwidth : ∀ p ∈ e.path?, (utf16 (barePath p)).length < width) (htwo : 1 < width)
    (hnot : ¬ Kept rt width e) (hread : readLine rt (entryLine rt width e) = some (.ok rule))
    (hmodel : ruleToModel rt rule = some e') : weight e' < weight e := by
  by_cases hassert : ∀ p ∈ e.path?, dropKeyword "ASSERT".toList (barePath p) = none
  swap
  · push Not at hassert
    obtain ⟨p, hpath, hassert⟩ := hassert
    exact assert_lost hdom hpath hassert hread hmodel
  have hshown : ∀ p ∈ e.path?, (utf16 (shownPath p)).length < width :=
    fun p hp => shown_lt (hwidth p hp) htwo
  cases e with
  | inl f => exact field_lost hdom (hassert _ rfl) (hshown _ rfl) hnot hread hmodel
  | inr a =>
      cases a with
      | typeCheck path expectedType negate =>
          exact typeCheck_lost hdom.1 hdom.2 (hassert _ rfl) (hshown _ rfl) hnot hread hmodel
      | existence path expectExists negate =>
          exact existence_lost hdom (hassert _ rfl) (hshown _ rfl) hnot hread hmodel
      | arrayLength path op value negate =>
          exact arrayLength_lost hdom (hassert _ rfl) (hshown _ rfl) hnot hread hmodel
      | each path fieldPath op value negate =>
          exact each_lost hdom.1 hdom.2.1 hdom.2.2.1 hdom.2.2.2 (hassert _ rfl) hnot hread hmodel
      | arrayContains path value mode negate =>
          exact arrayContains_lost hdom.1 hdom.2 (hassert _ rfl) (hshown _ rfl) hnot hread hmodel
      | containsSubset path expected negate =>
          exact containsSubset_lost hdom.1 hdom.2 (hassert _ rfl) (hshown _ rfl) hnot hread hmodel
      | custom expression description negate =>
          have hread : readLine rt (assertionLine rt width (.custom expression description negate)) =
            some (.ok rule) := hread
          exact custom_lost hdom.1 hdom.2 hnot hread hmodel

theorem one_lt_padWidth (fields : List ExpectedField) (assertions : List (Assertion ν)) :
    1 < padWidth fields assertions := by
  simp only [padWidth]
  omega

/-- If the rules read say what the rules printed say, each of these is kept. -/
theorem kept_of_sameRules {m : DslModel ν} (hdom : ∀ e ∈ m.entries, InDomain e)
    (hsame : SameRules (dslToModel rt
      ((parseDsl rt (serializeToDsl rt m.fields m.assertions)).rules.map (·.toRule))) m) :
    ∀ e ∈ m.entries, Kept rt (padWidth m.fields m.assertions) e := by
  by_contra hlost
  push Not at hlost
  -- a largest rule that is not kept
  have hfinite : {e ∈ {e | e ∈ m.entries} | ¬ Kept rt (padWidth m.fields m.assertions) e}.Finite :=
    m.entries.finite_toSet.sep _
  obtain ⟨e, ⟨he, hnot⟩, hmax⟩ := Set.exists_max_image _ weight hfinite hlost
  -- is read from the line of some rule
  obtain ⟨e', he', hcanonical⟩ := List.mem_map.mp
    ((hsame (canonical e)).mpr (List.mem_map.mpr ⟨e, he, rfl⟩))
  obtain ⟨rule, hrule, hmodel⟩ := mem_entries_dslToModel.mp he'
  obtain ⟨source, hsource, hread⟩ := (readLine_lines hdom).mp (mem_rules_iff.mp hrule)
  by_cases hkept : Kept rt (padWidth m.fields m.assertions) source
  · -- which is not one that is kept, as this would be the same rule
    obtain ⟨rule', e'', hread', hmodel', hback⟩ :=
      kept_comesBack (hdom _ hsource) hkept (path_lt_padWidth hsource)
    rw [hread', Option.some.injEq, Except.ok.injEq] at hread
    rw [← hread, hmodel', Option.some.injEq] at hmodel
    rw [hmodel, hcanonical] at hback
    exact hnot ((kept_canonical e).mp (hback ▸ (kept_canonical source).mpr hkept))
  · -- and not one that is lost, as this would be larger
    have hlt := entry_lost (hdom _ hsource) (path_lt_padWidth hsource) (one_lt_padWidth ..) hkept hread hmodel
    rw [← weight_canonical e', hcanonical, weight_canonical] at hlt
    exact absurd (hmax source ⟨hsource, hkept⟩) (not_le_of_gt hlt)

/-- **The rules of a model come back from their text and from an export exactly when each of
them is one that does.** -/
theorem roundTrips_iff {m : DslModel ν} (hdom : ∀ e ∈ m.entries, InDomain e) :
    RoundTrips rt m ↔ ∀ e ∈ m.entries, Kept rt (padWidth m.fields m.assertions) e :=
  ⟨fun h => kept_of_sameRules hdom h.2.1, roundTrips_of_kept hdom⟩

theorem roundTrips_sample : RoundTrips plainRuntime sample :=
  (roundTrips_iff sample_inDomain).mpr (sample_kept _)

end RedFireForge.Mapper
