/-
# `RedFireForge.Mapper.DslRoundTrip` — which rules come back from their text

A printed line is read as its path, its operator and its value, the value trimmed.
-/
import Mathlib.Logic.Function.Basic
import RedFireForge.Lib.Number
import RedFireForge.Lib.Text
import RedFireForge.Mapper.ValidationDsl

namespace RedFireForge.Mapper

open RedFireForge.Lib
open RedFireForge.ApiMock (isSpace trim)

/-! ## Rules that are the same -/

section Same

variable {ν : Type}

/-- A rule, as a field or as an assertion. -/
abbrev Entry (ν : Type) := ExpectedField ⊕ Assertion ν

def DslModel.entries (m : DslModel ν) : List (Entry ν) :=
  m.fields.map .inl ++ m.assertions.map .inr

/-- What a rule says: an existence assertion says what the field does, an operator without a
value has none, and what is not given has its default. -/
def canonical : Entry ν → Entry ν
  | .inl f =>
      let op := f.operator.getD .equals
      .inl ⟨f.jsonPath, if op.noValue then [] else f.operatorValue.getD f.expectedValue, some op, none,
        f.negate, f.expression.bind nonempty⟩
  | .inr (.existence path expectExists negate) =>
      .inl ⟨path, [], some (if expectExists then .exists else .notExists), none, negate, none⟩
  | .inr (.each path fieldPath op value negate) =>
      .inr (.each path fieldPath op (some (if op.noValue then [] else value.getD [])) negate)
  | .inr (.custom expression description negate) =>
      .inr (.custom expression (description.bind nonempty) negate)
  | e => e

def SameRules (m m' : DslModel ν) : Prop :=
  ∀ e, e ∈ m.entries.map canonical ↔ e ∈ m'.entries.map canonical

/-- A text of one line. -/
def OneLine (cs : List Char) : Prop := ∀ c ∈ cs, lineEnd c = false

/-- No blank, no quotation mark and no mark of a comment. -/
def Clean (cs : List Char) : Prop :=
  (∀ c ∈ cs, isSpace c = false ∧ c ∉ ['"', '\'', '`', '#']) ∧ ¬ "//".toList <:+: cs

def CleanPath (jsonPath : List Char) : Prop := "$.".toList <+: jsonPath ∧ Clean (barePath jsonPath)

def FieldOperator.Known (op : FieldOperator) : Prop := op ∈ FieldOperator.names.map Prod.snd

instance (op : FieldOperator) : Decidable op.Known :=
  inferInstanceAs (Decidable (op ∈ FieldOperator.names.map Prod.snd))

instance (cs : List Char) : Decidable (OneLine cs) :=
  inferInstanceAs (Decidable (∀ c ∈ cs, lineEnd c = false))

instance (cs : List Char) : Decidable (Clean cs) :=
  inferInstanceAs (Decidable ((∀ c ∈ cs, isSpace c = false ∧ c ∉ ['"', '\'', '`', '#']) ∧
    ¬ "//".toList <:+: cs))

instance (jsonPath : List Char) : Decidable (CleanPath jsonPath) :=
  inferInstanceAs (Decidable ("$.".toList <+: jsonPath ∧ Clean (barePath jsonPath)))

/-- `JsonTypeName` -/
def jsonTypeNames : List (List Char) :=
  ["string", "number", "boolean", "array", "object", "null"].map String.toList

/-- The rules that are to come back. -/
def InDomain : Entry ν → Prop
  | .inl f => CleanPath f.jsonPath ∧ (f.operator.getD .equals).Known ∧
      OneLine (f.operatorValue.getD f.expectedValue) ∧ OneLine (f.expression.getD [])
  | .inr (.typeCheck path expectedType _) => CleanPath path ∧ expectedType ∈ jsonTypeNames
  | .inr (.existence path _ _) => CleanPath path
  | .inr (.arrayLength path _ _ _) => CleanPath path
  | .inr (.each path fieldPath op value _) =>
      CleanPath path ∧ Clean fieldPath ∧ op.Known ∧ OneLine (value.getD [])
  | .inr (.arrayContains path value _ _) => CleanPath path ∧ OneLine value
  | .inr (.containsSubset path expected _) => CleanPath path ∧ OneLine expected
  | .inr (.custom expression description _) => OneLine expression ∧ OneLine (description.getD [])

/-- What is read of a text is what was printed, and so it is after an export. -/
def RoundTrips (rt : Runtime ν) (m : DslModel ν) : Prop :=
  let result := parseDsl rt (serializeToDsl rt m.fields m.assertions)
  result.errors = [] ∧ SameRules (dslToModel rt (result.rules.map (·.toRule))) m ∧
    ∃ m', importFromJson rt (exportAsJson rt m.fields m.assertions) = .ok m' ∧ SameRules m' m

end Same

/-! ## Words and keywords -/

variable {q r v cs keyword : List Char} {n : Bool}

theorem trim_eq (cs : List Char) : trim cs = trimBy isSpace cs := rfl

theorem restOfLine_eq (h : ∀ c ∈ cs, lineEnd c = false) : restOfLine cs = cs := by
  rw [restOfLine, List.takeWhile_eq_self_iff]
  intro c hc
  simp [h c hc]

theorem splitWord_append (hq : ∀ c ∈ q, isSpace c = false) (hne : q ≠ []) (hr : r ≠ [])
    (hblank : ∀ c ∈ r.head?, isSpace c = true) :
    splitWord (q ++ r) = some (q, restOfLine (r.dropWhile isSpace)) := by
  have hall : ∀ c ∈ q, (!isSpace c) = true := by
    intro c hc
    simp [hq c hc]
  obtain ⟨b, r, rfl⟩ := List.exists_cons_of_ne_nil hr
  have hb : isSpace b = true := hblank b (by simp)
  have htake : (q ++ b :: r).takeWhile (!isSpace ·) = q := by
    rw [List.takeWhile_append_of_pos hall, List.takeWhile_cons_of_neg (by simp [hb]), List.append_nil]
  have hdrop : (q ++ b :: r).dropWhile (!isSpace ·) = b :: r := by
    rw [List.dropWhile_append_of_pos hall, List.dropWhile_cons_of_neg (by simp [hb])]
  simp only [splitWord, htake, hdrop]
  rw [if_neg (by simp [hne])]

theorem splitWord_word (hq : ∀ c ∈ q, isSpace c = false) : splitWord q = none := by
  have hdrop : q.dropWhile (!isSpace ·) = [] := by
    rw [List.dropWhile_eq_nil_iff]
    intro c hc
    simp [hq c hc]
  simp [splitWord, hdrop]

/-- A character that no keyword has ends what can be one. -/
theorem dropKeyword_append {c : Char} (hc : c.toUpper ∉ keyword) :
    dropKeyword keyword (q ++ c :: r) = (dropKeyword keyword q).map (· ++ c :: r) := by
  by_cases hlen : keyword.length ≤ q.length
  · have htake : (q ++ c :: r).take keyword.length = q.take keyword.length :=
      List.take_append_of_le_length hlen
    have hdrop : (q ++ c :: r).drop keyword.length = q.drop keyword.length ++ c :: r :=
      List.drop_append_of_le_length hlen
    simp only [dropKeyword, htake, hdrop]
    split <;> simp
  · have hlong : ((q ++ c :: r).take keyword.length).map Char.toUpper ≠ keyword := by
      intro h
      apply hc
      rw [← h, List.mem_map]
      refine ⟨c, ?_, rfl⟩
      rw [List.take_append, show keyword.length - q.length = keyword.length - q.length - 1 + 1 by omega]
      simp
    have hshort : (q.take keyword.length).map Char.toUpper ≠ keyword := by
      intro h
      have := congrArg List.length h
      simp only [List.length_map, List.length_take] at this
      omega
    rw [dropKeyword, dropKeyword, if_neg hlong, if_neg hshort]
    rfl

theorem dropKeyword_cons {k c : Char} {ks : List Char} (h : c.toUpper ≠ k) :
    dropKeyword (k :: ks) (c :: cs) = none := by
  simp [dropKeyword, h]

/-- `NOT` before a path is the path itself. -/
theorem stripNot_append (hq : ∀ c ∈ q, isSpace c = false) :
    stripNot (q ++ ' ' :: r) = none ∨ stripNot (q ++ ' ' :: r) = some (r.dropWhile isSpace) := by
  rw [stripNot, dropKeyword_append (by decide)]
  cases h : dropKeyword "NOT".toList q with
  | none => exact .inl rfl
  | some rest =>
      have hrest : rest <:+ q := by
        rw [dropKeyword] at h
        split at h
        · rw [← Option.some.inj h]
          exact List.drop_suffix _ _
        · cases h
      cases rest with
      | nil => exact .inr rfl
      | cons c rest =>
          have hc : isSpace c = false := hq c (hrest.subset (List.mem_cons_self ..))
          exact .inl (by simp [hc])

/-! ## Printed lines -/

/-- A word that can be read as an operator. -/
structure IsKeyword (keyword : List Char) : Prop where
  ne_nil : keyword ≠ []
  solid : ∀ c ∈ keyword, isSpace c = false
  not_not : ∀ r, stripNot (keyword ++ r) = none
  not_assert : ∀ r, dropKeyword "ASSERT".toList (keyword ++ r) = none

/-- A path that is read as one. -/
structure IsPath (q : List Char) : Prop where
  ne_nil : q ≠ []
  solid : ∀ c ∈ q, isSpace c = false
  not_comment : ¬ ['#'] <+: q ∧ ¬ "//".toList <+: q
  not_assert : dropKeyword "ASSERT".toList q = none

def gap (m : ℕ) : List Char := List.replicate m ' '

theorem gap_blank {m : ℕ} : ∀ c ∈ gap m, isSpace c = true := by
  intro c hc
  rw [List.eq_of_mem_replicate hc]
  rfl

theorem lineEnd_of_solid {c : Char} (h : isSpace c = false) : lineEnd c = false := by
  by_contra hc
  simp only [Bool.not_eq_false, lineEnd, decide_eq_true_eq] at hc
  simp only [isSpace, Bool.or_eq_false_iff, decide_eq_false_iff_not] at h
  apply h.1
  simp only [List.mem_cons, List.not_mem_nil, or_false] at hc ⊢
  omega

theorem rdropWhile_solid (h : ∀ c ∈ q, isSpace c = false) :
    (q ++ r).rdropWhile isSpace = q ++ r.rdropWhile isSpace := by
  by_cases hr : ∃ c ∈ r, isSpace c = false
  · exact rdropWhile_append_of_neg hr
  · push Not at hr
    have hall : ∀ c ∈ r, isSpace c = true := by simpa using hr
    rw [rdropWhile_append_of_pos hall, List.rdropWhile_eq_nil_iff.mpr hall, List.append_nil,
      List.rdropWhile_eq_self_iff]
    intro hl
    simp [h _ (List.getLast_mem hl)]

/-- A word, and what is left of a line after it. -/
theorem word_and_rest (hq : ∀ c ∈ q, isSpace c = false) {m : ℕ} (hm : m ≠ 0 ∨ v = [])
    (hv : ∀ c ∈ v, lineEnd c = false) :
    let line := (q ++ (gap m ++ v)).rdropWhile isSpace
    let rest := line.dropWhile (!isSpace ·)
    line.takeWhile (!isSpace ·) = q ∧ (rest = [] ↔ trim v = []) ∧
      trim (restOfLine (rest.dropWhile isSpace)) = trim v := by
  have hall : ∀ c ∈ q, (!isSpace c) = true := by
    intro c hc
    simp [hq c hc]
  simp only [rdropWhile_solid hq, List.takeWhile_append_of_pos hall, List.dropWhile_append_of_pos hall]
  by_cases hblank : ∃ c ∈ v, isSpace c = false
  · obtain ⟨k, rfl⟩ := Nat.exists_eq_succ_of_ne_zero
      (hm.resolve_right (by rintro rfl; simp at hblank))
    have hrest : (gap (k + 1) ++ v).rdropWhile isSpace = ' ' :: (gap k ++ v.rdropWhile isSpace) :=
      rdropWhile_append_of_neg hblank
    have hdrop : (' ' :: (gap k ++ v.rdropWhile isSpace)).dropWhile isSpace =
        (v.rdropWhile isSpace).dropWhile isSpace := by
      rw [List.dropWhile_cons_of_pos rfl, List.dropWhile_append_of_pos gap_blank]
    have hone : ∀ c ∈ (v.rdropWhile isSpace).dropWhile isSpace, lineEnd c = false := by
      intro c hc
      exact hv c ((List.rdropWhile_prefix _ _).subset ((List.dropWhile_suffix _).subset hc))
    have htrim : trim ((v.rdropWhile isSpace).dropWhile isSpace) = trim v := by
      rw [trim_eq, trim_eq, ← trimBy_rdropWhile (l := v), trimBy, List.dropWhile_idempotent, trimBy]
    have hne : trim v ≠ [] := by
      intro h
      obtain ⟨c, hc, hsolid⟩ := hblank
      rw [trimBy_eq_nil_iff.mp h c hc] at hsolid
      cases hsolid
    rw [hrest, List.takeWhile_cons_of_neg (by decide), List.dropWhile_cons_of_neg (by decide), hdrop,
      restOfLine_eq hone, htrim]
    exact ⟨List.append_nil q, by simp [hne], rfl⟩
  · push Not at hblank
    have hspaces : ∀ c ∈ v, isSpace c = true := by simpa using hblank
    have hend : (gap m ++ v).rdropWhile isSpace = [] := by
      rw [List.rdropWhile_eq_nil_iff]
      intro c hc
      rcases List.mem_append.mp hc with hc | hc
      · exact gap_blank c hc
      · exact hspaces c hc
    have htrim : trim v = [] := trimBy_eq_nil_iff.mpr hspaces
    rw [hend, htrim]
    exact ⟨List.append_nil q, Iff.rfl, rfl⟩

/-- An operator and its value are found again. -/
theorem parseOperatorAndValue_printed (hk : IsKeyword keyword) {m : ℕ} (hm : m ≠ 0 ∨ v = [])
    (hv : ∀ c ∈ v, lineEnd c = false) :
    parseOperatorAndValue ((keyword ++ (gap m ++ v)).rdropWhile isSpace) =
      (keyword, nonempty (trim v)) := by
  obtain ⟨hword, hrest, hvalue⟩ := word_and_rest hk.solid hm hv
  have hline : (keyword ++ (gap m ++ v)).rdropWhile isSpace = keyword ++
      ((keyword ++ (gap m ++ v)).rdropWhile isSpace).dropWhile (!isSpace ·) := by
    conv_lhs => rw [← List.takeWhile_append_dropWhile (p := (!isSpace ·))
      (l := (keyword ++ (gap m ++ v)).rdropWhile isSpace), hword]
  simp only [parseOperatorAndValue, splitWord, hword, hk.ne_nil, false_or]
  by_cases hnil : trim v = []
  · rw [if_pos (hrest.mpr hnil), hnil]
    rw [hrest.mpr hnil, List.append_nil] at hline
    rw [hline]
    rfl
  · rw [if_neg (mt hrest.mp hnil), Option.map_some, Option.getD_some, hvalue]

variable {ν : Type} {rt : Runtime ν}

theorem stripNot_negText (hr : ∀ c ∈ r.head?, isSpace c = false) :
    stripNot ("NOT ".toList ++ r) = some r := by
  have hdrop : (' ' :: r).dropWhile isSpace = r := by
    rw [List.dropWhile_cons_of_pos rfl, dropWhile_of_head hr]
  show some ((' ' :: r).dropWhile isSpace) = some r
  rw [hdrop]

theorem IsKeyword.head (hk : IsKeyword keyword) : ∀ c ∈ (keyword ++ r).head?, isSpace c = false := by
  obtain ⟨k, ks, rfl⟩ := List.exists_cons_of_ne_nil hk.ne_nil
  intro c hc
  rw [List.cons_append, List.head?_cons, Option.mem_def, Option.some.injEq] at hc
  exact hk.solid c (by simp [hc])

/-- What stands after the path is read as it was printed. -/
theorem parseRest_printed (hk : IsKeyword keyword) {m : ℕ} (hm : m ≠ 0 ∨ v = [])
    (hv : ∀ c ∈ v, lineEnd c = false) :
    parseRest rt q ((negText n ++ (keyword ++ (gap m ++ v))).rdropWhile isSpace) =
      parseOperation rt q keyword (nonempty (trim v)) n := by
  have hbody : (keyword ++ (gap m ++ v)).rdropWhile isSpace =
      keyword ++ (gap m ++ v).rdropWhile isSpace := rdropWhile_solid hk.solid
  have hsplit := parseOperatorAndValue_printed hk hm hv
  have hne : ∃ c ∈ keyword ++ (gap m ++ v), isSpace c = false := by
    obtain ⟨k, ks, hks⟩ := List.exists_cons_of_ne_nil hk.ne_nil
    exact ⟨k, by simp [hks], hk.solid k (by simp [hks])⟩
  have hcut : (negText n ++ (keyword ++ (gap m ++ v))).rdropWhile isSpace =
      negText n ++ (keyword ++ (gap m ++ v)).rdropWhile isSpace := rdropWhile_append_of_neg hne
  rw [hcut]
  cases n with
  | false =>
      have hnot : stripNot ((keyword ++ (gap m ++ v)).rdropWhile isSpace) = none := by
        rw [hbody, hk.not_not]
      show parseRest rt q ((keyword ++ (gap m ++ v)).rdropWhile isSpace) = _
      rw [parseRest, hnot, if_neg (by simp [hbody, hk.ne_nil]), Option.getD_none, hsplit]
      rfl
  | true =>
      have hnot : stripNot ("NOT ".toList ++ (keyword ++ (gap m ++ v)).rdropWhile isSpace) =
          some ((keyword ++ (gap m ++ v)).rdropWhile isSpace) := by
        apply stripNot_negText
        rw [hbody]
        exact hk.head
      show parseRest rt q ("NOT ".toList ++ (keyword ++ (gap m ++ v)).rdropWhile isSpace) = _
      rw [parseRest, hnot, if_neg (by simp), Option.getD_some, hsplit]
      rfl

theorem IsPath.not_slashes (hq : IsPath q) : ¬ "//".toList <+: q ++ ' ' :: r := by
  intro h
  obtain ⟨c, cs, hc⟩ := List.exists_cons_of_ne_nil hq.ne_nil
  cases cs with
  | nil =>
      rw [hc] at h
      obtain ⟨t, ht⟩ := h
      have hsecond : '/' :: '/' :: t = c :: ' ' :: r := ht
      simp at hsecond
  | cons d cs =>
      refine hq.not_comment.2 (List.prefix_of_prefix_length_le h (List.prefix_append _ _) ?_)
      rw [hc]
      show 2 ≤ cs.length + 1 + 1
      omega

/-- A path with a blank after it is read as the path of a rule. -/
theorem readLine_path (hq : IsPath q) (hr : ∀ c ∈ r.head?, isSpace c = false) (hne : r ≠ [])
    (hassert : dropKeyword "ASSERT".toList (r.rdropWhile isSpace) = none) {m : ℕ}
    (hend : ∀ c ∈ r, lineEnd c = false) :
    readLine rt (q ++ (gap (m + 1) ++ r)) = some (parseRest rt q (r.rdropWhile isSpace)) := by
  have hsolid : ∃ c ∈ r, isSpace c = false := by
    obtain ⟨c, cs, rfl⟩ := List.exists_cons_of_ne_nil hne
    exact ⟨c, by simp, hr c (by simp)⟩
  have htrim : trim (q ++ (gap (m + 1) ++ r)) = q ++ (gap (m + 1) ++ r.rdropWhile isSpace) := by
    rw [trim_eq, trimBy_of_head, rdropWhile_solid hq.solid, rdropWhile_append_of_neg hsolid]
    obtain ⟨c, cs, hc⟩ := List.exists_cons_of_ne_nil hq.ne_nil
    intro d hd
    rw [hc, List.cons_append, List.head?_cons, Option.mem_def, Option.some.injEq] at hd
    exact hq.solid d (by simp [hc, hd])
  have hgap : gap (m + 1) ++ r.rdropWhile isSpace = ' ' :: (gap m ++ r.rdropWhile isSpace) := rfl
  have hdrop : (gap m ++ r.rdropWhile isSpace).dropWhile isSpace = r.rdropWhile isSpace := by
    rw [List.dropWhile_append_of_pos gap_blank, dropWhile_of_head]
    rwa [head?_rdropWhile hr]
  have hhash : ¬ ['#'] <+: trim (q ++ (gap (m + 1) ++ r)) := by
    rw [htrim]
    intro h
    exact hq.not_comment.1 (List.prefix_of_prefix_length_le h (List.prefix_append _ _)
      (List.length_pos_iff.mpr hq.ne_nil))
  have hplain : ¬ (trim (q ++ (gap (m + 1) ++ r)) = [] ∨ ['#'] <+: trim (q ++ (gap (m + 1) ++ r)) ∨
      "//".toList <+: trim (q ++ (gap (m + 1) ++ r))) := by
    refine not_or.mpr ⟨by simp [htrim, hq.ne_nil], not_or.mpr ⟨hhash, ?_⟩⟩
    rw [htrim, hgap]
    exact hq.not_slashes
  have hmatch : assertMatch (trim (q ++ (gap (m + 1) ++ r))) = none := by
    have hwhole : dropKeyword "ASSERT".toList (q ++ ' ' :: (gap m ++ r.rdropWhile isSpace)) = none := by
      rw [dropKeyword_append (by decide), hq.not_assert]
      rfl
    rw [htrim, hgap, assertMatch]
    rcases stripNot_append (r := gap m ++ r.rdropWhile isSpace) hq.solid with h | h
    · rw [h, Option.getD_none, hwhole]
      rfl
    · rw [h, hdrop, Option.getD_some, hassert]
      rfl
  have hend' : ∀ c ∈ r.rdropWhile isSpace, lineEnd c = false := by
    intro c hc
    exact hend c ((List.rdropWhile_prefix _ _).subset hc)
  have htokens : tokenizeLine (q ++ (gap (m + 1) ++ r)) = some (q, r.rdropWhile isSpace) := by
    have hhead : ∀ c ∈ (r.rdropWhile isSpace).head?, isSpace c = false := by rwa [head?_rdropWhile hr]
    have hsplit : splitWord (trim (q ++ (gap (m + 1) ++ r))) = some (q, r.rdropWhile isSpace) := by
      rw [htrim, hgap, splitWord_append hq.solid hq.ne_nil (by simp) (by simp; decide),
        List.dropWhile_cons_of_pos rfl, hdrop, restOfLine_eq hend']
    simp only [tokenizeLine]
    rw [if_neg (not_or.mpr ⟨by simp [htrim, hq.ne_nil], hhash⟩), hsplit, Option.map_some,
      Option.getD_some, trim_eq, trimBy_of_head hhead, List.rdropWhile_idempotent]
  simp only [readLine]
  rw [if_neg hplain, hmatch]
  simp only [htokens, Option.map_some]

theorem IsKeyword.not_assert_cut (hk : IsKeyword keyword) :
    dropKeyword "ASSERT".toList ((negText n ++ (keyword ++ r)).rdropWhile isSpace) = none := by
  have hsolid : ∃ c ∈ keyword ++ r, isSpace c = false := by
    obtain ⟨k, ks, hks⟩ := List.exists_cons_of_ne_nil hk.ne_nil
    exact ⟨k, by simp [hks], hk.solid k (by simp [hks])⟩
  rw [rdropWhile_append_of_neg hsolid, rdropWhile_solid hk.solid]
  cases n with
  | false => exact hk.not_assert _
  | true => exact dropKeyword_cons (by decide)

/-- **A printed rule is read** as its path, its operator and its value, without blanks around. -/
theorem readLine_spaced (rt : Runtime ν) {k m : ℕ} (hq : IsPath q) (hk : IsKeyword keyword)
    (hm : m ≠ 0 ∨ v = []) (hv : ∀ c ∈ v, lineEnd c = false) :
    readLine rt (q ++ (gap (k + 1) ++ (negText n ++ (keyword ++ (gap m ++ v))))) =
      some (parseOperation rt q keyword (nonempty (trim v)) n) := by
  have hhead : ∀ c ∈ (negText n ++ (keyword ++ (gap m ++ v))).head?, isSpace c = false := by
    cases n with
    | false => exact hk.head
    | true =>
        intro c hc
        have hN : 'N' = c := by simpa [negText] using hc
        rw [← hN]
        rfl
  have hend : ∀ c ∈ negText n ++ (keyword ++ (gap m ++ v)), lineEnd c = false := by
    intro c hc
    simp only [List.mem_append] at hc
    rcases hc with hc | hc | hc | hc
    · cases n with
      | false => simp [negText] at hc
      | true =>
          have hall : (negText true).all (!lineEnd ·) = true := by decide
          simpa using List.all_eq_true.mp hall c hc
    · exact lineEnd_of_solid (hk.solid c hc)
    · rw [List.eq_of_mem_replicate hc]
      rfl
    · exact hv c hc
  rw [readLine_path hq hhead (by simp [hk.ne_nil]) hk.not_assert_cut hend, parseRest_printed hk hm hv]

/-- A path that is shorter than the column has a blank after it. -/
theorem padEnd_gap {width : ℕ} (h : (utf16 q).length < width) : ∃ k, padEnd width q = q ++ gap (k + 1) := by
  obtain ⟨k, hk⟩ : ∃ k, width - (utf16 q).length = k + 1 := Nat.exists_eq_succ_of_ne_zero (by omega)
  exact ⟨k, by rw [padEnd, hk, gap]⟩

theorem readLine_printed (rt : Runtime ν) {width m : ℕ} (hq : IsPath q) (hwidth : (utf16 q).length < width)
    (hk : IsKeyword keyword) (hm : m ≠ 0 ∨ v = []) (hv : ∀ c ∈ v, lineEnd c = false) :
    readLine rt (padEnd width q ++ (negText n ++ (keyword ++ (gap m ++ v)))) =
      some (parseOperation rt q keyword (nonempty (trim v)) n) := by
  obtain ⟨k, hpad⟩ := padEnd_gap hwidth
  rw [hpad, List.append_assoc, readLine_spaced rt hq hk hm hv]

/-! ## Operators -/

theorem isKeyword_of_head {c : Char} {cs : List Char} (hsolid : (c :: cs).all (!isSpace ·) = true)
    (hA : c.toUpper ≠ 'A') (hN : ∀ r, stripNot (c :: cs ++ r) = none) : IsKeyword (c :: cs) where
  ne_nil := by simp
  solid := by
    intro d hd
    simpa using List.all_eq_true.mp hsolid d hd
  not_not := hN
  not_assert r := dropKeyword_cons hA

theorem stripNot_of_head {c : Char} (h : c.toUpper ≠ 'N') : stripNot (c :: cs) = none := by
  have hdrop : dropKeyword "NOT".toList (c :: cs) = none := dropKeyword_cons h
  rw [stripNot, hdrop]
  rfl

variable {op : FieldOperator}

theorem isKeyword_keyword (hop : op.Known) : IsKeyword op.keyword := by
  cases op with
  | other text => simp [FieldOperator.Known, FieldOperator.names] at hop
  | notEquals | notContains | notExists | notIn =>
      exact isKeyword_of_head (by decide) (by decide) fun r => rfl
  | _ => exact isKeyword_of_head (by decide) (by decide) fun r => stripNot_of_head (by decide)

theorem isKeyword_length : IsKeyword "length".toList :=
  isKeyword_of_head (by decide) (by decide) fun _ => stripNot_of_head (by decide)

theorem isKeyword_each : IsKeyword "each".toList :=
  isKeyword_of_head (by decide) (by decide) fun _ => stripNot_of_head (by decide)

theorem isKeyword_subset : IsKeyword "subset".toList :=
  isKeyword_of_head (by decide) (by decide) fun _ => stripNot_of_head (by decide)

theorem isKeyword_mode (mode : ContainsMode) : IsKeyword mode.keyword := by
  cases mode <;>
    exact isKeyword_of_head (by decide) (by decide) fun _ => stripNot_of_head (by decide)

/-- A keyword of small letters and marks is its own lower case. -/
theorem lower_eq (rt : Runtime ν) {w : List Char}
    (h : w.all (fun c => decide (c.toNat < 128) && c.toLower == c) = true) : rt.lower w = w := by
  have hall : ∀ c ∈ w, c.toNat < 128 ∧ c.toLower = c := by
    intro c hc
    simpa using List.all_eq_true.mp h c hc
  rw [rt.lower_ascii w fun c hc => (hall c hc).1]
  calc w.map Char.toLower = w.map id := List.map_congr_left fun c hc => (hall c hc).2
    _ = w := List.map_id w

theorem lower_keyword (rt : Runtime ν) (hop : op.Known) : rt.lower op.keyword = op.keyword := by
  cases op with
  | other text => simp [FieldOperator.Known, FieldOperator.names] at hop
  | _ => exact lower_eq rt (by decide)

theorem lookup_keyword (hop : op.Known) : fieldOperatorKeywords.lookup op.keyword = some op := by
  cases op with
  | other text => simp [FieldOperator.Known, FieldOperator.names] at hop
  | _ => decide

theorem keyword_not_special (hop : op.Known) : op.keyword ≠ "length".toList ∧
    op.keyword ≠ "each".toList ∧ op.keyword ∉ containsKeywords ∧ op.keyword ≠ "subset".toList := by
  cases op with
  | other text => simp [FieldOperator.Known, FieldOperator.names] at hop
  | _ => decide

theorem parseOperation_keyword (hop : op.Known) {rawValue : Option (List Char)} :
    parseOperation rt q op.keyword rawValue n = fieldRule op op.keyword q rawValue n := by
  obtain ⟨hlength, heach, hcontains, hsubset⟩ := keyword_not_special hop
  simp only [parseOperation, lower_keyword rt hop]
  rw [if_neg hlength, if_neg heach, if_neg hcontains, if_neg hsubset, lookup_keyword hop]

theorem ofText_text (hop : op.Known) : FieldOperator.ofText op.text = op := by
  cases op with
  | other text => simp [FieldOperator.Known, FieldOperator.names] at hop
  | _ => decide

/-! ## Values -/

/-- A number, `true` or `false`. -/
def isLiteral (value : List Char) : Bool :=
  isNumberLiteral value || value == "true".toList || value == "false".toList

/-- A value that is printed as it is. -/
def isRaw (value : List Char) : Bool := isLiteral value || isQuoted '"' value

def quote (value : List Char) : List Char := '"' :: (escape value ++ ['"'])

theorem quoteValue_eq (hvalue : op.noValue = false) (hlist : op.isList = false) (htype : op ≠ .isType) :
    quoteValue v op = if isRaw v then v else quote v := by
  have hnot : ¬ (op.isList = true ∨ op = .isType) := by simp [hlist, htype]
  rw [quoteValue, if_neg (by simp [hvalue]), if_neg hnot]
  by_cases hnumber : isNumberLiteral v = true
  · simp [isRaw, isLiteral, hnumber]
  · by_cases hbool : v = "true".toList ∨ v = "false".toList
    · rcases hbool with rfl | rfl <;> rfl
    · have hraw : isRaw v = isQuoted '"' v := by
        rw [not_or] at hbool
        rw [isRaw, isLiteral, Bool.eq_false_iff.mpr hnumber, beq_false_of_ne hbool.1,
          beq_false_of_ne hbool.2]
        rfl
      rw [if_neg hnumber, if_neg hbool, hraw, quote]

theorem unescape_escape (v : List Char) : unescape (escape v) = v := by
  induction v with
  | nil => rfl
  | cons c v ih =>
      have hcons : escape (c :: v) = (if c = '\\' ∨ c = '"' then ['\\', c] else [c]) ++ escape v := by
        simp [escape]
      rw [hcons]
      by_cases hc : c = '\\' ∨ c = '"'
      · have hend : lineEnd c = false := by
          rcases hc with rfl | rfl <;> rfl
        rw [if_pos hc, List.cons_append, List.singleton_append, unescape, if_neg (by simp [hend]), ih]
      · rw [not_or] at hc
        rw [if_neg (not_or.mpr hc), List.singleton_append]
        cases h : escape v with
        | nil =>
            rw [h] at ih
            rw [unescape, ih]
            intro d ds hd _
            exact hc.1 hd
        | cons d ds =>
            rw [h] at ih
            rw [unescape, ih]
            intro e es he _
            exact hc.1 he

theorem isQuoted_quote (v : List Char) : isQuoted '"' (quote v) = true := by
  simp [isQuoted, quote, List.getLast?_cons, List.getLast?_append]

theorem unquote_quote (v : List Char) : unquote (quote v) = v := by
  have hinner : ((quote v).drop 1).dropLast = escape v := by simp [quote]
  rw [unquote, if_pos (by simp [isQuoted_quote]), hinner, unescape_escape]

theorem isNumberLiteral_chars (h : isNumberLiteral v = true) :
    v ≠ [] ∧ ∀ c ∈ v, c.isDigit = true ∨ c = '-' ∨ c = '.' := by
  simp only [isNumberLiteral, Bool.and_eq_true, Bool.not_eq_true', List.isEmpty_eq_false_iff] at h
  obtain ⟨hdigits, hfraction⟩ := h
  refine ⟨by rintro rfl; simp at hdigits, ?_⟩
  have hall : ∀ c ∈ (if v.head? == some '-' then v.drop 1 else v),
      c.isDigit = true ∨ c = '-' ∨ c = '.' := by
    intro c hc
    rw [← List.takeWhile_append_dropWhile (p := Char.isDigit)
      (l := if v.head? == some '-' then v.drop 1 else v), List.mem_append] at hc
    rcases hc with hc | hc
    · exact .inl (List.mem_takeWhile_imp hc)
    · generalize (if v.head? == some '-' then v.drop 1 else v).dropWhile Char.isDigit = fraction
        at hc hfraction
      cases fraction with
      | nil => cases hc
      | cons d ds =>
          simp only [List.isEmpty_cons, Bool.false_or, List.head?_cons, List.drop_one, List.tail_cons,
            Bool.and_eq_true, List.all_eq_true, beq_iff_eq, Option.some.injEq] at hfraction
          rcases List.mem_cons.mp hc with rfl | hc
          · exact .inr (.inr hfraction.1.1)
          · exact .inl (hfraction.2 c hc)
  intro c hc
  by_cases hsign : v.head? = some '-'
  · obtain ⟨cs, rfl⟩ : ∃ cs, v = '-' :: cs := by
      cases v with
      | nil => cases hc
      | cons d cs =>
          rw [List.head?_cons, Option.some.injEq] at hsign
          exact ⟨cs, by rw [hsign]⟩
    rcases List.mem_cons.mp hc with rfl | hc
    · exact .inr (.inl rfl)
    · exact hall c (by simpa using hc)
  · exact hall c (by rwa [if_neg (by simpa using hsign)])

theorem trim_eq_self (hhead : ∀ c ∈ v.head?, isSpace c = false)
    (hlast : ∀ c ∈ v.getLast?, isSpace c = false) : trim v = v := by
  rw [trim_eq, trimBy_of_head hhead, List.rdropWhile_eq_self_iff]
  intro hne
  simp [hlast _ (List.getLast?_eq_some_getLast hne)]

theorem trim_quoted (h : isQuoted '"' v = true) : trim v = v ∧ v ≠ [] := by
  simp only [isQuoted, Bool.and_eq_true, beq_iff_eq] at h
  refine ⟨trim_eq_self ?_ ?_, by rintro rfl; simp at h⟩
  · rw [h.1]
    simp
    rfl
  · rw [h.2]
    simp
    rfl

theorem isSpace_digit {c : Char} (h : c.isDigit = true) : isSpace c = false ∧ c ≠ '"' ∧ c ≠ '\'' ∧ c ≠ ':' := by
  exact ⟨ApiMock.isSpace_of_isDigit h, by rintro rfl; simp at h, by rintro rfl; simp at h,
    by rintro rfl; simp at h⟩

theorem isLiteral_chars (h : isLiteral v = true) :
    v ≠ [] ∧ ∀ c ∈ v, isSpace c = false ∧ c ≠ '"' ∧ c ≠ '\'' ∧ c ≠ ':' := by
  simp only [isLiteral, Bool.or_eq_true, beq_iff_eq] at h
  rcases h with (hnumber | rfl) | rfl
  · obtain ⟨hne, hchars⟩ := isNumberLiteral_chars hnumber
    refine ⟨hne, fun c hc => ?_⟩
    rcases hchars c hc with hdigit | rfl | rfl
    · exact isSpace_digit hdigit
    · exact ⟨rfl, by decide⟩
    · exact ⟨rfl, by decide⟩
  · exact ⟨by decide, by decide⟩
  · exact ⟨by decide, by decide⟩

theorem isQuoted_of_isLiteral (h : isLiteral v = true) :
    isQuoted '"' v = false ∧ isQuoted '\'' v = false := by
  obtain ⟨hne, hchars⟩ := isLiteral_chars h
  obtain ⟨c, cs, rfl⟩ := List.exists_cons_of_ne_nil hne
  obtain ⟨-, hdouble, hsingle, -⟩ := hchars c (by simp)
  simp [isQuoted, hdouble, hsingle]

theorem unquote_of_isLiteral (h : isLiteral v = true) : unquote v = v := by
  obtain ⟨hdouble, hsingle⟩ := isQuoted_of_isLiteral h
  rw [unquote, hdouble, hsingle]
  rfl

theorem trim_of_solid (h : ∀ c ∈ v, isSpace c = false) : trim v = v :=
  trimBy_of_none h

/-- A value that is printed as it is. -/
theorem trim_isRaw (h : isRaw v = true) : trim v = v ∧ v ≠ [] := by
  rw [isRaw, Bool.or_eq_true] at h
  rcases h with h | h
  · obtain ⟨hne, hchars⟩ := isLiteral_chars h
    exact ⟨trim_of_solid fun c hc => (hchars c hc).1, hne⟩
  · exact trim_quoted h

theorem not_expr_isRaw (h : isRaw v = true) : ¬ "expr:".toList <+: v := by
  rintro ⟨t, rfl⟩
  rw [isRaw, Bool.or_eq_true] at h
  rcases h with h | h
  · exact ((isLiteral_chars h).2 ':' (by simp)).2.2.2 rfl
  · simp [isQuoted] at h

/-! ## Rules that come back -/

/-- A path that is printed and read as it is. -/
def PathKept (jsonPath : List Char) : Prop :=
  let path := barePath jsonPath
  path ≠ [] ∧ ¬ ['$'] <+: path ∧ (path.take 6).map Char.toUpper ≠ "ASSERT".toList

/-- A value that is not between quotation marks; that of a list operator has no blanks at its
ends and no expression in it. -/
def ValueKept (op : FieldOperator) (value : List Char) : Option (List Char) → Prop
  | some expression => op.noValue = false ∧ value = [] ∧ expression.rdropWhile isSpace = expression
  | none => op.noValue = true ∨
      if op.isList then trim value = value ∧ value ≠ [] ∧ ¬ "expr:".toList <+: value
      else isQuoted '"' value = false

/-- Its operator is not `is_type`, and its path has no star. -/
def FieldKept (f : ExpectedField) : Prop :=
  let op := f.operator.getD .equals
  PathKept f.jsonPath ∧ op ≠ .isType ∧
    (hasStar (barePath f.jsonPath) = true → op = .exists ∨ op = .notExists) ∧
      ValueKept op (f.operatorValue.getD f.expectedValue) (f.expression.bind nonempty)

/-- Its path is shorter than the column, and its value is one that is printed without quotation
marks around it. -/
def EachKept (width : ℕ) (jsonPath fieldPath : List Char) (op : FieldOperator) (value : List Char) :
    Prop :=
  PathKept jsonPath ∧ hasStar (barePath jsonPath) = false ∧
    (utf16 (eachPath jsonPath fieldPath)).length < width ∧
    (op.noValue = true ∨
      if op.isList ∨ op = .isType then trim value = value else isRaw value = true)

/-- A text without blanks at its ends that is read as JSON. -/
def JsonKept (rt : Runtime ν) (value : List Char) : Prop :=
  trim value = value ∧
    (value.head? = some '"' ∨ looksNested value = true ∧ (rt.parse value).isSome = true)

/-- There is no `//` in it that could start a description. -/
def CustomKept (expression : List Char) (description : Option (List Char)) : Prop :=
  expression ≠ [] ∧ trim expression = expression ∧
    match description.bind nonempty with
    | some d => trim d = d ∧ ¬ "//".toList <:+: expression.drop 1
    | none => ¬ "//".toList <:+: (expression.drop 1).dropLast

/-- A rule that comes back, where the paths have this width. -/
def Kept (rt : Runtime ν) (width : ℕ) : Entry ν → Prop
  | .inl f => FieldKept f
  | .inr (.typeCheck path _ _) | .inr (.existence path _ _) | .inr (.arrayLength path _ _ _) =>
      PathKept path
  | .inr (.each path fieldPath op value _) => EachKept width path fieldPath op (value.getD [])
  | .inr (.arrayContains path value _ _) => PathKept path ∧ (value = [] ∨ JsonKept rt value)
  | .inr (.containsSubset path expected _) => PathKept path ∧ JsonKept rt expected
  | .inr (.custom expression description _) => CustomKept expression description

def entryLine (rt : Runtime ν) (width : ℕ) : Entry ν → List Char :=
  Sum.elim (fieldLine width) (assertionLine rt width)

/-- A line that is read as a rule which says the same. -/
def ComesBack (rt : Runtime ν) (line : List Char) (e : Entry ν) : Prop :=
  ∃ rule e', readLine rt line = some (.ok rule) ∧ ruleToModel rt rule = some e' ∧
    canonical e' = canonical e

theorem Clean.solid (h : Clean cs) : ∀ c ∈ cs, isSpace c = false := fun c hc => (h.1 c hc).1

theorem isPath_of_kept {jsonPath : List Char} (h : CleanPath jsonPath) (hkept : PathKept jsonPath) :
    IsPath (barePath jsonPath) where
  ne_nil := hkept.1
  solid := h.2.solid
  not_comment := by
    refine ⟨?_, fun hslash => h.2.2 hslash.isInfix⟩
    intro hhash
    exact (h.2.1 '#' (hhash.subset (by simp))).2 (by simp)
  not_assert := if_neg hkept.2.2

theorem shownPath_of_kept {jsonPath : List Char} (hkept : PathKept jsonPath) :
    shownPath jsonPath = barePath jsonPath := if_neg hkept.1

theorem cleanPath_eq {jsonPath : List Char} (h : CleanPath jsonPath) :
    jsonPath = "$.".toList ++ barePath jsonPath := by
  obtain ⟨⟨t, rfl⟩, -⟩ := h
  rfl

/-- The path of the model is the printed one after `$.`. -/
theorem path_restored {jsonPath : List Char} (h : CleanPath jsonPath) (hkept : PathKept jsonPath) :
    (if ['$'] <+: barePath jsonPath then barePath jsonPath else "$.".toList ++ barePath jsonPath) =
      jsonPath := by
  rw [if_neg hkept.2.1, ← cleanPath_eq h]

theorem gap_keyword (hop : op.Known) : (∃ m, m ≠ 0 ∧ padEnd 20 op.keyword = op.keyword ++ gap m) ∧
    ∃ m, m ≠ 0 ∧ padEnd 16 op.keyword = op.keyword ++ gap m := by
  have hshort : (utf16 op.keyword).length < 16 := by
    cases op with
    | other text => simp [FieldOperator.Known, FieldOperator.names] at hop
    | _ => decide
  exact ⟨⟨20 - (utf16 op.keyword).length, by omega, rfl⟩,
    ⟨16 - (utf16 op.keyword).length, by omega, rfl⟩⟩

theorem readLine_operator (rt : Runtime ν) {width m : ℕ} (hq : IsPath q) (hwidth : (utf16 q).length < width)
    (hop : op.Known) (hm : m ≠ 0 ∨ v = []) (hv : OneLine v) :
    readLine rt (padEnd width q ++ (negText n ++ (op.keyword ++ (gap m ++ v)))) =
      some (fieldRule op op.keyword q (nonempty (trim v)) n) := by
  rw [readLine_printed rt hq hwidth (isKeyword_keyword hop) hm hv, parseOperation_keyword hop]

theorem nonempty_of_ne (h : v ≠ []) : nonempty v = some v := if_neg h

theorem oneLine_of_all (h : cs.all (!lineEnd ·) = true) : OneLine cs := by
  intro c hc
  simpa using List.all_eq_true.mp h c hc

theorem oneLine_append (hv : OneLine v) (hr : OneLine r) : OneLine (v ++ r) := by
  intro c hc
  rcases List.mem_append.mp hc with hc | hc
  · exact hv c hc
  · exact hr c hc

theorem oneLine_escape (hv : OneLine v) : OneLine (escape v) := by
  intro c hc
  obtain ⟨d, hd, hc⟩ := List.mem_flatMap.mp hc
  split at hc
  · rcases List.mem_cons.mp hc with rfl | hc
    · rfl
    · rw [List.mem_singleton.mp hc]
      exact hv d hd
  · rw [List.mem_singleton.mp hc]
    exact hv d hd

theorem oneLine_quoteValue (op : FieldOperator) (hv : OneLine v) : OneLine (quoteValue v op) := by
  have hquote : OneLine ('"' :: (escape v ++ ['"'])) := by
    intro c hc
    rcases List.mem_cons.mp hc with rfl | hc
    · rfl
    · exact oneLine_append (oneLine_escape hv) (oneLine_of_all rfl) c hc
  rw [quoteValue]
  split
  · exact oneLine_of_all rfl
  · repeat' split
    all_goals first
      | exact hv
      | exact hquote

/-- What is kept of a printed value. -/
theorem storedValue_printed (hvalue : op.noValue = false) (hlist : op.isList = false)
    (htype : op ≠ .isType) (hquoted : isQuoted '"' v = false) :
    trim (quoteValue v op) = quoteValue v op ∧ quoteValue v op ≠ [] ∧
      ¬ "expr:".toList <+: quoteValue v op ∧
      storedValue op (some (quoteValue v op)) = some v := by
  rw [quoteValue_eq hvalue hlist htype]
  by_cases hraw : isRaw v = true
  · have hliteral : isLiteral v = true := by simpa [isRaw, hquoted] using hraw
    rw [if_pos hraw]
    refine ⟨(trim_isRaw hraw).1, (trim_isRaw hraw).2, not_expr_isRaw hraw, ?_⟩
    simp [storedValue, hlist, unquote_of_isLiteral hliteral]
  · rw [if_neg hraw]
    have hquote := trim_quoted (isQuoted_quote v)
    refine ⟨hquote.1, hquote.2, fun h => ?_, ?_⟩
    · obtain ⟨t, ht⟩ := h
      simp [quote] at ht
    · simp [storedValue, hlist, unquote_quote]

/-- The rule of an operator with a value, where the path has no star. -/
theorem fieldRule_value (hvalue : op.noValue = false) (htype : op ≠ .isType) (hstar : hasStar q = false)
    {rawOp rawValue : List Char} :
    fieldRule op rawOp q (some rawValue) n =
      if "expr:".toList <+: rawValue then
        .ok ⟨q, op.text, none, n, some (rawValue.drop 5), .field⟩
      else .ok ⟨q, op.text, storedValue op (some rawValue), n, none, .field⟩ := by
  have hexists : ¬ (op = .exists ∨ op = .notExists) := by
    rintro (rfl | rfl) <;> cases hvalue
  rw [fieldRule, if_neg (by simp), if_neg htype, if_neg hexists, if_neg (by simp [hstar]),
    Option.getD_some]

/-- The path of the model for a printed path. -/
def modelPath (path : List Char) : List Char :=
  if ['$'] <+: path then path else "$.".toList ++ path

/-- A rule without a value is kept as a field. -/
theorem fieldRule_noValue (rt : Runtime ν) (hop : op.Known) (hnone : op.noValue = true)
    (hstar : hasStar q = true → op = .exists ∨ op = .notExists) (rawOp : List Char) :
    ∃ rule, fieldRule op rawOp q none n = .ok rule ∧
      ruleToModel rt rule = some (.inl ⟨modelPath q, [], some op, none, n, none⟩) := by
  have htype : op ≠ .isType := by
    rintro rfl
    cases hnone
  rw [fieldRule, if_neg (by simp [hnone]), if_neg htype]
  by_cases hexists : op = .exists ∨ op = .notExists
  · rw [if_pos hexists]
    exact ⟨_, rfl, by rw [ruleToModel, ofText_text hop, modelPath]⟩
  · have hno : ¬ hasStar q = true := fun h => hexists (hstar h)
    rw [if_neg hexists, if_neg hno, if_neg (by simp)]
    exact ⟨_, rfl, by simp only [ruleToModel, ofText_text hop, modelPath, hnone]; rfl⟩

/-- A rule with a value, or with an expression in its place. -/
theorem ruleToModel_field (hop : op.Known) (hvalue : op.noValue = false)
    {value expression : Option (List Char)} :
    ruleToModel rt ⟨q, op.text, value, n, expression, .field⟩ =
      some (.inl ⟨modelPath q, value.getD [], some op, value, n, expression.bind nonempty⟩) := by
  simp only [ruleToModel, ofText_text hop, modelPath, hvalue]
  rfl

theorem bind_nonempty {o : Option (List Char)} {e : List Char} (h : o.bind nonempty = some e) :
    o = some e ∧ e ≠ [] := by
  obtain ⟨a, rfl, ha⟩ := Option.bind_eq_some_iff.mp h
  rw [nonempty] at ha
  split at ha
  · cases ha
  · next hne =>
      rw [Option.some.injEq] at ha
      exact ⟨by rw [ha], ha ▸ hne⟩

theorem trim_expr : trim ("expr:".toList ++ v) = "expr:".toList ++ v.rdropWhile isSpace := by
  have hhead : ∀ c ∈ ("expr:".toList ++ v).head?, isSpace c = false := by
    intro c hc
    have hc' : 'e' = c := by simpa using hc
    rw [← hc']
    rfl
  rw [trim_eq, trimBy_of_head hhead, rdropWhile_solid]
  intro c hc
  have hall : ("expr:".toList).all (!isSpace ·) = true := rfl
  simpa using List.all_eq_true.mp hall c hc

theorem field_comesBack (rt : Runtime ν) {f : ExpectedField} {width : ℕ} (hdom : InDomain (ν := ν) (.inl f))
    (hkept : FieldKept f) (hwidth : (utf16 (barePath f.jsonPath)).length < width) :
    ComesBack rt (fieldLine width f) (.inl f) := by
  obtain ⟨hpath, hop, hvalue, hexpression⟩ := hdom
  obtain ⟨hpk, htype, hstar, hrest⟩ := hkept
  have hq := isPath_of_kept hpath hpk
  have hrestored : modelPath (barePath f.jsonPath) = f.jsonPath := path_restored hpath hpk
  simp only [ComesBack, fieldLine, shownPath_of_kept hpk, canonical]
  generalize f.operator.getD .equals = op at *
  generalize f.operatorValue.getD f.expectedValue = value at *
  cases hnone : op.noValue with
  | true =>
      have hread : readLine rt (padEnd width (barePath f.jsonPath) ++
          (negText f.negate ++ (op.keyword ++ (gap 0 ++ [])))) =
            some (fieldRule op op.keyword (barePath f.jsonPath) none f.negate) :=
        readLine_operator rt hq hwidth hop (.inr rfl) (oneLine_of_all rfl)
      obtain ⟨rule, hrule, hmodel⟩ := fieldRule_noValue rt (n := f.negate) hop hnone hstar
        op.keyword
      have hexp : f.expression.bind nonempty = none := by
        cases h : f.expression.bind nonempty with
        | none => rfl
        | some e => simp [h, hnone, ValueKept] at hrest
      refine ⟨rule, _, ?_, hmodel, ?_⟩
      · rw [if_pos rfl, ← hrule, ← hread]
        simp [gap]
      · rw [hrestored, hexp]
        simp [hnone]
  | false =>
      obtain ⟨m, hm, hgap⟩ := (gap_keyword hop).1
      have hplain : hasStar (barePath f.jsonPath) = false := by
        by_contra h
        rcases hstar (Bool.eq_true_of_not_eq_false h) with rfl | rfl <;> cases hnone
      rw [if_neg (by simp), hgap]
      cases hexp : f.expression.bind nonempty with
      | some e =>
          rw [hexp] at hrest
          obtain ⟨-, rfl, htrim⟩ := hrest
          have hone : OneLine ("expr:".toList ++ e) := by
            rw [(bind_nonempty hexp).1] at hexpression
            exact oneLine_append (oneLine_of_all rfl) hexpression
          have hread := readLine_operator rt (n := f.negate) hq hwidth hop (.inl hm) hone
          rw [trim_expr, htrim, nonempty_of_ne (by simp), fieldRule_value hnone htype hplain,
            if_pos (List.prefix_append _ _), ← List.append_assoc op.keyword] at hread
          refine ⟨_, _, hread, ruleToModel_field hop hnone, ?_⟩
          simp [hrestored, hnone, nonempty_of_ne (bind_nonempty hexp).2]
      | none =>
          rw [hexp] at hrest
          have hfound : trim (quoteValue value op) = quoteValue value op ∧ quoteValue value op ≠ [] ∧
              ¬ "expr:".toList <+: quoteValue value op ∧
              storedValue op (some (quoteValue value op)) = some value := by
            rw [ValueKept, hnone, Bool.false_eq_true, false_or] at hrest
            cases hlist : op.isList with
            | true =>
                rw [hlist, if_pos rfl] at hrest
                have hquote : quoteValue value op = value := by
                  rw [quoteValue, if_neg (by simp [hnone]), if_pos (.inl hlist)]
                rw [hquote]
                exact ⟨hrest.1, hrest.2.1, hrest.2.2, by simp [storedValue, hlist]⟩
            | false =>
                rw [hlist, if_neg (by simp)] at hrest
                exact storedValue_printed hnone hlist htype hrest
          obtain ⟨htrim, hne, hexpr, hstored⟩ := hfound
          have hread := readLine_operator rt (n := f.negate) hq hwidth hop (.inl hm)
            (oneLine_quoteValue op hvalue)
          rw [htrim, nonempty_of_ne hne, fieldRule_value hnone htype hplain, if_neg hexpr, hstored,
            ← List.append_assoc op.keyword] at hread
          refine ⟨_, _, hread, ruleToModel_field hop hnone, ?_⟩
          simp [hrestored, hnone]

section Assertions

variable {path : List Char} {width : ℕ}

theorem ComesBack.of_read {line line' : List Char} {rule : Rule} {e e' : Entry ν}
    (hread : readLine rt line' = some (.ok rule)) (hline : line = line')
    (hmodel : ruleToModel rt rule = some e') (hsame : canonical e' = canonical e) :
    ComesBack rt line e :=
  ⟨rule, e', hline ▸ hread, hmodel, hsame⟩

theorem typeName_plain {expectedType : List Char} (h : expectedType ∈ jsonTypeNames) :
    OneLine expectedType ∧ trim expectedType = expectedType ∧ expectedType ≠ [] ∧
      ∀ rt : Runtime ν, rt.lower expectedType = expectedType := by
  simp only [jsonTypeNames, List.map_cons, List.map_nil, List.mem_cons, List.not_mem_nil, or_false] at h
  rcases h with rfl | rfl | rfl | rfl | rfl | rfl <;>
    exact ⟨oneLine_of_all (by decide), by decide, by decide, fun rt => lower_eq rt (by decide)⟩

theorem typeCheck_comesBack {expectedType : List Char} (hpath : CleanPath path)
    (htype : expectedType ∈ jsonTypeNames) (hkept : PathKept path)
    (hwidth : (utf16 (barePath path)).length < width) :
    ComesBack rt (assertionLine rt width (.typeCheck path expectedType n))
      (.inr (.typeCheck path expectedType n)) := by
  obtain ⟨hone, htrim, hne, hlower⟩ := typeName_plain (ν := ν) htype
  have hread := readLine_operator rt (n := n) (m := 13) (isPath_of_kept hpath hkept) hwidth
    (show FieldOperator.isType.Known by decide) (.inl (by decide)) hone
  rw [htrim, nonempty_of_ne hne, fieldRule, if_neg (by simp), if_pos rfl] at hread
  have hmodel : ruleToModel rt ⟨barePath path, FieldOperator.isType.text, some expectedType, n, none,
      .typeCheck⟩ = some (.inr (.typeCheck path expectedType n)) := by
    simp only [ruleToModel, path_restored hpath hkept, Option.getD_some, hlower rt]
  refine .of_read hread ?_ hmodel rfl
  rw [assertionLine, shownPath_of_kept hkept]
  rfl

/-- The line of an existence assertion is that of the field. -/
theorem existence_line (path : List Char) (expectExists n : Bool) :
    assertionLine rt width (.existence path expectExists n) =
      fieldLine width ⟨path, [], some (if expectExists then .exists else .notExists), none, n, none⟩ := by
  cases expectExists <;> rfl

theorem existence_inDomain (expectExists n : Bool) (hpath : CleanPath path) : InDomain (ν := ν)
    (.inl ⟨path, [], some (if expectExists then .exists else .notExists), none, n, none⟩) := by
  refine ⟨hpath, ?_, oneLine_of_all rfl, oneLine_of_all rfl⟩
  cases expectExists with
  | true => exact (show FieldOperator.exists.Known by decide)
  | false => exact (show FieldOperator.notExists.Known by decide)

theorem existence_comesBack {expectExists : Bool} (hpath : CleanPath path) (hkept : PathKept path)
    (hwidth : (utf16 (barePath path)).length < width) :
    ComesBack rt (assertionLine rt width (.existence path expectExists n))
      (.inr (.existence path expectExists n)) := by
  have hfield : FieldKept ⟨path, [], some (if expectExists then .exists else .notExists), none, n, none⟩ := by
    cases expectExists with
    | true => exact ⟨hkept, nofun, fun _ => .inl rfl, .inl rfl⟩
    | false => exact ⟨hkept, nofun, fun _ => .inr rfl, .inl rfl⟩
  rw [existence_line]
  obtain ⟨rule, e, hread, hmodel, hsame⟩ :=
    field_comesBack rt (existence_inDomain expectExists n hpath) hfield hwidth
  refine ⟨rule, e, hread, hmodel, hsame.trans ?_⟩
  cases expectExists <;> rfl

theorem trim_word_append (hq : ∀ c ∈ q, isSpace c = false) (hne : q ≠ []) :
    trim (q ++ r) = q ++ r.rdropWhile isSpace := by
  obtain ⟨c, cs, hcs⟩ := List.exists_cons_of_ne_nil hne
  rw [trim_eq, trimBy_of_head, rdropWhile_solid hq]
  intro d hd
  rw [hcs, List.cons_append, List.head?_cons, Option.mem_def, Option.some.injEq] at hd
  exact hq d (by simp [hcs, hd])

theorem oneLine_solid (h : ∀ c ∈ v, isSpace c = false) : OneLine v :=
  fun c hc => lineEnd_of_solid (h c hc)

theorem OneLine.any (h : OneLine v) : ¬ v.any lineEnd = true := by
  simpa [OneLine] using h

theorem oneLine_gap (m : ℕ) : OneLine (gap m) := by
  intro c hc
  rw [List.eq_of_mem_replicate hc]
  rfl

theorem text_comparison (op : ComparisonOperator) : op.text ≠ [] ∧
    (∀ c ∈ op.text, isComparisonChar c = true ∧ isSpace c = false) ∧
      lengthOperator ("length ".toList ++ op.text) = some op ∧
        ∃ m, padEnd 14 op.text = op.text ++ gap (m + 1) := by
  cases op <;> exact ⟨by decide, by decide, by decide, ⟨_, rfl⟩⟩

theorem readLine_arrayLength (rt : Runtime ν) (op : ComparisonOperator) (value : ν) (hq : IsPath q)
    (hwidth : (utf16 q).length < width) :
    readLine rt (padEnd width q ++ (negText n ++ ("length ".toList ++
      (padEnd 14 op.text ++ rt.numberText value)))) =
        some (.ok ⟨q, "length ".toList ++ op.text, some (rt.numberText value), n, none, .length⟩) := by
  obtain ⟨hne, hchars⟩ := rt.numberText_chars value
  obtain ⟨hopne, hop, -, m, hpad⟩ := text_comparison op
  have hsolid : ∀ c ∈ rt.numberText value, isSpace c = false := fun c hc => (hchars c hc).1
  have hone : OneLine (op.text ++ (gap (m + 1) ++ rt.numberText value)) :=
    oneLine_append (oneLine_solid fun c hc => (hop c hc).2)
      (oneLine_append (oneLine_gap _) (oneLine_solid hsolid))
  have hnumber : (rt.numberText value).rdropWhile isSpace = rt.numberText value := by
    have hword := rdropWhile_solid (r := []) hsolid
    simpa using hword
  have htrim : trim (op.text ++ (gap (m + 1) ++ rt.numberText value)) =
      op.text ++ (gap (m + 1) ++ rt.numberText value) := by
    obtain ⟨c, cs, hc⟩ := List.exists_cons_of_ne_nil hne
    rw [trim_word_append (fun c hc => (hop c hc).2) hopne, rdropWhile_append_of_neg, hnumber]
    exact ⟨c, by simp [hc], hsolid c (by simp [hc])⟩
  have hlower : rt.lower "length".toList = "length".toList := lower_eq rt (by decide)
  have htake : (op.text ++ (gap (m + 1) ++ rt.numberText value)).takeWhile isComparisonChar = op.text := by
    rw [List.takeWhile_append_of_pos fun c hc => (hop c hc).1]
    exact List.append_nil _
  have hdrop : (op.text ++ (gap (m + 1) ++ rt.numberText value)).dropWhile isComparisonChar =
      gap (m + 1) ++ rt.numberText value := by
    rw [List.dropWhile_append_of_pos fun c hc => (hop c hc).1]
    rfl
  have hrest : (gap (m + 1) ++ rt.numberText value).dropWhile isSpace = rt.numberText value := by
    rw [List.dropWhile_append_of_pos gap_blank,
      dropWhile_of_head fun c hc => hsolid c (List.mem_of_mem_head? hc)]
  have hread := readLine_printed rt (n := n) (m := 1) hq hwidth isKeyword_length (.inl (by decide)) hone
  rw [htrim, nonempty_of_ne (by simp [hopne]), parseOperation, hlower, if_pos rfl, parseLength] at hread
  simp only [htake, hdrop, hrest, restOfLine_eq (oneLine_solid hsolid), trim_of_solid hsolid] at hread
  rw [if_neg hopne] at hread
  rw [hpad, List.append_assoc]
  exact hread

theorem ruleToModel_length {op : ComparisonOperator} {value : ν} :
    ruleToModel rt ⟨q, "length ".toList ++ op.text, some (rt.numberText value), n, none, .length⟩ =
      some (.inr (.arrayLength (modelPath q) op value n)) := by
  simp only [ruleToModel, (text_comparison op).2.2.1, Option.map_some, Option.bind_some,
    rt.toNumber_numberText, Option.getD_some, modelPath]

theorem arrayLength_comesBack {op : ComparisonOperator} {value : ν} (hpath : CleanPath path)
    (hkept : PathKept path) (hwidth : (utf16 (barePath path)).length < width) :
    ComesBack rt (assertionLine rt width (.arrayLength path op value n))
      (.inr (.arrayLength path op value n)) := by
  have hread := readLine_arrayLength rt (n := n) op value (isPath_of_kept hpath hkept) hwidth
  refine .of_read hread ?_ ruleToModel_length ?_
  · rw [assertionLine, shownPath_of_kept hkept]
  · rw [show modelPath (barePath path) = path from path_restored hpath hkept]

theorem parseEach_printed (hk : IsKeyword keyword) {m : ℕ} (hm : m ≠ 0 ∨ v = [])
    (hv : ∀ c ∈ v, lineEnd c = false) :
    parseEach q (some (trim (keyword ++ (gap m ++ v)))) n =
      .ok ⟨q, "each ".toList ++ keyword, nonempty (trim v), n, none, .each⟩ := by
  obtain ⟨hword, -, hvalue⟩ := word_and_rest hk.solid hm hv
  have hline : trim (keyword ++ (gap m ++ v)) = (keyword ++ (gap m ++ v)).rdropWhile isSpace := by
    rw [trim_word_append hk.solid hk.ne_nil, rdropWhile_solid hk.solid]
  simp only [parseEach, hline, hword, hvalue]

theorem hasStar_eq_false : hasStar cs = false ↔ ¬ "[*]".toList <:+: cs := decide_eq_false_iff_not

theorem splitStar_cons {c : Char} (h : ¬ "[*]".toList <+: cs) :
    splitStar (c :: cs) = (splitStar cs).map fun (before, after) => (c :: before, after) := by
  rw [splitStar]
  · intro rest hcs
    exact h ⟨'.' :: rest, hcs.symm⟩
  · intro rest hcs
    exact h ⟨rest, hcs.symm⟩

/-- A star does not begin before the first one. -/
theorem not_starts_star {before : List Char} (hne : before ≠ []) (hstar : hasStar before = false) :
    ¬ "[*]".toList <+: before ++ ("[*]".toList ++ r) := by
  rw [hasStar_eq_false] at hstar
  rintro ⟨t, ht⟩
  have ht : '[' :: '*' :: ']' :: t = before ++ '[' :: '*' :: ']' :: r := ht
  match before with
  | [] => exact hne rfl
  | [_] => simp at ht
  | [_, _] => simp at ht
  | a :: b :: c :: rest =>
      simp only [List.cons_append, List.cons.injEq] at ht
      obtain ⟨rfl, rfl, rfl, -⟩ := ht
      exact hstar ⟨[], rest, rfl⟩

/-- The first star ends the path of the array. -/
theorem splitStar_append {before : List Char} (hne : before ≠ []) (hstar : hasStar before = false) :
    splitStar (before ++ ("[*]".toList ++ r)) =
      some (before, if r.head? = some '.' then r.drop 1 else r) := by
  induction before with
  | nil => exact absurd rfl hne
  | cons c cs ih =>
      by_cases hcs : cs = []
      · rw [hcs]
        show splitStar (c :: '[' :: '*' :: ']' :: r) = _
        by_cases hdot : r.head? = some '.'
        · obtain ⟨d, ds, rfl⟩ : ∃ d ds, r = d :: ds := List.exists_cons_of_ne_nil (by rintro rfl; cases hdot)
          rw [List.head?_cons, Option.some.injEq] at hdot
          rw [hdot, splitStar]
          rfl
        · rw [if_neg hdot, splitStar]
          intro rest hr
          exact hdot (by rw [hr, List.head?_cons])
      · have hrest : hasStar cs = false := by
          rw [hasStar_eq_false] at hstar ⊢
          exact fun h => hstar (h.trans (List.suffix_cons c cs).isInfix)
        rw [List.cons_append, splitStar_cons (not_starts_star hcs hrest), ih hcs hrest]
        rfl

/-- A path stays one where members are asked for. -/
theorem IsPath.star (hq : IsPath q) (hr : ∀ c ∈ r, isSpace c = false) : IsPath (q ++ '[' :: r) where
  ne_nil := by simp
  solid := by
    intro c hc
    rcases List.mem_append.mp hc with hc | hc
    · exact hq.solid c hc
    · rcases List.mem_cons.mp hc with rfl | hc
      · rfl
      · exact hr c hc
  not_comment := by
    obtain ⟨hhash, hslash⟩ := hq.not_comment
    obtain ⟨c, cs, rfl⟩ := List.exists_cons_of_ne_nil hq.ne_nil
    refine ⟨fun h => hhash ?_, fun h => ?_⟩
    · exact List.prefix_of_prefix_length_le h (List.prefix_append _ _) (by simp)
    · cases cs with
      | nil =>
          obtain ⟨t, ht⟩ := h
          have hsecond : '/' :: '/' :: t = c :: '[' :: r := ht
          simp at hsecond
      | cons d cs =>
          exact hslash (List.prefix_of_prefix_length_le h (List.prefix_append _ _) (by simp))
  not_assert := by
    rw [dropKeyword_append (by decide), hq.not_assert]
    rfl

theorem readLine_each_spaced (rt : Runtime ν) {k m : ℕ} (hq : IsPath q) (hop : op.Known)
    (hm : m ≠ 0 ∨ v = []) (hv : OneLine v) :
    readLine rt (q ++ (gap (k + 1) ++ (negText n ++ ("each ".toList ++ (op.keyword ++ (gap m ++ v)))))) =
      some (.ok ⟨q, "each ".toList ++ op.keyword, nonempty (trim v), n, none, .each⟩) := by
  have hk := isKeyword_keyword hop
  have hone : OneLine (op.keyword ++ (gap m ++ v)) :=
    oneLine_append (oneLine_solid hk.solid) (oneLine_append (oneLine_gap m) hv)
  have hne : trim (op.keyword ++ (gap m ++ v)) ≠ [] := by
    rw [trim_word_append hk.solid hk.ne_nil]
    simp [hk.ne_nil]
  have hlower : rt.lower "each".toList = "each".toList := lower_eq rt (by decide)
  have hread := readLine_spaced rt (n := n) (m := 1) (k := k) hq isKeyword_each (.inl (by decide)) hone
  rw [nonempty_of_ne hne, parseOperation, hlower, if_neg (by decide), if_pos rfl,
    parseEach_printed hk hm hv] at hread
  exact hread

theorem readLine_each (rt : Runtime ν) {m : ℕ} (hq : IsPath q) (hwidth : (utf16 q).length < width)
    (hop : op.Known) (hm : m ≠ 0 ∨ v = []) (hv : OneLine v) :
    readLine rt (padEnd width q ++ (negText n ++ ("each ".toList ++ (op.keyword ++ (gap m ++ v))))) =
      some (.ok ⟨q, "each ".toList ++ op.keyword, nonempty (trim v), n, none, .each⟩) := by
  obtain ⟨k, hpad⟩ := padEnd_gap hwidth
  rw [hpad, List.append_assoc, readLine_each_spaced rt hq hop hm hv]

theorem eachOperator_keyword (hop : op.Known) : eachOperator rt ("each ".toList ++ op.keyword) = some op := by
  have hk := isKeyword_keyword hop
  have hname : (("each ".toList ++ op.keyword).drop 4).dropWhile isSpace = op.keyword := by
    show (' ' :: op.keyword).dropWhile isSpace = op.keyword
    rw [List.dropWhile_cons_of_pos rfl,
      dropWhile_of_head fun c hc => hk.solid c (List.mem_of_mem_head? hc)]
  simp only [eachOperator, hname]
  rw [if_pos ⟨⟨' ' :: op.keyword, rfl⟩, rfl, (oneLine_solid hk.solid).any⟩, lower_keyword rt hop, lookup_keyword hop]

/-- What an `each` prints after the path of its array. -/
theorem eachPath_eq (path fieldPath : List Char) :
    ∃ r, eachPath path fieldPath = shownPath path ++ ("[*]".toList ++ r) ∧
      (if r.head? = some '.' then r.drop 1 else r) = fieldPath ∧ ∀ c ∈ r, c = '.' ∨ c ∈ fieldPath := by
  rw [eachPath]
  by_cases hfield : fieldPath = []
  · exact ⟨[], by rw [if_pos hfield]; rfl, by simp [hfield], by simp⟩
  · exact ⟨'.' :: fieldPath, by rw [if_neg hfield]; rfl, by simp, by simp⟩

theorem isPath_each {fieldPath : List Char} (hq : IsPath (shownPath path)) (hfield : Clean fieldPath) :
    IsPath (eachPath path fieldPath) := by
  obtain ⟨r, heach, -, hchars⟩ := eachPath_eq path fieldPath
  rw [heach]
  refine hq.star (r := '*' :: ']' :: r) fun c hc => ?_
  simp only [List.mem_cons] at hc
  rcases hc with rfl | rfl | hc
  · rfl
  · rfl
  · rcases hchars c hc with rfl | hc
    · rfl
    · exact hfield.solid c hc

theorem hasStar_prefixed {cs : List Char} (h : hasStar cs = false) :
    hasStar ("$.".toList ++ cs) = false := by
  rw [hasStar_eq_false] at h ⊢
  intro hin
  have hin : ['[', '*', ']'] <:+: '$' :: '.' :: cs := hin
  rw [List.infix_cons_iff, List.infix_cons_iff] at hin
  rcases hin with hin | hin | hin
  · simp at hin
  · simp at hin
  · exact h hin

theorem ruleToModel_each (rt : Runtime ν) {fieldPath : List Char} (hpath : CleanPath path)
    (hfield : Clean fieldPath) (hop : op.Known) (hkept : PathKept path)
    (hstar : hasStar (barePath path) = false) (value : Option (List Char)) :
    ruleToModel rt ⟨eachPath path fieldPath, "each ".toList ++ op.keyword, value, n, none, .each⟩ =
      some (.inr (.each path fieldPath op value n)) := by
  obtain ⟨r, heach, hr, hchars⟩ := eachPath_eq path fieldPath
  rw [shownPath_of_kept hkept] at heach
  have hdollar : ¬ ['$'] <+: eachPath path fieldPath := by
    rw [heach]
    intro h
    exact hkept.2.1 (List.prefix_of_prefix_length_le h (List.prefix_append _ _)
      (List.length_pos_iff.mpr hkept.1))
  have hjson : "$.".toList ++ eachPath path fieldPath = path ++ ("[*]".toList ++ r) := by
    rw [heach, ← List.append_assoc, ← cleanPath_eq hpath]
  have hone : OneLine (path ++ ("[*]".toList ++ r)) := by
    have hlead : OneLine path := by
      rw [cleanPath_eq hpath]
      exact oneLine_append (oneLine_of_all rfl) (oneLine_solid hpath.2.solid)
    refine oneLine_append hlead (oneLine_append (oneLine_of_all rfl) fun c hc => ?_)
    rcases hchars c hc with rfl | hc
    · rfl
    · exact oneLine_solid hfield.solid c hc
  have hmatch : starMatch (path ++ ("[*]".toList ++ r)) = some (path, fieldPath) := by
    have hne : path ≠ [] := by
      rw [cleanPath_eq hpath]
      simp
    have hplain : hasStar path = false := by
      rw [cleanPath_eq hpath]
      exact hasStar_prefixed hstar
    rw [starMatch, if_neg hone.any, splitStar_append hne hplain, hr]
  simp only [ruleToModel, if_neg hdollar, hjson, eachOperator_keyword hop, hmatch, Option.map_some,
    Option.getD_some]

theorem each_comesBack {fieldPath : List Char} {value : Option (List Char)} (hpath : CleanPath path)
    (hfield : Clean fieldPath) (hop : op.Known) (hvalue : OneLine (value.getD []))
    (hkept : EachKept width path fieldPath op (value.getD [])) :
    ComesBack rt (assertionLine rt width (.each path fieldPath op value n))
      (.inr (.each path fieldPath op value n)) := by
  obtain ⟨hpk, hstar, hwidth, hprinted⟩ := hkept
  have hq : IsPath (eachPath path fieldPath) := by
    refine isPath_each ?_ hfield
    rw [shownPath_of_kept hpk]
    exact isPath_of_kept hpath hpk
  have hmodel := ruleToModel_each rt (n := n) hpath hfield hop hpk hstar
  cases hnone : op.noValue with
  | true =>
      have hread : readLine rt (padEnd width (eachPath path fieldPath) ++
          (negText n ++ ("each ".toList ++ (op.keyword ++ (gap 0 ++ []))))) = _ :=
        readLine_each rt hq hwidth hop (.inr rfl) (oneLine_of_all rfl)
      refine .of_read hread ?_ (hmodel _) ?_
      · rw [assertionLine, if_pos hnone]
        simp [gap]
      · simp [canonical, hnone]
  | false =>
      obtain ⟨m, hm, hgap⟩ := (gap_keyword hop).2
      have hfound : (nonempty (trim (quoteValue (value.getD []) op))).getD [] = value.getD [] := by
        have hself {v : List Char} (htrim : trim v = v) : (nonempty (trim v)).getD [] = v := by
          rw [htrim, nonempty]
          split
          · next h => rw [h]; rfl
          · rfl
        rw [hnone, Bool.false_eq_true, false_or] at hprinted
        by_cases hlist : op.isList = true ∨ op = .isType
        · rw [if_pos hlist] at hprinted
          rw [quoteValue, if_neg (by simp [hnone]), if_pos hlist]
          exact hself hprinted
        · rw [if_neg hlist] at hprinted
          rw [not_or] at hlist
          rw [quoteValue_eq hnone (by simpa using hlist.1) hlist.2, if_pos hprinted]
          exact hself (trim_isRaw hprinted).1
      have hread := readLine_each rt (n := n) hq hwidth hop (.inl hm)
        (oneLine_quoteValue op hvalue)
      refine .of_read hread ?_ (hmodel _) ?_
      · rw [assertionLine, if_neg (by simp [hnone]), hgap, List.append_assoc]
      · simp [canonical, hnone, hfound]

theorem keyword_mode (rt : Runtime ν) (mode : ContainsMode) : rt.lower mode.keyword = mode.keyword ∧
    mode.keyword ≠ "length".toList ∧ mode.keyword ≠ "each".toList ∧
      mode.keyword ∈ containsKeywords ∧ containsMode mode.keyword = mode ∧
        ∃ m, padEnd 20 mode.keyword = mode.keyword ++ gap (m + 1) := by
  cases mode <;>
    exact ⟨lower_eq rt (by decide), by decide, by decide, by decide, by decide, ⟨_, rfl⟩⟩

/-- A value that is read as JSON is accepted. -/
theorem parseContains_kept {opLower : List Char} (hv : JsonKept rt v) :
    parseContains rt opLower q (some v) n = .ok ⟨q, opLower, some v, n, none, .containsItem⟩ := by
  obtain ⟨htrim, hjson⟩ := hv
  simp only [parseContains, htrim]
  rcases hjson with hmark | ⟨hnested, hparse⟩
  · have hplain : looksNested v = false := by simp [looksNested, hmark]
    rw [if_neg (by simp [hmark]), if_neg (by simp [hplain])]
  · rw [if_neg (by simp [hnested]), if_neg (by simp [Option.isSome_iff_ne_none.mp hparse])]

theorem parseSubset_kept (hv : JsonKept rt v) :
    parseSubset rt q (some v) n = .ok ⟨q, "subset".toList, some v, n, none, .subset⟩ := by
  obtain ⟨htrim, hjson⟩ := hv
  simp only [parseSubset, htrim]
  rcases hjson with hmark | ⟨hnested, hparse⟩
  · have hplain : looksNested v = false := by simp [looksNested, hmark]
    rw [if_neg (by simp [hplain]), if_neg (by simp [hmark])]
  · rw [if_pos hnested, if_neg (by simp [Option.isSome_iff_ne_none.mp hparse])]

theorem JsonKept.ne_nil (hv : JsonKept rt v) : v ≠ [] := by
  rintro rfl
  obtain ⟨-, hmark | ⟨hnested, -⟩⟩ := hv
  · cases hmark
  · cases hnested

theorem readLine_contains (rt : Runtime ν) (mode : ContainsMode) (hq : IsPath q) (hwidth : (utf16 q).length < width)
    (hone : OneLine v) :
    readLine rt (padEnd width q ++ (negText n ++ (padEnd 20 mode.keyword ++ v))) =
      some (parseContains rt mode.keyword q (nonempty (trim v)) n) := by
  obtain ⟨hlower, hlength, heach, hmem, -, m, hgap⟩ := keyword_mode rt mode
  have hread := readLine_printed rt (n := n) hq hwidth (isKeyword_mode mode) (.inl (Nat.succ_ne_zero m)) hone
  simp only [parseOperation, hlower] at hread
  rw [if_neg hlength, if_neg heach, if_pos hmem] at hread
  rw [hgap, List.append_assoc]
  exact hread

theorem ruleToModel_contains {mode : ContainsMode} {o : Option (List Char)} :
    ruleToModel rt ⟨q, mode.keyword, o, n, none, .containsItem⟩ =
      some (.inr (.arrayContains (modelPath q) (o.getD []) mode n)) := by
  simp only [ruleToModel, (keyword_mode rt mode).2.2.2.2.1, modelPath]

theorem arrayContains_comesBack {value : List Char} {mode : ContainsMode} (hpath : CleanPath path)
    (hone : OneLine value) (hkept : PathKept path) (hvalue : value = [] ∨ JsonKept rt value)
    (hwidth : (utf16 (barePath path)).length < width) :
    ComesBack rt (assertionLine rt width (.arrayContains path value mode n))
      (.inr (.arrayContains path value mode n)) := by
  have hread := readLine_contains rt (n := n) mode (isPath_of_kept hpath hkept) hwidth hone
  have hrule : ∃ o, parseContains rt mode.keyword (barePath path) (nonempty (trim value)) n =
      .ok ⟨barePath path, mode.keyword, o, n, none, .containsItem⟩ ∧ o.getD [] = value := by
    rcases hvalue with rfl | hvalue
    · exact ⟨none, rfl, rfl⟩
    · rw [hvalue.1, nonempty_of_ne hvalue.ne_nil]
      exact ⟨some value, parseContains_kept hvalue, rfl⟩
  obtain ⟨o, hrule, ho⟩ := hrule
  rw [hrule] at hread
  refine .of_read hread ?_ ruleToModel_contains ?_
  · rw [assertionLine, shownPath_of_kept hkept]
  · rw [show modelPath (barePath path) = path from path_restored hpath hkept, ho]

theorem readLine_subset (rt : Runtime ν) (hq : IsPath q) (hwidth : (utf16 q).length < width) (hone : OneLine v) :
    readLine rt (padEnd width q ++ (negText n ++ ("subset              ".toList ++ v))) =
      some (parseSubset rt q (nonempty (trim v)) n) := by
  have hlower : rt.lower "subset".toList = "subset".toList := lower_eq rt (by decide)
  have hread := readLine_printed rt (n := n) (m := 14) hq hwidth isKeyword_subset (.inl (by decide)) hone
  rw [parseOperation, hlower, if_neg (by decide), if_neg (by decide), if_neg (by decide), if_pos rfl] at hread
  exact hread

theorem containsSubset_comesBack {expected : List Char} (hpath : CleanPath path)
    (hone : OneLine expected) (hkept : PathKept path) (hvalue : JsonKept rt expected)
    (hwidth : (utf16 (barePath path)).length < width) :
    ComesBack rt (assertionLine rt width (.containsSubset path expected n))
      (.inr (.containsSubset path expected n)) := by
  have hread := readLine_subset rt (n := n) (isPath_of_kept hpath hkept) hwidth hone
  rw [hvalue.1, nonempty_of_ne hvalue.ne_nil, parseSubset_kept hvalue] at hread
  have hmodel : ruleToModel rt ⟨barePath path, "subset".toList, some expected, n, none, .subset⟩ =
      some (.inr (.containsSubset path expected n)) := by
    simp only [ruleToModel, path_restored hpath hkept, Option.getD_some]
  refine .of_read hread ?_ hmodel rfl
  rw [assertionLine, shownPath_of_kept hkept]

end Assertions

/-! ## Custom predicates -/

theorem splitDescription_cons {c : Char} (h : ∀ d ds, cs ≠ '/' :: '/' :: d :: ds) :
    splitDescription (c :: cs) = (splitDescription cs).map fun (e, ds) => (c :: e, ds) := by
  rw [splitDescription]
  intro d ds hcs
  exact h d ds hcs

theorem splitDescription_none {e : List Char} (h : ¬ "//".toList <:+: (e.drop 1).dropLast) :
    splitDescription e = none := by
  induction e with
  | nil => rfl
  | cons c cs ih =>
      have hfirst : ∀ d ds, cs ≠ '/' :: '/' :: d :: ds := by
        rintro d ds rfl
        exact h ⟨[], (d :: ds).dropLast, rfl⟩
      have hrest : ¬ "//".toList <:+: (cs.drop 1).dropLast := by
        intro hin
        apply h
        rw [List.drop_one, List.tail_cons]
        rw [List.drop_one, ← List.tail_dropLast] at hin
        exact hin.trans (List.tail_suffix _).isInfix
      rw [splitDescription_cons hfirst, ih hrest]
      rfl

/-- A description starts at the first `//` after a blank. -/
theorem splitDescription_some {e d : List Char} (hne : e ≠ []) (hd : d ≠ [])
    (h : ¬ "//".toList <:+: e.drop 1) :
    splitDescription (e ++ (" //".toList ++ d)) = some (e ++ [' '], d) := by
  obtain ⟨d, ds, rfl⟩ := List.exists_cons_of_ne_nil hd
  induction e with
  | nil => exact absurd rfl hne
  | cons c cs ih =>
      have hfirst : ∀ d' ds', cs ++ (" //".toList ++ d :: ds) ≠ '/' :: '/' :: d' :: ds' := by
        intro d' ds' heq
        match cs with
        | [] => simp at heq
        | [_] => simp at heq
        | a :: b :: rest =>
            simp only [List.cons_append, List.cons.injEq] at heq
            obtain ⟨rfl, rfl, -⟩ := heq
            exact h ⟨[], rest, rfl⟩
      rw [List.cons_append, splitDescription_cons hfirst]
      by_cases hcs : cs = []
      · rw [hcs]
        rfl
      · have hrest : ¬ "//".toList <:+: cs.drop 1 := by
          intro hin
          exact h (hin.trans (List.drop_suffix 1 cs).isInfix)
        rw [ih hcs hrest]
        rfl

theorem trimmed_iff : trim v = v ↔ (∀ c ∈ v.head?, isSpace c = false) ∧ v.rdropWhile isSpace = v := by
  constructor
  · intro h
    have hhead : ∀ c ∈ v.head?, isSpace c = false := by
      rw [← h]
      exact head?_trimBy
    exact ⟨hhead, by rwa [trim_eq, trimBy_of_head hhead] at h⟩
  · rintro ⟨hhead, hlast⟩
    rw [trim_eq, trimBy_of_head hhead, hlast]

theorem assertMatch_custom (hone : OneLine v) :
    assertMatch (negText n ++ ("ASSERT ".toList ++ v)) = some (n, v.dropWhile isSpace) := by
  have hdrop : (' ' :: v).dropWhile isSpace = v.dropWhile isSpace := List.dropWhile_cons_of_pos rfl
  have hone : OneLine (v.dropWhile isSpace) := fun c hc => hone c ((List.dropWhile_suffix _).subset hc)
  have hkeyword : dropKeyword "ASSERT".toList ("ASSERT ".toList ++ v) = some (' ' :: v) := rfl
  cases n with
  | false =>
      have hnot : stripNot ("ASSERT ".toList ++ v) = none := stripNot_of_head (by decide)
      rw [assertMatch, negText, if_neg (by simp), List.nil_append, hnot, Option.getD_none, hkeyword]
      simp only [Option.bind_some, hdrop]
      rw [if_neg hone.any]
      rfl
  | true =>
      have hnot : stripNot ("NOT ".toList ++ ("ASSERT ".toList ++ v)) = some ("ASSERT ".toList ++ v) :=
        stripNot_negText (by
          intro c hc
          have hA : 'A' = c := by simpa using hc
          rw [← hA]
          rfl)
      rw [assertMatch, negText, if_pos rfl, hnot, Option.getD_some, hkeyword]
      simp only [Option.bind_some, hdrop]
      rw [if_neg hone.any]
      rfl

theorem parseAssert_congr (h : trim v = trim r) : parseAssert n v = parseAssert n r := by
  rw [parseAssert, parseAssert, h]

/-- A predicate is read without the blanks around it. -/
theorem readLine_custom (rt : Runtime ν) (hone : OneLine v) :
    readLine rt (negText n ++ ("ASSERT ".toList ++ v)) = some (parseAssert n (trim v)) := by
  have hstart : ∃ d ds, negText n ++ "ASSERT".toList = d :: ds ∧ (d = 'N' ∨ d = 'A') := by
    cases n with
    | false => exact ⟨'A', _, rfl, .inr rfl⟩
    | true => exact ⟨'N', _, rfl, .inl rfl⟩
  obtain ⟨d, ds, hline, hd⟩ := hstart
  have hread : ∀ {r after}, trim (negText n ++ ("ASSERT ".toList ++ v)) = d :: ds ++ r →
      assertMatch (d :: ds ++ r) = some (n, after) → trim after = trim v →
      readLine rt (negText n ++ ("ASSERT ".toList ++ v)) = some (parseAssert n (trim v)) := by
    intro r after htrim hmatch hafter
    simp only [readLine, htrim, hmatch]
    rw [if_neg, parseAssert_congr (r := trim v) (by rw [hafter]; exact trimBy_trimBy.symm)]
    rcases hd with rfl | rfl <;> simp
  have hhead : ∀ {r : List Char}, ∀ c ∈ (d :: ds ++ r).head?, isSpace c = false := by
    intro r a ha
    rw [List.cons_append, List.head?_cons, Option.mem_def, Option.some.injEq] at ha
    rcases hd with rfl | rfl <;> exact ha ▸ rfl
  have hwhole : negText n ++ ("ASSERT ".toList ++ v) = d :: ds ++ ' ' :: v := by
    rw [← hline, List.append_assoc]
    rfl
  by_cases hblank : ∃ c ∈ v, isSpace c = false
  · have hcut : OneLine (v.rdropWhile isSpace) := fun c hc => hone c ((List.rdropWhile_prefix _ _).subset hc)
    have htrim : trim (negText n ++ ("ASSERT ".toList ++ v)) =
        negText n ++ ("ASSERT ".toList ++ v.rdropWhile isSpace) := by
      rw [trim_eq, trimBy_of_head (by rw [hwhole]; exact hhead), rdropWhile_append_of_neg,
        rdropWhile_append_of_neg hblank]
      obtain ⟨c, hc, hspace⟩ := hblank
      exact ⟨c, by simp [hc], hspace⟩
    have hmatch := assertMatch_custom (n := n) hcut
    have hsame : negText n ++ ("ASSERT ".toList ++ v.rdropWhile isSpace) =
        d :: ds ++ ' ' :: v.rdropWhile isSpace := by
      rw [← hline, List.append_assoc]
      rfl
    rw [hsame] at htrim hmatch
    refine hread htrim hmatch ?_
    rw [trim_eq, trim_eq, ← trimBy_rdropWhile (l := v), trimBy, List.dropWhile_idempotent, trimBy]
  · push Not at hblank
    have hspaces : ∀ c ∈ v, isSpace c = true := by simpa using hblank
    have htrim : trim (negText n ++ ("ASSERT ".toList ++ v)) = d :: ds ++ [] := by
      rw [trim_eq, trimBy_of_head (by rw [hwhole]; exact hhead), hwhole, rdropWhile_append_of_pos,
        ← hline, List.append_nil]
      · cases n <;> rfl
      · intro c hc
        rcases List.mem_cons.mp hc with rfl | hc
        · rfl
        · exact hspaces c hc
    have hmatch : assertMatch (d :: ds ++ []) = some (n, []) := by
      rw [List.append_nil, ← hline]
      cases n <;> rfl
    exact hread htrim hmatch (by rw [show trim v = [] from trimBy_eq_nil_iff.mpr hspaces]; rfl)

theorem splitLine_one (h : OneLine v) : splitLine v = (v, none) := by
  have hno : ∀ c ∈ v, (c != '\n') = true := by
    intro c hc
    have hend := h c hc
    rw [bne_iff_ne]
    rintro rfl
    cases hend
  rw [splitLine, List.takeWhile_eq_self_iff.mpr hno, List.dropWhile_eq_nil_iff.mpr hno]
  rfl

theorem splitLine_two (h : OneLine v) : splitLine (v ++ '\n' :: r) = (v, some r) := by
  have hno : ∀ c ∈ v, (c != '\n') = true := by
    intro c hc
    have hend := h c hc
    rw [bne_iff_ne]
    rintro rfl
    cases hend
  simp only [splitLine, List.takeWhile_append_of_pos hno, List.dropWhile_append_of_pos hno]
  simp

theorem trim_append_space (h : trim v = v) (hne : v ≠ []) : trim (v ++ [' ']) = v := by
  obtain ⟨hhead, hlast⟩ := trimmed_iff.mp h
  have hstart : ∀ c ∈ (v ++ [' ']).head?, isSpace c = false := by
    obtain ⟨a, as, rfl⟩ := List.exists_cons_of_ne_nil hne
    exact hhead
  rw [trim_eq, trimBy_of_head hstart, rdropWhile_append_of_pos (by simp; rfl), hlast]

theorem trim_space_cons : trim (' ' :: v) = trim v :=
  trimBy_append_of_pos (l := [' ']) (by simp; rfl)

theorem custom_comesBack {expression : List Char} {description : Option (List Char)} {width : ℕ}
    (hone : OneLine expression) (hdesc : OneLine (description.getD []))
    (hkept : CustomKept expression description) :
    ComesBack rt (assertionLine rt width (.custom expression description n))
      (.inr (.custom expression description n)) := by
  obtain ⟨hne, htrim, hslash⟩ := hkept
  cases hd : description.bind nonempty with
  | none =>
      rw [hd] at hslash
      have hread := readLine_custom rt (n := n) hone
      simp only [parseAssert, htrim, splitDescription_none hslash] at hread
      rw [if_neg hne] at hread
      have hmodel : ruleToModel rt ⟨"(custom)".toList, "assert".toList, some expression, n, none, .custom⟩ =
          some (.inr (.custom expression none n)) := by
        simp only [ruleToModel, Option.getD_some, splitLine_one hone, Option.bind_none]
      refine .of_read hread ?_ hmodel ?_
      · simp [assertionLine, hd]
      · simp [canonical, hd]
  | some d =>
      rw [hd] at hslash
      obtain ⟨hdtrim, hslash⟩ := hslash
      obtain ⟨rfl, hdne⟩ := bind_nonempty hd
      obtain ⟨hhead, hlast⟩ := trimmed_iff.mp htrim
      obtain ⟨hdhead, hdlast⟩ := trimmed_iff.mp hdtrim
      obtain ⟨c, cs, hc⟩ := List.exists_cons_of_ne_nil hdne
      have hsolid : ∃ c ∈ d, isSpace c = false := ⟨c, by simp [hc], hdhead c (by rw [hc]; rfl)⟩
      have htext : trim (expression ++ (" // ".toList ++ d)) = expression ++ (" // ".toList ++ d) := by
        rw [trimmed_iff]
        constructor
        · obtain ⟨a, as, ha⟩ := List.exists_cons_of_ne_nil hne
          rw [ha] at hhead ⊢
          exact hhead
        · rw [rdropWhile_append_of_neg, rdropWhile_append_of_neg hsolid, hdlast]
          obtain ⟨c, hc, hspace⟩ := hsolid
          exact ⟨c, by simp [hc], hspace⟩
      have hline : OneLine (expression ++ (" // ".toList ++ d)) :=
        oneLine_append hone (oneLine_append (oneLine_of_all rfl) hdesc)
      have hread := readLine_custom rt (n := n) hline
      have hsplit : splitDescription (expression ++ (" // ".toList ++ d)) =
          some (expression ++ [' '], ' ' :: d) := splitDescription_some hne (by simp) hslash
      have hright : trim (' ' :: d) = d := trim_space_cons.trans hdtrim
      simp only [parseAssert, htext, hsplit, trim_append_space htrim hne, hright] at hread
      rw [if_neg (by simp [hne])] at hread
      have hmodel : ruleToModel rt ⟨"(custom)".toList, "assert".toList, some (expression ++ '\n' :: d), n,
          none, .custom⟩ = some (.inr (.custom expression (some d) n)) := by
        simp only [ruleToModel, Option.getD_some, splitLine_two hone, Option.bind_some,
          nonempty_of_ne hdne]
      refine .of_read hread ?_ hmodel ?_
      · simp [assertionLine, nonempty_of_ne hdne]
      · simp [canonical]

/-! ## Whole texts -/

/-- The path that is padded. -/
def Entry.path? : Entry ν → Option (List Char)
  | .inl f => some f.jsonPath
  | .inr a => a.path?

theorem kept_comesBack {width : ℕ} {e : Entry ν} (hdom : InDomain e) (hkept : Kept rt width e)
    (hwidth : ∀ p ∈ e.path?, (utf16 (barePath p)).length < width) :
    ComesBack rt (entryLine rt width e) e := by
  cases e with
  | inl f => exact field_comesBack rt hdom hkept (hwidth _ rfl)
  | inr a =>
      cases a with
      | typeCheck path expectedType negate =>
          exact typeCheck_comesBack hdom.1 hdom.2 hkept (hwidth _ rfl)
      | existence path expectExists negate => exact existence_comesBack hdom hkept (hwidth _ rfl)
      | arrayLength path op value negate => exact arrayLength_comesBack hdom hkept (hwidth _ rfl)
      | each path fieldPath op value negate =>
          exact each_comesBack hdom.1 hdom.2.1 hdom.2.2.1 hdom.2.2.2 hkept
      | arrayContains path value mode negate =>
          exact arrayContains_comesBack hdom.1 hdom.2 hkept.1 hkept.2 (hwidth _ rfl)
      | containsSubset path expected negate =>
          exact containsSubset_comesBack hdom.1 hdom.2 hkept.1 hkept.2 (hwidth _ rfl)
      | custom expression description negate =>
          show ComesBack rt (assertionLine rt width (.custom expression description negate)) _
          exact custom_comesBack hdom.1 hdom.2 hkept

theorem le_foldl_max {l : List ℕ} {a b : ℕ} (h : a ∈ l ∨ a ≤ b) : a ≤ l.foldl max b := by
  induction l generalizing b with
  | nil => simpa using h
  | cons c l ih =>
      rw [List.foldl_cons]
      apply ih
      rcases h with h | h
      · rcases List.mem_cons.mp h with rfl | h
        · exact .inr (le_max_right _ _)
        · exact .inl h
      · exact .inr (h.trans (le_max_left _ _))

/-- Every path is shorter than the column. -/
theorem path_lt_padWidth {m : DslModel ν} {e : Entry ν} (he : e ∈ m.entries) :
    ∀ p ∈ e.path?, (utf16 (barePath p)).length < padWidth m.fields m.assertions := by
  intro p hp
  have hmem : p ∈ m.fields.map (·.jsonPath) ++ m.assertions.filterMap Assertion.path? := by
    rw [List.mem_append]
    rcases List.mem_append.mp he with he | he
    · obtain ⟨f, hf, rfl⟩ := List.mem_map.mp he
      have hpath : f.jsonPath = p := Option.some.inj hp
      exact .inl (List.mem_map.mpr ⟨f, hf, hpath⟩)
    · obtain ⟨a, ha, rfl⟩ := List.mem_map.mp he
      exact .inr (List.mem_filterMap.mpr ⟨a, ha, hp⟩)
  have hle := le_foldl_max (b := 0) (.inl (List.mem_map.mpr ⟨p, hmem, rfl⟩))
    (a := (utf16 (barePath p)).length)
    (l := (m.fields.map (·.jsonPath) ++ m.assertions.filterMap Assertion.path?).map
      fun p => (utf16 (barePath p)).length)
  simp only [padWidth]
  omega

/-! ### Lines -/

theorem mem_addGroup {lines group : List (List Char)} {title : String} {line : List Char}
    (h : line ∈ addGroup lines title group) :
    line ∈ lines ∨ line = [] ∨ line = title.toList ∨ line ∈ group := by
  rw [addGroup] at h
  split at h
  · exact .inl h
  · rw [List.mem_append, List.mem_append] at h
    rcases h with h | h | h
    · exact .inl h
    · split at h
      · cases h
      · exact .inr (.inl (List.mem_singleton.mp h))
    · rcases List.mem_cons.mp h with h | h
      · exact .inr (.inr (.inl h))
      · exact .inr (.inr (.inr h))

theorem mem_addGroup_of_mem {lines group : List (List Char)} {title : String} {line : List Char}
    (h : line ∈ lines ∨ line ∈ group) : line ∈ addGroup lines title group := by
  rw [addGroup]
  split
  · next hnil =>
      rw [hnil] at h
      exact h.resolve_right List.not_mem_nil
  · rcases h with h | h
    · exact List.mem_append_left _ h
    · exact List.mem_append_right _ (List.mem_append_right _ (List.mem_cons_of_mem _ h))

/-- The lines that are no rules. -/
def passedOver : List (List Char) :=
  [[], "# Field assertions".toList, "# Collection assertions".toList,
    "# Type & existence assertions".toList, "# Custom predicate assertions".toList]

theorem readLine_passedOver (rt : Runtime ν) {line : List Char} (h : line ∈ passedOver) :
    readLine rt line = none ∧ '\n' ∉ line := by
  simp only [passedOver, List.mem_cons, List.not_mem_nil, or_false] at h
  rcases h with rfl | rfl | rfl | rfl | rfl <;> exact ⟨rfl, by decide⟩

/-- A line is one of a rule, or it is passed over. -/
theorem mem_serializedLines {m : DslModel ν} {line : List Char}
    (h : line ∈ serializedLines rt m.fields m.assertions) :
    (∃ e ∈ m.entries, line = entryLine rt (padWidth m.fields m.assertions) e) ∨
      line ∈ passedOver := by
  have hfield : line ∈ sortLines (m.fields.map (fieldLine (padWidth m.fields m.assertions))) →
      ∃ e ∈ m.entries, line = entryLine rt (padWidth m.fields m.assertions) e := by
    intro h
    obtain ⟨f, hf, rfl⟩ := List.mem_map.mp ((List.mergeSort_perm _ _).mem_iff.mp h)
    exact ⟨.inl f, List.mem_append_left _ (List.mem_map.mpr ⟨f, hf, rfl⟩), rfl⟩
  have hgroup : ∀ g, line ∈ (m.assertions.filter (·.group = g)).map
      (assertionLine rt (padWidth m.fields m.assertions)) →
      ∃ e ∈ m.entries, line = entryLine rt (padWidth m.fields m.assertions) e := by
    intro g h
    obtain ⟨a, ha, rfl⟩ := List.mem_map.mp h
    exact ⟨.inr a, List.mem_append_right _ (List.mem_map.mpr ⟨a, (List.mem_filter.mp ha).1, rfl⟩), rfl⟩
  have hsorted : ∀ g, line ∈ sortLines ((m.assertions.filter (·.group = g)).map
      (assertionLine rt (padWidth m.fields m.assertions))) →
      ∃ e ∈ m.entries, line = entryLine rt (padWidth m.fields m.assertions) e :=
    fun g h => hgroup g ((List.mergeSort_perm _ _).mem_iff.mp h)
  simp only [passedOver, List.mem_cons, List.not_mem_nil, or_false]
  rw [serializedLines] at h
  rcases mem_addGroup h with h | h | h | h
  · rcases mem_addGroup h with h | h | h | h
    · rcases mem_addGroup h with h | h | h | h
      · rcases mem_addGroup h with h | h | h | h
        · cases h
        · exact .inr (.inl h)
        · exact .inr (.inr (.inl h))
        · exact .inl (hfield h)
      · exact .inr (.inl h)
      · exact .inr (.inr (.inr (.inl h)))
      · exact .inl (hsorted _ h)
    · exact .inr (.inl h)
    · exact .inr (.inr (.inr (.inr (.inl h))))
    · exact .inl (hsorted _ h)
  · exact .inr (.inl h)
  · exact .inr (.inr (.inr (.inr (.inr h))))
  · exact .inl (hgroup _ h)

theorem entryLine_mem_serializedLines (rt : Runtime ν) {m : DslModel ν} {e : Entry ν} (he : e ∈ m.entries) :
    entryLine rt (padWidth m.fields m.assertions) e ∈ serializedLines rt m.fields m.assertions := by
  rw [serializedLines]
  rcases List.mem_append.mp he with he | he
  · obtain ⟨f, hf, rfl⟩ := List.mem_map.mp he
    refine mem_addGroup_of_mem (.inl (mem_addGroup_of_mem (.inl (mem_addGroup_of_mem (.inl
      (mem_addGroup_of_mem (.inr ?_)))))))
    exact (List.mergeSort_perm _ _).mem_iff.mpr (List.mem_map.mpr ⟨f, hf, rfl⟩)
  · obtain ⟨a, ha, rfl⟩ := List.mem_map.mp he
    have hmem : assertionLine rt (padWidth m.fields m.assertions) a ∈
        (m.assertions.filter (·.group = a.group)).map
          (assertionLine rt (padWidth m.fields m.assertions)) :=
      List.mem_map.mpr ⟨a, List.mem_filter.mpr ⟨ha, by simp⟩, rfl⟩
    have hsorted := (List.mergeSort_perm ((m.assertions.filter (·.group = a.group)).map
      (assertionLine rt (padWidth m.fields m.assertions))) fun a b => decide (utf16 a ≤ utf16 b)).mem_iff.mpr hmem
    cases hg : a.group with
    | collection =>
        rw [hg] at hsorted
        exact mem_addGroup_of_mem (.inl (mem_addGroup_of_mem (.inl (mem_addGroup_of_mem (.inr hsorted)))))
    | types =>
        rw [hg] at hsorted
        exact mem_addGroup_of_mem (.inl (mem_addGroup_of_mem (.inr hsorted)))
    | custom =>
        rw [hg] at hmem
        exact mem_addGroup_of_mem (.inr hmem)

theorem oneLine_padEnd {k : ℕ} (hv : OneLine v) : OneLine (padEnd k v) := oneLine_append hv (oneLine_gap _)

theorem oneLine_negText : OneLine (negText n) := by
  cases n with
  | false => exact oneLine_of_all rfl
  | true => exact oneLine_of_all rfl

theorem oneLine_shownPath {path : List Char} (h : CleanPath path) : OneLine (shownPath path) := by
  rw [shownPath]
  split
  · exact oneLine_of_all rfl
  · exact oneLine_solid h.2.solid

theorem oneLine_expression {o : Option (List Char)} {e : List Char} (h : OneLine (o.getD []))
    (he : o.bind nonempty = some e) : OneLine e := by
  rw [(bind_nonempty he).1] at h
  exact h

theorem oneLine_eachPath {path fieldPath : List Char} (h : CleanPath path) (hfield : Clean fieldPath) :
    OneLine (eachPath path fieldPath) := by
  rw [eachPath]
  refine oneLine_append (oneLine_shownPath h) ?_
  split
  · exact oneLine_of_all rfl
  · exact oneLine_append (oneLine_of_all rfl) (oneLine_solid hfield.solid)

theorem oneLine_keyword (hop : op.Known) : OneLine op.keyword := oneLine_solid (isKeyword_keyword hop).solid

/-- No rule breaks its line. -/
theorem oneLine_entryLine (rt : Runtime ν) {width : ℕ} {e : Entry ν} (hdom : InDomain e) :
    OneLine (entryLine rt width e) := by
  have hlead {path r : List Char} {n : Bool} (h : CleanPath path) (hr : OneLine r) :
      OneLine (padEnd width (shownPath path) ++ (negText n ++ r)) :=
    oneLine_append (oneLine_padEnd (oneLine_shownPath h)) (oneLine_append oneLine_negText hr)
  cases e with
  | inl f =>
      obtain ⟨hpath, hop, hvalue, hexpression⟩ := hdom
      refine oneLine_append (oneLine_padEnd (oneLine_shownPath hpath))
        (oneLine_append oneLine_negText ?_)
      split
      · exact oneLine_keyword hop
      · cases he : f.expression.bind nonempty with
        | none => exact oneLine_append (oneLine_padEnd (oneLine_keyword hop)) (oneLine_quoteValue _ hvalue)
        | some e =>
            exact oneLine_append (oneLine_padEnd (oneLine_keyword hop))
              (oneLine_append (oneLine_of_all rfl) (oneLine_expression hexpression he))
  | inr a =>
      cases a with
      | typeCheck path expectedType negate =>
          have hname : OneLine expectedType := (typeName_plain (ν := ν) hdom.2).1
          exact hlead hdom.1 (oneLine_append (oneLine_of_all (by decide)) hname)
      | existence path expectExists negate =>
          refine hlead hdom ?_
          split <;> exact oneLine_of_all rfl
      | arrayLength path op value negate =>
          have hop : OneLine op.text := oneLine_solid fun c hc => ((text_comparison op).2.1 c hc).2
          have hnumber : OneLine (rt.numberText value) :=
            oneLine_solid fun c hc => ((rt.numberText_chars value).2 c hc).1
          exact hlead hdom (oneLine_append (oneLine_of_all rfl) (oneLine_append (oneLine_padEnd hop) hnumber))
      | each path fieldPath op value negate =>
          obtain ⟨hpath, hfield, hop, hvalue⟩ := hdom
          refine oneLine_append (oneLine_padEnd (oneLine_eachPath hpath hfield))
            (oneLine_append oneLine_negText (oneLine_append (oneLine_of_all rfl) ?_))
          split
          · exact oneLine_keyword hop
          · exact oneLine_append (oneLine_padEnd (oneLine_keyword hop)) (oneLine_quoteValue _ hvalue)
      | arrayContains path value mode negate =>
          exact hlead hdom.1 (oneLine_append (oneLine_padEnd (oneLine_solid (isKeyword_mode mode).solid)) hdom.2)
      | containsSubset path expected negate =>
          exact hlead hdom.1 (oneLine_append (oneLine_of_all (by decide)) hdom.2)
      | custom expression description negate =>
          obtain ⟨hexpression, hdescription⟩ := hdom
          refine oneLine_append oneLine_negText (oneLine_append (oneLine_of_all rfl)
            (oneLine_append hexpression ?_))
          cases hd : description.bind nonempty with
          | none => exact oneLine_of_all rfl
          | some d => exact oneLine_append (oneLine_of_all rfl) (oneLine_expression hdescription hd)

/-- The lines of a text are those that were joined. -/
theorem readLine_lines {m : DslModel ν} (hdom : ∀ e ∈ m.entries, InDomain e)
    {outcome : Except Problem Rule} :
    (∃ line ∈ (serializeToDsl rt m.fields m.assertions).splitOn '\n', readLine rt line = some outcome) ↔
      ∃ e ∈ m.entries, readLine rt (entryLine rt (padWidth m.fields m.assertions) e) = some outcome := by
  have hsplit : (serializeToDsl rt m.fields m.assertions).splitOn '\n' =
      if serializedLines rt m.fields m.assertions = [] then [[]]
      else serializedLines rt m.fields m.assertions := by
    rw [serializeToDsl]
    split
    · next h =>
        rw [h]
        rfl
    · next h =>
        refine List.splitOn_intercalate _ (fun line hline => ?_) h
        rcases mem_serializedLines hline with ⟨e, he, rfl⟩ | hline
        · intro hend
          have := oneLine_entryLine rt (hdom e he) _ hend
          cases this
        · exact (readLine_passedOver rt hline).2
  rw [hsplit]
  constructor
  · rintro ⟨line, hline, hread⟩
    have hmem : line ∈ serializedLines rt m.fields m.assertions ∨ line = [] := by
      split at hline
      · exact .inr (List.mem_singleton.mp hline)
      · exact .inl hline
    rcases hmem with hmem | rfl
    · rcases mem_serializedLines hmem with ⟨e, he, rfl⟩ | hmem
      · exact ⟨e, he, hread⟩
      · rw [(readLine_passedOver rt hmem).1] at hread
        cases hread
    · cases hread
  · rintro ⟨e, he, hread⟩
    have hmem := entryLine_mem_serializedLines rt he
    have hne : serializedLines rt m.fields m.assertions ≠ [] := List.ne_nil_of_mem hmem
    rw [if_neg hne]
    exact ⟨_, hmem, hread⟩

theorem mem_results_iff {text : List Char} {o : Except ParseError ParsedRule} :
    o ∈ (text.splitOn '\n').zipIdx.filterMap (fun (line, i) => parseDslLine rt line (i + 1)) ↔
      ∃ i line, (text.splitOn '\n')[i]? = some line ∧ parseDslLine rt line (i + 1) = some o := by
  simp only [List.mem_filterMap, Prod.exists, List.mk_mem_zipIdx_iff_getElem?]
  constructor
  · rintro ⟨line, i, hline, ho⟩
    exact ⟨i, line, hline, ho⟩
  · rintro ⟨i, line, hline, ho⟩
    exact ⟨line, i, hline, ho⟩

/-- The rules of a text are those of its lines. -/
theorem mem_rules_iff {text : List Char} {rule : Rule} :
    rule ∈ (parseDsl rt text).rules.map (·.toRule) ↔
      ∃ line ∈ text.splitOn '\n', readLine rt line = some (.ok rule) := by
  rw [parseDsl, List.mem_map]
  simp only [List.mem_filterMap (f := fun o : Except ParseError ParsedRule => o.toOption), mem_results_iff]
  constructor
  · rintro ⟨r, ⟨o, ⟨i, line, hline, ho⟩, hr⟩, rfl⟩
    refine ⟨line, List.mem_of_getElem? hline, ?_⟩
    rw [parseDslLine, Option.map_eq_some_iff] at ho
    obtain ⟨outcome, hread, rfl⟩ := ho
    cases outcome with
    | error problem => cases hr
    | ok rule => rw [hread, ← Option.some.inj hr]
  · rintro ⟨line, hline, hread⟩
    obtain ⟨i, hi⟩ := List.mem_iff_getElem?.mp hline
    exact ⟨⟨rule, i + 1⟩, ⟨.ok ⟨rule, i + 1⟩, ⟨i, line, hi, by rw [parseDslLine, hread]; rfl⟩, rfl⟩, rfl⟩

theorem errors_eq_nil_iff {text : List Char} : (parseDsl rt text).errors = [] ↔
    ∀ line ∈ text.splitOn '\n', ∀ problem, readLine rt line ≠ some (.error problem) := by
  rw [parseDsl, List.filterMap_eq_nil_iff]
  simp only [mem_results_iff]
  constructor
  · intro h line hline problem hread
    obtain ⟨i, hi⟩ := List.mem_iff_getElem?.mp hline
    have hnone := h (.error ⟨problem, i + 1⟩) ⟨i, line, hi, by rw [parseDslLine, hread]; rfl⟩
    cases hnone
  · rintro h o ⟨i, line, hline, ho⟩
    rw [parseDslLine, Option.map_eq_some_iff] at ho
    obtain ⟨outcome, hread, rfl⟩ := ho
    cases outcome with
    | error problem => exact absurd hread (h line (List.mem_of_getElem? hline) problem)
    | ok rule => rfl

theorem mem_entries_dslToModel {rules : List Rule} {e : Entry ν} :
    e ∈ (dslToModel rt rules).entries ↔ ∃ rule ∈ rules, ruleToModel rt rule = some e := by
  simp only [dslToModel, DslModel.entries, List.mem_append, List.mem_map, List.mem_filterMap]
  cases e with
  | inl f =>
      constructor
      · rintro (⟨f', ⟨e, ⟨rule, hrule, he⟩, hleft⟩, hf⟩ | ⟨a, -, ha⟩)
        · cases e with
          | inl g =>
              cases hleft
              exact ⟨rule, hrule, by rw [he, hf]⟩
          | inr a => cases hleft
        · cases ha
      · rintro ⟨rule, hrule, he⟩
        exact .inl ⟨f, ⟨.inl f, ⟨rule, hrule, he⟩, rfl⟩, rfl⟩
  | inr a =>
      constructor
      · rintro (⟨f, -, hf⟩ | ⟨a', ⟨e, ⟨rule, hrule, he⟩, hright⟩, ha⟩)
        · cases hf
        · cases e with
          | inl g => cases hright
          | inr b =>
              cases hright
              exact ⟨rule, hrule, by rw [he, ha]⟩
      · rintro ⟨rule, hrule, he⟩
        exact .inr ⟨a, ⟨.inr a, ⟨rule, hrule, he⟩, rfl⟩, rfl⟩

/-- **Rules that are kept come back**: no line is refused, and the rules read say what the rules
printed say. -/
theorem sameRules_of_kept {m : DslModel ν} (hdom : ∀ e ∈ m.entries, InDomain e)
    (hkept : ∀ e ∈ m.entries, Kept rt (padWidth m.fields m.assertions) e) :
    (parseDsl rt (serializeToDsl rt m.fields m.assertions)).errors = [] ∧
      SameRules (dslToModel rt
        ((parseDsl rt (serializeToDsl rt m.fields m.assertions)).rules.map (·.toRule))) m := by
  have hback : ∀ e ∈ m.entries, ComesBack rt (entryLine rt (padWidth m.fields m.assertions) e) e :=
    fun e he => kept_comesBack (hdom e he) (hkept e he) (path_lt_padWidth he)
  constructor
  · rw [errors_eq_nil_iff]
    intro line hline problem hread
    obtain ⟨e, he, hread⟩ := (readLine_lines hdom).mp ⟨line, hline, hread⟩
    obtain ⟨rule, e', hrule, -⟩ := hback e he
    rw [hrule] at hread
    cases hread
  · intro c
    simp only [List.mem_map (f := canonical), mem_entries_dslToModel]
    constructor
    · rintro ⟨e', ⟨rule, hrule, he'⟩, rfl⟩
      obtain ⟨e, he, hread⟩ := (readLine_lines hdom).mp (mem_rules_iff.mp hrule)
      obtain ⟨rule', e'', hrule', he'', hsame⟩ := hback e he
      rw [hread, Option.some.injEq, Except.ok.injEq] at hrule'
      rw [← hrule', he', Option.some.injEq] at he''
      exact ⟨e, he, by rw [he'', hsame]⟩
    · rintro ⟨e, he, rfl⟩
      obtain ⟨rule, e', hrule, he', hsame⟩ := hback e he
      exact ⟨e', ⟨rule, mem_rules_iff.mpr ((readLine_lines hdom).mpr ⟨e, he, hrule⟩), he'⟩, hsame⟩

/-! ## The export -/

theorem known_of_lookup {name : List Char} (h : fieldOperatorKeywords.lookup name = some op) : op.Known := by
  have hmem : (name, op) ∈ fieldOperatorKeywords := by
    generalize fieldOperatorKeywords = table at h
    induction table with
    | nil => cases h
    | cons entry table ih =>
        rw [List.lookup_cons] at h
        split at h
        · next heq =>
            rw [Option.some.injEq] at h
            rw [eq_of_beq heq, ← h]
            exact List.mem_cons_self ..
        · exact List.mem_cons_of_mem _ (ih h)
  have hall : ∀ entry ∈ fieldOperatorKeywords, entry.2.Known := by decide
  exact hall _ hmem

theorem detectKind_field (hop : op.Known) :
    detectKind op.text = if op = .isType then .typeCheck
      else if op = .exists ∨ op = .notExists then .existence else .field := by
  cases op with
  | other text => simp [FieldOperator.Known, FieldOperator.names] at hop
  | _ => decide

theorem detectKind_length (r : List Char) : detectKind ("length ".toList ++ r) = .length := rfl

theorem detectKind_each (r : List Char) : detectKind ("each ".toList ++ r) = .each := rfl

theorem detectKind_fieldRule {rawOp : List Char} {rawValue : Option (List Char)} {rule : Rule}
    (hop : op.Known) (h : fieldRule op rawOp q rawValue n = .ok rule) :
    detectKind rule.operator = rule.kind := by
  have hkind := detectKind_field hop
  rw [fieldRule] at h
  split at h
  · cases h
  · split at h
    · next htype =>
        cases h
        rw [hkind, if_pos htype]
    · next htype =>
        split at h
        · next hexists =>
            cases h
            rw [hkind, if_neg htype, if_pos hexists]
        · next hexists =>
            rw [if_neg htype, if_neg hexists] at hkind
            split at h
            · cases h
              exact detectKind_each _
            · split at h
              · cases h
                exact hkind
              · cases h
                exact hkind

theorem detectKind_contains {opLower : List Char} (h : opLower ∈ containsKeywords) :
    detectKind opLower = .containsItem := by
  have hall : ∀ w ∈ containsKeywords, detectKind w = .containsItem := by decide
  exact hall _ h

theorem detectKind_parseOperation {rawOp : List Char} {rawValue : Option (List Char)} {rule : Rule}
    (h : parseOperation rt q rawOp rawValue n = .ok rule) : detectKind rule.operator = rule.kind := by
  simp only [parseOperation] at h
  split at h
  · cases rawValue with
    | none => cases h
    | some value =>
        simp only [parseLength] at h
        split at h
        · cases h
        · cases h
          exact detectKind_length _
  · split at h
    · cases rawValue with
      | none => cases h
      | some value =>
          cases h
          exact detectKind_each _
    · split at h
      · next hmem =>
          have hrule : rule.operator = rt.lower rawOp ∧ rule.kind = .containsItem := by
            cases rawValue with
            | none =>
                cases h
                exact ⟨rfl, rfl⟩
            | some value =>
                simp only [parseContains] at h
                split at h
                · cases h
                · split at h
                  · cases h
                  · cases h
                    exact ⟨rfl, rfl⟩
          rw [hrule.1, hrule.2, detectKind_contains hmem]
      · split at h
        · have hrule : rule.operator = "subset".toList ∧ rule.kind = .subset := by
            cases rawValue with
            | none =>
                cases h
                exact ⟨rfl, rfl⟩
            | some value =>
                simp only [parseSubset] at h
                split at h
                · split at h
                  · cases h
                  · cases h
                    exact ⟨rfl, rfl⟩
                · split at h
                  · cases h
                  · cases h
                    exact ⟨rfl, rfl⟩
          rw [hrule.1, hrule.2]
          rfl
        · split at h
          · cases h
          · next hlookup => exact detectKind_fieldRule (known_of_lookup hlookup) h

/-- The kind of a rule that was read can be told from its operator. -/
theorem detectKind_readLine {line : List Char} {rule : Rule} (h : readLine rt line = some (.ok rule)) :
    detectKind rule.operator = rule.kind := by
  simp only [readLine] at h
  split at h
  · cases h
  · split at h
    · next negate after _ =>
        rw [Option.some.injEq, parseAssert] at h
        split at h
        · cases h
        · cases h
          rfl
    · obtain ⟨⟨path, rest⟩, -, hrest⟩ := Option.map_eq_some_iff.mp h
      simp only [parseRest] at hrest
      split at hrest
      · cases hrest
      · exact detectKind_parseOperation hrest

theorem keys_sublist (r : ExportableRule) :
    (r.members.map Prod.fst).Sublist ["path", "operator", "value", "negate", "expression"] := by
  obtain ⟨path, operator, value, negate, expression⟩ := r
  cases value <;> cases negate <;> cases expression <;> simp [ExportableRule.members]

theorem keys_plain (r : ExportableRule) : (r.members.map Prod.fst).Nodup ∧
    ∀ m ∈ r.members, m.1.toList.any Char.isDigit = false := by
  refine ⟨(keys_sublist r).nodup (by decide), fun m hm => ?_⟩
  have hall : ∀ key ∈ ["path", "operator", "value", "negate", "expression"],
      key.toList.any Char.isDigit = false := by decide
  exact hall m.1 ((keys_sublist r).subset (List.mem_map.mpr ⟨m, hm, rfl⟩))

/-- An exported rule is imported as it was read. -/
theorem importedRule_exportable {rule : Rule} (hkind : detectKind rule.operator = rule.kind) :
    importedRule (.obj ((exportable rule).members.map fun m => (m.1, m.2.json))) =
      some { rule with expression := rule.expression.bind nonempty } := by
  obtain ⟨path, operator, value, negate, expression, kind⟩ := rule
  simp only at hkind
  subst hkind
  cases value <;> cases negate <;> cases he : expression.bind nonempty <;>
    simp [importedRule, exportable, ExportableRule.members, textMember, Plain.json, List.lookup_cons, he]

theorem bind_nonempty_twice (o : Option (List Char)) : (o.bind nonempty).bind nonempty = o.bind nonempty := by
  cases he : o.bind nonempty with
  | none => rfl
  | some e => exact nonempty_of_ne (bind_nonempty he).2

theorem ruleToModel_imported (rule : Rule) :
    ruleToModel rt { rule with expression := rule.expression.bind nonempty } = ruleToModel rt rule := by
  obtain ⟨path, operator, value, negate, expression, kind⟩ := rule
  cases kind with
  | field => simp only [ruleToModel, bind_nonempty_twice]
  | _ => rfl

/-- **What was read of the printed rules is what an export gives back.** -/
theorem import_export (fields : List ExpectedField) (assertions : List (Assertion ν)) :
    importFromJson rt (exportAsJson rt fields assertions) =
      .ok (dslToModel rt ((parseDsl rt (serializeToDsl rt fields assertions)).rules.map (·.toRule))) := by
  generalize hrules : (parseDsl rt (serializeToDsl rt fields assertions)).rules.map (·.toRule) = rules
  have hkinds : ∀ rule ∈ rules, detectKind rule.operator = rule.kind := by
    intro rule hrule
    rw [← hrules] at hrule
    obtain ⟨line, -, hread⟩ := mem_rules_iff.mp hrule
    exact detectKind_readLine hread
  have hparse := rt.parse_stringify (rules.map fun r => (exportable r).members) (by
    intro row hrow
    obtain ⟨r, -, rfl⟩ := List.mem_map.mp hrow
    exact keys_plain _)
  have himport : (rules.map fun r => Json.obj ((exportable r).members.map fun m => (m.1, m.2.json))).mapM
      importedRule = some (rules.map fun r => { r with expression := r.expression.bind nonempty }) := by
    clear hparse hrules
    induction rules with
    | nil => rfl
    | cons r rules ih =>
        rw [List.map_cons, List.mapM_cons, importedRule_exportable (hkinds r (by simp)),
          ih fun rule hrule => hkinds rule (by simp [hrule])]
        rfl
  have hmodel : dslToModel rt (rules.map fun r => { r with expression := r.expression.bind nonempty }) =
      dslToModel rt rules := by
    have hadded : (rules.map fun r => { r with expression := r.expression.bind nonempty }).filterMap
        (ruleToModel rt) = rules.filterMap (ruleToModel rt) := by
      rw [List.filterMap_map]
      exact List.filterMap_congr fun r _ => ruleToModel_imported r
    rw [dslToModel, dslToModel, hadded]
  rw [List.map_map] at hparse
  have hstring : exportAsJson rt fields assertions = rt.stringify (.arr (rules.map fun r =>
      Json.obj ((exportable r).members.map fun m => (m.1, m.2.json)))) := by
    rw [exportAsJson, hrules]
  have hvalue : rt.parse (exportAsJson rt fields assertions) = some (.arr (rules.map fun r =>
      Json.obj ((exportable r).members.map fun m => (m.1, m.2.json)))) := by
    rw [hstring]
    exact hparse
  simp only [importFromJson, hvalue, himport, hmodel]

/-- **The rules of a model come back from their text and from an export** if each of them is one
that does. -/
theorem roundTrips_of_kept {m : DslModel ν} (hdom : ∀ e ∈ m.entries, InDomain e)
    (hkept : ∀ e ∈ m.entries, Kept rt (padWidth m.fields m.assertions) e) : RoundTrips rt m := by
  obtain ⟨herrors, hsame⟩ := sameRules_of_kept hdom hkept
  exact ⟨herrors, hsame, _, import_export m.fields m.assertions, hsame⟩

/-! ## A runtime -/

/-- Natural numbers, small letters of ASCII, and the reader of `JSON` that undoes the writer. -/
noncomputable def plainRuntime : Runtime ℕ where
  lower w := w.map Char.toLower
  lower_ascii _ _ := rfl
  zero := 0
  numberText n := Nat.toDigits 10 n
  toNumber := digits
  numberText_chars n := by
    refine ⟨Nat.toDigits_ne_nil, fun c hc => ?_⟩
    have hdigit : c.isDigit = true := Nat.isDigit_of_mem_toDigits (by decide) (by decide) hc
    refine ⟨(isSpace_digit hdigit).1, fun hmem => ?_⟩
    have hnone : ∀ c ∈ ['>', '<', '=', '!'], c.isDigit = false := by decide
    rw [hnone c hmem] at hdigit
    cases hdigit
  toNumber_numberText n := by
    have hall : (Nat.toDigits 10 n).all Char.isDigit = true := by
      rw [List.all_eq_true]
      exact fun c hc => Nat.isDigit_of_mem_toDigits (by decide) (by decide) hc
    rw [digits, if_pos ⟨Nat.toDigits_ne_nil, hall⟩, Nat.ofDigitChars_ten_toDigits]
  parse := Function.partialInv fun j => (Json.stringify j).toList
  stringify j := (Json.stringify j).toList
  parse_stringify rows _ := by
    have hinj : Function.Injective fun j => (Json.stringify j).toList :=
      fun _ _ h => Json.stringify_injective (String.toList_inj.mp h)
    exact Function.partialInv_left hinj _

/-- A name between quotation marks. -/
def quotedName : DslModel ℕ := ⟨[⟨"$.name".toList, "\"x\"".toList, some .equals, none, false, none⟩], []⟩

theorem quotedName_inDomain : ∀ e ∈ quotedName.entries, InDomain e := by
  intro e he
  rw [List.mem_singleton.mp (show e ∈ [Sum.inl _] from he)]
  exact ⟨by decide, by decide, by decide, by decide⟩

/-- The marks of a value are taken for those of the text. -/
theorem quotedName_lost : ¬ RoundTrips plainRuntime quotedName := by
  rintro ⟨-, hsame, -⟩
  obtain ⟨e, he⟩ : ∃ e, e ∈ quotedName.entries := ⟨_, List.mem_cons_self ..⟩
  have hmem := (hsame (canonical e)).mpr (List.mem_map.mpr ⟨e, he, rfl⟩)
  obtain ⟨e', he', hcanonical⟩ := List.mem_map.mp hmem
  obtain ⟨rule, hrule, hmodel⟩ := mem_entries_dslToModel.mp he'
  obtain ⟨e'', he'', hread⟩ := (readLine_lines quotedName_inDomain).mp (mem_rules_iff.mp hrule)
  rw [List.mem_singleton.mp (show e'' ∈ [Sum.inl _] from he'')] at hread
  rw [List.mem_singleton.mp (show e ∈ [Sum.inl _] from he)] at hcanonical
  have hline : readLine plainRuntime (entryLine plainRuntime
      (padWidth quotedName.fields quotedName.assertions) (.inl ⟨"$.name".toList, "\"x\"".toList, some .equals,
        none, false, none⟩)) = some (.ok ⟨"name".toList, "equals".toList, some ['x'], false, none, .field⟩) := rfl
  rw [hline] at hread
  cases hread
  cases hmodel
  cases hcanonical

/-- Marks, backslashes and keywords in a value. -/
def sampleField : ExpectedField :=
  ⟨"$.title".toList, "say \"NOT\" \\ // equals".toList, some .contains, none, true, none⟩

def sample : DslModel ℕ :=
  ⟨[sampleField], [.arrayLength "$.rows".toList .ge 2 false,
    .custom "a > b".toList (some "see http://x".toList) false]⟩

theorem mem_sample {e : Entry ℕ} (he : e ∈ sample.entries) : e = .inl sampleField ∨
    e = .inr (.arrayLength "$.rows".toList .ge 2 false) ∨
      e = .inr (.custom "a > b".toList (some "see http://x".toList) false) := by
  have he : e ∈ [_, _, _] := he
  simpa only [List.mem_cons, List.not_mem_nil, or_false] using he

theorem sampleField_kept : FieldKept sampleField := by
  have hquoted : isQuoted '"' sampleField.expectedValue = false := by decide
  have hpath : PathKept sampleField.jsonPath := ⟨by decide, by decide, by decide⟩
  have hstar : hasStar (barePath sampleField.jsonPath) = false := hasStar_eq_false.mpr (by decide)
  refine ⟨hpath, by decide, by simp [hstar], ?_⟩
  exact .inr hquoted

theorem sample_inDomain : ∀ e ∈ sample.entries, InDomain e := by
  intro e he
  rcases mem_sample he with rfl | rfl | rfl
  · exact ⟨by decide, by decide, by decide, by decide⟩
  · exact (by decide : CleanPath "$.rows".toList)
  · exact ⟨by decide, by decide⟩

theorem sample_kept (width : ℕ) : ∀ e ∈ sample.entries, Kept plainRuntime width e := by
  intro e he
  rcases mem_sample he with rfl | rfl | rfl
  · exact sampleField_kept
  · exact ⟨by decide, by decide, by decide⟩
  · exact ⟨by decide, by decide, by decide, by decide⟩

end RedFireForge.Mapper
