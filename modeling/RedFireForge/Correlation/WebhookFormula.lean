/-
# `RedFireForge.Correlation.WebhookFormula` — what a filter says

A filter is written down for a formula: alternatives, each with conditions that all have to
hold.  It has the value of the formula if it is split where it was joined.  That takes operators
inside of braces or quotation marks for their own, and loses count of double braces in a value.
-/
import RedFireForge.Correlation.WebhookFilter

namespace RedFireForge.Correlation.WebhookFilter

open RedFireForge.ApiMock (isSpace trim)
open RedFireForge.Mapper (lineEnd)
open RedFireForge.Lib (Json)

/-! ## Formulas -/

inductive Mark
  | double | single
deriving DecidableEq, Repr

def Mark.char : Mark → Char
  | .double => '"'
  | .single => '\''

inductive Value
  | quoted (mark : Mark) (text : List Char)
  | bare (text : List Char)
deriving DecidableEq, Repr

namespace Value

def text : Value → List Char
  | quoted mark text => mark.char :: (text ++ [mark.char])
  | bare text => text

def meaning : Value → List Char
  | quoted _ text | bare text => text

/-- A bare value has no blanks and no quotation marks at its ends, and no operator for a word. -/
def WellFormed : Value → Prop
  | quoted mark text => mark.char ∉ text
  | bare text => text ≠ [] ∧ trim text = text ∧ text.head?.any isMark = false ∧
      text.getLast?.any isMark = false ∧
        ¬ orText <:+: ' ' :: (text ++ [' ']) ∧ ¬ andText <:+: ' ' :: (text ++ [' '])

end Value

/-- What is said of a field. -/
inductive Test
  | present (pad : List Char)
  | compare (pad : List Char) (op : Operator) (gap : List Char) (value : Value)
deriving DecidableEq, Repr

namespace Test

def text : Test → List Char
  | present pad => pad ++ "exists".toList
  | compare pad op gap value => pad ++ (op.text ++ (gap ++ value.text))

def WellFormed : Test → Prop
  | present pad => ∀ c ∈ pad, isSpace c = true
  | compare pad _ gap value =>
      (∀ c ∈ pad, isSpace c = true) ∧ (∀ c ∈ gap, isSpace c = true) ∧ gap ≠ [] ∧ value.WellFormed

/-- The value is on one line. -/
def OneLine : Test → Prop
  | present _ => True
  | compare _ _ _ value => value.meaning.any lineEnd = false

end Test

instance (t : Test) : Decidable t.OneLine :=
  match t with
  | .present _ => .isTrue trivial
  | .compare _ _ _ value => inferInstanceAs (Decidable (value.meaning.any lineEnd = false))

structure Atom where
  path : List Char
  test : Test
  path_ne_nil : path ≠ []
  path_plain : ∀ c ∈ path, c ∉ ['{', '}']
  test_wellFormed : test.WellFormed

def Atom.text (a : Atom) : List Char := '{' :: '{' :: (a.path ++ '}' :: '}' :: a.test.text)

/-- Alternatives of conditions. -/
structure Formula where
  alternatives : List (List Atom)
  ne_nil : alternatives ≠ []
  each_ne_nil : ∀ conditions ∈ alternatives, conditions ≠ []

def conditionsText (conditions : List Atom) : List Char := andText.intercalate (conditions.map Atom.text)

def Formula.text (φ : Formula) : List Char := orText.intercalate (φ.alternatives.map conditionsText)

section Meaning

variable {V ν : Type} (vals : Values V ν) (payload : V)

def Atom.holds (a : Atom) : Bool :=
  match a.test, resolveFieldPath vals (trim a.path) payload with
  | .present _, field => field.isSome
  | .compare _ op _ value, some v =>
      match vals.text v with
      | some actual => op.holds vals actual value.meaning
      | none => false
  | .compare .., none => false

def Formula.holds (φ : Formula) : Bool :=
  φ.alternatives.any fun conditions => conditions.all (·.holds vals payload)

/-- `String` has a text for the field that is compared. -/
def Atom.HasText (a : Atom) : Prop :=
  match a.test with
  | .present _ => True
  | .compare .. => ∀ v, resolveFieldPath vals (trim a.path) payload = some v → vals.text v ≠ none

end Meaning

/-- The depth after a text. -/
def depthAfter : ℤ → List Char → ℤ
  | depth, [] => depth
  | depth, '{' :: '{' :: cs => depthAfter (depth + 1) cs
  | depth, '}' :: '}' :: cs => depthAfter (depth - 1) cs
  | depth, _ :: cs => depthAfter depth cs

/-- No operator is found but those between the atoms, and outside of braces are all of these. -/
structure Formula.ReadsAsWritten (φ : Formula) : Prop where
  no_or : ∀ conditions ∈ φ.alternatives, ∀ a ∈ conditions, ¬ orText <:+: a.text ++ [' ']
  no_and : ∀ conditions ∈ φ.alternatives, ∀ a ∈ conditions, ¬ andText <:+: a.text ++ [' ']
  one_line : ∀ conditions ∈ φ.alternatives, ∀ a ∈ conditions, a.test.OneLine
  balanced : ∀ conditions ∈ φ.alternatives, ∀ a ∈ conditions.dropLast, depthAfter 0 a.text = 0
  balanced_before : ∀ conditions ∈ φ.alternatives.dropLast, ∀ a ∈ conditions, depthAfter 0 a.text = 0

/-! ## A single atom -/

section Single

variable {V ν : Type} {vals : Values V ν} {payload : V} {pad gap cs value : List Char} {op : Operator}

theorem fieldMatch_text (a : Atom) : fieldMatch a.text = some (a.path, a.test.text) := by
  have hplain : ∀ c ∈ a.path, decide (c ≠ '}') = true := by
    intro c hc
    have := a.path_plain c hc
    simp only [List.mem_cons, List.not_mem_nil, or_false, not_or] at this
    simpa using this.2
  have hdrop : (a.path ++ '}' :: '}' :: a.test.text).dropWhile (· ≠ '}') = '}' :: '}' :: a.test.text := by
    rw [List.dropWhile_append_of_pos hplain]
    rfl
  have htake : (a.path ++ '}' :: '}' :: a.test.text).takeWhile (· ≠ '}') = a.path := by
    rw [List.takeWhile_append_of_pos hplain, List.takeWhile_cons_of_neg (by simp), List.append_nil]
  rw [Atom.text, fieldMatch, fieldAt]
  simp only [hdrop, htake, if_neg a.path_ne_nil, Option.some_or]

theorem Operator.text_ne_nil (op : Operator) : op.text ≠ [] := by
  cases op <;> decide

theorem Operator.head_not_space (op : Operator) : ∀ c ∈ (op.text ++ cs).head?, isSpace c = false := by
  cases op <;> (intro c hc; cases hc; rfl)

theorem operatorAt_self (hgap : ∀ c ∈ gap, isSpace c = true) (hne : gap ≠ []) (hvalue : value ≠ [])
    (hhead : ∀ c ∈ value.head?, isSpace c = false) :
    operatorAt (op.text ++ (gap ++ value)) op = if value.any lineEnd then none else some (op, value) := by
  have htake : (gap ++ value).takeWhile isSpace = gap := by
    rw [List.takeWhile_append_of_pos hgap]
    cases value with
    | nil => exact List.append_nil _
    | cons c value => rw [List.takeWhile_cons_of_neg (by simp [hhead c rfl]), List.append_nil]
  have hdrop : (gap ++ value).dropWhile isSpace = value := by
    rw [List.dropWhile_append_of_pos hgap, Lib.dropWhile_of_head hhead]
  rw [operatorAt, if_pos (List.prefix_append _ _), List.drop_left]
  simp only [htake, hdrop, hne, hvalue, false_or]

theorem operatorAt_of_not_prefix {op' : Operator} (h : ¬ op'.text <+: cs) : operatorAt cs op' = none := if_neg h

/-- An operator with blanks after it is that operator. -/
theorem operatorMatch_text (hgap : ∀ c ∈ gap, isSpace c = true) (hne : gap ≠ []) (hvalue : value ≠ [])
    (hhead : ∀ c ∈ value.head?, isSpace c = false) (hone : value.any lineEnd = false) :
    operatorMatch (op.text ++ (gap ++ value)) = some (op, value) := by
  have hself : operatorAt (op.text ++ (gap ++ value)) op = _ := operatorAt_self hgap hne hvalue hhead
  rw [hone, if_neg (by simp)] at hself
  obtain ⟨before, after, hall, hbefore⟩ : ∃ before after, Operator.all = before ++ op :: after ∧
      ∀ op' ∈ before, ¬ op'.text <+: op.text ++ (gap ++ value) := by
    obtain ⟨g, gap, rfl⟩ := List.exists_cons_of_ne_nil hne
    have heq : '=' ≠ g := by
      rintro rfl
      cases hgap '=' (by simp)
    cases op with
    | eq => exact ⟨[], _, rfl, by simp⟩
    | ne => exact ⟨[.eq], _, rfl, by simp [Operator.text]⟩
    | ge => exact ⟨[.eq, .ne], _, rfl, by simp [Operator.text]⟩
    | le => exact ⟨[.eq, .ne, .ge], _, rfl, by simp [Operator.text]⟩
    | gt => exact ⟨[.eq, .ne, .ge, .le], _, rfl, by simp [Operator.text, heq]⟩
    | lt => exact ⟨[.eq, .ne, .ge, .le, .gt], _, rfl, by simp [Operator.text, heq]⟩
    | contains => exact ⟨[.eq, .ne, .ge, .le, .gt, .lt], _, rfl, by simp [Operator.text]⟩
  rw [operatorMatch, hall, List.findSome?_append, List.findSome?_eq_none_iff.mpr, Option.none_or,
    List.findSome?_cons, hself]
  intro op' hop'
  exact operatorAt_of_not_prefix (hbefore op' hop')

/-- A text without blanks at its ends keeps them off when it is put behind some. -/
theorem trim_append (hpad : ∀ c ∈ pad, isSpace c = true) (htrim : trim cs = cs) : trim (pad ++ cs) = cs :=
  (Lib.trimBy_append_of_pos hpad).trans htrim

theorem Mark.isMark (mark : Mark) : isMark mark.char = true := by
  cases mark <;> rfl

theorem Mark.not_space (mark : Mark) : isSpace mark.char = false := by
  cases mark <;> rfl

theorem trim_eq_of_ends (hhead : ∀ c ∈ cs.head?, isSpace c = false)
    (hlast : ∀ c ∈ cs.getLast?, isSpace c = false) : trim cs = cs := by
  refine (Lib.trimBy_of_head hhead).trans ?_
  rw [List.rdropWhile_eq_self_iff]
  intro hne h
  rw [hlast _ (List.getLast?_eq_some_getLast hne)] at h
  cases h

theorem ends_of_trim (htrim : trim cs = cs) : (∀ c ∈ cs.head?, isSpace c = false) ∧
    ∀ c ∈ cs.getLast?, isSpace c = false := by
  have hhead : ∀ c ∈ cs.head?, isSpace c = false := by
    rw [← htrim]
    exact Lib.head?_trimBy
  refine ⟨hhead, fun c hc => ?_⟩
  have hlast : cs.rdropWhile isSpace = cs := (Lib.trimBy_of_head hhead).symm.trans htrim
  rw [List.rdropWhile_eq_self_iff] at hlast
  obtain ⟨hne, rfl⟩ := List.mem_getLast?_eq_getLast hc
  simpa using hlast hne

theorem Value.ends (v : Value) (h : v.WellFormed) : v.text ≠ [] ∧
    (∀ c ∈ v.text.head?, isSpace c = false) ∧ ∀ c ∈ v.text.getLast?, isSpace c = false := by
  cases v with
  | quoted mark text =>
      refine ⟨List.cons_ne_nil _ _, ?_, ?_⟩
      · intro c hc
        cases hc
        exact mark.not_space
      · intro c hc
        rw [Value.text, ← List.cons_append, List.getLast?_append] at hc
        cases hc
        exact mark.not_space
  | bare text => exact ⟨h.1, ends_of_trim h.2.1⟩

theorem Value.stripMarks_text (v : Value) (h : v.WellFormed) : stripMarks v.text = v.meaning := by
  cases v with
  | quoted mark text =>
      have hlast : (text ++ [mark.char]).getLast? = some mark.char := by simp
      simp only [Value.text, Value.meaning, stripMarks, List.head?_cons, Option.any_some, mark.isMark,
        List.drop_succ_cons, List.drop_zero, if_true, hlast, List.dropLast_concat]
  | bare text =>
      obtain ⟨-, -, hhead, hlast, -⟩ := h
      simp only [Value.text, Value.meaning, stripMarks, hhead, hlast, Bool.false_eq_true, if_false]

theorem lineEnd_isMark {c : Char} (h : isMark c = true) : lineEnd c = false := by
  simp only [isMark, decide_eq_true_eq] at h
  rcases h with rfl | rfl <;> rfl

theorem Value.oneLine_text (v : Value) (h : v.meaning.any lineEnd = false) : v.text.any lineEnd = false := by
  cases v with
  | quoted mark text =>
      have hmark := lineEnd_isMark mark.isMark
      have htext : text.any lineEnd = false := h
      simp [Value.text, hmark, htext]
  | bare text => exact h

/-- **An atom has its own value.** -/
theorem evaluateSingle_text (a : Atom) (hone : a.test.OneLine) (htext : a.HasText vals payload) :
    if a.holds vals payload then evaluateSingleExpression vals payload a.text = .valid
    else ∃ reason, evaluateSingleExpression vals payload a.text = .invalid reason := by
  obtain ⟨path, test, hne, hplain, hwf⟩ := a
  have hmatch := fieldMatch_text ⟨path, test, hne, hplain, hwf⟩
  cases test with
  | present pad =>
      have htrim : trim (Test.present pad).text = "exists".toList := trim_append hwf (by decide)
      simp only [evaluateSingleExpression, hmatch, htrim, if_true, Atom.holds]
      cases resolveFieldPath vals (trim path) payload with
      | none => exact ⟨_, rfl⟩
      | some v => rfl
  | compare pad op gap value =>
      obtain ⟨hpad, hgap, hgapne, hvalue⟩ := hwf
      obtain ⟨hvne, hvhead, hvlast⟩ := value.ends hvalue
      have htrimmed : trim (op.text ++ (gap ++ value.text)) = op.text ++ (gap ++ value.text) := by
        refine trim_eq_of_ends op.head_not_space fun c hc => hvlast c ?_
        rwa [List.getLast?_append_of_ne_nil _ (by simp [hvne]), List.getLast?_append_of_ne_nil _ hvne] at hc
      have htrim : trim (Test.compare pad op gap value).text = op.text ++ (gap ++ value.text) :=
        trim_append hpad htrimmed
      have hnot : op.text ++ (gap ++ value.text) ≠ "exists".toList := by
        intro h
        have hhead := congrArg List.head? h
        cases op <;> cases hhead
      have hop : operatorMatch (op.text ++ (gap ++ value.text)) = some (op, value.text) :=
        operatorMatch_text hgap hgapne hvne hvhead (value.oneLine_text hone)
      have hvtrim : trim value.text = value.text := trim_eq_of_ends hvhead hvlast
      simp only [evaluateSingleExpression, hmatch, htrim, if_neg hnot, hop, hvtrim,
        value.stripMarks_text hvalue, Atom.holds]
      cases hfield : resolveFieldPath vals (trim path) payload with
      | none => exact ⟨_, rfl⟩
      | some v =>
          cases hv : vals.text v with
          | none => exact absurd hv (htext v hfield)
          | some actual =>
              simp only [hv]
              cases op.holds vals actual value.meaning with
              | true => rfl
              | false => exact ⟨_, rfl⟩

end Single

/-! ## Joined texts -/

section Joined

variable {delimiter w current x r : List Char} {depth : ℤ} {xs : List (List Char)}

theorem NoPair.append_blank {c : Char} (h : NoPair c x) : NoPair c (x ++ ' ' :: r) := by
  intro b hb hc hhead
  cases x with
  | nil =>
      cases hhead
      simp at hb
  | cons d x => exact h b hb hc hhead

theorem depthAfter_cons {c : Char} (h : NoPair c x) : depthAfter depth (c :: x) = depthAfter depth x := by
  rw [depthAfter]
  · exact h.opening
  · exact h.closing

theorem depthAfter_append : depthAfter depth (x ++ ' ' :: r) = depthAfter (depthAfter depth x) r := by
  induction depth, x using depthAfter.induct with
  | case1 depth => rw [List.nil_append, depthAfter_cons (by simp [NoPair]), depthAfter]
  | case2 depth x ih => rw [List.cons_append, List.cons_append, depthAfter, ih, depthAfter]
  | case3 depth x ih => rw [List.cons_append, List.cons_append, depthAfter, ih, depthAfter]
  | case4 depth c x hopen hclose ih =>
      have hpair := noPair_of hopen hclose
      rw [List.cons_append, depthAfter_cons hpair.append_blank, ih, depthAfter_cons hpair]

/-- The scan of a text without a delimiter. -/
theorem splitFrom_append (hword : ' ' ∉ w) (hx : ¬ ' ' :: (w ++ [' ']) <:+: x ++ [' ']) :
    splitFrom (' ' :: (w ++ [' '])) 0 depth current (x ++ ' ' :: r) =
      splitFrom (' ' :: (w ++ [' '])) 0 (depthAfter depth x) (current ++ x) (' ' :: r) := by
  induction depth, x using depthAfter.induct generalizing current with
  | case1 depth => rw [List.nil_append, List.append_nil, depthAfter]
  | case2 depth x ih =>
      have hx' : ¬ ' ' :: (w ++ [' ']) <:+: x ++ [' '] := fun h =>
        hx (h.trans (List.suffix_append ['{', '{'] (x ++ [' '])).isInfix)
      rw [List.cons_append, List.cons_append, splitFrom, ih hx', depthAfter]
      simp
  | case3 depth x ih =>
      have hx' : ¬ ' ' :: (w ++ [' ']) <:+: x ++ [' '] := fun h =>
        hx (h.trans (List.suffix_append ['}', '}'] (x ++ [' '])).isInfix)
      rw [List.cons_append, List.cons_append, splitFrom, ih hx', depthAfter]
      simp
  | case4 depth c x hopen hclose ih =>
      have hpair := noPair_of hopen hclose
      have hx' : ¬ ' ' :: (w ++ [' ']) <:+: x ++ [' '] := fun h =>
        hx (h.trans (List.suffix_cons c (x ++ [' '])).isInfix)
      have hnot : ¬ (depth = 0 ∧ ' ' :: (w ++ [' ']) <+: c :: (x ++ ' ' :: r)) := fun h =>
        hx (Lib.prefix_append_cons hword (List.cons_ne_nil c x) h.2).isInfix
      rw [List.cons_append, splitFrom_cons hpair.append_blank, if_neg hnot, ih hx', depthAfter_cons hpair]
      simp

theorem topFree_of_not_found (h : ¬ delimiter <:+: x) : TopFree delimiter depth x := by
  induction depth, x using TopFree.induct with
  | case1 depth => trivial
  | case2 depth x ih =>
      rw [TopFree]
      exact ih fun hx => h (hx.trans (List.suffix_append ['{', '{'] x).isInfix)
  | case3 depth x ih =>
      rw [TopFree]
      exact ih fun hx => h (hx.trans (List.suffix_append ['}', '}'] x).isInfix)
  | case4 depth c x hopen hclose ih =>
      exact (topFree_cons (noPair_of hopen hclose)).mpr
        ⟨fun hx => h hx.2.isInfix, ih fun hx => h (hx.trans (List.suffix_cons c x).isInfix)⟩

/-- **What was joined is split.** -/
theorem splitTopLevel_join (hword : ' ' ∉ w) (hne : xs ≠ [])
    (hxs : ∀ x ∈ xs, x ≠ [] ∧ ¬ ' ' :: (w ++ [' ']) <:+: x ++ [' '])
    (hdepth : ∀ x ∈ xs.dropLast, depthAfter 0 x = 0) :
    splitTopLevel ((' ' :: (w ++ [' '])).intercalate xs) (' ' :: (w ++ [' '])) = xs := by
  induction xs with
  | nil => exact absurd rfl hne
  | cons x xs ih =>
      obtain ⟨hx, hfree⟩ := hxs x (by simp)
      cases xs with
      | nil =>
          rw [List.intercalate_singleton]
          exact splitTopLevel_topFree (topFree_of_not_found fun h => hfree (h.trans (List.prefix_append _ _).isInfix)) hx
      | cons y ys =>
          have hrest := ih (List.cons_ne_nil y ys) (fun z hz => hxs z (by simp [hz]))
            (fun z hz => hdepth z (by simp [hz]))
          have hzero : depthAfter 0 x = 0 := hdepth x (by simp)
          rw [List.intercalate_cons_cons, splitTopLevel, List.append_assoc, List.cons_append,
            splitFrom_append hword hfree, hzero, List.nil_append, splitFrom_cons (by simp [NoPair]), if_pos, splitFrom_skip]
          · rw [splitTopLevel] at hrest
            simp [hrest]
          · exact ⟨rfl, by simp⟩

end Joined

/-! ## Whole filters -/

section Whole

variable {V ν : Type} {vals : Values V ν} {payload : V}

/-- The outcome that stands for a value. -/
def Says (outcome : Option Outcome) (value : Bool) : Prop :=
  if value then outcome = some .valid else ∃ reason, outcome = some (.invalid reason)

theorem allOf_says {α : Type} {evaluate : List Char → Option Outcome} {text : α → List Char}
    {value : α → Bool} {items : List α} (h : ∀ a ∈ items, Says (evaluate (trim (text a))) (value a)) :
    Says (allOf evaluate (items.map text)) (items.all value) := by
  induction items with
  | nil => exact rfl
  | cons a items ih =>
      have hfirst := h a (by simp)
      have ih := ih fun b hb => h b (by simp [hb])
      rw [List.map_cons, allOf, List.all_cons]
      cases hvalue : value a with
      | true =>
          rw [hvalue, Says, if_pos rfl] at hfirst
          rw [hfirst, Bool.true_and]
          exact ih
      | false =>
          rw [hvalue, Says, if_neg (by simp)] at hfirst
          obtain ⟨reason, hreason⟩ := hfirst
          rw [hreason, Bool.false_and]
          exact ⟨reason, rfl⟩

theorem anyOf_says {α : Type} {evaluate : List Char → Option Outcome} {reason : List Char}
    {text : α → List Char} {value : α → Bool} {items : List α}
    (h : ∀ a ∈ items, Says (evaluate (trim (text a))) (value a)) :
    Says (anyOf evaluate (.invalid reason) (items.map text)) (items.any value) := by
  induction items with
  | nil => exact ⟨reason, rfl⟩
  | cons a items ih =>
      have hfirst := h a (by simp)
      have ih := ih fun b hb => h b (by simp [hb])
      rw [List.map_cons, anyOf, List.any_cons]
      cases hvalue : value a with
      | true =>
          rw [hvalue, Says, if_pos rfl] at hfirst
          rw [hfirst, Bool.true_or]
          exact rfl
      | false =>
          rw [hvalue, Says, if_neg (by simp)] at hfirst
          obtain ⟨reason', hreason⟩ := hfirst
          rw [hreason, Bool.false_or]
          exact ih

theorem Atom.text_ends (a : Atom) : (∀ c ∈ a.text.head?, isSpace c = false) ∧
    ∀ c ∈ a.text.getLast?, isSpace c = false := by
  constructor
  · intro c hc
    cases hc
    rfl
  · obtain ⟨path, test, hne, hplain, hwf⟩ := a
    have hlast : ∀ {cs : List Char}, cs ≠ [] →
        ('{' :: '{' :: (path ++ '}' :: '}' :: cs)).getLast? = cs.getLast? := by
      intro cs hcs
      have happend : '{' :: '{' :: (path ++ '}' :: '}' :: cs) = ('{' :: '{' :: (path ++ ['}', '}'])) ++ cs := by
        simp
      rw [happend, List.getLast?_append_of_ne_nil _ hcs]
    cases test with
    | present pad =>
        intro c hc
        rw [Atom.text, hlast (by simp [Test.text]), Test.text, List.getLast?_append_of_ne_nil _ (by simp)] at hc
        cases hc
        rfl
    | compare pad op gap value =>
        obtain ⟨-, -, hgap, hvalue⟩ := hwf
        obtain ⟨hvne, -, hvlast⟩ := value.ends hvalue
        intro c hc
        rw [Atom.text, hlast (by simp [Test.text, hvne]), Test.text,
          List.getLast?_append_of_ne_nil _ (by simp [hvne]), List.getLast?_append_of_ne_nil _ (by simp [hvne]),
          List.getLast?_append_of_ne_nil _ hvne] at hc
        exact hvlast c hc

/-- Joined texts begin as the first and end as the last. -/
theorem intercalate_ends {delimiter : List Char} {xs : List (List Char)} (hne : xs ≠ [])
    (h : ∀ x ∈ xs, x ≠ [] ∧ (∀ c ∈ x.head?, isSpace c = false) ∧ ∀ c ∈ x.getLast?, isSpace c = false) :
    delimiter.intercalate xs ≠ [] ∧ (∀ c ∈ (delimiter.intercalate xs).head?, isSpace c = false) ∧
      ∀ c ∈ (delimiter.intercalate xs).getLast?, isSpace c = false := by
  induction xs with
  | nil => exact absurd rfl hne
  | cons x xs ih =>
      obtain ⟨hx, hhead, hlast⟩ := h x (by simp)
      cases xs with
      | nil => rw [List.intercalate_singleton]; exact ⟨hx, hhead, hlast⟩
      | cons y ys =>
          obtain ⟨hrest, -, hrestlast⟩ := ih (List.cons_ne_nil y ys) fun z hz => h z (by simp [hz])
          rw [List.intercalate_cons_cons]
          refine ⟨by simp [hx], ?_, ?_⟩
          · rw [List.append_assoc, List.head?_append_of_ne_nil _ hx]
            exact hhead
          · rw [List.getLast?_append_of_ne_nil _ hrest]
            exact hrestlast

theorem evaluate_atom {calls : ℕ} (a : Atom) (hor : ¬ orText <:+: a.text ++ [' '])
    (hand : ¬ andText <:+: a.text ++ [' ']) (hone : a.test.OneLine) (htext : a.HasText vals payload) :
    Says (evaluateWebhookFilter vals payload (calls + 1) (trim a.text)) (a.holds vals payload) := by
  have htrim : trim a.text = a.text := trim_eq_of_ends a.text_ends.1 a.text_ends.2
  have hprefix : a.text <:+: a.text ++ [' '] := (List.prefix_append _ _).isInfix
  rw [evaluate_condition (by rw [htrim]; exact fun h => hor (h.trans hprefix))
    (by rw [htrim]; exact fun h => hand (h.trans hprefix)), condition, htrim, if_neg (by simp [Atom.text])]
  have hsingle := evaluateSingle_text a hone htext
  cases hvalue : a.holds vals payload with
  | true =>
      rw [hvalue, if_pos rfl] at hsingle
      rw [hsingle]
      exact rfl
  | false =>
      rw [hvalue, if_neg (by simp)] at hsingle
      obtain ⟨reason, hreason⟩ := hsingle
      exact ⟨reason, by rw [hreason]⟩

theorem conditionsText_ends {conditions : List Atom} (hne : conditions ≠ []) : conditionsText conditions ≠ [] ∧
    (∀ c ∈ (conditionsText conditions).head?, isSpace c = false) ∧
      ∀ c ∈ (conditionsText conditions).getLast?, isSpace c = false := by
  refine intercalate_ends (by simpa using hne) fun x hx => ?_
  obtain ⟨a, -, rfl⟩ := List.mem_map.mp hx
  exact ⟨by simp [Atom.text], a.text_ends⟩

theorem formula_trim (φ : Formula) : trim φ.text = φ.text := by
  have hne : φ.alternatives.map conditionsText ≠ [] := by simpa using φ.ne_nil
  have hends : φ.text ≠ [] ∧ (∀ c ∈ φ.text.head?, isSpace c = false) ∧
      ∀ c ∈ φ.text.getLast?, isSpace c = false := by
    refine intercalate_ends hne fun x hx => ?_
    obtain ⟨conditions, hmem, rfl⟩ := List.mem_map.mp hx
    exact conditionsText_ends (φ.each_ne_nil conditions hmem)
  exact trim_eq_of_ends hends.2.1 hends.2.2

theorem head_conditionsText {conditions : List Atom} (hne : conditions ≠ []) :
    ∃ cs, conditionsText conditions = '{' :: cs := by
  match conditions with
  | [] => exact absurd rfl hne
  | [a] => exact ⟨_, List.intercalate_singleton⟩
  | a :: b :: rest => exact ⟨_, by rw [conditionsText, List.map_cons, List.map_cons, List.intercalate_cons_cons]; rfl⟩

theorem conditionsText_cons (a b : Atom) (rest : List Atom) : conditionsText (a :: b :: rest) =
    a.text ++ ' ' :: (['&', '&'] ++ ' ' :: conditionsText (b :: rest)) := by
  rw [conditionsText, List.map_cons, List.map_cons, List.intercalate_cons_cons, List.append_assoc]
  rfl

/-- An alternative has no operator of the other kind. -/
theorem no_or_conditions {conditions : List Atom} (hne : conditions ≠ [])
    (h : ∀ a ∈ conditions, ¬ orText <:+: a.text ++ [' ']) : ¬ orText <:+: conditionsText conditions ++ [' '] := by
  induction conditions with
  | nil => exact absurd rfl hne
  | cons a conditions ih =>
      cases conditions with
      | nil =>
          rw [conditionsText, List.map_singleton, List.intercalate_singleton]
          exact h a (by simp)
      | cons b rest =>
          have hrest := ih (List.cons_ne_nil b rest) fun c hc => h c (by simp [hc])
          obtain ⟨cs, hcs⟩ := head_conditionsText (List.cons_ne_nil b rest)
          have htext : conditionsText (a :: b :: rest) ++ [' '] =
              a.text ++ ' ' :: (['&', '&'] ++ ' ' :: (conditionsText (b :: rest) ++ [' '])) := by
            rw [conditionsText_cons]
            simp
          have hword : ' ' ∉ ['|', '|'] := by decide
          rw [htext]
          intro hin
          rcases (Lib.infix_append_cons hword).mp hin with hin | hin
          · exact h a (by simp) hin
          · rcases (Lib.infix_append_cons (l := [' ', '&', '&']) hword).mp hin with hin | hin
            · revert hin
              decide
            · rcases List.infix_cons_iff.mp hin with hin | hin
              · rw [hcs] at hin
                have := (List.cons_prefix_cons.mp (List.cons_prefix_cons.mp hin).2).1
                cases this
              · exact hrest hin

theorem depthAfter_conditions {conditions : List Atom} (hne : conditions ≠ [])
    (h : ∀ a ∈ conditions, depthAfter 0 a.text = 0) : depthAfter 0 (conditionsText conditions) = 0 := by
  induction conditions with
  | nil => exact absurd rfl hne
  | cons a conditions ih =>
      cases conditions with
      | nil =>
          rw [conditionsText, List.map_singleton, List.intercalate_singleton]
          exact h a (by simp)
      | cons b rest =>
          have hrest := ih (List.cons_ne_nil b rest) fun c hc => h c (by simp [hc])
          rw [conditionsText_cons, depthAfter_append, h a (by simp), depthAfter_append]
          exact hrest

theorem infix_join {delimiter : List Char} {xs : List (List Char)} (h : 2 ≤ xs.length) :
    delimiter <:+: delimiter.intercalate xs := by
  match xs with
  | x :: y :: ys =>
      rw [List.intercalate_cons_cons]
      exact ⟨x, _, rfl⟩

theorem evaluate_conditions {calls : ℕ} {conditions : List Atom} (hne : conditions ≠ [])
    (hor : ∀ a ∈ conditions, ¬ orText <:+: a.text ++ [' '])
    (hand : ∀ a ∈ conditions, ¬ andText <:+: a.text ++ [' '])
    (hone : ∀ a ∈ conditions, a.test.OneLine) (hdepth : ∀ a ∈ conditions.dropLast, depthAfter 0 a.text = 0)
    (htext : ∀ a ∈ conditions, a.HasText vals payload) :
    Says (evaluateWebhookFilter vals payload (calls + 2) (trim (conditionsText conditions)))
      (conditions.all (·.holds vals payload)) := by
  have hends := conditionsText_ends hne
  have htrim : trim (conditionsText conditions) = conditionsText conditions :=
    trim_eq_of_ends hends.2.1 hends.2.2
  match conditions with
  | [] => exact absurd rfl hne
  | [a] =>
      rw [conditionsText, List.map_singleton, List.intercalate_singleton, List.all_cons, List.all_nil,
        Bool.and_true]
      exact evaluate_atom a (hor a (by simp)) (hand a (by simp)) (hone a (by simp)) (htext a (by simp))
  | a :: b :: rest =>
      have hno : ¬ orText <:+: conditionsText (a :: b :: rest) := fun h =>
        no_or_conditions hne hor (h.trans (List.prefix_append _ _).isInfix)
      have hsome : andText <:+: conditionsText (a :: b :: rest) := infix_join (by simp)
      have hsplit : splitTopLevel (conditionsText (a :: b :: rest)) andText = (a :: b :: rest).map Atom.text := by
        refine splitTopLevel_join (w := ['&', '&']) (by decide) (by simp) (fun x hx => ?_) fun x hx => ?_
        · obtain ⟨c, hc, rfl⟩ := List.mem_map.mp hx
          exact ⟨by simp [Atom.text], hand c hc⟩
        · rw [← List.map_dropLast] at hx
          obtain ⟨c, hc, rfl⟩ := List.mem_map.mp hx
          exact hdepth c hc
      rw [htrim, evaluateWebhookFilter]
      simp only [htrim]
      rw [if_neg hends.1, if_neg hno, if_pos hsome, hsplit]
      exact allOf_says fun c hc => evaluate_atom c (hor c hc) (hand c hc) (hone c hc) (htext c hc)

/-- **A formula that reads as written has its value.** -/
theorem evaluate_formula {calls : ℕ} {φ : Formula} (h : φ.ReadsAsWritten)
    (htext : ∀ conditions ∈ φ.alternatives, ∀ a ∈ conditions, a.HasText vals payload) :
    Says (evaluateWebhookFilter vals payload (calls + 3) φ.text) (φ.holds vals payload) := by
  have heach : ∀ calls, ∀ conditions ∈ φ.alternatives,
      Says (evaluateWebhookFilter vals payload (calls + 2) (trim (conditionsText conditions)))
        (conditions.all (·.holds vals payload)) := fun calls conditions hmem =>
    evaluate_conditions (φ.each_ne_nil conditions hmem) (h.no_or conditions hmem) (h.no_and conditions hmem)
      (h.one_line conditions hmem) (h.balanced conditions hmem) (htext conditions hmem)
  have htrim := formula_trim φ
  obtain ⟨alternatives, hne, heachne⟩ := φ
  match alternatives with
  | [] => exact absurd rfl hne
  | [conditions] =>
      have hcond := heach (calls + 1) conditions (by simp)
      have hends := conditionsText_ends (heachne conditions (by simp))
      rw [trim_eq_of_ends hends.2.1 hends.2.2] at hcond
      simpa [Formula.text, Formula.holds] using hcond
  | first :: second :: rest =>
      have hsome : orText <:+: Formula.text ⟨first :: second :: rest, hne, heachne⟩ := infix_join (by simp)
      have hsplit : splitTopLevel (Formula.text ⟨first :: second :: rest, hne, heachne⟩) orText =
          (first :: second :: rest).map conditionsText := by
        refine splitTopLevel_join (w := ['|', '|']) (by decide) (by simp) (fun x hx => ?_) fun x hx => ?_
        · obtain ⟨conditions, hmem, rfl⟩ := List.mem_map.mp hx
          exact ⟨(conditionsText_ends (heachne conditions hmem)).1,
            no_or_conditions (heachne conditions hmem) (h.no_or conditions hmem)⟩
        · rw [← List.map_dropLast] at hx
          obtain ⟨conditions, hmem, rfl⟩ := List.mem_map.mp hx
          exact depthAfter_conditions (heachne conditions (List.dropLast_subset _ hmem))
            (h.balanced_before conditions hmem)
      rw [evaluateWebhookFilter]
      simp only [htrim]
      rw [if_neg (ne_nil_of_found rfl hsome), if_pos hsome, hsplit]
      exact anyOf_says (heach calls)

end Whole

/-! ## A payload -/

/-- Objects and texts. -/
def plainValues : Values Json ℕ where
  member v key :=
    match v with
    | .obj fields => fields.lookup (String.ofList key)
    | _ => none
  isObject v :=
    match v with
    | .obj _ | .arr _ => true
    | _ => false
  text v :=
    match v with
    | .str s => some s.toList
    | _ => some "[object Object]".toList
  number cs := Nat.ofDigitChars 10 cs 0
  lt a b := decide (a < b)
  le a b := decide (a ≤ b)

/-- A field and a value between quotation marks. -/
def fieldEquals (path value : List Char) (hne : path ≠ [] := by decide)
    (hplain : ∀ c ∈ path, c ∉ ['{', '}'] := by decide) (hvalue : '"' ∉ value := by decide) : Atom where
  path := path
  test := .compare [' '] .eq [' '] (.quoted .double value)
  path_ne_nil := hne
  path_plain := hplain
  test_wellFormed := ⟨by decide, by decide, by decide, hvalue⟩

/-- `a == "x || y"` -/
def operatorInQuotes : Formula := ⟨[[fieldEquals ['a'] "x || y".toList]], by simp, by simp⟩

/-- The field is x, which is not what the filter asks for. -/
def payloadX : Json := .obj [("a", .str "x")]

/-- `a == "y" && a == "x" || a == "x"` -/
def twoAlternatives : Formula :=
  ⟨[[fieldEquals ['a'] ['y'], fieldEquals ['a'] ['x']], [fieldEquals ['a'] ['x']]], by simp, by simp⟩

theorem twoAlternatives_reads : twoAlternatives.ReadsAsWritten := by
  constructor <;> decide

end RedFireForge.Correlation.WebhookFilter
