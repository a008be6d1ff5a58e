/-
# `RedFireForge.Correlation.WebhookFilter` — the filter of a webhook

A filter is split at its operators and each part evaluated by itself.  Whether there is an
operator is asked of the whole text, but the text is split outside of double braces only: an
operator inside leaves the text as it is, and the evaluation starts over with the same text.

The evaluation is given by a number of nested calls.  Where it ends at all, three are enough.
-/
import RedFireForge.Lib.Text
import RedFireForge.ApiMock.JsonPath
import RedFireForge.Mapper.ValidationDsl

namespace RedFireForge.Correlation.WebhookFilter

open RedFireForge.ApiMock (isSpace trim)
open RedFireForge.Mapper (lineEnd)

/-- The values of the language.  A property that is undefined is none; `String` has no text for
an object without a callable `toString`. -/
structure Values (V ν : Type) where
  member : V → List Char → Option V
  isObject : V → Bool
  text : V → Option (List Char)
  number : List Char → ν
  lt : ν → ν → Bool
  le : ν → ν → Bool

/-- `ValidationResult`, or the `TypeError` of `String`. -/
inductive Outcome
  | valid
  | invalid (reason : List Char)
  | typeError
deriving DecidableEq, Repr

inductive Operator
  | eq | ne | ge | le | gt | lt | contains
deriving DecidableEq, Repr

namespace Operator

def text : Operator → List Char
  | eq => ['=', '=']
  | ne => ['!', '=']
  | ge => ['>', '=']
  | le => ['<', '=']
  | gt => ['>']
  | lt => ['<']
  | contains => ['c', 'o', 'n', 't', 'a', 'i', 'n', 's']

/-- The alternatives in the order of the pattern. -/
def all : List Operator := [eq, ne, ge, le, gt, lt, contains]

end Operator

section Evaluation

variable {V ν : Type} (vals : Values V ν)

/-! ## A single expression -/

def resolveFieldPath (path : List Char) (payload : V) : Option V :=
  let cleanPath := if "webhook.".toList <+: path then path.drop 8 else path
  (cleanPath.splitOn '.').foldl
    (fun current part => current.bind fun v => if vals.isObject v then vals.member v part else none)
    (some payload)

/-- A field reference at the start of a text: what is between the braces, and what follows. -/
def fieldAt : List Char → Option (List Char × List Char)
  | '{' :: '{' :: cs =>
      match cs.dropWhile (· ≠ '}') with
      | '}' :: '}' :: rest =>
          if cs.takeWhile (· ≠ '}') = [] then none else some (cs.takeWhile (· ≠ '}'), rest)
      | _ => none
  | _ => none

def fieldMatch : List Char → Option (List Char × List Char)
  | [] => none
  | c :: cs => (fieldAt (c :: cs)).or (fieldMatch cs)

/-- An operator at the start of a trimmed text, and its value on the same line. -/
def operatorAt (afterField : List Char) (op : Operator) : Option (Operator × List Char) :=
  if op.text <+: afterField then
    let rest := afterField.drop op.text.length
    let value := rest.dropWhile isSpace
    if rest.takeWhile isSpace = [] ∨ value = [] ∨ value.any lineEnd then none else some (op, value)
  else none

def operatorMatch (afterField : List Char) : Option (Operator × List Char) :=
  Operator.all.findSome? (operatorAt afterField)

def isMark (c : Char) : Bool := c = '"' ∨ c = '\''

/-- `replace(/^["']|["']$/g, '')` -/
def stripMarks (cs : List Char) : List Char :=
  let cs := if cs.head?.any isMark then cs.drop 1 else cs
  if cs.getLast?.any isMark then cs.dropLast else cs

def Operator.holds (op : Operator) (actual expected : List Char) : Bool :=
  match op with
  | .eq => actual == expected
  | .ne => actual != expected
  | .contains => decide (expected <:+: actual)
  | .gt => vals.lt (vals.number expected) (vals.number actual)
  | .lt => vals.lt (vals.number actual) (vals.number expected)
  | .ge => vals.le (vals.number expected) (vals.number actual)
  | .le => vals.le (vals.number actual) (vals.number expected)

def Operator.reason (op : Operator) (fieldPath actual expected : List Char) : List Char :=
  match op with
  | .eq => fieldPath ++ ": \"".toList ++ actual ++ "\" != \"".toList ++ expected ++ "\"".toList
  | .ne =>
      fieldPath ++ ": \"".toList ++ actual ++ "\" == \"".toList ++ expected ++
        "\" (expected !=)".toList
  | .contains =>
      fieldPath ++ ": \"".toList ++ actual ++ "\" does not contain \"".toList ++ expected ++
        "\"".toList
  | op =>
      fieldPath ++ ": ".toList ++ actual ++ " is not ".toList ++ op.text ++ " ".toList ++ expected

def evaluateSingleExpression (payload : V) (expr : List Char) : Outcome :=
  match fieldMatch expr with
  | none => .invalid ("Invalid expression (no field reference): ".toList ++ expr)
  | some (field, rest) =>
      let fieldPath := trim field
      let fieldValue := resolveFieldPath vals fieldPath payload
      let afterField := trim rest
      if afterField = "exists".toList then
        if fieldValue.isSome then .valid
        else .invalid ("Field \"".toList ++ fieldPath ++ "\" does not exist".toList)
      else
        match operatorMatch afterField with
        | none => .invalid ("Invalid operator in expression: ".toList ++ expr)
        | some (operator, value) =>
            let expected := stripMarks (trim value)
            match fieldValue with
            | none => .invalid ("Field \"".toList ++ fieldPath ++ "\" not found in payload".toList)
            | some v =>
                match vals.text v with
                | none => .typeError
                | some actual =>
                    if operator.holds vals actual expected then .valid
                    else .invalid (operator.reason fieldPath actual expected)

/-! ## The whole filter -/

def orText : List Char := " || ".toList

def andText : List Char := " && ".toList

/-- The loop of `splitTopLevel`: the characters to pass over after a delimiter, the depth and the
part that is being read. -/
def splitFrom (delimiter : List Char) : ℕ → ℤ → List Char → List Char → List (List Char)
  | _, _, current, [] => if current = [] then [] else [current]
  | skip + 1, depth, current, _ :: cs => splitFrom delimiter skip depth current cs
  | 0, depth, current, '{' :: '{' :: cs => splitFrom delimiter 0 (depth + 1) (current ++ ['{', '{']) cs
  | 0, depth, current, '}' :: '}' :: cs => splitFrom delimiter 0 (depth - 1) (current ++ ['}', '}']) cs
  | 0, depth, current, c :: cs =>
      if depth = 0 ∧ delimiter <+: c :: cs then
        current :: splitFrom delimiter (delimiter.length - 1) depth [] cs
      else splitFrom delimiter 0 depth (current ++ [c]) cs

def splitTopLevel (str delimiter : List Char) : List (List Char) := splitFrom delimiter 0 0 [] str

/-- The loop over the alternatives. -/
def anyOf (evaluate : List Char → Option Outcome) (failed : Outcome) :
    List (List Char) → Option Outcome
  | [] => some failed
  | part :: parts =>
      match evaluate (trim part) with
      | some (.invalid _) => anyOf evaluate failed parts
      | outcome => outcome

/-- The loop over the conditions. -/
def allOf (evaluate : List Char → Option Outcome) : List (List Char) → Option Outcome
  | [] => some .valid
  | part :: parts =>
      match evaluate (trim part) with
      | some .valid => allOf evaluate parts
      | outcome => outcome

/-- With at most so many calls inside each other. -/
def evaluateWebhookFilter (payload : V) : ℕ → List Char → Option Outcome
  | 0, _ => none
  | calls + 1, filter =>
      let trimmed := trim filter
      if trimmed = [] then some .valid
      else if orText <:+: trimmed then
        anyOf (evaluateWebhookFilter payload calls)
          (.invalid ("No OR condition matched: ".toList ++ trimmed)) (splitTopLevel trimmed orText)
      else if andText <:+: trimmed then
        allOf (evaluateWebhookFilter payload calls) (splitTopLevel trimmed andText)
      else some (evaluateSingleExpression vals payload trimmed)

/-- It returns or throws a `TypeError`. -/
def Terminates (payload : V) (filter : List Char) : Prop :=
  ∃ calls, evaluateWebhookFilter vals payload calls filter ≠ none

end Evaluation

section Evaluation

variable {V ν : Type} {vals : Values V ν} {payload : V} {delimiter current cs t : List Char} {depth : ℤ}

/-! ## Splitting -/

/-- No delimiter at depth zero. -/
def TopFree (delimiter : List Char) : ℤ → List Char → Prop
  | _, [] => True
  | depth, '{' :: '{' :: cs => TopFree delimiter (depth + 1) cs
  | depth, '}' :: '}' :: cs => TopFree delimiter (depth - 1) cs
  | depth, c :: cs => ¬ (depth = 0 ∧ delimiter <+: c :: cs) ∧ TopFree delimiter depth cs

/-- No pair of braces starts here. -/
def NoPair (c : Char) (cs : List Char) : Prop := ∀ b ∈ ['{', '}'], c = b → cs.head? ≠ some b

theorem NoPair.opening {c : Char} (h : NoPair c cs) : ∀ r, c = '{' → cs = '{' :: r → False := by
  rintro r rfl rfl
  exact h _ (by simp) rfl rfl

theorem NoPair.closing {c : Char} (h : NoPair c cs) : ∀ r, c = '}' → cs = '}' :: r → False := by
  rintro r rfl rfl
  exact h _ (by simp) rfl rfl

theorem noPair_of {c : Char} (hopen : ∀ r, c = '{' → cs = '{' :: r → False)
    (hclose : ∀ r, c = '}' → cs = '}' :: r → False) : NoPair c cs := by
  intro b hb hc hhead
  obtain ⟨r, rfl⟩ : ∃ r, cs = b :: r := by
    cases cs with
    | nil => cases hhead
    | cons x r =>
        cases hhead
        exact ⟨r, rfl⟩
  simp only [List.mem_cons, List.not_mem_nil, or_false] at hb
  rcases hb with rfl | rfl
  · exact hopen r hc rfl
  · exact hclose r hc rfl

theorem topFree_cons {c : Char} (h : NoPair c cs) : TopFree delimiter depth (c :: cs) ↔
    ¬ (depth = 0 ∧ delimiter <+: c :: cs) ∧ TopFree delimiter depth cs := by
  rw [TopFree]
  · exact h.opening
  · exact h.closing

theorem splitFrom_cons {c : Char} (h : NoPair c cs) : splitFrom delimiter 0 depth current (c :: cs) =
    if depth = 0 ∧ delimiter <+: c :: cs then
      current :: splitFrom delimiter (delimiter.length - 1) depth [] cs
    else splitFrom delimiter 0 depth (current ++ [c]) cs := by
  rw [splitFrom]
  · exact h.opening
  · exact h.closing

theorem splitFrom_nil {skip : ℕ} :
    splitFrom delimiter skip depth current [] = if current = [] then [] else [current] := by
  cases skip <;> rfl

theorem splitFrom_skip {skip : ℕ} :
    splitFrom delimiter skip depth current cs = splitFrom delimiter 0 depth current (cs.drop skip) := by
  induction skip generalizing cs with
  | zero => rfl
  | succ skip ih =>
      cases cs with
      | nil => rw [List.drop_nil, splitFrom_nil, splitFrom_nil]
      | cons c cs => rw [List.drop_succ_cons, ← ih, splitFrom]

/-- Without a delimiter the text is one part. -/
theorem splitFrom_topFree (h : TopFree delimiter depth cs) :
    splitFrom delimiter 0 depth current cs = if current ++ cs = [] then [] else [current ++ cs] := by
  induction depth, cs using TopFree.induct generalizing current with
  | case1 depth => simp [splitFrom_nil]
  | case2 depth cs ih =>
      rw [splitFrom, ih (by rwa [TopFree] at h)]
      simp
  | case3 depth cs ih =>
      rw [splitFrom, ih (by rwa [TopFree] at h)]
      simp
  | case4 depth c cs hopen hclose ih =>
      have hpair := noPair_of hopen hclose
      obtain ⟨hnot, hrest⟩ := (topFree_cons hpair).mp h
      rw [splitFrom_cons hpair, if_neg hnot, ih hrest]
      simp

theorem splitTopLevel_topFree (h : TopFree delimiter 0 t) (hne : t ≠ []) :
    splitTopLevel t delimiter = [t] := by
  rw [splitTopLevel, splitFrom_topFree h, List.nil_append, if_neg hne]

theorem topFree_pair {b : Char} (hb : b ∈ ['{', '}']) : TopFree delimiter depth (b :: b :: cs) ↔
    TopFree delimiter (if b = '{' then depth + 1 else depth - 1) cs := by
  simp only [List.mem_cons, List.not_mem_nil, or_false] at hb
  rcases hb with rfl | rfl
  · rw [TopFree, if_pos rfl]
  · rw [TopFree, if_neg (by decide)]

theorem not_delimiter (hd : delimiter.head? = some ' ') {c : Char} (hc : c ≠ ' ') :
    ¬ (depth = 0 ∧ delimiter <+: c :: cs) := by
  rintro ⟨-, r, hr⟩
  cases delimiter with
  | nil => cases hd
  | cons d ds =>
      cases hd
      cases hr
      exact hc rfl

theorem topFree_prefix_pair {b : Char} (hb : b ∈ ['{', '}']) (hd : delimiter.head? = some ' ')
    {x : List Char} (hx : x <+: b :: b :: cs)
    (ih : ∀ {y}, y <+: cs → TopFree delimiter (if b = '{' then depth + 1 else depth - 1) y) :
    TopFree delimiter depth x := by
  match x with
  | [] => trivial
  | [c] =>
      obtain rfl : c = b := (List.cons_prefix_cons.mp hx).1
      have hne : c ≠ ' ' := by
        rintro rfl
        simp at hb
      exact (topFree_cons (by simp [NoPair])).mpr ⟨not_delimiter hd hne, trivial⟩
  | c :: d :: x =>
      obtain ⟨rfl, htail⟩ := List.cons_prefix_cons.mp hx
      obtain ⟨rfl, hrest⟩ := List.cons_prefix_cons.mp htail
      exact (topFree_pair hb).mpr (ih hrest)

/-- A text without its last characters has no delimiter that it did not have. -/
theorem TopFree.of_prefix (hd : delimiter.head? = some ' ') (h : TopFree delimiter depth cs)
    {x : List Char} (hx : x <+: cs) : TopFree delimiter depth x := by
  induction depth, cs using TopFree.induct generalizing x with
  | case1 depth =>
      rw [List.prefix_nil.mp hx]
      trivial
  | case2 depth cs ih =>
      rw [TopFree] at h
      exact topFree_prefix_pair (by simp) hd hx (ih h)
  | case3 depth cs ih =>
      rw [TopFree] at h
      exact topFree_prefix_pair (by simp) hd hx (ih h)
  | case4 depth c cs hopen hclose ih =>
      obtain ⟨hnot, hrest⟩ := (topFree_cons (noPair_of hopen hclose)).mp h
      cases x with
      | nil => trivial
      | cons d x =>
          obtain ⟨rfl, htail⟩ := List.cons_prefix_cons.mp hx
          have hpair : NoPair d x := fun b hb hdb hhead =>
            noPair_of hopen hclose b hb hdb (by
              obtain ⟨r, rfl⟩ := htail
              cases x with
              | nil => cases hhead
              | cons e x => exact hhead)
          exact (topFree_cons hpair).mpr
            ⟨fun ⟨hzero, hprefix⟩ => hnot ⟨hzero, hprefix.trans hx⟩, ih hrest htail⟩

/-- A part is read up to a delimiter, so that it has none itself. -/
theorem splitFrom_parts :
    splitFrom delimiter 0 depth current cs = [] ∨ ∃ x parts,
      splitFrom delimiter 0 depth current cs = (current ++ x) :: parts ∧ x <+: cs ∧
        TopFree delimiter depth x ∧ ∀ p ∈ parts, p <:+: cs ∧ TopFree delimiter 0 p := by
  obtain ⟨n, hn⟩ : ∃ n, cs.length < n := ⟨_, Nat.lt_succ_self _⟩
  induction n generalizing depth current cs with
  | zero => omega
  | succ n ih =>
      match cs with
      | [] =>
          rw [splitFrom_nil]
          by_cases h : current = []
          · exact .inl (if_pos h)
          · exact .inr ⟨[], [], by rw [if_neg h, List.append_nil], List.prefix_rfl, trivial, nofun⟩
      | c :: cs =>
          have hlt : cs.length < n := by simpa using hn
          by_cases hpair : NoPair c cs
          swap
          · obtain ⟨b, hb, rfl, hhead⟩ : ∃ b ∈ ['{', '}'], c = b ∧ cs.head? = some b := by
              simpa [NoPair, -List.mem_cons] using hpair
            obtain ⟨cs, rfl⟩ : ∃ r, cs = c :: r := by
              cases cs with
              | nil => cases hhead
              | cons d r => exact ⟨r, by rw [Option.some.inj hhead]⟩
            have hsplit : splitFrom delimiter 0 depth current (c :: c :: cs) =
                splitFrom delimiter 0 (if c = '{' then depth + 1 else depth - 1) (current ++ [c, c]) cs := by
              simp only [List.mem_cons, List.not_mem_nil, or_false] at hb
              rcases hb with rfl | rfl
              · rw [splitFrom, if_pos rfl]
              · rw [splitFrom, if_neg (by decide)]
            rw [hsplit]
            have hlt' : cs.length < n := by
              simp only [List.length_cons] at hlt
              omega
            rcases ih hlt' with
              hnil | ⟨x, parts, hparts, hx, hfree, hrest⟩
            · exact .inl hnil
            · refine .inr ⟨c :: c :: x, parts, by rw [hparts]; simp, ?_, (topFree_pair hb).mpr hfree, ?_⟩
              · exact List.cons_prefix_cons.mpr ⟨rfl, List.cons_prefix_cons.mpr ⟨rfl, hx⟩⟩
              · intro p hp
                exact ⟨(hrest p hp).1.trans (List.suffix_append [c, c] cs).isInfix, (hrest p hp).2⟩
          rw [splitFrom_cons hpair]
          split
          · next hdelimiter =>
              refine .inr ⟨[], _, by rw [List.append_nil], List.nil_prefix, trivial, ?_⟩
              rw [splitFrom_skip, hdelimiter.1]
              have hsuffix := List.drop_suffix (delimiter.length - 1) cs
              rcases @ih [] _ 0 (hsuffix.length_le.trans_lt hlt) with
                hnil | ⟨x, parts, hparts, hx, hfree, hrest⟩
              · rw [hnil]
                nofun
              · rw [hparts, List.nil_append]
                have hwithin : ∀ {p}, p <:+: cs.drop (delimiter.length - 1) → p <:+: c :: cs :=
                  fun h => h.trans (hsuffix.isInfix.trans (List.suffix_cons c cs).isInfix)
                intro p hp
                rcases List.mem_cons.mp hp with rfl | hp
                · exact ⟨hwithin hx.isInfix, hfree⟩
                · exact ⟨hwithin (hrest p hp).1, (hrest p hp).2⟩
          · next hnot =>
              rcases @ih (current ++ [c]) _ depth hlt with
                hnil | ⟨x, parts, hparts, hx, hfree, hrest⟩
              · exact .inl hnil
              · have hprefix : c :: x <+: c :: cs := List.cons_prefix_cons.mpr ⟨rfl, hx⟩
                have hpair' : NoPair c x := fun b hb hc hhead => hpair b hb hc (by
                  obtain ⟨r, rfl⟩ := hx
                  cases x with
                  | nil => cases hhead
                  | cons e x => exact hhead)
                refine .inr ⟨c :: x, parts, by rw [hparts]; simp, hprefix,
                  (topFree_cons hpair').mpr ⟨fun ⟨hzero, h⟩ => hnot ⟨hzero, h.trans hprefix⟩, hfree⟩, ?_⟩
                intro p hp
                exact ⟨(hrest p hp).1.trans (List.suffix_cons c cs).isInfix, (hrest p hp).2⟩

theorem mem_splitTopLevel {p : List Char}
    (h : p ∈ splitTopLevel t delimiter) : p <:+: t ∧ TopFree delimiter 0 p := by
  rcases @splitFrom_parts delimiter [] t 0 with
    hnil | ⟨x, parts, hparts, hx, hfree, hrest⟩
  · rw [splitTopLevel, hnil] at h
    cases h
  · rw [splitTopLevel, hparts, List.nil_append] at h
    rcases List.mem_cons.mp h with rfl | h
    · exact ⟨hx.isInfix, hfree⟩
    · exact hrest p h

theorem TopFree.of_spaces (h : TopFree delimiter 0 (current ++ cs)) (hspace : ∀ c ∈ current, isSpace c = true) :
    TopFree delimiter 0 cs := by
  induction current with
  | nil => exact h
  | cons c current ih =>
      have hc := hspace c (by simp)
      have hpair : NoPair c (current ++ cs) := by
        intro b hb hcb
        rw [hcb] at hc
        simp only [List.mem_cons, List.not_mem_nil, or_false] at hb
        rcases hb with rfl | rfl <;> cases hc
      exact ih ((topFree_cons hpair).mp h).2 fun d hd => hspace d (by simp [hd])

theorem TopFree.trim (hd : delimiter.head? = some ' ') (h : TopFree delimiter 0 t) :
    TopFree delimiter 0 (trim t) := by
  have hparts : t.takeWhile isSpace ++ t.dropWhile isSpace = t := List.takeWhile_append_dropWhile
  have hdrop : TopFree delimiter 0 (t.dropWhile isSpace) := by
    have hspaces : ∀ c ∈ t.takeWhile isSpace, isSpace c = true := fun c hc => List.mem_takeWhile_imp hc
    exact TopFree.of_spaces (by rwa [hparts]) hspaces
  exact hdrop.of_prefix hd (List.rdropWhile_prefix _ _)

/-! ## Where the evaluation ends -/

/-- A condition that is not split any more. -/
def condition (vals : Values V ν) (payload : V) (part : List Char) : Outcome :=
  if trim part = [] then .valid else evaluateSingleExpression vals payload (trim part)

/-- Conditions up to the first that fails. -/
def conjunction (vals : Values V ν) (payload : V) (t : List Char) : Outcome :=
  if andText <:+: t then
    ((splitTopLevel t andText).map (condition vals payload)).find? (· ≠ .valid) |>.getD .valid
  else condition vals payload t

/-- Outside of braces there is each of its operators, as far as the conditions are looked at. -/
def ConjunctionEnds (vals : Values V ν) (payload : V) (t : List Char) : Prop :=
  ¬ orText <:+: t ∧ (andText <:+: t → splitTopLevel t andText ≠ [t] ∧
    ∀ before part after, splitTopLevel t andText = before ++ part :: after →
      (∀ p ∈ before, condition vals payload p = .valid) → ¬ andText <:+: trim part)

/-- The same for the alternatives, which are looked at up to the first that holds. -/
def FilterEnds (vals : Values V ν) (payload : V) (filter : List Char) : Prop :=
  let t := trim filter
  if orText <:+: t then splitTopLevel t orText ≠ [t] ∧
    ∀ before part after, splitTopLevel t orText = before ++ part :: after →
      (∀ p ∈ before, ∃ reason, conjunction vals payload (trim p) = .invalid reason) →
        ConjunctionEnds vals payload (trim part)
  else ConjunctionEnds vals payload t

theorem anyOf_spec {evaluate : List Char → Option Outcome} {outcome : List Char → Outcome}
    {failed : Outcome} {parts : List (List Char)}
    (h : ∀ p ∈ parts, ∀ o, evaluate (trim p) = some o → o = outcome p) :
    anyOf evaluate failed parts ≠ none ↔ ∀ before part after, parts = before ++ part :: after →
      (∀ p ∈ before, ∃ reason, outcome p = .invalid reason) → evaluate (trim part) ≠ none := by
  induction parts with
  | nil => simp [anyOf]
  | cons p parts ih =>
      have ih := ih fun q hq => h q (by simp [hq])
      constructor
      · intro hany before part after heq hbefore
        match before with
        | [] =>
            obtain ⟨rfl, -⟩ := List.cons.inj heq
            intro hnone
            rw [anyOf, hnone] at hany
            exact hany rfl
        | q :: before =>
            obtain ⟨rfl, hparts⟩ := List.cons.inj heq
            obtain ⟨reason, hreason⟩ := hbefore p (by simp)
            cases he : evaluate (trim p) with
            | none =>
                rw [anyOf, he] at hany
                exact absurd rfl hany
            | some o =>
                rw [h p (by simp) o he, hreason] at he
                rw [anyOf, he] at hany
                exact ih.mp hany before part after hparts fun q hq => hbefore q (by simp [hq])
      · intro hall
        have hfirst := hall [] p parts rfl nofun
        rw [anyOf]
        split
        · next reason hreason =>
            refine ih.mpr fun before part after heq hbefore =>
              hall (p :: before) part after (by rw [heq]; rfl) fun q hq => ?_
            rcases List.mem_cons.mp hq with rfl | hq
            · exact ⟨reason, (h q (by simp) _ hreason).symm⟩
            · exact hbefore q hq
        · exact hfirst

theorem allOf_spec {evaluate : List Char → Option Outcome} {outcome : List Char → Outcome}
    {parts : List (List Char)} (h : ∀ p ∈ parts, ∀ o, evaluate (trim p) = some o → o = outcome p) :
    allOf evaluate parts ≠ none ↔ ∀ before part after, parts = before ++ part :: after →
      (∀ p ∈ before, outcome p = .valid) → evaluate (trim part) ≠ none := by
  induction parts with
  | nil => simp [allOf]
  | cons p parts ih =>
      have ih := ih fun q hq => h q (by simp [hq])
      constructor
      · intro hany before part after heq hbefore
        match before with
        | [] =>
            obtain ⟨rfl, -⟩ := List.cons.inj heq
            intro hnone
            rw [allOf, hnone] at hany
            exact hany rfl
        | q :: before =>
            obtain ⟨rfl, hparts⟩ := List.cons.inj heq
            cases he : evaluate (trim p) with
            | none =>
                rw [allOf, he] at hany
                exact absurd rfl hany
            | some o =>
                rw [h p (by simp) o he, hbefore p (by simp)] at he
                rw [allOf, he] at hany
                exact ih.mp hany before part after hparts fun q hq => hbefore q (by simp [hq])
      · intro hall
        have hfirst := hall [] p parts rfl nofun
        rw [allOf]
        split
        · next hvalid =>
            refine ih.mpr fun before part after heq hbefore =>
              hall (p :: before) part after (by rw [heq]; rfl) fun q hq => ?_
            rcases List.mem_cons.mp hq with rfl | hq
            · exact (h q (by simp) _ hvalid).symm
            · exact hbefore q hq
        · exact hfirst

/-- What the conditions come to. -/
theorem allOf_outcome {evaluate : List Char → Option Outcome} {outcome : List Char → Outcome}
    {parts : List (List Char)} (h : ∀ p ∈ parts, ∀ o, evaluate (trim p) = some o → o = outcome p)
    {o : Outcome} (ho : allOf evaluate parts = some o) :
    o = ((parts.map outcome).find? (· ≠ .valid)).getD .valid := by
  induction parts with
  | nil =>
      cases ho
      rfl
  | cons p parts ih =>
      rw [allOf] at ho
      split at ho
      · next hvalid =>
          rw [List.map_cons, ← h p (by simp) _ hvalid, List.find?_cons_of_neg (by simp)]
          exact ih (fun q hq => h q (by simp [hq])) ho
      · next hother =>
          have heq := h p (by simp) o ho
          rw [List.map_cons, ← heq, List.find?_cons_of_pos, Option.getD_some]
          rw [ho] at hother
          simpa using hother

theorem trim_trim (cs : List Char) : trim (trim cs) = trim cs := Lib.trimBy_trimBy

theorem infix_of_trim {d : List Char} (h : d <:+: trim t) : d <:+: t :=
  h.trans ((List.rdropWhile_prefix _ _).isInfix.trans (List.dropWhile_suffix _).isInfix)

theorem ne_nil_of_found {d : List Char} (hd : delimiter.head? = some ' ') (h : delimiter <:+: d) : d ≠ [] := by
  rintro rfl
  rw [List.infix_nil.mp h] at hd
  cases hd

/-- A text of one part is evaluated again and again. -/
theorem evaluate_one_part {calls : ℕ} (htrim : trim t = t)
    (hone : orText <:+: t ∧ splitTopLevel t orText = [t] ∨
      ¬ orText <:+: t ∧ andText <:+: t ∧ splitTopLevel t andText = [t]) :
    evaluateWebhookFilter vals payload calls t = none := by
  have hne : t ≠ [] := by
    rcases hone with ⟨hor, -⟩ | ⟨-, hand, -⟩
    · exact ne_nil_of_found rfl hor
    · exact ne_nil_of_found rfl hand
  induction calls with
  | zero => rfl
  | succ calls ih =>
      rw [evaluateWebhookFilter]
      simp only [htrim, if_neg hne]
      rcases hone with ⟨hor, hsplit⟩ | ⟨hor, hand, hsplit⟩
      · rw [if_pos hor, hsplit, anyOf, htrim, ih]
      · rw [if_neg hor, if_pos hand, hsplit, allOf, htrim, ih]

theorem evaluate_condition {calls : ℕ} {p : List Char} (hor : ¬ orText <:+: trim p)
    (hand : ¬ andText <:+: trim p) :
    evaluateWebhookFilter vals payload (calls + 1) (trim p) = some (condition vals payload p) := by
  rw [evaluateWebhookFilter, condition]
  simp only [trim_trim, if_neg hor, if_neg hand]
  split <;> rfl

/-- A condition between the operators is evaluated at once, or never. -/
theorem evaluate_part {calls : ℕ} {p : List Char} (hor : ¬ orText <:+: t)
    (hp : p ∈ splitTopLevel t andText) :
    (∀ o, evaluateWebhookFilter vals payload calls (trim p) = some o →
      ¬ andText <:+: trim p ∧ o = condition vals payload p) ∧
    (¬ andText <:+: trim p →
      evaluateWebhookFilter vals payload (calls + 1) (trim p) = some (condition vals payload p)) := by
  obtain ⟨hwithin, hfree⟩ := mem_splitTopLevel hp
  have horp : ¬ orText <:+: trim p := fun h => hor ((infix_of_trim h).trans hwithin)
  refine ⟨fun o ho => ?_, evaluate_condition horp⟩
  have hand : ¬ andText <:+: trim p := by
    intro hand
    have hsplit := splitTopLevel_topFree (hfree.trim rfl) (ne_nil_of_found rfl hand)
    rw [evaluate_one_part (trim_trim p) (.inr ⟨horp, hand, hsplit⟩)] at ho
    cases ho
  cases calls with
  | zero => cases ho
  | succ calls =>
      rw [evaluate_condition horp hand] at ho
      exact ⟨hand, (Option.some.inj ho).symm⟩

/-- A conjunction is evaluated in two calls, or never. -/
theorem evaluate_conjunction {calls : ℕ} (htrim : trim t = t)
    (hfree : orText <:+: t → splitTopLevel t orText = [t]) :
    (∀ o, evaluateWebhookFilter vals payload calls t = some o →
      ConjunctionEnds vals payload t ∧ o = conjunction vals payload t) ∧
    (ConjunctionEnds vals payload t →
      evaluateWebhookFilter vals payload (calls + 2) t = some (conjunction vals payload t)) := by
  by_cases hor : orText <:+: t
  · refine ⟨fun o ho => ?_, fun hends => absurd hor hends.1⟩
    rw [evaluate_one_part htrim (.inl ⟨hor, hfree hor⟩)] at ho
    cases ho
  by_cases hand : andText <:+: t
  swap
  · have heval : ∀ calls, evaluateWebhookFilter vals payload (calls + 1) t = some (condition vals payload t) := by
      intro calls
      rw [← evaluate_condition (by rwa [htrim]) (by rwa [htrim]), htrim]
    rw [conjunction, if_neg hand]
    refine ⟨fun o ho => ⟨⟨hor, fun h => absurd h hand⟩, ?_⟩, fun _ => heval (calls + 1)⟩
    cases calls with
    | zero => cases ho
    | succ calls =>
        rw [heval] at ho
        exact (Option.some.inj ho).symm
  have hstep : ∀ calls, evaluateWebhookFilter vals payload (calls + 1) t =
      allOf (evaluateWebhookFilter vals payload calls) (splitTopLevel t andText) := by
    intro calls
    rw [evaluateWebhookFilter]
    simp only [htrim]
    rw [if_neg (ne_nil_of_found rfl hand), if_neg hor, if_pos hand]
  have hparts : ∀ calls, ∀ p ∈ splitTopLevel t andText, ∀ o,
      evaluateWebhookFilter vals payload calls (trim p) = some o → o = condition vals payload p :=
    fun calls p hp o ho => ((evaluate_part hor hp).1 o ho).2
  rw [conjunction, if_pos hand]
  constructor
  · intro o ho
    cases calls with
    | zero => cases ho
    | succ calls =>
        rw [hstep] at ho
        have hspec := (allOf_spec (hparts calls)).mp (by rw [ho]; simp)
        refine ⟨⟨hor, fun _ => ⟨fun hone => ?_, fun before part after heq hbefore => ?_⟩⟩,
          allOf_outcome (hparts calls) ho⟩
        · rw [← hstep, evaluate_one_part htrim (.inr ⟨hor, hand, hone⟩)] at ho
          cases ho
        · obtain ⟨o', ho'⟩ := Option.ne_none_iff_exists'.mp (hspec before part after heq hbefore)
          exact ((evaluate_part hor (by rw [heq]; simp)).1 o' ho').1
  · rintro ⟨-, hends⟩
    obtain ⟨-, hends⟩ := hends hand
    have hsome : allOf (evaluateWebhookFilter vals payload (calls + 1)) (splitTopLevel t andText) ≠ none := by
      refine (allOf_spec (hparts (calls + 1))).mpr fun before part after heq hbefore => ?_
      rw [(evaluate_part hor (by rw [heq]; simp)).2 (hends before part after heq hbefore)]
      simp
    obtain ⟨o, ho⟩ := Option.ne_none_iff_exists'.mp hsome
    rw [hstep, ho, allOf_outcome (hparts (calls + 1)) ho]

/-- **A filter is evaluated in three calls, or never.** -/
theorem evaluate_ends {calls : ℕ} {filter : List Char} :
    (evaluateWebhookFilter vals payload calls filter ≠ none → FilterEnds vals payload filter) ∧
    (FilterEnds vals payload filter → evaluateWebhookFilter vals payload (calls + 3) filter ≠ none) := by
  have htrims : ∀ calls, evaluateWebhookFilter vals payload calls filter =
      evaluateWebhookFilter vals payload calls (trim filter) := by
    intro calls
    cases calls with
    | zero => rfl
    | succ calls => simp only [evaluateWebhookFilter, trim_trim]
  rw [htrims, htrims]
  by_cases hor : orText <:+: trim filter
  swap
  · rw [FilterEnds, if_neg hor]
    constructor
    · intro hsome
      obtain ⟨o, ho⟩ := Option.ne_none_iff_exists'.mp hsome
      exact ((evaluate_conjunction (trim_trim filter) fun h => absurd h hor).1 o ho).1
    · intro hends
      rw [(evaluate_conjunction (trim_trim filter) fun h => absurd h hor).2 hends]
      simp
  have hstep : ∀ calls, evaluateWebhookFilter vals payload (calls + 1) (trim filter) =
      anyOf (evaluateWebhookFilter vals payload calls)
        (.invalid ("No OR condition matched: ".toList ++ trim filter)) (splitTopLevel (trim filter) orText) := by
    intro calls
    rw [evaluateWebhookFilter]
    simp only [trim_trim]
    rw [if_neg (ne_nil_of_found rfl hor), if_pos hor]
  have hpart : ∀ p ∈ splitTopLevel (trim filter) orText, orText <:+: trim p →
      splitTopLevel (trim p) orText = [trim p] := fun p hp h =>
    splitTopLevel_topFree ((mem_splitTopLevel hp).2.trim rfl) (ne_nil_of_found rfl h)
  have hparts : ∀ calls, ∀ p ∈ splitTopLevel (trim filter) orText, ∀ o,
      evaluateWebhookFilter vals payload calls (trim p) = some o → o = conjunction vals payload (trim p) :=
    fun calls p hp o ho => ((evaluate_conjunction (trim_trim p) (hpart p hp)).1 o ho).2
  rw [FilterEnds, if_pos hor]
  constructor
  · intro hsome
    cases calls with
    | zero => exact absurd rfl hsome
    | succ calls =>
        have hspec := (anyOf_spec (hparts calls)).mp (by rwa [← hstep])
        refine ⟨fun hone => hsome (evaluate_one_part (trim_trim filter) (.inl ⟨hor, hone⟩)),
          fun before part after heq hbefore => ?_⟩
        obtain ⟨o, ho⟩ := Option.ne_none_iff_exists'.mp (hspec before part after heq hbefore)
        exact ((evaluate_conjunction (trim_trim part) (hpart part (by rw [heq]; simp))).1 o ho).1
  · rintro ⟨-, hends⟩
    rw [hstep]
    refine (anyOf_spec (hparts (calls + 2))).mpr fun before part after heq hbefore => ?_
    rw [(evaluate_conjunction (trim_trim part) (hpart part (by rw [heq]; simp))).2
      (hends before part after heq hbefore)]
    simp

theorem terminates_iff {filter : List Char} : Terminates vals payload filter ↔ FilterEnds vals payload filter :=
  ⟨fun ⟨_, h⟩ => evaluate_ends.1 h, fun h => ⟨3, evaluate_ends.2 h⟩⟩

end Evaluation

end RedFireForge.Correlation.WebhookFilter
