/-
# `RedFireForge.Workflow.WaitCondition` — the condition of a wait node

`evaluateWaitCondition` resolves the whole expression and then looks for an operator in the text,
in a fixed order of operators.  A text that a variable holds takes part in this: the operator of
the node is found only where none before it in the order occurs, and it itself not earlier.
-/
import RedFireForge.Lib.Scan
import RedFireForge.Workflow.VariableContext

namespace RedFireForge.Workflow.Variables

open RedFireForge.Lib
open RedFireForge.ApiMock (trim isSpace)

/-! ## Placeholders -/

/-- `/\{\{([^}]+)\}\}/` at the start of a text: the key, and the text after it. -/
def placeholder : List Char → Option (List Char × List Char)
  | '{' :: '{' :: cs =>
      match cs.takeWhile (· ≠ '}'), cs.dropWhile (· ≠ '}') with
      | [], _ => none
      | key, '}' :: '}' :: rest => some (key, rest)
      | _, _ => none
  | _ => none

/-- `template.replace(/\{\{([^}]+)\}\}/g, …)`, with the value of a key. -/
def replacePlaceholders (value : List Char → List Char) (template : List Char) : List Char :=
  replaceAll placeholder value template

/-- `expression` gives the text for what starts with a dollar sign: generators and functions. -/
def VariableContext.placeholderValue (c : VariableContext) (expression : String → String) (key : List Char) : List Char :=
  let whole := '{' :: '{' :: (key ++ ['}', '}'])
  let trimmed := String.ofList (trim key)
  if trimmed.toList.head? = some '$' then (expression trimmed).toList
  else
    match parseNodeScopedInner trimmed with
    | some p => ((c.resolveParsedScoped p).map String.toList).getD whole
    | none => ((c.get trimmed).map String.toList).getD whole

def VariableContext.resolve (c : VariableContext) (expression : String → String) (template : List Char) : List Char :=
  replacePlaceholders (c.placeholderValue expression) template

/-! ## Operators -/

inductive WaitOperator
  | eq | ne | ge | le | gt | lt | contains | notContains
deriving DecidableEq, Repr

def WaitOperator.text : WaitOperator → String
  | .eq => "=="
  | .ne => "!="
  | .ge => ">="
  | .le => "<="
  | .gt => ">"
  | .lt => "<"
  | .contains => "contains"
  | .notContains => "!contains"

def WAIT_CONDITION_OPERATORS : List WaitOperator := [.eq, .ne, .ge, .le, .gt, .lt, .contains, .notContains]

/-- The operator between single blanks. -/
def WaitOperator.spaced (op : WaitOperator) : List Char := ' ' :: (op.text.toList ++ [' '])

section Evaluate

-- `parseFloat` has `none` for `NaN`, and the test of a regular expression `none` for what it throws.
variable {N : Type} [LinearOrder N] (parseFloat : String → Option N) (regexTest : String → String → Option Bool)

/-- A comparison with `NaN` is false. -/
def compareNumbers (r : N → N → Bool) (left right : String) : Bool :=
  match parseFloat left, parseFloat right with
  | some l, some r' => r l r'
  | _, _ => false

def compareValues (left right operator : String) : Bool :=
  if operator = "==" ∨ operator = "===" then left == right
  else if operator = "!=" ∨ operator = "!==" then left != right
  else if operator = ">" then compareNumbers parseFloat (fun l r => decide (l > r)) left right
  else if operator = "<" then compareNumbers parseFloat (fun l r => decide (l < r)) left right
  else if operator = ">=" then compareNumbers parseFloat (fun l r => decide (l ≥ r)) left right
  else if operator = "<=" then compareNumbers parseFloat (fun l r => decide (l ≤ r)) left right
  else if operator = "contains" then decide (right.toList <:+: left.toList)
  else if operator = "not-contains" ∨ operator = "!contains" then !decide (right.toList <:+: left.toList)
  else if operator = "regex" then (regexTest left right).getD false
  else false

/-- The operator that the loop ends with, and the texts before and after it. -/
def waitSplit (resolved : List Char) : Option (List Char × WaitOperator × List Char) :=
  WAIT_CONDITION_OPERATORS.findSome? fun op =>
    (indexOf op.spaced resolved).map fun idx => (resolved.take idx, op, resolved.drop (idx + op.text.length + 2))

def evaluateWaitCondition (c : VariableContext) (expression : String → String) (condition : List Char) : Bool :=
  if trim condition = [] then false
  else
    let resolved := c.resolve expression condition
    match waitSplit resolved with
    | some (left, op, right) =>
        compareValues parseFloat regexTest (String.ofList (trim left)) (String.ofList (trim right)) op.text
    | none =>
        let val := (String.ofList (trim resolved)).toLower
        decide (val ≠ "" ∧ val ≠ "false" ∧ val ≠ "0" ∧ val ≠ "null" ∧ val ≠ "undefined")

end Evaluate

/-! ## Placeholders of a part -/

variable {value : List Char → List Char} {left after key rest cs : List Char}

theorem placeholder_eq_some_iff : placeholder cs = some (key, rest) ↔
    cs = '{' :: '{' :: (key ++ '}' :: '}' :: rest) ∧ key ≠ [] ∧ '}' ∉ key := by
  constructor
  · intro h
    unfold placeholder at h
    split at h
    next cs =>
      split at h
      next => cases h
      next rest' hdrop hkey =>
        obtain ⟨rfl, rfl⟩ := Prod.mk.inj (Option.some.inj h)
        refine ⟨by rw [← hdrop, List.takeWhile_append_dropWhile], hkey, fun hmem => ?_⟩
        have hne := List.mem_takeWhile_imp hmem
        simp at hne
      next => cases h
    next => cases h
  · rintro ⟨rfl, hkey, hmem⟩
    obtain ⟨d, ds, hds⟩ := List.exists_cons_of_ne_nil hkey
    rw [placeholder, takeWhile_append_cons hmem, dropWhile_append_cons hmem, hds]
    rfl

theorem shrinks_placeholder : Shrinks placeholder := by
  intro l key rest h
  obtain ⟨rfl, -, -⟩ := placeholder_eq_some_iff.mp h
  simp only [List.length_cons, List.length_append]
  omega

theorem replacePlaceholders_some {c : Char} (h : placeholder (c :: cs) = some (key, rest)) :
    replacePlaceholders value (c :: cs) = value key ++ replacePlaceholders value rest := by
  rw [replacePlaceholders, replaceAll, scan_some shrinks_placeholder h]
  rfl

theorem replacePlaceholders_none {c : Char} (h : placeholder (c :: cs) = none) :
    replacePlaceholders value (c :: cs) = c :: replacePlaceholders value cs := by
  rw [replacePlaceholders, replaceAll, scan_none h]
  rfl

/-- A placeholder begins in the one text and ends in the other. -/
def Spans (left after : List Char) : Prop :=
  ∃ u v w rest : List Char, left = u ++ '{' :: '{' :: v ∧ after = w ++ '}' :: '}' :: rest ∧ '}' ∉ v ∧ '}' ∉ w

theorem not_spans_of_append {u : List Char} (h : ¬ Spans (u ++ left) after) : ¬ Spans left after := by
  rintro ⟨u', v, w, rest, rfl, hafter⟩
  exact h ⟨u ++ u', v, w, rest, (List.append_assoc _ _ _).symm, hafter⟩

/-- What is no placeholder does not become one with what follows a blank, if none spans it. -/
theorem placeholder_append_none (hspan : ¬ Spans left after) (hblank : after.head? = some ' ')
    (h : placeholder left = none) : placeholder (left ++ after) = none := by
  cases hp : placeholder (left ++ after) with
  | none => rfl
  | some p =>
      obtain ⟨key, rest⟩ := p
      obtain ⟨htext, hkey, hmem⟩ := placeholder_eq_some_iff.mp hp
      have htext' : left ++ after = '{' :: '{' :: (key ++ ['}', '}']) ++ rest := by
        rw [htext]
        simp
      obtain ⟨m, hleft, hafter⟩ | ⟨m, hleft, -⟩ := List.append_eq_append_iff.mp htext'
      · -- the text ends within the placeholder
        rw [hafter] at hblank
        match left with
        | [] =>
            cases hleft
            cases hblank
        | [_] =>
            cases hleft
            cases hblank
        | c :: d :: ds =>
            rw [List.cons_append, List.cons_append, List.cons.injEq, List.cons.injEq] at hleft
            obtain ⟨rfl, rfl, hleft⟩ := hleft
            obtain ⟨t, rfl, hm⟩ | ⟨t, rfl, rfl⟩ := List.append_eq_append_iff.mp hleft
            · match t with
              | [] =>
                  cases hm
                  cases hblank
              | [_] =>
                  cases hm
                  cases hblank
              | [_, _] =>
                  cases hm
                  have hp' : placeholder ('{' :: '{' :: (key ++ ['}', '}'])) = some (key, []) :=
                    placeholder_eq_some_iff.mpr ⟨rfl, hkey, hmem⟩
                  rw [h] at hp'
                  cases hp'
            · rw [List.mem_append, not_or] at hmem
              exact absurd ⟨[], ds, t, rest, rfl, by rw [hafter]; simp, hmem⟩ hspan
      · have hp' : placeholder left = some (key, m) := placeholder_eq_some_iff.mpr ⟨by rw [hleft]; simp, hkey, hmem⟩
        rw [h] at hp'
        cases hp'

theorem replacePlaceholders_append (hspan : ¬ Spans left after) (hblank : after.head? = some ' ') :
    replacePlaceholders value (left ++ after) = replacePlaceholders value left ++ replacePlaceholders value after := by
  induction hn : left.length using Nat.strong_induction_on generalizing left with
  | _ n ih =>
      subst hn
      cases left with
      | nil => rfl
      | cons c cs =>
          cases hp : placeholder (c :: cs) with
          | none =>
              have hp' := placeholder_append_none hspan hblank hp
              have hcs : ¬ Spans cs after := not_spans_of_append (u := [c]) hspan
              rw [List.cons_append] at hp' ⊢
              rw [replacePlaceholders_none hp', replacePlaceholders_none hp, ih _ (Nat.lt_succ_self _) hcs rfl, List.cons_append]
          | some p =>
              obtain ⟨key, rest⟩ := p
              obtain ⟨htext, hkey, hmem⟩ := placeholder_eq_some_iff.mp hp
              have hlt := shrinks_placeholder _ _ _ hp
              have hp' : placeholder (c :: (cs ++ after)) = some (key, rest ++ after) := by
                rw [placeholder_eq_some_iff, ← List.cons_append, htext]
                refine ⟨?_, hkey, hmem⟩
                simp
              have hrest : ¬ Spans rest after := by
                refine not_spans_of_append (u := '{' :: '{' :: (key ++ ['}', '}'])) ?_
                rw [htext] at hspan
                simpa using hspan
              rw [List.cons_append, replacePlaceholders_some hp', replacePlaceholders_some hp, ih _ hlt hrest rfl,
                List.append_assoc]

theorem replacePlaceholders_plain {l : List Char} (h : '{' ∉ l) :
    replacePlaceholders value (l ++ after) = l ++ replacePlaceholders value after := by
  induction l with
  | nil => rfl
  | cons c l ih =>
      rw [List.mem_cons, not_or] at h
      have hp : placeholder (c :: (l ++ after)) = none := by
        unfold placeholder
        split
        next heq => exact absurd (List.cons.inj heq).1.symm h.1
        next => rfl
      rw [List.cons_append, replacePlaceholders_none hp, ih h.2, List.cons_append]

/-! ## The operator of the node -/

section Split

variable {op : WaitOperator} {right : List Char}

/-- None of the operators that are looked for first occurs, and the operator itself not earlier. -/
def OperatorFirst (left : List Char) (op : WaitOperator) (right : List Char) : Prop :=
  (∀ op' ∈ WAIT_CONDITION_OPERATORS.takeWhile (· ≠ op), ¬ op'.spaced <:+: left ++ op.spaced ++ right) ∧
    ∀ i < left.length, ¬ op.spaced <+: (left ++ op.spaced ++ right).drop i

theorem brace_notMem_spaced (op : WaitOperator) : '{' ∉ op.spaced := by cases op <;> decide

theorem not_blank_spaced (op : WaitOperator) : ∃ d ∈ op.spaced, isSpace d = false := by
  cases op with
  | eq => exact ⟨'=', by decide, by decide⟩
  | ne => exact ⟨'=', by decide, by decide⟩
  | ge => exact ⟨'>', by decide, by decide⟩
  | le => exact ⟨'<', by decide, by decide⟩
  | gt => exact ⟨'>', by decide, by decide⟩
  | lt => exact ⟨'<', by decide, by decide⟩
  | contains => exact ⟨'c', by decide, by decide⟩
  | notContains => exact ⟨'c', by decide, by decide⟩

theorem length_spaced (op : WaitOperator) : op.spaced.length = op.text.length + 2 := by cases op <;> decide

/-- The operators before an operator, itself, and those after it. -/
theorem operators_split (op : WaitOperator) : ∃ after, WAIT_CONDITION_OPERATORS =
    WAIT_CONDITION_OPERATORS.takeWhile (· ≠ op) ++ op :: after := by
  cases op <;> exact ⟨_, rfl⟩

theorem waitSplit_of_first (h : OperatorFirst left op right) :
    waitSplit (left ++ op.spaced ++ right) = some (left, op, right) := by
  obtain ⟨after, hsplit⟩ := operators_split op
  have hindex : indexOf op.spaced (left ++ op.spaced ++ right) = some left.length := by
    refine indexOf_eq_some_iff.mpr ⟨?_, ?_, h.2⟩
    · rw [List.append_assoc, List.length_append]
      exact Nat.le_add_right _ _
    · rw [List.append_assoc, List.drop_left]
      exact List.prefix_append _ _
  have hdrop : (left ++ op.spaced ++ right).drop (left.length + op.text.length + 2) = right := by
    rw [Nat.add_assoc, ← length_spaced, ← List.length_append, List.drop_left]
  rw [waitSplit, hsplit, List.findSome?_append, List.findSome?_eq_none_iff.mpr, Option.none_or, List.findSome?_cons, hindex,
    Option.map_some, hdrop, List.append_assoc, List.take_left]
  intro op' hop'
  rw [indexOf_eq_none_iff.mpr (h.1 op' hop'), Option.map_none]

/-- A text is split only at an operator that it has, and at the first one. -/
theorem first_of_waitSplit {resolved : List Char} (h : waitSplit resolved = some (left, op, right)) :
    resolved = left ++ op.spaced ++ right ∧ OperatorFirst left op right := by
  rw [waitSplit] at h
  obtain ⟨before, op', after, hsplit, hfound, hbefore⟩ := List.findSome?_eq_some_iff.mp h
  obtain ⟨idx, hidx, hparts⟩ := Option.map_eq_some_iff.mp hfound
  obtain ⟨rfl, rfl, rfl⟩ : resolved.take idx = left ∧ op' = op ∧ resolved.drop (idx + op'.text.length + 2) = right := by
    simpa using hparts
  obtain ⟨hle, hat, hearlier⟩ := indexOf_spec hidx
  have htext : resolved = resolved.take idx ++ op'.spaced ++ resolved.drop (idx + op'.text.length + 2) := by
    rw [Nat.add_assoc, ← length_spaced, ← List.drop_drop, List.append_assoc, List.prefix_iff_eq_append.mp hat,
      List.take_append_drop]
  have hnotMem : op' ∉ before := by
    intro hmem
    rw [hbefore op' hmem] at hfound
    cases hfound
  refine ⟨htext, fun op hop => ?_, fun i hi => ?_⟩
  · rw [hsplit, takeWhile_append_cons hnotMem] at hop
    rw [← htext]
    exact indexOf_eq_none_iff.mp (Option.map_eq_none_iff.mp (hbefore op hop))
  · rw [← htext]
    rw [List.length_take] at hi
    exact hearlier i (lt_of_lt_of_le hi (min_le_left _ _))

theorem waitSplit_iff {resolved : List Char} : waitSplit resolved = some (left, op, right) ↔
    resolved = left ++ op.spaced ++ right ∧ OperatorFirst left op right := by
  refine ⟨first_of_waitSplit, ?_⟩
  rintro ⟨rfl, h⟩
  exact waitSplit_of_first h

end Split

section Node

variable {N : Type} [LinearOrder N] (parseFloat : String → Option N) (regexTest : String → String → Option Bool)
  (c : VariableContext) (expression : String → String) (left : List Char) (op : WaitOperator) (right : List Char)

/-- The text of the node is split at the operator that is written in it. -/
def SplitsAtNode : Prop :=
  waitSplit (c.resolve expression (left ++ op.spaced ++ right)) = some (c.resolve expression left, op, c.resolve expression right)

/-- The operator stays between the two sides and is the first that is looked for. -/
def NodeOperatorFirst : Prop :=
  c.resolve expression (left ++ op.spaced ++ right) =
      c.resolve expression left ++ op.spaced ++ c.resolve expression right ∧
    OperatorFirst (c.resolve expression left) op (c.resolve expression right)

/-- Where no placeholder spans the operator, it stays between the two sides. -/
theorem resolve_sides (h : ¬ Spans left (op.spaced ++ right)) :
    c.resolve expression (left ++ op.spaced ++ right) =
      c.resolve expression left ++ op.spaced ++ c.resolve expression right := by
  have hblank : (op.spaced ++ right).head? = some ' ' := by cases op <;> rfl
  rw [VariableContext.resolve, List.append_assoc, replacePlaceholders_append h hblank,
    replacePlaceholders_plain (brace_notMem_spaced op), List.append_assoc]
  rfl

theorem evaluateWaitCondition_of_split (h : SplitsAtNode c expression left op right) :
    evaluateWaitCondition parseFloat regexTest c expression (left ++ op.spaced ++ right) =
      compareValues parseFloat regexTest (String.ofList (trim (c.resolve expression left)))
        (String.ofList (trim (c.resolve expression right))) op.text := by
  have hblank : trim (left ++ op.spaced ++ right) ≠ [] := by
    obtain ⟨d, hd, hnot⟩ := not_blank_spaced op
    intro hnil
    have hspace := trimBy_eq_nil_iff.mp hnil d (List.mem_append_left _ (List.mem_append_right _ hd))
    rw [hnot] at hspace
    cases hspace
  rw [evaluateWaitCondition, if_neg hblank]
  dsimp only
  rw [h]

/-- **The node is split at its operator exactly if that is the first, and then the two sides are
compared.** -/
theorem evaluateWaitCondition_iff :
    (SplitsAtNode c expression left op right ↔ NodeOperatorFirst c expression left op right) ∧
      (NodeOperatorFirst c expression left op right →
        evaluateWaitCondition parseFloat regexTest c expression (left ++ op.spaced ++ right) =
          compareValues parseFloat regexTest (String.ofList (trim (c.resolve expression left)))
            (String.ofList (trim (c.resolve expression right))) op.text) :=
  ⟨waitSplit_iff, fun h => evaluateWaitCondition_of_split parseFloat regexTest c expression left op right (waitSplit_iff.mpr h)⟩

end Node

/-- `a == b x` contains `x`, but is split at its own `==`. -/
theorem value_split :
    let c := (VariableContext.new [] []).set "v" "a == b x"
    let left := ['{', '{', 'v', '}', '}']
    evaluateWaitCondition (fun _ => (none : Option ℕ)) (fun _ _ => none) c id (left ++ WaitOperator.contains.spaced ++ ['x']) = false ∧
      compareValues (fun _ => (none : Option ℕ)) (fun _ _ => none) (String.ofList (trim (c.resolve id left)))
        (String.ofList (trim (c.resolve id ['x']))) WaitOperator.contains.text = true := by
  decide

end RedFireForge.Workflow.Variables
