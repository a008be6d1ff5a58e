/-
# `RedFireForge.Workflow.PayloadTemplate` — payloads filled by generators

Translated from `payloadTemplateEngine.ts`.  A payload template is read once from left to
right; each generator expression in it is replaced by what the generator gives.  What is
drawn at random, and how dates and fractions are written, is left to the platform, anew for
each expression.  Only one generator can throw.
-/
import RedFireForge.Correlation.IpWhitelist
import RedFireForge.Lib.Scan

namespace RedFireForge.Workflow.PayloadTemplate

open RedFireForge.Lib
open RedFireForge.ApiMock (trim)
open RedFireForge.Correlation (parseInt)

structure PayloadGeneratorContext where
  requestIndex : ℕ
  timestamp : ℕ
  customVariables : Option (List (List Char × List Char)) := none

/-- What the platform gives one expression.  `none` for a bound is `NaN`. -/
structure Generators where
  generateUuid : List Char
  randomInt : Option ℤ → Option ℤ → List Char
  parseFloat : List Char → Option ℚ
  /-- the value drawn, with that many decimals -/
  randomFloat : Option ℚ → Option ℚ → ℕ → List Char
  randomEmail : List Char
  randomName : List Char
  randomPhone : List Char
  randomString : Option ℤ → List Char
  /-- an index below a length -/
  randomIndex : ℕ → ℕ
  isoDate : ℕ → List Char
  formatDate : ℕ → List Char → List Char
  sequenceCounter : ℕ

/-! ## Expressions -/

structure Expression where
  name : List Char
  argsStr : Option (List Char)
deriving DecidableEq

/-- `\w` -/
def isWordChar (c : Char) : Bool := c.isAlphanum || c == '_'

/-- `GENERATOR_PATTERN` at the start of a text, and the text after it. -/
def matchGenerator : List Char → Option (Expression × List Char)
  | '{' :: '{' :: '$' :: cs =>
      let name := cs.takeWhile isWordChar
      if name = [] then none
      else
        match cs.dropWhile isWordChar with
        | '}' :: '}' :: rest => some (⟨name, none⟩, rest)
        | '(' :: rest =>
            match rest.dropWhile (· ≠ ')') with
            | ')' :: '}' :: '}' :: after => some (⟨name, some (rest.takeWhile (· ≠ ')'))⟩, after)
            | _ => none
        | _ => none
  | _ => none

/-- Inside quotes the mark that ends them is held. -/
structure ArgState where
  args : List (List Char) := []
  current : List Char := []
  quote : Option Char := none

def parseArgsStep (s : ArgState) (char : Char) : ArgState :=
  match s.quote with
  | none =>
      if char = '"' ∨ char = '\'' then { s with quote := some char }
      else if char = ',' then { s with args := s.args ++ [trim s.current], current := [] }
      else { s with current := s.current ++ [char] }
  | some quoteChar =>
      if char = quoteChar then { s with quote := none }
      else { s with current := s.current ++ [char] }

def parseArgs (argsStr : Option (List Char)) : List (List Char) :=
  let s := (argsStr.getD []).foldl parseArgsStep {}
  if s.current = [] then s.args else s.args ++ [trim s.current]

/-- `args[i] ? read(args[i]) : default` -/
def argOr {α : Type} (args : List (List Char)) (i : ℕ) (read : List Char → α) (default : α) : α :=
  match args[i]? with
  | some arg => if arg = [] then default else read arg
  | none => default

/-! ## Generators -/

/-- The digits `toFixed` is asked for; `NaN` counts as none, and out of range it throws. -/
def toFixedDigits (decimals : Option ℤ) : Option ℕ :=
  match decimals with
  | none => some 0
  | some n => if n < 0 ∨ n > 100 then none else some n.toNat

def decimalText (n : ℕ) : List Char := Nat.toDigits 10 n

/-- `none` where it throws. -/
def evaluateGenerator (g : Generators) (e : Expression) (ctx : PayloadGeneratorContext) :
    Option (List Char) :=
  let args := parseArgs e.argsStr
  match String.ofList e.name with
  | "uuid" => some g.generateUuid
  | "randomInt" =>
      some (g.randomInt (argOr args 0 parseInt (some 0)) (argOr args 1 parseInt (some 100)))
  | "randomFloat" =>
      (toFixedDigits (argOr args 2 parseInt (some 2))).map
        (g.randomFloat (argOr args 0 g.parseFloat (some 0)) (argOr args 1 g.parseFloat (some 100)))
  | "randomEmail" => some g.randomEmail
  | "randomName" => some g.randomName
  | "randomPhone" => some g.randomPhone
  | "timestamp" => some (decimalText ctx.timestamp)
  | "timestampSec" => some (decimalText (ctx.timestamp / 1000))
  | "isoDate" => some (g.isoDate ctx.timestamp)
  | "date" => some (g.formatDate ctx.timestamp (argOr args 0 id "YYYY-MM-DD".toList))
  | "randomChoice" => some (args[g.randomIndex args.length]?.getD [])
  | "randomString" => some (g.randomString (argOr args 0 parseInt (some 10)))
  | "sequence" => some (decimalText g.sequenceCounter)
  | "requestIndex" => some (decimalText ctx.requestIndex)
  | _ =>
      match (ctx.customVariables.getD []).lookup e.name with
      | some value => some value
      | none =>
          let shown := match e.argsStr with
            | some argsStr => if argsStr = [] then [] else '(' :: argsStr ++ [')']
            | none => []
          some (['{', '{', '$'] ++ e.name ++ shown ++ ['}', '}'])

/-- The parts of a template one after another; expressions are numbered. -/
def fillParts (draws : ℕ → Generators) (ctx : PayloadGeneratorContext) :
    ℕ → List (Char ⊕ Expression) → Option (List Char)
  | _, [] => some []
  | n, .inl c :: ps => (fillParts draws ctx n ps).map (c :: ·)
  | n, .inr e :: ps =>
      (evaluateGenerator (draws n) e ctx).bind fun value =>
        (fillParts draws ctx (n + 1) ps).map (value ++ ·)

def expandPayloadTemplate (draws : ℕ → Generators) (template : List Char)
    (ctx : PayloadGeneratorContext) : Option (List Char) :=
  fillParts draws ctx 0 (scan matchGenerator template)

/-! ## What throws -/

/-- `randomFloat` with a third argument that is no number of decimals. -/
def Expression.throws (e : Expression) : Bool :=
  String.ofList e.name == "randomFloat" &&
    (toFixedDigits (argOr (parseArgs e.argsStr) 2 parseInt (some 2))).isNone

def Expandable (template : List Char) : Prop :=
  ∀ e, .inr e ∈ scan matchGenerator template → e.throws = false

instance (template : List Char) : Decidable (Expandable template) :=
  decidable_of_iff ((scan matchGenerator template).all (Sum.elim (fun _ => true) (fun e => !e.throws)) = true) (by
    rw [List.all_eq_true]
    constructor
    · intro hall e he
      simpa using hall (.inr e) he
    · intro hall p hp
      cases p with
      | inl c => rfl
      | inr e => simpa using hall e hp)

variable {draws : ℕ → Generators} {ctx : PayloadGeneratorContext}

theorem evaluateGenerator_eq_none {g : Generators} {e : Expression} :
    evaluateGenerator g e ctx = none ↔ e.throws = true := by
  unfold evaluateGenerator Expression.throws
  dsimp only
  split
  case h_15 _ _ _ hfloat _ _ _ _ _ _ _ _ _ _ _ =>
      have hname : (String.ofList e.name == "randomFloat") = false := beq_false_of_ne hfloat
      rw [hname]
      split <;> simp
  all_goals
    rename_i heq
    simp [heq]

theorem fillParts_eq_none {n : ℕ} {ps : List (Char ⊕ Expression)} :
    fillParts draws ctx n ps = none ↔ ∃ e, .inr e ∈ ps ∧ e.throws = true := by
  induction ps generalizing n with
  | nil => simp [fillParts]
  | cons p ps ih =>
      cases p with
      | inl c => simp [fillParts, ih]
      | inr e =>
          simp only [fillParts, Option.bind_eq_none_iff, Option.map_eq_none_iff, ih, List.mem_cons,
            Sum.inr.injEq]
          cases hvalue : evaluateGenerator (draws n) e ctx with
          | none => simpa using Or.inl (evaluateGenerator_eq_none.mp hvalue)
          | some value =>
              have hfine : e.throws = false := by
                by_contra hthrows
                have hnone : evaluateGenerator (draws n) e ctx = none :=
                  evaluateGenerator_eq_none.mpr (by simpa using hthrows)
                rw [hvalue] at hnone
                cases hnone
              simp [hfine]

/-- Whether a template can be filled does not depend on what is drawn. -/
theorem expandPayloadTemplate_eq_none {template : List Char} :
    expandPayloadTemplate draws template ctx = none ↔ ¬ Expandable template := by
  simp [expandPayloadTemplate, fillParts_eq_none, Expandable]

end RedFireForge.Workflow.PayloadTemplate
