/-
# `RedFireForge.Mapper.ValidationDsl` — validation rules as lines of text

The rules of a response are printed one to a line: the path, padded to a common width, then
`NOT`, an operator and a value.  The lines are sorted in four groups, each under a comment.
The reader takes a line apart again by white space and keywords.
-/
import Mathlib.Data.List.Infix
import Mathlib.Data.List.Lex
import Mathlib.Data.Nat.Basic
import RedFireForge.ApiMock.JsonPath

namespace RedFireForge.Mapper

open RedFireForge.Lib
open RedFireForge.ApiMock (isSpace trim)

local instance lawfulBEq_chars : LawfulBEq (List Char) := List.instLawfulBEq

/-! ## Rules -/

/-- `FieldOperator`; a text is taken for one without a check. -/
inductive FieldOperator
  | equals | notEquals | greaterThan | greaterThanOrEqual | lessThan | lessThanOrEqual
  | contains | notContains | startsWith | endsWith | regex
  | isTrue | isFalse | isNull | isNotNull | isEmpty | isNotEmpty
  | «exists» | notExists | isType | «in» | notIn | between | closeTo
  | other (text : List Char)
deriving DecidableEq, Repr

inductive ComparisonOperator
  | eq | ne | gt | ge | lt | le
deriving DecidableEq, Repr

inductive ContainsMode
  | any | all | only | none
deriving DecidableEq, Repr

structure ExpectedField where
  jsonPath : List Char
  expectedValue : List Char
  operator : Option FieldOperator := none
  operatorValue : Option (List Char) := none
  negate : Bool := false
  expression : Option (List Char) := none
deriving DecidableEq, Repr

/-- The assertions of `DSL_ASSERTION_TYPES`. -/
inductive Assertion (ν : Type)
  | typeCheck (jsonPath expectedType : List Char) (negate : Bool)
  | existence (jsonPath : List Char) (expectExists negate : Bool)
  | arrayLength (jsonPath : List Char) (operator : ComparisonOperator) (value : ν) (negate : Bool)
  | each (jsonPath fieldPath : List Char) (operator : FieldOperator) (value : Option (List Char))
      (negate : Bool)
  | arrayContains (jsonPath value : List Char) (mode : ContainsMode) (negate : Bool)
  | containsSubset (jsonPath expected : List Char) (negate : Bool)
  | custom (expression : List Char) (description : Option (List Char)) (negate : Bool)
deriving DecidableEq, Repr

structure DslModel (ν : Type) where
  fields : List ExpectedField
  assertions : List (Assertion ν)

inductive RuleKind
  | field | length | each | containsItem | subset | typeCheck | existence | custom
deriving DecidableEq, Repr

structure Rule where
  path : List Char
  operator : List Char
  value : Option (List Char)
  negate : Bool
  expression : Option (List Char)
  kind : RuleKind
deriving DecidableEq, Repr

structure ParsedRule extends Rule where
  lineNumber : ℕ
deriving DecidableEq, Repr

/-- What is wrong with a line. -/
structure Problem where
  column : Option ℕ
  message : List Char
deriving DecidableEq, Repr

structure ParseError extends Problem where
  lineNumber : ℕ
deriving DecidableEq, Repr

structure DslParseResult where
  rules : List ParsedRule
  errors : List ParseError
deriving DecidableEq, Repr

/-- A member of an object of texts and flags. -/
inductive Plain
  | text (t : List Char)
  | flag (b : Bool)

def Plain.json : Plain → Json
  | .text t => .str (String.ofList t)
  | .flag b => .bool b

/-- What the page is given by its runtime: `toLowerCase`, `JSON` and the numbers, other than
`NaN` and with one zero.  An array of objects of texts and flags is read back from its text; a
key of digits may change its place. -/
structure Runtime (ν : Type) where
  lower : List Char → List Char
  lower_ascii : ∀ w, (∀ c ∈ w, c.toNat < 128) → lower w = w.map Char.toLower
  zero : ν
  numberText : ν → List Char
  /-- `Number`, with `none` for `NaN` -/
  toNumber : List Char → Option ν
  numberText_chars : ∀ n, numberText n ≠ [] ∧
    ∀ c ∈ numberText n, isSpace c = false ∧ c ∉ ['>', '<', '=', '!']
  toNumber_numberText : ∀ n, toNumber (numberText n) = some n
  parse : List Char → Option Json
  /-- `JSON.stringify(_, null, 2)` -/
  stringify : Json → List Char
  parse_stringify : ∀ rows : List (List (String × Plain)),
    (∀ row ∈ rows, (row.map Prod.fst).Nodup ∧ ∀ m ∈ row, m.1.toList.any Char.isDigit = false) →
    let j := Json.arr (rows.map fun row => .obj (row.map fun m => (m.1, m.2.json)))
    parse (stringify j) = some j

/-! ## Operators -/

namespace FieldOperator

/-- The operators with their names. -/
def names : List (List Char × FieldOperator) :=
  [("equals".toList, equals), ("not_equals".toList, notEquals),
    ("greater_than".toList, greaterThan), ("greater_than_or_equal".toList, greaterThanOrEqual),
    ("less_than".toList, lessThan), ("less_than_or_equal".toList, lessThanOrEqual),
    ("contains".toList, contains), ("not_contains".toList, notContains),
    ("starts_with".toList, startsWith), ("ends_with".toList, endsWith), ("regex".toList, regex),
    ("is_true".toList, isTrue), ("is_false".toList, isFalse), ("is_null".toList, isNull),
    ("is_not_null".toList, isNotNull), ("is_empty".toList, isEmpty),
    ("is_not_empty".toList, isNotEmpty), ("exists".toList, «exists»),
    ("not_exists".toList, notExists), ("is_type".toList, isType), ("in".toList, «in»),
    ("not_in".toList, notIn), ("between".toList, between), ("close_to".toList, closeTo)]

def ofText (text : List Char) : FieldOperator := (names.lookup text).getD (other text)

def text : FieldOperator → List Char
  | equals => "equals".toList
  | notEquals => "not_equals".toList
  | greaterThan => "greater_than".toList
  | greaterThanOrEqual => "greater_than_or_equal".toList
  | lessThan => "less_than".toList
  | lessThanOrEqual => "less_than_or_equal".toList
  | contains => "contains".toList
  | notContains => "not_contains".toList
  | startsWith => "starts_with".toList
  | endsWith => "ends_with".toList
  | regex => "regex".toList
  | isTrue => "is_true".toList
  | isFalse => "is_false".toList
  | isNull => "is_null".toList
  | isNotNull => "is_not_null".toList
  | isEmpty => "is_empty".toList
  | isNotEmpty => "is_not_empty".toList
  | «exists» => "exists".toList
  | notExists => "not_exists".toList
  | isType => "is_type".toList
  | «in» => "in".toList
  | notIn => "not_in".toList
  | between => "between".toList
  | closeTo => "close_to".toList
  | other text => text

/-- `OPERATOR_TO_KEYWORD[op] ?? op` -/
def keyword : FieldOperator → List Char
  | greaterThan => ">".toList
  | greaterThanOrEqual => ">=".toList
  | lessThan => "<".toList
  | lessThanOrEqual => "<=".toList
  | o => o.text

/-- `NO_VALUE_OPERATORS` -/
def noValue : FieldOperator → Bool
  | isTrue | isFalse | isNull | isNotNull | isEmpty | isNotEmpty | «exists» | notExists => true
  | _ => false

/-- `listOperators` -/
def isList : FieldOperator → Bool
  | «in» | notIn | between | closeTo => true
  | _ => false

end FieldOperator

/-- `FIELD_OPERATOR_KEYWORDS`; what the object inherits is left out. -/
def fieldOperatorKeywords : List (List Char × FieldOperator) :=
  FieldOperator.names ++
    [("=".toList, .equals), ("!=".toList, .notEquals), (">".toList, .greaterThan),
      (">=".toList, .greaterThanOrEqual), ("<".toList, .lessThan),
      ("<=".toList, .lessThanOrEqual)]

def ComparisonOperator.text : ComparisonOperator → List Char
  | eq => "=".toList
  | ne => "!=".toList
  | gt => ">".toList
  | ge => ">=".toList
  | lt => "<".toList
  | le => "<=".toList

/-- `COMPARISON_OP_MAP` -/
def comparisonOpMap : List (List Char × ComparisonOperator) :=
  [("=".toList, .eq), ("==".toList, .eq), ("!=".toList, .ne), (">".toList, .gt),
    (">=".toList, .ge), ("<".toList, .lt), ("<=".toList, .le)]

def ContainsMode.keyword : ContainsMode → List Char
  | any => "contains_any".toList
  | all => "contains_all".toList
  | only => "contains_only".toList
  | none => "contains_none".toList

/-- `contains_item` is an older name of `contains_any`. -/
def containsKeywords : List (List Char) :=
  "contains_item".toList :: [ContainsMode.any, .all, .only, .none].map ContainsMode.keyword

/-! ## Reading a line -/

/-- The end of a line, which `.` does not match. -/
def lineEnd (c : Char) : Bool := c.toNat ∈ [10, 13, 0x2028, 0x2029]

/-- `(.*)` -/
def restOfLine (cs : List Char) : List Char := cs.takeWhile (!lineEnd ·)

/-- `/^(\S+)\s+(.*)/` -/
def splitWord (cs : List Char) : Option (List Char × List Char) :=
  let word := cs.takeWhile (!isSpace ·)
  let rest := cs.dropWhile (!isSpace ·)
  if word = [] ∨ rest = [] then none else some (word, restOfLine (rest.dropWhile isSpace))

/-- What follows a keyword, which may stand in any case. -/
def dropKeyword (keyword cs : List Char) : Option (List Char) :=
  if (cs.take keyword.length).map Char.toUpper = keyword then some (cs.drop keyword.length) else none

/-- What follows `/^NOT\s+/i`. -/
def stripNot (cs : List Char) : Option (List Char) :=
  (dropKeyword "NOT".toList cs).bind fun rest =>
    if (rest.head?.any isSpace) = true then some (rest.dropWhile isSpace) else none

/-- `/^(NOT\s+)?ASSERT\s*(.*)?$/i` -/
def assertMatch (cs : List Char) : Option (Bool × List Char) :=
  (dropKeyword "ASSERT".toList ((stripNot cs).getD cs)).bind fun rest =>
    let after := rest.dropWhile isSpace
    if after.any lineEnd then none else some ((stripNot cs).isSome, after)

/-- The first `//` after the first character that has something after it, in a text that
starts no line: `/^(.+?)\s*\/\/\s*(.+)$/`, both sides trimmed. -/
def splitDescription : List Char → Option (List Char × List Char)
  | [] => none
  | c :: cs =>
      match cs with
      | '/' :: '/' :: d :: ds => some ([c], d :: ds)
      | _ => (splitDescription cs).map fun (e, ds) => (c :: e, ds)

def parseAssert (negate : Bool) (after : List Char) : Except Problem Rule :=
  let afterAssert := trim after
  if afterAssert = [] then .error ⟨none, "ASSERT requires an expression".toList⟩
  else
    let value := match splitDescription afterAssert with
      | some (expression, description) => trim expression ++ '\n' :: trim description
      | none => afterAssert
    .ok ⟨"(custom)".toList, "assert".toList, some value, negate, none, .custom⟩

def tokenizeLine (line : List Char) : Option (List Char × List Char) :=
  let trimmed := trim line
  if trimmed = [] ∨ ['#'] <+: trimmed then none
  else some (((splitWord trimmed).map fun (path, rest) => (path, trim rest)).getD (trimmed, []))

/-- An empty text counts as none. -/
def nonempty (cs : List Char) : Option (List Char) := if cs = [] then none else some cs

def parseOperatorAndValue (rest : List Char) : List Char × Option (List Char) :=
  ((splitWord rest).map fun (operator, value) => (operator, nonempty (trim value))).getD (rest, none)

/-- `/\\(.)/g` -/
def unescape : List Char → List Char
  | '\\' :: c :: cs => if lineEnd c then '\\' :: c :: unescape cs else c :: unescape cs
  | c :: cs => c :: unescape cs
  | [] => []

/-- The text between two marks; one mark alone is both. -/
def isQuoted (mark : Char) (cs : List Char) : Bool := cs.head? == some mark && cs.getLast? == some mark

def unquote (value : List Char) : List Char :=
  if isQuoted '"' value || isQuoted '\'' value then unescape (value.drop 1).dropLast else value

/-- The code units of a character. -/
def codeUnits (c : Char) : List ℕ :=
  if c.toNat < 0x10000 then [c.toNat]
  else [0xD800 + (c.toNat - 0x10000) / 0x400, 0xDC00 + (c.toNat - 0x10000) % 0x400]

def utf16 (cs : List Char) : List ℕ := cs.flatMap codeUnits

/-- The characters that lie within the first units; a pair that is cut is left out. -/
def firstUnits : ℕ → List Char → List Char
  | _, [] => []
  | n, c :: cs => if (codeUnits c).length ≤ n then c :: firstUnits (n - (codeUnits c).length) cs else []

def preview (cs : List Char) : List Char :=
  if 40 < (utf16 cs).length then firstUnits 40 cs ++ ['…'] else cs

/-- `/^([><=!]+)\s*(.*)/` -/
def isComparisonChar (c : Char) : Bool := c ∈ ['>', '<', '=', '!']

def parseLength (path : List Char) (rawValue : Option (List Char)) (negate : Bool) :
    Except Problem Rule :=
  match rawValue with
  | none => .error ⟨none, "Missing comparison after \"length\"".toList⟩
  | some rawValue =>
      let comparison := rawValue.takeWhile isComparisonChar
      if comparison = [] then
        .error ⟨none, "Invalid length comparison: ".toList ++ rawValue⟩
      else
        let value := restOfLine ((rawValue.dropWhile isComparisonChar).dropWhile isSpace)
        .ok ⟨path, "length ".toList ++ comparison, some (trim value), negate, none, .length⟩

def parseEach (path : List Char) (rawValue : Option (List Char)) (negate : Bool) :
    Except Problem Rule :=
  match rawValue with
  | none => .error ⟨none, "Missing operator after \"each\"".toList⟩
  | some rawValue =>
      let operator := rawValue.takeWhile (!isSpace ·)
      let value := restOfLine ((rawValue.dropWhile (!isSpace ·)).dropWhile isSpace)
      .ok ⟨path, "each ".toList ++ operator, nonempty (trim value), negate, none, .each⟩

/-- A value that is to be an object or an array is parsed. -/
def looksNested (value : List Char) : Bool := value.head? == some '\x7b' || value.head? == some '['

variable {ν : Type} (rt : Runtime ν)

def parseContains (opLower path : List Char) (rawValue : Option (List Char)) (negate : Bool) :
    Except Problem Rule :=
  let rule : Rule := ⟨path, opLower, rawValue, negate, none, .containsItem⟩
  match rawValue with
  | none => .ok rule
  | some rawValue =>
      let trimVal := trim rawValue
      if (looksNested trimVal || trimVal.head? == some '"') = false then
        .error ⟨some 1, opLower ++
          " value must be JSON: \x7b\"field\": \"value\"\x7d, [\"item\"], or \"literal\" — got: ".toList ++
            preview trimVal⟩
      else if looksNested trimVal ∧ (rt.parse trimVal).isNone then
        .error ⟨some 1, "Invalid JSON in ".toList ++ opLower ++ " value: ".toList ++ preview trimVal⟩
      else .ok rule

def parseSubset (path : List Char) (rawValue : Option (List Char)) (negate : Bool) :
    Except Problem Rule :=
  let rule : Rule := ⟨path, "subset".toList, rawValue, negate, none, .subset⟩
  match rawValue with
  | none => .ok rule
  | some rawValue =>
      let trimVal := trim rawValue
      if looksNested trimVal then
        if (rt.parse trimVal).isNone then
          .error ⟨some 1, "Invalid JSON in subset value: ".toList ++ preview trimVal⟩
        else .ok rule
      else if trimVal.head? ≠ some '"' then
        .error ⟨some 1, "subset value must be JSON: \x7b\"field\": \"value\"\x7d — got: ".toList ++
          preview trimVal⟩
      else .ok rule

/-- `path.includes('[*]')` -/
def hasStar (path : List Char) : Bool := decide ("[*]".toList <:+: path)

/-- A value as it is kept: that of a list operator is not unquoted. -/
def storedValue (op : FieldOperator) (rawValue : Option (List Char)) : Option (List Char) :=
  rawValue.map fun value => if op.isList then value else unquote value

/-- The rule of a field operator. -/
def fieldRule (op : FieldOperator) (rawOp path : List Char) (rawValue : Option (List Char))
    (negate : Bool) : Except Problem Rule :=
  if op.noValue = false ∧ rawValue = none then
    .error ⟨none, "Operator \"".toList ++ rawOp ++ "\" requires a value".toList⟩
  else if op = .isType then .ok ⟨path, op.text, rawValue, negate, none, .typeCheck⟩
  else if op = .exists ∨ op = .notExists then .ok ⟨path, op.text, none, negate, none, .existence⟩
  else if hasStar path then
    .ok ⟨path, "each ".toList ++ op.text, storedValue op rawValue, negate, none, .each⟩
  else if "expr:".toList <+: rawValue.getD [] then
    .ok ⟨path, op.text, none, negate, some ((rawValue.getD []).drop 5), .field⟩
  else .ok ⟨path, op.text, storedValue op rawValue, negate, none, .field⟩

/-- An operator after a path, and its value. -/
def parseOperation (path rawOp : List Char) (rawValue : Option (List Char)) (negate : Bool) :
    Except Problem Rule :=
  let opLower := rt.lower rawOp
  if opLower = "length".toList then parseLength path rawValue negate
  else if opLower = "each".toList then parseEach path rawValue negate
  else if opLower ∈ containsKeywords then parseContains rt opLower path rawValue negate
  else if opLower = "subset".toList then parseSubset rt path rawValue negate
  else match fieldOperatorKeywords.lookup opLower with
    | none => .error ⟨none, "Unknown operator: \"".toList ++ rawOp ++ ['"']⟩
    | some op => fieldRule op rawOp path rawValue negate

/-- What follows the path. -/
def parseRest (path rest : List Char) : Except Problem Rule :=
  if rest = [] then .error ⟨none, "Missing operator after path".toList⟩
  else
    let (rawOp, rawValue) := parseOperatorAndValue ((stripNot rest).getD rest)
    parseOperation rt path rawOp rawValue (stripNot rest).isSome

/-- `parseDslLine` without the number of the line; comments and empty lines are passed over. -/
def readLine (line : List Char) : Option (Except Problem Rule) :=
  let trimmedRaw := trim line
  if trimmedRaw = [] ∨ ['#'] <+: trimmedRaw ∨ "//".toList <+: trimmedRaw then none
  else match assertMatch trimmedRaw with
    | some (negate, after) => some (parseAssert negate after)
    | none => (tokenizeLine line).map fun (path, rest) => parseRest rt path rest

def parseDslLine (line : List Char) (lineNumber : ℕ) : Option (Except ParseError ParsedRule) :=
  (readLine rt line).map fun
    | .error problem => .error ⟨problem, lineNumber⟩
    | .ok rule => .ok ⟨rule, lineNumber⟩

def parseDsl (text : List Char) : DslParseResult :=
  let results := (text.splitOn '\n').zipIdx.filterMap fun (line, i) => parseDslLine rt line (i + 1)
  ⟨results.filterMap (·.toOption), results.filterMap fun
    | .error e => some e
    | .ok _ => none⟩

/-! ## Printing -/

/-- `/^-?\d+(\.\d+)?$/` -/
def isNumberLiteral (value : List Char) : Bool :=
  let digits := if value.head? == some '-' then value.drop 1 else value
  let fraction := digits.dropWhile Char.isDigit
  !(digits.takeWhile Char.isDigit).isEmpty &&
    (fraction.isEmpty ||
      (fraction.head? == some '.' && !(fraction.drop 1).isEmpty && (fraction.drop 1).all Char.isDigit))

def escape (value : List Char) : List Char :=
  value.flatMap fun c => if c = '\\' ∨ c = '"' then ['\\', c] else [c]

def quoteValue (value : List Char) (op : FieldOperator) : List Char :=
  if op.noValue then []
  else if op.isList ∨ op = .isType then value
  else if isNumberLiteral value then value
  else if value = "true".toList ∨ value = "false".toList then value
  else if isQuoted '"' value then value
  else '"' :: (escape value ++ ['"'])

def padEnd (width : ℕ) (cs : List Char) : List Char :=
  cs ++ List.replicate (width - (utf16 cs).length) ' '

/-- `replace(/^\$\.?/, '')` -/
def barePath (jsonPath : List Char) : List Char := ApiMock.stripJsonPathPrefix jsonPath

/-- The path as it is printed. -/
def shownPath (jsonPath : List Char) : List Char :=
  if barePath jsonPath = [] then ['$'] else barePath jsonPath

def Assertion.path? : Assertion ν → Option (List Char)
  | .typeCheck p .. | .existence p .. | .arrayLength p .. | .each p .. | .arrayContains p ..
  | .containsSubset p .. => some p
  | .custom .. => none

/-- The common width of the paths. -/
def padWidth (fields : List ExpectedField) (assertions : List (Assertion ν)) : ℕ :=
  let paths := fields.map (·.jsonPath) ++ assertions.filterMap Assertion.path?
  max ((paths.map fun p => (utf16 (barePath p)).length).foldl max 0 + 2) 20

def negText (negate : Bool) : List Char := if negate then "NOT ".toList else []

def fieldLine (width : ℕ) (f : ExpectedField) : List Char :=
  let op := f.operator.getD .equals
  padEnd width (shownPath f.jsonPath) ++ (negText f.negate ++
    if op.noValue then op.keyword
    else match f.expression.bind nonempty with
      | some expression => padEnd 20 op.keyword ++ ("expr:".toList ++ expression)
      | none => padEnd 20 op.keyword ++ quoteValue (f.operatorValue.getD f.expectedValue) op)

inductive Group
  | collection | types | custom
deriving DecidableEq, Repr

def Assertion.group : Assertion ν → Group
  | .typeCheck .. | .existence .. => .types
  | .arrayLength .. | .each .. | .arrayContains .. | .containsSubset .. => .collection
  | .custom .. => .custom

/-- The path of the members that an `each` looks at. -/
def eachPath (jsonPath fieldPath : List Char) : List Char :=
  shownPath jsonPath ++ if fieldPath = [] then "[*]".toList else "[*].".toList ++ fieldPath

def assertionLine (width : ℕ) : Assertion ν → List Char
  | .typeCheck path expectedType negate =>
      padEnd width (shownPath path) ++
        (negText negate ++ ("is_type             ".toList ++ expectedType))
  | .existence path expectExists negate =>
      padEnd width (shownPath path) ++
        (negText negate ++ if expectExists then "exists".toList else "not_exists".toList)
  | .arrayLength path operator value negate =>
      padEnd width (shownPath path) ++
        (negText negate ++ ("length ".toList ++ (padEnd 14 operator.text ++ rt.numberText value)))
  | .each path fieldPath operator value negate =>
      padEnd width (eachPath path fieldPath) ++ (negText negate ++ ("each ".toList ++
        if operator.noValue then operator.keyword
        else padEnd 16 operator.keyword ++ quoteValue (value.getD []) operator))
  | .arrayContains path value mode negate =>
      padEnd width (shownPath path) ++ (negText negate ++ (padEnd 20 mode.keyword ++ value))
  | .containsSubset path expected negate =>
      padEnd width (shownPath path) ++ (negText negate ++ ("subset              ".toList ++ expected))
  | .custom expression description negate =>
      negText negate ++ ("ASSERT ".toList ++ (expression ++
        ((description.bind nonempty).elim [] fun d => " // ".toList ++ d)))

/-- `sort()`, by code units -/
def sortLines (lines : List (List Char)) : List (List Char) :=
  lines.mergeSort fun a b => decide (utf16 a ≤ utf16 b)

/-- A group of lines under its title. -/
def addGroup (lines : List (List Char)) (title : String) (group : List (List Char)) : List (List Char) :=
  if group = [] then lines
  else lines ++ ((if lines = [] then [] else [[]]) ++ title.toList :: group)

def serializedLines (fields : List ExpectedField) (assertions : List (Assertion ν)) :
    List (List Char) :=
  let width := padWidth fields assertions
  let linesOf (g : Group) := (assertions.filter (·.group = g)).map (assertionLine rt width)
  let lines := addGroup [] "# Field assertions" (sortLines (fields.map (fieldLine width)))
  let lines := addGroup lines "# Collection assertions" (sortLines (linesOf .collection))
  let lines := addGroup lines "# Type & existence assertions" (sortLines (linesOf .types))
  addGroup lines "# Custom predicate assertions" (linesOf .custom)

def serializeToDsl (fields : List ExpectedField) (assertions : List (Assertion ν)) : List Char :=
  ['\n'].intercalate (serializedLines rt fields assertions)

/-! ## Rules as the model keeps them -/

/-- `/^(.+?)\[\*\]\.?(.*)$/` in a text of one line: what stands before the first star that does
not come first, and what stands after it. -/
def splitStar : List Char → Option (List Char × List Char)
  | [] => none
  | c :: cs =>
      match cs with
      | '[' :: '*' :: ']' :: '.' :: rest => some ([c], rest)
      | '[' :: '*' :: ']' :: rest => some ([c], rest)
      | _ => (splitStar cs).map fun (before, after) => (c :: before, after)

def starMatch (jsonPath : List Char) : Option (List Char × List Char) :=
  if jsonPath.any lineEnd then none else splitStar jsonPath

/-- `/^length\s*([><=!]+)$/`, looked up -/
def lengthOperator (operator : List Char) : Option ComparisonOperator :=
  if "length".toList <+: operator then
    comparisonOpMap.lookup ((operator.drop 6).dropWhile isSpace)
  else none

/-- `/^each\s+(.+)$/`, looked up -/
def eachOperator (operator : List Char) : Option FieldOperator :=
  let name := (operator.drop 4).dropWhile isSpace
  if "each".toList <+: operator ∧ ((operator.drop 4).head?.any isSpace) = true ∧ ¬ name.any lineEnd then
    fieldOperatorKeywords.lookup (rt.lower name)
  else none

/-- `indexOf('\n')` and the two sides of it -/
def splitLine (value : List Char) : List Char × Option (List Char) :=
  let after := value.dropWhile (· != '\n')
  (value.takeWhile (· != '\n'), if after = [] then none else some (after.drop 1))

def containsMode (operator : List Char) : ContainsMode :=
  if operator = "contains_all".toList then .all
  else if operator = "contains_only".toList then .only
  else if operator = "contains_none".toList then .none
  else .any

/-- What one rule adds to the model. -/
def ruleToModel (rule : Rule) : Option (ExpectedField ⊕ Assertion ν) :=
  let jsonPath := if ['$'] <+: rule.path then rule.path else "$.".toList ++ rule.path
  match rule.kind with
  | .field =>
      let op := FieldOperator.ofText rule.operator
      some (.inl ⟨jsonPath, rule.value.getD [], some op, if op.noValue then none else rule.value,
        rule.negate, rule.expression.bind nonempty⟩)
  | .length =>
      (lengthOperator rule.operator).map fun op =>
        .inr (.arrayLength jsonPath op ((rule.value.bind rt.toNumber).getD rt.zero) rule.negate)
  | .each =>
      (eachOperator rt rule.operator).map fun op =>
        let (arrayPath, fieldPath) := (starMatch jsonPath).getD (jsonPath, [])
        .inr (.each arrayPath fieldPath op rule.value rule.negate)
  | .containsItem =>
      some (.inr (.arrayContains jsonPath (rule.value.getD []) (containsMode rule.operator) rule.negate))
  | .subset => some (.inr (.containsSubset jsonPath (rule.value.getD "\x7b\x7d".toList) rule.negate))
  | .typeCheck =>
      some (.inr (.typeCheck jsonPath (rt.lower (rule.value.getD "string".toList)) rule.negate))
  | .existence =>
      some (.inl ⟨jsonPath, [], some (FieldOperator.ofText rule.operator), none, rule.negate, none⟩)
  | .custom =>
      let (expression, description) := splitLine (rule.value.getD [])
      some (.inr (.custom expression (description.bind nonempty) rule.negate))

def dslToModel (rules : List Rule) : DslModel ν :=
  let added := rules.filterMap (ruleToModel rt)
  ⟨added.filterMap (·.getLeft?), added.filterMap (·.getRight?)⟩

/-! ## JSON -/

structure ExportableRule where
  path : List Char
  operator : List Char
  value : Option (List Char) := none
  negate : Option Bool := none
  expression : Option (List Char) := none

def exportable (r : Rule) : ExportableRule :=
  ⟨r.path, r.operator, r.value, if r.negate then some true else none, r.expression.bind nonempty⟩

/-- The members of a rule; one that is left out has no member. -/
def ExportableRule.members (r : ExportableRule) : List (String × Plain) :=
  [("path", .text r.path), ("operator", .text r.operator)] ++
    (r.value.map fun v => ("value", Plain.text v)).toList ++
    (r.negate.map fun b => ("negate", Plain.flag b)).toList ++
    (r.expression.map fun e => ("expression", Plain.text e)).toList

def exportAsJson (fields : List ExpectedField) (assertions : List (Assertion ν)) : List Char :=
  let rules := (parseDsl rt (serializeToDsl rt fields assertions)).rules.map (·.toRule)
  rt.stringify (.arr (rules.map fun r => .obj ((exportable r).members.map fun m => (m.1, m.2.json))))

def detectKind (operator : List Char) : RuleKind :=
  if operator = "assert".toList then .custom
  else if "length".toList <+: operator then .length
  else if "each".toList <+: operator then .each
  else if operator ∈ containsKeywords then .containsItem
  else if operator = "subset".toList then .subset
  else if operator = "is_type".toList then .typeCheck
  else if operator = "exists".toList ∨ operator = "not_exists".toList then .existence
  else .field

/-- A member that is a text. -/
def textMember (fields : List (String × Json)) (name : String) : Option (List Char) :=
  match fields.lookup name with
  | some (.str s) => some s.toList
  | _ => none

/-- A row of an imported array.  A row whose members are of other types than those of
`ExportableRule` is not followed. -/
def importedRule : Json → Option Rule
  | .obj fields => do
      let path ← textMember fields "path"
      let operator ← textMember fields "operator"
      let negate := match fields.lookup "negate" with
        | some (.bool b) => b
        | _ => false
      pure ⟨path, operator, textMember fields "value", negate, textMember fields "expression",
        detectKind operator⟩
  | _ => none

def importFromJson (text : List Char) : Except ParseError (DslModel ν) :=
  let invalid := .error ⟨⟨none, "Invalid JSON".toList⟩, 1⟩
  match rt.parse text with
  | none => invalid
  | some (.arr items) =>
      match items.mapM importedRule with
      | some rules => .ok (dslToModel rt rules)
      | none => invalid
  | some _ => .error ⟨⟨none, "Expected a JSON array of rules".toList⟩, 1⟩

end RedFireForge.Mapper
