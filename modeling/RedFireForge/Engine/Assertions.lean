/-
# `RedFireForge.Engine.Assertions` — the assertions on a response

Each of the nineteen kinds of assertion has a handler, which reports what fails.  A negated
assertion fails where its handler reports nothing; but a report that is taken for a mistake in
the assertion is passed on, and it is known by the texts that it shows.
-/
import Mathlib.Data.Rat.Floor
import RedFireForge.ApiMock.PredicateEvaluator
import RedFireForge.Engine.JsonPath
import RedFireForge.Engine.StatusPattern
import RedFireForge.Engine.Verdict
import RedFireForge.Lib.Calendar
import RedFireForge.Mapper.ValidationDsl

namespace RedFireForge.Engine.Assertions

open RedFireForge.Lib
open RedFireForge.ApiMock (Js trim includes startsWith sliceFrom)
open RedFireForge.Engine.JsonPath
open RedFireForge.Engine.StatusPattern (matchesStatusPattern)
open RedFireForge.Mapper (ComparisonOperator ContainsMode FieldOperator utf16 firstUnits)

/-! ## Assertions and responses -/

inductive JsonTypeName
  | string | number | boolean | array | object | null
deriving DecidableEq, Repr

def JsonTypeName.text : JsonTypeName → String
  | string => "string"
  | number => "number"
  | boolean => "boolean"
  | array => "array"
  | object => "object"
  | null => "null"

/-- Of a header, or of a field of a message. -/
inductive AssertionOperator
  | equals | contains | regex | «exists»
deriving DecidableEq, Repr

inductive Timezone
  | utc | «local»
deriving DecidableEq, Repr

inductive DateReference
  | today (timezone : Timezone)
  | fixed (iso : String)
deriving DecidableEq, Repr

inductive Precision
  | day | hour | minute | second | millisecond
deriving DecidableEq, Repr

def Precision.text : Precision → String
  | day => "day"
  | hour => "hour"
  | minute => "minute"
  | second => "second"
  | millisecond => "millisecond"

inductive SizeUnit
  | bytes | kb | mb
deriving DecidableEq, Repr

/-- What an assertion says of a response. -/
inductive Check
  | status (expected : String)
  | responseTime (maxMs : ℚ)
  | header (name : String) (operator : AssertionOperator) (value : Option String)
  | regex (jsonPath pattern : String)
  | arrayLength (jsonPath : String) (operator : ComparisonOperator) (value : ℚ)
  | numeric (jsonPath : String) (operator : ComparisonOperator) (value : ℚ)
  | date (jsonPath : String) (operator : ComparisonOperator) (reference : DateReference)
  | datePrecise (jsonPath : String) (operator : ComparisonOperator) (reference : String) (precision : Precision)
  | typeCheck (jsonPath : String) (expectedType : JsonTypeName)
  | existence (jsonPath : String) (expectExists : Bool)
  | arrayContains (jsonPath value : String) (mode : ContainsMode)
  | each (jsonPath fieldPath : String) (operator : FieldOperator) (value : Option String)
  | containsSubset (jsonPath expected : String)
  | jsonSchema (schema : String)
  | bodySize (operator : ComparisonOperator) (value : ℚ) (unit : SizeUnit)
  | kafkaField (target : String) (operator : AssertionOperator) (value : Option String)
  | wsField (target : String) (operator : AssertionOperator) (value : Option String)
  | wsNumericField (target : String) (operator : ComparisonOperator) (value : ℚ)
  | custom (expression : String) (description : Option String)

def Check.type : Check → AssertionType
  | .status .. => .status
  | .responseTime .. => .responseTime
  | .header .. => .header
  | .regex .. => .regex
  | .arrayLength .. => .arrayLength
  | .numeric .. => .numeric
  | .date .. => .date
  | .datePrecise .. => .datePrecise
  | .typeCheck .. => .typeCheck
  | .existence .. => .existence
  | .arrayContains .. => .arrayContains
  | .each .. => .each
  | .containsSubset .. => .containsSubset
  | .jsonSchema .. => .jsonSchema
  | .bodySize .. => .bodySize
  | .kafkaField .. => .kafkaField
  | .wsField .. => .wsField
  | .wsNumericField .. => .wsNumericField
  | .custom .. => .custom

structure NegatableAssertion where
  check : Check
  negate : Bool

structure KafkaContext where
  key : Option String
  offset : Option ℚ
  partition : Option ℚ
  topic : Option String

structure WsContext where
  connectionId : Option String
  frameType : Option String
  protocol : Option String
  messageSize : Option ℚ
  latencyMs : Option ℚ
  url : Option String

structure AssertionContext where
  httpStatus : ℕ
  responseTimeMs : ℚ
  responseHeaders : List (String × String)
  responseBody : Json
  rawBody : Option String
  kafkaContext : Option KafkaContext
  wsContext : Option WsContext

/-- The text of `actual` is missing where what is shown has no JSON. -/
structure Failure where
  path : String
  expected : String
  actual : Option String
deriving DecidableEq

/-- The verdict of an operator. -/
structure FieldEvalResult where
  pass : Bool
  expected : String
  actual : String

structure AjvError where
  instancePath : String
  message : Option String
  keyword : String

/-- The values that are not truthy. -/
inductive Falsy
  | false | zero | emptyText | null | undefined | nan
deriving DecidableEq, Repr

/-- `formatExpressionResult` -/
def Falsy.text : Falsy → String
  | .false => "false"
  | .zero => "0"
  | .nan => "NaN"
  | .emptyText | .null | .undefined => ""

/-- What the handlers call.  `syntaxError` is the message of `JSON.parse`, `stack` the depth that a
recursion may have, `compile` the schema validator, which gives out the violations, and
`evaluateExpression` evaluates a custom expression in a response: to an error, to a value that is
not truthy, or to one that is. -/
structure Env where
  js : Js
  json : Json.Parser
  syntaxError : String → String
  stack : ℕ
  today : Timezone → String
  compile : Json → Except String (Json → List AjvError)
  evaluateFieldOperator : Value → FieldOperator → Option String → String → FieldEvalResult
  evaluateExpression : String → AssertionContext → Except String (Option Falsy)

variable (env : Env)

/-! ## What the handlers share -/

def compare (actual : Number) (op : ComparisonOperator) (expected : Number) : Bool :=
  match op with
  | .eq => actual.same expected
  | .ne => !actual.same expected
  | .gt => expected.lt actual
  | .ge => expected.lt actual || actual.same expected
  | .lt => actual.lt expected
  | .le => actual.lt expected || actual.same expected

def formatOp : ComparisonOperator → String
  | .eq => "="
  | .ne => "≠"
  | .gt => ">"
  | .ge => "≥"
  | .lt => "<"
  | .le => "≤"

def buildFailure (path expected actual : String) : List Failure := [⟨path, expected, some actual⟩]

/-- `undefined` as a text, and a text as it is. -/
def stringifyAssertionValue : Value → Option String
  | .undefined => some "undefined"
  | .json (.str s) => some s
  | v => v.stringify

def getSerializedContextBody (ctx : AssertionContext) : String :=
  ctx.rawBody.getD (match ctx.responseBody with | .str s => s | j => j.stringify)

def findHeader (headers : List (String × String)) (name : String) : Option String :=
  (headers.find? fun h => env.js.toLowerCase h.1 == env.js.toLowerCase name).map Prod.snd

/-- As a text. -/
def resolveKafkaContextField (name : String) (ctx : AssertionContext) : Option String :=
  if name = "body" then some (getSerializedContextBody ctx)
  else if name = "key" then ctx.kafkaContext.bind (·.key)
  else if name = "partition" then (ctx.kafkaContext.bind (·.partition)).map env.js.numberText
  else if name = "offset" then (ctx.kafkaContext.bind (·.offset)).map env.js.numberText
  else if name = "topic" then ctx.kafkaContext.bind (·.topic)
  else if startsWith name "header." then findHeader env ctx.responseHeaders (sliceFrom name 7)
  else none

def resolveWsContextField (name : String) (ctx : AssertionContext) : Option String :=
  if name = "body" then some (getSerializedContextBody ctx)
  else if name = "type" then ctx.wsContext.bind (·.frameType)
  else if name = "protocol" then ctx.wsContext.bind (·.protocol)
  else if name = "connectionId" then ctx.wsContext.bind (·.connectionId)
  else if name = "latencyMs" then (ctx.wsContext.bind (·.latencyMs)).map env.js.numberText
  else if name = "size" then (ctx.wsContext.bind (·.messageSize)).map env.js.numberText
  else if name = "url" then ctx.wsContext.bind (·.url)
  else if startsWith name "header." then findHeader env ctx.responseHeaders (sliceFrom name 7)
  else none

def evaluateHeaderOp (headerVal : Option String) (operator : AssertionOperator) (expected : Option String) :
    FieldEvalResult :=
  let actual := headerVal.getD "(not present)"
  match operator with
  | .exists => ⟨headerVal.isSome, "header exists", actual⟩
  | .equals => ⟨headerVal == expected, expected.getD "", actual⟩
  | .contains =>
      ⟨headerVal.any fun h => includes h (expected.getD ""), "contains \"" ++ expected.getD "" ++ "\"", actual⟩
  | .regex =>
      match env.js.regexp (expected.getD "") "" with
      | some re => ⟨headerVal.any re, "matches /" ++ expected.getD "undefined" ++ "/", actual⟩
      | none => ⟨false, "valid regex /" ++ expected.getD "undefined" ++ "/", "invalid regex pattern"⟩

def reportOp (path : String) (opResult : FieldEvalResult) : List Failure :=
  if opResult.pass then [] else buildFailure path opResult.expected opResult.actual

def readValue (ctx : AssertionContext) (jsonPath : String) : Value := getByPath env.js (.json ctx.responseBody) jsonPath

/-! ## Subsets -/

structure Mismatch where
  path : String
  expected : String
  actual : Option String

mutual
/-- Of a JSON value, or where it is an array of one of its items. -/
def anyInJson (p : Value → Bool) : Json → Bool
  | .arr items => anyInJsons p items
  | j => p (.json j)

def anyInJsons (p : Value → Bool) : List Json → Bool
  | [] => false
  | j :: items => anyInJson p j || anyInJsons p items
end

mutual
def anyIn (p : Value → Bool) : Value → Bool
  | .json j => anyInJson p j
  | .results items => anyInItems p items
  | v => p v

def anyInItems (p : Value → Bool) : List Value → Bool
  | [] => false
  | v :: items => anyIn p v || anyInItems p items
end

/-- `===` with what is no object. -/
def sameAs : Json → Value → Bool
  | .null, .json .null => true
  | .bool b, .json (.bool b') => b == b'
  | .num n, .json (.num n') => n == n'
  | .str s, .json (.str s') => s == s'
  | _, _ => false

def isNull : Value → Bool
  | .json .null => true
  | _ => false

def orRoot (path : String) : String := if path = "" then "(root)" else path

mutual
/-- `none` is a match.  The fields of `expected` stand in the order of its keys. -/
def deepSubsetMatch : Json → Value → String → Option Mismatch
  | .arr expected, actual, path =>
      match actual.items? with
      | none => some ⟨orRoot path, "array", some actual.typeof⟩
      | some items => subsetItems expected items path 0
  | .obj fields, actual, path =>
      let compared (actual : Value) (path : String) : Option Mismatch :=
        if actual.typeof = "object" ∧ isNull actual = false then subsetFields fields actual path
        else some ⟨orRoot path, "object", some (if isNull actual then "null" else actual.typeof)⟩
      if actual.items?.isSome then
        if anyIn (fun item => (compared item "").isNone) actual then none
        else some ⟨orRoot path, (Json.obj fields).stringify, some "no matching element in array"⟩
      else compared actual path
  | e, actual, path => if sameAs e actual then none else some ⟨orRoot path, e.stringify, actual.stringify⟩

def subsetItems : List Json → List Value → String → ℕ → Option Mismatch
  | [], _, _, _ => none
  | e :: expected, items, path, i =>
      if items.any fun item => (deepSubsetMatch e item "").isNone then subsetItems expected items path (i + 1)
      else some ⟨path ++ "[" ++ toString i ++ "]", e.stringify, some "not found in array"⟩

def subsetFields : List (String × Json) → Value → String → Option Mismatch
  | [], _, _ => none
  | (key, e) :: fields, actual, path =>
      let path' := if path = "" then key else path ++ "." ++ key
      match actual.member key with
      | none => some ⟨path', e.stringify, some "missing key"⟩
      | some v => (deepSubsetMatch e v path').or (subsetFields fields actual path)
end

/-! ## Dates -/

def resolveDate : DateReference → String
  | .fixed iso => String.ofList (firstUnits 10 iso.toList)
  | .today timezone => env.today timezone

/-- `/^(\d{4}-\d{2}-\d{2})/` -/
def dayPrefix (cs : List Char) : Option (List Char) :=
  let day := cs.take 10
  if day.length = 10 ∧ day.zipIdx.all (fun (c, i) => if i = 4 ∨ i = 7 then c == '-' else c.isDigit) then some day
  else none

/-- The last instant of a date. -/
def maxTime : ℤ := 8640000000000000

/-- The milliseconds of `new Date(val)`: `none` where it is no date. -/
def timeClip (q : ℚ) : Option ℤ :=
  let ms := if 0 ≤ q then ⌊q⌋ else ⌈q⌉
  if |ms| ≤ maxTime then some ms else none

/-- `some none` is no day, and `none` is where it throws. -/
def toDayString : Value → Option (Option String)
  | .json (.str s) => some ((dayPrefix s.toList).map String.ofList)
  | .json (.num n) =>
      match numericValue n.text with
      | some q => (timeClip q).map fun ms => some (String.ofList ((isoText ms).take 10))
      | none => none
  | _ => some none

def truncateToUnit (ms : ℤ) : Precision → ℤ
  | .millisecond => ms
  | .second => ms / 1000
  | .minute => ms / 60000
  | .hour => ms / 3600000
  | .day => ms / 86400000

def intNumber (n : ℤ) : Number := .finite n

/-! ## The handlers

`none` is where a handler throws.
-/

def handleStatus (expected : String) (ctx : AssertionContext) : Option (List Failure) :=
  (matchesStatusPattern env.stack ctx.httpStatus expected.toList).map fun matched =>
    if matched then [] else buildFailure "(status)" expected (toString ctx.httpStatus)

def handleResponseTime (maxMs : ℚ) (ctx : AssertionContext) : List Failure :=
  if maxMs < ctx.responseTimeMs then
    buildFailure "(responseTime)" ("≤ " ++ env.js.numberText maxMs ++ "ms") (env.js.numberText ctx.responseTimeMs ++ "ms")
  else []

def handleHeader (name : String) (operator : AssertionOperator) (value : Option String) (ctx : AssertionContext) :
    List Failure :=
  reportOp ("(header:" ++ name ++ ")") (evaluateHeaderOp env (findHeader env ctx.responseHeaders name) operator value)

/-- A value without JSON is tested as `undefined`, and where it does not match, the reader of its
length throws. -/
def handleRegex (jsonPath pattern : String) (ctx : AssertionContext) : List Failure :=
  let invalid := buildFailure ("(regex:" ++ jsonPath ++ ")") ("valid regex /" ++ pattern ++ "/") "invalid regex pattern"
  match env.js.regexp pattern "" with
  | none => invalid
  | some re =>
      let str := stringifyAssertionValue (readValue env ctx jsonPath)
      if re (str.getD "undefined") then []
      else
        match str with
        | none => invalid
        | some s =>
            buildFailure ("(regex:" ++ jsonPath ++ ")") ("matches /" ++ pattern ++ "/")
              (if (utf16 s.toList).length > 200 then String.ofList (firstUnits 200 s.toList) ++ "…" else s)

/-- What is shown of a value that is no array. -/
def notAnArray (v : Value) : String :=
  if v.typeof = "undefined" then "undefined" else "not an array (" ++ v.typeof ++ ")"

def handleArrayLength (jsonPath : String) (operator : ComparisonOperator) (value : ℚ) (ctx : AssertionContext) :
    List Failure :=
  let arr := readValue env ctx jsonPath
  match arr.items? with
  | none =>
      buildFailure ("(arrayLength:" ++ jsonPath ++ ")")
        ("array with length " ++ formatOp operator ++ " " ++ env.js.numberText value) (notAnArray arr)
  | some items =>
      if compare (.finite items.length) operator (.finite value) then []
      else
        buildFailure ("(arrayLength:" ++ jsonPath ++ ")")
          ("length " ++ formatOp operator ++ " " ++ env.js.numberText value) ("length " ++ toString items.length)

def handleNumeric (jsonPath : String) (operator : ComparisonOperator) (value : ℚ) (ctx : AssertionContext) :
    Option (List Failure) :=
  let raw := readValue env ctx jsonPath
  raw.toNumber.map fun num =>
    let path := "(numeric:" ++ jsonPath ++ ")"
    let wanted := formatOp operator ++ " " ++ env.js.numberText value
    if raw.typeof = "undefined" then buildFailure path ("numeric value " ++ wanted) "undefined"
    else if num = .nan then
      buildFailure path ("numeric value " ++ wanted) ("not a number: " ++ raw.stringify.getD "undefined")
    else if compare num operator (.finite value) then []
    else buildFailure path wanted (num.text env.js)

def handleDate (jsonPath : String) (operator : ComparisonOperator) (reference : DateReference) (ctx : AssertionContext) :
    Option (List Failure) :=
  let rawDate := readValue env ctx jsonPath
  let path := "(date:" ++ jsonPath ++ ")"
  let refStr := resolveDate env reference
  (toDayString rawDate).map fun
    | none =>
        buildFailure path ("date " ++ formatOp operator ++ " " ++ refStr)
          (if rawDate.typeof = "undefined" then "undefined"
            else "not a date: " ++ rawDate.stringify.getD "undefined")
    | some dayStr =>
        if compare (intNumber (env.js.localeCompare dayStr refStr)) operator (.finite 0) then []
        else buildFailure path (formatOp operator ++ " " ++ refStr) dayStr

def handleDatePrecise (jsonPath : String) (operator : ComparisonOperator) (reference : String) (precision : Precision)
    (ctx : AssertionContext) : Option (List Failure) :=
  let rawDp := readValue env ctx jsonPath
  let path := "(datePrecise:" ++ jsonPath ++ ")"
  let wanted := "date " ++ formatOp operator ++ " " ++ reference
  if rawDp.typeof = "undefined" then some (buildFailure path (wanted ++ " (" ++ precision.text ++ ")") "undefined")
  else
    rawDp.toText.map fun text =>
      match env.js.date text with
      | none => buildFailure path "valid date" ("invalid date: " ++ text)
      | some actualDate =>
          match env.js.date reference with
          | none => buildFailure path "valid reference date" ("invalid reference: " ++ reference)
          | some refDate =>
              if compare (intNumber (truncateToUnit actualDate precision)) operator
                  (intNumber (truncateToUnit refDate precision)) then []
              else buildFailure path (wanted ++ " (precision: " ++ precision.text ++ ")") text

def getJsonTypeName (v : Value) : JsonTypeName :=
  if isNull v then .null
  else if v.items?.isSome then .array
  else
    match v with
    | .json (.bool _) => .boolean
    | .json (.num _) => .number
    | .undefined | .function _ | .json (.str _) => .string
    | _ => .object

def handleTypeCheck (jsonPath : String) (expectedType : JsonTypeName) (ctx : AssertionContext) : List Failure :=
  let tcVal := readValue env ctx jsonPath
  let path := "(typeCheck:" ++ jsonPath ++ ")"
  if tcVal.typeof = "undefined" then buildFailure path ("type " ++ expectedType.text) "path not found"
  else if getJsonTypeName tcVal = expectedType then []
  else buildFailure path ("type " ++ expectedType.text) ("type " ++ (getJsonTypeName tcVal).text)

def handleExistence (jsonPath : String) (expectExists : Bool) (ctx : AssertionContext) : List Failure :=
  let found := (readValue env ctx jsonPath).typeof != "undefined"
  if found = expectExists then []
  else
    buildFailure ("(existence:" ++ jsonPath ++ ")") (if expectExists then "field exists" else "field does not exist")
      (if found then "field exists" else "field not found")

/-- An item is compared as a whole, or where an object or an array is looked for, as containing it. -/
def itemMatches (parsedValue : Json) (item : Value) : Bool :=
  match parsedValue with
  | .arr _ | .obj _ => (deepSubsetMatch parsedValue item "").isNone
  | _ => sameAs parsedValue item || decide (item.stringify = some parsedValue.stringify)

def handleArrayContains (jsonPath value : String) (mode : ContainsMode) (ctx : AssertionContext) : List Failure :=
  let acArr := readValue env ctx jsonPath
  let path := "(arrayContains:" ++ jsonPath ++ ")"
  match acArr.items? with
  | none => buildFailure path "array containing value" (notAnArray acArr)
  | some items =>
      let parsedValue := parseJsonOrRaw env.json value
      match mode with
      | .any =>
          if items.any (itemMatches parsedValue) then []
          else
            buildFailure path ("array contains " ++ value) ("no matching item in " ++ toString items.length ++ " items")
      | .all =>
          let failCount := (items.filter fun item => !itemMatches parsedValue item).length
          if failCount > 0 then
            buildFailure path ("all " ++ toString items.length ++ " items match " ++ value)
              (toString failCount ++ " of " ++ toString items.length ++ " items did not match")
          else []
      | .only =>
          let parsedArr : List Json := match parsedValue with | .arr parsed => parsed | j => [j]
          let contained (e : Json) (item : Value) : Bool := (deepSubsetMatch e item "").isNone
          let unmatched := parsedArr.filter fun e => !items.any (contained e)
          let extras := items.filter fun item => !parsedArr.any fun e => contained e item
          if unmatched.isEmpty && extras.isEmpty then []
          else
            buildFailure path ("exactly " ++ toString parsedArr.length ++ " items (unordered)")
              ("; ".intercalate
                ((if unmatched.isEmpty then [] else ["missing: " ++ (Json.arr unmatched).stringify]) ++
                  (if extras.isEmpty then [] else ["extras: " ++ (Value.results extras).stringify.getD ""])))
      | .none =>
          match items.findIdx? (itemMatches parsedValue) with
          | some matchIdx =>
              buildFailure path ("no items match " ++ value) ("item at index " ++ toString matchIdx ++ " matched")
          | none => []

def handleEach (jsonPath fieldPath : String) (operator : FieldOperator) (value : Option String)
    (ctx : AssertionContext) : List Failure :=
  let eachArr := readValue env ctx jsonPath
  let path := "(each:" ++ jsonPath ++ ")"
  match eachArr.items? with
  | none => buildFailure path "array where every element satisfies condition" (notAnArray eachArr)
  | some items =>
      let eachFailures := items.zipIdx.filterMap fun (elem, idx) =>
        let fieldVal := if fieldPath = "" then elem else getByPath env.js elem fieldPath
        let result := env.evaluateFieldOperator fieldVal operator value (value.getD "")
        if result.pass then none
        else
          some ("[" ++ toString idx ++ "]" ++ (if fieldPath = "" then "" else "." ++ fieldPath) ++ ": expected " ++
            result.expected ++ ", got " ++ result.actual)
      if eachFailures.length > 0 then
        let summary :=
          if eachFailures.length ≤ 3 then "; ".intercalate eachFailures
          else
            "; ".intercalate (eachFailures.take 3) ++ " … and " ++ toString (eachFailures.length - 3) ++ " more"
        buildFailure path
          ("all " ++ toString items.length ++ " items: " ++ (if fieldPath = "" then "" else fieldPath ++ " ") ++
            String.ofList operator.text ++ (if value.getD "" = "" then "" else " " ++ value.getD ""))
          (toString eachFailures.length ++ " of " ++ toString items.length ++ " failed — " ++ summary)
      else []

def handleContainsSubset (jsonPath expected : String) (ctx : AssertionContext) : List Failure :=
  let csVal := readValue env ctx jsonPath
  let path := "(containsSubset:" ++ jsonPath
  if csVal.typeof = "undefined" then buildFailure (path ++ ")") ("contains subset " ++ expected) "undefined"
  else
    match env.json.parse expected with
    | none => buildFailure (path ++ ")") "valid JSON subset" "invalid JSON in expected"
    | some parsedExpected =>
        match deepSubsetMatch parsedExpected csVal "" with
        | none => []
        | some m =>
            [⟨path ++ (if m.path = "" then "" else "." ++ m.path) ++ ")", m.expected, m.actual.or csVal.stringify⟩]

def handleJsonSchema (schema : String) (ctx : AssertionContext) (assertionIndex : ℕ) : List Failure :=
  let path := "(jsonSchema#" ++ toString assertionIndex
  match env.json.parse schema with
  | none => buildFailure (path ++ ")") "valid JSON Schema" (env.syntaxError schema)
  | some schema =>
      match env.compile schema with
      | .error message => buildFailure (path ++ ")") "valid JSON Schema" message
      | .ok violations =>
          ((violations ctx.responseBody).take 10).map fun err =>
            let place := if err.instancePath = "" then "/" else err.instancePath
            ⟨path ++ ":" ++ place ++ ")", err.message.getD "schema validation",
              some ("violation at " ++ place ++ ": " ++ err.keyword)⟩

def SizeUnit.divisor : SizeUnit → ℕ
  | .bytes => 1
  | .kb => 1024
  | .mb => 1024 * 1024

def SizeUnit.label : SizeUnit → String
  | .bytes => "B"
  | .kb => "KB"
  | .mb => "MB"

def handleBodySize (operator : ComparisonOperator) (value : ℚ) (unit : SizeUnit) (ctx : AssertionContext) :
    List Failure :=
  let raw := ctx.rawBody.getD (match ctx.responseBody with | .null => "" | j => j.stringify)
  let actualSize : ℚ := raw.utf8ByteSize / unit.divisor
  if compare (.finite actualSize) operator (.finite value) then []
  else
    buildFailure "(bodySize)" ("body size " ++ formatOp operator ++ " " ++ env.js.numberText value ++ " " ++ unit.label)
      (env.js.numberText ((⌊actualSize * 100 + 1 / 2⌋ : ℚ) / 100) ++ " " ++ unit.label)

def handleKafkaField (target : String) (operator : AssertionOperator) (value : Option String) (ctx : AssertionContext) :
    List Failure :=
  reportOp ("(kafkaField:" ++ target ++ ")")
    (evaluateHeaderOp env (resolveKafkaContextField env (sliceFrom target 6) ctx) operator value)

/-- What a target names: a path into the body, or a field. -/
def wsFieldVal (target : String) (ctx : AssertionContext) : Option String :=
  if startsWith target "ws.$." then
    let jpVal := readValue env ctx ("$." ++ sliceFrom target 5)
    if jpVal.typeof = "undefined" then none else stringifyAssertionValue jpVal
  else resolveWsContextField env (sliceFrom target 3) ctx

def handleWsField (target : String) (operator : AssertionOperator) (value : Option String) (ctx : AssertionContext) :
    List Failure :=
  reportOp ("(wsField:" ++ target ++ ")") (evaluateHeaderOp env (wsFieldVal env target ctx) operator value)

def handleWsNumericField (target : String) (operator : ComparisonOperator) (value : ℚ) (ctx : AssertionContext) :
    List Failure :=
  let numericVal :=
    if target = "ws.latencyMs" then ctx.wsContext.bind (·.latencyMs)
    else if target = "ws.size" then ctx.wsContext.bind (·.messageSize)
    else none
  let path := "(wsNumericField:" ++ target ++ ")"
  let wanted := formatOp operator ++ " " ++ env.js.numberText value
  match numericVal with
  | none => buildFailure path ("numeric value " ++ wanted) "undefined"
  | some q =>
      if compare (.finite q) operator (.finite value) then [] else buildFailure path wanted (env.js.numberText q)

/-- The evaluator catches its errors, so that there is no runtime error here. -/
def handleCustom (expression : String) (description : Option String) (ctx : AssertionContext) (negPrefix : String) :
    List Failure :=
  let expr := String.ofList (trim expression.toList)
  if expr = "" then buildFailure "(custom)" (negPrefix ++ "custom predicate to evaluate") "empty expression"
  else
    let desc := if description.getD "" = "" then "" else " (" ++ description.getD "" ++ ")"
    match env.evaluateExpression expr ctx with
    | .error message =>
        if message = "" then buildFailure "(custom)" (negPrefix ++ "custom predicate to pass" ++ desc) ""
        else
          buildFailure "(custom)" (negPrefix ++ "expression to evaluate without error") ("expression error: " ++ message)
    | .ok none => []
    | .ok (some v) => buildFailure "(custom)" (negPrefix ++ "custom predicate to pass" ++ desc) v.text

/-! ## The loop -/

/-- The switch on the type of an assertion. -/
def handle (negPrefix : String) (ctx : AssertionContext) (i : ℕ) : Check → Option (List Failure)
  | .status expected => handleStatus env expected ctx
  | .responseTime maxMs => some (handleResponseTime env maxMs ctx)
  | .header name operator value => some (handleHeader env name operator value ctx)
  | .regex jsonPath pattern => some (handleRegex env jsonPath pattern ctx)
  | .arrayLength jsonPath operator value => some (handleArrayLength env jsonPath operator value ctx)
  | .numeric jsonPath operator value => handleNumeric env jsonPath operator value ctx
  | .date jsonPath operator reference => handleDate env jsonPath operator reference ctx
  | .datePrecise jsonPath operator reference precision => handleDatePrecise env jsonPath operator reference precision ctx
  | .typeCheck jsonPath expectedType => some (handleTypeCheck env jsonPath expectedType ctx)
  | .existence jsonPath expectExists => some (handleExistence env jsonPath expectExists ctx)
  | .arrayContains jsonPath value mode => some (handleArrayContains env jsonPath value mode ctx)
  | .each jsonPath fieldPath operator value => some (handleEach env jsonPath fieldPath operator value ctx)
  | .containsSubset jsonPath expected => some (handleContainsSubset env jsonPath expected ctx)
  | .jsonSchema schema => some (handleJsonSchema env schema ctx i)
  | .bodySize operator value unit => some (handleBodySize env operator value unit ctx)
  | .kafkaField target operator value => some (handleKafkaField env target operator value ctx)
  | .wsField target operator value => some (handleWsField env target operator value ctx)
  | .wsNumericField target operator value => some (handleWsNumericField env target operator value ctx)
  | .custom expression description => some (handleCustom env expression description ctx negPrefix)

/-- Whether a failure shows a text by which a mistake in the assertion is known. -/
def Failure.isConfigError (f : Failure) : Bool :=
  f.actual.any fun actual => Engine.isConfigError ⟨f.path, f.expected, actual⟩

/-- Where a failure has no text, the question throws. -/
def configErrors (failures : List Failure) : Option (List Failure) :=
  if failures.all (·.actual.isSome) then some (failures.filter Failure.isConfigError) else none

/-- What is reported of an assertion whose handler reports these failures. -/
def settle (type : AssertionType) (negated : Bool) (failures : List Failure) : Option (List Failure) :=
  if negated then
    (configErrors failures).map fun configErrors =>
      if configErrors.length > 0 then configErrors
      else if failures.length = 0 then
        buildFailure ("(" ++ type.name ++ ")") "NOT (assertion to fail)" "assertion passed (negated → fail)"
      else []
  else some failures

/-- One turn of the loop. -/
def assertionFailures (ctx : AssertionContext) (a : NegatableAssertion) (i : ℕ) : Option (List Failure) :=
  (handle env (if a.negate then "NOT " else "") ctx i a.check).bind (settle a.check.type a.negate)

def evaluateAssertions (assertions : List NegatableAssertion) (ctx : AssertionContext) :
    Option (List Failure × Bool) := do
  let failures ← assertions.zipIdx.mapM fun (a, i) => assertionFailures env ctx a i
  return (failures.flatten, assertions.any (·.check.type = AssertionType.status))

end RedFireForge.Engine.Assertions
