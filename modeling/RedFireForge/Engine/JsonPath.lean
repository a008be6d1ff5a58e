/-
# `RedFireForge.Engine.JsonPath` — what a path reaches in a response

`getByPath` walks keys, indices, the length of an array and all of its items.  What it reaches is
a part of the response, what every object inherits, or the results for all items; the validators
go on with it as the language does, so that its type, its JSON, its text and its number are here.
-/
import RedFireForge.ApiMock.JsonPath
import RedFireForge.Lib.Address
import RedFireForge.Lib.Number

namespace RedFireForge.Engine.JsonPath

open RedFireForge.Lib
open RedFireForge.ApiMock (Js trim stripJsonPathPrefix star isDigits digitsValue keyText inheritedNames)

/-! ## Values -/

inductive Value
  | undefined
  /-- a function of `Object.prototype` -/
  | function (name : String)
  /-- `Object.prototype` -/
  | prototype
  | json (j : Json)
  /-- the results for all items of an array -/
  | results (items : List Value)

def natNumber (n : ℕ) : JsNumber where
  text := Nat.toDigits 10 n
  written := toDigits_written n

namespace Value

/-- The items of an array. -/
def items? : Value → Option (List Value)
  | .json (.arr items) => some (items.map .json)
  | .results items => some items
  | _ => none

def typeof : Value → String
  | .undefined => "undefined"
  | .function _ => "function"
  | .json (.bool _) => "boolean"
  | .json (.num _) => "number"
  | .json (.str _) => "string"
  | _ => "object"

mutual
/-- What is kept of a value in its JSON. -/
def toJson : Value → Option Json
  | .undefined | .function _ => none
  | .prototype => some (.obj [])
  | .json j => some j
  | .results items => some (.arr (toJsons items))

def toJsons : List Value → List Json
  | [] => []
  | v :: items => (toJson v).getD .null :: toJsons items
end

/-- `JSON.stringify` -/
def stringify (v : Value) : Option String := v.toJson.map Json.stringify

/-- `key in obj` and `obj[key]` of an object. -/
def member : Value → String → Option Value
  | .json (.obj fields), key =>
      match fields.lookup key with
      | some j => some (.json j)
      | none =>
          if key = "__proto__" then some .prototype
          else if key ∈ inheritedNames then some (.function key)
          else none
  | .prototype, key =>
      if key = "__proto__" then some (.json .null)
      else if key ∈ inheritedNames then some (.function key)
      else none
  | _, _ => none

end Value

/-! ## The reader -/

/-- `none` is a bracket without an end, at which the reader stops. -/
def bracketed (cs : List Char) : Option (List Char × List Char) :=
  if ']' ∈ cs then some (cs.takeWhile (· ≠ ']'), (cs.dropWhile (· ≠ ']')).tail) else none

/-- The fuel is the number of characters. -/
def tokensFrom : ℕ → List Char → List String
  | fuel + 1, '.' :: cs => tokensFrom fuel cs
  | fuel + 1, '[' :: cs =>
      match bracketed cs with
      | none => []
      | some (inner, rest) =>
          let inner := trim inner
          (if inner = ['*'] then star else String.ofList inner) :: tokensFrom fuel rest
  | fuel + 1, c :: cs =>
      let name := (c :: cs).takeWhile fun c => c ≠ '.' ∧ c ≠ '['
      let rest := (c :: cs).dropWhile fun c => c ≠ '.' ∧ c ≠ '['
      String.ofList name :: tokensFrom fuel rest
  | _, _ => []

def tokenizeJsonPath (normalized : List Char) : List String :=
  let s := trim normalized
  tokensFrom s.length s

def walkPath (js : Js) : List String → Value → Value
  | [], v => v
  | t :: tokens, v =>
      match v.items? with
      | some items =>
          if t = star then
            if tokens = [] then v else .results (items.map (walkPath js tokens))
          else if t = "length" then walkPath js tokens (.json (.num (natNumber items.length)))
          else walkPath js tokens ((if isDigits t then items[digitsValue t]? else none).getD .undefined)
      | none =>
          if t = star then .undefined
          else walkPath js tokens ((v.member (keyText js t)).getD .undefined)

def getByPath (js : Js) (v : Value) (path : String) : Value :=
  walkPath js (tokenizeJsonPath (stripJsonPathPrefix path.toList)) v

/-! ## Conversions -/

/-- The numbers of the language; those that are finite are exact. -/
inductive Number
  | nan
  | infinite (negative : Bool)
  | finite (q : ℚ)
deriving DecidableEq

namespace Number

def text (js : Js) : Number → String
  | nan => "NaN"
  | infinite false => "Infinity"
  | infinite true => "-Infinity"
  | finite q => js.numberText q

/-- `Number(text)` -/
def ofText (s : String) : Number :=
  let t := trim s.toList
  if t = "Infinity".toList ∨ t = "+Infinity".toList then infinite false
  else if t = "-Infinity".toList then infinite true
  else ((numericValue t).map finite).getD nan

def lt : Number → Number → Bool
  | finite q, finite q' => decide (q < q')
  | infinite n, finite _ => n
  | finite _, infinite n => !n
  | infinite n, infinite n' => n && !n'
  | _, _ => false

/-- `===` -/
def same : Number → Number → Bool
  | nan, _ => false
  | x, y => decide (x = y)

end Number

mutual
/-- `String` of a JSON value: `none` where it throws, at a member `toString`, which is no function. -/
def jsonText : Json → Option String
  | .null => some "null"
  | .bool b => some (if b then "true" else "false")
  | .num n => some (String.ofList n.text)
  | .str s => some s
  | .arr items => (itemTexts items).map (",".intercalate ·)
  | .obj fields => if (fields.lookup "toString").isSome then none else some "[object Object]"

/-- Of the items of an array, where `null` has no text. -/
def itemTexts : List Json → Option (List String)
  | [] => some []
  | .null :: items => (itemTexts items).map ("" :: ·)
  | j :: items => (jsonText j).bind fun t => (itemTexts items).map (t :: ·)
end

namespace Value

mutual
/-- `String` -/
def toText : Value → Option String
  | .undefined => some "undefined"
  | .function name =>
      some ("function " ++ (if name = "constructor" then "Object" else name) ++ "() { [native code] }")
  | .prototype => some "[object Object]"
  | .json j => jsonText j
  | .results items => (toTexts items).map (",".intercalate ·)

def toTexts : List Value → Option (List String)
  | [] => some []
  | .undefined :: items | .json .null :: items => (toTexts items).map ("" :: ·)
  | v :: items => (toText v).bind fun t => (toTexts items).map (t :: ·)
end

/-- `Number`, which throws where `String` does. -/
def toNumber (v : Value) : Option Number :=
  match v with
  | .undefined => some .nan
  | .json .null => some (.finite 0)
  | .json (.bool b) => some (.finite (if b then 1 else 0))
  | v => v.toText.map Number.ofText

end Value

end RedFireForge.Engine.JsonPath
