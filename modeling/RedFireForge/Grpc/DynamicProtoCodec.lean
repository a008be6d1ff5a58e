/-
# `RedFireForge.Grpc.DynamicProtoCodec` — JSON bodies on their way to protobuf and back

A body is given the field names of the protobuf root, its 64-bit integers become objects of
the library and its timestamps pairs of seconds and nanoseconds; what is decoded is given the
names of the schema again and its timestamps their texts.  Each of the three passes goes down
by the fields of a type, and each has its own cases for repeated fields and maps.

The library is a parameter.  A recursion has a depth that it may go to.
-/
import RedFireForge.ApiMock.JsonPath
import RedFireForge.Lib.Calendar
import RedFireForge.Lib.FieldLoop
import RedFireForge.Lib.Number

namespace RedFireForge.Grpc.DynamicProtoCodec

open RedFireForge.Lib
open RedFireForge.ApiMock (trim)

/-! ## Values -/

inductive Val
  | null
  | bool (b : Bool)
  | num (q : ℚ)
  | str (s : String)
  /-- a 64-bit integer as an object of the library -/
  | long (n : ℤ)
  | arr (items : List Val)
  | obj (entries : List (String × Val))

abbrev Obj := List (String × Val)

/-- A value without the order of its keys. -/
inductive Tree
  | null
  | bool (b : Bool)
  | num (q : ℚ)
  | str (s : String)
  | long (n : ℤ)
  | arr (items : List Tree)
  | obj (get : String → Option Tree)

mutual

def Val.tree : Val → Tree
  | .null => .null
  | .bool b => .bool b
  | .num q => .num q
  | .str s => .str s
  | .long n => .long n
  | .arr items => .arr (treesOf items)
  | .obj entries => .obj (treeAt entries)

def treesOf : List Val → List Tree
  | [] => []
  | v :: vs => v.tree :: treesOf vs

def treeAt : List (String × Val) → String → Option Tree
  | [], _ => none
  | (k, v) :: es, key => if key = k then some v.tree else treeAt es key

end

/-! ## Types -/

inductive FieldType (τ : Type)
  | scalar (name : String)
  /-- `resolvedType` is a message type -/
  | message (t : τ)

inductive Label
  | single | repeated | map
deriving DecidableEq, Repr

/-- A field of a type of the root, and the name of the field in the schema of the descriptor. -/
structure Field (τ : Type) where
  name : String
  schemaName : String
  type : FieldType τ
  label : Label

/-- The names of reflection roots: `_x` becomes `X`, after the first character. -/
def camelTail : List Char → List Char
  | '_' :: c :: cs => if c.isLower then c.toUpper :: camelTail cs else '_' :: camelTail (c :: cs)
  | c :: cs => c :: camelTail cs
  | [] => []

def camelCase (name : String) : String :=
  match name.toList with
  | [] => ""
  | c :: cs => String.ofList (c :: camelTail cs)

/-- The fields of the type that the stub of `google.protobuf.Timestamp` has. -/
def timestampFields {τ : Type} : List (Field τ) :=
  [⟨"seconds", "seconds", .scalar "int64", .single⟩, ⟨"nanos", "nanos", .scalar "int32", .single⟩]

structure Root (τ : Type) where
  fieldsArray : τ → List (Field τ)
  isTimestampType : τ → Bool
  /-- the library takes no field twice -/
  names : ∀ t, ((fieldsArray t).map Field.name).Nodup
  schemaNames : ∀ t, ((fieldsArray t).map Field.schemaName).Nodup
  timestamp : ∀ t, isTimestampType t = true → fieldsArray t = timestampFields
  /-- the names of the schema are kept, or those of reflection are given -/
  named : (∀ t, ∀ f ∈ fieldsArray t, f.name = f.schemaName) ∨
    (∀ t, ∀ f ∈ fieldsArray t, f.name = camelCase f.schemaName)

/-- `protobuf.util.Long.fromString`, and for a type `verify`, `encode` after `create`, and
`toObject` after `decode`, with long integers, enumerations and bytes as texts and with
defaults. -/
structure Library (τ β : Type) where
  longFromString : List Char → Bool → Except String ℤ
  verify : τ → Obj → Option String
  encode : τ → Obj → β
  toObject : τ → β → Obj

/-! ## 64-bit integers -/

def wideLongFieldTypes : List String := ["int64", "uint64", "sint64", "fixed64", "sfixed64"]

def isUnsignedWideLongFieldType (fieldType : String) : Bool := fieldType == "uint64" || fieldType == "fixed64"

section Passes

variable {τ β : Type} (lib : Library τ β) (root : Root τ)

def longFromDecimalString (value : String) (fieldType : String) : Except String Val :=
  match lib.longFromString (trim value.toList) (isUnsignedWideLongFieldType fieldType) with
  | .ok n => .ok (.long n)
  | .error message => .error ("Invalid 64-bit integer \"" ++ value ++ "\": " ++ message)

def isSafeInteger (q : ℚ) : Bool := q.isInt && decide (|q| ≤ 9007199254740991)

def coerceWideLongForEncode (value : Val) (fieldType : String) : Except String Val :=
  match value with
  | .str s => longFromDecimalString lib s fieldType
  | .num q => if isSafeInteger q then longFromDecimalString lib (toString q.num) fieldType else .ok value
  | _ => .ok value

/-! ## Names -/

def protobufCamelToSnake (name : String) : String :=
  String.ofList (name.toList.flatMap fun c => if c.isUpper then ['_', c.toLower] else [c.toLower])

/-! ## Timestamps -/

/-- `Date.parse`: texts of another form are up to the platform. -/
def dateParse (other : String → Option ℤ) (s : String) : Option ℤ := (isoInstant s.toList).orElse fun _ => other s

/-- `new Date(ms).toISOString()` -/
def toISOString (ms : ℚ) : Except String String :=
  if |ms| ≤ 8640000000000000 then
    .ok (String.ofList (isoText (if 0 ≤ ms then ms.floor else ms.ceil)))
  else .error "Invalid time value"

def timestampInputToWireObject (other : String → Option ℤ) : Val → Except String Val
  | .str raw =>
      match dateParse other raw with
      | none => .error ("Invalid RFC3339/ISO8601 timestamp: \"" ++ raw ++ "\"")
      | some ms =>
          let seconds := ms / 1000
          let nanos := (ms - seconds * 1000) * 1000000
          .ok (.obj [("seconds", .str (toString seconds)), ("nanos", .num nanos)])
  | raw => .ok raw

/-- `Number(value ?? 0)`; `none` is `NaN`.  The library gives out texts and numbers here. -/
def numberOf : Option Val → Option ℚ
  | none => some 0
  | some .null => some 0
  | some (.bool b) => some (if b then 1 else 0)
  | some (.num q) => some q
  | some (.str s) => numericValue (trim s.toList)
  | some _ => none

def timestampWireObjectToIso : Val → Except String Val
  | .obj record =>
      match numberOf (record.lookup "seconds"), numberOf (record.lookup "nanos") with
      | some seconds, some nanos => (toISOString (seconds * 1000 + nanos / 1000000)).map Val.str
      | _, _ => .ok (.obj record)
  | value => .ok value

/-! ## The pass over names on the way in -/

/-- What is done to a value that is there. -/
def alignedValue (recur : τ → Obj → Obj) (field : Field τ) (value : Val) : Val :=
  match field.type with
  | .scalar _ => value
  | .message t =>
      match field.label, value with
      | .repeated, .arr items =>
          .arr (items.map fun item =>
            match item with
            | .obj o => .obj (recur t o)
            | item => item)
      | .single, .obj o => .obj (recur t o)
      | _, value => value

/-- A value that has the name of the schema only is given the one of the root. -/
def renamed (next : Obj) (field : Field τ) : Obj :=
  let schemaName := protobufCamelToSnake field.name
  match next.lookup schemaName, next.lookup field.name with
  | some v, none => if schemaName ≠ field.name then dropKey (putKey next field.name v) schemaName else next
  | _, _ => next

def alignField (recur : τ → Obj → Obj) (next : Obj) (field : Field τ) : Obj :=
  let next := renamed next field
  match next.lookup field.name with
  | none => next
  | some .null => next
  | some value => putKey next field.name (alignedValue recur field value)

def alignBodyToProtobufFieldNames : ℕ → τ → Obj → Obj
  | 0, _, body => body
  | depth + 1, t, body =>
      (root.fieldsArray t).foldl (alignField (alignBodyToProtobufFieldNames depth)) body

/-! ## The pass on the way out -/

def decodedItem (recur : τ → Obj → Except String Obj) (t : τ) (item : Val) : Except String Val :=
  if root.isTimestampType t then timestampWireObjectToIso item
  else
    match item with
    | .obj o => (recur t o).map Val.obj
    | item => .ok item

def decodedValue (recur : τ → Obj → Except String Obj) (field : Field τ) (value : Val) : Except String Val :=
  match field.type with
  | .scalar _ => .ok value
  | .message t =>
      match field.label, value with
      | .map, .obj o =>
          if root.isTimestampType t then
            ((ownEntries o).mapM fun e => (timestampWireObjectToIso e.2).map fun v => (e.1, v)).map Val.obj
          else .ok value
      | .repeated, .arr items => (items.mapM (decodedItem root recur t)).map Val.arr
      | .single, .obj _ => decodedItem root recur t value
      | _, value => .ok value

def alignDecodedField (recur : τ → Obj → Except String Obj) (next : Obj) (field : Field τ) : Except String Obj :=
  let schemaName := protobufCamelToSnake field.name
  match (next.lookup field.name).orElse fun _ => next.lookup schemaName with
  | none => .ok next
  | some value => do
      let value ← decodedValue root recur field value
      let next := putKey next schemaName value
      .ok (if schemaName ≠ field.name then dropKey next field.name else next)

def alignDecodedBodyToSchemaNames : ℕ → τ → Obj → Except String Obj
  | 0, _, body => .ok body
  | depth + 1, t, body =>
      (root.fieldsArray t).foldlM (alignDecodedField root (alignDecodedBodyToSchemaNames depth)) body

/-! ## The pass over values on the way in -/

variable (other : String → Option ℤ)

/-- `{ ...value }` -/
def spread : Val → Obj
  | .obj o => o
  | .arr items => items.zipIdx.map fun x => (toString x.2, x.1)
  | _ => []

/-- A timestamp is given the shape of the wire first. -/
def timestampItem (recur : τ → Obj → Except String Obj) (t : τ) (item : Val) : Except String Val := do
  let wire ← timestampInputToWireObject other item
  (recur t (spread wire)).map Val.obj

def normalizedValue (recur : τ → Obj → Except String Obj) (field : Field τ) (raw : Val) : Except String Val :=
  match field.label, field.type, raw with
  | .map, .message t, .obj o =>
      if root.isTimestampType t then
        ((ownEntries o).mapM fun e => (timestampItem other recur t e.2).map fun v => (e.1, v)).map Val.obj
      else .ok raw
  | .map, .scalar name, .obj o =>
      if name ∈ wideLongFieldTypes then
        ((ownEntries o).mapM fun e => (coerceWideLongForEncode lib e.2 name).map fun v => (e.1, v)).map Val.obj
      else .ok raw
  | .map, _, _ => .ok raw
  | .repeated, .message t, .arr items =>
      (items.mapM fun item =>
        if root.isTimestampType t then timestampItem other recur t item
        else
          match item with
          | .obj o => (recur t o).map Val.obj
          | item => .ok item).map Val.arr
  | .repeated, .scalar name, .arr items =>
      if name ∈ wideLongFieldTypes then
        (items.mapM fun item => coerceWideLongForEncode lib item name).map Val.arr
      else .ok raw
  | .repeated, _, _ => .ok raw
  | .single, .message t, raw =>
      if root.isTimestampType t then timestampItem other recur t raw
      else
        match raw with
        | .obj o => (recur t o).map Val.obj
        | raw => .ok raw
  | .single, .scalar name, raw =>
      if name ∈ wideLongFieldTypes then coerceWideLongForEncode lib raw name else .ok raw

def normalizeField (recur : τ → Obj → Except String Obj) (next : Obj) (field : Field τ) : Except String Obj :=
  match next.lookup field.name with
  | none => .ok next
  | some .null => .ok next
  | some raw => (normalizedValue lib root other recur field raw).map (putKey next field.name)

def normalizeBodyForEncode : ℕ → τ → Obj → Except String Obj
  | 0, _, body => .ok body
  | depth + 1, t, body =>
      (root.fieldsArray t).foldlM (normalizeField lib root other (normalizeBodyForEncode depth)) body

/-! ## Messages -/

def encodeProtoMessage (typeName : String) (depth : ℕ) (t : τ) (body : Obj) : Except String β := do
  let alignedBody := alignBodyToProtobufFieldNames root depth t body
  let normalizedBody ← normalizeBodyForEncode lib root other depth t alignedBody
  match lib.verify t normalizedBody with
  | some err => .error ("Invalid request body for " ++ typeName ++ ": " ++ err)
  | none => .ok (lib.encode t normalizedBody)

def decodeProtoMessage (depth : ℕ) (t : τ) (buffer : β) : Except String Obj :=
  alignDecodedBodyToSchemaNames root depth t (lib.toObject t buffer)

end Passes

end RedFireForge.Grpc.DynamicProtoCodec
