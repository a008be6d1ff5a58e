/-
# `RedFireForge.Mapper.BodyTemplate` — a request body as a template and as a list of mappings

A body is a JSON object with placeholders in its texts.  The mapper takes it for a list of
mappings, each from a reference to a dotted path, and writes a list of mappings back into the body
it began with.  Both are kept in step while either of them is edited.
-/
import RedFireForge.ApiMock.JsonWrites
import RedFireForge.Lib.Grouping
import RedFireForge.Lib.JsonPretty

namespace RedFireForge.Mapper.Body

open RedFireForge.Lib
open RedFireForge.ApiMock (isSpace trim inheritedNames setByPath)

structure Mapping where
  id : String
  sourceId : String
  sourcePath : List Char
  targetPath : List Char
  expression : Option (List Char)
deriving DecidableEq, Repr

structure MapperSource where
  id : String
  /-- the names of the sample data, where it is an object -/
  sampleData : Option (List String)

/-- `JSON.parse`, with `none` for its exception.  What `JSON.stringify` has written is read back, but
for the order of keys: a key of digits may change its place. -/
structure JsonReader where
  parse : String → Option Json
  unique : ∀ text j, parse text = some j → j.EachObject List.Nodup
  blank : ∀ text, trim text.toList = [] → parse text = none
  pretty : ∀ j : Json, j.EachObject List.Nodup → ∃ j', parse j.pretty = some j' ∧ j.SameValue j'

/-! ## Placeholders -/

def placeholder (ref : List Char) : List Char := '{' :: '{' :: (ref ++ ['}', '}'])

/-- `{{([^}]+)}}` at the beginning of a text: what is between the braces. -/
def matchRef : List Char → Option (List Char)
  | '{' :: '{' :: cs =>
      let inner := cs.takeWhile (· ≠ '}')
      if inner ≠ [] ∧ (cs.drop inner.length).take 2 = ['}', '}'] then some inner else none
  | _ => none

/-- The first argument counts the characters that have been matched already. -/
def refsFrom : ℕ → List Char → List (List Char)
  | _, [] => []
  | n + 1, _ :: cs => refsFrom n cs
  | 0, c :: cs =>
      match matchRef (c :: cs) with
      | some inner =>
          if trim inner ≠ [] then trim inner :: refsFrom (inner.length + 3) cs
          else refsFrom (inner.length + 3) cs
      | none => refsFrom 0 cs

def extractBodyTemplateRefs (template : List Char) : List (List Char) := refsFrom 0 template

/-! ## Bodies -/

def parseBodyJson (p : JsonReader) (body : String) : Option (List (String × Json)) :=
  if trim body.toList = [] then none
  else
    match p.parse body with
    | some (.obj fields) => some fields
    | _ => none

def buildPath (segments : List String) : List Char :=
  List.intercalate ['.'] (segments.map String.toList)

mutual
def collectBodyLeafPaths (segments : List String) : Json → List (List Char × Json)
  | .null => if segments ≠ [] then [(buildPath segments, .null)] else []
  | .bool b => if segments ≠ [] then [(buildPath segments, .bool b)] else []
  | .num n => if segments ≠ [] then [(buildPath segments, .num n)] else []
  | .str s => if segments ≠ [] then [(buildPath segments, .str s)] else []
  | .arr items => [(buildPath segments, .arr items)]
  | .obj fields =>
      if fields.isEmpty ∧ segments ≠ [] then [(buildPath segments, .obj fields)]
      else collectFieldPaths segments fields

def collectFieldPaths (segments : List String) : List (String × Json) → List (List Char × Json)
  | [] => []
  | (key, j) :: fields => collectBodyLeafPaths (segments ++ [key]) j ++ collectFieldPaths segments fields
end

/-- `m.expression?.trim() || m.sourcePath?.trim()` -/
def Mapping.ref (m : Mapping) : List Char :=
  let expression := trim (m.expression.getD [])
  if expression ≠ [] then expression else trim m.sourcePath

/-- All placeholders of a target, one after the other. -/
def placeholdersByTarget (mappings : List Mapping) : InsertionMap (List Char) (List Char) :=
  mappings.foldl
    (fun texts m =>
      if trim m.targetPath = [] ∨ m.ref = [] then texts
      else texts.set m.targetPath ((texts.lookup m.targetPath).getD [] ++ placeholder m.ref)) ∅

/-- The object that is written; `none` where the length of an array throws. -/
def buildBody (mappings : List Mapping) (base : List (String × Json)) : Option Json :=
  (placeholdersByTarget mappings).entries.foldlM
    (fun j e => setByPath j e.1 (.str (String.ofList e.2))) (.obj base)

def buildBodyFromMappings (mappings : List Mapping) (baseObj : Option (List (String × Json))) :
    Option String :=
  (buildBody mappings (baseObj.getD [])).map Json.pretty

/-! ## The adapter -/

/-- `ref in sampleData`, with what every object inherits. -/
def MapperSource.has (src : MapperSource) (ref : List Char) : Bool :=
  src.sampleData.any fun names =>
    decide (String.ofList ref ∈ "__proto__" :: (inheritedNames ++ names))

def findSourceForRef (ref : List Char) (sources : List MapperSource) : String :=
  match sources.find? (·.has ref) with
  | some src => src.id
  | none => (sources.head?.map MapperSource.id).getD "__unknown__"

/-- The references in the text of a leaf, with its path. -/
def leafRefs : List Char × Json → List (List Char × List Char)
  | (path, .str s) => (extractBodyTemplateRefs s.toList).map fun ref => (path, ref)
  | _ => []

/-- The adapter of a body writes into this body. -/
def serialize (p : JsonReader) (existingBody : String) (mappings : List Mapping) : Option String :=
  let parsedBody := parseBodyJson p existingBody
  if parsedBody = none ∧ trim existingBody.toList ≠ [] then some existingBody
  else buildBodyFromMappings mappings parsedBody

def deserialize (p : JsonReader) (sources : List MapperSource) (existing : String) : List Mapping :=
  match parseBodyJson p existing with
  | none => []
  | some fields =>
      ((collectBodyLeafPaths [] (.obj fields)).flatMap leafRefs).mapIdx fun n found =>
        { id := "rb-" ++ toString n
          sourceId := findSourceForRef found.2 sources
          sourcePath := found.2
          targetPath := found.1
          expression := none }

/-! ## In step -/

structure SyncResult where
  body : String
  mappings : List Mapping
  bodyChanged : Bool
  mappingsChanged : Bool

structure BodySyncOptions where
  sources : List MapperSource
  /-- `Date.now()` as the mapping of this number is made -/
  now : ℕ → String

/-- All fields that are compared are those of the structure. -/
def mappingsEqual (a b : List Mapping) : Bool := decide (a = b)

def BodySyncOptions.fresh (opts : BodySyncOptions) (path : List Char) (n : ℕ) (ref : List Char) :
    Mapping where
  id := "rb-" ++ toString n ++ "-" ++ opts.now n
  sourceId := findSourceForRef ref opts.sources
  sourcePath := ref
  targetPath := path
  expression := none

/-- The mappings for the references of one leaf: one that there was for it is taken again, but none
twice. -/
def reuse (fresh : ℕ → List Char → Mapping) (candidates : List Mapping) :
    List String → ℕ → List (List Char) → List Mapping
  | _, _, [] => []
  | used, n, ref :: refs =>
      match candidates.find? fun m =>
        decide (m.id ∉ used ∧ (m.sourcePath = ref ∨ m.expression = some ref)) with
      | some m => m :: reuse fresh candidates (m.id :: used) (n + 1) refs
      | none => fresh n ref :: reuse fresh candidates used (n + 1) refs

def syncLeaf (opts : BodySyncOptions) (currentMappings : List Mapping) (made : List Mapping) :
    List Char × Json → List Mapping
  | (path, .str s) =>
      let candidates := ((groupsOf Mapping.targetPath currentMappings).lookup path).getD []
      made ++ reuse (opts.fresh path) candidates [] made.length (extractBodyTemplateRefs s.toList)
  | _ => made

def syncFromTemplate (p : JsonReader) (opts : BodySyncOptions) (newBody : String)
    (currentMappings : List Mapping) : SyncResult :=
  match parseBodyJson p newBody with
  | none =>
      { body := newBody
        mappings := currentMappings
        bodyChanged := false
        mappingsChanged := false }
  | some fields =>
      let newMappings := (collectBodyLeafPaths [] (.obj fields)).foldl (syncLeaf opts currentMappings) []
      { body := newBody
        mappings := newMappings
        bodyChanged := false
        mappingsChanged := !mappingsEqual currentMappings newMappings }

def syncFromVisual (p : JsonReader) (newMappings : List Mapping) (currentBody : String) :
    Option SyncResult :=
  match parseBodyJson p currentBody with
  | none =>
      some
        { body := currentBody
          mappings := newMappings
          bodyChanged := false
          mappingsChanged := false }
  | some baseParsed =>
      (buildBodyFromMappings newMappings (some baseParsed)).map fun newBody =>
        { body := newBody
          mappings := newMappings
          bodyChanged := decide (newBody ≠ currentBody)
          mappingsChanged := false }

end RedFireForge.Mapper.Body
