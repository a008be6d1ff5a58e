/-
# `RedFireForge.ApiMock.NativeJournal` — the journal of the native mock server

The newest transactions of a server, as JSON values: their headers, cookies and JSON bodies
are redacted when they are stored and when they are read back from the snapshot on disk, where
every write succeeds.  New settings leave the entries that are held as they are.

An entry carries the transaction as it was appended, and the header names and the keys of the
paths under which it has been redacted.
-/
import RedFireForge.ApiMock.JsonPath
import RedFireForge.ApiMock.NativeSelector

namespace RedFireForge.ApiMock

open RedFireForge.Lib

/-! ## Settings and state -/

/-- `serde_json::from_str`, whose objects have each key once. -/
structure JsonReader where
  parse : String → Option Json
  parse_unique : ∀ text j, parse text = some j → j.EachObject List.Nodup

structure NativeSettings where
  enabled : Bool
  maxEntries : ℕ
  maxCapturedBodyBytes : ℕ
  persistToDisk : Bool
  headerNames : List String
  jsonPaths : List String
  preserveScheme : Bool

structure NativeEntry where
  tx : Json
  original : Json
  headers : List String
  requestPaths : List (List String)
  responsePaths : List (List String)

/-- A transaction as it comes in. -/
def NativeEntry.ofTx (tx : Json) : NativeEntry := ⟨tx, tx, [], [], []⟩

/-- What is written to the file. -/
structure Snapshot (α : Type) where
  cursor : ℕ
  transactions : List α
  drops : ℕ
  truncations : ℕ

structure NativeJournal where
  entries : List NativeEntry
  cursor : ℕ
  maxEntries : ℕ
  maxBodyBytes : ℕ
  enabled : Bool
  drops : ℕ
  truncations : ℕ
  redactionHeaders : List String
  redactionJsonPaths : List String
  preserveScheme : Bool
  serverId : String
  /-- there is a file, whose name is that of the server -/
  persistFile : Bool
  disk : Option (Snapshot NativeEntry)

namespace NativeJournal

variable (p : JsonReader)

def mark : String := "[REDACTED]"

/-! ## Dotted paths -/

def trimStartDollarDots : List Char → List Char
  | '$' :: '.' :: cs => trimStartDollarDots cs
  | cs => cs

/-- The keys that `set_dotted_path` goes by. -/
def pathParts (path : String) : List String :=
  dotted ((trimStartDollarDots (Native.trimWhitespace path.toList)).dropWhile (· == '$'))

/-- `none` when nothing stands there to be replaced. -/
def setDottedPath (v : Json) : Json → List String → Option Json
  | .obj fields, [key] =>
      if (fields.lookup key).isSome then some (.obj (setField fields key v)) else none
  | .obj fields, key :: key' :: keys =>
      (fields.lookup key).bind fun child =>
        (setDottedPath v child (key' :: keys)).map fun child => .obj (setField fields key child)
  | _, _ => none

/-! ## Redaction -/

def redactHeaderValue (s : NativeJournal) (key value : String) : String :=
  let header := Native.toAsciiLowercase key
  if s.preserveScheme ∧ (header = "authorization" ∨ header = "proxy-authorization") ∧
      ' ' ∈ value.toList then
    String.ofList (value.toList.takeWhile (· ≠ ' ')) ++ " " ++ mark
  else mark

/-- `v.as_str().unwrap_or("")` -/
def asText : Json → String
  | .str text => text
  | _ => ""

def redactHeader (s : NativeJournal) : String × Json → String × Json
  | (key, .arr vals) =>
      if Native.toAsciiLowercase key ∈ s.redactionHeaders then
        (key, .arr (vals.map fun v => .str (s.redactHeaderValue key (asText v))))
      else (key, .arr vals)
  | header => header

def redactHeaderMap (s : NativeJournal) : Json → Json
  | .obj map => .obj (map.map s.redactHeader)
  | j => j

def redactCookies : Json → Json
  | .obj cookies => .obj (cookies.map fun (name, _) => (name, .str mark))
  | j => j

/-- With whether anything has changed. -/
def redactPaths : List String → Json → Json × Bool
  | [], j => (j, false)
  | path :: paths, j =>
      if '[' ∈ path.toList then redactPaths paths j
      else
        match setDottedPath (.str mark) j (pathParts path) with
        | some j => ((redactPaths paths j).1, true)
        | none => redactPaths paths j

/-- The object that a body is parsed to. -/
def bodyObject (body : String) : Option Json :=
  match p.parse body with
  | some (.obj fields) => some (.obj fields)
  | _ => none

def redactText (paths : List String) (body : String) : String :=
  if paths = [] then body
  else
    match bodyObject p body with
    | some j =>
        let (j, changed) := redactPaths paths j
        if changed then j.stringify else body
    | none => body

def redactJsonBody (s : NativeJournal) : Json → Json
  | .str body => .str (redactText p s.redactionJsonPaths body)
  | j => j

def redactRequest (s : NativeJournal) (req : Json) : Json :=
  let req := req.modify "headers" s.redactHeaderMap
  let req := if "cookie" ∈ s.redactionHeaders then req.modify "cookies" redactCookies else req
  req.modify "body" (s.redactJsonBody p)

def redactResponse (s : NativeJournal) (res : Json) : Json :=
  (res.modify "headers" s.redactHeaderMap).modify "body" (s.redactJsonBody p)

def redact (s : NativeJournal) (tx : Json) : Json :=
  (tx.modify "request" (s.redactRequest p)).modify "response" (s.redactResponse p)

/-! ## Cutting bodies -/

def bodyLength (body : String) : ℕ := (body.toList.map Char.utf8Size).sum

/-- The characters that fit into so many bytes. -/
def takeBytes : ℕ → List Char → List Char
  | _, [] => []
  | n, ch :: cs => if ch.utf8Size ≤ n then ch :: takeBytes (n - ch.utf8Size) cs else []

def truncateBody (max : ℕ) : Json → Json
  | .str body =>
      if bodyLength body ≤ max then .str body else .str (String.ofList (takeBytes max body.toList))
  | j => j

/-- `j[key] = v`, which panics on what is neither an object nor `null`. -/
def indexAssign (key : String) (v : Json) : Json → Option Json
  | .obj fields => some (.obj (setField fields key v))
  | .null => some (.obj [(key, v)])
  | _ => none

def textAt (j : Json) (key : String) : Option String :=
  match j.child (.key key) with
  | some (.str text) => some text
  | _ => none

def isLong (max : ℕ) (side : Json) : Bool :=
  (textAt side "body").any fun body => decide (max < bodyLength body)

/-- A request or a response that has a body is an object. -/
def truncateSide (max : ℕ) (side : Json) : Json :=
  let cut := side.modify "body" (truncateBody max)
  if isLong max side then (indexAssign "bodyTruncated" (.bool true) cut).getD cut else cut

def truncate (s : NativeJournal) (tx : Json) : Json :=
  (tx.modify "request" (truncateSide s.maxBodyBytes)).modify "response"
    (truncateSide s.maxBodyBytes)

def sideOf (tx : Json) (side : String) : Option Json := tx.child (.key side)

def sides : List String := ["request", "response"]

def isTruncated (s : NativeJournal) (tx : Json) : Bool :=
  sides.any fun side => (sideOf tx side).any (isLong s.maxBodyBytes)

/-! ## Entries -/

def bodyText (tx : Json) (side : String) : Option String := (sideOf tx side).bind (textAt · "body")

/-- A path with keys and without brackets. -/
def isDotted (path : String) : Bool := !path.toList.contains '[' && !(pathParts path).isEmpty

def dottedKeys (paths : List String) : List (List String) := (paths.filter isDotted).map pathParts

/-- Nothing stands there, or the mark. -/
def isHidden (j : Json) (keys : List String) : Bool := (valueAt j keys).all fun v => v == .str mark

/-- Of the paths of a body before, with those of now if it can be parsed. -/
def pathsNow (paths : List String) (stored : Option String) (before : List (List String)) :
    List (List String) :=
  match stored.bind (bodyObject p) with
  | some j => dottedKeys paths ++ before.filter (isHidden j)
  | none => before

/-- An entry that is redacted and cut under the settings. -/
def readEntry (s : NativeJournal) (e : NativeEntry) : NativeEntry where
  tx := s.truncate (s.redact p e.tx)
  original := e.original
  headers := s.redactionHeaders ++ e.headers
  requestPaths := pathsNow p s.redactionJsonPaths (bodyText e.tx "request") e.requestPaths
  responsePaths := pathsNow p s.redactionJsonPaths (bodyText e.tx "response") e.responsePaths

/-! ## Storing -/

def flush (s : NativeJournal) : NativeJournal :=
  if s.persistFile then { s with disk := some ⟨s.cursor, s.entries, s.drops, s.truncations⟩ }
  else s

def hasId (tx : Json) : Bool := (textAt tx "id").any (· ≠ "")

/-- The transaction with an id; `none` when it panics. -/
def withId (tx : Json) (cursor : ℕ) : Option Json :=
  if hasId tx then some tx else indexAssign "id" (.str ("tx-" ++ toString cursor)) tx

def append (s : NativeJournal) (tx : Json) : Option NativeJournal :=
  let s := { s with cursor := s.cursor + 1 }
  if s.enabled = false ∨ s.maxEntries = 0 then some s
  else
    (withId tx s.cursor).map fun tx =>
      let s := { s with
        truncations :=
          if s.isTruncated (s.redact p tx) then s.truncations + 1 else s.truncations
        drops := if s.maxEntries ≤ s.entries.length then s.drops + 1 else s.drops
        entries :=
          (if s.maxEntries ≤ s.entries.length then s.entries.tail else s.entries) ++
            [s.readEntry p (.ofTx tx)] }
      s.flush

def clear (s : NativeJournal) : NativeJournal :=
  ({ s with entries := [], drops := 0, truncations := 0 } : NativeJournal).flush

/-! ## Settings -/

def isPersistable (tx : Json) : Bool :=
  hasId tx && (sideOf tx "request").any fun request =>
    (textAt request "method").isSome && (textAt request "path").isSome &&
      (request.child (.key "headers")).any fun headers => headers.head == .obj

/-- The last ones that fit. -/
def lastOnes (max : ℕ) (l : List NativeEntry) : List NativeEntry :=
  if 0 < max ∧ max < l.length then l.drop (l.length - max) else l

/-- The entries that a restore takes from the file. -/
def restored (s : NativeJournal) (snap : Snapshot NativeEntry) : List NativeEntry :=
  lastOnes s.maxEntries (snap.transactions.filter fun e => isPersistable e.tx)

def restore (s : NativeJournal) : NativeJournal :=
  if s.maxEntries = 0 ∨ s.persistFile = false then s
  else
    match s.disk with
    | none => s
    | some snap =>
        let entries := s.restored snap
        flush { s with
          drops := snap.drops
          truncations := snap.truncations
          cursor := max snap.cursor entries.length
          entries := entries.map (s.readEntry p) }

/-- The loop that drops the oldest entries, with how many. -/
def dropOldest (max : ℕ) : List NativeEntry → List NativeEntry × ℕ
  | [] => ([], 0)
  | e :: l =>
      if max < (e :: l).length ∧ 0 < max then ((dropOldest max l).1, (dropOldest max l).2 + 1)
      else (e :: l, 0)

def hardMaxEntries : ℕ := 500

def withSettings (s : NativeJournal) (settings : NativeSettings) : NativeJournal :=
  let kept := dropOldest (min settings.maxEntries hardMaxEntries) s.entries
  { s with
    maxEntries := min settings.maxEntries hardMaxEntries
    maxBodyBytes := settings.maxCapturedBodyBytes
    enabled := settings.enabled
    redactionHeaders := settings.headerNames.map Native.toAsciiLowercase
    redactionJsonPaths := settings.jsonPaths
    preserveScheme := settings.preserveScheme
    persistFile := settings.persistToDisk && s.serverId != ""
    entries := kept.1
    drops := s.drops + kept.2 }

/-- An update starts to use the file. -/
def loads (s : NativeJournal) (settings : NativeSettings) : Bool :=
  let s' := s.withSettings settings
  s'.persistFile && s'.enabled && s'.entries.isEmpty && decide (0 < s'.maxEntries) &&
    (!s.persistFile || !s.enabled)

def updateSettings (s : NativeJournal) (settings : NativeSettings) : NativeJournal :=
  if s.loads settings then (s.withSettings settings).restore p
  else (s.withSettings settings).flush

/-- What the constructor starts from: in the file are transactions of earlier servers. -/
def blank (settings : NativeSettings) (serverId : String) (disk : Option (Snapshot Json)) :
    NativeJournal where
  entries := []
  cursor := 0
  maxEntries := min settings.maxEntries hardMaxEntries
  maxBodyBytes := settings.maxCapturedBodyBytes
  enabled := settings.enabled
  drops := 0
  truncations := 0
  redactionHeaders := settings.headerNames.map Native.toAsciiLowercase
  redactionJsonPaths := settings.jsonPaths
  preserveScheme := settings.preserveScheme
  serverId
  persistFile := settings.persistToDisk && serverId != ""
  disk := disk.map fun snap =>
    ⟨snap.cursor, snap.transactions.map .ofTx, snap.drops, snap.truncations⟩

def forServer (settings : NativeSettings) (serverId : String) (disk : Option (Snapshot Json)) :
    NativeJournal :=
  let s := blank settings serverId disk
  if s.persistFile ∧ s.enabled ∧ 0 < s.maxEntries then s.restore p else s

end NativeJournal

end RedFireForge.ApiMock
