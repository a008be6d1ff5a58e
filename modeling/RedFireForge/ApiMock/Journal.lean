/-
# `RedFireForge.ApiMock.Journal` — the transaction journal of a mock server

A ring buffer of transactions, whose headers, cookies and JSON bodies are redacted and whose
bodies are cut before they are stored.  A client polls it page by page; a snapshot of it is
kept on disk, where every write succeeds.

An entry carries its place among all that were ever stored, the transaction as it came in,
and for each body the paths that were configured when it could last be parsed.  A character
that is cut in half is left out of a body.
-/
import RedFireForge.Lib.Ring
import RedFireForge.ApiMock.JsonPath

namespace RedFireForge.ApiMock

open RedFireForge.Lib

/-! ## Transactions -/

/-- A header of one value or of many. -/
inductive HeaderValue
  | one (s : String)
  | many (l : List String)
deriving DecidableEq

abbrev HeaderMap := List (String × Option HeaderValue)

structure LoggedRequest where
  method : String
  path : String
  headers : HeaderMap
  cookies : Option (List (String × String))
  body : Option String
  bodyTruncated : Bool
deriving DecidableEq

structure ResponseCookie where
  name : String
  value : String
deriving DecidableEq

structure LoggedResponse where
  headers : HeaderMap
  cookies : Option (List ResponseCookie)
  body : Option String
  bodyTruncated : Bool
deriving DecidableEq

structure Transaction where
  request : LoggedRequest
  response : Option LoggedResponse
  outcome : String
deriving DecidableEq

/-! ## Settings and state -/

def hardMaxJournalEntries : ℕ := 500

def hardMaxCapturedBodyBytes : ℕ := 1048576

structure JournalConfig where
  js : Js
  /-- `JSON.parse`, whose objects have each key once -/
  parse : String → Option Json
  parse_unique : ∀ text j, parse text = some j → j.EachObject List.Nodup
  settingsMaxEntries : ℕ
  settingsMaxCapturedBodyBytes : ℕ
  /-- there is a file for the snapshot -/
  persistFile : Bool

def JournalConfig.maxEntries (c : JournalConfig) : ℕ := min c.settingsMaxEntries hardMaxJournalEntries

def JournalConfig.maxBodyBytes (c : JournalConfig) : ℕ :=
  min c.settingsMaxCapturedBodyBytes hardMaxCapturedBodyBytes

theorem JournalConfig.maxEntries_le (c : JournalConfig) : c.maxEntries ≤ hardMaxJournalEntries :=
  Nat.min_le_right _ _

/-- The settings that can be updated. -/
structure JournalSettings where
  headerNames : List String
  jsonPaths : List String
  preserveScheme : Bool
  enabled : Bool
  persistToDisk : Bool

structure JournalEntry where
  tx : Transaction
  seq : ℕ
  original : Transaction
  requestPaths : List String
  responsePaths : List String

structure JournalSnapshot where
  cursor : ℕ
  transactions : List Transaction
  drops : ℕ
  truncations : ℕ

structure Journal (c : JournalConfig) where
  ring : Ring JournalEntry c.maxEntries
  cursorCounter : ℕ
  redactionHeaders : List String
  redactionJsonPaths : List String
  preserveScheme : Bool
  persistToDisk : Bool
  journalEnabled : Bool
  drops : ℕ
  truncations : ℕ
  disk : Option JournalSnapshot
  /-- how many entries were ever stored -/
  stored : ℕ

namespace Journal

variable {c : JournalConfig}

def toOrdered (s : Journal c) : List JournalEntry := s.ring.toList

/-! ## Redaction -/

def mark : String := "[REDACTED]"

def redactHeaderValue (s : Journal c) (key value : String) : String :=
  let header := c.js.toLowerCase key
  let spaceIdx := value.toList.findIdx (· == ' ')
  if s.preserveScheme ∧ (header = "authorization" ∨ header = "proxy-authorization") ∧
      0 < spaceIdx ∧ spaceIdx < value.toList.length then
    String.ofList (value.toList.take spaceIdx) ++ " " ++ mark
  else mark

def headerList : Option HeaderValue → List String
  | some (.many l) => l
  | some (.one v) => [v]
  | none => []

def redactHeaderMap (s : Journal c) (headers : HeaderMap) : HeaderMap :=
  headers.map fun (key, values) =>
    if c.js.toLowerCase key ∈ s.redactionHeaders then
      (key, some (.many ((headerList values).map (s.redactHeaderValue key))))
    else (key, some (.many (headerList values)))

def redactCookieMap (s : Journal c) : Option (List (String × String)) → List (String × String)
  | none => []
  | some cookies =>
      if "cookie" ∈ s.redactionHeaders then cookies.map fun (k, _) => (k, mark) else cookies

def redactResponseCookies (s : Journal c) : Option (List ResponseCookie) → List ResponseCookie
  | none => []
  | some cookies =>
      if "set-cookie" ∈ s.redactionHeaders then cookies.map fun k => { k with value := mark }
      else cookies

/-- One path of the loop in `redactJsonBody`, with whether anything has changed. -/
def redactPath (js : Js) (j : Json) (raw : String) : Option (Json × Bool) :=
  let path := trim raw.toList
  if path = [] ∨ '[' ∈ path then some (j, false)
  else if getByPath js j path = .undefined then some (j, false)
  else (setByPath j path (.str mark)).map fun j => (j, true)

def redactPaths (js : Js) : List String → Json → Option (Json × Bool)
  | [], j => some (j, false)
  | raw :: paths, j =>
      (redactPath js j raw).bind fun (j, changed) =>
        (redactPaths js paths j).map fun (j, changed') => (j, changed || changed')

/-- The object that a body is parsed to. -/
def bodyObject (c : JournalConfig) (body : String) : Option Json :=
  match c.parse body with
  | some (.obj fields) => some (.obj fields)
  | _ => none

/-- `none` when it throws. -/
def redactJsonBody (c : JournalConfig) (paths : List String) : Option String → Option (Option String)
  | none => some none
  | some body =>
      if paths = [] then some (some body)
      else
        match bodyObject c body with
        | some j =>
            (redactPaths c.js paths j).map fun (j, changed) =>
              some (if changed then j.stringify else body)
        | none => some (some body)

def redactResponse (s : Journal c) (r : LoggedResponse) : Option LoggedResponse :=
  (redactJsonBody c s.redactionJsonPaths r.body).map fun body =>
    { r with
      headers := s.redactHeaderMap r.headers
      cookies := some (s.redactResponseCookies r.cookies)
      body }

def redactTransaction (s : Journal c) (tx : Transaction) : Option Transaction :=
  (redactJsonBody c s.redactionJsonPaths tx.request.body).bind fun body =>
    (tx.response.elim (some none) fun r => (s.redactResponse r).map some).map fun response =>
      { tx with
        request := { tx.request with
          headers := s.redactHeaderMap tx.request.headers
          cookies := some (s.redactCookieMap tx.request.cookies)
          body }
        response }

/-! ## Cutting bodies -/

/-- How many code units a character takes. -/
def units (ch : Char) : ℕ := if ch.toNat < 0x10000 then 1 else 2

def bodyLength (body : String) : ℕ := (body.toList.map units).sum

/-- The characters that fit into so many code units. -/
def takeUnits : ℕ → List Char → List Char
  | _, [] => []
  | n, ch :: cs => if units ch ≤ n then ch :: takeUnits (n - units ch) cs else []

def isLong (c : JournalConfig) (body : Option String) : Bool :=
  body.any fun b => decide (c.maxBodyBytes < bodyLength b)

def cutBody (c : JournalConfig) (body : Option String) : Option String :=
  body.map fun b =>
    if c.maxBodyBytes < bodyLength b then String.ofList (takeUnits c.maxBodyBytes b.toList) else b

def truncateBodies (c : JournalConfig) (tx : Transaction) : Transaction :=
  { tx with
    request := { tx.request with
      body := cutBody c tx.request.body
      bodyTruncated := tx.request.bodyTruncated || isLong c tx.request.body }
    response := tx.response.map fun r =>
      { r with body := cutBody c r.body, bodyTruncated := r.bodyTruncated || isLong c r.body } }

def isTruncated (c : JournalConfig) (tx : Transaction) : Bool :=
  isLong c tx.request.body || isLong c (tx.response.bind LoggedResponse.body)

/-! ## Storing -/

/-- Of the paths when a body could last be parsed, with those of now. -/
def pathsNow (c : JournalConfig) (body : Option String) (paths before : List String) : List String :=
  if (body.bind (bodyObject c)).isSome then paths else before

/-- The entry of a transaction that was read with these paths. -/
def entryOf (s : Journal c) (tx stored : Transaction) (seq : ℕ) : JournalEntry where
  tx := stored
  seq := seq
  original := tx
  requestPaths := pathsNow c tx.request.body s.redactionJsonPaths []
  responsePaths := pathsNow c (tx.response.bind LoggedResponse.body) s.redactionJsonPaths []

def flushToDisk (s : Journal c) : Journal c :=
  if s.persistToDisk ∧ c.persistFile then
    { s with disk := some ⟨s.cursorCounter, s.toOrdered.map JournalEntry.tx, s.drops, s.truncations⟩ }
  else s

/-- With whether it throws. -/
def append (s : Journal c) (tx : Transaction) : Journal c × Bool :=
  let s := { s with cursorCounter := s.cursorCounter + 1 }
  if h : s.journalEnabled = false ∨ c.maxEntries = 0 then (s, false)
  else
    match s.redactTransaction tx with
    | none => (s, true)
    | some redacted =>
        let entry := s.entryOf tx (truncateBodies c redacted) s.stored
        let s := { s with
          truncations := if isTruncated c redacted then s.truncations + 1 else s.truncations
          drops := if s.ring.count < c.maxEntries then s.drops else s.drops + 1
          ring := s.ring.push (Nat.pos_of_ne_zero (not_or.mp h).2) entry
          stored := s.stored + 1 }
        (s.flushToDisk, false)

def clear (s : Journal c) : Journal c :=
  let s := { s with ring := .empty, drops := 0, truncations := 0 }
  if s.persistToDisk then s.flushToDisk
  else if c.persistFile then { s with disk := some ⟨s.cursorCounter, [], 0, 0⟩ }
  else s

/-! ## Settings -/

/-- The entry of a transaction that was loaded. -/
def restoreOne (s : Journal c) (tx : Transaction) (seq : ℕ) : Option JournalEntry :=
  (s.redactTransaction tx).map fun redacted => s.entryOf tx (truncateBodies c redacted) seq

def restoreAll (s : Journal c) : List Transaction → ℕ → Option (List JournalEntry)
  | [], _ => some []
  | tx :: txs, seq =>
      (s.restoreOne tx seq).bind fun e => (s.restoreAll txs (seq + 1)).map (e :: ·)

theorem length_restoreAll {s : Journal c} {txs : List Transaction} {seq : ℕ} {l : List JournalEntry}
    (h : s.restoreAll txs seq = some l) : l.length = txs.length := by
  induction txs generalizing seq l with
  | nil =>
      cases h
      rfl
  | cons tx txs ih =>
      obtain ⟨e, -, hrest⟩ := Option.bind_eq_some_iff.mp h
      obtain ⟨l', hl', rfl⟩ := Option.map_eq_some_iff.mp hrest
      rw [List.length_cons, List.length_cons, ih hl']

/-- The last ones that fit: `slice(-this.maxEntries)`. -/
def lastOnes (c : JournalConfig) (txs : List Transaction) : List Transaction :=
  txs.drop (txs.length - c.maxEntries)

theorem length_lastOnes (txs : List Transaction) : (lastOnes c txs).length ≤ c.maxEntries := by
  rw [lastOnes, List.length_drop]
  omega

def restoreFromDisk (s : Journal c) : Journal c × Bool :=
  if c.persistFile = false ∨ c.maxEntries = 0 then (s, false)
  else
    match s.disk with
    | none => (s, false)
    | some snap =>
        match h : s.restoreAll (lastOnes c snap.transactions) s.stored with
        | none => (s, true)
        | some txs =>
            let s := { s with
              ring := .ofList txs (length_restoreAll h ▸ length_lastOnes _)
              cursorCounter := max snap.cursor txs.length
              drops := snap.drops
              truncations := snap.truncations
              stored := s.stored + txs.length }
            (s.flushToDisk, false)

/-- An entry under the settings of now. -/
def reapplyOne (s : Journal c) (e : JournalEntry) : Option JournalEntry :=
  (s.redactTransaction e.tx).map fun redacted =>
    { e with
      tx := truncateBodies c redacted
      requestPaths := pathsNow c e.tx.request.body s.redactionJsonPaths e.requestPaths
      responsePaths :=
        pathsNow c (e.tx.response.bind LoggedResponse.body) s.redactionJsonPaths e.responsePaths }

/-- Up to the first entry where it throws. -/
def reapplyAll (s : Journal c) : List JournalEntry → List JournalEntry × Bool
  | [] => ([], false)
  | e :: l =>
      match s.reapplyOne e with
      | none => (e :: l, true)
      | some e => (e :: (s.reapplyAll l).1, (s.reapplyAll l).2)

theorem length_reapplyAll {s : Journal c} (l : List JournalEntry) :
    (s.reapplyAll l).1.length = l.length := by
  induction l with
  | nil => rfl
  | cons e l ih =>
      rw [reapplyAll]
      split
      · rfl
      · rw [List.length_cons, List.length_cons, ih]

def reapplyRedaction (s : Journal c) : Journal c × Bool :=
  let l := s.reapplyAll s.toOrdered
  ({ s with ring := s.ring.withList l.1 ((length_reapplyAll _).trans Ring.length_toList) }, l.2)

theorem toOrdered_reapplyRedaction (s : Journal c) :
    s.reapplyRedaction.1.toOrdered = (s.reapplyAll s.toOrdered).1 :=
  Ring.toList_withList ((length_reapplyAll _).trans Ring.length_toList)

def withSettings (s : Journal c) (settings : JournalSettings) : Journal c :=
  { s with
    redactionHeaders := settings.headerNames.map c.js.toLowerCase
    redactionJsonPaths := settings.jsonPaths
    preserveScheme := settings.preserveScheme
    journalEnabled := settings.enabled
    persistToDisk := settings.persistToDisk && c.persistFile }

def updateSettings (s : Journal c) (settings : JournalSettings) : Journal c × Bool :=
  let journalEnabling := settings.enabled && !s.journalEnabled
  let persistEnabling := settings.persistToDisk && c.persistFile && !s.persistToDisk
  let s := s.withSettings settings
  if s.journalEnabled ∧ s.persistToDisk ∧ s.ring.count = 0 ∧ (persistEnabling ∨ journalEnabling) then
    s.restoreFromDisk
  else
    match s.reapplyRedaction with
    | (s, true) => (s, true)
    | (s, false) => (if s.persistToDisk then s.flushToDisk else s, false)

/-- What the constructor starts from. -/
def blank (c : JournalConfig) (settings : JournalSettings) (disk : Option JournalSnapshot) :
    Journal c where
  ring := .empty
  cursorCounter := 0
  redactionHeaders := settings.headerNames.map c.js.toLowerCase
  redactionJsonPaths := settings.jsonPaths
  preserveScheme := settings.preserveScheme
  persistToDisk := settings.persistToDisk && c.persistFile
  journalEnabled := settings.enabled
  drops := 0
  truncations := 0
  disk
  stored := 0

/-- The constructor, which throws with its restore. -/
def construct (c : JournalConfig) (settings : JournalSettings) (disk : Option JournalSnapshot) :
    Journal c × Bool :=
  let s := blank c settings disk
  if s.persistToDisk ∧ s.journalEnabled then s.restoreFromDisk else (s, false)

/-! ## Queries -/

structure Query where
  /-- `0` stands for none -/
  afterCursor : ℕ
  limit : Option ℕ
  methodFilter : Option String
  pathFilter : Option String
  outcomeFilter : Option String

/-- A filter that is there and not empty. -/
def filterOf (o : Option String) : Option String := o.filter (· ≠ "")

def Query.admits (c : JournalConfig) (q : Query) (e : JournalEntry) : Bool :=
  (filterOf q.methodFilter).all (fun m => e.tx.request.method == c.js.toUpperCase m) &&
    (filterOf q.pathFilter).all (fun p => decide ((c.js.toLowerCase p).toList <:+:
      (c.js.toLowerCase e.tx.request.path).toList)) &&
    (filterOf q.outcomeFilter).all (fun o => e.tx.outcome == o)

structure Page where
  transactions : List JournalEntry
  cursor : ℕ
  total : ℕ
  capped : Bool

def query (s : Journal c) (q : Query) : Page :=
  let filtered := s.toOrdered.filter (q.admits c)
  let limit := min (q.limit.getD hardMaxJournalEntries) hardMaxJournalEntries
  let startIdx :=
    if q.afterCursor = 0 then 0
    else ((List.range filtered.length).find? (fun i => q.afterCursor ≤ i)).getD filtered.length
  { transactions := (filtered.drop startIdx).take limit
    cursor := s.cursorCounter
    total := s.ring.count
    capped := decide (c.maxEntries ≤ s.ring.count ∧ 0 < c.maxEntries) }

end Journal

end RedFireForge.ApiMock
