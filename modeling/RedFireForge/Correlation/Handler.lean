/-
# `RedFireForge.Correlation.Handler` — the server's correlation handler

An entry is paused under its correlation id, and removed by a webhook callback, a Kafka
message, a direct resume or a cancel.  A callback and a message are matched against the
entries of their path, and recorded under an idempotency key.

The entries are those of the in-memory store.  The log of unmatched webhooks and the
console are left out.  A path reads the own fields of an object, the items of an array and
its length.
-/
import RedFireForge.Correlation.ResumeDesk

namespace RedFireForge.Correlation

open RedFireForge.Lib

/-! ## Requests and messages -/

/-- A header, or a query parameter. -/
inductive FieldValue
  | one (s : String)
  | many (l : List String)
deriving DecidableEq

/-- `String(value)` -/
def FieldValue.text : FieldValue → String
  | .one s => s
  | .many l => ",".intercalate l

structure CallbackRequest where
  webhookPath : String
  ip : String
  headers : List (String × FieldValue)
  query : List (String × FieldValue)
  body : Option Json
deriving DecidableEq

/-- `body ?? {}` -/
def CallbackRequest.payload (req : CallbackRequest) : Json :=
  match req.body with
  | none | some .null => .obj []
  | some j => j

/-- What other modules of the server decide, and the settings. -/
structure HandlerConfig where
  isSecurityEnabled : Bool
  isIpAllowed : String → Bool
  /-- `none` when the signature is valid, else the reason; so the next two -/
  validateRequestSignature : CallbackRequest → Option String
  extractAndVerifyToken : (token correlationId webhookPath : String) → Option String
  evaluateWebhookFilter : String → Json → Option String
  /-- `JSON.parse` -/
  parse : String → Option Json
  ttlMs : ℚ
  maxEntries : ℕ
  /-- the execution and the workflow of each bridge -/
  executionId : ℕ → String
  workflowId : ℕ → String

/-! ## Correlation ids -/

/-- A text that is there and not empty. -/
def truthy (o : Option String) : Option String := o.filter (· ≠ "")

mutual
/-- `String(value)`, of a value that is not `null`. -/
def Json.toText : Json → String
  | .null => ""
  | .bool b => if b then "true" else "false"
  | .num n => String.ofList n.text
  | .str s => s
  | .arr items => ",".intercalate (Json.itemTexts items)
  | .obj _ => "[object Object]"

/-- An item that is `null` is joined as nothing. -/
def Json.itemTexts : List Json → List String
  | [] => []
  | j :: items => Json.toText j :: Json.itemTexts items
end

def arrayIndex (part : String) : Option ℕ := part.toNat?.filter (fun n => toString n == part)

/-- Where the segments of a path lead, as text. -/
def walk : Json → List String → Option String
  | .null, [] => none
  | j, [] => some (Json.toText j)
  | .obj fields, part :: parts => (fields.lookup part).bind fun j => walk j parts
  | .arr items, part :: parts =>
      if part = "length" then if parts = [] then some (toString items.length) else none
      else (arrayIndex part).bind fun i => items[i]?.bind fun j => walk j parts
  | _, _ :: _ => none

/-- `path.replace(/^\$\.?/, '').split('.')` -/
def segments (path : String) : List String :=
  let cs := match path.toList with
    | '$' :: '.' :: cs => cs
    | '$' :: cs => cs
    | cs => cs
  (cs.splitOn '.').map String.ofList

def extractCorrelationId (entry : ServerPausedEntry) (req : CallbackRequest) : Option String :=
  match entry.correlationSource with
  | .body => (truthy entry.correlationJsonPath).bind fun path => walk req.payload (segments path)
  | .header => (truthy entry.correlationHeader).bind fun header =>
      (req.headers.lookup header.toLower).map FieldValue.text
  | .query => (truthy entry.correlationQueryParam).bind fun param =>
      (req.query.lookup param).map FieldValue.text
  | .key => none

/-- The message's value as JSON. -/
def KafkaResumeMessage.payload (c : HandlerConfig) (m : KafkaResumeMessage) : Option Json :=
  match truthy m.value with
  | some value => c.parse value
  | none => some (.obj [])

def extractKafkaCorrelationId (c : HandlerConfig) (entry : ServerPausedEntry)
    (m : KafkaResumeMessage) : Option String :=
  match entry.correlationSource with
  | .key => truthy m.key
  | .body => (truthy entry.correlationJsonPath).bind fun path =>
      (m.payload c).bind fun j => walk j (segments path)
  | .header => (truthy entry.correlationHeader).bind fun header =>
      (m.headers.lookup header).or (m.headers.lookup header.toLower)
  | .query => none

/-! ## Matching -/

/-- `Date.now() > timeoutAt`, of an entry with a timeout. -/
def ServerPausedEntry.timedOut (now : ℚ) (entry : ServerPausedEntry) : Bool :=
  decide (0 < entry.timeoutAt ∧ entry.timeoutAt < now)

def ServerPausedEntry.isNamed (extracted : Option String) (entry : ServerPausedEntry) : Bool :=
  truthy extracted == some entry.correlationId

/-- The loop of `matchCorrelation` and `matchKafkaCorrelation`: entries of this path that
have timed out go, up to the first that is named by the id extracted for it. -/
def matchEntry (extract : ServerPausedEntry → Option String) (path : String) (now : ℚ) :
    List ServerPausedEntry → Entries → Entries × Option ServerPausedEntry
  | [], store => (store, none)
  | entry :: rest, store =>
      if entry.webhookPath ≠ path then matchEntry extract path now rest store
      else if entry.timedOut now then
        matchEntry extract path now rest (store.erase entry.correlationId)
      else if entry.isNamed (extract entry) then (store, some entry)
      else matchEntry extract path now rest store

/-! ## Idempotency records -/

structure ResumeResult where
  resumed : Bool
  correlationId : String
  executionId : String
  workflowId : String
  webhookData : Option Json
deriving DecidableEq

structure IdempotencyRecord where
  processedAt : ℚ
  statusCode : ℕ
  responseBody : ResumeResult
deriving DecidableEq

abbrev Records := InsertionMap String IdempotencyRecord

/-- The header's first value; an empty text or a missing header is none. -/
def firstValue (req : CallbackRequest) (header : String) : Option String :=
  match req.headers.lookup header with
  | some (.one s) => truthy (some s)
  | some (.many l) => some (l.head?.getD "undefined")
  | none => none

def extractIdempotencyKey (correlationId webhookPath : String) (req : CallbackRequest) : String :=
  match firstValue req "x-idempotency-key", firstValue req "x-request-id" with
  | some key, _ => "idem:" ++ key
  | none, some requestId => "rid:" ++ requestId
  | none, none =>
      if correlationId ≠ "" then "corr:" ++ correlationId ++ ":" ++ webhookPath else ""

def extractKafkaIdempotencyKey (m : KafkaResumeMessage) : String :=
  "kafka:" ++ m.topic ++ ":" ++ toString m.partition ++ ":" ++ m.offset

def IdempotencyRecord.stale (c : HandlerConfig) (now : ℚ) (r : IdempotencyRecord) : Bool :=
  decide (now - r.processedAt > c.ttlMs)

/-- A record that is too old is deleted. -/
def checkIdempotency (c : HandlerConfig) (now : ℚ) (records : Records) (key : String) :
    Records × Option IdempotencyRecord :=
  match records.lookup key with
  | some r =>
      if key = "" then (records, none)
      else if r.stale c now then (records.erase key, none)
      else (records, some r)
  | none => (records, none)

/-- At capacity the oldest record makes room. -/
def recordProcessed (c : HandlerConfig) (records : Records) (key : String)
    (r : IdempotencyRecord) : Records :=
  if key = "" then records
  else
    let records :=
      if records.size ≥ c.maxEntries then
        match records.oldest with
        | some old => records.erase old
        | none => records
      else records
    records.set key r

/-! ## The server -/

structure Server extends Desk where
  store : Entries
  processedRequests : Records
  /-- the callbacks that resumed an entry, with their key and answer -/
  answered : List (CallbackRequest × String × ResumeResult)

/-- The entry is removed, and its data handed over or queued. -/
def Server.resumeEntry (s : Server) (entry : ServerPausedEntry) (webhookData : WebhookData) :
    Server :=
  { s with
    store := s.store.erase entry.correlationId
    toDesk := s.toDesk.accept entry webhookData }

/-! ## Webhook callbacks -/

/-- How a callback ends. -/
inductive CallbackOutcome
  | blocked (status : ℕ) (error : String)
  | unmatched
  | duplicate (r : IdempotencyRecord)
  | rejected (entry : ServerPausedEntry) (reason : String)
  | resumed (entry : ServerPausedEntry) (body : ResumeResult)

inductive ResponseBody
  | result (r : ResumeResult)
  | error (text : String)
deriving DecidableEq

def CallbackOutcome.response : CallbackOutcome → ℕ × ResponseBody
  | .blocked status error => (status, .error error)
  | .unmatched => (404, .error "No matching paused workflow found")
  | .duplicate r => (r.statusCode, .result r.responseBody)
  | .rejected _ reason => (422, .error reason)
  | .resumed _ body => (200, .result body)

/-- `none` when the payload may resume the entry, else the reason. -/
def preValidateWebhook (c : HandlerConfig) (payload : Json) (webhookFilter : Option String) :
    Option String :=
  (truthy webhookFilter).bind fun filter =>
    (c.evaluateWebhookFilter filter payload).map ("Webhook filter rejected: " ++ ·)

def tokenError (c : HandlerConfig) (req : CallbackRequest) (correlationId : String) :
    Option String :=
  if c.isSecurityEnabled then
    (truthy ((req.query.lookup "webhookToken").map fun
        | .one s => s
        | .many l => l.head?.getD "undefined")).bind fun token =>
      c.extractAndVerifyToken token correlationId req.webhookPath
  else none

/-- The IP whitelist and the signature. -/
def gate (c : HandlerConfig) (req : CallbackRequest) : Option (ℕ × String) :=
  if c.isSecurityEnabled then
    if !c.isIpAllowed req.ip then some (403, "IP not allowed")
    else (c.validateRequestSignature req).map fun reason => (401, reason)
  else none

/-- The matched entry is removed and resumed. -/
def resumeByCallback (c : HandlerConfig) (req : CallbackRequest) (key : String)
    (entry : ServerPausedEntry) (s : Server) : Server × CallbackOutcome :=
  let body : ResumeResult :=
    ⟨true, entry.correlationId, entry.executionId, entry.workflowId, some req.payload⟩
  let s := s.resumeEntry entry (.json req.payload)
  let records := recordProcessed c s.processedRequests key ⟨s.now, 200, body⟩
  ({ s with processedRequests := records, answered := s.answered ++ [(req, key, body)] },
    .resumed entry body)

def callback (c : HandlerConfig) (req : CallbackRequest) (s : Server) : Server × CallbackOutcome :=
  match gate c req with
  | some (status, error) => (s, .blocked status error)
  | none =>
      let (store, found) :=
        matchEntry (extractCorrelationId · req) req.webhookPath s.now s.store.values s.store
      let s := { s with store }
      match found with
      | none => (s, .unmatched)
      | some entry =>
          match tokenError c req entry.correlationId with
          | some reason => (s, .blocked 401 reason)
          | none =>
              let key := extractIdempotencyKey entry.correlationId req.webhookPath req
              let (records, cached) := checkIdempotency c s.now s.processedRequests key
              let s := { s with processedRequests := records }
              match cached, s.store.lookup entry.correlationId with
              | some r, none => (s, .duplicate r)
              | _, _ =>
                  match preValidateWebhook c req.payload entry.webhookFilter with
                  | some reason => (s, .rejected entry reason)
                  | none => resumeByCallback c req key entry s

/-! ## Kafka messages -/

inductive KafkaOutcome
  | resumed (entry : ServerPausedEntry)
  | noMatch
  | duplicate (correlationId : String)

def resumeByKafka (c : HandlerConfig) (m : KafkaResumeMessage) (key : String)
    (entry : ServerPausedEntry) (s : Server) : Server × KafkaOutcome :=
  let body : ResumeResult := ⟨true, entry.correlationId, entry.executionId, entry.workflowId, none⟩
  let s := s.resumeEntry entry (.kafka m)
  let records := recordProcessed c s.processedRequests key ⟨s.now, 200, body⟩
  ({ s with processedRequests := records }, .resumed entry)

def dispatchKafkaResumeMessage (c : HandlerConfig) (m : KafkaResumeMessage) (s : Server) :
    Server × KafkaOutcome :=
  let key := extractKafkaIdempotencyKey m
  let (store, found) :=
    matchEntry (extractKafkaCorrelationId c · m) m.topic s.now s.store.values s.store
  let (records, cached) := checkIdempotency c s.now s.processedRequests key
  let s := { s with store, processedRequests := records }
  match found with
  | none =>
      match cached with
      | some r => (s, .duplicate r.responseBody.correlationId)
      | none => (s, .noMatch)
  | some entry =>
      match cached, s.store.lookup entry.correlationId with
      | some _, none => (s, .duplicate entry.correlationId)
      | _, _ => resumeByKafka c m key entry s

/-! ## The other requests -/

/-- `POST /api/correlations/pause`; an empty text stands for a missing field. -/
structure PauseRequest where
  correlationId : String
  webhookPath : String
  executionId : String
  workflowId : Option String
  pausedNodeId : Option String
  timeoutMs : ℚ
  webhookFilter : Option String
  correlationSource : Option CorrelationSource
  correlationJsonPath : Option String
  correlationHeader : Option String
  correlationQueryParam : Option String

def PauseRequest.entry (now : ℚ) (req : PauseRequest) : ServerPausedEntry where
  correlationId := req.correlationId
  webhookPath := req.webhookPath
  executionId := req.executionId
  workflowId := req.workflowId.getD "unknown"
  pausedNodeId := req.pausedNodeId.getD "unknown"
  pausedAt := now
  timeoutAt := if req.timeoutMs > 0 then now + req.timeoutMs else 0
  webhookFilter := req.webhookFilter
  correlationSource := req.correlationSource.getD .body
  correlationJsonPath := req.correlationJsonPath
  correlationHeader := req.correlationHeader
  correlationQueryParam := req.correlationQueryParam

namespace Server

def pause (s : Server) (req : PauseRequest) : Server :=
  if req.correlationId = "" ∨ req.webhookPath = "" ∨ req.executionId = "" then s
  else { s with store := (InMemoryServerStore.add s.store (req.entry s.now)).1 }

/-- `POST /api/correlations/resume` -/
def resume (s : Server) (correlationId : String) (webhookData : Json) : Server :=
  if correlationId = "" then s
  else
    match s.store.lookup correlationId with
    | some entry => s.resumeEntry entry (.json webhookData)
    | none => s

/-- `DELETE /api/correlations/:correlationId` -/
def cancel (s : Server) (correlationId : String) : Server :=
  { s with store := (InMemoryServerStore.remove s.store correlationId).1 }

def cleanupExpired (s : Server) : Server :=
  { s with store := (InMemoryServerStore.cleanupExpired s.store s.now).1 }

def cleanupIdempotency (s : Server) (c : HandlerConfig) : Server :=
  { s with processedRequests := s.processedRequests.filter fun _ r => !r.stale c s.now }

/-! ## A bridge -/

/-- The answer of `addPausedCorrelation` is not looked at. -/
def bridgePause (s : Server) (c : HandlerConfig) (b : ℕ) (req : PauseRequest) : Server :=
  if (s.callbacks.lookup (b, req.correlationId)).isSome then s
  else
    let entry := { req.entry s.now with
      executionId := c.executionId b, workflowId := c.workflowId b }
    { s with
      store := (InMemoryServerStore.add s.store entry).1
      toDesk := s.toDesk.bridgePause b req.correlationId (c.executionId b) }

/-- The wait ends by itself: its timer fires, or the execution cancels it, cleans it up or
resumes it in process. -/
def bridgeLeave (s : Server) (b : ℕ) (correlationId : String) : Server :=
  match s.callbacks.lookup (b, correlationId) with
  | some w =>
      { s with
        store := (InMemoryServerStore.remove s.store correlationId).1
        toDesk := s.toDesk.bridgeLeave b correlationId w }
  | none => s

end Server

/-! ## Runs -/

inductive ServerEvent
  | pause (req : PauseRequest)
  | resume (correlationId : String) (webhookData : Json)
  | cancel (correlationId : String)
  | callback (req : CallbackRequest)
  | kafka (m : KafkaResumeMessage)
  /-- a long poll arrives, from an execution -/
  | poll (correlationId executionId : String)
  /-- a long poll times out or is closed -/
  | leave (w : ℕ)
  | bridgePause (b : ℕ) (req : PauseRequest)
  | bridgeLeave (b : ℕ) (correlationId : String)
  | cleanup
  | cleanupResumeQueue
  | tick (ms : ℚ)

def serverNext (c : HandlerConfig) : ServerEvent → Server → Option Server
  | .pause req, s => some (s.pause req)
  | .resume correlationId webhookData, s => some (s.resume correlationId webhookData)
  | .cancel correlationId, s => some (s.cancel correlationId)
  | .callback req, s => some (callback c req s).1
  | .kafka m, s => some (dispatchKafkaResumeMessage c m s).1
  | .poll correlationId executionId, s =>
      some { s with toDesk := s.toDesk.poll correlationId executionId }
  | .leave w, s => some { s with toDesk := s.toDesk.leave w }
  | .bridgePause b req, s => some (s.bridgePause c b req)
  | .bridgeLeave b correlationId, s => some (s.bridgeLeave b correlationId)
  | .cleanup, s => some (s.cleanupExpired.cleanupIdempotency c)
  | .cleanupResumeQueue, s => some { s with toDesk := s.toDesk.cleanupResumeQueue }
  | .tick ms, s => if 0 ≤ ms then some { s with now := s.now + ms } else none

def Server.initial : Server := ⟨⟨∅, ∅, ∅, 0, [], [], []⟩, ∅, ∅, []⟩

/-! ## Matching finds a paused entry -/

/-- The entry that the loop returns is the first with this path that has not timed out and
is named. -/
def ServerPausedEntry.hit (extract : ServerPausedEntry → Option String) (path : String) (now : ℚ)
    (entry : ServerPausedEntry) : Bool :=
  entry.webhookPath == path && !entry.timedOut now && entry.isNamed (extract entry)

/-- The entries that the loop removes on its way. -/
def swept (extract : ServerPausedEntry → Option String) (path : String) (now : ℚ)
    (l : List ServerPausedEntry) : List ServerPausedEntry :=
  (l.takeWhile fun e => !e.hit extract path now).filter
    fun e => e.webhookPath == path && e.timedOut now

/-- Each entry is stored under its id. -/
def Keyed (store : Entries) : Prop := ∀ id e, store.lookup id = some e → e.correlationId = id

section Matching

variable {extract : ServerPausedEntry → Option String} {path : String} {now : ℚ}
  {store : Entries} {entry : ServerPausedEntry}

theorem matchEntry_eq : ∀ (l : List ServerPausedEntry) (store : Entries),
    matchEntry extract path now l store =
      (((swept extract path now l).map ServerPausedEntry.correlationId).foldl
        (fun store id => store.erase id) store, l.find? fun e => e.hit extract path now)
  | [], _ => rfl
  | e :: l, store => by
      rw [matchEntry]
      by_cases hpath : e.webhookPath = path
      · cases hout : e.timedOut now with
        | true =>
            have hhit : e.hit extract path now = false := by simp [ServerPausedEntry.hit, hout]
            rw [if_neg (not_not.mpr hpath), if_pos rfl, matchEntry_eq l]
            simp [swept, hhit, hpath, hout]
        | false =>
            rw [if_neg (not_not.mpr hpath), if_neg Bool.false_ne_true]
            cases hnamed : e.isNamed (extract e) with
            | true =>
                have hhit : e.hit extract path now = true := by
                  simp [ServerPausedEntry.hit, hpath, hout, hnamed]
                simp [swept, hhit]
            | false =>
                have hhit : e.hit extract path now = false := by
                  simp [ServerPausedEntry.hit, hnamed]
                rw [if_neg Bool.false_ne_true, matchEntry_eq l]
                simp [swept, hhit, hout]
      · have hhit : e.hit extract path now = false := by simp [ServerPausedEntry.hit, hpath]
        rw [if_pos hpath, matchEntry_eq l]
        simp [swept, hhit, hpath]

theorem Keyed.of_mem (h : Keyed store) (he : entry ∈ store.values) :
    store.lookup entry.correlationId = some entry := by
  obtain ⟨id, hid⟩ := InsertionMap.mem_values.mp he
  rwa [h id entry hid]

theorem timedOut_of_mem_swept {l : List ServerPausedEntry} (he : entry ∈ swept extract path now l) :
    entry ∈ l ∧ entry.timedOut now = true := by
  obtain ⟨hmem, hstale⟩ := List.mem_filter.mp he
  rw [Bool.and_eq_true] at hstale
  exact ⟨(List.takeWhile_sublist _).subset hmem, hstale.2⟩

/-- The matched entry is still in the store when the loop returns it. -/
theorem Keyed.found (h : Keyed store)
    (hfound : store.values.find? (fun e => e.hit extract path now) = some entry) :
    (matchEntry extract path now store.values store).1.lookup entry.correlationId = some entry := by
  have hheld := h.of_mem (List.mem_of_find?_eq_some hfound)
  rw [matchEntry_eq, InsertionMap.lookup_foldl_erase, if_neg, hheld]
  intro hswept
  obtain ⟨e, he, hid⟩ := List.mem_map.mp hswept
  obtain ⟨hmem, hout⟩ := timedOut_of_mem_swept he
  have hsame : some e = some entry := by rw [← h.of_mem hmem, hid, hheld]
  have hhit := List.find?_some hfound
  simp only [ServerPausedEntry.hit, Bool.and_eq_true, Bool.not_eq_true'] at hhit
  rw [Option.some.inj hsame, hhit.1.2] at hout
  cases hout

theorem Keyed.erase {id : String} (h : Keyed store) : Keyed (store.erase id) := by
  intro id' e he
  rw [InsertionMap.lookup_erase] at he
  split at he
  · cases he
  · exact h id' e he

theorem Keyed.matchEntry (h : Keyed store) (l : List ServerPausedEntry) :
    Keyed (matchEntry extract path now l store).1 := by
  rw [matchEntry_eq]
  intro id e he
  rw [InsertionMap.lookup_foldl_erase] at he
  split at he
  · cases he
  · exact h id e he

theorem Keyed.add (h : Keyed store) : Keyed (InMemoryServerStore.add store entry).1 := by
  unfold InMemoryServerStore.add
  split
  next => exact h
  next =>
    intro id e he
    rw [InsertionMap.lookup_set] at he
    split at he
    next hid => cases he; exact hid.symm
    next => exact h id e he

end Matching

/-! ## What a message does -/

namespace Server

/-- The entry a callback finds, and what the loop leaves of the store. -/
def callbackMatch (s : Server) (req : CallbackRequest) : Option ServerPausedEntry :=
  s.store.values.find? fun e => e.hit (extractCorrelationId · req) req.webhookPath s.now

def callbackSweep (s : Server) (req : CallbackRequest) : Server :=
  { s with store :=
      (matchEntry (extractCorrelationId · req) req.webhookPath s.now s.store.values s.store).1 }

def kafkaMatch (s : Server) (c : HandlerConfig) (m : KafkaResumeMessage) :
    Option ServerPausedEntry :=
  s.store.values.find? fun e => e.hit (extractKafkaCorrelationId c · m) m.topic s.now

def kafkaSweep (s : Server) (c : HandlerConfig) (m : KafkaResumeMessage) : Server :=
  { s with store :=
      (matchEntry (extractKafkaCorrelationId c · m) m.topic s.now s.store.values s.store).1 }

/-- The look at a record deletes it when it is too old. -/
def check (s : Server) (c : HandlerConfig) (key : String) : Server :=
  { s with processedRequests := (checkIdempotency c s.now s.processedRequests key).1 }

@[simp] theorem callbackSweep_resumes (s : Server) (req : CallbackRequest) :
    (s.callbackSweep req).resumes = s.resumes := rfl

@[simp] theorem kafkaSweep_resumes (s : Server) (c : HandlerConfig) (m : KafkaResumeMessage) :
    (s.kafkaSweep c m).resumes = s.resumes := rfl

@[simp] theorem check_resumes (s : Server) (c : HandlerConfig) (key : String) :
    (s.check c key).resumes = s.resumes := rfl

end Server

section Messages

variable {c : HandlerConfig} {req : CallbackRequest} {m : KafkaResumeMessage} {s : Server}

/-- How a callback can end.  A matched entry is in the store, so the duplicate check behind
the match never fires. -/
inductive CallbackCase (c : HandlerConfig) (req : CallbackRequest) (s : Server) :
    Server × CallbackOutcome → Prop
  | blocked {status : ℕ} {error : String} : gate c req = some (status, error) →
      CallbackCase c req s (s, .blocked status error)
  | unmatched : gate c req = none → s.callbackMatch req = none →
      CallbackCase c req s (s.callbackSweep req, .unmatched)
  | badToken {entry : ServerPausedEntry} {reason : String} : gate c req = none →
      s.callbackMatch req = some entry → tokenError c req entry.correlationId = some reason →
      CallbackCase c req s (s.callbackSweep req, .blocked 401 reason)
  | rejected {entry : ServerPausedEntry} {reason : String} : gate c req = none →
      s.callbackMatch req = some entry → tokenError c req entry.correlationId = none →
      preValidateWebhook c req.payload entry.webhookFilter = some reason →
      CallbackCase c req s ((s.callbackSweep req).check c
        (extractIdempotencyKey entry.correlationId req.webhookPath req), .rejected entry reason)
  | resumed {entry : ServerPausedEntry} : gate c req = none →
      s.callbackMatch req = some entry → tokenError c req entry.correlationId = none →
      preValidateWebhook c req.payload entry.webhookFilter = none →
      CallbackCase c req s
        (resumeByCallback c req (extractIdempotencyKey entry.correlationId req.webhookPath req) entry
          ((s.callbackSweep req).check c
            (extractIdempotencyKey entry.correlationId req.webhookPath req)))

variable (c req) in
theorem callbackCase (hK : Keyed s.store) : CallbackCase c req s (callback c req s) := by
  unfold callback
  cases hgate : gate c req with
  | some blocked => exact .blocked hgate
  | none =>
      have hfound : (matchEntry (extractCorrelationId · req) req.webhookPath s.now s.store.values
          s.store).2 = s.callbackMatch req := by rw [matchEntry_eq]; rfl
      dsimp only
      rw [hfound]
      cases hmatch : s.callbackMatch req with
      | none => exact .unmatched hgate hmatch
      | some entry =>
          have hheld := hK.found hmatch
          dsimp only
          rw [hheld]
          cases htoken : tokenError c req entry.correlationId with
          | some reason => exact .badToken hgate hmatch htoken
          | none =>
              dsimp only
              cases (checkIdempotency c s.now s.processedRequests
                (extractIdempotencyKey entry.correlationId req.webhookPath req)).2 with
              | none =>
                  dsimp only
                  cases hpre : preValidateWebhook c req.payload entry.webhookFilter with
                  | some reason => exact .rejected hgate hmatch htoken hpre
                  | none => exact .resumed hgate hmatch htoken hpre
              | some r =>
                  dsimp only
                  cases hpre : preValidateWebhook c req.payload entry.webhookFilter with
                  | some reason => exact .rejected hgate hmatch htoken hpre
                  | none => exact .resumed hgate hmatch htoken hpre

inductive KafkaCase (c : HandlerConfig) (m : KafkaResumeMessage) (s : Server) :
    Server × KafkaOutcome → Prop
  | unmatched {outcome : KafkaOutcome} : s.kafkaMatch c m = none →
      KafkaCase c m s ((s.kafkaSweep c m).check c (extractKafkaIdempotencyKey m), outcome)
  | resumed {entry : ServerPausedEntry} : s.kafkaMatch c m = some entry →
      KafkaCase c m s (resumeByKafka c m (extractKafkaIdempotencyKey m) entry
        ((s.kafkaSweep c m).check c (extractKafkaIdempotencyKey m)))

theorem kafkaCase (hK : Keyed s.store) :
    KafkaCase c m s (dispatchKafkaResumeMessage c m s) := by
  have hfound : (matchEntry (extractKafkaCorrelationId c · m) m.topic s.now s.store.values
      s.store).2 = s.kafkaMatch c m := by rw [matchEntry_eq]; rfl
  unfold dispatchKafkaResumeMessage
  dsimp only
  rw [hfound]
  cases hmatch : s.kafkaMatch c m with
  | none =>
      dsimp only
      split <;> exact .unmatched hmatch
  | some entry =>
      have hheld := hK.found hmatch
      dsimp only
      rw [hheld]
      split
      next => contradiction
      next => exact .resumed hmatch

end Messages

/-- No event stores an entry under another id than its own. -/
theorem Keyed.step {c : HandlerConfig} {ev : ServerEvent} {s s' : Server} (hK : Keyed s.store)
    (hnext : serverNext c ev s = some s') : Keyed s'.store := by
  cases ev with
  | pause req =>
      cases hnext
      unfold Server.pause
      split
      · exact hK
      · exact hK.add
  | resume correlationId webhookData =>
      cases hnext
      unfold Server.resume
      split
      · exact hK
      · split
        · exact hK.erase
        · exact hK
  | cancel correlationId =>
      cases hnext
      exact hK.erase
  | callback req =>
      cases hnext
      have hswept : Keyed (s.callbackSweep req).store := hK.matchEntry _
      have hcase := callbackCase c req hK
      generalize callback c req s = result at hcase ⊢
      cases hcase with
      | blocked => exact hK
      | unmatched => exact hswept
      | badToken => exact hswept
      | rejected => exact hswept
      | resumed => exact hswept.erase
  | kafka m =>
      cases hnext
      have hswept : Keyed (s.kafkaSweep c m).store := hK.matchEntry _
      have hcase := kafkaCase (c := c) (m := m) hK
      generalize dispatchKafkaResumeMessage c m s = result at hcase ⊢
      cases hcase with
      | unmatched => exact hswept
      | resumed => exact hswept.erase
  | poll correlationId executionId =>
      cases hnext
      exact hK
  | leave w =>
      cases hnext
      exact hK
  | bridgePause b req =>
      cases hnext
      unfold Server.bridgePause
      split
      · exact hK
      · exact hK.add
  | bridgeLeave b correlationId =>
      cases hnext
      unfold Server.bridgeLeave
      split
      · exact hK.erase
      · exact hK
  | cleanup =>
      cases hnext
      intro id e he
      have hfilter := InsertionMap.lookup_filter (m := s.store) (k := id)
        (fun _ e => !isExpired e.timeoutAt s.now)
      exact hK id e (Option.filter_eq_some_iff.mp (hfilter.symm.trans he)).1
  | cleanupResumeQueue =>
      cases hnext
      exact hK
  | tick ms =>
      obtain ⟨-, h⟩ := Option.ite_none_right_eq_some.mp hnext
      cases h
      exact hK

end RedFireForge.Correlation
