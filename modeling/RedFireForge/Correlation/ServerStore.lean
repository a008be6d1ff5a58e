/-
# `RedFireForge.Correlation.ServerStore` — the correlation store of the server

`InMemoryServerStore` is a map from correlation ids to paused entries.
`SqliteServerStore` keeps the same map and writes each change through to a table whose
primary key is the id; a resumed entry keeps its row, marked.

The SQL engine enforces the key, and reads rows in an order of its own.
-/
import Mathlib.Algebra.Order.Field.Rat
import RedFireForge.Lib.InsertionMap
import RedFireForge.Lib.Run

namespace RedFireForge.Correlation

open RedFireForge.Lib

inductive CorrelationSource
  | body
  | header
  | query
  /-- the key of a Kafka message -/
  | key
deriving DecidableEq, Repr

structure ServerPausedEntry where
  correlationId : String
  webhookPath : String
  executionId : String
  workflowId : String
  pausedNodeId : String
  pausedAt : ℚ
  /-- `0` = no timeout -/
  timeoutAt : ℚ
  webhookFilter : Option String
  correlationSource : CorrelationSource
  correlationJsonPath : Option String
  correlationHeader : Option String
  correlationQueryParam : Option String
deriving DecidableEq

/-- What `cleanupExpired` and `init` call expired. -/
def isExpired (timeoutAt now : ℚ) : Bool := decide (0 < timeoutAt ∧ timeoutAt ≤ now)

abbrev Entries := InsertionMap String ServerPausedEntry

/-- The loop of both stores; with the ids that are removed. -/
def cleanupExpiredEntries (entries : Entries) (now : ℚ) : Entries × List String :=
  (entries.filter fun _ e => !isExpired e.timeoutAt now,
    (entries.filter fun _ e => isExpired e.timeoutAt now).keys)

/-! ## In memory -/

namespace InMemoryServerStore

def add (entries : Entries) (entry : ServerPausedEntry) : Entries × Bool :=
  if (entries.lookup entry.correlationId).isSome then (entries, false)
  else (entries.set entry.correlationId entry, true)

def remove (entries : Entries) (correlationId : String) : Entries × Option ServerPausedEntry :=
  (entries.erase correlationId, entries.lookup correlationId)

def cleanupExpired (entries : Entries) (now : ℚ) : Entries × ℕ :=
  let (left, expired) := cleanupExpiredEntries entries now
  (left, expired.length)

end InMemoryServerStore

/-! ## The table -/

structure PausedWorkflowRow where
  webhook_path : String
  execution_id : String
  workflow_id : String
  paused_node_id : String
  paused_at : ℚ
  timeout_at : ℚ
  webhook_filter : Option String
  correlation_source : CorrelationSource
  correlation_json_path : Option String
  correlation_header : Option String
  correlation_query_param : Option String
  state_json : String
  resumed : Bool
deriving DecidableEq

/-- The rows by their primary key. -/
abbrev Table := InsertionMap String PausedWorkflowRow

namespace Table

/-- `none` when the key is taken: the statement throws. -/
def insert (db : Table) (correlation_id : String) (row : PausedWorkflowRow) : Option Table :=
  if (db.lookup correlation_id).isSome then none else some (db.set correlation_id row)

/-- `UPDATE … SET resumed = 1 WHERE correlation_id = ?` -/
def resume (db : Table) (correlation_id : String) : Table :=
  match db.lookup correlation_id with
  | some row => db.set correlation_id { row with resumed := true }
  | none => db

/-- `SELECT * … WHERE resumed = 0` -/
def active (db : Table) : Table := db.filter fun _ row => !row.resumed

end Table

/-! ## Written through -/

structure SqliteServerStore where
  entries : Entries
  db : Table

namespace SqliteServerStore

def entryToRow (entry : ServerPausedEntry) : PausedWorkflowRow where
  webhook_path := entry.webhookPath
  execution_id := entry.executionId
  workflow_id := entry.workflowId
  paused_node_id := entry.pausedNodeId
  paused_at := entry.pausedAt
  timeout_at := entry.timeoutAt
  webhook_filter := entry.webhookFilter
  correlation_source := entry.correlationSource
  correlation_json_path := entry.correlationJsonPath
  correlation_header := entry.correlationHeader
  correlation_query_param := entry.correlationQueryParam
  state_json := "\x7b\x7d"
  resumed := false

def rowToEntry (correlation_id : String) (row : PausedWorkflowRow) : ServerPausedEntry where
  correlationId := correlation_id
  webhookPath := row.webhook_path
  executionId := row.execution_id
  workflowId := row.workflow_id
  pausedNodeId := row.paused_node_id
  pausedAt := row.paused_at
  timeoutAt := row.timeout_at
  webhookFilter := row.webhook_filter
  correlationSource := row.correlation_source
  correlationJsonPath := row.correlation_json_path
  correlationHeader := row.correlation_header
  correlationQueryParam := row.correlation_query_param

/-- Memory is written first; `none` when the insert throws. -/
def add (s : SqliteServerStore) (entry : ServerPausedEntry) : SqliteServerStore × Option Bool :=
  if (s.entries.lookup entry.correlationId).isSome then (s, some false)
  else
    let s := { s with entries := s.entries.set entry.correlationId entry }
    match s.db.insert entry.correlationId (entryToRow entry) with
    | some db => ({ s with db }, some true)
    | none => (s, none)

def remove (s : SqliteServerStore) (correlationId : String) :
    SqliteServerStore × Option ServerPausedEntry :=
  match s.entries.lookup correlationId with
  | some entry => (⟨s.entries.erase correlationId, s.db.resume correlationId⟩, some entry)
  | none => (s, none)

def cleanupExpired (s : SqliteServerStore) (now : ℚ) : SqliteServerStore × ℕ :=
  let (left, expired) := cleanupExpiredEntries s.entries now
  (⟨left, expired.foldl (fun db id => db.erase id) s.db⟩, expired.length)

/-- One turn of the loop in `init`. -/
def rehydrate (now : String → ℚ) (s : SqliteServerStore) (row : (_ : String) × PausedWorkflowRow) :
    SqliteServerStore :=
  if isExpired row.2.timeout_at (now row.1) then { s with db := s.db.erase row.1 }
  else { s with entries := s.entries.set row.1 (rowToEntry row.1 row.2) }

/-- On the file `db`, whose active `rows` are read in some order; `now` is the clock when a
row is looked at. -/
def init (db : Table) (rows : List ((_ : String) × PausedWorkflowRow)) (now : String → ℚ) :
    SqliteServerStore :=
  rows.foldl (rehydrate now) ⟨∅, db⟩

end SqliteServerStore

/-! ## Operations on both -/

inductive StoreOp
  | add (entry : ServerPausedEntry)
  | remove (correlationId : String)
  | find (correlationId : String)
  | listAll
  | cleanupExpired (now : ℚ)
deriving DecidableEq

inductive StoreResult
  | added (b : Bool)
  | entry (e : Option ServerPausedEntry)
  | entries (l : List ServerPausedEntry)
  | cleaned (n : ℕ)
  | threw
deriving DecidableEq

def InMemoryServerStore.run (s : Entries) : StoreOp → Entries × StoreResult
  | .add entry => (add s entry).map id .added
  | .remove correlationId => (remove s correlationId).map id .entry
  | .find correlationId => (s, .entry (s.lookup correlationId))
  | .listAll => (s, .entries s.values)
  | .cleanupExpired now => (cleanupExpired s now).map id .cleaned

def SqliteServerStore.run (s : SqliteServerStore) : StoreOp → SqliteServerStore × StoreResult
  | .add entry => (s.add entry).map id (fun r => r.elim .threw .added)
  | .remove correlationId => (s.remove correlationId).map id .entry
  | .find correlationId => (s, .entry (s.entries.lookup correlationId))
  | .listAll => (s, .entries s.entries.values)
  | .cleanupExpired now => (s.cleanupExpired now).map id .cleaned

/-- The two stores side by side. -/
structure Stores where
  memory : Entries
  sqlite : SqliteServerStore

def storesNext (op : StoreOp) (s : Stores) : Option Stores :=
  some ⟨(InMemoryServerStore.run s.memory op).1, (s.sqlite.run op).1⟩

/-- Two empty stores, the one on a new file. -/
def Stores.initial : Stores := ⟨∅, ∅, ∅⟩


/-! ## What the second store refines -/

/-- Memory holds what the rows that are not resumed say. -/
def SqliteServerStore.Agrees (s : SqliteServerStore) : Prop :=
  ∀ id, s.entries.lookup id =
    ((s.db.lookup id).filter fun row => !row.resumed).map (rowToEntry id)

/-- After closing, a store opened on the same file holds the entries there were, less those
expired by then. -/
def SqliteServerStore.Reopens (s : SqliteServerStore) : Prop :=
  ∀ rows now, rows.Perm s.db.active.entries → ∀ id, (init s.db rows now).entries.lookup id =
    (s.entries.lookup id).filter fun e => !isExpired e.timeoutAt (now id)

/-- The operation returns the same from both, and does not throw and leave memory and table
different. -/
def Stores.alike (op : StoreOp) (s : Stores) : Prop :=
  (s.sqlite.run op).2 = (InMemoryServerStore.run s.memory op).2 ∧
    ((s.sqlite.run op).2 = .threw → (s.sqlite.run op).1.Agrees)

/-- An id that is added is paused, or has no row: it has not been resumed on this file. -/
def Stores.unresumed : StoreOp → Stores → Bool
  | .add entry, s => (s.memory.lookup entry.correlationId).isSome ||
      (s.sqlite.db.lookup entry.correlationId).isNone
  | _, _ => true

structure Stores.Inv (s : Stores) : Prop where
  same : s.sqlite.entries = s.memory
  agrees : s.sqlite.Agrees

section Steps

open SqliteServerStore

variable {s : SqliteServerStore} {id : String} {entry : ServerPausedEntry} {now : ℚ}

@[simp] theorem rowToEntry_timeoutAt {row : PausedWorkflowRow} :
    (rowToEntry id row).timeoutAt = row.timeout_at := rfl

theorem rowToEntry_entryToRow : rowToEntry entry.correlationId (entryToRow entry) = entry := rfl

theorem lookup_resume (db : Table) (id id' : String) : (db.resume id).lookup id' =
    if id' = id then (db.lookup id).map (fun row => { row with resumed := true })
    else db.lookup id' := by
  unfold Table.resume
  cases h : db.lookup id with
  | none =>
      show db.lookup id' = if id' = id then none else db.lookup id'
      by_cases hid : id' = id
      · rw [if_pos hid, hid, h]
      · rw [if_neg hid]
  | some row => exact InsertionMap.lookup_set

theorem SqliteServerStore.Agrees.add (h : s.Agrees) (hfree : s.entries.lookup entry.correlationId = none)
    (hrow : s.db.lookup entry.correlationId = none) :
    s.add entry = (⟨s.entries.set entry.correlationId entry,
      s.db.set entry.correlationId (entryToRow entry)⟩, some true) ∧ (s.add entry).1.Agrees := by
  have hadd : s.add entry = (⟨s.entries.set entry.correlationId entry,
      s.db.set entry.correlationId (entryToRow entry)⟩, some true) := by
    simp [SqliteServerStore.add, hfree, Table.insert, hrow]
  refine ⟨hadd, ?_⟩
  rw [hadd]
  intro id
  simp only [InsertionMap.lookup_set]
  split
  next hid => exact congrArg some (hid ▸ rowToEntry_entryToRow).symm
  next => exact h id

variable (id) in
theorem SqliteServerStore.Agrees.remove (h : s.Agrees) : (s.remove id).1.entries = s.entries.erase id ∧
    (s.remove id).2 = s.entries.lookup id ∧ (s.remove id).1.Agrees := by
  unfold SqliteServerStore.remove
  cases hid : s.entries.lookup id with
  | none =>
      have hkept : s.entries.erase id = s.entries :=
        AList.ext (List.kerase_of_notMem_keys (AList.lookup_eq_none.mp hid))
      exact ⟨hkept.symm, rfl, h⟩
  | some e =>
      refine ⟨rfl, rfl, fun id' => ?_⟩
      rw [InsertionMap.lookup_erase, lookup_resume]
      split
      next hid' => cases s.db.lookup id <;> rfl
      next => exact h id'

theorem mem_expired : id ∈ (cleanupExpiredEntries s.entries now).2 ↔
    ∃ e, s.entries.lookup id = some e ∧ isExpired e.timeoutAt now = true := by
  rw [cleanupExpiredEntries, ← AList.mem_keys, ← AList.lookup_isSome, InsertionMap.lookup_filter,
    Option.isSome_iff_exists]
  simp only [Option.filter_eq_some_iff]

theorem SqliteServerStore.Agrees.cleanupExpired (h : s.Agrees) : (s.cleanupExpired now).1.Agrees := by
  intro id
  show (s.entries.filter fun _ e => !isExpired e.timeoutAt now).lookup id = _
  rw [InsertionMap.lookup_filter]
  show _ = Option.map _ (Option.filter _ (AList.lookup id
    (((cleanupExpiredEntries s.entries now).2).foldl (fun db id => db.erase id) s.db)))
  rw [InsertionMap.lookup_foldl_erase]
  split
  next hmem =>
    obtain ⟨e, he, hexpired⟩ := mem_expired.mp hmem
    simp [he, hexpired]
  next hmem =>
    have hleft : (s.entries.lookup id).filter (fun e => !isExpired e.timeoutAt now) =
        s.entries.lookup id := by
      cases he : s.entries.lookup id with
      | none => rfl
      | some e =>
          have hnot : isExpired e.timeoutAt now ≠ true :=
            fun hexpired => hmem (mem_expired.mpr ⟨e, he, hexpired⟩)
          simp [hnot]
    rw [hleft]
    exact h id

/-- What the loop of `init` leaves under an id. -/
theorem lookup_rehydrate {clock : String → ℚ} : ∀ (rows : List ((_ : String) × PausedWorkflowRow))
    (s : SqliteServerStore), rows.NodupKeys →
    (rows.foldl (rehydrate clock) s).entries.lookup id =
      match rows.dlookup id with
      | some row =>
          if isExpired row.timeout_at (clock id) then s.entries.lookup id
          else some (rowToEntry id row)
      | none => s.entries.lookup id
  | [], _, _ => rfl
  | ⟨id', row⟩ :: rows, s, hrows => by
      obtain ⟨hnot, hrows⟩ := List.nodupKeys_cons.mp hrows
      rw [List.foldl_cons, lookup_rehydrate rows _ hrows]
      by_cases hid : id = id'
      · subst hid
        have hnone : rows.dlookup id = none := List.dlookup_eq_none.mpr hnot
        rw [hnone, List.dlookup_cons_eq]
        cases hexpired : isExpired row.timeout_at (clock id) with
        | true => simp [rehydrate, hexpired]
        | false => simp [rehydrate, hexpired]
      · rw [List.dlookup_cons_ne _ _ hid]
        have hsame : (rehydrate clock s ⟨id', row⟩).entries.lookup id = s.entries.lookup id := by
          unfold rehydrate
          split
          next => rfl
          next => exact InsertionMap.lookup_set_ne hid
        rw [hsame]

theorem SqliteServerStore.Agrees.reopens (h : s.Agrees) : s.Reopens := by
  intro rows clock hperm id
  have hkeys : rows.NodupKeys := (List.perm_nodupKeys hperm).mpr s.db.active.nodupKeys
  have hrows : rows.dlookup id = (s.db.lookup id).filter fun row => !row.resumed :=
    (List.perm_dlookup id hkeys hperm).trans (InsertionMap.lookup_filter _)
  rw [SqliteServerStore.init, lookup_rehydrate rows _ hkeys, h id, hrows]
  cases (s.db.lookup id).filter fun row => !row.resumed with
  | none => rfl
  | some row =>
      cases hexpired : isExpired row.timeout_at (clock id) with
      | true => simp [hexpired, Option.filter_some]
      | false => simp [hexpired, Option.filter_some]

/-- Each operation is alike on both stores, but for an insert under the key of a resumed row. -/
theorem alike_iff {op : StoreOp} {s : Stores} (hI : s.Inv) :
    s.alike op ↔ s.unresumed op = true := by
  cases op with
  | add entry =>
      cases hfree : s.memory.lookup entry.correlationId with
      | some e =>
          have hheld : s.sqlite.entries.lookup entry.correlationId = some e := hI.same ▸ hfree
          simp [Stores.alike, Stores.unresumed, SqliteServerStore.run, SqliteServerStore.add,
            InMemoryServerStore.run, InMemoryServerStore.add, hfree, hheld]
      | none =>
          have hheld : s.sqlite.entries.lookup entry.correlationId = none := hI.same ▸ hfree
          cases hrow : s.sqlite.db.lookup entry.correlationId with
          | none =>
              simp [Stores.alike, Stores.unresumed, SqliteServerStore.run, InMemoryServerStore.run,
                InMemoryServerStore.add, hfree, hrow, (hI.agrees.add hheld hrow).1]
          | some row =>
              simp [Stores.alike, Stores.unresumed, SqliteServerStore.run, SqliteServerStore.add,
                Table.insert, InMemoryServerStore.run, InMemoryServerStore.add, hfree, hheld, hrow]
  | remove id =>
      have hremoved := (hI.agrees.remove id).2.1
      rw [hI.same] at hremoved
      simp [Stores.alike, Stores.unresumed, SqliteServerStore.run, InMemoryServerStore.run,
        InMemoryServerStore.remove, hremoved]
  | find id => simp [Stores.alike, Stores.unresumed, SqliteServerStore.run, InMemoryServerStore.run, hI.same]
  | listAll => simp [Stores.alike, Stores.unresumed, SqliteServerStore.run, InMemoryServerStore.run, hI.same]
  | cleanupExpired now =>
      simp [Stores.alike, Stores.unresumed, SqliteServerStore.run, SqliteServerStore.cleanupExpired,
        InMemoryServerStore.run, InMemoryServerStore.cleanupExpired, hI.same]

theorem Stores.Inv.step {op : StoreOp} {s s' : Stores} (hI : s.Inv) (hop : s.unresumed op = true)
    (hnext : storesNext op s = some s') : s'.Inv := by
  cases hnext
  cases op with
  | add entry =>
      cases hfree : s.memory.lookup entry.correlationId with
      | some e =>
          have hheld : s.sqlite.entries.lookup entry.correlationId = some e := hI.same ▸ hfree
          simpa [SqliteServerStore.run, SqliteServerStore.add, InMemoryServerStore.run,
            InMemoryServerStore.add, hfree, hheld] using hI
      | none =>
          have hheld : s.sqlite.entries.lookup entry.correlationId = none := hI.same ▸ hfree
          have hrow : s.sqlite.db.lookup entry.correlationId = none := by
            simpa [Stores.unresumed, hfree] using hop
          obtain ⟨hadd, hagrees⟩ := hI.agrees.add hheld hrow
          refine ⟨?_, hagrees⟩
          show (s.sqlite.add entry).1.entries = (InMemoryServerStore.add s.memory entry).1
          simp [hadd, InMemoryServerStore.add, hfree, hI.same]
  | remove id =>
      obtain ⟨hentries, -, hagrees⟩ := hI.agrees.remove id
      exact ⟨hentries.trans (congrArg (AList.erase id) hI.same), hagrees⟩
  | find id => exact hI
  | listAll => exact hI
  | cleanupExpired now =>
      refine ⟨?_, hI.agrees.cleanupExpired⟩
      show (cleanupExpiredEntries s.sqlite.entries now).1 = (cleanupExpiredEntries s.memory now).1
      rw [hI.same]

end Steps

/-- **The table refines the map while no id is paused again after it was resumed.**  In every
run of the two stores, from a new file: each operation returns the same from both, none
throws and leaves memory and table different, and a store opened on the file afterwards has
the same entries less the expired ones, exactly if no id that is not paused and was resumed
before is added. -/
theorem sqlite_refines_memory_iff (ops : List StoreOp) (s : Stores)
    (hrun : exec storesNext Stores.initial ops = some s) :
    AllSteps storesNext (fun op s => s.alike op) Stores.initial ops ∧ s.sqlite.Reopens ↔
      AllSteps storesNext (fun op s => s.unresumed op = true) Stores.initial ops := by
  have h0 : Stores.initial.Inv := ⟨rfl, fun _ => rfl⟩
  have hstep : ∀ op s s', Stores.Inv s → s.unresumed op = true → storesNext op s = some s' →
      s'.Inv := fun op s s' hI hop hnext => hI.step hop hnext
  have hiff : AllSteps storesNext (fun op s => s.alike op) Stores.initial ops ↔
      AllSteps storesNext (fun op s => s.unresumed op = true) Stores.initial ops :=
    allSteps_iff hstep (fun op s hI => alike_iff hI) h0
  rw [hiff]
  exact and_iff_left_of_imp fun hok => (exec_invariant hstep h0 hok hrun).agrees.reopens

/-! ### An id that is paused twice -/

/-- A wait of a Kafka node, by the key of the message. -/
def waiting (id : String) (timeoutAt : ℚ) : ServerPausedEntry where
  correlationId := id
  webhookPath := "orders"
  executionId := "run-1"
  workflowId := "wf"
  pausedNodeId := "wait"
  pausedAt := 0
  timeoutAt
  webhookFilter := none
  correlationSource := .key
  correlationJsonPath := none
  correlationHeader := none
  correlationQueryParam := none

/-- An id whose entry has expired can be paused again: its row is gone. -/
def pausedAfterExpiry : List StoreOp :=
  [.add (waiting "order-7" 100), .add (waiting "order-8" 0), .cleanupExpired 200,
    .add (waiting "order-7" 300), .remove "order-8", .listAll]

theorem sqlite_refines_memory_iff_pausedAfterExpiry :
    ∃ s, exec storesNext Stores.initial pausedAfterExpiry = some s ∧
      s.sqlite.entries.values = [waiting "order-7" 300] ∧ s.sqlite.Reopens := by
  obtain ⟨s, hrun, hvalues⟩ : ∃ s, exec storesNext Stores.initial pausedAfterExpiry = some s ∧
      s.sqlite.entries.values = [waiting "order-7" 300] := exists_exec (by decide)
  exact ⟨s, hrun, hvalues,
    ((sqlite_refines_memory_iff pausedAfterExpiry s hrun).mpr (by decide)).2⟩

def pausedAfterResume : List StoreOp := [.add (waiting "order-7" 0), .remove "order-7"]

/-- The second pause throws, and the entry is in memory but not among the active rows. -/
theorem resumed_id_throws :
    ∃ s, exec storesNext Stores.initial pausedAfterResume = some s ∧
      (InMemoryServerStore.run s.memory (.add (waiting "order-7" 0))).2 = .added true ∧
      (s.sqlite.run (.add (waiting "order-7" 0))).2 = .threw ∧
      (s.sqlite.run (.add (waiting "order-7" 0))).1.entries.values = [waiting "order-7" 0] ∧
      (s.sqlite.run (.add (waiting "order-7" 0))).1.db.active.values = [] :=
  exists_exec (by decide)

end RedFireForge.Correlation
