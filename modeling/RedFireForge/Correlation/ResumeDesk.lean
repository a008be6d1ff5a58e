/-
# `RedFireForge.Correlation.ResumeDesk` — where resumes meet waits

The data of an accepted resume goes to the waiters parked under its correlation id, or into
a queue.  A waiter is a long poll, or a pause of a `ServerCorrelationBridge`; the maps are
keyed by the correlation id alone.  With them stand all waits and accepted resumes so far,
and which resume's data was handed to which wait.
-/
import RedFireForge.Correlation.ServerStore
import RedFireForge.Lib.Json

namespace RedFireForge.Correlation

open RedFireForge.Lib

structure KafkaResumeMessage where
  topic : String
  partition : ℕ
  offset : String
  key : Option String
  value : Option String
  headers : List (String × String)
deriving DecidableEq

inductive WebhookData
  | json (j : Json)
  | kafka (m : KafkaResumeMessage)
deriving DecidableEq

structure QueuedResume where
  webhookData : WebhookData
  executionId : String
  workflowId : String
  ts : ℚ
  /-- its place among all accepted resumes -/
  ordinal : ℕ
deriving DecidableEq

/-- A long poll, or a pause of a bridge, with the execution that waits. -/
structure ResumeWait where
  correlationId : String
  executionId : String
  bridge : Option ℕ
  arrivedAt : ℚ
  /-- of a long poll: it is answered or closed -/
  settled : Bool
deriving DecidableEq

structure Desk where
  queuedResumes : InsertionMap String QueuedResume
  /-- a waiter is the place of its wait among all waits -/
  resumeWaiters : InsertionMap String (List ℕ)
  /-- of a bridge and an id: the wait that is paused -/
  callbacks : InsertionMap (ℕ × String) ℕ
  now : ℚ
  waits : List ResumeWait
  resumes : List (String × QueuedResume)
  handovers : List (ℕ × ℕ)

namespace Desk

/-- A waiter is called. -/
def call (data : QueuedResume) (d : Desk) (w : ℕ) : Desk :=
  match d.waits[w]? with
  | some wait =>
      match wait.bridge with
      | none =>
          if wait.settled then d
          else
            { d with
              waits := d.waits.set w { wait with settled := true }
              handovers := d.handovers ++ [(data.ordinal, w)] }
      | some b =>
          if (d.callbacks.lookup (b, wait.correlationId)).isSome then
            { d with
              callbacks := d.callbacks.erase (b, wait.correlationId)
              handovers := d.handovers ++ [(data.ordinal, w)] }
          else d
  | none => d

def waitersOf (d : Desk) (correlationId : String) : List ℕ :=
  (d.resumeWaiters.lookup correlationId).getD []

def notifyResume (d : Desk) (correlationId : String) (data : QueuedResume) : Desk :=
  match d.waitersOf correlationId with
  | [] => { d with queuedResumes := d.queuedResumes.set correlationId data }
  | waiters =>
      waiters.foldl (call data) { d with resumeWaiters := d.resumeWaiters.erase correlationId }

/-- What is queued, or handed over, when an entry is resumed. -/
def dataOf (d : Desk) (entry : ServerPausedEntry) (webhookData : WebhookData) : QueuedResume :=
  ⟨webhookData, entry.executionId, entry.workflowId, d.now, d.resumes.length⟩

/-- The resume of an entry that was removed. -/
def accept (d : Desk) (entry : ServerPausedEntry) (webhookData : WebhookData) : Desk :=
  let data := d.dataOf entry webhookData
  notifyResume { d with resumes := d.resumes ++ [(entry.correlationId, data)] }
    entry.correlationId data

def registerResumeWaiter (d : Desk) (correlationId : String) (w : ℕ) : Desk :=
  { d with resumeWaiters := d.resumeWaiters.set correlationId (d.waitersOf correlationId ++ [w]) }

def deregisterResumeWaiter (d : Desk) (correlationId : String) (w : ℕ) : Desk :=
  match (d.waitersOf correlationId).erase w with
  | [] => { d with resumeWaiters := d.resumeWaiters.erase correlationId }
  | waiters => { d with resumeWaiters := d.resumeWaiters.set correlationId waiters }

/-- `GET /api/correlations/:correlationId/wait`, from an execution. -/
def poll (d : Desk) (correlationId executionId : String) : Desk :=
  let w := d.waits.length
  match d.queuedResumes.lookup correlationId with
  | some data =>
      let wait : ResumeWait := ⟨correlationId, executionId, none, d.now, true⟩
      { d with
        queuedResumes := d.queuedResumes.erase correlationId
        waits := d.waits ++ [wait]
        handovers := d.handovers ++ [(data.ordinal, w)] }
  | none =>
      let wait : ResumeWait := ⟨correlationId, executionId, none, d.now, false⟩
      let d := { d with waits := d.waits ++ [wait] }
      d.registerResumeWaiter correlationId w

/-- A long poll that times out or is closed. -/
def leave (d : Desk) (w : ℕ) : Desk :=
  match d.waits[w]? with
  | some wait =>
      if wait.settled || wait.bridge.isSome then d
      else
        let d := { d with waits := d.waits.set w { wait with settled := true } }
        d.deregisterResumeWaiter wait.correlationId w
  | none => d

/-- The part of a bridge's `pause` behind the server's store. -/
def bridgePause (d : Desk) (b : ℕ) (correlationId executionId : String) : Desk :=
  let w := d.waits.length
  let wait : ResumeWait := ⟨correlationId, executionId, some b, d.now, false⟩
  let d := { d with
    waits := d.waits ++ [wait]
    callbacks := d.callbacks.set (b, correlationId) w }
  d.registerResumeWaiter correlationId w

/-- The paused wait of a bridge is given up. -/
def bridgeLeave (d : Desk) (b : ℕ) (correlationId : String) (w : ℕ) : Desk :=
  let d := { d with callbacks := d.callbacks.erase (b, correlationId) }
  d.deregisterResumeWaiter correlationId w

def resumeQueueTtlMs : ℚ := 5 * 60 * 1000

/-- The data is older than the queue keeps it. -/
def outdated (d : Desk) (data : QueuedResume) : Bool := decide (d.now - data.ts > resumeQueueTtlMs)

def cleanupResumeQueue (d : Desk) : Desk :=
  { d with queuedResumes := d.queuedResumes.filter fun _ data => !d.outdated data }

/-! ## What is left alone -/

variable {d : Desk} {data : QueuedResume} {entry : ServerPausedEntry} {webhookData : WebhookData}
  {w : ℕ} {correlationId id : String}

variable (d data w) in
/-- Calling a waiter touches the waits and the bridges only. -/
theorem call_eq : ∃ callbacks waits handovers, call data d w =
    { d with callbacks, waits, handovers } := by
  unfold call
  split
  · split
    · split
      · exact ⟨_, _, _, rfl⟩
      · exact ⟨_, _, _, rfl⟩
    · split
      · exact ⟨_, _, _, rfl⟩
      · exact ⟨_, _, _, rfl⟩
  · exact ⟨_, _, _, rfl⟩

theorem foldl_call_eq (ws : List ℕ) : ∀ d, ∃ callbacks waits handovers, ws.foldl (call data) d =
    { d with callbacks, waits, handovers } := by
  induction ws with
  | nil => exact fun d => ⟨_, _, _, rfl⟩
  | cons w ws ih =>
      intro d
      obtain ⟨_, _, _, hcall⟩ := call_eq d data w
      obtain ⟨_, _, _, hrest⟩ := ih (call data d w)
      rw [List.foldl_cons, hrest, hcall]
      exact ⟨_, _, _, rfl⟩

@[simp] theorem accept_resumes : (d.accept entry webhookData).resumes =
    d.resumes ++ [(entry.correlationId, d.dataOf entry webhookData)] := by
  unfold accept notifyResume
  dsimp only
  split
  · rfl
  · obtain ⟨_, _, _, hcalls⟩ := foldl_call_eq _ _
    rw [hcalls]

variable (d correlationId w) in
theorem deregisterResumeWaiter_eq : ∃ resumeWaiters,
    d.deregisterResumeWaiter correlationId w = { d with resumeWaiters } := by
  unfold deregisterResumeWaiter
  split <;> exact ⟨_, rfl⟩

/-! ## Who waits under an id -/

theorem waitersOf_register : (d.registerResumeWaiter correlationId w).waitersOf id =
    if id = correlationId then d.waitersOf correlationId ++ [w] else d.waitersOf id := by
  unfold registerResumeWaiter waitersOf
  rw [InsertionMap.lookup_set]
  split <;> rfl

theorem waitersOf_erase : Desk.waitersOf { d with resumeWaiters := d.resumeWaiters.erase correlationId } id =
    if id = correlationId then [] else d.waitersOf id := by
  unfold waitersOf
  rw [InsertionMap.lookup_erase]
  split <;> rfl

theorem waitersOf_deregister : (d.deregisterResumeWaiter correlationId w).waitersOf id =
    if id = correlationId then (d.waitersOf correlationId).erase w else d.waitersOf id := by
  unfold deregisterResumeWaiter
  split
  next hnone => rw [waitersOf_erase, hnone]
  next =>
    unfold waitersOf
    rw [InsertionMap.lookup_set]
    split <;> rfl

end Desk

end RedFireForge.Correlation
