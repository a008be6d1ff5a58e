/-
# `RedFireForge.Workflow.State` — what the visits of one run share

`RunState` holds the variables `runGraph` closes over: `visited`,
`joinArrived`, `incomingCount`, `results`, `allPassed`, the abort signal and the
poll semaphore.  `events` is the run's log.  The state reports, traversed edges,
node starts and completions are the calls the source makes on its callbacks and
its trace collector; `skip`, `arrive`, `reset`, `settled` and `cut` are notes of
the model, which nothing reads back.

The two maps are read with a default everywhere (`?? 0`, `?? 1`), so they are
total functions here: `joinArrived n` is `joinArrived.get(n) ?? 0`, with `delete`
as resetting to `0`, and `incomingCount n` is `incomingCount.get(n) ?? 1`.
-/
import Mathlib.Tactic.Simps.Basic
import RedFireForge.Workflow.Graph

namespace RedFireForge.Workflow

/-- `NodeRunStatus.state` -/
inductive RunStatus
  | pending | running | paused | pass | fail | skipped
deriving DecidableEq, Repr

/-- The fields of a `RequestResult` the runner decides on;
`failureDetails` is its length. -/
structure RequestResult where
  workflowNodeId : NodeId
  passed : Bool
  httpStatus : ℕ
  failureDetails : ℕ
deriving DecidableEq, Repr

inductive Event
  /-- `callbacks.onNodeStateChange` -/
  | state (node : NodeId) (status : RunStatus)
  /-- `traceCollector.onEdgeTraversed` -/
  | edge (e : WorkflowEdge)
  /-- `traceCollector.onNodeStart` -/
  | start (node : NodeId)
  /-- `traceCollector.onNodeComplete`, next to the state the visit reported last -/
  | complete (node : NodeId) (recorded reported : RunStatus)
  /-- `markSubtreeSkipped(e.target, …)` was called for `e`, by the handler of `cause` -/
  | skip (cause : NodeId) (e : WorkflowEdge)
  /-- a visit of the join `node` was counted; `none` is a visit through no edge -/
  | arrive (node : NodeId) (via : Option WorkflowEdge)
  /-- the arrivals and visits of a body were forgotten -/
  | reset (body : List NodeId)
  /-- an error handler left its retry loop, with `caught` when it takes its catch
  path; `verdict` tells whether the last attempt left a body node failed -/
  | settled (node : NodeId) (caught : Bool) (verdict : Option Bool)
  /-- a visit, a wait, or the walk over the start nodes was cut short by an abort -/
  | cut
deriving DecidableEq, Repr

/-- `Semaphore`: `waiting` holds a ticket for each queued resolver, in order. -/
structure Semaphore where
  permits : ℕ
  waiting : List ℕ
  nextTicket : ℕ
deriving DecidableEq, Repr

structure RunState where
  visited : NodeId → Bool
  joinArrived : NodeId → ℕ
  incomingCount : NodeId → ℕ
  results : List RequestResult
  allPassed : Bool
  /-- `abortSignal.aborted || debugController.isStopped` -/
  aborted : Bool
  pollSemaphore : Option Semaphore
  events : List Event
  /-- the `passed` argument of `callbacks.onComplete` -/
  completed : Option Bool

namespace RunState

variable (s : RunState)

@[simps -fullyApplied]
def log (e : Event) : RunState := { s with events := s.events ++ [e] }

@[simps -fullyApplied]
def logAll (es : List Event) : RunState := { s with events := s.events ++ es }

/-- `callbacks.onNodeStateChange` -/
@[simps -fullyApplied]
def report (n : NodeId) (st : RunStatus) : RunState :=
  { s with events := s.events ++ [.state n st] }

/-- `onEdgeTraversed` for each edge, in order. -/
@[simps -fullyApplied]
def traverse (es : List WorkflowEdge) : RunState := { s with events := s.events ++ es.map .edge }

/-- `visited.add` -/
@[simps -fullyApplied]
def addVisited (n : NodeId) : RunState := { s with visited := Function.update s.visited n true }

/-- `visited.delete` and `joinArrived.delete` over the nodes of a body. -/
@[simps -fullyApplied]
def resetBody (body : List NodeId) : RunState :=
  { s with
    visited := fun n => s.visited n && !body.contains n
    joinArrived := fun n => if body.contains n then 0 else s.joinArrived n
    events := s.events ++ [.reset body] }

/-- The guarded decrement of `incomingCount`. -/
@[simps -fullyApplied]
def lowerCount (n : NodeId) : RunState :=
  { s with
    incomingCount := if s.incomingCount n > 1 then
      Function.update s.incomingCount n (s.incomingCount n - 1) else s.incomingCount }

/-- `joinArrived.set(nodeId, arrived)` of one more arrival. -/
@[simps -fullyApplied]
def arriveAt (n : NodeId) (via : Option WorkflowEdge) : RunState :=
  { s with
    events := s.events ++ [.arrive n via]
    joinArrived := Function.update s.joinArrived n (s.joinArrived n + 1) }

/-- What an action node pushes. -/
@[simps -fullyApplied]
def push (r : RequestResult) : RunState := { s with results := s.results ++ [r] }

@[simps -fullyApplied]
def withPolls (q : Option Semaphore) : RunState := { s with pollSemaphore := q }

theorem withPolls_self {s : RunState} {q : Option Semaphore} (h : s.pollSemaphore = q) :
    s.withPolls q = s := by
  subst h
  rfl

end RunState

end RedFireForge.Workflow
