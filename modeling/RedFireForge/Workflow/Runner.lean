/-
# `RedFireForge.Workflow.Runner` — `runGraph` and its node handlers, step by step

One run is a tree of suspended invocations (`Lib.Proc`).  A frame is the body
of `runGraph` itself, a call of `visit` that has not started, a visit the debug
controller holds, or a handler at one of its awaits.  A step resumes one frame
and runs it to its next await, so each visit, each arrival at a join and each
call of `markSubtreeSkipped` is one atomic step, and every interleaving of the
fork branches is a choice of paths.

What the code learns from outside at a step is an `Env`: the value of a
condition, the matched case of a switch, the clock, the work of an action node.
The variable context, the logs and the trace details are not modelled; they
reach control flow only through those answers.  Delays are not frames either: a
frame that is ready need not be chosen.
-/
import RedFireForge.Lib.Run
import RedFireForge.Lib.Proc
import RedFireForge.Workflow.Skip

namespace RedFireForge.Workflow

open RedFireForge.Lib

/-! ## Answers of the environment -/

/-- How an action node's own work ends, up to its call of `visitOutgoing`. -/
inductive Settlement
  /-- state `pass`, then `visitOutgoing` -/
  | pass
  /-- `passed.value = false` and state `fail`; `visits` when `visitOutgoing` follows -/
  | fail (visits : Bool)
  /-- state `fail` with error `Aborted`, `passed.value` untouched, return -/
  | aborted
deriving DecidableEq, Repr

structure Env where
  /-- `evaluateCondition`, the mode test of a loop, or `evaluateWaitCondition` -/
  holds : Bool := true
  /-- `matchHandle` of a switch -/
  handle : String := ""
  /-- `performance.now()` minus the start of the retry or poll loop -/
  elapsed : ℕ := 0
  /-- the handler throws here -/
  throws : Bool := false
  /-- a result an action pushes now; `none` when its work ends with `settle` -/
  push : Option RequestResult := none
  settle : Settlement := .pass
deriving DecidableEq, Repr

/-! ## Frames -/

/-- What one visit remembers: the node its handler was called with, the value
`allPassed` had then, `passedFlag.value`, the flag of the results it pushed
itself (for `http` the conjunction, else the last one), and the state it
reported last. -/
structure Visit where
  node : NodeId
  type : NodeType
  seed : Bool
  passed : Bool
  pushed : Option Bool
  reported : RunStatus
deriving DecidableEq, Repr

/-- What a handler does after a walk over some of its edges.  `mark` and `pre`
are the lengths of the event log and of `results` when the body was entered. -/
inductive Then
  /-- it returns -/
  | ret
  /-- the body of a loop: `iterations++` -/
  | iterated (iterations mark : ℕ)
  /-- the body of an error handler: the results of the attempt are looked at -/
  | attempted (attempt pre mark : ℕ)
  /-- the body of a poll: the permit is given back and the condition tested -/
  | polled (attempt : ℕ)
deriving DecidableEq, Repr

/-- Where a handler waits; `verdict` is the note of `Event.settled`. -/
inductive Pc
  /-- its own work -/
  | acting
  /-- calls of `markSubtreeSkipped` left; then the edges of `take`, all at once
  (`Promise.all`, in a condition) or one by one (in a switch or error handler) -/
  | skipping (atOnce : Bool) (skip take : List WorkflowEdge)
  /-- `for (const e of es) { onEdgeTraversed(e.id); await visit(e.target) }` -/
  | walking (k : Then) (es : List WorkflowEdge)
  | loopTest (iterations : ℕ)
  | tryTest (attempt : ℕ) (verdict : Option Bool)
  | pollTest (attempt : ℕ)
  | pollAcquire (attempt ticket : ℕ)
deriving DecidableEq, Repr

inductive Frame
  /-- the loop over the start nodes -/
  | main (starts : List NodeId)
  /-- what follows the workflow-level error handler -/
  | final
  /-- `visit(node)`, called but not started -/
  | visit (via : Option WorkflowEdge) (node : NodeId)
  /-- `await debugController.waitForStep(node)` -/
  | paused (node : NodeId)
  | handler (v : Visit) (pc : Pc)
deriving DecidableEq, Repr

abbrev Work := Proc Frame

/-- `visit(e.target)` -/
def visitEdge (e : WorkflowEdge) : Work := .call (.visit (some e) e.target) .done

namespace Visit

/-- The handler goes on at `pc`. -/
def goto (v : Visit) (pc : Pc) : Work := .call (.handler v pc) .done

/-- The handler waits for `w` at `pc`. -/
def await (v : Visit) (pc : Pc) (w : Work) : Work := .call (.handler v pc) w

/-- `Promise.all(es.map(e => visit(e.target)))`, then the handler returns. -/
def awaitAll (v : Visit) (es : List WorkflowEdge) : Work :=
  v.await (.walking .ret []) (.all (es.map visitEdge))

def tell (v : Visit) (st : RunStatus) : Visit := { v with reported := st }

/-- `passed.value = false` -/
def clear (v : Visit) : Visit := { v with passed := false }

end Visit

/-! ## The end of a visit -/

/-- Types whose trace state is read off the node's latest result. -/
def ActionType.writesResults : ActionType → Bool
  | .grpcUnary | .grpcServerStream | .grpcAssert | .grpcLoadTest | .grpcSchemaDiff
  | .grpcMockAssert | .apiMockStart | .apiMockApply | .apiMockResetState | .apiMockStop
  | .apiMockAssertCalls => true
  | _ => false

def NodeType.writesResults : NodeType → Bool
  | .action kind => kind.writesResults
  | _ => false

/-- `results.filter(r => r.workflowNodeId === nodeId)`, its last element. -/
def lastResult (n : NodeId) (results : List RequestResult) : Option RequestResult :=
  results.reverse.find? (fun r => r.workflowNodeId == n)

def statusOf (passed : Bool) : RunStatus := if passed then .pass else .fail

def resolveNodeTraceState (type : NodeType) (n : NodeId) (passed : Bool)
    (results : List RequestResult) : RunStatus :=
  match type.writesResults, lastResult n results with
  | true, some r => statusOf r.passed
  | _, _ => statusOf passed

/-- The handler returned: `if (!passedFlag.value) allPassed = false`, then
`onNodeComplete`. -/
@[simps -fullyApplied]
def finish (s : RunState) (v : Visit) : RunState :=
  { s with
    allPassed := s.allPassed && v.passed
    events := s.events ++
      [.complete v.node (resolveNodeTraceState v.type v.node v.passed s.results) v.reported] }

/-- The handler threw: the `catch` of `visit`. -/
@[simps -fullyApplied]
def crash (s : RunState) (v : Visit) : RunState :=
  { s with
    allPassed := false
    events := s.events ++ [.state v.node .fail, .complete v.node .fail .fail] }

/-! ## Action nodes -/

/-- Types whose handler pushes results. -/
def ActionType.pushes : ActionType → Bool
  | .http | .subWorkflow | .kafkaProduce | .kafkaConsume | .wsConnect | .wsSend | .wsReceive
  | .wsTrigger | .graphqlQuery | .graphqlMutation | .graphqlSubscription | .graphqlIntrospect
  | .graphqlAssert => true
  | kind => kind.writesResults

/-- A pushed result carries the node's own id, but for a sub-workflow, which
pushes the results of the child's nodes. -/
def ActionType.mayPush (kind : ActionType) (n : NodeId) (r : RequestResult) : Bool :=
  kind.pushes && (kind == .subWorkflow || r.workflowNodeId == n)

/-- `pushed` after one more result. -/
def ActionType.notePush (kind : ActionType) (pushed : Option Bool) (passed : Bool) : Option Bool :=
  if kind == .http then some (pushed.getD true && passed) else some passed

/-- The exits of the handlers.  The always-passing types have one exit; `http`
fails exactly when it pushed a failed result; a gRPC or API-mock node passes
only with a passed result of its own; only the three waiting types return on an
abort without clearing `passed`. -/
def ActionType.mayEnd (kind : ActionType) (pushed : Option Bool) : Settlement → Bool
  | .pass =>
      match kind with
      | .subWorkflow => true
      | _ => if kind.writesResults then pushed == some true else pushed != some false
  | .fail visits =>
      match kind with
      | .delay | .start | .webhook | .schedule | .setVariable | .aggregate | .logDebug
      | .kafkaTrigger => false
      | .http => pushed == some false && visits
      | .script | .subWorkflow => visits
      | .apiMockStart | .apiMockApply | .apiMockResetState | .apiMockStop
      | .apiMockAssertCalls => pushed == some false
      | _ => if kind.writesResults then pushed != some true else pushed != some true && !visits
  | .aborted =>
      match kind with
      | .kafkaConsume | .kafkaWait | .correlationWait => pushed == none
      | _ => false

/-- One step of an action node's own work. -/
def handleAction (g : Graph) (env : Env) (s : RunState) (v : Visit) (kind : ActionType) :
    Option (RunState × Work) :=
  if env.throws then some (crash s v, .done)
  else
    match env.push with
    | some r =>
        if kind.mayPush v.node r then
          some (s.push r,
            { v with pushed := kind.notePush v.pushed r.passed }.goto .acting)
        else none
    | none =>
        if kind.mayEnd v.pushed env.settle then
          match env.settle with
          | .pass =>
              some (s.report v.node .pass, (v.tell .pass).goto (.walking .ret (g.outgoing v.node)))
          | .fail visits =>
              some (s.report v.node .fail,
                (v.clear.tell .fail).goto (.walking .ret (if visits then g.outgoing v.node else [])))
          | .aborted =>
              if s.aborted then
                some ((s.log .cut).report v.node .fail, (v.tell .fail).goto (.walking .ret []))
              else none
        else none

/-! ## Condition, fork, join and switch -/

def matchesTakenBranch (condResult : Bool) (e : WorkflowEdge) : Bool :=
  if condResult then e.sourceHandle == some "true" || e.label == some "Yes"
  else e.sourceHandle == some "false" || e.label == some "No"

def matchesSkippedBranch (condResult : Bool) (e : WorkflowEdge) : Bool :=
  matchesTakenBranch (!condResult) e

def handleConditionNode (g : Graph) (env : Env) (s : RunState) (v : Visit) : RunState × Work :=
  let nextEdges := g.outgoing v.node
  (s.report v.node .pass, (v.tell .pass).goto
    (.skipping true (nextEdges.filter (matchesSkippedBranch env.holds))
      (nextEdges.filter (matchesTakenBranch env.holds))))

def handleForkNode (g : Graph) (s : RunState) (v : Visit) : RunState × Work :=
  let nextEdges := g.outgoing v.node
  ((s.report v.node .pass).traverse nextEdges,
    (v.tell .pass).awaitAll nextEdges)

def handleJoinNode (g : Graph) (s : RunState) (v : Visit) : RunState × Work :=
  (s.report v.node .pass, (v.tell .pass).goto (.walking .ret (g.outgoing v.node)))

def handleSwitchNode (g : Graph) (env : Env) (s : RunState) (v : Visit) : RunState × Work :=
  let nextEdges := g.outgoing v.node
  (s.report v.node .pass, (v.tell .pass).goto
    (.skipping false (nextEdges.filter (fun e => e.sourceHandle != some env.handle))
      (nextEdges.filter (fun e => e.sourceHandle == some env.handle))))

/-! ## Loop -/

/-- `data.maxIterations ?? 100` -/
def LoopNodeData.maxIter (d : LoopNodeData) : Int := d.maxIterations.getD 100

def loopBodyNodeIds (g : Graph) (n : NodeId) : List NodeId :=
  collectReachableFromEdges g (g.handleEdges n "body")
    ((g.handleEdges n "done").map WorkflowEdge.target)

/-- `while (shouldContinue())` -/
def loopStep (g : Graph) (env : Env) (s : RunState) (v : Visit) (d : LoopNodeData)
    (iterations : ℕ) : RunState × Work :=
  if !s.aborted && decide ((iterations : Int) < d.maxIter) && env.holds then
    (s.resetBody (loopBodyNodeIds g v.node),
      v.goto (.walking (.iterated iterations s.events.length) (g.handleEdges v.node "body")))
  else
    (s.report v.node .pass, (v.tell .pass).goto (.walking .ret (g.handleEdges v.node "done")))

/-! ## Error handler -/

def ErrorHandlerNodeData.maxRetries (d : ErrorHandlerNodeData) : Int := d.retryCount.getD 0

def errorBodyNodeIds (g : Graph) (n : NodeId) : List NodeId :=
  collectReachableFromEdges g (g.handleEdges n "body")
    ((g.handleEdges n "catch").map WorkflowEdge.target ++
      (g.handleEdges n "done").map WorkflowEdge.target)

def classifyErrorType (r : RequestResult) : String :=
  if r.httpStatus = 0 then "network-error"
  else if r.httpStatus ≥ 400 then "http-error"
  else if r.failureDetails > 0 then "assertion-failure"
  else "http-error"

def matchesErrorFilter (errorType filter : String) : Bool :=
  filter == "all" || errorType == filter

/-- The last state reported for `n` in a stretch of the log. -/
def lastState (n : NodeId) : List Event → Option RunStatus
  | [] => none
  | e :: es =>
      match lastState n es, e with
      | some st, _ => some st
      | none, .state m st => if m = n then some st else none
      | none, _ => none

/-- Some node of the body was left in state `fail` by a stretch of the log. -/
def bodyFailed (body : List NodeId) (log : List Event) : Bool :=
  body.any (fun n => lastState n log == some .fail)

/-- The visit of an error handler on its catch path. -/
def Visit.caught (v : Visit) (d : ErrorHandlerNodeData) : Visit :=
  if d.continueOnError then v.tell .pass else v.clear.tell .fail

/-- The loop was left without success: the catch path. -/
def takeCatch (g : Graph) (s : RunState) (v : Visit) (d : ErrorHandlerNodeData)
    (verdict : Option Bool) : RunState × Work :=
  ((s.log (.settled v.node true verdict)).report v.node (v.caught d).reported,
    (v.caught d).goto (.walking .ret (g.handleEdges v.node "catch" ++ g.handleEdges v.node "done")))

/-- `if (attempt > 0)`: the first attempt forgets nothing. -/
def retryBody (attempt : ℕ) (body : List NodeId) : List NodeId := if attempt > 0 then body else []

/-- `while (attempt <= maxRetries && !succeeded)` with the two breaks at its head. -/
def tryStep (g : Graph) (env : Env) (s : RunState) (v : Visit) (d : ErrorHandlerNodeData)
    (attempt : ℕ) (verdict : Option Bool) : RunState × Work :=
  if ¬ (attempt : Int) ≤ d.maxRetries then takeCatch g s v d verdict
  else if s.aborted then takeCatch g s v d verdict
  else if 0 < d.retryTimeoutMs ∧ 0 < attempt ∧ d.retryTimeoutMs ≤ env.elapsed then
    takeCatch g s v d verdict
  else
    (s.resetBody (retryBody attempt (errorBodyNodeIds g v.node)),
      v.goto (.walking (.attempted attempt s.results.length s.events.length)
        (g.handleEdges v.node "body")))

/-- The body of an attempt is done: success, a break on the error filter, or
one more retry. -/
def tryDone (g : Graph) (s : RunState) (v : Visit) (d : ErrorHandlerNodeData)
    (attempt pre mark : ℕ) : RunState × Work :=
  let verdict := some (bodyFailed (errorBodyNodeIds g v.node) (s.events.drop mark))
  match (s.results.drop pre).find? (fun r => !r.passed) with
  | none =>
      ((s.log (.settled v.node false verdict)).report v.node .pass, (v.tell .pass).goto
        (.skipping false (g.handleEdges v.node "catch") (g.handleEdges v.node "done")))
  | some failedResult =>
      if matchesErrorFilter (classifyErrorType failedResult) d.errorFilter then
        (s, v.goto (.tryTest (attempt + 1) verdict))
      else takeCatch g s v d verdict

/-! ## Wait for condition -/

def waitBodyNodeIds (g : Graph) (n : NodeId) : List NodeId :=
  collectReachableFromEdges g (g.handleEdges n "body")
    ((g.handleEdges n "done").map WorkflowEdge.target)

/-- `acquire()`: a free permit is taken at once, else a ticket is queued. -/
def Semaphore.acquire (q : Semaphore) : Semaphore × Option ℕ :=
  if q.permits > 0 then ({ q with permits := q.permits - 1 }, none)
  else ({ q with waiting := q.waiting ++ [q.nextTicket], nextTicket := q.nextTicket + 1 },
    some q.nextTicket)

/-- `release()`: the first waiter is resolved, or the permit is free again. -/
def Semaphore.release (q : Semaphore) : Semaphore :=
  match q.waiting with
  | _ :: rest => { q with waiting := rest }
  | [] => { q with permits := q.permits + 1 }

/-- The visit of a poll node once the loop is left. -/
def Visit.polled (v : Visit) (conditionMet : Bool) : Visit :=
  if conditionMet then v.tell .pass else v.clear.tell .fail

/-- What follows the poll loop. -/
def pollExit (g : Graph) (s : RunState) (v : Visit) (conditionMet : Bool) : RunState × Work :=
  (s.report v.node (v.polled conditionMet).reported,
    (v.polled conditionMet).goto (.walking .ret (g.handleEdges v.node "done")))

/-- `finally { pollSemaphore.release() }` -/
@[simps! -fullyApplied]
def releasePoll (s : RunState) : RunState := s.withPolls (s.pollSemaphore.map Semaphore.release)

/-- `while (!conditionMet)` up to the poll.  A clock that has not reached the
waits already made is no answer of the environment. -/
def pollStep (g : Graph) (env : Env) (s : RunState) (v : Visit) (d : WaitForConditionNodeData)
    (attempt : ℕ) : Option (RunState × Work) :=
  if (env.elapsed : Int) < attempt * max 1 d.pollIntervalMs then none
  else if s.aborted then some (pollExit g s v false)
  else if 0 < d.timeoutMs ∧ d.timeoutMs ≤ env.elapsed then some (pollExit g s v false)
  else if 0 < d.maxAttempts ∧ d.maxAttempts ≤ attempt then some (pollExit g s v false)
  else
    let s' := s.resetBody (retryBody attempt (waitBodyNodeIds g v.node))
    match s.pollSemaphore with
    | none => some (s', v.goto (.walking (.polled attempt) (g.handleEdges v.node "body")))
    | some q =>
        match q.acquire with
        | (q', none) =>
            some (s'.withPolls (some q'),
              v.goto (.walking (.polled attempt) (g.handleEdges v.node "body")))
        | (q', some ticket) =>
            some (s'.withPolls (some q'), v.goto (.pollAcquire attempt ticket))

/-- The body of a poll is done: release, then test the condition. -/
def pollDone (g : Graph) (env : Env) (s : RunState) (v : Visit) (attempt : ℕ) : RunState × Work :=
  if env.holds then pollExit g (releasePoll s) v true
  else (releasePoll s, v.goto (.pollTest (attempt + 1)))

/-! ## `visit` -/

/-- The flags of a visit whose handler is about to be called. -/
def newVisit (s : RunState) (node : WorkflowNode) (id : NodeId) : Visit where
  node := id
  type := node.type
  seed := s.allPassed
  passed := s.allPassed
  pushed := none
  reported := .running

/-- State `running`, and `onNodeStart`. -/
@[simps -fullyApplied]
def begin (s : RunState) (id : NodeId) : RunState :=
  { s with events := s.events ++ [.state id .running, .start id] }

/-- The handler is called. -/
def enter (g : Graph) (env : Env) (s : RunState) (node : WorkflowNode) (id : NodeId) :
    RunState × Work :=
  let v := newVisit s node id
  let s := begin s id
  if env.throws then (crash s v, .done)
  else
    match node.type with
    | .condition => handleConditionNode g env s v
    | .fork => handleForkNode g s v
    | .join => handleJoinNode g s v
    | .switch => handleSwitchNode g env s v
    | .loop _ => (s.report id .running, v.goto (.loopTest 0))
    | .errorHandler _ => (s.report id .running, v.goto (.tryTest 0 none))
    | .waitForCondition _ => (s.report id .running, v.goto (.pollTest 0))
    | .«end» => (s.report id .pass, (v.tell .pass).goto (.walking .ret []))
    | .action _ => (s, v.goto .acting)

/-- The part of `visit` after the join barrier. -/
def visitNode (g : Graph) (env : Env) (s : RunState) (node : WorkflowNode) (id : NodeId) :
    RunState × Work :=
  if s.visited id then (s, .done)
  else if g.debugController then
    ((s.addVisited id).report id .paused, .call (.paused id) .done)
  else enter g env (s.addVisited id) node id

def visit (g : Graph) (env : Env) (s : RunState) (via : Option WorkflowEdge) (id : NodeId) :
    RunState × Work :=
  if s.aborted then (s.log .cut, .done)
  else
    match g.nodeMap id with
    | none => (s, .done)
    | some node =>
        if node.type = .join then
          let arrived := s.joinArrived id + 1
          if arrived < s.incomingCount id then ((s.arriveAt id via).report id .running, .done)
          else visitNode g env (s.arriveAt id via) node id
        else visitNode g env s node id

/-! ## Resuming a frame -/

/-- What follows the walk of a handler over some of its edges. -/
def afterWalk (g : Graph) (env : Env) (s : RunState) (v : Visit) : Then → Option (RunState × Work)
  | .ret => some (finish s v, .done)
  | .iterated iterations _ => some (s, v.goto (.loopTest (iterations + 1)))
  | .attempted attempt pre mark =>
      match v.type with
      | .errorHandler d => some (tryDone g s v d attempt pre mark)
      | _ => none
  | .polled attempt =>
      match v.type with
      | .waitForCondition _ => some (pollDone g env s v attempt)
      | _ => none

/-- A handler goes on once what it awaited is done. -/
def resumeHandler (g : Graph) (env : Env) (s : RunState) (v : Visit) :
    Pc → Option (RunState × Work)
  | .acting =>
      match v.type with
      | .action kind => handleAction g env s v kind
      | _ => none
  | .skipping atOnce (e :: skip) take =>
      some (markSubtreeSkipped g v.node e s, v.goto (.skipping atOnce skip take))
  | .skipping true [] take => some (s.traverse take, v.awaitAll take)
  | .skipping false [] take => some (s, v.goto (.walking .ret take))
  | .walking k (e :: es) => some (s.traverse [e], v.await (.walking k es) (visitEdge e))
  | .walking k [] => afterWalk g env s v k
  | .loopTest iterations =>
      match v.type with
      | .loop d => some (loopStep g env s v d iterations)
      | _ => none
  | .tryTest attempt verdict =>
      match v.type with
      | .errorHandler d => some (tryStep g env s v d attempt verdict)
      | _ => none
  | .pollTest attempt =>
      match v.type with
      | .waitForCondition d => pollStep g env s v d attempt
      | _ => none
  | .pollAcquire attempt ticket =>
      if s.pollSemaphore.any (fun q => q.waiting.contains ticket) then none
      else some (s, v.goto (.walking (.polled attempt) (g.handleEdges v.node "body")))

/-- The end nodes no visit reached are marked, and the run reports its result. -/
@[simps -fullyApplied]
def complete (g : Graph) (s : RunState) : RunState :=
  { s with
    events := s.events ++ (g.nodes.filter (fun n => n.type == .end && !s.visited n.id)).map
      (fun n => .state n.id (statusOf s.allPassed))
    completed := some s.allPassed }

/-- The visit of the workflow-level error handler, if it is due. -/
def errorConfigVisit (g : Graph) (s : RunState) : Work :=
  match g.handlerEntryNodeId with
  | some entry =>
      if !s.allPassed && (g.nodeMap entry).isSome && !s.visited entry then
        .call (.visit none entry) .done
      else .done
  | none => .done

def resumeFrame (g : Graph) (env : Env) (s : RunState) : Frame → Option (RunState × Work)
  | .main [] => some (s, .call .final (errorConfigVisit g s))
  | .main (n :: ns) =>
      if s.aborted then some (s.log .cut, .call .final (errorConfigVisit g s))
      else some (s, .call (.main ns) (.call (.visit none n) .done))
  | .final => some (complete g s, .done)
  | .visit via id => some (visit g env s via id)
  | .paused id =>
      if s.aborted then some (s.log .cut, .done)
      else (g.nodeMap id).map (fun node => enter g env s node id)
  | .handler v pc => resumeHandler g env s v pc

/-! ## The run as a transition system -/

structure Config where
  state : RunState
  work : Work

inductive Choice
  /-- the frame at the end of `path` moves, with the answers `env` -/
  | step (path : List Side) (env : Env)
  /-- the abort signal fires, or the debug session is stopped -/
  | abort
  /-- another iteration uses the poll semaphore -/
  | polls (q : Option Semaphore)
deriving DecidableEq, Repr

/-- `n` steps of the frame at the end of `path`, with the same answers. -/
def stepsAt (env : Env) (path : List Side) (n : ℕ) : List Choice := List.replicate n (.step path env)

def next (g : Graph) : Choice → Config → Option Config
  | .step path env, c =>
      (c.work.resume (resumeFrame g env c.state) path).map (fun (s, w) => ⟨s, w⟩)
  | .abort, c => some { c with state := { c.state with aborted := true } }
  | .polls q, c => some { c with state := c.state.withPolls q }

def initialState (g : Graph) (q : Option Semaphore) (aborted : Bool) : RunState where
  visited _ := false
  joinArrived _ := 0
  incomingCount n := max 1 (g.incoming n).length
  results := []
  allPassed := true
  aborted := aborted
  pollSemaphore := q
  events := g.nodes.map (fun n => .state n.id .pending)
  completed := none

/-- `runGraph` up to its first await.  Without a start node it completes at once. -/
def initial (g : Graph) (q : Option Semaphore) (aborted : Bool) : Config :=
  match findStartNodes g with
  | [] => ⟨{ initialState g q aborted with events := [], completed := some true }, .done⟩
  | starts => ⟨initialState g q aborted, .call (.main (starts.map WorkflowNode.id)) .done⟩

end RedFireForge.Workflow
