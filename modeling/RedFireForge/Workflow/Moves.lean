/-
# `RedFireForge.Workflow.Moves` — what a step of a run can do

`resumeFrame_moves` is the inversion of one step: whatever frame is resumed,
one of the moves below happens.  Every invariant of a run is proved by cases on
them, and none of those proofs unfolds the runner.  A move keeps the guards the
code tests and forgets the answers of the environment.
-/
import RedFireForge.Workflow.Runner

namespace RedFireForge.Workflow

open RedFireForge.Lib

/-! ## The frames of the work a handler leaves -/

@[simp] theorem frames_goto (v : Visit) (pc : Pc) : (v.goto pc).frames = {.handler v pc} := rfl

@[simp] theorem frames_await (v : Visit) (pc : Pc) (w : Work) :
    (v.await pc w).frames = .handler v pc ::ₘ w.frames := rfl

@[simp] theorem frames_visitEdge (e : WorkflowEdge) :
    (visitEdge e).frames = {.visit (some e) e.target} := rfl

@[simp] theorem frames_awaitAll (v : Visit) (es : List WorkflowEdge) :
    (v.awaitAll es).frames = .handler v (.walking .ret []) ::ₘ
      ((es.map (fun e => Frame.visit (some e) e.target) : List Frame) : Multiset Frame) := by
  simp only [Visit.awaitAll, frames_await, Proc.frames_all, List.map_map]
  congr 1
  induction es with
  | nil => rfl
  | cons e es ih => simp [ih]

/-- At most one frame, the visit of the handler's entry. -/
theorem errorConfigVisit_cases (g : Graph) (s : RunState) :
    errorConfigVisit g s = .done ∨
      ∃ entry, errorConfigVisit g s = .call (.visit none entry) .done := by
  unfold errorConfigVisit
  split
  · split
    · exact Or.inr ⟨_, rfl⟩
    · exact Or.inl rfl
  · exact Or.inl rfl

section Exits

variable (g : Graph) (s : RunState) (v : Visit)

@[simp] theorem takeCatch_fst (d : ErrorHandlerNodeData) (verdict : Option Bool) :
    (takeCatch g s v d verdict).1 =
      (s.log (.settled v.node true verdict)).report v.node (v.caught d).reported := rfl

@[simp] theorem takeCatch_snd (d : ErrorHandlerNodeData) (verdict : Option Bool) :
    (takeCatch g s v d verdict).2 = (v.caught d).goto
      (.walking .ret (g.handleEdges v.node "catch" ++ g.handleEdges v.node "done")) := rfl

@[simp] theorem pollExit_fst (met : Bool) :
    (pollExit g s v met).1 = s.report v.node (v.polled met).reported := rfl

@[simp] theorem pollExit_snd (met : Bool) :
    (pollExit g s v met).2 =
      (v.polled met).goto (.walking .ret (g.handleEdges v.node "done")) := rfl

@[simp] theorem tell_type (st : RunStatus) : (v.tell st).type = v.type := rfl

@[simp] theorem tell_node (st : RunStatus) : (v.tell st).node = v.node := rfl

@[simp] theorem clear_type : v.clear.type = v.type := rfl

@[simp] theorem clear_node : v.clear.node = v.node := rfl

@[simp] theorem caught_node (d : ErrorHandlerNodeData) : (v.caught d).node = v.node := by
  unfold Visit.caught
  split <;> rfl

@[simp] theorem caught_type (d : ErrorHandlerNodeData) : (v.caught d).type = v.type := by
  unfold Visit.caught
  split <;> rfl

@[simp] theorem polled_node (met : Bool) : (v.polled met).node = v.node := by
  unfold Visit.polled
  split <;> rfl

@[simp] theorem polled_type (met : Bool) : (v.polled met).type = v.type := by
  unfold Visit.polled
  split <;> rfl

end Exits

/-! ## The call of a handler -/

/-- What the handler of `node` does up to its first await; `s` is the state in
which it is called, `v` its visit. -/
inductive Enters (g : Graph) (s : RunState) (v : Visit) : RunState → Work → Prop
  | crash : Enters g s v (crash s v) .done
  | condition (b : Bool) : v.type = .condition →
      Enters g s v (s.report v.node .pass) ((v.tell .pass).goto (.skipping true
        ((g.outgoing v.node).filter (matchesSkippedBranch b))
        ((g.outgoing v.node).filter (matchesTakenBranch b))))
  | switch (handle : String) : v.type = .switch →
      Enters g s v (s.report v.node .pass) ((v.tell .pass).goto (.skipping false
        ((g.outgoing v.node).filter (fun e => e.sourceHandle != some handle))
        ((g.outgoing v.node).filter (fun e => e.sourceHandle == some handle))))
  | fork : v.type = .fork →
      Enters g s v ((s.report v.node .pass).traverse (g.outgoing v.node))
        ((v.tell .pass).awaitAll (g.outgoing v.node))
  | join : v.type = .join →
      Enters g s v (s.report v.node .pass)
        ((v.tell .pass).goto (.walking .ret (g.outgoing v.node)))
  | loop {d : LoopNodeData} : v.type = .loop d →
      Enters g s v (s.report v.node .running) (v.goto (.loopTest 0))
  | errorHandler {d : ErrorHandlerNodeData} : v.type = .errorHandler d →
      Enters g s v (s.report v.node .running) (v.goto (.tryTest 0 none))
  | waitForCondition {d : WaitForConditionNodeData} : v.type = .waitForCondition d →
      Enters g s v (s.report v.node .running) (v.goto (.pollTest 0))
  | «end» : v.type = .end →
      Enters g s v (s.report v.node .pass) ((v.tell .pass).goto (.walking .ret []))
  | action {kind : ActionType} : v.type = .action kind → Enters g s v s (v.goto .acting)

theorem enter_cases {g : Graph} {env : Env} {s s' : RunState} {node : WorkflowNode} {id : NodeId}
    {w : Work} (h : enter g env s node id = (s', w)) :
    Enters g (begin s id) (newVisit s node id) s' w := by
  unfold enter at h
  split at h
  · cases h
    exact .crash
  · split at h
    case h_1 ht => cases h; exact .condition env.holds ht
    case h_2 ht => cases h; exact .fork ht
    case h_3 ht => cases h; exact .join ht
    case h_4 ht => cases h; exact .switch env.handle ht
    case h_5 ht => cases h; exact .loop ht
    case h_6 ht => cases h; exact .errorHandler ht
    case h_7 ht => cases h; exact .waitForCondition ht
    case h_8 ht => cases h; exact .end ht
    case h_9 ht => cases h; exact .action ht

/-- The state after the join barrier let a visit through. -/
def passBarrier (g : Graph) (s : RunState) (via : Option WorkflowEdge) (id : NodeId) : RunState :=
  if g.isJoin id then s.arriveAt id via else s

section PassBarrier

variable (g : Graph) (s : RunState) (via : Option WorkflowEdge) (id : NodeId)

@[simp] theorem passBarrier_visited : (passBarrier g s via id).visited = s.visited := by
  unfold passBarrier
  split <;> rfl

@[simp] theorem passBarrier_incomingCount :
    (passBarrier g s via id).incomingCount = s.incomingCount := by
  unfold passBarrier
  split <;> rfl

@[simp] theorem passBarrier_results : (passBarrier g s via id).results = s.results := by
  unfold passBarrier
  split <;> rfl

@[simp] theorem passBarrier_allPassed : (passBarrier g s via id).allPassed = s.allPassed := by
  unfold passBarrier
  split <;> rfl

@[simp] theorem passBarrier_aborted : (passBarrier g s via id).aborted = s.aborted := by
  unfold passBarrier
  split <;> rfl

@[simp] theorem passBarrier_pollSemaphore :
    (passBarrier g s via id).pollSemaphore = s.pollSemaphore := by
  unfold passBarrier
  split <;> rfl

@[simp] theorem passBarrier_completed : (passBarrier g s via id).completed = s.completed := by
  unfold passBarrier
  split <;> rfl

theorem passBarrier_events : (passBarrier g s via id).events =
    s.events ++ if g.isJoin id then [.arrive id via] else [] := by
  unfold passBarrier
  split <;> simp

/-- The barrier logs nothing but arrivals. -/
theorem passBarrier_countP {p : Event → Bool} (hp : ∀ n via, p (.arrive n via) = false) :
    (passBarrier g s via id).events.countP p = s.events.countP p := by
  unfold passBarrier
  split <;> simp [hp]

@[simp] theorem passBarrier_joinArrived : (passBarrier g s via id).joinArrived =
    if g.isJoin id then Function.update s.joinArrived id (s.joinArrived id + 1)
    else s.joinArrived := by
  unfold passBarrier
  split <;> rfl

end PassBarrier

/-- The tests at the head of the poll loop let one more poll through. -/
structure PollDue (s : RunState) (d : WaitForConditionNodeData) (n : ℕ) : Prop where
  running : s.aborted = false
  inTime : 0 < d.timeoutMs →
    ∃ elapsed : ℕ, (elapsed : Int) < d.timeoutMs ∧ n * max 1 d.pollIntervalMs ≤ elapsed
  inAttempts : 0 < d.maxAttempts → (n : Int) < d.maxAttempts

/-! ## The moves -/

inductive Moves (g : Graph) (s : RunState) : Frame → RunState → Work → Prop
  /-- the start nodes are done -/
  | started : Moves g s (.main []) s (.call .final (errorConfigVisit g s))
  | startCut {n : NodeId} {ns : List NodeId} : s.aborted = true →
      Moves g s (.main (n :: ns)) (s.log .cut) (.call .final (errorConfigVisit g s))
  | start {n : NodeId} {ns : List NodeId} : s.aborted = false →
      Moves g s (.main (n :: ns)) s (.call (.main ns) (.call (.visit none n) .done))
  | final : Moves g s .final (complete g s) .done
  | visitCut {via : Option WorkflowEdge} {id : NodeId} : s.aborted = true →
      Moves g s (.visit via id) (s.log .cut) .done
  | visitNowhere {via : Option WorkflowEdge} {id : NodeId} : g.nodeMap id = none →
      Moves g s (.visit via id) s .done
  /-- the join barrier holds the visit back -/
  | wait {via : Option WorkflowEdge} {id : NodeId} : s.aborted = false → g.isJoin id = true →
      s.joinArrived id + 1 < s.incomingCount id →
      Moves g s (.visit via id) ((s.arriveAt id via).report id .running) .done
  /-- the node was visited or skipped before -/
  | seen {via : Option WorkflowEdge} {id : NodeId} : s.aborted = false →
      s.visited id = true → Moves g s (.visit via id) (passBarrier g s via id) .done
  | pause {via : Option WorkflowEdge} {id : NodeId} : s.aborted = false →
      g.debugController = true → s.visited id = false →
      (g.isJoin id = true → s.incomingCount id ≤ s.joinArrived id + 1) →
      Moves g s (.visit via id) (((passBarrier g s via id).addVisited id).report id .paused)
        (.call (.paused id) .done)
  | enter {via : Option WorkflowEdge} {id : NodeId} {node : WorkflowNode} {s' : RunState}
      {w : Work} : s.aborted = false → g.debugController = false → s.visited id = false →
      g.nodeMap id = some node →
      (g.isJoin id = true → s.incomingCount id ≤ s.joinArrived id + 1) →
      Enters g (begin ((passBarrier g s via id).addVisited id) id)
        (newVisit ((passBarrier g s via id).addVisited id) node id) s' w →
      Moves g s (.visit via id) s' w
  | pauseCut {id : NodeId} : s.aborted = true → Moves g s (.paused id) (s.log .cut) .done
  | resume {id : NodeId} {node : WorkflowNode} {s' : RunState} {w : Work} :
      s.aborted = false → g.nodeMap id = some node →
      Enters g (begin s id) (newVisit s node id) s' w → Moves g s (.paused id) s' w
  /-- an action node throws -/
  | throw {v : Visit} {kind : ActionType} : v.type = .action kind →
      Moves g s (.handler v .acting) (crash s v) .done
  | push {v : Visit} {kind : ActionType} {r : RequestResult} : v.type = .action kind →
      kind.mayPush v.node r = true →
      Moves g s (.handler v .acting) (s.push r)
        ({ v with pushed := kind.notePush v.pushed r.passed }.goto .acting)
  | pass {v : Visit} {kind : ActionType} : v.type = .action kind →
      kind.mayEnd v.pushed .pass = true →
      Moves g s (.handler v .acting) (s.report v.node .pass)
        ((v.tell .pass).goto (.walking .ret (g.outgoing v.node)))
  | fail {v : Visit} {kind : ActionType} {visits : Bool} : v.type = .action kind →
      kind.mayEnd v.pushed (.fail visits) = true →
      Moves g s (.handler v .acting) (s.report v.node .fail)
        ((v.clear.tell .fail).goto (.walking .ret (if visits then g.outgoing v.node else [])))
  | giveUp {v : Visit} {kind : ActionType} : v.type = .action kind → s.aborted = true →
      kind.mayEnd v.pushed .aborted = true →
      Moves g s (.handler v .acting) ((s.log .cut).report v.node .fail)
        ((v.tell .fail).goto (.walking .ret []))
  | skip {v : Visit} {atOnce : Bool} {e : WorkflowEdge} {skip take : List WorkflowEdge} :
      Moves g s (.handler v (.skipping atOnce (e :: skip) take))
        (markSubtreeSkipped g v.node e s) (v.goto (.skipping atOnce skip take))
  | takeAll {v : Visit} {take : List WorkflowEdge} :
      Moves g s (.handler v (.skipping true [] take)) (s.traverse take) (v.awaitAll take)
  | takeEach {v : Visit} {take : List WorkflowEdge} :
      Moves g s (.handler v (.skipping false [] take)) s (v.goto (.walking .ret take))
  | walk {v : Visit} {k : Then} {e : WorkflowEdge} {es : List WorkflowEdge} :
      Moves g s (.handler v (.walking k (e :: es))) (s.traverse [e])
        (v.await (.walking k es) (visitEdge e))
  | finish {v : Visit} : Moves g s (.handler v (.walking .ret [])) (finish s v) .done
  | iterate {v : Visit} {d : LoopNodeData} {i : ℕ} : v.type = .loop d → s.aborted = false →
      (i : Int) < d.maxIter →
      Moves g s (.handler v (.loopTest i)) (s.resetBody (loopBodyNodeIds g v.node))
        (v.goto (.walking (.iterated i s.events.length) (g.handleEdges v.node "body")))
  | iterated {v : Visit} {i mark : ℕ} :
      Moves g s (.handler v (.walking (.iterated i mark) [])) s (v.goto (.loopTest (i + 1)))
  | loopDone {v : Visit} {d : LoopNodeData} {i : ℕ} : v.type = .loop d →
      Moves g s (.handler v (.loopTest i)) (s.report v.node .pass)
        ((v.tell .pass).goto (.walking .ret (g.handleEdges v.node "done")))
  | attempt {v : Visit} {d : ErrorHandlerNodeData} {n : ℕ} {verdict : Option Bool} :
      v.type = .errorHandler d → s.aborted = false → (n : Int) ≤ d.maxRetries →
      Moves g s (.handler v (.tryTest n verdict)) (s.resetBody (retryBody n (errorBodyNodeIds g v.node)))
        (v.goto (.walking (.attempted n s.results.length s.events.length)
          (g.handleEdges v.node "body")))
  /-- the retries are used up, the run is aborted, or the retry time is over -/
  | outOfTries {v : Visit} {d : ErrorHandlerNodeData} {n : ℕ} {verdict : Option Bool} :
      v.type = .errorHandler d →
      (d.maxRetries < n ∨ s.aborted = true ∨ (0 < d.retryTimeoutMs ∧ 0 < n)) →
      Moves g s (.handler v (.tryTest n verdict)) (takeCatch g s v d verdict).1
        (takeCatch g s v d verdict).2
  | succeeded {v : Visit} {d : ErrorHandlerNodeData} {n pre mark : ℕ} {verdict : Bool} :
      v.type = .errorHandler d → (s.results.drop pre).find? (fun r => !r.passed) = none →
      verdict = bodyFailed (errorBodyNodeIds g v.node) (s.events.drop mark) →
      Moves g s (.handler v (.walking (.attempted n pre mark) []))
        ((s.log (.settled v.node false (some verdict))).report v.node .pass)
        ((v.tell .pass).goto
          (.skipping false (g.handleEdges v.node "catch") (g.handleEdges v.node "done")))
  | retry {v : Visit} {d : ErrorHandlerNodeData} {n pre mark : ℕ} {verdict : Bool}
      {r : RequestResult} : v.type = .errorHandler d →
      (s.results.drop pre).find? (fun r => !r.passed) = some r →
      verdict = bodyFailed (errorBodyNodeIds g v.node) (s.events.drop mark) →
      Moves g s (.handler v (.walking (.attempted n pre mark) [])) s
        (v.goto (.tryTest (n + 1) (some verdict)))
  /-- the error does not match the filter -/
  | unmatched {v : Visit} {d : ErrorHandlerNodeData} {n pre mark : ℕ} {verdict : Bool}
      {r : RequestResult} : v.type = .errorHandler d →
      (s.results.drop pre).find? (fun r => !r.passed) = some r →
      verdict = bodyFailed (errorBodyNodeIds g v.node) (s.events.drop mark) →
      Moves g s (.handler v (.walking (.attempted n pre mark) []))
        (takeCatch g s v d (some verdict)).1 (takeCatch g s v d (some verdict)).2
  | pollOver {v : Visit} {d : WaitForConditionNodeData} {n : ℕ} :
      v.type = .waitForCondition d →
      Moves g s (.handler v (.pollTest n)) (pollExit g s v false).1 (pollExit g s v false).2
  /-- a poll starts, with a permit if there is a semaphore -/
  | poll {v : Visit} {d : WaitForConditionNodeData} {n : ℕ} {sem : Option Semaphore} :
      v.type = .waitForCondition d → PollDue s d n →
      (s.pollSemaphore = none ∧ sem = none ∨
        ∃ q, s.pollSemaphore = some q ∧ q.permits > 0 ∧ sem = some q.acquire.1) →
      Moves g s (.handler v (.pollTest n))
        ((s.resetBody (retryBody n (waitBodyNodeIds g v.node))).withPolls sem)
        (v.goto (.walking (.polled n) (g.handleEdges v.node "body")))
  /-- a poll has to wait for a permit -/
  | pollQueued {v : Visit} {d : WaitForConditionNodeData} {n : ℕ} {q : Semaphore} :
      v.type = .waitForCondition d → PollDue s d n → s.pollSemaphore = some q → q.permits = 0 →
      Moves g s (.handler v (.pollTest n))
        ((s.resetBody (retryBody n (waitBodyNodeIds g v.node))).withPolls (some q.acquire.1))
        (v.goto (.pollAcquire n q.nextTicket))
  | pollGranted {v : Visit} {n ticket : ℕ} :
      (∀ q, s.pollSemaphore = some q → ticket ∉ q.waiting) →
      Moves g s (.handler v (.pollAcquire n ticket)) s
        (v.goto (.walking (.polled n) (g.handleEdges v.node "body")))
  | pollMet {v : Visit} {d : WaitForConditionNodeData} {n : ℕ} : v.type = .waitForCondition d →
      Moves g s (.handler v (.walking (.polled n) [])) (pollExit g (releasePoll s) v true).1
        (pollExit g (releasePoll s) v true).2
  | pollAgain {v : Visit} {d : WaitForConditionNodeData} {n : ℕ} : v.type = .waitForCondition d →
      Moves g s (.handler v (.walking (.polled n) [])) (releasePoll s) (v.goto (.pollTest (n + 1)))

/-! ## Every step is one of them -/

theorem visitNode_moves {g : Graph} {env : Env} {s s' : RunState} {via : Option WorkflowEdge}
    {id : NodeId} {node : WorkflowNode} {w : Work} (ha : s.aborted = false)
    (hnode : g.nodeMap id = some node)
    (hjoin : g.isJoin id = true → s.incomingCount id ≤ s.joinArrived id + 1)
    (h : visitNode g env (passBarrier g s via id) node id = (s', w)) :
    Moves g s (.visit via id) s' w := by
  simp only [visitNode, passBarrier_visited] at h
  split at h
  next hseen =>
    cases h
    exact .seen ha hseen
  next hseen =>
    split at h
    next hdebug =>
      cases h
      exact .pause ha hdebug (by simpa using hseen) hjoin
    next hdebug =>
      exact .enter ha (by simpa using hdebug) (by simpa using hseen) hnode hjoin (enter_cases h)

theorem visit_moves {g : Graph} {env : Env} {s s' : RunState} {via : Option WorkflowEdge}
    {id : NodeId} {w : Work} (h : visit g env s via id = (s', w)) :
    Moves g s (.visit via id) s' w := by
  unfold visit at h
  split at h
  next ha =>
    cases h
    exact .visitCut ha
  next ha =>
    have ha : s.aborted = false := by simpa using ha
    split at h
    next hnode =>
      cases h
      exact .visitNowhere hnode
    next node hnode =>
      have hisJoin : g.isJoin id = decide (node.type = .join) := by
        simp [Graph.isJoin, hnode, beq_eq_decide]
      split at h
      next hjoin =>
        dsimp only at h
        split at h
        next hwait =>
          cases h
          exact .wait ha (by simp [hisJoin, hjoin]) hwait
        next hwait =>
          have hpass : passBarrier g s via id = s.arriveAt id via := by
            simp [passBarrier, hisJoin, hjoin]
          exact visitNode_moves ha hnode (fun _ => by omega) (hpass ▸ h)
      next hjoin =>
        have hpass : passBarrier g s via id = s := by simp [passBarrier, hisJoin, hjoin]
        exact visitNode_moves ha hnode (fun hj => by simp [hisJoin, hjoin] at hj) (hpass ▸ h)

theorem handleAction_moves {g : Graph} {env : Env} {s s' : RunState} {v : Visit}
    {kind : ActionType} {w : Work} (ht : v.type = .action kind)
    (h : handleAction g env s v kind = some (s', w)) :
    Moves g s (.handler v .acting) s' w := by
  unfold handleAction at h
  split at h
  · cases h
    exact .throw ht
  · split at h
    · split at h
      next hpush =>
        cases h
        exact .push ht hpush
      next => cases h
    · split at h
      next hend =>
        split at h
        next hs => cases h; exact .pass ht (hs ▸ hend)
        next visits hs => cases h; exact .fail ht (hs ▸ hend)
        next hs =>
          split at h
          next ha => cases h; exact .giveUp ht ha (hs ▸ hend)
          next => cases h
      next => cases h

theorem loopStep_moves {g : Graph} {env : Env} {s s' : RunState} {v : Visit} {d : LoopNodeData}
    {i : ℕ} {w : Work} (ht : v.type = .loop d) (h : loopStep g env s v d i = (s', w)) :
    Moves g s (.handler v (.loopTest i)) s' w := by
  unfold loopStep at h
  split at h
  next hgo =>
    cases h
    simp only [Bool.and_eq_true, Bool.not_eq_true', decide_eq_true_eq] at hgo
    exact .iterate ht hgo.1.1 hgo.1.2
  next =>
    cases h
    exact .loopDone ht

theorem tryStep_moves {g : Graph} {env : Env} {s s' : RunState} {v : Visit}
    {d : ErrorHandlerNodeData} {n : ℕ} {verdict : Option Bool} {w : Work}
    (ht : v.type = .errorHandler d) (h : tryStep g env s v d n verdict = (s', w)) :
    Moves g s (.handler v (.tryTest n verdict)) s' w := by
  unfold tryStep at h
  split at h
  next htries =>
    rw [← (Prod.mk.inj h).1, ← (Prod.mk.inj h).2]
    exact .outOfTries ht (Or.inl (by omega))
  next htries =>
    split at h
    next ha =>
      rw [← (Prod.mk.inj h).1, ← (Prod.mk.inj h).2]
      exact .outOfTries ht (Or.inr (Or.inl ha))
    next ha =>
      split at h
      next htime =>
        rw [← (Prod.mk.inj h).1, ← (Prod.mk.inj h).2]
        exact .outOfTries ht (Or.inr (Or.inr ⟨htime.1, htime.2.1⟩))
      next htime =>
        cases h
        exact .attempt ht (by simpa using ha) (by omega)

theorem tryDone_moves {g : Graph} {s s' : RunState} {v : Visit} {d : ErrorHandlerNodeData}
    {n pre mark : ℕ} {w : Work} (ht : v.type = .errorHandler d)
    (h : tryDone g s v d n pre mark = (s', w)) :
    Moves g s (.handler v (.walking (.attempted n pre mark) [])) s' w := by
  unfold tryDone at h
  split at h
  next hfind =>
    cases h
    exact .succeeded ht hfind rfl
  next r hfind =>
    split at h
    next =>
      cases h
      exact .retry ht hfind rfl
    next =>
      rw [← (Prod.mk.inj h).1, ← (Prod.mk.inj h).2]
      exact .unmatched ht hfind rfl

theorem pollStep_moves {g : Graph} {env : Env} {s s' : RunState} {v : Visit}
    {d : WaitForConditionNodeData} {n : ℕ} {w : Work} (ht : v.type = .waitForCondition d)
    (h : pollStep g env s v d n = some (s', w)) :
    Moves g s (.handler v (.pollTest n)) s' w := by
  unfold pollStep at h
  split at h
  · cases h
  next hclock =>
    split at h
    · cases h; exact .pollOver ht
    next ha =>
      split at h
      · cases h; exact .pollOver ht
      next htime =>
        split at h
        · cases h; exact .pollOver ht
        next hmax =>
          have hdue : PollDue s d n :=
            ⟨by simpa using ha, fun hpos => ⟨env.elapsed, by omega, by omega⟩, fun hpos => by omega⟩
          dsimp only at h
          split at h
          next hsem =>
            cases h
            rw [← RunState.withPolls_self (s := s.resetBody _) hsem]
            exact .poll ht hdue (Or.inl ⟨hsem, rfl⟩)
          next q hsem =>
            by_cases hq : q.permits > 0
            · have hacq : q.acquire = (q.acquire.1, none) := by
                simp only [Semaphore.acquire, if_pos hq]
              rw [hacq] at h
              cases h
              exact .poll ht hdue (Or.inr ⟨q, hsem, hq, rfl⟩)
            · have hacq : q.acquire = (q.acquire.1, some q.nextTicket) := by
                simp only [Semaphore.acquire, if_neg hq]
              rw [hacq] at h
              cases h
              exact .pollQueued ht hdue hsem (by omega)

theorem afterWalk_moves {g : Graph} {env : Env} {s s' : RunState} {v : Visit} {k : Then}
    {w : Work} (h : afterWalk g env s v k = some (s', w)) :
    Moves g s (.handler v (.walking k [])) s' w := by
  cases k with
  | ret => cases h; exact .finish
  | iterated i mark => cases h; exact .iterated
  | attempted n pre mark =>
      simp only [afterWalk] at h
      split at h
      next ht => exact tryDone_moves ht (Option.some.inj h)
      next => cases h
  | polled n =>
      simp only [afterWalk, pollDone] at h
      split at h
      next ht =>
        split at h
        next =>
          rw [← (Prod.mk.inj (Option.some.inj h)).1, ← (Prod.mk.inj (Option.some.inj h)).2]
          exact .pollMet ht
        next =>
          cases h
          exact .pollAgain ht
      next => cases h

theorem resumeHandler_moves {g : Graph} {env : Env} {s s' : RunState} {v : Visit} {pc : Pc}
    {w : Work} (h : resumeHandler g env s v pc = some (s', w)) :
    Moves g s (.handler v pc) s' w := by
  unfold resumeHandler at h
  split at h
  case h_1 =>
    split at h
    next ht => exact handleAction_moves ht h
    next => cases h
  case h_2 => cases h; exact .skip
  case h_3 => cases h; exact .takeAll
  case h_4 => cases h; exact .takeEach
  case h_5 => cases h; exact .walk
  case h_6 => exact afterWalk_moves h
  case h_7 =>
    split at h
    next ht => exact loopStep_moves ht (Option.some.inj h)
    next => cases h
  case h_8 =>
    split at h
    next ht => exact tryStep_moves ht (Option.some.inj h)
    next => cases h
  case h_9 =>
    split at h
    next ht => exact pollStep_moves ht h
    next => cases h
  case h_10 =>
    split at h
    next => cases h
    next hfree =>
      cases h
      refine .pollGranted (fun q hq => ?_)
      simpa [hq] using hfree

/-- **Inversion of a step**: whatever frame is resumed, one of the moves
happens. -/
theorem resumeFrame_moves {g : Graph} {env : Env} {s s' : RunState} {f : Frame} {w : Work}
    (h : resumeFrame g env s f = some (s', w)) : Moves g s f s' w := by
  unfold resumeFrame at h
  split at h
  case h_1 => cases h; exact .started
  case h_2 =>
    split at h
    next ha => cases h; exact .startCut ha
    next ha => cases h; exact .start (by simpa using ha)
  case h_3 => cases h; exact .final
  case h_4 => exact visit_moves (Option.some.inj h)
  case h_5 =>
    split at h
    next ha => cases h; exact .pauseCut ha
    next ha =>
      obtain ⟨node, hnode, henter⟩ := Option.map_eq_some_iff.mp h
      exact .resume (by simpa using ha) hnode (enter_cases henter)
  case h_6 => exact resumeHandler_moves h

/-! ## A step of the run -/

/-- A chosen step: the frame at the end of the path is resumed inside an
unchanged context. -/
theorem next_step_split {g : Graph} {path : List Side} {env : Env} {c c' : Config}
    (h : next g (.step path env) c = some c') :
    ∃ (ctx : Ctx Frame) (f : Frame) (sub w : Work), sub.isDone = true ∧
      c.work.split path = some (ctx, f) ∧ resumeFrame g env c.state f = some (c'.state, w) ∧
        c.work = ctx.plug (.call f sub) ∧ c'.work = ctx.plug w := by
  obtain ⟨⟨s', t'⟩, hres, rfl⟩ := Option.map_eq_some_iff.mp h
  obtain ⟨ctx, f, sub, w, hdone, hf, hwork, hwork', hsplit⟩ := Proc.resume_spec hres
  exact ⟨ctx, f, sub, w, hdone, hsplit, hf, hwork, hwork'⟩

theorem next_step_frame {g : Graph} {path : List Side} {env : Env} {c c' : Config}
    (h : next g (.step path env) c = some c') :
    ∃ (ctx : Ctx Frame) (f : Frame) (sub w : Work), sub.isDone = true ∧
      c.work.redex [] path = some (ctx.callers [], f) ∧
        resumeFrame g env c.state f = some (c'.state, w) ∧
          c.work = ctx.plug (.call f sub) ∧ c'.work = ctx.plug w := by
  obtain ⟨ctx, f, sub, w, hdone, hsplit, hf, hwork, hwork'⟩ := next_step_split h
  exact ⟨ctx, f, sub, w, hdone, by rw [Proc.redex, hsplit]; rfl, hf, hwork, hwork'⟩

/-- It makes one of the moves. -/
theorem next_step_ctx {g : Graph} {path : List Side} {env : Env} {c c' : Config}
    (h : next g (.step path env) c = some c') :
    ∃ (ctx : Ctx Frame) (f : Frame) (sub w : Work), sub.isDone = true ∧
      c.work.redex [] path = some (ctx.callers [], f) ∧ Moves g c.state f c'.state w ∧
        c.work = ctx.plug (.call f sub) ∧ c'.work = ctx.plug w := by
  obtain ⟨ctx, f, sub, w, hdone, hredex, hf, hwork, hwork'⟩ := next_step_frame h
  exact ⟨ctx, f, sub, w, hdone, hredex, resumeFrame_moves hf, hwork, hwork'⟩

/-- The same, forgetting who awaits whom. -/
theorem next_step_resume {g : Graph} {path : List Side} {env : Env} {c c' : Config}
    (h : next g (.step path env) c = some c') :
    ∃ (anc : List Frame) (f : Frame) (rest : Multiset Frame) (w : Work),
      c.work.redex [] path = some (anc, f) ∧
        resumeFrame g env c.state f = some (c'.state, w) ∧
          c.work.frames = f ::ₘ rest ∧ c'.work.frames = rest + w.frames := by
  obtain ⟨ctx, f, sub, w, hdone, hredex, hf, hwork, hwork'⟩ := next_step_frame h
  refine ⟨_, f, ctx.frames, w, hredex, hf, ?_, ?_⟩
  · rw [hwork, ctx.frames_plug, Proc.frames_call, Proc.frames_of_isDone hdone, Multiset.add_cons,
      add_zero]
  · rw [hwork', ctx.frames_plug]

theorem next_step_moves {g : Graph} {path : List Side} {env : Env} {c c' : Config}
    (h : next g (.step path env) c = some c') :
    ∃ (anc : List Frame) (f : Frame) (rest : Multiset Frame) (w : Work),
      c.work.redex [] path = some (anc, f) ∧ Moves g c.state f c'.state w ∧
        c.work.frames = f ::ₘ rest ∧ c'.work.frames = rest + w.frames := by
  obtain ⟨anc, f, rest, w, hredex, hf, hframes, hframes'⟩ := next_step_resume h
  exact ⟨anc, f, rest, w, hredex, resumeFrame_moves hf, hframes, hframes'⟩

end RedFireForge.Workflow
