/-
# `RedFireForge.Workflow.Graph` — the workflow graph `runGraph` walks

Nodes, edges and the three helpers that only read the graph: `outgoing`,
`findStartNodes` and `collectReachableFromEdges`.  A node keeps the data its
handler reads for control flow; what an action node sends or computes is not
part of the graph but an answer of the environment (`Runner.lean`).
-/
import Mathlib.Data.List.Basic

namespace RedFireForge.Workflow

abbrev NodeId := String

/-- Node types whose handler does some work of its own, reports a state and
then calls `visitOutgoing` (or returns). -/
inductive ActionType
  | http | delay | start | webhook | schedule | setVariable | script | aggregate | logDebug
  | subWorkflow | correlationWait
  | kafkaProduce | kafkaConsume | kafkaTrigger | kafkaWait
  | wsConnect | wsSend | wsReceive | wsTrigger
  | graphqlQuery | graphqlMutation | graphqlSubscription | graphqlIntrospect | graphqlAssert
  | grpcUnary | grpcServerStream | grpcAssert | grpcLoadTest | grpcSchemaDiff | grpcMockAssert
  | apiMockStart | apiMockApply | apiMockResetState | apiMockStop | apiMockAssertCalls
deriving DecidableEq, Repr

/-- `LoopNodeData`: the mode's own test is an answer of the environment. -/
structure LoopNodeData where
  maxIterations : Option Int
deriving DecidableEq, Repr

structure ErrorHandlerNodeData where
  errorFilter : String
  retryCount : Option Int
  retryTimeoutMs : Int
  continueOnError : Bool
deriving DecidableEq, Repr

structure WaitForConditionNodeData where
  pollIntervalMs : Int
  timeoutMs : Int
  /-- `0` = unlimited (bounded by `timeoutMs`). -/
  maxAttempts : Int
deriving DecidableEq, Repr

/-- `node.type`, with the node's data where the runner reads it. -/
inductive NodeType
  | condition
  | fork
  | join
  | switch
  | loop (data : LoopNodeData)
  | errorHandler (data : ErrorHandlerNodeData)
  | waitForCondition (data : WaitForConditionNodeData)
  | «end»
  | action (kind : ActionType)
deriving DecidableEq, Repr

structure WorkflowNode where
  id : NodeId
  type : NodeType
deriving DecidableEq, Repr

structure WorkflowEdge where
  id : String
  source : NodeId
  target : NodeId
  sourceHandle : Option String
  label : Option String
deriving DecidableEq, Repr

/-- The graph of one run, with the two run options that change its control
flow: the entry of a workflow-level handler (`errorConfig.mode === 'run-handler'`)
and whether a debug controller steps the nodes. -/
structure Graph where
  nodes : List WorkflowNode
  edges : List WorkflowEdge
  handlerEntryNodeId : Option NodeId
  debugController : Bool

namespace Graph

variable (g : Graph)

/-- `nodeMap.get(id)`: of two nodes with one id the later one is kept. -/
def nodeMap (id : NodeId) : Option WorkflowNode := g.nodes.reverse.find? (fun n => n.id == id)

def outgoing (id : NodeId) : List WorkflowEdge := g.edges.filter (fun e => e.source == id)

def incoming (id : NodeId) : List WorkflowEdge := g.edges.filter (fun e => e.target == id)

def isJoin (id : NodeId) : Bool := (g.nodeMap id).any (fun n => n.type == .join)

/-- The outgoing edges of one handle. -/
def handleEdges (id : NodeId) (handle : String) : List WorkflowEdge :=
  (g.outgoing id).filter (fun e => e.sourceHandle == some handle)

end Graph

theorem mem_of_nodeMap {g : Graph} {id : NodeId} {n : WorkflowNode} (h : g.nodeMap id = some n) :
    n ∈ g.nodes :=
  List.mem_reverse.mp (List.mem_of_find?_eq_some h)

theorem exists_of_isJoin {g : Graph} {j : NodeId} (h : g.isJoin j = true) :
    ∃ n ∈ g.nodes, n.id = j := by
  cases hn : g.nodeMap j with
  | none => simp [Graph.isJoin, hn] at h
  | some n => exact ⟨n, mem_of_nodeMap hn, by simpa using List.find?_some hn⟩

/-- Node types a run may start from. -/
def NodeType.isTrigger : NodeType → Bool
  | .action .start | .action .webhook | .action .schedule | .action .kafkaTrigger
  | .action .wsTrigger => true
  | _ => false

def findStartNodes (g : Graph) : List WorkflowNode :=
  let triggerNodes := g.nodes.filter (fun n => n.type.isTrigger)
  if triggerNodes.length > 0 then triggerNodes
  else g.nodes.filter (fun n => !(g.edges.map WorkflowEdge.target).contains n.id)

/-- The queue of `collectReachableFromEdges`.  Every edge enters the queue at
most once, so the number of edges bounds the rounds. -/
def collectLoop (g : Graph) (boundary : List NodeId) : ℕ → List NodeId → List NodeId → List NodeId
  | 0, _, reachable => reachable
  | _ + 1, [], reachable => reachable
  | fuel + 1, id :: queue, reachable =>
      if id ∈ reachable ∨ id ∈ boundary then collectLoop g boundary fuel queue reachable
      else if (g.nodeMap id).isNone then collectLoop g boundary fuel queue reachable
      else collectLoop g boundary fuel (queue ++ (g.outgoing id).map WorkflowEdge.target)
        (reachable ++ [id])

def collectReachableFromEdges (g : Graph) (startEdges : List WorkflowEdge)
    (boundary : List NodeId) : List NodeId :=
  collectLoop g boundary (startEdges.length + g.edges.length + 1)
    (startEdges.map WorkflowEdge.target) []

/-! ## The queue computes reachability -/

/-- Reachable from `starts` without entering a boundary node or leaving the
node map. -/
inductive ReachableAvoiding (g : Graph) (starts boundary : List NodeId) : NodeId → Prop
  | start {id : NodeId} : id ∈ starts → id ∉ boundary → (g.nodeMap id).isSome →
      ReachableAvoiding g starts boundary id
  | edge {e : WorkflowEdge} : ReachableAvoiding g starts boundary e.source → e ∈ g.edges →
      e.target ∉ boundary → (g.nodeMap e.target).isSome →
      ReachableAvoiding g starts boundary e.target

/-- The edges whose source has not been seen: what a search may still put on its
list of work. -/
def pendingEdges (g : Graph) (seen : NodeId → Bool) : List WorkflowEdge :=
  g.edges.filter (fun e => !seen e.source)

/-- Seeing one more node moves its outgoing edges out of the pending ones. -/
theorem pendingEdges_insert (g : Graph) (seen seen' : NodeId → Bool) (id : NodeId)
    (hid : seen id = false) (h : ∀ m, seen' m = (seen m || m == id)) :
    (pendingEdges g seen').length + (g.outgoing id).length = (pendingEdges g seen).length := by
  simp only [pendingEdges, Graph.outgoing]
  induction g.edges with
  | nil => rfl
  | cons e es ih =>
      by_cases hsrc : e.source = id
      · simp [h, hsrc, hid] at ih ⊢
        omega
      · cases hseen : seen e.source <;> simp [h, hsrc, hseen] at ih ⊢ <;> omega

theorem pendingEdges_length_le (g : Graph) (seen : NodeId → Bool) :
    (pendingEdges g seen).length ≤ g.edges.length := List.length_filter_le _ _

/-- What holds of queue and result while the queue is worked off. -/
structure CollectInv (g : Graph) (starts boundary queue reachable : List NodeId) : Prop where
  sound : ∀ id ∈ reachable, ReachableAvoiding g starts boundary id
  queued : ∀ id ∈ queue, id ∈ starts ∨
    ∃ e ∈ g.edges, e.target = id ∧ ReachableAvoiding g starts boundary e.source
  started : ∀ id ∈ starts, id ∈ queue ∨ id ∈ reachable ∨ id ∈ boundary ∨ g.nodeMap id = none
  closed : ∀ e ∈ g.edges, e.source ∈ reachable → e.target ∈ queue ∨ e.target ∈ reachable ∨
    e.target ∈ boundary ∨ g.nodeMap e.target = none

theorem CollectInv.queued_reachable {g : Graph} {starts boundary queue reachable : List NodeId}
    {id : NodeId} (h : CollectInv g starts boundary (id :: queue) reachable)
    (hb : id ∉ boundary) (hm : (g.nodeMap id).isSome) :
    ReachableAvoiding g starts boundary id := by
  rcases h.queued id List.mem_cons_self with hs | ⟨e, he, rfl, hr⟩
  · exact .start hs hb hm
  · exact .edge hr he hb hm

theorem CollectInv.skip {g : Graph} {starts boundary queue reachable : List NodeId} {id : NodeId}
    (h : CollectInv g starts boundary (id :: queue) reachable)
    (hid : id ∈ reachable ∨ id ∈ boundary ∨ g.nodeMap id = none) :
    CollectInv g starts boundary queue reachable where
  sound := h.sound
  queued x hx := h.queued x (List.mem_cons_of_mem _ hx)
  started x hx := by
    rcases h.started x hx with hq | hq
    · rcases List.mem_cons.mp hq with rfl | hq
      · exact Or.inr hid
      · exact Or.inl hq
    · exact Or.inr hq
  closed e he hs := by
    rcases h.closed e he hs with hq | hq
    · rcases List.mem_cons.mp hq with ht | hq
      · exact Or.inr (ht ▸ hid)
      · exact Or.inl hq
    · exact Or.inr hq

theorem mem_outgoing {g : Graph} {id : NodeId} {e : WorkflowEdge} :
    e ∈ g.outgoing id ↔ e ∈ g.edges ∧ e.source = id := by
  simp [Graph.outgoing]

theorem CollectInv.expand {g : Graph} {starts boundary queue reachable : List NodeId} {id : NodeId}
    (h : CollectInv g starts boundary (id :: queue) reachable)
    (hb : id ∉ boundary) (hm : (g.nodeMap id).isSome) :
    CollectInv g starts boundary (queue ++ (g.outgoing id).map WorkflowEdge.target)
      (reachable ++ [id]) where
  sound x hx := by
    rcases List.mem_append.mp hx with hx | hx
    · exact h.sound x hx
    · exact List.mem_singleton.mp hx ▸ h.queued_reachable hb hm
  queued x hx := by
    rcases List.mem_append.mp hx with hx | hx
    · exact h.queued x (List.mem_cons_of_mem _ hx)
    · obtain ⟨e, he, rfl⟩ := List.mem_map.mp hx
      obtain ⟨hedge, rfl⟩ := mem_outgoing.mp he
      exact Or.inr ⟨e, hedge, rfl, h.queued_reachable hb hm⟩
  started x hx := by
    rcases h.started x hx with hq | hq | hq
    · rcases List.mem_cons.mp hq with rfl | hq
      · exact Or.inr (Or.inl (List.mem_append_right _ (List.mem_singleton.mpr rfl)))
      · exact Or.inl (List.mem_append_left _ hq)
    · exact Or.inr (Or.inl (List.mem_append_left _ hq))
    · exact Or.inr (Or.inr hq)
  closed e he hs := by
    rcases List.mem_append.mp hs with hs | hs
    · rcases h.closed e he hs with hq | hq | hq
      · rcases List.mem_cons.mp hq with ht | hq
        · exact Or.inr (Or.inl (List.mem_append_right _ (List.mem_singleton.mpr ht)))
        · exact Or.inl (List.mem_append_left _ hq)
      · exact Or.inr (Or.inl (List.mem_append_left _ hq))
      · exact Or.inr (Or.inr hq)
    · have hout : e ∈ g.outgoing id := mem_outgoing.mpr ⟨he, List.mem_singleton.mp hs⟩
      exact Or.inl (List.mem_append_right _ (List.mem_map_of_mem hout))

/-- With enough rounds the queue is worked off, and the result is closed. -/
theorem collectLoop_inv {g : Graph} {starts boundary : List NodeId} :
    ∀ (fuel : ℕ) {queue reachable : List NodeId},
      queue.length + (pendingEdges g (fun id => decide (id ∈ reachable))).length < fuel →
      CollectInv g starts boundary queue reachable →
      CollectInv g starts boundary [] (collectLoop g boundary fuel queue reachable)
  | 0, _, _, hlen, _ => absurd hlen (Nat.not_lt_zero _)
  | _ + 1, [], _, _, h => h
  | fuel + 1, id :: queue, reachable, hlen, h => by
      simp only [List.length_cons] at hlen
      by_cases hskip : id ∈ reachable ∨ id ∈ boundary
      · simp only [collectLoop, if_pos hskip]
        refine collectLoop_inv fuel (by omega) (h.skip ?_)
        exact hskip.imp_right Or.inl
      · simp only [collectLoop, if_neg hskip]
        rw [not_or] at hskip
        cases hm : g.nodeMap id with
        | none =>
            simp only [Option.isNone_none, if_true]
            exact collectLoop_inv fuel (by omega) (h.skip (Or.inr (Or.inr hm)))
        | some n =>
            simp only [Option.isNone_some, Bool.false_eq_true, if_false]
            have hpend := pendingEdges_insert g (fun m => decide (m ∈ reachable))
              (fun m => decide (m ∈ reachable ++ [id])) id
              (by simp [hskip.1]) (fun m => by by_cases hm : m = id <;> simp [hm])
            refine collectLoop_inv fuel ?_ (h.expand hskip.2 (by simp [hm]))
            simp only [List.length_append, List.length_map]
            omega

/-- **`collectReachableFromEdges` is reachability**: the nodes a path from the
start edges reaches without entering a boundary node. -/
theorem mem_collectReachableFromEdges {g : Graph} {startEdges : List WorkflowEdge}
    {boundary : List NodeId} {id : NodeId} :
    id ∈ collectReachableFromEdges g startEdges boundary ↔
      ReachableAvoiding g (startEdges.map WorkflowEdge.target) boundary id := by
  have hinit : CollectInv g (startEdges.map WorkflowEdge.target) boundary
      (startEdges.map WorkflowEdge.target) [] :=
    ⟨by simp, fun _ h => Or.inl h, fun _ h => Or.inl h, by simp⟩
  have hpend := pendingEdges_length_le g (fun id => decide (id ∈ ([] : List NodeId)))
  have h := collectLoop_inv (startEdges.length + g.edges.length + 1)
    (by rw [List.length_map]; omega) hinit
  refine ⟨h.sound id, fun hr => ?_⟩
  induction hr with
  | start hs hb hm =>
      rcases h.started _ hs with hq | hq | hq | hq
      · cases hq
      · exact hq
      · exact absurd hq hb
      · rw [hq] at hm; cases hm
  | edge _ he hb hm ih =>
      rcases h.closed _ he ih with hq | hq | hq | hq
      · cases hq
      · exact hq
      · exact absurd hq hb
      · rw [hq] at hm; cases hm

end RedFireForge.Workflow
