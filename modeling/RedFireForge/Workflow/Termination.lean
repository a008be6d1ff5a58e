/-
# `RedFireForge.Workflow.Termination` — a bound on handler invocations

The visited set alone does not bound a run: loops, error handlers and polls take
nodes out of it again.  What bounds a run is the chain of callers.  As long as no
handler is started for a node that is already in progress in its own chain of
callers, a chain is no longer than the graph, and each handler calls no more
visits than its bounds allow.  `budget` is the number of starts a chain with so
many nodes left may still make; the starts in the log plus the budgets of all
frames never grow.
-/
import Mathlib.Algebra.Order.BigOperators.Group.List
import Mathlib.Algebra.Order.Group.Nat
import RedFireForge.Workflow.Loops

namespace RedFireForge.Workflow

open RedFireForge.Lib

/-! ## How many visits a handler may still call -/

def NodeType.loopBound : NodeType → ℕ
  | .loop d => d.maxIter.toNat
  | _ => 0

def NodeType.tryBound : NodeType → ℕ
  | .errorHandler d => (d.maxRetries + 1).toNat
  | _ => 0

/-- A poll is bounded by its attempts or, since every wait takes time, by its
timeout. -/
def NodeType.pollBound : NodeType → ℕ
  | .waitForCondition d => if 0 < d.maxAttempts then d.maxAttempts.toNat else d.timeoutMs.toNat
  | _ => 0

/-- A poll node with a limit of either kind. -/
def NodeType.pollsBounded : NodeType → Bool
  | .waitForCondition d => decide (0 < d.timeoutMs) || decide (0 < d.maxAttempts)
  | _ => true

/-- With at most `m` outgoing edges: the visits a handler at `pc` may still
call. -/
def visitsLeft (m : ℕ) (t : NodeType) : Pc → ℕ
  | .acting => m
  | .skipping _ _ take => take.length
  | .walking .ret es => es.length
  | .loopTest i => (t.loopBound - i) * m + m
  | .walking (.iterated i _) es => es.length + (t.loopBound - (i + 1)) * m + m
  | .tryTest n _ => (t.tryBound - n) * m + 2 * m
  | .walking (.attempted n _ _) es => es.length + (t.tryBound - (n + 1)) * m + 2 * m
  | .pollTest n => (t.pollBound - n) * m + m
  | .pollAcquire n _ => m + (t.pollBound - (n + 1)) * m + m
  | .walking (.polled n) es => es.length + (t.pollBound - (n + 1)) * m + m

/-- The visits a handler of the type may call in all. -/
def NodeType.visits (m : ℕ) (t : NodeType) : ℕ :=
  (t.loopBound + t.tryBound + t.pollBound) * m + 2 * m

def visitBound (g : Graph) : ℕ := (g.nodes.map (fun n => n.type.visits g.edges.length)).sum

/-- The starts a visit may lead to when its chain of callers can still grow by
so many handlers. -/
def budget (k : ℕ) : ℕ → ℕ
  | 0 => 0
  | r + 1 => 1 + k * budget k r

/-! ## The chain of callers -/

/-- The nodes whose handlers are in progress among the callers. -/
def chain : List Frame → List NodeId
  | [] => []
  | .handler v _ :: anc => v.node :: chain anc
  | _ :: anc => chain anc

def Graph.ids (g : Graph) : List NodeId := g.nodes.map WorkflowNode.id

/-- Nodes the chain may still grow by. -/
def roomLeft (g : Graph) (anc : List Frame) : ℕ := g.nodes.length - (chain anc).length

/-- A chain without repetitions, of nodes of the graph. -/
structure GoodChain (g : Graph) (nodes : List NodeId) : Prop where
  nodup : nodes.Nodup
  ids : ∀ n ∈ nodes, n ∈ g.ids

/-- What holds of every frame under its chain of callers. -/
def ChainOk (g : Graph) (anc : List Frame) (f : Frame) : Prop := GoodChain g (chain (f :: anc))

/-- The starts a frame may still lead to, apart from the frames it awaits. -/
def frameBudget (g : Graph) (anc : List Frame) : Frame → ℕ
  | .main starts => (starts.length + 1) * budget (visitBound g) (roomLeft g anc)
  | .final => 0
  | .visit _ _ | .paused _ => budget (visitBound g) (roomLeft g anc)
  | .handler v pc =>
      visitsLeft g.edges.length v.type pc *
        budget (visitBound g) (roomLeft g (.handler v pc :: anc))

def Event.isStart : Event → Bool
  | .start _ => true
  | _ => false

/-- Handler invocations. -/
def totalStarts (events : List Event) : ℕ := events.countP Event.isStart

/-- A handler is only started for a node that is not in progress among its own
callers, and a poll only goes on at a node with a limit. -/
def noReentry (g : Graph) : Choice → Config → Bool
  | .step path _, c =>
      match c.work.redex [] path with
      | some (_, .handler v (.pollTest _)) => v.type.pollsBounded
      | some (anc, f) =>
          match entering g c.state f with
          | some (_, id) => !(chain anc).contains id
          | none => true
      | none => true
  | _, _ => true

/-! ## The chain is no longer than the graph -/

section Steps

variable {g : Graph} {s s' : RunState} {f : Frame} {w : Work} {anc : List Frame}

theorem GoodChain.cons {nodes : List NodeId} {id : NodeId} (h : GoodChain g nodes)
    (hnew : id ∉ nodes) (hid : id ∈ g.ids) : GoodChain g (id :: nodes) := by
  refine ⟨List.nodup_cons.mpr ⟨hnew, h.nodup⟩, fun n hn => ?_⟩
  rcases List.mem_cons.mp hn with rfl | hn
  · exact hid
  · exact h.ids n hn

theorem GoodChain.length_le {nodes : List NodeId} (h : GoodChain g nodes) :
    nodes.length ≤ g.nodes.length := by
  have hsub := List.subperm_of_subset h.nodup h.ids
  simpa [Graph.ids] using hsub.length_le

theorem mem_ids_of_nodeMap {id : NodeId} {node : WorkflowNode} (h : g.nodeMap id = some node) :
    id ∈ g.ids :=
  List.mem_map.mpr ⟨node, mem_of_nodeMap h, by simpa using List.find?_some h⟩

theorem each_goto {P : List Frame → Frame → Prop} {v : Visit} {pc : Pc}
    (h : P anc (.handler v pc)) : (v.goto pc).Each P anc := ⟨h, trivial⟩

theorem each_awaitAll {P : List Frame → Frame → Prop} {v : Visit} {es : List WorkflowEdge}
    (h : P anc (.handler v (.walking .ret [])))
    (hvisits : ∀ e, P (.handler v (.walking .ret []) :: anc) (.visit (some e) e.target)) :
    (v.awaitAll es).Each P anc := by
  refine ⟨h, Proc.each_all.mpr (fun t ht => ?_)⟩
  obtain ⟨e, -, rfl⟩ := List.mem_map.mp ht
  exact ⟨hvisits e, trivial⟩

theorem each_errorConfigVisit {P : List Frame → Frame → Prop}
    (h : ∀ entry, P (.final :: anc) (.visit none entry)) :
    (errorConfigVisit g s).Each P (.final :: anc) := by
  rcases errorConfigVisit_cases g s with hvisit | ⟨entry, hvisit⟩ <;> rw [hvisit]
  · trivial
  · exact ⟨h entry, trivial⟩

/-- The chain stays good, since every handler of a step but the one it may call
was there before. -/
theorem Enters.chainOk {v : Visit} (h : Enters g s v s' w)
    (hv : GoodChain g (v.node :: chain anc)) : w.Each (ChainOk g) anc := by
  cases h
  case crash => trivial
  case fork => exact each_awaitAll hv (fun _ => hv)
  all_goals exact each_goto hv

theorem Moves.chainOk (hm : Moves g s f s' w) (hf : ChainOk g anc f)
    (hentry : ∀ s₁ id, entering g s f = some (s₁, id) → id ∉ chain anc) :
    w.Each (ChainOk g) anc := by
  cases hm
  case started => exact ⟨hf, each_errorConfigVisit (fun _ => hf)⟩
  case startCut => exact ⟨hf, each_errorConfigVisit (fun _ => hf)⟩
  case start => exact ⟨hf, hf, trivial⟩
  case pause => exact ⟨hf, trivial⟩
  case enter ha hdebug hvisited hnode hbarrier hen =>
    have hnew := hentry _ _ (entering_visit ha hdebug hvisited hnode hbarrier)
    exact hen.chainOk (GoodChain.cons hf hnew (mem_ids_of_nodeMap hnode))
  case resume id _ ha hnode hen =>
    have hnew := hentry s id (by simp [entering, ha, hnode])
    exact hen.chainOk (GoodChain.cons hf hnew (mem_ids_of_nodeMap hnode))
  case takeAll => exact each_awaitAll hf (fun _ => hf)
  case walk => exact ⟨hf, hf, trivial⟩
  case outOfTries => exact each_goto (by simpa [ChainOk, chain] using hf)
  case unmatched => exact each_goto (by simpa [ChainOk, chain] using hf)
  case pollOver => exact each_goto (by simpa [ChainOk, chain] using hf)
  case pollMet => exact each_goto (by simpa [ChainOk, chain] using hf)
  all_goals first | exact each_goto hf | trivial

/-! ## What a step spends -/

theorem weigh_awaitAll (v : Visit) (es : List WorkflowEdge) :
    (v.awaitAll es).weigh (frameBudget g) anc =
      es.length * budget (visitBound g) (roomLeft g (.handler v (.walking .ret []) :: anc)) := by
  simp only [Visit.awaitAll, Visit.await, Proc.weigh, Proc.weigh_all, frameBudget, visitsLeft,
    List.length_nil, Nat.zero_mul, Nat.zero_add, List.map_map]
  induction es with
  | nil => simp
  | cons e es ih =>
      simp only [List.map_cons, List.sum_cons, ih, List.length_cons, Nat.succ_mul,
        Function.comp_apply, visitEdge, Proc.weigh, frameBudget]
      omega

theorem outgoing_length_le (g : Graph) (n : NodeId) : (g.outgoing n).length ≤ g.edges.length :=
  List.length_filter_le _ _

theorem handleEdges_length_le (g : Graph) (n : NodeId) (handle : String) :
    (g.handleEdges n handle).length ≤ g.edges.length :=
  (List.length_filter_le _ _).trans (outgoing_length_le g n)

theorem visits_le_visitBound {node : WorkflowNode} (h : node ∈ g.nodes) :
    node.type.visits g.edges.length ≤ visitBound g :=
  List.le_sum_of_mem (List.mem_map_of_mem h)

/-- Calling a handler leaves at most the visits its type may call. -/
theorem Enters.budget_le {v : Visit} (h : Enters g s v s' w) :
    w.weigh (frameBudget g) anc ≤ v.type.visits g.edges.length *
      budget (visitBound g) (g.nodes.length - ((chain anc).length + 1)) := by
  have hout := outgoing_length_le g v.node
  have hfilter : ∀ p : WorkflowEdge → Bool, ((g.outgoing v.node).filter p).length ≤ g.edges.length :=
    fun p => (List.length_filter_le _ _).trans hout
  unfold NodeType.visits
  cases h
  case crash => exact Nat.zero_le _
  case fork =>
    rw [weigh_awaitAll]
    exact Nat.mul_le_mul_right _ (by omega)
  case condition b _ =>
    have := hfilter (matchesTakenBranch b)
    exact Nat.mul_le_mul_right _ (by simp only [visitsLeft]; omega)
  case switch handle _ =>
    have := hfilter (fun e => e.sourceHandle == some handle)
    exact Nat.mul_le_mul_right _ (by simp only [visitsLeft]; omega)
  all_goals
    refine Nat.mul_le_mul_right _ ?_
    simp only [visitsLeft, Nat.add_mul, List.length_nil, Nat.sub_zero]
    omega

theorem isStart_arrive (n : NodeId) (via : Option WorkflowEdge) :
    Event.isStart (.arrive n via) = false := rfl

theorem Enters.totalStarts {v : Visit} (h : Enters g s v s' w) :
    RedFireForge.Workflow.totalStarts s'.events = RedFireForge.Workflow.totalStarts s.events := by
  cases h <;> simp [RedFireForge.Workflow.totalStarts, Event.isStart, Function.comp_def]

/-- A chain that has room for one more node pays for the call of its handler. -/
theorem budget_enter {id : NodeId} {node : WorkflowNode} (hchain : GoodChain g (chain anc))
    (hnew : id ∉ chain anc) (hnode : g.nodeMap id = some node) {x : ℕ}
    (hx : x ≤ node.type.visits g.edges.length *
      budget (visitBound g) (g.nodes.length - ((chain anc).length + 1))) :
    1 + x ≤ budget (visitBound g) (roomLeft g anc) := by
  have hlen := (hchain.cons hnew (mem_ids_of_nodeMap hnode)).length_le
  rw [List.length_cons] at hlen
  have hroom : roomLeft g anc = (g.nodes.length - ((chain anc).length + 1)) + 1 := by
    unfold roomLeft
    omega
  rw [hroom, budget]
  have := Nat.mul_le_mul_right (budget (visitBound g) (g.nodes.length - ((chain anc).length + 1)))
    (visits_le_visitBound (mem_of_nodeMap hnode))
  omega

/-- A handler that goes on with no more visits left than it had. -/
theorem weigh_goto_le {v v' : Visit} {pc pc' : Pc} (htype : v'.type = v.type)
    (h : visitsLeft g.edges.length v.type pc' ≤ visitsLeft g.edges.length v.type pc) :
    (v'.goto pc').weigh (frameBudget g) anc ≤ frameBudget g anc (.handler v pc) := by
  simp only [Visit.goto, Proc.weigh, frameBudget, htype, Nat.add_zero]
  exact Nat.mul_le_mul_right _ h

/-- A handler that calls one of the visits it had left. -/
theorem weigh_await_le {v : Visit} {pc pc' : Pc} {e : WorkflowEdge}
    (h : visitsLeft g.edges.length v.type pc' + 1 ≤ visitsLeft g.edges.length v.type pc) :
    (v.await pc' (visitEdge e)).weigh (frameBudget g) anc ≤ frameBudget g anc (.handler v pc) := by
  simp only [Visit.await, visitEdge, Proc.weigh, frameBudget, Nat.add_zero]
  refine le_trans ?_ (Nat.mul_le_mul_right _ h)
  rw [Nat.add_mul, Nat.one_mul]
  exact Nat.le_refl _

theorem weigh_errorConfigVisit :
    (errorConfigVisit g s).weigh (frameBudget g) (.final :: anc) ≤
      budget (visitBound g) (roomLeft g anc) := by
  rcases errorConfigVisit_cases g s with h | ⟨entry, h⟩ <;> rw [h]
  · exact Nat.zero_le _
  · exact Nat.le_refl _

/-- One more round of a body is paid for by the rounds that were left. -/
theorem rounds_le {bound i m len : ℕ} (hi : i < bound) (hlen : len ≤ m) (rest : ℕ) :
    len + (bound - (i + 1)) * m + rest ≤ (bound - i) * m + rest := by
  have hsucc : bound - i = (bound - (i + 1)) + 1 := by omega
  rw [hsucc, Nat.succ_mul]
  omega

theorem pollDue_lt {d : WaitForConditionNodeData} {n : ℕ} (h : PollDue s d n)
    (hbounded : (NodeType.waitForCondition d).pollsBounded = true) :
    n < (NodeType.waitForCondition d).pollBound := by
  simp only [NodeType.pollsBounded, NodeType.pollBound, Bool.or_eq_true,
    decide_eq_true_eq] at hbounded ⊢
  split
  next hmax =>
    have := h.inAttempts hmax
    omega
  next hmax =>
    obtain ⟨elapsed, htimeout, hwaits⟩ := h.inTime (by omega)
    -- every wait takes at least one unit of the clock
    have hone : (n : Int) * 1 ≤ n * max 1 d.pollIntervalMs :=
      Int.mul_le_mul_of_nonneg_left (le_max_left _ _) (Int.natCast_nonneg n)
    omega

/-- A step that calls no handler starts nothing. -/
theorem Moves.totalStarts_eq (hm : Moves g s f s' w) (hquiet : entering g s f = none) :
    totalStarts s'.events = totalStarts s.events := by
  unfold totalStarts
  cases hm
  case enter ha hdebug hvisited hnode hbarrier _ =>
    rw [entering_visit ha hdebug hvisited hnode hbarrier] at hquiet
    cases hquiet
  case resume ha hnode _ => simp [entering, ha, hnode] at hquiet
  case skip => exact markSubtreeSkipped_countP (by simp [Event.isStart]) (by simp [Event.isStart]) _ _
  all_goals
    simp [Event.isStart, Function.comp_def, passBarrier_countP _ _ _ _ isStart_arrive]

/-- Nor do the budgets of its frames grow. -/
theorem Moves.weigh_le (hm : Moves g s f s' w) (hquiet : entering g s f = none)
    (hpolls : ∀ v n, f = .handler v (.pollTest n) → v.type.pollsBounded = true) :
    w.weigh (frameBudget g) anc ≤ frameBudget g anc f := by
  have hbody := fun n => handleEdges_length_le g n "body"
  have hdone := fun n => handleEdges_length_le g n "done"
  have hcatch := fun n => handleEdges_length_le g n "catch"
  cases hm
  case enter ha hdebug hvisited hnode hbarrier _ =>
    rw [entering_visit ha hdebug hvisited hnode hbarrier] at hquiet
    cases hquiet
  case resume ha hnode _ => simp [entering, ha, hnode] at hquiet
  case started =>
    simpa [Proc.weigh, frameBudget] using weigh_errorConfigVisit
  case startCut n ns _ =>
    have : (errorConfigVisit g s).weigh (frameBudget g) (.final :: anc) ≤
        budget (visitBound g) (roomLeft g anc) := weigh_errorConfigVisit
    simp only [Proc.weigh, frameBudget, List.length_cons, Nat.succ_mul]
    omega
  case start n ns _ =>
    have hroom : roomLeft g (.main ns :: anc) = roomLeft g anc := rfl
    simp only [Proc.weigh, frameBudget, List.length_cons, Nat.succ_mul, hroom]
    omega
  case pause => exact Nat.le_refl _
  case push => exact weigh_goto_le rfl (Nat.le_refl _)
  case pass v _ _ _ => exact weigh_goto_le rfl (outgoing_length_le g v.node)
  case fail v _ visits _ _ =>
    refine weigh_goto_le rfl ?_
    cases visits with
    | true => exact outgoing_length_le g v.node
    | false => exact Nat.zero_le _
  case giveUp => exact weigh_goto_le rfl (Nat.zero_le _)
  case skip => exact weigh_goto_le rfl (Nat.le_refl _)
  case takeAll => rw [weigh_awaitAll]; exact Nat.le_refl _
  case takeEach => exact weigh_goto_le rfl (Nat.le_refl _)
  case walk v k e es =>
    refine weigh_await_le ?_
    cases k <;> simp only [visitsLeft, List.length_cons] <;> omega
  case iterate v d i ht _ hi =>
    refine weigh_goto_le rfl (rounds_le ?_ (hbody _) _)
    rw [ht, NodeType.loopBound]
    omega
  case iterated => exact weigh_goto_le rfl (by simp [visitsLeft])
  case loopDone v _ _ _ =>
    have := hdone v.node
    exact weigh_goto_le rfl (by simp only [visitsLeft]; omega)
  case attempt v d n _ ht _ hn =>
    refine weigh_goto_le rfl (rounds_le ?_ (hbody _) _)
    rw [ht, NodeType.tryBound]
    omega
  case outOfTries v _ _ _ _ _ =>
    have := hcatch v.node
    have := hdone v.node
    exact weigh_goto_le (by simp) (by simp only [visitsLeft, List.length_append]; omega)
  case succeeded v _ _ _ _ _ _ _ _ =>
    have := hdone v.node
    exact weigh_goto_le rfl (by simp only [visitsLeft]; omega)
  case retry => exact weigh_goto_le rfl (by simp [visitsLeft])
  case unmatched v _ _ _ _ _ _ _ _ _ =>
    have := hcatch v.node
    have := hdone v.node
    exact weigh_goto_le (by simp) (by simp only [visitsLeft, List.length_append]; omega)
  case pollOver v _ _ _ =>
    have := hdone v.node
    exact weigh_goto_le (by simp) (by simp only [visitsLeft]; omega)
  case poll v d n _ ht hdue _ =>
    have hbounded := hpolls v n rfl
    rw [ht] at hbounded
    refine weigh_goto_le rfl (rounds_le ?_ (hbody _) _)
    rw [ht]
    exact pollDue_lt hdue hbounded
  case pollQueued v d n q ht hdue _ _ =>
    have hbounded := hpolls v n rfl
    rw [ht] at hbounded
    refine weigh_goto_le rfl (rounds_le ?_ (Nat.le_refl _) _)
    rw [ht]
    exact pollDue_lt hdue hbounded
  case pollGranted v n _ _ =>
    have := hbody v.node
    exact weigh_goto_le rfl (by simp only [visitsLeft]; omega)
  case pollMet v _ n _ =>
    have := hdone v.node
    exact weigh_goto_le (by simp) (by simp only [visitsLeft]; omega)
  case pollAgain => exact weigh_goto_le rfl (by simp [visitsLeft])
  all_goals exact Nat.zero_le _

/-- A step that calls a handler starts one node, and its visit pays for it. -/
theorem Moves.enter_le {s₁ : RunState} {id : NodeId} (hm : Moves g s f s' w)
    (hf : ChainOk g anc f) (henter : entering g s f = some (s₁, id)) (hnew : id ∉ chain anc) :
    totalStarts s'.events + w.weigh (frameBudget g) anc ≤
      totalStarts s.events + frameBudget g anc f := by
  cases hm
  case enter via id' node ha hdebug hvisited hnode hbarrier hen =>
    rw [entering_visit ha hdebug hvisited hnode hbarrier] at henter
    cases henter
    have hchain : GoodChain g (chain anc) := hf
    have hpaid := budget_enter hchain hnew hnode hen.budget_le
    have hstarts : totalStarts s'.events = totalStarts s.events + 1 := by
      rw [hen.totalStarts]
      simp [totalStarts, Event.isStart, passBarrier_countP _ _ _ _ isStart_arrive]
    rw [hstarts, frameBudget]
    omega
  case resume id' node ha hnode hen =>
    have hid : id' = id := by
      simp only [entering, ha, hnode] at henter
      simpa using (Prod.mk.inj (Option.some.inj henter)).2
    subst hid
    have hchain : GoodChain g (chain anc) := hf
    have hpaid := budget_enter hchain hnew hnode hen.budget_le
    have hstarts : totalStarts s'.events = totalStarts s.events + 1 := by
      rw [hen.totalStarts]
      simp [totalStarts, Event.isStart]
    rw [hstarts, frameBudget]
    omega
  case visitCut ha => simp [entering, ha] at henter
  case visitNowhere hnode => simp [entering, hnode] at henter
  case wait hj hwait => simp [entering, hj, hwait] at henter
  case seen hvisited => simp [entering, hvisited] at henter
  case pause hdebug _ _ => simp [entering, hdebug] at henter
  case pauseCut ha => simp [entering, ha] at henter
  all_goals cases henter

end Steps

/-! ## Bodies are numbered -/

/-- The number of a body that runs is below the bound of its handler. -/
def Frame.numbered : Frame → Bool
  | .handler v (.walking (.iterated i _) _) => decide (i < v.type.loopBound)
  | .handler v (.walking (.attempted n _ _) _) => decide (n < v.type.tryBound)
  | _ => true

theorem Moves.numbered {g : Graph} {s s' : RunState} {f : Frame} {w : Work}
    (hm : Moves g s f s' w) (hf : f.numbered = true) :
    tally (fun f => !f.numbered) w.frames = 0 := by
  cases hm
  case started => rcases errorConfigVisit_cases g s with h | ⟨entry, h⟩ <;> simp [h, Frame.numbered]
  case startCut => rcases errorConfigVisit_cases g s with h | ⟨entry, h⟩ <;> simp [h, Frame.numbered]
  case enter hen => cases hen <;> simp [Frame.numbered, Function.comp_def]
  case resume hen => cases hen <;> simp [Frame.numbered, Function.comp_def]
  case iterate v d i ht _ hi =>
    simp [Frame.numbered, ht, NodeType.loopBound]
    omega
  case attempt v d n _ ht _ hn =>
    simp [Frame.numbered, ht, NodeType.tryBound]
    omega
  case walk v k e es =>
    cases k with
    | iterated i mark => simpa [Frame.numbered] using hf
    | attempted n pre mark => simpa [Frame.numbered] using hf
    | _ => simp [Frame.numbered]
  all_goals simp [Frame.numbered, Function.comp_def]

/-! ## The bound -/

/-- What holds of the whole run: the chains are good, and what was started and
may still be started stays below the bound. -/
structure RunBounded (g : Graph) (bound : ℕ) (c : Config) : Prop where
  chains : c.work.Each (ChainOk g) []
  starts : totalStarts c.state.events + c.work.weigh (frameBudget g) [] ≤ bound
  numbered : tally (fun f => !f.numbered) c.work.frames = 0

/-- Handler invocations of a run: each start node and the workflow-level error
handler may lead to so many. -/
def startBound (g : Graph) : ℕ :=
  ((findStartNodes g).length + 1) * budget (visitBound g) g.nodes.length

theorem RunBounded.step {g : Graph} {bound : ℕ} {path : List Side} {env : Env} {c c' : Config}
    (h : RunBounded g bound c) (hok : noReentry g (.step path env) c = true)
    (hnext : next g (.step path env) c = some c') : RunBounded g bound c' := by
  obtain ⟨ctx, f, sub, w, hdone, hredex, hm, hwork, hwork'⟩ := next_step_ctx hnext
  obtain ⟨hchains, hstarts, hnumbered⟩ := h
  simp only [noReentry, hredex] at hok
  have hpolls : ∀ v n, f = .handler v (.pollTest n) → v.type.pollsBounded = true := by
    rintro v n rfl
    simpa using hok
  have hentry : ∀ s₁ id, entering g c.state f = some (s₁, id) → id ∉ chain (ctx.callers []) := by
    intro s₁ id henter
    cases f with
    | handler v pc => cases henter
    | _ => simpa [henter] using hok
  rw [hwork, Ctx.each_plug] at hchains
  rw [hwork, Ctx.weigh_plug, Proc.weigh, Proc.weigh_of_isDone hdone] at hstarts
  rw [hwork, Ctx.frames_plug, Proc.frames_call, Proc.frames_of_isDone hdone] at hnumbered
  have hf : ChainOk g (ctx.callers []) f := hchains.2.1
  have hspent : totalStarts c'.state.events + w.weigh (frameBudget g) (ctx.callers []) ≤
      totalStarts c.state.events + frameBudget g (ctx.callers []) f := by
    cases henter : entering g c.state f with
    | none =>
        rw [hm.totalStarts_eq henter]
        exact Nat.add_le_add_left (hm.weigh_le henter hpolls) _
    | some r => exact hm.enter_le hf henter (hentry r.1 r.2 henter)
  simp only [tally_add, tally_cons, tally_zero] at hnumbered
  refine ⟨?_, ?_, ?_⟩
  · rw [hwork', Ctx.each_plug]
    exact ⟨hchains.1, hm.chainOk hf hentry⟩
  · rw [hwork', Ctx.weigh_plug]
    omega
  · rw [hwork', Ctx.frames_plug, tally_add, hm.numbered (by_contra fun hn => by simp_all)]
    omega

/-- **Finitely many handler invocations.**  In every run in which no handler is
started for a node that is in progress among its own callers, and every poll
goes on only under a limit: the handlers are invoked at most `startBound g`
times, however long the run; and of one invocation of a loop the bodies are
numbered below `maxIterations`, of one of an error handler up to
`retryCount`. -/
theorem starts_bounded (g : Graph) (q : Option Semaphore) (aborted : Bool) (ls : List Choice)
    (c : Config)
    (hok : AllSteps (next g) (fun ch c => noReentry g ch c = true) (initial g q aborted) ls)
    (hrun : exec (next g) (initial g q aborted) ls = some c) :
    totalStarts c.state.events ≤ startBound g ∧
    (∀ v d (i : ℕ) mark es, .handler v (.walking (.iterated i mark) es) ∈ c.work.frames →
      v.type = .loop d → (i : Int) < d.maxIter) ∧
    (∀ v d (n : ℕ) pre mark es, .handler v (.walking (.attempted n pre mark) es) ∈ c.work.frames →
      v.type = .errorHandler d → (n : Int) ≤ d.maxRetries) := by
  have hinit : RunBounded g (startBound g) (initial g q aborted) := by
    unfold initial startBound
    split
    · exact ⟨trivial, by simp [totalStarts, Proc.weigh], rfl⟩
    · next starts hne =>
        refine ⟨⟨⟨List.nodup_nil, by simp [chain]⟩, trivial⟩, ?_, by simp [Frame.numbered]⟩
        have hroom : roomLeft g [] = g.nodes.length := rfl
        simp [initialState, totalStarts, Event.isStart, Function.comp_def, Proc.weigh, frameBudget,
          hroom]
  have h : RunBounded g (startBound g) c := by
    refine exec_invariant (I := RunBounded g (startBound g)) (fun ch c c' h hok hnext => ?_)
      hinit hok hrun
    cases ch with
    | abort => cases hnext; exact ⟨h.chains, h.starts, h.numbered⟩
    | polls q => cases hnext; exact ⟨h.chains, h.starts, h.numbered⟩
    | step path env => exact h.step hok hnext
  have hnumbered := tally_eq_zero.mp h.numbered
  refine ⟨(Nat.le_add_right _ _).trans h.starts, ?_, ?_⟩
  · intro v d i mark es hmem ht
    have := hnumbered _ hmem
    simp [Frame.numbered, ht, NodeType.loopBound] at this
    omega
  · intro v d n pre mark es hmem ht
    have := hnumbered _ hmem
    simp [Frame.numbered, ht, NodeType.tryBound] at this
    omega

/-- Two iterations of `forkInLoop`, with every handler they call. -/
theorem starts_bounded_twoIterations :
    ∃ c, exec (next forkInLoop) (initial forkInLoop none false) arrivalInSecond = some c ∧
      totalStarts c.state.events = 8 ∧ totalStarts c.state.events ≤ startBound forkInLoop := by
  obtain ⟨c, hrun, hcount⟩ : ∃ c, exec (next forkInLoop) (initial forkInLoop none false)
      arrivalInSecond = some c ∧ totalStarts c.state.events = 8 := exists_exec (by decide)
  exact ⟨c, hrun, hcount, (starts_bounded forkInLoop none false arrivalInSecond c (by decide)
    hrun).1⟩

/-! ### A loop body with an edge back to its loop -/

def enterEdge : WorkflowEdge := ⟨"e0", "start", "loop", none, none⟩

def bodyEdge : WorkflowEdge := ⟨"e1", "loop", "step", some "body", none⟩

def backToLoop : WorkflowEdge := ⟨"e2", "step", "loop", none, none⟩

def backEdge : Graph where
  nodes := [⟨"start", .action .start⟩, ⟨"loop", .loop ⟨some 1⟩⟩, ⟨"step", .action .delay⟩]
  edges := [enterEdge, bodyEdge, backToLoop]
  handlerEntryNodeId := none
  debugController := false

/-- An edge is about to be visited on a stack of frames. -/
def atEdge (s : RunState) (e : WorkflowEdge) (fs : List Frame) : Config :=
  ⟨s, .nest fs (visitEdge e)⟩

theorem next_nest {g : Graph} {env : Env} {s s' : RunState} {fs : List Frame} {f : Frame} {w : Work}
    (h : resumeFrame g env s f = some (s', w)) :
    next g (.step [] env) ⟨s, .nest fs (.call f .done)⟩ = some ⟨s', .nest fs w⟩ := by
  simp only [next, Proc.resume_nest fs (t := .call f .done) rfl, Proc.resume, Proc.isDone, if_true,
    Option.map_map, h]
  rfl

/-- Three steps on one stack, the last of which waits for a visit. -/
theorem exec_three {g : Graph} {s s₁ s₂ s₃ : RunState} {e e' : WorkflowEdge} {fs : List Frame}
    {f₁ f₂ f₃ : Frame} (h₁ : resumeFrame g {} s (.visit (some e) e.target) = some (s₁, .call f₁ .done))
    (h₂ : resumeFrame g {} s₁ f₁ = some (s₂, .call f₂ .done))
    (h₃ : resumeFrame g {} s₂ f₂ = some (s₃, .call f₃ (visitEdge e'))) :
    exec (next g) (atEdge s e fs) (stepsAt {} [] 3) = some (atEdge s₃ e' (f₃ :: fs)) := by
  simp only [stepsAt, List.replicate, exec, atEdge, visitEdge, next_nest h₁, next_nest h₂,
    next_nest h₃, Option.bind_some]
  rfl

/-- A visit that finds its node not visited calls the handler. -/
theorem resumeFrame_visit {g : Graph} {env : Env} {s : RunState} {via : Option WorkflowEdge}
    {id : NodeId} {node : WorkflowNode} (ha : s.aborted = false) (hnode : g.nodeMap id = some node)
    (hjoin : node.type ≠ .join) (hv : s.visited id = false) (hdebug : g.debugController = false) :
    resumeFrame g env s (.visit via id) = some (enter g env (s.addVisited id) node id) := by
  simp [resumeFrame, visit, ha, hnode, hjoin, visitNode, hv, hdebug]

/-- The loop is entered: its body takes both nodes out of the visited set, the
loop itself included. -/
theorem backEdge_enterLoop (s : RunState) (e : WorkflowEdge) (fs : List Frame)
    (he : e.target = "loop") (ha : s.aborted = false) (hv : s.visited "loop" = false) :
    ∃ s' f, exec (next backEdge) (atEdge s e fs) (stepsAt {} [] 3) =
        some (atEdge s' bodyEdge (f :: fs)) ∧
      s'.aborted = false ∧ s'.visited "loop" = false ∧ s'.visited "step" = false ∧
      totalStarts s'.events = totalStarts s.events + 1 := by
  have hloop : backEdge.nodeMap "loop" = some ⟨"loop", .loop ⟨some 1⟩⟩ := by decide
  have hbody : loopBodyNodeIds backEdge "loop" = ["step", "loop"] := by decide
  have hedges : backEdge.handleEdges "loop" "body" = [bodyEdge] := by decide
  let v := newVisit (s.addVisited "loop") ⟨"loop", .loop ⟨some 1⟩⟩ "loop"
  let s₁ := (begin (s.addVisited "loop") "loop").report "loop" .running
  let s₂ := s₁.resetBody ["step", "loop"]
  have h₁ : resumeFrame backEdge {} s (.visit (some e) e.target) =
      some (s₁, v.goto (.loopTest 0)) := by
    rw [he]
    exact resumeFrame_visit ha hloop (by simp) hv rfl
  have h₂ : resumeFrame backEdge {} s₁ (.handler v (.loopTest 0)) =
      some (s₂, v.goto (.walking (.iterated 0 s₁.events.length) [bodyEdge])) := by
    simp only [resumeFrame, resumeHandler, v, newVisit, loopStep, hbody, hedges,
      show s₁.aborted = false from ha]
    rfl
  refine ⟨s₂.traverse [bodyEdge], .handler v (.walking (.iterated 0 s₁.events.length) []),
    exec_three h₁ h₂ rfl, ha, by simp [s₂], by simp [s₂], ?_⟩
  simp [s₂, s₁, totalStarts, Event.isStart]
  rfl

/-- The node of the body passes, and goes on to its edge back to the loop. -/
theorem backEdge_enterStep (s : RunState) (fs : List Frame) (ha : s.aborted = false)
    (hv : s.visited "step" = false) (hvloop : s.visited "loop" = false) :
    ∃ s' f, exec (next backEdge) (atEdge s bodyEdge fs) (stepsAt {} [] 3) =
        some (atEdge s' backToLoop (f :: fs)) ∧
      s'.aborted = false ∧ s'.visited "loop" = false ∧
      totalStarts s'.events = totalStarts s.events + 1 := by
  have hstep : backEdge.nodeMap "step" = some ⟨"step", .action .delay⟩ := by decide
  have hedges : backEdge.outgoing "step" = [backToLoop] := by decide
  let v := newVisit (s.addVisited "step") ⟨"step", .action .delay⟩ "step"
  let s₁ := begin (s.addVisited "step") "step"
  have h₁ : resumeFrame backEdge {} s (.visit (some bodyEdge) "step") =
      some (s₁, v.goto .acting) := resumeFrame_visit ha hstep (by simp) hv rfl
  have h₂ : resumeFrame backEdge {} s₁ (.handler v .acting) =
      some (s₁.report "step" .pass, (v.tell .pass).goto (.walking .ret [backToLoop])) := by
    rw [← hedges]
    rfl
  refine ⟨(s₁.report "step" .pass).traverse [backToLoop], .handler (v.tell .pass) (.walking .ret []),
    exec_three h₁ h₂ rfl, ha, by simpa [s₁] using hvloop, ?_⟩
  simp [s₁, totalStarts, Event.isStart]
  rfl

/-- Each round starts both nodes again, on a deeper stack. -/
theorem backEdge_rounds (n : ℕ) : ∀ (s : RunState) (e : WorkflowEdge) (fs : List Frame),
    e.target = "loop" → s.aborted = false → s.visited "loop" = false →
    ∃ ls c, exec (next backEdge) (atEdge s e fs) ls = some c ∧
      totalStarts s.events + n ≤ totalStarts c.state.events := by
  induction n with
  | zero => exact fun s e fs _ _ _ => ⟨[], _, rfl, Nat.le_refl _⟩
  | succ n ih =>
      intro s e fs he ha hv
      obtain ⟨s₁, f₁, hrun₁, ha₁, hv₁, hstep₁, hcount₁⟩ := backEdge_enterLoop s e fs he ha hv
      obtain ⟨s₂, f₂, hrun₂, ha₂, hv₂, hcount₂⟩ := backEdge_enterStep s₁ (f₁ :: fs) ha₁ hstep₁ hv₁
      obtain ⟨ls, c, hrun, hcount⟩ := ih s₂ backToLoop (f₂ :: f₁ :: fs) rfl ha₂ hv₂
      refine ⟨stepsAt {} [] 3 ++ (stepsAt {} [] 3 ++ ls), c, ?_, by omega⟩
      exact exec_append.mpr ⟨_, hrun₁, exec_append.mpr ⟨_, hrun₂, hrun⟩⟩

/-- So a run makes as many handler invocations as wanted. -/
theorem backEdge_starts (n : ℕ) : ∃ ls c,
    exec (next backEdge) (initial backEdge none false) ls = some c ∧
      n ≤ totalStarts c.state.events := by
  obtain ⟨s, f, hrun, ha, hv⟩ : ∃ s f, exec (next backEdge) (initial backEdge none false)
      (stepsAt {} [] 4) = some (atEdge s enterEdge [f, .main []]) ∧
        s.aborted = false ∧ s.visited "loop" = false := ⟨_, _, rfl, rfl, by decide⟩
  obtain ⟨ls, c, hrounds, hcount⟩ := backEdge_rounds n s enterEdge [f, .main []] rfl ha hv
  exact ⟨stepsAt {} [] 4 ++ ls, c, exec_append.mpr ⟨_, hrun, hrounds⟩, by omega⟩

/-- No number bounds the handler invocations of `backEdge`, whose only other
handlers are two that finish at once, and whose loop allows one iteration. -/
theorem starts_unbounded : ¬ ∃ n : ℕ, ∀ ls c,
    exec (next backEdge) (initial backEdge none false) ls = some c →
      totalStarts c.state.events ≤ n := by
  rintro ⟨n, hbound⟩
  obtain ⟨ls, c, hrun, hcount⟩ := backEdge_starts (n + 1)
  have := hbound ls c hrun
  omega

end RedFireForge.Workflow
