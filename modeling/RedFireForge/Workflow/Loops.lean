/-
# `RedFireForge.Workflow.Loops` — joins inside a loop body

A loop forgets the visits and arrivals of its body before every iteration, but
not the expected counts that skips have lowered.  `sinceReset j` is the part of
the log the counters of the join `j` should depend on; `restoredBarrier` is the
barrier such counters would make.  A join that runs in an iteration, and that
this barrier lets through as well, runs after each of its incoming edges was
resolved within the iteration.
-/
import Mathlib.Data.List.DropRight
import RedFireForge.Workflow.Joins

namespace RedFireForge.Workflow

open RedFireForge.Lib

/-! ## The log since the last reset -/

def Event.isReset : Event → Bool
  | .reset _ => true
  | _ => false

def Event.resets (j : NodeId) : Event → Bool
  | .reset body => body.contains j
  | _ => false

/-- What was logged after the arrivals of `j` were last forgotten. -/
def sinceReset (j : NodeId) (events : List Event) : List Event :=
  events.rtakeWhile (fun x => !x.resets j)

theorem resets_of_not_isReset {j : NodeId} {x : Event} (h : x.isReset = false) :
    x.resets j = false := by
  cases x <;> simp_all [Event.isReset, Event.resets]

theorem sinceReset_append {j : NodeId} {events : List Event} :
    ∀ {more : List Event}, (∀ x ∈ more, x.resets j = false) →
      sinceReset j (events ++ more) = sinceReset j events ++ more := by
  intro more
  induction more using List.reverseRecOn with
  | nil => simp
  | append_singleton more x ih =>
      intro h
      simp only [List.mem_append, List.mem_singleton] at h
      rw [sinceReset, ← List.append_assoc, List.rtakeWhile_concat_pos _ _ _ (by simp [h x]),
        ← sinceReset, ih (fun y hy => h y (Or.inl hy)), List.append_assoc]

/-- A reset within a stretch of the log hides everything before it. -/
theorem sinceReset_subset {j : NodeId} {before after : List Event}
    (h : ∃ x ∈ after, x.resets j = true) : ∀ x ∈ sinceReset j (before ++ after), x ∈ after := by
  induction after using List.reverseRecOn with
  | nil => simp at h
  | append_singleton after y ih =>
      intro x hx
      rw [sinceReset, ← List.append_assoc] at hx
      cases hy : y.resets j with
      | true =>
          rw [List.rtakeWhile_concat_neg _ _ _ (by simp [hy])] at hx
          cases hx
      | false =>
          rw [List.rtakeWhile_concat_pos _ _ _ (by simp [hy]), List.mem_append] at hx
          rcases hx with hx | hx
          · have hmem : ∃ x ∈ after, x.resets j = true := by
              obtain ⟨z, hz, hzr⟩ := h
              rcases List.mem_append.mp hz with hz | hz
              · exact ⟨z, hz, hzr⟩
              · rw [List.mem_singleton.mp hz, hy] at hzr
                cases hzr
            exact List.mem_append_left _ (ih hmem x hx)
          · exact List.mem_append_right _ hx

/-! ## What a step logs -/

section Steps

variable {g : Graph} {s s' : RunState} {f : Frame} {w : Work} {j : NodeId}

theorem Enters.log {v : Visit} (h : Enters g s v s' w) :
    ∃ more, s'.events = s.events ++ more ∧
      (∀ x ∈ more, x.isReset = false ∧ ∀ n, x ≠ .start n) := by
  cases h
  case crash => exact ⟨_, rfl, by simp [Event.isReset]⟩
  case fork =>
    refine ⟨_, List.append_assoc _ _ _, ?_⟩
    simp [Event.isReset]
  case action => exact ⟨[], by simp, by simp⟩
  all_goals exact ⟨_, rfl, by simp [Event.isReset]⟩

/-- A step appends to the log; if it resets a body, it does nothing else. -/
theorem Moves.log (hm : Moves g s f s' w) :
    (∃ more, s'.events = s.events ++ more ∧ ∀ x ∈ more, x.isReset = false) ∨
      ∃ body, s'.events = s.events ++ [.reset body] ∧
        ∀ n, s'.joinArrived n = if n ∈ body then 0 else s.joinArrived n := by
  cases hm
  case iterate => exact Or.inr ⟨_, rfl, by simp⟩
  case attempt => exact Or.inr ⟨_, rfl, by simp⟩
  case poll => exact Or.inr ⟨_, rfl, by simp⟩
  case pollQueued => exact Or.inr ⟨_, rfl, by simp⟩
  all_goals left
  case enter via id _ _ _ _ _ _ hen =>
    obtain ⟨more, hmore, hresets⟩ := hen.log
    refine ⟨_, by rw [hmore, begin_events, RunState.addVisited_events, passBarrier_events,
      List.append_assoc, List.append_assoc], ?_⟩
    intro x hx
    rcases List.mem_append.mp hx with hx | hx
    · split at hx <;> simp_all [Event.isReset]
    · rcases List.mem_append.mp hx with hx | hx
      · simp only [List.mem_cons, List.not_mem_nil, or_false] at hx
        rcases hx with rfl | rfl <;> rfl
      · exact (hresets x hx).1
  case resume hen =>
    obtain ⟨more, hmore, hresets⟩ := hen.log
    refine ⟨_, by rw [hmore, begin_events, List.append_assoc], ?_⟩
    intro x hx
    rcases List.mem_append.mp hx with hx | hx
    · simp only [List.mem_cons, List.not_mem_nil, or_false] at hx
      rcases hx with rfl | rfl <;> rfl
    · exact (hresets x hx).1
  case skip v _ e _ _ =>
    obtain ⟨notes, hnotes, hskip⟩ := markSubtreeSkipped_events g v.node e s
    refine ⟨notes, hnotes, fun x hx => ?_⟩
    cases hskip x hx <;> rfl
  case final =>
    refine ⟨_, rfl, fun x hx => ?_⟩
    obtain ⟨n, -, rfl⟩ := List.mem_map.mp hx
    rfl
  case seen =>
    refine ⟨_, passBarrier_events _ _ _ _, ?_⟩
    split <;> simp [Event.isReset]
  case pause =>
    refine ⟨_, by rw [RunState.report_events, RunState.addVisited_events, passBarrier_events,
      List.append_assoc], ?_⟩
    split <;> simp [Event.isReset]
  all_goals
    first
    | exact ⟨_, rfl, by simp [Event.isReset]⟩
    | exact ⟨[], (List.append_nil _).symm, by simp⟩
    | exact ⟨_, List.append_assoc _ _ _, by simp [Event.isReset]⟩

theorem Moves.log_append (hm : Moves g s f s' w) : ∃ more, s'.events = s.events ++ more := by
  rcases hm.log with ⟨more, hmore, -⟩ | ⟨body, hbody, -⟩
  · exact ⟨more, hmore⟩
  · exact ⟨_, hbody⟩

/-! ## The call of a join's handler -/

/-- The state in which the step is about to call the handler of a node, the
arrival at the barrier counted. -/
def entering (g : Graph) (s : RunState) : Frame → Option (RunState × NodeId)
  | .visit via id =>
      if s.aborted || g.debugController || (g.nodeMap id).isNone || s.visited id ||
          (g.isJoin id && decide (s.joinArrived id + 1 < s.incomingCount id)) then none
      else some (passBarrier g s via id, id)
  | .paused id => if s.aborted || (g.nodeMap id).isNone then none else some (s, id)
  | _ => none

theorem Enters.startsOf {v : Visit} (h : Enters g s v s' w) :
    RedFireForge.Workflow.startsOf j s'.events = RedFireForge.Workflow.startsOf j s.events :=
  h.starts.2.1

theorem entering_visit {via : Option WorkflowEdge} {id : NodeId} {node : WorkflowNode}
    (ha : s.aborted = false) (hdebug : g.debugController = false) (hvisited : s.visited id = false)
    (hnode : g.nodeMap id = some node)
    (hbarrier : g.isJoin id = true → s.incomingCount id ≤ s.joinArrived id + 1) :
    entering g s (.visit via id) = some (passBarrier g s via id, id) := by
  have hpass : (g.isJoin id && decide (s.joinArrived id + 1 < s.incomingCount id)) = false := by
    cases hj : g.isJoin id with
    | false => rfl
    | true => simpa using hbarrier hj
  simp [entering, ha, hdebug, hvisited, hnode, hpass]

/-- A step that starts a node calls its handler, and logs the start after all
the barrier has seen. -/
theorem Moves.start_entering (hm : Moves g s f s' w)
    (hstart : startsOf j s.events < startsOf j s'.events) :
    ∃ s₁ more, entering g s f = some (s₁, j) ∧ s.events <+: s₁.events ∧
      s'.events = s₁.events ++ [.state j .running] ++ .start j :: more := by
  cases hm
  case enter via id node ha hdebug hvisited hnode hbarrier hen =>
    obtain ⟨more, hmore, -⟩ := hen.log
    have hid : id = j := by
      by_contra hne
      rw [hen.startsOf] at hstart
      simp [Event.isStartOf, hne, passBarrier_countP _ _ _ _ isStartOf_arrive] at hstart
    subst hid
    refine ⟨passBarrier g s via id, more, ?_, ?_, ?_⟩
    · exact entering_visit ha hdebug hvisited hnode hbarrier
    · rw [passBarrier_events]
      exact List.prefix_append _ _
    · rw [hmore]
      simp
  case resume id node ha hnode hen =>
    obtain ⟨more, hmore, -⟩ := hen.log
    have hid : id = j := by
      by_contra hne
      rw [hen.startsOf] at hstart
      simp [Event.isStartOf, hne] at hstart
    subst hid
    exact ⟨s, more, by simp [entering, ha, hnode], List.prefix_rfl, by rw [hmore]; simp⟩
  case skip v _ e _ _ =>
    rw [startsOf, startsOf,
      markSubtreeSkipped_countP (by simp [Event.isStartOf]) (by simp [Event.isStartOf])] at hstart
    omega
  all_goals
    simp [Event.isStartOf, Function.comp_def, passBarrier_countP _ _ _ _ isStartOf_arrive] at hstart

end Steps

/-! ## The barrier with restored counts -/

/-- The node decides which of its branches is skipped. -/
def decides (g : Graph) (n : NodeId) : Bool :=
  (g.nodeMap n).any (fun n => n.type == .condition || n.type == .switch)

/-- The edge arrives at its join, or a condition or switch skips it. -/
def Event.settlesEdge (g : Graph) (e : WorkflowEdge) : Event → Bool
  | .arrive n via => n == e.target && via == some e
  | .skip cause e' => decides g cause && e' == e
  | _ => false

def Resolved (g : Graph) (e : WorkflowEdge) (events : List Event) : Prop :=
  ∃ x ∈ events, x.settlesEdge g e = true

instance (g : Graph) (e : WorkflowEdge) (events : List Event) : Decidable (Resolved g e events) :=
  inferInstanceAs (Decidable (∃ x ∈ events, x.settlesEdge g e = true))

/-- The incoming edge an arrival or a skip resolves; `none` inside for one that
resolves no edge. -/
def resolution (g : Graph) (j : NodeId) : Event → Option (Option WorkflowEdge)
  | .arrive n via => if n = j then some via else none
  | .skip cause e => if e.target = j then some (if decides g cause then some e else none) else none
  | _ => none

def resolutions (g : Graph) (j : NodeId) (events : List Event) : List (Option WorkflowEdge) :=
  events.filterMap (resolution g j)

/-- The barrier would open if only the skips since the last reset had lowered
the expected count, and what it counts are resolutions of different incoming
edges. -/
def restoredBarrier (g : Graph) (s : RunState) (j : NodeId) : Bool :=
  let events := sinceReset j s.events
  decide (expectedArrivals g j events ≤ s.joinArrived j) &&
    (resolutions g j events).all (fun o =>
      match o with
      | none => false
      | some e => decide ((resolutions g j events).count (some e) ≤ (g.incoming j).count e))

theorem resolutions_length (g : Graph) (j : NodeId) (events : List Event) :
    (resolutions g j events).length = arrivalsAt j events + skipsInto j events := by
  induction events with
  | nil => rfl
  | cons x events ih =>
      simp only [resolutions, arrivalsAt, skipsInto, List.filterMap_cons, List.countP_cons] at ih ⊢
      cases x with
      | arrive n via =>
          by_cases hn : n = j
          · simp [resolution, Event.isArrivalAt, Event.isSkipInto, hn, ih]
            omega
          · simp [resolution, Event.isArrivalAt, Event.isSkipInto, hn, ih]
      | skip cause e =>
          by_cases he : e.target = j
          · simp [resolution, Event.isArrivalAt, Event.isSkipInto, he, ih]
            omega
          · simp [resolution, Event.isArrivalAt, Event.isSkipInto, he, ih]
      | _ => simpa [resolution, Event.isArrivalAt, Event.isSkipInto] using ih

theorem resolved_of_mem_resolutions {g : Graph} {j : NodeId} {events : List Event}
    {e : WorkflowEdge} (he : e.target = j) (h : some e ∈ resolutions g j events) :
    Resolved g e events := by
  obtain ⟨x, hx, hres⟩ := List.mem_filterMap.mp h
  cases x with
  | arrive n via =>
      simp only [resolution, Option.ite_none_right_eq_some, Option.some.injEq] at hres
      obtain ⟨rfl, rfl⟩ := hres
      exact ⟨_, hx, by simp [Event.settlesEdge, he]⟩
  | skip cause e' =>
      simp only [resolution, Option.ite_none_right_eq_some, Option.some.injEq] at hres
      obtain ⟨-, hdec, rfl⟩ := hres
      exact ⟨_, hx, by simp [Event.settlesEdge, hdec]⟩
  | _ => cases hres

/-- **Pigeonhole**: as many resolutions as incoming edges, no edge counted
twice, so every edge is among them. -/
theorem resolved_of_restoredBarrier {g : Graph} {s : RunState} {j : NodeId}
    (hbarrier : restoredBarrier g s j = true)
    (harr : s.joinArrived j = arrivalsAt j (sinceReset j s.events)) :
    ∀ e ∈ g.incoming j, Resolved g e (sinceReset j s.events) := by
  simp only [restoredBarrier, Bool.and_eq_true, decide_eq_true_eq, List.all_eq_true] at hbarrier
  obtain ⟨hcount, hdistinct⟩ := hbarrier
  have hlen := resolutions_length g j (sinceReset j s.events)
  have hsub : List.Subperm (resolutions g j (sinceReset j s.events))
      ((g.incoming j).map some) := by
    refine List.subperm_ext_iff.mpr (fun o ho => ?_)
    cases o with
    | none => exact absurd (hdistinct _ ho) (by simp)
    | some e =>
        rw [List.count_map_of_injective _ _ (Option.some_injective _)]
        simpa using hdistinct _ ho
  have hperm := hsub.perm_of_length_le (by
    rw [List.length_map]
    unfold expectedArrivals at hcount
    omega)
  intro e he
  have htarget : e.target = j := by simpa using (List.mem_filter.mp he).2
  exact resolved_of_mem_resolutions htarget (hperm.mem_iff.mpr (List.mem_map_of_mem he))

/-! ## Iterations -/

/-- The frame runs an iteration of a loop with `j` in its body. -/
def Frame.iterates (g : Graph) (j : NodeId) : Frame → Bool
  | .handler v (.walking (.iterated _ _) _) => (loopBodyNodeIds g v.node).contains j
  | _ => false

/-- A join about to run in an iteration meets the restored barrier. -/
def restoresBarriers (g : Graph) : Choice → Config → Bool
  | .step path _, c =>
      match (c.work.redex [] path).bind (fun r => entering g c.state r.2) with
      | some (s, j) =>
          !(g.isJoin j && decide (0 < tally (Frame.iterates g j) c.work.frames)) ||
            restoredBarrier g s j
      | none => true
  | _, _ => true

/-- What holds of the join `j` and the iterations in every state of a run. -/
structure LoopInv (j : NodeId) (g : Graph) (s : RunState) (frames : Multiset Frame) : Prop where
  arrived : s.joinArrived j = arrivalsAt j (sinceReset j s.events)
  iterating : ∀ v i mark es, .handler v (.walking (.iterated i mark) es) ∈ frames →
    mark ≤ s.events.length ∧
      (j ∈ loopBodyNodeIds g v.node → ∃ x ∈ s.events.drop mark, x.resets j = true)

section Steps

variable {g : Graph} {s s' : RunState} {f : Frame} {w : Work} {j : NodeId}

theorem Moves.arrived (hm : Moves g s f s' w) (hj : g.isJoin j = true)
    (h : s.joinArrived j = arrivalsAt j (sinceReset j s.events)) :
    s'.joinArrived j = arrivalsAt j (sinceReset j s'.events) := by
  rcases hm.log with ⟨more, hmore, hresets⟩ | ⟨body, hevents, harr⟩
  · have hsince : sinceReset j s'.events = sinceReset j s.events ++ more := by
      rw [hmore]
      exact sinceReset_append (fun x hx => resets_of_not_isReset (hresets x hx))
    rcases hm.arrivals hj with hcount | ⟨-, -, body, hbody⟩
    · rw [hsince]
      rw [hmore] at hcount
      simp only [arrivalsAt, List.countP_append] at h hcount ⊢
      omega
    · rw [hmore, List.append_cancel_left_eq] at hbody
      have := hresets (.reset body) (by simp [hbody])
      cases this
  · by_cases hbody : j ∈ body
    · rw [harr, if_pos hbody, hevents, sinceReset,
        List.rtakeWhile_concat_neg _ _ _ (by simp [Event.resets, hbody])]
      rfl
    · rw [harr, if_neg hbody, hevents, sinceReset_append (by simp [Event.resets, hbody]), h]
      simp [Event.isArrivalAt]

theorem Enters.openIterations {v : Visit} (h : Enters g s v s' w) :
    ∀ v' i mark es, .handler v' (.walking (.iterated i mark) es) ∉ w.frames := by
  cases h <;> simp

/-- An iteration that is open after the step was open before, or starts with
it. -/
theorem Moves.openIterations (hm : Moves g s f s' w) {v : Visit} {i mark : ℕ} {es : List WorkflowEdge}
    (h : .handler v (.walking (.iterated i mark) es) ∈ w.frames) :
    (∃ es', f = .handler v (.walking (.iterated i mark) es')) ∨
      mark = s.events.length ∧ s'.events = s.events ++ [.reset (loopBodyNodeIds g v.node)] := by
  cases hm
  case started => rcases errorConfigVisit_cases g s with he | ⟨entry, he⟩ <;> simp [he] at h
  case startCut =>
    rcases errorConfigVisit_cases g s with he | ⟨entry, he⟩ <;> simp [he] at h
  case enter hen => exact absurd h (hen.openIterations _ _ _ _)
  case resume hen => exact absurd h (hen.openIterations _ _ _ _)
  case iterate =>
    simp only [frames_goto, Multiset.mem_singleton, Frame.handler.injEq, Pc.walking.injEq,
      Then.iterated.injEq] at h
    obtain ⟨rfl, ⟨-, rfl⟩, -⟩ := h
    exact Or.inr ⟨rfl, rfl⟩
  case walk =>
    simp at h
    obtain ⟨rfl, rfl, rfl⟩ := h
    exact Or.inl ⟨_, rfl⟩
  all_goals simp at h

theorem LoopInv.step {rest : Multiset Frame} (h : LoopInv j g s (f ::ₘ rest))
    (hm : Moves g s f s' w) (hj : g.isJoin j = true) : LoopInv j g s' (rest + w.frames) := by
  obtain ⟨more, hmore⟩ := hm.log_append
  refine ⟨hm.arrived hj h.arrived, fun v i mark es hmem => ?_⟩
  -- an iteration that was open stays as it is: the log only grows
  have hold : ∀ es', .handler v (.walking (.iterated i mark) es') ∈ f ::ₘ rest →
      mark ≤ s'.events.length ∧
        (j ∈ loopBodyNodeIds g v.node → ∃ x ∈ s'.events.drop mark, x.resets j = true) := by
    intro es' hes'
    obtain ⟨hmark, hreset⟩ := h.iterating v i mark es' hes'
    rw [hmore, List.drop_append_of_le_length hmark, List.length_append]
    refine ⟨by omega, fun hbody => ?_⟩
    obtain ⟨x, hx, hxr⟩ := hreset hbody
    exact ⟨x, List.mem_append_left _ hx, hxr⟩
  rcases Multiset.mem_add.mp hmem with hmem | hmem
  · exact hold es (Multiset.mem_cons_of_mem hmem)
  · rcases hm.openIterations hmem with ⟨es', rfl⟩ | ⟨rfl, hevents⟩
    · exact hold es' (Multiset.mem_cons_self _ _)
    · rw [hevents]
      refine ⟨by simp, fun hbody => ⟨.reset (loopBodyNodeIds g v.node), by simp, ?_⟩⟩
      simpa [Event.resets] using hbody

end Steps

theorem run_loopInv {g : Graph} {q : Option Semaphore} {aborted : Bool} {ls : List Choice}
    {c : Config} {j : NodeId} (hj : g.isJoin j = true)
    (hrun : exec (next g) (initial g q aborted) ls = some c) :
    LoopInv j g c.state c.work.frames := by
  refine exec_invariant' (I := fun c => LoopInv j g c.state c.work.frames)
    (fun ch c c' h hnext => ?_) ?_ hrun
  · cases ch with
    | abort => cases hnext; exact ⟨h.arrived, h.iterating⟩
    | polls q => cases hnext; exact ⟨h.arrived, h.iterating⟩
    | step path env =>
        obtain ⟨anc, f, rest, w, -, hm, hframes, hframes'⟩ := next_step_moves hnext
        rw [hframes']
        exact LoopInv.step (hframes ▸ h) hm hj
  · unfold initial
    split
    · exact ⟨rfl, by simp⟩
    · refine ⟨?_, by simp⟩
      rw [← List.nil_append (initialState g q aborted).events, sinceReset_append]
      · simp [initialState, sinceReset, Event.isArrivalAt, Function.comp_def]
      · simp [initialState, Event.resets]

theorem Resolved.mono {g : Graph} {e : WorkflowEdge} {events events' : List Event}
    (h : Resolved g e events) (hsub : ∀ x ∈ events, x ∈ events') : Resolved g e events' := by
  obtain ⟨x, hx, hsettles⟩ := h
  exact ⟨x, hsub x hx, hsettles⟩

theorem entering_arrived {g : Graph} {s s₁ : RunState} {f : Frame} {j : NodeId}
    (h : entering g s f = some (s₁, j)) (hj : g.isJoin j = true)
    (harr : s.joinArrived j = arrivalsAt j (sinceReset j s.events)) :
    s₁.joinArrived j = arrivalsAt j (sinceReset j s₁.events) := by
  unfold entering at h
  split at h
  next via id =>
    split at h
    next => cases h
    next =>
      cases h
      rw [passBarrier_events, sinceReset_append (by rw [if_pos hj]; simp [Event.resets])]
      simp [hj, harr, Event.isArrivalAt]
  next id =>
    split at h
    next => cases h
    next => cases h; exact harr
  next => cases h

def forkInLoop : Graph where
  nodes := [⟨"start", .action .start⟩, ⟨"loop", .loop ⟨some 2⟩⟩, ⟨"fork", .fork⟩,
    ⟨"cond", .condition⟩, ⟨"other", .action .delay⟩, ⟨"join", .join⟩]
  edges := [⟨"e0", "start", "loop", none, none⟩, ⟨"e1", "loop", "fork", some "body", none⟩,
    ⟨"e2", "fork", "join", none, none⟩, ⟨"e3", "fork", "cond", none, none⟩,
    ⟨"e4", "cond", "join", some "true", none⟩, ⟨"e5", "cond", "other", some "false", none⟩]
  handlerEntryNodeId := none
  debugController := false

/-- The handler of `loop`, waiting for its body. -/
def iteration (i mark : ℕ) : Frame :=
  .handler ⟨"loop", .loop ⟨some 2⟩, true, true, none, .running⟩ (.walking (.iterated i mark) [])

/-- Iteration 0: the condition does not hold and skips its edge to the join. -/
def skipInFirst : List Choice := stepsAt {} [] 8 ++ conditionBranch

/-- Iteration 1: the direct edge arrives before the condition was evaluated, and
the join runs, since iteration 0 has lowered its expected count. -/
def arrivalInSecond : List Choice :=
  skipInFirst ++ stepsAt {} [.left] 2 ++ stepsAt {} [] 5 ++ stepsAt {} [.left] 1

end RedFireForge.Workflow
