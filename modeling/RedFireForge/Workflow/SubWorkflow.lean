/-
# `RedFireForge.Workflow.SubWorkflow` — child runs, their timeout and retries

`handleSubWorkflowNode` runs the child workflow once, or once for each item of a
collection, and `executeOneChild` repeats a run that did not pass.  All attempts
of an item share one abort controller, and its timer is cleared after the first
of them.  A child run that is cut short still completes, with `allPassed` as it
was: `allPassed` tells of the visits that happened (`FailInv`), not of those
that did not.
-/
import RedFireForge.Workflow.Loops
import RedFireForge.Workflow.Trace

namespace RedFireForge.Workflow

open RedFireForge.Lib

/-! ## The handler -/

structure SubWorkflowNodeData where
  /-- `0` = no timeout -/
  timeoutMs : Int
  retryCount : Option Int
  /-- `multiInstance.mode === 'parallel'` -/
  parallel : Bool
deriving DecidableEq, Repr

def SubWorkflowNodeData.maxRetries (d : SubWorkflowNodeData) : Int := d.retryCount.getD 0

/-- A finished attempt: whether the node's own timer cut it short, and
`childAllPassed && childResults.every(r => r.passed)`. -/
structure Outcome where
  cut : Bool
  passed : Bool
deriving DecidableEq, Repr

inductive ChildPhase
  /-- `executeOneChild` has not been called -/
  | idle
  | running (c : Config)
  /-- the delay before the next attempt -/
  | waiting
  | returned (childPassed : Bool)

/-- One call of `executeOneChild`. -/
structure ChildRun where
  phase : ChildPhase
  attempt : ℕ
  /-- `timeoutHandle` is set and not cleared -/
  timer : Bool
  /-- `childAbort.signal.aborted` -/
  aborted : Bool
  /-- the timer is what aborted it -/
  timedOut : Bool
  outcomes : List Outcome

inductive ChildChoice
  /-- `executeOneChild` is called -/
  | begin
  /-- the child run moves -/
  | child (path : List Side) (env : Env)
  /-- the timer fires -/
  | timeout
  /-- the run of the node is aborted, or the debug session is stopped -/
  | abort
  /-- `await runGraph(…)` returns -/
  | settle
  /-- the retry delay is over -/
  | retry
deriving DecidableEq, Repr

/-- The abort signal reaches a child run in progress. -/
def ChildPhase.abort : ChildPhase → ChildPhase
  | .running c => .running { c with state := { c.state with aborted := true } }
  | phase => phase

def Event.isCut : Event → Bool
  | .cut => true
  | _ => false

/-- What the attempt in progress comes to. -/
def ChildRun.outcome (r : ChildRun) (c : Config) (allPassed : Bool) : Outcome where
  cut := r.timedOut && c.state.events.any Event.isCut
  passed := allPassed && c.state.results.all RequestResult.passed

/-- `finally { clearTimeout(timeoutHandle) }`, then the end of the loop body. -/
def ChildRun.settle (d : SubWorkflowNodeData) (r : ChildRun) (o : Outcome) : ChildRun :=
  { r with
    phase := if o.passed || decide (d.maxRetries ≤ r.attempt) then .returned o.passed else .waiting
    timer := false
    outcomes := r.outcomes ++ [o] }

/-- A step of `executeOneChild` over the child workflow `g`. -/
def ChildRun.next (g : Graph) (d : SubWorkflowNodeData) (r : ChildRun) :
    ChildChoice → Option ChildRun
  | .begin =>
      match r.phase with
      | .idle =>
          if 0 ≤ d.maxRetries then
            some { r with phase := .running (initial g none r.aborted), timer := decide (0 < d.timeoutMs) }
          else some { r with phase := .returned true }
      | _ => none
  | .child path env =>
      match r.phase with
      | .running c =>
          (Workflow.next g (.step path env) c).map (fun c' => { r with phase := .running c' })
      | _ => none
  | .timeout =>
      if r.timer then
        some { r with
          phase := r.phase.abort
          timer := false
          aborted := true
          timedOut := r.timedOut || !r.aborted }
      else none
  | .abort => some { r with phase := r.phase.abort, aborted := true }
  | .settle =>
      match r.phase with
      | .running c => c.state.completed.map (fun allPassed => r.settle d (r.outcome c allPassed))
      | _ => none
  | .retry =>
      match r.phase with
      | .waiting =>
          some { r with phase := .running (initial g none r.aborted), attempt := r.attempt + 1 }
      | _ => none

def ChildRun.returned (r : ChildRun) : Option Bool :=
  match r.phase with
  | .returned passed => some passed
  | _ => none

/-- A call that has not begun. -/
def ChildRun.new : ChildRun := ⟨.idle, 0, false, false, false, []⟩

/-- One item after the other, or all at once; a single execution is one item. -/
def subNext (g : Graph) (d : SubWorkflowNodeData) : ℕ × ChildChoice → List ChildRun → Option (List ChildRun)
  | (i, ch), items =>
      if ch = .begin ∧ !d.parallel ∧ !(items.take i).all (fun r => r.returned.isSome) then none
      else (items[i]?.bind (fun r => r.next g d ch)).map (fun r => items.set i r)

/-- `aggregatePassed`, once all items have returned. -/
def aggregatePassed (items : List ChildRun) : Bool := items.all (fun r => r.returned != some false)

/-! ## Failures of a child run -/

/-- A visit completed with `fail`, a wait that returned on the abort aside. -/
def Event.fails (g : Graph) : Event → Bool
  | .complete n recorded .fail =>
      recorded == .fail || (g.nodeMap n).any (fun node => node.type.writesResults)
  | _ => false

/-- Some node of the child run failed, or pushed a failed result. -/
def sawFailure (g : Graph) (c : Config) : Bool :=
  c.state.events.any (Event.fails g) || c.state.results.any (fun r => !r.passed)

/-- If the step ends an attempt that the timer cut short, some node of it had
failed. -/
def ChildRun.cutSeen (g : Graph) (r : ChildRun) : ChildChoice → Bool
  | .settle =>
      match r.phase with
      | .running c => !(r.timedOut && c.state.events.any Event.isCut) || sawFailure g c
      | _ => true
  | _ => true

def cutsSeen (g : Graph) (l : ℕ × ChildChoice) (items : List ChildRun) : Bool :=
  items[l.1]?.all (fun r => r.cutSeen g l.2)

/-! ## What a visit keeps -/

/-- The same visit, with other flags. -/
structure Visit.Same (v v' : Visit) : Prop where
  node : v'.node = v.node
  type : v'.type = v.type
  seed : v'.seed = v.seed

section Steps

variable {g : Graph} {s s' : RunState} {f : Frame} {v : Visit} {w : Work}

theorem Visit.Same.refl (v : Visit) : v.Same v := ⟨rfl, rfl, rfl⟩

theorem caught_same (d : ErrorHandlerNodeData) : v.Same (v.caught d) :=
  ⟨by simp, by simp, by unfold Visit.caught; split <;> rfl⟩

theorem polled_same (met : Bool) : v.Same (v.polled met) :=
  ⟨by simp, by simp, by unfold Visit.polled; split <;> rfl⟩

theorem same_goto {v₁ v' : Visit} {pc pc' : Pc} (hmem : .handler v' pc' ∈ (v₁.goto pc).frames)
    (h : v.Same v₁) : v.Same v' := by
  simp only [frames_goto, Multiset.mem_singleton, Frame.handler.injEq] at hmem
  exact hmem.1 ▸ h

theorem same_awaitAll {v₁ v' : Visit} {pc' : Pc} {es : List WorkflowEdge} 
    (hmem : .handler v' pc' ∈ (v₁.awaitAll es).frames) (h : v.Same v₁) : v.Same v' := by
  simp only [frames_awaitAll, Multiset.mem_cons, Frame.handler.injEq, Multiset.mem_coe,
    List.mem_map, reduceCtorEq, and_false, exists_false, or_false] at hmem
  exact hmem.1 ▸ h

theorem Enters.same (h : Enters g s v s' w) {v' : Visit} {pc' : Pc}
    (hmem : .handler v' pc' ∈ w.frames) : v.Same v' := by
  cases h
  case crash => simp at hmem
  case fork => exact same_awaitAll hmem ⟨rfl, rfl, rfl⟩
  all_goals exact same_goto hmem ⟨rfl, rfl, rfl⟩

/-- A handler that a step leaves goes on with its visit, or was called for a node
of the graph, with `allPassed` as it is. -/
theorem Moves.same (hm : Moves g s f s' w) {v' : Visit} {pc' : Pc}
    (hmem : .handler v' pc' ∈ w.frames) :
    (∃ v pc, f = .handler v pc ∧ v.Same v') ∨
      (∃ node, g.nodeMap v'.node = some node ∧ node.type = v'.type) ∧ v'.seed = s.allPassed := by
  cases hm
  case started => rcases errorConfigVisit_cases g s with h | ⟨entry, h⟩ <;> simp [h] at hmem
  case startCut => rcases errorConfigVisit_cases g s with h | ⟨entry, h⟩ <;> simp [h] at hmem
  case enter hnode _ hen =>
    obtain ⟨hn, ht, hs⟩ := hen.same hmem
    exact Or.inr ⟨⟨_, hn ▸ hnode, ht.symm⟩, by simpa [newVisit] using hs⟩
  case resume hnode hen =>
    obtain ⟨hn, ht, hs⟩ := hen.same hmem
    exact Or.inr ⟨⟨_, hn ▸ hnode, ht.symm⟩, by simpa [newVisit] using hs⟩
  case takeAll => exact Or.inl ⟨_, _, rfl, same_awaitAll hmem (.refl _)⟩
  case walk =>
    simp only [frames_await, frames_visitEdge, Multiset.mem_cons, Multiset.mem_singleton,
      Frame.handler.injEq, reduceCtorEq, or_false] at hmem
    exact Or.inl ⟨_, _, rfl, hmem.1 ▸ .refl _⟩
  case outOfTries => exact Or.inl ⟨_, _, rfl, same_goto hmem (caught_same _)⟩
  case unmatched => exact Or.inl ⟨_, _, rfl, same_goto hmem (caught_same _)⟩
  case pollOver => exact Or.inl ⟨_, _, rfl, same_goto hmem (polled_same _)⟩
  case pollMet => exact Or.inl ⟨_, _, rfl, same_goto hmem (polled_same _)⟩
  all_goals first | simp at hmem; done | exact Or.inl ⟨_, _, rfl, same_goto hmem ⟨rfl, rfl, rfl⟩⟩

/-! ## What `allPassed` says -/

theorem passBarrier_fails {via : Option WorkflowEdge} {id : NodeId} :
    (passBarrier g s via id).events.any (Event.fails g) = s.events.any (Event.fails g) := by
  rw [passBarrier_events, List.any_append]
  split <;> simp [Event.fails]

/-- A visit that throws fails the run; any other call of a handler leaves the
verdict alone. -/
theorem Enters.verdict (h : Enters g s v s' w) :
    (s'.allPassed = s.allPassed ∧ s'.events.any (Event.fails g) = s.events.any (Event.fails g)) ∨
      s'.allPassed = false ∧ s'.events.any (Event.fails g) = true := by
  cases h
  case crash => exact Or.inr ⟨rfl, by simp [Event.fails]⟩
  all_goals exact Or.inl ⟨by simp, by simp [Event.fails]⟩

/-- Only the end of a visit changes the verdict of the run. -/
theorem Moves.verdict (hm : Moves g s f s' w) :
    (s'.allPassed = s.allPassed ∧ s'.events.any (Event.fails g) = s.events.any (Event.fails g)) ∨
      (s'.allPassed = false ∧ s'.events.any (Event.fails g) = true) ∨
        ∃ v, f = .handler v (.walking .ret []) ∧ s' = Workflow.finish s v := by
  cases hm
  case finish v => exact Or.inr (Or.inr ⟨v, rfl, rfl⟩)
  case throw => exact Or.inr (Or.inl ⟨rfl, by simp [Event.fails]⟩)
  case enter hen =>
    rcases hen.verdict with ⟨hall, hfails⟩ | h
    · refine Or.inl ⟨by simpa using hall, ?_⟩
      rw [hfails]
      simp [Event.fails, passBarrier_fails]
    · exact Or.inr (Or.inl h)
  case resume hen =>
    rcases hen.verdict with ⟨hall, hfails⟩ | h
    · refine Or.inl ⟨by simpa using hall, ?_⟩
      rw [hfails]
      simp [Event.fails]
    · exact Or.inr (Or.inl h)
  case skip v _ e _ _ =>
    obtain ⟨notes, hnotes, hskip⟩ := markSubtreeSkipped_events g v.node e s
    have hnone : notes.any (Event.fails g) = false := by
      refine List.any_eq_false.mpr (fun x hx => ?_)
      cases hskip x hx <;> simp [Event.fails]
    exact Or.inl ⟨by simp, by rw [hnotes, List.any_append, hnone, Bool.or_false]⟩
  all_goals exact Or.inl ⟨by simp, by simp [Event.fails, passBarrier_fails, Function.comp_def]⟩

/-- The visit of a handler is a visit of its node, and its flag started as false
only after a failure. -/
def Frame.Seeded (g : Graph) (s : RunState) : Frame → Prop
  | .handler v _ =>
      (∃ node, g.nodeMap v.node = some node ∧ node.type = v.type) ∧
        (v.seed = false → s.events.any (Event.fails g) = true)
  | _ => True

/-- `allPassed` is false exactly after a failure. -/
structure FailInv (g : Graph) (s : RunState) (frames : Multiset Frame) : Prop where
  told : ∀ f ∈ frames, f.Told true
  seeded : ∀ f ∈ frames, f.Seeded g s
  verdict : s.allPassed = !s.events.any (Event.fails g)

/-- The event a visit completes with is a failure exactly if its handler cleared
the flag; a flag that started as false changes nothing. -/
theorem finish_fails (htold : v.Told true) (hover : v.reported = .pass ∨ v.reported = .fail)
    (htype : ∃ node, g.nodeMap v.node = some node ∧ node.type = v.type) :
    (Event.fails g (.complete v.node (resolveNodeTraceState v.type v.node v.passed s.results)
      v.reported) = true → v.passed = false) ∧
    (v.passed = false → v.seed = false ∨ Event.fails g (.complete v.node
      (resolveNodeTraceState v.type v.node v.passed s.results) v.reported) = true) := by
  obtain ⟨node, hnode, htype⟩ := htype
  rcases hover with hpass | hfail
  · refine ⟨fun h => by simp [Event.fails, hpass] at h, fun h => Or.inl ?_⟩
    rw [← htold.kept (by simp [hpass]), h]
  · cases hwrites : v.type.writesResults with
    | true =>
        have hcleared := (htold.cleared hfail).resolve_right (by simp [hwrites])
        exact ⟨fun _ => hcleared, fun _ => Or.inr (by simp [Event.fails, hfail, hnode, htype, hwrites])⟩
    | false =>
        have hstate : resolveNodeTraceState v.type v.node v.passed s.results = statusOf v.passed := by
          simp [resolveNodeTraceState, hwrites]
        rw [hstate]
        cases hp : v.passed with
        | true => exact ⟨fun h => by simp [Event.fails, hfail, hnode, htype, hwrites, statusOf] at h, by simp⟩
        | false => exact ⟨fun _ => rfl, fun _ => Or.inr (by simp [Event.fails, hfail, statusOf])⟩

theorem FailInv.step {env : Env} {rest : Multiset Frame} (h : FailInv g s (f ::ₘ rest))
    (hf : resumeFrame g env s f = some (s', w)) : FailInv g s' (rest + w.frames) := by
  have hm := resumeFrame_moves hf
  have htold := h.told f (Multiset.mem_cons_self _ _)
  obtain ⟨more, hmore⟩ := hm.log_append
  have hmono : s.events.any (Event.fails g) = true → s'.events.any (Event.fails g) = true := by
    intro hany
    rw [hmore, List.any_append, hany, Bool.true_or]
  have hkeep : ∀ f' : Frame, f'.Seeded g s → f'.Seeded g s' := by
    intro f' hf'
    cases f' with
    | handler v pc => exact ⟨hf'.1, fun hseed => hmono (hf'.2 hseed)⟩
    | _ => trivial
  refine ⟨fun f' hf' => ?_, fun f' hf' => ?_, ?_⟩
  · rcases Multiset.mem_add.mp hf' with hf' | hf'
    · exact h.told f' (Multiset.mem_cons_of_mem hf')
    · exact resumeFrame_told hf htold (fun _ _ _ => Or.inl rfl) f' hf'
  · rcases Multiset.mem_add.mp hf' with hf' | hf'
    · exact hkeep f' (h.seeded f' (Multiset.mem_cons_of_mem hf'))
    · cases f' with
      | handler v' pc' =>
          rcases hm.same hf' with ⟨v, pc, rfl, hn, ht, hs⟩ | ⟨hnode, hseed⟩
          · have hold := hkeep _ (h.seeded _ (Multiset.mem_cons_self _ _))
            exact ⟨hn ▸ ht ▸ hold.1, hs ▸ hold.2⟩
          · refine ⟨hnode, fun hfalse => hmono ?_⟩
            rw [hseed, h.verdict] at hfalse
            simpa using hfalse
      | _ => trivial
  · rcases hm.verdict with ⟨hall, hfails⟩ | ⟨hall, hfails⟩ | ⟨v, rfl, rfl⟩
    · rw [hall, hfails, h.verdict]
    · rw [hall, hfails]
      rfl
    · obtain ⟨htype, hseed⟩ := h.seeded _ (Multiset.mem_cons_self _ _)
      obtain ⟨hfails, hcleared⟩ := finish_fails (s := s) htold.1 htold.2 htype
      rw [finish_allPassed, finish_events, List.any_append, h.verdict]
      cases hold : s.events.any (Event.fails g) with
      | true => simp
      | false =>
          have hseed : v.seed ≠ false := fun hfalse => by simp [hseed hfalse] at hold
          have hiff : Event.fails g (.complete v.node
              (resolveNodeTraceState v.type v.node v.passed s.results) v.reported) = !v.passed := by
            rw [Bool.eq_iff_iff, Bool.not_eq_true']
            exact ⟨hfails, fun hp => (hcleared hp).resolve_left hseed⟩
          simp [hiff]

/-! ## A completed run is done -/

/-- The body of `runGraph` itself. -/
def Frame.isRoot : Frame → Bool
  | .main _ | .final => true
  | _ => false

/-- The body of `runGraph` awaits everything else. -/
def Rooted (w : Work) : Prop :=
  w = .done ∨ ∃ f sub, w = .call f sub ∧ f.isRoot = true ∧ ∀ f' ∈ sub.frames, f'.isRoot = false

theorem Enters.inner (h : Enters g s v s' w) :
    (∀ f' ∈ w.frames, f'.isRoot = false) ∧ s'.completed = s.completed := by
  cases h <;> simp [Frame.isRoot]

theorem Moves.inner (hm : Moves g s f s' w) (hf : f.isRoot = false) :
    (∀ f' ∈ w.frames, f'.isRoot = false) ∧ s'.completed = s.completed := by
  cases hm
  case started => cases hf
  case startCut => cases hf
  case start => cases hf
  case final => cases hf
  case enter hen => simpa using hen.inner
  case resume hen => simpa using hen.inner
  all_goals simp [Frame.isRoot]

/-- The body of `runGraph` goes on, or completes with `allPassed`. -/
theorem Moves.root (hm : Moves g s f s' w) (hf : f.isRoot = true) :
    Rooted w ∧ (s'.completed = s.completed ∨
      w = .done ∧ s'.completed = some s.allPassed ∧ s'.allPassed = s.allPassed) := by
  have hvisit : ∀ f' ∈ (errorConfigVisit g s).frames, f'.isRoot = false := by
    rcases errorConfigVisit_cases g s with h | ⟨entry, h⟩ <;> simp [h, Frame.isRoot]
  cases hm
  case started => exact ⟨Or.inr ⟨_, _, rfl, rfl, hvisit⟩, Or.inl rfl⟩
  case startCut => exact ⟨Or.inr ⟨_, _, rfl, rfl, hvisit⟩, Or.inl rfl⟩
  case start => exact ⟨Or.inr ⟨_, _, rfl, rfl, by simp [Frame.isRoot]⟩, Or.inl rfl⟩
  case final => exact ⟨Or.inl rfl, Or.inr ⟨rfl, rfl, rfl⟩⟩
  all_goals cases hf

end Steps

/-- What holds of a run, whose verdict is the one it completed with. -/
structure RunInv (g : Graph) (c : Config) : Prop where
  fails : FailInv g c.state c.work.frames
  rooted : Rooted c.work
  completed : ∀ p, c.state.completed = some p → c.work = .done ∧ p = c.state.allPassed

theorem initial_runInv (g : Graph) (q : Option Semaphore) (aborted : Bool) :
    RunInv g (initial g q aborted) := by
  unfold initial
  split
  · exact ⟨⟨by simp, by simp, by simp [initialState]⟩, Or.inl rfl, by simp [initialState]⟩
  · refine ⟨⟨by simp [Frame.Told], by simp [Frame.Seeded], ?_⟩, ?_, by simp [initialState]⟩
    · simp [initialState, Event.fails]
    · exact Or.inr ⟨_, _, rfl, rfl, by simp⟩

theorem RunInv.abort {g : Graph} {c : Config} (h : RunInv g c) :
    RunInv g { c with state := { c.state with aborted := true } } := by
  obtain ⟨⟨htold, hseeded, hverdict⟩, hrooted, hcompleted⟩ := h
  refine ⟨⟨htold, fun f hf => ?_, hverdict⟩, hrooted, hcompleted⟩
  cases f with
  | handler v pc => exact hseeded _ hf
  | _ => trivial

theorem RunInv.step {g : Graph} {path : List Side} {env : Env} {c c' : Config} (h : RunInv g c)
    (hnext : next g (.step path env) c = some c') : RunInv g c' := by
  have hfails : FailInv g c'.state c'.work.frames := by
    obtain ⟨anc, f, rest, w, -, hf, hframes, hframes'⟩ := next_step_resume hnext
    rw [hframes']
    exact FailInv.step (hframes ▸ h.fails) hf
  obtain ⟨ctx, f, sub, w, hdone, -, hm, hwork, hwork'⟩ := next_step_ctx hnext
  rcases h.rooted with hnone | ⟨root, sub', hroot, hisRoot, hinner⟩
  · rw [hnone] at hwork
    cases ctx <;> cases hwork
  have hopen : ∀ p, c.state.completed ≠ some p := fun p hp => by
    have := (h.completed p hp).1
    rw [hroot] at this
    cases this
  rw [hroot] at hwork
  cases ctx with
  | hole =>
      obtain ⟨rfl, rfl⟩ := Proc.call.inj hwork
      obtain ⟨hrooted, hcompleted⟩ := hm.root hisRoot
      refine ⟨hfails, hwork' ▸ hrooted, fun p hp => ?_⟩
      rcases hcompleted with heq | ⟨hw, hcompleted, hall⟩
      · exact absurd (heq ▸ hp) (hopen p)
      · rw [hcompleted, Option.some.injEq] at hp
        exact ⟨hwork'.trans hw, by rw [hall, hp]⟩
  | call f' ctx =>
      obtain ⟨rfl, rfl⟩ := Proc.call.inj hwork
      rw [Ctx.frames_plug] at hinner
      obtain ⟨hframes, heq⟩ := hm.inner (hinner f (by simp))
      refine ⟨hfails, Or.inr ⟨_, _, hwork', hisRoot, fun f' hf' => ?_⟩,
        fun p hp => absurd (heq ▸ hp) (hopen p)⟩
      rw [Ctx.frames_plug] at hf'
      rcases Multiset.mem_add.mp hf' with hf' | hf'
      · exact hinner f' (Multiset.mem_add.mpr (Or.inl hf'))
      · exact hframes f' hf'
  | left ctx r => cases hwork
  | right l ctx => cases hwork

/-! ## Attempts -/

/-- No attempt that the timer cut short is counted as passed. -/
def ChildRun.CutsFail (r : ChildRun) : Prop := ∀ o ∈ r.outcomes, o.cut = true → o.passed = false

/-- What holds of a call of `executeOneChild`: it returns what its last attempt
came to. -/
structure ChildInv (g : Graph) (r : ChildRun) : Prop where
  idle : r.phase = .idle → r.outcomes = []
  run : ∀ c, r.phase = .running c → RunInv g c
  returned : ∀ p, r.phase = .returned p → p = (r.outcomes.getLast?.map Outcome.passed).getD true

section Attempts

variable {g : Graph} {d : SubWorkflowNodeData} {r r' : ChildRun}

theorem abort_running {phase : ChildPhase} {c : Config} (h : phase.abort = .running c) :
    ∃ c₀, phase = .running c₀ ∧ c = { c₀ with state := { c₀.state with aborted := true } } := by
  cases phase with
  | running c₀ => exact ⟨c₀, rfl, (ChildPhase.running.inj h).symm⟩
  | _ => cases h

theorem abort_idle {phase : ChildPhase} (h : phase.abort = .idle) : phase = .idle := by
  cases phase <;> first | exact h | cases h

theorem abort_returned {phase : ChildPhase} {p : Bool} (h : phase.abort = .returned p) :
    phase = .returned p := by
  cases phase <;> first | exact h | cases h

theorem ChildInv.abort (h : ChildInv g r) {r' : ChildRun} (hphase : r'.phase = r.phase.abort)
    (houtcomes : r'.outcomes = r.outcomes) : ChildInv g r' := by
  refine ⟨fun hidle => ?_, fun c hc => ?_, fun p hp => ?_⟩
  · rw [houtcomes]
    exact h.idle (abort_idle (hphase ▸ hidle))
  · obtain ⟨c₀, hc₀, rfl⟩ := abort_running (hphase ▸ hc)
    exact (h.run c₀ hc₀).abort
  · rw [houtcomes]
    exact h.returned p (abort_returned (hphase ▸ hp))

/-- A completed attempt passed exactly if it saw no failure. -/
theorem outcome_passed {c : Config} {allPassed : Bool} (h : RunInv g c)
    (hcompleted : c.state.completed = some allPassed) :
    (r.outcome c allPassed).passed = !sawFailure g c := by
  have hresults : c.state.results.all RequestResult.passed =
      !c.state.results.any (fun r => !r.passed) := by simp [List.not_any_eq_all_not]
  rw [(h.completed _ hcompleted).2, ChildRun.outcome, sawFailure, h.fails.verdict, hresults,
    Bool.not_or]

theorem ChildInv.settle {c : Config} {allPassed : Bool} (h : ChildInv g r)
    (hphase : r.phase = .running c) (hcompleted : c.state.completed = some allPassed) :
    ChildInv g (r.settle d (r.outcome c allPassed)) ∧
      ((r.settle d (r.outcome c allPassed)).CutsFail ↔
        r.CutsFail ∧ r.cutSeen g .settle = true) := by
  refine ⟨⟨fun hidle => ?_, fun c' hc' => ?_, fun p hp => ?_⟩, ?_⟩
  · simp only [ChildRun.settle] at hidle
    split at hidle <;> cases hidle
  · simp only [ChildRun.settle] at hc'
    split at hc' <;> cases hc'
  · simp only [ChildRun.settle] at hp
    split at hp
    · cases hp
      simp [ChildRun.settle]
    · cases hp
  · have hpassed := outcome_passed (r := r) (h.run c hphase) hcompleted
    have hnew : ((r.outcome c allPassed).cut = true → (r.outcome c allPassed).passed = false) ↔
        r.cutSeen g .settle = true := by
      rw [hpassed]
      simp only [ChildRun.cutSeen, hphase, ChildRun.outcome]
      cases r.timedOut && c.state.events.any Event.isCut <;> simp
    rw [← hnew]
    simp only [ChildRun.CutsFail, ChildRun.settle, List.mem_append, List.mem_singleton]
    constructor
    · exact fun hall => ⟨fun o ho => hall o (Or.inl ho), hall _ (Or.inr rfl)⟩
    · rintro ⟨hold, hlast⟩ o (ho | rfl)
      · exact hold o ho
      · exact hlast

theorem cutsFail_keep {ch : ChildChoice} (hch : ch ≠ .settle) (houtcomes : r'.outcomes = r.outcomes) :
    r'.CutsFail ↔ r.CutsFail ∧ r.cutSeen g ch = true := by
  have hseen : r.cutSeen g ch = true := by cases ch <;> first | rfl | exact absurd rfl hch
  simp [ChildRun.CutsFail, houtcomes, hseen]

/-- Only the end of an attempt adds an outcome. -/
theorem ChildInv.step {ch : ChildChoice} (h : ChildInv g r) (hnext : r.next g d ch = some r') :
    ChildInv g r' ∧ (r'.CutsFail ↔ r.CutsFail ∧ r.cutSeen g ch = true) := by
  cases ch with
  | begin =>
      simp only [ChildRun.next] at hnext
      split at hnext
      next hidle =>
        split at hnext
        · cases hnext
          refine ⟨⟨fun hidle => by (cases hidle), fun c hc => ?_, fun p hp => by cases hp⟩,
            cutsFail_keep (by simp) rfl⟩
          cases hc
          exact initial_runInv _ _ _
        · cases hnext
          refine ⟨⟨fun hidle => by (cases hidle), fun c hc => by (cases hc), fun p hp => ?_⟩,
            cutsFail_keep (by simp) rfl⟩
          cases hp
          simp [h.idle hidle]
      next => cases hnext
  | child path env =>
      simp only [ChildRun.next] at hnext
      split at hnext
      next c hphase =>
        obtain ⟨c', hstep, rfl⟩ := Option.map_eq_some_iff.mp hnext
        refine ⟨⟨fun hidle => by (cases hidle), fun c₁ hc₁ => ?_, fun p hp => by cases hp⟩,
          cutsFail_keep (by simp) rfl⟩
        cases hc₁
        exact (h.run c hphase).step hstep
      next => cases hnext
  | timeout =>
      simp only [ChildRun.next] at hnext
      split at hnext
      · cases hnext
        exact ⟨h.abort rfl rfl, cutsFail_keep (by simp) rfl⟩
      · cases hnext
  | abort =>
      cases hnext
      exact ⟨h.abort rfl rfl, cutsFail_keep (by simp) rfl⟩
  | settle =>
      simp only [ChildRun.next] at hnext
      split at hnext
      next c hphase =>
        obtain ⟨allPassed, hcompleted, rfl⟩ := Option.map_eq_some_iff.mp hnext
        exact h.settle hphase hcompleted
      next => cases hnext
  | retry =>
      simp only [ChildRun.next] at hnext
      split at hnext
      next hphase =>
        cases hnext
        refine ⟨⟨fun hidle => by (cases hidle), fun c hc => ?_, fun p hp => by cases hp⟩,
          cutsFail_keep (by simp) rfl⟩
        cases hc
        exact initial_runInv _ _ _
      next => cases hnext

/-- One item moves; the others stay as they are. -/
theorem subNext_cases {i : ℕ} {ch : ChildChoice} {items items' : List ChildRun}
    (h : subNext g d (i, ch) items = some items') :
    ∃ r r', items[i]? = some r ∧ r.next g d ch = some r' ∧ items' = items.set i r' := by
  simp only [subNext] at h
  split at h
  · cases h
  · obtain ⟨r', hbind, rfl⟩ := Option.map_eq_some_iff.mp h
    obtain ⟨r, hr, hnext⟩ := Option.bind_eq_some_iff.mp hbind
    exact ⟨r, r', hr, hnext, rfl⟩

theorem forall_mem_set {P : ChildRun → Prop} {items : List ChildRun} {i : ℕ} (r' : ChildRun)
    (hr : items[i]? = some r) :
    (∀ x ∈ items.set i r', P x) ∧ P r ↔ (∀ x ∈ items, P x) ∧ P r' := by
  obtain ⟨hi, rfl⟩ := List.getElem?_eq_some_iff.mp hr
  constructor
  · rintro ⟨hset, hPr⟩
    refine ⟨fun x hx => ?_, hset r' (List.mem_set hi r')⟩
    obtain ⟨j, hj, rfl⟩ := List.mem_iff_getElem.mp hx
    by_cases hij : i = j
    · subst hij
      exact hPr
    · have hj' : j < (items.set i r').length := by simpa using hj
      have hget : (items.set i r')[j] = items[j] := List.getElem_set_ne hij _
      exact hget ▸ hset _ (List.getElem_mem _)
  · rintro ⟨hall, hr'⟩
    refine ⟨fun x hx => ?_, hall _ (List.getElem_mem hi)⟩
    rcases List.mem_or_eq_of_mem_set hx with hx | rfl
    · exact hall x hx
    · exact hr'

end Attempts

/-- One item without retries, with a timer. -/
def oneAttempt : SubWorkflowNodeData := ⟨1000, none, false⟩

def childSteps (env : Env) (n : ℕ) : List (ℕ × ChildChoice) := List.replicate n (0, .child [] env)

/-- The request of `callThenDelay` fails, then the timer fires. -/
def timeoutAfterFailure : List (ℕ × ChildChoice) :=
  [(0, .begin)] ++ childSteps {} 5 ++ childSteps { push := some ⟨"call", false, 500, 0⟩ } 1 ++
    childSteps { settle := .fail true } 1 ++ childSteps {} 1 ++ [(0, .timeout)] ++
    childSteps {} 5 ++ [(0, .settle)]

/-- The timer fires before the request is sent. -/
def timeoutBeforeRequest : List (ℕ × ChildChoice) :=
  [(0, .begin)] ++ childSteps {} 3 ++ [(0, .timeout)] ++ childSteps {} 7

end RedFireForge.Workflow
