/-
# `RedFireForge.Workflow.Trace` — the state a visit is recorded with

`onNodeComplete` does not get the state the handler reported.  It gets what
`resolveNodeTraceState` computes: for the types in `writesResults` the flag of
the node's latest result, else `passedFlag`, which starts as the run-wide
`allPassed` of that moment and which a handler can only clear.  `Visit.Told`
says what a handler has done to the flag when it reports a state; from it the
recorded and the reported state are compared when the visit completes.
-/
import RedFireForge.Workflow.Moves

namespace RedFireForge.Workflow

open RedFireForge.Lib

/-! ## The flag and the reported state -/

/-- What the flags of a visit say, given the state it reported last.  With
`givingUp`, a wait may have left its flag alone on an abort. -/
structure Visit.Told (givingUp : Bool) (v : Visit) : Prop where
  kept : v.reported ≠ .fail → v.passed = v.seed
  cleared : v.reported = .fail → v.passed = false ∨
    givingUp = true ∧ v.passed = v.seed ∧ v.type.writesResults = false
  pushed : v.type.writesResults = true → v.reported = .pass → v.pushed = some true
  unpushed : v.type.writesResults = true → v.reported = .fail → v.pushed ≠ some true

/-- The handler has reported its verdict and only follows edges now. -/
def Pc.over : Pc → Bool
  | .skipping _ _ _ | .walking .ret _ => true
  | _ => false

/-- A handler that is over has reported `pass` or `fail`, any other `running`. -/
def Frame.Told (givingUp : Bool) : Frame → Prop
  | .handler v pc =>
      v.Told givingUp ∧ if pc.over then v.reported = .pass ∨ v.reported = .fail else v.reported = .running
  | _ => True

/-- The step ends a wait on an abort, without clearing the flag. -/
def Env.givesUp (env : Env) : Bool := !env.throws && env.push.isNone && env.settle == .aborted

/-- The visit is recorded with what it did itself: the node's latest result
passed exactly if the latest the visit pushed did; and a visit recorded with its
flag passes only if `allPassed` was true when it began. -/
def Visit.recordable (v : Visit) (s : RunState) : Bool :=
  match v.type.writesResults, lastResult v.node s.results with
  | true, some r => r.passed == (v.pushed == some true)
  | _, _ => v.reported != .pass || v.seed

/-- A wait gives up only if `allPassed` was false when its visit began, and a
visit completes only if it is recordable. -/
def traceable : Choice → Config → Bool
  | .step path env, c =>
      match c.work.redex [] path with
      | some (_, .handler v .acting) => !env.givesUp || !v.seed
      | some (_, .handler v (.walking .ret [])) => v.recordable c.state
      | _ => true
  | _, _ => true

section Steps

variable {g : Graph} {env : Env} {s s' : RunState} {f : Frame} {v : Visit} {w : Work} {b : Bool}

/-- A recordable visit is recorded with the state it reported. -/
theorem Visit.Told.recorded (htold : v.Told false) (hover : v.reported = .pass ∨ v.reported = .fail)
    (hrec : v.recordable s = true) :
    resolveNodeTraceState v.type v.node v.passed s.results = v.reported := by
  have hflag : (v.reported != .pass || v.seed) = true → statusOf v.passed = v.reported := by
    intro h
    rcases hover with hpass | hfail
    · have hseed : v.seed = true := by simpa [hpass] using h
      rw [htold.kept (by simp [hpass]), hseed, hpass]
      rfl
    · rw [(htold.cleared hfail).resolve_right (by simp), hfail]
      rfl
  unfold Visit.recordable at hrec
  unfold resolveNodeTraceState
  cases hwrites : v.type.writesResults with
  | false =>
      rw [hwrites] at hrec
      exact hflag hrec
  | true =>
      cases hlast : lastResult v.node s.results with
      | none =>
          rw [hwrites, hlast] at hrec
          exact hflag hrec
      | some r =>
          simp only [hwrites, hlast, beq_iff_eq] at hrec
          change statusOf r.passed = v.reported
          rw [hrec]
          rcases hover with hpass | hfail
          · rw [htold.pushed hwrites hpass, hpass]
            rfl
          · rw [hfail, beq_eq_false_iff_ne.mpr (htold.unpushed hwrites hfail)]
            rfl

theorem newVisit_told (s : RunState) (node : WorkflowNode) (id : NodeId) :
    (newVisit s node id).Told b := by
  constructor <;> simp [newVisit]

theorem Visit.Told.pass (h : v.Told b) (hrun : v.reported = .running)
    (hpushed : v.type.writesResults = true → v.pushed = some true) : (v.tell .pass).Told b where
  kept _ := h.kept (by simp [hrun])
  cleared hfail := by cases hfail
  pushed hwrites _ := hpushed hwrites
  unpushed _ hfail := by cases hfail

theorem Visit.Told.fail (hpushed : v.type.writesResults = true → v.pushed ≠ some true) :
    (v.clear.tell .fail).Told b where
  kept hne := absurd rfl hne
  cleared _ := Or.inl rfl
  pushed _ hpass := by cases hpass
  unpushed hwrites _ := hpushed hwrites

/-- A wait that gives up leaves its flag alone. -/
theorem Visit.Told.giveUp (h : v.Told b) (hrun : v.reported = .running)
    (hseed : b = true ∨ v.seed = false) (hwrites : v.type.writesResults = false) :
    (v.tell .fail).Told b where
  kept hne := absurd rfl hne
  cleared _ := by
    have hkept := h.kept (by simp [hrun])
    rcases hseed with hb | hseed
    · exact Or.inr ⟨hb, hkept, hwrites⟩
    · exact Or.inl (hkept.trans hseed)
  pushed hw := by rw [tell_type, hwrites] at hw; cases hw
  unpushed hw := by rw [tell_type, hwrites] at hw; cases hw

/-- The handlers with a type of their own. -/
theorem Visit.Told.pass_of_not_writes (h : v.Told b) (hrun : v.reported = .running)
    (hwrites : v.type.writesResults = false) : (v.tell .pass).Told b :=
  h.pass hrun (fun hw => by rw [hwrites] at hw; cases hw)

/-- The end of a visit that passes or clears its flag. -/
theorem Visit.Told.verdict (h : v.Told b) (hrun : v.reported = .running)
    (hwrites : v.type.writesResults = false) (ok : Bool) :
    (if ok then v.tell .pass else v.clear.tell .fail).Told b ∧
      ((if ok then v.tell .pass else v.clear.tell .fail).reported = .pass ∨
        (if ok then v.tell .pass else v.clear.tell .fail).reported = .fail) := by
  cases ok with
  | true => exact ⟨h.pass_of_not_writes hrun hwrites, Or.inl rfl⟩
  | false => exact ⟨.fail (fun hw => by rw [hwrites] at hw; cases hw), Or.inr rfl⟩

theorem told_visits (es : List WorkflowEdge) :
    ∀ f ∈ ((es.map (fun e => Frame.visit (some e) e.target) : List Frame) : Multiset Frame),
      f.Told b := by
  intro f hf
  obtain ⟨e, -, rfl⟩ := List.mem_map.mp (Multiset.mem_coe.mp hf)
  trivial

theorem told_goto {pc : Pc} (h : (Frame.handler v pc).Told b) : ∀ f ∈ (v.goto pc).frames, f.Told b := by
  simpa using h

theorem told_awaitAll {es : List WorkflowEdge} (h : (Frame.handler v (.walking .ret [])).Told b) :
    ∀ f ∈ (v.awaitAll es).frames, f.Told b := by
  intro f hf
  rw [frames_awaitAll] at hf
  rcases Multiset.mem_cons.mp hf with rfl | hf
  · exact h
  · exact told_visits es f hf

theorem told_errorConfigVisit : ∀ f ∈ (errorConfigVisit g s).frames, f.Told b := by
  rcases errorConfigVisit_cases g s with h | ⟨entry, h⟩ <;> simp [h, Frame.Told]

theorem Enters.told (h : Enters g s v s' w) (htold : v.Told b) (hrun : v.reported = .running) :
    ∀ f ∈ w.frames, f.Told b := by
  cases h
  case crash => simp
  case fork ht =>
    exact told_awaitAll ⟨htold.pass_of_not_writes hrun (by rw [ht]; rfl), Or.inl rfl⟩
  case condition ht => exact told_goto ⟨htold.pass_of_not_writes hrun (by rw [ht]; rfl), Or.inl rfl⟩
  case switch ht => exact told_goto ⟨htold.pass_of_not_writes hrun (by rw [ht]; rfl), Or.inl rfl⟩
  case join ht => exact told_goto ⟨htold.pass_of_not_writes hrun (by rw [ht]; rfl), Or.inl rfl⟩
  case «end» ht => exact told_goto ⟨htold.pass_of_not_writes hrun (by rw [ht]; rfl), Or.inl rfl⟩
  all_goals exact told_goto ⟨htold, hrun⟩

/-! ## What a step leaves -/

section MayEnd

variable {kind : ActionType} {pushed : Option Bool}

theorem mayEnd_pass (hwrites : kind.writesResults = true) (h : kind.mayEnd pushed .pass = true) :
    pushed = some true := by
  cases kind <;> simp_all [ActionType.mayEnd, ActionType.writesResults]

theorem mayEnd_fail {visits : Bool} (hwrites : kind.writesResults = true)
    (h : kind.mayEnd pushed (.fail visits) = true) : pushed ≠ some true := by
  rintro rfl
  cases kind <;> simp_all [ActionType.mayEnd, ActionType.writesResults]

theorem mayEnd_aborted (h : kind.mayEnd pushed .aborted = true) : kind.writesResults = false := by
  cases kind <;> first | rfl | cases h

end MayEnd

/-- What the work of an action node leaves. -/
theorem handleAction_told {kind : ActionType} (ht : v.type = .action kind)
    (h : handleAction g env s v kind = some (s', w)) (htold : v.Told b) (hrun : v.reported = .running)
    (hgiveUp : env.givesUp = true → b = true ∨ v.seed = false) : ∀ f ∈ w.frames, f.Told b := by
  unfold handleAction at h
  split at h
  · cases h
    simp
  next hthrows =>
    split at h
    · split at h
      · cases h
        refine told_goto ⟨⟨htold.kept, htold.cleared, ?_, ?_⟩, hrun⟩ <;> simp [hrun]
      · cases h
    next hpush =>
      split at h
      next hend =>
        split at h
        next hs =>
          cases h
          refine told_goto ⟨htold.pass hrun (fun hwrites => ?_), Or.inl rfl⟩
          rw [ht] at hwrites
          exact mayEnd_pass hwrites (hs ▸ hend)
        next visits hs =>
          cases h
          refine told_goto ⟨.fail (fun hwrites => ?_), Or.inr rfl⟩
          rw [ht] at hwrites
          exact mayEnd_fail hwrites (hs ▸ hend)
        next hs =>
          split at h
          next ha =>
            cases h
            have hseed := hgiveUp (by simp [Env.givesUp, hthrows, hpush, hs])
            refine told_goto ⟨htold.giveUp hrun hseed ?_, Or.inr rfl⟩
            rw [ht]
            exact mayEnd_aborted (hs ▸ hend)
          next => cases h
      next => cases h

/-- Any other step keeps what the frame said; only a visit or a paused node
calls a handler anew. -/
theorem Moves.told (hm : Moves g s f s' w) (hf : f.Told b) (hacting : ∀ v, f ≠ .handler v .acting) :
    ∀ f ∈ w.frames, f.Told b := by
  cases hm
  case started =>
    simpa [Frame.Told] using told_errorConfigVisit
  case startCut =>
    simpa [Frame.Told] using told_errorConfigVisit
  case start => simp [Frame.Told]
  case pause => simp [Frame.Told]
  case enter hen => exact hen.told (newVisit_told _ _ _) rfl
  case resume hen => exact hen.told (newVisit_told _ _ _) rfl
  case throw => exact absurd rfl (hacting _)
  case push => exact absurd rfl (hacting _)
  case pass => exact absurd rfl (hacting _)
  case fail => exact absurd rfl (hacting _)
  case giveUp => exact absurd rfl (hacting _)
  case skip => exact told_goto hf
  case takeAll => exact told_awaitAll hf
  case takeEach => exact told_goto hf
  case walk v k e es =>
    have hv : (Frame.handler v (.walking k es)).Told b := by cases k <;> exact hf
    simpa [Frame.Told] using hv
  case iterate => exact told_goto hf
  case iterated => exact told_goto hf
  case loopDone ht =>
    exact told_goto ⟨hf.1.pass_of_not_writes hf.2 (by rw [ht]; rfl), Or.inl rfl⟩
  case attempt => exact told_goto hf
  case outOfTries v d n verdict ht _ => exact told_goto (hf.1.verdict hf.2 (by rw [ht]; rfl) d.continueOnError)
  case succeeded ht _ _ =>
    exact told_goto ⟨hf.1.pass_of_not_writes hf.2 (by rw [ht]; rfl), Or.inl rfl⟩
  case retry => exact told_goto hf
  case unmatched v d n pre mark verdict r ht _ _ =>
    exact told_goto (hf.1.verdict hf.2 (by rw [ht]; rfl) d.continueOnError)
  case pollOver ht => exact told_goto (hf.1.verdict hf.2 (by rw [ht]; rfl) false)
  case poll => exact told_goto hf
  case pollQueued => exact told_goto hf
  case pollGranted => exact told_goto hf
  case pollMet ht => exact told_goto (hf.1.verdict hf.2 (by rw [ht]; rfl) true)
  case pollAgain => exact told_goto hf
  all_goals simp

theorem resumeFrame_told (h : resumeFrame g env s f = some (s', w)) (hf : f.Told b)
    (hgiveUp : ∀ v, f = .handler v .acting → env.givesUp = true → b = true ∨ v.seed = false) :
    ∀ f' ∈ w.frames, f'.Told b := by
  by_cases hacting : ∃ v, f = .handler v .acting
  · obtain ⟨v, rfl⟩ := hacting
    simp only [resumeFrame, resumeHandler] at h
    split at h
    next kind ht => exact handleAction_told ht h hf.1 hf.2 (hgiveUp v rfl)
    next => cases h
  · exact (resumeFrame_moves h).told hf (fun v hv => hacting ⟨v, hv⟩)

/-! ## What a step records -/

theorem Enters.completions (h : Enters g s v s' w) {n : NodeId} {recorded reported : RunStatus}
    (hmem : .complete n recorded reported ∈ s'.events) :
    .complete n recorded reported ∈ s.events ∨ recorded = reported := by
  cases h
  case crash =>
    simp at hmem
    rcases hmem with hmem | ⟨-, rfl, rfl⟩
    · exact Or.inl hmem
    · exact Or.inr rfl
  all_goals exact Or.inl (by simpa using hmem)

theorem passBarrier_completions {via : Option WorkflowEdge} {id n : NodeId}
    {recorded reported : RunStatus}
    (h : .complete n recorded reported ∈ (passBarrier g s via id).events) :
    .complete n recorded reported ∈ s.events := by
  rw [passBarrier_events] at h
  split at h <;> simpa using h

/-- A visit completes at the end of its last walk, or by throwing; a visit that
throws is recorded and reported as failed. -/
theorem Moves.completions (hm : Moves g s f s' w) {n : NodeId} {recorded reported : RunStatus}
    (h : .complete n recorded reported ∈ s'.events) :
    .complete n recorded reported ∈ s.events ∨ recorded = reported ∨
      ∃ v, f = .handler v (.walking .ret []) ∧
        recorded = resolveNodeTraceState v.type v.node v.passed s.results ∧
        reported = v.reported := by
  cases hm
  case finish v =>
    simp at h
    rcases h with h | ⟨rfl, rfl, rfl⟩
    · exact Or.inl h
    · exact Or.inr (Or.inr ⟨v, rfl, rfl, rfl⟩)
  case throw =>
    simp at h
    rcases h with h | ⟨-, rfl, rfl⟩
    · exact Or.inl h
    · exact Or.inr (Or.inl rfl)
  case enter hen =>
    rcases hen.completions h with h | h
    · exact Or.inl (passBarrier_completions (by simpa using h))
    · exact Or.inr (Or.inl h)
  case resume hen =>
    rcases hen.completions h with h | h
    · exact Or.inl (by simpa using h)
    · exact Or.inr (Or.inl h)
  all_goals left
  case seen => exact passBarrier_completions h
  case pause => exact passBarrier_completions (by simpa using h)
  case skip v _ e _ _ =>
    obtain ⟨notes, hnotes, hskip⟩ := markSubtreeSkipped_events g v.node e s
    rw [hnotes, List.mem_append] at h
    rcases h with h | h
    · exact h
    · cases hskip _ h
  all_goals simpa using h

end Steps

/-! ## Runs -/

/-- What holds of the visits and completions in every state of a run. -/
structure TraceInv (c : Config) : Prop where
  told : ∀ f ∈ c.work.frames, f.Told false
  recorded : ∀ n recorded reported, .complete n recorded reported ∈ c.state.events →
    recorded = reported

theorem TraceInv.step {g : Graph} {path : List Side} {env : Env} {c c' : Config} (h : TraceInv c)
    (hok : traceable (.step path env) c = true) (hnext : next g (.step path env) c = some c') :
    TraceInv c' := by
  obtain ⟨anc, f, rest, w, hredex, hf, hframes, hframes'⟩ := next_step_resume hnext
  have hm := resumeFrame_moves hf
  have htold : f.Told false := h.told f (by simp [hframes])
  simp only [traceable, hredex] at hok
  refine ⟨fun f' hf' => ?_, fun n recorded reported hmem => ?_⟩
  · rw [hframes'] at hf'
    rcases Multiset.mem_add.mp hf' with hf' | hf'
    · exact h.told f' (by simp [hframes, hf'])
    · refine resumeFrame_told hf htold (fun v hv hgives => Or.inr ?_) f' hf'
      simpa [hv, hgives] using hok
  · rcases hm.completions hmem with hmem | heq | ⟨v, rfl, rfl, rfl⟩
    · exact h.recorded n recorded reported hmem
    · exact heq
    · exact htold.1.recorded htold.2 hok

/-- **The trace.**  In every run in which waits give up only after an earlier
failure and the visits that complete are recordable: each completion is recorded
with the state its handler reported last. -/
theorem recorded_eq_reported (g : Graph) (q : Option Semaphore) (aborted : Bool)
    (ls : List Choice) (c : Config)
    (hok : AllSteps (next g) (fun ch c => traceable ch c = true) (initial g q aborted) ls)
    (hrun : exec (next g) (initial g q aborted) ls = some c) (n : NodeId)
    (recorded reported : RunStatus) (hmem : .complete n recorded reported ∈ c.state.events) :
    recorded = reported := by
  have h : TraceInv c := by
    refine exec_invariant (I := TraceInv) (fun ch c c' h hok hnext => ?_) ?_ hok hrun
    · cases ch with
      | abort => cases hnext; exact ⟨h.told, h.recorded⟩
      | polls q => cases hnext; exact ⟨h.told, h.recorded⟩
      | step path env => exact h.step hok hnext
    · unfold initial
      split
      · exact ⟨by simp, by simp⟩
      · exact ⟨by simp [Frame.Told], by simp [initialState]⟩
  exact h.recorded n recorded reported hmem

/-! ### A request, then a delay -/

def callThenDelay : Graph where
  nodes := [⟨"start", .action .start⟩, ⟨"call", .action .http⟩, ⟨"wait", .action .delay⟩]
  edges := [⟨"e0", "start", "call", none, none⟩, ⟨"e1", "start", "wait", none, none⟩]
  handlerEntryNodeId := none
  debugController := false

/-- The whole run, with a request that passes or fails. -/
def callAndWait (passed : Bool) : List Choice :=
  stepsAt {} [] 5 ++ stepsAt { push := some ⟨"call", passed, if passed then 200 else 500, 0⟩ } [] 1 ++
    stepsAt { settle := if passed then .pass else .fail true } [] 1 ++ stepsAt {} [] 8

theorem recorded_eq_reported_callAndWait :
    ∃ c, exec (next callThenDelay) (initial callThenDelay none false) (callAndWait true) = some c ∧
      c.work = .done ∧ .complete "wait" .pass .pass ∈ c.state.events ∧
      ∀ n recorded reported, .complete n recorded reported ∈ c.state.events →
        recorded = reported := by
  obtain ⟨c, hrun, hdone, hmem⟩ : ∃ c, exec (next callThenDelay) (initial callThenDelay none false)
      (callAndWait true) = some c ∧ c.work = .done ∧
        .complete "wait" .pass .pass ∈ c.state.events := exists_exec (by decide)
  exact ⟨c, hrun, hdone, hmem, recorded_eq_reported callThenDelay none false (callAndWait true) c
    (by decide) hrun⟩

/-- The delay passes, and is recorded as failed since the request failed. -/
theorem passed_delay_recorded_failed :
    ∃ c, exec (next callThenDelay) (initial callThenDelay none false) (callAndWait false) = some c ∧
      c.work = .done ∧ .state "wait" .pass ∈ c.state.events ∧
      .complete "wait" .fail .pass ∈ c.state.events :=
  exists_exec (by decide)

end RedFireForge.Workflow
