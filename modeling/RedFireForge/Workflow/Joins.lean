/-
# `RedFireForge.Workflow.Joins` — the join barrier

The barrier compares two counters: `joinArrived`, raised by every arrival, and
`incomingCount`, lowered by every skip of an incoming edge.  It is evaluated on
an arrival only.  The quantities below count, in the log and among the frames,
what the two counters stand for; the invariant `JoinInv` ties them together in
every state of a run, under every interleaving.
-/
import RedFireForge.Workflow.Moves

namespace RedFireForge.Workflow

open RedFireForge.Lib

/-! ## Counting in the log and among the frames -/

def Event.isSkipInto (j : NodeId) : Event → Bool
  | .skip _ e => e.target == j
  | _ => false

def Event.isEdgeInto (j : NodeId) : Event → Bool
  | .edge e => e.target == j
  | _ => false

def Event.isArrivalAt (j : NodeId) : Event → Bool
  | .arrive n _ => n == j
  | _ => false

def Event.isStartOf (j : NodeId) : Event → Bool
  | .start n => n == j
  | _ => false

def Frame.isVisitOf (j : NodeId) : Frame → Bool
  | .visit _ n => n == j
  | _ => false

def Frame.isPausedAt (j : NodeId) : Frame → Bool
  | .paused n => n == j
  | _ => false

section Counts

variable (j : NodeId) (events : List Event) (frames : Multiset Frame)

/-- Calls of `markSubtreeSkipped` on the node. -/
@[simp] def skipsInto : ℕ := events.countP (Event.isSkipInto j)

/-- Traversals of edges into the node. -/
@[simp] def traversalsInto : ℕ := events.countP (Event.isEdgeInto j)

@[simp] def arrivalsAt : ℕ := events.countP (Event.isArrivalAt j)

@[simp] def startsOf : ℕ := events.countP (Event.isStartOf j)

/-- Visits called but not started. -/
@[simp] def visitsOf : ℕ := tally (Frame.isVisitOf j) frames

@[simp] def pausesAt : ℕ := tally (Frame.isPausedAt j) frames

end Counts

/-- Types whose handler enters its body more than once. -/
def NodeType.repeats : NodeType → Bool
  | .loop _ | .errorHandler _ | .waitForCondition _ => true
  | _ => false

def Frame.repeats : Frame → Bool
  | .handler v _ => v.type.repeats
  | _ => false

/-- The arrivals a join waits for once its skipped edges are taken off. -/
def expectedArrivals (g : Graph) (j : NodeId) (events : List Event) : ℕ :=
  max 1 ((g.incoming j).length - skipsInto j events)

section Steps

variable {g : Graph} {s s' : RunState} {f : Frame} {w : Work} {j : NodeId}

/-! ## What a step does to the expected count -/

theorem isSkipInto_arrive (n : NodeId) (via : Option WorkflowEdge) :
    Event.isSkipInto j (.arrive n via) = false := rfl

theorem Enters.skips {v : Visit} (h : Enters g s v s' w) :
    s'.incomingCount = s.incomingCount ∧
      skipsInto j s'.events = skipsInto j s.events := by
  cases h <;> exact ⟨by simp, by simp [Event.isSkipInto]⟩

theorem markSubtreeSkipped_expected (hj : g.isJoin j = true) {cause : NodeId} {e : WorkflowEdge}
    (h : s.incomingCount j = expectedArrivals g j s.events) :
    (markSubtreeSkipped g cause e s).incomingCount j
      = expectedArrivals g j (markSubtreeSkipped g cause e s).events := by
  refine markSubtreeSkipped_induction
    (P := fun t => t.incomingCount j = expectedArrivals g j t.events) (fun e t ht => ?_) e h
  unfold expectedArrivals at ht ⊢
  rcases skipCall_cases g cause e t with ⟨hcall, -⟩ | ⟨hcall, hne⟩ | ⟨hcall, hne, -⟩
  · -- the count of the edge's own target goes down, but never below one
    by_cases hej : j = e.target
    · subst hej
      by_cases hc : t.incomingCount e.target > 1
      · simp [hcall, hc, Event.isSkipInto] at ht ⊢
        omega
      · simp [hcall, hc, Event.isSkipInto] at ht ⊢
        omega
    · by_cases hc : t.incomingCount e.target > 1
      · simp [hcall, hc, Event.isSkipInto, hej, Ne.symm hej, ht]
      · simp [hcall, hc, Event.isSkipInto, Ne.symm hej, ht]
  all_goals
    have hej : ¬ e.target = j := fun heq => by rw [heq, hj] at hne; cases hne
    simp [hcall, Event.isSkipInto, hej, ht]

/-- `incomingCount` of a join is the number of its incoming edges less the
skipped ones. -/
theorem Moves.expected (hm : Moves g s f s' w) (hj : g.isJoin j = true)
    (h : s.incomingCount j = expectedArrivals g j s.events) :
    s'.incomingCount j = expectedArrivals g j s'.events := by
  cases hm
  case skip => exact markSubtreeSkipped_expected hj h
  case enter hen =>
    obtain ⟨hcount, hskips⟩ := hen.skips (j := j)
    rw [expectedArrivals, hcount, hskips]
    simpa [expectedArrivals, Event.isSkipInto, passBarrier_countP _ _ _ _ isSkipInto_arrive] using h
  case resume hen =>
    obtain ⟨hcount, hskips⟩ := hen.skips (j := j)
    rw [expectedArrivals, hcount, hskips]
    simpa [expectedArrivals, Event.isSkipInto] using h
  all_goals
    simpa [Event.isSkipInto, expectedArrivals, passBarrier_countP _ _ _ _ isSkipInto_arrive,
      Function.comp_def] using h

/-! ## What a step does to arrivals, starts and visits of a join -/

theorem markSubtreeSkipped_countP {p : Event → Bool} (hskip : ∀ cause e, p (.skip cause e) = false)
    (hstate : ∀ n st, p (.state n st) = false) (cause : NodeId) (e : WorkflowEdge) :
    (markSubtreeSkipped g cause e s).events.countP p = s.events.countP p := by
  obtain ⟨notes, hevents, hnotes⟩ := markSubtreeSkipped_events g cause e s
  have hzero : notes.countP p = 0 := by
    rw [List.countP_eq_zero]
    intro x hx
    cases hnotes x hx with
    | skip e => simp [hskip]
    | state _ => simp [hstate]
  rw [hevents, List.countP_append, hzero, Nat.add_zero]

/-- The barrier counts a visit of the join itself, and no other visit. -/
theorem passBarrier_arrivals (hj : g.isJoin j = true) (via : Option WorkflowEdge) (id : NodeId) :
    (passBarrier g s via id).joinArrived j = s.joinArrived j + (if id = j then 1 else 0) ∧
      arrivalsAt j (passBarrier g s via id).events
        = arrivalsAt j s.events + (if id = j then 1 else 0) := by
  by_cases hid : id = j
  · subst hid
    simp [passBarrier_events, hj, Event.isArrivalAt]
  · cases hjoin : g.isJoin id <;>
      simp [passBarrier_events, hjoin, Event.isArrivalAt, hid, Function.update_of_ne (Ne.symm hid)]

theorem Enters.arrivals {v : Visit} (h : Enters g s v s' w) :
    s'.joinArrived = s.joinArrived ∧ arrivalsAt j s'.events = arrivalsAt j s.events := by
  cases h <;> exact ⟨by simp, by simp [Event.isArrivalAt, Function.comp_def]⟩

theorem resetBody_arrivals (body : List NodeId) (hf : f.repeats = true) :
    (s.resetBody body).joinArrived j + arrivalsAt j s.events
        = s.joinArrived j + arrivalsAt j (s.resetBody body).events ∨
      (s.resetBody body).joinArrived j = 0 ∧ f.repeats = true ∧
        ∃ body', (s.resetBody body).events = s.events ++ [.reset body'] := by
  by_cases hbody : j ∈ body <;> simp [hbody, hf, Event.isArrivalAt]

/-- `joinArrived` counts the arrivals since the last reset. -/
theorem Moves.arrivals (hm : Moves g s f s' w) (hj : g.isJoin j = true) :
    s'.joinArrived j + arrivalsAt j s.events = s.joinArrived j + arrivalsAt j s'.events ∨
      s'.joinArrived j = 0 ∧ f.repeats = true ∧
        ∃ body, s'.events = s.events ++ [.reset body] := by
  cases hm
  case wait via id _ _ _ =>
    by_cases hid : id = j
    · subst hid
      simp [Event.isArrivalAt]
      omega
    · simp [Event.isArrivalAt, hid, Function.update_of_ne (Ne.symm hid)]
  case seen via id _ _ =>
    have hpass := passBarrier_arrivals (s := s) hj via id
    simp only [arrivalsAt] at hpass ⊢
    omega
  case pause via id _ _ _ _ =>
    have hpass := passBarrier_arrivals (s := s) hj via id
    simp [Event.isArrivalAt] at hpass ⊢
    omega
  case enter via id _ _ _ _ _ _ hen =>
    have hpass := passBarrier_arrivals (s := s) hj via id
    obtain ⟨harr, hcount⟩ := hen.arrivals (j := j)
    rw [harr, hcount]
    simp [Event.isArrivalAt] at hpass ⊢
    omega
  case resume hen =>
    obtain ⟨harr, hcount⟩ := hen.arrivals (j := j)
    rw [harr, hcount]
    simp [Event.isArrivalAt]
  case skip v _ e _ _ =>
    left
    rw [markSubtreeSkipped_joinArrived, arrivalsAt, arrivalsAt,
      markSubtreeSkipped_countP (by simp [Event.isArrivalAt]) (by simp [Event.isArrivalAt])]
  case iterate ht _ _ =>
    exact resetBody_arrivals _ (by simp [Frame.repeats, ht, NodeType.repeats])
  case attempt ht _ _ =>
    exact resetBody_arrivals _ (by simp [Frame.repeats, ht, NodeType.repeats])
  case poll ht _ _ =>
    exact resetBody_arrivals _ (by simp [Frame.repeats, ht, NodeType.repeats])
  case pollQueued ht _ _ _ =>
    exact resetBody_arrivals _ (by simp [Frame.repeats, ht, NodeType.repeats])
  all_goals simp [Event.isArrivalAt, Function.comp_def]

theorem isEdgeInto_arrive (n : NodeId) (via : Option WorkflowEdge) :
    Event.isEdgeInto j (.arrive n via) = false := rfl

theorem isStartOf_arrive (n : NodeId) (via : Option WorkflowEdge) :
    Event.isStartOf j (.arrive n via) = false := rfl

theorem Enters.traversals {v : Visit} (h : Enters g s v s' w) :
    traversalsInto j s'.events = traversalsInto j s.events + visitsOf j w.frames := by
  cases h <;> simp [Event.isEdgeInto, Frame.isVisitOf, Function.comp_def]

/-- Every traversal of an edge is followed by a visit, and every visit of a
join by an arrival, unless the run is aborted. -/
theorem Moves.traversals (hm : Moves g s f s' w) (hj : g.isJoin j = true)
    (ha : s.aborted = false) :
    traversalsInto j s'.events + arrivalsAt j s.events + visitsOf j {f} ≤
      traversalsInto j s.events + arrivalsAt j s'.events + visitsOf j w.frames := by
  cases hm
  case visitCut hcut => rw [ha] at hcut; cases hcut
  case visitNowhere id hnode =>
    have hne : ¬ id = j := fun h => by simp [← h, Graph.isJoin, hnode] at hj
    simp [Frame.isVisitOf, hne]
  case wait via id _ _ _ =>
    by_cases hid : id = j
    · simp only [traversalsInto, arrivalsAt, visitsOf, hid, RunState.report_events,
        RunState.arriveAt_events, List.countP_append, List.countP_cons, List.countP_nil,
        Event.isEdgeInto, Event.isArrivalAt, Frame.isVisitOf, tally_singleton, Proc.frames_done,
        tally_zero, BEq.rfl, Bool.false_eq_true, ↓reduceIte]
      omega
    · simp [Event.isEdgeInto, Event.isArrivalAt, Frame.isVisitOf, hid]
  case seen via id _ _ =>
    have hpass := passBarrier_arrivals (s := s) hj via id
    rw [traversalsInto, passBarrier_countP _ _ _ _ isEdgeInto_arrive, hpass.2]
    simp [Frame.isVisitOf]
    omega
  case pause via id _ _ _ _ =>
    have hpass := (passBarrier_arrivals (s := s) hj via id).2
    by_cases hid : id = j <;>
      simp [Event.isEdgeInto, Event.isArrivalAt, Frame.isVisitOf, hid,
        passBarrier_countP _ _ _ _ isEdgeInto_arrive] at hpass ⊢ <;> omega
  case enter via id _ _ _ _ _ _ hen =>
    have hpass := (passBarrier_arrivals (s := s) hj via id).2
    rw [hen.traversals, hen.arrivals.2]
    by_cases hid : id = j <;>
      simp [Event.isEdgeInto, Event.isArrivalAt, Frame.isVisitOf, hid,
        passBarrier_countP _ _ _ _ isEdgeInto_arrive] at hpass ⊢ <;> omega
  case resume hen =>
    rw [hen.traversals, hen.arrivals.2]
    simp [Event.isEdgeInto, Event.isArrivalAt, Frame.isVisitOf]
    omega
  case skip =>
    rw [traversalsInto, arrivalsAt, traversalsInto, arrivalsAt,
      markSubtreeSkipped_countP (by simp [Event.isEdgeInto]) (by simp [Event.isEdgeInto]),
      markSubtreeSkipped_countP (by simp [Event.isArrivalAt]) (by simp [Event.isArrivalAt])]
    simp [Frame.isVisitOf]
  case takeAll =>
    simp [Event.isEdgeInto, Event.isArrivalAt, Frame.isVisitOf, Function.comp_def]
    omega
  case walk e es =>
    by_cases he : e.target = j
    · simp [Event.isEdgeInto, Event.isArrivalAt, Frame.isVisitOf, he]
      omega
    · simp [Event.isEdgeInto, Event.isArrivalAt, Frame.isVisitOf, he]
  all_goals simp [Event.isEdgeInto, Event.isArrivalAt, Frame.isVisitOf, Function.comp_def]

theorem Enters.starts {v : Visit} (h : Enters g s v s' w) :
    s'.visited = s.visited ∧ startsOf j s'.events = startsOf j s.events ∧
      pausesAt j w.frames = 0 := by
  cases h <;>
    exact ⟨by simp, by simp [Event.isStartOf, Function.comp_def],
      by simp [Frame.isPausedAt, Function.comp_def]⟩

/-- A visited join is started, or about to be, and that once. -/
theorem Moves.starts (hm : Moves g s f s' w) (hj : g.isJoin j = true) (ha : s.aborted = false)
    (hf : f.repeats = false) :
    startsOf j s'.events + pausesAt j w.frames + (s.visited j).toNat =
      startsOf j s.events + pausesAt j {f} + (s'.visited j).toNat := by
  cases hm
  case pauseCut hcut => rw [ha] at hcut; cases hcut
  case pause via id _ _ hvisited _ =>
    by_cases hid : id = j
    · subst hid
      simp [Event.isStartOf, Frame.isPausedAt, hvisited, passBarrier_countP _ _ _ _ isStartOf_arrive]
    · simp [Event.isStartOf, Frame.isPausedAt, hid, Function.update_of_ne (Ne.symm hid),
        passBarrier_countP _ _ _ _ isStartOf_arrive]
  case enter via id _ _ _ hvisited _ _ hen =>
    obtain ⟨hvis, hstarts, hpauses⟩ := hen.starts (j := j)
    rw [hvis, hstarts, hpauses]
    by_cases hid : id = j
    · subst hid
      simp [Event.isStartOf, Frame.isPausedAt, hvisited, passBarrier_countP _ _ _ _ isStartOf_arrive]
    · simp [Event.isStartOf, Frame.isPausedAt, hid, Function.update_of_ne (Ne.symm hid),
        passBarrier_countP _ _ _ _ isStartOf_arrive]
  case resume id _ _ _ hen =>
    obtain ⟨hvis, hstarts, hpauses⟩ := hen.starts (j := j)
    rw [hvis, hstarts, hpauses]
    by_cases hid : id = j <;> simp [Event.isStartOf, Frame.isPausedAt, hid]
  case skip =>
    rw [startsOf, startsOf, markSubtreeSkipped_visited_join hj,
      markSubtreeSkipped_countP (by simp [Event.isStartOf]) (by simp [Event.isStartOf])]
    simp [Frame.isPausedAt]
  case iterate ht _ _ => simp [Frame.repeats, ht, NodeType.repeats] at hf
  case attempt ht _ _ => simp [Frame.repeats, ht, NodeType.repeats] at hf
  case poll ht _ _ => simp [Frame.repeats, ht, NodeType.repeats] at hf
  case pollQueued ht _ _ _ => simp [Frame.repeats, ht, NodeType.repeats] at hf
  case started =>
    rcases errorConfigVisit_cases g s with h | ⟨entry, h⟩ <;> simp [h, Frame.isPausedAt]
  case startCut => 
    rcases errorConfigVisit_cases g s with h | ⟨entry, h⟩ <;>
      simp [h, Frame.isPausedAt, Event.isStartOf]
  all_goals simp [Event.isStartOf, Frame.isPausedAt, Function.comp_def, passBarrier_countP _ _ _ _ isStartOf_arrive]

theorem Enters.aborted {v : Visit} (h : Enters g s v s' w) : s'.aborted = s.aborted := by
  cases h <;> simp

theorem Moves.aborted (hm : Moves g s f s' w) : s'.aborted = s.aborted := by
  cases hm
  case enter hen => simp [hen.aborted]
  case resume hen => simp [hen.aborted]
  all_goals simp

/-! ## What a step does to the barrier -/

/-- A skip that would lower the expected count of a waiting join to the
arrivals it has already: no further arrival is due, so the barrier is never
evaluated again. -/
def strands (g : Graph) (cause : NodeId) (e : WorkflowEdge) (s : RunState) (j : NodeId) : Bool :=
  decide (0 < s.joinArrived j) && !s.visited j &&
    decide ((markSubtreeSkipped g cause e s).incomingCount j ≤ s.joinArrived j)

/-- A join that has not run is still waiting for an arrival. -/
def Held (s : RunState) (j : NodeId) : Prop :=
  s.visited j = false → s.joinArrived j = 0 ∨ s.joinArrived j < s.incomingCount j

theorem resetBody_held (body : List NodeId) (h : Held s j) : Held (s.resetBody body) j := by
  unfold Held at h ⊢
  by_cases hbody : j ∈ body
  · simp [hbody]
  · simpa [hbody] using h

theorem Moves.held (hm : Moves g s f s' w) (hj : g.isJoin j = true)
    (hskip : ∀ v atOnce e skip take, f = .handler v (.skipping atOnce (e :: skip) take) →
      strands g v.node e s j = false)
    (h : Held s j) : Held s' j := by
  unfold Held at h ⊢
  cases hm
  case wait via id _ _ hwait =>
    by_cases hid : id = j
    · subst hid
      simp only [RunState.report_visited, RunState.arriveAt_visited, RunState.report_joinArrived,
        RunState.arriveAt_joinArrived, Function.update_self, RunState.report_incomingCount,
        RunState.arriveAt_incomingCount]
      exact fun _ => Or.inr hwait
    · simpa [Function.update_of_ne (Ne.symm hid)] using h
  case seen via id _ hvisited =>
    by_cases hid : id = j
    · subst hid
      simp [hvisited]
    · have hpass := (passBarrier_arrivals (s := s) hj via id).1
      simp only [hid, if_false, Nat.add_zero] at hpass
      simpa [hpass] using h
  case pause via id _ _ _ _ =>
    by_cases hid : id = j
    · subst hid
      simp
    · have hpass := (passBarrier_arrivals (s := s) hj via id).1
      simp only [hid, if_false, Nat.add_zero] at hpass
      simpa [hpass, Function.update_of_ne (Ne.symm hid)] using h
  case enter via id _ _ _ _ _ _ hen =>
    rw [hen.starts (j := j).1, hen.arrivals (j := j).1, hen.skips (j := j).1]
    by_cases hid : id = j
    · subst hid
      simp
    · have hpass := (passBarrier_arrivals (s := s) hj via id).1
      simp only [hid, if_false, Nat.add_zero] at hpass
      simpa [hpass, Function.update_of_ne (Ne.symm hid)] using h
  case resume hen =>
    rw [hen.starts (j := j).1, hen.arrivals (j := j).1, hen.skips (j := j).1]
    exact h
  case skip v atOnce e skip take =>
    have hkeep := hskip v atOnce e skip take rfl
    rw [markSubtreeSkipped_visited_join hj, markSubtreeSkipped_joinArrived]
    intro hvisited
    simp only [strands, hvisited, Bool.not_false, Bool.and_true, Bool.and_eq_false_iff,
      decide_eq_false_iff_not, not_le] at hkeep
    omega
  case iterate => exact resetBody_held _ h
  case attempt => exact resetBody_held _ h
  case poll => exact resetBody_held _ h
  case pollQueued => exact resetBody_held _ h
  all_goals simpa using h

/-- A join that has run had all the arrivals it waited for. -/
theorem Moves.fired (hm : Moves g s f s' w) (hj : g.isJoin j = true) (hf : f.repeats = false)
    (h : s.visited j = true → s.incomingCount j ≤ s.joinArrived j) :
    s'.visited j = true → s'.incomingCount j ≤ s'.joinArrived j := by
  cases hm
  case wait via id _ _ _ =>
    by_cases hid : id = j
    · subst hid
      simpa using fun hvisited => Nat.le_succ_of_le (h hvisited)
    · simpa [Function.update_of_ne (Ne.symm hid)] using h
  case seen via id _ _ =>
    rw [passBarrier_visited, passBarrier_incomingCount, (passBarrier_arrivals hj via id).1]
    exact fun hvisited => (h hvisited).trans (Nat.le_add_right _ _)
  case pause via id _ _ _ hbarrier =>
    have hpass := (passBarrier_arrivals (s := s) hj via id).1
    by_cases hid : id = j
    · subst hid
      simp [hpass]
      exact hbarrier hj
    · simp [hid] at hpass
      simpa [hpass, Function.update_of_ne (Ne.symm hid)] using h
  case enter via id _ _ _ _ _ hbarrier hen =>
    rw [hen.starts (j := j).1, hen.arrivals (j := j).1, hen.skips (j := j).1]
    have hpass := (passBarrier_arrivals (s := s) hj via id).1
    by_cases hid : id = j
    · subst hid
      simp [hpass]
      exact hbarrier hj
    · simp [hid] at hpass
      simpa [hpass, Function.update_of_ne (Ne.symm hid)] using h
  case resume hen =>
    rw [hen.starts (j := j).1, hen.arrivals (j := j).1, hen.skips (j := j).1]
    exact h
  case skip v _ e _ _ =>
    rw [markSubtreeSkipped_visited_join hj, markSubtreeSkipped_joinArrived]
    exact fun hvisited => (markSubtreeSkipped_incomingCount_le g v.node e s j).trans (h hvisited)
  case iterate ht _ _ => simp [Frame.repeats, ht, NodeType.repeats] at hf
  case attempt ht _ _ => simp [Frame.repeats, ht, NodeType.repeats] at hf
  case poll ht _ _ => simp [Frame.repeats, ht, NodeType.repeats] at hf
  case pollQueued ht _ _ _ => simp [Frame.repeats, ht, NodeType.repeats] at hf
  all_goals simpa using h

/-! ## Graphs without repeated bodies -/

theorem Enters.repeats {v : Visit} (h : Enters g s v s' w) (hv : v.type.repeats = false) :
    tally Frame.repeats w.frames = 0 := by
  cases h <;> simp [Frame.repeats, hv, Function.comp_def]

theorem Moves.repeats (hm : Moves g s f s' w)
    (hplain : ∀ n ∈ g.nodes, n.type.repeats = false) (hf : f.repeats = false) :
    tally Frame.repeats w.frames = 0 := by
  cases hm
  case started => rcases errorConfigVisit_cases g s with h | ⟨entry, h⟩ <;> simp [h, Frame.repeats]
  case startCut => rcases errorConfigVisit_cases g s with h | ⟨entry, h⟩ <;> simp [h, Frame.repeats]
  case enter hnode _ hen => exact hen.repeats (hplain _ (mem_of_nodeMap hnode))
  case resume hnode hen => exact hen.repeats (hplain _ (mem_of_nodeMap hnode))
  all_goals
    simp only [Frame.repeats] at hf
    simp [Frame.repeats, hf, Function.comp_def]

end Steps

/-! ## The invariant -/

/-- What holds of the join `j` in every state of a run without an abort. -/
structure JoinInv (g : Graph) (j : NodeId) (s : RunState) (frames : Multiset Frame) : Prop where
  aborted : s.aborted = false
  plain : tally Frame.repeats frames = 0
  expected : s.incomingCount j = expectedArrivals g j s.events
  arrivals : s.joinArrived j = arrivalsAt j s.events
  traversals : traversalsInto j s.events ≤ arrivalsAt j s.events + visitsOf j frames
  starts : startsOf j s.events + pausesAt j frames = (s.visited j).toNat
  held : Held s j
  fired : s.visited j = true → s.incomingCount j ≤ s.joinArrived j

theorem JoinInv.step {g : Graph} {j : NodeId} {s s' : RunState} {f : Frame} {w : Work}
    {rest : Multiset Frame} (h : JoinInv g j s (f ::ₘ rest)) (hm : Moves g s f s' w)
    (hj : g.isJoin j = true) (hplain : ∀ n ∈ g.nodes, n.type.repeats = false)
    (hskip : ∀ v atOnce e skip take, f = .handler v (.skipping atOnce (e :: skip) take) →
      strands g v.node e s j = false) :
    JoinInv g j s' (rest + w.frames) := by
  have hf : f.repeats = false := tally_eq_zero.mp h.plain f (Multiset.mem_cons_self f rest)
  have hrest : tally Frame.repeats rest = 0 := by
    have := h.plain
    rw [tally_cons] at this
    omega
  have harr : s'.joinArrived j + arrivalsAt j s.events
      = s.joinArrived j + arrivalsAt j s'.events := by
    rcases hm.arrivals hj with harr | ⟨-, hrep, -⟩
    · exact harr
    · rw [hf] at hrep; cases hrep
  have htrav := hm.traversals hj h.aborted
  have hstarts := hm.starts hj h.aborted hf
  have htrav₀ := h.traversals
  have hstarts₀ := h.starts
  simp only [visitsOf, pausesAt, tally_cons, tally_singleton] at htrav hstarts htrav₀ hstarts₀
  refine ⟨hm.aborted.trans h.aborted, ?_, hm.expected hj h.expected, ?_, ?_, ?_,
    hm.held hj hskip h.held, hm.fired hj hf h.fired⟩
  · rw [tally_add, hrest, hm.repeats hplain hf]
  · have := h.arrivals
    omega
  · rw [visitsOf, tally_add]
    omega
  · rw [pausesAt, tally_add]
    omega

/-! ## Resolved edges -/

/-- The event takes the edge, or skips it. -/
def Event.resolves (e : WorkflowEdge) : Event → Bool
  | .edge e' => e' == e
  | .skip _ e' => e' == e
  | _ => false

def Event.resolvedInto (j : NodeId) : Event → Option WorkflowEdge
  | .edge e => if e.target = j then some e else none
  | .skip _ e => if e.target = j then some e else none
  | _ => none

theorem resolvedInto_length (j : NodeId) (events : List Event) :
    (events.filterMap (Event.resolvedInto j)).length
      = traversalsInto j events + skipsInto j events := by
  induction events with
  | nil => rfl
  | cons x events ih =>
      simp only [traversalsInto, skipsInto, List.filterMap_cons, List.countP_cons] at ih ⊢
      cases x with
      | edge e => by_cases he : e.target = j <;>
          simp [Event.resolvedInto, Event.isEdgeInto, Event.isSkipInto, he] <;> omega
      | skip cause e => by_cases he : e.target = j <;>
          simp [Event.resolvedInto, Event.isEdgeInto, Event.isSkipInto, he] <;> omega
      | _ => simpa [Event.resolvedInto, Event.isEdgeInto, Event.isSkipInto] using ih

theorem count_resolvedInto {e : WorkflowEdge} {j : NodeId} (he : e.target = j)
    (events : List Event) :
    (events.filterMap (Event.resolvedInto j)).count e = events.countP (Event.resolves e) := by
  induction events with
  | nil => rfl
  | cons x events ih =>
      simp only [List.filterMap_cons, List.countP_cons]
      cases x with
      | edge e' =>
          by_cases hee : e' = e
          · subst hee
            simp [Event.resolvedInto, Event.resolves, he, ih]
          · by_cases he' : e'.target = j <;> simp [Event.resolvedInto, Event.resolves, hee, he', ih]
      | skip cause e' =>
          by_cases hee : e' = e
          · subst hee
            simp [Event.resolvedInto, Event.resolves, he, ih]
          · by_cases he' : e'.target = j <;> simp [Event.resolvedInto, Event.resolves, hee, he', ih]
      | _ => simp [Event.resolvedInto, Event.resolves, ih]

/-- If each incoming edge is resolved, there are as many traversals and skips
as incoming edges. -/
theorem incoming_le_resolved {g : Graph} {j : NodeId} {events : List Event}
    (h : ∀ e ∈ g.incoming j, (g.incoming j).count e ≤ events.countP (Event.resolves e)) :
    (g.incoming j).length ≤ traversalsInto j events + skipsInto j events := by
  rw [← resolvedInto_length]
  refine List.Subperm.length_le (List.subperm_ext_iff.mpr (fun e he => ?_))
  have htarget : e.target = j := by simpa using (List.mem_filter.mp he).2
  rw [count_resolvedInto htarget]
  exact h e he

/-! ## Every resolved join runs -/

/-- The next call of `markSubtreeSkipped` leaves no waiting join without a
further arrival. -/
def keepsWaitingJoins (g : Graph) : Choice → Config → Bool
  | .step path _, c =>
      match c.work.redex [] path with
      | some (_, .handler v (.skipping _ (e :: _) _)) =>
          g.nodes.all (fun n => !(g.isJoin n.id && strands g v.node e c.state n.id))
      | _ => true
  | _, _ => true

/-- Some visit is called, held, or has not returned. -/
def Frame.inProgress : Frame → Bool
  | .main _ | .final => false
  | _ => true

theorem initial_joinInv (g : Graph) (q : Option Semaphore) (j : NodeId) :
    JoinInv g j (initial g q false).state (initial g q false).work.frames := by
  unfold initial
  split
  · refine ⟨rfl, rfl, rfl, rfl, ?_, rfl, fun _ => Or.inl rfl, fun h => by cases h⟩
    simp
  · refine ⟨rfl, ?_, ?_, ?_, ?_, ?_, fun _ => Or.inl rfl, fun h => by cases h⟩ <;>
      simp [initialState, expectedArrivals, Frame.repeats, Frame.isVisitOf, Frame.isPausedAt,
        Event.isSkipInto, Event.isArrivalAt, Event.isEdgeInto, Event.isStartOf, Function.comp_def]

theorem strands_eq_false {g : Graph} {path : List Side} {env : Env} {c : Config}
    (h : keepsWaitingJoins g (.step path env) c = true) {anc : List Frame} {v : Visit}
    {atOnce : Bool} {e : WorkflowEdge} {skip take : List WorkflowEdge}
    (hredex : c.work.redex [] path = some (anc, .handler v (.skipping atOnce (e :: skip) take)))
    {j : NodeId} (hj : g.isJoin j = true) : strands g v.node e c.state j = false := by
  simp only [keepsWaitingJoins, hredex, List.all_eq_true] at h
  obtain ⟨n, hn, rfl⟩ := exists_of_isJoin hj
  simpa [hj] using h n hn

theorem run_joinInv {g : Graph} (hplain : ∀ n ∈ g.nodes, n.type.repeats = false)
    {q : Option Semaphore} {ls : List Choice} {c : Config} {j : NodeId}
    (hok : AllSteps (next g) (fun ch c => ch ≠ .abort ∧ keepsWaitingJoins g ch c = true)
      (initial g q false) ls)
    (hrun : exec (next g) (initial g q false) ls = some c) (hj : g.isJoin j = true) :
    JoinInv g j c.state c.work.frames := by
  refine exec_invariant (I := fun c => JoinInv g j c.state c.work.frames)
    (fun ch c c' h hok hnext => ?_) (initial_joinInv g q j) hok hrun
  cases ch with
  | abort => exact absurd rfl hok.1
  | polls q =>
      cases hnext
      exact ⟨h.aborted, h.plain, h.expected, h.arrivals, h.traversals, h.starts, h.held, h.fired⟩
  | step path env =>
      obtain ⟨anc, f, rest, w, hredex, hm, hframes, hframes'⟩ := next_step_moves hnext
      rw [hframes']
      refine JoinInv.step (hframes ▸ h) hm hj hplain (fun v atOnce e skip take hf => ?_)
      exact strands_eq_false hok.2 (hf ▸ hredex) hj

/-- **The join barrier.**  In a graph without repeated bodies, in every run
without an abort in which no skip strands a waiting join: once no visit is in
progress, a join has run exactly once if and only if it was reached and its
arrivals and skipped edges add up to its incoming edges, in whatever order they
came; and so every join that was reached, and each of whose incoming edges was
traversed or skipped, has run exactly once. -/
theorem resolved_join_runs (g : Graph) (hplain : ∀ n ∈ g.nodes, n.type.repeats = false)
    (q : Option Semaphore) (ls : List Choice) (c : Config)
    (hok : AllSteps (next g) (fun ch c => ch ≠ .abort ∧ keepsWaitingJoins g ch c = true)
      (initial g q false) ls)
    (hrun : exec (next g) (initial g q false) ls = some c)
    (hquiet : ∀ f ∈ c.work.frames, f.inProgress = false) (j : NodeId) (hj : g.isJoin j = true) :
    (startsOf j c.state.events = 1 ↔ 0 < arrivalsAt j c.state.events ∧
      (g.incoming j).length ≤ arrivalsAt j c.state.events + skipsInto j c.state.events) ∧
    (0 < arrivalsAt j c.state.events →
      (∀ e ∈ g.incoming j,
        (g.incoming j).count e ≤ c.state.events.countP (Event.resolves e)) →
      startsOf j c.state.events = 1) := by
  have h := run_joinInv hplain hok hrun hj
  have hvisits : visitsOf j c.work.frames = 0 := tally_eq_zero.mpr (fun f hf => by
    have := hquiet f hf
    cases f <;> simp_all [Frame.inProgress, Frame.isVisitOf])
  have hpauses : pausesAt j c.work.frames = 0 := tally_eq_zero.mpr (fun f hf => by
    have := hquiet f hf
    cases f <;> simp_all [Frame.inProgress, Frame.isPausedAt])
  have hstarts := h.starts
  have htrav := h.traversals
  have hexpected := h.expected
  have harr := h.arrivals
  unfold expectedArrivals at hexpected
  have hiff : startsOf j c.state.events = 1 ↔ 0 < arrivalsAt j c.state.events ∧
      (g.incoming j).length ≤ arrivalsAt j c.state.events + skipsInto j c.state.events := by
    cases hvisited : c.state.visited j with
    | true =>
        have hfired := h.fired hvisited
        rw [hvisited, Bool.toNat_true] at hstarts
        constructor
        · intro _
          omega
        · intro _
          omega
    | false =>
        have hheld := h.held hvisited
        rw [hvisited, Bool.toNat_false] at hstarts
        constructor
        · intro _
          omega
        · rintro ⟨hpos, hall⟩
          omega
  refine ⟨hiff, fun hpos hall => hiff.mpr ⟨hpos, ?_⟩⟩
  have hres := incoming_le_resolved hall
  omega

/-! ### A fork with a direct edge to the join and a condition -/

def forkAndCondition : Graph where
  nodes := [⟨"start", .action .start⟩, ⟨"fork", .fork⟩, ⟨"cond", .condition⟩,
    ⟨"other", .action .delay⟩, ⟨"join", .join⟩]
  edges := [⟨"e0", "start", "fork", none, none⟩, ⟨"e1", "fork", "join", none, none⟩,
    ⟨"e2", "fork", "cond", none, none⟩, ⟨"e3", "cond", "join", some "true", none⟩,
    ⟨"e4", "cond", "other", some "false", none⟩]
  handlerEntryNodeId := none
  debugController := false

/-- The start node and the fork, up to the two branches. -/
def upToFork : List Choice := stepsAt {} [] 5

/-- The condition does not hold: it skips its edge to the join. -/
def conditionBranch : List Choice :=
  stepsAt { holds := false } [.right, .left] 3 ++ stepsAt {} [.right, .left, .left] 3 ++
    stepsAt {} [.right, .left] 1

/-- The skip comes first, then the direct edge arrives: the join runs. -/
def skipFirst : List Choice :=
  upToFork ++ conditionBranch ++ stepsAt {} [.left] 2 ++ stepsAt {} [] 4

theorem resolved_join_runs_skipFirst :
    ∃ c, exec (next forkAndCondition) (initial forkAndCondition none false) skipFirst = some c ∧
      startsOf "join" c.state.events = 1 := by
  have hreach : ∃ c, exec (next forkAndCondition) (initial forkAndCondition none false) skipFirst
        = some c ∧ c.work = .done ∧ 0 < arrivalsAt "join" c.state.events ∧
      ∀ e ∈ forkAndCondition.incoming "join",
        (forkAndCondition.incoming "join").count e ≤ c.state.events.countP (Event.resolves e) :=
    exists_exec (by decide)
  obtain ⟨c, hrun, hquiet, harr, hres⟩ := hreach
  refine ⟨c, hrun, (resolved_join_runs forkAndCondition (by decide) none skipFirst c (by decide)
    hrun ?_ "join" (by decide)).2 harr hres⟩
  intro f hf
  rw [hquiet] at hf
  cases hf

/-- The direct edge arrives first, then the last missing edge is skipped: the
run completes, but the join, all of whose edges are resolved, never runs. -/
def arrivalFirst : List Choice :=
  upToFork ++ stepsAt {} [.left] 1 ++ conditionBranch ++ stepsAt {} [] 4

theorem resolved_join_never_runs :
    (∀ n ∈ forkAndCondition.nodes, n.type.repeats = false) ∧
    (∀ e ∈ forkAndCondition.edges, (forkAndCondition.nodes.map WorkflowNode.id).idxOf e.source <
      (forkAndCondition.nodes.map WorkflowNode.id).idxOf e.target) ∧
    (∀ ch ∈ arrivalFirst, ch ≠ .abort) ∧ forkAndCondition.isJoin "join" = true ∧
    ∃ c, exec (next forkAndCondition) (initial forkAndCondition none false) arrivalFirst = some c ∧
      c.work = .done ∧ 0 < arrivalsAt "join" c.state.events ∧
      (∀ e ∈ forkAndCondition.incoming "join",
        (forkAndCondition.incoming "join").count e ≤ c.state.events.countP (Event.resolves e)) ∧
      startsOf "join" c.state.events = 0 :=
  ⟨by decide, by decide, by decide, by decide, exists_exec (by decide)⟩

end RedFireForge.Workflow
