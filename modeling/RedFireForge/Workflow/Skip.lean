/-
# `RedFireForge.Workflow.Skip` — `markSubtreeSkipped`

The source recurses over the outgoing edges of a node it marks.  Here the calls
still to be made are a list and the rounds are counted, so that a step of a run
evaluates; `markSubtreeSkipped_eq` is the source's own recursion, and
`markSubtreeSkipped_induction` the rule by which everything else about it is
proved: what every single call preserves, the whole call preserves.
-/
import RedFireForge.Workflow.State

namespace RedFireForge.Workflow

/-- One call, up to its recursive ones: the new state, and the edges it recurses
over. -/
def skipCall (g : Graph) (cause : NodeId) (e : WorkflowEdge) (s : RunState) :
    RunState × List WorkflowEdge :=
  let s := s.log (.skip cause e)
  if g.isJoin e.target then (s.lowerCount e.target, [])
  else if s.incomingCount e.target > 1 then (s.lowerCount e.target, [])
  else if s.visited e.target then (s, [])
  else ((s.addVisited e.target).report e.target .skipped, g.outgoing e.target)

/-- The calls `markSubtreeSkipped` makes, depth first. -/
def skipLoop (g : Graph) (cause : NodeId) : ℕ → List WorkflowEdge → RunState → RunState
  | 0, _, s => s
  | _ + 1, [], s => s
  | fuel + 1, e :: rest, s =>
      skipLoop g cause fuel ((skipCall g cause e s).2 ++ rest) (skipCall g cause e s).1

/-- `markSubtreeSkipped(e.target, …)`, called by the handler of `cause`.  Every
edge is put on the list at most once, when its source is marked. -/
def markSubtreeSkipped (g : Graph) (cause : NodeId) (e : WorkflowEdge) (s : RunState) : RunState :=
  skipLoop g cause (g.edges.length + 2) [e] s

/-! ## The rounds suffice -/

/-- The calls on the list, and those the list may still receive. -/
def skipWork (g : Graph) (es : List WorkflowEdge) (s : RunState) : ℕ :=
  es.length + (pendingEdges g s.visited).length

theorem skipWork_skipCall (g : Graph) (cause : NodeId) (e : WorkflowEdge)
    (rest : List WorkflowEdge) (s : RunState) :
    skipWork g ((skipCall g cause e s).2 ++ rest) (skipCall g cause e s).1 + 1
      = skipWork g (e :: rest) s := by
  unfold skipCall skipWork
  by_cases hjoin : g.isJoin e.target = true
  · simp [hjoin]
    omega
  · by_cases hcount : s.incomingCount e.target > 1
    · simp [hjoin, hcount]
      omega
    · by_cases hseen : s.visited e.target = true
      · simp [hjoin, hcount, hseen]
        omega
      · have hpend := pendingEdges_insert g s.visited
          (Function.update s.visited e.target true) e.target
          (by simpa using hseen) (fun m => by by_cases hm : m = e.target <;> simp [hm])
        simp [hjoin, hcount, hseen]
        omega

/-- More rounds than there is work change nothing. -/
theorem skipLoop_fuel {g : Graph} {cause : NodeId} :
    ∀ (fuel fuel' : ℕ) {es : List WorkflowEdge} {s : RunState}, skipWork g es s ≤ fuel →
      skipWork g es s ≤ fuel' → skipLoop g cause fuel es s = skipLoop g cause fuel' es s
  | 0, 0, _, _, _, _ => rfl
  | 0, _ + 1, [], _, _, _ => rfl
  | _ + 1, 0, [], _, _, _ => rfl
  | _ + 1, _ + 1, [], _, _, _ => rfl
  | 0, _, e :: es, s, h, _ => by simp [skipWork] at h
  | _, 0, e :: es, s, _, h => by simp [skipWork] at h
  | fuel + 1, fuel' + 1, e :: es, s, h, h' => by
      have hwork := skipWork_skipCall g cause e es s
      exact skipLoop_fuel fuel fuel' (by omega) (by omega)

theorem skipLoop_nil (g : Graph) (cause : NodeId) (s : RunState) :
    ∀ fuel, skipLoop g cause fuel [] s = s
  | 0 => rfl
  | _ + 1 => rfl

/-- A list of calls, one after the other. -/
def skipEdges (g : Graph) (cause : NodeId) (es : List WorkflowEdge) (s : RunState) : RunState :=
  skipLoop g cause (skipWork g es s) es s

theorem skipEdges_nil (g : Graph) (cause : NodeId) (s : RunState) : skipEdges g cause [] s = s :=
  skipLoop_nil g cause s _

theorem skipEdges_cons (g : Graph) (cause : NodeId) (e : WorkflowEdge) (es : List WorkflowEdge)
    (s : RunState) :
    skipEdges g cause (e :: es) s =
      skipEdges g cause ((skipCall g cause e s).2 ++ es) (skipCall g cause e s).1 := by
  simp only [skipEdges, ← skipWork_skipCall g cause e es s, skipLoop]

theorem markSubtreeSkipped_eq_skipEdges (g : Graph) (cause : NodeId) (e : WorkflowEdge)
    (s : RunState) : markSubtreeSkipped g cause e s = skipEdges g cause [e] s := by
  have hpend := pendingEdges_length_le g s.visited
  refine skipLoop_fuel _ _ ?_ (Nat.le_refl _)
  simp only [skipWork, List.length_singleton]
  omega

theorem skipEdges_append {g : Graph} {cause : NodeId} :
    ∀ (n : ℕ) {es es' : List WorkflowEdge} {s : RunState}, skipWork g es s ≤ n →
      skipEdges g cause (es ++ es') s = skipEdges g cause es' (skipEdges g cause es s)
  | _, [], es', s, _ => by rw [skipEdges_nil, List.nil_append]
  | 0, e :: es, _, s, h => by simp [skipWork] at h
  | n + 1, e :: es, es', s, h => by
      have hwork := skipWork_skipCall g cause e es s
      rw [List.cons_append, skipEdges_cons, ← List.append_assoc,
        skipEdges_append n (by omega), ← skipEdges_cons]

theorem skipEdges_eq_foldl (g : Graph) (cause : NodeId) (es : List WorkflowEdge) (s : RunState) :
    skipEdges g cause es s = es.foldl (fun s e => markSubtreeSkipped g cause e s) s := by
  induction es generalizing s with
  | nil => exact skipEdges_nil g cause s
  | cons e es ih =>
      rw [← List.singleton_append, skipEdges_append _ (Nat.le_refl _), ← markSubtreeSkipped_eq_skipEdges,
        ih, List.singleton_append, List.foldl_cons]

/-- **The recursion of the source**: a call that marks its node goes on to the
nodes behind it, in the order of the edges. -/
theorem markSubtreeSkipped_eq (g : Graph) (cause : NodeId) (e : WorkflowEdge) (s : RunState) :
    markSubtreeSkipped g cause e s =
      (skipCall g cause e s).2.foldl (fun s e => markSubtreeSkipped g cause e s)
        (skipCall g cause e s).1 := by
  rw [markSubtreeSkipped_eq_skipEdges, skipEdges_cons, List.append_nil, skipEdges_eq_foldl]

/-! ## What a call preserves -/

theorem skipLoop_induction {g : Graph} {cause : NodeId} {P : RunState → Prop}
    (hcall : ∀ e s, P s → P (skipCall g cause e s).1) :
    ∀ (fuel : ℕ) {es : List WorkflowEdge} {s : RunState}, P s → P (skipLoop g cause fuel es s)
  | 0, _, _, h => h
  | _ + 1, [], _, h => h
  | fuel + 1, e :: _, s, h => skipLoop_induction hcall fuel (hcall e s h)

/-- What one call preserves, `markSubtreeSkipped` preserves. -/
theorem markSubtreeSkipped_induction {g : Graph} {cause : NodeId} {P : RunState → Prop}
    (hcall : ∀ e s, P s → P (skipCall g cause e s).1) (e : WorkflowEdge) {s : RunState}
    (h : P s) : P (markSubtreeSkipped g cause e s) :=
  skipLoop_induction hcall _ h

/-- The three things a call can do. -/
theorem skipCall_cases (g : Graph) (cause : NodeId) (e : WorkflowEdge) (s : RunState) :
    ((skipCall g cause e s).1 = (s.log (.skip cause e)).lowerCount e.target ∧
        (g.isJoin e.target = true ∨ s.incomingCount e.target > 1)) ∨
      ((skipCall g cause e s).1 = s.log (.skip cause e) ∧ g.isJoin e.target = false) ∨
      ((skipCall g cause e s).1 =
          ((s.log (.skip cause e)).addVisited e.target).report e.target .skipped ∧
        g.isJoin e.target = false ∧ s.visited e.target = false) := by
  unfold skipCall
  by_cases hjoin : g.isJoin e.target = true
  · simp [hjoin]
  · by_cases hcount : s.incomingCount e.target > 1
    · simp [hjoin, hcount]
    · by_cases hseen : s.visited e.target = true
      · simp [hjoin, hcount, hseen]
      · simp [hjoin, hcount, hseen]

/-- A property of the fields no call writes. -/
theorem markSubtreeSkipped_frame {α : Type} (field : RunState → α)
    (hlog : ∀ s es, field (RunState.logAll s es) = field s)
    (hlower : ∀ s n, field (RunState.lowerCount s n) = field s)
    (hadd : ∀ s n, field (RunState.addVisited s n) = field s)
    (g : Graph) (cause : NodeId) (e : WorkflowEdge) (s : RunState) :
    field (markSubtreeSkipped g cause e s) = field s := by
  refine markSubtreeSkipped_induction (P := fun t => field t = field s) (fun e t ht => ?_) e rfl
  rcases skipCall_cases g cause e t with ⟨h, -⟩ | ⟨h, -⟩ | ⟨h, -⟩
  · rw [h, hlower]
    exact (hlog t [.skip cause e]).trans ht
  · rw [h]
    exact (hlog t [.skip cause e]).trans ht
  · rw [h]
    refine (hlog _ [.state e.target .skipped]).trans ?_
    rw [hadd]
    exact (hlog t [.skip cause e]).trans ht

section Frame

variable (g : Graph) (cause : NodeId) (e : WorkflowEdge) (s : RunState)

@[simp] theorem markSubtreeSkipped_joinArrived :
    (markSubtreeSkipped g cause e s).joinArrived = s.joinArrived :=
  markSubtreeSkipped_frame _ (by simp) (by simp) (by simp) g cause e s

@[simp] theorem markSubtreeSkipped_results :
    (markSubtreeSkipped g cause e s).results = s.results :=
  markSubtreeSkipped_frame _ (by simp) (by simp) (by simp) g cause e s

@[simp] theorem markSubtreeSkipped_allPassed :
    (markSubtreeSkipped g cause e s).allPassed = s.allPassed :=
  markSubtreeSkipped_frame _ (by simp) (by simp) (by simp) g cause e s

@[simp] theorem markSubtreeSkipped_aborted :
    (markSubtreeSkipped g cause e s).aborted = s.aborted :=
  markSubtreeSkipped_frame _ (by simp) (by simp) (by simp) g cause e s

@[simp] theorem markSubtreeSkipped_pollSemaphore :
    (markSubtreeSkipped g cause e s).pollSemaphore = s.pollSemaphore :=
  markSubtreeSkipped_frame _ (by simp) (by simp) (by simp) g cause e s

@[simp] theorem markSubtreeSkipped_completed :
    (markSubtreeSkipped g cause e s).completed = s.completed :=
  markSubtreeSkipped_frame _ (by simp) (by simp) (by simp) g cause e s

end Frame

/-- Only nodes that are not joins are marked. -/
theorem markSubtreeSkipped_visited_join {g : Graph} {j : NodeId} (hj : g.isJoin j = true)
    (cause : NodeId) (e : WorkflowEdge) (s : RunState) :
    (markSubtreeSkipped g cause e s).visited j = s.visited j := by
  refine markSubtreeSkipped_induction (P := fun t => t.visited j = s.visited j)
    (fun e t ht => ?_) e rfl
  rcases skipCall_cases g cause e t with ⟨h, -⟩ | ⟨h, -⟩ | ⟨h, hne, -⟩
  · simpa [h] using ht
  · simpa [h] using ht
  · have hjne : j ≠ e.target := fun heq => by rw [heq, hne] at hj; cases hj
    simpa [h, Function.update_of_ne hjne] using ht

/-- Expected counts only go down. -/
theorem markSubtreeSkipped_incomingCount_le (g : Graph) (cause : NodeId) (e : WorkflowEdge)
    (s : RunState) (n : NodeId) :
    (markSubtreeSkipped g cause e s).incomingCount n ≤ s.incomingCount n := by
  refine markSubtreeSkipped_induction (P := fun t => t.incomingCount n ≤ s.incomingCount n)
    (fun e t ht => ?_) e (Nat.le_refl _)
  rcases skipCall_cases g cause e t with ⟨h, -⟩ | ⟨h, -⟩ | ⟨h, -⟩
  · by_cases hc : t.incomingCount e.target > 1
    · by_cases hn : n = e.target
      · subst hn
        simp [h, hc]
        omega
      · simpa [h, hc, Function.update_of_ne hn] using ht
    · simpa [h, hc] using ht
  · simpa [h] using ht
  · simpa [h] using ht

/-- What a call logs. -/
inductive SkipNote (g : Graph) (cause : NodeId) : Event → Prop
  | skip (e : WorkflowEdge) : SkipNote g cause (.skip cause e)
  | state {n : NodeId} : g.isJoin n = false → SkipNote g cause (.state n .skipped)

theorem markSubtreeSkipped_events (g : Graph) (cause : NodeId) (e : WorkflowEdge)
    (s : RunState) :
    ∃ notes, (markSubtreeSkipped g cause e s).events = s.events ++ notes ∧
      ∀ x ∈ notes, SkipNote g cause x := by
  refine markSubtreeSkipped_induction
    (P := fun t => ∃ notes, t.events = s.events ++ notes ∧ ∀ x ∈ notes, SkipNote g cause x)
    (fun e t ht => ?_) e ⟨[], by simp, by simp⟩
  obtain ⟨notes, ht, hnotes⟩ := ht
  have hskip : ∀ x ∈ notes ++ [Event.skip cause e], SkipNote g cause x := by
    intro x hx
    rcases List.mem_append.mp hx with hx | hx
    · exact hnotes x hx
    · exact List.mem_singleton.mp hx ▸ .skip e
  rcases skipCall_cases g cause e t with ⟨h, -⟩ | ⟨h, -⟩ | ⟨h, hne, -⟩
  · exact ⟨notes ++ [.skip cause e], by simp [h, ht], hskip⟩
  · exact ⟨notes ++ [.skip cause e], by simp [h, ht], hskip⟩
  · refine ⟨(notes ++ [.skip cause e]) ++ [.state e.target .skipped], by simp [h, ht], ?_⟩
    intro x hx
    rcases List.mem_append.mp hx with hx | hx
    · exact hskip x hx
    · exact List.mem_singleton.mp hx ▸ .state hne

end RedFireForge.Workflow
