/-
# `RedFireForge.Workflow.ErrorHandling` — what an error handler takes for a failure

An error handler never looks at the states of its body.  It looks at the slice
of `results` that was pushed while the body ran, and every branch of the run
pushes to the same array.  `bodyFailed` is what it ought to know: whether some
node of the body was left in state `fail` by the attempt.  The two agree as long
as each step keeps them together (`Attempt.sees`), and then the catch path is
taken exactly when the last attempt left a node of the body failed.
-/
import RedFireForge.Workflow.Loops

namespace RedFireForge.Workflow

open RedFireForge.Lib

/-! ## Attempts in progress -/

/-- An attempt of the error handler `node`: the lengths of `results` and of the
log when it began. -/
structure Attempt where
  node : NodeId
  pre : ℕ
  mark : ℕ
deriving DecidableEq, Repr

/-- The handler awaits the body of an attempt. -/
def Frame.attempt? : Frame → Option Attempt
  | .handler v (.walking (.attempted _ pre mark) _) => some ⟨v.node, pre, mark⟩
  | _ => none

/-- An action node whose pushed results tell a failure it has not reported. -/
def Frame.failing? : Frame → Option NodeId
  | .handler v .acting => if v.pushed = some false then some v.node else none
  | _ => none

/-- `bodyResults.find(r => !r.passed)` finds one. -/
def failedSince (pre : ℕ) (results : List RequestResult) : Bool :=
  (results.drop pre).any (fun r => !r.passed)

def Attempt.body (g : Graph) (a : Attempt) : List NodeId := errorBodyNodeIds g a.node

/-- The attempt so far left a node of the body failed. -/
def Attempt.failed (g : Graph) (a : Attempt) (s : RunState) : Bool :=
  bodyFailed (a.body g) (s.events.drop a.mark)

/-- A failed result comes from a node of the body, and none of them is followed
by a passed one of the same visit (`http` passes only if all of them do). -/
def Frame.pushSeen (body : List NodeId) (r : RequestResult) : Frame → Bool
  | .handler v .acting =>
      if r.passed then
        !body.contains v.node || v.pushed != some false || v.type == .action .http
      else body.contains v.node
  | _ => true

/-- A node of the body reports `fail` only with a failed result in the slice, and
another state only if it has not failed. -/
def Event.reportSeen (g : Graph) (a : Attempt) (s : RunState) (f : Frame) : Event → Bool
  | .state m .fail => !(a.body g).contains m || failedSince a.pre s.results
  | .state m _ =>
      !(a.body g).contains m ||
        (lastState m (s.events.drop a.mark) != some .fail && f.failing? != some m)
  | _ => true

/-- What a step of the frame `f` pushes and reports keeps the slice of the
attempt and the states of its body together. -/
def Attempt.sees (g : Graph) (a : Attempt) (f : Frame) (s s' : RunState) : Bool :=
  (s'.results.drop s.results.length).all (fun r => f.pushSeen (a.body g) r) &&
    (s'.events.drop s.events.length).all (fun x => x.reportSeen g a s f)

/-- No visit of a node of the body, by another branch, has a failure to report
when the attempt ends; and the first attempt is not given up before it began. -/
def Frame.endSeen (g : Graph) (s : RunState) (frames : Multiset Frame) : Frame → Bool
  | .handler v (.walking (.attempted _ _ _) []) =>
      decide (∀ f ∈ frames, f.failing?.all (fun m => !(errorBodyNodeIds g v.node).contains m) = true)
  | .handler v (.tryTest 0 _) =>
      match v.type with
      | .errorHandler d => !s.aborted && decide (0 ≤ d.maxRetries)
      | _ => true
  | _ => true

/-- Every attempt in progress sees what the step does. -/
def failuresSeen (g : Graph) : Choice → Config → Bool
  | .step path env, c =>
      match c.work.redex [] path, next g (.step path env) c with
      | some (_, f), some c' =>
          f.endSeen g c.state c.work.frames &&
            decide (∀ f' ∈ c.work.frames,
              f'.attempt?.all (fun a => a.sees g f c.state c'.state) = true)
      | _, _ => true
  | _, _ => true

/-! ## The last state of a node -/

/-- The state an event reports for `n`. -/
def Event.stateOf (n : NodeId) : Event → Option RunStatus
  | .state m st => if m = n then some st else none
  | _ => none

theorem lastState_cons (n : NodeId) (x : Event) (xs : List Event) :
    lastState n (x :: xs) = (lastState n xs).or (x.stateOf n) := by
  rw [lastState.eq_def]
  cases h : lastState n xs <;> cases x <;> simp [h, Event.stateOf]

theorem lastState_append (n : NodeId) (xs ys : List Event) :
    lastState n (xs ++ ys) = (lastState n ys).or (lastState n xs) := by
  induction xs with
  | nil => simp [lastState]
  | cons x xs ih => rw [List.cons_append, lastState_cons, ih, lastState_cons, Option.or_assoc]

/-- The last state of a node was reported. -/
theorem mem_of_lastState {n : NodeId} {st : RunStatus} {xs : List Event}
    (h : lastState n xs = some st) : .state n st ∈ xs := by
  induction xs with
  | nil => cases h
  | cons x xs ih =>
      rw [lastState_cons, Option.or_eq_some_iff] at h
      rcases h with h | ⟨-, h⟩
      · exact List.mem_cons_of_mem _ (ih h)
      · cases x with
        | state m st' =>
            obtain ⟨rfl, rfl⟩ : m = n ∧ st' = st := by simpa [Event.stateOf] using h
            exact List.mem_cons_self
        | _ => cases h

theorem bodyFailed_iff {body : List NodeId} {log : List Event} :
    bodyFailed body log = true ↔ ∃ n ∈ body, lastState n log = some .fail := by
  simp [bodyFailed]

theorem failedSince_append {pre : ℕ} {results more : List RequestResult}
    (hpre : pre ≤ results.length) :
    failedSince pre (results ++ more) =
      (failedSince pre results || more.any (fun r => !r.passed)) := by
  rw [failedSince, List.drop_append_of_le_length hpre, List.any_append]
  rfl

theorem find_failed_eq_none {pre : ℕ} {results : List RequestResult} :
    (results.drop pre).find? (fun r => !r.passed) = none ↔ failedSince pre results = false := by
  simp [failedSince]

theorem failedSince_of_find {pre : ℕ} {results : List RequestResult} {r : RequestResult}
    (h : (results.drop pre).find? (fun r => !r.passed) = some r) :
    failedSince pre results = true :=
  List.any_eq_true.mpr ⟨r, List.mem_of_find?_eq_some h, by simpa using List.find?_some h⟩

/-! ## What a step does to the attempts -/

section Steps

variable {g : Graph} {s s' : RunState} {f : Frame} {w : Work}

theorem Enters.results {v : Visit} (h : Enters g s v s' w) : s'.results = s.results := by
  cases h <;> rfl

/-- Only an action node at work pushes. -/
theorem Moves.results (hm : Moves g s f s' w) :
    s'.results = s.results ∨ ∃ v kind r, f = .handler v .acting ∧ v.type = .action kind ∧
      s'.results = s.results ++ [r] ∧ s'.events = s.events ∧
      w.frames = {.handler { v with pushed := kind.notePush v.pushed r.passed } .acting} := by
  cases hm
  case push ht _ => exact Or.inr ⟨_, _, _, rfl, ht, rfl, rfl, rfl⟩
  case enter hen => exact Or.inl (by simp [hen.results])
  case resume hen => exact Or.inl hen.results
  all_goals exact Or.inl (by simp)

theorem failing?_acting {v : Visit} {m : NodeId} :
    (Frame.handler v .acting).failing? = some m ↔ v.pushed = some false ∧ v.node = m := by
  simp [Frame.failing?]

/-- A visit that pushed a failed result still has it to report after a push the
attempt sees. -/
theorem pushSeen_failing {v : Visit} {kind : ActionType} {r : RequestResult} {body : List NodeId}
    (ht : v.type = .action kind) (hseen : (Frame.handler v .acting).pushSeen body r = true)
    (hcause : r.passed = false ∨ v.pushed = some false ∧ v.node ∈ body) :
    v.node ∈ body ∧ (Frame.handler { v with pushed := kind.notePush v.pushed r.passed }
      .acting).failing? = some v.node := by
  refine ⟨?_, failing?_acting.mpr ⟨?_, rfl⟩⟩
  · rcases hcause with hr | ⟨-, hbody⟩
    · simpa [Frame.pushSeen, hr] using hseen
    · exact hbody
  · cases hr : r.passed with
    | false => simp [ActionType.notePush]
    | true =>
        obtain ⟨hpushed, hbody⟩ := hcause.resolve_left (by simp [hr])
        have hhttp : kind = .http := by
          simpa [Frame.pushSeen, hr, hpushed, hbody, ht] using hseen
        simp [ActionType.notePush, hhttp, hpushed]

/-- A visit with a failure to report keeps it, or reports `fail` or `pass`. -/
theorem Moves.failing (hm : Moves g s f s' w) {m : NodeId} (hf : f.failing? = some m) :
    s'.results ≠ s.results ∨
      (∃ more, s'.events = s.events ++ more ∧ lastState m more = some .fail) ∨
      s'.events = s.events ++ [.state m .pass] := by
  cases hm
  case throw v kind ht =>
    have hnode := (failing?_acting.mp hf).2
    exact Or.inr (Or.inl ⟨_, rfl, by simp [lastState, hnode]⟩)
  case push => exact Or.inl (by simp)
  case pass v kind ht _ =>
    have hnode := (failing?_acting.mp hf).2
    exact Or.inr (Or.inr (by simp [hnode]))
  case fail v kind visits ht _ =>
    have hnode := (failing?_acting.mp hf).2
    exact Or.inr (Or.inl ⟨_, rfl, by simp [lastState, hnode]⟩)
  case giveUp v kind ht _ _ =>
    have hnode := (failing?_acting.mp hf).2
    refine Or.inr (Or.inl ⟨[.cut, .state v.node .fail], by simp, ?_⟩)
    simp [lastState, hnode]
  all_goals cases hf

theorem Enters.attempts {v : Visit} (h : Enters g s v s' w) :
    ∀ f' ∈ w.frames, f'.attempt? = none := by
  cases h <;> simp [Frame.attempt?]

theorem errorConfigVisit_attempts : ∀ f' ∈ (errorConfigVisit g s).frames, f'.attempt? = none := by
  rcases errorConfigVisit_cases g s with h | ⟨entry, h⟩ <;> simp [h, Frame.attempt?]

/-- An attempt in progress after the step was in progress before, or starts with
it. -/
theorem Moves.attempts (hm : Moves g s f s' w) {f' : Frame} {a : Attempt} (hf' : f' ∈ w.frames)
    (ha : f'.attempt? = some a) :
    f.attempt? = some a ∨ a.pre = s.results.length ∧ a.mark = s.events.length ∧
      s'.results = s.results ∧ ∃ body, s'.events = s.events ++ [.reset body] := by
  have hnot : ∀ m : Multiset Frame, (∀ f' ∈ m, f'.attempt? = none) → f' ∉ m := by
    intro m hm hmem
    rw [hm f' hmem] at ha
    cases ha
  cases hm
  case attempt =>
    obtain rfl := Multiset.mem_singleton.mp hf'
    cases ha
    exact Or.inr ⟨rfl, rfl, rfl, _, rfl⟩
  case walk v k e es =>
    refine Or.inl ?_
    simp only [frames_await, frames_visitEdge, Multiset.mem_cons, Multiset.mem_singleton] at hf'
    rcases hf' with rfl | rfl
    · cases k <;> exact ha
    · cases ha
  case started =>
    rcases Multiset.mem_cons.mp hf' with rfl | hf'
    · cases ha
    · exact absurd hf' (hnot _ errorConfigVisit_attempts)
  case startCut =>
    rcases Multiset.mem_cons.mp hf' with rfl | hf'
    · cases ha
    · exact absurd hf' (hnot _ errorConfigVisit_attempts)
  case enter hen => exact absurd hf' (hnot _ hen.attempts)
  case resume hen => exact absurd hf' (hnot _ hen.attempts)
  all_goals
    refine absurd hf' (hnot _ ?_)
    simp [Frame.attempt?]

/-- Only a failed attempt is followed by another one. -/
theorem Moves.tests (hm : Moves g s f s' w) {v : Visit} {n : ℕ} {verdict : Option Bool}
    (h : .handler v (.tryTest (n + 1) verdict) ∈ w.frames) :
    ∃ pre mark, f = .handler v (.walking (.attempted n pre mark) []) ∧
      failedSince pre s.results = true ∧
      verdict = some (bodyFailed (errorBodyNodeIds g v.node) (s.events.drop mark)) := by
  cases hm
  case retry hfind hverdict =>
    simp at h
    obtain ⟨rfl, rfl, rfl⟩ := h
    exact ⟨_, _, rfl, failedSince_of_find hfind, by rw [hverdict]⟩
  case enter hen => cases hen <;> simp at h
  case resume hen => cases hen <;> simp at h
  case started => rcases errorConfigVisit_cases g s with he | ⟨entry, he⟩ <;> simp [he] at h
  case startCut => rcases errorConfigVisit_cases g s with he | ⟨entry, he⟩ <;> simp [he] at h
  all_goals simp at h

theorem Enters.settles {v : Visit} (h : Enters g s v s' w) {n : NodeId} {caught : Bool}
    {verdict : Option Bool} (hmem : .settled n caught verdict ∈ s'.events) :
    .settled n caught verdict ∈ s.events := by
  cases h <;> simpa using hmem

theorem passBarrier_settles {via : Option WorkflowEdge} {id n : NodeId} {caught : Bool}
    {verdict : Option Bool} (h : .settled n caught verdict ∈ (passBarrier g s via id).events) :
    .settled n caught verdict ∈ s.events := by
  rw [passBarrier_events] at h
  split at h <;> simpa using h

/-- What an error handler settles with is its last verdict or the state of the
attempt that has just ended. -/
theorem Moves.settles (hm : Moves g s f s' w) {n : NodeId} {caught : Bool} {verdict : Option Bool}
    (h : .settled n caught verdict ∈ s'.events) :
    .settled n caught verdict ∈ s.events ∨
      (∃ v d k, f = .handler v (.tryTest k verdict) ∧ v.type = .errorHandler d ∧ caught = true ∧
        (d.maxRetries < k ∨ s.aborted = true ∨ 0 < d.retryTimeoutMs ∧ 0 < k)) ∨
      ∃ v k pre mark, f = .handler v (.walking (.attempted k pre mark) []) ∧
        caught = failedSince pre s.results ∧
        verdict = some (bodyFailed (errorBodyNodeIds g v.node) (s.events.drop mark)) := by
  cases hm
  case outOfTries ht hwhy =>
    simp at h
    rcases h with h | ⟨rfl, rfl, rfl⟩
    · exact Or.inl h
    · exact Or.inr (Or.inl ⟨_, _, _, rfl, ht, rfl, hwhy⟩)
  case unmatched ht hfind hverdict =>
    simp at h
    rcases h with h | ⟨rfl, rfl, rfl⟩
    · exact Or.inl h
    · exact Or.inr (Or.inr ⟨_, _, _, _, rfl, (failedSince_of_find hfind).symm, by rw [hverdict]⟩)
  case succeeded ht hfind hverdict =>
    simp at h
    rcases h with h | ⟨rfl, rfl, rfl⟩
    · exact Or.inl h
    · exact Or.inr (Or.inr ⟨_, _, _, _, rfl, (find_failed_eq_none.mp hfind).symm, by rw [hverdict]⟩)
  all_goals left
  case enter hen => exact passBarrier_settles (by simpa using hen.settles h)
  case resume hen => simpa using hen.settles h
  case seen => exact passBarrier_settles h
  case pause => exact passBarrier_settles (by simpa using h)
  case skip v _ e _ _ =>
    obtain ⟨notes, hnotes, hskip⟩ := markSubtreeSkipped_events g v.node e s
    rw [hnotes, List.mem_append] at h
    rcases h with h | h
    · exact h
    · cases hskip _ h
  all_goals simpa using h

/-! ## The slice and the states agree -/

/-- The slice of the attempt holds a failed result when a node of the body is
failed; and when it holds one, some node of the body is failed or about to
report it. -/
structure AttemptInv (g : Graph) (a : Attempt) (s : RunState) (frames : Multiset Frame) :
    Prop where
  pre_le : a.pre ≤ s.results.length
  mark_le : a.mark ≤ s.events.length
  shown : a.failed g s = true → failedSince a.pre s.results = true
  reported : failedSince a.pre s.results = true →
    a.failed g s = true ∨ ∃ f ∈ frames, ∃ m ∈ a.body g, f.failing? = some m

theorem Attempt.failed_iff {a : Attempt} :
    a.failed g s = true ↔ ∃ m ∈ a.body g, lastState m (s.events.drop a.mark) = some .fail :=
  bodyFailed_iff

/-- Only the results and the log matter. -/
theorem AttemptInv.keep {a : Attempt} {frames : Multiset Frame} (h : AttemptInv g a s frames)
    (hresults : s'.results = s.results) (hevents : s'.events = s.events) :
    AttemptInv g a s' frames := by
  obtain ⟨hpre, hmark, hshown, hreported⟩ := h
  unfold Attempt.failed at hshown hreported
  rw [← hresults] at hpre hshown hreported
  rw [← hevents] at hmark hshown hreported
  exact ⟨hpre, hmark, hshown, hreported⟩

/-- An attempt that starts has an empty slice. -/
theorem AttemptInv.start {a : Attempt} {frames : Multiset Frame} {body : List NodeId}
    (hpre : a.pre = s.results.length) (hmark : a.mark = s.events.length)
    (hresults : s'.results = s.results) (hevents : s'.events = s.events ++ [.reset body]) :
    AttemptInv g a s' frames := by
  have hnone : failedSince a.pre s'.results = false := by simp [failedSince, hpre, hresults]
  refine ⟨by rw [hresults, hpre], by simp [hevents, hmark], fun hfailed => ?_, fun hfailed => ?_⟩
  · obtain ⟨m, -, hm⟩ := Attempt.failed_iff.mp hfailed
    simp [hevents, hmark, lastState_cons, Event.stateOf, lastState] at hm
  · rw [hnone] at hfailed
    cases hfailed

theorem AttemptInv.step {a : Attempt} {rest : Multiset Frame} (h : AttemptInv g a s (f ::ₘ rest))
    (hm : Moves g s f s' w) (hsees : a.sees g f s s' = true) :
    AttemptInv g a s' (rest + w.frames) := by
  obtain ⟨more, hmore⟩ := hm.log_append
  obtain ⟨new, hnew⟩ : ∃ new, s'.results = s.results ++ new := by
    rcases hm.results with hr | ⟨v, kind, r, -, -, hr, -⟩
    · exact ⟨[], by simp [hr]⟩
    · exact ⟨[r], hr⟩
  simp only [Attempt.sees, hmore, hnew, List.drop_left, Bool.and_eq_true, List.all_eq_true]
    at hsees
  obtain ⟨hpushes, hreports⟩ := hsees
  have hlast : ∀ m, lastState m (s'.events.drop a.mark) =
      (lastState m more).or (lastState m (s.events.drop a.mark)) := fun m => by
    rw [hmore, List.drop_append_of_le_length h.mark_le, lastState_append]
  have hslice : failedSince a.pre s.results = true → failedSince a.pre s'.results = true := by
    intro hfailed
    rw [hnew, failedSince_append h.pre_le, hfailed, Bool.true_or]
  -- a failed node stays failed: it reports nothing but `fail`
  have hstays : a.failed g s = true → a.failed g s' = true := by
    intro hfailed
    obtain ⟨m, hbody, hlastm⟩ := Attempt.failed_iff.mp hfailed
    refine Attempt.failed_iff.mpr ⟨m, hbody, ?_⟩
    rw [hlast, hlastm]
    cases hst : lastState m more with
    | none => rfl
    | some st =>
        have hreport := hreports _ (mem_of_lastState hst)
        cases st <;> simp_all [Event.reportSeen]
  refine ⟨h.pre_le.trans (by simp [hnew]), h.mark_le.trans (by simp [hmore]),
    fun hfailed => ?_, fun hfailed => ?_⟩
  · obtain ⟨m, hbody, hlastm⟩ := Attempt.failed_iff.mp hfailed
    rw [hlast, Option.or_eq_some_iff] at hlastm
    refine hslice ?_
    rcases hlastm with hst | ⟨-, hst⟩
    · have hreport := hreports _ (mem_of_lastState hst)
      simpa [Event.reportSeen, hbody] using hreport
    · exact h.shown (Attempt.failed_iff.mpr ⟨m, hbody, hst⟩)
  · -- a push of the step leaves its visit with a failure to report
    have hpush : s'.results ≠ s.results →
        (failedSince a.pre s.results = false ∨ ∃ m ∈ a.body g, f.failing? = some m) →
        ∃ f' ∈ rest + w.frames, ∃ m ∈ a.body g, f'.failing? = some m := by
      intro hne hwhy
      rcases hm.results with hr | ⟨v, kind, r, rfl, ht, hr, -, hframes⟩
      · exact absurd hr hne
      have hseen := hpushes r (by rw [hnew, List.append_cancel_left_eq] at hr; simp [hr])
      have hcause : r.passed = false ∨ v.pushed = some false ∧ v.node ∈ a.body g := by
        rcases hwhy with hnone | ⟨m, hbody, hfailing⟩
        · rw [hr, failedSince_append h.pre_le, hnone] at hfailed
          exact Or.inl (by simpa using hfailed)
        · obtain ⟨hpushed, hnode⟩ := failing?_acting.mp hfailing
          exact Or.inr ⟨hpushed, hnode ▸ hbody⟩
      obtain ⟨hbody, hfailing⟩ := pushSeen_failing ht hseen hcause
      exact ⟨_, by simp [hframes], _, hbody, hfailing⟩
    by_cases hold : failedSince a.pre s.results = true
    · rcases h.reported hold with hfailed | ⟨f', hf', m, hbody, hfailing⟩
      · exact Or.inl (hstays hfailed)
      · rcases Multiset.mem_cons.mp hf' with rfl | hf'
        · rcases hm.failing hfailing with hne | ⟨fail, hfail, hst⟩ | hpass
          · exact Or.inr (hpush hne (Or.inr ⟨m, hbody, hfailing⟩))
          · rw [hmore, List.append_cancel_left_eq] at hfail
            exact Or.inl (Attempt.failed_iff.mpr ⟨m, hbody, by rw [hlast, hfail, hst]; rfl⟩)
          · rw [hmore, List.append_cancel_left_eq] at hpass
            have := hreports (.state m .pass) (by simp [hpass])
            simp [Event.reportSeen, hbody, hfailing] at this
        · exact Or.inr ⟨f', Multiset.mem_add.mpr (Or.inl hf'), m, hbody, hfailing⟩
    · have hne : s'.results ≠ s.results := fun heq => hold (heq ▸ hfailed)
      exact Or.inr (hpush hne (Or.inl (by simpa using hold)))

/-! ## Runs -/

/-- What holds of the error handlers in every state of a run. -/
structure ErrorInv (g : Graph) (s : RunState) (frames : Multiset Frame) : Prop where
  attempts : ∀ f ∈ frames, ∀ a, f.attempt? = some a → AttemptInv g a s frames
  retries : ∀ v n verdict, .handler v (.tryTest (n + 1) verdict) ∈ frames → verdict = some true
  settled : ∀ n caught verdict, .settled n caught verdict ∈ s.events →
    caught = (verdict == some true)

/-- When an attempt ends, the slice holds a failed result if and only if a node
of the body is failed. -/
theorem AttemptInv.agree {a : Attempt} {frames : Multiset Frame} (h : AttemptInv g a s frames)
    (hend : ∀ f ∈ frames, ∀ m ∈ a.body g, f.failing? ≠ some m) :
    failedSince a.pre s.results = a.failed g s := by
  rw [Bool.eq_iff_iff]
  refine ⟨fun hfailed => ?_, h.shown⟩
  rcases h.reported hfailed with hfailed | ⟨f, hf, m, hbody, hfailing⟩
  · exact hfailed
  · exact absurd hfailing (hend f hf m hbody)

theorem ErrorInv.step {rest : Multiset Frame} (h : ErrorInv g s (f ::ₘ rest))
    (hm : Moves g s f s' w) (hend : f.endSeen g s (f ::ₘ rest) = true)
    (hsees : ∀ f' ∈ f ::ₘ rest, ∀ a, f'.attempt? = some a → a.sees g f s s' = true) :
    ErrorInv g s' (rest + w.frames) := by
  have hagree : ∀ v n pre mark, f = .handler v (.walking (.attempted n pre mark) []) →
      failedSince pre s.results = bodyFailed (errorBodyNodeIds g v.node) (s.events.drop mark) := by
    rintro v n pre mark rfl
    refine (h.attempts _ (Multiset.mem_cons_self _ _) ⟨v.node, pre, mark⟩ rfl).agree ?_
    intro f' hf' m hbody hfailing
    have := (of_decide_eq_true hend) f' hf'
    simp [hfailing] at this
    exact this hbody
  refine ⟨fun f' hf' a ha => ?_, fun v n verdict hmem => ?_, fun n caught verdict hmem => ?_⟩
  · have hold : f' ∈ f ::ₘ rest → AttemptInv g a s' (rest + w.frames) := fun hf' =>
      (h.attempts f' hf' a ha).step hm (hsees f' hf' a ha)
    rcases Multiset.mem_add.mp hf' with hf' | hf'
    · exact hold (Multiset.mem_cons_of_mem hf')
    · rcases hm.attempts hf' ha with hf | ⟨hpre, hmark, hresults, body, hevents⟩
      · exact (h.attempts f (Multiset.mem_cons_self _ _) a hf).step hm
          (hsees f (Multiset.mem_cons_self _ _) a hf)
      · exact .start hpre hmark hresults hevents
  · rcases Multiset.mem_add.mp hmem with hmem | hmem
    · exact h.retries v n verdict (Multiset.mem_cons_of_mem hmem)
    · obtain ⟨pre, mark, hf, hfailed, rfl⟩ := hm.tests hmem
      rw [← hagree v n pre mark hf, hfailed]
  · rcases hm.settles hmem with hmem | ⟨v, d, k, rfl, ht, rfl, hwhy⟩ | ⟨v, k, pre, mark, hf, rfl, rfl⟩
    · exact h.settled n caught verdict hmem
    · cases k with
      | zero =>
          simp only [Frame.endSeen, ht, Bool.and_eq_true, Bool.not_eq_true',
            decide_eq_true_eq] at hend
          simp [hend.1] at hwhy
          omega
      | succ k =>
          rw [h.retries v k verdict (Multiset.mem_cons_self _ _)]
          rfl
    · rw [hagree v k pre mark hf]
      simp

end Steps

def guardedScript : Graph where
  nodes := [⟨"start", .action .start⟩, ⟨"handler", .errorHandler ⟨"all", some 1, 0, false⟩⟩,
    ⟨"call", .action .http⟩, ⟨"check", .action .script⟩, ⟨"fallback", .action .delay⟩]
  edges := [⟨"e0", "start", "handler", none, none⟩, ⟨"e1", "handler", "call", some "body", none⟩,
    ⟨"e2", "call", "check", none, none⟩, ⟨"e3", "handler", "fallback", some "catch", none⟩]
  handlerEntryNodeId := none
  debugController := false

/-- The handler is called. -/
def reachHandler : List Choice := stepsAt {} [] 5

/-- An attempt, up to the call of the script: the request pushes its result. -/
def attemptUpToScript (passed : Bool) : List Choice :=
  stepsAt {} [] 3 ++
    stepsAt { push := some ⟨"call", passed, if passed then 200 else 500, 0⟩ } [] 1 ++
    stepsAt { settle := if passed then .pass else .fail true } [] 1 ++ stepsAt {} [] 2

/-- The request fails in both attempts, and the fallback is taken. -/
def requestFails : List Choice :=
  reachHandler ++ attemptUpToScript false ++ stepsAt {} [] 4 ++ attemptUpToScript false ++
    stepsAt {} [] 5

/-- The request passes and the script fails, which pushes no result. -/
def scriptFails : List Choice :=
  reachHandler ++ attemptUpToScript true ++ stepsAt { settle := .fail true } [] 1 ++ stepsAt {} [] 3

end RedFireForge.Workflow
