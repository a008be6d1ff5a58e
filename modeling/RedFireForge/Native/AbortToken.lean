/-
# `RedFireForge.Native.AbortToken` — the slot through which a native run is aborted

`start_load_test` stores its cancellation token in a slot that all runs share, and clears
the slot after the event on which the client may start the next run.  `abort_load_test`
cancels the token that it finds there.  Commands and events travel on their own: an abort
can be handled before the run that it is for has stored its token, and after the next one has.
-/
import RedFireForge.Lib.Run
import RedFireForge.Lib.Text

namespace RedFireForge.Native

open RedFireForge.Lib

/-- Where `start_load_test` is. -/
inductive StartPhase
  /-- the command is on its way -/
  | sent
  /-- the token is stored -/
  | running
  /-- `load-test-complete` is emitted -/
  | completed
  /-- the slot is cleared -/
  | cleaned
deriving DecidableEq, Repr

/-- Where the abort command is that a raised signal sends. -/
inductive AbortPhase
  | none | sent | handled
deriving DecidableEq, Repr

/-- One call of `runTestViaRust`. -/
structure NativeRun where
  start : StartPhase
  abort : AbortPhase
  /-- of the call -/
  resolved : Bool
  /-- of the token -/
  cancelled : Bool
deriving DecidableEq, Repr

/-- The runs in the order of the calls, and whose token is in the slot. -/
structure ExecutorState where
  runs : List NativeRun
  cancelToken : Option ℕ
deriving DecidableEq, Repr

inductive BridgeStep
  /-- a call, which sends `start_load_test` -/
  | runTestViaRust
  /-- the abort signal of run `i`, which sends `abort_load_test` -/
  | signal (i : ℕ)
  /-- `start_load_test` of run `i` stores its token -/
  | startLoadTest (i : ℕ)
  /-- the run is over, and its event is emitted -/
  | complete (i : ℕ)
  /-- `start_load_test` of run `i` clears the slot -/
  | cleanup (i : ℕ)
  /-- the event is delivered, and the call resolves -/
  | resolve (i : ℕ)
  /-- `abort_load_test` of run `i` is handled -/
  | abortLoadTest (i : ℕ)
deriving DecidableEq, Repr

namespace ExecutorState

variable (s : ExecutorState)

def initial : ExecutorState := ⟨[], none⟩

def modify (i : ℕ) (f : NativeRun → NativeRun) : ExecutorState := { s with runs := s.runs.modify i f }

/-- Run `i` goes on to `f`, if it is at a place that it can leave so. -/
def go (i : ℕ) (can : NativeRun → Bool) (f : NativeRun → NativeRun) : Option ExecutorState :=
  if s.runs[i]?.any can then some (s.modify i f) else none

/-- The token in the slot is cancelled. -/
def cancelSlot : ExecutorState :=
  match s.cancelToken with
  | none => s
  | some j => s.modify j fun a => { a with cancelled := true }

end ExecutorState

open ExecutorState in
def bridgeNext : BridgeStep → ExecutorState → Option ExecutorState
  | .runTestViaRust, s =>
      if s.runs.all (·.resolved) then
        some { s with runs := s.runs ++ [⟨.sent, .none, false, false⟩] }
      else none
  | .signal i, s =>
      s.go i (fun a => !a.resolved && a.abort == .none) fun a => { a with abort := .sent }
  | .startLoadTest i, s =>
      (s.go i (·.start == .sent) fun a => { a with start := .running }).map
        ({ · with cancelToken := some i })
  | .complete i, s => s.go i (·.start == .running) fun a => { a with start := .completed }
  | .cleanup i, s =>
      (s.go i (·.start == .completed) fun a => { a with start := .cleaned }).map
        ({ · with cancelToken := none })
  | .resolve i, s =>
      s.go i (fun a => (a.start == .completed || a.start == .cleaned) && !a.resolved)
        fun a => { a with resolved := true }
  | .abortLoadTest i, s =>
      (s.go i (·.abort == .sent) fun a => { a with abort := .handled }).map cancelSlot

namespace ExecutorState

/-- The tokens that are cancelled are those of the runs whose signal was raised and whose
abort command has been handled. -/
def Reached (s : ExecutorState) : Prop :=
  ∀ (i : ℕ) (a : NativeRun), s.runs[i]? = some a → (a.cancelled = true ↔ a.abort = .handled)

/-- An abort finds the token of its run in the slot. -/
def findsToken (l : BridgeStep) (s : ExecutorState) : Prop :=
  match l with
  | .abortLoadTest i => s.cancelToken = some i
  | _ => True

instance (l : BridgeStep) (s : ExecutorState) : Decidable (findsToken l s) := by
  unfold findsToken
  split <;> infer_instance

end ExecutorState

/-- The token is stored, and the slot not cleared since. -/
def NativeRun.stored (a : NativeRun) : Bool := a.start == .running || a.start == .completed

namespace ExecutorState

/-- An abort is handled between the store and the cleanup of its run, and a token is stored
after the cleanups of the runs before. -/
def inTurn (l : BridgeStep) (s : ExecutorState) : Prop :=
  match l with
  | .abortLoadTest i => s.runs[i]?.any (·.stored) = true
  | .startLoadTest _ => ∀ a ∈ s.runs, a.stored = false
  | _ => True

instance (l : BridgeStep) (s : ExecutorState) : Decidable (inTurn l s) := by
  unfold inTurn
  split <;> infer_instance

/-! ## One step -/

variable {s s' : ExecutorState} {i j : ℕ} {a : NativeRun} {l : BridgeStep}
  {can : NativeRun → Bool} {f : NativeRun → NativeRun}

theorem modify_runs : (s.modify i f).runs[j]? = (s.runs[j]?).map (fun a => if i = j then f a else a) :=
  List.getElem?_modify ..

theorem go_eq_some (h : s.go i can f = some s') :
    s' = s.modify i f ∧ ∃ a, s.runs[i]? = some a ∧ can a = true := by
  unfold go at h
  split at h
  next hcan => exact ⟨(Option.some.inj h).symm, (Option.any_eq_true _ _).mp hcan⟩
  next => cases h

/-- What a step does: a run is added, an abort is handled, or one run moves on in its
`start_load_test` or its call. -/
inductive Does (s s' : ExecutorState) : BridgeStep → Prop
  | called : s' = { s with runs := s.runs ++ [⟨.sent, .none, false, false⟩] } → Does s s' .runTestViaRust
  | aborted (i : ℕ) (a : NativeRun) : s.runs[i]? = some a → a.abort = .sent →
      s' = (s.modify i fun a => { a with abort := .handled }).cancelSlot → Does s s' (.abortLoadTest i)
  | moved (i : ℕ) (f : NativeRun → NativeRun) (l : BridgeStep) :
      (∀ i, l ≠ .abortLoadTest i) → s'.runs = (s.modify i f).runs →
      (∀ a, (f a).cancelled = a.cancelled) →
      (∀ a ∈ s.runs[i]?, (f a).abort = .handled ↔ a.abort = .handled) → Does s s' l

theorem next_does (h : bridgeNext l s = some s') : s.Does s' l := by
  cases l with
  | runTestViaRust =>
      simp only [bridgeNext] at h
      split at h
      next => exact .called (Option.some.inj h).symm
      next => cases h
  | signal i =>
      obtain ⟨rfl, a, ha, hcan⟩ := go_eq_some h
      refine .moved i _ _ (by rintro _ ⟨⟩) rfl (fun _ => rfl) fun b hb => ?_
      rw [Option.mem_def, ha] at hb
      cases hb
      simp only [Bool.and_eq_true, beq_iff_eq] at hcan
      simp [hcan.2]
  | startLoadTest i =>
      obtain ⟨t, ht, rfl⟩ := Option.map_eq_some_iff.mp h
      obtain ⟨rfl, -⟩ := go_eq_some ht
      exact .moved i _ _ (by rintro _ ⟨⟩) rfl (fun _ => rfl) fun _ _ => Iff.rfl
  | complete i =>
      obtain ⟨rfl, -⟩ := go_eq_some h
      exact .moved i _ _ (by rintro _ ⟨⟩) rfl (fun _ => rfl) fun _ _ => Iff.rfl
  | cleanup i =>
      obtain ⟨t, ht, rfl⟩ := Option.map_eq_some_iff.mp h
      obtain ⟨rfl, -⟩ := go_eq_some ht
      exact .moved i _ _ (by rintro _ ⟨⟩) rfl (fun _ => rfl) fun _ _ => Iff.rfl
  | resolve i =>
      obtain ⟨rfl, -⟩ := go_eq_some h
      exact .moved i _ _ (by rintro _ ⟨⟩) rfl (fun _ => rfl) fun _ _ => Iff.rfl
  | abortLoadTest i =>
      obtain ⟨t, ht, rfl⟩ := Option.map_eq_some_iff.mp h
      obtain ⟨rfl, a, ha, hcan⟩ := go_eq_some ht
      exact .aborted i a ha (beq_iff_eq.mp hcan) rfl

/-- The abort command of run `i` is handled. -/
theorem handled_runs : ((s.modify i fun a => { a with abort := .handled }).cancelSlot).runs[j]? =
    (s.runs[j]?).map (fun a => ⟨a.start, if i = j then .handled else a.abort, a.resolved,
      a.cancelled || decide (s.cancelToken = some j)⟩) := by
  unfold cancelSlot
  split
  next hslot =>
    have hslot : s.cancelToken = none := hslot
    rw [modify_runs]
    refine congrArg (Option.map · _) (funext fun a => ?_)
    rw [hslot]
    split <;> simp
  next k hslot =>
    have hslot : s.cancelToken = some k := hslot
    rw [modify_runs, modify_runs, Option.map_map]
    refine congrArg (Option.map · _) (funext fun a => ?_)
    simp only [Function.comp_apply, hslot, Option.some.injEq]
    by_cases hk : k = j <;> by_cases hi : i = j <;> simp [hk, hi]

/-- **A step** keeps the cancelled tokens those of the aborted runs exactly if an abort finds
the token of its run. -/
theorem step_reached (hr : s.Reached) (h : bridgeNext l s = some s') :
    (findsToken l s → s'.Reached) ∧ (s'.Reached → findsToken l s) := by
  cases next_does h with
  | called hs' =>
      refine ⟨fun _ i a ha => ?_, fun _ => trivial⟩
      rw [hs'] at ha
      have ha : (s.runs ++ [_])[i]? = some a := ha
      rw [List.getElem?_append] at ha
      split at ha
      next => exact hr i a ha
      next =>
        rw [List.getElem?_singleton] at ha
        split at ha
        next =>
          cases ha
          simp
        next => cases ha
  | moved i f l hl hs' hcancelled habort =>
      refine ⟨fun _ j b hb => ?_, fun _ => ?_⟩
      · rw [hs', modify_runs] at hb
        obtain ⟨a, ha, rfl⟩ := Option.map_eq_some_iff.mp hb
        split
        next hij =>
          subst hij
          rw [hcancelled, habort a ha]
          exact hr i a ha
        next => exact hr j a ha
      · unfold findsToken
        split
        next i => exact absurd rfl (hl i)
        next => trivial
  | aborted i a ha hsent hs' =>
      have hnot : a.cancelled = false := by
        by_contra hcancelled
        rw [Bool.not_eq_false, hr i a ha, hsent] at hcancelled
        cases hcancelled
      constructor
      · intro (hslot : s.cancelToken = some i) j b hb
        rw [hs', handled_runs] at hb
        obtain ⟨c, hc, rfl⟩ := Option.map_eq_some_iff.mp hb
        by_cases hij : i = j
        · simp [hij, hslot]
        · have := hr j c hc
          simp [hij, hslot, this]
      · intro hr'
        have hi := (hr' i _ (by rw [hs', handled_runs, ha]; rfl)).mpr (if_pos rfl)
        have hslot : s.cancelToken = some i := by simpa [hnot] using hi
        exact hslot

/-- The token in the slot is that of the run that has stored it and not cleared the slot. -/
def Slotted (s : ExecutorState) : Prop :=
  ∀ i, s.cancelToken = some i ↔ ∃ a, s.runs[i]? = some a ∧ a.stored = true

/-- A run moves on, and its token stays where it was. -/
theorem Slotted.move (h : s.Slotted) (hf : ∀ a ∈ s.runs[i]?, (f a).stored = a.stored) :
    (s.modify i f).Slotted := by
  intro j
  refine (h j).trans ?_
  rw [modify_runs]
  cases hj : s.runs[j]? with
  | none => simp
  | some a =>
      by_cases hij : i = j
      · subst hij
        simp [hf a hj]
      · simp [hij]

theorem Slotted.cancelSlot (h : s.Slotted) : s.cancelSlot.Slotted := by
  unfold ExecutorState.cancelSlot
  split
  next => exact h
  next j _ => exact h.move fun _ _ => rfl

theorem Slotted.step (hI : s.Slotted) (hok : inTurn l s) (h : bridgeNext l s = some s') : s'.Slotted := by
  cases l with
  | runTestViaRust =>
      simp only [bridgeNext] at h
      split at h
      next =>
        cases h
        intro i
        refine (hI i).trans ?_
        simp only [List.getElem?_append]
        constructor
        · rintro ⟨a, ha, hstored⟩
          exact ⟨a, by rw [if_pos (List.getElem?_eq_some_iff.mp ha).1, ha], hstored⟩
        · rintro ⟨a, ha, hstored⟩
          split at ha
          next => exact ⟨a, ha, hstored⟩
          next =>
            rw [List.getElem?_singleton] at ha
            split at ha
            next =>
              cases ha
              cases hstored
            next => cases ha
      next => cases h
  | signal i =>
      obtain ⟨rfl, -⟩ := go_eq_some h
      exact hI.move fun _ _ => rfl
  | startLoadTest i =>
      obtain ⟨t, ht, rfl⟩ := Option.map_eq_some_iff.mp h
      obtain ⟨rfl, a, ha, -⟩ := go_eq_some ht
      intro j
      simp only [modify_runs, Option.some.injEq]
      constructor
      · rintro rfl
        exact ⟨_, by rw [ha]; rfl, by simp [NativeRun.stored]⟩
      · rintro ⟨b, hb, hstored⟩
        obtain ⟨c, hc, rfl⟩ := Option.map_eq_some_iff.mp hb
        by_contra hij
        rw [if_neg hij, hok c (List.mem_of_getElem? hc)] at hstored
        cases hstored
  | complete i =>
      obtain ⟨rfl, a, ha, hrunning⟩ := go_eq_some h
      refine hI.move fun b hb => ?_
      rw [Option.mem_def, ha] at hb
      cases hb
      simp [NativeRun.stored, beq_iff_eq.mp hrunning]
  | cleanup i =>
      obtain ⟨t, ht, rfl⟩ := Option.map_eq_some_iff.mp h
      obtain ⟨rfl, a, ha, hcompleted⟩ := go_eq_some ht
      have hslot : s.cancelToken = some i :=
        (hI i).mpr ⟨a, ha, by simp [NativeRun.stored, beq_iff_eq.mp hcompleted]⟩
      intro j
      simp only [modify_runs, reduceCtorEq, false_iff]
      rintro ⟨b, hb, hstored⟩
      obtain ⟨c, hc, rfl⟩ := Option.map_eq_some_iff.mp hb
      split at hstored
      next => cases hstored
      next hij =>
        have hother := (hI j).mpr ⟨c, hc, hstored⟩
        rw [hslot] at hother
        exact hij (Option.some.inj hother)
  | resolve i =>
      obtain ⟨rfl, -⟩ := go_eq_some h
      exact hI.move fun _ _ => rfl
  | abortLoadTest i =>
      obtain ⟨t, ht, rfl⟩ := Option.map_eq_some_iff.mp h
      obtain ⟨rfl, -⟩ := go_eq_some ht
      exact Slotted.cancelSlot (hI.move fun _ _ => rfl)

/-- In its turn an abort finds the token of its run. -/
theorem findsToken_of_inTurn (hI : s.Slotted) (hok : inTurn l s) : findsToken l s := by
  cases l with
  | abortLoadTest i => exact (hI i).mpr ((Option.any_eq_true _ _).mp hok)
  | _ => trivial

end ExecutorState

/-! ## Aborts that reach their runs -/

open ExecutorState in
/-- **An abort reaches its run exactly if** it finds the token of its run in the slot; and it
does if it is handled between the store and the cleanup of the run, and the runs store their
tokens after the cleanups of those before. -/
theorem abort_reaches_run (ls : List BridgeStep) (s : ExecutorState)
    (hrun : exec bridgeNext initial ls = some s) :
    ((∀ ls' u, ls' <+: ls → exec bridgeNext initial ls' = some u → u.Reached) ↔
        AllSteps bridgeNext findsToken initial ls) ∧
      (AllSteps bridgeNext inTurn initial ls → AllSteps bridgeNext findsToken initial ls) := by
  constructor
  · exact exec_forall_iff (I := Reached) (fun _ h => h) (fun _ _ _ hr h => step_reached hr h)
      (fun _ _ h => nomatch h) hrun
  · intro hok
    have hinitial : initial.Slotted := by
      intro i
      simp [initial]
    exact allSteps_of_invariant (I := Slotted) (fun _ _ _ hI hok h => hI.step hok h)
      (fun _ _ hI hok => findsToken_of_inTurn hI hok) hinitial hok

/-- Two runs, and the second is aborted. -/
def secondAborted : List BridgeStep :=
  [.runTestViaRust, .startLoadTest 0, .complete 0, .cleanup 0, .resolve 0, .runTestViaRust,
    .startLoadTest 1, .signal 1, .abortLoadTest 1, .complete 1, .resolve 1]

open ExecutorState in
theorem abort_reaches_run_secondAborted :
    ∃ s, exec bridgeNext initial secondAborted = some s ∧ s.Reached ∧
      s.runs.map NativeRun.cancelled = [false, true] := by
  obtain ⟨s, hrun, hcancelled⟩ : ∃ s, exec bridgeNext initial secondAborted = some s ∧
      s.runs.map NativeRun.cancelled = [false, true] := exists_exec (by decide)
  have hiff := abort_reaches_run secondAborted s hrun
  exact ⟨s, hrun, hiff.1.mpr (hiff.2 (by decide)) secondAborted s (List.prefix_refl _) hrun, hcancelled⟩

/-- The abort command overtakes `start_load_test`. -/
def abortFirst : List BridgeStep :=
  [.runTestViaRust, .signal 0, .abortLoadTest 0, .startLoadTest 0]

/-- The first run clears the slot after the second has stored its token. -/
def lateCleanup : List BridgeStep :=
  [.runTestViaRust, .startLoadTest 0, .complete 0, .resolve 0, .runTestViaRust, .startLoadTest 1,
    .cleanup 0, .signal 1, .abortLoadTest 1]

/-- The abort of the first run is handled when the second has stored its token. -/
def lateAbort : List BridgeStep :=
  [.runTestViaRust, .startLoadTest 0, .signal 0, .complete 0, .resolve 0, .cleanup 0,
    .runTestViaRust, .startLoadTest 1, .abortLoadTest 0]

open ExecutorState in
/-- An aborted run goes on, twice, and one is cancelled whose signal was not raised. -/
theorem abort_lost :
    (∃ s, exec bridgeNext initial abortFirst = some s ∧
        s.runs = [⟨.running, .handled, false, false⟩] ∧ ¬ s.Reached) ∧
      (∃ s, exec bridgeNext initial lateCleanup = some s ∧
        s.runs = [⟨.cleaned, .none, true, false⟩, ⟨.running, .handled, false, false⟩] ∧ ¬ s.Reached) ∧
      ∃ s, exec bridgeNext initial lateAbort = some s ∧
        s.runs = [⟨.cleaned, .handled, true, false⟩, ⟨.running, .none, false, true⟩] ∧ ¬ s.Reached := by
  have hlost : ∀ (s : ExecutorState) (i : ℕ) (a : NativeRun), s.runs[i]? = some a →
      a.abort = .handled → a.cancelled = false → ¬ s.Reached := by
    intro s i a ha habort hcancelled hr
    have := (hr i a ha).mpr habort
    rw [hcancelled] at this
    cases this
  obtain ⟨s, hs, hruns⟩ : ∃ s, exec bridgeNext initial abortFirst = some s ∧
      s.runs = [⟨.running, .handled, false, false⟩] := exists_exec (by decide)
  obtain ⟨t, ht, hruns'⟩ : ∃ s, exec bridgeNext initial lateCleanup = some s ∧
      s.runs = [⟨.cleaned, .none, true, false⟩, ⟨.running, .handled, false, false⟩] :=
    exists_exec (by decide)
  obtain ⟨u, hu, hruns''⟩ : ∃ s, exec bridgeNext initial lateAbort = some s ∧
      s.runs = [⟨.cleaned, .handled, true, false⟩, ⟨.running, .none, false, true⟩] :=
    exists_exec (by decide)
  exact ⟨⟨s, hs, hruns, hlost s 0 _ (by rw [hruns]; rfl) rfl rfl⟩,
    ⟨t, ht, hruns', hlost t 1 _ (by rw [hruns']; rfl) rfl rfl⟩,
    ⟨u, hu, hruns'', hlost u 0 _ (by rw [hruns'']; rfl) rfl rfl⟩⟩

end RedFireForge.Native
