/-
# `RedFireForge.Engine.Worker` — streaming of results from a worker

`runTest` calls `onProgress` with all results so far.  The worker sends only those
beyond the length it was given last, at most every 250 ms; what it holds back goes out
with a later batch or at the end.  This is right if every call passes on one list that
only grows, and the list of the promise is that list.
-/
import Mathlib.Algebra.Order.Ring.Rat
import Mathlib.Data.List.Basic
import Mathlib.Tactic.Common
import RedFireForge.Lib.Run

namespace RedFireForge.Engine

open RedFireForge.Lib

/-! ## Progress -/

structure ProgressMeta where
  elapsedMs : ℚ
  targetConcurrency : ℤ
  currentInFlight : ℤ
  durationMs : ℚ
deriving DecidableEq, Repr

/-- The arguments of `onProgress`. -/
structure ProgressCall (α : Type) where
  completed : ℤ
  total : ℤ
  allResults : List α
  progressMeta : Option ProgressMeta := none

/-- What `runTest` does in turns of the event loop, each with the calls it makes.  The
list of its promise may grow after the promise is resolved. -/
structure Runner (α : Type) where
  State : Type
  Choice : Type
  start : State × List (ProgressCall α)
  next : Choice → State → Option (State × List (ProgressCall α))
  /-- the list of the promise, once it is resolved -/
  returned : State → Option (List α)
  rejected : State → Bool

/-! ## The worker -/

inductive WorkerToMain (α : Type)
  | progress (completed total : ℤ) (newResults : List α) (progressMeta : Option ProgressMeta)
  | done (newResults : List α)
  | error

/-- No `lastProgressPost` is `-Infinity`; `posted` are its messages, in order. -/
structure Worker (α : Type) where
  lastSentCount : ℕ := 0
  lastProgressPost : Option ℚ := none
  pendingNewResults : List α := []
  hasPending : Bool := false
  pendingCompleted : ℤ := 0
  pendingTotal : ℤ := 0
  pendingMeta : Option ProgressMeta := none
  posted : List (WorkerToMain α) := []

namespace Worker

variable {α : Type}

def progressThrottleMs : ℚ := 250

def onProgress (w : Worker α) (now : ℚ) (call : ProgressCall α) : Worker α :=
  let newResults := call.allResults.drop w.lastSentCount
  let w := { w with lastSentCount := call.allResults.length }
  if w.lastProgressPost.all (fun last => decide (now - last ≥ progressThrottleMs)) then
    let batch := if w.hasPending then w.pendingNewResults ++ newResults else newResults
    { w with
      lastProgressPost := some now
      hasPending := false
      pendingNewResults := []
      posted := w.posted ++ [.progress call.completed call.total batch call.progressMeta] }
  else
    { w with
      pendingNewResults := w.pendingNewResults ++ newResults
      hasPending := true
      pendingCompleted := call.completed
      pendingTotal := call.total
      pendingMeta := call.progressMeta }

/-- The calls of one turn, the `k`th of them at `clock k`. -/
def onCalls (w : Worker α) (clock : ℕ → ℚ) : List (ProgressCall α) → Worker α
  | [] => w
  | call :: calls => (w.onProgress (clock 0) call).onCalls (fun k => clock (k + 1)) calls

def flush (w : Worker α) : Worker α :=
  if w.hasPending then
    { w with posted := w.posted ++
        [.progress w.pendingCompleted w.pendingTotal w.pendingNewResults w.pendingMeta] }
  else w

/-- After the `await` of `runTest`.  What is pending stays so. -/
def finish (w : Worker α) (results : List α) : Worker α :=
  let w := w.flush
  let finalNew := results.drop w.lastSentCount
  { w with lastSentCount := results.length, posted := w.posted ++ [.done finalNew] }

def fail (w : Worker α) : Worker α := { w with posted := w.posted ++ [.error] }

end Worker

/-- `finished` is the list of `runTest`, once the worker has gone on after its `await`. -/
structure WorkerRun {α : Type} (r : Runner α) where
  runner : r.State
  worker : Worker α
  finished : Option (List α)
  failed : Bool

inductive WorkerChoice (C : Type)
  /-- a turn of `runTest`; its `k`th call of `onProgress` is made at `clock k` -/
  | turn (c : C) (clock : ℕ → ℚ)
  | done
  | error

section Run

variable {α : Type}

def workerStart (r : Runner α) (clock : ℕ → ℚ) : WorkerRun r where
  runner := r.start.1
  worker := Worker.onCalls {} clock r.start.2
  finished := none
  failed := false

/-- The promise is settled once; the runner may go on after it. -/
def workerNext (r : Runner α) : WorkerChoice r.Choice → WorkerRun r → Option (WorkerRun r)
  | .turn c clock, s =>
      (r.next c s.runner).map (fun next =>
        { s with runner := next.1, worker := s.worker.onCalls clock next.2 })
  | .done, s =>
      if s.finished.isSome || s.failed then none
      else (r.returned s.runner).map (fun results =>
        { s with worker := s.worker.finish results, finished := some results })
  | .error, s =>
      if s.finished.isNone && !s.failed && r.rejected s.runner then
        some { s with worker := s.worker.fail, failed := true }
      else none

end Run

/-! ## What a worker sends -/

namespace WorkerToMain

variable {α : Type}

def newResults : WorkerToMain α → List α
  | progress _ _ newResults _ => newResults
  | done newResults => newResults
  | error => []

def isDone : WorkerToMain α → Bool
  | done _ => true
  | _ => false

end WorkerToMain

section Sent

variable {α β : Type} {w : Worker α} {f : α → β} {list list' : List β} {results : List α}
  {messages messages' : List (WorkerToMain α)}

/-- All new results of the messages. -/
def sent (messages : List (WorkerToMain α)) : List α := messages.flatMap WorkerToMain.newResults

/-- Those of the messages up to `done`. -/
def streamed : List (WorkerToMain α) → List α
  | [] => []
  | m :: messages => m.newResults ++ if m.isDone then [] else streamed messages

theorem sent_append : sent (messages ++ messages') = sent messages ++ sent messages' :=
  List.flatMap_append

theorem sent_singleton {m : WorkerToMain α} : sent [m] = m.newResults := List.append_nil _

/-- What follows `done` is not part of the stream. -/
theorem streamed_append (h : messages.any (·.isDone) = true) :
    streamed (messages ++ messages') = streamed messages := by
  induction messages with
  | nil => cases h
  | cons m messages ih =>
      rw [List.cons_append, streamed, streamed]
      cases hdone : m.isDone with
      | true => rfl
      | false =>
          rw [List.any_cons, hdone, Bool.false_or] at h
          rw [ih h]

theorem streamed_done (h : messages.any (·.isDone) = false) :
    streamed (messages ++ [.done results]) = sent messages ++ results := by
  induction messages with
  | nil => exact List.append_nil _
  | cons m messages ih =>
      rw [List.any_cons, Bool.or_eq_false_iff] at h
      rw [List.cons_append, streamed, h.1, if_neg Bool.false_ne_true, ih h.2, ← List.append_assoc]
      rfl

/-- What the worker has taken from the calls. -/
def Worker.taken (w : Worker α) : List α :=
  sent w.posted ++ if w.hasPending then w.pendingNewResults else []

/-- Nothing waits but what is marked as pending, and what was taken is the beginning of
the list, as far as `f` looks. -/
structure Sends (f : α → β) (list : List β) (w : Worker α) : Prop where
  pending : w.hasPending = false → w.pendingNewResults = []
  taken : w.taken.map f = list.take w.lastSentCount
  count : w.lastSentCount ≤ list.length

theorem Sends.extend (h : Sends f list w) (hlist : list <+: list') : Sends f list' w := by
  obtain ⟨rest, rfl⟩ := hlist
  refine ⟨h.pending, ?_, ?_⟩
  · rw [h.taken, List.take_append_of_le_length h.count]
  · rw [List.length_append]
    exact Nat.le_add_right_of_le h.count

/-- A call takes what is new. -/
theorem taken_onProgress (hpending : w.hasPending = false → w.pendingNewResults = []) (now : ℚ)
    (call : ProgressCall α) :
    (w.onProgress now call).taken = w.taken ++ call.allResults.drop w.lastSentCount ∧
      ((w.onProgress now call).hasPending = false →
        (w.onProgress now call).pendingNewResults = []) := by
  unfold Worker.onProgress Worker.taken
  dsimp only
  split
  next =>
    refine ⟨?_, fun _ => rfl⟩
    rw [sent_append, sent_singleton]
    cases w.hasPending with
    | true => simp [WorkerToMain.newResults]
    | false => simp [WorkerToMain.newResults]
  next =>
    refine ⟨?_, nofun⟩
    cases hhas : w.hasPending with
    | true => simp
    | false => simp [hpending hhas]

theorem lastSentCount_onProgress (now : ℚ) (call : ProgressCall α) :
    (w.onProgress now call).lastSentCount = call.allResults.length := by
  unfold Worker.onProgress
  dsimp only
  split <;> rfl

theorem Sends.onProgress (h : Sends f list w) (now : ℚ) {call : ProgressCall α}
    (hcall : call.allResults.map f = list) : Sends f list (w.onProgress now call) := by
  obtain ⟨htaken, hpending⟩ := taken_onProgress h.pending now call
  have hlength : call.allResults.length = list.length := by rw [← hcall, List.length_map]
  refine ⟨hpending, ?_, ?_⟩
  · rw [htaken, List.map_append, h.taken, List.map_drop, hcall, List.take_append_drop,
      lastSentCount_onProgress, hlength, List.take_length]
  · rw [lastSentCount_onProgress, hlength]

theorem Sends.onCalls {calls : List (ProgressCall α)}
    (hcalls : ∀ call ∈ calls, call.allResults.map f = list) (clock : ℕ → ℚ) (h : Sends f list w) :
    Sends f list (w.onCalls clock calls) := by
  induction calls generalizing w clock with
  | nil => exact h
  | cons call calls ih =>
      rw [List.forall_mem_cons] at hcalls
      exact ih hcalls.2 _ (h.onProgress (clock 0) hcalls.1)

end Sent

/-! ## Runners that pass one growing list on -/

section Streaming

variable {α β : Type} {r : Runner α} {f : α → β} {ok : r.Choice → r.State → Prop}
  {rest : r.State → Prop}

/-- In the turns that meet `ok`, every call passes on what `list` is then, which only
grows and is the list of the promise.  Once the promise is resolved and `rest` holds, no
call is made. -/
structure AppendOnly (r : Runner α) (f : α → β) (ok : r.Choice → r.State → Prop)
    (rest : r.State → Prop) where
  Inv : r.State → Prop
  list : r.State → List β
  start : Inv r.start.1 ∧ ∀ call ∈ r.start.2, call.allResults.map f = list r.start.1
  step : ∀ {c s s' calls}, Inv s → ok c s → r.next c s = some (s', calls) →
    Inv s' ∧ list s <+: list s' ∧ ∀ call ∈ calls, call.allResults.map f = list s'
  returned : ∀ {s l}, Inv s → r.returned s = some l → l.map f = list s
  quiet : ∀ {c s s' calls}, Inv s → ok c s → (r.returned s).isSome = true → rest s →
    r.next c s = some (s', calls) → calls = [] ∧ (r.returned s').isSome = true ∧ rest s'

theorem posted_onProgress (w : Worker α) (now : ℚ) (call : ProgressCall α) :
    ∃ ms, (w.onProgress now call).posted = w.posted ++ ms ∧ ms.any (·.isDone) = false := by
  unfold Worker.onProgress
  dsimp only
  split
  next => exact ⟨_, rfl, rfl⟩
  next => exact ⟨[], (List.append_nil _).symm, rfl⟩

theorem posted_onCalls (w : Worker α) (clock : ℕ → ℚ) (calls : List (ProgressCall α)) :
    ∃ ms, (w.onCalls clock calls).posted = w.posted ++ ms ∧ ms.any (·.isDone) = false := by
  induction calls generalizing w clock with
  | nil => exact ⟨[], (List.append_nil _).symm, rfl⟩
  | cons call calls ih =>
      obtain ⟨ms, hposted, hms⟩ := posted_onProgress w (clock 0) call
      obtain ⟨ms', hposted', hms'⟩ := ih (w.onProgress (clock 0) call) (fun k => clock (k + 1))
      refine ⟨ms ++ ms', ?_, ?_⟩
      · rw [Worker.onCalls, hposted', hposted, List.append_assoc]
      · rw [List.any_append, hms, hms']
        rfl

theorem any_done_append {messages ms : List (WorkerToMain α)} (h : ms.any (·.isDone) = false) :
    (messages ++ ms).any (·.isDone) = messages.any (·.isDone) := by
  rw [List.any_append, h, Bool.or_false]

/-- What holds of a worker whose runner passes one growing list on. -/
structure WorkerInv (A : AppendOnly r f ok rest) (s : WorkerRun r) : Prop where
  runner : A.Inv s.runner
  going : s.finished = none →
    s.worker.posted.any (·.isDone) = false ∧ Sends f (A.list s.runner) s.worker
  ended : ∀ l, s.finished = some l →
    s.worker.posted.any (·.isDone) = true ∧ (streamed s.worker.posted).map f = l.map f

/-- A condition on turns is met. -/
def TurnMeets (ok : r.Choice → r.State → Prop) : WorkerChoice r.Choice → WorkerRun r → Prop
  | .turn c _, s => ok c s.runner
  | _, _ => True

variable {A : AppendOnly r f ok rest} {s s' : WorkerRun r} {ch : WorkerChoice r.Choice}

theorem workerStart_inv (A : AppendOnly r f ok rest) (clock : ℕ → ℚ) :
    WorkerInv A (workerStart r clock) := by
  obtain ⟨hinv, hcalls⟩ := A.start
  obtain ⟨ms, hposted, hms⟩ := posted_onCalls {} clock r.start.2
  have hempty : Sends f (A.list r.start.1) ({} : Worker α) := ⟨fun _ => rfl, rfl, Nat.zero_le _⟩
  refine ⟨hinv, fun _ => ⟨?_, hempty.onCalls hcalls clock⟩, nofun⟩
  show (Worker.onCalls {} clock r.start.2).posted.any (·.isDone) = false
  rw [hposted]
  exact hms

/-- At the end the pending results and the new ones are sent. -/
theorem finish_streamed {w : Worker α} {list : List β} {results : List α} (h : Sends f list w)
    (hdone : w.posted.any (·.isDone) = false) (hresults : results.map f = list) :
    (w.finish results).posted.any (·.isDone) = true ∧
      (streamed (w.finish results).posted).map f = results.map f := by
  have hflush : w.flush.posted.any (·.isDone) = false ∧ sent w.flush.posted = w.taken ∧
      w.flush.lastSentCount = w.lastSentCount := by
    unfold Worker.flush Worker.taken
    split
    next =>
      refine ⟨any_done_append rfl |>.trans hdone, ?_, rfl⟩
      rw [sent_append, sent_singleton]
      rfl
    next => exact ⟨hdone, (List.append_nil _).symm, rfl⟩
  obtain ⟨hnone, hsent, hcount⟩ := hflush
  refine ⟨by simp [Worker.finish, WorkerToMain.isDone], ?_⟩
  show (streamed (w.flush.posted ++ [.done (results.drop w.flush.lastSentCount)])).map f = _
  rw [streamed_done hnone, hsent, hcount, List.map_append, h.taken, List.map_drop, hresults,
    List.take_append_drop]

theorem WorkerInv.next (h : WorkerInv A s) (hok : TurnMeets ok ch s)
    (hnext : workerNext r ch s = some s') : WorkerInv A s' := by
  cases ch with
  | turn c clock =>
      obtain ⟨⟨t, calls⟩, hstep, rfl⟩ := Option.map_eq_some_iff.mp hnext
      obtain ⟨hinv, hlist, hcalls⟩ := A.step h.runner hok hstep
      obtain ⟨ms, hposted, hms⟩ := posted_onCalls s.worker clock calls
      refine ⟨hinv, fun hgoing => ?_, fun l hl => ?_⟩
      · obtain ⟨hnone, hsends⟩ := h.going hgoing
        refine ⟨?_, (hsends.extend hlist).onCalls hcalls clock⟩
        show (s.worker.onCalls clock calls).posted.any (·.isDone) = false
        rw [hposted, any_done_append hms, hnone]
      · obtain ⟨hdone, hstreamed⟩ := h.ended l hl
        show (s.worker.onCalls clock calls).posted.any (·.isDone) = true ∧
          (streamed (s.worker.onCalls clock calls).posted).map f = l.map f
        rw [hposted, any_done_append hms, streamed_append hdone]
        exact ⟨hdone, hstreamed⟩
  | done =>
      rw [workerNext] at hnext
      split at hnext
      next => cases hnext
      next hopen =>
        obtain ⟨results, hreturned, rfl⟩ := Option.map_eq_some_iff.mp hnext
        have hgoing : s.finished = none := by
          rw [Bool.or_eq_true, not_or, Bool.not_eq_true, Option.isSome_eq_false_iff] at hopen
          exact Option.isNone_iff_eq_none.mp hopen.1
        obtain ⟨hnone, hsends⟩ := h.going hgoing
        refine ⟨h.runner, nofun, fun l hl => ?_⟩
        obtain rfl := Option.some.inj hl
        exact finish_streamed hsends hnone (A.returned h.runner hreturned)
  | error =>
      rw [workerNext] at hnext
      split at hnext
      next hgoing =>
        obtain rfl := Option.some.inj hnext
        have hgoing : s.finished = none := by
          rw [Bool.and_eq_true, Bool.and_eq_true] at hgoing
          exact Option.isNone_iff_eq_none.mp hgoing.1.1
        obtain ⟨hnone, hsends⟩ := h.going hgoing
        refine ⟨h.runner, fun _ => ⟨?_, hsends.pending, ?_, hsends.count⟩, fun l hl => ?_⟩
        · exact any_done_append rfl |>.trans hnone
        · have htaken : s.worker.fail.taken = s.worker.taken := by
            show sent (s.worker.posted ++ [.error]) ++ _ = _
            rw [sent_append, sent_singleton]
            exact congrArg (· ++ _) (List.append_nil _)
          show s.worker.fail.taken.map f = _
          rw [htaken, hsends.taken]
          rfl
        · exact absurd (hgoing.symm.trans hl) nofun
      next => cases hnext

/-- In every run all of whose turns meet the condition, the new results of the messages
up to `done` are the list of `runTest`. -/
theorem streamed_eq (A : AppendOnly r f ok rest) {clock : ℕ → ℚ} {run : List (WorkerChoice r.Choice)}
    (hrun : exec (workerNext r) (workerStart r clock) run = some s)
    (hok : AllSteps (workerNext r) (TurnMeets ok) (workerStart r clock) run) {l : List α}
    (hl : s.finished = some l) : (streamed s.worker.posted).map f = l.map f :=
  ((exec_invariant (fun _ _ _ h hok hnext => h.next hok hnext) (workerStart_inv A clock) hok
    hrun).ended l hl).2

end Streaming

end RedFireForge.Engine
