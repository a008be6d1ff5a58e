/-
# `RedFireForge.Workflow.PollThrottle` — polls that share one semaphore

The iterations of a load run share `pollSemaphore`.  A `waitForCondition` node
holds a permit from `acquire` to `release`, that is while its whole body is
visited, and a node of the body may acquire again.  `Proc.clear` counts the
permits held by executions none of whose visits waits on the semaphore; a load
run is stuck once an acquire waits and no such permit is left.
-/
import Mathlib.Data.Multiset.Bind
import RedFireForge.Workflow.Termination

namespace RedFireForge.Workflow

open RedFireForge.Lib

/-! ## A load run -/

/-- Iterations of one workflow, with the state of `pollSemaphore` they share. -/
structure Load where
  sem : Semaphore
  runs : List Config

def Load.works (L : Load) : List Work := L.runs.map Config.work

def Load.frames (L : Load) : Multiset Frame := (L.works : Multiset Work).bind Proc.frames

inductive LoadChoice
  /-- an iteration begins -/
  | begin
  /-- iteration `i` moves -/
  | move (i : ℕ) (path : List Side) (env : Env)
  | abort (i : ℕ)
deriving DecidableEq, Repr

/-- Iteration `i` moves with the shared semaphore. -/
def Load.move (g : Graph) (L : Load) (i : ℕ) (path : List Side) (env : Env) : Option Load :=
  (L.runs[i]?.bind (fun c =>
    next g (.step path env) { c with state := c.state.withPolls (some L.sem) })).map
      fun c => ⟨c.state.pollSemaphore.getD L.sem, L.runs.set i c⟩

def loadNext (g : Graph) : LoadChoice → Load → Option Load
  | .begin, L => some { L with runs := L.runs ++ [initial g (some L.sem) false] }
  | .move i path env, L => L.move g i path env
  | .abort i, L => some { L with
      runs := L.runs.modify i fun c => { c with state := { c.state with aborted := true } } }

/-- `new Semaphore(maxConcurrentPolls)`, before any iteration. -/
def loadInitial (maxConcurrentPolls : ℕ) : Load := ⟨⟨maxConcurrentPolls, [], 0⟩, []⟩

/-! ## Permits -/

/-- The ticket of a frame that called `acquire` and has not gone on. -/
def Frame.ticket : Frame → Option ℕ
  | .handler _ (.pollAcquire _ ticket) => some ticket
  | _ => none

/-- The frame is between the call of `acquire` and that of `release`. -/
def Frame.polls : Frame → Bool
  | .handler _ (.pollAcquire _ _) | .handler _ (.walking (.polled _) _) => true
  | _ => false

/-- Its resolver is still queued. -/
def Frame.waitsOn (q : Semaphore) (f : Frame) : Bool := f.ticket.any q.waiting.contains

/-- It has a permit. -/
def Frame.holds (q : Semaphore) (f : Frame) : Bool := f.polls && !f.waitsOn q

/-- Permits held by executions none of whose visits waits on the semaphore. -/
def freePermits (q : Semaphore) (works : List Work) : ℕ :=
  (works.map (Proc.clear (Frame.holds q) (Frame.waitsOn q))).sum

/-- Some acquire waits only while some permit is held by an execution that does
not. -/
def Load.Live (L : Load) : Prop := L.sem.waiting ≠ [] → 0 < freePermits L.sem L.works

/-- The frame is at the head of a poll loop whose tests let it through to an
`acquire` that finds no permit. -/
def Frame.mustWait (q : Semaphore) (s : RunState) (env : Env) : Frame → Bool
  | .handler v (.pollTest attempt) =>
      match v.type with
      | .waitForCondition d =>
          q.permits == 0 && !s.aborted &&
            !decide (0 < d.timeoutMs ∧ d.timeoutMs ≤ env.elapsed) &&
            !decide (0 < d.maxAttempts ∧ d.maxAttempts ≤ attempt)
      | _ => false
  | _ => false

/-- An acquire that has to wait finds a permit whose holder does not wait and is
not among the callers of the acquire. -/
def acquiresSafely : LoadChoice → Load → Bool
  | .move i path env, L =>
      match L.runs[i]? with
      | some c =>
          match c.work.split path with
          | some (ctx, f) =>
              !f.mustWait L.sem c.state env ||
                decide (0 < ctx.clear (Frame.holds L.sem) (Frame.waitsOn L.sem) true +
                  freePermits L.sem (L.works.eraseIdx i))
          | none => true
      | none => true
  | _, _ => true

/-! ## What a step does to the semaphore -/

inductive PollMoves (q : Semaphore) : Frame → Semaphore → Work → Prop
  | quiet {f : Frame} {w : Work} : f.polls = false → (∀ f' ∈ w.frames, f'.polls = false) →
      PollMoves q f q w
  | walk {v : Visit} {n : ℕ} {e : WorkflowEdge} {es : List WorkflowEdge} :
      PollMoves q (.handler v (.walking (.polled n) (e :: es))) q
        (v.await (.walking (.polled n) es) (visitEdge e))
  | granted {v : Visit} {n ticket : ℕ} {es : List WorkflowEdge} : ticket ∉ q.waiting →
      PollMoves q (.handler v (.pollAcquire n ticket)) q (v.goto (.walking (.polled n) es))
  | take {v : Visit} {n : ℕ} {es : List WorkflowEdge} : q.permits > 0 →
      PollMoves q (.handler v (.pollTest n)) q.acquire.1 (v.goto (.walking (.polled n) es))
  | queue {v : Visit} {n : ℕ} : q.permits = 0 →
      PollMoves q (.handler v (.pollTest n)) q.acquire.1 (v.goto (.pollAcquire n q.nextTicket))
  | release {v : Visit} {n : ℕ} {w : Work} : (∀ f' ∈ w.frames, f'.polls = false) →
      PollMoves q (.handler v (.walking (.polled n) [])) q.release w

section Steps

variable {g : Graph} {s s' : RunState} {f : Frame} {w : Work} {q : Semaphore} {anc : List Frame}

theorem Enters.polls {v : Visit} (h : Enters g s v s' w) :
    s'.pollSemaphore = s.pollSemaphore ∧ ∀ f' ∈ w.frames, f'.polls = false := by
  cases h <;> simp [Frame.polls]

theorem Moves.polls (hm : Moves g s f s' w) (hq : s.pollSemaphore = some q) :
    ∃ q', s'.pollSemaphore = some q' ∧ PollMoves q f q' w := by
  cases hm
  case started =>
    refine ⟨q, hq, .quiet rfl ?_⟩
    rcases errorConfigVisit_cases g s with h | ⟨entry, h⟩ <;> simp [h, Frame.polls]
  case startCut =>
    refine ⟨q, hq, .quiet rfl ?_⟩
    rcases errorConfigVisit_cases g s with h | ⟨entry, h⟩ <;> simp [h, Frame.polls]
  case enter hen => exact ⟨q, by simpa [hen.polls.1] using hq, .quiet rfl hen.polls.2⟩
  case resume hen => exact ⟨q, by simpa [hen.polls.1] using hq, .quiet rfl hen.polls.2⟩
  case walk v k e es =>
    cases k with
    | polled n => exact ⟨q, hq, .walk⟩
    | _ => exact ⟨q, hq, .quiet rfl (by simp [Frame.polls])⟩
  case poll hsem =>
    rcases hsem with ⟨hnone, -⟩ | ⟨q', hq', hpermits, hsem⟩
    · rw [hnone] at hq
      cases hq
    · rw [hq'] at hq
      cases hq
      exact ⟨_, by simp [hsem], .take hpermits⟩
  case pollQueued hsem hpermits =>
    rw [hsem] at hq
    cases hq
    exact ⟨_, rfl, .queue hpermits⟩
  case pollGranted hfree => exact ⟨q, hq, .granted (hfree q hq)⟩
  case pollMet => exact ⟨_, by simp [hq], .release (by simp [Frame.polls])⟩
  case pollAgain => exact ⟨_, by simp [hq], .release (by simp [Frame.polls])⟩
  all_goals exact ⟨q, by simpa using hq, .quiet rfl (by simp [Frame.polls])⟩

theorem PollMoves.nextTicket {q' : Semaphore} (hp : PollMoves q f q' w)
    (hf : ∀ v n, f ≠ .handler v (.pollTest n)) : q'.nextTicket = q.nextTicket := by
  cases hp
  case take => exact absurd rfl (hf _ _)
  case queue => exact absurd rfl (hf _ _)
  case release =>
    unfold Semaphore.release
    split <;> rfl
  all_goals rfl

theorem pollStep_mustWait {env : Env} {v : Visit} {d : WaitForConditionNodeData} {n : ℕ}
    {q' : Semaphore} (ht : v.type = .waitForCondition d) (hq : s.pollSemaphore = some q)
    (h : pollStep g env s v d n = some (s', w)) (hq' : s'.pollSemaphore = some q') :
    (Frame.handler v (.pollTest n)).mustWait q s env = true ↔ q'.nextTicket ≠ q.nextTicket := by
  simp only [Frame.mustWait, ht]
  unfold pollStep at h
  split at h
  · cases h
  split at h
  · cases h
    have hsame : q = q' := by simpa [pollExit, hq] using hq'
    simp_all
  split at h
  · cases h
    have hsame : q = q' := by simpa [pollExit, hq] using hq'
    simp_all
  split at h
  · cases h
    have hsame : q = q' := by simpa [pollExit, hq] using hq'
    simp_all
  next ha htime hmax =>
    simp only [hq] at h
    by_cases hpermits : q.permits > 0
    · simp only [Semaphore.acquire, if_pos hpermits, Option.some.injEq, Prod.mk.injEq] at h
      obtain ⟨rfl, -⟩ := h
      have hsame : { q with permits := q.permits - 1 } = q' := by simpa using hq'
      subst hsame
      simp [Nat.ne_of_gt hpermits]
    · simp only [Semaphore.acquire, if_neg hpermits, Option.some.injEq, Prod.mk.injEq] at h
      obtain ⟨rfl, -⟩ := h
      have hsame : { q with
          waiting := q.waiting ++ [q.nextTicket], nextTicket := q.nextTicket + 1 } = q' := by
        simpa using hq'
      subst hsame
      simp only [ha, htime, hmax]
      simp
      omega

/-- The condition looks at the state before the step, and tells whether a ticket
is issued. -/
theorem resumeFrame_mustWait {env : Env} {q' : Semaphore} (hq : s.pollSemaphore = some q)
    (h : resumeFrame g env s f = some (s', w)) (hq' : s'.pollSemaphore = some q') :
    f.mustWait q s env = true ↔ q'.nextTicket ≠ q.nextTicket := by
  by_cases hf : ∃ v n, f = .handler v (.pollTest n)
  · obtain ⟨v, n, rfl⟩ := hf
    simp only [resumeFrame, resumeHandler] at h
    split at h
    next ht => exact pollStep_mustWait ht hq h hq'
    next => cases h
  · obtain ⟨q₁, hq₁, hp⟩ := (resumeFrame_moves h).polls hq
    rw [hq₁, Option.some.injEq] at hq'
    subst hq'
    have hsame := hp.nextTicket (fun v n hpc => hf ⟨v, n, hpc⟩)
    have hgo : f.mustWait q s env = false := by
      unfold Frame.mustWait
      split
      next v n => exact absurd ⟨v, n, rfl⟩ hf
      next => rfl
    simp [hsame, hgo]

end Steps

/-! ## A move of an iteration -/

@[simp] theorem mustWait_withPolls {q : Semaphore} {q' : Option Semaphore} {s : RunState}
    {env : Env} {f : Frame} : f.mustWait q (s.withPolls q') env = f.mustWait q s env := by
  unfold Frame.mustWait
  rfl

/-- **Inversion of a move**: one frame of one iteration is resumed with the shared
semaphore, the other iterations are left alone. -/
theorem Load.move_cases {g : Graph} {L L' : Load} {i : ℕ} {path : List Side} {env : Env}
    (h : L.move g i path env = some L') :
    ∃ (pre post : List Work) (c : Config) (ctx : Ctx Frame) (f : Frame) (sub w : Work),
      L.runs[i]? = some c ∧ c.work.split path = some (ctx, f) ∧ sub.isDone = true ∧
        pre.length = i ∧ L.works = pre ++ ctx.plug (.call f sub) :: post ∧
          L'.works = pre ++ ctx.plug w :: post ∧ PollMoves L.sem f L'.sem w ∧
            (f.mustWait L.sem c.state env = true ↔ L'.sem.nextTicket ≠ L.sem.nextTicket) := by
  obtain ⟨c', hc', rfl⟩ := Option.map_eq_some_iff.mp h
  obtain ⟨c, hc, hnext⟩ := Option.bind_eq_some_iff.mp hc'
  obtain ⟨hi, rfl⟩ := List.getElem?_eq_some_iff.mp hc
  obtain ⟨ctx, f, sub, w, hdone, hsplit, hf, hwork, hwork'⟩ := next_step_split hnext
  obtain ⟨q', hq', hp⟩ := (resumeFrame_moves hf).polls rfl
  obtain ⟨pre, post, hruns, hlen, hset⟩ : ∃ pre post, L.runs = pre ++ L.runs[i] :: post ∧
      pre.length = i ∧ L.runs.set i c' = pre ++ c' :: post := List.exists_of_set hi
  refine ⟨pre.map Config.work, post.map Config.work, _, ctx, f, sub, w, hc, hsplit, hdone,
    by simpa using hlen, ?_, ?_, by simpa [hq'] using hp,
    by simpa [hq'] using resumeFrame_mustWait rfl hf hq'⟩
  · rw [Load.works, hruns, List.map_append, List.map_cons, ← hwork]
  · rw [Load.works, hset, List.map_append, List.map_cons, hwork']

theorem Load.frames_of_works {L : Load} {pre post : List Work} {t : Work}
    (h : L.works = pre ++ t :: post) :
    L.frames = t.frames + (↑(pre ++ post) : Multiset Work).bind Proc.frames := by
  rw [Load.frames, h, Multiset.coe_eq_coe.mpr List.perm_middle, ← Multiset.cons_coe,
    Multiset.cons_bind]

/-! ## What the semaphore and the frames agree on -/

/-- What holds of the semaphore and the frames of all iterations. -/
structure LoadInv (L : Load) : Prop where
  saturated : 0 < L.sem.permits → L.sem.waiting = []
  fresh : ∀ t ∈ L.sem.waiting, t < L.sem.nextTicket
  nodup : L.sem.waiting.Nodup
  issued : ∀ f ∈ L.frames, ∀ ticket ∈ f.ticket, ticket < L.sem.nextTicket
  /-- a queued resolver belongs to a frame -/
  queued : ∀ ticket ∈ L.sem.waiting, ∃ f ∈ L.frames, f.ticket = some ticket
  /-- no frame awaits anything at its acquire -/
  idle : ∀ t ∈ L.works, t.Each (fun anc _ => anc.all (fun f => !f.ticket.isSome) = true) []

section Polls

variable {q q' : Semaphore} {f : Frame} {w : Work} {anc : List Frame}

theorem ticket_of_polls (h : f.polls = false) : f.ticket = none := by
  unfold Frame.polls at h
  unfold Frame.ticket
  split at h <;> simp_all

theorem Semaphore.release_waiting : q.release.waiting = q.waiting.tail := by
  unfold Semaphore.release
  split <;> simp_all

theorem PollMoves.each (hp : PollMoves q f q' w)
    (hanc : anc.all (fun f => !f.ticket.isSome) = true) :
    w.Each (fun anc _ => anc.all (fun f => !f.ticket.isSome) = true) anc := by
  cases hp
  case quiet hw => exact Proc.each_of_frames hanc (fun f hf => by simp [ticket_of_polls (hw f hf)])
  case release hw =>
    exact Proc.each_of_frames hanc (fun f hf => by simp [ticket_of_polls (hw f hf)])
  case walk => exact ⟨hanc, by simpa [Frame.ticket] using hanc, trivial⟩
  all_goals exact ⟨hanc, trivial⟩

/-- The tickets of the task that takes the frame's place. -/
theorem PollMoves.issued (hp : PollMoves q f q' w) :
    q.nextTicket ≤ q'.nextTicket ∧ ∀ f' ∈ w.frames, ∀ t ∈ f'.ticket, t < q'.nextTicket := by
  cases hp
  case quiet hw => exact ⟨le_rfl, fun f' hf' t ht => by simp [ticket_of_polls (hw f' hf')] at ht⟩
  case release hw =>
    refine ⟨le_of_eq ?_, fun f' hf' t ht => by simp [ticket_of_polls (hw f' hf')] at ht⟩
    unfold Semaphore.release
    split <;> rfl
  case walk => exact ⟨le_rfl, by simp [Visit.await, visitEdge, Frame.ticket]⟩
  case granted => exact ⟨le_rfl, by simp [Visit.goto, Frame.ticket]⟩
  case take hpermits => simp [Semaphore.acquire, if_pos hpermits, Visit.goto, Frame.ticket]
  case queue hpermits => simp [Semaphore.acquire, hpermits, Visit.goto, Frame.ticket]

/-- Every queued ticket was queued before, and not by the frame that moves, or is
that of the new frame. -/
theorem PollMoves.queued (hp : PollMoves q f q' w) {t : ℕ} (ht : t ∈ q'.waiting) :
    (t ∈ q.waiting ∧ f.ticket ≠ some t) ∨ ∃ f' ∈ w.frames, f'.ticket = some t := by
  cases hp
  case quiet hf hw => exact Or.inl ⟨ht, by simp [ticket_of_polls hf]⟩
  case walk => exact Or.inl ⟨ht, by simp [Frame.ticket]⟩
  case granted hfree =>
    refine Or.inl ⟨ht, fun hsome => hfree ?_⟩
    simp only [Frame.ticket, Option.some.injEq] at hsome
    exact hsome ▸ ht
  case take hpermits =>
    exact Or.inl ⟨by simpa [Semaphore.acquire, if_pos hpermits] using ht, by simp [Frame.ticket]⟩
  case queue hpermits =>
    simp only [Semaphore.acquire, hpermits, gt_iff_lt, lt_irrefl, if_false, List.mem_append,
      List.mem_singleton] at ht
    rcases ht with ht | rfl
    · exact Or.inl ⟨ht, by simp [Frame.ticket]⟩
    · exact Or.inr (by simp [Visit.goto, Frame.ticket])
  case release =>
    rw [Semaphore.release_waiting] at ht
    exact Or.inl ⟨List.mem_of_mem_tail ht, by simp [Frame.ticket]⟩

/-- What the semaphore knows of itself. -/
theorem PollMoves.semaphore (hp : PollMoves q f q' w) (hsat : 0 < q.permits → q.waiting = [])
    (hfresh : ∀ t ∈ q.waiting, t < q.nextTicket) (hnodup : q.waiting.Nodup) :
    (0 < q'.permits → q'.waiting = []) ∧ (∀ t ∈ q'.waiting, t < q'.nextTicket) ∧
      q'.waiting.Nodup := by
  cases hp
  case take hpermits => simp [Semaphore.acquire, if_pos hpermits, hsat hpermits]
  case queue hpermits =>
    simp only [Semaphore.acquire, hpermits, gt_iff_lt, lt_irrefl, if_false]
    refine ⟨False.elim, fun t ht => ?_, ?_⟩
    · rcases List.mem_append.mp ht with ht | ht
      · exact Nat.lt_succ_of_lt (hfresh t ht)
      · exact List.mem_singleton.mp ht ▸ Nat.lt_succ_self _
    · exact List.nodup_append.mpr ⟨hnodup, List.nodup_singleton _, fun t ht t' ht' => by
        have := hfresh t ht
        have := List.mem_singleton.mp ht'
        omega⟩
  case release =>
    unfold Semaphore.release
    split
    next t rest hwait =>
      rw [hwait] at hsat hfresh hnodup
      exact ⟨fun h => absurd (hsat h) (List.cons_ne_nil _ _),
        fun t' ht' => hfresh t' (List.mem_cons_of_mem _ ht'), (List.nodup_cons.mp hnodup).2⟩
    next hwait => simp [hwait]
  all_goals exact ⟨hsat, hfresh, hnodup⟩

end Polls

section Loads

variable {g : Graph} {L L' : Load} {l : LoadChoice}

theorem LoadInv.move {i : ℕ} {path : List Side} {env : Env} (hI : LoadInv L)
    (h : L.move g i path env = some L') : LoadInv L' := by
  obtain ⟨pre, post, c, ctx, f, sub, w, -, -, hdone, -, hworks, hworks', hp, -⟩ :=
    Load.move_cases h
  obtain ⟨hsat, hfresh, hnodup⟩ := hp.semaphore hI.saturated hI.fresh hI.nodup
  obtain ⟨hle, hnew⟩ := hp.issued
  have hframes : L.frames =
      f ::ₘ (ctx.frames + (↑(pre ++ post) : Multiset Work).bind Proc.frames) := by
    rw [Load.frames_of_works hworks, ctx.frames_plug, Proc.frames_call,
      Proc.frames_of_isDone hdone, Multiset.add_cons, add_zero, Multiset.cons_add]
  have hframes' : L'.frames =
      w.frames + (ctx.frames + (↑(pre ++ post) : Multiset Work).bind Proc.frames) := by
    rw [Load.frames_of_works hworks', ctx.frames_plug, add_comm ctx.frames, add_assoc]
  have hissued := hI.issued
  have hqueued := hI.queued
  have hidle := hI.idle
  rw [hframes] at hissued hqueued
  rw [hworks, List.forall_mem_append, List.forall_mem_cons, Ctx.each_plug] at hidle
  refine ⟨hsat, hfresh, hnodup, ?_, fun ticket ht => ?_, ?_⟩
  · rw [hframes']
    intro f' hf' ticket ht
    rcases Multiset.mem_add.mp hf' with hf' | hf'
    · exact hnew f' hf' ticket ht
    · exact lt_of_lt_of_le (hissued f' (Multiset.mem_cons_of_mem hf') ticket ht) hle
  · rw [hframes']
    rcases hp.queued ht with ⟨ht, hne⟩ | ⟨f', hf', hticket⟩
    · obtain ⟨f', hf', hticket⟩ := hqueued ticket ht
      rcases Multiset.mem_cons.mp hf' with rfl | hf'
      · exact absurd hticket hne
      · exact ⟨f', Multiset.mem_add.mpr (Or.inr hf'), hticket⟩
    · exact ⟨f', Multiset.mem_add.mpr (Or.inl hf'), hticket⟩
  · rw [hworks', List.forall_mem_append, List.forall_mem_cons, Ctx.each_plug]
    exact ⟨hidle.1, ⟨hidle.2.1.1, hp.each hidle.2.1.2.1⟩, hidle.2.2⟩

/-- Beginning an iteration adds no frame that polls. -/
theorem initial_polls (g : Graph) (q : Option Semaphore) (aborted : Bool) :
    ∀ f ∈ (initial g q aborted).work.frames, f.polls = false := by
  unfold initial
  split <;> simp [Frame.polls]

theorem LoadInv.congr {L L' : Load} (hI : LoadInv L) (hsem : L'.sem = L.sem)
    (hworks : L'.works = L.works) : LoadInv L' := by
  have hframes : L'.frames = L.frames := by rw [Load.frames, hworks, Load.frames]
  exact ⟨hsem ▸ hI.saturated, hsem ▸ hI.fresh, hsem ▸ hI.nodup, by rw [hframes, hsem]; exact hI.issued,
    by rw [hframes, hsem]; exact hI.queued, hworks ▸ hI.idle⟩

theorem Load.works_abort (L : Load) (i : ℕ) :
    (L.runs.modify i fun c => { c with state := { c.state with aborted := true } }).map
      Config.work = L.works := by
  refine List.ext_getElem (by simp [Load.works]) (fun j _ _ => ?_)
  simp only [Load.works, List.getElem_map, List.getElem_modify]
  split <;> rfl

theorem LoadInv.begin (hI : LoadInv L) (h : loadNext g .begin L = some L') : LoadInv L' := by
  cases h
  have hnew := initial_polls g (some L.sem) false
  have hworks : (Load.mk L.sem (L.runs ++ [initial g (some L.sem) false])).works =
      L.works ++ [(initial g (some L.sem) false).work] := by simp [Load.works]
  have hframes := Load.frames_of_works hworks
  rw [List.append_nil, ← Load.frames] at hframes
  refine ⟨hI.saturated, hI.fresh, hI.nodup, ?_, ?_, ?_⟩
  · rw [hframes]
    intro f hf ticket ht
    rcases Multiset.mem_add.mp hf with hf | hf
    · simp [ticket_of_polls (hnew f hf)] at ht
    · exact hI.issued f hf ticket ht
  · rw [hframes]
    intro ticket ht
    obtain ⟨f, hf, hticket⟩ := hI.queued ticket ht
    exact ⟨f, Multiset.mem_add.mpr (Or.inr hf), hticket⟩
  · rw [hworks, List.forall_mem_append]
    refine ⟨hI.idle, fun t ht => ?_⟩
    cases List.mem_singleton.mp ht
    exact Proc.each_of_frames rfl (fun f hf => by simp [ticket_of_polls (hnew f hf)])

theorem LoadInv.step (hI : LoadInv L) (h : loadNext g l L = some L') : LoadInv L' := by
  cases l with
  | begin => exact hI.begin h
  | move i path env => exact hI.move h
  | abort i =>
      cases h
      exact hI.congr rfl (L.works_abort i)

theorem loadInitial_inv (maxConcurrentPolls : ℕ) : LoadInv (loadInitial maxConcurrentPolls) where
  saturated _ := rfl
  fresh := by simp [loadInitial]
  nodup := List.nodup_nil
  issued := by simp [loadInitial, Load.frames, Load.works]
  queued := by simp [loadInitial]
  idle := by simp [loadInitial, Load.works]

end Loads

/-! ## Free permits -/

section Free

variable {g : Graph} {L L' : Load} {q q' : Semaphore} {f : Frame} {v : Visit} {w sub : Work}
  {ctx : Ctx Frame} {pre post : List Work} {t : Work} {n : ℕ}

theorem freePermits_middle (q : Semaphore) (pre post : List Work) (t : Work) :
    freePermits q (pre ++ t :: post) =
      t.clear (Frame.holds q) (Frame.waitsOn q) + freePermits q (pre ++ post) := by
  simp only [freePermits, List.map_append, List.map_cons, List.sum_append, List.sum_cons]
  omega

/-- Tasks that wait and count alike are exchangeable. -/
theorem freePermits_congr {u : Work} (hhas : t.has (Frame.waitsOn q) = u.has (Frame.waitsOn q))
    (hclear : t.clear (Frame.holds q) (Frame.waitsOn q) =
      u.clear (Frame.holds q) (Frame.waitsOn q)) :
    freePermits q (pre ++ ctx.plug t :: post) = freePermits q (pre ++ ctx.plug u :: post) := by
  simp only [freePermits_middle, Ctx.clear_plug, hhas, hclear]

theorem freePermits_pos (hI : LoadInv L) (hf : f ∈ L.frames) (hticket : f.ticket.isSome = true)
    (hholds : f.holds L.sem = true) : 0 < freePermits L.sem L.works := by
  obtain ⟨t, ht, hft⟩ := Multiset.mem_bind.mp hf
  have hpos := Proc.clear_pos (p := Frame.waitsOn L.sem) (hI.idle t ht) hft hticket hholds
  exact List.sum_pos_iff_exists_pos_nat.mpr ⟨_, List.mem_map_of_mem ht, hpos⟩

theorem waitsOn_of_polls (h : f.polls = false) : f.waitsOn q = false := by
  simp [Frame.waitsOn, ticket_of_polls h]

/-- Frames outside the semaphore do not count. -/
theorem count_of_polls (h : ∀ f ∈ t.frames, f.polls = false) :
    t.has (Frame.waitsOn q) = false ∧ t.clear (Frame.holds q) (Frame.waitsOn q) = 0 :=
  ⟨Proc.has_eq_false.mpr (fun f hf => waitsOn_of_polls (h f hf)),
    Proc.clear_eq_zero (fun f hf => by simp [Frame.holds, h f hf])⟩

/-- A frame that awaits nothing counts by itself. -/
theorem count_call (h : ∀ f ∈ sub.frames, f.polls = false) :
    (Proc.call f sub).has (Frame.waitsOn q) = f.waitsOn q ∧
      (Proc.call f sub).clear (Frame.holds q) (Frame.waitsOn q) = (f.holds q).toNat := by
  obtain ⟨hhas, hclear⟩ := count_of_polls (q := q) h
  simp [Proc.has, Proc.clear, hhas, hclear]

/-- A move of the first three kinds neither takes nor gives back a permit: the
new task waits and counts as the frame did. -/
theorem PollMoves.count (hp : PollMoves q f q' w) (hsub : ∀ f ∈ sub.frames, f.polls = false) :
    (q' = q ∧ w.has (Frame.waitsOn q) = (Proc.call f sub).has (Frame.waitsOn q) ∧
        w.clear (Frame.holds q) (Frame.waitsOn q) =
          (Proc.call f sub).clear (Frame.holds q) (Frame.waitsOn q)) ∨
      (0 < q.permits ∧ q' = q.acquire.1) ∨
      (q.permits = 0 ∧ q' = q.acquire.1 ∧ f.polls = false ∧
        ∃ (v : Visit) (n : ℕ), w = v.goto (.pollAcquire n q.nextTicket)) ∨
      (q' = q.release ∧ ∃ v n, f = .handler v (.walking (.polled n) [])) := by
  obtain ⟨hhas, hclear⟩ := count_call (f := f) (q := q) hsub
  cases hp
  case quiet hf hw =>
    obtain ⟨hhas', hclear'⟩ := count_of_polls (q := q) hw
    exact Or.inl ⟨rfl, by rw [hhas, hhas', waitsOn_of_polls hf],
      by rw [hclear, hclear']; simp [Frame.holds, hf]⟩
  case walk v n e es =>
    have hvisit : ∀ f ∈ (visitEdge e).frames, f.polls = false := by simp [visitEdge, Frame.polls]
    obtain ⟨hhas', hclear'⟩ :=
      count_call (f := .handler v (.walking (.polled n) es)) (q := q) hvisit
    exact Or.inl ⟨rfl, hhas'.trans hhas.symm, hclear'.trans hclear.symm⟩
  case granted v n ticket es hfree =>
    have hwaits : (Frame.handler v (.pollAcquire n ticket)).waitsOn q = false := by
      simp [Frame.waitsOn, Frame.ticket, hfree]
    have hnone : ∀ f ∈ (Proc.done : Work).frames, f.polls = false := by simp
    obtain ⟨hhas', hclear'⟩ := count_call (f := .handler v (.walking (.polled n) es)) (q := q) hnone
    have hholds : (Frame.handler v (.pollAcquire n ticket)).holds q = true := by
      simp [Frame.holds, Frame.polls, hwaits]
    exact Or.inl ⟨rfl, hhas'.trans (by rw [hhas, hwaits]; rfl),
      hclear'.trans (by rw [hclear, hholds]; rfl)⟩
  case take hpermits => exact Or.inr (Or.inl ⟨hpermits, rfl⟩)
  case queue v n hpermits => exact Or.inr (Or.inr (Or.inl ⟨hpermits, rfl, rfl, v, n, rfl⟩))
  case release v n _ => exact Or.inr (Or.inr (Or.inr ⟨rfl, v, n, rfl⟩))

theorem acquiresSafely_move {c : Config} {i : ℕ} {path : List Side} {env : Env}
    (hc : L.runs[i]? = some c) (hsplit : c.work.split path = some (ctx, f))
    (hlen : pre.length = i) (hworks : L.works = pre ++ t :: post) :
    acquiresSafely (.move i path env) L = true ↔
      (f.mustWait L.sem c.state env = true →
        0 < ctx.clear (Frame.holds L.sem) (Frame.waitsOn L.sem) true +
          freePermits L.sem (pre ++ post)) := by
  have herase : L.works.eraseIdx i = pre ++ post := by
    rw [hworks, ← hlen, List.eraseIdx_append_of_length_le le_rfl, Nat.sub_self,
      List.eraseIdx_cons_zero]
  simp only [acquiresSafely, hc, hsplit, herase, Bool.or_eq_true, Bool.not_eq_true',
    decide_eq_true_eq]
  cases f.mustWait L.sem c.state env <;> simp

theorem waitsOn_acquire (hpermits : q.permits = 0)
    (hf : ∀ ticket ∈ f.ticket, ticket < q.nextTicket) :
    f.waitsOn q.acquire.1 = f.waitsOn q := by
  unfold Frame.waitsOn
  cases hticket : f.ticket with
  | none => rfl
  | some ticket =>
      have hne : ticket ≠ q.nextTicket := Nat.ne_of_lt (hf ticket hticket)
      simp [Semaphore.acquire, hpermits, hne]

theorem holds_acquire (hpermits : q.permits = 0)
    (hf : ∀ ticket ∈ f.ticket, ticket < q.nextTicket) :
    f.holds q.acquire.1 = f.holds q := by
  rw [Frame.holds, Frame.holds, waitsOn_acquire hpermits hf]

/-- A queued acquire waits inside its callers; the other frames see no change. -/
theorem freePermits_queue (hpermits : q.permits = 0)
    (hctx : ∀ f ∈ ctx.frames, ∀ ticket ∈ f.ticket, ticket < q.nextTicket)
    (hothers : ∀ t ∈ pre ++ post, ∀ f ∈ t.frames, ∀ ticket ∈ f.ticket, ticket < q.nextTicket) :
    freePermits q.acquire.1 (pre ++ ctx.plug (v.goto (.pollAcquire n q.nextTicket)) :: post) =
      ctx.clear (Frame.holds q) (Frame.waitsOn q) true + freePermits q (pre ++ post) := by
  have hwaits : (Frame.handler v (.pollAcquire n q.nextTicket)).waitsOn q.acquire.1 = true := by
    simp [Frame.waitsOn, Frame.ticket, Semaphore.acquire, hpermits]
  have hnew : (v.goto (.pollAcquire n q.nextTicket)).clear (Frame.holds q.acquire.1)
      (Frame.waitsOn q.acquire.1) = 0 :=
    Proc.clear_eq_zero (by simp [Visit.goto, Frame.holds, hwaits])
  have hhas : (v.goto (.pollAcquire n q.nextTicket)).has (Frame.waitsOn q.acquire.1) = true := by
    simp [Visit.goto, Proc.has, hwaits]
  have hsame : freePermits q.acquire.1 (pre ++ post) = freePermits q (pre ++ post) := by
    refine congrArg List.sum (List.map_congr_left (fun t ht => ?_))
    exact Proc.clear_congr (fun f hf => holds_acquire hpermits (hothers t ht f hf))
      (fun f hf => waitsOn_acquire hpermits (hothers t ht f hf))
  rw [freePermits_middle, Ctx.clear_plug, hhas, hnew, hsame, Nat.add_zero,
    Ctx.clear_congr (fun f hf => holds_acquire hpermits (hctx f hf))
      (fun f hf => waitsOn_acquire hpermits (hctx f hf))]

/-- Where a permit is given back, one was held. -/
theorem freePermits_release (hsub : ∀ f ∈ sub.frames, f.polls = false) :
    0 < freePermits q
      (pre ++ ctx.plug (.call (.handler v (.walking (.polled n) [])) sub) :: post) := by
  have hholds : (Frame.handler v (.walking (.polled n) [])).holds q = true := rfl
  rw [freePermits_middle, Ctx.clear_plug, (count_call hsub).2, hholds, Bool.toNat_true]
  omega

/-- It goes to a frame that awaits nothing. -/
theorem LoadInv.released (hI : LoadInv L) (hI' : LoadInv L') (hsem : L'.sem = L.sem.release)
    (hframes : ∀ f ∈ L.frames, f.ticket.isSome = true → f ∈ L'.frames)
    (hwaiting : L'.sem.waiting ≠ []) : 0 < freePermits L'.sem L'.works := by
  rw [hsem, Semaphore.release_waiting] at hwaiting
  obtain ⟨ticket, rest, hrest⟩ : ∃ ticket rest, L.sem.waiting = ticket :: rest := by
    cases hw : L.sem.waiting with
    | nil => simp [hw] at hwaiting
    | cons ticket rest => exact ⟨ticket, rest, rfl⟩
  obtain ⟨f, hf, hticket⟩ := hI.queued ticket (by simp [hrest])
  have hnodup := hI.nodup
  rw [hrest, List.nodup_cons] at hnodup
  refine freePermits_pos hI' (hframes f hf (by simp [hticket])) (by simp [hticket]) ?_
  have hpolls : f.polls = true := by
    by_contra hno
    simp [ticket_of_polls (Bool.eq_false_iff.mpr hno)] at hticket
  simp [Frame.holds, hpolls, Frame.waitsOn, hticket, hsem, Semaphore.release_waiting, hrest,
    hnodup.1]

/-- Whether some permit is free stays as it is, but that an acquire may have to
wait; a permit given back goes to a frame that awaits nothing. -/
theorem LoadInv.live_move {i : ℕ} {path : List Side} {env : Env} (hI : LoadInv L)
    (h : L.move g i path env = some L') :
    L'.Live ↔ L.Live ∧ acquiresSafely (.move i path env) L = true := by
  have hI' := hI.move h
  obtain ⟨pre, post, c, ctx, f, sub, w, hc, hsplit, hdone, hlen, hworks, hworks', hp, hmust⟩ :=
    Load.move_cases h
  have hsub : ∀ f ∈ sub.frames, f.polls = false := by simp [Proc.frames_of_isDone hdone]
  rw [acquiresSafely_move hc hsplit hlen hworks, hmust, Load.Live, Load.Live]
  rcases hp.count hsub with ⟨hsem, hhas, hclear⟩ | ⟨hpermits, hsem⟩ |
    ⟨hpermits, hsem, hf, v, n, rfl⟩ | ⟨hsem, v, n, rfl⟩
  · rw [hworks, hworks', hsem, freePermits_congr hhas hclear]
    simp
  · simp [hsem, Semaphore.acquire, if_pos hpermits, hI.saturated hpermits]
  · have hissued := hI.issued
    rw [Load.frames_of_works hworks, ctx.frames_plug] at hissued
    have hctx : ∀ f ∈ ctx.frames, ∀ ticket ∈ f.ticket, ticket < L.sem.nextTicket :=
      fun f hf => hissued f (Multiset.mem_add.mpr (Or.inl (Multiset.mem_add.mpr (Or.inl hf))))
    have hothers : ∀ t ∈ pre ++ post, ∀ f ∈ t.frames, ∀ ticket ∈ f.ticket,
        ticket < L.sem.nextTicket :=
      fun t ht f hf => hissued f (Multiset.mem_add.mpr (Or.inr (Multiset.mem_bind.mpr ⟨t, ht, hf⟩)))
    have hle : ctx.clear (Frame.holds L.sem) (Frame.waitsOn L.sem) true +
        freePermits L.sem (pre ++ post) ≤ freePermits L.sem L.works := by
      rw [hworks, freePermits_middle, Ctx.clear_plug]
      have := ctx.clear_true_le (Frame.holds L.sem) (Frame.waitsOn L.sem)
        ((Proc.call f sub).has (Frame.waitsOn L.sem))
      omega
    have hwaiting : L.sem.acquire.1.waiting ≠ [] := by simp [Semaphore.acquire, hpermits]
    have hticket : L.sem.acquire.1.nextTicket ≠ L.sem.nextTicket := by
      simp [Semaphore.acquire, hpermits]
    rw [hworks', hsem, freePermits_queue hpermits hctx hothers]
    exact ⟨fun hlive => ⟨fun _ => lt_of_lt_of_le (hlive hwaiting) hle, fun _ => hlive hwaiting⟩,
      fun hok _ => hok.2 hticket⟩
  · have hheld : 0 < freePermits L.sem L.works := hworks ▸ freePermits_release hsub
    have hticket : L'.sem.nextTicket = L.sem.nextTicket := by
      rw [hsem, Semaphore.release]
      split <;> rfl
    have hkept : ∀ f ∈ L.frames, f.ticket.isSome = true → f ∈ L'.frames := by
      rw [Load.frames_of_works hworks, Load.frames_of_works hworks', ctx.frames_plug,
        ctx.frames_plug, Proc.frames_call, Proc.frames_of_isDone hdone]
      intro f hf hticket
      simp only [Multiset.mem_add, Multiset.mem_cons, Multiset.notMem_zero, or_false] at hf ⊢
      rcases hf with (hf | rfl) | hf
      · exact Or.inl (Or.inl hf)
      · simp [Frame.ticket] at hticket
      · exact Or.inr hf
    exact ⟨fun _ => ⟨fun _ => hheld, fun hne => absurd hticket hne⟩,
      fun _ => hI.released hI' hsem hkept⟩

theorem LoadInv.live_step {l : LoadChoice} (hI : LoadInv L) (h : loadNext g l L = some L') :
    L'.Live ↔ L.Live ∧ acquiresSafely l L = true := by
  cases l with
  | begin =>
      cases h
      obtain ⟨-, hclear⟩ := count_of_polls (q := L.sem) (initial_polls g (some L.sem) false)
      have hworks : (Load.mk L.sem (L.runs ++ [initial g (some L.sem) false])).works =
        L.works ++ [(initial g (some L.sem) false).work] := by simp [Load.works]
      simp only [Load.Live, hworks, freePermits_middle, hclear, List.append_nil, Nat.zero_add]
      simp [acquiresSafely]
  | move i path env => exact hI.live_move h
  | abort i =>
      cases h
      simp [Load.Live, Load.works, L.works_abort i, acquiresSafely]

end Free

def nestedPolls : Graph where
  nodes := [⟨"start", .action .start⟩, ⟨"outer", .waitForCondition ⟨100, 0, 0⟩⟩,
    ⟨"inner", .waitForCondition ⟨100, 0, 0⟩⟩, ⟨"call", .action .http⟩]
  edges := [⟨"e0", "start", "outer", none, none⟩, ⟨"e1", "outer", "inner", some "body", none⟩,
    ⟨"e2", "inner", "call", some "body", none⟩]
  handlerEntryNodeId := none
  debugController := false

/-- Iteration `i` makes `n` moves. -/
def movesAt (i n : ℕ) : List LoadChoice := List.replicate n (.move i [] {})

instance (L : Load) : Decidable L.Live := inferInstanceAs (Decidable (_ → _))

end RedFireForge.Workflow
