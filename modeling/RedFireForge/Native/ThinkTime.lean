/-
# `RedFireForge.Native.ThinkTime` — what a think time paces

A request that has finished still occupies its slot while it thinks, where the slot is a
permit.  Under a load profile the counter comes down as soon as the request has finished, so
its slot goes to another while it thinks.  Nothing here is cancelled.
-/
import RedFireForge.Native.LoadExecutor

namespace RedFireForge.Native

open RedFireForge.Lib

/-- The request runs, or its think time has not elapsed. -/
def Request.unrested (clock : ℚ) (r : Request) : Bool :=
  r.phase == .running || decide (clock < r.restsAt)

namespace NativeLoad

/-- No slot has been given to a request while another request was not done with it. -/
def Paced (s : NativeLoad) : Prop := s.requests.countP (Request.unrested s.clock) ≤ s.launchLimit

instance (s : NativeLoad) : Decidable s.Paced := inferInstanceAs (Decidable (_ ≤ _))

/-- The launches between two times. -/
def launches (s : NativeLoad) (first last : ℚ) : ℕ :=
  s.requests.countP fun r => decide (first ≤ r.launchedAt ∧ r.launchedAt ≤ last)

end NativeLoad

namespace RunConfig

/-- The slots are permits, or nobody thinks, or nothing is launched at all. -/
def Paces (c : RunConfig) : Prop :=
  c.usesPermits = true ∨ (∀ d, c.thinkTime.Draws d → d = 0) ∨ c.more 0 = false ∨ c.timeLeft 0 = false

end RunConfig

/-! ## Times of a request -/

/-- The times of a request, at a time of the run. -/
structure Timed (t : ThinkTimeConfig) (clock : ℚ) (r : Request) : Prop where
  launched : r.launchedAt ≤ clock
  draws : r.phase ≠ .running → t.Draws r.think
  after : r.phase ≠ .running → r.launchedAt + r.think ≤ r.restsAt
  soon : r.phase ≠ .running → r.restsAt ≤ clock + r.think
  wakes : r.phase = .thinking → r.restsAt ≤ r.wakesAt
  rested : r.phase = .done → r.restsAt ≤ clock

theorem Timed.mono {t : ThinkTimeConfig} {clock clock' : ℚ} {r : Request} (h : Timed t clock r)
    (hle : clock ≤ clock') : Timed t clock' r where
  launched := h.launched.trans hle
  draws := h.draws
  after := h.after
  soon := fun hphase => (h.soon hphase).trans (by linarith)
  wakes := h.wakes
  rested := fun hphase => (h.rested hphase).trans hle

theorem timed_spawned (t : ThinkTimeConfig) (clock : ℚ) : Timed t clock (.spawned clock) where
  launched := le_rfl
  draws := fun h => absurd rfl h
  after := fun h => absurd rfl h
  soon := fun h => absurd rfl h
  wakes := nofun
  rested := nofun

namespace NativeLoad

variable {c : RunConfig} {s s' : NativeLoad} {l : ExecutorStep} {i : ℕ} {r : Request}

/-- Nothing is cancelled, and the times of the requests are in order. -/
def AllTimed (c : RunConfig) (s : NativeLoad) : Prop :=
  s.cancelled = false ∧ ∀ r ∈ s.requests, Timed c.thinkTime s.clock r

theorem AllTimed.update (h : AllTimed c s) {f : Request → Request} (hr : s.requests[i]? = some r)
    (hf : Timed c.thinkTime s.clock (f r)) : ∀ x ∈ (s.update i f).requests, Timed c.thinkTime s.clock x := by
  intro x hx
  obtain ⟨j, hj⟩ := List.mem_iff_getElem?.mp hx
  have hj : (s.requests.modify i f)[j]? = some x := hj
  rw [List.getElem?_modify] at hj
  obtain ⟨y, hy, rfl⟩ := Option.map_eq_some_iff.mp hj
  split
  next hij =>
    subst hij
    rw [hr] at hy
    cases hy
    exact hf
  next => exact h.2 y (List.mem_of_getElem? hy)

theorem AllTimed.step (h : AllTimed c s) (hl : l ≠ .cancel) (hnext : executorNext c l s = some s') :
    AllTimed c s' := by
  obtain ⟨hcan, rfl⟩ := next_eq_some hnext
  cases l with
  | elapse ms =>
      have hms : 0 ≤ ms := of_decide_eq_true hcan
      exact ⟨h.1, fun r hr => (h.2 r hr).mono (by show s.clock ≤ s.clock + ms; linarith)⟩
  | cancel => exact absurd rfl hl
  | trip => exact h
  | look => exact h
  | grant =>
      simp only [NativeLoad.step]
      split <;> exact h
  | retry => exact h
  | launch =>
      simp only [NativeLoad.step]
      split
      next =>
        refine ⟨h.1, fun r hr => ?_⟩
        rcases List.mem_append.mp hr with hr | hr
        · exact h.2 r hr
        · rw [List.mem_singleton.mp hr]
          exact timed_spawned _ _
      next => exact h
  | stop =>
      simp only [NativeLoad.step]
      split <;> exact h
  | finish i think =>
      simp only [can, Bool.and_eq_true, beq_iff_eq, decide_eq_true_eq] at hcan
      obtain ⟨r, hr, hphase⟩ := phaseOf_eq_some.mp hcan.1
      have hlaunched := (h.2 r (List.mem_of_getElem? hr)).launched
      refine ⟨h.1, h.update hr ⟨hlaunched, fun _ => hcan.2, fun _ => ?_, fun _ => le_rfl, (by rintro ⟨⟩), (by rintro ⟨⟩)⟩⟩
      show r.launchedAt + think ≤ s.clock + think
      linarith
  | send i =>
      simp only [can, beq_iff_eq] at hcan
      obtain ⟨r, hr, hphase⟩ := phaseOf_eq_some.mp hcan
      have ht := h.2 r (List.mem_of_getElem? hr)
      have hnot : r.phase ≠ .running := by
        rw [hphase]
        rintro ⟨⟩
      exact ⟨h.1, h.update hr ⟨ht.launched, fun _ => ht.draws hnot, fun _ => ht.after hnot,
        fun _ => ht.soon hnot, fun _ => ht.soon hnot, (by rintro ⟨⟩)⟩⟩
  | rest i =>
      simp only [can] at hcan
      obtain ⟨r, hr, hthinks⟩ := (Option.any_eq_true _ _).mp hcan
      rw [Bool.and_eq_true, beq_iff_eq, h.1, Bool.or_false, decide_eq_true_eq] at hthinks
      have ht := h.2 r (List.mem_of_getElem? hr)
      have hnot : r.phase ≠ .running := by
        rw [hthinks.1]
        rintro ⟨⟩
      exact ⟨h.1, h.update hr ⟨ht.launched, fun _ => ht.draws hnot, fun _ => ht.after hnot,
        fun _ => ht.soon hnot, (by rintro ⟨⟩), fun _ => (ht.wakes hthinks.1).trans hthinks.2⟩⟩
  | receive emit =>
      simp only [NativeLoad.step, NativeLoad.receive]
      split <;> exact h
  | drain => exact h
  | deliver =>
      simp only [NativeLoad.step, NativeLoad.deliver]
      split <;> exact h

/-! ## Paced runs -/

/-- Where the slots are permits, a request that is not rested holds one. -/
theorem unrested_le_busy (h : AllTimed c s) : s.requests.countP (Request.unrested s.clock) ≤ s.busy := by
  refine List.countP_mono_left fun r hr hunrested => ?_
  rw [bne_iff_ne]
  intro hdone
  have := (h.2 r hr).rested hdone
  rw [Request.unrested, hdone, Bool.or_eq_true, decide_eq_true_eq] at hunrested
  rcases hunrested with hrunning | hlt
  · cases hrunning
  · exact absurd hlt (not_lt.mpr this)

/-- Where nobody thinks, it runs. -/
theorem unrested_le_running (h : AllTimed c s) (hzero : ∀ d, c.thinkTime.Draws d → d = 0) :
    s.requests.countP (Request.unrested s.clock) ≤ s.running := by
  refine List.countP_mono_left fun r hr hunrested => ?_
  by_contra hnot
  have hphase : r.phase ≠ .running := fun h => hnot (by rw [h]; rfl)
  have ht := h.2 r hr
  have hsoon := ht.soon hphase
  rw [hzero _ (ht.draws hphase), Nat.cast_zero, add_zero] at hsoon
  rw [Request.unrested, Bool.or_eq_true, decide_eq_true_eq] at hunrested
  rcases hunrested with hrunning | hlt
  · exact hnot hrunning
  · exact absurd hlt (not_lt.mpr hsoon)

/-- A run that nothing is launched in. -/
def Idle (s : NativeLoad) : Prop :=
  s.requests = [] ∧ 0 ≤ s.clock ∧ (s.producer = .top ∨ s.producer = .stopped)

theorem timeLeft_zero (h : c.timeLeft 0 = false) {clockMs : ℚ} (h0 : 0 ≤ clockMs) :
    c.timeLeft clockMs = false := by
  unfold RunConfig.timeLeft at *
  cases hdriver : c.driver with
  | pool =>
      rw [hdriver] at h
      cases h
  | loadProfile plan =>
      rw [hdriver] at h
      exact decide_eq_false (not_lt.mpr ((not_lt.mp (of_decide_eq_false h)).trans h0))
  | constantArrival maxInFlight durationSec =>
      rw [hdriver] at h
      exact decide_eq_false (not_lt.mpr ((not_lt.mp (of_decide_eq_false h)).trans h0))

theorem Idle.step (hnone : c.more 0 = false ∨ c.timeLeft 0 = false) (h : s.Idle)
    (hnext : executorNext c l s = some s') : s'.Idle := by
  obtain ⟨hcan, rfl⟩ := next_eq_some hnext
  obtain ⟨hrequests, hclock, hproducer⟩ := h
  have hphase : ∀ i, s.phaseOf i = none := fun i => by rw [phaseOf, hrequests]; rfl
  cases l with
  | elapse ms =>
      have hms : 0 ≤ ms := of_decide_eq_true hcan
      exact ⟨hrequests, by show 0 ≤ s.clock + ms; linarith, hproducer⟩
  | cancel => exact ⟨hrequests, hclock, hproducer⟩
  | trip => exact ⟨hrequests, hclock, hproducer⟩
  | look =>
      -- the head of the loop does not go on
      simp only [can, goesOn, hrequests, List.length_nil, Bool.and_eq_true] at hcan
      rcases hnone with hmore | htime
      · rw [hmore] at hcan
        cases hcan.2.2
      · rw [timeLeft_zero htime hclock] at hcan
        cases hcan.2.1.2
  | grant =>
      rcases hproducer with hp | hp <;> simp only [can, hp] at hcan <;> cases hcan
  | retry =>
      rcases hproducer with hp | hp <;> simp only [can, hp] at hcan <;> cases hcan
  | launch =>
      rcases hproducer with hp | hp <;> simp only [can, hp] at hcan <;> cases hcan
  | stop =>
      simp only [NativeLoad.step]
      split <;> exact ⟨hrequests, hclock, Or.inr rfl⟩
  | finish i think =>
      simp only [can, hphase] at hcan
      cases hcan
  | send i =>
      simp only [can, hphase] at hcan
      cases hcan
  | rest i =>
      simp only [can, hrequests] at hcan
      cases hcan
  | receive emit =>
      simp only [NativeLoad.step, NativeLoad.receive]
      split <;> exact ⟨hrequests, hclock, hproducer⟩
  | drain => exact ⟨hrequests, hclock, hproducer⟩
  | deliver =>
      simp only [NativeLoad.step, NativeLoad.deliver]
      split <;> exact ⟨hrequests, hclock, hproducer⟩

theorem paced_of_permits (htimed : AllTimed c s) (hslots : SlotInv c s) (huse : c.usesPermits = true) :
    s.Paced := by
  have hbusy := unrested_le_busy htimed
  have hpermits := hslots.permits huse
  unfold Paced
  by_cases hnil : s.requests = []
  · rw [hnil]
    exact Nat.zero_le _
  · rw [hslots.launched huse hnil]
    omega

theorem paced_of_zero (htimed : AllTimed c s) (hslots : SlotInv c s)
    (hzero : ∀ d, c.thinkTime.Draws d → d = 0) : s.Paced :=
  (unrested_le_running htimed hzero).trans hslots.limited

theorem paced_of_idle (h : s.Idle) : s.Paced := by
  unfold Paced
  rw [h.1]
  exact Nat.zero_le _

/-! ## Windows -/

/-- A step launches one request, now, or it leaves the launches alone. -/
theorem launches_step (hnext : executorNext c l s = some s') :
    (∀ first last, s'.launches first last = s.launches first last) ∨
      s'.requests = s.requests ++ [.spawned s.clock] ∧ s'.clock = s.clock := by
  obtain ⟨hcan, rfl⟩ := next_eq_some hnext
  have hupdate : ∀ {i : ℕ} {r : Request} {f : Request → Request} {first last : ℚ},
      s.requests[i]? = some r → (f r).launchedAt = r.launchedAt →
      (s.requests.modify i f).countP (fun r => decide (first ≤ r.launchedAt ∧ r.launchedAt ≤ last)) =
        s.launches first last := by
    intro i r f first last hr hsame
    have hcount := countP_modify (f := f)
      (p := fun r => decide (first ≤ r.launchedAt ∧ r.launchedAt ≤ last)) hr
    rw [hsame] at hcount
    exact Nat.add_right_cancel hcount
  cases l with
  | launch =>
      simp only [NativeLoad.step]
      split
      next => exact Or.inr ⟨rfl, rfl⟩
      next => exact Or.inl fun _ _ => rfl
  | finish i think =>
      simp only [can, Bool.and_eq_true, beq_iff_eq] at hcan
      obtain ⟨r, hr, -⟩ := phaseOf_eq_some.mp hcan.1
      exact Or.inl fun _ _ => hupdate hr rfl
  | send i =>
      simp only [can, beq_iff_eq] at hcan
      obtain ⟨r, hr, -⟩ := phaseOf_eq_some.mp hcan
      exact Or.inl fun _ _ => hupdate hr rfl
  | rest i =>
      simp only [can] at hcan
      obtain ⟨r, hr, -⟩ := (Option.any_eq_true _ _).mp hcan
      exact Or.inl fun _ _ => hupdate hr rfl
  | elapse ms => exact Or.inl fun _ _ => rfl
  | cancel => exact Or.inl fun _ _ => rfl
  | trip => exact Or.inl fun _ _ => rfl
  | look => exact Or.inl fun _ _ => rfl
  | retry => exact Or.inl fun _ _ => rfl
  | drain => exact Or.inl fun _ _ => rfl
  | grant =>
      simp only [NativeLoad.step]
      split <;> exact Or.inl fun _ _ => rfl
  | stop =>
      simp only [NativeLoad.step]
      split <;> exact Or.inl fun _ _ => rfl
  | receive emit =>
      simp only [NativeLoad.step, NativeLoad.receive]
      split <;> exact Or.inl fun _ _ => rfl
  | deliver =>
      simp only [NativeLoad.step, NativeLoad.deliver]
      split <;> exact Or.inl fun _ _ => rfl

/-- Of the requests of a window that has come and is shorter than the think time, none has
rested. -/
theorem launches_le_unrested {delay : ℕ} (h : AllTimed c s) (hthink : c.thinkTime = .constant delay)
    {first last : ℚ} (hshort : last < first + delay) (hnow : s.clock ≤ last) :
    s.launches first last ≤ s.requests.countP (Request.unrested s.clock) := by
  refine List.countP_mono_left fun r hr hwithin => ?_
  obtain ⟨hfirst, -⟩ := of_decide_eq_true hwithin
  rw [Request.unrested, Bool.or_eq_true, beq_iff_eq, decide_eq_true_eq]
  by_cases hphase : r.phase = .running
  · exact Or.inl hphase
  · have hdraws := (h.2 r hr).draws hphase
    have hafter := (h.2 r hr).after hphase
    rw [hthink] at hdraws
    have hdelay : r.think = delay := hdraws
    rw [hdelay] at hafter
    exact Or.inr (by linarith)

/-- In a window shorter than the think time, no more are launched than there are slots. -/
def Spaced (c : RunConfig) (s : NativeLoad) : Prop :=
  ∀ delay, c.thinkTime = .constant delay → ∀ first last, last < first + (delay : ℚ) →
    s.launches first last ≤ c.limitAt 0

theorem Spaced.step (h : Spaced c s) (htimed : AllTimed c s') (hpaced : s'.Paced)
    (hlimit : s'.requests ≠ [] → s'.launchLimit = c.limitAt 0) (hnext : executorNext c l s = some s') :
    Spaced c s' := by
  intro delay hthink first last hshort
  rcases launches_step hnext with hsame | ⟨hlaunch, hclock⟩
  · rw [hsame]
    exact h delay hthink first last hshort
  · by_cases hnow : s.clock ≤ last
    · have hsome : s'.requests ≠ [] := by
        rw [hlaunch]
        exact List.append_ne_nil_of_right_ne_nil _ (List.cons_ne_nil _ _)
      calc s'.launches first last
          ≤ s'.requests.countP (Request.unrested s'.clock) :=
            launches_le_unrested htimed hthink hshort (hclock.trans_le hnow)
        _ ≤ s'.launchLimit := hpaced
        _ = c.limitAt 0 := hlimit hsome
    · -- the window is over
      have hnot : ([Request.spawned s.clock].countP fun r =>
          decide (first ≤ r.launchedAt ∧ r.launchedAt ≤ last)) = 0 :=
        List.countP_eq_zero.mpr fun r hr hwithin => by
          rw [List.mem_singleton.mp hr] at hwithin
          exact hnow (of_decide_eq_true hwithin).2
      rw [launches, hlaunch, List.countP_append, hnot]
      exact h delay hthink first last hshort

/-! ## A run that is not paced -/

/-- A request that has finished at the start of the run, and will think for so long. -/
def hurriedRequest (think : ℕ) : Request := ⟨.finished, 0, think, think, 0⟩

/-- So many requests have been launched at the start, each after the one before had finished. -/
def hurried (c : RunConfig) (think n : ℕ) : NativeLoad :=
  { initial c with
    requests := List.replicate n (hurriedRequest think)
    launchLimit := if n = 0 then 0 else c.limitAt 0 }

/-- One more is launched, and finishes. -/
def hurry (think n : ℕ) : List ExecutorStep := [.look, .grant, .launch, .finish n think]

theorem getTargetConcurrency_pos (plan : LoadPlan ℕ) (elapsedSec : ℚ) :
    0 < getTargetConcurrency plan elapsedSec := by
  have hmax : ∀ n : ℕ, 0 < max n 1 := fun n => Nat.lt_of_lt_of_le Nat.zero_lt_one (Nat.le_max_right _ _)
  have hceil : ∀ q : ℚ, 0 < asU32 (max q 1) := by
    intro q
    have hfloor : 1 ≤ (max q 1).floor := Rat.le_floor_iff.mpr (by exact_mod_cast le_max_right q 1)
    exact Nat.lt_min.mpr ⟨by omega, by norm_num⟩
  have hite : ∀ {p : Prop} [Decidable p] {a b : ℕ}, 0 < a → 0 < b → 0 < if p then a else b := by
    intro p _ a b ha hb
    split
    next => exact ha
    next => exact hb
  unfold getTargetConcurrency
  split
  · split
    · exact hite (hmax _) (hceil _)
    · exact hite (hmax _) (hceil _)
  · exact hite (hmax _) (hmax _)
  · exact hmax _

theorem limitAt_pos (t : ℚ) : 0 < c.limitAt t := by
  unfold RunConfig.limitAt
  split
  next => exact Nat.lt_of_lt_of_le Nat.zero_lt_one (Nat.le_max_right _ _)
  next => exact getTargetConcurrency_pos _ _
  next => exact Nat.lt_of_lt_of_le Nat.zero_lt_one (Nat.le_max_right _ _)

theorem modify_last {α : Type} (l : List α) (a : α) (f : α → α) :
    (l ++ [a]).modify l.length f = l ++ [f a] := by
  induction l with
  | nil => rfl
  | cons x l ih => exact congrArg (List.cons x) ih

theorem exec_hurry {plan : LoadPlan ℕ} (hdriver : c.driver = .loadProfile plan) {think : ℕ}
    (hdraws : c.thinkTime.Draws think) (hmore : c.more 0 = true) (htime : c.timeLeft 0 = true) (n : ℕ) :
    exec (executorNext c) (hurried c think n) (hurry think n) = some (hurried c think (n + 1)) := by
  have huse : c.usesPermits = false := by
    unfold RunConfig.usesPermits
    rw [hdriver]
  have hmore : ∀ launched, c.more launched = true := fun launched => by
    unfold RunConfig.more at *
    rw [hdriver] at *
    exact hmore
  have hlook : executorNext c .look (hurried c think n) =
      some { hurried c think n with producer := .waiting (c.limitAt 0) } := by
    refine if_pos ?_
    show (true && (true && c.timeLeft 0 && c.more _)) = true
    rw [htime, hmore]
    rfl
  have hgrant : executorNext c .grant { hurried c think n with producer := .waiting (c.limitAt 0) } =
      some { hurried c think n with producer := .ready (c.limitAt 0) } := by
    have hcan : NativeLoad.can c { hurried c think n with producer := .waiting (c.limitAt 0) } .grant = true := by
      show (hasSlot c _ (c.limitAt 0) && ticks c _) = true
      rw [hasSlot, huse, ticks, hdriver, Bool.and_true]
      exact decide_eq_true (limitAt_pos 0)
    rw [executorNext, if_pos hcan, NativeLoad.step, huse]
    rfl
  have hlaunch : executorNext c .launch { hurried c think n with producer := .ready (c.limitAt 0) } =
      some { hurried c think n with
        inFlight := 1
        requests := List.replicate n (hurriedRequest think) ++ [.spawned 0]
        launchLimit := c.limitAt 0 } := by
    have hcan : NativeLoad.can c { hurried c think n with producer := .ready (c.limitAt 0) } .launch = true := by
      simp only [can, hdriver]
      exact htime
    rw [executorNext, if_pos hcan, NativeLoad.step, huse]
    rfl
  have hfinish : executorNext c (.finish n think) { hurried c think n with
        inFlight := 1
        requests := List.replicate n (hurriedRequest think) ++ [.spawned 0]
        launchLimit := c.limitAt 0 } = some (hurried c think (n + 1)) := by
    have hcan : NativeLoad.can c { hurried c think n with
        inFlight := 1
        requests := List.replicate n (hurriedRequest think) ++ [.spawned 0]
        launchLimit := c.limitAt 0 } (.finish n think) = true := by
      have hget : (List.replicate n (hurriedRequest think) ++ [Request.spawned 0])[n]? =
          some (.spawned 0) := by
        rw [List.getElem?_append_right List.length_replicate.le, List.length_replicate, Nat.sub_self]
        rfl
      rw [can, phaseOf, hget]
      exact decide_eq_true hdraws
    have hmodify := modify_last (List.replicate n (hurriedRequest think)) (Request.spawned 0)
      fun r => { r with phase := .finished, think := think, restsAt := 0 + think }
    rw [List.length_replicate] at hmodify
    have hzero : (0 : ℚ) + think = think := zero_add _
    have hrequests : (List.replicate n (hurriedRequest think) ++ [Request.spawned 0]).modify n
        (fun r => { r with phase := .finished, think := think, restsAt := 0 + think }) =
          List.replicate (n + 1) (hurriedRequest think) := by
      rw [hmodify, List.replicate_succ', hzero]
      rfl
    rw [hzero] at hrequests
    rw [executorNext, if_pos hcan, NativeLoad.step, huse]
    simp [update, hurried, hrequests, hzero, initial]
  rw [hurry, exec_cons]
  exact ⟨_, hlook, exec_cons.mpr ⟨_, hgrant, exec_cons.mpr ⟨_, hlaunch, exec_cons.mpr ⟨_, hfinish, rfl⟩⟩⟩⟩

theorem exists_hurry {plan : LoadPlan ℕ} (hdriver : c.driver = .loadProfile plan) {think : ℕ}
    (hdraws : c.thinkTime.Draws think) (hmore : c.more 0 = true) (htime : c.timeLeft 0 = true) (n : ℕ) :
    ∃ ls, .cancel ∉ ls ∧ exec (executorNext c) (initial c) ls = some (hurried c think n) := by
  induction n with
  | zero => exact ⟨[], List.not_mem_nil, rfl⟩
  | succ n ih =>
      obtain ⟨ls, hls, hrun⟩ := ih
      refine ⟨ls ++ hurry think n, ?_, exec_append.mpr ⟨_, hrun, exec_hurry hdriver hdraws hmore htime n⟩⟩
      rw [List.mem_append, not_or]
      exact ⟨hls, by simp [hurry]⟩

theorem hurried_not_paced {think n : ℕ} (hthink : 0 < think) (hn : c.limitAt 0 < n) :
    ¬(hurried c think n).Paced := by
  have hunrested : (hurriedRequest think).unrested 0 = true :=
    Bool.or_eq_true_iff.mpr (Or.inr (decide_eq_true (Nat.cast_pos.mpr hthink)))
  have hcount : (List.replicate n (hurriedRequest think)).countP (Request.unrested 0) = n := by
    rw [List.countP_replicate, if_pos hunrested]
  intro hpaced
  have hle : (List.replicate n (hurriedRequest think)).countP (Request.unrested 0) ≤
      if n = 0 then 0 else c.limitAt 0 := hpaced
  rw [hcount, if_neg (by omega)] at hle
  omega

/-! ## Runs -/

theorem paced_run {ls : List ExecutorStep} (hnot : .cancel ∉ ls)
    (hrun : exec (executorNext c) (initial c) ls = some s) : SlotInv c s ∧ AllTimed c s := by
  have hok : AllSteps (executorNext c) (fun l _ => l ≠ .cancel) (initial c) ls :=
    allSteps_of_forall fun l hl heq => hnot (heq ▸ hl)
  exact exec_invariant (I := fun s => SlotInv c s ∧ AllTimed c s)
    (fun _ _ _ h hl hnext => ⟨h.1.step hnext, h.2.step hl hnext⟩)
    ⟨initial_slots, rfl, fun _ h => absurd h List.not_mem_nil⟩ hok hrun

theorem spaced_run (huse : c.usesPermits = true) {ls : List ExecutorStep} (hnot : .cancel ∉ ls)
    (hrun : exec (executorNext c) (initial c) ls = some s) : Spaced c s := by
  have hok : AllSteps (executorNext c) (fun l _ => l ≠ .cancel) (initial c) ls :=
    allSteps_of_forall fun l hl heq => hnot (heq ▸ hl)
  refine (exec_invariant (I := fun s => Spaced c s ∧ SlotInv c s ∧ AllTimed c s)
    (fun l s s' h hl hnext => ?_) ⟨fun _ _ _ _ _ => Nat.zero_le _, initial_slots, rfl, fun _ h =>
      absurd h List.not_mem_nil⟩ hok hrun).1
  obtain ⟨hspaced, hslots, htimed⟩ := h
  have hslots' := hslots.step hnext
  have htimed' := htimed.step hl hnext
  exact ⟨hspaced.step htimed' (paced_of_permits htimed' hslots' huse) (hslots'.launched huse) hnext, hslots',
    htimed'⟩

theorem idle_run (hnone : c.more 0 = false ∨ c.timeLeft 0 = false) {ls : List ExecutorStep}
    (hrun : exec (executorNext c) (initial c) ls = some s) : s.Idle :=
  exec_invariant' (fun _ _ _ h hnext => h.step hnone hnext) ⟨rfl, le_rfl, Or.inl rfl⟩ hrun

theorem launches_of_empty {first last : ℚ} (hempty : last < first) : s.launches first last = 0 :=
  List.countP_eq_zero.mpr fun r _ hwithin => by
    obtain ⟨hfirst, hlast⟩ := of_decide_eq_true hwithin
    linarith

end NativeLoad

/-- One request at a time of a profile, each of which thinks for five seconds. -/
def thinkingRun : RunConfig where
  driver := .loadProfile ⟨[none], 1, 60, "sustained", none, none, none, none⟩
  scenarios := 1
  thinkTime := .constant 5000
  detailLevel := .full

open NativeLoad in
def threeAtOnce : List ExecutorStep := hurry 5000 0 ++ hurry 5000 1 ++ hurry 5000 2

end RedFireForge.Native
