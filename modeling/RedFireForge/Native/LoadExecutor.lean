/-
# `RedFireForge.Native.LoadExecutor` — the three native load drivers

`run_pool`, `run_load_profile` and `run_constant_arrival` have a producer that spawns
requests, and a loop that collects their results from a channel and emits them in batches.
The slots of two drivers are permits of a semaphore, which a request gives back when its
think time is over; the third compares a counter with a target, and a request lowers the
counter before it thinks.  What the client holds is made from the events alone.
-/
import RedFireForge.Lib.Run
import RedFireForge.Native.LoadProfile

namespace RedFireForge.Native

open RedFireForge.Lib

/-! ## Configuration -/

inductive Driver
  | pool (concurrency : ℕ)
  | loadProfile (plan : LoadPlan ℕ)
  | constantArrival (maxInFlight durationSec : ℕ)
deriving DecidableEq, Repr

inductive ThinkTimeConfig
  | none
  | constant (delayMs : ℕ)
  | uniform (minMs maxMs : ℕ)
  | gaussian (meanMs stdDevMs : ℕ)
deriving DecidableEq, Repr

/-- What `compute_think_time` may return; a normal value may be anything, once it varies. -/
def ThinkTimeConfig.Draws : ThinkTimeConfig → ℕ → Prop
  | .none, d => d = 0
  | .constant delayMs, d => d = delayMs
  | .uniform minMs maxMs, d => if maxMs ≤ minMs then d = minMs else minMs ≤ d ∧ d ≤ maxMs
  | .gaussian meanMs stdDevMs, d => stdDevMs ≠ 0 ∨ d = meanMs

instance (t : ThinkTimeConfig) (d : ℕ) : Decidable (t.Draws d) := by
  unfold ThinkTimeConfig.Draws
  split <;> infer_instance

inductive DetailLevel
  | full | metricsOnly | sampled
deriving DecidableEq, Repr

/-- A run: how many scenarios it has does not depend on which they are. -/
structure RunConfig where
  driver : Driver
  scenarios : ℕ
  thinkTime : ThinkTimeConfig
  detailLevel : DetailLevel
deriving DecidableEq, Repr

namespace RunConfig

variable (c : RunConfig)

/-- The slots of the driver are permits. -/
def usesPermits : Bool :=
  match c.driver with
  | .loadProfile _ => false
  | _ => true

/-- The limit in force at a time of the run. -/
def limitAt (clockMs : ℚ) : ℕ :=
  match c.driver with
  | .pool concurrency => max concurrency 1
  | .loadProfile plan => getTargetConcurrency plan (clockMs / 1000)
  | .constantArrival maxInFlight _ => max maxInFlight 1

/-- `start.elapsed() < duration` -/
def timeLeft (clockMs : ℚ) : Bool :=
  match c.driver with
  | .pool _ => true
  | .loadProfile plan => decide (clockMs < plan.durationSec * 1000)
  | .constantArrival _ durationSec => decide (clockMs < durationSec * 1000)

/-- There is a scenario to launch after `launched` ones: the pool runs each once. -/
def more (launched : ℕ) : Bool :=
  match c.driver with
  | .pool _ => decide (launched < c.scenarios)
  | _ => decide (0 < c.scenarios)

end RunConfig

/-! ## State -/

inductive RequestPhase
  | running
  /-- with its result, which is not sent yet -/
  | finished
  | thinking
  | done
deriving DecidableEq, Repr

/-- A spawned request.  `think` is drawn, and counted from the end of the request in
`restsAt`, once it has finished; from `wakesAt` on the delay is over, once it thinks. -/
structure Request where
  phase : RequestPhase
  launchedAt : ℚ
  think : ℕ
  restsAt : ℚ
  wakesAt : ℚ
deriving DecidableEq, Repr

def Request.spawned (clock : ℚ) : Request := ⟨.running, clock, 0, 0, 0⟩

inductive Producer
  /-- at the head of its loop -/
  | top
  /-- it has read the limit, and waits for a slot -/
  | waiting (limit : ℕ)
  /-- it has found one -/
  | ready (limit : ℕ)
  | stopped
deriving DecidableEq, Repr

inductive Event
  | progress (results : List ℕ)
  | finalResults (results : List ℕ)
  | complete
deriving DecidableEq, Repr

/-- Results are named by their requests.  A driver goes by its `permits` or by its counter
`inFlight`; `inbox` are the events that have not been delivered, and `held` is what
`runTestViaRust` holds. -/
structure NativeLoad where
  clock : ℚ
  cancelled : Bool
  tripped : Bool
  producer : Producer
  permits : ℕ
  inFlight : ℕ
  requests : List Request
  /-- the limit in force at the last launch -/
  launchLimit : ℕ
  channel : List ℕ
  allResults : List ℕ
  batch : List ℕ
  returned : Bool
  inbox : List Event
  held : List ℕ
  resolved : Bool
deriving DecidableEq, Repr

def filterBatch (detailLevel : DetailLevel) (batch : List ℕ) : List ℕ :=
  match detailLevel with
  | .full => batch
  | .metricsOnly => []
  | .sampled => batch.take 10

/-- What the event makes of the results that the client holds. -/
def onEvent (held : List ℕ) : Event → List ℕ
  | .progress results => held ++ results
  | .finalResults results => results
  | .complete => held

/-! ## Steps -/

inductive ExecutorStep
  | elapse (ms : ℚ)
  | cancel
  | trip
  /-- the producer looks at the flags and the limit -/
  | look
  | grant
  /-- there is no slot -/
  | retry
  | launch
  | stop
  /-- request `i` ends, and will think for so long -/
  | finish (i think : ℕ)
  | send (i : ℕ)
  /-- the think time of request `i` is over, or cancelled -/
  | rest (i : ℕ)
  /-- the loop receives a result, and may emit the batch -/
  | receive (emit : Bool)
  /-- the loop has ended -/
  | drain
  | deliver
deriving DecidableEq, Repr

namespace NativeLoad

def initial (c : RunConfig) : NativeLoad where
  clock := 0
  cancelled := false
  tripped := false
  producer := .top
  permits := c.limitAt 0
  inFlight := 0
  requests := []
  launchLimit := 0
  channel := []
  allResults := []
  batch := []
  returned := false
  inbox := []
  held := []
  resolved := false

variable (c : RunConfig) (s : NativeLoad)

/-- The head of the loop goes on. -/
def goesOn : Bool :=
  !s.cancelled && !s.tripped && c.timeLeft s.clock && c.more s.requests.length

/-- There is a slot. -/
def hasSlot (limit : ℕ) : Bool :=
  if c.usesPermits then decide (0 < s.permits) else decide (s.inFlight < limit)

/-- After a tick the time is looked at once more. -/
def ticks : Bool :=
  match c.driver with
  | .constantArrival _ _ => c.timeLeft s.clock
  | _ => true

/-- The producer breaks out of its loop. -/
def breaks : Bool :=
  match s.producer, c.driver with
  | .top, _ => !s.goesOn c
  | .waiting _, _ => s.cancelled || !s.ticks c
  | .ready _, .constantArrival _ _ => false
  | .ready _, _ => s.tripped || !c.timeLeft s.clock
  | .stopped, _ => false

def phaseOf (i : ℕ) : Option RequestPhase := s.requests[i]?.map Request.phase

/-- A step is possible. -/
def can : ExecutorStep → Bool
  | .elapse ms => decide (0 ≤ ms)
  | .cancel | .trip => true
  | .look => s.producer == .top && s.goesOn c
  | .grant =>
      match s.producer with
      | .waiting limit => s.hasSlot c limit && s.ticks c
      | _ => false
  | .retry =>
      match s.producer, c.driver with
      | .waiting _, .pool _ => false
      | .waiting limit, _ => !s.hasSlot c limit && s.ticks c
      | _, _ => false
  | .launch =>
      match s.producer, c.driver with
      | .ready _, .constantArrival _ _ => true
      | .ready _, _ => !s.tripped && c.timeLeft s.clock
      | _, _ => false
  | .stop => s.breaks c
  | .finish i think => s.phaseOf i == some .running && decide (c.thinkTime.Draws think)
  | .send i => s.phaseOf i == some .finished
  | .rest i => s.requests[i]?.any fun r =>
      r.phase == .thinking && (decide (r.wakesAt ≤ s.clock) || s.cancelled)
  | .receive emit =>
      s.channel != [] && !s.returned && (emit || (!s.cancelled && !s.tripped)) &&
        -- the loop of `run_pool` starts when all is spawned
        (match c.driver with
          | .pool _ => s.producer == .stopped
          | _ => true)
  | .drain =>
      !s.returned && s.channel == [] && s.producer == .stopped && s.requests.all (·.phase == .done)
  | .deliver => s.inbox != []

/-- The events after the loop. -/
def finalEvents : List Event :=
  (if s.batch = [] then [] else [.progress s.batch]) ++
    (if c.detailLevel = .full ∨ s.allResults = [] then [] else [.finalResults s.allResults]) ++ [.complete]

def update (i : ℕ) (f : Request → Request) : NativeLoad := { s with requests := s.requests.modify i f }

def receive (emit : Bool) : NativeLoad :=
  match s.channel with
  | [] => s
  | result :: channel =>
      let batch := if c.detailLevel = .metricsOnly then s.batch else s.batch ++ [result]
      { s with
        channel := channel
        allResults := s.allResults ++ [result]
        batch := if emit then [] else batch
        inbox := if emit then s.inbox ++ [.progress (filterBatch c.detailLevel batch)] else s.inbox }

def deliver : NativeLoad :=
  match s.inbox with
  | [] => s
  | event :: inbox =>
      { s with
        inbox := inbox
        held := onEvent s.held event
        resolved := s.resolved || event == .complete }

def step : ExecutorStep → NativeLoad
  | .elapse ms => { s with clock := s.clock + ms }
  | .cancel => { s with cancelled := true }
  | .trip => { s with tripped := true }
  | .look => { s with producer := .waiting (c.limitAt s.clock) }
  | .grant =>
      match s.producer with
      | .waiting limit =>
          { s with
            producer := .ready limit
            permits := if c.usesPermits then s.permits - 1 else s.permits }
      | _ => s
  | .retry => { s with producer := .top }
  | .launch =>
      match s.producer with
      | .ready limit =>
          { s with
            producer := .top
            inFlight := if c.usesPermits then s.inFlight else s.inFlight + 1
            requests := s.requests ++ [.spawned s.clock]
            launchLimit := limit }
      | _ => s
  | .stop =>
      match s.producer with
      | .ready _ =>
          { s with producer := .stopped, permits := if c.usesPermits then s.permits + 1 else s.permits }
      | _ => { s with producer := .stopped }
  | .finish i think =>
      { s.update i (fun r => { r with phase := .finished, think := think, restsAt := s.clock + think }) with
        inFlight := if c.usesPermits then s.inFlight else s.inFlight - 1 }
  | .send i =>
      { s.update i (fun r => { r with phase := .thinking, wakesAt := s.clock + r.think }) with
        channel := s.channel ++ [i] }
  | .rest i =>
      { s.update i (fun r => { r with phase := .done }) with
        permits := if c.usesPermits then s.permits + 1 else s.permits }
  | .receive emit => s.receive c emit
  | .drain => { s with returned := true, inbox := s.inbox ++ s.finalEvents c }
  | .deliver => s.deliver

end NativeLoad

def executorNext (c : RunConfig) (l : ExecutorStep) (s : NativeLoad) : Option NativeLoad :=
  if s.can c l = true then some (s.step c l) else none

namespace NativeLoad

/-! ## Slots -/

def running (s : NativeLoad) : ℕ := s.requests.countP (·.phase == .running)

/-- The requests that hold a permit. -/
def busy (s : NativeLoad) : ℕ := s.requests.countP (·.phase != .done)

/-- The permit of the producer. -/
def holding (s : NativeLoad) : ℕ :=
  match s.producer with
  | .ready _ => 1
  | _ => 0

structure SlotInv (c : RunConfig) (s : NativeLoad) : Prop where
  permits : c.usesPermits = true → s.permits + s.busy + s.holding = c.limitAt 0
  counter : c.usesPermits = false →
    s.inFlight = s.running ∧ ∀ limit, s.producer = .ready limit → s.inFlight < limit
  limits : c.usesPermits = true →
    ∀ limit, s.producer = .waiting limit ∨ s.producer = .ready limit → limit = c.limitAt 0
  limited : s.running ≤ s.launchLimit
  launched : c.usesPermits = true → s.requests ≠ [] → s.launchLimit = c.limitAt 0

variable {c : RunConfig} {s s' : NativeLoad} {l : ExecutorStep} {i : ℕ} {r : Request}

theorem next_eq_some (h : executorNext c l s = some s') : s.can c l = true ∧ s' = s.step c l := by
  unfold executorNext at h
  split at h
  next hcan => exact ⟨hcan, (Option.some.inj h).symm⟩
  next => cases h

theorem countP_modify {α : Type} {l : List α} {p : α → Bool} {f : α → α} {a : α} (h : l[i]? = some a) :
    (l.modify i f).countP p + (if p a then 1 else 0) = l.countP p + if p (f a) then 1 else 0 := by
  induction l generalizing i with
  | nil => cases h
  | cons x l ih =>
      cases i with
      | zero =>
          cases h
          rw [List.modify_zero_cons, List.countP_cons, List.countP_cons]
          omega
      | succ i =>
          have hrec := ih (i := i) (by simpa using h)
          rw [List.modify_succ_cons, List.countP_cons, List.countP_cons]
          omega

theorem phaseOf_eq_some {phase : RequestPhase} :
    s.phaseOf i = some phase ↔ ∃ r, s.requests[i]? = some r ∧ r.phase = phase :=
  Option.map_eq_some_iff

theorem limitAt_const (h : c.usesPermits = true) (clockMs : ℚ) : c.limitAt clockMs = c.limitAt 0 := by
  unfold RunConfig.usesPermits at h
  unfold RunConfig.limitAt
  split at h
  next => cases h
  next hdriver =>
    cases hd : c.driver with
    | pool concurrency => rfl
    | loadProfile plan => exact absurd hd (hdriver plan)
    | constantArrival maxInFlight durationSec => rfl

theorem initial_slots : SlotInv c (initial c) where
  permits := fun _ => rfl
  counter := fun _ => ⟨rfl, nofun⟩
  limits := fun _ _ h => by rcases h with h | h <;> cases h
  limited := Nat.le_refl 0
  launched := fun _ h => absurd rfl h

/-- What the producer and the requests leave alone. -/
theorem SlotInv.congr (h : SlotInv c s) (hproducer : s'.producer = s.producer)
    (hpermits : s'.permits = s.permits) (hcounter : s'.inFlight = s.inFlight)
    (hrequests : s'.requests = s.requests) (hlimit : s'.launchLimit = s.launchLimit) : SlotInv c s' := by
  obtain ⟨h1, h2, h3, h4, h5⟩ := h
  simp only [busy, running, holding] at *
  constructor <;> simp only [busy, running, holding, hproducer, hpermits, hcounter, hrequests, hlimit] <;>
    assumption

/-- A request goes on. -/
theorem SlotInv.update (h : SlotInv c s) (hr : s.requests[i]? = some r) (permits inFlight : ℕ)
    {f : Request → Request}
    (hpermits : c.usesPermits = true →
      permits + (if (f r).phase != .done then 1 else 0) = s.permits + if r.phase != .done then 1 else 0)
    (hcounter : c.usesPermits = false →
      inFlight + (if r.phase == .running then 1 else 0) = s.inFlight + if (f r).phase == .running then 1 else 0)
    (hnot : ((f r).phase == .running) = false) :
    SlotInv c { s.update i f with permits := permits, inFlight := inFlight } := by
  have hrunning := countP_modify (p := (·.phase == .running)) (f := f) hr
  have hbusy := countP_modify (p := (·.phase != .done)) (f := f) hr
  have hsome : s.requests ≠ [] := by
    rintro hnil
    rw [hnil] at hr
    cases hr
  have hless : (s.requests.modify i f).countP (·.phase == .running) ≤ s.running := by
    rw [hnot] at hrunning
    unfold running
    simp only [Bool.false_eq_true, if_false] at hrunning
    omega
  refine ⟨fun huse => ?_, fun huse => ⟨?_, fun limit hready => ?_⟩, h.limits, ?_, fun huse _ => ?_⟩
  · have := h.permits huse
    have := hpermits huse
    show permits + (s.requests.modify i f).countP _ + s.holding = _
    unfold busy at *
    omega
  · have := (h.counter huse).1
    have := hcounter huse
    show inFlight = (s.requests.modify i f).countP _
    unfold running at *
    omega
  · have := (h.counter huse).2 limit hready
    have := hcounter huse
    rw [hnot] at this
    show inFlight < limit
    simp only [Bool.false_eq_true, if_false] at this
    omega
  · exact hless.trans h.limited
  · exact h.launched huse hsome

theorem running_le_busy : s.running ≤ s.busy := by
  refine List.countP_mono_left fun r _ hr => ?_
  rw [beq_iff_eq] at hr
  rw [hr]
  rfl

/-- The producer goes on without a slot in its hand. -/
theorem SlotInv.release (h : SlotInv c s) {producer : Producer} (hfrom : s.holding = 0)
    (hnot : ∀ limit, producer ≠ .ready limit)
    (hlimit : ∀ limit, producer = .waiting limit → ∃ clockMs, limit = c.limitAt clockMs) :
    SlotInv c { s with producer := producer } := by
  have hholding : ({ s with producer := producer } : NativeLoad).holding = 0 := by
    unfold holding
    split
    next limit hready => exact absurd hready (hnot limit)
    next => rfl
  refine ⟨fun huse => ?_, fun huse => ⟨(h.counter huse).1, fun limit hready => absurd hready (hnot limit)⟩,
    fun huse limit hready => ?_, h.limited, h.launched⟩
  · have := h.permits huse
    rw [hfrom] at this
    rw [hholding]
    exact this
  · rcases hready with hwaiting | hready
    · obtain ⟨clockMs, rfl⟩ := hlimit limit hwaiting
      exact limitAt_const huse clockMs
    · exact absurd hready (hnot limit)

theorem SlotInv.grant (h : SlotInv c s) {limit : ℕ} (hwaiting : s.producer = .waiting limit)
    (hslot : s.hasSlot c limit = true) :
    SlotInv c { s with
      producer := .ready limit
      permits := if c.usesPermits then s.permits - 1 else s.permits } := by
  have hholding : s.holding = 0 := by rw [holding, hwaiting]
  unfold hasSlot at hslot
  refine ⟨fun huse => ?_, fun huse => ⟨(h.counter huse).1, fun limit' hready => ?_⟩, fun huse limit' hready => ?_,
    h.limited, h.launched⟩
  · rw [if_pos huse] at hslot ⊢
    have := h.permits huse
    have := of_decide_eq_true hslot
    show s.permits - 1 + s.busy + 1 = _
    omega
  · rw [huse, if_neg Bool.false_ne_true] at hslot
    cases hready
    exact of_decide_eq_true hslot
  · rcases hready with hready | hready
    · cases hready
    · cases hready
      exact h.limits huse limit (Or.inl hwaiting)

theorem SlotInv.launch (h : SlotInv c s) {limit : ℕ} (hready : s.producer = .ready limit) :
    SlotInv c { s with
      producer := .top
      inFlight := if c.usesPermits then s.inFlight else s.inFlight + 1
      requests := s.requests ++ [.spawned s.clock]
      launchLimit := limit } := by
  have hholding : s.holding = 1 := by rw [holding, hready]
  have hrunning : (s.requests ++ [Request.spawned s.clock]).countP (·.phase == .running) =
      s.running + 1 := by
    rw [List.countP_append]
    rfl
  have hbusy : (s.requests ++ [Request.spawned s.clock]).countP (·.phase != .done) = s.busy + 1 := by
    rw [List.countP_append]
    rfl
  refine ⟨fun huse => ?_, fun huse => ⟨?_, nofun⟩, fun _ limit' hlimit => ?_, ?_, fun huse _ => ?_⟩
  · have := h.permits huse
    show s.permits + (s.requests ++ _).countP _ + 0 = _
    omega
  · have := (h.counter huse).1
    show (if c.usesPermits then _ else _) = (s.requests ++ _).countP _
    rw [huse, if_neg Bool.false_ne_true, hrunning, this]
  · rcases hlimit with hlimit | hlimit <;> cases hlimit
  · show (s.requests ++ _).countP _ ≤ limit
    rw [hrunning]
    cases huse : c.usesPermits with
    | true =>
        have := h.permits huse
        have := h.limits huse limit (Or.inr hready)
        have := running_le_busy (s := s)
        omega
    | false =>
        obtain ⟨hcount, hless⟩ := h.counter huse
        have := hless limit hready
        omega
  · exact h.limits huse limit (Or.inr hready)

/-- The producer stops, and gives back the permit that it holds. -/
theorem SlotInv.giveBack (h : SlotInv c s) {limit : ℕ} (hready : s.producer = .ready limit) :
    SlotInv c { s with
      producer := .stopped, permits := if c.usesPermits then s.permits + 1 else s.permits } := by
  have hholding : s.holding = 1 := by rw [holding, hready]
  refine ⟨fun huse => ?_, fun huse => ⟨(h.counter huse).1, nofun⟩, fun _ limit' hlimit => ?_, h.limited,
    h.launched⟩
  · have := h.permits huse
    rw [huse]
    show s.permits + 1 + s.busy + 0 = _
    omega
  · rcases hlimit with hlimit | hlimit <;> cases hlimit

theorem SlotInv.step (h : SlotInv c s) (hnext : executorNext c l s = some s') : SlotInv c s' := by
  obtain ⟨hcan, rfl⟩ := next_eq_some hnext
  cases l with
  | elapse ms => exact h.congr rfl rfl rfl rfl rfl
  | cancel => exact h.congr rfl rfl rfl rfl rfl
  | trip => exact h.congr rfl rfl rfl rfl rfl
  | look =>
      simp only [can, Bool.and_eq_true, beq_iff_eq] at hcan
      refine h.release (by rw [holding, hcan.1]) (by rintro _ ⟨⟩) fun limit hlimit => ?_
      cases hlimit
      exact ⟨s.clock, rfl⟩
  | grant =>
      simp only [can] at hcan
      simp only [NativeLoad.step]
      split at hcan
      next limit hwaiting =>
        exact h.grant hwaiting (Bool.and_eq_true_iff.mp hcan).1
      next => cases hcan
  | retry =>
      simp only [can] at hcan
      refine h.release ?_ (by rintro _ ⟨⟩) (by rintro _ ⟨⟩)
      split at hcan
      next => cases hcan
      next limit _ hwaiting _ => rw [holding, hwaiting]
      next => cases hcan
  | launch =>
      simp only [can] at hcan
      simp only [NativeLoad.step]
      split
      next limit hready => exact h.launch hready
      next => exact h
  | stop =>
      simp only [NativeLoad.step]
      split
      next limit hready => exact h.giveBack hready
      next hnot =>
        refine h.release ?_ (by rintro _ ⟨⟩) (by rintro _ ⟨⟩)
        unfold holding
        split
        next limit hready => exact absurd hready (hnot limit)
        next => rfl
  | finish i think =>
      simp only [can, Bool.and_eq_true, beq_iff_eq] at hcan
      obtain ⟨r, hr, hphase⟩ := phaseOf_eq_some.mp hcan.1
      refine h.update hr s.permits _ (fun _ => by rw [hphase]; rfl) (fun huse => ?_) rfl
      -- the request is counted, so the counter is not zero
      have hone : 0 < s.running := List.countP_pos_iff.mpr ⟨r, List.mem_of_getElem? hr, by rw [hphase]; rfl⟩
      have := (h.counter huse).1
      rw [huse, hphase]
      show s.inFlight - 1 + 1 = s.inFlight + 0
      omega
  | send i =>
      simp only [can, beq_iff_eq] at hcan
      obtain ⟨r, hr, hphase⟩ := phaseOf_eq_some.mp hcan
      have hsent := h.update hr s.permits s.inFlight
        (f := fun r => { r with phase := .thinking, wakesAt := s.clock + r.think })
        (fun _ => by rw [hphase]; rfl) (fun _ => by rw [hphase]; rfl) rfl
      exact hsent.congr rfl rfl rfl rfl rfl
  | rest i =>
      simp only [can] at hcan
      obtain ⟨r, hr, hthinks⟩ := (Option.any_eq_true _ _).mp hcan
      rw [Bool.and_eq_true, beq_iff_eq] at hthinks
      have hrested := h.update hr (if c.usesPermits then s.permits + 1 else s.permits) s.inFlight
        (f := fun r => { r with phase := .done })
        (fun huse => by rw [hthinks.1, huse]; rfl) (fun _ => by rw [hthinks.1]; rfl) rfl
      exact hrested.congr rfl rfl rfl rfl rfl
  | receive emit =>
      simp only [NativeLoad.step, NativeLoad.receive]
      split
      next => exact h
      next => exact h.congr rfl rfl rfl rfl rfl
  | drain => exact h.congr rfl rfl rfl rfl rfl
  | deliver =>
      simp only [NativeLoad.step, NativeLoad.deliver]
      split
      next => exact h
      next => exact h.congr rfl rfl rfl rfl rfl

/-! ## Results -/

/-- The result of request `i` is in the channel, or was. -/
def sent (s : NativeLoad) (i : ℕ) : Bool :=
  s.requests[i]?.any fun r => r.phase == .thinking || r.phase == .done

/-- Each result that was sent is in the channel or has been received, once. -/
def SentInv (s : NativeLoad) : Prop :=
  ∀ i, (s.allResults ++ s.channel).count i = if s.sent i then 1 else 0

theorem sent_update {f : Request → Request} (hr : s.requests[i]? = some r) {j : ℕ} :
    (s.update i f).sent j =
      if i = j then (f r).phase == .thinking || (f r).phase == .done else s.sent j := by
  unfold sent update
  dsimp only
  rw [List.getElem?_modify]
  by_cases hij : i = j
  · subst hij
    rw [hr, if_pos rfl]
    simp
  · simp [hij]

theorem sent_of_get (hr : s.requests[i]? = some r) :
    s.sent i = (r.phase == .thinking || r.phase == .done) := by
  rw [sent, hr, Option.any_some]

/-- A request goes on, and its result is where it was. -/
theorem SentInv.update (h : s.SentInv) {f : Request → Request} (hr : s.requests[i]? = some r)
    (hsame : s.sent i = ((f r).phase == .thinking || (f r).phase == .done)) : (s.update i f).SentInv := by
  intro j
  rw [sent_update hr]
  split
  next hij =>
    subst hij
    rw [← hsame]
    exact h i
  next => exact h j

theorem SentInv.step (h : s.SentInv) (hnext : executorNext c l s = some s') : s'.SentInv := by
  obtain ⟨hcan, rfl⟩ := next_eq_some hnext
  cases l with
  | elapse ms => exact h
  | cancel => exact h
  | trip => exact h
  | look => exact h
  | grant =>
      simp only [NativeLoad.step]
      split <;> exact h
  | retry => exact h
  | launch =>
      simp only [NativeLoad.step]
      split
      next limit hready =>
        intro j
        have hnew : s.sent j = (s.requests ++ [Request.spawned s.clock])[j]?.any
            (fun r => r.phase == .thinking || r.phase == .done) := by
          rw [sent, List.getElem?_append]
          split
          next => rfl
          next hge =>
            rw [List.getElem?_eq_none (Nat.not_lt.mp hge), List.getElem?_singleton]
            split <;> rfl
        exact (h j).trans (by rw [hnew]; rfl)
      next => exact h
  | stop =>
      simp only [NativeLoad.step]
      split <;> exact h
  | finish i think =>
      simp only [can, Bool.and_eq_true, beq_iff_eq] at hcan
      obtain ⟨r, hr, hphase⟩ := phaseOf_eq_some.mp hcan.1
      exact h.update hr (by rw [sent_of_get hr, hphase]; rfl)
  | send i =>
      simp only [can, beq_iff_eq] at hcan
      obtain ⟨r, hr, hphase⟩ := phaseOf_eq_some.mp hcan
      intro j
      show (s.allResults ++ (s.channel ++ [i])).count j = if (s.update i _).sent j then 1 else 0
      have hold := h j
      rw [sent_update hr, ← List.append_assoc, List.count_append, hold, List.count_singleton]
      by_cases hij : i = j
      · subst hij
        rw [sent_of_get hr, hphase]
        simp
      · simp [hij]
  | rest i =>
      simp only [can] at hcan
      obtain ⟨r, hr, hthinks⟩ := (Option.any_eq_true _ _).mp hcan
      rw [Bool.and_eq_true, beq_iff_eq] at hthinks
      exact h.update hr (by rw [sent_of_get hr, hthinks.1]; rfl)
  | receive emit =>
      simp only [NativeLoad.step, NativeLoad.receive]
      split
      next => exact h
      next result channel hchannel =>
        intro j
        show ((s.allResults ++ [result]) ++ channel).count j = _
        rw [List.append_assoc, List.singleton_append, ← hchannel]
        exact h j
  | drain => exact h
  | deliver =>
      simp only [NativeLoad.step, NativeLoad.deliver]
      split <;> exact h

/-- Numbers below `n`, each once. -/
theorem perm_range {results : List ℕ} {n : ℕ}
    (h : ∀ i, results.count i = if i < n then 1 else 0) : results.Perm (List.range n) := by
  rw [List.perm_iff_count]
  intro i
  rw [h i, List.count_range]

/-! ## Events -/

/-- What the client will hold when all events are delivered. -/
def replay (s : NativeLoad) : List ℕ := s.inbox.foldl onEvent s.held

structure EventInv (c : RunConfig) (s : NativeLoad) : Prop where
  /-- the loop ends when all is over -/
  closed : s.returned = true →
    s.channel = [] ∧ s.producer = .stopped ∧ ∀ r ∈ s.requests, r.phase = .done
  full : c.detailLevel = .full → s.returned = false → s.replay ++ s.batch = s.allResults
  empty : s.returned = false → s.allResults = [] → s.replay = [] ∧ s.batch = []
  going : s.returned = false → s.resolved = false ∧ Event.complete ∉ s.inbox
  replayed : s.returned = true → s.replay = s.allResults
  resolved : s.resolved = true → s.inbox = []
  ending : s.returned = true → s.resolved = false → ∃ before, s.inbox = before ++ [.complete] ∧
    Event.complete ∉ before

theorem initial_events : EventInv c (initial c) where
  closed := nofun
  full := fun _ _ => rfl
  empty := fun _ _ => ⟨rfl, rfl⟩
  going := fun _ => ⟨rfl, nofun⟩
  replayed := nofun
  resolved := nofun
  ending := nofun

/-- The events are those there were, and so is the rest once the loop has ended. -/
theorem EventInv.congr (h : EventInv c s) (hall : s'.allResults = s.allResults) (hbatch : s'.batch = s.batch)
    (hreturned : s'.returned = s.returned) (hinbox : s'.inbox = s.inbox) (hheld : s'.held = s.held)
    (hresolved : s'.resolved = s.resolved)
    (hclosed : s.returned = true → s'.channel = s.channel ∧ s'.producer = s.producer ∧
      s'.requests = s.requests) : EventInv c s' := by
  have hreplay : s'.replay = s.replay := by rw [replay, replay, hinbox, hheld]
  refine ⟨fun hret => ?_, ?_, ?_, ?_, ?_, ?_, ?_⟩
  · rw [hreturned] at hret
    obtain ⟨hchannel, hproducer, hrequests⟩ := hclosed hret
    rw [hchannel, hproducer, hrequests]
    exact h.closed hret
  · rw [hreturned, hreplay, hbatch, hall]
    exact h.full
  · rw [hreturned, hall, hreplay, hbatch]
    exact h.empty
  · rw [hreturned, hresolved, hinbox]
    exact h.going
  · rw [hreturned, hreplay, hall]
    exact h.replayed
  · rw [hresolved, hinbox]
    exact h.resolved
  · rw [hreturned, hresolved, hinbox]
    exact h.ending

/-- A request that is not done goes on before the loop has ended. -/
theorem EventInv.not_returned (h : EventInv c s) (hr : s.requests[i]? = some r) (hphase : r.phase ≠ .done) :
    s.returned = false := by
  by_contra hret
  exact hphase ((h.closed (by simpa using hret)).2.2 r (List.mem_of_getElem? hr))

theorem EventInv.not_returned_producer (h : EventInv c s) (hproducer : s.producer ≠ .stopped) :
    s.returned = false := by
  by_contra hret
  exact hproducer (h.closed (by simpa using hret)).2.1

/-- Before the loop has ended, anything but the results and the events may change. -/
theorem EventInv.goOn (h : EventInv c s) (hnot : s.returned = false) (hall : s'.allResults = s.allResults)
    (hbatch : s'.batch = s.batch) (hreturned : s'.returned = s.returned) (hinbox : s'.inbox = s.inbox)
    (hheld : s'.held = s.held) (hresolved : s'.resolved = s.resolved) : EventInv c s' :=
  h.congr hall hbatch hreturned hinbox hheld hresolved fun hret => by rw [hnot] at hret; cases hret

theorem EventInv.receive (h : EventInv c s) (emit : Bool) (hnot : s.returned = false) :
    EventInv c (s.receive c emit) := by
  unfold NativeLoad.receive
  split
  next => exact h
  next result channel hchannel =>
    obtain ⟨hresolved, hcomplete⟩ := h.going hnot
    have hreturned : ∀ {P : Prop}, s.returned = true → P := fun hret => by rw [hnot] at hret; cases hret
    refine ⟨hreturned, fun hfull _ => ?_, fun _ hnil => ?_, fun _ => ⟨hresolved, ?_⟩, hreturned, fun hres => ?_,
      hreturned⟩
    · have hbatch := h.full hfull hnot
      have hlevel : c.detailLevel ≠ .metricsOnly := by
        rw [hfull]
        nofun
      show List.foldl onEvent s.held (if emit then _ else _) ++ (if emit then [] else _) = s.allResults ++ [result]
      rw [if_neg hlevel, ← hbatch, List.append_assoc]
      cases emit with
      | false => rfl
      | true =>
          simp only [if_true, List.append_nil, List.foldl_append, hfull, filterBatch]
          rfl
    · exact absurd hnil (by simp)
    · show Event.complete ∉ (if emit then _ else _)
      cases emit with
      | false => exact hcomplete
      | true => simp [hcomplete]
    · have hres : s.resolved = true := hres
      rw [hresolved] at hres
      cases hres

theorem EventInv.drain (h : EventInv c s) (hnot : s.returned = false) (hchannel : s.channel = [])
    (hproducer : s.producer = .stopped) (hdone : ∀ r ∈ s.requests, r.phase = .done) :
    EventInv c { s with returned := true, inbox := s.inbox ++ s.finalEvents c } := by
  obtain ⟨hresolved, hcomplete⟩ := h.going hnot
  refine ⟨fun _ => ⟨hchannel, hproducer, hdone⟩, nofun, nofun, nofun, fun _ => ?_, fun hres => ?_, fun _ _ => ?_⟩
  · show List.foldl onEvent s.held (s.inbox ++ s.finalEvents c) = s.allResults
    rw [List.foldl_append, finalEvents, List.foldl_append, List.foldl_append]
    show onEvent _ .complete = _
    have hreplay : List.foldl onEvent s.held s.inbox = s.replay := rfl
    rw [hreplay]
    -- the last batch, and then the list of all results where the batches were sampled
    have hbatch : List.foldl onEvent s.replay (if s.batch = [] then [] else [.progress s.batch]) =
        s.replay ++ s.batch := by
      split
      next hnil => rw [hnil, List.append_nil]; rfl
      next => rfl
    rw [hbatch]
    split
    next hlevel =>
      rcases hlevel with hfull | hnil
      · exact h.full hfull hnot
      · obtain ⟨hempty, hnone⟩ := h.empty hnot hnil
        rw [hempty, hnone, hnil]
        rfl
    next => rfl
  · have hres : s.resolved = true := hres
    rw [hresolved] at hres
    cases hres
  · refine ⟨s.inbox ++ ((if s.batch = [] then [] else [.progress s.batch]) ++
      (if c.detailLevel = .full ∨ s.allResults = [] then [] else [.finalResults s.allResults])), ?_, ?_⟩
    · show s.inbox ++ s.finalEvents c = _
      rw [finalEvents, List.append_assoc, List.append_assoc, List.append_assoc]
    · rw [List.mem_append, List.mem_append, not_or, not_or]
      refine ⟨hcomplete, ?_, ?_⟩
      · split <;> simp
      · split <;> simp

theorem EventInv.deliver (h : EventInv c s) : EventInv c s.deliver := by
  unfold NativeLoad.deliver
  split
  next => exact h
  next event inbox hinbox =>
    have hreplay : List.foldl onEvent (onEvent s.held event) inbox = s.replay := by
      rw [replay, hinbox]
      rfl
    have hopen : s.resolved = false := by
      by_contra hres
      rw [h.resolved (by simpa using hres)] at hinbox
      cases hinbox
    refine ⟨h.closed, fun hfull hret => ?_, fun hret hnil => ?_, fun hret => ?_, fun hret => ?_, fun hres => ?_,
      fun hret hres => ?_⟩
    · show List.foldl onEvent (onEvent s.held event) inbox ++ s.batch = s.allResults
      rw [hreplay]
      exact h.full hfull hret
    · show List.foldl onEvent (onEvent s.held event) inbox = [] ∧ s.batch = []
      rw [hreplay]
      exact h.empty hret hnil
    · obtain ⟨-, hcomplete⟩ := h.going hret
      rw [hinbox, List.mem_cons, not_or] at hcomplete
      refine ⟨?_, hcomplete.2⟩
      show (s.resolved || event == .complete) = false
      rw [hopen, Bool.false_or]
      exact beq_eq_false_iff_ne.mpr (Ne.symm hcomplete.1)
    · exact hreplay.trans (h.replayed hret)
    · -- the event that resolves the call is the last one
      have hlast : event = .complete := by simpa [hopen] using hres
      cases hret : s.returned with
      | false =>
          obtain ⟨-, hcomplete⟩ := h.going hret
          exact absurd (by rw [hinbox, hlast]; exact List.mem_cons_self) hcomplete
      | true =>
          obtain ⟨before, heq, hbefore⟩ := h.ending hret hopen
          rw [hinbox] at heq
          cases before with
          | nil => exact (List.cons.inj heq).2
          | cons e before =>
              rw [← (List.cons.inj heq).1, hlast] at hbefore
              exact absurd List.mem_cons_self hbefore
    · have hother : event ≠ .complete := by simpa [hopen] using hres
      obtain ⟨before, heq, hbefore⟩ := h.ending hret hopen
      rw [hinbox] at heq
      cases before with
      | nil => exact absurd (List.cons.inj heq).1 hother
      | cons e before =>
          exact ⟨before, (List.cons.inj heq).2, fun hmem => hbefore (List.mem_cons_of_mem _ hmem)⟩

theorem EventInv.step (h : EventInv c s) (hnext : executorNext c l s = some s') : EventInv c s' := by
  obtain ⟨hcan, rfl⟩ := next_eq_some hnext
  cases l with
  | elapse ms => exact h.congr rfl rfl rfl rfl rfl rfl fun _ => ⟨rfl, rfl, rfl⟩
  | cancel => exact h.congr rfl rfl rfl rfl rfl rfl fun _ => ⟨rfl, rfl, rfl⟩
  | trip => exact h.congr rfl rfl rfl rfl rfl rfl fun _ => ⟨rfl, rfl, rfl⟩
  | look =>
      simp only [can, Bool.and_eq_true, beq_iff_eq] at hcan
      exact h.goOn (h.not_returned_producer (by rw [hcan.1]; rintro ⟨⟩)) rfl rfl rfl rfl rfl rfl
  | grant =>
      simp only [can] at hcan
      simp only [NativeLoad.step]
      split
      next limit hwaiting =>
        exact h.goOn (h.not_returned_producer (by rw [hwaiting]; rintro ⟨⟩)) rfl rfl rfl rfl rfl rfl
      next => exact h
  | retry =>
      simp only [can] at hcan
      have hproducer : s.producer ≠ .stopped := by
        rintro hstopped
        rw [hstopped] at hcan
        cases hcan
      exact h.goOn (h.not_returned_producer hproducer) rfl rfl rfl rfl rfl rfl
  | launch =>
      simp only [NativeLoad.step]
      split
      next limit hready =>
        exact h.goOn (h.not_returned_producer (by rw [hready]; rintro ⟨⟩)) rfl rfl rfl rfl rfl rfl
      next => exact h
  | stop =>
      have hproducer : s.producer ≠ .stopped := by
        rintro hstopped
        simp only [can, breaks, hstopped] at hcan
        cases hcan
      simp only [NativeLoad.step]
      split <;> exact h.goOn (h.not_returned_producer hproducer) rfl rfl rfl rfl rfl rfl
  | finish i think =>
      simp only [can, Bool.and_eq_true, beq_iff_eq] at hcan
      obtain ⟨r, hr, hphase⟩ := phaseOf_eq_some.mp hcan.1
      exact h.goOn (h.not_returned hr (by rw [hphase]; rintro ⟨⟩)) rfl rfl rfl rfl rfl rfl
  | send i =>
      simp only [can, beq_iff_eq] at hcan
      obtain ⟨r, hr, hphase⟩ := phaseOf_eq_some.mp hcan
      exact h.goOn (h.not_returned hr (by rw [hphase]; rintro ⟨⟩)) rfl rfl rfl rfl rfl rfl
  | rest i =>
      simp only [can] at hcan
      obtain ⟨r, hr, hthinks⟩ := (Option.any_eq_true _ _).mp hcan
      rw [Bool.and_eq_true, beq_iff_eq] at hthinks
      exact h.goOn (h.not_returned hr (by rw [hthinks.1]; rintro ⟨⟩)) rfl rfl rfl rfl rfl rfl
  | receive emit =>
      simp only [can, Bool.and_eq_true, Bool.not_eq_true'] at hcan
      exact h.receive emit hcan.1.1.2
  | drain =>
      simp only [can, Bool.and_eq_true, Bool.not_eq_true', beq_iff_eq, List.all_eq_true] at hcan
      exact h.drain hcan.1.1.1 hcan.1.1.2 hcan.1.2 hcan.2
  | deliver => exact h.deliver

/-! ## Runs are accounted -/

/-- What is asked of a state. -/
structure Accounted (s : NativeLoad) : Prop where
  limited : s.running ≤ s.launchLimit
  /-- each launched request contributes one element to the list that is returned -/
  once : s.returned = true → s.allResults.Perm (List.range s.requests.length)
  /-- the client holds that list when its call resolves -/
  held : s.resolved = true → s.returned = true ∧ s.held = s.allResults

end NativeLoad

/-- Two requests of a profile, the results of which are sampled. -/
def sampledRun : RunConfig where
  driver := .loadProfile ⟨[none], 2, 60, "sustained", none, none, none, none⟩
  scenarios := 1
  thinkTime := .constant 5
  detailLevel := .sampled

def twoRequests : List ExecutorStep :=
  [.look, .grant, .launch, .look, .grant, .launch, .finish 1 5, .send 1, .receive true, .cancel, .finish 0 5,
    .send 0, .rest 0, .rest 1, .receive true, .stop, .drain, .deliver, .deliver, .deliver, .deliver]

end RedFireForge.Native
