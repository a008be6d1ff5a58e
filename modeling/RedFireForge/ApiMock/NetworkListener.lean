/-
# `RedFireForge.ApiMock.NetworkListener` — requests in flight

The listener counts the requests it is handling.  Each releases its place when it ends: at
once, after its delivery or its upstream, or, behind a delay, when the delayed delivery
ends.  A stop and a start of the listener drop the delayed responses, set the counter back
and open a new epoch, in which the requests of the earlier ones release nothing.

What the routes and the settings say of a request comes with its arrival.  A request is its
place among all that were admitted.
-/
import RedFireForge.Lib.Run
import Mathlib.Data.Int.Notation
import Mathlib.Data.List.Nodup

namespace RedFireForge.ApiMock

open RedFireForge.Lib

/-- What is done for an admitted request. -/
inductive Course
  /-- a variant is served, after `computeVirtualDelayMs` -/
  | matched (delayMs : ℕ)
  /-- the answer to an ambiguous or unmatched request is written at once -/
  | fallback
  | proxied
  /-- the response cannot be made -/
  | failed

structure Inbound where
  clientGone : Bool
  isCorsPreflight : Bool
  hasAntiRecursionHeader : Bool
  isHealthPath : Bool
  course : Course

inductive Phase
  | running
  /-- a timer is set -/
  | delayed
  | delivering (written : Bool)
  | upstream
  | finished
deriving DecidableEq

structure Handling where
  /-- `runtimeEpoch` when it was admitted -/
  epoch : ℕ
  phase : Phase
  clientGone : Bool

structure NetworkListener where
  /-- `start` has been called and waits for the port -/
  starting : ℕ
  server : Bool
  draining : Bool
  runtimeEpoch : ℕ
  /-- a timer is that of its request -/
  delayTimers : List ℕ
  inFlight : ℤ
  requests : List Handling
  /-- whose response was written -/
  delivered : List ℕ
  /-- of whom diagnostics and journal were told -/
  recorded : List ℕ

namespace NetworkListener

def initial : NetworkListener := ⟨0, false, false, 0, [], 0, [], [], []⟩

def cancelDeferredDeliveries (s : NetworkListener) : NetworkListener :=
  { s with runtimeEpoch := s.runtimeEpoch + 1, delayTimers := [], inFlight := 0 }

/-- It throws while the listener is running. -/
def start (s : NetworkListener) : NetworkListener :=
  if s.server then s
  else
    { s.cancelDeferredDeliveries with starting := s.starting + 1, draining := false }

def stop (s : NetworkListener) : NetworkListener :=
  if s.server then { s.cancelDeferredDeliveries with draining := true, server := false }
  else s.cancelDeferredDeliveries

/-! ## Requests -/

def setPhase (s : NetworkListener) (i : ℕ) (r : Handling) (phase : Phase) : NetworkListener :=
  { s with requests := s.requests.set i { r with phase } }

/-- `if (this.runtimeEpoch === epoch) this.inFlight--` -/
def release (s : NetworkListener) (i : ℕ) (r : Handling) : NetworkListener :=
  { s.setPhase i r .finished with
    inFlight := if s.runtimeEpoch = r.epoch then s.inFlight - 1 else s.inFlight }

def write (s : NetworkListener) (i : ℕ) : NetworkListener :=
  { s with delivered := s.delivered ++ [i] }

def recordDelivery (s : NetworkListener) (i : ℕ) : NetworkListener :=
  { s with recorded := s.recorded ++ [i] }

/-- The part of `deliver` in front of its `await`. -/
def deliver (s : NetworkListener) (i : ℕ) (r : Handling) : NetworkListener :=
  if r.clientGone then s.setPhase i r (.delivering false)
  else (s.setPhase i r (.delivering true)).write i

def track (s : NetworkListener) (phase : Phase) : NetworkListener :=
  { s with inFlight := s.inFlight + 1, requests := s.requests ++ [⟨s.runtimeEpoch, phase, false⟩] }

def processRequest (s : NetworkListener) (req : Inbound) : NetworkListener :=
  if req.clientGone || req.isCorsPreflight || req.hasAntiRecursionHeader || req.isHealthPath then s
  else
    let i := s.requests.length
    let r : Handling := ⟨s.runtimeEpoch, .running, false⟩
    match req.course with
    | .matched delayMs =>
        if 0 < delayMs then
          { s.track .delayed with delayTimers := s.delayTimers ++ [i] }
        else (s.track .running).deliver i r
    | .fallback => (((s.track .running).write i).recordDelivery i).release i r
    | .proxied => s.track .upstream
    | .failed => (s.track .running).release i r

/-- The timer of a delayed response fires. -/
def fire (s : NetworkListener) (i : ℕ) (r : Handling) : NetworkListener :=
  { s with delayTimers := s.delayTimers.erase i }.deliver i r

/-- What a request waits for comes, or fails. -/
def settle (s : NetworkListener) (i : ℕ) (r : Handling) (ok : Bool) : Option NetworkListener :=
  match r.phase with
  | .delivering written =>
      some ((if written && ok then s.recordDelivery i else s).release i r)
  | .upstream =>
      some ((if ok && !r.clientGone then (s.write i).recordDelivery i else s).release i r)
  | _ => none

end NetworkListener

/-! ## Runs -/

inductive ListenerEvent
  | start
  | listening (ok : Bool)
  | stop
  | drained
  | request (req : Inbound)
  | fire (i : ℕ)
  | settle (i : ℕ) (ok : Bool)
  | disconnect (i : ℕ)

def listenerNext : ListenerEvent → NetworkListener → Option NetworkListener
  | .start, s => some s.start
  | .listening ok, s =>
      if 0 < s.starting then some { s with starting := s.starting - 1, server := s.server || ok }
      else none
  | .stop, s => some s.stop
  | .drained, s => some { s with draining := false }
  | .request req, s => some (s.processRequest req)
  | .fire i, s =>
      if i ∈ s.delayTimers then (s.requests[i]?).map fun r => s.fire i r else none
  | .settle i ok, s => (s.requests[i]?).bind fun r => s.settle i r ok
  | .disconnect i, s =>
      (s.requests[i]?).map fun r => { s with requests := s.requests.set i { r with clientGone := true } }

/-! ## Accounting -/

/-- It was admitted in the epoch, and has not ended. -/
def Handling.unfinished (epoch : ℕ) (r : Handling) : Bool :=
  r.epoch == epoch && r.phase != .finished

namespace NetworkListener

/-- The requests of the current epoch that have not ended. -/
def unfinished (s : NetworkListener) : ℕ := s.requests.countP (Handling.unfinished s.runtimeEpoch)

/-- The response of a request waits for its timer. -/
def isDelayed (s : NetworkListener) (i : ℕ) : Prop :=
  ∃ r, s.requests[i]? = some r ∧ r.phase = .delayed

structure Accounted (s : NetworkListener) : Prop where
  counter : s.inFlight = s.unfinished
  past : ∀ r ∈ s.requests, r.epoch ≤ s.runtimeEpoch
  timers_nodup : s.delayTimers.Nodup
  timers : ∀ i ∈ s.delayTimers, ∃ r, s.requests[i]? = some r ∧ r.phase = .delayed ∧
    r.epoch = s.runtimeEpoch
  admitted : ∀ i ∈ s.delivered ++ s.recorded, i < s.requests.length
  held : ∀ i, s.isDelayed i → i ∉ s.delivered ++ s.recorded

theorem accounted_initial : Accounted initial where
  counter := rfl
  past := nofun
  timers_nodup := List.nodup_nil
  timers := nofun
  admitted := nofun
  held := by
    rintro i ⟨r, hr, -⟩
    cases hr

section Steps

variable {s t : NetworkListener} {i j : ℕ} {r r' : Handling} {phase : Phase}

theorem Accounted.not_timer (h : s.Accounted) (hr : s.requests[i]? = some r)
    (hphase : r.phase ≠ .delayed) : i ∉ s.delayTimers := by
  intro hi
  obtain ⟨r', hr', hdelayed, -⟩ := h.timers i hi
  rw [hr, Option.some.injEq] at hr'
  exact hphase (hr' ▸ hdelayed)

/-- The handling of one request changes, and the counter and the timers with it. -/
theorem Accounted.set (h : s.Accounted) (hr : s.requests[i]? = some r)
    (hrequests : t.requests = s.requests.set i r') (hsame : r'.epoch = r.epoch)
    (hepoch : t.runtimeEpoch = s.runtimeEpoch)
    (hcounter : t.inFlight = s.inFlight - (if Handling.unfinished s.runtimeEpoch r then 1 else 0) +
      if Handling.unfinished s.runtimeEpoch r' then 1 else 0)
    (hnodup : t.delayTimers.Nodup)
    (htimers : ∀ j ∈ t.delayTimers, j ∈ s.delayTimers ∧ (j = i → r'.phase = .delayed))
    (hdelayed : r'.phase = .delayed → r.phase = .delayed)
    (htold : ∀ j ∈ t.delivered ++ t.recorded,
      j ∈ s.delivered ++ s.recorded ∨ j = i ∧ r'.phase ≠ .delayed) : t.Accounted := by
  obtain ⟨hlt, hget⟩ := List.getElem?_eq_some_iff.mp hr
  have hother : ∀ j, j ≠ i → t.requests[j]? = s.requests[j]? := fun j hj => by
    rw [hrequests, List.getElem?_set_ne (Ne.symm hj)]
  have hself : t.requests[i]? = some r' := by rw [hrequests, List.getElem?_set_self hlt]
  constructor
  · have hcount : t.unfinished = s.unfinished -
        (if Handling.unfinished s.runtimeEpoch r then 1 else 0) +
          if Handling.unfinished s.runtimeEpoch r' then 1 else 0 := by
      rw [unfinished, hrequests, hepoch, List.countP_set hlt, hget, unfinished]
    have hpos : Handling.unfinished s.runtimeEpoch r = true → 0 < s.unfinished := fun hu =>
      List.countP_pos_iff.mpr ⟨r, hget ▸ List.getElem_mem hlt, hu⟩
    rw [hcounter, h.counter, hcount]
    split
    next hu =>
      have := hpos hu
      split <;> omega
    next => split <;> omega
  · intro q hq
    rw [hepoch]
    rw [hrequests] at hq
    rcases List.mem_or_eq_of_mem_set hq with hq | rfl
    · exact h.past q hq
    · exact hsame ▸ h.past r (hget ▸ List.getElem_mem hlt)
  · exact hnodup
  · intro j hj
    obtain ⟨hold, hphase⟩ := htimers j hj
    obtain ⟨q, hq, hd, he⟩ := h.timers j hold
    by_cases hji : j = i
    · subst hji
      rw [hr, Option.some.injEq] at hq
      exact ⟨r', hself, hphase rfl, hsame.trans ((hq ▸ he).trans hepoch.symm)⟩
    · exact ⟨q, (hother j hji).trans hq, hd, he.trans hepoch.symm⟩
  · intro j hj
    rw [hrequests, List.length_set]
    rcases htold j hj with hj | ⟨rfl, -⟩
    · exact h.admitted j hj
    · exact hlt
  · rintro j ⟨q, hq, hd⟩ hj
    by_cases hji : j = i
    · subst hji
      rw [hself, Option.some.injEq] at hq
      have hd : r'.phase = .delayed := hq ▸ hd
      exact h.held j ⟨r, hr, hdelayed hd⟩ ((htold j hj).resolve_right fun hne => hne.2 hd)
    · exact h.held j ⟨q, (hother j hji).symm.trans hq, hd⟩
        ((htold j hj).resolve_right fun heq => hji heq.1)

/-- One request goes on, and is delayed no more. -/
theorem Accounted.move (phase : Phase) (h : s.Accounted) (hr : s.requests[i]? = some r) (hopen : r.phase ≠ .finished)
    (hphase : phase ≠ .delayed) (hrequests : t.requests = s.requests.set i { r with phase })
    (hepoch : t.runtimeEpoch = s.runtimeEpoch)
    (hcounter : t.inFlight =
      if s.runtimeEpoch = r.epoch ∧ phase = .finished then s.inFlight - 1 else s.inFlight)
    (htimers : t.delayTimers = s.delayTimers.erase i)
    (htold : ∀ j ∈ t.delivered ++ t.recorded, j = i ∨ j ∈ s.delivered ++ s.recorded) :
    t.Accounted := by
  refine h.set hr hrequests rfl hepoch ?_ (htimers ▸ h.timers_nodup.erase i) (fun j hj => ?_)
    (fun hd => absurd hd hphase) (fun j hj => (htold j hj).symm.imp_right fun heq => ⟨heq, hphase⟩)
  · have hopen : (r.phase != .finished) = true := by simpa using hopen
    unfold Handling.unfinished
    rw [hcounter, hopen]
    by_cases he : r.epoch = s.runtimeEpoch
    · by_cases hend : phase = .finished
      · simp [he, hend]
      · simp [he, hend]
    · simp [he, Ne.symm he]
  · rw [htimers, h.timers_nodup.mem_erase_iff] at hj
    exact ⟨hj.2, fun heq => absurd heq hj.1⟩

/-- A disconnect changes neither phase nor epoch. -/
theorem Accounted.disconnect (h : s.Accounted) (hr : s.requests[i]? = some r) :
    Accounted { s with requests := s.requests.set i { r with clientGone := true } } := by
  refine h.set (t := { s with requests := s.requests.set i { r with clientGone := true } }) hr rfl rfl rfl ?_
    h.timers_nodup
    (fun j hj => ⟨hj, ?_⟩) id (fun j hj => Or.inl hj)
  · show s.inFlight = s.inFlight - (if Handling.unfinished s.runtimeEpoch r then 1 else 0) +
      if Handling.unfinished s.runtimeEpoch r then 1 else 0
    omega
  · rintro rfl
    obtain ⟨q, hq, hd, -⟩ := h.timers j hj
    rw [hr, Option.some.injEq] at hq
    exact hq ▸ hd

theorem Accounted.track (phase : Phase) (h : s.Accounted) (hphase : phase ≠ .finished) :
    (s.track phase).Accounted := by
  have hold : ∀ q ∈ s.requests ++ [⟨s.runtimeEpoch, phase, false⟩], q ∈ s.requests ∨
      q = ⟨s.runtimeEpoch, phase, false⟩ := fun q hq =>
    (List.mem_append.mp hq).imp_right List.mem_singleton.mp
  constructor
  · have hnew : Handling.unfinished s.runtimeEpoch ⟨s.runtimeEpoch, phase, false⟩ = true := by
      simpa [Handling.unfinished] using hphase
    show s.inFlight + 1 =
      ((List.countP (Handling.unfinished s.runtimeEpoch) (s.requests ++ [_]) : ℕ) : ℤ)
    rw [List.countP_append, List.countP_singleton, if_pos hnew, h.counter, unfinished]
    rfl
  · intro q hq
    rcases hold q hq with hq | rfl
    · exact h.past q hq
    · exact Nat.le_refl _
  · exact h.timers_nodup
  · intro j hj
    obtain ⟨q, hq, hrest⟩ := h.timers j hj
    have hlt := (List.getElem?_eq_some_iff.mp hq).1
    exact ⟨q, (List.getElem?_append_left hlt).trans hq, hrest⟩
  · intro j hj
    show j < (s.requests ++ [_]).length
    rw [List.length_append]
    exact Nat.lt_add_right _ (h.admitted j hj)
  · rintro j ⟨q, hq, hdelayed⟩ hj
    have hq : (s.requests ++ [_])[j]? = some q := hq
    rw [List.getElem?_append_left (h.admitted j hj)] at hq
    exact h.held j ⟨q, hq, hdelayed⟩ hj

theorem track_getElem? : (s.track phase).requests[s.requests.length]? =
    some ⟨s.runtimeEpoch, phase, false⟩ := List.getElem?_concat_length

/-- The timer of a delayed request of this epoch is set. -/
theorem Accounted.setTimer (h : s.Accounted) (hr : s.requests[i]? = some r)
    (hphase : r.phase = .delayed) (hepoch : r.epoch = s.runtimeEpoch) (hi : i ∉ s.delayTimers) :
    Accounted { s with delayTimers := s.delayTimers ++ [i] } where
  counter := h.counter
  past := h.past
  timers_nodup := List.nodup_append.mpr ⟨h.timers_nodup, List.nodup_singleton _, fun j hj k hk heq =>
    hi (List.mem_singleton.mp hk ▸ heq ▸ hj)⟩
  timers := fun j hj => by
    rcases List.mem_append.mp hj with hj | hj
    · exact h.timers j hj
    · obtain rfl := List.mem_singleton.mp hj
      exact ⟨r, hr, hphase, hepoch⟩
  admitted := h.admitted
  held := h.held

/-- The timers go, and no request is of the new epoch. -/
theorem Accounted.cancelDeferredDeliveries (h : s.Accounted) :
    s.cancelDeferredDeliveries.Accounted where
  counter := by
    have hnone : s.cancelDeferredDeliveries.unfinished = 0 := by
      refine List.countP_eq_zero.mpr (fun r hr => ?_)
      have hne := Nat.ne_of_lt (Nat.lt_succ_of_le (h.past r hr))
      simp [Handling.unfinished, NetworkListener.cancelDeferredDeliveries, hne]
    rw [hnone]
    rfl
  past := fun r hr => Nat.le_succ_of_le (h.past r hr)
  timers_nodup := List.nodup_nil
  timers := nofun
  admitted := h.admitted
  held := h.held

/-! ### What a request does -/

theorem Accounted.release (h : s.Accounted) (hr : s.requests[i]? = some r)
    (hopen : r.phase ≠ .finished) (hphase : r.phase ≠ .delayed) : (s.release i r).Accounted := by
  refine h.move .finished hr hopen nofun rfl rfl (by simp [NetworkListener.release]) ?_
    (fun _ hj => Or.inr hj)
  exact (List.erase_of_not_mem (h.not_timer hr hphase)).symm

/-- A written or recorded response may be of a request that is not delayed. -/
theorem Accounted.tell (h : s.Accounted) (hr : s.requests[i]? = some r) (hphase : r.phase ≠ .delayed)
    (hsame : t.requests = s.requests ∧ t.runtimeEpoch = s.runtimeEpoch ∧ t.inFlight = s.inFlight ∧
      t.delayTimers = s.delayTimers)
    (htold : ∀ j ∈ t.delivered ++ t.recorded, j = i ∨ j ∈ s.delivered ++ s.recorded) :
    t.Accounted := by
  obtain ⟨hrequests, hepoch, hcounter, htimers⟩ := hsame
  have hdelayed : ∀ j, t.isDelayed j → s.isDelayed j := fun j ⟨q, hq, hd⟩ => ⟨q, hrequests ▸ hq, hd⟩
  constructor
  · rw [hcounter, h.counter, unfinished, unfinished, hrequests, hepoch]
  · rw [hrequests, hepoch]
    exact h.past
  · rw [htimers]
    exact h.timers_nodup
  · rw [htimers, hrequests, hepoch]
    exact h.timers
  · intro j hj
    rw [hrequests]
    rcases htold j hj with rfl | hj
    · exact (List.getElem?_eq_some_iff.mp hr).1
    · exact h.admitted j hj
  · intro j hj htold'
    rcases htold j htold' with rfl | hin
    · obtain ⟨q, hq, hd⟩ := hdelayed j hj
      rw [hr, Option.some.injEq] at hq
      exact hphase (hq ▸ hd)
    · exact h.held j (hdelayed j hj) hin

theorem Accounted.write (h : s.Accounted) (hr : s.requests[i]? = some r)
    (hphase : r.phase ≠ .delayed) : (s.write i).Accounted := by
  refine h.tell hr hphase ⟨rfl, rfl, rfl, rfl⟩ (fun j hj => ?_)
  simp only [NetworkListener.write, List.mem_append, List.mem_singleton] at hj ⊢
  tauto

theorem Accounted.recordDelivery (h : s.Accounted) (hr : s.requests[i]? = some r)
    (hphase : r.phase ≠ .delayed) : (s.recordDelivery i).Accounted := by
  refine h.tell hr hphase ⟨rfl, rfl, rfl, rfl⟩ (fun j hj => ?_)
  simp only [NetworkListener.recordDelivery, List.mem_append, List.mem_singleton] at hj ⊢
  tauto

theorem Accounted.deliver {delayTimers : List ℕ} (h : s.Accounted) (hr : s.requests[i]? = some r)
    (hopen : r.phase ≠ .finished) (htimers : delayTimers = s.delayTimers.erase i) :
    (NetworkListener.deliver { s with delayTimers } i r).Accounted := by
  unfold NetworkListener.deliver
  split
  · exact h.move (.delivering false) hr hopen nofun rfl rfl (by simp [setPhase]) htimers
      (fun _ hj => Or.inr hj)
  · refine h.move (.delivering true) hr hopen nofun rfl rfl (by simp [setPhase, NetworkListener.write])
      htimers (fun j hj => ?_)
    simp only [NetworkListener.write, setPhase, List.mem_append, List.mem_singleton] at hj ⊢
    tauto

theorem Accounted.processRequest (h : s.Accounted) (req : Inbound) :
    (s.processRequest req).Accounted := by
  have hfresh : s.requests.length ∉ s.delayTimers := fun hi => by
    obtain ⟨q, hq, -⟩ := h.timers _ hi
    exact absurd (List.getElem?_eq_some_iff.mp hq).1 (Nat.lt_irrefl _)
  unfold NetworkListener.processRequest
  split
  · exact h
  · dsimp only
    have hrunning := h.track .running nofun
    cases req.course with
    | matched delayMs =>
        dsimp only
        split
        · exact (h.track .delayed nofun).setTimer track_getElem? rfl rfl hfresh
        · have hdeliver := hrunning.deliver track_getElem? nofun (List.erase_of_not_mem hfresh).symm
          exact hdeliver
    | fallback =>
        exact ((hrunning.write track_getElem? nofun).recordDelivery track_getElem? nofun).release
          track_getElem? nofun nofun
    | proxied => exact h.track .upstream nofun
    | failed => exact hrunning.release track_getElem? nofun nofun

theorem Accounted.settle {ok : Bool} (h : s.Accounted) (hr : s.requests[i]? = some r)
    (hsettle : s.settle i r ok = some t) : t.Accounted := by
  unfold NetworkListener.settle at hsettle
  split at hsettle
  next written hphase =>
    cases hsettle
    have hopen : r.phase ≠ .finished ∧ r.phase ≠ .delayed := by simp [hphase]
    split
    · exact (h.recordDelivery hr hopen.2).release hr hopen.1 hopen.2
    · exact h.release hr hopen.1 hopen.2
  next hphase =>
    cases hsettle
    have hopen : r.phase ≠ .finished ∧ r.phase ≠ .delayed := by simp [hphase]
    split
    · exact ((h.write hr hopen.2).recordDelivery hr hopen.2).release hr hopen.1 hopen.2
    · exact h.release hr hopen.1 hopen.2
  next => cases hsettle

/-! ### A delayed response that was dropped -/

/-- Delayed, in an epoch that is over. -/
def isDropped (s : NetworkListener) (i : ℕ) : Prop :=
  ∃ r, s.requests[i]? = some r ∧ r.phase = .delayed ∧ r.epoch < s.runtimeEpoch

theorem Accounted.dropped_not_timer (h : s.Accounted) (hi : s.isDropped i) : i ∉ s.delayTimers := by
  intro hmem
  obtain ⟨r, hr, -, hepoch⟩ := hi
  obtain ⟨r', hr', -, hcurrent⟩ := h.timers i hmem
  rw [hr, Option.some.injEq] at hr'
  subst hr'
  omega

/-- The request at `i` is not touched, and the epoch is not set back. -/
theorem isDropped_of_same (hi : s.isDropped i) (hget : t.requests[i]? = s.requests[i]?)
    (hepoch : s.runtimeEpoch ≤ t.runtimeEpoch) : t.isDropped i := by
  obtain ⟨r, hr, hphase, hlt⟩ := hi
  exact ⟨r, hget.trans hr, hphase, Nat.lt_of_lt_of_le hlt hepoch⟩

theorem deliver_other (hne : i ≠ j) : (s.deliver i r).requests[j]? = s.requests[j]? ∧
    (s.deliver i r).runtimeEpoch = s.runtimeEpoch := by
  unfold NetworkListener.deliver
  split <;> exact ⟨List.getElem?_set_ne hne, rfl⟩

theorem settle_other {ok : Bool} (hne : i ≠ j) (h : s.settle i r ok = some t) :
    t.requests[j]? = s.requests[j]? ∧ t.runtimeEpoch = s.runtimeEpoch := by
  unfold NetworkListener.settle at h
  split at h
  next =>
    cases h
    split <;> exact ⟨List.getElem?_set_ne hne, rfl⟩
  next =>
    cases h
    split <;> exact ⟨List.getElem?_set_ne hne, rfl⟩
  next => cases h

theorem processRequest_other (req : Inbound) (hlt : i < s.requests.length) :
    (s.processRequest req).requests[i]? = s.requests[i]? ∧
      (s.processRequest req).runtimeEpoch = s.runtimeEpoch := by
  have htracked : ∀ phase, (s.track phase).requests[i]? = s.requests[i]? := fun phase =>
    List.getElem?_append_left hlt
  have hne : s.requests.length ≠ i := Nat.ne_of_gt hlt
  unfold NetworkListener.processRequest
  split
  · exact ⟨rfl, rfl⟩
  · dsimp only
    cases req.course with
    | matched delayMs =>
        dsimp only
        split
        · exact ⟨htracked .delayed, rfl⟩
        · obtain ⟨hget, hepoch⟩ := deliver_other (s := s.track .running)
            (r := ⟨s.runtimeEpoch, .running, false⟩) hne
          exact ⟨hget.trans (htracked .running), hepoch⟩
    | fallback => exact ⟨(List.getElem?_set_ne hne).trans (htracked .running), rfl⟩
    | proxied => exact ⟨htracked .upstream, rfl⟩
    | failed => exact ⟨(List.getElem?_set_ne hne).trans (htracked .running), rfl⟩

theorem isDelayed_cancel (hs : s.Accounted) (hi : s.isDelayed i) :
    s.cancelDeferredDeliveries.isDropped i := by
  obtain ⟨r, hr, hphase⟩ := hi
  exact ⟨r, hr, hphase, Nat.lt_succ_of_le (hs.past r (List.mem_of_getElem? hr))⟩

end Steps

end NetworkListener

section Events

open NetworkListener

variable {s t : NetworkListener} {ev : ListenerEvent} {i : ℕ}

/-- The step lemma: every event keeps the account. -/
theorem NetworkListener.Accounted.step (h : s.Accounted) (hnext : listenerNext ev s = some t) :
    t.Accounted := by
  cases ev with
  | start =>
      cases hnext
      unfold NetworkListener.start
      split
      · exact h
      · exact ⟨h.cancelDeferredDeliveries.counter, h.cancelDeferredDeliveries.past, List.nodup_nil,
          nofun, h.admitted, h.held⟩
  | listening ok =>
      obtain ⟨-, heq⟩ := Option.ite_none_right_eq_some.mp hnext
      cases heq
      exact ⟨h.counter, h.past, h.timers_nodup, h.timers, h.admitted, h.held⟩
  | stop =>
      cases hnext
      unfold NetworkListener.stop
      split
      · exact ⟨h.cancelDeferredDeliveries.counter, h.cancelDeferredDeliveries.past, List.nodup_nil,
          nofun, h.admitted, h.held⟩
      · exact h.cancelDeferredDeliveries
  | drained =>
      cases hnext
      exact ⟨h.counter, h.past, h.timers_nodup, h.timers, h.admitted, h.held⟩
  | request req =>
      cases hnext
      exact h.processRequest req
  | fire j =>
      obtain ⟨hj, heq⟩ := Option.ite_none_right_eq_some.mp hnext
      obtain ⟨r, hr, rfl⟩ := Option.map_eq_some_iff.mp heq
      obtain ⟨r', hr', hphase, -⟩ := h.timers j hj
      rw [hr, Option.some.injEq] at hr'
      subst hr'
      exact h.deliver hr (by simp [hphase]) rfl
  | settle j ok =>
      obtain ⟨r, hr, hsettle⟩ := Option.bind_eq_some_iff.mp hnext
      exact h.settle hr hsettle
  | disconnect j =>
      obtain ⟨r, hr, rfl⟩ := Option.map_eq_some_iff.mp hnext
      exact h.disconnect hr

/-- A response that was dropped stays so: no timer is left for it. -/
theorem dropped_step (h : s.Accounted) (hi : s.isDropped i) (hnext : listenerNext ev s = some t) :
    t.isDropped i := by
  have hlt : i < s.requests.length := by
    obtain ⟨r, hr, -⟩ := hi
    exact (List.getElem?_eq_some_iff.mp hr).1
  cases ev with
  | start =>
      cases hnext
      unfold NetworkListener.start
      split
      · exact hi
      · exact isDropped_of_same hi rfl (Nat.le_succ _)
  | listening ok =>
      obtain ⟨-, heq⟩ := Option.ite_none_right_eq_some.mp hnext
      cases heq
      exact isDropped_of_same hi rfl (Nat.le_refl _)
  | stop =>
      cases hnext
      unfold NetworkListener.stop
      split
      · exact isDropped_of_same hi rfl (Nat.le_succ _)
      · exact isDropped_of_same hi rfl (Nat.le_succ _)
  | drained =>
      cases hnext
      exact isDropped_of_same hi rfl (Nat.le_refl _)
  | request req =>
      cases hnext
      obtain ⟨hget, hepoch⟩ := processRequest_other (s := s) req hlt
      exact isDropped_of_same hi hget (Nat.le_of_eq hepoch.symm)
  | fire j =>
      obtain ⟨hj, heq⟩ := Option.ite_none_right_eq_some.mp hnext
      obtain ⟨r, hr, rfl⟩ := Option.map_eq_some_iff.mp heq
      have hne : j ≠ i := fun heq => h.dropped_not_timer hi (heq ▸ hj)
      obtain ⟨hget, hepoch⟩ := deliver_other (s := { s with delayTimers := s.delayTimers.erase j })
        (r := r) hne
      exact isDropped_of_same hi hget (Nat.le_of_eq hepoch.symm)
  | settle j ok =>
      obtain ⟨r, hr, hsettle⟩ := Option.bind_eq_some_iff.mp hnext
      have hne : j ≠ i := by
        rintro rfl
        obtain ⟨r', hr', hphase, -⟩ := hi
        rw [hr, Option.some.injEq] at hr'
        subst hr'
        simp [NetworkListener.settle, hphase] at hsettle
      obtain ⟨hget, hepoch⟩ := settle_other hne hsettle
      exact isDropped_of_same hi hget (Nat.le_of_eq hepoch.symm)
  | disconnect j =>
      obtain ⟨r, hr, rfl⟩ := Option.map_eq_some_iff.mp hnext
      by_cases hne : j = i
      · subst hne
        obtain ⟨r', hr', hphase, hepoch⟩ := hi
        rw [hr, Option.some.injEq] at hr'
        subst hr'
        exact ⟨{ r with clientGone := true }, List.getElem?_set_self hlt, hphase, hepoch⟩
      · exact isDropped_of_same hi (List.getElem?_set_ne hne) (Nat.le_refl _)

end Events

/-- **Requests in flight.**  In every state that a run of the listener reaches, the counter
is the number of the requests that were admitted in the current epoch and have not ended, so
it is never negative; and a response that is delayed when the listener is stopped is
afterwards never delivered, recorded or counted. -/
theorem in_flight_accounted (evs : List ListenerEvent) (s : NetworkListener)
    (hrun : exec listenerNext .initial evs = some s) :
    s.inFlight = s.unfinished ∧ 0 ≤ s.inFlight ∧
      ∀ rest t, exec listenerNext s (.stop :: rest) = some t → ∀ i, s.isDelayed i →
        i ∉ t.delivered ∧ i ∉ t.recorded ∧
          ∀ r, t.requests[i]? = some r → r.unfinished t.runtimeEpoch = false := by
  have hkept : ∀ ev (s t : NetworkListener), s.Accounted → listenerNext ev s = some t → t.Accounted :=
    fun _ _ _ h hnext => h.step hnext
  have hs := exec_invariant' hkept NetworkListener.accounted_initial hrun
  refine ⟨hs.counter, ?_, fun rest t hrest i hi => ?_⟩
  · rw [hs.counter]
    exact Int.natCast_nonneg _
  · obtain ⟨u, hstop, hrest⟩ := exec_cons.mp hrest
    have hdropped : u.isDropped i := by
      cases hstop
      unfold NetworkListener.stop
      split
      · exact NetworkListener.isDelayed_cancel hs hi
      · exact NetworkListener.isDelayed_cancel hs hi
    obtain ⟨ht, r, hr, hphase, hlt⟩ := exec_invariant' (I := fun s => s.Accounted ∧ s.isDropped i)
      (fun ev s t h hnext => ⟨h.1.step hnext, dropped_step h.1 h.2 hnext⟩)
      ⟨hkept _ _ _ hs hstop, hdropped⟩ hrest
    have htold := ht.held i ⟨r, hr, hphase⟩
    rw [List.mem_append, not_or] at htold
    refine ⟨htold.1, htold.2, fun r' hr' => ?_⟩
    rw [hr, Option.some.injEq] at hr'
    subst hr'
    simp [Handling.unfinished, Nat.ne_of_lt hlt]

/-! ### A delayed response, and a stop -/

def delayedRequest : Inbound := ⟨false, false, false, false, .matched 100⟩

/-- One request waits for its timer and one for its upstream; after the restart, a third is
delayed, and the second ends. -/
theorem in_flight_accounted_restarted :
    ∃ s, exec listenerNext .initial [.start, .listening true, .request delayedRequest,
        .request { delayedRequest with course := .proxied }] = some s ∧
      s.inFlight = 2 ∧ s.inFlight = s.unfinished ∧
      ∀ t, exec listenerNext s [.stop, .drained, .start, .listening true, .request delayedRequest,
        .settle 1 true] = some t → 0 ∉ t.delivered ∧ t.inFlight = 1 := by
  obtain ⟨s, hrun, htwo⟩ :
      ∃ s, exec listenerNext .initial [.start, .listening true, .request delayedRequest,
          .request { delayedRequest with course := .proxied }] = some s ∧
        s.inFlight = 2 ∧ s.requests.map Handling.phase = [.delayed, .upstream] ∧
        (exec listenerNext s [.stop, .drained, .start, .listening true, .request delayedRequest,
          .settle 1 true]).all (fun t => t.inFlight = 1) := exists_exec (by decide)
  obtain ⟨hcounter, -, hstop⟩ := in_flight_accounted _ s hrun
  refine ⟨s, hrun, htwo.1, hcounter, fun t ht => ⟨(hstop _ t ht 0 ?_).1, ?_⟩⟩
  · have hphase := congrArg (·[0]?) htwo.2.1
    simp only [List.getElem?_map, List.getElem?_cons_zero, Option.map_eq_some_iff] at hphase
    exact hphase
  · simpa [ht] using htwo.2.2

end RedFireForge.ApiMock
