/-
# `RedFireForge.Correlation.RemoteStore` — pauses that wait for the server

A call of `pause` looks whether its correlation is in flight, registers with the server,
which may take three requests, and only then enters its promise into the map.  From then
on a loop polls the server.  Promises are settled through the map alone, so that one whose
entry is overwritten is never settled.
-/
import RedFireForge.Lib.InsertionMap
import RedFireForge.Lib.Run
import Mathlib.Data.Int.Notation
import Mathlib.Order.Basic

namespace RedFireForge.Correlation.Remote

open RedFireForge.Lib

/-- Where the wait loop of a pause is. -/
inductive LoopPhase
  | fetching | backoff | decoding | ended
deriving DecidableEq, Repr

/-- Where a call of `pause` is; from `waiting` on its promise stands or has stood in the map. -/
inductive PausePhase
  | registering | deleting | retrying
  /-- the text of an error answer is read -/
  | refused
  | rejected
  | waiting (loop : LoopPhase)
deriving DecidableEq, Repr

def PausePhase.isWaiting : PausePhase → Bool
  | .waiting _ => true
  | _ => false

structure Pause where
  correlationId : String
  overallDeadline : ℤ
  phase : PausePhase
  aborted : Bool
  /-- calls of `settle` and `fail` -/
  settlements : ℕ
deriving DecidableEq, Repr

/-- The entry of pause `pause`. -/
structure InflightEntry where
  pause : ℕ
  timeoutAt : ℤ
deriving DecidableEq, Repr

structure RemoteStore where
  inflight : InsertionMap String InflightEntry
  pauses : List Pause

def RemoteStore.initial : RemoteStore := ⟨∅, []⟩

def maxOverallTimeoutMs : ℤ := 60 * 60 * 1000

inductive RemoteStep
  | pause (correlationId : String) (timeoutMs now : ℤ)
  /-- the request of pause `i` to the server fails, or it has a status -/
  | answered (i : ℕ) (status : Option ℕ) (now : ℤ)
  | polled (i : ℕ) (status : Option ℕ)
  | decoded (i : ℕ) (resumed : Bool) (now : ℤ)
  /-- the backoff of pause `i` is over -/
  | waited (i : ℕ) (now : ℤ)
  | resume (correlationId : String)
  | cancel (correlationId : String)
  | cleanup (now : ℤ)
deriving DecidableEq, Repr

namespace RemoteStore

variable (s : RemoteStore)

/-! ## The map -/

/-- The entry goes, and its promise is settled. -/
def take (correlationId : String) (abort : Bool) : RemoteStore :=
  match s.inflight.lookup correlationId with
  | none => s
  | some ent =>
      { inflight := s.inflight.erase correlationId
        pauses := s.pauses.modify ent.pause fun p =>
          { p with aborted := p.aborted || abort, settlements := p.settlements + 1 } }

def resume (correlationId : String) : RemoteStore := s.take correlationId true

def cancel (correlationId : String) : RemoteStore := s.take correlationId true

def failAndDelete (correlationId : String) : RemoteStore := s.take correlationId false

def timedOut (now : ℤ) : List String :=
  (s.inflight.entries.filter fun x => decide (x.2.timeoutAt > 0 ∧ now > x.2.timeoutAt)).map Sigma.fst

def cleanup (now : ℤ) : RemoteStore := (s.timedOut now).foldl (fun s id => s.take id true) s

/-! ## The calls -/

def setPhase (i : ℕ) (phase : PausePhase) : RemoteStore :=
  { s with pauses := s.pauses.modify i fun p => { p with phase := phase } }

/-- The head of the wait loop. -/
def loop (i : ℕ) (p : Pause) (now : ℤ) : RemoteStore :=
  if p.aborted then s.setPhase i (.waiting .ended)
  else if p.overallDeadline - now ≤ 0 then
    (s.failAndDelete p.correlationId).setPhase i (.waiting .ended)
  else s.setPhase i (.waiting .fetching)

/-- The promise is entered into the map. -/
def enter (i : ℕ) (p : Pause) : RemoteStore :=
  { s.setPhase i (.waiting .fetching) with
    inflight := s.inflight.set p.correlationId ⟨i, p.overallDeadline⟩ }

def isOk (status : ℕ) : Bool := decide (200 ≤ status ∧ status ≤ 299)

/-- The registration was answered: a loop starts, or the text of the error is read. -/
def registered (i : ℕ) (p : Pause) (status : ℕ) (now : ℤ) : RemoteStore :=
  if isOk status || status == 201 then (s.enter i p).loop i p now else s.setPhase i .refused

def pause (correlationId : String) (timeoutMs now : ℤ) : RemoteStore :=
  let overallTimeout := if timeoutMs > 0 then min timeoutMs maxOverallTimeoutMs else maxOverallTimeoutMs
  let phase := if correlationId ∈ s.inflight then .rejected else .registering
  { s with pauses := s.pauses ++ [⟨correlationId, now + overallTimeout, phase, false, 0⟩] }

def answered (i : ℕ) (p : Pause) (status : Option ℕ) (now : ℤ) : Option RemoteStore :=
  match p.phase, status with
  | .registering, none => some (s.setPhase i .rejected)
  | .registering, some 409 => some (s.setPhase i .deleting)
  | .registering, some status => some (s.registered i p status now)
  | .deleting, _ => some (s.setPhase i .retrying)
  | .retrying, none => some (s.setPhase i .rejected)
  | .retrying, some status => some (s.registered i p status now)
  | .refused, _ => some (s.setPhase i .rejected)
  | _, _ => none

def polled (i : ℕ) (p : Pause) (status : Option ℕ) : Option RemoteStore :=
  match p.phase, status with
  | .waiting .fetching, none =>
      some (s.setPhase i (.waiting (if p.aborted then .ended else .backoff)))
  | .waiting .fetching, some status =>
      some (s.setPhase i (.waiting (if isOk status then .decoding else .backoff)))
  | _, _ => none

def decoded (i : ℕ) (p : Pause) (resumed : Bool) (now : ℤ) : Option RemoteStore :=
  match p.phase with
  | .waiting .decoding =>
      some (if resumed then (s.take p.correlationId false).setPhase i (.waiting .ended)
        else s.loop i p now)
  | _ => none

def waited (i : ℕ) (p : Pause) (now : ℤ) : Option RemoteStore :=
  match p.phase with
  | .waiting .backoff => some (s.loop i p now)
  | _ => none

end RemoteStore

def remoteNext : RemoteStep → RemoteStore → Option RemoteStore
  | .pause id timeoutMs now, s => some (s.pause id timeoutMs now)
  | .answered i status now, s => s.pauses[i]?.bind fun p => s.answered i p status now
  | .polled i status, s => s.pauses[i]?.bind fun p => s.polled i p status
  | .decoded i resumed now, s => s.pauses[i]?.bind fun p => s.decoded i p resumed now
  | .waited i now, s => s.pauses[i]?.bind fun p => s.waited i p now
  | .resume id, s => some (s.resume id)
  | .cancel id, s => some (s.cancel id)
  | .cleanup now, s => some (s.cleanup now)

namespace RemoteStore

/-! ## Promises that are not settled -/

/-- The correlation of pause `i`, if its promise has been entered and not been settled. -/
def outstanding (s : RemoteStore) (i : ℕ) : Option String :=
  (s.pauses[i]?.filter fun p => p.phase.isWaiting && p.settlements == 0).map (·.correlationId)

/-- No promise is settled twice, at most one waits for a correlation, and each that waits is
in the map. -/
structure Settles (s : RemoteStore) : Prop where
  once : ∀ p ∈ s.pauses, p.settlements ≤ 1
  alone : ∀ i j id, s.outstanding i = some id → s.outstanding j = some id → i = j
  held : ∀ i id, s.outstanding i = some id → ∃ ent, s.inflight.lookup id = some ent ∧ ent.pause = i

/-- A registration that enters the promise of a pause. -/
def enters (s : RemoteStore) (i : ℕ) (status : Option ℕ) : Option Pause :=
  s.pauses[i]?.filter fun p =>
    match p.phase, status with
    | .registering, some status => status != 409 && (isOk status || status == 201)
    | .retrying, some status => isOk status || status == 201
    | _, _ => false

/-- No promise is entered where one is. -/
def entersFree (l : RemoteStep) (s : RemoteStore) : Prop :=
  match l with
  | .answered i status _ => ∀ p ∈ s.enters i status, p.correlationId ∉ s.inflight
  | _ => True

instance (l : RemoteStep) (s : RemoteStore) : Decidable (entersFree l s) := by
  unfold entersFree
  split <;> infer_instance

/-- What holds in every run: each entry belongs to a promise that waits. -/
structure Inv (s : RemoteStore) : Prop where
  once : ∀ p ∈ s.pauses, p.settlements ≤ 1
  early : ∀ p ∈ s.pauses, p.phase.isWaiting = false → p.settlements = 0
  entry : ∀ id ent, s.inflight.lookup id = some ent → s.outstanding ent.pause = some id

def Held (s : RemoteStore) : Prop :=
  ∀ i id, s.outstanding i = some id → ∃ ent, s.inflight.lookup id = some ent ∧ ent.pause = i

variable {s s' : RemoteStore} {i : ℕ} {p : Pause} {id : String}

theorem outstanding_eq_some : s.outstanding i = some id ↔
    ∃ p, s.pauses[i]? = some p ∧ p.phase.isWaiting = true ∧ p.settlements = 0 ∧ p.correlationId = id := by
  simp [outstanding, Option.filter_eq_some_iff, and_assoc]

theorem settles_iff (h : s.Inv) : s.Settles ↔ s.Held := by
  constructor
  · exact Settles.held
  · intro hheld
    refine ⟨h.once, fun i j id hi hj => ?_, hheld⟩
    obtain ⟨ent, hent, rfl⟩ := hheld i id hi
    obtain ⟨ent', hent', rfl⟩ := hheld j id hj
    rw [hent, Option.some.injEq] at hent'
    rw [hent']

/-- What a change that settles nothing and enters nothing leaves. -/
structure Quiet (s s' : RemoteStore) : Prop where
  inflight : s'.inflight = s.inflight
  outstanding : ∀ i, s'.outstanding i = s.outstanding i
  once : ∀ p ∈ s'.pauses, p.settlements ≤ 1
  early : ∀ p ∈ s'.pauses, p.phase.isWaiting = false → p.settlements = 0

theorem Quiet.inv (hq : Quiet s s') (h : s.Inv) : s'.Inv where
  once := hq.once
  early := hq.early
  entry := fun id ent hent => by
    rw [hq.outstanding]
    exact h.entry id ent (hq.inflight ▸ hent)

theorem Quiet.held (hq : Quiet s s') : s'.Held ↔ s.Held := by
  unfold Held
  simp only [hq.inflight, hq.outstanding]

theorem pause_modify {f : Pause → Pause} {j : ℕ} : (s.pauses.modify i f)[j]? =
    if i = j then s.pauses[j]?.map f else s.pauses[j]? := by
  rw [List.getElem?_modify]
  split
  next => rfl
  next => cases s.pauses[j]? <;> rfl

theorem mem_modify {f : Pause → Pause} {q : Pause} (hq : q ∈ s.pauses.modify i f) :
    q ∈ s.pauses ∨ ∃ p, s.pauses[i]? = some p ∧ q = f p := by
  obtain ⟨j, hj⟩ := List.mem_iff_getElem?.mp hq
  rw [pause_modify] at hj
  split at hj
  next heq =>
    subst heq
    obtain ⟨p, hp, rfl⟩ := Option.map_eq_some_iff.mp hj
    exact Or.inr ⟨p, hp, rfl⟩
  next => exact Or.inl (List.mem_of_getElem? hj)

/-- A pause that goes on where it did not wait, or waits on. -/
theorem quiet_setPhase (h : s.Inv) (hp : s.pauses[i]? = some p) (phase : PausePhase)
    (hphase : phase.isWaiting = p.phase.isWaiting) : Quiet s (s.setPhase i phase) where
  inflight := rfl
  outstanding := fun j => by
    unfold setPhase outstanding
    rw [pause_modify]
    split
    next heq =>
      subst heq
      rw [hp, Option.map_some, Option.filter_some, Option.filter_some]
      simp only [hphase]
      split <;> rfl
    next => rfl
  once := fun q hq => by
    rcases mem_modify hq with hq | ⟨p', hp', rfl⟩
    · exact h.once q hq
    · exact h.once p' (List.mem_of_getElem? hp')
  early := fun q hq => by
    rcases mem_modify hq with hq | ⟨p', hp', rfl⟩
    · exact h.early q hq
    · rw [hp, Option.some.injEq] at hp'
      subst hp'
      intro hnot
      exact h.early p (List.mem_of_getElem? hp) (hphase ▸ hnot)

/-- An entry is taken from the map. -/
theorem take_spec (h : s.Inv) (id : String) (abort : Bool) :
    (s.take id abort).Inv ∧ ((s.take id abort).Held ↔ s.Held) := by
  unfold take
  split
  next => exact ⟨h, Iff.rfl⟩
  next ent hent =>
    obtain ⟨p, hp, hwaiting, hzero, hid⟩ := outstanding_eq_some.mp (h.entry id ent hent)
    have houtstanding : ∀ j, outstanding ⟨s.inflight.erase id, s.pauses.modify ent.pause fun p =>
        { p with aborted := p.aborted || abort, settlements := p.settlements + 1 }⟩ j =
          if j = ent.pause then none else s.outstanding j := by
      intro j
      unfold outstanding
      rw [pause_modify]
      by_cases heq : ent.pause = j
      · subst heq
        simp [hp]
      · rw [if_neg heq, if_neg (Ne.symm heq)]
    have hlookup : ∀ id', (s.inflight.erase id).lookup id' =
        if id' = id then none else s.inflight.lookup id' := fun id' => InsertionMap.lookup_erase
    refine ⟨⟨fun q hq => ?_, fun q hq hnot => ?_, fun id' ent' hent' => ?_⟩, ?_⟩
    · rcases mem_modify hq with hq | ⟨p', hp', rfl⟩
      · exact h.once q hq
      · rw [hp, Option.some.injEq] at hp'
        subst hp'
        exact Nat.succ_le_succ (Nat.le_of_eq hzero)
    · rcases mem_modify hq with hq | ⟨p', hp', rfl⟩
      · exact h.early q hq hnot
      · rw [hp, Option.some.injEq] at hp'
        subst hp'
        rw [hwaiting] at hnot
        cases hnot
    · rw [hlookup] at hent'
      split at hent'
      next => cases hent'
      next hne =>
        rw [houtstanding, if_neg (fun heq => ?_), h.entry id' ent' hent']
        have hsame := h.entry id' ent' hent'
        rw [heq, h.entry id ent hent, Option.some.injEq] at hsame
        exact hne hsame.symm
    · constructor
      · intro hheld j id' hj
        by_cases heq : j = ent.pause
        · subst heq
          rw [h.entry id ent hent, Option.some.injEq] at hj
          exact ⟨ent, hj ▸ hent, rfl⟩
        · obtain ⟨ent', hent', hpause⟩ := hheld j id' (by rw [houtstanding, if_neg heq, hj])
          rw [hlookup] at hent'
          split at hent'
          next => cases hent'
          next => exact ⟨ent', hent', hpause⟩
      · intro hheld j id' hj
        rw [houtstanding] at hj
        split at hj
        next => cases hj
        next hne =>
          obtain ⟨ent', hent', hpause⟩ := hheld j id' hj
          refine ⟨ent', ?_, hpause⟩
          rw [hlookup, if_neg (fun heq => ?_), hent']
          rw [heq, hent, Option.some.injEq] at hent'
          exact hne (hpause.symm.trans (congrArg InflightEntry.pause hent'.symm))

/-- A promise is entered. -/
theorem enter_spec (h : s.Inv) (hp : s.pauses[i]? = some p) (hphase : p.phase.isWaiting = false) :
    (s.enter i p).Inv ∧ ((s.enter i p).Held ↔ s.Held ∧ p.correlationId ∉ s.inflight) := by
  have hnone : s.outstanding i = none := by simp [outstanding, hp, hphase]
  have houtstanding : ∀ j, (s.enter i p).outstanding j =
      if j = i then some p.correlationId else s.outstanding j := by
    intro j
    unfold enter setPhase outstanding
    rw [pause_modify]
    by_cases heq : i = j
    · subst heq
      simp [hp, h.early p (List.mem_of_getElem? hp) hphase, PausePhase.isWaiting]
    · rw [if_neg heq, if_neg (Ne.symm heq)]
  have hlookup : ∀ id', (s.enter i p).inflight.lookup id' =
      if id' = p.correlationId then some ⟨i, p.overallDeadline⟩ else s.inflight.lookup id' := fun id' =>
    InsertionMap.lookup_set
  refine ⟨⟨fun q hq => ?_, fun q hq hnot => ?_, fun id ent hent => ?_⟩, ?_⟩
  · rcases mem_modify hq with hq | ⟨p', hp', rfl⟩
    · exact h.once q hq
    · exact h.once p' (List.mem_of_getElem? hp')
  · rcases mem_modify hq with hq | ⟨p', hp', rfl⟩
    · exact h.early q hq hnot
    · cases hnot
  · rw [hlookup] at hent
    split at hent
    next heq =>
      cases hent
      rw [houtstanding, if_pos rfl, heq]
    next =>
      have hthere := h.entry id ent hent
      rw [houtstanding, if_neg (fun heq => ?_), hthere]
      rw [heq, hnone] at hthere
      cases hthere
  · constructor
    · intro hheld
      have hold : ∀ j id, s.outstanding j = some id → id ≠ p.correlationId ∧
          ∃ ent, s.inflight.lookup id = some ent ∧ ent.pause = j := by
        intro j id hj
        have hne : j ≠ i := fun heq => by
          rw [heq, hnone] at hj
          cases hj
        obtain ⟨ent, hent, hpause⟩ := hheld j id (by rw [houtstanding, if_neg hne, hj])
        rw [hlookup] at hent
        split at hent
        next =>
          cases hent
          exact absurd hpause.symm hne
        next hid => exact ⟨hid, ent, hent, hpause⟩
      refine ⟨fun j id hj => (hold j id hj).2, fun hmem => ?_⟩
      -- the promise whose entry was there would be dropped
      obtain ⟨ent, hent⟩ := Option.isSome_iff_exists.mp (AList.lookup_isSome.mpr hmem)
      exact (hold _ _ (h.entry _ ent hent)).1 rfl
    · rintro ⟨hheld, hfree⟩ j id hj
      rw [houtstanding] at hj
      split at hj
      next heq =>
        cases hj
        exact ⟨⟨i, p.overallDeadline⟩, by rw [hlookup, if_pos rfl], heq.symm⟩
      next =>
        obtain ⟨ent, hent, hpause⟩ := hheld j id hj
        refine ⟨ent, ?_, hpause⟩
        rw [hlookup, if_neg (fun heq => hfree ?_), hent]
        rw [← heq]
        exact AList.lookup_isSome.mp (by rw [hent]; rfl)

/-- A call of `pause` begins. -/
theorem quiet_pause (h : s.Inv) {timeoutMs now : ℤ} : Quiet s (s.pause id timeoutMs now) where
  inflight := rfl
  outstanding := fun j => by
    have hnew : ∀ q : Pause, q.phase.isWaiting = false →
        (RemoteStore.mk s.inflight (s.pauses ++ [q])).outstanding j = s.outstanding j := by
      intro q hq
      unfold outstanding
      rw [List.getElem?_append]
      split
      next => rfl
      next hlt =>
        rw [List.getElem?_eq_none (Nat.le_of_not_lt hlt)]
        cases j - s.pauses.length with
        | zero => simp [hq]
        | succ n => rfl
    refine hnew _ ?_
    dsimp only
    split <;> rfl
  once := fun q hq => by
    rcases List.mem_append.mp hq with hq | hq
    · exact h.once q hq
    · rw [List.mem_singleton.mp hq]
      exact Nat.zero_le _
  early := fun q hq hnot => by
    rcases List.mem_append.mp hq with hq | hq
    · exact h.early q hq hnot
    · rw [List.mem_singleton.mp hq]

theorem pauses_take (id : String) (abort : Bool) (hp : s.pauses[i]? = some p) : ∃ p', (s.take id abort).pauses[i]? =
    some p' ∧ p'.phase = p.phase := by
  unfold take
  split
  next => exact ⟨p, hp, rfl⟩
  next ent _ =>
    rw [pause_modify]
    split
    next =>
      rw [hp]
      exact ⟨_, rfl, rfl⟩
    next => exact ⟨p, hp, rfl⟩

/-- An entry is taken, and the loop ends. -/
theorem take_setPhase_spec (h : s.Inv) (hp : s.pauses[i]? = some p) (hphase : p.phase.isWaiting = true)
    (id : String) (abort : Bool) (loop : LoopPhase) :
    ((s.take id abort).setPhase i (.waiting loop)).Inv ∧
      (((s.take id abort).setPhase i (.waiting loop)).Held ↔ s.Held) := by
  obtain ⟨hI, hheld⟩ := take_spec h id abort
  obtain ⟨p', hp', hsame⟩ := pauses_take id abort hp
  have hq := quiet_setPhase hI hp' (.waiting loop) (by rw [hsame, hphase]; rfl)
  exact ⟨hq.inv hI, hq.held.trans hheld⟩

theorem setPhase_spec (h : s.Inv) (hp : s.pauses[i]? = some p) (phase : PausePhase)
    (hphase : phase.isWaiting = p.phase.isWaiting) :
    (s.setPhase i phase).Inv ∧ ((s.setPhase i phase).Held ↔ s.Held) :=
  ⟨(quiet_setPhase h hp phase hphase).inv h, (quiet_setPhase h hp phase hphase).held⟩

theorem loop_spec (h : s.Inv) (hp : s.pauses[i]? = some p) (hphase : p.phase.isWaiting = true) (now : ℤ)
    (q : Pause) : (s.loop i q now).Inv ∧ ((s.loop i q now).Held ↔ s.Held) := by
  unfold loop
  split
  next => exact setPhase_spec h hp _ hphase.symm
  next =>
    split
    next => exact take_setPhase_spec h hp hphase _ false _
    next => exact setPhase_spec h hp _ hphase.symm

theorem cleanup_spec (h : s.Inv) (ids : List String) :
    (ids.foldl (fun s id => s.take id true) s).Inv ∧
      ((ids.foldl (fun s id => s.take id true) s).Held ↔ s.Held) := by
  induction ids generalizing s with
  | nil => exact ⟨h, Iff.rfl⟩
  | cons id ids ih =>
      obtain ⟨hI, hheld⟩ := take_spec h id true
      exact ⟨(ih hI).1, (ih hI).2.trans hheld⟩

theorem registered_spec (h : s.Inv) (hp : s.pauses[i]? = some p) (hphase : p.phase.isWaiting = false)
    (status : ℕ) (now : ℤ) :
    (s.registered i p status now).Inv ∧ ((s.registered i p status now).Held ↔
      s.Held ∧ ((isOk status || status == 201) = true → p.correlationId ∉ s.inflight)) := by
  unfold registered
  split
  next hok =>
    obtain ⟨hI, hheld⟩ := enter_spec h hp hphase
    have hp' : (s.enter i p).pauses[i]? = some { p with phase := .waiting .fetching } := by
      show (s.pauses.modify i _)[i]? = _
      rw [pause_modify, if_pos rfl, hp]
      rfl
    obtain ⟨hI', hheld'⟩ := loop_spec hI hp' rfl now p
    exact ⟨hI', hheld'.trans (hheld.trans (and_congr_right fun _ => ⟨fun hfree _ => hfree, fun hfree => hfree hok⟩))⟩
  next hbad =>
    obtain ⟨hI, hheld⟩ := setPhase_spec h hp .refused hphase.symm
    exact ⟨hI, hheld.trans ⟨fun hs => ⟨hs, fun hok => absurd hok hbad⟩, And.left⟩⟩

/-- A step keeps the invariant, and it drops no promise exactly if it enters none where one
is. -/
theorem step_held {l : RemoteStep} (h : s.Inv) (hnext : remoteNext l s = some s') :
    s'.Inv ∧ (s'.Held ↔ s.Held ∧ entersFree l s) := by
  have htrue : ∀ {t : RemoteStore}, t.Inv ∧ (t.Held ↔ s.Held) → t.Inv ∧ (t.Held ↔ s.Held ∧ True) :=
    fun hspec => ⟨hspec.1, hspec.2.trans (and_iff_left trivial).symm⟩
  cases l with
  | pause id timeoutMs now =>
      cases hnext
      exact htrue ⟨(quiet_pause h).inv h, (quiet_pause h).held⟩
  | answered i status now =>
      obtain ⟨p, hp, hanswer⟩ := Option.bind_eq_some_iff.mp hnext
      have hfree : ∀ {b : Bool}, (s.enters i status = if b then some p else none) →
          (entersFree (.answered i status now) s ↔ (b = true → p.correlationId ∉ s.inflight)) := by
        intro b hb
        show (∀ q ∈ s.enters i status, q.correlationId ∉ s.inflight) ↔ _
        rw [hb]
        cases b <;> simp
      have hno : s.enters i status = none → ∀ {phase : PausePhase}, phase.isWaiting = p.phase.isWaiting →
          (s.setPhase i phase).Inv ∧
            ((s.setPhase i phase).Held ↔ s.Held ∧ entersFree (.answered i status now) s) := by
        intro hnone phase hphase
        rw [hfree (b := false) hnone]
        obtain ⟨hI, hheld⟩ := setPhase_spec h hp _ hphase
        exact ⟨hI, hheld.trans (and_iff_left (fun hfalse => nomatch hfalse)).symm⟩
      unfold answered at hanswer
      split at hanswer
      next hphase =>
        cases hanswer
        exact hno (by simp [enters, hp, Option.filter_some]) (by rw [hphase]; rfl)
      next hphase =>
        cases hanswer
        exact hno (by simp [enters, hp, hphase, Option.filter_some]) (by rw [hphase]; rfl)
      next status hconflict hphase =>
        cases hanswer
        rw [hfree (b := isOk status || status == 201) (by
          simp [enters, hp, hphase, Option.filter_some, show status ≠ 409 from fun heq => hconflict heq])]
        exact registered_spec h hp (by rw [hphase]; rfl) status now
      next hphase =>
        cases hanswer
        exact hno (by simp [enters, hp, hphase, Option.filter_some]) (by rw [hphase]; rfl)
      next hphase =>
        cases hanswer
        exact hno (by simp [enters, hp, Option.filter_some]) (by rw [hphase]; rfl)
      next status hphase =>
        cases hanswer
        rw [hfree (b := isOk status || status == 201) (by
          simp [enters, hp, hphase, Option.filter_some])]
        exact registered_spec h hp (by rw [hphase]; rfl) status now
      next hphase =>
        cases hanswer
        exact hno (by simp [enters, hp, hphase, Option.filter_some]) (by rw [hphase]; rfl)
      next => cases hanswer
  | polled i status =>
      obtain ⟨p, hp, hpolled⟩ := Option.bind_eq_some_iff.mp hnext
      unfold polled at hpolled
      split at hpolled
      next hphase =>
        cases hpolled
        exact htrue (setPhase_spec h hp _ (by rw [hphase]; rfl))
      next hphase =>
        cases hpolled
        exact htrue (setPhase_spec h hp _ (by rw [hphase]; rfl))
      next => cases hpolled
  | decoded i resumed now =>
      obtain ⟨p, hp, hdecoded⟩ := Option.bind_eq_some_iff.mp hnext
      unfold decoded at hdecoded
      split at hdecoded
      next hphase =>
        cases hdecoded
        have hwaiting : p.phase.isWaiting = true := by rw [hphase]; rfl
        split
        next => exact htrue (take_setPhase_spec h hp hwaiting _ false _)
        next => exact htrue (loop_spec h hp hwaiting now p)
      next => cases hdecoded
  | waited i now =>
      obtain ⟨p, hp, hwaited⟩ := Option.bind_eq_some_iff.mp hnext
      unfold waited at hwaited
      split at hwaited
      next hphase =>
        cases hwaited
        exact htrue (loop_spec h hp (by rw [hphase]; rfl) now p)
      next => cases hwaited
  | resume id =>
      cases hnext
      exact htrue (take_spec h _ true)
  | cancel id =>
      cases hnext
      exact htrue (take_spec h _ true)
  | cleanup now =>
      cases hnext
      exact htrue (cleanup_spec h _)

theorem initial_inv : initial.Inv where
  once := fun _ hp => absurd hp List.not_mem_nil
  early := fun _ hp => absurd hp List.not_mem_nil
  entry := fun _ _ hent => nomatch hent

theorem initial_held : initial.Held := fun _ _ hi => nomatch hi

end RemoteStore

/-! ## Every pause is settled through the map -/

/-- **No promise is dropped unless one is entered in its place.**  At the end of a run no
promise has been settled twice, at most one waits for a correlation, and each that waits is in
the map, exactly if no registration was answered while another pause of its correlation was in
flight. -/
theorem pauses_settled (ls : List RemoteStep) (s : RemoteStore)
    (hrun : exec remoteNext RemoteStore.initial ls = some s) :
    s.Settles ↔ AllSteps remoteNext (fun l s => RemoteStore.entersFree l s) RemoteStore.initial ls := by
  have hI : s.Inv := exec_invariant' (fun _ _ _ h hnext => (RemoteStore.step_held h hnext).1)
    RemoteStore.initial_inv hrun
  rw [RemoteStore.settles_iff hI,
    exec_iff_allSteps (fun _ _ _ h hnext => RemoteStore.step_held h hnext) RemoteStore.initial_inv hrun]
  exact and_iff_right RemoteStore.initial_held

/-- A pause that is resumed, and another one of its correlation afterwards. -/
def onePause : List RemoteStep :=
  [.pause "order" 1000 0, .answered 0 (some 201) 1, .polled 0 (some 200), .decoded 0 true 2,
    .pause "order" 1000 3, .answered 1 (some 201) 4, .cancel "order"]

/-- Two pauses that begin before the first registration has answered. -/
def twoPauses : List RemoteStep :=
  [.pause "order" 1000 0, .pause "order" 1000 0, .answered 0 (some 201) 1, .answered 1 (some 409) 1,
    .answered 1 (some 200) 2, .answered 1 (some 201) 3, .polled 1 (some 200), .decoded 1 true 4,
    .resume "order"]

theorem pauses_settled_one :
    ∃ s, exec remoteNext RemoteStore.initial onePause = some s ∧ s.Settles := by
  obtain ⟨s, hrun, -⟩ : ∃ s, exec remoteNext RemoteStore.initial onePause = some s ∧
    s.pauses.length = 2 := exists_exec (by decide)
  exact ⟨s, hrun, (pauses_settled onePause s hrun).mpr (by decide)⟩

/-- The first of the two is not in the map any more, and nothing can settle it. -/
theorem pause_dropped :
    ∃ s, exec remoteNext RemoteStore.initial twoPauses = some s ∧
      (s.outstanding 0 = some "order" ∧ s.inflight.lookup "order" = none) :=
  exists_exec (by decide)

end RedFireForge.Correlation.Remote
