/-
# `RedFireForge.Kafka.TriggerManager` — triggers and the consumers they run

An activation connects and subscribes before it registers its entry and runs its consumer;
a deactivation takes the entry from the map and stops its consumer.  A message claims a slot
of the entry, the end of its run gives it back, and the consumer is paused while no slot is
free.  Consumers are stopped through the map alone.
-/
import RedFireForge.Lib.InsertionMap
import RedFireForge.Lib.Run
import Mathlib.Algebra.Order.Ring.Rat
import Mathlib.Tactic.Linarith

namespace RedFireForge.Kafka

open RedFireForge.Lib

inductive ActivationPhase
  /-- the entry that was there is cleaned up -/
  | deactivating
  | connecting | subscribing | failed
  | running
deriving DecidableEq, Repr

/-- A call of `activateTrigger`, with the entry that it makes. -/
structure TriggerActivation where
  entryKey : String
  maxConcurrentRuns : ℚ
  phase : ActivationPhase
  activeRunCount : ℕ
  paused : Bool
  /-- `cleanup` was called, which stops the consumer -/
  cancelled : Bool
  /-- runs that have been dispatched and not ended -/
  runs : ℕ
  /-- a deactivation began after the call -/
  deactivated : Bool
deriving DecidableEq, Repr

/-- The consumer runs and is not stopped. -/
def TriggerActivation.isLive (a : TriggerActivation) : Bool := a.phase == .running && !a.cancelled

structure TriggerManager where
  entries : InsertionMap String ℕ
  activations : List TriggerActivation
  /-- messages that passed the filters and started no run -/
  dropped : ℕ

namespace TriggerManager

def initial : TriggerManager := ⟨∅, [], 0⟩

variable (s : TriggerManager)

def modify (i : ℕ) (f : TriggerActivation → TriggerActivation) : TriggerManager :=
  { s with activations := s.activations.modify i f }

/-! ## Calls -/

def deactivateTrigger (entryKey : String) : TriggerManager :=
  match s.entries.lookup entryKey with
  | none => s
  | some i =>
      { s.modify i (fun a => { a with cancelled := true }) with entries := s.entries.erase entryKey }

def deactivateAll : TriggerManager :=
  { s with
    entries := ∅
    activations := s.entries.values.foldl (fun l i => l.modify i fun a => { a with cancelled := true })
      s.activations }

/-- A deactivation of these keys begins. -/
def notice (keys : String → Bool) : TriggerManager :=
  { s with activations := s.activations.map fun a =>
      if keys a.entryKey then { a with deactivated := true } else a }

def activateTrigger (entryKey : String) (maxConcurrentRuns : ℚ) : TriggerManager :=
  let phase := if entryKey ∈ s.entries then .deactivating else .connecting
  let ready := s.deactivateTrigger entryKey
  { ready with
    activations := ready.activations ++ [⟨entryKey, maxConcurrentRuns, phase, 0, false, false, 0, false⟩] }

/-- The entry is registered, and its consumer runs. -/
def register (i : ℕ) (entryKey : String) : TriggerManager :=
  { s.modify i (fun a => { a with phase := .running }) with entries := s.entries.set entryKey i }

/-! ## Messages -/

def atLimit (a : TriggerActivation) : Bool := decide ((a.activeRunCount : ℚ) ≥ a.maxConcurrentRuns)

def claim (a : TriggerActivation) : TriggerActivation :=
  let claimed := { a with activeRunCount := a.activeRunCount + 1, runs := a.runs + 1 }
  { claimed with paused := a.paused || atLimit claimed }

def release (a : TriggerActivation) : TriggerActivation :=
  let released := { a with activeRunCount := a.activeRunCount - 1, runs := a.runs - 1 }
  { released with paused := a.paused && (a.cancelled || atLimit released) }

def message (i : ℕ) (a : TriggerActivation) (passes : Bool) : TriggerManager :=
  if passes then
    if atLimit a then { s with dropped := s.dropped + 1 } else s.modify i claim
  else s

end TriggerManager

inductive TriggerStep
  | activate (entryKey : String) (maxConcurrentRuns : ℚ)
  /-- the cleanup that activation `i` waits for is over -/
  | cleaned (i : ℕ)
  | connected (i : ℕ) (ok : Bool)
  | subscribed (i : ℕ) (ok : Bool)
  | deactivate (entryKey : String)
  | deactivateAll
  /-- the consumer of activation `i` gets a message -/
  | message (i : ℕ) (passes : Bool)
  /-- a run of activation `i` ends -/
  | finish (i : ℕ)
deriving DecidableEq, Repr

open TriggerManager in
def triggerNext : TriggerStep → TriggerManager → Option TriggerManager
  | .activate key limit, s => some (s.activateTrigger key limit)
  | .cleaned i, s => s.activations[i]?.bind fun a =>
      if a.phase = .deactivating then some (s.modify i fun a => { a with phase := .connecting }) else none
  | .connected i ok, s => s.activations[i]?.bind fun a =>
      if a.phase = .connecting then
        some (s.modify i fun a => { a with phase := if ok then .subscribing else .failed })
      else none
  | .subscribed i ok, s => s.activations[i]?.bind fun a =>
      if a.phase = .subscribing then
        some (if ok then s.register i a.entryKey else s.modify i fun a => { a with phase := .failed })
      else none
  | .deactivate key, s => some ((s.notice (· == key)).deactivateTrigger key)
  | .deactivateAll, s => some (s.notice fun _ => true).deactivateAll
  | .message i passes, s => s.activations[i]?.bind fun a =>
      if a.phase = .running then some (s.message i a passes) else none
  | .finish i, s => s.activations[i]?.bind fun a =>
      if 0 < a.runs then some (s.modify i release) else none

namespace TriggerManager

/-! ## Consumers under control -/

/-- Of one activation: a consumer that runs is that of the entry under its key, and no
deactivation began since; its runs are counted and within the limit, and it is paused exactly at
the limit. -/
structure Controls (s : TriggerManager) (i : ℕ) (a : TriggerActivation) : Prop where
  owned : a.isLive = true → s.entries.lookup a.entryKey = some i
  undisturbed : a.isLive = true → a.deactivated = false
  counted : a.activeRunCount = a.runs
  bounded : a.phase = .running → (a.activeRunCount : ℚ) ≤ a.maxConcurrentRuns
  paused : a.isLive = true → (a.paused = true ↔ (a.activeRunCount : ℚ) ≥ a.maxConcurrentRuns)

structure Controlled (s : TriggerManager) : Prop where
  each : ∀ i a, s.activations[i]? = some a → s.Controls i a
  none_dropped : s.dropped = 0

/-- A consumer is run where its key is free, the limit is positive, and no deactivation began
meanwhile; and a message that passes the filters finds room for a run. -/
def staysControlled (l : TriggerStep) (s : TriggerManager) : Prop :=
  match l with
  | .subscribed i true => ∀ a ∈ s.activations[i]?,
      a.entryKey ∉ s.entries ∧ a.deactivated = false ∧ 0 < a.maxConcurrentRuns
  | .message i true => ∀ a ∈ s.activations[i]?, (a.activeRunCount : ℚ) + 1 ≤ a.maxConcurrentRuns
  | _ => True

instance (l : TriggerStep) (s : TriggerManager) : Decidable (staysControlled l s) := by
  unfold staysControlled
  split <;> infer_instance

/-- In every state under control: entries belong to consumers that run, and who does not run
yet has run nothing. -/
structure Inv (s : TriggerManager) : Prop where
  controlled : s.Controlled
  entry : ∀ key i, s.entries.lookup key = some i →
    ∃ a, s.activations[i]? = some a ∧ a.entryKey = key ∧ a.isLive = true
  early : ∀ (i : ℕ) (a : TriggerActivation), s.activations[i]? = some a → a.phase ≠ .running →
    a.activeRunCount = 0 ∧ a.runs = 0 ∧ a.paused = false ∧ a.cancelled = false

variable {s s' : TriggerManager} {i : ℕ} {a : TriggerActivation} {key : String}

theorem initial_inv : initial.Inv where
  controlled := ⟨fun _ _ ha => (nomatch ha), rfl⟩
  entry := fun _ _ h => nomatch h
  early := fun _ _ ha => nomatch ha

theorem modify_get {f : TriggerActivation → TriggerActivation} {j : ℕ} :
    (s.modify i f).activations[j]? = if i = j then s.activations[j]?.map f else s.activations[j]? := by
  show (s.activations.modify i f)[j]? = _
  rw [List.getElem?_modify]
  split
  next => rfl
  next => cases s.activations[j]? <;> rfl

/-- One activation changes, and no entry does. -/
theorem Inv.modify (h : s.Inv) (ha : s.activations[i]? = some a)
    {f : TriggerActivation → TriggerActivation} (hcontrols : s.Controls i (f a))
    (hkey : (f a).entryKey = a.entryKey) (hlive : (f a).isLive = a.isLive)
    (hearly : (f a).phase ≠ .running →
      (f a).activeRunCount = 0 ∧ (f a).runs = 0 ∧ (f a).paused = false ∧ (f a).cancelled = false) :
    (s.modify i f).Inv := by
  have hget : ∀ {j b}, (s.modify i f).activations[j]? = some b →
      j = i ∧ b = f a ∨ j ≠ i ∧ s.activations[j]? = some b := by
    intro j b hb
    rw [modify_get] at hb
    split at hb
    next heq =>
      subst heq
      rw [ha] at hb
      exact Or.inl ⟨rfl, (Option.some.inj hb).symm⟩
    next hne => exact Or.inr ⟨Ne.symm hne, hb⟩
  have hframe : ∀ {j b}, s.Controls j b → (s.modify i f).Controls j b := fun hb =>
    ⟨hb.owned, hb.undisturbed, hb.counted, hb.bounded, hb.paused⟩
  refine ⟨⟨fun j b hb => ?_, h.controlled.none_dropped⟩, fun key j hj => ?_, fun j b hb hphase => ?_⟩
  · rcases hget hb with ⟨rfl, rfl⟩ | ⟨-, hb⟩
    · exact hframe hcontrols
    · exact hframe (h.controlled.each j b hb)
  · obtain ⟨b, hb, hbkey, hblive⟩ := h.entry key j hj
    rw [modify_get]
    split
    next heq =>
      subst heq
      rw [ha, Option.some.injEq] at hb
      subst hb
      exact ⟨f a, by rw [ha]; rfl, hkey.trans hbkey, hlive.trans hblive⟩
    next => exact ⟨b, hb, hbkey, hblive⟩
  · rcases hget hb with ⟨rfl, rfl⟩ | ⟨-, hb⟩
    · exact hearly hphase
    · exact h.early j b hb hphase

/-- An activation that has not come to run goes on. -/
theorem Inv.goOn (h : s.Inv) (ha : s.activations[i]? = some a) {phase : ActivationPhase}
    (hold : a.phase ≠ .running) (hnew : phase ≠ .running) :
    (s.modify i fun a => { a with phase := phase }).Inv := by
  have hdead : ∀ b : TriggerActivation, b.phase ≠ .running → b.isLive = false := by
    intro b hb
    simp [TriggerActivation.isLive, hb]
  have hnow : ({ a with phase := phase } : TriggerActivation).isLive = false := hdead _ hnew
  refine h.modify ha ⟨?_, ?_, ?_, ?_, ?_⟩ rfl (hnow.trans (hdead a hold).symm) fun _ => h.early i a ha hold
  · intro hlive
    rw [hnow] at hlive
    cases hlive
  · intro hlive
    rw [hnow] at hlive
    cases hlive
  · exact (h.controlled.each i a ha).counted
  · exact fun hrunning => absurd hrunning hnew
  · intro hlive
    rw [hnow] at hlive
    cases hlive

/-- Entries of some keys go, and their consumers are stopped. -/
theorem Inv.stop (h : s.Inv) (keys : String → Bool) (deactivated : TriggerActivation → Bool)
    (hentries : ∀ key, s'.entries.lookup key = if keys key then none else s.entries.lookup key)
    (hget : ∀ i : ℕ, s'.activations[i]? = (s.activations[i]?).map fun a : TriggerActivation =>
      { a with
        cancelled := a.cancelled || (keys a.entryKey && decide (s.entries.lookup a.entryKey = some i))
        deactivated := deactivated a })
    (hnoticed : ∀ a, deactivated a = true → a.deactivated = true ∨ keys a.entryKey = true)
    (hdropped : s'.dropped = s.dropped) : s'.Inv := by
  have hlive : ∀ i a, s.activations[i]? = some a → a.phase = .running → a.cancelled = false →
      (keys a.entryKey && decide (s.entries.lookup a.entryKey = some i)) = false →
        keys a.entryKey = false := by
    intro i a ha hrunning hcancelled hkept
    have howned := (h.controlled.each i a ha).owned (by simp [TriggerActivation.isLive, hrunning, hcancelled])
    simpa [howned] using hkept
  refine ⟨⟨fun i b hb => ?_, hdropped.trans h.controlled.none_dropped⟩, fun key i hi => ?_,
    fun i b hb hphase => ?_⟩
  · rw [hget] at hb
    obtain ⟨a, ha, rfl⟩ := Option.map_eq_some_iff.mp hb
    have hcontrols := h.controlled.each i a ha
    have hstays : ∀ {b : Bool}, ({ a with cancelled := a.cancelled || (keys a.entryKey &&
        decide (s.entries.lookup a.entryKey = some i)), deactivated := b } : TriggerActivation).isLive =
        true → keys a.entryKey = false ∧ a.isLive = true := by
      intro b hb
      simp only [TriggerActivation.isLive, Bool.and_eq_true, beq_iff_eq, Bool.not_eq_true',
        Bool.or_eq_false_iff] at hb
      obtain ⟨hrunning, hcancelled, hkept⟩ := hb
      exact ⟨hlive i a ha hrunning hcancelled hkept, by simp [TriggerActivation.isLive, hrunning, hcancelled]⟩
    refine ⟨fun hb => ?_, fun hb => ?_, hcontrols.counted, hcontrols.bounded, fun hb =>
      hcontrols.paused (hstays hb).2⟩
    · rw [hentries, if_neg (by simp [(hstays hb).1])]
      exact hcontrols.owned (hstays hb).2
    · cases hd : deactivated a with
      | false => rfl
      | true =>
          rcases hnoticed a hd with hold | hkey
          · rw [hcontrols.undisturbed (hstays hb).2] at hold
            cases hold
          · rw [(hstays hb).1] at hkey
            cases hkey
  · rw [hentries] at hi
    split at hi
    next => cases hi
    next hkey =>
      obtain ⟨a, ha, rfl, halive⟩ := h.entry key i hi
      rw [hget, ha]
      refine ⟨_, rfl, rfl, ?_⟩
      simpa [TriggerActivation.isLive, hkey] using halive
  · rw [hget] at hb
    obtain ⟨a, ha, rfl⟩ := Option.map_eq_some_iff.mp hb
    obtain ⟨hcount, hruns, hpaused, hcancelled⟩ := h.early i a ha hphase
    refine ⟨hcount, hruns, hpaused, ?_⟩
    rw [Bool.or_eq_false_iff]
    refine ⟨hcancelled, ?_⟩
    by_contra hboth
    rw [Bool.not_eq_false, Bool.and_eq_true, decide_eq_true_iff] at hboth
    obtain ⟨a', ha', -, hlive'⟩ := h.entry _ i hboth.2
    rw [ha, Option.some.injEq] at ha'
    subst ha'
    simp only [TriggerActivation.isLive, Bool.and_eq_true, beq_iff_eq] at hlive'
    exact hphase hlive'.1

/-- Who owns the entry of a key. -/
theorem Inv.owner (h : s.Inv) (ha : s.activations[i]? = some a) (key : String) :
    s.entries.lookup key = some i ↔ a.entryKey = key ∧ s.entries.lookup a.entryKey = some i := by
  constructor
  · intro hi
    obtain ⟨a', ha', hkey, -⟩ := h.entry key i hi
    rw [ha, Option.some.injEq] at ha'
    subst ha'
    exact ⟨hkey, hkey ▸ hi⟩
  · rintro ⟨rfl, hi⟩
    exact hi

theorem deactivateTrigger_get (h : s.Inv) : ∀ i : ℕ, (s.deactivateTrigger key).activations[i]? =
    (s.activations[i]?).map fun a : TriggerActivation => { a with
      cancelled := a.cancelled || (a.entryKey == key && decide (s.entries.lookup a.entryKey = some i)) } := by
  intro i
  have hsame : ∀ a : TriggerActivation,
      (a.entryKey == key && decide (s.entries.lookup a.entryKey = some i)) = false →
        { a with cancelled := a.cancelled || (a.entryKey == key &&
          decide (s.entries.lookup a.entryKey = some i)) } = a := by
    intro a hfalse
    rw [hfalse, Bool.or_false]
  unfold deactivateTrigger
  cases hlookup : s.entries.lookup key with
  | none =>
      dsimp only
      cases ha : s.activations[i]? with
      | none => rfl
      | some a =>
          refine congrArg some (hsame a ?_).symm
          by_cases hkey : a.entryKey = key
          · rw [hkey, hlookup]
            simp
          · simp [hkey]
  | some j =>
      show (s.modify j _).activations[i]? = _
      rw [modify_get]
      cases ha : s.activations[i]? with
      | none => simp
      | some a =>
          have howner := h.owner ha key
          rw [hlookup, Option.some.injEq] at howner
          by_cases hj : j = i
          · obtain ⟨hkey, hown⟩ := howner.mp hj
            rw [if_pos hj, Option.map_some, Option.map_some, hown, hkey]
            simp
          · have hnot : ¬ (a.entryKey = key ∧ s.entries.lookup a.entryKey = some i) := fun hb =>
              hj (howner.mpr hb)
            rw [if_neg hj]
            exact congrArg some (hsame a (by simpa using hnot)).symm

theorem deactivateTrigger_lookup (key' : String) : (s.deactivateTrigger key).entries.lookup key' =
    if key' == key then none else s.entries.lookup key' := by
  unfold deactivateTrigger
  split
  next hnone =>
    split
    next heq => rw [beq_iff_eq.mp heq, hnone]
    next => rfl
  next =>
    simp only [beq_iff_eq]
    exact InsertionMap.lookup_erase

theorem Inv.deactivateTrigger (h : s.Inv) : (s.deactivateTrigger key).Inv := by
  refine h.stop (· == key) (·.deactivated) deactivateTrigger_lookup
    (deactivateTrigger_get h) (fun a ha => Or.inl ha) ?_
  unfold TriggerManager.deactivateTrigger
  split <;> rfl

theorem notice_get {keys : String → Bool} (i : ℕ) : (s.notice keys).activations[i]? =
    (s.activations[i]?).map fun a => { a with deactivated := a.deactivated || keys a.entryKey } := by
  unfold notice
  rw [List.getElem?_map]
  cases s.activations[i]? with
  | none => rfl
  | some a =>
      rw [Option.map_some, Option.map_some]
      split
      next hkey => rw [hkey, Bool.or_true]
      next hkey => rw [Bool.not_eq_true _ |>.mp hkey, Bool.or_false]

/-- What the invariant says of entries does not depend on who was noticed. -/
theorem Inv.deactivate (h : s.Inv) : ((s.notice (· == key)).deactivateTrigger key).Inv := by
  refine h.stop (· == key) (fun a => a.deactivated || a.entryKey == key)
    deactivateTrigger_lookup (fun i => ?_) (fun a ha => (Bool.or_eq_true _ _).mp ha) ?_
  · have hsame : ((s.notice (· == key)).deactivateTrigger key).activations[i]? =
        ((s.deactivateTrigger key).activations[i]?).map fun a =>
          { a with deactivated := a.deactivated || a.entryKey == key } := by
      have hentries : (s.notice (· == key)).entries = s.entries := rfl
      unfold TriggerManager.deactivateTrigger
      rw [hentries]
      cases s.entries.lookup key with
      | none => exact notice_get i
      | some j =>
          show ((s.notice (· == key)).modify j _).activations[i]? = ((s.modify j _).activations[i]?).map _
          rw [modify_get, modify_get, notice_get]
          split <;> cases s.activations[i]? <;> rfl
    rw [hsame, deactivateTrigger_get h, Option.map_map]
    rfl
  · unfold TriggerManager.deactivateTrigger
    split <;> rfl

theorem foldl_cancel (is : List ℕ) (l : List TriggerActivation) (i : ℕ) :
    (is.foldl (fun l i => l.modify i fun a => { a with cancelled := true }) l)[i]? =
      (l[i]?).map fun a => { a with cancelled := a.cancelled || decide (i ∈ is) } := by
  induction is generalizing l with
  | nil =>
      rw [List.foldl_nil]
      cases h : l[i]? with
      | none => rfl
      | some a => simp
  | cons j is ih =>
      rw [List.foldl_cons, ih, List.getElem?_modify]
      by_cases hj : j = i
      · cases l[i]? <;> simp [hj]
      · cases l[i]? <;> simp [hj, Ne.symm hj]

theorem Inv.deactivateAll (h : s.Inv) : (s.notice fun _ => true).deactivateAll.Inv := by
  refine h.stop (fun _ => true) (fun _ => true) (fun key => rfl) (fun i => ?_)
    (fun a ha => Or.inr rfl) rfl
  show (s.entries.values.foldl _ (s.notice _).activations)[i]? = _
  rw [foldl_cancel, notice_get]
  cases ha : s.activations[i]? with
  | none => rfl
  | some a =>
      have hiff : i ∈ s.entries.values ↔ s.entries.lookup a.entryKey = some i := by
        rw [InsertionMap.mem_values]
        constructor
        · rintro ⟨key, hkey⟩
          exact ((h.owner ha key).mp hkey).2
        · exact fun hown => ⟨_, hown⟩
      simp [hiff]

/-- A new activation. -/
theorem Inv.append (h : s.Inv) {phase : ActivationPhase} (hphase : phase ≠ .running) {limit : ℚ} :
    (TriggerManager.mk s.entries (s.activations ++ [⟨key, limit, phase, 0, false, false, 0, false⟩])
      s.dropped).Inv := by
  have hget : ∀ (i : ℕ) (b : TriggerActivation),
      (s.activations ++ [⟨key, limit, phase, 0, false, false, 0, false⟩])[i]? = some b →
      s.activations[i]? = some b ∨ b = ⟨key, limit, phase, 0, false, false, 0, false⟩ := by
    intro i b hb
    rw [List.getElem?_append] at hb
    split at hb
    next => exact Or.inl hb
    next => exact Or.inr (List.mem_singleton.mp (List.mem_of_getElem? hb))
  have hdead : TriggerActivation.isLive ⟨key, limit, phase, 0, false, false, 0, false⟩ = false := by
    simp [TriggerActivation.isLive, hphase]
  refine ⟨⟨fun i b hb => ?_, h.controlled.none_dropped⟩, fun key' i hi => ?_, fun i b hb hnot => ?_⟩
  · rcases hget i b hb with hb | rfl
    · obtain ⟨h₁, h₂, h₃, h₄, h₅⟩ := h.controlled.each i b hb
      exact ⟨h₁, h₂, h₃, h₄, h₅⟩
    · have hnever : ∀ {P : Prop},
          TriggerActivation.isLive ⟨key, limit, phase, 0, false, false, 0, false⟩ = true → P := by
        intro P hlive
        rw [hdead] at hlive
        cases hlive
      exact ⟨hnever, hnever, rfl, fun hrunning => absurd hrunning hphase, hnever⟩
  · obtain ⟨a, ha, hrest⟩ := h.entry key' i hi
    exact ⟨a, (List.getElem?_append_left (List.getElem?_eq_some_iff.mp ha).1).trans ha, hrest⟩
  · rcases hget i b hb with hb | rfl
    · exact h.early i b hb hnot
    · exact ⟨rfl, rfl, rfl, rfl⟩

theorem Inv.activateTrigger (h : s.Inv) {limit : ℚ} : (s.activateTrigger key limit).Inv := by
  refine h.deactivateTrigger.append ?_
  split <;> exact nofun

/-- The entry comes under a free key, and its consumer runs. -/
theorem Inv.register (h : s.Inv) (ha : s.activations[i]? = some a) (hphase : a.phase ≠ .running)
    (hfree : a.entryKey ∉ s.entries) (hdeactivated : a.deactivated = false)
    (hlimit : 0 < a.maxConcurrentRuns) : (s.register i a.entryKey).Inv := by
  obtain ⟨hcount, hruns, hpaused, hcancelled⟩ := h.early i a ha hphase
  have hnone : s.entries.lookup a.entryKey = none := AList.lookup_eq_none.mpr hfree
  have hget : ∀ j : ℕ, (s.register i a.entryKey).activations[j]? =
      if i = j then (s.activations[j]?).map fun a => { a with phase := .running } else s.activations[j]? :=
    fun j => modify_get
  have hnow : (s.register i a.entryKey).activations[i]? = some { a with phase := .running } := by
    rw [hget, if_pos rfl, ha, Option.map_some]
  -- the keys of the consumers that run are not the new one's
  have hother : ∀ {j b}, j ≠ i → s.activations[j]? = some b → b.isLive = true →
      (s.register i a.entryKey).entries.lookup b.entryKey = some j := by
    intro j b _ hb hlive
    have howned := (h.controlled.each j b hb).owned hlive
    have hne : b.entryKey ≠ a.entryKey := by
      intro heq
      rw [heq, hnone] at howned
      cases howned
    exact (InsertionMap.lookup_set_ne hne).trans howned
  have hcases : ∀ {j b}, (s.register i a.entryKey).activations[j]? = some b →
      j = i ∧ b = { a with phase := .running } ∨ j ≠ i ∧ s.activations[j]? = some b := by
    intro j b hb
    by_cases hj : j = i
    · subst hj
      rw [hnow] at hb
      exact Or.inl ⟨rfl, (Option.some.inj hb).symm⟩
    · rw [hget, if_neg (Ne.symm hj)] at hb
      exact Or.inr ⟨hj, hb⟩
  have hzero : ((0 : ℕ) : ℚ) = 0 := Nat.cast_zero
  refine ⟨⟨fun j b hb => ?_, h.controlled.none_dropped⟩, fun key j hj => ?_, fun j b hb hnot => ?_⟩
  · rcases hcases hb with ⟨rfl, rfl⟩ | ⟨hne, hb⟩
    · refine ⟨fun _ => InsertionMap.lookup_set_self, fun _ => hdeactivated, hcount.trans hruns.symm,
        fun _ => ?_, fun _ => ?_⟩
      · show (a.activeRunCount : ℚ) ≤ _
        rw [hcount, hzero]
        exact hlimit.le
      · show a.paused = true ↔ (a.activeRunCount : ℚ) ≥ a.maxConcurrentRuns
        rw [hcount, hzero, hpaused]
        exact ⟨nofun, fun hge => absurd hlimit (not_lt.mpr hge)⟩
    · have hold := h.controlled.each j b hb
      exact ⟨hother hne hb, hold.undisturbed, hold.counted, hold.bounded, hold.paused⟩
  · by_cases hkey : key = a.entryKey
    · have hset : (s.register i a.entryKey).entries.lookup key = some i := by
        rw [hkey]
        exact InsertionMap.lookup_set_self
      rw [hset, Option.some.injEq] at hj
      subst hj
      refine ⟨_, hnow, hkey.symm, ?_⟩
      show (ActivationPhase.running == .running && !a.cancelled) = true
      rw [hcancelled]
      rfl
    · obtain ⟨b, hb, hbkey, hlive⟩ := h.entry key j ((InsertionMap.lookup_set_ne hkey).symm.trans hj)
      refine ⟨b, ?_, hbkey, hlive⟩
      rw [hget, if_neg ?_, hb]
      intro heq
      rw [← heq, ha, Option.some.injEq] at hb
      rw [← hb] at hlive
      simp only [TriggerActivation.isLive, Bool.and_eq_true, beq_iff_eq] at hlive
      exact hphase hlive.1
  · rcases hcases hb with ⟨rfl, rfl⟩ | ⟨-, hb⟩
    · exact absurd rfl hnot
    · exact h.early j b hb hnot

/-- A consumer that runs under control found its key free and nobody who stops it. -/
theorem Inv.of_register (h : s.Inv) (ha : s.activations[i]? = some a) (hphase : a.phase ≠ .running)
    (hc : (s.register i a.entryKey).Controlled) :
    a.entryKey ∉ s.entries ∧ a.deactivated = false ∧ 0 < a.maxConcurrentRuns := by
  obtain ⟨hcount, -, hpaused, hcancelled⟩ := h.early i a ha hphase
  have hnow : (s.register i a.entryKey).activations[i]? = some { a with phase := .running } := by
    refine modify_get.trans ?_
    rw [if_pos rfl, ha, Option.map_some]
  have hcontrols := hc.each i _ hnow
  have hlive : TriggerActivation.isLive { a with phase := .running } = true := by
    simp [TriggerActivation.isLive, hcancelled]
  refine ⟨fun hmem => ?_, hcontrols.undisturbed hlive, ?_⟩
  · -- the consumer that held the key runs on, without an entry
    obtain ⟨j, hj⟩ := Option.isSome_iff_exists.mp (AList.lookup_isSome.mpr hmem)
    obtain ⟨b, hb, hkey, hblive⟩ := h.entry _ j hj
    have hne : i ≠ j := by
      rintro rfl
      rw [ha, Option.some.injEq] at hb
      subst hb
      simp only [TriggerActivation.isLive, Bool.and_eq_true, beq_iff_eq] at hblive
      exact hphase hblive.1
    have hstill : (s.register i a.entryKey).activations[j]? = some b := by
      refine modify_get.trans ?_
      rw [if_neg hne, hb]
    have howned := (hc.each j b hstill).owned hblive
    rw [hkey] at howned
    have hset : (s.register i a.entryKey).entries.lookup a.entryKey = some i :=
      InsertionMap.lookup_set_self
    rw [hset, Option.some.injEq] at howned
    exact hne howned
  · by_contra hle
    have hge : ((a.activeRunCount : ℕ) : ℚ) ≥ a.maxConcurrentRuns := by
      rw [hcount, Nat.cast_zero]
      exact not_lt.mp hle
    have hp : a.paused = true := (hcontrols.paused hlive).mpr hge
    rw [hpaused] at hp
    cases hp

/-- A run is claimed while there is room for it. -/
theorem Inv.claim (h : s.Inv) (ha : s.activations[i]? = some a) (hphase : a.phase = .running)
    (hroom : (a.activeRunCount : ℚ) + 1 ≤ a.maxConcurrentRuns) : (s.modify i claim).Inv := by
  obtain ⟨howned, hundisturbed, hcounted, -, hpaused⟩ := h.controlled.each i a ha
  have hcast : ((a.activeRunCount + 1 : ℕ) : ℚ) = (a.activeRunCount : ℚ) + 1 := Nat.cast_succ _
  refine h.modify ha ⟨howned, hundisturbed, congrArg (· + 1) hcounted, fun _ => ?_, fun hlive => ?_⟩ rfl rfl
    fun hnot => absurd hphase hnot
  · exact hcast.trans_le hroom
  · show (a.paused || atLimit _) = true ↔ ((a.activeRunCount + 1 : ℕ) : ℚ) ≥ a.maxConcurrentRuns
    have hfree : a.paused = false := by
      rw [Bool.eq_false_iff]
      intro hp
      have hge := (hpaused hlive).mp hp
      linarith
    rw [hfree, Bool.false_or]
    exact decide_eq_true_iff

/-- A run ends, and a live consumer goes on if there is room again. -/
theorem Inv.release (h : s.Inv) (ha : s.activations[i]? = some a) (hruns : 0 < a.runs) :
    (s.modify i release).Inv := by
  obtain ⟨howned, hundisturbed, hcounted, hbounded, hpaused⟩ := h.controlled.each i a ha
  have hcast : ((a.activeRunCount - 1 : ℕ) : ℚ) = (a.activeRunCount : ℚ) - 1 := by
    rw [Nat.cast_sub (by omega), Nat.cast_one]
  refine h.modify ha ⟨howned, hundisturbed, congrArg (· - 1) hcounted, fun hphase => ?_, fun hlive => ?_⟩
    rfl rfl fun hnot => ?_
  · have hle := hbounded hphase
    show ((a.activeRunCount - 1 : ℕ) : ℚ) ≤ a.maxConcurrentRuns
    rw [hcast]
    linarith
  · have hcancelled : a.cancelled = false := by
      have hlive : (a.phase == .running && !a.cancelled) = true := hlive
      rw [Bool.and_eq_true, Bool.not_eq_true'] at hlive
      exact hlive.2
    have hiff := hpaused hlive
    show (a.paused && (a.cancelled || atLimit _)) = true ↔
      ((a.activeRunCount - 1 : ℕ) : ℚ) ≥ a.maxConcurrentRuns
    rw [hcancelled, Bool.false_or, Bool.and_eq_true, hiff]
    show _ ∧ decide (((a.activeRunCount - 1 : ℕ) : ℚ) ≥ a.maxConcurrentRuns) = true ↔ _
    rw [decide_eq_true_iff, hcast]
    constructor
    · exact And.right
    · intro hge
      exact ⟨by linarith, hge⟩
  · obtain ⟨-, hnone, -⟩ := h.early i a ha hnot
    omega

/-- A step keeps the consumers under control exactly if it is one that does. -/
theorem next_inv (h : s.Inv) {l : TriggerStep} (hnext : triggerNext l s = some s') :
    (staysControlled l s → s'.Inv) ∧ (s'.Controlled → staysControlled l s) := by
  cases l with
  | activate key limit =>
      cases hnext
      exact ⟨fun _ => h.activateTrigger, fun _ => trivial⟩
  | cleaned i =>
      obtain ⟨a, ha, hnext⟩ := Option.bind_eq_some_iff.mp hnext
      split at hnext
      next hphase =>
        cases hnext
        exact ⟨fun _ => h.goOn ha (by rw [hphase]; exact nofun) nofun, fun _ => trivial⟩
      next => cases hnext
  | connected i ok =>
      obtain ⟨a, ha, hnext⟩ := Option.bind_eq_some_iff.mp hnext
      split at hnext
      next hphase =>
        cases hnext
        exact ⟨fun _ => h.goOn ha (by rw [hphase]; exact nofun) (by cases ok <;> exact nofun), fun _ => trivial⟩
      next => cases hnext
  | subscribed i ok =>
      obtain ⟨a, ha, hnext⟩ := Option.bind_eq_some_iff.mp hnext
      split at hnext
      next hphase =>
        have hnot : a.phase ≠ .running := by
          rw [hphase]
          exact nofun
        cases ok with
        | false =>
            cases hnext
            exact ⟨fun _ => h.goOn ha hnot nofun, fun _ => trivial⟩
        | true =>
            cases hnext
            constructor
            · intro hok
              obtain ⟨hfree, hdeactivated, hlimit⟩ := hok a ha
              exact h.register ha hnot hfree hdeactivated hlimit
            · intro hc a' ha'
              rw [Option.mem_def, ha, Option.some.injEq] at ha'
              subst ha'
              exact h.of_register ha hnot hc
      next => cases hnext
  | deactivate key =>
      cases hnext
      exact ⟨fun _ => h.deactivate, fun _ => trivial⟩
  | deactivateAll =>
      cases hnext
      exact ⟨fun _ => h.deactivateAll, fun _ => trivial⟩
  | message i passes =>
      obtain ⟨a, ha, hnext⟩ := Option.bind_eq_some_iff.mp hnext
      split at hnext
      next hphase =>
        cases hnext
        cases passes with
        | false => exact ⟨fun _ => h, fun _ => trivial⟩
        | true =>
            constructor
            · intro hok
              have hroom := hok a ha
              have hnot : atLimit a = false := by
                refine decide_eq_false fun hge => ?_
                linarith
              show (if atLimit a then _ else s.modify i claim).Inv
              rw [if_neg (by rw [hnot]; exact Bool.false_ne_true)]
              exact h.claim ha hphase hroom
            · intro hc a' ha'
              rw [Option.mem_def, ha, Option.some.injEq] at ha'
              subst ha'
              have hsplit : (if atLimit a then { s with dropped := s.dropped + 1 } else
                  s.modify i claim : TriggerManager).Controlled := hc
              split at hsplit
              next =>
                have hdropped : s.dropped + 1 = 0 := hsplit.none_dropped
                omega
              next =>
                have hnow : (s.modify i claim).activations[i]? = some (claim a) := by
                  rw [modify_get, if_pos rfl, ha, Option.map_some]
                have hbounded : ((a.activeRunCount + 1 : ℕ) : ℚ) ≤ a.maxConcurrentRuns :=
                  (hsplit.each i _ hnow).bounded hphase
                rwa [Nat.cast_succ] at hbounded
      next => cases hnext
  | finish i =>
      obtain ⟨a, ha, hnext⟩ := Option.bind_eq_some_iff.mp hnext
      split at hnext
      next hruns =>
        cases hnext
        exact ⟨fun _ => h.release ha hruns, fun _ => trivial⟩
      next => cases hnext

end TriggerManager

/-! ## Runs -/

open TriggerManager in
/-- **Consumers of triggers.**  In every state of a run each consumer that runs is that of the
entry under its key, with its runs counted and within the limit, paused exactly at the limit, and
no message has been dropped, exactly if each consumer came to run under a free key, with a
positive limit and no deactivation meanwhile, and each message found room for a run. -/
theorem triggers_controlled (ls : List TriggerStep) (s : TriggerManager)
    (hrun : exec triggerNext initial ls = some s) :
    (∀ pre u, pre <+: ls → exec triggerNext initial pre = some u → u.Controlled) ↔
      AllSteps triggerNext staysControlled initial ls :=
  exec_forall_iff (I := Inv) (P := Controlled) (fun _ h => h.controlled) (fun _ _ _ h hnext => next_inv h hnext)
    initial_inv hrun

/-- A trigger with room for two, a message of which starts a run, and its deactivation. -/
def orderlyTrigger : List TriggerStep :=
  [.activate "w::n" 2, .connected 0 true, .subscribed 0 true, .message 0 true, .message 0 true, .finish 0,
    .deactivate "w::n", .finish 0]

theorem triggers_controlled_orderly : ∃ s, exec triggerNext TriggerManager.initial orderlyTrigger = some s ∧
    ∀ pre u, pre <+: orderlyTrigger → exec triggerNext TriggerManager.initial pre = some u → u.Controlled := by
  obtain ⟨s, hs⟩ : ∃ s, exec triggerNext TriggerManager.initial orderlyTrigger = some s := ⟨_, rfl⟩
  exact ⟨s, hs, (triggers_controlled orderlyTrigger s hs).mpr (by decide +kernel)⟩

/-- Two activations of one trigger at a time leave a consumer that has no entry, a trigger that is
deactivated while it connects runs all the same, and a third message is dropped where there is
room for two. -/
theorem trigger_uncontrolled :
    (∃ s, exec triggerNext TriggerManager.initial [.activate "w::n" 2, .activate "w::n" 2, .connected 0 true,
        .connected 1 true, .subscribed 0 true, .subscribed 1 true] = some s ∧ ¬ s.Controlled) ∧
      (∃ s, exec triggerNext TriggerManager.initial [.activate "w::n" 2, .deactivate "w::n", .connected 0 true,
        .subscribed 0 true] = some s ∧ ¬ s.Controlled) ∧
      ∃ s, exec triggerNext TriggerManager.initial [.activate "w::n" 2, .connected 0 true, .subscribed 0 true,
        .message 0 true, .message 0 true, .message 0 true] = some s ∧ ¬ s.Controlled := by
  refine ⟨⟨_, rfl, fun hc => ?_⟩, ⟨_, rfl, fun hc => ?_⟩, ⟨_, rfl, fun hc => ?_⟩⟩
  · have howned := (hc.each 0 _ rfl).owned rfl
    exact absurd howned (by decide)
  · exact absurd ((hc.each 0 _ rfl).undisturbed rfl) (by decide)
  · exact absurd hc.none_dropped (by decide)

end RedFireForge.Kafka
