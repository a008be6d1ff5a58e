/-
# `RedFireForge.Engine.WorkerSplit` — how `runTestMultiWorker` splits a test

The scenarios of a run are cut into one chunk for each worker, and the limits of
the test are shared out: the concurrency, or of a load profile the two peaks.  A
worker never gets less than one.  What a worker may have in flight follows from
the runner that `runTest` picks for its part of the test.
-/
import Mathlib.Algebra.BigOperators.Ring.List
import RedFireForge.Engine.LoadProfile
import RedFireForge.Lib.Split

namespace RedFireForge.Engine

open RedFireForge.Lib

inductive ExecutionMode
  | sequential | batch | pool | loadProfile | workflow | constantArrival
deriving DecidableEq, Repr

structure TestConfig where
  concurrency : Int
  iterations : ℕ
  executionMode : ExecutionMode
  loadProfile : Option LoadProfileConfig
deriving DecidableEq, Repr

/-- The profile of worker `i`: `if (lp.spikeConcurrency)` leaves none and zero as they
are. -/
def LoadProfileConfig.workerProfile (lp : LoadProfileConfig) (workerCount i : ℕ) :
    LoadProfileConfig :=
  { lp with
    maxConcurrency := share lp.maxConcurrency workerCount i
    spikeConcurrency := lp.spikeConcurrency.map (fun spike =>
      if spike = 0 then spike else share spike workerCount i) }

namespace TestConfig

/-- The profile of a load-profile run: `isLoadProfile` tells that there is one. -/
def profile (c : TestConfig) : Option LoadProfileConfig :=
  if c.executionMode = .loadProfile then c.loadProfile else none

/-- How many requests the runner of the test may have in flight at a time.  Without
a workflow graph the mode `workflow` runs the scenarios as steps, one after the
other in each iteration. -/
def inFlightLimit (c : TestConfig) (elapsedMs : ℚ) : Int :=
  match c.profile with
  | some lp => max 0 (getTargetConcurrency lp elapsedMs)
  | none =>
      match c.executionMode with
      | .sequential => 1
      | .workflow =>
          -- `config.iterations || 1`
          let iterations := if c.iterations = 0 then 1 else c.iterations
          if iterations ≤ 1 ∨ c.concurrency ≤ 1 then 1 else min c.concurrency iterations
      | _ => max 0 c.concurrency

/-- What worker `i` of `workerCount` is sent. -/
def workerConfig (c : TestConfig) (workerCount i : ℕ) : TestConfig :=
  { c with
    concurrency := share c.concurrency workerCount i
    loadProfile :=
      if c.profile.isSome then c.loadProfile.map (fun lp => lp.workerProfile workerCount i)
      else c.loadProfile }

end TestConfig

def minScenariosForMulti : ℕ := 8

variable {α : Type}

/-- The chunks, with `n` the number of workers; under a load profile every worker has
all scenarios. -/
def chunks (c : TestConfig) (scenarios : List α) (n : ℕ) : List (List α) :=
  if c.profile.isSome then List.replicate (min (n : Int) c.concurrency).toNat scenarios
  else
    let chunkSize := (scenarios.length + n - 1) / n
    (slices scenarios chunkSize n).filter (· ≠ [])

/-- What the workers are sent; `n` is `getWorkerCount()`, and one worker gets the
test as it is. -/
def workerParts (c : TestConfig) (scenarios : List α) (workflow : Bool) (n : ℕ) :
    List (TestConfig × List α) :=
  if n ≤ 1 || workflow || (c.profile.isNone && decide (scenarios.length < minScenariosForMulti)) then
    [(c, scenarios)]
  else
    let chunks := chunks c scenarios n
    if chunks.length ≤ 1 then [(c, scenarios)]
    else chunks.zipIdx.map (fun (chunk, i) => (c.workerConfig chunks.length i, chunk))

/-- What is asked of a split. -/
structure KeepsLoad (c : TestConfig) (scenarios : List α) (parts : List (TestConfig × List α)) :
    Prop where
  /-- each scenario goes to one worker -/
  assigned : c.profile = none → (parts.map Prod.snd).flatten = scenarios
  /-- the limits add up -/
  concurrency : c.profile = none → (parts.map (·.1.concurrency)).sum ≤ c.concurrency
  peaks : ∀ lp, c.profile = some lp → ∃ profiles : List LoadProfileConfig,
    parts.map (·.1.profile) = profiles.map some ∧
      (profiles.map (·.maxConcurrency)).sum = lp.maxConcurrency ∧
      (profiles.map (·.spikeConcurrency.getD 0)).sum = lp.spikeConcurrency.getD 0
  /-- at no time may the workers have more in flight than one worker with the whole test -/
  inFlight : ∀ elapsedMs, 0 ≤ elapsedMs →
    (parts.map (·.1.inFlightLimit elapsedMs)).sum ≤ c.inFlightLimit elapsedMs

/-! ## Load profiles -/

namespace LoadProfileConfig

/-- The profile starts from one request and rises. -/
def Ramps (lp : LoadProfileConfig) : Prop := lp.type = .rampUp ∧ 0 < lp.durationSec ∧ 0 < lp.rampSec

/-- The profile has a time of its spike. -/
def Spikes (lp : LoadProfileConfig) : Prop :=
  lp.type = .spike ∧ max 0 lp.spikeStart < min lp.durationSec (lp.spikeStart + lp.spikeDur)

instance (lp : LoadProfileConfig) : Decidable lp.Ramps := inferInstanceAs (Decidable (_ ∧ _))
instance (lp : LoadProfileConfig) : Decidable lp.Spikes := inferInstanceAs (Decidable (_ ∧ _))

/-- The sum of what `n` workers aim at. -/
def workersTarget (lp : LoadProfileConfig) (n : ℕ) (elapsedMs : ℚ) : Int :=
  ((List.range n).map (fun i => max 0 (getTargetConcurrency (lp.workerProfile n i) elapsedMs))).sum

/-- A split of the profile that shares out the same at all times. -/
structure SplitsSafely (lp : LoadProfileConfig) (n : ℕ) : Prop where
  peak : (n : Int) ≤ lp.maxConcurrency
  spike : lp.spikeConcurrency.getD 0 = 0 ∨ (n : Int) ≤ lp.spikeConcurrency.getD 0
  ramp : ¬ lp.Ramps
  zero : lp.spikeConcurrency = some 0 → ¬ lp.Spikes

end LoadProfileConfig

section Profiles

variable {lp : LoadProfileConfig} {n : ℕ} {elapsedMs : ℚ}

theorem target_ended (h : lp.durationSec ≤ elapsedMs / 1000) :
    getTargetConcurrency lp elapsedMs = 0 := by
  unfold getTargetConcurrency
  exact if_pos h

theorem target_sustained (h : elapsedMs / 1000 < lp.durationSec) (ht : lp.type = .sustained) :
    getTargetConcurrency lp elapsedMs = lp.maxConcurrency := by
  unfold getTargetConcurrency
  dsimp only
  rw [if_neg (not_le.mpr h), ht]

theorem target_ramped (h : elapsedMs / 1000 < lp.durationSec) (ht : lp.type = .rampUp)
    (hramp : lp.rampSec ≤ 0) : getTargetConcurrency lp elapsedMs = lp.maxConcurrency := by
  unfold getTargetConcurrency
  dsimp only
  rw [if_neg (not_le.mpr h), ht]
  exact if_pos (Or.inl hramp)

/-- A ramp starts from one request. -/
theorem target_start (hramps : lp.Ramps) : getTargetConcurrency lp 0 = 1 := by
  obtain ⟨ht, hdur, hramp⟩ := hramps
  have hzero : (0 : ℚ) / 1000 = 0 := by norm_num
  unfold getTargetConcurrency
  dsimp only
  rw [hzero, if_neg (not_le.mpr hdur), ht]
  have hgo : ¬ (lp.rampSec ≤ 0 ∨ (0 : ℚ) ≥ lp.rampSec) := by
    rw [ge_iff_le, or_self, not_le]
    exact hramp
  have hone : 1 + ((lp.maxConcurrency : ℚ) - 1) * (0 / lp.rampSec) = ((1 : Int) : ℚ) := by
    rw [zero_div, mul_zero, add_zero, Int.cast_one]
  show (if lp.rampSec ≤ 0 ∨ (0 : ℚ) ≥ lp.rampSec then _ else _) = _
  rw [if_neg hgo, hone, Rat.ceil_intCast, max_self]

theorem target_spike (h : elapsedMs / 1000 < lp.durationSec) (ht : lp.type = .spike)
    (hw : elapsedMs / 1000 ≥ lp.spikeStart ∧ elapsedMs / 1000 < lp.spikeStart + lp.spikeDur) :
    getTargetConcurrency lp elapsedMs =
      max 1 (lp.spikeConcurrency.getD (lp.maxConcurrency * 3)) := by
  unfold getTargetConcurrency
  dsimp only
  rw [if_neg (not_le.mpr h), ht]
  exact if_pos hw

theorem target_off_spike (h : elapsedMs / 1000 < lp.durationSec) (ht : lp.type = .spike)
    (hw : ¬ (elapsedMs / 1000 ≥ lp.spikeStart ∧ elapsedMs / 1000 < lp.spikeStart + lp.spikeDur)) :
    getTargetConcurrency lp elapsedMs = max 1 lp.maxConcurrency := by
  unfold getTargetConcurrency
  dsimp only
  rw [if_neg (not_le.mpr h), ht]
  exact if_neg hw

/-- Each worker aims at `m` times its share. -/
theorem workersTarget_shares {total : Int} (m : Int) (hm : 0 ≤ m) (hn : 0 < n) (h : (n : Int) ≤ total)
    (hworker : ∀ i, getTargetConcurrency (lp.workerProfile n i) elapsedMs = share total n i * m)
    (hall : getTargetConcurrency lp elapsedMs = total * m) :
    lp.workersTarget n elapsedMs = max 0 (getTargetConcurrency lp elapsedMs) := by
  have hshare : ∀ i ∈ List.range n,
      max 0 (getTargetConcurrency (lp.workerProfile n i) elapsedMs) = share total n i * m := by
    intro i _
    have hone := one_le_share total n i
    rw [hworker i]
    exact max_eq_right (mul_nonneg (by omega) hm)
  have hsum : ((List.range n).map (share total n)).sum = total := sum_shares hn h
  rw [LoadProfileConfig.workersTarget, List.map_congr_left hshare, List.sum_map_mul_right, hsum, hall]
  exact (max_eq_right (mul_nonneg (by omega) hm)).symm

/-- Each worker aims at the same. -/
theorem workersTarget_const {k : Int} (hk : 0 ≤ k)
    (hworker : ∀ i, getTargetConcurrency (lp.workerProfile n i) elapsedMs = k) :
    lp.workersTarget n elapsedMs = n * k := by
  have hconst : ∀ i ∈ List.range n,
      max 0 (getTargetConcurrency (lp.workerProfile n i) elapsedMs) = k := by
    intro i _
    rw [hworker i]
    exact max_eq_right hk
  rw [LoadProfileConfig.workersTarget, List.map_congr_left hconst]
  simp

/-- During the spike. -/
theorem workersTarget_spike (hn : 0 < n) (hs : lp.SplitsSafely n)
    (h : elapsedMs / 1000 < lp.durationSec) (he : 0 ≤ elapsedMs) (ht : lp.type = .spike)
    (hw : elapsedMs / 1000 ≥ lp.spikeStart ∧ elapsedMs / 1000 < lp.spikeStart + lp.spikeDur) :
    lp.workersTarget n elapsedMs = max 0 (getTargetConcurrency lp elapsedMs) := by
  have hn' : (1 : Int) ≤ n := by exact_mod_cast hn
  have hpeak := hs.peak
  have hone : ∀ p : LoadProfileConfig, p.durationSec = lp.durationSec → p.type = lp.type →
      p.spikeStart = lp.spikeStart → p.spikeDur = lp.spikeDur →
        getTargetConcurrency p elapsedMs = max 1 (p.spikeConcurrency.getD (p.maxConcurrency * 3)) := by
    intro p hdur htype hstart hlen
    refine target_spike ?_ (htype.trans ht) ?_
    · rwa [hdur]
    · rwa [hstart, hlen]
  cases hspike : lp.spikeConcurrency with
  | none =>
      refine workersTarget_shares 3 (by omega) hn hpeak (fun i => ?_) ?_
      · have := one_le_share lp.maxConcurrency n i
        rw [hone (lp.workerProfile n i) rfl rfl rfl rfl]
        simp only [LoadProfileConfig.workerProfile, hspike, Option.map_none, Option.getD_none]
        omega
      · rw [hone lp rfl rfl rfl rfl, hspike, Option.getD_none]
        omega
  | some spike =>
      by_cases hzero : spike = 0
      · subst hzero
        have hnonneg : 0 ≤ elapsedMs / 1000 := div_nonneg he (by norm_num)
        refine absurd ⟨ht, max_lt_iff.mpr ⟨?_, ?_⟩⟩ (hs.zero hspike)
        · refine lt_min_iff.mpr ⟨?_, ?_⟩
          · exact lt_of_le_of_lt hnonneg h
          · exact lt_of_le_of_lt hnonneg hw.2
        · exact lt_min_iff.mpr ⟨lt_of_le_of_lt hw.1 h, lt_of_le_of_lt hw.1 hw.2⟩
      · have hle : (n : Int) ≤ spike := by
          have := hs.spike
          rw [hspike, Option.getD_some] at this
          exact this.resolve_left hzero
        refine workersTarget_shares 1 (by omega) hn hle (fun i => ?_) ?_
        · have := one_le_share spike n i
          rw [hone (lp.workerProfile n i) rfl rfl rfl rfl]
          simp only [LoadProfileConfig.workerProfile, hspike, Option.map_some, if_neg hzero,
            Option.getD_some]
          omega
        · rw [hone lp rfl rfl rfl rfl, hspike, Option.getD_some]
          omega

/-- **A safe split** aims at what the profile aims at, at all times. -/
theorem workersTarget_eq (hn : 0 < n) (hs : lp.SplitsSafely n) (he : 0 ≤ elapsedMs) :
    lp.workersTarget n elapsedMs = max 0 (getTargetConcurrency lp elapsedMs) := by
  have hn' : (1 : Int) ≤ n := by exact_mod_cast hn
  have hpeak := hs.peak
  rcases le_or_gt lp.durationSec (elapsedMs / 1000) with hover | h
  · rw [workersTarget_const (le_refl 0) (fun i => target_ended hover), target_ended hover]
    simp
  · have hshare : (∀ p : LoadProfileConfig, p.durationSec = lp.durationSec → p.type = lp.type →
        p.rampSec = lp.rampSec → p.spikeStart = lp.spikeStart → p.spikeDur = lp.spikeDur →
        1 ≤ p.maxConcurrency → getTargetConcurrency p elapsedMs = p.maxConcurrency) →
        lp.workersTarget n elapsedMs = max 0 (getTargetConcurrency lp elapsedMs) := by
      intro hp
      refine workersTarget_shares 1 (by omega) hn hpeak (fun i => ?_) ?_
      · rw [hp (lp.workerProfile n i) rfl rfl rfl rfl rfl (one_le_share _ _ _), mul_one]
        rfl
      · rw [hp lp rfl rfl rfl rfl rfl (by omega), mul_one]
    cases htype : lp.type with
    | sustained =>
        refine hshare (fun p hdur ht _ _ _ _ => target_sustained ?_ (ht.trans htype))
        rwa [hdur]
    | rampUp =>
        have hnonneg : 0 ≤ elapsedMs / 1000 := div_nonneg he (by norm_num)
        have hdur : 0 < lp.durationSec := lt_of_le_of_lt hnonneg h
        have hramp : lp.rampSec ≤ 0 := by
          by_contra hpos
          exact hs.ramp ⟨htype, hdur, not_le.mp hpos⟩
        refine hshare (fun p hdur ht hr _ _ _ => target_ramped ?_ (ht.trans htype) ?_)
        · rwa [hdur]
        · rwa [hr]
    | spike =>
        by_cases hw : elapsedMs / 1000 ≥ lp.spikeStart ∧
            elapsedMs / 1000 < lp.spikeStart + lp.spikeDur
        · exact workersTarget_spike hn hs h he htype hw
        · refine hshare (fun p hdur ht _ hstart hlen hone => ?_)
          rw [target_off_spike (by rwa [hdur]) (ht.trans htype) (by rwa [hstart, hlen])]
          exact max_eq_right hone

end Profiles

/-! ## Splits -/

/-- How many workers are started, from the test and the number of its scenarios. -/
def TestConfig.workerCount (c : TestConfig) (scenarioCount : ℕ) (workflow : Bool) (n : ℕ) : ℕ :=
  if n ≤ 1 || workflow || (c.profile.isNone && decide (scenarioCount < minScenariosForMulti)) then 1
  else if c.profile.isSome then max 1 (min (n : Int) c.concurrency).toNat
  else
    let chunkSize := (scenarioCount + n - 1) / n
    max 1 ((scenarioCount + chunkSize - 1) / chunkSize)

/-- The limits suffice for one each, and nothing else runs one request for each worker. -/
def TestConfig.SplitsSafely (c : TestConfig) (workers : ℕ) : Prop :=
  match c.profile with
  | some lp => lp.SplitsSafely workers
  | none =>
      (workers : Int) ≤ c.concurrency ∧ c.executionMode ≠ .sequential ∧
        (c.executionMode = .workflow → c.concurrency ≤ c.iterations)

section Splits

variable {c : TestConfig} {scenarios : List α} {workflow : Bool} {n : ℕ}

/-- The parts of a split. -/
def parts (c : TestConfig) (chunks : List (List α)) : List (TestConfig × List α) :=
  chunks.zipIdx.map (fun (chunk, i) => (c.workerConfig chunks.length i, chunk))

theorem parts_chunks (chunks : List (List α)) : (parts c chunks).map Prod.snd = chunks := by
  simp only [parts, List.map_map]
  exact List.zipIdx_map_fst 0 chunks

theorem parts_configs {β : Type} (chunks : List (List α)) (f : TestConfig → β) :
    (parts c chunks).map (fun p => f p.1) =
      (List.range chunks.length).map (fun i => f (c.workerConfig chunks.length i)) := by
  have hidx : chunks.zipIdx.map Prod.snd = List.range chunks.length := by
    rw [List.zipIdx_map_snd, List.range_eq_range']
  simp only [parts, List.map_map, ← hidx]
  rfl

theorem chunkSize_covers {k : ℕ} (hn : 0 < n) : k ≤ n * ((k + n - 1) / n) := by
  have := Nat.lt_mul_div_succ (k + n - 1) hn
  rw [Nat.mul_add, Nat.mul_one] at this
  omega

theorem chunks_flatten (hn : 0 < n) (hprofile : c.profile = none) :
    (chunks c scenarios n).flatten = scenarios := by
  unfold chunks
  rw [hprofile, if_neg (by simp), List.flatten_filter_ne_nil]
  exact flatten_slices_eq (chunkSize_covers hn)

theorem workerParts_eq : workerParts c scenarios workflow n = [(c, scenarios)] ∧
      c.workerCount scenarios.length workflow n = 1 ∨
    ∃ chunks : List (List α), 2 ≤ chunks.length ∧ workerParts c scenarios workflow n = parts c chunks ∧
      c.workerCount scenarios.length workflow n = chunks.length ∧
      (c.profile = none → chunks.flatten = scenarios) := by
  unfold workerParts TestConfig.workerCount
  split
  next => exact Or.inl ⟨rfl, rfl⟩
  next hmulti =>
    have hn : 2 ≤ n := by
      by_contra hle
      exact hmulti (by simp [show n ≤ 1 by omega])
    have hlen : c.profile = none → minScenariosForMulti ≤ scenarios.length := by
      intro hprofile
      by_contra hlt
      exact hmulti (by simp [hprofile, show scenarios.length < minScenariosForMulti by omega])
    have hcount : max 1 (chunks c scenarios n).length =
        if c.profile.isSome then max 1 (min (n : Int) c.concurrency).toNat
        else max 1 ((scenarios.length + (scenarios.length + n - 1) / n - 1) /
          ((scenarios.length + n - 1) / n)) := by
      unfold chunks
      split
      next => rw [List.length_replicate]
      next hprofile =>
        have hprofile : c.profile = none := by simpa using hprofile
        have hpos : 0 < (scenarios.length + n - 1) / n := by
          have := hlen hprofile
          unfold minScenariosForMulti at this
          exact Nat.div_pos (by omega) (by omega)
        rw [length_slices_filter hpos (chunkSize_covers (by omega))]
    dsimp only
    rw [← hcount]
    split
    next hone => exact Or.inl ⟨rfl, by omega⟩
    next hmany =>
      exact Or.inr ⟨chunks c scenarios n, by omega, rfl, by omega, chunks_flatten (by omega)⟩

theorem workerConfig_profile {lp : LoadProfileConfig} (hprofile : c.profile = some lp) (k i : ℕ) :
    (c.workerConfig k i).profile = some (lp.workerProfile k i) := by
  unfold TestConfig.profile at hprofile
  split at hprofile
  next hmode =>
    simp [TestConfig.profile, TestConfig.workerConfig, hmode, hprofile]
  next => cases hprofile

theorem workerConfig_profile_none (hprofile : c.profile = none) (k i : ℕ) :
    (c.workerConfig k i).profile = none := by
  simp only [TestConfig.profile] at hprofile
  simp only [TestConfig.workerConfig, TestConfig.profile, hprofile, Option.isSome_none,
    Bool.false_eq_true, if_false]

/-- The spikes of the workers. -/
theorem sum_spikes {lp : LoadProfileConfig} (hn : 0 < n) :
    ((List.range n).map (fun i => (lp.workerProfile n i).spikeConcurrency.getD 0)).sum =
        lp.spikeConcurrency.getD 0 ↔
      lp.spikeConcurrency.getD 0 = 0 ∨ (n : Int) ≤ lp.spikeConcurrency.getD 0 := by
  by_cases hzero : lp.spikeConcurrency.getD 0 = 0
  · have hall : ∀ i ∈ List.range n, (lp.workerProfile n i).spikeConcurrency.getD 0 = 0 := by
      intro i _
      cases hspike : lp.spikeConcurrency with
      | none => simp [LoadProfileConfig.workerProfile, hspike]
      | some spike =>
          rw [hspike, Option.getD_some] at hzero
          simp [LoadProfileConfig.workerProfile, hspike, hzero]
    rw [List.map_congr_left hall, hzero]
    simp
  · obtain ⟨spike, hspike⟩ : ∃ spike, lp.spikeConcurrency = some spike := by
      cases hspike : lp.spikeConcurrency with
      | none => simp [hspike] at hzero
      | some spike => exact ⟨spike, rfl⟩
    rw [hspike, Option.getD_some] at hzero
    have hall : ∀ i ∈ List.range n,
        (lp.workerProfile n i).spikeConcurrency.getD 0 = share spike n i := by
      intro i _
      simp [LoadProfileConfig.workerProfile, hspike, hzero]
    rw [List.map_congr_left hall, hspike, Option.getD_some]
    exact (sum_shares_eq_iff hn).trans (or_iff_right hzero).symm

theorem keepsLoad_profile {lp : LoadProfileConfig} {chunks : List (List α)}
    (hprofile : c.profile = some lp) (h2 : 2 ≤ chunks.length) :
    KeepsLoad c scenarios (parts c chunks) ↔ lp.SplitsSafely chunks.length := by
  have hn : 0 < chunks.length := by omega
  have hsum : ∀ e, ((parts c chunks).map (·.1.inFlightLimit e)).sum =
      lp.workersTarget chunks.length e := by
    intro e
    rw [parts_configs chunks (·.inFlightLimit e), LoadProfileConfig.workersTarget]
    refine congrArg List.sum (List.map_congr_left (fun i _ => ?_))
    rw [TestConfig.inFlightLimit, workerConfig_profile hprofile]
  have hlimit : ∀ e, c.inFlightLimit e = max 0 (getTargetConcurrency lp e) := by
    intro e
    rw [TestConfig.inFlightLimit, hprofile]
  have hprofiles : (parts c chunks).map (·.1.profile) =
      ((List.range chunks.length).map (lp.workerProfile chunks.length)).map some := by
    rw [parts_configs chunks (·.profile), List.map_map]
    exact List.map_congr_left (fun i _ => workerConfig_profile hprofile _ i)
  have hpeak : (shares lp.maxConcurrency chunks.length).sum = lp.maxConcurrency ↔
      (chunks.length : Int) ≤ lp.maxConcurrency := sum_shares_eq_iff hn
  have hspike : _ ↔ lp.spikeConcurrency.getD 0 = 0 ∨ _ := sum_spikes hn
  constructor
  · intro h
    obtain ⟨profiles, hmap, hmax, hspikes⟩ := h.peaks lp hprofile
    have heq : profiles = (List.range chunks.length).map (lp.workerProfile chunks.length) :=
      (List.map_injective_iff.mpr (Option.some_injective _)) (hmap.symm.trans hprofiles)
    rw [heq, List.map_map] at hmax hspikes
    have htarget : ∀ e, 0 ≤ e →
        lp.workersTarget chunks.length e ≤ max 0 (getTargetConcurrency lp e) := by
      intro e he
      rw [← hsum, ← hlimit]
      exact h.inFlight e he
    refine ⟨hpeak.mp hmax, hspike.mp hspikes, fun hramps => ?_, fun hzero hspikes => ?_⟩
    · have hone : ∀ i, getTargetConcurrency (lp.workerProfile chunks.length i) 0 = 1 :=
        fun i => target_start hramps
      have := htarget 0 (le_refl 0)
      rw [workersTarget_const (by omega) hone, target_start hramps] at this
      omega
    · obtain ⟨htype, hwindow⟩ := hspikes
      obtain ⟨hlow, hhigh⟩ := max_lt_iff.mp hwindow
      have hone : ∀ p : LoadProfileConfig, p.durationSec = lp.durationSec → p.type = lp.type →
          p.spikeStart = lp.spikeStart → p.spikeDur = lp.spikeDur → p.spikeConcurrency = some 0 →
            getTargetConcurrency p (max 0 lp.spikeStart * 1000) = 1 := by
        intro p hdur ht hstart hlen hz
        have hdiv : max 0 lp.spikeStart * 1000 / 1000 = max 0 lp.spikeStart := by
          rw [mul_div_assoc, div_self (by norm_num), mul_one]
        rw [target_spike, hz]
        · rfl
        · rw [hdiv, hdur]
          exact hwindow.trans_le (min_le_left _ _)
        · rw [ht, htype]
        · rw [hdiv, hstart, hlen]
          exact ⟨le_max_right _ _, hwindow.trans_le (min_le_right _ _)⟩
      have hworker : ∀ i, getTargetConcurrency (lp.workerProfile chunks.length i)
          (max 0 lp.spikeStart * 1000) = 1 := by
        intro i
        refine hone _ rfl rfl rfl rfl ?_
        simp [LoadProfileConfig.workerProfile, hzero]
      have := htarget (max 0 lp.spikeStart * 1000) (mul_nonneg (le_max_left _ _) (by norm_num))
      rw [workersTarget_const (by omega) hworker, hone lp rfl rfl rfl rfl hzero] at this
      omega
  · intro hs
    refine ⟨?_, ?_, fun lp' hlp => ?_, fun e he => ?_⟩
    · intro hnone
      rw [hprofile] at hnone
      cases hnone
    · intro hnone
      rw [hprofile] at hnone
      cases hnone
    · rw [hprofile, Option.some.injEq] at hlp
      subst hlp
      refine ⟨_, hprofiles, ?_, ?_⟩
      · rw [List.map_map]
        exact hpeak.mpr hs.peak
      · rw [List.map_map]
        exact hspike.mpr hs.spike
    · rw [hsum, hlimit, workersTarget_eq hn hs he]

/-- What a worker without a load profile may have in flight. -/
theorem workerConfig_limit (hprofile : c.profile = none) (k i : ℕ) (e : ℚ) :
    (c.workerConfig k i).inFlightLimit e =
      match c.executionMode with
      | .sequential => 1
      | .workflow => if c.iterations ≤ 1 then 1 else min (share c.concurrency k i) c.iterations
      | _ => share c.concurrency k i := by
  have hone := one_le_share c.concurrency k i
  rw [TestConfig.inFlightLimit, workerConfig_profile_none hprofile]
  show (match c.executionMode with
    | .sequential => (1 : Int)
    | .workflow => if (if c.iterations = 0 then 1 else c.iterations) ≤ 1 ∨ share c.concurrency k i ≤ 1
        then 1 else min (share c.concurrency k i) (if c.iterations = 0 then 1 else c.iterations : ℕ)
    | _ => max 0 (share c.concurrency k i)) = _
  cases c.executionMode with
  | workflow =>
      dsimp only
      split <;> split <;> omega
  | sequential => rfl
  | batch => exact max_eq_right (by omega)
  | pool => exact max_eq_right (by omega)
  | loadProfile => exact max_eq_right (by omega)
  | constantArrival => exact max_eq_right (by omega)

theorem keepsLoad_none {chunks : List (List α)} (hprofile : c.profile = none)
    (hflat : chunks.flatten = scenarios) (h2 : 2 ≤ chunks.length) :
    KeepsLoad c scenarios (parts c chunks) ↔
      (chunks.length : Int) ≤ c.concurrency ∧ c.executionMode ≠ .sequential ∧
        (c.executionMode = .workflow → c.concurrency ≤ c.iterations) := by
  have hn : 0 < chunks.length := by omega
  have h2' : (2 : Int) ≤ chunks.length := by exact_mod_cast h2
  have hconc : ((parts c chunks).map (·.1.concurrency)).sum =
      (shares c.concurrency chunks.length).sum := by
    rw [parts_configs chunks (·.concurrency)]
    rfl
  have hsum : ∀ e, ((parts c chunks).map (·.1.inFlightLimit e)).sum =
      ((List.range chunks.length).map (fun i =>
        (c.workerConfig chunks.length i).inFlightLimit e)).sum := by
    intro e
    rw [parts_configs chunks (·.inFlightLimit e)]
  have hlimit : ∀ e, c.inFlightLimit e =
      match c.executionMode with
      | .sequential => 1
      | .workflow =>
          let iterations := if c.iterations = 0 then 1 else c.iterations
          if iterations ≤ 1 ∨ c.concurrency ≤ 1 then 1 else min c.concurrency iterations
      | _ => max 0 c.concurrency := by
    intro e
    rw [TestConfig.inFlightLimit, hprofile]
  have hle : (shares c.concurrency chunks.length).sum ≤ c.concurrency ↔ _ := sum_shares_le_iff hn
  have hones : ((List.range chunks.length).map (fun _ => (1 : Int))).sum = chunks.length := by simp
  have hcap : ((List.range chunks.length).map
      (fun i => min (share c.concurrency chunks.length i) (c.iterations : Int))).sum =
        ((shares c.concurrency chunks.length).map (fun x => min x (c.iterations : Int))).sum := by
    rw [shares, List.map_map]
    rfl
  constructor
  · intro h
    have hworkers : (chunks.length : Int) ≤ c.concurrency := by
      rw [← hle, ← hconc]
      exact h.concurrency hprofile
    have hflight := h.inFlight 0 (le_refl 0)
    rw [hsum, hlimit] at hflight
    simp only [workerConfig_limit hprofile] at hflight
    refine ⟨hworkers, fun hmode => ?_, fun hmode => ?_⟩
    · rw [hmode] at hflight
      simp only [hones] at hflight
      omega
    · rw [hmode] at hflight
      dsimp only at hflight
      by_contra hlt
      split at hflight
      next hone =>
        rw [hones] at hflight
        split at hflight <;> split at hflight <;> omega
      next hone =>
        have hless : (c.iterations : Int) < (shares c.concurrency chunks.length).sum := by
          rw [sum_shares hn hworkers]
          omega
        have hgt := lt_sum_min (m := (c.iterations : Int)) (l := shares c.concurrency chunks.length)
          (fun x hx => by
            obtain ⟨i, -, rfl⟩ := List.mem_map.mp hx
            exact one_le_share _ _ _) (by rw [length_shares]; exact h2) (by omega) hless
        rw [← hcap] at hgt
        split at hflight <;> split at hflight <;> omega
  · rintro ⟨hworkers, hseq, hwork⟩
    refine ⟨fun _ => ?_, fun _ => ?_, fun lp hlp => ?_, fun e _ => ?_⟩
    · rw [parts_chunks, hflat]
    · rw [hconc]
      exact hle.mpr hworkers
    · rw [hprofile] at hlp
      cases hlp
    · have hall : ((List.range chunks.length).map (share c.concurrency chunks.length)).sum =
          c.concurrency := sum_shares hn hworkers
      rw [hsum, hlimit]
      simp only [workerConfig_limit hprofile]
      cases hmode : c.executionMode with
      | sequential => exact absurd hmode hseq
      | workflow =>
          have hit := hwork hmode
          have hmany : ¬ c.iterations ≤ 1 := by omega
          have hmin : ((List.range chunks.length).map
              (fun i => min (share c.concurrency chunks.length i) (c.iterations : Int))).sum ≤
                ((List.range chunks.length).map (share c.concurrency chunks.length)).sum :=
            List.sum_le_sum (fun i _ => min_le_left _ _)
          simp only [hmany, if_false]
          split <;> split <;> omega
      | batch => exact hall.le.trans (le_max_right _ _)
      | pool => exact hall.le.trans (le_max_right _ _)
      | loadProfile => exact hall.le.trans (le_max_right _ _)
      | constantArrival => exact hall.le.trans (le_max_right _ _)

/-- One worker with the whole test. -/
theorem keepsLoad_single : KeepsLoad c scenarios [(c, scenarios)] := by
  refine ⟨fun _ => ?_, fun _ => ?_, fun lp hlp => ?_, fun e _ => ?_⟩
  · simp
  · simp
  · exact ⟨[lp], by simp [hlp], by simp, by simp⟩
  · simp

end Splits

/-- **The split.**  It keeps the load of the test if and only if there is one worker
only, or the limits of the test suffice for the workers: one each, in a run that
has a request for each of them in flight anyway. -/
theorem workerParts_keepsLoad_iff (c : TestConfig) (scenarios : List α) (workflow : Bool) (n : ℕ) :
    KeepsLoad c scenarios (workerParts c scenarios workflow n) ↔
      c.workerCount scenarios.length workflow n = 1 ∨
        c.SplitsSafely (c.workerCount scenarios.length workflow n) := by
  have hparts : workerParts c scenarios workflow n = _ ∧ _ ∨ _ := workerParts_eq
  rcases hparts with ⟨hparts, hcount⟩ | ⟨chunks, h2, hparts, hcount, hflat⟩
  · rw [hparts, hcount]
    exact iff_of_true keepsLoad_single (Or.inl rfl)
  · rw [hparts, hcount, or_iff_right (by omega)]
    unfold TestConfig.SplitsSafely
    cases hprofile : c.profile with
    | none => exact keepsLoad_none hprofile (hflat hprofile) h2
    | some lp => exact keepsLoad_profile hprofile h2

/-! ### Eight scenarios, one at a time -/

def oneAtATime (mode : ExecutionMode) : TestConfig where
  concurrency := 1
  iterations := 8
  executionMode := mode
  loadProfile := none

/-- Four workers are told to run one request each: four are in flight as soon as the
pools have started. -/
theorem one_at_a_time_runs_four :
    (workerParts (oneAtATime .pool) (List.range 8) false 4).map (·.1.concurrency) = [1, 1, 1, 1] ∧
    ((workerParts (oneAtATime .pool) (List.range 8) false 4).map (fun p =>
      (runPool ⟨p.1.concurrency.toNat, p.2.length, fun _ => false⟩ lenient false).jobs.inFlight)).sum
        = 4 ∧
    ¬ KeepsLoad (oneAtATime .pool) (List.range 8)
      (workerParts (oneAtATime .pool) (List.range 8) false 4) := by
  refine ⟨by decide, by decide, fun h => ?_⟩
  have hsum := h.concurrency rfl
  revert hsum
  decide

end RedFireForge.Engine
