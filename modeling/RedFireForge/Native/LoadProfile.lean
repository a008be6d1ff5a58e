/-
# `RedFireForge.Native.LoadProfile` — a load profile as the native executor reads it

`buildExecutionPlan` writes the profile and the weights into a plan, which is decoded into
unsigned integers.  The pool then has a scenario for each unit of its weight, and the target
is computed again.  What a weight of zero, a missing or a fractional one means is decided
twice, and not alike.
-/
import Mathlib.Algebra.Order.Field.Basic
import RedFireForge.Engine.LoadProfile

namespace RedFireForge.Native

open RedFireForge.Engine (LoadProfileConfig LoadProfileType Scenario)

/-! ## Weights -/

structure ScenarioWeight where
  scenarioId : String
  weight : ℚ
deriving DecidableEq, Repr

/-- How often the loop `for (let i = 0; i < weight; i++)` runs. -/
def copies (weight : ℚ) : ℕ := weight.ceil.toNat

/-- The scenarios that `buildWeightedIterator` goes round, before it shuffles them. -/
def iteratorPool (scenarios : List Scenario) (weights : List ScenarioWeight) : List Scenario :=
  let active := weights.filter (fun w => decide (0 < w.weight))
  let pool := active.flatMap fun sw =>
    ((scenarios.find? (fun s => s.id == sw.scenarioId)).map (List.replicate (copies sw.weight))).getD []
  if pool = [] then scenarios.take 1 else pool

/-- `s.weight.unwrap_or(1.0).max(0.0) as usize`, and one if that is zero. -/
def poolCount (weight : Option ℚ) : ℕ :=
  let w := (max (weight.getD 1) 0).floor.toNat
  if w = 0 then 1 else w

/-- The places of the scenarios in the pool, before it is shuffled. -/
def buildWeightedPool (weights : List (Option ℚ)) : List ℕ :=
  let pool := weights.zipIdx.flatMap fun (weight, i) => List.replicate (poolCount weight) i
  if pool = [] ∧ weights ≠ [] then [0] else pool

/-! ## The plan -/

def profileText : LoadProfileType → String
  | .sustained => "sustained"
  | .rampUp => "ramp-up"
  | .spike => "spike"

/-- Of a plan of mode `load-profile`, what concerns the profile, with its numbers of a type. -/
structure LoadPlan (ν : Type) where
  weights : List (Option ℚ)
  concurrency : ν
  durationSec : ν
  profileType : String
  rampUpSec : Option ν
  spikeConcurrency : Option ν
  spikeStartSec : Option ν
  spikeDurationSec : Option ν
deriving DecidableEq, Repr

/-- `weightMap.get(id) ?? null`: of the weights of one scenario, the last. -/
def weightOf (weights : List ScenarioWeight) (id : String) : Option ℚ :=
  ((weights.filter (·.scenarioId == id)).getLast?).map ScenarioWeight.weight

def buildExecutionPlan (profile : LoadProfileConfig) (scenarios : List Scenario)
    (weights : List ScenarioWeight) : LoadPlan ℚ where
  weights := scenarios.map fun s => weightOf weights s.id
  concurrency := profile.maxConcurrency
  durationSec := profile.durationSec
  profileType := profileText profile.type
  rampUpSec := profile.rampUpSec
  spikeConcurrency := profile.spikeConcurrency.map Int.cast
  spikeStartSec := profile.spikeStartSec
  spikeDurationSec := profile.spikeDurationSec

/-- A number read as an unsigned integer of so many bits. -/
def asUnsigned (bits : ℕ) (q : ℚ) : Option ℕ :=
  if q.den = 1 ∧ 0 ≤ q.num ∧ q.num < 2 ^ bits then some q.num.toNat else none

def asOption (bits : ℕ) : Option ℚ → Option (Option ℕ)
  | none => some none
  | some q => (asUnsigned bits q).map some

/-- The plan as `start_load_test` gets it; the command fails where a number is not of its type. -/
def decodePlan (plan : LoadPlan ℚ) : Option (LoadPlan ℕ) := do
  let concurrency ← asUnsigned 32 plan.concurrency
  let durationSec ← asUnsigned 64 plan.durationSec
  let rampUpSec ← asOption 64 plan.rampUpSec
  let spikeConcurrency ← asOption 32 plan.spikeConcurrency
  let spikeStartSec ← asOption 64 plan.spikeStartSec
  let spikeDurationSec ← asOption 64 plan.spikeDurationSec
  some ⟨plan.weights, concurrency, durationSec, plan.profileType, rampUpSec, spikeConcurrency,
    spikeStartSec, spikeDurationSec⟩

/-! ## The target -/

/-- `as u32`, which cuts off at the greatest value. -/
def asU32 (q : ℚ) : ℕ := min q.floor.toNat (2 ^ 32 - 1)

def getTargetConcurrency (plan : LoadPlan ℕ) (elapsedSec : ℚ) : ℕ :=
  let maxC := max plan.concurrency 1
  match plan.profileType with
  | "ramp-up" =>
      let ramp : ℚ := match plan.rampUpSec with
        | some r => if 0 < r then r else plan.durationSec
        | none => plan.durationSec
      if ramp ≤ 0 ∨ elapsedSec ≥ ramp then maxC
      else
        let t := elapsedSec / ramp
        let m : ℚ := maxC
        asU32 (max (Rat.ceil (1 + (m - 1) * t)) 1)
  | "spike" =>
      let dur : ℚ := plan.durationSec
      let start : ℚ := (plan.spikeStartSec.getD (dur * (3 / 10)).floor.toNat : ℕ)
      let length : ℚ := (plan.spikeDurationSec.getD (dur * (1 / 5)).ceil.toNat : ℕ)
      let spikeC := plan.spikeConcurrency.getD (plan.concurrency * 3 % 2 ^ 32)
      if elapsedSec ≥ start ∧ elapsedSec < start + length then max spikeC 1 else maxC
  | _ => maxC

/-! ## One load -/

/-- The native run and that of the runner have the same pool, up to the order, and the same
target at every time before the end. -/
structure SameLoad (profile : LoadProfileConfig) (scenarios : List Scenario)
    (weights : List ScenarioWeight) (plan : LoadPlan ℕ) : Prop where
  pool : ∀ (i : ℕ) (s : Scenario), scenarios[i]? = some s →
    (buildWeightedPool plan.weights).count i = (iteratorPool scenarios weights).count s
  target : ∀ elapsedMs, 0 ≤ elapsedMs → elapsedMs / 1000 < profile.durationSec →
    (getTargetConcurrency plan (elapsedMs / 1000) : Int) =
      Engine.getTargetConcurrency profile elapsedMs

/-- One of the weights of a scenario is positive, and it is whole or below one; and at most one
where the last weight is zero. -/
def WellWeighted (weights : List ℚ) : Prop :=
  ∃ w, weights.filter (fun w => decide (0 < w)) = [w] ∧ (w.den = 1 ∨ w < 1) ∧
    (weights.getLast? = some 0 → w ≤ 1)

/-- The numbers of the profile are unsigned integers of their sizes. -/
structure Unsigned (profile : LoadProfileConfig) : Prop where
  durationSec : (asUnsigned 64 profile.durationSec).isSome = true
  rampUpSec : ∀ q ∈ profile.rampUpSec, (asUnsigned 64 q).isSome = true
  spikeConcurrency : ∀ c ∈ profile.spikeConcurrency, (asUnsigned 32 c).isSome = true
  spikeStartSec : ∀ q ∈ profile.spikeStartSec, (asUnsigned 64 q).isSome = true
  spikeDurationSec : ∀ q ∈ profile.spikeDurationSec, (asUnsigned 64 q).isSome = true

/-! ## Decoding -/

section Decoding

variable {profile : LoadProfileConfig} {scenarios : List Scenario} {weights : List ScenarioWeight}
  {plan : LoadPlan ℕ} {bits n : ℕ} {q : ℚ}

theorem asUnsigned_eq_some : asUnsigned bits q = some n ↔ q = n ∧ n < 2 ^ bits := by
  unfold asUnsigned
  split
  next h =>
    obtain ⟨hden, hnum, hlt⟩ := h
    have hq : q = (q.num : ℚ) := (Rat.den_eq_one_iff q).mp hden |>.symm
    rw [Option.some.injEq]
    constructor
    · rintro rfl
      refine ⟨?_, ?_⟩
      · conv_lhs => rw [hq]
        exact_mod_cast (Int.toNat_of_nonneg hnum).symm
      · have hlt : (q.num.toNat : ℤ) < (2 ^ bits : ℕ) := by
          rw [Int.toNat_of_nonneg hnum]
          exact_mod_cast hlt
        exact_mod_cast hlt
    · rintro ⟨hn, -⟩
      rw [hn, Rat.num_natCast, Int.toNat_natCast]
  next h =>
    refine iff_of_false nofun ?_
    rintro ⟨rfl, hn⟩
    refine h ⟨Rat.den_natCast n, ?_, ?_⟩
    · rw [Rat.num_natCast]
      exact Int.natCast_nonneg n
    · rw [Rat.num_natCast]
      exact_mod_cast hn

theorem asUnsigned_isSome : (asUnsigned bits q).isSome = true ↔ ∃ n, asUnsigned bits q = some n :=
  Option.isSome_iff_exists

theorem asOption_eq_some {o : Option ℚ} {r : Option ℕ} :
    asOption bits o = some r → r.map Nat.cast = o := by
  intro h
  cases o with
  | none =>
      cases h
      rfl
  | some q =>
      obtain ⟨n, hn, rfl⟩ := Option.map_eq_some_iff.mp h
      rw [Option.map_some, (asUnsigned_eq_some.mp hn).1]

theorem asOption_exists {o : Option ℚ} :
    (∃ r, asOption bits o = some r) ↔ ∀ q ∈ o, (asUnsigned bits q).isSome = true := by
  cases o with
  | none => simp [asOption]
  | some q => simp [asOption, Option.isSome_iff_exists]

/-- What the native side reads is what was written. -/
structure Decoded (profile : LoadProfileConfig) (plan : LoadPlan ℕ) : Prop where
  concurrency : (plan.concurrency : ℚ) = profile.maxConcurrency
  durationSec : (plan.durationSec : ℚ) = profile.durationSec
  profileType : plan.profileType = profileText profile.type
  rampUpSec : plan.rampUpSec.map Nat.cast = profile.rampUpSec
  spikeConcurrency : plan.spikeConcurrency.map Nat.cast = profile.spikeConcurrency
  spikeStartSec : plan.spikeStartSec.map Nat.cast = profile.spikeStartSec
  spikeDurationSec : plan.spikeDurationSec.map Nat.cast = profile.spikeDurationSec

theorem decodePlan_eq_some (h : decodePlan (buildExecutionPlan profile scenarios weights) = some plan) :
    plan.weights = scenarios.map (fun s => weightOf weights s.id) ∧ Decoded profile plan := by
  simp only [decodePlan, Option.bind_eq_bind, Option.bind_eq_some_iff] at h
  obtain ⟨c, hc, d, hd, ramp, hramp, spike, hspike, start, hstart, length, hlength, h⟩ := h
  cases h
  have hpeak : (spike.map Nat.cast).map Int.cast = profile.spikeConcurrency.map (fun c : ℤ => (c : ℚ)) := by
    rw [Option.map_map]
    exact asOption_eq_some hspike
  exact ⟨rfl, (asUnsigned_eq_some.mp hc).1.symm, (asUnsigned_eq_some.mp hd).1.symm, rfl,
    asOption_eq_some hramp, Option.map_injective Int.cast_injective hpeak, asOption_eq_some hstart,
    asOption_eq_some hlength⟩

/-- The plan is read exactly if its numbers are of their types. -/
theorem decodePlan_exists (scenarios : List Scenario) (weights : List ScenarioWeight)
    (hone : 1 ≤ profile.maxConcurrency) (hmax : 3 * profile.maxConcurrency < 2 ^ 32) :
    (∃ plan, decodePlan (buildExecutionPlan profile scenarios weights) = some plan) ↔ Unsigned profile := by
  have hc : asUnsigned 32 (profile.maxConcurrency : ℚ) = some profile.maxConcurrency.toNat := by
    rw [asUnsigned_eq_some]
    refine ⟨?_, by omega⟩
    exact_mod_cast (Int.toNat_of_nonneg (by omega : 0 ≤ profile.maxConcurrency)).symm
  constructor
  · rintro ⟨plan, h⟩
    simp only [decodePlan, Option.bind_eq_bind, Option.bind_eq_some_iff] at h
    obtain ⟨c, hc, d, hd, ramp, hramp, spike, hspike, start, hstart, length, hlength, h⟩ := h
    refine ⟨asUnsigned_isSome.mpr ⟨d, hd⟩, asOption_exists.mp ⟨ramp, hramp⟩, fun c hc => ?_,
      asOption_exists.mp ⟨start, hstart⟩, asOption_exists.mp ⟨length, hlength⟩⟩
    exact asOption_exists.mp ⟨spike, hspike⟩ c (Option.mem_map_of_mem _ hc)
  · intro h
    obtain ⟨d, hd⟩ := asUnsigned_isSome.mp h.durationSec
    obtain ⟨ramp, hramp⟩ := asOption_exists.mpr h.rampUpSec
    obtain ⟨start, hstart⟩ := asOption_exists.mpr h.spikeStartSec
    obtain ⟨length, hlength⟩ := asOption_exists.mpr h.spikeDurationSec
    obtain ⟨spike, hspike⟩ : ∃ r, asOption 32 (profile.spikeConcurrency.map Int.cast) = some r := by
      refine asOption_exists.mpr fun q hq => ?_
      obtain ⟨c, hc, rfl⟩ := Option.mem_map.mp hq
      exact h.spikeConcurrency c hc
    refine ⟨⟨scenarios.map fun s => weightOf weights s.id, profile.maxConcurrency.toNat, d,
      profileText profile.type, ramp, spike, start, length⟩, ?_⟩
    simp only [decodePlan, buildExecutionPlan, hc, hd, hramp, hspike, hstart, hlength,
      Option.bind_eq_bind, Option.bind_some]

end Decoding

/-! ## The same target -/

section Target

variable {profile : LoadProfileConfig} {plan : LoadPlan ℕ} {elapsedMs : ℚ}

theorem asU32_intCast {z : ℤ} (h0 : 0 ≤ z) (h : z < 2 ^ 32) : (asU32 z : ℤ) = z := by
  unfold asU32
  rw [Rat.floor_intCast]
  omega

/-- `rampUpSec` of zero and a missing one are the duration. -/
theorem Decoded.rampSec (h : Decoded profile plan) : profile.rampSec =
    (match plan.rampUpSec with
      | some r => if 0 < r then (r : ℚ) else plan.durationSec
      | none => plan.durationSec) := by
  rw [LoadProfileConfig.rampSec, ← h.rampUpSec, ← h.durationSec]
  cases plan.rampUpSec with
  | none => rfl
  | some r =>
      cases r with
      | zero => rfl
      | succ r =>
          have hne : ((r + 1 : ℕ) : ℚ) ≠ 0 := by exact_mod_cast Nat.succ_ne_zero r
          simp only [Option.map_some, Option.filter_some, hne, ne_eq, not_false_eq_true, decide_true,
            if_true, Option.getD_some, Nat.succ_pos]

/-- A time of the profile, or the rounded share of its duration that stands for it. -/
theorem getD_cast {o : Option ℕ} {o' : Option ℚ} (h : o.map Nat.cast = o') {z : ℤ} (hz : 0 ≤ z) :
    ((o.getD z.toNat : ℕ) : ℚ) = o'.getD z := by
  subst h
  cases o with
  | none =>
      show ((z.toNat : ℕ) : ℚ) = z
      exact_mod_cast Int.toNat_of_nonneg hz
  | some n => rfl

theorem getTargetConcurrency_same (h : Decoded profile plan) (hone : 1 ≤ profile.maxConcurrency)
    (hmax : 3 * profile.maxConcurrency < 2 ^ 32)
    (hgoing : elapsedMs / 1000 < profile.durationSec) :
    (getTargetConcurrency plan (elapsedMs / 1000) : ℤ) = Engine.getTargetConcurrency profile elapsedMs := by
  have hc : (plan.concurrency : ℤ) = profile.maxConcurrency := by exact_mod_cast h.concurrency
  have hmaxC : ((max plan.concurrency 1 : ℕ) : ℤ) = profile.maxConcurrency := by omega
  have hmaxQ : ((max plan.concurrency 1 : ℕ) : ℚ) = profile.maxConcurrency := by exact_mod_cast hmaxC
  have hdur : (0 : ℚ) ≤ profile.durationSec := by
    rw [← h.durationSec]
    exact_mod_cast Nat.zero_le _
  unfold getTargetConcurrency Engine.getTargetConcurrency
  dsimp only
  rw [if_neg (not_le.mpr hgoing), h.profileType]
  cases htype : profile.type with
  | sustained => exact hmaxC
  | rampUp =>
      simp only [profileText]
      rw [← h.rampSec]
      split
      next => exact hmaxC
      next hramp =>
        rw [not_or, not_le, ge_iff_le, not_le] at hramp
        obtain ⟨hpos, hlt⟩ := hramp
        have ht : elapsedMs / 1000 / profile.rampSec ≤ 1 := (div_le_one hpos).mpr hlt.le
        have hm : (0 : ℚ) ≤ profile.maxConcurrency - 1 := by
          have : (1 : ℚ) ≤ profile.maxConcurrency := by exact_mod_cast hone
          linarith
        have hceil : Rat.ceil (1 + ((profile.maxConcurrency : ℚ) - 1) *
            (elapsedMs / 1000 / profile.rampSec)) ≤ profile.maxConcurrency := by
          rw [Rat.ceil_le_iff]
          have := mul_le_mul_of_nonneg_left ht hm
          linarith
        have hcast : (max (Rat.ceil (1 + ((profile.maxConcurrency : ℚ) - 1) *
            (elapsedMs / 1000 / profile.rampSec)) : ℚ) 1) =
            ((max 1 (Rat.ceil (1 + ((profile.maxConcurrency : ℚ) - 1) *
              (elapsedMs / 1000 / profile.rampSec))) : ℤ) : ℚ) := by
          rw [max_comm]
          push_cast
          rfl
        rw [hmaxQ, hcast]
        exact asU32_intCast (by omega) (by omega)
  | spike =>
      have hfloor : (0 : ℤ) ≤ (profile.durationSec * (3 / 10)).floor := by
        rw [Rat.le_floor_iff]
        push_cast
        positivity
      have hceil : (0 : ℤ) ≤ (profile.durationSec * (1 / 5)).ceil := by
        have : (0 : ℚ) ≤ profile.durationSec * (1 / 5) := by positivity
        exact_mod_cast this.trans Rat.le_ceil
      have hstart : ((plan.spikeStartSec.getD (profile.durationSec * (3 / 10)).floor.toNat : ℕ) : ℚ) =
          profile.spikeStart := getD_cast h.spikeStartSec hfloor
      have hlength : ((plan.spikeDurationSec.getD (profile.durationSec * (1 / 5)).ceil.toNat : ℕ) : ℚ) =
          profile.spikeDur := getD_cast h.spikeDurationSec hceil
      have hpeak : ((max (plan.spikeConcurrency.getD (plan.concurrency * 3 % 2 ^ 32)) 1 : ℕ) : ℤ) =
          max 1 (profile.spikeConcurrency.getD (profile.maxConcurrency * 3)) := by
        have hpeaks := h.spikeConcurrency
        cases hp : plan.spikeConcurrency with
        | none =>
            rw [hp] at hpeaks
            rw [← hpeaks, Option.map_none, Option.getD_none, Option.getD_none,
              Nat.mod_eq_of_lt (by omega)]
            omega
        | some n =>
            rw [hp] at hpeaks
            rw [← hpeaks, Option.map_some, Option.getD_some, Option.getD_some]
            omega
      simp only [profileText]
      rw [h.durationSec, hstart, hlength]
      split
      next => exact hpeak
      next => rw [hmaxC, max_eq_right hone]

end Target

/-! ## The same pool -/

section Pool

variable {scenarios : List Scenario} {weights : List ScenarioWeight} {ws : List ℚ} {w : ℚ}

theorem copies_pos (h : 0 < w) : 1 ≤ copies w := by
  have hceil : 0 < w.ceil := by
    rw [Rat.lt_ceil_iff]
    exact_mod_cast h
  rw [copies]
  omega

/-- A positive weight makes as many copies as the pool has, or more. -/
theorem poolCount_le (h : 0 < w) : poolCount (some w) ≤ copies w := by
  have hpos := copies_pos h
  have hle : w.floor ≤ w.ceil := by
    have := (Rat.floor_le w).trans Rat.le_ceil
    exact_mod_cast this
  rw [copies] at hpos ⊢
  simp only [poolCount, Option.getD_some, max_eq_left h.le]
  split
  next => exact hpos
  next => omega

/-- As many exactly if it is whole or below one. -/
theorem copies_eq_iff (h : 0 < w) : copies w = poolCount (some w) ↔ w.den = 1 ∨ w < 1 := by
  have hpos := copies_pos h
  rw [copies] at hpos
  have hfloor : 0 ≤ w.floor := by
    rw [Rat.le_floor_iff]
    exact_mod_cast h.le
  simp only [copies, poolCount, Option.getD_some, max_eq_left h.le]
  constructor
  · intro heq
    split at heq
    next hzero =>
      have hone : w.ceil = 1 := by omega
      have hlt : w.floor < 1 := by omega
      rw [Rat.floor_lt_iff] at hlt
      exact Or.inr (by exact_mod_cast hlt)
    next =>
      have hsame : w.ceil = w.floor := by omega
      have heq : w = (w.floor : ℚ) :=
        le_antisymm (by rw [← hsame]; exact Rat.le_ceil) (Rat.floor_le w)
      exact Or.inl (by rw [heq]; exact Rat.den_intCast _)
  · rintro (hden | hlt)
    · obtain ⟨z, rfl⟩ : ∃ z : ℤ, w = z := ⟨w.num, ((Rat.den_eq_one_iff w).mp hden).symm⟩
      rw [Rat.ceil_intCast] at hpos ⊢
      rw [Rat.floor_intCast, if_neg (by omega)]
    · have hceil : w.ceil ≤ 1 := by
        rw [Rat.ceil_le_iff]
        exact_mod_cast hlt.le
      have hzero : w.floor < 1 := by
        rw [Rat.floor_lt_iff]
        exact_mod_cast hlt
      rw [if_pos (by omega)]
      omega

theorem sum_copies_pos (h : ∀ w ∈ ws, 0 < w) : ws.length ≤ (ws.map copies).sum := by
  induction ws with
  | nil => exact Nat.zero_le _
  | cons w ws ih =>
      rw [List.forall_mem_cons] at h
      have := ih h.2
      have := copies_pos h.1
      rw [List.map_cons, List.sum_cons, List.length_cons]
      omega

/-- The positive weights of a scenario make as many copies as its last weight makes places
exactly if it is well weighted. -/
theorem wellWeighted_iff (h0 : ∀ w ∈ ws, 0 ≤ w) :
    poolCount ws.getLast? = ((ws.filter (fun w => decide (0 < w))).map copies).sum ↔ WellWeighted ws := by
  rcases List.eq_nil_or_concat ws with rfl | ⟨front, last, hws⟩
  · refine iff_of_false (by decide) ?_
    rintro ⟨w, hw, -⟩
    cases hw
  rw [List.concat_eq_append] at hws
  subst hws
  have hpos : ∀ w ∈ front.filter (fun w => decide (0 < w)), 0 < w := fun w hw =>
    of_decide_eq_true (List.mem_filter.mp hw).2
  have hsum := sum_copies_pos hpos
  rw [WellWeighted, List.getLast?_concat, List.filter_append, List.map_append, List.sum_append]
  rcases (h0 last (List.mem_append_right _ (List.mem_singleton_self last))).eq_or_lt with hzero | hlast
  · -- the last weight is zero: one place, so one copy
    subst hzero
    have hone : poolCount (some 0) = 1 := by decide
    rw [hone]
    simp only [lt_self_iff_false, decide_false, List.filter_singleton, cond_false,
      List.map_nil, List.sum_nil, List.append_nil, add_zero, true_implies]
    constructor
    · intro heq
      have hsome : (front.filter (fun w => decide (0 < w))).length ≠ 0 := by
        intro hnil
        rw [List.length_eq_zero_iff.mp hnil] at heq
        cases heq
      have hlength : (front.filter (fun w => decide (0 < w))).length = 1 := by omega
      obtain ⟨w, hw⟩ := List.length_eq_one_iff.mp hlength
      rw [hw, List.map_singleton, List.sum_singleton] at heq
      have hw0 : 0 < w := hpos w (by rw [hw]; exact List.mem_singleton_self w)
      have hle : w ≤ 1 := by
        have hceil : w.ceil ≤ 1 := by
          rw [copies] at heq
          omega
        rw [Rat.ceil_le_iff] at hceil
        exact_mod_cast hceil
      refine ⟨w, hw, ?_, hle⟩
      rcases hle.eq_or_lt with rfl | hlt
      · exact Or.inl rfl
      · exact Or.inr hlt
    · rintro ⟨w, hw, -, hle⟩
      have hw0 : 0 < w := hpos w (by rw [hw]; exact List.mem_singleton_self w)
      have hceil : w.ceil ≤ 1 := by
        rw [Rat.ceil_le_iff]
        exact_mod_cast hle
      have hcopies := copies_pos hw0
      rw [hw, List.map_singleton, List.sum_singleton]
      rw [copies] at hcopies ⊢
      omega
  · -- the last weight makes the copies of its places alone
    have hle := poolCount_le hlast
    have hplaces := copies_pos hlast
    simp only [hlast, decide_true, List.filter_singleton, cond_true, List.map_singleton, List.sum_singleton,
      Option.some.injEq, hlast.ne', false_implies, and_true]
    constructor
    · intro heq
      have hnil : front.filter (fun w => decide (0 < w)) = [] :=
        List.length_eq_zero_iff.mp (by omega)
      rw [hnil] at heq ⊢
      exact ⟨last, rfl, (copies_eq_iff hlast).mp (by simpa using heq.symm)⟩
    · rintro ⟨w, hw, hwhole⟩
      have hnil : front.filter (fun w => decide (0 < w)) = [] := by
        cases hfront : front.filter (fun w => decide (0 < w)) with
        | nil => rfl
        | cons x xs => rw [hfront] at hw; simp at hw
      rw [hnil, List.nil_append, List.cons.injEq] at hw
      rw [hnil, ← (copies_eq_iff hlast).mpr (hw.1 ▸ hwhole)]
      simp

/-- The weights that are given for a scenario. -/
def weightsOf (weights : List ScenarioWeight) (id : String) : List ℚ :=
  (weights.filter (·.scenarioId == id)).map ScenarioWeight.weight

theorem weightOf_eq (id : String) : weightOf weights id = (weightsOf weights id).getLast? := by
  rw [weightOf, weightsOf, List.getLast?_map]

/-- How often a scenario stands in the pool of the native executor. -/
theorem count_buildWeightedPool (l : List (Option ℚ)) (i : ℕ) :
    (buildWeightedPool l).count i = (l[i]?.map poolCount).getD 0 := by
  have hcount : ∀ (l : List (Option ℚ)) (k i : ℕ), ((l.zipIdx k).flatMap fun (weight, i) =>
      List.replicate (poolCount weight) i).count i =
        if k ≤ i then (l[i - k]?.map poolCount).getD 0 else 0 := by
    intro l
    induction l with
    | nil =>
        intro k i
        simp
    | cons weight l ih =>
        intro k i
        rw [List.zipIdx_cons, List.flatMap_cons, List.count_append, ih, List.count_replicate]
        rcases Nat.lt_trichotomy i k with hlt | rfl | hgt
        · simp [hlt.ne', Nat.not_le.mpr hlt, Nat.not_le.mpr (Nat.lt_succ_of_lt hlt)]
        · simp
        · obtain ⟨d, rfl⟩ := Nat.exists_eq_add_of_lt hgt
          have hd : k + d + 1 - k = d + 1 := by omega
          have hd' : k + d + 1 - (k + 1) = d := by omega
          have hle : k + 1 ≤ k + d + 1 := by omega
          have hle' : k ≤ k + d + 1 := by omega
          have hne : k ≠ k + d + 1 := by omega
          rw [if_pos hle, if_pos hle', hd, hd', List.getElem?_cons_succ]
          simp [hne]
  unfold buildWeightedPool
  dsimp only
  split
  next h =>
    -- every scenario has a place, so the pool is empty only if there is none
    obtain ⟨weight, l', rfl⟩ := List.exists_cons_of_ne_nil h.2
    have hplaces : 0 < poolCount weight := by
      simp only [poolCount]
      split <;> omega
    have hzero := hcount (weight :: l') 0 0
    rw [h.1] at hzero
    simp at hzero
    omega
  next =>
    rw [hcount l 0]
    simp

/-- The scenario of an identifier, where no two have the same. -/
theorem find?_of_mem (hids : (scenarios.map Scenario.id).Nodup) {s : Scenario} (hs : s ∈ scenarios)
    {id : String} {r : Scenario} (hr : scenarios.find? (fun x => x.id == id) = some r) :
    r = s ↔ id = s.id := by
  have hrid : r.id = id := by simpa using List.find?_some hr
  constructor
  · rintro rfl
    exact hrid.symm
  · rintro rfl
    exact List.inj_on_of_nodup_map hids (List.mem_of_find?_eq_some hr) hs hrid

theorem count_copies (hids : (scenarios.map Scenario.id).Nodup) {s : Scenario} (hs : s ∈ scenarios)
    (sw : ScenarioWeight) :
    (((scenarios.find? (fun x => x.id == sw.scenarioId)).map
      (List.replicate (copies sw.weight))).getD []).count s =
        if sw.scenarioId = s.id then copies sw.weight else 0 := by
  cases hfind : scenarios.find? (fun x => x.id == sw.scenarioId) with
  | none =>
      have hne : sw.scenarioId ≠ s.id := by
        intro heq
        have := List.find?_eq_none.mp hfind s hs
        rw [heq, beq_self_eq_true] at this
        exact this rfl
      rw [if_neg hne]
      rfl
  | some r =>
      simp only [Option.map_some, Option.getD_some, List.count_replicate, beq_iff_eq,
        find?_of_mem hids hs hfind]

/-- How often a scenario stands in the pool of the runner. -/
theorem count_iteratorPool (hids : (scenarios.map Scenario.id).Nodup) {s : Scenario}
    (hs : s ∈ scenarios)
    (hsome : ∃ sw ∈ weights, 0 < sw.weight ∧ sw.scenarioId ∈ scenarios.map Scenario.id) :
    (iteratorPool scenarios weights).count s =
      (((weightsOf weights s.id).filter (fun w => decide (0 < w))).map copies).sum := by
  have hne : (weights.filter (fun w => decide (0 < w.weight))).flatMap (fun sw =>
      ((scenarios.find? (fun s => s.id == sw.scenarioId)).map
        (List.replicate (copies sw.weight))).getD []) ≠ [] := by
    obtain ⟨sw, hsw, hpos, hlisted⟩ := hsome
    obtain ⟨r, hr, hrid⟩ := List.mem_map.mp hlisted
    intro hnil
    have hcopies := count_copies hids hr sw
    rw [List.flatMap_eq_nil_iff.mp hnil sw (List.mem_filter.mpr ⟨hsw, decide_eq_true hpos⟩),
      if_pos hrid.symm] at hcopies
    have := copies_pos hpos
    rw [List.count_nil] at hcopies
    omega
  rw [iteratorPool, if_neg hne, List.count_flatMap]
  clear hne hsome
  induction weights with
  | nil => rfl
  | cons sw weights ih =>
      rw [weightsOf, List.filter_cons, List.filter_cons] at *
      have hone := count_copies hids hs sw
      by_cases hpos : 0 < sw.weight <;> by_cases hid : sw.scenarioId = s.id
      · rw [if_pos (decide_eq_true hpos), if_pos (beq_iff_eq.mpr hid), List.map_cons, List.sum_cons,
          ih, Function.comp_apply, hone, if_pos hid, List.map_cons,
          List.filter_cons_of_pos (by exact decide_eq_true hpos), List.map_cons, List.sum_cons]
      · rw [if_pos (decide_eq_true hpos), if_neg (by simpa using hid), List.map_cons, List.sum_cons,
          ih, Function.comp_apply, hone, if_neg hid, zero_add]
      · rw [if_neg (by simpa using hpos), if_pos (beq_iff_eq.mpr hid), ih, List.map_cons,
          List.filter_cons_of_neg (by simpa using hpos)]
      · rw [if_neg (by simpa using hpos), if_neg (by simpa using hid), ih]

end Pool

/-! ## What a profile means -/

/-- **A load profile means the same natively exactly if** its numbers are unsigned integers and
each scenario is well weighted. -/
theorem same_load_iff (profile : LoadProfileConfig) (scenarios : List Scenario)
    (weights : List ScenarioWeight) (hids : (scenarios.map Scenario.id).Nodup)
    (hnonneg : ∀ sw ∈ weights, 0 ≤ sw.weight)
    (hsome : ∃ sw ∈ weights, 0 < sw.weight ∧ sw.scenarioId ∈ scenarios.map Scenario.id)
    (hone : 1 ≤ profile.maxConcurrency) (hmax : 3 * profile.maxConcurrency < 2 ^ 32) :
    (∃ plan, decodePlan (buildExecutionPlan profile scenarios weights) = some plan ∧
        SameLoad profile scenarios weights plan) ↔
      Unsigned profile ∧ ∀ s ∈ scenarios, WellWeighted (weightsOf weights s.id) := by
  have hpool : ∀ {plan : LoadPlan ℕ}, plan.weights = scenarios.map (fun s => weightOf weights s.id) →
      ∀ (i : ℕ) (s : Scenario), scenarios[i]? = some s →
        ((buildWeightedPool plan.weights).count i = (iteratorPool scenarios weights).count s ↔
          WellWeighted (weightsOf weights s.id)) := by
    intro plan hweights i s hi
    have hnonneg' : ∀ w ∈ weightsOf weights s.id, 0 ≤ w := by
      intro w hw
      obtain ⟨sw, hsw, rfl⟩ := List.mem_map.mp hw
      exact hnonneg sw (List.mem_filter.mp hsw).1
    rw [count_buildWeightedPool, count_iteratorPool hids (List.mem_of_getElem? hi) hsome, hweights,
      List.getElem?_map, hi, Option.map_some, Option.map_some, Option.getD_some, weightOf_eq]
    exact wellWeighted_iff hnonneg'
  rw [← decodePlan_exists scenarios weights hone hmax]
  constructor
  · rintro ⟨plan, hplan, hsame⟩
    refine ⟨⟨plan, hplan⟩, fun s hs => ?_⟩
    obtain ⟨i, hi⟩ := List.mem_iff_getElem?.mp hs
    exact (hpool (decodePlan_eq_some hplan).1 i s hi).mp (hsame.pool i s hi)
  · rintro ⟨⟨plan, hplan⟩, hwell⟩
    obtain ⟨hweights, hdecoded⟩ := decodePlan_eq_some hplan
    exact ⟨plan, hplan, fun i s hi => (hpool hweights i s hi).mpr (hwell s (List.mem_of_getElem? hi)),
      fun _ _ hgoing => getTargetConcurrency_same hdecoded hone hmax hgoing⟩

def steady : LoadProfileConfig := { type := .sustained, durationSec := 60, maxConcurrency := 5 }

def twoScenarios : List Scenario := [⟨"gold", none⟩, ⟨"silver", none⟩]

theorem same_load_iff_steady :
    ∃ plan, decodePlan (buildExecutionPlan steady twoScenarios [⟨"gold", 3⟩, ⟨"silver", 1⟩]) = some plan ∧
      SameLoad steady twoScenarios [⟨"gold", 3⟩, ⟨"silver", 1⟩] plan := by
  refine (same_load_iff steady twoScenarios [⟨"gold", 3⟩, ⟨"silver", 1⟩] (by decide) ?_ ?_ (by decide)
    (by decide)).mpr ⟨⟨by decide, nofun, nofun, nofun, nofun⟩, ?_⟩
  · intro sw hsw
    rcases List.mem_pair.mp hsw with rfl | rfl <;> norm_num
  · exact ⟨⟨"gold", 3⟩, by simp, by norm_num, by decide⟩
  · intro s hs
    rcases List.mem_pair.mp hs with rfl | rfl
    · exact ⟨3, by decide +kernel, Or.inl rfl, nofun⟩
    · exact ⟨1, by decide +kernel, Or.inl rfl, fun _ => le_rfl⟩

/-- A scenario of weight zero is run natively, and one of weight three halves once, not twice. -/
theorem zero_weight_runs :
    ∃ plan, decodePlan (buildExecutionPlan steady twoScenarios [⟨"gold", 3 / 2⟩, ⟨"silver", 0⟩]) = some plan ∧
      buildWeightedPool plan.weights = [0, 1] ∧
      iteratorPool twoScenarios [⟨"gold", 3 / 2⟩, ⟨"silver", 0⟩] = [⟨"gold", none⟩, ⟨"gold", none⟩] ∧
      ¬ SameLoad steady twoScenarios [⟨"gold", 3 / 2⟩, ⟨"silver", 0⟩] plan := by
  refine ⟨⟨[some (3 / 2), some 0], 5, 60, "sustained", none, none, none, none⟩, by decide +kernel,
    by decide +kernel, by decide +kernel, fun h => ?_⟩
  exact absurd (h.pool 1 ⟨"silver", none⟩ rfl) (by decide +kernel)

end RedFireForge.Native
