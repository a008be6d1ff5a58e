/-
# `RedFireForge.Lib.Jobs` — numbered jobs and the counter that limits them

A program starts jobs in order as long as a counter is below a limit.  A job that
ends is first recorded, with its result, and then collected, which lowers the
counter; other things may happen in between.  A job whose start throws is counted,
but never ends: it is LOST, and the counter never comes down to zero again.
-/
import Mathlib.Data.List.Nodup
import Mathlib.Data.List.Perm.Basic
import Mathlib.Data.List.Range
import Mathlib.Order.Basic
import Mathlib.Tactic.Common

namespace RedFireForge.Lib

variable {R : Type}

/-- Jobs are numbered in the order of their starts; `due` of those recorded are not
collected yet. -/
structure Jobs (R : Type) where
  launched : ℕ
  inFlight : ℕ
  running : List ℕ
  due : ℕ
  results : List (ℕ × R)
deriving DecidableEq, Repr

namespace Jobs

def new : Jobs R := ⟨0, 0, [], 0, []⟩

/-- The next job runs. -/
def start (j : Jobs R) : Jobs R :=
  { j with
    launched := j.launched + 1
    inFlight := j.inFlight + 1
    running := j.running ++ [j.launched] }

/-- The start of the next job throws. -/
def drop (j : Jobs R) : Jobs R := { j with launched := j.launched + 1, inFlight := j.inFlight + 1 }

/-- Job `i` ends with result `r`. -/
def settle (j : Jobs R) (i : ℕ) (r : R) : Jobs R :=
  { j with
    running := j.running.erase i
    due := j.due + 1
    results := j.results ++ [(i, r)] }

def collect (j : Jobs R) : Jobs R := { j with due := j.due - 1, inFlight := j.inFlight - 1 }

/-- `while (inFlight < limit && launched < total) { if (stop) break; … }`, and
whether a start threw; without a `total` there is always a next job. -/
def startLoop (limit : ℕ) (total : Option ℕ) (stop : Bool) (throws : ℕ → Bool) :
    ℕ → Jobs R → Jobs R × Bool
  | 0, j => (j, false)
  | fuel + 1, j =>
      if j.inFlight < limit ∧ total.all (j.launched < ·) then
        if stop then (j, false)
        else if throws j.launched then (j.drop, true)
        else startLoop limit total stop throws fuel j.start
      else (j, false)

/-- The loop with enough fuel: the counter grows with each start. -/
def startUpTo (limit : ℕ) (total : Option ℕ) (stop : Bool) (throws : ℕ → Bool) (j : Jobs R) :
    Jobs R × Bool := startLoop limit total stop throws (limit - j.inFlight) j

/-- `k` more jobs run. -/
def startMany (j : Jobs R) (k : ℕ) : Jobs R :=
  { j with
    launched := j.launched + k
    inFlight := j.inFlight + k
    running := j.running ++ List.range' j.launched k }

variable {j : Jobs R} {k limit : ℕ} {total : Option ℕ} {stop : Bool} {throws : ℕ → Bool}

@[simp] theorem startMany_zero : j.startMany 0 = j := by simp [startMany]

theorem startMany_succ : j.startMany (k + 1) = j.start.startMany k := by
  have hnext : j.launched + (k + 1) = j.launched + 1 + k := by omega
  have hflight : j.inFlight + (k + 1) = j.inFlight + 1 + k := by omega
  simp only [startMany, start, List.range'_succ, List.append_assoc, List.singleton_append, hnext,
    hflight]

/-! ## What the loop does -/

/-- Some jobs are started; the loop ends at a stop, at the limit, or after the last
job, or a start throws. -/
inductive Starts (limit : ℕ) (total : Option ℕ) (stop : Bool) (throws : ℕ → Bool) (j : Jobs R) :
    Jobs R × Bool → Prop
  | ended (k : ℕ) : (∀ i < k, throws (j.launched + i) = false) → (stop = true → k = 0) →
      (j.inFlight ≤ limit → j.inFlight + k ≤ limit) →
      (∀ n ∈ total, j.launched ≤ n → j.launched + k ≤ n) →
      (stop = true ∨ limit ≤ j.inFlight + k ∨ ∃ n ∈ total, n ≤ j.launched + k) →
      Starts limit total stop throws j (j.startMany k, false)
  | threw (k : ℕ) : (∀ i < k, throws (j.launched + i) = false) → stop = false →
      j.inFlight + k < limit → (∀ n ∈ total, j.launched + k < n) →
      throws (j.launched + k) = true → Starts limit total stop throws j ((j.startMany k).drop, true)

theorem startLoop_starts (fuel : ℕ) (hfuel : limit ≤ j.inFlight + fuel) :
    Starts limit total stop throws j (startLoop limit total stop throws fuel j) := by
  induction fuel generalizing j with
  | zero =>
      have hended : Starts limit total stop throws j (j.startMany 0, false) :=
        .ended 0 (by simp) (fun _ => rfl) id (fun _ _ => id) (Or.inr (Or.inl hfuel))
      simpa [startLoop] using hended
  | succ fuel ih =>
      have hnone : stop = true ∨ limit ≤ j.inFlight + 0 ∨ (∃ n ∈ total, n ≤ j.launched + 0) →
          Starts limit total stop throws j (j, false) := fun hend => by
        simpa using Starts.ended 0 (by simp) (fun _ => rfl) id (fun _ _ => id) hend
      rw [startLoop]
      split
      next hroom =>
        have hmore : ∀ n ∈ total, j.launched < n := by simpa [Option.all_eq_true] using hroom.2
        split
        next hstop => exact hnone (Or.inl hstop)
        next hstop =>
          have hstop : stop = false := by simpa using hstop
          split
          next hthrow =>
            simpa using Starts.threw 0 (by simp) hstop hroom.1 hmore hthrow
          next hthrow =>
            have hfirst : throws j.launched = false := by simpa using hthrow
            have hbefore : ∀ k, (∀ i < k, throws (j.launched + 1 + i) = false) →
                ∀ i < k + 1, throws (j.launched + i) = false := by
              intro k hk i hi
              cases i with
              | zero => exact hfirst
              | succ i =>
                  rw [Nat.add_comm i 1, ← Nat.add_assoc]
                  exact hk i (by omega)
            have hrest := ih (j := j.start) (by simp only [start]; omega)
            generalize startLoop limit total stop throws fuel j.start = out at hrest
            cases hrest with
            | ended k hk hzero hlimit htotal hend =>
                simp only [start] at hk hlimit htotal hend
                rw [← startMany_succ]
                refine .ended (k + 1) (hbefore k hk) (fun h => by simp [hstop] at h) ?_ ?_ ?_
                · intro _
                  have := hlimit hroom.1
                  omega
                · intro n hn _
                  have := htotal n hn (hmore n hn)
                  omega
                · refine hend.imp id (Or.imp (by omega) ?_)
                  rintro ⟨n, hn, hle⟩
                  exact ⟨n, hn, by omega⟩
            | threw k hk _ hlimit htotal hthrow' =>
                simp only [start] at hk hlimit htotal hthrow'
                rw [← startMany_succ]
                refine .threw (k + 1) (hbefore k hk) hstop (by omega) (fun n hn => ?_) ?_
                · have := htotal n hn
                  omega
                · rwa [Nat.add_comm k 1, ← Nat.add_assoc]
      next hroom =>
        refine hnone (Or.inr ?_)
        rw [not_and_or, Bool.not_eq_true, Option.all_eq_false] at hroom
        refine hroom.imp (by omega) ?_
        rintro ⟨n, hn, hle⟩
        exact ⟨n, hn, by simpa using hle⟩

theorem startUpTo_starts :
    Starts limit total stop throws j (startUpTo limit total stop throws j) :=
  startLoop_starts _ (by omega)

/-! ## Jobs that run or have a result -/

def accounted (j : Jobs R) : List ℕ := j.running ++ j.results.map Prod.fst

/-- A job was launched, but neither runs nor has a result. -/
def Lost (j : Jobs R) : Prop := ∃ i < j.launched, i ∉ j.accounted

structure Inv (j : Jobs R) : Prop where
  distinct : j.accounted.Nodup
  launched : ∀ i ∈ j.accounted, i < j.launched
  accounts : j.inFlight + j.results.length = j.launched + j.due

theorem new_inv : (new : Jobs R).Inv ∧ ¬ (new : Jobs R).Lost :=
  ⟨⟨List.nodup_nil, nofun, rfl⟩, fun ⟨_, hi, _⟩ => Nat.not_lt_zero _ hi⟩

theorem accounted_startMany (j : Jobs R) (k : ℕ) :
    List.Perm (j.startMany k).accounted (List.range' j.launched k ++ j.accounted) := by
  rw [accounted, accounted, startMany, List.append_assoc]
  exact List.perm_append_comm_assoc _ _ _

theorem mem_accounted_startMany {i : ℕ} :
    i ∈ (j.startMany k).accounted ↔ j.launched ≤ i ∧ i < j.launched + k ∨ i ∈ j.accounted := by
  rw [(accounted_startMany j k).mem_iff, List.mem_append, List.mem_range'_1]

theorem lost_startMany : (j.startMany k).Lost ↔ j.Lost := by
  constructor
  · rintro ⟨i, hi, hnot⟩
    rw [mem_accounted_startMany, not_or] at hnot
    simp only [startMany] at hi
    exact ⟨i, by omega, hnot.2⟩
  · rintro ⟨i, hi, hnot⟩
    refine ⟨i, by simp only [startMany]; omega, ?_⟩
    rw [mem_accounted_startMany, not_or]
    exact ⟨by omega, hnot⟩

theorem Inv.startMany (h : j.Inv) (k : ℕ) : (j.startMany k).Inv := by
  refine ⟨?_, fun i hi => ?_, ?_⟩
  · rw [(accounted_startMany j k).nodup_iff]
    refine List.nodup_append.mpr ⟨List.nodup_range', h.distinct, fun i hi i' hi' => ?_⟩
    have := h.launched i' hi'
    have := (List.mem_range'_1.mp hi).1
    omega
  · rcases mem_accounted_startMany.mp hi with hi | hi
    · exact hi.2
    · exact Nat.lt_add_right k (h.launched i hi)
  · have := h.accounts
    simp only [Jobs.startMany]
    omega

theorem Inv.drop (h : j.Inv) : j.drop.Lost ∧ j.drop.Inv := by
  have hlost : j.drop.Lost :=
    ⟨j.launched, Nat.lt_succ_self _, fun hi => Nat.lt_irrefl _ (h.launched _ hi)⟩
  refine ⟨hlost, h.distinct, fun i hi => Nat.lt_succ_of_lt (h.launched i hi), ?_⟩
  have := h.accounts
  simp only [Jobs.drop]
  omega

/-- A result takes the place of what ran. -/
theorem accounted_settle {i : ℕ} {r : R} (hi : i ∈ j.running) :
    List.Perm (j.settle i r).accounted j.accounted := by
  simp only [accounted, settle, List.map_append, List.map_cons, List.map_nil]
  refine (List.perm_append_comm.append_left _).trans ?_
  exact List.perm_middle.trans ((List.perm_cons_erase hi).symm.append_right _)

theorem lost_settle {i : ℕ} {r : R} (hi : i ∈ j.running) : (j.settle i r).Lost ↔ j.Lost :=
  exists_congr (fun _ => and_congr_right (fun _ => not_congr (accounted_settle hi).mem_iff))

/-- Starts keep the books and the results. -/
theorem Starts.inv {out : Jobs R × Bool} (h : Starts limit total stop throws j out) (hI : j.Inv) :
    out.1.Inv ∧ out.1.results = j.results ∧
      (∀ n ∈ total, j.launched ≤ n → out.1.launched ≤ n) := by
  cases h with
  | ended k _ _ _ htotal _ => exact ⟨hI.startMany k, rfl, htotal⟩
  | threw k _ _ _ htotal _ =>
      exact ⟨(hI.startMany k).drop.2, rfl, fun n hn _ => Nat.succ_le_of_lt (htotal n hn)⟩

/-- Nothing is started at a stop, or when all jobs were launched. -/
theorem Starts.none {out : Jobs R × Bool} (h : Starts limit total stop throws j out)
    (hnone : stop = true ∨ j.launched ∈ total) : out = (j, false) := by
  cases h with
  | ended k _ hzero _ htotal _ =>
      have hk : k = 0 := by
        rcases hnone with hstop | hlast
        · exact hzero hstop
        · have := htotal _ hlast le_rfl
          omega
      rw [hk, startMany_zero]
  | threw k _ hstop _ htotal _ =>
      rcases hnone with hstop' | hlast
      · rw [hstop] at hstop'
        cases hstop'
      · have := htotal _ hlast
        omega

theorem Inv.settle {i : ℕ} {r : R} (h : j.Inv) (hi : i ∈ j.running) : (j.settle i r).Inv := by
  have hperm := accounted_settle (r := r) hi
  refine ⟨hperm.nodup_iff.mpr h.distinct, fun i' hi' => h.launched i' (hperm.mem_iff.mp hi'), ?_⟩
  have := h.accounts
  simp only [Jobs.settle, List.length_append, List.length_singleton]
  omega

/-- At most as many jobs run or have a result as were launched, and exactly as many
if none is lost. -/
theorem Inv.accounted_length (h : j.Inv) :
    j.accounted.length ≤ j.launched ∧ (j.Lost ↔ j.accounted.length < j.launched) := by
  have hsub : j.accounted ⊆ List.range j.launched := fun i hi => List.mem_range.mpr (h.launched i hi)
  have hle := (List.subperm_of_subset h.distinct hsub).length_le
  rw [List.length_range] at hle
  refine ⟨hle, fun ⟨i, hi, hnot⟩ => ?_, fun hlt => ?_⟩
  · have hcons : (i :: j.accounted) ⊆ List.range j.launched :=
      List.cons_subset.mpr ⟨List.mem_range.mpr hi, hsub⟩
    have := (List.subperm_of_subset (List.nodup_cons.mpr ⟨hnot, h.distinct⟩) hcons).length_le
    simp only [List.length_cons, List.length_range] at this
    omega
  · by_contra hnone
    have hall : List.range j.launched ⊆ j.accounted := fun i hi => by
      by_contra hnot
      exact hnone ⟨i, List.mem_range.mp hi, hnot⟩
    have := (List.subperm_of_subset List.nodup_range hall).length_le
    rw [List.length_range] at this
    omega

theorem Inv.results_length (h : j.Inv) (hlost : ¬ j.Lost) :
    j.results.length + j.running.length = j.launched := by
  obtain ⟨hle, hiff⟩ := h.accounted_length
  have hge : ¬ j.accounted.length < j.launched := fun hlt => hlost (hiff.mpr hlt)
  simp only [accounted, List.length_append, List.length_map] at hle hge
  omega

/-- Without a lost job the counter counts what runs or is to be collected. -/
theorem Inv.inFlight_eq (h : j.Inv) (hlost : ¬ j.Lost) : j.inFlight = j.running.length + j.due := by
  have := h.results_length hlost
  have := h.accounts
  omega

/-- A lost job keeps the counter up. -/
theorem Inv.inFlight_pos (h : j.Inv) (hlost : j.Lost) : 0 < j.inFlight := by
  have hlt := h.accounted_length.2.mp hlost
  have := h.accounts
  simp only [accounted, List.length_append, List.length_map] at hlt
  omega

theorem Inv.collect (h : j.Inv) (hdue : 0 < j.due) : j.collect.Inv := by
  refine ⟨h.distinct, h.launched, ?_⟩
  obtain ⟨hle, -⟩ := h.accounted_length
  have := h.accounts
  simp only [accounted, List.length_append, List.length_map] at hle
  simp only [Jobs.collect]
  omega

/-- When none is lost and none runs, each job launched has one result. -/
theorem Inv.count_eq_one (h : j.Inv) (hlost : ¬ j.Lost) {i : ℕ} (hi : i < j.launched)
    (hrun : i ∉ j.running) : (j.results.map Prod.fst).count i = 1 := by
  refine List.count_eq_one_of_mem (List.nodup_append.mp h.distinct).2.1 ?_
  by_contra hnot
  exact hlost ⟨i, hi, fun hmem => (List.mem_append.mp hmem).elim hrun hnot⟩

end Jobs

end RedFireForge.Lib
