/-
# `RedFireForge.Lib.Split` — a list in slices, a total in shares

A list is cut into slices of one length; a whole number is shared out so that the
shares differ by at most one.  The shares here are never less than one, so they
add up to the total exactly if it is at least the number of shares.
-/
import Mathlib.Algebra.Order.BigOperators.Group.List
import Mathlib.Data.Int.Order.Basic
import Mathlib.Data.Nat.Notation
import Mathlib.Tactic.Linarith
import Mathlib.Tactic.Ring

namespace RedFireForge.Lib

/-! ## Slices -/

section Slices

variable {α : Type*}

/-- `l.slice(i * size, (i + 1) * size)` for the first `n` places `i`. -/
def slices (l : List α) (size n : ℕ) : List (List α) :=
  (List.range n).map (fun i => (l.drop (i * size)).take size)

theorem flatten_slices (l : List α) (size n : ℕ) : (slices l size n).flatten = l.take (n * size) := by
  induction n with
  | zero => simp [slices]
  | succ n ih =>
      have hsplit : slices l size (n + 1) = slices l size n ++ [(l.drop (n * size)).take size] := by
        simp [slices, List.range_succ]
      rw [hsplit, List.flatten_append, ih, Nat.add_mul, Nat.one_mul, List.take_add]
      simp

/-- Enough slices hold the whole list, each element once. -/
theorem flatten_slices_eq {l : List α} {size n : ℕ} (h : l.length ≤ n * size) :
    (slices l size n).flatten = l := by
  rw [flatten_slices, List.take_of_length_le h]

theorem countP_lt_range (n m : ℕ) : (List.range n).countP (fun i => decide (i < m)) = min n m := by
  induction n with
  | zero => simp
  | succ n ih =>
      rw [List.range_succ, List.countP_append, ih, List.countP_singleton]
      by_cases h : n < m
      · simp only [h, decide_true, if_true]
        omega
      · simp only [h, decide_false, Bool.false_eq_true, if_false]
        omega

/-- The last slices may be empty. -/
theorem length_slices_filter {l : List α} {size n : ℕ} [DecidablePred fun s : List α => s ≠ []]
    (hsize : 0 < size) (h : l.length ≤ n * size) :
    ((slices l size n).filter (· ≠ [])).length = (l.length + size - 1) / size := by
  have hslice : ∀ i, (l.drop (i * size)).take size ≠ [] ↔ i < (l.length + size - 1) / size := by
    intro i
    rw [Ne, List.take_eq_nil_iff, List.drop_eq_nil_iff, Nat.lt_iff_add_one_le,
      Nat.le_div_iff_mul_le hsize, Nat.add_mul, Nat.one_mul]
    omega
  have hle : (l.length + size - 1) / size ≤ n := by
    rw [Nat.div_le_iff_le_mul_add_pred hsize, Nat.mul_comm]
    omega
  rw [← List.countP_eq_length_filter, slices, List.countP_map]
  have hcount : (List.range n).countP ((fun s : List α => decide (s ≠ [])) ∘
      fun i => (l.drop (i * size)).take size) =
        (List.range n).countP (fun i => decide (i < (l.length + size - 1) / size)) :=
    List.countP_congr (fun i _ => by simpa using hslice i)
  rw [hcount, countP_lt_range, Nat.min_eq_right hle]

end Slices

/-! ## Shares -/

/-- The share of place `i` of `n`: the remainder goes to the first places. -/
def share (total : Int) (n i : ℕ) : Int :=
  let base := total / n
  let extra := total - base * n
  max 1 (base + if (i : Int) < extra then 1 else 0)

def shares (total : Int) (n : ℕ) : List Int := (List.range n).map (share total n)

variable {total : Int} {n : ℕ}

theorem one_le_share (total : Int) (n i : ℕ) : 1 ≤ share total n i := le_max_left _ _

theorem length_shares : (shares total n).length = n := by simp [shares]

/-- Each place has one at least. -/
theorem le_sum_shares (total : Int) (n : ℕ) : (n : Int) ≤ (shares total n).sum := by
  have hall : ∀ x ∈ shares total n, (1 : Int) ≤ x := by
    intro x hx
    obtain ⟨i, -, rfl⟩ := List.mem_map.mp hx
    exact one_le_share total n i
  have hle := List.card_nsmul_le_sum _ _ hall
  rwa [length_shares, nsmul_eq_mul, mul_one] at hle

/-- The first `e` of `k` places have one more than the others. -/
theorem sum_firsts (base e : Int) (he : 0 ≤ e) (k : ℕ) :
    ((List.range k).map (fun i : ℕ => base + if (i : Int) < e then 1 else 0)).sum =
      base * k + min (k : Int) e := by
  induction k with
  | zero => simp [he]
  | succ k ih =>
      rw [List.range_succ, List.map_append, List.sum_append, ih]
      simp only [List.map_cons, List.map_nil, List.sum_cons, List.sum_nil, add_zero]
      push_cast
      rw [mul_add, mul_one]
      split <;> omega

/-- **Shares of at least one add up to the total**, if it reaches to one for each. -/
theorem sum_shares (hn : 0 < n) (h : (n : Int) ≤ total) : (shares total n).sum = total := by
  have hn' : (0 : Int) < n := by exact_mod_cast hn
  have hbase : 1 ≤ total / n := by
    rw [Int.le_ediv_iff_mul_le hn', one_mul]
    exact h
  have hextra : total - total / n * n = total % n := by
    have := Int.emod_add_mul_ediv total n
    rw [mul_comm] at this
    linarith
  have hplain : shares total n = (List.range n).map
      (fun i : ℕ => total / n + if (i : Int) < total % n then 1 else 0) := by
    refine List.map_congr_left (fun i _ => ?_)
    show max 1 (total / n + if (i : Int) < total - total / n * n then 1 else 0) = _
    rw [hextra]
    refine max_eq_right ?_
    split <;> omega
  have hlt := Int.emod_lt_of_pos total hn'
  have hsum := Int.emod_add_mul_ediv total n
  rw [hplain, sum_firsts _ _ (Int.emod_nonneg total (by omega)) n, min_eq_right (by omega)]
  rw [mul_comm] at hsum
  linarith

theorem sum_shares_le_iff (hn : 0 < n) : (shares total n).sum ≤ total ↔ (n : Int) ≤ total :=
  ⟨fun h => (le_sum_shares total n).trans h, fun h => (sum_shares hn h).le⟩

theorem sum_shares_eq_iff (hn : 0 < n) : (shares total n).sum = total ↔ (n : Int) ≤ total :=
  ⟨fun h => (le_sum_shares total n).trans h.le, fun h => sum_shares hn h⟩

/-- Capping two or more numbers at less than their sum leaves more than the cap. -/
theorem lt_sum_min {l : List Int} {m : Int} (hone : ∀ x ∈ l, 1 ≤ x) (hlen : 2 ≤ l.length)
    (hm : 1 ≤ m) (h : m < l.sum) : m < (l.map (fun x => min x m)).sum := by
  by_cases hall : ∀ x ∈ l, x ≤ m
  · have hid : ∀ x ∈ l, min x m = id x := fun x hx => min_eq_left (hall x hx)
    rwa [List.map_congr_left hid, List.map_id]
  · obtain ⟨x, hx, hgt⟩ : ∃ x ∈ l, m < x := by simpa using hall
    obtain ⟨s, t, rfl⟩ := List.append_of_mem hx
    have hle : ∀ k : List Int, (∀ x ∈ k, 1 ≤ x) → (k.length : Int) ≤ (k.map (fun x => min x m)).sum := by
      intro k hk
      have hall : ∀ y ∈ k.map (fun x => min x m), (1 : Int) ≤ y := by
        intro y hy
        obtain ⟨x, hx, rfl⟩ := List.mem_map.mp hy
        exact le_min (hk x hx) hm
      have := List.card_nsmul_le_sum _ _ hall
      rwa [List.length_map, nsmul_eq_mul, mul_one] at this
    have hs := hle s (fun x hx => hone x (by simp [hx]))
    have ht := hle t (fun x hx => hone x (by simp [hx]))
    simp only [List.length_append, List.length_cons] at hlen
    simp only [List.map_append, List.map_cons, List.sum_append, List.sum_cons, min_eq_right hgt.le]
    omega

end RedFireForge.Lib
