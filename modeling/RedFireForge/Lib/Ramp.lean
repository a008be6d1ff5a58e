/-
# `RedFireForge.Lib.Ramp` — a rate that goes from one value to another and stays there

The rate is linear up to the end of the ramp, and constant from then on.  The area under it
up to a time is given in closed form, over any ordered field, so that it evaluates; over the
reals it is the integral.  A step from one time to a later one is compared with the rate at
its start: what a program does that looks at the rate only now and then.
-/
import Mathlib.Analysis.SpecialFunctions.Integrals.Basic

namespace RedFireForge.Lib

section Field

variable {K : Type*} [Field K] [LinearOrder K]

def ramp (a b T t : K) : K := if T ≤ t then b else a + (b - a) * (t / T)

/-- The area under the ramp from 0 to `t`. -/
def rampArea (a b T t : K) : K :=
  if T ≤ t then (a + b) / 2 * T + b * (t - T) else a * t + (b - a) / T * (t ^ 2 / 2)

variable {a b T t u v : K}

theorem ramp_neg : ramp (-a) (-b) T t = -ramp a b T t := by
  unfold ramp
  split
  · rfl
  · ring

theorem rampArea_neg : rampArea (-a) (-b) T t = -rampArea a b T t := by
  unfold rampArea
  split <;> ring

theorem ramp_of_le (h : T ≤ t) : ramp a b T t = b := if_pos h

theorem ramp_of_lt (h : t < T) : ramp a b T t = a + (b - a) / T * t := by
  rw [ramp, if_neg h.not_ge]
  ring

theorem rampArea_of_le (h : T ≤ t) : rampArea a b T t = (a + b) / 2 * T + b * (t - T) := if_pos h

theorem rampArea_of_lt (h : t < T) : rampArea a b T t = a * t + (b - a) / T * (t ^ 2 / 2) :=
  if_neg h.not_ge

theorem rampArea_zero (hT : 0 ≤ T) : rampArea a b T 0 = 0 := by
  rcases hT.eq_or_lt with rfl | hT
  · simp [rampArea]
  · simp [rampArea, hT.not_ge]

/-- The end of the ramp, by its slope. -/
theorem end_eq (hT : 0 < T) : b = a + (b - a) / T * T := by
  rw [div_mul_cancel₀ _ hT.ne']
  ring

theorem mul_period (hr : 0 < ramp a b T u) :
    ramp a b T u * (u + 1 / ramp a b T u - u) = 1 := by
  rw [add_sub_cancel_left, mul_one_div_cancel hr.ne']

variable [IsStrictOrderedRing K]

theorem slope_nonneg (hab : a ≤ b) (hT : 0 ≤ T) : 0 ≤ (b - a) / T :=
  div_nonneg (sub_nonneg.mpr hab) hT

/-! ## A rising ramp -/

theorem ramp_le_end (hab : a ≤ b) (hT : 0 ≤ T) : ramp a b T t ≤ b := by
  rcases le_or_gt T t with h | h
  · exact (ramp_of_le h).le
  · rw [ramp_of_lt h]
    have hslope := mul_le_mul_of_nonneg_left h.le (slope_nonneg hab hT)
    rcases hT.eq_or_lt with rfl | hT
    · simpa using hab
    · linarith [@end_eq _ _ _ a b T hT]

theorem le_ramp (hab : a ≤ b) (hT : 0 ≤ T) (ht : 0 ≤ t) : a ≤ ramp a b T t := by
  rcases le_or_gt T t with h | h
  · rwa [ramp_of_le h]
  · rw [ramp_of_lt h]
    exact le_add_of_nonneg_right (mul_nonneg (slope_nonneg hab hT) ht)

theorem ramp_mono (hab : a ≤ b) (hT : 0 ≤ T) (huv : u ≤ v) : ramp a b T u ≤ ramp a b T v := by
  rcases le_or_gt T v with hv | hv
  · rw [ramp_of_le hv]
    exact ramp_le_end hab hT
  · rw [ramp_of_lt hv, ramp_of_lt (huv.trans_lt hv)]
    exact add_le_add_right (mul_le_mul_of_nonneg_left huv (slope_nonneg hab hT)) a

/-- Across the end of the ramp. -/
theorem rampArea_sub_of_lt_le (hT : 0 < T) (hu : u < T) (hv : T ≤ v) :
    rampArea a b T v - rampArea a b T u =
      ramp a b T u * (v - u) + (b - a) / T * ((T - u) ^ 2 / 2 + (T - u) * (v - T)) := by
  rw [rampArea_of_le hv, rampArea_of_lt hu, ramp_of_lt hu]
  have hb := @end_eq _ _ _ a b T hT
  generalize (b - a) / T = m at hb ⊢
  rw [hb]
  ring

theorem rampArea_sub_of_lt (hu : u < T) (hv : v < T) :
    rampArea a b T v - rampArea a b T u =
      ramp a b T u * (v - u) + (b - a) / T * ((v - u) ^ 2 / 2) := by
  rw [rampArea_of_lt hv, rampArea_of_lt hu, ramp_of_lt hu]
  ring

theorem rampArea_sub_of_le (hu : T ≤ u) (huv : u ≤ v) :
    rampArea a b T v - rampArea a b T u = ramp a b T u * (v - u) := by
  rw [rampArea_of_le hu, rampArea_of_le (hu.trans huv), ramp_of_le hu]
  ring

/-- The rate at the start of a step, kept, falls behind a rising ramp. -/
theorem ramp_mul_le (hab : a ≤ b) (hT : 0 ≤ T) (hu : 0 ≤ u) (huv : u ≤ v) :
    ramp a b T u * (v - u) ≤ rampArea a b T v - rampArea a b T u := by
  have hslope := slope_nonneg hab hT
  rcases le_or_gt T u with hTu | hTu
  · exact (rampArea_sub_of_le hTu huv).ge
  · rcases le_or_gt T v with hTv | hTv
    · rw [rampArea_sub_of_lt_le (hu.trans_lt hTu) hTu hTv]
      refine le_add_of_nonneg_right (mul_nonneg hslope ?_)
      have := mul_nonneg (sub_nonneg.mpr hTu.le) (sub_nonneg.mpr hTv)
      positivity
    · rw [rampArea_sub_of_lt hTu hTv]
      exact le_add_of_nonneg_right (mul_nonneg hslope (by positivity))

/-- How far behind it falls at most. -/
theorem rampArea_sub_le (hab : a ≤ b) (hT : 0 ≤ T) (hu : 0 ≤ u) (huv : u ≤ v) :
    rampArea a b T v - rampArea a b T u ≤
      ramp a b T u * (v - u) + (b - a) / T * ((v - u) ^ 2 / 2) := by
  have hslope := slope_nonneg hab hT
  rcases le_or_gt T u with hTu | hTu
  · rw [rampArea_sub_of_le hTu huv]
    exact le_add_of_nonneg_right (mul_nonneg hslope (by positivity))
  · rcases le_or_gt T v with hTv | hTv
    · rw [rampArea_sub_of_lt_le (hu.trans_lt hTu) hTu hTv]
      refine add_le_add_right (mul_le_mul_of_nonneg_left ?_ hslope) _
      have hsquare : (v - u) ^ 2 / 2 = (T - u) ^ 2 / 2 + (T - u) * (v - T) + (v - T) ^ 2 / 2 := by ring
      rw [hsquare]
      exact le_add_of_nonneg_right (by positivity)
    · exact (rampArea_sub_of_lt hTu hTv).le

/-- The area grows no faster than at the final rate. -/
theorem rampArea_sub_le_end (hab : a ≤ b) (hT : 0 ≤ T) (hu : 0 ≤ u) (huv : u ≤ v) :
    rampArea a b T v - rampArea a b T u ≤ b * (v - u) := by
  rcases le_or_gt T u with hTu | hTu
  · rw [rampArea_sub_of_le hTu huv, ramp_of_le hTu]
  · have hslope := slope_nonneg hab hT
    have hend : b * (v - u) = ramp a b T u * (v - u) + (b - a) / T * ((T - u) * (v - u)) := by
      have hb := @end_eq _ _ _ a b T (hu.trans_lt hTu)
      rw [ramp_of_lt hTu]
      generalize (b - a) / T = m at hb ⊢
      rw [hb]
      ring
    rw [hend]
    have huT := sub_nonneg.mpr hTu.le
    rcases le_or_gt T v with hTv | hTv
    · rw [rampArea_sub_of_lt_le (hu.trans_lt hTu) hTu hTv]
      refine add_le_add_right (mul_le_mul_of_nonneg_left ?_ hslope) _
      have hsplit : (T - u) * (v - u) = (T - u) ^ 2 + (T - u) * (v - T) := by ring
      rw [hsplit]
      exact add_le_add_left (half_le_self (by positivity)) _
    · rw [rampArea_sub_of_lt hTu hTv]
      refine add_le_add_right (mul_le_mul_of_nonneg_left ?_ hslope) _
      have hvu := sub_nonneg.mpr huv
      have hle : (v - u) * (v - u) ≤ (T - u) * (v - u) :=
        mul_le_mul_of_nonneg_right (sub_le_sub_right hTv.le u) hvu
      rw [sq]
      exact (half_le_self (by positivity)).trans hle

/-- What bounds the area before a time bounds it there. -/
theorem rampArea_le_of_forall_lt (hab : a ≤ b) (hT : 0 ≤ T) {s c : K} (hs : 0 ≤ s) (hsv : s < v)
    (h : ∀ t, s ≤ t → t < v → rampArea a b T t ≤ c) : rampArea a b T v ≤ c := by
  by_contra hgt
  have hc : c < rampArea a b T v := not_le.mp hgt
  have hsteep := rampArea_sub_le_end hab hT hs hsv.le
  have hstart := h s le_rfl hsv
  have hb : 0 < b := by
    by_contra hb
    have := mul_nonpos_of_nonpos_of_nonneg (not_lt.mp hb) (sub_nonneg.mpr hsv.le)
    linarith
  -- so near to the time that the area is still above the bound
  obtain ⟨ε, hε, hbε⟩ : ∃ ε, 0 < ε ∧ b * ε = (rampArea a b T v - c) / 2 := by
    have hgap := sub_pos.mpr hc
    exact ⟨(rampArea a b T v - c) / (2 * b), by positivity, by field_simp⟩
  have hlt : max s (v - ε) < v := max_lt hsv (sub_lt_self v hε)
  have hnear := h (max s (v - ε)) (le_max_left _ _) hlt
  have hrest := @rampArea_sub_le_end _ _ _ a b T (max s (v - ε)) v _ hab hT
    (hs.trans (le_max_left _ _)) hlt.le
  have hwidth : v - max s (v - ε) ≤ ε := by linarith [le_max_right s (v - ε)]
  have hsmall := mul_le_mul_of_nonneg_left hwidth hb.le
  linarith

/-! ## A falling ramp -/

theorem end_le_ramp (hab : b ≤ a) (hT : 0 ≤ T) : b ≤ ramp a b T t := by
  have h := @ramp_le_end _ _ _ (-a) (-b) T t _ (neg_le_neg hab) hT
  rwa [ramp_neg, neg_le_neg_iff] at h

theorem ramp_le (hab : b ≤ a) (hT : 0 ≤ T) (ht : 0 ≤ t) : ramp a b T t ≤ a := by
  have h := @le_ramp _ _ _ (-a) (-b) T t _ (neg_le_neg hab) hT ht
  rwa [ramp_neg, neg_le_neg_iff] at h

theorem ramp_pos_of_lt (hb : 0 ≤ b) (ha : 0 < a) (hu : 0 ≤ u) (huT : u < T) : 0 < ramp a b T u := by
  have hT : 0 < T := hu.trans_lt huT
  have hback : ramp a b T u = (a * (T - u) + b * u) / T := by
    rw [ramp_of_lt huT]
    field_simp
    ring
  rw [hback]
  exact div_pos (add_pos_of_pos_of_nonneg (mul_pos ha (sub_pos.mpr huT)) (mul_nonneg hb hu)) hT

/-- The rate at the start of a step, kept, runs ahead of a falling ramp. -/
theorem rampArea_sub_le_mul (hab : b ≤ a) (hT : 0 ≤ T) (hu : 0 ≤ u) (huv : u ≤ v) :
    rampArea a b T v - rampArea a b T u ≤ ramp a b T u * (v - u) := by
  have h := @ramp_mul_le _ _ _ (-a) (-b) T u v _ (neg_le_neg hab) hT hu huv
  rw [ramp_neg, rampArea_neg, rampArea_neg] at h
  linarith

/-- The area grows at least as at the final rate. -/
theorem end_mul_le (hab : b ≤ a) (hT : 0 ≤ T) (hu : 0 ≤ u) (huv : u ≤ v) :
    b * (v - u) ≤ rampArea a b T v - rampArea a b T u := by
  have h := @rampArea_sub_le_end _ _ _ (-a) (-b) T u v _ (neg_le_neg hab) hT hu huv
  rw [rampArea_neg, rampArea_neg] at h
  linarith

/-- How far ahead it runs at most. -/
theorem le_rampArea_sub (hab : b ≤ a) (hT : 0 ≤ T) (hu : 0 ≤ u) (huv : u ≤ v) :
    ramp a b T u * (v - u) - (a - b) / T * ((v - u) ^ 2 / 2) ≤
      rampArea a b T v - rampArea a b T u := by
  have h := @rampArea_sub_le _ _ _ (-a) (-b) T u v _ (neg_le_neg hab) hT hu huv
  rw [ramp_neg, rampArea_neg, rampArea_neg, neg_sub_neg b a] at h
  linarith

/-! ## Periods

A period is the inverse of the rate at its start. -/

theorem le_period_end (hr : 0 < ramp a b T u) : u ≤ u + 1 / ramp a b T u :=
  le_add_of_nonneg_right (one_div_pos.mpr hr).le

/-- A period after the end of the ramp brings one. -/
theorem rampArea_period_of_le (hTu : T ≤ u) (hr : 0 < ramp a b T u) :
    rampArea a b T (u + 1 / ramp a b T u) = rampArea a b T u + 1 := by
  have hdiff := @rampArea_sub_of_le _ _ _ a b T u _ _ hTu (le_period_end hr)
  rw [mul_period hr] at hdiff
  linarith

/-- After one period of a rising ramp the square of the rate is at least four times the slope. -/
theorem four_mul_slope_le (hab : a ≤ b) (hT : 0 ≤ T) {s : K} (hr : 0 < ramp a b T s)
    (hsu : s + 1 / ramp a b T s ≤ u) (hu : u < T) : 4 * ((b - a) / T) ≤ ramp a b T u ^ 2 := by
  have hs : s < T := ((le_period_end hr).trans hsu).trans_lt hu
  have hgrown : ramp a b T (s + 1 / ramp a b T s) = ramp a b T s + (b - a) / T / ramp a b T s := by
    rw [ramp_of_lt (hsu.trans_lt hu)]
    nth_rewrite 2 [ramp_of_lt hs]
    ring
  have hmono := ramp_mono hab hT hsu
  rw [hgrown] at hmono
  have hslope := slope_nonneg hab hT
  have hsquare : (ramp a b T s + (b - a) / T / ramp a b T s) ^ 2 =
      (ramp a b T s - (b - a) / T / ramp a b T s) ^ 2 + 4 * ((b - a) / T) := by
    field_simp
    ring
  calc 4 * ((b - a) / T) ≤ (ramp a b T s + (b - a) / T / ramp a b T s) ^ 2 := by
        rw [hsquare]
        exact le_add_of_nonneg_left (sq_nonneg _)
    _ ≤ ramp a b T u ^ 2 := by gcongr

/-- From then on a period brings at most two. -/
theorem rampArea_period_le_two (hab : a ≤ b) (hT : 0 ≤ T) (hu : 0 ≤ u) (hr : 0 < ramp a b T u)
    (hslope : u < T → (b - a) / T ≤ 2 * ramp a b T u ^ 2) :
    rampArea a b T (u + 1 / ramp a b T u) ≤ rampArea a b T u + 2 := by
  rcases le_or_gt T u with hTu | hTu
  · rw [rampArea_period_of_le hTu hr]
    linarith
  · have hdiff := @rampArea_sub_le _ _ _ a b T u _ _ hab hT hu (le_period_end hr)
    rw [mul_period hr, add_sub_cancel_left] at hdiff
    have hover : (b - a) / T * ((1 / ramp a b T u) ^ 2 / 2) ≤ 1 := by
      have hle := mul_le_mul_of_nonneg_right (hslope hTu)
        (by positivity : 0 ≤ (1 / ramp a b T u) ^ 2 / 2)
      have hone : 2 * ramp a b T u ^ 2 * ((1 / ramp a b T u) ^ 2 / 2) = 1 := by field_simp
      rwa [hone] at hle
    linarith

/-- A period of a falling ramp brings at least a half, or goes on past its end. -/
theorem half_le_rampArea_period (hab : b ≤ a) (hT : 0 ≤ T) (hb : 0 ≤ b) (hu : 0 ≤ u) (huT : u < T)
    (hr : 0 < ramp a b T u) :
    rampArea a b T u + 1 / 2 ≤ rampArea a b T (u + 1 / ramp a b T u) ∨
      T ≤ u + 1 / ramp a b T u := by
  rcases le_or_gt ((a - b) / T) (ramp a b T u ^ 2) with hslope | hslope
  · left
    have hdiff := @le_rampArea_sub _ _ _ a b T u _ _ hab hT hu (le_period_end hr)
    rw [mul_period hr, add_sub_cancel_left] at hdiff
    have hunder : (a - b) / T * ((1 / ramp a b T u) ^ 2 / 2) ≤ 1 / 2 := by
      have hle := mul_le_mul_of_nonneg_right hslope (by positivity : 0 ≤ (1 / ramp a b T u) ^ 2 / 2)
      have hhalf : ramp a b T u ^ 2 * ((1 / ramp a b T u) ^ 2 / 2) = 1 / 2 := by field_simp
      rwa [hhalf] at hle
    linarith
  · right
    by_contra hbefore
    rw [not_le] at hbefore
    -- the line would have come down below zero
    have hend := @end_le_ramp _ _ _ a b T (u + 1 / ramp a b T u) _ hab hT
    rw [ramp_of_lt hbefore] at hend
    have hstart := @ramp_of_lt _ _ _ a b T u huT
    have hfall : (a - b) / T * (1 / ramp a b T u) ≤ ramp a b T u := by
      have hneg : (b - a) / T = -((a - b) / T) := by ring
      rw [hneg] at hend hstart
      linarith
    rw [mul_one_div, div_le_iff₀ hr, ← sq] at hfall
    exact absurd hfall hslope.not_ge

end Field

/-! ## The integral -/

section Cast

variable {a b T t : ℚ}

theorem cast_ramp : ((ramp a b T t : ℚ) : ℝ) = ramp (a : ℝ) b T t := by
  unfold ramp
  simp only [Rat.cast_le]
  split <;> push_cast <;> rfl

theorem cast_rampArea : ((rampArea a b T t : ℚ) : ℝ) = rampArea (a : ℝ) b T t := by
  unfold rampArea
  simp only [Rat.cast_le]
  split <;> push_cast <;> rfl

end Cast

theorem intervalIntegrable_linear {a m s t : ℝ} :
    IntervalIntegrable (fun x => a + m * x) MeasureTheory.volume s t :=
  (by fun_prop : Continuous fun x => a + m * x).intervalIntegrable s t

theorem integral_linear {a m t : ℝ} :
    ∫ x in (0 : ℝ)..t, (a + m * x) = a * t + m * (t ^ 2 / 2) := by
  have hlinear : IntervalIntegrable (fun x => m * x) MeasureTheory.volume 0 t :=
    (by fun_prop : Continuous fun x => m * x).intervalIntegrable 0 t
  rw [intervalIntegral.integral_add (by simp) hlinear, intervalIntegral.integral_const,
    intervalIntegral.integral_const_mul, integral_id, smul_eq_mul]
  ring

variable {a b T t : ℝ}

/-- Up to the end of the ramp the rate is linear, the end included. -/
theorem ramp_eqOn_linear (hT : 0 < T) (ht : 0 ≤ t) (htT : t ≤ T) :
    Set.EqOn (fun x => a + (b - a) / T * x) (ramp a b T) (Set.uIcc 0 t) := by
  intro x hx
  rw [Set.uIcc_of_le ht] at hx
  rcases (hx.2.trans htT).eq_or_lt with rfl | hx
  · exact (end_eq hT).symm.trans (ramp_of_le le_rfl).symm
  · exact (ramp_of_lt hx).symm

theorem ramp_eqOn_const (hTt : T ≤ t) : Set.EqOn (fun _ => b) (ramp a b T) (Set.uIcc T t) := by
  intro x hx
  rw [Set.uIcc_of_le hTt] at hx
  exact (ramp_of_le hx.1).symm

theorem integral_ramp_before (hT : 0 < T) (ht : 0 ≤ t) (htT : t ≤ T) :
    ∫ x in (0 : ℝ)..t, ramp a b T x = a * t + (b - a) / T * (t ^ 2 / 2) := by
  rw [← intervalIntegral.integral_congr (ramp_eqOn_linear hT ht htT), integral_linear]

theorem integral_ramp_after (hTt : T ≤ t) : ∫ x in T..t, ramp a b T x = b * (t - T) := by
  rw [← intervalIntegral.integral_congr (ramp_eqOn_const hTt), intervalIntegral.integral_const,
    smul_eq_mul, mul_comm]

/-- The area is the integral. -/
theorem integral_ramp (hT : 0 ≤ T) (ht : 0 ≤ t) :
    ∫ x in (0 : ℝ)..t, ramp a b T x = rampArea a b T t := by
  rcases hT.eq_or_lt with rfl | hT
  · rw [integral_ramp_after ht, rampArea_of_le ht]
    ring
  · rcases le_or_gt T t with hTt | hTt
    · have hbefore : IntervalIntegrable (ramp a b T) MeasureTheory.volume 0 T :=
        intervalIntegrable_linear.congr
          ((ramp_eqOn_linear hT hT.le le_rfl).mono Set.uIoc_subset_uIcc)
      have hafter : IntervalIntegrable (ramp a b T) MeasureTheory.volume T t :=
        intervalIntegrable_const.congr ((ramp_eqOn_const hTt).mono Set.uIoc_subset_uIcc)
      have hb := @end_eq _ _ _ a b T hT
      rw [← intervalIntegral.integral_add_adjacent_intervals hbefore hafter,
        integral_ramp_before hT hT.le le_rfl, integral_ramp_after hTt, rampArea_of_le hTt]
      generalize (b - a) / T = m at hb ⊢
      rw [hb]
      ring
    · rw [integral_ramp_before hT ht hTt.le, rampArea_of_lt hTt]

end RedFireForge.Lib
