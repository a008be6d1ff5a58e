/-
# `RedFireForge.Lib.Letters` — small and large letters

The letters of ASCII; other characters have one case.
-/
import Mathlib.Data.Nat.Notation
import Mathlib.Tactic.SplitIfs

namespace RedFireForge.Lib

theorem toLower_val (c : Char) : c.toLower.val.toNat =
    if 65 ≤ c.val.toNat ∧ c.val.toNat ≤ 90 then c.val.toNat + 32 else c.val.toNat := by
  unfold Char.toLower
  simp only [ge_iff_le, UInt32.le_iff_toNat_le]
  have hfirst : 'A'.val.toNat = 65 := rfl
  have hlast : 'Z'.val.toNat = 90 := rfl
  have hshift : ('a'.val - 'A'.val).toNat = 32 := rfl
  split
  next h =>
    rw [if_pos (by omega), UInt32.toNat_add, hshift]
    omega
  next h => rw [if_neg (by omega)]

theorem toUpper_val (c : Char) : c.toUpper.val.toNat =
    if 97 ≤ c.val.toNat ∧ c.val.toNat ≤ 122 then c.val.toNat - 32 else c.val.toNat := by
  unfold Char.toUpper
  simp only [UInt32.le_iff_toNat_le]
  have hfirst : 'a'.val.toNat = 97 := rfl
  have hlast : 'z'.val.toNat = 122 := rfl
  have hshift : ('A'.val - 'a'.val).toNat = 4294967264 := rfl
  split
  next h =>
    rw [if_pos (by omega), UInt32.toNat_add, hshift]
    omega
  next h => rw [if_neg (by omega)]

theorem toLower_toUpper (c : Char) : c.toUpper.toLower = c.toLower := by
  refine Char.ext (UInt32.toNat_inj.mp ?_)
  rw [toLower_val, toLower_val, toUpper_val]
  split_ifs <;> omega

theorem toUpper_toLower (c : Char) : c.toLower.toUpper = c.toUpper := by
  refine Char.ext (UInt32.toNat_inj.mp ?_)
  rw [toUpper_val, toUpper_val, toLower_val]
  split_ifs <;> omega

theorem isUpper_iff {c : Char} : c.isUpper = true ↔ 65 ≤ c.val.toNat ∧ c.val.toNat ≤ 90 := by
  rw [show c.isUpper = decide (c.val ≥ 'A'.val ∧ c.val ≤ 'Z'.val) from rfl]
  simp only [decide_eq_true_eq, ge_iff_le, UInt32.le_iff_toNat_le]
  rfl

theorem isLower_iff {c : Char} : c.isLower = true ↔ 97 ≤ c.val.toNat ∧ c.val.toNat ≤ 122 := by
  rw [show c.isLower = (decide (c.val ≥ 'a'.val) && decide (c.val ≤ 'z'.val)) from rfl]
  simp only [Bool.and_eq_true, decide_eq_true_eq, ge_iff_le, UInt32.le_iff_toNat_le]
  rfl

theorem isUpper_toLower (c : Char) : c.toLower.isUpper = false := by
  rw [Bool.eq_false_iff, Ne, isUpper_iff, toLower_val]
  split_ifs <;> omega

theorem toLower_of_not_upper {c : Char} (h : c.isUpper = false) : c.toLower = c := by
  rw [Bool.eq_false_iff, Ne, isUpper_iff] at h
  refine Char.ext (UInt32.toNat_inj.mp ?_)
  rw [toLower_val, if_neg h]

theorem isUpper_toUpper {c : Char} (h : c.isLower = true) : c.toUpper.isUpper = true := by
  rw [isLower_iff] at h
  rw [isUpper_iff, toUpper_val, if_pos h]
  omega

theorem not_lower_of_upper {c : Char} (h : c.isUpper = true) : c.isLower = false := by
  rw [isUpper_iff] at h
  rw [Bool.eq_false_iff, Ne, isLower_iff]
  omega

theorem not_upper_of_lower {c : Char} (h : c.isLower = true) : c.isUpper = false := by
  rw [isLower_iff] at h
  rw [Bool.eq_false_iff, Ne, isUpper_iff]
  omega

end RedFireForge.Lib
