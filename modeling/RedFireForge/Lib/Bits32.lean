/-
# `RedFireForge.Lib.Bits32` — operators on the 32 bits of a whole number

An operator takes the last 32 bits of its numbers and gives back a signed number, apart from
the shift to the right that fills with zeros, which gives an unsigned one.  A shift counts
modulo 32.
-/
import Mathlib.Algebra.Group.Nat.Defs
import Mathlib.Data.Int.Notation
import Mathlib.Data.Nat.Notation

namespace RedFireForge.Lib

/-- `ToInt32` -/
def bits32 (n : ℤ) : BitVec 32 := BitVec.ofInt 32 n

/-- `~n` -/
def not32 (n : ℤ) : ℤ := (~~~ bits32 n).toInt

/-- `n & m` -/
def and32 (n m : ℤ) : ℤ := (bits32 n &&& bits32 m).toInt

/-- `n | m` -/
def or32 (n m : ℤ) : ℤ := (bits32 n ||| bits32 m).toInt

def shiftCount (k : ℤ) : ℕ := (bits32 k).toNat % 32

/-- `n << k` -/
def shiftLeft32 (n k : ℤ) : ℤ := (bits32 n <<< shiftCount k).toInt

/-- `n >>> k` -/
def shiftRight32 (n k : ℤ) : ℤ := ((bits32 n >>> shiftCount k).toNat : ℤ)

variable {n m : ℤ}

@[simp] theorem bits32_toInt (x : BitVec 32) : bits32 x.toInt = x := BitVec.ofInt_toInt

@[simp] theorem bits32_natCast (k : ℕ) : bits32 (k : ℤ) = BitVec.ofNat 32 k := BitVec.ofInt_natCast 32 k

@[simp] theorem bits32_not32 : bits32 (not32 n) = ~~~ bits32 n := bits32_toInt _

@[simp] theorem bits32_or32 : bits32 (or32 n m) = bits32 n ||| bits32 m := bits32_toInt _

@[simp] theorem bits32_shiftLeft32 {k : ℤ} : bits32 (shiftLeft32 n k) = bits32 n <<< shiftCount k :=
  bits32_toInt _

theorem and32_inj {n' m' : ℤ} : and32 n m = and32 n' m' ↔ bits32 n &&& bits32 m = bits32 n' &&& bits32 m' :=
  BitVec.toInt_inj

theorem shiftCount_natCast {k : ℕ} (h : k < 32) : shiftCount k = k := by
  rw [shiftCount, bits32_natCast, BitVec.toNat_ofNat, Nat.mod_mod_of_dvd k (by decide), Nat.mod_eq_of_lt h]

/-- `n >>> 0` is the unsigned number of the same bits. -/
theorem shiftRight32_zero (n : ℤ) : shiftRight32 n 0 = ((bits32 n).toNat : ℤ) := rfl

@[simp] theorem bits32_shiftRight32_zero (n : ℤ) : bits32 (shiftRight32 n 0) = bits32 n := by
  rw [shiftRight32_zero, bits32_natCast, BitVec.ofNat_toNat, BitVec.setWidth_eq]

/-! ## Bytes and masks -/

/-- A byte goes after the others. -/
theorem shiftLeft_or_byte {k b : ℕ} (hk : k < 2 ^ 24) (hb : b < 256) :
    BitVec.ofNat 32 k <<< 8 ||| BitVec.ofNat 32 b = BitVec.ofNat 32 (k * 256 + b) := by
  apply BitVec.eq_of_toNat_eq
  rw [BitVec.toNat_or, BitVec.toNat_shiftLeft, BitVec.toNat_ofNat, BitVec.toNat_ofNat, BitVec.toNat_ofNat,
    Nat.mod_eq_of_lt (by omega : k < 2 ^ 32), Nat.mod_eq_of_lt (by omega : b < 2 ^ 32),
    Nat.mod_eq_of_lt (by rw [Nat.shiftLeft_eq]; omega), ← Nat.shiftLeft_add_eq_or_of_lt hb, Nat.shiftLeft_eq,
    Nat.mod_eq_of_lt (by omega)]

/-- What stays under a mask of the first bits. -/
theorem and_firstBits_inj {w len : ℕ} {x y : BitVec w} (hlen : len ≤ w) :
    x &&& BitVec.allOnes w <<< (w - len) = y &&& BitVec.allOnes w <<< (w - len) ↔
      ∀ i < len, x.getMsbD i = y.getMsbD i := by
  have hmask : ∀ i, (BitVec.allOnes w <<< (w - len)).getMsbD i = decide (i < len) := by
    intro i
    rw [BitVec.getMsbD_shiftLeft, BitVec.getMsbD_allOnes]
    exact decide_eq_decide.mpr (by omega)
  constructor
  · intro h i hi
    have hbit := congrArg (fun z => BitVec.getMsbD z i) h
    simpa only [BitVec.getMsbD_and, hmask, hi, decide_true, Bool.and_true] using hbit
  · intro h
    apply BitVec.eq_of_getMsbD_eq
    intro i hw
    rw [BitVec.getMsbD_and, BitVec.getMsbD_and, hmask]
    cases hi : decide (i < len) with
    | false => rw [Bool.and_false, Bool.and_false]
    | true => rw [h i (of_decide_eq_true hi)]

end RedFireForge.Lib
