/-
# `RedFireForge.Lib.Number` — the number that a text spells

`Number(text)` of a text without white space around it.  Numbers are exact; `NaN` and the
infinities are no number.
-/
import Mathlib.Algebra.Order.Field.Rat
import Mathlib.Data.List.TakeWhile
import RedFireForge.Lib.Hex

namespace RedFireForge.Lib

def digits (cs : List Char) : Option ℕ :=
  if cs ≠ [] ∧ cs.all Char.isDigit then some (Nat.ofDigitChars 10 cs 0) else none

def digitsIn (base : ℕ) (cs : List Char) : Option ℚ :=
  if cs ≠ [] ∧ cs.all (fun c => (hexDigitValue c).any (· < base)) then
    some (cs.foldl (fun n c => base * n + (hexDigitValue c).getD 0) 0 : ℕ)
  else none

def exponent : List Char → Option ℤ
  | '+' :: cs => (digits cs).map Int.ofNat
  | '-' :: cs => (digits cs).map fun n => -Int.ofNat n
  | cs => (digits cs).map Int.ofNat

def unsignedDecimal (cs : List Char) : Option ℚ :=
  let whole := cs.takeWhile Char.isDigit
  let rest := cs.dropWhile Char.isDigit
  let fraction := match rest with
    | '.' :: rest => rest.takeWhile Char.isDigit
    | _ => []
  let rest := match rest with
    | '.' :: rest => rest.dropWhile Char.isDigit
    | _ => rest
  (digits (whole ++ fraction)).bind fun n =>
    let mantissa : ℚ := n / 10 ^ fraction.length
    match rest with
    | [] => some mantissa
    | c :: rest => if c = 'e' ∨ c = 'E' then (exponent rest).map fun e => mantissa * 10 ^ e else none

def numericValue : List Char → Option ℚ
  | [] => some 0
  | '0' :: 'x' :: cs | '0' :: 'X' :: cs => digitsIn 16 cs
  | '0' :: 'o' :: cs | '0' :: 'O' :: cs => digitsIn 8 cs
  | '0' :: 'b' :: cs | '0' :: 'B' :: cs => digitsIn 2 cs
  | '+' :: cs => unsignedDecimal cs
  | '-' :: cs => (unsignedDecimal cs).map (- ·)
  | cs => unsignedDecimal cs

theorem unsignedDecimal_digits {cs : List Char} (hne : cs ≠ []) (hcs : ∀ c ∈ cs, c.isDigit = true) :
    unsignedDecimal cs = some (Nat.cast (Nat.ofDigitChars 10 cs 0)) := by
  have htake : cs.takeWhile Char.isDigit = cs := List.takeWhile_eq_self_iff.mpr hcs
  have hdrop : cs.dropWhile Char.isDigit = [] := List.dropWhile_eq_nil_iff.mpr hcs
  have hdigits : digits (cs ++ []) = some (Nat.ofDigitChars 10 cs 0) := by
    rw [List.append_nil, digits, if_pos ⟨hne, List.all_eq_true.mpr hcs⟩]
  simp only [unsignedDecimal, htake, hdrop, hdigits, Option.bind_some, List.length_nil, pow_zero, div_one]

/-- Digits spell what they stand for. -/
theorem numericValue_digits {cs : List Char} (hne : cs ≠ []) (hcs : ∀ c ∈ cs, c.isDigit = true) :
    numericValue cs = some (Nat.cast (Nat.ofDigitChars 10 cs 0)) := by
  unfold numericValue
  split
  case h_1 => exact absurd rfl hne
  case h_10 => exact unsignedDecimal_digits hne hcs
  all_goals exact absurd hcs (by simp [Char.isDigit])

/-! ## Integers -/

theorem toList_toString_natCast (n : ℕ) : (toString (n : ℤ)).toList = Nat.toDigits 10 n :=
  Nat.toList_repr

theorem toList_toString_negSucc (n : ℕ) : (toString (Int.negSucc n)).toList = '-' :: Nat.toDigits 10 (n + 1) := by
  show ("-" ++ (n + 1).repr).toList = _
  rw [String.toList_append, Nat.toList_repr]
  rfl

theorem isDigit_decimal {n : ℕ} : ∀ c ∈ Nat.toDigits 10 n, c.isDigit = true := fun _ hc =>
  Nat.isDigit_of_mem_toDigits (by decide) (by decide) hc

theorem toString_chars (n : ℤ) : ∀ c ∈ (toString n).toList, c = '-' ∨ c.isDigit = true := by
  intro c hc
  cases n with
  | ofNat n =>
      rw [Int.ofNat_eq_natCast, toList_toString_natCast] at hc
      exact Or.inr (isDigit_decimal c hc)
  | negSucc n =>
      rw [toList_toString_negSucc] at hc
      exact (List.mem_cons.mp hc).imp id (isDigit_decimal c)

/-- An integer is the number that its text spells. -/
theorem numericValue_toString (n : ℤ) : numericValue (toString n).toList = some (n : ℚ) := by
  cases n with
  | ofNat n =>
      rw [Int.ofNat_eq_natCast, toList_toString_natCast, numericValue_digits Nat.toDigits_ne_nil isDigit_decimal,
        Nat.ofDigitChars_ten_toDigits]
      rfl
  | negSucc n =>
      rw [toList_toString_negSucc]
      show (unsignedDecimal (Nat.toDigits 10 (n + 1))).map (- ·) = _
      rw [unsignedDecimal_digits Nat.toDigits_ne_nil isDigit_decimal, Nat.ofDigitChars_ten_toDigits, Option.map_some,
        Int.cast_negSucc]

end RedFireForge.Lib
