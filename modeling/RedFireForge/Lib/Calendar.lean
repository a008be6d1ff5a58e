/-
# `RedFireForge.Lib.Calendar` — days, instants and their texts

Days are counted from the first of 1970, instants in milliseconds from its beginning, as
ECMAScript does.  An instant has one text, with three digits after the point; a text may have
any number of them.
-/
import Mathlib.Algebra.Group.Int.Defs
import Mathlib.Algebra.Group.Nat.Defs
import Mathlib.Data.Int.Notation
import Mathlib.Data.List.Basic
import Mathlib.Data.List.Induction
import Mathlib.Data.Nat.Notation
import Mathlib.Tactic.Common

namespace RedFireForge.Lib

/-! ## Days -/

def isLeapYear (y : ℤ) : Bool := decide (y % 4 = 0 ∧ (y % 100 ≠ 0 ∨ y % 400 = 0))

/-- The number of the first day of a year. -/
def dayFromYear (y : ℤ) : ℤ :=
  365 * (y - 1970) + (y - 1969) / 4 - (y - 1901) / 100 + (y - 1601) / 400

/-- The last year that begins by a day. -/
def yearFromDay (day : ℤ) : ℤ :=
  let y := 1970 + day * 400 / 146097
  if day < dayFromYear y then y - 1 else if dayFromYear (y + 1) ≤ day then y + 1 else y

/-- The days of a year before its month `m`, which counts from zero. -/
def monthStart (leap : Bool) (m : ℕ) : ℕ :=
  [0, 31, 59, 90, 120, 151, 181, 212, 243, 273, 304, 334, 365].getD m 365 + if leap ∧ 2 ≤ m then 1 else 0

def daysInMonth (leap : Bool) (m : ℕ) : ℕ := monthStart leap (m + 1) - monthStart leap m

/-- The month in which a day of the year is. -/
def monthOf (leap : Bool) (dayOfYear : ℕ) : ℕ :=
  (List.range 11).countP fun m => decide (monthStart leap (m + 1) ≤ dayOfYear)

/-- A day of the calendar; months and days count from zero. -/
structure CalendarDay where
  year : ℤ
  month : Fin 12
  day : ℕ
  valid : day < daysInMonth (isLeapYear year) month
deriving DecidableEq, Repr

def CalendarDay.number (d : CalendarDay) : ℤ :=
  dayFromYear d.year + monthStart (isLeapYear d.year) d.month + d.day

theorem dayFromYear_mono {y y' : ℤ} (h : y ≤ y') : dayFromYear y ≤ dayFromYear y' := by
  unfold dayFromYear
  omega

theorem yearFromDay_spec (day : ℤ) :
    dayFromYear (yearFromDay day) ≤ day ∧ day < dayFromYear (yearFromDay day + 1) := by
  unfold yearFromDay
  dsimp only
  split_ifs with h₁ h₂
  · refine ⟨?_, by rwa [Int.sub_add_cancel]⟩
    unfold dayFromYear at *
    omega
  · refine ⟨h₂, ?_⟩
    unfold dayFromYear at *
    omega
  · omega

theorem yearFromDay_eq {y day : ℤ} (hlow : dayFromYear y ≤ day) (hhigh : day < dayFromYear (y + 1)) :
    yearFromDay day = y := by
  obtain ⟨hlow', hhigh'⟩ := yearFromDay_spec day
  by_contra hne
  rcases Int.lt_or_gt_of_ne hne with h | h
  · have := dayFromYear_mono (show yearFromDay day + 1 ≤ y by omega)
    omega
  · have := dayFromYear_mono (show y + 1 ≤ yearFromDay day by omega)
    omega

theorem dayFromYear_succ (y : ℤ) : dayFromYear (y + 1) = dayFromYear y + monthStart (isLeapYear y) 12 := by
  have hlength : (monthStart (isLeapYear y) 12 : ℤ) = if y % 4 = 0 ∧ (y % 100 ≠ 0 ∨ y % 400 = 0) then 366 else 365 := by
    by_cases h : y % 4 = 0 ∧ (y % 100 ≠ 0 ∨ y % 400 = 0)
    · rw [if_pos h, isLeapYear, decide_eq_true h]
      rfl
    · rw [if_neg h, isLeapYear, decide_eq_false h]
      rfl
  rw [hlength]
  unfold dayFromYear
  split_ifs with h <;> omega

/-- The days of a month are those before the next one. -/
theorem monthStart_day (leap : Bool) (m : Fin 12) {d : ℕ} (hd : d < daysInMonth leap m) :
    monthStart leap m + d < monthStart leap 12 ∧ monthOf leap (monthStart leap m + d) = m := by
  have hall : ∀ leap : Bool, ∀ m : Fin 12, ∀ d : Fin 31, d.val < daysInMonth leap m →
      monthStart leap m + d < monthStart leap 12 ∧ monthOf leap (monthStart leap m + d) = m := by decide
  have hmonth : ∀ leap : Bool, ∀ m : Fin 12, daysInMonth leap m ≤ 31 := by decide
  exact hall leap m ⟨d, Nat.lt_of_lt_of_le hd (hmonth leap m)⟩ hd

theorem CalendarDay.year_number (d : CalendarDay) : yearFromDay d.number = d.year := by
  have hbefore := (monthStart_day (isLeapYear d.year) d.month d.valid).1
  refine yearFromDay_eq ?_ ?_
  · unfold number
    omega
  · rw [dayFromYear_succ, number]
    omega

/-! ## Digits -/

/-- The last `k` decimal digits. -/
def padDigits : ℕ → ℕ → List Char
  | 0, _ => []
  | k + 1, n => padDigits k (n / 10) ++ [Nat.digitChar (n % 10)]

theorem length_padDigits (k n : ℕ) : (padDigits k n).length = k := by
  induction k generalizing n with
  | zero => rfl
  | succ k ih => rw [padDigits, List.length_append, ih, List.length_singleton]

theorem isDigit_digitChar {d : ℕ} (hd : d < 10) : (Nat.digitChar d).isDigit = true := by
  revert d
  decide

theorem isDigit_padDigits (k n : ℕ) : ∀ c ∈ padDigits k n, c.isDigit = true := by
  induction k generalizing n with
  | zero => exact fun _ h => absurd h List.not_mem_nil
  | succ k ih =>
      intro c hc
      rcases List.mem_append.mp hc with hc | hc
      · exact ih _ c hc
      · rw [List.mem_singleton.mp hc]
        exact isDigit_digitChar (Nat.mod_lt n (by decide))

theorem ofDigitChars_padDigits (k n : ℕ) : Nat.ofDigitChars 10 (padDigits k n) 0 = n % 10 ^ k := by
  induction k generalizing n with
  | zero => rw [padDigits, Nat.pow_zero, Nat.mod_one]; rfl
  | succ k ih =>
      rw [padDigits, Nat.ofDigitChars_append, ih, Nat.ofDigitChars_cons_digitChar_of_lt_ten (Nat.mod_lt n (by decide)),
        Nat.ofDigitChars_nil, Nat.pow_succ, Nat.mul_comm (10 ^ k) 10, Nat.mod_mul]
      omega

/-! ## Instants and their texts -/

/-- `YYYY`, and with a sign and six digits where four are not enough. -/
def yearText (y : ℤ) : List Char :=
  if 0 ≤ y ∧ y ≤ 9999 then padDigits 4 y.toNat
  else (if y < 0 then '-' else '+') :: padDigits 6 y.natAbs

def dateText (day : ℤ) : List Char :=
  let y := yearFromDay day
  let dayOfYear := (day - dayFromYear y).toNat
  let m := monthOf (isLeapYear y) dayOfYear
  yearText y ++ '-' :: (padDigits 2 (m + 1) ++ '-' :: padDigits 2 (dayOfYear - monthStart (isLeapYear y) m + 1))

/-- The time of a day, and digits after the point. -/
def timeText (hour minute second : ℕ) : List Char :=
  'T' :: (padDigits 2 hour ++ ':' :: (padDigits 2 minute ++ ':' :: padDigits 2 second))

/-- `YYYY-MM-DDTHH:mm:ss.sssZ` -/
def isoText (ms : ℤ) : List Char :=
  let t := (ms % 86400000).toNat
  dateText (ms / 86400000) ++ timeText (t / 3600000) (t / 60000 % 60) (t / 1000 % 60) ++
    '.' :: (padDigits 3 (t % 1000) ++ ['Z'])

/-- A time in UTC, with any digits after the point. -/
structure UtcTime where
  date : CalendarDay
  years : 0 ≤ date.year ∧ date.year ≤ 9999
  hour : Fin 24
  minute : Fin 60
  second : Fin 60
  fraction : List (Fin 10)
deriving DecidableEq, Repr

namespace UtcTime

def fractionDigits (t : UtcTime) : List Char := t.fraction.map fun d => Nat.digitChar d.val

def fractionText (t : UtcTime) : List Char :=
  if t.fraction = [] then [] else '.' :: t.fractionDigits

def text (t : UtcTime) : List Char :=
  dateText t.date.number ++ timeText t.hour t.minute t.second ++ (t.fractionText ++ ['Z'])

/-- Of the digits after the point, three. -/
def thousandths (t : UtcTime) : ℕ :=
  Nat.ofDigitChars 10 ((t.fractionDigits ++ ['0', '0', '0']).take 3) 0

def instant (t : UtcTime) : ℤ :=
  t.date.number * 86400000 + (t.hour * 3600000 + t.minute * 60000 + t.second * 1000 + t.thousandths : ℕ)

end UtcTime

/-! ### Reading -/

def readDigits (k : ℕ) (cs : List Char) : Option (ℕ × List Char) :=
  if (cs.take k).length = k ∧ (cs.take k).all Char.isDigit then some (Nat.ofDigitChars 10 (cs.take k) 0, cs.drop k)
  else none

def readChar (c : Char) : List Char → Option (List Char)
  | [] => none
  | d :: cs => if d = c then some cs else none

/-- The digits after a point, and what follows them. -/
def readFraction : List Char → Option (List Char × List Char)
  | '.' :: cs => if cs.takeWhile Char.isDigit = [] then none else some (cs.takeWhile Char.isDigit, cs.dropWhile Char.isDigit)
  | cs => some ([], cs)

def calendarDay (y m d : ℕ) : Option CalendarDay :=
  if hm : 1 ≤ m ∧ m ≤ 12 then
    if hd : 1 ≤ d ∧ d - 1 < daysInMonth (isLeapYear y) (m - 1) then
      some ⟨y, ⟨m - 1, by omega⟩, d - 1, hd.2⟩
    else none
  else none

/-- `YYYY-MM-DDTHH:mm:ss`, a fraction of any length, and `Z`; of the fraction three digits count. -/
def isoInstant (cs : List Char) : Option ℤ := do
  let (y, cs) ← readDigits 4 cs
  let cs ← readChar '-' cs
  let (m, cs) ← readDigits 2 cs
  let cs ← readChar '-' cs
  let (d, cs) ← readDigits 2 cs
  let cs ← readChar 'T' cs
  let (hour, cs) ← readDigits 2 cs
  let cs ← readChar ':' cs
  let (minute, cs) ← readDigits 2 cs
  let cs ← readChar ':' cs
  let (second, cs) ← readDigits 2 cs
  let (fraction, cs) ← readFraction cs
  let date ← calendarDay y m d
  if hour < 24 ∧ minute < 60 ∧ second < 60 ∧ cs = ['Z'] then
    some (date.number * 86400000 + (hour * 3600000 + minute * 60000 + second * 1000 +
      Nat.ofDigitChars 10 ((fraction ++ ['0', '0', '0']).take 3) 0 : ℕ))
  else none

theorem readDigits_padDigits (k n : ℕ) (cs : List Char) : readDigits k (padDigits k n ++ cs) = some (n % 10 ^ k, cs) := by
  have hlength := length_padDigits k n
  have htake : (padDigits k n ++ cs).take k = padDigits k n := by
    rw [List.take_append_of_le_length (by omega), List.take_of_length_le (by omega)]
  have hdrop : (padDigits k n ++ cs).drop k = cs := by
    rw [List.drop_append_of_le_length (by omega), List.drop_of_length_le (by omega), List.nil_append]
  rw [readDigits, htake, if_pos ⟨hlength, List.all_eq_true.mpr (isDigit_padDigits k n)⟩, ofDigitChars_padDigits, hdrop]

theorem readChar_cons (c : Char) (cs : List Char) : readChar c (c :: cs) = some cs := if_pos rfl

namespace UtcTime

variable {t : UtcTime}

theorem isDigit_fraction (t : UtcTime) : ∀ c ∈ t.fractionDigits, c.isDigit = true := by
  intro c hc
  obtain ⟨d, -, rfl⟩ := List.mem_map.mp hc
  exact isDigit_digitChar d.isLt

theorem readFraction_text (t : UtcTime) :
    readFraction (t.fractionText ++ ['Z']) = some (t.fractionDigits, ['Z']) := by
  unfold fractionText
  split
  next h =>
    rw [fractionDigits, h]
    rfl
  next h =>
    have hdigits := isDigit_fraction t
    have htake : (t.fractionDigits ++ ['Z']).takeWhile Char.isDigit = t.fractionDigits := by
      rw [List.takeWhile_append_of_pos hdigits]
      exact List.append_nil _
    have hdrop : (t.fractionDigits ++ ['Z']).dropWhile Char.isDigit = ['Z'] := by
      rw [List.dropWhile_append_of_pos hdigits]
      rfl
    rw [List.cons_append, readFraction, htake, hdrop, if_neg (by simpa [fractionDigits] using h)]

/-- The text of the day that is written. -/
theorem dateText_number (d : CalendarDay) (hyear : 0 ≤ d.year ∧ d.year ≤ 9999) : dateText d.number =
    padDigits 4 d.year.toNat ++ '-' :: (padDigits 2 (d.month + 1) ++ '-' :: padDigits 2 (d.day + 1)) := by
  have hday : (d.number - dayFromYear d.year).toNat = monthStart (isLeapYear d.year) d.month + d.day := by
    unfold CalendarDay.number
    omega
  rw [dateText, d.year_number, hday, (monthStart_day (isLeapYear d.year) d.month d.valid).2, yearText, if_pos hyear,
    Nat.add_sub_cancel_left]

theorem calendarDay_eq (d : CalendarDay) (hyear : 0 ≤ d.year) :
    calendarDay d.year.toNat (d.month + 1) (d.day + 1) = some d := by
  obtain ⟨y, m, day, valid⟩ := d
  obtain ⟨n, rfl⟩ := Int.eq_ofNat_of_zero_le hyear
  have hm : m.val + 1 ≤ 12 := m.isLt
  rw [calendarDay, dif_pos ⟨by omega, hm⟩]
  exact dif_pos ⟨by omega, by simpa using valid⟩

/-- A time is read back. -/
theorem isoInstant_text (t : UtcTime) : isoInstant t.text = some t.instant := by
  obtain ⟨hlow, hhigh⟩ := t.years
  have hyear : t.date.year.toNat % 10 ^ 4 = t.date.year.toNat := Nat.mod_eq_of_lt (by omega)
  have hmonth : (t.date.month + 1 : ℕ) % 10 ^ 2 = t.date.month + 1 := Nat.mod_eq_of_lt (by omega)
  have hdays : daysInMonth (isLeapYear t.date.year) t.date.month ≤ 31 := by
    have hall : ∀ leap : Bool, ∀ m : Fin 12, daysInMonth leap m ≤ 31 := by decide
    exact hall _ _
  have hday : (t.date.day + 1) % 10 ^ 2 = t.date.day + 1 := by
    have := t.date.valid
    exact Nat.mod_eq_of_lt (by omega)
  have hhour : (t.hour : ℕ) % 10 ^ 2 = t.hour := Nat.mod_eq_of_lt (by omega)
  have hminute : (t.minute : ℕ) % 10 ^ 2 = t.minute := Nat.mod_eq_of_lt (by omega)
  have hsecond : (t.second : ℕ) % 10 ^ 2 = t.second := Nat.mod_eq_of_lt (by omega)
  rw [isoInstant, text, dateText_number t.date t.years, timeText]
  simp only [List.append_assoc, List.cons_append, Option.bind_eq_bind]
  -- the parts are read one after the other, each with the mark before it
  rw [readDigits_padDigits, Option.bind_some]
  dsimp only
  rw [readChar_cons, Option.bind_some, readDigits_padDigits, Option.bind_some]
  dsimp only
  rw [readChar_cons, Option.bind_some, readDigits_padDigits, Option.bind_some]
  dsimp only
  rw [readChar_cons, Option.bind_some, readDigits_padDigits, Option.bind_some]
  dsimp only
  rw [readChar_cons, Option.bind_some, readDigits_padDigits, Option.bind_some]
  dsimp only
  rw [readChar_cons, Option.bind_some, readDigits_padDigits, Option.bind_some]
  dsimp only
  rw [readFraction_text, hyear, hmonth, hday, hhour, hminute, hsecond, Option.bind_some]
  dsimp only
  rw [calendarDay_eq t.date hlow, Option.bind_some]
  rw [if_pos ⟨t.hour.isLt, t.minute.isLt, t.second.isLt, rfl⟩]
  rfl

/-- With three digits after the point, the text is the one of the instant. -/
theorem isoText_instant (h : t.fraction.length = 3) : isoText t.instant = t.text := by
  obtain ⟨a, b, c, habc⟩ := List.length_eq_three.mp h
  have hdigits : t.fractionDigits = [Nat.digitChar a, Nat.digitChar b, Nat.digitChar c] := by
    rw [fractionDigits, habc]
    rfl
  have hthousandths : t.thousandths = 100 * a + 10 * b + c := by
    rw [thousandths, hdigits]
    show Nat.ofDigitChars 10 [Nat.digitChar a, Nat.digitChar b, Nat.digitChar c] 0 = _
    rw [Nat.ofDigitChars_cons_digitChar_of_lt_ten a.isLt, Nat.ofDigitChars_cons_digitChar_of_lt_ten b.isLt,
      Nat.ofDigitChars_cons_digitChar_of_lt_ten c.isLt, Nat.ofDigitChars_nil]
    omega
  have hfraction : padDigits 3 (100 * a + 10 * b + c) = t.fractionDigits := by
    rw [hdigits, padDigits, padDigits, padDigits, padDigits, show (100 * a + 10 * b + c : ℕ) % 10 = c by omega,
      show (100 * a + 10 * b + c : ℕ) / 10 % 10 = b by omega, show (100 * a + 10 * b + c : ℕ) / 10 / 10 % 10 = a by omega]
    rfl
  have hday : t.instant / 86400000 = t.date.number := by
    unfold instant
    omega
  obtain ⟨r, hr⟩ : ∃ r, (t.instant % 86400000).toNat = r := ⟨_, rfl⟩
  have htime : r = t.hour * 3600000 + t.minute * 60000 + t.second * 1000 + (100 * a + 10 * b + c) := by
    rw [← hr]
    unfold instant
    omega
  have hne : t.fraction ≠ [] := by
    rw [habc]
    exact List.cons_ne_nil _ _
  rw [isoText, hday, hr, text, fractionText, if_neg hne, List.cons_append, ← hfraction,
    show r / 3600000 = t.hour by omega, show r / 60000 % 60 = t.minute by omega,
    show r / 1000 % 60 = t.second by omega, show r % 1000 = 100 * a + 10 * b + c by omega]

end UtcTime

/-! ## Bounds -/

theorem ofDigitChars_lt {cs : List Char} (h : ∀ c ∈ cs, c.isDigit = true) :
    Nat.ofDigitChars 10 cs 0 < 10 ^ cs.length := by
  induction cs using List.reverseRecOn with
  | nil => exact Nat.one_pos
  | append_singleton cs c ih =>
      have hrest := ih fun d hd => h d (List.mem_append_left _ hd)
      have hlast : c.toNat ≤ 57 := by
        have hc := h c (List.mem_append_right _ (List.mem_singleton_self c))
        simp only [Char.isDigit, Bool.and_eq_true, decide_eq_true_eq, UInt32.le_iff_toNat_le] at hc
        exact hc.2
      rw [Nat.ofDigitChars_append, Nat.ofDigitChars_cons, Nat.ofDigitChars_nil, List.length_append,
        List.length_singleton, Nat.pow_succ]
      show 10 * _ + (c.toNat - 48) < _
      omega

theorem UtcTime.thousandths_lt (t : UtcTime) : t.thousandths < 1000 := by
  have hdigits : ∀ c ∈ (t.fractionDigits ++ ['0', '0', '0']).take 3, c.isDigit = true := by
    intro c hc
    rcases List.mem_append.mp (List.mem_of_mem_take hc) with hc | hc
    · exact t.isDigit_fraction c hc
    · obtain rfl : c = '0' := by simpa using hc
      rfl
  have hlength : ((t.fractionDigits ++ ['0', '0', '0']).take 3).length = 3 := by
    rw [List.length_take, List.length_append]
    exact Nat.min_eq_left (Nat.le_add_left 3 _)
  have hlt := ofDigitChars_lt hdigits
  rwa [hlength] at hlt

theorem UtcTime.instant_bounds (t : UtcTime) : -10 ^ 15 ≤ t.instant ∧ t.instant ≤ 10 ^ 15 := by
  obtain ⟨hlow, hhigh⟩ := t.years
  have hday := (monthStart_day (isLeapYear t.date.year) t.date.month t.date.valid).1
  have hyear : ∀ leap, monthStart leap 12 ≤ 366 := by decide
  have hlength := hyear (isLeapYear t.date.year)
  have hthousandths := t.thousandths_lt
  have hnumber : -800000 ≤ t.date.number ∧ t.date.number ≤ 4000000 := by
    unfold CalendarDay.number dayFromYear
    omega
  have hhour := t.hour.isLt
  have hminute := t.minute.isLt
  have hsecond := t.second.isLt
  unfold instant
  omega

theorem digit_ne_point {c : Char} (h : c.isDigit = true) : c ≠ '.' := by
  rintro rfl
  cases h

theorem point_not_mem_timeText (hour minute second : ℕ) : '.' ∉ timeText hour minute second := by
  intro h
  simp only [timeText, List.mem_cons, List.mem_append] at h
  rcases h with h | h | h | h | h | h
  · cases h
  · exact digit_ne_point (isDigit_padDigits _ _ _ h) rfl
  · cases h
  · exact digit_ne_point (isDigit_padDigits _ _ _ h) rfl
  · cases h
  · exact digit_ne_point (isDigit_padDigits _ _ _ h) rfl

theorem point_not_mem_dateText (day : ℤ) : '.' ∉ dateText day := by
  have hyear : ∀ y, '.' ∉ yearText y := by
    intro y h
    unfold yearText at h
    split at h
    · exact digit_ne_point (isDigit_padDigits _ _ _ h) rfl
    · rcases List.mem_cons.mp h with h | h
      · split at h <;> cases h
      · exact digit_ne_point (isDigit_padDigits _ _ _ h) rfl
  intro h
  simp only [dateText, List.mem_cons, List.mem_append] at h
  rcases h with h | h | h | h | h
  · exact hyear _ h
  · cases h
  · exact digit_ne_point (isDigit_padDigits _ _ _ h) rfl
  · cases h
  · exact digit_ne_point (isDigit_padDigits _ _ _ h) rfl

/-- Only with three digits after the point is a text the one of an instant. -/
theorem UtcTime.length_fraction {t : UtcTime} {ms : ℤ} (h : t.text = isoText ms) : t.fraction.length = 3 := by
  have hpoint : ∀ (day : ℤ) (hour minute second : ℕ) (rest : List Char),
      (dateText day ++ timeText hour minute second ++ rest).dropWhile (· != '.') = rest.dropWhile (· != '.') := by
    intro day hour minute second rest
    refine List.dropWhile_append_of_pos fun c hc => ?_
    rw [bne_iff_ne]
    rintro rfl
    exact (List.mem_append.mp hc).elim (point_not_mem_dateText day) (point_not_mem_timeText hour minute second)
  have hrest := congrArg (List.dropWhile (· != '.')) h
  rw [text, isoText, hpoint, hpoint] at hrest
  by_cases hne : t.fraction = []
  · rw [fractionText, if_pos hne] at hrest
    cases hrest
  · rw [fractionText, if_neg hne] at hrest
    have hdigits : t.fractionDigits ++ ['Z'] = padDigits 3 ((ms % 86400000).toNat % 1000) ++ ['Z'] :=
      (List.cons.inj hrest).2
    have hlength := congrArg List.length hdigits
    rw [List.length_append, List.length_append, length_padDigits, fractionDigits, List.length_map] at hlength
    exact Nat.add_right_cancel hlength

end RedFireForge.Lib
