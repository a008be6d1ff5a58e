/-
# `RedFireForge.Lib.Hex` — bytes and their hexadecimal text

Bytes are written with two small digits each.  The reader takes large digits, too, and stops
at the first pair that is none.
-/
import RedFireForge.Lib.Json

namespace RedFireForge.Lib

def hexText (bytes : List UInt8) : List Char :=
  bytes.flatMap fun b => [Json.hexDigit (b.toNat / 16), Json.hexDigit (b.toNat % 16)]

def hexDigitValue (c : Char) : Option ℕ :=
  if c.isDigit then some (c.toNat - 48)
  else if 'a' ≤ c ∧ c ≤ 'f' then some (c.toNat - 87)
  else if 'A' ≤ c ∧ c ≤ 'F' then some (c.toNat - 55)
  else none

def isHexDigit (c : Char) : Bool := (hexDigitValue c).isSome

def hexDecode : List Char → List UInt8
  | h :: l :: cs =>
      match hexDigitValue h, hexDigitValue l with
      | some a, some b => UInt8.ofNat (16 * a + b) :: hexDecode cs
      | _, _ => []
  | _ => []

/-! ## Digits -/

theorem hexDigitValue_spec (c : Char) : hexDigitValue c.toLower = hexDigitValue c ∧
    ∀ a, hexDigitValue c = some a → a < 16 ∧ Json.hexDigit a = c.toLower := by
  by_cases hc : c.toNat < 128
  · refine Json.forall_char_lt (P := fun c => hexDigitValue c.toLower = hexDigitValue c ∧
      ∀ a, hexDigitValue c = some a → a < 16 ∧ Json.hexDigit a = c.toLower) ?_ hc
    intro n hn
    interval_cases n <;> exact ⟨by decide, fun a ha => by cases ha <;> decide⟩
  · have hlower : c.toLower = c := by
      refine dif_neg fun h => hc ?_
      have hz : c.val.toNat ≤ 90 := UInt32.le_iff_toNat_le.mp h.2
      exact Nat.lt_of_le_of_lt hz (by decide)
    have hnone : hexDigitValue c = none := by
      have hbound : ∀ d : Char, d.toNat < 128 → ¬ c ≤ d := by
        intro d hd hle
        have hle : c.val.toNat ≤ d.val.toNat := UInt32.le_iff_toNat_le.mp hle
        exact hc (Nat.lt_of_le_of_lt hle hd)
      have hdigit : c.isDigit = false := by
        rw [Bool.eq_false_iff]
        intro h
        simp only [Char.isDigit, Bool.and_eq_true, decide_eq_true_iff] at h
        exact hbound '9' (by decide) h.2
      unfold hexDigitValue
      rw [hdigit, if_neg Bool.false_ne_true, if_neg fun h => hbound 'f' (by decide) h.2,
        if_neg fun h => hbound 'F' (by decide) h.2]
    rw [hlower, hnone]
    exact ⟨rfl, nofun⟩

theorem toLower_of_isDigit {c : Char} (h : c.isDigit = true) : c.toLower = c := by
  refine dif_neg fun hupper => ?_
  simp only [Char.isDigit, Bool.and_eq_true, decide_eq_true_eq, ge_iff_le, UInt32.le_iff_toNat_le] at h
  have hfirst : 'A'.val.toNat ≤ c.val.toNat := UInt32.le_iff_toNat_le.mp hupper.1
  exact absurd (hfirst.trans h.2) (by decide)

theorem isHexDigit_range {c : Char} (h : isHexDigit c = true) :
    (48 ≤ c.toNat ∧ c.toNat ≤ 57) ∨ (97 ≤ c.toNat ∧ c.toNat ≤ 102) ∨ (65 ≤ c.toNat ∧ c.toNat ≤ 70) := by
  unfold isHexDigit hexDigitValue at h
  split at h
  next hc =>
    simp only [Char.isDigit, Bool.and_eq_true, decide_eq_true_eq, ge_iff_le, UInt32.le_iff_toNat_le] at hc
    exact Or.inl hc
  next =>
    split at h
    next hc => exact Or.inr (Or.inl ⟨UInt32.le_iff_toNat_le.mp hc.1, UInt32.le_iff_toNat_le.mp hc.2⟩)
    next =>
      split at h
      next hc => exact Or.inr (Or.inr ⟨UInt32.le_iff_toNat_le.mp hc.1, UInt32.le_iff_toNat_le.mp hc.2⟩)
      next => cases h

theorem hexDigitValue_hexDigit {a : ℕ} (ha : a < 16) : hexDigitValue (Json.hexDigit a) = some a := by
  interval_cases a <;> rfl

/-! ## Texts -/

theorem length_hexText (bytes : List UInt8) : (hexText bytes).length = 2 * bytes.length := by
  induction bytes with
  | nil => rfl
  | cons b bytes ih =>
      show (hexText bytes).length + 2 = 2 * (bytes.length + 1)
      rw [ih]
      omega

theorem hexDecode_hexText (bytes : List UInt8) : hexDecode (hexText bytes) = bytes := by
  induction bytes with
  | nil => rfl
  | cons b bytes ih =>
      have hb := b.toNat_lt
      show hexDecode (Json.hexDigit _ :: Json.hexDigit _ :: hexText bytes) = _
      simp only [hexDecode, hexDigitValue_hexDigit (show b.toNat / 16 < 16 by omega),
        hexDigitValue_hexDigit (Nat.mod_lt b.toNat (by decide : 16 > 0)), ih, Nat.div_add_mod,
        UInt8.ofNat_toNat]

theorem hexDecode_toLower (cs : List Char) : hexDecode (cs.map Char.toLower) = hexDecode cs := by
  fun_induction hexDecode cs with
  | case1 h l cs a b hb ha ih =>
      simp only [List.map_cons, hexDecode, (hexDigitValue_spec _).1, ha, hb, ih]
  | case2 h l cs hnot =>
      simp only [List.map_cons, hexDecode, (hexDigitValue_spec _).1]
  | case3 cs hshort =>
      match cs with
      | [] => rfl
      | [c] => rfl
      | h :: l :: cs => exact absurd rfl (hshort h l cs)

/-- Digits in pairs are all read. -/
theorem hexText_hexDecode (cs : List Char) : 2 * (hexDecode cs).length ≤ cs.length ∧
    (2 * (hexDecode cs).length = cs.length →
      (∀ c ∈ cs, isHexDigit c = true) ∧ hexText (hexDecode cs) = cs.map Char.toLower) ∧
    ((∀ c ∈ cs, isHexDigit c = true) → cs.length % 2 = 0 → 2 * (hexDecode cs).length = cs.length) := by
  fun_induction hexDecode cs with
  | case1 h l cs a b hb ha ih =>
      obtain ⟨hle, hall, hlength⟩ := ih
      obtain ⟨ha16, hah⟩ := (hexDigitValue_spec h).2 a ha
      obtain ⟨hb16, hbl⟩ := (hexDigitValue_spec l).2 b hb
      refine ⟨by simp only [List.length_cons]; omega, fun heq => ?_, fun hdigits heven => ?_⟩
      · obtain ⟨hdigits, htext⟩ := hall (by simp only [List.length_cons] at heq; omega)
        refine ⟨?_, ?_⟩
        · simp only [List.forall_mem_cons, isHexDigit, ha, hb, Option.isSome_some]
          exact ⟨trivial, trivial, hdigits⟩
        · have hbyte : (UInt8.ofNat (16 * a + b)).toNat = 16 * a + b := UInt8.toNat_ofNat_of_lt' (by
            show _ < 256
            omega)
          show Json.hexDigit _ :: Json.hexDigit _ :: hexText (hexDecode cs) = _
          rw [htext, hbyte, show (16 * a + b) / 16 = a by omega, show (16 * a + b) % 16 = b by omega, hah, hbl]
          rfl
      · simp only [List.length_cons] at heven ⊢
        have := hlength (fun c hc => hdigits c (by simp [hc])) (by omega)
        omega
  | case2 h l cs hnot =>
      refine ⟨Nat.zero_le _, fun heq => (nomatch heq), fun hdigits => ?_⟩
      have hh := hdigits h (by simp)
      have hl := hdigits l (by simp)
      obtain ⟨a, ha⟩ := Option.isSome_iff_exists.mp hh
      obtain ⟨b, hb⟩ := Option.isSome_iff_exists.mp hl
      exact absurd hb (hnot a b ha)
  | case3 cs hshort =>
      match cs with
      | [] => exact ⟨Nat.le_refl _, fun _ => ⟨nofun, rfl⟩, fun _ _ => rfl⟩
      | [c] => exact ⟨Nat.zero_le _, nofun, fun _ heven => (nomatch heven)⟩
      | h :: l :: cs => exact absurd rfl (hshort h l cs)

end RedFireForge.Lib
