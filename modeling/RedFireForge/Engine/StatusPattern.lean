/-
# `RedFireForge.Engine.StatusPattern` — which status patterns are decided

A pattern that is no number, no range and no class is cut at its commas, and its parts are
patterns again.  A part without a comma is cut into itself, so that the recursion has no end
there; only a part before it that matches keeps it from being reached.
-/
import RedFireForge.ApiMock.JsonPath
import RedFireForge.Lib.Text

namespace RedFireForge.Engine.StatusPattern

open RedFireForge.Lib
open RedFireForge.ApiMock (isSpace trim)

/-! ## The code -/

/-- `/^\d+$/` -/
def isNumber (p : List Char) : Bool := p ≠ [] && p.all Char.isDigit

/-- The ends of a text that `/^\d+\s*-\s*\d+$/` matches. -/
def rangeOf (p : List Char) : Option (ℕ × ℕ) :=
  let lo := p.takeWhile Char.isDigit
  match (p.dropWhile Char.isDigit).dropWhile isSpace with
  | '-' :: rest =>
      let hi := rest.dropWhile isSpace
      if lo ≠ [] ∧ isNumber hi = true then some (Nat.ofDigitChars 10 lo 0, Nat.ofDigitChars 10 hi 0) else none
  | _ => none

/-- The digit of a text that `/^\dxx$/i` matches. -/
def classOf : List Char → Option ℕ
  | [d, x, y] =>
      if d.isDigit ∧ (x = 'x' ∨ x = 'X') ∧ (y = 'x' ∨ y = 'X') then some (Nat.ofDigitChars 10 [d] 0) else none
  | _ => none

/-- `none` as long as there is no result. -/
def matchesStatusPattern : ℕ → ℕ → List Char → Option Bool
  | 0, _, _ => none
  | fuel + 1, httpStatus, pattern =>
      let p := trim pattern
      if isNumber p then some (decide (httpStatus = Nat.ofDigitChars 10 p 0))
      else
        match rangeOf p with
        | some (lo, hi) => some (decide (lo ≤ httpStatus ∧ httpStatus ≤ hi))
        | none =>
            match classOf p with
            | some classDigit => some (decide (httpStatus / 100 = classDigit))
            | none => (p.splitOn ',').anyM (matchesStatusPattern fuel httpStatus)

/-! ## What is wanted -/

inductive StatusElement
  | number (n : ℕ)
  | range (lo hi : ℕ)
  | statusClass (digit : ℕ)
deriving DecidableEq, Repr

def StatusElement.Holds (httpStatus : ℕ) : StatusElement → Prop
  | .number n => httpStatus = n
  | .range lo hi => lo ≤ httpStatus ∧ httpStatus ≤ hi
  | .statusClass digit => httpStatus / 100 = digit

instance (httpStatus : ℕ) (e : StatusElement) : Decidable (e.Holds httpStatus) := by
  cases e <;> unfold StatusElement.Holds <;> infer_instance

/-- An element of a pattern, with the blanks around it. -/
def elementOf (s : List Char) : Option StatusElement :=
  let p := trim s
  if isNumber p then some (.number (Nat.ofDigitChars 10 p 0))
  else ((rangeOf p).map fun (lo, hi) => .range lo hi).orElse fun _ => (classOf p).map .statusClass

def elements (pattern : List Char) : List (List Char) := (trim pattern).splitOn ','

def Matches (httpStatus : ℕ) (s : List Char) : Prop := ∃ e, elementOf s = some e ∧ e.Holds httpStatus

/-- There is a result, and it says whether an element matches. -/
def Decided (httpStatus : ℕ) (pattern : List Char) : Prop :=
  ∃ fuel b, matchesStatusPattern fuel httpStatus pattern = some b ∧
    (b = true ↔ ∃ s ∈ elements pattern, Matches httpStatus s)

/-- Before an element that is no number, no range and no class there is one that matches. -/
def Guarded (httpStatus : ℕ) (l : List (List Char)) : Prop :=
  ∀ before s after, l = before ++ s :: after → elementOf s = none → ∃ s' ∈ before, Matches httpStatus s'

/-! ## Single elements -/

section Elements

variable {httpStatus fuel : ℕ} {s : List Char} {l : List (List Char)} {e : StatusElement}

theorem trim_trim (cs : List Char) : trim (trim cs) = trim cs := trimBy_trimBy

theorem elementOf_trim (cs : List Char) : elementOf (trim cs) = elementOf cs := by
  rw [elementOf, elementOf, trim_trim]

/-- An element has a result of its own. -/
theorem matches_element (h : elementOf s = some e) :
    matchesStatusPattern (fuel + 1) httpStatus s = some (decide (e.Holds httpStatus)) := by
  rw [elementOf] at h
  rw [matchesStatusPattern]
  dsimp only at h ⊢
  split at h
  next hnumber =>
    rw [if_pos hnumber, ← Option.some.inj h]
    rfl
  next hnumber =>
    rw [if_neg hnumber]
    cases hrange : rangeOf (trim s) with
    | some r =>
        rw [hrange] at h
        rw [← Option.some.inj h]
        rfl
    | none =>
        rw [hrange] at h
        cases hclass : classOf (trim s) with
        | some d =>
            rw [hclass] at h
            rw [← Option.some.inj h]
            rfl
        | none =>
            rw [hclass] at h
            cases h

theorem matches_other (h : elementOf s = none) : matchesStatusPattern (fuel + 1) httpStatus s =
    ((trim s).splitOn ',').anyM (matchesStatusPattern fuel httpStatus) := by
  rw [elementOf] at h
  rw [matchesStatusPattern]
  dsimp only at h ⊢
  split at h
  next => cases h
  next hnumber =>
    rw [if_neg hnumber]
    cases hrange : rangeOf (trim s) with
    | some r =>
        rw [hrange] at h
        cases h
    | none =>
        rw [hrange] at h
        cases hclass : classOf (trim s) with
        | some d =>
            rw [hclass] at h
            cases h
        | none => rfl

/-- An element of no kind is cut into itself, again and again. -/
theorem matches_none (hcomma : ',' ∉ s) (h : elementOf s = none) (fuel : ℕ) :
    matchesStatusPattern fuel httpStatus s = none := by
  induction fuel generalizing s with
  | zero => rfl
  | succ fuel ih =>
      have htrim : ',' ∉ trim s := fun hmem => hcomma (List.Sublist.subset trimBy_sublist hmem)
      rw [matches_other h, List.splitOn_eq_singleton htrim, List.anyM_cons, ih htrim (by rw [elementOf_trim, h])]
      rfl

/-- More fuel leaves a result as it is. -/
theorem matches_mono {b : Bool} (h : matchesStatusPattern fuel httpStatus s = some b) :
    matchesStatusPattern (fuel + 1) httpStatus s = some b := by
  induction fuel generalizing s b with
  | zero => cases h
  | succ fuel ih =>
      cases hs : elementOf s with
      | some e =>
          rw [matches_element hs] at h ⊢
          exact h
      | none =>
          rw [matches_other hs] at h ⊢
          revert h
          generalize (trim s).splitOn ',' = parts
          intro h
          induction parts with
          | nil => exact h
          | cons s' l ihl =>
              rw [List.anyM_cons] at h ⊢
              cases hs' : matchesStatusPattern fuel httpStatus s' with
              | none =>
                  rw [hs'] at h
                  cases h
              | some b' =>
                  rw [hs'] at h
                  rw [ih hs']
                  cases b' with
                  | true => exact h
                  | false => exact ihl h

/-! ## Lists of elements -/

theorem guarded_nil : Guarded httpStatus [] := by
  intro before s after h
  cases before <;> cases h

theorem guarded_cons : Guarded httpStatus (s :: l) ↔ elementOf s ≠ none ∧ (Matches httpStatus s ∨ Guarded httpStatus l) := by
  constructor
  · intro h
    have hs : elementOf s ≠ none := by
      intro hnone
      obtain ⟨_, hmem, -⟩ := h [] s l rfl hnone
      exact absurd hmem List.not_mem_nil
    refine ⟨hs, or_iff_not_imp_left.mpr fun hmatch before s' after hl hnone => ?_⟩
    obtain ⟨s'', hmem, hs''⟩ := h (s :: before) s' after (by rw [hl]; rfl) hnone
    rcases List.mem_cons.mp hmem with rfl | hmem
    · exact absurd hs'' hmatch
    · exact ⟨s'', hmem, hs''⟩
  · rintro ⟨hs, hrest⟩ before s' after hl hnone
    cases before with
    | nil =>
        rw [List.nil_append, List.cons.injEq] at hl
        exact absurd (hl.1 ▸ hnone) hs
    | cons s₀ before =>
        rw [List.cons_append, List.cons.injEq] at hl
        rcases hrest with hmatch | hguarded
        · exact ⟨s₀, List.mem_cons_self, hl.1 ▸ hmatch⟩
        · obtain ⟨s'', hmem, hs''⟩ := hguarded before s' after hl.2 hnone
          exact ⟨s'', List.mem_cons_of_mem _ hmem, hs''⟩

theorem matches_iff (h : elementOf s = some e) : Matches httpStatus s ↔ e.Holds httpStatus :=
  ⟨fun ⟨_, he, hholds⟩ => Option.some.inj (h.symm.trans he) ▸ hholds, fun hholds => ⟨e, h, hholds⟩⟩

/-- Guarded elements have a result together. -/
theorem anyM_of_guarded (hguarded : Guarded httpStatus l) :
    ∃ b, l.anyM (matchesStatusPattern (fuel + 1) httpStatus) = some b ∧ (b = true ↔ ∃ s ∈ l, Matches httpStatus s) := by
  induction l with
  | nil => exact ⟨false, rfl, by simp⟩
  | cons s l ih =>
      obtain ⟨hs, hrest⟩ := guarded_cons.mp hguarded
      obtain ⟨e, he⟩ := Option.ne_none_iff_exists'.mp hs
      rw [List.anyM_cons, matches_element he]
      by_cases hholds : e.Holds httpStatus
      · rw [decide_eq_true hholds]
        exact ⟨true, rfl, iff_of_true rfl ⟨s, List.mem_cons_self, e, he, hholds⟩⟩
      · rw [decide_eq_false hholds]
        have hmatch : ¬ Matches httpStatus s := fun h => hholds ((matches_iff he).mp h)
        obtain ⟨b, hb, hiff⟩ := ih (hrest.resolve_left hmatch)
        refine ⟨b, hb, hiff.trans ?_⟩
        simp only [List.mem_cons, exists_eq_or_imp, hmatch, false_or]

/-- Elements that have a result together are guarded. -/
theorem guarded_of_anyM {b : Bool} (hcomma : ∀ s ∈ l, ',' ∉ s)
    (h : l.anyM (matchesStatusPattern fuel httpStatus) = some b) : Guarded httpStatus l := by
  induction l with
  | nil => exact guarded_nil
  | cons s l ih =>
      rw [List.forall_mem_cons] at hcomma
      rw [List.anyM_cons] at h
      cases hs : elementOf s with
      | none =>
          rw [matches_none hcomma.1 hs] at h
          cases h
      | some e =>
          refine guarded_cons.mpr ⟨by rw [hs]; exact Option.some_ne_none e, ?_⟩
          cases fuel with
          | zero => cases h
          | succ fuel =>
              rw [matches_element hs] at h
              by_cases hholds : e.Holds httpStatus
              · exact Or.inl ((matches_iff hs).mpr hholds)
              · rw [decide_eq_false hholds] at h
                exact Or.inr (ih hcomma.2 h)

end Elements

/-! ## Patterns -/

section Patterns

variable {httpStatus : ℕ} {pattern : List Char}

theorem elements_no_comma : ∀ s ∈ elements pattern, ',' ∉ s := fun _ hs => notMem_of_mem_splitOn hs

theorem isNumber_no_comma {p : List Char} (h : isNumber p = true) : ',' ∉ p := by
  simp only [isNumber, Bool.and_eq_true, List.all_eq_true] at h
  exact fun hmem => absurd (h.2 _ hmem) (by decide)

theorem rangeOf_no_comma {p : List Char} {r : ℕ × ℕ} (h : rangeOf p = some r) : ',' ∉ p := by
  intro hmem
  have hrest : ',' ∈ (p.dropWhile Char.isDigit).dropWhile isSpace := mem_dropWhile (mem_dropWhile hmem rfl) rfl
  rw [rangeOf] at h
  dsimp only at h
  split at h
  next rest heq =>
    split at h
    next hends =>
      rw [heq, List.mem_cons] at hrest
      have hhi : ',' ∈ rest.dropWhile isSpace := mem_dropWhile (hrest.resolve_left (by decide)) rfl
      exact isNumber_no_comma hends.2 hhi
    next => cases h
  next => cases h

theorem classOf_no_comma {p : List Char} {d : ℕ} (h : classOf p = some d) : ',' ∉ p := by
  unfold classOf at h
  split at h
  next d x y =>
    split at h
    next hchars =>
      obtain ⟨hd, hx, hy⟩ := hchars
      simp only [List.mem_cons, List.not_mem_nil, or_false, not_or]
      refine ⟨?_, ?_, ?_⟩
      · rintro rfl
        cases hd
      · rcases hx with rfl | rfl <;> decide
      · rcases hy with rfl | rfl <;> decide
    next => cases h
  next => cases h

/-- A number, a range or a class has no comma. -/
theorem elementOf_no_comma {e : StatusElement} (h : elementOf pattern = some e) : ',' ∉ trim pattern := by
  rw [elementOf] at h
  dsimp only at h
  split at h
  next hnumber => exact isNumber_no_comma hnumber
  next =>
    cases hrange : rangeOf (trim pattern) with
    | some r => exact rangeOf_no_comma hrange
    | none =>
        rw [hrange] at h
        cases hclass : classOf (trim pattern) with
        | some d => exact classOf_no_comma hclass
        | none =>
            rw [hclass] at h
            cases h

/-- A result is there after a recursion into the elements. -/
theorem matches_of_guarded (h : Guarded httpStatus (elements pattern)) :
    ∃ b, matchesStatusPattern 2 httpStatus pattern = some b ∧ (b = true ↔ ∃ s ∈ elements pattern, Matches httpStatus s) := by
  cases hp : elementOf pattern with
  | none =>
      obtain ⟨b, hb, hiff⟩ := @anyM_of_guarded httpStatus 0 _ h
      exact ⟨b, by rw [matches_other hp]; exact hb, hiff⟩
  | some e =>
      have helements : elements pattern = [trim pattern] := List.splitOn_eq_singleton (elementOf_no_comma hp)
      refine ⟨_, matches_element hp, ?_⟩
      rw [helements, decide_eq_true_iff, ← matches_iff (by rw [elementOf_trim, hp])]
      simp

theorem decided_of_guarded (h : Guarded httpStatus (elements pattern)) : Decided httpStatus pattern := by
  obtain ⟨b, hb, hiff⟩ := matches_of_guarded h
  exact ⟨2, b, hb, hiff⟩

theorem guarded_of_matches {fuel : ℕ} {b : Bool} (hb : matchesStatusPattern fuel httpStatus pattern = some b) :
    Guarded httpStatus (elements pattern) := by
  cases hp : elementOf pattern with
  | some e =>
      have helements : elements pattern = [trim pattern] := List.splitOn_eq_singleton (elementOf_no_comma hp)
      rw [helements]
      exact guarded_cons.mpr ⟨by rw [elementOf_trim, hp]; exact Option.some_ne_none e, Or.inr guarded_nil⟩
  | none =>
      cases fuel with
      | zero => cases hb
      | succ fuel =>
          rw [matches_other hp] at hb
          exact guarded_of_anyM elements_no_comma hb

theorem guarded_of_decided (h : Decided httpStatus pattern) : Guarded httpStatus (elements pattern) := by
  obtain ⟨fuel, b, hb, -⟩ := h
  exact guarded_of_matches hb

/-- With enough fuel there is a result exactly where the pattern is guarded. -/
theorem matches_isSome_iff {fuel : ℕ} (hfuel : 2 ≤ fuel) :
    (∃ b, matchesStatusPattern fuel httpStatus pattern = some b) ↔ Guarded httpStatus (elements pattern) := by
  constructor
  · rintro ⟨b, hb⟩
    exact guarded_of_matches hb
  · intro h
    obtain ⟨b, hb, -⟩ := matches_of_guarded h
    refine ⟨b, ?_⟩
    induction fuel, hfuel using Nat.le_induction with
    | base => exact hb
    | succ fuel _ ih => exact matches_mono ih

/-- A pattern is decided exactly if every element that is no number, no range and no class
comes after one that matches. -/
theorem matchesStatusPattern_iff (httpStatus : ℕ) (pattern : List Char) :
    Decided httpStatus pattern ↔ Guarded httpStatus (elements pattern) :=
  ⟨guarded_of_decided, decided_of_guarded⟩

/-- With a comma at its end a pattern is decided only for what it matches before. -/
theorem trailing_comma_undecided : ¬ Decided 404 ['2', '0', '0', ','] := by
  intro h
  obtain ⟨s, hs, e, he, hholds⟩ := guarded_of_decided h [['2', '0', '0']] [] [] (by decide) (by decide)
  obtain rfl := List.mem_singleton.mp hs
  have he' : elementOf ['2', '0', '0'] = some (.number 200) := by decide
  obtain rfl := Option.some.inj (he'.symm.trans he)
  exact absurd hholds (by decide)

end Patterns

end RedFireForge.Engine.StatusPattern
