/-
# `RedFireForge.Lib.FirstFit` — items that take the first slot that fits

Each item takes, in its turn, the first of the slots that fit it and are free.  Where every item
finds one, each has a slot of its own; but an item may find all of its slots taken though the items
could be spread otherwise.
-/
import Mathlib.Data.List.Induction
import Mathlib.Data.List.Nodup
import Mathlib.Data.Nat.Find

namespace RedFireForge.Lib

variable {ρ : Type} {Fits : ρ → ℕ → Prop} {rows rows' : List ρ} {used used' : List ℕ} {r : ρ}

/-- Every item has a slot of its own. -/
def Assignable (Fits : ρ → ℕ → Prop) (rows : List ρ) : Prop :=
  ∃ slot : ρ → ℕ, (∀ r ∈ rows, Fits r (slot r)) ∧ ∀ r ∈ rows, ∀ r' ∈ rows, slot r = slot r' → r = r'

/-- The slots that the items take, the last one first. -/
inductive FirstFit (Fits : ρ → ℕ → Prop) : List ρ → List ℕ → Prop
  | nil : FirstFit Fits [] []
  | snoc {rows : List ρ} {r : ρ} {used : List ℕ} {i : ℕ} :
      FirstFit Fits rows used → Fits r i → i ∉ used → (∀ j < i, Fits r j → j ∈ used) →
        FirstFit Fits (rows ++ [r]) (i :: used)

/-- An item finds all slots taken that fit it. -/
def Blocked (Fits : ρ → ℕ → Prop) (rows : List ρ) : Prop :=
  ∃ before r after used, rows = before ++ r :: after ∧ FirstFit Fits before used ∧ ∀ i, Fits r i → i ∈ used

namespace FirstFit

theorem snoc_iff : FirstFit Fits (rows ++ [r]) used' ↔ ∃ used i, used' = i :: used ∧
    FirstFit Fits rows used ∧ Fits r i ∧ i ∉ used ∧ ∀ j < i, Fits r j → j ∈ used := by
  constructor
  · intro h
    generalize hrows : rows ++ [r] = rows' at h
    cases h with
    | nil => exact absurd hrows (List.append_ne_nil_of_right_ne_nil _ (List.cons_ne_nil _ _))
    | snoc hused hfits hfree hfirst =>
        obtain ⟨rfl, hr⟩ := List.append_inj' hrows rfl
        obtain rfl := List.head_eq_of_cons_eq hr
        exact ⟨_, _, rfl, hused, hfits, hfree, hfirst⟩
  · rintro ⟨used, i, rfl, hused, hfits, hfree, hfirst⟩
    exact .snoc hused hfits hfree hfirst

/-- There is one way. -/
theorem unique (h : FirstFit Fits rows used) (h' : FirstFit Fits rows used') : used = used' := by
  induction h generalizing used' with
  | nil =>
      generalize hnil : ([] : List ρ) = rows at h'
      cases h' with
      | nil => rfl
      | snoc => simp at hnil
  | @snoc _ _ _ i hused hfits hfree hfirst ih =>
      obtain ⟨used', i', rfl, hused', hfits', hfree', hfirst'⟩ := snoc_iff.mp h'
      obtain rfl := ih hused'
      rcases Nat.lt_trichotomy i i' with hlt | rfl | hlt
      · exact absurd (hfirst' _ hlt hfits) hfree
      · rfl
      · exact absurd (hfirst _ hlt hfits') hfree'

/-- The items before another one take their slots without it. -/
theorem before (h : FirstFit Fits (rows ++ rows') used') : ∃ used, FirstFit Fits rows used := by
  induction rows' using List.reverseRecOn generalizing used' with
  | nil => exact ⟨used', by rwa [List.append_nil] at h⟩
  | append_singleton rows' r ih =>
      rw [← List.append_assoc] at h
      obtain ⟨used, i, -, hused, -⟩ := snoc_iff.mp h
      exact ih hused

/-- Whoever takes a slot in its turn has one of its own. -/
theorem assignable (hnodup : rows.Nodup) (h : FirstFit Fits rows used) : Assignable Fits rows := by
  suffices hslot : ∃ slot : ρ → ℕ, (∀ r ∈ rows, Fits r (slot r) ∧ slot r ∈ used) ∧
      ∀ r ∈ rows, ∀ r' ∈ rows, slot r = slot r' → r = r' by
    obtain ⟨slot, hfits, hinj⟩ := hslot
    exact ⟨slot, fun r hr => (hfits r hr).1, hinj⟩
  classical
  induction h with
  | nil => exact ⟨fun _ => 0, fun _ hr => absurd hr List.not_mem_nil, fun _ hr => absurd hr List.not_mem_nil⟩
  | @snoc rows r used i hused hfits hfree hfirst ih =>
      rw [List.nodup_append] at hnodup
      obtain ⟨slot, hslot, hinj⟩ := ih hnodup.1
      have hr : r ∉ rows := fun hmem => hnodup.2.2 r hmem r List.mem_cons_self rfl
      have hother {r' : ρ} (hr' : r' ∈ rows) : Function.update slot r i r' = slot r' :=
        Function.update_of_ne (ne_of_mem_of_not_mem hr' hr) i slot
      have hself : Function.update slot r i r = i := Function.update_self r i slot
      refine ⟨Function.update slot r i, fun r' hr' => ?_, fun r' hr' r'' hr'' heq => ?_⟩
      · rcases List.mem_append.mp hr' with hmem | hmem
        · rw [hother hmem]
          exact ⟨(hslot r' hmem).1, List.mem_cons_of_mem i (hslot r' hmem).2⟩
        · rw [List.mem_singleton.mp hmem, hself]
          exact ⟨hfits, List.mem_cons_self⟩
      · rcases List.mem_append.mp hr' with hmem | hmem <;> rcases List.mem_append.mp hr'' with hmem' | hmem'
        · rw [hother hmem, hother hmem'] at heq
          exact hinj r' hmem r'' hmem' heq
        · rw [hother hmem, List.mem_singleton.mp hmem', hself] at heq
          exact absurd (heq ▸ (hslot r' hmem).2) hfree
        · rw [hother hmem', List.mem_singleton.mp hmem, hself] at heq
          exact absurd (heq ▸ (hslot r'' hmem').2) hfree
        · exact (List.mem_singleton.mp hmem).trans (List.mem_singleton.mp hmem').symm

end FirstFit

/-- Either every item takes a slot, or one is blocked. -/
theorem firstFit_or_blocked (Fits : ρ → ℕ → Prop) (rows : List ρ) : (∃ used, FirstFit Fits rows used) ∨ Blocked Fits rows := by
  classical
  induction rows using List.reverseRecOn with
  | nil => exact .inl ⟨[], .nil⟩
  | append_singleton rows r ih =>
      rcases ih with ⟨used, hused⟩ | ⟨before, r', after, used, rfl, hused, hblocked⟩
      · by_cases hfree : ∃ i, Fits r i ∧ i ∉ used
        · obtain ⟨hfits, hnew⟩ := Nat.find_spec hfree
          refine .inl ⟨_, .snoc hused hfits hnew fun j hj hfits => ?_⟩
          exact Classical.byContradiction fun hnot => Nat.find_min hfree hj ⟨hfits, hnot⟩
        · refine .inr ⟨rows, r, [], used, rfl, hused, fun i hi => ?_⟩
          exact Classical.byContradiction fun hnot => hfree ⟨i, hi, hnot⟩
      · exact .inr ⟨before, r', after ++ [r], used, by simp, hused, hblocked⟩

theorem not_firstFit_of_blocked (h : Blocked Fits rows) : ¬ FirstFit Fits rows used := by
  obtain ⟨before, r, after, taken, rfl, htaken, hblocked⟩ := h
  intro hused
  rw [List.append_cons] at hused
  obtain ⟨used', hused'⟩ := hused.before
  obtain ⟨used'', i, -, hbefore, hfits, hfree, -⟩ := FirstFit.snoc_iff.mp hused'
  exact hfree (htaken.unique hbefore ▸ hblocked i hfits)

/-! ## Searched among the free slots -/

section Search

variable {n i : ℕ} {p : ℕ → Bool}

theorem find?_free_eq_some : ((List.range n).filter (· ∉ used)).find? p = some i ↔
    (i < n ∧ i ∉ used ∧ p i = true) ∧ ∀ j < i, p j = true → j ∈ used := by
  rw [List.find?_filter, List.find?_range_eq_some]
  simp only [decide_eq_true_eq, List.mem_range, Bool.not_eq_true', decide_eq_false_iff_not, not_and]
  constructor
  · rintro ⟨⟨hfree, hp⟩, hi, hfirst⟩
    exact ⟨⟨hi, hfree, hp⟩, fun j hj hpj => Classical.byContradiction fun hused => hfirst j hj hused hpj⟩
  · rintro ⟨⟨hi, hfree, hp⟩, hfirst⟩
    exact ⟨⟨hfree, hp⟩, hi, fun j hj hused hpj => hused (hfirst j hj hpj)⟩

theorem find?_free_eq_none : ((List.range n).filter (· ∉ used)).find? p = none ↔
    ∀ i < n, p i = true → i ∈ used := by
  rw [List.find?_filter, List.find?_range_eq_none]
  refine forall₂_congr fun i _ => ?_
  simp only [decide_eq_true_eq, Bool.not_eq_true', decide_eq_false_iff_not, not_and]
  exact ⟨fun h hp => Classical.byContradiction fun hused => h hused hp, fun h hused hp => hused (h hp)⟩

end Search

end RedFireForge.Lib
