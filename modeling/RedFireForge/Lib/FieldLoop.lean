/-
# `RedFireForge.Lib.FieldLoop` — a loop that changes an object field by field

An object is a list of keys with their values; of two entries of one key the first counts.  A
step of the loop reads and writes the keys of its own field only.  So, where no two fields
share a key, the steps do to the object what each of them would do to it alone.
-/
import Mathlib.Data.Nat.Notation
import Mathlib.Tactic.Common

namespace RedFireForge.Lib

variable {κ α φ ε : Type*} [DecidableEq κ]

/-- `o[k] = v` -/
def putKey : List (κ × α) → κ → α → List (κ × α)
  | [], k, v => [(k, v)]
  | (k', w) :: o, k, v => if k' = k then (k, v) :: o else (k', w) :: putKey o k v

/-- `delete o[k]` -/
def dropKey (o : List (κ × α)) (k : κ) : List (κ × α) := o.filter fun e => decide (e.1 ≠ k)

/-- `Object.entries(o)` -/
def ownEntries : List (κ × α) → List (κ × α)
  | [] => []
  | e :: o => e :: dropKey (ownEntries o) e.1

section Keys

variable {o : List (κ × α)} {k k' : κ} {v : α}

theorem lookup_putKey : (putKey o k v).lookup k' = if k' = k then some v else o.lookup k' := by
  induction o with
  | nil =>
      rw [putKey, List.lookup_cons]
      by_cases h : k' = k
      · rw [if_pos h, h, beq_self_eq_true]
      · rw [if_neg h, beq_false_of_ne h]
  | cons e o ih =>
      obtain ⟨a, w⟩ := e
      rw [putKey]
      split
      next ha =>
        subst ha
        rw [List.lookup_cons, List.lookup_cons]
        by_cases h : k' = a
        · rw [if_pos h, h, beq_self_eq_true]
        · rw [if_neg h, beq_false_of_ne h]
      next ha =>
        rw [List.lookup_cons, List.lookup_cons, ih]
        by_cases h : k' = a
        · subst h
          simp [ha]
        · rw [beq_false_of_ne h]

theorem lookup_dropKey : (dropKey o k).lookup k' = if k' = k then none else o.lookup k' := by
  induction o with
  | nil => rw [dropKey, List.filter_nil, List.lookup_nil, ite_self]
  | cons e o ih =>
      obtain ⟨a, w⟩ := e
      rw [dropKey, List.filter_cons]
      split
      next ha =>
        rw [decide_eq_true_eq] at ha
        rw [List.lookup_cons, List.lookup_cons, ← dropKey, ih]
        by_cases h : k' = a
        · subst h
          simp [ha]
        · rw [beq_false_of_ne h]
      next ha =>
        obtain rfl : a = k := by simpa using ha
        rw [← dropKey, ih, List.lookup_cons]
        by_cases h : k' = a
        · rw [if_pos h, if_pos h]
        · rw [if_neg h, if_neg h, beq_false_of_ne h]

theorem mem_of_lookup (h : o.lookup k = some v) : (k, v) ∈ o := by
  induction o with
  | nil => cases h
  | cons e o ih =>
      obtain ⟨a, w⟩ := e
      rw [List.lookup_cons] at h
      by_cases ha : k = a
      · rw [ha, beq_self_eq_true] at h
        rw [ha, ← Option.some.inj h]
        exact List.mem_cons_self
      · rw [beq_false_of_ne ha] at h
        exact List.mem_cons_of_mem _ (ih h)

theorem lookup_of_mem (hnodup : (o.map Prod.fst).Nodup) (h : (k, v) ∈ o) : o.lookup k = some v := by
  induction o with
  | nil => exact absurd h List.not_mem_nil
  | cons e o ih =>
      obtain ⟨a, w⟩ := e
      rw [List.map_cons, List.nodup_cons] at hnodup
      rw [List.lookup_cons]
      rcases List.mem_cons.mp h with heq | hmem
      · obtain ⟨rfl, rfl⟩ := Prod.mk.inj heq
        rw [beq_self_eq_true]
      · have hne : k ≠ a := by
          rintro rfl
          exact hnodup.1 (List.mem_map.mpr ⟨_, hmem, rfl⟩)
        rw [beq_false_of_ne hne]
        exact ih hnodup.2 hmem

theorem lookup_ownEntries : (ownEntries o).lookup k = o.lookup k := by
  induction o with
  | nil => rfl
  | cons e o ih =>
      obtain ⟨a, w⟩ := e
      rw [ownEntries, List.lookup_cons, List.lookup_cons, lookup_dropKey, ih]
      by_cases h : k = a
      · rw [h, beq_self_eq_true]
      · rw [beq_false_of_ne h, if_neg h]

theorem nodup_ownEntries (o : List (κ × α)) : ((ownEntries o).map Prod.fst).Nodup := by
  induction o with
  | nil => exact List.nodup_nil
  | cons e o ih =>
      rw [ownEntries, List.map_cons, List.nodup_cons]
      refine ⟨fun h => ?_, ih.sublist (List.filter_sublist.map _)⟩
      obtain ⟨x, hx, hxe⟩ := List.mem_map.mp h
      have hne := (List.mem_filter.mp hx).2
      rw [hxe] at hne
      exact of_decide_eq_true hne rfl

theorem mem_ownEntries : (k, v) ∈ ownEntries o ↔ o.lookup k = some v := by
  constructor
  · intro h
    rw [← lookup_ownEntries]
    exact lookup_of_mem (nodup_ownEntries o) h
  · intro h
    rw [← lookup_ownEntries] at h
    exact mem_of_lookup h

theorem lookup_map_snd {β : Type*} (f : α → β) :
    (o.map fun e => (e.1, f e.2)).lookup k = (o.lookup k).map f := by
  induction o with
  | nil => rfl
  | cons e o ih =>
      rw [List.map_cons, List.lookup_cons, List.lookup_cons, ih]
      cases k == e.1 <;> rfl

end Keys

/-! ## Steps that keep to their keys -/

structure KeepsTo (step : List (κ × α) → φ → Except ε (List (κ × α))) (keys : φ → κ → Prop) : Prop where
  /-- other keys stay -/
  frame : ∀ o f r k, step o f = .ok r → ¬ keys f k → r.lookup k = o.lookup k
  /-- and have no influence -/
  local' : ∀ o o' f r, (∀ k, keys f k → o.lookup k = o'.lookup k) → step o f = .ok r →
    ∃ r', step o' f = .ok r' ∧ ∀ k, keys f k → r'.lookup k = r.lookup k

variable {step : List (κ × α) → φ → Except ε (List (κ × α))} {keys : φ → κ → Prop} {o r : List (κ × α)}
  {fs : List φ}

omit [DecidableEq κ] in
theorem foldlM_cons_ok {f : φ} : (f :: fs).foldlM step o = .ok r ↔
    ∃ o', step o f = .ok o' ∧ fs.foldlM step o' = .ok r := by
  rw [List.foldlM_cons]
  cases step o f with
  | error e => exact ⟨nofun, fun ⟨_, h, _⟩ => nomatch h⟩
  | ok o' => exact ⟨fun h => ⟨o', rfl, h⟩, fun ⟨_, h, hr⟩ => Except.ok.inj h ▸ hr⟩

/-- The loop succeeds if every step does. -/
theorem loop_ok (h : KeepsTo step keys) (hdisjoint : fs.Pairwise fun f g => ∀ k, keys f k → ¬ keys g k)
    (hok : ∀ f ∈ fs, ∃ r, step o f = .ok r) : ∃ r, fs.foldlM step o = .ok r := by
  induction fs generalizing o with
  | nil => exact ⟨o, rfl⟩
  | cons f fs ih =>
      rw [List.pairwise_cons] at hdisjoint
      rw [List.forall_mem_cons] at hok
      obtain ⟨o', ho'⟩ := hok.1
      have hrest : ∀ g ∈ fs, ∃ r, step o' g = .ok r := by
        intro g hg
        obtain ⟨r, hr⟩ := hok.2 g hg
        have hsame : ∀ k, keys g k → o.lookup k = o'.lookup k := fun k hk =>
          (h.frame o f o' k ho' fun hf => hdisjoint.1 g hg k hf hk).symm
        obtain ⟨r', hr', -⟩ := h.local' o o' g r hsame hr
        exact ⟨r', hr'⟩
      obtain ⟨r, hr⟩ := ih hdisjoint.2 hrest
      exact ⟨r, foldlM_cons_ok.mpr ⟨o', ho', hr⟩⟩

/-- Each key is as the step of its field leaves it. -/
theorem loop_result (h : KeepsTo step keys) (hdisjoint : fs.Pairwise fun f g => ∀ k, keys f k → ¬ keys g k)
    (hr : fs.foldlM step o = .ok r) :
    (∀ f ∈ fs, ∃ r', step o f = .ok r' ∧ ∀ k, keys f k → r.lookup k = r'.lookup k) ∧
      ∀ k, (∀ f ∈ fs, ¬ keys f k) → r.lookup k = o.lookup k := by
  induction fs generalizing o with
  | nil =>
      obtain rfl : o = r := Except.ok.inj hr
      exact ⟨fun f hf => absurd hf List.not_mem_nil, fun k _ => rfl⟩
  | cons f fs ih =>
      rw [List.pairwise_cons] at hdisjoint
      obtain ⟨o', ho', hr⟩ := foldlM_cons_ok.mp hr
      obtain ⟨hsteps, hframe⟩ := ih hdisjoint.2 hr
      refine ⟨?_, fun k hk => ?_⟩
      · rw [List.forall_mem_cons]
        refine ⟨⟨o', ho', fun k hk => ?_⟩, fun g hg => ?_⟩
        · exact hframe k fun g hg => hdisjoint.1 g hg k hk
        · obtain ⟨r', hr', hkeys⟩ := hsteps g hg
          have hsame : ∀ k, keys g k → o'.lookup k = o.lookup k := fun k hk =>
            h.frame o f o' k ho' fun hf => hdisjoint.1 g hg k hf hk
          obtain ⟨r'', hr'', hkeys'⟩ := h.local' o' o g r' hsame hr'
          exact ⟨r'', hr'', fun k hk => (hkeys k hk).trans (hkeys' k hk).symm⟩
      · rw [List.forall_mem_cons] at hk
        exact (hframe k hk.2).trans (h.frame o f o' k ho' hk.1)

end RedFireForge.Lib
