/-
# `RedFireForge.Lib.Run` — runs of a labelled transition function

A system is a partial function `next : L → S → Option S`: the label says what
the environment decides at this step (who moves, what an awaited operation
answers, which timer fires), and `none` that the step is not possible.  A run
is a list of labels.  Quantifying over every list of labels quantifies over
every interleaving, and a concrete run is a concrete list, so it evaluates.

A condition on runs is a predicate `ok : L → S → Prop` on a label and the
state BEFORE the step; `AllSteps` says that it holds at each step of a run.
`exec_invariant` is the induction rule every run property below is proved by.
-/
import Mathlib.Data.Nat.Notation
import Mathlib.Logic.Basic
import Mathlib.Tactic.Common

namespace RedFireForge.Lib

variable {S L : Type*}

/-- The state a run reaches, if all its steps are possible. -/
def exec (next : L → S → Option S) : S → List L → Option S
  | s, [] => some s
  | s, l :: ls => (next l s).bind (fun s' => exec next s' ls)

/-- Every step of the run meets `ok`, a condition on the label and the state
before the step. -/
def AllSteps (next : L → S → Option S) (ok : L → S → Prop) : S → List L → Prop
  | _, [] => True
  | s, l :: ls => ok l s ∧ ∀ s', next l s = some s' → AllSteps next ok s' ls

/-- Executability of the condition, so that a concrete run can be tested. -/
instance decAllSteps (next : L → S → Option S) (ok : L → S → Prop)
    [∀ l s, Decidable (ok l s)] : ∀ s ls, Decidable (AllSteps next ok s ls)
  | _, [] => isTrue trivial
  | s, l :: ls =>
      match h : next l s with
      | none =>
          decidable_of_iff (ok l s) ⟨fun hok => ⟨hok, fun _ hs => by rw [h] at hs; cases hs⟩,
            And.left⟩
      | some s' =>
          have := decAllSteps next ok s' ls
          decidable_of_iff (ok l s ∧ AllSteps next ok s' ls)
            ⟨fun hok => ⟨hok.1, fun t ht => by rw [h] at ht; cases ht; exact hok.2⟩,
              fun hok => ⟨hok.1, hok.2 s' h⟩⟩

@[simp] theorem exec_nil (next : L → S → Option S) (s : S) : exec next s [] = some s := rfl

theorem exec_cons {next : L → S → Option S} {s t : S} {l : L} {ls : List L} :
    exec next s (l :: ls) = some t ↔ ∃ s', next l s = some s' ∧ exec next s' ls = some t := by
  simp only [exec, Option.bind_eq_some_iff]

theorem exec_append {next : L → S → Option S} {ls ls' : List L} {s u : S} :
    exec next s (ls ++ ls') = some u ↔
      ∃ t, exec next s ls = some t ∧ exec next t ls' = some u := by
  induction ls generalizing s with
  | nil => simp [exec]
  | cons l ls ih =>
      simp only [List.cons_append, exec_cons, ih]
      constructor
      · rintro ⟨s', hs, t, ht, hu⟩
        exact ⟨t, ⟨s', hs, ht⟩, hu⟩
      · rintro ⟨t, ⟨s', hs, ht⟩, hu⟩
        exact ⟨s', hs, t, ht, hu⟩

/-- A condition on labels alone. -/
theorem allSteps_of_forall {next : L → S → Option S} {ok : L → Prop} {ls : List L} {s : S}
    (h : ∀ l ∈ ls, ok l) : AllSteps next (fun l _ => ok l) s ls := by
  induction ls generalizing s with
  | nil => trivial
  | cons l ls ih =>
      rw [List.forall_mem_cons] at h
      exact ⟨h.1, fun s' _ => ih h.2⟩

theorem allSteps_and {next : L → S → Option S} {ok ok' : L → S → Prop} {ls : List L} {s : S} :
    AllSteps next (fun l s => ok l s ∧ ok' l s) s ls ↔
      AllSteps next ok s ls ∧ AllSteps next ok' s ls := by
  induction ls generalizing s with
  | nil => simp [AllSteps]
  | cons l ls ih =>
      simp only [AllSteps, ih]
      constructor
      · rintro ⟨⟨hok, hok'⟩, hrest⟩
        exact ⟨⟨hok, fun s' hs => (hrest s' hs).1⟩, hok', fun s' hs => (hrest s' hs).2⟩
      · rintro ⟨⟨hok, hrest⟩, hok', hrest'⟩
        exact ⟨⟨hok, hok'⟩, fun s' hs => ⟨hrest s' hs, hrest' s' hs⟩⟩

/-- The last step of a run meets the condition in the state the run had reached. -/
theorem allSteps_last {next : L → S → Option S} {ok : L → S → Prop} {ls : List L} {l : L}
    {s t : S} (hok : AllSteps next ok s (ls ++ [l])) (hrun : exec next s ls = some t) :
    ok l t ∧ AllSteps next ok s ls := by
  induction ls generalizing s with
  | nil =>
      cases hrun
      exact ⟨hok.1, trivial⟩
  | cons l' ls ih =>
      obtain ⟨s', hs, hrest⟩ := exec_cons.mp hrun
      refine ⟨(ih (hok.2 s' hs) hrest).1, hok.1, fun u hu => ?_⟩
      rw [hs, Option.some.injEq] at hu
      exact hu ▸ (ih (hok.2 s' hs) hrest).2

/-- **The invariant rule**: what holds at the start and is preserved by every
step that meets the condition holds in every state such a run reaches. -/
theorem exec_invariant {next : L → S → Option S} {ok : L → S → Prop} {I : S → Prop}
    (hstep : ∀ l s s', I s → ok l s → next l s = some s' → I s') {ls : List L} {s t : S}
    (h0 : I s) (hok : AllSteps next ok s ls) (hrun : exec next s ls = some t) : I t := by
  induction ls generalizing s with
  | nil =>
      cases hrun
      exact h0
  | cons l ls ih =>
      obtain ⟨s', hs, hrest⟩ := exec_cons.mp hrun
      exact ih (hstep l s s' h0 hok.1 hs) (hok.2 s' hs) hrest

/-- What the invariant and the condition give at each step. -/
theorem allSteps_of_invariant {next : L → S → Option S} {ok ok' : L → S → Prop} {I : S → Prop}
    (hstep : ∀ l s s', I s → ok l s → next l s = some s' → I s')
    (hgives : ∀ l s, I s → ok l s → ok' l s) {ls : List L} {s : S} (h0 : I s)
    (hok : AllSteps next ok s ls) : AllSteps next ok' s ls := by
  induction ls generalizing s with
  | nil => trivial
  | cons l ls ih =>
      exact ⟨hgives l s h0 hok.1, fun s' hs => ih (hstep l s s' h0 hok.1 hs) (hok.2 s' hs)⟩

/-- The rule for a system all of whose steps preserve the invariant. -/
theorem exec_invariant' {next : L → S → Option S} {I : S → Prop}
    (hstep : ∀ l s s', I s → next l s = some s' → I s') {ls : List L} {s t : S}
    (h0 : I s) (hrun : exec next s ls = some t) : I t := by
  induction ls generalizing s with
  | nil =>
      cases hrun
      exact h0
  | cons l ls ih =>
      obtain ⟨s', hs, hrest⟩ := exec_cons.mp hrun
      exact ih (hstep l s s' h0 hs) hrest

/-- What a step that does not meet the condition breaks, and nothing repairs,
holds at the end of a run exactly if all its steps meet the condition. -/
theorem exec_iff_allSteps {next : L → S → Option S} {ok : L → S → Prop} {I P : S → Prop}
    (hstep : ∀ l s s', I s → next l s = some s' → I s' ∧ (P s' ↔ P s ∧ ok l s)) {ls : List L}
    {s t : S} (h0 : I s) (hrun : exec next s ls = some t) :
    P t ↔ P s ∧ AllSteps next ok s ls := by
  induction ls generalizing s with
  | nil =>
      cases hrun
      simp [AllSteps]
  | cons l ls ih =>
      obtain ⟨s', hs, hrest⟩ := exec_cons.mp hrun
      obtain ⟨hI, hP⟩ := hstep l s s' h0 hs
      have htail : (∀ u, next l s = some u → AllSteps next ok u ls) ↔ AllSteps next ok s' ls :=
        ⟨fun h => h s' hs, fun h u hu => by rw [hs, Option.some.injEq] at hu; exact hu ▸ h⟩
      rw [ih hI hrest, hP, AllSteps, htail, and_assoc]

/-- What a step that does not meet the condition breaks holds in every state of a run exactly
if all its steps meet the condition. -/
theorem exec_forall_iff {next : L → S → Option S} {ok : L → S → Prop} {I P : S → Prop}
    (hgives : ∀ s, I s → P s)
    (hstep : ∀ l s s', I s → next l s = some s' → (ok l s → I s') ∧ (P s' → ok l s)) {ls : List L}
    {s t : S} (h0 : I s) (hrun : exec next s ls = some t) :
    (∀ ls' u, ls' <+: ls → exec next s ls' = some u → P u) ↔ AllSteps next ok s ls := by
  induction ls generalizing s with
  | nil =>
      refine ⟨fun _ => trivial, fun _ ls' u hls' hu => ?_⟩
      rw [List.prefix_nil.mp hls'] at hu
      cases hu
      exact hgives _ h0
  | cons l ls ih =>
      obtain ⟨s', hs, hrest⟩ := exec_cons.mp hrun
      obtain ⟨hkeeps, hneeds⟩ := hstep l s s' h0 hs
      constructor
      · intro h
        have hok : ok l s := hneeds (h [l] s' ⟨ls, rfl⟩ (exec_cons.mpr ⟨s', hs, rfl⟩))
        refine ⟨hok, fun u hu => ?_⟩
        rw [hs, Option.some.injEq] at hu
        subst hu
        exact (ih (hkeeps hok) hrest).mp fun ls' u hls' hu =>
          h (l :: ls') u (List.cons_prefix_cons.mpr ⟨rfl, hls'⟩) (exec_cons.mpr ⟨s', hs, hu⟩)
      · intro hok ls' u hls' hu
        cases ls' with
        | nil =>
            cases hu
            exact hgives _ h0
        | cons l' ls' =>
            obtain ⟨rfl, htail⟩ := List.cons_prefix_cons.mp hls'
            obtain ⟨s'', hs'', hu⟩ := exec_cons.mp hu
            rw [hs, Option.some.injEq] at hs''
            subst hs''
            exact (ih (hkeeps hok.1) hrest).mpr (hok.2 s' hs) ls' u htail hu

/-- Two conditions that say the same while the invariant holds, which the one preserves. -/
theorem allSteps_iff {next : L → S → Option S} {ok ok' : L → S → Prop} {I : S → Prop}
    (hstep : ∀ l s s', I s → ok l s → next l s = some s' → I s')
    (hiff : ∀ l s, I s → (ok' l s ↔ ok l s)) {ls : List L} {s : S} (h0 : I s) :
    AllSteps next ok' s ls ↔ AllSteps next ok s ls := by
  induction ls generalizing s with
  | nil => exact Iff.rfl
  | cons l ls ih =>
      refine (and_congr_left fun _ => hiff l s h0).trans (and_congr_right fun hok => ?_)
      exact forall₂_congr fun s' hs => ih (hstep l s s' h0 hok hs)

/-- A measure that the steps counted lower, and no step raises, bounds their number. -/
theorem countP_le_of_measure {next : L → S → Option S} {ok : L → S → Prop} {I : S → Prop}
    (p : L → Bool) (μ : S → ℕ)
    (hstep : ∀ l s s', I s → ok l s → next l s = some s' →
      I s' ∧ μ s' ≤ μ s ∧ (p l = true → μ s' < μ s)) {ls : List L} {s t : S}
    (h0 : I s) (hok : AllSteps next ok s ls) (hrun : exec next s ls = some t) :
    ls.countP p + μ t ≤ μ s := by
  induction ls generalizing s with
  | nil =>
      cases hrun
      simp
  | cons l ls ih =>
      obtain ⟨s', hs, hrest⟩ := exec_cons.mp hrun
      obtain ⟨hI, hle, hlt⟩ := hstep l s s' h0 hok.1 hs
      have hrec := ih hI (hok.2 s' hs) hrest
      rw [List.countP_cons]
      split
      next hp =>
        have := hlt hp
        omega
      next => omega

/-- A measure that every allowed step lowers bounds the length of the run. -/
theorem length_le_of_measure {next : L → S → Option S} {ok : L → S → Prop} {I : S → Prop}
    (μ : S → ℕ) (hstep : ∀ l s s', I s → ok l s → next l s = some s' → I s' ∧ μ s' < μ s)
    {ls : List L} {s t : S} (h0 : I s) (hok : AllSteps next ok s ls)
    (hrun : exec next s ls = some t) : ls.length + μ t ≤ μ s := by
  have hcount := countP_le_of_measure (fun _ => true) μ (fun l s s' hI hl hs => by
    obtain ⟨hI', hlt⟩ := hstep l s s' hI hl hs
    exact ⟨hI', Nat.le_of_lt hlt, fun _ => hlt⟩) h0 hok hrun
  rwa [List.countP_true] at hcount

/-- Where runs are bounded and only a final state has no step, one is reached. -/
theorem exists_final {next : L → S → Option S} {ok : L → Prop} {F : S → Prop} {s : S} {n : ℕ}
    (hbound : ∀ ls t, (∀ l ∈ ls, ok l) → exec next s ls = some t → ls.length ≤ n)
    (hgo : ∀ ls t, (∀ l ∈ ls, ok l) → exec next s ls = some t →
      F t ∨ ∃ l t', ok l ∧ next l t = some t') :
    ∃ ls t, (∀ l ∈ ls, ok l) ∧ exec next s ls = some t ∧ F t := by
  by_contra hnone
  have hlong : ∀ m, ∃ ls t, (∀ l ∈ ls, ok l) ∧ exec next s ls = some t ∧ ls.length = m := by
    intro m
    induction m with
    | zero => exact ⟨[], s, by simp, rfl, rfl⟩
    | succ m ih =>
        obtain ⟨ls, t, hok, hrun, hlen⟩ := ih
        rcases hgo ls t hok hrun with hF | ⟨l, t', hl, hnext⟩
        · exact absurd ⟨ls, t, hok, hrun, hF⟩ hnone
        · refine ⟨ls ++ [l], t', fun x hx => ?_, ?_, by simp [hlen]⟩
          · rcases List.mem_append.mp hx with hx | hx
            · exact hok x hx
            · exact List.mem_singleton.mp hx ▸ hl
          · exact exec_append.mpr ⟨t, hrun, exec_cons.mpr ⟨t', hnext, rfl⟩⟩
  obtain ⟨ls, t, hok, hrun, hlen⟩ := hlong (n + 1)
  have := hbound ls t hok hrun
  omega

/-! ## Concrete runs -/

/-- A run that evaluates to a state with the property. -/
theorem exists_exec {next : L → S → Option S} {p : S → Prop} [DecidablePred p] {ls : List L}
    {s : S} (h : (exec next s ls).any (fun t => decide (p t)) = true) :
    ∃ t, exec next s ls = some t ∧ p t := by
  cases hrun : exec next s ls with
  | none => rw [hrun] at h; cases h
  | some t => exact ⟨t, rfl, by simpa [hrun] using h⟩

end RedFireForge.Lib
