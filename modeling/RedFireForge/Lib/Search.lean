/-
# `RedFireForge.Lib.Search` — all that is reached from a start

The search with a stack and the set of what has been seen.  Within a finite list it needs no
more steps than there is to see, and it sees what one or more steps lead to.
-/
import Mathlib.Data.Finset.Card
import Mathlib.Logic.Relation

namespace RedFireForge.Lib

variable {α : Type} [DecidableEq α]

/-- What is seen, and the stack. -/
def visit (s : List α × List α) (a : α) : List α × List α :=
  if a ∈ s.1 then s else (s.1 ++ [a], a :: s.2)

/-- `while` the stack is not empty; the fuel is the number of rounds. -/
def search (next : α → List α) : ℕ → List α → List α → List α
  | 0, _, seen => seen
  | _ + 1, [], seen => seen
  | fuel + 1, a :: stack, seen =>
      let s := (next a).foldl visit (seen, stack)
      search next fuel s.2 s.1

variable {next : α → List α} {a b : α} {S as seen stack : List α} {fuel : ℕ}

/-- A round puts what is new on both. -/
theorem foldl_visit (hseen : seen.Nodup) : ∃ fresh : List α,
    as.foldl visit (seen, stack) = (seen ++ fresh, fresh.reverse ++ stack) ∧
      (seen ++ fresh).Nodup ∧ (∀ b ∈ fresh, b ∈ as) ∧ ∀ b ∈ as, b ∈ seen ++ fresh := by
  induction as generalizing seen stack with
  | nil => exact ⟨[], by simpa using hseen⟩
  | cons a as ih =>
      rw [List.foldl_cons]
      by_cases ha : a ∈ seen
      · rw [visit, if_pos ha]
        obtain ⟨fresh, heq, hnodup, hfrom, hall⟩ := @ih seen stack hseen
        refine ⟨fresh, heq, hnodup, fun b hb => List.mem_cons_of_mem _ (hfrom b hb), ?_⟩
        exact List.forall_mem_cons.mpr ⟨List.mem_append_left _ ha, hall⟩
      · rw [visit, if_neg ha]
        have hseen' : (seen ++ [a]).Nodup := by
          rw [List.nodup_append_comm, List.singleton_append]
          exact List.nodup_cons.mpr ⟨ha, hseen⟩
        obtain ⟨fresh, heq, hnodup, hfrom, hall⟩ := @ih (seen ++ [a]) (a :: stack) hseen'
        rw [List.append_assoc, List.singleton_append] at heq hnodup hall
        refine ⟨a :: fresh, ?_, hnodup, ?_, ?_⟩
        · rw [heq, List.reverse_cons, List.append_assoc, List.singleton_append]
        · intro b hb
          rcases List.mem_cons.mp hb with rfl | hb
          · exact List.mem_cons_self
          · exact List.mem_cons_of_mem _ (hfrom b hb)
        · refine List.forall_mem_cons.mpr ⟨?_, hall⟩
          exact List.mem_append_right _ List.mem_cons_self

/-- One or more steps. -/
abbrev Reached (next : α → List α) : α → α → Prop := Relation.TransGen fun a b => b ∈ next a

/-- What holds at the head of the loop when it started at `a`. -/
structure SearchInv (next : α → List α) (a : α) (S stack seen : List α) (fuel : ℕ) : Prop where
  nodup : seen.Nodup
  within : ∀ b ∈ seen, b ∈ S
  sound : ∀ b ∈ seen, Reached next a b
  stacked : ∀ b ∈ stack, b = a ∨ b ∈ seen
  closed : ∀ b, b = a ∨ b ∈ seen → b ∈ stack ∨ ∀ c ∈ next b, c ∈ seen
  enough : stack.length + S.length ≤ fuel + seen.length

omit [DecidableEq α] in
theorem SearchInv.start (a : α) (S : List α) : SearchInv next a S [a] [] (S.length + 1) where
  nodup := List.nodup_nil
  within := nofun
  sound := nofun
  stacked _ hb := .inl (List.mem_singleton.mp hb)
  closed _ hb := .inl (List.mem_singleton.mpr (hb.resolve_right List.not_mem_nil))
  enough := by simp [Nat.add_comm]

theorem SearchInv.round (hS : ∀ a b, b ∈ next a → b ∈ S)
    (h : SearchInv next a S (b :: stack) seen (fuel + 1)) :
    SearchInv next a S ((next b).foldl visit (seen, stack)).2 ((next b).foldl visit (seen, stack)).1 fuel := by
  obtain ⟨fresh, heq, hnodup, hfrom, hall⟩ := @foldl_visit α _ (next b) seen stack h.nodup
  rw [heq]
  have hreach : ∀ c ∈ fresh, Reached next a c := by
    intro c hc
    rcases h.stacked b List.mem_cons_self with rfl | hb
    · exact .single (hfrom c hc)
    · exact (h.sound b hb).tail (hfrom c hc)
  refine ⟨hnodup, ?_, ?_, ?_, ?_, ?_⟩
  · intro c hc
    rcases List.mem_append.mp hc with hc | hc
    · exact h.within c hc
    · exact hS b c (hfrom c hc)
  · intro c hc
    rcases List.mem_append.mp hc with hc | hc
    · exact h.sound c hc
    · exact hreach c hc
  · intro c hc
    rcases List.mem_append.mp hc with hc | hc
    · exact .inr (List.mem_append_right _ (List.mem_reverse.mp hc))
    · exact (h.stacked c (List.mem_cons_of_mem _ hc)).imp_right (List.mem_append_left _)
  · intro c hc
    have hold : c ∈ fresh ∨ c = a ∨ c ∈ seen := by
      rcases hc with rfl | hc
      · exact .inr (.inl rfl)
      · exact (List.mem_append.mp hc).symm.imp_right .inr
    rcases hold with hfresh | hold
    · exact .inl (List.mem_append_left _ (List.mem_reverse.mpr hfresh))
    · rcases h.closed c hold with hstack | hclosed
      · rcases List.mem_cons.mp hstack with rfl | hstack
        · exact .inr hall
        · exact .inl (List.mem_append_right _ hstack)
      · exact .inr fun d hd => List.mem_append_left _ (hclosed d hd)
  · have hlen := h.enough
    simp only [List.length_cons, List.length_append, List.length_reverse] at hlen ⊢
    omega

omit [DecidableEq α] in
theorem SearchInv.stack_nil (h : SearchInv next a S stack seen 0) : stack = [] := by
  have hle : seen.length ≤ S.length := (h.nodup.subperm h.within).length_le
  have hlen := h.enough
  exact List.eq_nil_of_length_eq_zero (by omega)

omit [DecidableEq α] in
theorem SearchInv.mem_iff (h : SearchInv next a S [] seen fuel) : b ∈ seen ↔ Reached next a b := by
  refine ⟨h.sound b, fun hb => ?_⟩
  induction hb with
  | single hb => exact ((h.closed a (.inl rfl)).resolve_left List.not_mem_nil) _ hb
  | tail _ hb ih => exact ((h.closed _ (.inr ih)).resolve_left List.not_mem_nil) _ hb

theorem SearchInv.mem_search (hS : ∀ a b, b ∈ next a → b ∈ S) (h : SearchInv next a S stack seen fuel) :
    b ∈ search next fuel stack seen ↔ Reached next a b := by
  induction fuel generalizing stack seen with
  | zero =>
      obtain rfl := h.stack_nil
      exact h.mem_iff
  | succ fuel ih =>
      cases stack with
      | nil => exact h.mem_iff
      | cons c stack => exact ih (h.round hS)

/-- The search sees all that is reached, and no more. -/
theorem mem_search (hS : ∀ a b, b ∈ next a → b ∈ S) :
    b ∈ search next (S.length + 1) [a] [] ↔ Reached next a b :=
  (SearchInv.start a S).mem_search hS

end RedFireForge.Lib
