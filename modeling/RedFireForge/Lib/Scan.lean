/-
# `RedFireForge.Lib.Scan` — a text read from left to right for what a matcher finds

At each place the matcher finds something and says what follows it, or one element is passed by.
So a global regular expression goes through a text.
-/
import Mathlib.Data.List.Infix
import Mathlib.Tactic.Common

namespace RedFireForge.Lib

variable {α β : Type*} {m : List α → Option (β × List α)} {l : List α}

def scanFuel (m : List α → Option (β × List α)) : ℕ → List α → List (α ⊕ β)
  | 0, _ => []
  | _ + 1, [] => []
  | n + 1, a :: l =>
      match m (a :: l) with
      | some (b, rest) => .inr b :: scanFuel m n rest
      | none => .inl a :: scanFuel m n l

/-- The elements that are passed by, and what is found between them. -/
def scan (m : List α → Option (β × List α)) (l : List α) : List (α ⊕ β) := scanFuel m l.length l

/-- What is found takes something off the text. -/
def Shrinks (m : List α → Option (β × List α)) : Prop := ∀ l b rest, m l = some (b, rest) → rest.length < l.length

theorem scanFuel_eq (hm : Shrinks m) {n : ℕ} (h : l.length ≤ n) : scanFuel m n l = scan m l := by
  have hstep : ∀ n n' (l : List α), l.length ≤ n → l.length ≤ n' → scanFuel m n l = scanFuel m n' l := by
    intro n
    induction n with
    | zero =>
        intro n' l hn hn'
        rw [List.length_eq_zero_iff.mp (Nat.le_zero.mp hn)]
        cases n' <;> rfl
    | succ n ih =>
        intro n' l hn hn'
        cases l with
        | nil => cases n' <;> rfl
        | cons a l =>
            cases n' with
            | zero => exact absurd hn' (Nat.not_succ_le_zero _)
            | succ n' =>
                rw [scanFuel, scanFuel]
                cases hfound : m (a :: l) with
                | none => exact congrArg _ (ih n' l (Nat.le_of_succ_le_succ hn) (Nat.le_of_succ_le_succ hn'))
                | some p =>
                    have hlt := hm _ _ _ hfound
                    exact congrArg _ (ih n' p.2 (by omega) (by omega))
  exact hstep n l.length l h le_rfl

@[simp] theorem scan_nil : scan m [] = [] := rfl

theorem scan_none {a : α} (h : m (a :: l) = none) : scan m (a :: l) = .inl a :: scan m l := by
  rw [scan, List.length_cons, scanFuel, h]
  rfl

theorem scan_some (hm : Shrinks m) {a : α} {b : β} {rest : List α} (h : m (a :: l) = some (b, rest)) :
    scan m (a :: l) = .inr b :: scan m rest := by
  have hlt := hm _ _ _ h
  rw [scan, List.length_cons, scanFuel, h]
  dsimp only
  rw [scanFuel_eq hm (Nat.le_of_lt_succ hlt)]

/-- What is passed by stays, what is found is put in anew. -/
def fill (f : β → List α) (ps : List (α ⊕ β)) : List α := ps.flatMap (Sum.elim List.singleton f)

@[simp] theorem fill_nil {f : β → List α} : fill f [] = [] := rfl

@[simp] theorem fill_cons {f : β → List α} {p : α ⊕ β} {ps : List (α ⊕ β)} :
    fill f (p :: ps) = Sum.elim List.singleton f p ++ fill f ps := rfl

theorem fill_append {f : β → List α} {ps qs : List (α ⊕ β)} : fill f (ps ++ qs) = fill f ps ++ fill f qs :=
  List.flatMap_append

theorem fill_congr {f g : β → List α} {ps : List (α ⊕ β)} (h : ∀ b, .inr b ∈ ps → f b = g b) : fill f ps = fill g ps := by
  refine List.flatMap_congr fun p hp => ?_
  cases p with
  | inl a => rfl
  | inr b => exact h b hp

/-- A global replacement. -/
def replaceAll (m : List α → Option (β × List α)) (f : β → List α) (l : List α) : List α := fill f (scan m l)

/-- What is found, put back, gives the text. -/
theorem fill_scan (hm : Shrinks m) {text : β → List α} (htext : ∀ l b rest, m l = some (b, rest) → l = text b ++ rest)
    (l : List α) : fill text (scan m l) = l := by
  induction hn : l.length using Nat.strong_induction_on generalizing l with
  | _ n ih =>
      subst hn
      cases l with
      | nil => rfl
      | cons a l =>
          cases hfound : m (a :: l) with
          | none =>
              rw [scan_none hfound, fill_cons, ih _ (Nat.lt_succ_self _) l rfl]
              rfl
          | some p =>
              obtain ⟨b, rest⟩ := p
              rw [scan_some hm hfound, fill_cons, ih _ (hm _ _ _ hfound) rest rfl, Sum.elim_inr, ← htext _ _ _ hfound]

theorem mem_scan (hm : Shrinks m) {b : β} (h : .inr b ∈ scan m l) : ∃ l' rest, m l' = some (b, rest) := by
  induction hn : l.length using Nat.strong_induction_on generalizing l with
  | _ n ih =>
      subst hn
      cases l with
      | nil => cases h
      | cons a l =>
          cases hfound : m (a :: l) with
          | none =>
              rw [scan_none hfound] at h
              exact ih _ (Nat.lt_succ_self _) ((List.mem_cons.mp h).resolve_left nofun) rfl
          | some p =>
              obtain ⟨b', rest⟩ := p
              rw [scan_some hm hfound] at h
              obtain heq | h := List.mem_cons.mp h
              · cases heq
                exact ⟨_, _, hfound⟩
              · exact ih _ (hm _ _ _ hfound) h rfl

/-- A text is read into its parts, if each part that can be found is found where it begins, and
nothing is found elsewhere. -/
theorem scan_fill (hm : Shrinks m) {text : β → List α} {ps : List (α ⊕ β)}
    (hfound : ∀ b, .inr b ∈ ps → text b ≠ [] ∧ ∀ rest, m (text b ++ rest) = some (b, rest))
    (honly : ∀ n, (m ((fill text ps).drop n)).isSome → ∃ qs b rs, ps = qs ++ .inr b :: rs ∧ n = (fill text qs).length) :
    scan m (fill text ps) = ps := by
  induction ps with
  | nil => rfl
  | cons p ps ih =>
      have hlater : ∀ n, (m ((fill text ps).drop n)).isSome →
          ∃ qs b rs, ps = qs ++ .inr b :: rs ∧ n = (fill text qs).length := by
        intro n hn
        obtain ⟨qs, b, rs, hps, hlength⟩ := honly ((Sum.elim List.singleton text p).length + n) (by
          rw [fill_cons, ← List.drop_drop, List.drop_left]
          exact hn)
        cases qs with
        | nil =>
            cases hps
            have hne := List.length_pos_of_ne_nil (hfound b List.mem_cons_self).1
            rw [fill_nil, Sum.elim_inr, List.length_nil] at hlength
            omega
        | cons q qs =>
            rw [List.cons_append, List.cons.injEq] at hps
            obtain ⟨rfl, hps⟩ := hps
            rw [fill_cons, List.length_append] at hlength
            exact ⟨qs, b, rs, hps, by omega⟩
      have hrest := ih (fun b hb => hfound b (List.mem_cons_of_mem p hb)) hlater
      cases p with
      | inl a =>
          have hnone : m (a :: fill text ps) = none := by
            by_contra hsome
            obtain ⟨qs, b, rs, hps, hlength⟩ := honly 0 (Option.isSome_iff_ne_none.mpr hsome)
            cases qs with
            | nil => cases hps
            | cons q qs =>
                rw [List.cons_append, List.cons.injEq] at hps
                rw [← hps.1, fill_cons, List.length_append] at hlength
                exact absurd hlength.symm (Nat.ne_of_gt (Nat.succ_pos _ |>.trans_le (Nat.le_add_right _ _)))
          exact (scan_none hnone).trans (congrArg _ hrest)
      | inr b =>
          obtain ⟨hne, hm'⟩ := hfound b List.mem_cons_self
          obtain ⟨a, l, hal⟩ := List.exists_cons_of_ne_nil hne
          have hhead := hm' (fill text ps)
          rw [fill_cons, Sum.elim_inr]
          rw [hal, List.cons_append] at hhead ⊢
          rw [scan_some hm hhead, hrest]

end RedFireForge.Lib
