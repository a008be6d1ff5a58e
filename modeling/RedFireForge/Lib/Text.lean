/-
# `RedFireForge.Lib.Text` — words, the blanks between them, and quotation

A text is a list of characters, some of which are blanks.  It is trimmed at its ends and split
after its first word.  A quoted text has a mark before each character that would end it.
-/
import Mathlib.Data.List.DropRight
import Mathlib.Data.List.Infix

namespace RedFireForge.Lib

variable {α : Type*} {p : α → Bool} {l r : List α}

/-- What holds of all elements is looked for in the list, not in the type. -/
instance (priority := 2000) decidableForallMem {P : α → Prop} [DecidablePred P] (l : List α) : Decidable (∀ x ∈ l, P x) :=
  List.decidableBAll P l

/-! ## Ends -/

/-- A list without the elements at its end that have a property. -/
theorem rdropWhile_append_of_pos (h : ∀ x ∈ r, p x = true) :
    (l ++ r).rdropWhile p = l.rdropWhile p := by
  rw [List.rdropWhile, List.reverse_append, List.dropWhile_append_of_pos, List.rdropWhile]
  intro x hx
  exact h x (List.mem_reverse.mp hx)

theorem rdropWhile_append_of_neg (h : ∃ x ∈ r, p x = false) :
    (l ++ r).rdropWhile p = l ++ r.rdropWhile p := by
  obtain ⟨x, hx, hp⟩ := h
  have hne : ¬ (r.reverse.dropWhile p).isEmpty := by
    rw [List.isEmpty_iff, List.dropWhile_eq_nil_iff]
    intro hall
    rw [hall x (List.mem_reverse.mpr hx)] at hp
    cases hp
  rw [List.rdropWhile, List.reverse_append, List.dropWhile_append, if_neg hne, List.reverse_append,
    List.reverse_reverse, List.rdropWhile]

theorem dropWhile_of_head (h : ∀ x ∈ l.head?, p x = false) : l.dropWhile p = l := by
  cases l with
  | nil => rfl
  | cons x l => rw [List.dropWhile_cons_of_neg (by simp [h x (by simp)])]

theorem head?_rdropWhile (h : ∀ x ∈ l.head?, p x = false) : (l.rdropWhile p).head? = l.head? := by
  cases l with
  | nil => simp
  | cons x l =>
      have hx : p x = false := h x (by simp)
      by_cases hl : ∃ y ∈ l, p y = false
      · rw [show x :: l = [x] ++ l from rfl, rdropWhile_append_of_neg hl]
        simp
      · push Not at hl
        rw [show x :: l = [x] ++ l from rfl, rdropWhile_append_of_pos (by simpa using hl),
          List.rdropWhile_singleton, if_neg (by simp [hx])]
        rfl

/-! ## Trimming -/

/-- A list without the elements of a kind at both ends. -/
def trimBy (p : α → Bool) (l : List α) : List α := (l.dropWhile p).rdropWhile p

theorem trimBy_of_head (h : ∀ x ∈ l.head?, p x = false) : trimBy p l = l.rdropWhile p := by
  rw [trimBy, dropWhile_of_head h]

theorem trimBy_of_none (h : ∀ x ∈ l, p x = false) : trimBy p l = l := by
  rw [trimBy_of_head fun x hx => h x (List.mem_of_mem_head? hx), List.rdropWhile_eq_self_iff]
  intro hne
  rw [h _ (List.getLast_mem hne)]
  exact Bool.false_ne_true

theorem trimBy_append_of_pos (h : ∀ x ∈ l, p x = true) : trimBy p (l ++ r) = trimBy p r := by
  rw [trimBy, List.dropWhile_append_of_pos h, trimBy]

theorem head?_dropWhile_neg : ∀ x ∈ (l.dropWhile p).head?, p x = false := by
  intro x hx
  have := List.head?_dropWhile_not p l
  rw [Option.mem_def.mp hx] at this
  simpa using this

theorem head?_trimBy : ∀ x ∈ (trimBy p l).head?, p x = false := by
  rw [trimBy, head?_rdropWhile head?_dropWhile_neg]
  exact head?_dropWhile_neg

theorem trimBy_trimBy : trimBy p (trimBy p l) = trimBy p l := by
  rw [trimBy_of_head head?_trimBy, trimBy, List.rdropWhile_idempotent]

theorem trimBy_rdropWhile : trimBy p (l.rdropWhile p) = trimBy p l := by
  by_cases h : ∃ x ∈ l, p x = false
  · obtain ⟨l₁, l₂, hl, h₁, h₂⟩ : ∃ l₁ l₂, l = l₁ ++ l₂ ∧ (∀ x ∈ l₁, p x = true) ∧ l₂ = l.dropWhile p :=
      ⟨l.takeWhile p, l.dropWhile p, List.takeWhile_append_dropWhile.symm,
        fun x hx => List.mem_takeWhile_imp hx, rfl⟩
    have hneg : ∃ x ∈ l₂, p x = false := by
      obtain ⟨x, hx, hp⟩ := h
      rw [hl, List.mem_append] at hx
      rcases hx with hx | hx
      · rw [h₁ x hx] at hp
        cases hp
      · exact ⟨x, hx, hp⟩
    have hhead : ∀ x ∈ l₂.head?, p x = false := by
      rw [h₂]
      exact head?_dropWhile_neg
    rw [hl, rdropWhile_append_of_neg hneg, trimBy_append_of_pos h₁, trimBy_append_of_pos h₁,
      trimBy_of_head hhead, trimBy_of_head (by rwa [head?_rdropWhile hhead]),
      List.rdropWhile_idempotent]
  · push Not at h
    have hall : ∀ x ∈ l, p x = true := by simpa using h
    rw [List.rdropWhile_eq_nil_iff.mpr hall, trimBy, trimBy, List.dropWhile_eq_nil_iff.mpr hall]
    rfl

theorem trimBy_sublist : (trimBy p l).Sublist l :=
  (List.rdropWhile_prefix p _).sublist.trans (List.dropWhile_sublist p)

theorem trimBy_eq_nil_iff : trimBy p l = [] ↔ ∀ x ∈ l, p x = true := by
  rw [trimBy, List.rdropWhile_eq_nil_iff]
  constructor
  · intro h x hx
    rw [← List.takeWhile_append_dropWhile (p := p) (l := l), List.mem_append] at hx
    rcases hx with hx | hx
    · exact List.mem_takeWhile_imp hx
    · exact h x hx
  · intro h x hx
    exact h x ((List.dropWhile_suffix p).subset hx)

theorem mem_dropWhile {a : α} (ha : a ∈ l) (hp : p a = false) : a ∈ l.dropWhile p := by
  rw [← @List.takeWhile_append_dropWhile _ p l, List.mem_append] at ha
  refine ha.resolve_left fun htake => ?_
  rw [List.mem_takeWhile_imp htake] at hp
  cases hp

/-! ## Words between blanks -/

/-- The first words, up to a mark that neither has. -/
theorem append_cons_prefix_iff {a : α} {u v x y : List α} (hu : a ∉ u) (hv : a ∉ v) :
    u ++ a :: x <+: v ++ a :: y ↔ u = v ∧ x <+: y := by
  induction u generalizing v with
  | nil =>
      cases v with
      | nil => simp
      | cons b v =>
          have hne : a ≠ b := fun h => hv (h ▸ List.mem_cons_self)
          simp [hne]
  | cons b u ih =>
      cases v with
      | nil =>
          have hne : b ≠ a := fun h => hu (h ▸ List.mem_cons_self)
          simp [hne]
      | cons b' v =>
          rw [List.mem_cons, not_or] at hu hv
          simp only [List.cons_append, List.cons_prefix_cons, ih hu.2 hv.2, List.cons.injEq, and_assoc]

theorem append_cons_inj {a : α} {u v x y : List α} (hu : a ∉ u) (hv : a ∉ v) :
    u ++ a :: x = v ++ a :: y ↔ u = v ∧ x = y := by
  constructor
  · intro h
    have hprefix : u ++ a :: x <+: v ++ a :: y := by rw [h]
    obtain ⟨rfl, -⟩ := (append_cons_prefix_iff hu hv).mp hprefix
    exact ⟨rfl, (List.cons.inj (List.append_cancel_left h)).2⟩
  · rintro ⟨rfl, rfl⟩
    rfl

theorem takeWhile_append_cons [DecidableEq α] {a : α} {u x : List α} (hu : a ∉ u) :
    (u ++ a :: x).takeWhile (· ≠ a) = u := by
  have hne : ∀ b ∈ u, decide (b ≠ a) = true := fun b hb => decide_eq_true fun h => hu (h ▸ hb)
  rw [List.takeWhile_append_of_pos hne]
  simp

theorem dropWhile_append_cons [DecidableEq α] {a : α} {u x : List α} (hu : a ∉ u) :
    (u ++ a :: x).dropWhile (· ≠ a) = a :: x := by
  have hne : ∀ b ∈ u, decide (b ≠ a) = true := fun b hb => decide_eq_true fun h => hu (h ▸ hb)
  rw [List.dropWhile_append_of_pos hne]
  simp

/-- What is cut at a mark has no mark left. -/
theorem notMem_of_mem_splitOn [BEq α] [LawfulBEq α] {a : α} {word : List α} (h : word ∈ l.splitOn a) : a ∉ word := by
  induction l generalizing word with
  | nil =>
      rw [List.splitOn_nil, List.mem_singleton] at h
      rw [h]
      exact List.not_mem_nil
  | cons x l ih =>
      rw [List.splitOn_cons_eq_if_modifyHead] at h
      split at h
      next =>
        rcases List.mem_cons.mp h with rfl | h
        · exact List.not_mem_nil
        · exact ih h
      next hne =>
        cases hl : l.splitOn a with
        | nil =>
            rw [hl] at h
            exact absurd h List.not_mem_nil
        | cons w ws =>
            rw [hl, List.modifyHead_cons] at h
            rcases List.mem_cons.mp h with rfl | h
            · rw [List.mem_cons, not_or]
              exact ⟨fun heq => hne (by rw [heq, beq_self_eq_true]), ih (hl ▸ List.mem_cons_self)⟩
            · exact ih (hl ▸ List.mem_cons_of_mem _ h)

theorem mem_intercalate {a b : α} {ls : List (List α)} (h : b ∈ [a].intercalate ls) : b = a ∨ ∃ l ∈ ls, b ∈ l := by
  induction ls with
  | nil => exact absurd h List.not_mem_nil
  | cons l ls ih =>
      cases ls with
      | nil =>
          rw [List.intercalate_singleton] at h
          exact Or.inr ⟨l, List.mem_cons_self, h⟩
      | cons l' ls =>
          rw [List.intercalate_cons_cons, List.mem_append, List.mem_append, List.mem_singleton] at h
          rcases h with (h | h) | h
          · exact Or.inr ⟨l, List.mem_cons_self, h⟩
          · exact Or.inl h
          · refine (ih h).imp id ?_
            rintro ⟨w, hw, hb⟩
            exact ⟨w, List.mem_cons_of_mem _ hw, hb⟩

theorem prefix_append_cons {a : α} {word : List α} (hword : a ∉ word) (hl : l ≠ [])
    (h : a :: (word ++ [a]) <+: l ++ a :: r) : a :: (word ++ [a]) <+: l ++ [a] := by
  obtain ⟨b, l, rfl⟩ := List.exists_cons_of_ne_nil hl
  obtain ⟨rfl, t, ht⟩ := List.cons_prefix_cons.mp h
  refine List.cons_prefix_cons.mpr ⟨rfl, ?_⟩
  rw [List.append_assoc] at ht
  rcases List.append_eq_append_iff.mp ht with ⟨u, rfl, hu⟩ | ⟨u, rfl, hu⟩
  · cases u with
    | nil => exact ⟨[], by simp⟩
    | cons c u =>
        cases hu
        exact ⟨u ++ [a], by simp⟩
  · cases u with
    | nil => exact ⟨[], by simp⟩
    | cons c u =>
        cases hu
        exact absurd (by simp) hword

/-- A word with a blank on either side is found on one side of a blank. -/
theorem infix_append_cons {a : α} {word : List α} (hword : a ∉ word) :
    a :: (word ++ [a]) <:+: l ++ a :: r ↔
      a :: (word ++ [a]) <:+: l ++ [a] ∨ a :: (word ++ [a]) <:+: a :: r := by
  constructor
  · intro h
    induction l with
    | nil => exact .inr h
    | cons b l ih =>
        rcases List.infix_cons_iff.mp h with h | h
        · exact .inl (prefix_append_cons hword (List.cons_ne_nil b l) h).isInfix
        · exact (ih h).imp_left fun h => List.infix_cons_iff.mpr (.inr h)
  · rintro (h | h)
    · exact h.trans ⟨[], r, by simp⟩
    · exact h.trans (List.suffix_append l (a :: r)).isInfix

/-! ## The first place of a word -/

section IndexOf

variable [DecidableEq α] {word : List α} {i : ℕ}

/-- Where a list has a word for the first time. -/
def indexOf (word : List α) : List α → Option ℕ
  | [] => if word = [] then some 0 else none
  | a :: l => if word <+: a :: l then some 0 else (indexOf word l).map (· + 1)

theorem indexOf_eq_none_iff : indexOf word l = none ↔ ¬ word <:+: l := by
  induction l with
  | nil => simp [indexOf]
  | cons a l ih =>
      rw [indexOf, List.infix_cons_iff, not_or]
      split
      next h => exact iff_of_false nofun fun h' => h'.1 h
      next h => rw [Option.map_eq_none_iff, ih, and_iff_right h]

theorem indexOf_spec (h : indexOf word l = some i) :
    i ≤ l.length ∧ word <+: l.drop i ∧ ∀ j < i, ¬ word <+: l.drop j := by
  induction l generalizing i with
  | nil =>
      rw [indexOf] at h
      split at h
      next hword =>
        cases h
        exact ⟨le_rfl, hword ▸ List.nil_prefix, nofun⟩
      next => cases h
  | cons a l ih =>
      rw [indexOf] at h
      split at h
      next hword =>
        cases h
        exact ⟨Nat.zero_le _, hword, nofun⟩
      next hword =>
        obtain ⟨k, hk, rfl⟩ := Option.map_eq_some_iff.mp h
        obtain ⟨hle, hat, hbefore⟩ := ih hk
        refine ⟨Nat.succ_le_succ hle, hat, fun j hj => ?_⟩
        cases j with
        | zero => exact hword
        | succ j => exact hbefore j (Nat.lt_of_succ_lt_succ hj)

theorem indexOf_eq_some_iff : indexOf word l = some i ↔
    i ≤ l.length ∧ word <+: l.drop i ∧ ∀ j < i, ¬ word <+: l.drop j := by
  refine ⟨indexOf_spec, fun ⟨_, hat, hbefore⟩ => ?_⟩
  cases hk : indexOf word l with
  | none => exact absurd (hat.isInfix.trans (List.drop_suffix i l).isInfix) (indexOf_eq_none_iff.mp hk)
  | some k =>
      obtain ⟨-, hatk, hbeforek⟩ := indexOf_spec hk
      obtain hlt | heq | hgt := Nat.lt_trichotomy k i
      · exact absurd hatk (hbefore k hlt)
      · rw [heq]
      · exact absurd hat (hbeforek i hgt)

theorem indexOf_cons_of_not {a : α} (h : ¬ word <+: a :: l) : indexOf word (a :: l) = (indexOf word l).map (1 + ·) := by
  rw [indexOf, if_neg h]
  congr 1
  funext i
  exact Nat.add_comm i 1

/-- The first element of a word has to be there for the word to begin. -/
theorem indexOf_append_of_notMem {a : α} (ha : a ∉ l) :
    indexOf (a :: word) (l ++ r) = (indexOf (a :: word) r).map (l.length + ·) := by
  induction l with
  | nil => simp
  | cons b l ih =>
      rw [List.mem_cons, not_or] at ha
      have hno : ¬ a :: word <+: b :: (l ++ r) := fun h => ha.1 (List.cons_prefix_cons.mp h).1
      rw [List.cons_append, indexOf_cons_of_not hno, ih ha.2, Option.map_map]
      congr 1
      funext i
      simp only [Function.comp, List.length_cons]
      omega

end IndexOf

end RedFireForge.Lib
