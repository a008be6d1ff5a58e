/-
# `RedFireForge.Lib.Forest` — what a parent function makes of its arguments

Walks up, cycles, and the lists that walk down.  Nothing is assumed finite but the list whose
roots are looked for.
-/
import Mathlib.Data.Finset.Card
import Mathlib.Data.List.Nodup
import Mathlib.Data.List.Perm.Lattice
import Mathlib.Logic.Function.Basic

namespace RedFireForge.Lib

variable {α : Type}

/-- `n` steps up. -/
def up (parent : α → Option α) : ℕ → α → Option α
  | 0, a => some a
  | n + 1, a => (parent a).bind (up parent n)

/-- No walk up comes back. -/
def Acyclic (parent : α → Option α) : Prop :=
  ∀ a n, up parent (n + 1) a ≠ some a

/-- A list of all that is at most `n` steps below `a`, each before what is below it. -/
def preorder (children : α → List α) : ℕ → α → List α
  | 0, a => [a]
  | n + 1, a => a :: (children a).flatMap (preorder children n)

section Walks

variable {parent : α → Option α} {a b c x : α} {m n : ℕ}

@[simp] theorem up_zero : up parent 0 a = some a := rfl

theorem up_succ : up parent (n + 1) a = (parent a).bind (up parent n) := rfl

theorem up_succ_eq_some : up parent (n + 1) a = some b ↔ ∃ c, parent a = some c ∧ up parent n c = some b := by
  rw [up_succ, Option.bind_eq_some_iff]

theorem up_add : up parent (m + n) a = (up parent m a).bind (up parent n) := by
  induction m generalizing a with
  | zero => rw [Nat.zero_add, up_zero, Option.bind_some]
  | succ m ih =>
      rw [Nat.succ_add, up_succ, up_succ, Option.bind_assoc]
      exact congrArg _ (funext fun _ => ih)

theorem up_trans (hab : up parent m a = some b) (hbc : up parent n b = some c) :
    up parent (m + n) a = some c := by
  rw [up_add, hab, Option.bind_some, hbc]

/-- The walks from one start are one walk. -/
theorem up_sub (hmn : m ≤ n) (hb : up parent m a = some b) (hc : up parent n a = some c) :
    up parent (n - m) b = some c := by
  obtain ⟨k, rfl⟩ := Nat.exists_eq_add_of_le hmn
  rwa [up_add, hb, Option.bind_some, ← Nat.add_sub_cancel_left (n := m) (m := k)] at hc

theorem up_one : up parent 1 a = parent a := by
  rw [up_succ]
  cases parent a <;> rfl

theorem up_succ_right (hb : up parent n a = some b) (hc : parent b = some c) :
    up parent (n + 1) a = some c :=
  up_trans hb (up_one.trans hc)

theorem Acyclic.unique (hac : Acyclic parent) (hm : up parent m a = some b) (hn : up parent n b = some a) :
    m = 0 := by
  cases m with
  | zero => rfl
  | succ m =>
      refine absurd (up_trans hm hn) ?_
      rw [Nat.add_right_comm]
      exact hac a _

/-- Two with the same parent are on no common walk. -/
theorem Acyclic.eq_of_parent_eq (hac : Acyclic parent) (hab : up parent n a = some b)
    (hparent : parent a = parent b) : a = b := by
  cases n with
  | zero => exact Option.some.inj hab
  | succ n =>
      obtain ⟨c, hc, hcb⟩ := up_succ_eq_some.mp hab
      exact absurd (up_succ_right hcb (hparent ▸ hc)) (hac c n)

/-- Below two with the same parent there is nothing common. -/
theorem Acyclic.eq_of_below (hac : Acyclic parent) (hb : up parent m a = some b) (hc : up parent n a = some c)
    (hparent : parent b = parent c) : b = c := by
  rcases Nat.le_total m n with hmn | hnm
  · exact hac.eq_of_parent_eq (up_sub hmn hb hc) hparent
  · exact (hac.eq_of_parent_eq (up_sub hnm hc hb) hparent.symm).symm

theorem up_rank {rank : α → ℕ} (hrank : ∀ a b, parent a = some b → rank b < rank a)
    (h : up parent n a = some b) : rank b + n ≤ rank a := by
  induction n generalizing a with
  | zero =>
      obtain rfl := Option.some.inj h
      exact le_rfl
  | succ n ih =>
      obtain ⟨c, hc, hb⟩ := up_succ_eq_some.mp h
      have hcb := ih hb
      have hlt := hrank a c hc
      omega

/-- Where each step leads to a smaller one there is no cycle. -/
theorem Acyclic.of_rank (rank : α → ℕ) (hrank : ∀ a b, parent a = some b → rank b < rank a) : Acyclic parent := by
  intro a n h
  have hle := up_rank hrank h
  omega

end Walks

section Update

variable [DecidableEq α] {parent : α → Option α} {p : Option α} {a b x : α} {n : ℕ}

/-- A walk that leads to `x` gets there without `x`'s own parent. -/
theorem up_of_up_update (h : up (Function.update parent x p) n a = some x) : ∃ m, up parent m a = some x := by
  induction n generalizing a with
  | zero => exact ⟨0, h⟩
  | succ n ih =>
      by_cases hax : a = x
      · exact ⟨0, congrArg some hax⟩
      · obtain ⟨c, hc, hcx⟩ := up_succ_eq_some.mp h
        rw [Function.update_of_ne hax] at hc
        obtain ⟨m, hm⟩ := ih hcx
        exact ⟨m + 1, up_succ_eq_some.mpr ⟨c, hc, hm⟩⟩

/-- A walk meets `x` or is as it was. -/
theorem up_update (h : up (Function.update parent x p) n a = some b) :
    up parent n a = some b ∨ ∃ m < n, up (Function.update parent x p) m a = some x := by
  induction n generalizing a with
  | zero => exact .inl h
  | succ n ih =>
      by_cases hax : a = x
      · exact .inr ⟨0, n.succ_pos, congrArg some hax⟩
      · obtain ⟨c, hc, hcb⟩ := up_succ_eq_some.mp h
        rcases ih hcb with hold | ⟨m, hm, hcx⟩
        · rw [Function.update_of_ne hax] at hc
          exact .inl (up_succ_eq_some.mpr ⟨c, hc, hold⟩)
        · exact .inr ⟨m + 1, Nat.succ_lt_succ hm, up_succ_eq_some.mpr ⟨c, hc, hcx⟩⟩

/-- A new parent that is not below its child makes no cycle. -/
theorem Acyclic.update (hac : Acyclic parent) (hp : ∀ y, p = some y → ∀ n, up parent n y ≠ some x) :
    Acyclic (Function.update parent x p) := by
  intro a n hcycle
  rcases up_update hcycle with hold | ⟨m, hm, hax⟩
  · exact hac a n hold
  · have hround : up (Function.update parent x p) (n + 1 - m) x = some a := up_sub hm.le hax hcycle
    obtain ⟨k, hk⟩ := Nat.exists_eq_add_of_lt hm
    have hlen : n + 1 - m = k + 1 := by omega
    rw [hlen] at hround
    have hloop := up_trans hround hax
    rw [Nat.add_right_comm] at hloop
    obtain ⟨y, hy, hyx⟩ := up_succ_eq_some.mp hloop
    rw [Function.update_self] at hy
    obtain ⟨j, hj⟩ := up_of_up_update hyx
    exact hp y hy j hj

end Update

section Roots

variable {parent : α → Option α} {S : List α} {b : α}

/-- Up from `b` within a finite list there is a root, in as many steps as the list is long. -/
theorem Acyclic.exists_root [DecidableEq α] (hac : Acyclic parent) (hS : ∀ a b, parent a = some b → b ∈ S) :
    ∃ n ≤ S.length, ∃ r, up parent n b = some r ∧ parent r = none := by
  classical
  -- The measure is the number of those above `b`: one step up is above less.
  let above (b : α) : Finset α := S.toFinset.filter fun a => ∃ n, up parent (n + 1) b = some a
  have key : ∀ k b, (above b).card ≤ k → ∃ n ≤ k, ∃ r, up parent n b = some r ∧ parent r = none := by
    intro k
    induction k with
    | zero =>
        intro b hcard
        refine ⟨0, le_rfl, b, rfl, ?_⟩
        cases hb : parent b with
        | none => rfl
        | some a =>
            have hmem : a ∈ above b :=
              Finset.mem_filter.mpr ⟨List.mem_toFinset.mpr (hS b a hb), 0, up_one.trans hb⟩
            exact absurd hmem (by rw [Finset.card_eq_zero.mp (Nat.le_zero.mp hcard)]; exact Finset.notMem_empty a)
    | succ k ih =>
        intro b hcard
        cases hb : parent b with
        | none => exact ⟨0, Nat.zero_le _, b, rfl, hb⟩
        | some a =>
            have hmem : a ∈ above b :=
              Finset.mem_filter.mpr ⟨List.mem_toFinset.mpr (hS b a hb), 0, up_one.trans hb⟩
            have hnot : a ∉ above a := fun h => (Finset.mem_filter.mp h).2.elim (hac a)
            have hsub : above a ⊆ above b := by
              intro c hc
              obtain ⟨hcS, n, hn⟩ := Finset.mem_filter.mp hc
              exact Finset.mem_filter.mpr ⟨hcS, n + 1, up_succ_eq_some.mpr ⟨a, hb, hn⟩⟩
            have hlt : (above a).card < (above b).card :=
              Finset.card_lt_card ⟨hsub, fun hback => hnot (hback hmem)⟩
            obtain ⟨n, hn, r, hr, hroot⟩ := ih a (by omega)
            exact ⟨n + 1, by omega, r, up_succ_eq_some.mpr ⟨a, hb, hr⟩, hroot⟩
  refine key S.length b ?_
  exact (Finset.card_filter_le _ _).trans (List.toFinset_card_le S)

end Roots

section Preorder

variable {parent : α → Option α} {children : α → List α} {a b r : α} {n : ℕ} {roots S : List α}

theorem mem_preorder (hch : ∀ a b, b ∈ children a ↔ parent b = some a) :
    b ∈ preorder children n a ↔ ∃ m ≤ n, up parent m b = some a := by
  induction n generalizing a with
  | zero =>
      rw [preorder, List.mem_singleton]
      constructor
      · rintro rfl
        exact ⟨0, le_rfl, rfl⟩
      · rintro ⟨m, hm, hup⟩
        obtain rfl := Nat.le_zero.mp hm
        exact Option.some.inj hup
  | succ n ih =>
      rw [preorder, List.mem_cons, List.mem_flatMap]
      constructor
      · rintro (rfl | ⟨c, hc, hb⟩)
        · exact ⟨0, Nat.zero_le _, rfl⟩
        · obtain ⟨m, hm, hup⟩ := ih.mp hb
          exact ⟨m + 1, Nat.succ_le_succ hm, up_succ_right hup ((hch a c).mp hc)⟩
      · rintro ⟨m, hm, hup⟩
        cases m with
        | zero => exact .inl (Option.some.inj hup)
        | succ m =>
            rw [up_add, Option.bind_eq_some_iff] at hup
            obtain ⟨c, hbc, hca⟩ := hup
            exact .inr ⟨c, (hch a c).mpr (up_one.symm.trans hca), ih.mpr ⟨m, Nat.le_of_succ_le_succ hm, hbc⟩⟩

theorem disjoint_preorder (hch : ∀ a b, b ∈ children a ↔ parent b = some a) (hac : Acyclic parent)
    (hparent : parent a = parent b) (hab : a ≠ b) :
    (preorder children n a).Disjoint (preorder children n b) := by
  intro c hca hcb
  obtain ⟨m, -, hm⟩ := (mem_preorder hch).mp hca
  obtain ⟨k, -, hk⟩ := (mem_preorder hch).mp hcb
  exact hab (hac.eq_of_below hm hk hparent)

theorem nodup_preorder (hch : ∀ a b, b ∈ children a ↔ parent b = some a) (hnd : ∀ a, (children a).Nodup)
    (hac : Acyclic parent) : (preorder children n a).Nodup := by
  induction n generalizing a with
  | zero => exact List.nodup_singleton a
  | succ n ih =>
      rw [preorder, List.nodup_cons, List.nodup_flatMap]
      refine ⟨?_, fun c _ => ih, ?_⟩
      · intro ha
        obtain ⟨c, hc, hac'⟩ := List.mem_flatMap.mp ha
        obtain ⟨m, -, hm⟩ := (mem_preorder hch).mp hac'
        exact hac a m (up_succ_right hm ((hch a c).mp hc))
      · refine List.Nodup.pairwise_of_forall_ne (hnd a) fun c hc d hd hcd => ?_
        exact disjoint_preorder hch hac (((hch a c).mp hc).trans ((hch a d).mp hd).symm) hcd

/-- The roots of a finite forest have all of it below them, each once. -/
theorem flatMap_preorder_perm [DecidableEq α] (hch : ∀ a b, b ∈ children a ↔ parent b = some a)
    (hnd : ∀ a, (children a).Nodup) (hac : Acyclic parent)
    (hS : ∀ a b, parent a = some b → a ∈ S ∧ b ∈ S) (hnodup : S.Nodup)
    (hroots : ∀ r, r ∈ roots ↔ r ∈ S ∧ parent r = none) (hrootsNodup : roots.Nodup) (hn : S.length ≤ n) :
    (roots.flatMap (preorder children n)).Perm S := by
  have hlist : (roots.flatMap (preorder children n)).Nodup := by
    refine List.nodup_flatMap.mpr ⟨fun r _ => nodup_preorder hch hnd hac, ?_⟩
    refine List.Nodup.pairwise_of_forall_ne hrootsNodup fun r hr q hq hrq => ?_
    exact disjoint_preorder hch hac (((hroots r).mp hr).2.trans ((hroots q).mp hq).2.symm) hrq
  refine (List.perm_ext_iff_of_nodup hlist hnodup).mpr fun b => ?_
  rw [List.mem_flatMap]
  constructor
  · rintro ⟨r, hr, hb⟩
    obtain ⟨m, -, hm⟩ := (mem_preorder hch).mp hb
    cases m with
    | zero =>
        obtain rfl := Option.some.inj hm
        exact ((hroots b).mp hr).1
    | succ m =>
        obtain ⟨a, ha, -⟩ := up_succ_eq_some.mp hm
        exact (hS b a ha).1
  · intro hb
    obtain ⟨m, hm, r, hr, hroot⟩ := hac.exists_root (b := b) fun a b h => (hS a b h).2
    have hrS : r ∈ S := by
      cases m with
      | zero =>
          obtain rfl := Option.some.inj hr
          exact hb
      | succ m =>
          rw [up_add, Option.bind_eq_some_iff] at hr
          obtain ⟨c, -, hc⟩ := hr
          exact (hS c r (up_one.symm.trans hc)).2
    exact ⟨r, (hroots r).mpr ⟨hrS, hroot⟩, (mem_preorder hch).mpr ⟨m, hm.trans hn, hr⟩⟩

end Preorder

end RedFireForge.Lib
