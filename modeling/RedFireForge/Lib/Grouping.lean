/-
# `RedFireForge.Lib.Grouping` — items grouped under a key

A map from keys to the items that have them, in the order of the first items.
-/
import Mathlib.Data.List.Induction
import RedFireForge.Lib.InsertionMap

namespace RedFireForge.Lib

variable {α κ : Type} [DecidableEq κ]

def groupsOf (key : α → κ) (xs : List α) : InsertionMap κ (List α) :=
  xs.foldl (fun m x => m.set (key x) ((m.lookup (key x)).getD [] ++ [x])) ∅

variable {key : α → κ} {xs : List α} {k : κ}

theorem lookup_groupsOf : (groupsOf key xs).lookup k =
    if xs.filter (key · = k) = [] then none else some (xs.filter (key · = k)) := by
  induction xs using List.reverseRecOn with
  | nil => rfl
  | append_singleton xs x ih =>
      unfold groupsOf at ih ⊢
      rw [List.foldl_append, List.foldl_cons, List.foldl_nil, InsertionMap.lookup_set, List.filter_append]
      by_cases hk : k = key x
      · subst hk
        rw [if_pos rfl, ih]
        have hx : [x].filter (key · = key x) = [x] := by simp
        rw [hx, if_neg (List.append_ne_nil_of_right_ne_nil _ (List.cons_ne_nil _ _))]
        split
        next hnil => rw [hnil]; rfl
        next => rfl
      · have hx : [x].filter (key · = k) = [] := by simp [Ne.symm hk]
        rw [if_neg hk, ih, hx, List.append_nil]

/-- Who is in a group: those with its key, at least one. -/
theorem mem_groupsOf {ys : List α} : ⟨k, ys⟩ ∈ (groupsOf key xs).entries ↔
    ys = xs.filter (key · = k) ∧ ys ≠ [] := by
  rw [InsertionMap.mem_entries, lookup_groupsOf]
  split
  next hnil => exact ⟨nofun, fun h => absurd (h.1.trans hnil) h.2⟩
  next hne =>
    rw [Option.some.injEq]
    exact ⟨fun h => ⟨h.symm, h ▸ hne⟩, fun h => h.1.symm⟩

/-- At most one group: all have the same key. -/
theorem size_groupsOf_le_one : (groupsOf key xs).size ≤ 1 ↔ ∀ x ∈ xs, ∀ y ∈ xs, key x = key y := by
  have hgroup : ∀ x ∈ xs, ∃ ys, ⟨key x, ys⟩ ∈ (groupsOf key xs).entries := by
    intro x hx
    refine ⟨_, mem_groupsOf.mpr ⟨rfl, ?_⟩⟩
    exact List.ne_nil_of_mem (List.mem_filter.mpr ⟨hx, decide_eq_true rfl⟩)
  unfold InsertionMap.size
  constructor
  · intro hle x hx y hy
    obtain ⟨ys, hys⟩ := hgroup x hx
    obtain ⟨zs, hzs⟩ := hgroup y hy
    match hentries : (groupsOf key xs).entries with
    | [] =>
        rw [hentries] at hys
        cases hys
    | [e] =>
        rw [hentries, List.mem_singleton] at hys hzs
        exact congrArg Sigma.fst (hys.trans hzs.symm)
    | _ :: _ :: _ =>
        rw [hentries] at hle
        simp at hle
  · intro hsame
    match hentries : (groupsOf key xs).entries with
    | [] => exact Nat.zero_le _
    | [_] => exact Nat.le_refl _
    | e :: e' :: es =>
        have hmember : ∀ e ∈ (groupsOf key xs).entries, ∃ x ∈ xs, key x = e.1 := by
          intro e he
          have he' : (⟨e.1, e.2⟩ : (_ : κ) × List α) ∈ (groupsOf key xs).entries := he
          obtain ⟨hfilter, hne⟩ := mem_groupsOf.mp he'
          obtain ⟨x, hx⟩ := List.exists_mem_of_ne_nil _ hne
          rw [hfilter, List.mem_filter] at hx
          exact ⟨x, hx.1, of_decide_eq_true hx.2⟩
        obtain ⟨x, hx, hxe⟩ := hmember e (by rw [hentries]; exact List.mem_cons_self)
        obtain ⟨y, hy, hye⟩ := hmember e' (by rw [hentries]; exact List.mem_cons_of_mem _ List.mem_cons_self)
        have hnodup := (groupsOf key xs).nodupKeys
        rw [hentries, List.nodupKeys_cons] at hnodup
        have hkey : e.1 = e'.1 := hxe.symm.trans ((hsame x hx y hy).trans hye)
        exact absurd (hkey ▸ List.mem_keys_of_mem List.mem_cons_self) hnodup.1

/-- Where the keys differ an item is found by its key. -/
theorem find?_key {f : α → κ} {x : α} (hnd : (xs.map f).Nodup) (hx : x ∈ xs) :
    xs.find? (fun y => f y = f x) = some x := by
  cases hfind : xs.find? fun y => f y = f x with
  | none => exact absurd (decide_eq_true rfl) (List.find?_eq_none.mp hfind x hx)
  | some y =>
      have hy : f y = f x := of_decide_eq_true (List.find?_some hfind :)
      rw [List.inj_on_of_nodup_map hnd (List.mem_of_find?_eq_some hfind) hx hy]

/-- The entries of a map in the opposite order, searched for a key. -/
theorem find?_reverse_entries {m : InsertionMap κ α} :
    (m.entries.reverse.find? fun e => e.1 = k).map Sigma.snd = m.lookup k := by
  cases hv : m.lookup k with
  | none =>
      have hnone : m.entries.reverse.find? (fun e => e.1 = k) = none := by
        rw [List.find?_eq_none]
        rintro ⟨k', v⟩ hx hk
        obtain rfl : k' = k := of_decide_eq_true hk
        rw [List.mem_reverse, InsertionMap.mem_entries, hv] at hx
        cases hx
      rw [hnone]
      rfl
  | some v =>
      have hmem : (⟨k, v⟩ : (_ : κ) × α) ∈ m.entries.reverse := List.mem_reverse.mpr (InsertionMap.mem_entries.mpr hv)
      have hnodup : (m.entries.reverse.map Sigma.fst).Nodup := by
        rw [List.map_reverse, List.nodup_reverse]
        exact m.nodupKeys
      have hfind := find?_key hnodup hmem
      rw [hfind]
      rfl

/-- The items under each of some keys make up the items that have one of them. -/
theorem flatMap_filter_perm {key : α → Option κ} {ks : List κ} (hks : ks.Nodup) (xs : List α) :
    (ks.flatMap fun k => xs.filter (key · = some k)).Perm (xs.filter fun x => (key x).any (· ∈ ks)) := by
  induction ks with
  | nil =>
      rw [List.flatMap_nil, List.filter_eq_nil_iff.mpr fun x _ => ?_]
      simp
  | cons k ks ih =>
      obtain ⟨hk, hks⟩ := List.nodup_cons.mp hks
      rw [List.flatMap_cons]
      refine ((ih hks).append_left _).trans ?_
      refine .trans (.of_eq ?_) (List.filter_append_perm (key · = some k) _)
      rw [List.filter_filter, List.filter_filter]
      congr 1
      · refine List.filter_congr fun x _ => ?_
        cases key x with
        | none => simp
        | some k' => simpa using Or.inl
      · refine List.filter_congr fun x _ => ?_
        cases hx : key x with
        | none => simp
        | some k' =>
            by_cases hkk : k' = k
            · simp [hkk, hk]
            · simp [hkk]

/-! ## Values joined under a key -/

section Joined

variable {β : Type} {value : α → List β}

def joinedOf (key : α → κ) (value : α → List β) (xs : List α) : InsertionMap κ (List β) :=
  xs.foldl (fun m x => m.set (key x) ((m.lookup (key x)).getD [] ++ value x)) ∅

theorem lookup_joinedOf : (joinedOf key value xs).lookup k =
    if xs.filter (key · = k) = [] then none else some ((xs.filter (key · = k)).flatMap value) := by
  induction xs using List.reverseRecOn with
  | nil => rfl
  | append_singleton xs x ih =>
      unfold joinedOf at ih ⊢
      rw [List.foldl_append, List.foldl_cons, List.foldl_nil, InsertionMap.lookup_set, List.filter_append]
      by_cases hk : k = key x
      · subst hk
        have hx : [x].filter (key · = key x) = [x] := by simp
        rw [if_pos rfl, ih, hx, if_neg (List.append_ne_nil_of_right_ne_nil _ (List.cons_ne_nil _ _)),
          List.flatMap_append, List.flatMap_cons, List.flatMap_nil, List.append_nil]
        split
        next hnil =>
          rw [hnil]
          rfl
        next => rfl
      · have hx : [x].filter (key · = k) = [] := by simp [Ne.symm hk]
        rw [if_neg hk, ih, hx, List.append_nil]

end Joined

/-- The groups of all keys, one after the other. -/
theorem flatMap_groups_perm {ks : List κ} (hks : ks.Nodup) (hall : ∀ x ∈ xs, key x ∈ ks) :
    (ks.flatMap fun k => xs.filter (key · = k)).Perm xs := by
  have hperm := @flatMap_filter_perm α κ _ (fun x => some (key x)) ks hks xs
  have hsame : xs.filter (fun x => (some (key x)).any (· ∈ ks)) = xs :=
    List.filter_eq_self.mpr fun x hx => by simpa using hall x hx
  rw [hsame] at hperm
  simpa using hperm

end RedFireForge.Lib
