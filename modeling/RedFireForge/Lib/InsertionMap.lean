/-
# `RedFireForge.Lib.InsertionMap` — maps that keep the order of insertion

An `AList` whose entries stand in the order in which their keys were set: setting a key
anew keeps its place, a new key goes to the end.  `lookup`, `erase` and the rest are those
of `AList`; a filter is a loop over the map that erases entries as it goes.
-/
import Mathlib.Data.List.AList

namespace RedFireForge.Lib

abbrev InsertionMap (κ α : Type*) := AList (fun _ : κ => α)

namespace InsertionMap

variable {κ α : Type*} [DecidableEq κ]

def set (m : InsertionMap κ α) (k : κ) (v : α) : InsertionMap κ α :=
  m.replace k v ∪ AList.singleton k v

def filter (p : κ → α → Bool) (m : InsertionMap κ α) : InsertionMap κ α where
  entries := m.entries.filter (fun x => p x.1 x.2)
  nodupKeys := m.nodupKeys.sublist List.filter_sublist

def map {β : Type*} (f : α → β) (m : InsertionMap κ α) : InsertionMap κ β where
  entries := m.entries.map fun x => ⟨x.1, f x.2⟩
  nodupKeys := by
    have hkeys : (m.entries.map fun x => (⟨x.1, f x.2⟩ : (_ : κ) × β)).keys = m.entries.keys := List.map_map
    exact (congrArg List.Nodup hkeys).mpr m.nodupKeys

def values (m : InsertionMap κ α) : List α := m.entries.map Sigma.snd

/-- The key that has been in the map for longest. -/
def oldest (m : InsertionMap κ α) : Option κ := m.keys.head?

def size (m : InsertionMap κ α) : ℕ := m.entries.length

variable {m : InsertionMap κ α} {k k' : κ} {v : α}

theorem lookup_replace_ne (h : k' ≠ k) : (m.replace k v).lookup k' = m.lookup k' := by
  have hlist : ∀ l : List ((_ : κ) × α), (List.kreplace k v l).dlookup k' = l.dlookup k' := by
    intro l
    induction l with
    | nil => rfl
    | cons x l ih =>
        obtain ⟨a, b⟩ := x
        rw [List.kreplace, List.lookmap_cons]
        by_cases ha : k = a
        · subst ha
          simp [List.dlookup_cons_ne, h]
        · rw [if_neg ha]
          by_cases hk : k' = a
          · subst hk
            simp
          · rw [List.dlookup_cons_ne _ _ hk, List.dlookup_cons_ne _ _ hk]
            exact ih
  exact hlist m.entries

theorem lookup_replace_self (h : k ∈ m) : (m.replace k v).lookup k = some v := by
  have hlist : ∀ l : List ((_ : κ) × α), k ∈ l.keys → (List.kreplace k v l).dlookup k = some v := by
    intro l
    induction l with
    | nil => exact nofun
    | cons x l ih =>
        obtain ⟨a, b⟩ := x
        intro hl
        rw [List.kreplace, List.lookmap_cons]
        by_cases ha : k = a
        · subst ha
          simp
        · rw [if_neg ha, List.dlookup_cons_ne _ _ ha]
          exact ih ((List.mem_cons.mp hl).resolve_left ha)
  exact hlist m.entries h

theorem lookup_set : (m.set k v).lookup k' = if k' = k then some v else m.lookup k' := by
  unfold set
  by_cases hk : k' = k
  · subst hk
    rw [if_pos rfl]
    by_cases hmem : k' ∈ m
    · rw [AList.lookup_union_left (AList.mem_replace.mpr hmem), lookup_replace_self hmem]
    · rw [AList.lookup_union_right (fun hin => hmem (AList.mem_replace.mp hin))]
      exact List.dlookup_cons_eq _ _ _
  · rw [if_neg hk]
    by_cases hmem : k' ∈ m
    · rw [AList.lookup_union_left (AList.mem_replace.mpr hmem), lookup_replace_ne hk]
    · rw [AList.lookup_union_right (fun hin => hmem (AList.mem_replace.mp hin)),
        AList.lookup_eq_none.mpr hmem]
      exact List.dlookup_cons_ne _ _ hk

@[simp] theorem lookup_set_self : (m.set k v).lookup k = some v := by
  rw [lookup_set, if_pos rfl]

theorem lookup_set_ne (h : k' ≠ k) : (m.set k v).lookup k' = m.lookup k' := by
  rw [lookup_set, if_neg h]

/-- Of several entries for one key the last one counts. -/
theorem lookup_foldl_set {β : Type*} (key : β → κ) (value : β → α) (xs : List β) :
    (xs.foldl (fun m x => m.set (key x) (value x)) m).lookup k =
      ((xs.reverse.find? (key · = k)).map value).or (m.lookup k) := by
  induction xs generalizing m with
  | nil => rfl
  | cons x xs ih =>
      rw [List.foldl_cons, ih, lookup_set, List.reverse_cons, List.find?_append]
      cases xs.reverse.find? (key · = k) with
      | some y => rfl
      | none =>
          by_cases hx : key x = k
          · simp [hx]
          · simp [hx, Ne.symm hx]

theorem lookup_erase : (m.erase k).lookup k' = if k' = k then none else m.lookup k' := by
  split
  next h => exact h ▸ AList.lookup_erase k' m
  next h => exact AList.lookup_erase_ne h

theorem lookup_foldl_erase (ks : List κ) : ∀ m : InsertionMap κ α,
    (ks.foldl (fun m k => m.erase k) m).lookup k = if k ∈ ks then none else m.lookup k := by
  induction ks with
  | nil => intro m; rfl
  | cons x ks ih =>
      intro m
      rw [List.foldl_cons, ih, lookup_erase]
      by_cases hx : k = x
      · simp [hx]
      · simp [hx]

theorem mem_entries : (⟨k, v⟩ : (_ : κ) × α) ∈ m.entries ↔ m.lookup k = some v :=
  AList.mem_lookup_iff.symm

theorem mem_values : v ∈ m.values ↔ ∃ k, m.lookup k = some v := by
  simp only [values, List.mem_map, ← mem_entries]
  constructor
  · rintro ⟨⟨k, v⟩, h, rfl⟩
    exact ⟨k, h⟩
  · rintro ⟨k, h⟩
    exact ⟨⟨k, v⟩, h, rfl⟩

theorem lookup_map {β : Type*} (f : α → β) : (m.map f).lookup k = (m.lookup k).map f := by
  refine Option.ext (fun v => ?_)
  rw [← mem_entries, map, List.mem_map, Option.map_eq_some_iff]
  constructor
  · rintro ⟨⟨k', a⟩, ha, hv⟩
    obtain ⟨rfl, rfl⟩ := Sigma.mk.inj_iff.mp hv
    exact ⟨a, mem_entries.mp ha, rfl⟩
  · rintro ⟨a, ha, rfl⟩
    exact ⟨⟨k, a⟩, mem_entries.mpr ha, rfl⟩

theorem lookup_filter (p : κ → α → Bool) :
    (m.filter p).lookup k = (m.lookup k).filter (p k) := by
  refine Option.ext (fun v => ?_)
  rw [← mem_entries, filter, List.mem_filter, mem_entries, Option.filter_eq_some_iff]

end InsertionMap

end RedFireForge.Lib
