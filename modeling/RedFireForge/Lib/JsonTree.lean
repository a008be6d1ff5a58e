/-
# `RedFireForge.Lib.JsonTree` — what stands where in a JSON value

A path goes down by keys and indices.  Two values whose objects list their keys in the
same strict order are equal if the same stands at the end of every path.
-/
import Mathlib.Data.List.Sort
import RedFireForge.Lib.Json

namespace RedFireForge.Lib

namespace Json

inductive Step
  | key (name : String)
  | index (i : ℕ)
deriving DecidableEq, Repr

/-- A value without what is in it. -/
inductive Head
  | null
  | bool (b : Bool)
  | num (n : JsNumber)
  | str (s : String)
  | arr (length : ℕ)
  | obj
deriving DecidableEq, Repr

def head : Json → Head
  | .null => .null
  | .bool b => .bool b
  | .num n => .num n
  | .str s => .str s
  | .arr items => .arr items.length
  | .obj _ => .obj

def child : Json → Step → Option Json
  | .obj fields, .key name => fields.lookup name
  | .arr items, .index i => items[i]?
  | _, _ => none

def sub (j : Json) : List Step → Option Json
  | [] => some j
  | s :: path => (j.child s).bind (fun j' => j'.sub path)

/-- What stands at the end of a path. -/
def headAt (j : Json) (path : List Step) : Option Head := (j.sub path).map head

/-- Every object has such keys. -/
def EachObject (P : List String → Prop) (j : Json) : Prop :=
  ∀ path fields, j.sub path = some (.obj fields) → P (fields.map Prod.fst)

variable {P Q : List String → Prop} {j j' : Json} {items : List Json}
  {fields fields' : List (String × Json)}

theorem sub_cons (s : Step) (path : List Step) :
    j.sub (s :: path) = (j.child s).bind (fun j' => j'.sub path) := rfl

theorem headAt_cons (s : Step) (path : List Step) :
    j.headAt (s :: path) = (j.child s).bind (fun j' => j'.headAt path) := by
  rw [headAt, sub_cons, Option.map_bind]
  rfl

theorem EachObject.child {s : Step} (h : EachObject P j) (hs : j.child s = some j') :
    EachObject P j' := by
  intro path fields hsub
  refine h (s :: path) fields ?_
  rw [sub_cons, hs]
  exact hsub

theorem eachObject_obj : EachObject P (.obj fields) ↔
    P (fields.map Prod.fst) ∧ ∀ name j, fields.lookup name = some j → EachObject P j := by
  constructor
  · intro h
    exact ⟨h [] fields rfl, fun name j hj => h.child (s := .key name) hj⟩
  · rintro ⟨hkeys, hall⟩ path fields' hsub
    cases path with
    | nil =>
        cases Option.some.inj hsub
        exact hkeys
    | cons s path =>
        rw [sub_cons] at hsub
        obtain ⟨j, hj, hpath⟩ := Option.bind_eq_some_iff.mp hsub
        cases s with
        | key name => exact hall name j hj path fields' hpath
        | index i => cases hj

theorem eachObject_arr : EachObject P (.arr items) ↔ ∀ j ∈ items, EachObject P j := by
  constructor
  · intro h j hj
    obtain ⟨i, hi⟩ := List.mem_iff_getElem?.mp hj
    exact h.child (s := .index i) hi
  · intro hall path fields hsub
    cases path with
    | nil => cases Option.some.inj hsub
    | cons s path =>
        rw [sub_cons] at hsub
        obtain ⟨j, hj, hpath⟩ := Option.bind_eq_some_iff.mp hsub
        cases s with
        | key name => cases hj
        | index i => exact hall j (List.mem_of_getElem? hj) path fields hpath

/-- Every object of a class that is closed downwards has the keys that its members have. -/
theorem eachObject_of_closed {C : Json → Prop}
    (hdown : ∀ j s j', C j → j.child s = some j' → C j')
    (hkeys : ∀ fields, C (.obj fields) → P (fields.map Prod.fst)) (hj : C j) : EachObject P j := by
  intro path
  induction path generalizing j with
  | nil =>
      intro fields hsub
      rw [Option.some.inj hsub] at hj
      exact hkeys fields hj
  | cons s path ih =>
      intro fields hsub
      rw [sub_cons] at hsub
      obtain ⟨j', hs, hpath⟩ := Option.bind_eq_some_iff.mp hsub
      exact ih (hdown j s j' hj hs) fields hpath

/-- A change of the values that keeps what stands at a place and drops some places. -/
theorem headAt_of_child {T : Json → Json} {D : Step → Bool} {C : Json → Prop}
    (hdown : ∀ j s j', C j → j.child s = some j' → C j') (hhead : ∀ j, (T j).head = j.head)
    (hchild : ∀ j s, C j → (T j).child s = if D s then none else (j.child s).map T)
    (path : List Step) (hj : C j) :
    (T j).headAt path = if path.any D then none else j.headAt path := by
  induction path generalizing j with
  | nil =>
      show some (T j).head = some j.head
      rw [hhead]
  | cons s path ih =>
      rw [headAt_cons, headAt_cons, hchild j s hj, List.any_cons]
      cases hs : D s with
      | true => rfl
      | false =>
          show ((j.child s).map T).bind (fun j' => j'.headAt path) = if path.any D then none
            else (j.child s).bind (fun j' => j'.headAt path)
          cases hc : j.child s with
          | none => simp
          | some j' => exact ih (hdown j s j' hj hc)

mutual
/-- Looks at the keys of every object. -/
def checkObjects (p : List String → Bool) : Json → Bool
  | .arr items => checkItems p items
  | .obj fields => p (fields.map Prod.fst) && checkFields p fields
  | _ => true

def checkItems (p : List String → Bool) : List Json → Bool
  | [] => true
  | j :: items => checkObjects p j && checkItems p items

def checkFields (p : List String → Bool) : List (String × Json) → Bool
  | [] => true
  | (_, j) :: fields => checkObjects p j && checkFields p fields
end

theorem checkItems_iff {p : List String → Bool} :
    checkItems p items = true ↔ ∀ j ∈ items, checkObjects p j = true := by
  induction items with
  | nil => simp [checkItems]
  | cons j items ih => rw [checkItems, Bool.and_eq_true, ih, List.forall_mem_cons]

theorem checkFields_iff {p : List String → Bool} :
    checkFields p fields = true ↔ ∀ f ∈ fields, checkObjects p f.2 = true := by
  induction fields with
  | nil => simp [checkFields]
  | cons f fields ih => rw [checkFields, Bool.and_eq_true, ih, List.forall_mem_cons]

mutual
/-- How many values there are in a value, itself counted. -/
def size : Json → ℕ
  | .arr items => sizeItems items + 1
  | .obj fields => sizeFields fields + 1
  | _ => 1
def sizeItems : List Json → ℕ
  | [] => 0
  | j :: items => size j + sizeItems items
def sizeFields : List (String × Json) → ℕ
  | [] => 0
  | (_, j) :: fields => size j + sizeFields fields
end

theorem size_pos : 0 < size j := by
  cases j <;> simp [size]

theorem size_le_sizeItems (h : j ∈ items) : size j ≤ sizeItems items := by
  induction items with
  | nil => cases h
  | cons j' items ih =>
      rw [sizeItems]
      obtain rfl | h := List.mem_cons.mp h
      · omega
      · have := ih h
        omega

theorem size_le_sizeFields {name : String} (h : (name, j) ∈ fields) : size j ≤ sizeFields fields := by
  induction fields with
  | nil => cases h
  | cons f fields ih =>
      obtain ⟨name', j'⟩ := f
      rw [sizeFields]
      obtain h | h := List.mem_cons.mp h
      · cases h
        omega
      · have := ih h
        omega

theorem mem_of_lookup {name : String} (h : fields.lookup name = some j) : (name, j) ∈ fields := by
  obtain ⟨before, after, rfl, -⟩ := List.lookup_eq_some_iff.mp h
  simp

theorem size_child {s : Step} (h : j.child s = some j') : j'.size < j.size := by
  cases j with
  | arr items =>
      cases s with
      | index i => exact Nat.lt_succ_of_le (size_le_sizeItems (List.mem_of_getElem? h))
      | key name => cases h
  | obj fields =>
      cases s with
      | key name => exact Nat.lt_succ_of_le (size_le_sizeFields (mem_of_lookup h))
      | index i => cases h
  | _ => cases h

theorem eachObject_of_check {p : List String → Bool} (h : checkObjects p j = true) :
    EachObject (fun keys => p keys = true) j := by
  refine eachObject_of_closed (C := fun j => checkObjects p j = true) ?_ ?_ h
  · intro j s j' hj hs
    cases j with
    | arr items =>
        cases s with
        | index i => exact checkItems_iff.mp hj j' (List.mem_of_getElem? hs)
        | key name => cases hs
    | obj fields =>
        cases s with
        | index i => cases hs
        | key name =>
            rw [checkObjects, Bool.and_eq_true] at hj
            exact checkFields_iff.mp hj.2 (name, j') (mem_of_lookup hs)
    | _ => cases hs
  · intro fields hfields
    rw [checkObjects, Bool.and_eq_true] at hfields
    exact hfields.1

/-! ## Keys that occur once -/

theorem lookup_eq_some_iff_mem (hkeys : (fields.map Prod.fst).Nodup) {name : String} :
    fields.lookup name = some j ↔ (name, j) ∈ fields := by
  induction fields with
  | nil => simp
  | cons f fields ih =>
      obtain ⟨key, j'⟩ := f
      obtain ⟨hkey, hkeys⟩ := List.nodup_cons.mp hkeys
      rw [List.lookup_cons, List.mem_cons]
      cases hname : name == key with
      | true =>
          rw [beq_iff_eq.mp hname]
          simp only [Option.some.injEq, Prod.mk.injEq, true_and]
          constructor
          · exact fun h => Or.inl h.symm
          · rintro (h | hmem)
            · exact h.symm
            · exact absurd (List.mem_map_of_mem (f := Prod.fst) hmem) hkey
      | false =>
          have hne : name ≠ key := beq_eq_false_iff_ne.mp hname
          simp only [Prod.mk.injEq, hne, false_and, false_or]
          exact ih hkeys

theorem lookup_perm (hkeys : (fields.map Prod.fst).Nodup) (h : fields.Perm fields') (name : String) :
    fields.lookup name = fields'.lookup name := by
  have hkeys' : (fields'.map Prod.fst).Nodup := (h.map Prod.fst).nodup_iff.mp hkeys
  refine Option.ext (fun j => ?_)
  rw [lookup_eq_some_iff_mem hkeys, lookup_eq_some_iff_mem hkeys', h.mem_iff]

/-! ## Fields that are left out -/

/-- The fields with other keys, their values changed. -/
def keepFields (names : List String) (T : Json → Json) (fields : List (String × Json)) :
    List (String × Json) :=
  (fields.filter (fun f => decide (f.1 ∉ names))).map (fun f => (f.1, T f.2))

theorem keepFields_cons {names : List String} {T : Json → Json} {f : String × Json} :
    keepFields names T (f :: fields) =
      if f.1 ∈ names then keepFields names T fields else (f.1, T f.2) :: keepFields names T fields := by
  unfold keepFields
  rw [List.filter_cons]
  by_cases hf : f.1 ∈ names
  · rw [if_pos hf, if_neg (by simpa using hf)]
  · rw [if_neg hf, if_pos (by simpa using hf), List.map_cons]

theorem lookup_keepFields {names : List String} {T : Json → Json} {name : String} :
    (keepFields names T fields).lookup name =
      if name ∈ names then none else (fields.lookup name).map T := by
  induction fields with
  | nil => simp [keepFields]
  | cons f fields ih =>
      obtain ⟨key, j⟩ := f
      rw [keepFields_cons, List.lookup_cons]
      cases hname : name == key with
      | true =>
          rw [← beq_iff_eq.mp hname]
          split
          next hmem => rw [ih, if_pos hmem]
          next => simp
      | false =>
          split
          next => exact ih
          next =>
            rw [List.lookup_cons, hname]
            exact ih

theorem keys_keepFields_sublist {names : List String} {T : Json → Json} :
    ((keepFields names T fields).map Prod.fst).Sublist (fields.map Prod.fst) := by
  unfold keepFields
  rw [List.map_map]
  exact List.filter_sublist.map Prod.fst

/-! ## A field that is changed -/

def modifyFields (name : String) (f : Json → Json) : List (String × Json) → List (String × Json)
  | [] => []
  | (key, j) :: fields =>
      if key = name then (key, f j) :: fields else (key, j) :: modifyFields name f fields

/-- Changes what stands under a key of an object. -/
def modify (name : String) (f : Json → Json) : Json → Json
  | .obj fields => .obj (modifyFields name f fields)
  | j => j

theorem lookup_modifyFields {name name' : String} {f : Json → Json} :
    (modifyFields name f fields).lookup name' =
      if name' = name then (fields.lookup name').map f else fields.lookup name' := by
  induction fields with
  | nil => simp [modifyFields]
  | cons field fields ih =>
      obtain ⟨key, j⟩ := field
      rw [modifyFields, List.lookup_cons]
      by_cases hkey : key = name
      · subst hkey
        rw [if_pos rfl, List.lookup_cons]
        by_cases hname : name' = key
        · simp [hname]
        · simp [hname, beq_eq_false_iff_ne.mpr hname]
      · rw [if_neg hkey, List.lookup_cons, ih]
        by_cases hname : name' = key
        · subst hname
          simp [hkey]
        · simp [beq_eq_false_iff_ne.mpr hname]

theorem child_modify {name name' : String} {f : Json → Json} :
    (j.modify name f).child (.key name') =
      if name' = name then (j.child (.key name')).map f else j.child (.key name') := by
  cases j with
  | obj fields => exact lookup_modifyFields
  | _ => simp [modify, child]

theorem child_modify_self {name : String} {f : Json → Json} :
    (j.modify name f).child (.key name) = (j.child (.key name)).map f := by
  rw [child_modify, if_pos rfl]

theorem child_modify_ne {name name' : String} {f : Json → Json} (hne : name' ≠ name) :
    (j.modify name f).child (.key name') = j.child (.key name') := by
  rw [child_modify, if_neg hne]

/-! ## The same value -/

/-- The same value, but for the order of keys. -/
def SameValue (j j' : Json) : Prop := ∀ path, j.headAt path = j'.headAt path

theorem SameValue.symm (h : SameValue j j') : SameValue j' j := fun path => (h path).symm

theorem SameValue.trans {j'' : Json} (h : SameValue j j') (h' : SameValue j' j'') :
    SameValue j j'' := fun path => (h path).trans (h' path)

theorem SameValue.child {s : Step} {c : Json} (h : SameValue j j') (hc : j.child s = some c) :
    ∃ c', j'.child s = some c' ∧ SameValue c c' := by
  have hpath : ∀ path, c.headAt path = (j'.child s).bind (fun c' => c'.headAt path) := by
    intro path
    rw [← headAt_cons, ← h, headAt_cons, hc]
    rfl
  cases hc' : j'.child s with
  | none =>
      have hnone := hpath []
      rw [hc'] at hnone
      cases hnone
  | some c' =>
      refine ⟨c', rfl, fun path => ?_⟩
      rw [hpath, hc']
      rfl

theorem SameValue.head (h : SameValue j j') : j.head = j'.head := Option.some.inj (h [])

theorem SameValue.eq_str {s : String} (h : SameValue j j') (hj : j = .str s) : j' = .str s := by
  have hhead := h.head
  rw [hj] at hhead
  cases j' with
  | str s' =>
      cases hhead
      rfl
  | _ => cases hhead

theorem SameValue.sub_str {s : String} {path : List Step} (h : SameValue j j')
    (hj : j.sub path = some (.str s)) : j'.sub path = some (.str s) := by
  induction path generalizing j j' with
  | nil => exact congrArg some (h.eq_str (Option.some.inj hj))
  | cons step path ih =>
      rw [sub_cons] at hj ⊢
      obtain ⟨c, hc, hrest⟩ := Option.bind_eq_some_iff.mp hj
      obtain ⟨c', hc', hsame⟩ := h.child hc
      rw [hc']
      exact ih hsame hrest

/-! ## Texts under keys -/

mutual
/-- The strings that only objects lead to, each after the keys on its way. -/
def texts : Json → List (List String × String)
  | .str s => [([], s)]
  | .obj fields => fieldTexts fields
  | _ => []

def fieldTexts : List (String × Json) → List (List String × String)
  | [] => []
  | (key, j) :: fields => (texts j).map (fun l => (key :: l.1, l.2)) ++ fieldTexts fields
end

theorem mem_fieldTexts {l : List String × String} : l ∈ fieldTexts fields ↔
    ∃ f ∈ fields, ∃ l' ∈ texts f.2, (f.1 :: l'.1, l'.2) = l := by
  induction fields with
  | nil => simp [fieldTexts]
  | cons f fields ih =>
      rw [fieldTexts, List.mem_append, List.mem_map, ih]
      simp only [List.exists_mem_cons_iff]

theorem mem_texts {keys : List String} {s : String} (h : EachObject List.Nodup j) :
    (keys, s) ∈ texts j ↔ j.sub (keys.map Step.key) = some (.str s) := by
  induction keys generalizing j with
  | nil =>
      rw [List.map_nil, sub, Option.some.injEq]
      cases j with
      | obj fields =>
          refine iff_of_false ?_ nofun
          rw [texts, mem_fieldTexts]
          rintro ⟨f, -, l, -, heq⟩
          cases heq
      | str s' => simp [texts, eq_comm]
      | _ => simp [texts]
  | cons key keys ih =>
      rw [List.map_cons, sub_cons]
      cases j with
      | obj fields =>
          obtain ⟨hkeys, hall⟩ := eachObject_obj.mp h
          rw [texts, mem_fieldTexts, Option.bind_eq_some_iff]
          constructor
          · rintro ⟨⟨name, c⟩, hf, l, hl, heq⟩
            cases heq
            have hc := (lookup_eq_some_iff_mem hkeys).mpr hf
            exact ⟨c, hc, (ih (hall name c hc)).mp hl⟩
          · rintro ⟨c, hc, hsub⟩
            exact ⟨(key, c), mem_of_lookup hc, (keys, s), (ih (hall key c hc)).mpr hsub, rfl⟩
      | _ => simp [texts, child]

theorem under_injective (key : String) :
    Function.Injective (fun l : List String × String => (key :: l.1, l.2)) := by
  intro l l' heq
  simpa [Prod.ext_iff] using heq

mutual
theorem nodup_texts : ∀ j : Json, EachObject List.Nodup j → (texts j).Nodup
  | .obj fields, h => by
      obtain ⟨hkeys, hall⟩ := eachObject_obj.mp h
      refine nodup_fieldTexts fields hkeys (fun f hf => ?_)
      exact hall f.1 f.2 ((lookup_eq_some_iff_mem hkeys).mpr hf)
  | .str s, _ => List.nodup_singleton _
  | .null, _ | .bool _, _ | .num _, _ | .arr _, _ => List.nodup_nil

theorem nodup_fieldTexts : ∀ fields : List (String × Json), (fields.map Prod.fst).Nodup →
    (∀ f ∈ fields, EachObject List.Nodup f.2) → (fieldTexts fields).Nodup
  | [], _, _ => List.nodup_nil
  | (key, j) :: fields, hkeys, hall => by
      rw [List.map_cons, List.nodup_cons] at hkeys
      rw [List.forall_mem_cons] at hall
      rw [fieldTexts, List.nodup_append]
      refine ⟨(nodup_texts j hall.1).map ?_, nodup_fieldTexts fields hkeys.2 hall.2, ?_⟩
      · exact fun l l' heq => under_injective key heq
      · intro l hl l' hl' heq
        subst heq
        obtain ⟨l₁, -, rfl⟩ := List.mem_map.mp hl
        obtain ⟨f, hf, l₂, -, heq⟩ := mem_fieldTexts.mp hl'
        have hname : f.1 = key := (List.cons.inj (congrArg Prod.fst heq)).1
        have hmem : f.1 ∈ fields.map Prod.fst := List.mem_map_of_mem hf
        exact hkeys.1 (hname ▸ hmem)
end

/-- The order of keys is that of the texts, too. -/
theorem SameValue.texts_perm (h : SameValue j j') (hj : EachObject List.Nodup j)
    (hj' : EachObject List.Nodup j') : (texts j).Perm (texts j') := by
  refine (List.perm_ext_iff_of_nodup (nodup_texts j hj) (nodup_texts j' hj')).mpr fun l => ?_
  obtain ⟨keys, s⟩ := l
  rw [mem_texts hj, mem_texts hj']
  exact ⟨h.sub_str, h.symm.sub_str⟩

theorem sub_append (path path' : List Step) :
    j.sub (path ++ path') = (j.sub path).bind (fun c => c.sub path') := by
  induction path generalizing j with
  | nil => rfl
  | cons s path ih =>
      rw [List.cons_append, sub_cons, sub_cons, Option.bind_assoc]
      exact Option.bind_congr fun c _ => ih

/-- Nothing stands below a string. -/
theorem keys_eq_of_prefix {keys keys' : List String} {s s' : String}
    (h : j.sub (keys.map Step.key) = some (.str s)) (h' : j.sub (keys'.map Step.key) = some (.str s'))
    (hkeys : keys <+: keys') : keys = keys' := by
  obtain ⟨rest, rfl⟩ := hkeys
  rw [List.map_append, sub_append, h, Option.bind_some] at h'
  cases rest with
  | nil => exact (List.append_nil keys).symm
  | cons key rest => cases h'

/-! ## Sorted keys -/

variable {r : String → String → Prop}

theorem mem_keys_iff_headAt (hkeys : (fields.map Prod.fst).Nodup) {name : String} :
    name ∈ fields.map Prod.fst ↔ ((Json.obj fields).headAt [.key name]).isSome = true := by
  rw [headAt_cons]
  show _ ↔ ((fields.lookup name).bind (fun j => j.headAt [])).isSome = true
  constructor
  · intro hmem
    obtain ⟨⟨key, j⟩, hf, rfl⟩ := List.mem_map.mp hmem
    rw [(lookup_eq_some_iff_mem hkeys).mpr hf]
    rfl
  · intro hsome
    cases hj : fields.lookup name with
    | none =>
        rw [hj] at hsome
        cases hsome
    | some j => exact List.mem_map_of_mem (f := Prod.fst) ((lookup_eq_some_iff_mem hkeys).mp hj)

theorem keys_eq_of_headAt [Std.Asymm r] (hfields : (fields.map Prod.fst).Pairwise r)
    (hfields' : (fields'.map Prod.fst).Pairwise r)
    (h : ∀ path, (Json.obj fields).headAt path = (Json.obj fields').headAt path) :
    fields.map Prod.fst = fields'.map Prod.fst := by
  refine hfields.eq_of_mem_iff hfields' (fun name => ?_)
  rw [mem_keys_iff_headAt hfields.nodup, mem_keys_iff_headAt hfields'.nodup, h]

/-- Values with sorted keys are determined by what stands at the end of each path. -/
theorem eq_of_headAt [Std.Asymm r] (j j' : Json) (hj : EachObject (List.Pairwise r) j)
    (hj' : EachObject (List.Pairwise r) j') (h : ∀ path, j.headAt path = j'.headAt path) :
    j = j' := by
  have hhead : j.head = j'.head := Option.some.inj (h [])
  cases hshape : j with
  | arr items =>
      rw [hshape] at hj h hhead
      cases j' with
      | arr items' =>
          have hlen : items.length = items'.length := Head.arr.inj hhead
          congr 1
          refine List.ext_getElem hlen (fun i hi hi' => ?_)
          have hsize : sizeOf items[i] < sizeOf items := List.sizeOf_lt_of_mem (List.getElem_mem hi)
          refine eq_of_headAt items[i] items'[i] (eachObject_arr.mp hj _ (List.getElem_mem hi))
            (eachObject_arr.mp hj' _ (List.getElem_mem hi')) (fun path => ?_)
          have hpath := h (.index i :: path)
          rw [headAt_cons, headAt_cons] at hpath
          simpa only [child, List.getElem?_eq_getElem hi, List.getElem?_eq_getElem hi',
            Option.bind_some] using hpath
      | _ => cases hhead
  | obj fields =>
      rw [hshape] at hj h hhead
      cases j' with
      | obj fields' =>
          obtain ⟨hsorted, hvalues⟩ := eachObject_obj.mp hj
          obtain ⟨hsorted', hvalues'⟩ := eachObject_obj.mp hj'
          have hkeys := keys_eq_of_headAt hsorted hsorted' h
          have hlen : fields.length = fields'.length := by
            simpa only [List.length_map] using congrArg List.length hkeys
          congr 1
          refine List.ext_getElem hlen (fun i hi hi' => ?_)
          have hkey : fields[i].1 = fields'[i].1 := by
            have := List.getElem_of_eq hkeys (by rwa [List.length_map])
            simpa only [List.getElem_map] using this
          have hmem : (fields[i].1, fields[i].2) ∈ fields := List.getElem_mem hi
          have hmem' : (fields[i].1, fields'[i].2) ∈ fields' := by
            rw [hkey]
            exact List.getElem_mem hi'
          have hlook := (lookup_eq_some_iff_mem hsorted.nodup).mpr hmem
          have hlook' := (lookup_eq_some_iff_mem hsorted'.nodup).mpr hmem'
          have hsize : sizeOf fields[i].2 < sizeOf fields := by
            have := List.sizeOf_lt_of_mem hmem
            simp only [Prod.mk.sizeOf_spec] at this
            omega
          refine Prod.ext hkey (eq_of_headAt fields[i].2 fields'[i].2 (hvalues _ _ hlook)
            (hvalues' _ _ hlook') (fun path => ?_))
          have hpath := h (.key fields[i].1 :: path)
          rw [headAt_cons, headAt_cons] at hpath
          simpa only [child, hlook, hlook', Option.bind_some] using hpath
      | _ => cases hhead
  | null =>
      rw [hshape] at hhead
      cases j' with
      | null => rfl
      | _ => cases hhead
  | bool b =>
      rw [hshape] at hhead
      cases j' with
      | bool b' => exact congrArg Json.bool (Head.bool.inj hhead)
      | _ => cases hhead
  | num n =>
      rw [hshape] at hhead
      cases j' with
      | num n' => exact congrArg Json.num (Head.num.inj hhead)
      | _ => cases hhead
  | str s =>
      rw [hshape] at hhead
      cases j' with
      | str s' => exact congrArg Json.str (Head.str.inj hhead)
      | _ => cases hhead
termination_by sizeOf j
decreasing_by
  · rw [hshape, Json.arr.sizeOf_spec]
    omega
  · rw [hshape, Json.obj.sizeOf_spec]
    omega

end Json

end RedFireForge.Lib
