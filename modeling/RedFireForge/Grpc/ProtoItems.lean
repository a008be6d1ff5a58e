/-
# `RedFireForge.Grpc.ProtoItems` — what a pass does with the items of a value

A pass changes a value of a field item by item: the value itself, the items of an array or the
values of a map.  Two values are related where they have the same shape and their items are
related; the relations of one pass after the other compose.
-/
import RedFireForge.Grpc.ProtoBodies
import RedFireForge.Grpc.ProtoSteps

namespace RedFireForge.Grpc.DynamicProtoCodec

open RedFireForge.Lib

/-! ## Related values -/

section Related

variable {label : Label} {v u z : Val} {items : List Val} {P Q R : Val → Val → Prop}

/-- Two values of one shape, item by item. -/
def Related (label : Label) (P : Val → Val → Prop) (v u : Val) : Prop :=
  match label with
  | .single => P v u
  | .repeated => ∃ l l', v = .arr l ∧ u = .arr l' ∧ List.Forall₂ P l l'
  | .map => ∃ es es', v = .obj es ∧ u = .obj es' ∧
      (∀ k x, es.lookup k = some x → ∃ y, es'.lookup k = some y ∧ P x y) ∧
      ∀ k y, es'.lookup k = some y → ∃ x, es.lookup k = some x ∧ P x y

theorem lookup_forall₂ {es es' : Obj} (h : List.Forall₂ (fun e e' : String × Val => e.1 = e'.1 ∧ P e.2 e'.2) es es')
    (k : String) : (∀ x, es.lookup k = some x → ∃ y, es'.lookup k = some y ∧ P x y) ∧
      ∀ y, es'.lookup k = some y → ∃ x, es.lookup k = some x ∧ P x y := by
  induction h with
  | nil => exact ⟨fun _ h => (nomatch h), fun _ h => (nomatch h)⟩
  | @cons e e' es es' he _ ih =>
      obtain ⟨a, w⟩ := e
      obtain ⟨a', w'⟩ := e'
      obtain ⟨rfl, hw⟩ := he
      rw [List.lookup_cons, List.lookup_cons]
      by_cases hk : k = a
      · rw [hk, beq_self_eq_true]
        exact ⟨fun x hx => ⟨w', rfl, Option.some.inj hx ▸ hw⟩, fun y hy => ⟨w, rfl, Option.some.inj hy ▸ hw⟩⟩
      · rw [beq_false_of_ne hk]
        exact ih

theorem mapM_ok {α γ : Type} {g : α → Except String γ} {l : List α} (h : ∀ x ∈ l, ∃ y, g x = .ok y) :
    ∃ l', l.mapM g = .ok l' := by
  induction l with
  | nil => exact ⟨[], rfl⟩
  | cons x l ih =>
      rw [List.forall_mem_cons] at h
      obtain ⟨y, hy⟩ := h.1
      obtain ⟨l', hl'⟩ := ih h.2
      exact ⟨y :: l', by rw [List.mapM_cons, hy, hl']; rfl⟩

theorem forall₂_of_mapM {α γ : Type} {g : α → Except String γ} {l : List α} {l' : List γ} (h : l.mapM g = .ok l') :
    List.Forall₂ (fun x y => g x = .ok y) l l' := by
  induction l generalizing l' with
  | nil =>
      obtain rfl := Except.ok.inj h
      exact .nil
  | cons x l ih =>
      rw [List.mapM_cons] at h
      cases hx : g x with
      | error e =>
          rw [hx] at h
          cases h
      | ok y =>
          cases hl : l.mapM g with
          | error e =>
              rw [hx, hl] at h
              cases h
          | ok l'' =>
              rw [hx, hl] at h
              obtain rfl := Except.ok.inj h
              exact .cons hx (ih hl)

/-- The loop over the entries of a map. -/
theorem related_entries {g : Val → Except String Val} {es es' : Obj}
    (h : ((ownEntries es).mapM fun e => (g e.2).map fun v => (e.1, v)) = .ok es') :
    Related .map (fun x y => g x = .ok y) (.obj es) (.obj es') := by
  have hentries : ∀ k, (∀ x, es.lookup k = some x → ∃ y, es'.lookup k = some y ∧ g x = .ok y) ∧
      ∀ y, es'.lookup k = some y → ∃ x, es.lookup k = some x ∧ g x = .ok y := by
    intro k
    rw [← @lookup_ownEntries String Val _ es]
    refine lookup_forall₂ ((forall₂_of_mapM h).imp fun e e' he => ?_) k
    cases hg : g e.2 with
    | error e =>
        rw [hg] at he
        cases he
    | ok y =>
        rw [hg] at he
        obtain rfl := Except.ok.inj he
        exact ⟨rfl, rfl⟩
  exact ⟨es, es', rfl, rfl, fun k => (hentries k).1, fun k => (hentries k).2⟩

theorem mem_values {es : Obj} {x : Val} : x ∈ (ownEntries es).map Prod.snd ↔ ∃ k, es.lookup k = some x := by
  rw [List.mem_map]
  constructor
  · rintro ⟨⟨k, w⟩, hmem, rfl⟩
    exact ⟨k, mem_ownEntries.mp hmem⟩
  · rintro ⟨k, hk⟩
    exact ⟨(k, x), mem_ownEntries.mpr hk, rfl⟩

theorem Related.refl (h : itemsOf label v = some items) (hP : ∀ x ∈ items, P x x) : Related label P v v := by
  match label, v with
  | .single, v => exact hP v (by rw [← Option.some.inj h]; exact List.mem_singleton_self v)
  | .repeated, .arr l =>
      obtain rfl := Option.some.inj h
      exact ⟨l, l, rfl, rfl, List.forall₂_same.mpr hP⟩
  | .map, .obj es =>
      obtain rfl := Option.some.inj h
      have hvalue : ∀ k x, es.lookup k = some x → ∃ y, es.lookup k = some y ∧ P x y := fun k x hx =>
        ⟨x, hx, hP x (mem_values.mpr ⟨k, hx⟩)⟩
      refine ⟨es, es, rfl, rfl, hvalue, fun k y hy => ?_⟩
      exact ⟨y, hy, hP y (mem_values.mpr ⟨k, hy⟩)⟩

theorem forall₂_imp_mem {l l' : List Val} (h : List.Forall₂ P l l') (hPQ : ∀ x ∈ l, ∀ y, P x y → Q x y) :
    List.Forall₂ Q l l' := by
  induction h with
  | nil => exact .nil
  | cons hxy _ ih =>
      rw [List.forall_mem_cons] at hPQ
      exact .cons (hPQ.1 _ hxy) (ih hPQ.2)

theorem Related.imp (h : Related label P v u) (hv : itemsOf label v = some items)
    (hPQ : ∀ x ∈ items, ∀ y, P x y → Q x y) : Related label Q v u := by
  match label, h with
  | .single, h =>
      obtain rfl := Option.some.inj hv
      exact hPQ v (List.mem_singleton_self v) u h
  | .repeated, ⟨l, l', hl, hl', hall⟩ =>
      subst hl
      obtain rfl := Option.some.inj hv
      exact ⟨l, l', rfl, hl', forall₂_imp_mem hall hPQ⟩
  | .map, ⟨es, es', hes, hes', hout, hback⟩ =>
      subst hes
      obtain rfl := Option.some.inj hv
      refine ⟨es, es', rfl, hes', fun k x hx => ?_, fun k y hy => ?_⟩
      · obtain ⟨y, hy, hxy⟩ := hout k x hx
        exact ⟨y, hy, hPQ x (mem_values.mpr ⟨k, hx⟩) y hxy⟩
      · obtain ⟨x, hx, hxy⟩ := hback k y hy
        exact ⟨x, hx, hPQ x (mem_values.mpr ⟨k, hx⟩) y hxy⟩

theorem Related.comp (h : Related label P v u) (h' : Related label Q u z)
    (hR : ∀ x y w, P x y → Q y w → R x w) : Related label R v z := by
  match label, h, h' with
  | .single, h, h' => exact hR v u z h h'
  | .repeated, ⟨l, l', hl, hl', hall⟩, ⟨m, m', hm, hm', hall'⟩ =>
      subst hl'
      obtain rfl := Val.arr.inj hm
      refine ⟨l, m', hl, hm', ?_⟩
      clear h h' hl hm hm'
      induction hall generalizing m' with
      | nil =>
          cases hall'
          exact .nil
      | cons hxy _ ih =>
          cases hall' with
          | cons hyw hrest => exact .cons (hR _ _ _ hxy hyw) (ih _ hrest)
  | .map, ⟨es, es', hes, hes', hout, hback⟩, ⟨fs, fs', hfs, hfs', hout', hback'⟩ =>
      subst hes'
      obtain rfl := Val.obj.inj hfs
      refine ⟨es, fs', hes, hfs', fun k x hx => ?_, fun k w hw => ?_⟩
      · obtain ⟨y, hy, hxy⟩ := hout k x hx
        obtain ⟨w, hw, hyw⟩ := hout' k y hy
        exact ⟨w, hw, hR x y w hxy hyw⟩
      · obtain ⟨y, hy, hyw⟩ := hback' k w hw
        obtain ⟨x, hx, hxy⟩ := hback k y hy
        exact ⟨x, hx, hR x y w hxy hyw⟩

theorem forall₂_mem {l l' : List Val} (h : List.Forall₂ P l l') :
    (∀ x ∈ l, ∃ y ∈ l', P x y) ∧ ∀ y ∈ l', ∃ x ∈ l, P x y := by
  induction h with
  | nil => exact ⟨fun _ h => absurd h List.not_mem_nil, fun _ h => absurd h List.not_mem_nil⟩
  | @cons x y l l' hxy _ ih =>
      refine ⟨fun w hw => ?_, fun w hw => ?_⟩
      · rcases List.mem_cons.mp hw with rfl | hw
        · exact ⟨y, List.mem_cons_self, hxy⟩
        · obtain ⟨z, hz, hwz⟩ := ih.1 w hw
          exact ⟨z, List.mem_cons_of_mem _ hz, hwz⟩
      · rcases List.mem_cons.mp hw with rfl | hw
        · exact ⟨x, List.mem_cons_self, hxy⟩
        · obtain ⟨z, hz, hwz⟩ := ih.2 w hw
          exact ⟨z, List.mem_cons_of_mem _ hz, hwz⟩

/-- Related values have items, each of which is related to one of the other. -/
theorem Related.corresponds (h : Related label P v u) : ∃ vs us, itemsOf label v = some vs ∧
    itemsOf label u = some us ∧ (∀ x ∈ vs, ∃ y ∈ us, P x y) ∧ ∀ y ∈ us, ∃ x ∈ vs, P x y := by
  match label, h with
  | .single, hvu =>
      refine ⟨[v], [u], rfl, rfl, ?_, ?_⟩
      · intro x hx
        exact ⟨u, List.mem_singleton_self u, List.mem_singleton.mp hx ▸ hvu⟩
      · intro y hy
        exact ⟨v, List.mem_singleton_self v, List.mem_singleton.mp hy ▸ hvu⟩
  | .repeated, ⟨l, l', hl, hl', hall⟩ =>
      subst hl hl'
      exact ⟨l, l', rfl, rfl, forall₂_mem hall⟩
  | .map, ⟨es, es', hes, hes', hout, hback⟩ =>
      subst hes hes'
      refine ⟨_, _, rfl, rfl, fun x hx => ?_, fun y hy => ?_⟩
      · obtain ⟨k, hk⟩ := mem_values.mp hx
        obtain ⟨y, hy, hxy⟩ := hout k x hk
        exact ⟨y, mem_values.mpr ⟨k, hy⟩, hxy⟩
      · obtain ⟨k, hk⟩ := mem_values.mp hy
        obtain ⟨x, hx, hxy⟩ := hback k y hk
        exact ⟨x, mem_values.mpr ⟨k, hx⟩, hxy⟩

end Related

/-! ## Items of trees -/

section TreeItems

variable {label : Label} {v u : Val} {items : List Val}

theorem plains_eq (us : List Tree) : plains us = us.map Tree.plain := by
  induction us with
  | nil => rfl
  | cons u us ih => rw [plains, ih, List.map_cons]

theorem plainAt_eq (u : Option Tree) : plainAt u = u.map Tree.plain := by
  cases u <;> rfl

theorem tree_eq_arr {us : List Tree} (h : v.tree = .arr us) : ∃ l, v = .arr l ∧ l.map Val.tree = us := by
  cases v with
  | arr l =>
      rw [Val.tree, treesOf_eq] at h
      exact ⟨l, rfl, Tree.arr.inj h⟩
  | _ => cases h

theorem tree_eq_obj {get : String → Option Tree} (h : v.tree = .obj get) :
    ∃ o, v = .obj o ∧ ∀ k, (o.lookup k).map Val.tree = get k := by
  cases v with
  | obj o =>
      refine ⟨o, rfl, fun k => ?_⟩
      rw [← treeAt_eq]
      exact congrFun (Tree.obj.inj h) k
  | _ => cases h

theorem tree_eq_str {s : String} (h : v.tree = .str s) : v = .str s := by
  cases v with
  | str s' => exact congrArg Val.str (Tree.str.inj h)
  | _ => cases h

theorem tree_eq_null (h : v.tree = .null) : v = .null := by
  cases v with
  | null => rfl
  | _ => cases h

theorem shaped_tree (h : itemsOf label v = some items) : Shaped label v.tree := by
  match label, v with
  | .single, _ => trivial
  | .repeated, .arr l => exact ⟨treesOf l, rfl⟩
  | .map, .obj es => exact ⟨treeAt es, rfl⟩

theorem itemsOf_shaped (h : Shaped label v.tree) : ∃ items, itemsOf label v = some items := by
  match label, h with
  | .single, _ => exact ⟨[v], rfl⟩
  | .repeated, ⟨us, hus⟩ =>
      obtain ⟨l, rfl, -⟩ := tree_eq_arr hus
      exact ⟨l, rfl⟩
  | .map, ⟨get, hget⟩ =>
      obtain ⟨o, rfl, -⟩ := tree_eq_obj hget
      exact ⟨_, rfl⟩

theorem treeItem_iff (h : itemsOf label v = some items) {w : Tree} :
    TreeItem label v.tree w ↔ ∃ x ∈ items, x.tree = w := by
  match label, v with
  | .single, v =>
      obtain rfl := Option.some.inj h
      exact ⟨fun hw => ⟨v, List.mem_singleton_self v, hw⟩, fun ⟨x, hx, hw⟩ => List.mem_singleton.mp hx ▸ hw⟩
  | .repeated, .arr l =>
      obtain rfl := Option.some.inj h
      constructor
      · rintro ⟨us, hus, hw⟩
        rw [Val.tree, treesOf_eq] at hus
        rw [← Tree.arr.inj hus] at hw
        exact List.mem_map.mp hw
      · intro hw
        exact ⟨treesOf l, rfl, by rw [treesOf_eq]; exact List.mem_map.mpr hw⟩
  | .map, .obj es =>
      obtain rfl := Option.some.inj h
      constructor
      · rintro ⟨get, k, hget, hw⟩
        rw [← Tree.obj.inj hget, treeAt_eq, Option.map_eq_some_iff] at hw
        obtain ⟨x, hx, hw⟩ := hw
        exact ⟨x, mem_values.mpr ⟨k, hx⟩, hw⟩
      · rintro ⟨x, hx, hw⟩
        obtain ⟨k, hk⟩ := mem_values.mp hx
        exact ⟨treeAt es, k, rfl, by rw [treeAt_eq, hk, Option.map_some, hw]⟩

/-- A change of trees that goes through arrays and objects. -/
structure Through (φ : Tree → Tree) : Prop where
  arr : ∀ us, φ (.arr us) = .arr (us.map φ)
  obj : ∀ get, φ (.obj get) = .obj fun k => (get k).map φ

theorem through_id : Through id := by
  refine ⟨fun us => ?_, fun get => ?_⟩
  · rw [List.map_id]
    rfl
  · simp only [Option.map_id]
    rfl

theorem through_plain : Through Tree.plain := by
  refine ⟨fun us => ?_, fun get => ?_⟩
  · rw [Tree.plain, plains_eq]
  · simp only [Tree.plain, plainAt_eq]

theorem related_tree {φ : Tree → Tree} (hφ : Through φ) (h : itemsOf label v = some items)
    (htree : u.tree = φ v.tree) : Related label (fun x y => y.tree = φ x.tree) v u := by
  match label, v with
  | .single, v => exact htree
  | .repeated, .arr l =>
      rw [Val.tree, hφ.arr, treesOf_eq] at htree
      obtain ⟨l', rfl, hl'⟩ := tree_eq_arr htree
      refine ⟨l, l', rfl, rfl, ?_⟩
      clear h htree
      induction l generalizing l' with
      | nil =>
          obtain rfl : l' = [] := List.map_eq_nil_iff.mp hl'
          exact .nil
      | cons x l ih =>
          cases l' with
          | nil => cases hl'
          | cons y l' =>
              rw [List.map_cons, List.map_cons, List.map_cons, List.cons.injEq] at hl'
              exact .cons hl'.1 (ih l' hl'.2)
  | .map, .obj es =>
      rw [Val.tree, hφ.obj] at htree
      obtain ⟨es', rfl, hes'⟩ := tree_eq_obj htree
      refine ⟨es, es', rfl, rfl, fun k x hx => ?_, fun k y hy => ?_⟩
      · have hk := hes' k
        rw [treeAt_eq, hx] at hk
        exact Option.map_eq_some_iff.mp hk
      · have hk := hes' k
        rw [treeAt_eq, hy] at hk
        obtain ⟨_, htree, hxy⟩ := Option.map_eq_some_iff.mp hk.symm
        obtain ⟨x, hx, rfl⟩ := Option.map_eq_some_iff.mp htree
        exact ⟨x, hx, hxy.symm⟩

theorem tree_related (h : Related label (fun x y => y.tree = x.tree) v u) : u.tree = v.tree := by
  match label, h with
  | .single, h => exact h
  | .repeated, ⟨l, l', hl, hl', hall⟩ =>
      subst hl hl'
      rw [Val.tree, Val.tree, treesOf_eq, treesOf_eq]
      refine congrArg Tree.arr ?_
      clear h
      induction hall with
      | nil => rfl
      | cons hxy _ ih => rw [List.map_cons, List.map_cons, hxy, ih]
  | .map, ⟨es, es', hes, hes', hout, hback⟩ =>
      subst hes hes'
      rw [Val.tree, Val.tree]
      refine congrArg Tree.obj (funext fun k => ?_)
      rw [treeAt_eq, treeAt_eq]
      cases hx : es.lookup k with
      | some x =>
          obtain ⟨y, hy, hxy⟩ := hout k x hx
          rw [hy, Option.map_some, Option.map_some, hxy]
      | none =>
          cases hy : es'.lookup k with
          | none => rfl
          | some y =>
              obtain ⟨x, hx', -⟩ := hback k y hy
              rw [hx] at hx'
              cases hx'

end TreeItems

/-! ## What the passes do with items -/

section Passes

variable {τ β : Type} {lib : Library τ β} {root : Root τ} {other : String → Option ℤ} {f : Field τ} {label : Label}
  {v u : Val} {items : List Val} {g : Val → Except String Val} {result : Except String Val}

def overItems (label : Label) (g : Val → Except String Val) (v : Val) : Except String Val :=
  match label, v with
  | .single, v => g v
  | .repeated, .arr items => (items.mapM g).map Val.arr
  | .map, .obj o => ((ownEntries o).mapM fun e => (g e.2).map fun v => (e.1, v)).map Val.obj
  | _, v => .ok v

theorem overItems_arr (l : List Val) {g' : Val → Except String Val} (h : g = g') :
    overItems .repeated g (.arr l) = (l.mapM g').map Val.arr := by
  rw [h, overItems]

/-- The items are changed one by one, or nothing is. -/
def ActsOnItems (label : Label) (g : Val → Except String Val) (v : Val) (result : Except String Val) : Prop :=
  result = overItems label g v ∨ (result = .ok v ∧ ∀ x, g x = .ok x)

theorem map_ok {α γ : Type} {h : α → γ} {e : Except String α} {y : γ} (he : e.map h = .ok y) :
    ∃ x, e = .ok x ∧ h x = y := by
  cases e with
  | error _ => cases he
  | ok x => exact ⟨x, rfl, Except.ok.inj he⟩

theorem ActsOnItems.related (h : ActsOnItems label g v (.ok u)) (hv : itemsOf label v = some items) :
    Related label (fun x y => g x = .ok y) v u := by
  rcases h with h | ⟨h, hg⟩
  · match label, v with
    | .single, v => exact h.symm
    | .repeated, .arr l =>
        obtain ⟨l', hl', rfl⟩ := map_ok h.symm
        exact ⟨l, l', rfl, rfl, forall₂_of_mapM hl'⟩
    | .map, .obj es =>
        obtain ⟨es', hes', rfl⟩ := map_ok h.symm
        exact related_entries hes'
  · obtain rfl := Except.ok.inj h
    exact Related.refl hv fun x _ => hg x

theorem ActsOnItems.ok (h : ActsOnItems label g v result) (hv : itemsOf label v = some items)
    (hok : ∀ x ∈ items, ∃ y, g x = .ok y) : ∃ u, result = .ok u := by
  rcases h with h | ⟨h, -⟩
  · subst h
    match label, v with
    | .single, v =>
        obtain rfl := Option.some.inj hv
        exact hok v (List.mem_singleton_self v)
    | .repeated, .arr l =>
        obtain rfl := Option.some.inj hv
        obtain ⟨l', hl'⟩ := mapM_ok hok
        exact ⟨.arr l', by rw [overItems, hl']; rfl⟩
    | .map, .obj es =>
        obtain rfl := Option.some.inj hv
        have hentries : ∀ e ∈ ownEntries es, ∃ e', (g e.2).map (fun v => (e.1, v)) = .ok e' := by
          intro e he
          obtain ⟨y, hy⟩ := hok e.2 (List.mem_map.mpr ⟨e, he, rfl⟩)
          exact ⟨(e.1, y), by rw [hy]; rfl⟩
        obtain ⟨es', hes'⟩ := mapM_ok hentries
        exact ⟨.obj es', by rw [overItems, hes']; rfl⟩
  · exact ⟨v, h⟩

/-- A value of another shape is left alone. -/
theorem ActsOnItems.unshaped (h : ActsOnItems label g v result) (hv : itemsOf label v = none) : result = .ok v := by
  rcases h with h | ⟨h, -⟩
  · rw [h]
    match label, v with
    | .repeated, .null | .repeated, .bool _ | .repeated, .num _ | .repeated, .str _ | .repeated, .long _
    | .repeated, .obj _ | .map, .null | .map, .bool _ | .map, .num _ | .map, .str _ | .map, .long _
    | .map, .arr _ => rfl
  · exact h

def alignedItem (recur : τ → Obj → Obj) (f : Field τ) (x : Val) : Val :=
  match f.type with
  | .scalar _ => x
  | .message t =>
      if f.label = .map then x
      else
        match x with
        | .obj o => .obj (recur t o)
        | x => x

theorem aligned_acts (recur : τ → Obj → Obj) :
    ActsOnItems f.label (fun x => .ok (alignedItem recur f x)) v (.ok (alignedValue recur f v)) := by
  obtain ⟨name, schemaName, type, label⟩ := f
  cases type with
  | scalar _ => exact Or.inr ⟨rfl, fun _ => rfl⟩
  | message t =>
      cases label with
      | single => cases v <;> exact Or.inl rfl
      | repeated =>
          cases v with
          | arr l =>
              have hpure := @List.mapM_pure (Except String) _ _ _ _ l
                (alignedItem recur ⟨name, schemaName, .message t, .repeated⟩)
              exact Or.inl (congrArg (fun l' => Except.map Val.arr l') hpure.symm)
          | _ => exact Or.inl rfl
      | map => cases v <;> exact Or.inr ⟨rfl, fun _ => rfl⟩

def normalizedItem (lib : Library τ β) (root : Root τ) (other : String → Option ℤ)
    (recur : τ → Obj → Except String Obj) (f : Field τ) (x : Val) : Except String Val :=
  match f.type with
  | .scalar name => if name ∈ wideLongFieldTypes then coerceWideLongForEncode lib x name else .ok x
  | .message t =>
      if root.isTimestampType t then timestampItem other recur t x
      else if f.label = .map then .ok x
      else
        match x with
        | .obj o => (recur t o).map Val.obj
        | x => .ok x

theorem normalized_acts (recur : τ → Obj → Except String Obj) :
    ActsOnItems f.label (normalizedItem lib root other recur f) v (normalizedValue lib root other recur f v) := by
  obtain ⟨name, schemaName, type, label⟩ := f
  cases type with
  | scalar scalarName =>
      by_cases hwide : scalarName ∈ wideLongFieldTypes
      · have hitem : normalizedItem lib root other recur ⟨name, schemaName, .scalar scalarName, label⟩ =
            fun x => coerceWideLongForEncode lib x scalarName := funext fun _ => if_pos hwide
        rw [hitem]
        cases label <;> cases v <;> exact Or.inl (by simp only [normalizedValue, overItems, hwide, if_true])
      · have hitem : ∀ x, normalizedItem lib root other recur ⟨name, schemaName, .scalar scalarName, label⟩ x = .ok x :=
          fun _ => if_neg hwide
        refine Or.inr ⟨?_, hitem⟩
        cases label <;> cases v <;> simp only [normalizedValue, hwide, if_false]
  | message t =>
      cases ht : root.isTimestampType t with
      | true =>
          have hitem : normalizedItem lib root other recur ⟨name, schemaName, .message t, label⟩ =
              timestampItem other recur t := funext fun _ => if_pos ht
          rw [hitem]
          cases label <;> cases v <;> exact Or.inl (by simp only [normalizedValue, overItems, ht, if_true])
      | false =>
          cases label with
          | map =>
              refine Or.inr ⟨?_, fun x => ?_⟩
              · cases v <;> simp [normalizedValue, ht]
              · simp [normalizedItem, ht]
          | single => cases v <;> exact Or.inl (by simp [normalizedValue, overItems, normalizedItem, ht])
          | repeated =>
              cases v with
              | arr l =>
                  refine Or.inl (overItems_arr l (funext fun item => ?_)).symm
                  cases item <;> simp [normalizedItem, ht]
              | _ => exact Or.inl rfl

def decodedOf (root : Root τ) (recur : τ → Obj → Except String Obj) (f : Field τ) (x : Val) : Except String Val :=
  match f.type with
  | .scalar _ => .ok x
  | .message t => if f.label = .map ∧ root.isTimestampType t = false then .ok x else decodedItem root recur t x

theorem decoded_acts (recur : τ → Obj → Except String Obj) :
    ActsOnItems f.label (decodedOf root recur f) v (decodedValue root recur f v) := by
  obtain ⟨name, schemaName, type, label⟩ := f
  cases type with
  | scalar _ => exact Or.inr ⟨rfl, fun _ => rfl⟩
  | message t =>
      cases label with
      | single =>
          refine Or.inl ?_
          cases ht : root.isTimestampType t <;> cases v <;>
            simp [decodedValue, overItems, decodedOf, decodedItem, timestampWireObjectToIso, ht]
      | repeated =>
          cases v with
          | arr l =>
              refine Or.inl (overItems_arr l (funext fun item => ?_)).symm
              simp [decodedOf]
          | _ => exact Or.inl rfl
      | map =>
          cases ht : root.isTimestampType t with
          | true =>
              refine Or.inl ?_
              cases v <;> simp [decodedValue, overItems, decodedOf, decodedItem, ht]
          | false =>
              refine Or.inr ⟨?_, fun x => ?_⟩
              · cases v <;> simp [decodedValue, ht]
              · simp [decodedOf, ht]

end Passes

end RedFireForge.Grpc.DynamicProtoCodec
