/-
# `RedFireForge.Grpc.ProtoStrict` — a library that takes the shape of the wire only

What is assumed of the library holds of one that takes objects in the shape of the wire and no
others, and gives them out with their 64-bit integers as texts.
-/
import RedFireForge.Grpc.ProtoItems

namespace RedFireForge.Grpc.DynamicProtoCodec

open RedFireForge.Lib

/-! ## A strict library -/

mutual

def Val.plain : Val → Val
  | .long n => .str (toString n)
  | .arr items => .arr (plainItems items)
  | .obj entries => .obj (plainEntries entries)
  | v => v

def plainItems : List Val → List Val
  | [] => []
  | v :: vs => v.plain :: plainItems vs

def plainEntries : List (String × Val) → List (String × Val)
  | [] => []
  | (k, v) :: es => (k, v.plain) :: plainEntries es

end

mutual

theorem tree_plain : ∀ v : Val, v.plain.tree = v.tree.plain
  | .null | .bool _ | .num _ | .str _ | .long _ => rfl
  | .arr items => congrArg Tree.arr (treesOf_plain items)
  | .obj entries => congrArg Tree.obj (funext fun k => treeAt_plain entries k)

theorem treesOf_plain : ∀ vs : List Val, treesOf (plainItems vs) = plains (treesOf vs)
  | [] => rfl
  | v :: vs => by rw [plainItems, treesOf, treesOf, plains, tree_plain v, treesOf_plain vs]

theorem treeAt_plain : ∀ (es : Obj) (k : String), treeAt (plainEntries es) k = plainAt (treeAt es k)
  | [], _ => rfl
  | (a, v) :: es, k => by
      rw [plainEntries, treeAt, treeAt, tree_plain v, treeAt_plain es k]
      split <;> rfl

end

section Strict

variable {τ : Type} {root : Root τ} {scalar : String → Val → Prop} {depth : ℕ} {t : τ}

theorem WireMessage.item {get : String → Option Tree} (h : WireMessage root scalar (depth + 1) t get) {f : Field τ}
    (hf : f ∈ root.fieldsArray t) {u x : Tree} (hu : get f.name = some u) (hx : TreeItem f.label u x)
    (hnull : x ≠ .null) : WireItem scalar (WireMessage root scalar depth) f.type x := by
  obtain ⟨u', hu', hitems⟩ := h.1 f hf
  obtain rfl := Option.some.inj (hu.symm.trans hu')
  rcases hitems with ⟨⟨hsingle, -⟩, rfl⟩ | ⟨-, hitems⟩
  · rw [hsingle] at hx
    exact absurd hx.symm hnull
  · exact hitems x hx

theorem WireMessage.not_rejected {get : String → Option Tree} (h : WireMessage root scalar depth t get) :
    ¬ Rejected root t get := by
  intro hrejected
  induction hrejected generalizing depth with
  | wide hf htype hname hu hx =>
      cases depth with
      | zero => exact h.elim
      | succ depth =>
          have hitem := h.item hf hu hx nofun
          rw [htype, WireItem, if_pos hname] at hitem
          obtain ⟨n, -, hn⟩ := hitem
          cases hn
  | text hf htype hu hx =>
      cases depth with
      | zero => exact h.elim
      | succ depth =>
          have hitem := h.item hf hu hx nofun
          rw [htype] at hitem
          obtain ⟨get', hget', -⟩ := hitem
          cases hget'
  | inner hf htype hu hx _ ih =>
      cases depth with
      | zero => exact h.elim
      | succ depth =>
          have hitem := h.item hf hu hx nofun
          rw [htype] at hitem
          obtain ⟨get', hget', hwire⟩ := hitem
          obtain rfl := Tree.obj.inj hget'
          exact ih hwire

/-- The items of a plain tree are those of the tree, made plain. -/
theorem treeItem_plain {label : Label} {u x : Tree} (h : TreeItem label u.plain x) :
    ∃ x', TreeItem label u x' ∧ x'.plain = x := by
  match label, h with
  | .single, h => exact ⟨u, rfl, h⟩
  | .repeated, ⟨us, hus, hx⟩ =>
      cases u with
      | arr us' =>
          rw [through_plain.arr] at hus
          rw [← Tree.arr.inj hus] at hx
          obtain ⟨x', hx', rfl⟩ := List.mem_map.mp hx
          exact ⟨x', ⟨us', rfl, hx'⟩, rfl⟩
      | _ => cases hus
  | .map, ⟨get, k, hget, hx⟩ =>
      cases u with
      | obj get' =>
          rw [through_plain.obj] at hget
          rw [← Tree.obj.inj hget] at hx
          obtain ⟨x', hx', rfl⟩ := Option.map_eq_some_iff.mp hx
          exact ⟨x', ⟨get', k, rfl, hx'⟩, rfl⟩
      | _ => cases hget

theorem WireMessage.plain_item {get : String → Option Tree} (h : WireMessage root scalar depth t get) {f : Field τ}
    (hf : f ∈ root.fieldsArray t) {t' : τ} (htype : f.type = .message t') {u x : Tree}
    (hu : plainAt (get f.name) = some u) (hx : TreeItem f.label u x) (hnull : x ≠ .null) :
    ∃ depth' get', x = (Tree.obj get').plain ∧ WireMessage root scalar depth' t' get' := by
  cases depth with
  | zero => exact h.elim
  | succ depth =>
      rw [plainAt_eq] at hu
      obtain ⟨u', hu', rfl⟩ := Option.map_eq_some_iff.mp hu
      obtain ⟨x', hx', rfl⟩ := treeItem_plain hx
      have hitem := h.item hf hu' hx' fun hnull' => hnull (by rw [hnull']; rfl)
      rw [htype] at hitem
      obtain ⟨get', rfl, hwire⟩ := hitem
      exact ⟨depth, get', rfl, hwire⟩

theorem WireMessage.not_alien {get : String → Option Tree} (h : WireMessage root scalar depth t get) :
    ¬ Alien root t fun k => plainAt (get k) := by
  intro halien
  generalize hplain : (fun k => plainAt (get k)) = get₀ at halien
  induction halien generalizing depth get with
  | key hk hnone =>
      cases depth with
      | zero => exact h.elim
      | succ depth =>
          subst hplain
          dsimp only at hk
          rw [plainAt_eq] at hk
          obtain ⟨u, hu, -⟩ := Option.map_eq_some_iff.mp hk
          obtain ⟨f, hf, hname⟩ := h.2 _ u hu
          exact hnone f hf hname
  | text hf htype hu hx =>
      subst hplain
      obtain ⟨_, get', hget', -⟩ := h.plain_item hf htype hu hx nofun
      cases hget'
  | inner hf htype hu hx _ ih =>
      subst hplain
      obtain ⟨_, get', hget', hwire⟩ := h.plain_item hf htype hu hx nofun
      exact ih hwire (Tree.obj.inj hget').symm

open Classical in
/-- A library that takes objects in the shape of the wire and no others. -/
noncomputable def strictLibrary (root : Root τ) (scalar : String → Val → Prop) : Library τ Obj where
  longFromString cs _ :=
    match numericValue cs with
    | some q => .ok q.num
    | none => .error "interior hyphen"
  verify t w := if ∃ depth, WireMessage root scalar depth t (treeAt w) then none else some "object expected"
  encode _ w := w
  toObject _ w := plainEntries w

theorem strictLibrary_faithful (hscalars : ∀ name v, scalar name v → v.tree ≠ .null ∧ v.tree.plain = v.tree)
    (hnanos : ∀ n : ℤ, 0 ≤ n → n < 1000000000 → scalar "int32" (.num n)) :
    Faithful (strictLibrary root scalar) root scalar where
  longs := by
    intro name _ n _
    show (match numericValue (toString n).toList with
      | some q => Except.ok q.num
      | none => .error "interior hyphen") = _
    rw [numericValue_toString]
    rfl
  scalars := hscalars
  nanos := hnanos
  inverse := fun depth t w hwire => ⟨if_pos ⟨depth, hwire⟩, funext fun k => treeAt_plain w k⟩
  sound := by
    intro t w hverify
    obtain ⟨depth, hwire⟩ : ∃ depth, WireMessage root scalar depth t (treeAt w) := by
      by_contra hnone
      have hsome : (strictLibrary root scalar).verify t w = some "object expected" := if_neg hnone
      rw [hsome] at hverify
      cases hverify
    refine ⟨hwire.not_rejected, ?_⟩
    have hplain : treeAt ((strictLibrary root scalar).toObject t ((strictLibrary root scalar).encode t w)) =
        fun k => plainAt (treeAt w k) := funext fun k => treeAt_plain w k
    rw [hplain]
    exact hwire.not_alien

end Strict

end RedFireForge.Grpc.DynamicProtoCodec
