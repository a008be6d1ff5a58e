/-
# `RedFireForge.Grpc.ProtoBodies` — which bodies come back

A body gives each field of its type a value.  It comes back where the passes of the codec meet
on the way out what they left on the way in; they do not for names with large letters, for
timestamps without exactly three digits after the point, and for most of what a message that
is a value of a map can hold, since only the last pass and only for timestamps looks into it.
-/
import RedFireForge.Grpc.DynamicProtoCodec

namespace RedFireForge.Grpc.DynamicProtoCodec

open RedFireForge.Lib

/-! ## Trees -/

mutual

/-- 64-bit integers as texts. -/
def Tree.plain : Tree → Tree
  | .long n => .str (toString n)
  | .arr items => .arr (plains items)
  | .obj get => .obj fun k => plainAt (get k)
  | u => u

def plains : List Tree → List Tree
  | [] => []
  | u :: us => u.plain :: plains us

def plainAt : Option Tree → Option Tree
  | none => none
  | some u => some u.plain

end

/-- What a value has by the label of its field: itself, the items of an array, the values of a map. -/
def TreeItem (label : Label) (u x : Tree) : Prop :=
  match label with
  | .single => u = x
  | .repeated => ∃ us, u = .arr us ∧ x ∈ us
  | .map => ∃ get k, u = .obj get ∧ get k = some x

def Shaped (label : Label) (u : Tree) : Prop :=
  match label with
  | .single => True
  | .repeated => ∃ us, u = .arr us
  | .map => ∃ get, u = .obj get

def itemsOf : Label → Val → Option (List Val)
  | .single, v => some [v]
  | .repeated, .arr items => some items
  | .map, .obj entries => some ((ownEntries entries).map Prod.snd)
  | _, _ => none

/-! ## The library -/

section Library

variable {τ β : Type} (lib : Library τ β) (root : Root τ) (scalar : String → Val → Prop)

def InRange (fieldType : String) (n : ℤ) : Prop :=
  if isUnsignedWideLongFieldType fieldType then 0 ≤ n ∧ n < 2 ^ 64 else -2 ^ 63 ≤ n ∧ n < 2 ^ 63

def WireItem (wire : τ → (String → Option Tree) → Prop) (type : FieldType τ) (u : Tree) : Prop :=
  match type with
  | .scalar name =>
      if name ∈ wideLongFieldTypes then ∃ n, InRange name n ∧ u = .long n
      else ∃ v, scalar name v ∧ u = v.tree
  | .message t => ∃ get, u = .obj get ∧ wire t get

/-- Only a message may be missing. -/
def MayBeNull (field : Field τ) : Prop := field.label = .single ∧ ∃ t, field.type = .message t

/-- An object that has exactly the fields of its type, in the shape of the wire. -/
def WireMessage : ℕ → τ → (String → Option Tree) → Prop
  | 0, _, _ => False
  | depth + 1, t, get =>
      (∀ f ∈ root.fieldsArray t, ∃ u, get f.name = some u ∧ ((MayBeNull f ∧ u = .null) ∨
        (Shaped f.label u ∧ ∀ x, TreeItem f.label u x → WireItem scalar (WireMessage depth) f.type x))) ∧
      ∀ k u, get k = some u → ∃ f ∈ root.fieldsArray t, f.name = k

/-- A text where the type wants a 64-bit integer or a message. -/
inductive Rejected : τ → (String → Option Tree) → Prop
  | wide {t get f u name s} : f ∈ root.fieldsArray t → f.type = .scalar name → name ∈ wideLongFieldTypes →
      get f.name = some u → TreeItem f.label u (.str s) → Rejected t get
  | text {t get f u t' s} : f ∈ root.fieldsArray t → f.type = .message t' → get f.name = some u →
      TreeItem f.label u (.str s) → Rejected t get
  | inner {t get f u t' get'} : f ∈ root.fieldsArray t → f.type = .message t' → get f.name = some u →
      TreeItem f.label u (.obj get') → Rejected t' get' → Rejected t get

/-- A key that the type has no field for, or a text in place of a message. -/
inductive Alien : τ → (String → Option Tree) → Prop
  | key {t get k u} : get k = some u → (∀ f ∈ root.fieldsArray t, f.name ≠ k) → Alien t get
  | text {t get f u t' s} : f ∈ root.fieldsArray t → f.type = .message t' → get f.name = some u →
      TreeItem f.label u (.str s) → Alien t get
  | inner {t get f u t' get'} : f ∈ root.fieldsArray t → f.type = .message t' → get f.name = some u →
      TreeItem f.label u (.obj get') → Alien t' get' → Alien t get

/-- What is known of the library, for scalar values that it takes and gives back. -/
structure Faithful : Prop where
  longs : ∀ name ∈ wideLongFieldTypes, ∀ n, InRange name n →
    lib.longFromString (toString n).toList (isUnsignedWideLongFieldType name) = .ok n
  scalars : ∀ name v, scalar name v → v.tree ≠ .null ∧ v.tree.plain = v.tree
  nanos : ∀ n : ℤ, 0 ≤ n → n < 1000000000 → scalar "int32" (.num n)
  /-- on objects in the shape of the wire `encode`, `decode` and `toObject` are inverse -/
  inverse : ∀ depth t w, WireMessage root scalar depth t (treeAt w) → lib.verify t w = none ∧
    treeAt (lib.toObject t (lib.encode t w)) = fun k => plainAt (treeAt w k)
  /-- texts in the wrong places are not taken, and what is given out has the type -/
  sound : ∀ t w, lib.verify t w = none →
    ¬ Rejected root t (treeAt w) ∧ ¬ Alien root t (treeAt (lib.toObject t (lib.encode t w)))

/-! ## Bodies -/

def CanonicalItem (depth : ℕ) (canonical : τ → Obj → Prop) (type : FieldType τ) (v : Val) : Prop :=
  match type with
  | .scalar name =>
      if name ∈ wideLongFieldTypes then ∃ n, InRange name n ∧ v = .str (toString n) else scalar name v
  | .message t =>
      if root.isTimestampType t then
        0 < depth ∧ ∃ x : UtcTime, x.fraction.length ≤ 9 ∧ v = .str (String.ofList x.text)
      else ∃ o, v = .obj o ∧ canonical t o

/-- A body of a type, by the names of the schema: its depth is at most the one given, where a
timestamp counts as a message. -/
def CanonicalBody : ℕ → τ → Obj → Prop
  | 0, _, _ => False
  | depth + 1, t, o =>
      (∀ f ∈ root.fieldsArray t, ∃ v, o.lookup f.schemaName = some v ∧ ((MayBeNull f ∧ v = .null) ∨
        ∃ items, itemsOf f.label v = some items ∧
          ∀ x ∈ items, CanonicalItem root scalar depth (CanonicalBody depth) f.type x)) ∧
      ∀ k v, o.lookup k = some v → ∃ f ∈ root.fieldsArray t, f.schemaName = k

/-- A message that no pass looks into comes back. -/
def MeetsUntouched : ℕ → τ → Obj → Prop
  | 0, _, _ => True
  | depth + 1, t, o => ∀ f ∈ root.fieldsArray t, f.name = f.schemaName ∧
      ∀ v items, o.lookup f.schemaName = some v → itemsOf f.label v = some items → ∀ x ∈ items,
        match f.type with
        | .scalar name => name ∉ wideLongFieldTypes
        | .message t' =>
            if root.isTimestampType t' then ∀ s, x ≠ .str s
            else ∀ o', x = .obj o' → MeetsUntouched depth t' o'

/-- A message comes back. -/
def Meets : ℕ → τ → Obj → Prop
  | 0, _, _ => True
  | depth + 1, t, o => ∀ f ∈ root.fieldsArray t, (∀ c ∈ f.schemaName.toList, c.isUpper = false) ∧
      ∀ v items, o.lookup f.schemaName = some v → itemsOf f.label v = some items → ∀ x ∈ items,
        match f.type with
        | .scalar _ => True
        | .message t' =>
            if root.isTimestampType t' then
              ∀ s, x = .str s → ∃ y : UtcTime, s = String.ofList y.text ∧ y.fraction.length = 3
            else
              ∀ o', x = .obj o' →
                if f.label = .map then MeetsUntouched root depth t' o' else Meets depth t' o'

/-- The body comes back, in whatever order its keys are. -/
def ComesBack (other : String → Option ℤ) (typeName : String) (depth : ℕ) (t : τ) (o : Obj) : Prop :=
  ∃ buffer r, encodeProtoMessage lib root other typeName depth t o = .ok buffer ∧
    decodeProtoMessage lib root depth t buffer = .ok r ∧ treeAt r = treeAt o

end Library

end RedFireForge.Grpc.DynamicProtoCodec
