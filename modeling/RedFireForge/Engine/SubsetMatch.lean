/-
# `RedFireForge.Engine.SubsetMatch` — what an actual value contains of an expected one

An expected array asks each of its items of some item of the actual array, an expected object its
keys of the actual object, or of some item of an actual array.  A key counts as there when it is
`in` the object, so that the names every object inherits count too.
-/
import RedFireForge.ApiMock.JsonPath
import RedFireForge.Lib.JsonTree

namespace RedFireForge.Engine.SubsetMatch

open RedFireForge.Lib
open RedFireForge.ApiMock (inheritedNames)

/-! ## Operands -/

/-- What is compared with an expected value: a part of a JSON value or what is inherited. -/
inductive Operand
  | json (j : Json)
  | function
  | objectPrototype

/-- The names that are in every object. -/
def objectNames : List String := "__proto__" :: inheritedNames

namespace Operand

def typeof : Operand → String
  | .json (.bool _) => "boolean"
  | .json (.num _) => "number"
  | .json (.str _) => "string"
  | .function => "function"
  | _ => "object"

/-- `JSON.stringify` gives no text for a function. -/
def stringify : Operand → Option String
  | .json j => some j.stringify
  | .function => none
  | .objectPrototype => some "{}"

/-- `key in x`, for an object -/
def hasKey : Operand → String → Bool
  | .json (.obj fields), key => (fields.lookup key).isSome || decide (key ∈ objectNames)
  | _, key => decide (key ∈ objectNames)

/-- `x[key]`, for an object that has the key -/
def get : Operand → String → Operand
  | .json (.obj fields), key =>
      match fields.lookup key with
      | some j => json j
      | none => if key = "__proto__" then objectPrototype else function
  | _, key => if key = "__proto__" then json .null else function

/-- `===` with a value that is no container -/
def identical : Operand → Json → Bool
  | .json .null, .null => true
  | .json (.bool b), .bool b' => b == b'
  | .json (.num n), .num n' => n == n'
  | .json (.str s), .str s' => s == s'
  | _, _ => false

def size : Operand → ℕ
  | .json j => j.size
  | _ => 1

theorem size_get_le (x : Operand) (key : String) : (x.get key).size ≤ x.size := by
  have hpos : ∀ j : Json, 1 ≤ j.size := fun j => Json.size_pos
  have hinherited : ∀ y : Operand, 1 ≤ y.size := by
    intro y
    cases y with
    | json j => exact hpos j
    | _ => exact Nat.le_refl 1
  have hother : (if key = "__proto__" then json .null else function).size = 1 := by
    split <;> rfl
  cases x with
  | json j =>
      cases j with
      | obj fields =>
          rw [get]
          split
          next j hj => exact (@Json.size_child (.obj fields) j (.key key) hj).le
          next =>
            split
            · exact hpos _
            · exact hpos _
      | _ => exact hother.le.trans (hinherited _)
  | _ => exact hother.le.trans (hinherited _)

end Operand

/-! ## The code -/

structure MatchResult where
  matched : Bool
  path : Option String
  expected : Option String
  actual : Option String
deriving DecidableEq, Repr

def found : MatchResult := ⟨true, none, none, none⟩

def mismatch (path : String) (expected actual : Option String) : MatchResult := ⟨false, some path, expected, actual⟩

def orRoot (path : String) : String := if path = "" then "(root)" else path

def joinKey (path key : String) : String := if path = "" then key else path ++ "." ++ key

def deepSubsetMatch (actual : Operand) (expected : Json) (path : String) : MatchResult :=
  match expected with
  | .null =>
      if actual.identical .null then found else mismatch (orRoot path) (some "null") actual.stringify
  | .arr items =>
      match actual with
      | .json (.arr actuals) =>
          match items.attach.findIdx? fun ⟨e, _⟩ =>
              ! actuals.attach.any fun ⟨item, _⟩ => (deepSubsetMatch (.json item) e "").matched with
          | some i =>
              mismatch (path ++ "[" ++ toString i ++ "]") (items[i]?.map Json.stringify) (some "not found in array")
          | none => found
      | _ => mismatch (orRoot path) (some "array") (some actual.typeof)
  | .obj fields =>
      match actual with
      | .json (.arr actuals) =>
          if actuals.attach.any fun ⟨item, _⟩ => (deepSubsetMatch (.json item) (.obj fields) "").matched then found
          else mismatch (orRoot path) (some (Json.stringify (.obj fields))) (some "no matching element in array")
      | actual =>
          if actual.typeof ≠ "object" ∨ actual.identical .null then
            mismatch (orRoot path) (some "object") (some (if actual.identical .null then "null" else actual.typeof))
          else
            let failure := fields.attach.findSome? fun ⟨(key, e), _⟩ =>
              if actual.hasKey key then
                let sub := deepSubsetMatch (actual.get key) e (joinKey path key)
                if sub.matched then none else some sub
              else some (mismatch (joinKey path key) (some e.stringify) (some "missing key"))
            failure.getD found
  | expected =>
      if actual.identical expected then found else mismatch (orRoot path) (some expected.stringify) actual.stringify
termination_by expected.size + actual.size
decreasing_by
  next he hitem =>
    have := Json.size_le_sizeItems he
    have := Json.size_le_sizeItems hitem
    simp only [Json.size, Operand.size]
    omega
  next hitem =>
    have := Json.size_le_sizeItems hitem
    simp only [Json.size, Operand.size]
    omega
  next he _ =>
    have := Json.size_le_sizeFields he
    have := actual.size_get_le key
    simp only [Json.size]
    omega

/-! ## What is contained -/

/-- No object has a key twice or one that objects inherit. -/
def Plain (j : Json) : Prop := j.EachObject fun keys => keys.Nodup ∧ ∀ key ∈ keys, key ∉ objectNames

/-- Both may be containers of any kind. -/
def Contains (actual expected : Json) : Prop := (deepSubsetMatch (.json actual) expected "").matched = true

variable {items actuals : List Json} {fields members : List (String × Json)} {path : String}

theorem matched_arr_iff : (deepSubsetMatch (.json (.arr actuals)) (.arr items) path).matched = true ↔
    ∀ e ∈ items, ∃ a ∈ actuals, Contains a e := by
  rw [deepSubsetMatch]
  split
  next i hi =>
    obtain ⟨hlt, hmissing, -⟩ := List.findIdx?_eq_some_iff_getElem.mp hi
    refine iff_of_false Bool.false_ne_true fun h => ?_
    obtain ⟨a, ha, hcontains⟩ := h _ (items.attach[i]).2
    simp only [Bool.not_eq_true', List.any_eq_false, List.mem_attach, true_implies, Subtype.forall] at hmissing
    exact hmissing a ha hcontains
  next hnone =>
    refine iff_of_true rfl fun e he => ?_
    have hfound := List.findIdx?_eq_none_iff.mp hnone ⟨e, he⟩ (List.mem_attach _ _)
    simp only [Bool.not_eq_false', List.any_eq_true, List.mem_attach, true_and, Subtype.exists] at hfound
    obtain ⟨a, ha, hcontains⟩ := hfound
    exact ⟨a, ha, hcontains⟩

theorem matched_arr_obj_iff : (deepSubsetMatch (.json (.arr actuals)) (.obj fields) path).matched = true ↔
    ∃ a ∈ actuals, Contains a (.obj fields) := by
  rw [deepSubsetMatch]
  split
  next h =>
    simp only [List.any_eq_true, List.mem_attach, true_and, Subtype.exists] at h
    obtain ⟨a, ha, hcontains⟩ := h
    exact iff_of_true rfl ⟨a, ha, hcontains⟩
  next h =>
    refine iff_of_false Bool.false_ne_true ?_
    rintro ⟨a, ha, hcontains⟩
    exact h (List.any_eq_true.mpr ⟨⟨a, ha⟩, List.mem_attach _ _, hcontains⟩)

theorem matched_obj_iff (hkeys : ∀ key ∈ fields.map Prod.fst, key ∉ objectNames) :
    (deepSubsetMatch (.json (.obj members)) (.obj fields) path).matched = true ↔
      ∀ key e, (key, e) ∈ fields →
        ∃ a, members.lookup key = some a ∧ (deepSubsetMatch (.json a) e (joinKey path key)).matched = true := by
  have hobject : ¬ ((Operand.json (.obj members)).typeof ≠ "object" ∨ (Operand.json (.obj members)).identical .null = true) := by
    simp [Operand.typeof, Operand.identical]
  have hkey : ∀ key e, (key, e) ∈ fields → ((Operand.json (.obj members)).hasKey key = true ↔ ∃ a, members.lookup key = some a) := by
    intro key e hmem
    have hname : key ∉ objectNames := hkeys key (List.mem_map_of_mem hmem)
    simp [Operand.hasKey, hname, Option.isSome_iff_exists]
  have hget : ∀ key a, members.lookup key = some a → (Operand.json (.obj members)).get key = .json a := by
    intro key a ha
    rw [Operand.get, ha]
  rw [deepSubsetMatch]
  case x_1 => exact fun _ => nofun
  simp only [if_neg hobject]
  generalize hfailure : List.findSome? _ fields.attach = failure
  cases failure with
  | none =>
      refine iff_of_true rfl fun key e hmem => ?_
      have hnone := List.findSome?_eq_none_iff.mp hfailure ⟨(key, e), hmem⟩ (List.mem_attach _ _)
      simp only at hnone
      split at hnone
      next hhas =>
        obtain ⟨a, ha⟩ := (hkey key e hmem).mp hhas
        rw [hget key a ha] at hnone
        refine ⟨a, ha, ?_⟩
        by_contra hsub
        rw [if_neg hsub] at hnone
        cases hnone
      next => cases hnone
  | some result =>
      obtain ⟨⟨⟨key, e⟩, hmem⟩, -, hsome⟩ := List.exists_of_findSome?_eq_some hfailure
      simp only at hsome
      split at hsome
      next hhas =>
        obtain ⟨a, ha⟩ := (hkey key e hmem).mp hhas
        rw [hget key a ha] at hsome
        split at hsome
        next => cases hsome
        next hsub =>
          cases hsome
          refine iff_of_false hsub fun h => ?_
          obtain ⟨a', ha', hmatched⟩ := h key e hmem
          cases ha.symm.trans ha'
          exact hsub hmatched
      next hhas =>
        cases hsome
        refine iff_of_false Bool.false_ne_true fun h => ?_
        obtain ⟨a, ha, -⟩ := h key e hmem
        exact hhas ((hkey key e hmem).mpr ⟨a, ha⟩)

/-- A value is no container, an array or an object. -/
def IsScalar : Json → Prop
  | .arr _ | .obj _ => False
  | _ => True

theorem kinds (j : Json) : IsScalar j ∨ (∃ items, j = .arr items) ∨ ∃ fields, j = .obj fields := by
  cases j with
  | arr items => exact .inr (.inl ⟨items, rfl⟩)
  | obj fields => exact .inr (.inr ⟨fields, rfl⟩)
  | _ => exact .inl trivial

theorem matched_scalar_iff {actual expected : Json} (hscalar : IsScalar expected) :
    (deepSubsetMatch (.json actual) expected path).matched = true ↔ actual = expected := by
  have hend : ∀ failure : MatchResult, failure.matched = false →
      ((if (Operand.json actual).identical expected then found else failure).matched = true ↔
        (Operand.json actual).identical expected = true) := by
    intro failure hfailure
    split
    next h => exact iff_of_true rfl h
    next h => exact iff_of_false (by rw [hfailure]; exact Bool.false_ne_true) h
  have hidentical : (Operand.json actual).identical expected = true ↔ actual = expected := by
    cases expected with
    | arr items => exact hscalar.elim
    | obj fields => exact hscalar.elim
    | _ => cases actual <;> simp [Operand.identical]
  rw [← hidentical]
  cases expected with
  | arr items => exact hscalar.elim
  | obj fields => exact hscalar.elim
  | null =>
      rw [deepSubsetMatch]
      exact hend _ rfl
  | _ =>
      rw [deepSubsetMatch]
      · exact hend _ rfl
      · exact nofun
      · exact fun _ => nofun
      · exact fun _ => nofun

theorem not_matched_arr {actual : Json} (harr : ∀ actuals, actual ≠ .arr actuals) :
    (deepSubsetMatch (.json actual) (.arr items) path).matched ≠ true := by
  cases actual with
  | arr actuals => exact absurd rfl (harr actuals)
  | _ =>
      rw [deepSubsetMatch]
      · exact Bool.false_ne_true
      · exact fun _ => nofun

theorem array_of_matched {actual : Json} (h : (deepSubsetMatch (.json actual) (.arr items) path).matched = true) :
    ∃ actuals, actual = .arr actuals := by
  by_contra hnone
  exact not_matched_arr (fun actuals heq => hnone ⟨actuals, heq⟩) h

theorem not_matched_obj {actual : Json} (hscalar : IsScalar actual) :
    (deepSubsetMatch (.json actual) (.obj fields) path).matched ≠ true := by
  cases actual with
  | arr actuals => exact hscalar.elim
  | obj members => exact hscalar.elim
  | _ =>
      rw [deepSubsetMatch]
      · simp [Operand.typeof, Operand.identical, mismatch]
      · exact fun _ => nofun

theorem Plain.item {e : Json} (h : Plain (.arr items)) (he : e ∈ items) : Plain e := Json.eachObject_arr.mp h e he

theorem Plain.field {key : String} {e : Json} (h : Plain (.obj fields)) (he : (key, e) ∈ fields) : Plain e :=
  (Json.eachObject_obj.mp h).2 key e ((Json.lookup_eq_some_iff_mem (Json.eachObject_obj.mp h).1.1).mpr he)

theorem size_item {e : Json} (he : e ∈ items) : e.size < (Json.arr items).size :=
  Nat.lt_succ_of_le (Json.size_le_sizeItems he)

theorem size_field {key : String} {e : Json} (he : (key, e) ∈ fields) : e.size < (Json.obj fields).size :=
  Nat.lt_succ_of_le (Json.size_le_sizeFields he)

/-- Whether a value matches does not depend on where it stands. -/
theorem matched_iff_contains (actual expected : Json) (hplain : Plain expected) (path : String) :
    (deepSubsetMatch (.json actual) expected path).matched = true ↔ Contains actual expected := by
  induction hn : expected.size using Nat.strong_induction_on generalizing actual expected path with
  | _ n ih =>
      subst hn
      obtain hscalar | ⟨items, rfl⟩ | ⟨fields, rfl⟩ := kinds expected
      · rw [Contains, matched_scalar_iff hscalar, matched_scalar_iff hscalar]
      · by_cases harr : ∃ actuals, actual = .arr actuals
        · obtain ⟨actuals, rfl⟩ := harr
          rw [Contains, matched_arr_iff, matched_arr_iff]
        · exact iff_of_false (fun h => harr (array_of_matched h)) fun h => harr (array_of_matched h)
      · obtain hscalar | ⟨actuals, rfl⟩ | ⟨members, rfl⟩ := kinds actual
        · exact iff_of_false (not_matched_obj hscalar) (not_matched_obj hscalar)
        · rw [Contains, matched_arr_obj_iff, matched_arr_obj_iff]
        · have hkeys := (Json.eachObject_obj.mp hplain).1.2
          rw [Contains, matched_obj_iff hkeys, matched_obj_iff hkeys]
          refine forall_congr' fun key => forall_congr' fun e => forall_congr' fun hmem => exists_congr fun a => ?_
          rw [ih e.size (size_field hmem) a e (hplain.field hmem) _ rfl,
            ih e.size (size_field hmem) a e (hplain.field hmem) _ rfl]

/-! ## A preorder -/

theorem contains_obj_iff (hplain : Plain (.obj fields)) : Contains (.obj members) (.obj fields) ↔
    ∀ key e, (key, e) ∈ fields → ∃ a, members.lookup key = some a ∧ Contains a e := by
  rw [Contains, matched_obj_iff (Json.eachObject_obj.mp hplain).1.2]
  refine forall_congr' fun key => forall_congr' fun e => forall_congr' fun hmem => exists_congr fun a => ?_
  rw [matched_iff_contains a e (hplain.field hmem)]

theorem contains_refl (x : Json) (hplain : Plain x) : Contains x x := by
  induction hn : x.size using Nat.strong_induction_on generalizing x with
  | _ n ih =>
      subst hn
      obtain hscalar | ⟨items, rfl⟩ | ⟨fields, rfl⟩ := kinds x
      · exact (matched_scalar_iff hscalar).mpr rfl
      · exact matched_arr_iff.mpr fun e he => ⟨e, he, ih e.size (size_item he) e (hplain.item he) rfl⟩
      · refine (contains_obj_iff hplain).mpr fun key e he => ?_
        have hlookup := (Json.lookup_eq_some_iff_mem (Json.eachObject_obj.mp hplain).1.1).mpr he
        exact ⟨e, hlookup, ih e.size (size_field he) e (hplain.field he) rfl⟩

/-- By induction on all three values: an array that contains an object has an item that does. -/
theorem contains_trans (a b c : Json) (ha : Plain a) (hb : Plain b) (hba : Contains b a) (hcb : Contains c b) :
    Contains c a := by
  induction hn : a.size + b.size + c.size using Nat.strong_induction_on generalizing a b c with
  | _ n ih =>
      subst hn
      obtain hscalar | ⟨items, rfl⟩ | ⟨fields, rfl⟩ := kinds a
      · have heq := (matched_scalar_iff hscalar).mp hba
        exact heq ▸ hcb
      · obtain ⟨items', rfl⟩ := array_of_matched hba
        obtain ⟨items'', rfl⟩ := array_of_matched hcb
        refine matched_arr_iff.mpr fun x hx => ?_
        obtain ⟨y, hy, hyx⟩ := matched_arr_iff.mp hba x hx
        obtain ⟨z, hz, hzy⟩ := matched_arr_iff.mp hcb y hy
        have hlt := Nat.add_lt_add (Nat.add_lt_add (size_item hx) (size_item hy)) (size_item hz)
        exact ⟨z, hz, ih _ hlt x y z (ha.item hx) (hb.item hy) hyx hzy rfl⟩
      · obtain hscalar | ⟨items', rfl⟩ | ⟨fields', rfl⟩ := kinds b
        · exact absurd hba (not_matched_obj hscalar)
        · obtain ⟨items'', rfl⟩ := array_of_matched hcb
          obtain ⟨y, hy, hya⟩ := matched_arr_obj_iff.mp hba
          obtain ⟨z, hz, hzy⟩ := matched_arr_iff.mp hcb y hy
          have hlt := Nat.add_lt_add (Nat.add_lt_add_left (size_item hy) (Json.obj fields).size) (size_item hz)
          exact matched_arr_obj_iff.mpr ⟨z, hz, ih _ hlt (.obj fields) y z ha (hb.item hy) hya hzy rfl⟩
        · obtain hscalar | ⟨items'', rfl⟩ | ⟨fields'', rfl⟩ := kinds c
          · exact absurd hcb (not_matched_obj hscalar)
          · obtain ⟨z, hz, hzb⟩ := matched_arr_obj_iff.mp hcb
            have hlt := Nat.add_lt_add_left (size_item hz) ((Json.obj fields).size + (Json.obj fields').size)
            exact matched_arr_obj_iff.mpr ⟨z, hz, ih _ hlt (.obj fields) (.obj fields') z ha hb hba hzb rfl⟩
          · refine (contains_obj_iff ha).mpr fun key x hx => ?_
            obtain ⟨y, hy, hyx⟩ := (contains_obj_iff ha).mp hba key x hx
            have hy' := Json.mem_of_lookup hy
            obtain ⟨z, hz, hzy⟩ := (contains_obj_iff hb).mp hcb key y hy'
            have hlt := Nat.add_lt_add (Nat.add_lt_add (size_field hx) (size_field hy')) (size_field (Json.mem_of_lookup hz))
            exact ⟨z, hz, ih _ hlt x y z (ha.field hx) (hb.field hy') hyx hzy rfl⟩

theorem deepSubsetMatch_preorder :
    (∀ x path, Plain x → (deepSubsetMatch (.json x) x path).matched = true) ∧
      ∀ a b c path path' path'', Plain a → Plain b → Plain c →
        (deepSubsetMatch (.json b) a path).matched = true → (deepSubsetMatch (.json c) b path').matched = true →
          (deepSubsetMatch (.json c) a path'').matched = true := by
  constructor
  · intro x path hx
    exact (matched_iff_contains x x hx path).mpr (contains_refl x hx)
  · intro a b c path path' path'' ha hb _ hba hcb
    have hba' := (matched_iff_contains b a ha path).mp hba
    have hcb' := (matched_iff_contains c b hb path').mp hcb
    exact (matched_iff_contains c a ha path'').mpr (contains_trans a b c ha hb hba' hcb')

theorem plain_of_scalar {j : Json} (h : IsScalar j) : Plain j := by
  intro path fields hsub
  cases path with
  | nil =>
      cases Option.some.inj hsub
      exact h.elim
  | cons s path =>
      cases j with
      | arr items => exact h.elim
      | obj fields => exact h.elim
      | _ => cases hsub

/-- An object in an array, and the array in an array. -/
theorem orders_preorder :
    let order := Json.obj [("id", .str "a")]
    (deepSubsetMatch (.json order) order "").matched = true ∧
      (deepSubsetMatch (.json (.arr [.null, .arr [order]])) order "").matched = true := by
  have hplain : Plain (.obj [("id", .str "a")]) := by
    refine Json.eachObject_obj.mpr ⟨by decide, fun key j hj => ?_⟩
    cases Json.mem_of_lookup hj with
    | head => exact plain_of_scalar trivial
    | tail _ h => cases h
  have harr : Plain (.arr [.arr [.obj [("id", .str "a")]]]) := by
    simpa [Plain, Json.eachObject_arr] using hplain
  have hall : Plain (.arr [.null, .arr [.obj [("id", .str "a")]]]) := by
    refine Json.eachObject_arr.mpr fun j hj => ?_
    obtain rfl | hj := List.mem_cons.mp hj
    · exact plain_of_scalar trivial
    · exact harr.item hj
  have hitem := contains_refl _ hplain
  have hinner : Contains (.arr [.arr [.obj [("id", .str "a")]]]) (.obj [("id", .str "a")]) :=
    matched_arr_obj_iff.mpr ⟨_, List.mem_singleton_self _, matched_arr_obj_iff.mpr ⟨_, List.mem_singleton_self _, hitem⟩⟩
  have houter : Contains (.arr [.null, .arr [.obj [("id", .str "a")]]]) (.arr [.arr [.obj [("id", .str "a")]]]) :=
    matched_arr_iff.mpr fun e he => ⟨e, List.mem_cons_of_mem _ he, contains_refl e (harr.item he)⟩
  exact ⟨deepSubsetMatch_preorder.1 _ "" hplain, deepSubsetMatch_preorder.2 _ _ _ "" "" "" hplain harr hall hinner houter⟩

end RedFireForge.Engine.SubsetMatch
