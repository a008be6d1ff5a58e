/-
# `RedFireForge.Engine.DeepCompare` — the comparison with the expected JSON

`deepCompare` reads the members of both sides with `[key]`, of an array too, and what is read may
be inherited.  An expected object is so compared with the members of an actual array, and a key
`__proto__` of one side with the prototype of the other.
-/
import RedFireForge.Lib.Address
import RedFireForge.Lib.JsonTree

namespace RedFireForge.Engine.DeepCompare

open RedFireForge.Lib

/-! ## Operands -/

/-- What is compared.  `absent` is `undefined` or an inherited function: one of two operands is
always a part of a JSON value or its prototype, so that they are not compared with each other. -/
inductive Operand
  | json (j : Json)
  | absent
  | objectPrototype
  | arrayPrototype

def lengthNumber (n : ℕ) : JsNumber where
  text := Nat.toDigits 10 n
  written := toDigits_written n

/-- The key of an index. -/
def indexKey (i : ℕ) : String := String.ofList (Nat.toDigits 10 i)

namespace Operand

/-- `typeof`, where no function is looked at. -/
def typeof : Operand → String
  | .json (.bool _) => "boolean"
  | .json (.num _) => "number"
  | .json (.str _) => "string"
  | .absent => "undefined"
  | _ => "object"

/-- `x == null`, where no function is looked at. -/
def isNullish : Operand → Bool
  | .json .null | .absent => true
  | _ => false

def isArray : Operand → Bool
  | .json (.arr _) | .arrayPrototype => true
  | _ => false

/-- `===`: containers are parsed apart, so that no two of them are the same. -/
def identical : Operand → Operand → Bool
  | .json .null, .json .null => true
  | .json (.bool b), .json (.bool b') => b == b'
  | .json (.num n), .json (.num n') => n == n'
  | .json (.str s), .json (.str s') => s == s'
  | .absent, .absent | .objectPrototype, .objectPrototype | .arrayPrototype, .arrayPrototype => true
  | _, _ => false

def stringify : Operand → Option String
  | .json j => some j.stringify
  | .absent => none
  | .objectPrototype => some "{}"
  | .arrayPrototype => some "[]"

def length : Operand → ℕ
  | .json (.arr items) => items.length
  | _ => 0

def index : Operand → ℕ → Operand
  | .json (.arr items), i => (items[i]?.map json).getD absent
  | _, _ => absent

/-- `Object.keys` -/
def keys : Operand → List String
  | .json (.obj fields) => fields.map Prod.fst
  | .json (.arr items) => (List.range items.length).map indexKey
  | _ => []

/-- `x[key]` -/
def get : Operand → String → Operand
  | .json (.obj fields), key =>
      match fields.lookup key with
      | some j => json j
      | none => if key = "__proto__" then objectPrototype else absent
  | .json (.arr items), key =>
      if key = "length" then json (.num (lengthNumber items.length))
      else if key = "__proto__" then arrayPrototype
      else
        match (List.range items.length).find? fun i => indexKey i = key with
        | some i => index (.json (.arr items)) i
        | none => absent
  | .objectPrototype, key => if key = "__proto__" then json .null else absent
  | .arrayPrototype, key =>
      if key = "length" then json (.num (lengthNumber 0))
      else if key = "__proto__" then objectPrototype
      else absent
  | _, _ => absent

def size : Operand → ℕ
  | .json j => j.size
  | .absent => 0
  | _ => 1

theorem index_item {items : List Json} {i : ℕ} {j : Json} (h : items[i]? = some j) :
    index (.json (.arr items)) i = .json j := by
  rw [index, h]
  rfl

theorem size_index_le (x : Operand) (i : ℕ) : (x.index i).size ≤ x.size := by
  cases x with
  | json j =>
      cases j with
      | arr items =>
          cases hi : items[i]? with
          | none =>
              rw [index, hi]
              exact Nat.zero_le _
          | some j =>
              rw [index_item hi]
              exact (Json.size_child (j := .arr items) (s := .index i) hi).le
      | _ => exact Nat.zero_le _
  | _ => exact Nat.zero_le _

theorem size_index_lt {x : Operand} {i : ℕ} (hi : i < x.length) : (x.index i).size < x.size := by
  unfold length at hi
  split at hi
  next items =>
    have hitem : items[i]? = some items[i] := List.getElem?_eq_getElem hi
    rw [index_item hitem]
    exact Json.size_child (s := .index i) hitem
  next => exact absurd hi (Nat.not_lt_zero i)

theorem size_get_le (x : Operand) (key : String) : (x.get key).size ≤ x.size := by
  have hpos : ∀ j : Json, 1 ≤ j.size := fun j => Json.size_pos
  cases x with
  | absent => exact Nat.zero_le _
  | objectPrototype =>
      rw [get]
      split
      · exact Nat.le_refl 1
      · exact Nat.zero_le _
  | arrayPrototype =>
      rw [get]
      split
      · exact Nat.le_refl 1
      · split
        · exact Nat.le_refl 1
        · exact Nat.zero_le _
  | json j =>
      cases j with
      | obj fields =>
          rw [get]
          split
          next j hj => exact (Json.size_child (j := .obj fields) (s := .key key) hj).le
          next =>
            split
            · exact hpos _
            · exact Nat.zero_le _
      | arr items =>
          rw [get]
          split
          · exact hpos _
          · split
            · exact hpos _
            · split
              · exact size_index_le _ _
              · exact Nat.zero_le _
      | _ => exact Nat.zero_le _

theorem indexKey_injective : Function.Injective indexKey := fun _ _ h =>
  Ipv4.toDigits_inj (String.ofList_injective h)

theorem isDigit_indexKey {i : ℕ} {c : Char} (h : c ∈ (indexKey i).toList) : c.isDigit = true := by
  rw [indexKey, String.toList_ofList] at h
  exact Ipv4.isDigit_toDigits h

theorem indexKey_ne_length (i : ℕ) : indexKey i ≠ "length" := fun h =>
  absurd (@isDigit_indexKey i 'l' (by rw [h]; decide)) (by decide)

theorem indexKey_ne_proto (i : ℕ) : indexKey i ≠ "__proto__" := fun h =>
  absurd (@isDigit_indexKey i '_' (by rw [h]; decide)) (by decide)

theorem get_indexKey {items : List Json} {i : ℕ} (hi : i < items.length) :
    get (.json (.arr items)) (indexKey i) = .json items[i] := by
  have hfind : ((List.range items.length).find? fun i' => indexKey i' = indexKey i) = some i := by
    rw [List.find?_range_eq_some, List.mem_range]
    refine ⟨decide_eq_true rfl, hi, fun i' hi' => ?_⟩
    rw [Bool.not_eq_true', decide_eq_false_iff_not]
    exact fun hkey => hi'.ne (indexKey_injective hkey)
  rw [get, if_neg (indexKey_ne_length i), if_neg (indexKey_ne_proto i), hfind]
  exact index_item (List.getElem?_eq_getElem hi)

theorem get_field {fields : List (String × Json)} {key : String} {j : Json} (h : fields.lookup key = some j) :
    get (.json (.obj fields)) key = .json j := by
  rw [get, h]

theorem size_get_lt {x : Operand} {key : String} (hkey : key ∈ x.keys) : (x.get key).size < x.size := by
  unfold keys at hkey
  split at hkey
  next fields =>
    cases hj : fields.lookup key with
    | none =>
        rw [List.lookup_eq_none_iff] at hj
        obtain ⟨f, hf, rfl⟩ := List.mem_map.mp hkey
        simpa using hj f hf
    | some j =>
        rw [get_field hj]
        exact Json.size_child (s := .key key) hj
  next items =>
    obtain ⟨i, hi, rfl⟩ := List.mem_map.mp hkey
    rw [List.mem_range] at hi
    rw [get_indexKey hi]
    exact Json.size_child (s := .index i) (List.getElem?_eq_getElem hi)
  next => cases hkey

end Operand

/-! ## The comparison -/

/-- `JSON.stringify` gives no text for `undefined`. -/
structure FailureDetail where
  path : String
  expected : Option String
  actual : Option String
deriving DecidableEq, Repr

def mismatch (expected actual : Operand) (currentPath : String) : FailureDetail :=
  ⟨if currentPath = "" then "(root)" else currentPath, expected.stringify, actual.stringify⟩

/-- The failures that are pushed. -/
def deepCompare (expected actual : Operand) (currentPath : String) : List FailureDetail :=
  if expected.identical actual then []
  else if expected.isNullish ∨ actual.isNullish ∨ expected.typeof ≠ actual.typeof then
    [mismatch expected actual currentPath]
  else if expected.isArray then
    if ¬ actual.isArray then [⟨currentPath, some "array", some actual.typeof⟩]
    else
      (List.range (max expected.length actual.length)).attach.flatMap fun ⟨i, _⟩ =>
        deepCompare (expected.index i) (actual.index i) (currentPath ++ "[" ++ toString i ++ "]")
  else if expected.typeof = "object" then
    (expected.keys ++ actual.keys).eraseDups.attach.flatMap fun ⟨key, _⟩ =>
      deepCompare (expected.get key) (actual.get key) (if currentPath = "" then key else currentPath ++ "." ++ key)
  else [mismatch expected actual currentPath]
termination_by expected.size + actual.size
decreasing_by
  next hi =>
    rw [List.mem_range, lt_max_iff] at hi
    have hexpected := expected.size_index_le i
    have hactual := actual.size_index_le i
    obtain hi | hi := hi
    · have := Operand.size_index_lt hi
      omega
    · have := Operand.size_index_lt hi
      omega
  next hkey =>
    rw [List.mem_eraseDups, List.mem_append] at hkey
    have hexpected := expected.size_get_le key
    have hactual := actual.size_get_le key
    obtain hkey | hkey := hkey
    · have := Operand.size_get_lt hkey
      omega
    · have := Operand.size_get_lt hkey
      omega

/-! ## What is not told apart -/

/-- Members of `Object.prototype` that a JSON value can have. -/
def LikeObjectPrototype : Json → Prop
  | .obj fields => ∀ key j, fields.lookup key = some j → key = "__proto__" ∧ j = .null
  | _ => False

def LikeArrayPrototype : Json → Prop
  | .arr items => items = []
  | .obj fields => ∀ key j, fields.lookup key = some j →
      (key = "length" ∧ j = .num (lengthNumber 0)) ∨ (key = "__proto__" ∧ LikeObjectPrototype j)
  | _ => False

/-- The values agree, but for `__proto__` and for an object with the members of an array. -/
inductive Alike : Json → Json → Prop
  | null : Alike .null .null
  | bool (b : Bool) : Alike (.bool b) (.bool b)
  | num (n : JsNumber) : Alike (.num n) (.num n)
  | str (s : String) : Alike (.str s) (.str s)
  | arr {items items' : List Json} (hlength : items.length = items'.length)
      (hitems : ∀ (i : ℕ) (j j' : Json), items[i]? = some j → items'[i]? = some j' → Alike j j') :
      Alike (.arr items) (.arr items')
  | obj {fields fields' : List (String × Json)}
      (hboth : ∀ key j j', fields.lookup key = some j → fields'.lookup key = some j' → Alike j j')
      (hexpected : ∀ key j, fields.lookup key = some j → fields'.lookup key = none →
        key = "__proto__" ∧ LikeObjectPrototype j)
      (hactual : ∀ key j', fields.lookup key = none → fields'.lookup key = some j' →
        key = "__proto__" ∧ (j' = .arr [] ∨ LikeObjectPrototype j')) :
      Alike (.obj fields) (.obj fields')
  | members {fields : List (String × Json)} {items : List Json}
      (hitems : ∀ i < items.length, fields.lookup (indexKey i) ≠ none)
      (hboth : ∀ (i : ℕ) (j j' : Json), fields.lookup (indexKey i) = some j → items[i]? = some j' → Alike j j')
      (hrest : ∀ key j, fields.lookup key = some j → (∃ i < items.length, key = indexKey i) ∨
        (key = "length" ∧ j = .num (lengthNumber items.length)) ∨ (key = "__proto__" ∧ LikeArrayPrototype j)) :
      Alike (.obj fields) (.arr items)

/-- An object stands against an array, or one side alone has a key `__proto__`. -/
def Confused (expected actual : Json) (path : List Json.Step) : Prop :=
  (expected.headAt path = some .obj ∧ ∃ n, actual.headAt path = some (.arr n)) ∨
    (expected.headAt (path ++ [.key "__proto__"])).isSome ≠ (actual.headAt (path ++ [.key "__proto__"])).isSome

/-! ## One step of the comparison -/

variable {expected actual : Operand} {path : String}

theorem deepCompare_identical (h : expected.identical actual = true) : deepCompare expected actual path = [] := by
  rw [deepCompare, if_pos h]

/-- When the comparison of two operands that are not the same finds nothing. -/
theorem deepCompare_nil_iff (hid : expected.identical actual = false) : deepCompare expected actual path = [] ↔
    (expected.isNullish = false ∧ actual.isNullish = false ∧ expected.typeof = actual.typeof) ∧
      if expected.isArray then actual.isArray = true ∧ ∀ i < max expected.length actual.length,
        deepCompare (expected.index i) (actual.index i) (path ++ "[" ++ toString i ++ "]") = []
      else expected.typeof = "object" ∧ ∀ key ∈ expected.keys ++ actual.keys,
        deepCompare (expected.get key) (actual.get key) (if path = "" then key else path ++ "." ++ key) = [] := by
  rw [deepCompare, hid, if_neg Bool.false_ne_true]
  split
  next h =>
    refine iff_of_false (List.cons_ne_nil _ _) ?_
    rintro ⟨⟨hexpected, hactual, htypeof⟩, -⟩
    simp [hexpected, hactual, htypeof] at h
  next h =>
    simp only [not_or, Bool.not_eq_true, not_not] at h
    rw [and_iff_right h]
    split
    next harray =>
      rw [ite_not]
      split
      next hactual =>
        rw [List.flatMap_eq_nil_iff, and_iff_right hactual]
        simp [List.mem_range]
      next hactual => exact iff_of_false (List.cons_ne_nil _ _) fun h => hactual h.1
    next harray =>
      split
      next hobject =>
        rw [List.flatMap_eq_nil_iff, and_iff_right hobject]
        simp [List.mem_eraseDups]
      next hobject => exact iff_of_false (List.cons_ne_nil _ _) fun h => hobject h.1

section Prototypes

variable {e a : Json}

theorem mem_keys_iff {fields : List (String × Json)} {key : String} :
    key ∈ fields.map Prod.fst ↔ ∃ j, fields.lookup key = some j := by
  rw [← Option.isSome_iff_exists, ← Option.ne_none_iff_isSome, Ne, List.lookup_eq_none_iff]
  simp

theorem absent_right : deepCompare (.json e) .absent path ≠ [] := by
  have hid : (Operand.json e).identical .absent = false := by cases e <;> rfl
  rw [Ne, deepCompare_nil_iff hid]
  rintro ⟨⟨-, hactual, -⟩, -⟩
  cases hactual

theorem absent_left : deepCompare .absent (.json a) path ≠ [] := by
  rw [Ne, deepCompare_nil_iff rfl]
  rintro ⟨⟨hexpected, -, -⟩, -⟩
  cases hexpected

/-- Neither an array nor an object. -/
def IsScalar : Json → Prop
  | .arr _ | .obj _ => False
  | _ => True

theorem identical_iff (h : IsScalar e ∨ IsScalar a) : (Operand.json e).identical (.json a) = true ↔ e = a := by
  cases e <;> cases a <;> simp_all [IsScalar, Operand.identical]

theorem not_isScalar {j : Json} (hnullish : (Operand.json j).isNullish = false)
    (htypeof : (Operand.json j).typeof = "object") : ¬ IsScalar j := by
  cases j with
  | null => cases hnullish
  | arr items => exact id
  | obj fields => exact id
  | _ => simp [Operand.typeof] at htypeof

/-- What is no container is compared by `===`. -/
theorem deepCompare_scalar (h : IsScalar e ∨ IsScalar a) : deepCompare (.json e) (.json a) path = [] ↔ e = a := by
  rw [← identical_iff h]
  cases hid : (Operand.json e).identical (.json a) with
  | true => exact iff_of_true (deepCompare_identical hid) rfl
  | false =>
      rw [deepCompare_nil_iff hid]
      refine iff_of_false ?_ Bool.false_ne_true
      rintro ⟨⟨hexpected, hactual, htypeof⟩, hrest⟩
      have hobject : (Operand.json e).typeof = "object" := by
        cases e with
        | arr items => rfl
        | _ => exact hrest.1
      exact h.elim (not_isScalar hexpected hobject) (not_isScalar hactual (htypeof.symm.trans hobject))

theorem eq_of_nil (h : deepCompare (.json e) (.json a) path = []) (hscalar : IsScalar e ∨ IsScalar a) : e = a :=
  (deepCompare_scalar hscalar).mp h

/-- An expected object is compared member by member with whatever has the type "object". -/
theorem deepCompare_obj {fields : List (String × Json)} : deepCompare (.json (.obj fields)) actual path = [] ↔
    (actual.isNullish = false ∧ actual.typeof = "object") ∧ ∀ key ∈ fields.map Prod.fst ++ actual.keys,
      deepCompare (Operand.get (.json (.obj fields)) key) (actual.get key)
        (if path = "" then key else path ++ "." ++ key) = [] := by
  rw [deepCompare_nil_iff rfl]
  exact ⟨fun h => ⟨⟨h.1.2.1, h.1.2.2.symm⟩, h.2.2⟩, fun h => ⟨⟨rfl, h.1.1, h.1.2.symm⟩, rfl, h.2⟩⟩

theorem object_of_isArray {x : Operand} (h : x.isArray = true) : x.isNullish = false ∧ x.typeof = "object" := by
  unfold Operand.isArray at h
  split at h
  next => exact ⟨rfl, rfl⟩
  next => exact ⟨rfl, rfl⟩
  next => cases h

/-- An expected array is compared item by item, and only with an array. -/
theorem deepCompare_arr {items : List Json} : deepCompare (.json (.arr items)) actual path = [] ↔
    actual.isArray = true ∧ ∀ i < max items.length actual.length,
      deepCompare (Operand.index (.json (.arr items)) i) (actual.index i) (path ++ "[" ++ toString i ++ "]") = [] := by
  rw [deepCompare_nil_iff rfl]
  exact ⟨fun h => h.2, fun h => ⟨⟨rfl, (object_of_isArray h.1).1, (object_of_isArray h.1).2.symm⟩, h⟩⟩

theorem get_missing {fields : List (String × Json)} {key : String} (h : fields.lookup key = none) :
    Operand.get (.json (.obj fields)) key = if key = "__proto__" then .objectPrototype else .absent := by
  rw [Operand.get, h]

theorem null_right : deepCompare (.json e) (.json .null) path = [] ↔ e = .null := deepCompare_scalar (.inr trivial)

theorem null_left : deepCompare (.json .null) (.json a) path = [] ↔ a = .null :=
  (deepCompare_scalar (e := .null) (.inl trivial)).trans eq_comm

theorem num_right {n : JsNumber} : deepCompare (.json e) (.json (.num n)) path = [] ↔ e = .num n :=
  deepCompare_scalar (.inr trivial)

theorem objectPrototype_right : deepCompare (.json e) .objectPrototype path = [] ↔ LikeObjectPrototype e := by
  cases e with
  | obj fields =>
      rw [deepCompare_obj, and_iff_right ⟨rfl, rfl⟩]
      simp only [Operand.keys, List.append_nil, mem_keys_iff, LikeObjectPrototype, forall_exists_index]
      refine forall₃_congr fun key j hj => ?_
      rw [Operand.get_field hj, Operand.get]
      split
      next hkey => rw [null_right, and_iff_right hkey]
      next hkey => exact iff_of_false absent_right fun h => hkey h.1
  | null => exact iff_of_false (by rw [deepCompare_nil_iff rfl]; exact fun h => nomatch h.1.1) id
  | arr items => exact iff_of_false (by rw [deepCompare_nil_iff rfl]; exact fun h => nomatch h.2.1) id
  | _ =>
      refine iff_of_false ?_ id
      rw [deepCompare_nil_iff rfl]
      exact fun h => by simp [Operand.typeof] at h

theorem objectPrototype_left : deepCompare .objectPrototype (.json a) path = [] ↔
    a = .arr [] ∨ LikeObjectPrototype a := by
  rw [deepCompare_nil_iff (by cases a <;> rfl)]
  cases a with
  | obj fields =>
      simp only [LikeObjectPrototype, reduceCtorEq, false_or, Operand.isNullish, Operand.typeof, Operand.isArray,
        Bool.false_eq_true, if_false, true_and, and_self]
      simp only [Operand.keys, List.nil_append, mem_keys_iff, forall_exists_index]
      refine forall₃_congr fun key j hj => ?_
      rw [Operand.get_field hj, Operand.get]
      split
      next hkey => rw [null_left, and_iff_right hkey]
      next hkey => exact iff_of_false absent_left fun h => hkey h.1
  | arr items =>
      simp only [LikeObjectPrototype, or_false, Json.arr.injEq, Operand.isNullish, Operand.typeof, Operand.isArray,
        Bool.false_eq_true, if_false, true_and, and_self]
      constructor
      · intro h
        cases items with
        | nil => rfl
        | cons j items =>
            have hfirst := h (indexKey 0) (List.mem_map_of_mem (List.mem_range.mpr (Nat.succ_pos _)))
            rw [Operand.get_indexKey (Nat.succ_pos _), Operand.get, if_neg (Operand.indexKey_ne_proto 0)] at hfirst
            exact absurd hfirst absent_left
      · rintro rfl key hkey
        cases hkey
  | null => exact iff_of_false (fun h => nomatch h.1.2.1) (by rintro (h | h) <;> cases h)
  | _ => exact iff_of_false (fun h => by simp [Operand.typeof] at h) (by rintro (h | h) <;> cases h)

theorem arrayPrototype_right : deepCompare (.json e) .arrayPrototype path = [] ↔ LikeArrayPrototype e := by
  cases e with
  | obj fields =>
      rw [deepCompare_obj, and_iff_right ⟨rfl, rfl⟩]
      simp only [Operand.keys, List.append_nil, mem_keys_iff, LikeArrayPrototype, forall_exists_index]
      refine forall₃_congr fun key j hj => ?_
      rw [Operand.get_field hj, Operand.get]
      split
      next hkey =>
        rw [num_right, and_iff_right hkey, or_iff_left]
        rintro ⟨hproto, -⟩
        exact absurd (hkey.symm.trans hproto) (by decide)
      next hkey =>
        rw [or_iff_right fun h => hkey h.1]
        split
        next hkey => rw [objectPrototype_right, and_iff_right hkey]
        next hkey => exact iff_of_false absent_right fun h => hkey h.1
  | arr items =>
      have harray : Operand.arrayPrototype.isArray = true := rfl
      rw [deepCompare_arr, and_iff_right harray]
      simp only [LikeArrayPrototype, Operand.length, Nat.max_zero]
      constructor
      · intro h
        cases items with
        | nil => rfl
        | cons j items => exact absurd (h 0 (Nat.succ_pos _)) absent_right
      · rintro rfl i hi
        cases hi
  | null => exact iff_of_false (by rw [deepCompare_nil_iff rfl]; exact fun h => nomatch h.1.1) id
  | _ =>
      refine iff_of_false ?_ id
      rw [deepCompare_nil_iff rfl]
      exact fun h => by simp [Operand.typeof] at h

end Prototypes

/-! ## When nothing is found -/

section Alike

variable {e a : Json}

theorem index_beyond {items : List Json} {i : ℕ} (h : items.length ≤ i) :
    Operand.index (.json (.arr items)) i = .absent := by
  rw [Operand.index, List.getElem?_eq_none h]
  rfl

theorem arr_alike {items items' : List Json}
    (ih : ∀ j ∈ items, ∀ (a : Json) (path : String), deepCompare (.json j) (.json a) path = [] ↔ Alike j a) :
    deepCompare (.json (.arr items)) (.json (.arr items')) path = [] ↔ Alike (.arr items) (.arr items') := by
  have harray : (Operand.json (.arr items')).isArray = true := rfl
  rw [deepCompare_arr, and_iff_right harray]
  constructor
  · intro h
    have hlength : items.length = items'.length := by
      obtain hlt | heq | hgt := lt_trichotomy items.length items'.length
      · have hi := h items.length (lt_max_of_lt_right hlt)
        rw [index_beyond le_rfl, Operand.index_item (List.getElem?_eq_getElem hlt)] at hi
        exact absurd hi absent_left
      · exact heq
      · have hi := h items'.length (lt_max_of_lt_left hgt)
        rw [index_beyond le_rfl, Operand.index_item (List.getElem?_eq_getElem hgt)] at hi
        exact absurd hi absent_right
    refine .arr hlength fun i j j' hj hj' => ?_
    have hi := h i (lt_max_of_lt_left (List.getElem?_eq_some_iff.mp hj).1)
    rw [Operand.index_item hj, Operand.index_item hj'] at hi
    exact (ih j (List.mem_of_getElem? hj) j' _).mp hi
  · intro h
    cases h with
    | arr hlength hitems =>
        intro i hi
        rw [Operand.length, ← hlength, max_self] at hi
        have hj := List.getElem?_eq_getElem hi
        have hj' := List.getElem?_eq_getElem (hlength ▸ hi)
        rw [Operand.index_item hj, Operand.index_item hj']
        exact (ih _ (List.getElem_mem hi) _ _).mpr (hitems i _ _ hj hj')

theorem obj_alike {fields fields' : List (String × Json)}
    (ih : ∀ key j, fields.lookup key = some j → ∀ (a : Json) (path : String),
      deepCompare (.json j) (.json a) path = [] ↔ Alike j a) :
    deepCompare (.json (.obj fields)) (.json (.obj fields')) path = [] ↔ Alike (.obj fields) (.obj fields') := by
  have hobject : (Operand.json (.obj fields')).isNullish = false ∧ (Operand.json (.obj fields')).typeof = "object" :=
    ⟨rfl, rfl⟩
  rw [deepCompare_obj, and_iff_right hobject]
  simp only [Operand.keys, List.mem_append, mem_keys_iff]
  constructor
  · intro h
    refine .obj (fun key j j' hj hj' => ?_) (fun key j hj hj' => ?_) (fun key j' hj hj' => ?_)
    · have hkey := h key (.inl ⟨j, hj⟩)
      rw [Operand.get_field hj, Operand.get_field hj'] at hkey
      exact (ih key j hj j' _).mp hkey
    · have hkey := h key (.inl ⟨j, hj⟩)
      rw [Operand.get_field hj, get_missing hj'] at hkey
      split at hkey
      next hproto => exact ⟨hproto, objectPrototype_right.mp hkey⟩
      next => exact absurd hkey absent_right
    · have hkey := h key (.inr ⟨j', hj'⟩)
      rw [get_missing hj, Operand.get_field hj'] at hkey
      split at hkey
      next hproto => exact ⟨hproto, objectPrototype_left.mp hkey⟩
      next => exact absurd hkey absent_left
  · intro h
    cases h with
    | obj hboth hexpected hactual =>
        intro key hkey
        cases hj : fields.lookup key with
        | none =>
            obtain ⟨j', hj'⟩ := hkey.resolve_left (by simp [hj])
            obtain ⟨hproto, hlike⟩ := hactual key j' hj hj'
            rw [get_missing hj, Operand.get_field hj', if_pos hproto]
            exact objectPrototype_left.mpr hlike
        | some j =>
            rw [Operand.get_field hj]
            cases hj' : fields'.lookup key with
            | none =>
                obtain ⟨hproto, hlike⟩ := hexpected key j hj hj'
                rw [get_missing hj', if_pos hproto]
                exact objectPrototype_right.mpr hlike
            | some j' =>
                rw [Operand.get_field hj']
                exact (ih key j hj j' _).mpr (hboth key j j' hj hj')

/-- What an array has under a key. -/
theorem get_arr (items : List Json) (key : String) :
    (∃ i, ∃ hi : i < items.length, key = indexKey i ∧ Operand.get (.json (.arr items)) key = .json items[i]) ∨
    (key = "length" ∧ Operand.get (.json (.arr items)) key = .json (.num (lengthNumber items.length))) ∨
    (key = "__proto__" ∧ Operand.get (.json (.arr items)) key = .arrayPrototype) ∨
    Operand.get (.json (.arr items)) key = .absent := by
  by_cases hindex : ∃ i < items.length, key = indexKey i
  · obtain ⟨i, hi, rfl⟩ := hindex
    exact .inl ⟨i, hi, rfl, Operand.get_indexKey hi⟩
  · have hfind : ((List.range items.length).find? fun i => indexKey i = key) = none := by
      rw [List.find?_eq_none]
      intro i hi hkey
      exact hindex ⟨i, List.mem_range.mp hi, (of_decide_eq_true hkey).symm⟩
    rw [Operand.get, hfind]
    split
    next hkey => exact .inr (.inl ⟨hkey, rfl⟩)
    next =>
      split
      next hkey => exact .inr (.inr (.inl ⟨hkey, rfl⟩))
      next => exact .inr (.inr (.inr rfl))

theorem members_alike {fields : List (String × Json)} {items : List Json}
    (ih : ∀ key j, fields.lookup key = some j → ∀ (a : Json) (path : String),
      deepCompare (.json j) (.json a) path = [] ↔ Alike j a) :
    deepCompare (.json (.obj fields)) (.json (.arr items)) path = [] ↔ Alike (.obj fields) (.arr items) := by
  have hobject : (Operand.json (.arr items)).isNullish = false ∧ (Operand.json (.arr items)).typeof = "object" :=
    ⟨rfl, rfl⟩
  rw [deepCompare_obj, and_iff_right hobject]
  simp only [Operand.keys, List.mem_append, mem_keys_iff]
  simp only [List.mem_map, List.mem_range]
  constructor
  · intro h
    refine .members (fun i hi hnone => ?_) (fun i j j' hj hj' => ?_) (fun key j hj => ?_)
    · have hkey := h (indexKey i) (.inr ⟨i, hi, rfl⟩)
      rw [get_missing hnone, if_neg (Operand.indexKey_ne_proto i), Operand.get_indexKey hi] at hkey
      exact absent_left hkey
    · obtain ⟨hi, rfl⟩ := List.getElem?_eq_some_iff.mp hj'
      have hkey := h (indexKey i) (.inl ⟨j, hj⟩)
      rw [Operand.get_field hj, Operand.get_indexKey hi] at hkey
      exact (ih _ j hj _ _).mp hkey
    · have hkey := h key (.inl ⟨j, hj⟩)
      rw [Operand.get_field hj] at hkey
      obtain ⟨i, hi, hindex, -⟩ | ⟨hlength, hget⟩ | ⟨hproto, hget⟩ | hget := get_arr items key
      · exact .inl ⟨i, hi, hindex⟩
      · rw [hget] at hkey
        exact .inr (.inl ⟨hlength, num_right.mp hkey⟩)
      · rw [hget] at hkey
        exact .inr (.inr ⟨hproto, arrayPrototype_right.mp hkey⟩)
      · rw [hget] at hkey
        exact absurd hkey absent_right
  · intro h
    cases h with
    | members hitems hboth hrest =>
        intro key hkey
        obtain ⟨j, hj⟩ : ∃ j, fields.lookup key = some j := by
          obtain hj | ⟨i, hi, rfl⟩ := hkey
          · exact hj
          · exact Option.ne_none_iff_exists'.mp (hitems i hi)
        rw [Operand.get_field hj]
        obtain ⟨i, hi, rfl⟩ | ⟨rfl, rfl⟩ | ⟨rfl, hlike⟩ := hrest key j hj
        · rw [Operand.get_indexKey hi]
          exact (ih _ j hj _ _).mpr (hboth i j _ hj (List.getElem?_eq_getElem hi))
        · exact deepCompare_identical (by simp [Operand.get, Operand.identical])
        · exact arrayPrototype_right.mpr hlike

/-- **Nothing is found exactly where the values are alike.** -/
theorem deepCompare_alike (e a : Json) (path : String) : deepCompare (.json e) (.json a) path = [] ↔ Alike e a := by
  induction hn : e.size using Nat.strong_induction_on generalizing e a path with
  | _ n ih =>
      subst hn
      cases e with
      | arr items =>
          cases a with
          | arr items' =>
              refine arr_alike fun j hj a path => ih _ ?_ j a path rfl
              exact Nat.lt_succ_of_le (Json.size_le_sizeItems hj)
          | _ => exact iff_of_false (fun h => nomatch (deepCompare_arr.mp h).1) nofun
      | obj fields =>
          have ih' : ∀ key j, fields.lookup key = some j → ∀ (a : Json) (path : String),
              deepCompare (.json j) (.json a) path = [] ↔ Alike j a := fun key j hj a path =>
            ih _ (Json.size_child (j := .obj fields) (s := .key key) hj) j a path rfl
          cases a with
          | arr items => exact members_alike ih'
          | obj fields' => exact obj_alike ih'
          | _ => exact iff_of_false (fun h => nomatch eq_of_nil h (.inr trivial)) nofun
      | _ =>
          constructor
          · intro h
            obtain rfl := eq_of_nil h (.inl trivial)
            constructor
          · intro h
            cases h
            exact deepCompare_identical (by simp [Operand.identical])

/-! ## Equality as JSON -/

/-- The same children on both sides, and the same head. -/
theorem sameValue_of_children (hhead : e.head = a.head)
    (hsome : ∀ s c, e.child s = some c → ∃ c', a.child s = some c' ∧ c.SameValue c')
    (hnone : ∀ s, e.child s = none → a.child s = none) : e.SameValue a := by
  intro steps
  cases steps with
  | nil => exact congrArg some hhead
  | cons s steps =>
      rw [Json.headAt_cons, Json.headAt_cons]
      cases hs : e.child s with
      | none => rw [hnone s hs]
      | some c =>
          obtain ⟨c', hc', hsame⟩ := hsome s c hs
          rw [hc']
          exact hsame steps

theorem alike_of_sameValue (e a : Json) (h : e.SameValue a) : Alike e a := by
  induction hn : e.size using Nat.strong_induction_on generalizing e a with
  | _ n ih =>
      subst hn
      have hhead := h.head
      have hchild : ∀ s c c', e.child s = some c → a.child s = some c' → Alike c c' := by
        intro s c c' hc hc'
        obtain ⟨c'', hc'', hsame⟩ := h.child hc
        rw [hc'] at hc''
        cases hc''
        exact ih _ (Json.size_child hc) c c' hsame rfl
      cases e with
      | arr items =>
          cases a with
          | arr items' => exact .arr (Json.Head.arr.inj hhead) fun i j j' => hchild (.index i) j j'
          | _ => cases hhead
      | obj fields =>
          cases a with
          | obj fields' =>
              refine .obj (fun key j j' => hchild (.key key) j j') (fun key j hj hj' => ?_) (fun key j' hj hj' => ?_)
              · obtain ⟨c', hc', -⟩ := h.child (s := .key key) hj
                exact absurd (hc'.symm.trans hj') nofun
              · obtain ⟨c', hc', -⟩ := h.symm.child (s := .key key) hj'
                exact absurd (hc'.symm.trans hj) nofun
          | _ => cases hhead
      | _ =>
          cases a <;> cases hhead
          constructor

theorem confused_child {s : Json.Step} {c c' : Json} {steps : List Json.Step} (hc : e.child s = some c)
    (hc' : a.child s = some c') (h : Confused c c' steps) : Confused e a (s :: steps) := by
  rw [Confused, List.cons_append, Json.headAt_cons, Json.headAt_cons, Json.headAt_cons, Json.headAt_cons, hc, hc']
  exact h

/-- Values that are alike and nowhere confused are equal. -/
theorem sameValue_of_alike (h : Alike e a) (hplain : ∀ steps, ¬ Confused e a steps) : e.SameValue a := by
  induction h with
  | arr hlength hitems ih =>
      refine sameValue_of_children (congrArg Json.Head.arr hlength) (fun s c hc => ?_) (fun s hs => ?_)
      · cases s with
        | key name => cases hc
        | index i =>
            have hi := hlength ▸ (List.getElem?_eq_some_iff.mp hc).1
            have hc' := List.getElem?_eq_getElem hi
            exact ⟨_, hc', ih i c _ hc hc' fun steps hconfused => hplain _ (confused_child (s := .index i) hc hc' hconfused)⟩
      · cases s with
        | key name => rfl
        | index i => exact List.getElem?_eq_none (hlength ▸ List.getElem?_eq_none_iff.mp hs)
  | @obj fields fields' hboth hexpected hactual ih =>
      have hproto : (fields.lookup "__proto__").isSome = (fields'.lookup "__proto__").isSome := by
        by_contra hne
        refine hplain [] (.inr fun h => hne ?_)
        rw [List.nil_append, Json.headAt_cons, Json.headAt_cons, Option.isSome_bind, Option.isSome_bind] at h
        simpa [Json.child, Json.headAt, Json.sub] using h
      refine sameValue_of_children rfl (fun s c hc => ?_) (fun s hs => ?_)
      · cases s with
        | index i => cases hc
        | key key =>
            cases hc' : fields'.lookup key with
            | none =>
                obtain ⟨rfl, -⟩ := hexpected key c hc hc'
                rw [hc', show fields.lookup "__proto__" = some c from hc] at hproto
                cases hproto
            | some c' =>
                exact ⟨c', hc', ih key c c' hc hc' fun steps hconfused =>
                  hplain _ (confused_child (s := .key key) hc hc' hconfused)⟩
      · cases s with
        | index i => rfl
        | key key =>
            by_contra hne
            obtain ⟨c', hc'⟩ := Option.ne_none_iff_exists'.mp hne
            obtain ⟨rfl, -⟩ := hactual key c' hs hc'
            rw [show fields.lookup "__proto__" = none from hs, show fields'.lookup "__proto__" = some c' from hc'] at hproto
            cases hproto
  | members hitems hboth hrest ih => exact absurd (.inl ⟨rfl, _, rfl⟩) (hplain [])
  | _ => exact fun steps => rfl

theorem not_sameValue_of_confused {steps : List Json.Step} (h : Confused e a steps) : ¬ e.SameValue a := by
  intro hsame
  obtain ⟨he, n, ha⟩ | h := h
  · rw [hsame, ha] at he
    cases he
  · exact h (congrArg _ (hsame _))

end Alike

/-- **The comparison says of two values whether they are equal, unless they are alike and
somewhere confused.** -/
theorem deepCompare_iff (expected actual : Json) :
    (deepCompare (.json expected) (.json actual) "" = [] ↔ expected.SameValue actual) ↔
      ¬ (Alike expected actual ∧ ∃ steps, Confused expected actual steps) := by
  rw [deepCompare_alike]
  constructor
  · rintro h ⟨halike, steps, hconfused⟩
    exact not_sameValue_of_confused hconfused (h.mp halike)
  · refine fun h => ⟨fun halike => ?_, alike_of_sameValue expected actual⟩
    exact sameValue_of_alike halike fun steps hconfused => h ⟨halike, steps, hconfused⟩

/-- `{}` passes for `[]`. -/
theorem empty_object_array : ¬ (deepCompare (.json (.obj [])) (.json (.arr [])) "" = [] ↔
    (Json.obj []).SameValue (.arr [])) := by
  intro h
  have halike : Alike (.obj []) (.arr []) := .members nofun nofun nofun
  cases (h.mp ((deepCompare_alike _ _ _).mpr halike)).head

/-! ## The full mode -/

/-- `validate` in the mode `full`, with `none` for what `JSON.parse` throws. -/
def validateFull (parse : String → Option Json) (expectedJson : String) (responseBody : Json) : List FailureDetail :=
  if expectedJson = "" then []
  else
    match parse expectedJson with
    | none => [⟨"(parse)", some "valid JSON", some "parse error in expected JSON"⟩]
    | some expectedObj => deepCompare (.json expectedObj) (.json responseBody) ""

theorem validateFull_nil_iff (parse : String → Option Json) (expectedJson : String) (responseBody : Json) :
    validateFull parse expectedJson responseBody = [] ↔
      expectedJson = "" ∨ ∃ expectedObj, parse expectedJson = some expectedObj ∧ Alike expectedObj responseBody := by
  rw [validateFull]
  split
  next h => exact iff_of_true rfl (.inl h)
  next h =>
    rw [or_iff_right h]
    cases parse expectedJson with
    | none => simp
    | some expectedObj => simp [deepCompare_alike]

end RedFireForge.Engine.DeepCompare
