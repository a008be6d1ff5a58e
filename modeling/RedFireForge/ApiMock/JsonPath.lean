/-
# `RedFireForge.ApiMock.JsonPath` — dotted paths into a JSON value

A path is read by one function and written by another.  The reader takes a key of digits for
a number, the length of an array for one of its keys, and what every object inherits for its
own; the writer splits the path and goes by the keys as they are, making objects on the way.
Brackets are left out: a path with one is not used for redaction.
-/
import Mathlib.Data.List.DropRight
import RedFireForge.Lib.JsonTree
import RedFireForge.ApiMock.PathMatcher

namespace RedFireForge.ApiMock

open RedFireForge.Lib

/-- White space and line ends, as `String.prototype.trim` takes them. -/
def isSpace (c : Char) : Bool :=
  c.toNat ∈ [9, 10, 11, 12, 13, 32, 0xA0, 0x1680, 0x2028, 0x2029, 0x202F, 0x205F, 0x3000, 0xFEFF] ||
    decide (0x2000 ≤ c.toNat ∧ c.toNat ≤ 0x200A)

theorem isSpace_of_isDigit {c : Char} (h : c.isDigit = true) : isSpace c = false := by
  have hrange : 48 ≤ c.toNat ∧ c.toNat ≤ 57 := by
    simp only [Char.isDigit, Bool.and_eq_true, decide_eq_true_eq, ge_iff_le, UInt32.le_iff_toNat_le] at h
    exact h
  simp only [isSpace, Bool.or_eq_false_iff, decide_eq_false_iff_not, List.mem_cons, List.not_mem_nil,
    or_false]
  omega

def trim (cs : List Char) : List Char := (cs.dropWhile isSpace).rdropWhile isSpace

def stripJsonPathPrefix : List Char → List Char
  | '$' :: '.' :: cs => cs
  | '$' :: cs => cs
  | cs => cs

/-- `split('.').filter(Boolean)` -/
def dotted (cs : List Char) : List String :=
  ((cs.splitOn '.').filter (· ≠ [])).map String.ofList

/-! ## Reading -/

/-- `const STAR`, which a key can be, too -/
def star : String := "__PATH_STAR__"

def tokenizeJsonPath (normalized : List Char) : List String := dotted (trim normalized)

/-- `/^\d+$/` -/
def isDigits (t : String) : Bool := !t.isEmpty && t.toList.all Char.isDigit

def digitsValue (t : String) : ℕ := Nat.ofDigitChars 10 t.toList 0

/-- `String(Number(t))` of digits; another key is itself. -/
def keyText (js : Js) (t : String) : String :=
  if isDigits t then js.numberText (digitsValue t) else t

/-- A key of an array that is an index: digits as the number is written. -/
def arrayIndexOf (key : String) : Option ℕ :=
  if toString (digitsValue key) = key then some (digitsValue key) else none

/-- The functions that an object inherits from `Object.prototype`. -/
def inheritedNames : List String :=
  ["constructor", "__defineGetter__", "__defineSetter__", "hasOwnProperty", "__lookupGetter__",
    "__lookupSetter__", "isPrototypeOf", "propertyIsEnumerable", "toString", "valueOf",
    "toLocaleString"]

/-- Where the reader is. -/
inductive Reached
  | value (j : Json)
  /-- the length of an array -/
  | number
  /-- the results for all items of an array -/
  | results
  | function
  /-- `Object.prototype` -/
  | prototype
  | undefined
deriving DecidableEq

def readKey (js : Js) : Reached → String → Reached
  | .value (.arr items), t =>
      if t = "length" then .number
      else if isDigits t then
        (((arrayIndexOf (keyText js t)).bind (items[·]?)).map Reached.value).getD .undefined
      else .undefined
  | .value (.obj fields), t =>
      let key := keyText js t
      match fields.lookup key with
      | some j => .value j
      | none =>
          if key = "__proto__" then .prototype
          else if key ∈ inheritedNames then .function
          else .undefined
  | .prototype, t =>
      let key := keyText js t
      if key = "__proto__" then .value .null
      else if key ∈ inheritedNames then .function
      else .undefined
  | _, _ => .undefined

/-- All items of an array. -/
def readItems : Reached → List String → Reached
  | .value (.arr items), tokens => if tokens = [] then .value (.arr items) else .results
  | _, _ => .undefined

def walkPath (js : Js) : Reached → List String → Reached
  | r, [] => r
  | r, t :: tokens =>
      if t = star then readItems r tokens else walkPath js (readKey js r t) tokens

def getByPath (js : Js) (j : Json) (path : List Char) : Reached :=
  walkPath js (.value j) (tokenizeJsonPath (stripJsonPathPrefix path))

/-! ## Writing -/

def unsafeKeys : List String := ["__proto__", "prototype", "constructor"]

/-- What stands under a key itself. -/
def ownChild : Json → String → Option Json
  | .obj fields, key => fields.lookup key
  | .arr items, key => (arrayIndexOf key).bind (items[·]?)
  | _, _ => none

def isContainer : Json → Bool
  | .obj _ | .arr _ => true
  | _ => false

def setField : List (String × Json) → String → Json → List (String × Json)
  | [], key, v => [(key, v)]
  | (name, w) :: fields, key, v =>
      if name = key then (key, v) :: fields else (name, w) :: setField fields key v

/-- `j[key] = v`: the length of an array takes neither a text nor an object, and other keys of
an array are not in its text. -/
def assignKey : Json → String → Json → Option Json
  | .obj fields, key, v => some (.obj (setField fields key v))
  | .arr items, key, v =>
      if key = "length" then none
      else
        match arrayIndexOf key with
        | some i =>
            if i < items.length then some (.arr (items.set i v))
            else some (.arr (items ++ List.replicate (i - items.length) .null ++ [v]))
        | none => some (.arr items)
  | j, _, _ => some j

/-- `none` when the assignment throws. -/
def setKeys (v : Json) : Json → List String → Option Json
  | j, [] => some j
  | j, [key] => assignKey j key v
  | j, key :: keys =>
      let child := ((ownChild j key).filter isContainer).getD (.obj [])
      (setKeys v child keys).bind fun child => assignKey j key child

/-- The keys that the writer goes by. -/
def pathKeys (path : List Char) : List String :=
  let normalized := stripJsonPathPrefix path
  if trim normalized = [] then [] else dotted normalized

def setByPath (j : Json) (path : List Char) (v : Json) : Option Json :=
  if (pathKeys path).any (· ∈ unsafeKeys) then some j else setKeys v j (pathKeys path)

/-! ## What stands at a path -/

def valueAt : Json → List String → Option Json
  | j, [] => some j
  | j, key :: keys => (ownChild j key).bind fun child => valueAt child keys

/-- The reader takes the key as it is. -/
def isPlainKey (js : Js) (key : String) : Bool :=
  decide (key ∉ unsafeKeys) && key != star && keyText js key == key

/-- The path leads to the length of an array. -/
def isLength (j : Json) (keys : List String) : Bool :=
  match keys.getLast?, valueAt j keys.dropLast with
  | some "length", some (.arr _) => true
  | _, _ => false

/-- A value with marks in it: each in the place of another value, or under a name that the
object had inherited. -/
inductive Marked (m : String) : Json → Json → Prop
  | here {j : Json} : Marked m j (.str m)
  | field {before after : List (String × Json)} {key : String} {j j' : Json} :
      key ∉ before.map Prod.fst → Marked m j j' →
      Marked m (.obj (before ++ (key, j) :: after)) (.obj (before ++ (key, j') :: after))
  | item {before after : List Json} {j j' : Json} : Marked m j j' →
      Marked m (.arr (before ++ j :: after)) (.arr (before ++ j' :: after))
  | added {fields : List (String × Json)} {key : String} : key ∈ inheritedNames →
      key ∉ fields.map Prod.fst → Marked m (.obj fields) (.obj (fields ++ [(key, .str m)]))

section Lookup

variable {fields before after : List (String × Json)} {key : String} {v w : Json}

theorem lookup_isNone : fields.lookup key = none ↔ key ∉ fields.map Prod.fst := by
  rw [List.lookup_eq_none_iff]
  constructor
  · intro hall hmem
    obtain ⟨p, hp, rfl⟩ := List.mem_map.mp hmem
    have hp := hall p hp
    simp at hp
  · intro hmem p hp
    have hne : key ≠ p.1 := fun heq => hmem (heq ▸ List.mem_map_of_mem hp)
    simpa using hne

theorem lookup_append_cons (hkey : key ∉ before.map Prod.fst) :
    (before ++ (key, v) :: after).lookup key = some v := by
  rw [List.lookup_append, lookup_isNone.mpr hkey, List.lookup_cons_self]
  rfl

theorem lookup_append_cons_ne {key' : String} (hne : key' ≠ key) :
    (before ++ (key, v) :: after).lookup key' = (before ++ (key, w) :: after).lookup key' := by
  rw [List.lookup_append, List.lookup_append, List.lookup_cons, List.lookup_cons,
    beq_eq_false_iff_ne.mpr hne]

theorem setField_of_some (h : fields.lookup key = some w) : ∃ before after,
    fields = before ++ (key, w) :: after ∧ key ∉ before.map Prod.fst ∧
      ∀ v, setField fields key v = before ++ (key, v) :: after := by
  induction fields with
  | nil => cases h
  | cons f fields ih =>
      obtain ⟨name, u⟩ := f
      by_cases hname : name = key
      · subst hname
        rw [List.lookup_cons_self, Option.some.injEq] at h
        subst h
        exact ⟨[], fields, rfl, List.not_mem_nil, fun v => if_pos rfl⟩
      · rw [List.lookup_cons, beq_eq_false_iff_ne.mpr (Ne.symm hname)] at h
        obtain ⟨before, after, rfl, hkey, hset⟩ := ih h
        refine ⟨(name, u) :: before, after, rfl, ?_, fun v => ?_⟩
        · rw [List.map_cons, List.mem_cons, not_or]
          exact ⟨Ne.symm hname, hkey⟩
        · rw [setField, if_neg hname, hset]
          rfl

theorem setField_of_none (h : fields.lookup key = none) (v : Json) :
    setField fields key v = fields ++ [(key, v)] := by
  induction fields with
  | nil => rfl
  | cons f fields ih =>
      obtain ⟨name, u⟩ := f
      have hkey := lookup_isNone.mp h
      rw [List.map_cons, List.mem_cons, not_or] at hkey
      rw [setField, if_neg (Ne.symm hkey.1), ih (lookup_isNone.mpr hkey.2)]
      rfl

end Lookup

/-! ### Keys that are read as they are -/

section Plain

variable {js : Js} {m key : String} {keys : List String} {j j' v : Json} {i : ℕ}

theorem isDigits_of_index (h : arrayIndexOf key = some i) : isDigits key = true := by
  obtain ⟨heq, hi⟩ := Option.ite_none_right_eq_some.mp h
  have hkey : key = toString i := heq.symm.trans (congrArg _ (Option.some.inj hi))
  have hlist : key.toList = Nat.toDigits 10 i := by
    rw [hkey, Nat.toString_eq_repr, Nat.repr_eq_ofList_toDigits, String.toList_ofList]
  have hne : key.toList ≠ [] := by
    rw [hlist]
    exact List.ne_nil_of_length_pos Nat.length_toDigits_pos
  rw [isDigits, Bool.and_eq_true, List.all_eq_true]
  constructor
  · cases hempty : key.isEmpty with
    | false => rfl
    | true => exact absurd (by rw [String.isEmpty_iff.mp hempty]; rfl) hne
  · intro ch hch
    rw [hlist] at hch
    exact Nat.isDigit_of_mem_toDigits (by decide) (by decide) hch

theorem isPlainKey_iff : isPlainKey js key = true ↔
    key ∉ unsafeKeys ∧ key ≠ star ∧ keyText js key = key := by
  simp [isPlainKey, and_assoc]

/-- The reader finds what stands under a plain key. -/
theorem readKey_of_child (hkey : isPlainKey js key = true) (h : ownChild j key = some v) :
    readKey js (.value j) key = .value v := by
  obtain ⟨-, -, htext⟩ := isPlainKey_iff.mp hkey
  cases j with
  | obj fields =>
      have h : fields.lookup key = some v := h
      simp only [readKey, htext, h]
  | arr items =>
      obtain ⟨i, hi, hget⟩ := Option.bind_eq_some_iff.mp h
      have hdigits := isDigits_of_index hi
      have hne : key ≠ "length" := by
        rintro rfl
        exact absurd hdigits (by decide)
      rw [readKey, if_neg hne, if_pos hdigits, htext, hi]
      show ((items[i]?).map Reached.value).getD .undefined = .value v
      rw [hget]
      rfl
  | _ => cases h

/-- Where nothing stands, no value is reached, and nothing further on. -/
theorem readKey_of_none (hkey : isPlainKey js key = true) (h : ownChild j key = none) :
    readKey js (.value j) key ∈ [Reached.number, .function, .undefined] := by
  obtain ⟨hsafe, -, htext⟩ := isPlainKey_iff.mp hkey
  cases j with
  | obj fields =>
      have h : fields.lookup key = none := h
      have hproto : key ≠ "__proto__" := by
        rintro rfl
        exact hsafe (by decide)
      simp only [readKey, htext, h, if_neg hproto]
      split <;> simp
  | arr items =>
      rw [readKey]
      split
      next => simp
      next =>
        split
        next =>
          have h : (arrayIndexOf key).bind (items[·]?) = none := h
          rw [htext, h]
          simp
        next => simp
  | _ => simp [readKey]

theorem walkPath_undefined (keys : List String) : walkPath js .undefined keys = .undefined := by
  induction keys with
  | nil => rfl
  | cons key keys ih =>
      rw [walkPath]
      split
      · rfl
      · exact ih

theorem walkPath_end {r : Reached} (hr : r ∈ [Reached.number, .function, .undefined])
    (hkeys : keys ≠ []) : walkPath js r keys = .undefined := by
  cases keys with
  | nil => exact absurd rfl hkeys
  | cons key keys =>
      simp only [List.mem_cons, List.not_mem_nil, or_false] at hr
      rw [walkPath]
      rcases hr with rfl | rfl | rfl
      all_goals
        split
        · rfl
        · exact walkPath_undefined keys

theorem walkPath_of_value (hkeys : ∀ key ∈ keys, isPlainKey js key = true)
    (h : valueAt j keys = some v) : walkPath js (.value j) keys = .value v := by
  induction keys generalizing j with
  | nil =>
      cases h
      rfl
  | cons key keys ih =>
      rw [List.forall_mem_cons] at hkeys
      obtain ⟨child, hchild, hrest⟩ := Option.bind_eq_some_iff.mp h
      rw [walkPath, if_neg (isPlainKey_iff.mp hkeys.1).2.1, readKey_of_child hkeys.1 hchild]
      exact ih hkeys.2 hrest

theorem isContainer_of_defined (hkeys : keys ≠ []) (h : walkPath js (.value j) keys ≠ .undefined) :
    isContainer j = true := by
  cases keys with
  | nil => exact absurd rfl hkeys
  | cons key keys =>
      cases j with
      | arr items => rfl
      | obj fields => rfl
      | _ =>
          refine absurd ?_ h
          rw [walkPath]
          split
          · rfl
          · cases keys with
            | nil => rfl
            | cons key' keys => exact walkPath_end (by simp [readKey]) (List.cons_ne_nil _ _)

theorem isLength_cons (h : ownChild j key = some v) (hkeys : keys ≠ []) :
    isLength j (key :: keys) = isLength v keys := by
  cases keys with
  | nil => exact absurd rfl hkeys
  | cons key' keys =>
      unfold isLength
      rw [List.getLast?_cons_cons, List.dropLast_cons_cons, valueAt, h]
      rfl

theorem ownChild_obj {fields : List (String × Json)} :
    ownChild (.obj fields) key = fields.lookup key := rfl

theorem items_split {items : List Json} (h : items[i]? = some v) :
    ∃ before after, items = before ++ v :: after ∧ before.length = i ∧
      ∀ w, items.set i w = before ++ w :: after := by
  obtain ⟨hlt, hget⟩ := List.getElem?_eq_some_iff.mp h
  refine ⟨items.take i, items.drop (i + 1), ?_, ?_, fun w => ?_⟩
  · rw [← hget, ← List.drop_eq_getElem_cons hlt, List.take_append_drop]
  · rw [List.length_take, Nat.min_eq_left hlt.le]
  · rw [List.set_eq_take_append_cons_drop, if_pos hlt]

/-- To assign to a key of a container whose own child is replaced. -/
theorem assignKey_child {child child' : Json} (hchild : ownChild j key = some child)
    (hmarked : Marked m child child') : ∃ j', assignKey j key child' = some j' ∧ Marked m j j' ∧
      ownChild j' key = some child' := by
  cases j with
  | obj fields =>
      obtain ⟨before, after, rfl, hkey, hset⟩ := setField_of_some hchild
      refine ⟨.obj (before ++ (key, child') :: after), ?_, .field hkey hmarked, ?_⟩
      · rw [assignKey, hset]
      · exact lookup_append_cons hkey
  | arr items =>
      obtain ⟨i, hi, hget⟩ := Option.bind_eq_some_iff.mp hchild
      have hlt := (List.getElem?_eq_some_iff.mp hget).1
      obtain ⟨before, after, rfl, hlen, hset⟩ := items_split hget
      have hne : key ≠ "length" := by
        rintro rfl
        exact absurd (isDigits_of_index hi) (by decide)
      refine ⟨.arr (before ++ child' :: after), ?_, .item hmarked, ?_⟩
      · rw [assignKey, if_neg hne, hi]
        simp only [if_pos hlt, hset]
      · show (arrayIndexOf key).bind _ = _
        rw [hi, Option.bind_some, ← hlen, List.getElem?_append_right (Nat.le_refl _), Nat.sub_self]
        rfl
  | _ => cases hchild

/-- The last key may be a name that the object inherits. -/
theorem inherited_marked (hkey : isPlainKey js key = true) (hchild : ownChild j key = none)
    (hlength : isLength j [key] = false) (h : walkPath js (readKey js (.value j) key) [] ≠ .undefined) :
    ∃ j', setKeys (.str m) j [key] = some j' ∧ Marked m j j' ∧ valueAt j' [key] = some (.str m) := by
  obtain ⟨hsafe, hstar, htext⟩ := isPlainKey_iff.mp hkey
  rw [walkPath] at h
  cases j with
  | obj fields =>
      have hnone : fields.lookup key = none := hchild
      have hproto : key ≠ "__proto__" := by
        rintro rfl
        exact hsafe (by decide)
      have hname : key ∈ inheritedNames := by
        by_contra hname
        simp [readKey, htext, hnone, hproto, hname] at h
      refine ⟨.obj (fields ++ [(key, .str m)]), ?_, .added hname (lookup_isNone.mp hnone), ?_⟩
      · rw [setKeys, assignKey, setField_of_none hnone]
      · have hown : ownChild (.obj (fields ++ [(key, .str m)])) key = some (.str m) :=
          lookup_append_cons (lookup_isNone.mp hnone)
        rw [valueAt, hown]
        rfl
  | arr items =>
      have hne : key ≠ "length" := by
        rintro rfl
        cases hlength
      have hnone : (arrayIndexOf key).bind (items[·]?) = none := hchild
      rw [readKey, if_neg hne, htext, hnone] at h
      simp at h
  | _ => exact absurd rfl h

/-- **The writer follows the reader**: on plain keys, but for the length of an array, it puts a
mark where the reader has found something. -/
theorem setKeys_marked (hkeys : ∀ key ∈ keys, isPlainKey js key = true) (hne : keys ≠ [])
    (hlength : isLength j keys = false) (h : walkPath js (.value j) keys ≠ .undefined) :
    ∃ j', setKeys (.str m) j keys = some j' ∧ Marked m j j' ∧ valueAt j' keys = some (.str m) := by
  induction keys generalizing j with
  | nil => exact absurd rfl hne
  | cons key keys ih =>
      rw [List.forall_mem_cons] at hkeys
      obtain ⟨hsafe, hstar, htext⟩ := isPlainKey_iff.mp hkeys.1
      rw [walkPath, if_neg hstar] at h
      cases hchild : ownChild j key with
      | some child =>
          rw [readKey_of_child hkeys.1 hchild] at h
          cases keys with
          | nil =>
              obtain ⟨j', hset, hmarked, hown⟩ := assignKey_child hchild (.here (m := m))
              exact ⟨j', hset, hmarked, by rw [valueAt, hown]; rfl⟩
          | cons key' keys =>
              rw [isLength_cons hchild (List.cons_ne_nil _ _)] at hlength
              obtain ⟨child', hset, hmarked, hvalue⟩ := ih hkeys.2 (List.cons_ne_nil _ _) hlength h
              have hcontainer := isContainer_of_defined (List.cons_ne_nil _ _) h
              obtain ⟨j', hassign, hmarked', hown⟩ := assignKey_child hchild hmarked
              refine ⟨j', ?_, hmarked', by rw [valueAt, hown]; exact hvalue⟩
              rw [setKeys, hchild, Option.filter_some, if_pos hcontainer, Option.getD_some, hset]
              · exact hassign
              · exact List.cons_ne_nil _ _
      | none =>
          have hend := readKey_of_none hkeys.1 hchild
          cases keys with
          | cons key' keys => exact absurd (walkPath_end hend (List.cons_ne_nil _ _)) h
          | nil => exact inherited_marked hkeys.1 hchild hlength h

/-! ### What marks leave -/

theorem ownChild_marked (key : String) (h : Marked m j j') : ownChild j' key = ownChild j key ∨
    (∃ v v', ownChild j key = some v ∧ ownChild j' key = some v' ∧ Marked m v v') ∨
      ownChild j' key = none ∨ ownChild j key = none ∧ ownChild j' key = some (.str m) := by
  cases h with
  | here => exact Or.inr (Or.inr (Or.inl rfl))
  | @field before after key' v v' hkey hmarked =>
      by_cases heq : key = key'
      · subst heq
        exact Or.inr (Or.inl ⟨v, v', lookup_append_cons hkey, lookup_append_cons hkey, hmarked⟩)
      · exact Or.inl (lookup_append_cons_ne heq)
  | @item before after v v' hmarked =>
      cases hi : arrayIndexOf key with
      | none => simp [ownChild, hi]
      | some i =>
          simp only [ownChild, hi, Option.bind_some]
          rcases Nat.lt_trichotomy i before.length with hlt | rfl | hlt
          · rw [List.getElem?_append_left hlt, List.getElem?_append_left hlt]
            exact Or.inl rfl
          · rw [List.getElem?_append_right (Nat.le_refl _), List.getElem?_append_right (Nat.le_refl _),
              Nat.sub_self]
            exact Or.inr (Or.inl ⟨v, v', rfl, rfl, hmarked⟩)
          · rw [List.getElem?_append_right hlt.le, List.getElem?_append_right hlt.le]
            obtain ⟨n, hn⟩ := Nat.exists_eq_add_of_lt hlt
            have hsub : i - before.length = n + 1 := by omega
            rw [hsub, List.getElem?_cons_succ, List.getElem?_cons_succ]
            exact Or.inl rfl
  | @added fields key' hname hkey =>
      by_cases heq : key = key'
      · subst heq
        refine Or.inr (Or.inr (Or.inr ⟨lookup_isNone.mpr hkey, ?_⟩))
        exact lookup_append_cons hkey
      · left
        rw [ownChild_obj, ownChild_obj, List.lookup_append, List.lookup_cons,
          beq_eq_false_iff_ne.mpr heq]
        simp

/-- Where a mark stands or nothing, no value comes back. -/
theorem valueAt_marked (h : Marked m j j') (hold : valueAt j keys = none ∨ valueAt j keys = some (.str m)) :
    valueAt j' keys = none ∨ valueAt j' keys = some (.str m) := by
  induction keys generalizing j j' with
  | nil =>
      have hold : some j = none ∨ some j = some (.str m) := hold
      simp only [reduceCtorEq, Option.some.injEq, false_or] at hold
      subst hold
      cases h
      exact Or.inr rfl
  | cons key keys ih =>
      rw [valueAt] at hold ⊢
      rcases ownChild_marked key h with hsame | ⟨v, v', hv, hv', hmarked⟩ | hgone | ⟨-, hadded⟩
      · rw [hsame]
        exact hold
      · rw [hv] at hold
        rw [hv']
        exact ih hmarked hold
      · rw [hgone]
        exact Or.inl rfl
      · rw [hadded, Option.bind_some]
        cases keys with
        | nil => exact Or.inr rfl
        | cons key' keys => exact Or.inl rfl

/-- An array that is there was there. -/
theorem array_marked {items : List Json} (h : Marked m j j') (hnew : valueAt j' keys = some (.arr items)) :
    ∃ items, valueAt j keys = some (.arr items) := by
  induction keys generalizing j j' with
  | nil =>
      cases hnew
      cases h
      exact ⟨_, rfl⟩
  | cons key keys ih =>
      rw [valueAt] at hnew ⊢
      rcases ownChild_marked key h with hsame | ⟨v, v', hv, hv', hmarked⟩ | hgone | ⟨-, hadded⟩
      · exact ⟨items, hsame ▸ hnew⟩
      · rw [hv'] at hnew
        rw [hv]
        exact ih hmarked hnew
      · rw [hgone] at hnew
        cases hnew
      · rw [hadded] at hnew
        cases keys with
        | nil => cases hnew
        | cons key' keys => cases hnew

theorem isLength_iff : isLength j keys = true ↔ keys.getLast? = some "length" ∧
    ∃ items, valueAt j keys.dropLast = some (.arr items) := by
  unfold isLength
  split
  next items hlast harray => exact iff_of_true rfl ⟨hlast, items, harray⟩
  next hnot =>
    refine iff_of_false Bool.false_ne_true ?_
    rintro ⟨hlast, items, harray⟩
    exact hnot items hlast harray

theorem isLength_marked (h : Marked m j j') (hold : isLength j keys = false) :
    isLength j' keys = false := by
  rw [← Bool.not_eq_true, isLength_iff] at hold ⊢
  rintro ⟨hlast, items, harray⟩
  exact hold ⟨hlast, array_marked h harray⟩

theorem readItems_marked (h : Marked m j j') (hold : readItems (.value j) keys = .undefined) :
    readItems (.value j') keys = .undefined := by
  cases h with
  | item =>
      rw [readItems] at hold
      split at hold
      · cases hold
      · cases hold
  | _ => rfl

theorem readKey_marked (js : Js) (key : String) (h : Marked m j j') : readKey js (.value j') key = readKey js (.value j) key ∨
    (∃ v v', readKey js (.value j) key = .value v ∧ readKey js (.value j') key = .value v' ∧
      Marked m v v') ∨ readKey js (.value j') key = .undefined ∨
      readKey js (.value j) key = .function ∧ readKey js (.value j') key = .value (.str m) := by
  cases h with
  | here => exact Or.inr (Or.inr (Or.inl rfl))
  | @field before after key' v v' hkey hmarked =>
      by_cases heq : keyText js key = key'
      · right
        left
        refine ⟨v, v', ?_, ?_, hmarked⟩
        · simp only [readKey, heq, lookup_append_cons hkey]
        · simp only [readKey, heq, lookup_append_cons hkey]
      · left
        simp only [readKey]
        rw [lookup_append_cons_ne (v := v') (w := v) heq]
  | @item before after v v' hmarked =>
      have hitems : Marked m (.arr (before ++ v :: after)) (.arr (before ++ v' :: after)) :=
        .item hmarked
      have hown := ownChild_marked (keyText js key) hitems
      have hlen : (before ++ v' :: after).length = (before ++ v :: after).length := by simp
      simp only [readKey]
      by_cases hlength : key = "length"
      · simp [hlength]
      · rw [if_neg hlength, if_neg hlength]
        by_cases hdigits : isDigits key = true
        · rw [if_pos hdigits, if_pos hdigits]
          simp only [ownChild] at hown
          rcases hown with hsame | ⟨w, w', hw, hw', hm⟩ | hgone | ⟨hnone, hadded⟩
          · exact Or.inl (by rw [hsame])
          · exact Or.inr (Or.inl ⟨w, w', by rw [hw]; rfl, by rw [hw']; rfl, hm⟩)
          · exact Or.inr (Or.inr (Or.inl (by rw [hgone]; rfl)))
          · -- an array gets no new items
            obtain ⟨i, hi, hget⟩ := Option.bind_eq_some_iff.mp hadded
            rw [hi, Option.bind_some, List.getElem?_eq_none_iff] at hnone
            have hlt := (List.getElem?_eq_some_iff.mp hget).1
            omega
        · rw [if_neg hdigits, if_neg hdigits]
          exact Or.inl rfl
  | @added fields key' hname hkey =>
      by_cases heq : keyText js key = key'
      · right
        right
        right
        have hproto : key' ≠ "__proto__" := by
          rintro rfl
          exact absurd hname (by decide)
        constructor
        · simp only [readKey, heq, lookup_isNone.mpr hkey, if_neg hproto, if_pos hname]
        · simp only [readKey, heq]
          rw [lookup_append_cons hkey]
      · left
        simp only [readKey]
        rw [List.lookup_append, List.lookup_cons, beq_eq_false_iff_ne.mpr heq]
        simp

theorem walkPath_marked (h : Marked m j j') (hold : walkPath js (.value j) keys = .undefined) :
    walkPath js (.value j') keys = .undefined := by
  induction keys generalizing j j' with
  | nil => cases hold
  | cons key keys ih =>
      rw [walkPath] at hold ⊢
      split at hold
      next hstar =>
        rw [if_pos hstar]
        exact readItems_marked h hold
      next hstar =>
        rw [if_neg hstar]
        rcases readKey_marked js key h with hsame | ⟨v, v', hv, hv', hmarked⟩ | hgone |
          ⟨hfun, hadded⟩
        · rw [hsame]
          exact hold
        · rw [hv] at hold
          rw [hv']
          exact ih hmarked hold
        · rw [hgone]
          exact walkPath_undefined keys
        · rw [hfun] at hold
          rw [hadded]
          by_contra hdefined
          have hne : keys ≠ [] := by
            rintro rfl
            cases hold
          exact absurd (isContainer_of_defined hne hdefined) Bool.false_ne_true

theorem eachObject_str {P : List String → Prop} : (Json.str m).EachObject P := by
  intro path fields hsub
  cases path with
  | nil => cases hsub
  | cons s path => cases hsub

theorem unique_marked (h : Marked m j j') (hold : j.EachObject List.Nodup) :
    j'.EachObject List.Nodup := by
  induction h with
  | here => exact eachObject_str
  | @field before after key' v v' hkey hmarked ih =>
      rw [Json.eachObject_obj] at hold ⊢
      constructor
      · simpa using hold.1
      · intro name w hw
        by_cases heq : name = key'
        · subst heq
          rw [lookup_append_cons hkey, Option.some.injEq] at hw
          exact hw ▸ ih (hold.2 name v (lookup_append_cons hkey))
        · rw [lookup_append_cons_ne (v := v') (w := v) heq] at hw
          exact hold.2 name w hw
  | @item before after v v' hmarked ih =>
      rw [Json.eachObject_arr] at hold ⊢
      intro w hw
      rcases List.mem_append.mp hw with hw | hw
      · exact hold w (List.mem_append_left _ hw)
      · rcases List.mem_cons.mp hw with rfl | hw
        · exact ih (hold v (by simp))
        · exact hold w (by simp [hw])
  | @added fields key' hname hkey =>
      rw [Json.eachObject_obj] at hold ⊢
      constructor
      · rw [List.map_append]
        refine List.nodup_append.mpr ⟨hold.1, List.nodup_singleton _, fun name hmem name' hmem' heq => ?_⟩
        have hkey' : name' = key' := List.mem_singleton.mp hmem'
        exact hkey (hkey' ▸ heq ▸ hmem)
      · intro name w hw
        rw [List.lookup_append, Option.or_eq_some_iff] at hw
        rcases hw with hw | ⟨-, hw⟩
        · exact hold.2 name w hw
        · rw [List.lookup_cons] at hw
          split at hw
          next =>
            cases hw
            exact eachObject_str
          next => cases hw

end Plain

end RedFireForge.ApiMock
