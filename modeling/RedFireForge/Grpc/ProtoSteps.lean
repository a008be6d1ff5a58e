/-
# `RedFireForge.Grpc.ProtoSteps` — what a pass does with one field

A pass is a loop over the fields of a type.  A step of it reads and writes the keys of its
field only: the name that the root has for it and the small one that is made of it.
-/
import RedFireForge.Grpc.DynamicProtoCodec
import RedFireForge.Lib.Letters

namespace RedFireForge.Grpc.DynamicProtoCodec

open RedFireForge.Lib

/-! ## Trees and lists -/

section Trees

variable {o : Obj} {k : String} {v : Val} {vs : List Val}

theorem treesOf_eq (vs : List Val) : treesOf vs = vs.map Val.tree := by
  induction vs with
  | nil => rfl
  | cons v vs ih => rw [treesOf, ih, List.map_cons]

theorem treeAt_eq (o : Obj) (k : String) : treeAt o k = (o.lookup k).map Val.tree := by
  induction o with
  | nil => rfl
  | cons e o ih =>
      obtain ⟨a, v⟩ := e
      rw [treeAt, List.lookup_cons]
      by_cases h : k = a
      · rw [if_pos h, h, beq_self_eq_true]
        rfl
      · rw [if_neg h, beq_false_of_ne h]
        exact ih

end Trees

/-! ## Names -/

section Names

variable {cs : List Char} {s : String}

def snakeChars (cs : List Char) : List Char :=
  cs.flatMap fun c => if c.isUpper then ['_', c.toLower] else [c.toLower]

theorem snake_toList (s : String) : (protobufCamelToSnake s).toList = snakeChars s.toList := by
  rw [protobufCamelToSnake, String.toList_ofList]
  rfl

/-- No large letter is left. -/
theorem snake_small (s : String) : ∀ c ∈ (protobufCamelToSnake s).toList, c.isUpper = false := by
  intro c hc
  rw [snake_toList, snakeChars, List.mem_flatMap] at hc
  obtain ⟨d, -, hc⟩ := hc
  split at hc
  · rcases List.mem_cons.mp hc with rfl | hc
    · rfl
    · rw [List.mem_singleton.mp hc]
      exact isUpper_toLower d
  · rw [List.mem_singleton.mp hc]
    exact isUpper_toLower d

theorem snakeChars_small (h : ∀ c ∈ cs, c.isUpper = false) : snakeChars cs = cs := by
  induction cs with
  | nil => rfl
  | cons c cs ih =>
      rw [List.forall_mem_cons] at h
      rw [snakeChars, List.flatMap_cons, if_neg (by rw [h.1]; exact Bool.false_ne_true), toLower_of_not_upper h.1,
        ← snakeChars, ih h.2]
      rfl

theorem snake_of_small (h : ∀ c ∈ s.toList, c.isUpper = false) : protobufCamelToSnake s = s := by
  rw [← String.toList_inj, snake_toList, snakeChars_small h]

theorem snakeChars_camelTail (h : ∀ c ∈ cs, c.isUpper = false) : snakeChars (camelTail cs) = cs := by
  fun_induction camelTail cs with
  | case1 c cs hc ih =>
      have hcs : ∀ c ∈ cs, c.isUpper = false := fun d hd => h d (by simp [hd])
      rw [snakeChars, List.flatMap_cons, if_pos (isUpper_toUpper hc), ← snakeChars, ih hcs, toLower_toUpper,
        toLower_of_not_upper (not_upper_of_lower hc)]
      rfl
  | case2 c cs hc ih =>
      have hcs : ∀ d ∈ c :: cs, d.isUpper = false := fun d hd => h d (List.mem_cons_of_mem _ hd)
      rw [snakeChars, List.flatMap_cons, ← snakeChars, ih hcs]
      rfl
  | case3 c cs hne ih =>
      rw [List.forall_mem_cons] at h
      rw [snakeChars, List.flatMap_cons, ← snakeChars, ih h.2, h.1, if_neg Bool.false_ne_true,
        toLower_of_not_upper h.1]
      rfl
  | case4 => rfl

theorem snake_camelCase (h : ∀ c ∈ s.toList, c.isUpper = false) : protobufCamelToSnake (camelCase s) = s := by
  rw [← String.toList_inj, snake_toList, camelCase]
  split
  next hs =>
    rw [hs]
    rfl
  next c cs hs =>
    rw [hs, List.forall_mem_cons] at h
    rw [String.toList_ofList, snakeChars, List.flatMap_cons, ← snakeChars, snakeChars_camelTail h.2, h.1,
      if_neg Bool.false_ne_true, toLower_of_not_upper h.1, hs]
    rfl

theorem camelTail_other {c : Char} (h : c ≠ '_') (cs : List Char) : camelTail (c :: cs) = c :: camelTail cs := by
  cases cs with
  | nil => rw [camelTail]; simp
  | cons d cs => simp [camelTail, h]

/-- An underscore stays only where no small letter follows it. -/
theorem head_camelTail {c : Char} (cs : List Char) (h : c.isLower = false) :
    ∃ d ds, camelTail (c :: cs) = d :: ds ∧ d.isLower = false := by
  by_cases hc : c = '_'
  · subst hc
    cases cs with
    | nil => exact ⟨'_', [], rfl, rfl⟩
    | cons d cs =>
        rw [camelTail]
        split
        next hd => exact ⟨d.toUpper, camelTail cs, rfl, not_lower_of_upper (isUpper_toUpper hd)⟩
        next => exact ⟨'_', _, rfl, rfl⟩
  · exact ⟨c, camelTail cs, camelTail_other hc cs, h⟩

theorem camelTail_camelTail (cs : List Char) : camelTail (camelTail cs) = camelTail cs := by
  fun_induction camelTail cs with
  | case1 c cs hc ih =>
      have hne : c.toUpper ≠ '_' := by
        intro h
        have hupper := isUpper_toUpper hc
        rw [h] at hupper
        cases hupper
      rw [camelTail_other hne, ih]
  | case2 c cs hc ih =>
      obtain ⟨d, ds, hd, hlower⟩ := head_camelTail cs (eq_false_of_ne_true hc)
      rw [hd] at ih ⊢
      rw [camelTail, if_neg (by rw [hlower]; exact Bool.false_ne_true), ih]
  | case3 c cs hne ih =>
      by_cases hc : c = '_'
      · subst hc
        cases cs with
        | nil => rfl
        | cons d cs => exact (hne d cs rfl rfl).elim
      · rw [camelTail_other hc, ih]
  | case4 => rfl

theorem camelCase_cons {c : Char} (h : s.toList = c :: cs) : camelCase s = String.ofList (c :: camelTail cs) := by
  rw [camelCase, h]

theorem camelCase_camelCase (s : String) : camelCase (camelCase s) = camelCase s := by
  cases hs : s.toList with
  | nil =>
      have hempty : camelCase s = "" := by rw [camelCase, hs]
      rw [hempty]
      rfl
  | cons c cs =>
      rw [camelCase_cons hs, camelCase_cons String.toList_ofList, camelTail_camelTail]

end Names

/-! ## Single steps -/

section Steps

variable {τ β : Type} {lib : Library τ β} {root : Root τ} {other : String → Option ℤ} {o o' r : Obj} {f : Field τ}
  {k : String} {v : Val}

/-- The keys that a step reads and writes. -/
def FieldKeys (f : Field τ) (k : String) : Prop := k = f.name ∨ k = protobufCamelToSnake f.name

theorem alignedValue_null (recur : τ → Obj → Obj) (f : Field τ) : alignedValue recur f .null = .null := by
  rw [alignedValue]
  split
  · rfl
  · split
    next h => cases h
    next h => cases h
    next => rfl

/-- `null` is left alone. -/
def normalizedOrNull (lib : Library τ β) (root : Root τ) (other : String → Option ℤ)
    (recur : τ → Obj → Except String Obj) (f : Field τ) : Val → Except String Val
  | .null => .ok .null
  | v => normalizedValue lib root other recur f v

theorem lookup_renamed : (renamed o f).lookup k =
    if k = f.name then (o.lookup f.name).orElse fun _ => o.lookup (protobufCamelToSnake f.name)
    else if k = protobufCamelToSnake f.name ∧ o.lookup f.name = none then none else o.lookup k := by
  rw [renamed]
  generalize protobufCamelToSnake f.name = name
  cases hN : o.lookup f.name with
  | some v =>
      have hrhs : (if k = f.name then (some v).orElse fun _ => o.lookup name
          else if k = name ∧ some v = none then none else o.lookup k) = o.lookup k := by
        split
        next hk => rw [hk, hN]; rfl
        next => exact if_neg fun h => nomatch h.2
      rw [hrhs]
      split
      next h => cases h
      next => rfl
  | none =>
      cases hS : o.lookup name with
      | none =>
          split
          next h _ => cases h
          next =>
            split
            next hk => rw [hk]; exact hN
            next =>
              split
              next hk => rw [hk.1]; exact hS
              next => rfl
      | some u =>
          dsimp only
          by_cases hne : name = f.name
          · rw [hne, hN] at hS
            cases hS
          · rw [if_pos hne, lookup_dropKey, lookup_putKey]
            by_cases hk : k = f.name
            · rw [hk, if_neg (Ne.symm hne), if_pos rfl, if_pos rfl]
              rfl
            · rw [if_neg hk, if_neg hk]
              by_cases hk' : k = name
              · rw [if_pos hk', if_pos ⟨hk', rfl⟩]
              · rw [if_neg hk', if_neg fun h => hk' h.1]

theorem lookup_alignField (recur : τ → Obj → Obj) : (alignField recur o f).lookup k =
    if k = f.name then ((o.lookup f.name).orElse fun _ => o.lookup (protobufCamelToSnake f.name)).map (alignedValue recur f)
    else if k = protobufCamelToSnake f.name ∧ o.lookup f.name = none then none else o.lookup k := by
  have hname : (renamed o f).lookup f.name = (o.lookup f.name).orElse fun _ => o.lookup (protobufCamelToSnake f.name) := by
    rw [lookup_renamed, if_pos rfl]
  have hput : (alignField recur o f).lookup k =
      if k = f.name then ((renamed o f).lookup f.name).map (alignedValue recur f) else (renamed o f).lookup k := by
    rw [alignField]
    generalize renamed o f = next
    split
    next h =>
      split
      next hk => rw [hk, h]; rfl
      next => rfl
    next h =>
      split
      next hk => rw [hk, h, Option.map_some, alignedValue_null]
      next => rfl
    next v hnull h =>
      rw [lookup_putKey, h]
      rfl
  rw [hput, hname]
  split
  next => rfl
  next hk => rw [lookup_renamed, if_neg hk]

theorem align_keepsTo (recur : τ → Obj → Obj) :
    KeepsTo (fun o f => (Except.ok (alignField recur o f) : Except String Obj)) FieldKeys where
  frame := by
    intro o f r k hr hk
    obtain rfl := Except.ok.inj hr
    rw [FieldKeys, not_or] at hk
    rw [lookup_alignField, if_neg hk.1, if_neg fun h => hk.2 h.1]
  local' := by
    intro o o' f r hsame hr
    obtain rfl := Except.ok.inj hr
    refine ⟨_, rfl, fun k hk => ?_⟩
    rw [lookup_alignField, lookup_alignField, ← hsame _ (Or.inl rfl), ← hsame _ (Or.inr rfl), hsame k hk]

theorem normalizeField_some {recur : τ → Obj → Except String Obj} (hv : o.lookup f.name = some v)
    (hr : normalizeField lib root other recur o f = .ok r) : ∃ u, normalizedOrNull lib root other recur f v = .ok u ∧
      ∀ k, r.lookup k = if k = f.name then some u else o.lookup k := by
  rw [normalizeField, hv] at hr
  split at hr
  next h => cases h
  next h =>
    obtain rfl := Except.ok.inj hr
    obtain rfl := Option.some.inj h
    refine ⟨.null, rfl, fun k => ?_⟩
    split
    next hk => rw [hk, hv]
    next => rfl
  next raw hnull h =>
    obtain rfl := Option.some.inj h
    cases hu : normalizedValue lib root other recur f v with
    | error e =>
        rw [hu] at hr
        cases hr
    | ok u =>
        rw [hu] at hr
        obtain rfl := Except.ok.inj hr
        refine ⟨u, ?_, fun k => lookup_putKey⟩
        cases v <;> first | exact hu | exact absurd rfl hnull

theorem normalizeField_ok {recur : τ → Obj → Except String Obj} {u : Val} (hv : o.lookup f.name = some v)
    (hu : normalizedOrNull lib root other recur f v = .ok u) :
    ∃ r, normalizeField lib root other recur o f = .ok r := by
  rw [normalizeField, hv]
  split
  next => exact ⟨o, rfl⟩
  next => exact ⟨o, rfl⟩
  next raw hnull h =>
    obtain rfl := Option.some.inj h
    have hu' : normalizedValue lib root other recur f v = .ok u := by
      cases v <;> first | exact hu | exact absurd rfl hnull
    rw [hu']
    exact ⟨_, rfl⟩

theorem normalizeField_none {recur : τ → Obj → Except String Obj} (hv : o.lookup f.name = none) :
    normalizeField lib root other recur o f = .ok o := by
  rw [normalizeField, hv]

theorem normalize_keepsTo (recur : τ → Obj → Except String Obj) :
    KeepsTo (normalizeField lib root other recur) FieldKeys where
  frame := by
    intro o f r k hr hk
    rw [FieldKeys, not_or] at hk
    cases hv : o.lookup f.name with
    | none =>
        rw [normalizeField_none hv] at hr
        rw [Except.ok.inj hr]
    | some v =>
        obtain ⟨u, -, hlookup⟩ := normalizeField_some hv hr
        rw [hlookup, if_neg hk.1]
  local' := by
    intro o o' f r hsame hr
    cases hv : o.lookup f.name with
    | none =>
        have hv' : o'.lookup f.name = none := (hsame _ (Or.inl rfl)).symm.trans hv
        rw [normalizeField_none hv] at hr
        refine ⟨o', normalizeField_none hv', fun k hk => ?_⟩
        rw [← hsame k hk, Except.ok.inj hr]
    | some v =>
        have hv' : o'.lookup f.name = some v := (hsame _ (Or.inl rfl)).symm.trans hv
        obtain ⟨u, hu, hlookup⟩ := normalizeField_some hv hr
        obtain ⟨r', hr'⟩ := normalizeField_ok hv' hu
        obtain ⟨u', hu', hlookup'⟩ := normalizeField_some hv' hr'
        rw [hu] at hu'
        obtain rfl := Except.ok.inj hu'
        exact ⟨r', hr', fun k hk => by rw [hlookup, hlookup', hsame k hk]⟩

/-- The value that a step of the last pass takes. -/
def decodedFrom (o : Obj) (f : Field τ) : Option Val :=
  (o.lookup f.name).orElse fun _ => o.lookup (protobufCamelToSnake f.name)

theorem alignDecodedField_some {recur : τ → Obj → Except String Obj} (hv : decodedFrom o f = some v)
    (hr : alignDecodedField root recur o f = .ok r) : ∃ x, decodedValue root recur f v = .ok x ∧
      ∀ k, r.lookup k = if k = protobufCamelToSnake f.name then some x else if k = f.name then none else o.lookup k := by
  rw [alignDecodedField, ← decodedFrom, hv] at hr
  cases hx : decodedValue root recur f v with
  | error e =>
      simp only [hx] at hr
      cases hr
  | ok x =>
      simp only [hx] at hr
      obtain rfl := Except.ok.inj hr
      refine ⟨x, rfl, fun k => ?_⟩
      generalize protobufCamelToSnake f.name = name
      split
      next hne =>
        rw [lookup_dropKey, lookup_putKey]
        by_cases hk : k = f.name
        · rw [if_pos hk, if_neg (hk ▸ Ne.symm hne), if_pos hk]
        · rw [if_neg hk, if_neg hk]
      next heq =>
        rw [lookup_putKey]
        split
        next => rfl
        next hk => rw [if_neg (not_not.mp heq ▸ hk)]

theorem alignDecodedField_ok {recur : τ → Obj → Except String Obj} {x : Val} (hv : decodedFrom o f = some v)
    (hx : decodedValue root recur f v = .ok x) : ∃ r, alignDecodedField root recur o f = .ok r := by
  rw [alignDecodedField, ← decodedFrom, hv]
  simp only [hx]
  exact ⟨_, rfl⟩

theorem alignDecodedField_none {recur : τ → Obj → Except String Obj} (hv : decodedFrom o f = none) :
    alignDecodedField root recur o f = .ok o := by
  rw [alignDecodedField, ← decodedFrom, hv]

theorem decode_keepsTo (recur : τ → Obj → Except String Obj) :
    KeepsTo (alignDecodedField root recur) FieldKeys where
  frame := by
    intro o f r k hr hk
    rw [FieldKeys, not_or] at hk
    cases hv : decodedFrom o f with
    | none =>
        rw [alignDecodedField_none hv] at hr
        rw [Except.ok.inj hr]
    | some v =>
        obtain ⟨u, -, hlookup⟩ := alignDecodedField_some hv hr
        rw [hlookup, if_neg hk.2, if_neg hk.1]
  local' := by
    intro o o' f r hsame hr
    have hfrom : decodedFrom o f = decodedFrom o' f := by
      rw [decodedFrom, decodedFrom, hsame _ (Or.inl rfl), hsame _ (Or.inr rfl)]
    cases hv : decodedFrom o f with
    | none =>
        rw [alignDecodedField_none hv] at hr
        refine ⟨o', alignDecodedField_none (hfrom ▸ hv), fun k hk => ?_⟩
        rw [← hsame k hk, Except.ok.inj hr]
    | some v =>
        have hv' : decodedFrom o' f = some v := hfrom ▸ hv
        obtain ⟨x, hx, hlookup⟩ := alignDecodedField_some hv hr
        obtain ⟨r', hr'⟩ := alignDecodedField_ok hv' hx
        obtain ⟨x', hx', hlookup'⟩ := alignDecodedField_some hv' hr'
        rw [hx] at hx'
        obtain rfl := Except.ok.inj hx'
        exact ⟨r', hr', fun k hk => by rw [hlookup, hlookup', hsame k hk]⟩

end Steps

end RedFireForge.Grpc.DynamicProtoCodec
