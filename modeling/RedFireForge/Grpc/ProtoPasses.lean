/-
# `RedFireForge.Grpc.ProtoPasses` — what whole passes do

A pass keeps to the keys of one field at a time, and without large letters in the names of the
schema no two fields share a key.  So a pass does to each value what its step does to it alone.
A timestamp goes in as a pair and is given out by its milliseconds; into most messages that are
values of a map no pass looks.
-/
import Mathlib.Tactic.Ring
import RedFireForge.Grpc.ProtoItems
import RedFireForge.Lib.Text

namespace RedFireForge.Grpc.DynamicProtoCodec

open RedFireForge.Lib

/-! ## The fields of a type -/

section Fields

variable {τ : Type} {root : Root τ} {t : τ} {f g : Field τ}

theorem name_inj (hf : f ∈ root.fieldsArray t) (hg : g ∈ root.fieldsArray t) (h : f.name = g.name) : f = g :=
  List.inj_on_of_nodup_map (root.names t) hf hg h

theorem schemaName_inj (hf : f ∈ root.fieldsArray t) (hg : g ∈ root.fieldsArray t)
    (h : f.schemaName = g.schemaName) : f = g :=
  List.inj_on_of_nodup_map (root.schemaNames t) hf hg h

/-- A name of the root is not the name of another field in the schema. -/
theorem eq_of_name (hf : f ∈ root.fieldsArray t) (hg : g ∈ root.fieldsArray t) (h : f.name = g.schemaName) :
    f = g := by
  rcases root.named with hnamed | hnamed
  · exact schemaName_inj hf hg (by rw [← hnamed t f hf, h])
  · refine name_inj hf hg ?_
    rw [hnamed t g hg, ← h, hnamed t f hf, camelCase_camelCase]

/-- The names of a type in the schema have no large letters. -/
def SmallNames (root : Root τ) (t : τ) : Prop :=
  ∀ f ∈ root.fieldsArray t, ∀ c ∈ f.schemaName.toList, c.isUpper = false

theorem snake_name (hsmall : SmallNames root t) (hf : f ∈ root.fieldsArray t) :
    protobufCamelToSnake f.name = f.schemaName := by
  rcases root.named with hnamed | hnamed
  · rw [hnamed t f hf]
    exact snake_of_small (hsmall f hf)
  · rw [hnamed t f hf]
    exact snake_camelCase (hsmall f hf)

theorem disjoint_keys (hsmall : SmallNames root t) :
    (root.fieldsArray t).Pairwise fun f g => ∀ k, FieldKeys f k → ¬ FieldKeys g k := by
  refine (List.Nodup.of_map _ (root.names t)).pairwise_of_forall_ne fun f hf g hg hne k hk hk' => hne ?_
  rw [FieldKeys, snake_name hsmall hf] at hk
  rw [FieldKeys, snake_name hsmall hg] at hk'
  rcases hk with rfl | rfl <;> rcases hk' with hk' | hk'
  · exact name_inj hf hg hk'
  · exact eq_of_name hf hg hk'
  · exact (eq_of_name hg hf hk'.symm).symm
  · exact schemaName_inj hf hg hk'

end Fields

/-! ## Whole passes -/

section WholePasses

variable {τ β : Type} {lib : Library τ β} {root : Root τ} {other : String → Option ℤ} {depth : ℕ} {t : τ}
  {o a w p r : Obj}

/-- The keys of an object are names of the root. -/
def HasNames (root : Root τ) (t : τ) (a : Obj) : Prop :=
  ∀ k v, a.lookup k = some v → ∃ f ∈ root.fieldsArray t, f.name = k

def HasSchemaNames (root : Root τ) (t : τ) (o : Obj) : Prop :=
  ∀ k v, o.lookup k = some v → ∃ f ∈ root.fieldsArray t, f.schemaName = k

theorem HasSchemaNames.other_name (h : HasSchemaNames root t o) {f : Field τ} (hf : f ∈ root.fieldsArray t)
    (hne : f.schemaName ≠ f.name) : o.lookup f.name = none := by
  rw [Option.eq_none_iff_forall_ne_some]
  intro v hv
  obtain ⟨g, hg, hgf⟩ := h _ v hv
  obtain rfl := eq_of_name hf hg hgf.symm
  exact hne hgf

theorem HasNames.other_name (h : HasNames root t a) {f : Field τ} (hf : f ∈ root.fieldsArray t)
    (hne : f.schemaName ≠ f.name) : a.lookup f.schemaName = none := by
  rw [Option.eq_none_iff_forall_ne_some]
  intro v hv
  obtain ⟨g, hg, hgf⟩ := h _ v hv
  obtain rfl := eq_of_name hg hf hgf
  exact hne hgf.symm

theorem align_fields (hsmall : SmallNames root t) (hkeys : HasSchemaNames root t o) :
    (∀ f ∈ root.fieldsArray t, (alignBodyToProtobufFieldNames root (depth + 1) t o).lookup f.name =
      (o.lookup f.schemaName).map (alignedValue (alignBodyToProtobufFieldNames root depth) f)) ∧
    HasNames root t (alignBodyToProtobufFieldNames root (depth + 1) t o) := by
  have hloop := loop_result (align_keepsTo (alignBodyToProtobufFieldNames root depth)) (disjoint_keys hsmall)
    (@List.foldlM_pure (Except String) _ _ _ _ (alignField (alignBodyToProtobufFieldNames root depth)) o
      (root.fieldsArray t))
  have hfield : ∀ f ∈ root.fieldsArray t, ∀ k, FieldKeys f k →
      (alignBodyToProtobufFieldNames root (depth + 1) t o).lookup k =
        if k = f.name then (o.lookup f.schemaName).map (alignedValue (alignBodyToProtobufFieldNames root depth) f)
        else none := by
    intro f hf k hk
    obtain ⟨r', hr', hsame⟩ := hloop.1 f hf
    obtain rfl := Except.ok.inj hr'
    refine (hsame k hk).trans ?_
    rw [lookup_alignField, snake_name hsmall hf]
    by_cases hne : f.schemaName = f.name
    · rw [FieldKeys, snake_name hsmall hf, hne, or_self] at hk
      rw [if_pos hk, if_pos hk, hne]
      cases o.lookup f.name <;> rfl
    · rw [hkeys.other_name hf hne]
      split
      next => rfl
      next hname =>
        rw [FieldKeys, snake_name hsmall hf] at hk
        rw [if_pos ⟨hk.resolve_left hname, rfl⟩]
  refine ⟨fun f hf => (hfield f hf f.name (Or.inl rfl)).trans (if_pos rfl), fun k v hk => ?_⟩
  by_cases hfields : ∃ f ∈ root.fieldsArray t, FieldKeys f k
  · obtain ⟨f, hf, hkey⟩ := hfields
    rw [hfield f hf k hkey] at hk
    split at hk
    next hname => exact ⟨f, hf, hname.symm⟩
    next => cases hk
  · refine absurd ?_ hfields
    obtain ⟨f, hf, rfl⟩ := hkeys k v ((hloop.2 k fun f hf hkey => hfields ⟨f, hf, hkey⟩).symm.trans hk)
    exact ⟨f, hf, Or.inr (snake_name hsmall hf).symm⟩

theorem normalize_fields (hsmall : SmallNames root t) (hkeys : HasNames root t a)
    (h : normalizeBodyForEncode lib root other (depth + 1) t a = .ok w) :
    (∀ f ∈ root.fieldsArray t, ∀ v, a.lookup f.name = some v →
      ∃ u, normalizedOrNull lib root other (normalizeBodyForEncode lib root other depth) f v = .ok u ∧
        w.lookup f.name = some u) ∧ HasNames root t w := by
  obtain ⟨hsteps, hframe⟩ := loop_result (normalize_keepsTo _) (disjoint_keys hsmall) h
  refine ⟨fun f hf v hv => ?_, fun k v hk => ?_⟩
  · obtain ⟨r', hr', hsame⟩ := hsteps f hf
    obtain ⟨u, hu, hlookup⟩ := normalizeField_some hv hr'
    refine ⟨u, hu, ?_⟩
    rw [hsame _ (Or.inl rfl), hlookup, if_pos rfl]
  · by_cases hfields : ∃ f ∈ root.fieldsArray t, FieldKeys f k
    · obtain ⟨f, hf, hkey⟩ := hfields
      obtain ⟨r', hr', hsame⟩ := hsteps f hf
      rw [hsame k hkey] at hk
      cases hv : a.lookup f.name with
      | none =>
          rw [normalizeField_none hv] at hr'
          obtain rfl := Except.ok.inj hr'
          exact hkeys k v hk
      | some x =>
          obtain ⟨u, -, hlookup⟩ := normalizeField_some hv hr'
          rw [hlookup] at hk
          split at hk
          next hname => exact ⟨f, hf, hname.symm⟩
          next => exact hkeys k v hk
    · rw [hframe k fun f hf hkey => hfields ⟨f, hf, hkey⟩] at hk
      exact hkeys k v hk

theorem normalize_ok (hsmall : SmallNames root t) (h : ∀ f ∈ root.fieldsArray t, ∃ v u, a.lookup f.name = some v ∧
      normalizedOrNull lib root other (normalizeBodyForEncode lib root other depth) f v = .ok u) :
    ∃ w, normalizeBodyForEncode lib root other (depth + 1) t a = .ok w := by
  refine loop_ok (normalize_keepsTo _) (disjoint_keys hsmall) fun f hf => ?_
  obtain ⟨v, u, hv, hu⟩ := h f hf
  exact normalizeField_ok hv hu

theorem HasNames.decodedFrom_eq (hkeys : HasNames root t p) (hsmall : SmallNames root t) {f : Field τ}
    (hf : f ∈ root.fieldsArray t) : decodedFrom p f = p.lookup f.name := by
  rw [decodedFrom, snake_name hsmall hf]
  by_cases hne : f.schemaName = f.name
  · rw [hne]
    cases p.lookup f.name <;> rfl
  · rw [hkeys.other_name hf hne]
    cases p.lookup f.name <;> rfl

theorem decode_fields (hsmall : SmallNames root t) (hkeys : HasNames root t p)
    (h : alignDecodedBodyToSchemaNames root (depth + 1) t p = .ok r) :
    (∀ f ∈ root.fieldsArray t, ∀ v, p.lookup f.name = some v →
      ∃ x, decodedValue root (alignDecodedBodyToSchemaNames root depth) f v = .ok x ∧
        r.lookup f.schemaName = some x) ∧
    (∀ f ∈ root.fieldsArray t, p.lookup f.name = none → r.lookup f.schemaName = none) ∧
    HasSchemaNames root t r := by
  obtain ⟨hsteps, hframe⟩ := loop_result (decode_keepsTo _) (disjoint_keys hsmall) h
  refine ⟨fun f hf v hv => ?_, fun f hf hv => ?_, fun k v hk => ?_⟩
  · obtain ⟨r', hr', hsame⟩ := hsteps f hf
    obtain ⟨x, hx, hlookup⟩ := alignDecodedField_some ((hkeys.decodedFrom_eq hsmall hf).trans hv) hr'
    refine ⟨x, hx, ?_⟩
    rw [← snake_name hsmall hf, hsame _ (Or.inr rfl), hlookup, if_pos rfl]
  · obtain ⟨r', hr', hsame⟩ := hsteps f hf
    rw [alignDecodedField_none ((hkeys.decodedFrom_eq hsmall hf).trans hv)] at hr'
    obtain rfl := Except.ok.inj hr'
    have hkey : FieldKeys f f.schemaName := Or.inr (snake_name hsmall hf).symm
    rw [hsame _ hkey]
    by_cases hne : f.schemaName = f.name
    · rw [hne, hv]
    · exact hkeys.other_name hf hne
  · by_cases hfields : ∃ f ∈ root.fieldsArray t, FieldKeys f k
    · obtain ⟨f, hf, hkey⟩ := hfields
      obtain ⟨r', hr', hsame⟩ := hsteps f hf
      rw [hsame k hkey] at hk
      rw [FieldKeys, snake_name hsmall hf] at hkey
      refine ⟨f, hf, hkey.elim (fun hname => ?_) Eq.symm⟩
      cases hv : decodedFrom p f with
      | none =>
          rw [alignDecodedField_none hv] at hr'
          obtain rfl := Except.ok.inj hr'
          rw [hkeys.decodedFrom_eq hsmall hf, ← hname, hk] at hv
          cases hv
      | some x =>
          obtain ⟨u, -, hlookup⟩ := alignDecodedField_some hv hr'
          rw [hlookup, snake_name hsmall hf] at hk
          split at hk
          next hschema => exact hschema.symm
          next => cases hk
    · rw [hframe k fun f hf hkey => hfields ⟨f, hf, hkey⟩] at hk
      obtain ⟨f, hf, hname⟩ := hkeys k v hk
      exact absurd ⟨f, hf, Or.inl hname.symm⟩ hfields

theorem decode_ok (hsmall : SmallNames root t) (hkeys : HasNames root t p)
    (h : ∀ f ∈ root.fieldsArray t, ∀ v, p.lookup f.name = some v →
      ∃ x, decodedValue root (alignDecodedBodyToSchemaNames root depth) f v = .ok x) :
    ∃ r, alignDecodedBodyToSchemaNames root (depth + 1) t p = .ok r := by
  refine loop_ok (decode_keepsTo _) (disjoint_keys hsmall) fun f hf => ?_
  cases hv : p.lookup f.name with
  | none => exact ⟨p, alignDecodedField_none ((hkeys.decodedFrom_eq hsmall hf).trans hv)⟩
  | some v =>
      obtain ⟨x, hx⟩ := h f hf v hv
      exact alignDecodedField_ok ((hkeys.decodedFrom_eq hsmall hf).trans hv) hx

/-- Of names with large letters nothing is left in what is given out. -/
theorem loop_small {recur : τ → Obj → Except String Obj} {fs : List (Field τ)}
    (hkeys : ∀ k v, p.lookup k = some v → (∃ f ∈ fs, f.name = k) ∨ ∀ c ∈ k.toList, c.isUpper = false)
    (h : fs.foldlM (alignDecodedField root recur) p = .ok r) :
    ∀ k v, r.lookup k = some v → ∀ c ∈ k.toList, c.isUpper = false := by
  induction fs generalizing p with
  | nil =>
      obtain rfl := Except.ok.inj h
      intro k v hk
      refine (hkeys k v hk).resolve_left ?_
      rintro ⟨_, hf, -⟩
      exact absurd hf List.not_mem_nil
  | cons f fs ih =>
      obtain ⟨p', hp', h⟩ := foldlM_cons_ok.mp h
      refine ih (fun k v hk => ?_) h
      have hstep : (k ≠ f.name ∧ p.lookup k = some v) ∨ k = protobufCamelToSnake f.name := by
        cases hv : decodedFrom p f with
        | none =>
            rw [alignDecodedField_none hv] at hp'
            obtain rfl := Except.ok.inj hp'
            refine Or.inl ⟨?_, hk⟩
            rintro rfl
            rw [decodedFrom, hk] at hv
            cases hv
        | some x =>
            obtain ⟨u, -, hlookup⟩ := alignDecodedField_some hv hp'
            rw [hlookup] at hk
            split at hk
            next hschema => exact Or.inr hschema
            next =>
              split at hk
              next => cases hk
              next hname => exact Or.inl ⟨hname, hk⟩
      rcases hstep with ⟨hname, hk⟩ | rfl
      · refine (hkeys k v hk).imp_left ?_
        rintro ⟨g, hg, hgk⟩
        refine ⟨g, ?_, hgk⟩
        refine (List.mem_cons.mp hg).resolve_left ?_
        rintro rfl
        exact hname hgk.symm
      · exact Or.inr (snake_small f.name)

end WholePasses

/-! ## Timestamps -/

section Timestamps

variable {τ β : Type} {lib : Library τ β} {root : Root τ} {scalar : String → Val → Prop} {other : String → Option ℤ}
  {depth : ℕ} {t : τ} {x : UtcTime} {y z : Val}

/-- The pair of a timestamp on the wire. -/
def timestampPair (ms : ℤ) : Obj :=
  [("seconds", .long (ms / 1000)), ("nanos", .num ((ms - ms / 1000 * 1000) * 1000000 : ℤ))]

theorem trim_integer (n : ℤ) : ApiMock.trim (toString n).toList = (toString n).toList := by
  refine trimBy_of_none fun c hc => ?_
  rcases toString_chars n c hc with rfl | hdigit
  · rfl
  · exact ApiMock.isSpace_of_isDigit hdigit

theorem coerce_text (hfaith : Faithful lib root scalar) {name : String} (hname : name ∈ wideLongFieldTypes) {n : ℤ}
    (hn : InRange name n) : coerceWideLongForEncode lib (.str (toString n)) name = .ok (.long n) := by
  rw [coerceWideLongForEncode, longFromDecimalString, trim_integer, hfaith.longs name hname n hn]

theorem seconds_inRange (x : UtcTime) : InRange "int64" (x.instant / 1000) := by
  have hbounds := x.instant_bounds
  rw [InRange, if_neg (by decide)]
  omega

/-- A pair on its way in. -/
theorem normalize_pair (ht : root.isTimestampType t = true) {text : String} {n : ℤ} {q : ℚ}
    (hn : coerceWideLongForEncode lib (.str text) "int64" = .ok (.long n)) :
    normalizeBodyForEncode lib root other (depth + 1) t [("seconds", .str text), ("nanos", .num q)] =
      .ok [("seconds", .long n), ("nanos", .num q)] := by
  show (root.fieldsArray t).foldlM _ _ = _
  rw [root.timestamp t ht]
  simp [timestampFields, normalizeField, normalizedValue, hn, putKey, wideLongFieldTypes, Except.map, bind, Except.bind,
    pure, Except.pure, List.lookup_cons]

theorem timestampItem_text (hfaith : Faithful lib root scalar) (ht : root.isTimestampType t = true) :
    timestampItem other (normalizeBodyForEncode lib root other (depth + 1)) t (.str (String.ofList x.text)) =
      .ok (.obj (timestampPair x.instant)) := by
  have hparse : dateParse other (String.ofList x.text) = some x.instant := by
    rw [dateParse, String.toList_ofList, UtcTime.isoInstant_text]
    rfl
  have hwire : timestampInputToWireObject other (.str (String.ofList x.text)) =
      .ok (.obj [("seconds", .str (toString (x.instant / 1000))),
        ("nanos", .num ((x.instant - x.instant / 1000 * 1000) * 1000000 : ℤ))]) := by
    rw [timestampInputToWireObject, hparse]
  have hseconds := coerce_text hfaith (by decide) (seconds_inRange x)
  rw [timestampItem, hwire]
  show (normalizeBodyForEncode lib root other (depth + 1) t (spread (.obj _))).map Val.obj = _
  rw [spread, normalize_pair ht hseconds]
  rfl

theorem timestampPair_wire (hfaith : Faithful lib root scalar) (ht : root.isTimestampType t = true) :
    WireMessage root scalar (depth + 1) t (treeAt (timestampPair x.instant)) := by
  rw [WireMessage, root.timestamp t ht]
  refine ⟨fun f hf => ?_, fun k u hk => ?_⟩
  · rcases List.mem_cons.mp hf with rfl | hf
    · refine ⟨.long (x.instant / 1000), rfl, Or.inr ⟨trivial, ?_⟩⟩
      rintro _ rfl
      show WireItem scalar _ (.scalar "int64") _
      rw [WireItem, if_pos (by decide)]
      exact ⟨_, seconds_inRange x, rfl⟩
    · obtain rfl := List.mem_singleton.mp hf
      refine ⟨.num _, rfl, Or.inr ⟨trivial, ?_⟩⟩
      rintro _ rfl
      show WireItem scalar _ (.scalar "int32") _
      rw [WireItem, if_neg (by decide)]
      exact ⟨.num _, hfaith.nanos _ (by omega) (by omega), rfl⟩
  · rw [timestampPair, treeAt, treeAt, treeAt] at hk
    split at hk
    next h => exact ⟨_, List.mem_cons_self, h.symm⟩
    next =>
      split at hk
      next h => exact ⟨_, List.mem_cons_of_mem _ (List.mem_singleton_self _), h.symm⟩
      next => cases hk

theorem decodedItem_timestamp {recur : τ → Obj → Except String Obj} (ht : root.isTimestampType t = true) (y : Val) :
    decodedItem root recur t y = timestampWireObjectToIso y := if_pos ht

/-- What is given out for the pair. -/
theorem timestamp_back {recur : τ → Obj → Except String Obj} (ht : root.isTimestampType t = true)
    (hy : y.tree = (Val.obj (timestampPair x.instant)).tree.plain) :
    decodedItem root recur t y = .ok (.str (String.ofList (isoText x.instant))) := by
  rw [Val.tree, Tree.plain] at hy
  obtain ⟨o, rfl, ho⟩ := tree_eq_obj hy
  have hseconds : o.lookup "seconds" = some (.str (toString (x.instant / 1000))) := by
    obtain ⟨v, hv, htree⟩ := Option.map_eq_some_iff.mp (ho "seconds")
    rw [hv, tree_eq_str htree]
  have hnanos : o.lookup "nanos" = some (.num ((x.instant - x.instant / 1000 * 1000) * 1000000 : ℤ)) := by
    obtain ⟨v, hv, htree⟩ := Option.map_eq_some_iff.mp (ho "nanos")
    rw [hv]
    cases v <;> cases htree
    rfl
  have hms : ((x.instant / 1000 : ℤ) : ℚ) * 1000 + ((x.instant - x.instant / 1000 * 1000) * 1000000 : ℤ) / 1000000 =
      (x.instant : ℚ) := by
    push_cast
    ring
  have hbounds : |(x.instant : ℚ)| ≤ 8640000000000000 := by
    obtain ⟨hlow, hhigh⟩ := x.instant_bounds
    rw [abs_le]
    constructor
    · exact_mod_cast (by omega : (-8640000000000000 : ℤ) ≤ x.instant)
    · exact_mod_cast (by omega : x.instant ≤ (8640000000000000 : ℤ))
  rw [decodedItem_timestamp ht, timestampWireObjectToIso, hseconds, hnanos, numberOf, numberOf, trim_integer,
    numericValue_toString]
  dsimp only
  rw [hms, toISOString, if_pos hbounds, Rat.floor_intCast, Rat.ceil_intCast, ite_self]
  rfl

/-- A text that is given out is the one of an instant. -/
theorem timestamp_text {recur : τ → Obj → Except String Obj} (ht : root.isTimestampType t = true) {s : String}
    (hy : decodedItem root recur t y = .ok (.str s)) : y = .str s ∨ ∃ ms, s = String.ofList (isoText ms) := by
  rw [decodedItem_timestamp ht] at hy
  cases y with
  | obj record =>
      rw [timestampWireObjectToIso] at hy
      split at hy
      next =>
        rw [toISOString] at hy
        split at hy
        next => exact Or.inr ⟨_, (Val.str.inj (Except.ok.inj hy)).symm⟩
        next => cases hy
      next => cases hy
  | _ => exact Or.inl (Except.ok.inj hy)

end Timestamps

/-! ## Messages that no pass looks into -/

section Untouched

variable {τ β : Type} {lib : Library τ β} {root : Root τ} {scalar : String → Val → Prop} {depth : ℕ} {t : τ} {o : Obj}

theorem plain_of_items {label : Label} {v : Val} {items : List Val} (h : itemsOf label v = some items)
    (hplain : ∀ x ∈ items, x.tree.plain = x.tree) : v.tree.plain = v.tree := by
  match label, v with
  | .single, v =>
      obtain rfl := Option.some.inj h
      exact hplain v (List.mem_singleton_self v)
  | .repeated, .arr l =>
      obtain rfl := Option.some.inj h
      rw [Val.tree, through_plain.arr, treesOf_eq, List.map_map]
      exact congrArg Tree.arr (List.map_congr_left hplain)
  | .map, .obj es =>
      obtain rfl := Option.some.inj h
      rw [Val.tree, through_plain.obj]
      refine congrArg Tree.obj (funext fun k => ?_)
      rw [treeAt_eq]
      cases hx : es.lookup k with
      | none => rfl
      | some x => exact congrArg some (hplain x (mem_values.mpr ⟨k, hx⟩))

theorem untouched_item (hfaith : Faithful lib root scalar) {type : FieldType τ} {x : Val}
    (ih : ∀ t o, CanonicalBody root scalar depth t o → MeetsUntouched root depth t o →
      WireMessage root scalar depth t (treeAt o) ∧ ∀ k, plainAt (treeAt o k) = treeAt o k)
    (hmeets : match type with
      | .scalar name => name ∉ wideLongFieldTypes
      | .message t' =>
          if root.isTimestampType t' then ∀ s, x ≠ .str s
          else ∀ o', x = .obj o' → MeetsUntouched root depth t' o')
    (hx : CanonicalItem root scalar depth (CanonicalBody root scalar depth) type x) :
    WireItem scalar (WireMessage root scalar depth) type x.tree ∧ x.tree.plain = x.tree := by
  cases type with
  | scalar name =>
      rw [CanonicalItem, if_neg hmeets] at hx
      refine ⟨?_, (hfaith.scalars name x hx).2⟩
      rw [WireItem, if_neg hmeets]
      exact ⟨x, hx, rfl⟩
  | message t' =>
      rw [CanonicalItem] at hx
      dsimp only at hmeets
      split at hx
      next ht =>
        rw [if_pos ht] at hmeets
        obtain ⟨-, y, -, hy⟩ := hx
        exact absurd hy (hmeets _)
      next ht =>
        rw [if_neg ht] at hmeets
        obtain ⟨o', rfl, ho'⟩ := hx
        obtain ⟨hwire, hplain⟩ := ih t' o' ho' (hmeets o' rfl)
        exact ⟨⟨treeAt o', rfl, hwire⟩, congrArg Tree.obj (funext hplain)⟩

/-- Such a message has the shape of the wire if it meets the conditions. -/
theorem untouched_wire (hfaith : Faithful lib root scalar) (ho : CanonicalBody root scalar depth t o)
    (hmeets : MeetsUntouched root depth t o) :
    WireMessage root scalar depth t (treeAt o) ∧ ∀ k, plainAt (treeAt o k) = treeAt o k := by
  induction depth generalizing t o with
  | zero => exact ho.elim
  | succ depth ih =>
      rw [CanonicalBody] at ho
      rw [MeetsUntouched] at hmeets
      have hitems : ∀ f ∈ root.fieldsArray t, ∀ v items, o.lookup f.schemaName = some v → itemsOf f.label v = some items →
          (∀ x ∈ items, CanonicalItem root scalar depth (CanonicalBody root scalar depth) f.type x) →
          ∀ x ∈ items, WireItem scalar (WireMessage root scalar depth) f.type x.tree ∧ x.tree.plain = x.tree :=
        fun f hf v items hv hitems hcanonical x hx => untouched_item hfaith (fun t o => @ih t o)
          ((hmeets f hf).2 v items hv hitems x hx) (hcanonical x hx)
      refine ⟨⟨fun f hf => ?_, fun k u hk => ?_⟩, fun k => ?_⟩
      · obtain ⟨v, hv, hcanonical⟩ := ho.1 f hf
        refine ⟨v.tree, by rw [(hmeets f hf).1, treeAt_eq, hv, Option.map_some], ?_⟩
        rcases hcanonical with ⟨hnull, rfl⟩ | ⟨items, hlabel, hcanonical⟩
        · exact Or.inl ⟨hnull, rfl⟩
        · refine Or.inr ⟨shaped_tree hlabel, fun w hw => ?_⟩
          obtain ⟨x, hx, rfl⟩ := (treeItem_iff hlabel).mp hw
          exact (hitems f hf v items hv hlabel hcanonical x hx).1
      · rw [treeAt_eq, Option.map_eq_some_iff] at hk
        obtain ⟨v, hv, -⟩ := hk
        obtain ⟨f, hf, hname⟩ := ho.2 k v hv
        exact ⟨f, hf, (hmeets f hf).1.trans hname⟩
      · rw [treeAt_eq]
        cases hv : o.lookup k with
        | none => rfl
        | some v =>
            obtain ⟨f, hf, rfl⟩ := ho.2 k v hv
            obtain ⟨v', hv', hcanonical⟩ := ho.1 f hf
            obtain rfl := Option.some.inj (hv.symm.trans hv')
            refine congrArg some ?_
            rcases hcanonical with ⟨-, rfl⟩ | ⟨items, hlabel, hcanonical⟩
            · rfl
            · exact plain_of_items hlabel fun x hx => (hitems f hf v items hv hlabel hcanonical x hx).2

/-- One that is taken and given back does meet them. -/
theorem untouched_of_taken (ho : CanonicalBody root scalar depth t o) (hrejected : ¬ Rejected root t (treeAt o))
    (halien : ¬ Alien root t (treeAt o)) : MeetsUntouched root depth t o := by
  induction depth generalizing t o with
  | zero => trivial
  | succ depth ih =>
      rw [CanonicalBody] at ho
      rw [MeetsUntouched]
      intro f hf
      have hname : f.name = f.schemaName := by
        by_contra hne
        obtain ⟨v, hv, -⟩ := ho.1 f hf
        refine halien (.key (k := f.schemaName) (u := v.tree) (by rw [treeAt_eq, hv, Option.map_some]) fun g hg hgf => ?_)
        obtain rfl := eq_of_name hg hf hgf
        exact hne hgf
      refine ⟨hname, fun v items hv hlabel x hx => ?_⟩
      have hget : treeAt o f.name = some v.tree := by rw [hname, treeAt_eq, hv, Option.map_some]
      have hitem : TreeItem f.label v.tree x.tree := (treeItem_iff hlabel).mpr ⟨x, hx, rfl⟩
      cases htype : f.type with
      | scalar name =>
          intro hwide
          obtain ⟨v', hv', hcanonical⟩ := ho.1 f hf
          obtain rfl := Option.some.inj (hv.symm.trans hv')
          rcases hcanonical with ⟨⟨-, t', htype'⟩, -⟩ | ⟨items', hlabel', hcanonical⟩
          · rw [htype] at htype'
            cases htype'
          · obtain rfl := Option.some.inj (hlabel.symm.trans hlabel')
            have hx' := hcanonical x hx
            rw [htype, CanonicalItem, if_pos hwide] at hx'
            obtain ⟨n, -, rfl⟩ := hx'
            exact hrejected (.wide hf htype hwide hget hitem)
      | message t' =>
          dsimp only
          split
          next ht =>
            rintro s rfl
            exact hrejected (.text hf htype hget hitem)
          next ht =>
            rintro o' rfl
            obtain ⟨v', hv', hcanonical⟩ := ho.1 f hf
            obtain rfl := Option.some.inj (hv.symm.trans hv')
            rcases hcanonical with ⟨⟨hsingle, -⟩, rfl⟩ | ⟨items', hlabel', hcanonical⟩
            · rw [hsingle] at hlabel
              obtain rfl := Option.some.inj hlabel
              cases List.mem_singleton.mp hx
            · obtain rfl := Option.some.inj (hlabel.symm.trans hlabel')
              have hx' := hcanonical _ hx
              rw [htype, CanonicalItem, if_neg ht] at hx'
              obtain ⟨o'', ho'', hbody⟩ := hx'
              obtain rfl := Val.obj.inj ho''
              exact ih hbody (fun h => hrejected (.inner hf htype hget hitem h))
                fun h => halien (.inner hf htype hget hitem h)

end Untouched

end RedFireForge.Grpc.DynamicProtoCodec
