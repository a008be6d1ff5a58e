/-
# `RedFireForge.Grpc.ProtoRoundTrip` — bodies come back exactly where the passes meet

A message comes back if each of its fields does, and the messages inside of it by induction on
the depth.  One that is taken, and given back as it was, meets the conditions at every depth.
-/
import RedFireForge.Grpc.ProtoPasses
import RedFireForge.Grpc.ProtoStrict

namespace RedFireForge.Grpc.DynamicProtoCodec

open RedFireForge.Lib

/-! ## Messages that come back -/

section Back

variable {τ β : Type} {lib : Library τ β} {root : Root τ} {scalar : String → Val → Prop} {other : String → Option ℤ}
  {depth : ℕ} {t : τ} {o : Obj}

/-- What has become of an item on its way in has the shape of the wire, and is given out as the
item was. -/
def ItemBack (root : Root τ) (scalar : String → Val → Prop) (depth : ℕ) (f : Field τ) (x x' : Val) : Prop :=
  WireItem scalar (WireMessage root scalar depth) f.type x'.tree ∧ ∀ y, y.tree = x'.tree.plain →
    ∃ z, decodedOf root (alignDecodedBodyToSchemaNames root depth) f y = .ok z ∧ z.tree = x.tree

theorem item_back (hfaith : Faithful lib root scalar) {f : Field τ} {x : Val}
    (ih : ∀ t o, CanonicalBody root scalar depth t o → Meets root depth t o →
      ∃ w, normalizeBodyForEncode lib root other depth t (alignBodyToProtobufFieldNames root depth t o) = .ok w ∧
        WireMessage root scalar depth t (treeAt w) ∧ ∀ p, (treeAt p = fun k => plainAt (treeAt w k)) →
          ∃ r, alignDecodedBodyToSchemaNames root depth t p = .ok r ∧ treeAt r = treeAt o)
    (hmeets : match f.type with
      | .scalar _ => True
      | .message t' =>
          if root.isTimestampType t' then
            ∀ s, x = .str s → ∃ y : UtcTime, s = String.ofList y.text ∧ y.fraction.length = 3
          else ∀ o', x = .obj o' → if f.label = .map then MeetsUntouched root depth t' o' else Meets root depth t' o')
    (hx : CanonicalItem root scalar depth (CanonicalBody root scalar depth) f.type x) :
    ∃ x', normalizedItem lib root other (normalizeBodyForEncode lib root other depth) f
        (alignedItem (alignBodyToProtobufFieldNames root depth) f x) = .ok x' ∧ ItemBack root scalar depth f x x' := by
  cases htype : f.type with
  | scalar name =>
      have haligned : alignedItem (alignBodyToProtobufFieldNames root depth) f x = x := by rw [alignedItem, htype]
      have hdecoded : ∀ y, decodedOf root (alignDecodedBodyToSchemaNames root depth) f y = .ok y := fun y => by
        rw [decodedOf, htype]
      rw [htype, CanonicalItem] at hx
      have hnormalized : normalizedItem lib root other (normalizeBodyForEncode lib root other depth) f x =
          if name ∈ wideLongFieldTypes then coerceWideLongForEncode lib x name else .ok x := by
        rw [normalizedItem, htype]
      rw [haligned, hnormalized]
      split at hx
      next hwide =>
        obtain ⟨n, hn, rfl⟩ := hx
        refine ⟨.long n, by rw [if_pos hwide, coerce_text hfaith hwide hn], ?_, fun y hy => ⟨y, hdecoded y, hy⟩⟩
        rw [htype, WireItem, if_pos hwide]
        exact ⟨n, hn, rfl⟩
      next hwide =>
        refine ⟨x, if_neg hwide, ?_, fun y hy => ⟨y, hdecoded y, hy.trans (hfaith.scalars name x hx).2⟩⟩
        rw [htype, WireItem, if_neg hwide]
        exact ⟨x, hx, rfl⟩
  | message t' =>
      rw [htype, CanonicalItem] at hx
      rw [htype] at hmeets
      dsimp only at hmeets
      split at hx
      next ht =>
        -- the depth of a timestamp is that of its pair
        obtain ⟨hdepth, time, -, rfl⟩ := hx
        obtain ⟨d, rfl⟩ := Nat.exists_eq_add_of_le' hdepth
        rw [if_pos ht] at hmeets
        obtain ⟨time', htext, hlength⟩ := hmeets _ rfl
        rw [htext]
        have haligned : alignedItem (alignBodyToProtobufFieldNames root (d + 1)) f (.str (String.ofList time'.text)) =
            .str (String.ofList time'.text) := by
          rw [alignedItem, htype]
          dsimp only
          split <;> rfl
        refine ⟨.obj (timestampPair time'.instant), ?_, ?_, fun y hy => ?_⟩
        · rw [haligned, normalizedItem, htype]
          dsimp only
          rw [if_pos ht, timestampItem_text hfaith ht]
        · rw [htype]
          exact ⟨_, rfl, timestampPair_wire hfaith ht⟩
        · refine ⟨.str (String.ofList (isoText time'.instant)), ?_,
            congrArg (fun cs => Tree.str (String.ofList cs)) (UtcTime.isoText_instant hlength)⟩
          rw [decodedOf, htype]
          dsimp only
          rw [if_neg (by simp [ht]), timestamp_back ht hy]
      next ht =>
        obtain ⟨o', rfl, ho'⟩ := hx
        rw [if_neg ht] at hmeets
        have hmeets' := hmeets o' rfl
        split at hmeets'
        next hmap =>
          obtain ⟨hwire, hplain⟩ := untouched_wire hfaith ho' hmeets'
          refine ⟨.obj o', ?_, ?_, fun y hy => ⟨y, ?_, hy.trans (congrArg Tree.obj (funext hplain))⟩⟩
          · rw [alignedItem, htype, normalizedItem, htype]
            dsimp only
            rw [if_neg ht, if_pos hmap, if_pos hmap]
          · rw [htype]
            exact ⟨_, rfl, hwire⟩
          · rw [decodedOf, htype]
            dsimp only
            rw [if_pos ⟨hmap, eq_false_of_ne_true ht⟩]
        next hmap =>
          obtain ⟨w, hw, hwire, hback⟩ := ih t' o' ho' hmeets'
          refine ⟨.obj w, ?_, ?_, fun y hy => ?_⟩
          · rw [alignedItem, htype, normalizedItem, htype]
            dsimp only
            rw [if_neg ht, if_neg hmap, if_neg hmap]
            dsimp only
            rw [hw]
            rfl
          · rw [htype]
            exact ⟨_, rfl, hwire⟩
          · obtain ⟨p, rfl, hp⟩ := tree_eq_obj hy
            obtain ⟨r, hr, hro⟩ := hback p (funext fun k => (treeAt_eq p k).trans (hp k))
            refine ⟨.obj r, ?_, congrArg Tree.obj hro⟩
            rw [decodedOf, htype]
            dsimp only
            rw [if_neg fun h => hmap h.1, decodedItem, if_neg ht, hr]
            rfl

/-- A value is given out as it was if its items are. -/
theorem value_back {f : Field τ} {v : Val} {items : List Val} (hlabel : itemsOf f.label v = some items)
    (hitems : ∀ x ∈ items, ∃ x', normalizedItem lib root other (normalizeBodyForEncode lib root other depth) f
        (alignedItem (alignBodyToProtobufFieldNames root depth) f x) = .ok x' ∧ ItemBack root scalar depth f x x') :
    ∃ u, normalizedValue lib root other (normalizeBodyForEncode lib root other depth) f
        (alignedValue (alignBodyToProtobufFieldNames root depth) f v) = .ok u ∧ Shaped f.label u.tree ∧
      (∀ w, TreeItem f.label u.tree w → WireItem scalar (WireMessage root scalar depth) f.type w) ∧
      ∀ y, y.tree = u.tree.plain →
        ∃ z, decodedValue root (alignDecodedBodyToSchemaNames root depth) f y = .ok z ∧ z.tree = v.tree := by
  have haligned := (aligned_acts (alignBodyToProtobufFieldNames root depth)).related hlabel
  obtain ⟨items₀, items₁, hlabel₀, hlabel₁, -, hback₁⟩ := haligned.corresponds
  obtain rfl := Option.some.inj (hlabel.symm.trans hlabel₀)
  obtain ⟨u, hu⟩ := (normalized_acts (normalizeBodyForEncode lib root other depth)).ok hlabel₁ (by
    intro x₁ hx₁
    obtain ⟨x, hx, hxx₁⟩ := hback₁ x₁ hx₁
    obtain ⟨x', hx', -⟩ := hitems x hx
    exact ⟨x', Except.ok.inj hxx₁ ▸ hx'⟩)
  have hnormalized := ActsOnItems.related (hu ▸ normalized_acts (normalizeBodyForEncode lib root other depth)) hlabel₁
  have hin : Related f.label (ItemBack root scalar depth f) v u := by
    refine (haligned.comp hnormalized ?_).imp hlabel ?_ (P := fun x x' =>
      normalizedItem lib root other (normalizeBodyForEncode lib root other depth) f
        (alignedItem (alignBodyToProtobufFieldNames root depth) f x) = .ok x')
    · intro x x₁ x' hxx₁ hx'
      rwa [Except.ok.inj hxx₁]
    · intro x hx x' hxx'
      obtain ⟨x'', hx'', hback⟩ := hitems x hx
      rwa [Except.ok.inj (hxx'.symm.trans hx'')]
  obtain ⟨_, us, -, hlabelu, -, hbacku⟩ := hin.corresponds
  refine ⟨u, hu, shaped_tree hlabelu, fun w hw => ?_, fun y hy => ?_⟩
  · obtain ⟨x', hx', rfl⟩ := (treeItem_iff hlabelu).mp hw
    obtain ⟨x, -, hwire, -⟩ := hbacku x' hx'
    exact hwire
  · have hout : Related f.label (fun x y => ∃ z,
        decodedOf root (alignDecodedBodyToSchemaNames root depth) f y = .ok z ∧ z.tree = x.tree) v y :=
      hin.comp (related_tree through_plain hlabelu hy) fun x x' y hx hy => hx.2 y hy
    obtain ⟨_, ys, -, hlabely, -, hbacky⟩ := hout.corresponds
    obtain ⟨z, hz⟩ := (decoded_acts (alignDecodedBodyToSchemaNames root depth)).ok hlabely fun y' hy' => by
      obtain ⟨x, -, z, hz, -⟩ := hbacky y' hy'
      exact ⟨z, hz⟩
    refine ⟨z, hz, @tree_related f.label _ _ ?_⟩
    refine hout.comp (ActsOnItems.related (hz ▸ decoded_acts (alignDecodedBodyToSchemaNames root depth)) hlabely) ?_
    rintro x y' z' ⟨z'', hz'', htree⟩ hz'
    rw [Except.ok.inj (hz'.symm.trans hz'')]
    exact htree

theorem normalizedOrNull_of_ne {recur : τ → Obj → Except String Obj} {f : Field τ} {v : Val} (h : v ≠ .null) :
    normalizedOrNull lib root other recur f v = normalizedValue lib root other recur f v := by
  cases v <;> first | rfl | exact absurd rfl h

theorem aligned_ne_null {recur : τ → Obj → Obj} {f : Field τ} {v : Val} (h : v ≠ .null) :
    alignedValue recur f v ≠ .null := by
  obtain ⟨name, schemaName, type, label⟩ := f
  intro hnull
  cases type <;> cases label <;> cases v <;> first | exact h rfl | cases hnull

/-- Values of a body that are not `null` have items that are not either. -/
theorem canonical_ne_null (hfaith : Faithful lib root scalar) {f : Field τ} {v : Val} {items : List Val}
    (hlabel : itemsOf f.label v = some items)
    (hitems : ∀ x ∈ items, CanonicalItem root scalar depth (CanonicalBody root scalar depth) f.type x) : v ≠ .null := by
  rintro rfl
  cases h : f.label with
  | repeated =>
      rw [h] at hlabel
      cases hlabel
  | map =>
      rw [h] at hlabel
      cases hlabel
  | single =>
      rw [h] at hlabel
      obtain rfl := Option.some.inj hlabel
      have hnull := hitems .null (List.mem_singleton_self _)
      cases htype : f.type with
      | scalar name =>
          rw [htype, CanonicalItem] at hnull
          split at hnull
          next =>
            obtain ⟨n, -, hn⟩ := hnull
            cases hn
          next => exact (hfaith.scalars name .null hnull).1 rfl
      | message t' =>
          rw [htype, CanonicalItem] at hnull
          split at hnull
          next =>
            obtain ⟨-, x, -, hx⟩ := hnull
            cases hx
          next =>
            obtain ⟨o', ho', -⟩ := hnull
            cases ho'

theorem HasSchemaNames.of_canonical (ho : CanonicalBody root scalar depth t o) : HasSchemaNames root t o := by
  cases depth with
  | zero => exact ho.elim
  | succ depth => exact ho.2

/-- A message that meets the conditions comes back. -/
theorem back_of_meets (hfaith : Faithful lib root scalar) (ho : CanonicalBody root scalar depth t o)
    (hmeets : Meets root depth t o) :
    ∃ w, normalizeBodyForEncode lib root other depth t (alignBodyToProtobufFieldNames root depth t o) = .ok w ∧
      WireMessage root scalar depth t (treeAt w) ∧ ∀ p, (treeAt p = fun k => plainAt (treeAt w k)) →
        ∃ r, alignDecodedBodyToSchemaNames root depth t p = .ok r ∧ treeAt r = treeAt o := by
  induction depth generalizing t o with
  | zero => exact ho.elim
  | succ depth ih =>
      have hschema := HasSchemaNames.of_canonical ho
      rw [CanonicalBody] at ho
      rw [Meets] at hmeets
      have hsmall : SmallNames root t := fun f hf => (hmeets f hf).1
      obtain ⟨haligned, hnames⟩ := @align_fields _ root depth t o hsmall hschema
      -- each field on its way in and out
      have hfield : ∀ f ∈ root.fieldsArray t, ∃ v u, o.lookup f.schemaName = some v ∧
          normalizedOrNull lib root other (normalizeBodyForEncode lib root other depth) f
            (alignedValue (alignBodyToProtobufFieldNames root depth) f v) = .ok u ∧
          ((MayBeNull f ∧ u.tree = .null) ∨ (Shaped f.label u.tree ∧
            ∀ x, TreeItem f.label u.tree x → WireItem scalar (WireMessage root scalar depth) f.type x)) ∧
          ∀ y, y.tree = u.tree.plain →
            ∃ z, decodedValue root (alignDecodedBodyToSchemaNames root depth) f y = .ok z ∧ z.tree = v.tree := by
        intro f hf
        obtain ⟨v, hv, hcanonical⟩ := ho.1 f hf
        rcases hcanonical with ⟨hnull, rfl⟩ | ⟨items, hlabel, hcanonical⟩
        · refine ⟨.null, .null, hv, by rw [alignedValue_null]; rfl, Or.inl ⟨hnull, rfl⟩, fun y hy => ⟨.null, ?_, rfl⟩⟩
          obtain rfl := tree_eq_null hy
          obtain ⟨hsingle, t', htype⟩ := hnull
          rw [decodedValue, htype, hsingle]
        · have hitems : ∀ x ∈ items, ∃ x', normalizedItem lib root other (normalizeBodyForEncode lib root other depth) f
              (alignedItem (alignBodyToProtobufFieldNames root depth) f x) = .ok x' ∧ ItemBack root scalar depth f x x' :=
            fun x hx => item_back hfaith (fun t o => @ih t o) ((hmeets f hf).2 v items hv hlabel x hx) (hcanonical x hx)
          obtain ⟨u, hu, hshaped, hwire, hback⟩ := value_back hlabel hitems
          refine ⟨v, u, hv, ?_, Or.inr ⟨hshaped, hwire⟩, hback⟩
          rw [normalizedOrNull_of_ne (aligned_ne_null (canonical_ne_null hfaith hlabel hcanonical)), hu]
      obtain ⟨w, hw⟩ := @normalize_ok _ _ lib root other depth t _ hsmall fun f hf => by
        obtain ⟨v, u, hv, hu, -⟩ := hfield f hf
        exact ⟨_, u, by rw [haligned f hf, hv, Option.map_some], hu⟩
      obtain ⟨hnormalized, hnames'⟩ := normalize_fields hsmall hnames hw
      have hvalue : ∀ f ∈ root.fieldsArray t, ∃ v u, o.lookup f.schemaName = some v ∧ w.lookup f.name = some u ∧
          ((MayBeNull f ∧ u.tree = .null) ∨ (Shaped f.label u.tree ∧
            ∀ x, TreeItem f.label u.tree x → WireItem scalar (WireMessage root scalar depth) f.type x)) ∧
          ∀ y, y.tree = u.tree.plain →
            ∃ z, decodedValue root (alignDecodedBodyToSchemaNames root depth) f y = .ok z ∧ z.tree = v.tree := by
        intro f hf
        obtain ⟨v, u, hv, hu, hwire, hback⟩ := hfield f hf
        obtain ⟨u', hu', hw'⟩ := hnormalized f hf _ (by rw [haligned f hf, hv, Option.map_some])
        obtain rfl := Except.ok.inj (hu.symm.trans hu')
        exact ⟨v, u, hv, hw', hwire, hback⟩
      refine ⟨w, hw, ⟨fun f hf => ?_, fun k u hk => ?_⟩, fun p hp => ?_⟩
      · obtain ⟨v, u, -, hu, hwire, -⟩ := hvalue f hf
        exact ⟨u.tree, by rw [treeAt_eq, hu, Option.map_some], hwire⟩
      · rw [treeAt_eq, Option.map_eq_some_iff] at hk
        obtain ⟨x, hx, -⟩ := hk
        exact hnames' k x hx
      · have hp' : ∀ k, (p.lookup k).map Val.tree = (w.lookup k).map fun u => u.tree.plain := by
          intro k
          have hk : treeAt p k = plainAt (treeAt w k) := congrFun hp k
          rw [← treeAt_eq, hk, treeAt_eq, plainAt_eq, Option.map_map]
          rfl
        have hnamesp : HasNames root t p := by
          intro k v hk
          have hkw := hp' k
          rw [hk, Option.map_some] at hkw
          obtain ⟨u, hu, -⟩ := Option.map_eq_some_iff.mp hkw.symm
          exact hnames' k u hu
        have hout : ∀ f ∈ root.fieldsArray t, ∃ v y z, o.lookup f.schemaName = some v ∧ p.lookup f.name = some y ∧
            decodedValue root (alignDecodedBodyToSchemaNames root depth) f y = .ok z ∧ z.tree = v.tree := by
          intro f hf
          obtain ⟨v, u, hv, hu, -, hback⟩ := hvalue f hf
          have hpf := hp' f.name
          rw [hu, Option.map_some] at hpf
          obtain ⟨y, hy, htree⟩ := Option.map_eq_some_iff.mp hpf
          obtain ⟨z, hz, hzv⟩ := hback y htree
          exact ⟨v, y, z, hv, hy, hz, hzv⟩
        obtain ⟨r, hr⟩ := @decode_ok _ root depth t p hsmall hnamesp fun f hf v hv => by
          obtain ⟨-, y, z, -, hy, hz, -⟩ := hout f hf
          obtain rfl := Option.some.inj (hv.symm.trans hy)
          exact ⟨z, hz⟩
        obtain ⟨hdecoded, -, hschema'⟩ := decode_fields hsmall hnamesp hr
        refine ⟨r, hr, funext fun k => ?_⟩
        rw [treeAt_eq, treeAt_eq]
        by_cases hk : ∃ f ∈ root.fieldsArray t, f.schemaName = k
        · obtain ⟨f, hf, rfl⟩ := hk
          obtain ⟨v, y, z, hv, hy, hz, hzv⟩ := hout f hf
          obtain ⟨z', hz', hr'⟩ := hdecoded f hf y hy
          obtain rfl := Except.ok.inj (hz.symm.trans hz')
          rw [hr', hv, Option.map_some, Option.map_some, hzv]
        · rw [Option.eq_none_iff_forall_ne_some.mpr fun v hv => hk (hschema' k v hv),
            Option.eq_none_iff_forall_ne_some.mpr fun v hv => hk (hschema k v hv)]

theorem decodedItem_obj {recur : τ → Obj → Except String Obj} (ht : ¬ root.isTimestampType t = true) {y : Val} {r : Obj}
    (h : decodedItem root recur t y = .ok (.obj r)) : ∃ p, y = .obj p ∧ recur t p = .ok r := by
  unfold decodedItem at h
  rw [if_neg ht] at h
  cases y with
  | obj p =>
      obtain ⟨r', hr', heq⟩ := map_ok h
      obtain rfl := Val.obj.inj heq
      exact ⟨p, rfl, hr'⟩
  | _ => cases h

/-- What is given out has the shape of what was given in, so what was taken from has it too. -/
theorem decoded_items {recur : τ → Obj → Except String Obj} {f : Field τ} {v y z : Val} {items : List Val}
    (hlabel : itemsOf f.label v = some items) (hz : decodedValue root recur f y = .ok z) (htree : z.tree = v.tree) :
    ∃ ys, itemsOf f.label y = some ys ∧
      ∀ x ∈ items, ∃ y' ∈ ys, ∃ z', decodedOf root recur f y' = .ok z' ∧ z'.tree = x.tree := by
  cases hy : itemsOf f.label y with
  | none =>
      have hyz := ActsOnItems.unshaped (@decoded_acts _ root f y recur) hy
      rw [hz] at hyz
      obtain rfl := Except.ok.inj hyz
      obtain ⟨items', hitems'⟩ := itemsOf_shaped (htree ▸ shaped_tree hlabel)
      rw [hy] at hitems'
      cases hitems'
  | some ys =>
      refine ⟨ys, rfl, fun x hx => ?_⟩
      have hyz := ActsOnItems.related (hz ▸ decoded_acts recur) hy
      have hvz : Related f.label (fun x z => z.tree = x.tree) v z := related_tree through_id hlabel htree
      obtain ⟨_, zs, hlabel', hzs, hto, -⟩ := hvz.corresponds
      obtain rfl := Option.some.inj (hlabel.symm.trans hlabel')
      obtain ⟨z', hz', hzx⟩ := hto x hx
      obtain ⟨_, _, hys', hzs', -, hfrom⟩ := hyz.corresponds
      obtain rfl := Option.some.inj (hy.symm.trans hys')
      obtain rfl := Option.some.inj (hzs.symm.trans hzs')
      obtain ⟨y', hy', hdecoded⟩ := hfrom z' hz'
      exact ⟨y', hy', z', hdecoded, hzx⟩

/-- What has become of an item on its way in. -/
theorem normalized_items {recur : τ → Obj → Obj} {recur' : τ → Obj → Except String Obj} {f : Field τ} {v u : Val}
    {items : List Val} (hlabel : itemsOf f.label v = some items)
    (hu : normalizedValue lib root other recur' f (alignedValue recur f v) = .ok u) :
    ∃ us, itemsOf f.label u = some us ∧
      ∀ x ∈ items, ∃ x' ∈ us, normalizedItem lib root other recur' f (alignedItem recur f x) = .ok x' := by
  have haligned := (aligned_acts recur).related hlabel
  obtain ⟨items', items₁, hlabel', hlabel₁, hto₁, -⟩ := haligned.corresponds
  obtain rfl := Option.some.inj (hlabel.symm.trans hlabel')
  have hnormalized := ActsOnItems.related (hu ▸ normalized_acts recur') hlabel₁
  obtain ⟨items₂, us, hlabel₂, hus, hto, -⟩ := hnormalized.corresponds
  obtain rfl := Option.some.inj (hlabel₁.symm.trans hlabel₂)
  refine ⟨us, hus, fun x hx => ?_⟩
  obtain ⟨x₁, hx₁, hxx₁⟩ := hto₁ x hx
  obtain ⟨x', hx', hxx'⟩ := hto x₁ hx₁
  exact ⟨x', hx', Except.ok.inj hxx₁ ▸ hxx'⟩

/-- A message that comes back meets the conditions. -/
theorem meets_of_back (hfaith : Faithful lib root scalar) {w p r : Obj} (ho : CanonicalBody root scalar depth t o)
    (hw : normalizeBodyForEncode lib root other depth t (alignBodyToProtobufFieldNames root depth t o) = .ok w)
    (hrejected : ¬ Rejected root t (treeAt w)) (halien : ¬ Alien root t (treeAt p))
    (hr : alignDecodedBodyToSchemaNames root depth t p = .ok r) (hback : treeAt r = treeAt o) : Meets root depth t o := by
  induction depth generalizing t o w p r with
  | zero => trivial
  | succ depth ih =>
      have hschema := HasSchemaNames.of_canonical ho
      rw [CanonicalBody] at ho
      have hback' : ∀ k, (r.lookup k).map Val.tree = (o.lookup k).map Val.tree := by
        intro k
        rw [← treeAt_eq, ← treeAt_eq, hback]
      have hnamesp : HasNames root t p := by
        intro k v hk
        by_contra hnone
        exact halien (.key (by rw [treeAt_eq, hk, Option.map_some]) fun f hf hname => hnone ⟨f, hf, hname⟩)
      have hsmall : SmallNames root t := by
        intro f hf
        obtain ⟨v, hv, -⟩ := ho.1 f hf
        have hrf := hback' f.schemaName
        rw [hv, Option.map_some] at hrf
        obtain ⟨z, hz, -⟩ := Option.map_eq_some_iff.mp hrf
        refine loop_small (fun k v hk => Or.inl (hnamesp k v hk)) hr f.schemaName z hz
      obtain ⟨haligned, hnames⟩ := @align_fields _ root depth t o hsmall hschema
      obtain ⟨hnormalized, -⟩ := normalize_fields hsmall hnames hw
      obtain ⟨hdecoded, hmissing, -⟩ := decode_fields hsmall hnamesp hr
      rw [Meets]
      refine fun f hf => ⟨hsmall f hf, fun v items hv hlabel x hx => ?_⟩
      cases htype : f.type with
      | scalar name => trivial
      | message t' =>
          dsimp only
          obtain ⟨v', hv', hcanonical⟩ := ho.1 f hf
          obtain rfl := Option.some.inj (hv.symm.trans hv')
          rcases hcanonical with ⟨⟨hsingle, -⟩, rfl⟩ | ⟨items', hlabel', hcanonical⟩
          · rw [hsingle] at hlabel
            obtain rfl := Option.some.inj hlabel
            obtain rfl := List.mem_singleton.mp hx
            split <;> rintro _ ⟨⟩
          · obtain rfl := Option.some.inj (hlabel.symm.trans hlabel')
            -- the values on the wire and in what is given out
            obtain ⟨u, hu, hwf⟩ := hnormalized f hf _ (by rw [haligned f hf, hv, Option.map_some])
            rw [normalizedOrNull_of_ne (aligned_ne_null (canonical_ne_null hfaith hlabel hcanonical))] at hu
            obtain ⟨us, hus, hin⟩ := normalized_items hlabel hu
            have hrf := hback' f.schemaName
            rw [hv, Option.map_some] at hrf
            obtain ⟨z, hz, htree⟩ := Option.map_eq_some_iff.mp hrf
            obtain ⟨y, hy⟩ : ∃ y, p.lookup f.name = some y := by
              rw [← Option.ne_none_iff_exists']
              intro hnone
              rw [hmissing f hf hnone] at hz
              cases hz
            obtain ⟨z', hz', hrz⟩ := hdecoded f hf y hy
            obtain rfl := Option.some.inj (hz.symm.trans hrz)
            obtain ⟨ys, hys, hout⟩ := decoded_items hlabel hz' htree
            obtain ⟨x', hx', hxx'⟩ := hin x hx
            obtain ⟨y', hy', z', hz', hzx⟩ := hout x hx
            have hgetw : treeAt w f.name = some u.tree := by rw [treeAt_eq, hwf, Option.map_some]
            have hgetp : treeAt p f.name = some y.tree := by rw [treeAt_eq, hy, Option.map_some]
            have hitemw : TreeItem f.label u.tree x'.tree := (treeItem_iff hus).mpr ⟨x', hx', rfl⟩
            have hitemp : TreeItem f.label y.tree y'.tree := (treeItem_iff hys).mpr ⟨y', hy', rfl⟩
            have hxc := hcanonical x hx
            rw [htype, CanonicalItem] at hxc
            rw [decodedOf, htype] at hz'
            rw [alignedItem, htype, normalizedItem, htype] at hxx'
            dsimp only at hz' hxx'
            split at hxc
            next ht =>
              rw [if_pos ht]
              rintro s rfl
              obtain ⟨-, time, -, htime⟩ := hxc
              obtain rfl := tree_eq_str hzx
              rw [if_neg (by simp [ht])] at hz'
              rcases timestamp_text ht hz' with rfl | ⟨ms, hms⟩
              · exact (halien (.text hf htype hgetp hitemp)).elim
              · refine ⟨time, Val.str.inj htime, @UtcTime.length_fraction time ms ?_⟩
                rw [← String.ofList_inj, ← Val.str.inj htime, hms]
            next ht =>
              rw [if_neg ht]
              obtain ⟨o', rfl, ho'⟩ := hxc
              rintro o'' heq
              obtain rfl := Val.obj.inj heq
              obtain ⟨r', rfl, hr'⟩ := tree_eq_obj hzx
              split
              next hmap =>
                rw [if_pos ⟨hmap, eq_false_of_ne_true ht⟩] at hz'
                obtain rfl := Except.ok.inj hz'
                rw [if_neg ht, if_pos hmap, if_pos hmap] at hxx'
                obtain rfl := Except.ok.inj hxx'
                refine untouched_of_taken ho' (fun h => hrejected (.inner hf htype hgetw hitemw h)) fun h => ?_
                rw [hzx] at hitemp
                exact halien (.inner hf htype hgetp hitemp h)
              next hmap =>
                rw [if_neg ht, if_neg hmap, if_neg hmap] at hxx'
                dsimp only at hxx'
                obtain ⟨w', hw', rfl⟩ := map_ok hxx'
                rw [if_neg fun h => hmap h.1] at hz'
                obtain ⟨p', rfl, hp'⟩ := decodedItem_obj ht hz'
                refine ih ho' hw' (fun h => hrejected (.inner hf htype hgetw hitemw h))
                  (fun h => halien (.inner hf htype hgetp hitemp h)) hp' (funext fun k => ?_)
                rw [treeAt_eq]
                exact hr' k

end Back

/-! ## The round trip -/

section RoundTrip

variable {τ β : Type} {lib : Library τ β} {root : Root τ} {scalar : String → Val → Prop} {other : String → Option ℤ}
  {typeName : String} {depth : ℕ} {t : τ} {o : Obj}

/-- A depth that is enough may be exceeded. -/
theorem CanonicalBody.succ (ho : CanonicalBody root scalar depth t o) : CanonicalBody root scalar (depth + 1) t o := by
  induction depth generalizing t o with
  | zero => exact ho.elim
  | succ depth ih =>
      refine ⟨fun f hf => ?_, ho.2⟩
      obtain ⟨v, hv, hcanonical⟩ := ho.1 f hf
      refine ⟨v, hv, hcanonical.imp_right fun ⟨items, hlabel, hitems⟩ => ⟨items, hlabel, fun x hx => ?_⟩⟩
      have hitem := hitems x hx
      unfold CanonicalItem at hitem ⊢
      cases htype : f.type with
      | scalar name => simpa only [htype] using hitem
      | message t' =>
          simp only [htype] at hitem ⊢
          split
          next ht =>
            rw [if_pos ht] at hitem
            exact ⟨Nat.succ_pos _, hitem.2⟩
          next ht =>
            rw [if_neg ht] at hitem
            obtain ⟨o', ho', hbody⟩ := hitem
            exact ⟨o', ho', ih hbody⟩

theorem encode_ok {buffer : β} : encodeProtoMessage lib root other typeName depth t o = .ok buffer ↔
    ∃ w, normalizeBodyForEncode lib root other depth t (alignBodyToProtobufFieldNames root depth t o) = .ok w ∧
      lib.verify t w = none ∧ lib.encode t w = buffer := by
  rw [encodeProtoMessage]
  cases normalizeBodyForEncode lib root other depth t (alignBodyToProtobufFieldNames root depth t o) with
  | error e =>
      constructor
      · rintro ⟨⟩
      · rintro ⟨w, ⟨⟩, -⟩
  | ok w =>
      dsimp only [bind, Except.bind]
      cases hverify : lib.verify t w with
      | some err =>
          constructor
          · rintro ⟨⟩
          · rintro ⟨w', hw', hnone, -⟩
            rw [← Except.ok.inj hw', hverify] at hnone
            cases hnone
      | none =>
          constructor
          · intro h
            exact ⟨w, rfl, hverify, Except.ok.inj h⟩
          · rintro ⟨w', hw', -, rfl⟩
            rw [Except.ok.inj hw']

theorem meets_of_comesBack (hfaith : Faithful lib root scalar) (ho : CanonicalBody root scalar depth t o)
    (h : ComesBack lib root other typeName depth t o) : Meets root depth t o := by
  obtain ⟨buffer, r, hencode, hdecode, hback⟩ := h
  obtain ⟨w, hw, hverify, rfl⟩ := encode_ok.mp hencode
  obtain ⟨hrejected, halien⟩ := hfaith.sound t w hverify
  exact meets_of_back hfaith ho hw hrejected halien hdecode hback

theorem comesBack_of_meets (hfaith : Faithful lib root scalar) (ho : CanonicalBody root scalar depth t o)
    (hmeets : Meets root depth t o) : ComesBack lib root other typeName depth t o := by
  obtain ⟨w, hw, hwire, hback⟩ := back_of_meets hfaith ho hmeets
  obtain ⟨hverify, htree⟩ := hfaith.inverse depth t w hwire
  obtain ⟨r, hr, hro⟩ := hback _ htree
  exact ⟨lib.encode t w, r, encode_ok.mpr ⟨w, hw, hverify, rfl⟩, hr, hro⟩

end RoundTrip

/-! ## Two bodies of a schema with a map -/

inductive Sample
  | event | user | timestamp
deriving DecidableEq, Repr

def sampleFields : Sample → List (Field Sample)
  | .event => [⟨"byName", "by_name", .message .user, .map⟩, ⟨"lastUser", "last_user", .message .user, .single⟩,
      ⟨"createdAt", "created_at", .message .timestamp, .single⟩]
  | .user => [⟨"userId", "user_id", .scalar "int64", .single⟩]
  | .timestamp => timestampFields

def sampleRoot : Root Sample where
  fieldsArray := sampleFields
  isTimestampType t := decide (t = .timestamp)
  names t := by cases t <;> decide
  schemaNames t := by cases t <;> decide
  timestamp t ht := by rw [of_decide_eq_true ht]; rfl
  named := Or.inr fun t => by
    cases t <;> decide

def sampleScalar (name : String) (v : Val) : Prop := name = "int32" ∧ ∃ n : ℤ, v = .num n

theorem sampleLibrary_faithful : Faithful (strictLibrary sampleRoot sampleScalar) sampleRoot sampleScalar := by
  refine strictLibrary_faithful ?_ fun n _ _ => ⟨rfl, n, rfl⟩
  rintro name v ⟨-, n, rfl⟩
  exact ⟨nofun, rfl⟩

def sampleTime : UtcTime where
  date := ⟨2024, 1, 28, by decide⟩
  years := by decide
  hour := 12
  minute := 34
  second := 56
  fraction := [7, 8, 9]

theorem sampleTime_text : "2024-02-29T12:34:56.789Z" = String.ofList sampleTime.text := by decide

/-- A body of an event. -/
def sampleBody (byName : Obj) : Obj :=
  [("by_name", .obj byName), ("last_user", .obj [("user_id", .str "-5")]),
    ("created_at", .str "2024-02-29T12:34:56.789Z")]

theorem sampleUser_canonical (n : ℤ) (hn : -2 ^ 63 ≤ n ∧ n < 2 ^ 63) :
    CanonicalBody sampleRoot sampleScalar 1 .user [("user_id", .str (toString n))] := by
  refine ⟨fun f hf => ?_, fun k v hk => ?_⟩
  · obtain rfl := List.mem_singleton.mp hf
    refine ⟨.str (toString n), rfl, Or.inr ⟨[.str (toString n)], rfl, fun x hx => ?_⟩⟩
    obtain rfl := List.mem_singleton.mp hx
    exact ⟨n, hn, rfl⟩
  · obtain ⟨rfl, -⟩ := Prod.mk.inj (List.mem_singleton.mp (mem_of_lookup hk))
    exact ⟨_, List.mem_singleton_self _, rfl⟩

theorem sampleBody_canonical {byName : Obj}
    (h : ∀ v ∈ (ownEntries byName).map Prod.snd, ∃ n : ℤ, (-2 ^ 63 ≤ n ∧ n < 2 ^ 63) ∧
      v = .obj [("user_id", .str (toString n))]) :
    CanonicalBody sampleRoot sampleScalar 2 .event (sampleBody byName) := by
  refine ⟨fun f hf => ?_, fun k v hk => ?_⟩
  · simp only [sampleRoot, sampleFields, List.mem_cons, List.not_mem_nil, or_false] at hf
    rcases hf with rfl | rfl | rfl
    · refine ⟨.obj byName, rfl, Or.inr ⟨_, rfl, fun x hx => ?_⟩⟩
      obtain ⟨n, hn, rfl⟩ := h x hx
      exact ⟨_, rfl, sampleUser_canonical n hn⟩
    · refine ⟨.obj [("user_id", .str "-5")], rfl, Or.inr ⟨[.obj [("user_id", .str "-5")]], rfl, fun x hx => ?_⟩⟩
      obtain rfl := List.mem_singleton.mp hx
      have htext : toString (-5 : ℤ) = "-5" := by decide
      exact ⟨_, rfl, htext ▸ sampleUser_canonical (-5) (by decide)⟩
    · refine ⟨.str "2024-02-29T12:34:56.789Z", rfl, Or.inr ⟨[.str "2024-02-29T12:34:56.789Z"], rfl, fun x hx => ?_⟩⟩
      obtain rfl := List.mem_singleton.mp hx
      exact ⟨Nat.one_pos, sampleTime, by decide, congrArg Val.str sampleTime_text⟩
  · have hmem := mem_of_lookup hk
    simp only [sampleBody, List.mem_cons, Prod.mk.injEq, List.not_mem_nil, or_false] at hmem
    rcases hmem with ⟨rfl, -⟩ | ⟨rfl, -⟩ | ⟨rfl, -⟩
    · exact ⟨_, List.mem_cons_self, rfl⟩
    · exact ⟨_, List.mem_cons_of_mem _ List.mem_cons_self, rfl⟩
    · exact ⟨_, List.mem_cons_of_mem _ (List.mem_cons_of_mem _ List.mem_cons_self), rfl⟩

/-! ## The result -/

end RedFireForge.Grpc.DynamicProtoCodec
