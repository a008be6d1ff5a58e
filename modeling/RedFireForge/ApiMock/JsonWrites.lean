/-
# `RedFireForge.ApiMock.JsonWrites` — what several writes leave

A write goes down by its keys and makes the objects it lacks.  It may end in an array, where no
text under keys changes.  Two writes leave each other alone unless the path of one leads through
the end of the other.
-/
import RedFireForge.ApiMock.JsonPath

namespace RedFireForge.ApiMock

open RedFireForge.Lib
open RedFireForge.Lib.Json (Step SameValue texts mem_texts)

/-- One path leads through the end of the other. -/
def Overlap (keys keys' : List String) : Prop := keys <+: keys' ∨ keys' <+: keys

instance (keys keys' : List String) : Decidable (Overlap keys keys') :=
  inferInstanceAs (Decidable (_ ∨ _))

/-- An array stands on the way. -/
def throughArray : Json → List String → Bool
  | .arr _, _ :: _ => true
  | .obj fields, key :: keys => (fields.lookup key).any fun child => throughArray child keys
  | _, _ => false

/-- An array that takes no notice of the key. -/
def ignores : Json → String → Bool
  | .arr _, key => decide (key ≠ "length" ∧ arrayIndexOf key = none)
  | _, _ => false

/-- To write the value would change nothing. -/
def Kept (v : Json) : Json → List String → Prop
  | j, [] => j = v
  | j, key :: keys => ignores j key = true ∨ ∃ child, ownChild j key = some child ∧ Kept v child keys

section Paths

variable {key key' : String} {keys keys' : List String}

theorem Overlap.symm (h : Overlap keys keys') : Overlap keys' keys := Or.symm h

theorem overlap_refl : Overlap keys keys := Or.inl List.prefix_rfl

theorem overlap_cons : Overlap (key :: keys) (key' :: keys') ↔ key = key' ∧ Overlap keys keys' := by
  unfold Overlap
  rw [List.cons_prefix_cons, List.cons_prefix_cons]
  constructor
  · rintro (⟨rfl, h⟩ | ⟨rfl, h⟩)
    · exact ⟨rfl, Or.inl h⟩
    · exact ⟨rfl, Or.inr h⟩
  · rintro ⟨rfl, h⟩
    exact h.imp (⟨rfl, ·⟩) (⟨rfl, ·⟩)

theorem ne_nil_of_not_overlap (h : ¬ Overlap keys keys') : keys ≠ [] ∧ keys' ≠ [] := by
  constructor
  · rintro rfl
    exact h (Or.inl List.nil_prefix)
  · rintro rfl
    exact h (Or.inr List.nil_prefix)

end Paths

/-! ## One step of a write -/

section Step

variable {v c j j' : Json} {key key' : String} {keys keys' : List String}
  {fields : List (String × Json)} {items : List Json}

/-- Where the writer goes on. -/
def below (j : Json) (key : String) : Json := ((ownChild j key).filter isContainer).getD (.obj [])

theorem setKeys_cons (h : keys ≠ []) :
    setKeys v j (key :: keys) = (setKeys v (below j key) keys).bind fun c => assignKey j key c := by
  cases keys with
  | nil => exact absurd rfl h
  | cons key' keys => rfl

theorem isContainer_below : isContainer (below j key) = true := by
  unfold below
  cases h : (ownChild j key).filter isContainer with
  | none => rfl
  | some child => exact (Option.filter_eq_some_iff.mp h).2

theorem below_of_container (h : ownChild j key = some c) (hc : isContainer c = true) :
    below j key = c := by
  rw [below, h, Option.filter_some, if_pos hc]
  rfl

theorem below_of_scalar (h : ownChild j key = some c) (hc : isContainer c = false) :
    below j key = .obj [] := by
  rw [below, h, Option.filter_some, hc]
  rfl

theorem below_of_none (h : ownChild j key = none) : below j key = .obj [] := by
  rw [below, h]
  rfl

theorem lookup_setField : (setField fields key v).lookup key' =
    if key' = key then some v else fields.lookup key' := by
  induction fields with
  | nil =>
      rw [setField, List.lookup_cons]
      by_cases h : key' = key
      · simp [h]
      · simp [h, beq_eq_false_iff_ne.mpr h]
  | cons f fields ih =>
      obtain ⟨name, w⟩ := f
      rw [setField]
      by_cases hname : name = key
      · subst hname
        rw [if_pos rfl, List.lookup_cons, List.lookup_cons]
        by_cases h : key' = name
        · simp [h]
        · simp [h, beq_eq_false_iff_ne.mpr h]
      · rw [if_neg hname, List.lookup_cons, ih, List.lookup_cons]
        by_cases h : key' = name
        · subst h
          simp [hname]
        · rw [beq_eq_false_iff_ne.mpr h]

theorem setField_same (h : fields.lookup key = some v) : setField fields key v = fields := by
  obtain ⟨before, after, rfl, -, hset⟩ := setField_of_some h
  exact hset v

theorem nodup_setField (h : (fields.map Prod.fst).Nodup) :
    ((setField fields key v).map Prod.fst).Nodup := by
  cases hkey : fields.lookup key with
  | some w =>
      obtain ⟨before, after, rfl, -, hset⟩ := setField_of_some hkey
      rw [hset]
      simpa using h
  | none =>
      rw [setField_of_none hkey, List.map_append]
      refine List.nodup_append.mpr ⟨h, List.nodup_singleton _, ?_⟩
      rintro name hname name' hmem rfl
      have hsame : name = key := List.mem_singleton.mp hmem
      exact lookup_isNone.mp hkey (hsame ▸ hname)

/-- The other items of an array stay; new ones before the last are `null`. -/
theorem assignKey_arr (h : assignKey (.arr items) key v = some j') : ∃ items', j' = .arr items' ∧
    key ≠ "length" ∧ (∀ i, arrayIndexOf key = some i → items'[i]? = some v) ∧
      (∀ i c, arrayIndexOf key ≠ some i → items[i]? = some c → items'[i]? = some c) ∧
        ∀ c ∈ items', c = v ∨ c ∈ items ∨ c = .null := by
  rw [assignKey] at h
  split at h
  next => cases h
  next hlength =>
    split at h
    next n hn =>
      split at h
      next hlt =>
        cases h
        refine ⟨_, rfl, hlength, fun i hi => ?_, fun i c hi hc => ?_, fun c hc => ?_⟩
        · rw [hn, Option.some.injEq] at hi
          subst hi
          exact List.getElem?_set_self hlt
        · have hne : n ≠ i := fun heq => hi (heq ▸ hn)
          rw [List.getElem?_set_ne hne]
          exact hc
        · exact (List.mem_or_eq_of_mem_set hc).elim (fun hc => Or.inr (Or.inl hc)) Or.inl
      next hle =>
        cases h
        refine ⟨_, rfl, hlength, fun i hi => ?_, fun i c hi hc => ?_, fun c hc => ?_⟩
        · rw [hn, Option.some.injEq] at hi
          subst hi
          have hlen : (items ++ List.replicate (n - items.length) Json.null).length = n := by
            rw [List.length_append, List.length_replicate]
            omega
          rw [List.getElem?_append_right (Nat.le_of_eq hlen), hlen, Nat.sub_self]
          rfl
        · have hlt := (List.getElem?_eq_some_iff.mp hc).1
          rw [List.append_assoc, List.getElem?_append_left hlt]
          exact hc
        · rw [List.mem_append, List.mem_append, List.mem_singleton] at hc
          rcases hc with (hc | hc) | hc
          · exact Or.inr (Or.inl hc)
          · exact Or.inr (Or.inr (List.eq_of_mem_replicate hc))
          · exact Or.inl hc
    next hnone =>
      cases h
      refine ⟨_, rfl, hlength, fun i hi => ?_, fun i c _ hc => hc, fun c hc => Or.inr (Or.inl hc)⟩
      rw [hnone] at hi
      cases hi

theorem ignores_arr : ignores (.arr items) key = true ↔ key ≠ "length" ∧ arrayIndexOf key = none := by
  rw [ignores, decide_eq_true_eq]

theorem assignKey_of_ignores (h : ignores j key = true) (c : Json) : assignKey j key c = some j := by
  cases j with
  | arr items =>
      obtain ⟨hlength, hindex⟩ := ignores_arr.mp h
      rw [assignKey, if_neg hlength, hindex]
  | _ => cases h

theorem ownChild_of_ignores (h : ignores j key = true) : ownChild j key = none := by
  cases j with
  | arr items =>
      show (arrayIndexOf key).bind _ = none
      rw [(ignores_arr.mp h).2]
      rfl
  | _ => cases h

theorem length_ne_index {i : ℕ} (h : arrayIndexOf key = some i) : key ≠ "length" := by
  rintro rfl
  exact absurd (isDigits_of_index h) (by decide)

/-- A key that is given what it has. -/
theorem assignKey_same (h : ownChild j key = some c) : assignKey j key c = some j := by
  cases j with
  | obj fields => rw [assignKey, setField_same h]
  | arr items =>
      obtain ⟨i, hi, hc⟩ := Option.bind_eq_some_iff.mp h
      obtain ⟨hlt, hget⟩ := List.getElem?_eq_some_iff.mp hc
      rw [assignKey, if_neg (length_ne_index hi), hi]
      simp only [if_pos hlt]
      rw [← hget, List.set_getElem_self]
  | _ => cases h

/-- What is assigned is found again. -/
theorem assignKey_found (hj : isContainer j = true) (h : assignKey j key c = some j') :
    ignores j' key = true ∨ ownChild j' key = some c := by
  cases j with
  | obj fields =>
      cases h
      right
      show (setField fields key c).lookup key = some c
      rw [lookup_setField, if_pos rfl]
  | arr items =>
      obtain ⟨items', rfl, hlength, hnew, -⟩ := assignKey_arr h
      cases hi : arrayIndexOf key with
      | none => exact Or.inl (ignores_arr.mpr ⟨hlength, hi⟩)
      | some i =>
          right
          show (arrayIndexOf key).bind _ = some c
          rw [hi]
          exact hnew i hi
  | _ => cases hj

theorem arrayIndexOf_inj {i : ℕ} (h : arrayIndexOf key = some i) (h' : arrayIndexOf key' = some i) :
    key = key' := by
  obtain ⟨heq, hi⟩ := Option.ite_none_right_eq_some.mp h
  obtain ⟨heq', hi'⟩ := Option.ite_none_right_eq_some.mp h'
  rw [← heq, ← heq', Option.some.inj hi, Option.some.inj hi']

/-- Other keys have what they had. -/
theorem assignKey_other (hne : key' ≠ key) (h : assignKey j key c = some j') :
    (ignores j key' = true → ignores j' key' = true) ∧
      ∀ child, ownChild j key' = some child → ownChild j' key' = some child := by
  cases j with
  | obj fields =>
      cases h
      refine ⟨nofun, fun child hchild => ?_⟩
      show (setField fields key c).lookup key' = some child
      rw [lookup_setField, if_neg hne]
      exact hchild
  | arr items =>
      obtain ⟨items', rfl, -, -, hold, -⟩ := assignKey_arr h
      refine ⟨id, fun child hchild => ?_⟩
      obtain ⟨i, hi, hget⟩ := Option.bind_eq_some_iff.mp hchild
      show (arrayIndexOf key').bind _ = some child
      rw [hi]
      refine hold i child (fun heq => hne ?_) hget
      exact arrayIndexOf_inj hi heq
  | _ =>
      cases h
      exact ⟨id, fun child hchild => hchild⟩

theorem setKeys_step (h : setKeys v j (key :: keys) = some j') : ∃ c, assignKey j key c = some j' ∧
    (keys = [] ∧ c = v ∨ keys ≠ [] ∧ setKeys v (below j key) keys = some c) := by
  by_cases hkeys : keys = []
  · subst hkeys
    exact ⟨v, h, Or.inl ⟨rfl, rfl⟩⟩
  · rw [setKeys_cons hkeys] at h
    obtain ⟨c, hc, hassign⟩ := Option.bind_eq_some_iff.mp h
    exact ⟨c, hassign, Or.inr ⟨hkeys, hc⟩⟩

theorem isContainer_assignKey (hj : isContainer j = true) (h : assignKey j key c = some j') :
    isContainer j' = true := by
  cases j with
  | obj fields =>
      cases h
      rfl
  | arr items =>
      obtain ⟨items', rfl, -⟩ := assignKey_arr h
      rfl
  | _ => cases hj

theorem isContainer_setKeys (hj : isContainer j = true) (h : setKeys v j keys = some j') :
    isContainer j' = true := by
  cases keys with
  | nil =>
      cases h
      exact hj
  | cons key keys =>
      obtain ⟨c, hassign, -⟩ := setKeys_step h
      exact isContainer_assignKey hj hassign

end Step

/-! ## What is under other paths -/

section Frame

variable {v w c j j' : Json} {key : String} {keys keys' : List String}
  {fields : List (String × Json)} {s : String}

theorem sub_scalar (hj : isContainer j = false) (hkeys : keys ≠ []) :
    j.sub (keys.map Step.key) = none := by
  cases keys with
  | nil => exact absurd rfl hkeys
  | cons key keys =>
      cases j with
      | obj fields => cases hj
      | arr items => cases hj
      | _ => rfl

theorem through_scalar (hj : isContainer j = false) : throughArray j keys = false := by
  cases j with
  | obj fields => cases hj
  | arr items => cases hj
  | _ => cases keys <;> rfl

theorem sub_empty (hkeys : keys ≠ []) : (Json.obj []).sub (keys.map Step.key) = none := by
  cases keys with
  | nil => exact absurd rfl hkeys
  | cons key keys => rfl

theorem through_empty : throughArray (.obj []) keys = false := by
  cases keys with
  | nil => rfl
  | cons key keys => rfl

/-- Where the writer goes on, the same is found as from the object above. -/
theorem below_obj (hkeys : keys ≠ []) :
    (below (.obj fields) key).sub (keys.map Step.key) = (Json.obj fields).sub ((key :: keys).map Step.key) ∧
      throughArray (below (.obj fields) key) keys = throughArray (.obj fields) (key :: keys) := by
  rw [List.map_cons, Json.sub_cons, throughArray]
  show _ = (ownChild (.obj fields) key).bind _ ∧ _ = (ownChild (.obj fields) key).any _
  cases hchild : ownChild (.obj fields) key with
  | none =>
      rw [below_of_none hchild, sub_empty hkeys, through_empty]
      exact ⟨rfl, rfl⟩
  | some child =>
      rw [Option.bind_some, Option.any_some]
      cases hc : isContainer child with
      | true =>
          rw [below_of_container hchild hc]
          exact ⟨rfl, rfl⟩
      | false =>
          rw [below_of_scalar hchild hc, sub_empty hkeys, through_empty, sub_scalar hc hkeys, through_scalar hc]
          exact ⟨rfl, rfl⟩

/-- A write changes nothing under a path that it does not overlap. -/
theorem setKeys_frame (hover : ¬ Overlap keys keys') (hj : isContainer j = true)
    (h : setKeys v j keys = some j') :
    j'.sub (keys'.map Step.key) = j.sub (keys'.map Step.key) ∧ throughArray j' keys' = throughArray j keys' := by
  induction keys generalizing j j' keys' with
  | nil => exact absurd (Or.inl List.nil_prefix) hover
  | cons key keys ih =>
      obtain ⟨-, hne⟩ := ne_nil_of_not_overlap hover
      obtain ⟨key', keys', rfl⟩ := List.exists_cons_of_ne_nil hne
      obtain ⟨c, hassign, hc⟩ := setKeys_step h
      cases j with
      | arr items =>
          obtain ⟨items', rfl, -⟩ := assignKey_arr hassign
          exact ⟨rfl, rfl⟩
      | obj fields =>
          cases hassign
          rw [List.map_cons, Json.sub_cons, Json.sub_cons, throughArray, throughArray]
          show ((setField fields key c).lookup key').bind _ = (fields.lookup key').bind _ ∧ _
          rw [lookup_setField]
          by_cases hkey : key' = key
          · subst hkey
            rw [overlap_cons, not_and] at hover
            obtain ⟨hkeys, hkeys'⟩ := ne_nil_of_not_overlap (hover rfl)
            obtain ⟨-, hc⟩ := hc.resolve_left fun hnil => hkeys hnil.1
            have hbelow := @below_obj key' keys' fields hkeys'
            obtain ⟨hsub, hthrough⟩ := ih (hover rfl) isContainer_below hc
            rw [if_pos rfl, Option.bind_some, Option.any_some, hsub, hthrough]
            exact hbelow
          · rw [if_neg hkey]
            exact ⟨rfl, rfl⟩
      | _ => cases hj

/-- A write that meets no array puts the value where its path ends. -/
theorem setKeys_found (hkeys : keys ≠ []) (h : throughArray (.obj fields) keys = false) :
    ∃ fields', setKeys v (.obj fields) keys = some (.obj fields') ∧
      (Json.obj fields').sub (keys.map Step.key) = some v := by
  induction keys generalizing fields with
  | nil => exact absurd rfl hkeys
  | cons key keys ih =>
      have hfound : ∀ c, (Json.obj (setField fields key c)).sub ((key :: keys).map Step.key) =
          c.sub (keys.map Step.key) := by
        intro c
        rw [List.map_cons, Json.sub_cons]
        show ((setField fields key c).lookup key).bind _ = _
        rw [lookup_setField, if_pos rfl]
        rfl
      by_cases hend : keys = []
      · subst hend
        exact ⟨setField fields key v, rfl, hfound v⟩
      · have hthrough := (@below_obj key keys fields hend).2
        rw [h] at hthrough
        obtain ⟨made, hmade⟩ : ∃ made, below (.obj fields) key = .obj made := by
          have hcontainer := @isContainer_below (.obj fields) key
          cases hb : below (.obj fields) key with
          | obj made => exact ⟨made, rfl⟩
          | arr items =>
              obtain ⟨key', keys, rfl⟩ := List.exists_cons_of_ne_nil hend
              rw [hb] at hthrough
              cases hthrough
          | _ =>
              rw [hb] at hcontainer
              cases hcontainer
        rw [hmade] at hthrough
        obtain ⟨fields', hset, hsub⟩ := ih hend hthrough
        refine ⟨setField fields key (.obj fields'), ?_, (hfound _).trans hsub⟩
        rw [setKeys_cons hend, hmade, hset]
        rfl

/-- A write that meets an array leaves it there. -/
theorem setKeys_through (h : throughArray j keys = true) (hset : setKeys v j keys = some j') :
    throughArray j' keys = true := by
  induction keys generalizing j j' with
  | nil => cases j <;> cases h
  | cons key keys ih =>
      obtain ⟨c, hassign, hc⟩ := setKeys_step hset
      cases j with
      | arr items =>
          obtain ⟨items', rfl, -⟩ := assignKey_arr hassign
          rfl
      | obj fields =>
          cases hassign
          have hkeys : keys ≠ [] := by
            rintro rfl
            rw [throughArray, Option.any_eq_true] at h
            obtain ⟨child, -, hchild⟩ := h
            cases child <;> cases hchild
          obtain ⟨-, hc⟩ := hc.resolve_left fun hnil => hkeys hnil.1
          rw [throughArray, lookup_setField, if_pos rfl, Option.any_some]
          exact ih ((@below_obj key keys fields hkeys).2.trans h) hc
      | _ => cases h

/-- No text under keys overlaps a path that meets an array. -/
theorem not_overlap_of_through (h : throughArray j keys = true)
    (htext : j.sub (keys'.map Step.key) = some (.str s)) : ¬ Overlap keys keys' := by
  induction keys generalizing j keys' with
  | nil => cases j <;> cases h
  | cons key keys ih =>
      cases keys' with
      | nil =>
          cases Option.some.inj htext
          cases h
      | cons key' keys' =>
          cases j with
          | obj fields =>
              rw [overlap_cons]
              rintro ⟨rfl, hover⟩
              rw [List.map_cons, Json.sub_cons] at htext
              obtain ⟨child, hchild, hrest⟩ := Option.bind_eq_some_iff.mp htext
              have hchild : fields.lookup key = some child := hchild
              rw [throughArray, hchild] at h
              exact ih h hrest hover
          | arr items => cases htext
          | _ => cases h

end Frame

/-! ## Writes that change nothing -/

section Kept

variable {v w c j j' : Json} {key : String} {keys keys' : List String}

theorem isContainer_of_kept (h : Kept v j (key :: keys)) : isContainer j = true := by
  rcases h with h | ⟨child, hchild, -⟩
  · cases j with
    | arr items => rfl
    | _ => cases h
  · cases j with
    | obj fields => rfl
    | arr items => rfl
    | _ => cases hchild

theorem setKeys_of_kept (hkeys : keys ≠ []) (h : Kept v j keys) : setKeys v j keys = some j := by
  induction keys generalizing j with
  | nil => exact absurd rfl hkeys
  | cons key keys ih =>
      by_cases hend : keys = []
      · subst hend
        rcases h with h | ⟨child, hchild, hv⟩
        · exact assignKey_of_ignores h v
        · have hv : child = v := hv
          subst hv
          exact assignKey_same hchild
      · rw [setKeys_cons hend]
        rcases h with h | ⟨child, hchild, hkept⟩
        · -- the array does not take what is made below
          rw [below_of_none (ownChild_of_ignores h)]
          obtain ⟨fields', hset, -⟩ := @setKeys_found v keys [] hend through_empty
          rw [hset]
          exact assignKey_of_ignores h _
        · obtain ⟨key', keys, rfl⟩ := List.exists_cons_of_ne_nil hend
          rw [below_of_container hchild (isContainer_of_kept hkept), ih hend hkept]
          exact assignKey_same hchild

/-- What has been written is kept. -/
theorem kept_of_setKeys (hkeys : keys ≠ []) (hj : isContainer j = true)
    (h : setKeys v j keys = some j') : Kept v j' keys := by
  induction keys generalizing j j' with
  | nil => exact absurd rfl hkeys
  | cons key keys ih =>
      obtain ⟨c, hassign, hc⟩ := setKeys_step h
      refine (assignKey_found hj hassign).imp_right fun hfound => ⟨c, hfound, ?_⟩
      rcases hc with ⟨rfl, rfl⟩ | ⟨hend, hc⟩
      · rfl
      · exact ih hend isContainer_below hc

/-- A write leaves alone what it does not overlap. -/
theorem Kept.frame (hover : ¬ Overlap keys keys') (hj : isContainer j = true)
    (h : setKeys w j keys = some j') (hkept : Kept v j keys') : Kept v j' keys' := by
  induction keys generalizing j j' keys' with
  | nil => exact absurd (Or.inl List.nil_prefix) hover
  | cons key keys ih =>
      obtain ⟨-, hne⟩ := ne_nil_of_not_overlap hover
      obtain ⟨key', keys', rfl⟩ := List.exists_cons_of_ne_nil hne
      obtain ⟨c, hassign, hc⟩ := setKeys_step h
      by_cases hkey : key' = key
      · subst hkey
        rw [overlap_cons, not_and] at hover
        obtain ⟨hkeys, hkeys'⟩ := ne_nil_of_not_overlap (hover rfl)
        obtain ⟨-, hc⟩ := hc.resolve_left fun hnil => hkeys hnil.1
        refine (assignKey_found hj hassign).imp_right fun hfound => ⟨c, hfound, ?_⟩
        rcases hkept with hkept | ⟨child, hchild, hkept⟩
        · -- a key that is not taken is not found
          rw [assignKey_of_ignores hkept c, Option.some.injEq] at hassign
          rw [← hassign, ownChild_of_ignores hkept] at hfound
          cases hfound
        · obtain ⟨key', keys', rfl⟩ := List.exists_cons_of_ne_nil hkeys'
          have hcontainer := isContainer_of_kept hkept
          rw [below_of_container hchild hcontainer] at hc
          exact ih (hover rfl) hcontainer hc hkept
      · obtain ⟨hignored, hold⟩ := assignKey_other hkey hassign
        rcases hkept with hkept | ⟨child, hchild, hkept⟩
        · exact Or.inl (hignored hkept)
        · exact Or.inr ⟨child, hold child hchild, hkept⟩

theorem ignores_of_same (h : j.SameValue j') (hkey : ignores j key = true) : ignores j' key = true := by
  cases j with
  | arr items =>
      have hhead := h.head
      cases j' with
      | arr items' => exact hkey
      | _ => cases hhead
  | _ => cases hkey

theorem ownChild_of_same (h : j.SameValue j') (hc : ownChild j key = some c) :
    ∃ c', ownChild j' key = some c' ∧ c.SameValue c' := by
  have hhead := h.head
  cases j with
  | obj fields =>
      cases j' with
      | obj fields' => exact @SameValue.child _ _ (.key key) c h hc
      | _ => cases hhead
  | arr items =>
      obtain ⟨i, hi, hget⟩ := Option.bind_eq_some_iff.mp hc
      cases j' with
      | arr items' =>
          obtain ⟨c', hc', hsame⟩ := @SameValue.child _ _ (.index i) c h hget
          refine ⟨c', ?_, hsame⟩
          show (arrayIndexOf key).bind _ = some c'
          rw [hi]
          exact hc'
      | _ => cases hhead
  | _ => cases hc

theorem Kept.of_same {s : String} (h : j.SameValue j') (hkept : Kept (.str s) j keys) :
    Kept (.str s) j' keys := by
  induction keys generalizing j j' with
  | nil => exact h.eq_str hkept
  | cons key keys ih =>
      rcases hkept with hkept | ⟨child, hchild, hkept⟩
      · exact Or.inl (ignores_of_same h hkept)
      · obtain ⟨child', hchild', hsame⟩ := ownChild_of_same h hchild
        exact Or.inr ⟨child', hchild', ih hsame hkept⟩

end Kept

/-! ## Keys stay unique -/

section Unique

variable {v c j j' : Json} {key : String} {keys : List String}

theorem ownChild_unique (hj : j.EachObject List.Nodup) (hc : ownChild j key = some c) :
    c.EachObject List.Nodup := by
  cases j with
  | obj fields => exact @Json.EachObject.child _ _ _ (.key key) hj hc
  | arr items =>
      obtain ⟨i, -, hget⟩ := Option.bind_eq_some_iff.mp hc
      exact @Json.EachObject.child _ _ _ (.index i) hj hget
  | _ => cases hc

theorem unique_empty : (Json.obj []).EachObject List.Nodup :=
  Json.eachObject_obj.mpr ⟨List.nodup_nil, nofun⟩

theorem eachObject_null {P : List String → Prop} : Json.null.EachObject P := by
  intro path fields hsub
  cases path with
  | nil => cases hsub
  | cons s path => cases hsub

theorem below_unique (hj : j.EachObject List.Nodup) : (below j key).EachObject List.Nodup := by
  unfold below
  cases h : (ownChild j key).filter isContainer with
  | none => exact unique_empty
  | some child => exact ownChild_unique hj (Option.filter_eq_some_iff.mp h).1

theorem assignKey_unique (hj : j.EachObject List.Nodup) (hc : c.EachObject List.Nodup)
    (h : assignKey j key c = some j') : j'.EachObject List.Nodup := by
  cases j with
  | obj fields =>
      cases h
      obtain ⟨hkeys, hall⟩ := Json.eachObject_obj.mp hj
      refine Json.eachObject_obj.mpr ⟨nodup_setField hkeys, fun name child hchild => ?_⟩
      rw [lookup_setField] at hchild
      split at hchild
      · cases hchild
        exact hc
      · exact hall name child hchild
  | arr items =>
      obtain ⟨items', rfl, -, -, -, hmem⟩ := assignKey_arr h
      refine Json.eachObject_arr.mpr fun item hitem => ?_
      rcases hmem item hitem with rfl | hold | rfl
      · exact hc
      · exact Json.eachObject_arr.mp hj item hold
      · exact eachObject_null
  | _ =>
      cases h
      exact hj

theorem setKeys_unique (hv : v.EachObject List.Nodup) (hj : j.EachObject List.Nodup)
    (h : setKeys v j keys = some j') : j'.EachObject List.Nodup := by
  induction keys generalizing j j' with
  | nil =>
      cases h
      exact hj
  | cons key keys ih =>
      obtain ⟨c, hassign, hc⟩ := setKeys_step h
      refine assignKey_unique hj ?_ hassign
      rcases hc with ⟨-, rfl⟩ | ⟨-, hc⟩
      · exact hv
      · exact ih (below_unique hj) hc

end Unique

/-! ## Many writes -/

def writeAll (j : Json) (ws : List (List String × String)) : Option Json :=
  ws.foldlM (fun j w => setKeys (.str w.2) j w.1) j

section Many

variable {j j' : Json} {fields : List (String × Json)} {keys : List String} {w l : List String × String}
  {ws : List (List String × String)}

theorem writeAll_cons : writeAll j (w :: ws) = (setKeys (.str w.2) j w.1).bind (writeAll · ws) :=
  List.foldlM_cons

theorem setKeys_obj {v : Json} (h : setKeys v (.obj fields) keys = some j') : ∃ fields', j' = .obj fields' := by
  cases keys with
  | nil =>
      cases h
      exact ⟨fields, rfl⟩
  | cons key keys =>
      obtain ⟨c, hassign, -⟩ := setKeys_step h
      cases hassign
      exact ⟨_, rfl⟩

theorem setKeys_text_unique {s : String} (hj : j.EachObject List.Nodup)
    (h : setKeys (.str s) j keys = some j') : j'.EachObject List.Nodup :=
  setKeys_unique eachObject_str hj h

/-- After one write: its own text, unless an array is in the way, and the texts it leaves alone. -/
theorem texts_setKeys (hkeys : w.1 ≠ []) (hunique : (Json.obj fields).EachObject List.Nodup)
    (h : setKeys (.str w.2) (.obj fields) w.1 = some j') :
    l ∈ texts j' ↔ (l = w ∧ throughArray (.obj fields) w.1 = false) ∨
      (l ∈ texts (.obj fields) ∧ ¬ Overlap w.1 l.1) := by
  obtain ⟨keys', s⟩ := l
  rw [mem_texts (setKeys_text_unique hunique h), mem_texts hunique]
  by_cases hover : Overlap w.1 keys'
  · constructor
    · intro htext
      left
      cases hthrough : throughArray (.obj fields) w.1 with
      | true => exact absurd hover (not_overlap_of_through (setKeys_through hthrough h) htext)
      | false =>
          obtain ⟨fields', hset, hfound⟩ := setKeys_found (v := .str w.2) hkeys hthrough
          rw [h, Option.some.injEq] at hset
          rw [← hset] at hfound
          have hsame : w.1 = keys' := hover.elim (Json.keys_eq_of_prefix hfound htext)
            fun hpre => (Json.keys_eq_of_prefix htext hfound hpre).symm
          rw [← hsame, hfound] at htext
          cases htext
          exact ⟨Prod.ext hsame.symm rfl, rfl⟩
    · rintro (⟨heq, hthrough⟩ | ⟨-, hnot⟩)
      · obtain ⟨fields', hset, hfound⟩ := setKeys_found (v := .str w.2) hkeys hthrough
        rw [h, Option.some.injEq] at hset
        rw [← heq] at hfound
        rw [hset]
        exact hfound
      · exact absurd hover hnot
  · rw [(setKeys_frame hover rfl h).1]
    constructor
    · exact fun htext => Or.inr ⟨htext, hover⟩
    · rintro (⟨heq, -⟩ | ⟨htext, -⟩)
      · exact absurd (heq ▸ overlap_refl) hover
      · exact htext

/-- Writes that do not overlap and meet no array are all found, beside the texts that they leave
alone. -/
theorem texts_writeAll (hkeys : ∀ w ∈ ws, w.1 ≠ []) (hunique : (Json.obj fields).EachObject List.Nodup)
    (hapart : ws.Pairwise fun w w' => ¬ Overlap w.1 w'.1)
    (hthrough : ∀ w ∈ ws, throughArray (.obj fields) w.1 = false) :
    ∃ fields', writeAll (.obj fields) ws = some (.obj fields') ∧ (Json.obj fields').EachObject List.Nodup ∧
      ∀ l, l ∈ texts (.obj fields') ↔
        l ∈ ws ∨ (l ∈ texts (.obj fields) ∧ ∀ w ∈ ws, ¬ Overlap w.1 l.1) := by
  induction ws generalizing fields with
  | nil => exact ⟨fields, rfl, hunique, fun l => by simp⟩
  | cons w ws ih =>
      rw [List.forall_mem_cons] at hkeys hthrough
      rw [List.pairwise_cons] at hapart
      obtain ⟨fields₁, hset, -⟩ := setKeys_found (v := .str w.2) hkeys.1 hthrough.1
      have hthrough₁ : ∀ w' ∈ ws, throughArray (.obj fields₁) w'.1 = false := by
        intro w' hw'
        rw [(setKeys_frame (hapart.1 w' hw') rfl hset).2]
        exact hthrough.2 w' hw'
      obtain ⟨fields', hall, hunique', htexts⟩ :=
        ih hkeys.2 (setKeys_text_unique hunique hset) hapart.2 hthrough₁
      refine ⟨fields', by rw [writeAll_cons, hset]; exact hall, hunique', fun l => ?_⟩
      rw [htexts, texts_setKeys hkeys.1 hunique hset, List.mem_cons, List.forall_mem_cons]
      constructor
      · rintro (hl | ⟨⟨heq, -⟩ | ⟨hold, hover⟩, hrest⟩)
        · exact Or.inl (Or.inr hl)
        · exact Or.inl (Or.inl heq)
        · exact Or.inr ⟨hold, hover, hrest⟩
      · rintro ((heq | hl) | ⟨hold, hover, hrest⟩)
        · refine Or.inr ⟨Or.inl ⟨heq, hthrough.1⟩, fun w' hw' hover => ?_⟩
          rw [heq] at hover
          exact hapart.1 w' hw' hover.symm
        · exact Or.inl hl
        · exact Or.inr ⟨Or.inr ⟨hold, hover⟩, hrest⟩

/-- Whatever was written: a text that is found was left alone by all writes, or it is that of a
write which met no array and which the later ones left alone. -/
theorem of_texts_writeAll (hkeys : ∀ w ∈ ws, w.1 ≠ []) (hunique : (Json.obj fields).EachObject List.Nodup)
    (h : writeAll (.obj fields) ws = some j') (hl : l ∈ texts j') :
    (l ∈ texts (.obj fields) ∧ ∀ w ∈ ws, ¬ Overlap w.1 l.1) ∨
      ∃ ws₁ ws₂ fields₁, ws = ws₁ ++ l :: ws₂ ∧ writeAll (.obj fields) ws₁ = some (.obj fields₁) ∧
        throughArray (.obj fields₁) l.1 = false ∧ ∀ w ∈ ws₂, ¬ Overlap w.1 l.1 := by
  induction ws generalizing fields with
  | nil =>
      cases h
      exact Or.inl ⟨hl, nofun⟩
  | cons w ws ih =>
      rw [List.forall_mem_cons] at hkeys
      rw [writeAll_cons] at h
      obtain ⟨j₁, hset, hrest⟩ := Option.bind_eq_some_iff.mp h
      obtain ⟨fields₁, rfl⟩ := setKeys_obj hset
      rcases ih hkeys.2 (setKeys_text_unique hunique hset) hrest with
        ⟨hold, hlater⟩ | ⟨ws₁, ws₂, fields₂, rfl, hfirst, hthrough, hlater⟩
      · rcases (texts_setKeys hkeys.1 hunique hset).mp hold with ⟨rfl, hthrough⟩ | ⟨hold, hover⟩
        · exact Or.inr ⟨[], ws, fields, rfl, rfl, hthrough, hlater⟩
        · exact Or.inl ⟨hold, List.forall_mem_cons.mpr ⟨hover, hlater⟩⟩
      · refine Or.inr ⟨w :: ws₁, ws₂, fields₂, rfl, ?_, hthrough, hlater⟩
        rw [writeAll_cons, hset]
        exact hfirst

/-- What all writes leave alone is found. -/
theorem mem_texts_writeAll (hkeys : ∀ w ∈ ws, w.1 ≠ []) (hunique : (Json.obj fields).EachObject List.Nodup)
    (h : writeAll (.obj fields) ws = some j') (hl : l ∈ texts (.obj fields))
    (hover : ∀ w ∈ ws, ¬ Overlap w.1 l.1) : l ∈ texts j' := by
  induction ws generalizing fields with
  | nil =>
      cases h
      exact hl
  | cons w ws ih =>
      rw [List.forall_mem_cons] at hkeys hover
      rw [writeAll_cons] at h
      obtain ⟨j₁, hset, hrest⟩ := Option.bind_eq_some_iff.mp h
      obtain ⟨fields₁, rfl⟩ := setKeys_obj hset
      refine ih hkeys.2 (setKeys_text_unique hunique hset) hrest ?_ hover.2
      exact (texts_setKeys hkeys.1 hunique hset).mpr (Or.inr ⟨hl, hover.1⟩)

theorem writeAll_unique (hunique : j.EachObject List.Nodup) (h : writeAll j ws = some j') :
    j'.EachObject List.Nodup := by
  induction ws generalizing j with
  | nil =>
      cases h
      exact hunique
  | cons w ws ih =>
      rw [writeAll_cons] at h
      obtain ⟨j₁, hset, hrest⟩ := Option.bind_eq_some_iff.mp h
      exact ih (setKeys_text_unique hunique hset) hrest

theorem writeAll_obj (h : writeAll (.obj fields) ws = some j') : ∃ fields', j' = .obj fields' := by
  induction ws generalizing fields with
  | nil =>
      cases h
      exact ⟨fields, rfl⟩
  | cons w ws ih =>
      rw [writeAll_cons] at h
      obtain ⟨j₁, hset, hrest⟩ := Option.bind_eq_some_iff.mp h
      obtain ⟨fields₁, rfl⟩ := setKeys_obj hset
      exact ih hrest

theorem throughArray_writeAll (hover : ∀ w ∈ ws, ¬ Overlap w.1 keys)
    (h : writeAll (.obj fields) ws = some j') : throughArray j' keys = throughArray (.obj fields) keys := by
  induction ws generalizing fields with
  | nil =>
      cases h
      rfl
  | cons w ws ih =>
      rw [List.forall_mem_cons] at hover
      rw [writeAll_cons] at h
      obtain ⟨j₁, hset, hrest⟩ := Option.bind_eq_some_iff.mp h
      obtain ⟨fields₁, rfl⟩ := setKeys_obj hset
      rw [ih hover.2 hrest, (setKeys_frame hover.1 rfl hset).2]

end Many

end RedFireForge.ApiMock
