/-
# `RedFireForge.Mapper.BodyRoundTrip` — what comes back of a body and of its mappings

A body comes back as it was if each of its texts with placeholders consists of nothing else and
stands where its dotted path is written.  A list of mappings comes back if its paths are spelled as
those of leaves are, do not lead through each other or into an array, and take the place of all
placeholders that the body had: writing removes none.
-/
import RedFireForge.Lib.Text
import RedFireForge.Mapper.BodyTemplate

namespace RedFireForge.Mapper.Body

open RedFireForge.Lib
open RedFireForge.Lib.Json (texts mem_texts nodup_texts)
open RedFireForge.ApiMock

/-! ## References in a text -/

section Refs

variable {ref inner cs : List Char} {n : ℕ}

/-- A reference as a placeholder keeps it. -/
def IsRef (ref : List Char) : Prop := ref ≠ [] ∧ '}' ∉ ref ∧ trim ref = ref

theorem trim_sublist (cs : List Char) : (trim cs).Sublist cs :=
  (List.rdropWhile_prefix isSpace _).sublist.trans (List.dropWhile_suffix isSpace).sublist

theorem matchRef_plain (h : matchRef cs = some inner) : '}' ∉ inner := by
  unfold matchRef at h
  split at h
  next cs =>
    dsimp only at h
    split at h
    next =>
      cases h
      intro hmem
      simpa using List.mem_takeWhile_imp hmem
    next => cases h
  next => cases h

theorem isRef_of_mem (h : ref ∈ refsFrom n cs) : IsRef ref := by
  induction cs generalizing n with
  | nil => cases n <;> cases h
  | cons c cs ih =>
      cases n with
      | succ n => exact ih h
      | zero =>
          rw [refsFrom] at h
          split at h
          next inner hmatch =>
            split at h
            next hne =>
              rcases List.mem_cons.mp h with rfl | h
              · refine ⟨hne, fun hmem => ?_, trimBy_trimBy⟩
                exact matchRef_plain hmatch ((trim_sublist inner).subset hmem)
              · exact ih h
            next => exact ih h
          next => exact ih h

theorem refsFrom_skip (xs rest : List Char) : refsFrom xs.length (xs ++ rest) = refsFrom 0 rest := by
  induction xs with
  | nil => rfl
  | cons x xs ih => exact ih

theorem matchRef_placeholder (h : IsRef ref) (rest : List Char) :
    matchRef (placeholder ref ++ rest) = some ref := by
  have htake : (ref ++ '}' :: '}' :: rest).takeWhile (· ≠ '}') = ref := by
    rw [List.takeWhile_append_of_pos fun c hc => ?_]
    · simp
    · exact decide_eq_true fun heq => h.2.1 (heq ▸ hc)
  rw [placeholder, List.cons_append, List.cons_append, List.append_assoc, matchRef]
  simp only [List.cons_append, List.nil_append, htake, List.drop_left]
  exact if_pos ⟨h.1, rfl⟩

theorem refsFrom_placeholder (h : IsRef ref) (rest : List Char) :
    refsFrom 0 (placeholder ref ++ rest) = ref :: refsFrom 0 rest := by
  have hmatch := matchRef_placeholder h rest
  have hlen : (placeholder ref).tail.length = ref.length + 3 := by simp [placeholder]
  have hskip := refsFrom_skip (placeholder ref).tail rest
  rw [hlen] at hskip
  have hcons : placeholder ref ++ rest = '{' :: ((placeholder ref).tail ++ rest) := rfl
  rw [hcons] at hmatch ⊢
  rw [refsFrom, hmatch]
  simp only [h.2.2]
  rw [if_pos h.1, hskip]

/-- Placeholders one after the other are read as they were written. -/
theorem extract_placeholders {refs : List (List Char)} (h : ∀ ref ∈ refs, IsRef ref) :
    extractBodyTemplateRefs (refs.flatMap placeholder) = refs := by
  induction refs with
  | nil => rfl
  | cons ref refs ih =>
      rw [List.forall_mem_cons] at h
      rw [List.flatMap_cons, extractBodyTemplateRefs, refsFrom_placeholder h.1]
      exact congrArg _ (ih h.2)

end Refs

/-! ## Leaves -/

section Leaves

/-- The references in a text. -/
def refs (s : String) : List (List Char) := extractBodyTemplateRefs s.toList

theorem isRef_of_refs {s : String} {ref : List Char} (h : ref ∈ refs s) : IsRef ref := isRef_of_mem h

def leafText : List Char × Json → Option (List Char × String)
  | (path, .str s) => some (path, s)
  | _ => none

mutual
/-- The texts among the leaves are those under keys. -/
theorem leaves_texts : ∀ (j : Json) (segments : List String),
    segments ≠ [] ∨ (∃ fields, j = .obj fields) →
      (collectBodyLeafPaths segments j).filterMap leafText =
        (texts j).map fun l => (buildPath (segments ++ l.1), l.2)
  | .obj fields, segments, _ => by
      rw [collectBodyLeafPaths, texts]
      split
      next hempty =>
        rw [List.isEmpty_iff.mp hempty.1]
        rfl
      next => exact fields_texts fields segments
  | .str s, segments, h => by
      have hne : segments ≠ [] := h.resolve_right nofun
      rw [collectBodyLeafPaths, if_pos hne, texts, List.map_singleton, List.append_nil]
      rfl
  | .arr items, segments, _ => rfl
  | .null, segments, h | .bool _, segments, h | .num _, segments, h => by
      have hne : segments ≠ [] := h.resolve_right nofun
      rw [collectBodyLeafPaths, if_pos hne]
      rfl

theorem fields_texts : ∀ (fields : List (String × Json)) (segments : List String),
    (collectFieldPaths segments fields).filterMap leafText =
      (Json.fieldTexts fields).map fun l => (buildPath (segments ++ l.1), l.2)
  | [], _ => rfl
  | (key, j) :: fields, segments => by
      have hne : segments ++ [key] ≠ [] := List.append_ne_nil_of_right_ne_nil _ (List.cons_ne_nil _ _)
      rw [collectFieldPaths, List.filterMap_append, leaves_texts j _ (.inl hne), fields_texts fields,
        Json.fieldTexts, List.map_append, List.map_map]
      simp only [Function.comp_def, List.append_assoc, List.singleton_append]
end

variable {fields : List (String × Json)}

theorem body_texts : (collectBodyLeafPaths [] (.obj fields)).filterMap leafText =
    (texts (.obj fields)).map fun l => (buildPath l.1, l.2) :=
  leaves_texts (.obj fields) [] (.inr ⟨fields, rfl⟩)

theorem flatMap_filterMap {α β γ : Type} {g : α → List γ} (f : α → Option β) (g' : β → List γ)
    (h : ∀ a, g a = ((f a).map g').getD []) (l : List α) :
    l.flatMap g = (l.filterMap f).flatMap g' := by
  induction l with
  | nil => rfl
  | cons a l ih =>
      rw [List.flatMap_cons, ih, h, List.filterMap_cons]
      cases f a <;> simp

/-- The references of a body, each with the path of its leaf. -/
def found (ls : List (List String × String)) : List (List Char × List Char) :=
  ls.flatMap fun l => (refs l.2).map fun ref => (buildPath l.1, ref)

theorem leafRefs_body : (collectBodyLeafPaths [] (.obj fields)).flatMap leafRefs =
    found (texts (.obj fields)) := by
  rw [flatMap_filterMap leafText (fun t => (refs t.2).map fun ref => (t.1, ref)) ?_, body_texts, List.flatMap_map, found]
  rintro ⟨path, j⟩
  cases j <;> rfl

end Leaves

/-! ## What is written -/

section Written

/-- What a mapping says: a reference for a path. -/
def pair (m : Mapping) : List Char × List Char := (m.targetPath, m.ref)

def pairs (ms : List Mapping) : List (List Char × List Char) := ms.map pair

/-- The references for a path. -/
def refsFor (path : List Char) (ps : List (List Char × List Char)) : List (List Char) :=
  (ps.filter fun q => decide (q.1 = path ∧ q.2 ≠ [])).map Prod.snd

/-- The path is one that `setByPath` writes to. -/
def Writable (path : List Char) : Prop := pathKeys path ≠ [] ∧ ∀ key ∈ pathKeys path, key ∉ unsafeKeys

/-- The path is spelled as that of a leaf. -/
def PlainPath (path : List Char) : Prop := Writable path ∧ buildPath (pathKeys path) = path

instance (path : List Char) : Decidable (Writable path) := inferInstanceAs (Decidable (_ ∧ _))

instance (path : List Char) : Decidable (PlainPath path) := inferInstanceAs (Decidable (_ ∧ _))

variable {ms : List Mapping} {m : Mapping} {path ref : List Char} {fields : List (String × Json)}
  {v : Json}

theorem pathKeys_blank (h : trim path = []) : pathKeys path = [] := by
  have hstrip : stripJsonPathPrefix path = path := by
    cases path with
    | nil => rfl
    | cons c cs =>
        have hspace : isSpace c = true := trimBy_eq_nil_iff.mp h c List.mem_cons_self
        have hc : c ≠ '$' := by
          rintro rfl
          exact absurd hspace (by decide)
        unfold stripJsonPathPrefix
        split
        next heq => exact absurd (List.cons.inj heq).1 hc
        next heq => exact absurd (List.cons.inj heq).1 hc
        next => rfl
  rw [pathKeys, hstrip]
  exact if_pos h

theorem Writable.trim_ne (h : Writable path) : trim path ≠ [] := fun hblank => h.1 (pathKeys_blank hblank)

theorem setByPath_of_writable (h : Writable path) (j : Json) :
    setByPath j path v = setKeys v j (pathKeys path) := by
  rw [setByPath, if_neg]
  rw [List.any_eq_true]
  rintro ⟨key, hkey, hunsafe⟩
  exact h.2 key hkey (of_decide_eq_true hunsafe)

theorem setByPath_of_not_writable (h : ¬ Writable path) (j : Json) : setByPath j path v = some j := by
  rw [setByPath]
  split
  next => rfl
  next hsafe =>
    have hkeys : pathKeys path = [] := by
      by_contra hne
      refine h ⟨hne, fun key hkey hunsafe => hsafe ?_⟩
      exact List.any_eq_true.mpr ⟨key, hkey, decide_eq_true hunsafe⟩
    rw [hkeys, setKeys]

theorem trim_ref (m : Mapping) : trim m.ref = m.ref := by
  unfold Mapping.ref
  dsimp only
  split
  · exact trimBy_trimBy
  · exact trimBy_trimBy

theorem mem_refsFor : ref ∈ refsFor path (pairs ms) ↔
    ∃ m ∈ ms, m.targetPath = path ∧ m.ref = ref ∧ ref ≠ [] := by
  simp only [refsFor, pairs, List.mem_map, List.mem_filter, decide_eq_true_eq]
  constructor
  · rintro ⟨q, ⟨⟨m, hm, rfl⟩, hpath, hne⟩, rfl⟩
    exact ⟨m, hm, hpath, rfl, hne⟩
  · rintro ⟨m, hm, hpath, rfl, hne⟩
    exact ⟨pair m, ⟨⟨m, hm, rfl⟩, hpath, hne⟩, rfl⟩

theorem placeholdersByTarget_eq (ms : List Mapping) : placeholdersByTarget ms =
    joinedOf Mapping.targetPath (fun m => placeholder m.ref)
      (ms.filter fun m => !decide (trim m.targetPath = [] ∨ m.ref = [])) := by
  rw [joinedOf, List.foldl_filter, placeholdersByTarget]
  refine congrFun (congrFun (congrArg _ ?_) _) _
  funext made m
  by_cases h : trim m.targetPath = [] ∨ m.ref = []
  · rw [if_pos h, if_neg (by simp [h])]
  · rw [if_neg h, if_pos (by simp [h])]

theorem lookup_placeholders : (placeholdersByTarget ms).lookup path =
    if trim path = [] ∨ refsFor path (pairs ms) = [] then none
    else some ((refsFor path (pairs ms)).flatMap placeholder) := by
  have hrefs : trim path ≠ [] →
      ((ms.filter fun m => !decide (trim m.targetPath = [] ∨ m.ref = [])).filter
        (·.targetPath = path)).map Mapping.ref = refsFor path (pairs ms) := by
    intro hblank
    rw [refsFor, pairs, List.filter_map, List.map_map, List.filter_filter]
    refine congrArg _ (List.filter_congr fun m _ => ?_)
    by_cases hpath : m.targetPath = path
    · simp [pair, hpath, hblank]
    · simp [pair, hpath]
  rw [placeholdersByTarget_eq, lookup_joinedOf]
  by_cases hblank : trim path = []
  · rw [if_pos (Or.inl hblank), if_pos]
    rw [List.filter_filter, List.filter_eq_nil_iff]
    intro m _
    simp +contextual [hblank]
  · rw [← hrefs hblank, List.flatMap_map]
    simp only [hblank, false_or, List.map_eq_nil_iff]

end Written

/-! ## The writes of plain paths -/

section Writes

variable {ms : List Mapping} {path : List Char} {fields : List (String × Json)}
  {w : List String × String}

/-- What is written where, target by target. -/
def writesOf (ms : List Mapping) : List (List String × String) :=
  (placeholdersByTarget ms).entries.map fun e => (pathKeys e.1, String.ofList e.2)

theorem entry_eq {e : (_ : List Char) × List Char} (he : e ∈ (placeholdersByTarget ms).entries) :
    trim e.1 ≠ [] ∧ refsFor e.1 (pairs ms) ≠ [] ∧ (refsFor e.1 (pairs ms)).flatMap placeholder = e.2 := by
  obtain ⟨path, v⟩ := e
  have hlookup := InsertionMap.mem_entries.mp he
  rw [lookup_placeholders] at hlookup
  split at hlookup
  · cases hlookup
  next hne => exact ⟨(not_or.mp hne).1, (not_or.mp hne).2, Option.some.inj hlookup⟩

theorem mem_writesOf : w ∈ writesOf ms ↔ ∃ path, trim path ≠ [] ∧ refsFor path (pairs ms) ≠ [] ∧
    (pathKeys path, String.ofList ((refsFor path (pairs ms)).flatMap placeholder)) = w := by
  rw [writesOf, List.mem_map]
  constructor
  · rintro ⟨e, he, rfl⟩
    obtain ⟨hblank, hrefs, hv⟩ := entry_eq he
    exact ⟨e.1, hblank, hrefs, by rw [hv]⟩
  · rintro ⟨path, hblank, hrefs, rfl⟩
    refine ⟨⟨path, (refsFor path (pairs ms)).flatMap placeholder⟩, InsertionMap.mem_entries.mpr ?_, rfl⟩
    rw [lookup_placeholders, if_neg (not_or.mpr ⟨hblank, hrefs⟩)]

theorem foldlM_congr_mem {α β : Type} {f g : β → α → Option β} {l : List α}
    (h : ∀ a ∈ l, ∀ b, f b a = g b a) (b : β) : l.foldlM f b = l.foldlM g b := by
  induction l generalizing b with
  | nil => rfl
  | cons a l ih =>
      rw [List.forall_mem_cons] at h
      rw [List.foldlM_cons, List.foldlM_cons, h.1]
      exact bind_congr fun b' => ih h.2 b'

theorem buildBody_eq (hplain : ∀ m ∈ ms, Writable m.targetPath) :
    buildBody ms fields = writeAll (.obj fields) (writesOf ms) := by
  rw [buildBody, writeAll, writesOf, List.foldlM_map]
  refine foldlM_congr_mem (fun e he j => setByPath_of_writable ?_ j) _
  obtain ⟨ref, href⟩ := List.exists_mem_of_ne_nil _ (entry_eq he).2.1
  obtain ⟨m, hm, hpath, -⟩ := mem_refsFor.mp href
  exact hpath ▸ hplain m hm

/-- Different targets, one write each. -/
theorem pairwise_writesOf {R : List String × String → List String × String → Prop}
    (h : ∀ path path' v v', path ≠ path' → refsFor path (pairs ms) ≠ [] → refsFor path' (pairs ms) ≠ [] →
      R (pathKeys path, v) (pathKeys path', v')) : (writesOf ms).Pairwise R := by
  have hkeys : (placeholdersByTarget ms).entries.Pairwise fun e e' => e.1 ≠ e'.1 :=
    List.pairwise_map.mp (placeholdersByTarget ms).nodupKeys
  rw [writesOf, List.pairwise_map]
  refine hkeys.imp_of_mem fun {e e'} he he' hne => ?_
  exact h e.1 e'.1 _ _ hne (entry_eq he).2.1 (entry_eq he').2.1

theorem isRef_refsFor (hrefs : ∀ m ∈ ms, m.ref ≠ [] ∧ '}' ∉ m.ref) :
    ∀ ref ∈ refsFor path (pairs ms), IsRef ref := by
  intro ref href
  obtain ⟨m, hm, -, rfl, hne⟩ := mem_refsFor.mp href
  exact ⟨hne, (hrefs m hm).2, trim_ref m⟩

theorem refs_written (hrefs : ∀ m ∈ ms, m.ref ≠ [] ∧ '}' ∉ m.ref) :
    refs (String.ofList ((refsFor path (pairs ms)).flatMap placeholder)) = refsFor path (pairs ms) := by
  rw [refs, String.toList_ofList, extract_placeholders (isRef_refsFor hrefs)]

/-- Where every path is plain, what is written is what the mappings say. -/
theorem found_writesOf (hrefs : ∀ m ∈ ms, m.ref ≠ [] ∧ '}' ∉ m.ref)
    (hplain : ∀ m ∈ ms, PlainPath m.targetPath) : (found (writesOf ms)).Perm (pairs ms) := by
  have hentry : ∀ e ∈ (placeholdersByTarget ms).entries,
      ((refs (String.ofList e.2)).map fun ref => (buildPath (pathKeys e.1), ref)) =
        (pairs ms).filter (·.1 = e.1) := by
    intro e he
    obtain ⟨-, hne, hv⟩ := entry_eq he
    obtain ⟨ref, href⟩ := List.exists_mem_of_ne_nil _ hne
    obtain ⟨m, hm, hpath, -⟩ := mem_refsFor.mp href
    rw [← hv, refs_written hrefs, ← hpath, (hplain m hm).2, refsFor, List.map_map]
    have hsame : (pairs ms).filter (fun q => decide (q.1 = m.targetPath ∧ q.2 ≠ [])) =
        (pairs ms).filter (·.1 = m.targetPath) := by
      refine List.filter_congr fun q hq => ?_
      obtain ⟨m', hm', rfl⟩ := List.mem_map.mp hq
      exact decide_eq_decide.mpr ⟨And.left, fun heq => ⟨heq, (hrefs m' hm').1⟩⟩
    rw [hsame]
    refine (List.map_congr_left fun q hq => ?_).trans (List.map_id _)
    exact Prod.ext (of_decide_eq_true (List.mem_filter.mp hq).2).symm rfl
  have hall : ∀ q ∈ pairs ms, q.1 ∈ (placeholdersByTarget ms).entries.keys := by
    intro q hq
    obtain ⟨m, hm, rfl⟩ := List.mem_map.mp hq
    have href : m.ref ∈ refsFor m.targetPath (pairs ms) := mem_refsFor.mpr ⟨m, hm, rfl, rfl, (hrefs m hm).1⟩
    have hlookup : (placeholdersByTarget ms).lookup m.targetPath ≠ none := by
      rw [lookup_placeholders, if_neg (not_or.mpr ⟨(hplain m hm).1.trim_ne, List.ne_nil_of_mem href⟩)]
      exact Option.some_ne_none _
    exact AList.mem_keys.mp (by_contra fun hmem => hlookup (AList.lookup_eq_none.mpr hmem))
  have hperm := flatMap_groups_perm (placeholdersByTarget ms).nodupKeys hall
  rw [List.keys, List.flatMap_map] at hperm
  rw [found, writesOf, List.flatMap_map, List.flatMap_congr hentry]
  exact hperm

end Writes

/-! ## Mappings that are taken again -/

section Reuse

variable {opts : BodySyncOptions} {path : List Char} {candidates current : List Mapping}
  {rs : List (List Char)} {used : List String} {n : ℕ}

/-- No mapping is taken for a reference of another one, or all are found in their order. -/
def Own (ms : List Mapping) : Prop :=
  (∀ m ∈ ms, ∀ m' ∈ ms, m.targetPath = m'.targetPath → m.sourcePath = m'.ref → m.ref = m'.ref) ∨
    ((ms.map Mapping.id).Nodup ∧ ∀ m ∈ ms, m.sourcePath = m.ref ∨ m.expression = some m.ref)

theorem pair_fresh {ref : List Char} (h : IsRef ref) : pair (opts.fresh path n ref) = (path, ref) := by
  have href : (opts.fresh path n ref).ref = trim ref := rfl
  rw [pair, href, h.2.2]
  rfl

theorem ref_of_expression {m : Mapping} {ref : List Char} (h : IsRef ref) (hm : m.expression = some ref) :
    m.ref = ref := by
  unfold Mapping.ref
  rw [hm, Option.getD_some, h.2.2]
  exact if_pos h.1

/-- Whatever is taken again says what was asked for. -/
theorem pairs_reuse (hrs : ∀ ref ∈ rs, IsRef ref)
    (hown : ∀ m ∈ candidates, m.targetPath = path ∧ ∀ ref ∈ rs, m.sourcePath = ref → m.ref = ref) :
    pairs (reuse (opts.fresh path) candidates used n rs) = rs.map fun ref => (path, ref) := by
  induction rs generalizing used n with
  | nil => rfl
  | cons ref rs ih =>
      rw [List.forall_mem_cons] at hrs
      have hrest : ∀ m ∈ candidates, m.targetPath = path ∧ ∀ ref ∈ rs, m.sourcePath = ref → m.ref = ref :=
        fun m hm => ⟨(hown m hm).1, fun ref href => (hown m hm).2 ref (List.mem_cons_of_mem _ href)⟩
      rw [reuse, List.map_cons]
      split
      next m hfind =>
        obtain ⟨-, hsays⟩ := of_decide_eq_true (List.find?_some hfind :)
        obtain ⟨hpath, hsource⟩ := hown m (List.mem_of_find?_eq_some hfind)
        have href : m.ref = ref :=
          hsays.elim (hsource ref List.mem_cons_self) (ref_of_expression hrs.1)
        rw [pairs, List.map_cons, pair, hpath, href]
        exact congrArg _ (ih hrs.2 hrest)
      next =>
        rw [pairs, List.map_cons, pair_fresh hrs.1]
        exact congrArg _ (ih hrs.2 hrest)

/-- Mappings with different identifiers that spell their references are taken one after the other. -/
theorem reuse_inOrder {done rest : List Mapping} (hids : ((done ++ rest).map Mapping.id).Nodup)
    (hspelled : ∀ m ∈ rest, m.sourcePath = m.ref ∨ m.expression = some m.ref)
    (hused : ∀ id, id ∈ used ↔ id ∈ done.map Mapping.id) :
    reuse (opts.fresh path) (done ++ rest) used n (rest.map Mapping.ref) = rest := by
  induction rest generalizing done used n with
  | nil => rfl
  | cons m rest ih =>
      rw [List.forall_mem_cons] at hspelled
      have hdone : done.find? (fun m' =>
          decide (m'.id ∉ used ∧ (m'.sourcePath = m.ref ∨ m'.expression = some m.ref))) = none := by
        refine List.find?_eq_none.mpr fun m' hm' hsays => ?_
        exact (of_decide_eq_true hsays).1 ((hused _).mpr (List.mem_map_of_mem hm'))
      have hfresh : m.id ∉ used := by
        rw [hused]
        rw [List.map_append, List.nodup_append] at hids
        exact fun hmem => hids.2.2 m.id hmem m.id (List.mem_map_of_mem List.mem_cons_self) rfl
      have hfound : (m :: rest).find? (fun m' =>
          decide (m'.id ∉ used ∧ (m'.sourcePath = m.ref ∨ m'.expression = some m.ref))) = some m := by
        rw [List.find?_cons, decide_eq_true ⟨hfresh, hspelled.1⟩]
      rw [List.map_cons, reuse, List.find?_append, hdone, hfound, Option.none_or]
      dsimp only
      have hnext := @ih (m.id :: used) (n + 1) (done ++ [m])
      rw [List.append_assoc, List.singleton_append] at hnext
      refine congrArg _ (hnext hids hspelled.2 fun id => ?_)
      rw [List.mem_cons, hused, List.map_append, List.mem_append, List.map_singleton,
        List.mem_singleton, or_comm]

theorem candidates_eq : ((groupsOf Mapping.targetPath current).lookup path).getD [] =
    current.filter (·.targetPath = path) := by
  rw [lookup_groupsOf]
  split
  next hnil => exact hnil.symm
  next => rfl

/-- The mappings of a body, if each leaf finds those it asks for. -/
theorem pairs_syncLeaf {leaves : List (List Char × Json)} {made : List Mapping}
    (h : ∀ t ∈ leaves.filterMap leafText, ∀ n, pairs (reuse (opts.fresh t.1)
      (current.filter (·.targetPath = t.1)) [] n (refs t.2)) = (refs t.2).map fun ref => (t.1, ref)) :
    pairs (leaves.foldl (syncLeaf opts current) made) =
      pairs made ++ (leaves.filterMap leafText).flatMap fun t => (refs t.2).map fun ref => (t.1, ref) := by
  induction leaves generalizing made with
  | nil => simp
  | cons leaf leaves ih =>
      obtain ⟨path, j⟩ := leaf
      rw [List.foldl_cons]
      cases j with
      | str s =>
          have hcons : ((path, Json.str s) :: leaves).filterMap leafText =
              (path, s) :: leaves.filterMap leafText := rfl
          rw [hcons, List.forall_mem_cons] at h
          rw [ih h.2, hcons, List.flatMap_cons, ← List.append_assoc]
          refine congrArg (· ++ _) ?_
          rw [syncLeaf, candidates_eq, pairs, List.map_append]
          exact congrArg _ (h.1 _)
      | _ => exact ih h

end Reuse

/-! ## The mappings come back -/

section Synced

variable {p : JsonReader} {opts : BodySyncOptions} {body : String} {ms current : List Mapping}
  {fields : List (String × Json)} {path : List Char} {n : ℕ}

/-- From the body that it has written the mapper reads what it was given. -/
def Synced (p : JsonReader) (opts : BodySyncOptions) (newMappings : List Mapping) (body : String)
    (current : List Mapping) : Prop :=
  ∃ r, syncFromVisual p newMappings body = some r ∧
    (pairs (syncFromTemplate p opts r.body current).mappings).Perm (pairs newMappings)

/-- The mappings take the place of all placeholders, and none takes that of another. -/
structure Meets (ms : List Mapping) (j : Json) : Prop where
  ref_plain : ∀ m ∈ ms, m.ref ≠ [] ∧ '}' ∉ m.ref
  path_plain : ∀ m ∈ ms, PlainPath m.targetPath
  apart : ∀ m ∈ ms, ∀ m' ∈ ms,
    Overlap (pathKeys m.targetPath) (pathKeys m'.targetPath) → m.targetPath = m'.targetPath
  open_way : ∀ m ∈ ms, throughArray j (pathKeys m.targetPath) = false
  replaced : ∀ l ∈ texts j, refs l.2 ≠ [] → ∃ m ∈ ms, Overlap (pathKeys m.targetPath) l.1
  own : Own ms

/-- Paths, those of the mappings and those of the placeholders in the body, are spelled as the keys
that they lead through. -/
structure Spelled (ms : List Mapping) (j : Json) : Prop where
  path_plain : ∀ m ∈ ms, PlainPath m.targetPath
  leaf_plain : ∀ l ∈ texts j, refs l.2 ≠ [] → pathKeys (buildPath l.1) = l.1
  own : Own ms

theorem parseBodyJson_eq : parseBodyJson p body = some fields ↔ p.parse body = some (.obj fields) := by
  unfold parseBodyJson
  split
  next hblank =>
    rw [p.blank body hblank]
    exact iff_of_false nofun nofun
  next =>
    split
    next fields' hparse =>
      rw [hparse]
      simp
    next hnot =>
      refine iff_of_false nofun fun h => ?_
      exact hnot fields h

theorem read_pretty (h : (Json.obj fields).EachObject List.Nodup) :
    ∃ fields', parseBodyJson p (Json.pretty (.obj fields)) = some fields' ∧
      (Json.obj fields).SameValue (.obj fields') ∧ (Json.obj fields').EachObject List.Nodup := by
  obtain ⟨j, hparse, hsame⟩ := p.pretty _ h
  have hhead := hsame.head
  cases j with
  | obj fields' => exact ⟨fields', parseBodyJson_eq.mpr hparse, hsame, p.unique _ _ hparse⟩
  | _ => cases hhead

theorem refsFor_eq (hrefs : ∀ m ∈ ms, m.ref ≠ [] ∧ '}' ∉ m.ref) :
    refsFor path (pairs ms) = (ms.filter (·.targetPath = path)).map Mapping.ref := by
  rw [refsFor, pairs, List.filter_map, List.map_map]
  refine congrArg _ (List.filter_congr fun m hm => ?_)
  exact decide_eq_decide.mpr ⟨And.left, fun h => ⟨h, (hrefs m hm).1⟩⟩

/-- Whether the mapper was just opened or knows the mappings, it makes of a text what they say. -/
theorem pairs_reuse_current (hcur : current = [] ∨ current = ms) (hown : Own ms)
    (hrefs : ∀ m ∈ ms, m.ref ≠ [] ∧ '}' ∉ m.ref) :
    pairs (reuse (opts.fresh path) (current.filter (·.targetPath = path)) [] n (refsFor path (pairs ms))) =
      (refsFor path (pairs ms)).map fun ref => (path, ref) := by
  rcases hcur with rfl | rfl
  · exact pairs_reuse (isRef_refsFor hrefs) nofun
  · rcases hown with hown | ⟨hids, hspelled⟩
    · refine pairs_reuse (isRef_refsFor hrefs) fun m hm => ?_
      obtain ⟨hm, hpath⟩ := List.mem_filter.mp hm
      refine ⟨of_decide_eq_true hpath, fun ref href hsource => ?_⟩
      obtain ⟨m', hm', hpath', rfl, -⟩ := mem_refsFor.mp href
      exact hown m hm m' hm' ((of_decide_eq_true hpath).trans hpath'.symm) hsource
    · have hgroup : ∀ m ∈ current.filter (·.targetPath = path), m ∈ current ∧ m.targetPath = path :=
        fun m hm => ⟨(List.mem_filter.mp hm).1, of_decide_eq_true (List.mem_filter.mp hm).2⟩
      have hsame := @reuse_inOrder opts path [] n [] (current.filter (·.targetPath = path))
        (hids.sublist (List.filter_sublist.map _)) (fun m hm => hspelled m (hgroup m hm).1) (fun id => by simp)
      rw [List.nil_append] at hsame
      rw [refsFor_eq hrefs, hsame, pairs, List.map_map]
      exact List.map_congr_left fun m hm => Prod.ext (hgroup m hm).2 rfl

/-- Where no reference is known, each is read anew. -/
theorem pairs_syncLeaf_nil : pairs ((collectBodyLeafPaths [] (.obj fields)).foldl (syncLeaf opts []) []) =
    found (texts (.obj fields)) := by
  rw [pairs_syncLeaf, body_texts, List.flatMap_map, found]
  · rfl
  · exact fun t _ n => pairs_reuse (fun ref href => isRef_of_refs href) nofun

theorem found_filter (ls : List (List String × String)) :
    found (ls.filter fun l => refs l.2 ≠ []) = found ls := by
  induction ls with
  | nil => rfl
  | cons l ls ih =>
      rw [List.filter_cons]
      unfold found at ih ⊢
      by_cases h : refs l.2 = []
      · rw [if_neg (by simpa using h), ih, List.flatMap_cons, h]
        rfl
      · rw [if_pos (by simpa using h), List.flatMap_cons, ih, List.flatMap_cons]

theorem mem_found {ls : List (List String × String)} {q : List Char × List Char} :
    q ∈ found ls ↔ ∃ l ∈ ls, ∃ ref ∈ refs l.2, (buildPath l.1, ref) = q := by
  simp only [found, List.mem_flatMap, List.mem_map]

theorem syncFromVisual_eq {j : Json} (hbody : parseBodyJson p body = some fields)
    (hbuild : buildBody ms fields = some j) :
    ∃ changed, syncFromVisual p ms body = some ⟨j.pretty, ms, changed, false⟩ := by
  refine ⟨decide (j.pretty ≠ body), ?_⟩
  rw [syncFromVisual, hbody]
  simp only [buildBodyFromMappings, Option.getD_some, hbuild, Option.map_some]

theorem syncFromTemplate_eq {text : String} (h : parseBodyJson p text = some fields) :
    (syncFromTemplate p opts text current).mappings =
      (collectBodyLeafPaths [] (.obj fields)).foldl (syncLeaf opts current) [] := by
  rw [syncFromTemplate, h]

theorem nodup_of_apart {ws : List (List String × String)}
    (h : ws.Pairwise fun w w' => ¬ Overlap w.1 w'.1) : ws.Nodup := by
  refine h.imp ?_
  rintro w _ hover rfl
  exact hover overlap_refl

theorem synced_of_meets (hbody : parseBodyJson p body = some fields) (h : Meets ms (.obj fields))
    (hcur : current = [] ∨ current = ms) : Synced p opts ms body current := by
  have hunique := p.unique _ _ (parseBodyJson_eq.mp hbody)
  have htarget : ∀ path, refsFor path (pairs ms) ≠ [] → ∃ m ∈ ms, m.targetPath = path := by
    intro path hne
    obtain ⟨ref, href⟩ := List.exists_mem_of_ne_nil _ hne
    obtain ⟨m, hm, hpath, -⟩ := mem_refsFor.mp href
    exact ⟨m, hm, hpath⟩
  have hkeys : ∀ w ∈ writesOf ms, w.1 ≠ [] := by
    intro w hw
    obtain ⟨path, -, hne, rfl⟩ := mem_writesOf.mp hw
    obtain ⟨m, hm, rfl⟩ := htarget path hne
    exact (h.path_plain m hm).1.1
  have hapart : (writesOf ms).Pairwise fun w w' => ¬ Overlap w.1 w'.1 := by
    refine pairwise_writesOf fun path path' v v' hne hrefs hrefs' hover => hne ?_
    obtain ⟨m, hm, rfl⟩ := htarget path hrefs
    obtain ⟨m', hm', rfl⟩ := htarget path' hrefs'
    exact h.apart m hm m' hm' hover
  have hthrough : ∀ w ∈ writesOf ms, throughArray (.obj fields) w.1 = false := by
    intro w hw
    obtain ⟨path, -, hne, rfl⟩ := mem_writesOf.mp hw
    obtain ⟨m, hm, rfl⟩ := htarget path hne
    exact h.open_way m hm
  obtain ⟨fields₁, hwrite, hunique₁, htexts⟩ := texts_writeAll hkeys hunique hapart hthrough
  obtain ⟨fields₂, hread, hsame, hunique₂⟩ := @read_pretty p _ hunique₁
  have hbuild : buildBody ms fields = some (.obj fields₁) :=
    (buildBody_eq fun m hm => (h.path_plain m hm).1).trans hwrite
  obtain ⟨changed, hvisual⟩ := syncFromVisual_eq hbody hbuild
  have hperm := hsame.texts_perm hunique₁ hunique₂
  have hwritten : ∀ l ∈ texts (.obj fields₁), refs l.2 ≠ [] → l ∈ writesOf ms := by
    intro l hl hrefs
    refine ((htexts l).mp hl).resolve_right fun hold => ?_
    obtain ⟨m, hm, hover⟩ := h.replaced l hold.1 hrefs
    have href : m.ref ∈ refsFor m.targetPath (pairs ms) :=
      mem_refsFor.mpr ⟨m, hm, rfl, rfl, (h.ref_plain m hm).1⟩
    exact hold.2 _ (mem_writesOf.mpr
      ⟨m.targetPath, (h.path_plain m hm).1.trim_ne, List.ne_nil_of_mem href, rfl⟩) hover
  have hrefs_writes : ∀ l ∈ writesOf ms, refs l.2 ≠ [] := by
    intro l hl
    obtain ⟨path, -, hne, rfl⟩ := mem_writesOf.mp hl
    rw [refs_written h.ref_plain]
    exact hne
  have hplaceholders : ((texts (.obj fields₁)).filter fun l => refs l.2 ≠ []).Perm (writesOf ms) := by
    refine (List.perm_ext_iff_of_nodup ((nodup_texts _ hunique₁).filter _) (nodup_of_apart hapart)).mpr
      fun l => ?_
    rw [List.mem_filter, decide_eq_true_eq]
    exact ⟨fun hl => hwritten l hl.1 hl.2, fun hl => ⟨(htexts l).mpr (Or.inl hl), hrefs_writes l hl⟩⟩
  refine ⟨_, hvisual, ?_⟩
  rw [syncFromTemplate_eq hread, pairs_syncLeaf, body_texts, List.flatMap_map]
  · refine .trans ?_ (found_writesOf h.ref_plain h.path_plain)
    refine (hperm.symm.flatMap_right _).trans ?_
    exact (.trans (.of_eq (found_filter _).symm) (hplaceholders.flatMap_right _))
  · intro t ht k
    rw [body_texts] at ht
    obtain ⟨l, hl, rfl⟩ := List.mem_map.mp ht
    by_cases hrefs : refs l.2 = []
    · rw [hrefs]
      rfl
    · obtain ⟨path, -, hne, rfl⟩ := mem_writesOf.mp (hwritten l (hperm.symm.subset hl) hrefs)
      obtain ⟨m, hm, rfl⟩ := htarget path hne
      dsimp only
      rw [refs_written h.ref_plain, (h.path_plain m hm).2]
      exact pairs_reuse_current hcur h.own h.ref_plain

/-- What holds of each element and all that follow it. -/
theorem pairwise_of_splits {α : Type} {R : α → α → Prop} {l : List α} (hnodup : l.Nodup)
    (h : ∀ a ∈ l, ∃ l₁ l₂, l = l₁ ++ a :: l₂ ∧ ∀ b ∈ l₂, R a b) : l.Pairwise R := by
  induction l with
  | nil => exact List.Pairwise.nil
  | cons a l ih =>
      obtain ⟨ha, hl⟩ := List.nodup_cons.mp hnodup
      refine List.pairwise_cons.mpr ⟨?_, ih hl fun b hb => ?_⟩
      · obtain ⟨l₁, l₂, heq, hall⟩ := h a List.mem_cons_self
        cases l₁ with
        | nil =>
            cases heq
            exact hall
        | cons c l₁ =>
            rw [List.cons_append, List.cons.injEq] at heq
            exact absurd (heq.2 ▸ List.mem_append_right _ List.mem_cons_self) ha
      · obtain ⟨l₁, l₂, heq, hall⟩ := h b (List.mem_cons_of_mem _ hb)
        cases l₁ with
        | nil =>
            cases heq
            exact absurd hb ha
        | cons c l₁ =>
            rw [List.cons_append, List.cons.injEq] at heq
            exact ⟨l₁, l₂, heq.2, hall⟩

theorem plain_inj {path path' : List Char} (h : PlainPath path) (h' : PlainPath path')
    (hkeys : pathKeys path = pathKeys path') : path = path' := by
  rw [← h.2, hkeys, h'.2]

/-- On paths that are spelled as they lead there is no other way. -/
theorem meets_of_synced (hbody : parseBodyJson p body = some fields) (hspelled : Spelled ms (.obj fields))
    (h : Synced p opts ms body []) : Meets ms (.obj fields) := by
  have hunique := p.unique _ _ (parseBodyJson_eq.mp hbody)
  have htarget : ∀ w ∈ writesOf ms, ∃ m ∈ ms, w.1 = pathKeys m.targetPath := by
    intro w hw
    obtain ⟨path, -, hne, rfl⟩ := mem_writesOf.mp hw
    obtain ⟨ref, href⟩ := List.exists_mem_of_ne_nil _ hne
    obtain ⟨m, hm, hpath, -⟩ := mem_refsFor.mp href
    exact ⟨m, hm, by rw [hpath]⟩
  have hkeys : ∀ w ∈ writesOf ms, w.1 ≠ [] := by
    intro w hw
    obtain ⟨m, hm, hw⟩ := htarget w hw
    rw [hw]
    exact (hspelled.path_plain m hm).1.1
  obtain ⟨r, hvisual, hperm⟩ := h
  rw [syncFromVisual, hbody] at hvisual
  obtain ⟨newBody, hbuild, rfl⟩ := Option.map_eq_some_iff.mp hvisual
  obtain ⟨j, hwrite, rfl⟩ := Option.map_eq_some_iff.mp hbuild
  have hwrite := (buildBody_eq fun m hm => (hspelled.path_plain m hm).1).symm.trans hwrite
  obtain ⟨fields₁, rfl⟩ := writeAll_obj hwrite
  have hunique₁ := writeAll_unique hunique hwrite
  obtain ⟨fields₂, hread, hsame, hunique₂⟩ := @read_pretty p _ hunique₁
  rw [syncFromTemplate_eq hread, pairs_syncLeaf_nil] at hperm
  have hfound : ∀ q, q ∈ found (texts (.obj fields₁)) ↔ q ∈ pairs ms := by
    intro q
    rw [← hperm.mem_iff]
    exact ((hsame.texts_perm hunique₁ hunique₂).flatMap_right _).mem_iff
  have href : ∀ m ∈ ms, IsRef m.ref := by
    intro m hm
    obtain ⟨l, -, ref, href, heq⟩ := mem_found.mp ((hfound (pair m)).mpr (List.mem_map_of_mem hm))
    have heq : ref = m.ref := congrArg Prod.snd heq
    exact heq ▸ isRef_of_refs href
  have hwrites : ∀ m ∈ ms, ∃ w ∈ writesOf ms, w.1 = pathKeys m.targetPath := by
    intro m hm
    have hmem : m.ref ∈ refsFor m.targetPath (pairs ms) := mem_refsFor.mpr ⟨m, hm, rfl, rfl, (href m hm).1⟩
    exact ⟨_, mem_writesOf.mpr
      ⟨m.targetPath, (hspelled.path_plain m hm).1.trim_ne, List.ne_nil_of_mem hmem, rfl⟩, rfl⟩
  -- the text of a mapping is that of its own write, which no later one has touched
  have hlast : ∀ m ∈ ms, ∃ ws₁ w ws₂ fields₀, writesOf ms = ws₁ ++ w :: ws₂ ∧
      w.1 = pathKeys m.targetPath ∧ writeAll (.obj fields) ws₁ = some (.obj fields₀) ∧
        throughArray (.obj fields₀) w.1 = false ∧ ∀ w' ∈ ws₂, ¬ Overlap w'.1 w.1 := by
    intro m hm
    obtain ⟨l, hl, ref, hmem, heq⟩ := mem_found.mp ((hfound (pair m)).mpr (List.mem_map_of_mem hm))
    have hpath : buildPath l.1 = m.targetPath := congrArg Prod.fst heq
    rcases of_texts_writeAll hkeys hunique hwrite hl with
      ⟨hold, hover⟩ | ⟨ws₁, ws₂, fields₀, hsplit, hfirst, hthrough, hlater⟩
    · obtain ⟨w, hw, hwkeys⟩ := hwrites m hm
      have hlkeys := hspelled.leaf_plain l hold (List.ne_nil_of_mem hmem)
      rw [hpath, ← hwkeys] at hlkeys
      exact absurd (hlkeys ▸ overlap_refl) (hover w hw)
    · refine ⟨ws₁, l, ws₂, fields₀, hsplit, ?_, hfirst, hthrough, hlater⟩
      obtain ⟨m', hm', hkeys'⟩ := htarget l (hsplit ▸ List.mem_append_right _ List.mem_cons_self)
      rw [hkeys', (hspelled.path_plain m' hm').2] at hpath
      rw [hkeys', hpath]
  have hdistinct : (writesOf ms).Pairwise fun w w' => w.1 ≠ w'.1 := by
    refine pairwise_writesOf fun path path' v v' hne hrefs hrefs' hsamekeys => hne ?_
    obtain ⟨ref, href⟩ := List.exists_mem_of_ne_nil _ hrefs
    obtain ⟨ref', href'⟩ := List.exists_mem_of_ne_nil _ hrefs'
    obtain ⟨m, hm, rfl, -⟩ := mem_refsFor.mp href
    obtain ⟨m', hm', rfl, -⟩ := mem_refsFor.mp href'
    exact plain_inj (hspelled.path_plain m hm) (hspelled.path_plain m' hm') hsamekeys
  have hsamewrite : ∀ w ∈ writesOf ms, ∀ w' ∈ writesOf ms, w.1 = w'.1 → w = w' := by
    intro w hw w' hw' hsamekeys
    have hsymm : Std.Symm fun w w' : List String × String => w.1 ≠ w'.1 := ⟨fun _ _ hd heq => hd heq.symm⟩
    by_contra hne
    exact hdistinct.forall hw hw' hne hsamekeys
  have hapart : (writesOf ms).Pairwise fun w w' => ¬ Overlap w.1 w'.1 := by
    refine pairwise_of_splits (hdistinct.imp fun hne heq => hne (congrArg Prod.fst heq)) fun w hw => ?_
    obtain ⟨m, hm, hwkeys⟩ := htarget w hw
    obtain ⟨ws₁, w', ws₂, -, hsplit, hw'keys, -, -, hlater⟩ := hlast m hm
    have hw' : w' ∈ writesOf ms := hsplit ▸ List.mem_append_right _ List.mem_cons_self
    have heq := hsamewrite w hw w' hw' (hwkeys.trans hw'keys.symm)
    subst heq
    exact ⟨ws₁, ws₂, hsplit, fun b hb hover => hlater b hb hover.symm⟩
  refine ⟨fun m hm => ⟨(href m hm).1, (href m hm).2.1⟩, hspelled.path_plain, ?_, ?_, ?_, hspelled.own⟩
  · intro m hm m' hm' hover
    obtain ⟨w, hw, hwkeys⟩ := hwrites m hm
    obtain ⟨w', hw', hwkeys'⟩ := hwrites m' hm'
    rw [← hwkeys, ← hwkeys'] at hover
    have hsymm : Std.Symm fun w w' : List String × String => ¬ Overlap w.1 w'.1 :=
      ⟨fun _ _ hd ho => hd ho.symm⟩
    by_contra hne
    refine hapart.forall hw hw' ?_ hover
    rintro rfl
    exact hne (plain_inj (hspelled.path_plain m hm) (hspelled.path_plain m' hm') (hwkeys.symm.trans hwkeys'))
  · intro m hm
    obtain ⟨ws₁, w, ws₂, fields₀, hsplit, hwkeys, hfirst, hthrough, -⟩ := hlast m hm
    rw [hsplit, List.pairwise_append] at hapart
    rw [← hwkeys, ← hthrough]
    exact (throughArray_writeAll (fun w' hw' => hapart.2.2 w' hw' w List.mem_cons_self) hfirst).symm
  · intro l hl hrefs
    by_contra hnone
    have hover : ∀ w ∈ writesOf ms, ¬ Overlap w.1 l.1 := by
      intro w hw hover
      obtain ⟨m, hm, hwkeys⟩ := htarget w hw
      exact hnone ⟨m, hm, hwkeys ▸ hover⟩
    have hkept := mem_texts_writeAll hkeys hunique hwrite hl hover
    obtain ⟨ref, hmem⟩ := List.exists_mem_of_ne_nil _ hrefs
    obtain ⟨m, hm, heq⟩ := List.mem_map.mp ((hfound _).mp (mem_found.mpr ⟨l, hkept, ref, hmem, rfl⟩))
    have hpath : m.targetPath = buildPath l.1 := congrArg Prod.fst heq
    refine hnone ⟨m, hm, ?_⟩
    rw [hpath, hspelled.leaf_plain l hl hrefs]
    exact overlap_refl

end Synced

/-! ## The body comes back -/

section Returned

variable {p : JsonReader} {sources : List MapperSource} {body : String} {fields : List (String × Json)}
  {path keys : List Char}

/-- The adapter of a body makes the same value of the mappings that it has read from it. -/
def Returned (p : JsonReader) (sources : List MapperSource) (body : String) : Prop :=
  ∃ out j j', serialize p body (deserialize p sources body) = some out ∧ p.parse body = some j ∧
    p.parse out = some j' ∧ j.SameValue j'

/-- The references in all texts whose path is spelled so. -/
def refsAt (j : Json) (path : List Char) : List (List Char) :=
  ((texts j).filter (buildPath ·.1 = path)).flatMap (refs ·.2)

def rewritten (j : Json) (path : List Char) : Json :=
  .str (String.ofList ((refsAt j path).flatMap placeholder))

/-- At the keys that its path is split into, each text with placeholders is nothing but these. -/
def InPlace (j : Json) : Prop :=
  ∀ l ∈ texts j, refs l.2 ≠ [] → Writable (buildPath l.1) →
    Kept (rewritten j (buildPath l.1)) j (pathKeys (buildPath l.1))

/-- Different paths are not written through each other. -/
def Apart (j : Json) : Prop :=
  ∀ l ∈ texts j, ∀ l' ∈ texts j, refs l.2 ≠ [] → refs l'.2 ≠ [] → Writable (buildPath l.1) →
    Writable (buildPath l'.1) → Overlap (pathKeys (buildPath l.1)) (pathKeys (buildPath l'.1)) →
      buildPath l.1 = buildPath l'.1

theorem pairs_deserialize (hbody : parseBodyJson p body = some fields) :
    pairs (deserialize p sources body) = found (texts (.obj fields)) := by
  rw [deserialize, hbody, ← leafRefs_body]
  refine List.ext_getElem? fun i => ?_
  rw [pairs, List.getElem?_map, List.getElem?_mapIdx, Option.map_map]
  refine (Option.map_congr fun q hq => ?_).trans (congrFun Option.map_id _)
  have hmem := List.mem_of_getElem? hq
  rw [leafRefs_body] at hmem
  obtain ⟨l, -, ref, href, rfl⟩ := mem_found.mp hmem
  exact Prod.ext rfl (isRef_of_refs href).2.2

theorem refsFor_found (ls : List (List String × String)) :
    refsFor path (found ls) = (ls.filter (buildPath ·.1 = path)).flatMap (refs ·.2) := by
  induction ls with
  | nil => rfl
  | cons l ls ih =>
      have hcons : found (l :: ls) = ((refs l.2).map fun ref => (buildPath l.1, ref)) ++ found ls := rfl
      unfold refsFor at ih ⊢
      rw [hcons, List.filter_append, List.map_append, ih, List.filter_cons]
      by_cases hpath : buildPath l.1 = path
      · have hall : ((refs l.2).map fun ref => (buildPath l.1, ref)).filter
            (fun q => decide (q.1 = path ∧ q.2 ≠ [])) = (refs l.2).map fun ref => (buildPath l.1, ref) := by
          refine List.filter_eq_self.mpr fun q hq => ?_
          obtain ⟨ref, href, rfl⟩ := List.mem_map.mp hq
          exact decide_eq_true ⟨hpath, (isRef_of_refs href).1⟩
        rw [hall, if_pos (decide_eq_true hpath), List.flatMap_cons, List.map_map]
        exact congrArg (· ++ _) (List.map_id _)
      · have hnone : ((refs l.2).map fun ref => (buildPath l.1, ref)).filter
            (fun q => decide (q.1 = path ∧ q.2 ≠ [])) = [] := by
          refine List.filter_eq_nil_iff.mpr fun q hq hkept => ?_
          obtain ⟨ref, -, rfl⟩ := List.mem_map.mp hq
          exact hpath (of_decide_eq_true hkept).1
        rw [hnone, if_neg (by simpa using hpath)]
        rfl

/-- What the adapter writes: for each path of a text with placeholders, these. -/
theorem entry_deserialize {e : (_ : List Char) × List Char} (hbody : parseBodyJson p body = some fields)
    (he : e ∈ (placeholdersByTarget (deserialize p sources body)).entries) :
    (∃ l ∈ texts (.obj fields), refs l.2 ≠ [] ∧ buildPath l.1 = e.1) ∧
      .str (String.ofList e.2) = rewritten (.obj fields) e.1 := by
  obtain ⟨-, hne, hv⟩ := entry_eq he
  rw [pairs_deserialize hbody, refsFor_found] at hne hv
  constructor
  · obtain ⟨ref, href⟩ := List.exists_mem_of_ne_nil _ hne
    obtain ⟨l, hl, href⟩ := List.mem_flatMap.mp href
    obtain ⟨hl, hpath⟩ := List.mem_filter.mp hl
    exact ⟨l, hl, List.ne_nil_of_mem href, of_decide_eq_true hpath⟩
  · rw [← hv]
    rfl

theorem foldlM_fixed {α β : Type} {f : β → α → Option β} {l : List α} {b : β}
    (h : ∀ a ∈ l, f b a = some b) : l.foldlM f b = some b := by
  induction l with
  | nil => rfl
  | cons a l ih =>
      rw [List.forall_mem_cons] at h
      rw [List.foldlM_cons, h.1]
      exact ih h.2

theorem serialize_eq {ms : List Mapping} (hbody : parseBodyJson p body = some fields) :
    serialize p body ms = (buildBody ms fields).map Json.pretty := by
  rw [serialize, hbody, if_neg (by simp)]
  rfl

theorem returned_of_inPlace (hbody : parseBodyJson p body = some fields) (h : InPlace (.obj fields)) :
    Returned p sources body := by
  have hparse := parseBodyJson_eq.mp hbody
  have hbuild : buildBody (deserialize p sources body) fields = some (.obj fields) := by
    refine foldlM_fixed fun e he => ?_
    obtain ⟨⟨l, hl, hrefs, hpath⟩, hv⟩ := entry_deserialize hbody he
    by_cases hwritable : Writable e.1
    · rw [hv, setByPath_of_writable hwritable]
      have hkept := h l hl hrefs
      rw [hpath] at hkept
      exact setKeys_of_kept hwritable.1 (hkept hwritable)
    · exact setByPath_of_not_writable hwritable _
  obtain ⟨j', hread, hsame⟩ := p.pretty _ (p.unique _ _ hparse)
  exact ⟨_, _, j', by rw [serialize_eq hbody, hbuild]; rfl, hparse, hread, hsame⟩

/-- Writes to other places change neither that an object is written to nor what is kept. -/
theorem kept_of_fold {v : Json} {keys : List String} {es : List ((_ : List Char) × List Char)} {j j' : Json}
    (hj : isContainer j = true) (hes : ∀ e ∈ es, Writable e.1 → ¬ Overlap (pathKeys e.1) keys)
    (h : es.foldlM (fun j e => setByPath j e.1 (.str (String.ofList e.2))) j = some j')
    (hkept : Kept v j keys) : Kept v j' keys := by
  induction es generalizing j with
  | nil =>
      cases h
      exact hkept
  | cons e es ih =>
      rw [List.forall_mem_cons] at hes
      rw [List.foldlM_cons] at h
      obtain ⟨j₁, hset, hrest⟩ := Option.bind_eq_some_iff.mp h
      by_cases hwritable : Writable e.1
      · rw [setByPath_of_writable hwritable] at hset
        refine ih (isContainer_setKeys hj hset) hes.2 hrest ?_
        exact hkept.frame (hes.1 hwritable) hj hset
      · rw [setByPath_of_not_writable hwritable, Option.some.injEq] at hset
        subst hset
        exact ih hj hes.2 hrest hkept

theorem isContainer_of_fold {es : List ((_ : List Char) × List Char)} {j j' : Json}
    (hj : isContainer j = true)
    (h : es.foldlM (fun j e => setByPath j e.1 (.str (String.ofList e.2))) j = some j') :
    isContainer j' = true ∧ (j.EachObject List.Nodup → j'.EachObject List.Nodup) := by
  induction es generalizing j with
  | nil =>
      cases h
      exact ⟨hj, id⟩
  | cons e es ih =>
      rw [List.foldlM_cons] at h
      obtain ⟨j₁, hset, hrest⟩ := Option.bind_eq_some_iff.mp h
      by_cases hwritable : Writable e.1
      · rw [setByPath_of_writable hwritable] at hset
        obtain ⟨hcontainer, hunique⟩ := ih (isContainer_setKeys hj hset) hrest
        exact ⟨hcontainer, fun hj => hunique (setKeys_text_unique hj hset)⟩
      · rw [setByPath_of_not_writable hwritable, Option.some.injEq] at hset
        subst hset
        exact ih hj hrest

/-- Where no path is written through another, nothing is put right by a later write. -/
theorem inPlace_of_returned (hbody : parseBodyJson p body = some fields) (hapart : Apart (.obj fields))
    (h : Returned p sources body) : InPlace (.obj fields) := by
  have hparse := parseBodyJson_eq.mp hbody
  have hunique := p.unique _ _ hparse
  obtain ⟨out, j, j', hout, hj, hj', hsame⟩ := h
  rw [hparse, Option.some.injEq] at hj
  subst hj
  rw [serialize_eq hbody] at hout
  obtain ⟨made, hbuild, rfl⟩ := Option.map_eq_some_iff.mp hout
  intro l hl hrefs hwritable
  have hentry : ∃ v, (⟨buildPath l.1, v⟩ : (_ : List Char) × List Char) ∈
      (placeholdersByTarget (deserialize p sources body)).entries := by
    obtain ⟨ref, href⟩ := List.exists_mem_of_ne_nil _ hrefs
    have hmem : ref ∈ refsFor (buildPath l.1) (pairs (deserialize p sources body)) := by
      rw [pairs_deserialize hbody, refsFor_found, List.mem_flatMap]
      exact ⟨l, List.mem_filter.mpr ⟨hl, decide_eq_true rfl⟩, href⟩
    have hlookup := @lookup_placeholders (deserialize p sources body) (buildPath l.1)
    rw [if_neg (not_or.mpr ⟨hwritable.trim_ne, List.ne_nil_of_mem hmem⟩)] at hlookup
    exact ⟨_, InsertionMap.mem_entries.mpr hlookup⟩
  obtain ⟨v, hentry⟩ := hentry
  have hkeys := (placeholdersByTarget (deserialize p sources body)).nodupKeys
  obtain ⟨es₁, es₂, hsplit⟩ := List.append_of_mem hentry
  rw [List.NodupKeys, List.keys, hsplit, List.map_append, List.map_cons, List.nodup_append,
    List.nodup_cons] at hkeys
  rw [buildBody, hsplit, List.foldlM_append] at hbuild
  obtain ⟨j₁, hfirst, hrest⟩ := Option.bind_eq_some_iff.mp hbuild
  rw [List.foldlM_cons] at hrest
  obtain ⟨j₂, hset, hlast⟩ := Option.bind_eq_some_iff.mp hrest
  dsimp only at hset
  obtain ⟨hcontainer₁, hunique₁⟩ := isContainer_of_fold rfl hfirst
  rw [setByPath_of_writable hwritable] at hset
  have hcontainer₂ := isContainer_setKeys hcontainer₁ hset
  have hunique₂ := setKeys_text_unique (hunique₁ hunique) hset
  have hkept := kept_of_setKeys hwritable.1 hcontainer₁ hset
  have hmade : Kept (.str (String.ofList v)) made (pathKeys (buildPath l.1)) := by
    refine kept_of_fold hcontainer₂ (fun e he hwritable' hover => ?_) hlast hkept
    have hmem : e ∈ (placeholdersByTarget (deserialize p sources body)).entries := by
      rw [hsplit]
      exact List.mem_append_right _ (List.mem_cons_of_mem _ he)
    obtain ⟨⟨l', hl', hrefs', hpath⟩, -⟩ := entry_deserialize hbody hmem
    rw [← hpath] at hwritable' hover
    have heq := hapart l' hl' l hl hrefs' hrefs hwritable' hwritable hover
    rw [hpath] at heq
    have hkey : e.1 ∈ es₂.map Sigma.fst := List.mem_map_of_mem he
    exact hkeys.2.1.1 (heq ▸ hkey)
  have hmade_unique := (isContainer_of_fold hcontainer₂ hlast).2 hunique₂
  obtain ⟨j'', hread, hsame'⟩ := p.pretty made hmade_unique
  rw [hj', Option.some.injEq] at hread
  subst hread
  rw [← (entry_deserialize hbody hentry).2]
  exact hmade.of_same (hsame'.trans hsame.symm)

end Returned

/-! ## Both ways -/

/-- A body comes back if its placeholders are in place, and only then where none of its paths leads
through another; mappings come back if they meet what is asked of them, and only then where all
paths are spelled as they lead. -/
theorem body_and_mappings (p : JsonReader) (sources : List MapperSource) (opts : BodySyncOptions)
    (body : String) (fields : List (String × Json)) (hbody : parseBodyJson p body = some fields) :
    (InPlace (.obj fields) → Returned p sources body) ∧
      (Apart (.obj fields) → (Returned p sources body ↔ InPlace (.obj fields))) ∧
        ∀ newMappings,
          (Meets newMappings (.obj fields) →
            ∀ current ∈ [[], newMappings], Synced p opts newMappings body current) ∧
          (Spelled newMappings (.obj fields) →
            ((∀ current ∈ [[], newMappings], Synced p opts newMappings body current) ↔
              Meets newMappings (.obj fields))) := by
  have hmeets : ∀ ms, Meets ms (.obj fields) → ∀ current ∈ [[], ms], Synced p opts ms body current := by
    intro ms h current hcur
    simp only [List.mem_cons, List.not_mem_nil, or_false] at hcur
    exact synced_of_meets hbody h hcur
  refine ⟨returned_of_inPlace hbody, fun hapart => ?_, fun ms => ⟨hmeets ms, fun hspelled => ?_⟩⟩
  · exact ⟨inPlace_of_returned hbody hapart, returned_of_inPlace hbody⟩
  · exact ⟨fun h => meets_of_synced hbody hspelled (h [] List.mem_cons_self), hmeets ms⟩

/-! ### A reader of what is written -/

theorem isSpace_number {c : Char} (h : isNumberChar c = true) : isSpace c = false := by
  simp only [isNumberChar, Bool.or_eq_true, beq_iff_eq] at h
  rcases h with (((h | rfl) | rfl) | rfl) | rfl
  · exact isSpace_of_isDigit h
  all_goals decide

theorem isSpace_of_kind {c : Char} (h : Json.charKind c ≠ 7) : isSpace c = false := by
  unfold Json.charKind at h
  repeat' split at h
  next hc => exact hc ▸ by decide
  next hc => exact hc ▸ by decide
  next hc => exact hc ▸ by decide
  next hc => exact isSpace_number hc
  next hc => exact hc ▸ by decide
  next hc => exact hc ▸ by decide
  next hc => exact hc ▸ by decide
  next => exact absurd rfl h

theorem pretty_not_blank (j : Json) : trim j.pretty.toList ≠ [] := by
  intro hblank
  obtain ⟨c, cs, hrender, hkind⟩ := Json.render_start j
  have hhead := Json.head_renderLines j 0
  rw [hrender] at hhead
  have hmem : c ∈ j.pretty.toList := by
    rw [Json.pretty, String.toList_ofList]
    exact List.mem_of_mem_head? hhead
  have hspace : isSpace c = false := by
    refine isSpace_of_kind ?_
    rw [hkind]
    cases j with
    | bool b => cases b <;> decide
    | _ => simp [Json.kind]
  rw [trimBy_eq_nil_iff.mp hblank c hmem] at hspace
  cases hspace

open Classical in
/-- Reads exactly what `JSON.stringify` writes. -/
noncomputable def prettyReader : JsonReader where
  parse text := (Function.partialInv Json.pretty text).filter (·.EachObject List.Nodup)
  unique text j h := of_decide_eq_true (Option.filter_eq_some_iff.mp h).2
  blank text hblank := by
    cases h : Function.partialInv Json.pretty text with
    | none => rfl
    | some j =>
        have htext := (Json.pretty_injective.isPartialInv j text).mp h
        exact absurd (htext ▸ hblank) (pretty_not_blank j)
  pretty j hj := by
    refine ⟨j, ?_, fun _ => rfl⟩
    rw [Function.partialInv_left Json.pretty_injective, Option.filter_some, if_pos (decide_eq_true hj)]

theorem prettyReader_reads {fields : List (String × Json)}
    (h : (Json.obj fields).checkObjects (fun keys => decide keys.Nodup) = true) :
    parseBodyJson prettyReader (Json.pretty (.obj fields)) = some fields := by
  have hunique : (Json.obj fields).EachObject List.Nodup := fun path fields' hsub =>
    of_decide_eq_true (Json.eachObject_of_check h path fields' hsub)
  refine parseBodyJson_eq.mpr ?_
  show (Function.partialInv Json.pretty _).filter _ = _
  rw [Function.partialInv_left Json.pretty_injective, Option.filter_some]
  exact if_pos (by simpa using hunique)

/-- Two placeholders next to each other, and one in an object. -/
def orderFields : List (String × Json) :=
  [("token", .str "\x7b\x7ba\x7d\x7d\x7b\x7bb\x7d\x7d"), ("order", .obj [("id", .str "\x7b\x7bid\x7d\x7d")])]

def plainMapping (id : String) (ref path : List Char) : Mapping := ⟨id, "Login", ref, path, none⟩

def orderMappings : List Mapping :=
  [plainMapping "1" "key".toList "order.id".toList, plainMapping "2" "b".toList "token".toList]

def noSources : BodySyncOptions := ⟨[], fun _ => ""⟩

theorem body_and_mappings_order : Returned prettyReader [] (Json.pretty (.obj orderFields)) ∧
    Synced prettyReader noSources orderMappings (Json.pretty (.obj orderFields)) orderMappings := by
  have hread : parseBodyJson prettyReader (Json.pretty (.obj orderFields)) = some orderFields :=
    prettyReader_reads (by decide)
  have hinPlace : InPlace (.obj orderFields) := by
    intro l hl _ _
    have hl : l = (["token"], "\x7b\x7ba\x7d\x7d\x7b\x7bb\x7d\x7d") ∨ l = (["order", "id"], "\x7b\x7bid\x7d\x7d") := by
      simpa [texts, Json.fieldTexts, orderFields] using hl
    rcases hl with rfl | rfl
    · have hsame : Json.str "\x7b\x7ba\x7d\x7d\x7b\x7bb\x7d\x7d" = rewritten (.obj orderFields) (buildPath ["token"]) := by
        decide
      exact Or.inr ⟨_, rfl, hsame⟩
    · have hsame : Json.str "\x7b\x7bid\x7d\x7d" = rewritten (.obj orderFields) (buildPath ["order", "id"]) := by
        decide
      exact Or.inr ⟨_, rfl, Or.inr ⟨_, rfl, hsame⟩⟩
  have hmeets : Meets orderMappings (.obj orderFields) :=
    ⟨by decide, by decide, by decide, by decide, by decide, Or.inr (by decide)⟩
  have h := body_and_mappings prettyReader [] noSources _ _ hread
  exact ⟨h.1 hinPlace, (h.2.2 orderMappings).1 hmeets _ (by simp)⟩

/-- A text around a placeholder. -/
def bearerFields : List (String × Json) := [("auth", .str "Bearer \x7b\x7btoken\x7d\x7d")]

/-- The text around a placeholder is lost, and a mapping that is removed comes back. -/
theorem bearer_lost_and_removed_back :
    ¬ Returned prettyReader [] (Json.pretty (.obj bearerFields)) ∧
      ¬ Synced prettyReader noSources [] (Json.pretty (.obj bearerFields)) [] := by
  have hread : parseBodyJson prettyReader (Json.pretty (.obj bearerFields)) = some bearerFields :=
    prettyReader_reads (by decide)
  have htexts : texts (.obj bearerFields) = [(["auth"], "Bearer \x7b\x7btoken\x7d\x7d")] := rfl
  constructor
  · intro hreturned
    have hapart : Apart (.obj bearerFields) := by
      intro l hl l' hl' _ _ _ _ _
      rw [htexts, List.mem_singleton] at hl hl'
      rw [hl, hl']
    have hinPlace := inPlace_of_returned hread hapart hreturned
    have hkept := hinPlace (["auth"], "Bearer \x7b\x7btoken\x7d\x7d") (by rw [htexts]; exact List.mem_singleton_self _)
      (by decide) (by decide)
    rcases hkept with hignored | ⟨child, hchild, hsame⟩
    · cases hignored
    · have hchild : some (Json.str "Bearer \x7b\x7btoken\x7d\x7d") = some child := hchild
      rw [← Option.some.inj hchild] at hsame
      have hsame : Json.str "Bearer \x7b\x7btoken\x7d\x7d" =
        rewritten (.obj bearerFields) (buildPath ["auth"]) := hsame
      exact absurd hsame (by decide)
  · intro hsynced
    have hspelled : Spelled [] (.obj bearerFields) := ⟨nofun, by decide, Or.inl nofun⟩
    have hmeets := meets_of_synced hread hspelled hsynced
    obtain ⟨m, hm, -⟩ := hmeets.replaced (["auth"], "Bearer \x7b\x7btoken\x7d\x7d")
      (by rw [htexts]; exact List.mem_singleton_self _) (by decide)
    cases hm

end RedFireForge.Mapper.Body
