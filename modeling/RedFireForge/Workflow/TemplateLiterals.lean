/-
# `RedFireForge.Workflow.TemplateLiterals` — placeholders filled one name after another or at once

`applyTemplateLiteralsFromMap` goes through the template once for each name, so that what it has
put in is read again for the names that follow; `buildCombinedResolver` goes through it once, and
looks the name up by what is left of a placeholder without its braces.
-/
import RedFireForge.ApiMock.JsonPath
import RedFireForge.Lib.Scan
import RedFireForge.Lib.Text

namespace RedFireForge.Workflow.TemplateLiterals

open RedFireForge.Lib
open RedFireForge.ApiMock (trim isSpace)

local instance lawfulBEq_chars : LawfulBEq (List Char) := List.instLawfulBEq

/-! ## Expressions -/

/-- `/\{\{\s*name\s*\}\}/` at the start of a text: what is matched, and the text after it. -/
def matchName (name : List Char) : List Char → Option (List Char × List Char)
  | '{' :: '{' :: cs =>
      let inner := cs.dropWhile isSpace
      if name <+: inner then
        match (inner.drop name.length).dropWhile isSpace with
        | '}' :: '}' :: rest =>
            some ('{' :: '{' :: (cs.takeWhile isSpace ++ name ++ (inner.drop name.length).takeWhile isSpace ++ ['}', '}']), rest)
        | _ => none
      else none
  | _ => none

/-- `/\{\{\s*|\s*\}\}/` at the start of a text. -/
def matchBraces (cs : List Char) : Option (Unit × List Char) :=
  match cs with
  | '{' :: '{' :: rest => some ((), rest.dropWhile isSpace)
  | _ =>
      match cs.dropWhile isSpace with
      | '}' :: '}' :: rest => some ((), rest)
      | _ => none

/-- `match.replace(stripRe, '')` -/
def stripBraces (cs : List Char) : List Char := replaceAll matchBraces (fun _ => []) cs

/-! ## The two ways -/

/-- Names and values, in the order of `Object.entries`. -/
abbrev Flat := List (List Char × List Char)

def openBraces : List Char := ['{', '{']

def applyTemplateLiteralsFromMap (template : List Char) (flat : Flat) : List Char :=
  if ¬ openBraces <:+: template then template
  else
    flat.foldl (fun out e => if trim e.1 = [] then out else replaceAll (matchName (trim e.1)) (fun _ => e.2) out) template

/-- The entries that have a name, with the name trimmed. -/
def namedEntries (flat : Flat) : Flat := (flat.map fun e => (trim e.1, e.2)).filter (·.1 ≠ [])

/-- The alternatives in the order of the entries: what is matched, and the name. -/
def matchAny (entries : Flat) (cs : List Char) : Option ((List Char × List Char) × List Char) :=
  entries.findSome? fun e => (matchName e.1 cs).map fun p => ((p.1, e.1), p.2)

/-- Of several values for a name the `Map` has the last one. -/
def lookup (entries : Flat) (name : List Char) : Option (List Char) :=
  (entries.reverse.find? (·.1 = name)).map Prod.snd

def buildCombinedResolver (flat : Flat) (template : List Char) : List Char :=
  let entries := namedEntries flat
  if entries = [] then template
  else if ¬ openBraces <:+: template then template
  else replaceAll (matchAny entries) (fun p => (lookup entries (stripBraces p.1)).getD p.1) template

/-! ## What is put in -/

/-- The value of the first entry with a name. -/
def firstValue (entries : Flat) (name : List Char) : List Char :=
  ((entries.find? (·.1 = name)).map Prod.snd).getD []

/-- The parts of a template: characters, and placeholders with their names. -/
def parts (entries : Flat) (template : List Char) : List (Char ⊕ List Char × List Char) :=
  scan (matchAny entries) template

/-- The parts with the placeholders of some names filled. -/
def filled (entries : Flat) (names : List (List Char)) (ps : List (Char ⊕ List Char × List Char)) : List Char :=
  fill (fun p => if p.2 ∈ names then firstValue entries p.2 else p.1) ps

def isPlaceholderOf (name : List Char) : Option (Char ⊕ List Char × List Char) → Bool
  | some (.inr p) => decide (p.2 = name)
  | _ => false

/-- In the text with the names before it filled, a name has a placeholder only where the template
has one, and none after its own turn. -/
def NothingArises (entries : Flat) (template : List Char) (before : List (List Char)) (name : List Char) : Prop :=
  let ps := parts entries template
  let text := filled entries before ps
  ∀ n < text.length, (matchName name (text.drop n)).isSome →
    ∃ i < ps.length, isPlaceholderOf name ps[i]? = true ∧ name ∉ before ∧ n = (filled entries before (ps.take i)).length

instance (entries : Flat) (template : List Char) (before : List (List Char)) (name : List Char) :
    Decidable (NothingArises entries template before name) := inferInstanceAs (Decidable (∀ n < _, _ → ∃ i < _, _ ∧ _ ∧ _))

/-- What is found for each placeholder of the template is the value of the first entry with its
name, and no placeholder arises from what is put in. -/
structure FilledAlike (flat : Flat) (template : List Char) : Prop where
  found : ∀ p, .inr p ∈ parts (namedEntries flat) template →
    (lookup (namedEntries flat) (stripBraces p.1)).getD p.1 = firstValue (namedEntries flat) p.2
  fresh : ∀ before e after, namedEntries flat = before ++ e :: after →
    NothingArises (namedEntries flat) template (before.map Prod.fst) e.1

/-! ## What a name matches -/

section Match

variable {name cs P rest : List Char} {entries : Flat}

/-- A placeholder of a name, blanks around it. -/
theorem matchName_spec (h : matchName name cs = some (P, rest)) : ∃ ws ws' : List Char,
    (∀ c ∈ ws, isSpace c = true) ∧ (∀ c ∈ ws', isSpace c = true) ∧
      P = '{' :: '{' :: (ws ++ name ++ ws' ++ ['}', '}']) ∧ cs = P ++ rest := by
  unfold matchName at h
  split at h
  next cs =>
    dsimp only at h
    split at h
    next hname =>
      split at h
      next rest' hclose =>
        obtain ⟨rfl, rfl⟩ := Prod.mk.inj (Option.some.inj h)
        refine ⟨_, _, fun c hc => List.mem_takeWhile_imp hc, fun c hc => List.mem_takeWhile_imp hc, rfl, ?_⟩
        have hinner := List.prefix_iff_eq_append.mp hname
        have hcs : cs = cs.takeWhile isSpace ++ (name ++ (((cs.dropWhile isSpace).drop name.length).takeWhile isSpace ++
            '}' :: '}' :: rest')) := by
          rw [← hclose, List.takeWhile_append_dropWhile, hinner, List.takeWhile_append_dropWhile]
        conv_lhs => rw [hcs]
        simp
      next => cases h
    next => cases h
  next => cases h

theorem shrinks_matchName : Shrinks (matchName name) := by
  intro l P rest h
  obtain ⟨ws, ws', -, -, rfl, rfl⟩ := matchName_spec h
  rw [List.length_append, List.length_cons]
  omega

/-- What is matched is matched before any other text. -/
theorem matchName_append (hname : name ≠ []) (hhead : ∀ c ∈ name.head?, isSpace c = false)
    (h : matchName name cs = some (P, rest)) (rest' : List Char) : matchName name (P ++ rest') = some (P, rest') := by
  obtain ⟨ws, ws', hws, hws', rfl, -⟩ := matchName_spec h
  have hdrop : (ws ++ (name ++ (ws' ++ '}' :: '}' :: rest'))).dropWhile isSpace = name ++ (ws' ++ '}' :: '}' :: rest') := by
    rw [List.dropWhile_append_of_pos hws]
    refine dropWhile_of_head fun c hc => hhead c ?_
    rwa [List.head?_append_of_ne_nil _ hname] at hc
  have htake : (ws ++ (name ++ (ws' ++ '}' :: '}' :: rest'))).takeWhile isSpace = ws := by
    obtain ⟨d, ds, rfl⟩ := List.exists_cons_of_ne_nil hname
    rw [List.takeWhile_append_of_pos hws, List.cons_append, List.takeWhile_cons_of_neg, List.append_nil]
    rw [hhead d rfl]
    exact Bool.false_ne_true
  have hdrop' : (ws' ++ '}' :: '}' :: rest').dropWhile isSpace = '}' :: '}' :: rest' := by
    rw [List.dropWhile_append_of_pos hws']
    rfl
  have htake' : (ws' ++ '}' :: '}' :: rest').takeWhile isSpace = ws' := by
    rw [List.takeWhile_append_of_pos hws']
    simp [isSpace]
  have htext : '{' :: '{' :: (ws ++ name ++ ws' ++ ['}', '}']) ++ rest' =
      '{' :: '{' :: (ws ++ (name ++ (ws' ++ '}' :: '}' :: rest'))) := by simp
  rw [htext, matchName, hdrop, if_pos (List.prefix_append _ _), List.drop_left, hdrop', htake, htake']
  rfl

theorem matchAny_spec {p : List Char × List Char} (h : matchAny entries cs = some (p, rest)) :
    p.2 ∈ entries.map Prod.fst ∧ matchName p.2 cs = some (p.1, rest) := by
  obtain ⟨e, he, hfound⟩ := List.exists_of_findSome?_eq_some h
  obtain ⟨q, hq, heq⟩ := Option.map_eq_some_iff.mp hfound
  cases heq
  exact ⟨List.mem_map_of_mem he, hq⟩

theorem shrinks_matchAny : Shrinks (matchAny entries) := by
  intro l p rest h
  exact shrinks_matchName _ _ _ (matchAny_spec h).2

end Match

/-! ## Names one after another -/

section Turns

variable {flat : Flat} {entries before after : Flat} {e : List Char × List Char} {template : List Char}

/-- Names as they are after trimming. -/
def Trimmed (entries : Flat) : Prop := ∀ e ∈ entries, e.1 ≠ [] ∧ ∀ c ∈ e.1.head?, isSpace c = false

theorem trimmed_namedEntries (flat : Flat) : Trimmed (namedEntries flat) := by
  intro e he
  obtain ⟨hmem, hne⟩ := List.mem_filter.mp he
  obtain ⟨e', -, rfl⟩ := List.mem_map.mp hmem
  refine ⟨of_decide_eq_true hne, ?_⟩
  exact head?_trimBy

theorem foldl_named (flat : Flat) (out : List Char) :
    flat.foldl (fun out e => if trim e.1 = [] then out else replaceAll (matchName (trim e.1)) (fun _ => e.2) out) out =
      (namedEntries flat).foldl (fun out e => replaceAll (matchName e.1) (fun _ => e.2) out) out := by
  induction flat generalizing out with
  | nil => rfl
  | cons e flat ih =>
      rw [namedEntries, List.map_cons, List.filter_cons, List.foldl_cons, ih]
      split
      next h => simp [h, namedEntries]
      next h => simp [h, namedEntries]

/-- The parts in which one name has its placeholders, the others are text. -/
def marks (entries : Flat) (names : List (List Char)) (name : List Char) (ps : List (Char ⊕ List Char × List Char)) :
    List (Char ⊕ List Char) :=
  ps.flatMap fun
    | .inl c => [.inl c]
    | .inr p =>
        if p.2 ∈ names then (firstValue entries p.2).map .inl
        else if p.2 = name then [.inr p.1]
        else p.1.map .inl

theorem fill_map_inl {β : Type} (f : β → List Char) (cs : List Char) : fill f (cs.map Sum.inl) = cs := by
  induction cs with
  | nil => rfl
  | cons c cs ih => rw [List.map_cons, fill_cons, ih]; rfl

theorem fill_marks (f : List Char → List Char) (names : List (List Char)) (name : List Char)
    (ps : List (Char ⊕ List Char × List Char)) : fill f (marks entries names name ps) =
      fill (fun p => if p.2 ∈ names then firstValue entries p.2 else if p.2 = name then f p.1 else p.1) ps := by
  induction ps with
  | nil => rfl
  | cons p ps ih =>
      rw [marks, List.flatMap_cons, fill_append, fill_cons, ← ih, marks]
      congr 1
      cases p with
      | inl c => rfl
      | inr p =>
          dsimp only
          rw [Sum.elim_inr]
          split
          next => exact fill_map_inl f _
          next =>
            split
            next => exact List.append_nil _
            next => exact fill_map_inl f _

theorem mem_marks {names : List (List Char)} {name P : List Char} {ps : List (Char ⊕ List Char × List Char)}
    (h : .inr P ∈ marks entries names name ps) : .inr (P, name) ∈ ps := by
  obtain ⟨p, hp, hmem⟩ := List.mem_flatMap.mp h
  cases p with
  | inl c => cases List.mem_singleton.mp hmem
  | inr p =>
      dsimp only at hmem
      split at hmem
      next => simp at hmem
      next =>
        split at hmem
        next hname =>
          cases List.mem_singleton.mp hmem
          rw [← hname]
          exact hp
        next => simp at hmem

theorem filled_eq_fill_marks (names : List (List Char)) (name : List Char) (ps : List (Char ⊕ List Char × List Char)) :
    filled entries names ps = fill id (marks entries names name ps) := by
  rw [fill_marks, filled]
  refine fill_congr fun p _ => ?_
  rw [id, ite_self]

/-- At its turn a name is found exactly where the template has it. -/
theorem scan_filled (htrim : Trimmed entries) (he : e ∈ entries)
    (hfresh : NothingArises entries template (before.map Prod.fst) e.1) :
    scan (matchName e.1) (filled entries (before.map Prod.fst) (parts entries template)) =
      marks entries (before.map Prod.fst) e.1 (parts entries template) := by
  rw [filled_eq_fill_marks _ e.1]
  refine scan_fill shrinks_matchName (fun P hP => ?_) (fun n hn => ?_)
  · obtain ⟨l, rest, hfound⟩ := mem_scan shrinks_matchAny (mem_marks hP)
    have hmatch := (matchAny_spec hfound).2
    refine ⟨?_, matchName_append (htrim e he).1 (htrim e he).2 hmatch⟩
    obtain ⟨ws, ws', -, -, hP, -⟩ := matchName_spec hmatch
    exact fun hnil => List.cons_ne_nil _ _ (hP.symm.trans hnil)
  · rw [← filled_eq_fill_marks] at hn
    have hlt : n < (filled entries (before.map Prod.fst) (parts entries template)).length := by
      by_contra hge
      rw [List.drop_eq_nil_of_le (not_lt.mp hge)] at hn
      cases hn
    obtain ⟨i, -, hplace, hnew, rfl⟩ := hfresh n hlt hn
    obtain ⟨P, hP⟩ : ∃ P, (parts entries template)[i]? = some (.inr (P, e.1)) := by
      unfold isPlaceholderOf at hplace
      split at hplace
      next p hp => exact ⟨p.1, by rw [hp, ← of_decide_eq_true hplace]⟩
      next => cases hplace
    refine ⟨marks entries (before.map Prod.fst) e.1 ((parts entries template).take i), P,
      marks entries (before.map Prod.fst) e.1 ((parts entries template).drop (i + 1)), ?_, ?_⟩
    · have hsplit : parts entries template =
          (parts entries template).take i ++ .inr (P, e.1) :: (parts entries template).drop (i + 1) := by
        obtain ⟨hi, hget⟩ := List.getElem?_eq_some_iff.mp hP
        rw [← hget, List.cons_getElem_drop_succ, List.take_append_drop]
      conv_lhs => rw [hsplit]
      rw [marks, List.flatMap_append, List.flatMap_cons]
      dsimp only
      rw [if_neg hnew, if_pos rfl]
      rfl
    · rw [← filled_eq_fill_marks]

theorem firstValue_eq (h : entries = before ++ e :: after) (hnew : e.1 ∉ before.map Prod.fst) :
    firstValue entries e.1 = e.2 := by
  have hbefore : before.find? (·.1 = e.1) = none := by
    rw [List.find?_eq_none]
    exact fun x hx heq => hnew (List.mem_map.mpr ⟨x, hx, of_decide_eq_true heq⟩)
  have hself : (e :: after).find? (·.1 = e.1) = some e := List.find?_cons_of_pos (by simp)
  rw [firstValue, h, List.find?_append, hbefore, Option.none_or, hself]
  rfl

/-- The turn of one name. -/
theorem replaceAll_filled (htrim : Trimmed entries) (hentries : entries = before ++ e :: after)
    (hfresh : NothingArises entries template (before.map Prod.fst) e.1) :
    replaceAll (matchName e.1) (fun _ => e.2) (filled entries (before.map Prod.fst) (parts entries template)) =
      filled entries ((before ++ [e]).map Prod.fst) (parts entries template) := by
  have he : e ∈ entries := by
    rw [hentries]
    exact List.mem_append_right _ List.mem_cons_self
  rw [replaceAll, scan_filled htrim he hfresh, fill_marks, filled]
  refine fill_congr fun p _ => ?_
  have hmem_iff : p.2 ∈ (before ++ [e]).map Prod.fst ↔ p.2 ∈ before.map Prod.fst ∨ p.2 = e.1 := by simp
  by_cases hmem : p.2 ∈ before.map Prod.fst
  · rw [if_pos hmem, if_pos (hmem_iff.mpr (.inl hmem))]
  · rw [if_neg hmem]
    by_cases hname : p.2 = e.1
    · rw [if_pos hname, if_pos (hmem_iff.mpr (.inr hname)), hname, firstValue_eq hentries (hname ▸ hmem)]
    · rw [if_neg hname, if_neg fun h => (hmem_iff.mp h).elim hmem hname]

/-- The turns of all names from one on. -/
theorem foldl_filled (htrim : Trimmed entries)
    (hfresh : ∀ before e after, entries = before ++ e :: after → NothingArises entries template (before.map Prod.fst) e.1)
    (hentries : entries = before ++ after) :
    after.foldl (fun out e => replaceAll (matchName e.1) (fun _ => e.2) out)
        (filled entries (before.map Prod.fst) (parts entries template)) =
      filled entries (entries.map Prod.fst) (parts entries template) := by
  induction after generalizing before with
  | nil => rw [hentries, List.append_nil]; rfl
  | cons e after ih =>
      rw [List.foldl_cons, replaceAll_filled htrim hentries (hfresh before e after hentries)]
      exact ih (by rw [hentries, List.append_assoc]; rfl)

end Turns

/-! ## Both ways -/

theorem filled_nil (entries : Flat) (template : List Char) : filled entries [] (parts entries template) = template := by
  have htext : ∀ l p rest, matchAny entries l = some (p, rest) → l = p.1 ++ rest := by
    intro l p rest h
    obtain ⟨ws, ws', -, -, -, heq⟩ := matchName_spec (matchAny_spec h).2
    exact heq
  rw [filled, fill_congr (g := Prod.fst) fun p _ => if_neg List.not_mem_nil]
  exact fill_scan shrinks_matchAny htext template

/-- **The two ways agree where what is found is the first value of its name and nothing arises from
what is put in.** -/
theorem combined_eq_sequential (flat : Flat) (template : List Char) (h : FilledAlike flat template) :
    buildCombinedResolver flat template = applyTemplateLiteralsFromMap template flat := by
  have hsequential := foldl_filled (trimmed_namedEntries flat) h.fresh (List.nil_append _).symm
  rw [List.map_nil, filled_nil] at hsequential
  rw [buildCombinedResolver, applyTemplateLiteralsFromMap, foldl_named, hsequential]
  split
  next hnone => rw [hnone, List.map_nil, filled_nil, ite_self]
  next =>
    split
    next => rfl
    next =>
      rw [replaceAll, filled]
      refine fill_congr fun p hp => ?_
      obtain ⟨l, rest, hfound⟩ := mem_scan shrinks_matchAny hp
      rw [h.found p hp, if_pos (matchAny_spec hfound).1]

/-- Blanks in a name, a value that is a name, and braces that are no placeholder. -/
def twoNames : Flat := [(" env ".toList, "id".toList), ("id".toList, "5".toList)]

def twoPlaces : List Char := ['{', '{', ' ', 'e', 'n', 'v', '}', '}', '/', '{', '{', 'i', 'd', ' ', '}', '}', '{', 'x', '}']

theorem twoPlaces_same : buildCombinedResolver twoNames twoPlaces = applyTemplateLiteralsFromMap twoPlaces twoNames := by
  refine combined_eq_sequential twoNames twoPlaces ⟨?_, fun before e after hentries => ?_⟩
  · have hparts : ∀ p ∈ (parts (namedEntries twoNames) twoPlaces).filterMap Sum.getRight?,
        (lookup (namedEntries twoNames) (stripBraces p.1)).getD p.1 = firstValue (namedEntries twoNames) p.2 := by decide
    exact fun p hp => hparts p (List.mem_filterMap.mpr ⟨_, hp, rfl⟩)
  · have hnamed : namedEntries twoNames = [("env".toList, "id".toList), ("id".toList, "5".toList)] := by decide
    rw [hnamed] at hentries ⊢
    match before with
    | [] =>
        cases hentries
        decide
    | [_] =>
        cases hentries
        decide
    | _ :: _ :: before => simp at hentries

/-- The value of `a` is a placeholder of `b`. -/
theorem value_read_again :
    let flat : Flat := [(['a'], ['{', '{', 'b', '}', '}']), (['b'], ['x'])]
    buildCombinedResolver flat ['{', '{', 'a', '}', '}'] ≠ applyTemplateLiteralsFromMap ['{', '{', 'a', '}', '}'] flat := by
  decide

end RedFireForge.Workflow.TemplateLiterals
