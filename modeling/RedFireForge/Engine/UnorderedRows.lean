/-
# `RedFireForge.Engine.UnorderedRows` — expected rows in an array of any order

The fields of a row of an array share their path up to the last index.  `validateFieldsUnordered`
lets each row in its turn take the first index at which all of its fields hold and which no row
before has taken.  A row may so be left without an index though the rows could be matched, and a row
of an empty array is looked for at its own index.
-/
import RedFireForge.Engine.Negation
import RedFireForge.Lib.FirstFit
import RedFireForge.Lib.Grouping
import RedFireForge.Lib.Scan

namespace RedFireForge.Engine.UnorderedRows

open RedFireForge.Lib
open RedFireForge.Engine.JsonPath
open RedFireForge.Engine.Assertions (Env FieldEvalResult)
open RedFireForge.Mapper (ExpectedField)

/-! ## Paths -/

/-- `\[(\d+)\]` at the beginning: its digits, and what follows. -/
def indexAt : List Char → Option (List Char × List Char)
  | '[' :: cs =>
      match cs.dropWhile Char.isDigit with
      | ']' :: rest => if cs.takeWhile Char.isDigit = [] then none else some (cs.takeWhile Char.isDigit, rest)
      | _ => none
  | _ => none

def bracket (inner : List Char) : List Char := '[' :: (inner ++ [']'])

/-- `.` matches no line end. -/
def isLineEnd (c : Char) : Bool := c.toNat ∈ [10, 13, 0x2028, 0x2029]

/-- `/^(.*\[\d+\])/`: what it matches, up to the last index, and what follows. -/
def splitRow : List Char → Option (List Char × List Char)
  | [] => none
  | c :: cs =>
      match if isLineEnd c then none else splitRow cs with
      | some (row, suffix) => some (c :: row, suffix)
      | none => (indexAt (c :: cs)).map fun (digits, suffix) => (bracket digits, suffix)

def rowPrefix (path : List Char) : Option (List Char) := (splitRow path).map Prod.fst

/-- `path.replace(indexPattern, text)` -/
def replaceIndices (text path : List Char) : List Char := replaceAll indexAt (fun _ => text) path

/-- `pattern.replace(/\[\*\]$/, '')` -/
def withoutStar (pattern : List Char) : List Char :=
  if bracket ['*'] <:+ pattern then pattern.take (pattern.length - 3) else pattern

/-! ## Fields -/

variable (env : Env) (body : Json)

/-- The check of a field at a path, with its operator and its negation. -/
def evaluateField (path : List Char) (field : ExpectedField) : FieldEvalResult :=
  let actualValue := getByPath env.js (.json body) (String.ofList path)
  let expectedValue := String.ofList field.expectedValue
  match field.operator with
  | some operator =>
      let result := env.evaluateFieldOperator actualValue operator (field.operatorValue.map String.ofList) expectedValue
      ⟨result.pass != field.negate, (if field.negate then "NOT " else "") ++ result.expected, result.actual⟩
  | none =>
      let actualStr := actualValue.stringify
      let expectedStr := ((env.json.parse expectedValue).getD (.str expectedValue)).stringify
      ⟨decide (actualStr = some expectedStr) != field.negate,
        if field.negate then "NOT equals " ++ expectedValue else expectedValue, actualStr.getD "undefined"⟩

def validateFields (fields : List ExpectedField) : List FailureDetail :=
  fields.filterMap fun field =>
    let result := evaluateField env body field.jsonPath field
    if result.pass then none else some ⟨String.ofList field.jsonPath, result.expected, result.actual⟩

/-! ## Rows -/

/-- The text before the last index of a row, and its fields. -/
abbrev Row : Type := (_ : List Char) × List ExpectedField

def arrayFields (fields : List ExpectedField) : List ExpectedField :=
  fields.filter fun field => (rowPrefix field.jsonPath).isSome

def nonArrayFields (fields : List ExpectedField) : List ExpectedField :=
  fields.filter fun field => (rowPrefix field.jsonPath).isNone

def rowGroups (fields : List ExpectedField) : InsertionMap (List Char) (List ExpectedField) :=
  groupsOf (fun field => (rowPrefix field.jsonPath).getD []) (arrayFields fields)

def arrayGroups (fields : List ExpectedField) : InsertionMap (List Char) (List Row) :=
  groupsOf (fun row : Row => replaceIndices (bracket ['*']) row.1) (rowGroups fields).entries

/-- The number of items at a path, and none where there is no array. -/
def arrayLength (arrayPath : List Char) : ℕ :=
  let responseArray : Value :=
    if arrayPath = [] then .json body else getByPath env.js (.json body) (String.ofList arrayPath)
  (responseArray.items?.map List.length).getD 0

/-- The check of a field of a row, moved to an index. -/
def evaluateAt (row : Row) (i : ℕ) (field : ExpectedField) : FieldEvalResult :=
  evaluateField env body
    (replaceIndices (bracket (Nat.toDigits 10 i)) row.1 ++ field.jsonPath.drop row.1.length) field

def allMatch (row : Row) (i : ℕ) : Bool := row.2.all fun field => (evaluateAt env body row i field).pass

/-- The index at which most fields hold, the first of these. -/
def bestPartial (candidates : List ℕ) (row : Row) : Option ℕ :=
  let matchCount (i : ℕ) := (row.2.filter fun field => (evaluateAt env body row i field).pass).length
  candidates.foldl (fun best i => if (best.map matchCount).getD 0 < matchCount i then some i else best) none

/-- `replace(/^\./, '')` -/
def withoutDot : List Char → List Char
  | '.' :: cs => cs
  | cs => cs

/-- `replace(/^"|"$/g, '')` -/
def withoutQuotes (text : String) : String :=
  let cs := match text.toList with | '"' :: cs => cs | cs => cs
  String.ofList (if cs.getLast? = some '"' then cs.dropLast else cs)

/-- What is reported of a row that finds no index. -/
def rowFailures (candidates : List ℕ) (row : Row) : List FailureDetail :=
  match bestPartial env body candidates row with
  | some i =>
      let matchedContext := ", ".intercalate
        ((row.2.filter fun field => (evaluateAt env body row i field).pass).map fun field =>
          String.ofList (withoutDot (field.jsonPath.drop row.1.length)) ++ "=" ++ String.ofList field.expectedValue)
      (row.2.filter fun field => !(evaluateAt env body row i field).pass).map fun field =>
        ⟨String.ofList field.jsonPath, String.ofList field.expectedValue,
          withoutQuotes (evaluateAt env body row i field).actual ++ " (matched by " ++ matchedContext ++ " at [" ++
            toString i ++ "])"⟩
  | none =>
      row.2.map fun field =>
        ⟨String.ofList field.jsonPath, String.ofList field.expectedValue, "no matching item found in array"⟩

/-- The loop over the rows of an array. -/
def matchRows (arrayLen : ℕ) : List ℕ → List Row → List FailureDetail
  | _, [] => []
  | usedIndices, row :: rows =>
      let candidates := (List.range arrayLen).filter (· ∉ usedIndices)
      match candidates.find? (allMatch env body row) with
      | some matchedIndex => matchRows arrayLen (matchedIndex :: usedIndices) rows
      | none => rowFailures env body candidates row ++ matchRows arrayLen usedIndices rows

def validateArray (pattern : List Char) (rows : List Row) : List FailureDetail :=
  let arrayLen := arrayLength env body (withoutStar pattern)
  if arrayLen = 0 then rows.flatMap fun row => validateFields env body row.2
  else matchRows env body arrayLen [] rows

def validateFieldsUnordered (fields : List ExpectedField) : List FailureDetail :=
  validateFields env body (nonArrayFields fields) ++
    (arrayGroups fields).entries.flatMap fun e => validateArray env body e.1 e.2

/-! ## What is wanted -/

/-- The path of the array of a row: without the last index. -/
def arrayOf (row : List Char) : List Char := (row.dropLast.rdropWhile Char.isDigit).dropLast

/-- All fields of a row hold at an index of its array, and the indices before stay as they are. -/
def Fits (fields : List ExpectedField) (row : List Char) (i : ℕ) : Prop :=
  i < arrayLength env body (arrayOf row) ∧
    ∀ field ∈ fields, ∀ suffix, splitRow field.jsonPath = some (row, suffix) →
      (evaluateField env body (arrayOf row ++ bracket (Nat.toDigits 10 i) ++ suffix) field).pass = true

/-- The rows of an array, in the order of their first fields. -/
def rowsOf (fields : List ExpectedField) (arrayPath : List Char) : List (List Char) :=
  (rowGroups fields).keys.filter (arrayOf · = arrayPath)

/-- The fields of no array hold, and the rows of each array hold at indices of their own. -/
structure RowMatching (fields : List ExpectedField) : Prop where
  nonArray : ∀ field ∈ fields, splitRow field.jsonPath = none → (evaluateField env body field.jsonPath field).pass = true
  arrays : ∀ arrayPath, Assignable (Fits env body fields) (rowsOf fields arrayPath)

/-- The array of expected rows is empty, and all of their fields hold at their own paths. -/
def Vacuous (fields : List ExpectedField) (arrayPath : List Char) : Prop :=
  rowsOf fields arrayPath ≠ [] ∧ arrayLength env body arrayPath = 0 ∧
    ∀ field ∈ fields, ∀ row suffix, splitRow field.jsonPath = some (row, suffix) → arrayOf row = arrayPath →
      (evaluateField env body field.jsonPath field).pass = true

/-- A row finds all indices at which it holds taken by the rows before, each at the first that was free, though
the rows could be matched. -/
def Lost (fields : List ExpectedField) (arrayPath : List Char) : Prop :=
  Blocked (Fits env body fields) (rowsOf fields arrayPath) ∧ Assignable (Fits env body fields) (rowsOf fields arrayPath)

/-- A path has an index before its last one. -/
def Nested (path : List Char) : Prop :=
  ∃ row suffix, splitRow path = some (row, suffix) ∧ ∃ t, t <:+ arrayOf row ∧ (indexAt t).isSome

/-! ## Paths taken apart -/

section Paths

variable {path row suffix digits text arrayPath : List Char}

theorem indexAt_spec (h : indexAt path = some (digits, suffix)) :
    path = bracket digits ++ suffix ∧ digits ≠ [] ∧ ∀ c ∈ digits, c.isDigit = true := by
  rw [indexAt.eq_def] at h
  split at h
  next cs =>
    split at h
    next rest hdrop =>
      split at h
      next => cases h
      next hne =>
        cases h
        refine ⟨?_, hne, fun c hc => List.mem_takeWhile_imp hc⟩
        rw [bracket, List.cons_append, List.append_assoc, List.singleton_append, ← hdrop, List.takeWhile_append_dropWhile]
    next => cases h
  next => cases h

/-- An index is read where it stands. -/
theorem indexAt_bracket (hne : digits ≠ []) (hdigits : ∀ c ∈ digits, c.isDigit = true) :
    indexAt (bracket digits ++ suffix) = some (digits, suffix) := by
  have hdrop : (digits ++ ']' :: suffix).dropWhile Char.isDigit = ']' :: suffix := by
    rw [List.dropWhile_append_of_pos hdigits]
    rfl
  have htake : (digits ++ ']' :: suffix).takeWhile Char.isDigit = digits := by
    rw [List.takeWhile_append_of_pos hdigits]
    exact List.append_nil digits
  rw [bracket, List.cons_append, List.append_assoc, List.singleton_append, indexAt, hdrop, htake]
  exact if_neg hne

/-- What follows a text does not make an index of it. -/
theorem indexAt_append_bracket (h : indexAt path = none) (hne : path ≠ []) :
    indexAt (path ++ bracket digits) = none := by
  refine Option.eq_none_iff_forall_ne_some.mpr fun ⟨digits', suffix⟩ hsome => ?_
  obtain ⟨hpath, hne', hall⟩ := indexAt_spec hsome
  obtain ⟨c, cs, rfl⟩ := List.exists_cons_of_ne_nil hne
  obtain ⟨rfl, hcs⟩ : c = '[' ∧ cs ++ '[' :: (digits ++ [']']) = digits' ++ ']' :: suffix := by
    simpa [bracket] using hpath
  rcases List.append_eq_append_iff.mp hcs with ⟨t, hdigits, ht⟩ | ⟨t, hcs, ht⟩
  · cases t with
    | nil => cases ht
    | cons c t =>
        obtain rfl : '[' = c := (List.cons.inj ht).1
        exact absurd (hall '[' (by simp [hdigits])) (by decide)
  · cases t with
    | nil => cases ht
    | cons c t =>
        obtain rfl : ']' = c := (List.cons.inj ht).1
        have hindex : indexAt ('[' :: cs) = some (digits', t) := by
          rw [hcs]
          simpa [bracket] using @indexAt_bracket t digits' hne' hall
        rw [h] at hindex
        cases hindex

theorem indexAt_shrinks : Shrinks indexAt := by
  intro l digits rest h
  obtain ⟨rfl, -⟩ := indexAt_spec h
  simp [bracket]
  omega

theorem splitRow_spec (h : splitRow path = some (row, suffix)) : path = row ++ suffix ∧
    ∃ arrayPath digits, row = arrayPath ++ bracket digits ∧ digits ≠ [] ∧ ∀ c ∈ digits, c.isDigit = true := by
  induction path generalizing row with
  | nil => cases h
  | cons c cs ih =>
      rw [splitRow] at h
      cases hlater : (if isLineEnd c then none else splitRow cs) with
      | some later =>
          rw [hlater] at h
          obtain ⟨rfl, rfl⟩ : c :: later.1 = row ∧ later.2 = suffix := by simpa using h
          have hsplit : splitRow cs = some (later.1, later.2) := by
            split at hlater
            next => cases hlater
            next => exact hlater
          obtain ⟨hcs, arrayPath, digits, hrow, hdigits⟩ := ih hsplit
          exact ⟨by rw [List.cons_append, ← hcs], c :: arrayPath, digits, by rw [hrow, List.cons_append], hdigits⟩
      | none =>
          rw [hlater] at h
          obtain ⟨⟨digits, rest⟩, hindex, heq⟩ := Option.map_eq_some_iff.mp h
          obtain ⟨rfl, rfl⟩ : bracket digits = row ∧ rest = suffix := by simpa using heq
          obtain ⟨hpath, hdigits⟩ := indexAt_spec hindex
          exact ⟨hpath, [], digits, rfl, hdigits⟩

theorem arrayOf_append (hdigits : ∀ c ∈ digits, c.isDigit = true) : arrayOf (arrayPath ++ bracket digits) = arrayPath := by
  have hlast : (arrayPath ++ bracket digits).dropLast = (arrayPath ++ ['[']) ++ digits := by
    rw [bracket, ← List.cons_append, ← List.append_assoc, List.dropLast_concat, List.append_assoc]
    rfl
  rw [arrayOf, hlast, rdropWhile_append_of_pos hdigits, List.rdropWhile_concat_neg _ _ _ (by decide), List.dropLast_concat]

theorem replaceIndices_append (hflat : ∀ t, t <:+ arrayPath → indexAt t = none) (hne : digits ≠ [])
    (hdigits : ∀ c ∈ digits, c.isDigit = true) : replaceIndices text (arrayPath ++ bracket digits) = arrayPath ++ text := by
  rw [replaceIndices, replaceAll]
  induction arrayPath with
  | nil =>
      have hindex : indexAt ('[' :: (digits ++ [']'])) = some (digits, []) := by
        simpa [bracket] using @indexAt_bracket [] digits hne hdigits
      rw [List.nil_append, bracket, scan_some indexAt_shrinks hindex]
      simp [scan, scanFuel]
  | cons c cs ih =>
      have hnone : indexAt (c :: (cs ++ bracket digits)) = none :=
        indexAt_append_bracket (hflat _ List.suffix_rfl) (List.cons_ne_nil c cs)
      rw [List.cons_append, scan_none hnone, fill_cons, ih fun t ht => hflat t (ht.trans (List.suffix_cons c cs))]
      rfl

theorem withoutStar_append : withoutStar (arrayPath ++ bracket ['*']) = arrayPath := by
  rw [withoutStar, if_pos ⟨arrayPath, rfl⟩]
  simp [bracket]

end Paths

/-! ## Rows that find an index -/

section Rows

variable {env : Env} {body : Json} {row : Row} {rows : List Row} {candidates : List ℕ} {n i : ℕ}

theorem mem_of_bestPartial (h : bestPartial env body candidates row = some i) : i ∈ candidates := by
  have hfold : ∀ (candidates : List ℕ) (count : ℕ → ℕ) (best : Option ℕ),
      candidates.foldl (fun best i => if (best.map count).getD 0 < count i then some i else best) best = some i →
        best = some i ∨ i ∈ candidates := by
    intro candidates count
    induction candidates with
    | nil => exact fun best h => .inl h
    | cons j candidates ih =>
        intro best h
        rcases ih _ h with hbest | hmem
        · dsimp only at hbest
          split at hbest
          next => exact .inr (Option.some.inj hbest ▸ List.mem_cons_self)
          next => exact .inl hbest
        · exact .inr (List.mem_cons_of_mem j hmem)
  exact (hfold candidates _ none h).resolve_left nofun

/-- Something is reported of a row that finds no index. -/
theorem rowFailures_ne_nil (hfields : row.2 ≠ []) (hnone : ∀ i ∈ candidates, allMatch env body row i = false) :
    rowFailures env body candidates row ≠ [] := by
  rw [rowFailures]
  cases hbest : bestPartial env body candidates row with
  | none => exact List.map_eq_nil_iff.not.mpr hfields
  | some i =>
      obtain ⟨field, hmem, hfails⟩ := List.all_eq_false.mp (hnone i (mem_of_bestPartial hbest))
      refine List.map_eq_nil_iff.not.mpr (List.ne_nil_of_mem (List.mem_filter.mpr ⟨hmem, ?_⟩))
      simpa using hfails

/-- The loop takes the first slots that fit. -/
theorem matchRows_eq_nil_iff {Fits : List Char → ℕ → Prop} {before : List (List Char)} {used : List ℕ}
    (hused : FirstFit Fits before used)
    (hrows : ∀ row ∈ rows, row.2 ≠ [] ∧ ∀ i, Fits row.1 i ↔ i < n ∧ allMatch env body row i = true) :
    matchRows env body n used rows = [] ↔ ∃ used', FirstFit Fits (before ++ rows.map Sigma.fst) used' := by
  induction rows generalizing before used with
  | nil => exact iff_of_true rfl ⟨used, by simpa using hused⟩
  | cons row rows ih =>
      obtain ⟨⟨hfields, hfits⟩, hrest⟩ := List.forall_mem_cons.mp hrows
      rw [matchRows]
      cases hfound : ((List.range n).filter (· ∉ used)).find? (allMatch env body row) with
      | some i =>
          obtain ⟨⟨hi, hfree, hmatch⟩, hfirst⟩ := find?_free_eq_some.mp hfound
          have hused' : FirstFit Fits (before ++ [row.1]) (i :: used) := by
            exact .snoc hused ((hfits i).mpr ⟨hi, hmatch⟩) hfree fun j hj hj' => hfirst j hj ((hfits j).mp hj').2
          have ih' := ih hused' hrest
          rwa [List.append_assoc] at ih'
      | none =>
          have hnone := find?_free_eq_none.mp hfound
          refine iff_of_false (fun h => ?_) ?_
          · refine rowFailures_ne_nil hfields (fun i hi => ?_) (List.append_eq_nil_iff.mp h).1
            obtain ⟨hi, hfree⟩ := List.mem_filter.mp hi
            rw [Bool.eq_false_iff]
            exact fun hmatch => of_decide_eq_true hfree (hnone i (List.mem_range.mp hi) hmatch)
          · rintro ⟨used', hused'⟩
            have hblocked : Blocked Fits (before ++ (row :: rows).map Sigma.fst) :=
              ⟨before, row.1, rows.map Sigma.fst, used, rfl, hused,
                fun i hi => hnone i ((hfits i).mp hi).1 ((hfits i).mp hi).2⟩
            exact not_firstFit_of_blocked hblocked hused'

end Rows

/-! ## Groups of rows -/

section Groups

variable {env : Env} {body : Json} {fields fs : List ExpectedField} {row arrayPath : List Char} {i : ℕ}

theorem mem_rowGroups : ⟨row, fs⟩ ∈ (rowGroups fields).entries ↔
    fs = fields.filter (fun field => rowPrefix field.jsonPath = some row) ∧ fs ≠ [] := by
  have hfilter : (arrayFields fields).filter (fun field => (rowPrefix field.jsonPath).getD [] = row) =
      fields.filter fun field => rowPrefix field.jsonPath = some row := by
    rw [arrayFields, List.filter_filter]
    refine List.filter_congr fun field _ => ?_
    cases rowPrefix field.jsonPath <;> simp
  rw [rowGroups, mem_groupsOf, hfilter]

theorem rowPrefix_eq_some {path : List Char} : rowPrefix path = some row ↔ ∃ suffix, splitRow path = some (row, suffix) := by
  rw [rowPrefix, Option.map_eq_some_iff]
  exact ⟨fun ⟨(_, suffix), h, heq⟩ => ⟨suffix, heq ▸ h⟩, fun ⟨suffix, h⟩ => ⟨_, h, rfl⟩⟩

theorem mem_keys_iff : row ∈ (rowGroups fields).keys ↔ ∃ field ∈ fields, ∃ suffix, splitRow field.jsonPath = some (row, suffix) := by
  constructor
  · intro h
    obtain ⟨⟨_, fs⟩, hmem, rfl⟩ := List.mem_map.mp h
    obtain ⟨rfl, hne⟩ := mem_rowGroups.mp hmem
    obtain ⟨field, hfield⟩ := List.exists_mem_of_ne_nil _ hne
    obtain ⟨hfield, heq⟩ := List.mem_filter.mp hfield
    exact ⟨field, hfield, rowPrefix_eq_some.mp (of_decide_eq_true heq)⟩
  · rintro ⟨field, hfield, hsplit⟩
    have hmem : field ∈ fields.filter fun field => rowPrefix field.jsonPath = some row :=
      List.mem_filter.mpr ⟨hfield, decide_eq_true (rowPrefix_eq_some.mpr hsplit)⟩
    exact List.mem_map.mpr ⟨_, mem_rowGroups.mpr ⟨rfl, List.ne_nil_of_mem hmem⟩, rfl⟩

/-- A row is the path of its array and an index. -/
theorem row_spec (h : row ∈ (rowGroups fields).keys) :
    ∃ digits, row = arrayOf row ++ bracket digits ∧ digits ≠ [] ∧ ∀ c ∈ digits, c.isDigit = true := by
  obtain ⟨field, -, suffix, hsplit⟩ := mem_keys_iff.mp h
  obtain ⟨-, arrayPath, digits, rfl, hne, hdigits⟩ := splitRow_spec hsplit
  exact ⟨digits, by rw [arrayOf_append hdigits], hne, hdigits⟩

/-- With one index only that one is moved. -/
theorem replaceIndices_row (hflat : ∀ field ∈ fields, ¬ Nested field.jsonPath) (h : row ∈ (rowGroups fields).keys)
    (text : List Char) : replaceIndices text row = arrayOf row ++ text := by
  obtain ⟨digits, hrow, hne, hdigits⟩ := row_spec h
  obtain ⟨field, hfield, suffix, hsplit⟩ := mem_keys_iff.mp h
  have hnone : ∀ t, t <:+ arrayOf row → indexAt t = none := fun t ht =>
    Option.not_isSome_iff_eq_none.mp fun hindex => hflat field hfield ⟨row, suffix, hsplit, t, ht, hindex⟩
  calc replaceIndices text row = replaceIndices text (arrayOf row ++ bracket digits) := by rw [← hrow]
    _ = arrayOf row ++ text := replaceIndices_append hnone hne hdigits

theorem allMatch_iff (hflat : ∀ field ∈ fields, ¬ Nested field.jsonPath) (h : ⟨row, fs⟩ ∈ (rowGroups fields).entries)
    (hi : i < arrayLength env body (arrayOf row)) : allMatch env body ⟨row, fs⟩ i = true ↔ Fits env body fields row i := by
  have hkey : row ∈ (rowGroups fields).keys := List.mem_map.mpr ⟨_, h, rfl⟩
  obtain ⟨rfl, -⟩ := mem_rowGroups.mp h
  have hat {field : ExpectedField} {suffix : List Char} (hsplit : splitRow field.jsonPath = some (row, suffix)) :
      evaluateAt env body ⟨row, fields.filter fun field => rowPrefix field.jsonPath = some row⟩ i field =
        evaluateField env body (arrayOf row ++ bracket (Nat.toDigits 10 i) ++ suffix) field := by
    rw [evaluateAt, replaceIndices_row hflat hkey, (splitRow_spec hsplit).1, List.drop_left]
  rw [allMatch, List.all_eq_true]
  constructor
  · intro hall
    refine ⟨hi, fun field hfield suffix hsplit => ?_⟩
    rw [← hat hsplit]
    exact hall field (List.mem_filter.mpr ⟨hfield, decide_eq_true (rowPrefix_eq_some.mpr ⟨suffix, hsplit⟩)⟩)
  · intro hfits field hmem
    obtain ⟨hfield, hrow⟩ := List.mem_filter.mp hmem
    obtain ⟨suffix, hsplit⟩ := rowPrefix_eq_some.mp (of_decide_eq_true hrow)
    rw [hat hsplit]
    exact hfits.2 field hfield suffix hsplit

theorem validateFields_eq_nil_iff : validateFields env body fs = [] ↔
    ∀ field ∈ fs, (evaluateField env body field.jsonPath field).pass = true := by
  rw [validateFields, List.filterMap_eq_nil_iff]
  refine forall₂_congr fun field _ => ?_
  cases hpass : (evaluateField env body field.jsonPath field).pass <;> simp [hpass]

/-- What the code asks of the rows of an array. -/
def Accepts (env : Env) (body : Json) (fields : List ExpectedField) (arrayPath : List Char) : Prop :=
  if arrayLength env body arrayPath = 0 then
    ∀ field ∈ fields, ∀ row suffix, splitRow field.jsonPath = some (row, suffix) → arrayOf row = arrayPath →
      (evaluateField env body field.jsonPath field).pass = true
  else ∃ used, FirstFit (Fits env body fields) (rowsOf fields arrayPath) used

/-- The rows of an array are those of its group. -/
theorem map_fst_group : (((rowGroups fields).entries.filter fun row => arrayOf row.1 = arrayPath).map Sigma.fst) =
    rowsOf fields arrayPath := by
  rw [rowsOf, AList.keys, List.keys, List.filter_map]
  rfl

theorem validateArray_eq_nil_iff (hflat : ∀ field ∈ fields, ¬ Nested field.jsonPath) :
    validateArray env body (arrayPath ++ bracket ['*'])
        ((rowGroups fields).entries.filter fun row => arrayOf row.1 = arrayPath) = [] ↔
      Accepts env body fields arrayPath := by
  rw [validateArray, withoutStar_append, Accepts]
  split
  next =>
    rw [List.flatMap_eq_nil_iff]
    constructor
    · intro h field hfield row suffix hsplit harray
      have hmem : field ∈ fields.filter fun field => rowPrefix field.jsonPath = some row :=
        List.mem_filter.mpr ⟨hfield, decide_eq_true (rowPrefix_eq_some.mpr ⟨suffix, hsplit⟩)⟩
      have hentry := mem_rowGroups.mpr ⟨rfl, List.ne_nil_of_mem hmem⟩
      exact validateFields_eq_nil_iff.mp (h _ (List.mem_filter.mpr ⟨hentry, decide_eq_true harray⟩)) field hmem
    · rintro h ⟨row, fs⟩ hrow
      obtain ⟨hentry, harray⟩ := List.mem_filter.mp hrow
      obtain ⟨rfl, -⟩ := mem_rowGroups.mp hentry
      refine validateFields_eq_nil_iff.mpr fun field hmem => ?_
      obtain ⟨hfield, hprefix⟩ := List.mem_filter.mp hmem
      obtain ⟨suffix, hsplit⟩ := rowPrefix_eq_some.mp (of_decide_eq_true hprefix)
      exact h field hfield row suffix hsplit (of_decide_eq_true harray)
  next =>
    have hrows : ∀ row ∈ (rowGroups fields).entries.filter (fun row => arrayOf row.1 = arrayPath), row.2 ≠ [] ∧
        ∀ i, Fits env body fields row.1 i ↔ i < arrayLength env body arrayPath ∧ allMatch env body row i = true := by
      rintro ⟨row, fs⟩ hrow
      obtain ⟨hentry, harray⟩ := List.mem_filter.mp hrow
      obtain rfl : arrayOf row = arrayPath := of_decide_eq_true harray
      refine ⟨(mem_rowGroups.mp hentry).2, fun i => ⟨fun hfits => ?_, fun ⟨hi, hmatch⟩ => ?_⟩⟩
      · exact ⟨hfits.1, (allMatch_iff hflat hentry hfits.1).mpr hfits⟩
      · exact (allMatch_iff hflat hentry hi).mp hmatch
    rw [matchRows_eq_nil_iff .nil hrows, map_fst_group]
    rfl

/-- **What the code accepts, where no path has an index before its last.** -/
theorem validateFieldsUnordered_eq_nil_iff (hflat : ∀ field ∈ fields, ¬ Nested field.jsonPath) :
    validateFieldsUnordered env body fields = [] ↔
      (∀ field ∈ fields, splitRow field.jsonPath = none → (evaluateField env body field.jsonPath field).pass = true) ∧
        ∀ arrayPath, Accepts env body fields arrayPath := by
  rw [validateFieldsUnordered, List.append_eq_nil_iff, validateFields_eq_nil_iff, List.flatMap_eq_nil_iff]
  refine and_congr ?_ ?_
  · constructor
    · intro h field hfield hnone
      exact h field (List.mem_filter.mpr ⟨hfield, by simp [rowPrefix, hnone]⟩)
    · intro h field hmem
      obtain ⟨hfield, hnone⟩ := List.mem_filter.mp hmem
      exact h field hfield (by simpa [rowPrefix] using hnone)
  · have hgroup (arrayPath : List Char) :
        (rowGroups fields).entries.filter (fun row => replaceIndices (bracket ['*']) row.1 = arrayPath ++ bracket ['*']) =
          (rowGroups fields).entries.filter fun row => arrayOf row.1 = arrayPath := by
      refine List.filter_congr fun row hrow => ?_
      rw [replaceIndices_row hflat (List.mem_map.mpr ⟨row, hrow, rfl⟩)]
      simp
    constructor
    · intro h arrayPath
      by_cases hnil : (rowGroups fields).entries.filter (fun row => arrayOf row.1 = arrayPath) = []
      · refine (validateArray_eq_nil_iff hflat).mp ?_
        rw [hnil, validateArray]
        split <;> rfl
      · refine (validateArray_eq_nil_iff hflat).mp (h ⟨_, _⟩ ?_)
        exact mem_groupsOf.mpr ⟨(hgroup arrayPath).symm, hnil⟩
    · rintro h ⟨pattern, rows⟩ hmem
      obtain ⟨hrows, hne⟩ := mem_groupsOf.mp hmem
      obtain ⟨row, hrow⟩ := List.exists_mem_of_ne_nil _ hne
      rw [hrows] at hrow
      obtain ⟨hentry, hpattern⟩ := List.mem_filter.mp hrow
      have hpattern' := of_decide_eq_true hpattern
      rw [replaceIndices_row hflat (List.mem_map.mpr ⟨row, hentry, rfl⟩)] at hpattern'
      obtain rfl := hpattern'
      rw [hgroup] at hrows
      rw [hrows]
      exact (validateArray_eq_nil_iff hflat).mpr (h _)

end Groups

/-! ## The result -/

section Result

variable {env : Env} {body : Json} {fields : List ExpectedField} {arrayPath : List Char}

theorem not_assignable_of_empty (hrows : rowsOf fields arrayPath ≠ []) (hempty : arrayLength env body arrayPath = 0) :
    ¬ Assignable (Fits env body fields) (rowsOf fields arrayPath) := by
  rintro ⟨slot, hfits, -⟩
  obtain ⟨row, hrow⟩ := List.exists_mem_of_ne_nil _ hrows
  have harray : arrayOf row = arrayPath := of_decide_eq_true (List.mem_filter.mp hrow).2
  have hlt := (hfits row hrow).1
  rw [harray, hempty] at hlt
  exact absurd hlt (Nat.not_lt_zero _)

theorem nodup_rowsOf : (rowsOf fields arrayPath).Nodup := (rowGroups fields).nodupKeys.filter _

/-- What the code accepts of an array, against what is wanted. -/
theorem accepts_iff : Accepts env body fields arrayPath ↔ Vacuous env body fields arrayPath ∨
    Assignable (Fits env body fields) (rowsOf fields arrayPath) ∧ ¬ Lost env body fields arrayPath := by
  have hfirst : (∃ used, FirstFit (Fits env body fields) (rowsOf fields arrayPath) used) ↔
      Assignable (Fits env body fields) (rowsOf fields arrayPath) ∧ ¬ Lost env body fields arrayPath := by
    constructor
    · rintro ⟨used, hused⟩
      exact ⟨hused.assignable nodup_rowsOf, fun hlost => not_firstFit_of_blocked hlost.1 hused⟩
    · rintro ⟨hassignable, hlost⟩
      exact (firstFit_or_blocked _ _).resolve_right fun hblocked => hlost ⟨hblocked, hassignable⟩
  rw [Accepts]
  split
  next hempty =>
    by_cases hrows : rowsOf fields arrayPath = []
    · refine iff_of_true (fun field hfield row suffix hsplit harray => ?_) (.inr (hfirst.mp ?_))
      · have hmem : row ∈ rowsOf fields arrayPath :=
          List.mem_filter.mpr ⟨mem_keys_iff.mpr ⟨field, hfield, suffix, hsplit⟩, decide_eq_true harray⟩
        exact absurd hmem (hrows ▸ List.not_mem_nil)
      · exact ⟨[], hrows ▸ .nil⟩
    · constructor
      · exact fun hhold => .inl ⟨hrows, hempty, hhold⟩
      · rintro (hvacuous | ⟨hassignable, -⟩)
        · exact hvacuous.2.2
        · exact absurd hassignable (not_assignable_of_empty hrows hempty)
  next hnonempty =>
    rw [hfirst, or_iff_right fun hvacuous : Vacuous env body fields arrayPath => hnonempty hvacuous.2.1]

end Result

/-! ## Two rows -/

section TwoRows

def expects (path value : String) : ExpectedField := { jsonPath := path.toList, expectedValue := value.toList }

def twoRows : List ExpectedField := [expects "items[0].sku" "A", expects "items[1].qty" "x", expects "id" "k"]

def order (items : List (String × String)) : Json :=
  .obj [("id", .str "k"), ("items", .arr (items.map fun x => .obj [("sku", .str x.1), ("qty", .str x.2)]))]

theorem not_nested {path : List Char} (h : ∀ r ∈ splitRow path, ∀ t ∈ (arrayOf r.1).tails, indexAt t = none) : ¬ Nested path := by
  rintro ⟨row, suffix, hsplit, t, ht, hindex⟩
  rw [h _ hsplit t ((List.mem_tails _ _).mpr ht)] at hindex
  cases hindex

theorem twoRows_flat : ∀ field ∈ twoRows, ¬ Nested field.jsonPath := by
  have h : ∀ field ∈ twoRows, ∀ r ∈ splitRow field.jsonPath, ∀ t ∈ (arrayOf r.1).tails, indexAt t = none := by decide
  exact fun field hfield => not_nested (h field hfield)

end TwoRows

end RedFireForge.Engine.UnorderedRows
