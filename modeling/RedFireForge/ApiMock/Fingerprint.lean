/-
# `RedFireForge.ApiMock.Fingerprint` — the text a definition is hashed from

`canonicalJson` sorts the keys of every object and leaves out some names, wherever they
occur.  Sorted text determines what stands at the end of every path that it keeps, so
two definitions with one text can differ only below such a name.
-/
import RedFireForge.Lib.JsonTree

namespace RedFireForge.ApiMock

open RedFireForge.Lib RedFireForge.Lib.Json

/-! ## The code -/

/-- The order in which an object whose keys were set in sorted order lists them: numbers
first, then by their code units. -/
structure KeyOrder where
  le : String → String → Bool
  total : ∀ a b, le a b = true ∨ le b a = true
  trans : ∀ a b c, le a b = true → le b c = true → le a c = true
  antisymm : ∀ a b, le a b = true → le b a = true → a = b

/-- To set this key of an object sets its prototype. -/
def protoKey : String := "__proto__"

mutual
def sortObjectKeys (order : KeyOrder) : Json → Json
  | .arr items => .arr (sortItems order items)
  | .obj fields =>
      .obj ((sortFields order fields).insertionSort (fun f g => order.le f.1 g.1 = true))
  | j => j

def sortItems (order : KeyOrder) : List Json → List Json
  | [] => []
  | j :: items => sortObjectKeys order j :: sortItems order items

def sortFields (order : KeyOrder) : List (String × Json) → List (String × Json)
  | [] => []
  | (key, j) :: fields =>
      if key = protoKey then sortFields order fields
      else (key, sortObjectKeys order j) :: sortFields order fields
end

mutual
/-- What `JSON.stringify` writes of a value if the replacer leaves out some keys. -/
def leaveOut (exclude : List String) : Json → Json
  | .arr items => .arr (leaveOutItems exclude items)
  | .obj fields => .obj (leaveOutFields exclude fields)
  | j => j

def leaveOutItems (exclude : List String) : List Json → List Json
  | [] => []
  | j :: items => leaveOut exclude j :: leaveOutItems exclude items

def leaveOutFields (exclude : List String) : List (String × Json) → List (String × Json)
  | [] => []
  | (key, j) :: fields =>
      if key ∈ exclude then leaveOutFields exclude fields
      else (key, leaveOut exclude j) :: leaveOutFields exclude fields
end

def canonicalJson (order : KeyOrder) (obj : Json) (exclude : List String) : String :=
  stringify (leaveOut exclude (sortObjectKeys order obj))

def definitionExclude : List String :=
  ["createdAt", "updatedAt", "source", "serverFolder", "harSourceEntry"]

/-- A server definition as a value; an object has each key once. -/
structure Definition where
  value : Json
  distinct : EachObject List.Nodup value

/-- The text of which `computeDefinitionFingerprint` takes the hash. -/
def definitionText (order : KeyOrder) (d : Definition) : String :=
  canonicalJson order d.value definitionExclude

/-! ## What each pass keeps -/

section Passes

variable {order : KeyOrder} {exclude : List String} {j : Json} {items : List Json}
  {fields : List (String × Json)} {name : String}

def isKey (names : List String) : Step → Bool
  | .key name => decide (name ∈ names)
  | .index _ => false

theorem sortItems_eq : sortItems order items = items.map (sortObjectKeys order) := by
  induction items with
  | nil => rfl
  | cons j items ih => rw [sortItems, ih, List.map_cons]

theorem leaveOutItems_eq : leaveOutItems exclude items = items.map (leaveOut exclude) := by
  induction items with
  | nil => rfl
  | cons j items ih => rw [leaveOutItems, ih, List.map_cons]

theorem sortFields_eq : sortFields order fields = keepFields [protoKey] (sortObjectKeys order) fields := by
  induction fields with
  | nil => rfl
  | cons f fields ih =>
      rw [sortFields, keepFields_cons, ih]
      simp only [List.mem_singleton]

theorem leaveOutFields_eq : leaveOutFields exclude fields =
    keepFields exclude (leaveOut exclude) fields := by
  induction fields with
  | nil => rfl
  | cons f fields ih => rw [leaveOutFields, keepFields_cons, ih]

theorem head_sortObjectKeys : (sortObjectKeys order j).head = j.head := by
  cases j with
  | arr items => rw [sortObjectKeys, sortItems_eq, head, head, List.length_map]
  | _ => rfl

theorem head_leaveOut : (leaveOut exclude j).head = j.head := by
  cases j with
  | arr items => rw [leaveOut, leaveOutItems_eq, head, head, List.length_map]
  | _ => rfl

theorem child_sortObjectKeys (hj : EachObject List.Nodup j) (s : Step) :
    (sortObjectKeys order j).child s =
      if isKey [protoKey] s then none else (j.child s).map (sortObjectKeys order) := by
  cases j with
  | arr items =>
      cases s with
      | key name => simp [sortObjectKeys, child]
      | index i => simp [sortObjectKeys, child, isKey, sortItems_eq]
  | obj fields =>
      cases s with
      | index i => simp [sortObjectKeys, child]
      | key name =>
          have hkeys := (eachObject_obj.mp hj).1
          have hnodup : ((sortFields order fields).map Prod.fst).Nodup := by
            rw [sortFields_eq]
            exact hkeys.sublist keys_keepFields_sublist
          show (((sortFields order fields).insertionSort _).lookup name) =
            if decide (name ∈ [protoKey]) = true then none else (fields.lookup name).map _
          rw [← lookup_perm hnodup (List.perm_insertionSort _ _).symm, sortFields_eq, lookup_keepFields]
          simp only [decide_eq_true_eq]
  | _ => cases s <;> simp [sortObjectKeys, child]

theorem child_leaveOut (s : Step) : (leaveOut exclude j).child s =
    if isKey exclude s then none else (j.child s).map (leaveOut exclude) := by
  cases j with
  | arr items =>
      cases s with
      | key name => simp [leaveOut, child]
      | index i => simp [leaveOut, child, isKey, leaveOutItems_eq]
  | obj fields =>
      cases s with
      | index i => simp [leaveOut, child]
      | key name =>
          show (leaveOutFields exclude fields).lookup name =
            if decide (name ∈ exclude) = true then none else (fields.lookup name).map _
          rw [leaveOutFields_eq, lookup_keepFields]
          simp only [decide_eq_true_eq]
  | _ => cases s <;> simp [leaveOut, child]

theorem any_isKey_cons {names : List String} (path : List Step) :
    path.any (isKey (name :: names)) = (path.any (isKey names) || path.any (isKey [name])) := by
  have hstep : ∀ s, isKey (name :: names) s = (isKey names s || isKey [name] s) := by
    intro s
    cases s with
    | index i => rfl
    | key key => simp [isKey, Bool.or_comm, Bool.decide_or]
  induction path with
  | nil => rfl
  | cons s path ih =>
      rw [List.any_cons, List.any_cons, List.any_cons, ih, hstep]
      cases isKey names s <;> cases isKey [name] s <;> simp

theorem headAt_leaveOut (path : List Step) :
    (leaveOut exclude j).headAt path = if path.any (isKey exclude) then none else j.headAt path :=
  headAt_of_child (T := leaveOut exclude) (D := isKey exclude)
    (C := fun _ => True) (fun _ _ _ _ _ => trivial) (fun _ => head_leaveOut)
    (fun _ s _ => child_leaveOut s) path trivial

theorem headAt_canonical (hj : EachObject List.Nodup j) (path : List Step) :
    (leaveOut exclude (sortObjectKeys order j)).headAt path =
      if path.any (isKey (protoKey :: exclude)) then none else j.headAt path := by
  have hsort := headAt_of_child (T := sortObjectKeys order) (D := isKey [protoKey])
    (C := EachObject List.Nodup) (fun _ _ _ hj hs => hj.child hs)
    (fun _ => head_sortObjectKeys) (fun _ s hj => child_sortObjectKeys hj s) path hj
  rw [headAt_leaveOut, hsort, show path.any (isKey (protoKey :: exclude)) = _ from any_isKey_cons path]
  cases path.any (isKey exclude) <;> cases path.any (isKey [protoKey]) <;> rfl

/-! ## Sorted keys -/

def KeyOrder.Lt (order : KeyOrder) (a b : String) : Prop := order.le a b = true ∧ a ≠ b

instance : Std.Asymm order.Lt :=
  ⟨fun a b hab hba => hab.2 (order.antisymm a b hab.1 hba.1)⟩

theorem keys_sorted (hkeys : (fields.map Prod.fst).Nodup) :
    ((fields.insertionSort (fun f g => order.le f.1 g.1 = true)).map Prod.fst).Pairwise order.Lt := by
  have : Std.Total (fun f g : String × Json => order.le f.1 g.1 = true) :=
    ⟨fun f g => order.total f.1 g.1⟩
  have : IsTrans (String × Json) (fun f g => order.le f.1 g.1 = true) :=
    ⟨fun f g h => order.trans f.1 g.1 h.1⟩
  have hsorted := List.pairwise_insertionSort (fun f g : String × Json => order.le f.1 g.1 = true) fields
  have hnodup : ((fields.insertionSort (fun f g => order.le f.1 g.1 = true)).map Prod.fst).Nodup :=
    ((List.perm_insertionSort _ fields).map Prod.fst).nodup_iff.mpr hkeys
  rw [List.pairwise_map]
  exact (hsorted.and (List.pairwise_map.mp hnodup)).imp (fun h => h)

theorem canonical_sorted (hj : EachObject List.Nodup j) :
    EachObject (List.Pairwise order.Lt) (leaveOut exclude (sortObjectKeys order j)) := by
  refine eachObject_of_closed (C := fun t => ∃ j, EachObject List.Nodup j ∧
    t = leaveOut exclude (sortObjectKeys order j)) ?_ ?_ ⟨j, hj, rfl⟩
  · rintro t s t' ⟨j, hj, rfl⟩ hs
    rw [child_leaveOut, child_sortObjectKeys hj] at hs
    split at hs
    next => cases hs
    next =>
      split at hs
      next => cases hs
      next =>
        rw [Option.map_map] at hs
        obtain ⟨j', hj', rfl⟩ := Option.map_eq_some_iff.mp hs
        exact ⟨j', hj.child hj', rfl⟩
  · rintro fields ⟨j, hj, heq⟩
    cases j with
    | obj fields' =>
        rw [sortObjectKeys, leaveOut, leaveOutFields_eq] at heq
        rw [Json.obj.inj heq]
        refine (keys_sorted ?_).sublist keys_keepFields_sublist
        rw [sortFields_eq]
        exact (eachObject_obj.mp hj).1.sublist keys_keepFields_sublist
    | _ => cases heq

/-- The text determines all that stands at the end of a path without an excluded name. -/
theorem canonicalJson_eq_iff {j j' : Json} (hj : EachObject List.Nodup j)
    (hj' : EachObject List.Nodup j') :
    canonicalJson order j exclude = canonicalJson order j' exclude ↔
      ∀ path, path.any (isKey (protoKey :: exclude)) = false → j.headAt path = j'.headAt path := by
  unfold canonicalJson
  rw [stringify_injective.eq_iff]
  constructor
  · intro heq path hpath
    have hhead := congrArg (fun t => t.headAt path) heq
    rwa [headAt_canonical hj, headAt_canonical hj', hpath] at hhead
  · intro hagree
    refine eq_of_headAt _ _ (canonical_sorted hj) (canonical_sorted hj') (fun path => ?_)
    rw [headAt_canonical hj, headAt_canonical hj']
    cases hpath : path.any (isKey (protoKey :: exclude)) with
    | true => rfl
    | false => exact hagree path hpath

/-- Values that agree without the excluded fields have one text, in whichever order their keys are. -/
theorem canonicalJson_eq_of_leaveOut {j j' : Json} (hj : EachObject List.Nodup j)
    (hj' : EachObject List.Nodup j') (h : leaveOut exclude j = leaveOut exclude j') :
    canonicalJson order j exclude = canonicalJson order j' exclude := by
  refine (canonicalJson_eq_iff hj hj').mpr (fun path hpath => ?_)
  have hexclude : path.any (isKey exclude) = false := by
    rw [any_isKey_cons, Bool.or_eq_false_iff] at hpath
    exact hpath.1
  have hhead := congrArg (fun t => t.headAt path) h
  rwa [headAt_leaveOut, headAt_leaveOut, hexclude] at hhead

end Passes

/-! ## Definitions -/

/-- Of the server. -/
def serverAudit : List String := ["createdAt", "updatedAt", "source", "serverFolder"]

/-- Of a route. -/
def routeAudit : List String := ["createdAt", "updatedAt", "harSourceEntry"]

/-- At or below an audit-only field. -/
def isAudit : List Step → Bool
  | .key "routes" :: .index _ :: .key name :: _ => decide (name ∈ routeAudit)
  | .key name :: _ => decide (name ∈ serverAudit)
  | _ => false

/-- Below a name that is left out, and not at an audit-only field. -/
def isHidden (path : List Step) : Bool :=
  path.any (isKey (protoKey :: definitionExclude)) && !isAudit path

/-- The same up to the order of keys and to audit-only fields. -/
def SameDefinition (d d' : Definition) : Prop :=
  ∀ path, isAudit path = false → d.value.headAt path = d'.value.headAt path

theorem audit_excluded {path : List Step} (h : isAudit path = true) :
    path.any (isKey (protoKey :: definitionExclude)) = true := by
  unfold isAudit at h
  split at h
  next i name path =>
    have hname : name ∈ protoKey :: definitionExclude := by
      have hsub : routeAudit ⊆ protoKey :: definitionExclude := by decide
      exact hsub (of_decide_eq_true h)
    simp [isKey, hname]
  next name path _ =>
    have hname : name ∈ protoKey :: definitionExclude := by
      have hsub : serverAudit ⊆ protoKey :: definitionExclude := by decide
      exact hsub (of_decide_eq_true h)
    simp [isKey, hname]
  next => cases h

/-- The text ignores what it is meant to ignore. -/
theorem definitionText_eq_of_same {order : KeyOrder} {d d' : Definition} (h : SameDefinition d d') :
    definitionText order d = definitionText order d' := by
  refine (canonicalJson_eq_iff d.distinct d'.distinct).mpr (fun path hpath => h path ?_)
  cases haudit : isAudit path with
  | false => rfl
  | true =>
      rw [audit_excluded haudit] at hpath
      cases hpath

/-- Exactly if the definitions differ where no excluded name is on the way, or agree also
below the names that are left out elsewhere, does an equal text mean that they are the
same. -/
theorem definitionText_separates_iff (order : KeyOrder) (d d' : Definition) :
    (definitionText order d = definitionText order d' → SameDefinition d d') ↔
      (∃ path, path.any (isKey (protoKey :: definitionExclude)) = false ∧
        d.value.headAt path ≠ d'.value.headAt path) ∨
      ∀ path, isHidden path = true → d.value.headAt path = d'.value.headAt path := by
  unfold definitionText
  rw [canonicalJson_eq_iff d.distinct d'.distinct]
  constructor
  · intro hsep
    by_cases hagree : ∀ path, path.any (isKey (protoKey :: definitionExclude)) = false →
        d.value.headAt path = d'.value.headAt path
    · refine Or.inr (fun path hpath => hsep hagree path ?_)
      rw [isHidden, Bool.and_eq_true, Bool.not_eq_true'] at hpath
      exact hpath.2
    · obtain ⟨path, hpath⟩ := not_forall.mp hagree
      exact Or.inl ⟨path, Classical.not_imp.mp hpath⟩
  · rintro (⟨path, hpath, hne⟩ | hhidden) hagree
    · exact absurd (hagree path hpath) hne
    · intro path haudit
      cases hpath : path.any (isKey (protoKey :: definitionExclude)) with
      | false => exact hagree path hpath
      | true => exact hhidden path (by rw [isHidden, hpath, haudit]; rfl)

/-! ### A predicate reads another source -/

def byText : KeyOrder where
  le := fun a b => decide (a ≤ b)
  total := fun a b => by simpa using String.le_total a b
  trans := fun a b c hab hbc => by
    simp only [decide_eq_true_eq] at hab hbc ⊢
    exact String.le_trans hab hbc
  antisymm := fun a b hab hba => by
    simp only [decide_eq_true_eq] at hab hba
    exact String.le_antisymm hab hba

def number (n : ℕ) : Json :=
  .num ⟨Nat.toDigits 10 n, by
    refine ⟨fun h => ?_, fun c hc => ?_⟩
    · have := Nat.length_toDigits_pos (b := 10) (n := n)
      rw [h] at this
      exact absurd this (by decide)
    · have hdigit : c.isDigit = true := Nat.isDigit_of_mem_toDigits (by decide) (by decide) hc
      simp [isNumberChar, hdigit]⟩

def strings (l : List String) : Json := .arr (l.map .str)

def staticResponse (status : ℕ) (reasonPhrase body : String) : Json :=
  .obj [("status", number status), ("reasonPhrase", .str reasonPhrase), ("headers", .arr []),
    ("body", .str body), ("contentType", .str "text/plain")]

def plainSettings : Json :=
  .obj
    [("selection", .obj
      [("multipleMatchPolicy", .str "highest_priority"), ("equalPriorityPolicy", .str "reject"),
        ("ambiguityResponse", staticResponse 409 "Conflict" "ambiguous")]),
      ("fallback", .obj
        [("unmatchedResponse", staticResponse 404 "Not Found" "not found"),
          ("mode", .str "default_response")]),
      ("cors", .obj
        [("enabled", .bool false), ("allowOrigins", strings []), ("allowMethods", strings []),
          ("allowHeaders", strings []), ("allowCredentials", .bool false), ("maxAge", number 60),
          ("exposeHeaders", strings [])]),
      ("limits", .obj
        [("maxInboundBodyBytes", number 1024), ("maxResponseBodyBytes", number 1024),
          ("maxConcurrentConnections", number 100), ("maxDelayMs", number 0),
          ("longRunningEnabled", .bool false), ("longRunningMaxMs", number 1000),
          ("gracefulDrainMs", number 1000)]),
      ("journal", .obj
        [("enabled", .bool true), ("maxEntries", number 10), ("maxCapturedBodyBytes", number 1024),
          ("persistToDisk", .bool false)]),
      ("redaction", .obj
        [("headerNames", strings []), ("jsonPaths", strings []), ("preserveScheme", .bool true)])]

/-- One route with one predicate, on one source, which expects an object. -/
def oneRoute (source flavour : String) : Json :=
  .obj
    [("id", .str "srv-1"), ("name", .str "Shop"), ("enabled", .bool true), ("host", .str "127.0.0.1"),
      ("port", number 4600), ("basePath", .str ""), ("folders", .arr []),
      ("routes", .arr [.obj
        [("id", .str "route-1"), ("name", .str "Orders"), ("enabled", .bool true),
          ("method", .str "POST"),
          ("path", .obj [("kind", .str "exact"), ("value", .str "/orders")]), ("priority", number 10),
          ("predicates", .obj
            [("id", .str "pg-1"), ("combinator", .str "all"),
              ("children", .arr [.obj
                [("id", .str "p-1"), ("source", .str source), ("selector", .str "order"),
                  ("operator", .str "json_subset"),
                  ("expected", .obj [("source", .str flavour), ("sku", .str "WIDGET")])]])]),
          ("responseMode", .str "rules"), ("responses", .arr []), ("tags", .arr []),
          ("createdAt", .str "2026-08-11"), ("updatedAt", .str "2026-08-11")]]),
      ("samples", .arr []), ("variables", .arr []), ("settings", plainSettings),
      ("createdAt", .str "2026-08-11"), ("updatedAt", .str "2026-08-11")]

def shop (source flavour : String)
    (h : checkObjects (fun keys => decide keys.Nodup) (oneRoute source flavour) = true) : Definition :=
  ⟨oneRoute source flavour, fun path fields hsub => of_decide_eq_true (eachObject_of_check h path fields hsub)⟩

/-- Two shops with one text: their predicates read the header and the body, and expect
other objects. -/
theorem header_and_body_share_text :
    ∃ d d' : Definition, definitionText byText d = definitionText byText d' ∧
      ¬ SameDefinition d d' ∧
      d.value.headAt [.key "routes", .index 0, .key "predicates", .key "children", .index 0,
        .key "source"] = some (.str "header") ∧
      d'.value.headAt [.key "routes", .index 0, .key "predicates", .key "children", .index 0,
        .key "source"] = some (.str "body") ∧
      d.value.headAt [.key "routes", .index 0, .key "predicates", .key "children", .index 0,
        .key "expected", .key "source"] ≠
      d'.value.headAt [.key "routes", .index 0, .key "predicates", .key "children", .index 0,
        .key "expected", .key "source"] := by
  refine ⟨shop "header" "web" (by decide), shop "body" "app" (by decide), ?_, ?_,
    by decide, by decide, by decide⟩
  · refine canonicalJson_eq_of_leaveOut (Definition.distinct _) (Definition.distinct _) ?_
    simp [shop, oneRoute, leaveOut, leaveOutItems, leaveOutFields, definitionExclude]
  · intro hsame
    have := hsame [.key "routes", .index 0, .key "predicates", .key "children", .index 0,
      .key "source"] (by decide)
    revert this
    decide

end RedFireForge.ApiMock
