/-
# `RedFireForge.Workflow.Versioning` — the version history of a workflow

A version is stored unless its fingerprint is that of the latest one.  The fingerprint is taken
of some members of each service, and two versions are compared with their edges told apart by
id alone.  What is left out of either is said here, and nothing else is missed.
-/
import Mathlib.Data.List.Forall2
import RedFireForge.Lib.Json
import RedFireForge.Lib.JsonTree
import RedFireForge.ApiMock.JsonPath

namespace RedFireForge.Workflow.Versioning

open RedFireForge.Lib (Json)
open RedFireForge.ApiMock (inheritedNames)

/-! ## Contents -/

/-- An object with an id, its members in their order. -/
structure Item where
  id : String
  members : List (String × Json)
  id_member : members.lookup "id" = some (.str id)

namespace Item

def member (n : Item) (key : String) : Option Json := n.members.lookup key

def json (n : Item) : Json := .obj n.members

/-- The members that a record was made of; one that is undefined is not written. -/
def project (keys : List String) (n : Item) : Json :=
  .obj (keys.filterMap fun key => (n.member key).map (key, ·))

end Item

abbrev WorkflowNode := Item

abbrev WorkflowService := Item

structure WorkflowEdge where
  id : String
  source : String
  target : String
  sourceHandle : Option String
  label : Option String
deriving DecidableEq, Repr

/-- `Record<string, string>` -/
structure Variables where
  entries : List (String × String)
  nodup : (entries.map Prod.fst).Nodup

structure WorkflowContent where
  nodes : List WorkflowNode
  edges : List WorkflowEdge
  vars : Variables
  services : Option (List WorkflowService)

structure WorkflowVersion extends WorkflowContent where
  id : String
  timestamp : ℕ
  label : Option String
  fingerprint : String
  nodeCount : ℕ
  edgeCount : ℕ

/-! ## Fingerprints -/

def nodeKeys : List String := ["id", "type", "position", "data"]

def serviceKeys : List String := ["id", "name", "endpoints", "defaultAuth", "microserviceId"]

def WorkflowEdge.json (e : WorkflowEdge) : Json :=
  .obj ([("id", .str e.id), ("source", .str e.source), ("target", .str e.target)] ++
    ((e.sourceHandle.map fun h => ("sourceHandle", Json.str h)).toList ++
      (e.label.map fun l => ("label", Json.str l)).toList))

def fingerprintData (c : WorkflowContent) : Json :=
  .obj [("nodes", .arr (c.nodes.map (Item.project nodeKeys))),
    ("edges", .arr (c.edges.map WorkflowEdge.json)),
    ("variables", .obj (c.vars.entries.map fun (key, value) => (key, .str value))),
    ("services", .arr ((c.services.getD []).map (Item.project serviceKeys)))]

section History

-- `simpleHash`
variable (hash : String → String)

def computeWorkflowFingerprint (c : WorkflowContent) : String := hash (fingerprintData c).stringify

/-- With the id and the time that are given to the version. -/
def createWorkflowVersion (c : WorkflowContent) (existingVersions : List WorkflowVersion)
    (label : Option String) (id : String) (now : ℕ) : Option WorkflowVersion :=
  let fingerprint := computeWorkflowFingerprint hash c
  if existingVersions.head?.any (·.fingerprint = fingerprint) then none
  else some { c with
    id := id
    timestamp := now
    label := label
    fingerprint := fingerprint
    nodeCount := c.nodes.length
    edgeCount := c.edges.length }

def addVersionToList (versions : List WorkflowVersion) (version : WorkflowVersion) (max : ℕ) :
    List WorkflowVersion := (version :: versions).take max

/-- The versions of a workflow: they are added by a save, deleted, renamed and cut down to the
latest ones. -/
inductive Stored : List WorkflowVersion → Prop
  | empty : Stored []
  | save {versions : List WorkflowVersion} {version : WorkflowVersion} (c : WorkflowContent)
      (label : Option String) (id : String) (now max : ℕ) : Stored versions →
      createWorkflowVersion hash c versions label id now = some version →
      Stored (addVersionToList versions version max)
  | delete {versions : List WorkflowVersion} (id : String) : Stored versions →
      Stored (versions.filter (·.id ≠ id))
  | rename {versions : List WorkflowVersion} (id label : String) : Stored versions →
      Stored (versions.map fun v => if v.id = id then { v with label := some label } else v)
  | compact {versions : List WorkflowVersion} (max : ℕ) : Stored versions →
      Stored (versions.take max)

end History

/-! ## Differences -/

/-- `new Map(items.map((i) => [i.id, i])).get(id)`: the last one with an id. -/
def mapGet {α : Type} (key : α → String) (items : List α) (id : String) : Option α :=
  items.reverse.find? (key · = id)

structure Modified where
  id : String
  /-- the label of a node, the name of a service -/
  title : Option Json
  old : Item
  new : Item

structure VariableChanges where
  added : List (String × String)
  removed : List (String × String)
  /-- the old value is none where it is not the object's own -/
  modified : List (String × Option String × String)

structure VersionDiffResult where
  addedNodes : List WorkflowNode
  removedNodes : List WorkflowNode
  modifiedNodes : List Modified
  addedEdges : List WorkflowEdge
  removedEdges : List WorkflowEdge
  variableChanges : VariableChanges
  addedServices : List WorkflowService
  removedServices : List WorkflowService
  modifiedServices : List Modified

def addedItems (older newer : List Item) : List Item :=
  newer.filter fun n => (mapGet Item.id older n.id).isNone

def modifiedItems (title : Item → Option Json) (older newer : List Item) : List Modified :=
  newer.filterMap fun n => (mapGet Item.id older n.id).bind fun old =>
    if old.json.stringify ≠ n.json.stringify then some ⟨n.id, title n, old, n⟩ else none

/-- `data.label ?? id` -/
def nodeLabel (n : WorkflowNode) : Option Json :=
  match n.member "data" with
  | some (.obj fields) =>
      match fields.lookup "label" with
      | none | some .null => some (.str n.id)
      | label => label
  | _ => some (.str n.id)

def addedEdges (older newer : List WorkflowEdge) : List WorkflowEdge :=
  newer.filter fun e => e.id ∉ older.map (·.id)

def Variables.get (vs : Variables) (key : String) : Option String := vs.entries.lookup key

/-- What every object has. -/
def prototypeNames : List String := "__proto__" :: inheritedNames

/-- `key in variables` -/
def Variables.has (vs : Variables) (key : String) : Bool :=
  (vs.get key).isSome || key ∈ prototypeNames

def variableChanges (older newer : Variables) : VariableChanges where
  added := newer.entries.filter fun (key, _) => !older.has key
  modified := (newer.entries.filter fun (key, value) =>
    older.has key && older.get key ≠ some value).map fun (key, value) => (key, older.get key, value)
  removed := older.entries.filter fun (key, _) => !newer.has key

def computeVersionDiff (older newer : WorkflowContent) : VersionDiffResult where
  addedNodes := addedItems older.nodes newer.nodes
  removedNodes := addedItems newer.nodes older.nodes
  modifiedNodes := modifiedItems nodeLabel older.nodes newer.nodes
  addedEdges := addedEdges older.edges newer.edges
  removedEdges := addedEdges newer.edges older.edges
  variableChanges := variableChanges older.vars newer.vars
  addedServices := addedItems (older.services.getD []) (newer.services.getD [])
  removedServices := addedItems (newer.services.getD []) (older.services.getD [])
  modifiedServices := modifiedItems (·.member "name") (older.services.getD []) (newer.services.getD [])

structure VersionDiffResult.IsEmpty (d : VersionDiffResult) : Prop where
  addedNodes : d.addedNodes = []
  removedNodes : d.removedNodes = []
  modifiedNodes : d.modifiedNodes = []
  addedEdges : d.addedEdges = []
  removedEdges : d.removedEdges = []
  addedVariables : d.variableChanges.added = []
  removedVariables : d.variableChanges.removed = []
  modifiedVariables : d.variableChanges.modified = []
  addedServices : d.addedServices = []
  removedServices : d.removedServices = []
  modifiedServices : d.modifiedServices = []

/-! ## Contents that are the same -/

def SameAt (keys : List String) (n m : Item) : Prop := ∀ key ∈ keys, n.member key = m.member key

/-- The same object, whatever the order of its members. -/
def Same (n m : Item) : Prop := ∀ key, n.member key = m.member key

/-- The same content, in the same order. -/
structure Unchanged (c c' : WorkflowContent) : Prop where
  nodes : List.Forall₂ (SameAt nodeKeys) c.nodes c'.nodes
  edges : c.edges = c'.edges
  vars : c.vars.entries = c'.vars.entries
  services : List.Forall₂ Same (c.services.getD []) (c'.services.getD [])

/-- The same content by ids and names. -/
structure SameByKey (c c' : WorkflowContent) : Prop where
  nodes : ∀ id, Option.Rel (SameAt nodeKeys) (mapGet Item.id c.nodes id) (mapGet Item.id c'.nodes id)
  edges : ∀ id, mapGet WorkflowEdge.id c.edges id = mapGet WorkflowEdge.id c'.edges id
  vars : ∀ key, c.vars.get key = c'.vars.get key
  services : ∀ id, Option.Rel Same (mapGet Item.id (c.services.getD []) id)
    (mapGet Item.id (c'.services.getD []) id)

/-! ## What a fingerprint tells -/

section Fingerprint

variable {keys : List String} {n m : Item} {c c' : WorkflowContent}

theorem lookup_project {key : String} (hkey : key ∈ keys) :
    (keys.filterMap fun k => (n.member k).map (k, ·)).lookup key = n.member key := by
  induction keys with
  | nil => cases hkey
  | cons k keys ih =>
      rw [List.filterMap_cons]
      by_cases heq : key = k
      · subst heq
        cases hmember : n.member key with
        | some j => simp
        | none =>
            simp only [Option.map_none]
            by_cases hrest : key ∈ keys
            · rw [ih hrest, hmember]
            · rw [List.lookup_eq_none_iff]
              intro p hp
              obtain ⟨k', hk', hp⟩ := List.mem_filterMap.mp hp
              obtain ⟨j, -, rfl⟩ := Option.map_eq_some_iff.mp hp
              simp only [bne_iff_ne, ne_eq]
              rintro rfl
              exact hrest hk'
      · have hrest := ih ((List.mem_cons.mp hkey).resolve_left heq)
        cases hmember : n.member k with
        | none => simpa using hrest
        | some j =>
            rw [Option.map_some, List.lookup_cons, beq_false_of_ne heq]
            exact hrest

theorem project_eq_iff : n.project keys = m.project keys ↔ SameAt keys n m := by
  constructor
  · intro h key hkey
    rw [← lookup_project hkey, ← lookup_project hkey, Json.obj.inj h]
  · intro h
    rw [Item.project, Item.project, List.filterMap_congr fun key hkey => by rw [h key hkey]]

theorem WorkflowEdge.json_injective : Function.Injective WorkflowEdge.json := by
  rintro ⟨id, source, target, handle, label⟩ ⟨id', source', target', handle', label'⟩ h
  cases handle <;> cases handle' <;> cases label <;> cases label' <;>
    simp_all [WorkflowEdge.json]

/-- What a fingerprint is taken of is the same. -/
structure AsPrinted (c c' : WorkflowContent) : Prop where
  nodes : List.Forall₂ (SameAt nodeKeys) c.nodes c'.nodes
  edges : c.edges = c'.edges
  vars : c.vars.entries = c'.vars.entries
  services : List.Forall₂ (SameAt serviceKeys) (c.services.getD []) (c'.services.getD [])

theorem map_project_eq_iff {items items' : List Item} :
    items.map (Item.project keys) = items'.map (Item.project keys) ↔
      List.Forall₂ (SameAt keys) items items' := by
  rw [← List.forall₂_eq_eq_eq, List.forall₂_map_left_iff, List.forall₂_map_right_iff]
  constructor <;> refine List.Forall₂.imp fun a b h => ?_
  · exact project_eq_iff.mp h
  · exact project_eq_iff.mpr h

theorem fingerprintData_eq_iff : fingerprintData c = fingerprintData c' ↔ AsPrinted c c' := by
  have hvariables : Function.Injective fun p : String × String => (p.1, Json.str p.2) := by
    rintro ⟨k, v⟩ ⟨k', v'⟩ h
    simpa using h
  constructor
  · intro h
    simp only [fingerprintData, Json.obj.injEq, List.cons.injEq, Prod.mk.injEq, Json.arr.injEq, true_and,
      and_true] at h
    obtain ⟨hnodes, hedges, hvars, hservices⟩ := h
    exact ⟨map_project_eq_iff.mp hnodes, List.map_injective_iff.mpr WorkflowEdge.json_injective hedges,
      List.map_injective_iff.mpr hvariables hvars, map_project_eq_iff.mp hservices⟩
  · rintro ⟨hnodes, hedges, hvars, hservices⟩
    rw [fingerprintData, fingerprintData, map_project_eq_iff.mpr hnodes, hedges, hvars,
      map_project_eq_iff.mpr hservices]

end Fingerprint

/-! ## Stored versions -/

section Stored

variable {hash : String → String} {versions : List WorkflowVersion} {c : WorkflowContent}

/-- A stored version has the fingerprint of its content. -/
theorem fingerprint_of_stored (h : Stored hash versions) :
    ∀ v ∈ versions, v.fingerprint = computeWorkflowFingerprint hash v.toWorkflowContent := by
  induction h with
  | empty => nofun
  | save c label id now max _ hcreate ih =>
      intro v hv
      rcases List.mem_cons.mp ((List.take_subset _ _) hv) with rfl | hv
      · simp only [createWorkflowVersion] at hcreate
        split at hcreate
        · cases hcreate
        · cases hcreate
          rfl
      · exact ih v hv
  | delete id _ ih => exact fun v hv => ih v (List.mem_of_mem_filter hv)
  | rename id label _ ih =>
      intro v hv
      obtain ⟨w, hw, rfl⟩ := List.mem_map.mp hv
      split
      · exact ih w hw
      · exact ih w hw
  | compact max _ ih => exact fun v hv => ih v (List.take_subset _ _ hv)

/-- No version is made where the latest one has what the fingerprint is taken of. -/
theorem createWorkflowVersion_eq_none_iff (hhash : Function.Injective hash) (h : Stored hash versions)
    {label : Option String} {id : String} {now : ℕ} :
    createWorkflowVersion hash c versions label id now = none ↔
      ∃ latest ∈ versions.head?, AsPrinted c latest.toWorkflowContent := by
  have hnone : createWorkflowVersion hash c versions label id now = none ↔
      ∃ latest ∈ versions.head?, latest.fingerprint = computeWorkflowFingerprint hash c := by
    simp only [createWorkflowVersion]
    cases versions.head? <;> simp
  rw [hnone]
  refine exists_congr fun latest => and_congr_right fun hlatest => ?_
  have hmem : latest ∈ versions := List.mem_of_mem_head? hlatest
  rw [fingerprint_of_stored h latest hmem, computeWorkflowFingerprint, computeWorkflowFingerprint,
    hhash.eq_iff, Json.stringify_injective.eq_iff, eq_comm, fingerprintData_eq_iff]

/-- The members of the services that are left out of the fingerprint have not changed either. -/
def RestUnchanged (c c' : WorkflowContent) : Prop :=
  List.Forall₂ (fun s s' => ∀ key ∉ serviceKeys, s.member key = s'.member key) (c.services.getD [])
    (c'.services.getD [])

theorem unchanged_iff {c' : WorkflowContent} : Unchanged c c' ↔ AsPrinted c c' ∧ RestUnchanged c c' := by
  constructor
  · rintro ⟨hnodes, hedges, hvars, hservices⟩
    exact ⟨⟨hnodes, hedges, hvars, hservices.imp fun _ _ h key _ => h key⟩,
      hservices.imp fun _ _ h key _ => h key⟩
  · rintro ⟨⟨hnodes, hedges, hvars, hprinted⟩, hrest⟩
    refine ⟨hnodes, hedges, hvars, ?_⟩
    rw [RestUnchanged] at hrest
    generalize c.services.getD [] = l at hprinted hrest ⊢
    generalize c'.services.getD [] = l' at hprinted hrest ⊢
    induction hprinted with
    | nil => exact .nil
    | cons hhead _ ih =>
        cases hrest with
        | cons hhead' htail' =>
            refine .cons (fun key => ?_) (ih htail')
            by_cases hkey : key ∈ serviceKeys
            · exact hhead key hkey
            · exact hhead' key hkey

/-- A save that stores no version changes nothing. -/
def SkipsOnlyUnchanged (hash : String → String) (c : WorkflowContent) (versions : List WorkflowVersion) : Prop :=
  ∀ label id now, createWorkflowVersion hash c versions label id now = none →
    ∃ latest ∈ versions.head?, Unchanged c latest.toWorkflowContent

theorem skipsOnlyUnchanged_iff (hhash : Function.Injective hash) (h : Stored hash versions) :
    SkipsOnlyUnchanged hash c versions ↔ ∀ latest ∈ versions.head?, AsPrinted c latest.toWorkflowContent →
      RestUnchanged c latest.toWorkflowContent := by
  constructor
  · intro hskips latest hlatest hprinted
    obtain ⟨latest', hlatest', hunchanged⟩ := hskips none "" 0
      ((createWorkflowVersion_eq_none_iff hhash h).mpr ⟨latest, hlatest, hprinted⟩)
    rw [Option.mem_unique hlatest' hlatest] at hunchanged
    exact (unchanged_iff.mp hunchanged).2
  · intro hrest label id now hnone
    obtain ⟨latest, hlatest, hprinted⟩ := (createWorkflowVersion_eq_none_iff hhash h).mp hnone
    exact ⟨latest, hlatest, unchanged_iff.mpr ⟨hprinted, hrest latest hlatest hprinted⟩⟩

end Stored

/-! ## What a difference tells -/

section Diff

variable {older newer : WorkflowContent} {items items' : List Item}

theorem mem_of_mapGet {α : Type} {key : α → String} {l : List α} {id : String} {a : α}
    (h : mapGet key l id = some a) : a ∈ l ∧ key a = id :=
  ⟨List.mem_reverse.mp (List.mem_of_find?_eq_some h), by simpa using List.find?_some h⟩

theorem mapGet_isSome_iff {α : Type} {key : α → String} {l : List α} {id : String} :
    (mapGet key l id).isSome = true ↔ ∃ a ∈ l, key a = id := by
  simp [mapGet]

/-- Items that are not told apart. -/
structure LooksSame (older newer : List Item) : Prop where
  found : ∀ n ∈ newer, ∃ old, mapGet Item.id older n.id = some old ∧ old.members = n.members
  kept : ∀ n ∈ older, ∃ m ∈ newer, m.id = n.id

theorem stringify_json_eq_iff {n m : Item} :
    n.json.stringify = m.json.stringify ↔ n.members = m.members := by
  rw [Json.stringify_injective.eq_iff, Item.json, Item.json, Json.obj.injEq]

theorem addedItems_eq_nil_iff : addedItems items items' = [] ↔ ∀ n ∈ items', ∃ m ∈ items, m.id = n.id := by
  simp only [addedItems, List.filter_eq_nil_iff, Bool.not_eq_true, Option.isNone_eq_false_iff,
    mapGet_isSome_iff]

theorem modifiedItems_eq_nil_iff {title : Item → Option Json} : modifiedItems title items items' = [] ↔
    ∀ n ∈ items', ∀ old, mapGet Item.id items n.id = some old → old.members = n.members := by
  rw [modifiedItems, List.filterMap_eq_nil_iff]
  refine forall₂_congr fun n _ => ?_
  cases mapGet Item.id items n.id with
  | none => simp
  | some old => simp [stringify_json_eq_iff]

theorem looksSame_iff {title : Item → Option Json} : LooksSame items items' ↔
    addedItems items items' = [] ∧ addedItems items' items = [] ∧ modifiedItems title items items' = [] := by
  rw [addedItems_eq_nil_iff, addedItems_eq_nil_iff, modifiedItems_eq_nil_iff]
  constructor
  · rintro ⟨hfound, hkept⟩
    refine ⟨fun n hn => ?_, hkept, fun n hn old hold => ?_⟩
    · obtain ⟨old, hold, -⟩ := hfound n hn
      exact ⟨old, mem_of_mapGet hold⟩
    · obtain ⟨old', hold', hmembers⟩ := hfound n hn
      rw [hold', Option.some.injEq] at hold
      rw [← hold, hmembers]
  · rintro ⟨hadded, hkept, hmodified⟩
    refine ⟨fun n hn => ?_, hkept⟩
    obtain ⟨old, hold⟩ := Option.isSome_iff_exists.mp (mapGet_isSome_iff.mpr (hadded n hn))
    exact ⟨old, hold, hmodified n hn old hold⟩

/-- Items that are not told apart are the same by id. -/
theorem LooksSame.rel (h : LooksSame items items') (id : String) :
    Option.Rel Same (mapGet Item.id items id) (mapGet Item.id items' id) := by
  cases hnew : mapGet Item.id items' id with
  | some n =>
      obtain ⟨hn, rfl⟩ := mem_of_mapGet hnew
      obtain ⟨old, hold, hmembers⟩ := h.found n hn
      rw [hold]
      exact .some fun key => by rw [Item.member, Item.member, hmembers]
  | none =>
      have hold : mapGet Item.id items id = none := by
        rw [← Option.not_isSome_iff_eq_none, mapGet_isSome_iff]
        rintro ⟨n, hn, rfl⟩
        have hsome := mapGet_isSome_iff.mpr (h.kept n hn)
        rw [hnew] at hsome
        cases hsome
      rw [hold]
      exact .none

/-- Two contents that the difference does not tell apart: services and nodes by all they have,
edges by their ids, and variables but for those with the name of a member of every object. -/
structure Undistinguished (older newer : WorkflowContent) : Prop where
  nodes : LooksSame older.nodes newer.nodes
  edges : ∀ id, id ∈ older.edges.map (·.id) ↔ id ∈ newer.edges.map (·.id)
  vars : ∀ key value, newer.vars.get key = some value → older.vars.get key = some value
  removed : ∀ key ∉ prototypeNames, newer.vars.get key = none → older.vars.get key = none
  services : LooksSame (older.services.getD []) (newer.services.getD [])

theorem Variables.mem_entries_iff (vs : Variables) {key value : String} :
    (key, value) ∈ vs.entries ↔ vs.get key = some value := by
  obtain ⟨entries, hnodup⟩ := vs
  rw [Variables.get]
  induction entries with
  | nil => simp
  | cons p entries ih =>
      obtain ⟨hnot, hrest⟩ := List.nodup_cons.mp hnodup
      rw [List.mem_cons, List.lookup_cons]
      by_cases heq : key = p.1
      · subst heq
        simp only [beq_self_eq_true, Option.some.injEq]
        constructor
        · rintro (hp | hmem)
          · rw [← hp]
          · exact absurd (List.mem_map.mpr ⟨_, hmem, rfl⟩) hnot
        · rintro rfl
          exact .inl rfl
      · rw [beq_false_of_ne heq, ← ih hrest]
        constructor
        · rintro (hp | hmem)
          · exact absurd (congrArg Prod.fst hp) heq
          · exact hmem
        · exact .inr

theorem addedEdges_eq_nil_iff {edges edges' : List WorkflowEdge} :
    addedEdges edges edges' = [] ↔ ∀ e ∈ edges', e.id ∈ edges.map (·.id) := by
  simp [addedEdges]

theorem vars_undistinguished_iff {vs vs' : Variables} :
    ((variableChanges vs vs').added = [] ∧ (variableChanges vs vs').removed = [] ∧
      (variableChanges vs vs').modified = []) ↔
    (∀ key value, vs'.get key = some value → vs.get key = some value) ∧
      ∀ key ∉ prototypeNames, vs'.get key = none → vs.get key = none := by
  have hhas : ∀ {vs : Variables} {key : String}, vs.has key = false ↔
      vs.get key = none ∧ key ∉ prototypeNames := by
    intro vs key
    simp [Variables.has]
  simp only [variableChanges, List.filter_eq_nil_iff, List.map_eq_nil_iff, Prod.forall,
    Variables.mem_entries_iff]
  constructor
  · rintro ⟨hadded, hremoved, hmodified⟩
    refine ⟨fun key value hget => ?_, fun key hkey hnone => ?_⟩
    · have hin := hadded key value hget
      have hsame := hmodified key value hget
      simp only [Bool.not_eq_true', Bool.not_eq_false] at hin
      simpa [hin] using hsame
    · by_contra hsome
      obtain ⟨value, hvalue⟩ := Option.ne_none_iff_exists'.mp hsome
      have hin := hremoved key value hvalue
      simp only [Bool.not_eq_true', Bool.not_eq_false] at hin
      rw [hhas.mpr ⟨hnone, hkey⟩] at hin
      cases hin
  · rintro ⟨hsame, hremoved⟩
    refine ⟨fun key value hget => ?_, fun key value hget => ?_, fun key value hget => ?_⟩
    · simp [Variables.has, hsame key value hget]
    · simp only [Bool.not_eq_true', Bool.not_eq_false]
      by_contra hnot
      obtain ⟨hnone, hkey⟩ := hhas.mp (by simpa using hnot)
      rw [hremoved key hkey hnone] at hget
      cases hget
    · simp [hsame key value hget]

/-- **A difference is empty exactly where the contents are not told apart.** -/
theorem isEmpty_iff : (computeVersionDiff older newer).IsEmpty ↔ Undistinguished older newer := by
  constructor
  · rintro ⟨haddedNodes, hremovedNodes, hmodifiedNodes, haddedEdges, hremovedEdges, haddedVars, hremovedVars,
      hmodifiedVars, haddedServices, hremovedServices, hmodifiedServices⟩
    obtain ⟨hvars, hremoved⟩ := vars_undistinguished_iff.mp ⟨haddedVars, hremovedVars, hmodifiedVars⟩
    refine ⟨looksSame_iff.mpr ⟨haddedNodes, hremovedNodes, hmodifiedNodes⟩, fun id => ⟨?_, ?_⟩, hvars, hremoved,
      looksSame_iff.mpr ⟨haddedServices, hremovedServices, hmodifiedServices⟩⟩
    · rintro hid
      obtain ⟨e, he, rfl⟩ := List.mem_map.mp hid
      exact addedEdges_eq_nil_iff.mp hremovedEdges e he
    · rintro hid
      obtain ⟨e, he, rfl⟩ := List.mem_map.mp hid
      exact addedEdges_eq_nil_iff.mp haddedEdges e he
  · rintro ⟨hnodes, hedges, hvars, hremoved, hservices⟩
    obtain ⟨haddedNodes, hremovedNodes, hmodifiedNodes⟩ := looksSame_iff.mp hnodes
    obtain ⟨haddedServices, hremovedServices, hmodifiedServices⟩ := looksSame_iff.mp hservices
    obtain ⟨haddedVars, hremovedVars, hmodifiedVars⟩ := vars_undistinguished_iff.mpr ⟨hvars, hremoved⟩
    exact ⟨haddedNodes, hremovedNodes, hmodifiedNodes,
      addedEdges_eq_nil_iff.mpr fun e he => (hedges e.id).mpr (List.mem_map.mpr ⟨e, he, rfl⟩),
      addedEdges_eq_nil_iff.mpr fun e he => (hedges e.id).mp (List.mem_map.mpr ⟨e, he, rfl⟩),
      haddedVars, hremovedVars, hmodifiedVars, haddedServices, hremovedServices, hmodifiedServices⟩

/-- Edges with one id are the same, and no variable with an inherited name was removed. -/
structure NothingHidden (older newer : WorkflowContent) : Prop where
  edges : ∀ id, mapGet WorkflowEdge.id older.edges id = mapGet WorkflowEdge.id newer.edges id
  vars : ∀ key ∈ prototypeNames, newer.vars.get key = none → older.vars.get key = none

/-- A difference that is empty is one of the same contents. -/
def EmptyOnlyIfSame (older newer : WorkflowContent) : Prop :=
  (computeVersionDiff older newer).IsEmpty → SameByKey older newer

theorem emptyOnlyIfSame_iff : EmptyOnlyIfSame older newer ↔
    (Undistinguished older newer → NothingHidden older newer) := by
  rw [EmptyOnlyIfSame, isEmpty_iff]
  refine forall_congr' fun h => ⟨fun hsame => ?_, fun hhidden => ?_⟩
  · exact ⟨hsame.edges, fun key _ hnone => by rw [hsame.vars key, hnone]⟩
  · refine ⟨fun id => ?_, hhidden.edges, fun key => ?_, h.services.rel⟩
    · have hrel := h.nodes.rel id
      generalize mapGet Item.id older.nodes id = o at hrel ⊢
      generalize mapGet Item.id newer.nodes id = o' at hrel ⊢
      cases hrel with
      | none => exact .none
      | some hsame => exact .some fun key _ => hsame key
    · cases hnew : newer.vars.get key with
      | some value => exact h.vars key value hnew
      | none =>
          by_cases hkey : key ∈ prototypeNames
          · exact hhidden.vars key hkey hnew
          · exact h.removed key hkey hnew

end Diff

/-- **The history misses a change exactly where only what a fingerprint leaves out has changed,
and a difference exactly where only hidden parts differ.** -/
theorem version_history_iff {hash : String → String} (hhash : Function.Injective hash) :
    (∀ c versions, Stored hash versions → (SkipsOnlyUnchanged hash c versions ↔
      ∀ latest ∈ versions.head?, AsPrinted c latest.toWorkflowContent →
        RestUnchanged c latest.toWorkflowContent)) ∧
    ∀ older newer, EmptyOnlyIfSame older newer ↔
      (Undistinguished older newer → NothingHidden older newer) :=
  ⟨fun _ _ h => skipsOnlyUnchanged_iff hhash h, fun _ _ => emptyOnlyIfSame_iff⟩

/-! ## A workflow -/

/-- A service with a note. -/
def noted (note : String) : WorkflowService where
  id := "s"
  members := [("id", .str "s"), ("name", .str "api"), ("endpoints", .arr []), ("notes", .str note)]
  id_member := rfl

def contentOf (target note : String) (vars : Variables) : WorkflowContent where
  nodes := []
  edges := [⟨"e", "a", target, none, none⟩]
  vars := vars
  services := some [noted note]

def noVariables : Variables := ⟨[], List.nodup_nil⟩

def onlyToString : Variables := ⟨[("toString", "x")], List.nodup_singleton _⟩

/-- The version that is stored of a content in an empty history. -/
def firstVersion (c : WorkflowContent) : WorkflowVersion :=
  { c with
    id := "v"
    timestamp := 0
    label := none
    fingerprint := computeWorkflowFingerprint id c
    nodeCount := c.nodes.length
    edgeCount := c.edges.length }

theorem stored_first (c : WorkflowContent) : Stored id [firstVersion c] :=
  .save c none "v" 0 10 .empty rfl

/-- A note that was changed is not saved; an edge that leads elsewhere and a variable that is gone
are not shown. -/
theorem changes_missed :
    (Stored id [firstVersion (contentOf "b" "old" noVariables)] ∧
      ¬ SkipsOnlyUnchanged id (contentOf "b" "new" noVariables)
        [firstVersion (contentOf "b" "old" noVariables)]) ∧
      ¬ EmptyOnlyIfSame (contentOf "b" "n" noVariables) (contentOf "c" "n" noVariables) ∧
        ¬ EmptyOnlyIfSame (contentOf "b" "n" onlyToString) (contentOf "b" "n" noVariables) := by
  refine ⟨⟨stored_first _, ?_⟩, ?_, ?_⟩
  · intro h
    have hprinted : AsPrinted (contentOf "b" "new" noVariables)
        (firstVersion (contentOf "b" "old" noVariables)).toWorkflowContent := by
      refine ⟨.nil, rfl, rfl, .cons (fun key hkey => ?_) .nil⟩
      simp only [serviceKeys, List.mem_cons, List.not_mem_nil, or_false] at hkey
      rcases hkey with rfl | rfl | rfl | rfl | rfl <;> rfl
    obtain ⟨latest, hlatest, hunchanged⟩ := h none "w" 1
      ((createWorkflowVersion_eq_none_iff Function.injective_id (stored_first _)).mpr ⟨_, rfl, hprinted⟩)
    cases hlatest
    cases hunchanged.services with
    | cons hsame _ => exact absurd (hsame "notes") (by decide)
  · intro h
    have hsame := (h ⟨rfl, rfl, rfl, rfl, rfl, rfl, rfl, rfl, rfl, rfl, rfl⟩).edges "e"
    exact absurd hsame (by decide)
  · intro h
    have hsame := (h ⟨rfl, rfl, rfl, rfl, rfl, rfl, rfl, rfl, rfl, rfl, rfl⟩).vars "toString"
    exact absurd hsame (by decide)

/-- Of a target that was changed a version is stored. -/
theorem target_saved : SkipsOnlyUnchanged id (contentOf "c" "n" noVariables)
    [firstVersion (contentOf "b" "n" noVariables)] := by
  refine ((version_history_iff Function.injective_id).1 _ _ (stored_first _)).mpr fun latest hlatest hprinted => ?_
  cases hlatest
  exact absurd hprinted.edges (by decide)

end RedFireForge.Workflow.Versioning
