/-
# `RedFireForge.Workflow.VariableContext` — variables of a workflow run

A variable is looked up by its name, or in a step by `node:"label".name` or `node:id.name`.
`snapshot` writes such keys and `get` reads them back with two regular expressions: one that
takes an id for a label, if the id starts with a quotation mark, and none that takes an empty id.
-/
import RedFireForge.Lib.Grouping
import RedFireForge.Lib.Run
import RedFireForge.Lib.Text
import RedFireForge.Workflow.HostResolve

namespace RedFireForge.Workflow.Variables

open RedFireForge.Lib

/-! ## Steps and their labels -/

structure ScenarioName where
  name : Option String
deriving DecidableEq, Repr

/-- `scenario` is `none` where there is no such key, and `some none` where nothing is under it. -/
structure NodeData where
  label : Option String
  scenario : Option (Option ScenarioName)
deriving DecidableEq, Repr

structure WorkflowNode where
  id : String
  type : Option String
  data : Option NodeData
deriving DecidableEq, Repr

def API_MOCK_WORKFLOW_NODE_TYPES : List String :=
  ["apiMockStart", "apiMockApply", "apiMockResetState", "apiMockStop", "apiMockAssertCalls"]

def NON_HTTP_TYPES : List String :=
  ["start", "webhook", "schedule", "condition", "delay", "fork", "join",
    "switch", "loop", "setVariable", "script", "aggregate", "logDebug",
    "waitForCondition", "correlationWait", "errorHandler", "subWorkflow", "end",
    "kafkaProduce", "kafkaConsume", "kafkaTrigger", "kafkaWait",
    "wsConnect", "wsSend", "wsReceive", "wsTrigger",
    "graphqlQuery", "graphqlMutation", "graphqlSubscription", "graphqlIntrospect", "graphqlAssert",
    "grpcUnary", "grpcServerStream", "grpcAssert", "grpcLoadTest", "grpcSchemaDiff", "grpcMockAssert"] ++
  API_MOCK_WORKFLOW_NODE_TYPES

def isHttpWorkflowNode (n : WorkflowNode) : Bool :=
  if n.type = some "http" then true
  else if n.type.any fun type => type ≠ "" ∧ type ∈ NON_HTTP_TYPES then false
  else n.data.any (·.scenario.isSome)

def httpStepDisplayLabel (data : NodeData) : String :=
  match (data.label.map trimText).filter (· ≠ "") with
  | some d => d
  | none => (((data.scenario.join.bind ScenarioName.name).map trimText).filter (· ≠ "")).getD "HTTP"

/-- The ids and labels of the steps. -/
def httpSteps (nodes : List WorkflowNode) : List (String × String) :=
  nodes.filterMap fun n =>
    if isHttpWorkflowNode n then
      (n.data.filter (·.scenario.join.isSome)).map fun data => (n.id, httpStepDisplayLabel data)
    else none

/-! ## Scoped names -/

inductive ParsedNodeScoped
  | id (nodeId name : String)
  | label (label name : String)
deriving DecidableEq, Repr

/-- What `.` does not match. -/
def isLineBreak (c : Char) : Bool := c.toNat ∈ [10, 13, 0x2028, 0x2029]

/-- `(.+)$` -/
def restName (cs : List Char) : Option String :=
  if cs ≠ [] ∧ cs.all (!isLineBreak ·) then some (String.ofList cs) else none

/-- `/^node:"([^"]*)"\.(.+)$/` after `node:` -/
def quotedScope : List Char → Option ParsedNodeScoped
  | '"' :: cs =>
      match cs.dropWhile (· ≠ '"') with
      | '"' :: '.' :: name => (restName name).map (.label (String.ofList (cs.takeWhile (· ≠ '"'))))
      | _ => none
  | _ => none

/-- `/^node:([^.]+)\.(.+)$/` after `node:` -/
def plainScope (cs : List Char) : Option ParsedNodeScoped :=
  match cs.takeWhile (· ≠ '.'), cs.dropWhile (· ≠ '.') with
  | [], _ => none
  | nodeId, '.' :: name => (restName name).map (.id (String.ofList nodeId))
  | _, _ => none

def parseNodeScopedInner (trimmed : String) : Option ParsedNodeScoped :=
  match trimmed.toList with
  | 'n' :: 'o' :: 'd' :: 'e' :: ':' :: cs => (quotedScope cs).or (plainScope cs)
  | _ => none

/-! ## The context -/

structure VariableContext where
  extracted : InsertionMap String String
  manual : InsertionMap String String
  environment : InsertionMap String String
  byNode : InsertionMap String (InsertionMap String String)
  labelToNodeId : InsertionMap String String
  ambiguousLabels : List String
  nodeIdToLabel : InsertionMap String String

namespace VariableContext

def new (initial env : List (String × String)) : VariableContext where
  extracted := ∅
  manual := initial.foldl (fun m x => m.set x.1 x.2) ∅
  environment := env.foldl (fun m x => m.set x.1 x.2) ∅
  byNode := ∅
  labelToNodeId := ∅
  ambiguousLabels := []
  nodeIdToLabel := ∅

def idsByLabel (steps : List (String × String)) : InsertionMap String (List String) :=
  (groupsOf Prod.snd steps).map (·.map Prod.fst)

def registerWorkflowNodes (c : VariableContext) (nodes : List WorkflowNode) : VariableContext :=
  let steps := httpSteps nodes
  { c with
    nodeIdToLabel := steps.foldl (fun m step => m.set step.1 step.2) ∅
    labelToNodeId := ((idsByLabel steps).filter fun _ ids => ids.length = 1).map fun ids => ids.headD ""
    ambiguousLabels := ((idsByLabel steps).filter fun _ ids => ids.length ≠ 1).keys }

def setForNode (c : VariableContext) (nodeId name value : String) : VariableContext :=
  { c with byNode := c.byNode.set nodeId (((c.byNode.lookup nodeId).getD ∅).set name value) }

def getFromNode (c : VariableContext) (nodeId name : String) : Option String :=
  (c.byNode.lookup nodeId).bind (·.lookup name)

def resolveParsedScoped (c : VariableContext) : ParsedNodeScoped → Option String
  | .id nodeId name => c.getFromNode nodeId name
  | .label label name =>
      if label ∈ c.ambiguousLabels then none
      else
        match c.labelToNodeId.lookup label with
        | none => none
        | some id => if id = "" then none else c.getFromNode id name

def set (c : VariableContext) (name value : String) : VariableContext :=
  { c with extracted := c.extracted.set name value }

def delete (c : VariableContext) (name : String) : VariableContext :=
  { c with extracted := c.extracted.erase name }

/-- A plain variable. -/
def getPlain (c : VariableContext) (name : String) : Option String :=
  ((c.extracted.lookup name).or (c.manual.lookup name)).or (c.environment.lookup name)

def get (c : VariableContext) (name : String) : Option String :=
  match parseNodeScopedInner name with
  | some p => c.resolveParsedScoped p
  | none => c.getPlain name

def child (c : VariableContext) : VariableContext :=
  { c with
    extracted := ∅
    manual := c.extracted.entries.foldl (fun m x => m.set x.1 x.2) c.manual }

def snapshotKeyForNodeVar (c : VariableContext) (nodeId varName : String) : String :=
  match c.nodeIdToLabel.lookup nodeId with
  | none => "node:" ++ nodeId ++ "." ++ varName
  | some label =>
      if label ≠ "" ∧ label ∉ c.ambiguousLabels ∧ '"' ∉ label.toList ∧ '\n' ∉ label.toList then
        "node:\"" ++ label ++ "\"." ++ varName
      else "node:" ++ nodeId ++ "." ++ varName

def internalVars : List String := ["__webhookInput", "__webhookMethod", "__webhookPath", "__webhookPayload"]

/-- `out[key] = value`, which the setter of `__proto__` ignores. -/
def assign (out : InsertionMap String String) (key value : String) : InsertionMap String String :=
  if key = "__proto__" then out else out.set key value

def assignAll (out m : InsertionMap String String) : InsertionMap String String :=
  m.entries.foldl (fun out x => if x.1 ∈ internalVars then out else assign out x.1 x.2) out

/-- The bindings of the steps: id, name and value. -/
def bindings (c : VariableContext) : List (String × String × String) :=
  c.byNode.entries.flatMap fun x => x.2.entries.map fun y => (x.1, y.1, y.2)

def snapshot (c : VariableContext) : InsertionMap String String :=
  c.bindings.foldl
    (fun out x => if x.2.1 ∈ internalVars then out else assign out (c.snapshotKeyForNodeVar x.1 x.2.1) x.2.2)
    (assignAll (assignAll (assignAll ∅ c.environment) c.manual) c.extracted)

/-! ## Runs -/

inductive Op
  | registerWorkflowNodes (nodes : List WorkflowNode)
  | set (name value : String)
  | setForNode (nodeId name value : String)
  | delete (name : String)
  | child

def step : Op → VariableContext → VariableContext
  | .registerWorkflowNodes nodes, c => c.registerWorkflowNodes nodes
  | .set name value, c => c.set name value
  | .setForNode nodeId name value, c => c.setForNode nodeId name value
  | .delete name, c => c.delete name
  | .child, c => c.child

def next (op : Op) (c : VariableContext) : Option VariableContext := some (step op c)

end VariableContext

/-! ## Names -/

/-- A name of a variable that both expressions can read. -/
def IsName (name : String) : Prop :=
  name ≠ "" ∧ (∀ c ∈ name.toList, isLineBreak c = false) ∧ ¬ "node:".toList <+: name.toList

instance (name : String) : Decidable (IsName name) := inferInstanceAs (Decidable (_ ∧ _ ∧ _))

/-- What comes before a name reads as a quoted label. -/
def ReadsAsLabel (nodeId name : String) : Prop :=
  ∃ label rest : List Char, '"' ∉ label ∧ rest ≠ [] ∧
    nodeId.toList ++ '.' :: name.toList = '"' :: (label ++ '"' :: '.' :: rest)

theorem not_readsAsLabel {nodeId name : String} (h : nodeId.toList.head? ≠ some '"') : ¬ ReadsAsLabel nodeId name := by
  rintro ⟨label, rest, -, -, htext⟩
  cases hid : nodeId.toList with
  | nil =>
      rw [hid] at htext
      cases htext
  | cons d ds =>
      rw [hid, List.cons_append, List.cons.injEq] at htext
      rw [hid, htext.1] at h
      exact h rfl

theorem restName_of_name {name : String} (h : IsName name) : restName name.toList = some name := by
  rw [restName, if_pos, String.ofList_toList]
  refine ⟨fun hnil => h.1 (String.toList_eq_nil_iff.mp hnil), List.all_eq_true.mpr fun c hc => ?_⟩
  rw [h.2.1 c hc]
  rfl

/-- A name that does not start with `node:` is plain. -/
theorem parseNodeScopedInner_plain {name : String} (h : ¬ "node:".toList <+: name.toList) :
    parseNodeScopedInner name = none := by
  rw [parseNodeScopedInner]
  split
  next cs hcs =>
    rw [hcs] at h
    exact absurd ⟨cs, rfl⟩ h
  next => rfl

theorem parseNodeScopedInner_label {label name : String} (hlabel : '"' ∉ label.toList) (hname : IsName name) :
    parseNodeScopedInner ("node:\"" ++ label ++ "\"." ++ name) = some (.label label name) := by
  have htext : ("node:\"" ++ label ++ "\"." ++ name).toList =
      'n' :: 'o' :: 'd' :: 'e' :: ':' :: '"' :: (label.toList ++ '"' :: '.' :: name.toList) := by
    simp
  rw [parseNodeScopedInner, htext]
  simp only [quotedScope]
  rw [dropWhile_append_cons hlabel, takeWhile_append_cons hlabel]
  simp only [restName_of_name hname, String.ofList_toList, Option.map_some, Option.some_or]

theorem quotedScope_none {nodeId name : String} (h : ¬ ReadsAsLabel nodeId name) :
    quotedScope (nodeId.toList ++ '.' :: name.toList) = none := by
  unfold quotedScope
  split
  next cs hcs =>
    split
    next rest hrest =>
      rw [restName, if_neg]
      · rfl
      · intro hname
        refine h ⟨cs.takeWhile (· ≠ '"'), rest, fun hmem => ?_, hname.1, ?_⟩
        · have hq := List.mem_takeWhile_imp hmem
          simp at hq
        · rw [hcs, ← hrest, List.takeWhile_append_dropWhile]
    next => rfl
  next => rfl

theorem parseNodeScopedInner_id {nodeId name : String} (hdot : '.' ∉ nodeId.toList) (hid : nodeId ≠ "")
    (h : ¬ ReadsAsLabel nodeId name) (hname : IsName name) :
    parseNodeScopedInner ("node:" ++ nodeId ++ "." ++ name) = some (.id nodeId name) := by
  have htext : ("node:" ++ nodeId ++ "." ++ name).toList =
      'n' :: 'o' :: 'd' :: 'e' :: ':' :: (nodeId.toList ++ '.' :: name.toList) := by
    simp
  have hne : nodeId.toList ≠ [] := fun hnil => hid (String.toList_eq_nil_iff.mp hnil)
  rw [parseNodeScopedInner, htext]
  simp only [quotedScope_none h, Option.none_or, plainScope]
  rw [takeWhile_append_cons hdot, dropWhile_append_cons hdot]
  obtain ⟨d, ds, hds⟩ := List.exists_cons_of_ne_nil hne
  simp only [hds]
  rw [restName_of_name hname, ← hds, String.ofList_toList, Option.map_some]

/-! ## What a snapshot holds -/

namespace VariableContext

variable {c : VariableContext} {out m : InsertionMap String String} {key name value : String}

theorem lookup_assign {key' : String} : (assign out key value).lookup key' =
    if key' = key ∧ key ≠ "__proto__" then some value else out.lookup key' := by
  rw [assign]
  split
  next h => rw [if_neg fun h' => h'.2 h]
  next h =>
    rw [InsertionMap.lookup_set]
    exact if_congr (and_iff_left h).symm rfl rfl

/-- A name that a snapshot leaves out. -/
def IsLeftOut (name : String) : Prop := name ∈ internalVars ∨ name = "__proto__"

instance (name : String) : Decidable (IsLeftOut name) := inferInstanceAs (Decidable (_ ∨ _))

theorem lookup_put {x : String} : (if x ∈ internalVars then out else assign out x value).lookup key =
    if key = x ∧ ¬ IsLeftOut key then some value else out.lookup key := by
  split
  next h => exact (if_neg fun h' => h'.2 (.inl (h'.1 ▸ h))).symm
  next h =>
    rw [lookup_assign]
    refine if_congr (and_congr_right fun hkey => ?_) rfl rfl
    rw [hkey, IsLeftOut, not_or, and_iff_right h]

theorem lookup_assignAll : (assignAll out m).lookup key =
    if IsLeftOut key then out.lookup key else (m.lookup key).or (out.lookup key) := by
  have hlist : ∀ l : List ((_ : String) × String), l.NodupKeys → ∀ out : InsertionMap String String,
      (l.foldl (fun out x => if x.1 ∈ internalVars then out else assign out x.1 x.2) out).lookup key =
        if IsLeftOut key then out.lookup key else (l.dlookup key).or (out.lookup key) := by
    intro l
    induction l with
    | nil => exact fun _ out => (ite_self _).symm
    | cons x l ih =>
        intro hl out
        obtain ⟨k, v⟩ := x
        obtain ⟨hk, hl⟩ := List.nodupKeys_cons.mp hl
        rw [List.foldl_cons, ih hl, lookup_put]
        split
        next h => rw [if_neg fun h' => h'.2 h]
        next h =>
          by_cases hkey : key = k
          · subst hkey
            rw [if_pos ⟨rfl, h⟩, List.dlookup_cons_eq, List.dlookup_eq_none.mpr hk]
            rfl
          · rw [if_neg fun h' => hkey h'.1, List.dlookup_cons_ne _ _ hkey]
  exact hlist m.entries m.nodupKeys out

/-- The plain variables come first. -/
def plainSnapshot (c : VariableContext) : InsertionMap String String :=
  assignAll (assignAll (assignAll ∅ c.environment) c.manual) c.extracted

theorem lookup_plainSnapshot : c.plainSnapshot.lookup key = if IsLeftOut key then none else c.getPlain key := by
  rw [plainSnapshot, lookup_assignAll, lookup_assignAll, lookup_assignAll, getPlain]
  split
  next => rfl
  next => rw [AList.lookup_empty, Option.or_none, Option.or_assoc]

theorem mem_bindings {nodeId : String} : (nodeId, name, value) ∈ c.bindings ↔ c.getFromNode nodeId name = some value := by
  rw [bindings, getFromNode, List.mem_flatMap, Option.bind_eq_some_iff]
  constructor
  · rintro ⟨⟨id, inner⟩, hinner, hmem⟩
    obtain ⟨⟨name, value⟩, hentry, hx⟩ := List.mem_map.mp hmem
    cases hx
    exact ⟨inner, InsertionMap.mem_entries.mp hinner, InsertionMap.mem_entries.mp hentry⟩
  · rintro ⟨inner, hinner, hvalue⟩
    exact ⟨⟨nodeId, inner⟩, InsertionMap.mem_entries.mpr hinner,
      List.mem_map.mpr ⟨⟨name, value⟩, InsertionMap.mem_entries.mpr hvalue, rfl⟩⟩

/-- What a snapshot holds is a variable of a step under the key that is written for it, or is plain
and no step has it. -/
theorem lookup_snapshot : c.snapshot.lookup key = some value →
    (∃ nodeId name, name ∉ internalVars ∧ c.getFromNode nodeId name = some value ∧
      key = c.snapshotKeyForNodeVar nodeId name) ∨ c.plainSnapshot.lookup key = some value := by
  have hlist : ∀ l : List (String × String × String), ∀ out : InsertionMap String String,
      (l.foldl (fun out x => if x.2.1 ∈ internalVars then out
        else assign out (c.snapshotKeyForNodeVar x.1 x.2.1) x.2.2) out).lookup key = some value →
      (∃ x ∈ l, x.2.1 ∉ internalVars ∧ x.2.2 = value ∧ key = c.snapshotKeyForNodeVar x.1 x.2.1) ∨
        out.lookup key = some value := by
    intro l
    induction l with
    | nil => exact fun out h => .inr h
    | cons x l ih =>
        intro out h
        obtain ⟨x', hx', hrest⟩ | hout := ih _ h
        · exact .inl ⟨x', List.mem_cons_of_mem x hx', hrest⟩
        · dsimp only at hout
          split at hout
          next => exact .inr hout
          next hname =>
            rw [lookup_assign] at hout
            split at hout
            next hkey => exact .inl ⟨x, List.mem_cons_self, hname, Option.some.inj hout, hkey.1⟩
            next => exact .inr hout
  intro h
  obtain ⟨⟨nodeId, name, v⟩, hx, hname, rfl, hkey⟩ | hplain := hlist c.bindings _ h
  · exact .inl ⟨nodeId, name, hname, mem_bindings.mp hx, hkey⟩
  · exact .inr hplain

theorem snapshotKey_starts (nodeId name : String) :
    "node:".toList <+: (c.snapshotKeyForNodeVar nodeId name).toList := by
  have hid : "node:".toList <+: ("node:" ++ nodeId ++ "." ++ name).toList := by
    rw [String.toList_append, String.toList_append, String.toList_append, List.append_assoc, List.append_assoc]
    exact List.prefix_append _ _
  rw [snapshotKeyForNodeVar]
  split
  next => exact hid
  next label _ =>
    split
    next => exact ⟨'"' :: (label.toList ++ '"' :: '.' :: name.toList), by simp⟩
    next => exact hid

/-- A name that no key of a step has stands for the plain variable. -/
theorem lookup_snapshot_plain (hkey : ¬ "node:".toList <+: key.toList) :
    c.snapshot.lookup key = if IsLeftOut key then none else c.getPlain key := by
  have hlist : ∀ l : List (String × String × String), ∀ out : InsertionMap String String,
      (l.foldl (fun out x => if x.2.1 ∈ internalVars then out
        else assign out (c.snapshotKeyForNodeVar x.1 x.2.1) x.2.2) out).lookup key = out.lookup key := by
    intro l
    induction l with
    | nil => exact fun out => rfl
    | cons x l ih =>
        intro out
        rw [List.foldl_cons, ih]
        split
        next => rfl
        next =>
          rw [lookup_assign, if_neg]
          rintro ⟨rfl, -⟩
          exact hkey (snapshotKey_starts x.1 x.2.1)
  rw [← lookup_plainSnapshot]
  exact hlist c.bindings c.plainSnapshot

/-! ## The invariant -/

/-- What is needed of the id of a step and a name in it. -/
structure Readable (nodeId name : String) : Prop where
  dotless : '.' ∉ nodeId.toList
  isName : IsName name
  nonempty : nodeId ≠ ""
  unquoted : ¬ ReadsAsLabel nodeId name

structure Inv (c : VariableContext) : Prop where
  plain : ∀ name, c.getPlain name ≠ none → IsName name
  bound : ∀ nodeId name value, c.getFromNode nodeId name = some value → name ∉ internalVars → Readable nodeId name
  labels : ∀ nodeId label, c.nodeIdToLabel.lookup nodeId = some label → label ∉ c.ambiguousLabels →
    c.labelToNodeId.lookup label = some nodeId

theorem get_snapshotKey (h : Inv c) {nodeId : String} (hbound : c.getFromNode nodeId name = some value)
    (hname : name ∉ internalVars) : c.get (c.snapshotKeyForNodeVar nodeId name) = some value := by
  have hread := h.bound nodeId name value hbound hname
  have hid : c.get ("node:" ++ nodeId ++ "." ++ name) = some value := by
    rw [get, parseNodeScopedInner_id hread.dotless hread.nonempty hread.unquoted hread.isName]
    exact hbound
  rw [snapshotKeyForNodeVar]
  split
  next => exact hid
  next label hlabel =>
    split
    next hcond =>
      rw [get, parseNodeScopedInner_label hcond.2.2.1 hread.isName]
      dsimp only [resolveParsedScoped]
      rw [if_neg hcond.2.1, h.labels nodeId label hlabel hcond.2.1]
      exact (if_neg hread.nonempty).trans hbound
    next => exact hid

/-- Where the invariant holds, what a snapshot holds is found under its key. -/
theorem get_of_snapshot (h : Inv c) (hkey : c.snapshot.lookup key = some value) : c.get key = some value := by
  obtain ⟨nodeId, name, hname, hbound, rfl⟩ | hplain := lookup_snapshot hkey
  · exact get_snapshotKey h hbound hname
  · rw [lookup_plainSnapshot] at hplain
    split at hplain
    next => cases hplain
    next =>
      have hname := h.plain key (by rw [hplain]; nofun)
      rw [get, parseNodeScopedInner_plain hname.2.2]
      exact hplain

/-! ## Steps keep it -/

theorem lookup_foldl_entries {l : List (String × String)} {name : String}
    (h : (l.foldl (fun m x => m.set x.1 x.2) (∅ : InsertionMap String String)).lookup name ≠ none) : ∃ x ∈ l, x.1 = name := by
  rw [InsertionMap.lookup_foldl_set Prod.fst Prod.snd, AList.lookup_empty, Option.or_none, Ne, Option.map_eq_none_iff,
    List.find?_eq_none] at h
  push Not at h
  obtain ⟨x, hx, hname⟩ := h
  exact ⟨x, List.mem_reverse.mp hx, of_decide_eq_true hname⟩

theorem inv_new {initial env : List (String × String)} (hinitial : ∀ x ∈ initial, IsName x.1)
    (henv : ∀ x ∈ env, IsName x.1) : Inv (new initial env) where
  plain := by
    intro name h
    rw [getPlain, Ne, Option.or_eq_none_iff, Option.or_eq_none_iff] at h
    by_cases hmanual : (new initial env).manual.lookup name = none
    · have henvironment : (new initial env).environment.lookup name ≠ none := fun h' => h ⟨⟨rfl, hmanual⟩, h'⟩
      obtain ⟨x, hx, rfl⟩ := lookup_foldl_entries henvironment
      exact henv x hx
    · obtain ⟨x, hx, rfl⟩ := lookup_foldl_entries hmanual
      exact hinitial x hx
  bound := fun nodeId name value h => by cases h
  labels := fun nodeId label h => by cases h

/-- A step is among those that have its label. -/
theorem mem_idsByLabel {steps : List (String × String)} {s : String × String} (hs : s ∈ steps) :
    ∃ ids, (idsByLabel steps).lookup s.2 = some ids ∧ s.1 ∈ ids := by
  have hmem : s ∈ steps.filter (·.2 = s.2) := List.mem_filter.mpr ⟨hs, decide_eq_true rfl⟩
  refine ⟨(steps.filter (·.2 = s.2)).map Prod.fst, ?_, List.mem_map_of_mem hmem⟩
  rw [idsByLabel, InsertionMap.lookup_map, lookup_groupsOf, if_neg (List.ne_nil_of_mem hmem)]
  rfl

theorem inv_register (h : Inv c) (nodes : List WorkflowNode) : Inv (c.registerWorkflowNodes nodes) where
  plain := h.plain
  bound := h.bound
  labels := by
    intro nodeId label hlabel hunique
    rw [registerWorkflowNodes] at hlabel hunique ⊢
    generalize httpSteps nodes = steps at hlabel hunique ⊢
    obtain ⟨step, hstep, hid, hstepLabel⟩ : ∃ step ∈ steps, step.1 = nodeId ∧ step.2 = label := by
      dsimp only at hlabel
      rw [InsertionMap.lookup_foldl_set Prod.fst Prod.snd, AList.lookup_empty, Option.or_none, Option.map_eq_some_iff] at hlabel
      obtain ⟨step, hfind, hstepLabel⟩ := hlabel
      exact ⟨step, List.mem_reverse.mp (List.mem_of_find?_eq_some hfind), of_decide_eq_true (List.find?_some hfind :), hstepLabel⟩
    obtain ⟨ids, hids, hmem⟩ := mem_idsByLabel hstep
    rw [hstepLabel] at hids
    rw [hid] at hmem
    dsimp only at hunique ⊢
    have hone : ids.length = 1 := by
      by_contra hne
      refine hunique (AList.mem_keys.mpr (AList.lookup_isSome.mp ?_))
      rw [InsertionMap.lookup_filter, hids, Option.filter_some, if_pos (decide_eq_true hne)]
      rfl
    obtain ⟨id, rfl⟩ := List.length_eq_one_iff.mp hone
    rw [InsertionMap.lookup_map, InsertionMap.lookup_filter, hids, List.mem_singleton.mp hmem]
    rfl

theorem getPlain_set : (c.set name value).getPlain key = if key = name then some value else c.getPlain key := by
  rw [getPlain, set, InsertionMap.lookup_set]
  split
  next => rfl
  next => rfl

theorem inv_set (h : Inv c) (hname : IsName name) : Inv (c.set name value) where
  plain := by
    intro key hkey
    rw [getPlain_set] at hkey
    split at hkey
    next heq => exact heq ▸ hname
    next => exact h.plain key hkey
  bound := h.bound
  labels := h.labels

theorem inv_delete (h : Inv c) : Inv (c.delete name) where
  plain := by
    intro key hkey
    refine h.plain key fun hnone => hkey ?_
    rw [getPlain, Option.or_eq_none_iff, Option.or_eq_none_iff] at hnone ⊢
    refine ⟨⟨?_, hnone.1.2⟩, hnone.2⟩
    rw [delete, InsertionMap.lookup_erase, hnone.1.1, ite_self]
  bound := h.bound
  labels := h.labels

theorem getFromNode_setForNode {nodeId id : String} : (c.setForNode nodeId name value).getFromNode id key =
    if id = nodeId ∧ key = name then some value else c.getFromNode id key := by
  rw [getFromNode, setForNode, InsertionMap.lookup_set, getFromNode]
  by_cases hid : id = nodeId
  · subst hid
    rw [if_pos rfl, Option.bind_some, InsertionMap.lookup_set]
    refine if_congr (and_iff_right rfl).symm rfl ?_
    cases c.byNode.lookup id with
    | none => rfl
    | some inner => rfl
  · rw [if_neg hid, if_neg fun h => hid h.1]

theorem inv_setForNode (h : Inv c) {nodeId : String} (hread : name ∈ internalVars ∨ Readable nodeId name) :
    Inv (c.setForNode nodeId name value) where
  plain := h.plain
  bound := by
    intro id key v hbound hkey
    rw [getFromNode_setForNode] at hbound
    split at hbound
    next heq =>
      obtain ⟨rfl, rfl⟩ := heq
      exact hread.resolve_left hkey
    next => exact h.bound id key v hbound hkey
  labels := h.labels

theorem getPlain_child : c.child.getPlain key = c.getPlain key := by
  have hmanual := @InsertionMap.lookup_foldl_set _ _ _ c.manual key _ (fun x : (_ : String) × String => x.1) Sigma.snd c.extracted.entries
  rw [find?_reverse_entries] at hmanual
  rw [getPlain, child, hmanual, getPlain, AList.lookup_empty, Option.none_or]

theorem inv_child (h : Inv c) : Inv c.child where
  plain := by
    intro key hkey
    rw [getPlain_child] at hkey
    exact h.plain key hkey
  bound := h.bound
  labels := h.labels

end VariableContext

/-! ## Every snapshot reads back -/

open VariableContext

/-- The names of variables that a step is given, and an id without dots. -/
def WellNamed : Op → Prop
  | .set name _ => IsName name
  | .setForNode nodeId name _ => '.' ∉ nodeId.toList ∧ IsName name
  | _ => True

/-- An id that is not taken for none, nor with the name for a label. -/
def ReadsAsId : Op → Prop
  | .setForNode nodeId name _ => name ∈ internalVars ∨ (nodeId ≠ "" ∧ ¬ ReadsAsLabel nodeId name)
  | _ => True

theorem inv_step {op : Op} {c c' : VariableContext} (h : Inv c) (hok : WellNamed op ∧ ReadsAsId op)
    (hnext : VariableContext.next op c = some c') : Inv c' := by
  cases hnext
  cases op with
  | registerWorkflowNodes nodes => exact inv_register h nodes
  | set name value => exact inv_set h hok.1
  | setForNode nodeId name value =>
      refine inv_setForNode h (hok.2.imp_right fun hid => ?_)
      exact ⟨hok.1.1, hok.1.2, hid.1, hid.2⟩
  | delete name => exact inv_delete h
  | child => exact inv_child h

/-- **In every run that sets variables only of ids that read as ids, each snapshot reads back, and
its plain variables are those that come first.** -/
theorem snapshot_reads_back {initial env : List (String × String)} {ops : List Op} {c : VariableContext}
    (hinitial : ∀ x ∈ initial, IsName x.1) (henv : ∀ x ∈ env, IsName x.1)
    (hrun : exec VariableContext.next (new initial env) ops = some c)
    (hnames : ∀ op ∈ ops, WellNamed op) (hids : ∀ op ∈ ops, ReadsAsId op) :
    (∀ key value, c.snapshot.lookup key = some value → c.get key = some value) ∧
      ∀ name, IsName name → c.snapshot.lookup name =
        if IsLeftOut name then none
        else ((c.extracted.lookup name).or (c.manual.lookup name)).or (c.environment.lookup name) := by
  have hok : AllSteps VariableContext.next (fun op _ => WellNamed op ∧ ReadsAsId op) (new initial env) ops :=
    allSteps_of_forall fun op hop => ⟨hnames op hop, hids op hop⟩
  have hinv : Inv c := exec_invariant (fun _ _ _ => inv_step) (inv_new hinitial henv) hok hrun
  exact ⟨fun _ _ => get_of_snapshot hinv, fun name hname => lookup_snapshot_plain hname.2.2⟩

/-- Two steps have the title `Login`. -/
def twoLogins : List Op :=
  [.registerWorkflowNodes [⟨"n1", some "http", some ⟨some "Login", some (some ⟨none⟩)⟩⟩,
      ⟨"n2", none, some ⟨none, some (some ⟨some " Login "⟩)⟩⟩, ⟨"n3", some "http", some ⟨none, some (some ⟨none⟩)⟩⟩],
    .set "token" "t", .setForNode "n1" "a.b" "1", .setForNode "n3" "x" "2", .child, .set "token" "u"]

theorem twoLogins_reads_back : ∃ c,
    exec VariableContext.next (new [("token", "s")] [("token", "r"), ("env", "e")]) twoLogins = some c ∧
    (∀ key value, c.snapshot.lookup key = some value → c.get key = some value) ∧
      ∀ name, IsName name → c.snapshot.lookup name =
        if IsLeftOut name then none
        else ((c.extracted.lookup name).or (c.manual.lookup name)).or (c.environment.lookup name) := by
  refine ⟨_, rfl, @snapshot_reads_back [("token", "s")] [("token", "r"), ("env", "e")] twoLogins _ (by decide) (by decide) rfl ?_ ?_⟩
  · simp only [twoLogins, List.forall_mem_cons, WellNamed]
    exact ⟨trivial, by decide, by decide, by decide, trivial, by decide, nofun⟩
  · simp only [twoLogins, List.forall_mem_cons, ReadsAsId]
    refine ⟨trivial, trivial, .inr ⟨by decide, not_readsAsLabel (by decide)⟩, .inr ⟨by decide, not_readsAsLabel (by decide)⟩,
      trivial, trivial, nofun⟩

/-- An id in quotation marks is taken for a label, which no step has. -/
theorem quoted_id_unread : WellNamed (.setForNode "\"a\"" "x" "1") ∧
    ∃ c, exec VariableContext.next (new [] []) [.setForNode "\"a\"" "x" "1"] = some c ∧
      c.snapshot.lookup "node:\"a\".x" = some "1" ∧ c.get "node:\"a\".x" = none :=
  ⟨⟨by decide, by decide⟩, _, rfl, by decide, by decide⟩

end RedFireForge.Workflow.Variables
