/-
# `RedFireForge.Workflow.ExtractSubWorkflow` — a selection becomes a workflow of its own

The child has the edges inside of the selection, and its Start leads to the nodes that are
entered from outside; only where there are none does it lead to the nodes without an incoming
edge.  A step that is reached from outside is reached in the child; one that starts a path of
its own is not, if another one is entered from outside.
-/
import Mathlib.Algebra.Field.Rat
import Mathlib.Algebra.Order.Ring.Rat
import Mathlib.Logic.Relation
import RedFireForge.Lib.Json
import RedFireForge.Workflow.Graph

namespace RedFireForge.Workflow.ExtractSub

open RedFireForge.Lib (Json)

structure WorkflowNode where
  id : NodeId
  type : String
  x : ℚ
  y : ℚ
  data : Json

structure ChildWorkflow where
  id : String
  name : String
  nodes : List WorkflowNode
  edges : List WorkflowEdge
  createdAt : ℕ
  updatedAt : ℕ

structure ExtractResult where
  childWorkflow : ChildWorkflow
  subWorkflowNode : WorkflowNode
  extractedNodeIds : List NodeId
  extractedEdgeIds : List String

def nonExtractable : List String := ["start", "end"]

section Extract

variable (selectedNodeIds : List NodeId) (parentNodes : List WorkflowNode) (parentEdges : List WorkflowEdge)

def extractableIds : List NodeId :=
  (selectedNodeIds.filter fun id =>
    (parentNodes.find? (·.id = id)).any (·.type ∉ nonExtractable)).eraseDups

variable (ids : List NodeId)

def extractedNodes : List WorkflowNode := parentNodes.filter (·.id ∈ ids)

def internalEdges : List WorkflowEdge := parentEdges.filter fun e => e.source ∈ ids ∧ e.target ∈ ids

/-- source outside, target inside -/
def incomingEdges : List WorkflowEdge := parentEdges.filter fun e => e.source ∉ ids ∧ e.target ∈ ids

/-- source inside, target outside -/
def outgoingEdges : List WorkflowEdge := parentEdges.filter fun e => e.source ∈ ids ∧ e.target ∉ ids

/-- The ends of the crossing edges; without any, the nodes that are the end of no inner edge; and
without these all nodes. -/
def boundaryIds (nodes : List WorkflowNode) (crossing internal : List NodeId) : List NodeId :=
  if crossing.eraseDups = [] then
    let free := ((nodes.map (·.id)).filter (· ∉ internal)).eraseDups
    if free = [] then (nodes.map (·.id)).eraseDups else free
  else crossing.eraseDups

def entryNodeIds : List NodeId :=
  boundaryIds (extractedNodes parentNodes ids) ((incomingEdges parentEdges ids).map (·.target))
    ((internalEdges parentEdges ids).map (·.target))

def exitNodeIds : List NodeId :=
  boundaryIds (extractedNodes parentNodes ids) ((outgoingEdges parentEdges ids).map (·.source))
    ((internalEdges parentEdges ids).map (·.source))

-- what `uuidv4` gives, one after the other
variable (uuid : ℕ → String)

def childEdges : List WorkflowEdge :=
  let entries := entryNodeIds parentNodes parentEdges ids
  internalEdges parentEdges ids ++
    (entries.mapIdx (fun i targetId => ⟨uuid (2 + i), uuid 0, targetId, none, none⟩) ++
      (exitNodeIds parentNodes parentEdges ids).mapIdx fun i sourceId =>
        ⟨uuid (2 + entries.length + i), sourceId, uuid 1, none, none⟩)

def childNodes : List WorkflowNode :=
  let nodes := extractedNodes parentNodes ids
  let minX := ((nodes.map (·.x)).min?).getD 0
  let minY := ((nodes.map (·.y)).min?).getD 0
  let maxY := ((nodes.map (·.y)).max?).getD 0
  ⟨uuid 0, "start", -minX + 100, -minY - 100,
      .obj [("label", .str "Start"), ("inputVariables", .obj [])]⟩ ::
    (nodes.map (fun n => { n with x := n.x - minX + 100, y := n.y - minY }) ++
      [⟨uuid 1, "end", -minX + 100, -minY + maxY - minY + 200, .obj [("label", .str "End")]⟩])

def extractToSubWorkflow (childName : String) (now : ℕ) : Option ExtractResult :=
  let ids := extractableIds selectedNodeIds parentNodes
  if ids = [] then none
  else
    let nodes := extractedNodes parentNodes ids
    let edges := childEdges parentNodes parentEdges ids uuid
    let calls := 2 + (edges.length - (internalEdges parentEdges ids).length)
    some {
      childWorkflow :=
        { id := uuid calls
          name := childName
          nodes := childNodes parentNodes ids uuid
          edges := edges
          createdAt := now
          updatedAt := now }
      subWorkflowNode :=
        { id := uuid (calls + 1)
          type := "subWorkflow"
          x := (nodes.map (·.x)).sum / nodes.length
          y := (nodes.map (·.y)).sum / nodes.length
          data := .obj [("label", .str childName), ("workflowId", .str (uuid calls)),
            ("workflowName", .str childName), ("inputMappings", .arr []), ("outputMappings", .arr [])] }
      extractedNodeIds := ids
      extractedEdgeIds := ((internalEdges parentEdges ids).map (·.id) ++
        ((incomingEdges parentEdges ids).map (·.id) ++ (outgoingEdges parentEdges ids).map (·.id))).eraseDups }

end Extract

/-! ## Reachability -/

def Leads (edges : List WorkflowEdge) (a b : NodeId) : Prop := ∃ e ∈ edges, e.source = a ∧ e.target = b

def Reaches (edges : List WorkflowEdge) : NodeId → NodeId → Prop := Relation.ReflTransGen (Leads edges)

/-- A node without incoming edges. -/
def IsRoot (nodes : List WorkflowNode) (edges : List WorkflowEdge) (id : NodeId) : Prop :=
  (∃ n ∈ nodes, n.id = id) ∧ ∀ e ∈ edges, e.target ≠ id

/-- What the child keeps of a parent. -/
structure LosesNoStep (nodes : List WorkflowNode) (edges : List WorkflowEdge) (r : ExtractResult) :
    Prop where
  reachable : ∀ id ∈ r.extractedNodeIds, (∃ root, IsRoot nodes edges root ∧ Reaches edges root id) →
    ∃ start ∈ r.childWorkflow.nodes.head?, Reaches r.childWorkflow.edges start.id id
  kept : ∀ e ∈ edges, e.source ∈ r.extractedNodeIds → e.target ∈ r.extractedNodeIds →
    e ∈ r.childWorkflow.edges
  closed : ∀ e ∈ r.childWorkflow.edges, e.source ∈ r.childWorkflow.nodes.map (·.id) ∧
    e.target ∈ r.childWorkflow.nodes.map (·.id)
  collected : ∀ e ∈ edges, e.source ∈ r.extractedNodeIds ∨ e.target ∈ r.extractedNodeIds →
    e.id ∈ r.extractedEdgeIds

section Child

variable {selectedNodeIds ids : List NodeId} {nodes : List WorkflowNode} {edges : List WorkflowEdge}
  {uuid : ℕ → String} {id : NodeId} {e : WorkflowEdge}

theorem mem_childEdges : e ∈ childEdges nodes edges ids uuid ↔ e ∈ internalEdges edges ids ∨
    (∃ i target, (entryNodeIds nodes edges ids)[i]? = some target ∧
      ⟨uuid (2 + i), uuid 0, target, none, none⟩ = e) ∨
    ∃ i source, (exitNodeIds nodes edges ids)[i]? = some source ∧
      ⟨uuid (2 + (entryNodeIds nodes edges ids).length + i), source, uuid 1, none, none⟩ = e := by
  simp only [childEdges, List.mem_append, List.mem_mapIdx, List.getElem?_eq_some_iff]
  grind

theorem mem_extractableIds (h : id ∈ extractableIds selectedNodeIds nodes) : ∃ n ∈ nodes, n.id = id := by
  rw [extractableIds, List.mem_eraseDups, List.mem_filter] at h
  obtain ⟨n, hn, -⟩ := (Option.any_eq_true _ _).mp h.2
  exact ⟨n, List.mem_of_find?_eq_some hn, by simpa using List.find?_some hn⟩

theorem mem_extractedNodes_ids (hids : ∀ id ∈ ids, ∃ n ∈ nodes, n.id = id) :
    id ∈ (extractedNodes nodes ids).map (·.id) ↔ id ∈ ids := by
  simp only [extractedNodes, List.mem_map, List.mem_filter, decide_eq_true_eq]
  constructor
  · rintro ⟨n, ⟨-, hn⟩, rfl⟩
    exact hn
  · intro hid
    obtain ⟨n, hn, rfl⟩ := hids id hid
    exact ⟨n, ⟨hn, hid⟩, rfl⟩

theorem mem_internalEdges : e ∈ internalEdges edges ids ↔ e ∈ edges ∧ e.source ∈ ids ∧ e.target ∈ ids := by
  simp [internalEdges]

theorem mem_incomingEdges : e ∈ incomingEdges edges ids ↔ e ∈ edges ∧ e.source ∉ ids ∧ e.target ∈ ids := by
  simp [incomingEdges]

theorem mem_outgoingEdges : e ∈ outgoingEdges edges ids ↔ e ∈ edges ∧ e.source ∈ ids ∧ e.target ∉ ids := by
  simp [outgoingEdges]

theorem eraseDups_eq_nil_iff {α : Type} [BEq α] [LawfulBEq α] {l : List α} : l.eraseDups = [] ↔ l = [] := by
  constructor
  · intro h
    refine List.eq_nil_iff_forall_not_mem.mpr fun a ha => ?_
    rw [← List.mem_eraseDups, h] at ha
    cases ha
  · rintro rfl
    rfl

/-- With a crossing edge, the boundary is where one crosses. -/
theorem boundaryIds_of_crossing {crossing internal : List NodeId} (h : crossing ≠ []) :
    id ∈ boundaryIds nodes crossing internal ↔ id ∈ crossing := by
  rw [boundaryIds, if_neg (mt eraseDups_eq_nil_iff.mp h), List.mem_eraseDups]

theorem boundaryIds_subset {crossing internal : List NodeId}
    (h : ∀ id ∈ crossing, id ∈ nodes.map (·.id)) (hid : id ∈ boundaryIds nodes crossing internal) :
    id ∈ nodes.map (·.id) := by
  simp only [boundaryIds] at hid
  split at hid
  · split at hid
    · exact List.mem_eraseDups.mp hid
    · exact List.mem_of_mem_filter (List.mem_eraseDups.mp hid)
  · exact h id (List.mem_eraseDups.mp hid)

/-- Without one, it has every node that no inner edge ends at. -/
theorem mem_boundaryIds_of_free {internal : List NodeId} (hid : id ∈ nodes.map (·.id)) (hfree : id ∉ internal) :
    id ∈ boundaryIds nodes [] internal := by
  have hmem : id ∈ ((nodes.map (·.id)).filter (· ∉ internal)).eraseDups :=
    List.mem_eraseDups.mpr (List.mem_filter.mpr ⟨hid, by simpa using hfree⟩)
  rw [boundaryIds, if_pos (eraseDups_eq_nil_iff.mpr rfl)]
  simp only [List.ne_nil_of_mem hmem, if_false]
  exact hmem

theorem leads_entry {target : NodeId} (h : target ∈ entryNodeIds nodes edges ids) :
    Leads (childEdges nodes edges ids uuid) (uuid 0) target := by
  obtain ⟨i, hi⟩ := List.mem_iff_getElem?.mp h
  refine ⟨⟨uuid (2 + i), uuid 0, target, none, none⟩, ?_, rfl, rfl⟩
  rw [mem_childEdges]
  exact .inr (.inl ⟨i, target, hi, rfl⟩)

theorem leads_internal {a b : NodeId} (h : Leads edges a b) (ha : a ∈ ids) (hb : b ∈ ids) :
    Leads (childEdges nodes edges ids uuid) a b := by
  obtain ⟨e, he, rfl, rfl⟩ := h
  refine ⟨e, ?_, rfl, rfl⟩
  rw [mem_childEdges, mem_internalEdges]
  exact .inl ⟨he, ha, hb⟩

theorem entry_of_crossing (h : e ∈ incomingEdges edges ids) : e.target ∈ entryNodeIds nodes edges ids := by
  have hmem : e.target ∈ (incomingEdges edges ids).map (·.target) := List.mem_map.mpr ⟨e, h, rfl⟩
  exact (boundaryIds_of_crossing (List.ne_nil_of_mem hmem)).mpr hmem

/-- A path ends with its last crossing edge and what follows inside, or it is inside as a whole. -/
theorem reaches_inside {root : NodeId} (h : Reaches edges root id) (hid : id ∈ ids) :
    Reaches (childEdges nodes edges ids uuid) (uuid 0) id ∨
      root ∈ ids ∧ Reaches (childEdges nodes edges ids uuid) root id := by
  induction h with
  | refl => exact .inr ⟨hid, .refl⟩
  | tail _ hstep ih =>
      obtain ⟨e, he, rfl, rfl⟩ := hstep
      by_cases hsource : e.source ∈ ids
      · have hlast : Leads (childEdges nodes edges ids uuid) e.source e.target :=
          leads_internal ⟨e, he, rfl, rfl⟩ hsource hid
        exact (ih hsource).imp (·.tail hlast) fun ⟨hroot, h⟩ => ⟨hroot, h.tail hlast⟩
      · exact .inl (.single (leads_entry (entry_of_crossing (mem_incomingEdges.mpr ⟨he, hsource, hid⟩))))

theorem childNodes_ids (hids : ∀ id ∈ ids, ∃ n ∈ nodes, n.id = id) :
    id ∈ (childNodes nodes ids uuid).map (·.id) ↔ id = uuid 0 ∨ id ∈ ids ∨ id = uuid 1 := by
  have hmap : ((childNodes nodes ids uuid).map (·.id)) =
      uuid 0 :: ((extractedNodes nodes ids).map (·.id) ++ [uuid 1]) := by
    simp [childNodes]
  rw [hmap, List.mem_cons, List.mem_append, mem_extractedNodes_ids hids, List.mem_singleton]

theorem boundary_subset (hids : ∀ id ∈ ids, ∃ n ∈ nodes, n.id = id) {crossing internal : List NodeId}
    (h : ∀ id ∈ crossing, id ∈ ids)
    (hid : id ∈ boundaryIds (extractedNodes nodes ids) crossing internal) : id ∈ ids :=
  (mem_extractedNodes_ids hids).mp
    (boundaryIds_subset (fun c hc => (mem_extractedNodes_ids hids).mpr (h c hc)) hid)

theorem entryNodeIds_subset (hids : ∀ id ∈ ids, ∃ n ∈ nodes, n.id = id)
    (h : id ∈ entryNodeIds nodes edges ids) : id ∈ ids := by
  refine boundary_subset hids (fun c hc => ?_) h
  obtain ⟨e, he, rfl⟩ := List.mem_map.mp hc
  exact (mem_incomingEdges.mp he).2.2

theorem exitNodeIds_subset (hids : ∀ id ∈ ids, ∃ n ∈ nodes, n.id = id)
    (h : id ∈ exitNodeIds nodes edges ids) : id ∈ ids := by
  refine boundary_subset hids (fun c hc => ?_) h
  obtain ⟨e, he, rfl⟩ := List.mem_map.mp hc
  exact (mem_outgoingEdges.mp he).2.1

theorem childEdges_closed (hids : ∀ id ∈ ids, ∃ n ∈ nodes, n.id = id)
    (he : e ∈ childEdges nodes edges ids uuid) :
    e.source ∈ (childNodes nodes ids uuid).map (·.id) ∧ e.target ∈ (childNodes nodes ids uuid).map (·.id) := by
  rw [childNodes_ids hids, childNodes_ids hids]
  rw [mem_childEdges] at he
  rcases he with h | ⟨i, target, hi, rfl⟩ | ⟨i, source, hi, rfl⟩
  · obtain ⟨-, hsource, htarget⟩ := mem_internalEdges.mp h
    exact ⟨.inr (.inl hsource), .inr (.inl htarget)⟩
  · exact ⟨.inl rfl, .inr (.inl (entryNodeIds_subset hids (List.mem_of_getElem? hi)))⟩
  · exact ⟨.inr (.inl (exitNodeIds_subset hids (List.mem_of_getElem? hi))), .inr (.inr rfl)⟩

/-- Nothing enters the selection, or each of its nodes is entered from somewhere. -/
def EntriesFound (edges : List WorkflowEdge) (ids : List NodeId) : Prop :=
  (∀ e ∈ edges, e.target ∈ ids → e.source ∈ ids) ∨ ∀ id ∈ ids, ∃ e ∈ edges, e.target = id

theorem incomingEdges_eq_nil_iff : incomingEdges edges ids = [] ↔ ∀ e ∈ edges, e.target ∈ ids → e.source ∈ ids := by
  simp only [List.eq_nil_iff_forall_not_mem, mem_incomingEdges]
  constructor
  · intro h e he htarget
    by_contra hsource
    exact h e ⟨he, hsource, htarget⟩
  · exact fun h e ⟨he, hsource, htarget⟩ => hsource (h e he htarget)

/-- A root inside of a selection that nothing enters is an entry. -/
theorem root_entry (hids : ∀ id ∈ ids, ∃ n ∈ nodes, n.id = id) (hnone : incomingEdges edges ids = [])
    (hid : id ∈ ids) (hroot : ∀ e ∈ edges, e.target ≠ id) : id ∈ entryNodeIds nodes edges ids := by
  rw [entryNodeIds, hnone]
  refine mem_boundaryIds_of_free ((mem_extractedNodes_ids hids).mpr hid) fun hmem => ?_
  obtain ⟨e, he, htarget⟩ := List.mem_map.mp hmem
  exact hroot e (mem_internalEdges.mp he).1 htarget

theorem start_reaches (hids : ∀ id ∈ ids, ∃ n ∈ nodes, n.id = id) (h : EntriesFound edges ids) (hid : id ∈ ids)
    {root : NodeId} (hroot : IsRoot nodes edges root) (hreach : Reaches edges root id) :
    Reaches (childEdges nodes edges ids uuid) (uuid 0) id := by
  rcases reaches_inside hreach hid with hstart | ⟨hinside, hrest⟩
  · exact hstart
  · rcases h with hclosed | hentered
    · have hentry := root_entry hids (incomingEdges_eq_nil_iff.mpr hclosed) hinside hroot.2
      exact .head (leads_entry hentry) hrest
    · obtain ⟨e, he, htarget⟩ := hentered root hinside
      exact absurd htarget (hroot.2 e he)

/-- A root is not led to from Start if something enters the selection elsewhere. -/
theorem root_unreached (hfresh : ∀ i, uuid i ∉ ids)
    (hsome : incomingEdges edges ids ≠ []) (hid : id ∈ ids) (hroot : ∀ e ∈ edges, e.target ≠ id) :
    ¬ Reaches (childEdges nodes edges ids uuid) (uuid 0) id := by
  intro h
  rcases Relation.ReflTransGen.cases_tail h with heq | ⟨c, -, e, he, -, rfl⟩
  · exact hfresh 0 (heq ▸ hid)
  · rw [mem_childEdges] at he
    rcases he with h | ⟨i, target, hi, rfl⟩ | ⟨i, source, hi, rfl⟩
    · exact hroot e (mem_internalEdges.mp h).1 rfl
    · have hentry := (boundaryIds_of_crossing (by simpa using hsome)).mp (List.mem_of_getElem? hi)
      obtain ⟨e', he', htarget⟩ := List.mem_map.mp hentry
      exact hroot e' (mem_incomingEdges.mp he').1 htarget
    · exact hfresh 1 hid

/-- **A child loses no step exactly where its entries are found.** -/
theorem losesNoStep_iff {childName : String} {now : ℕ} {r : ExtractResult}
    (hfresh : ∀ i, ∀ n ∈ nodes, uuid i ≠ n.id)
    (h : extractToSubWorkflow selectedNodeIds nodes edges uuid childName now = some r) :
    LosesNoStep nodes edges r ↔ EntriesFound edges (extractableIds selectedNodeIds nodes) := by
  simp only [extractToSubWorkflow] at h
  split at h
  · cases h
  cases h
  have hids : ∀ id ∈ extractableIds selectedNodeIds nodes, ∃ n ∈ nodes, n.id = id := fun _ => mem_extractableIds
  generalize extractableIds selectedNodeIds nodes = ids at hids
  constructor
  · intro hloses
    rw [EntriesFound, or_iff_not_imp_left, ← incomingEdges_eq_nil_iff]
    intro hsome id hid
    by_contra hnone
    push Not at hnone
    obtain ⟨start, hstart, hreach⟩ := hloses.reachable id hid ⟨id, ⟨hids id hid, hnone⟩, .refl⟩
    cases hstart
    refine root_unreached (fun i hi => ?_) hsome hid hnone hreach
    obtain ⟨n, hn, heq⟩ := hids _ hi
    exact hfresh i n hn heq.symm
  · intro hentries
    refine ⟨fun id hid ⟨root, hroot, hreach⟩ => ⟨_, rfl, start_reaches hids hentries hid hroot hreach⟩,
      fun e he hsource htarget => mem_childEdges.mpr (.inl (mem_internalEdges.mpr ⟨he, hsource, htarget⟩)),
      fun e he => childEdges_closed hids he, fun e he htouch => List.mem_eraseDups.mpr ?_⟩
    simp only [List.mem_append, List.mem_map, mem_internalEdges, mem_incomingEdges, mem_outgoingEdges]
    by_cases hsource : e.source ∈ ids <;> by_cases htarget : e.target ∈ ids
    · exact .inl ⟨e, ⟨he, hsource, htarget⟩, rfl⟩
    · exact .inr (.inr ⟨e, ⟨he, hsource, htarget⟩, rfl⟩)
    · exact .inr (.inl ⟨e, ⟨he, hsource, htarget⟩, rfl⟩)
    · exact absurd htouch (by simp [hsource, htarget])

end Child

/-! ## A parent -/

def plainNode (id type : String) : WorkflowNode := ⟨id, type, 0, 0, .obj []⟩

/-- A start node that leads to the first of two requests; the second one stands alone. -/
def parentNodes : List WorkflowNode := [plainNode "start" "start", plainNode "a" "http", plainNode "b" "http"]

def parentEdges : List WorkflowEdge := [⟨"e", "start", "a", none, none⟩]

def plainUuid (i : ℕ) : String := "uuid-" ++ toString i

theorem plainUuid_fresh (i : ℕ) : ∀ n ∈ parentNodes, plainUuid i ≠ n.id := by
  intro n hn heq
  have hhead : (plainUuid i).toList.head? = some 'u' := by simp [plainUuid]
  rw [heq] at hhead
  simp only [parentNodes, List.mem_cons, List.not_mem_nil, or_false] at hn
  rcases hn with rfl | rfl | rfl <;> revert hhead <;> decide

/-- The second request has no way from the start of the child. -/
theorem loses_lone_step : ∃ r, extractToSubWorkflow ["a", "b"] parentNodes parentEdges plainUuid "child" 0 =
    some r ∧ ¬ LosesNoStep parentNodes parentEdges r := by
  have hids : extractableIds ["a", "b"] parentNodes = ["a", "b"] := by decide
  refine ⟨_, rfl, fun h => ?_⟩
  have hroot : IsRoot parentNodes parentEdges "b" := ⟨⟨plainNode "b" "http", by simp [parentNodes], rfl⟩, by decide⟩
  obtain ⟨start, hstart, hreach⟩ := h.reachable "b" (by rw [hids]; simp) ⟨"b", hroot, .refl⟩
  cases hstart
  have hreach : Reaches (childEdges parentNodes parentEdges ["a", "b"] plainUuid) (plainUuid 0) "b" := by
    rw [← hids]
    exact hreach
  refine root_unreached (fun i hi => ?_) (by decide) (by simp) hroot.2 hreach
  rw [← hids] at hi
  obtain ⟨n, hn, heq⟩ := mem_extractableIds hi
  exact plainUuid_fresh i n hn heq.symm

/-- The first one has. -/
theorem keeps_entered_step : ∃ r, extractToSubWorkflow ["a"] parentNodes parentEdges plainUuid "child" 0 = some r ∧
    LosesNoStep parentNodes parentEdges r := by
  obtain ⟨r, hr⟩ : ∃ r, extractToSubWorkflow ["a"] parentNodes parentEdges plainUuid "child" 0 = some r :=
    ⟨_, rfl⟩
  exact ⟨r, hr, (losesNoStep_iff plainUuid_fresh hr).mpr (.inr (by decide))⟩

end RedFireForge.Workflow.ExtractSub
