/-
# `RedFireForge.Workflow.FolderTree` — the folders of the sidebar

Folders and workflows are flat lists; a parent id makes a tree of the folders.  Where no folder
is above itself the tree has all folders, and no workflow is lost or doubled when the tree is
built or flattened.
-/
import Mathlib.Algebra.Order.Ring.Rat
import Mathlib.Data.List.Perm.Basic
import RedFireForge.Lib.Forest
import RedFireForge.Lib.Grouping
import RedFireForge.Lib.Search
import RedFireForge.Lib.Text

namespace RedFireForge.FolderTree

open RedFireForge.Lib

/-! ## Folders and workflows -/

structure WorkflowFolder where
  id : String
  name : String
  /-- `null` and `undefined` are one: no parent. -/
  parentId : Option String
  /-- Position among siblings within the same parent. -/
  order : ℚ
deriving DecidableEq

structure Workflow where
  id : String
  folderId : Option String
  folderOrder : Option ℚ
deriving DecidableEq

inductive FolderTreeNode where
  | mk (folder : WorkflowFolder) (children : List FolderTreeNode) (workflows : List Workflow)

/-- An id as a condition: the empty one is no parent. -/
def truthy (id : Option String) : Option String := id.filter (· ≠ "")

def sortByOrder (folders : List WorkflowFolder) : List WorkflowFolder :=
  folders.mergeSort fun a b => a.order ≤ b.order

def sortByFolderOrder (workflows : List Workflow) : List Workflow :=
  workflows.mergeSort fun a b => a.folderOrder.getD 0 ≤ b.folderOrder.getD 0

def folderMap (folders : List WorkflowFolder) : InsertionMap String WorkflowFolder :=
  folders.foldl (fun m f => m.set f.id f) ∅

/-! ## The tree -/

section Build

variable (folders : List WorkflowFolder) (workflows : List Workflow)

/-- The folders whose nodes are pushed to the children of `id`. -/
def childFolders (id : String) : List WorkflowFolder :=
  ((sortByOrder folders).filter fun f => truthy f.parentId = some id).filterMap fun f =>
    (folderMap folders).lookup f.id

def rootFolders : List WorkflowFolder :=
  ((sortByOrder folders).filter fun f => (truthy f.parentId).all (· ∉ folderMap folders)).filterMap fun f =>
    (folderMap folders).lookup f.id

def folderWorkflows (id : String) : List Workflow :=
  (sortByFolderOrder workflows).filter fun wf => truthy wf.folderId = some id

/-- The node of a folder down to a depth; no path without a cycle is longer than the list. -/
def buildNode : ℕ → WorkflowFolder → FolderTreeNode
  | 0, f => .mk f [] (folderWorkflows workflows f.id)
  | depth + 1, f =>
      .mk f ((childFolders folders f.id).map (buildNode depth)) (folderWorkflows workflows f.id)

def buildFolderTree : List FolderTreeNode :=
  (rootFolders folders).map (buildNode folders workflows folders.length)

def getUnfiledWorkflows : List Workflow :=
  sortByFolderOrder (workflows.filter fun wf => (truthy wf.folderId).all fun id => ∀ f ∈ folders, f.id ≠ id)

end Build

/-! ## Paths and descendants -/

def pathParts (folders : List WorkflowFolder) : ℕ → Option WorkflowFolder → List String → List String → List String
  | 0, _, _, parts => parts
  | _, none, _, parts => parts
  | fuel + 1, some current, visited, parts =>
      if current.id ∈ visited then parts
      else
        pathParts folders fuel ((truthy current.parentId).bind (folderMap folders).lookup)
          (current.id :: visited) (current.name :: parts)

/-- The breadcrumbs of a folder; each round visits a folder that it has not visited. -/
def getFolderPath (folderId : String) (folders : List WorkflowFolder) : String :=
  " / ".intercalate
    (pathParts folders (folders.length + 1) ((folderMap folders).lookup folderId) [] [])

/-- `childMap.get(id) ?? []` -/
def childIds (folders : List WorkflowFolder) (id : String) : List String :=
  (folders.filter fun f => truthy f.parentId = some id).map (·.id)

def getDescendantFolderIds (folderId : String) (folders : List WorkflowFolder) : List String :=
  search (childIds folders) (folders.length + 1) [folderId] []

def isDescendant (sourceId targetId : String) (folders : List WorkflowFolder) : Bool :=
  sourceId = targetId || targetId ∈ getDescendantFolderIds sourceId folders

/-! ## The groups of the runner -/

structure RunnerFolderGroup where
  path : String
  folderId : Option String
  workflows : List Workflow
deriving DecidableEq

section Traverse

variable {β : Type} (visitNode : String → List Workflow → List β)

mutual

/-- What a visit of each node gives, a node before its children. -/
def traverseNode : FolderTreeNode → List β
  | .mk folder children workflows => visitNode folder.id workflows ++ traverse children

def traverse : List FolderTreeNode → List β
  | [] => []
  | node :: nodes => traverseNode node ++ traverse nodes

end

end Traverse

def treeWorkflows (nodes : List FolderTreeNode) : List Workflow :=
  traverse (fun _ workflows => workflows) nodes

def isFiled (folders : List WorkflowFolder) (wf : Workflow) : Bool :=
  (truthy wf.folderId).any fun id => ∃ f ∈ folders, f.id = id

def folderGroup (folders : List WorkflowFolder) (workflows : List Workflow) (id : String) : List RunnerFolderGroup :=
  match (groupsOf (fun wf => wf.folderId.getD "") (workflows.filter (isFiled folders))).lookup id with
  | some directWorkflows =>
      if directWorkflows = [] then []
      else [⟨getFolderPath id folders, some id, sortByFolderOrder directWorkflows⟩]
  | none => []

def flattenFoldersForRunner (folders : List WorkflowFolder) (workflows : List Workflow) : List RunnerFolderGroup :=
  let groups := traverse (fun id _ => folderGroup folders workflows id) (buildFolderTree folders [])
  let unfiled := workflows.filter (!isFiled folders ·)
  if unfiled = [] then groups else groups ++ [⟨"Workflows", none, sortByFolderOrder unfiled⟩]

/-! ## The parent function -/

/-- The parent that the tree is built by: one that exists. -/
def parentOf (folders : List WorkflowFolder) (id : String) : Option String :=
  ((folderMap folders).lookup id).bind fun f => (truthy f.parentId).filter (· ∈ folderMap folders)

section

variable {folders : List WorkflowFolder} {workflows : List Workflow} {id id' : String} {f : WorkflowFolder}

theorem truthy_eq_some {p : Option String} : truthy p = some id ↔ p = some id ∧ id ≠ "" := by
  rw [truthy, Option.filter_eq_some_iff, decide_eq_true_iff]

theorem lookup_folderMap (hnd : (folders.map (·.id)).Nodup) :
    (folderMap folders).lookup id = some f ↔ f ∈ folders ∧ f.id = id := by
  rw [folderMap, @InsertionMap.lookup_foldl_set _ _ _ ∅ id _ (·.id) (fun f : WorkflowFolder => f), Option.map_id', AList.lookup_empty,
    Option.or_none]
  constructor
  · intro h
    exact ⟨List.mem_reverse.mp (List.mem_of_find?_eq_some h), of_decide_eq_true (List.find?_some h :)⟩
  · rintro ⟨hf, rfl⟩
    refine find?_key ?_ (List.mem_reverse.mpr hf)
    rw [List.map_reverse]
    exact List.nodup_reverse.mpr hnd

theorem mem_folderMap (hnd : (folders.map (·.id)).Nodup) : id ∈ folderMap folders ↔ ∃ f ∈ folders, f.id = id := by
  rw [← AList.lookup_isSome, Option.isSome_iff_exists]
  exact exists_congr fun f => lookup_folderMap hnd

theorem parentOf_eq_some (hnd : (folders.map (·.id)).Nodup) : parentOf folders id = some id' ↔
    (∃ f ∈ folders, f.id = id ∧ truthy f.parentId = some id') ∧ ∃ f ∈ folders, f.id = id' := by
  rw [parentOf, Option.bind_eq_some_iff]
  simp only [lookup_folderMap hnd, Option.filter_eq_some_iff, decide_eq_true_iff, mem_folderMap hnd]
  constructor
  · rintro ⟨f, ⟨hf, hid⟩, hp, hex⟩
    exact ⟨⟨f, hf, hid, hp⟩, hex⟩
  · rintro ⟨⟨f, hf, hid, hp⟩, hex⟩
    exact ⟨f, ⟨hf, hid⟩, hp, hex⟩

theorem mem_sortByOrder : f ∈ sortByOrder folders ↔ f ∈ folders :=
  (List.mergeSort_perm _ _).mem_iff

theorem nodup_sortByOrder (hnd : (folders.map (·.id)).Nodup) : ((sortByOrder folders).map (·.id)).Nodup :=
  (((List.mergeSort_perm folders _).map _).nodup_iff).mpr hnd

/-- With distinct ids the map gives back the folder that is asked for. -/
theorem filterMap_folderMap (hnd : (folders.map (·.id)).Nodup) {fs : List WorkflowFolder}
    (hfs : ∀ f ∈ fs, f ∈ folders) : fs.filterMap (fun f => (folderMap folders).lookup f.id) = fs := by
  rw [List.filterMap_congr fun f hf => (lookup_folderMap hnd).mpr ⟨hfs f hf, rfl⟩, List.filterMap_some]

theorem childFolders_eq (hnd : (folders.map (·.id)).Nodup) : childFolders folders id =
    (sortByOrder folders).filter fun f => truthy f.parentId = some id :=
  filterMap_folderMap hnd fun _ hf => mem_sortByOrder.mp (List.mem_filter.mp hf).1

theorem rootFolders_eq (hnd : (folders.map (·.id)).Nodup) : rootFolders folders =
    (sortByOrder folders).filter fun f => (truthy f.parentId).all (· ∉ folderMap folders) :=
  filterMap_folderMap hnd fun _ hf => mem_sortByOrder.mp (List.mem_filter.mp hf).1

/-! ## The tree has every folder once -/

/-- The ids of the children of a node; there is none without a folder. -/
def nodeChildren (folders : List WorkflowFolder) (id : String) : List String :=
  if id ∈ folderMap folders then (childFolders folders id).map (·.id) else []

theorem mem_nodeChildren (hnd : (folders.map (·.id)).Nodup) :
    id' ∈ nodeChildren folders id ↔ parentOf folders id' = some id := by
  rw [parentOf_eq_some hnd, ← mem_folderMap hnd, nodeChildren, childFolders_eq hnd]
  split
  next hid =>
    simp only [List.mem_map, List.mem_filter, mem_sortByOrder, decide_eq_true_iff]
    constructor
    · rintro ⟨f, ⟨hf, hp⟩, rfl⟩
      exact ⟨⟨f, hf, rfl, hp⟩, hid⟩
    · rintro ⟨⟨f, hf, hid', hp⟩, -⟩
      exact ⟨f, ⟨hf, hp⟩, hid'⟩
  next hid => exact ⟨nofun, fun h => absurd h.2 hid⟩

theorem nodup_nodeChildren (hnd : (folders.map (·.id)).Nodup) : (nodeChildren folders id).Nodup := by
  rw [nodeChildren, childFolders_eq hnd]
  split
  next => exact (nodup_sortByOrder hnd).sublist (List.filter_sublist.map _)
  next => exact List.nodup_nil

theorem mem_rootIds (hnd : (folders.map (·.id)).Nodup) : id ∈ (rootFolders folders).map (·.id) ↔
    id ∈ folders.map (·.id) ∧ parentOf folders id = none := by
  have hnone : ∀ f ∈ folders, parentOf folders f.id = none ↔ (truthy f.parentId).all (· ∉ folderMap folders) := by
    intro f hf
    rw [parentOf, (lookup_folderMap hnd).mpr ⟨hf, rfl⟩, Option.bind_some, Option.filter_eq_none_iff]
    cases truthy f.parentId <;> simp
  rw [rootFolders_eq hnd]
  simp only [List.mem_map, List.mem_filter, mem_sortByOrder]
  constructor
  · rintro ⟨f, ⟨hf, hall⟩, rfl⟩
    exact ⟨⟨f, hf, rfl⟩, (hnone f hf).mpr hall⟩
  · rintro ⟨⟨f, hf, rfl⟩, hroot⟩
    exact ⟨f, ⟨hf, (hnone f hf).mp hroot⟩, rfl⟩

theorem nodup_rootIds (hnd : (folders.map (·.id)).Nodup) : ((rootFolders folders).map (·.id)).Nodup := by
  rw [rootFolders_eq hnd]
  exact (nodup_sortByOrder hnd).sublist (List.filter_sublist.map _)

/-- The ids of the nodes, in the order of the tree. -/
def treeIds (folders : List WorkflowFolder) : List String :=
  ((rootFolders folders).map (·.id)).flatMap (preorder (nodeChildren folders) folders.length)

theorem treeIds_perm (hnd : (folders.map (·.id)).Nodup) (hac : Acyclic (parentOf folders)) :
    (treeIds folders).Perm (folders.map (·.id)) := by
  refine flatMap_preorder_perm (fun a b => mem_nodeChildren hnd) (fun a => nodup_nodeChildren hnd) hac ?_ hnd
    (fun r => mem_rootIds hnd) (nodup_rootIds hnd) (List.length_map _).le
  intro a b h
  obtain ⟨⟨f, hf, hfid, -⟩, g, hg, hgid⟩ := (parentOf_eq_some hnd).mp h
  exact ⟨List.mem_map.mpr ⟨f, hf, hfid⟩, List.mem_map.mpr ⟨g, hg, hgid⟩⟩

variable {β : Type} {visitNode : String → List Workflow → List β} {depth : ℕ}

theorem traverse_eq_flatMap {nodes : List FolderTreeNode} :
    traverse visitNode nodes = nodes.flatMap (traverseNode visitNode) := by
  induction nodes with
  | nil => rw [traverse, List.flatMap_nil]
  | cons n ns ih => rw [traverse, ih, List.flatMap_cons]

theorem traverseNode_buildNode (hnd : (folders.map (·.id)).Nodup) (hf : f.id ∈ folderMap folders) :
    traverseNode visitNode (buildNode folders workflows depth f) =
      (preorder (nodeChildren folders) depth f.id).flatMap fun id =>
        visitNode id (folderWorkflows workflows id) := by
  induction depth generalizing f with
  | zero =>
      rw [buildNode, traverseNode, traverse, List.append_nil, preorder, List.flatMap_singleton]
  | succ depth ih =>
      rw [buildNode, traverseNode, traverse_eq_flatMap, preorder, List.flatMap_cons, List.flatMap_map,
        nodeChildren, if_pos hf, List.flatMap_map, List.flatMap_assoc]
      congr 1
      refine List.flatMap_congr fun g hg => ih ?_
      rw [childFolders_eq hnd, List.mem_filter, mem_sortByOrder] at hg
      exact (mem_folderMap hnd).mpr ⟨g, hg.1, rfl⟩

/-- A walk through the tree visits what `treeIds` lists. -/
theorem traverse_buildFolderTree (hnd : (folders.map (·.id)).Nodup) : traverse visitNode (buildFolderTree folders workflows) =
    (treeIds folders).flatMap fun id => visitNode id (folderWorkflows workflows id) := by
  rw [buildFolderTree, traverse_eq_flatMap, List.flatMap_map, treeIds, List.flatMap_map, List.flatMap_assoc]
  refine List.flatMap_congr fun g hg => traverseNode_buildNode hnd ?_
  rw [rootFolders_eq hnd, List.mem_filter, mem_sortByOrder] at hg
  exact (mem_folderMap hnd).mpr ⟨g, hg.1, rfl⟩

/-! ## No workflow is lost or doubled -/

theorem isFiled_iff {wf : Workflow} : isFiled folders wf ↔ ∃ id ∈ folders.map (·.id), truthy wf.folderId = some id := by
  rw [isFiled, Option.any_eq_true]
  simp only [decide_eq_true_iff, List.mem_map]
  constructor
  · rintro ⟨id, hp, hf⟩
    exact ⟨id, hf, hp⟩
  · rintro ⟨id, hf, hp⟩
    exact ⟨id, hp, hf⟩

theorem filed_perm (hnd : (folders.map (·.id)).Nodup) (hac : Acyclic (parentOf folders)) :
    ((treeIds folders).flatMap fun id => workflows.filter fun wf => truthy wf.folderId = some id).Perm
      (workflows.filter (isFiled folders)) := by
  have hperm := treeIds_perm hnd hac
  refine (flatMap_filter_perm (hperm.nodup_iff.mpr hnd) workflows).trans (.of_eq ?_)
  refine List.filter_congr fun wf _ => Bool.eq_iff_iff.mpr ?_
  rw [isFiled_iff, Option.any_eq_true]
  simp only [decide_eq_true_iff, hperm.mem_iff, and_comm]

theorem getUnfiledWorkflows_perm :
    (getUnfiledWorkflows folders workflows).Perm (workflows.filter (!isFiled folders ·)) := by
  refine (List.mergeSort_perm _ _).trans (.of_eq (List.filter_congr fun wf _ => ?_))
  rw [isFiled]
  cases truthy wf.folderId with
  | none => rfl
  | some id =>
      rw [Option.all_some, Option.any_some, ← decide_not]
      simp only [not_exists, not_and, ne_eq]

/-- Each workflow is in the tree or unfiled, once. -/
theorem tree_unfiled_perm (hnd : (folders.map (·.id)).Nodup) (hac : Acyclic (parentOf folders)) :
    (treeWorkflows (buildFolderTree folders workflows) ++ getUnfiledWorkflows folders workflows).Perm workflows := by
  have htree : (treeWorkflows (buildFolderTree folders workflows)).Perm (workflows.filter (isFiled folders)) := by
    rw [treeWorkflows, traverse_buildFolderTree hnd]
    exact (filed_perm hnd hac).trans ((List.mergeSort_perm _ _).filter _)
  exact (htree.append getUnfiledWorkflows_perm).trans (List.filter_append_perm _ _)

theorem folderGroup_perm : ((folderGroup folders workflows id).flatMap (·.workflows)).Perm
    ((workflows.filter (isFiled folders)).filter fun wf => truthy wf.folderId = some id) := by
  have hkey : (workflows.filter (isFiled folders)).filter (fun wf => wf.folderId.getD "" = id) =
      (workflows.filter (isFiled folders)).filter fun wf => truthy wf.folderId = some id := by
    refine List.filter_congr fun wf hwf => decide_eq_decide.mpr ?_
    obtain ⟨id', -, hid'⟩ := isFiled_iff.mp (List.mem_filter.mp hwf).2
    obtain ⟨hfolder, hne⟩ := truthy_eq_some.mp hid'
    rw [hid', hfolder, Option.getD_some, Option.some.injEq]
  rw [folderGroup, lookup_groupsOf, hkey]
  split
  next ws h =>
    split at h
    next => cases h
    next hne =>
      obtain rfl := Option.some.inj h
      rw [if_neg hne, List.flatMap_singleton]
      exact List.mergeSort_perm _ _
  next h =>
    split at h
    next hnil => rw [hnil, List.flatMap_nil]
    next => cases h

/-- The groups have each workflow once. -/
theorem flatten_perm (hnd : (folders.map (·.id)).Nodup) (hac : Acyclic (parentOf folders)) :
    ((flattenFoldersForRunner folders workflows).flatMap (·.workflows)).Perm workflows := by
  have hgroups : ((traverse (fun id _ => folderGroup folders workflows id) (buildFolderTree folders [])).flatMap
      (·.workflows)).Perm (workflows.filter (isFiled folders)) := by
    rw [traverse_buildFolderTree hnd, List.flatMap_assoc]
    refine (List.Perm.flatMap_left _ fun id _ => folderGroup_perm).trans ?_
    refine (filed_perm hnd hac).trans (.of_eq ?_)
    rw [List.filter_filter]
    simp only [Bool.and_self]
  rw [flattenFoldersForRunner]
  split
  next hnil =>
    refine hgroups.trans (.of_eq ?_)
    rw [List.filter_eq_self]
    intro wf hwf
    simpa using List.filter_eq_nil_iff.mp hnil wf hwf
  next =>
    rw [List.flatMap_append, List.flatMap_singleton]
    exact (hgroups.append (List.mergeSort_perm _ _)).trans (List.filter_append_perm _ _)

/-! ## Descendants -/

theorem mem_childIds {a b : String} : b ∈ childIds folders a ↔ ∃ f ∈ folders, f.id = b ∧ truthy f.parentId = some a := by
  simp only [childIds, List.mem_map, List.mem_filter, decide_eq_true_iff]
  constructor
  · rintro ⟨f, ⟨hf, hp⟩, rfl⟩
    exact ⟨f, hf, rfl, hp⟩
  · rintro ⟨f, hf, rfl, hp⟩
    exact ⟨f, ⟨hf, hp⟩, rfl⟩

theorem mem_ids_of_mem_childIds {a b : String} (h : b ∈ childIds folders a) : b ∈ folders.map (·.id) := by
  obtain ⟨f, hf, hfid, -⟩ := mem_childIds.mp h
  exact List.mem_map.mpr ⟨f, hf, hfid⟩

theorem reached_childIds {t : String} (hnd : (folders.map (·.id)).Nodup) (hid : id ∈ folders.map (·.id)) :
    Reached (childIds folders) id t ↔ ∃ n, up (parentOf folders) (n + 1) t = some id := by
  have hstep : ∀ a b, a ∈ folders.map (·.id) → b ∈ childIds folders a → parentOf folders b = some a := by
    intro a b ha hb
    obtain ⟨f, hf, hfid⟩ := List.mem_map.mp ha
    exact (parentOf_eq_some hnd).mpr ⟨mem_childIds.mp hb, f, hf, hfid⟩
  constructor
  · intro h
    suffices hboth : t ∈ folders.map (·.id) ∧ ∃ n, up (parentOf folders) (n + 1) t = some id from hboth.2
    induction h with
    | single hb => exact ⟨mem_ids_of_mem_childIds hb, 0, up_one.trans (hstep _ _ hid hb)⟩
    | tail _ hc ih =>
        obtain ⟨hb, n, hn⟩ := ih
        exact ⟨mem_ids_of_mem_childIds hc, n + 1, up_succ_eq_some.mpr ⟨_, hstep _ _ hb hc, hn⟩⟩
  · rintro ⟨n, hn⟩
    induction n generalizing t with
    | zero => exact .single (mem_childIds.mpr ((parentOf_eq_some hnd).mp (up_one.symm.trans hn)).1)
    | succ n ih =>
        obtain ⟨c, hc, hup⟩ := up_succ_eq_some.mp hn
        exact (ih hup).tail (mem_childIds.mpr ((parentOf_eq_some hnd).mp hc).1)

/-- The guard of a drop sees the folder itself and all that is below it. -/
theorem isDescendant_iff {t : String} (hnd : (folders.map (·.id)).Nodup) (hid : id ∈ folders.map (·.id)) :
    isDescendant id t folders ↔ ∃ n, up (parentOf folders) n t = some id := by
  have hsearch : t ∈ getDescendantFolderIds id folders ↔ ∃ n, up (parentOf folders) (n + 1) t = some id := by
    rw [getDescendantFolderIds, ← List.length_map (f := (·.id)), mem_search fun a b => mem_ids_of_mem_childIds]
    exact reached_childIds hnd hid
  rw [isDescendant, Bool.or_eq_true, decide_eq_true_iff, decide_eq_true_iff, hsearch]
  constructor
  · rintro (rfl | ⟨n, hn⟩)
    · exact ⟨0, rfl⟩
    · exact ⟨n + 1, hn⟩
  · rintro ⟨n, hn⟩
    cases n with
    | zero => exact .inl (Option.some.inj hn).symm
    | succ n => exact .inr ⟨n, hn⟩

end

end RedFireForge.FolderTree
