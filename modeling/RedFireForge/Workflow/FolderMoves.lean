/-
# `RedFireForge.Workflow.FolderMoves` — drag and drop in the sidebar

A move sets the parent of one item and numbers the items under that parent anew.  Runs of moves
make no cycle of folders.
-/
import Mathlib.Algebra.Order.Floor.Semiring
import Mathlib.Data.List.Forall2
import Mathlib.Data.List.InsertIdx
import Mathlib.Data.List.Sort
import Mathlib.Data.Rat.Floor
import RedFireForge.Workflow.FolderTree

namespace RedFireForge.FolderTree

open RedFireForge.Lib

/-! ## Moves -/

/-- A number as a position in a list. -/
inductive TargetIndex where
  | nan
  | negInfinity
  | finite (q : ℚ)
  | infinity
deriving DecidableEq

/-- `Math.max(0, Math.min(targetIndex, n))` as `splice` takes it: cut to a whole number, `NaN` to zero. -/
def TargetIndex.clamped : TargetIndex → ℕ → ℕ
  | .nan, _ => 0
  | .negInfinity, _ => 0
  | .finite q, n => ⌊max 0 (min q n)⌋₊
  | .infinity, n => n

/-- Items that have a place: a position under a parent. -/
structure Placement (α : Type) where
  id : α → String
  parent : α → Option String
  order : α → ℚ
  setParent : Option String → α → α
  setOrder : ℚ → α → α
  id_setParent : ∀ p a, id (setParent p a) = id a
  parent_setParent : ∀ p a, parent (setParent p a) = p
  order_setParent : ∀ p a, order (setParent p a) = order a
  id_setOrder : ∀ q a, id (setOrder q a) = id a
  parent_setOrder : ∀ q a, parent (setOrder q a) = parent a
  order_setOrder : ∀ q a, order (setOrder q a) = q

def folderPlacement : Placement WorkflowFolder where
  id := (·.id)
  parent := (·.parentId)
  order := (·.order)
  setParent p f := { f with parentId := p }
  setOrder q f := { f with order := q }
  id_setParent _ _ := rfl
  parent_setParent _ _ := rfl
  order_setParent _ _ := rfl
  id_setOrder _ _ := rfl
  parent_setOrder _ _ := rfl
  order_setOrder _ _ := rfl

def workflowPlacement : Placement Workflow where
  id := (·.id)
  parent := (·.folderId)
  order w := w.folderOrder.getD 0
  setParent p w := { w with folderId := p }
  setOrder q w := { w with folderOrder := some q }
  id_setParent _ _ := rfl
  parent_setParent _ _ := rfl
  order_setParent _ _ := rfl
  id_setOrder _ _ := rfl
  parent_setOrder _ _ := rfl
  order_setOrder _ _ := rfl

namespace Placement

variable {α : Type} (P : Placement α)

def sorted (items : List α) : List α := items.mergeSort fun a b => P.order a ≤ P.order b

/-- The siblings that an item is put among. -/
def siblings (items : List α) (movedId : String) (parentId : Option String) : List α :=
  P.sorted (items.filter fun a => P.parent a = parentId ∧ P.id a ≠ movedId)

def orderMap (siblings : List α) : InsertionMap String ℕ :=
  siblings.zipIdx.foldl (fun m p => m.set (P.id p.1) p.2) ∅

/-- Insert an item at a position among its siblings and number them anew.  The callers have
found the item. -/
def insertAtPosition (items : List α) (movedId : String) (parentId : Option String) (targetIndex : TargetIndex) :
    List α :=
  match items.find? (P.id · = movedId) with
  | none => items
  | some moved =>
      let siblings := P.siblings items movedId parentId
      let order := P.orderMap (siblings.insertIdx (targetIndex.clamped siblings.length) moved)
      items.map fun a => match order.lookup (P.id a) with
        | some newOrder => P.setOrder newOrder a
        | none => a

/-- The item goes under its new parent, and its siblings make room. -/
def moveTo (items : List α) (movedId : String) (newParentId : Option String) (newOrder : TargetIndex) : List α :=
  P.insertAtPosition (items.map fun a => if P.id a = movedId then P.setParent newParentId a else a)
    movedId newParentId newOrder

/-! ### What a move does -/

/-- The item has the new parent and its place among the siblings; they have the numbers from
zero on and are in their order as it was, and all else is as it was. -/
structure Moved (before after : List α) (movedId : String) (newParentId : Option String)
    (newOrder : TargetIndex) : Prop where
  pointwise : List.Forall₂ (fun b a => P.id a = P.id b ∧
    P.parent a = (if P.id b = movedId then newParentId else P.parent b) ∧
    (P.parent a ≠ newParentId → P.order a = P.order b)) before after
  siblings : (P.sorted (after.filter (P.parent · = newParentId))).map (fun a => (P.id a, P.order a)) =
    (((P.siblings before movedId newParentId).map P.id).insertIdx
      (newOrder.clamped (P.siblings before movedId newParentId).length) movedId).zipIdx.map
        fun p => (p.1, (p.2 : ℚ))

variable {P} {items sibs : List α} {moved x : α} {movedId k : String} {p : Option String} {t : TargetIndex}

theorem sorted_perm : (P.sorted items).Perm items := List.mergeSort_perm _ _

theorem pairwise_sorted : (P.sorted items).Pairwise fun a b => P.order a ≤ P.order b := by
  have h := @List.pairwise_mergeSort α (fun a b => decide (P.order a ≤ P.order b))
    (fun a b c hab hbc => decide_eq_true ((of_decide_eq_true hab).trans (of_decide_eq_true hbc)))
    (fun a b => by simpa using le_total (P.order a) (P.order b)) items
  exact h.imp of_decide_eq_true

/-- Items in the order of distinct numbers are sorted. -/
theorem sorted_eq (hperm : items.Perm sibs) (hlt : sibs.Pairwise fun a b => P.order a < P.order b) :
    P.sorted items = sibs := by
  refine List.Perm.eq_of_pairwise ?_ pairwise_sorted (hlt.imp le_of_lt) (sorted_perm.trans hperm)
  intro a b ha hb hab hba
  have hnodup : (sibs.map P.order).Nodup := List.pairwise_map.mpr (hlt.imp ne_of_lt)
  exact List.inj_on_of_nodup_map hnodup ((sorted_perm.trans hperm).mem_iff.mp ha) hb (le_antisymm hab hba)

/-! ### The map of the new numbers -/

theorem map_zipIdx_fst {β : Type} (f : α → β) : sibs.zipIdx.map (fun q => f q.1) = sibs.map f :=
  (List.map_map (g := f) (f := Prod.fst) (l := sibs.zipIdx)).symm.trans
    (congrArg (List.map f) (List.zipIdx_map_fst 0 sibs))

theorem lookup_orderMap {i : ℕ} (hnd : (sibs.map P.id).Nodup) (hx : (x, i) ∈ sibs.zipIdx) :
    (P.orderMap sibs).lookup (P.id x) = some i := by
  rw [orderMap, @InsertionMap.lookup_foldl_set _ _ _ ∅ (P.id x) (α × ℕ) (fun q => P.id q.1) (fun q => q.2),
    AList.lookup_empty, Option.or_none]
  have hnd' : (sibs.zipIdx.reverse.map fun q => P.id q.1).Nodup := by
    rw [List.map_reverse, map_zipIdx_fst P.id]
    exact List.nodup_reverse.mpr hnd
  rw [find?_key hnd' (List.mem_reverse.mpr hx), Option.map_some]

theorem lookup_orderMap_eq_none (hk : ∀ a ∈ sibs, P.id a ≠ k) : (P.orderMap sibs).lookup k = none := by
  rw [orderMap, @InsertionMap.lookup_foldl_set _ _ _ ∅ k (α × ℕ) (fun q => P.id q.1) (fun q => q.2),
    AList.lookup_empty, Option.or_none, Option.map_eq_none_iff, List.find?_eq_none]
  intro q hq
  rw [decide_eq_true_iff]
  exact hk q.1 (List.fst_mem_of_mem_zipIdx (List.mem_reverse.mp hq))

/-- One item with its new number, if it has got one. -/
def renumbered (P : Placement α) (sibs : List α) (a : α) : α :=
  match (P.orderMap sibs).lookup (P.id a) with
  | some newOrder => P.setOrder newOrder a
  | none => a

@[simp] theorem id_renumbered : P.id (P.renumbered sibs x) = P.id x := by
  rw [renumbered]
  split
  next => exact P.id_setOrder _ _
  next => rfl

@[simp] theorem parent_renumbered : P.parent (P.renumbered sibs x) = P.parent x := by
  rw [renumbered]
  split
  next => exact P.parent_setOrder _ _
  next => rfl

theorem renumbered_eq_self (hx : ∀ a ∈ sibs, P.id a ≠ P.id x) : P.renumbered sibs x = x := by
  rw [renumbered, lookup_orderMap_eq_none hx]

theorem map_renumbered (hnd : (sibs.map P.id).Nodup) :
    sibs.map (P.renumbered sibs) = sibs.zipIdx.map fun q => P.setOrder q.2 q.1 := by
  rw [← map_zipIdx_fst]
  refine List.map_congr_left fun q hq => ?_
  rw [renumbered, lookup_orderMap hnd hq]

/-- Under the numbers of their places the siblings are sorted. -/
theorem sorted_renumbered (hnd : (sibs.map P.id).Nodup) (hperm : items.Perm sibs) :
    (P.sorted (items.map (P.renumbered sibs))).map (fun a => (P.id a, P.order a)) =
      (sibs.map P.id).zipIdx.map fun q => (q.1, (q.2 : ℚ)) := by
  have hmap := hperm.map (P.renumbered sibs)
  rw [map_renumbered hnd] at hmap
  rw [sorted_eq hmap, List.map_map, List.zipIdx_map, List.map_map]
  · refine List.map_congr_left fun q _ => ?_
    exact Prod.ext (P.id_setOrder _ _) (P.order_setOrder _ _)
  · have hlt : sibs.zipIdx.Pairwise fun q q' => q.2 < q'.2 := by
      rw [← List.pairwise_map (f := Prod.snd) (R := (· < ·)), List.zipIdx_map_snd]
      exact List.pairwise_lt_range'
    refine List.pairwise_map.mpr (hlt.imp fun h => ?_)
    rw [P.order_setOrder, P.order_setOrder]
    exact Nat.cast_lt.mpr h

/-! ### One move -/

/-- The item with its new parent. -/
def reparented (P : Placement α) (movedId : String) (p : Option String) (a : α) : α :=
  if P.id a = movedId then P.setParent p a else a

@[simp] theorem id_reparented : P.id (P.reparented movedId p x) = P.id x := by
  rw [reparented]
  split
  next => exact P.id_setParent _ _
  next => rfl

@[simp] theorem order_reparented : P.order (P.reparented movedId p x) = P.order x := by
  rw [reparented]
  split
  next => exact P.order_setParent _ _
  next => rfl

theorem parent_reparented : P.parent (P.reparented movedId p x) = if P.id x = movedId then p else P.parent x := by
  rw [reparented]
  split
  next => exact P.parent_setParent _ _
  next => rfl

theorem reparented_of_ne (hx : P.id x ≠ movedId) : P.reparented movedId p x = x := if_neg hx

theorem map_id_reparented : (items.map (P.reparented movedId p)).map P.id = items.map P.id := by
  rw [List.map_map]
  exact List.map_congr_left fun _ _ => id_reparented

/-- The others are siblings as they were. -/
theorem siblings_reparented : P.siblings (items.map (P.reparented movedId p)) movedId p =
    P.siblings items movedId p := by
  rw [siblings, siblings, List.filter_map]
  refine congrArg P.sorted ?_
  have hfilter : items.filter ((fun a => decide (P.parent a = p ∧ P.id a ≠ movedId)) ∘ P.reparented movedId p) =
      items.filter fun a => P.parent a = p ∧ P.id a ≠ movedId := by
    refine List.filter_congr fun a _ => decide_eq_decide.mpr ?_
    by_cases ha : P.id a = movedId
    · simp [ha]
    · rw [reparented_of_ne ha]
  rw [hfilter]
  refine (List.map_congr_left fun a ha => ?_).trans (List.map_id _)
  exact reparented_of_ne (of_decide_eq_true (List.mem_filter.mp ha).2).2

theorem mem_siblings : x ∈ P.siblings items movedId p ↔ x ∈ items ∧ P.parent x = p ∧ P.id x ≠ movedId := by
  rw [siblings, sorted_perm.mem_iff, List.mem_filter, decide_eq_true_iff]

theorem clamped_le {n : ℕ} : t.clamped n ≤ n := by
  cases t with
  | nan => exact Nat.zero_le n
  | negInfinity => exact Nat.zero_le n
  | infinity => exact le_rfl
  | finite q =>
      have hle : max 0 (min q n) ≤ (n : ℚ) := max_le n.cast_nonneg (min_le_right q n)
      exact (Nat.floor_le_floor hle).trans (Nat.floor_natCast n).le

/-- The siblings as they are numbered. -/
def placed (P : Placement α) (items : List α) (movedId : String) (p : Option String) (t : TargetIndex)
    (moved : α) : List α :=
  (P.siblings items movedId p).insertIdx (t.clamped (P.siblings items movedId p).length) moved

theorem placed_perm (hnd : (items.map P.id).Nodup) (hmem : moved ∈ items) (hid : P.id moved = movedId)
    (hparent : P.parent moved = p) :
    (items.filter (P.parent · = p)).Perm (P.placed items movedId p t moved) := by
  have hmoved : moved ∉ P.siblings items movedId p := fun h => (mem_siblings.mp h).2.2 hid
  have hinsert : (P.placed items movedId p t moved).Perm (moved :: P.siblings items movedId p) :=
    List.perm_insertIdx _ _ clamped_le
  have hnodup : (moved :: P.siblings items movedId p).Nodup :=
    List.nodup_cons.mpr ⟨hmoved, sorted_perm.nodup_iff.mpr (hnd.of_map.filter _)⟩
  refine .trans ?_ hinsert.symm
  refine (List.perm_ext_iff_of_nodup (hnd.of_map.filter _) hnodup).mpr fun a => ?_
  rw [List.mem_filter, List.mem_cons, mem_siblings, decide_eq_true_iff]
  constructor
  · rintro ⟨ha, hp⟩
    by_cases haid : P.id a = movedId
    · exact .inl (List.inj_on_of_nodup_map hnd ha hmem (haid.trans hid.symm))
    · exact .inr ⟨ha, hp, haid⟩
  · rintro (rfl | ⟨ha, hp, -⟩)
    · exact ⟨hmem, hparent⟩
    · exact ⟨ha, hp⟩

theorem moveTo_eq (hnd : (items.map P.id).Nodup) (hmem : moved ∈ items) (hid : P.id moved = movedId) :
    P.moveTo items movedId p t = (items.map (P.reparented movedId p)).map
      (P.renumbered (P.placed (items.map (P.reparented movedId p)) movedId p t (P.reparented movedId p moved))) := by
  have hnd' : ((items.map (P.reparented movedId p)).map P.id).Nodup := by rwa [map_id_reparented]
  have hfind : (items.map (P.reparented movedId p)).find? (P.id · = movedId) = some (P.reparented movedId p moved) := by
    have h := find?_key hnd' (List.mem_map_of_mem hmem)
    rwa [id_reparented, hid] at h
  change P.insertAtPosition (items.map (P.reparented movedId p)) movedId p t = _
  rw [insertAtPosition, hfind]
  rfl

theorem moveTo_moved (hnd : (items.map P.id).Nodup) (hmem : moved ∈ items) (hid : P.id moved = movedId) :
    P.Moved items (P.moveTo items movedId p t) movedId p t := by
  rw [moveTo_eq hnd hmem hid]
  have hnd' : ((items.map (P.reparented movedId p)).map P.id).Nodup := by rwa [map_id_reparented]
  have hparent : P.parent (P.reparented movedId p moved) = p := by rw [parent_reparented, if_pos hid]
  have hperm := @placed_perm _ P _ _ movedId p t hnd' (List.mem_map_of_mem hmem) (id_reparented.trans hid) hparent
  have hsibs := (hperm.map P.id).nodup_iff.mp (hnd'.sublist (List.filter_sublist.map _))
  refine ⟨?_, ?_⟩
  · rw [List.map_map, List.forall₂_map_right_iff, List.forall₂_same]
    intro b hb
    rw [Function.comp_apply, id_renumbered, id_reparented, parent_renumbered]
    refine ⟨rfl, parent_reparented, fun hp => ?_⟩
    rw [renumbered_eq_self, order_reparented]
    intro a ha hid'
    obtain ⟨ha, hap⟩ := List.mem_filter.mp (hperm.mem_iff.mpr ha)
    rw [List.inj_on_of_nodup_map hnd' ha (List.mem_map_of_mem hb) hid'] at hap
    exact hp (of_decide_eq_true hap)
  · rw [List.filter_map]
    simp only [Function.comp_def, parent_renumbered]
    rw [sorted_renumbered hsibs hperm, placed, siblings_reparented, List.map_insertIdx, id_reparented, hid]

end Placement

def moveFolder (folderId : String) (newParentId : Option String) (newOrder : TargetIndex)
    (folders : List WorkflowFolder) : List WorkflowFolder :=
  match folders.find? (·.id = folderId) with
  | none => folders
  | some _ =>
      if (truthy newParentId).any (isDescendant folderId · folders) then folders
      else folderPlacement.moveTo folders folderId newParentId newOrder

def moveWorkflow (workflowId : String) (newFolderId : Option String) (newOrder : TargetIndex)
    (workflows : List Workflow) : List Workflow :=
  match workflows.find? (·.id = workflowId) with
  | none => workflows
  | some _ => workflowPlacement.moveTo workflows workflowId newFolderId newOrder

structure Sidebar where
  folders : List WorkflowFolder
  workflows : List Workflow

inductive Move where
  | folder (folderId : String) (newParentId : Option String) (newOrder : TargetIndex)
  | workflow (workflowId : String) (newFolderId : Option String) (newOrder : TargetIndex)

def Sidebar.step (s : Sidebar) : Move → Sidebar
  | .folder folderId newParentId newOrder =>
      { s with folders := moveFolder folderId newParentId newOrder s.folders }
  | .workflow workflowId newFolderId newOrder =>
      { s with workflows := moveWorkflow workflowId newFolderId newOrder s.workflows }

def Sidebar.run (s : Sidebar) (moves : List Move) : Sidebar := moves.foldl Sidebar.step s

/-! ## What a call does -/

/-- A folder is found, and its new parent is neither itself nor below it. -/
def MayMove (folders : List WorkflowFolder) (folderId : String) (newParentId : Option String) : Prop :=
  (∃ f ∈ folders, f.id = folderId) ∧ ∀ id, truthy newParentId = some id → ∀ n, up (parentOf folders) n id ≠ some folderId

section

variable {folders after : List WorkflowFolder} {workflows : List Workflow} {id : String} {p : Option String}
  {t : TargetIndex}

theorem moveFolder_moved (hnd : (folders.map (·.id)).Nodup) (h : MayMove folders id p) :
    folderPlacement.Moved folders (moveFolder id p t folders) id p t := by
  obtain ⟨⟨f, hf, rfl⟩, hfree⟩ := h
  have hguard : (truthy p).any (isDescendant f.id · folders) = false := by
    rw [Option.any_eq_false]
    intro y hy
    rw [← Bool.not_eq_true, isDescendant_iff hnd (List.mem_map_of_mem hf), not_exists]
    exact hfree y hy
  rw [moveFolder, find?_key hnd hf]
  simp only [hguard]
  exact Placement.moveTo_moved hnd hf rfl

theorem moveFolder_refused (hnd : (folders.map (·.id)).Nodup) (h : ¬ MayMove folders id p) :
    moveFolder id p t folders = folders := by
  rw [moveFolder]
  split
  next => rfl
  next f hfind =>
    have hf : f ∈ folders := List.mem_of_find?_eq_some hfind
    have hid : f.id = id := of_decide_eq_true (List.find?_some hfind :)
    rw [if_pos]
    rw [MayMove, not_and] at h
    have hbelow := h ⟨f, hf, hid⟩
    push Not at hbelow
    obtain ⟨y, hy, n, hn⟩ := hbelow
    rw [hy, Option.any_some]
    exact (isDescendant_iff hnd (List.mem_map.mpr ⟨f, hf, hid⟩)).mpr ⟨n, hn⟩

theorem Placement.Moved.map_id {α : Type} {P : Placement α} {before after : List α}
    (h : P.Moved before after id p t) : after.map P.id = before.map P.id := by
  have hids : List.Forall₂ (· = ·) (after.map P.id) (before.map P.id) := by
    rw [List.forall₂_map_left_iff, List.forall₂_map_right_iff]
    exact (h.pointwise.imp fun b a hba => hba.1).flip
  rwa [List.forall₂_eq_eq_eq] at hids

theorem exists_iff_of_forall₂ {α : Type} {R : α → α → Prop} {q r : α → Prop} {before after : List α}
    (h : List.Forall₂ R before after) (hqr : ∀ b a, R b a → (q b ↔ r a)) :
    (∃ b ∈ before, q b) ↔ ∃ a ∈ after, r a := by
  induction h with
  | nil => simp only [List.not_mem_nil, false_and, exists_false]
  | cons hba _ ih => rw [List.exists_mem_cons_iff, List.exists_mem_cons_iff, hqr _ _ hba, ih]

/-- The parent function changes at the moved folder only. -/
theorem parentOf_moved (hnd : (folders.map (·.id)).Nodup) (hid : id ∈ folders.map (·.id))
    (h : folderPlacement.Moved folders after id p t) :
    parentOf after = Function.update (parentOf folders) id ((truthy p).filter (· ∈ folderMap folders)) := by
  have hids : after.map (·.id) = folders.map (·.id) := h.map_id
  have hnd' : (after.map (·.id)).Nodup := hids ▸ hnd
  funext x
  refine Option.ext fun y => ?_
  have hexists : (∃ f ∈ after, f.id = y) ↔ ∃ f ∈ folders, f.id = y := by
    rw [← List.mem_map, hids, List.mem_map]
  have hlink : (∃ f ∈ after, f.id = x ∧ truthy f.parentId = some y) ↔
      ∃ f ∈ folders, f.id = x ∧ truthy (if f.id = id then p else f.parentId) = some y := by
    refine (exists_iff_of_forall₂ h.pointwise fun b a hba => ?_).symm
    have hbid : a.id = b.id := hba.1
    have hbp : a.parentId = if b.id = id then p else b.parentId := hba.2.1
    rw [hbid, hbp]
  rw [parentOf_eq_some hnd', hlink, hexists]
  by_cases hx : x = id
  · subst hx
    rw [Function.update_self, Option.filter_eq_some_iff, decide_eq_true_iff, mem_folderMap hnd]
    obtain ⟨f, hf, hfid⟩ := List.mem_map.mp hid
    refine and_congr_left fun _ => ⟨?_, fun hp => ⟨f, hf, hfid, by rwa [if_pos hfid]⟩⟩
    rintro ⟨g, -, hg, hp⟩
    rwa [if_pos hg] at hp
  · rw [Function.update_of_ne hx, parentOf_eq_some hnd]
    refine and_congr_left fun _ => exists_congr fun f => and_congr_right fun _ => and_congr_right fun hfx => ?_
    rw [if_neg (hfx ▸ hx)]

/-- A move keeps the folders free of cycles. -/
theorem acyclic_moveFolder (hnd : (folders.map (·.id)).Nodup) (hac : Acyclic (parentOf folders)) :
    Acyclic (parentOf (moveFolder id p t folders)) := by
  by_cases h : MayMove folders id p
  · rw [parentOf_moved hnd (List.mem_map.mpr h.1) (moveFolder_moved hnd h)]
    refine hac.update fun y hy n => ?_
    exact h.2 y (Option.filter_eq_some_iff.mp hy).1 n
  · rwa [moveFolder_refused hnd h]

theorem map_id_moveFolder (hnd : (folders.map (·.id)).Nodup) :
    (moveFolder id p t folders).map (·.id) = folders.map (·.id) := by
  by_cases h : MayMove folders id p
  · exact (moveFolder_moved hnd h).map_id
  · rw [moveFolder_refused hnd h]

theorem moveWorkflow_moved (hnd : (workflows.map (·.id)).Nodup) (h : ∃ w ∈ workflows, w.id = id) :
    workflowPlacement.Moved workflows (moveWorkflow id p t workflows) id p t := by
  obtain ⟨w, hw, rfl⟩ := h
  rw [moveWorkflow, find?_key hnd hw]
  exact Placement.moveTo_moved hnd hw rfl

theorem moveWorkflow_refused (h : ¬ ∃ w ∈ workflows, w.id = id) : moveWorkflow id p t workflows = workflows := by
  rw [moveWorkflow]
  split
  next => rfl
  next w hfind =>
    exact absurd ⟨w, List.mem_of_find?_eq_some hfind, of_decide_eq_true (List.find?_some hfind :)⟩ h

theorem map_id_moveWorkflow (hnd : (workflows.map (·.id)).Nodup) :
    (moveWorkflow id p t workflows).map (·.id) = workflows.map (·.id) := by
  by_cases h : ∃ w ∈ workflows, w.id = id
  · exact (moveWorkflow_moved hnd h).map_id
  · rw [moveWorkflow_refused h]

end

/-! ## Runs of moves -/

/-- No folder is above itself, and each workflow is shown once. -/
structure Sidebar.Sound (s : Sidebar) : Prop where
  acyclic : Acyclic (parentOf s.folders)
  groups : ((flattenFoldersForRunner s.folders s.workflows).flatMap (·.workflows)).Perm s.workflows
  tree : (treeWorkflows (buildFolderTree s.folders s.workflows) ++ getUnfiledWorkflows s.folders s.workflows).Perm
    s.workflows

/-- What a call does to the folders: all that it is to do, or nothing where it must not. -/
def FolderMoved (before after : List WorkflowFolder) (id : String) (p : Option String) (t : TargetIndex) : Prop :=
  MayMove before id p ∧ folderPlacement.Moved before after id p t ∨ ¬ MayMove before id p ∧ after = before

def WorkflowMoved (before after : List Workflow) (id : String) (p : Option String) (t : TargetIndex) : Prop :=
  (∃ w ∈ before, w.id = id) ∧ workflowPlacement.Moved before after id p t ∨
    (¬ ∃ w ∈ before, w.id = id) ∧ after = before

section

variable {s : Sidebar} {moves : List Move} {m : Move}

theorem step_folders (hnd : (s.folders.map (·.id)).Nodup) (hac : Acyclic (parentOf s.folders)) :
    ((s.step m).folders.map (·.id)).Nodup ∧ Acyclic (parentOf (s.step m).folders) := by
  cases m with
  | folder id p t => exact ⟨(map_id_moveFolder hnd).symm ▸ hnd, acyclic_moveFolder hnd hac⟩
  | workflow id p t => exact ⟨hnd, hac⟩

theorem step_workflows (hnd : (s.workflows.map (·.id)).Nodup) : ((s.step m).workflows.map (·.id)).Nodup := by
  cases m with
  | folder id p t => exact hnd
  | workflow id p t => exact (map_id_moveWorkflow hnd).symm ▸ hnd

theorem run_folders (hnd : (s.folders.map (·.id)).Nodup) (hac : Acyclic (parentOf s.folders)) :
    ((s.run moves).folders.map (·.id)).Nodup ∧ Acyclic (parentOf (s.run moves).folders) := by
  induction moves generalizing s with
  | nil => exact ⟨hnd, hac⟩
  | cons m moves ih =>
      obtain ⟨hnd', hac'⟩ := step_folders (m := m) hnd hac
      exact ih hnd' hac'

theorem run_workflows (hnd : (s.workflows.map (·.id)).Nodup) : ((s.run moves).workflows.map (·.id)).Nodup := by
  induction moves generalizing s with
  | nil => exact hnd
  | cons m moves ih => exact ih (step_workflows hnd)

end

/-- After any moves the sidebar is sound, and the next move moves what it names and no more. -/
theorem moves_keep_tree (s : Sidebar) (hnd : (s.folders.map (·.id)).Nodup) (hac : Acyclic (parentOf s.folders))
    (moves : List Move) :
    (s.run moves).Sound ∧
      (∀ id p t, FolderMoved (s.run moves).folders ((s.run moves).step (.folder id p t)).folders id p t ∧
        ((s.run moves).step (.folder id p t)).workflows = (s.run moves).workflows) ∧
      ((s.workflows.map (·.id)).Nodup → ∀ id p t,
        WorkflowMoved (s.run moves).workflows ((s.run moves).step (.workflow id p t)).workflows id p t ∧
        ((s.run moves).step (.workflow id p t)).folders = (s.run moves).folders) := by
  obtain ⟨hnd', hac'⟩ := @run_folders s moves hnd hac
  refine ⟨⟨hac', flatten_perm hnd' hac', tree_unfiled_perm hnd' hac'⟩, fun id p t => ⟨?_, rfl⟩, ?_⟩
  · by_cases h : MayMove (s.run moves).folders id p
    · exact .inl ⟨h, moveFolder_moved hnd' h⟩
    · exact .inr ⟨h, moveFolder_refused hnd' h⟩
  · intro hwf id p t
    refine ⟨?_, rfl⟩
    by_cases h : ∃ w ∈ (s.run moves).workflows, w.id = id
    · exact .inl ⟨h, moveWorkflow_moved (run_workflows hwf) h⟩
    · exact .inr ⟨h, moveWorkflow_refused h⟩

/-- Two folders, one in the other, and the outer one dropped into the inner one. -/
theorem moves_keep_tree_two :
    let s : Sidebar := ⟨[⟨"a", "A", none, 0⟩, ⟨"b", "B", some "a", 0⟩], [⟨"w", some "b", none⟩]⟩
    (s.run [.workflow "w" (some "a") .infinity, .folder "a" (some "b") (.finite 0)]).Sound := by
  intro s
  have hnd : (s.folders.map (·.id)).Nodup := by decide
  refine (moves_keep_tree s hnd (Acyclic.of_rank (fun id => if id = "b" then 1 else 0) ?_) _).1
  intro x y hxy
  obtain ⟨⟨f, hf, rfl, hp⟩, -⟩ := (parentOf_eq_some hnd).mp hxy
  rcases List.mem_cons.mp hf with rfl | hf
  · cases hp
  · obtain rfl := List.mem_singleton.mp hf
    obtain rfl := Option.some.inj (truthy_eq_some.mp hp).1
    decide

end RedFireForge.FolderTree
