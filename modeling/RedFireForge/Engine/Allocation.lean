/-
# `RedFireForge.Engine.Allocation` — requests that are planned and requests that are run

`computeAllocation` counts the enabled rows of a data source, `expandDataSource` also asks for
columns.  Where there are rows without columns more is planned than run.  The scenarios of the
queue are found by their ids, so that of two with one id the first is run twice.
-/
import Mathlib.Algebra.Order.BigOperators.Group.List
import Mathlib.Algebra.BigOperators.Group.List.Basic
import Mathlib.Data.List.Nodup
import Mathlib.Data.List.Perm.Basic
import Mathlib.Data.Rat.Floor

namespace RedFireForge.Engine.Allocation

/-! ## Scenarios -/

structure DataSourceRow where
  id : String
  enabled : Option Bool
deriving DecidableEq, Repr

inductive Distribution
  | sequential | random | roundRobin
deriving DecidableEq, Repr

/-- `C` is a column. -/
structure DataSource (C : Type) where
  columns : List C
  rows : List DataSourceRow
  distribution : Option Distribution

/-- `X` is what else a scenario holds. -/
structure Scenario (C X : Type) where
  id : String
  dataSource : Option (DataSource C)
  sharedDataSourceId : Option String
  dataRowId : Option String
  rest : X

inductive ScenarioKind
  | standard | parameterized
deriving DecidableEq, Repr

variable {C X : Type}

def enabledRows (ds : DataSource C) : List DataSourceRow := ds.rows.filter (·.enabled ≠ some false)

/-! ## The plan -/

structure AllocationResult where
  testId : String
  iterations : ℕ
  rowCount : ℕ
  totalRequests : ℕ
deriving DecidableEq, Repr

structure AllocationSummary where
  items : List AllocationResult
  totalRequests : ℕ
  kind : ScenarioKind
deriving DecidableEq, Repr

def countEnabledRows (scenario : Scenario C X) : ℕ :=
  match scenario.dataSource with
  | none => 0
  | some ds => if ds.rows.length = 0 then 0 else (enabledRows ds).length

def computeAllocation (tests : List (Scenario C X)) (iterations : ℕ) (kind : ScenarioKind) : AllocationSummary :=
  if iterations = 0 ∨ tests.length = 0 then ⟨[], 0, kind⟩
  else
    let items := tests.map fun test =>
      let rowCount := if kind = .parameterized then countEnabledRows test else 0
      ⟨test.id, iterations, rowCount, iterations * max rowCount 1⟩
    ⟨items, (items.map AllocationResult.totalRequests).sum, kind⟩

/-! ## The queue -/

/-- `Math.random()` for each place. -/
def shuffleFrom {α : Type} (random : ℕ → ℚ) : ℕ → List α → List α
  | 0, l => l
  | i + 1, l => shuffleFrom random i (l.swap (i + 1) ⌊random (i + 1) * (i + 2)⌋.toNat)

def shuffle {α : Type} (random : ℕ → ℚ) (l : List α) : List α := shuffleFrom random (l.length - 1) l

/-- `substitute` are the fields that the columns and the row are put into. -/
def resolveScenarioFromDataRow (substitute : X → List C → DataSourceRow → ℕ → X) (base : Scenario C X)
    (columns : List C) (row : DataSourceRow) (rowIndex : ℕ) : Scenario C X :=
  { base with
    dataSource := none
    dataRowId := some row.id
    rest := substitute base.rest columns row rowIndex }

def applyDistribution (random : ℕ → ℚ) (rows : List DataSourceRow) (distribution : Option Distribution) :
    List DataSourceRow :=
  if distribution.getD .sequential = .random then shuffle random rows else rows

section Run

variable (substitute : X → List C → DataSourceRow → ℕ → X) (random : ℕ → ℕ → ℚ)

/-- The draws for the rows are those of the place in the queue. -/
def expandDataSource (place : ℕ) (scenario : Scenario C X) : List (Scenario C X) :=
  match scenario.dataSource with
  | none => [scenario]
  | some dt =>
      if dt.columns.length = 0 ∨ dt.rows.length = 0 then [scenario]
      else if (enabledRows dt).length = 0 then [scenario]
      else
        (applyDistribution (random (place + 1)) (enabledRows dt) dt.distribution).zipIdx.map fun (row, idx) =>
          resolveScenarioFromDataRow substitute scenario dt.columns row idx

def expandQueue (queue : List (Scenario C X)) : List (Scenario C X) :=
  queue.zipIdx.flatMap fun (scenario, place) => expandDataSource substitute random place scenario

def kindOf (activeScenarios : List (Scenario C X)) : ScenarioKind :=
  if activeScenarios.any (fun s => s.dataSource.isSome || s.sharedDataSourceId.getD "" != "") then .parameterized
  else .standard

def buildQueue (activeScenarios : List (Scenario C X)) (allocation : AllocationSummary) : List (Scenario C X) :=
  allocation.items.flatMap fun item =>
    match activeScenarios.find? fun s => s.id = item.testId with
    | none => []
    | some scenario => List.replicate item.iterations scenario

/-- The part of `runTest` that makes the queue. -/
def expandedQueue (activeScenarios : List (Scenario C X)) (iterations : ℕ) : List (Scenario C X) :=
  let allocation := computeAllocation activeScenarios iterations (kindOf activeScenarios)
  expandQueue substitute random (shuffle (random 0) (buildQueue activeScenarios allocation))

/-! ## What is wanted -/

/-- The queue is as long as planned, and so is the part of each scenario id. -/
def RunsAsPlanned (activeScenarios : List (Scenario C X)) (iterations : ℕ) : Prop :=
  let allocation := computeAllocation activeScenarios iterations (kindOf activeScenarios)
  let queue := expandedQueue substitute random activeScenarios iterations
  queue.length = allocation.totalRequests ∧
    ∀ id, queue.countP (·.id = id) =
      ((allocation.items.filter (·.testId = id)).map AllocationResult.totalRequests).sum

end Run

/-- The requests of one iteration, by the rows alone. -/
def plannedRows (s : Scenario C X) : ℕ := max (countEnabledRows s) 1

/-- The requests of one iteration, where rows without columns count as none. -/
def runRows (s : Scenario C X) : ℕ :=
  match s.dataSource with
  | none => 1
  | some ds => if ds.columns.length = 0 then 1 else max (enabledRows ds).length 1

/-- The scenarios with an id have as many rows as the first of them has, rows without columns
left out there, so often as there are scenarios with the id. -/
def RowsAgree (activeScenarios : List (Scenario C X)) : Prop :=
  ∀ s ∈ activeScenarios, ((activeScenarios.filter (·.id = s.id)).map plannedRows).sum =
    (activeScenarios.filter (·.id = s.id)).length *
      runRows ((activeScenarios.find? (·.id = s.id)).getD s)

instance (activeScenarios : List (Scenario C X)) : Decidable (RowsAgree activeScenarios) :=
  inferInstanceAs (Decidable (∀ s ∈ activeScenarios, _))

/-! ## Single scenarios -/

section Rows

variable {substitute : X → List C → DataSourceRow → ℕ → X} {random : ℕ → ℕ → ℚ} {place : ℕ} {s : Scenario C X}

theorem shuffleFrom_perm {α : Type} (draws : ℕ → ℚ) (n : ℕ) (l : List α) : (shuffleFrom draws n l).Perm l := by
  induction n generalizing l with
  | zero => exact List.Perm.refl l
  | succ n ih => exact (ih _).trans (List.swap_perm l _ _)

theorem shuffle_perm {α : Type} (draws : ℕ → ℚ) (l : List α) : (shuffle draws l).Perm l := shuffleFrom_perm draws _ l

theorem length_applyDistribution (draws : ℕ → ℚ) (rows : List DataSourceRow) (distribution : Option Distribution) :
    (applyDistribution draws rows distribution).length = rows.length := by
  rw [applyDistribution]
  split
  · exact (shuffle_perm draws rows).length_eq
  · rfl

theorem enabledRows_nil {ds : DataSource C} (h : ds.rows.length = 0) : (enabledRows ds).length = 0 := by
  rw [enabledRows, List.length_eq_zero_iff.mp h]
  rfl

/-- A scenario is run once for each row that counts, under its own id. -/
theorem expandDataSource_spec : (expandDataSource substitute random place s).length = runRows s ∧
    ∀ x ∈ expandDataSource substitute random place s, x.id = s.id := by
  have hself : ∀ x ∈ [s], x.id = s.id := fun x hx => by rw [List.mem_singleton.mp hx]
  rw [expandDataSource, runRows]
  cases s.dataSource with
  | none => exact ⟨rfl, hself⟩
  | some dt =>
      dsimp only
      split
      next h =>
        refine ⟨?_, hself⟩
        split
        next => rfl
        next hcolumns => rw [enabledRows_nil (h.resolve_left hcolumns)]; rfl
      next h =>
        rw [not_or] at h
        rw [if_neg h.1]
        split
        next hrows =>
          rw [hrows]
          exact ⟨rfl, hself⟩
        next hrows =>
          constructor
          · rw [List.length_map, List.length_zipIdx, length_applyDistribution]
            omega
          · intro x hx
            obtain ⟨⟨row, idx⟩, -, rfl⟩ := List.mem_map.mp hx
            rfl

theorem countEnabledRows_eq : countEnabledRows s = (s.dataSource.map fun ds => (enabledRows ds).length).getD 0 := by
  rw [countEnabledRows]
  cases s.dataSource with
  | none => rfl
  | some ds =>
      dsimp only
      split
      next h => exact (enabledRows_nil h).symm
      next => rfl

end Rows

/-! ## The queue by ids -/

section Queue

variable {substitute : X → List C → DataSourceRow → ℕ → X} {random : ℕ → ℕ → ℚ} {activeScenarios : List (Scenario C X)}
  {iterations : ℕ}

/-- What a place of the queue adds to an id. -/
def runOf (id : String) (s : Scenario C X) : ℕ := if s.id = id then runRows s else 0

theorem countP_expandDataSource (place : ℕ) (s : Scenario C X) (id : String) :
    (expandDataSource substitute random place s).countP (·.id = id) = runOf id s := by
  obtain ⟨hlength, hid⟩ := @expandDataSource_spec C X substitute random place s
  rw [runOf]
  split
  next h =>
    rw [← hlength, List.countP_eq_length]
    exact fun x hx => decide_eq_true ((hid x hx).trans h)
  next h =>
    rw [List.countP_eq_zero]
    exact fun x hx => by simpa [hid x hx] using h

theorem countP_expandQueue (queue : List (Scenario C X)) (id : String) :
    (expandQueue substitute random queue).countP (·.id = id) = (queue.map (runOf id)).sum := by
  have hfrom : ∀ n, ((queue.zipIdx n).flatMap fun (scenario, place) => expandDataSource substitute random place scenario).countP
      (·.id = id) = (queue.map (runOf id)).sum := by
    induction queue with
    | nil => exact fun _ => rfl
    | cons s queue ih =>
        intro n
        rw [List.zipIdx_cons, List.flatMap_cons, List.countP_append, ih, countP_expandDataSource, List.map_cons,
          List.sum_cons]
  exact hfrom 0

theorem items_eq (h : 1 ≤ iterations) (hkind : ScenarioKind) :
    (computeAllocation activeScenarios iterations hkind).items = activeScenarios.map fun test =>
      let rowCount := if hkind = .parameterized then countEnabledRows test else 0
      ⟨test.id, iterations, rowCount, iterations * max rowCount 1⟩ := by
  rw [computeAllocation]
  split
  next hempty =>
    rw [List.length_eq_zero_iff.mp (hempty.resolve_left (by omega))]
    rfl
  next => rfl

theorem totalRequests_eq (hkind : ScenarioKind) :
    (computeAllocation activeScenarios iterations hkind).totalRequests =
      ((computeAllocation activeScenarios iterations hkind).items.map AllocationResult.totalRequests).sum := by
  rw [computeAllocation]
  split <;> rfl

/-- With no data source in the list none of its scenarios has a row. -/
theorem rowCount_eq {s : Scenario C X} (hs : s ∈ activeScenarios) :
    (if kindOf activeScenarios = .parameterized then countEnabledRows s else 0) = countEnabledRows s := by
  split
  next => rfl
  next hkind =>
    rw [kindOf] at hkind
    split at hkind
    next => exact absurd rfl hkind
    next hnone =>
      have hsource : s.dataSource = none := by
        rw [← Option.not_isSome_iff_eq_none]
        intro hsome
        exact hnone (List.any_eq_true.mpr ⟨s, hs, by rw [hsome, Bool.true_or]⟩)
      rw [countEnabledRows, hsource]

/-- The plan for an id. -/
theorem planned_eq (h : 1 ≤ iterations) (id : String) :
    (((computeAllocation activeScenarios iterations (kindOf activeScenarios)).items.filter (·.testId = id)).map
      AllocationResult.totalRequests).sum =
      iterations * ((activeScenarios.filter (·.id = id)).map plannedRows).sum := by
  have hplanned : ∀ s ∈ activeScenarios, max (if kindOf activeScenarios = .parameterized then countEnabledRows s else 0) 1 =
      plannedRows s := fun s hs => by rw [rowCount_eq hs, plannedRows]
  rw [items_eq h]
  generalize kindOf activeScenarios = kind at hplanned
  clear h
  induction activeScenarios with
  | nil => rfl
  | cons s l ih =>
      rw [List.forall_mem_cons] at hplanned
      rw [List.map_cons, List.filter_cons, List.filter_cons]
      dsimp only
      split
      next => rw [List.map_cons, List.map_cons, List.sum_cons, List.sum_cons, ih hplanned.2, hplanned.1, Nat.mul_add]
      next => exact ih hplanned.2

theorem exists_first : ∀ s ∈ activeScenarios, ∃ first, activeScenarios.find? (·.id = s.id) = some first ∧ first.id = s.id := by
  intro s hs
  have hsome : (activeScenarios.find? (·.id = s.id)).isSome := List.find?_isSome.mpr ⟨s, hs, decide_eq_true_eq.mpr rfl⟩
  obtain ⟨first, hfirst⟩ := Option.isSome_iff_exists.mp hsome
  have hid := List.find?_some hfirst
  exact ⟨first, hfirst, of_decide_eq_true hid⟩

/-- The queue for an id, before data sources are expanded. -/
theorem queued_eq (h : 1 ≤ iterations) (id : String) :
    ((buildQueue activeScenarios (computeAllocation activeScenarios iterations (kindOf activeScenarios))).map
      (runOf id)).sum = iterations * ((activeScenarios.filter (·.id = id)).map fun s =>
        runRows ((activeScenarios.find? (·.id = s.id)).getD s)).sum := by
  rw [buildQueue, items_eq h]
  have hfind := @exists_first C X activeScenarios
  generalize kindOf activeScenarios = kind
  generalize hfirst : (fun id => activeScenarios.find? (·.id = id)) = first at hfind
  have hfirst' : ∀ id, activeScenarios.find? (·.id = id) = first id := fun id => congrFun hfirst id
  simp only [hfirst'] at hfind ⊢
  clear hfirst hfirst' h
  induction activeScenarios with
  | nil => rfl
  | cons s l ih =>
      rw [List.forall_mem_cons] at hfind
      obtain ⟨⟨s', hs', hid⟩, hfind⟩ := hfind
      rw [List.map_cons, List.flatMap_cons, List.map_append, List.sum_append, ih hfind, List.filter_cons]
      dsimp only
      rw [hs', List.map_replicate, List.sum_replicate_nat, runOf, hid]
      split
      next h =>
        rw [if_pos (decide_eq_true h), List.map_cons, List.sum_cons, hs', Option.getD_some, Nat.mul_add]
      next h => rw [if_neg (by simpa using h), Nat.mul_zero, Nat.zero_add]

theorem perm_queue (activeScenarios : List (Scenario C X)) (iterations : ℕ) (id : String) :
    (expandedQueue substitute random activeScenarios iterations).countP (·.id = id) =
      ((buildQueue activeScenarios (computeAllocation activeScenarios iterations (kindOf activeScenarios))).map
        (runOf id)).sum := by
  rw [expandedQueue, countP_expandQueue]
  exact ((shuffle_perm _ _).map _).sum_eq

/-- The part of an id is as planned exactly if the rows of the id agree. -/
theorem id_iff (h : 1 ≤ iterations) (id : String) :
    (expandedQueue substitute random activeScenarios iterations).countP (·.id = id) =
      (((computeAllocation activeScenarios iterations (kindOf activeScenarios)).items.filter (·.testId = id)).map
        AllocationResult.totalRequests).sum ↔
    ((activeScenarios.filter (·.id = id)).map plannedRows).sum = ((activeScenarios.filter (·.id = id)).map fun s =>
      runRows ((activeScenarios.find? (·.id = s.id)).getD s)).sum := by
  rw [perm_queue, queued_eq h, planned_eq h, Nat.mul_right_inj (by omega)]
  exact eq_comm

theorem count_flatMap_replicate (items : List AllocationResult) (id : String) :
    (items.flatMap fun item => List.replicate item.totalRequests item.testId).count id =
      ((items.filter (·.testId = id)).map AllocationResult.totalRequests).sum := by
  induction items with
  | nil => rfl
  | cons item items ih =>
      rw [List.flatMap_cons, List.count_append, ih, List.count_replicate, List.filter_cons]
      split
      next h => rw [if_pos (decide_eq_true (eq_of_beq h)), List.map_cons, List.sum_cons]
      next h => rw [if_neg (by simpa using h), Nat.zero_add]

theorem length_flatMap_replicate (items : List AllocationResult) :
    (items.flatMap fun item => List.replicate item.totalRequests item.testId).length =
      (items.map AllocationResult.totalRequests).sum := by
  induction items with
  | nil => rfl
  | cons item items ih =>
      rw [List.flatMap_cons, List.length_append, ih, List.length_replicate, List.map_cons, List.sum_cons]

/-- Where each id has its requests, there are as many as planned. -/
theorem runsAsPlanned_of_ids (h : ∀ id, (expandedQueue substitute random activeScenarios iterations).countP (·.id = id) =
    (((computeAllocation activeScenarios iterations (kindOf activeScenarios)).items.filter (·.testId = id)).map
      AllocationResult.totalRequests).sum) : RunsAsPlanned substitute random activeScenarios iterations := by
  refine ⟨?_, h⟩
  have hperm : ((expandedQueue substitute random activeScenarios iterations).map (·.id)).Perm
      ((computeAllocation activeScenarios iterations (kindOf activeScenarios)).items.flatMap fun item =>
        List.replicate item.totalRequests item.testId) := by
    refine List.perm_iff_count.mpr fun id => ?_
    rw [count_flatMap_replicate, ← h id, List.count, List.countP_map]
    exact List.countP_congr fun x _ => by simp
  rw [totalRequests_eq, ← length_flatMap_replicate, ← hperm.length_eq, List.length_map]

/-- The scenarios with one id are all run as the first of them. -/
theorem runs_of_id (id : String) (s : Scenario C X) :
    ((activeScenarios.filter (·.id = id)).map fun s' =>
      runRows ((activeScenarios.find? (·.id = s'.id)).getD s')).sum =
      (activeScenarios.filter (·.id = id)).length * runRows ((activeScenarios.find? (·.id = id)).getD s) := by
  have hsame : ∀ s' ∈ activeScenarios.filter (·.id = id),
      runRows ((activeScenarios.find? (·.id = s'.id)).getD s') = runRows ((activeScenarios.find? (·.id = id)).getD s) := by
    intro s' hs'
    obtain ⟨hmem, hid'⟩ := List.mem_filter.mp hs'
    obtain ⟨first, hfirst, -⟩ := exists_first s' hmem
    rw [← of_decide_eq_true hid', hfirst]
    rfl
  rw [List.map_congr_left hsame, List.map_const', List.sum_replicate_nat]

/-- Two rows, no column. -/
def noColumns : Scenario ℕ Unit :=
  { id := "s", dataSource := some ⟨[], [⟨"r1", none⟩, ⟨"r2", some true⟩], none⟩, sharedDataSourceId := none,
    dataRowId := none, rest := () }

def oneColumn : Scenario ℕ Unit :=
  { noColumns with id := "t", dataSource := some ⟨[0], [⟨"r1", none⟩, ⟨"r2", some false⟩, ⟨"r3", none⟩], some .random⟩ }

end Queue

theorem plannedRows_eq_iff {s : Scenario C X} : plannedRows s = runRows s ↔
    ∀ ds ∈ s.dataSource, ds.columns.length = 0 → (enabledRows ds).length ≤ 1 := by
  rw [plannedRows, runRows, countEnabledRows_eq]
  cases s.dataSource with
  | none => simp
  | some ds =>
      simp only [Option.map_some, Option.getD_some, Option.mem_def, Option.some.injEq, forall_eq']
      split
      next h => omega
      next h => exact iff_of_true rfl fun h' => absurd h' h

/-- With ids of their own, only rows without columns make a difference. -/
theorem rowsAgree_of_nodup {activeScenarios : List (Scenario C X)} (hnodup : (activeScenarios.map (·.id)).Nodup) :
    RowsAgree activeScenarios ↔ ∀ s ∈ activeScenarios, ∀ ds ∈ s.dataSource, ds.columns.length = 0 →
      (enabledRows ds).length ≤ 1 := by
  have hself : ∀ s ∈ activeScenarios, activeScenarios.filter (·.id = s.id) = [s] := by
    intro s hs
    have hone : (activeScenarios.filter (·.id = s.id)).length = 1 := by
      rw [← List.countP_eq_length_filter, ← List.count_eq_one_of_mem hnodup (List.mem_map_of_mem hs), List.count,
        List.countP_map]
      exact List.countP_congr fun x _ => by simp
    obtain ⟨s', hs'⟩ := List.length_eq_one_iff.mp hone
    have hmem : s ∈ activeScenarios.filter (·.id = s.id) := List.mem_filter.mpr ⟨hs, decide_eq_true rfl⟩
    rw [hs', List.mem_singleton] at hmem
    rw [hs', hmem]
  refine forall₂_congr fun s hs => ?_
  rw [← List.head?_filter, hself s hs, List.head?_cons, Option.getD_some, List.map_singleton, List.sum_singleton,
    List.length_singleton, Nat.one_mul]
  exact plannedRows_eq_iff

end RedFireForge.Engine.Allocation
