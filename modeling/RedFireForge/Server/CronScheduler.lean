/-
# `RedFireForge.Server.CronScheduler` — the cron tasks and the map that owns them

`initScheduler` and `reloadSchedules` are suspended while the trigger file is read, and
again after each trigger that they register.  A task runs until it is stopped, and only
the tasks of the map `activeJobs` are ever stopped: a task whose place in the map is taken
by another runs on for good.
-/
import RedFireForge.Lib.InsertionMap
import RedFireForge.Lib.Run

namespace RedFireForge.Server

open RedFireForge.Lib

structure ScheduleTrigger where
  id : String
  cronExpression : String
  timezone : Option String
  enabled : Bool
deriving DecidableEq, Repr

/-- What `node-cron` says of an expression, and of an expression in a time zone. -/
structure Cron where
  validate : String → Bool
  /-- `schedule` does not throw -/
  schedules : String → String → Bool

/-- The task `number` of those that were created. -/
structure ScheduledTask where
  number : ℕ
  triggerId : String
deriving DecidableEq, Repr

inductive SchedulerCall
  | initScheduler | reloadSchedules | stopScheduler
deriving DecidableEq, Repr

/-- Where a call is suspended. -/
inductive SchedulerFrame
  | reading
  /-- after a trigger; these are left -/
  | registering (triggers : List ScheduleTrigger)
deriving DecidableEq, Repr

structure Scheduler where
  activeJobs : InsertionMap String ScheduledTask
  /-- started and not stopped -/
  running : List ScheduledTask
  created : ℕ
  calls : List SchedulerFrame
  lastBegun : Option SchedulerCall

inductive SchedulerStep
  | call (c : SchedulerCall)
  /-- the file is read for call `i`, or reading it fails -/
  | read (i : ℕ) (file : Option (List ScheduleTrigger))
  /-- call `i` goes on after a trigger -/
  | goOn (i : ℕ)
deriving DecidableEq, Repr

def Scheduler.initial : Scheduler := ⟨∅, [], 0, [], none⟩

/-! ## The calls -/

/-- Every task of the map is stopped, and the map is cleared. -/
def Scheduler.stopAll (s : Scheduler) : Scheduler :=
  { s with
    running := s.running.filter (fun task => decide (task ∉ s.activeJobs.values))
    activeJobs := ∅ }

section Steps

variable (cron : Cron)

def schedulable (trigger : ScheduleTrigger) : Bool :=
  cron.validate trigger.cronExpression &&
    cron.schedules trigger.cronExpression
      (if trigger.timezone.getD "" = "" then "UTC" else trigger.timezone.getD "")

def registerSchedule (trigger : ScheduleTrigger) (s : Scheduler) : Scheduler :=
  if schedulable cron trigger then
    let task : ScheduledTask := ⟨s.created, trigger.id⟩
    { s with
      running := s.running ++ [task]
      activeJobs := s.activeJobs.set trigger.id task
      created := s.created + 1 }
  else s

/-- The triggers up to the next enabled one, and where the call is then. -/
def registerNext (triggers : List ScheduleTrigger) (s : Scheduler) : Scheduler × Option SchedulerFrame :=
  match triggers.dropWhile (!·.enabled) with
  | [] => (s, none)
  | trigger :: rest => (registerSchedule cron trigger s, some (.registering rest))

/-- Call `i` is at another place, or it has finished. -/
def Scheduler.moveCall (s : Scheduler) (i : ℕ) : Option SchedulerFrame → Scheduler
  | some frame => { s with calls := s.calls.set i frame }
  | none => { s with calls := s.calls.eraseIdx i }

def Scheduler.goThrough (s : Scheduler) (i : ℕ) (triggers : List ScheduleTrigger) : Scheduler :=
  (registerNext cron triggers s).1.moveCall i (registerNext cron triggers s).2

def begin : SchedulerCall → Scheduler → Scheduler
  | .initScheduler, s => { s with calls := s.calls ++ [.reading], lastBegun := some .initScheduler }
  | .reloadSchedules, s =>
      { s.stopAll with calls := s.calls ++ [.reading], lastBegun := some .reloadSchedules }
  | .stopScheduler, s => { s.stopAll with lastBegun := some .stopScheduler }

def schedulerNext : SchedulerStep → Scheduler → Option Scheduler
  | .call c, s => some (begin c s)
  | .read i file, s =>
      match s.calls[i]? with
      | some .reading => some (s.goThrough cron i (file.getD []))
      | _ => none
  | .goOn i, s =>
      match s.calls[i]? with
      | some (.registering triggers) => some (s.goThrough cron i triggers)
      | _ => none

/-! ## What the claims of a run are about -/

/-- The triggers that a step goes through. -/
def SchedulerStep.triggers : SchedulerStep → Scheduler → List ScheduleTrigger
  | .call _, _ => []
  | .read _ file, _ => file.getD []
  | .goOn i, s =>
      match s.calls[i]? with
      | some (.registering triggers) => triggers
      | _ => []

/-- The trigger for which a step creates a task. -/
def SchedulerStep.registers (l : SchedulerStep) (s : Scheduler) : Option ScheduleTrigger :=
  ((l.triggers s).dropWhile (!·.enabled)).head?.filter (schedulable cron)

/-- A task is created only where the map has none under the identifier of its trigger. -/
def findsFree (l : SchedulerStep) (s : Scheduler) : Prop :=
  ∀ trigger ∈ l.registers cron s, trigger.id ∉ s.activeJobs

/-- No task is created once `stopScheduler` was the last call begun. -/
def beforeStop (l : SchedulerStep) (s : Scheduler) : Prop :=
  l.registers cron s = none ∨ s.lastBegun ≠ some .stopScheduler

instance (l : SchedulerStep) (s : Scheduler) : Decidable (findsFree cron l s) :=
  inferInstanceAs (Decidable (∀ trigger ∈ l.registers cron s, trigger.id ∉ s.activeJobs))

instance (l : SchedulerStep) (s : Scheduler) : Decidable (beforeStop cron l s) :=
  inferInstanceAs (Decidable (_ ∨ _))

end Steps

/-- Every task that runs is in the map. -/
def Scheduler.Owned (s : Scheduler) : Prop := ∀ task ∈ s.running, task ∈ s.activeJobs.values

instance (s : Scheduler) : Decidable s.Owned :=
  inferInstanceAs (Decidable (∀ task ∈ s.running, task ∈ s.activeJobs.values))

/-- The tasks that run are those of the map, and each belongs to another trigger; and once
all calls have finished and `stopScheduler` was the last one begun, there is none. -/
structure Scheduler.Controlled (s : Scheduler) : Prop where
  owned : ∀ task, task ∈ s.running ↔ task ∈ s.activeJobs.values
  once : (s.running.map ScheduledTask.triggerId).Nodup
  stopped : s.calls = [] → s.lastBegun = some .stopScheduler → s.running = []

/-! ## What holds in every run -/

/-- The map keeps tasks that run under the identifiers of their triggers. -/
structure Scheduler.Inv (s : Scheduler) : Prop where
  keyed : ∀ id task, s.activeJobs.lookup id = some task → task.triggerId = id ∧ task ∈ s.running
  fresh : ∀ task ∈ s.running, task.number < s.created
  nodup : s.running.Nodup

namespace Scheduler

variable {cron : Cron} {s s' : Scheduler} {l : SchedulerStep} {i : ℕ} {triggers : List ScheduleTrigger}
  {trigger : ScheduleTrigger}

theorem initial_inv : initial.Inv where
  keyed := fun id task h => by cases h
  fresh := fun task h => by cases h
  nodup := List.nodup_nil

/-- What a step does to the tasks: nothing, it stops those of the map, or it starts one. -/
inductive Does (cron : Cron) (l : SchedulerStep) (s s' : Scheduler) : Prop
  | nothing : l.registers cron s = none → s'.running = s.running → s'.activeJobs = s.activeJobs →
      s'.created = s.created → Does cron l s s'
  | stops : l.registers cron s = none → s'.running = s.stopAll.running → s'.activeJobs = ∅ →
      s'.created = s.created → Does cron l s s'
  | starts (trigger : ScheduleTrigger) : l.registers cron s = some trigger →
      s'.running = s.running ++ [⟨s.created, trigger.id⟩] →
      s'.activeJobs = s.activeJobs.set trigger.id ⟨s.created, trigger.id⟩ →
      s'.created = s.created + 1 → Does cron l s s'

theorem moveCall_running (frame : Option SchedulerFrame) :
    (s.moveCall i frame).running = s.running ∧ (s.moveCall i frame).activeJobs = s.activeJobs ∧
      (s.moveCall i frame).created = s.created ∧ (s.moveCall i frame).lastBegun = s.lastBegun := by
  cases frame <;> exact ⟨rfl, rfl, rfl, rfl⟩

theorem does_goThrough (hl : l.triggers s = triggers) : Does cron l s (s.goThrough cron i triggers) := by
  have hregisters : l.registers cron s =
      (triggers.dropWhile (!·.enabled)).head?.filter (schedulable cron) := by
    rw [SchedulerStep.registers, hl]
  unfold goThrough registerNext
  cases hdrop : triggers.dropWhile (!·.enabled) with
  | nil =>
      rw [hdrop] at hregisters
      exact .nothing hregisters rfl rfl rfl
  | cons trigger rest =>
      rw [hdrop, List.head?_cons, Option.filter_some] at hregisters
      obtain ⟨hrunning, hjobs, hcreated, -⟩ := moveCall_running (s := registerSchedule cron trigger s)
        (i := i) (some (.registering rest))
      cases hcan : schedulable cron trigger with
      | false =>
          rw [hcan] at hregisters
          have hsame : registerSchedule cron trigger s = s := by simp [registerSchedule, hcan]
          rw [hsame] at hrunning hjobs hcreated
          refine .nothing hregisters ?_ ?_ ?_ <;> simp only [hsame, hrunning, hjobs, hcreated]
      | true =>
          rw [hcan] at hregisters
          refine .starts trigger hregisters (hrunning.trans ?_) (hjobs.trans ?_) (hcreated.trans ?_) <;>
            simp [registerSchedule, hcan]

/-- A call begins, or one goes through triggers. -/
theorem next_cases (h : schedulerNext cron l s = some s') :
    (∃ c, l = .call c ∧ s' = begin c s) ∨
      (∀ c, l ≠ .call c) ∧ ∃ i, s' = s.goThrough cron i (l.triggers s) := by
  cases l with
  | call c => exact Or.inl ⟨c, rfl, (Option.some.inj h).symm⟩
  | read i file =>
      simp only [schedulerNext] at h
      split at h
      next =>
        cases h
        exact Or.inr ⟨nofun, i, rfl⟩
      next => cases h
  | goOn i =>
      simp only [schedulerNext] at h
      split at h
      next triggers hcall =>
        cases h
        exact Or.inr ⟨nofun, i, by simp only [SchedulerStep.triggers, hcall]⟩
      next => cases h

theorem next_does (h : schedulerNext cron l s = some s') : Does cron l s s' := by
  rcases next_cases h with ⟨c, rfl, rfl⟩ | ⟨-, i, rfl⟩
  · cases c with
    | initScheduler => exact .nothing rfl rfl rfl rfl
    | reloadSchedules => exact .stops rfl rfl rfl rfl
    | stopScheduler => exact .stops rfl rfl rfl rfl
  · exact does_goThrough rfl

theorem mem_stopAll {task : ScheduledTask} :
    task ∈ s.stopAll.running ↔ task ∈ s.running ∧ task ∉ s.activeJobs.values := by
  simp [stopAll, List.mem_filter]

theorem values_empty : (∅ : InsertionMap String ScheduledTask).values = [] := rfl

/-- A step keeps the invariant, and it leaves every task in the map exactly if its own finds
its place free. -/
theorem step_owned (hI : s.Inv) (h : schedulerNext cron l s = some s') :
    s'.Inv ∧ (s'.Owned ↔ s.Owned ∧ findsFree cron l s) := by
  have hnone : l.registers cron s = none → findsFree cron l s := by
    intro hregisters trigger htrigger
    rw [hregisters] at htrigger
    cases htrigger
  rcases next_does h with ⟨hregisters, hrunning, hjobs, hcreated⟩ |
    ⟨hregisters, hrunning, hjobs, hcreated⟩ | ⟨trigger, hregisters, hrunning, hjobs, hcreated⟩
  · refine ⟨⟨?_, ?_, hrunning ▸ hI.nodup⟩, ?_⟩
    · rw [hjobs, hrunning]
      exact hI.keyed
    · rw [hrunning, hcreated]
      exact hI.fresh
    · rw [Owned, hrunning, hjobs]
      exact ⟨fun ho => ⟨ho, hnone hregisters⟩, And.left⟩
  · refine ⟨⟨?_, ?_, ?_⟩, ?_⟩
    · intro id task hlookup
      rw [hjobs] at hlookup
      cases hlookup
    · intro task htask
      rw [hrunning, mem_stopAll] at htask
      rw [hcreated]
      exact hI.fresh task htask.1
    · rw [hrunning]
      exact hI.nodup.filter _
    · rw [Owned, hrunning, hjobs, values_empty]
      constructor
      · intro ho
        refine ⟨fun task htask => ?_, hnone hregisters⟩
        by_contra hlost
        exact List.not_mem_nil (ho task (mem_stopAll.mpr ⟨htask, hlost⟩))
      · intro ho task htask
        exact absurd (ho.1 task (mem_stopAll.mp htask).1) (mem_stopAll.mp htask).2
  · have hnew : (⟨s.created, trigger.id⟩ : ScheduledTask) ∉ s.running := fun hmem =>
      Nat.lt_irrefl _ (hI.fresh _ hmem)
    have hlookup : ∀ id, s'.activeJobs.lookup id =
        if id = trigger.id then some ⟨s.created, trigger.id⟩ else s.activeJobs.lookup id := fun id => by
      rw [hjobs, InsertionMap.lookup_set]
    have hfree : findsFree cron l s ↔ s.activeJobs.lookup trigger.id = none := by
      rw [findsFree, hregisters, AList.lookup_eq_none]
      simp
    refine ⟨⟨?_, ?_, ?_⟩, ?_⟩
    · intro id task hid
      rw [hlookup] at hid
      rw [hrunning]
      split at hid
      next heq =>
        cases hid
        exact ⟨heq.symm, by simp⟩
      next =>
        obtain ⟨hkey, hmem⟩ := hI.keyed id task hid
        exact ⟨hkey, List.mem_append_left _ hmem⟩
    · intro task htask
      rw [hrunning, List.mem_append, List.mem_singleton] at htask
      rw [hcreated]
      rcases htask with hmem | rfl
      · exact Nat.lt_succ_of_lt (hI.fresh task hmem)
      · exact Nat.lt_succ_self _
    · rw [hrunning]
      exact List.nodup_append.mpr ⟨hI.nodup, List.nodup_singleton _, fun a ha b hb hab => by
        rw [List.mem_singleton] at hb
        exact hnew (hb ▸ hab ▸ ha)⟩
    · rw [hfree]
      constructor
      · intro ho
        have hold : ∀ task ∈ s.running, ∃ id, id ≠ trigger.id ∧ s.activeJobs.lookup id = some task := by
          intro task htask
          obtain ⟨id, hid⟩ := InsertionMap.mem_values.mp
            (ho task (hrunning ▸ List.mem_append_left _ htask))
          rw [hlookup] at hid
          split at hid
          next =>
            cases hid
            exact absurd htask hnew
          next hne => exact ⟨id, hne, hid⟩
        refine ⟨fun task htask => InsertionMap.mem_values.mpr ⟨_, (hold task htask).choose_spec.2⟩, ?_⟩
        -- a task that was there would run outside of the map
        by_contra hsome
        obtain ⟨task, htask⟩ := Option.ne_none_iff_exists'.mp hsome
        obtain ⟨hkey, hmem⟩ := hI.keyed _ _ htask
        obtain ⟨id, hne, hid⟩ := hold task hmem
        exact hne ((hI.keyed _ _ hid).1.symm.trans hkey)
      · rintro ⟨ho, hnone⟩ task htask
        rw [hrunning, List.mem_append, List.mem_singleton] at htask
        rw [InsertionMap.mem_values]
        rcases htask with hmem | rfl
        · obtain ⟨id, hid⟩ := InsertionMap.mem_values.mp (ho task hmem)
          refine ⟨id, ?_⟩
          rw [hlookup, if_neg (fun heq => ?_), hid]
          rw [heq, hnone] at hid
          cases hid
        · exact ⟨trigger.id, by rw [hlookup, if_pos rfl]⟩

/-- Every task of a run is in the map exactly if each was created at a free place. -/
theorem owned_iff {ls : List SchedulerStep} (hrun : exec (schedulerNext cron) initial ls = some s) :
    s.Owned ↔ AllSteps (schedulerNext cron) (findsFree cron) initial ls := by
  have hiff := exec_iff_allSteps (fun l s s' hI h => step_owned hI h) initial_inv hrun
  rw [hiff]
  exact ⟨And.right, fun h => ⟨fun task htask => absurd htask List.not_mem_nil, h⟩⟩

theorem exec_inv {ls : List SchedulerStep} (hrun : exec (schedulerNext cron) initial ls = some s) : s.Inv :=
  exec_invariant' (fun _ _ _ hI h => (step_owned hI h).1) initial_inv hrun

theorem lastBegun_goThrough : (s.goThrough cron i triggers).lastBegun = s.lastBegun := by
  unfold goThrough registerNext
  split
  next => exact (moveCall_running _).2.2.2
  next trigger rest _ =>
    refine (moveCall_running _).2.2.2.trans ?_
    show (registerSchedule cron trigger s).lastBegun = s.lastBegun
    unfold registerSchedule
    split <;> rfl

/-- After `stopScheduler` nothing runs until the next call, where every task is in the map. -/
theorem step_stopped (ho : s.Owned) (hstop : s.lastBegun = some .stopScheduler → s.running = [])
    (hok : beforeStop cron l s) (h : schedulerNext cron l s = some s') :
    s'.lastBegun = some .stopScheduler → s'.running = [] := by
  intro hlast
  rcases next_cases h with ⟨c, rfl, rfl⟩ | ⟨-, i, hs'⟩
  · cases c with
    | initScheduler => cases hlast
    | reloadSchedules => cases hlast
    | stopScheduler =>
        refine List.eq_nil_iff_forall_not_mem.mpr fun task htask => ?_
        exact (mem_stopAll.mp htask).2 (ho task (mem_stopAll.mp htask).1)
  · rw [hs', lastBegun_goThrough] at hlast
    have hnone := hok.resolve_right (fun hne => hne hlast)
    rcases next_does h with ⟨-, hrunning, -, -⟩ | ⟨-, hrunning, -, -⟩ | ⟨trigger, hregisters, -, -, -⟩
    · rw [hrunning, hstop hlast]
    · rw [hrunning, stopAll, hstop hlast]
      rfl
    · rw [hnone] at hregisters
      cases hregisters

/-- Tasks of one trigger are one task, where every task is in the map. -/
theorem Inv.once (hI : s.Inv) (ho : s.Owned) : (s.running.map ScheduledTask.triggerId).Nodup := by
  refine hI.nodup.map_on fun a ha b hb hab => ?_
  obtain ⟨id, hid⟩ := InsertionMap.mem_values.mp (ho a ha)
  obtain ⟨id', hid'⟩ := InsertionMap.mem_values.mp (ho b hb)
  have hsame : id = id' := by rw [← (hI.keyed _ _ hid).1, ← (hI.keyed _ _ hid').1, hab]
  rw [hsame, hid'] at hid
  exact (Option.some.inj hid).symm

end Scheduler

/-! ## Jobs under control -/

/-- **Who creates tasks at free places controls them.**  The tasks that run are those of the
map exactly if no task was created under an identifier that had one; and if also none was
created after the last `stopScheduler`, then nothing is left once all calls have finished. -/
theorem scheduler_controlled (cron : Cron) (ls : List SchedulerStep) (s : Scheduler)
    (hrun : exec (schedulerNext cron) Scheduler.initial ls = some s) :
    ((∀ task, task ∈ s.running ↔ task ∈ s.activeJobs.values) ↔
        AllSteps (schedulerNext cron) (findsFree cron) Scheduler.initial ls) ∧
      (AllSteps (schedulerNext cron) (fun l s => findsFree cron l s ∧ beforeStop cron l s)
        Scheduler.initial ls → s.Controlled) := by
  have hI := Scheduler.exec_inv hrun
  have hback : ∀ task, task ∈ s.activeJobs.values → task ∈ s.running := by
    intro task htask
    obtain ⟨id, hid⟩ := InsertionMap.mem_values.mp htask
    exact (hI.keyed id task hid).2
  refine ⟨?_, fun hok => ?_⟩
  · rw [← Scheduler.owned_iff hrun]
    exact ⟨fun h task htask => (h task).mp htask, fun h task => ⟨h task, hback task⟩⟩
  · have ho := (Scheduler.owned_iff hrun).mpr (allSteps_and.mp hok).1
    have hstopped : s.Owned ∧ (s.lastBegun = some .stopScheduler → s.running = []) := by
      have hinv : (s.Inv ∧ s.Owned) ∧ (s.lastBegun = some .stopScheduler → s.running = []) := by
        refine exec_invariant (I := fun s => (s.Inv ∧ s.Owned) ∧
          (s.lastBegun = some .stopScheduler → s.running = [])) ?_
          ⟨⟨Scheduler.initial_inv, fun task htask => absurd htask List.not_mem_nil⟩, fun _ => rfl⟩ hok hrun
        rintro l s s' ⟨⟨hI, ho⟩, hstop⟩ ⟨hfree, hbefore⟩ hnext
        obtain ⟨hI', ho'⟩ := Scheduler.step_owned hI hnext
        exact ⟨⟨hI', ho'.mpr ⟨ho, hfree⟩⟩, Scheduler.step_stopped ho hstop hbefore hnext⟩
      exact ⟨hinv.1.2, hinv.2⟩
    exact ⟨fun task => ⟨ho task, hback task⟩, hI.once ho, fun _ => hstopped.2⟩

def lenient : Cron := ⟨fun _ => true, fun _ _ => true⟩

def nightly : ScheduleTrigger := ⟨"nightly", "0 2 * * *", none, true⟩

/-- One initialisation, a reload and a stop, one after the other. -/
def orderly : List SchedulerStep :=
  [.call .initScheduler, .read 0 (some [nightly]), .goOn 0, .call .reloadSchedules,
    .read 0 (some [nightly]), .goOn 0, .call .stopScheduler]

theorem scheduler_controlled_orderly :
    ∃ s, exec (schedulerNext lenient) Scheduler.initial orderly = some s ∧ s.Controlled := by
  obtain ⟨s, hrun, -⟩ : ∃ s, exec (schedulerNext lenient) Scheduler.initial orderly = some s ∧ s.Owned :=
    exists_exec (by decide)
  exact ⟨s, hrun, (scheduler_controlled lenient orderly s hrun).2 (by decide)⟩

/-- Two reloads that read the file at the same time. -/
def twoReloads : List SchedulerStep :=
  [.call .reloadSchedules, .call .reloadSchedules, .read 0 (some [nightly]), .read 1 (some [nightly]),
    .goOn 0, .goOn 0, .call .stopScheduler]

/-- A stop while the file is read. -/
def stopWhileReading : List SchedulerStep :=
  [.call .reloadSchedules, .call .stopScheduler, .read 0 (some [nightly]), .goOn 0]

/-- A task runs on that nothing can stop, and a task is created after the stop. -/
theorem scheduler_leaks :
    (∃ s, exec (schedulerNext lenient) Scheduler.initial twoReloads = some s ∧
        (s.calls = [] ∧ s.lastBegun = some .stopScheduler ∧ s.activeJobs.values = [] ∧
          s.running = [⟨0, "nightly"⟩])) ∧
      ∃ s, exec (schedulerNext lenient) Scheduler.initial stopWhileReading = some s ∧
        (s.calls = [] ∧ s.lastBegun = some .stopScheduler ∧ s.running = [⟨0, "nightly"⟩]) :=
  ⟨exists_exec (by decide), exists_exec (by decide)⟩

end RedFireForge.Server
