/-
# `RedFireForge.ApiMock.ServerPool` — the pool of mock servers

`start` looks at the entries, waits for the bind of its listener, and then registers it;
`stop` waits for its listener to drain.  Between the look and the registration other calls
run, so a listener can take the place of one that still accepts connections: nobody finds
that one again, and no call closes it.
-/
import RedFireForge.Lib.InsertionMap
import RedFireForge.Lib.Run

namespace RedFireForge.ApiMock

open RedFireForge.Lib

/-- Of a server definition, what the pool reads. -/
structure PoolDefinition where
  id : String
  port : ℕ
deriving DecidableEq, Repr

inductive ApiMockServerState
  | running | draining | stopped
deriving DecidableEq, Repr

inductive ListenerPhase
  /-- `start` waits for the bind -/
  | binding
  | refused
  | accepting
  /-- `stop` waits, and then a restart starts this definition -/
  | draining (next : Option PoolDefinition)
  | closed
deriving DecidableEq, Repr

/-- A listener; `state` and `generation` are those of the entry it is registered with. -/
structure PoolListener where
  serverId : String
  port : ℕ
  phase : ListenerPhase
  state : ApiMockServerState
  generation : ℕ
deriving DecidableEq, Repr

namespace PoolListener

def isRunning (a : PoolListener) : Bool := a.phase == .accepting

/-- `e.state !== 'stopped' || e.listener.isRunning()` -/
def holdsPort (a : PoolListener) : Bool := a.state != .stopped || a.isRunning

end PoolListener

/-- The listeners in the order of their creation, and the entry of each server id. -/
structure ServerPool where
  listeners : List PoolListener
  entries : InsertionMap String ℕ

namespace ServerPool

variable (s : ServerPool)

def initial : ServerPool := ⟨[], ∅⟩

def entry (serverId : String) : Option PoolListener :=
  (s.entries.lookup serverId).bind (s.listeners[·]?)

def entryList : List PoolListener := s.entries.values.filterMap (s.listeners[·]?)

def reservedPorts : List ℕ := (s.entryList.filter (·.holdsPort)).map PoolListener.port

def modify (i : ℕ) (f : PoolListener → PoolListener) : ServerPool :=
  { s with listeners := s.listeners.modify i f }

/-! ## The calls -/

/-- The server runs already, or its port is owned by another. -/
def startThrows (definition : PoolDefinition) : Bool :=
  (s.entry definition.id).any (·.isRunning) ||
    s.entryList.any (fun e => e.port == definition.port && e.serverId != definition.id && e.holdsPort)

def start (definition : PoolDefinition) : ServerPool :=
  if s.startThrows definition then s
  else
    { s with listeners := s.listeners ++ [⟨definition.id, definition.port, .binding, .running, 1⟩] }

/-- The bind of listener `i` has succeeded. -/
def register (i : ℕ) (serverId : String) : ServerPool :=
  { s.modify i (fun a => { a with phase := .accepting }) with entries := s.entries.set serverId i }

/-- `stop`, from which a restart goes on with a definition. -/
def stop (next : Option PoolDefinition) (serverId : String) : ServerPool :=
  match s.entries.lookup serverId with
  | none => s
  | some i =>
      s.modify i fun a =>
        if a.isRunning then { a with phase := .draining next, state := .draining }
        else { a with state := .stopped }

def restart (definition : PoolDefinition) : ServerPool :=
  if (s.entry definition.id).any (·.isRunning) then s.stop (some definition) definition.id
  else s.start definition

def stopAllAsync : ServerPool :=
  ((s.entryList.filter (·.isRunning)).map PoolListener.serverId).foldl (fun s id => s.stop none id) s

def commit (serverId : String) : ServerPool :=
  match s.entries.lookup serverId with
  | none => s
  | some i =>
      s.modify i fun a => if a.isRunning then { a with generation := a.generation + 1 } else a

end ServerPool

inductive PoolStep
  | start (definition : PoolDefinition)
  | stop (serverId : String)
  | restart (definition : PoolDefinition)
  | stopAllAsync
  | commit (serverId : String)
  /-- the bind of listener `i` is over -/
  | bound (i : ℕ) (ok : Bool)
  /-- listener `i` has drained -/
  | drained (i : ℕ)
deriving DecidableEq, Repr

open ServerPool in
/-- A bind may fail for any reason, and fails where a listener has the port; port 0 asks for any
that is free. -/
def poolNext : PoolStep → ServerPool → Option ServerPool
  | .start definition, s => some (s.start definition)
  | .stop serverId, s => some (s.stop none serverId)
  | .restart definition, s => some (s.restart definition)
  | .stopAllAsync, s => some s.stopAllAsync
  | .commit serverId, s => some (s.commit serverId)
  | .bound i ok, s => s.listeners[i]?.bind fun a =>
      if a.phase = .binding then
        if ok then
          if a.port != 0 && s.listeners.any (fun b => b.isRunning && b.port == a.port) then none
          else some (s.register i a.serverId)
        else some (s.modify i fun a => { a with phase := .refused })
      else none
  | .drained i, s => s.listeners[i]?.bind fun a =>
      match a.phase with
      | .draining next =>
          let stopped := s.modify i fun a => { a with phase := .closed, state := .stopped }
          some (match next with
            | some definition => stopped.start definition
            | none => stopped)
      | _ => none

namespace ServerPool

/-! ## A pool under control -/

/-- Listener `i` accepts connections. -/
def Accepts (s : ServerPool) (i : ℕ) (a : PoolListener) : Prop :=
  s.listeners[i]? = some a ∧ a.isRunning = true

/-- Every listener that accepts connections is that of the entry of its server. -/
def Owned (s : ServerPool) : Prop := ∀ i a, s.Accepts i a → s.entries.lookup a.serverId = some i

structure Controllable (s : ServerPool) : Prop where
  owned : s.Owned
  once : ∀ i j a b, s.Accepts i a → s.Accepts j b → a.serverId = b.serverId → i = j
  reserved : ∀ i a, s.Accepts i a → a.port ∈ s.reservedPorts
  stopped : ∀ i a, s.Accepts i a → ∀ b, ¬ (s.stop none a.serverId).Accepts i b
  allStopped : ∀ i a, ¬ s.stopAllAsync.Accepts i a
  startFails : ∀ definition, s.startThrows definition = true → s.start definition = s
  bindFails : ∀ i s', poolNext (.bound i false) s = some s' → s'.entries = s.entries

/-- No listener is bound while the entry of its server has another that accepts connections. -/
def bindsFree (l : PoolStep) (s : ServerPool) : Prop :=
  match l with
  | .bound i true => ∀ a ∈ s.listeners[i]?, ¬ (s.entry a.serverId).any (·.isRunning)
  | _ => True

instance (l : PoolStep) (s : ServerPool) : Decidable (bindsFree l s) := by
  unfold bindsFree
  split <;> infer_instance

/-- The entry of a server has a listener of it. -/
def Keyed (s : ServerPool) : Prop :=
  ∀ id i, s.entries.lookup id = some i → ∃ a, s.listeners[i]? = some a ∧ a.serverId = id

variable {s s' t : ServerPool} {i : ℕ} {a b : PoolListener} {l : PoolStep}

theorem modify_get {f : PoolListener → PoolListener} {j : ℕ} :
    (s.modify i f).listeners[j]? = (s.listeners[j]?).map (fun a => if i = j then f a else a) := by
  show (s.listeners.modify i f)[j]? = _
  rw [List.getElem?_modify]
  split <;> rfl

/-- No entry changes, no listener comes to accept connections, and none changes its server. -/
structure Shrinks (s s' : ServerPool) : Prop where
  entries : s'.entries = s.entries
  accepts : ∀ i a', s'.Accepts i a' → ∃ a, s.Accepts i a ∧ a.serverId = a'.serverId
  keeps : ∀ (i : ℕ) a, s.listeners[i]? = some a →
    ∃ a', s'.listeners[i]? = some a' ∧ a'.serverId = a.serverId

theorem Shrinks.refl : s.Shrinks s := ⟨rfl, fun _ a h => ⟨a, h, rfl⟩, fun _ a h => ⟨a, h, rfl⟩⟩

theorem Shrinks.trans (h : s.Shrinks s') (h' : s'.Shrinks t) : s.Shrinks t where
  entries := h'.entries.trans h.entries
  accepts := by
    intro i c hc
    obtain ⟨b, hb, hid'⟩ := h'.accepts i c hc
    obtain ⟨a, ha, hid⟩ := h.accepts i b hb
    exact ⟨a, ha, hid.trans hid'⟩
  keeps := by
    intro i a ha
    obtain ⟨b, hb, hid⟩ := h.keeps i a ha
    obtain ⟨c, hc, hid'⟩ := h'.keeps i b hb
    exact ⟨c, hc, hid'.trans hid⟩

theorem shrinks_modify {f : PoolListener → PoolListener} (hid : ∀ a, (f a).serverId = a.serverId)
    (hrun : ∀ a, (f a).isRunning = true → a.isRunning = true) : s.Shrinks (s.modify i f) where
  entries := rfl
  accepts := by
    rintro j a' ⟨hget, hlive⟩
    rw [modify_get] at hget
    obtain ⟨a, ha, rfl⟩ := Option.map_eq_some_iff.mp hget
    refine ⟨a, ⟨ha, ?_⟩, ?_⟩
    · split at hlive
      next => exact hrun a hlive
      next => exact hlive
    · split
      next => exact (hid a).symm
      next => rfl
  keeps := by
    intro j a ha
    refine ⟨_, by rw [modify_get, ha]; rfl, ?_⟩
    split
    next => exact hid a
    next => rfl

theorem shrinks_start (definition : PoolDefinition) : s.Shrinks (s.start definition) := by
  unfold start
  split
  next => exact .refl
  next =>
    refine ⟨rfl, ?_, ?_⟩
    · rintro j a' ⟨hget, hlive⟩
      have hget : (s.listeners ++ [_])[j]? = some a' := hget
      rw [List.getElem?_append] at hget
      split at hget
      next => exact ⟨a', ⟨hget, hlive⟩, rfl⟩
      next =>
        rw [List.getElem?_singleton] at hget
        split at hget
        next =>
          cases hget
          cases hlive
        next => cases hget
    · intro j a ha
      refine ⟨a, ?_, rfl⟩
      show (s.listeners ++ [_])[j]? = some a
      rw [List.getElem?_append_left (List.getElem?_eq_some_iff.mp ha).1, ha]

theorem shrinks_stop (next : Option PoolDefinition) (serverId : String) :
    s.Shrinks (s.stop next serverId) := by
  unfold stop
  split
  next => exact .refl
  next j _ =>
    refine shrinks_modify ?_ ?_
    · intro a
      split <;> rfl
    · intro a h
      split at h
      next => cases h
      next => exact h

theorem shrinks_restart (definition : PoolDefinition) : s.Shrinks (s.restart definition) := by
  unfold restart
  split
  next => exact shrinks_stop _ _
  next => exact shrinks_start _

theorem shrinks_stops (ids : List String) : s.Shrinks (ids.foldl (fun s id => s.stop none id) s) := by
  induction ids generalizing s with
  | nil => exact .refl
  | cons id ids ih => exact (shrinks_stop none id).trans ih

theorem shrinks_commit (serverId : String) : s.Shrinks (s.commit serverId) := by
  unfold commit
  split
  next => exact .refl
  next j _ =>
    refine shrinks_modify ?_ ?_
    · intro a
      split <;> rfl
    · intro a h
      split at h
      next hlive => exact hlive
      next => exact h

/-- A step registers listener `i`, or it shrinks the pool. -/
theorem next_cases (h : poolNext l s = some s') :
    (∃ i a, l = .bound i true ∧ s.listeners[i]? = some a ∧ a.phase = .binding ∧
        s' = s.register i a.serverId) ∨
      (∀ i, l ≠ .bound i true) ∧ s.Shrinks s' := by
  cases l with
  | start definition => exact Or.inr ⟨nofun, Option.some.inj h ▸ shrinks_start definition⟩
  | stop serverId => exact Or.inr ⟨nofun, Option.some.inj h ▸ shrinks_stop none serverId⟩
  | restart definition => exact Or.inr ⟨nofun, Option.some.inj h ▸ shrinks_restart definition⟩
  | stopAllAsync => exact Or.inr ⟨nofun, Option.some.inj h ▸ shrinks_stops _⟩
  | commit serverId => exact Or.inr ⟨nofun, Option.some.inj h ▸ shrinks_commit serverId⟩
  | bound i ok =>
      obtain ⟨a, ha, h⟩ := Option.bind_eq_some_iff.mp h
      split at h
      next hphase =>
        cases ok with
        | true =>
            refine Or.inl ⟨i, a, rfl, ha, hphase, ?_⟩
            simp only [if_true] at h
            split at h
            next => cases h
            next => exact (Option.some.inj h).symm
        | false =>
            cases h
            exact Or.inr ⟨nofun, shrinks_modify (fun _ => rfl) (fun _ hlive => by cases hlive)⟩
      next => cases h
  | drained i =>
      obtain ⟨a, ha, h⟩ := Option.bind_eq_some_iff.mp h
      refine Or.inr ⟨nofun, ?_⟩
      split at h
      next next _ =>
        have hstopped : s.Shrinks (s.modify i fun a => { a with phase := .closed, state := .stopped }) :=
          shrinks_modify (fun _ => rfl) (fun _ hlive => by cases hlive)
        cases h
        cases next with
        | none => exact hstopped
        | some definition => exact hstopped.trans (shrinks_start definition)
      next => cases h

/-! ## What holds in every run -/

theorem Keyed.shrinks (h : s.Keyed) (hs : s.Shrinks s') : s'.Keyed := by
  intro id i hid
  rw [hs.entries] at hid
  obtain ⟨a, ha, hserver⟩ := h id i hid
  obtain ⟨a', ha', hsame⟩ := hs.keeps i a ha
  exact ⟨a', ha', hsame.trans hserver⟩

theorem Owned.shrinks (h : s.Owned) (hs : s.Shrinks s') : s'.Owned := by
  intro i a' ha'
  obtain ⟨a, ha, hid⟩ := hs.accepts i a' ha'
  rw [hs.entries, ← hid]
  exact h i a ha

theorem register_get {serverId : String} {j : ℕ} : (s.register i serverId).listeners[j]? =
    (s.listeners[j]?).map (fun a => if i = j then { a with phase := .accepting } else a) :=
  modify_get

theorem register_lookup {serverId id : String} : (s.register i serverId).entries.lookup id =
    if id = serverId then some i else s.entries.lookup id :=
  InsertionMap.lookup_set

theorem Keyed.register (h : s.Keyed) (ha : s.listeners[i]? = some a) : (s.register i a.serverId).Keyed := by
  intro id j hid
  rw [register_lookup] at hid
  have hkeep : ∀ (j : ℕ) b, s.listeners[j]? = some b → ∃ b',
      (s.register i a.serverId).listeners[j]? = some b' ∧ b'.serverId = b.serverId := by
    intro j b hb
    refine ⟨_, by rw [register_get, hb]; rfl, ?_⟩
    split <;> rfl
  split at hid
  next heq =>
    cases hid
    obtain ⟨a', ha', hserver⟩ := hkeep i a ha
    exact ⟨a', ha', hserver.trans heq.symm⟩
  next =>
    obtain ⟨b, hb, hserver⟩ := h id j hid
    obtain ⟨b', hb', hsame⟩ := hkeep j b hb
    exact ⟨b', hb', hsame.trans hserver⟩

/-- Listener `i` takes the place of no listener that accepts connections. -/
theorem Owned.register (h : s.Owned) (ha : s.listeners[i]? = some a)
    (hfree : ¬ (s.entry a.serverId).any (·.isRunning) = true) : (s.register i a.serverId).Owned := by
  rintro j b ⟨hget, hlive⟩
  rw [register_get] at hget
  obtain ⟨b', hb', rfl⟩ := Option.map_eq_some_iff.mp hget
  rw [register_lookup]
  by_cases hij : i = j
  · subst hij
    rw [hb'] at ha
    cases ha
    simp
  · rw [if_neg hij] at hlive ⊢
    have hold := h j b' ⟨hb', hlive⟩
    rw [if_neg ?_, hold]
    intro hsame
    refine hfree ?_
    rw [entry, ← hsame, hold, Option.bind_some, hb']
    exact hlive

/-- Where the listener of the entry accepts connections, it is not the one that is bound. -/
theorem Owned.free (hk : s.Keyed) (ha : s.listeners[i]? = some a) (hphase : a.phase = .binding)
    (h : (s.register i a.serverId).Owned) : ¬ (s.entry a.serverId).any (·.isRunning) = true := by
  intro hany
  obtain ⟨b, hentry, hlive⟩ := (Option.any_eq_true _ _).mp hany
  obtain ⟨j, hj, hb⟩ := Option.bind_eq_some_iff.mp hentry
  have hne : i ≠ j := by
    rintro rfl
    rw [ha] at hb
    cases hb
    rw [PoolListener.isRunning, hphase] at hlive
    cases hlive
  obtain ⟨b', hb', hserver⟩ := hk _ _ hj
  rw [hb] at hb'
  cases hb'
  have hstill := h j b ⟨by rw [register_get, hb, Option.map_some, if_neg hne], hlive⟩
  rw [hserver, register_lookup, if_pos rfl] at hstill
  exact hne (Option.some.inj hstill)

/-- **A step** leaves every listener that accepts connections with its entry exactly if it binds
none in the place of another. -/
theorem step_owned (hk : s.Keyed) (ho : s.Owned) (h : poolNext l s = some s') :
    (bindsFree l s → s'.Keyed ∧ s'.Owned) ∧ (s'.Owned → bindsFree l s) := by
  rcases next_cases h with ⟨i, a, rfl, ha, hphase, rfl⟩ | ⟨hl, hs⟩
  · refine ⟨fun hok => ⟨hk.register ha, ho.register ha (hok a ha)⟩, fun ho' b hb => ?_⟩
    rw [Option.mem_def, ha] at hb
    cases hb
    exact Owned.free hk ha hphase ho'
  · refine ⟨fun _ => ⟨hk.shrinks hs, ho.shrinks hs⟩, fun _ => ?_⟩
    unfold bindsFree
    split
    next i => exact absurd rfl (hl i)
    next => trivial

/-! ## What an owned listener answers to -/

theorem Owned.once (h : s.Owned) : ∀ i j a b, s.Accepts i a → s.Accepts j b → a.serverId = b.serverId →
    i = j := by
  intro i j a b ha hb hsame
  have hi := h i a ha
  rw [hsame, h j b hb] at hi
  exact (Option.some.inj hi).symm

theorem Owned.mem_entryList (h : s.Owned) (ha : s.Accepts i a) : a ∈ s.entryList := by
  refine List.mem_filterMap.mpr ⟨i, ?_, ha.1⟩
  exact InsertionMap.mem_values.mpr ⟨a.serverId, h i a ha⟩

theorem Owned.reserved (h : s.Owned) (ha : s.Accepts i a) : a.port ∈ s.reservedPorts := by
  refine List.mem_map.mpr ⟨a, List.mem_filter.mpr ⟨h.mem_entryList ha, ?_⟩, rfl⟩
  rw [PoolListener.holdsPort, ha.2, Bool.or_true]

theorem stop_none (id : String) (h : s.entries.lookup id = some i) : ¬ (s.stop none id).Accepts i a := by
  rintro ⟨hget, hlive⟩
  rw [stop, h] at hget
  dsimp only at hget
  rw [modify_get] at hget
  obtain ⟨b, -, rfl⟩ := Option.map_eq_some_iff.mp hget
  simp only [if_true] at hlive
  split at hlive
  next => cases hlive
  next hnot => exact hnot hlive

theorem stops_none {ids : List String} (h : s.Owned) :
    ∀ i b, (ids.foldl (fun s id => s.stop none id) s).Accepts i b → b.serverId ∉ ids := by
  induction ids generalizing s with
  | nil => exact fun _ _ _ => List.not_mem_nil
  | cons id ids ih =>
      intro i b hb
      have hs := shrinks_stop (s := s) none id
      rw [List.foldl_cons] at hb
      rw [List.mem_cons, not_or]
      refine ⟨?_, ih (h.shrinks hs) i b hb⟩
      rintro rfl
      obtain ⟨c, hc, hid⟩ := (shrinks_stops (s := s.stop none b.serverId) ids).accepts i b hb
      obtain ⟨a, ha, hid'⟩ := hs.accepts i c hc
      have hlookup := h i a ha
      rw [hid', hid] at hlookup
      exact stop_none _ hlookup hc

theorem Owned.controllable (h : s.Owned) : s.Controllable where
  owned := h
  once := h.once
  reserved := fun i a ha => h.reserved ha
  stopped := fun i a ha b hb => by
    obtain ⟨c, hc, hid⟩ := (shrinks_stop (s := s) none a.serverId).accepts i b hb
    exact stop_none _ (h i a ha) hb
  allStopped := by
    intro i b hb
    obtain ⟨a, ha, hid⟩ := (shrinks_stops _).accepts i b hb
    refine stops_none h i b hb (List.mem_map.mpr ⟨a, ?_, hid⟩)
    exact List.mem_filter.mpr ⟨h.mem_entryList ha, ha.2⟩
  startFails := fun definition hthrows => if_pos hthrows
  bindFails := by
    intro i s' hs
    rcases next_cases hs with ⟨_, _, heq, _⟩ | ⟨-, hs⟩
    · cases heq
    · exact hs.entries

end ServerPool

/-! ## Listeners under control -/

/-- **Every listening mock is controllable exactly if** no listener is bound while the entry of
its server has another that accepts connections. -/
theorem listeners_controllable (ls : List PoolStep) (s : ServerPool)
    (hrun : exec poolNext ServerPool.initial ls = some s) :
    (∀ ls' u, ls' <+: ls → exec poolNext ServerPool.initial ls' = some u → u.Controllable) ↔
      AllSteps poolNext ServerPool.bindsFree ServerPool.initial ls := by
  have hinitial : ServerPool.initial.Keyed ∧ ServerPool.initial.Owned :=
    ⟨fun _ _ h => (nomatch h), fun _ _ h => nomatch h.1⟩
  refine exec_forall_iff (I := fun s => s.Keyed ∧ s.Owned) (fun s hI => hI.2.controllable) ?_ hinitial hrun
  rintro l s s' ⟨hk, ho⟩ h
  obtain ⟨hkeeps, hneeds⟩ := ServerPool.step_owned hk ho h
  exact ⟨hkeeps, fun hc => hneeds hc.owned⟩

/-- Two servers run, one is restarted while the other is stopped. -/
def twoServers : List PoolStep :=
  [.start ⟨"gold", 4001⟩, .start ⟨"silver", 4002⟩, .bound 1 true, .bound 0 true,
    .restart ⟨"gold", 4003⟩, .stop "silver", .drained 0, .drained 1, .bound 2 true]

theorem listeners_controllable_twoServers :
    ∃ s, exec poolNext ServerPool.initial twoServers = some s ∧ s.Controllable ∧
      s.entries.lookup "gold" = some 2 := by
  obtain ⟨s, hrun, hentry⟩ : ∃ s, exec poolNext ServerPool.initial twoServers = some s ∧
      s.entries.lookup "gold" = some 2 := exists_exec (by decide)
  exact ⟨s, hrun, (listeners_controllable twoServers s hrun).mpr (by decide) twoServers s
    (List.prefix_refl _) hrun, hentry⟩

/-- Two starts of one server on two ports, and a stop. -/
def startedTwice : List PoolStep :=
  [.start ⟨"gold", 4001⟩, .start ⟨"gold", 4002⟩, .bound 0 true, .bound 1 true, .stopAllAsync, .drained 1]

/-- A listener accepts connections after `stopAllAsync`, and its port is not reserved. -/
theorem listener_uncontrolled :
    ∃ s, exec poolNext ServerPool.initial startedTwice = some s ∧
      s.Accepts 0 ⟨"gold", 4001, .accepting, .running, 1⟩ ∧ 4001 ∉ s.reservedPorts ∧ ¬ s.Controllable := by
  obtain ⟨s, hrun, hget, hport⟩ : ∃ s, exec poolNext ServerPool.initial startedTwice = some s ∧
      (s.listeners[0]? = some ⟨"gold", 4001, .accepting, .running, 1⟩ ∧ 4001 ∉ s.reservedPorts) :=
    exists_exec (by decide)
  have haccepts : s.Accepts 0 ⟨"gold", 4001, .accepting, .running, 1⟩ := ⟨hget, rfl⟩
  exact ⟨s, hrun, haccepts, hport, fun hc => hport (hc.reserved _ _ haccepts)⟩

end RedFireForge.ApiMock
