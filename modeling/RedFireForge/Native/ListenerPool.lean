/-
# `RedFireForge.Native.ListenerPool` — starting and stopping native listeners

The pool has an entry for each server id.  A start looks at the pool, binds, and then enters
its listener, and the lock is free in between; the entry that it writes over is dropped with
the token of its listener, and dropping a token cancels nothing.
-/
import RedFireForge.Lib.InsertionMap
import RedFireForge.Lib.Run

namespace RedFireForge.Native.ListenerPool

open RedFireForge.Lib

/-! ## State -/

/-- A spawned listener: the port of its socket, whether its stop token is cancelled and whether
the socket is open. -/
structure Listener where
  serverId : String
  bound : ℕ
  cancelled : Bool
  isOpen : Bool
deriving DecidableEq, Repr

/-- The listener of an entry is a number among all that were spawned; `defId` is the id in the
shared definition, which a commit replaces. -/
structure NativeEntry where
  port : ℕ
  running : Bool
  defId : String
  listener : ℕ
deriving DecidableEq, Repr

def NativeEntry.stopped (entry : NativeEntry) : NativeEntry := { entry with running := false }

/-- `stop.cancel()` -/
def cancelListener (ls : List Listener) (k : ℕ) : List Listener := ls.modify k fun l => { l with cancelled := true }

inductive NativeError
  | validation
  | alreadyRunning (port : ℕ)
  | portOwned (owner : String)
  | notStarted
deriving DecidableEq, Repr

/-- Where a start or a restart is: before the stop of a restart, the look at the pool, the bind
and the registration. -/
inductive Phase
  | stopping
  | checking
  | binding
  | registering (listener : ℕ)
  | running
  | failed (error : NativeError)
deriving DecidableEq, Repr

structure StartCall where
  id : String
  port : ℕ
  replacing : Bool
  phase : Phase
deriving DecidableEq, Repr

structure NativeState where
  pool : InsertionMap String NativeEntry
  listeners : List Listener
  calls : List StartCall

def NativeState.initial : NativeState := ⟨∅, [], []⟩

/-- The white space that `trim` takes off. -/
def isWhiteSpace (c : Char) : Bool :=
  (0x9 ≤ c.toNat && c.toNat ≤ 0xd) || (0x2000 ≤ c.toNat && c.toNat ≤ 0x200a) ||
    c.toNat ∈ [0x20, 0x85, 0xa0, 0x1680, 0x2028, 0x2029, 0x202f, 0x205f, 0x3000]

/-! ## Operations -/

namespace NativeState

variable (s : NativeState)

/-- The critical section of `stop`; a stop of what is not there changes nothing. -/
def stop (serverId : String) : NativeState :=
  match s.pool.lookup serverId with
  | none => s
  | some entry =>
      { s with pool := s.pool.set serverId entry.stopped, listeners := cancelListener s.listeners entry.listener }

def shutdownAll : NativeState :=
  { s with
    pool := s.pool.map NativeEntry.stopped
    listeners := s.pool.values.foldl (fun ls entry => cancelListener ls entry.listener) s.listeners }

def commit (serverId : String) (defId : String) : NativeState :=
  match s.pool.lookup serverId with
  | none => s
  | some entry => if entry.running then { s with pool := s.pool.set serverId { entry with defId := defId } } else s

/-- The first critical section of `start_inner`; which of several owners is named is left open by the map. -/
def check (c : StartCall) : Phase :=
  if c.id.toList.all isWhiteSpace then .failed .validation
  else
    match (s.pool.lookup c.id).filter fun existing => !c.replacing && existing.running with
    | some existing => .failed (.alreadyRunning existing.port)
    | none =>
        match s.pool.values.find? fun e => e.running && e.port = c.port && e.defId ≠ c.id with
        | some owner => .failed (.portOwned owner.defId)
        | none => .binding

/-- A bind asks for a port that no open socket has; for port `0` the system chooses one. -/
def MayBind (requested bound : ℕ) : Prop :=
  (if requested = 0 then bound ≠ 0 else bound = requested) ∧ ∀ l ∈ s.listeners, l.isOpen → l.bound ≠ bound

instance (requested bound : ℕ) : Decidable (s.MayBind requested bound) :=
  inferInstanceAs (Decidable (_ ∧ _))

def setPhase (n : ℕ) (c : StartCall) (phase : Phase) : List StartCall := s.calls.set n { c with phase := phase }

def register (c : StartCall) (listener : ℕ) : InsertionMap String NativeEntry :=
  s.pool.set c.id ⟨c.port, true, c.id, listener⟩

end NativeState

/-- A call comes, a critical section, a bind, or the end of a listener's task. -/
inductive Step
  | start (id : String) (port : ℕ)
  | restart (id : String) (port : ℕ)
  | stopFirst (n : ℕ)
  | check (n : ℕ)
  | bind (n : ℕ) (bound : ℕ)
  | fail (n : ℕ)
  | register (n : ℕ)
  | stop (serverId : String)
  | commit (serverId defId : String)
  | shutdownAll
  | close (k : ℕ)
deriving DecidableEq, Repr

namespace NativeState

def callStep (s : NativeState) (n : ℕ) (f : StartCall → Option NativeState) : Option NativeState :=
  s.calls[n]?.bind f

def next : Step → NativeState → Option NativeState
  | .start id port, s => some { s with calls := s.calls ++ [⟨id, port, false, .checking⟩] }
  | .restart id port, s => some { s with calls := s.calls ++ [⟨id, port, true, .stopping⟩] }
  | .stopFirst n, s => s.callStep n fun c =>
      match c.phase with
      | .stopping => some { s.stop c.id with calls := s.setPhase n c .checking }
      | _ => none
  | .check n, s => s.callStep n fun c =>
      match c.phase with
      | .checking => some { s with calls := s.setPhase n c (s.check c) }
      | _ => none
  | .bind n bound, s => s.callStep n fun c =>
      match c.phase with
      | .binding =>
          if s.MayBind c.port bound then
            some { s with
              listeners := s.listeners ++ [⟨c.id, bound, false, true⟩]
              calls := s.setPhase n c (.registering s.listeners.length) }
          else none
      | _ => none
  -- The bind fails, or the certificates before it.
  | .fail n, s => s.callStep n fun c =>
      match c.phase with
      | .binding => some { s with calls := s.setPhase n c (.failed .notStarted) }
      | _ => none
  | .register n, s => s.callStep n fun c =>
      match c.phase with
      | .registering k => some { s with pool := s.register c k, calls := s.setPhase n c .running }
      | _ => none
  | .stop serverId, s => some (s.stop serverId)
  | .commit serverId defId, s => some (s.commit serverId defId)
  | .shutdownAll, s => some s.shutdownAll
  -- A task ends when its token is cancelled, and not before.
  | .close k, s =>
      if (s.listeners[k]?).any (·.cancelled) then
        some { s with listeners := s.listeners.modify k fun l => { l with isOpen := false } }
      else none

end NativeState

/-! ## What the pool promises -/

/-- A start has spawned the listener and is about to enter it. -/
def Starting (s : NativeState) (k : ℕ) : Prop := ∃ c ∈ s.calls, c.phase = .registering k

def isCancelled (ls : List Listener) (k : ℕ) : Bool := ls[k]?.any (·.cancelled)

structure Controllable (s : NativeState) : Prop where
  entered : ∀ (k : ℕ) l, s.listeners[k]? = some l → l.cancelled = false →
    Starting s k ∨ ∃ e, s.pool.lookup l.serverId = some e ∧ e.listener = k
  stops : ∀ id e, s.pool.lookup id = some e →
    isCancelled (s.stop id).listeners e.listener ∧ isCancelled s.shutdownAll.listeners e.listener
  ports : ∀ id id' e e', s.pool.lookup id = some e → s.pool.lookup id' = some e' → e.running → e'.running →
    e.port = e'.port → id = id'

/-- Of such steps a start consists that fails. -/
def Step.isAttempt : Step → Bool
  | .check _ | .bind _ _ | .fail _ => true
  | _ => false

def Controlled (l : Step) (s : NativeState) : Prop :=
  ∀ s', NativeState.next l s = some s' → Controllable s' ∧ (l.isAttempt → s'.pool = s.pool)

/-- A listener is entered where no other of its id runs; for port `0`, where none runs for that port. -/
def Unclaimed : Step → NativeState → Prop
  | .register n, s => ∀ c k, s.calls[n]? = some c → c.phase = .registering k →
      ∀ id e, s.pool.lookup id = some e → e.running → id ≠ c.id ∧ (c.port = 0 → e.port ≠ 0)
  | _, _ => True

/-! ## Listeners -/

section Listeners

variable {ls : List Listener} {l : Listener} {j k : ℕ} {es : List NativeEntry}

theorem getElem?_cancelListener : (cancelListener ls k)[j]? =
    ls[j]?.map fun l => if j = k then { l with cancelled := true } else l := by
  rw [cancelListener, List.getElem?_modify]
  by_cases hjk : k = j
  · subst hjk
    simp
  · simp [hjk, Ne.symm hjk]

theorem getElem?_foldl_cancelListener :
    (es.foldl (fun ls e => cancelListener ls e.listener) ls)[j]? =
      ls[j]?.map fun l => if ∃ e ∈ es, e.listener = j then { l with cancelled := true } else l := by
  induction es generalizing ls with
  | nil => simp
  | cons e es ih =>
      rw [List.foldl_cons, ih, getElem?_cancelListener, Option.map_map]
      congr 1
      funext l
      by_cases he : j = e.listener
      · subst he
        by_cases hes : ∃ e' ∈ es, e'.listener = e.listener
        · simp [hes]
        · simp [hes]
      · have he' : e.listener ≠ j := Ne.symm he
        simp [he, he']

end Listeners

/-! ## The pool between two steps

`Reg n id port k` says that call `n` is about to enter listener `k` for `id`. -/

structure Core (pool : InsertionMap String NativeEntry) (listeners : List Listener)
    (Reg : ℕ → String → ℕ → ℕ → Prop) : Prop where
  entries : ∀ id e, pool.lookup id = some e → ∃ l, listeners[e.listener]? = some l ∧ l.serverId = id ∧
    e.running = !l.cancelled ∧ (e.port ≠ 0 → l.bound = e.port)
  registering : ∀ n id port k, Reg n id port k → ∃ l, listeners[k]? = some l ∧ l.serverId = id ∧
    l.cancelled = false ∧ (port ≠ 0 → l.bound = port)
  apart : ∀ n id port k, Reg n id port k → ∀ id' e, pool.lookup id' = some e → e.listener ≠ k
  once : ∀ n n' id id' port port' k, Reg n id port k → Reg n' id' port' k → n = n'
  sockets : ∀ (k : ℕ) l, listeners[k]? = some l → l.cancelled = false → l.isOpen
  bound : ∀ (j k : ℕ) l l', listeners[j]? = some l → listeners[k]? = some l' → l.isOpen → l'.isOpen →
    l.bound = l'.bound → j = k
  entered : ∀ (k : ℕ) l, listeners[k]? = some l → l.cancelled = false →
    (∃ n id port, Reg n id port k) ∨ ∃ e, pool.lookup l.serverId = some e ∧ e.listener = k
  zero : ∀ id id' e e', pool.lookup id = some e → pool.lookup id' = some e' → e.running → e'.running →
    e.port = 0 → e'.port = 0 → id = id'

namespace Core

variable {pool pool' : InsertionMap String NativeEntry} {listeners listeners' : List Listener}
  {Reg Reg' : ℕ → String → ℕ → ℕ → Prop} {n k port b : ℕ} {id : String}

theorem ports (h : Core pool listeners Reg) {id id' : String} {e e' : NativeEntry} (he : pool.lookup id = some e)
    (he' : pool.lookup id' = some e') (hrun : e.running) (hrun' : e'.running) (hport : e.port = e'.port) :
    id = id' := by
  by_cases hzero : e.port = 0
  · exact h.zero id id' e e' he he' hrun hrun' hzero (hport ▸ hzero)
  · obtain ⟨l, hl, hid, hcan, hbound⟩ := h.entries id e he
    obtain ⟨l', hl', hid', hcan', hbound'⟩ := h.entries id' e' he'
    rw [hrun, Eq.comm, Bool.not_eq_true'] at hcan
    rw [hrun', Eq.comm, Bool.not_eq_true'] at hcan'
    have hsame : l.bound = l'.bound := by
      rw [hbound hzero, hbound' (hport ▸ hzero), hport]
    have hjk := h.bound _ _ l l' hl hl' (h.sockets _ l hl hcan) (h.sockets _ l' hl' hcan') hsame
    rw [hjk, hl'] at hl
    rw [← hid, ← hid', Option.some.inj hl]

theorem congr (h : Core pool listeners Reg) (hreg : ∀ n id port k, Reg' n id port k ↔ Reg n id port k) :
    Core pool listeners Reg' := by
  have heq : Reg' = Reg := by
    funext n id port k
    exact propext (hreg n id port k)
  rwa [heq]

/-- Entries of some ids are stopped and their listeners cancelled. -/
theorem stops (h : Core pool listeners Reg) (A : String → Prop) [DecidablePred A]
    (hpool : ∀ id, pool'.lookup id = (pool.lookup id).map fun e => if A id then e.stopped else e)
    (hlist : ∀ k l', listeners'[k]? = some l' → ∃ l, listeners[k]? = some l ∧
      ((∃ id e, A id ∧ pool.lookup id = some e ∧ e.listener = k) ∧ l' = { l with cancelled := true } ∨
        (¬ ∃ id e, A id ∧ pool.lookup id = some e ∧ e.listener = k) ∧ l' = l))
    (hlen : listeners'.length = listeners.length) : Core pool' listeners' Reg := by
  have hsame : ∀ (k : ℕ) l, listeners[k]? = some l → ∃ l', listeners'[k]? = some l' := by
    intro k l hl
    have hk : k < listeners'.length := hlen ▸ (List.getElem?_eq_some_iff.mp hl).1
    exact ⟨_, List.getElem?_eq_getElem hk⟩
  have hold : ∀ (k : ℕ) l', listeners'[k]? = some l' → l'.cancelled = false → listeners[k]? = some l' := by
    intro k l' hl' hcan
    obtain ⟨l, hl, ⟨-, rfl⟩ | ⟨-, rfl⟩⟩ := hlist k l' hl'
    · cases hcan
    · exact hl
  refine ⟨?_, ?_, ?_, h.once, ?_, ?_, ?_, ?_⟩
  · intro id e' he'
    rw [hpool, Option.map_eq_some_iff] at he'
    obtain ⟨e, he, rfl⟩ := he'
    obtain ⟨l, hl, hid, hrun, hbound⟩ := h.entries id e he
    obtain ⟨l', hl'⟩ := hsame _ l hl
    by_cases hA : A id
    · rw [if_pos hA]
      refine ⟨l', hl', ?_⟩
      obtain ⟨l₁, hl₁, ⟨-, rfl⟩ | ⟨hno, -⟩⟩ := hlist _ l' hl'
      · obtain rfl := Option.some.inj (hl₁.symm.trans hl)
        exact ⟨hid, rfl, hbound⟩
      · exact absurd ⟨id, e, hA, he, rfl⟩ hno
    · rw [if_neg hA]
      refine ⟨l', hl', ?_⟩
      obtain ⟨l₁, hl₁, ⟨⟨id₂, e₂, hA₂, he₂, hlis⟩, -⟩ | ⟨-, rfl⟩⟩ := hlist _ l' hl'
      · obtain ⟨l₂, hl₂, hid₂, -⟩ := h.entries id₂ e₂ he₂
        rw [hlis, hl] at hl₂
        obtain rfl := Option.some.inj hl₂
        exact absurd (hid ▸ hid₂ ▸ hA₂) hA
      · obtain rfl := Option.some.inj (hl₁.symm.trans hl)
        exact ⟨hid, hrun, hbound⟩
  · intro n id port k hreg
    obtain ⟨l, hl, hid, hcan, hbound⟩ := h.registering n id port k hreg
    obtain ⟨l', hl'⟩ := hsame k l hl
    obtain ⟨l₁, hl₁, ⟨⟨id₂, e₂, -, he₂, hlis⟩, -⟩ | ⟨-, rfl⟩⟩ := hlist k l' hl'
    · exact absurd hlis (h.apart n id port k hreg id₂ e₂ he₂)
    · obtain rfl := Option.some.inj (hl₁.symm.trans hl)
      exact ⟨l', hl', hid, hcan, hbound⟩
  · intro n id port k hreg id' e' he'
    rw [hpool, Option.map_eq_some_iff] at he'
    obtain ⟨e, he, rfl⟩ := he'
    have hne := h.apart n id port k hreg id' e he
    split
    next => exact hne
    next => exact hne
  · intro k l' hl' hcan
    exact h.sockets k l' (hold k l' hl' hcan) hcan
  · intro j k l l' hl hl' hopen hopen' hbound
    obtain ⟨l₁, hl₁, hcase⟩ := hlist j l hl
    obtain ⟨l₂, hl₂, hcase'⟩ := hlist k l' hl'
    refine h.bound j k l₁ l₂ hl₁ hl₂ ?_ ?_ ?_
    all_goals rcases hcase with ⟨-, rfl⟩ | ⟨-, rfl⟩ <;> rcases hcase' with ⟨-, rfl⟩ | ⟨-, rfl⟩ <;> assumption
  · intro k l' hl' hcan
    rcases h.entered k l' (hold k l' hl' hcan) hcan with hreg | ⟨e, he, hlis⟩
    · exact .inl hreg
    · refine .inr ⟨if A l'.serverId then e.stopped else e, by rw [hpool, he, Option.map_some], ?_⟩
      split
      next => exact hlis
      next => exact hlis
  · intro id id' e e' he he' hrun hrun' hport hport'
    rw [hpool, Option.map_eq_some_iff] at he he'
    obtain ⟨e₁, he₁, rfl⟩ := he
    obtain ⟨e₂, he₂, rfl⟩ := he'
    split at hrun
    next => cases hrun
    next hA =>
      split at hrun'
      next => cases hrun'
      next hA' =>
        rw [if_neg hA] at hport
        rw [if_neg hA'] at hport'
        exact h.zero id id' e₁ e₂ he₁ he₂ hrun hrun' hport hport'

/-- A commit changes the definition of an entry and nothing that is said here. -/
theorem commit (h : Core pool listeners Reg) (hpool : ∀ id e', pool'.lookup id = some e' →
      ∃ e, pool.lookup id = some e ∧ e'.port = e.port ∧ e'.running = e.running ∧ e'.listener = e.listener)
    (hback : ∀ id e, pool.lookup id = some e → ∃ e', pool'.lookup id = some e' ∧ e'.listener = e.listener) :
    Core pool' listeners Reg := by
  refine ⟨?_, h.registering, ?_, h.once, h.sockets, h.bound, ?_, ?_⟩
  · intro id e' he'
    obtain ⟨e, he, hport, hrun, hlis⟩ := hpool id e' he'
    rw [hport, hrun, hlis]
    exact h.entries id e he
  · intro n id port k hreg id' e' he'
    obtain ⟨e, he, -, -, hlis⟩ := hpool id' e' he'
    rw [hlis]
    exact h.apart n id port k hreg id' e he
  · intro k l hl hcan
    refine (h.entered k l hl hcan).imp_right ?_
    rintro ⟨e, he, hlis⟩
    obtain ⟨e', he', hlis'⟩ := hback _ e he
    exact ⟨e', he', hlis'.trans hlis⟩
  · intro id id' e e' he he' hrun hrun' hport hport'
    obtain ⟨e₁, he₁, hp₁, hr₁, -⟩ := hpool id e he
    obtain ⟨e₂, he₂, hp₂, hr₂, -⟩ := hpool id' e' he'
    exact h.zero id id' e₁ e₂ he₁ he₂ (hr₁ ▸ hrun) (hr₂ ▸ hrun') (hp₁ ▸ hport) (hp₂ ▸ hport')

/-- The task of a cancelled listener ends, and its port is free. -/
theorem close (h : Core pool listeners Reg) (hk : isCancelled listeners k) :
    Core pool (listeners.modify k fun l => { l with isOpen := false }) Reg := by
  have hlist : ∀ (j : ℕ) l', (listeners.modify k fun l => { l with isOpen := false })[j]? = some l' →
      ∃ l, listeners[j]? = some l ∧ l'.serverId = l.serverId ∧ l'.bound = l.bound ∧ l'.cancelled = l.cancelled ∧
        (l'.isOpen → l.isOpen) ∧ (l.cancelled = false → l' = l) := by
    intro j l' hl'
    rw [List.getElem?_modify, Option.map_eq_map, Option.map_eq_some_iff] at hl'
    obtain ⟨l, hl, rfl⟩ := hl'
    refine ⟨l, hl, ?_⟩
    by_cases hjk : k = j
    · subst hjk
      rw [if_pos rfl]
      refine ⟨rfl, rfl, rfl, nofun, fun hcan => ?_⟩
      rw [isCancelled, hl, Option.any_some, hcan] at hk
      cases hk
    · rw [if_neg hjk]
      exact ⟨rfl, rfl, rfl, id, fun _ => rfl⟩
  have hback : ∀ (j : ℕ) l, listeners[j]? = some l →
      ∃ l', (listeners.modify k fun l => { l with isOpen := false })[j]? = some l' := by
    intro j l hl
    rw [List.getElem?_modify, hl]
    exact ⟨_, rfl⟩
  refine ⟨?_, ?_, h.apart, h.once, ?_, ?_, ?_, h.zero⟩
  · intro id e he
    obtain ⟨l, hl, hid, hrun, hbound⟩ := h.entries id e he
    obtain ⟨l', hl'⟩ := hback _ l hl
    obtain ⟨l₁, hl₁, hid', hbound', hcan', -⟩ := hlist _ l' hl'
    obtain rfl := Option.some.inj (hl₁.symm.trans hl)
    exact ⟨l', hl', hid'.trans hid, hcan' ▸ hrun, fun hp => hbound'.trans (hbound hp)⟩
  · intro n id port j hreg
    obtain ⟨l, hl, hid, hcan, hbound⟩ := h.registering n id port j hreg
    obtain ⟨l', hl'⟩ := hback j l hl
    obtain ⟨l₁, hl₁, hid', hbound', hcan', -⟩ := hlist j l' hl'
    obtain rfl := Option.some.inj (hl₁.symm.trans hl)
    exact ⟨l', hl', hid'.trans hid, hcan'.trans hcan, fun hp => hbound'.trans (hbound hp)⟩
  · intro j l' hl' hcan
    obtain ⟨l, hl, -, -, hcan', -, hsame⟩ := hlist j l' hl'
    rw [hsame (hcan' ▸ hcan)]
    exact h.sockets j l hl (hcan' ▸ hcan)
  · intro i j l l' hl hl' hopen hopen' hbound
    obtain ⟨l₁, hl₁, -, hb₁, -, ho₁, -⟩ := hlist i l hl
    obtain ⟨l₂, hl₂, -, hb₂, -, ho₂, -⟩ := hlist j l' hl'
    exact h.bound i j l₁ l₂ hl₁ hl₂ (ho₁ hopen) (ho₂ hopen') (hb₁ ▸ hb₂ ▸ hbound)
  · intro j l' hl' hcan
    obtain ⟨l, hl, hid, -, hcan', -⟩ := hlist j l' hl'
    rw [hid]
    exact h.entered j l hl (hcan' ▸ hcan)

/-- A bind makes a listener that its start is about to enter. -/
theorem bind (h : Core pool listeners Reg)
    (hb : (if port = 0 then b ≠ 0 else b = port) ∧ ∀ l ∈ listeners, l.isOpen → l.bound ≠ b)
    (hreg : ∀ n' id' port' k', Reg' n' id' port' k' ↔
      Reg n' id' port' k' ∨ n' = n ∧ id' = id ∧ port' = port ∧ k' = listeners.length) :
    Core pool (listeners ++ [⟨id, b, false, true⟩]) Reg' := by
  have hlist : ∀ (j : ℕ) l, (listeners ++ [(⟨id, b, false, true⟩ : Listener)])[j]? = some l →
      listeners[j]? = some l ∨ j = listeners.length ∧ l = ⟨id, b, false, true⟩ := by
    intro j l hl
    rcases Nat.lt_trichotomy j listeners.length with hlt | rfl | hgt
    · exact .inl (List.getElem?_append_left hlt ▸ hl)
    · rw [List.getElem?_concat_length] at hl
      exact .inr ⟨rfl, (Option.some.inj hl).symm⟩
    · rw [List.getElem?_eq_none] at hl
      · cases hl
      · rw [List.length_append]
        exact hgt
  have hkeep : ∀ (j : ℕ) l, listeners[j]? = some l → (listeners ++ [(⟨id, b, false, true⟩ : Listener)])[j]? = some l :=
    fun j l hl => (List.getElem?_append_left (List.getElem?_eq_some_iff.mp hl).1).trans hl
  have hfree : ∀ (j : ℕ) l, listeners[j]? = some l → l.isOpen → l.bound ≠ b :=
    fun j l hl => hb.2 l (List.mem_of_getElem? hl)
  have hentry : ∀ id' e, pool.lookup id' = some e → e.listener ≠ listeners.length := by
    intro id' e he heq
    obtain ⟨l, hl, -⟩ := h.entries id' e he
    rw [heq, List.getElem?_eq_none le_rfl] at hl
    cases hl
  have hstart : ∀ n' id' port' k', Reg n' id' port' k' → k' ≠ listeners.length := by
    rintro n' id' port' k' hr rfl
    obtain ⟨l, hl, -⟩ := h.registering n' id' port' _ hr
    rw [List.getElem?_eq_none le_rfl] at hl
    cases hl
  refine ⟨?_, ?_, ?_, ?_, ?_, ?_, ?_, h.zero⟩
  · intro id' e he
    obtain ⟨l, hl, hrest⟩ := h.entries id' e he
    exact ⟨l, hkeep _ l hl, hrest⟩
  · intro n' id' port' k' hr
    rcases (hreg _ _ _ _).mp hr with hr | ⟨-, rfl, rfl, rfl⟩
    · obtain ⟨l, hl, hrest⟩ := h.registering n' id' port' k' hr
      exact ⟨l, hkeep _ l hl, hrest⟩
    · refine ⟨_, List.getElem?_concat_length, rfl, rfl, fun hp => ?_⟩
      have hbound := hb.1
      rwa [if_neg hp] at hbound
  · intro n' id' port' k' hr
    rcases (hreg _ _ _ _).mp hr with hr | ⟨-, -, -, rfl⟩
    · exact h.apart n' id' port' k' hr
    · exact hentry
  · intro n₁ n₂ id₁ id₂ port₁ port₂ k' hr₁ hr₂
    rcases (hreg _ _ _ _).mp hr₁ with hr₁ | ⟨rfl, -, -, rfl⟩
    · rcases (hreg _ _ _ _).mp hr₂ with hr₂ | ⟨-, -, -, rfl⟩
      · exact h.once n₁ n₂ id₁ id₂ port₁ port₂ k' hr₁ hr₂
      · exact absurd rfl (hstart _ _ _ _ hr₁)
    · rcases (hreg _ _ _ _).mp hr₂ with hr₂ | ⟨rfl, -⟩
      · exact absurd rfl (hstart _ _ _ _ hr₂)
      · rfl
  · intro j l hl hcan
    rcases hlist j l hl with hl | ⟨-, rfl⟩
    · exact h.sockets j l hl hcan
    · rfl
  · intro i j l l' hl hl' hopen hopen' hbound
    rcases hlist i l hl with hl | ⟨rfl, rfl⟩
    · rcases hlist j l' hl' with hl' | ⟨rfl, rfl⟩
      · exact h.bound i j l l' hl hl' hopen hopen' hbound
      · exact absurd hbound (hfree i l hl hopen)
    · rcases hlist j l' hl' with hl' | ⟨rfl, rfl⟩
      · exact absurd hbound.symm (hfree j l' hl' hopen')
      · rfl
  · intro j l hl hcan
    rcases hlist j l hl with hl | ⟨rfl, rfl⟩
    · rcases h.entered j l hl hcan with ⟨n', id', port', hr⟩ | hentered
      · exact .inl ⟨n', id', port', (hreg _ _ _ _).mpr (.inl hr)⟩
      · exact .inr hentered
    · exact .inl ⟨n, id, port, (hreg _ _ _ _).mpr (.inr ⟨rfl, rfl, rfl, rfl⟩)⟩

/-- A listener is entered where none of its id runs. -/
theorem register {defId : String} (h : Core pool listeners Reg) (hr : Reg n id port k)
    (hk : ∀ id' port' k', Reg n id' port' k' → k' = k)
    (hunclaimed : ∀ id' e, pool.lookup id' = some e → e.running → id' ≠ id ∧ (port = 0 → e.port ≠ 0))
    (hreg : ∀ n' id' port' k', Reg' n' id' port' k' ↔ n' ≠ n ∧ Reg n' id' port' k') :
    Core (pool.set id ⟨port, true, defId, k⟩) listeners Reg' := by
  obtain ⟨l, hl, hid, hcan, hbound⟩ := h.registering n id port k hr
  refine ⟨?_, ?_, ?_, ?_, h.sockets, h.bound, ?_, ?_⟩
  · intro id' e he
    rw [InsertionMap.lookup_set] at he
    split at he
    next hid' =>
      obtain rfl := Option.some.inj he
      exact ⟨l, hl, hid.trans hid'.symm, by rw [hcan]; rfl, hbound⟩
    next => exact h.entries id' e he
  · intro n' id' port' k' hr'
    exact h.registering n' id' port' k' ((hreg _ _ _ _).mp hr').2
  · intro n' id' port' k' hr' id₂ e he
    obtain ⟨hne, hr'⟩ := (hreg _ _ _ _).mp hr'
    rw [InsertionMap.lookup_set] at he
    split at he
    next =>
      obtain rfl := Option.some.inj he
      rintro rfl
      exact hne (h.once n' n id' id port' port _ hr' hr)
    next => exact h.apart n' id' port' k' hr' id₂ e he
  · intro n₁ n₂ id₁ id₂ port₁ port₂ k' hr₁ hr₂
    exact h.once _ _ _ _ _ _ _ ((hreg _ _ _ _).mp hr₁).2 ((hreg _ _ _ _).mp hr₂).2
  · intro j l' hl' hcan'
    rcases h.entered j l' hl' hcan' with ⟨n', id', port', hr'⟩ | ⟨e, he, hlis⟩
    · by_cases hn : n' = n
      · subst hn
        obtain rfl := hk id' port' j hr'
        obtain rfl := Option.some.inj (hl'.symm.trans hl)
        exact .inr ⟨_, by rw [hid, InsertionMap.lookup_set_self], rfl⟩
      · exact .inl ⟨n', id', port', (hreg _ _ _ _).mpr ⟨hn, hr'⟩⟩
    · refine .inr ⟨e, ?_, hlis⟩
      rw [InsertionMap.lookup_set_ne, he]
      obtain ⟨l₁, hl₁, -, hrun, -⟩ := h.entries _ e he
      rw [hlis, hl'] at hl₁
      obtain rfl := Option.some.inj hl₁
      rw [hcan'] at hrun
      exact (hunclaimed _ e he hrun).1
  · intro id₁ id₂ e₁ e₂ he₁ he₂ hrun₁ hrun₂ hport₁ hport₂
    rw [InsertionMap.lookup_set] at he₁ he₂
    split at he₁
    next hid₁ =>
      obtain rfl := Option.some.inj he₁
      split at he₂
      next hid₂ => exact hid₁.trans hid₂.symm
      next => exact absurd hport₂ ((hunclaimed id₂ e₂ he₂ hrun₂).2 hport₁)
    next =>
      split at he₂
      next =>
        obtain rfl := Option.some.inj he₂
        exact absurd hport₁ ((hunclaimed id₁ e₁ he₁ hrun₁).2 hport₂)
      next => exact h.zero id₁ id₂ e₁ e₂ he₁ he₂ hrun₁ hrun₂ hport₁ hport₂

end Core

/-! ## Steps -/

namespace NativeState

variable {s s' : NativeState} {l : Step} {n m k : ℕ} {c : StartCall} {phase : Phase} {id : String}

/-- Call `n` is about to enter listener `k`. -/
def Registering (calls : List StartCall) (n : ℕ) (id : String) (port k : ℕ) : Prop :=
  ∃ c, calls[n]? = some c ∧ c.id = id ∧ c.port = port ∧ c.phase = .registering k

def Inv (s : NativeState) : Prop := Core s.pool s.listeners (Registering s.calls)

theorem inv_initial : initial.Inv := by
  have hnone : ∀ n id port k, ¬ Registering [] n id port k := by
    rintro n id port k ⟨c, hc, -⟩
    cases hc
  exact ⟨nofun, fun n id port k h => absurd h (hnone n id port k), fun n id port k h => absurd h (hnone n id port k),
    fun n _ id _ port _ k h => absurd h (hnone n id port k), nofun, nofun, nofun, nofun⟩

theorem callStep_eq_some {f : StartCall → Option NativeState} :
    s.callStep n f = some s' ↔ ∃ c, s.calls[n]? = some c ∧ f c = some s' :=
  Option.bind_eq_some_iff

theorem registering_append {calls : List StartCall} (hphase : ∀ k, c.phase ≠ .registering k) (n : ℕ) (id : String)
    (port k : ℕ) : Registering (calls ++ [c]) n id port k ↔ Registering calls n id port k := by
  refine exists_congr fun c' => and_congr_left fun ⟨_, _, hreg⟩ => ?_
  rcases Nat.lt_trichotomy n calls.length with hlt | rfl | hgt
  · rw [List.getElem?_append_left hlt]
  · rw [List.getElem?_concat_length, List.getElem?_eq_none le_rfl, Option.some.injEq]
    refine ⟨?_, nofun⟩
    rintro rfl
    exact absurd hreg (hphase k)
  · rw [List.getElem?_eq_none (Nat.le_of_lt hgt), List.getElem?_eq_none]
    rw [List.length_append]
    exact hgt

theorem registering_setPhase (hc : s.calls[n]? = some c) (m : ℕ) (id : String) (port k : ℕ) :
    Registering (s.setPhase n c phase) m id port k ↔
      m ≠ n ∧ Registering s.calls m id port k ∨ m = n ∧ c.id = id ∧ c.port = port ∧ phase = .registering k := by
  rw [Registering, setPhase]
  by_cases hmn : m = n
  · subst hmn
    rw [List.getElem?_set_self (List.getElem?_eq_some_iff.mp hc).1]
    constructor
    · rintro ⟨c', hc', hid, hport, hreg⟩
      obtain rfl := Option.some.inj hc'
      exact .inr ⟨rfl, hid, hport, hreg⟩
    · rintro (⟨hne, -⟩ | ⟨-, hid, hport, hreg⟩)
      · exact absurd rfl hne
      · exact ⟨_, rfl, hid, hport, hreg⟩
  · rw [List.getElem?_set_ne (Ne.symm hmn)]
    constructor
    · exact fun h => .inl ⟨hmn, h⟩
    · rintro (⟨-, h⟩ | ⟨heq, -⟩)
      · exact h
      · exact absurd heq hmn

/-- A call that goes on outside of the registration. -/
theorem registering_goOn (hc : s.calls[n]? = some c) (hwas : ∀ k, c.phase ≠ .registering k)
    (hphase : ∀ k, phase ≠ .registering k) (m : ℕ) (id : String) (port k : ℕ) :
    Registering (s.setPhase n c phase) m id port k ↔ Registering s.calls m id port k := by
  rw [registering_setPhase hc]
  constructor
  · rintro (⟨-, h⟩ | ⟨-, -, -, hreg⟩)
    · exact h
    · exact absurd hreg (hphase k)
  · intro h
    refine .inl ⟨?_, h⟩
    rintro rfl
    obtain ⟨c', hc', -, -, hreg⟩ := h
    rw [hc] at hc'
    exact hwas k (Option.some.inj hc' ▸ hreg)

theorem inv_stop (h : s.Inv) : Core (s.stop id).pool (s.stop id).listeners (Registering s.calls) := by
  rw [stop]
  split
  next => exact h
  next e he =>
    refine Core.stops h (· = id) (fun id' => ?_) (fun j l' hl' => ?_) ?_
    · rw [InsertionMap.lookup_set]
      by_cases hid : id' = id
      · rw [if_pos hid, hid, he, Option.map_some, if_pos rfl]
      · rw [if_neg hid]
        cases s.pool.lookup id' with
        | none => rfl
        | some e' => rw [Option.map_some, if_neg hid]
    · rw [getElem?_cancelListener, Option.map_eq_some_iff] at hl'
      obtain ⟨l, hl, rfl⟩ := hl'
      refine ⟨l, hl, ?_⟩
      by_cases hj : j = e.listener
      · exact .inl ⟨⟨id, e, rfl, he, hj.symm⟩, if_pos hj⟩
      · refine .inr ⟨?_, if_neg hj⟩
        rintro ⟨id', e', rfl, he', hlis⟩
        rw [he] at he'
        exact hj (Option.some.inj he' ▸ hlis.symm)
    · exact List.length_modify ..

theorem length_foldl_cancelListener (es : List NativeEntry) (ls : List Listener) :
    (es.foldl (fun ls e => cancelListener ls e.listener) ls).length = ls.length := by
  induction es generalizing ls with
  | nil => rfl
  | cons e es ih =>
      rw [List.foldl_cons, ih]
      exact List.length_modify ..

theorem inv_shutdownAll (h : s.Inv) : s.shutdownAll.Inv := by
  refine Core.stops h (fun _ => True) (fun id' => ?_) (fun j l' hl' => ?_) (length_foldl_cancelListener _ _)
  · simp only [if_true]
    exact InsertionMap.lookup_map _
  · rw [shutdownAll, getElem?_foldl_cancelListener, Option.map_eq_some_iff] at hl'
    obtain ⟨l, hl, rfl⟩ := hl'
    refine ⟨l, hl, ?_⟩
    have hiff : (∃ e ∈ s.pool.values, e.listener = j) ↔
        ∃ id e, True ∧ s.pool.lookup id = some e ∧ e.listener = j := by
      constructor
      · rintro ⟨e, he, hlis⟩
        obtain ⟨id, hid⟩ := InsertionMap.mem_values.mp he
        exact ⟨id, e, trivial, hid, hlis⟩
      · rintro ⟨id, e, -, hid, hlis⟩
        exact ⟨e, InsertionMap.mem_values.mpr ⟨id, hid⟩, hlis⟩
    by_cases hex : ∃ e ∈ s.pool.values, e.listener = j
    · exact .inl ⟨hiff.mp hex, if_pos hex⟩
    · exact .inr ⟨fun h => hex (hiff.mpr h), if_neg hex⟩

theorem inv_commit {defId : String} (h : s.Inv) : (s.commit id defId).Inv := by
  rw [commit]
  split
  next => exact h
  next e he =>
    split
    next =>
      refine Core.commit h (fun id' e' he' => ?_) fun id' e' he' => ?_
      · rw [InsertionMap.lookup_set] at he'
        split at he'
        next hid =>
          obtain rfl := Option.some.inj he'
          exact ⟨e, hid ▸ he, rfl, rfl, rfl⟩
        next => exact ⟨e', he', rfl, rfl, rfl⟩
      · by_cases hid : id' = id
        · subst hid
          rw [he] at he'
          obtain rfl := Option.some.inj he'
          exact ⟨_, InsertionMap.lookup_set_self, rfl⟩
        · exact ⟨e', (InsertionMap.lookup_set_ne hid).trans he', rfl⟩
    next => exact h

theorem check_ne_registering (k : ℕ) : s.check c ≠ .registering k := by
  rw [check]
  split
  next => exact nofun
  next =>
    split
    next => exact nofun
    next => split <;> exact nofun

/-! ### What each access does -/

theorem next_stopFirst (h : next (.stopFirst n) s = some s') : ∃ c, s.calls[n]? = some c ∧
    c.phase = .stopping ∧ s' = { s.stop c.id with calls := s.setPhase n c .checking } := by
  obtain ⟨c, hc, h⟩ := callStep_eq_some.mp h
  split at h
  next hphase => exact ⟨c, hc, hphase, (Option.some.inj h).symm⟩
  next => cases h

theorem next_check (h : next (.check n) s = some s') : ∃ c, s.calls[n]? = some c ∧ c.phase = .checking ∧
    s' = { s with calls := s.setPhase n c (s.check c) } := by
  obtain ⟨c, hc, h⟩ := callStep_eq_some.mp h
  split at h
  next hphase => exact ⟨c, hc, hphase, (Option.some.inj h).symm⟩
  next => cases h

theorem next_bind {bound : ℕ} (h : next (.bind n bound) s = some s') : ∃ c, s.calls[n]? = some c ∧
    c.phase = .binding ∧ s.MayBind c.port bound ∧
      s' = { s with
        listeners := s.listeners ++ [⟨c.id, bound, false, true⟩]
        calls := s.setPhase n c (.registering s.listeners.length) } := by
  obtain ⟨c, hc, h⟩ := callStep_eq_some.mp h
  split at h
  next hphase =>
    split at h
    next hmay => exact ⟨c, hc, hphase, hmay, (Option.some.inj h).symm⟩
    next => cases h
  next => cases h

theorem next_fail (h : next (.fail n) s = some s') : ∃ c, s.calls[n]? = some c ∧ c.phase = .binding ∧
    s' = { s with calls := s.setPhase n c (.failed .notStarted) } := by
  obtain ⟨c, hc, h⟩ := callStep_eq_some.mp h
  split at h
  next hphase => exact ⟨c, hc, hphase, (Option.some.inj h).symm⟩
  next => cases h

theorem next_register (h : next (.register n) s = some s') : ∃ c k, s.calls[n]? = some c ∧
    c.phase = .registering k ∧ s' = { s with pool := s.register c k, calls := s.setPhase n c .running } := by
  obtain ⟨c, hc, h⟩ := callStep_eq_some.mp h
  split at h
  next k hphase => exact ⟨c, k, hc, hphase, (Option.some.inj h).symm⟩
  next => cases h

/-! ### One step -/

theorem inv_step (h : s.Inv) (hfree : Unclaimed l s) (hs : next l s = some s') : s'.Inv := by
  cases l with
  | start id port =>
      obtain rfl := Option.some.inj hs
      exact Core.congr h (registering_append nofun)
  | restart id port =>
      obtain rfl := Option.some.inj hs
      exact Core.congr h (registering_append nofun)
  | stopFirst n =>
      obtain ⟨c, hc, hphase, rfl⟩ := next_stopFirst hs
      exact Core.congr (inv_stop h) (registering_goOn hc (by rw [hphase]; exact nofun) nofun)
  | check n =>
      obtain ⟨c, hc, hphase, rfl⟩ := next_check hs
      exact Core.congr h (registering_goOn hc (by rw [hphase]; exact nofun) check_ne_registering)
  | bind n bound =>
      obtain ⟨c, hc, hphase, hmay, rfl⟩ := next_bind hs
      refine Core.bind (n := n) h hmay fun m id port k => ?_
      rw [registering_setPhase hc]
      constructor
      · rintro (⟨-, hr⟩ | ⟨rfl, rfl, rfl, hk⟩)
        · exact .inl hr
        · exact .inr ⟨rfl, rfl, rfl, (Phase.registering.inj hk).symm⟩
      · rintro (hr | ⟨rfl, rfl, rfl, rfl⟩)
        · refine .inl ⟨?_, hr⟩
          rintro rfl
          obtain ⟨c', hc', -, -, hreg⟩ := hr
          obtain rfl := Option.some.inj (hc.symm.trans hc')
          rw [hphase] at hreg
          cases hreg
        · exact .inr ⟨rfl, rfl, rfl, rfl⟩
  | fail n =>
      obtain ⟨c, hc, hphase, rfl⟩ := next_fail hs
      exact Core.congr h (registering_goOn hc (by rw [hphase]; exact nofun) nofun)
  | register n =>
      obtain ⟨c, k, hc, hphase, rfl⟩ := next_register hs
      have hr : Registering s.calls n c.id c.port k := ⟨c, hc, rfl, rfl, hphase⟩
      refine Core.register h hr ?_ (hfree c k hc hphase) fun m id port k' => ?_
      · rintro id port k' ⟨c', hc', -, -, hreg⟩
        obtain rfl := Option.some.inj (hc.symm.trans hc')
        exact Phase.registering.inj (hreg.symm.trans hphase)
      · rw [registering_setPhase hc]
        constructor
        · rintro (h | ⟨-, -, -, hreg⟩)
          · exact h
          · cases hreg
        · exact .inl
  | stop serverId =>
      obtain rfl := Option.some.inj hs
      have hstop : (s.stop serverId).calls = s.calls := by
        rw [stop]
        split <;> rfl
      rw [Inv, hstop]
      exact inv_stop h
  | commit serverId defId =>
      obtain rfl := Option.some.inj hs
      exact inv_commit h
  | shutdownAll =>
      obtain rfl := Option.some.inj hs
      exact inv_shutdownAll h
  | close k =>
      rw [next] at hs
      split at hs
      next hk =>
        obtain rfl := Option.some.inj hs
        exact Core.close h hk
      next => cases hs

theorem Inv.controllable (h : s.Inv) : Controllable s where
  entered k l hl hcan := by
    rcases Core.entered h k l hl hcan with ⟨n, id, port, c, hc, -, -, hreg⟩ | hentered
    · exact .inl ⟨c, List.mem_of_getElem? hc, hreg⟩
    · exact .inr hentered
  stops id e he := by
    obtain ⟨l, hl, -⟩ := Core.entries h id e he
    constructor
    · rw [stop, he, isCancelled, getElem?_cancelListener, hl, Option.map_some, if_pos rfl]
      rfl
    · rw [shutdownAll, isCancelled, getElem?_foldl_cancelListener, hl, Option.map_some,
        if_pos ⟨e, InsertionMap.mem_values.mpr ⟨id, he⟩, rfl⟩]
      rfl
  ports id id' e e' he he' hrun hrun' hport := Core.ports h he he' hrun hrun' hport

theorem controlled_of_unclaimed (h : s.Inv) (hfree : Unclaimed l s) : Controlled l s := by
  intro s' hs
  refine ⟨(inv_step h hfree hs).controllable, fun hattempt => ?_⟩
  cases l with
  | check n =>
      obtain ⟨c, -, -, rfl⟩ := next_check hs
      rfl
  | bind n bound =>
      obtain ⟨c, -, -, -, rfl⟩ := next_bind hs
      rfl
  | fail n =>
      obtain ⟨c, -, -, rfl⟩ := next_fail hs
      rfl
  | _ => cases hattempt

/-- An entry that is written over while it runs leaves its listener to nobody. -/
theorem unclaimed_of_controlled (h : s.Inv) (hcontrolled : Controlled l s) : Unclaimed l s := by
  cases l with
  | register n =>
      intro c k hc hphase id e he hrun
      have hs : next (.register n) s = some { s with pool := s.register c k, calls := s.setPhase n c .running } := by
        rw [next, callStep, hc, Option.bind_some, hphase]
      have hpost := (hcontrolled _ hs).1
      have hr : Registering s.calls n c.id c.port k := ⟨c, hc, rfl, rfl, hphase⟩
      have hid : id ≠ c.id := by
        rintro rfl
        obtain ⟨l, hl, hlid, hcan, -⟩ := Core.entries h _ e he
        rw [hrun, Eq.comm, Bool.not_eq_true'] at hcan
        rcases hpost.entered e.listener l hl hcan with ⟨c', hc', hreg⟩ | ⟨e', he', hlis⟩
        · obtain ⟨m, hm⟩ := List.getElem?_of_mem hc'
          have hr' : Registering (s.setPhase n c .running) m c'.id c'.port e.listener := ⟨c', hm, rfl, rfl, hreg⟩
          rcases (registering_setPhase hc _ _ _ _).mp hr' with ⟨-, hold⟩ | ⟨-, -, -, hrunning⟩
          · exact Core.apart h _ _ _ _ hold _ e he rfl
          · cases hrunning
        · have hnew : (s.register c k).lookup l.serverId = some ⟨c.port, true, c.id, k⟩ := by
            rw [hlid, register, InsertionMap.lookup_set_self]
          obtain rfl := Option.some.inj (hnew.symm.trans he')
          exact Core.apart h _ _ _ _ hr _ e he hlis.symm
      refine ⟨hid, fun hzero hport => hid ?_⟩
      refine hpost.ports id c.id e ⟨c.port, true, c.id, k⟩ ?_ InsertionMap.lookup_set_self hrun rfl (hport.trans hzero.symm)
      exact (InsertionMap.lookup_set_ne hid).trans he
  | _ => trivial

end NativeState

/-- The pool is in control in exactly the runs in which listeners are entered unclaimed. -/
theorem controlled_iff_unclaimed (steps : List Step) :
    AllSteps NativeState.next Controlled .initial steps ↔ AllSteps NativeState.next Unclaimed .initial steps :=
  allSteps_iff (I := NativeState.Inv) (fun _ _ _ h hfree hs => NativeState.inv_step h hfree hs)
    (fun _ _ h => ⟨NativeState.unclaimed_of_controlled h, NativeState.controlled_of_unclaimed h⟩)
    NativeState.inv_initial

/-- Two starts of one server on two ports, each before the other is entered. -/
def twoStarts : List Step :=
  [.start "a" 8080, .start "a" 8081, .check 0, .check 1, .bind 0 8080, .bind 1 8081, .register 0]

/-- The first listener goes on for ever. -/
theorem twoStarts_not_controlled : ¬ AllSteps NativeState.next Controlled .initial (twoStarts ++ [.register 1]) := by
  intro hok
  obtain ⟨t, ht, hlive, hstart, hentry⟩ : ∃ t, exec NativeState.next .initial twoStarts = some t ∧
      ((NativeState.next (.register 1) t).bind fun s => s.listeners[0]?) = some ⟨"a", 8080, false, true⟩ ∧
      ((NativeState.next (.register 1) t).map fun s => s.calls.map (·.phase)) = some [.running, .running] ∧
      ((NativeState.next (.register 1) t).bind fun s => (s.pool.lookup "a").map (·.listener)) = some 1 :=
    exists_exec (by decide)
  obtain ⟨s', hs', hlive⟩ := Option.bind_eq_some_iff.mp hlive
  rw [hs', Option.map_some, Option.some.injEq] at hstart
  rw [hs', Option.bind_some] at hentry
  rcases ((allSteps_last hok ht).1 s' hs').1.entered 0 _ hlive rfl with ⟨c, hc, hphase⟩ | ⟨e, he, hlis⟩
  · have hmem : c.phase ∈ [Phase.running, Phase.running] := hstart ▸ List.mem_map_of_mem hc
    rw [hphase] at hmem
    simp at hmem
  · rw [he, Option.map_some, hlis] at hentry
    cases hentry

end RedFireForge.Native.ListenerPool
