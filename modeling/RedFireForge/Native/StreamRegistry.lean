/-
# `RedFireForge.Native.StreamRegistry` — the native registry of gRPC streams

Two maps, each behind a mutex, and a mutex for each entry: `inner` leads from a stream to its
entry, and `active_request_ids` from a request to the stream that is active for it.  A call is
a program over the guards it takes, and what it does between two of them is one access.

`try_register` takes the map while it holds the index, and `remove` takes the index while it
holds the map.
-/
import Mathlib.Algebra.GroupWithZero.Nat
import Mathlib.Data.List.AList
import RedFireForge.Lib.Locks

namespace RedFireForge.Native

open RedFireForge.Lib

/-! ## State -/

inductive StreamRegistryStatus
  | active | ended | cancelled | error
deriving DecidableEq, Inhabited, Repr

/-- Of an entry, what the calls read and write.  `cancelled` says that its token is, and
`outbound` that there is a sender. -/
structure StreamRegistryEntry where
  streamId : String
  tabId : String
  requestId : String
  status : StreamRegistryStatus
  cancelled : Bool
  outbound : Bool
  clientWritesEnded : Bool
  lastActivityAt : ℕ
  terminalAt : Option ℕ
  pendingEvents : List String
deriving DecidableEq, Inhabited, Repr

/-- An `Arc` is the place of its entry among all that were made. -/
structure StreamRegistry where
  entries : List StreamRegistryEntry
  inner : AList fun _ : String => ℕ
  activeRequestIds : AList fun _ : String => String

inductive TryRegisterStreamOutcome
  | registered | duplicateActiveRequest
deriving DecidableEq, Repr

inductive StreamControlOutcome
  | acknowledged | alreadyTerminal | notFound | tabMismatch | clientWritesEnded
deriving DecidableEq, Repr

/-- What comes with a step: the clock, the order in which a map is gone through, and whether
a channel takes a message. -/
structure Surroundings where
  now : ℕ
  order : List String → List String
  perm : ∀ l, (order l).Perm l
  accepts : Bool

inductive Mutex
  | inner | activeRequestIds
  | entry (arc : ℕ)
deriving DecidableEq, Repr

/-- The guards, by where they are taken. -/
inductive Guard
  /-- of the index, in `try_register` -/
  | requests
  /-- of the map -/
  | map
  /-- of the map, in the second part of `remove` after the stream was found -/
  | removal
  /-- of the index, in `remove` -/
  | index
  | entry (arc : ℕ)
deriving DecidableEq, Repr

def Guard.mutex : Guard → Mutex
  | .requests | .index => .activeRequestIds
  | .map | .removal => .inner
  | .entry arc => .entry arc

namespace StreamRegistry

def default : StreamRegistry := ⟨[], ∅, ∅⟩

def entry (s : StreamRegistry) (arc : ℕ) : StreamRegistryEntry := s.entries.getD arc Inhabited.default

/-- The entries of the map, in the order of the step. -/
def values (s : StreamRegistry) (w : Surroundings) : List ℕ :=
  (w.order s.inner.keys).filterMap fun streamId => s.inner.lookup streamId

/-! ## Calls -/

abbrev Call (α : Type) : Type := Prog Guard Surroundings StreamRegistry α

/-- What is done to an entry under its guard. -/
def withArc {α : Type} (arc : ℕ) (f : Surroundings → StreamRegistryEntry → StreamRegistryEntry × α) : Call α :=
  .within (.entry arc) (.change fun w s =>
    ({ s with entries := s.entries.set arc (f w (s.entry arc)).1 }, (f w (s.entry arc)).2))

def getEntry (streamId : String) : Call (Option ℕ) :=
  .within .map (.read fun _ s => s.inner.lookup streamId)

/-- The two insertions at the end of `try_register`. -/
def insertEntry (streamId requestId tabId : String) (outbound : Bool) : Call TryRegisterStreamOutcome := do
  .within .map (.write fun w s =>
    { entries := s.entries ++ [⟨streamId, tabId, requestId, .active, false, outbound, false, w.now, none, []⟩]
      inner := s.inner.insert streamId s.entries.length
      activeRequestIds := s.activeRequestIds.insert requestId streamId })
  pure .registered

/-- The check of `try_register` on the stream that is there for the request. -/
def existingActive (existingStreamId : String) : Call Bool := do
  match ← getEntry existingStreamId with
  | none => pure false
  | some existing => withArc existing fun _ e => (e, e.status == .active)

def tryRegister (streamId requestId tabId : String) (outbound : Bool) : Call TryRegisterStreamOutcome :=
  .within .requests do
    match ← .read fun _ s => s.activeRequestIds.lookup requestId with
    | none => insertEntry streamId requestId tabId outbound
    | some existingStreamId =>
        let active ← existingActive existingStreamId
        if active then pure .duplicateActiveRequest
        else
          .write fun _ s => { s with activeRequestIds := s.activeRequestIds.erase requestId }
          insertEntry streamId requestId tabId outbound

def withEntry {α : Type} (streamId tabId : String)
    (f : Surroundings → StreamRegistryEntry → StreamRegistryEntry × Except StreamControlOutcome α) :
    Call (Except StreamControlOutcome α) := do
  match ← getEntry streamId with
  | none => pure (.error .notFound)
  | some arc => withArc arc fun w e => if e.tabId ≠ tabId then (e, .error .tabMismatch) else f w e

/-- The events of the tab, and its streams that are over with all their events drained. -/
def drainPendingEventsForTab (tabId : String) : Call (List String × List String) := do
  let arcs ← .within .map (.read fun w s => s.values w)
  let drained ← .filterMap (fun arc => withArc arc fun _ e =>
    if e.tabId ≠ tabId then (e, none)
    else ({ e with pendingEvents := [] },
      some (e.pendingEvents, if e.status = .active then none else some e.streamId))) arcs
  pure (drained.flatMap Prod.fst, drained.filterMap Prod.snd)

def markTerminal (streamId : String) (status : StreamRegistryStatus) : Call Unit := do
  match ← getEntry streamId with
  | none => pure ()
  | some arc => withArc arc fun w e =>
      ({ e with
          status := if e.status = .active then status else e.status
          terminalAt := if e.status = .active then some w.now else e.terminalAt
          outbound := false
          lastActivityAt := w.now }, ())

def remove (streamId : String) : Call Unit := do
  let requestId ← .within .map do
    match ← .read fun _ s => s.inner.lookup streamId with
    | none => pure none
    | some arc => withArc arc fun _ e => (e, some e.requestId)
  match requestId with
  | none => .within .map (.write fun _ s => { s with inner := s.inner.erase streamId })
  | some requestId => .within .removal do
      .write fun _ s => { s with inner := s.inner.erase streamId }
      .within .index (.write fun _ s =>
        if s.activeRequestIds.lookup requestId = some streamId then
          { s with activeRequestIds := s.activeRequestIds.erase requestId }
        else s)

/-- An entry that is active is cancelled. -/
def cancelEntry (w : Surroundings) (e : StreamRegistryEntry) : StreamRegistryEntry :=
  if e.status = .active then
    { e with
      status := .cancelled
      terminalAt := some w.now
      cancelled := true
      outbound := false
      lastActivityAt := w.now }
  else e

def cancelActiveForTab (tabId : String) : Call (List (String × String)) := do
  let streamIds ← .within .map do
    let arcs ← .read fun w s => s.values w
    .filterMap (fun arc => withArc arc fun _ e =>
      (e, if e.tabId = tabId ∧ e.status = .active then some (e.streamId, e.requestId) else none)) arcs
  let _ ← .filterMap (fun (streamId, _) => do
    match ← getEntry streamId with
    | none => pure none
    | some arc => withArc arc fun w e => (cancelEntry w e, some ())) streamIds
  pure streamIds

/-- `remove` for each of the streams; how many there were. -/
def removeEach (streamIds : List String) : Call ℕ := do
  let removed ← .filterMap (fun streamId => do
    remove streamId
    pure (some ())) streamIds
  pure removed.length

def removeAllForTab (tabId : String) : Call ℕ := do
  let streamIds ← .within .map do
    let arcs ← .read fun w s => s.values w
    .filterMap (fun arc => withArc arc fun _ e => (e, if e.tabId = tabId then some e.streamId else none)) arcs
  removeEach streamIds

def listStreamIds : Call (List String) := .within .map (.read fun w s => w.order s.inner.keys)

def removeAll : Call ℕ := do
  let streamIds ← listStreamIds
  removeEach streamIds

def cancelAllActive : Call ℕ := do
  let tabs ← .within .map do
    let arcs ← .read fun w s => s.values w
    .filterMap (fun arc => withArc arc fun _ e => (e, if e.status = .active then some e.tabId else none)) arcs
  -- a set of tabs, gone through in some order
  let tabIds ← .read fun w _ => w.order tabs.dedup
  let cancelled ← .filterMap (fun tabId => do
    let active ← cancelActiveForTab tabId
    pure (some active.length)) tabIds
  pure cancelled.sum

/-- How many were cancelled, and how many purged. -/
def sweepOrphans (detachedTabs : List (String × ℕ)) (orphanGrace terminalGrace : ℕ) : Call (ℕ × ℕ) := do
  let now ← .read fun w _ => w.now
  let detachedExpired ← .filterMap (fun (tabId, detachedAt) =>
    .read fun w _ => if orphanGrace ≤ w.now - detachedAt then some tabId else none) detachedTabs
  let cancelled ← .filterMap (fun tabId => do
    let active ← cancelActiveForTab tabId
    pure (some active.length)) detachedExpired
  let streamIds ← listStreamIds
  let purged ← .filterMap (fun streamId => do
    match ← getEntry streamId with
    | none => pure none
    | some arc =>
        let shouldRemove ← withArc arc fun w e =>
          (e, e.status != .active && match e.terminalAt with
            | some terminalAt => decide (terminalGrace ≤ now - terminalAt)
            | none => decide (terminalGrace ≤ w.now - e.lastActivityAt))
        if shouldRemove then
          remove streamId
          pure (some ())
        else pure none) streamIds
  pure (cancelled.sum, purged.length)

/-- The outcome of a control call either way. -/
def outcome (r : Except StreamControlOutcome StreamControlOutcome) : StreamControlOutcome :=
  match r with
  | .ok o => o
  | .error o => o

def endControl (streamId tabId : String) : Call StreamControlOutcome := do
  let r ← withEntry streamId tabId fun w e =>
    if e.status ≠ .active ∨ e.clientWritesEnded then (e, .ok .alreadyTerminal)
    else ({ e with clientWritesEnded := true, lastActivityAt := w.now }, .ok .acknowledged)
  pure (outcome r)

def cancelControl (streamId tabId : String) : Call StreamControlOutcome := do
  let r ← withEntry streamId tabId fun w e =>
    if e.status ≠ .active then (e, .ok .alreadyTerminal) else (cancelEntry w e, .ok .acknowledged)
  pure (outcome r)

def sendOutbound (streamId tabId : String) : Call (Except StreamControlOutcome Unit) :=
  withEntry streamId tabId fun w e =>
    if e.clientWritesEnded then (e, .error .clientWritesEnded)
    else if e.status ≠ .active then (e, .error .alreadyTerminal)
    else if !e.outbound || !w.accepts then (e, .error .notFound)
    else ({ e with lastActivityAt := w.now }, .ok ())

/-! ## The index -/

/-- What holds of the maps: each active stream is the one that its request leads to. -/
structure Indexed (s : StreamRegistry) : Prop where
  valid : ∀ streamId arc, s.inner.lookup streamId = some arc → arc < s.entries.length
  points : ∀ streamId arc, s.inner.lookup streamId = some arc → (s.entry arc).status = .active →
    s.activeRequestIds.lookup (s.entry arc).requestId = some streamId

/-- No stream is active for the request. -/
def NoActive (requestId : String) (s : StreamRegistry) : Prop :=
  ∀ streamId arc, s.inner.lookup streamId = some arc → (s.entry arc).requestId = requestId →
    (s.entry arc).status ≠ .active

/-- What an access may do under the guards held. -/
structure Keeps (held : List Guard) (s s' : StreamRegistry) : Prop where
  index : .activeRequestIds ∉ held.map Guard.mutex → s'.activeRequestIds = s.activeRequestIds
  map : .inner ∉ held.map Guard.mutex → s'.inner = s.inner
  /-- streams are added under the index -/
  shrinks : .activeRequestIds ∉ held.map Guard.mutex → ∀ streamId arc,
    s'.inner.lookup streamId = some arc → s.inner.lookup streamId = some arc
  grows : s.entries.length ≤ s'.entries.length
  requests : ∀ arc < s.entries.length, (s'.entry arc).requestId = (s.entry arc).requestId
  active : ∀ arc < s.entries.length, (s'.entry arc).status = .active → (s.entry arc).status = .active

/-- The guards under which a guard is taken. -/
def Allowed (held : List Guard) : Guard → Prop
  | .requests | .removal => held = []
  | .map => held = [] ∨ held = [.requests]
  | .index => held = [.removal]
  | .entry _ => held = [] ∨ held = [.requests] ∨ held = [.map]

def discipline : Discipline Guard StreamRegistry where
  allowed := Allowed
  inv := Indexed
  guar := Keeps

variable {s s' : StreamRegistry} {held : List Guard} {arc : ℕ} {streamId requestId tabId : String}

theorem Keeps.refl : Keeps held s s where
  index := fun _ => rfl
  map := fun _ => rfl
  shrinks := fun _ _ _ h => h
  grows := le_rfl
  requests := fun _ _ => rfl
  active := fun _ _ h => h

/-- What is done to an entry: it stays with its request, and it does not become active again. -/
structure KeepsEntry (e e' : StreamRegistryEntry) : Prop where
  requestId : e'.requestId = e.requestId
  active : e'.status = .active → e.status = .active

theorem entry_set {e : StreamRegistryEntry} {other : ℕ} (he : KeepsEntry (s.entry arc) e)
    (hvalid : other < s.entries.length) :
    KeepsEntry (s.entry other) (entry { s with entries := s.entries.set arc e } other) := by
  have hget : entry { s with entries := s.entries.set arc e } other = if arc = other then e else s.entry other := by
    unfold entry
    rw [List.getD_eq_getElem?_getD, List.getD_eq_getElem?_getD, List.getElem?_set]
    split
    next heq =>
      subst heq
      rw [if_pos hvalid]
      rfl
    next => rfl
  rw [hget]
  split
  next heq => exact heq ▸ he
  next => exact ⟨rfl, id⟩

theorem Indexed.set (h : Indexed s) {e : StreamRegistryEntry} (he : KeepsEntry (s.entry arc) e) :
    Indexed { s with entries := s.entries.set arc e } where
  valid := fun streamId arc' hlookup => by
    show arc' < (s.entries.set arc e).length
    rw [List.length_set]
    exact h.valid streamId arc' hlookup
  points := fun streamId arc' hlookup hactive => by
    have hkeeps := entry_set he (h.valid streamId arc' hlookup)
    rw [hkeeps.requestId]
    exact h.points streamId arc' hlookup (hkeeps.active hactive)

theorem Keeps.set {e : StreamRegistryEntry} (he : KeepsEntry (s.entry arc) e) :
    Keeps held s { s with entries := s.entries.set arc e } where
  index := fun _ => rfl
  map := fun _ => rfl
  shrinks := fun _ _ _ h => h
  grows := List.length_set.ge
  requests := fun _ hvalid => (entry_set he hvalid).requestId
  active := fun _ hvalid => (entry_set he hvalid).active

/-! ## Calls keep the index -/

/-- A call, or a part of it, that leaves the guards as they are. -/
def Neutral {α : Type} (held : List Guard) (p : Call α) : Prop := discipline.Neutral Guard.mutex held p

section Neutral

variable {α : Type}

theorem neutral_read (f : Surroundings → StreamRegistry → α) : Neutral held (.read f) :=
  Discipline.neutral_change fun _ _ hinv => ⟨hinv, Keeps.refl⟩

theorem neutral_withArc {f : Surroundings → StreamRegistryEntry → StreamRegistryEntry × α}
    (hallowed : Allowed held (.entry arc)) (hf : ∀ w e, KeepsEntry e (f w e).1) :
    Neutral held (withArc arc f) :=
  Discipline.Neutral.within hallowed
    (Discipline.neutral_change fun w _ hinv => ⟨hinv.set (hf w _), Keeps.set (hf w _)⟩)

/-- An entry is only looked at. -/
theorem neutral_look {f : Surroundings → StreamRegistryEntry → α} (hallowed : Allowed held (.entry arc)) :
    Neutral held (withArc arc fun w e => (e, f w e)) :=
  neutral_withArc hallowed fun _ _ => ⟨rfl, id⟩

theorem neutral_getEntry : Neutral [] (getEntry streamId) :=
  Discipline.Neutral.within (Or.inl rfl) (neutral_read _)

theorem neutral_withEntry {f : Surroundings → StreamRegistryEntry →
      StreamRegistryEntry × Except StreamControlOutcome α}
    (hf : ∀ w e, KeepsEntry e (f w e).1) : Neutral [] (withEntry streamId tabId f) := by
  refine neutral_getEntry.bind fun found => ?_
  cases found with
  | none => exact Discipline.neutral_pure _
  | some arc =>
      refine neutral_withArc (Or.inl rfl) fun w e => ?_
      split
      next => exact ⟨rfl, id⟩
      next => exact hf w e

/-- A pass over the entries of the map, under its guard. -/
theorem neutral_pass {f : Surroundings → StreamRegistryEntry → Option α} :
    Neutral [] (.within .map do
      let arcs ← .read fun w s => s.values w
      .filterMap (fun arc => withArc arc fun w e => (e, f w e)) arcs) :=
  Discipline.Neutral.within (Or.inl rfl)
    ((neutral_read _).bind fun arcs =>
      Discipline.neutral_filterMap (fun _ => neutral_look (Or.inr (Or.inr rfl))) arcs)

theorem keeps_cancelEntry (w : Surroundings) (e : StreamRegistryEntry) : KeepsEntry e (cancelEntry w e) := by
  unfold cancelEntry
  split
  next => exact ⟨rfl, nofun⟩
  next => exact ⟨rfl, id⟩

theorem neutral_drainPendingEventsForTab : Neutral [] (drainPendingEventsForTab tabId) := by
  refine (Discipline.Neutral.within (Or.inl rfl) (neutral_read _)).bind fun arcs => ?_
  refine (Discipline.neutral_filterMap (fun arc => ?_) arcs).bind fun drained => Discipline.neutral_pure _
  refine neutral_withArc (Or.inl rfl) fun _ e => ?_
  split <;> exact ⟨rfl, id⟩

theorem neutral_markTerminal {status : StreamRegistryStatus} : Neutral [] (markTerminal streamId status) := by
  refine neutral_getEntry.bind fun found => ?_
  cases found with
  | none => exact Discipline.neutral_pure _
  | some arc =>
      refine neutral_withArc (Or.inl rfl) fun w e => ⟨rfl, fun hactive => ?_⟩
      by_contra hnot
      have hactive : (if e.status = .active then status else e.status) = .active := hactive
      rw [if_neg hnot] at hactive
      exact hnot hactive

theorem neutral_cancelActiveForTab : Neutral [] (cancelActiveForTab tabId) := by
  refine neutral_pass.bind fun streamIds => ?_
  refine (Discipline.neutral_filterMap (fun x => ?_) streamIds).bind fun _ => Discipline.neutral_pure _
  refine neutral_getEntry.bind fun found => ?_
  cases found with
  | none => exact Discipline.neutral_pure _
  | some arc => exact neutral_withArc (Or.inl rfl) fun w e => keeps_cancelEntry w e

end Neutral

theorem lookup_eraseStream {other : String} (h : (s.inner.erase streamId).lookup other = some arc) :
    s.inner.lookup other = some arc := by
  by_cases heq : other = streamId
  · rw [heq, AList.lookup_erase] at h
    cases h
  · rwa [AList.lookup_erase_ne heq] at h

theorem Indexed.eraseStream (h : Indexed s) : Indexed { s with inner := s.inner.erase streamId } where
  valid := fun _ _ hlookup => h.valid _ _ (lookup_eraseStream hlookup)
  points := fun _ _ hlookup => h.points _ _ (lookup_eraseStream hlookup)

theorem Indexed.eraseRequest (h : Indexed s) (hfree : NoActive requestId s) :
    Indexed { s with activeRequestIds := s.activeRequestIds.erase requestId } where
  valid := h.valid
  points := fun other arc hlookup hactive => by
    have hne : (s.entry arc).requestId ≠ requestId := fun heq => hfree other arc hlookup heq hactive
    show (s.activeRequestIds.erase requestId).lookup (s.entry arc).requestId = some other
    rw [AList.lookup_erase_ne hne]
    exact h.points other arc hlookup hactive

/-- The stream that the request leads to is not registered. -/
theorem Indexed.noActive_of_gone (h : Indexed s) (hindex : s.activeRequestIds.lookup requestId = some streamId)
    (hgone : s.inner.lookup streamId = none) : NoActive requestId s := by
  intro other arc hlookup hrequest hactive
  have hpoints := h.points other arc hlookup hactive
  rw [hrequest, hindex] at hpoints
  rw [Option.some.inj hpoints, hlookup] at hgone
  cases hgone

theorem keeps_eraseStream (hheld : .inner ∈ held.map Guard.mutex) :
    Keeps held s { s with inner := s.inner.erase streamId } where
  index := fun _ => rfl
  map := fun hnot => absurd hheld hnot
  shrinks := fun _ _ _ => lookup_eraseStream
  grows := le_rfl
  requests := fun _ _ => rfl
  active := fun _ _ h => h

theorem keeps_eraseRequest (hheld : .activeRequestIds ∈ held.map Guard.mutex) :
    Keeps held s { s with activeRequestIds := s.activeRequestIds.erase requestId } where
  index := fun hnot => absurd hheld hnot
  map := fun _ => rfl
  shrinks := fun _ _ _ h => h
  grows := le_rfl
  requests := fun _ _ => rfl
  active := fun _ _ h => h

theorem notMem_of_apart {held' : List Guard} {g : Guard} (h : Apart Guard.mutex held held') (hg : g ∈ held) :
    g.mutex ∉ held'.map Guard.mutex := by
  intro hmem
  obtain ⟨g', hg', heq⟩ := List.mem_map.mp hmem
  exact h g hg g' hg' heq.symm

/-- Under the map's guard, what is not registered stays so. -/
theorem stable_gone (hheld : .removal ∈ held) :
    discipline.Stable Guard.mutex held fun s => s.inner.lookup streamId = none := by
  intro held' s s' hapart hkeeps _ hgone
  rw [hkeeps.map (notMem_of_apart hapart hheld)]
  exact hgone

theorem neutral_remove : Neutral [] (remove streamId) := by
  have hfound : Neutral [] (.within .map do
      match ← .read fun _ s => s.inner.lookup streamId with
      | none => pure none
      | some arc => withArc arc fun _ e => (e, some e.requestId) : Call (Option String)) := by
    refine Discipline.Neutral.within (Or.inl rfl) ((neutral_read _).bind fun found => ?_)
    cases found with
    | none => exact Discipline.neutral_pure _
    | some arc => exact neutral_look (Or.inr (Or.inr rfl))
  refine hfound.bind fun requestId => ?_
  cases requestId with
  | none =>
      exact Discipline.Neutral.within (Or.inl rfl)
        (Discipline.neutral_change fun _ _ hinv => ⟨hinv.eraseStream, keeps_eraseStream (List.mem_singleton_self _)⟩)
  | some requestId =>
      intro Q hQ
      refine Discipline.outline_section rfl (Discipline.outline_bind (Discipline.outline_change fun w s hinv _ => ?_))
      -- the stream is gone until the guard of the map is given back
      refine ⟨hinv.eraseStream, keeps_eraseStream (List.mem_singleton_self _),
        fun s => s.inner.lookup streamId = none, AList.lookup_erase _ _, stable_gone (List.mem_singleton_self _), ?_⟩
      refine Discipline.outline_section rfl (Discipline.outline_change fun w s hinv hgone => ?_)
      dsimp only
      split
      next hindex =>
        exact ⟨hinv.eraseRequest (hinv.noActive_of_gone hindex hgone), keeps_eraseRequest List.mem_cons_self,
          fun _ => True, trivial, Discipline.stable_true, rfl, rfl, hQ ()⟩
      next => exact ⟨hinv, Keeps.refl, fun _ => True, trivial, Discipline.stable_true, rfl, rfl, hQ ()⟩

theorem stable_noActive (hheld : .requests ∈ held) :
    discipline.Stable Guard.mutex held (NoActive requestId) := by
  intro held' s s' hapart hkeeps hinv hfree other arc hlookup hrequest hactive
  have hlookup := hkeeps.shrinks (notMem_of_apart hapart hheld) other arc hlookup
  have hvalid := hinv.valid other arc hlookup
  rw [hkeeps.requests arc hvalid] at hrequest
  exact hfree other arc hlookup hrequest (hkeeps.active arc hvalid hactive)

theorem entry_append {e : StreamRegistryEntry} (s' : StreamRegistry) (hentries : s'.entries = s.entries ++ [e]) :
    (∀ arc < s.entries.length, s'.entry arc = s.entry arc) ∧ s'.entry s.entries.length = e := by
  constructor
  · intro arc hvalid
    rw [entry, hentries, List.getD_eq_getElem?_getD, List.getElem?_append_left hvalid, entry,
      List.getD_eq_getElem?_getD]
  · rw [entry, hentries, List.getD_eq_getElem?_getD, List.getElem?_concat_length]
    rfl

/-- An entry is made for a stream and its request. -/
theorem Indexed.insert (h : Indexed s) (hfree : NoActive requestId s) {e : StreamRegistryEntry}
    (he : e.requestId = requestId) :
    Indexed ⟨s.entries ++ [e], s.inner.insert streamId s.entries.length,
      s.activeRequestIds.insert requestId streamId⟩ := by
  have hsplit : ∀ other arc, (s.inner.insert streamId s.entries.length).lookup other = some arc →
      other = streamId ∧ arc = s.entries.length ∨ other ≠ streamId ∧ s.inner.lookup other = some arc := by
    intro other arc hlookup
    by_cases heq : other = streamId
    · rw [heq, AList.lookup_insert] at hlookup
      exact Or.inl ⟨heq, (Option.some.inj hlookup).symm⟩
    · rw [AList.lookup_insert_ne heq] at hlookup
      exact Or.inr ⟨heq, hlookup⟩
  constructor
  · intro other arc hlookup
    show arc < (s.entries ++ [e]).length
    rw [List.length_append, List.length_singleton]
    rcases hsplit other arc hlookup with ⟨-, rfl⟩ | ⟨-, hlookup⟩
    · exact Nat.lt_succ_self _
    · exact Nat.lt_succ_of_lt (h.valid other arc hlookup)
  · intro other arc hlookup
    obtain ⟨hold, hnew⟩ := entry_append (s := s) (e := e) ⟨s.entries ++ [e],
      s.inner.insert streamId s.entries.length, s.activeRequestIds.insert requestId streamId⟩ rfl
    rcases hsplit other arc hlookup with ⟨rfl, rfl⟩ | ⟨hne, hlookup⟩
    · rw [hnew, he]
      exact fun _ => AList.lookup_insert _
    · rw [hold arc (h.valid other arc hlookup)]
      intro hactive
      have hother : (s.entry arc).requestId ≠ requestId := fun heq => hfree other arc hlookup heq hactive
      rw [AList.lookup_insert_ne hother]
      exact h.points other arc hlookup hactive

theorem outline_insertEntry {outbound : Bool} {R : StreamRegistry → Prop}
    {Q : TryRegisterStreamOutcome → List Guard → (StreamRegistry → Prop) → Prop}
    (hfree : ∀ s, Indexed s → R s → NoActive requestId s) (hQ : Q .registered [.requests] fun _ => True) :
    discipline.Outline Guard.mutex (insertEntry streamId requestId tabId outbound) [.requests] R Q := by
  refine Discipline.outline_bind (Discipline.outline_within (Or.inr rfl)
    (Discipline.outline_change fun w s hinv hR => ?_))
  obtain ⟨hold, -⟩ := entry_append (s := s) ⟨_, s.inner.insert streamId s.entries.length,
    s.activeRequestIds.insert requestId streamId⟩ rfl
  refine ⟨hinv.insert (hfree s hinv hR) rfl, ⟨fun h => ?_, fun h => ?_, fun h => ?_, ?_, ?_, ?_⟩, fun _ => True,
    trivial, Discipline.stable_true, fun _ => True, fun _ _ => trivial, Discipline.stable_true, hQ⟩
  · exact absurd (List.mem_cons_of_mem _ List.mem_cons_self) h
  · exact absurd List.mem_cons_self h
  · exact absurd (List.mem_cons_of_mem _ List.mem_cons_self) h
  · show s.entries.length ≤ (s.entries ++ [_]).length
    rw [List.length_append]
    exact Nat.le_add_right _ _
  · exact fun arc hvalid => congrArg StreamRegistryEntry.requestId (hold arc hvalid)
  · exact fun arc hvalid hactive => (congrArg StreamRegistryEntry.status (hold arc hvalid)).symm.trans hactive

/-- The request leads to the stream. -/
def Leads (requestId streamId : String) (s : StreamRegistry) : Prop :=
  s.activeRequestIds.lookup requestId = some streamId

/-- If the stream is registered, then with what was found. -/
def Found (streamId : String) (found : Option ℕ) (s : StreamRegistry) : Prop :=
  ∀ arc, s.inner.lookup streamId = some arc → found = some arc

theorem stable_found {found : Option ℕ} (hheld : .requests ∈ held) :
    discipline.Stable Guard.mutex held fun s => Leads requestId streamId s ∧ Found streamId found s := by
  intro held' s s' hapart hkeeps _ ⟨hleads, hfound⟩
  have hnot := notMem_of_apart hapart hheld
  exact ⟨(congrArg _ (hkeeps.index hnot)).trans hleads, fun arc hlookup => hfound arc (hkeeps.shrinks hnot _ _ hlookup)⟩

theorem stable_leads (hheld : .requests ∈ held) :
    discipline.Stable Guard.mutex held (Leads requestId streamId) := by
  intro held' s s' hapart hkeeps _ hleads
  exact (congrArg _ (hkeeps.index (notMem_of_apart hapart hheld))).trans hleads

/-- What a request leads to is not active, so that no stream is for the request. -/
theorem Indexed.noActive_of_found (h : Indexed s) {found : Option ℕ} (hleads : Leads requestId streamId s)
    (hfound : Found streamId found s) (hover : ∀ arc, found = some arc → (s.entry arc).status ≠ .active) :
    NoActive requestId s := by
  intro other arc hlookup hrequest hactive
  have hpoints := h.points other arc hlookup hactive
  rw [hrequest] at hpoints
  have heq : streamId = other := Option.some.inj (hleads.symm.trans hpoints)
  exact hover arc (hfound arc (heq ▸ hlookup)) hactive

theorem set_entry : s.entries.set arc (s.entry arc) = s.entries := by
  by_cases hvalid : arc < s.entries.length
  · rw [entry, List.getD_eq_getElem?_getD, List.getElem?_eq_getElem hvalid]
    exact List.set_getElem_self hvalid
  · exact List.set_eq_of_length_le (Nat.le_of_not_lt hvalid)

theorem outline_existingActive {Q : Bool → List Guard → (StreamRegistry → Prop) → Prop}
    (hactive : Q true [.requests] fun _ => True)
    (hnot : ∀ R : StreamRegistry → Prop, (∀ s, Indexed s → R s → NoActive requestId s) →
      discipline.Stable Guard.mutex [.requests] R → Q false [.requests] R) :
    discipline.Outline Guard.mutex (existingActive streamId) [.requests] (Leads requestId streamId) Q := by
  have hheld : ∀ g, Guard.requests ∈ [g, Guard.requests] := fun g => List.mem_cons_of_mem g List.mem_cons_self
  have hfound : ∀ found, discipline.Stable Guard.mutex [.requests]
      fun s => Leads requestId streamId s ∧ Found streamId found s :=
    fun _ => stable_found (List.mem_singleton_self _)
  refine Discipline.outline_bind (Discipline.outline_within (Or.inr rfl)
    (Discipline.outline_change fun w s hinv hleads => ?_))
  refine ⟨hinv, Keeps.refl, fun s' => Leads requestId streamId s' ∧ Found streamId (s.inner.lookup streamId) s',
    ⟨hleads, fun _ h => h⟩, stable_found (hheld _), _, fun _ h => h, hfound _, ?_⟩
  dsimp only
  cases s.inner.lookup streamId with
  | none =>
      exact hnot _ (fun s hinv h => hinv.noActive_of_found h.1 h.2 nofun) (hfound _)
  | some arc =>
      refine Discipline.outline_within (Or.inr (Or.inl rfl)) (Discipline.outline_change fun w s hinv h => ?_)
      simp only [set_entry, List.erase_cons_head]
      refine ⟨hinv, Keeps.refl, ?_⟩
      cases hstatus : (s.entry arc).status == .active with
      | true =>
          exact ⟨fun _ => True, trivial, Discipline.stable_true, fun _ => True, fun _ _ => trivial,
            Discipline.stable_true, hactive⟩
      | false =>
          have hfree : NoActive requestId s := hinv.noActive_of_found h.1 h.2 fun arc' heq => by
            cases heq
            exact beq_eq_false_iff_ne.mp hstatus
          exact ⟨NoActive requestId, hfree, stable_noActive (hheld _), NoActive requestId, fun _ h => h,
            stable_noActive (List.mem_singleton_self _),
            hnot _ (fun _ _ h => h) (stable_noActive (List.mem_singleton_self _))⟩

theorem neutral_tryRegister {outbound : Bool} : Neutral [] (tryRegister streamId requestId tabId outbound) := by
  intro Q hQ
  have hheld : Guard.requests ∈ [Guard.requests] := List.mem_singleton_self _
  refine Discipline.outline_section rfl (Discipline.outline_bind (Discipline.outline_change fun w s hinv _ => ?_))
  refine ⟨hinv, Keeps.refl, ?_⟩
  dsimp only
  cases hindex : s.activeRequestIds.lookup requestId with
  | none =>
      refine ⟨NoActive requestId, fun other arc hlookup hrequest hactive => ?_, stable_noActive hheld,
        outline_insertEntry (fun _ _ hfree => hfree) ⟨rfl, hQ _⟩⟩
      have hpoints := hinv.points other arc hlookup hactive
      rw [hrequest, hindex] at hpoints
      cases hpoints
  | some existing =>
      refine ⟨Leads requestId existing, hindex, stable_leads hheld, ?_⟩
      refine Discipline.outline_bind (outline_existingActive ⟨rfl, hQ _⟩ fun R hfree hstable => ?_)
      refine Discipline.outline_bind (Discipline.outline_change fun w s hinv hR => ?_)
      have hnone := hfree s hinv hR
      exact ⟨hinv.eraseRequest hnone, keeps_eraseRequest (List.mem_singleton_self _), NoActive requestId, hnone,
        stable_noActive hheld, outline_insertEntry (fun _ _ hfree => hfree) ⟨rfl, hQ _⟩⟩

theorem neutral_removeEach (streamIds : List String) : Neutral [] (removeEach streamIds) :=
  (Discipline.neutral_filterMap (fun _ => neutral_remove.bind fun _ => Discipline.neutral_pure _) streamIds).bind
    fun _ => Discipline.neutral_pure _

theorem neutral_listStreamIds : Neutral [] listStreamIds := Discipline.Neutral.within (Or.inl rfl) (neutral_read _)

theorem neutral_cancelEach (tabIds : List String) :
    Neutral [] (.filterMap (fun tabId => do
      let active ← cancelActiveForTab tabId
      pure (some active.length)) tabIds) :=
  Discipline.neutral_filterMap (fun _ => neutral_cancelActiveForTab.bind fun _ => Discipline.neutral_pure _) tabIds

theorem neutral_cancelAllActive : Neutral [] cancelAllActive :=
  neutral_pass.bind fun _ => (neutral_read _).bind fun tabIds =>
    (neutral_cancelEach tabIds).bind fun _ => Discipline.neutral_pure _

theorem neutral_sweepOrphans {detachedTabs : List (String × ℕ)} {orphanGrace terminalGrace : ℕ} :
    Neutral [] (sweepOrphans detachedTabs orphanGrace terminalGrace) := by
  refine (neutral_read _).bind fun now => ?_
  refine (Discipline.neutral_filterMap (fun _ => neutral_read _) detachedTabs).bind fun detachedExpired => ?_
  refine (neutral_cancelEach detachedExpired).bind fun cancelled => neutral_listStreamIds.bind fun streamIds => ?_
  refine (Discipline.neutral_filterMap (fun streamId => ?_) streamIds).bind fun _ => Discipline.neutral_pure _
  refine neutral_getEntry.bind fun found => ?_
  cases found with
  | none => exact Discipline.neutral_pure _
  | some arc =>
      refine (neutral_look (Or.inl rfl)).bind fun shouldRemove => ?_
      split
      next => exact neutral_remove.bind fun _ => Discipline.neutral_pure _
      next => exact Discipline.neutral_pure _

theorem neutral_endControl : Neutral [] (endControl streamId tabId) := by
  refine (neutral_withEntry fun w e => ?_).bind fun _ => Discipline.neutral_pure _
  split <;> exact ⟨rfl, id⟩

theorem neutral_cancelControl : Neutral [] (cancelControl streamId tabId) := by
  refine (neutral_withEntry fun w e => ?_).bind fun _ => Discipline.neutral_pure _
  split
  next => exact ⟨rfl, id⟩
  next => exact keeps_cancelEntry w e

theorem neutral_sendOutbound : Neutral [] (sendOutbound streamId tabId) := by
  refine neutral_withEntry fun w e => ?_
  split
  next => exact ⟨rfl, id⟩
  next =>
    split
    next => exact ⟨rfl, id⟩
    next => split <;> exact ⟨rfl, id⟩

/-! ## Operations -/

inductive Operation
  | tryRegister (streamId requestId tabId : String) (outbound : Bool)
  | remove (streamId : String)
  | removeAll
  | removeAllForTab (tabId : String)
  | cancelActiveForTab (tabId : String)
  | cancelAllActive
  | sweepOrphans (detachedTabs : List (String × ℕ)) (orphanGrace terminalGrace : ℕ)
  | markTerminal (streamId : String) (status : StreamRegistryStatus)
  | drainPendingEventsForTab (tabId : String)
  | endControl (streamId tabId : String)
  | cancelControl (streamId tabId : String)
  | sendOutbound (streamId tabId : String)
deriving DecidableEq, Repr

/-- A call whose result nobody looks at. -/
def Operation.call : Operation → Call Unit
  | .tryRegister streamId requestId tabId outbound => do
      let _ ← StreamRegistry.tryRegister streamId requestId tabId outbound
  | .remove streamId => StreamRegistry.remove streamId
  | .removeAll => do let _ ← StreamRegistry.removeAll
  | .removeAllForTab tabId => do let _ ← StreamRegistry.removeAllForTab tabId
  | .cancelActiveForTab tabId => do let _ ← StreamRegistry.cancelActiveForTab tabId
  | .cancelAllActive => do let _ ← StreamRegistry.cancelAllActive
  | .sweepOrphans detachedTabs orphanGrace terminalGrace => do
      let _ ← StreamRegistry.sweepOrphans detachedTabs orphanGrace terminalGrace
  | .markTerminal streamId status => StreamRegistry.markTerminal streamId status
  | .drainPendingEventsForTab tabId => do let _ ← StreamRegistry.drainPendingEventsForTab tabId
  | .endControl streamId tabId => do let _ ← StreamRegistry.endControl streamId tabId
  | .cancelControl streamId tabId => do let _ ← StreamRegistry.cancelControl streamId tabId
  | .sendOutbound streamId tabId => do let _ ← StreamRegistry.sendOutbound streamId tabId

theorem neutral_call (o : Operation) : Neutral [] o.call := by
  have hend : ∀ {α : Type} {p : Call α}, Neutral [] p → Neutral [] (do let _ ← p) :=
    fun hp => hp.bind fun _ => Discipline.neutral_pure ()
  cases o with
  | tryRegister => exact hend neutral_tryRegister
  | remove => exact neutral_remove
  | removeAll => exact hend (neutral_listStreamIds.bind neutral_removeEach)
  | removeAllForTab => exact hend (neutral_pass.bind neutral_removeEach)
  | cancelActiveForTab => exact hend neutral_cancelActiveForTab
  | cancelAllActive => exact hend neutral_cancelAllActive
  | sweepOrphans => exact hend neutral_sweepOrphans
  | markTerminal => exact neutral_markTerminal
  | drainPendingEventsForTab => exact hend neutral_drainPendingEventsForTab
  | endControl => exact hend neutral_endControl
  | cancelControl => exact hend neutral_cancelControl
  | sendOutbound => exact hend neutral_sendOutbound

/-! ## Deadlock -/

abbrev State : Type := Threads Guard Surroundings StreamRegistry

/-- The registry with its calls, none of which has begun. -/
def start (operations : List Operation) : State := .start default (operations.map Operation.call)

def next (l : ℕ × Surroundings) (s : State) : Option State := s.next Guard.mutex l

/-- A registration takes the index while no removal is in its second part, and a removal takes
the map for its second part while no registration has the index. -/
def clear (l : ℕ × Surroundings) (s : State) : Bool :=
  s.threads[l.1]?.all fun t =>
    match t.prog.wanted with
    | some .requests => s.threads.all fun u => !u.busy .removal
    | some .removal => s.threads.all fun u => !u.busy .requests
    | _ => true

/-- A registration has the index, and a removal is in its second part. -/
def Crossing (s : State) : Prop :=
  (∃ t ∈ s.threads, t.busy .requests = true) ∧ ∃ u ∈ s.threads, u.busy .removal = true

theorem start_sound (operations : List Operation) :
    discipline.Sound Guard.mutex (start operations) := by
  have hinv : Indexed default := ⟨fun _ _ h => (nomatch h), fun _ _ h => (nomatch h)⟩
  refine Discipline.start_sound hinv fun p hp => ?_
  obtain ⟨o, -, rfl⟩ := List.mem_map.mp hp
  exact neutral_call o _ fun _ => rfl

theorem start_not_crossing (operations : List Operation) : ¬Crossing (start operations) := by
  rintro ⟨⟨t, ht, hbusy⟩, -⟩
  obtain ⟨p, -, rfl⟩ := List.mem_map.mp ht
  cases hbusy

theorem not_crossing_step {s s' : State} {l : ℕ × Surroundings} (hsound : discipline.Sound Guard.mutex s)
    (h : ¬Crossing s) (hclear : clear l s = true) (hnext : next l s = some s') : ¬Crossing s' := by
  rintro ⟨⟨t, ht, hrequests⟩, u, hu, hremoval⟩
  have hone : ∀ t, s.threads[l.1]? = some t → ∀ g, t.prog.wanted = some g →
      (g = .requests → ∀ u ∈ s.threads, u.busy .removal = false) ∧
        (g = .removal → ∀ u ∈ s.threads, u.busy .requests = false) := by
    intro t ht g hwanted
    rw [clear, ht, Option.all_some, hwanted] at hclear
    constructor <;> rintro rfl u hu
    · simpa using List.all_eq_true.mp hclear u hu
    · simpa using List.all_eq_true.mp hclear u hu
  rcases Threads.busy_step hsound.exclusive hnext ht hrequests with hbefore | ⟨t', ht', hwanted⟩
  · rcases Threads.busy_step hsound.exclusive hnext hu hremoval with hbefore' | ⟨u', hu', hwanted⟩
    · exact h ⟨hbefore, hbefore'⟩
    · obtain ⟨v, hv, hbusy⟩ := hbefore
      rw [(hone u' hu' _ hwanted).2 rfl v hv] at hbusy
      cases hbusy
  · rcases Threads.busy_step hsound.exclusive hnext hu hremoval with hbefore' | ⟨u', hu', hwanted'⟩
    · obtain ⟨v, hv, hbusy⟩ := hbefore'
      rw [(hone t' ht' _ hwanted).1 rfl v hv] at hbusy
      cases hbusy
    · -- one thread wants one guard
      rw [ht'] at hu'
      cases hu'
      rw [hwanted] at hwanted'
      cases hwanted'

/-- Whoever wants a guard holds no other, or one that it is taken under. -/
theorem under_of_allowed {g h : Guard} (hallowed : Allowed held g) (hh : h ∈ held) :
    g = .map ∧ h = .requests ∨ g = .index ∧ h = .removal ∨
      ∃ arc, g = .entry arc ∧ (h = .requests ∨ h = .map) := by
  cases g with
  | requests =>
      rw [show held = [] from hallowed] at hh
      cases hh
  | removal =>
      rw [show held = [] from hallowed] at hh
      cases hh
  | map =>
      rcases hallowed with rfl | rfl
      · cases hh
      · exact Or.inl ⟨rfl, List.mem_singleton.mp hh⟩
  | index =>
      rw [show held = [.removal] from hallowed] at hh
      exact Or.inr (Or.inl ⟨rfl, List.mem_singleton.mp hh⟩)
  | entry arc =>
      rcases hallowed with rfl | rfl | rfl
      · cases hh
      · exact Or.inr (Or.inr ⟨arc, rfl, Or.inl (List.mem_singleton.mp hh)⟩)
      · exact Or.inr (Or.inr ⟨arc, rfl, Or.inr (List.mem_singleton.mp hh)⟩)

/-- The order of the mutexes: which of the two maps comes first depends on who waits. -/
def rank (indexLast : Bool) : Mutex → ℕ
  | .inner => if indexLast then 0 else 1
  | .activeRequestIds => if indexLast then 1 else 0
  | .entry _ => 2

theorem busy_of_wanted {t : Thread Guard Surroundings StreamRegistry} {g h : Guard}
    (hwanted : t.prog.wanted = some g) (hh : h ∈ t.held) : t.busy h = true := by
  obtain ⟨held, p⟩ := t
  cases p with
  | lock g p => exact Bool.and_eq_true_iff.mpr ⟨decide_eq_true hh, rfl⟩
  | ret => cases hwanted
  | unlock => cases hwanted
  | access => cases hwanted

theorem goes_on {s : State} (hsound : discipline.Sound Guard.mutex s) (hcrossing : ¬Crossing s)
    (hgoing : ∃ t ∈ s.threads, t.prog.finished = false) : ∃ l s', next l s = some s' := by
  have hdone : ∀ t ∈ s.threads, t.prog.finished = true → t.held = [] :=
    fun t ht hfinished => (hsound.outlined t ht).held_nil hfinished
  have hunder := fun t ht g (hwanted : t.prog.wanted = some g) h (hh : h ∈ t.held) =>
    under_of_allowed ((hsound.outlined t ht).allowed hwanted) hh
  obtain ⟨i, hcan⟩ : ∃ i, s.canStep Guard.mutex i = true := by
    by_cases hindex : ∃ u ∈ s.threads, u.prog.wanted = some .index ∧ u.busy .removal = true
    · -- nobody waits for the map under the index
      refine Threads.exists_canStep hdone (rank true) (fun t ht g hwanted h hh => ?_) hgoing
      obtain ⟨u, hu, -, hremoval⟩ := hindex
      rcases hunder t ht g hwanted h hh with ⟨rfl, rfl⟩ | ⟨rfl, rfl⟩ | ⟨arc, rfl, rfl | rfl⟩
      · exact absurd ⟨⟨t, ht, busy_of_wanted hwanted hh⟩, u, hu, hremoval⟩ hcrossing
      · exact Nat.zero_lt_one
      · exact Nat.one_lt_two
      · exact Nat.zero_lt_two
    · -- nobody waits for the index under the map
      refine Threads.exists_canStep hdone (rank false) (fun t ht g hwanted h hh => ?_) hgoing
      rcases hunder t ht g hwanted h hh with ⟨rfl, rfl⟩ | ⟨rfl, rfl⟩ | ⟨arc, rfl, rfl | rfl⟩
      · exact Nat.zero_lt_one
      · exact absurd ⟨t, ht, hwanted, busy_of_wanted hwanted hh⟩ hindex
      · exact Nat.zero_lt_two
      · exact Nat.one_lt_two
  have : Nonempty Surroundings := ⟨⟨0, id, List.Perm.refl, true⟩⟩
  obtain ⟨w, s', hnext⟩ := Threads.canStep_iff.mp hcan
  exact ⟨(i, w), s', hnext⟩

/-- What is asked of a state: it is no deadlock, and when all have finished, a request leads to
the one stream that is active for it. -/
structure Live (s : State) : Prop where
  goesOn : (∃ t ∈ s.threads, t.prog.finished = false) → ∃ l s', next l s = some s'
  indexed : (∀ t ∈ s.threads, t.prog.finished = true) → ∀ streamId arc requestId,
    s.shared.inner.lookup streamId = some arc → (s.shared.entry arc).requestId = requestId →
    (s.shared.entry arc).status = .active → s.shared.activeRequestIds.lookup requestId = some streamId ∧
      ∀ other arc', s.shared.inner.lookup other = some arc' → (s.shared.entry arc').requestId = requestId →
        (s.shared.entry arc').status = .active → other = streamId

/-- **The registry does not deadlock** in a run in which no registration and removal cross. -/
theorem registry_live (operations : List Operation) (ls : List (ℕ × Surroundings)) (s : State)
    (hclear : AllSteps next (fun l s => clear l s = true) (start operations) ls)
    (hrun : exec next (start operations) ls = some s) : Live s := by
  obtain ⟨hsound, hcrossing⟩ : discipline.Sound Guard.mutex s ∧ ¬Crossing s :=
    exec_invariant (I := fun s => discipline.Sound Guard.mutex s ∧ ¬Crossing s)
      (fun _ _ _ h hclear hnext => ⟨h.1.step hnext, not_crossing_step h.1 h.2 hclear hnext⟩)
      ⟨start_sound operations, start_not_crossing operations⟩ hclear hrun
  refine ⟨goes_on hsound hcrossing, fun _ streamId arc requestId hlookup hrequest hactive => ?_⟩
  have hpoints : ∀ other arc', s.shared.inner.lookup other = some arc' →
      (s.shared.entry arc').requestId = requestId → (s.shared.entry arc').status = .active →
      s.shared.activeRequestIds.lookup requestId = some other := by
    rintro other arc' hlookup rfl hactive
    exact hsound.inv.points other arc' hlookup hactive
  have hleads := hpoints streamId arc hlookup hrequest hactive
  refine ⟨hleads, fun other arc' hlookup' hrequest' hactive' => ?_⟩
  exact Option.some.inj ((hpoints other arc' hlookup' hrequest' hactive').symm.trans hleads)

/-- The clock stands still, and the maps are gone through as they are. -/
def still : Surroundings := ⟨0, id, List.Perm.refl, true⟩

/-- A request is served by one stream after another, and the one that is over is removed meanwhile. -/
def handover : List Operation :=
  [.tryRegister "s1" "req-1" "tab-a" false, .markTerminal "s1" .ended, .remove "s1",
    .tryRegister "s2" "req-1" "tab-a" false]

def turns (order : List (ℕ × ℕ)) : List (ℕ × Surroundings) :=
  order.flatMap fun (n, i) => List.replicate n (i, still)

theorem registry_live_handover : ∃ s,
    exec next (start handover) (turns [(6, 0), (6, 1), (6, 2), (13, 3), (6, 2)]) = some s ∧ Live s := by
  have hclear : AllSteps next (fun l s => clear l s = true) (start handover)
      (turns [(6, 0), (6, 1), (6, 2), (13, 3), (6, 2)]) := by decide
  obtain ⟨s, hrun, -⟩ : ∃ s, exec next (start handover) (turns [(6, 0), (6, 1), (6, 2), (13, 3), (6, 2)]) = some s ∧
      (s.threads.all fun t => t.prog.finished) = true := exists_exec (by decide)
  exact ⟨s, hrun, registry_live handover _ s hclear hrun⟩

/-- No thread can take a step. -/
def stuck (s : State) : Bool := (List.range s.threads.length).all fun i => !s.canStep Guard.mutex i

theorem next_of_stuck {s : State} (h : stuck s = true) (l : ℕ × Surroundings) : next l s = none := by
  obtain ⟨i, w⟩ := l
  have hcan : s.canStep Guard.mutex i = false := by
    by_cases hi : i < s.threads.length
    · simpa using List.all_eq_true.mp h i (List.mem_range.mpr hi)
    · rw [Threads.canStep, List.getElem?_eq_none (Nat.le_of_not_lt hi)]
      rfl
  exact if_neg (by rw [hcan]; exact Bool.false_ne_true)

/-- The registration has the index, and the removal the map. -/
theorem registry_deadlock : ∃ s, exec next (start handover) (turns [(6, 0), (6, 1), (6, 2), (2, 3), (2, 2)]) = some s ∧
    (∃ t ∈ s.threads, t.prog.finished = false) ∧ ∀ l, next l s = none := by
  obtain ⟨s, hrun, hgoing, hstuck⟩ : ∃ s, exec next (start handover) (turns [(6, 0), (6, 1), (6, 2), (2, 3), (2, 2)]) =
      some s ∧ (s.threads.any (fun t => !t.prog.finished) = true ∧ stuck s = true) := exists_exec (by decide)
  obtain ⟨t, ht, hfinished⟩ := List.any_eq_true.mp hgoing
  exact ⟨s, hrun, ⟨t, ht, by simpa using hfinished⟩, next_of_stuck hstuck⟩

end StreamRegistry

end RedFireForge.Native
