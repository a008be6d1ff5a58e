/-
# `RedFireForge.Grpc.StreamRegistry` — active streams by their request

The registry keeps a stream from its registration to its finalization, and a second map
leads from a request to the stream that is active for it.  A stream that has ended stays
registered for a while, and its request may be served again meanwhile: then two streams
share one key of the second map.
-/
import RedFireForge.Lib.InsertionMap
import RedFireForge.Lib.Run

namespace RedFireForge.Grpc

open RedFireForge.Lib

inductive GrpcStreamRegistryStatus
  | active | ended | cancelled | error
deriving DecidableEq, Repr

/-- Of an entry, what decides whether it is found and when it goes; its timers are the
steps `expire` and `finalize`. -/
structure GrpcStreamRegistryEntry where
  streamId : String
  tabId : String
  requestId : String
  status : GrpcStreamRegistryStatus
  sseClients : List ℕ
deriving DecidableEq, Repr

def GrpcStreamRegistryEntry.isActive (e : GrpcStreamRegistryEntry) : Bool := e.status == .active

structure RegisterGrpcStreamParams where
  streamId : String
  tabId : String
  requestId : String
deriving DecidableEq, Repr

structure StreamRegistry where
  registry : InsertionMap String GrpcStreamRegistryEntry
  activeRequestIds : InsertionMap String String

namespace StreamRegistry

def empty : StreamRegistry := ⟨∅, ∅⟩

variable (s : StreamRegistry)

def get (streamId : String) : Option GrpcStreamRegistryEntry := s.registry.lookup streamId

/-! ## Operations -/

def removeEntry (streamId : String) : StreamRegistry :=
  match s.get streamId with
  | none => s
  | some entry =>
      { registry := s.registry.erase streamId
        activeRequestIds := s.activeRequestIds.erase entry.requestId }

def findActiveGrpcStreamsByTabId (tabId : String) : List GrpcStreamRegistryEntry :=
  s.registry.values.filter (fun e => e.tabId == tabId && e.isActive)

/-- An empty identifier counts as none. -/
def findActiveGrpcStreamByRequestId (requestId : String) : Option GrpcStreamRegistryEntry :=
  ((s.activeRequestIds.lookup requestId).filter (· != "")).bind fun streamId =>
    (s.get streamId).filter (·.isActive)

def duplicateActiveRequest (requestId : String) : Bool :=
  (s.findActiveGrpcStreamByRequestId requestId).isSome

/-- The registry afterwards, and whether the stream was registered. -/
def tryRegisterGrpcStream (params : RegisterGrpcStreamParams) : StreamRegistry × Bool :=
  if s.duplicateActiveRequest params.requestId then (s, false)
  else
    ({ registry := s.registry.set params.streamId
         ⟨params.streamId, params.tabId, params.requestId, .active, []⟩
       activeRequestIds := s.activeRequestIds.set params.requestId params.streamId }, true)

def markGrpcStreamTerminal (streamId : String) (status : GrpcStreamRegistryStatus) : StreamRegistry :=
  match s.get streamId with
  | none => s
  | some entry =>
      if entry.isActive then
        { registry := s.registry.set streamId { entry with status := status }
          activeRequestIds := s.activeRequestIds.erase entry.requestId }
      else s

def cancelActiveGrpcStreamsForTab (tabId : String) : StreamRegistry :=
  (s.findActiveGrpcStreamsByTabId tabId).foldl
    (fun s entry => s.markGrpcStreamTerminal entry.streamId .cancelled) s

def cancelGrpcStreamEntry (streamId tabId : String) (status : GrpcStreamRegistryStatus) :
    StreamRegistry :=
  match s.get streamId with
  | none => s
  | some entry => if entry.tabId = tabId then s.markGrpcStreamTerminal streamId status else s

def withClients (streamId : String) (f : List ℕ → List ℕ) : StreamRegistry :=
  match s.get streamId with
  | none => s
  | some entry =>
      { s with registry := s.registry.set streamId { entry with sseClients := f entry.sseClients } }

def attachGrpcStreamSseClient (streamId : String) (res : ℕ) : StreamRegistry :=
  s.withClients streamId (fun l => if res ∈ l then l else l ++ [res])

def finalizeGrpcStreamEntry (streamId : String) : StreamRegistry := s.removeEntry streamId

/-- The last client of a stream that has ended takes it along. -/
def detachGrpcStreamSseClient (streamId : String) (res : ℕ) : StreamRegistry :=
  let closed := s.withClients streamId (·.erase res)
  match closed.get streamId with
  | none => closed
  | some entry =>
      if entry.sseClients = [] ∧ entry.isActive = false then closed.finalizeGrpcStreamEntry streamId
      else closed

def expireGrpcStreamAfterSseGrace (streamId : String) : StreamRegistry :=
  match s.get streamId with
  | none => s
  | some entry =>
      if entry.isActive = true ∧ entry.sseClients = [] then
        (s.markGrpcStreamTerminal streamId .cancelled).finalizeGrpcStreamEntry streamId
      else s

end StreamRegistry

/-- The ways in which a stream ends. -/
inductive TerminalStatus
  | ended | cancelled | error
deriving DecidableEq, Repr

def TerminalStatus.status : TerminalStatus → GrpcStreamRegistryStatus
  | .ended => .ended
  | .cancelled => .cancelled
  | .error => .error

inductive RegistryStep
  | register (params : RegisterGrpcStreamParams)
  | terminate (streamId : String) (status : TerminalStatus)
  | cancel (streamId tabId : String) (status : TerminalStatus)
  | cancelTab (tabId : String)
  | attach (streamId : String) (res : ℕ)
  | detach (streamId : String) (res : ℕ)
  | expire (streamId : String)
  | finalize (streamId : String)
deriving DecidableEq, Repr

def registryNext : RegistryStep → StreamRegistry → Option StreamRegistry
  | .register params, s => some (s.tryRegisterGrpcStream params).1
  | .terminate streamId status, s => some (s.markGrpcStreamTerminal streamId status.status)
  | .cancel streamId tabId status, s => some (s.cancelGrpcStreamEntry streamId tabId status.status)
  | .cancelTab tabId, s => some (s.cancelActiveGrpcStreamsForTab tabId)
  | .attach streamId res, s => some (s.attachGrpcStreamSseClient streamId res)
  | .detach streamId res, s => some (s.detachGrpcStreamSseClient streamId res)
  | .expire streamId, s => some (s.expireGrpcStreamAfterSseGrace streamId)
  | .finalize streamId, s => some (s.finalizeGrpcStreamEntry streamId)

/-! ## The index -/

namespace StreamRegistry

/-- At most one active stream for a request, it is found, and only then a registration is
refused. -/
structure Indexed (s : StreamRegistry) : Prop where
  once : ∀ id id' e e', s.get id = some e → s.get id' = some e' → e.isActive = true →
    e'.isActive = true → e.requestId = e'.requestId → id = id'
  found : ∀ id e, s.get id = some e → e.isActive = true →
    s.findActiveGrpcStreamByRequestId e.requestId = some e
  refused : ∀ params, (s.tryRegisterGrpcStream params).2 = false ↔
    ∃ id e, s.get id = some e ∧ e.isActive = true ∧ e.requestId = params.requestId

/-- The stream that a step removes, if any. -/
def removes : RegistryStep → StreamRegistry → Option String
  | .finalize streamId, _ => some streamId
  | .detach streamId res, s =>
      (s.get streamId).bind fun entry =>
        if entry.sseClients.erase res = [] ∧ entry.isActive = false then some streamId else none
  | _, _ => none

/-- The request for which a stream is active. -/
def activeRequest (s : StreamRegistry) (streamId : String) : Option String :=
  ((s.get streamId).filter (·.isActive)).map (·.requestId)

/-- Another stream is active for the request of a registered one. -/
def sharesRequest (s : StreamRegistry) (streamId : String) : Bool :=
  (s.get streamId).any fun entry =>
    s.registry.keys.any fun id => id != streamId && s.activeRequest id == some entry.requestId

/-- A stream that is removed does not share its request with an active one, and a new stream
has an identifier that is not empty and belongs to no active one. -/
def keepsIndex (l : RegistryStep) (s : StreamRegistry) : Bool :=
  match l with
  | .register params =>
      s.duplicateActiveRequest params.requestId ||
        (params.streamId != "" && s.activeRequest params.streamId == none)
  | _ => !(removes l s).any s.sharesRequest

/-- The entries stand under their identifiers. -/
def Keyed (s : StreamRegistry) : Prop := ∀ id e, s.get id = some e → e.streamId = id

/-- The second map leads to every active stream, and to no active stream of another request. -/
structure Leads (s : StreamRegistry) : Prop where
  active : ∀ id r, s.activeRequest id = some r → s.activeRequestIds.lookup r = some id ∧ id ≠ ""
  only : ∀ id r r', s.activeRequestIds.lookup r = some id → id ≠ "" → s.activeRequest id = some r' →
    r' = r

variable {s s' : StreamRegistry} {id r : String} {e : GrpcStreamRegistryEntry}

theorem activeRequest_eq_some :
    s.activeRequest id = some r ↔ ∃ e, s.get id = some e ∧ e.isActive = true ∧ e.requestId = r := by
  simp [activeRequest, Option.filter_eq_some_iff, and_assoc]

theorem find_eq_some : s.findActiveGrpcStreamByRequestId r = some e ↔
    ∃ id, s.activeRequestIds.lookup r = some id ∧ id ≠ "" ∧ s.get id = some e ∧ e.isActive = true := by
  simp [findActiveGrpcStreamByRequestId, Option.bind_eq_some_iff, Option.filter_eq_some_iff, and_assoc]

theorem duplicate_iff : s.duplicateActiveRequest r = true ↔
    ∃ id r', s.activeRequestIds.lookup r = some id ∧ id ≠ "" ∧ s.activeRequest id = some r' := by
  rw [duplicateActiveRequest, Option.isSome_iff_exists]
  constructor
  · rintro ⟨e, he⟩
    obtain ⟨id, hid, hne, he, ha⟩ := find_eq_some.mp he
    exact ⟨id, e.requestId, hid, hne, activeRequest_eq_some.mpr ⟨e, he, ha, rfl⟩⟩
  · rintro ⟨id, r', hid, hne, hactive⟩
    obtain ⟨e, he, ha, -⟩ := activeRequest_eq_some.mp hactive
    exact ⟨e, find_eq_some.mpr ⟨id, hid, hne, he, ha⟩⟩

theorem refused_iff {params : RegisterGrpcStreamParams} :
    (s.tryRegisterGrpcStream params).2 = false ↔ s.duplicateActiveRequest params.requestId = true := by
  unfold tryRegisterGrpcStream
  split
  next h => simp [h]
  next h => simp [h]

/-- The index serves exactly if the second map leads to the active streams. -/
theorem indexed_iff (hkeyed : s.Keyed) : s.Indexed ↔ s.Leads := by
  constructor
  · intro h
    have hactive : ∀ id r, s.activeRequest id = some r →
        s.activeRequestIds.lookup r = some id ∧ id ≠ "" := by
      intro id r hr
      obtain ⟨e, he, ha, rfl⟩ := activeRequest_eq_some.mp hr
      obtain ⟨id', hid', hne, he', -⟩ := find_eq_some.mp (h.found id e he ha)
      have hsame : id' = id := (hkeyed id' e he').symm.trans (hkeyed id e he)
      exact ⟨hsame ▸ hid', hsame ▸ hne⟩
    refine ⟨hactive, fun id r r' hid hne hr' => ?_⟩
    have hrefused : (s.tryRegisterGrpcStream ⟨id, "", r⟩).2 = false :=
      refused_iff.mpr (duplicate_iff.mpr ⟨id, r', hid, hne, hr'⟩)
    obtain ⟨id', e', he', ha', hreq⟩ := (h.refused _).mp hrefused
    have hthere := (hactive id' r (activeRequest_eq_some.mpr ⟨e', he', ha', hreq⟩)).1
    rw [hid, Option.some.injEq] at hthere
    subst hthere
    have hr := activeRequest_eq_some.mpr ⟨e', he', ha', hreq⟩
    rw [hr', Option.some.injEq] at hr
    exact hr
  · intro h
    refine ⟨fun id id' e e' he he' ha ha' hreq => ?_, fun id e he ha => ?_, fun params => ?_⟩
    · have hid := (h.active id _ (activeRequest_eq_some.mpr ⟨e, he, ha, rfl⟩)).1
      rw [hreq, (h.active id' _ (activeRequest_eq_some.mpr ⟨e', he', ha', rfl⟩)).1,
        Option.some.injEq] at hid
      exact hid.symm
    · obtain ⟨hid, hne⟩ := h.active id _ (activeRequest_eq_some.mpr ⟨e, he, ha, rfl⟩)
      exact find_eq_some.mpr ⟨id, hid, hne, he, ha⟩
    · rw [refused_iff, duplicate_iff]
      constructor
      · rintro ⟨id, r', hid, hne, hr'⟩
        obtain ⟨e, he, ha, hreq⟩ := activeRequest_eq_some.mp hr'
        exact ⟨id, e, he, ha, hreq.trans (h.only id _ r' hid hne hr')⟩
      · rintro ⟨id, e, he, ha, hreq⟩
        have hr := activeRequest_eq_some.mpr ⟨e, he, ha, hreq⟩
        obtain ⟨hid, hne⟩ := h.active id _ hr
        exact ⟨id, params.requestId, hid, hne, hr⟩

/-! ### What each operation does to the streams that are active -/

/-- The second map has the active streams and no others. -/
structure Matches (s : StreamRegistry) : Prop where
  keyed : s.Keyed
  iff : ∀ id r, s.activeRequestIds.lookup r = some id ↔ s.activeRequest id = some r
  named : ∀ id r, s.activeRequest id = some r → id ≠ ""

theorem Matches.leads (h : s.Matches) : s.Leads where
  active := fun id r hr => ⟨(h.iff id r).mpr hr, h.named id r hr⟩
  only := fun id r r' hid _ hr' => by
    rw [(h.iff id r).mp hid, Option.some.injEq] at hr'
    exact hr'.symm

theorem Matches.congr (h : s.Matches) (hkeyed : s'.Keyed)
    (hactive : ∀ id, s'.activeRequest id = s.activeRequest id)
    (hindex : s'.activeRequestIds = s.activeRequestIds) : s'.Matches where
  keyed := hkeyed
  iff := fun id r => by rw [hindex, hactive, h.iff]
  named := fun id r hr => h.named id r ((hactive id).symm.trans hr)

/-- A stream goes from the active ones, and its request from the second map. -/
theorem Matches.drop (h : s.Matches) (id : String) (hkeyed : s'.Keyed)
    (hactive : ∀ id', s'.activeRequest id' = if id' = id then none else s.activeRequest id')
    (hindex : s'.activeRequestIds = s.activeRequestIds.erase r)
    (hself : ∀ r', s.activeRequest id = some r' → r' = r) :
    ((∀ id', id' ≠ id → s.activeRequest id' ≠ some r) → s'.Matches) ∧
      (s'.Leads → ∀ id', id' ≠ id → s.activeRequest id' ≠ some r) := by
  have hlookup : ∀ r', s'.activeRequestIds.lookup r' =
      if r' = r then none else s.activeRequestIds.lookup r' := fun r' => by
    rw [hindex, InsertionMap.lookup_erase]
  constructor
  · intro hfree
    refine ⟨hkeyed, fun id' r' => ?_, fun id' r' hr' => ?_⟩
    · rw [hlookup, hactive]
      split
      next heq =>
        subst heq
        split
        next => simp
        next hne => simp [hfree id' hne]
      next hr =>
        rw [h.iff]
        split
        next heq =>
          subst heq
          simpa using fun hr' => hr (hself r' hr')
        next => exact Iff.rfl
    · rw [hactive] at hr'
      split at hr'
      next => cases hr'
      next => exact h.named id' r' hr'
  · intro h' id' hne hr
    have hthere := (h'.active id' r (by rw [hactive, if_neg hne, hr])).1
    rw [hlookup, if_pos rfl] at hthere
    cases hthere

/-- A stream becomes active for a request for which none was. -/
theorem Matches.add (h : s.Matches) (hkeyed : s'.Keyed) (hnone : s.duplicateActiveRequest r = false)
    (hactive : ∀ id', s'.activeRequest id' = if id' = id then some r else s.activeRequest id')
    (hindex : s'.activeRequestIds = s.activeRequestIds.set r id) :
    (id ≠ "" ∧ s.activeRequest id = none → s'.Matches) ∧
      (s'.Leads → id ≠ "" ∧ s.activeRequest id = none) := by
  have hlookup : ∀ r', s'.activeRequestIds.lookup r' =
      if r' = r then some id else s.activeRequestIds.lookup r' := fun r' => by
    rw [hindex, InsertionMap.lookup_set]
  have hother : ∀ id', s.activeRequest id' ≠ some r := by
    intro id' hr
    rw [duplicate_iff.mpr ⟨id', r, (h.iff id' r).mpr hr, h.named id' r hr, hr⟩] at hnone
    cases hnone
  constructor
  · rintro ⟨hne, hfree⟩
    refine ⟨hkeyed, fun id' r' => ?_, fun id' r' hr' => ?_⟩
    · rw [hlookup, hactive]
      split
      next heq =>
        subst heq
        split
        next heq => exact ⟨fun _ => rfl, fun _ => congrArg some heq.symm⟩
        next hid =>
          exact ⟨fun hsome => absurd (Option.some.inj hsome).symm hid, fun hr => absurd hr (hother id')⟩
      next hr =>
        rw [h.iff]
        split
        next heq =>
          subst heq
          rw [hfree]
          simpa using fun heq => hr heq.symm
        next => exact Iff.rfl
    · rw [hactive] at hr'
      split at hr'
      next heq => exact heq ▸ hne
      next => exact h.named id' r' hr'
  · intro h'
    have hself : s'.activeRequest id = some r := by rw [hactive, if_pos rfl]
    have hne := (h'.active id r hself).2
    refine ⟨hne, ?_⟩
    -- a request whose stream was replaced would lead to the new one
    by_contra hsome
    obtain ⟨r', hr'⟩ := Option.ne_none_iff_exists'.mp hsome
    have hr : r' ≠ r := fun heq => hother id (heq ▸ hr')
    exact hr.symm (h'.only id r' r (by rw [hlookup, if_neg hr, (h.iff id r').mpr hr']) hne hself)

/-! ### One operation after the other -/

/-- An entry is set under its identifier. -/
theorem keyed_set (h : s.Keyed) {index : InsertionMap String String} (he : e.streamId = id) :
    (StreamRegistry.mk (s.registry.set id e) index).Keyed := by
  intro id' e' he'
  rw [get, InsertionMap.lookup_set] at he'
  split at he'
  next heq =>
    cases he'
    exact he.trans heq.symm
  next => exact h id' e' he'

theorem keyed_erase (h : s.Keyed) {index : InsertionMap String String} :
    (StreamRegistry.mk (s.registry.erase id) index).Keyed := by
  intro id' e' he'
  rw [get, InsertionMap.lookup_erase] at he'
  split at he'
  next => cases he'
  next => exact h id' e' he'

theorem keyed_mark {status : GrpcStreamRegistryStatus} (h : s.Keyed) :
    (s.markGrpcStreamTerminal id status).Keyed := by
  unfold markGrpcStreamTerminal
  split
  next => exact h
  next entry hentry =>
    split
    next => exact keyed_set h (h id entry hentry)
    next => exact h

theorem keyed_withClients {f : List ℕ → List ℕ} (h : s.Keyed) : (s.withClients id f).Keyed := by
  unfold withClients
  split
  next => exact h
  next entry hentry => exact keyed_set h (h id entry hentry)

theorem keyed_remove (h : s.Keyed) : (s.removeEntry id).Keyed := by
  unfold removeEntry
  split
  next => exact h
  next => exact keyed_erase h

theorem activeRequest_set {index : InsertionMap String String} (id' : String) :
    (StreamRegistry.mk (s.registry.set id e) index).activeRequest id' =
      if id' = id then (if e.isActive then some e.requestId else none) else s.activeRequest id' := by
  rw [activeRequest, get, InsertionMap.lookup_set]
  split
  next =>
    rw [Option.filter_some]
    split <;> rfl
  next => rfl

theorem activeRequest_erase {index : InsertionMap String String} (id' : String) :
    (StreamRegistry.mk (s.registry.erase id) index).activeRequest id' =
      if id' = id then none else s.activeRequest id' := by
  rw [activeRequest, get, InsertionMap.lookup_erase]
  split <;> rfl

theorem activeRequest_of_get (he : s.get id = some e) :
    s.activeRequest id = if e.isActive then some e.requestId else none := by
  rw [activeRequest, he, Option.filter_some]
  split <;> rfl

theorem Matches.withClients (h : s.Matches) {f : List ℕ → List ℕ} : (s.withClients id f).Matches := by
  unfold StreamRegistry.withClients
  split
  next => exact h
  next entry hentry =>
    refine h.congr (keyed_set h.keyed (h.keyed id entry hentry)) (fun id' => ?_) rfl
    rw [activeRequest_set]
    split
    next heq =>
      subst heq
      rw [activeRequest_of_get hentry]
      rfl
    next => rfl

/-- An active stream ends; no other is active for its request. -/
theorem Matches.mark (h : s.Matches) {status : GrpcStreamRegistryStatus} (hstatus : status ≠ .active) :
    (s.markGrpcStreamTerminal id status).Matches := by
  unfold markGrpcStreamTerminal
  split
  next => exact h
  next entry hentry =>
    split
    next hactive =>
      have hself : s.activeRequest id = some entry.requestId := by
        rw [activeRequest_of_get hentry, if_pos hactive]
      have hkeyed : (StreamRegistry.mk (s.registry.set id { entry with status := status })
          (s.activeRequestIds.erase entry.requestId)).Keyed := keyed_set h.keyed (h.keyed id entry hentry)
      refine (h.drop (r := entry.requestId) id hkeyed (fun id' => ?_) rfl (fun r' hr' => ?_)).1
        fun id' hne hr => hne ?_
      · rw [activeRequest_set]
        simp [GrpcStreamRegistryEntry.isActive, hstatus]
      · rw [hself, Option.some.injEq] at hr'
        exact hr'.symm
      · have hhere := (h.iff id _).mpr hself
        rw [(h.iff id' _).mpr hr, Option.some.injEq] at hhere
        exact hhere
    next => exact h

theorem status_ne_active (status : TerminalStatus) : status.status ≠ .active := by
  cases status <;> decide

theorem Matches.cancelTab (h : s.Matches) {tabId : String} :
    (s.cancelActiveGrpcStreamsForTab tabId).Matches := by
  unfold cancelActiveGrpcStreamsForTab
  generalize s.findActiveGrpcStreamsByTabId tabId = l
  induction l generalizing s with
  | nil => exact h
  | cons entry l ih => exact ih (h.mark (by decide))

theorem sharesRequest_iff (he : s.get id = some e) : s.sharesRequest id = false ↔
    ∀ id', id' ≠ id → s.activeRequest id' ≠ some e.requestId := by
  rw [sharesRequest, he, Option.any_some, List.any_eq_false]
  constructor
  · intro h id' hne hr
    obtain ⟨e', he', -⟩ := activeRequest_eq_some.mp hr
    have hkey : id' ∈ s.registry.keys :=
      AList.mem_keys.mp (AList.lookup_isSome.mp (by rw [show s.registry.lookup id' = _ from he']; rfl))
    exact h id' hkey (by simp [hne, hr])
  · intro h id' _ hboth
    simp only [Bool.and_eq_true, bne_iff_ne, beq_iff_eq] at hboth
    exact h id' hboth.1 hboth.2

/-- A stream is removed. -/
theorem Matches.remove (h : s.Matches) :
    (s.sharesRequest id = false → (s.removeEntry id).Matches) ∧
      ((s.removeEntry id).Leads → s.sharesRequest id = false) := by
  unfold removeEntry
  split
  next hnone =>
    have hshares : s.sharesRequest id = false := by rw [sharesRequest, hnone]; rfl
    exact ⟨fun _ => h, fun _ => hshares⟩
  next entry hentry =>
    rw [sharesRequest_iff hentry]
    refine h.drop _ (keyed_erase h.keyed) activeRequest_erase rfl fun r' hr' => ?_
    rw [activeRequest_of_get hentry] at hr'
    split at hr'
    next => exact (Option.some.inj hr').symm
    next => cases hr'

theorem Matches.register (h : s.Matches) (params : RegisterGrpcStreamParams) :
    (keepsIndex (.register params) s = true → (s.tryRegisterGrpcStream params).1.Matches) ∧
      ((s.tryRegisterGrpcStream params).1.Leads → keepsIndex (.register params) s = true) := by
  unfold tryRegisterGrpcStream
  split
  next hdup => exact ⟨fun _ => h, fun _ => by simp [keepsIndex, hdup]⟩
  next hdup =>
    rw [Bool.not_eq_true] at hdup
    have hkeeps : keepsIndex (.register params) s = true ↔
        params.streamId ≠ "" ∧ s.activeRequest params.streamId = none := by
      simp [keepsIndex, hdup]
    rw [hkeeps]
    exact h.add (keyed_set h.keyed rfl) hdup (fun id' => by rw [activeRequest_set]; rfl) rfl

theorem get_withClients {f : List ℕ → List ℕ} : (s.withClients id f).get id =
    (s.get id).map fun e => { e with sseClients := f e.sseClients } := by
  unfold withClients
  cases he : s.get id with
  | none => exact he
  | some entry => exact InsertionMap.lookup_set_self

theorem sharesRequest_withClients {f : List ℕ → List ℕ} :
    (s.withClients id f).sharesRequest id = s.sharesRequest id := by
  cases he : s.get id with
  | none => rw [withClients, he]
  | some entry =>
      have hsame : ∀ id', (s.withClients id f).activeRequest id' = s.activeRequest id' := by
        intro id'
        rw [withClients, he]
        simp only [activeRequest_set]
        split
        next heq =>
          subst heq
          rw [activeRequest_of_get he]
          rfl
        next => rfl
      have hget : (s.withClients id f).get id = some { entry with sseClients := f entry.sseClients } := by
        rw [get_withClients, he]
        rfl
      have hiff := sharesRequest_iff hget
      simp only [hsame] at hiff
      rw [Bool.eq_iff_iff, ← not_iff_not, Bool.not_eq_true, Bool.not_eq_true, hiff, sharesRequest_iff he]

theorem Matches.detach (h : s.Matches) (res : ℕ) :
    (keepsIndex (.detach id res) s = true → (s.detachGrpcStreamSseClient id res).Matches) ∧
      ((s.detachGrpcStreamSseClient id res).Leads → keepsIndex (.detach id res) s = true) := by
  have hclosed : (s.withClients id (·.erase res)).Matches := h.withClients
  unfold detachGrpcStreamSseClient
  simp only [keepsIndex, removes, get_withClients]
  cases he : s.get id with
  | none => exact ⟨fun _ => hclosed, fun _ => rfl⟩
  | some entry =>
      simp only [Option.map_some, Option.bind_some]
      by_cases hgoes : entry.sseClients.erase res = [] ∧ entry.isActive = false
      · rw [if_pos hgoes, if_pos (by exact hgoes), Option.any_some, Bool.not_eq_true',
          ← sharesRequest_withClients (f := (·.erase res))]
        exact hclosed.remove
      · rw [if_neg hgoes, if_neg (by exact hgoes)]
        exact ⟨fun _ => hclosed, fun _ => rfl⟩

/-- The stream that expires is the active one of its request. -/
theorem Matches.expire (h : s.Matches) : (s.expireGrpcStreamAfterSseGrace id).Matches := by
  unfold expireGrpcStreamAfterSseGrace
  split
  next => exact h
  next entry hentry =>
    split
    next hgoes =>
      have hmark : (s.markGrpcStreamTerminal id .cancelled).Matches := h.mark (by decide)
      refine hmark.remove.1 ?_
      have hself : s.activeRequest id = some entry.requestId := by
        rw [activeRequest_of_get hentry, if_pos hgoes.1]
      have hmarked : s.markGrpcStreamTerminal id .cancelled =
          ⟨s.registry.set id { entry with status := .cancelled },
            s.activeRequestIds.erase entry.requestId⟩ := by
        rw [markGrpcStreamTerminal, hentry]
        exact if_pos hgoes.1
      rw [hmarked] at hmark ⊢
      have hget : (StreamRegistry.mk (s.registry.set id { entry with status := .cancelled })
          (s.activeRequestIds.erase entry.requestId)).get id =
          some { entry with status := .cancelled } := InsertionMap.lookup_set_self
      refine (sharesRequest_iff hget).mpr fun id' hne hr => ?_
      rw [activeRequest_set, if_neg hne] at hr
      have hhere := (h.iff id _).mpr hself
      rw [(h.iff id' _).mpr hr, Option.some.injEq] at hhere
      exact hne hhere
    next => exact h

theorem step_matches {l : RegistryStep} (h : s.Matches) (hnext : registryNext l s = some s') :
    (keepsIndex l s = true → s'.Matches) ∧ (s'.Leads → keepsIndex l s = true) := by
  cases l <;> cases hnext
  case register params => exact h.register params
  case terminate id status => exact ⟨fun _ => h.mark (status_ne_active status), fun _ => rfl⟩
  case cancel id tabId status =>
    refine ⟨fun _ => ?_, fun _ => rfl⟩
    unfold cancelGrpcStreamEntry
    split
    next => exact h
    next =>
      split
      next => exact h.mark (status_ne_active status)
      next => exact h
  case cancelTab tabId => exact ⟨fun _ => h.cancelTab, fun _ => rfl⟩
  case attach id res => exact ⟨fun _ => h.withClients, fun _ => rfl⟩
  case detach id res => exact h.detach res
  case expire id => exact ⟨fun _ => h.expire, fun _ => rfl⟩
  case finalize id =>
    have hkeeps : keepsIndex (.finalize id) s = true ↔ s.sharesRequest id = false := by
      simp [keepsIndex, removes]
    rw [hkeeps]
    exact h.remove

theorem empty_matches : empty.Matches where
  keyed := fun _ _ he => nomatch he
  iff := fun _ _ => iff_of_false nofun nofun
  named := fun _ _ hr => nomatch hr

theorem step_keyed {l : RegistryStep} (h : s.Keyed) (hnext : registryNext l s = some s') : s'.Keyed := by
  cases l <;> cases hnext
  case register params =>
    unfold tryRegisterGrpcStream
    split
    next => exact h
    next => exact keyed_set h rfl
  case terminate id status => exact keyed_mark h
  case cancel id tabId status =>
    unfold cancelGrpcStreamEntry
    split
    next => exact h
    next =>
      split
      next => exact keyed_mark h
      next => exact h
  case cancelTab tabId =>
    unfold cancelActiveGrpcStreamsForTab
    generalize s.findActiveGrpcStreamsByTabId tabId = l
    induction l generalizing s with
    | nil => exact h
    | cons entry l ih => exact ih (keyed_mark h)
  case attach id res => exact keyed_withClients h
  case detach id res =>
    unfold detachGrpcStreamSseClient
    dsimp only
    split
    next => exact keyed_withClients h
    next =>
      split
      next => exact keyed_remove (keyed_withClients h)
      next => exact keyed_withClients h
  case expire id =>
    unfold expireGrpcStreamAfterSseGrace
    split
    next => exact h
    next =>
      split
      next => exact keyed_remove (keyed_mark h)
      next => exact h
  case finalize id => exact keyed_remove h

end StreamRegistry

/-! ## The index over whole runs -/

/-- **The index serves as long as it is kept.**  In every state of a run at most one stream is
active for a request, it is found and keeps others out, exactly if no stream was removed while
another was active for its request, and none was registered under an empty identifier or in
place of an active one. -/
theorem registry_indexed (ls : List RegistryStep) (s : StreamRegistry)
    (hrun : exec registryNext StreamRegistry.empty ls = some s) :
    (∀ ls' u, ls' <+: ls → exec registryNext StreamRegistry.empty ls' = some u → u.Indexed) ↔
      AllSteps registryNext (fun l s => StreamRegistry.keepsIndex l s = true) StreamRegistry.empty ls := by
  have hgives : ∀ s : StreamRegistry, s.Matches → s.Indexed := fun _ h =>
    (StreamRegistry.indexed_iff h.keyed).mpr h.leads
  refine exec_forall_iff hgives (fun l s s' h hnext => ?_) StreamRegistry.empty_matches hrun
  obtain ⟨hkeeps, hneeds⟩ := StreamRegistry.step_matches h hnext
  exact ⟨hkeeps, fun hindexed =>
    hneeds ((StreamRegistry.indexed_iff (StreamRegistry.step_keyed h.keyed hnext)).mp hindexed)⟩

/-- A stream ends, and its request is served again; the first is finalized before or after. -/
def retried : List RegistryStep :=
  [.register ⟨"a", "tab", "req"⟩, .terminate "a" .ended, .finalize "a", .register ⟨"b", "tab", "req"⟩]

def retriedEarly : List RegistryStep :=
  [.register ⟨"a", "tab", "req"⟩, .terminate "a" .ended, .register ⟨"b", "tab", "req"⟩, .finalize "a"]

theorem registry_indexed_retried :
    ∃ s, exec registryNext StreamRegistry.empty retried = some s ∧
      ∀ ls' u, ls' <+: retried → exec registryNext StreamRegistry.empty ls' = some u → u.Indexed := by
  obtain ⟨s, hrun, -⟩ : ∃ s, exec registryNext StreamRegistry.empty retried = some s ∧
    s.duplicateActiveRequest "req" = true := exists_exec (by decide)
  exact ⟨s, hrun, (registry_indexed retried s hrun).mpr (by decide)⟩

/-- Finalizing the first stream forgets the second, which is active, and a third is let in. -/
theorem active_forgotten :
    ∃ s, exec registryNext StreamRegistry.empty retriedEarly = some s ∧
      ((s.get "b").any (·.isActive) = true ∧ s.findActiveGrpcStreamByRequestId "req" = none ∧
        (s.tryRegisterGrpcStream ⟨"c", "tab", "req"⟩).2 = true) :=
  exists_exec (by decide)

end RedFireForge.Grpc
