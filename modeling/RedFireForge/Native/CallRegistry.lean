/-
# `RedFireForge.Native.CallRegistry` — unary gRPC calls and their registration

A call is registered under its request id while it runs.  The registry is behind one mutex,
and each of its functions is one access; between two accesses of a call anything may happen.
A call marks and removes by its request id alone, whosever entry that is.
-/
import RedFireForge.Lib.InsertionMap
import RedFireForge.Lib.Run

namespace RedFireForge.Native.UnaryCalls

open RedFireForge.Lib

/-! ## The registry -/

inductive CallRegistryStatus
  | active | completed | cancelled
deriving DecidableEq, Repr

/-- A cancellation token is the number of the call that it was made for. -/
structure CallRegistryEntry where
  requestId : String
  tabId : String
  cancelToken : ℕ
  status : CallRegistryStatus
deriving DecidableEq, Repr

inductive TryRegisterOutcome
  | registered (cancelToken : ℕ)
  | duplicateActive
deriving DecidableEq, Repr

inductive CancelOutcome
  | cancelled | notFound | alreadyCompleted | tabMismatch
deriving DecidableEq, Repr

/-- The map of the mutex, and the tokens that are cancelled. -/
structure CallRegistry where
  inner : InsertionMap String CallRegistryEntry
  cancelledTokens : List ℕ

namespace CallRegistry

def empty : CallRegistry := ⟨∅, []⟩

variable (r : CallRegistry)

def tryRegister (requestId tabId : String) (token : ℕ) : CallRegistry × TryRegisterOutcome :=
  let entry : CallRegistryEntry := ⟨requestId, tabId, token, .active⟩
  match r.inner.lookup requestId with
  | some existing =>
      if existing.status = .active then (r, .duplicateActive)
      else
        ({ r with inner := InsertionMap.set (r.inner.erase requestId) requestId entry }, .registered token)
  | none => ({ r with inner := r.inner.set requestId entry }, .registered token)

/-- `mark_completed` and `mark_cancelled`: an active entry gets the status. -/
def mark (status : CallRegistryStatus) (requestId : String) : CallRegistry :=
  match r.inner.lookup requestId with
  | some entry =>
      if entry.status = .active then { r with inner := r.inner.set requestId { entry with status := status } }
      else r
  | none => r

def markCompleted : String → CallRegistry := r.mark .completed

def markCancelled : String → CallRegistry := r.mark .cancelled

def statusOf (requestId : String) : Option CallRegistryStatus :=
  (r.inner.lookup requestId).map (·.status)

def remove (requestId : String) : CallRegistry := { r with inner := r.inner.erase requestId }

def cancel (requestId tabId : String) : CallRegistry × CancelOutcome :=
  match r.inner.lookup requestId with
  | none => (r, .notFound)
  | some entry =>
      if entry.tabId ≠ tabId then (r, .tabMismatch)
      else if entry.status ≠ .active then (r.remove requestId, .alreadyCompleted)
      else
        (⟨r.inner.set requestId { entry with status := .cancelled }, entry.cancelToken :: r.cancelledTokens⟩,
          .cancelled)

/-- The request ids of the entries that a purge or a cancellation is about. -/
def requestIds (p : CallRegistryEntry → Bool) : List String := (r.inner.values.filter p).map (·.requestId)

def cancelAllForTab (tabId : String) : CallRegistry :=
  (r.requestIds fun e => e.tabId = tabId ∧ e.status = .active).foldl (fun r id => (r.cancel id tabId).1) r

def purge (p : CallRegistryEntry → Bool) : CallRegistry := (r.requestIds p).foldl remove r

def purgeForTab (tabId : String) : CallRegistry := r.purge (·.tabId = tabId)

def purgeAll : CallRegistry := r.inner.keys.foldl remove r

def purgeInactive : CallRegistry := r.purge (·.status ≠ .active)

end CallRegistry

/-! ## Calls -/

/-- What the invocation came to; `1` is the code of `Cancelled`. -/
inductive InvokeResult
  | success (decodes : Bool)
  | cancelled
  | transport (code : ℕ)
deriving DecidableEq, Repr

/-- `cancelled` is the answer for a reason in the registry, `transportCancelled` that of the server. -/
inductive Answer
  | duplicate | channelBuild | cancelled | served | undecodable | transportCancelled
  | transport (code : ℕ)
deriving DecidableEq, Repr

def InvokeResult.answer : InvokeResult → Answer
  | .success decodes => if decodes then .served else .undecodable
  | .cancelled => .cancelled
  | .transport code => if code = 1 then .transportCancelled else .transport code

/-- Where a call is in `execute_grpc_unary`, behind the checks of the request. -/
inductive Phase
  | entered
  | registered
  | invoking
  | invoked (result : InvokeResult)
  | unflagged (result : InvokeResult)
  | marking (cancelled : Bool) (answer : Answer)
  | removing (answer : Answer)
  | answered (answer : Answer)
deriving DecidableEq, Repr

structure Call where
  requestId : String
  tabId : String
  phase : Phase
deriving DecidableEq, Repr

/-- The registry and the calls that have come. -/
structure GrpcState where
  callRegistry : CallRegistry
  calls : List Call

def GrpcState.initial : GrpcState := ⟨.empty, []⟩

/-- One access by a call, a request of the renderer or the supervisor. -/
inductive Step
  | begin (requestId tabId : String)
  | register (n : ℕ)
  | connect (n : ℕ) (ok : Bool)
  | invoke (n : ℕ) (result : InvokeResult)
  | checkToken (n : ℕ)
  | checkStatus (n : ℕ)
  | mark (n : ℕ)
  | remove (n : ℕ)
  | cancel (requestId tabId : String)
  | cancelAllForTab (tabId : String)
  | purgeForTab (tabId : String)
  | purgeAll
  | purgeInactive
deriving DecidableEq, Repr

/-- The check saw no cancellation: how the call ends by its result. -/
def ending (result : InvokeResult) : Phase :=
  .marking (result = .cancelled) result.answer

namespace GrpcState

def setPhase (s : GrpcState) (n : ℕ) (c : Call) (phase : Phase) : GrpcState :=
  { s with calls := s.calls.set n { c with phase := phase } }

/-- A step of call `n`, by where it is. -/
def callStep (s : GrpcState) (n : ℕ) (f : Call → Option GrpcState) : Option GrpcState :=
  s.calls[n]?.bind f

def next : Step → GrpcState → Option GrpcState
  | .begin requestId tabId, s => some { s with calls := s.calls ++ [⟨requestId, tabId, .entered⟩] }
  | .register n, s => s.callStep n fun c =>
      match c.phase, s.callRegistry.tryRegister c.requestId c.tabId n with
      | .entered, (r, .registered _) => some { s.setPhase n c .registered with callRegistry := r }
      | .entered, (_, .duplicateActive) => some (s.setPhase n c (.answered .duplicate))
      | _, _ => none
  | .connect n ok, s => s.callStep n fun c =>
      match c.phase with
      | .registered => some (s.setPhase n c (if ok then .invoking else .removing .channelBuild))
      | _ => none
  | .invoke n result, s => s.callStep n fun c =>
      match c.phase with
      -- `select!` takes the branch of the token only when the token is cancelled.
      | .invoking =>
          if result = .cancelled ∧ n ∉ s.callRegistry.cancelledTokens then none
          else some (s.setPhase n c (.invoked result))
      | _ => none
  | .checkToken n, s => s.callStep n fun c =>
      match c.phase with
      | .invoked result => some (s.setPhase n c
          (if n ∈ s.callRegistry.cancelledTokens then .marking true .cancelled else .unflagged result))
      | _ => none
  | .checkStatus n, s => s.callStep n fun c =>
      match c.phase with
      | .unflagged result => some (s.setPhase n c
          (if s.callRegistry.statusOf c.requestId = some .cancelled then .marking true .cancelled
          else ending result))
      | _ => none
  | .mark n, s => s.callStep n fun c =>
      match c.phase with
      | .marking cancelled answer => some
          { s.setPhase n c (.removing answer) with
            callRegistry :=
              if cancelled then s.callRegistry.markCancelled c.requestId
              else s.callRegistry.markCompleted c.requestId }
      | _ => none
  | .remove n, s => s.callStep n fun c =>
      match c.phase with
      | .removing answer => some
          { s.setPhase n c (.answered answer) with callRegistry := s.callRegistry.remove c.requestId }
      | _ => none
  | .cancel requestId tabId, s => some { s with callRegistry := (s.callRegistry.cancel requestId tabId).1 }
  | .cancelAllForTab tabId, s => some { s with callRegistry := s.callRegistry.cancelAllForTab tabId }
  | .purgeForTab tabId, s => some { s with callRegistry := s.callRegistry.purgeForTab tabId }
  | .purgeAll, s => some { s with callRegistry := s.callRegistry.purgeAll }
  | .purgeInactive, s => some { s with callRegistry := s.callRegistry.purgeInactive }

end GrpcState

/-! ## What the calls are promised -/

/-- It answers `cancelled` for a reason in the registry, or is on its way to. -/
def Phase.cancelling : Phase → Bool
  | .invoked result | .unflagged result => result = .cancelled
  | .marking cancelled answer => cancelled || answer = .cancelled
  | .removing answer | .answered answer => answer = .cancelled
  | _ => false

/-- Call `n` is registered as active under an id. -/
def CallRegistry.Holds (r : CallRegistry) (requestId : String) (n : ℕ) : Prop :=
  ∃ e, r.inner.lookup requestId = some e ∧ e.cancelToken = n ∧ e.status = .active

/-- A step that may end the registration of call `n`: one of its own, or a purge of its tab or of all. -/
def Step.mayEnd (n : ℕ) (tabId : String) : Step → Prop
  | .mark m | .remove m => m = n
  | .purgeForTab tab => tab = tabId
  | .purgeAll => True
  | _ => False

/-- Behind the step who answers `cancelled` has been cancelled, who was registered is registered
unless it was cancelled, and who is registered is reached by a cancellation. -/
def Owned (l : Step) (s : GrpcState) : Prop :=
  ∀ s', GrpcState.next l s = some s' →
    (∀ (n : ℕ) c, s'.calls[n]? = some c → c.phase.cancelling → n ∈ s'.callRegistry.cancelledTokens) ∧
    (∀ (n : ℕ) c, s.calls[n]? = some c → s.callRegistry.Holds c.requestId n → ¬ l.mayEnd n c.tabId →
      s'.callRegistry.Holds c.requestId n ∨ n ∈ s'.callRegistry.cancelledTokens) ∧
    ∀ (n : ℕ) c, s'.calls[n]? = some c → s'.callRegistry.Holds c.requestId n →
      (s'.callRegistry.cancel c.requestId c.tabId).2 = .cancelled ∧
        n ∈ (s'.callRegistry.cancel c.requestId c.tabId).1.cancelledTokens

/-- A call that ends finds no other active call under its id, and one that asks for its status
finds no other cancelled call there. -/
def Alone : Step → GrpcState → Prop
  | .mark n, s => ∀ c cancelled answer, s.calls[n]? = some c → c.phase = .marking cancelled answer →
      ∀ e, s.callRegistry.inner.lookup c.requestId = some e → e.status = .active → e.cancelToken = n
  | .remove n, s => ∀ c answer, s.calls[n]? = some c → c.phase = .removing answer →
      ∀ e, s.callRegistry.inner.lookup c.requestId = some e → e.status = .active → e.cancelToken = n
  | .checkStatus n, s => ∀ c result, s.calls[n]? = some c → c.phase = .unflagged result →
      ∀ e, s.callRegistry.inner.lookup c.requestId = some e → e.status = .cancelled →
        e.cancelToken = n ∨ n ∈ s.callRegistry.cancelledTokens
  | _, _ => True

/-! ## The operations on the map -/

namespace CallRegistry

variable {r : CallRegistry} {requestId tabId k : String} {status : CallRegistryStatus} {e : CallRegistryEntry}
  {n token : ℕ} {p : CallRegistryEntry → Bool}

/-- Every entry is under its own request id. -/
def Keyed (r : CallRegistry) : Prop := ∀ k e, r.inner.lookup k = some e → e.requestId = k

theorem lookup_mark : (r.mark status requestId).inner.lookup k = if k = requestId then
    (r.inner.lookup k).map fun e => if e.status = .active then { e with status := status } else e
    else r.inner.lookup k := by
  rw [mark]
  split
  next e he =>
    by_cases hk : k = requestId
    · subst hk
      rw [if_pos rfl, he, Option.map_some]
      split
      next => rw [InsertionMap.lookup_set_self]
      next => exact he
    · rw [if_neg hk]
      split
      next => exact InsertionMap.lookup_set_ne hk
      next => rfl
  next hnone =>
    by_cases hk : k = requestId
    · subst hk
      rw [if_pos rfl, hnone, Option.map_none]
    · rw [if_neg hk]

@[simp] theorem tokens_mark : (r.mark status requestId).cancelledTokens = r.cancelledTokens := by
  rw [mark]
  split
  next => split <;> rfl
  next => rfl

theorem lookup_remove : (r.remove requestId).inner.lookup k =
    if k = requestId then none else r.inner.lookup k :=
  InsertionMap.lookup_erase

theorem lookup_foldl_remove (ids : List String) :
    (ids.foldl remove r).inner.lookup k = if k ∈ ids then none else r.inner.lookup k := by
  induction ids generalizing r with
  | nil => rw [List.foldl_nil, if_neg List.not_mem_nil]
  | cons id ids ih =>
      rw [List.foldl_cons, ih, lookup_remove]
      by_cases hk : k = id
      · simp [hk]
      · simp [hk]

@[simp] theorem tokens_foldl_remove (ids : List String) :
    (ids.foldl remove r).cancelledTokens = r.cancelledTokens := by
  induction ids generalizing r with
  | nil => rfl
  | cons id ids ih => exact ih

theorem lookup_purge (hr : r.Keyed) : (r.purge p).inner.lookup k = (r.inner.lookup k).filter (!p ·) := by
  have hmem : k ∈ r.requestIds p ↔ ∃ e, r.inner.lookup k = some e ∧ p e := by
    simp only [requestIds, List.mem_map, List.mem_filter, InsertionMap.mem_values]
    constructor
    · rintro ⟨e, ⟨⟨k', hk'⟩, hp⟩, rfl⟩
      exact ⟨e, (hr k' e hk').symm ▸ hk', hp⟩
    · rintro ⟨e, he, hp⟩
      exact ⟨e, ⟨⟨k, he⟩, hp⟩, hr k e he⟩
  rw [purge, lookup_foldl_remove]
  cases he : r.inner.lookup k with
  | none => rw [Option.filter_none, ite_self]
  | some e =>
      by_cases hp : p e
      · rw [if_pos (hmem.mpr ⟨e, he, hp⟩), Option.filter_some_neg (by simpa using hp)]
      · rw [if_neg, Option.filter_some_pos (by simpa using hp)]
        rintro hk
        obtain ⟨e', he', hp'⟩ := hmem.mp hk
        rw [he] at he'
        exact hp (Option.some.inj he' ▸ hp')

theorem cancel_of_holds (h : r.inner.lookup requestId = some e) (he : e.status = .active) :
    r.cancel requestId e.tabId =
      (⟨r.inner.set requestId { e with status := .cancelled }, e.cancelToken :: r.cancelledTokens⟩, .cancelled) := by
  rw [cancel, h]
  simp [he]

/-! ## The registry between two accesses

`R` has the request id and the tab of each call that has registered. -/

structure Sound (r : CallRegistry) (R : ℕ → Option (String × String)) : Prop where
  called : ∀ k e, r.inner.lookup k = some e → e.requestId = k ∧ R e.cancelToken = some (k, e.tabId)
  honest : ∀ k e, r.inner.lookup k = some e → e.status = .cancelled → e.cancelToken ∈ r.cancelledTokens
  live : ∀ k e, r.inner.lookup k = some e → e.status = .active → e.cancelToken ∉ r.cancelledTokens
  tokens : ∀ n ∈ r.cancelledTokens, (R n).isSome

variable {R : ℕ → Option (String × String)} {r' : CallRegistry}

theorem Sound.keyed (h : r.Sound R) : r.Keyed := fun k e he => (h.called k e he).1

/-- A registry that has lost entries is sound. -/
theorem Sound.of_sub (h : r.Sound R) (hsub : ∀ k e, r'.inner.lookup k = some e → r.inner.lookup k = some e)
    (htokens : r'.cancelledTokens = r.cancelledTokens) : r'.Sound R where
  called k e he := h.called k e (hsub k e he)
  honest k e he := htokens ▸ h.honest k e (hsub k e he)
  live k e he := htokens ▸ h.live k e (hsub k e he)
  tokens := htokens ▸ h.tokens

theorem Sound.foldl_remove (h : r.Sound R) (ids : List String) : (ids.foldl CallRegistry.remove r).Sound R := by
  refine h.of_sub (fun k e he => ?_) (tokens_foldl_remove ids)
  rw [lookup_foldl_remove] at he
  split at he
  next => cases he
  next => exact he

theorem Sound.remove (h : r.Sound R) : (r.remove requestId).Sound R := h.foldl_remove [requestId]

/-- No active entry is marked as cancelled: its token would have been. -/
theorem Sound.mark (h : r.Sound R) (hactive : status ≠ .active)
    (hcancelled : status = .cancelled → ∀ e, r.inner.lookup requestId = some e → e.status ≠ .active) :
    (r.mark status requestId).Sound R := by
  have hold : ∀ k e', (r.mark status requestId).inner.lookup k = some e' → r.inner.lookup k = some e' ∨
      e'.status = .completed ∧ ∃ e, r.inner.lookup k = some e ∧ e' = { e with status := .completed } := by
    intro k e' he'
    rw [lookup_mark] at he'
    split at he'
    next hk =>
      subst hk
      obtain ⟨e, he, rfl⟩ := Option.map_eq_some_iff.mp he'
      split
      next hst =>
        cases status with
        | active => exact absurd rfl hactive
        | cancelled => exact absurd hst (hcancelled rfl e he)
        | completed => exact .inr ⟨rfl, e, he, rfl⟩
      next => exact .inl he
    next => exact .inl he'
  refine ⟨?_, ?_, ?_, ?_⟩
  · intro k e' he'
    rcases hold k e' he' with he | ⟨-, e, he, rfl⟩
    · exact h.called k e' he
    · exact h.called k e he
  · intro k e' he' hst
    rw [tokens_mark]
    rcases hold k e' he' with he | ⟨hcompleted, -⟩
    · exact h.honest k e' he hst
    · rw [hst] at hcompleted
      cases hcompleted
  · intro k e' he' hst
    rw [tokens_mark]
    rcases hold k e' he' with he | ⟨hcompleted, -⟩
    · exact h.live k e' he hst
    · rw [hst] at hcompleted
      cases hcompleted
  · rw [tokens_mark]
    exact h.tokens

/-- Two entries with one token are one. -/
theorem Sound.token_inj (h : r.Sound R) {k' : String} {e' : CallRegistryEntry} (he : r.inner.lookup k = some e)
    (he' : r.inner.lookup k' = some e') (htoken : e.cancelToken = e'.cancelToken) : k = k' := by
  have hk := (h.called k e he).2
  rw [htoken, (h.called k' e' he').2, Option.some.injEq, Prod.mk.injEq] at hk
  exact hk.1.symm

theorem Sound.cancel (h : r.Sound R) : (r.cancel requestId tabId).1.Sound R := by
  rw [CallRegistry.cancel]
  split
  next => exact h
  next e he =>
    split
    next => exact h
    next =>
      split
      next => exact h.remove
      next hst =>
        have hst : e.status = .active := not_not.mp hst
        refine ⟨?_, ?_, ?_, ?_⟩
        · intro k e' he'
          rw [InsertionMap.lookup_set] at he'
          split at he'
          next hk =>
            obtain rfl := Option.some.inj he'
            exact hk ▸ h.called requestId e he
          next => exact h.called k e' he'
        · intro k e' he' hcancelled
          rw [InsertionMap.lookup_set] at he'
          split at he'
          next =>
            obtain rfl := Option.some.inj he'
            exact List.mem_cons_self
          next => exact List.mem_cons_of_mem _ (h.honest k e' he' hcancelled)
        · intro k e' he' hactive
          rw [InsertionMap.lookup_set] at he'
          split at he'
          next =>
            obtain rfl := Option.some.inj he'
            cases hactive
          next hk =>
            rw [List.mem_cons, not_or]
            exact ⟨fun htoken => hk (h.token_inj he' he htoken), h.live k e' he' hactive⟩
        · refine List.forall_mem_cons.mpr ⟨?_, h.tokens⟩
          rw [(h.called requestId e he).2]
          rfl

theorem Sound.foldl_cancel (h : r.Sound R) (ids : List String) :
    (ids.foldl (fun r id => (r.cancel id tabId).1) r).Sound R := by
  induction ids generalizing r with
  | nil => exact h
  | cons id ids ih => exact ih h.cancel

/-- A further call says nothing about the entries. -/
theorem Sound.update (h : r.Sound R) (hn : R n = none) {p : String × String} :
    r.Sound (Function.update R n (some p)) := by
  have hR : ∀ m q, R m = some q → Function.update R n (some p) m = some q := by
    intro m q hm
    rw [Function.update_of_ne, hm]
    rintro rfl
    rw [hn] at hm
    cases hm
  refine ⟨fun k e he => ⟨(h.called k e he).1, hR _ _ (h.called k e he).2⟩, h.honest, h.live, ?_⟩
  intro m hm
  obtain ⟨q, hq⟩ := Option.isSome_iff_exists.mp (h.tokens m hm)
  rw [hR m q hq]
  rfl

/-- A call registers that had not. -/
theorem Sound.tryRegister (h : r.Sound R) (hn : R n = none)
    (hout : (r.tryRegister requestId tabId n).2 = .registered token) :
    (r.tryRegister requestId tabId n).1.Sound (Function.update R n (some (requestId, tabId))) := by
  have hup : r.Sound (Function.update R n (some (requestId, tabId))) := h.update hn
  have hfresh : n ∉ r.cancelledTokens := by
    intro hmem
    have hsome := h.tokens n hmem
    rw [hn] at hsome
    cases hsome
  -- Under the id is the new entry; all others are as they were.
  have hshape : (r.tryRegister requestId tabId n).1.cancelledTokens = r.cancelledTokens ∧
      ∀ k, (r.tryRegister requestId tabId n).1.inner.lookup k =
        if k = requestId then some ⟨requestId, tabId, n, .active⟩ else r.inner.lookup k := by
    rw [CallRegistry.tryRegister] at hout ⊢
    split at hout
    next e he =>
      split at hout
      next => cases hout
      next hst =>
        simp only [if_neg hst, InsertionMap.lookup_set, InsertionMap.lookup_erase, true_and]
        intro k
        split <;> rfl
    next he =>
      exact ⟨rfl, fun k => InsertionMap.lookup_set⟩
  obtain ⟨htokens, hlookup⟩ := hshape
  refine ⟨?_, ?_, ?_, ?_⟩
  · intro k e he
    rw [hlookup] at he
    split at he
    next hk =>
      obtain rfl := Option.some.inj he
      exact ⟨hk.symm, hk ▸ Function.update_self ..⟩
    next => exact hup.called k e he
  · intro k e he hst
    rw [hlookup] at he
    rw [htokens]
    split at he
    next =>
      obtain rfl := Option.some.inj he
      cases hst
    next => exact h.honest k e he hst
  · intro k e he hst
    rw [hlookup] at he
    rw [htokens]
    split at he
    next =>
      obtain rfl := Option.some.inj he
      exact hfresh
    next => exact h.live k e he hst
  · rw [htokens]
    exact hup.tokens

/-! ## Who stays registered -/

/-- Registered as active, or cancelled. -/
def Kept (r : CallRegistry) (requestId : String) (n : ℕ) : Prop :=
  r.Holds requestId n ∨ n ∈ r.cancelledTokens

theorem Holds.kept (h : r.Holds requestId n) : r.Kept requestId n := .inl h

/-- A mark or a removal by another call that is alone with its id. -/
theorem Holds.mark_ne {m : ℕ} (h : r.Holds k n) (hmn : m ≠ n)
    (halone : ∀ e, r.inner.lookup requestId = some e → e.status = .active → e.cancelToken = m) :
    (r.mark status requestId).Holds k n := by
  obtain ⟨e, he, htoken, hst⟩ := h
  refine ⟨e, ?_, htoken, hst⟩
  rw [lookup_mark, if_neg, he]
  rintro rfl
  exact hmn ((halone e he hst).symm.trans htoken)

theorem Holds.remove_ne {m : ℕ} (h : r.Holds k n) (hmn : m ≠ n)
    (halone : ∀ e, r.inner.lookup requestId = some e → e.status = .active → e.cancelToken = m) :
    (r.remove requestId).Holds k n := by
  obtain ⟨e, he, htoken, hst⟩ := h
  refine ⟨e, ?_, htoken, hst⟩
  rw [lookup_remove, if_neg, he]
  rintro rfl
  exact hmn ((halone e he hst).symm.trans htoken)

theorem Holds.purge (hr : r.Keyed) (h : r.Holds k n) (hp : ∀ e, r.inner.lookup k = some e → e.cancelToken = n →
    e.status = .active → p e = false) : (r.purge p).Holds k n := by
  obtain ⟨e, he, htoken, hst⟩ := h
  refine ⟨e, ?_, htoken, hst⟩
  rw [lookup_purge hr, he, Option.filter_some_pos (by rw [hp e he htoken hst]; rfl)]

theorem Holds.tryRegister (h : r.Holds k n) : (r.tryRegister requestId tabId token).1.Holds k n := by
  obtain ⟨e, he, htoken, hst⟩ := h
  refine ⟨e, ?_, htoken, hst⟩
  rw [CallRegistry.tryRegister]
  split
  next e' he' =>
    split
    next => exact he
    next hne =>
      rw [InsertionMap.lookup_set, if_neg, InsertionMap.lookup_erase, if_neg, he]
      all_goals
        rintro rfl
        rw [he] at he'
        exact hne (Option.some.inj he' ▸ hst)
  next hnone =>
    rw [InsertionMap.lookup_set, if_neg, he]
    rintro rfl
    rw [he] at hnone
    cases hnone

theorem Kept.cancel (h : r.Kept k n) : (r.cancel requestId tabId).1.Kept k n := by
  rw [CallRegistry.cancel]
  split
  next => exact h
  next e he =>
    split
    next => exact h
    next =>
      split
      next hst =>
        rcases h with ⟨e', he', htoken, hst'⟩ | h
        · refine .inl ⟨e', ?_, htoken, hst'⟩
          rw [lookup_remove, if_neg, he']
          rintro rfl
          rw [he] at he'
          exact hst (Option.some.inj he' ▸ hst')
        · exact .inr h
      next =>
        rcases h with ⟨e', he', htoken, hst'⟩ | h
        · by_cases hk : k = requestId
          · subst hk
            rw [he] at he'
            obtain rfl := Option.some.inj he'
            exact .inr (htoken ▸ List.mem_cons_self)
          · exact .inl ⟨e', (InsertionMap.lookup_set_ne hk).trans he', htoken, hst'⟩
        · exact .inr (List.mem_cons_of_mem _ h)

theorem Kept.foldl_cancel (h : r.Kept k n) (ids : List String) :
    (ids.foldl (fun r id => (r.cancel id tabId).1) r).Kept k n := by
  induction ids generalizing r with
  | nil => exact h
  | cons id ids ih => exact ih h.cancel

theorem tokens_cancel (h : n ∈ r.cancelledTokens) : n ∈ (r.cancel requestId tabId).1.cancelledTokens := by
  rw [CallRegistry.cancel]
  split
  next => exact h
  next =>
    split
    next => exact h
    next =>
      split
      next => exact h
      next => exact List.mem_cons_of_mem _ h

theorem tokens_foldl_cancel (h : n ∈ r.cancelledTokens) (ids : List String) :
    n ∈ (ids.foldl (fun r id => (r.cancel id tabId).1) r).cancelledTokens := by
  induction ids generalizing r with
  | nil => exact h
  | cons id ids ih => exact ih (tokens_cancel h)

theorem tokens_tryRegister : (r.tryRegister requestId tabId token).1.cancelledTokens = r.cancelledTokens := by
  rw [CallRegistry.tryRegister]
  split
  next => split <;> rfl
  next => rfl

/-- Who is registered is reached by its request id and tab. -/
theorem Sound.cancellable (h : r.Sound R) (hn : R n = some (k, tabId)) (hholds : r.Holds k n) :
    (r.cancel k tabId).2 = .cancelled ∧ n ∈ (r.cancel k tabId).1.cancelledTokens := by
  obtain ⟨e, he, rfl, hst⟩ := hholds
  rw [(h.called k e he).2, Option.some.injEq, Prod.mk.injEq] at hn
  rw [← hn.2, cancel_of_holds he hst]
  exact ⟨rfl, List.mem_cons_self⟩

theorem Sound.not_mem_of_holds (h : r.Sound R) (hholds : r.Holds k n) : n ∉ r.cancelledTokens := by
  obtain ⟨e, he, rfl, hst⟩ := hholds
  exact h.live k e he hst

end CallRegistry

/-! ## Steps of the calls -/

namespace GrpcState

variable {s s' : GrpcState} {l : Step} {n m : ℕ} {c c' : Call} {phase : Phase} {r' : CallRegistry}

/-- Under what a call has registered, once it has. -/
def registration (s : GrpcState) (n : ℕ) : Option (String × String) :=
  s.calls[n]?.bind fun c => if c.phase = .entered then none else some (c.requestId, c.tabId)

structure Inv (s : GrpcState) : Prop where
  sound : s.callRegistry.Sound s.registration
  cancelling : ∀ (n : ℕ) c, s.calls[n]? = some c → c.phase.cancelling → n ∈ s.callRegistry.cancelledTokens

theorem inv_initial : initial.Inv where
  sound := ⟨nofun, nofun, nofun, nofun⟩
  cancelling := nofun

theorem callStep_eq_some {f : Call → Option GrpcState} :
    s.callStep n f = some s' ↔ ∃ c, s.calls[n]? = some c ∧ f c = some s' :=
  Option.bind_eq_some_iff

theorem calls_setPhase (hc : s.calls[n]? = some c) : (s.setPhase n c phase).calls[m]? =
    if m = n then some { c with phase := phase } else s.calls[m]? := by
  rw [setPhase, List.getElem?_set]
  by_cases hmn : m = n
  · subst hmn
    have hlt := (List.getElem?_eq_some_iff.mp hc).1
    rw [if_pos rfl, if_pos rfl, if_pos hlt]
  · rw [if_neg (Ne.symm hmn), if_neg hmn]

theorem registration_setPhase (hc : s.calls[n]? = some c) (hphase : phase ≠ .entered) :
    registration ⟨r', (s.setPhase n c phase).calls⟩ =
      Function.update s.registration n (some (c.requestId, c.tabId)) := by
  funext m
  rw [registration, calls_setPhase hc]
  by_cases hmn : m = n
  · subst hmn
    rw [if_pos rfl, Option.bind_some, if_neg hphase, Function.update_self]
  · rw [if_neg hmn, Function.update_of_ne hmn]
    rfl

theorem registration_of_ne (hc : s.calls[n]? = some c) (hphase : c.phase ≠ .entered) :
    s.registration n = some (c.requestId, c.tabId) := by
  rw [registration, hc, Option.bind_some, if_neg hphase]

/-- The call moves on, and who is cancelling has been cancelled. -/
theorem Inv.setPhase (h : s.Inv) (hc : s.calls[n]? = some c) (hphase : phase ≠ .entered)
    (hr : r'.Sound (Function.update s.registration n (some (c.requestId, c.tabId))))
    (htokens : ∀ m ∈ s.callRegistry.cancelledTokens, m ∈ r'.cancelledTokens)
    (hcancelling : phase.cancelling → n ∈ r'.cancelledTokens) :
    Inv ⟨r', (s.setPhase n c phase).calls⟩ where
  sound := by rwa [registration_setPhase hc hphase]
  cancelling m c' hc' hcan := by
    rw [calls_setPhase hc] at hc'
    split at hc'
    next hmn =>
      obtain rfl := Option.some.inj hc'
      exact hmn ▸ hcancelling hcan
    next => exact htokens m (h.cancelling m c' hc' hcan)

/-- A step of a call that has registered. -/
theorem Inv.goOn (h : s.Inv) (hc : s.calls[n]? = some c) (hwas : c.phase ≠ .entered) (hphase : phase ≠ .entered)
    (hr : r'.Sound s.registration) (htokens : r'.cancelledTokens = s.callRegistry.cancelledTokens)
    (hcancelling : phase.cancelling → n ∈ s.callRegistry.cancelledTokens) :
    Inv ⟨r', (s.setPhase n c phase).calls⟩ := by
  refine h.setPhase hc hphase ?_ (fun m hm => htokens ▸ hm) fun hcan => htokens ▸ hcancelling hcan
  rwa [← registration_of_ne hc hwas, Function.update_eq_self]

/-- A step of the registry alone. -/
theorem Inv.registry (h : s.Inv) (hr : r'.Sound s.registration)
    (htokens : ∀ m ∈ s.callRegistry.cancelledTokens, m ∈ r'.cancelledTokens) :
    Inv { s with callRegistry := r' } where
  sound := hr
  cancelling m c' hc' hcan := htokens m (h.cancelling m c' hc' hcan)

theorem Inv.begin (h : s.Inv) (requestId tabId : String) :
    Inv { s with calls := s.calls ++ [⟨requestId, tabId, .entered⟩] } := by
  have hnew : ∀ (m : ℕ) c', (s.calls ++ [⟨requestId, tabId, .entered⟩])[m]? = some c' →
      s.calls[m]? = some c' ∨ s.calls[m]? = none ∧ c'.phase = .entered := by
    intro m c' hc'
    by_cases hm : m < s.calls.length
    · exact .inl (List.getElem?_append_left hm ▸ hc')
    · refine .inr ⟨List.getElem?_eq_none (Nat.le_of_not_lt hm), ?_⟩
      rw [List.getElem?_append_right (Nat.le_of_not_lt hm)] at hc'
      obtain rfl := List.mem_singleton.mp (List.mem_of_getElem? hc')
      rfl
  have hsame : registration { s with calls := s.calls ++ [⟨requestId, tabId, .entered⟩] } = s.registration := by
    funext m
    rw [registration, registration]
    cases hc' : (s.calls ++ [⟨requestId, tabId, .entered⟩])[m]? with
    | none =>
        have hlen := List.getElem?_eq_none_iff.mp hc'
        rw [List.length_append] at hlen
        rw [List.getElem?_eq_none (Nat.le_trans (Nat.le_add_right _ _) hlen)]
    | some c' =>
        rcases hnew m c' hc' with hold | ⟨hnone, hphase⟩
        · rw [hold]
        · rw [hnone, Option.bind_some, if_pos hphase, Option.bind_none]
  refine ⟨hsame ▸ h.sound, fun m c' hc' hcan => ?_⟩
  rcases hnew m c' hc' with hold | ⟨-, hphase⟩
  · exact h.cancelling m c' hold hcan
  · rw [hphase] at hcan
    cases hcan

/-! ### What each access of a call does -/

theorem next_register (h : next (.register n) s = some s') : ∃ c, s.calls[n]? = some c ∧ c.phase = .entered ∧
    ((∃ token, (s.callRegistry.tryRegister c.requestId c.tabId n).2 = .registered token ∧
        s' = ⟨(s.callRegistry.tryRegister c.requestId c.tabId n).1, (s.setPhase n c .registered).calls⟩) ∨
      s' = ⟨s.callRegistry, (s.setPhase n c (.answered .duplicate)).calls⟩) := by
  obtain ⟨c, hc, h⟩ := callStep_eq_some.mp h
  refine ⟨c, hc, ?_⟩
  split at h
  next hphase hout =>
    refine ⟨hphase, .inl ⟨_, by rw [hout], ?_⟩⟩
    rw [hout]
    exact (Option.some.inj h).symm
  next hphase hout => exact ⟨hphase, .inr (Option.some.inj h).symm⟩
  next => cases h

theorem next_connect {ok : Bool} (h : next (.connect n ok) s = some s') : ∃ c, s.calls[n]? = some c ∧
    c.phase = .registered ∧ s' = s.setPhase n c (if ok then .invoking else .removing .channelBuild) := by
  obtain ⟨c, hc, h⟩ := callStep_eq_some.mp h
  refine ⟨c, hc, ?_⟩
  split at h
  next hphase => exact ⟨hphase, (Option.some.inj h).symm⟩
  next => cases h

theorem next_invoke {result : InvokeResult} (h : next (.invoke n result) s = some s') :
    ∃ c, s.calls[n]? = some c ∧ c.phase = .invoking ∧
      (result = .cancelled → n ∈ s.callRegistry.cancelledTokens) ∧ s' = s.setPhase n c (.invoked result) := by
  obtain ⟨c, hc, h⟩ := callStep_eq_some.mp h
  refine ⟨c, hc, ?_⟩
  split at h
  next hphase =>
    split at h
    next => cases h
    next hguard =>
      exact ⟨hphase, fun hres => by_contra fun hn => hguard ⟨hres, hn⟩, (Option.some.inj h).symm⟩
  next => cases h

theorem next_checkToken (h : next (.checkToken n) s = some s') : ∃ c result, s.calls[n]? = some c ∧
    c.phase = .invoked result ∧ s' = s.setPhase n c
      (if n ∈ s.callRegistry.cancelledTokens then .marking true .cancelled else .unflagged result) := by
  obtain ⟨c, hc, h⟩ := callStep_eq_some.mp h
  split at h
  next result hphase => exact ⟨c, result, hc, hphase, (Option.some.inj h).symm⟩
  next => cases h

theorem next_checkStatus (h : next (.checkStatus n) s = some s') : ∃ c result, s.calls[n]? = some c ∧
    c.phase = .unflagged result ∧ s' = s.setPhase n c
      (if s.callRegistry.statusOf c.requestId = some .cancelled then .marking true .cancelled
      else ending result) := by
  obtain ⟨c, hc, h⟩ := callStep_eq_some.mp h
  split at h
  next result hphase => exact ⟨c, result, hc, hphase, (Option.some.inj h).symm⟩
  next => cases h

theorem next_mark (h : next (.mark n) s = some s') : ∃ c cancelled answer, s.calls[n]? = some c ∧
    c.phase = .marking cancelled answer ∧ s' =
      ⟨s.callRegistry.mark (if cancelled then .cancelled else .completed) c.requestId,
        (s.setPhase n c (.removing answer)).calls⟩ := by
  obtain ⟨c, hc, h⟩ := callStep_eq_some.mp h
  split at h
  next cancelled answer hphase =>
    refine ⟨c, cancelled, answer, hc, hphase, ?_⟩
    rw [← Option.some.inj h]
    cases cancelled <;> rfl
  next => cases h

theorem next_remove (h : next (.remove n) s = some s') : ∃ c answer, s.calls[n]? = some c ∧
    c.phase = .removing answer ∧
      s' = ⟨s.callRegistry.remove c.requestId, (s.setPhase n c (.answered answer)).calls⟩ := by
  obtain ⟨c, hc, h⟩ := callStep_eq_some.mp h
  split at h
  next answer hphase => exact ⟨c, answer, hc, hphase, (Option.some.inj h).symm⟩
  next => cases h

theorem ending_cancelling {result : InvokeResult} (h : (ending result).cancelling) : result = .cancelled := by
  cases result with
  | success decodes => cases decodes <;> cases h
  | cancelled => rfl
  | transport code =>
      simp only [ending, Phase.cancelling, InvokeResult.answer] at h
      split at h <;> cases h

/-- The status of a call that is alone is its own. -/
theorem Inv.cancelled_of_status (h : s.Inv) (hc : s.calls[n]? = some c) {result : InvokeResult}
    (hphase : c.phase = .unflagged result) (halone : Alone (.checkStatus n) s)
    (hst : s.callRegistry.statusOf c.requestId = some .cancelled) : n ∈ s.callRegistry.cancelledTokens := by
  obtain ⟨e, he, hest⟩ := Option.map_eq_some_iff.mp hst
  rcases halone c result hc hphase e he hest with rfl | hn
  · exact h.sound.honest _ e he hest
  · exact hn

/-! ### One step -/

theorem inv_step (h : s.Inv) (halone : Alone l s) (hs : next l s = some s') : s'.Inv := by
  cases l with
  | begin requestId tabId =>
      obtain rfl := Option.some.inj hs
      exact h.begin requestId tabId
  | register n =>
      obtain ⟨c, hc, hphase, ⟨token, hout, rfl⟩ | rfl⟩ := next_register hs
      · have hnone : s.registration n = none := by rw [registration, hc, Option.bind_some, if_pos hphase]
        exact h.setPhase hc nofun (h.sound.tryRegister hnone hout)
          (fun m hm => by rwa [CallRegistry.tokens_tryRegister]) nofun
      · have hnone : s.registration n = none := by rw [registration, hc, Option.bind_some, if_pos hphase]
        exact h.setPhase hc nofun (h.sound.update hnone) (fun m hm => hm) nofun
  | connect n ok =>
      obtain ⟨c, hc, hphase, rfl⟩ := next_connect hs
      refine h.goOn hc (by rw [hphase]; exact nofun) ?_ h.sound rfl ?_
      all_goals cases ok <;> exact nofun
  | invoke n result =>
      obtain ⟨c, hc, hphase, hguard, rfl⟩ := next_invoke hs
      exact h.goOn hc (by rw [hphase]; exact nofun) nofun h.sound rfl fun hcan => hguard (of_decide_eq_true hcan)
  | checkToken n =>
      obtain ⟨c, result, hc, hphase, rfl⟩ := next_checkToken hs
      split
      next hn => exact h.goOn hc (by rw [hphase]; exact nofun) nofun h.sound rfl fun _ => hn
      next =>
        refine h.goOn hc (by rw [hphase]; exact nofun) nofun h.sound rfl fun hcan => ?_
        exact h.cancelling n c hc (by rw [hphase]; exact hcan)
  | checkStatus n =>
      obtain ⟨c, result, hc, hphase, rfl⟩ := next_checkStatus hs
      split
      next hst =>
        exact h.goOn hc (by rw [hphase]; exact nofun) nofun h.sound rfl fun _ =>
          h.cancelled_of_status hc hphase halone hst
      next =>
        refine h.goOn hc (by rw [hphase]; exact nofun) nofun h.sound rfl fun hcan => ?_
        refine h.cancelling n c hc ?_
        rw [hphase]
        exact decide_eq_true (ending_cancelling hcan)
  | mark n =>
      obtain ⟨c, cancelled, answer, hc, hphase, rfl⟩ := next_mark hs
      refine h.goOn hc (by rw [hphase]; exact nofun) nofun (h.sound.mark ?_ ?_) CallRegistry.tokens_mark fun hcan => ?_
      · cases cancelled <;> exact nofun
      · intro hcancelled e he hst
        have hown : e.cancelToken = n := halone c cancelled answer hc hphase e he hst
        have hn : n ∈ s.callRegistry.cancelledTokens := by
          refine h.cancelling n c hc ?_
          cases cancelled with
          | true => rw [hphase]; rfl
          | false => cases hcancelled
        exact h.sound.live _ e he hst (hown ▸ hn)
      · refine h.cancelling n c hc ?_
        rw [hphase, Phase.cancelling, Bool.or_eq_true]
        exact .inr hcan
  | remove n =>
      obtain ⟨c, answer, hc, hphase, rfl⟩ := next_remove hs
      refine h.goOn hc (by rw [hphase]; exact nofun) nofun h.sound.remove rfl fun hcan => ?_
      exact h.cancelling n c hc (by rw [hphase]; exact hcan)
  | cancel requestId tabId =>
      obtain rfl := Option.some.inj hs
      exact h.registry h.sound.cancel fun m hm => CallRegistry.tokens_cancel hm
  | cancelAllForTab tabId =>
      obtain rfl := Option.some.inj hs
      exact h.registry (h.sound.foldl_cancel _) fun m hm => CallRegistry.tokens_foldl_cancel hm _
  | purgeForTab tabId =>
      obtain rfl := Option.some.inj hs
      exact h.registry (h.sound.foldl_remove _) fun m hm => (CallRegistry.tokens_foldl_remove _).symm ▸ hm
  | purgeAll =>
      obtain rfl := Option.some.inj hs
      exact h.registry (h.sound.foldl_remove _) fun m hm => (CallRegistry.tokens_foldl_remove _).symm ▸ hm
  | purgeInactive =>
      obtain rfl := Option.some.inj hs
      exact h.registry (h.sound.foldl_remove _) fun m hm => (CallRegistry.tokens_foldl_remove _).symm ▸ hm

/-- Who is registered stays so in a step that is not its own end and no purge. -/
theorem kept_step (h : s.Inv) (halone : Alone l s) (hs : next l s = some s') (hc : s.calls[n]? = some c)
    (hholds : s.callRegistry.Holds c.requestId n) (hend : ¬ l.mayEnd n c.tabId) :
    s'.callRegistry.Kept c.requestId n := by
  have htab : ∀ e, s.callRegistry.inner.lookup c.requestId = some e → e.cancelToken = n → e.tabId = c.tabId := by
    rintro e he rfl
    have hcalled := (h.sound.called _ e he).2
    rw [registration, hc, Option.bind_some] at hcalled
    split at hcalled
    next => cases hcalled
    next => exact (congrArg Prod.snd (Option.some.inj hcalled)).symm
  cases l with
  | begin requestId tabId =>
      obtain rfl := Option.some.inj hs
      exact hholds.kept
  | register m =>
      obtain ⟨c', hc', -, ⟨token, -, rfl⟩ | rfl⟩ := next_register hs
      · exact hholds.tryRegister.kept
      · exact hholds.kept
  | connect m ok =>
      obtain ⟨c', hc', -, rfl⟩ := next_connect hs
      exact hholds.kept
  | invoke m result =>
      obtain ⟨c', hc', -, -, rfl⟩ := next_invoke hs
      exact hholds.kept
  | checkToken m =>
      obtain ⟨c', result, hc', -, rfl⟩ := next_checkToken hs
      exact hholds.kept
  | checkStatus m =>
      obtain ⟨c', result, hc', -, rfl⟩ := next_checkStatus hs
      exact hholds.kept
  | mark m =>
      obtain ⟨c', cancelled, answer, hc', hphase, rfl⟩ := next_mark hs
      exact (hholds.mark_ne hend (halone c' cancelled answer hc' hphase)).kept
  | remove m =>
      obtain ⟨c', answer, hc', hphase, rfl⟩ := next_remove hs
      exact (hholds.remove_ne hend (halone c' answer hc' hphase)).kept
  | cancel requestId tabId =>
      obtain rfl := Option.some.inj hs
      exact hholds.kept.cancel
  | cancelAllForTab tabId =>
      obtain rfl := Option.some.inj hs
      exact hholds.kept.foldl_cancel _
  | purgeForTab tabId =>
      obtain rfl := Option.some.inj hs
      refine (hholds.purge h.sound.keyed fun e he htoken _ => decide_eq_false ?_).kept
      rw [htab e he htoken]
      exact fun heq => hend heq.symm
  | purgeAll => exact absurd trivial hend
  | purgeInactive =>
      obtain rfl := Option.some.inj hs
      exact (hholds.purge h.sound.keyed fun e _ _ hst => by rw [hst]; rfl).kept

theorem owned_of_alone (h : s.Inv) (halone : Alone l s) : Owned l s := by
  intro s' hs
  have h' : s'.Inv := inv_step h halone hs
  refine ⟨h'.cancelling, fun n c hc hholds hend => kept_step h halone hs hc hholds hend, ?_⟩
  intro n c hc hholds
  obtain ⟨e, he, rfl, -⟩ := id hholds
  have hcalled := (h'.sound.called _ e he).2
  refine h'.sound.cancellable ?_ hholds
  rw [registration, hc, Option.bind_some] at hcalled ⊢
  split at hcalled
  next => cases hcalled
  next hphase => rw [if_neg hphase]

/-- An active entry is that of a call. -/
theorem Inv.exists_call (h : s.Inv) {k : String} {e : CallRegistryEntry} (he : s.callRegistry.inner.lookup k = some e)
    (hst : e.status = .active) :
    ∃ c, s.calls[e.cancelToken]? = some c ∧ s.callRegistry.Holds c.requestId e.cancelToken ∧ c.requestId = k := by
  have hcalled := (h.sound.called k e he).2
  rw [registration, Option.bind_eq_some_iff] at hcalled
  obtain ⟨c, hc, hreg⟩ := hcalled
  split at hreg
  next => cases hreg
  next =>
    have hk : c.requestId = k := congrArg Prod.fst (Option.some.inj hreg)
    exact ⟨c, hc, hk ▸ ⟨e, he, rfl, hst⟩, hk⟩

/-- Where an ending call is not alone another one loses its registration. -/
theorem alone_of_kept (h : s.Inv) {k : String} (hs : next l s = some s') (howned : Owned l s)
    (hlost : ∀ m, ¬ s'.callRegistry.Holds k m) (htokens : s'.callRegistry.cancelledTokens = s.callRegistry.cancelledTokens)
    (hend : ∀ m tabId, l.mayEnd m tabId → m = n) {e : CallRegistryEntry}
    (he : s.callRegistry.inner.lookup k = some e) (hst : e.status = .active) : e.cancelToken = n := by
  obtain ⟨c, hc, hholds, rfl⟩ := h.exists_call he hst
  by_contra hne
  rcases (howned s' hs).2.1 _ c hc hholds fun hmay => hne (hend _ _ hmay) with hholds' | hmem
  · exact hlost _ hholds'
  · exact h.sound.not_mem_of_holds hholds (htokens ▸ hmem)

theorem alone_of_owned (h : s.Inv) (howned : Owned l s) : Alone l s := by
  cases l with
  | mark n =>
      intro c cancelled answer hc hphase e he hst
      have hs : ∃ s', next (.mark n) s = some s' := by
        rw [next, callStep, hc, Option.bind_some, hphase]
        exact ⟨_, rfl⟩
      obtain ⟨s', hs⟩ := hs
      obtain ⟨c', cancelled', answer', hc', -, rfl⟩ := next_mark hs
      obtain rfl := Option.some.inj (hc.symm.trans hc')
      refine alone_of_kept h hs howned ?_ CallRegistry.tokens_mark (fun m tabId hmay => Eq.symm hmay) he hst
      rintro m ⟨e', he', -, hst'⟩
      rw [CallRegistry.lookup_mark, if_pos rfl] at he'
      obtain ⟨e'', -, rfl⟩ := Option.map_eq_some_iff.mp he'
      split at hst'
      next => cases cancelled' <;> cases hst'
      next hne => exact hne hst'
  | remove n =>
      intro c answer hc hphase e he hst
      have hs : ∃ s', next (.remove n) s = some s' := by
        rw [next, callStep, hc, Option.bind_some, hphase]
        exact ⟨_, rfl⟩
      obtain ⟨s', hs⟩ := hs
      obtain ⟨c', answer', hc', -, rfl⟩ := next_remove hs
      obtain rfl := Option.some.inj (hc.symm.trans hc')
      refine alone_of_kept h hs howned ?_ rfl (fun m tabId hmay => Eq.symm hmay) he hst
      rintro m ⟨e', he', -⟩
      rw [CallRegistry.lookup_remove, if_pos rfl] at he'
      cases he'
  | checkStatus n =>
      intro c result hc hphase e he hst
      have hstatus : s.callRegistry.statusOf c.requestId = some .cancelled := by
        rw [CallRegistry.statusOf, he, Option.map_some, hst]
      have hs : next (.checkStatus n) s = some (s.setPhase n c (.marking true .cancelled)) := by
        rw [next, callStep, hc, Option.bind_some, hphase]
        simp only [if_pos hstatus]
      refine .inr ((howned _ hs).1 n { c with phase := .marking true .cancelled } ?_ rfl)
      rw [calls_setPhase hc, if_pos rfl]
  | _ => trivial

end GrpcState

/-- In exactly the runs in which ending calls are alone with their ids, calls own their registration. -/
theorem owned_iff_alone (steps : List Step) :
    AllSteps GrpcState.next Owned .initial steps ↔ AllSteps GrpcState.next Alone .initial steps :=
  allSteps_iff (I := GrpcState.Inv) (fun _ _ _ h halone hs => GrpcState.inv_step h halone hs)
    (fun _ _ h => ⟨GrpcState.alone_of_owned h, GrpcState.owned_of_alone h⟩) GrpcState.inv_initial

/-- A call is cancelled, its id is used again, and then it ends. -/
def lateEnd : List Step :=
  [.begin "r" "t", .register 0, .connect 0 true, .cancel "r" "t", .begin "r" "t", .register 1, .connect 1 true,
    .invoke 0 .cancelled, .checkToken 0, .mark 0, .invoke 1 (.success true), .checkToken 1]

/-- The second call answers `cancelled`, and nobody has cancelled it. -/
theorem lateEnd_not_owned : ¬ AllSteps GrpcState.next Owned .initial (lateEnd ++ [.checkStatus 1]) := by
  intro hok
  obtain ⟨t, ht, hphase⟩ : ∃ t, exec GrpcState.next .initial lateEnd = some t ∧
      ((GrpcState.next (.checkStatus 1) t).bind fun s => s.calls[1]?.map (·.phase.cancelling)) = some true ∧
      1 ∉ ((GrpcState.next (.checkStatus 1) t).elim [] fun s => s.callRegistry.cancelledTokens) :=
    exists_exec (by decide)
  obtain ⟨hcancelling, htoken⟩ := hphase
  obtain ⟨s', hs', hcall⟩ := Option.bind_eq_some_iff.mp hcancelling
  obtain ⟨c, hc, hcan⟩ := Option.map_eq_some_iff.mp hcall
  rw [hs'] at htoken
  exact htoken (((allSteps_last hok ht).1 s' hs').1 1 c hc hcan)

end RedFireForge.Native.UnaryCalls
