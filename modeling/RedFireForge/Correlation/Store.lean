/-
# `RedFireForge.Correlation.Store` — waiters of a shared correlation store

`InMemoryCorrelationStore` maps a correlation id to the waiter paused under it,
and keeps a timer for a waiter with a timeout.  The handlers of the wait nodes,
of any number of runs, call `pause`, and `cancel` on their error path; both name
the waiter by its id alone.  `settlements` is the log of all promises the store
has resolved or rejected, each with what made it do so.

A waiter is known by its place in the list of all waits, which stands for the
two callbacks of its promise.
-/
import Mathlib.Data.List.AList
import RedFireForge.Lib.Run

namespace RedFireForge.Correlation

open RedFireForge.Lib

/-! ## The store -/

structure PausedEntry where
  /-- `0` = no timeout -/
  timeoutAt : ℕ
  /-- whose `resolve` and `reject` these are -/
  waiter : ℕ
deriving DecidableEq, Repr

structure Store where
  entries : AList (fun _ : String => PausedEntry)
  /-- the waiter the timer of an id rejects -/
  timers : AList (fun _ : String => ℕ)

namespace Store

/-- `none` when the id is already paused. -/
def pause (σ : Store) (id : String) (e : PausedEntry) : Option Store :=
  if (σ.entries.lookup id).isSome then none
  else
    some {
      entries := σ.entries.insert id e
      timers := if e.timeoutAt > 0 then σ.timers.insert id e.waiter else σ.timers }

/-- The entry and its timer go; what its promise is settled with is up to the
caller. -/
def remove (σ : Store) (id : String) : Store where
  entries := σ.entries.erase id
  timers := σ.timers.erase id

end Store

/-! ## The waits of all runs -/

/-- What settled a promise. -/
inductive Cause
  | resumed (id : String)
  /-- the timer set for that waiter fired -/
  | timeout (waiter : ℕ)
  /-- `cancel`, on the error path of a wait of `run` -/
  | cancelled (run : ℕ) (aborted : Bool)
  | expired (timeoutAt now : ℕ)
deriving DecidableEq, Repr

/-- One call of a wait node's handler. -/
structure Wait where
  run : ℕ
  correlationId : String
  timeoutAt : ℕ
  /-- `pause` accepted it -/
  accepted : Bool
  /-- the handler has returned, or gone on to its outgoing edges -/
  ended : Bool
deriving DecidableEq, Repr

structure State where
  store : Store
  now : ℕ
  waits : List Wait
  aborted : ℕ → Bool
  settlements : List (ℕ × Cause)

inductive Choice
  /-- a wait node of `run` calls `pause` -/
  | pause (run : ℕ) (id : String) (timeoutMs : ℕ)
  /-- a webhook, a message or the injector -/
  | resume (id : String)
  /-- the timer of `id` fires -/
  | fire (id : String)
  | cleanup
  | tick (ms : ℕ)
  | abort (run : ℕ)
  /-- the handler of a wait goes on, on its error path when it `fails` -/
  | proceed (i : ℕ) (fails : Bool)
deriving DecidableEq, Repr

namespace State

/-- An entry is removed, and its waiter settled. -/
def settle (s : State) (id : String) (waiter : ℕ) (cause : Cause) : State :=
  { s with store := s.store.remove id, settlements := s.settlements ++ [(waiter, cause)] }

/-- One turn of the loop in `cleanup`. -/
def expire (s : State) (x : (_ : String) × PausedEntry) : State :=
  s.settle x.1 x.2.waiter (.expired x.2.timeoutAt s.now)

def isExpired (now : ℕ) (x : (_ : String) × PausedEntry) : Bool :=
  decide (x.2.timeoutAt > 0) && decide (x.2.timeoutAt ≤ now)

def cleanup (s : State) : State :=
  (s.store.entries.entries.filter (isExpired s.now)).foldl expire s

/-- `cancel(id)`, from a wait of `run`. -/
def cancel (s : State) (run : ℕ) (id : String) : State :=
  match s.store.entries.lookup id with
  | some e => s.settle id e.waiter (.cancelled run (s.aborted run))
  | none => s

def isSettled (s : State) (i : ℕ) : Bool := s.settlements.any (fun x => x.1 == i)

def isResumed (s : State) (i : ℕ) : Bool :=
  s.settlements.any (fun x => x.1 == i && match x.2 with | .resumed _ => true | _ => false)

/-- The error path can be taken when `pause` rejected the wait, when its run is
aborted, or once its promise is settled: a payload can fail to be injected. -/
def canFail (s : State) (i : ℕ) (w : Wait) : Bool :=
  !w.accepted || s.aborted w.run || s.isSettled i

/-- The wait at `i` is over. -/
def finish (s : State) (i : ℕ) (w : Wait) : State :=
  { s with waits := s.waits.set i { w with ended := true } }

end State

def next : Choice → State → Option State
  | .pause run id timeoutMs, s =>
      let timeoutAt := if timeoutMs > 0 then s.now + timeoutMs else 0
      match s.store.pause id ⟨timeoutAt, s.waits.length⟩ with
      | some store => some { s with store, waits := s.waits ++ [⟨run, id, timeoutAt, true, false⟩] }
      | none => some { s with waits := s.waits ++ [⟨run, id, timeoutAt, false, false⟩] }
  | .resume id, s =>
      match s.store.entries.lookup id with
      | some e => some (s.settle id e.waiter (.resumed id))
      | none => some s
  | .fire id, s => (s.store.timers.lookup id).map (fun waiter => s.settle id waiter (.timeout waiter))
  | .cleanup, s => some s.cleanup
  | .tick ms, s => some { s with now := s.now + ms }
  | .abort run, s => some { s with aborted := Function.update s.aborted run true }
  | .proceed i fails, s =>
      match s.waits[i]? with
      | some w =>
          if w.ended then none
          else if fails then
            if s.canFail i w then some ((s.cancel w.run w.correlationId).finish i w) else none
          else if s.isResumed i then some (s.finish i w)
          else none
      | none => none

def initial : State := ⟨⟨∅, ∅⟩, 0, [], fun _ => false, []⟩

/-! ## What may settle a wait -/

/-- A resume with its id, its own timeout, its own run's abort, or cleanup after
its expiry. -/
def Cause.ofWait (i : ℕ) (w : Wait) : Cause → Bool
  | .resumed id => id == w.correlationId
  | .timeout waiter => waiter == i
  | .cancelled run aborted => run == w.run && aborted
  | .expired timeoutAt now =>
      timeoutAt == w.timeoutAt && decide (0 < timeoutAt) && decide (timeoutAt ≤ now)

def State.rightful (s : State) (x : ℕ × Cause) : Bool :=
  s.waits[x.1]?.any (fun w => x.2.ofWait x.1 w)

/-- When an error path cancels its id, the store holds no waiter under it, or one
of the same run, which is aborted. -/
def ownCancels : Choice → State → Bool
  | .proceed i true, s =>
      s.waits[i]?.all fun w =>
        (s.store.entries.lookup w.correlationId).all fun e =>
          s.waits[e.waiter]?.any (fun w' => w.run == w'.run) && s.aborted w.run
  | _, _ => true

/-! ## Each wait is registered once or settled once -/

/-- The wait is the one paused under its id. -/
def State.registered (s : State) (i : ℕ) (w : Wait) : Bool :=
  (s.store.entries.lookup w.correlationId).any (fun e => e.waiter == i)

def State.settledCount (s : State) (i : ℕ) : ℕ := s.settlements.countP (fun x => x.1 == i)

/-- What holds of the store and the waits in every state of a run. -/
structure Inv (s : State) : Prop where
  entries : ∀ id e, s.store.entries.lookup id = some e →
    ∃ w, s.waits[e.waiter]? = some w ∧ w.correlationId = id ∧ w.timeoutAt = e.timeoutAt
  timers : ∀ id waiter, s.store.timers.lookup id = some waiter →
    ∃ e, s.store.entries.lookup id = some e ∧ e.waiter = waiter
  accounts : ∀ i w, s.waits[i]? = some w →
    s.settledCount i + (s.registered i w).toNat = w.accepted.toNat
  settled : ∀ x ∈ s.settlements, x.1 < s.waits.length

/-- Every settlement so far was rightful. -/
def State.Rightful (s : State) : Prop := ∀ x ∈ s.settlements, s.rightful x = true

section Steps

variable {s s' : State} {id : String} {e : PausedEntry} {cause : Cause} {i : ℕ} {w : Wait}

theorem waiter_lt (h : Inv s) (he : s.store.entries.lookup id = some e) :
    e.waiter < s.waits.length := by
  obtain ⟨w, hw, -⟩ := h.entries id e he
  exact (List.getElem?_eq_some_iff.mp hw).1

/-- Settling the waiter of an entry removes exactly that registration. -/
theorem Inv.settle (h : Inv s) (he : s.store.entries.lookup id = some e) (cause : Cause) :
    Inv (s.settle id e.waiter cause) := by
  have hlookup : ∀ id', (s.settle id e.waiter cause).store.entries.lookup id' =
      if id' = id then none else s.store.entries.lookup id' := by
    intro id'
    by_cases hid : id' = id
    · subst hid
      simp [State.settle, Store.remove, AList.lookup_erase]
    · simp [State.settle, Store.remove, AList.lookup_erase_ne hid, hid]
  refine ⟨fun id' e' he' => ?_, fun id' waiter hwaiter => ?_, fun i w hw => ?_, fun x hx => ?_⟩
  · rw [hlookup] at he'
    split at he'
    · cases he'
    · exact h.entries id' e' he'
  · by_cases hid : id' = id
    · subst hid
      simp [State.settle, Store.remove, AList.lookup_erase] at hwaiter
    · simp only [State.settle, Store.remove, AList.lookup_erase_ne hid] at hwaiter
      obtain ⟨e', he', hwaiter⟩ := h.timers id' waiter hwaiter
      exact ⟨e', by rw [hlookup, if_neg hid, he'], hwaiter⟩
  · have hold := h.accounts i w hw
    have hcount : (s.settle id e.waiter cause).settledCount i =
        s.settledCount i + if e.waiter = i then 1 else 0 := by
      simp [State.settledCount, State.settle, List.countP_append, List.countP_cons]
    by_cases hid : w.correlationId = id
    · have hbefore : s.registered i w = (e.waiter == i) := by
        rw [State.registered, hid, he]
        rfl
      have hafter : (s.settle id e.waiter cause).registered i w = false := by
        rw [State.registered, hlookup, if_pos hid]
        rfl
      rw [hbefore] at hold
      rw [hcount, hafter]
      by_cases hi : e.waiter = i
      · simpa [hi] using hold
      · simpa [hi, beq_eq_false_iff_ne.mpr hi] using hold
    · have hne : e.waiter ≠ i := by
        rintro rfl
        obtain ⟨w', hw', hid', -⟩ := h.entries id e he
        have hw : s.waits[e.waiter]? = some w := hw
        rw [hw] at hw'
        cases hw'
        exact hid hid'
      have hsame : (s.settle id e.waiter cause).registered i w = s.registered i w := by
        rw [State.registered, hlookup, if_neg hid]
        rfl
      rw [hcount, if_neg hne, hsame]
      exact hold
  · rcases List.mem_append.mp hx with hx | hx
    · exact h.settled x hx
    · obtain rfl := List.mem_singleton.mp hx
      have := waiter_lt h he
      simpa [State.settle] using this

theorem rightful_settle : (s.settle id e.waiter cause).Rightful ↔
    s.Rightful ∧ s.rightful (e.waiter, cause) = true := by
  simp only [State.Rightful, State.settle, List.mem_append, List.mem_singleton]
  constructor
  · exact fun hall => ⟨fun x hx => hall x (Or.inl hx), hall _ (Or.inr rfl)⟩
  · rintro ⟨hold, hnew⟩ x (hx | rfl)
    · exact hold x hx
    · exact hnew

/-! ## Each step -/

/-- A wait that is over is otherwise as it was. -/
theorem finish_getElem? {j : ℕ} (hw : s.waits[i]? = some w) :
    (s.finish i w).waits[j]? = (s.waits[j]?).map (fun w' => if i = j then { w' with ended := true } else w') := by
  obtain ⟨hi, rfl⟩ := List.getElem?_eq_some_iff.mp hw
  rw [State.finish, List.getElem?_set]
  split
  next hij =>
    subst hij
    simp [hi]
  next => simp

theorem Inv.finish (h : Inv s) (hw : s.waits[i]? = some w) : Inv (s.finish i w) := by
  refine ⟨fun id e he => ?_, h.timers, fun j w' hw' => ?_, fun x hx => ?_⟩
  · obtain ⟨w', hw', hid, htime⟩ := h.entries id e he
    refine ⟨_, by rw [finish_getElem? hw, hw']; rfl, ?_, ?_⟩ <;> split <;> assumption
  · rw [finish_getElem? hw, Option.map_eq_some_iff] at hw'
    obtain ⟨w₀, hw₀, rfl⟩ := hw'
    have hold := h.accounts j w₀ hw₀
    split <;> exact hold
  · simpa [State.finish] using h.settled x hx

theorem rightful_finish (hw : s.waits[i]? = some w) : (s.finish i w).Rightful ↔ s.Rightful := by
  have hsame : ∀ x, (s.finish i w).rightful x = s.rightful x := by
    intro x
    rw [State.rightful, finish_getElem? hw, State.rightful, Option.any_map]
    congr 1
    funext w'
    split <;> cases x.2 <;> rfl
  simp only [State.Rightful, hsame]
  rfl

/-- A call of `pause` settles nothing. -/
theorem rightful_append (h : Inv s) {store : Store} :
    ({ s with store, waits := s.waits ++ [w] } : State).Rightful ↔ s.Rightful := by
  refine forall₂_congr (fun x hx => ?_)
  rw [State.rightful, State.rightful]
  simp only [List.getElem?_append_left (h.settled x hx)]

theorem settledCount_new (h : Inv s) : s.settledCount s.waits.length = 0 := by
  refine List.countP_eq_zero.mpr (fun x hx => ?_)
  have := h.settled x hx
  simp
  omega

/-- The accounts of the older waits, and of the new one. -/
theorem accounts_append {s₁ : State} (h : Inv s) (hwaits : s₁.waits = s.waits ++ [w])
    (hsettlements : s₁.settlements = s.settlements)
    (hold : ∀ i w, s.waits[i]? = some w → s₁.registered i w = s.registered i w)
    (hnew : s₁.registered s.waits.length w = w.accepted) :
    ∀ i w, s₁.waits[i]? = some w → s₁.settledCount i + (s₁.registered i w).toNat = w.accepted.toNat := by
  intro i w' hw'
  have hcount : s₁.settledCount i = s.settledCount i := by simp [State.settledCount, hsettlements]
  rw [hwaits] at hw'
  rcases Nat.lt_trichotomy i s.waits.length with hi | rfl | hi
  · rw [List.getElem?_append_left hi] at hw'
    rw [hcount, hold i w' hw']
    exact h.accounts i w' hw'
  · obtain rfl : w = w' := by simpa using hw'
    rw [hcount, settledCount_new h, hnew, Nat.zero_add]
  · rw [List.getElem?_eq_none (by simp; omega)] at hw'
    cases hw'

theorem entries_append {id' : String} {e' : PausedEntry} (h : Inv s)
    (he' : s.store.entries.lookup id' = some e') :
    ∃ w', (s.waits ++ [w])[e'.waiter]? = some w' ∧ w'.correlationId = id' ∧
      w'.timeoutAt = e'.timeoutAt := by
  obtain ⟨w', hw', hid, htime⟩ := h.entries id' e' he'
  exact ⟨w', by rw [List.getElem?_append_left (waiter_lt h he'), hw'], hid, htime⟩

/-- The rejected wait is not registered: another one is. -/
theorem Inv.reject (h : Inv s) (he : s.store.entries.lookup w.correlationId = some e)
    (hrejected : w.accepted = false) : Inv { s with waits := s.waits ++ [w] } := by
  refine ⟨fun id' e' he' => entries_append h he', h.timers,
    accounts_append h rfl rfl (fun _ _ _ => rfl) ?_, fun x hx => ?_⟩
  · have hne : e.waiter ≠ s.waits.length := Nat.ne_of_lt (waiter_lt h he)
    rw [hrejected]
    simp [State.registered, he, hne]
  · have := h.settled x hx
    simp
    omega

theorem Inv.accept (h : Inv s) (hfree : s.store.entries.lookup w.correlationId = none)
    (haccepted : w.accepted = true) {store : Store}
    (hpause : s.store.pause w.correlationId ⟨w.timeoutAt, s.waits.length⟩ = some store) :
    Inv { s with store, waits := s.waits ++ [w] } := by
  simp only [Store.pause, hfree, Option.isSome_none, Bool.false_eq_true, if_false,
    Option.some.injEq] at hpause
  subst hpause
  have hlookup : ∀ id', AList.lookup id'
      (s.store.entries.insert w.correlationId ⟨w.timeoutAt, s.waits.length⟩) =
        if id' = w.correlationId then some ⟨w.timeoutAt, s.waits.length⟩
        else s.store.entries.lookup id' := by
    intro id'
    by_cases hid : id' = w.correlationId
    · rw [if_pos hid, hid, AList.lookup_insert]
    · rw [if_neg hid, AList.lookup_insert_ne hid]
  refine ⟨fun id' e' he' => ?_, fun id' waiter hwaiter => ?_,
    accounts_append h rfl rfl (fun j w' hw' => ?_) ?_, fun x hx => ?_⟩
  · rw [hlookup] at he'
    split at he'
    next hid =>
      cases he'
      exact ⟨w, by simp, hid.symm, rfl⟩
    next => exact entries_append h he'
  · have hold : s.store.timers.lookup id' = some waiter → ∃ e, AList.lookup id'
        (s.store.entries.insert w.correlationId ⟨w.timeoutAt, s.waits.length⟩) = some e ∧
          e.waiter = waiter := by
      intro htimer
      obtain ⟨e, he, hwaiter⟩ := h.timers id' waiter htimer
      have hid : id' ≠ w.correlationId := by
        rintro rfl
        rw [hfree] at he
        cases he
      exact ⟨e, by rw [hlookup, if_neg hid, he], hwaiter⟩
    by_cases htime : w.timeoutAt > 0
    · simp only [htime, if_true] at hwaiter
      by_cases hid : id' = w.correlationId
      · rw [hid, AList.lookup_insert, Option.some.injEq] at hwaiter
        exact ⟨_, by rw [hlookup, if_pos hid], hwaiter⟩
      · rw [AList.lookup_insert_ne hid] at hwaiter
        exact hold hwaiter
    · simp only [htime, if_false] at hwaiter
      exact hold hwaiter
  · rw [State.registered, hlookup, State.registered]
    split
    next hid =>
      have hj := (List.getElem?_eq_some_iff.mp hw').1
      rw [hid, hfree]
      simp
      omega
    next => rfl
  · rw [State.registered, hlookup, if_pos rfl, haccepted]
    simp
  · have := h.settled x hx
    simp
    omega

/-- A call of `pause` registers its wait, or is rejected. -/
theorem Inv.pause (h : Inv s) {run timeoutMs : ℕ}
    (hnext : next (.pause run id timeoutMs) s = some s') :
    Inv s' ∧ (s'.Rightful ↔ s.Rightful) := by
  simp only [next] at hnext
  split at hnext
  next store hpause =>
    cases hnext
    refine ⟨Inv.accept h (w := ⟨run, id, _, true, false⟩) ?_ rfl hpause, rightful_append h⟩
    by_contra hbusy
    simp [Store.pause, Option.isSome_iff_ne_none.mpr hbusy] at hpause
  next hpause =>
    cases hnext
    have hbusy : (s.store.entries.lookup id).isSome = true := by
      by_contra hfree
      simp [Store.pause, hfree] at hpause
    obtain ⟨e, he⟩ := Option.isSome_iff_exists.mp hbusy
    exact ⟨Inv.reject h (w := ⟨run, id, _, false, false⟩) he rfl, rightful_append h⟩

/-- A settlement of the waiter of an entry is rightful when the entry says so. -/
theorem rightful_of_entry (h : Inv s) (he : s.store.entries.lookup id = some e)
    (hcause : ∀ w, w.correlationId = id → w.timeoutAt = e.timeoutAt →
      cause.ofWait e.waiter w = true) : s.rightful (e.waiter, cause) = true := by
  obtain ⟨w, hw, hid, htime⟩ := h.entries id e he
  simpa [State.rightful, hw] using hcause w hid htime

/-- The loop of `cleanup`: each turn removes its own entry and leaves the others. -/
theorem Inv.expireAll : ∀ (l : List ((_ : String) × PausedEntry)) {s : State}, Inv s →
    l.NodupKeys → (∀ x ∈ l, s.store.entries.lookup x.1 = some x.2 ∧
      State.isExpired s.now x = true) →
    Inv (l.foldl State.expire s) ∧ ((l.foldl State.expire s).Rightful ↔ s.Rightful)
  | [], _, h, _, _ => ⟨h, Iff.rfl⟩
  | x :: l, s, h, hkeys, hl => by
      obtain ⟨hx, hexpired⟩ := hl x List.mem_cons_self
      obtain ⟨hnot, hkeys⟩ := List.nodupKeys_cons.mp hkeys
      have hrest : ∀ y ∈ l, (s.expire x).store.entries.lookup y.1 = some y.2 ∧
          State.isExpired (s.expire x).now y = true := by
        intro y hy
        have hne : y.1 ≠ x.1 := fun heq => hnot (heq ▸ List.mem_keys_of_mem hy)
        obtain ⟨hlookup, hy⟩ := hl y (List.mem_cons_of_mem _ hy)
        exact ⟨(AList.lookup_erase_ne hne).trans hlookup, hy⟩
      obtain ⟨hinv, hiff⟩ := Inv.expireAll l (h.settle hx _) hkeys hrest
      refine ⟨hinv, hiff.trans (rightful_settle.trans (and_iff_left ?_))⟩
      refine rightful_of_entry h hx (fun w _ htime => ?_)
      simpa [Cause.ofWait, State.isExpired, htime] using hexpired

theorem Inv.cleanup (h : Inv s) : Inv s.cleanup ∧ (s.cleanup.Rightful ↔ s.Rightful) := by
  refine Inv.expireAll _ h ?_ (fun x hx => ?_)
  · exact s.store.entries.nodupKeys.sublist List.filter_sublist
  · obtain ⟨hx, hexpired⟩ := List.mem_filter.mp hx
    exact ⟨AList.mem_lookup_iff.mpr hx, hexpired⟩

/-- A cancel settles the waiter under the id, whoever paused it. -/
theorem Inv.cancel (h : Inv s) (hw : s.waits[i]? = some w) :
    Inv (s.cancel w.run w.correlationId) ∧ ((s.cancel w.run w.correlationId).Rightful ↔
      s.Rightful ∧ ownCancels (.proceed i true) s = true) := by
  have hok : ownCancels (.proceed i true) s = (s.store.entries.lookup w.correlationId).all fun e =>
      s.waits[e.waiter]?.any (fun w' => w.run == w'.run) && s.aborted w.run := by
    simp [ownCancels, hw]
  rw [hok]
  unfold State.cancel
  cases he : s.store.entries.lookup w.correlationId with
  | none => exact ⟨h, by simp⟩
  | some e =>
      refine ⟨h.settle he _, rightful_settle.trans ?_⟩
      obtain ⟨w', hw', -⟩ := h.entries _ _ he
      simp [State.rightful, hw', Cause.ofWait]

theorem Inv.step {ch : Choice} (h : Inv s) (hnext : next ch s = some s') :
    Inv s' ∧ (s'.Rightful ↔ s.Rightful ∧ ownCancels ch s = true) := by
  cases ch with
  | pause run id timeoutMs =>
      obtain ⟨hinv, hiff⟩ := h.pause hnext
      exact ⟨hinv, hiff.trans (and_iff_left rfl).symm⟩
  | resume id =>
      simp only [next] at hnext
      split at hnext
      next e he =>
        cases hnext
        refine ⟨h.settle he _, rightful_settle.trans (and_congr_right fun _ => ?_)⟩
        simpa [ownCancels] using rightful_of_entry h he
          (fun w hid _ => by simp [Cause.ofWait, hid])
      next =>
        cases hnext
        exact ⟨h, (and_iff_left rfl).symm⟩
  | fire id =>
      obtain ⟨waiter, htimer, rfl⟩ := Option.map_eq_some_iff.mp hnext
      obtain ⟨e, he, rfl⟩ := h.timers id waiter htimer
      refine ⟨h.settle he _, rightful_settle.trans (and_congr_right fun _ => ?_)⟩
      simpa [ownCancels] using rightful_of_entry h he (fun w _ _ => by simp [Cause.ofWait])
  | cleanup =>
      cases hnext
      exact ⟨h.cleanup.1, h.cleanup.2.trans (and_iff_left rfl).symm⟩
  | tick ms =>
      cases hnext
      exact ⟨⟨h.entries, h.timers, h.accounts, h.settled⟩, (and_iff_left rfl).symm⟩
  | abort run =>
      cases hnext
      exact ⟨⟨h.entries, h.timers, h.accounts, h.settled⟩, (and_iff_left rfl).symm⟩
  | proceed i fails =>
      simp only [next] at hnext
      split at hnext
      next w hw =>
        split at hnext
        next => cases hnext
        next =>
          cases fails with
          | true =>
              rw [if_pos rfl] at hnext
              split at hnext
              · cases hnext
                obtain ⟨hinv, hiff⟩ := h.cancel hw
                have hw' : (s.cancel w.run w.correlationId).waits[i]? = some w := by
                  unfold State.cancel
                  split <;> exact hw
                exact ⟨hinv.finish hw', (rightful_finish hw').trans hiff⟩
              · cases hnext
          | false =>
              rw [if_neg Bool.false_ne_true] at hnext
              split at hnext
              · cases hnext
                exact ⟨h.finish hw, (rightful_finish hw).trans (and_iff_left rfl).symm⟩
              · cases hnext
      next => cases hnext

end Steps

/-- **Waiters are settled by what is theirs.**  In every run of any number of
workflow runs over one store: a wait that `pause` accepted is registered under
its id or settled, once and not both, and a rejected one neither; and all
settlements are rightful exactly if every error path cancels either nothing or a
waiter of its own aborted run. -/
theorem settled_rightfully_iff (ls : List Choice) (s : State)
    (hrun : exec next initial ls = some s) :
    (∀ i w, s.waits[i]? = some w →
      s.settledCount i + (s.registered i w).toNat = w.accepted.toNat) ∧
    ((∀ x ∈ s.settlements, s.rightful x = true) ↔
      AllSteps next (fun ch s => ownCancels ch s = true) initial ls) := by
  have h0 : Inv initial :=
    ⟨fun _ _ he => by (cases he), fun _ _ hw => by (cases hw), fun _ _ hw => by (cases hw),
      fun _ hx => by (cases hx)⟩
  have hstep : ∀ ch s s', Inv s → next ch s = some s' →
      Inv s' ∧ (s'.Rightful ↔ s.Rightful ∧ ownCancels ch s = true) :=
    fun ch s s' h hnext => h.step hnext
  refine ⟨(exec_invariant' (fun ch s s' h hnext => (hstep ch s s' h hnext).1) h0 hrun).accounts, ?_⟩
  have hiff := exec_iff_allSteps (P := State.Rightful) hstep h0 hrun
  exact hiff.trans (and_iff_right (fun _ hx => by (cases hx)))

/-! ### Two runs with one id -/

/-- The second wait is rejected and gives up after the first was resumed. -/
def resumedFirst : List Choice :=
  [.pause 1 "order-7" 5000, .pause 2 "order-7" 5000, .resume "order-7", .proceed 0 false,
    .proceed 1 true]

theorem settled_rightfully_iff_resumedFirst :
    ∃ s, exec next initial resumedFirst = some s ∧ s.settlements = [(0, .resumed "order-7")] ∧
      ∀ x ∈ s.settlements, s.rightful x = true := by
  obtain ⟨s, hrun, hsettled⟩ : ∃ s, exec next initial resumedFirst = some s ∧
      s.settlements = [(0, .resumed "order-7")] := exists_exec (by decide)
  exact ⟨s, hrun, hsettled, (settled_rightfully_iff resumedFirst s hrun).2.mpr (by decide)⟩

/-- The second wait is rejected, and its error path cancels the id. -/
def rejectedSecond : List Choice :=
  [.pause 1 "order-7" 5000, .pause 2 "order-7" 5000, .proceed 1 true]

/-- The first waiter is settled by the other run, which is not even aborted. -/
theorem rejected_wait_cancels_first :
    ∃ s, exec next initial rejectedSecond = some s ∧
      s.waits.map Wait.accepted = [true, false] ∧
      s.settlements = [(0, .cancelled 2 false)] ∧
      s.store.entries.lookup "order-7" = none ∧
      s.rightful (0, .cancelled 2 false) = false :=
  exists_exec (by decide)

end RedFireForge.Correlation
