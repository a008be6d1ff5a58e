/-
# `RedFireForge.Kafka.SubscriptionStore` — polling a buffer that consumers fill

A consumer appends to a ring buffer that it holds, and counts the message in the entry
that stands under its identifier at that moment.  A registration under the same identifier
puts another entry there with the same buffer and the same count, as long as there is one
to replace.  Entries and buffers are numbered as they are allocated.
-/
import RedFireForge.Lib.Run
import Mathlib.Data.Int.Notation
import Mathlib.Logic.Function.Basic
import Mathlib.Order.Basic
import Mathlib.Data.Nat.Basic

namespace RedFireForge.Kafka

open RedFireForge.Lib

variable {M : Type}

/-- The entry `object`, with the number of its buffer. -/
structure SubscriptionEntry where
  object : ℕ
  cleanup : Bool
  ringBuffer : ℕ
  maxInMemoryMessages : ℕ
  cursor : ℕ
deriving DecidableEq, Repr

/-- What the callback of a consumer has of its subscription. -/
structure SubscriptionConsumer where
  subscriptionId : String
  ringBuffer : ℕ
  maxInMemoryMessages : ℕ
deriving DecidableEq, Repr

structure SubscriptionStore (M : Type) where
  subscriptions : String → Option SubscriptionEntry
  consumers : List SubscriptionConsumer
  buffers : ℕ → List M
  allocated : ℕ
  /-- calls of `unsubscribe` whose cleanup is pending, with the entry that they found -/
  pending : List (String × ℕ)

namespace SubscriptionStore

def empty : SubscriptionStore M := ⟨fun _ => none, [], fun _ => [], 0, []⟩

variable (s : SubscriptionStore M)

def set (id : String) (entry : Option SubscriptionEntry) : SubscriptionStore M :=
  { s with subscriptions := Function.update s.subscriptions id entry }

/-! ## Operations -/

/-- The identifier is new. -/
def isFresh (id : String) : Bool :=
  (s.subscriptions id).isNone && s.consumers.all (·.subscriptionId != id) && s.pending.all (·.1 != id)

def executeSubscribe (id : String) (maxInMemoryMessages : Option ℕ) : SubscriptionStore M :=
  let limit := max (maxInMemoryMessages.getD 100) 1
  { s.set id (some ⟨s.allocated, true, s.allocated, limit, 0⟩) with
    consumers := s.consumers ++ [⟨id, s.allocated, limit⟩]
    buffers := Function.update s.buffers s.allocated []
    allocated := s.allocated + 1 }

/-- `push`, and `shift` above the limit. -/
def pushed (limit : ℕ) (buffer : List M) (message : M) : List M :=
  if (buffer ++ [message]).length > limit then (buffer ++ [message]).tail else buffer ++ [message]

def receive (c : SubscriptionConsumer) (message : M) : SubscriptionStore M :=
  { s.set c.subscriptionId
      ((s.subscriptions c.subscriptionId).map fun e => { e with cursor := e.cursor + 1 }) with
    buffers := Function.update s.buffers c.ringBuffer
      (pushed c.maxInMemoryMessages (s.buffers c.ringBuffer) message) }

/-- An entry that is replaced leaves its buffer, its limit and its cursor. -/
def register (id : String) (cleanup : Bool) : SubscriptionStore M :=
  match s.subscriptions id with
  | some existing =>
      { s.set id (some { existing with object := s.allocated, cleanup := cleanup }) with
        allocated := s.allocated + 1 }
  | none =>
      { s.set id (some ⟨s.allocated, cleanup, s.allocated, 100, 0⟩) with
        buffers := Function.update s.buffers s.allocated []
        allocated := s.allocated + 1 }

structure SubscriptionMessages (M : Type) where
  messages : List M
  cursor : ℕ
  bufferSize : ℕ
  maxInMemoryMessages : ℕ
  cursorGap : Bool
deriving DecidableEq, Repr

def getSubscriptionMessages (id : String) (sinceCursor : Option ℤ) :
    Except String (SubscriptionMessages M) :=
  if id = "" then .error "KAFKA_INVALID_REQUEST"
  else
    match s.subscriptions id with
    | none => .error "KAFKA_SUBSCRIPTION_NOT_FOUND"
    | some entry =>
        let ringBuffer := s.buffers entry.ringBuffer
        let since := sinceCursor.getD 0
        let bufferStartCursor : ℤ := entry.cursor - ringBuffer.length
        .ok
          { messages :=
              if since ≤ 0 ∨ since ≤ bufferStartCursor then ringBuffer
              else ringBuffer.drop (since - bufferStartCursor).toNat
            cursor := entry.cursor
            bufferSize := ringBuffer.length
            maxInMemoryMessages := entry.maxInMemoryMessages
            cursorGap := decide (since > 0 ∧ since < bufferStartCursor) }

/-- Without a cleanup the entry is removed at once. -/
def unsubscribe (id : String) : SubscriptionStore M :=
  match s.subscriptions id with
  | none => s
  | some existing =>
      if existing.cleanup then { s with pending := s.pending ++ [(id, existing.object)] }
      else s.set id none

/-- The cleanup has ended, or it took too long. -/
def finishUnsubscribe (i : ℕ) (id : String) : SubscriptionStore M :=
  { s.set id none with pending := s.pending.eraseIdx i }

def clear : SubscriptionStore M := { s with subscriptions := fun _ => none }

end SubscriptionStore

inductive StoreStep (M : Type)
  | subscribe (id : String) (maxInMemoryMessages : Option ℕ)
  /-- consumer `i` gets a message that passes the filter -/
  | receive (i : ℕ) (message : M)
  | register (id : String) (cleanup : Bool)
  | poll (id : String) (sinceCursor : Option ℤ)
  | unsubscribe (id : String)
  | cleaned (i : ℕ)
  /-- the loop of consumer `i` fails -/
  | fails (i : ℕ)
  | cleanupAll
deriving DecidableEq, Repr

def storeNext : StoreStep M → SubscriptionStore M → Option (SubscriptionStore M)
  | .subscribe id limit, s => if s.isFresh id then some (s.executeSubscribe id limit) else none
  | .receive i message, s => s.consumers[i]?.map fun c => s.receive c message
  | .register id cleanup, s => some (s.register id cleanup)
  | .poll _ _, s => some s
  | .unsubscribe id, s => some (s.unsubscribe id)
  | .cleaned i, s => s.pending[i]?.map fun call => s.finishUnsubscribe i call.1
  | .fails i, s => s.consumers[i]?.map fun c => s.set c.subscriptionId none
  | .cleanupAll, s => some s.clear

/-! ## Whom an unsubscribe removes -/

/-- The entry under the identifier of a pending unsubscribe is the one that it was called
for. -/
def SubscriptionStore.Ours (s : SubscriptionStore M) : Prop :=
  ∀ call ∈ s.pending, ∀ entry, s.subscriptions call.1 = some entry → entry.object = call.2

/-- No registration comes under an identifier while an unsubscribe of it is pending. -/
def registersQuietly (l : StoreStep M) (s : SubscriptionStore M) : Prop :=
  match l with
  | .register id _ => ∀ call ∈ s.pending, call.1 ≠ id
  | _ => True

instance (l : StoreStep M) (s : SubscriptionStore M) : Decidable (registersQuietly l s) := by
  unfold registersQuietly
  split <;> infer_instance

namespace SubscriptionStore

variable {s s' : SubscriptionStore M} {id : String} {l : StoreStep M} {e : SubscriptionEntry}

theorem set_same {entry : Option SubscriptionEntry} : (s.set id entry).subscriptions id = entry :=
  Function.update_self _ _ _

theorem set_other {id' : String} {entry : Option SubscriptionEntry} (h : id' ≠ id) :
    (s.set id entry).subscriptions id' = s.subscriptions id' := Function.update_of_ne h _ _

/-- What is known of allocated numbers: buffers are not shared, and a buffer is no longer
than the count of its entry. -/
structure Inv (s : SubscriptionStore M) : Prop where
  objects : ∀ call ∈ s.pending, call.2 < s.allocated
  object : ∀ id e, s.subscriptions id = some e → e.object < s.allocated
  buffer : ∀ id e, s.subscriptions id = some e → e.ringBuffer < s.allocated
  feeder : ∀ c ∈ s.consumers, c.ringBuffer < s.allocated
  shared : ∀ id id' e e', s.subscriptions id = some e → s.subscriptions id' = some e' →
    e.ringBuffer = e'.ringBuffer → id = id'
  feeds : ∀ id e, s.subscriptions id = some e → ∀ c ∈ s.consumers, c.ringBuffer = e.ringBuffer →
    c.subscriptionId = id ∧ c.maxInMemoryMessages = e.maxInMemoryMessages
  counted : ∀ id e, s.subscriptions id = some e → (s.buffers e.ringBuffer).length ≤ e.cursor
  bounded : ∀ id e, s.subscriptions id = some e →
    (s.buffers e.ringBuffer).length ≤ e.maxInMemoryMessages

theorem empty_inv : (empty : SubscriptionStore M).Inv := by
  constructor <;> simp [empty]

theorem length_pushed {limit : ℕ} {buffer : List M} (h : buffer.length ≤ limit) (message : M) :
    (pushed limit buffer message).length ≤ limit ∧
      (pushed limit buffer message).length ≤ buffer.length + 1 := by
  unfold pushed
  split <;> simp <;> simp at * <;> omega

/-- Entries that go keep the invariant. -/
theorem Inv.drop (h : s.Inv) (hsub : ∀ id e, s'.subscriptions id = some e → s.subscriptions id = some e)
    (hconsumers : s'.consumers = s.consumers) (hbuffers : s'.buffers = s.buffers)
    (hallocated : s'.allocated = s.allocated) (hpending : ∀ call ∈ s'.pending, call ∈ s.pending) :
    s'.Inv where
  objects := fun call hcall => hallocated ▸ h.objects call (hpending call hcall)
  object := fun id e he => hallocated ▸ h.object id e (hsub id e he)
  buffer := fun id e he => hallocated ▸ h.buffer id e (hsub id e he)
  feeder := by
    rw [hconsumers, hallocated]
    exact h.feeder
  shared := fun id id' e e' he he' => h.shared id id' e e' (hsub id e he) (hsub id' e' he')
  feeds := fun id e he => by
    rw [hconsumers]
    exact h.feeds id e (hsub id e he)
  counted := fun id e he => by
    rw [hbuffers]
    exact h.counted id e (hsub id e he)
  bounded := fun id e he => by
    rw [hbuffers]
    exact h.bounded id e (hsub id e he)

theorem sub_of_set_none (id : String) : ∀ id' e, (s.set id none).subscriptions id' = some e →
    s.subscriptions id' = some e := by
  intro id' e he
  by_cases heq : id' = id
  · rw [heq, set_same] at he
    cases he
  · rwa [set_other heq] at he

/-- An entry whose number, cleanup or count changes. -/
theorem inv_of_entries (h : s.Inv) (hold : ∀ id e', s'.subscriptions id = some e' → ∃ e,
      s.subscriptions id = some e ∧ e'.ringBuffer = e.ringBuffer ∧
        e'.maxInMemoryMessages = e.maxInMemoryMessages ∧
        (s'.buffers e.ringBuffer).length ≤ e'.cursor ∧
        (s'.buffers e.ringBuffer).length ≤ e.maxInMemoryMessages ∧ e'.object < s'.allocated)
    (hconsumers : s'.consumers = s.consumers) (hallocated : s.allocated ≤ s'.allocated)
    (hpending : ∀ call ∈ s'.pending, call ∈ s.pending) : s'.Inv where
  objects := fun call hcall => (h.objects call (hpending call hcall)).trans_le hallocated
  object := fun id e' he' => by
    obtain ⟨e, -, -, -, -, -, hobject⟩ := hold id e' he'
    exact hobject
  buffer := fun id e' he' => by
    obtain ⟨e, he, hbuffer, -⟩ := hold id e' he'
    rw [hbuffer]
    exact (h.buffer id e he).trans_le hallocated
  feeder := fun c hc => (h.feeder c (hconsumers ▸ hc)).trans_le hallocated
  shared := fun id id' e₁ e₂ he₁ he₂ hsame => by
    obtain ⟨e, he, hbuffer, -⟩ := hold id e₁ he₁
    obtain ⟨e', he', hbuffer', -⟩ := hold id' e₂ he₂
    exact h.shared id id' e e' he he' (hbuffer.symm.trans (hsame.trans hbuffer'))
  feeds := fun id e' he' c hc hsame => by
    obtain ⟨e, he, hbuffer, hlimit, -⟩ := hold id e' he'
    rw [hlimit]
    exact h.feeds id e he c (hconsumers ▸ hc) (hsame.trans hbuffer)
  counted := fun id e' he' => by
    obtain ⟨e, -, hbuffer, -, hcount, -⟩ := hold id e' he'
    rw [hbuffer]
    exact hcount
  bounded := fun id e' he' => by
    obtain ⟨e, -, hbuffer, hlimit, -, hlength, -⟩ := hold id e' he'
    rw [hbuffer, hlimit]
    exact hlength

/-- A new entry with a new buffer. -/
theorem inv_of_new (h : s.Inv) {entry : SubscriptionEntry} (hentry : entry.ringBuffer = s.allocated)
    (hobject : entry.object = s.allocated)
    (hsub : s'.subscriptions = Function.update s.subscriptions id (some entry))
    (hbuffers : s'.buffers = Function.update s.buffers s.allocated [])
    (hallocated : s'.allocated = s.allocated + 1) (hpending : s'.pending = s.pending)
    (hconsumers : ∀ c ∈ s'.consumers, c ∈ s.consumers ∨ c.ringBuffer = s.allocated ∧
      c.subscriptionId = id ∧ c.maxInMemoryMessages = entry.maxInMemoryMessages) : s'.Inv := by
  have hlookup : ∀ id' e, s'.subscriptions id' = some e →
      id' = id ∧ e = entry ∨ id' ≠ id ∧ s.subscriptions id' = some e := by
    intro id' e he
    rw [hsub, Function.update_apply] at he
    split at he
    next heq => exact Or.inl ⟨heq, (Option.some.inj he).symm⟩
    next hne => exact Or.inr ⟨hne, he⟩
  have hold : ∀ b < s.allocated, s'.buffers b = s.buffers b := fun b hb => by
    rw [hbuffers, Function.update_of_ne hb.ne]
  have hnew : s'.buffers s.allocated = [] := by rw [hbuffers, Function.update_self]
  refine ⟨?_, ?_, ?_, ?_, ?_, ?_, ?_, ?_⟩
  · intro call hcall
    rw [hallocated]
    exact Nat.lt_succ_of_lt (h.objects call (hpending ▸ hcall))
  · intro id' e he
    rw [hallocated]
    rcases hlookup id' e he with ⟨-, rfl⟩ | ⟨-, he⟩
    · exact Nat.lt_succ_of_le hobject.le
    · exact Nat.lt_succ_of_lt (h.object id' e he)
  · intro id' e he
    rw [hallocated]
    rcases hlookup id' e he with ⟨-, rfl⟩ | ⟨-, he⟩
    · exact Nat.lt_succ_of_le hentry.le
    · exact Nat.lt_succ_of_lt (h.buffer id' e he)
  · intro c hc
    rw [hallocated]
    rcases hconsumers c hc with hc | ⟨hc, -⟩
    · exact Nat.lt_succ_of_lt (h.feeder c hc)
    · exact Nat.lt_succ_of_le hc.le
  · intro id₁ id₂ e₁ e₂ he₁ he₂ hsame
    rcases hlookup id₁ e₁ he₁ with ⟨h₁, rfl⟩ | ⟨-, he₁⟩ <;>
      rcases hlookup id₂ e₂ he₂ with ⟨h₂, rfl⟩ | ⟨-, he₂⟩
    · exact h₁.trans h₂.symm
    · exact absurd (hsame.symm.trans hentry) (h.buffer id₂ e₂ he₂).ne
    · exact absurd (hsame.trans hentry) (h.buffer id₁ e₁ he₁).ne
    · exact h.shared id₁ id₂ e₁ e₂ he₁ he₂ hsame
  · intro id' e he c hc hsame
    rcases hlookup id' e he with ⟨h₁, rfl⟩ | ⟨-, he⟩ <;> rcases hconsumers c hc with hc | ⟨hb, hid, hm⟩
    · exact absurd (hsame.trans hentry) (h.feeder c hc).ne
    · exact ⟨hid.trans h₁.symm, hm⟩
    · exact h.feeds id' e he c hc hsame
    · exact absurd (hsame.symm.trans hb) (h.buffer id' e he).ne
  · intro id' e he
    rcases hlookup id' e he with ⟨-, rfl⟩ | ⟨-, he⟩
    · rw [hentry, hnew]
      exact Nat.zero_le _
    · rw [hold _ (h.buffer id' e he)]
      exact h.counted id' e he
  · intro id' e he
    rcases hlookup id' e he with ⟨-, rfl⟩ | ⟨-, he⟩
    · rw [hentry, hnew]
      exact Nat.zero_le _
    · rw [hold _ (h.buffer id' e he)]
      exact h.bounded id' e he

theorem receive_subscriptions {c : SubscriptionConsumer} {message : M} (id : String) :
    (s.receive c message).subscriptions id =
      if id = c.subscriptionId then (s.subscriptions id).map fun e => { e with cursor := e.cursor + 1 }
      else s.subscriptions id := by
  by_cases h : id = c.subscriptionId
  · rw [if_pos h, h]
    exact set_same
  · rw [if_neg h]
    exact set_other h

theorem receive_inv (h : s.Inv) {c : SubscriptionConsumer} (hc : c ∈ s.consumers) (message : M) :
    (s.receive c message).Inv := by
  refine inv_of_entries h (fun id e' he' => ?_) rfl le_rfl fun call hcall => hcall
  rw [receive_subscriptions] at he'
  have hbuffer : ∀ e, s.subscriptions id = some e →
      ((s.receive c message).buffers e.ringBuffer).length ≤ e.maxInMemoryMessages ∧
        (id ≠ c.subscriptionId → ((s.receive c message).buffers e.ringBuffer).length ≤ e.cursor) ∧
        ((s.receive c message).buffers e.ringBuffer).length ≤ e.cursor + 1 := by
    intro e he
    have hlength := h.bounded id e he
    have hcount := h.counted id e he
    simp only [receive, Function.update_apply]
    split
    next hsame =>
      obtain ⟨hid, hlimit⟩ := h.feeds id e he c hc hsame.symm
      rw [← hsame]
      obtain ⟨hle, hgrow⟩ := length_pushed (hlimit ▸ hlength) message
      exact ⟨hlimit ▸ hle, fun hne => absurd hid.symm hne, by omega⟩
    next => exact ⟨hlength, fun _ => hcount, by omega⟩
  split at he'
  next heq =>
    obtain ⟨e, he, rfl⟩ := Option.map_eq_some_iff.mp he'
    exact ⟨e, he, rfl, rfl, (hbuffer e he).2.2, (hbuffer e he).1, h.object id e he⟩
  next hne =>
    exact ⟨e', he', rfl, rfl, (hbuffer e' he').2.1 hne, (hbuffer e' he').1, h.object id e' he'⟩

theorem register_inv (h : s.Inv) (cleanup : Bool) : (s.register id cleanup).Inv := by
  unfold register
  split
  next existing hexisting =>
    refine inv_of_entries h (fun id' e' he' => ?_) rfl (Nat.le_succ _) fun call hcall => hcall
    by_cases heq : id' = id
    · subst heq
      have he' : some { existing with object := s.allocated, cleanup := cleanup } = some e' :=
        set_same.symm.trans he'
      cases he'
      exact ⟨existing, hexisting, rfl, rfl, h.counted _ _ hexisting, h.bounded _ _ hexisting,
        Nat.lt_succ_self _⟩
    · have he' : s.subscriptions id' = some e' := (set_other heq).symm.trans he'
      exact ⟨e', he', rfl, rfl, h.counted _ _ he', h.bounded _ _ he', Nat.lt_succ_of_lt (h.object _ _ he')⟩
  next => exact inv_of_new h rfl rfl rfl rfl rfl rfl fun c hc => Or.inl hc

theorem next_inv (h : s.Inv) (hnext : storeNext l s = some s') : s'.Inv := by
  cases l with
  | subscribe id limit =>
      simp only [storeNext] at hnext
      split at hnext
      next =>
        cases hnext
        refine inv_of_new h rfl rfl rfl rfl rfl rfl fun c hc => ?_
        rcases List.mem_append.mp hc with hc | hc
        · exact Or.inl hc
        · rw [List.mem_singleton.mp hc]
          exact Or.inr ⟨rfl, rfl, rfl⟩
      next => cases hnext
  | receive i message =>
      obtain ⟨c, hc, rfl⟩ := Option.map_eq_some_iff.mp hnext
      exact receive_inv h (List.mem_of_getElem? hc) message
  | register id cleanup =>
      cases hnext
      exact register_inv h cleanup
  | poll id since =>
      cases hnext
      exact h
  | unsubscribe id =>
      cases hnext
      unfold unsubscribe
      split
      next => exact h
      next existing hexisting =>
        split
        next =>
          refine { h with objects := fun call hcall => ?_ }
          rcases List.mem_append.mp hcall with hcall | hcall
          · exact h.objects call hcall
          · rw [List.mem_singleton.mp hcall]
            exact h.object id existing hexisting
        next => exact h.drop (sub_of_set_none id) rfl rfl rfl fun call hcall => hcall
  | cleaned i =>
      obtain ⟨call, -, rfl⟩ := Option.map_eq_some_iff.mp hnext
      exact h.drop (sub_of_set_none _) rfl rfl rfl fun call hcall => List.mem_of_mem_eraseIdx hcall
  | fails i =>
      obtain ⟨c, -, rfl⟩ := Option.map_eq_some_iff.mp hnext
      exact h.drop (sub_of_set_none _) rfl rfl rfl fun call hcall => hcall
  | cleanupAll =>
      cases hnext
      exact h.drop (fun id e he => nomatch he) rfl rfl rfl fun call hcall => hcall

/-! ## What is polled -/

/-- The last `n` of a list. -/
def lastOf (n : ℕ) (l : List M) : List M := l.drop (l.length - n)

theorem lastOf_of_le {n : ℕ} {l : List M} (h : l.length ≤ n) : lastOf n l = l := by
  rw [lastOf, Nat.sub_eq_zero_of_le h, List.drop_zero]

theorem lastOf_append {n : ℕ} {l l' : List M} (h : n ≤ l'.length) : lastOf n (l ++ l') = lastOf n l' := by
  have hgone : l.length ≤ (l ++ l').length - n := by
    rw [List.length_append]
    omega
  rw [lastOf, List.drop_append, List.drop_eq_nil_of_le hgone, List.nil_append, lastOf,
    List.length_append]
  congr 1
  omega

theorem lastOf_min {n : ℕ} {l : List M} : lastOf (min n l.length) l = lastOf n l := by
  unfold lastOf
  congr 1
  omega

theorem length_lastOf {n : ℕ} {l : List M} : (lastOf n l).length = min n l.length := by
  rw [lastOf, List.length_drop]
  omega

/-- The limit is kept by each message. -/
theorem pushed_eq {limit : ℕ} {buffer : List M} {message : M} (h : buffer.length ≤ limit) :
    pushed limit buffer message = lastOf limit (buffer ++ [message]) := by
  unfold pushed
  split
  next hover =>
    have hone : (buffer ++ [message]).length - limit = 1 := by
      rw [List.length_append, List.length_singleton] at hover ⊢
      omega
    rw [lastOf, hone, List.drop_one]
  next hroom => rw [lastOf_of_le (Nat.le_of_not_lt hroom)]

theorem lastOf_lastOf_append {n : ℕ} {l l' : List M} : lastOf n (lastOf n l ++ l') = lastOf n (l ++ l') := by
  unfold lastOf
  rw [List.drop_append, List.drop_append, List.drop_drop]
  congr 1 <;> simp only [List.length_append, List.length_drop] <;> congr 1 <;> omega

/-- The messages of the consumers of a subscription. -/
def received (s : SubscriptionStore M) (id : String) (ls : List (StoreStep M)) : List M :=
  ls.filterMap fun l =>
    match l with
    | .receive i message =>
        if s.consumers[i]?.any (·.subscriptionId == id) then some message else none
    | _ => none

/-- The entry goes. -/
def removesEntry (id : String) : StoreStep M → SubscriptionStore M → Bool
  | .unsubscribe id', s => id' == id && (s.subscriptions id).any (!·.cleanup)
  | .cleaned i, s => s.pending[i]?.any (·.1 == id)
  | .fails i, s => s.consumers[i]?.any (·.subscriptionId == id)
  | .cleanupAll, _ => true
  | _, _ => false

/-- A message is counted in an entry that has another buffer. -/
def feedsAstray (id : String) : StoreStep M → SubscriptionStore M → Bool
  | .receive i _, s => s.consumers[i]?.any fun c =>
      c.subscriptionId == id && (s.subscriptions id).any (·.ringBuffer != c.ringBuffer)
  | _, _ => false

/-- The entry stays, with the buffer that its consumers fill. -/
def staysFed (id : String) (l : StoreStep M) (s : SubscriptionStore M) : Prop :=
  removesEntry id l s = false ∧ feedsAstray id l s = false

instance (id : String) (l : StoreStep M) (s : SubscriptionStore M) : Decidable (staysFed id l s) :=
  inferInstanceAs (Decidable (_ ∧ _))

/-- One step: the messages of the subscription are counted, and the last of them kept. -/
structure Feeds (s s' : SubscriptionStore M) (id : String) (e e' : SubscriptionEntry)
    (messages : List M) : Prop where
  here : s'.subscriptions id = some e'
  buffer : e'.ringBuffer = e.ringBuffer
  limit : e'.maxInMemoryMessages = e.maxInMemoryMessages
  cursor : e'.cursor = e.cursor + messages.length
  kept : s'.buffers e.ringBuffer = lastOf e.maxInMemoryMessages (s.buffers e.ringBuffer ++ messages)

theorem Feeds.nothing (h : s.Inv) (he : s.subscriptions id = some e) {e' : SubscriptionEntry}
    (here : s'.subscriptions id = some e') (hbuffer : e'.ringBuffer = e.ringBuffer)
    (hlimit : e'.maxInMemoryMessages = e.maxInMemoryMessages) (hcursor : e'.cursor = e.cursor)
    (hkept : s'.buffers e.ringBuffer = s.buffers e.ringBuffer) : Feeds s s' id e e' [] where
  here := here
  buffer := hbuffer
  limit := hlimit
  cursor := hcursor
  kept := by rw [hkept, List.append_nil, lastOf_of_le (h.bounded id e he)]

theorem next_consumers (hnext : storeNext l s = some s') : ∃ new, s'.consumers = s.consumers ++ new := by
  have hnone : ∃ new, s.consumers = s.consumers ++ new := ⟨[], (List.append_nil _).symm⟩
  cases l with
  | subscribe id limit =>
      simp only [storeNext] at hnext
      split at hnext
      next =>
        cases hnext
        exact ⟨_, rfl⟩
      next => cases hnext
  | receive i message =>
      obtain ⟨c, -, rfl⟩ := Option.map_eq_some_iff.mp hnext
      exact hnone
  | register id cleanup =>
      cases hnext
      unfold register
      split <;> exact hnone
  | poll id since =>
      cases hnext
      exact hnone
  | unsubscribe id =>
      cases hnext
      unfold unsubscribe
      split
      next => exact hnone
      next => split <;> exact hnone
  | cleaned i =>
      obtain ⟨call, -, rfl⟩ := Option.map_eq_some_iff.mp hnext
      exact hnone
  | fails i =>
      obtain ⟨c, -, rfl⟩ := Option.map_eq_some_iff.mp hnext
      exact hnone
  | cleanupAll =>
      cases hnext
      exact hnone

theorem next_feeds (h : s.Inv) (he : s.subscriptions id = some e) (hok : staysFed id l s)
    (hnext : storeNext l s = some s') : ∃ e', Feeds s s' id e e' (received s id [l]) := by
  have hother : ∀ {id' entry}, id' ≠ id → (s.set id' entry).subscriptions id = some e :=
    fun hne => (set_other hne.symm).trans he
  have hbuffer : ∀ {f : ℕ → List M}, f = Function.update s.buffers s.allocated [] →
      f e.ringBuffer = s.buffers e.ringBuffer := by
    rintro f rfl
    exact Function.update_of_ne (h.buffer id e he).ne _ _
  obtain ⟨hstays, hfed⟩ := hok
  cases l with
  | subscribe id' limit =>
      simp only [storeNext] at hnext
      split at hnext
      next hfresh =>
        cases hnext
        have hne : id' ≠ id := by
          rintro rfl
          simp [isFresh, he] at hfresh
        exact ⟨e, Feeds.nothing h he (hother hne) rfl rfl rfl (hbuffer rfl)⟩
      next => cases hnext
  | receive i message =>
      obtain ⟨c, hc, rfl⟩ := Option.map_eq_some_iff.mp hnext
      have hmem := List.mem_of_getElem? hc
      by_cases hid : c.subscriptionId = id
      · have hsame : e.ringBuffer = c.ringBuffer := by
          simpa [feedsAstray, hc, hid, he] using hfed
        have hlimit := (h.feeds id e he c hmem hsame.symm).2
        have hreceived : received s id [.receive i message] = [message] := by
          simp [received, hc, hid]
        rw [hreceived]
        refine ⟨{ e with cursor := e.cursor + 1 }, ?_, rfl, rfl, rfl, ?_⟩
        · rw [receive_subscriptions, if_pos hid.symm, he]
          rfl
        · rw [← pushed_eq (h.bounded id e he), hsame, ← hlimit]
          exact Function.update_self _ _ _
      · have hreceived : received s id [.receive i message] = [] := by
          simp [received, hc, hid]
        have hne : e.ringBuffer ≠ c.ringBuffer := fun hsame =>
          hid (h.feeds id e he c hmem hsame.symm).1
        rw [hreceived]
        refine ⟨e, Feeds.nothing h he ?_ rfl rfl rfl (Function.update_of_ne hne _ _)⟩
        rw [receive_subscriptions, if_neg (Ne.symm hid), he]
  | register id' cleanup =>
      cases hnext
      unfold register
      by_cases heq : id' = id
      · subst heq
        rw [he]
        exact ⟨{ e with object := s.allocated, cleanup := cleanup },
          Feeds.nothing h he set_same rfl rfl rfl rfl⟩
      · split
        next => exact ⟨e, Feeds.nothing h he (hother heq) rfl rfl rfl rfl⟩
        next => exact ⟨e, Feeds.nothing h he (hother heq) rfl rfl rfl (hbuffer rfl)⟩
  | poll id' since =>
      cases hnext
      exact ⟨e, Feeds.nothing h he he rfl rfl rfl rfl⟩
  | unsubscribe id' =>
      cases hnext
      unfold unsubscribe
      split
      next => exact ⟨e, Feeds.nothing h he he rfl rfl rfl rfl⟩
      next existing hexisting =>
        split
        next => exact ⟨e, Feeds.nothing h he he rfl rfl rfl rfl⟩
        next hcleanup =>
          have hne : id' ≠ id := by
            rintro rfl
            rw [he, Option.some.injEq] at hexisting
            subst hexisting
            simp [removesEntry, he, hcleanup] at hstays
          exact ⟨e, Feeds.nothing h he (hother hne) rfl rfl rfl rfl⟩
  | cleaned i =>
      obtain ⟨call, hcall, rfl⟩ := Option.map_eq_some_iff.mp hnext
      have hne : call.1 ≠ id := by simpa [removesEntry, hcall] using hstays
      exact ⟨e, Feeds.nothing h he (hother hne) rfl rfl rfl rfl⟩
  | fails i =>
      obtain ⟨c, hc, rfl⟩ := Option.map_eq_some_iff.mp hnext
      have hne : c.subscriptionId ≠ id := by simpa [removesEntry, hc] using hstays
      exact ⟨e, Feeds.nothing h he (hother hne) rfl rfl rfl rfl⟩
  | cleanupAll => cases hstays

theorem received_cons {ls : List (StoreStep M)} :
    received s id (l :: ls) = received s id [l] ++ received s id ls := by
  unfold received
  exact List.filterMap_append (l := [l])

theorem received_of_next {t : SubscriptionStore M} (hnext : storeNext l s = some s')
    (ht : ∃ new, t.consumers = s.consumers ++ new) : received t id [l] = received s id [l] := by
  obtain ⟨new, hnew⟩ := ht
  cases l with
  | receive i message =>
      obtain ⟨c, hc, -⟩ := Option.map_eq_some_iff.mp hnext
      have hget : t.consumers[i]? = s.consumers[i]? := by
        rw [hnew, List.getElem?_append_left (List.getElem?_eq_some_iff.mp hc).1]
      simp only [received, List.filterMap_cons, List.filterMap_nil, hget]
  | _ => rfl

theorem exec_consumers {ls : List (StoreStep M)} (hrun : exec storeNext s ls = some s') :
    ∃ new, s'.consumers = s.consumers ++ new := by
  refine exec_invariant' (I := fun t => ∃ new, t.consumers = s.consumers ++ new) ?_
    ⟨[], (List.append_nil _).symm⟩ hrun
  rintro l t t' ⟨new, hnew⟩ hnext
  obtain ⟨new', hnew'⟩ := next_consumers hnext
  exact ⟨new ++ new', by rw [hnew', hnew, List.append_assoc]⟩

/-- A run: all messages of the subscription are counted, and the last of them kept. -/
theorem exec_feeds {ls : List (StoreStep M)} (h : s.Inv) (he : s.subscriptions id = some e)
    (hok : AllSteps storeNext (staysFed id) s ls) (hrun : exec storeNext s ls = some s') :
    ∃ e', Feeds s s' id e e' (received s' id ls) := by
  induction ls generalizing s e with
  | nil =>
      cases hrun
      exact ⟨e, Feeds.nothing h he he rfl rfl rfl rfl⟩
  | cons l ls ih =>
      obtain ⟨t, hnext, hrest⟩ := exec_cons.mp hrun
      obtain ⟨e₁, hfirst⟩ := next_feeds h he hok.1 hnext
      obtain ⟨e₂, hlast⟩ := ih (next_inv h hnext) hfirst.here (hok.2 t hnext) hrest
      rw [received_cons, received_of_next hnext (exec_consumers hrun)]
      refine ⟨e₂, hlast.here, hlast.buffer.trans hfirst.buffer, hlast.limit.trans hfirst.limit, ?_, ?_⟩
      · rw [hlast.cursor, hfirst.cursor, List.length_append, Nat.add_assoc]
      · rw [← hfirst.buffer, hlast.kept, hfirst.limit, hfirst.buffer, hfirst.kept, lastOf_lastOf_append,
          List.append_assoc]

theorem exec_inv {ls : List (StoreStep M)} (hrun : exec storeNext empty ls = some s) : s.Inv :=
  exec_invariant' (fun _ _ _ h hnext => next_inv h hnext) empty_inv hrun

/-! ## Which registration is removed -/

theorem next_ours (h : s.Inv) (ho : s.Ours) (hnext : storeNext l s = some s') :
    (registersQuietly l s → s'.Ours) ∧ (s'.Ours → registersQuietly l s) := by
  have hdrop : ∀ id, (s.set id none).Ours := fun id call hcall entry hentry =>
    ho call hcall entry (sub_of_set_none id _ _ hentry)
  have hset : ∀ {id entry}, (∀ call ∈ s.pending, call.1 = id → entry.object = call.2) →
      ∀ call ∈ s.pending, ∀ e, Function.update s.subscriptions id (some entry) call.1 = some e →
        e.object = call.2 := by
    intro id entry hnew call hcall e he
    rw [Function.update_apply] at he
    split at he
    next heq =>
      cases he
      exact hnew call hcall heq
    next => exact ho call hcall e he
  cases l with
  | subscribe id limit =>
      simp only [storeNext] at hnext
      split at hnext
      next hfresh =>
        cases hnext
        refine ⟨fun _ => hset fun call hcall heq => ?_, fun _ => trivial⟩
        simp only [isFresh, Bool.and_eq_true, List.all_eq_true, bne_iff_ne] at hfresh
        exact absurd heq (hfresh.2 call hcall)
      next => cases hnext
  | receive i message =>
      obtain ⟨c, -, rfl⟩ := Option.map_eq_some_iff.mp hnext
      refine ⟨fun _ call hcall e he => ?_, fun _ => trivial⟩
      rw [receive_subscriptions] at he
      split at he
      next =>
        obtain ⟨e₀, he₀, rfl⟩ := Option.map_eq_some_iff.mp he
        exact ho call hcall e₀ he₀
      next => exact ho call hcall e he
  | register id cleanup =>
      cases hnext
      have hobject : ∃ entry, (s.register id cleanup).subscriptions =
          Function.update s.subscriptions id (some entry) ∧ entry.object = s.allocated ∧
            (s.register id cleanup).pending = s.pending := by
        unfold register
        split
        next existing _ => exact ⟨{ existing with object := s.allocated, cleanup := cleanup }, rfl, rfl, rfl⟩
        next => exact ⟨⟨s.allocated, cleanup, s.allocated, 100, 0⟩, rfl, rfl, rfl⟩
      obtain ⟨entry, hsub, hentry, hpending⟩ := hobject
      constructor
      · intro hquiet call hcall e he
        rw [hpending] at hcall
        rw [hsub] at he
        exact hset (fun call hcall heq => absurd heq (hquiet call hcall)) call hcall e he
      · intro hours call hcall heq
        have hnew := hours call (hpending ▸ hcall) entry (by rw [hsub, heq, Function.update_self])
        exact absurd (hnew.symm.trans hentry) (h.objects call hcall).ne
  | poll id since =>
      cases hnext
      exact ⟨fun _ => ho, fun _ => trivial⟩
  | unsubscribe id =>
      cases hnext
      refine ⟨fun _ => ?_, fun _ => trivial⟩
      unfold unsubscribe
      split
      next => exact ho
      next existing hexisting =>
        split
        next =>
          intro call hcall e he
          rcases List.mem_append.mp hcall with hcall | hcall
          · exact ho call hcall e he
          · rw [List.mem_singleton.mp hcall] at he ⊢
            have he : s.subscriptions id = some e := he
            rw [hexisting, Option.some.injEq] at he
            exact congrArg SubscriptionEntry.object he.symm
        next => exact hdrop id
  | cleaned i =>
      obtain ⟨call, -, rfl⟩ := Option.map_eq_some_iff.mp hnext
      exact ⟨fun _ call' hcall' => hdrop _ call' (List.mem_of_mem_eraseIdx hcall'), fun _ => trivial⟩
  | fails i =>
      obtain ⟨c, -, rfl⟩ := Option.map_eq_some_iff.mp hnext
      exact ⟨fun _ => hdrop _, fun _ => trivial⟩
  | cleanupAll =>
      cases hnext
      exact ⟨fun _ call _ entry hentry => (nomatch hentry), fun _ => trivial⟩

/-- The poll of a buffer that has kept the last of what was received since the cursor. -/
theorem polled_since (h : s.Inv) (he : s.subscriptions id = some e) (hid : id ≠ "")
    {e' : SubscriptionEntry} {messages : List M} (hfeeds : Feeds s s' id e e' messages) :
    ∃ reply, s'.getSubscriptionMessages id (some e.cursor) = .ok reply ∧
      reply.messages = lastOf reply.bufferSize messages ∧ reply.cursor = e.cursor + messages.length ∧
      (reply.cursorGap = decide (reply.bufferSize < messages.length) ↔
        e.cursor ≠ 0 ∨ messages.length ≤ e.maxInMemoryMessages) := by
  have hcount := h.counted id e he
  have hbound := h.bounded id e he
  have hkept := hfeeds.kept
  have hlength : (s'.buffers e.ringBuffer).length =
      min e.maxInMemoryMessages ((s.buffers e.ringBuffer).length + messages.length) := by
    rw [hkept, length_lastOf, List.length_append]
  have hlast : (s'.buffers e.ringBuffer).length ≤ messages.length →
      s'.buffers e.ringBuffer = lastOf (s'.buffers e.ringBuffer).length messages := by
    intro hle
    have hmin : lastOf (s'.buffers e.ringBuffer).length (s.buffers e.ringBuffer ++ messages) =
        s'.buffers e.ringBuffer := by
      rw [hlength, ← List.length_append, lastOf_min, hkept]
    rw [← lastOf_append hle, hmin]
  simp only [getSubscriptionMessages, if_neg hid, hfeeds.here, Option.getD_some, hfeeds.buffer]
  refine ⟨_, rfl, ?_, hfeeds.cursor, ?_⟩
  · show _ = lastOf (s'.buffers e.ringBuffer).length messages
    simp only [hfeeds.cursor]
    by_cases hle : (s'.buffers e.ringBuffer).length ≤ messages.length
    · rw [if_pos (by omega)]
      exact hlast hle
    · have hpos : 0 < (e.cursor : ℤ) := by omega
      rw [if_neg (by omega), lastOf_of_le (by omega)]
      -- nothing that was received is gone, and older messages stand before it
      have hskip : ((e.cursor : ℤ) - (((e.cursor + messages.length : ℕ) : ℤ) -
          (s'.buffers e.ringBuffer).length)).toNat =
          (s'.buffers e.ringBuffer).length - messages.length := by omega
      rw [hskip, hkept, lastOf, List.drop_drop]
      have hsum : ((s.buffers e.ringBuffer ++ messages).length - e.maxInMemoryMessages +
          ((List.drop ((s.buffers e.ringBuffer ++ messages).length - e.maxInMemoryMessages)
            (s.buffers e.ringBuffer ++ messages)).length - messages.length)) =
          (s.buffers e.ringBuffer).length := by
        simp only [List.length_append, List.length_drop]
        omega
      rw [hsum, List.drop_left]
  · show decide _ = decide ((s'.buffers e.ringBuffer).length < messages.length) ↔ _
    rw [decide_eq_decide, hfeeds.cursor]
    omega

end SubscriptionStore

/-! ## Polling -/

open SubscriptionStore in
/-- **A client that polls with its last cursor.**  An unsubscribe removes the registration that
it was called for in every state of a run, exactly if none comes under an identifier while an
unsubscribe of it is pending.  As long as the entry stays and its consumers fill its own buffer,
a poll gives what is still buffered of the messages since the last one, in order; and it reports
a gap exactly if one was evicted, unless the last cursor was zero. -/
theorem subscription_polled {M : Type} (ls ls' : List (StoreStep M)) (s s' : SubscriptionStore M)
    (hrun : exec storeNext SubscriptionStore.empty ls = some s) (hrun' : exec storeNext s ls' = some s') :
    ((∀ pre u, pre <+: ls → exec storeNext SubscriptionStore.empty pre = some u → u.Ours) ↔
        AllSteps storeNext registersQuietly SubscriptionStore.empty ls) ∧
      ∀ id since first, s.getSubscriptionMessages id since = .ok first →
        AllSteps storeNext (staysFed id) s ls' →
        ∃ reply, s'.getSubscriptionMessages id (some first.cursor) = .ok reply ∧
          reply.messages = lastOf reply.bufferSize (received s' id ls') ∧
          (reply.cursorGap = decide (reply.bufferSize < (received s' id ls').length) ↔
            first.cursor ≠ 0 ∨ (received s' id ls').length ≤ first.maxInMemoryMessages) := by
  constructor
  · have hempty : (SubscriptionStore.empty : SubscriptionStore M).Inv ∧
        (SubscriptionStore.empty : SubscriptionStore M).Ours :=
      ⟨empty_inv, fun call hcall => absurd hcall List.not_mem_nil⟩
    refine exec_forall_iff (I := fun s => s.Inv ∧ s.Ours) (P := Ours) (fun _ h => h.2) (fun l s s' h hnext => ?_)
      hempty hrun
    obtain ⟨hours, hquiet⟩ := next_ours h.1 h.2 hnext
    exact ⟨fun hok => ⟨next_inv h.1 hnext, hours hok⟩, hquiet⟩
  · intro id since first hfirst hok
    unfold getSubscriptionMessages at hfirst
    split at hfirst
    next => cases hfirst
    next hid =>
      split at hfirst
      next => cases hfirst
      next e he =>
        cases hfirst
        obtain ⟨e', hfeeds⟩ := exec_feeds (exec_inv hrun) he hok hrun'
        obtain ⟨reply, hreply, hmessages, -, hgap⟩ := polled_since (exec_inv hrun) he hid hfeeds
        exact ⟨reply, hreply, hmessages, hgap⟩

/-- Two messages, a poll, and two more, with room for two. -/
def polledTwice : List (StoreStep ℕ) :=
  [.subscribe "u" (some 2), .receive 0 1, .receive 0 2]

theorem subscription_polled_twice :
    ∃ s s', exec storeNext SubscriptionStore.empty polledTwice = some s ∧
      exec storeNext s [.receive 0 3] = some s' ∧
      ∃ reply, s'.getSubscriptionMessages "u" (some 2) = .ok reply ∧ reply.messages = [3] := by
  obtain ⟨s, hs⟩ : ∃ s, exec storeNext SubscriptionStore.empty polledTwice = some s := ⟨_, rfl⟩
  obtain ⟨s', hs'⟩ : ∃ s', exec storeNext s [.receive 0 3] = some s' := by
    cases hs
    exact ⟨_, rfl⟩
  have hpolled := (subscription_polled _ _ s s' hs hs').2 "u" none ⟨[1, 2], 2, 2, 2, false⟩
    (by cases hs; rfl) (by cases hs; decide)
  obtain ⟨reply, hreply, hmessages, -⟩ := hpolled
  refine ⟨s, s', hs, hs', reply, hreply, hmessages.trans ?_⟩
  cases hs
  cases hs'
  cases hreply
  decide

/-- A message that nobody was told of is gone, and a registration made while an unsubscribe was
pending is removed by it. -/
theorem subscription_lost :
    (∃ s, exec storeNext SubscriptionStore.empty
        [.subscribe "u" (some 1), .poll "u" none, .receive 0 1, .receive 0 2] = some s ∧
        s.getSubscriptionMessages "u" (some 0) = .ok (⟨[2], 2, 1, 1, false⟩ : SubscriptionStore.SubscriptionMessages ℕ)) ∧
      ∃ s : SubscriptionStore ℕ, exec storeNext SubscriptionStore.empty
        [.subscribe "u" (some 1), .unsubscribe "u", .register "u" true, .cleaned 0] = some s ∧
        s.subscriptions "u" = none :=
  ⟨⟨_, rfl, rfl⟩, ⟨_, rfl, rfl⟩⟩

end RedFireForge.Kafka
