/-
# `RedFireForge.Correlation.WebhookGuard` — what a webhook filter guards

An entry with a filter is to be resumed from outside only by a message that passes the
filter, and a message that does not is to change nothing.  A callback is validated before
the entry is removed; a Kafka message is not validated at all.
-/
import RedFireForge.Correlation.Handler

namespace RedFireForge.Correlation

open RedFireForge.Lib

/-- The entry has no filter, or the message has a payload that its filter accepts. -/
def passes (c : HandlerConfig) (payload : Option Json) (entry : ServerPausedEntry) : Bool :=
  (truthy entry.webhookFilter).all fun filter =>
    payload.any fun j => (c.evaluateWebhookFilter filter j).isNone

/-- The entry was paused, is no longer, and a resume of it was accepted. -/
def Resumes (s s' : Server) (entry : ServerPausedEntry) : Prop :=
  s.store.lookup entry.correlationId = some entry ∧
    s'.store.lookup entry.correlationId = none ∧
    ∃ data, s'.resumes = s.resumes ++ [(entry.correlationId, data)]

structure Unchanged (s s' : Server) : Prop where
  store : s'.store = s.store
  queue : s'.queuedResumes = s.queuedResumes
  waiters : s'.resumeWaiters = s.resumeWaiters
  records : s'.processedRequests = s.processedRequests

/-- A callback resumes only what it passes, and changes nothing when the filter of the entry
it is for rejects it. -/
def CallbackGuarded (c : HandlerConfig) (req : CallbackRequest) (s : Server) : Prop :=
  (∀ entry, Resumes s (callback c req s).1 entry → passes c (some req.payload) entry = true) ∧
    ∀ entry reason, (callback c req s).2 = .rejected entry reason →
      Unchanged s (callback c req s).1

def KafkaGuarded (c : HandlerConfig) (m : KafkaResumeMessage) (s : Server) : Prop :=
  (∀ entry, Resumes s (dispatchKafkaResumeMessage c m s).1 entry →
    passes c (m.payload c) entry = true) ∧
    ∀ entry, s.kafkaMatch c m = some entry → passes c (m.payload c) entry = false →
      Unchanged s (dispatchKafkaResumeMessage c m s).1

def Guarded (c : HandlerConfig) : ServerEvent → Server → Prop
  | .callback req, s => CallbackGuarded c req s
  | .kafka m, s => KafkaGuarded c m s
  | _, _ => True

/-- When the filter of its entry rejects a callback, it has met no timed-out entry of its
path on the way, and no stale record under its key. -/
def callbackMet (c : HandlerConfig) (req : CallbackRequest) (s : Server) : Bool :=
  (gate c req).isSome || (s.callbackMatch req).all fun entry =>
    (tokenError c req entry.correlationId).isSome ||
    (preValidateWebhook c req.payload entry.webhookFilter).isNone ||
    ((swept (extractCorrelationId · req) req.webhookPath s.now s.store.values).isEmpty &&
      (s.processedRequests.lookup
        (extractIdempotencyKey entry.correlationId req.webhookPath req)).all fun r =>
          !r.stale c s.now)

/-- A Kafka message passes the filter of the entry it matches. -/
def kafkaMet (c : HandlerConfig) (m : KafkaResumeMessage) (s : Server) : Bool :=
  (s.kafkaMatch c m).all (passes c (m.payload c))

def filterMet (c : HandlerConfig) : ServerEvent → Server → Bool
  | .callback req, s => callbackMet c req s
  | .kafka m, s => kafkaMet c m s
  | _, _ => true

section Steps

variable {c : HandlerConfig} {req : CallbackRequest} {m : KafkaResumeMessage} {s : Server}
  {entry : ServerPausedEntry}

theorem preValidateWebhook_none_iff : preValidateWebhook c req.payload entry.webhookFilter = none ↔
    passes c (some req.payload) entry = true := by
  unfold preValidateWebhook passes
  cases truthy entry.webhookFilter with
  | none => simp
  | some filter => simp

/-- A message that resumes nothing resumes no entry. -/
theorem not_resumes {s' : Server} (entry : ServerPausedEntry) (h : s'.resumes = s.resumes) : ¬ Resumes s s' entry := by
  rintro ⟨-, -, data, happend⟩
  rw [h] at happend
  have hlen := congrArg List.length happend
  simp at hlen

/-- The entry that is resumed is the one that was matched. -/
theorem resumes_iff {s' : Server} {found : ServerPausedEntry} {data : QueuedResume}
    (hheld : s.store.lookup found.correlationId = some found)
    (hgone : s'.store.lookup found.correlationId = none)
    (happend : s'.resumes = s.resumes ++ [(found.correlationId, data)]) :
    Resumes s s' entry ↔ entry = found := by
  constructor
  · rintro ⟨hentry, -, data', happend'⟩
    rw [happend] at happend'
    have hid : found.correlationId = entry.correlationId := by
      have := List.append_cancel_left happend'
      simp only [List.cons.injEq, Prod.mk.injEq] at this
      exact this.1.1
    rw [← hid, hheld] at hentry
    exact (Option.some.inj hentry).symm
  · rintro rfl
    exact ⟨hheld, hgone, data, happend⟩

/-- The loop leaves the store as it is exactly if it meets no entry that has timed out. -/
theorem matchEntry_store_iff {extract : ServerPausedEntry → Option String} {path : String}
    (hK : Keyed s.store) :
    (matchEntry extract path s.now s.store.values s.store).1 = s.store ↔
      swept extract path s.now s.store.values = [] := by
  rw [matchEntry_eq]
  constructor
  · intro hsame
    refine List.eq_nil_iff_forall_not_mem.mpr (fun e he => ?_)
    have hheld := hK.of_mem (timedOut_of_mem_swept he).1
    have hlost : s.store.lookup e.correlationId = none := by
      conv_lhs => rw [← hsame]
      rw [InsertionMap.lookup_foldl_erase, if_pos (List.mem_map_of_mem he)]
    rw [hheld] at hlost
    cases hlost
  · intro hnone
    rw [hnone]
    rfl

theorem check_records_iff {key : String} (hkey : key ≠ "") :
    (s.check c key).processedRequests = s.processedRequests ↔
      ((s.processedRequests.lookup key).all fun r => !r.stale c s.now) = true := by
  unfold Server.check checkIdempotency
  cases hr : s.processedRequests.lookup key with
  | none => simp
  | some r =>
      cases hstale : r.stale c s.now with
      | true =>
          simp only [if_neg hkey, hstale, if_true, Option.all_some, Bool.not_true,
            Bool.false_eq_true, iff_false]
          intro hsame
          have hlost : s.processedRequests.lookup key = none := by
            conv_lhs => rw [← hsame]
            exact AList.lookup_erase key _
          rw [hr] at hlost
          cases hlost
      | false => simp [hkey, hstale]

theorem Server.callbackMatch_ne (h : s.callbackMatch req = some entry) : entry.correlationId ≠ "" := by
  have hhit := List.find?_some h
  simp only [ServerPausedEntry.hit, ServerPausedEntry.isNamed, Bool.and_eq_true, beq_iff_eq] at hhit
  have hnamed := (Option.filter_eq_some_iff.mp hhit.2).2
  simpa using hnamed

theorem extractIdempotencyKey_ne {correlationId webhookPath : String} (h : correlationId ≠ "") :
    extractIdempotencyKey correlationId webhookPath req ≠ "" := by
  intro hempty
  have hlen := congrArg String.length hempty
  unfold extractIdempotencyKey at hlen
  split at hlen
  · simp at hlen
  · simp at hlen
  · rw [if_pos h] at hlen
    simp at hlen

theorem resumes_callback {found : ServerPausedEntry} {key : String}
    (hheld : s.store.lookup found.correlationId = some found) :
    Resumes s (resumeByCallback c req key found ((s.callbackSweep req).check c key)).1 entry ↔
      entry = found :=
  resumes_iff hheld (AList.lookup_erase _ _) Desk.accept_resumes

theorem resumes_kafka {found : ServerPausedEntry} {key : String}
    (hheld : s.store.lookup found.correlationId = some found) :
    Resumes s (resumeByKafka c m key found ((s.kafkaSweep c m).check c key)).1 entry ↔
      entry = found :=
  resumes_iff hheld (AList.lookup_erase _ _) Desk.accept_resumes

theorem callbackMet_rejected {reason : String} (hgate : gate c req = none)
    (hmatch : s.callbackMatch req = some entry)
    (htoken : tokenError c req entry.correlationId = none)
    (hpre : preValidateWebhook c req.payload entry.webhookFilter = some reason) :
    callbackMet c req s = true ↔
      swept (extractCorrelationId · req) req.webhookPath s.now s.store.values = [] ∧
        ((s.processedRequests.lookup
          (extractIdempotencyKey entry.correlationId req.webhookPath req)).all fun r =>
            !r.stale c s.now) = true := by
  simp only [callbackMet, hgate, hmatch, htoken, hpre, Option.all_some, Option.isSome_none,
    Option.isNone_some, Bool.false_or, Bool.and_eq_true, List.isEmpty_iff]

theorem guarded_callback (hK : Keyed s.store) :
    CallbackGuarded c req s ↔ callbackMet c req s = true := by
  have hcase := callbackCase c req hK
  unfold CallbackGuarded
  generalize callback c req s = result at hcase ⊢
  cases hcase with
  | blocked hgate =>
      have hmet : callbackMet c req s = true := by simp [callbackMet, hgate]
      exact iff_of_true ⟨fun e h => absurd h (not_resumes e rfl), fun _ _ h => by cases h⟩ hmet
  | unmatched hgate hmatch =>
      have hmet : callbackMet c req s = true := by simp [callbackMet, hmatch]
      have hnone := fun e => not_resumes e (s.callbackSweep_resumes req)
      exact iff_of_true ⟨fun e h => absurd h (hnone e), fun _ _ h => by cases h⟩ hmet
  | badToken hgate hmatch htoken =>
      have hmet : callbackMet c req s = true := by simp [callbackMet, hmatch, htoken]
      have hnone := fun e => not_resumes e (s.callbackSweep_resumes req)
      exact iff_of_true ⟨fun e h => absurd h (hnone e), fun _ _ h => by cases h⟩ hmet
  | rejected hgate hmatch htoken hpre =>
      rw [callbackMet_rejected hgate hmatch htoken hpre, ← matchEntry_store_iff hK,
        ← check_records_iff (extractIdempotencyKey_ne (Server.callbackMatch_ne hmatch))]
      constructor
      · rintro ⟨-, hrejected⟩
        have h := hrejected _ _ rfl
        exact ⟨h.store, h.records⟩
      · rintro ⟨hstore, hrecords⟩
        have hnone := fun key =>
          (Server.check_resumes (s.callbackSweep req) c key).trans (s.callbackSweep_resumes req)
        exact ⟨fun e h => absurd h (not_resumes e (hnone _)), fun e r _ => ⟨hstore, rfl, rfl, hrecords⟩⟩
  | resumed hgate hmatch htoken hpre =>
      have hmet : callbackMet c req s = true := by simp [callbackMet, hmatch, hpre]
      have hheld := hK.of_mem (List.mem_of_find?_eq_some hmatch)
      refine iff_of_true ⟨fun e h => ?_, fun _ _ h => by cases h⟩ hmet
      obtain rfl := (resumes_callback hheld).mp h
      exact preValidateWebhook_none_iff.mp hpre

theorem guarded_kafka (hK : Keyed s.store) : KafkaGuarded c m s ↔ kafkaMet c m s = true := by
  have hcase := kafkaCase (c := c) (m := m) hK
  unfold KafkaGuarded
  generalize dispatchKafkaResumeMessage c m s = result at hcase ⊢
  cases hcase with
  | unmatched hmatch =>
      have hmet : kafkaMet c m s = true := by simp [kafkaMet, hmatch]
      have hnone := fun key =>
        (Server.check_resumes (s.kafkaSweep c m) c key).trans (s.kafkaSweep_resumes c m)
      exact iff_of_true ⟨fun e h => absurd h (not_resumes e (hnone _)),
        fun e h => by rw [hmatch] at h; cases h⟩ hmet
  | resumed hmatch =>
      have hheld := hK.of_mem (List.mem_of_find?_eq_some hmatch)
      rw [kafkaMet, hmatch, Option.all_some]
      constructor
      · rintro ⟨hpass, -⟩
        exact hpass _ ((resumes_kafka hheld).mpr rfl)
      · intro hpass
        refine ⟨fun e h => (resumes_kafka hheld).mp h ▸ hpass, fun e he hfail => ?_⟩
        obtain rfl := Option.some.inj he
        exact absurd (hpass.symm.trans hfail) nofun

theorem guarded_iff (ev : ServerEvent) (hK : Keyed s.store) :
    Guarded c ev s ↔ filterMet c ev s = true := by
  cases ev with
  | callback req => exact guarded_callback hK
  | kafka m => exact guarded_kafka hK
  | _ => exact iff_of_true trivial rfl

end Steps

/-- **Filters guard what is resumed from outside, callbacks only.**  In every run of the
server: each callback and each Kafka message resumes only an entry whose filter its payload
passes and, when it is rejected, leaves store, queues and records as they were, exactly if
every Kafka message passes the filter of the entry it matches and no rejected callback
drops a timed-out entry or a stale record on the way. -/
theorem filters_guard_iff (c : HandlerConfig) (evs : List ServerEvent) :
    AllSteps (serverNext c) (Guarded c) Server.initial evs ↔
      AllSteps (serverNext c) (fun ev s => filterMet c ev s = true) Server.initial evs :=
  allSteps_iff (I := fun s => Keyed s.store) (fun _ _ _ hK _ hnext => hK.step hnext)
    (fun ev _ hK => guarded_iff ev hK) (fun _ _ he => by cases he)

/-! ### A refund that resumes a wait for a payment -/

def refund : Json := .obj [("type", .str "refund")]

/-- A server that knows one filter and one message. -/
def paymentServer : HandlerConfig where
  isSecurityEnabled := false
  isIpAllowed _ := true
  validateRequestSignature _ := none
  extractAndVerifyToken _ _ _ := none
  evaluateWebhookFilter _ j :=
    if walk j ["type"] = some "paid" then none else some "type: \"refund\" != \"paid\""
  parse text := if text = "\x7b\"type\":\"refund\"\x7d" then some refund else none
  ttlMs := 86400000
  maxEntries := 10000
  executionId _ := "run-1"
  workflowId _ := "wf"

def paymentWait : PauseRequest where
  correlationId := "order-7"
  webhookPath := "payments"
  executionId := "run-1"
  workflowId := some "wf"
  pausedNodeId := some "wait"
  timeoutMs := 0
  webhookFilter := some "\x7b\x7btype\x7d\x7d == paid"
  correlationSource := some .key
  correlationJsonPath := none
  correlationHeader := none
  correlationQueryParam := none

def refundMessage : KafkaResumeMessage where
  topic := "payments"
  partition := 0
  offset := "17"
  key := some "order-7"
  value := some "\x7b\"type\":\"refund\"\x7d"
  headers := []

/-- The message resumes the entry, which its filter would not let it. -/
theorem refund_resumes_payment :
    ∃ s, exec (serverNext paymentServer) Server.initial [.pause paymentWait] = some s ∧
      s.store.lookup "order-7" = some (paymentWait.entry 0) ∧
      passes paymentServer (refundMessage.payload paymentServer) (paymentWait.entry 0) = false ∧
      (dispatchKafkaResumeMessage paymentServer refundMessage s).1.store.lookup "order-7" = none ∧
      ((dispatchKafkaResumeMessage paymentServer refundMessage s).1.resumes.map fun r =>
        (r.1, r.2.executionId)) = [("order-7", "run-1")] :=
  exists_exec (by decide)

end RedFireForge.Correlation
