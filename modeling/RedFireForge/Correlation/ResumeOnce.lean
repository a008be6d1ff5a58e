/-
# `RedFireForge.Correlation.ResumeOnce` — redelivered messages

A message that has resumed an entry can be delivered again.  The handler keeps a record
under its idempotency key, and looks at it behind the match, only to set it aside because
the matched entry is paused.
-/
import RedFireForge.Correlation.WebhookGuard

namespace RedFireForge.Correlation

open RedFireForge.Lib

/-- Topic, partition and offset. -/
def KafkaResumeMessage.position (m : KafkaResumeMessage) : String × ℕ × String :=
  (m.topic, m.partition, m.offset)

def QueuedResume.position (r : QueuedResume) : Option (String × ℕ × String) :=
  match r.webhookData with
  | .kafka m => some m.position
  | .json _ => none

/-- How many entries the message at a position has resumed. -/
def Server.resumedBy (s : Server) (p : String × ℕ × String) : ℕ :=
  s.resumes.countP fun r => r.2.position == some p

/-- A callback that resumed an entry is delivered again while nothing is paused under that
correlation id, and the record of it is still held. -/
structure Redelivered (c : HandlerConfig) (req : CallbackRequest) (s : Server) (key : String)
    (r : IdempotencyRecord) : Prop where
  passed : gate c req = none
  resumed : (req, key, r.responseBody) ∈ s.answered
  gone : s.store.lookup r.responseBody.correlationId = none
  held : s.processedRequests.lookup key = some r
  fresh : r.stale c s.now = false

/-- It is to be answered with the recorded status and body. -/
def RedeliveryAnswered (c : HandlerConfig) : ServerEvent → Server → Prop
  | .callback req, s => ∀ key r, Redelivered c req s key r →
      (callback c req s).2.response = (r.statusCode, .result r.responseBody)
  | _, _ => True

/-- A Kafka message whose position has resumed an entry matches none. -/
def positionFresh (c : HandlerConfig) : ServerEvent → Server → Bool
  | .kafka m, s => s.resumedBy m.position == 0 || (s.kafkaMatch c m).isNone
  | _, _ => true

/-- No callback is delivered again like that. -/
def notRedelivered (c : HandlerConfig) : ServerEvent → Server → Bool
  | .callback req, s => s.answered.all fun x =>
      !(decide (x.1 = req) && (gate c req).isNone &&
        (s.store.lookup x.2.2.correlationId).isNone &&
        (s.processedRequests.lookup x.2.1).any fun r =>
          decide (r.responseBody = x.2.2) && !r.stale c s.now)
  | _, _ => true

section Steps

variable {c : HandlerConfig} {req : CallbackRequest} {m : KafkaResumeMessage} {s s' : Server}

/-! ## Callbacks -/

theorem notRedelivered_iff : notRedelivered c (.callback req) s = true ↔
    ∀ key r, ¬ Redelivered c req s key r := by
  simp only [notRedelivered, List.all_eq_true, Bool.not_eq_true', Bool.and_eq_false_iff]
  constructor
  · intro hnone key r h
    have hx := hnone _ h.resumed
    simp [h.passed, h.gone, h.held, h.fresh] at hx
  · rintro hnone ⟨req', key, body⟩ hx
    by_contra hall
    simp only [not_or, Bool.not_eq_false, decide_eq_true_eq, Option.isNone_iff_eq_none,
      Option.any_eq_true, Bool.and_eq_true, Bool.not_eq_true'] at hall
    obtain ⟨⟨⟨rfl, hpassed⟩, hgone⟩, r, hheld, rfl, hfresh⟩ := hall
    exact hnone key r ⟨hpassed, hx, hgone, hheld, hfresh⟩

/-- A record is never answered: a callback that is not turned away resumes another entry,
which is paused, or is told that there is none. -/
theorem redelivery_not_answered (hK : Keyed s.store) {key : String} {r : IdempotencyRecord}
    (h : Redelivered c req s key r) :
    (callback c req s).2.response ≠ (r.statusCode, .result r.responseBody) := by
  have hcase := callbackCase c req hK
  generalize callback c req s = result at hcase ⊢
  cases hcase with
  | blocked => exact fun heq => by cases congrArg Prod.snd heq
  | unmatched => exact fun heq => by cases congrArg Prod.snd heq
  | badToken => exact fun heq => by cases congrArg Prod.snd heq
  | rejected => exact fun heq => by cases congrArg Prod.snd heq
  | resumed hgate hmatch =>
      intro heq
      have hbody := ResponseBody.result.inj (congrArg Prod.snd heq)
      have hgone := h.gone
      rw [← hbody, hK.of_mem (List.mem_of_find?_eq_some hmatch)] at hgone
      cases hgone

theorem redeliveryAnswered_iff (ev : ServerEvent) (hK : Keyed s.store) :
    RedeliveryAnswered c ev s ↔ notRedelivered c ev s = true := by
  cases ev with
  | callback req =>
      rw [notRedelivered_iff]
      constructor
      · exact fun hall key r h => redelivery_not_answered hK h (hall key r h)
      · exact fun hnone key r h => absurd h (hnone key r)
  | _ => exact iff_of_true trivial rfl

/-! ## Kafka messages -/

/-- What a step adds to the accepted resumes, of any position but that of a Kafka message. -/
def AddsNone (s s' : Server) : Prop :=
  ∃ l, s'.resumes = s.resumes ++ l ∧ ∀ r ∈ l, r.2.position = none

theorem addsNone_of_eq (h : s'.resumes = s.resumes) : AddsNone s s' :=
  ⟨[], by rw [h, List.append_nil], nofun⟩

theorem addsNone_resumeEntry {entry : ServerPausedEntry} {j : Json} :
    AddsNone s (s.resumeEntry entry (.json j)) :=
  ⟨_, Desk.accept_resumes, fun r hr => by rw [List.mem_singleton.mp hr]; rfl⟩

theorem callback_addsNone (hK : Keyed s.store) : AddsNone s (callback c req s).1 := by
  have hcase := callbackCase c req hK
  generalize callback c req s = result at hcase ⊢
  cases hcase with
  | blocked => exact addsNone_of_eq rfl
  | unmatched => exact addsNone_of_eq (s.callbackSweep_resumes req)
  | badToken => exact addsNone_of_eq (s.callbackSweep_resumes req)
  | rejected =>
      exact addsNone_of_eq ((Server.check_resumes _ c _).trans (s.callbackSweep_resumes req))
  | resumed => exact ⟨_, Desk.accept_resumes, fun r hr => by rw [List.mem_singleton.mp hr]; rfl⟩

/-- Every other event resumes nothing, or by no Kafka message. -/
theorem addsNone_step {ev : ServerEvent} (hK : Keyed s.store) (hnext : serverNext c ev s = some s')
    (hev : ∀ m, ev ≠ .kafka m) : AddsNone s s' := by
  cases ev with
  | kafka m => exact absurd rfl (hev m)
  | callback req =>
      cases hnext
      exact callback_addsNone hK
  | resume correlationId webhookData =>
      cases hnext
      unfold Server.resume
      split
      · exact addsNone_of_eq rfl
      · split
        · exact addsNone_resumeEntry
        · exact addsNone_of_eq rfl
  | pause req =>
      cases hnext
      refine addsNone_of_eq ?_
      unfold Server.pause
      split <;> rfl
  | cancel correlationId =>
      cases hnext
      exact addsNone_of_eq rfl
  | poll correlationId executionId =>
      cases hnext
      refine addsNone_of_eq ?_
      show (s.toDesk.poll correlationId executionId).resumes = s.resumes
      unfold Desk.poll
      dsimp only
      split <;> rfl
  | leave w =>
      cases hnext
      refine addsNone_of_eq ?_
      show (s.toDesk.leave w).resumes = s.resumes
      unfold Desk.leave
      split
      · split
        · rfl
        · obtain ⟨_, h⟩ := Desk.deregisterResumeWaiter_eq _ _ _
          rw [h]
      · rfl
  | bridgePause b req =>
      cases hnext
      refine addsNone_of_eq ?_
      unfold Server.bridgePause
      split <;> rfl
  | bridgeLeave b correlationId =>
      cases hnext
      refine addsNone_of_eq ?_
      unfold Server.bridgeLeave
      split
      · show (Desk.bridgeLeave _ _ _ _).resumes = s.resumes
        unfold Desk.bridgeLeave
        obtain ⟨_, h⟩ := Desk.deregisterResumeWaiter_eq _ _ _
        rw [h]
      · rfl
  | cleanup =>
      cases hnext
      exact addsNone_of_eq rfl
  | cleanupResumeQueue =>
      cases hnext
      exact addsNone_of_eq rfl
  | tick ms =>
      obtain ⟨-, h⟩ := Option.ite_none_right_eq_some.mp hnext
      cases h
      exact addsNone_of_eq rfl

/-- Every position so far has resumed at most one entry. -/
def AtMostOnce (s : Server) : Prop := ∀ p, s.resumedBy p ≤ 1

theorem AddsNone.atMostOnce_iff (h : AddsNone s s') : AtMostOnce s' ↔ AtMostOnce s := by
  obtain ⟨l, hl, hnone⟩ := h
  have hsame : ∀ p, s'.resumedBy p = s.resumedBy p := by
    intro p
    have hzero : l.countP (fun r => r.2.position == some p) = 0 := by
      refine List.countP_eq_zero.mpr (fun r hr => ?_)
      rw [hnone r hr]
      exact Bool.false_ne_true
    rw [Server.resumedBy, hl, List.countP_append, hzero]
    rfl
  exact forall_congr' fun p => by rw [hsame p]

theorem kafka_atMostOnce (hK : Keyed s.store) :
    AtMostOnce (dispatchKafkaResumeMessage c m s).1 ↔
      AtMostOnce s ∧ positionFresh c (.kafka m) s = true := by
  have hcase := kafkaCase (c := c) (m := m) hK
  generalize dispatchKafkaResumeMessage c m s = result at hcase ⊢
  cases hcase with
  | unmatched hmatch =>
      have hsame := (Server.check_resumes (s.kafkaSweep c m) c (extractKafkaIdempotencyKey m)).trans
        (s.kafkaSweep_resumes c m)
      rw [(addsNone_of_eq hsame).atMostOnce_iff, positionFresh, hmatch]
      simp
  | resumed hmatch =>
      rename_i entry
      have hafter : ∀ p, (resumeByKafka c m (extractKafkaIdempotencyKey m) entry
          ((s.kafkaSweep c m).check c (extractKafkaIdempotencyKey m))).1.resumedBy p =
          s.resumedBy p + if m.position = p then 1 else 0 := by
        intro p
        have happend : (resumeByKafka c m (extractKafkaIdempotencyKey m) entry
            ((s.kafkaSweep c m).check c (extractKafkaIdempotencyKey m))).1.resumes =
            s.resumes ++ [_] := Desk.accept_resumes
        rw [Server.resumedBy, happend, List.countP_append]
        congr 1
        by_cases hp : m.position = p
        · simp [QueuedResume.position, Desk.dataOf, hp]
        · simp [QueuedResume.position, Desk.dataOf, hp]
      have hfresh : positionFresh c (.kafka m) s = true ↔ s.resumedBy m.position = 0 := by
        simp [positionFresh, hmatch]
      rw [hfresh]
      constructor
      · intro honce
        refine ⟨fun p => ?_, ?_⟩
        · have := hafter p ▸ honce p
          omega
        · have := hafter m.position ▸ honce m.position
          rw [if_pos rfl] at this
          omega
      · rintro ⟨honce, hzero⟩ p
        rw [hafter p]
        have := honce p
        split
        next hp =>
          subst hp
          omega
        next => omega

theorem atMostOnce_step {ev : ServerEvent} (hK : Keyed s.store)
    (hnext : serverNext c ev s = some s') :
    AtMostOnce s' ↔ AtMostOnce s ∧ positionFresh c ev s = true := by
  by_cases hev : ∃ m, ev = .kafka m
  · obtain ⟨m, rfl⟩ := hev
    cases hnext
    exact kafka_atMostOnce hK
  · have hnot : ∀ m, ev ≠ .kafka m := fun m h => hev ⟨m, h⟩
    rw [(addsNone_step hK hnext hnot).atMostOnce_iff]
    refine (and_iff_left ?_).symm
    cases ev with
    | kafka m => exact absurd rfl (hnot m)
    | _ => rfl

end Steps

/-- **One resume for each message, if none comes again in time to matter.**  In every run of
the server: every Kafka position resumes at most one entry, and every redelivered callback
whose id is no longer paused gets the recorded answer, exactly if no Kafka message whose
position has resumed an entry matches another one, and no callback is redelivered like
that: the record is never the answer. -/
theorem resumes_once_iff (c : HandlerConfig) (evs : List ServerEvent) (s : Server)
    (hrun : exec (serverNext c) Server.initial evs = some s) :
    (∀ p, s.resumedBy p ≤ 1) ∧
        AllSteps (serverNext c) (RedeliveryAnswered c) Server.initial evs ↔
      AllSteps (serverNext c) (fun ev s => positionFresh c ev s = true ∧ notRedelivered c ev s = true)
        Server.initial evs := by
  have h0 : Keyed Server.initial.store := fun _ _ he => by cases he
  have hkept : ∀ ev s s', Keyed s.store → serverNext c ev s = some s' → Keyed s'.store :=
    fun _ _ _ hK hnext => hK.step hnext
  have hpositions := exec_iff_allSteps (I := fun s => Keyed s.store) (P := AtMostOnce)
    (fun ev s s' hK hnext => ⟨hkept ev s s' hK hnext, atMostOnce_step hK hnext⟩) h0 hrun
  have hstart : AtMostOnce Server.initial := fun _ => Nat.zero_le _
  have hcallbacks : AllSteps (serverNext c) (RedeliveryAnswered c) Server.initial evs ↔
      AllSteps (serverNext c) (fun ev s => notRedelivered c ev s = true) Server.initial evs :=
    allSteps_iff (fun ev s s' hK _ hnext => hkept ev s s' hK hnext)
      (fun ev s hK => redeliveryAnswered_iff (c := c) ev hK) h0
  rw [allSteps_and]
  exact and_congr (hpositions.trans (and_iff_right hstart)) hcallbacks

/-! ### A message that comes twice -/

/-- The second delivery finds nothing paused. -/
def deliveredTwice : List ServerEvent :=
  [.pause paymentWait, .kafka refundMessage, .kafka refundMessage]

theorem resumes_once_iff_deliveredTwice :
    ∃ s, exec (serverNext paymentServer) Server.initial deliveredTwice = some s ∧
      s.resumedBy ("payments", 0, "17") = 1 ∧ ∀ p, s.resumedBy p ≤ 1 := by
  obtain ⟨s, hrun, hcount⟩ :
      ∃ s, exec (serverNext paymentServer) Server.initial deliveredTwice = some s ∧
        s.resumedBy ("payments", 0, "17") = 1 := exists_exec (by decide +kernel)
  exact ⟨s, hrun, hcount, ((resumes_once_iff paymentServer deliveredTwice s hrun).mpr (by decide +kernel)).1⟩

/-- A wait for a callback, by a query parameter. -/
def callbackWait : PauseRequest :=
  { paymentWait with
    webhookFilter := none
    correlationSource := some .query
    correlationQueryParam := some "order" }

def paidCallback : CallbackRequest where
  webhookPath := "payments"
  ip := "10.0.0.1"
  headers := [("x-idempotency-key", .one "evt-1")]
  query := [("order", .one "order-7")]
  body := none

/-- A message whose id is paused again resumes a second entry; and a callback that resumed
its entry is told, when it comes again, that there is no match. -/
theorem redelivered_messages :
    (∃ s, exec (serverNext paymentServer) Server.initial
        [.pause paymentWait, .kafka refundMessage, .pause paymentWait, .kafka refundMessage] = some s ∧
      s.resumedBy ("payments", 0, "17") = 2) ∧
    ∃ s, exec (serverNext paymentServer) Server.initial
        [.pause callbackWait, .callback paidCallback] = some s ∧
      s.store.lookup "order-7" = none ∧
      (s.processedRequests.lookup "idem:evt-1").map IdempotencyRecord.statusCode = some 200 ∧
      (callback paymentServer paidCallback s).2.response =
        (404, .error "No matching paused workflow found") :=
  ⟨exists_exec (by decide +kernel), exists_exec (by decide +kernel)⟩

end RedFireForge.Correlation
