/-
# `RedFireForge.Correlation.ResumeOwner` — whose wait gets the data of a resume

The data of a resume is meant for the execution whose entry was removed.  The maps of the
desk do not know the execution: whoever waits under the id is served.  The results are
about one desk first, then about runs of the server.
-/
import RedFireForge.Correlation.WebhookGuard

namespace RedFireForge.Correlation

open RedFireForge.Lib

namespace Desk

/-- The correlation id and the execution of a wait. -/
def ownerOf (d : Desk) (w : ℕ) : Option (String × String) :=
  d.waits[w]?.map fun wait => (wait.correlationId, wait.executionId)

/-- The correlation id and the execution of the entry that a resume removed. -/
def resumedFor (d : Desk) (i : ℕ) : Option (String × String) :=
  d.resumes[i]?.map fun r => (r.1, r.2.executionId)

/-- To how many waits the data of a resume was handed. -/
def claims (d : Desk) (i : ℕ) : ℕ := d.handovers.countP fun x => x.1 == i

/-- Data goes to one wait, of the execution whose entry was removed. -/
structure Owned (d : Desk) : Prop where
  once : ∀ i, d.claims i ≤ 1
  owner : ∀ x ∈ d.handovers, ∃ o, d.ownerOf x.2 = some o ∧ d.resumedFor x.1 = some o

/-- The step hands the data of a resume to the first wait of its execution: one that is
parked at that time, or else the first that arrives while the queue keeps it. -/
structure Delivers (d d' : Desk) : Prop where
  parked : ∀ r, d'.resumes = d.resumes ++ [r] → ∀ w ∈ d.waitersOf r.1,
    d.ownerOf w = some (r.1, r.2.executionId) →
      ∃ w' ≤ w, (d.resumes.length, w') ∈ d'.handovers
  arrived : ∀ wait, d'.waits = d.waits ++ [wait] → ∀ i (r : String × QueuedResume), d.resumes[i]? = some r →
    (r.1, r.2.executionId) = (wait.correlationId, wait.executionId) → d.claims i = 0 →
      d.outdated r.2 = false → (i, d.waits.length) ∈ d'.handovers

/-! ## Conditions on a step -/

/-- One wait is parked under the id, of the execution of the entry; or none is, and the queue
holds no other data under the id, but what is outdated. -/
def acceptOk (d : Desk) (entry : ServerPausedEntry) : Bool :=
  match d.waitersOf entry.correlationId with
  | [] => (d.queuedResumes.lookup entry.correlationId).all d.outdated
  | [w] => d.ownerOf w == some (entry.correlationId, entry.executionId)
  | _ => false

/-- What is queued under the id is for the execution that polls. -/
def pollOk (d : Desk) (correlationId executionId : String) : Bool :=
  (d.queuedResumes.lookup correlationId).all fun data => data.executionId == executionId

/-- What is queued under the id is outdated, or not for the execution of the bridge, which
does not look at the queue. -/
def bridgeOk (d : Desk) (correlationId executionId : String) : Bool :=
  (d.queuedResumes.lookup correlationId).all fun data =>
    d.outdated data || data.executionId != executionId

/-! ## What holds of a desk -/

/-- A long poll that is not settled, or the paused wait of its bridge. -/
def isParked (d : Desk) (w : ℕ) (wait : ResumeWait) : Prop :=
  match wait.bridge with
  | none => wait.settled = false
  | some b => d.callbacks.lookup (b, wait.correlationId) = some w

structure Registry (d : Desk) : Prop where
  nodup : ∀ id, (d.waitersOf id).Nodup
  parked : ∀ id, ∀ w ∈ d.waitersOf id, ∃ wait, d.waits[w]? = some wait ∧
    wait.correlationId = id ∧ d.isParked w wait

structure Ledger (d : Desk) : Prop extends Owned d where
  ordinal : ∀ i (r : String × QueuedResume), d.resumes[i]? = some r → r.2.ordinal = i
  queued : ∀ id data, d.queuedResumes.lookup id = some data →
    d.resumes[data.ordinal]? = some (id, data) ∧ d.claims data.ordinal = 0
  /-- data that nobody has taken is in the queue as long as it is kept there -/
  kept : ∀ i (r : String × QueuedResume), d.resumes[i]? = some r → d.claims i = 0 → d.outdated r.2 = false →
    d.queuedResumes.lookup r.1 = some r.2

/-- A bridge holds waits of the id. -/
def Paused (d : Desk) : Prop :=
  ∀ key w, d.callbacks.lookup key = some w → ∃ e, d.ownerOf w = some (key.2, e)

section Steps

variable {d : Desk} {entry : ServerPausedEntry} {webhookData : WebhookData} {w : ℕ}
  {id correlationId executionId : String} {data : QueuedResume} {wait : ResumeWait} {b : ℕ}

theorem lookup_of_erase {m : InsertionMap (ℕ × String) ℕ} {key key' : ℕ × String}
    (h : (m.erase key').lookup key = some w) : m.lookup key = some w := by
  rw [InsertionMap.lookup_erase] at h
  split at h
  · cases h
  · exact h

theorem Registry.lt (h : d.Registry) (hw : w ∈ d.waitersOf id) : w < d.waits.length := by
  obtain ⟨wait, hwait, -⟩ := h.parked id w hw
  exact (List.getElem?_eq_some_iff.mp hwait).1

/-! ### Leaving -/

/-- After a waiter is deregistered, the others are parked as before. -/
theorem Registry.deregister {d' : Desk} (h : d.Registry)
    (hwaiters : ∀ id, d'.waitersOf id =
      if id = correlationId then (d.waitersOf correlationId).erase w else d.waitersOf id)
    (hothers : ∀ id, ∀ w' ∈ d.waitersOf id, w' ≠ w → ∀ wait, d.waits[w']? = some wait →
      d.isParked w' wait → d'.waits[w']? = some wait ∧ d'.isParked w' wait)
    (howner : d.waits[w]? = some wait) (hid : wait.correlationId = correlationId) :
    d'.Registry := by
  refine ⟨fun id => ?_, fun id w' hw' => ?_⟩
  · rw [hwaiters]
    split
    · exact (h.nodup _).erase _
    · exact h.nodup id
  · have hold : w' ∈ d.waitersOf id ∧ w' ≠ w := by
      rw [hwaiters] at hw'
      split at hw'
      next heq =>
        rw [(h.nodup _).mem_erase_iff] at hw'
        exact ⟨heq ▸ hw'.2, hw'.1⟩
      next hne =>
        refine ⟨hw', ?_⟩
        rintro rfl
        obtain ⟨wait', hwait', hid', -⟩ := h.parked id _ hw'
        rw [howner, Option.some.injEq] at hwait'
        exact hne (hid'.symm.trans (hwait' ▸ hid))
    obtain ⟨wait', hwait', hid', hparked⟩ := h.parked id w' hold.1
    obtain ⟨hwait, hparked⟩ := hothers id w' hold.1 hold.2 wait' hwait' hparked
    exact ⟨wait', hwait, hid', hparked⟩

theorem Registry.leave (h : d.Registry) : (d.leave w).Registry := by
  unfold Desk.leave
  split
  next wait hwait =>
    split
    next => exact h
    next hopen =>
      refine h.deregister (fun id => waitersOf_deregister) ?_ hwait rfl
      intro id w' _ hne wait' hwait' hparked
      obtain ⟨waiters, hsame⟩ := deregisterResumeWaiter_eq
        { d with waits := d.waits.set w { wait with settled := true } } w wait.correlationId
      rw [hsame]
      refine ⟨?_, hparked⟩
      show (d.waits.set w _)[w']? = some wait'
      rw [List.getElem?_set_ne (Ne.symm hne), hwait']
  next => exact h

/-- The paused wait of a bridge is the only one of its bridge and id. -/
theorem Registry.bridgeLeave (h : d.Registry) (hpaused : d.callbacks.lookup (b, correlationId) = some w)
    (hwait : d.waits[w]? = some wait) (hid : wait.correlationId = correlationId) :
    (d.bridgeLeave b correlationId w).Registry := by
  refine h.deregister (fun id => waitersOf_deregister) ?_ hwait hid
  intro id w' _ hne wait' hwait' hparked
  obtain ⟨waiters, hsame⟩ := deregisterResumeWaiter_eq
    { d with callbacks := d.callbacks.erase (b, correlationId) } w correlationId
  rw [Desk.bridgeLeave, hsame]
  refine ⟨hwait', ?_⟩
  unfold isParked at hparked ⊢
  split
  next hpoll =>
    rw [hpoll] at hparked
    exact hparked
  next b' hbridge =>
    rw [hbridge] at hparked
    show (d.callbacks.erase (b, correlationId)).lookup (b', wait'.correlationId) = some w'
    rw [InsertionMap.lookup_erase, if_neg]
    · exact hparked
    · intro heq
      have hparked : d.callbacks.lookup (b', wait'.correlationId) = some w' := hparked
      rw [heq, hpaused, Option.some.injEq] at hparked
      exact hne hparked.symm

/-! ### Arriving -/

/-- A new wait is registered; the others are parked as before. -/
theorem Registry.register {d' : Desk} (wait : ResumeWait) (h : d.Registry) (hwaits : d'.waits = d.waits ++ [wait])
    (hwaiters : ∀ id, d'.waitersOf id =
      if id = wait.correlationId then d.waitersOf wait.correlationId ++ [d.waits.length]
      else d.waitersOf id)
    (hothers : ∀ id, ∀ w ∈ d.waitersOf id, ∀ wait, d.waits[w]? = some wait → d.isParked w wait →
      d'.isParked w wait)
    (hnew : d'.isParked d.waits.length wait) : d'.Registry := by
  have hold : ∀ id, ∀ w ∈ d.waitersOf id, ∃ wait, d'.waits[w]? = some wait ∧
      wait.correlationId = id ∧ d'.isParked w wait := by
    intro id w hw
    obtain ⟨wait', hwait', hid, hparked⟩ := h.parked id w hw
    refine ⟨wait', ?_, hid, hothers id w hw wait' hwait' hparked⟩
    rw [hwaits, List.getElem?_append_left (h.lt hw), hwait']
  refine ⟨fun id => ?_, fun id w hw => ?_⟩
  · rw [hwaiters]
    split
    · refine List.nodup_append.mpr ⟨h.nodup _, List.nodup_singleton _, ?_⟩
      intro w hw w' hw'
      have := h.lt hw
      rw [List.mem_singleton.mp hw']
      omega
    · exact h.nodup id
  · rw [hwaiters] at hw
    split at hw
    next hid =>
      subst hid
      rcases List.mem_append.mp hw with hw | hw
      · exact hold _ w hw
      · obtain rfl := List.mem_singleton.mp hw
        exact ⟨wait, by simp [hwaits], rfl, hnew⟩
    next => exact hold id w hw

theorem Registry.poll (h : d.Registry) : (d.poll correlationId executionId).Registry := by
  unfold Desk.poll
  dsimp only
  split
  next data hdata =>
    refine ⟨h.nodup, fun id w hw => ?_⟩
    obtain ⟨wait, hwait, hid, hparked⟩ := h.parked id w hw
    refine ⟨wait, ?_, hid, hparked⟩
    show (d.waits ++ [_])[w]? = some wait
    rw [List.getElem?_append_left (h.lt hw), hwait]
  next =>
    exact h.register _ rfl (fun id => waitersOf_register) (fun id w _ wait _ hparked => hparked) rfl

theorem Registry.bridgePause (h : d.Registry)
    (hfree : d.callbacks.lookup (b, correlationId) = none) :
    (d.bridgePause b correlationId executionId).Registry := by
  refine h.register ⟨correlationId, executionId, some b, d.now, false⟩ rfl
    (fun id => waitersOf_register) ?_ ?_
  · intro id w hw wait hwait hparked
    unfold isParked at hparked ⊢
    split
    next hpoll =>
      rw [hpoll] at hparked
      exact hparked
    next b' hbridge =>
      rw [hbridge] at hparked
      have hparked : d.callbacks.lookup (b', wait.correlationId) = some w := hparked
      show (d.callbacks.set (b, correlationId) d.waits.length).lookup (b', wait.correlationId) = some w
      rw [InsertionMap.lookup_set_ne, hparked]
      intro heq
      rw [heq, hfree] at hparked
      cases hparked
  · exact InsertionMap.lookup_set_self

/-! ### A resume -/

theorem accept_queued (hnone : d.waitersOf entry.correlationId = []) :
    d.accept entry webhookData = { d with
      resumes := d.resumes ++ [(entry.correlationId, d.dataOf entry webhookData)]
      queuedResumes := d.queuedResumes.set entry.correlationId (d.dataOf entry webhookData) } := by
  unfold accept notifyResume
  dsimp only
  split
  next => rfl
  next hsome => exact absurd hnone hsome

/-- What calling the one waiter `w` changes: it is parked no more, and that is all. -/
structure Called (d d' : Desk) (w : ℕ) : Prop where
  length : d'.waits.length = d.waits.length
  owner : ∀ w', d'.ownerOf w' = d.ownerOf w'
  others : ∀ w', w' ≠ w → d'.waits[w']? = d.waits[w']?
  bridges : ∀ key w', w' ≠ w → d.callbacks.lookup key = some w' → d'.callbacks.lookup key = some w'
  paused : ∀ key w', d'.callbacks.lookup key = some w' → d.callbacks.lookup key = some w'

variable (data) in
theorem call_parked (hwait : d.waits[w]? = some wait) (hparked : d.isParked w wait) :
    ∃ waits callbacks, call data d w = { d with
      waits, callbacks, handovers := d.handovers ++ [(data.ordinal, w)] } ∧
      Called d { d with waits, callbacks, handovers := d.handovers ++ [(data.ordinal, w)] } w := by
  unfold isParked at hparked
  unfold call
  rw [hwait]
  cases hbridge : wait.bridge with
  | none =>
      rw [hbridge] at hparked
      dsimp only at hparked ⊢
      refine ⟨d.waits.set w { wait with settled := true }, d.callbacks, ?_, ?_⟩
      · simp only [hbridge, hparked, Bool.false_eq_true, if_false]
      · refine ⟨List.length_set, fun w' => ?_, fun w' hne => List.getElem?_set_ne (Ne.symm hne),
          fun _ _ _ hkey => hkey, fun _ _ hkey => hkey⟩
        show ((d.waits.set w { wait with settled := true })[w']?).map _ = (d.waits[w']?).map _
        by_cases hw : w' = w
        · subst hw
          have hlt := (List.getElem?_eq_some_iff.mp hwait).1
          rw [List.getElem?_set_self hlt, hwait]
          rfl
        · rw [List.getElem?_set_ne (Ne.symm hw)]
  | some b =>
      rw [hbridge] at hparked
      dsimp only at hparked ⊢
      refine ⟨d.waits, d.callbacks.erase (b, wait.correlationId), ?_, ?_⟩
      · simp only [hbridge, hparked, Option.isSome_some, if_true]
      · refine ⟨rfl, fun _ => rfl, fun _ _ => rfl, fun key w' hne hkey => ?_, fun key w' hkey => ?_⟩
        · show (d.callbacks.erase (b, wait.correlationId)).lookup key = some w'
          rw [InsertionMap.lookup_erase, if_neg]
          · exact hkey
          · rintro rfl
            rw [hparked, Option.some.injEq] at hkey
            exact hne hkey.symm
        · exact lookup_of_erase hkey

variable (webhookData) in
/-- The one waiter under the id of an entry is called. -/
theorem Registry.accept_parked (h : d.Registry) (hone : d.waitersOf entry.correlationId = [w]) :
    ∃ waits callbacks, d.accept entry webhookData = { d with
      resumes := d.resumes ++ [(entry.correlationId, d.dataOf entry webhookData)]
      resumeWaiters := d.resumeWaiters.erase entry.correlationId
      handovers := d.handovers ++ [(d.resumes.length, w)]
      waits, callbacks } ∧ Called d (d.accept entry webhookData) w := by
  obtain ⟨wait, hwait, -, hparked⟩ := h.parked entry.correlationId w (by simp [hone])
  obtain ⟨waits, callbacks, hcall, hcalled⟩ := call_parked
    (d := { d with
      resumes := d.resumes ++ [(entry.correlationId, d.dataOf entry webhookData)]
      resumeWaiters := d.resumeWaiters.erase entry.correlationId })
    (d.dataOf entry webhookData) hwait hparked
  have haccept : d.accept entry webhookData = { d with
      resumes := d.resumes ++ [(entry.correlationId, d.dataOf entry webhookData)]
      resumeWaiters := d.resumeWaiters.erase entry.correlationId
      handovers := d.handovers ++ [(d.resumes.length, w)]
      waits, callbacks } := by
    have hone' : Desk.waitersOf { d with
        resumes := d.resumes ++ [(entry.correlationId, d.dataOf entry webhookData)] }
          entry.correlationId = [w] := hone
    unfold accept notifyResume
    dsimp only
    rw [hone']
    exact hcall
  refine ⟨waits, callbacks, haccept, ?_⟩
  rw [haccept]
  exact ⟨hcalled.length, hcalled.owner, hcalled.others, hcalled.bridges, hcalled.paused⟩

theorem Registry.accept (h : d.Registry) (hok : d.acceptOk entry = true) :
    (d.accept entry webhookData).Registry := by
  unfold acceptOk at hok
  split at hok
  next hnone =>
    rw [accept_queued hnone]
    exact ⟨h.nodup, h.parked⟩
  next w hone =>
    obtain ⟨waits, callbacks, haccept, hcalled⟩ := h.accept_parked webhookData hone
    have hwaiters : ∀ id, (d.accept entry webhookData).waitersOf id =
        if id = entry.correlationId then [] else d.waitersOf id := by
      intro id
      rw [haccept]
      exact waitersOf_erase
    refine ⟨fun id => ?_, fun id w' hw' => ?_⟩
    · rw [hwaiters]
      split
      · exact List.nodup_nil
      · exact h.nodup id
    · rw [hwaiters] at hw'
      split at hw'
      next => cases hw'
      next hid =>
        obtain ⟨wait, hwait, hwaitid, hparked⟩ := h.parked id w' hw'
        have hne : w' ≠ w := by
          rintro rfl
          obtain ⟨wait', hwait', hid', -⟩ := h.parked entry.correlationId w' (by simp [hone])
          rw [hwait, Option.some.injEq] at hwait'
          exact hid (hwaitid.symm.trans (hwait' ▸ hid'))
        refine ⟨wait, (hcalled.others w' hne).trans hwait, hwaitid, ?_⟩
        unfold isParked at hparked ⊢
        split
        next hpoll =>
          rw [hpoll] at hparked
          exact hparked
        next b hbridge =>
          rw [hbridge] at hparked
          exact hcalled.bridges _ w' hne hparked
  next => cases hok

/-! ### The ledger -/

theorem resumedFor_lt {o : String × String} {i : ℕ} (h : d.resumedFor i = some o) :
    i < d.resumes.length := by
  obtain ⟨r, hr, -⟩ := Option.map_eq_some_iff.mp h
  exact (List.getElem?_eq_some_iff.mp hr).1

theorem Owned.claims_new (h : d.Owned) : d.claims d.resumes.length = 0 := by
  refine List.countP_eq_zero.mpr (fun x hx => ?_)
  obtain ⟨o, -, ho⟩ := h.owner x hx
  have := resumedFor_lt ho
  simp
  omega

theorem claims_append (d' : Desk) {i : ℕ} (hhand : d'.handovers = d.handovers ++ [(i, w)]) (j : ℕ) :
    d'.claims j = d.claims j + if i = j then 1 else 0 := by
  rw [claims, hhand, List.countP_append, List.countP_singleton]
  simp [claims]

/-- What is in time later was in time before. -/
theorem outdated_mono {d' : Desk} (hnow : d.now ≤ d'.now) (h : d'.outdated data = false) :
    d.outdated data = false := by
  simp only [outdated, decide_eq_false_iff_not, not_lt] at h ⊢
  exact (sub_le_sub_right hnow data.ts).trans h

/-- Waits come and go, time passes and outdated data is dropped. -/
theorem Ledger.congr {d' : Desk} (h : d.Ledger)
    (howner : ∀ w o, d.ownerOf w = some o → d'.ownerOf w = some o)
    (hresumes : d'.resumes = d.resumes) (hhand : d'.handovers = d.handovers)
    (hnow : d.now ≤ d'.now)
    (hqueue : ∀ id data, d'.queuedResumes.lookup id = some data → d.queuedResumes.lookup id = some data)
    (hkept : ∀ id data, d.queuedResumes.lookup id = some data → d'.outdated data = false →
      d'.queuedResumes.lookup id = some data) : d'.Ledger := by
  have hclaims : d'.claims = d.claims := by
    funext i
    rw [claims, hhand, claims]
  refine ⟨⟨fun i => hclaims ▸ h.once i, fun x hx => ?_⟩, fun i r hr => h.ordinal i r (hresumes ▸ hr),
    fun id data hdata => ?_, fun i r hr hfree hin => ?_⟩
  · obtain ⟨o, ho, hfor⟩ := h.owner x (hhand ▸ hx)
    refine ⟨o, howner _ _ ho, ?_⟩
    rw [resumedFor, hresumes]
    exact hfor
  · rw [hresumes, hclaims]
    exact h.queued id data (hqueue id data hdata)
  · rw [hresumes] at hr
    rw [hclaims] at hfree
    exact hkept _ _ (h.kept i r hr hfree (outdated_mono hnow hin)) hin

theorem ownerOf_append {d' : Desk} (hwaits : d'.waits = d.waits ++ [wait]) (w : ℕ)
    (o : String × String) (h : d.ownerOf w = some o) : d'.ownerOf w = some o := by
  obtain ⟨wait', hwait', rfl⟩ := Option.map_eq_some_iff.mp h
  have hlt := (List.getElem?_eq_some_iff.mp hwait').1
  rw [ownerOf, hwaits, List.getElem?_append_left hlt, hwait']
  rfl

theorem ownerOf_new {d' : Desk} (wait : ResumeWait) (hwaits : d'.waits = d.waits ++ [wait]) :
    d'.ownerOf d.waits.length = some (wait.correlationId, wait.executionId) := by
  simp [ownerOf, hwaits]

/-- A poll takes what is queued for its execution. -/
theorem Ledger.poll (h : d.Ledger) (hok : d.pollOk correlationId executionId = true) :
    (d.poll correlationId executionId).Ledger := by
  unfold Desk.poll
  dsimp only
  split
  next data hdata =>
    obtain ⟨hresume, hfree⟩ := h.queued _ data hdata
    have hexec : data.executionId = executionId := by simpa [pollOk, hdata] using hok
    have hclaims := fun j => claims_append (d := d) { d with
      queuedResumes := d.queuedResumes.erase correlationId
      waits := d.waits ++ [⟨correlationId, executionId, none, d.now, true⟩]
      handovers := d.handovers ++ [(data.ordinal, d.waits.length)] } rfl j
    refine ⟨⟨fun i => ?_, fun x hx => ?_⟩, h.ordinal, fun id data' hdata' => ?_,
      fun i r hr hclaim hin => ?_⟩
    · rw [hclaims]
      have := h.once i
      split
      next hi =>
        subst hi
        omega
      next => omega
    · rcases List.mem_append.mp hx with hx | hx
      · obtain ⟨o, ho, hfor⟩ := h.owner x hx
        exact ⟨o, ownerOf_append rfl _ _ ho, hfor⟩
      · obtain rfl := List.mem_singleton.mp hx
        refine ⟨(correlationId, executionId), ownerOf_new (d := d)
          ⟨correlationId, executionId, none, d.now, true⟩ rfl, ?_⟩
        show (d.resumes[data.ordinal]?).map _ = _
        rw [hresume, ← hexec]
        rfl
    · have hdata' : (d.queuedResumes.erase correlationId).lookup id = some data' := hdata'
      rw [InsertionMap.lookup_erase] at hdata'
      split at hdata'
      next => cases hdata'
      next hid =>
        obtain ⟨hresume', hfree'⟩ := h.queued id data' hdata'
        refine ⟨hresume', ?_⟩
        rw [hclaims, if_neg, hfree']
        intro heq
        rw [heq, hresume', Option.some.injEq] at hresume
        exact hid (congrArg Prod.fst hresume)
    · rw [hclaims] at hclaim
      have hlookup := h.kept i r hr (by omega) hin
      show (d.queuedResumes.erase correlationId).lookup r.1 = some r.2
      rw [InsertionMap.lookup_erase, if_neg, hlookup]
      intro hid
      rw [hid, hdata, Option.some.injEq] at hlookup
      rw [if_pos (hlookup ▸ h.ordinal i r hr)] at hclaim
      omega
  next =>
    exact h.congr (fun w o ho => ownerOf_append rfl w o ho) rfl rfl le_rfl (fun _ _ hq => hq)
      (fun _ _ hq _ => hq)

theorem resumes_getElem? {r r' : String × QueuedResume} {i : ℕ}
    (h : (d.resumes ++ [r'])[i]? = some r) :
    (i < d.resumes.length ∧ d.resumes[i]? = some r) ∨ (i = d.resumes.length ∧ r = r') := by
  rcases Nat.lt_trichotomy i d.resumes.length with hi | rfl | hi
  · rw [List.getElem?_append_left hi] at h
    exact Or.inl ⟨hi, h⟩
  · rw [List.getElem?_concat_length, Option.some.injEq] at h
    exact Or.inr ⟨rfl, h.symm⟩
  · rw [List.getElem?_eq_none (by simp; omega)] at h
    cases h

theorem Ledger.accept (h : d.Ledger) (hR : d.Registry) (hok : d.acceptOk entry = true) :
    (d.accept entry webhookData).Ledger := by
  have hnew := h.claims_new
  have hold : ∀ x ∈ d.handovers, x.1 < d.resumes.length := fun x hx => by
    obtain ⟨o, -, ho⟩ := h.owner x hx
    exact resumedFor_lt ho
  have hfor : ∀ i o, d.resumedFor i = some o → (d.resumes ++ [(entry.correlationId,
      d.dataOf entry webhookData)])[i]?.map (fun r => (r.1, r.2.executionId)) = some o := by
    intro i o ho
    rw [List.getElem?_append_left (resumedFor_lt ho)]
    exact ho
  unfold acceptOk at hok
  split at hok
  next hnone =>
    rw [accept_queued hnone]
    refine ⟨⟨h.once, fun x hx => ?_⟩, fun i r hr => ?_, fun id data hdata => ?_,
      fun i r hr hfree hin => ?_⟩
    · obtain ⟨o, ho, ho'⟩ := h.owner x hx
      exact ⟨o, ho, hfor _ _ ho'⟩
    · rcases resumes_getElem? hr with ⟨-, hr⟩ | ⟨rfl, rfl⟩
      · exact h.ordinal i r hr
      · rfl
    · have hdata : (d.queuedResumes.set entry.correlationId (d.dataOf entry webhookData)).lookup id =
          some data := hdata
      rw [InsertionMap.lookup_set] at hdata
      split at hdata
      next hid =>
        cases hdata
        subst hid
        exact ⟨List.getElem?_concat_length, hnew⟩
      next =>
        obtain ⟨hresume, hfree⟩ := h.queued id data hdata
        have hlt := (List.getElem?_eq_some_iff.mp hresume).1
        exact ⟨(List.getElem?_append_left hlt).trans hresume, hfree⟩
    · show (d.queuedResumes.set entry.correlationId (d.dataOf entry webhookData)).lookup r.1 = some r.2
      rcases resumes_getElem? hr with ⟨-, hr⟩ | ⟨rfl, rfl⟩
      · have hlookup := h.kept i r hr hfree hin
        rw [InsertionMap.lookup_set_ne, hlookup]
        intro hid
        rw [hid] at hlookup
        rw [hlookup, Option.all_some] at hok
        exact absurd (hok.symm.trans hin) nofun
      · exact InsertionMap.lookup_set_self
  next w hone =>
    obtain ⟨waits, callbacks, haccept, hcalled⟩ := hR.accept_parked webhookData hone
    have hclaims := fun j => claims_append (d := d) (d.accept entry webhookData)
      (i := d.resumes.length) (w := w) (by rw [haccept]) j
    have howner := hcalled.owner
    have hqueue : (d.accept entry webhookData).queuedResumes = d.queuedResumes := by rw [haccept]
    have hout : ∀ data, (d.accept entry webhookData).outdated data = d.outdated data := by
      intro data
      rw [haccept]
      rfl
    have hresumes : (d.accept entry webhookData).resumes = d.resumes ++ [(entry.correlationId,
        d.dataOf entry webhookData)] := accept_resumes
    have hhand : (d.accept entry webhookData).handovers = d.handovers ++ [(d.resumes.length, w)] := by
      rw [haccept]
    refine ⟨⟨fun i => ?_, fun x hx => ?_⟩, fun i r hr => ?_, fun id data hdata => ?_,
      fun i r hr hfree hin => ?_⟩
    · rw [hclaims]
      have := h.once i
      split
      next hi =>
        subst hi
        omega
      next => omega
    · rw [resumedFor, hresumes, howner]
      rw [hhand] at hx
      rcases List.mem_append.mp hx with hx | hx
      · obtain ⟨o, ho, ho'⟩ := h.owner x hx
        exact ⟨o, ho, hfor _ _ ho'⟩
      · obtain rfl := List.mem_singleton.mp hx
        refine ⟨(entry.correlationId, entry.executionId), beq_iff_eq.mp hok, ?_⟩
        rw [List.getElem?_concat_length]
        rfl
    · rw [hresumes] at hr
      rcases resumes_getElem? hr with ⟨-, hr⟩ | ⟨rfl, rfl⟩
      · exact h.ordinal i r hr
      · rfl
    · rw [hqueue] at hdata
      obtain ⟨hresume, hfree⟩ := h.queued id data hdata
      have hlt := (List.getElem?_eq_some_iff.mp hresume).1
      refine ⟨?_, ?_⟩
      · rw [hresumes, List.getElem?_append_left hlt, hresume]
      · rw [hclaims, hfree, if_neg (Nat.ne_of_gt hlt)]
    · rw [hresumes] at hr
      rw [hclaims] at hfree
      rw [hqueue]
      rcases resumes_getElem? hr with ⟨-, hr⟩ | ⟨rfl, rfl⟩
      · exact h.kept i r hr (by omega) (hout _ ▸ hin)
      · rw [if_pos rfl] at hfree
        omega
  next => cases hok

theorem Paused.congr {d' : Desk} (h : d.Paused)
    (howner : ∀ w o, d.ownerOf w = some o → d'.ownerOf w = some o)
    (hpaused : ∀ key w, d'.callbacks.lookup key = some w → d.callbacks.lookup key = some w) :
    d'.Paused := by
  intro key w hkey
  obtain ⟨e, he⟩ := h key w (hpaused key w hkey)
  exact ⟨e, howner w _ he⟩

/-! ### All of it, for each step -/

structure Inv (d : Desk) : Prop where
  registry : d.Registry
  ledger : d.Ledger
  paused : d.Paused

/-- A step with no new resume and no new wait has nothing to deliver. -/
theorem delivers_of_same {d' : Desk} (hresumes : d'.resumes = d.resumes)
    (hwaits : d'.waits.length = d.waits.length) : Delivers d d' := by
  constructor
  · intro r hr
    have hlen := congrArg List.length (hresumes.symm.trans hr)
    simp at hlen
  · intro wait hwait
    rw [hwait] at hwaits
    simp at hwaits

theorem Inv.accept (h : d.Inv) (hok : d.acceptOk entry = true) :
    (d.accept entry webhookData).Inv ∧ Delivers d (d.accept entry webhookData) := by
  have hcalled : ∀ w, d.waitersOf entry.correlationId = [w] →
      Called d (d.accept entry webhookData) w := fun w hone => by
    obtain ⟨_, _, -, hcalled⟩ := h.registry.accept_parked webhookData hone
    exact hcalled
  have hwaits : (d.accept entry webhookData).Paused ∧
      (d.accept entry webhookData).waits.length = d.waits.length := by
    have hok := hok
    unfold acceptOk at hok
    split at hok
    next hnone =>
      rw [accept_queued hnone]
      exact ⟨h.paused, rfl⟩
    next w hone =>
      exact ⟨h.paused.congr (fun w' o ho => ((hcalled w hone).owner w').trans ho)
        (hcalled w hone).paused, (hcalled w hone).length⟩
    next => cases hok
  refine ⟨⟨h.registry.accept hok, h.ledger.accept h.registry hok, hwaits.1⟩, ?_, ?_⟩
  · intro r hr w hw _
    have hr := List.append_cancel_left (accept_resumes.symm.trans hr)
    obtain rfl : (entry.correlationId, d.dataOf entry webhookData) = r := by simpa using hr
    unfold acceptOk at hok
    split at hok
    next hnone => simp [hnone] at hw
    next w' hone =>
      obtain rfl : w = w' := by simpa [hone] using hw
      obtain ⟨_, _, haccept, -⟩ := h.registry.accept_parked webhookData hone
      refine ⟨w, le_rfl, ?_⟩
      rw [haccept]
      exact List.mem_append_right _ (List.mem_singleton_self _)
    next => cases hok
  · intro wait hwait
    have hlen := hwaits.2
    rw [hwait] at hlen
    simp at hlen

theorem Inv.poll (h : d.Inv) (hok : d.pollOk correlationId executionId = true) :
    (d.poll correlationId executionId).Inv ∧ Delivers d (d.poll correlationId executionId) := by
  have hcallbacks : (d.poll correlationId executionId).callbacks = d.callbacks := by
    unfold Desk.poll
    dsimp only
    split <;> rfl
  have hresumes : (d.poll correlationId executionId).resumes = d.resumes := by
    unfold Desk.poll
    dsimp only
    split <;> rfl
  have hwaits : ∃ settled, (d.poll correlationId executionId).waits =
      d.waits ++ [⟨correlationId, executionId, none, d.now, settled⟩] := by
    unfold Desk.poll
    dsimp only
    split <;> exact ⟨_, rfl⟩
  obtain ⟨settled, hwaits⟩ := hwaits
  refine ⟨⟨h.registry.poll, h.ledger.poll hok,
    h.paused.congr (ownerOf_append hwaits) (fun key w hkey => hcallbacks ▸ hkey)⟩, ?_, ?_⟩
  · intro r hr
    have hlen := congrArg List.length (hresumes.symm.trans hr)
    simp at hlen
  · intro wait hwait i r hr howner hfree hin
    have hwait := List.append_cancel_left (hwaits.symm.trans hwait)
    obtain rfl : ⟨correlationId, executionId, none, d.now, settled⟩ = wait := by simpa using hwait
    have hlookup := h.ledger.kept i r hr hfree hin
    have hid : r.1 = correlationId := congrArg Prod.fst howner
    rw [hid] at hlookup
    have hordinal := h.ledger.ordinal i r hr
    unfold Desk.poll
    dsimp only
    rw [hlookup]
    subst hordinal
    exact List.mem_append_right _ (List.mem_singleton_self _)

theorem Inv.bridgePause (h : d.Inv) (hfree : d.callbacks.lookup (b, correlationId) = none)
    (hok : d.bridgeOk correlationId executionId = true) :
    (d.bridgePause b correlationId executionId).Inv ∧
      Delivers d (d.bridgePause b correlationId executionId) := by
  have hwaits : (d.bridgePause b correlationId executionId).waits =
      d.waits ++ [⟨correlationId, executionId, some b, d.now, false⟩] := rfl
  refine ⟨⟨h.registry.bridgePause hfree, ?_, ?_⟩, ?_, ?_⟩
  · exact h.ledger.congr (ownerOf_append hwaits) rfl rfl le_rfl (fun _ _ hq => hq)
      (fun _ _ hq _ => hq)
  · intro key w hkey
    have hkey : (d.callbacks.set (b, correlationId) d.waits.length).lookup key = some w := hkey
    rw [InsertionMap.lookup_set] at hkey
    split at hkey
    next heq =>
      cases hkey
      subst heq
      exact ⟨executionId, ownerOf_new _ hwaits⟩
    next =>
      obtain ⟨e, he⟩ := h.paused key w hkey
      exact ⟨e, ownerOf_append hwaits w _ he⟩
  · intro r hr
    have hlen := congrArg List.length hr
    simp [Desk.bridgePause, registerResumeWaiter] at hlen
  · intro wait hwait i r hr howner hclaim hin
    have hwait := List.append_cancel_left (hwaits.symm.trans hwait)
    obtain rfl : ⟨correlationId, executionId, some b, d.now, false⟩ = wait := by simpa using hwait
    have hlookup := h.ledger.kept i r hr hclaim hin
    have hid : r.1 = correlationId := congrArg Prod.fst howner
    have hexec : r.2.executionId = executionId := congrArg Prod.snd howner
    rw [hid] at hlookup
    simp [bridgeOk, hlookup, hin, hexec] at hok

theorem Inv.leave (h : d.Inv) : (d.leave w).Inv ∧ Delivers d (d.leave w) := by
  have hsame : (d.leave w).callbacks = d.callbacks ∧ (d.leave w).resumes = d.resumes ∧
      (d.leave w).handovers = d.handovers ∧ (d.leave w).now = d.now ∧
      (d.leave w).queuedResumes = d.queuedResumes ∧
      (d.leave w).waits.length = d.waits.length ∧ (∀ w', (d.leave w).ownerOf w' = d.ownerOf w') := by
    unfold Desk.leave
    split
    next wait hwait =>
      split
      next => simp
      next =>
        obtain ⟨waiters, hsame⟩ := deregisterResumeWaiter_eq
          { d with waits := d.waits.set w { wait with settled := true } } w wait.correlationId
        rw [hsame]
        refine ⟨rfl, rfl, rfl, rfl, rfl, List.length_set, fun w' => ?_⟩
        show ((d.waits.set w { wait with settled := true })[w']?).map _ = (d.waits[w']?).map _
        by_cases hw : w' = w
        · subst hw
          have hlt := (List.getElem?_eq_some_iff.mp hwait).1
          rw [List.getElem?_set_self hlt, hwait]
          rfl
        · rw [List.getElem?_set_ne (Ne.symm hw)]
    next => simp
  obtain ⟨hcallbacks, hresumes, hhand, hnow, hqueue, hlen, howner⟩ := hsame
  have howner := fun w' o (ho : d.ownerOf w' = some o) => (howner w').trans ho
  exact ⟨⟨h.registry.leave, h.ledger.congr howner hresumes hhand hnow.ge
    (fun _ _ hq => hqueue ▸ hq) (fun _ _ hq _ => hqueue ▸ hq),
    h.paused.congr howner (fun _ _ hkey => hcallbacks ▸ hkey)⟩, delivers_of_same hresumes hlen⟩

theorem Inv.bridgeLeave (h : d.Inv) (hpaused : d.callbacks.lookup (b, correlationId) = some w) :
    (d.bridgeLeave b correlationId w).Inv ∧ Delivers d (d.bridgeLeave b correlationId w) := by
  obtain ⟨e, he⟩ := h.paused _ w hpaused
  obtain ⟨wait, hwait, hown⟩ := Option.map_eq_some_iff.mp he
  have hid : wait.correlationId = correlationId := congrArg Prod.fst hown
  have hregistry := h.registry.bridgeLeave hpaused hwait hid
  obtain ⟨waiters, hsame⟩ := deregisterResumeWaiter_eq
    { d with callbacks := d.callbacks.erase (b, correlationId) } w correlationId
  rw [Desk.bridgeLeave, hsame] at hregistry ⊢
  exact ⟨⟨hregistry, h.ledger.congr (fun _ _ ho => ho) rfl rfl le_rfl (fun _ _ hq => hq)
    (fun _ _ hq _ => hq), h.paused.congr (fun _ _ ho => ho) (fun _ _ hkey => lookup_of_erase hkey)⟩,
    delivers_of_same rfl rfl⟩

theorem Inv.cleanupResumeQueue (h : d.Inv) :
    d.cleanupResumeQueue.Inv ∧ Delivers d d.cleanupResumeQueue := by
  have hlookup : ∀ id, d.cleanupResumeQueue.queuedResumes.lookup id =
      (d.queuedResumes.lookup id).filter fun data => !d.outdated data :=
    fun id => InsertionMap.lookup_filter _
  refine ⟨⟨⟨h.registry.nodup, h.registry.parked⟩, ?_, h.paused⟩, delivers_of_same rfl rfl⟩
  refine h.ledger.congr (fun _ _ ho => ho) rfl rfl le_rfl (fun id data hq => ?_)
    (fun id data hq hin => ?_)
  · rw [hlookup] at hq
    exact (Option.filter_eq_some_iff.mp hq).1
  · have hin : d.outdated data = false := hin
    rw [hlookup, hq]
    simp [Option.filter_some, hin]

theorem Inv.tick (h : d.Inv) {ms : ℚ} (hms : 0 ≤ ms) :
    Inv { d with now := d.now + ms } ∧ Delivers d { d with now := d.now + ms } :=
  ⟨⟨⟨h.registry.nodup, h.registry.parked⟩, h.ledger.congr (fun _ _ ho => ho) rfl rfl
    (le_add_of_nonneg_right hms) (fun _ _ hq => hq) (fun _ _ hq _ => hq), h.paused⟩,
    delivers_of_same rfl rfl⟩

end Steps

theorem inv_initial : Inv Server.initial.toDesk where
  registry := ⟨fun _ => List.nodup_nil, nofun⟩
  ledger := ⟨⟨fun _ => Nat.zero_le _, nofun⟩, nofun, nofun, nofun⟩
  paused := nofun

end Desk

/-! ## Runs of the server -/

/-- The entry that a callback is going to resume. -/
def acceptedByCallback (c : HandlerConfig) (req : CallbackRequest) (s : Server) :
    Option ServerPausedEntry :=
  (s.callbackMatch req).filter fun entry =>
    (gate c req).isNone && (tokenError c req entry.correlationId).isNone &&
      (preValidateWebhook c req.payload entry.webhookFilter).isNone

/-- Whoever waits under an id, when it is resumed or a wait arrives, is of the execution
that the entry or the queued data is for. -/
def ownWaits (c : HandlerConfig) : ServerEvent → Server → Bool
  | .resume correlationId _, s => correlationId == "" || (s.store.lookup correlationId).all s.acceptOk
  | .callback req, s => (acceptedByCallback c req s).all s.acceptOk
  | .kafka m, s => (s.kafkaMatch c m).all s.acceptOk
  | .poll correlationId executionId, s => s.pollOk correlationId executionId
  | .bridgePause b req, s =>
      (s.callbacks.lookup (b, req.correlationId)).isSome ||
        s.bridgeOk req.correlationId (c.executionId b)
  | _, _ => true

/-- What holds of the server as its events come. -/
structure Owning (s : Server) : Prop where
  keyed : Keyed s.store
  desk : s.toDesk.Inv

theorem owning_initial : Owning Server.initial where
  keyed := fun _ _ he => by cases he
  desk := Desk.inv_initial

section Server

variable {c : HandlerConfig} {req : CallbackRequest} {m : KafkaResumeMessage} {s s' : Server}

open Desk (Delivers)

theorem callback_delivers (h : Owning s) (hok : ownWaits c (.callback req) s = true) :
    (callback c req s).1.toDesk.Inv ∧ Delivers s.toDesk (callback c req s).1.toDesk := by
  have hcase := callbackCase c req h.keyed
  generalize callback c req s = result at hcase ⊢
  have hsame := And.intro h.desk (Desk.delivers_of_same (d := s.toDesk) rfl rfl)
  cases hcase with
  | blocked => exact hsame
  | unmatched => exact hsame
  | badToken => exact hsame
  | rejected => exact hsame
  | resumed hgate hmatch htoken hpre =>
      refine h.desk.accept ?_
      simpa [ownWaits, acceptedByCallback, hmatch, Option.filter_some, hgate, htoken, hpre] using hok

theorem kafka_delivers (h : Owning s) (hok : ownWaits c (.kafka m) s = true) :
    (dispatchKafkaResumeMessage c m s).1.toDesk.Inv ∧
      Delivers s.toDesk (dispatchKafkaResumeMessage c m s).1.toDesk := by
  have hcase := kafkaCase (c := c) (m := m) h.keyed
  generalize dispatchKafkaResumeMessage c m s = result at hcase ⊢
  cases hcase with
  | unmatched => exact ⟨h.desk, Desk.delivers_of_same rfl rfl⟩
  | resumed hmatch =>
      refine h.desk.accept ?_
      simpa [ownWaits, hmatch] using hok

/-- The step lemma: one event at a time. -/
theorem Owning.step {ev : ServerEvent} (h : Owning s) (hok : ownWaits c ev s = true)
    (hnext : serverNext c ev s = some s') : Owning s' ∧ Delivers s.toDesk s'.toDesk := by
  have hsame := And.intro h.desk (Desk.delivers_of_same (d := s.toDesk) rfl rfl)
  suffices hdesk : s'.toDesk.Inv ∧ Delivers s.toDesk s'.toDesk from
    ⟨⟨h.keyed.step hnext, hdesk.1⟩, hdesk.2⟩
  cases ev with
  | pause req =>
      cases hnext
      unfold Server.pause
      split <;> exact hsame
  | resume correlationId webhookData =>
      cases hnext
      unfold Server.resume
      split
      next => exact hsame
      next hne =>
        split
        next entry hentry =>
          refine h.desk.accept ?_
          simpa [ownWaits, hne, hentry] using hok
        next => exact hsame
  | cancel correlationId =>
      cases hnext
      exact hsame
  | callback req =>
      cases hnext
      exact callback_delivers h hok
  | kafka m =>
      cases hnext
      exact kafka_delivers h hok
  | poll correlationId executionId =>
      cases hnext
      exact h.desk.poll hok
  | leave w =>
      cases hnext
      exact h.desk.leave
  | bridgePause b req =>
      cases hnext
      unfold Server.bridgePause
      split
      next => exact hsame
      next hfree =>
        rw [ownWaits, Bool.or_eq_true] at hok
        exact h.desk.bridgePause (Option.not_isSome_iff_eq_none.mp hfree) (hok.resolve_left hfree)
  | bridgeLeave b correlationId =>
      cases hnext
      unfold Server.bridgeLeave
      split
      next w hpaused => exact h.desk.bridgeLeave hpaused
      next => exact hsame
  | cleanup =>
      cases hnext
      exact hsame
  | cleanupResumeQueue =>
      cases hnext
      exact h.desk.cleanupResumeQueue
  | tick ms =>
      obtain ⟨hms, h'⟩ := Option.ite_none_right_eq_some.mp hnext
      cases h'
      exact h.desk.tick hms

end Server

/-- **Each resume goes to its own execution, if nobody else waits under the id.**  In every
run in which each wait that a resume calls, and each poll that takes queued data, is of the
execution of the entry, one such wait is called at a time, no data in time is replaced in
the queue, and no bridge pauses while data for it is queued: the data of each accepted
resume is handed to at most one wait, of the execution whose entry was removed; and each
step hands it to the first such wait that is parked, or that arrives in time. -/
theorem resumes_own_wait (c : HandlerConfig) (evs : List ServerEvent) (s : Server)
    (hrun : exec (serverNext c) Server.initial evs = some s)
    (hok : AllSteps (serverNext c) (fun ev s => ownWaits c ev s = true) Server.initial evs) :
    s.toDesk.Owned ∧
      AllSteps (serverNext c) (fun ev s => ∀ s', serverNext c ev s = some s' →
        Desk.Delivers s.toDesk s'.toDesk) Server.initial evs := by
  have hkept : ∀ ev s s', Owning s → ownWaits c ev s = true → serverNext c ev s = some s' →
      Owning s' := fun _ _ _ h hok hnext => (h.step hok hnext).1
  have hend := exec_invariant hkept owning_initial hok hrun
  refine ⟨hend.desk.ledger.toOwned, allSteps_of_invariant hkept (fun ev s h hok s' hnext => ?_)
    owning_initial hok⟩
  exact (h.step hok hnext).2

/-! ### An id that is used again -/

/-- The same wait, of another execution. -/
def laterWait : PauseRequest := { paymentWait with executionId := "run-2" }

/-- Parked data of the one and queued data of the other, each taken by its own poll. -/
def takenInTurn : List ServerEvent :=
  [.pause paymentWait, .poll "order-7" "run-1", .resume "order-7" refund,
    .pause laterWait, .resume "order-7" refund, .tick 1000, .poll "order-7" "run-2"]

theorem resumes_own_wait_takenInTurn :
    ∃ s, exec (serverNext paymentServer) Server.initial takenInTurn = some s ∧
      s.handovers = [(0, 0), (1, 1)] ∧ s.toDesk.Owned := by
  obtain ⟨s, hrun, hhand⟩ :
      ∃ s, exec (serverNext paymentServer) Server.initial takenInTurn = some s ∧
        s.handovers = [(0, 0), (1, 1)] := exists_exec (by decide)
  exact ⟨s, hrun, hhand,
    (resumes_own_wait paymentServer takenInTurn s hrun (by decide)).1⟩

/-- The entry of the first execution is resumed while none of its polls is parked; the
second execution pauses under the id, polls, and is given the data at once.  And two polls
that are parked under one id are both given the data of one resume. -/
theorem reused_id_takes_data :
    (∃ s, exec (serverNext paymentServer) Server.initial
        [.pause paymentWait, .resume "order-7" refund, .pause laterWait,
          .poll "order-7" "run-2"] = some s ∧
      (s.store.lookup "order-7").map ServerPausedEntry.executionId = some "run-2" ∧
      s.handovers = [(0, 0)] ∧ s.resumedFor 0 = some ("order-7", "run-1") ∧
      s.ownerOf 0 = some ("order-7", "run-2")) ∧
    ∃ s, exec (serverNext paymentServer) Server.initial
        [.pause paymentWait, .poll "order-7" "run-1", .poll "order-7" "run-2",
          .resume "order-7" refund] = some s ∧
      s.claims 0 = 2 ∧ s.ownerOf 1 = some ("order-7", "run-2") :=
  ⟨exists_exec (by decide), exists_exec (by decide)⟩

end RedFireForge.Correlation
