/-
# `RedFireForge.Grpc.TauriEventBuffer` — native events and the buffer that is to put them in order

Events of a tab come over one channel; the adapter takes those of its stream and hands each to a
buffer that is to hold back what comes too early.  But where nothing can be released the buffer goes
forward to the earliest event it has, which is the one just put in: so it never holds anything, and
lets through exactly the events that are later than all before them.
-/
import RedFireForge.Grpc.StreamDelivery
import RedFireForge.Lib.InsertionMap

namespace RedFireForge.Grpc.TauriEvents

open RedFireForge.Lib
open RedFireForge.Grpc.Delivery (shouldAcceptGrpcStreamSequence)

variable {β : Type*}

/-! ## Events -/

/-- `rest` is what is only handed on. -/
structure GrpcTauriEvent (β : Type*) where
  schemaVersion : ℕ
  streamId : String
  tabId : String
  requestId : String
  sequence : ℕ
  rest : β
deriving DecidableEq, Repr

structure StreamEvent (β : Type*) where
  streamId : String
  tabId : String
  requestId : String
  sequence : ℕ
  rest : β
deriving DecidableEq, Repr

/-- `GRPC_TAURI_SCHEMA_VERSION` -/
def tauriSchemaVersion : ℕ := 1

/-- `GRPC_TAURI_EVENT_REORDER_BUFFER` -/
def tauriEventReorderBuffer : ℕ := 16

def normalizeGrpcTauriEvent (event : GrpcTauriEvent β) : Option (StreamEvent β) :=
  if event.schemaVersion ≠ tauriSchemaVersion then none
  else some ⟨event.streamId, event.tabId, event.requestId, event.sequence, event.rest⟩

structure AdapterOptions where
  tabId : String
  streamId : String
  requestId : Option String
deriving DecidableEq, Repr

def ofStream (options : AdapterOptions) (event : GrpcTauriEvent β) : Bool :=
  event.streamId == options.streamId && event.tabId == options.tabId &&
    (options.requestId.all fun requestId => requestId == "" || event.requestId == requestId)

def shouldAcceptGrpcTauriEventForStream (options : AdapterOptions) (event : GrpcTauriEvent β) (lastSequence : ℕ) : Bool :=
  ofStream options event && shouldAcceptGrpcStreamSequence event.sequence lastSequence

/-! ## The buffer -/

/-- `GrpcTauriEventSequenceBuffer` -/
structure SequenceBuffer (β : Type*) where
  lastSequence : ℕ
  pending : InsertionMap ℕ (StreamEvent β)

namespace SequenceBuffer

/-- The loop that takes the next event as long as there is one; each turn takes one off. -/
def releaseFuel : ℕ → SequenceBuffer β → List (StreamEvent β) × SequenceBuffer β
  | 0, b => ([], b)
  | fuel + 1, b =>
      match b.pending.lookup (b.lastSequence + 1) with
      | none => ([], b)
      | some event =>
          let (released, b') := releaseFuel fuel ⟨event.sequence, b.pending.erase (b.lastSequence + 1)⟩
          (event :: released, b')

def release (b : SequenceBuffer β) : List (StreamEvent β) × SequenceBuffer β := releaseFuel b.pending.keys.length b

/-- The earliest events that are too many go. -/
def trim (b : SequenceBuffer β) : SequenceBuffer β :=
  if tauriEventReorderBuffer < b.pending.keys.length then
    let overflow := b.pending.keys.mergeSort (· ≤ ·)
    { b with pending := (overflow.take (overflow.length - tauriEventReorderBuffer)).foldl (fun m k => m.erase k) b.pending }
  else b

def accept (b : SequenceBuffer β) (event : StreamEvent β) : List (StreamEvent β) × SequenceBuffer β :=
  if shouldAcceptGrpcStreamSequence event.sequence b.lastSequence = false then ([], b)
  else
    let (released, b₁) := release { b with pending := b.pending.set event.sequence event }
    let (released, b₂) :=
      match released, b₁.pending.keys.min? with
      | [], some earliestPending =>
          if b₁.lastSequence + 1 < earliestPending then release { b₁ with lastSequence := earliestPending - 1 }
          else ([], b₁)
      | released, _ => (released, b₁)
    (released, b₂.trim)

end SequenceBuffer

/-! ## The listener -/

/-- What the listener does with an event of the channel: it reports a version it does not know, or
hands on what the buffer releases. -/
inductive Heard (β : Type*)
  | handed (event : StreamEvent β)
  | mismatch
deriving DecidableEq, Repr

def listen (options : AdapterOptions) (b : SequenceBuffer β) (raw : GrpcTauriEvent β) : List (Heard β) × SequenceBuffer β :=
  if shouldAcceptGrpcTauriEventForStream options raw b.lastSequence = false then ([], b)
  else
    match normalizeGrpcTauriEvent raw with
    | none => ([.mismatch], b)
    | some event => ((b.accept event).1.map .handed, (b.accept event).2)

def listenAll (options : AdapterOptions) : SequenceBuffer β → List (GrpcTauriEvent β) → List (Heard β) × SequenceBuffer β
  | b, [] => ([], b)
  | b, raw :: raws =>
      let (heard, b') := listen options b raw
      let (heard', b'') := listenAll options b' raws
      (heard ++ heard', b'')

/-- What reaches the session. -/
def handed (heard : List (Heard β)) : List (StreamEvent β) :=
  heard.filterMap fun
    | .handed event => some event
    | .mismatch => none

/-- The events of the stream, as far as their version is known. -/
def wanted (options : AdapterOptions) (raws : List (GrpcTauriEvent β)) : List (StreamEvent β) :=
  (raws.filter (ofStream options)).filterMap normalizeGrpcTauriEvent

/-! ## What is later than all before it -/

section Records

variable {α : Type*} {f : α → ℕ}

def records (f : α → ℕ) : ℕ → List α → List α
  | _, [] => []
  | last, x :: xs => if last < f x then x :: records f (f x) xs else records f last xs

theorem records_sublist (last : ℕ) (xs : List α) : (records f last xs).Sublist xs := by
  induction xs generalizing last with
  | nil => exact List.Sublist.refl _
  | cons x xs ih =>
      rw [records]
      split
      next => exact (ih _).cons_cons x
      next => exact (ih _).cons x

/-- All are records if each is later than the one before it. -/
theorem records_eq_self_iff (last : ℕ) (xs : List α) : records f last xs = xs ↔ (last :: xs.map f).IsChain (· < ·) := by
  induction xs generalizing last with
  | nil => exact iff_of_true rfl (.singleton last)
  | cons x xs ih =>
      rw [records, List.map_cons, List.isChain_cons_cons]
      split
      next hlt => rw [List.cons.injEq, and_iff_right rfl, ih, and_iff_right hlt]
      next hle =>
        refine iff_of_false (fun heq => ?_) fun h => hle h.1
        have hlength := (records_sublist (f := f) last xs).length_le
        rw [heq, List.length_cons] at hlength
        omega

end Records

theorem normalize_sequence {raw : GrpcTauriEvent β} {event : StreamEvent β} (h : normalizeGrpcTauriEvent raw = some event) :
    event.sequence = raw.sequence := by
  rw [normalizeGrpcTauriEvent] at h
  split at h
  next => cases h
  next =>
    cases h
    rfl

namespace SequenceBuffer

variable {last : ℕ} {event : StreamEvent β}

/-- A buffer that holds the next event and no other. -/
theorem release_next (h : event.sequence = last + 1) :
    release ⟨last, (∅ : InsertionMap ℕ (StreamEvent β)).set event.sequence event⟩ = ([event], ⟨event.sequence, ∅⟩) := by
  have hkeys : ((∅ : InsertionMap ℕ (StreamEvent β)).set event.sequence event).keys = [event.sequence] := rfl
  have hlookup : ((∅ : InsertionMap ℕ (StreamEvent β)).set event.sequence event).lookup (last + 1) = some event := by
    rw [← h, InsertionMap.lookup_set_self]
  have herase : ((∅ : InsertionMap ℕ (StreamEvent β)).set event.sequence event).erase (last + 1) = ∅ := by
    rw [← h]
    refine AList.ext ?_
    exact List.kerase_cons_eq (s := (⟨event.sequence, event⟩ : (_ : ℕ) × StreamEvent β)) rfl
  rw [release, hkeys]
  show releaseFuel 1 _ = _
  rw [releaseFuel]
  simp only [hlookup, herase, releaseFuel]

/-- A buffer that holds one event, and not the next. -/
theorem release_later (h : event.sequence ≠ last + 1) :
    release ⟨last, (∅ : InsertionMap ℕ (StreamEvent β)).set event.sequence event⟩ =
      ([], ⟨last, (∅ : InsertionMap ℕ (StreamEvent β)).set event.sequence event⟩) := by
  have hkeys : ((∅ : InsertionMap ℕ (StreamEvent β)).set event.sequence event).keys = [event.sequence] := rfl
  have hlookup : ((∅ : InsertionMap ℕ (StreamEvent β)).set event.sequence event).lookup (last + 1) = none := by
    rw [InsertionMap.lookup_set_ne h.symm]
    rfl
  rw [release, hkeys]
  show releaseFuel 1 _ = _
  rw [releaseFuel]
  simp only [hlookup]

/-- **Nothing is held back.** -/
theorem accept_empty (h : last < event.sequence) :
    accept ⟨last, ∅⟩ event = ([event], ⟨event.sequence, ∅⟩) := by
  have haccept : ¬ shouldAcceptGrpcStreamSequence event.sequence last = false := by
    rw [shouldAcceptGrpcStreamSequence, decide_eq_false_iff_not]
    exact not_not.mpr h
  rw [accept, if_neg haccept]
  by_cases hnext : event.sequence = last + 1
  · simp only [release_next hnext]
    rfl
  · have hkeys : ((∅ : InsertionMap ℕ (StreamEvent β)).set event.sequence event).keys.min? = some event.sequence := rfl
    have hgap : last + 1 < event.sequence := by omega
    have hforward : event.sequence = event.sequence - 1 + 1 := by omega
    simp only [release_later hnext, hkeys, if_pos hgap, release_next hforward]
    rfl

end SequenceBuffer

theorem listen_old {options : AdapterOptions} {raw : GrpcTauriEvent β} {last : ℕ}
    (h : ¬ (ofStream options raw = true ∧ last < raw.sequence)) : listen options ⟨last, ∅⟩ raw = ([], ⟨last, ∅⟩) := by
  rw [listen, if_pos]
  rw [shouldAcceptGrpcTauriEventForStream, Bool.and_eq_false_iff]
  by_cases hof : ofStream options raw = true
  · exact .inr (decide_eq_false fun hlt => h ⟨hof, hlt⟩)
  · exact .inl (eq_false_of_ne_true hof)

theorem listen_new {options : AdapterOptions} {raw : GrpcTauriEvent β} {last : ℕ}
    (h : ofStream options raw = true ∧ last < raw.sequence) : listen options ⟨last, ∅⟩ raw =
      ((normalizeGrpcTauriEvent raw).elim ([.mismatch], ⟨last, ∅⟩) fun event => ([.handed event], ⟨event.sequence, ∅⟩)) := by
  have haccept : ¬ shouldAcceptGrpcTauriEventForStream options raw last = false := by
    rw [shouldAcceptGrpcTauriEventForStream, h.1, Bool.true_and, shouldAcceptGrpcStreamSequence, decide_eq_false_iff_not]
    exact not_not.mpr h.2
  rw [listen, if_neg haccept]
  cases hevent : normalizeGrpcTauriEvent raw with
  | none => rfl
  | some event =>
      have hlater : last < event.sequence := by
        rw [normalize_sequence hevent]
        exact h.2
      have haccepted := SequenceBuffer.accept_empty hlater
      simp only [haccepted]
      rfl

/-- **The buffer never holds anything, and events that come out of order are lost.**  What reaches
the session are the events of the stream that are later than all that came before them; all of
them do exactly if each comes after the one that it follows. -/
theorem listened (options : AdapterOptions) (last : ℕ) (raws : List (GrpcTauriEvent β)) :
    (listenAll options ⟨last, ∅⟩ raws).2.pending = ∅ ∧
      handed (listenAll options ⟨last, ∅⟩ raws).1 = records StreamEvent.sequence last (wanted options raws) ∧
      (handed (listenAll options ⟨last, ∅⟩ raws).1 = wanted options raws ↔
        (last :: (wanted options raws).map StreamEvent.sequence).IsChain (· < ·)) := by
  have hrecords : ∀ last, (listenAll options ⟨last, ∅⟩ raws).2.pending = ∅ ∧
      handed (listenAll options ⟨last, ∅⟩ raws).1 = records StreamEvent.sequence last (wanted options raws) := by
    induction raws with
    | nil => exact fun last => ⟨rfl, rfl⟩
    | cons raw raws ih =>
        intro last
        rw [listenAll]
        by_cases hof : ofStream options raw = true
        · rw [wanted, List.filter_cons_of_pos hof]
          cases hevent : normalizeGrpcTauriEvent raw with
          | none =>
              rw [List.filterMap_cons_none hevent]
              by_cases hlt : last < raw.sequence
              · rw [listen_new ⟨hof, hlt⟩, hevent]
                exact ih last
              · rw [listen_old fun h => hlt h.2]
                exact ih last
          | some event =>
              have hsequence := normalize_sequence hevent
              rw [List.filterMap_cons_some hevent, records]
              by_cases hlt : last < raw.sequence
              · rw [listen_new ⟨hof, hlt⟩, hevent, if_pos (hsequence ▸ hlt)]
                exact ⟨(ih event.sequence).1, congrArg (event :: ·) (ih event.sequence).2⟩
              · rw [listen_old fun h => hlt h.2, if_neg (hsequence ▸ hlt)]
                exact ih last
        · rw [wanted, List.filter_cons_of_neg hof, listen_old fun h => hof h.1]
          exact ih last
  refine ⟨(hrecords last).1, (hrecords last).2, ?_⟩
  rw [(hrecords last).2]
  exact records_eq_self_iff last (wanted options raws)

/-- The second event overtakes the first. -/
example : (handed (listenAll ⟨"tab", "stream", none⟩ ⟨0, ∅⟩
    [⟨1, "stream", "tab", "r", 2, 'b'⟩, ⟨1, "stream", "tab", "r", 1, 'a'⟩, ⟨1, "stream", "tab", "r", 3, 'c'⟩]).1).map
      (·.rest) = ['b', 'c'] := by decide

end RedFireForge.Grpc.TauriEvents
