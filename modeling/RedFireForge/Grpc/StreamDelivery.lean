/-
# `RedFireForge.Grpc.StreamDelivery` — the events of a stream, from the server's log to the tab's

The server numbers the events of a stream, keeps the latest in a log and writes each to the
responses that are open.  A tab that has lost its response asks anew, with the number of the last
message it has, and what the log still holds after that number is written first.  Each message is
taken once and in order, whatever the order of the steps; and none is left out while the log still
held it when it was asked for.
-/
import Mathlib.Data.List.Infix
import RedFireForge.Grpc.StreamRegistry
import RedFireForge.Lib.Run

namespace RedFireForge.Grpc.Delivery

open RedFireForge.Lib

/-! ## Events and what the tab shows of them -/

inductive GrpcStreamEventType
  | grpcMessage | grpcEnd | grpcError | grpcHeartbeat
deriving DecidableEq, Repr

inductive GrpcStreamMessageDirection
  | inbound | outbound
deriving DecidableEq, Repr

/-- Of an event, what decides whether it is shown; all events are of one stream. -/
structure GrpcStreamEvent (δ : Type*) where
  type : GrpcStreamEventType
  sequence : ℕ
  direction : Option GrpcStreamMessageDirection
  data : Option δ
deriving DecidableEq, Repr

structure GrpcStreamLogEntry (δ : Type*) where
  sequence : ℕ
  direction : GrpcStreamMessageDirection
  data : δ
deriving DecidableEq, Repr

variable {δ : Type*}

/-- `GRPC_STREAM_MESSAGE_CAP` -/
def streamMessageCap : ℕ := 10000

def GrpcStreamEvent.isTerminal (event : GrpcStreamEvent δ) : Bool :=
  event.type == .grpcEnd || event.type == .grpcError

def shouldAcceptGrpcStreamSequence (sequence lastSequence : ℕ) : Bool := decide (lastSequence < sequence)

def grpcStreamEventToLogEntry (event : GrpcStreamEvent δ) : Option (GrpcStreamLogEntry δ) :=
  if event.type ≠ .grpcMessage then none
  else event.direction.bind fun direction => event.data.map fun data => ⟨event.sequence, direction, data⟩

def appendGrpcStreamLogEntry (messages : List (GrpcStreamLogEntry δ)) (entry : GrpcStreamLogEntry δ)
    (lastSequence : ℕ) : Option (List (GrpcStreamLogEntry δ) × ℕ) :=
  if shouldAcceptGrpcStreamSequence entry.sequence lastSequence = false then none
  else
    let next := messages ++ [entry]
    let trimmed := if streamMessageCap < next.length then next.drop (next.length - streamMessageCap) else next
    some (trimmed, entry.sequence)

/-! ## The tab -/

inductive StreamLifecycle
  | streaming | ended | error
deriving DecidableEq, Repr

structure Session (δ : Type*) where
  streamMessages : List (GrpcStreamLogEntry δ)
  lastSequence : ℕ
  streamLifecycle : StreamLifecycle
deriving DecidableEq, Repr

namespace Session

def append (s : Session δ) (entry : GrpcStreamLogEntry δ) : Session δ :=
  match appendGrpcStreamLogEntry s.streamMessages entry s.lastSequence with
  | none => s
  | some (messages, lastSequence) => { s with streamMessages := messages, lastSequence := lastSequence }

def applyStreamEvent (s : Session δ) (event : GrpcStreamEvent δ) : Session δ :=
  if s.streamLifecycle ≠ .streaming then s
  else
    match event.type with
    | .grpcMessage =>
        match grpcStreamEventToLogEntry event with
        | none => s
        | some entry => s.append entry
    | .grpcEnd =>
        let shown := match event.data with
          | none => s
          | some data => s.append ⟨event.sequence, .inbound, data⟩
        { shown with streamLifecycle := .ended }
    | .grpcError => { s with streamLifecycle := .error }
    | .grpcHeartbeat => s

end Session

/-! ## The server -/

structure Entry (δ : Type*) where
  status : GrpcStreamRegistryStatus
  sequence : ℕ
  sseClients : List ℕ
  eventLog : List (GrpcStreamEvent δ)
deriving DecidableEq, Repr

namespace Entry

def appendEventLog (eventLog : List (GrpcStreamEvent δ)) (event : GrpcStreamEvent δ) : List (GrpcStreamEvent δ) :=
  let next := eventLog ++ [event]
  if streamMessageCap < next.length then next.tail else next

def nextEvent (e : Entry δ) (type : GrpcStreamEventType) (direction : Option GrpcStreamMessageDirection)
    (data : Option δ) : GrpcStreamEvent δ := ⟨type, e.sequence + 1, direction, data⟩

/-- `emitGrpcStreamEvent`, but for the writing. -/
def emitted (e : Entry δ) (event : GrpcStreamEvent δ) : Entry δ :=
  { e with sequence := event.sequence, eventLog := appendEventLog e.eventLog event }

def replayBufferedGrpcStreamEvents (e : Entry δ) (lastSequence : ℕ) : List (GrpcStreamEvent δ) :=
  e.eventLog.filter fun event => decide (lastSequence < event.sequence)

end Entry

/-! ## The two together -/

/-- The server's entry until it is removed, the tab, and the response the tab reads with what is
written to it and not yet read; `responses` counts them.  `history` has every event so far, and no
step looks at it. -/
structure System (δ : Type*) where
  entry : Option (Entry δ)
  session : Session δ
  wire : Option (ℕ × List (GrpcStreamEvent δ))
  responses : ℕ
  history : List (GrpcStreamEvent δ)
deriving DecidableEq, Repr

inductive DeliveryStep (δ : Type*)
  | message (direction : Option GrpcStreamMessageDirection) (data : Option δ)
  | finish (status : TerminalStatus) (data : Option δ)
  | fail
  | expire
  | heartbeat
  | finalize
  | detach (res : ℕ)
  | connect
  | read
  | cut
  | giveUp
deriving DecidableEq, Repr

namespace System

def opened : System δ := ⟨some ⟨.active, 0, [], []⟩, ⟨[], 0, .streaming⟩, none, 0, []⟩

/-- `writeGrpcStreamSseEvent` to each of the clients; what goes to another response than the tab's
is read by nobody. -/
def write (s : System δ) (clients : List ℕ) (event : GrpcStreamEvent δ) : Option (ℕ × List (GrpcStreamEvent δ)) :=
  s.wire.map fun w => if w.1 ∈ clients then (w.1, w.2 ++ [event]) else w

def emit (s : System δ) (e : Entry δ) (type : GrpcStreamEventType)
    (direction : Option GrpcStreamMessageDirection) (data : Option δ) : System δ :=
  let event := e.nextEvent type direction data
  { s with
    entry := some (e.emitted event)
    wire := s.write e.sseClients event
    history := s.history ++ [event] }

def activeEntry (s : System δ) : Option (Entry δ) := s.entry.filter (·.status == .active)

def next : DeliveryStep δ → System δ → Option (System δ)
  | .message direction data, s => s.activeEntry.map fun e => s.emit e .grpcMessage direction data
  | .finish status data, s => s.activeEntry.map fun e => s.emit { e with status := status.status } .grpcEnd none data
  | .fail, s => s.activeEntry.map fun e => s.emit { e with status := .error } .grpcError none none
  | .expire, s =>
      (s.activeEntry.filter (·.sseClients = [])).map fun e =>
        { s.emit { e with status := .cancelled } .grpcEnd none none with entry := none }
  | .heartbeat, s =>
      s.activeEntry.map fun e => { s with wire := s.write e.sseClients ⟨.grpcHeartbeat, e.sequence, none, none⟩ }
  -- a timer of an entry that has ended
  | .finalize, s => (s.entry.filter (·.status ≠ .active)).map fun _ => { s with entry := none }
  | .detach res, s =>
      (s.entry.filter (res ∈ ·.sseClients)).map fun e =>
        let clients := e.sseClients.erase res
        { s with entry := if clients = [] ∧ e.status ≠ .active then none else some { e with sseClients := clients } }
  | .connect, s =>
      if s.session.streamLifecycle ≠ .streaming ∨ s.wire ≠ none then none
      else
        match s.entry with
        -- the request is answered with 404 and not made again
        | none => some { s with session := { s.session with streamLifecycle := .error } }
        | some e =>
            let attached := if e.status = .active then e.sseClients ++ [s.responses] else e.sseClients
            some { s with
              entry := some { e with sseClients := attached }
              wire := some (s.responses, e.replayBufferedGrpcStreamEvents s.session.lastSequence)
              responses := s.responses + 1 }
  | .read, s =>
      match s.wire with
      | some (res, event :: events) =>
          let session := if event.type = .grpcHeartbeat then s.session else s.session.applyStreamEvent event
          some { s with
            session := session
            wire := if event.isTerminal then none else some (res, events) }
      | _ => none
  | .cut, s => s.wire.map fun _ => { s with wire := none }
  -- the attempts to reconnect are used up
  | .giveUp, s =>
      if s.session.streamLifecycle ≠ .streaming ∨ s.wire ≠ none then none
      else some { s with session := { s.session with streamLifecycle := .error } }

end System

/-! ## What is to be shown -/

/-- What the tab shows of an event that it has not had yet. -/
def shown (event : GrpcStreamEvent δ) : Option (GrpcStreamLogEntry δ) :=
  match event.type with
  | .grpcMessage => grpcStreamEventToLogEntry event
  | .grpcEnd => event.data.map fun data => ⟨event.sequence, .inbound, data⟩
  | _ => none

/-- The latest elements of a list, as many as there is room for. -/
def latest {α : Type*} (l : List α) : List α := l.drop (l.length - streamMessageCap)

/-- The number of the last element that was shown. -/
def cursor (events : List (GrpcStreamEvent δ)) : ℕ := ((events.filterMap shown).getLast?.map (·.sequence)).getD 0

/-- Of what the log has dropped, the tab has all that is shown. -/
def InTime (l : DeliveryStep δ) (s : System δ) : Prop :=
  l = .connect → ∀ event ∈ s.history.take (s.history.length - streamMessageCap),
    shown event ≠ none → event.sequence ≤ s.session.lastSequence

/-- The tab has what is to be shown of the events up to some point, all of it if it knows of the end. -/
structure Caught (s : System δ) (seen : List (GrpcStreamEvent δ)) : Prop where
  begins : seen <+: s.history
  messages : s.session.streamMessages = latest (seen.filterMap shown)
  ended : s.session.streamLifecycle = .ended → seen = s.history
  drained : ∀ e res, s.entry = some e → s.wire = some (res, []) → res ∈ e.sseClients → seen = s.history

/-! ## Lists of events -/

section Capped

attribute [local irreducible] streamMessageCap

section Lists

variable {l seen rest : List (GrpcStreamEvent δ)} {event : GrpcStreamEvent δ} {m k p q : ℕ}

theorem latest_append {α : Type*} (l : List α) (x : α) : latest (latest l ++ [x]) = latest (l ++ [x]) := by
  have hcut : latest l ++ [x] = (l ++ [x]).drop (l.length - streamMessageCap) :=
    (List.drop_append_of_le_length (Nat.sub_le _ _)).symm
  rw [hcut, latest, latest, List.drop_drop, List.length_drop, List.length_append, List.length_singleton]
  congr 1
  omega

theorem length_latest_le {α : Type*} (l : List α) : (latest l).length ≤ streamMessageCap := by
  rw [latest, List.length_drop]
  omega

theorem latest_sublist {α : Type*} (l : List α) : (latest l).Sublist l := List.drop_sublist _ _

theorem trimmed_eq {α : Type*} (l : List α) :
    (if streamMessageCap < l.length then l.drop (l.length - streamMessageCap) else l) = latest l := by
  split
  next => rfl
  next h => rw [latest, Nat.sub_eq_zero_of_le (Nat.le_of_not_lt h), List.drop_zero]

theorem appendEventLog_latest (l : List (GrpcStreamEvent δ)) (event : GrpcStreamEvent δ) :
    Entry.appendEventLog (latest l) event = latest (l ++ [event]) := by
  have hle := length_latest_le l
  rw [← latest_append, ← trimmed_eq (latest l ++ [event]), Entry.appendEventLog]
  split
  next h =>
    have hone : (latest l ++ [event]).length - streamMessageCap = 1 := by
      rw [List.length_append, List.length_singleton] at h ⊢
      omega
    rw [hone, List.drop_one]
  next => rfl

/-- The events have the numbers from one on. -/
def Numbered (l : List (GrpcStreamEvent δ)) : Prop := ∀ i event, l[i]? = some event → event.sequence = i + 1

theorem Numbered.snoc (h : Numbered l) (hevent : event.sequence = l.length + 1) : Numbered (l ++ [event]) := by
  intro i event' hi
  rw [List.getElem?_append] at hi
  split at hi
  next => exact h i event' hi
  next hlt =>
    obtain ⟨hzero, rfl⟩ : i - l.length = 0 ∧ event = event' := by
      cases hsub : i - l.length with
      | zero =>
          rw [hsub] at hi
          exact ⟨rfl, Option.some.inj hi⟩
      | succ j =>
          rw [hsub] at hi
          cases hi
    omega

theorem Numbered.left (h : Numbered (seen ++ rest)) : Numbered seen := by
  intro i event hi
  refine h i event ?_
  rw [List.getElem?_append_left (List.getElem?_eq_some_iff.mp hi).1, hi]

theorem Numbered.mem_take (h : Numbered l) (hmem : event ∈ l.take k) : event.sequence ≤ k := by
  obtain ⟨i, hi⟩ := List.mem_iff_getElem?.mp hmem
  rw [List.getElem?_take] at hi
  split at hi
  next hlt =>
    rw [h i event hi]
    omega
  next => cases hi

theorem Numbered.mem_drop (h : Numbered l) (hmem : event ∈ l.drop k) : k < event.sequence := by
  obtain ⟨i, hi⟩ := List.mem_iff_getElem?.mp hmem
  rw [List.getElem?_drop] at hi
  rw [h _ event hi]
  omega

/-- What is replayed is what comes after both the log's beginning and the number asked for. -/
theorem Numbered.filter_drop (h : Numbered l) (m k : ℕ) :
    (l.drop m).filter (fun event => decide (k < event.sequence)) = l.drop (max m k) := by
  have hlater : ∀ event ∈ l.drop (max m k), decide (k < event.sequence) = true := by
    intro event hmem
    have := h.mem_drop hmem
    exact decide_eq_true (by omega)
  have hsplit : l.drop m = (l.drop m).take (k - m) ++ l.drop (max m k) := by
    have hmax : max m k = m + (k - m) := by omega
    rw [hmax, ← List.drop_drop, List.take_append_drop]
  have hearlier : ∀ event ∈ (l.drop m).take (k - m), ¬ decide (k < event.sequence) = true := by
    intro event hmem hlt
    have hlt := of_decide_eq_true hlt
    rw [List.take_drop] at hmem
    have := h.mem_take (List.mem_of_mem_drop hmem)
    by_cases hle : k ≤ m
    · rw [Nat.sub_eq_zero_of_le hle, Nat.add_zero, List.drop_take, Nat.sub_self, List.take_zero] at hmem
      cases hmem
    · omega
  rw [hsplit, List.filter_append, List.filter_eq_nil_iff.mpr hearlier, List.filter_eq_self.mpr hlater,
    List.nil_append]

theorem shown_sequence {entry : GrpcStreamLogEntry δ} (h : shown event = some entry) :
    entry.sequence = event.sequence := by
  unfold shown at h
  split at h
  next =>
    rw [grpcStreamEventToLogEntry] at h
    split at h
    next => cases h
    next =>
      obtain ⟨direction, -, h⟩ := Option.bind_eq_some_iff.mp h
      obtain ⟨data, -, rfl⟩ := Option.map_eq_some_iff.mp h
      rfl
  next =>
    obtain ⟨data, -, rfl⟩ := Option.map_eq_some_iff.mp h
    rfl
  next => cases h

theorem cursor_snoc_none (h : shown event = none) : cursor (seen ++ [event]) = cursor seen := by
  rw [cursor, List.filterMap_append, List.filterMap_cons_none h, List.filterMap_nil, List.append_nil, cursor]

theorem cursor_snoc_some {entry : GrpcStreamLogEntry δ} (h : shown event = some entry) :
    cursor (seen ++ [event]) = entry.sequence := by
  rw [cursor, List.filterMap_append, List.filterMap_cons_some h, List.filterMap_nil, List.getLast?_concat]
  rfl

/-- Whatever is shown of the events has a number up to the cursor. -/
theorem Numbered.le_cursor (h : Numbered seen) : cursor seen ≤ seen.length ∧
    ∀ event ∈ seen, shown event ≠ none → event.sequence ≤ cursor seen := by
  induction seen using List.reverseRecOn with
  | nil => exact ⟨Nat.le_refl _, fun event hmem => absurd hmem List.not_mem_nil⟩
  | append_singleton seen last ih =>
      obtain ⟨hle, hall⟩ := ih h.left
      have hlast : last.sequence = seen.length + 1 := h seen.length last (by simp)
      rw [List.length_append, List.length_singleton]
      cases hshown : shown last with
      | none =>
          rw [cursor_snoc_none hshown]
          refine ⟨by omega, fun event hmem hne => ?_⟩
          rcases List.mem_append.mp hmem with hmem | hmem
          · exact hall event hmem hne
          · rw [List.mem_singleton.mp hmem] at hne
            exact absurd hshown hne
      | some entry =>
          rw [cursor_snoc_some hshown, shown_sequence hshown, hlast]
          refine ⟨Nat.le_refl _, fun event hmem hne => ?_⟩
          rcases List.mem_append.mp hmem with hmem | hmem
          · have := hall event hmem hne
            omega
          · rw [List.mem_singleton.mp hmem, hlast]

/-- Two points of the history between which nothing is shown. -/
theorem Numbered.filterMap_take (h : Numbered l) (hqp : q ≤ p)
    (hall : ∀ event ∈ l.take p, shown event ≠ none → event.sequence ≤ q) :
    (l.take p).filterMap shown = (l.take q).filterMap shown := by
  have hsplit : l.take p = l.take q ++ (l.take p).drop q := by
    have htake : l.take q = (l.take p).take q := by rw [List.take_take, Nat.min_eq_left hqp]
    rw [htake, List.take_append_drop]
  have hnone : ((l.take p).drop q).filterMap shown = [] := by
    rw [List.filterMap_eq_nil_iff]
    intro event hmem
    by_contra hne
    have hle := hall event (List.mem_of_mem_drop hmem) hne
    rw [List.drop_take] at hmem
    have hlt := h.mem_drop (List.mem_of_mem_take hmem)
    omega
  rw [hsplit, List.filterMap_append, hnone, List.append_nil]

end Lists

/-! ## The tab takes an event -/

namespace Session

variable {s : Session δ} {event : GrpcStreamEvent δ} {entry : GrpcStreamLogEntry δ}

theorem append_new (h : s.lastSequence < entry.sequence) : s.append entry =
    { s with streamMessages := latest (s.streamMessages ++ [entry]), lastSequence := entry.sequence } := by
  have haccept : shouldAcceptGrpcStreamSequence entry.sequence s.lastSequence = true := decide_eq_true h
  rw [append, appendGrpcStreamLogEntry, if_neg (by rw [haccept]; decide)]
  simp only [trimmed_eq]

theorem append_old (h : entry.sequence ≤ s.lastSequence) : s.append entry = s := by
  have hrefuse : shouldAcceptGrpcStreamSequence entry.sequence s.lastSequence = false :=
    decide_eq_false (Nat.not_lt.mpr h)
  rw [append, appendGrpcStreamLogEntry, if_pos hrefuse]

/-- What the messages of a tab are after an event. -/
def Taken (s : Session δ) (event : GrpcStreamEvent δ) (t : Session δ) : Prop :=
  (∃ entry, shown event = some entry ∧ s.lastSequence < entry.sequence ∧
    t.streamMessages = latest (s.streamMessages ++ [entry]) ∧ t.lastSequence = entry.sequence) ∨
  ((∀ entry, shown event = some entry → entry.sequence ≤ s.lastSequence) ∧
    t.streamMessages = s.streamMessages ∧ t.lastSequence = s.lastSequence)

theorem taken_append (h : shown event = some entry) : s.Taken event (s.append entry) := by
  by_cases hnew : s.lastSequence < entry.sequence
  · rw [append_new hnew]
    exact .inl ⟨entry, h, hnew, rfl, rfl⟩
  · rw [append_old (Nat.le_of_not_lt hnew)]
    refine .inr ⟨fun entry' h' => ?_, rfl, rfl⟩
    rw [Option.some.inj (h'.symm.trans h)]
    exact Nat.le_of_not_lt hnew

theorem taken_none (h : shown event = none) : s.Taken event s := by
  refine .inr ⟨fun entry hentry => ?_, rfl, rfl⟩
  rw [h] at hentry
  cases hentry

theorem applyStreamEvent_taken (event : GrpcStreamEvent δ) (hopen : s.streamLifecycle = .streaming) :
    s.Taken event (s.applyStreamEvent event) := by
  rw [applyStreamEvent, if_neg (not_not.mpr hopen)]
  cases htype : event.type with
  | grpcMessage =>
      dsimp only
      have hshown : shown event = grpcStreamEventToLogEntry event := by rw [shown, htype]
      cases hentry : grpcStreamEventToLogEntry event with
      | none => exact taken_none (hshown.trans hentry)
      | some entry => exact taken_append (hshown.trans hentry)
  | grpcEnd =>
      dsimp only
      have hshown : shown event = event.data.map fun data => ⟨event.sequence, .inbound, data⟩ := by
        rw [shown, htype]
      cases hdata : event.data with
      | none =>
          rw [hdata] at hshown
          exact taken_none (s := s) hshown
      | some data =>
          rw [hdata] at hshown
          exact taken_append (s := s) hshown
  | grpcError => exact taken_none (s := s) (by rw [shown, htype])
  | grpcHeartbeat => exact taken_none (by rw [shown, htype])

theorem append_lifecycle : (s.append entry).streamLifecycle = s.streamLifecycle := by
  by_cases hnew : s.lastSequence < entry.sequence
  · rw [append_new hnew]
  · rw [append_old (Nat.le_of_not_lt hnew)]

/-- Only a terminal event closes the tab. -/
theorem applyStreamEvent_open (hopen : s.streamLifecycle = .streaming) (h : event.isTerminal = false) :
    (s.applyStreamEvent event).streamLifecycle = .streaming := by
  rw [applyStreamEvent, if_neg (not_not.mpr hopen)]
  rw [GrpcStreamEvent.isTerminal, Bool.or_eq_false_iff] at h
  cases htype : event.type with
  | grpcMessage =>
      dsimp only
      cases grpcStreamEventToLogEntry event with
      | none => exact hopen
      | some entry => exact append_lifecycle.trans hopen
  | grpcEnd =>
      rw [htype] at h
      exact absurd h.1 (by decide)
  | grpcError =>
      rw [htype] at h
      exact absurd h.2 (by decide)
  | grpcHeartbeat => exact hopen

/-- A tab that has shown what there was to show of some events, and takes the next. -/
theorem Taken.follows {t : Session δ} {seen : List (GrpcStreamEvent δ)} (h : s.Taken event t)
    (hmessages : s.streamMessages = latest (seen.filterMap shown)) (hcursor : s.lastSequence = cursor seen)
    (hnew : cursor seen < event.sequence) :
    t.streamMessages = latest ((seen ++ [event]).filterMap shown) ∧ t.lastSequence = cursor (seen ++ [event]) := by
  rcases h with ⟨entry, hshown, -, hmessages', hcursor'⟩ | ⟨hold, hmessages', hcursor'⟩
  · rw [cursor_snoc_some hshown, List.filterMap_append, List.filterMap_cons_some hshown, List.filterMap_nil,
      ← latest_append, ← hmessages]
    exact ⟨hmessages', hcursor'⟩
  · have hnone : shown event = none := by
      cases hshown : shown event with
      | none => rfl
      | some entry =>
          have hle := hold entry hshown
          rw [shown_sequence hshown, hcursor] at hle
          omega
    rw [cursor_snoc_none hnone, List.filterMap_append, List.filterMap_cons_none hnone, List.filterMap_nil,
      List.append_nil]
    exact ⟨hmessages'.trans hmessages, hcursor'.trans hcursor⟩

end Session

/-! ## What a step does -/

namespace System

variable {s s' : System δ} {l : DeliveryStep δ}

/-- The ways in which the system goes on. -/
inductive Does (s : System δ) (l : DeliveryStep δ) : System δ → Prop
  | emits (e : Entry δ) (status : GrpcStreamRegistryStatus) (event : GrpcStreamEvent δ) : s.entry = some e →
      e.status = .active → event.sequence = e.sequence + 1 → event.type ≠ .grpcHeartbeat →
      (event.isTerminal = true → status ≠ .active) → Does s l { s with
        entry := some ({ e with status := status }.emitted event)
        wire := s.write e.sseClients event
        history := s.history ++ [event] }
  | expires (e : Entry δ) (event : GrpcStreamEvent δ) : s.entry = some e → e.status = .active →
      event.sequence = e.sequence + 1 → event.type ≠ .grpcHeartbeat → Does s l { s with
        entry := none
        wire := s.write e.sseClients event
        history := s.history ++ [event] }
  | beats (e : Entry δ) (event : GrpcStreamEvent δ) : s.entry = some e → event.type = .grpcHeartbeat →
      Does s l { s with wire := s.write e.sseClients event }
  | removes : Does s l { s with entry := none }
  | detaches (e : Entry δ) (clients : List ℕ) : s.entry = some e → clients ⊆ e.sseClients →
      Does s l { s with entry := some { e with sseClients := clients } }
  | loses : s.wire = none → Does s l { s with session := { s.session with streamLifecycle := .error } }
  | connects (e : Entry δ) (clients : List ℕ) : l = .connect → s.entry = some e →
      s.session.streamLifecycle = .streaming → Does s l { s with
        entry := some { e with sseClients := clients }
        wire := some (s.responses, e.replayBufferedGrpcStreamEvents s.session.lastSequence)
        responses := s.responses + 1 }
  | passes (res : ℕ) (event : GrpcStreamEvent δ) (events : List (GrpcStreamEvent δ)) :
      s.wire = some (res, event :: events) → event.type = .grpcHeartbeat → Does s l { s with wire := some (res, events) }
  | takes (res : ℕ) (event : GrpcStreamEvent δ) (events : List (GrpcStreamEvent δ)) :
      s.wire = some (res, event :: events) → event.type ≠ .grpcHeartbeat → Does s l { s with
        session := s.session.applyStreamEvent event
        wire := if event.isTerminal then none else some (res, events) }
  | cuts : Does s l { s with wire := none }

theorem activeEntry_eq_some {e : Entry δ} (h : s.activeEntry = some e) : s.entry = some e ∧ e.status = .active := by
  obtain ⟨hentry, hactive⟩ := Option.filter_eq_some_iff.mp h
  exact ⟨hentry, beq_iff_eq.mp hactive⟩

theorem status_ne_active (status : TerminalStatus) : status.status ≠ .active := by
  cases status <;> decide

/-- **One step.** -/
theorem next_does (h : next l s = some s') : s.Does l s' := by
  cases l with
  | message direction data =>
      obtain ⟨e, he, rfl⟩ := Option.map_eq_some_iff.mp h
      obtain ⟨hentry, hactive⟩ := activeEntry_eq_some he
      refine .emits e e.status (e.nextEvent .grpcMessage direction data) hentry hactive rfl ?_ ?_
      · show GrpcStreamEventType.grpcMessage ≠ .grpcHeartbeat
        decide
      · intro hterminal
        exact absurd hterminal (by show ¬ false = true; decide)
  | finish status data =>
      obtain ⟨e, he, rfl⟩ := Option.map_eq_some_iff.mp h
      obtain ⟨hentry, hactive⟩ := activeEntry_eq_some he
      refine .emits e status.status (e.nextEvent .grpcEnd none data) hentry hactive rfl ?_ fun _ => status_ne_active status
      show GrpcStreamEventType.grpcEnd ≠ .grpcHeartbeat
      decide
  | fail =>
      obtain ⟨e, he, rfl⟩ := Option.map_eq_some_iff.mp h
      obtain ⟨hentry, hactive⟩ := activeEntry_eq_some he
      refine .emits e .error (e.nextEvent .grpcError none none) hentry hactive rfl ?_ fun _ => by decide
      show GrpcStreamEventType.grpcError ≠ .grpcHeartbeat
      decide
  | expire =>
      obtain ⟨e, he, rfl⟩ := Option.map_eq_some_iff.mp h
      obtain ⟨hentry, hactive⟩ := activeEntry_eq_some (Option.filter_eq_some_iff.mp he).1
      refine .expires e (e.nextEvent .grpcEnd none none) hentry hactive rfl ?_
      show GrpcStreamEventType.grpcEnd ≠ .grpcHeartbeat
      decide
  | heartbeat =>
      obtain ⟨e, he, rfl⟩ := Option.map_eq_some_iff.mp h
      exact .beats e _ (activeEntry_eq_some he).1 rfl
  | finalize =>
      obtain ⟨e, -, rfl⟩ := Option.map_eq_some_iff.mp h
      exact .removes
  | detach res =>
      obtain ⟨e, he, h⟩ := Option.map_eq_some_iff.mp h
      have hentry := (Option.filter_eq_some_iff.mp he).1
      subst h
      by_cases hlast : e.sseClients.erase res = [] ∧ e.status ≠ .active
      · simp only [if_pos hlast]
        exact .removes
      · simp only [if_neg hlast]
        exact .detaches e _ hentry List.erase_subset
  | connect =>
      rw [next] at h
      split at h
      next => cases h
      next hidle =>
        rw [not_or, not_not, not_not] at hidle
        cases hentry : s.entry with
        | none =>
            rw [hentry] at h
            obtain rfl := Option.some.inj h
            exact hentry ▸ .loses hidle.2
        | some e =>
            rw [hentry] at h
            obtain rfl := Option.some.inj h
            exact .connects e _ rfl hentry hidle.1
  | read =>
      rw [next] at h
      split at h
      next res event events hwire =>
        obtain rfl := Option.some.inj h
        by_cases htype : event.type = .grpcHeartbeat
        · have hterminal : event.isTerminal = false := by
            rw [GrpcStreamEvent.isTerminal, htype]
            decide
          simp only [if_pos htype, hterminal]
          exact .passes res event events hwire htype
        · simp only [if_neg htype]
          exact .takes res event events hwire htype
      next => cases h
  | cut =>
      obtain ⟨w, -, rfl⟩ := Option.map_eq_some_iff.mp h
      exact .cuts
  | giveUp =>
      rw [next] at h
      split at h
      next => cases h
      next hidle =>
        rw [not_or, not_not, not_not] at hidle
        obtain rfl := Option.some.inj h
        exact .loses hidle.2

theorem write_eq_some {clients : List ℕ} {event : GrpcStreamEvent δ} {res : ℕ} {events : List (GrpcStreamEvent δ)}
    (h : s.write clients event = some (res, events)) :
    (res ∈ clients ∧ ∃ before, s.wire = some (res, before) ∧ events = before ++ [event]) ∨
      (res ∉ clients ∧ s.wire = some (res, events)) := by
  obtain ⟨⟨res', before⟩, hwire, heq⟩ := Option.map_eq_some_iff.mp h
  dsimp only at heq
  split at heq
  next hmem =>
    cases heq
    exact .inl ⟨hmem, before, hwire, rfl⟩
  next hmem =>
    cases heq
    exact .inr ⟨hmem, hwire⟩

/-! ## The server's books -/

structure Books (s : System δ) : Prop where
  numbered : Numbered s.history
  silent : ∀ event ∈ s.history, event.type ≠ .grpcHeartbeat
  log : ∀ e, s.entry = some e → e.sequence = s.history.length ∧ e.eventLog = latest s.history
  ended : ∀ event ∈ s.history.dropLast, event.isTerminal = false
  active : ∀ e, s.entry = some e → e.status = .active → ∀ event ∈ s.history, event.isTerminal = false
  reading : s.wire ≠ none → s.session.streamLifecycle = .streaming

theorem Books.streaming (h : s.Books) {w : ℕ × List (GrpcStreamEvent δ)} (hwire : s.wire = some w) :
    s.session.streamLifecycle = .streaming := by
  refine h.reading ?_
  rw [hwire]
  exact Option.some_ne_none w

theorem opened_books : (opened : System δ).Books where
  numbered i event hi := by cases hi
  silent event hmem := by cases hmem
  log e he := by
    cases he
    exact ⟨rfl, List.drop_nil.symm⟩
  ended event hmem := by cases hmem
  active e he _ event hmem := by cases hmem
  reading _ := rfl

theorem write_ne_none {clients : List ℕ} {event : GrpcStreamEvent δ} (h : s.write clients event ≠ none) :
    s.wire ≠ none := by
  intro hnone
  rw [write, hnone] at h
  exact h rfl

/-- An event more. -/
theorem Books.emits (h : s.Books) {e : Entry δ} {event : GrpcStreamEvent δ} (hentry : s.entry = some e)
    (hactive : e.status = .active) (hsequence : event.sequence = e.sequence + 1)
    (htype : event.type ≠ .grpcHeartbeat) (entry : Option (Entry δ))
    (hlog : ∀ e', entry = some e' → e'.sequence = event.sequence ∧ e'.eventLog = Entry.appendEventLog e.eventLog event)
    (hopen : ∀ e', entry = some e' → e'.status = .active → event.isTerminal = false) :
    Books { s with entry := entry, wire := s.write e.sseClients event, history := s.history ++ [event] } := by
  obtain ⟨hlength, heventLog⟩ := h.log e hentry
  have hlive := h.active e hentry hactive
  refine ⟨h.numbered.snoc (by rw [hsequence, hlength]), ?_, ?_, ?_, ?_, fun hwire => h.reading (write_ne_none hwire)⟩
  · intro event' hmem
    rcases List.mem_append.mp hmem with hmem | hmem
    · exact h.silent event' hmem
    · rw [List.mem_singleton.mp hmem]
      exact htype
  · intro e' he'
    obtain ⟨hsequence', hlog'⟩ := hlog e' he'
    refine ⟨?_, ?_⟩
    · rw [hsequence', hsequence, hlength, List.length_append, List.length_singleton]
    · rw [hlog', heventLog, appendEventLog_latest]
  · intro event' hmem
    rw [List.dropLast_concat] at hmem
    exact hlive event' hmem
  · intro e' he' hactive' event' hmem
    rcases List.mem_append.mp hmem with hmem | hmem
    · exact hlive event' hmem
    · rw [List.mem_singleton.mp hmem]
      exact hopen e' he' hactive'

theorem Books.step (h : s.Books) (hdoes : s.Does l s') : s'.Books := by
  cases hdoes with
  | emits e status event hentry hactive hsequence htype hterminal =>
      refine h.emits hentry hactive hsequence htype _ (fun e' he' => ?_) fun e' he' hactive' => ?_
      · cases he'
        exact ⟨rfl, rfl⟩
      · cases he'
        rw [← Bool.not_eq_true]
        exact fun hend => hterminal hend hactive'
  | expires e event hentry hactive hsequence htype =>
      refine h.emits hentry hactive hsequence htype none (fun e' he' => ?_) fun e' he' => ?_
      · cases he'
      · cases he'
  | beats e event hentry _ => exact { h with reading := fun hwire => h.reading (write_ne_none hwire) }
  | removes =>
      refine { h with log := fun e he => ?_, active := fun e he => ?_ }
      · cases he
      · cases he
  | detaches e clients hentry _ =>
      refine { h with log := fun e' he' => ?_, active := fun e' he' => ?_ }
      · cases he'
        exact h.log e hentry
      · cases he'
        exact h.active e hentry
  | loses hwire => exact { h with reading := fun hne => absurd hwire hne }
  | connects e clients _ hentry hstreaming =>
      refine { h with log := fun e' he' => ?_, active := fun e' he' => ?_, reading := fun _ => hstreaming }
      · cases he'
        exact h.log e hentry
      · cases he'
        exact h.active e hentry
  | passes res event events hwire _ =>
      exact { h with reading := fun _ => h.streaming hwire }
  | takes res event events hwire _ =>
      refine { h with reading := fun hne => ?_ }
      have hstreaming := h.streaming hwire
      cases hterminal : event.isTerminal with
      | true =>
          rw [hterminal] at hne
          exact absurd rfl hne
      | false => exact Session.applyStreamEvent_open hstreaming hterminal
  | cuts => exact { h with reading := fun hne => absurd rfl hne }

/-! ## In order and once -/

/-- What is shown is in order, and was sent. -/
structure Orderly (s : System δ) : Prop where
  sent : ∀ res events, s.wire = some (res, events) → ∀ event ∈ events,
    event.type = .grpcHeartbeat ∨ event ∈ s.history
  sorted : s.session.streamMessages.Pairwise (·.sequence < ·.sequence)
  below : ∀ entry ∈ s.session.streamMessages, entry.sequence ≤ s.session.lastSequence
  shown : ∀ entry ∈ s.session.streamMessages, ∃ event ∈ s.history, shown event = some entry

theorem opened_orderly : (opened : System δ).Orderly where
  sent res events hwire := by cases hwire
  sorted := List.Pairwise.nil
  below entry hmem := by cases hmem
  shown entry hmem := by cases hmem

theorem Orderly.emits (h : s.Orderly) {clients : List ℕ} {event : GrpcStreamEvent δ} (entry : Option (Entry δ)) :
    Orderly { s with entry := entry, wire := s.write clients event, history := s.history ++ [event] } := by
  refine { h with sent := fun res events hwire event' hmem => ?_, shown := fun entry' hmem => ?_ }
  · have hearlier : ∀ events', s.wire = some (res, events') → event' ∈ events' →
        event'.type = .grpcHeartbeat ∨ event' ∈ s.history ++ [event] :=
      fun events' hwire' hmem' => (h.sent res events' hwire' event' hmem').imp_right (List.mem_append_left _)
    rcases write_eq_some hwire with ⟨-, before, hbefore, rfl⟩ | ⟨-, hsame⟩
    · rcases List.mem_append.mp hmem with hmem | hmem
      · exact hearlier before hbefore hmem
      · exact .inr (List.mem_append_right _ hmem)
    · exact hearlier events hsame hmem
  · obtain ⟨event', hevent', heq⟩ := h.shown entry' hmem
    exact ⟨event', List.mem_append_left _ hevent', heq⟩

theorem Orderly.takes (h : s.Orderly) (hstreaming : s.session.streamLifecycle = .streaming)
    {event : GrpcStreamEvent δ} (hevent : event ∈ s.history) {wire : Option (ℕ × List (GrpcStreamEvent δ))}
    (hsent : ∀ res events, wire = some (res, events) → ∀ event ∈ events, event.type = .grpcHeartbeat ∨ event ∈ s.history) :
    Orderly { s with session := s.session.applyStreamEvent event, wire := wire } := by
  rcases Session.applyStreamEvent_taken event hstreaming with
    ⟨entry, hshown, hnew, hmessages, hlast⟩ | ⟨-, hmessages, hlast⟩
  · have hmem : ∀ entry' ∈ (s.session.applyStreamEvent event).streamMessages,
        entry' ∈ s.session.streamMessages ∨ entry' = entry := by
      intro entry' hmem
      rw [hmessages] at hmem
      exact (List.mem_append.mp ((latest_sublist _).subset hmem)).imp_right List.mem_singleton.mp
    refine ⟨hsent, ?_, fun entry' hentry' => ?_, fun entry' hentry' => ?_⟩
    · show (s.session.applyStreamEvent event).streamMessages.Pairwise _
      rw [hmessages]
      refine List.Pairwise.sublist (latest_sublist _) (List.pairwise_append.mpr ⟨h.sorted, List.pairwise_singleton _ _, ?_⟩)
      intro entry' hentry' entry'' hentry''
      rw [List.mem_singleton.mp hentry'']
      exact Nat.lt_of_le_of_lt (h.below entry' hentry') hnew
    · show entry'.sequence ≤ (s.session.applyStreamEvent event).lastSequence
      rw [hlast]
      rcases hmem entry' hentry' with hold | rfl
      · exact Nat.le_of_lt (Nat.lt_of_le_of_lt (h.below entry' hold) hnew)
      · exact Nat.le_refl _
    · rcases hmem entry' hentry' with hold | rfl
      · exact h.shown entry' hold
      · exact ⟨event, hevent, hshown⟩
  · refine ⟨hsent, ?_, fun entry' hentry' => ?_, fun entry' hentry' => ?_⟩
    · show (s.session.applyStreamEvent event).streamMessages.Pairwise _
      rw [hmessages]
      exact h.sorted
    · show entry'.sequence ≤ (s.session.applyStreamEvent event).lastSequence
      rw [hlast]
      exact h.below entry' (hmessages ▸ hentry')
    · exact h.shown entry' (hmessages ▸ hentry')

theorem Orderly.step (h : s.Orderly) (hbooks : s.Books) (hdoes : s.Does l s') : s'.Orderly := by
  cases hdoes with
  | emits e status event hentry _ _ _ _ => exact h.emits _
  | expires e event hentry _ _ _ => exact h.emits _
  | beats e event hentry htype =>
      refine { h with sent := fun res events hwire event' hmem => ?_ }
      rcases write_eq_some hwire with ⟨-, before, hbefore, rfl⟩ | ⟨-, hsame⟩
      · rcases List.mem_append.mp hmem with hmem | hmem
        · exact h.sent res before hbefore event' hmem
        · rw [List.mem_singleton.mp hmem]
          exact .inl htype
      · exact h.sent res events hsame event' hmem
  | removes => exact { h with }
  | detaches e clients _ _ => exact { h with }
  | loses _ => exact { h with }
  | connects e clients _ hentry _ =>
      refine { h with sent := fun res events hwire event hmem => .inr ?_ }
      cases hwire
      have hlog := (List.mem_filter.mp hmem).1
      rw [(hbooks.log e hentry).2] at hlog
      exact (latest_sublist _).subset hlog
  | passes res event events hwire _ =>
      refine { h with sent := fun res' events' hwire' event' hmem => ?_ }
      cases hwire'
      exact h.sent res _ hwire event' (List.mem_cons_of_mem _ hmem)
  | takes res event events hwire htype =>
      have hstreaming := hbooks.streaming hwire
      refine h.takes hstreaming ((h.sent res _ hwire event List.mem_cons_self).resolve_left htype) ?_
      intro res' events' hwire' event' hmem
      split at hwire'
      next => cases hwire'
      next =>
        cases hwire'
        exact h.sent res _ hwire event' (List.mem_cons_of_mem _ hmem)
  | cuts => exact { h with sent := fun res events hwire => by cases hwire }

/-! ## Nothing left out -/

/-- What a response brings, but for the heartbeats. -/
def body (events : List (GrpcStreamEvent δ)) : List (GrpcStreamEvent δ) := events.filter fun event => event.type != .grpcHeartbeat

/-- The tab has seen the events up to some point, and its response goes on from there. -/
structure Follows (s : System δ) (seen rest : List (GrpcStreamEvent δ)) : Prop where
  split : s.history = seen ++ rest
  messages : s.session.streamMessages = latest (seen.filterMap Delivery.shown)
  last : s.session.lastSequence = cursor seen
  wire : ∀ res events, s.wire = some (res, events) → body events <+: rest
  attached : ∀ e res events, s.entry = some e → s.wire = some (res, events) → res ∈ e.sseClients → body events = rest
  ended : s.session.streamLifecycle = .ended → rest = [] ∧ ∃ event ∈ s.history, event.isTerminal = true

theorem opened_follows : (opened : System δ).Follows [] [] where
  split := rfl
  messages := List.drop_nil.symm
  last := rfl
  wire res events hwire := by cases hwire
  attached e res events _ hwire := by cases hwire
  ended hended := by cases hended

theorem body_concat {events : List (GrpcStreamEvent δ)} {event : GrpcStreamEvent δ} (h : event.type ≠ .grpcHeartbeat) :
    body (events ++ [event]) = body events ++ [event] := by
  rw [body, List.filter_append, List.filter_cons_of_pos (by simpa using h), List.filter_nil, body]

theorem body_heartbeat {events : List (GrpcStreamEvent δ)} {event : GrpcStreamEvent δ} (h : event.type = .grpcHeartbeat) :
    body (events ++ [event]) = body events := by
  rw [body, List.filter_append, List.filter_cons_of_neg (by simpa using h), List.filter_nil, List.append_nil, body]

theorem body_cons {events : List (GrpcStreamEvent δ)} {event : GrpcStreamEvent δ} (h : event.type ≠ .grpcHeartbeat) :
    body (event :: events) = event :: body events := List.filter_cons_of_pos (by simpa using h)

theorem body_cons_heartbeat {events : List (GrpcStreamEvent δ)} {event : GrpcStreamEvent δ}
    (h : event.type = .grpcHeartbeat) : body (event :: events) = body events := List.filter_cons_of_neg (by simpa using h)

theorem body_eq_self {events : List (GrpcStreamEvent δ)} (h : ∀ event ∈ events, event.type ≠ .grpcHeartbeat) :
    body events = events := List.filter_eq_self.mpr fun event hmem => by simpa using h event hmem

variable {seen rest : List (GrpcStreamEvent δ)}

/-- An event more, written where the tab's response is open; the tab that knows of the end has an
entry no more, or one that has ended. -/
theorem Follows.emits (h : s.Follows seen rest) {e : Entry δ} {event : GrpcStreamEvent δ} (hentry : s.entry = some e)
    (htype : event.type ≠ .grpcHeartbeat) (hlive : s.session.streamLifecycle ≠ .ended) {entry : Option (Entry δ)}
    (hclients : ∀ e', entry = some e' → e'.sseClients = e.sseClients) :
    Follows { s with entry := entry, wire := s.write e.sseClients event, history := s.history ++ [event] }
      seen (rest ++ [event]) := by
  refine { h with
    split := by rw [h.split, List.append_assoc]
    wire := fun res events hwire => ?_
    attached := fun e' res events he' hwire hmem => ?_
    ended := fun hended => absurd hended hlive }
  · rcases write_eq_some hwire with ⟨hmem, before, hbefore, rfl⟩ | ⟨-, hsame⟩
    · rw [body_concat htype, h.attached e res before hentry hbefore hmem]
    · exact (h.wire res events hsame).trans (List.prefix_append _ _)
  · rw [hclients e' he'] at hmem
    rcases write_eq_some hwire with ⟨-, before, hbefore, rfl⟩ | ⟨hnot, -⟩
    · rw [body_concat htype, h.attached e res before hentry hbefore hmem]
    · exact absurd hmem hnot

/-- A new response begins after what the log has dropped and what the tab has; if nothing that is
shown lies between, the tab may count as having seen that far. -/
theorem Follows.connects (h : s.Follows seen rest) (hbooks : s.Books) {e : Entry δ} (hentry : s.entry = some e)
    (hstreaming : s.session.streamLifecycle = .streaming) {clients : List ℕ}
    (hintime : ∀ event ∈ s.history.take (s.history.length - streamMessageCap),
      Delivery.shown event ≠ none → event.sequence ≤ s.session.lastSequence) :
    ∃ seen' rest', Follows { s with
      entry := some { e with sseClients := clients }
      wire := some (s.responses, e.replayBufferedGrpcStreamEvents s.session.lastSequence)
      responses := s.responses + 1 } seen' rest' := by
  have hnumbered := hbooks.numbered
  have hseen : s.history.take seen.length = seen := by rw [h.split, List.take_left]
  have hnumbered' : Numbered seen := Numbered.left (h.split ▸ hnumbered)
  obtain ⟨hcursor, hbelow⟩ := hnumbered'.le_cursor
  -- up to the number the tab has, and from there to where the log begins
  have hback : seen.filterMap Delivery.shown = (s.history.take (cursor seen)).filterMap Delivery.shown := by
    have htake := hnumbered.filterMap_take hcursor (by rw [hseen]; exact hbelow)
    rwa [hseen] at htake
  have hon : (s.history.take (max (s.history.length - streamMessageCap) (cursor seen))).filterMap Delivery.shown =
      (s.history.take (cursor seen)).filterMap Delivery.shown := by
    refine hnumbered.filterMap_take (Nat.le_max_right _ _) fun event hmem hne => ?_
    rcases Nat.le_total (s.history.length - streamMessageCap) (cursor seen) with hle | hle
    · rw [Nat.max_eq_right hle] at hmem
      exact hnumbered.mem_take hmem
    · rw [Nat.max_eq_left hle] at hmem
      exact h.last ▸ hintime event hmem hne
  have hsame := hback.trans hon.symm
  have hreplay : e.replayBufferedGrpcStreamEvents s.session.lastSequence =
      s.history.drop (max (s.history.length - streamMessageCap) (cursor seen)) := by
    rw [Entry.replayBufferedGrpcStreamEvents, (hbooks.log e hentry).2, latest, h.last, hnumbered.filter_drop]
  have hbody : body (e.replayBufferedGrpcStreamEvents s.session.lastSequence) =
      s.history.drop (max (s.history.length - streamMessageCap) (cursor seen)) := by
    rw [hreplay, body_eq_self fun event hmem => hbooks.silent event (List.mem_of_mem_drop hmem)]
  refine ⟨s.history.take (max (s.history.length - streamMessageCap) (cursor seen)),
    s.history.drop (max (s.history.length - streamMessageCap) (cursor seen)),
    ⟨(List.take_append_drop _ _).symm, ?_, ?_, fun res events hwire => ?_,
      fun e' res events _ hwire _ => ?_, fun hended => ?_⟩⟩
  · rw [← hsame]
    exact h.messages
  · rw [cursor, ← hsame]
    exact h.last
  · cases hwire
    rw [hbody]
  · cases hwire
    exact hbody
  · rw [hstreaming] at hended
    cases hended

/-- The next event is taken off the response. -/
theorem Follows.takes (h : s.Follows seen rest) (hbooks : s.Books) {res : ℕ} {event : GrpcStreamEvent δ}
    {events : List (GrpcStreamEvent δ)} (hwire : s.wire = some (res, event :: events))
    (htype : event.type ≠ .grpcHeartbeat) : ∃ seen' rest', Follows { s with
      session := s.session.applyStreamEvent event
      wire := if event.isTerminal then none else some (res, events) } seen' rest' := by
  have hstreaming := hbooks.streaming hwire
  obtain ⟨rest', rfl⟩ : ∃ rest', rest = event :: rest' := by
    have hbegins := h.wire res _ hwire
    rw [body_cons htype] at hbegins
    obtain ⟨after, rfl⟩ := hbegins
    exact ⟨body events ++ after, rfl⟩
  have hsequence : event.sequence = seen.length + 1 := by
    refine hbooks.numbered seen.length event ?_
    rw [h.split, List.getElem?_append_right (Nat.le_refl _), Nat.sub_self]
    rfl
  have hcursor := (Numbered.left (h.split ▸ hbooks.numbered)).le_cursor.1
  obtain ⟨hmessages, hlast⟩ := (Session.applyStreamEvent_taken event hstreaming).follows
    h.messages h.last (by omega)
  refine ⟨seen ++ [event], rest', ⟨by rw [h.split, List.append_assoc]; rfl, hmessages, hlast,
    fun res' events' hwire' => ?_, fun e res' events' hentry hwire' hmem => ?_, fun hended => ?_⟩⟩
  · dsimp only at hwire'
    split at hwire'
    next => cases hwire'
    next =>
      cases hwire'
      have hbegins := h.wire res _ hwire
      rw [body_cons htype] at hbegins
      exact (List.cons_prefix_cons.mp hbegins).2
  · dsimp only at hwire'
    split at hwire'
    next => cases hwire'
    next =>
      cases hwire'
      have hall := h.attached e res _ hentry hwire hmem
      rw [body_cons htype] at hall
      exact (List.cons.inj hall).2
  · have hterminal : event.isTerminal = true := by
      by_contra hnot
      have hopen := Session.applyStreamEvent_open hstreaming (eq_false_of_ne_true hnot)
      rw [hopen] at hended
      cases hended
    refine ⟨?_, event, by rw [h.split]; simp, hterminal⟩
    by_contra hne
    have hearlier := hbooks.ended event (by
      rw [h.split, List.dropLast_append_of_ne_nil (List.cons_ne_nil _ _), List.dropLast_cons_of_ne_nil hne]
      simp)
    rw [hterminal] at hearlier
    cases hearlier

theorem Follows.step (h : s.Follows seen rest) (hbooks : s.Books) (hintime : InTime l s) (hdoes : s.Does l s') :
    ∃ seen' rest', s'.Follows seen' rest' := by
  have hlive : ∀ e, s.entry = some e → e.status = .active → s.session.streamLifecycle ≠ .ended := by
    intro e hentry hactive hended
    obtain ⟨-, event, hmem, hterminal⟩ := h.ended hended
    rw [hbooks.active e hentry hactive event hmem] at hterminal
    cases hterminal
  cases hdoes with
  | emits e status event hentry hactive _ htype _ =>
      refine ⟨seen, rest ++ [event], h.emits hentry htype (hlive e hentry hactive) fun e' he' => ?_⟩
      cases he'
      rfl
  | expires e event hentry hactive _ htype =>
      refine ⟨seen, rest ++ [event], h.emits hentry htype (hlive e hentry hactive) fun e' he' => ?_⟩
      cases he'
  | beats e event hentry htype =>
      refine ⟨seen, rest, { h with wire := fun res events hwire => ?_, attached := fun e' res events he' hwire hmem => ?_ }⟩
      · rcases write_eq_some hwire with ⟨-, before, hbefore, rfl⟩ | ⟨-, hsame⟩
        · rw [body_heartbeat htype]
          exact h.wire res before hbefore
        · exact h.wire res events hsame
      · rcases write_eq_some hwire with ⟨-, before, hbefore, rfl⟩ | ⟨-, hsame⟩
        · rw [body_heartbeat htype]
          exact h.attached e' res before he' hbefore hmem
        · exact h.attached e' res events he' hsame hmem
  | removes =>
      refine ⟨seen, rest, { h with attached := fun e' res events he' => ?_ }⟩
      cases he'
  | detaches e clients hentry hsubset =>
      refine ⟨seen, rest, { h with attached := fun e' res events he' hwire hmem => ?_ }⟩
      cases he'
      exact h.attached e res events hentry hwire (hsubset hmem)
  | loses hwire =>
      refine ⟨seen, rest, { h with ended := fun hended => ?_ }⟩
      cases hended
  | connects e clients hl hentry hstreaming => exact h.connects hbooks hentry hstreaming (hintime hl)
  | passes res event events hwire htype =>
      refine ⟨seen, rest, { h with
        wire := fun res' events' hwire' => ?_
        attached := fun e' res' events' he' hwire' hmem => ?_ }⟩
      · cases hwire'
        have hbegins := h.wire res _ hwire
        rwa [body_cons_heartbeat htype] at hbegins
      · cases hwire'
        have hall := h.attached e' res _ he' hwire hmem
        rwa [body_cons_heartbeat htype] at hall
  | takes res event events hwire htype => exact h.takes hbooks hwire htype
  | cuts =>
      refine ⟨seen, rest, { h with
        wire := fun res events hwire => ?_
        attached := fun e' res events he' hwire => ?_ }⟩
      · cases hwire
      · cases hwire

theorem Follows.caught (h : s.Follows seen rest) : Caught s seen where
  begins := ⟨rest, h.split.symm⟩
  messages := h.messages
  ended hended := by rw [h.split, (h.ended hended).1, List.append_nil]
  drained e res hentry hwire hmem := by
    have hrest := h.attached e res [] hentry hwire hmem
    rw [h.split, ← hrest]
    exact (List.append_nil _).symm

end System

/-! ## Over whole runs -/

/-- **Events arrive once and in order, and none is left out that the log still had.**  Whatever the
order of the steps, the messages of the tab are events of the stream with increasing numbers.  If
the log still had what the tab was to be shown each time a response was asked for, they are the
latest of what the events up to some point show; of all events, if the tab knows that the stream
has ended, or has read all of a response that is still open. -/
theorem delivered (ls : List (DeliveryStep δ)) (s : System δ) (hrun : exec System.next System.opened ls = some s) :
    s.session.streamMessages.Pairwise (·.sequence < ·.sequence) ∧
      (∀ entry ∈ s.session.streamMessages, ∃ event ∈ s.history, shown event = some entry) ∧
      (AllSteps System.next InTime System.opened ls → ∃ seen, Caught s seen) := by
  have horderly : s.Books ∧ s.Orderly := by
    refine exec_invariant' (I := fun s : System δ => s.Books ∧ s.Orderly) (fun l s s' h hnext => ?_)
      ⟨System.opened_books, System.opened_orderly⟩ hrun
    exact ⟨h.1.step (System.next_does hnext), h.2.step h.1 (System.next_does hnext)⟩
  refine ⟨horderly.2.sorted, horderly.2.shown, fun hintime => ?_⟩
  have hfollows : s.Books ∧ ∃ seen rest, s.Follows seen rest := by
    refine exec_invariant (I := fun s : System δ => s.Books ∧ ∃ seen rest, s.Follows seen rest) (fun l s s' h hok hnext => ?_)
      ⟨System.opened_books, [], [], System.opened_follows⟩ hintime hrun
    obtain ⟨hbooks, seen, rest, h⟩ := h
    exact ⟨hbooks.step (System.next_does hnext), h.step hbooks hok (System.next_does hnext)⟩
  obtain ⟨-, seen, rest, h⟩ := hfollows
  exact ⟨seen, h.caught⟩

end Capped

instance decInTime [DecidableEq δ] (l : DeliveryStep δ) (s : System δ) : Decidable (InTime l s) :=
  inferInstanceAs (Decidable (l = .connect → ∀ event ∈ s.history.take (s.history.length - streamMessageCap),
    shown event ≠ none → event.sequence ≤ s.session.lastSequence))

/-- The response is lost with a message unread, and another comes while there is none. -/
def interrupted : List (DeliveryStep ℕ) :=
  [.connect, .message (some .inbound) (some 5), .read, .message (some .outbound) (some 6), .heartbeat, .cut,
    .message (some .inbound) (some 7), .connect, .read, .heartbeat, .read, .finish .ended none, .read, .read]

theorem interrupted_delivered : ∃ s, exec System.next System.opened interrupted = some s ∧
    (s.session.streamMessages.map (·.data) = [5, 6, 7] ∧ s.session.streamLifecycle = .ended) ∧ ∃ seen, Caught s seen := by
  obtain ⟨s, hrun, hshown⟩ : ∃ s, exec System.next System.opened interrupted = some s ∧
      (s.session.streamMessages.map (·.data) = [5, 6, 7] ∧ s.session.streamLifecycle = .ended) :=
    exists_exec (by decide)
  exact ⟨s, hrun, hshown, (delivered interrupted s hrun).2.2 (by decide)⟩

end RedFireForge.Grpc.Delivery
