/-
# `RedFireForge.Grpc.StreamSse` — events as text, and the text taken in pieces

The server writes an event as a line with its name, a line with its JSON and an empty line.  The
reader gets the text in pieces that end anywhere, and keeps the line that is not yet complete; what
it reads does not depend on the pieces.  Where the text ends early it reads what has been completed
and, with the data cut short, the event that has not.
-/
import RedFireForge.ApiMock.JsonPath
import RedFireForge.Lib.Text

namespace RedFireForge.Grpc.StreamSse

open RedFireForge.Lib
open RedFireForge.ApiMock (isSpace trim)

/-! ## The reader -/

structure GrpcSseFrame where
  event : List Char
  data : List Char
deriving DecidableEq, Repr

structure LineState where
  eventType : List Char
  dataLine : List Char
deriving DecidableEq, Repr

def LineState.start : LineState := ⟨"message".toList, []⟩

def eventField : List Char := "event: ".toList

def dataField : List Char := "data: ".toList

/-- `if (dataLine) yield { event: eventType, data: dataLine }` -/
def LineState.yield (st : LineState) : List GrpcSseFrame :=
  if st.dataLine = [] then [] else [⟨st.eventType, st.dataLine⟩]

/-- A line that names a field. -/
def readField (st : LineState) (line : List Char) : LineState :=
  if eventField <+: line then { st with eventType := trim (line.drop 7) }
  else if dataField <+: line then { st with dataLine := line.drop 6 }
  else st

def readLine (st : LineState) (line : List Char) : List GrpcSseFrame × LineState :=
  if line = [] then (st.yield, .start) else ([], readField st line)

def readLines : LineState → List (List Char) → List GrpcSseFrame × LineState
  | st, [] => ([], st)
  | st, line :: lines =>
      let (frames, st') := readLine st line
      let (frames', st'') := readLines st' lines
      (frames ++ frames', st'')

structure Reader where
  buffer : List Char
  state : LineState
deriving DecidableEq, Repr

def Reader.start : Reader := ⟨[], .start⟩

/-- A piece of the text. -/
def Reader.take (r : Reader) (chunk : List Char) : List GrpcSseFrame × Reader :=
  let lines := (r.buffer ++ chunk).splitOn '\n'
  let (frames, st) := readLines r.state lines.dropLast
  (frames, ⟨lines.getLast?.getD [], st⟩)

def Reader.takeAll : Reader → List (List Char) → List GrpcSseFrame × Reader
  | r, [] => ([], r)
  | r, chunk :: chunks =>
      let (frames, r') := r.take chunk
      let (frames', r'') := r'.takeAll chunks
      (frames ++ frames', r'')

/-- The end of the text. -/
def Reader.finish (r : Reader) : List GrpcSseFrame :=
  (if r.buffer = [] then r.state else (r.buffer.splitOn '\n').foldl readField r.state).yield

/-- The frames that are yielded, for the pieces of a text as they are decoded; an abort after some
of them ends the reading by an exception. -/
def parseGrpcSseStream (chunks : List (List Char)) (abortAfter : Option ℕ) : List GrpcSseFrame :=
  match abortAfter with
  | none => (Reader.start.takeAll chunks).1 ++ (Reader.start.takeAll chunks).2.finish
  | some n => (Reader.start.takeAll (chunks.take n)).1

/-! ## The writer -/

/-- An event with its JSON. -/
structure WrittenEvent where
  name : List Char
  json : List Char
deriving DecidableEq, Repr

def WrittenEvent.frame (e : WrittenEvent) : GrpcSseFrame := ⟨e.name, e.json⟩

/-- `writeGrpcStreamSseEvent` -/
def writeGrpcStreamSseEvent (e : WrittenEvent) : List Char :=
  (eventField ++ e.name) ++ '\n' :: ((dataField ++ e.json) ++ '\n' :: ['\n'])

def written (events : List WrittenEvent) : List Char := events.flatMap writeGrpcStreamSseEvent

/-- JSON stands in one line, and a name has no white space around it. -/
structure WrittenEvent.OneLine (e : WrittenEvent) : Prop where
  name : '\n' ∉ e.name
  trimmed : trim e.name = e.name
  json : '\n' ∉ e.json
  some : e.json ≠ []

/-! ## One character after the other -/

theorem splitOn_of_notMem {u : List Char} (h : '\n' ∉ u) : u.splitOn '\n' = [u] := by
  induction u with
  | nil => rfl
  | cons c u ih =>
      rw [List.mem_cons, not_or] at h
      rw [List.splitOn_cons_eq_if_modifyHead, if_neg (by simpa using Ne.symm h.1), ih h.2]
      rfl

theorem splitOn_append_cons {u : List Char} (h : '\n' ∉ u) (x : List Char) :
    (u ++ '\n' :: x).splitOn '\n' = u :: x.splitOn '\n' := by
  induction u with
  | nil =>
      rw [List.nil_append, List.splitOn_cons_eq_if_modifyHead, if_pos (beq_self_eq_true _)]
  | cons c u ih =>
      rw [List.mem_cons, not_or] at h
      rw [List.cons_append, List.splitOn_cons_eq_if_modifyHead, if_neg (by simpa using Ne.symm h.1), ih h.2]
      rfl

/-- The reader, if each piece is one character. -/
def Reader.steps : Reader → List Char → List GrpcSseFrame × Reader
  | r, [] => ([], r)
  | r, c :: cs =>
      if c = '\n' then
        ((readLine r.state r.buffer).1 ++ (steps ⟨[], (readLine r.state r.buffer).2⟩ cs).1,
          (steps ⟨[], (readLine r.state r.buffer).2⟩ cs).2)
      else steps ⟨r.buffer ++ [c], r.state⟩ cs

namespace Reader

variable {r : Reader} {st : LineState} {u v : List Char}

theorem take_eq_steps (chunk : List Char) (h : '\n' ∉ r.buffer) : r.take chunk = r.steps chunk := by
  induction chunk generalizing r with
  | nil =>
      rw [take, List.append_nil, splitOn_of_notMem h]
      rfl
  | cons c chunk ih =>
      by_cases hc : c = '\n'
      · subst hc
        have hne : chunk.splitOn '\n' ≠ [] := List.splitOn_ne_nil _ _
        have hrest := ih (r := ⟨[], (readLine r.state r.buffer).2⟩) List.not_mem_nil
        rw [steps, if_pos rfl, ← hrest, take, take, splitOn_append_cons h, List.dropLast_cons_of_ne_nil hne,
          List.getLast?_cons_of_ne_nil hne]
        rfl
      · have hbuffer : '\n' ∉ r.buffer ++ [c] := by
          rw [List.mem_append, List.mem_singleton, not_or]
          exact ⟨h, Ne.symm hc⟩
        have hrest := ih (r := ⟨r.buffer ++ [c], r.state⟩) hbuffer
        rw [steps, if_neg hc, ← hrest, take, take, List.append_assoc]
        rfl

theorem steps_append (u v : List Char) : r.steps (u ++ v) =
    ((r.steps u).1 ++ ((r.steps u).2.steps v).1, ((r.steps u).2.steps v).2) := by
  induction u generalizing r with
  | nil => rfl
  | cons c u ih =>
      rw [List.cons_append, steps, steps]
      split
      next => rw [ih, List.append_assoc]
      next => exact ih

theorem steps_plain (h : '\n' ∉ u) : r.steps u = ([], ⟨r.buffer ++ u, r.state⟩) := by
  induction u generalizing r with
  | nil => rw [steps, List.append_nil]
  | cons c u ih =>
      rw [List.mem_cons, not_or] at h
      rw [steps, if_neg (Ne.symm h.1), ih h.2, List.append_assoc]
      rfl

/-- A line, and what comes after it. -/
theorem steps_line (h : '\n' ∉ u) : (⟨[], st⟩ : Reader).steps (u ++ '\n' :: v) =
    ((readLine st u).1 ++ ((⟨[], (readLine st u).2⟩ : Reader).steps v).1,
      ((⟨[], (readLine st u).2⟩ : Reader).steps v).2) := by
  rw [steps_append, steps_plain h, steps, if_pos rfl]
  rfl

theorem buffer_steps (cs : List Char) (h : '\n' ∉ r.buffer) : '\n' ∉ (r.steps cs).2.buffer := by
  induction cs generalizing r with
  | nil => exact h
  | cons c cs ih =>
      rw [steps]
      split
      next => exact ih List.not_mem_nil
      next hc =>
        refine ih ?_
        rw [List.mem_append, List.mem_singleton, not_or]
        exact ⟨h, Ne.symm hc⟩

/-- **The pieces do not matter.** -/
theorem takeAll_eq_steps (chunks : List (List Char)) (h : '\n' ∉ r.buffer) :
    r.takeAll chunks = r.steps chunks.flatten := by
  induction chunks generalizing r with
  | nil => rfl
  | cons chunk chunks ih =>
      rw [takeAll, take_eq_steps chunk h, List.flatten_cons, steps_append]
      simp only [ih (buffer_steps chunk h)]

end Reader

/-! ## Events -/

section Events

variable {e : WrittenEvent} {events : List WrittenEvent} {t u v : List Char} {st : LineState}

theorem not_eventField : ¬ eventField <+: dataField ++ u := by
  intro h
  exact absurd (List.cons_prefix_cons.mp h).1 (by decide)

theorem readLine_name (h : e.OneLine) : readLine .start (eventField ++ e.name) = ([], ⟨e.name, []⟩) := by
  have hne : eventField ++ e.name ≠ [] := List.append_ne_nil_of_left_ne_nil (by decide) _
  rw [readLine, if_neg hne, readField, if_pos (List.prefix_append _ _)]
  have hdrop : (eventField ++ e.name).drop 7 = e.name := rfl
  rw [hdrop, h.trimmed]
  rfl

theorem readLine_data : readLine st (dataField ++ u) = ([], { st with dataLine := u }) := by
  have hne : dataField ++ u ≠ [] := List.append_ne_nil_of_left_ne_nil (by decide) _
  rw [readLine, if_neg hne, readField, if_neg not_eventField, if_pos (List.prefix_append _ _)]
  rfl

theorem notMem_name (h : e.OneLine) : '\n' ∉ eventField ++ e.name := by
  rw [List.mem_append, not_or]
  exact ⟨by decide, h.name⟩

theorem notMem_data (h : e.OneLine) : '\n' ∉ dataField ++ e.json := by
  rw [List.mem_append, not_or]
  exact ⟨by decide, h.json⟩

/-- An event, and what comes after it. -/
theorem steps_event (h : e.OneLine) : Reader.start.steps (writeGrpcStreamSseEvent e ++ v) =
    (e.frame :: (Reader.start.steps v).1, (Reader.start.steps v).2) := by
  have htext : writeGrpcStreamSseEvent e ++ v =
      (eventField ++ e.name) ++ '\n' :: ((dataField ++ e.json) ++ '\n' :: ([] ++ '\n' :: v)) := by
    simp [writeGrpcStreamSseEvent]
  have hyield : readLine ⟨e.name, e.json⟩ [] = ([e.frame], .start) := by
    rw [readLine, if_pos rfl, LineState.yield, if_neg h.some]
    rfl
  rw [htext, Reader.start, Reader.steps_line (notMem_name h), readLine_name h, Reader.steps_line (notMem_data h),
    readLine_data, Reader.steps_line List.not_mem_nil, hyield]
  rfl

theorem steps_written (h : ∀ e ∈ events, e.OneLine) : Reader.start.steps (written events) =
    (events.map WrittenEvent.frame, Reader.start) := by
  induction events with
  | nil => rfl
  | cons e events ih =>
      rw [List.forall_mem_cons] at h
      rw [written, List.flatMap_cons, steps_event h.1, ← written, ih h.2]
      rfl

/-- What an event that is not complete may give: its data, cut short. -/
def Cut (e : Option WrittenEvent) (frames : List GrpcSseFrame) : Prop :=
  frames = [] ∨ ∃ e' ∈ e, ∃ d, d ≠ [] ∧ d <+: e'.json ∧ frames = [⟨e'.name, d⟩]

theorem not_dataField_of_event (h : u <+: eventField ++ v) : ¬ dataField <+: u := by
  intro hdata
  have hboth := List.prefix_of_prefix_length_le (hdata.trans h) (List.prefix_append eventField v) (by decide)
  exact absurd hboth (by decide)

theorem not_eventField_of_data (h : u <+: dataField ++ v) : ¬ eventField <+: u :=
  fun hevent => not_eventField (hevent.trans h)

theorem splitOn_beginning (h : '\n' ∉ v) (hu : u <+: v) : u.splitOn '\n' = [u] :=
  splitOn_of_notMem fun hmem => h (hu.subset hmem)

/-- What is left of the first line gives no frame. -/
theorem finish_first (h : e.OneLine) (hu : u <+: eventField ++ e.name) : (⟨u, .start⟩ : Reader).finish = [] := by
  rw [Reader.finish]
  split
  next => rfl
  next =>
    rw [splitOn_beginning (notMem_name h) hu, List.foldl_cons, List.foldl_nil, readField]
    split
    next => rfl
    next => rw [if_neg (not_dataField_of_event hu)]; rfl

/-- What is left of the second line gives the data as far as it goes. -/
theorem finish_second (h : e.OneLine) (hu : u <+: dataField ++ e.json) :
    Cut (some e) (⟨u, ⟨e.name, []⟩⟩ : Reader).finish := by
  rw [Reader.finish]
  split
  next => exact .inl rfl
  next =>
    rw [splitOn_beginning (notMem_data h) hu, List.foldl_cons, List.foldl_nil, readField,
      if_neg (not_eventField_of_data hu)]
    split
    next hfield =>
      obtain ⟨d, rfl⟩ := hfield
      have hd : (dataField ++ d).drop 6 = d := rfl
      rw [hd, LineState.yield]
      split
      next => exact .inl rfl
      next hne => exact .inr ⟨e, rfl, d, hne, (List.prefix_append_right_inj dataField).mp hu, rfl⟩
    next => exact .inl rfl

/-- A beginning of two texts with a line feed between them. -/
theorem beginning_cases (h : t <+: u ++ '\n' :: v) : t <+: u ∨ ∃ t', t = u ++ '\n' :: t' ∧ t' <+: v := by
  rcases Nat.lt_or_ge u.length t.length with hlt | hle
  · obtain ⟨t₁, rfl⟩ : u <+: t := List.prefix_of_prefix_length_le (List.prefix_append _ _) h (Nat.le_of_lt hlt)
    have hrest := (List.prefix_append_right_inj u).mp h
    cases t₁ with
    | nil =>
        rw [List.append_nil] at hlt
        exact absurd hlt (Nat.lt_irrefl _)
    | cons c t' =>
        obtain ⟨rfl, htail⟩ := List.cons_prefix_cons.mp hrest
        exact .inr ⟨t', rfl, htail⟩
  · exact .inl (List.prefix_of_prefix_length_le h (List.prefix_append _ _) hle)

/-- A beginning of an event's text, all of it left out. -/
theorem steps_cut (h : e.OneLine) (ht : t <+: writeGrpcStreamSseEvent e) (hne : t ≠ writeGrpcStreamSseEvent e) :
    (Reader.start.steps t).1 = [] ∧ Cut (some e) (Reader.start.steps t).2.finish := by
  rw [writeGrpcStreamSseEvent] at ht hne
  rcases beginning_cases ht with hfirst | ⟨t₁, rfl, ht₁⟩
  · rw [Reader.steps_plain fun hmem => notMem_name h (hfirst.subset hmem)]
    exact ⟨rfl, .inl (finish_first h hfirst)⟩
  · rw [Reader.start, Reader.steps_line (notMem_name h), readLine_name h]
    rcases beginning_cases ht₁ with hsecond | ⟨t₂, rfl, ht₂⟩
    · rw [Reader.steps_plain fun hmem => notMem_data h (hsecond.subset hmem)]
      exact ⟨rfl, finish_second h hsecond⟩
    · rw [Reader.steps_line (notMem_data h), readLine_data]
      obtain rfl : t₂ = [] := by
        cases t₂ with
        | nil => rfl
        | cons c t₃ =>
            obtain ⟨rfl, ht₃⟩ := List.cons_prefix_cons.mp ht₂
            rw [List.prefix_nil.mp ht₃] at hne
            exact absurd rfl hne
      refine ⟨rfl, .inr ⟨e, rfl, e.json, h.some, List.prefix_refl _, ?_⟩⟩
      exact if_neg h.some

/-- A beginning of the text of several events. -/
theorem steps_beginning (h : ∀ e ∈ events, e.OneLine) (ht : t <+: written events) :
    ∃ n, (Reader.start.steps t).1 = (events.take n).map WrittenEvent.frame ∧
      Cut events[n]? (Reader.start.steps t).2.finish := by
  induction events generalizing t with
  | nil =>
      rw [written, List.flatMap_nil, List.prefix_nil] at ht
      subst ht
      exact ⟨0, rfl, .inl rfl⟩
  | cons e events ih =>
      rw [List.forall_mem_cons] at h
      rw [written, List.flatMap_cons, ← written] at ht
      by_cases hall : writeGrpcStreamSseEvent e <+: t
      · obtain ⟨t', rfl⟩ := hall
        obtain ⟨n, hframes, hcut⟩ := ih h.2 ((List.prefix_append_right_inj _).mp ht)
        rw [steps_event h.1]
        refine ⟨n + 1, ?_, ?_⟩
        · rw [List.take_succ_cons, List.map_cons, ← hframes]
        · rw [List.getElem?_cons_succ]
          exact hcut
      · have hbegins : t <+: writeGrpcStreamSseEvent e := by
          refine List.prefix_of_prefix_length_le ht (List.prefix_append _ _) ?_
          by_contra hlong
          exact hall (List.prefix_of_prefix_length_le (List.prefix_append _ _) ht (Nat.le_of_not_le hlong))
        have hne : t ≠ writeGrpcStreamSseEvent e := by
          intro heq
          rw [heq] at hall
          exact hall (List.prefix_refl _)
        obtain ⟨hframes, hcut⟩ := steps_cut h.1 hbegins hne
        exact ⟨0, hframes, hcut⟩

end Events

/-! ## What is read -/

/-- **The reader gives back what the server wrote.**  However the text is cut into pieces, all of it
gives the events; a beginning of it, or reading that is aborted, gives the events up to some point
and then at most one more, whose data may be cut short. -/
theorem parsed (events : List WrittenEvent) (h : ∀ e ∈ events, e.OneLine) :
    (∀ chunks, chunks.flatten = written events → parseGrpcSseStream chunks none = events.map WrittenEvent.frame) ∧
      ∀ chunks abortAfter, chunks.flatten <+: written events → ∃ n cut,
        parseGrpcSseStream chunks abortAfter = (events.take n).map WrittenEvent.frame ++ cut ∧ Cut events[n]? cut := by
  have hstart : '\n' ∉ Reader.start.buffer := List.not_mem_nil
  refine ⟨fun chunks hchunks => ?_, fun chunks abortAfter hchunks => ?_⟩
  · rw [parseGrpcSseStream, Reader.takeAll_eq_steps chunks hstart, hchunks, steps_written h]
    exact List.append_nil _
  · cases abortAfter with
    | none =>
        obtain ⟨n, hframes, hcut⟩ := steps_beginning h hchunks
        refine ⟨n, _, ?_, hcut⟩
        rw [parseGrpcSseStream, Reader.takeAll_eq_steps chunks hstart, hframes]
    | some k =>
        have hbegins : (chunks.take k).flatten <+: written events := by
          refine List.IsPrefix.trans ?_ hchunks
          have hsplit : chunks.flatten = (chunks.take k).flatten ++ (chunks.drop k).flatten := by
            rw [← List.flatten_append, List.take_append_drop]
          rw [hsplit]
          exact List.prefix_append _ _
        obtain ⟨n, hframes, -⟩ := steps_beginning h hbegins
        refine ⟨n, [], ?_, .inl rfl⟩
        rw [parseGrpcSseStream, Reader.takeAll_eq_steps _ hstart, hframes, List.append_nil]

def endEvent : WrittenEvent := ⟨"grpc-end".toList, "\x7b\x7d".toList⟩

theorem endEvent_parsed : (∀ e ∈ [endEvent], e.OneLine) ∧
    parseGrpcSseStream ["event: grpc-e".toList, "nd\ndata: \x7b".toList, "\x7d\n\n".toList] none =
      [⟨"grpc-end".toList, "\x7b\x7d".toList⟩] := by
  have h : ∀ e ∈ [endEvent], e.OneLine := by
    intro e he
    rw [List.mem_singleton.mp he]
    exact ⟨by decide, by decide, by decide, by decide⟩
  exact ⟨h, (parsed [endEvent] h).1 _ (by decide)⟩

end RedFireForge.Grpc.StreamSse
