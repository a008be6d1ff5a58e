/-
# `RedFireForge.Kafka.ConsumeOnce` — a topic read page by page

One call reads at most `maxMessages` of what the broker delivers: the messages of each
partition in order, from where the call seeks or from the beginning, and the partitions
interleaved as the broker likes.  The cursor of the next page holds the partitions that the
page has messages of, and no others.

The broker delivers all there is before the time is up, and no call fails.  Filters and
schemas are left out, and so is what a message carries.
-/
import Mathlib.Algebra.Order.Floor.Semiring
import Mathlib.Algebra.Order.Ring.Rat
import Mathlib.Data.List.Induction
import Mathlib.Data.List.Perm.Basic
import Mathlib.Data.Finset.Max
import Mathlib.Data.Rat.Floor
import RedFireForge.Lib.InsertionMap
import RedFireForge.Lib.Run

namespace RedFireForge.Kafka

open RedFireForge.Lib

/-! ## Topics -/

/-- The offsets of the messages that a partition holds. -/
structure PartitionLog where
  low : ℕ
  high : ℕ
  offsets : List ℕ
  sorted : offsets.Pairwise (· < ·)
  bounds : ∀ o ∈ offsets, low ≤ o ∧ o < high

structure ConsumeRecord where
  partition : ℕ
  offset : ℕ
deriving DecidableEq, Repr

/-- The partitions, by number. -/
abbrev Topic := List PartitionLog

def Topic.log (topic : Topic) (p : ℕ) : PartitionLog := topic.getD p ⟨0, 0, [], .nil, nofun⟩

/-- The messages of a partition from an offset. -/
def Topic.readFrom (topic : Topic) (p start : ℕ) : List ConsumeRecord :=
  ((topic.log p).offsets.filter (start ≤ ·)).map (⟨p, ·⟩)

def Topic.messages (topic : Topic) : List ConsumeRecord :=
  (List.range topic.length).flatMap fun p => topic.readFrom p 0

/-! ## One page -/

inductive SortOrder
  | asc | desc
deriving DecidableEq, Repr

/-- Partitions with the offset to read on from. -/
abbrev Cursor := List (ℕ × ℕ)

structure ConsumeRequest where
  maxMessages : ℕ
  sortOrder : SortOrder
  seekOffsets : Option Cursor
  fromBeginning : Bool

structure ConsumeResult where
  messageCount : ℕ
  messages : List ConsumeRecord
  timedOut : Bool
  hasMore : Bool
  nextCursor : Option Cursor
deriving DecidableEq, Repr

/-- `Math.ceil((partitionCount / totalMessages) * maxMessages)`, exactly. -/
def share (partitionCount totalMessages maxMessages : ℕ) : ℕ :=
  ⌈(partitionCount : ℚ) / totalMessages * maxMessages⌉₊

def computeDescSeekOffsets (topic : Topic) (maxMessages : ℕ) : Cursor :=
  let totalMessages := (topic.map fun log => log.high - log.low).sum
  if totalMessages = 0 then []
  else ((List.range topic.length).filter fun p => (topic.log p).low < (topic.log p).high).map fun p =>
    let log := topic.log p
    (p, max log.low (log.high - share (log.high - log.low) totalMessages maxMessages))

/-- For each partition the offset that is better than all others. -/
def bestByPartition (better : ℕ → ℕ → Bool) (messages : List ConsumeRecord) : InsertionMap ℕ ℕ :=
  messages.foldl (fun best m => match best.lookup m.partition with
    | some current => if better m.offset current then best.set m.partition m.offset else best
    | none => best.set m.partition m.offset) ∅

def computeAscNextCursor (messages : List ConsumeRecord) : Cursor :=
  (bestByPartition (fun off current => off > current) messages).entries.map fun e => (e.1, e.2 + 1)

def computeDescNextCursor (topic : Topic) (messages : List ConsumeRecord) : Cursor :=
  ((bestByPartition (fun off current => off < current) messages).entries.filter fun e =>
    (topic.log e.1).low < e.2).map fun e => (e.1, e.2)

namespace ConsumeRequest

variable (request : ConsumeRequest)

/-- `Math.max(request.maxMessages, 1)` -/
def limit : ℕ := max request.maxMessages 1

def useFromBeginning : Bool :=
  request.sortOrder == .desc || request.seekOffsets.isSome || request.fromBeginning

def effectiveSeekOffsets (topic : Topic) : Cursor :=
  match request.seekOffsets, request.sortOrder with
  | some seekOffsets, _ => seekOffsets
  | none, .desc => computeDescSeekOffsets topic request.limit
  | none, .asc => []

/-- Where the consumer starts in a partition. -/
def startOffset (topic : Topic) (p : ℕ) : ℕ :=
  ((request.effectiveSeekOffsets topic).lookup p).getD
    (if request.useFromBeginning then (topic.log p).low else (topic.log p).high)

/-- An order in which the broker can deliver. -/
def Delivers (topic : Topic) (order : List ConsumeRecord) : Prop :=
  (∀ r ∈ order, r.partition < topic.length) ∧ ∀ p < topic.length,
    order.filter (·.partition = p) = topic.readFrom p (request.startOffset topic p)

instance (topic : Topic) (order : List ConsumeRecord) : Decidable (request.Delivers topic order) := by
  unfold Delivers
  infer_instance

end ConsumeRequest

def nonEmpty (cursor : Cursor) : Option Cursor := if cursor.isEmpty then none else some cursor

def executeConsumeOnce (topic : Topic) (request : ConsumeRequest) (order : List ConsumeRecord) :
    ConsumeResult :=
  let messages := order.take request.limit
  let timedOut := decide (messages.length < request.limit)
  match request.sortOrder with
  | .desc =>
      let messages := messages.mergeSort fun a b => b.offset ≤ a.offset
      let nextCursor := computeDescNextCursor topic messages
      ⟨messages.length, messages, timedOut, !nextCursor.isEmpty, nonEmpty nextCursor⟩
  | .asc =>
      let nextCursor := computeAscNextCursor messages
      ⟨messages.length, messages, timedOut, nextCursor.any fun c => c.2 < (topic.log c.1).high, nonEmpty nextCursor⟩

/-! ## Page after page -/

/-- Between two calls in ascending order. -/
structure Paging where
  cursor : Option Cursor
  returned : List ConsumeRecord
  hasMore : Bool

namespace Paging

def initial : Paging := ⟨none, [], true⟩

/-- The request of the next page. -/
def request (s : Paging) (maxMessages : ℕ) : ConsumeRequest := ⟨maxMessages, .asc, s.cursor, true⟩

/-- A page, with the order in which the broker delivers. -/
def next (topic : Topic) (maxMessages : ℕ) (order : List ConsumeRecord) (s : Paging) : Option Paging :=
  if s.hasMore = true ∧ (s.request maxMessages).Delivers topic order then
    let result := executeConsumeOnce topic (s.request maxMessages) order
    some ⟨result.nextCursor, s.returned ++ result.messages, result.hasMore⟩
  else none

/-- No message came twice, and none is missing at the end. -/
structure ExactlyOnce (topic : Topic) (s : Paging) : Prop where
  nodup : s.returned.Nodup
  complete : s.hasMore = false → s.returned.Perm topic.messages

/-- The page brings messages only of partitions that the page before did, or none has yet; and
if it reaches the end of each of these, no message is left. -/
def StaysOnce (topic : Topic) (maxMessages : ℕ) (order : List ConsumeRecord) (s : Paging) : Prop :=
  let page := order.take (max maxMessages 1)
  (∀ r ∈ page, r.partition ∈ (s.cursor.getD []).map Prod.fst ∨
      ∀ r' ∈ s.returned, r'.partition ≠ r.partition) ∧
    ((∀ r ∈ page, ∃ r' ∈ page, r'.partition = r.partition ∧ r'.offset + 1 = (topic.log r.partition).high) →
      ∀ r ∈ topic.messages, r ∈ s.returned ∨ r ∈ page)

instance (topic : Topic) (maxMessages : ℕ) (order : List ConsumeRecord) (s : Paging) :
    Decidable (StaysOnce topic maxMessages order s) := by
  unfold StaysOnce
  infer_instance

end Paging

/-! ## Orders of delivery -/

section Orders

variable {topic : Topic} {p start : ℕ} {r r' : ConsumeRecord} {request : ConsumeRequest}
  {order : List ConsumeRecord}

theorem log_of_le (h : topic.length ≤ p) : (topic.log p).offsets = [] := by
  unfold Topic.log
  rw [List.getD_eq_getElem?_getD, List.getElem?_eq_none h]
  rfl

theorem mem_readFrom : r ∈ topic.readFrom p start ↔
    r.partition = p ∧ r.offset ∈ (topic.log p).offsets ∧ start ≤ r.offset := by
  unfold Topic.readFrom
  rw [List.mem_map]
  constructor
  · rintro ⟨o, ho, rfl⟩
    rw [List.mem_filter, decide_eq_true_iff] at ho
    exact ⟨rfl, ho⟩
  · rintro ⟨rfl, ho, hle⟩
    exact ⟨r.offset, List.mem_filter.mpr ⟨ho, decide_eq_true hle⟩, rfl⟩

theorem readFrom_sorted : (topic.readFrom p start).Pairwise fun r r' => r.offset < r'.offset := by
  unfold Topic.readFrom
  rw [List.pairwise_map]
  exact (topic.log p).sorted.filter _

theorem lt_of_mem_log (h : r.offset ∈ (topic.log r.partition).offsets) : r.partition < topic.length := by
  by_contra hge
  rw [log_of_le (not_lt.mp hge)] at h
  cases h

theorem mem_messages : r ∈ topic.messages ↔ r.offset ∈ (topic.log r.partition).offsets := by
  unfold Topic.messages
  rw [List.mem_flatMap]
  constructor
  · rintro ⟨p, -, hr⟩
    obtain ⟨rfl, ho, -⟩ := mem_readFrom.mp hr
    exact ho
  · intro ho
    exact ⟨r.partition, List.mem_range.mpr (lt_of_mem_log ho), mem_readFrom.mpr ⟨rfl, ho, Nat.zero_le _⟩⟩

theorem readFrom_nodup : (topic.readFrom p start).Nodup :=
  readFrom_sorted.imp fun hlt heq => absurd (congrArg ConsumeRecord.offset heq) (Nat.ne_of_lt hlt)

theorem nodup_flatMap_readFrom {ps : List ℕ} (hps : ps.Nodup) (start : ℕ → ℕ) :
    (ps.flatMap fun p => topic.readFrom p (start p)).Nodup := by
  rw [List.nodup_flatMap]
  refine ⟨fun p _ => readFrom_nodup, hps.imp fun hne => ?_⟩
  intro r hr hr'
  exact hne ((mem_readFrom.mp hr).1.symm.trans (mem_readFrom.mp hr').1)

theorem messages_nodup : topic.messages.Nodup := nodup_flatMap_readFrom List.nodup_range fun _ => 0

namespace ConsumeRequest.Delivers

variable (h : request.Delivers topic order)
include h

theorem mem_iff : r ∈ order ↔ r.offset ∈ (topic.log r.partition).offsets ∧
    request.startOffset topic r.partition ≤ r.offset := by
  have hfilter : r ∈ order ↔ r ∈ order.filter (·.partition = r.partition) := by
    rw [List.mem_filter]
    exact ⟨fun hr => ⟨hr, decide_eq_true rfl⟩, And.left⟩
  constructor
  · intro hr
    have hlt := h.1 r hr
    rw [hfilter, h.2 _ hlt] at hr
    exact (mem_readFrom.mp hr).2
  · rintro ⟨ho, hle⟩
    rw [hfilter, h.2 _ (lt_of_mem_log ho)]
    exact mem_readFrom.mpr ⟨rfl, ho, hle⟩

theorem nodup : order.Nodup := by
  rw [List.nodup_iff_count_le_one]
  intro r
  by_cases hr : r ∈ order
  · have hcount : order.count r = (order.filter (·.partition = r.partition)).count r :=
      (List.count_filter (p := fun x : ConsumeRecord => decide (x.partition = r.partition)) (decide_eq_true rfl)).symm
    rw [hcount, h.2 _ (h.1 r hr)]
    exact List.nodup_iff_count_le_one.mp readFrom_nodup r
  · rw [List.count_eq_zero_of_not_mem hr]
    exact Nat.zero_le _

/-- What comes before a message of the page in its partition is in the page. -/
theorem mem_take {n : ℕ} (hr : r ∈ order.take n) (hr' : r' ∈ order) (hsame : r'.partition = r.partition)
    (hlt : r'.offset < r.offset) : r' ∈ order.take n := by
  rw [← List.take_append_drop n order, List.mem_append] at hr'
  refine hr'.resolve_right fun hdrop => ?_
  have hsorted := h.2 _ (h.1 r (List.mem_of_mem_take hr)) ▸ readFrom_sorted
  rw [← List.take_append_drop n order, List.filter_append, List.pairwise_append] at hsorted
  have hgt := hsorted.2.2 r (List.mem_filter.mpr ⟨hr, decide_eq_true rfl⟩) r'
    (List.mem_filter.mpr ⟨hdrop, decide_eq_true hsame⟩)
  exact absurd hlt (Nat.lt_asymm hgt)

end ConsumeRequest.Delivers

end Orders

/-! ## Cursors -/

section Cursors

variable {ms : List ConsumeRecord} {p o : ℕ}

/-- The best offset of a partition by a rank, if it has a message. -/
theorem lookup_best (rank : ℕ → ℤ) : (∀ o, (bestByPartition (fun off current => rank current < rank off) ms).lookup p = some o →
      ⟨p, o⟩ ∈ ms ∧ ∀ r ∈ ms, r.partition = p → rank r.offset ≤ rank o) ∧
    ((bestByPartition (fun off current => rank current < rank off) ms).lookup p = none → ∀ r ∈ ms, r.partition ≠ p) := by
  induction ms using List.reverseRecOn with
  | nil => exact ⟨fun _ h => (nomatch h), fun _ => nofun⟩
  | append_singleton ms m ih =>
      obtain ⟨hsome, hnone⟩ := ih
      unfold bestByPartition at hsome hnone ⊢
      rw [List.foldl_append]
      generalize List.foldl _ (∅ : InsertionMap ℕ ℕ) ms = best at hsome hnone ⊢
      rw [List.foldl_cons, List.foldl_nil]
      -- another partition's message changes nothing
      have hother : ∀ {best' : InsertionMap ℕ ℕ}, best'.lookup p = best.lookup p → p ≠ m.partition →
          (∀ o, best'.lookup p = some o → ⟨p, o⟩ ∈ ms ++ [m] ∧ ∀ r ∈ ms ++ [m], r.partition = p → rank r.offset ≤ rank o) ∧
            (best'.lookup p = none → ∀ r ∈ ms ++ [m], r.partition ≠ p) := by
        intro best' hsame hne
        rw [hsame]
        constructor
        · intro o ho
          refine ⟨List.mem_append_left _ (hsome o ho).1, fun r hr hp => ?_⟩
          rcases List.mem_append.mp hr with hr | hr
          · exact (hsome o ho).2 r hr hp
          · rw [List.mem_singleton.mp hr] at hp
            exact absurd hp.symm hne
        · intro ho r hr
          rcases List.mem_append.mp hr with hr | hr
          · exact hnone ho r hr
          · rw [List.mem_singleton.mp hr]
            exact Ne.symm hne
      -- the message is the best of its partition so far
      have hset : p = m.partition → (∀ r ∈ ms, r.partition = p → rank r.offset ≤ rank m.offset) →
          (∀ o, (best.set m.partition m.offset).lookup p = some o →
              ⟨p, o⟩ ∈ ms ++ [m] ∧ ∀ r ∈ ms ++ [m], r.partition = p → rank r.offset ≤ rank o) ∧
            ((best.set m.partition m.offset).lookup p = none → ∀ r ∈ ms ++ [m], r.partition ≠ p) := by
        rintro rfl hle
        rw [InsertionMap.lookup_set_self]
        refine ⟨?_, nofun⟩
        rintro o ⟨⟩
        refine ⟨List.mem_append_right _ (List.mem_singleton_self _), fun r hr hp => ?_⟩
        rcases List.mem_append.mp hr with hr | hr
        · exact hle r hr hp
        · rw [List.mem_singleton.mp hr]
      by_cases hp : p = m.partition
      · subst hp
        cases hlookup : best.lookup m.partition with
        | none => exact hset rfl fun r hr hr' => absurd hr' (hnone hlookup r hr)
        | some current =>
            dsimp only
            obtain ⟨hmem, hle⟩ := hsome current hlookup
            split
            next hgt =>
              rw [decide_eq_true_iff] at hgt
              exact hset rfl fun r hr hr' => (hle r hr hr').trans hgt.le
            next hngt =>
              rw [decide_eq_true_iff, not_lt] at hngt
              rw [hlookup]
              refine ⟨?_, nofun⟩
              rintro o ⟨⟩
              refine ⟨List.mem_append_left _ hmem, fun r hr hr' => ?_⟩
              rcases List.mem_append.mp hr with hr | hr
              · exact hle r hr hr'
              · rw [List.mem_singleton.mp hr]
                exact hngt
      · have hsame : (best.set m.partition m.offset).lookup p = best.lookup p := InsertionMap.lookup_set_ne hp
        split
        next =>
          split
          next => exact hother hsame hp
          next => exact hother rfl hp
        next => exact hother hsame hp

/-- The largest offset of a partition, if it has a message. -/
theorem lookup_largest : (∀ o, (bestByPartition (fun off current => off > current) ms).lookup p = some o →
      ⟨p, o⟩ ∈ ms ∧ ∀ r ∈ ms, r.partition = p → r.offset ≤ o) ∧
    ((bestByPartition (fun off current => off > current) ms).lookup p = none → ∀ r ∈ ms, r.partition ≠ p) := by
  have h := @lookup_best ms p fun o => (o : ℤ)
  simpa only [Nat.cast_lt, Nat.cast_le] using h

/-- The smallest offset of a partition, if it has a message. -/
theorem lookup_smallest : (∀ o, (bestByPartition (fun off current => off < current) ms).lookup p = some o →
      ⟨p, o⟩ ∈ ms ∧ ∀ r ∈ ms, r.partition = p → o ≤ r.offset) ∧
    ((bestByPartition (fun off current => off < current) ms).lookup p = none → ∀ r ∈ ms, r.partition ≠ p) := by
  have h := @lookup_best ms p fun o => -(o : ℤ)
  simpa only [neg_lt_neg_iff, neg_le_neg_iff, Nat.cast_lt, Nat.cast_le] using h

theorem lookup_map_entries (m : InsertionMap ℕ ℕ) (f : ℕ → ℕ) :
    (m.entries.map fun e => (e.1, f e.2)).lookup p = (m.lookup p).map f := by
  unfold AList.lookup
  induction m.entries with
  | nil => rfl
  | cons e es ih =>
      obtain ⟨q, v⟩ := e
      rw [List.map_cons, List.lookup_cons]
      by_cases hq : p = q
      · subst hq
        rw [List.dlookup_cons_eq]
        simp
      · rw [List.dlookup_cons_ne _ _ hq, ← ih, beq_eq_false_iff_ne.mpr hq]

theorem mem_keys_iff {cursor : Cursor} : p ∈ cursor.map Prod.fst ↔ ∃ off, cursor.lookup p = some off := by
  rw [← Option.isSome_iff_exists, ← Option.ne_none_iff_isSome, Ne, List.lookup_eq_none_iff]
  simp

/-- The next page reads on behind the last message of each partition of the page. -/
theorem lookup_ascNextCursor {off : ℕ} (h : (computeAscNextCursor ms).lookup p = some off) :
    ∃ o, off = o + 1 ∧ ⟨p, o⟩ ∈ ms ∧ ∀ r ∈ ms, r.partition = p → r.offset ≤ o := by
  unfold computeAscNextCursor at h
  rw [lookup_map_entries _ (· + 1)] at h
  obtain ⟨o, ho, rfl⟩ := Option.map_eq_some_iff.mp h
  exact ⟨o, rfl, lookup_largest.1 o ho⟩

/-- There is more exactly where the page does not reach the end of a partition that it has
messages of. -/
theorem any_ascNextCursor {topic : Topic} (hms : ∀ r ∈ ms, r.offset ∈ (topic.log r.partition).offsets) :
    ((computeAscNextCursor ms).any fun c => c.2 < (topic.log c.1).high) = false ↔
      ∀ r ∈ ms, ∃ r' ∈ ms, r'.partition = r.partition ∧ r'.offset + 1 = (topic.log r.partition).high := by
  unfold computeAscNextCursor
  rw [List.any_map, List.any_eq_false]
  simp only [Function.comp_apply, decide_eq_true_iff, not_lt]
  constructor
  · intro h r hr
    cases hlookup : (bestByPartition (fun off current => off > current) ms).lookup r.partition with
    | none => exact absurd rfl (lookup_largest.2 hlookup r hr)
    | some o =>
        obtain ⟨hmem, -⟩ := lookup_largest.1 o hlookup
        have hhigh := h ⟨r.partition, o⟩ (InsertionMap.mem_entries.mpr hlookup)
        have hlt := ((topic.log r.partition).bounds o (hms _ hmem)).2
        exact ⟨_, hmem, rfl, Nat.le_antisymm hlt hhigh⟩
  · rintro h ⟨q, o⟩ he
    obtain ⟨hmem, hle⟩ := lookup_largest.1 o (InsertionMap.mem_entries.mp he)
    obtain ⟨r', hr', hsame, hend⟩ := h _ hmem
    have := hle r' hr' hsame
    dsimp only at hend ⊢
    omega

end Cursors

/-! ## Runs of pages -/

namespace Paging

variable {topic : Topic} {maxMessages : ℕ} {order : List ConsumeRecord} {s s' : Paging}

/-- What has been returned, before a page or after the last: of each partition the messages up to
one of them, and up to the cursor where there is one. -/
structure Inv (topic : Topic) (s : Paging) : Prop where
  once : s.ExactlyOnce topic
  known : ∀ r ∈ s.returned, r.offset ∈ (topic.log r.partition).offsets
  closed : ∀ r ∈ s.returned, ∀ o ∈ (topic.log r.partition).offsets, o < r.offset → ⟨r.partition, o⟩ ∈ s.returned
  cursor : ∀ p off, (s.cursor.getD []).lookup p = some off →
    ∀ o ∈ (topic.log p).offsets, (⟨p, o⟩ ∈ s.returned ↔ o < off)

theorem initial_inv : initial.Inv topic where
  once := ⟨List.nodup_nil, nofun⟩
  known := nofun
  closed := nofun
  cursor := nofun

theorem startOffset_request (p : ℕ) : (s.request maxMessages).startOffset topic p =
    ((s.cursor.getD []).lookup p).getD (topic.log p).low := by
  have huse : (s.request maxMessages).useFromBeginning = true := by
    simp [ConsumeRequest.useFromBeginning, request]
  have hseeks : (s.request maxMessages).effectiveSeekOffsets topic = s.cursor.getD [] := by
    unfold ConsumeRequest.effectiveSeekOffsets request
    cases s.cursor <;> rfl
  unfold ConsumeRequest.startOffset
  rw [hseeks, huse, if_pos rfl]

/-- What a page does. -/
theorem next_eq_some (h : next topic maxMessages order s = some s') :
    s.hasMore = true ∧ (s.request maxMessages).Delivers topic order ∧
      s' = ⟨nonEmpty (computeAscNextCursor (order.take (max maxMessages 1))),
        s.returned ++ order.take (max maxMessages 1),
        (computeAscNextCursor (order.take (max maxMessages 1))).any fun c => c.2 < (topic.log c.1).high⟩ := by
  unfold next at h
  split at h
  next hcan =>
    cases h
    exact ⟨hcan.1, hcan.2, rfl⟩
  next => cases h

theorem nonEmpty_getD (cursor : Cursor) : (nonEmpty cursor).getD [] = cursor := by
  unfold nonEmpty
  split
  next hempty => exact (List.isEmpty_iff.mp hempty).symm
  next => rfl

section Step

variable (h : s.Inv topic) (hd : (s.request maxMessages).Delivers topic order)
include h hd

/-- Of a partition in the cursor, a page brings what has not been returned. -/
theorem fresh_of_cursor {r : ConsumeRecord} (hr : r ∈ order)
    (hkey : r.partition ∈ (s.cursor.getD []).map Prod.fst) : r ∉ s.returned := by
  obtain ⟨off, hoff⟩ := mem_keys_iff.mp hkey
  obtain ⟨ho, hle⟩ := hd.mem_iff.mp hr
  rw [startOffset_request, hoff, Option.getD_some] at hle
  intro hret
  exact absurd ((h.cursor _ off hoff _ ho).mp hret) (not_lt.mpr hle)

/-- The messages before one of the page in its partition have been returned or are in the page. -/
theorem closed_page {r : ConsumeRecord} (hr : r ∈ order.take (max maxMessages 1)) {o : ℕ}
    (ho : o ∈ (topic.log r.partition).offsets) (hlt : o < r.offset) :
    ⟨r.partition, o⟩ ∈ s.returned ++ order.take (max maxMessages 1) := by
  by_cases hstart : (s.request maxMessages).startOffset topic r.partition ≤ o
  · exact List.mem_append_right _ (hd.mem_take hr (hd.mem_iff.mpr ⟨ho, hstart⟩) rfl hlt)
  · rw [startOffset_request] at hstart
    cases hlookup : (s.cursor.getD []).lookup r.partition with
    | none =>
        rw [hlookup, Option.getD_none] at hstart
        exact absurd ((topic.log r.partition).bounds o ho).1 hstart
    | some off =>
        rw [hlookup, Option.getD_some, not_le] at hstart
        exact List.mem_append_left _ ((h.cursor _ off hlookup o ho).mpr hstart)

/-- Where a page brings something again, it brings the first message of a partition again. -/
theorem repeats_of_stale {r r' : ConsumeRecord} (hr : r ∈ order.take (max maxMessages 1))
    (hkey : r.partition ∉ (s.cursor.getD []).map Prod.fst) (hr' : r' ∈ s.returned)
    (hsame : r'.partition = r.partition) : ¬ (s.returned ++ order.take (max maxMessages 1)).Nodup := by
  have hlookup : (s.cursor.getD []).lookup r.partition = none := by
    rw [← Option.not_isSome_iff_eq_none, Option.isSome_iff_exists]
    exact fun hsome => hkey (mem_keys_iff.mpr hsome)
  have hknown := h.known r' hr'
  rw [hsame] at hknown
  intro hnodup
  -- the smaller of the two is returned, and in the page
  have hdisjoint := (List.nodup_append.mp hnodup).2.2
  rcases Nat.lt_or_ge r'.offset r.offset with hlt | hge
  · have hin : ⟨r.partition, r'.offset⟩ ∈ order.take (max maxMessages 1) := by
      refine hd.mem_take hr (hd.mem_iff.mpr ⟨hknown, ?_⟩) rfl hlt
      rw [startOffset_request, hlookup]
      exact ((topic.log r.partition).bounds _ hknown).1
    rw [← hsame] at hin
    exact hdisjoint r' hr' r' hin rfl
  · have hret : r ∈ s.returned := by
      rcases Nat.lt_or_eq_of_le hge with hlt | heq
      · have hclosed := h.closed r' hr' r.offset (hsame ▸ (hd.mem_iff.mp (List.mem_of_mem_take hr)).1) hlt
        rwa [hsame] at hclosed
      · obtain rfl : r = r' := by
          cases r
          cases r'
          cases hsame
          cases heq
          rfl
        exact hr'
    exact hdisjoint r hret r hr rfl

end Step

/-- A page keeps what was returned without repetition and gap, exactly if it is one that does. -/
theorem next_inv (h : s.Inv topic) (hnext : next topic maxMessages order s = some s') :
    (StaysOnce topic maxMessages order s → s'.Inv topic) ∧
      (s'.ExactlyOnce topic → StaysOnce topic maxMessages order s) := by
  obtain ⟨-, hd, rfl⟩ := next_eq_some hnext
  have hpage : ∀ r ∈ order.take (max maxMessages 1), r.offset ∈ (topic.log r.partition).offsets :=
    fun r hr => (hd.mem_iff.mp (List.mem_of_mem_take hr)).1
  have hknown : ∀ r ∈ s.returned ++ order.take (max maxMessages 1), r.offset ∈ (topic.log r.partition).offsets := by
    intro r hr
    rcases List.mem_append.mp hr with hr | hr
    · exact h.known r hr
    · exact hpage r hr
  have hmore := any_ascNextCursor hpage
  constructor
  · rintro ⟨hfresh, hall⟩
    have hnot : ∀ r ∈ order.take (max maxMessages 1), r ∉ s.returned := by
      intro r hr
      rcases hfresh r hr with hkey | hnone
      · exact fresh_of_cursor h hd (List.mem_of_mem_take hr) hkey
      · exact fun hret => hnone r hret rfl
    have hnodup : (s.returned ++ order.take (max maxMessages 1)).Nodup := by
      refine List.nodup_append.mpr ⟨h.once.nodup, hd.nodup.sublist (List.take_sublist _ _), ?_⟩
      rintro r hret r' hr rfl
      exact hnot r hr hret
    refine ⟨⟨hnodup, fun hdone => ?_⟩, hknown, fun r hr o ho hlt => ?_, fun p off hoff o ho => ?_⟩
    · refine (List.perm_ext_iff_of_nodup hnodup messages_nodup).mpr fun r => ?_
      rw [mem_messages]
      refine ⟨hknown r, fun ho => ?_⟩
      exact List.mem_append.mpr (hall (hmore.mp hdone) r (mem_messages.mpr ho))
    · rcases List.mem_append.mp hr with hr | hr
      · exact List.mem_append_left _ (h.closed r hr o ho hlt)
      · exact closed_page h hd hr ho hlt
    · rw [nonEmpty_getD] at hoff
      obtain ⟨last, rfl, hmem, hle⟩ := lookup_ascNextCursor hoff
      constructor
      · intro hin
        rcases List.mem_append.mp hin with hret | hin
        · -- it is of a partition that the page goes on with
          refine Nat.lt_succ_of_le (Nat.le_of_lt ?_)
          have hkey := (hfresh _ hmem).resolve_right fun hnone => hnone _ hret rfl
          obtain ⟨off', hoff'⟩ := mem_keys_iff.mp hkey
          have hlast := (hd.mem_iff.mp (List.mem_of_mem_take hmem)).2
          rw [startOffset_request, hoff', Option.getD_some] at hlast
          exact Nat.lt_of_lt_of_le ((h.cursor p off' hoff' o ho).mp hret) hlast
        · exact Nat.lt_succ_of_le (hle _ hin rfl)
      · intro hlt
        rcases Nat.lt_or_eq_of_le (Nat.le_of_lt_succ hlt) with hlt | rfl
        · exact closed_page h hd hmem ho hlt
        · exact List.mem_append_right _ hmem
  · rintro ⟨hnodup, hcomplete⟩
    constructor
    · intro r hr
      by_contra hnot
      obtain ⟨hkey, hsome⟩ := not_or.mp hnot
      obtain ⟨r', hr'⟩ := not_forall.mp hsome
      rw [Classical.not_imp, not_not] at hr'
      exact repeats_of_stale h hd hr hkey hr'.1 hr'.2 hnodup
    · intro hend r hr
      exact List.mem_append.mp ((hcomplete (hmore.mpr hend)).mem_iff.mpr hr)

/-- A page brings messages, or it is the last. -/
theorem next_lowers (h : s'.Inv topic) (hnext : next topic maxMessages order s = some s') :
    s'.returned.length ≤ topic.messages.length ∧ (s.returned.length < s'.returned.length ∨ s'.hasMore = false) := by
  constructor
  · exact (List.subperm_of_subset h.once.nodup fun r hr => mem_messages.mpr (h.known r hr)).length_le
  · obtain ⟨-, -, rfl⟩ := next_eq_some hnext
    cases hpage : order.take (max maxMessages 1) with
    | nil => exact Or.inr rfl
    | cons r page =>
        left
        simp

end Paging

/-! ## The newest messages -/

/-- One call in descending order, from no cursor. -/
def newestRequest (maxMessages : ℕ) : ConsumeRequest := ⟨maxMessages, .desc, none, false⟩

/-- Of each partition the newest messages only, and the newest of the largest. -/
structure Newest (topic : Topic) (messages : List ConsumeRecord) : Prop where
  known : ∀ r ∈ messages, r.offset ∈ (topic.log r.partition).offsets
  suffix : ∀ r ∈ messages, ∀ o ∈ (topic.log r.partition).offsets, r.offset < o → ⟨r.partition, o⟩ ∈ messages
  newest : ∀ p, (∀ q, (topic.log q).offsets.length ≤ (topic.log p).offsets.length) →
    ∀ o ∈ (topic.log p).offsets.getLast?, ⟨p, o⟩ ∈ messages

/-- Everything from where the partitions are sought. -/
def ConsumeRequest.sought (request : ConsumeRequest) (topic : Topic) : List ConsumeRecord :=
  (List.range topic.length).flatMap fun p => topic.readFrom p (request.startOffset topic p)

/-- The windows that are sought have room in one page, and that of the largest partition reaches
its newest message. -/
def WindowsFit (topic : Topic) (maxMessages : ℕ) : Prop :=
  ((newestRequest maxMessages).sought topic).length ≤ max maxMessages 1 ∧
    ∀ p, (∀ q, (topic.log q).offsets.length ≤ (topic.log p).offsets.length) →
      ∀ o ∈ (topic.log p).offsets.getLast?, (newestRequest maxMessages).startOffset topic p ≤ o

section Windows

variable {topic : Topic} {request : ConsumeRequest} {order : List ConsumeRecord}

/-- The partitions one after the other are an order of delivery. -/
theorem delivers_flatMap {ps : List ℕ} (hps : ps.Perm (List.range topic.length)) :
    request.Delivers topic (ps.flatMap fun p => topic.readFrom p (request.startOffset topic p)) := by
  constructor
  · intro r hr
    obtain ⟨p, -, hr⟩ := List.mem_flatMap.mp hr
    obtain ⟨rfl, ho, -⟩ := mem_readFrom.mp hr
    exact lt_of_mem_log ho
  · intro p hp
    have hmem : p ∈ ps := hps.mem_iff.mpr (List.mem_range.mpr hp)
    have hnodup : ps.Nodup := hps.nodup_iff.mpr List.nodup_range
    have hnone : ∀ {qs : List ℕ}, p ∉ qs →
        (qs.flatMap fun q => topic.readFrom q (request.startOffset topic q)).filter (·.partition = p) = [] := by
      intro qs hqs
      rw [List.filter_eq_nil_iff]
      intro r hr heq
      obtain ⟨q, hq, hr⟩ := List.mem_flatMap.mp hr
      obtain ⟨rfl, -⟩ := mem_readFrom.mp hr
      exact hqs (of_decide_eq_true heq ▸ hq)
    obtain ⟨before, after, rfl⟩ := List.append_of_mem hmem
    have hsplit := List.nodup_append.mp hnodup
    rw [List.flatMap_append, List.flatMap_cons, List.filter_append, List.filter_append,
      hnone fun hb => hsplit.2.2 p hb p List.mem_cons_self rfl, hnone (List.nodup_cons.mp hsplit.2.1).1,
      List.nil_append, List.append_nil, List.filter_eq_self]
    exact fun r hr => decide_eq_true (mem_readFrom.mp hr).1

theorem sought_delivers : request.Delivers topic (request.sought topic) := delivers_flatMap (List.Perm.refl _)

theorem length_of_delivers (hd : request.Delivers topic order) : order.length = (request.sought topic).length := by
  refine List.Perm.length_eq ((List.perm_ext_iff_of_nodup hd.nodup sought_delivers.nodup).mpr fun r => ?_)
  have hsought : request.Delivers topic (request.sought topic) := sought_delivers
  rw [hd.mem_iff, hsought.mem_iff]

/-- A topic with messages has a partition that no other is larger than. -/
theorem exists_largest {r : ConsumeRecord} (hr : r.offset ∈ (topic.log r.partition).offsets) :
    ∃ p < topic.length, (∀ q, (topic.log q).offsets.length ≤ (topic.log p).offsets.length) ∧
      (topic.log p).offsets ≠ [] := by
  obtain ⟨p, hp, hmax⟩ := Finset.exists_max_image (Finset.range topic.length)
    (fun p => (topic.log p).offsets.length) ⟨r.partition, Finset.mem_range.mpr (lt_of_mem_log hr)⟩
  have hlargest : ∀ q, (topic.log q).offsets.length ≤ (topic.log p).offsets.length := by
    intro q
    rcases Nat.lt_or_ge q topic.length with hlt | hge
    · exact hmax q (Finset.mem_range.mpr hlt)
    · rw [log_of_le hge]
      exact Nat.zero_le _
  refine ⟨p, Finset.mem_range.mp hp, hlargest, fun hnil => ?_⟩
  have hle := hlargest r.partition
  rw [hnil, List.length_nil, Nat.le_zero, List.length_eq_zero_iff] at hle
  rw [hle] at hr
  cases hr

/-- The newest message of a partition comes last of it. -/
theorem readFrom_newest {p o start : ℕ} (ho : o ∈ (topic.log p).offsets.getLast?) (hle : start ≤ o) :
    ∃ before, topic.readFrom p start = before ++ [⟨p, o⟩] := by
  obtain ⟨init, hinit⟩ := List.getLast?_eq_some_iff.mp ho
  refine ⟨(init.filter (start ≤ ·)).map (⟨p, ·⟩), ?_⟩
  unfold Topic.readFrom
  have hlast : [o].filter (start ≤ ·) = [o] := List.filter_eq_self.mpr fun o' ho' =>
    decide_eq_true (List.mem_singleton.mp ho' ▸ hle)
  rw [hinit, List.filter_append, hlast, List.map_append]
  rfl

/-- Where the windows are too long, one order cuts off the newest message of a partition. -/
theorem cut_of_long {p o n : ℕ} (hp : p < topic.length) (ho : o ∈ (topic.log p).offsets.getLast?)
    (hlong : n < (request.sought topic).length) :
    ∃ order, request.Delivers topic order ∧ ⟨p, o⟩ ∉ order.take n := by
  have hperm : (((List.range topic.length).erase p) ++ [p]).Perm (List.range topic.length) :=
    (List.perm_append_singleton _ _).trans (List.perm_cons_erase (List.mem_range.mpr hp)).symm
  have hd : request.Delivers topic _ := delivers_flatMap hperm
  refine ⟨_, hd, fun hin => ?_⟩
  obtain ⟨before, hbefore⟩ := readFrom_newest ho (hd.mem_iff.mp (List.mem_of_mem_take hin)).2
  rw [← length_of_delivers hd] at hlong
  have hnodup := hd.nodup
  rw [List.flatMap_append, List.flatMap_singleton, hbefore, ← List.append_assoc] at hin hnodup hlong
  rw [List.length_append, List.length_singleton] at hlong
  rw [List.take_append_of_le_length (Nat.le_of_lt_succ hlong)] at hin
  exact (List.nodup_append.mp hnodup).2.2 _ (List.mem_of_mem_take hin) _ (List.mem_singleton_self _) rfl

theorem mem_executed {maxMessages : ℕ} {r : ConsumeRecord} :
    r ∈ (executeConsumeOnce topic (newestRequest maxMessages) order).messages ↔ r ∈ order.take (max maxMessages 1) :=
  List.mem_mergeSort

theorem newest_iff (maxMessages : ℕ) :
    (∀ order, (newestRequest maxMessages).Delivers topic order →
        Newest topic (executeConsumeOnce topic (newestRequest maxMessages) order).messages) ↔
      WindowsFit topic maxMessages := by
  constructor
  · intro hall
    constructor
    · by_contra hlong
      rw [not_le] at hlong
      -- the largest partition comes last, and its newest message is cut off
      obtain ⟨r, hr⟩ := List.exists_mem_of_length_pos (Nat.zero_lt_of_lt hlong)
      obtain ⟨p, hp, hlargest, hne⟩ := exists_largest (sought_delivers.mem_iff.mp hr).1
      have ho := List.getLast?_eq_some_getLast hne
      obtain ⟨order, hd, hnot⟩ := cut_of_long hp ho hlong
      exact hnot (mem_executed.mp ((hall order hd).newest p hlargest _ ho))
    · intro p hlargest o ho
      have hin := mem_executed.mp ((hall _ sought_delivers).newest p hlargest o ho)
      exact ((sought_delivers.mem_iff).mp (List.mem_of_mem_take hin)).2
  · rintro ⟨hfit, hreach⟩ order hd
    have htake : order.take (max maxMessages 1) = order :=
      List.take_of_length_le ((length_of_delivers hd).trans_le hfit)
    have hmem : ∀ {r}, r ∈ (executeConsumeOnce topic (newestRequest maxMessages) order).messages ↔ r ∈ order := by
      intro r
      rw [mem_executed, htake]
    refine ⟨fun r hr => (hd.mem_iff.mp (hmem.mp hr)).1, fun r hr o ho hlt => ?_, fun p hlargest o ho => ?_⟩
    · exact hmem.mpr (hd.mem_iff.mpr ⟨ho, (hd.mem_iff.mp (hmem.mp hr)).2.trans (Nat.le_of_lt hlt)⟩)
    · exact hmem.mpr (hd.mem_iff.mpr ⟨List.mem_of_getLast? ho, hreach p hlargest o ho⟩)

end Windows

/-- Two messages and one. -/
def threeMessages : Topic := [⟨5, 7, [5, 6], by decide, by decide⟩, ⟨0, 1, [0], by decide, by decide⟩]

/-- The first page brings one message of each partition. -/
def inTurn : List (List ConsumeRecord) := [[⟨0, 5⟩, ⟨1, 0⟩, ⟨0, 6⟩], [⟨0, 6⟩]]

def oneEach : Topic := [⟨0, 1, [0], by decide, by decide⟩, ⟨0, 1, [0], by decide, by decide⟩]

def threeAndOne : Topic := [⟨0, 3, [0, 1, 2], by decide, by decide⟩, ⟨0, 1, [0], by decide, by decide⟩]

end RedFireForge.Kafka
