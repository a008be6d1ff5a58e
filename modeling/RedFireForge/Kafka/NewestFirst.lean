/-
# `RedFireForge.Kafka.NewestFirst` — pages from the newest message back

The first page seeks a little below the end of each partition.  A further page seeks to the
smallest offset that the page before returned, and reads forward from there: what it brings
of that partition begins with a message that has been returned.

The server and the desktop app differ in where they seek and in what they read of a partition
that the cursor does not name.
-/
import Mathlib.Algebra.Order.BigOperators.Group.List
import RedFireForge.Kafka.ConsumeOnce
import RedFireForge.Lib.Grouping

namespace RedFireForge.Kafka

open RedFireForge.Lib

/-! ## Pages -/

/-- A way to read pages: where a page starts in each partition that it reads, and what it makes
of the messages in the order of their delivery. -/
structure Reader where
  start : Option Cursor → ℕ → Option ℕ
  read : Option Cursor → List ConsumeRecord → Option ConsumeResult

/-- An order in which the broker can deliver. -/
def Delivered (topic : Topic) (start : ℕ → Option ℕ) (order : List ConsumeRecord) : Prop :=
  (∀ r ∈ order, r.partition < topic.length) ∧
    ∀ p < topic.length, order.filter (·.partition = p) = (start p).elim [] (topic.readFrom p)

/-- The first page and then those of `loadMore`, counted, with all that they returned. -/
inductive Reader.Pages (topic : Topic) (R : Reader) : ℕ → Paging → Prop
  | first {order : List ConsumeRecord} {result : ConsumeResult} :
      Delivered topic (R.start none) order → R.read none order = some result →
      Pages topic R 1 ⟨result.nextCursor, result.messages, result.hasMore⟩
  | more {n : ℕ} {s : Paging} {c : Cursor} {order : List ConsumeRecord} {result : ConsumeResult} :
      Pages topic R n s → s.cursor = some c →
      Delivered topic (R.start (some c)) order → R.read (some c) order = some result →
      Pages topic R (n + 1) ⟨result.nextCursor, s.returned ++ result.messages, result.hasMore⟩

/-- A further page brings what is below all that was returned, and the pages come to an end. -/
structure Advances (topic : Topic) (R : Reader) : Prop where
  below : ∀ n s c order result, R.Pages topic n s → s.cursor = some c → Delivered topic (R.start (some c)) order →
    R.read (some c) order = some result →
    ∀ r ∈ result.messages, ∀ r' ∈ s.returned, r'.partition = r.partition → r.offset < r'.offset
  ends : ∃ bound, ∀ n s, R.Pages topic n s → s.hasMore = true → n < bound

/-- What is read of a partition is read from its low watermark, and a message is there. -/
def ReadsWhole (topic : Topic) (start : ℕ → Option ℕ) : Prop :=
  ∀ p < topic.length, ∀ o ∈ (topic.log p).offsets, ∀ from', start p = some from' → from' ≤ o →
    from' ≤ (topic.log p).low ∧ (topic.log p).low ∈ (topic.log p).offsets

/-! ## The server -/

def newestRequestFrom (maxMessages : ℕ) (fromBeginning : Bool) (seekOffsets : Option Cursor) : ConsumeRequest :=
  ⟨maxMessages, .desc, seekOffsets, fromBeginning⟩

def server (topic : Topic) (maxMessages : ℕ) (fromBeginning : Bool) : Reader where
  start seekOffsets p := some ((newestRequestFrom maxMessages fromBeginning seekOffsets).startOffset topic p)
  read seekOffsets order := some (executeConsumeOnce topic (newestRequestFrom maxMessages fromBeginning seekOffsets) order)

/-! ## The desktop app -/

structure PartitionWindow where
  partition : ℕ
  low : ℕ
  high : ℕ
  start : ℕ
deriving DecidableEq, Repr

/-- The partitions that are asked for, with their watermarks. -/
def readWatermarks (topic : Topic) (partition : Option ℕ) : List PartitionWindow :=
  ((List.range topic.length).filter fun p => partition.all (· = p)).map fun p =>
    ⟨p, (topic.log p).low, (topic.log p).high, (topic.log p).low⟩

def seekMap (seeks : Cursor) : InsertionMap ℕ ℕ := seeks.foldl (fun m c => m.set c.1 c.2) ∅

def applyStarts (windows : List PartitionWindow) (fromBeginning : Bool) (seekOffsets : Option Cursor)
    (maxMessages : ℕ) : List PartitionWindow :=
  match seekOffsets with
  | some seeks => (windows.filter (·.partition ∈ seekMap seeks)).map fun w =>
      { w with start := max (((seekMap seeks).lookup w.partition).getD 0) w.low }
  | none =>
      if fromBeginning then windows.map fun w => { w with start := w.low }
      else
        let total := (windows.map fun w => w.high - w.low).sum
        windows.map fun w =>
          if total = 0 ∨ w.high - w.low = 0 then { w with start := w.high }
          else { w with start := max (w.high - max (share (w.high - w.low) total maxMessages) 1) w.low }

def descPage (messages : List ConsumeRecord) (windows : List PartitionWindow) : Bool × Option Cursor :=
  if messages = [] then (false, none)
  else
    let low (p : ℕ) := ((windows.find? (·.partition = p)).map (·.low)).getD 0
    let cursor := ((bestByPartition (fun off current => off < current) messages).entries.filter fun e =>
      low e.1 < e.2).map fun e => (e.1, e.2)
    (!cursor.isEmpty, nonEmpty cursor)

section Desktop

variable (topic : Topic) (partition : Option ℕ) (maxMessages : ℕ) (fromBeginning : Bool)

def windows (seekOffsets : Option Cursor) : List PartitionWindow :=
  applyStarts (readWatermarks topic partition) fromBeginning seekOffsets (max maxMessages 1)

/-- Whether no partition has a message to read: then the broker is asked for the beginning. -/
def logicalRead (seekOffsets : Option Cursor) : Bool :=
  seekOffsets.isNone && !(windows topic partition maxMessages fromBeginning seekOffsets).any fun w => w.start < w.high

/-- The offset that a partition is assigned with, if it is. -/
def assigned (seekOffsets : Option Cursor) (p : ℕ) : Option ℕ :=
  let windows := windows topic partition maxMessages fromBeginning seekOffsets
  if logicalRead topic partition maxMessages fromBeginning seekOffsets then
    (windows.find? (·.partition = p)).map (·.low)
  else ((windows.filter fun w => w.start < w.high).find? (·.partition = p)).map (·.start)

/-- One page in descending order; `none` where the call fails. -/
def consumeAssigned (seekOffsets : Option Cursor) (order : List ConsumeRecord) : Option ConsumeResult :=
  let windows := windows topic partition maxMessages fromBeginning seekOffsets
  let logical := logicalRead topic partition maxMessages fromBeginning seekOffsets
  if (windows.filter fun w => w.start < w.high) = [] ∧ !logical then some ⟨0, [], false, false, none⟩
  else if logical && !fromBeginning then none
  else
    let messages := (order.take (max maxMessages 1)).mergeSort fun a b =>
      b.offset < a.offset || (a.offset = b.offset && a.partition ≤ b.partition)
    let page := descPage messages windows
    some ⟨messages.length, messages, false, page.1, page.2⟩

def desktop : Reader where
  start := assigned topic partition maxMessages fromBeginning
  read := consumeAssigned topic partition maxMessages fromBeginning

end Desktop

/-! ## What both have in common -/

/-- The smallest offset that some messages have of a partition. -/
def IsOldest (messages : List ConsumeRecord) (p o : ℕ) : Prop :=
  ⟨p, o⟩ ∈ messages ∧ ∀ r ∈ messages, r.partition = p → o ≤ r.offset

/-- A page has the first messages that are delivered; its cursor names the partitions whose oldest
message in the page is above the low watermark, and the next page starts at that message. -/
structure Reader.Reads (topic : Topic) (R : Reader) (limit : ℕ) : Prop where
  pos : 0 < limit
  answers : ∀ seek order, Delivered topic (R.start seek) order → order ≠ [] → ∃ result, R.read seek order = some result
  messages : ∀ seek order result, Delivered topic (R.start seek) order → R.read seek order = some result →
    result.messages.Perm (order.take limit)
  hasMore : ∀ seek order result, Delivered topic (R.start seek) order → R.read seek order = some result →
    (result.hasMore ↔ result.nextCursor.isSome)
  cursor : ∀ seek order result, Delivered topic (R.start seek) order → R.read seek order = some result → ∀ p o,
    (∃ c, result.nextCursor = some c ∧ (p, o) ∈ c) ↔ IsOldest result.messages p o ∧ (topic.log p).low < o
  named : ∀ seek order result c, Delivered topic (R.start seek) order → R.read seek order = some result →
    result.nextCursor = some c → c ≠ []
  resumes : ∀ seek order result c, Delivered topic (R.start seek) order → R.read seek order = some result →
    result.nextCursor = some c → ∀ p o, (p, o) ∈ c → R.start (some c) p = some o

section Orders

variable {topic : Topic} {start : ℕ → Option ℕ} {order : List ConsumeRecord} {r : ConsumeRecord} {p s o : ℕ}

theorem Delivered.mem_iff (hd : Delivered topic start order) : r ∈ order ↔ r.partition < topic.length ∧
    ∃ s, start r.partition = some s ∧ r.offset ∈ (topic.log r.partition).offsets ∧ s ≤ r.offset := by
  have hfilter : r ∈ order ↔ r.partition < topic.length ∧ r ∈ order.filter (·.partition = r.partition) := by
    rw [List.mem_filter, and_iff_left (decide_eq_true rfl)]
    exact ⟨fun hr => ⟨hd.1 r hr, hr⟩, And.right⟩
  rw [hfilter]
  refine and_congr_right fun hp => ?_
  rw [hd.2 _ hp]
  cases start r.partition with
  | none => simp
  | some s => simp [mem_readFrom]

theorem exists_oldest {ms : List ConsumeRecord} (hr : r ∈ ms) : ∃ o, IsOldest ms r.partition o := by
  cases hlookup : (bestByPartition (fun off current => off < current) ms).lookup r.partition with
  | none => exact absurd rfl (lookup_smallest.2 hlookup r hr)
  | some o => exact ⟨o, lookup_smallest.1 o hlookup⟩

/-- A partition can be delivered before all others. -/
theorem exists_delivered (hs : start p = some s) :
    ∃ order, Delivered topic start (topic.readFrom p s ++ order) := by
  let part (q : ℕ) : List ConsumeRecord := (start q).elim [] (topic.readFrom q)
  have hpart : ∀ q, ∀ r ∈ part q, r.partition = q ∧ r.offset ∈ (topic.log r.partition).offsets := by
    intro q r hr
    cases hq : start q with
    | none => simp [part, hq] at hr
    | some s =>
        simp only [part, hq, Option.elim_some] at hr
        obtain ⟨hrp, ho, -⟩ := mem_readFrom.mp hr
        exact ⟨hrp, hrp ▸ ho⟩
  have hfilter : ∀ (qs : List ℕ) q, qs.Nodup → (qs.flatMap part).filter (·.partition = q) = if q ∈ qs then part q else [] := by
    intro qs q hqs
    induction qs with
    | nil => rfl
    | cons q' qs ih =>
        obtain ⟨hnot, hqs⟩ := List.nodup_cons.mp hqs
        rw [List.flatMap_cons, List.filter_append, ih hqs]
        by_cases heq : q = q'
        · subst heq
          rw [if_neg hnot, if_pos List.mem_cons_self, List.append_nil, List.filter_eq_self]
          exact fun r hr => decide_eq_true (hpart q r hr).1
        · have hnone : (part q').filter (·.partition = q) = [] := by
            rw [List.filter_eq_nil_iff]
            intro r hr heq'
            exact heq ((of_decide_eq_true heq').symm.trans (hpart q' r hr).1)
          rw [hnone, List.nil_append]
          simp only [List.mem_cons, heq, false_or]
  have hps : part p = topic.readFrom p s := by simp only [part, hs, Option.elim_some]
  have hnodup : (p :: (List.range topic.length).filter (· ≠ p)).Nodup :=
    List.nodup_cons.mpr ⟨by simp, List.nodup_range.filter _⟩
  refine ⟨((List.range topic.length).filter (· ≠ p)).flatMap part, ?_⟩
  rw [← hps, ← List.flatMap_cons]
  constructor
  · intro r hr
    obtain ⟨q, -, hr⟩ := List.mem_flatMap.mp hr
    exact lt_of_mem_log (hpart q r hr).2
  · intro q hq
    rw [hfilter _ q hnodup, if_pos]
    by_cases heq : q = p
    · exact heq ▸ List.mem_cons_self
    · exact List.mem_cons_of_mem _ (List.mem_filter.mpr ⟨List.mem_range.mpr hq, decide_eq_true heq⟩)

/-- The first message that is delivered is in the page. -/
theorem exists_mem_take {limit : ℕ} (hlimit : 0 < limit) (ho : o ∈ (topic.log p).offsets) (hso : s ≤ o)
    (rest : List ConsumeRecord) : ∃ r ∈ (topic.readFrom p s ++ rest).take limit, r.partition = p ∧ s ≤ r.offset := by
  have hmem : (⟨p, o⟩ : ConsumeRecord) ∈ topic.readFrom p s := mem_readFrom.mpr ⟨rfl, ho, hso⟩
  cases hread : topic.readFrom p s with
  | nil =>
      rw [hread] at hmem
      cases hmem
  | cons r rs =>
      have hr : r ∈ topic.readFrom p s := hread ▸ List.mem_cons_self
      obtain ⟨hrp, -, hsr⟩ := mem_readFrom.mp hr
      refine ⟨r, ?_, hrp, hsr⟩
      obtain ⟨n, rfl⟩ := Nat.exists_eq_add_of_lt hlimit
      rw [Nat.zero_add, List.cons_append, List.take_succ_cons]
      exact List.mem_cons_self

/-- A page has with a message what comes before it in its partition. -/
theorem Delivered.mem_take (hd : Delivered topic start order) {n : ℕ} {r' : ConsumeRecord} (hr : r ∈ order.take n)
    (hr' : r' ∈ order) (hsame : r'.partition = r.partition) (hlt : r'.offset < r.offset) : r' ∈ order.take n := by
  have hrorder : r ∈ order := List.mem_of_mem_take hr
  obtain ⟨hp, s, hs, -⟩ := hd.mem_iff.mp hrorder
  have hsorted : (order.filter (·.partition = r.partition)).Pairwise fun r r' => r.offset < r'.offset := by
    rw [hd.2 _ hp, hs]
    exact readFrom_sorted
  rw [← List.take_append_drop n order, List.mem_append] at hr'
  refine hr'.resolve_right fun hdrop => ?_
  rw [← List.take_append_drop n order, List.filter_append, List.pairwise_append] at hsorted
  have hgt := hsorted.2.2 r (List.mem_filter.mpr ⟨hr, decide_eq_true rfl⟩) r'
    (List.mem_filter.mpr ⟨hdrop, decide_eq_true hsame⟩)
  exact absurd hlt (Nat.lt_asymm hgt)

end Orders

namespace Reader.Reads

variable {topic : Topic} {R : Reader} {limit : ℕ} (h : R.Reads topic limit)
include h

/-- What is read whole is finished with the first page. -/
theorem hasMore_first (hwhole : ReadsWhole topic (R.start none)) {order : List ConsumeRecord} {result : ConsumeResult}
    (hd : Delivered topic (R.start none) order) (hread : R.read none order = some result) :
    result.nextCursor = none := by
  cases hc : result.nextCursor with
  | none => rfl
  | some c =>
      obtain ⟨⟨p, o⟩, hpo⟩ := List.exists_mem_of_ne_nil c (h.named none order result c hd hread hc)
      obtain ⟨⟨hmem, hoe⟩, hlow⟩ := (h.cursor none order result hd hread p o).mp ⟨c, hc, hpo⟩
      have hperm := h.messages none order result hd hread
      have hpage := hperm.mem_iff.mp hmem
      obtain ⟨hp, s, hs, hlog, hso⟩ := hd.mem_iff.mp (List.mem_of_mem_take hpage)
      obtain ⟨hslow, hlowmem⟩ := hwhole p hp o hlog s hs hso
      have hfirst : (⟨p, (topic.log p).low⟩ : ConsumeRecord) ∈ order := hd.mem_iff.mpr ⟨hp, s, hs, hlowmem, hslow⟩
      have hin := hperm.mem_iff.mpr (hd.mem_take hpage hfirst rfl hlow)
      exact absurd (hoe _ hin rfl) (Nat.not_le_of_lt hlow)

theorem advances_of_readsWhole (hwhole : ReadsWhole topic (R.start none)) : Advances topic R := by
  have hlast : ∀ n s, R.Pages topic n s → s.cursor = none ∧ s.hasMore = false := by
    intro n s hpages
    induction hpages with
    | first hd hread =>
        have hnone := h.hasMore_first hwhole hd hread
        refine ⟨hnone, ?_⟩
        have hmore := h.hasMore none _ _ hd hread
        rw [hnone] at hmore
        exact Bool.eq_false_iff.mpr fun htrue => absurd (hmore.mp htrue) Bool.false_ne_true
    | more _ hc _ _ ih =>
        rw [ih.1] at hc
        cases hc
  refine ⟨?_, 0, ?_⟩
  · intro n s c order result hpages hc
    rw [(hlast n s hpages).1] at hc
    cases hc
  · intro n s hpages hmore
    rw [(hlast n s hpages).2] at hmore
    cases hmore

/-- Where a partition is read from above its beginning a second page brings a message again. -/
theorem readsWhole_of_advances (hadv : Advances topic R) : ReadsWhole topic (R.start none) := by
  intro p hp o ho s hs hso
  obtain ⟨rest, hd⟩ := exists_delivered hs
  obtain ⟨r, hr, rfl, hsr⟩ := exists_mem_take h.pos ho hso rest
  obtain ⟨result, hread⟩ := h.answers none _ hd (List.ne_nil_of_mem (List.mem_of_mem_take hr))
  have hperm := h.messages none _ result hd hread
  obtain ⟨m, hm⟩ := exists_oldest (hperm.mem_iff.mpr hr)
  obtain ⟨-, s', hs', hmlog, hsm⟩ := hd.mem_iff.mp (List.mem_of_mem_take (hperm.mem_iff.mp hm.1))
  rw [hs, Option.some.injEq] at hs'
  subst hs'
  have hlow : (topic.log r.partition).low ≤ m := ((topic.log r.partition).bounds m hmlog).1
  rcases Nat.eq_or_lt_of_le hlow with heq | hlt
  · exact ⟨heq ▸ hsm, heq ▸ hmlog⟩
  · -- the second page starts at `m`
    obtain ⟨c, hc, hpm⟩ := (h.cursor none _ result hd hread r.partition m).mpr ⟨hm, hlt⟩
    have hstart := h.resumes none _ result c hd hread hc _ m hpm
    obtain ⟨rest', hd'⟩ := exists_delivered hstart
    obtain ⟨r', hr', hsame, hmr'⟩ := exists_mem_take h.pos hmlog le_rfl rest'
    obtain ⟨result', hread'⟩ := h.answers (some c) _ hd' (List.ne_nil_of_mem (List.mem_of_mem_take hr'))
    have hmem' := (h.messages (some c) _ result' hd' hread').mem_iff.mpr hr'
    have hbelow := hadv.below 1 _ c _ result' (.first hd hread) hc hd' hread' r' hmem' ⟨r.partition, m⟩ hm.1 hsame.symm
    exact absurd hmr' (Nat.not_le_of_lt hbelow)

theorem advances_iff : Advances topic R ↔ ReadsWhole topic (R.start none) :=
  ⟨h.readsWhole_of_advances, h.advances_of_readsWhole⟩

end Reader.Reads

/-! ## The server's pages -/

section Server

variable {topic : Topic} {ms : List ConsumeRecord} {p o : ℕ}

theorem mem_oldestEntries {low : ℕ → ℕ} :
    (p, o) ∈ ((bestByPartition (fun off current => off < current) ms).entries.filter fun e =>
      low e.1 < e.2).map (fun e => (e.1, e.2)) ↔ IsOldest ms p o ∧ low p < o := by
  simp only [List.mem_map, List.mem_filter, decide_eq_true_iff, Prod.mk.injEq]
  have hlookup : (bestByPartition (fun off current => off < current) ms).lookup p = some o ↔ IsOldest ms p o := by
    constructor
    · exact lookup_smallest.1 o
    · intro h
      cases hl : (bestByPartition (fun off current => off < current) ms).lookup p with
      | none => exact absurd rfl (lookup_smallest.2 hl _ h.1)
      | some o' =>
          obtain ⟨hmem, hle⟩ := lookup_smallest.1 o' hl
          exact congrArg some (Nat.le_antisymm (hle _ h.1 rfl) (h.2 _ hmem rfl))
  rw [← hlookup, ← InsertionMap.mem_entries]
  constructor
  · rintro ⟨e, ⟨he, hlow⟩, rfl, rfl⟩
    exact ⟨he, hlow⟩
  · rintro ⟨he, hlow⟩
    exact ⟨_, ⟨he, hlow⟩, rfl, rfl⟩

theorem nonEmpty_eq_some {c c' : Cursor} : nonEmpty c = some c' ↔ c = c' ∧ c ≠ [] := by
  rw [nonEmpty]
  cases c with
  | nil => simp
  | cons x xs => simp

theorem nonEmpty_isSome {c : Cursor} : (nonEmpty c).isSome ↔ (!c.isEmpty) = true := by
  cases c <;> simp [nonEmpty]

/-- The cursor of a page is a cursor with what a list of entries has. -/
theorem exists_nonEmpty {c : Cursor} : (∃ c', nonEmpty c = some c' ∧ (p, o) ∈ c') ↔ (p, o) ∈ c := by
  constructor
  · rintro ⟨c', hc', hpo⟩
    exact (nonEmpty_eq_some.mp hc').1 ▸ hpo
  · intro hpo
    exact ⟨c, nonEmpty_eq_some.mpr ⟨rfl, List.ne_nil_of_mem hpo⟩, hpo⟩

theorem lookup_of_mem_entries {m : InsertionMap ℕ ℕ} {q : (_ : ℕ) × ℕ → Bool}
    (h : (p, o) ∈ (m.entries.filter q).map fun e => (e.1, e.2)) :
    ((m.entries.filter q).map fun e => (e.1, e.2)).lookup p = some o := by
  have hkeys : (((m.entries.filter q).map fun e => (e.1, e.2)).map Prod.fst).Nodup := by
    rw [List.map_map]
    exact List.Nodup.sublist (List.filter_sublist.map _) m.nodupKeys
  obtain ⟨before, after, hsplit⟩ := List.append_of_mem h
  rw [hsplit, List.map_append, List.map_cons, List.nodup_append] at hkeys
  refine List.lookup_eq_some_iff.mpr ⟨before, after, hsplit, fun x hx => ?_⟩
  exact bne_iff_ne.mpr fun heq => hkeys.2.2 x.1 (List.mem_map_of_mem hx) p List.mem_cons_self heq.symm

theorem mem_descNextCursor : (p, o) ∈ computeDescNextCursor topic ms ↔ IsOldest ms p o ∧ (topic.log p).low < o :=
  @mem_oldestEntries ms p o fun p => (topic.log p).low

theorem server_reads (maxMessages : ℕ) (fromBeginning : Bool) :
    (server topic maxMessages fromBeginning).Reads topic (max maxMessages 1) where
  pos := Nat.lt_of_lt_of_le Nat.one_pos (Nat.le_max_right _ _)
  answers seek order hd hne := ⟨_, rfl⟩
  messages seek order result hd hread := by
    obtain rfl := Option.some.inj hread
    exact List.mergeSort_perm _ _
  hasMore seek order result hd hread := by
    obtain rfl := Option.some.inj hread
    exact nonEmpty_isSome.symm
  cursor seek order result hd hread p o := by
    obtain rfl := Option.some.inj hread
    exact exists_nonEmpty.trans mem_descNextCursor
  named seek order result c hd hread hc := by
    obtain rfl := Option.some.inj hread
    obtain ⟨rfl, hne⟩ := nonEmpty_eq_some.mp hc
    exact hne
  resumes seek order result c hd hread hc p o hpo := by
    obtain rfl := Option.some.inj hread
    obtain ⟨rfl, -⟩ := nonEmpty_eq_some.mp hc
    change some (((computeDescNextCursor topic _).lookup p).getD _) = some o
    rw [computeDescNextCursor, lookup_of_mem_entries hpo, Option.getD_some]

end Server

/-! ## The pages of the desktop app -/

section Desktop

variable {topic : Topic} {partition : Option ℕ} {maxMessages : ℕ} {fromBeginning : Bool} {seek : Option Cursor}
  {w : PartitionWindow} {p s o : ℕ} {order : List ConsumeRecord}

theorem mem_readWatermarks : w ∈ readWatermarks topic partition ↔ w.partition < topic.length ∧
    partition.all (· = w.partition) ∧
      w = ⟨w.partition, (topic.log w.partition).low, (topic.log w.partition).high, (topic.log w.partition).low⟩ := by
  rw [readWatermarks, List.mem_map]
  constructor
  · rintro ⟨q, hq, rfl⟩
    rw [List.mem_filter, List.mem_range] at hq
    exact ⟨hq.1, hq.2, rfl⟩
  · rintro ⟨hp, hall, heq⟩
    exact ⟨w.partition, List.mem_filter.mpr ⟨List.mem_range.mpr hp, hall⟩, heq.symm⟩

theorem nodup_readWatermarks : ((readWatermarks topic partition).map (·.partition)).Nodup := by
  rw [readWatermarks, List.map_map]
  exact (List.map_id' _).symm ▸ List.nodup_range.filter _

/-- A window keeps its partition and watermarks; only where it starts is set. -/
theorem exists_of_mem_windows (hw : w ∈ windows topic partition maxMessages fromBeginning seek) :
    ∃ w₀ ∈ readWatermarks topic partition, w = { w₀ with start := w.start } := by
  cases seek with
  | some c =>
    rw [windows, applyStarts] at hw
    obtain ⟨w₀, hw₀, rfl⟩ := List.mem_map.mp hw
    exact ⟨w₀, (List.mem_filter.mp hw₀).1, rfl⟩
  | none =>
    rw [windows, applyStarts] at hw
    split at hw
    next =>
      obtain ⟨w₀, hw₀, rfl⟩ := List.mem_map.mp hw
      exact ⟨w₀, hw₀, rfl⟩
    next =>
      obtain ⟨w₀, hw₀, rfl⟩ := List.mem_map.mp hw
      refine ⟨w₀, hw₀, ?_⟩
      split <;> rfl

theorem mem_windows_spec (hw : w ∈ windows topic partition maxMessages fromBeginning seek) :
    w.partition < topic.length ∧ partition.all (· = w.partition) ∧ w.low = (topic.log w.partition).low ∧
      w.high = (topic.log w.partition).high := by
  obtain ⟨w₀, hw₀, heq⟩ := exists_of_mem_windows hw
  obtain ⟨hp, hall, heq₀⟩ := mem_readWatermarks.mp hw₀
  rw [heq₀] at heq
  rw [heq]
  exact ⟨hp, hall, rfl, rfl⟩

theorem nodup_windows : ((windows topic partition maxMessages fromBeginning seek).map (·.partition)).Nodup := by
  have hsub : ((windows topic partition maxMessages fromBeginning seek).map (·.partition)).Sublist
      ((readWatermarks topic partition).map (·.partition)) := by
    cases seek with
    | some c =>
      rw [windows, applyStarts, List.map_map]
      exact List.filter_sublist.map _
    | none =>
      rw [windows, applyStarts]
      split
      next =>
        rw [List.map_map]
        exact List.Sublist.refl _
      next =>
        rw [List.map_map, List.map_congr_left fun w _ => ?_]
        dsimp only [Function.comp_apply]
        split <;> rfl
  exact nodup_readWatermarks.sublist hsub

/-- Where nothing is to be read no partition has a message. -/
theorem empty_of_logicalRead (h : logicalRead topic partition maxMessages fromBeginning seek = true)
    (hw : w ∈ windows topic partition maxMessages fromBeginning seek) : w.high ≤ w.low := by
  rw [logicalRead, Bool.and_eq_true, Bool.not_eq_true', List.any_eq_false] at h
  obtain ⟨hnone, hno⟩ := h
  have hstart := hno w hw
  rw [decide_eq_true_iff, Nat.not_lt] at hstart
  obtain rfl := Option.isNone_iff_eq_none.mp hnone
  rw [windows, applyStarts] at hw
  split at hw
  next =>
    obtain ⟨w₀, -, rfl⟩ := List.mem_map.mp hw
    exact hstart
  next =>
    obtain ⟨w₀, hw₀, rfl⟩ := List.mem_map.mp hw
    split at hstart
    next hempty =>
      rw [if_pos hempty]
      rcases hempty with htotal | hzero
      · have hle := List.single_le_sum (fun _ _ => Nat.zero_le _) _
          (List.mem_map_of_mem (f := fun w : PartitionWindow => w.high - w.low) hw₀)
        rw [htotal] at hle
        exact Nat.sub_eq_zero_iff_le.mp (Nat.le_zero.mp hle)
      · exact Nat.sub_eq_zero_iff_le.mp hzero
    next hne =>
      rw [if_neg hne]
      dsimp only at hstart ⊢
      have hone : 1 ≤ max (share (w₀.high - w₀.low) ((readWatermarks topic partition).map fun w => w.high - w.low).sum
        (max maxMessages 1)) 1 := Nat.le_max_right _ _
      omega

/-- What is assigned is a window, and one that can have messages. -/
theorem exists_window (h : assigned topic partition maxMessages fromBeginning seek p = some s) :
    ∃ w ∈ windows topic partition maxMessages fromBeginning seek, w.partition = p ∧
      (logicalRead topic partition maxMessages fromBeginning seek = true ∨ w.start < w.high ∧ w.start = s) := by
  rw [assigned] at h
  split at h
  next hlogical =>
    obtain ⟨w, hfind, rfl⟩ := Option.map_eq_some_iff.mp h
    exact ⟨w, List.mem_of_find?_eq_some hfind, of_decide_eq_true (List.find?_some hfind :), .inl hlogical⟩
  next =>
    obtain ⟨w, hfind, rfl⟩ := Option.map_eq_some_iff.mp h
    obtain ⟨hw, hlt⟩ := List.mem_filter.mp (List.mem_of_find?_eq_some hfind)
    exact ⟨w, hw, of_decide_eq_true (List.find?_some hfind :), .inr ⟨of_decide_eq_true hlt, rfl⟩⟩

/-- A message that is delivered is in a window with messages. -/
theorem window_of_delivered {r : ConsumeRecord}
    (hd : Delivered topic (assigned topic partition maxMessages fromBeginning seek) order) (hr : r ∈ order) :
    logicalRead topic partition maxMessages fromBeginning seek = false ∧
      ∃ w ∈ windows topic partition maxMessages fromBeginning seek, w.partition = r.partition ∧ w.start < w.high := by
  obtain ⟨-, s, hs, hlog, -⟩ := hd.mem_iff.mp hr
  obtain ⟨w, hw, hwp, hcase⟩ := exists_window hs
  obtain ⟨-, -, hlow, hhigh⟩ := mem_windows_spec hw
  obtain ⟨hlo, hhi⟩ := (topic.log r.partition).bounds _ hlog
  cases hlogical : logicalRead topic partition maxMessages fromBeginning seek with
  | true =>
      have hempty := empty_of_logicalRead hlogical hw
      rw [hlow, hhigh, hwp] at hempty
      omega
  | false =>
      rw [hlogical] at hcase
      exact ⟨rfl, w, hw, hwp, (hcase.resolve_left Bool.false_ne_true).1⟩

/-- The low watermark that is measured for a delivered message. -/
theorem low_of_delivered {r : ConsumeRecord}
    (hd : Delivered topic (assigned topic partition maxMessages fromBeginning seek) order) (hr : r ∈ order) :
    (((windows topic partition maxMessages fromBeginning seek).find? (·.partition = r.partition)).map (·.low)).getD 0 =
      (topic.log r.partition).low := by
  obtain ⟨-, w, hw, hwp, -⟩ := window_of_delivered hd hr
  rw [← hwp, find?_key nodup_windows hw, Option.map_some, Option.getD_some]
  exact (mem_windows_spec hw).2.2.1

/-- What a call makes of what is delivered. -/
theorem consumeAssigned_eq {result : ConsumeResult}
    (hd : Delivered topic (assigned topic partition maxMessages fromBeginning seek) order)
    (h : consumeAssigned topic partition maxMessages fromBeginning seek order = some result) :
    result.messages.Perm (order.take (max maxMessages 1)) ∧
      (result.hasMore, result.nextCursor) =
        descPage result.messages (windows topic partition maxMessages fromBeginning seek) := by
  rw [consumeAssigned] at h
  split at h
  next hempty =>
    obtain rfl := Option.some.inj h
    have hnil : order = [] := by
      refine List.eq_nil_iff_forall_not_mem.mpr fun r hr => ?_
      obtain ⟨-, w, hw, -, hlt⟩ := window_of_delivered hd hr
      exact List.filter_eq_nil_iff.mp hempty.1 w hw (decide_eq_true hlt)
    rw [hnil, List.take_nil]
    exact ⟨List.Perm.refl _, rfl⟩
  next =>
    split at h
    next => cases h
    next =>
      obtain rfl := Option.some.inj h
      exact ⟨List.mergeSort_perm _ _, rfl⟩

theorem descPage_spec {ms : List ConsumeRecord} {ws : List PartitionWindow} {hasMore : Bool}
    {nextCursor : Option Cursor} (h : (hasMore, nextCursor) = descPage ms ws) :
    (hasMore ↔ nextCursor.isSome) ∧ (∀ c, nextCursor = some c → c ≠ [] ∧ (c.map Prod.fst).Nodup) ∧
      ∀ p o, (∃ c, nextCursor = some c ∧ (p, o) ∈ c) ↔
        IsOldest ms p o ∧ ((ws.find? (·.partition = p)).map (·.low)).getD 0 < o := by
  rw [descPage] at h
  split at h
  next hnil =>
    obtain ⟨rfl, rfl⟩ := Prod.mk.inj h
    subst hnil
    refine ⟨by simp, nofun, fun p o => ⟨?_, ?_⟩⟩
    · rintro ⟨c, hc, -⟩
      cases hc
    · rintro ⟨⟨hmem, -⟩, -⟩
      cases hmem
  next =>
    obtain ⟨rfl, rfl⟩ := Prod.mk.inj h
    refine ⟨nonEmpty_isSome.symm, fun c hc => ?_, fun p o => ?_⟩
    · obtain ⟨rfl, hne⟩ := nonEmpty_eq_some.mp hc
      refine ⟨hne, ?_⟩
      rw [List.map_map]
      exact List.Nodup.sublist (List.filter_sublist.map _)
        (bestByPartition (fun off current => off < current) ms).nodupKeys
    · exact exists_nonEmpty.trans
        (@mem_oldestEntries ms p o fun p => ((ws.find? (·.partition = p)).map (·.low)).getD 0)

/-- The map of the seeks has the offset of each partition that is named. -/
theorem lookup_seekMap {c : Cursor} (hc : (c.map Prod.fst).Nodup) (hpo : (p, o) ∈ c) :
    (seekMap c).lookup p = some o := by
  rw [seekMap, @InsertionMap.lookup_foldl_set _ _ _ ∅ p (ℕ × ℕ) Prod.fst Prod.snd, AList.lookup_empty, Option.or_none]
  have hnodup : (c.reverse.map Prod.fst).Nodup := by
    rw [List.map_reverse]
    exact List.nodup_reverse.mpr hc
  rw [find?_key hnodup (List.mem_reverse.mpr hpo), Option.map_some]

/-- A page that is sought starts at the offset of the cursor. -/
theorem assigned_some {c : Cursor} (hc : (c.map Prod.fst).Nodup) (hpo : (p, o) ∈ c)
    (hp : p < topic.length) (hall : partition.all (· = p)) (ho : o ∈ (topic.log p).offsets)
    (hlow : (topic.log p).low < o) :
    assigned topic partition maxMessages fromBeginning (some c) p = some o := by
  have hmem : (⟨p, (topic.log p).low, (topic.log p).high, o⟩ : PartitionWindow) ∈
      (windows topic partition maxMessages fromBeginning (some c)).filter fun w => w.start < w.high := by
    refine List.mem_filter.mpr ⟨?_, decide_eq_true ((topic.log p).bounds o ho).2⟩
    rw [windows, applyStarts, List.mem_map]
    refine ⟨⟨p, (topic.log p).low, (topic.log p).high, (topic.log p).low⟩, List.mem_filter.mpr ⟨?_, ?_⟩, ?_⟩
    · exact mem_readWatermarks.mpr ⟨hp, hall, rfl⟩
    · rw [decide_eq_true_iff, ← AList.lookup_isSome, lookup_seekMap hc hpo]
      rfl
    · rw [lookup_seekMap hc hpo, Option.getD_some, Nat.max_eq_left hlow.le]
  have hlogical : logicalRead topic partition maxMessages fromBeginning (some c) = false := rfl
  have hnodup : (((windows topic partition maxMessages fromBeginning (some c)).filter fun w =>
      w.start < w.high).map (·.partition)).Nodup := nodup_windows.sublist (List.filter_sublist.map _)
  rw [assigned, hlogical, if_neg Bool.false_ne_true, find?_key hnodup hmem, Option.map_some]

theorem desktop_reads (topic : Topic) (partition : Option ℕ) (maxMessages : ℕ) (fromBeginning : Bool) :
    (desktop topic partition maxMessages fromBeginning).Reads topic (max maxMessages 1) where
  pos := Nat.lt_of_lt_of_le Nat.one_pos (Nat.le_max_right _ _)
  answers seek order hd hne := by
    obtain ⟨r, hr⟩ := List.exists_mem_of_ne_nil order hne
    obtain ⟨hlogical, -⟩ := window_of_delivered hd hr
    change ∃ result, consumeAssigned topic partition maxMessages fromBeginning seek order = some result
    rw [consumeAssigned, hlogical]
    split
    next => exact ⟨_, rfl⟩
    next => exact ⟨_, rfl⟩
  messages seek order result hd hread := (consumeAssigned_eq hd hread).1
  hasMore seek order result hd hread := (descPage_spec (consumeAssigned_eq hd hread).2).1
  cursor seek order result hd hread p o := by
    obtain ⟨hperm, hpage⟩ := consumeAssigned_eq hd hread
    refine ((descPage_spec hpage).2.2 p o).trans (and_congr_right fun hoe => ?_)
    rw [low_of_delivered hd (List.mem_of_mem_take (hperm.mem_iff.mp hoe.1))]
  named seek order result c hd hread hc := ((descPage_spec (consumeAssigned_eq hd hread).2).2.1 c hc).1
  resumes seek order result c hd hread hc p o hpo := by
    obtain ⟨hperm, hpage⟩ := consumeAssigned_eq hd hread
    obtain ⟨-, hnamed, hiff⟩ := descPage_spec hpage
    obtain ⟨hoe, hlow⟩ := (hiff p o).mp ⟨c, hc, hpo⟩
    have hr := List.mem_of_mem_take (hperm.mem_iff.mp hoe.1)
    obtain ⟨-, w, hw, rfl, -⟩ := window_of_delivered hd hr
    obtain ⟨-, s, -, hlog, -⟩ := hd.mem_iff.mp hr
    obtain ⟨hp, hall, -⟩ := mem_windows_spec hw
    rw [low_of_delivered hd hr] at hlow
    exact assigned_some (hnamed c hc).2 hpo hp hall hlog hlow

end Desktop

/-! ## When paging advances -/

/-- One partition with two messages. -/
def twoMessages : Topic := [⟨0, 2, [0, 1], by decide, by decide⟩]

end RedFireForge.Kafka
