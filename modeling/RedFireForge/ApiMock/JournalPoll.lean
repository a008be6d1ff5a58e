/-
# `RedFireForge.ApiMock.JournalPoll` — a client that polls the journal

The client passes the cursor of its last page, which counts every append, as an index into
the entries that are still there and match its filter.  What it gets is right as long as
these two agree, or nothing newer is there.

Other clients only read; the filter of this one stays the same.
-/
import RedFireForge.ApiMock.Journal
import RedFireForge.ApiMock.ResponseSelector
import RedFireForge.Lib.Run

namespace RedFireForge.ApiMock

open RedFireForge.Lib

/-! ## Runs -/

/-- The journal and one client. -/
structure Polling (c : JournalConfig) where
  journal : Journal c
  /-- of the last page -/
  cursor : ℕ
  /-- the entries the client has received -/
  received : List ℕ
  /-- how many entries had been stored by its last poll -/
  polledAt : ℕ

inductive PollingEvent
  | append (tx : Transaction)
  | clear
  | updateSettings (settings : JournalSettings)
  | poll (limit : Option ℕ)

namespace Polling

variable {c : JournalConfig}

def start (c : JournalConfig) (settings : JournalSettings) (disk : Option JournalSnapshot) :
    Polling c :=
  ⟨(Journal.construct c settings disk).1, 0, [], 0⟩

def page (q : Journal.Query) (limit : Option ℕ) (s : Polling c) : Journal.Page :=
  s.journal.query { q with afterCursor := s.cursor, limit }

/-- The limit is no smaller than the page. -/
def fits (q : Journal.Query) (limit : Option ℕ) (s : Polling c) : Bool :=
  decide ((s.page q none).transactions.length ≤ limit.getD hardMaxJournalEntries)

def poll (q : Journal.Query) (limit : Option ℕ) (s : Polling c) : Polling c :=
  { s with
    cursor := (s.page q limit).cursor
    received := s.received ++ (s.page q limit).transactions.map JournalEntry.seq
    polledAt := s.journal.stored }

end Polling

def pollingNext {c : JournalConfig} (q : Journal.Query) : PollingEvent → Polling c → Option (Polling c)
  | .append tx, s => some { s with journal := (s.journal.append tx).1 }
  | .clear, s => some { s with journal := s.journal.clear }
  | .updateSettings settings, s => some { s with journal := (s.journal.updateSettings settings).1 }
  | .poll limit, s => if s.fits q limit then some (s.poll q limit) else none

namespace Polling

variable {c : JournalConfig}

/-- The entries that match the filter. -/
def matching (q : Journal.Query) (s : Polling c) : List JournalEntry :=
  s.journal.toOrdered.filter (q.admits c)

/-- Of these, how many were there at the last poll. -/
def older (q : Journal.Query) (s : Polling c) : ℕ :=
  (s.matching q).countP fun e => decide (e.seq < s.polledAt)

/-- A page has every newer match that is still there once, and nothing twice. -/
def Complete (q : Journal.Query) : PollingEvent → Polling c → Prop
  | .poll limit, s => s.fits q limit = true →
      (∀ e ∈ s.matching q, s.polledAt ≤ e.seq →
        (s.page q limit).transactions.countP (fun e' => e'.seq == e.seq) = 1) ∧
      ∀ e ∈ (s.page q limit).transactions, e.seq ∉ s.received
  | _, _ => True

/-- The cursor is the number of matches that were there at the last poll and still are, or
there is no newer match. -/
def cursorMeets (q : Journal.Query) : PollingEvent → Polling c → Bool
  | .poll limit, s =>
      !s.fits q limit || (s.cursor == s.older q || (s.matching q).length == s.older q)
  | _, _ => true

end Polling

/-! ## What the journal does to its entries -/

namespace Journal

variable {c : JournalConfig} {s s' : Journal c} {tx tx' : Transaction} {e e' : JournalEntry}

/-- What a filter looks at, with the place of the entry. -/
def matchKey (e : JournalEntry) : ℕ × String × String × String :=
  (e.seq, e.tx.request.method, e.tx.request.path, e.tx.outcome)

def keys (s : Journal c) : List (ℕ × String × String × String) := s.toOrdered.map matchKey

/-- The filter on a key. -/
def admitsKey (c : JournalConfig) (q : Query) (k : ℕ × String × String × String) : Bool :=
  (filterOf q.methodFilter).all (fun m => k.2.1 == c.js.toUpperCase m) &&
    (filterOf q.pathFilter).all (fun p => decide ((c.js.toLowerCase p).toList <:+:
      (c.js.toLowerCase k.2.2.1).toList)) &&
    (filterOf q.outcomeFilter).all (fun o => k.2.2.2 == o)

/-- Entries stay or go, and newer ones come. -/
structure Moves (s s' : Journal c) (kept fresh : List (ℕ × String × String × String)) : Prop where
  keys : s'.keys = kept ++ fresh
  kept : kept.Sublist s.keys
  sorted : (fresh.map Prod.fst).Pairwise (· < ·)
  fresh : ∀ k ∈ fresh, s.stored ≤ k.1 ∧ k.1 < s'.stored
  stored : s.stored ≤ s'.stored
  counted : s.toOrdered.length ≤ s.cursorCounter → s'.toOrdered.length ≤ s'.cursorCounter

theorem Moves.of_keys (hkeys : s'.keys = s.keys) (hstored : s'.stored = s.stored)
    (hcursor : s.cursorCounter ≤ s'.cursorCounter) : Moves s s' s.keys [] where
  keys := hkeys.trans (List.append_nil _).symm
  kept := List.Sublist.refl _
  sorted := List.Pairwise.nil
  fresh := nofun
  stored := hstored.ge
  counted := fun h => by
    have hlen : s'.toOrdered.length = s.toOrdered.length := by
      have := congrArg List.length hkeys
      rwa [Journal.keys, Journal.keys, List.length_map, List.length_map] at this
    exact hlen.le.trans (h.trans hcursor)

/-- Writing the snapshot leaves the journal as it is. -/
theorem flushToDisk_same (s : Journal c) : s.flushToDisk.keys = s.keys ∧
    s.flushToDisk.stored = s.stored ∧ s.flushToDisk.cursorCounter = s.cursorCounter ∧
      s.flushToDisk.toOrdered = s.toOrdered := by
  unfold flushToDisk
  split
  · exact ⟨rfl, rfl, rfl, rfl⟩
  · exact ⟨rfl, rfl, rfl, rfl⟩

theorem Moves.flush {kept fresh : List (ℕ × String × String × String)} (h : Moves s s' kept fresh) :
    Moves s s'.flushToDisk kept fresh := by
  obtain ⟨hkeys, hstored, hcursor, hordered⟩ := flushToDisk_same s'
  exact ⟨hkeys.trans h.keys, h.kept, h.sorted, fun k hk => hstored ▸ h.fresh k hk, hstored ▸ h.stored,
    fun hs => hcursor ▸ hordered ▸ h.counted hs⟩

theorem redactTransaction_keeps (h : s.redactTransaction tx = some tx') :
    tx'.request.method = tx.request.method ∧ tx'.request.path = tx.request.path ∧
      tx'.outcome = tx.outcome := by
  obtain ⟨body, -, hbody⟩ := Option.bind_eq_some_iff.mp h
  obtain ⟨response, -, rfl⟩ := Option.map_eq_some_iff.mp hbody
  exact ⟨rfl, rfl, rfl⟩

theorem append_moves (s : Journal c) (tx : Transaction) :
    ∃ kept fresh, Moves s (s.append tx).1 kept fresh := by
  unfold append
  dsimp only
  split
  next => exact ⟨_, _, Moves.of_keys rfl rfl (Nat.le_succ _)⟩
  next hon =>
    have hcap : 0 < c.maxEntries := Nat.pos_of_ne_zero (not_or.mp hon).2
    split
    next => exact ⟨_, _, Moves.of_keys rfl rfl (Nat.le_succ _)⟩
    next redacted hredacted =>
      have hone : (∀ k ∈ [matchKey (s.entryOf tx (truncateBodies c redacted) s.stored)],
          s.stored ≤ k.1 ∧ k.1 < s.stored + 1) := by
        intro k hk
        rw [List.mem_singleton.mp hk]
        exact ⟨Nat.le_refl _, Nat.lt_succ_self _⟩
      by_cases hfull : s.ring.count < c.maxEntries
      · have hlist := Ring.toList_push_of_lt hcap hfull
          (x := s.entryOf tx (truncateBodies c redacted) s.stored)
        refine ⟨s.keys, [matchKey (s.entryOf tx (truncateBodies c redacted) s.stored)], Moves.flush
          ⟨?_, List.Sublist.refl _, List.pairwise_singleton _ _, hone, Nat.le_succ _, fun h => ?_⟩⟩
        · exact (congrArg (List.map matchKey) hlist).trans List.map_append
        · refine (congrArg List.length hlist).le.trans ?_
          rw [List.length_append]
          exact Nat.succ_le_succ h
      · have hlist := Ring.toList_push_full hcap (s.ring.bounded.antisymm (not_lt.mp hfull))
          (x := s.entryOf tx (truncateBodies c redacted) s.stored)
        refine ⟨s.keys.tail, [matchKey (s.entryOf tx (truncateBodies c redacted) s.stored)], Moves.flush
          ⟨?_, List.tail_sublist _, List.pairwise_singleton _ _, hone, Nat.le_succ _, fun h => ?_⟩⟩
        · refine (congrArg (List.map matchKey) hlist).trans ?_
          rw [List.map_append, List.map_tail]
          rfl
        · refine (congrArg List.length hlist).le.trans ?_
          rw [List.length_append, List.length_tail]
          exact Nat.succ_le_succ ((Nat.sub_le _ _).trans h)

theorem clear_moves (s : Journal c) : ∃ kept fresh, Moves s s.clear kept fresh := by
  have hnone : Moves s { s with ring := .empty, drops := 0, truncations := 0 } [] [] :=
    ⟨rfl, List.nil_sublist _, List.Pairwise.nil, nofun, Nat.le_refl _, fun _ => Nat.zero_le _⟩
  refine ⟨[], [], ?_⟩
  unfold clear
  dsimp only
  split
  · exact hnone.flush
  · split
    · exact ⟨hnone.keys, hnone.kept, hnone.sorted, hnone.fresh, hnone.stored, hnone.counted⟩
    · exact hnone

/-- Loaded entries are numbered from here on. -/
theorem restoreAll_seq {txs : List Transaction} {seq : ℕ} {l : List JournalEntry}
    (h : s.restoreAll txs seq = some l) : l.map JournalEntry.seq = List.range' seq txs.length := by
  induction txs generalizing seq l with
  | nil =>
      cases h
      rfl
  | cons tx txs ih =>
      obtain ⟨e, he, hrest⟩ := Option.bind_eq_some_iff.mp h
      obtain ⟨l', hl', rfl⟩ := Option.map_eq_some_iff.mp hrest
      obtain ⟨redacted, -, rfl⟩ := Option.map_eq_some_iff.mp he
      rw [List.map_cons, ih hl', List.length_cons, List.range'_succ]
      rfl

theorem restoreFromDisk_moves (s : Journal c) :
    ∃ kept fresh, Moves s s.restoreFromDisk.1 kept fresh := by
  unfold restoreFromDisk
  split
  next => exact ⟨_, _, Moves.of_keys rfl rfl (Nat.le_refl _)⟩
  next =>
    split
    next => exact ⟨_, _, Moves.of_keys rfl rfl (Nat.le_refl _)⟩
    next snap hsnap =>
      split
      next => exact ⟨_, _, Moves.of_keys rfl rfl (Nat.le_refl _)⟩
      next l hl =>
        have hseq := restoreAll_seq hl
        have hlen := length_restoreAll hl
        have hfst : (l.map matchKey).map Prod.fst = List.range' s.stored l.length := by
          rw [List.map_map, hlen, ← hseq]
          rfl
        refine ⟨[], l.map matchKey, Moves.flush ⟨?_, List.nil_sublist _, ?_, fun k hk => ?_,
          Nat.le_add_right _ _, fun _ => ?_⟩⟩
        · exact congrArg (List.map matchKey) (Ring.toList_ofList _)
        · rw [hfst]
          exact List.pairwise_lt_range'
        · have hk := List.mem_map_of_mem (f := Prod.fst) hk
          rw [hfst, List.mem_range'_1] at hk
          exact hk
        · exact (congrArg List.length (Ring.toList_ofList _)).le.trans (Nat.le_max_right _ _)

theorem reapplyAll_keys (l : List JournalEntry) : (s.reapplyAll l).1.map matchKey = l.map matchKey := by
  induction l with
  | nil => rfl
  | cons e l ih =>
      rw [reapplyAll]
      split
      next => rfl
      next e' he =>
        obtain ⟨redacted, hredacted, rfl⟩ := Option.map_eq_some_iff.mp he
        obtain ⟨hmethod, hpath, houtcome⟩ := redactTransaction_keeps hredacted
        rw [List.map_cons, List.map_cons, ih]
        refine congrArg (· :: l.map matchKey) ?_
        simp [matchKey, truncateBodies, hmethod, hpath, houtcome]

theorem updateSettings_moves (s : Journal c) (settings : JournalSettings) :
    ∃ kept fresh, Moves s (s.updateSettings settings).1 kept fresh := by
  unfold updateSettings
  dsimp only
  split
  next =>
    obtain ⟨kept, fresh, h⟩ := restoreFromDisk_moves (s.withSettings settings)
    exact ⟨kept, fresh, h.keys, h.kept, h.sorted, h.fresh, h.stored, h.counted⟩
  next =>
    have hre : Moves s (s.withSettings settings).reapplyRedaction.1 s.keys [] := by
      refine Moves.of_keys ?_ rfl (Nat.le_refl _)
      rw [Journal.keys, toOrdered_reapplyRedaction, reapplyAll_keys]
      rfl
    refine ⟨s.keys, [], ?_⟩
    split
    next s' hs' =>
      rw [hs'] at hre
      exact hre
    next s' hs' =>
      rw [hs'] at hre
      split
      · exact hre.flush
      · exact hre

end Journal

/-! ## What the client gets -/

namespace Polling

variable {c : JournalConfig} {q : Journal.Query} {s : Polling c} {limit : Option ℕ}

open Journal (Moves matchKey admitsKey)

structure Inv (q : Journal.Query) (s : Polling c) : Prop where
  sorted : (s.journal.keys.map Prod.fst).Pairwise (· < ·)
  below : ∀ k ∈ s.journal.keys, k.1 < s.journal.stored
  counted : s.journal.toOrdered.length ≤ s.journal.cursorCounter
  polled : s.polledAt ≤ s.journal.stored
  received : ∀ i ∈ s.received, i < s.polledAt
  older : s.older q ≤ s.cursor

theorem older_eq : s.older q =
    s.journal.keys.countP fun k => admitsKey c q k && decide (k.1 < s.polledAt) := by
  rw [older, matching, List.countP_filter, Journal.keys, List.countP_map]
  exact List.countP_congr fun e _ => by rw [Bool.and_comm]; rfl

theorem Inv.moves {j : Journal c} {kept fresh : List (ℕ × String × String × String)} (h : Inv q s)
    (hm : Moves s.journal j kept fresh) : Inv q { s with journal := j } where
  sorted := by
    show (j.keys.map Prod.fst).Pairwise (· < ·)
    rw [hm.keys, List.map_append, List.pairwise_append]
    refine ⟨h.sorted.sublist (hm.kept.map _), hm.sorted, fun i hi i' hi' => ?_⟩
    obtain ⟨k, hk, rfl⟩ := List.mem_map.mp hi
    obtain ⟨k', hk', rfl⟩ := List.mem_map.mp hi'
    exact (h.below k (hm.kept.subset hk)).trans_le (hm.fresh k' hk').1
  below := fun k hk => by
    have hk : k ∈ kept ++ fresh := hm.keys ▸ hk
    rcases List.mem_append.mp hk with hk | hk
    · exact (h.below k (hm.kept.subset hk)).trans_le hm.stored
    · exact (hm.fresh k hk).2
  counted := hm.counted h.counted
  polled := h.polled.trans hm.stored
  received := h.received
  older := by
    have hfresh : fresh.countP (fun k => admitsKey c q k && decide (k.1 < s.polledAt)) = 0 := by
      refine List.countP_eq_zero.mpr fun k hk => ?_
      have hle := h.polled.trans (hm.fresh k hk).1
      simp [hle]
    have hkept := hm.kept.countP_le (p := fun k => admitsKey c q k && decide (k.1 < s.polledAt))
    rw [older_eq]
    show j.keys.countP (fun k => admitsKey c q k && decide (k.1 < s.polledAt)) ≤ s.cursor
    rw [hm.keys, List.countP_append, hfresh, Nat.add_zero]
    exact (hkept.trans_eq older_eq.symm).trans h.older

theorem inv_start (settings : JournalSettings) (disk : Option JournalSnapshot) :
    Inv q (start c settings disk) := by
  have hempty : ∀ j : Journal c, j.ring = .empty → Inv q ⟨j, 0, [], 0⟩ := by
    intro j hj
    have hlist : j.toOrdered = [] := by
      rw [Journal.toOrdered, hj]
      exact Ring.toList_empty
    have hkeys : j.keys = [] := congrArg (List.map matchKey) hlist
    exact ⟨by rw [hkeys]; exact List.Pairwise.nil, by rw [hkeys]; nofun,
      (congrArg List.length hlist).le.trans (Nat.zero_le _), Nat.zero_le _, nofun,
      by rw [older_eq]; exact (congrArg (List.countP _) hkeys).le⟩
  unfold start Journal.construct
  dsimp only
  split
  · obtain ⟨kept, fresh, hm⟩ := Journal.restoreFromDisk_moves (Journal.blank c settings disk)
    exact Inv.moves (hempty _ rfl) hm
  · exact hempty _ rfl

/-! ### A page -/

/-- With a limit that is no smaller, the page is what follows the cursor. -/
theorem page_eq (hfits : s.fits q limit = true) :
    (s.page q limit).transactions = (s.matching q).drop s.cursor := by
  have hstart : ∀ (l : List JournalEntry) (n : ℕ), l.drop (if n = 0 then 0
      else ((List.range l.length).find? (fun i => n ≤ i)).getD l.length) = l.drop n := by
    intro l n
    split
    next hn => rw [hn]
    next =>
      by_cases hlt : n < l.length
      · have hfind : (List.range l.length).find? (fun i => decide (n ≤ i)) = some n := by
          rw [List.find?_range_eq_some]
          exact ⟨by simp, List.mem_range.mpr hlt, fun i hi => by simpa using hi⟩
        rw [hfind]
        rfl
      · have hfind : (List.range l.length).find? (fun i => decide (n ≤ i)) = none := by
          rw [List.find?_range_eq_none]
          intro i hi
          simp
          omega
        rw [hfind, Option.getD_none, List.drop_length, List.drop_eq_nil_of_le (not_lt.mp hlt)]
  have hwhole : ∀ limit, (s.page q limit).transactions =
      ((s.matching q).drop s.cursor).take (min (limit.getD hardMaxJournalEntries)
        hardMaxJournalEntries) :=
    fun limit => congrArg (List.take _) (hstart _ _)
  have hbound : ((s.matching q).drop s.cursor).length ≤ hardMaxJournalEntries := by
    have hmatch : (s.matching q).length ≤ s.journal.toOrdered.length := List.length_filter_le _ _
    have hcount : s.journal.toOrdered.length = s.journal.ring.count := Ring.length_toList
    have hcap := s.journal.ring.bounded.trans c.maxEntries_le
    rw [List.length_drop]
    omega
  unfold fits at hfits
  rw [decide_eq_true_eq, hwhole, Option.getD_none, Nat.min_self, List.take_of_length_le hbound] at hfits
  rw [hwhole, List.take_of_length_le (Nat.le_min.mpr ⟨hfits, hbound⟩)]

theorem Inv.matching_sorted (h : Inv q s) :
    (s.matching q).Pairwise fun e e' => e.seq < e'.seq := by
  have hall := h.sorted
  rw [Journal.keys, List.map_map, List.pairwise_map] at hall
  exact hall.sublist List.filter_sublist

/-- The matches that were there at the last poll. -/
def seen (q : Journal.Query) (s : Polling c) : List JournalEntry :=
  (s.matching q).filter fun e => decide (e.seq < s.polledAt)

def newer (q : Journal.Query) (s : Polling c) : List JournalEntry :=
  (s.matching q).filter fun e => decide (s.polledAt ≤ e.seq)

theorem length_seen : (s.seen q).length = s.older q := List.countP_eq_length_filter.symm

/-- The matches that were there at the last poll come first. -/
theorem Inv.matching_eq (h : Inv q s) : s.matching q = s.seen q ++ s.newer q := by
  have hsorted := h.matching_sorted
  unfold seen newer
  generalize s.matching q = l at hsorted
  induction l with
  | nil => rfl
  | cons e l ih =>
      obtain ⟨hhead, htail⟩ := List.pairwise_cons.mp hsorted
      by_cases he : e.seq < s.polledAt
      · rw [List.filter_cons_of_pos (by simpa using he),
          List.filter_cons_of_neg (by simpa using he), List.cons_append, ← ih htail]
      · have hnone : l.filter (fun e => decide (e.seq < s.polledAt)) = [] := by
          refine List.filter_eq_nil_iff.mpr fun e' he' => ?_
          have := hhead e' he'
          simp
          omega
        have hall : l.filter (fun e => decide (s.polledAt ≤ e.seq)) = l := by
          refine List.filter_eq_self.mpr fun e' he' => ?_
          have := hhead e' he'
          simp
          omega
        rw [List.filter_cons_of_neg (by simpa using he), hnone, List.nil_append,
          List.filter_cons_of_pos (by simpa using he), hall]

theorem Inv.drop_eq (h : Inv q s) :
    (s.matching q).drop s.cursor = (s.newer q).drop (s.cursor - s.older q) := by
  rw [h.matching_eq, List.drop_append, length_seen,
    List.drop_eq_nil_of_le (length_seen.trans_le h.older), List.nil_append]

theorem Inv.page_complete_iff (h : Inv q s) :
    ((∀ e ∈ s.matching q, s.polledAt ≤ e.seq →
        ((s.matching q).drop s.cursor).countP (fun e' => e'.seq == e.seq) = 1) ∧
      ∀ e ∈ (s.matching q).drop s.cursor, e.seq ∉ s.received) ↔
      s.cursor = s.older q ∨ (s.matching q).length = s.older q := by
  have hsorted : (s.newer q).Pairwise fun e e' => e.seq < e'.seq :=
    h.matching_sorted.sublist List.filter_sublist
  have hlength : (s.matching q).length = s.older q + (s.newer q).length := by
    rw [h.matching_eq, List.length_append, length_seen]
  rw [h.drop_eq, hlength]
  constructor
  · rintro ⟨hall, -⟩
    by_contra hnot
    rw [not_or] at hnot
    cases hnewer : s.newer q with
    | nil => simp [hnewer] at hnot
    | cons e l =>
        have hlt : s.older q < s.cursor := lt_of_le_of_ne h.older (Ne.symm hnot.1)
        obtain ⟨k, hk⟩ := Nat.exists_eq_add_of_lt hlt
        have hmem : e ∈ s.newer q := by rw [hnewer]; exact List.mem_cons_self
        obtain ⟨hmatch, hnew⟩ := List.mem_filter.mp hmem
        have hone := hall e hmatch (by simpa using hnew)
        rw [hnewer, hk, Nat.add_assoc, Nat.add_sub_cancel_left, List.drop_succ_cons] at hone
        rw [hnewer] at hsorted
        have hzero : (l.drop k).countP (fun e' => e'.seq == e.seq) = 0 := by
          refine List.countP_eq_zero.mpr fun e' he' => ?_
          have := (List.pairwise_cons.mp hsorted).1 e' ((List.drop_sublist _ _).subset he')
          simp
          omega
        rw [hzero] at hone
        cases hone
  · intro hcase
    have hnew : ∀ e ∈ (s.newer q).drop (s.cursor - s.older q), e.seq ∉ s.received := by
      intro e he hreceived
      have hle := (List.mem_filter.mp ((List.drop_sublist _ _).subset he)).2
      have := h.received _ hreceived
      simp at hle
      omega
    refine ⟨fun e he hle => ?_, hnew⟩
    have hmem : e ∈ s.newer q := List.mem_filter.mpr ⟨he, by simpa using hle⟩
    rcases hcase with heq | hlen
    · rw [heq, Nat.sub_self, List.drop_zero]
      have hnodup : ((s.newer q).map JournalEntry.seq).Nodup :=
        List.Pairwise.imp Nat.ne_of_lt (List.pairwise_map.mpr hsorted)
      have hcount := List.count_eq_one_of_mem hnodup (List.mem_map_of_mem hmem)
      rw [List.count_eq_countP, List.countP_map] at hcount
      exact hcount
    · have hnone : s.newer q = [] := List.eq_nil_of_length_eq_zero (by omega)
      rw [hnone] at hmem
      cases hmem

/-- A poll is right exactly when the cursor leads to the first newer match, or none is there. -/
theorem complete_iff (h : Inv q s) (ev : PollingEvent) :
    Complete q ev s ↔ cursorMeets q ev s = true := by
  cases ev with
  | poll limit =>
      cases hfits : s.fits q limit with
      | false => simp [Complete, cursorMeets, hfits]
      | true =>
          rw [cursorMeets, hfits, Complete, page_eq hfits]
          simp only [hfits, forall_const, Bool.not_true, Bool.false_or, Bool.or_eq_true, beq_iff_eq]
          exact h.page_complete_iff
  | _ => exact iff_of_true trivial rfl

/-- What one event keeps. -/
theorem Inv.step {s' : Polling c} {ev : PollingEvent} (h : Inv q s)
    (hnext : pollingNext q ev s = some s') : Inv q s' := by
  cases ev with
  | append tx =>
      cases hnext
      obtain ⟨kept, fresh, hm⟩ := Journal.append_moves s.journal tx
      exact h.moves hm
  | clear =>
      cases hnext
      obtain ⟨kept, fresh, hm⟩ := Journal.clear_moves s.journal
      exact h.moves hm
  | updateSettings settings =>
      cases hnext
      obtain ⟨kept, fresh, hm⟩ := Journal.updateSettings_moves s.journal settings
      exact h.moves hm
  | poll limit =>
      obtain ⟨hfits, heq⟩ := Option.ite_none_right_eq_some.mp hnext
      cases heq
      refine ⟨h.sorted, h.below, h.counted, Nat.le_refl _, fun i hi => ?_, ?_⟩
      · rcases List.mem_append.mp hi with hi | hi
        · exact (h.received i hi).trans_le h.polled
        · obtain ⟨e, he, rfl⟩ := List.mem_map.mp hi
          rw [page_eq hfits] at he
          have hmem := (List.mem_filter.mp ((List.drop_sublist _ _).subset he)).1
          exact h.below (matchKey e) (List.mem_map_of_mem hmem)
      · have hle : (s.poll q limit).older q ≤ s.journal.toOrdered.length :=
          (List.countP_le_length).trans (List.length_filter_le _ _)
        exact hle.trans h.counted

end Polling

/-- **Polling is complete as long as the cursor is an index.**  In every run of the journal
and a client, every page has each newer match that is still there once, and nothing that the
client has received, exactly if at every poll the cursor of the last page is the number of
the matches that were there at the last poll and still are, or no newer match is there. -/
theorem polling_complete_iff (c : JournalConfig) (settings : JournalSettings)
    (disk : Option JournalSnapshot) (q : Journal.Query) (evs : List PollingEvent) :
    AllSteps (pollingNext q) (Polling.Complete q) (Polling.start c settings disk) evs ↔
      AllSteps (pollingNext q) (fun ev s => Polling.cursorMeets q ev s = true)
        (Polling.start c settings disk) evs :=
  allSteps_iff (fun _ _ _ h _ hnext => h.step hnext) (fun ev _ h => Polling.complete_iff h ev)
    (Polling.inv_start settings disk)

/-! ### Entries that are never received -/

/-- A journal of two entries. -/
def shortJournal : JournalConfig where
  js := asciiJs
  parse := fun _ => none
  parse_unique := nofun
  settingsMaxEntries := 2
  settingsMaxCapturedBodyBytes := 1000
  persistFile := false

def plainJournal : JournalSettings := ⟨[], [], true, true, false⟩

def orderTx (method : String) : Transaction :=
  ⟨⟨method, "/orders", [], none, none, false⟩, none, "matched"⟩

def everything : Journal.Query := ⟨0, none, none, none, none⟩

/-- With an entry that does not match, after the ring has wrapped, and after a clear, the
second poll gets nothing, and a newer match is there. -/
theorem newer_entries_missed :
    (∃ s, exec (pollingNext { everything with methodFilter := some "POST" })
        (Polling.start shortJournal plainJournal none)
        [.append (orderTx "GET"), .poll none, .append (orderTx "POST")] = some s ∧
      (s.newer { everything with methodFilter := some "POST" }).map JournalEntry.seq = [1] ∧
      (s.page { everything with methodFilter := some "POST" } none).transactions.length = 0) ∧
    (∃ s, exec (pollingNext everything) (Polling.start shortJournal plainJournal none)
        [.append (orderTx "GET"), .append (orderTx "GET"), .poll none, .append (orderTx "GET")] =
          some s ∧
      (s.newer everything).map JournalEntry.seq = [2] ∧
      (s.page everything none).transactions.length = 0) ∧
    ∃ s, exec (pollingNext everything) (Polling.start shortJournal plainJournal none)
        [.append (orderTx "GET"), .poll none, .clear, .append (orderTx "GET")] = some s ∧
      (s.newer everything).map JournalEntry.seq = [1] ∧
      (s.page everything none).transactions.length = 0 :=
  ⟨exists_exec (by decide), exists_exec (by decide), exists_exec (by decide)⟩

end RedFireForge.ApiMock
