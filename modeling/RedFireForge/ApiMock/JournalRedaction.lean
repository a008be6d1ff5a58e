/-
# `RedFireForge.ApiMock.JournalRedaction` — what the journal keeps of a redacted body

A configured path hides the value that stood there in a body as it came in.  It does where
the reader and the writer of paths agree, and as long as the body can be parsed when the
path is configured.
-/
import RedFireForge.ApiMock.Journal
import RedFireForge.ApiMock.ResponseSelector
import RedFireForge.Lib.Run

namespace RedFireForge.ApiMock

open RedFireForge.Lib

namespace Journal

/-! ## Paths -/

def keysOf (raw : String) : List String := pathKeys (trim raw.toList)

/-- A path with keys and without brackets. -/
def isDotted (raw : String) : Bool :=
  !(trim raw.toList).contains '[' && !(keysOf raw).isEmpty

/-- The reader takes all its keys as they are, so nothing goes wrong. -/
def isPlain (js : Js) (raw : String) : Bool :=
  tokenizeJsonPath (stripJsonPathPrefix (trim raw.toList)) == keysOf raw &&
    (keysOf raw).all (isPlainKey js)

/-- The writer follows the reader, or does nothing. -/
def pathMeets (js : Js) (j : Json) (raw : String) : Bool :=
  !isDotted raw || (isPlain js raw && !isLength j (keysOf raw)) ||
    (keysOf raw).any (· ∈ unsafeKeys) || decide (getByPath js j (trim raw.toList) = .undefined)

variable {c : JournalConfig}

/-- Of a body as it came in and as it is stored, with the paths when it could last be parsed:
all configured paths can be applied to it; and those with a value in the original are plain,
and come in time. -/
def bodyMeets (c : JournalConfig) (paths : List String) (original stored : Option String)
    (before : List String) : Bool :=
  (stored.bind (bodyObject c)).all (fun j => paths.all (pathMeets c.js j)) &&
    (original.bind (bodyObject c)).all fun j => paths.all fun raw =>
      !isDotted raw || (valueAt j (keysOf raw)).isNone ||
        (isPlain c.js raw && ((stored.bind (bodyObject c)).isSome || before.contains raw))

def responseBody (tx : Transaction) : Option String := tx.response.bind LoggedResponse.body

def txMeets (c : JournalConfig) (paths : List String) (tx : Transaction) : Bool :=
  bodyMeets c paths tx.request.body tx.request.body [] &&
    bodyMeets c paths (responseBody tx) (responseBody tx) []

def entryMeets (c : JournalConfig) (paths : List String) (e : JournalEntry) : Bool :=
  bodyMeets c paths e.original.request.body e.tx.request.body e.requestPaths &&
    bodyMeets c paths (responseBody e.original) (responseBody e.tx) e.responsePaths

/-! ## Runs -/

/-- The text does not contain the value at the path: read as JSON, or as the beginning of the
text of a JSON value. -/
def Omits (c : JournalConfig) (text : String) (keys : List String) (v : Json) : Prop :=
  (∃ j, c.parse text = some j ∧ valueAt j keys ≠ some v) ∨
    ∃ j : Json, j.EachObject List.Nodup ∧ text.toList <+: j.render ∧ valueAt j keys ≠ some v

/-- What stood at the path in a JSON object is not in the stored body, unless it was the mark. -/
def Hidden (c : JournalConfig) (original stored : Option String) (raw : String) : Prop :=
  ∀ text j v, original = some text → bodyObject c text = some j → valueAt j (keysOf raw) = some v →
    v ≠ .str mark → ∀ body, stored = some body → Omits c body (keysOf raw) v

def Redacted (s : Journal c) : Prop :=
  ∀ e ∈ s.toOrdered, ∀ raw ∈ s.redactionJsonPaths, isDotted raw = true →
    Hidden c e.original.request.body e.tx.request.body raw ∧
      Hidden c (responseBody e.original) (responseBody e.tx) raw

end Journal

inductive JournalEvent
  | append (tx : Transaction)
  | clear
  | updateSettings (settings : JournalSettings)

variable {c : JournalConfig}

def journalNext : JournalEvent → Journal c → Option (Journal c)
  | .append tx, s => some (s.append tx).1
  | .clear, s => some s.clear
  | .updateSettings settings, s => some (s.updateSettings settings).1

namespace Journal

def throws : JournalEvent → Journal c → Bool
  | .append tx, s => (s.append tx).2
  | .clear, _ => false
  | .updateSettings settings, s => (s.updateSettings settings).2

/-- The entries that may be loaded. -/
def restoreMeets (s : Journal c) : Bool :=
  s.disk.all fun snap => (lastOnes c snap.transactions).all (txMeets c s.redactionJsonPaths)

/-- An update starts to use the snapshot. -/
def loads (s : Journal c) (settings : JournalSettings) : Bool :=
  settings.enabled && (settings.persistToDisk && c.persistFile) && s.ring.count == 0 &&
    (!s.persistToDisk || !s.journalEnabled)

/-- Every body that is read under the configured paths meets the condition. -/
def redactionMeets : JournalEvent → Journal c → Bool
  | .append tx, s => !s.journalEnabled || c.maxEntries == 0 || txMeets c s.redactionJsonPaths tx
  | .clear, _ => true
  | .updateSettings settings, s =>
      let s' := s.withSettings settings
      if s.loads settings then s'.restoreMeets
      else s'.toOrdered.all (entryMeets c s'.redactionJsonPaths)

/-- The transactions that the constructor loads. -/
def startMeets (c : JournalConfig) (settings : JournalSettings) (disk : Option JournalSnapshot) :
    Bool :=
  let s := blank c settings disk
  !s.persistToDisk || !s.journalEnabled || s.restoreMeets

/-! ## One path -/

section Paths

variable {js : Js} {j j' : Json} {raw : String} {paths : List String}

theorem pathMeets_marked (h : Marked mark j j') (hold : pathMeets js j raw = true) :
    pathMeets js j' raw = true := by
  simp only [pathMeets, Bool.or_eq_true, Bool.and_eq_true, Bool.not_eq_true', decide_eq_true_eq]
    at hold ⊢
  rcases hold with ((hold | ⟨hplain, hlength⟩) | hold) | hold
  · exact Or.inl (Or.inl (Or.inl hold))
  · exact Or.inl (Or.inl (Or.inr ⟨hplain, isLength_marked h hlength⟩))
  · exact Or.inl (Or.inr hold)
  · exact Or.inr (walkPath_marked h hold)

/-- Nothing stands there, or the mark. -/
def IsHidden (j : Json) (raw : String) : Prop :=
  valueAt j (keysOf raw) = none ∨ valueAt j (keysOf raw) = some (.str mark)

theorem isPlain_iff : isPlain js raw = true ↔
    tokenizeJsonPath (stripJsonPathPrefix (trim raw.toList)) = keysOf raw ∧
      ∀ key ∈ keysOf raw, isPlainKey js key = true := by
  simp [isPlain]

theorem isDotted_iff : isDotted raw = true ↔ '[' ∉ trim raw.toList ∧ keysOf raw ≠ [] := by
  simp [isDotted]

/-- The reader finds what stands at a plain path. -/
theorem getByPath_plain (hplain : isPlain js raw = true)
    (hget : getByPath js j (trim raw.toList) = .undefined) : valueAt j (keysOf raw) = none := by
  obtain ⟨htokens, hkeys⟩ := isPlain_iff.mp hplain
  cases hvalue : valueAt j (keysOf raw) with
  | none => rfl
  | some v =>
      rw [getByPath, htokens, walkPath_of_value hkeys hvalue] at hget
      cases hget

theorem safe_of_plain (hplain : isPlain js raw = true) :
    (keysOf raw).any (· ∈ unsafeKeys) = false := by
  rw [List.any_eq_false]
  intro key hkey hmem
  exact (isPlainKey_iff.mp ((isPlain_iff.mp hplain).2 key hkey)).1 (by simpa using hmem)

/-- What one path does: it puts a mark, or leaves the value as it is. -/
theorem redactPath_marks (h : pathMeets js j raw = true) :
    ∃ j' changed, redactPath js j raw = some (j', changed) ∧ (j' = j ∨ Marked mark j j') ∧
      (isDotted raw = true → isPlain js raw = true → IsHidden j' raw) ∧
      (changed = false → j' = j) := by
  unfold redactPath
  dsimp only
  split
  next hskip =>
    refine ⟨j, false, rfl, Or.inl rfl, fun hdotted => ?_, fun _ => rfl⟩
    obtain ⟨hbracket, hkeys⟩ := isDotted_iff.mp hdotted
    rcases hskip with hnil | hmem
    · exact absurd (by rw [keysOf, hnil]; rfl) hkeys
    · exact absurd hmem hbracket
  next hskip =>
    rw [not_or] at hskip
    split
    next hget =>
      exact ⟨j, false, rfl, Or.inl rfl, fun _ hplain => Or.inl (getByPath_plain hplain hget),
        fun _ => rfl⟩
    next hget =>
      unfold setByPath
      split
      next hrefused =>
        exact ⟨j, true, rfl, Or.inl rfl, fun _ hplain => absurd (hrefused.symm.trans
          (safe_of_plain hplain)) nofun, nofun⟩
      next hsafe =>
        by_cases hdotted : isDotted raw = true
        · simp only [pathMeets, hdotted, Bool.not_true, Bool.false_or, Bool.or_eq_true,
            Bool.and_eq_true, Bool.not_eq_true', decide_eq_true_eq] at h
          obtain ⟨hplain, hlength⟩ := (h.resolve_right hget).resolve_right hsafe
          obtain ⟨htokens, hkeys⟩ := isPlain_iff.mp hplain
          rw [getByPath, htokens] at hget
          obtain ⟨j', hset, hmarked, hvalue⟩ :=
            setKeys_marked hkeys (isDotted_iff.mp hdotted).2 hlength hget
          refine ⟨j', true, ?_, Or.inr hmarked, fun _ _ => Or.inr hvalue, nofun⟩
          rw [show pathKeys (trim raw.toList) = keysOf raw from rfl, hset]
          rfl
        · have hkeys : keysOf raw = [] := by
            by_contra hne
            exact hdotted (isDotted_iff.mpr ⟨hskip.2, hne⟩)
          refine ⟨j, true, ?_, Or.inl rfl, fun hyes => absurd hyes hdotted, nofun⟩
          rw [show pathKeys (trim raw.toList) = keysOf raw from rfl, hkeys]
          rfl

/-- What stays hidden by one path, whatever the others do. -/
theorem IsHidden.marked (h : IsHidden j raw) (hstep : j' = j ∨ Marked mark j j') : IsHidden j' raw := by
  rcases hstep with rfl | hmarked
  · exact h
  · exact valueAt_marked hmarked h

/-- All paths in turn. -/
theorem redactPaths_marks (hall : ∀ raw ∈ paths, pathMeets js j raw = true)
    (hunique : j.EachObject List.Nodup) :
    ∃ j' changed, redactPaths js paths j = some (j', changed) ∧
      j'.EachObject List.Nodup ∧ (∀ raw, IsHidden j raw → IsHidden j' raw) ∧
      (∀ raw ∈ paths, isDotted raw = true → isPlain js raw = true → IsHidden j' raw) ∧
      (changed = false → j' = j) := by
  induction paths generalizing j with
  | nil => exact ⟨j, false, rfl, hunique, fun _ h => h, nofun, fun _ => rfl⟩
  | cons raw paths ih =>
      rw [List.forall_mem_cons] at hall
      obtain ⟨j₁, changed₁, hone, hstep, hhidden, hsame₁⟩ := redactPath_marks hall.1
      have hmeets : ∀ raw ∈ paths, pathMeets js j₁ raw = true := by
        intro raw' hraw'
        rcases hstep with rfl | hmarked
        · exact hall.2 raw' hraw'
        · exact pathMeets_marked hmarked (hall.2 raw' hraw')
      have hunique₁ : j₁.EachObject List.Nodup := by
        rcases hstep with rfl | hmarked
        · exact hunique
        · exact unique_marked hmarked hunique
      obtain ⟨j₂, changed₂, hrest, hunique₂, hkept, hall₂, hsame₂⟩ := ih hmeets hunique₁
      refine ⟨j₂, changed₁ || changed₂, ?_, hunique₂, fun raw' h => hkept raw' (h.marked hstep),
        ?_, fun hno => ?_⟩
      · rw [redactPaths, hone, Option.bind_some]
        dsimp only
        rw [hrest]
        rfl
      · intro raw' hraw' hdotted hplain
        rcases List.mem_cons.mp hraw' with rfl | hraw'
        · exact hkept _ (hhidden hdotted hplain)
        · exact hall₂ raw' hraw' hdotted hplain
      · rw [Bool.or_eq_false_iff] at hno
        exact (hsame₂ hno.2).trans (hsame₁ hno.1)

end Paths

/-! ## One body -/

section Bodies

variable {paths before : List String} {original stored : Option String} {raw body : String} {j v : Json}

theorem bodyObject_parse (h : bodyObject c body = some j) : c.parse body = some j := by
  unfold bodyObject at h
  split at h
  next fields hparse => exact hparse.trans h
  next => cases h

theorem takeUnits_prefix : ∀ (n : ℕ) (cs : List Char), takeUnits n cs <+: cs
  | _, [] => List.prefix_refl _
  | n, ch :: cs => by
      rw [takeUnits]
      split
      · exact List.cons_prefix_cons.mpr ⟨rfl, takeUnits_prefix _ cs⟩
      · exact List.nil_prefix

theorem takeUnits_length : ∀ (n : ℕ) (cs : List Char), ((takeUnits n cs).map units).sum ≤ n
  | _, [] => Nat.zero_le _
  | n, ch :: cs => by
      rw [takeUnits]
      split
      next hle =>
        have := takeUnits_length (n - units ch) cs
        rw [List.map_cons, List.sum_cons]
        omega
      next => exact Nat.zero_le _

theorem cutBody_some (body : String) : ∃ cut, cutBody c (some body) = some cut ∧
    bodyLength cut ≤ c.maxBodyBytes ∧ cut.toList <+: body.toList ∧
      (bodyLength body ≤ c.maxBodyBytes → cut = body) := by
  refine ⟨_, rfl, ?_⟩
  dsimp only
  split
  next hlong =>
    rw [bodyLength, String.toList_ofList]
    exact ⟨takeUnits_length _ _, takeUnits_prefix _ _, fun hle => absurd hlong (not_lt.mpr hle)⟩
  next hshort => exact ⟨not_lt.mp hshort, List.prefix_refl _, fun _ => rfl⟩

/-- What holds of a body in the journal. -/
structure BodyKept (c : JournalConfig) (original stored : Option String) (before : List String) :
    Prop where
  short : ∀ body, stored = some body → bodyLength body ≤ c.maxBodyBytes
  hidden : ∀ raw ∈ before, isDotted raw = true → Hidden c original stored raw

/-- Each path with a value in the original is among those that came in time. -/
def InTime (c : JournalConfig) (paths : List String) (original : Option String)
    (before : List String) : Prop :=
  ∀ raw ∈ paths, isDotted raw = true → ∀ text j v, original = some text →
    bodyObject c text = some j → valueAt j (keysOf raw) = some v → raw ∈ before

theorem bodyMeets_iff : bodyMeets c paths original stored before = true ↔
    (∀ j, stored.bind (bodyObject c) = some j → ∀ raw ∈ paths, pathMeets c.js j raw = true) ∧
      ∀ text j, original = some text → bodyObject c text = some j → ∀ raw ∈ paths,
        isDotted raw = true → ∀ v, valueAt j (keysOf raw) = some v → isPlain c.js raw = true ∧
          raw ∈ pathsNow c stored paths before := by
  rw [bodyMeets, Bool.and_eq_true, Option.all_eq_true, Option.all_eq_true]
  simp only [List.all_eq_true]
  refine and_congr_right fun _ => ⟨fun h text j htext hj raw hraw hdotted v hv => ?_,
    fun h j hj raw hraw => ?_⟩
  · have hmeets := h j (by rw [htext]; exact hj) raw hraw
    simp only [hdotted, hv, Bool.not_true, Option.isNone_some, Bool.or_false, Bool.false_or,
      Bool.and_eq_true, Bool.or_eq_true, List.contains_iff_mem] at hmeets
    refine ⟨hmeets.1, ?_⟩
    unfold pathsNow
    split
    next => exact hraw
    next hnone => exact hmeets.2.resolve_left hnone
  · obtain ⟨text, htext, hj⟩ := Option.bind_eq_some_iff.mp hj
    cases hdotted : isDotted raw with
    | false => rfl
    | true =>
        cases hv : valueAt j (keysOf raw) with
        | none => rfl
        | some v =>
            obtain ⟨hplain, hmem⟩ := h text j htext hj raw hraw hdotted v hv
            unfold pathsNow at hmem
            split at hmem
            next hsome => simp [hplain, hsome]
            next => simp [hplain, hmem]

/-- A body that is a JSON object is read under all paths. -/
theorem redactJsonBody_object (hobject : bodyObject c body = some j)
    (hall : ∀ raw ∈ paths, pathMeets c.js j raw = true) :
    ∃ j' changed, redactJsonBody c paths (some body) =
        some (some (if changed = true then j'.stringify else body)) ∧
      j'.EachObject List.Nodup ∧
      (∀ raw ∈ paths, isDotted raw = true → isPlain c.js raw = true → IsHidden j' raw) ∧
      (changed = false → j' = j) := by
  have hunique := c.parse_unique body j (bodyObject_parse hobject)
  unfold redactJsonBody
  dsimp only
  split
  next hnil => exact ⟨j, false, rfl, hunique, by rw [hnil]; nofun, fun _ => rfl⟩
  next =>
    obtain ⟨j', changed, hpaths, hunique', -, hhidden, hsame⟩ := redactPaths_marks hall hunique
    rw [hobject]
    dsimp only
    rw [hpaths]
    exact ⟨j', changed, rfl, hunique', hhidden, hsame⟩

theorem redactJsonBody_other (hobject : bodyObject c body = none) :
    redactJsonBody c paths (some body) = some (some body) := by
  unfold redactJsonBody
  dsimp only
  split
  · rfl
  · rw [hobject]

theorem not_value_of_hidden (h : IsHidden j raw) (hv : v ≠ .str mark) :
    valueAt j (keysOf raw) ≠ some v := by
  rcases h with h | h
  · rw [h]
    nofun
  · rw [h]
    exact fun heq => hv (Option.some.inj heq).symm

/-- A body is redacted and cut: as it comes in, or as it is stored. -/
theorem redactJsonBody_keeps (hmeets : bodyMeets c paths original stored before = true)
    (hold : BodyKept c original stored before ∨ stored = original ∧ before = []) :
    ∃ body, redactJsonBody c paths stored = some body ∧
      BodyKept c original (cutBody c body) (pathsNow c stored paths before) ∧
      InTime c paths original (pathsNow c stored paths before) := by
  obtain ⟨hread, hplain⟩ := bodyMeets_iff.mp hmeets
  have htime : InTime c paths original (pathsNow c stored paths before) :=
    fun raw hraw hdotted text j v htext hj hv => (hplain text j htext hj raw hraw hdotted v hv).2
  cases stored with
  | none => exact ⟨none, rfl, ⟨nofun, fun _ _ _ _ _ _ _ _ _ _ => nofun⟩, htime⟩
  | some body =>
      cases hobject : bodyObject c body with
      | none =>
          refine ⟨some body, redactJsonBody_other hobject, ?_, htime⟩
          obtain ⟨cut, hcut, hshort, -, hsame⟩ := cutBody_some (c := c) body
          have hnow : pathsNow c (some body) paths before = before := by simp [pathsNow, hobject]
          rw [hnow, hcut]
          refine ⟨fun b hb => Option.some.inj hb ▸ hshort, fun raw hraw hdotted => ?_⟩
          rcases hold with hkept | ⟨-, hnil⟩
          · rw [hsame (hkept.short body rfl)]
            exact hkept.hidden raw hraw hdotted
          · rw [hnil] at hraw
            cases hraw
      | some j =>
          obtain ⟨j', changed, hbody, hunique, hhidden, hunchanged⟩ :=
            redactJsonBody_object hobject (hread j hobject)
          refine ⟨_, hbody, ?_, htime⟩
          have hnow : pathsNow c (some body) paths before = paths := by simp [pathsNow, hobject]
          rw [hnow]
          obtain ⟨cut, hcut, hshort, hbegin, hsame⟩ := cutBody_some (c := c)
            (if changed = true then j'.stringify else body)
          rw [hcut]
          refine ⟨fun b hb => Option.some.inj hb ▸ hshort,
            fun raw hraw hdotted text j₀ v htext hj₀ hv hmark b hb => ?_⟩
          obtain rfl := Option.some.inj hb
          have hgone := not_value_of_hidden (hhidden raw hraw hdotted
            (hplain text j₀ htext hj₀ raw hraw hdotted v hv).1) hmark
          cases changed with
          | true =>
              rw [if_pos rfl, Json.stringify, String.toList_ofList] at hbegin
              exact Or.inr ⟨j', hunique, hbegin, hgone⟩
          | false =>
              rw [hunchanged rfl] at hgone
              rw [if_neg Bool.false_ne_true] at hsame
              rcases hold with hkept | ⟨hcame, -⟩
              · rw [hsame (hkept.short body rfl)]
                exact Or.inl ⟨j, bodyObject_parse hobject, hgone⟩
              · -- as it came in, it had no value there to hide
                rw [htext] at hcame
                obtain rfl := Option.some.inj hcame
                rw [hobject] at hj₀
                exact absurd hv (Option.some.inj hj₀ ▸ hgone)

end Bodies

/-! ## The journal -/

/-- What holds of an entry under the configured paths. -/
structure EntryKept (c : JournalConfig) (paths : List String) (e : JournalEntry) : Prop where
  request : BodyKept c e.original.request.body e.tx.request.body e.requestPaths
  requestInTime : InTime c paths e.original.request.body e.requestPaths
  response : BodyKept c (responseBody e.original) (responseBody e.tx) e.responsePaths
  responseInTime : InTime c paths (responseBody e.original) e.responsePaths

def Kept (s : Journal c) : Prop := ∀ e ∈ s.toOrdered, EntryKept c s.redactionJsonPaths e

section Entries

variable {s s' : Journal c} {tx : Transaction} {e : JournalEntry}

theorem Kept.redacted (h : s.Kept) : s.Redacted := by
  intro e he raw hraw hdotted
  have hkept := h e he
  refine ⟨fun text j v htext hj hv => ?_, fun text j v htext hj hv => ?_⟩
  · exact hkept.request.hidden raw (hkept.requestInTime raw hraw hdotted text j v htext hj hv) hdotted
      text j v htext hj hv
  · exact hkept.response.hidden raw (hkept.responseInTime raw hraw hdotted text j v htext hj hv)
      hdotted text j v htext hj hv

theorem redactTransaction_bodies {request response : Option String}
    (hrequest : redactJsonBody c s.redactionJsonPaths tx.request.body = some request)
    (hresponse : redactJsonBody c s.redactionJsonPaths (responseBody tx) = some response) :
    ∃ redacted, s.redactTransaction tx = some redacted ∧
      (truncateBodies c redacted).request.body = cutBody c request ∧
      responseBody (truncateBodies c redacted) = cutBody c response := by
  unfold redactTransaction
  rw [hrequest, Option.bind_some]
  unfold responseBody at hresponse ⊢
  cases htx : tx.response with
  | none =>
      rw [htx] at hresponse
      cases hresponse
      exact ⟨_, rfl, rfl, rfl⟩
  | some r =>
      rw [htx] at hresponse
      have hbody : redactJsonBody c s.redactionJsonPaths r.body = some response := hresponse
      have hr : s.redactResponse r = some { r with
          headers := s.redactHeaderMap r.headers
          cookies := some (s.redactResponseCookies r.cookies)
          body := response } := by
        rw [redactResponse, hbody]
        rfl
      rw [Option.elim_some, hr]
      exact ⟨_, rfl, rfl, rfl⟩

/-- An entry is read anew. -/
theorem reapplyOne_keeps (hmeets : entryMeets c s.redactionJsonPaths e = true)
    {paths : List String} (hkept : EntryKept c paths e) :
    ∃ e', s.reapplyOne e = some e' ∧ EntryKept c s.redactionJsonPaths e' := by
  rw [entryMeets, Bool.and_eq_true] at hmeets
  obtain ⟨request, hrequest, hkeptRequest, htimeRequest⟩ :=
    redactJsonBody_keeps hmeets.1 (Or.inl hkept.request)
  obtain ⟨response, hresponse, hkeptResponse, htimeResponse⟩ :=
    redactJsonBody_keeps hmeets.2 (Or.inl hkept.response)
  obtain ⟨redacted, hredacted, hcutRequest, hcutResponse⟩ :=
    redactTransaction_bodies hrequest hresponse
  rw [← hcutRequest] at hkeptRequest
  rw [← hcutResponse] at hkeptResponse
  rw [reapplyOne, hredacted, Option.map_some]
  exact ⟨_, rfl, hkeptRequest, htimeRequest, hkeptResponse, htimeResponse⟩

/-- A transaction comes in. -/
theorem entryOf_keeps (hmeets : txMeets c s.redactionJsonPaths tx = true) :
    ∃ redacted, s.redactTransaction tx = some redacted ∧
      ∀ seq, EntryKept c s.redactionJsonPaths (s.entryOf tx (truncateBodies c redacted) seq) := by
  rw [txMeets, Bool.and_eq_true] at hmeets
  obtain ⟨request, hrequest, hkeptRequest, htimeRequest⟩ :=
    redactJsonBody_keeps hmeets.1 (Or.inr ⟨rfl, rfl⟩)
  obtain ⟨response, hresponse, hkeptResponse, htimeResponse⟩ :=
    redactJsonBody_keeps hmeets.2 (Or.inr ⟨rfl, rfl⟩)
  obtain ⟨redacted, hredacted, hcutRequest, hcutResponse⟩ :=
    redactTransaction_bodies hrequest hresponse
  rw [← hcutRequest] at hkeptRequest
  rw [← hcutResponse] at hkeptResponse
  exact ⟨redacted, hredacted, fun seq => ⟨hkeptRequest, htimeRequest, hkeptResponse, htimeResponse⟩⟩

theorem reapplyAll_keeps {l : List JournalEntry} {paths : List String}
    (hmeets : ∀ e ∈ l, entryMeets c s.redactionJsonPaths e = true)
    (hkept : ∀ e ∈ l, EntryKept c paths e) :
    (s.reapplyAll l).2 = false ∧ ∀ e ∈ (s.reapplyAll l).1, EntryKept c s.redactionJsonPaths e := by
  induction l with
  | nil => exact ⟨rfl, List.forall_mem_nil _⟩
  | cons e l ih =>
      rw [List.forall_mem_cons] at hmeets hkept
      obtain ⟨e', he', hone⟩ := reapplyOne_keeps hmeets.1 hkept.1
      obtain ⟨hthrow, hrest⟩ := ih hmeets.2 hkept.2
      rw [reapplyAll, he']
      exact ⟨hthrow, List.forall_mem_cons.mpr ⟨hone, hrest⟩⟩

theorem restoreAll_keeps {txs : List Transaction}
    (hmeets : ∀ tx ∈ txs, txMeets c s.redactionJsonPaths tx = true) (seq : ℕ) :
    ∃ l, s.restoreAll txs seq = some l ∧ ∀ e ∈ l, EntryKept c s.redactionJsonPaths e := by
  induction txs generalizing seq with
  | nil => exact ⟨[], rfl, List.forall_mem_nil _⟩
  | cons tx txs ih =>
      rw [List.forall_mem_cons] at hmeets
      obtain ⟨redacted, hredacted, hone⟩ := entryOf_keeps hmeets.1
      obtain ⟨l, hl, hrest⟩ := ih hmeets.2 (seq + 1)
      refine ⟨_, ?_, List.forall_mem_cons.mpr ⟨hone seq, hrest⟩⟩
      rw [restoreAll, restoreOne, hredacted, Option.map_some, Option.bind_some, hl]
      rfl

/-! ### The operations -/

theorem Kept.flush (h : s.Kept) : s.flushToDisk.Kept := by
  unfold flushToDisk
  split
  · exact h
  · exact h

theorem push_mem {cap : ℕ} {r : Ring JournalEntry cap} (hcap : 0 < cap) {e' : JournalEntry}
    (h : e' ∈ (r.push hcap e).toList) : e' ∈ r.toList ∨ e' = e := by
  by_cases hfull : r.count < cap
  · rw [Ring.toList_push_of_lt hcap hfull] at h
    simpa using h
  · rw [Ring.toList_push_full hcap (r.bounded.antisymm (not_lt.mp hfull))] at h
    rcases List.mem_append.mp h with h | h
    · exact Or.inl (List.mem_of_mem_tail h)
    · exact Or.inr (List.mem_singleton.mp h)

theorem Kept.append (h : s.Kept) (hmeets : redactionMeets (.append tx) s = true) :
    (s.append tx).1.Kept ∧ (s.append tx).2 = false := by
  unfold Journal.append
  dsimp only
  split
  next => exact ⟨h, rfl⟩
  next hon =>
    rw [not_or] at hon
    have htx : txMeets c s.redactionJsonPaths tx = true := by
      simpa [redactionMeets, hon.1, hon.2] using hmeets
    obtain ⟨redacted, hredacted, hone⟩ := entryOf_keeps htx
    have hredacted' : Journal.redactTransaction { s with cursorCounter := s.cursorCounter + 1 } tx =
      some redacted := hredacted
    rw [hredacted']
    refine ⟨Kept.flush fun e he => ?_, rfl⟩
    rcases push_mem (Nat.pos_of_ne_zero hon.2) he with he | rfl
    · exact h e he
    · exact hone s.stored

theorem kept_of_empty (h : s.toOrdered = []) : s.Kept := by
  intro e he
  rw [h] at he
  cases he

theorem Kept.clear : s.clear.Kept := by
  unfold Journal.clear
  dsimp only
  split
  · exact Kept.flush (kept_of_empty rfl)
  · split
    · exact kept_of_empty rfl
    · exact kept_of_empty rfl

theorem Kept.restore (h : s.Kept) (hmeets : s.restoreMeets = true) :
    s.restoreFromDisk.1.Kept ∧ s.restoreFromDisk.2 = false := by
  unfold restoreFromDisk
  split
  next => exact ⟨h, rfl⟩
  next =>
    split
    next => exact ⟨h, rfl⟩
    next snap hdisk =>
      have htxs : ∀ tx ∈ lastOnes c snap.transactions, txMeets c s.redactionJsonPaths tx = true := by
        simpa [restoreMeets, hdisk] using hmeets
      obtain ⟨l, hl, hall⟩ := restoreAll_keeps htxs s.stored
      split
      next hnone =>
        rw [hl] at hnone
        cases hnone
      next txs hsome =>
        rw [hl] at hsome
        cases hsome
        refine ⟨Kept.flush fun e he => hall e ?_, rfl⟩
        have he : e ∈ (Ring.ofList l _).toList := he
        rwa [Ring.toList_ofList] at he

theorem Kept.reapply {settings : JournalSettings} (h : s.Kept)
    (hmeets : ∀ e ∈ s.toOrdered, entryMeets c settings.jsonPaths e = true) :
    (s.withSettings settings).reapplyRedaction.1.Kept ∧
      (s.withSettings settings).reapplyRedaction.2 = false := by
  obtain ⟨hthrow, hall⟩ := reapplyAll_keeps (s := s.withSettings settings) hmeets h
  refine ⟨fun e he => ?_, hthrow⟩
  rw [toOrdered_reapplyRedaction] at he
  exact hall e he

theorem loads_iff {settings : JournalSettings} : s.loads settings = true ↔
    (s.withSettings settings).journalEnabled = true ∧
      (s.withSettings settings).persistToDisk = true ∧ (s.withSettings settings).ring.count = 0 ∧
      ((settings.persistToDisk && c.persistFile && !s.persistToDisk) = true ∨
        (settings.enabled && !s.journalEnabled) = true) := by
  simp only [loads, withSettings, Bool.and_eq_true, Bool.or_eq_true, beq_iff_eq]
  tauto

theorem Kept.updateSettings {settings : JournalSettings} (h : s.Kept)
    (hmeets : redactionMeets (.updateSettings settings) s = true) :
    (s.updateSettings settings).1.Kept ∧ (s.updateSettings settings).2 = false := by
  unfold Journal.updateSettings
  dsimp only
  split
  next hload =>
    rw [redactionMeets, if_pos (loads_iff.mpr hload)] at hmeets
    have hempty : (s.withSettings settings).toOrdered = [] :=
      List.eq_nil_of_length_eq_zero (Ring.length_toList.trans hload.2.2.1)
    exact Kept.restore (kept_of_empty hempty) hmeets
  next hload =>
    rw [redactionMeets, if_neg (mt loads_iff.mp hload), List.all_eq_true] at hmeets
    obtain ⟨hkept, hthrow⟩ := h.reapply hmeets
    split
    next s' hs' =>
      rw [hs'] at hthrow
      cases hthrow
    next s' hs' =>
      rw [hs'] at hkept
      split
      · exact ⟨hkept.flush, rfl⟩
      · exact ⟨hkept, rfl⟩

theorem Kept.step {s' : Journal c} {ev : JournalEvent} (h : s.Kept)
    (hmeets : redactionMeets ev s = true) (hnext : journalNext ev s = some s') : s'.Kept := by
  cases ev with
  | append tx =>
      cases hnext
      exact (h.append hmeets).1
  | clear =>
      cases hnext
      exact Kept.clear
  | updateSettings settings =>
      cases hnext
      exact (h.updateSettings hmeets).1

theorem Kept.not_throws {ev : JournalEvent} (h : s.Kept) (hmeets : redactionMeets ev s = true) :
    throws ev s = false := by
  cases ev with
  | append tx => exact (h.append hmeets).2
  | clear => rfl
  | updateSettings settings => exact (h.updateSettings hmeets).2

theorem Kept.construct {settings : JournalSettings} {disk : Option JournalSnapshot}
    (hmeets : startMeets c settings disk = true) :
    (construct c settings disk).1.Kept ∧ (construct c settings disk).2 = false := by
  have hblank : (blank c settings disk).Kept := kept_of_empty rfl
  unfold Journal.construct
  dsimp only
  split
  next hload =>
    refine hblank.restore ?_
    simpa [startMeets, hload.1, hload.2] using hmeets
  next => exact ⟨hblank, rfl⟩

end Entries

end Journal

/-- **Redaction holds where the reader and the writer of paths agree, in time.**  In every run of
the journal in which every body that is read meets the condition under the paths of then, no
entry has what stood at a configured path, and nothing throws. -/
theorem redacted_of_meets {settings : JournalSettings} {disk : Option JournalSnapshot}
    {evs : List JournalEvent} {s : Journal c}
    (hstart : Journal.startMeets c settings disk = true)
    (hmeets : AllSteps journalNext (fun ev s => Journal.redactionMeets ev s = true)
      (Journal.construct c settings disk).1 evs)
    (hrun : exec journalNext (Journal.construct c settings disk).1 evs = some s) :
    s.Redacted ∧ (Journal.construct c settings disk).2 = false ∧
      AllSteps journalNext (fun ev s => Journal.throws ev s = false)
        (Journal.construct c settings disk).1 evs := by
  obtain ⟨hkept, hbuilt⟩ := Journal.Kept.construct hstart
  refine ⟨?_, hbuilt, ?_⟩
  · have hfinal : s.Kept := exec_invariant
      (fun _ _ _ h hok hnext => Journal.Kept.step h hok hnext) hkept hmeets hrun
    exact hfinal.redacted
  · exact allSteps_of_invariant (fun _ _ _ h hok hnext => Journal.Kept.step h hok hnext)
      (fun _ _ h hok => Journal.Kept.not_throws h hok) hkept hmeets

/-! ### Bodies of one text -/

/-- A parser of the texts of these values. -/
def parseAmong (values : List Json) (text : String) : Option Json :=
  values.find? fun j => j.stringify == text

theorem parseAmong_unique {values : List Json}
    (h : ∀ j ∈ values, j.checkObjects (fun keys => decide keys.Nodup) = true) (text : String) (j : Json)
    (hparse : parseAmong values text = some j) : j.EachObject List.Nodup := by
  have hcheck := Json.eachObject_of_check (h j (List.mem_of_find?_eq_some hparse))
  intro path fields hsub
  exact of_decide_eq_true (hcheck path fields hsub)

/-- Digits are read as whole numbers. -/
def wholeJs : Js := { asciiJs with numberText := fun q => toString q.num }

def pinObject : Json := .obj [("007", .str "1234")]

def makerObject : Json := .obj [("constructor", .str "1234")]

def itemsObject : Json := .obj [("items", .arr [.null])]

def cardObject : Json := .obj [("card", .str "1234"), ("note", .str "a long text")]

/-- Bodies are cut at 24 characters. -/
def cardJournal : JournalConfig where
  js := wholeJs
  parse := parseAmong [pinObject, makerObject, itemsObject, cardObject, .obj [("card", .str "12")]]
  parse_unique := parseAmong_unique (by decide)
  settingsMaxEntries := 2
  settingsMaxCapturedBodyBytes := 24
  persistFile := false

def hidingPaths (paths : List String) : JournalSettings := ⟨[], paths, true, true, false⟩

def postTx (j : Json) : Transaction :=
  ⟨⟨"POST", "/cards", [], none, some j.stringify, false⟩, none, "matched"⟩

theorem redacted_of_meets_card :
    ∃ s, exec journalNext (Journal.construct cardJournal (hidingPaths ["card"]) none).1
        [.append (postTx cardObject), .append (postTx (.obj [("card", .str "12")])),
          .updateSettings (hidingPaths ["card"])] = some s ∧
      s.toOrdered.map (fun e => e.tx.request.body) =
        [some "\x7b\"card\":\"[REDACTED]\",\"no", some "\x7b\"card\":\"[REDACTED]\"\x7d"] ∧ s.Redacted := by
  obtain ⟨s, hrun, hbodies⟩ :
      ∃ s, exec journalNext (Journal.construct cardJournal (hidingPaths ["card"]) none).1
          [.append (postTx cardObject), .append (postTx (.obj [("card", .str "12")])),
            .updateSettings (hidingPaths ["card"])] = some s ∧
        s.toOrdered.map (fun e => e.tx.request.body) =
          [some "\x7b\"card\":\"[REDACTED]\",\"no", some "\x7b\"card\":\"[REDACTED]\"\x7d"] :=
    exists_exec (by decide)
  exact ⟨s, hrun, hbodies, (redacted_of_meets (by decide) (by decide) hrun).1⟩

namespace Journal

/-- The first field of a text is the first field of what the text begins. -/
theorem valueAt_of_begins {key v : String} {j : Json}
    (h : '{' :: '"' :: (Json.quoted key.toList ++ ':' :: '"' :: Json.quoted v.toList) <+: j.render) :
    valueAt j [key] = some (.str v) := by
  obtain ⟨r, hr⟩ := h
  have hkind : Json.kind (.obj []) = Json.kind j := by
    obtain ⟨ch, cs, hj, hch⟩ := Json.render_start j
    rw [hj] at hr
    rw [← hch, ← (List.cons.inj hr).1]
    rfl
  cases j with
  | obj fields =>
      cases fields with
      | nil =>
          rw [Json.render] at hr
          cases (List.cons.inj (List.cons.inj hr).2).1
      | cons field fields =>
          obtain ⟨key', w⟩ := field
          rw [Json.render] at hr
          simp only [List.cons_append, List.append_assoc, List.cons.injEq, true_and] at hr
          obtain ⟨hkey, hrest⟩ := Json.quoted_inj hr
          have hvalue : '"' :: (Json.quoted v.toList ++ r) = Json.render w ++ Json.renderFields fields :=
            (List.cons.inj hrest).2
          have hwkind : Json.kind (.str v) = Json.kind w :=
            Json.kind_eq (j := .str v) (by rw [Json.render]; exact hvalue)
          cases w with
          | str w =>
              rw [Json.render, List.cons_append] at hvalue
              obtain ⟨hw, -⟩ := Json.quoted_inj (List.cons.inj hvalue).2
              rw [String.toList_injective hkey, String.toList_injective hw]
              simp [valueAt, ownChild]
          | bool b => cases b <;> cases hwkind
          | _ => cases hwkind
  | bool b => cases b <;> cases hkind
  | _ => cases hkind

/-- A stored request body begins with a field that a path was to hide. -/
def reveals (s : Journal c) (raw key v : String) : Bool :=
  s.redactionJsonPaths.contains raw && isDotted raw && keysOf raw == [key] && v != mark &&
    s.toOrdered.any fun e =>
      (e.original.request.body.bind (bodyObject c)).any (fun j => valueAt j [key] == some (.str v)) &&
        e.tx.request.body.any fun body =>
          (c.parse body).all (fun j => valueAt j [key] == some (.str v)) &&
            ('{' :: '"' :: (Json.quoted key.toList ++ ':' :: '"' :: Json.quoted v.toList)).isPrefixOf
              body.toList

theorem not_redacted {s : Journal c} {raw key v : String} (h : s.reveals raw key v = true) :
    ¬ s.Redacted := by
  intro hredacted
  simp only [reveals, Bool.and_eq_true, List.any_eq_true, Option.any_eq_true, Option.all_eq_true,
    beq_iff_eq, bne_iff_ne, List.contains_iff_mem, List.isPrefixOf_iff_prefix] at h
  obtain ⟨⟨⟨⟨hraw, hdotted⟩, hkeys⟩, hmark⟩, e, he, ⟨j, hj, hv⟩, body, hbody, hparse, hbegin⟩ := h
  obtain ⟨text, htext, hj⟩ := Option.bind_eq_some_iff.mp hj
  have homits := (hredacted e he raw hraw hdotted).1 text j (.str v) htext hj (hkeys ▸ hv)
    (fun heq => hmark (Json.str.inj heq)) body hbody
  rw [hkeys] at homits
  rcases homits with ⟨j', hj', hne⟩ | ⟨j', -, hj', hne⟩
  · exact hne (hparse j' hj')
  · exact hne (valueAt_of_begins (hbegin.trans hj'))

end Journal

/-- A key of digits and a key named like an inherited one are kept, and so is what was
configured after the body was cut; the length of an array makes it throw. -/
theorem secrets_kept :
    (∃ s, exec journalNext (Journal.construct cardJournal (hidingPaths ["007"]) none).1
        [.append (postTx pinObject)] = some s ∧ ¬ s.Redacted) ∧
    (∃ s, exec journalNext (Journal.construct cardJournal (hidingPaths ["constructor"]) none).1
        [.append (postTx makerObject)] = some s ∧ ¬ s.Redacted) ∧
    (∃ s, exec journalNext (Journal.construct cardJournal (hidingPaths []) none).1
        [.append (postTx cardObject), .updateSettings (hidingPaths ["card"])] = some s ∧ ¬ s.Redacted) ∧
    Journal.throws (.append (postTx itemsObject))
      (Journal.construct cardJournal (hidingPaths ["items.length"]) none).1 = true := by
  obtain ⟨s₁, hs₁, hpin⟩ :
      ∃ s, exec journalNext (Journal.construct cardJournal (hidingPaths ["007"]) none).1
        [.append (postTx pinObject)] = some s ∧ s.reveals "007" "007" "1234" = true :=
    exists_exec (by decide)
  obtain ⟨s₂, hs₂, hmaker⟩ :
      ∃ s, exec journalNext (Journal.construct cardJournal (hidingPaths ["constructor"]) none).1
        [.append (postTx makerObject)] = some s ∧
          s.reveals "constructor" "constructor" "1234" = true :=
    exists_exec (by decide)
  obtain ⟨s₃, hs₃, hcard⟩ :
      ∃ s, exec journalNext (Journal.construct cardJournal (hidingPaths []) none).1
        [.append (postTx cardObject), .updateSettings (hidingPaths ["card"])] = some s ∧
          s.reveals "card" "card" "1234" = true :=
    exists_exec (by decide)
  exact ⟨⟨s₁, hs₁, Journal.not_redacted hpin⟩, ⟨s₂, hs₂, Journal.not_redacted hmaker⟩,
    ⟨s₃, hs₃, Journal.not_redacted hcard⟩, by decide⟩

end RedFireForge.ApiMock
