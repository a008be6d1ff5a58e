/-
# `RedFireForge.ApiMock.NativeRedaction` — what the native journal keeps of a transaction

Headers, cookies and paths are hidden as they were configured when an entry was stored.  They
are hidden under the settings of now as long as these name nothing else that an entry has, and
as long as paths go through objects only.
-/
import RedFireForge.ApiMock.NativeJournal
import RedFireForge.ApiMock.JournalRedaction

namespace RedFireForge.ApiMock

open RedFireForge.Lib

inductive NativeEvent
  | append (tx : Json)
  | clear
  | updateSettings (settings : NativeSettings)

/-- `none` when it panics. -/
def nativeNext (p : JsonReader) : NativeEvent → NativeJournal → Option NativeJournal
  | .append tx, s => s.append p tx
  | .clear, s => some s.clear
  | .updateSettings settings, s => some (s.updateSettings p settings)

namespace NativeJournal

variable (p : JsonReader)

/-! ## What is to be hidden -/

def fieldsOf : Option Json → List (String × Json)
  | some (.obj fields) => fields
  | _ => []

def headerFields (tx : Json) (side : String) : List (String × Json) :=
  fieldsOf ((sideOf tx side).bind (·.child (.key "headers")))

def cookieFields (tx : Json) : List (String × Json) :=
  fieldsOf ((sideOf tx "request").bind (·.child (.key "cookies")))

/-- One value or many. -/
def valuesOf : Json → List Json
  | .arr vals => vals
  | j => [j]

/-- The mark, after the scheme of a credential. -/
def IsRedacted (key : String) (v : Json) : Prop :=
  v = .str mark ∨
    (Native.toAsciiLowercase key = "authorization" ∨
      Native.toAsciiLowercase key = "proxy-authorization") ∧
      ∃ scheme, ' ' ∉ scheme ∧ v = .str (String.ofList scheme ++ " " ++ mark)

/-- The text does not contain the value at the path: read as JSON, or as the beginning of the
text of a JSON value. -/
def Omits (text : String) (keys : List String) (v : Json) : Prop :=
  (∃ j, p.parse text = some j ∧ valueAt j keys ≠ some v) ∨
    ∃ j : Json, j.EachObject List.Nodup ∧ text.toList <+: j.render ∧ valueAt j keys ≠ some v

/-- What stood at the path in a JSON object is not in the stored body, unless it was the mark. -/
def Hidden (original stored : Option String) (keys : List String) : Prop :=
  ∀ text j v, original = some text → bodyObject p text = some j → valueAt j keys = some v →
    v ≠ .str mark → ∀ body, stored = some body → Omits p body keys v

structure Redacted (s : NativeJournal) : Prop where
  headers : ∀ e ∈ s.entries, ∀ side ∈ sides, ∀ f ∈ headerFields e.tx side,
    Native.toAsciiLowercase f.1 ∈ s.redactionHeaders → ∀ v ∈ valuesOf f.2, IsRedacted f.1 v
  cookies : "cookie" ∈ s.redactionHeaders → ∀ e ∈ s.entries, ∀ f ∈ cookieFields e.tx,
    f.2 = .str mark
  bodies : ∀ e ∈ s.entries, ∀ side ∈ sides, ∀ path ∈ s.redactionJsonPaths, isDotted path = true →
    Hidden p (bodyText e.original side) (bodyText e.tx side) (pathParts path)
  bounded : 0 < s.maxEntries → s.entries.length ≤ s.maxEntries

/-! ## The condition -/

/-- What stands at a path that goes through objects only. -/
def fieldAt : Json → List String → Option Json
  | j, [] => some j
  | .obj fields, key :: keys => (fields.lookup key).bind fun child => fieldAt child keys
  | _, _ :: _ => none

/-- Something stands at the path of a JSON object. -/
def hasValue (original : Option String) (keys : List String) : Bool :=
  (original.bind (bodyObject p)).any fun j => (valueAt j keys).isSome

def isReached (j : Json) (keys : List String) : Bool := (fieldAt j keys).isSome

/-- What stands at a configured path is reached through objects, and while the body can be
parsed, unless it was hidden before. -/
def bodyMeets (paths : List String) (original stored : Option String)
    (before : List (List String)) : Bool :=
  (dottedKeys paths).all fun keys =>
    ((stored.bind (bodyObject p)).all fun j => (valueAt j keys).isNone || isReached j keys) &&
      (!hasValue p original keys || before.contains keys ||
        (stored.bind (bodyObject p)).any (isReached · keys))

def pathsOf (e : NativeEntry) (side : String) : List (List String) :=
  if side = "request" then e.requestPaths else e.responsePaths

/-- The values of a configured header are in an array. -/
def headersMeet (s : NativeJournal) (e : NativeEntry) : Bool :=
  sides.all fun side => (headerFields e.tx side).all fun f =>
    !s.redactionHeaders.contains (Native.toAsciiLowercase f.1) ||
      e.headers.contains (Native.toAsciiLowercase f.1) ||
        match f.2 with
        | .arr _ => true
        | _ => false

def readMeets (s : NativeJournal) (e : NativeEntry) : Bool :=
  s.headersMeet e && sides.all fun side =>
    bodyMeets p s.redactionJsonPaths (bodyText e.original side) (bodyText e.tx side) (pathsOf e side)

/-- The settings name nothing that the entry has, but for what was hidden when it was stored. -/
def covered (s : NativeJournal) (e : NativeEntry) : Bool :=
  sides.all (fun side => (headerFields e.tx side).all fun f =>
    !s.redactionHeaders.contains (Native.toAsciiLowercase f.1) ||
      e.headers.contains (Native.toAsciiLowercase f.1)) &&
  (!s.redactionHeaders.contains "cookie" || e.headers.contains "cookie" ||
    (cookieFields e.tx).isEmpty) &&
  sides.all fun side => (dottedKeys s.redactionJsonPaths).all fun keys =>
    !hasValue p (bodyText e.original side) keys || (pathsOf e side).contains keys

def restoreMeets (s : NativeJournal) : Bool :=
  s.disk.all fun snap => (s.restored snap).all (s.readMeets p)

/-- What is stored can be redacted, and what is held names nothing new. -/
def meets : NativeEvent → NativeJournal → Bool
  | .append tx, s =>
      !s.enabled || s.maxEntries == 0 ||
        (withId tx (s.cursor + 1)).all fun tx => s.readMeets p (.ofTx tx)
  | .clear, _ => true
  | .updateSettings settings, s =>
      let s' := s.withSettings settings
      if s.loads settings then s'.restoreMeets p else s'.entries.all (s'.covered p)

/-- What the constructor reads from the file can be redacted. -/
def startMeets (settings : NativeSettings) (serverId : String) (disk : Option (Snapshot Json)) :
    Bool :=
  let s := blank settings serverId disk
  !(s.persistFile && s.enabled && decide (0 < s.maxEntries)) || s.restoreMeets p

/-! ## Paths -/

section Paths

variable {j j' : Json} {key : String} {keys paths : List String} {path : String}

theorem isHidden_iff : isHidden j keys = true ↔
    valueAt j keys = none ∨ valueAt j keys = some (.str mark) := by
  unfold isHidden
  cases valueAt j keys with
  | none => simp
  | some v => simp

theorem isDotted_iff : isDotted path = true ↔ '[' ∉ path.toList ∧ pathParts path ≠ [] := by
  simp [isDotted]

theorem mem_dottedKeys : keys ∈ dottedKeys paths ↔
    ∃ path ∈ paths, isDotted path = true ∧ pathParts path = keys := by
  simp [dottedKeys, and_assoc]

theorem dottedKeys_cons : dottedKeys (path :: paths) =
    if isDotted path = true then pathParts path :: dottedKeys paths else dottedKeys paths := by
  unfold dottedKeys
  rw [List.filter_cons]
  split <;> rfl

/-- What is reached through objects is replaced. -/
theorem setDottedPath_of_reached {v : Json} (hne : keys ≠ []) (h : (fieldAt j keys).isSome = true) :
    ∃ j', setDottedPath v j keys = some j' := by
  induction keys generalizing j with
  | nil => exact absurd rfl hne
  | cons key keys ih =>
      cases j with
      | obj fields =>
          rw [fieldAt] at h
          cases hchild : fields.lookup key with
          | none =>
              rw [hchild] at h
              cases h
          | some child =>
              rw [hchild] at h
              cases keys with
              | nil =>
                  refine ⟨.obj (setField fields key v), ?_⟩
                  rw [setDottedPath, hchild]
                  rfl
              | cons key' keys =>
                  obtain ⟨child', hset⟩ := ih (List.cons_ne_nil _ _) h
                  refine ⟨.obj (setField fields key child'), ?_⟩
                  rw [setDottedPath, hchild, Option.bind_some, hset]
                  rfl
      | _ => cases h

/-- A path puts a mark where something stands. -/
theorem setDottedPath_marked (h : setDottedPath (.str mark) j keys = some j') :
    Marked mark j j' ∧ valueAt j' keys = some (.str mark) := by
  induction keys generalizing j j' with
  | nil => cases j <;> cases h
  | cons key keys ih =>
      cases j with
      | obj fields =>
          cases keys with
          | nil =>
              rw [setDottedPath] at h
              obtain ⟨hsome, hj'⟩ := Option.ite_none_right_eq_some.mp h
              obtain ⟨child, hchild⟩ := Option.isSome_iff_exists.mp hsome
              obtain ⟨before, after, rfl, hkey, hset⟩ := setField_of_some hchild
              obtain rfl := Option.some.inj hj'
              rw [hset]
              refine ⟨.field hkey .here, ?_⟩
              rw [valueAt, ownChild_obj, lookup_append_cons hkey]
              rfl
          | cons key' keys =>
              rw [setDottedPath] at h
              obtain ⟨child, hchild, hrest⟩ := Option.bind_eq_some_iff.mp h
              obtain ⟨child', hset', rfl⟩ := Option.map_eq_some_iff.mp hrest
              obtain ⟨hmarked, hvalue⟩ := ih hset'
              obtain ⟨before, after, rfl, hkey, hset⟩ := setField_of_some hchild
              rw [hset]
              refine ⟨.field hkey hmarked, ?_⟩
              rw [valueAt, ownChild_obj, lookup_append_cons hkey]
              exact hvalue
      | _ => cases keys <;> cases h

/-- A mark leaves what is reached through objects, or hides it. -/
theorem reached_marked (hmarked : Marked mark j j') (h : (fieldAt j keys).isSome = true) :
    (fieldAt j' keys).isSome = true ∨ valueAt j' keys = none := by
  induction keys generalizing j j' with
  | nil => exact Or.inl rfl
  | cons key keys ih =>
      cases j with
      | obj fields =>
          rw [fieldAt] at h
          cases j' with
          | obj fields' =>
              rw [fieldAt]
              rcases ownChild_marked key hmarked with hsame | ⟨v, v', hv, hv', hchild⟩ | hgone |
                ⟨hnone, -⟩
              · rw [ownChild_obj, ownChild_obj] at hsame
                rw [hsame]
                exact Or.inl h
              · rw [ownChild_obj] at hv hv'
                rw [hv] at h
                rw [hv', valueAt, ownChild_obj, hv']
                exact ih hchild h
              · right
                rw [valueAt, hgone]
                rfl
              · rw [ownChild_obj] at hnone
                rw [hnone] at h
                cases h
          | arr items => cases hmarked
          | _ => exact Or.inr rfl
      | _ => cases h

/-- What the loop over the paths does. -/
structure PathsMark (paths : List (List String)) (j : Json) (r : Json × Bool) : Prop where
  unique : r.1.EachObject List.Nodup
  stays : ∀ keys, isHidden j keys = true → isHidden r.1 keys = true
  hides : ∀ keys ∈ paths, isReached j keys = true → isHidden r.1 keys = true
  same : r.2 = false → r.1 = j ∧ ∀ keys ∈ paths, isReached j keys = false

theorem redactPaths_marks (hunique : j.EachObject List.Nodup) :
    PathsMark (dottedKeys paths) j (redactPaths paths j) := by
  induction paths generalizing j with
  | nil => exact ⟨hunique, fun _ h => h, fun _ => nofun, fun _ => ⟨rfl, fun _ => nofun⟩⟩
  | cons path paths ih =>
      rw [redactPaths, dottedKeys_cons]
      by_cases hbracket : '[' ∈ path.toList
      · rw [if_pos hbracket, if_neg fun h => (isDotted_iff.mp h).1 hbracket]
        exact ih hunique
      · rw [if_neg hbracket]
        cases hset : setDottedPath (.str mark) j (pathParts path) with
        | some j' =>
            obtain ⟨hmarked, hvalue⟩ := setDottedPath_marked hset
            obtain ⟨hu, hstays, hhides, -⟩ := ih (unique_marked hmarked hunique)
            refine ⟨hu, fun keys h => hstays keys ?_, fun keys hkeys hreached => ?_,
              Bool.noConfusion⟩
            · exact isHidden_iff.mpr (valueAt_marked hmarked (isHidden_iff.mp h))
            · have hcases : keys = pathParts path ∨ keys ∈ dottedKeys paths := by
                split at hkeys
                · exact List.mem_cons.mp hkeys
                · exact Or.inr hkeys
              rcases hcases with rfl | hkeys
              · exact hstays _ (isHidden_iff.mpr (Or.inr hvalue))
              · rcases reached_marked hmarked hreached with hreached' | hnone
                · exact hhides keys hkeys hreached'
                · exact hstays keys (isHidden_iff.mpr (Or.inl hnone))
        | none =>
            obtain ⟨hu, hstays, hhides, hsame⟩ := ih hunique
            by_cases hdotted : isDotted path = true
            · rw [if_pos hdotted]
              have hnot : isReached j (pathParts path) = false := by
                by_contra hreached
                obtain ⟨j', hj'⟩ := setDottedPath_of_reached (v := .str mark)
                  (isDotted_iff.mp hdotted).2 (eq_true_of_ne_false hreached)
                rw [hset] at hj'
                cases hj'
              refine ⟨hu, hstays, ?_, fun hno => ⟨(hsame hno).1, ?_⟩⟩
              · rw [List.forall_mem_cons]
                refine ⟨fun hreached => ?_, hhides⟩
                rw [hnot] at hreached
                cases hreached
              · rw [List.forall_mem_cons]
                exact ⟨hnot, (hsame hno).2⟩
            · rw [if_neg hdotted]
              exact ⟨hu, hstays, hhides, hsame⟩

end Paths

/-! ## One body -/

section Bodies

variable {p} {paths keys : List String} {before : List (List String)}
  {original stored : Option String} {body : String} {j v : Json} {max : ℕ}

theorem bodyObject_parse (h : bodyObject p body = some j) : p.parse body = some j := by
  unfold bodyObject at h
  split at h
  next fields hparse => exact hparse.trans h
  next => cases h

theorem hasValue_iff : hasValue p original keys = true ↔ ∃ text j v, original = some text ∧
    bodyObject p text = some j ∧ valueAt j keys = some v := by
  rw [hasValue, Option.any_eq_true]
  constructor
  · rintro ⟨j, hj, hsome⟩
    obtain ⟨text, htext, hj⟩ := Option.bind_eq_some_iff.mp hj
    obtain ⟨v, hv⟩ := Option.isSome_iff_exists.mp hsome
    exact ⟨text, j, v, htext, hj, hv⟩
  · rintro ⟨text, j, v, rfl, hj, hv⟩
    exact ⟨j, hj, by rw [hv]; rfl⟩

theorem takeBytes_begins : ∀ (n : ℕ) (cs : List Char), takeBytes n cs <+: cs
  | _, [] => List.prefix_refl _
  | n, ch :: cs => by
      rw [takeBytes]
      split
      · exact List.cons_prefix_cons.mpr ⟨rfl, takeBytes_begins _ cs⟩
      · exact List.nil_prefix

/-- The text of a body that is cut. -/
def cutText (max : ℕ) (body : String) : String :=
  if bodyLength body ≤ max then body else String.ofList (takeBytes max body.toList)

theorem cutText_begins (max : ℕ) (body : String) : (cutText max body).toList <+: body.toList := by
  unfold cutText
  split
  · exact List.prefix_refl _
  · rw [String.toList_ofList]
    exact takeBytes_begins _ _

/-- A stored body begins the text of a value where the path has been hidden, if anything stood
there. -/
def BodyKept (p : JsonReader) (original stored : Option String) (before : List (List String)) :
    Prop :=
  ∀ keys ∈ before, hasValue p original keys = true → ∃ body j, stored = some body ∧
    j.EachObject List.Nodup ∧ body.toList <+: j.render ∧ isHidden j keys = true

theorem BodyKept.hidden (h : BodyKept p original stored before) (hkeys : keys ∈ before) :
    Hidden p original stored keys := by
  intro text j v htext hj hv hmark body hbody
  obtain ⟨body', j', hbody', hunique, hbegin, hhidden⟩ :=
    h keys hkeys (hasValue_iff.mpr ⟨text, j, v, htext, hj, hv⟩)
  rw [hbody, Option.some.injEq] at hbody'
  subst hbody'
  refine Or.inr ⟨j', hunique, hbegin, ?_⟩
  rcases isHidden_iff.mp hhidden with hnone | hsome
  · rw [hnone]
    nofun
  · rw [hsome]
    exact fun heq => hmark (Option.some.inj heq).symm

theorem bodyMeets_iff : bodyMeets p paths original stored before = true ↔
    ∀ keys ∈ dottedKeys paths,
      (∀ j, stored.bind (bodyObject p) = some j → valueAt j keys = none ∨ isReached j keys = true) ∧
      (hasValue p original keys = true → keys ∈ before ∨
        ∃ j, stored.bind (bodyObject p) = some j ∧ isReached j keys = true) := by
  rw [bodyMeets, List.all_eq_true]
  refine forall₂_congr fun keys _ => ?_
  cases hasValue p original keys with
  | false => simp [Option.all_eq_true]
  | true => simp [Option.all_eq_true, Option.any_eq_true]

/-- Each configured path with a value in the original is among those that were applied. -/
def InTime (p : JsonReader) (paths : List String) (original : Option String)
    (before : List (List String)) : Prop :=
  ∀ keys ∈ dottedKeys paths, hasValue p original keys = true → keys ∈ before

/-- A body is redacted and cut. -/
theorem redactText_keeps (hmeets : bodyMeets p paths original stored before = true)
    (hold : BodyKept p original stored before) :
    BodyKept p original (stored.map fun body => cutText max (redactText p paths body))
      (pathsNow p paths stored before) ∧ InTime p paths original (pathsNow p paths stored before) := by
  rw [bodyMeets_iff] at hmeets
  unfold pathsNow
  cases hobject : stored.bind (bodyObject p) with
  | none =>
      dsimp only
      refine ⟨fun keys hkeys hvalue => ?_, fun keys hkeys hvalue => ?_⟩
      · obtain ⟨body, j, rfl, hunique, hbegin, hhidden⟩ := hold keys hkeys hvalue
        have hnone : bodyObject p body = none := hobject
        have hsame : redactText p paths body = body := by
          unfold redactText
          rw [hnone]
          split <;> rfl
        refine ⟨cutText max (redactText p paths body), j, rfl, hunique, ?_, hhidden⟩
        rw [hsame]
        exact (cutText_begins max body).trans hbegin
      · rcases (hmeets keys hkeys).2 hvalue with hmem | ⟨j, hj, -⟩
        · exact hmem
        · rw [hobject] at hj
          cases hj
  | some j =>
      dsimp only
      refine ⟨?_, fun keys hkeys _ => List.mem_append_left _ hkeys⟩
      obtain ⟨body, rfl, hbody⟩ := Option.bind_eq_some_iff.mp hobject
      obtain ⟨hunique, hstays, hhides, hsame⟩ :=
        @redactPaths_marks j paths (p.parse_unique body j (bodyObject_parse hbody))
      -- where no path is applied, nothing is changed
      have htext : redactText p paths body =
          if (redactPaths paths j).2 = true then (redactPaths paths j).1.stringify else body := by
        unfold redactText
        split
        next hnil => rw [hnil]; rfl
        next => rw [hbody]
      intro keys hkeys hvalue
      rw [Option.map_some, htext]
      cases hchanged : (redactPaths paths j).2 with
      | true =>
          refine ⟨_, (redactPaths paths j).1, rfl, hunique, ?_, ?_⟩
          · rw [if_pos rfl]
            have hcut := cutText_begins max (redactPaths paths j).1.stringify
            rwa [Json.stringify, String.toList_ofList] at hcut
          · rcases List.mem_append.mp hkeys with hnow | hbefore
            · rcases (hmeets keys hnow).1 j hobject with hnone | hreached
              · exact hstays keys (isHidden_iff.mpr (Or.inl hnone))
              · exact hhides keys hnow hreached
            · exact hstays keys (List.mem_filter.mp hbefore).2
      | false =>
          obtain ⟨-, hnot⟩ := hsame hchanged
          have hbefore : keys ∈ before := by
            rcases List.mem_append.mp hkeys with hnow | hbefore
            · rcases (hmeets keys hnow).2 hvalue with hmem | ⟨j', hj', hreached⟩
              · exact hmem
              · rw [hobject, Option.some.injEq] at hj'
                rw [← hj', hnot keys hnow] at hreached
                cases hreached
            · exact (List.mem_filter.mp hbefore).1
          obtain ⟨body', j', hbody', hunique', hbegin, hhidden⟩ := hold keys hbefore hvalue
          rw [Option.some.injEq] at hbody'
          subst hbody'
          exact ⟨_, j', rfl, hunique', (cutText_begins max body).trans hbegin, hhidden⟩

end Bodies

/-! ## One entry -/

section Entries

variable {p} {s : NativeJournal} {e : NativeEntry} {tx j j' : Json} {o : Option Json}
  {side key : String} {f g : Json → Json}

theorem mem_sides : side ∈ sides ↔ side = "request" ∨ side = "response" := by
  simp [sides]

theorem sideOf_request :
    sideOf ((tx.modify "request" f).modify "response" g) "request" = (sideOf tx "request").map f := by
  have hne : "request" ≠ "response" := by decide
  rw [sideOf, Json.child_modify_ne hne, Json.child_modify_self]
  rfl

theorem sideOf_response :
    sideOf ((tx.modify "request" f).modify "response" g) "response" =
      (sideOf tx "response").map g := by
  have hne : "response" ≠ "request" := by decide
  rw [sideOf, Json.child_modify_self, Json.child_modify_ne hne]
  rfl

/-- To change a side is to change what stands under a key of it. -/
theorem bind_child_map (hf : ∀ j, (f j).child (.key key) = (j.child (.key key)).map g) :
    (o.map f).bind (·.child (.key key)) = (o.bind (·.child (.key key))).map g := by
  cases o with
  | none => rfl
  | some j => exact hf j

theorem bind_text_map {h : String → String}
    (hf : ∀ j, textAt (f j) "body" = (textAt j "body").map h) :
    (o.map f).bind (textAt · "body") = (o.bind (textAt · "body")).map h := by
  cases o with
  | none => rfl
  | some j => exact hf j

theorem textAt_map {h : String → String} (hchild : j'.child (.key key) = (j.child (.key key)).map f)
    (htext : ∀ text, f (.str text) = .str (h text))
    (hother : ∀ j, (∀ text, j ≠ .str text) → ∀ text, f j ≠ .str text) :
    textAt j' key = (textAt j key).map h := by
  unfold textAt
  rw [hchild]
  cases j.child (.key key) with
  | none => rfl
  | some w =>
      rw [Option.map_some]
      cases w with
      | str text => rw [htext]; rfl
      | _ =>
          dsimp only
          split
          next text heq =>
            exact absurd (Option.some.inj heq) (hother _ (fun _ => Json.noConfusion) text)
          next => rfl

/-! ### What redaction does to a side -/

theorem child_redactRequest_headers : (s.redactRequest p j).child (.key "headers") =
    (j.child (.key "headers")).map s.redactHeaderMap := by
  have hbody : "headers" ≠ "body" := by decide
  have hcookies : "headers" ≠ "cookies" := by decide
  unfold redactRequest
  rw [Json.child_modify_ne hbody]
  split
  · rw [Json.child_modify_ne hcookies, Json.child_modify_self]
  · rw [Json.child_modify_self]

theorem child_redactRequest_cookies : (s.redactRequest p j).child (.key "cookies") =
    (j.child (.key "cookies")).map
      (if "cookie" ∈ s.redactionHeaders then redactCookies else id) := by
  have hbody : "cookies" ≠ "body" := by decide
  have hheaders : "cookies" ≠ "headers" := by decide
  unfold redactRequest
  rw [Json.child_modify_ne hbody]
  split
  · rw [Json.child_modify_self, Json.child_modify_ne hheaders]
  · rw [Json.child_modify_ne hheaders, Option.map_id]
    rfl

theorem child_redactRequest_body : (s.redactRequest p j).child (.key "body") =
    (j.child (.key "body")).map (s.redactJsonBody p) := by
  have hheaders : "body" ≠ "headers" := by decide
  have hcookies : "body" ≠ "cookies" := by decide
  unfold redactRequest
  rw [Json.child_modify_self]
  split
  · rw [Json.child_modify_ne hcookies, Json.child_modify_ne hheaders]
  · rw [Json.child_modify_ne hheaders]

theorem child_redactResponse_headers : (s.redactResponse p j).child (.key "headers") =
    (j.child (.key "headers")).map s.redactHeaderMap := by
  have hbody : "headers" ≠ "body" := by decide
  rw [redactResponse, Json.child_modify_ne hbody, Json.child_modify_self]

theorem child_redactResponse_body : (s.redactResponse p j).child (.key "body") =
    (j.child (.key "body")).map (s.redactJsonBody p) := by
  have hheaders : "body" ≠ "headers" := by decide
  rw [redactResponse, Json.child_modify_self, Json.child_modify_ne hheaders]

theorem textAt_redactJsonBody (hchild : j'.child (.key "body") =
      (j.child (.key "body")).map (s.redactJsonBody p)) :
    textAt j' "body" = (textAt j "body").map (redactText p s.redactionJsonPaths) := by
  refine textAt_map hchild (fun text => rfl) ?_
  intro w hw text
  cases w with
  | str text' => exact absurd rfl (hw text')
  | _ => exact hw text

/-! ### What the cut does to a side -/

theorem lookup_setField_ne {fields : List (String × Json)} {name : String} {v : Json}
    (hne : name ≠ key) : (setField fields key v).lookup name = fields.lookup name := by
  induction fields with
  | nil => rw [setField, List.lookup_cons, beq_eq_false_iff_ne.mpr hne]
  | cons field fields ih =>
      obtain ⟨name', w⟩ := field
      rw [setField]
      split
      next heq =>
        rw [List.lookup_cons, List.lookup_cons, heq, beq_eq_false_iff_ne.mpr hne]
      next => rw [List.lookup_cons, List.lookup_cons, ih]

theorem child_indexAssign_ne {name : String} {v : Json} (h : indexAssign key v j = some j')
    (hne : name ≠ key) : j'.child (.key name) = j.child (.key name) := by
  cases j with
  | obj fields =>
      cases h
      exact lookup_setField_ne hne
  | null =>
      cases h
      have hlookup : (setField [] key v).lookup name = none := lookup_setField_ne hne
      exact hlookup
  | _ => cases h

theorem child_truncateSide {max : ℕ} (hne : key ≠ "bodyTruncated") :
    (truncateSide max j).child (.key key) =
      (j.modify "body" (truncateBody max)).child (.key key) := by
  unfold truncateSide
  dsimp only
  split
  · cases hassign : indexAssign "bodyTruncated" (.bool true) (j.modify "body" (truncateBody max)) with
    | none => rfl
    | some j' => exact child_indexAssign_ne hassign hne
  · rfl

theorem child_truncateSide_ne {max : ℕ} (hbody : key ≠ "body") (hne : key ≠ "bodyTruncated") :
    (truncateSide max j).child (.key key) = (j.child (.key key)).map id := by
  rw [child_truncateSide hne, Json.child_modify_ne hbody, Option.map_id]
  rfl

theorem textAt_truncateSide {max : ℕ} :
    textAt (truncateSide max j) "body" = (textAt j "body").map (cutText max) := by
  refine textAt_map (f := truncateBody max) ?_ ?_ ?_
  · rw [child_truncateSide (by decide), Json.child_modify_self]
  · intro text
    rw [truncateBody, cutText]
    split <;> rfl
  · intro w hw text
    cases w with
    | str text' => exact absurd rfl (hw text')
    | _ => exact hw text

/-! ### A stored entry -/

theorem fieldsOf_redactHeaderMap :
    fieldsOf (o.map s.redactHeaderMap) = (fieldsOf o).map s.redactHeader := by
  cases o with
  | none => rfl
  | some j => cases j <;> rfl

theorem fieldsOf_redactCookies : fieldsOf (o.map redactCookies) =
    (fieldsOf o).map fun f => (f.1, .str mark) := by
  cases o with
  | none => rfl
  | some j => cases j <;> rfl

theorem headerFields_read (hside : side ∈ sides) :
    headerFields (s.truncate (s.redact p tx)) side = (headerFields tx side).map s.redactHeader := by
  have hcut : ∀ j, (truncateSide s.maxBodyBytes j).child (.key "headers") =
      (j.child (.key "headers")).map id :=
    fun j => child_truncateSide_ne (by decide) (by decide)
  unfold headerFields
  rcases mem_sides.mp hside with rfl | rfl
  · rw [truncate, sideOf_request, redact, sideOf_request, bind_child_map hcut, Option.map_id, id,
      bind_child_map fun _ => child_redactRequest_headers, fieldsOf_redactHeaderMap]
  · rw [truncate, sideOf_response, redact, sideOf_response, bind_child_map hcut, Option.map_id, id,
      bind_child_map fun _ => child_redactResponse_headers, fieldsOf_redactHeaderMap]

theorem cookieFields_read : cookieFields (s.truncate (s.redact p tx)) =
    if "cookie" ∈ s.redactionHeaders then (cookieFields tx).map fun f => (f.1, .str mark)
    else cookieFields tx := by
  have hcut : ∀ j, (truncateSide s.maxBodyBytes j).child (.key "cookies") =
      (j.child (.key "cookies")).map id :=
    fun j => child_truncateSide_ne (by decide) (by decide)
  unfold cookieFields
  rw [truncate, sideOf_request, redact, sideOf_request, bind_child_map hcut, Option.map_id, id,
    bind_child_map fun _ => child_redactRequest_cookies]
  split
  · exact fieldsOf_redactCookies
  · rw [Option.map_id]
    rfl

theorem bodyText_read (hside : side ∈ sides) : bodyText (s.truncate (s.redact p tx)) side =
    (bodyText tx side).map fun body =>
      cutText s.maxBodyBytes (redactText p s.redactionJsonPaths body) := by
  unfold bodyText
  rcases mem_sides.mp hside with rfl | rfl
  · rw [truncate, sideOf_request, redact, sideOf_request, bind_text_map fun _ => textAt_truncateSide,
      bind_text_map fun _ => textAt_redactJsonBody child_redactRequest_body, Option.map_map]
    rfl
  · rw [truncate, sideOf_response, redact, sideOf_response,
      bind_text_map fun _ => textAt_truncateSide,
      bind_text_map fun _ => textAt_redactJsonBody child_redactResponse_body, Option.map_map]
    rfl

theorem isRedacted_value (key value : String) : IsRedacted key (.str (s.redactHeaderValue key value)) := by
  unfold redactHeaderValue
  dsimp only
  split
  next hscheme =>
    refine Or.inr ⟨hscheme.2.1, value.toList.takeWhile (· ≠ ' '), fun hmem => ?_, rfl⟩
    simpa using List.mem_takeWhile_imp hmem
  next => exact Or.inl rfl

theorem fst_redactHeader (f : String × Json) : (s.redactHeader f).1 = f.1 := by
  obtain ⟨name, w⟩ := f
  cases w with
  | arr vals =>
      rw [redactHeader]
      split <;> rfl
  | _ => rfl

/-- What holds of an entry, whatever the settings of now. -/
structure EntryKept (p : JsonReader) (e : NativeEntry) : Prop where
  headers : ∀ side ∈ sides, ∀ f ∈ headerFields e.tx side,
    Native.toAsciiLowercase f.1 ∈ e.headers → ∀ v ∈ valuesOf f.2, IsRedacted f.1 v
  cookies : "cookie" ∈ e.headers → ∀ f ∈ cookieFields e.tx, f.2 = .str mark
  bodies : ∀ side ∈ sides, BodyKept p (bodyText e.original side) (bodyText e.tx side) (pathsOf e side)

theorem entryKept_ofTx (tx : Json) : EntryKept p (.ofTx tx) := by
  refine ⟨fun _ _ _ _ => nofun, nofun, fun side _ keys hkeys => ?_⟩
  rw [pathsOf] at hkeys
  split at hkeys <;> cases hkeys

theorem headersMeet_iff : s.headersMeet e = true ↔ ∀ side ∈ sides, ∀ f ∈ headerFields e.tx side,
    Native.toAsciiLowercase f.1 ∈ s.redactionHeaders →
      Native.toAsciiLowercase f.1 ∈ e.headers ∨ ∃ vals, f.2 = .arr vals := by
  simp only [headersMeet, List.all_eq_true]
  refine forall₂_congr fun side _ => forall₂_congr fun f _ => ?_
  obtain ⟨name, w⟩ := f
  by_cases hnow : Native.toAsciiLowercase name ∈ s.redactionHeaders
  · cases w <;> simp [hnow]
  · simp [hnow]

theorem covered_iff : s.covered p e = true ↔
    (∀ side ∈ sides, ∀ f ∈ headerFields e.tx side,
      Native.toAsciiLowercase f.1 ∈ s.redactionHeaders → Native.toAsciiLowercase f.1 ∈ e.headers) ∧
    ("cookie" ∈ s.redactionHeaders → "cookie" ∈ e.headers ∨ cookieFields e.tx = []) ∧
    ∀ side ∈ sides, InTime p s.redactionJsonPaths (bodyText e.original side) (pathsOf e side) := by
  rw [covered, Bool.and_eq_true, Bool.and_eq_true, and_assoc]
  refine and_congr ?_ (and_congr ?_ ?_)
  · simp only [List.all_eq_true]
    refine forall₂_congr fun side _ => forall₂_congr fun f _ => ?_
    simp [imp_iff_not_or]
  · simp [imp_iff_not_or, or_assoc]
  · simp only [List.all_eq_true, InTime]
    refine forall₂_congr fun side _ => forall₂_congr fun keys _ => ?_
    simp [imp_iff_not_or]

theorem readMeets_iff : s.readMeets p e = true ↔ s.headersMeet e = true ∧ ∀ side ∈ sides,
    bodyMeets p s.redactionJsonPaths (bodyText e.original side) (bodyText e.tx side)
      (pathsOf e side) = true := by
  rw [readMeets, Bool.and_eq_true, List.all_eq_true]

theorem pathsOf_readEntry (hside : side ∈ sides) : pathsOf (s.readEntry p e) side =
    pathsNow p s.redactionJsonPaths (bodyText e.tx side) (pathsOf e side) := by
  rcases mem_sides.mp hside with rfl | rfl <;> rfl

/-- **What is stored is redacted under the settings.** -/
theorem readEntry_keeps (hkept : EntryKept p e) (hmeets : s.readMeets p e = true) :
    EntryKept p (s.readEntry p e) ∧ s.covered p (s.readEntry p e) = true := by
  obtain ⟨hheaders, hbodies⟩ := readMeets_iff.mp hmeets
  rw [headersMeet_iff] at hheaders
  have hread : ∀ side ∈ sides, ∀ f ∈ headerFields (s.readEntry p e).tx side,
      ∃ f₀ ∈ headerFields e.tx side, s.redactHeader f₀ = f := by
    intro side hside f hf
    rw [readEntry, headerFields_read hside] at hf
    exact List.mem_map.mp hf
  have htext : ∀ side ∈ sides, BodyKept p (bodyText e.original side)
      (bodyText (s.readEntry p e).tx side) (pathsOf (s.readEntry p e) side) ∧
      InTime p s.redactionJsonPaths (bodyText e.original side)
        (pathsOf (s.readEntry p e) side) := by
    intro side hside
    rw [pathsOf_readEntry hside, readEntry, bodyText_read hside]
    exact redactText_keeps (hbodies side hside) (hkept.bodies side hside)
  refine ⟨⟨fun side hside f hf hname v hv => ?_, fun hname f hf => ?_,
    fun side hside => (htext side hside).1⟩, covered_iff.mpr ⟨fun side hside f hf hname => ?_,
    fun hname => Or.inl (List.mem_append_left _ hname), fun side hside => (htext side hside).2⟩⟩
  · obtain ⟨⟨name, w⟩, hf₀, rfl⟩ := hread side hside f hf
    rw [fst_redactHeader] at hname ⊢
    -- a header of now is redacted, and one of before stays so
    have hold : Native.toAsciiLowercase name ∈ e.headers → ∀ v ∈ valuesOf w, IsRedacted name v :=
      hkept.headers side hside (name, w) hf₀
    by_cases hnow : Native.toAsciiLowercase name ∈ s.redactionHeaders
    · cases w with
      | arr vals =>
          rw [redactHeader, if_pos hnow] at hv
          obtain ⟨v₀, -, rfl⟩ := List.mem_map.mp hv
          exact isRedacted_value name _
      | _ =>
          rcases hheaders side hside _ hf₀ hnow with hbefore | ⟨vals, hvals⟩
          · exact hold hbefore v hv
          · cases hvals
    · have hbefore := (List.mem_append.mp hname).resolve_left hnow
      cases w with
      | arr vals =>
          rw [redactHeader, if_neg hnow] at hv
          exact hold hbefore v hv
      | _ => exact hold hbefore v hv
  · rw [readEntry, cookieFields_read] at hf
    split at hf
    next =>
      obtain ⟨f₀, -, rfl⟩ := List.mem_map.mp hf
      rfl
    next hnot => exact hkept.cookies ((List.mem_append.mp hname).resolve_left hnot) f hf
  · exact List.mem_append_left _ hname

/-! ### The journal -/

structure Kept (p : JsonReader) (s : NativeJournal) : Prop where
  entries : ∀ e ∈ s.entries, EntryKept p e ∧ s.covered p e = true
  bounded : 0 < s.maxEntries → s.entries.length ≤ s.maxEntries
  disk : ∀ snap, s.disk = some snap → ∀ e ∈ snap.transactions, EntryKept p e

theorem Kept.redacted (h : Kept p s) : s.Redacted p := by
  refine ⟨fun e he side hside f hf hname => ?_, fun hname e he f hf => ?_,
    fun e he side hside path hpath hdotted text j v htext hj hv => ?_, h.bounded⟩
  · obtain ⟨hkept, hcovered⟩ := h.entries e he
    exact hkept.headers side hside f hf ((covered_iff.mp hcovered).1 side hside f hf hname)
  · obtain ⟨hkept, hcovered⟩ := h.entries e he
    rcases (covered_iff.mp hcovered).2.1 hname with hbefore | hnil
    · exact hkept.cookies hbefore f hf
    · rw [hnil] at hf
      cases hf
  · obtain ⟨hkept, hcovered⟩ := h.entries e he
    have hin := (covered_iff.mp hcovered).2.2 side hside (pathParts path)
      (mem_dottedKeys.mpr ⟨path, hpath, hdotted, rfl⟩)
      (hasValue_iff.mpr ⟨text, j, v, htext, hj, hv⟩)
    exact (hkept.bodies side hside).hidden hin text j v htext hj hv

theorem Kept.flush (h : Kept p s) : Kept p s.flush := by
  unfold NativeJournal.flush
  split
  · refine ⟨h.entries, h.bounded, fun snap hsnap e he => ?_⟩
    obtain rfl := Option.some.inj hsnap
    exact (h.entries e he).1
  · exact h

theorem Kept.clear (h : Kept p s) : Kept p s.clear :=
  Kept.flush ⟨nofun, fun _ => Nat.zero_le _, h.disk⟩

theorem Kept.append {s' : NativeJournal} (h : Kept p s) (hmeets : meets p (.append tx) s = true)
    (hnext : s.append p tx = some s') : Kept p s' := by
  unfold NativeJournal.append at hnext
  dsimp only at hnext
  split at hnext
  next =>
    cases hnext
    exact ⟨h.entries, h.bounded, h.disk⟩
  next hon =>
    rw [not_or] at hon
    obtain ⟨tx', htx', rfl⟩ := Option.map_eq_some_iff.mp hnext
    have hread : s.readMeets p (.ofTx tx') = true := by
      simpa [meets, hon.1, hon.2, htx'] using hmeets
    have hpos : 0 < s.maxEntries := Nat.pos_of_ne_zero hon.2
    refine Kept.flush ⟨fun e he => ?_, fun _ => ?_, h.disk⟩
    · rcases List.mem_append.mp he with hold | hnew
      · split at hold
        · exact h.entries e (List.mem_of_mem_tail hold)
        · exact h.entries e hold
      · rw [List.mem_singleton.mp hnew]
        exact readEntry_keeps (entryKept_ofTx tx') hread
    · have hlen := h.bounded hpos
      dsimp only
      rw [List.length_append, List.length_singleton]
      split
      · rw [List.length_tail]
        omega
      · omega

theorem restored_mem {snap : Snapshot NativeEntry} (h : e ∈ s.restored snap) :
    e ∈ snap.transactions := by
  unfold restored lastOnes at h
  split at h
  · exact List.mem_of_mem_filter (List.mem_of_mem_drop h)
  · exact List.mem_of_mem_filter h

theorem length_restored {snap : Snapshot NativeEntry} (hpos : 0 < s.maxEntries) :
    (s.restored snap).length ≤ s.maxEntries := by
  unfold restored lastOnes
  split
  · rw [List.length_drop]
    omega
  next hnot => omega

theorem Kept.restore (h : Kept p s) (hmeets : s.restoreMeets p = true) : Kept p (s.restore p) := by
  unfold NativeJournal.restore
  split
  · exact h
  · split
    next => exact h
    next snap hdisk =>
      have hall : ∀ e ∈ s.restored snap, s.readMeets p e = true := by
        simpa [restoreMeets, hdisk] using hmeets
      refine Kept.flush ⟨fun e he => ?_, fun hpos => ?_, h.disk⟩
      · obtain ⟨e₀, he₀, rfl⟩ := List.mem_map.mp he
        exact readEntry_keeps (h.disk snap hdisk e₀ (restored_mem he₀)) (hall e₀ he₀)
      · rw [List.length_map]
        exact length_restored hpos

theorem dropOldest_suffix (max : ℕ) (l : List NativeEntry) :
    (dropOldest max l).1 <:+ l ∧ (0 < max → (dropOldest max l).1.length ≤ max) := by
  induction l with
  | nil => exact ⟨List.suffix_refl _, fun _ => Nat.zero_le _⟩
  | cons e l ih =>
      rw [dropOldest]
      split
      next => exact ⟨ih.1.trans (List.suffix_cons e l), ih.2⟩
      next hfits =>
        exact ⟨List.suffix_refl _, fun hpos => not_lt.mp fun hlt => hfits ⟨hlt, hpos⟩⟩

theorem Kept.updateSettings {settings : NativeSettings} (h : Kept p s)
    (hmeets : meets p (.updateSettings settings) s = true) :
    Kept p (s.updateSettings p settings) := by
  obtain ⟨hsuffix, hbound⟩ := dropOldest_suffix (min settings.maxEntries hardMaxEntries) s.entries
  have hold : ∀ e ∈ (s.withSettings settings).entries, EntryKept p e :=
    fun e he => (h.entries e (hsuffix.subset he)).1
  unfold NativeJournal.updateSettings
  split
  next hload =>
    rw [meets, if_pos hload] at hmeets
    refine Kept.restore ⟨fun e he => ?_, hbound, h.disk⟩ hmeets
    -- a file is read only where nothing is held
    have hempty : (s.withSettings settings).entries = [] := by
      simp only [loads, Bool.and_eq_true, List.isEmpty_iff] at hload
      exact hload.1.1.2
    rw [hempty] at he
    cases he
  next hload =>
    rw [meets, if_neg hload, List.all_eq_true] at hmeets
    exact Kept.flush ⟨fun e he => ⟨hold e he, hmeets e he⟩, hbound, h.disk⟩

theorem Kept.step {s' : NativeJournal} {ev : NativeEvent} (h : Kept p s)
    (hmeets : meets p ev s = true) (hnext : nativeNext p ev s = some s') : Kept p s' := by
  cases ev with
  | append tx => exact h.append hmeets hnext
  | clear =>
      cases hnext
      exact h.clear
  | updateSettings settings =>
      cases hnext
      exact h.updateSettings hmeets

theorem Kept.forServer {settings : NativeSettings} {serverId : String}
    {disk : Option (Snapshot Json)} (hmeets : startMeets p settings serverId disk = true) :
    Kept p (forServer p settings serverId disk) := by
  have hblank : Kept p (blank settings serverId disk) := by
    refine ⟨nofun, fun _ => Nat.zero_le _, fun snap hsnap e he => ?_⟩
    obtain ⟨file, -, rfl⟩ := Option.map_eq_some_iff.mp hsnap
    obtain ⟨tx, -, rfl⟩ := List.mem_map.mp he
    exact entryKept_ofTx tx
  unfold NativeJournal.forServer
  dsimp only
  split
  next hload =>
    refine hblank.restore ?_
    simpa [startMeets, hload.1, hload.2.1, hload.2.2] using hmeets
  next => exact hblank

end Entries

end NativeJournal

/-- **What is configured in time is redacted.**  In every run of the journal in which what is
stored can be redacted, and new settings name nothing else that a held entry has, all entries
are redacted under the settings of now, and there are no more than may be. -/
theorem native_redacted_of_meets {p : JsonReader} {settings : NativeSettings} {serverId : String}
    {disk : Option (Snapshot Json)} {evs : List NativeEvent} {s : NativeJournal}
    (hstart : NativeJournal.startMeets p settings serverId disk = true)
    (hmeets : AllSteps (nativeNext p) (fun ev s => NativeJournal.meets p ev s = true)
      (NativeJournal.forServer p settings serverId disk) evs)
    (hrun : exec (nativeNext p) (NativeJournal.forServer p settings serverId disk) evs = some s) :
    s.Redacted p := by
  have hkept : NativeJournal.Kept p s := exec_invariant
    (fun _ _ _ h hok hnext => NativeJournal.Kept.step h hok hnext)
    (NativeJournal.Kept.forServer hstart) hmeets hrun
  exact hkept.redacted

/-! ### A few transactions -/

def itemsOf (v : String) : Json := .obj [("items", .arr [.obj [("secret", .str v)]])]

/-- It reads these texts only. -/
def smallReader : JsonReader where
  parse := parseAmong [cardObject, itemsOf "1234"]
  parse_unique := parseAmong_unique (by decide)

def keyTx (body : Json) : Json :=
  .obj [("request", .obj [("method", .str "POST"), ("path", .str "/cards"),
    ("headers", .obj [("X-Api-Key", .arr [.str "k"]), ("Authorization", .arr [.str "Basic abc"])]),
    ("body", .str body.stringify)])]

/-- At most two entries, in memory. -/
def hidingSettings (headerNames jsonPaths : List String) : NativeSettings :=
  ⟨true, 2, 1000, false, headerNames, jsonPaths, true⟩

theorem native_redacted_of_meets_card :
    ∃ s, exec (nativeNext smallReader)
        (NativeJournal.forServer smallReader (hidingSettings ["authorization", "x-api-key"] ["card"])
          "srv" none)
        [.append (keyTx cardObject), .append (keyTx cardObject), .append (keyTx cardObject),
          .updateSettings (hidingSettings ["Authorization"] ["$.card"])] = some s ∧
      s.entries.map (fun e => NativeJournal.headerFields e.tx "request") =
        List.replicate 2 [("X-Api-Key", .arr [.str "[REDACTED]"]),
          ("Authorization", .arr [.str "Basic [REDACTED]"])] ∧ s.Redacted smallReader := by
  obtain ⟨s, hrun, hheaders⟩ :
      ∃ s, exec (nativeNext smallReader)
          (NativeJournal.forServer smallReader
            (hidingSettings ["authorization", "x-api-key"] ["card"]) "srv" none)
          [.append (keyTx cardObject), .append (keyTx cardObject), .append (keyTx cardObject),
            .updateSettings (hidingSettings ["Authorization"] ["$.card"])] = some s ∧
        s.entries.map (fun e => NativeJournal.headerFields e.tx "request") =
          List.replicate 2 [("X-Api-Key", .arr [.str "[REDACTED]"]),
            ("Authorization", .arr [.str "Basic [REDACTED]"])] :=
    exists_exec (by decide)
  exact ⟨s, hrun, hheaders, native_redacted_of_meets (by decide) (by decide) hrun⟩

namespace NativeJournal

/-- A stored request body is as it came in. -/
theorem not_redacted_of_kept {p : JsonReader} {s : NativeJournal} {path v : String} {j : Json}
    (hpath : path ∈ s.redactionJsonPaths ∧ isDotted path = true)
    (hobject : bodyObject p j.stringify = some j ∧ valueAt j (pathParts path) = some (.str v))
    (hmark : v ≠ mark)
    (hkept : ∃ e ∈ s.entries, bodyText e.original "request" = some j.stringify ∧
      bodyText e.tx "request" = some j.stringify) : ¬ s.Redacted p := by
  intro hredacted
  obtain ⟨e, he, horiginal, hstored⟩ := hkept
  have homits := hredacted.bodies e he "request" (mem_sides.mpr (Or.inl rfl)) path hpath.1 hpath.2
    _ j (.str v) horiginal hobject.1 hobject.2 (fun heq => hmark (Json.str.inj heq)) _ hstored
  rcases homits with ⟨j', hj', hne⟩ | ⟨j', -, hbegin, hne⟩
  · rw [bodyObject_parse hobject.1, Option.some.injEq] at hj'
    exact hne (hj' ▸ hobject.2)
  · -- the text of an object begins no other value
    obtain ⟨r, hr⟩ := hbegin
    have hfields : ∃ fields, j = .obj fields := by
      have hsome := hobject.1
      unfold bodyObject at hsome
      split at hsome
      next fields _ => exact ⟨fields, (Option.some.inj hsome).symm⟩
      next => cases hsome
    obtain ⟨fields, rfl⟩ := hfields
    rw [Json.stringify, String.toList_ofList] at hr
    rw [← List.append_nil (Json.render j')] at hr
    exact hne ((Json.render_obj_inj hr).1 ▸ hobject.2)

end NativeJournal

/-- A header and a path that are configured after a transaction was stored, and a path through an
array. -/
theorem native_secrets_kept :
    (∃ s, exec (nativeNext smallReader)
        (NativeJournal.forServer smallReader (hidingSettings [] []) "srv" none)
        [.append (keyTx cardObject), .updateSettings (hidingSettings ["X-Api-Key"] [])] = some s ∧
      ¬ s.Redacted smallReader) ∧
    (∃ s, exec (nativeNext smallReader)
        (NativeJournal.forServer smallReader (hidingSettings [] []) "srv" none)
        [.append (keyTx cardObject), .updateSettings (hidingSettings [] ["card"])] = some s ∧
      ¬ s.Redacted smallReader) ∧
    ∃ s, exec (nativeNext smallReader)
        (NativeJournal.forServer smallReader (hidingSettings [] ["items.0.secret"]) "srv" none)
        [.append (keyTx (itemsOf "1234"))] = some s ∧ ¬ s.Redacted smallReader := by
  obtain ⟨s₁, hs₁, hnames, hheader⟩ :
      ∃ s, exec (nativeNext smallReader)
        (NativeJournal.forServer smallReader (hidingSettings [] []) "srv" none)
        [.append (keyTx cardObject), .updateSettings (hidingSettings ["X-Api-Key"] [])] = some s ∧
        Native.toAsciiLowercase "X-Api-Key" ∈ s.redactionHeaders ∧
        ∃ e ∈ s.entries,
          ("X-Api-Key", .arr [.str "k"]) ∈ NativeJournal.headerFields e.tx "request" :=
    exists_exec (by decide)
  obtain ⟨s₂, hs₂, hcard⟩ :
      ∃ s, exec (nativeNext smallReader)
        (NativeJournal.forServer smallReader (hidingSettings [] []) "srv" none)
        [.append (keyTx cardObject), .updateSettings (hidingSettings [] ["card"])] = some s ∧
        "card" ∈ s.redactionJsonPaths ∧
        ∃ e ∈ s.entries,
          NativeJournal.bodyText e.original "request" = some cardObject.stringify ∧
            NativeJournal.bodyText e.tx "request" = some cardObject.stringify :=
    exists_exec (by decide)
  obtain ⟨s₃, hs₃, hitems⟩ :
      ∃ s, exec (nativeNext smallReader)
        (NativeJournal.forServer smallReader (hidingSettings [] ["items.0.secret"]) "srv" none)
        [.append (keyTx (itemsOf "1234"))] = some s ∧
        "items.0.secret" ∈ s.redactionJsonPaths ∧
        ∃ e ∈ s.entries,
          NativeJournal.bodyText e.original "request" = some (itemsOf "1234").stringify ∧
            NativeJournal.bodyText e.tx "request" = some (itemsOf "1234").stringify :=
    exists_exec (by decide)
  refine ⟨⟨s₁, hs₁, fun hredacted => ?_⟩, ⟨s₂, hs₂, ?_⟩, s₃, hs₃, ?_⟩
  · obtain ⟨e, he, hf⟩ := hheader
    rcases hredacted.headers e he "request" (NativeJournal.mem_sides.mpr (Or.inl rfl)) _ hf hnames
      (.str "k") (List.mem_singleton.mpr rfl) with hmark | ⟨hscheme, -⟩
    · exact absurd (Json.str.inj hmark) (by decide)
    · exact absurd hscheme (by decide)
  · exact NativeJournal.not_redacted_of_kept ⟨hcard.1, by decide⟩
      ⟨by decide, rfl⟩ (show "1234" ≠ NativeJournal.mark by decide) hcard.2
  · exact NativeJournal.not_redacted_of_kept ⟨hitems.1, by decide⟩
      ⟨by decide, rfl⟩ (show "1234" ≠ NativeJournal.mark by decide) hitems.2

end RedFireForge.ApiMock
