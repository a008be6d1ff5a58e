/-
# `RedFireForge.ApiMock.RequestNormalization` — the captured request

Query and headers are maps to lists of values, kept in plain objects.  Whether a name is already
there is asked of what the object has under it, own or inherited: an inherited function is no list,
and pushing to it throws.
-/
import RedFireForge.ApiMock.JsonPath
import RedFireForge.Lib.Grouping

namespace RedFireForge.ApiMock.Normalization

open RedFireForge.Lib

/-! ## The code -/

/-- What is left to the platform.  `parseInt` gives no number for a text that begins with none,
and none that is not finite. -/
structure Platform where
  toUpperCase : String → String
  toLowerCase : String → String
  decodeURIComponent : String → Option String
  parseInt : String → Option ℤ
  slice : String → ℕ → String
  sort : List String → List String
  now : String

abbrev Multimap : Type := InsertionMap String (List String)

/-- The names that every object has. -/
def objectNames : List String := "__proto__" :: inheritedNames

/-- `if (out[key]) out[key].push(...values); else out[key] = values;`, `none` its exception. -/
def push (out : Multimap) (key : String) (values : List String) : Option Multimap :=
  match out.lookup key with
  | some old => some (out.set key (old ++ values))
  | none => if key ∈ objectNames then none else some (out.set key values)

inductive HeaderValue
  | undefined
  | one (s : String)
  | many (l : List String)
deriving DecidableEq, Repr

def HeaderValue.values : HeaderValue → Option (List String)
  | .undefined => none
  | .one s => some [s]
  | .many l => some l

structure RawRequestInput where
  method : String
  url : String
  headers : List (String × HeaderValue)
  body : Option String
  remoteAddress : Option String
  receivedAt : Option String
  clientCertSubject : Option String
  clientCertFingerprint : Option String

/-- HTTP/2 pseudo-headers are not HTTP header names. -/
def isPseudo (name : String) : Bool := name.toList.head? == some ':'

/-- One header, its name in lower case.  `:authority` is taken for the host. -/
def addHeader (out : Multimap) (name : String) (values : List String) : Option Multimap :=
  if isPseudo name then
    if name = ":authority" ∧ out.lookup "host" = none then some (out.set "host" values) else some out
  else push out name values

def normalizeHeaders (w : Platform) (raw : List (String × HeaderValue)) : Option Multimap :=
  raw.foldlM (fun out header =>
    match header.2.values with
    | none => some out
    | some values => addHeader out (w.toLowerCase header.1) values) ∅

/-- Up to a mark, and what follows it. -/
def cut (mark : Char) (cs : List Char) : List Char × Option (List Char) :=
  (cs.takeWhile (· ≠ mark), (cs.dropWhile (· ≠ mark)).tail?)

/-- An assignment to `__proto__` of a text sets nothing. -/
def parseCookies (cookieHeader : String) : InsertionMap String String :=
  (cookieHeader.toList.splitOn ';').foldl (fun out pair =>
    match cut '=' pair with
    | (_, none) => out
    | (name, some value) =>
        let key := String.ofList (trim name)
        if key = "" ∨ key = "__proto__" then out else out.set key (String.ofList (trim value))) ∅

def safeDecodeURIComponent (w : Platform) (s : String) : String := (w.decodeURIComponent s).getD s

/-- A part of the query, decoded. -/
def decodedPart (w : Platform) (part : List Char) : String × String :=
  match cut '=' part with
  | (key, none) => (safeDecodeURIComponent w (String.ofList key), "")
  | (key, some value) =>
      (safeDecodeURIComponent w (String.ofList key), safeDecodeURIComponent w (String.ofList value))

/-- The parts of the query that are not empty. -/
def queryParts (qs : List Char) : List (List Char) := (qs.splitOn '&').filter (· ≠ [])

structure ParsedUrl where
  rawPath : String
  path : String
  query : Multimap

def parseUrl (w : Platform) (url : String) : Option ParsedUrl :=
  let noFragment := (cut '#' url.toList).1
  let query := (queryParts ((cut '?' noFragment).2.getD [])).foldlM (fun out part =>
    push out (decodedPart w part).1 [(decodedPart w part).2]) ∅
  query.map fun query => ⟨String.ofList noFragment, String.ofList (cut '?' noFragment).1, query⟩

structure Captured where
  method : String
  path : String
  rawPath : String
  query : Multimap
  headers : Multimap
  cookies : InsertionMap String String
  body : Option String
  bodyTruncated : Bool
  contentType : Option String
  contentLength : Option ℤ
  remoteAddress : Option String
  receivedAt : String
  clientCertSubject : Option String
  clientCertFingerprint : Option String

structure Summary where
  method : String
  path : String
  decodedPath : String
  pathSegments : List String
  query : Multimap
  headerKeys : List String
  cookieKeys : List String
  bodyContentType : Option String
  bodySizeBytes : ℕ

def maxInboundBodyBytes : ℕ := 10485760

/-- `x ? x : undefined` -/
def nonEmpty (s : Option String) : Option String := s.filter (· ≠ "")

def normalizeRequest (w : Platform) (raw : RawRequestInput) : Option (Captured × Summary) := do
  let method := w.toUpperCase raw.method
  let headers ← normalizeHeaders w raw.headers
  let cookies := ((headers.lookup "cookie").map fun values => parseCookies ("; ".intercalate values)).getD ∅
  let ⟨rawPath, path, query⟩ ← parseUrl w raw.url
  let contentType := (headers.lookup "content-type").bind List.head?
  let contentLength := (nonEmpty ((headers.lookup "content-length").bind List.head?)).bind w.parseInt
  let bodyBytes := (raw.body.map String.utf8ByteSize).getD 0
  let truncated := decide (maxInboundBodyBytes < bodyBytes)
  let decodedPath := safeDecodeURIComponent w path
  let pathSegments := ((decodedPath.toList.splitOn '/').filter (· ≠ [])).map String.ofList
  some (
    { method, path, rawPath, query, headers, cookies
      body := if truncated then raw.body.map fun body => w.slice body maxInboundBodyBytes else raw.body
      bodyTruncated := truncated
      contentType, contentLength
      remoteAddress := raw.remoteAddress
      receivedAt := raw.receivedAt.getD w.now
      clientCertSubject := nonEmpty raw.clientCertSubject
      clientCertFingerprint := nonEmpty raw.clientCertFingerprint },
    { method, path, decodedPath, pathSegments, query
      headerKeys := w.sort headers.keys
      cookieKeys := w.sort cookies.keys
      bodyContentType := contentType
      bodySizeBytes := bodyBytes })

/-! ## What is wanted -/

/-- The parameters of a URL, decoded, in order of appearance. -/
def parameters (w : Platform) (url : String) : List (String × String) :=
  (queryParts ((cut '?' (cut '#' url.toList).1).2.getD [])).map (decodedPart w)

/-- The headers that are defined, with their names in lower case. -/
def definedHeaders (w : Platform) (raw : List (String × HeaderValue)) : List (String × List String) :=
  raw.filterMap fun header => header.2.values.map fun values => (w.toLowerCase header.1, values)

/-- The values under a name, in order; a name that is not there has none. -/
def valuesUnder (name : String) (pairs : List (String × List String)) : Option (List String) :=
  if pairs.filter (·.1 = name) = [] then none else some ((pairs.filter (·.1 = name)).flatMap Prod.snd)

/-- The request is captured with all its parameters and headers, and with no others. -/
def Lossless (w : Platform) (raw : RawRequestInput) : Prop :=
  ∃ captured summary, normalizeRequest w raw = some (captured, summary) ∧
    (∀ name, captured.query.lookup name =
      valuesUnder name ((parameters w raw.url).map fun p => (p.1, [p.2]))) ∧
    ∀ name, captured.headers.lookup name = valuesUnder name (definedHeaders w raw.headers)

/-! ## Maps without inherited names -/

variable {w : Platform} {raw : RawRequestInput} {out out' : Multimap} {pairs : List (String × List String)}

/-- What is under an inherited name was never set. -/
def Clean (out : Multimap) : Prop := ∀ name ∈ objectNames, out.lookup name = none

/-- With the values that were there. -/
def pushed (out : Multimap) (p : String × List String) : Multimap := out.set p.1 ((out.lookup p.1).getD [] ++ p.2)

theorem push_eq (hout : Clean out) (name : String) (values : List String) :
    push out name values = if name ∈ objectNames then none else some (pushed out (name, values)) := by
  rw [push]
  split
  next old hold =>
    have hname : name ∉ objectNames := fun h => by
      rw [hout name h] at hold
      cases hold
    rw [if_neg hname, pushed, hold]
    rfl
  next hnone =>
    rw [pushed, hnone]
    rfl

theorem Clean.pushed (hout : Clean out) {p : String × List String} (hp : p.1 ∉ objectNames) :
    Clean (pushed out p) := by
  intro name hname
  have hne : name ≠ p.1 := fun h => hp (h ▸ hname)
  rw [Normalization.pushed, InsertionMap.lookup_set, if_neg hne]
  exact hout name hname

/-- A loop that pushes ends unless it meets an inherited name. -/
theorem foldlM_push (hout : Clean out) (pairs : List (String × List String)) :
    pairs.foldlM (fun out p => push out p.1 p.2) out =
      if ∀ p ∈ pairs, p.1 ∉ objectNames then some (pairs.foldl pushed out) else none := by
  induction pairs generalizing out with
  | nil => rfl
  | cons p pairs ih =>
      rw [List.foldlM_cons, push_eq hout, List.foldl_cons]
      simp only [List.forall_mem_cons]
      by_cases hp : p.1 ∈ objectNames
      · rw [if_pos hp, if_neg fun h => h.1 hp]
        rfl
      · rw [if_neg hp, Option.bind_eq_bind, Option.bind_some, ih (hout.pushed hp)]
        simp only [hp, not_false_eq_true, true_and]

theorem clean_empty : Clean ∅ := fun _ _ => rfl

theorem lookup_foldl_pushed (name : String) :
    (pairs.foldl pushed ∅).lookup name = valuesUnder name pairs :=
  lookup_joinedOf

/-! ## The query -/

theorem parseUrl_eq (w : Platform) (url : String) : parseUrl w url =
    if ∀ p ∈ parameters w url, p.1 ∉ objectNames then
      some ⟨String.ofList (cut '#' url.toList).1, String.ofList (cut '?' (cut '#' url.toList).1).1,
        ((parameters w url).map fun p => (p.1, [p.2])).foldl pushed ∅⟩
    else none := by
  have hloop : (queryParts ((cut '?' (cut '#' url.toList).1).2.getD [])).foldlM (fun out part =>
      push out (decodedPart w part).1 [(decodedPart w part).2]) ∅ =
      ((parameters w url).map fun p => (p.1, [p.2])).foldlM (fun out p => push out p.1 p.2) (∅ : Multimap) := by
    rw [parameters, List.map_map, List.foldlM_map]
    rfl
  simp only [parseUrl]
  rw [hloop, foldlM_push clean_empty]
  simp only [List.forall_mem_map]
  split <;> rfl

/-! ## The headers -/

theorem normalizeHeaders_eq (w : Platform) (headers : List (String × HeaderValue)) : normalizeHeaders w headers =
    (definedHeaders w headers).foldlM (fun out p => addHeader out p.1 p.2) ∅ := by
  rw [normalizeHeaders]
  generalize (∅ : Multimap) = out
  induction headers generalizing out with
  | nil => rfl
  | cons header headers ih =>
      rw [definedHeaders, List.filterMap_cons, List.foldlM_cons]
      cases header.2.values with
      | none => exact ih out
      | some values =>
          rw [Option.map_some, List.foldlM_cons]
          exact bind_congr fun out' => ih out'

/-- Neither an inherited name nor a pseudo-header is ever set. -/
structure Plain (out : Multimap) : Prop where
  clean : Clean out
  named : ∀ name, isPseudo name = true → out.lookup name = none

theorem Plain.set (hout : Plain out) {name : String} (hname : name ∉ objectNames) (hpseudo : isPseudo name = false)
    (values : List String) : Plain (out.set name values) := by
  constructor
  · intro other hother
    have hne : other ≠ name := fun h => hname (h ▸ hother)
    rw [InsertionMap.lookup_set, if_neg hne]
    exact hout.clean other hother
  · intro other hother
    have hne : other ≠ name := by
      rintro rfl
      rw [hpseudo] at hother
      cases hother
    rw [InsertionMap.lookup_set, if_neg hne]
    exact hout.named other hother

theorem addHeader_plain (hout : Plain out) {p : String × List String} (h : addHeader out p.1 p.2 = some out') :
    Plain out' ∧ (isPseudo p.1 = false → p.1 ∉ objectNames) := by
  rw [addHeader] at h
  split at h
  next hpseudo =>
    refine ⟨?_, fun hnot => by rw [hpseudo] at hnot; cases hnot⟩
    split at h
    next =>
      cases h
      exact hout.set (by decide) (by decide) p.2
    next =>
      cases h
      exact hout
  next hpseudo =>
    rw [push_eq hout.clean] at h
    split at h
    next => cases h
    next hname =>
      cases h
      exact ⟨hout.set hname (Bool.eq_false_iff.mpr hpseudo) _, fun _ => hname⟩

theorem foldlM_addHeader_plain (hout : Plain out) (h : pairs.foldlM (fun out p => addHeader out p.1 p.2) out = some out') :
    Plain out' ∧ ∀ p ∈ pairs, isPseudo p.1 = false → p.1 ∉ objectNames := by
  induction pairs generalizing out with
  | nil =>
      cases h
      exact ⟨hout, fun p hp => absurd hp List.not_mem_nil⟩
  | cons p pairs ih =>
      rw [List.foldlM_cons, Option.bind_eq_bind, Option.bind_eq_some_iff] at h
      obtain ⟨out₁, hadd, hrest⟩ := h
      obtain ⟨hplain, hp⟩ := addHeader_plain hout hadd
      obtain ⟨hout', hall⟩ := ih hplain hrest
      exact ⟨hout', List.forall_mem_cons.mpr ⟨hp, hall⟩⟩

/-- Without pseudo-headers all are pushed. -/
theorem foldlM_addHeader (hpairs : ∀ p ∈ pairs, isPseudo p.1 = false) (out : Multimap) :
    pairs.foldlM (fun out p => addHeader out p.1 p.2) out = pairs.foldlM (fun out p => push out p.1 p.2) out := by
  induction pairs generalizing out with
  | nil => rfl
  | cons p pairs ih =>
      rw [List.forall_mem_cons] at hpairs
      rw [List.foldlM_cons, List.foldlM_cons, addHeader, if_neg (Bool.eq_false_iff.mp hpairs.1)]
      exact bind_congr fun out' => ih hpairs.2 out'

/-! ## The request -/

/-- A request is captured if its headers and its query are. -/
theorem normalizeRequest_eq_some (w : Platform) (raw : RawRequestInput) (captured : Captured) :
    (∃ summary, normalizeRequest w raw = some (captured, summary)) →
      normalizeHeaders w raw.headers = some captured.headers ∧
        (parseUrl w raw.url).map ParsedUrl.query = some captured.query := by
  rintro ⟨summary, h⟩
  simp only [normalizeRequest, Option.bind_eq_bind, Option.bind_eq_some_iff, Option.some.injEq, Prod.mk.injEq] at h
  obtain ⟨headers, hheaders, url, hurl, rfl, -⟩ := h
  exact ⟨hheaders, by rw [hurl]; rfl⟩

theorem exists_normalizeRequest {headers : Multimap} {url : ParsedUrl} (hheaders : normalizeHeaders w raw.headers = some headers)
    (hurl : parseUrl w raw.url = some url) : ∃ captured summary, normalizeRequest w raw = some (captured, summary) := by
  cases hresult : normalizeRequest w raw with
  | none => simp [normalizeRequest, hheaders, hurl] at hresult
  | some result => exact ⟨result.1, result.2, rfl⟩

theorem plain_empty : Plain ∅ := ⟨clean_empty, fun _ _ => rfl⟩

/-- A name under which there are no values occurs nowhere. -/
theorem notMem_of_valuesUnder {name : String} (h : valuesUnder name pairs = none) : ∀ p ∈ pairs, p.1 ≠ name := by
  intro p hp heq
  have hmem : p ∈ pairs.filter (·.1 = name) := List.mem_filter.mpr ⟨hp, decide_eq_true heq⟩
  rw [valuesUnder] at h
  split at h
  next hnil =>
    rw [hnil] at hmem
    cases hmem
  next => cases h

/-- Exactly the names that every object has are lost, with the request, and the pseudo-headers,
which are not captured under their names. -/
theorem normalizeRequest_lossless_iff (w : Platform) (raw : RawRequestInput) : Lossless w raw ↔
    (∀ p ∈ parameters w raw.url, p.1 ∉ objectNames) ∧
      ∀ header ∈ definedHeaders w raw.headers, header.1 ∉ objectNames ∧ isPseudo header.1 = false := by
  constructor
  · rintro ⟨captured, summary, hresult, -, hheaders⟩
    obtain ⟨hnormalized, hurl⟩ := normalizeRequest_eq_some w raw captured ⟨summary, hresult⟩
    rw [normalizeHeaders_eq] at hnormalized
    obtain ⟨hplain, hnames⟩ := foldlM_addHeader_plain plain_empty hnormalized
    constructor
    · rw [parseUrl_eq] at hurl
      split at hurl
      next hall => exact hall
      next => cases hurl
    · intro header hheader
      have hpseudo : isPseudo header.1 = false := by
        rw [Bool.eq_false_iff]
        intro hpseudo
        have hnone := hheaders header.1
        rw [hplain.named header.1 hpseudo] at hnone
        exact notMem_of_valuesUnder hnone.symm header hheader rfl
      exact ⟨hnames header hheader hpseudo, hpseudo⟩
  · rintro ⟨hparameters, hdefined⟩
    have hheaders : normalizeHeaders w raw.headers = some ((definedHeaders w raw.headers).foldl pushed ∅) := by
      rw [normalizeHeaders_eq, foldlM_addHeader fun p hp => (hdefined p hp).2, foldlM_push clean_empty,
        if_pos fun p hp => (hdefined p hp).1]
    have hurl := parseUrl_eq w raw.url
    rw [if_pos hparameters] at hurl
    obtain ⟨captured, summary, hresult⟩ := exists_normalizeRequest hheaders hurl
    obtain ⟨hheaders', hurl'⟩ := normalizeRequest_eq_some w raw captured ⟨summary, hresult⟩
    rw [hheaders] at hheaders'
    rw [hurl] at hurl'
    refine ⟨captured, summary, hresult, fun name => ?_, fun name => ?_⟩
    · rw [← Option.some.inj hurl']
      exact lookup_foldl_pushed name
    · rw [← Option.some.inj hheaders']
      exact lookup_foldl_pushed name

/-- Texts are taken as they are, of the letters of ASCII. -/
def asciiPlatform : Platform where
  toUpperCase := String.toUpper
  toLowerCase := String.toLower
  decodeURIComponent := some
  parseInt := fun _ => none
  slice := fun s _ => s
  sort := id
  now := "1970-01-01T00:00:00.000Z"

def plainInput (url : String) (headers : List (String × HeaderValue)) : RawRequestInput :=
  ⟨"GET", url, headers, none, none, none, none, none⟩

/-- A parameter or a header with an inherited name makes the reader throw. -/
theorem constructor_throws :
    normalizeRequest asciiPlatform (plainInput "/orders?constructor=1" []) = none ∧
      normalizeRequest asciiPlatform (plainInput "/orders?__proto__=1" []) = none ∧
      normalizeRequest asciiPlatform (plainInput "/orders" [("constructor", .one "1")]) = none := by
  have hnone : ∀ {r : Option (Captured × Summary)}, r.isNone = true → r = none := Option.isNone_iff_eq_none.mp
  exact ⟨hnone (by decide +kernel), hnone (by decide +kernel), hnone (by decide +kernel)⟩

end RedFireForge.ApiMock.Normalization
