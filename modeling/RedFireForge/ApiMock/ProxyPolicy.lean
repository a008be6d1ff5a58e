/-
# `RedFireForge.ApiMock.ProxyPolicy` — which URLs the mock server may call

`checkProxyUrl` rejects some hosts and ports outright and then asks the allowlist.  It
compares texts: an upstream is allowed if it is a prefix of the URL or of its origin.
A prefix need not end where the origin ends: what follows may go on with the host, or
make it the user name of another host.

The parser of URLs is the WHATWG one as far as scheme and authority go; what is in an
authority is left to the platform.
-/
import Mathlib.Data.List.DropRight
import Mathlib.Data.List.TakeWhile
import Mathlib.Data.Nat.Notation
import Mathlib.Tactic.Common

namespace RedFireForge.ApiMock

/-! ## URLs -/

/-- The end of an authority. -/
def isTerminator (c : Char) : Bool := c == '/' || c == '\\' || c == '?' || c == '#'

def isSlash (c : Char) : Bool := c == '/' || c == '\\'

/-- C0 control or space. -/
def isBlank (c : Char) : Bool := decide (c.toNat ≤ 32)

def isTabOrNewline (c : Char) : Bool := c == '\t' || c == '\n' || c == '\r'

def isSchemeChar (c : Char) : Bool := c.isAlphanum || c == '+' || c == '-' || c == '.'

/-- The input of the parser, before its end is cleaned. -/
def lead (cs : List Char) : List Char := (cs.dropWhile isBlank).filter (fun c => !isTabOrNewline c)

/-- `lead` without blanks at the end. -/
def clean (cs : List Char) : List Char := lead (cs.rdropWhile isBlank)

inductive Scan
  /-- the scheme is not complete -/
  | scheme (cs : List Char)
  /-- an authority that may go on -/
  | opened (scheme authority : List Char)
  /-- an authority that has ended -/
  | closed (scheme authority : List Char)
  /-- another scheme -/
  | other (scheme rest : List Char)
  | invalid
deriving DecidableEq, Repr

def http : List Char := ['h', 't', 't', 'p']
def https : List Char := ['h', 't', 't', 'p', 's']

/-- Any number of slashes, and the authority. -/
def scanAuthority (scheme rest : List Char) : Scan :=
  let rest := rest.dropWhile isSlash
  let authority := rest.takeWhile (fun c => !isTerminator c)
  if rest.dropWhile (fun c => !isTerminator c) = [] then .opened scheme authority
  else .closed scheme authority

/-- What follows the characters of the scheme. -/
def scanRest (scheme : List Char) : List Char → Scan
  | [] => .scheme scheme
  | c :: rest =>
      if c = ':' then
        if scheme = http ∨ scheme = https then scanAuthority scheme rest else .other scheme rest
      else .invalid

def scan (cs : List Char) : Scan :=
  scanRest ((cs.takeWhile isSchemeChar).map Char.toLower) (cs.dropWhile isSchemeChar)

structure Host where
  hostname : List Char
  port : Option ℕ
deriving DecidableEq, Repr

/-- What the platform makes of an authority under a scheme, and of a URL with another
scheme.  A host name holds no character that ends an authority; and what comes before
an `@` is not part of the host. -/
structure Platform where
  authority : List Char → List Char → Option Host
  other : List Char → List Char → Option Host
  hostname_chars : ∀ scheme cs h, authority scheme cs = some h →
    ∀ c ∈ h.hostname, isTerminator c = false
  userinfo : ∀ scheme cs n, (∀ c ∈ cs, isTerminator c = false) →
    authority scheme (cs ++ '@' :: List.replicate (n + 1) 'a') =
      some ⟨List.replicate (n + 1) 'a', none⟩

/-- Of the parsed URL, what the policy looks at: a port that is the default of its
scheme is left out. -/
structure ParsedUrl where
  protocol : List Char
  hostname : List Char
  port : Option ℕ
deriving DecidableEq, Repr

def parsed (scheme : List Char) (h : Host) : ParsedUrl := ⟨scheme ++ [':'], h.hostname, h.port⟩

/-- `new URL(url)`, `none` its exception. -/
def newURL (w : Platform) (url : String) : Option ParsedUrl :=
  match scan (clean url.toList) with
  | .opened scheme authority => (w.authority scheme authority).map (parsed scheme)
  | .closed scheme authority => (w.authority scheme authority).map (parsed scheme)
  | .other scheme rest => (w.other scheme rest).map (parsed scheme)
  | _ => none

/-- Scheme, host and effective port. -/
structure Origin where
  protocol : List Char
  hostname : List Char
  port : ℕ
deriving DecidableEq, Repr

def ParsedUrl.effectivePort (p : ParsedUrl) : ℕ :=
  p.port.getD (if p.protocol = https ++ [':'] then 443 else 80)

def ParsedUrl.origin (p : ParsedUrl) : Origin := ⟨p.protocol, p.hostname, p.effectivePort⟩

/-- The origin as `checkProxyUrl` writes it. -/
def ParsedUrl.originText (p : ParsedUrl) : List Char :=
  p.protocol ++ ['/', '/'] ++ p.hostname ++
    (p.port.map (fun n => ':' :: Nat.toDigits 10 n)).getD []

/-! ## The policy -/

def blockedMetadataHosts : List String :=
  ["metadata.google.internal", "metadata.goog", "169.254.169.254", "fd00::1"]

/-- What `PRIVATE_IPV4` matches at the start of a host. -/
def privateIpv4 : List String :=
  ["10.", "169.254.", "172.16.", "172.17.", "172.18.", "172.19.", "172.20.", "172.21.", "172.22.",
    "172.23.", "172.24.", "172.25.", "172.26.", "172.27.", "172.28.", "172.29.", "172.30.",
    "172.31.", "192.168.", "127.", "0."]

def loopbackIpv6 : List String := ["::1", "fe80:"]

def isLocalhost (hostname : List Char) : Bool :=
  hostname == "localhost".toList || hostname == "127.0.0.1".toList || hostname == "::1".toList ||
    ".localhost".toList.isSuffixOf hostname

structure PolicyCheckResult where
  allowed : Bool
  reason : Option String := none
  resolvedHost : Option String := none
deriving DecidableEq, Repr

def reject (reason : String) : PolicyCheckResult := { allowed := false, reason := some reason }

/-- Why the protocol, the host or the port is rejected, whatever the allowlist says. -/
def blocked (p : ParsedUrl) (activePorts : List ℕ) : Option String :=
  let hostname := p.hostname.map Char.toLower
  let port := p.effectivePort
  if p.protocol ≠ http ++ [':'] ∧ p.protocol ≠ https ++ [':'] then
    some ("Unsupported protocol: " ++ String.ofList p.protocol)
  else if blockedMetadataHosts.any (fun h => h.toList == hostname) then
    some ("Blocked metadata host: " ++ String.ofList hostname)
  else if privateIpv4.any (fun h => h.toList.isPrefixOf hostname) then
    some ("Blocked private IPv4: " ++ String.ofList hostname)
  else if loopbackIpv6.any (fun h => h.toList.isPrefixOf hostname) then
    some ("Blocked IPv6 loopback: " ++ String.ofList hostname)
  else if isLocalhost hostname && activePorts.contains port then
    some ("Self-recursion: port " ++ toString port ++ " is an active mock listener")
  else if isLocalhost hostname && port == 3001 then
    some "Blocked: control plane port 3001"
  else none

/-- The test of the allowlist. -/
def listed (url : String) (p : ParsedUrl) (upstream : String) : Bool :=
  upstream.toList.isPrefixOf p.originText || upstream.toList.isPrefixOf url.toList

def checkProxyUrl (w : Platform) (url : String) (allowedUpstreams : List String)
    (activePorts : List ℕ) : PolicyCheckResult :=
  match newURL w url with
  | none => reject ("Invalid URL: " ++ url)
  | some p =>
      match blocked p activePorts with
      | some reason => reject reason
      | none =>
          if allowedUpstreams.any (listed url p) then
            { allowed := true, resolvedHost := some (String.ofList (p.hostname.map Char.toLower)) }
          else reject ("Host not in allowlist: " ++ String.ofList p.originText)

/-! ## Texts that go on -/

section Scans

variable {p : Char → Bool} {l t cs bl scheme authority rest : List Char}

theorem takeWhile_append_of_dropWhile (h : l.dropWhile p ≠ []) :
    (l ++ t).takeWhile p = l.takeWhile p ∧ (l ++ t).dropWhile p = l.dropWhile p ++ t := by
  induction l with
  | nil => exact absurd rfl h
  | cons c l ih =>
      rw [List.cons_append, List.takeWhile_cons, List.takeWhile_cons, List.dropWhile_cons,
        List.dropWhile_cons]
      rw [List.dropWhile_cons] at h
      split
      next hc =>
        rw [if_pos hc] at h
        rw [(ih h).1, (ih h).2]
        exact ⟨rfl, rfl⟩
      next => exact ⟨rfl, rfl⟩

theorem dropWhile_eq_nil (h : ∀ c ∈ l, p c = true) : l.dropWhile p = [] ∧ l.takeWhile p = l :=
  ⟨List.dropWhile_eq_nil_iff.mpr h, List.takeWhile_eq_self_iff.mpr h⟩

theorem append_of_dropWhile_nil (h : l.dropWhile p = []) :
    (l ++ t).takeWhile p = l ++ t.takeWhile p ∧ (l ++ t).dropWhile p = t.dropWhile p := by
  have hall := List.dropWhile_eq_nil_iff.mp h
  rw [List.takeWhile_append_of_pos hall, List.dropWhile_append_of_pos hall]
  exact ⟨rfl, rfl⟩

theorem isSlash_terminator {c : Char} (h : isSlash c = true) : isTerminator c = true := by
  simp only [isSlash, isTerminator, Bool.or_eq_true] at h ⊢
  exact Or.inl (Or.inl h)

/-- The authority that has ended stays as it is. -/
theorem scanAuthority_closed (h : scanAuthority scheme rest = .closed scheme authority) :
    scanAuthority scheme (rest ++ t) = .closed scheme authority := by
  unfold scanAuthority at h ⊢
  dsimp only at h ⊢
  split at h
  next => cases h
  next hterm =>
    have hrest : rest.dropWhile isSlash ≠ [] := by
      intro hnil
      rw [hnil] at hterm
      exact hterm rfl
    obtain ⟨-, hdrop⟩ := takeWhile_append_of_dropWhile (t := t) hrest
    obtain ⟨htake, hdrop'⟩ := takeWhile_append_of_dropWhile (t := t) hterm
    rw [hdrop, htake, hdrop', if_neg (by simp [hterm])]
    exact h

/-- One that has not ended goes on. -/
theorem scanAuthority_opened (ht : ∀ c ∈ t, isTerminator c = false)
    (h : scanAuthority scheme rest = .opened scheme authority) :
    scanAuthority scheme (rest ++ t) = .opened scheme (authority ++ t) := by
  have hgo : ∀ c ∈ t, (!isTerminator c) = true := by
    intro c hc
    rw [ht c hc]
    rfl
  have hslash : ∀ c ∈ t, isSlash c = false := by
    intro c hc
    cases hs : isSlash c with
    | false => rfl
    | true =>
        have := isSlash_terminator hs
        rw [ht c hc] at this
        cases this
  have hdropt : t.dropWhile isSlash = t := by
    cases t with
    | nil => rfl
    | cons c t => rw [List.dropWhile_cons, hslash c (by simp), if_neg Bool.false_ne_true]
  obtain ⟨htnil, httake⟩ := dropWhile_eq_nil hgo
  unfold scanAuthority at h ⊢
  dsimp only at h ⊢
  split at h
  next hterm =>
    cases h
    by_cases hrest : rest.dropWhile isSlash = []
    · obtain ⟨-, hdrop⟩ := append_of_dropWhile_nil (t := t) hrest
      rw [hdrop, hdropt, htnil, httake, hrest]
      rfl
    · obtain ⟨-, hdrop⟩ := takeWhile_append_of_dropWhile (t := t) hrest
      obtain ⟨htake, hdrop'⟩ := append_of_dropWhile_nil (t := t) hterm
      rw [hdrop, htake, hdrop', htnil, httake, if_pos rfl,
        (dropWhile_eq_nil (List.dropWhile_eq_nil_iff.mp hterm)).2]
  next => cases h

/-- Once the scheme is over, more text changes what follows it only. -/
theorem scan_append {c : Char} (hrest : cs.dropWhile isSchemeChar = c :: rest) :
    scan (cs ++ t) = scanRest ((cs.takeWhile isSchemeChar).map Char.toLower) (c :: (rest ++ t)) := by
  have hne : cs.dropWhile isSchemeChar ≠ [] := by
    rw [hrest]
    exact List.cons_ne_nil _ _
  obtain ⟨htake, hdrop⟩ := takeWhile_append_of_dropWhile (t := t) hne
  rw [scan, htake, hdrop, hrest, List.cons_append]

theorem scan_closed (h : scan cs = .closed scheme authority) :
    scan (cs ++ t) = .closed scheme authority ∧ (scheme = http ∨ scheme = https) := by
  unfold scan at h
  cases hrest : cs.dropWhile isSchemeChar with
  | nil =>
      rw [hrest] at h
      cases h
  | cons c rest =>
      rw [scan_append hrest]
      rw [hrest] at h
      simp only [scanRest] at h ⊢
      split at h
      next hc =>
        rw [if_pos hc]
        split at h
        next hscheme =>
          rw [if_pos hscheme]
          have hs : (cs.takeWhile isSchemeChar).map Char.toLower = scheme := by
            unfold scanAuthority at h
            dsimp only at h
            split at h
            · cases h
            · exact (Scan.closed.inj h).1
          rw [hs] at h hscheme ⊢
          exact ⟨scanAuthority_closed h, hscheme⟩
        next => cases h
      next => cases h

theorem scan_opened (ht : ∀ c ∈ t, isTerminator c = false)
    (h : scan cs = .opened scheme authority) :
    scan (cs ++ t) = .opened scheme (authority ++ t) ∧ (scheme = http ∨ scheme = https) := by
  unfold scan at h
  cases hrest : cs.dropWhile isSchemeChar with
  | nil =>
      rw [hrest] at h
      cases h
  | cons c rest =>
      rw [scan_append hrest]
      rw [hrest] at h
      simp only [scanRest] at h ⊢
      split at h
      next hc =>
        rw [if_pos hc]
        split at h
        next hscheme =>
          rw [if_pos hscheme]
          have hs : (cs.takeWhile isSchemeChar).map Char.toLower = scheme := by
            unfold scanAuthority at h
            dsimp only at h
            split at h
            · exact (Scan.opened.inj h).1
            · cases h
          rw [hs] at h hscheme ⊢
          exact ⟨scanAuthority_opened ht h, hscheme⟩
        next => cases h
      next => cases h

/-- The text begins an HTTP URL. -/
def Scan.Http : Scan → Prop
  | .opened _ _ => True
  | .closed _ _ => True
  | _ => False

/-- What is no HTTP URL because of another scheme, or has none, never becomes one. -/
theorem scan_dead (h : ¬ (scan cs).Http) (hscheme : ∀ s, scan cs ≠ .scheme s) :
    ¬ (scan (cs ++ t)).Http := by
  cases hrest : cs.dropWhile isSchemeChar with
  | nil =>
      refine absurd ?_ (hscheme ((cs.takeWhile isSchemeChar).map Char.toLower))
      rw [scan, hrest]
      rfl
  | cons c rest =>
      rw [scan_append hrest]
      rw [scan, hrest] at h
      simp only [scanRest] at h ⊢
      split
      next hc =>
        rw [if_pos hc] at h
        split
        next hs =>
          rw [if_pos hs] at h
          refine absurd ?_ h
          unfold scanAuthority
          dsimp only
          split <;> trivial
        next => exact id
      next => exact id

theorem scan_http_scheme (h : (scan cs).Http) :
    (cs.takeWhile isSchemeChar).map Char.toLower = http ∨
      (cs.takeWhile isSchemeChar).map Char.toLower = https := by
  unfold scan at h
  cases hrest : cs.dropWhile isSchemeChar with
  | nil =>
      rw [hrest] at h
      exact h.elim
  | cons c rest =>
      rw [hrest] at h
      simp only [scanRest] at h
      split at h
      next =>
        split at h
        next hs => exact hs
        next => exact h.elim
      next => exact h.elim

/-- An incomplete scheme is the beginning of the scheme. -/
theorem scan_scheme {s : List Char} (h : scan cs = .scheme s) :
    (∀ c ∈ cs, isSchemeChar c = true) ∧ s = cs.map Char.toLower := by
  unfold scan at h
  cases hrest : cs.dropWhile isSchemeChar with
  | nil =>
      rw [hrest] at h
      have hall := List.dropWhile_eq_nil_iff.mp hrest
      refine ⟨hall, ?_⟩
      rw [List.takeWhile_eq_self_iff.mpr hall] at h
      exact (Scan.scheme.inj h).symm
  | cons c rest =>
      rw [hrest] at h
      simp only [scanRest] at h
      split at h
      · split at h
        · unfold scanAuthority at h
          dsimp only at h
          split at h <;> cases h
        · cases h
      · cases h

/-- It can only become the scheme of an HTTP URL if that begins with it. -/
theorem scan_scheme_dead {s : List Char} (h : scan cs = .scheme s) (hs : ¬ s <+: https) :
    ¬ (scan (cs ++ t)).Http := by
  obtain ⟨hall, hlower⟩ := scan_scheme h
  intro hhttp
  have htake : ((cs ++ t).takeWhile isSchemeChar).map Char.toLower =
      s ++ (t.takeWhile isSchemeChar).map Char.toLower := by
    rw [List.takeWhile_append_of_pos hall, List.map_append, hlower]
  have hbegins : s <+: s ++ (t.takeWhile isSchemeChar).map Char.toLower := List.prefix_append _ _
  refine hs ?_
  rw [← htake] at hbegins
  rcases scan_http_scheme hhttp with heq | heq
  · rw [heq] at hbegins
    exact hbegins.trans (by decide)
  · rwa [heq] at hbegins

/-- And then it can be completed. -/
theorem scan_scheme_complete {s : List Char} (h : scan cs = .scheme s) (hs : s <+: https)
    (hl : ∀ c ∈ l, isTerminator c = false) (hslash : ∀ c ∈ l.head?, isSlash c = false) :
    ∃ more, (∀ c ∈ more, isTabOrNewline c = false ∧ isBlank c = false) ∧
      scan (cs ++ (more ++ ':' :: l)) = .opened https l := by
  obtain ⟨hall, hlower⟩ := scan_scheme h
  obtain ⟨more, hmore⟩ := hs
  have hchars : ∀ c ∈ more, c ∈ https := by
    intro c hc
    rw [← hmore]
    exact List.mem_append_right _ hc
  have hscheme : ∀ c ∈ https, isSchemeChar c = true ∧ Char.toLower c = c ∧ isTabOrNewline c = false ∧
      isBlank c = false := by
    intro c hc
    simp only [https, List.mem_cons, List.not_mem_nil, or_false] at hc
    rcases hc with rfl | rfl | rfl | rfl | rfl <;> decide
  refine ⟨more, fun c hc => (hscheme c (hchars c hc)).2.2, ?_⟩
  have hmap : more.map Char.toLower = more := by
    rw [List.map_congr_left (fun c hc => (hscheme c (hchars c hc)).2.1), List.map_id']
  have htake : (cs ++ (more ++ ':' :: l)).takeWhile isSchemeChar = cs ++ more := by
    rw [List.takeWhile_append_of_pos hall, List.takeWhile_append_of_pos
      (fun c hc => (hscheme c (hchars c hc)).1)]
    have hcolon : isSchemeChar ':' = false := by decide
    simp [hcolon]
  have hdrop : (cs ++ (more ++ ':' :: l)).dropWhile isSchemeChar = ':' :: l := by
    rw [List.dropWhile_append_of_pos hall, List.dropWhile_append_of_pos
      (fun c hc => (hscheme c (hchars c hc)).1)]
    have hcolon : isSchemeChar ':' = false := by decide
    simp [hcolon]
  have hhttps : (cs ++ more).map Char.toLower = https := by
    rw [List.map_append, hmap, ← hlower, hmore]
  rw [scan, htake, hdrop, hhttps]
  simp only [scanRest, if_true, or_true]
  have hnil : l.dropWhile isSlash = l := by
    cases l with
    | nil => rfl
    | cons c l => rw [List.dropWhile_cons, hslash c rfl, if_neg Bool.false_ne_true]
  have hgo : ∀ c ∈ l, (!isTerminator c) = true := by
    intro c hc
    rw [hl c hc]
    rfl
  obtain ⟨hd, ht⟩ := dropWhile_eq_nil hgo
  unfold scanAuthority
  dsimp only
  rw [hnil, hd, ht, if_pos rfl]

theorem scan_authority_chars (h : scan cs = .opened scheme authority) :
    ∀ c ∈ authority, isTerminator c = false := by
  have hchars : ∀ (s l : List Char), scanAuthority s l = .opened scheme authority →
      ∀ c ∈ authority, isTerminator c = false := by
    intro s l hl c hc
    unfold scanAuthority at hl
    dsimp only at hl
    split at hl
    · rw [← (Scan.opened.inj hl).2] at hc
      simpa using List.mem_takeWhile_imp hc
    · cases hl
  unfold scan at h
  cases hrest : cs.dropWhile isSchemeChar with
  | nil =>
      rw [hrest] at h
      cases h
  | cons c rest =>
      rw [hrest] at h
      simp only [scanRest] at h
      split at h
      · split at h
        · exact hchars _ _ h
        · cases h
      · cases h

/-! ## Blanks at the ends -/

theorem blank_plain {c : Char} (h : isBlank c = true) :
    isTerminator c = false ∧ isSchemeChar c = false ∧ c ≠ ':' := by
  have hle : c.toNat < 33 := by
    simp only [isBlank, decide_eq_true_eq] at h
    omega
  have hall : ∀ n < 33, isTerminator (Char.ofNat n) = false ∧ isSchemeChar (Char.ofNat n) = false ∧
      Char.ofNat n ≠ ':' := by decide
  have hp := hall c.toNat hle
  rwa [Char.ofNat_toNat] at hp

theorem lead_append (h : cs.dropWhile isBlank ≠ []) :
    lead (cs ++ t) = lead cs ++ t.filter (fun c => !isTabOrNewline c) := by
  rw [lead, (takeWhile_append_of_dropWhile h).2, List.filter_append, lead]

theorem lead_eq_nil (h : cs.dropWhile isBlank = []) : lead cs = [] := by rw [lead, h, List.filter_nil]

/-- More text that needs no cleaning. -/
theorem lead_append_plain (ht : ∀ c ∈ t, isTabOrNewline c = false)
    (hhead : ∀ c ∈ t.head?, isBlank c = false) : lead (cs ++ t) = lead cs ++ t := by
  have hfilter : t.filter (fun c => !isTabOrNewline c) = t := by
    refine List.filter_eq_self.mpr (fun c hc => ?_)
    rw [ht c hc]
    rfl
  by_cases h : cs.dropWhile isBlank = []
  · have hdrop : t.dropWhile isBlank = t := by
      cases t with
      | nil => rfl
      | cons c t => rw [List.dropWhile_cons, hhead c rfl, if_neg Bool.false_ne_true]
    rw [lead_eq_nil h, lead, (append_of_dropWhile_nil h).2, hdrop, hfilter, List.nil_append]
  · rw [lead_append h, hfilter]

theorem lead_clean (cs : List Char) :
    ∃ bl, (∀ c ∈ bl, isBlank c = true) ∧ lead cs = clean cs ++ bl := by
  have hsplit : cs.rdropWhile isBlank ++ cs.rtakeWhile isBlank = cs :=
    List.rdropWhile_append_rtakeWhile
  have hblank : ∀ c ∈ cs.rtakeWhile isBlank, isBlank c = true := fun c hc => List.mem_rtakeWhile_imp hc
  by_cases h : (cs.rdropWhile isBlank).dropWhile isBlank = []
  · have hall : cs.dropWhile isBlank = [] := by
      rw [← hsplit]
      refine List.dropWhile_eq_nil_iff.mpr (fun c hc => ?_)
      rcases List.mem_append.mp hc with hc | hc
      · exact List.dropWhile_eq_nil_iff.mp h c hc
      · exact hblank c hc
    exact ⟨[], by simp, by rw [clean, lead_eq_nil h, lead_eq_nil hall, List.nil_append]⟩
  · refine ⟨(cs.rtakeWhile isBlank).filter (fun c => !isTabOrNewline c), fun c hc => ?_, ?_⟩
    · exact hblank c (List.mem_filter.mp hc).1
    · conv_lhs => rw [← hsplit]
      rw [lead_append h, clean]

theorem clean_append (hne : t ≠ []) (hlast : isBlank (t.getLast hne) = false) :
    clean (cs ++ t) = lead (cs ++ t) := by
  have hself : (cs ++ t).rdropWhile isBlank = cs ++ t := by
    refine List.rdropWhile_eq_self_iff.mpr (fun _ => ?_)
    rw [List.getLast_append_of_ne_nil _ hne, hlast]
    exact Bool.false_ne_true
  rw [clean, hself]

/-- Blanks at the end do not make or unmake an HTTP URL. -/
theorem scan_clean_http (h : (scan (clean cs)).Http) : (scan (lead cs)).Http := by
  obtain ⟨bl, hbl, hlead⟩ := lead_clean cs
  rw [hlead]
  cases hscan : scan (clean cs) with
  | closed scheme authority =>
      rw [(scan_closed hscan).1]
      trivial
  | opened scheme authority =>
      rw [(scan_opened (fun c hc => (blank_plain (hbl c hc)).1) hscan).1]
      trivial
  | scheme s =>
      rw [hscan] at h
      exact h.elim
  | other scheme rest =>
      rw [hscan] at h
      exact h.elim
  | invalid =>
      rw [hscan] at h
      exact h.elim

/-- An authority that has ended is not changed by cleaning the end. -/
theorem scan_clean_closed (h : scan (lead cs) = .closed scheme authority) :
    scan (clean cs) = .closed scheme authority := by
  obtain ⟨bl, hbl, hlead⟩ := lead_clean cs
  rw [hlead] at h
  have hhttp : (scan (clean cs ++ bl)).Http := by
    rw [h]
    trivial
  cases hscan : scan (clean cs) with
  | closed scheme' authority' =>
      rw [← h, (scan_closed hscan).1]
  | opened scheme' authority' =>
      rw [(scan_opened (fun c hc => (blank_plain (hbl c hc)).1) hscan).1] at h
      cases h
  | scheme s =>
      obtain ⟨hall, -⟩ := scan_scheme hscan
      cases bl with
      | nil =>
          rw [List.append_nil, hscan] at h
          cases h
      | cons b bl =>
          obtain ⟨-, hb, hcolon⟩ := blank_plain (hbl b (by simp))
          have hdrop : (clean cs ++ b :: bl).dropWhile isSchemeChar = b :: bl := by
            rw [List.dropWhile_append_of_pos hall]
            simp [hb]
          rw [scan, hdrop] at h
          simp [scanRest, hcolon] at h
  | other scheme' rest =>
      refine absurd hhttp (scan_dead ?_ ?_)
      · rw [hscan]
        exact id
      · intro s hs
        rw [hscan] at hs
        cases hs
  | invalid =>
      refine absurd hhttp (scan_dead ?_ ?_)
      · rw [hscan]
        exact id
      · intro s hs
        rw [hscan] at hs
        cases hs

theorem scan_other (h : scan cs = .other scheme rest) : scheme ≠ http ∧ scheme ≠ https := by
  unfold scan at h
  cases hrest : cs.dropWhile isSchemeChar with
  | nil =>
      rw [hrest] at h
      cases h
  | cons c rest' =>
      rw [hrest] at h
      simp only [scanRest] at h
      split at h
      · split at h
        · unfold scanAuthority at h
          dsimp only at h
          split at h <;> cases h
        next hscheme =>
          rw [← (Scan.other.inj h).1]
          exact not_or.mp hscheme
      · cases h

end Scans

/-! ## What an allowlist lets through -/

/-- The URL has the origin of an allowed upstream. -/
def OfUpstream (w : Platform) (url : String) (allowedUpstreams : List String) : Prop :=
  ∃ p u q, newURL w url = some p ∧ u ∈ allowedUpstreams ∧ newURL w u = some q ∧
    p.origin = q.origin

/-- The upstream is written past the end of its authority, or begins no HTTP URL. -/
def Delimited (u : String) : Prop :=
  match scan (lead u.toList) with
  | .scheme s => ¬ s <+: https
  | .opened _ _ => False
  | _ => True

variable {w : Platform} {url u : String} {allowedUpstreams : List String} {activePorts : List ℕ}
  {p : ParsedUrl}

theorem allowed_iff : (checkProxyUrl w url allowedUpstreams activePorts).allowed = true ↔
    ∃ p, newURL w url = some p ∧ blocked p activePorts = none ∧
      ∃ u ∈ allowedUpstreams, u.toList <+: p.originText ∨ u.toList <+: url.toList := by
  unfold checkProxyUrl
  cases hp : newURL w url with
  | none => simp [reject]
  | some p =>
      cases hb : blocked p activePorts with
      | some reason => simp [reject, hb]
      | none =>
          simp only [Option.some.injEq, exists_eq_left', hb, true_and]
          split
          next hany => simpa [listed] using hany
          next hany => simpa [listed, reject] using hany

/-- Only HTTP passes. -/
theorem blocked_protocol (h : blocked p activePorts = none) :
    p.protocol = http ++ [':'] ∨ p.protocol = https ++ [':'] := by
  unfold blocked at h
  dsimp only at h
  split at h
  next => cases h
  next hprotocol =>
    rw [not_and_or, not_not, not_not] at hprotocol
    exact hprotocol

/-- What passes was read off an authority. -/
theorem newURL_http (hp : newURL w url = some p) (h : blocked p activePorts = none) :
    ∃ scheme authority host, (scan (clean url.toList) = .opened scheme authority ∨
      scan (clean url.toList) = .closed scheme authority) ∧
      w.authority scheme authority = some host ∧ p = parsed scheme host := by
  unfold newURL at hp
  split at hp
  next scheme authority hscan =>
    obtain ⟨host, hhost, rfl⟩ := Option.map_eq_some_iff.mp hp
    exact ⟨scheme, authority, host, Or.inl hscan, hhost, rfl⟩
  next scheme authority hscan =>
    obtain ⟨host, hhost, rfl⟩ := Option.map_eq_some_iff.mp hp
    exact ⟨scheme, authority, host, Or.inr hscan, hhost, rfl⟩
  next scheme rest hscan =>
    obtain ⟨host, -, rfl⟩ := Option.map_eq_some_iff.mp hp
    obtain ⟨hhttp, hhttps⟩ := scan_other hscan
    rcases blocked_protocol h with heq | heq
    · exact absurd (List.append_cancel_right heq) hhttp
    · exact absurd (List.append_cancel_right heq) hhttps
  next => cases hp

/-! ### Upstreams that end -/

theorem lead_ne_nil_of_closed {cs scheme authority : List Char}
    (h : scan (lead cs) = .closed scheme authority) : cs.dropWhile isBlank ≠ [] := by
  intro hnil
  rw [lead_eq_nil hnil] at h
  cases h

/-- A URL that begins with an upstream that has ended is scanned like it. -/
theorem scan_clean_of_closed {scheme authority : List Char} (hu : u.toList <+: url.toList)
    (h : scan (lead u.toList) = .closed scheme authority) :
    scan (clean url.toList) = scan (clean u.toList) := by
  obtain ⟨t, ht⟩ := hu
  have hurl : scan (lead url.toList) = .closed scheme authority := by
    rw [← ht, lead_append (lead_ne_nil_of_closed h), (scan_closed h).1]
  rw [scan_clean_closed h, scan_clean_closed hurl]

theorem newURL_of_closed {scheme authority : List Char} (hu : u.toList <+: url.toList)
    (h : scan (lead u.toList) = .closed scheme authority) : newURL w url = newURL w u := by
  rw [newURL, newURL, scan_clean_of_closed hu h]

/-- An upstream that is delimited and begins an HTTP URL has ended. -/
theorem closed_of_delimited {cs : List Char} (hu : Delimited u)
    (hbegins : lead u.toList <+: cs) (hcs : (scan cs).Http) :
    ∃ scheme authority, scan (lead u.toList) = .closed scheme authority := by
  obtain ⟨t, rfl⟩ := hbegins
  unfold Delimited at hu
  cases hscan : scan (lead u.toList) with
  | closed scheme authority => exact ⟨scheme, authority, rfl⟩
  | opened scheme authority =>
      rw [hscan] at hu
      exact hu.elim
  | scheme s =>
      rw [hscan] at hu
      exact absurd hcs (scan_scheme_dead hscan hu)
  | other scheme rest =>
      refine absurd hcs (scan_dead (by rw [hscan]; exact id) (fun s hs => ?_))
      rw [hscan] at hs
      cases hs
  | invalid =>
      refine absurd hcs (scan_dead (by rw [hscan]; exact id) (fun s hs => ?_))
      rw [hscan] at hs
      cases hs

theorem lead_mono {cs cs' : List Char} (h : cs <+: cs') : lead cs <+: lead cs' := by
  obtain ⟨t, rfl⟩ := h
  by_cases hnil : cs.dropWhile isBlank = []
  · rw [lead_eq_nil hnil]
    exact List.nil_prefix
  · rw [lead_append hnil]
    exact List.prefix_append _ _

/-- A rendered origin does not hold the end of an authority. -/
theorem scan_originText {scheme authority : List Char} {host : Host}
    (hscheme : scheme = http ∨ scheme = https) (hhost : w.authority scheme authority = some host) :
    ∃ s a, scan (lead (parsed scheme host).originText) = .opened s a := by
  have hport : ∀ c ∈ (host.port.map (fun n => ':' :: Nat.toDigits 10 n)).getD [],
      isTerminator c = false := by
    intro c hc
    cases hn : host.port with
    | none =>
        rw [hn] at hc
        cases hc
    | some n =>
        rw [hn] at hc
        rcases List.mem_cons.mp hc with rfl | hc
        · decide
        · have hdigit : c.isDigit = true := Nat.isDigit_of_mem_toDigits (by decide) (by decide) hc
          cases hterm : isTerminator c with
          | false => rfl
          | true =>
              simp only [isTerminator, Bool.or_eq_true, beq_iff_eq] at hterm
              rcases hterm with ((rfl | rfl) | rfl) | rfl <;> revert hdigit <;> decide
  have hgo : ∀ c ∈ (host.hostname ++ (host.port.map (fun n => ':' :: Nat.toDigits 10 n)).getD []).filter
      (fun c => !isTabOrNewline c), isTerminator c = false := by
    intro c hc
    rcases List.mem_append.mp (List.mem_filter.mp hc).1 with hc | hc
    · exact w.hostname_chars _ _ _ hhost c hc
    · exact hport c hc
  have hlead : lead (parsed scheme host).originText = lead (scheme ++ [':', '/', '/']) ++
      (host.hostname ++ (host.port.map (fun n => ':' :: Nat.toDigits 10 n)).getD []).filter
        (fun c => !isTabOrNewline c) := by
    rw [← lead_append (by rcases hscheme with rfl | rfl <;> decide)]
    simp only [ParsedUrl.originText, parsed, List.append_assoc, List.cons_append, List.nil_append]
  have hopened : scan (lead (scheme ++ [':', '/', '/'])) = .opened scheme [] := by
    rcases hscheme with rfl | rfl <;> decide
  rw [hlead]
  exact ⟨_, _, (scan_opened hgo hopened).1⟩

theorem scheme_of_scan {cs scheme authority : List Char}
    (h : scan cs = .opened scheme authority ∨ scan cs = .closed scheme authority) :
    scheme = http ∨ scheme = https := by
  rcases h with h | h
  · exact (scan_opened (t := []) (by simp) h).2
  · exact (scan_closed (t := []) h).2

/-- So no delimited upstream is the beginning of one. -/
theorem not_prefix_originText {scheme authority : List Char} {host : Host} (hu : Delimited u)
    (hscheme : scheme = http ∨ scheme = https) (hhost : w.authority scheme authority = some host) :
    ¬ u.toList <+: (parsed scheme host).originText := by
  intro hbegins
  obtain ⟨s, a, hopened⟩ := scan_originText hscheme hhost
  obtain ⟨t, ht⟩ := lead_mono hbegins
  have hhttp : (scan (lead (parsed scheme host).originText)).Http := by
    rw [hopened]
    trivial
  obtain ⟨s', a', hclosed⟩ := closed_of_delimited hu ⟨t, ht⟩ hhttp
  rw [← ht, (scan_closed hclosed).1] at hopened
  cases hopened

/-- What a delimited upstream lets through has its origin. -/
theorem ofUpstream_of_delimited (hu : Delimited u) (hmem : u ∈ allowedUpstreams)
    (hp : newURL w url = some p) (hb : blocked p activePorts = none)
    (hlisted : u.toList <+: p.originText ∨ u.toList <+: url.toList) :
    OfUpstream w url allowedUpstreams := by
  obtain ⟨scheme, authority, host, hscan, hhost, rfl⟩ := newURL_http hp hb
  rcases hlisted with horigin | hurl
  · exact absurd horigin (not_prefix_originText hu (scheme_of_scan hscan) hhost)
  · have hhttp : (scan (clean url.toList)).Http := by
      rcases hscan with hscan | hscan <;> rw [hscan] <;> trivial
    obtain ⟨s, a, hclosed⟩ := closed_of_delimited hu (lead_mono hurl) (scan_clean_http hhttp)
    refine ⟨_, u, _, hp, hmem, ?_, rfl⟩
    rw [← newURL_of_closed hurl hclosed, hp]

/-! ### Upstreams that go on -/

/-- A host of nothing but `a`. -/
def strange (n : ℕ) : List Char := List.replicate (n + 1) 'a'

theorem strange_plain {n : ℕ} : ∀ c ∈ '@' :: strange n,
    isTerminator c = false ∧ isTabOrNewline c = false ∧ isBlank c = false ∧ isSlash c = false := by
  intro c hc
  rcases List.mem_cons.mp hc with rfl | hc
  · decide
  · rw [List.eq_of_mem_replicate hc]
    decide

theorem strange_last {n : ℕ} {cs : List Char} :
    isBlank ((cs ++ '@' :: strange n).getLast (by simp)) = false := by
  have hlast : (cs ++ '@' :: strange n).getLast (by simp) = 'a' := by
    simp [strange, List.replicate_succ']
  rw [hlast]
  decide

/-- No text of the tables begins with `a`. -/
theorem any_false_of_head {hosts : List String} {t : List Char → List Char → Bool} {l : List Char}
    (hosts_head : ∀ h ∈ hosts, h.toList.head? ≠ some 'a' ∧ h.toList ≠ [])
    (ht : ∀ cs, t cs ('a' :: l) = true → cs <+: 'a' :: l) :
    hosts.any (fun h => t h.toList ('a' :: l)) = false := by
  refine List.any_eq_false.mpr (fun h hh hany => ?_)
  obtain ⟨hhead, hne⟩ := hosts_head h hh
  obtain ⟨more, hmore⟩ := ht _ hany
  cases hcs : h.toList with
  | nil => exact hne hcs
  | cons c cs =>
      rw [hcs, List.cons_append] at hmore
      rw [hcs, (List.cons.inj hmore).1] at hhead
      exact hhead rfl

theorem isLocalhost_strange (n : ℕ) : isLocalhost ('a' :: List.replicate n 'a') = false := by
  have hdot : ¬ ".localhost".toList <:+ 'a' :: List.replicate n 'a' := by
    intro h
    have hmem : '.' ∈ 'a' :: List.replicate n 'a' := h.subset (by decide)
    rw [← List.replicate_succ] at hmem
    exact absurd (List.eq_of_mem_replicate hmem) (by decide)
  simp only [isLocalhost, Bool.or_eq_false_iff]
  refine ⟨⟨⟨?_, ?_⟩, ?_⟩, ?_⟩
  · simp
  · simp
  · simp
  · rwa [Bool.eq_false_iff, ne_eq, List.isSuffixOf_iff_suffix]

theorem blocked_eq_none {p : ParsedUrl} {ports : List ℕ}
    (hprotocol : p.protocol = http ++ [':'] ∨ p.protocol = https ++ [':'])
    (hmetadata : blockedMetadataHosts.any (fun h => h.toList == p.hostname.map Char.toLower) = false)
    (hipv4 : privateIpv4.any (fun h => h.toList.isPrefixOf (p.hostname.map Char.toLower)) = false)
    (hipv6 : loopbackIpv6.any (fun h => h.toList.isPrefixOf (p.hostname.map Char.toLower)) = false)
    (hlocal : isLocalhost (p.hostname.map Char.toLower) = false) : blocked p ports = none := by
  unfold blocked
  dsimp only
  rw [if_neg (fun h => hprotocol.elim h.1 h.2), if_neg (Bool.eq_false_iff.mp hmetadata),
    if_neg (Bool.eq_false_iff.mp hipv4), if_neg (Bool.eq_false_iff.mp hipv6),
    if_neg (by rw [hlocal, Bool.false_and]; exact Bool.false_ne_true),
    if_neg (by rw [hlocal, Bool.false_and]; exact Bool.false_ne_true)]

theorem blocked_strange {scheme : List Char} {n : ℕ} (hscheme : scheme = http ∨ scheme = https) :
    blocked (parsed scheme ⟨strange n, none⟩) [] = none := by
  have hlower : (strange n).map Char.toLower = 'a' :: List.replicate n 'a' := by
    rw [strange, List.map_replicate, List.replicate_succ]
    rfl
  refine blocked_eq_none ?_ ?_ ?_ ?_ ?_
  · exact hscheme.imp (congrArg (· ++ [':'])) (congrArg (· ++ [':']))
  · show blockedMetadataHosts.any (fun h => h.toList == (strange n).map Char.toLower) = false
    rw [hlower]
    exact any_false_of_head (t := fun cs l => cs == l) (by simp [blockedMetadataHosts])
      (fun cs h => beq_iff_eq.mp h ▸ List.prefix_rfl)
  · show privateIpv4.any (fun h => h.toList.isPrefixOf ((strange n).map Char.toLower)) = false
    rw [hlower]
    exact any_false_of_head (by simp [privateIpv4]) (fun cs h => List.isPrefixOf_iff_prefix.mp h)
  · show loopbackIpv6.any (fun h => h.toList.isPrefixOf ((strange n).map Char.toLower)) = false
    rw [hlower]
    exact any_false_of_head (by simp [loopbackIpv6]) (fun cs h => List.isPrefixOf_iff_prefix.mp h)
  · show isLocalhost ((strange n).map Char.toLower) = false
    rw [hlower]
    exact isLocalhost_strange n

/-- No entry of the allowlist has a host that is long enough. -/
theorem exists_strange (w : Platform) (allowedUpstreams : List String) :
    ∃ n, ∀ u ∈ allowedUpstreams, ∀ q, newURL w u = some q → q.hostname ≠ strange n := by
  have hbound : ∃ n, ∀ u ∈ allowedUpstreams, ∀ q, newURL w u = some q → q.hostname.length ≤ n := by
    induction allowedUpstreams with
    | nil => exact ⟨0, fun u hu => absurd hu (by simp)⟩
    | cons u us ih =>
        obtain ⟨n, hn⟩ := ih
        refine ⟨n + ((newURL w u).map (fun q => q.hostname.length)).getD 0, fun v hv q hq => ?_⟩
        rcases List.mem_cons.mp hv with rfl | hv
        · rw [hq]
          show _ ≤ n + q.hostname.length
          omega
        · have := hn v hv q hq
          omega
  obtain ⟨n, hn⟩ := hbound
  refine ⟨n, fun u hu q hq heq => ?_⟩
  have := hn u hu q hq
  rw [heq, strange, List.length_replicate] at this
  omega

/-- An upstream that goes on goes on to a strange host. -/
theorem reaches_strange (hu : ¬ Delimited u) (n : ℕ) :
    ∃ url scheme, (scheme = http ∨ scheme = https) ∧ u.toList <+: url.toList ∧
      newURL w url = some (parsed scheme ⟨strange n, none⟩) := by
  have hcleaned : ∀ more : List Char, (∀ c ∈ more, isTabOrNewline c = false ∧ isBlank c = false) →
      clean (u.toList ++ (more ++ '@' :: strange n)) = lead u.toList ++ (more ++ '@' :: strange n) := by
    intro more hmore
    have hplain : ∀ c ∈ more ++ '@' :: strange n, isTabOrNewline c = false ∧ isBlank c = false := by
      intro c hc
      rcases List.mem_append.mp hc with hc | hc
      · exact hmore c hc
      · exact ⟨(strange_plain c hc).2.1, (strange_plain c hc).2.2.1⟩
    rw [clean_append (by simp) strange_last]
    exact lead_append_plain (fun c hc => (hplain c hc).1)
      (fun c hc => (hplain c (List.mem_of_mem_head? hc)).2)
  have hstrange : ∀ c ∈ '@' :: strange n, isTerminator c = false :=
    fun c hc => (strange_plain c hc).1
  unfold Delimited at hu
  split at hu
  next s hscan =>
    obtain ⟨more, hmore, hgo⟩ := scan_scheme_complete (l := '@' :: strange n) hscan (not_not.mp hu)
      hstrange (fun c hc => (strange_plain c (List.mem_of_mem_head? hc)).2.2.2)
    have hcolon : ∀ c ∈ more ++ [':'], isTabOrNewline c = false ∧ isBlank c = false := by
      intro c hc
      rcases List.mem_append.mp hc with hc | hc
      · exact hmore c hc
      · rw [List.mem_singleton.mp hc]
        decide
    refine ⟨String.ofList (u.toList ++ (more ++ [':'] ++ '@' :: strange n)), https, Or.inr rfl, ?_, ?_⟩
    · rw [String.toList_ofList]
      exact List.prefix_append _ _
    · rw [newURL, String.toList_ofList, hcleaned _ hcolon, List.append_assoc, List.singleton_append,
        hgo]
      show (w.authority https ([] ++ '@' :: strange n)).map _ = _
      rw [strange, w.userinfo https [] n (by simp)]
      rfl
  next scheme authority hscan =>
    obtain ⟨hgo, hscheme⟩ := scan_opened hstrange hscan
    refine ⟨String.ofList (u.toList ++ ([] ++ '@' :: strange n)), scheme, hscheme, ?_, ?_⟩
    · rw [String.toList_ofList]
      exact List.prefix_append _ _
    · rw [newURL, String.toList_ofList, hcleaned [] (by simp), List.nil_append, hgo]
      show (w.authority scheme (authority ++ '@' :: strange n)).map _ = _
      rw [strange, w.userinfo scheme authority n (scan_authority_chars hscan)]
      rfl
  next => exact absurd trivial hu

/-! ### The policy -/

/-- Exactly when every upstream is written past the end of its authority is an allowed URL
one of theirs. -/
theorem checkProxyUrl_defaultDeny_iff (w : Platform) (allowedUpstreams : List String) :
    (∀ url activePorts, (checkProxyUrl w url allowedUpstreams activePorts).allowed = true →
      OfUpstream w url allowedUpstreams) ↔ ∀ u ∈ allowedUpstreams, Delimited u := by
  constructor
  · intro hdeny u hu
    by_contra hopen
    obtain ⟨n, hn⟩ := exists_strange w allowedUpstreams
    obtain ⟨url, scheme, hscheme, hbegins, hurl⟩ := reaches_strange (w := w) hopen n
    have hallowed : (checkProxyUrl w url allowedUpstreams []).allowed = true :=
      allowed_iff.mpr ⟨_, hurl, blocked_strange hscheme, u, hu, Or.inr hbegins⟩
    obtain ⟨p, v, q, hp, hv, hq, horigin⟩ := hdeny url [] hallowed
    rw [hurl] at hp
    refine hn v hv q hq ?_
    rw [← Option.some.inj hp] at horigin
    exact (congrArg Origin.hostname horigin).symm
  · intro hall url activePorts hallowed
    obtain ⟨p, hp, hb, u, hu, hlisted⟩ := allowed_iff.mp hallowed
    exact ofUpstream_of_delimited (hall u hu) hu hp hb hlisted

def isPlainChar (c : Char) : Bool := c.isAlphanum || c == '.' || c == '-'

/-- A host name of letters, digits, dots and hyphens, after the last `@`, and no port. -/
def plainAuthority (_scheme cs : List Char) : Option Host :=
  let host := (cs.rtakeWhile (· != '@')).map Char.toLower
  if host ≠ [] ∧ host.all isPlainChar = true then some ⟨host, none⟩ else none

theorem after_userinfo (cs : List Char) (n : ℕ) :
    (cs ++ '@' :: List.replicate (n + 1) 'a').rtakeWhile (· != '@') = List.replicate (n + 1) 'a' := by
  rw [List.rtakeWhile, List.reverse_append, List.reverse_cons, List.append_assoc,
    List.reverse_replicate, List.takeWhile_append_of_pos
      (fun c hc => by rw [List.eq_of_mem_replicate hc]; decide)]
  simp

theorem plainAuthority_chars (scheme cs : List Char) (h : Host)
    (hh : plainAuthority scheme cs = some h) : ∀ c ∈ h.hostname, isTerminator c = false := by
  intro c hc
  simp only [plainAuthority, Option.ite_none_right_eq_some, Option.some.injEq] at hh
  obtain ⟨⟨-, hplain⟩, rfl⟩ := hh
  rw [Bool.eq_false_iff]
  intro hterm
  have hc := List.all_eq_true.mp hplain c hc
  simp only [isTerminator, Bool.or_eq_true, beq_iff_eq] at hterm
  rcases hterm with ((rfl | rfl) | rfl) | rfl <;> revert hc <;> decide

theorem plainAuthority_userinfo (scheme cs : List Char) (n : ℕ) :
    plainAuthority scheme (cs ++ '@' :: List.replicate (n + 1) 'a') =
      some ⟨List.replicate (n + 1) 'a', none⟩ := by
  have hlower : (List.replicate (n + 1) 'a').map Char.toLower = List.replicate (n + 1) 'a' := by
    rw [List.map_replicate]
    rfl
  simp only [plainAuthority, after_userinfo, hlower]
  rw [if_pos ⟨by simp, List.all_eq_true.mpr
    (fun c hc => by rw [List.eq_of_mem_replicate hc]; decide)⟩]

/-- A platform that knows plain host names only. -/
def plainPlatform : Platform where
  authority := plainAuthority
  other := fun _ _ => none
  hostname_chars := plainAuthority_chars
  userinfo := fun scheme cs n _ => plainAuthority_userinfo scheme cs n

/-- The host of an upstream goes on, or becomes a user name. -/
theorem host_prefix_and_userinfo_allowed :
    (∃ url, url = "https://api.example.com.evil.com/" ∧
      (checkProxyUrl plainPlatform url ["https://api.example.com"] []).allowed = true ∧
      ¬ OfUpstream plainPlatform url ["https://api.example.com"]) ∧
    (∃ url, url = "https://api.example.com@evil.com/" ∧
      (checkProxyUrl plainPlatform url ["https://api.example.com"] []).allowed = true ∧
      ¬ OfUpstream plainPlatform url ["https://api.example.com"]) := by
  have hupstream : newURL plainPlatform "https://api.example.com" =
      some ⟨https ++ [':'], "api.example.com".toList, none⟩ := by decide
  have hurl : newURL plainPlatform "https://api.example.com.evil.com/" =
      some ⟨https ++ [':'], "api.example.com.evil.com".toList, none⟩ := by decide
  have huser : newURL plainPlatform "https://api.example.com@evil.com/" =
      some ⟨https ++ [':'], "evil.com".toList, none⟩ := by decide
  refine ⟨⟨_, rfl, by decide, ?_⟩, ⟨_, rfl, by decide, ?_⟩⟩
  · rintro ⟨p, u, q, hp, hu, hq, heq⟩
    rw [List.mem_singleton.mp hu, hupstream] at hq
    rw [hurl] at hp
    rw [← Option.some.inj hp, ← Option.some.inj hq] at heq
    revert heq
    decide
  · rintro ⟨p, u, q, hp, hu, hq, heq⟩
    rw [List.mem_singleton.mp hu, hupstream] at hq
    rw [huser] at hp
    rw [← Option.some.inj hp, ← Option.some.inj hq] at heq
    revert heq
    decide

end RedFireForge.ApiMock
