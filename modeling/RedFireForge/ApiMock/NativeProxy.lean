/-
# `RedFireForge.ApiMock.NativeProxy` — what the native mock server fetches

A request that no route matches is sent on to an allowed upstream, and redirects are followed.
Each URL on the way passes the policy: a scheme, a host and a port are refused outright, and
the allowlist asks for a prefix of the URL or of its origin.  The policy knows some addresses
by their bytes and some by their text.

URLs are parsed as far as scheme and authority go; what is in an authority, what a redirect is
joined to and what a name is resolved to are left to the platform.
-/
import RedFireForge.ApiMock.ProxyPolicy
import RedFireForge.ApiMock.NativeSelector
import RedFireForge.Lib.Address

namespace RedFireForge.ApiMock

open RedFireForge.Lib

local instance neZero_byte : NeZero (255 + 1) := ⟨nofun⟩

/-! ## URLs -/

inductive UrlHost
  | domain (name : List Char)
  | ipv4 (a : Ipv4)
  | ipv6 (a : Ipv6)
deriving DecidableEq, Repr

/-- `host_str` -/
def UrlHost.text : UrlHost → List Char
  | .domain name => name
  | .ipv4 a => a.text
  | .ipv6 a => '[' :: (a.text ++ [']'])

/-- A port that is the default of its scheme is left out. -/
structure Authority where
  username : List Char
  password : Option (List Char)
  host : UrlHost
  port : Option ℕ
deriving DecidableEq, Repr

structure NativeUrl extends Authority where
  scheme : List Char
deriving DecidableEq, Repr

/-- What an authority is parsed to under a scheme, and a URL with another scheme, and what a
redirect leads to.  A domain holds no character that ends an authority; and what comes before
an `@` is not part of the host. -/
structure NativePlatform where
  authority : List Char → List Char → Option Authority
  other : List Char → List Char → Option Authority
  join : String → String → Except String String
  domain_chars : ∀ scheme cs a name, authority scheme cs = some a → a.host = .domain name →
    ∀ c ∈ name, isTerminator c = false
  userinfo : ∀ scheme cs n, (∀ c ∈ cs, isTerminator c = false) →
    ∃ a, authority scheme (cs ++ '@' :: List.replicate (n + 1) 'a') = some a ∧
      a.host = .domain (List.replicate (n + 1) 'a') ∧ a.port = none

/-- `Url::parse` -/
def parseUrl (w : NativePlatform) (url : String) : Option NativeUrl :=
  match scan (clean url.toList) with
  | .opened scheme authority => (w.authority scheme authority).map (⟨·, scheme⟩)
  | .closed scheme authority => (w.authority scheme authority).map (⟨·, scheme⟩)
  | .other scheme rest => (w.other scheme rest).map (⟨·, scheme⟩)
  | _ => none

def NativeUrl.effectivePort (u : NativeUrl) : ℕ := u.port.getD (if u.scheme = https then 443 else 80)

def stripBrackets : List Char → List Char
  | '[' :: cs => if cs.getLast? = some ']' then cs.dropLast else '[' :: cs
  | cs => cs

def hostnameOf (host : UrlHost) : List Char := stripBrackets (host.text.map Char.toLower)

def urlHostname (u : NativeUrl) : List Char := hostnameOf u.host

/-- The origin as `check_proxy_url` writes it. -/
def NativeUrl.originText (u : NativeUrl) : List Char :=
  u.scheme ++ [':', '/', '/'] ++ urlHostname u ++
    (u.port.map (fun n => ':' :: Nat.toDigits 10 n)).getD []

/-! ## The policy -/

namespace NativeProxy

def ipv4IsPrivateOrReserved (ip : Ipv4) : Bool :=
  ip.isPrivate || ip.isLinkLocal || ip.isUnspecified || ip.a == 0

/-- Only what has been read as an address is one: a domain does not end in a number. -/
def ipv4FromHostname : UrlHost → Option Ipv4
  | .domain _ => none
  | .ipv4 a => some a
  | .ipv6 a => a.toIpv4Mapped

/-- `parse::<u8>()` -/
def parseU8 (cs : List Char) : Option ℕ :=
  let digits := match cs with
    | '+' :: ds => ds
    | ds => ds
  if digits ≠ [] ∧ digits.all Char.isDigit = true ∧ Nat.ofDigitChars 10 digits 0 < 256 then
    some (Nat.ofDigitChars 10 digits 0)
  else none

def isGrpcPrivateIpv4Host (hostname : List Char) : Bool :=
  ["10.", "169.254.", "192.168.", "0."].any (fun s => s.toList.isPrefixOf hostname) ||
    ("172.".toList.isPrefixOf hostname &&
      let rest := hostname.drop 4
      rest.contains '.' &&
        (parseU8 (rest.takeWhile (· != '.'))).any fun n => decide (16 ≤ n ∧ n ≤ 31))

def isBlockedPrivateIpv4Host (hostname : List Char) : Bool :=
  "127.".toList.isPrefixOf hostname || isGrpcPrivateIpv4Host hostname

def isBlockedIpv4 (u : NativeUrl) : Bool :=
  match ipv4FromHostname u.host with
  | some v4 => ipv4IsPrivateOrReserved v4 || v4.isLoopback
  | none => isBlockedPrivateIpv4Host (urlHostname u)

structure PolicyCheck where
  allowed : Bool
  reason : Option String
deriving DecidableEq, Repr

def deny (reason : String) : PolicyCheck := ⟨false, some reason⟩

/-- Why the scheme, the host or the port is refused, whatever the allowlist says. -/
def denial (u : NativeUrl) (activePorts : List ℕ) : Option String :=
  let hostname := urlHostname u
  let port := u.effectivePort
  if u.scheme ≠ http ∧ u.scheme ≠ https then
    some ("Unsupported protocol: " ++ String.ofList u.scheme ++ ":")
  else if blockedMetadataHosts.any (fun h => h.toList == hostname) then
    some ("Blocked metadata host: " ++ String.ofList hostname)
  else if isBlockedIpv4 u then some ("Blocked private IPv4: " ++ String.ofList hostname)
  else if hostname == "::1".toList || "fe80:".toList.isPrefixOf hostname then
    some ("Blocked IPv6 loopback: " ++ String.ofList hostname)
  else if isLocalhost hostname && activePorts.contains port then
    some ("Self-recursion: port " ++ toString port ++ " is an active mock listener")
  else if isLocalhost hostname && port == 3001 then
    some "Blocked: control plane port 3001"
  else none

def checkProxyUrl (w : NativePlatform) (url : String) (allowedUpstreams : List String)
    (activePorts : List ℕ) : PolicyCheck :=
  match parseUrl w url with
  | none => deny ("Invalid URL: " ++ url)
  | some u =>
      match denial u activePorts with
      | some reason => deny reason
      | none =>
          if allowedUpstreams.any fun s => s.toList.isPrefixOf u.originText ||
              s.toList.isPrefixOf url.toList then ⟨true, none⟩
          else deny ("Host not in allowlist: " ++ String.ofList u.originText)

/-! ### Where private networks are blocked -/

def stripDot (hostname : List Char) : List Char :=
  if hostname.getLast? = some '.' then hostname.dropLast else hostname

def isIpv4Loopback : UrlHost → Bool
  | .ipv4 a => a.isLoopback
  | _ => false

def outboundDenial (u : NativeUrl) : Option String :=
  let hostname := stripDot (urlHostname u)
  let loc := isLocalhost hostname || hostname == "127.0.0.1".toList
  if u.scheme ≠ http ∧ u.scheme ≠ https then some "Outbound fetch URL must use http or https"
  else if u.username ≠ [] ∨ u.password.isSome then
    some "Outbound fetch URL must not include embedded credentials"
  else if hostname = "metadata.google.internal".toList ∨ hostname = "metadata.goog".toList then
    some ("Outbound fetch blocked for host: " ++ String.ofList hostname)
  else if u.scheme = http ∧ loc = false then
    some "http:// outbound fetch is allowed only for localhost in dev mode"
  else if u.scheme = https ∧ (isIpv4Loopback u.host || isLocalhost hostname) then
    some "https:// outbound fetch to loopback hosts is not allowed"
  else if isGrpcPrivateIpv4Host hostname ∧ hostname ≠ "127.0.0.1".toList then
    some ("Outbound fetch blocked for private network host: " ++ String.ofList hostname)
  else if hostname.head? = some '[' ∨ '%' ∈ hostname then
    some "IPv6 literal hosts are not supported for outbound fetch"
  else none

def isIpv4 : UrlHost → Bool
  | .ipv4 _ => true
  | _ => false

def shouldSkipDns (u : NativeUrl) : Bool :=
  let hostname := stripDot (urlHostname u)
  isIpv4 u.host || hostname.head? == some '[' || hostname.contains ':' || isLocalhost hostname

def isPrivateOrReservedV6 (ip : Ipv6) : Bool :=
  ip.isUnspecified || ip.isLoopback || ip.isUniqueLocal || ip.isLinkLocal

/-- A mapped address counts as the one it maps. -/
def unmapped : Ip → Ip
  | .v6 a => a.toIpv4Mapped.elim (.v6 a) .v4
  | .v4 a => .v4 a

def rejectResolved (ip : Ip) (scheme : List Char) : Option String :=
  let blocked := fun (kind : String) (text : List Char) =>
    some ("Outbound fetch DNS resolution blocked " ++ kind ++ " address: " ++ String.ofList text)
  match unmapped ip with
  | .v4 a =>
      if scheme = https ∧ a.isLoopback then blocked "loopback" a.text
      else if ipv4IsPrivateOrReserved a ∧ a ≠ ⟨127, 0, 0, 1⟩ then blocked "private network" a.text
      else none
  | .v6 a =>
      if a.isLoopback then blocked "loopback" a.text
      else if isPrivateOrReservedV6 a then blocked "private network" a.text
      else none

/-- `none` when the URL may be fetched, given what its name is resolved to. -/
def validateOutboundUrlWithDns (w : NativePlatform) (rawUrl : String)
    (lookup : Except String (List Ip)) : Option String :=
  match parseUrl w (String.ofList (Native.trimWhitespace rawUrl.toList)) with
  | none => some "Invalid outbound fetch URL"
  | some u =>
      let hostname := String.ofList (stripDot (urlHostname u))
      match outboundDenial u with
      | some e => some e
      | none =>
          if shouldSkipDns u then none
          else
            match lookup with
            | .error e =>
                some ("Outbound fetch DNS resolution failed for host: " ++ hostname ++ ": " ++ e)
            | .ok [] =>
                some ("Outbound fetch DNS resolution returned no addresses for host: " ++ hostname)
            | .ok addrs => addrs.findSome? (rejectResolved · u.scheme)

/-! ## Requests -/

abbrev Headers := List (String × String)

structure CapturedRequest where
  method : String
  headers : List (String × List String)
  body : Option String

structure ProxySettings where
  allowlist : List String
  blockPrivateNetworks : Bool
  maxRedirects : ℕ
  stripHopByHop : Bool
  forwardAuth : Bool
  forwardCredentialHeaders : List String
  timeoutMs : ℕ
  maxResponseBytes : ℕ

structure PreparedProxyRequest where
  method : String
  url : String
  headers : Headers
  body : Option String
  timeoutMs : ℕ

structure ProxyFetchResponse where
  status : ℕ
  headers : Headers
  body : List UInt8

structure ProxyExecutorResult where
  ok : Bool
  status : ℕ
  headers : Headers
  body : List UInt8
  error : Option String
  redirected : Bool

def fail (error : String) : ProxyExecutorResult := ⟨false, 502, [], [], some error, false⟩

def antiRecursionHeader : String := "x-redfireforge-mock"

def hopByHop : List String :=
  ["connection", "keep-alive", "proxy-authenticate", "proxy-authorization", "proxy-connection",
    "te", "trailer", "transfer-encoding", "upgrade"]

def credentialHeaders : List String :=
  ["authorization", "proxy-authorization", "cookie", "x-api-key", "api-key", "x-auth-token"]

/-- The headers but those of some names. -/
def without (names : List String) (headers : Headers) : Headers :=
  headers.filter fun h => !names.any (Native.eqIgnoreAsciiCase h.1)

def stripCredentialHeaders (headers : Headers) (forwardList : List String) : Headers :=
  let allowed := forwardList.map Native.toAsciiLowercase
  headers.filter fun h =>
    !credentialHeaders.contains (Native.toAsciiLowercase h.1) ||
      allowed.contains (Native.toAsciiLowercase h.1)

def flattenInboundHeaders (headers : List (String × List String)) : Headers :=
  (headers.filter fun h => !(h.1.toList.head? == some ':') && !h.2.isEmpty).map fun h =>
    (h.1, String.intercalate (if Native.eqIgnoreAsciiCase h.1 "cookie" then "; " else ", ") h.2)

def requestHeaders (captured : CapturedRequest) (proxy : ProxySettings) : Headers :=
  let forwardList := if proxy.forwardAuth then proxy.forwardCredentialHeaders else []
  let headers := flattenInboundHeaders captured.headers
  let headers := if proxy.stripHopByHop then without hopByHop headers else headers
  let headers := stripCredentialHeaders headers forwardList
  let headers := without [antiRecursionHeader] headers ++ [(antiRecursionHeader, "true")]
  without ["host", "content-length"] headers

def maxRedirectsLimit : ℕ := 10

def maxTimeoutMs : ℕ := 60000

def maxResponseBytesLimit : ℕ := 10485760

def prepare (captured : CapturedRequest) (proxy : ProxySettings) (url : String) :
    PreparedProxyRequest :=
  let method := if captured.method = "" then "GET" else captured.method
  let bodiless := ["GET", "HEAD"].any (Native.eqIgnoreAsciiCase method)
  { method
    url
    headers := requestHeaders captured proxy
    body := if bodiless then none else captured.body
    timeoutMs := max 1 (min proxy.timeoutMs maxTimeoutMs) }

theorem prepare_url (captured : CapturedRequest) (proxy : ProxySettings) (url : String) :
    (prepare captured proxy url).url = url := rfl

/-! ## Redirects -/

/-- What the world answers to one hop: the lookup of the name, and the fetch. -/
structure Answer where
  lookup : Except String (List Ip)
  fetched : Except String ProxyFetchResponse

/-- Where a response leads to; an empty location is not followed. -/
def redirectTo (res : ProxyFetchResponse) : Option String :=
  if 300 ≤ res.status ∧ res.status < 400 then
    ((res.headers.find? fun h => Native.eqIgnoreAsciiCase h.1 "location").map Prod.snd).filter
      (· ≠ "")
  else none

def finish (proxy : ProxySettings) (res : ProxyFetchResponse) (redirected : Bool) :
    ProxyExecutorResult :=
  let headers := without ["set-cookie"] res.headers
  let headers := if proxy.stripHopByHop then without hopByHop headers else headers
  { ok := true
    status := res.status
    headers := without ["content-length", "transfer-encoding", "content-encoding"] headers
    body := res.body.take (max 1 (min proxy.maxResponseBytes maxResponseBytesLimit))
    error := none
    redirected }

/-- How a hop ends: with what it has fetched and the result, `none` while an answer is waited
for; or with where its response leads to. -/
inductive Hop
  | stop (fetched : List PreparedProxyRequest) (result : Option ProxyExecutorResult)
  | next (url : String)

section Hops

variable (w : NativePlatform) (captured : CapturedRequest) (proxy : ProxySettings)
  (activePorts : List ℕ)

/-- The body of the loop. -/
def executeHop (redirected : Bool) (url : String) (answers : List Answer) : Hop :=
  let policy := checkProxyUrl w url proxy.allowlist activePorts
  if policy.allowed = false then .stop [] (some (fail (policy.reason.getD "policy rejected")))
  else
    match answers with
    | [] => .stop [] none
    | answer :: _ =>
        let error :=
          if proxy.blockPrivateNetworks then validateOutboundUrlWithDns w url answer.lookup else none
        match error with
        | some e => .stop [] (some (fail e))
        | none =>
            let prepared := prepare captured proxy url
            match answer.fetched with
            | .error e => .stop [prepared] (some (fail e))
            | .ok res =>
                match redirectTo res with
                | none => .stop [prepared] (some (finish proxy res redirected))
                | some loc =>
                    match w.join url loc with
                    | .error e => .stop [prepared] (some (fail e))
                    | .ok url => .next url

/-- The loop with so many redirects left. -/
def executeHops (left : ℕ) (redirected : Bool) (url : String) (answers : List Answer) :
    List PreparedProxyRequest × Option ProxyExecutorResult :=
  match executeHop w captured proxy activePorts redirected url answers with
  | .stop fetched result => (fetched, result)
  | .next next =>
      let prepared := prepare captured proxy url
      match left with
      | 0 => ([prepared], some (fail "Redirect limit exceeded"))
      | left + 1 =>
          let rest := executeHops left true next answers.tail
          (prepared :: rest.1, rest.2)

def executeProxyWith (upstreamUrl : String) (answers : List Answer) :
    List PreparedProxyRequest × Option ProxyExecutorResult :=
  executeHops w captured proxy activePorts (min proxy.maxRedirects maxRedirectsLimit) false
    upstreamUrl answers

end Hops

/-! ## What may be fetched -/

/-- The URL has scheme, host and effective port of an entry. -/
def OfAllowlist (w : NativePlatform) (url : String) (allowlist : List String) : Prop :=
  ∃ p s q, parseUrl w url = some p ∧ s ∈ allowlist ∧ parseUrl w s = some q ∧
    p.scheme = q.scheme ∧ p.host = q.host ∧ p.effectivePort = q.effectivePort

/-- Loopback, unspecified, private or link-local; among the last is 169.254.169.254. -/
def isInternalV4 (a : Ipv4) : Bool :=
  a.isLoopback || a.isUnspecified || a.isPrivate || a.isLinkLocal

/-- Also where it is mapped; among the unique local ones is fd00::1. -/
def isInternal : UrlHost → Bool
  | .domain _ => false
  | .ipv4 a => isInternalV4 a
  | .ipv6 a => a.isLoopback || a.isUnspecified || a.isLinkLocal || a.isUniqueLocal ||
      a.toIpv4Mapped.any isInternalV4

structure Safe (w : NativePlatform) (proxy : ProxySettings) (fetched : List PreparedProxyRequest) :
    Prop where
  listed : ∀ r ∈ fetched, OfAllowlist w r.url proxy.allowlist
  external : ∀ r ∈ fetched, ∀ u, parseUrl w r.url = some u → isInternal u.host = false
  bounded : fetched.length ≤ proxy.maxRedirects + 1
  credentials : ∀ r ∈ fetched, ∀ h ∈ r.headers, Native.toAsciiLowercase h.1 ∈ credentialHeaders →
    proxy.forwardAuth = true ∧
      ∃ f ∈ proxy.forwardCredentialHeaders, Native.toAsciiLowercase f = Native.toAsciiLowercase h.1

/-- The internal addresses that the policy lets through. -/
def isMissed : UrlHost → Bool
  | .ipv6 a => a.isUnspecified || (a.isLinkLocal && a.firstPiece != 0xfe80) ||
      (a.isUniqueLocal && a.text != "fd00::1".toList)
  | _ => false

/-- The entry is written past the end of its authority, or begins no HTTP URL; and its host is
not an address that is missed. -/
def EntryMeets (w : NativePlatform) (s : String) : Prop :=
  Delimited s ∧ ∀ u, parseUrl w s = some u → u.scheme = http ∨ u.scheme = https →
    isMissed u.host = false

/-! ## Hosts and their texts -/

section Hosts

variable {a : Ipv6} {host : UrlHost} {u : NativeUrl} {activePorts : List ℕ} {c : Char}

/-- What an address is written with. -/
theorem piece_plain (h : Ipv6.IsPiece c) :
    c.toLower = c ∧ isTerminator c = false ∧ c ≠ '.' ∧ c ≠ 'l' := by
  rcases h with rfl | ⟨d, hd, rfl⟩
  · decide
  · revert d
    decide

theorem not_begins {s l : List Char} (h : ¬ s <+: l) : s.isPrefixOf l = false := by
  rwa [Bool.eq_false_iff, ne_eq, List.isPrefixOf_iff_prefix]

theorem dot_not_mem_text (a : Ipv6) : '.' ∉ a.text :=
  fun h => (piece_plain (a.text_chars '.' h)).2.2.1 rfl

theorem hostnameOf_ipv6 (a : Ipv6) : hostnameOf (.ipv6 a) = a.text := by
  have hlower : a.text.map Char.toLower = a.text := by
    conv_rhs => rw [← List.map_id a.text]
    exact List.map_congr_left fun c hc => (piece_plain (a.text_chars c hc)).1
  have htext : (UrlHost.ipv6 a).text.map Char.toLower = '[' :: (a.text ++ [']']) := by
    rw [UrlHost.text, List.map_cons, List.map_append, hlower]
    rfl
  rw [hostnameOf, htext, stripBrackets, List.getLast?_concat, if_pos rfl, List.dropLast_concat]

/-- The text of an address in fe80::/16. -/
theorem fe80_begins (h : 4096 ≤ a.firstPiece) :
    "fe80:".toList <+: a.text ↔ a.firstPiece = 0xfe80 := by
  obtain ⟨rest, hrest⟩ := a.text_first (by omega)
  have hsmall := a.firstPiece_lt
  rw [hrest]
  constructor
  · rintro ⟨r, hr⟩
    exact (Ipv6.piece_of_begins (m := 0xfe80) (by omega) (by omega) hr).symm
  · intro hfirst
    rw [hfirst]
    exact ⟨rest, rfl⟩

theorem mapped_pieces {m : Ipv4} (h : a.toIpv4Mapped = some m) :
    a.firstPiece = 0 ∧ a.isUnspecified = false := by
  obtain ⟨pieces, height, hsmall⟩ := a
  unfold Ipv6.toIpv4Mapped at h
  split at h
  next hpieces =>
    dsimp only at hpieces
    subst hpieces
    exact ⟨rfl, rfl⟩
  next => cases h

/-! ### The policy on hosts -/

theorem denial_eq_none : denial u activePorts = none ↔
    (u.scheme = http ∨ u.scheme = https) ∧
    blockedMetadataHosts.any (fun h => h.toList == urlHostname u) = false ∧
    isBlockedIpv4 u = false ∧
    (urlHostname u == "::1".toList || "fe80:".toList.isPrefixOf (urlHostname u)) = false ∧
    (isLocalhost (urlHostname u) && activePorts.contains u.effectivePort) = false ∧
    (isLocalhost (urlHostname u) && u.effectivePort == 3001) = false := by
  unfold denial
  dsimp only
  constructor
  · intro h
    split at h
    · cases h
    next hscheme =>
      split at h
      · cases h
      next hmetadata =>
        split at h
        · cases h
        next hipv4 =>
          split at h
          · cases h
          next hipv6 =>
            split at h
            · cases h
            next hself =>
              split at h
              · cases h
              next hcontrol =>
                rw [not_and_or, not_not, not_not] at hscheme
                exact ⟨hscheme, eq_false_of_ne_true hmetadata, eq_false_of_ne_true hipv4,
                  eq_false_of_ne_true hipv6, eq_false_of_ne_true hself,
                  eq_false_of_ne_true hcontrol⟩
  · rintro ⟨hscheme, hmetadata, hipv4, hipv6, hself, hcontrol⟩
    rw [if_neg fun h => hscheme.elim h.1 h.2, if_neg (Bool.eq_false_iff.mp hmetadata),
      if_neg (Bool.eq_false_iff.mp hipv4), if_neg (Bool.eq_false_iff.mp hipv6),
      if_neg (Bool.eq_false_iff.mp hself), if_neg (Bool.eq_false_iff.mp hcontrol)]

theorem external_of_v4 {v4 : Ipv4} (h : (ipv4IsPrivateOrReserved v4 || v4.isLoopback) = false) :
    isInternalV4 v4 = false := by
  simp only [ipv4IsPrivateOrReserved, isInternalV4, Bool.or_eq_false_iff] at h ⊢
  exact ⟨⟨⟨h.2, h.1.1.2⟩, h.1.1.1.1⟩, h.1.1.1.2⟩

/-- What passes is internal only if it is missed. -/
theorem external_of_denial (h : denial u activePorts = none) (hmissed : isMissed u.host = false) :
    isInternal u.host = false := by
  obtain ⟨-, hmetadata, hipv4, hipv6, -⟩ := denial_eq_none.mp h
  unfold isBlockedIpv4 at hipv4
  unfold urlHostname at hmetadata hipv6
  cases hhost : u.host with
  | domain name => rfl
  | ipv4 a =>
      rw [hhost] at hipv4
      exact external_of_v4 hipv4
  | ipv6 a =>
      rw [hhost] at hipv4 hmissed
      rw [hhost, hostnameOf_ipv6] at hmetadata hipv6
      simp only [isMissed, Bool.or_eq_false_iff, Bool.and_eq_false_iff, bne_eq_false_iff_eq]
        at hmissed
      obtain ⟨⟨hunspecified, hlink⟩, hlocal⟩ := hmissed
      rw [Bool.or_eq_false_iff] at hipv6
      have hloopback : a.isLoopback = false := by
        rw [Bool.eq_false_iff]
        intro hloop
        have htext : a.text = "::1".toList := by
          rw [Ipv6.text, beq_iff_eq.mp hloop]
          decide
        rw [htext] at hipv6
        exact absurd hipv6.1 (by decide)
      have hlinkLocal : a.isLinkLocal = false := by
        refine hlink.elim id fun hfirst => ?_
        have hbegins := (fe80_begins (a := a) (by omega)).mpr hfirst
        rw [List.isPrefixOf_iff_prefix.mpr hbegins] at hipv6
        exact absurd hipv6.2 (by decide)
      have huniqueLocal : a.isUniqueLocal = false := by
        refine hlocal.elim id fun htext => ?_
        rw [htext] at hmetadata
        exact absurd hmetadata (by decide)
      have hmapped : a.toIpv4Mapped.any isInternalV4 = false := by
        cases hm : a.toIpv4Mapped with
        | none => rfl
        | some m =>
            rw [ipv4FromHostname, hm] at hipv4
            exact external_of_v4 hipv4
      rw [isInternal, hloopback, hunspecified, hlinkLocal, huniqueLocal, hmapped]
      rfl

theorem internal_of_missed (h : isMissed host = true) : isInternal host = true := by
  cases host with
  | ipv6 a =>
      simp only [isMissed, Bool.or_eq_true, Bool.and_eq_true] at h
      simp only [isInternal, Bool.or_eq_true]
      rcases h with (hunspecified | ⟨hlink, -⟩) | ⟨hlocal, -⟩
      · exact Or.inl (Or.inl (Or.inl (Or.inr hunspecified)))
      · exact Or.inl (Or.inl (Or.inr hlink))
      · exact Or.inl (Or.inr hlocal)
  | _ => cases h

/-- The policy does not know a missed address. -/
theorem text_of_missed (h : isMissed (.ipv6 a) = true) :
    a.text ≠ "fd00::1".toList ∧ a.text ≠ "::1".toList ∧ ¬ "fe80:".toList <+: a.text ∧
      a.toIpv4Mapped = none := by
  simp only [isMissed, Bool.or_eq_true, Bool.and_eq_true, bne_iff_ne] at h
  have hmapped : a.firstPiece ≠ 0 → a.toIpv4Mapped = none := by
    intro hne
    cases hm : a.toIpv4Mapped with
    | none => rfl
    | some m => exact absurd (mapped_pieces hm).1 hne
  have hcolons : a.firstPiece ≠ 0 → a.text ≠ "::1".toList := by
    intro hne htext
    refine a.text_head hne ?_
    rw [htext]
    rfl
  have hsmall := a.firstPiece_lt
  rcases h with (hunspecified | ⟨hlink, hfe80⟩) | ⟨hlocal, hfd00⟩
  · have htext : a.text = "::".toList := by
      rw [Ipv6.text, beq_iff_eq.mp hunspecified]
      decide
    have hnone : a.toIpv4Mapped = none := by
      cases hm : a.toIpv4Mapped with
      | none => rfl
      | some m =>
          rw [(mapped_pieces hm).2] at hunspecified
          cases hunspecified
    rw [htext]
    exact ⟨by decide, by decide, by decide, hnone⟩
  · have hrange := of_decide_eq_true hlink
    have hne : a.firstPiece ≠ 0 := by omega
    refine ⟨fun htext => ?_, hcolons hne,
      fun hbegins => hfe80 ((fe80_begins (by omega)).mp hbegins), hmapped hne⟩
    obtain ⟨rest, hrest⟩ := a.text_first hne
    have hpiece : Ipv6.pieceText 0xfd00 ++ ':' :: [':', '1'] =
        Ipv6.pieceText a.firstPiece ++ ':' :: rest := by
      rw [← hrest, htext]
      decide
    have := Ipv6.piece_of_begins (by omega) (by omega) hpiece
    omega
  · have hrange := of_decide_eq_true hlocal
    have hne : a.firstPiece ≠ 0 := by omega
    refine ⟨hfd00, hcolons hne, fun hbegins => ?_, hmapped hne⟩
    have := (fe80_begins (by omega)).mp hbegins
    omega

/-- A missed address passes. -/
theorem denial_of_missed (hscheme : u.scheme = http ∨ u.scheme = https)
    (h : isMissed u.host = true) : denial u activePorts = none := by
  cases hhost : u.host with
  | ipv6 a =>
      rw [hhost] at h
      have hname : urlHostname u = a.text := by rw [urlHostname, hhost, hostnameOf_ipv6]
      obtain ⟨hfd00, hloopback, hfe80, hmapped⟩ := text_of_missed h
      -- no text with a dot or an l begins or ends that of an address
      have hdot : ∀ s : List Char, '.' ∈ s → ¬ s <+: a.text ∧ ¬ s <:+ a.text ∧ s ≠ a.text := by
        intro s hs
        have hmem := dot_not_mem_text a
        exact ⟨fun hp => hmem (hp.subset hs), fun hp => hmem (hp.subset hs), fun heq => hmem (heq ▸ hs)⟩
      have hlocal : isLocalhost a.text = false := by
        simp only [isLocalhost, Bool.or_eq_false_iff, beq_eq_false_iff_ne]
        refine ⟨⟨⟨fun htext => ?_, fun htext => ?_⟩, hloopback⟩, ?_⟩
        · exact (piece_plain (a.text_chars 'l' (by rw [htext]; decide))).2.2.2 rfl
        · exact (hdot _ (by decide)).2.2 htext.symm
        · rw [Bool.eq_false_iff, ne_eq, List.isSuffixOf_iff_suffix]
          exact (hdot _ (by decide)).2.1
      have hipv4 : isBlockedIpv4 u = false := by
        have hdots : ∀ s ∈ ["10.", "169.254.", "192.168.", "0."], s.toList.isPrefixOf a.text = false := by
          intro s hs
          exact not_begins (hdot _ (by revert s; decide)).1
        have h127 : "127.".toList.isPrefixOf a.text = false := not_begins (hdot _ (by decide)).1
        have h172 : "172.".toList.isPrefixOf a.text = false := not_begins (hdot _ (by decide)).1
        rw [isBlockedIpv4, hhost, ipv4FromHostname, hmapped]
        dsimp only
        rw [hname, isBlockedPrivateIpv4Host, isGrpcPrivateIpv4Host, h127, h172,
          List.any_eq_false.mpr fun s hs => Bool.eq_false_iff.mp (hdots s hs)]
        rfl
      refine denial_eq_none.mpr ⟨hscheme, ?_, hipv4, ?_, ?_, ?_⟩
      · rw [hname, List.any_eq_false]
        intro s hs
        rw [beq_iff_eq]
        simp only [blockedMetadataHosts, List.mem_cons, List.not_mem_nil, or_false] at hs
        rcases hs with rfl | rfl | rfl | rfl
        · exact (hdot _ (by decide)).2.2
        · exact (hdot _ (by decide)).2.2
        · exact (hdot _ (by decide)).2.2
        · exact hfd00.symm
      · rw [hname, not_begins hfe80, Bool.or_false, beq_eq_false_iff_ne]
        exact hloopback
      · rw [hname, hlocal, Bool.false_and]
      · rw [hname, hlocal, Bool.false_and]
  | _ =>
      rw [hhost] at h
      cases h

end Hosts

/-! ## URLs and the allowlist -/

section Urls

variable {w : NativePlatform} {url s : String} {allowlist : List String} {activePorts : List ℕ}
  {u : NativeUrl} {scheme authority : List Char}

theorem lower_terminator {c : Char} (h : isTerminator c = false) : isTerminator c.toLower = false := by
  by_cases hupper : 'A' ≤ c ∧ c ≤ 'Z'
  · have hlower : ∀ n < 128, isTerminator (Char.ofNat n) = false →
        isTerminator (Char.ofNat n).toLower = false := by decide
    have hc : c.toNat < 128 := Nat.lt_of_le_of_lt (UInt32.le_iff_toNat_le.mp hupper.2) (by decide)
    have hp := hlower c.toNat hc
    rw [Char.ofNat_toNat] at hp
    exact hp h
  · have hsame : c.toLower = c := dif_neg fun hup => hupper hup
    rwa [hsame]

theorem stripBrackets_subset (cs : List Char) : stripBrackets cs ⊆ cs := by
  unfold stripBrackets
  split
  · split
    · exact fun c hc => List.mem_cons_of_mem _ (List.dropLast_subset _ hc)
    · exact fun c hc => hc
  · exact fun c hc => hc

theorem mem_stripBrackets {cs : List Char} {c : Char} (h : c ∈ cs) (hopen : c ≠ '[')
    (hclose : c ≠ ']') : c ∈ stripBrackets cs := by
  unfold stripBrackets
  split
  next cs =>
    have hc : c ∈ cs := (List.mem_cons.mp h).resolve_left hopen
    split
    next hlast =>
      obtain ⟨init, rfl⟩ := List.getLast?_eq_some_iff.mp hlast
      rw [List.dropLast_concat]
      exact (List.mem_append.mp hc).resolve_right fun hl => hclose (List.mem_singleton.mp hl)
    next => exact h
  next => exact h

theorem hostnameOf_chars {a : Authority} (ha : w.authority scheme authority = some a) :
    ∀ c ∈ hostnameOf a.host, isTerminator c = false := by
  have htext : ∀ c ∈ a.host.text, isTerminator c = false := by
    intro c hc
    cases hhost : a.host with
    | domain name =>
        rw [hhost] at hc
        exact w.domain_chars scheme authority a name ha hhost c hc
    | ipv4 x =>
        have hdigits : ∀ n : ℕ, ∀ c ∈ Nat.toDigits 10 n, isTerminator c = false := by
          intro n c hc
          have hdigit : c.isDigit = true := Nat.isDigit_of_mem_toDigits (by decide) (by decide) hc
          cases hterm : isTerminator c with
          | false => rfl
          | true =>
              simp only [isTerminator, Bool.or_eq_true, beq_iff_eq] at hterm
              rcases hterm with ((rfl | rfl) | rfl) | rfl <;> revert hdigit <;> decide
        have hdot : isTerminator '.' = false := by decide
        rw [hhost] at hc
        simp only [UrlHost.text, Ipv4.text, List.mem_append, List.mem_cons] at hc
        rcases hc with hc | rfl | hc | rfl | hc | rfl | hc
        · exact hdigits _ c hc
        · exact hdot
        · exact hdigits _ c hc
        · exact hdot
        · exact hdigits _ c hc
        · exact hdot
        · exact hdigits _ c hc
    | ipv6 x =>
        have hbrackets : isTerminator '[' = false ∧ isTerminator ']' = false := by decide
        rw [hhost] at hc
        simp only [UrlHost.text, List.mem_cons, List.mem_append, List.not_mem_nil, or_false] at hc
        rcases hc with rfl | hc | rfl
        · exact hbrackets.1
        · exact (piece_plain (x.text_chars c hc)).2.1
        · exact hbrackets.2
  intro c hc
  obtain ⟨c', hc', rfl⟩ := List.mem_map.mp (stripBrackets_subset _ hc)
  exact lower_terminator (htext c' hc')

/-- The platform with the host names that the policy reads. -/
def bare (w : NativePlatform) : Platform where
  authority scheme cs := (w.authority scheme cs).map fun a => ⟨hostnameOf a.host, a.port⟩
  other scheme cs := (w.other scheme cs).map fun a => ⟨hostnameOf a.host, a.port⟩
  hostname_chars := by
    intro scheme cs h hh c hc
    obtain ⟨a, ha, rfl⟩ := Option.map_eq_some_iff.mp hh
    exact hostnameOf_chars ha c hc
  userinfo := by
    intro scheme cs n hcs
    obtain ⟨a, ha, hhost, hport⟩ := w.userinfo scheme cs n hcs
    have hlower : (List.replicate (n + 1) 'a').map Char.toLower = List.replicate (n + 1) 'a' := by
      rw [List.map_replicate]
      rfl
    have hname : hostnameOf a.host = List.replicate (n + 1) 'a' := by
      rw [hhost, hostnameOf, UrlHost.text, hlower]
      rfl
    rw [ha, Option.map_some, hname, hport]

theorem newURL_bare (w : NativePlatform) (url : String) : newURL (bare w) url =
    (parseUrl w url).map fun u => parsed u.scheme ⟨hostnameOf u.host, u.port⟩ := by
  unfold newURL parseUrl
  cases scan (clean url.toList) with
  | opened scheme authority =>
      simp only [bare, Option.map_map]
      rfl
  | closed scheme authority =>
      simp only [bare, Option.map_map]
      rfl
  | other scheme rest =>
      simp only [bare, Option.map_map]
      rfl
  | _ => rfl

theorem originText_eq (u : NativeUrl) :
    u.originText = (parsed u.scheme ⟨hostnameOf u.host, u.port⟩).originText := by
  simp [NativeUrl.originText, ParsedUrl.originText, parsed, urlHostname]

theorem allowed_iff : (checkProxyUrl w url allowlist activePorts).allowed = true ↔
    ∃ u, parseUrl w url = some u ∧ denial u activePorts = none ∧
      ∃ s ∈ allowlist, s.toList <+: u.originText ∨ s.toList <+: url.toList := by
  unfold checkProxyUrl
  cases hu : parseUrl w url with
  | none => simp [deny]
  | some u =>
      cases hdenial : denial u activePorts with
      | some reason => simp [deny, hdenial]
      | none =>
          simp only [Option.some.injEq, exists_eq_left', hdenial, true_and]
          split
          next hany => simpa using hany
          next hany => simpa [deny] using hany

/-- What passes was read off an authority. -/
theorem parseUrl_http (hu : parseUrl w url = some u) (hscheme : u.scheme = http ∨ u.scheme = https) :
    ∃ authority, (scan (clean url.toList) = .opened u.scheme authority ∨
      scan (clean url.toList) = .closed u.scheme authority) ∧
      w.authority u.scheme authority = some u.toAuthority := by
  unfold parseUrl at hu
  split at hu
  next scheme authority hscan =>
    obtain ⟨a, ha, rfl⟩ := Option.map_eq_some_iff.mp hu
    exact ⟨authority, Or.inl hscan, ha⟩
  next scheme authority hscan =>
    obtain ⟨a, ha, rfl⟩ := Option.map_eq_some_iff.mp hu
    exact ⟨authority, Or.inr hscan, ha⟩
  next scheme rest hscan =>
    obtain ⟨a, -, rfl⟩ := Option.map_eq_some_iff.mp hu
    obtain ⟨hhttp, hhttps⟩ := scan_other hscan
    exact absurd hscheme (not_or.mpr ⟨hhttp, hhttps⟩)
  next => cases hu

/-- What a delimited entry lets through is parsed like it. -/
theorem parseUrl_of_delimited (hs : Delimited s) (hu : parseUrl w url = some u)
    (hscheme : u.scheme = http ∨ u.scheme = https)
    (hlisted : s.toList <+: u.originText ∨ s.toList <+: url.toList) : parseUrl w s = some u := by
  obtain ⟨authority, hscan, ha⟩ := parseUrl_http hu hscheme
  rcases hlisted with horigin | hurl
  · have hhost : (bare w).authority u.scheme authority = some ⟨hostnameOf u.host, u.port⟩ := by
      show (w.authority u.scheme authority).map _ = _
      rw [ha]
      rfl
    rw [originText_eq] at horigin
    exact absurd horigin (not_prefix_originText hs hscheme hhost)
  · have hhttp : (scan (clean url.toList)).Http := by
      rcases hscan with hscan | hscan <;> rw [hscan] <;> trivial
    obtain ⟨s', a', hclosed⟩ := closed_of_delimited hs (lead_mono hurl) (scan_clean_http hhttp)
    rw [← hu, parseUrl, parseUrl, scan_clean_of_closed hurl hclosed]

/-- **What passes an allowlist that meets the condition.** -/
theorem allowed_of_meets (hall : ∀ s ∈ allowlist, EntryMeets w s)
    (h : (checkProxyUrl w url allowlist activePorts).allowed = true) :
    OfAllowlist w url allowlist ∧ ∀ u, parseUrl w url = some u → isInternal u.host = false := by
  obtain ⟨u, hu, hdenial, s, hs, hlisted⟩ := allowed_iff.mp h
  have hscheme := (denial_eq_none.mp hdenial).1
  obtain ⟨hdelimited, hmissed⟩ := hall s hs
  have hparse := parseUrl_of_delimited hdelimited hu hscheme hlisted
  refine ⟨⟨u, s, u, hu, hs, hparse, rfl, rfl, rfl⟩, fun u' hu' => ?_⟩
  rw [hu, Option.some.injEq] at hu'
  subst hu'
  exact external_of_denial hdenial (hmissed u hparse hscheme)

theorem not_begins_strange {cs : List Char} {n : ℕ} (hhead : cs.head? ≠ some 'a') (hne : cs ≠ []) :
    ¬ cs <+: strange n := by
  rintro ⟨r, hr⟩
  obtain ⟨c, cs', rfl⟩ := List.exists_cons_of_ne_nil hne
  rw [strange, List.replicate_succ, List.cons_append] at hr
  exact hhead (congrArg some (List.cons.inj hr).1)

/-- A strange host is a domain. -/
theorem ipv4FromHostname_strange {host : UrlHost} {n : ℕ} (h : hostnameOf host = strange n) :
    ipv4FromHostname host = none := by
  have hplain : ∀ c ∈ hostnameOf host, c = 'a' := fun c hc => List.eq_of_mem_replicate (h ▸ hc)
  cases host with
  | domain name => rfl
  | ipv4 a =>
      have hdot : '.' ∈ (UrlHost.ipv4 a).text.map Char.toLower :=
        List.mem_map.mpr ⟨'.', by simp [UrlHost.text, Ipv4.text], rfl⟩
      exact absurd (hplain '.' (mem_stripBrackets hdot (by decide) (by decide))) (by decide)
  | ipv6 a =>
      rw [hostnameOf_ipv6] at hplain
      exact absurd (hplain ':' a.colon_mem_text) (by decide)

theorem denial_strange {n : ℕ} (hscheme : u.scheme = http ∨ u.scheme = https)
    (hname : hostnameOf u.host = strange n) : denial u [] = none := by
  have hbegins : ∀ cs : List Char, cs.head? ≠ some 'a' → cs ≠ [] →
      cs.isPrefixOf (strange n) = false ∧ cs ≠ strange n := by
    intro cs hhead hne
    have hnot := not_begins_strange (n := n) hhead hne
    exact ⟨not_begins hnot, fun heq => hnot (heq ▸ List.prefix_rfl)⟩
  have hlocal : isLocalhost (strange n) = false := by
    rw [strange, List.replicate_succ]
    exact isLocalhost_strange n
  refine denial_eq_none.mpr ⟨hscheme, ?_, ?_, ?_, ?_, ?_⟩
  · rw [urlHostname, hname, List.any_eq_false]
    intro s hs
    rw [beq_iff_eq]
    refine (hbegins s.toList ?_ ?_).2
    · revert s
      decide
    · revert s
      decide
  · rw [isBlockedIpv4, ipv4FromHostname_strange hname]
    dsimp only
    rw [urlHostname, hname, isBlockedPrivateIpv4Host, isGrpcPrivateIpv4Host,
      (hbegins "127.".toList (by decide) (by decide)).1,
      (hbegins "172.".toList (by decide) (by decide)).1, List.any_eq_false.mpr]
    · rfl
    · intro s hs
      rw [(hbegins s.toList (by revert s; decide) (by revert s; decide)).1]
      exact Bool.false_ne_true
  · rw [urlHostname, hname, (hbegins "fe80:".toList (by decide) (by decide)).1, Bool.or_false,
      beq_eq_false_iff_ne]
    exact (hbegins "::1".toList (by decide) (by decide)).2.symm
  · rw [urlHostname, hname, hlocal, Bool.false_and]
  · rw [urlHostname, hname, hlocal, Bool.false_and]

/-- An entry that goes on lets a strange host through. -/
theorem allowed_strange (hopen : ¬ Delimited s) (hs : s ∈ allowlist) :
    ∃ url, (checkProxyUrl w url allowlist []).allowed = true ∧ ¬ OfAllowlist w url allowlist := by
  obtain ⟨n, hn⟩ := exists_strange (bare w) allowlist
  obtain ⟨url, scheme, hscheme, hbegins, hurl⟩ := reaches_strange (w := bare w) hopen n
  rw [newURL_bare] at hurl
  obtain ⟨u, hu, hparsed⟩ := Option.map_eq_some_iff.mp hurl
  have hname : hostnameOf u.host = strange n := congrArg ParsedUrl.hostname hparsed
  have huscheme : u.scheme = scheme := List.append_cancel_right (congrArg ParsedUrl.protocol hparsed)
  refine ⟨url, allowed_iff.mpr ⟨u, hu, denial_strange (huscheme ▸ hscheme) hname, s, hs,
    Or.inr hbegins⟩, ?_⟩
  rintro ⟨p, t, q, hp, ht, hq, -, hhost, -⟩
  rw [hu, Option.some.injEq] at hp
  subst hp
  refine hn t ht (parsed q.scheme ⟨hostnameOf q.host, q.port⟩) ?_ ?_
  · rw [newURL_bare, hq]
    rfl
  · show hostnameOf q.host = strange n
    rw [← hhost, hname]

/-- So does one whose host is missed, to its own. -/
theorem allowed_missed (hu : parseUrl w s = some u) (hscheme : u.scheme = http ∨ u.scheme = https)
    (hmissed : isMissed u.host = true) (hs : s ∈ allowlist) :
    (checkProxyUrl w s allowlist activePorts).allowed = true :=
  allowed_iff.mpr ⟨u, hu, denial_of_missed hscheme hmissed, s, hs, Or.inr List.prefix_rfl⟩

end Urls

/-! ## Runs of the proxy -/

section Runs

variable (w : NativePlatform) (captured : CapturedRequest) (proxy : ProxySettings)
  (activePorts : List ℕ)

/-- A credential is sent only if it is to be forwarded. -/
theorem credential_forwarded {h : String × String} (hmem : h ∈ requestHeaders captured proxy)
    (hcredential : Native.toAsciiLowercase h.1 ∈ credentialHeaders) :
    proxy.forwardAuth = true ∧
      ∃ f ∈ proxy.forwardCredentialHeaders, Native.toAsciiLowercase f = Native.toAsciiLowercase h.1 := by
  unfold requestHeaders at hmem
  dsimp only at hmem
  rcases List.mem_append.mp (List.mem_of_mem_filter hmem) with hsent | hown
  · have hkept := (List.mem_filter.mp (List.mem_of_mem_filter hsent)).2
    rw [List.contains_iff_mem.mpr hcredential, Bool.not_true, Bool.false_or,
      List.contains_iff_mem] at hkept
    obtain ⟨f, hf, heq⟩ := List.mem_map.mp hkept
    split at hf
    next hforward => exact ⟨hforward, f, hf, heq⟩
    next => cases hf
  · rw [List.mem_singleton.mp hown] at hcredential
    exact absurd hcredential (by decide)

/-- A hop that fetches has passed the policy, and fetches its own URL. -/
theorem executeHop_cases (redirected : Bool) (url : String) (answers : List Answer) :
    (∃ result, executeHop w captured proxy activePorts redirected url answers = .stop [] result) ∨
    (checkProxyUrl w url proxy.allowlist activePorts).allowed = true ∧
      ((∃ result, executeHop w captured proxy activePorts redirected url answers =
        .stop [prepare captured proxy url] result) ∨
      ∃ next, executeHop w captured proxy activePorts redirected url answers = .next next) := by
  unfold executeHop
  dsimp only
  split
  next => exact Or.inl ⟨_, rfl⟩
  next hallowed =>
    cases answers with
    | nil => exact Or.inl ⟨_, rfl⟩
    | cons answer answers =>
        dsimp only
        split
        next e => exact Or.inl ⟨_, rfl⟩
        next =>
          refine Or.inr ⟨eq_true_of_ne_false hallowed, ?_⟩
          split
          next e => exact Or.inl ⟨_, rfl⟩
          next res =>
            split
            next => exact Or.inl ⟨_, rfl⟩
            next loc =>
              split
              next e => exact Or.inl ⟨_, rfl⟩
              next next _ => exact Or.inr ⟨next, rfl⟩

/-- What the loop fetches has passed the policy, and there are no more than may be. -/
theorem executeHops_fetched (left : ℕ) (redirected : Bool) (url : String) (answers : List Answer) :
    (∀ r ∈ (executeHops w captured proxy activePorts left redirected url answers).1,
      (checkProxyUrl w r.url proxy.allowlist activePorts).allowed = true ∧
        r.headers = requestHeaders captured proxy) ∧
    (executeHops w captured proxy activePorts left redirected url answers).1.length ≤ left + 1 := by
  induction left generalizing redirected url answers with
  | zero =>
      unfold executeHops
      rcases executeHop_cases w captured proxy activePorts redirected url answers with
        ⟨result, hhop⟩ | ⟨hallowed, ⟨result, hhop⟩ | ⟨next, hhop⟩⟩
      · rw [hhop]
        exact ⟨fun _ => nofun, Nat.zero_le _⟩
      · rw [hhop]
        exact ⟨List.forall_mem_singleton.mpr ⟨hallowed, rfl⟩, Nat.le_refl _⟩
      · rw [hhop]
        exact ⟨List.forall_mem_singleton.mpr ⟨hallowed, rfl⟩, Nat.le_refl _⟩
  | succ left ih =>
      unfold executeHops
      rcases executeHop_cases w captured proxy activePorts redirected url answers with
        ⟨result, hhop⟩ | ⟨hallowed, ⟨result, hhop⟩ | ⟨next, hhop⟩⟩
      · rw [hhop]
        exact ⟨fun _ => nofun, Nat.zero_le _⟩
      · rw [hhop]
        exact ⟨List.forall_mem_singleton.mpr ⟨hallowed, rfl⟩, Nat.le_add_left _ _⟩
      · rw [hhop]
        obtain ⟨hall, hlen⟩ := ih true next answers.tail
        exact ⟨List.forall_mem_cons.mpr ⟨⟨hallowed, rfl⟩, hall⟩, Nat.succ_le_succ hlen⟩

/-- A URL that passes is fetched, where nothing but the policy is asked. -/
theorem fetched_of_allowed {url : String} {res : ProxyFetchResponse}
    (hblock : proxy.blockPrivateNetworks = false)
    (hallowed : (checkProxyUrl w url proxy.allowlist activePorts).allowed = true)
    (hres : redirectTo res = none) :
    (executeProxyWith w captured proxy activePorts url [⟨.ok [], .ok res⟩]).1 =
      [prepare captured proxy url] := by
  have hhop : executeHop w captured proxy activePorts false url [⟨.ok [], .ok res⟩] =
      .stop [prepare captured proxy url] (some (finish proxy res false)) := by
    unfold executeHop
    simp only [hallowed, hblock, hres, Bool.true_eq_false, Bool.false_eq_true, if_false]
  rw [executeProxyWith, executeHops.eq_def, hhop]

end Runs

/-- A server that asks for the policy only. -/
def openProxy (allowlist : List String) : ProxySettings :=
  { allowlist
    blockPrivateNetworks := false
    maxRedirects := 5
    stripHopByHop := true
    forwardAuth := false
    forwardCredentialHeaders := []
    timeoutMs := 10000
    maxResponseBytes := 1048576 }

def getRequest : CapturedRequest := ⟨"GET", [], none⟩

/-- **What the native proxy fetches.**  It fetches URLs of the allowlist only, and no internal
addresses, exactly if every entry is delimited and its host is no address that is missed. -/
theorem safe_iff (w : NativePlatform) (allowlist : List String) :
    (∀ captured proxy activePorts upstreamUrl answers, proxy.allowlist = allowlist →
      Safe w proxy (executeProxyWith w captured proxy activePorts upstreamUrl answers).1) ↔
    ∀ s ∈ allowlist, EntryMeets w s := by
  constructor
  · intro hsafe s hs
    have hrun : ∀ url, (checkProxyUrl w url allowlist []).allowed = true →
        OfAllowlist w url allowlist ∧ ∀ u, parseUrl w url = some u → isInternal u.host = false := by
      intro url hallowed
      have hfinal : redirectTo ⟨200, [], []⟩ = none := if_neg (by decide)
      have hfetched := fetched_of_allowed w getRequest (openProxy allowlist) [] rfl hallowed hfinal
      have hsafe := hsafe getRequest (openProxy allowlist) [] url [⟨.ok [], .ok ⟨200, [], []⟩⟩] rfl
      rw [hfetched] at hsafe
      have hmem : prepare getRequest (openProxy allowlist) url ∈
          [prepare getRequest (openProxy allowlist) url] := List.mem_singleton_self _
      have hlisted := hsafe.listed _ hmem
      have hexternal := hsafe.external _ hmem
      rw [prepare_url] at hlisted hexternal
      exact ⟨hlisted, hexternal⟩
    refine ⟨?_, fun u hu hscheme => ?_⟩
    · by_contra hopen
      obtain ⟨url, hallowed, hnot⟩ := allowed_strange hopen hs
      exact hnot (hrun url hallowed).1
    · by_contra hmissed
      have hmissed := eq_true_of_ne_false hmissed
      have hexternal := (hrun s (allowed_missed hu hscheme hmissed hs)).2 u hu
      rw [internal_of_missed hmissed] at hexternal
      cases hexternal
  · rintro hall captured proxy activePorts upstreamUrl answers rfl
    obtain ⟨hfetched, hlen⟩ := executeHops_fetched w captured proxy activePorts
      (min proxy.maxRedirects maxRedirectsLimit) false upstreamUrl answers
    refine ⟨fun r hr => (allowed_of_meets hall (hfetched r hr).1).1,
      fun r hr => (allowed_of_meets hall (hfetched r hr).1).2,
      hlen.trans (Nat.succ_le_succ (Nat.min_le_left _ _)), fun r hr h hmem hcredential => ?_⟩
    rw [(hfetched r hr).2] at hmem
    exact credential_forwarded captured proxy hmem hcredential

/-- A unique local address. -/
def localAddress : Ipv6 := ⟨[0xfd12, 0, 0, 0, 0, 0, 0, 1], rfl, by decide⟩

def plainHost (cs : List Char) : Option UrlHost :=
  if cs = "[fd12::1]".toList then some (.ipv6 localAddress)
  else if cs ≠ [] ∧ cs.all isPlainChar = true then some (.domain cs)
  else none

/-- A platform that knows plain host names and one address, and redirects to whole URLs. -/
def plainNative : NativePlatform where
  authority := fun _ cs =>
    (plainHost ((cs.rtakeWhile (· != '@')).map Char.toLower)).map fun host =>
      ⟨(cs.rdropWhile (· != '@')).dropLast, none, host, none⟩
  other := fun _ _ => none
  join := fun _ loc => .ok loc
  domain_chars := by
    intro scheme cs a name ha hname c hc
    obtain ⟨host, hhost, rfl⟩ := Option.map_eq_some_iff.mp ha
    dsimp only at hname
    subst hname
    unfold plainHost at hhost
    split at hhost
    · cases hhost
    next =>
      obtain ⟨⟨-, hall⟩, heq⟩ := Option.ite_none_right_eq_some.mp hhost
      rw [UrlHost.domain.inj (Option.some.inj heq)] at hall
      have hplain := List.all_eq_true.mp hall c hc
      rw [Bool.eq_false_iff]
      intro hterm
      simp only [isTerminator, Bool.or_eq_true, beq_iff_eq] at hterm
      rcases hterm with ((rfl | rfl) | rfl) | rfl <;> revert hplain <;> decide
  userinfo := by
    intro scheme cs n _
    have hlower : (List.replicate (n + 1) 'a').map Char.toLower = List.replicate (n + 1) 'a' := by
      rw [List.map_replicate]
      rfl
    have hplain : plainHost (List.replicate (n + 1) 'a') = some (.domain (List.replicate (n + 1) 'a')) := by
      have hne : List.replicate (n + 1) 'a' ≠ "[fd12::1]".toList := by
        intro heq
        have hmem : '[' ∈ List.replicate (n + 1) 'a' := by
          rw [heq]
          decide
        exact absurd (List.eq_of_mem_replicate hmem) (by decide)
      rw [plainHost, if_neg hne, if_pos ⟨by simp, List.all_eq_true.mpr
        fun c hc => by rw [List.eq_of_mem_replicate hc]; decide⟩]
    rw [after_userinfo, hlower, hplain]
    exact ⟨_, rfl, rfl, rfl⟩

def okAnswer : Answer := ⟨.ok [], .ok ⟨200, [], []⟩⟩

def redirectAnswer (location : String) : Answer := ⟨.ok [], .ok ⟨302, [("Location", location)], []⟩⟩

/-- A redirect to a host that goes on where the entry ends; and a unique local address, also
where private networks are blocked. -/
theorem strange_and_local_fetched :
    ¬ Safe plainNative (openProxy ["https://api.example.com"])
      (executeProxyWith plainNative getRequest (openProxy ["https://api.example.com"]) []
        "https://api.example.com/" [redirectAnswer "https://api.example.com.evil.com/", okAnswer]).1 ∧
    ¬ Safe plainNative { openProxy ["https://[fd12::1]/"] with blockPrivateNetworks := true }
      (executeProxyWith plainNative getRequest
        { openProxy ["https://[fd12::1]/"] with blockPrivateNetworks := true } []
        "https://[fd12::1]/" [okAnswer]).1 := by
  have hurl : parseUrl plainNative "https://api.example.com.evil.com/" =
      some ⟨⟨[], none, .domain "api.example.com.evil.com".toList, none⟩, https⟩ := by decide
  have hentry : parseUrl plainNative "https://api.example.com" =
      some ⟨⟨[], none, .domain "api.example.com".toList, none⟩, https⟩ := by decide
  have hlocal : parseUrl plainNative "https://[fd12::1]/" =
      some ⟨⟨[], none, .ipv6 localAddress, none⟩, https⟩ := by decide
  constructor
  · intro hsafe
    have hfetched : (executeProxyWith plainNative getRequest (openProxy ["https://api.example.com"]) []
        "https://api.example.com/"
        [redirectAnswer "https://api.example.com.evil.com/", okAnswer]).1.map PreparedProxyRequest.url =
        ["https://api.example.com/", "https://api.example.com.evil.com/"] := by decide
    obtain ⟨r, hr, hrurl⟩ := List.mem_map.mp (hfetched ▸ (by simp :
      "https://api.example.com.evil.com/" ∈
        ["https://api.example.com/", "https://api.example.com.evil.com/"]))
    obtain ⟨p, s, q, hp, hs, hq, -, hhost, -⟩ := hsafe.listed r hr
    rw [hrurl, hurl] at hp
    rw [List.mem_singleton.mp hs, hentry] at hq
    rw [← Option.some.inj hp, ← Option.some.inj hq] at hhost
    revert hhost
    decide
  · intro hsafe
    have hfetched : (executeProxyWith plainNative getRequest
        { openProxy ["https://[fd12::1]/"] with blockPrivateNetworks := true } []
        "https://[fd12::1]/" [okAnswer]).1.map PreparedProxyRequest.url = ["https://[fd12::1]/"] := by
      decide
    obtain ⟨r, hr, hrurl⟩ := List.mem_map.mp (hfetched ▸ List.mem_singleton_self "https://[fd12::1]/")
    have hexternal := hsafe.external r hr _ (hrurl ▸ hlocal)
    revert hexternal
    decide

end NativeProxy

end RedFireForge.ApiMock
