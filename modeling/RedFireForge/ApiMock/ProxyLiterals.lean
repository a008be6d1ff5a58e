/-
# `RedFireForge.ApiMock.ProxyLiterals` — hosts that are IP addresses

`checkProxyUrl` rejects internal addresses by how the host begins.  An address of four bytes is
written plainly there, one of eight pieces in brackets, with which no text of the tables begins.
-/
import RedFireForge.ApiMock.ProxyPolicy
import RedFireForge.Grpc.OutboundUrlPolicy

namespace RedFireForge.ApiMock

open RedFireForge.Lib
open RedFireForge.Grpc.OutboundUrlPolicy (Internal InternalV4 beginning beginning_prefix_text)

/-- The host name of a URL whose host is an address. -/
def literalText : Ip → List Char
  | .v4 a => a.text
  | .v6 a => '[' :: (a.text ++ [']'])

/-! ## Four bytes -/

def rejectedBeginnings : List (ℕ × Option ℕ) :=
  [(10, none), (169, some 254)] ++ (List.range' 16 16).map (fun m => (172, some m)) ++
    [(192, some 168), (127, none), (0, none)]

theorem privateIpv4_eq : privateIpv4.map String.toList = rejectedBeginnings.map beginning := by
  decide

/-- Every internal address of four bytes begins so. -/
theorem exists_beginning {a : Ipv4} (h : InternalV4 a) : ∃ b ∈ rejectedBeginnings, b.1 = a.a ∧ ∀ m ∈ b.2, m = a.b := by
  have hmem : ∀ n m, (n, m) ∈ rejectedBeginnings ↔ (n = 10 ∧ m = none) ∨ (n = 169 ∧ m = some 254) ∨
      (∃ k, (16 ≤ k ∧ k < 32) ∧ n = 172 ∧ m = some k) ∨ (n = 192 ∧ m = some 168) ∨ (n = 127 ∧ m = none) ∨
        (n = 0 ∧ m = none) := by
    intro n m
    simp only [rejectedBeginnings, List.mem_append, List.mem_cons, List.not_mem_nil, or_false, Prod.mk.injEq,
      List.mem_map, List.mem_range'_1, Nat.reduceAdd, or_assoc, eq_comm]
  simp only [InternalV4, Ipv4.isLoopback, Ipv4.isUnspecified, Ipv4.isPrivate, Ipv4.isLinkLocal, Bool.or_eq_true,
    decide_eq_true_eq, Bool.and_eq_true, beq_iff_eq, Fin.ext_iff, Fin.le_def] at h
  rcases h with h | rfl | ((h | ⟨h, hlow, hhigh⟩) | ⟨h, h'⟩) | ⟨h, h'⟩
  · exact ⟨(127, none), (hmem _ _).mpr (by simp), h.symm, by rintro m ⟨⟩⟩
  · exact ⟨(0, none), (hmem _ _).mpr (by simp), rfl, by rintro m ⟨⟩⟩
  · exact ⟨(10, none), (hmem _ _).mpr (by simp), h.symm, by rintro m ⟨⟩⟩
  · refine ⟨(172, some a.b), (hmem _ _).mpr (by simp; omega), h.symm, fun m hm => (Option.some.inj hm).symm⟩
  · exact ⟨(192, some 168), (hmem _ _).mpr (by simp), h.symm, fun m hm => (Option.some.inj hm).symm.trans h'.symm⟩
  · exact ⟨(169, some 254), (hmem _ _).mpr (by simp), h.symm, fun m hm => (Option.some.inj hm).symm.trans h'.symm⟩

theorem map_toLower_text (a : Ipv4) : a.text.map Char.toLower = a.text := by
  have hlower : ∀ c ∈ a.text, c.toLower = id c := by
    intro c hc
    rcases a.text_chars c hc with h | rfl
    · exact toLower_of_isDigit h
    · rfl
  rw [List.map_congr_left hlower, List.map_id]

theorem blocked_ipv4 {p : ParsedUrl} {a : Ipv4} (hhost : p.hostname = a.text) (h : InternalV4 a) (ports : List ℕ) :
    blocked p ports ≠ none := by
  have hprivate : privateIpv4.any (fun s => s.toList.isPrefixOf (p.hostname.map Char.toLower)) = true := by
    obtain ⟨b, hb, hbegins⟩ := exists_beginning h
    have hmem : beginning b ∈ privateIpv4.map String.toList := by
      rw [privateIpv4_eq]
      exact List.mem_map_of_mem hb
    obtain ⟨s, hs, hsb⟩ := List.mem_map.mp hmem
    rw [hhost, map_toLower_text]
    refine List.any_eq_true.mpr ⟨s, hs, ?_⟩
    rw [hsb, beginning_prefix_text]
    exact decide_eq_true hbegins
  intro hnone
  simp only [blocked, hprivate] at hnone
  split at hnone
  next => cases hnone
  next =>
    split at hnone
    next => cases hnone
    next => cases hnone

/-! ## Eight pieces -/

/-- No text of the tables begins with a bracket, and no local name ends with one. -/
theorem blocked_bracket {p : ParsedUrl} {cs : List Char}
    (hprotocol : p.protocol = http ++ [':'] ∨ p.protocol = https ++ [':']) (hhost : p.hostname = '[' :: (cs ++ [']']))
    (ports : List ℕ) : blocked p ports = none := by
  have hlower : p.hostname.map Char.toLower = '[' :: (cs.map Char.toLower ++ [']']) := by
    rw [hhost, List.map_cons, List.map_append]
    rfl
  have hlast : (p.hostname.map Char.toLower).getLast? = some ']' := by
    rw [hlower, ← List.cons_append, List.getLast?_concat]
  refine blocked_eq_none hprotocol ?_ ?_ ?_ ?_
  · rw [hlower]
    simp [blockedMetadataHosts]
  · rw [hlower]
    simp [privateIpv4, List.isPrefixOf]
  · rw [hlower]
    simp [loopbackIpv6, List.isPrefixOf]
  · have hends : ¬ ".localhost".toList <:+ p.hostname.map Char.toLower := by
      rintro ⟨front, hfront⟩
      rw [← hfront, List.getLast?_append] at hlast
      simp at hlast
    simp only [isLocalhost, Bool.or_eq_false_iff]
    refine ⟨⟨⟨?_, ?_⟩, ?_⟩, ?_⟩
    · simp [hlower]
    · simp [hlower]
    · simp [hlower]
    · rwa [Bool.eq_false_iff, ne_eq, List.isSuffixOf_iff_suffix]

/-! ## The policy -/

theorem literal_allowed_iff {w : Platform} {url : String} {p : ParsedUrl} {x : Ip} {upstreams : List String} {ports : List ℕ}
    (hurl : newURL w url = some p) (hprotocol : p.protocol = http ++ [':'] ∨ p.protocol = https ++ [':'])
    (hhost : p.hostname = literalText x) (hinternal : Internal x) :
    (checkProxyUrl w url upstreams ports).allowed = true ↔
      (∃ a, x = .v6 a) ∧ upstreams.any (listed url p) = true := by
  have hlisted : upstreams.any (listed url p) = true ↔ ∃ u ∈ upstreams, u.toList <+: p.originText ∨ u.toList <+: url.toList := by
    simp [listed]
  rw [allowed_iff, hlisted]
  constructor
  · rintro ⟨p', hp', hnone, hany⟩
    cases hurl.symm.trans hp'
    cases x with
    | v4 a => exact absurd hnone (blocked_ipv4 hhost hinternal ports)
    | v6 a => exact ⟨⟨a, rfl⟩, hany⟩
  · rintro ⟨⟨a, rfl⟩, hany⟩
    exact ⟨p, hurl, blocked_bracket hprotocol hhost ports, hany⟩

/-- An internal address is denied under every allowlist exactly if it is written with four bytes;
one of eight pieces is allowed by any entry that begins the URL or its origin. -/
theorem internal_literals_denied_iff (w : Platform) (url : String) (p : ParsedUrl) (x : Ip)
    (hurl : newURL w url = some p) (hprotocol : p.protocol = http ++ [':'] ∨ p.protocol = https ++ [':'])
    (hhost : p.hostname = literalText x) (hinternal : Internal x) :
    ((∀ upstreams ports, (checkProxyUrl w url upstreams ports).allowed = false) ↔ ∃ a, x = .v4 a) ∧
      ∀ upstreams ports, ((checkProxyUrl w url upstreams ports).allowed = true ↔
        (∃ a, x = .v6 a) ∧ upstreams.any (listed url p) = true) := by
  have hallowed := fun upstreams ports =>
    @literal_allowed_iff w url p x upstreams ports hurl hprotocol hhost hinternal
  refine ⟨?_, hallowed⟩
  constructor
  · intro hdenied
    cases x with
    | v4 a => exact ⟨a, rfl⟩
    | v6 a =>
        have hself : [url].any (listed url p) = true := by simp [listed]
        exact absurd ((hallowed [url] []).mpr ⟨⟨a, rfl⟩, hself⟩) (by simp [hdenied])
  · rintro ⟨a, rfl⟩ upstreams ports
    rw [Bool.eq_false_iff]
    intro h
    obtain ⟨⟨_, h6⟩, -⟩ := (hallowed upstreams ports).mp h
    cases h6

/-- The plain host names, and loopback in brackets. -/
def literalAuthority (scheme cs : List Char) : Option Host :=
  if cs = "[::1]".toList then some ⟨cs, none⟩ else plainAuthority scheme cs

def literalPlatform : Platform where
  authority := literalAuthority
  other := plainPlatform.other
  hostname_chars := by
    intro scheme cs h hh
    rw [literalAuthority] at hh
    split at hh
    next hcs =>
      cases hh
      rw [hcs]
      decide
    next => exact plainPlatform.hostname_chars scheme cs h hh
  userinfo := by
    intro scheme cs n hcs
    have hne : cs ++ '@' :: List.replicate (n + 1) 'a' ≠ "[::1]".toList := by
      intro heq
      have hmem : '@' ∈ "[::1]".toList := by
        rw [← heq]
        simp
      exact absurd hmem (by decide)
    rw [literalAuthority, if_neg hne]
    exact plainPlatform.userinfo scheme cs n hcs

def loopback : Ipv6 := ⟨[0, 0, 0, 0, 0, 0, 0, 1], rfl, by decide⟩

theorem newURL_loopback : newURL literalPlatform "http://[::1]/" = some ⟨http ++ [':'], "[::1]".toList, none⟩ := by
  decide

theorem newURL_private : newURL literalPlatform "http://10.0.0.1/" = some ⟨http ++ [':'], "10.0.0.1".toList, none⟩ := by
  decide

theorem private_literal_denied :
    (∀ upstreams ports, (checkProxyUrl literalPlatform "http://10.0.0.1/" upstreams ports).allowed = false) ∧
      (checkProxyUrl literalPlatform "http://[::1]/" ["http://[::1]"] []).allowed = true := by
  refine ⟨(internal_literals_denied_iff literalPlatform _ _ (.v4 ⟨10, 0, 0, 1⟩) newURL_private (.inl rfl) ?_ ?_).1.mpr ⟨_, rfl⟩,
    ((internal_literals_denied_iff literalPlatform _ _ (.v6 loopback) newURL_loopback (.inl rfl) ?_ ?_).2 _ _).mpr ⟨⟨_, rfl⟩, ?_⟩⟩
  · decide
  · exact .inr (.inr (.inl (by decide)))
  · decide
  · exact .inl (by decide)
  · decide

/-- Loopback passes if the allowlist begins its URL. -/
theorem bracketed_loopback_allowed :
    newURL literalPlatform "http://[::1]/" = some ⟨http ++ [':'], literalText (.v6 loopback), none⟩ ∧
      Internal (.v6 loopback) ∧ (checkProxyUrl literalPlatform "http://[::1]/" ["http://[::1]"] []).allowed = true := by
  refine ⟨by decide, .inl (by decide), by decide⟩

end RedFireForge.ApiMock
