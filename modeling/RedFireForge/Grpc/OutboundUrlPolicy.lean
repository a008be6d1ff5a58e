/-
# `RedFireForge.Grpc.OutboundUrlPolicy` — what the server fetches for its users

A URL is checked before it is fetched, and so is every address that its name is resolved to.
The check looks at the beginnings of an address as it is written; which address that is, it
knows for four decimal bytes only, by themselves or after `::ffff:`.

The parser of URLs and the resolver are parameters.  The texts of hosts and addresses are ASCII.
-/
import RedFireForge.ApiMock.JsonPath
import RedFireForge.ApiMock.ProxyPolicy
import RedFireForge.Lib.AddressSpelling
import RedFireForge.Lib.Text

namespace RedFireForge.Grpc.OutboundUrlPolicy

open RedFireForge.Lib
open RedFireForge.ApiMock (isSpace trim http https)

local instance neZero_byte : NeZero (255 + 1) := ⟨nofun⟩

/-- Of a parsed URL, what the policy looks at. -/
structure Url where
  protocol : List Char
  username : List Char
  password : List Char
  hostname : List Char
deriving DecidableEq, Repr

/-- An absent flag is not `false`. -/
structure Options where
  allowHttpLocalhost : Option Bool := none
  blockHttpsLoopback : Option Bool := none
  skipDnsResolution : Bool := false

/-- What lies outside: `new URL`, and the resolver, which may throw something with a message. -/
structure World where
  newURL : List Char → Option Url
  resolve : List Char → Except (Option String) (List (List Char))

def blockedHostnames : List (List Char) :=
  ["metadata.google.internal".toList, "metadata.goog".toList]

/-- What `PRIVATE_IPV4_PATTERN` matches at the start. -/
def privateIpv4Pattern : List String :=
  ["10.", "169.254.", "172.16.", "172.17.", "172.18.", "172.19.", "172.20.", "172.21.", "172.22.",
    "172.23.", "172.24.", "172.25.", "172.26.", "172.27.", "172.28.", "172.29.", "172.30.",
    "172.31.", "192.168.", "0."]

def isLocalhostHostname (hostname : List Char) : Bool :=
  let lower := hostname.map Char.toLower
  lower == "localhost".toList || lower == "::1".toList || ".localhost".toList.isSuffixOf lower

/-- `\d{1,3}` -/
def isByteText (cs : List Char) : Bool := decide (1 ≤ cs.length ∧ cs.length ≤ 3) && cs.all Char.isDigit

/-- `/^\d{1,3}(\.\d{1,3}){3}$/` -/
def isIpv4Address (hostname : List Char) : Bool :=
  let parts := hostname.splitOn '.'
  parts.length == 4 && parts.all isByteText

def isIpv4Loopback (hostname : List Char) : Bool :=
  isIpv4Address hostname && Nat.ofDigitChars 10 ((hostname.splitOn '.').headD []) 0 == 127

def isLineTerminator (c : Char) : Bool := c.toNat ∈ [10, 13, 0x2028, 0x2029]

/-- `.replace(/%.*$/, '')` -/
def cutZone : List Char → List Char
  | [] => []
  | c :: cs => if c = '%' ∧ cs.all (!isLineTerminator ·) then [] else c :: cutZone cs

def normalizeResolvedAddress (address : List Char) : List Char :=
  cutZone (trim (address.map Char.toLower))

def parseIpv4MappedIpv6 (address : List Char) : Option (List Char) :=
  let normalized := normalizeResolvedAddress address
  if "::ffff:".toList.isPrefixOf normalized then
    let mapped := normalized.drop 7
    if isIpv4Address mapped then some mapped else none
  else none

def isIpv6Loopback (address : List Char) : Bool := normalizeResolvedAddress address == "::1".toList

def isPrivateOrReservedIpv6 (address : List Char) : Bool :=
  let normalized := normalizeResolvedAddress address
  normalized == "::".toList ||
    ["fc", "fd", "fe8", "fe9", "fea", "feb"].any (fun s => s.toList.isPrefixOf normalized)

def canonicalizeHostname (hostname : List Char) : List Char :=
  if hostname.getLast? = some '.' then hostname.dropLast else hostname

def shouldSkipDnsLookup (hostname : List Char) : Bool :=
  isIpv4Address hostname || hostname.head? == some '[' || hostname.contains ':' ||
    isLocalhostHostname hostname

def isPrivateOrReservedIpv4 (hostname : List Char) : Bool :=
  isIpv4Address hostname && privateIpv4Pattern.any (·.toList.isPrefixOf hostname)

/-- The message of the error that is thrown. -/
def assertResolvedAddressAllowed (address protocol : List Char) : Except String Unit :=
  let normalized := normalizeResolvedAddress address
  let mappedIpv4 := parseIpv4MappedIpv6 normalized
  let ipv4 := mappedIpv4.orElse fun _ => if isIpv4Address normalized then some normalized else none
  let loopback := "Outbound fetch DNS resolution blocked loopback address: " ++ String.ofList address
  let priv := "Outbound fetch DNS resolution blocked private network address: " ++ String.ofList address
  match ipv4 with
  | some ipv4 =>
      if protocol = https ++ [':'] ∧ isIpv4Loopback ipv4 then .error loopback
      else if isPrivateOrReservedIpv4 ipv4 ∧ ipv4 ≠ "127.0.0.1".toList then .error priv
      else .ok ()
  | none =>
      if isIpv6Loopback normalized then .error loopback
      else if isPrivateOrReservedIpv6 normalized then .error priv
      else .ok ()

def nameOf (url : Url) : List Char := canonicalizeHostname (url.hostname.map Char.toLower)

def validateServerOutboundUrl (w : World) (rawUrl : List Char) (options : Options) : Except String Url :=
  let allowHttpLocalhost := options.allowHttpLocalhost ≠ some false
  let blockHttpsLoopback := options.blockHttpsLoopback ≠ some false
  match w.newURL (trim rawUrl) with
  | none => .error "Invalid outbound fetch URL"
  | some parsed =>
      let canonicalHostname := nameOf parsed
      let loc := isLocalhostHostname canonicalHostname || canonicalHostname == "127.0.0.1".toList
      if parsed.protocol ≠ https ++ [':'] ∧ parsed.protocol ≠ http ++ [':'] then
        .error "Outbound fetch URL must use http or https"
      else if parsed.username ≠ [] ∨ parsed.password ≠ [] then
        .error "Outbound fetch URL must not include embedded credentials"
      else if canonicalHostname ∈ blockedHostnames then
        .error ("Outbound fetch blocked for host: " ++ String.ofList canonicalHostname)
      else if parsed.protocol = http ++ [':'] ∧ (¬ allowHttpLocalhost ∨ loc = false) then
        .error "http:// outbound fetch is allowed only for localhost in dev mode"
      else if blockHttpsLoopback ∧ parsed.protocol = https ++ [':'] ∧
          (isIpv4Loopback canonicalHostname || isLocalhostHostname canonicalHostname) then
        .error "https:// outbound fetch to loopback hosts is not allowed"
      else if isPrivateOrReservedIpv4 canonicalHostname ∧ canonicalHostname ≠ "127.0.0.1".toList then
        .error ("Outbound fetch blocked for private network host: " ++ String.ofList canonicalHostname)
      else if canonicalHostname.head? = some '[' ∨ '%' ∈ canonicalHostname then
        .error "IPv6 literal hosts are not supported for outbound fetch"
      else .ok parsed

/-- The loop over the addresses. -/
def assertAllAllowed (protocol : List Char) : List (List Char) → Except String Unit
  | [] => .ok ()
  | address :: addresses =>
      match assertResolvedAddressAllowed address protocol with
      | .error e => .error e
      | .ok () => assertAllAllowed protocol addresses

def validateServerOutboundUrlWithDns (w : World) (rawUrl : List Char) (options : Options) : Except String Url :=
  match validateServerOutboundUrl w rawUrl options with
  | .error e => .error e
  | .ok parsed =>
      if options.skipDnsResolution then .ok parsed
      else
        let canonicalHostname := nameOf parsed
        if shouldSkipDnsLookup canonicalHostname then .ok parsed
        else
          match w.resolve canonicalHostname with
          | .error message =>
              .error ("Outbound fetch DNS resolution failed for host: " ++ String.ofList canonicalHostname ++
                (message.map (": " ++ ·)).getD "")
          | .ok addresses =>
              if addresses.length = 0 then
                .error ("Outbound fetch DNS resolution returned no addresses for host: " ++
                  String.ofList canonicalHostname)
              else (assertAllAllowed parsed.protocol addresses).map fun _ => parsed

/-! ## What is safe -/

/-- A local development host. -/
def IsLocalDev (url : Url) : Prop :=
  isLocalhostHostname (nameOf url) = true ∨ nameOf url = "127.0.0.1".toList

/-- Loopback, unspecified, private or link-local, by its bytes. -/
def InternalV4 (a : Ipv4) : Prop :=
  a.isLoopback = true ∨ a.isUnspecified = true ∨ a.isPrivate = true ∨ a.isLinkLocal = true

/-- A mapped address counts as the one that it maps. -/
def Internal : Ip → Prop
  | .v4 a => InternalV4 a
  | .v6 a =>
      a.isLoopback = true ∨ a.isUnspecified = true ∨ a.isUniqueLocal = true ∨ a.isLinkLocal = true ∨
        ∃ b, a.toIpv4Mapped = some b ∧ InternalV4 b

/-- What the resolver answers with, if it is asked. -/
def returned (resolve : List Char → Except (Option String) (List AddressSpelling)) (url : Url) :
    List AddressSpelling :=
  if shouldSkipDnsLookup (nameOf url) then []
  else
    match resolve (nameOf url) with
    | .ok addresses => addresses
    | .error _ => []

/-- The world in which the resolver writes its addresses so. -/
def worldOf (newURL : List Char → Option Url)
    (resolve : List Char → Except (Option String) (List AddressSpelling)) : World :=
  ⟨newURL, fun name => (resolve name).map (·.map AddressSpelling.text)⟩

/-- A URL that may be fetched leads to no internal address. -/
def Safe (newURL : List Char → Option Url)
    (resolve : List Char → Except (Option String) (List AddressSpelling)) (rawUrl : List Char) : Prop :=
  ∀ url, validateServerOutboundUrlWithDns (worldOf newURL resolve) rawUrl {} = .ok url →
    ¬ IsLocalDev url → ∀ s ∈ returned resolve url, ¬ Internal s.value

/-- The resolver is asked for the name in the URL. -/
structure Asks (url : Url) : Prop where
  secure : url.protocol = https ++ [':']
  username : url.username = []
  password : url.password = []
  named : nameOf url ∉ blockedHostnames
  remote : isLocalhostHostname (nameOf url) = false
  unnumbered : isIpv4Address (nameOf url) = false
  unbracketed : (nameOf url).head? ≠ some '['
  plain : ':' ∉ nameOf url ∧ '%' ∉ nameOf url

def ReservedV4 (a : Ipv4) : Prop := InternalV4 a ∨ a.a = 0

def lowered (p : Piece) : List Char := p.digits.map Char.toLower

/-- As unique local and link-local addresses do. -/
def BeginsLocal (t : List Char) : Prop := ∃ s ∈ ["fc", "fd", "fe8", "fe9", "fea", "feb"], s.toList <+: t

/-- What the policy recognises. -/
def Recognised : AddressSpelling → Prop
  | .ipv4 a => ReservedV4 a
  | .ipv6 (.compressed [] [] none _) => True
  | .ipv6 (.compressed [] [p] none _) => p.digits = ['1']
  | .ipv6 (.compressed [] [p] (some a) _) => lowered p = "ffff".toList ∧ ReservedV4 a
  | .ipv6 (.compressed [] _ _ _) => False
  | .ipv6 (.compressed (p :: _) _ _ _) => BeginsLocal (lowered p)
  | .ipv6 (.expanded [] _ _) => False
  | .ipv6 (.expanded (p :: _) _ _) => BeginsLocal (lowered p)

/-- An internal address of eight pieces that is written in another way than the policy knows:
loopback other than `::1`, unspecified other than `::`, or mapped other than `::ffff:` and four
decimal bytes. -/
def Missed : AddressSpelling → Prop
  | .ipv4 _ => False
  | .ipv6 s =>
      (s.value.isLoopback = true ∧ s.text ≠ "::1".toList) ∨
        (s.value.isUnspecified = true ∧ s.text ≠ "::".toList) ∨
          ∃ a, s.value.toIpv4Mapped = some a ∧ InternalV4 a ∧
            s.text.map Char.toLower ≠ "::ffff:".toList ++ a.text

/-! ## Texts -/

section Texts

variable {a : Ipv4} {cs t u x : List Char} {p : Piece}

theorem isAddressChar_plain {c : Char} (h : isAddressChar c = true) :
    isAddressChar c.toLower = true ∧ c.toLower.toLower = c.toLower ∧ isSpace c = false ∧ c ≠ '%' := by
  simp only [isAddressChar, Bool.or_eq_true, beq_iff_eq] at h ⊢
  rcases h with (h | rfl) | rfl
  · refine ⟨Or.inl (Or.inl ?_), ?_, ?_, by rintro rfl; cases h⟩
    · rwa [isHexDigit, (hexDigitValue_spec c).1]
    · have hsmall : ∀ a < 16, (Json.hexDigit a).toLower = Json.hexDigit a := by decide
      obtain ⟨a, ha⟩ := Option.isSome_iff_exists.mp h
      obtain ⟨ha16, hc⟩ := (hexDigitValue_spec c).2 a ha
      rw [← hc, hsmall a ha16]
    · have hrange := isHexDigit_range h
      simp only [isSpace, Bool.or_eq_false_iff, decide_eq_false_iff_not, List.mem_cons, List.not_mem_nil,
        or_false]
      omega
  · decide
  · decide

theorem cutZone_of_not_mem (h : '%' ∉ cs) : cutZone cs = cs := by
  induction cs with
  | nil => rfl
  | cons c cs ih =>
      rw [List.mem_cons, not_or] at h
      rw [cutZone, if_neg fun hc => h.1 hc.1.symm, ih h.2]

/-- An address stays as it is, but in small letters. -/
theorem normalize_address (h : ∀ c ∈ cs, isAddressChar c = true) :
    normalizeResolvedAddress cs = cs.map Char.toLower := by
  have hlower : ∀ c ∈ cs.map Char.toLower, isAddressChar c = true := by
    intro c hc
    obtain ⟨d, hd, rfl⟩ := List.mem_map.mp hc
    exact (isAddressChar_plain (h d hd)).1
  have htrim : trim (cs.map Char.toLower) = cs.map Char.toLower := by
    rw [trim, dropWhile_of_head fun c hc => (isAddressChar_plain (hlower c (List.mem_of_mem_head? hc))).2.2.1,
      List.rdropWhile_eq_self_iff]
    intro hne hblank
    rw [(isAddressChar_plain (hlower _ (List.getLast_mem hne))).2.2.1] at hblank
    cases hblank
  rw [normalizeResolvedAddress, htrim]
  exact cutZone_of_not_mem fun hmem => (isAddressChar_plain (hlower _ hmem)).2.2.2 rfl

theorem normalize_lower (h : ∀ c ∈ cs, isAddressChar c = true) :
    normalizeResolvedAddress (cs.map Char.toLower) = cs.map Char.toLower := by
  have hlower : ∀ c ∈ cs.map Char.toLower, isAddressChar c = true := by
    intro c hc
    obtain ⟨d, hd, rfl⟩ := List.mem_map.mp hc
    exact (isAddressChar_plain (h d hd)).1
  rw [normalize_address hlower, List.map_map]
  exact List.map_congr_left fun c hc => (isAddressChar_plain (h c hc)).2.1

/-! ### Four decimal bytes -/

theorem isIpv4Address_chars (h : isIpv4Address t = true) :
    '.' ∈ t ∧ ∀ c ∈ t, c.isDigit = true ∨ c = '.' := by
  rw [isIpv4Address, Bool.and_eq_true, beq_iff_eq, List.all_eq_true] at h
  obtain ⟨hfour, hbytes⟩ := h
  constructor
  · by_contra hdot
    rw [List.splitOn_eq_singleton hdot] at hfour
    cases hfour
  · intro c hc
    have hjoin : List.intercalate ['.'] (t.splitOn '.') = t := List.intercalate_splitOn '.'
    rw [← hjoin] at hc
    rcases mem_intercalate hc with rfl | ⟨part, hpart, hc⟩
    · exact Or.inr rfl
    · have hbyte := hbytes part hpart
      rw [isByteText, Bool.and_eq_true, List.all_eq_true] at hbyte
      exact Or.inl (hbyte.2 c hc)

theorem isIpv4Address_text (a : Ipv4) : isIpv4Address a.text = true := by
  have hbyte : ∀ n : Fin 256, isByteText (Nat.toDigits 10 n) = true := by
    intro n
    have hlength : (Nat.toDigits 10 n).length ≤ 3 := (Nat.length_toDigits_le_iff (by decide) (by decide)).mpr (by omega)
    rw [isByteText, Bool.and_eq_true, decide_eq_true_eq, List.all_eq_true]
    exact ⟨⟨Nat.length_toDigits_pos, hlength⟩, fun c hc => Ipv4.isDigit_toDigits hc⟩
  rw [isIpv4Address, Ipv4.splitOn_text]
  simp only [List.length_cons, List.length_nil, List.all_cons, hbyte, List.all_nil, Bool.and_true, beq_self_eq_true]

theorem isIpv4Loopback_text (a : Ipv4) : isIpv4Loopback a.text = a.isLoopback := by
  rw [isIpv4Loopback, isIpv4Address_text, Ipv4.splitOn_text, List.headD_cons, Nat.ofDigitChars_ten_toDigits,
    Bool.true_and, Ipv4.isLoopback]
  exact Bool.eq_iff_iff.mpr (by simp [Fin.ext_iff])

/-- The first bytes, as they are written. -/
def beginning : ℕ × Option ℕ → List Char
  | (n, none) => Nat.toDigits 10 n ++ ['.']
  | (n, some m) => Nat.toDigits 10 n ++ '.' :: (Nat.toDigits 10 m ++ ['.'])

theorem beginning_prefix_text (b : ℕ × Option ℕ) :
    (beginning b).isPrefixOf a.text = decide (b.1 = a.a ∧ ∀ m ∈ b.2, m = a.b) := by
  have hdot := Ipv4.dot_not_mem_toDigits
  rw [Bool.eq_iff_iff, List.isPrefixOf_iff_prefix, decide_eq_true_eq, Ipv4.text]
  obtain ⟨n, m⟩ := b
  cases m with
  | none =>
      rw [beginning, append_cons_prefix_iff (hdot _) (hdot _)]
      exact ⟨fun h => ⟨Ipv4.toDigits_inj h.1, by rintro _ ⟨⟩⟩, fun h => ⟨congrArg _ h.1, List.nil_prefix⟩⟩
  | some m =>
      rw [beginning, append_cons_prefix_iff (hdot _) (hdot _), append_cons_prefix_iff (hdot _) (hdot _)]
      constructor
      · rintro ⟨hn, hm, -⟩
        refine ⟨Ipv4.toDigits_inj hn, fun k hk => ?_⟩
        rw [← Option.some.inj hk]
        exact Ipv4.toDigits_inj hm
      · rintro ⟨hn, hm⟩
        exact ⟨congrArg _ hn, congrArg _ (hm m rfl), List.nil_prefix⟩

def privateBeginnings : List (ℕ × Option ℕ) :=
  [(10, none), (169, some 254)] ++ (List.range' 16 16).map (fun m => (172, some m)) ++ [(192, some 168), (0, none)]

theorem privateIpv4Pattern_eq : privateIpv4Pattern.map String.toList = privateBeginnings.map beginning := by
  decide

theorem isPrivate_text (a : Ipv4) : isPrivateOrReservedIpv4 a.text = true ↔
    a.isPrivate = true ∨ a.isLinkLocal = true ∨ a.a = 0 := by
  have hany : privateIpv4Pattern.any (·.toList.isPrefixOf a.text) =
      (privateIpv4Pattern.map String.toList).any (·.isPrefixOf a.text) := by
    rw [List.any_map]
    rfl
  have hbeginning : isPrivateOrReservedIpv4 a.text = true ↔
      ∃ b ∈ privateBeginnings, b.1 = a.a ∧ ∀ m ∈ b.2, m = a.b := by
    rw [isPrivateOrReservedIpv4, isIpv4Address_text, Bool.true_and, hany, privateIpv4Pattern_eq, List.any_map,
      List.any_eq_true]
    exact exists_congr fun b => and_congr_right fun _ => by
      rw [Function.comp, beginning_prefix_text, decide_eq_true_eq]
  have hmem : ∀ n m, (n, m) ∈ privateBeginnings ↔ (n = 10 ∧ m = none) ∨ (n = 169 ∧ m = some 254) ∨
      (∃ k, (16 ≤ k ∧ k < 32) ∧ n = 172 ∧ m = some k) ∨ (n = 192 ∧ m = some 168) ∨ (n = 0 ∧ m = none) := by
    intro n m
    simp only [privateBeginnings, List.mem_append, List.mem_cons, List.not_mem_nil, or_false, Prod.mk.injEq,
      List.mem_map, List.mem_range'_1, Nat.reduceAdd, or_assoc, eq_comm]
  simp only [Ipv4.isPrivate, Ipv4.isLinkLocal, Bool.or_eq_true, decide_eq_true_eq, Bool.and_eq_true, beq_iff_eq,
    Fin.ext_iff, Fin.le_def]
  rw [hbeginning]
  constructor
  · rintro ⟨⟨n, m⟩, hb, hn, hm⟩
    rcases (hmem n m).mp hb with ⟨rfl, rfl⟩ | ⟨rfl, rfl⟩ | ⟨k, hk, rfl, rfl⟩ | ⟨rfl, rfl⟩ | ⟨rfl, rfl⟩
    · exact Or.inl (Or.inl (Or.inl hn.symm))
    · exact Or.inr (Or.inl ⟨hn.symm, (hm 254 rfl).symm⟩)
    · have := hm k rfl
      exact Or.inl (Or.inl (Or.inr ⟨hn.symm, this ▸ hk.1, this ▸ Nat.le_of_lt_succ hk.2⟩))
    · exact Or.inl (Or.inr ⟨hn.symm, (hm 168 rfl).symm⟩)
    · exact Or.inr (Or.inr hn.symm)
  · rintro (((h | ⟨h, hlow, hhigh⟩) | ⟨h, h'⟩) | ⟨h, h'⟩ | h)
    · exact ⟨(10, none), (hmem _ _).mpr (Or.inl ⟨rfl, rfl⟩), h.symm, by rintro _ ⟨⟩⟩
    · refine ⟨(172, some a.b), (hmem _ _).mpr (Or.inr (Or.inr (Or.inl ⟨a.b, ⟨hlow, Nat.lt_succ_of_le hhigh⟩, rfl, rfl⟩))), h.symm, ?_⟩
      exact fun m hm => (Option.some.inj hm).symm
    · refine ⟨(192, some 168), (hmem _ _).mpr (Or.inr (Or.inr (Or.inr (Or.inl ⟨rfl, rfl⟩)))), h.symm, ?_⟩
      exact fun m hm => (Option.some.inj hm).symm.trans h'.symm
    · refine ⟨(169, some 254), (hmem _ _).mpr (Or.inr (Or.inl ⟨rfl, rfl⟩)), h.symm, ?_⟩
      exact fun m hm => (Option.some.inj hm).symm.trans h'.symm
    · exact ⟨(0, none), (hmem _ _).mpr (Or.inr (Or.inr (Or.inr (Or.inr ⟨rfl, rfl⟩)))), h.symm, by rintro _ ⟨⟩⟩

end Texts

/-! ## Addresses -/

section Addresses

variable {a : Ipv4} {cs t u x : List Char} {p : Piece}

def isAllowed (address : List Char) : Prop :=
  assertResolvedAddressAllowed address (https ++ [':']) = .ok ()

/-- Four bytes, by themselves or mapped. -/
theorem isAllowed_v4 (h : ((parseIpv4MappedIpv6 (normalizeResolvedAddress cs)).orElse fun _ =>
      if isIpv4Address (normalizeResolvedAddress cs) then some (normalizeResolvedAddress cs) else none) =
    some a.text) : isAllowed cs ↔ ¬ ReservedV4 a := by
  have hlocal : a.isLoopback = false → a.text ≠ "127.0.0.1".toList := by
    intro hloop htext
    have ha : a = ⟨127, 0, 0, 1⟩ := Ipv4.text_inj htext
    rw [ha] at hloop
    cases hloop
  have hreserved : ReservedV4 a ↔ a.isLoopback = true ∨ isPrivateOrReservedIpv4 a.text = true := by
    have hzero : a.isUnspecified = true → a.a = 0 := fun hz => congrArg Ipv4.a (beq_iff_eq.mp hz)
    rw [isPrivate_text, ReservedV4, InternalV4]
    constructor
    · rintro ((hl | hz | hp | hk) | h0)
      · exact Or.inl hl
      · exact Or.inr (Or.inr (Or.inr (hzero hz)))
      · exact Or.inr (Or.inl hp)
      · exact Or.inr (Or.inr (Or.inl hk))
      · exact Or.inr (Or.inr (Or.inr h0))
    · rintro (hl | hp | hk | h0)
      · exact Or.inl (Or.inl hl)
      · exact Or.inl (Or.inr (Or.inr (Or.inl hp)))
      · exact Or.inl (Or.inr (Or.inr (Or.inr hk)))
      · exact Or.inr h0
  rw [hreserved, isAllowed, assertResolvedAddressAllowed, h]
  dsimp only
  rw [isIpv4Loopback_text]
  cases hloop : a.isLoopback with
  | true =>
      rw [if_pos ⟨rfl, rfl⟩]
      exact ⟨nofun, fun h => absurd (Or.inl rfl) h⟩
  | false =>
      rw [if_neg fun h => Bool.false_ne_true h.2]
      cases hpriv : isPrivateOrReservedIpv4 a.text with
      | true =>
          rw [if_pos ⟨rfl, hlocal hloop⟩]
          exact ⟨nofun, fun h => absurd (Or.inr rfl) h⟩
      | false =>
          rw [if_neg fun h => Bool.false_ne_true h.1]
          exact ⟨fun _ h => h.elim Bool.false_ne_true Bool.false_ne_true, fun _ => rfl⟩

/-- Eight pieces that are not read as mapped. -/
theorem isAllowed_v6 (hcs : ∀ c ∈ cs, isAddressChar c = true) (hcolon : ':' ∈ cs.map Char.toLower)
    (hmapped : parseIpv4MappedIpv6 (cs.map Char.toLower) = none) :
    isAllowed cs ↔ cs.map Char.toLower ≠ "::1".toList ∧ cs.map Char.toLower ≠ "::".toList ∧
      ¬ BeginsLocal (cs.map Char.toLower) := by
  have hfour : isIpv4Address (cs.map Char.toLower) = false := by
    rw [Bool.eq_false_iff]
    intro h
    rcases (isIpv4Address_chars h).2 ':' hcolon with h | h
    · exact absurd h (by decide)
    · exact absurd h (by decide)
  rw [isAllowed, assertResolvedAddressAllowed, normalize_address hcs, hmapped, hfour, if_neg Bool.false_ne_true]
  dsimp only [Option.orElse]
  rw [isIpv6Loopback, isPrivateOrReservedIpv6, normalize_lower hcs]
  have hlocal : (["fc", "fd", "fe8", "fe9", "fea", "feb"].any fun s => s.toList.isPrefixOf (cs.map Char.toLower)) = true ↔
      BeginsLocal (cs.map Char.toLower) := by
    rw [List.any_eq_true]
    exact exists_congr fun s => and_congr_right fun _ => List.isPrefixOf_iff_prefix
  rw [← hlocal]
  split
  next h => exact ⟨nofun, fun hall => absurd (beq_iff_eq.mp h) hall.1⟩
  next h =>
    split
    next h' =>
      rw [Bool.or_eq_true, beq_iff_eq] at h'
      exact ⟨nofun, fun hall => absurd h' (not_or.mpr hall.2)⟩
    next h' =>
      rw [Bool.or_eq_true, beq_iff_eq, not_or] at h'
      exact ⟨fun _ => ⟨fun heq => h (beq_iff_eq.mpr heq), h'⟩, fun _ => rfl⟩

theorem mapped_eq_none (ht : normalizeResolvedAddress t = t)
    (h : ¬ ("::ffff:".toList <+: t ∧ isIpv4Address (t.drop 7) = true)) : parseIpv4MappedIpv6 t = none := by
  rw [parseIpv4MappedIpv6, ht]
  split
  next hbegins => exact if_neg fun hfour => h ⟨List.isPrefixOf_iff_prefix.mp hbegins, hfour⟩
  next => rfl

theorem beginsLocal_append : BeginsLocal (u ++ ':' :: x) ↔ BeginsLocal u := by
  constructor
  · rintro ⟨s, hs, hbegins⟩
    refine ⟨s, hs, ?_⟩
    rcases List.prefix_or_prefix_of_prefix hbegins (List.prefix_append u _) with h | ⟨v, hv⟩
    · exact h
    · have hplain : ∀ s ∈ ["fc", "fd", "fe8", "fe9", "fea", "feb"], ':' ∉ s.toList := by decide
      have hcolon := hplain s hs
      rw [← hv, List.prefix_append_right_inj] at hbegins
      cases v with
      | nil => rw [← hv, List.append_nil]
      | cons c v =>
          rw [List.cons_prefix_cons] at hbegins
          rw [← hv, hbegins.1] at hcolon
          exact absurd (List.mem_append_right _ List.mem_cons_self) hcolon
  · rintro ⟨s, hs, hbegins⟩
    exact ⟨s, hs, hbegins.trans (List.prefix_append u _)⟩

/-- The first piece is written. -/
theorem isAllowed_first (hcs : ∀ c ∈ cs, isAddressChar c = true) (ht : cs.map Char.toLower = u ++ ':' :: x)
    (hne : u ≠ []) (hu : ':' ∉ u) : isAllowed cs ↔ ¬ BeginsLocal u := by
  obtain ⟨c, u', rfl⟩ := List.exists_cons_of_ne_nil hne
  have hc : c ≠ ':' := fun h => hu (h ▸ List.mem_cons_self)
  have hmapped : parseIpv4MappedIpv6 (cs.map Char.toLower) = none := by
    refine mapped_eq_none (normalize_lower hcs) fun h => ?_
    rw [ht] at h
    exact hc (List.cons_prefix_cons.mp h.1).1.symm
  rw [isAllowed_v6 hcs (by simp [ht]) hmapped, ht, beginsLocal_append]
  constructor
  · exact fun h => h.2.2
  · intro h
    refine ⟨fun heq => ?_, fun heq => ?_, h⟩
    · exact hc (List.cons.inj heq).1
    · exact hc (List.cons.inj heq).1

/-- The first pieces are left out. -/
theorem isAllowed_zeros (hcs : ∀ c ∈ cs, isAddressChar c = true) (ht : cs.map Char.toLower = ':' :: ':' :: t)
    (h : ¬ ("ffff:".toList <+: t ∧ isIpv4Address (t.drop 5) = true)) : isAllowed cs ↔ t ≠ ['1'] ∧ t ≠ [] := by
  have hmapped : parseIpv4MappedIpv6 (cs.map Char.toLower) = none := by
    refine mapped_eq_none (normalize_lower hcs) fun hbegins => h ?_
    rw [ht] at hbegins
    exact ⟨(List.cons_prefix_cons.mp (List.cons_prefix_cons.mp hbegins.1).2).2, hbegins.2⟩
  have hlocal : ¬ BeginsLocal (':' :: ':' :: t) := by
    rintro ⟨s, hs, hbegins⟩
    have hcolon : ∀ s ∈ ["fc", "fd", "fe8", "fe9", "fea", "feb"], ∃ c cs, s.toList = c :: cs ∧ c ≠ ':' := by
      intro s hs
      simp only [List.mem_cons, List.not_mem_nil, or_false] at hs
      rcases hs with rfl | rfl | rfl | rfl | rfl | rfl <;> exact ⟨_, _, rfl, by decide⟩
    obtain ⟨c, cs', hcs', hc⟩ := hcolon s hs
    rw [hcs', List.cons_prefix_cons] at hbegins
    exact hc hbegins.1
  rw [isAllowed_v6 hcs (by simp [ht]) hmapped, ht]
  constructor
  · rintro ⟨hone, hnone, -⟩
    exact ⟨fun heq => hone (heq ▸ rfl), fun heq => hnone (heq ▸ rfl)⟩
  · rintro ⟨hone, hnone⟩
    exact ⟨fun heq => hone (List.cons.inj (List.cons.inj heq).2).2, fun heq =>
      hnone (List.cons.inj (List.cons.inj heq).2).2, hlocal⟩

theorem isAllowed_mapped (hcs : ∀ c ∈ cs, isAddressChar c = true)
    (ht : cs.map Char.toLower = "::ffff:".toList ++ a.text) : isAllowed cs ↔ ¬ ReservedV4 a := by
  refine isAllowed_v4 ?_
  have hdrop : ("::ffff:".toList ++ a.text).drop 7 = a.text := rfl
  rw [normalize_address hcs, parseIpv4MappedIpv6, normalize_lower hcs, ht,
    if_pos (List.isPrefixOf_iff_prefix.mpr (List.prefix_append _ _)), hdrop, if_pos (isIpv4Address_text a)]
  rfl

/-! ### Every spelling -/

theorem lower_text (a : Ipv4) : a.text.map Char.toLower = a.text := by
  conv_rhs => rw [← List.map_id a.text]
  refine List.map_congr_left fun c hc => ?_
  rcases a.text_chars c hc with h | rfl
  · exact toLower_of_isDigit h
  · rfl

theorem lower_joinColon (ws : List (List Char)) :
    (joinColon ws).map Char.toLower = joinColon (ws.map (·.map Char.toLower)) := by
  induction ws with
  | nil => rfl
  | cons w ws ih =>
      by_cases hws : ws = []
      · rw [hws, List.map_singleton, joinColon_singleton, joinColon_singleton]
      · rw [joinColon_cons hws, List.map_cons, joinColon_cons (by simpa using hws), ← ih, List.map_append]
        rfl

theorem lower_words (ps : List Piece) (tail : Option Ipv4) :
    (ps.map Piece.digits ++ tailTexts tail).map (·.map Char.toLower) = ps.map lowered ++ tailTexts tail := by
  rw [List.map_append, List.map_map]
  cases tail with
  | none => rfl
  | some a => rw [tailTexts, List.map_singleton, lower_text]; rfl

theorem lowered_plain (p : Piece) : lowered p ≠ [] ∧ ':' ∉ lowered p ∧ '.' ∉ lowered p := by
  refine ⟨by simpa [lowered] using p.written, ?_, ?_⟩
  all_goals
    intro hmem
    obtain ⟨c, hc, hlow⟩ := List.mem_map.mp hmem
    have hhex := p.hex c hc
    rw [isHexDigit, ← (hexDigitValue_spec c).1, hlow] at hhex
    cases hhex

theorem lowered_eq_one (p : Piece) : lowered p = ['1'] ↔ p.digits = ['1'] := by
  constructor
  · intro h
    obtain ⟨c, hdigits, hc⟩ := List.map_eq_singleton_iff.mp h
    have hsmall : ∀ n, n < 128 → (Char.ofNat n).toLower = '1' → Char.ofNat n = '1' := by decide
    have hrange := isHexDigit_range (p.hex c (by rw [hdigits]; exact List.mem_cons_self))
    rw [hdigits, ← Char.ofNat_toNat c, hsmall c.toNat (by omega) (by rwa [Char.ofNat_toNat])]
  · intro h
    rw [lowered, h]
    rfl

theorem isAllowed_text (s : AddressSpelling) : isAllowed s.text ↔ ¬ Recognised s := by
  have hchars := s.text_chars
  match s with
  | .ipv4 a =>
      refine isAllowed_v4 ?_
      obtain ⟨c, cs, hcs, hc⟩ := a.text_first
      have hmapped : parseIpv4MappedIpv6 a.text = none := by
        refine mapped_eq_none ?_ fun h => ?_
        · exact (normalize_address hchars).trans (lower_text a)
        · rw [hcs] at h
          rw [← (List.cons_prefix_cons.mp h.1).1] at hc
          exact absurd hc (by decide)
      rw [(normalize_address hchars).trans (lower_text a), hmapped, isIpv4Address_text]
      rfl
  | .ipv6 (.expanded [] tail eight) =>
      have hshort : (tailPieces tail).length ≤ 2 := by
        cases tail with
        | none => exact Nat.zero_le 2
        | some a => exact Nat.le_refl 2
      rw [List.length_nil] at eight
      omega
  | .ipv6 (.expanded (p :: ps) tail eight) =>
      have hrest : ps.map lowered ++ tailTexts tail ≠ [] := by
        cases ps with
        | nil =>
            cases tail with
            | none => cases eight
            | some a => exact List.cons_ne_nil _ _
        | cons q ps => exact List.cons_ne_nil _ _
      obtain ⟨hne, hcolon, -⟩ := lowered_plain p
      have htext : (AddressSpelling.ipv6 (.expanded (p :: ps) tail eight)).text.map Char.toLower =
          lowered p ++ ':' :: joinColon (ps.map lowered ++ tailTexts tail) := by
        show (joinColon _).map Char.toLower = _
        rw [lower_joinColon, lower_words, List.map_cons, List.cons_append, joinColon_cons hrest]
      exact isAllowed_first hchars htext hne hcolon
  | .ipv6 (.compressed (p :: l) r tail short) =>
      obtain ⟨hne, hcolon, -⟩ := lowered_plain p
      have hl : (joinColon ((p :: l).map Piece.digits)).map Char.toLower = joinColon ((p :: l).map lowered) := by
        simpa [tailTexts] using (lower_joinColon _).trans (congrArg joinColon (lower_words (p :: l) none))
      have htext : ∃ x, (AddressSpelling.ipv6 (.compressed (p :: l) r tail short)).text.map Char.toLower =
          lowered p ++ ':' :: x := by
        show ∃ x, (joinColon _ ++ _).map Char.toLower = _
        rw [List.map_append, hl, List.map_cons]
        by_cases hempty : l.map lowered = []
        · rw [hempty, joinColon_singleton]
          exact ⟨_, rfl⟩
        · rw [joinColon_cons hempty, List.append_assoc]
          exact ⟨_, rfl⟩
      obtain ⟨x, hx⟩ := htext
      exact isAllowed_first hchars hx hne hcolon
  | .ipv6 (.compressed [] r tail short) =>
      have htext : (AddressSpelling.ipv6 (.compressed [] r tail short)).text.map Char.toLower =
          ':' :: ':' :: joinColon (r.map lowered ++ tailTexts tail) := by
        show ':' :: ':' :: (joinColon _).map Char.toLower = _
        rw [lower_joinColon, lower_words]
      match r, tail with
      | [], none =>
          rw [isAllowed_zeros hchars htext (fun h => absurd h.1 (by decide))]
          exact ⟨fun h => absurd rfl h.2, fun h => absurd trivial h⟩
      | [], some a =>
          rw [List.map_nil, List.nil_append, tailTexts, joinColon_singleton] at htext
          have hdot : '.' ∈ a.text := (isIpv4Address_chars (isIpv4Address_text a)).1
          rw [isAllowed_zeros hchars htext]
          · refine ⟨fun _ h => h, fun _ => ⟨fun heq => ?_, fun heq => ?_⟩⟩
            · rw [heq] at hdot
              exact absurd hdot (by decide)
            · rw [heq] at hdot
              exact absurd hdot List.not_mem_nil
          · rintro ⟨hbegins, -⟩
            rcases a.text_chars ':' (hbegins.subset (by decide)) with h | h
            · exact absurd h (by decide)
            · exact absurd h (by decide)
      | [p], none =>
          obtain ⟨hne, hcolon, -⟩ := lowered_plain p
          rw [List.map_singleton, tailTexts, List.append_nil, joinColon_singleton] at htext
          rw [isAllowed_zeros hchars htext fun h => hcolon (h.1.subset (by decide)), Ne, lowered_eq_one]
          exact ⟨fun h => h.1, fun h => ⟨h, hne⟩⟩
      | [p], some a =>
          obtain ⟨hne, hcolon, -⟩ := lowered_plain p
          rw [List.map_singleton, tailTexts, List.singleton_append, joinColon_cons (List.cons_ne_nil _ _),
            joinColon_singleton] at htext
          by_cases hffff : lowered p = "ffff".toList
          · rw [hffff] at htext
            rw [isAllowed_mapped hchars htext]
            exact not_congr ⟨fun h => ⟨hffff, h⟩, fun h => h.2⟩
          · rw [isAllowed_zeros hchars htext]
            · refine ⟨fun _ h => hffff h.1, fun _ => ⟨fun heq => ?_, fun heq => ?_⟩⟩
              · have hmem : ':' ∈ lowered p ++ ':' :: a.text := List.mem_append_right _ List.mem_cons_self
                rw [heq] at hmem
                exact absurd hmem (by decide)
              · exact absurd heq (by simp)
            · rintro ⟨hbegins, -⟩
              exact hffff ((append_cons_prefix_iff (u := "ffff".toList) (x := []) (by decide) hcolon).mp hbegins).1.symm
      | p :: q :: r, tail =>
          obtain ⟨hne, hcolon, -⟩ := lowered_plain p
          rw [List.map_cons, List.cons_append, joinColon_cons (by simp)] at htext
          rw [isAllowed_zeros hchars htext]
          · refine ⟨fun _ h => h, fun _ => ⟨fun heq => ?_, fun heq => ?_⟩⟩
            · have hmem : ':' ∈ ['1'] := heq ▸ List.mem_append_right _ List.mem_cons_self
              exact absurd hmem (by decide)
            · exact absurd heq (by simp)
          · rintro ⟨hbegins, hfour⟩
            have hffff := ((append_cons_prefix_iff (u := "ffff".toList) (x := []) (by decide) hcolon).mp hbegins).1
            rw [← hffff] at hfour
            change isIpv4Address (joinColon (lowered q :: (r.map lowered ++ tailTexts tail))) = true at hfour
            obtain ⟨hdot, hdigits⟩ := isIpv4Address_chars hfour
            by_cases hlast : r.map lowered ++ tailTexts tail = []
            · rw [hlast, joinColon_singleton] at hdot
              exact (lowered_plain q).2.2 hdot
            · rw [joinColon_cons hlast] at hdigits
              rcases hdigits ':' (List.mem_append_right _ List.mem_cons_self) with h | h
              · exact absurd h (by decide)
              · exact absurd h (by decide)

/-! ### Internal addresses -/

/-- Of four digits the first ones are known by the value. -/
theorem beginsLocal_of_value (h : (0xfc00 ≤ p.value ∧ p.value < 0xfe00) ∨ (0xfe80 ≤ p.value ∧ p.value < 0xfec0)) :
    BeginsLocal (lowered p) := by
  obtain ⟨digits, written, short, hex⟩ := p
  have hfour : digits.length = 4 := by
    have hlt := hexValue_foldl_lt digits 0 hex
    have hge : 16 ^ 3 < 16 ^ digits.length := by
      change hexValue digits < _ at hlt
      change (0xfc00 ≤ hexValue digits ∧ _) ∨ (0xfe80 ≤ hexValue digits ∧ _) at h
      omega
    have := (Nat.pow_lt_pow_iff_right (by decide)).mp hge
    omega
  match digits, hfour with
  | [c₃, c₂, c₁, c₀], _ =>
      obtain ⟨d₃, h₃⟩ := Option.isSome_iff_exists.mp (hex c₃ (by simp))
      obtain ⟨d₂, h₂⟩ := Option.isSome_iff_exists.mp (hex c₂ (by simp))
      obtain ⟨d₁, h₁⟩ := Option.isSome_iff_exists.mp (hex c₁ (by simp))
      obtain ⟨d₀, h₀⟩ := Option.isSome_iff_exists.mp (hex c₀ (by simp))
      have hvalue : hexValue [c₃, c₂, c₁, c₀] = 16 * (16 * (16 * (16 * 0 + d₃) + d₂) + d₁) + d₀ := by
        simp only [hexValue, List.foldl_cons, List.foldl_nil, h₃, h₂, h₁, h₀, Option.getD_some]
      obtain ⟨hd₃, e₃⟩ := (hexDigitValue_spec c₃).2 d₃ h₃
      obtain ⟨hd₂, e₂⟩ := (hexDigitValue_spec c₂).2 d₂ h₂
      obtain ⟨hd₁, e₁⟩ := (hexDigitValue_spec c₁).2 d₁ h₁
      obtain ⟨hd₀, e₀⟩ := (hexDigitValue_spec c₀).2 d₀ h₀
      have hlowered : [c₃, c₂, c₁, c₀].map Char.toLower =
          [Json.hexDigit d₃, Json.hexDigit d₂, Json.hexDigit d₁, Json.hexDigit d₀] := by
        rw [e₃, e₂, e₁, e₀]
        rfl
      change (0xfc00 ≤ hexValue _ ∧ hexValue _ < 0xfe00) ∨ (0xfe80 ≤ hexValue _ ∧ hexValue _ < 0xfec0) at h
      rw [hvalue] at h
      show BeginsLocal ([c₃, c₂, c₁, c₀].map Char.toLower)
      rw [hlowered]
      obtain rfl : d₃ = 15 := by omega
      have hbegins : ∀ s ∈ ["fc", "fd", "fe8", "fe9", "fea", "feb"], ∀ t : List Char, s.toList <+: t → BeginsLocal t :=
        fun s hs t ht => ⟨s, hs, ht⟩
      obtain rfl | rfl | ⟨rfl, h⟩ : d₂ = 12 ∨ d₂ = 13 ∨ (d₂ = 14 ∧ 8 ≤ d₁ ∧ d₁ < 12) := by omega
      · exact hbegins "fc" (by decide) _ ⟨_, rfl⟩
      · exact hbegins "fd" (by decide) _ ⟨_, rfl⟩
      · obtain rfl | rfl | rfl | rfl : d₁ = 8 ∨ d₁ = 9 ∨ d₁ = 10 ∨ d₁ = 11 := by omega
        · exact hbegins "fe8" (by decide) _ ⟨_, rfl⟩
        · exact hbegins "fe9" (by decide) _ ⟨_, rfl⟩
        · exact hbegins "fea" (by decide) _ ⟨_, rfl⟩
        · exact hbegins "feb" (by decide) _ ⟨_, rfl⟩

/-- The first piece of the address, where it is written. -/
theorem firstPiece_value {s : Ipv6Spelling} (h : s.value.firstPiece ≠ 0) :
    (∃ p ps tail eight, s = .expanded (p :: ps) tail eight ∧ s.value.firstPiece = p.value) ∨
      ∃ p l r tail short, s = .compressed (p :: l) r tail short ∧ s.value.firstPiece = p.value := by
  match s with
  | .expanded [] tail eight =>
      have hshort : (tailPieces tail).length ≤ 2 := by
        cases tail with
        | none => exact Nat.zero_le 2
        | some a => exact Nat.le_refl 2
      rw [List.length_nil] at eight
      omega
  | .expanded (p :: ps) tail eight => exact Or.inl ⟨p, ps, tail, eight, rfl, rfl⟩
  | .compressed (p :: l) r tail short => exact Or.inr ⟨p, l, r, tail, short, rfl, rfl⟩
  | .compressed [] r tail short =>
      refine absurd ?_ h
      obtain ⟨n, hn⟩ := Nat.exists_eq_succ_of_ne_zero
        (show 8 - (0 + r.length + (tailPieces tail).length) ≠ 0 by
          rw [List.length_nil] at short
          omega)
      show (List.replicate (8 - (0 + r.length + (tailPieces tail).length)) 0 ++ _).headD 0 = 0
      rw [hn]
      rfl

theorem not_isAllowed_one : ¬ isAllowed "::1".toList :=
  fun h => ((isAllowed_zeros (by decide) rfl (by decide)).mp h).1 rfl

theorem not_isAllowed_unspecified : ¬ isAllowed "::".toList :=
  fun h => ((isAllowed_zeros (by decide) rfl (by decide)).mp h).2 rfl

theorem not_local {s : Ipv6Spelling} (h : ¬ Recognised (.ipv6 s)) :
    ¬ (s.value.isUniqueLocal = true ∨ s.value.isLinkLocal = true) := by
  intro hin
  simp only [Ipv6.isUniqueLocal, Ipv6.isLinkLocal, decide_eq_true_eq] at hin
  rcases firstPiece_value (show s.value.firstPiece ≠ 0 by omega) with
    ⟨p, ps, tail, eight, rfl, hp⟩ | ⟨p, l, r, tail, short, rfl, hp⟩
  · exact h (beginsLocal_of_value (hp ▸ hin))
  · exact h (beginsLocal_of_value (hp ▸ hin))

/-- What is not recognised leads to an internal address only if it is missed. -/
theorem internal_iff_missed (s : AddressSpelling) (h : ¬ Recognised s) : Internal s.value ↔ Missed s := by
  cases s with
  | ipv4 a => exact ⟨fun hin => absurd (Or.inl hin) h, False.elim⟩
  | ipv6 s =>
      have hallowed : isAllowed s.text := (isAllowed_text (.ipv6 s)).mpr h
      have hlocal := not_local h
      have hone : s.text ≠ "::1".toList := fun htext => not_isAllowed_one (htext ▸ hallowed)
      have hzero : s.text ≠ "::".toList := fun htext => not_isAllowed_unspecified (htext ▸ hallowed)
      have hmapped : ∀ a, InternalV4 a → s.text.map Char.toLower ≠ "::ffff:".toList ++ a.text :=
        fun a hin htext => (isAllowed_mapped (AddressSpelling.text_chars (.ipv6 s)) htext).mp hallowed (Or.inl hin)
      rw [AddressSpelling.value, Internal, Missed]
      generalize "::1".toList = one, "::".toList = zero, "::ffff:".toList = mapped at hone hzero hmapped ⊢
      constructor
      · rintro (hl | hz | hu | hk | ⟨a, ha, hin⟩)
        · exact Or.inl ⟨hl, hone⟩
        · exact Or.inr (Or.inl ⟨hz, hzero⟩)
        · exact absurd (Or.inl hu) hlocal
        · exact absurd (Or.inr hk) hlocal
        · exact Or.inr (Or.inr ⟨a, ha, hin, hmapped a hin⟩)
      · rintro (⟨hl, -⟩ | ⟨hz, -⟩ | ⟨a, ha, hin, -⟩)
        · exact Or.inl hl
        · exact Or.inr (Or.inl hz)
        · exact Or.inr (Or.inr (Or.inr (Or.inr ⟨a, ha, hin⟩)))

end Addresses

/-! ## URLs -/

section Urls

variable {w : World} {newURL : List Char → Option Url}
  {resolve : List Char → Except (Option String) (List AddressSpelling)} {rawUrl : List Char} {url : Url}

theorem assertAllAllowed_ok {texts : List (List Char)} :
    assertAllAllowed (https ++ [':']) texts = .ok () ↔ ∀ t ∈ texts, isAllowed t := by
  induction texts with
  | nil => exact ⟨fun _ _ h => absurd h List.not_mem_nil, fun _ => rfl⟩
  | cons t texts ih =>
      rw [List.forall_mem_cons, ← ih, assertAllAllowed, isAllowed]
      cases assertResolvedAddressAllowed t (https ++ [':']) with
      | error e => exact ⟨nofun, fun h => nomatch h.1⟩
      | ok u => exact ⟨fun h => ⟨rfl, h⟩, fun h => h.2⟩

theorem asks_iff : Asks url ↔ ¬ IsLocalDev url ∧ shouldSkipDnsLookup (nameOf url) = false ∧
    url.protocol = https ++ [':'] ∧ url.username = [] ∧ url.password = [] ∧ nameOf url ∉ blockedHostnames ∧
      '%' ∉ nameOf url := by
  have hnumber : isIpv4Address "127.0.0.1".toList = true := isIpv4Address_text ⟨127, 0, 0, 1⟩
  constructor
  · intro h
    refine ⟨?_, ?_, h.secure, h.username, h.password, h.named, h.plain.2⟩
    · rintro (hlocal | hlocal)
      · rw [h.remote] at hlocal
        cases hlocal
      · rw [← hlocal, h.unnumbered] at hnumber
        cases hnumber
    · rw [shouldSkipDnsLookup, h.unnumbered, h.remote, beq_eq_false_iff_ne.mpr h.unbracketed]
      simpa using h.plain.1
  · rintro ⟨hlocal, hskip, hsecure, husername, hpassword, hnamed, hzone⟩
    simp only [shouldSkipDnsLookup, Bool.or_eq_false_iff, beq_eq_false_iff_ne] at hskip
    obtain ⟨⟨⟨hfour, hbracket⟩, hcolon⟩, hremote⟩ := hskip
    exact ⟨hsecure, husername, hpassword, hnamed, hremote, hfour, hbracket, by simpa using hcolon, hzone⟩

/-- Which URLs get as far as the resolver. -/
theorem validate_ok_iff : (validateServerOutboundUrl w rawUrl {} = .ok url ∧ ¬ IsLocalDev url ∧
      shouldSkipDnsLookup (nameOf url) = false) ↔ w.newURL (trim rawUrl) = some url ∧ Asks url := by
  rw [validateServerOutboundUrl]
  constructor
  · rintro ⟨hok, hremote, hskip⟩
    split at hok
    next => cases hok
    next parsed hparsed =>
      dsimp only at hok
      split_ifs at hok with hprotocol huser hnamed hhttp hloop hpriv hliteral
      obtain rfl := Except.ok.inj hok
      have hloc : ¬ (isLocalhostHostname (nameOf parsed) || nameOf parsed == "127.0.0.1".toList) = true := by
        rw [Bool.or_eq_true, beq_iff_eq]
        exact hremote
      have hsecure : parsed.protocol = https ++ [':'] := by
        by_contra hne
        have hplain : parsed.protocol = http ++ [':'] := by
          by_contra hne'
          exact hprotocol ⟨hne, hne'⟩
        exact hhttp ⟨hplain, Or.inr (eq_false_of_ne_true hloc)⟩
      rw [not_or, not_not, not_not] at huser
      exact ⟨hparsed, asks_iff.mpr ⟨hremote, hskip, hsecure, huser.1, huser.2, hnamed, fun h => hliteral (Or.inr h)⟩⟩
  · rintro ⟨hparsed, hasks⟩
    obtain ⟨hremote, hskip, -⟩ := asks_iff.mp hasks
    have hloop : isIpv4Loopback (nameOf url) = false := by rw [isIpv4Loopback, hasks.unnumbered, Bool.false_and]
    have hpriv : isPrivateOrReservedIpv4 (nameOf url) = false := by
      rw [isPrivateOrReservedIpv4, hasks.unnumbered, Bool.false_and]
    have hhttp : url.protocol ≠ http ++ [':'] := by
      rw [hasks.secure]
      decide
    refine ⟨?_, hremote, hskip⟩
    rw [hparsed]
    dsimp only
    rw [if_neg fun h => h.1 hasks.secure, if_neg fun h => h.elim (· hasks.username) (· hasks.password),
      if_neg hasks.named, if_neg fun h => hhttp h.1, hloop, hasks.remote, hpriv,
      if_neg fun h => Bool.false_ne_true h.2.2, if_neg fun h => Bool.false_ne_true h.1,
      if_neg fun h => h.elim hasks.unbracketed hasks.plain.2]

/-- What a fetch that is let through has passed. -/
theorem withDns_ok (h : validateServerOutboundUrlWithDns w rawUrl {} = .ok url) :
    validateServerOutboundUrl w rawUrl {} = .ok url ∧ (shouldSkipDnsLookup (nameOf url) = true ∨
      ∃ texts, w.resolve (nameOf url) = .ok texts ∧ assertAllAllowed url.protocol texts = .ok ()) := by
  rw [validateServerOutboundUrlWithDns] at h
  cases hvalid : validateServerOutboundUrl w rawUrl {} with
  | error e =>
      rw [hvalid] at h
      cases h
  | ok parsed =>
      rw [hvalid] at h
      dsimp only at h
      rw [if_neg Bool.false_ne_true] at h
      split at h
      next hskip =>
        obtain rfl := Except.ok.inj h
        exact ⟨rfl, Or.inl hskip⟩
      next =>
        split at h
        next => cases h
        next texts hresolve =>
          split at h
          next => cases h
          next =>
            cases hall : assertAllAllowed parsed.protocol texts with
            | error e =>
                rw [hall] at h
                cases h
            | ok u =>
                rw [hall] at h
                obtain rfl := Except.ok.inj h
                exact ⟨rfl, Or.inr ⟨texts, hresolve, hall⟩⟩

/-- The addresses are internal only if the policy misses them. -/
theorem outbound_safe_iff (newURL : List Char → Option Url)
    (resolve : List Char → Except (Option String) (List AddressSpelling)) (rawUrl : List Char) :
    Safe newURL resolve rawUrl ↔
      ∀ url, newURL (trim rawUrl) = some url → Asks url → ∀ addresses, resolve (nameOf url) = .ok addresses →
        (∃ s ∈ addresses, Recognised s) ∨ ∀ s ∈ addresses, ¬ Missed s := by
  have hresolved : ∀ url addresses, resolve (nameOf url) = .ok addresses →
      (worldOf newURL resolve).resolve (nameOf url) = .ok (addresses.map AddressSpelling.text) := by
    intro url addresses h
    show (resolve (nameOf url)).map _ = _
    rw [h]
    rfl
  constructor
  · intro hsafe url hurl hasks addresses haddresses
    by_cases hrecognised : ∃ s ∈ addresses, Recognised s
    · exact Or.inl hrecognised
    · right
      push Not at hrecognised
      intro s hs
      obtain ⟨hvalid, hremote, hskip⟩ := (validate_ok_iff (w := worldOf newURL resolve)).mpr ⟨hurl, hasks⟩
      have hall : assertAllAllowed url.protocol (addresses.map AddressSpelling.text) = .ok () := by
        rw [hasks.secure, assertAllAllowed_ok]
        intro t ht
        obtain ⟨s', hs', rfl⟩ := List.mem_map.mp ht
        exact (isAllowed_text s').mpr (hrecognised s' hs')
      have hlength : (addresses.map AddressSpelling.text).length ≠ 0 := by
        rw [List.length_map]
        exact Nat.ne_of_gt (List.length_pos_of_mem hs)
      have hok : validateServerOutboundUrlWithDns (worldOf newURL resolve) rawUrl {} = .ok url := by
        rw [validateServerOutboundUrlWithDns, hvalid]
        dsimp only
        rw [if_neg Bool.false_ne_true, hskip, if_neg Bool.false_ne_true, hresolved url addresses haddresses]
        dsimp only
        rw [if_neg hlength, hall]
        rfl
      have hreturned : s ∈ returned resolve url := by
        rw [returned, hskip, haddresses]
        exact hs
      exact fun hmissed => hsafe url hok hremote s hreturned ((internal_iff_missed s (hrecognised s hs)).mpr hmissed)
  · intro hmeets url hok hremote s hs
    rw [returned] at hs
    split at hs
    next => exact absurd hs List.not_mem_nil
    next hskip =>
      split at hs
      next addresses haddresses =>
        obtain ⟨hvalid, hskipped | ⟨texts, htexts, hall⟩⟩ := withDns_ok hok
        · exact absurd hskipped hskip
        · rw [hresolved url addresses haddresses] at htexts
          obtain ⟨hurl, hasks⟩ := validate_ok_iff.mp ⟨hvalid, hremote, eq_false_of_ne_true hskip⟩
          rw [← Except.ok.inj htexts, hasks.secure, assertAllAllowed_ok] at hall
          have hunknown : ∀ s ∈ addresses, ¬ Recognised s := fun s hs =>
            (isAllowed_text s).mp (hall s.text (List.mem_map_of_mem hs))
          rw [internal_iff_missed s (hunknown s hs)]
          rcases hmeets url hurl hasks addresses haddresses with ⟨s', hs', hrecognised⟩ | hnone
          · exact absurd hrecognised (hunknown s' hs')
          · exact hnone s hs
      next => exact absurd hs List.not_mem_nil

end Urls

/-! ### Addresses that are missed -/

def piece (digits : List Char) (h : (digits ≠ [] ∧ digits.length ≤ 4 ∧ ∀ c ∈ digits, isHexDigit c = true) := by decide) :
    Piece := ⟨digits, h.1, h.2.1, h.2.2⟩

/-- `::ffff:7f00:1` -/
def mappedLoopback : AddressSpelling :=
  .ipv6 (.compressed [] [piece "ffff".toList, piece "7f00".toList, piece "1".toList] none (by decide))

/-- `0:0:0:0:0:0:0:1` -/
def fullLoopback : AddressSpelling :=
  .ipv6 (.expanded (List.replicate 7 (piece "0".toList) ++ [piece "1".toList]) none (by decide))

/-- The URLs of one name. -/
def exampleUrl (cs : List Char) : Option Url :=
  if cs = "https://safe.example.com/token".toList then
    some ⟨https ++ [':'], [], [], "safe.example.com".toList⟩
  else none

/-- Loopback in hexadecimal digits, and in full. -/
theorem loopback_let_through :
    ¬ Safe exampleUrl (fun _ => .ok [mappedLoopback]) "https://safe.example.com/token".toList ∧
      ¬ Safe exampleUrl (fun _ => .ok [fullLoopback]) "https://safe.example.com/token".toList := by
  have hok : ∀ s ∈ [mappedLoopback, fullLoopback],
      validateServerOutboundUrlWithDns (worldOf exampleUrl fun _ => .ok [s]) "https://safe.example.com/token".toList {} =
        .ok ⟨https ++ [':'], [], [], "safe.example.com".toList⟩ := by decide
  have hremote : ¬ IsLocalDev ⟨https ++ [':'], [], [], "safe.example.com".toList⟩ := by
    unfold IsLocalDev
    decide
  have hreturned : ∀ s, returned (fun _ => .ok [s]) ⟨https ++ [':'], [], [], "safe.example.com".toList⟩ = [s] :=
    fun s => if_neg (by decide)
  refine ⟨fun h => ?_, fun h => ?_⟩
  · refine h _ (hok _ List.mem_cons_self) hremote mappedLoopback ?_ ?_
    · rw [hreturned]
      exact List.mem_cons_self
    · exact Or.inr (Or.inr (Or.inr (Or.inr ⟨⟨127, 0, 0, 1⟩, by decide, Or.inl (by decide)⟩)))
  · refine h _ (hok _ (List.mem_cons_of_mem _ List.mem_cons_self)) hremote fullLoopback ?_ ?_
    · rw [hreturned]
      exact List.mem_cons_self
    · exact Or.inl (by decide)

end RedFireForge.Grpc.OutboundUrlPolicy
