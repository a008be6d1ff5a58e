/-
# `RedFireForge.Engine.TokenManager` — OAuth2 tokens under their credentials

Translated from `engine/core/tokenManager.ts`.  A step is what the manager does between two
awaits: a call runs as far as its first one, the answer of the token endpoint is read and
cached, and the call that started the request leaves the pending map.  Which refresh a
cached token comes from, the requests and the calls are recorded for the statements only.

`JSON.parse` and the look at `exp` are a function of the decoded payload, byte by byte.
-/
import RedFireForge.Lib.InsertionMap
import RedFireForge.Lib.Run
import RedFireForge.Lib.Text
import Mathlib.Data.Rat.Floor
import Mathlib.Tactic.Linarith

namespace RedFireForge.Engine.TokenManager

open RedFireForge.Lib

/-! ## `atob` -/

/-- The six bits a character stands for. -/
def sextet (c : Char) : Option ℕ :=
  if 'A' ≤ c ∧ c ≤ 'Z' then some (c.toNat - 65)
  else if 'a' ≤ c ∧ c ≤ 'z' then some (c.toNat - 71)
  else if '0' ≤ c ∧ c ≤ '9' then some (c.toNat + 4)
  else if c = '+' then some 62
  else if c = '/' then some 63
  else none

/-- Four times six bits are three bytes; what is left at the end is dropped. -/
def bytes : List ℕ → List Char
  | a :: b :: c :: d :: rest =>
      Char.ofNat (a * 4 + b / 16) :: Char.ofNat (b % 16 * 16 + c / 4) ::
        Char.ofNat (c % 4 * 64 + d) :: bytes rest
  | [a, b, c] => [Char.ofNat (a * 4 + b / 16), Char.ofNat (b % 16 * 16 + c / 4)]
  | [a, b] => [Char.ofNat (a * 4 + b / 16)]
  | _ => []

/-- One or two `=` at the end of a text of whole groups. -/
def stripPadding (data : List Char) : List Char :=
  if data.length % 4 = 0 then
    if ['=', '='] <:+ data then data.dropLast.dropLast
    else if ['='] <:+ data then data.dropLast
    else data
  else data

/-- `none` where it throws. -/
def atob (data : List Char) : Option (List Char) :=
  let data := stripPadding (data.filter fun c => !(c ∈ ['\t', '\n', '\x0c', '\r', ' ']))
  if data.length % 4 = 1 then none else (data.mapM sextet).map bytes

/-! ## Expiry -/

section Expiry

variable (readExp : List Char → Option ℚ)

def tokenPayload (token : String) : Option (List Char) :=
  (token.toList.splitOn '.')[1]?.bind fun payload => if payload = [] then none else some payload

/-- `none` also where `access_token` is no text. -/
def parseJwtExpiry (token : Option String) : Option ℚ :=
  token.bind fun token => (tokenPayload token).bind fun payload => (atob payload).bind readExp

/-- The character of the standard alphabet in the place of one of base64url. -/
def fromUrl (c : Char) : Char := if c = '-' then '+' else if c = '_' then '/' else c

/-- The payload as base64url spells it. -/
def decodeUrl (payload : List Char) : Option (List Char) :=
  if '+' ∈ payload ∨ '/' ∈ payload then none else atob (payload.map fromUrl)

/-- The numeric `exp` of a token's base64url payload. -/
def urlExpiry (token : Option String) : Option ℚ :=
  token.bind fun token => (tokenPayload token).bind fun payload => (decodeUrl payload).bind readExp

end Expiry

/-! ## Credentials -/

inductive AuthType
  | none | inherit | basic | bearer | apikey | digest | oauth2
deriving DecidableEq

structure AuthConfig where
  type : AuthType
  tokenUrl : Option String
  clientId : Option String
  clientSecret : Option String
deriving DecidableEq

/-- A field in a template literal. -/
def shown (field : Option String) : String := field.getD "undefined"

def AuthConfig.credKey (auth : AuthConfig) : String :=
  shown auth.tokenUrl ++ "|" ++ shown auth.clientId ++ "|" ++ shown auth.clientSecret

def AuthConfig.triple (auth : AuthConfig) : Option String × Option String × Option String :=
  (auth.tokenUrl, auth.clientId, auth.clientSecret)

def truthy (field : Option String) : Bool := field.any fun text => text != ""

def AuthConfig.complete (auth : AuthConfig) : Bool :=
  truthy auth.tokenUrl && truthy auth.clientId && truthy auth.clientSecret

/-! ## The manager -/

def tokenExpiryBufferSec : ℚ := 30

/-- A request is under way, it has been answered or has failed, and its owner has left the
pending map. -/
inductive Phase
  | requested | settled | finished
deriving DecidableEq

structure Refresh where
  key : String
  auth : AuthConfig
  phase : Phase

/-- Without a field it needs, a refresh fails before it asks. -/
def Refresh.start (key : String) (auth : AuthConfig) : Refresh :=
  ⟨key, auth, if auth.complete then .requested else .settled⟩

structure CachedToken where
  token : Option String
  expiresSec : ℚ
  refresh : ℕ

/-- What a call answers with. -/
inductive Served
  | cached (entry : CachedToken)
  | inflight (refresh : ℕ)

def Served.refresh : Served → ℕ
  | .cached entry => entry.refresh
  | .inflight refresh => refresh

def Served.entry : Served → Option CachedToken
  | .cached entry => some entry
  | .inflight _ => none

structure Call where
  auth : AuthConfig
  now : ℕ
  served : Served

structure Manager where
  cache : InsertionMap String CachedToken := ∅
  pending : InsertionMap String ℕ := ∅
  refreshes : List Refresh := []
  calls : List Call := []

/-- `Date.now()` in whole seconds. -/
def nowSec (now : ℕ) : ℕ := now / 1000

def CachedToken.isExpired (entry : CachedToken) (now : ℕ) : Bool :=
  decide ((nowSec now : ℚ) ≥ entry.expiresSec - tokenExpiryBufferSec)

namespace Manager

def serve (s : Manager) (auth : AuthConfig) (now : ℕ) (served : Served) : Manager :=
  { s with calls := s.calls ++ [⟨auth, now, served⟩] }

def refresh (s : Manager) (key : String) (auth : AuthConfig) : Manager :=
  { s with
    refreshes := s.refreshes ++ [.start key auth]
    pending := s.pending.set key s.refreshes.length }

/-- Past the cache. -/
def await (s : Manager) (auth : AuthConfig) (now : ℕ) : Manager :=
  match s.pending.lookup auth.credKey with
  | some id => s.serve auth now (.inflight id)
  | none => (s.refresh auth.credKey auth).serve auth now (.inflight s.refreshes.length)

def getTokenForAuth (s : Manager) (auth : AuthConfig) (now : ℕ) : Manager :=
  if auth.type ≠ .oauth2 then s
  else
    match s.cache.lookup auth.credKey with
    | some entry =>
        if entry.isExpired now then s.await auth now else s.serve auth now (.cached entry)
    | none => s.await auth now

/-- The call for a scenario, which may have no `auth`. -/
def getToken (s : Manager) (auth : Option AuthConfig) (now : ℕ) : Manager :=
  match auth with
  | some auth => if auth.type = .oauth2 then s.getTokenForAuth auth now else s
  | none => s

def setPhase (s : Manager) (id : ℕ) (phase : Phase) : Manager :=
  { s with refreshes := s.refreshes.modify id fun r => { r with phase } }

end Manager

/-- What the environment decides: a call, the answer to a request (`none` where it fails),
and when the owner's `finally` runs. -/
inductive Event
  | getTokenForAuth (auth : AuthConfig) (now : ℕ)
  | getToken (auth : Option AuthConfig) (now : ℕ)
  | respond (id : ℕ) (accessToken : Option (Option String)) (now : ℕ)
  | finish (id : ℕ)

section Next

variable (readExp : List Char → Option ℚ)

def Manager.respond (s : Manager) (id : ℕ) (key : String) (accessToken : Option (Option String))
    (now : ℕ) : Manager :=
  match accessToken with
  | none => s.setPhase id .settled
  | some token =>
      { s.setPhase id .settled with
        cache := s.cache.set key
          ⟨token, (parseJwtExpiry readExp token).getD (nowSec now + 1800), id⟩ }

def managerNext : Event → Manager → Option Manager
  | .getTokenForAuth auth now, s => some (s.getTokenForAuth auth now)
  | .getToken auth now, s => some (s.getToken auth now)
  | .respond id accessToken now, s =>
      s.refreshes[id]?.bind fun r =>
        if r.phase = .requested then some (s.respond readExp id r.key accessToken now) else none
  | .finish id, s =>
      s.refreshes[id]?.bind fun r =>
        if r.phase = .settled then
          some { s.setPhase id .finished with pending := s.pending.erase r.key }
        else none

end Next

/-! ## What is to hold -/

/-- Calls that get the token of one refresh have the same credentials. -/
def OwnTokens (s : Manager) : Prop :=
  ∀ c ∈ s.calls, ∀ c' ∈ s.calls, c.served.refresh = c'.served.refresh →
    c.auth.triple = c'.auth.triple

/-- At most one request is under way for each triple. -/
def SingleFlight (s : Manager) : Prop :=
  ∀ (i j : ℕ) (r r' : Refresh), s.refreshes[i]? = some r → s.refreshes[j]? = some r' →
    r.phase = .requested → r'.phase = .requested → r.auth.triple = r'.auth.triple → i = j

/-- A numeric `exp` of a token from the cache is more than thirty seconds ahead. -/
def FreshTokens (readExp : List Char → Option ℚ) (s : Manager) : Prop :=
  ∀ c ∈ s.calls, ∀ entry ∈ c.served.entry, ∀ exp ∈ urlExpiry readExp entry.token,
    (c.now : ℚ) / 1000 + 30 < exp

/-! ## The condition -/

/-- No call before this one spells the same key out of other credentials. -/
def AuthConfig.KeyFree (auth : AuthConfig) (s : Manager) : Prop :=
  ∀ c ∈ s.calls, c.auth.credKey = auth.credKey → c.auth.triple = auth.triple

/-- A payload with a numeric `exp` needs neither character in which base64url differs, and
the number is whole. -/
def Readable (readExp : List Char → Option ℚ) (token : Option String) : Prop :=
  ∀ exp ∈ urlExpiry readExp token,
    (∀ payload ∈ token.bind tokenPayload, '-' ∉ payload ∧ '_' ∉ payload) ∧ exp.den = 1

def StepOk (readExp : List Char → Option ℚ) : Event → Manager → Prop
  | .getTokenForAuth auth _, s => auth.KeyFree s
  | .getToken auth _, s => ∀ a ∈ auth, a.KeyFree s
  | .respond _ accessToken _, _ => ∀ token ∈ accessToken, Readable readExp token
  | .finish _, _ => True

section Tests

variable (readExp : List Char → Option ℚ)

instance (s : Manager) : Decidable (OwnTokens s) :=
  inferInstanceAs (Decidable (∀ c ∈ s.calls, ∀ c' ∈ s.calls,
    c.served.refresh = c'.served.refresh → c.auth.triple = c'.auth.triple))

instance (s : Manager) : Decidable (FreshTokens readExp s) :=
  inferInstanceAs (Decidable (∀ c ∈ s.calls, ∀ entry ∈ c.served.entry,
    ∀ exp ∈ urlExpiry readExp entry.token, (c.now : ℚ) / 1000 + 30 < exp))

instance (auth : AuthConfig) (s : Manager) : Decidable (auth.KeyFree s) :=
  inferInstanceAs (Decidable (∀ c ∈ s.calls, c.auth.credKey = auth.credKey →
    c.auth.triple = auth.triple))

instance (token : Option String) : Decidable (Readable readExp token) :=
  inferInstanceAs (Decidable (∀ exp ∈ urlExpiry readExp token,
    (∀ payload ∈ token.bind tokenPayload, '-' ∉ payload ∧ '_' ∉ payload) ∧ exp.den = 1))

instance : ∀ ev s, Decidable (StepOk readExp ev s)
  | .getTokenForAuth auth _, s => inferInstanceAs (Decidable (auth.KeyFree s))
  | .getToken auth _, s => inferInstanceAs (Decidable (∀ a ∈ auth, a.KeyFree s))
  | .respond _ accessToken _, _ =>
      inferInstanceAs (Decidable (∀ token ∈ accessToken, Readable readExp token))
  | .finish _, _ => isTrue trivial

end Tests

/-! ## Keys -/

theorem AuthConfig.credKey_eq {auth auth' : AuthConfig} (h : auth.triple = auth'.triple) :
    auth.credKey = auth'.credKey := by
  obtain ⟨_, url, client, secret⟩ := auth
  obtain ⟨_, url', client', secret'⟩ := auth'
  cases h
  rfl

/-- All three are given, the first two without a bar in them. -/
def AuthConfig.Barless (auth : AuthConfig) : Prop :=
  ∃ url client secret, auth.triple = (some url, some client, some secret) ∧
    '|' ∉ url.toList ∧ '|' ∉ client.toList

theorem credKey_toList {auth : AuthConfig} {url client secret : String}
    (h : auth.triple = (some url, some client, some secret)) :
    auth.credKey.toList = url.toList ++ '|' :: (client.toList ++ '|' :: secret.toList) := by
  obtain ⟨_, _, _, _⟩ := auth
  cases h
  simp [AuthConfig.credKey, shown]

/-- Such credentials are read back from their keys. -/
theorem AuthConfig.Barless.triple_eq {auth auth' : AuthConfig} (h : auth.Barless)
    (h' : auth'.Barless) (heq : auth.credKey = auth'.credKey) : auth.triple = auth'.triple := by
  obtain ⟨url, client, secret, htriple, hurl, hclient⟩ := h
  obtain ⟨url', client', secret', htriple', hurl', hclient'⟩ := h'
  have htexts := congrArg String.toList heq
  rw [credKey_toList htriple, credKey_toList htriple', append_cons_inj hurl hurl',
    append_cons_inj hclient hclient'] at htexts
  obtain ⟨hurls, hclients, hsecrets⟩ := htexts
  rw [htriple, htriple', String.toList_injective hurls, String.toList_injective hclients,
    String.toList_injective hsecrets]

/-- Among credentials like that no key is spelled twice. -/
theorem AuthConfig.Barless.keyFree {auth : AuthConfig} (h : auth.Barless) {s : Manager}
    (hall : ∀ c ∈ s.calls, c.auth.Barless) : auth.KeyFree s :=
  fun c hc heq => (hall c hc).triple_eq h heq

/-! ## Reading the expiry -/

section Expiry

variable {readExp : List Char → Option ℚ} {token : Option String} {payload : List Char}

theorem decodeUrl_of_neither (h : '-' ∉ payload ∧ '_' ∉ payload) {decoded : List Char}
    (hdecode : decodeUrl payload = some decoded) : atob payload = some decoded := by
  have hmap : payload.map fromUrl = payload := by
    refine (List.map_congr_left fun c hc => ?_).trans (List.map_id payload)
    have hminus : c ≠ '-' := fun heq => h.1 (heq ▸ hc)
    have hlow : c ≠ '_' := fun heq => h.2 (heq ▸ hc)
    simp [fromUrl, hminus, hlow]
  unfold decodeUrl at hdecode
  split at hdecode
  · cases hdecode
  · rwa [hmap] at hdecode

/-- What both alphabets spell is read. -/
theorem parseJwtExpiry_of_readable (h : Readable readExp token) {exp : ℚ}
    (hexp : urlExpiry readExp token = some exp) : parseJwtExpiry readExp token = some exp := by
  have hneither := (h exp hexp).1
  simp only [urlExpiry, Option.bind_eq_some_iff] at hexp
  obtain ⟨text, rfl, payload, hpayload, decoded, hdecoded, hread⟩ := hexp
  have hatob := decodeUrl_of_neither (hneither payload hpayload) hdecoded
  simp [parseJwtExpiry, hpayload, hatob, hread]

/-- An entry that has not expired by whole seconds has not by milliseconds either, if its
expiry is a whole number of seconds. -/
theorem fresh_of_not_isExpired {entry : CachedToken} {now : ℕ}
    (hwhole : entry.expiresSec.den = 1) (h : entry.isExpired now = false) :
    (now : ℚ) / 1000 + 30 < entry.expiresSec := by
  have hlt : (nowSec now : ℚ) < entry.expiresSec - tokenExpiryBufferSec :=
    not_le.mp (of_decide_eq_false h)
  rw [← (Rat.den_eq_one_iff _).mp hwhole] at hlt ⊢
  generalize entry.expiresSec.num = n at hlt ⊢
  have hsec : (nowSec now : ℤ) + 30 < n := by
    unfold tokenExpiryBufferSec at hlt
    exact_mod_cast lt_sub_iff_add_lt.mp hlt
  have hms : (now : ℤ) + 30000 < n * 1000 := by
    unfold nowSec at hsec
    omega
  have : (now : ℚ) + 30000 < n * 1000 := by exact_mod_cast hms
  linarith

end Expiry

/-! ## The invariant -/

section Invariant

variable {readExp : List Char → Option ℚ} {s s' : Manager} {auth : AuthConfig} {now id : ℕ}
  {key : String}

/-- The key a refresh was started under. -/
def Manager.keyOf (s : Manager) (id : ℕ) : Option String := s.refreshes[id]?.map Refresh.key

structure Inv (readExp : List Char → Option ℚ) (s : Manager) : Prop where
  pending : ∀ key id, s.pending.lookup key = some id ↔
    ∃ r, s.refreshes[id]? = some r ∧ r.key = key ∧ r.phase ≠ .finished
  keyed : ∀ r ∈ s.refreshes, r.key = r.auth.credKey
  cached : ∀ key entry, s.cache.lookup key = some entry → s.keyOf entry.refresh = some key
  readable : ∀ key entry, s.cache.lookup key = some entry →
    ∀ exp, urlExpiry readExp entry.token = some exp → entry.expiresSec = exp ∧ exp.den = 1
  origin : ∀ c ∈ s.calls, s.keyOf c.served.refresh = some c.auth.credKey
  keyFree : ∀ c ∈ s.calls, c.auth.KeyFree s
  fresh : FreshTokens readExp s

theorem inv_empty : Inv readExp {} where
  pending _ _ := by simp
  keyed _ hr := by cases hr
  cached _ _ h := by cases h
  readable _ _ h := by cases h
  origin _ hc := by cases hc
  keyFree _ hc := by cases hc
  fresh _ hc := by cases hc

@[simp] theorem refreshes_setPhase {phase : Phase} (j : ℕ) :
    (s.setPhase id phase).refreshes[j]? =
      s.refreshes[j]?.map fun r => if id = j then { r with phase } else r := by
  simp only [Manager.setPhase, List.getElem?_modify]
  split <;> simp_all

@[simp] theorem keyOf_setPhase {phase : Phase} (j : ℕ) :
    (s.setPhase id phase).keyOf j = s.keyOf j := by
  simp only [Manager.keyOf, refreshes_setPhase, Option.map_map]
  congr 1
  funext r
  simp only [Function.comp]
  split <;> rfl

theorem Refresh.start_phase : (Refresh.start key auth).phase ≠ .finished := by
  unfold Refresh.start
  dsimp only
  split <;> nofun

theorem refreshes_refresh {j : ℕ} {r : Refresh} :
    (s.refresh key auth).refreshes[j]? = some r ↔
      s.refreshes[j]? = some r ∨ j = s.refreshes.length ∧ Refresh.start key auth = r := by
  rcases lt_trichotomy j s.refreshes.length with hlt | rfl | hgt
  · simp [Manager.refresh, List.getElem?_append_left hlt, hlt.ne]
  · simp [Manager.refresh]
  · have hout : s.refreshes[j]? = none := List.getElem?_eq_none hgt.le
    have hpast : (s.refresh key auth).refreshes[j]? = none :=
      List.getElem?_eq_none (by simpa [Manager.refresh] using Nat.succ_le_of_lt hgt)
    simp [hout, hpast, hgt.ne']

theorem keyOf_refresh {j : ℕ} (h : s.keyOf j = some key) (key' : String) :
    (s.refresh key' auth).keyOf j = some key := by
  obtain ⟨r, hr, hkey⟩ := Option.map_eq_some_iff.mp h
  have hlt : j < s.refreshes.length := (List.getElem?_eq_some_iff.mp hr).1
  simp [Manager.keyOf, Manager.refresh, List.getElem?_append_left hlt, hr, hkey]

theorem keyOf_refresh_self (key : String) :
    (s.refresh key auth).keyOf s.refreshes.length = some key := by
  simp [Manager.keyOf, Manager.refresh, Refresh.start]

/-- A call is recorded with the refresh that serves it. -/
theorem Inv.serve (inv : Inv readExp s) {served : Served} (hfree : auth.KeyFree s)
    (hkey : s.keyOf served.refresh = some auth.credKey)
    (hfresh : ∀ entry ∈ served.entry, ∀ exp ∈ urlExpiry readExp entry.token,
      (now : ℚ) / 1000 + 30 < exp) :
    Inv readExp (s.serve auth now served) where
  pending := inv.pending
  keyed := inv.keyed
  cached := inv.cached
  readable := inv.readable
  origin c hc := by
    rcases List.mem_append.mp hc with hc | hc
    · exact inv.origin c hc
    · obtain rfl := List.mem_singleton.mp hc
      exact hkey
  keyFree c hc c' hc' heq := by
    rcases List.mem_append.mp hc with hc | hc <;> rcases List.mem_append.mp hc' with hc' | hc'
    · exact inv.keyFree c hc c' hc' heq
    · obtain rfl := List.mem_singleton.mp hc'
      exact (hfree c hc heq.symm).symm
    · obtain rfl := List.mem_singleton.mp hc
      exact hfree c' hc' heq
    · rw [List.mem_singleton.mp hc, List.mem_singleton.mp hc']
  fresh c hc := by
    rcases List.mem_append.mp hc with hc | hc
    · exact inv.fresh c hc
    · obtain rfl := List.mem_singleton.mp hc
      exact hfresh

/-- A refresh starts under a key that is not pending. -/
theorem Inv.refresh (inv : Inv readExp s) (hnone : s.pending.lookup auth.credKey = none) :
    Inv readExp (s.refresh auth.credKey auth) where
  pending key id := by
    show (s.pending.set auth.credKey s.refreshes.length).lookup key = some id ↔ _
    rw [InsertionMap.lookup_set]
    simp only [refreshes_refresh]
    split
    next heq =>
      subst heq
      constructor
      · rintro ⟨⟩
        exact ⟨_, .inr ⟨rfl, rfl⟩, rfl, Refresh.start_phase⟩
      · rintro ⟨r, hr | ⟨rfl, -⟩, hkey, hphase⟩
        · have hsome := (inv.pending _ _).mpr ⟨r, hr, hkey, hphase⟩
          rw [hnone] at hsome
          cases hsome
        · rfl
    next hne =>
      rw [inv.pending]
      constructor
      · rintro ⟨r, hr, hrest⟩
        exact ⟨r, .inl hr, hrest⟩
      · rintro ⟨r, hr | ⟨-, rfl⟩, hkey, hphase⟩
        · exact ⟨r, hr, hkey, hphase⟩
        · exact absurd hkey.symm hne
  keyed r hr := by
    rcases List.mem_append.mp hr with hr | hr
    · exact inv.keyed r hr
    · obtain rfl := List.mem_singleton.mp hr
      rfl
  cached key entry h := keyOf_refresh (inv.cached key entry h) _
  readable := inv.readable
  origin c hc := keyOf_refresh (inv.origin c hc) _
  keyFree := inv.keyFree
  fresh := inv.fresh

theorem Inv.await (inv : Inv readExp s) (hfree : auth.KeyFree s) :
    Inv readExp (s.await auth now) := by
  unfold Manager.await
  split
  next id hid =>
    obtain ⟨r, hr, hkey, -⟩ := (inv.pending _ id).mp hid
    exact inv.serve hfree (Option.map_eq_some_iff.mpr ⟨r, hr, hkey⟩) (by rintro _ ⟨⟩)
  next hnone => exact (inv.refresh hnone).serve hfree (keyOf_refresh_self _) (by rintro _ ⟨⟩)

theorem Inv.getTokenForAuth (inv : Inv readExp s) (hfree : auth.KeyFree s) :
    Inv readExp (s.getTokenForAuth auth now) := by
  unfold Manager.getTokenForAuth
  split
  · exact inv
  · split
    next entry hentry =>
      split
      · exact inv.await hfree
      · next hexpired =>
          refine inv.serve hfree (inv.cached _ entry hentry) fun entry' heq exp hexp => ?_
          cases heq
          obtain ⟨hsec, hwhole⟩ := inv.readable _ entry hentry exp hexp
          rw [← hsec] at hwhole ⊢
          exact fresh_of_not_isExpired hwhole (Bool.eq_false_iff.mpr hexpired)
    next => exact inv.await hfree

theorem Inv.keyed_setPhase (inv : Inv readExp s) {phase : Phase} {r : Refresh}
    (hr : r ∈ (s.setPhase id phase).refreshes) : r.key = r.auth.credKey := by
  obtain ⟨j, hj⟩ := List.mem_iff_getElem?.mp hr
  rw [refreshes_setPhase] at hj
  obtain ⟨old, hold, rfl⟩ := Option.map_eq_some_iff.mp hj
  have hkey := inv.keyed old (List.mem_of_getElem? hold)
  split <;> exact hkey

/-- An answered request stays pending until its owner runs. -/
theorem Inv.setPhase_settled (inv : Inv readExp s) {r : Refresh} (hr : s.refreshes[id]? = some r)
    (hphase : r.phase = .requested) : Inv readExp (s.setPhase id .settled) where
  pending key j := by
    show s.pending.lookup key = some j ↔ _
    rw [inv.pending, refreshes_setPhase]
    by_cases hj : id = j
    · subst hj
      simp [hr, hphase]
    · simp [hj]
  keyed r' hr' := inv.keyed_setPhase hr'
  cached key entry h := (keyOf_setPhase _).trans (inv.cached key entry h)
  readable := inv.readable
  origin c hc := (keyOf_setPhase _).trans (inv.origin c hc)
  keyFree := inv.keyFree
  fresh := inv.fresh

/-- What is cached says when it expires, if that can be read. -/
theorem Inv.setCache (inv : Inv readExp s) {token : Option String} (hkey : s.keyOf id = some key)
    (htoken : Readable readExp token) :
    Inv readExp { s with
      cache := s.cache.set key
        ⟨token, (parseJwtExpiry readExp token).getD (nowSec now + 1800), id⟩ } where
  pending := inv.pending
  keyed := inv.keyed
  cached key' entry h := by
    rw [InsertionMap.lookup_set] at h
    split at h
    next heq =>
      cases h
      exact heq ▸ hkey
    next => exact inv.cached key' entry h
  readable key' entry h exp hexp := by
    rw [InsertionMap.lookup_set] at h
    split at h
    next =>
      cases h
      exact ⟨by rw [parseJwtExpiry_of_readable htoken hexp]; rfl, (htoken exp hexp).2⟩
    next => exact inv.readable key' entry h exp hexp
  origin := inv.origin
  keyFree := inv.keyFree
  fresh := inv.fresh

/-- The owner takes its own refresh out of the pending map, and no other. -/
theorem Inv.finish (inv : Inv readExp s) {r : Refresh} (hr : s.refreshes[id]? = some r)
    (hphase : r.phase = .settled) :
    Inv readExp { s.setPhase id .finished with pending := s.pending.erase r.key } where
  pending key j := by
    have hown : s.pending.lookup r.key = some id :=
      (inv.pending _ _).mpr ⟨r, hr, rfl, by rw [hphase]; nofun⟩
    show (s.pending.erase r.key).lookup key = some j ↔
      ∃ r', (s.setPhase id .finished).refreshes[j]? = some r' ∧ _
    rw [InsertionMap.lookup_erase, refreshes_setPhase]
    have hold := inv.pending key j
    by_cases hj : id = j
    · subst hj
      rw [hr, Option.map_some, if_pos rfl]
      refine iff_of_false (fun hlookup => ?_) (by rintro ⟨_, ⟨⟩, -, hfinished⟩; exact hfinished rfl)
      obtain ⟨hne, hlookup⟩ := Option.ite_none_left_eq_some.mp hlookup
      obtain ⟨r', hr', hkey, -⟩ := hold.mp hlookup
      rw [hr] at hr'
      cases hr'
      exact hne hkey.symm
    · simp only [if_neg hj, Option.map_id']
      rw [← hold, Option.ite_none_left_eq_some]
      refine and_iff_right_of_imp fun hlookup heq => hj ?_
      rw [heq, hown] at hlookup
      exact Option.some.inj hlookup
  keyed r' hr' := inv.keyed_setPhase hr'
  cached key entry h := (keyOf_setPhase _).trans (inv.cached key entry h)
  readable := inv.readable
  origin c hc := (keyOf_setPhase _).trans (inv.origin c hc)
  keyFree := inv.keyFree
  fresh := inv.fresh

theorem inv_step {ev : Event} (inv : Inv readExp s) (hok : StepOk readExp ev s)
    (hnext : managerNext readExp ev s = some s') : Inv readExp s' := by
  cases ev with
  | getTokenForAuth auth now =>
      cases hnext
      exact inv.getTokenForAuth hok
  | getToken auth now =>
      cases hnext
      unfold Manager.getToken
      split
      next =>
        split
        · exact inv.getTokenForAuth (hok _ rfl)
        · exact inv
      next => exact inv
  | respond id accessToken now =>
      obtain ⟨r, hr, hnext⟩ := Option.bind_eq_some_iff.mp hnext
      obtain ⟨hphase, hs⟩ := Option.ite_none_right_eq_some.mp hnext
      cases hs
      have hsettled := inv.setPhase_settled hr hphase
      unfold Manager.respond
      split
      next => exact hsettled
      next token =>
        have hkey : (s.setPhase id .settled).keyOf id = some r.key := by
          rw [keyOf_setPhase]
          exact Option.map_eq_some_iff.mpr ⟨r, hr, rfl⟩
        exact hsettled.setCache hkey (hok _ rfl)
  | finish id =>
      obtain ⟨r, hr, hnext⟩ := Option.bind_eq_some_iff.mp hnext
      obtain ⟨hphase, hs⟩ := Option.ite_none_right_eq_some.mp hnext
      cases hs
      exact inv.finish hr hphase

/-! ## Runs -/

theorem Inv.ownTokens (inv : Inv readExp s) : OwnTokens s := by
  intro c hc c' hc' heq
  have hkey := (inv.origin c hc).symm.trans (heq ▸ inv.origin c' hc')
  exact inv.keyFree c' hc' c hc (Option.some.inj hkey)

theorem Inv.singleFlight (inv : Inv readExp s) : SingleFlight s := by
  intro i j r r' hr hr' hphase hphase' htriple
  have hpending := (inv.pending r.key i).mpr ⟨r, hr, rfl, by rw [hphase]; nofun⟩
  have hpending' := (inv.pending r'.key j).mpr ⟨r', hr', rfl, by rw [hphase']; nofun⟩
  have hkey : r.key = r'.key := by
    rw [inv.keyed r (List.mem_of_getElem? hr), inv.keyed r' (List.mem_of_getElem? hr')]
    exact AuthConfig.credKey_eq htriple
  rw [← hkey, hpending] at hpending'
  exact Option.some.inj hpending'

end Invariant

/-- **What the manager keeps.**  In every run in which no two credentials spell the same key
and every numeric expiry can be read, calls share a token only if their credentials are
equal, at most one request is under way for each, and a token from the cache is good for
more than thirty seconds. -/
theorem tokens_kept (readExp : List Char → Option ℚ) {evs : List Event} {s : Manager}
    (hok : AllSteps (managerNext readExp) (StepOk readExp) {} evs)
    (hrun : exec (managerNext readExp) {} evs = some s) :
    OwnTokens s ∧ SingleFlight s ∧ FreshTokens readExp s := by
  have inv : Inv readExp s :=
    exec_invariant (fun _ _ _ inv hok hnext => inv_step inv hok hnext) inv_empty hok hrun
  exact ⟨inv.ownTokens, inv.singleFlight, inv.fresh⟩

/-! ## Two runs -/

/-- What `JSON.parse` finds in a payload that gives `exp` in digits. -/
def digitsExp (payload : List Char) : Option ℚ :=
  (indexOf "\"exp\":".toList payload).bind fun i =>
    let digits := (payload.drop (i + 6)).takeWhile Char.isDigit
    if digits = [] then none
    else some (digits.foldl (fun n c => n * 10 + (c.toNat - 48)) 0 : ℕ)

def ordersAuth : AuthConfig :=
  ⟨.oauth2, some "https://id.local/a|b", some "orders", some "s3cret"⟩

/-- Other credentials under the same key. -/
def stockAuth : AuthConfig :=
  ⟨.oauth2, some "https://id.local/a", some "b|orders", some "s3cret"⟩

/-- The payload is `{"exp":5000}`. -/
def plainToken : String := "h.eyJleHAiOjUwMDB9.s"

/-- The payload is `{"exp":900,"u":"~~~"}`, with a `-` in its spelling. -/
def dashedToken : String := "h.eyJleHAiOjkwMCwidSI6In5-fiJ9.s"

/-- Three calls are served by one request, the last from the cache. -/
def plainRun : List Event :=
  [.getTokenForAuth ordersAuth 0, .getToken (some ordersAuth) 5,
    .respond 0 (some (some plainToken)) 10, .finish 0, .getTokenForAuth ordersAuth 4000000]

theorem plain_token_kept : ∃ s, exec (managerNext digitsExp) {} plainRun = some s ∧
    OwnTokens s ∧ SingleFlight s ∧ FreshTokens digitsExp s := by
  obtain ⟨s, hrun, -⟩ : ∃ s, exec (managerNext digitsExp) {} plainRun = some s ∧
      s.calls.length = 3 := exists_exec (by decide +kernel)
  exact ⟨s, hrun, tokens_kept digitsExp (by decide +kernel) hrun⟩

/-- The other credentials are served the token of the first, a hundred seconds after it has
expired. -/
def dashedRun : List Event :=
  [.getTokenForAuth ordersAuth 0, .respond 0 (some (some dashedToken)) 0, .finish 0,
    .getTokenForAuth stockAuth 1000000]

theorem stale_token_shared : ∃ s, exec (managerNext digitsExp) {} dashedRun = some s ∧
    ¬ OwnTokens s ∧ ¬ FreshTokens digitsExp s := exists_exec (by decide +kernel)

end RedFireForge.Engine.TokenManager
