/-
# `RedFireForge.Correlation.WebhookSecurity` — tokens and signatures of webhooks

A token carries a correlation, a path and two times, and the digest of the four joined by
colons.  It comes back as JSON, so that its fields can be of any type when they are joined
and compared again.  A callback is signed over its body, and the signature is checked over
the body as it is written again.

The digest is a function of the text; the text stands for its UTF-8 bytes.  The JSON that a
query spells in base64url is a function of the query.
-/
import RedFireForge.ApiMock.JsonPath
import RedFireForge.Correlation.Handler
import RedFireForge.Lib.Number
import RedFireForge.Lib.Text

namespace RedFireForge.Correlation

open RedFireForge.Lib

/-- 32 bytes. -/
abbrev Digest := { bytes : List UInt8 // bytes.length = 32 }

/-- The settings, and what lies outside. -/
structure WebhookSecurity where
  /-- HMAC-SHA256 under the secret -/
  hmac : String → Digest
  /-- `JSON.parse` of what a query spells in base64url; `none` where it throws -/
  decode : String → Option Json
  /-- the body that the server's parser makes of a text -/
  parse : String → Option Json
  tokenExpirationMs : ℤ
  securityEnabled : Bool

inductive Check
  | valid
  | invalid (reason : String)
deriving DecidableEq, Repr

/-! ## Digests -/

/-- `length`, in UTF-16 units -/
def utf16Length (cs : List Char) : ℕ := (cs.map fun c => if c.toNat < 0x10000 then 1 else 2).sum

/-- `none` where it throws, as it does for buffers of different lengths. -/
def timingSafeEqual (a b : List UInt8) : Option Bool :=
  if a.length = b.length then some (a == b) else none

/-- What both checks do with the digest and a signature. -/
def compareSignature (expected : Digest) (signature : String) : Option Bool :=
  if (hexText expected.1).length ≠ utf16Length signature.toList then some false
  else timingSafeEqual expected.1 (hexDecode signature.toList)

/-- The text is the digest in hexadecimal, with digits of either case. -/
def Spells (signature : String) (d : Digest) : Prop :=
  signature.toList.map Char.toLower = hexText d.1

instance (signature : String) (d : Digest) : Decidable (Spells signature d) :=
  inferInstanceAs (Decidable (_ = _))

namespace WebhookSecurity

variable (sec : WebhookSecurity)

def verifyHmacSignature (payload signature : String) : Option Bool :=
  compareSignature (sec.hmac payload) signature

end WebhookSecurity

/-! ## Tokens -/

structure WebhookToken where
  correlationId : String
  webhookPath : String
  issuedAt : ℕ
  expiresAt : ℕ
  signature : String
deriving DecidableEq, Repr

/-- The text that is signed. -/
def tokenData (correlationId webhookPath issuedAt expiresAt : String) : String :=
  correlationId ++ ":" ++ webhookPath ++ ":" ++ issuedAt ++ ":" ++ expiresAt

def WebhookToken.data (t : WebhookToken) : String :=
  tokenData t.correlationId t.webhookPath (toString t.issuedAt) (toString t.expiresAt)

def WebhookToken.isExpired (t : WebhookToken) (now : ℕ) : Bool :=
  decide (0 < t.expiresAt) && decide (t.expiresAt < now)

/-- A call of `generateWebhookToken`, and when. -/
structure TokenCall where
  correlationId : String
  webhookPath : String
  now : ℕ
deriving DecidableEq, Repr

def WebhookSecurity.generateWebhookToken (sec : WebhookSecurity) (call : TokenCall) : WebhookToken :=
  let expiresAt := if 0 < sec.tokenExpirationMs then call.now + sec.tokenExpirationMs.toNat else 0
  let data := tokenData call.correlationId call.webhookPath (toString call.now) (toString expiresAt)
  ⟨call.correlationId, call.webhookPath, call.now, expiresAt, String.ofList (hexText (sec.hmac data).1)⟩

/-! ### Fields of any type -/

mutual
/-- An object with a field `toString` cannot be made a text. -/
def converts : Json → Bool
  | .arr items => convertAll items
  | .obj fields => (fields.lookup "toString").isNone
  | _ => true

def convertAll : List Json → Bool
  | [] => true
  | j :: items => converts j && convertAll items
end

/-- A field of what was decoded; `none` is `undefined`. -/
def tokenField (token : Json) (name : String) : Option Json :=
  match token with
  | .obj fields => fields.lookup name
  | _ => none

/-- `${value}` -/
def fieldText : Option Json → String
  | none => "undefined"
  | some .null => "null"
  | some j => Json.toText j

def toNumber (text : String) : Option ℚ := numericValue (ApiMock.trim text.toList)

/-- The number that a comparison makes of a value. -/
def fieldNumber : Option Json → Option ℚ
  | none => none
  | some .null => some 0
  | some (.bool b) => some (if b then 1 else 0)
  | some j => toNumber (Json.toText j)

/-- `expiresAt > 0 && Date.now() > expiresAt` -/
def expired (now : ℕ) (expiresAt : Option ℚ) : Bool :=
  expiresAt.any fun e : ℚ => decide (0 < e) && decide (e < now)

def dataOf (token : Json) : String :=
  tokenData (fieldText (tokenField token "correlationId")) (fieldText (tokenField token "webhookPath"))
    (fieldText (tokenField token "issuedAt")) (fieldText (tokenField token "expiresAt"))

/-- The four fields of the text that is signed. -/
def dataFields : List String := ["correlationId", "webhookPath", "issuedAt", "expiresAt"]

/-- `none` where it throws. -/
def WebhookSecurity.verifyWebhookToken (sec : WebhookSecurity) (now : ℕ) (token : Json) : Option Check :=
  let expiresAt := tokenField token "expiresAt"
  if token = .null ∨ !(expiresAt.all converts) then none
  else if expired now (fieldNumber expiresAt) then some (.invalid "Token expired")
  else if !(dataFields.all fun name => (tokenField token name).all converts) then none
  else match tokenField token "signature" with
    | some (.str signature) =>
        (compareSignature (sec.hmac (dataOf token)) signature).map fun isValid =>
          if isValid then .valid else .invalid "Invalid signature"
    | none | some .null => none
    -- 64 of anything else make a buffer of 64 bytes
    | some (.arr items) => if items.length = 64 then none else some (.invalid "Invalid signature")
    | some (.obj fields) =>
        match fields.lookup "length" with
        | some (.num n) => if n.text = ['6', '4'] then none else some (.invalid "Invalid signature")
        | _ => some (.invalid "Invalid signature")
    | _ => some (.invalid "Invalid signature")

def WebhookSecurity.extractAndVerifyToken (sec : WebhookSecurity) (now : ℕ) (queryToken : Option String)
    (expectedCorrelationId expectedWebhookPath : String) : Check :=
  match truthy queryToken with
  | none => .invalid "No webhook token provided"
  | some query =>
      match (sec.decode query).bind fun token => (sec.verifyWebhookToken now token).map (token, ·) with
      | none => .invalid "Invalid token format"
      | some (_, .invalid reason) => .invalid reason
      | some (token, .valid) =>
          if tokenField token "correlationId" ≠ some (.str expectedCorrelationId) then
            .invalid "Token correlation ID mismatch"
          else if tokenField token "webhookPath" ≠ some (.str expectedWebhookPath) then
            .invalid "Token webhook path mismatch"
          else .valid

/-! ## Signatures of requests -/

/-- The first of the known headers that is there. -/
def signatureHeader (headers : String → Option FieldValue) : Option FieldValue :=
  ((headers "x-webhook-signature").or (headers "x-hub-signature-256")).or (headers "x-signature")

def stripSha256 (sig : String) : String :=
  if "sha256=".toList <+: sig.toList then String.ofList (sig.toList.drop 7) else sig

/-- `none` where it throws. -/
def WebhookSecurity.validateRequestSignature (sec : WebhookSecurity) (rawBody : String)
    (headers : String → Option FieldValue) : Option Check :=
  let verified (sig : String) := (sec.verifyHmacSignature rawBody (stripSha256 sig)).map fun isValid =>
    if isValid then Check.valid else .invalid "Signature verification failed"
  match signatureHeader headers with
  | none | some (.one "") =>
      some (if sec.securityEnabled then .invalid "No signature header found" else .valid)
  | some (.one sig) => verified sig
  | some (.many l) => l.head?.bind verified

/-- What the route signs again. -/
def rawBody (body : Option Json) : String :=
  match body with
  | some (.str s) => s
  | none | some .null => Json.stringify (.obj [])
  | some j => Json.stringify j

/-- The signature check of the callback route. -/
def WebhookSecurity.checkSignature (sec : WebhookSecurity) (text : String)
    (headers : String → Option FieldValue) : Option Check :=
  if sec.securityEnabled then sec.validateRequestSignature (rawBody (sec.parse text)) headers
  else some .valid

/-! ## What is compared -/

section Digests

variable {d : Digest} {signature : String}

theorem length_le_utf16Length (cs : List Char) : cs.length ≤ utf16Length cs := by
  induction cs with
  | nil => exact Nat.zero_le _
  | cons c cs ih =>
      show cs.length + 1 ≤ (if c.toNat < 0x10000 then 1 else 2) + utf16Length cs
      split <;> omega

theorem utf16Length_hex {cs : List Char} (h : ∀ c ∈ cs, isHexDigit c = true) : utf16Length cs = cs.length := by
  induction cs with
  | nil => rfl
  | cons c cs ih =>
      rw [List.forall_mem_cons] at h
      have hc : c.toNat < 0x10000 := by
        by_contra hge
        have hlower : c.toLower = c := dif_neg fun hupper => by
          have hz : c.val.toNat ≤ 90 := UInt32.le_iff_toNat_le.mp hupper.2
          exact hge (Nat.lt_of_le_of_lt hz (by decide))
        obtain ⟨a, ha⟩ := Option.isSome_iff_exists.mp h.1
        obtain ⟨hlt, htext⟩ := (hexDigitValue_spec c).2 a ha
        rw [hlower] at htext
        rw [← htext] at hge
        interval_cases a <;> exact hge (by decide)
      show (if c.toNat < 0x10000 then 1 else 2) + utf16Length cs = cs.length + 1
      rw [if_pos hc, ih h.2, Nat.add_comm]

/-- What a signature says is a digest: all 64 characters are digits, and they are the digest's. -/
theorem spells_iff : Spells signature d ↔ utf16Length signature.toList = 64 ∧
    (∀ c ∈ signature.toList, isHexDigit c = true) ∧ hexDecode signature.toList = d.1 := by
  have hd := d.2
  constructor
  · intro h
    have hdecode : hexDecode signature.toList = d.1 := by
      rw [← hexDecode_toLower, h, hexDecode_hexText]
    have hlength : signature.toList.length = 64 := by
      have := congrArg List.length h
      rw [List.length_map, length_hexText, hd] at this
      exact this
    have hall := ((hexText_hexDecode signature.toList).2.1 (by rw [hdecode, hd, hlength])).1
    exact ⟨(utf16Length_hex hall).trans hlength, hall, hdecode⟩
  · rintro ⟨hlength, hall, hdecode⟩
    rw [utf16Length_hex hall] at hlength
    have htext := ((hexText_hexDecode signature.toList).2.1 (by rw [hdecode, hd, hlength])).2
    rw [hdecode] at htext
    exact htext.symm

theorem compareSignature_eq_none : compareSignature d signature = none ↔
    utf16Length signature.toList = 64 ∧ ¬ ∀ c ∈ signature.toList, isHexDigit c = true := by
  have hd := d.2
  obtain ⟨hle, hall, hdigits⟩ := hexText_hexDecode signature.toList
  have hunits := length_le_utf16Length signature.toList
  unfold compareSignature timingSafeEqual
  rw [length_hexText, hd]
  split
  next hne => exact ⟨nofun, fun h => absurd h.1.symm hne⟩
  next heq =>
    have heq : utf16Length signature.toList = 64 := (not_not.mp heq).symm
    split
    next hsame =>
      refine ⟨nofun, fun h => absurd ?_ h.2⟩
      exact (hall (by omega)).1
    next hdiff =>
      refine ⟨fun _ => ⟨heq, fun h => hdiff ?_⟩, fun _ => rfl⟩
      have hlength := utf16Length_hex h
      have := hdigits h (by omega)
      omega

theorem compareSignature_eq_true : compareSignature d signature = some true ↔ Spells signature d := by
  have hd := d.2
  rw [spells_iff]
  unfold compareSignature timingSafeEqual
  rw [length_hexText, hd]
  split
  next hne => exact ⟨nofun, fun h => absurd h.1.symm hne⟩
  next heq =>
    have heq : utf16Length signature.toList = 64 := (not_not.mp heq).symm
    obtain ⟨hle, hall, hdigits⟩ := hexText_hexDecode signature.toList
    have hunits := length_le_utf16Length signature.toList
    split
    next hsame =>
      rw [Option.some.injEq, beq_iff_eq]
      exact ⟨fun h => ⟨heq, (hall (by omega)).1, h.symm⟩, fun h => h.2.2.symm⟩
    next hdiff =>
      refine ⟨nofun, fun h => absurd ?_ hdiff⟩
      rw [h.2.2, hd]

end Digests

/-! ## Tokens that pass -/

/-- A token that passes: it can be read and has not expired, and its signature is the digest of
its four fields. -/
structure Passes (sec : WebhookSecurity) (now : ℕ) (token : Json) : Prop where
  converts : ∀ name ∈ dataFields, (tokenField token name).all converts = true
  fresh : expired now (fieldNumber (tokenField token "expiresAt")) = false
  signed : ∃ signature, tokenField token "signature" = some (.str signature) ∧
    Spells signature (sec.hmac (dataOf token))

section Tokens

variable {sec : WebhookSecurity} {calls : List TokenCall} {now : ℕ} {token : Json} {c p : String}
  {query : Option String}

theorem verifyWebhookToken_valid : sec.verifyWebhookToken now token = some .valid ↔ Passes sec now token := by
  have hnull : tokenField .null "signature" = none := rfl
  constructor
  · intro h
    unfold WebhookSecurity.verifyWebhookToken at h
    dsimp only at h
    split at h
    next => cases h
    next =>
      split at h
      next => cases h
      next hfresh =>
        split at h
        next => cases h
        next hall =>
          rw [Bool.not_eq_true, Bool.not_eq_false', List.all_eq_true] at hall
          refine ⟨hall, Bool.not_eq_true _ |>.mp hfresh, ?_⟩
          split at h
          next signature hsignature =>
            obtain ⟨isValid, hcompare, hvalid⟩ := Option.map_eq_some_iff.mp h
            cases isValid with
            | false => cases hvalid
            | true => exact ⟨signature, hsignature, compareSignature_eq_true.mp hcompare⟩
          next => cases h
          next => cases h
          next =>
            split at h <;> cases h
          next =>
            split at h
            next =>
              split at h <;> cases h
            next => cases h
          next => cases h
  · rintro ⟨hall, hfresh, signature, hsignature, hspells⟩
    have hexpires := hall "expiresAt" (by decide)
    have hne : token ≠ .null := by
      rintro rfl
      rw [hnull] at hsignature
      cases hsignature
    unfold WebhookSecurity.verifyWebhookToken
    dsimp only
    rw [if_neg (by simp [hne, hexpires]), if_neg (by rw [hfresh]; exact Bool.false_ne_true),
      if_neg (by rw [List.all_eq_true.mpr hall]; decide), hsignature]
    dsimp only
    rw [compareSignature_eq_true.mpr hspells]
    rfl

/-- A valid query spells a token that passes, for the pair that is expected. -/
theorem extractAndVerifyToken_valid : sec.extractAndVerifyToken now query c p = .valid ↔
    ∃ q token, truthy query = some q ∧ sec.decode q = some token ∧ Passes sec now token ∧
      tokenField token "correlationId" = some (.str c) ∧ tokenField token "webhookPath" = some (.str p) := by
  unfold WebhookSecurity.extractAndVerifyToken
  constructor
  · intro h
    split at h
    next => cases h
    next q hq =>
      split at h
      next => cases h
      next => cases h
      next token hpasses =>
        obtain ⟨token', hdecode, hpasses⟩ := Option.bind_eq_some_iff.mp hpasses
        obtain ⟨check, hverify, hpair⟩ := Option.map_eq_some_iff.mp hpasses
        obtain ⟨rfl, rfl⟩ := Prod.mk.inj hpair
        split at h
        next => cases h
        next hid =>
          split at h
          next => cases h
          next hpath =>
            exact ⟨q, token', hq, hdecode, verifyWebhookToken_valid.mp hverify, not_not.mp hid, not_not.mp hpath⟩
  · rintro ⟨q, token, hq, hdecode, hpasses, hid, hpath⟩
    rw [hq]
    dsimp only
    rw [hdecode, Option.bind_some, verifyWebhookToken_valid.mpr hpasses, Option.map_some]
    dsimp only
    rw [if_neg (not_not.mpr hid), if_neg (not_not.mpr hpath)]

/-! ### Fields between colons -/

theorem tokenData_toList (a b i e : String) : (tokenData a b i e).toList =
    a.toList ++ ':' :: (b.toList ++ ':' :: (i.toList ++ ':' :: e.toList)) := by
  simp [tokenData]

/-- The first colon ends the field, where neither has one. -/
theorem append_colon_inj {a b x y : List Char} (ha : ':' ∉ a) (hb : ':' ∉ b)
    (h : a ++ ':' :: x = b ++ ':' :: y) : a = b ∧ x = y := by
  induction a generalizing b with
  | nil =>
      cases b with
      | nil => exact ⟨rfl, (List.cons.inj h).2⟩
      | cons d b =>
          obtain ⟨rfl, -⟩ := List.cons.inj h
          exact absurd List.mem_cons_self hb
  | cons d a ih =>
      cases b with
      | nil =>
          obtain ⟨rfl, -⟩ := List.cons.inj h
          exact absurd List.mem_cons_self ha
      | cons d' b =>
          obtain ⟨rfl, htail⟩ := List.cons.inj h
          obtain ⟨hab, hxy⟩ := ih (fun hmem => ha (List.mem_cons_of_mem _ hmem))
            (fun hmem => hb (List.mem_cons_of_mem _ hmem)) htail
          exact ⟨congrArg _ hab, hxy⟩

theorem digits_of_toString {n : ℕ} {ch : Char} (h : ch ∈ (toString n).toList) : ch.isDigit = true := by
  rw [show toString n = n.repr from rfl, Nat.toList_repr] at h
  exact Nat.isDigit_of_mem_toDigits (by decide) (by decide) h

theorem colon_not_mem_toString (n : ℕ) : ':' ∉ (toString n).toList := by
  intro h
  exact absurd (digits_of_toString h) (by decide)

/-- Two numbers with a colon between them are split in one way only. -/
theorem times_inj {i e : ℕ} {a b : String}
    (h : (toString i).toList ++ ':' :: (toString e).toList = a.toList ++ ':' :: b.toList) :
    b = toString e := by
  have ha := List.append_cons_inj_of_notMem (colon_not_mem_toString i) (colon_not_mem_toString e) |>.mp h
  exact (String.toList_injective ha.2.2).symm

theorem trim_digits {cs : List Char} (h : ∀ ch ∈ cs, ch.isDigit = true) : ApiMock.trim cs = cs :=
  Lib.trimBy_of_none fun ch hch => ApiMock.isSpace_of_isDigit (h ch hch)

/-- Whatever its type, a field that is written as a number is that number. -/
theorem fieldNumber_of_text {v : Option Json} {n : ℕ} (h : fieldText v = toString n) :
    fieldNumber v = some (n : ℚ) := by
  have hnumber : toNumber (toString n) = some (n : ℚ) := by
    have hdigits : ∀ ch ∈ (toString n).toList, ch.isDigit = true := fun ch hch => digits_of_toString hch
    unfold toNumber
    rw [trim_digits hdigits, numericValue_digits ?_ hdigits]
    · rw [show toString n = n.repr from rfl, Nat.toList_repr, Nat.ofDigitChars_ten_toDigits]
    · rw [show toString n = n.repr from rfl, Nat.toList_repr]
      exact Nat.toDigits_ne_nil
  have hword : ∀ {w : String} {x : Char}, x ∈ w.toList → x.isDigit = false → w ≠ toString n := by
    intro w x hmem hch heq
    rw [heq] at hmem
    rw [digits_of_toString hmem] at hch
    cases hch
  cases v with
  | none => exact absurd h (hword (x := 'u') (by decide) (by decide))
  | some j =>
      cases j with
      | null => exact absurd h (hword (x := 'u') (by decide) (by decide))
      | bool b =>
          cases b with
          | true => exact absurd h (hword (x := 't') (by decide) (by decide))
          | false => exact absurd h (hword (x := 'f') (by decide) (by decide))
      | num x => exact (congrArg toNumber h).trans hnumber
      | str x => exact (congrArg toNumber h).trans hnumber
      | arr items => exact (congrArg toNumber h).trans hnumber
      | obj fields => exact (congrArg toNumber h).trans hnumber

/-! ### Tokens that were issued -/

/-- The signature in the query verifies only for what was signed. -/
def Unforged (sec : WebhookSecurity) (calls : List TokenCall) (query : Option String) : Prop :=
  ∀ q token signature data, query = some q → sec.decode q = some token →
    tokenField token "signature" = some (.str signature) → Spells signature (sec.hmac data) →
      ∃ call ∈ calls, (sec.generateWebhookToken call).data = data

/-- A token was issued for the pair, and has not expired. -/
def HasToken (sec : WebhookSecurity) (calls : List TokenCall) (now : ℕ) (c p : String) : Prop :=
  ∃ call ∈ calls, call.correlationId = c ∧ call.webhookPath = p ∧
    (sec.generateWebhookToken call).isExpired now = false

/-- The query spells a token for the pair that has the signature of one issued for another pair:
the four fields of both, joined, are the same text. -/
def Transplants (sec : WebhookSecurity) (calls : List TokenCall) (now : ℕ) (query : Option String)
    (c p : String) : Prop :=
  ∃ q token, truthy query = some q ∧ sec.decode q = some token ∧ Passes sec now token ∧
    tokenField token "correlationId" = some (.str c) ∧ tokenField token "webhookPath" = some (.str p) ∧
    ∃ call ∈ calls, ¬ (call.correlationId = c ∧ call.webhookPath = p) ∧
      (sec.generateWebhookToken call).data = dataOf token

theorem truthy_eq_some {o : Option String} {q : String} (h : truthy o = some q) : o = some q :=
  (Option.filter_eq_some_iff.mp h).1

theorem generated_data (call : TokenCall) : (sec.generateWebhookToken call).data =
    tokenData call.correlationId call.webhookPath (toString call.now)
      (toString (sec.generateWebhookToken call).expiresAt) := rfl

theorem dataOf_pair (hid : tokenField token "correlationId" = some (.str c))
    (hpath : tokenField token "webhookPath" = some (.str p)) :
    dataOf token = tokenData c p (fieldText (tokenField token "issuedAt")) (fieldText (tokenField token "expiresAt")) := by
  unfold dataOf
  rw [hid, hpath]
  rfl

/-- A token with the fields of one issued for its own pair expires with it. -/
theorem fresh_of_own {call : TokenCall} (hpasses : Passes sec now token)
    (hid : tokenField token "correlationId" = some (.str call.correlationId))
    (hpath : tokenField token "webhookPath" = some (.str call.webhookPath))
    (hdata : (sec.generateWebhookToken call).data = dataOf token) :
    (sec.generateWebhookToken call).isExpired now = false := by
  have hjoined := congrArg String.toList hdata
  rw [generated_data, dataOf_pair hid hpath, tokenData_toList, tokenData_toList] at hjoined
  have hpaths := (List.cons.inj (List.append_cancel_left hjoined)).2
  have htimes := (List.cons.inj (List.append_cancel_left hpaths)).2
  have hfresh := hpasses.fresh
  rw [fieldNumber_of_text (times_inj htimes)] at hfresh
  simpa [expired, WebhookToken.isExpired] using hfresh

/-- Without colons in identifiers and paths the four fields are those of the token issued. -/
theorem pair_of_colonfree {call : TokenCall}
    (hcall : ':' ∉ call.correlationId.toList ∧ ':' ∉ call.webhookPath.toList)
    (hc : ':' ∉ c.toList) (hp : ':' ∉ p.toList)
    (hid : tokenField token "correlationId" = some (.str c))
    (hpath : tokenField token "webhookPath" = some (.str p))
    (hdata : (sec.generateWebhookToken call).data = dataOf token) :
    call.correlationId = c ∧ call.webhookPath = p := by
  have hjoined := congrArg String.toList hdata
  rw [generated_data, dataOf_pair hid hpath, tokenData_toList, tokenData_toList] at hjoined
  obtain ⟨hids, hrest⟩ := append_colon_inj hcall.1 hc hjoined
  obtain ⟨hpaths, -⟩ := append_colon_inj hcall.2 hp hrest
  exact ⟨String.toList_injective hids, String.toList_injective hpaths⟩

end Tokens

/-- **Tokens.**  A query is valid only for a pair that a token was issued for, exactly if it does
not spell a token for the pair with the signature of one issued for another; and it never does
where no identifier and no path has a colon. -/
theorem token_issued (sec : WebhookSecurity) (calls : List TokenCall) (now : ℕ) (query : Option String)
    (c p : String) (hunforged : Unforged sec calls query) :
    ((sec.extractAndVerifyToken now query c p = .valid → HasToken sec calls now c p) ↔
        (Transplants sec calls now query c p → HasToken sec calls now c p)) ∧
      ((∀ call ∈ calls, ':' ∉ call.correlationId.toList ∧ ':' ∉ call.webhookPath.toList) →
        ':' ∉ c.toList → ':' ∉ p.toList →
          sec.extractAndVerifyToken now query c p = .valid → HasToken sec calls now c p) := by
  -- what was signed is the data of a token that was issued
  have hissued : ∀ q token, truthy query = some q → sec.decode q = some token → Passes sec now token →
      ∃ call ∈ calls, (sec.generateWebhookToken call).data = dataOf token := by
    intro q token hq hdecode hpasses
    obtain ⟨signature, hsignature, hspells⟩ := hpasses.signed
    exact hunforged q token signature _ (truthy_eq_some hq) hdecode hsignature hspells
  constructor
  · constructor
    · rintro hvalid ⟨q, token, hq, hdecode, hpasses, hid, hpath, -⟩
      exact hvalid (extractAndVerifyToken_valid.mpr ⟨q, token, hq, hdecode, hpasses, hid, hpath⟩)
    · intro htransplants hvalid
      obtain ⟨q, token, hq, hdecode, hpasses, hid, hpath⟩ := extractAndVerifyToken_valid.mp hvalid
      obtain ⟨call, hcall, hdata⟩ := hissued q token hq hdecode hpasses
      by_cases hown : call.correlationId = c ∧ call.webhookPath = p
      · obtain ⟨rfl, rfl⟩ := hown
        exact ⟨call, hcall, rfl, rfl, fresh_of_own hpasses hid hpath hdata⟩
      · exact htransplants ⟨q, token, hq, hdecode, hpasses, hid, hpath, call, hcall, hown, hdata⟩
  · intro hcalls hc hp hvalid
    obtain ⟨q, token, hq, hdecode, hpasses, hid, hpath⟩ := extractAndVerifyToken_valid.mp hvalid
    obtain ⟨call, hcall, hdata⟩ := hissued q token hq hdecode hpasses
    obtain ⟨rfl, rfl⟩ := pair_of_colonfree (hcalls call hcall) hc hp hid hpath hdata
    exact ⟨call, hcall, rfl, rfl, fresh_of_own hpasses hid hpath hdata⟩

/-! ### Two tokens -/

def digestOf (hex : String) : Digest :=
  if h : (hexDecode hex.toList).length = 32 then ⟨hexDecode hex.toList, h⟩ else ⟨List.replicate 32 0, rfl⟩

def orderData : String := "order-7:/webhooks/callback/pay:1700000000000:1700086400000"

def orderSignature : String := "c359f1c1c81c33dfb9db5c3e96b443139102f4935ef29a6527e49f3c7eb35e99"

def orderToken : Json :=
  .obj [("correlationId", .str "order-7"), ("webhookPath", .str "/webhooks/callback/pay"),
    ("issuedAt", .num ⟨"1700000000000".toList, by decide, List.all_eq_true.mp (by decide)⟩),
    ("expiresAt", .num ⟨"1700086400000".toList, by decide, List.all_eq_true.mp (by decide)⟩),
    ("signature", .str orderSignature)]

def orderQuery : String :=
  "eyJjb3JyZWxhdGlvbklkIjoib3JkZXItNyIsIndlYmhvb2tQYXRoIjoiL3dlYmhvb2tzL2NhbGxiYWNrL3BheSIsImlzc3VlZEF0IjoxNzAw" ++
    "MDAwMDAwMDAwLCJleHBpcmVzQXQiOjE3MDAwODY0MDAwMDAsInNpZ25hdHVyZSI6ImMzNTlmMWMxYzgxYzMzZGZiOWRiNWMzZTk2YjQ0MzEz" ++
    "OTEwMmY0OTM1ZWYyOWE2NTI3ZTQ5ZjNjN2ViMzVlOTkifQ"

def tenantData : String := "tenant:/webhooks/callback/a:x:1700000000000:1700086400000"

def tenantSignature : String := "4017b934fb5f5f859bd35de36eaf09c4e4ca25efaf51520007a160a0630dd429"

/-- The token of `tenant` and `/webhooks/callback/a:x`, split at other colons. -/
def movedToken : Json :=
  .obj [("correlationId", .str "tenant"), ("webhookPath", .str "/webhooks/callback/a"),
    ("issuedAt", .str "x"), ("expiresAt", .str "1700000000000:1700086400000"), ("signature", .str tenantSignature)]

def movedQuery : String :=
  "eyJjb3JyZWxhdGlvbklkIjoidGVuYW50Iiwid2ViaG9va1BhdGgiOiIvd2ViaG9va3MvY2FsbGJhY2svYSIsImlzc3VlZEF0IjoieCIsImV4" ++
    "cGlyZXNBdCI6IjE3MDAwMDAwMDAwMDA6MTcwMDA4NjQwMDAwMCIsInNpZ25hdHVyZSI6IjQwMTdiOTM0ZmI1ZjVmODU5YmQzNWRlMzZlYWYw" ++
    "OWM0ZTRjYTI1ZWZhZjUxNTIwMDA3YTE2MGEwNjMwZGQ0MjkifQ"

/-- The secret is `forge-secret`, and a token expires after a day. -/
def forgeSecurity : WebhookSecurity where
  hmac text := if text = orderData then digestOf orderSignature
    else if text = tenantData then digestOf tenantSignature else digestOf ""
  decode query := if query = orderQuery then some orderToken
    else if query = movedQuery then some movedToken else none
  parse _ := none
  tokenExpirationMs := 86400000
  securityEnabled := true

def orderCall : TokenCall := ⟨"order-7", "/webhooks/callback/pay", 1700000000000⟩

def tenantCall : TokenCall := ⟨"tenant", "/webhooks/callback/a:x", 1700000000000⟩

theorem spells_ofList {cs : List Char} {d : Digest} :
    Spells (String.ofList cs) d ↔ cs.map Char.toLower = hexText d.1 := by
  rw [Spells, String.toList_ofList]

/-- 64 digits are the text of the digest they spell. -/
theorem hexText_digestOf {cs : List Char} (hlength : cs.length = 64) (hall : ∀ c ∈ cs, isHexDigit c = true) :
    hexText (digestOf (String.ofList cs)).1 = cs.map Char.toLower := by
  obtain ⟨-, htext, hpairs⟩ := hexText_hexDecode cs
  have hdecoded := hpairs hall (by rw [hlength])
  have h32 : (hexDecode (String.ofList cs).toList).length = 32 := by
    rw [String.toList_ofList]
    omega
  rw [digestOf, dif_pos h32]
  show hexText (hexDecode (String.ofList cs).toList) = cs.map Char.toLower
  rw [String.toList_ofList]
  exact (htext hdecoded).2

theorem spells_digestOf {cs : List Char} (hlength : cs.length = 64) (hall : ∀ c ∈ cs, isHexDigit c = true) :
    Spells (String.ofList cs) (digestOf (String.ofList cs)) :=
  spells_ofList.mpr (hexText_digestOf hlength hall).symm

theorem not_spells_digestOf {cs cs' : List Char} (hlength : cs'.length = 64)
    (hall : ∀ c ∈ cs', isHexDigit c = true) (hne : cs.map Char.toLower ≠ cs'.map Char.toLower) :
    ¬ Spells (String.ofList cs) (digestOf (String.ofList cs')) := by
  intro h
  rw [spells_ofList, hexText_digestOf hlength hall] at h
  exact hne h

theorem hexText_empty : hexText (digestOf "").1 = List.replicate 64 '0' := by decide

theorem not_spells_digestOf_empty {cs : List Char} (hne : cs.map Char.toLower ≠ List.replicate 64 '0') :
    ¬ Spells (String.ofList cs) (digestOf "") := by
  intro h
  rw [spells_ofList, hexText_empty] at h
  exact hne h

theorem hmac_order : forgeSecurity.hmac orderData = digestOf orderSignature := by
  simp only [forgeSecurity, if_true]

theorem hmac_tenant : forgeSecurity.hmac tenantData = digestOf tenantSignature := by
  have hne : tenantData ≠ orderData := by decide
  simp only [forgeSecurity, if_neg hne, if_true]

theorem data_of_order {data : String} (h : Spells orderSignature (forgeSecurity.hmac data)) : data = orderData := by
  by_contra hne
  change Spells orderSignature (if data = orderData then _ else if data = tenantData then _ else _) at h
  rw [if_neg hne] at h
  split at h
  next => exact not_spells_digestOf rfl (List.all_eq_true.mp (by decide)) (by decide) h
  next => exact not_spells_digestOf_empty (by decide) h

theorem data_of_tenant {data : String} (h : Spells tenantSignature (forgeSecurity.hmac data)) : data = tenantData := by
  by_contra hne
  change Spells tenantSignature (if data = orderData then _ else if data = tenantData then _ else _) at h
  rw [if_neg hne] at h
  split at h
  next => exact not_spells_digestOf rfl (List.all_eq_true.mp (by decide)) (by decide) h
  next => exact not_spells_digestOf_empty (by decide) h

theorem truthy_of_ne {q : String} (h : q ≠ "") : truthy (some q) = some q :=
  Option.filter_some_pos (decide_eq_true h)

theorem decode_order : forgeSecurity.decode orderQuery = some orderToken := by
  simp only [forgeSecurity, if_true]

theorem decode_moved : forgeSecurity.decode movedQuery = some movedToken := by
  have hne : movedQuery ≠ orderQuery := by decide
  simp only [forgeSecurity, if_neg hne, if_true]

theorem passes_order : Passes forgeSecurity 1700000000500 orderToken where
  converts := by decide
  fresh := by decide +kernel
  signed := by
    refine ⟨orderSignature, rfl, ?_⟩
    have hdata : dataOf orderToken = orderData := by decide
    rw [hdata, hmac_order]
    exact spells_digestOf rfl (List.all_eq_true.mp (by decide))

theorem passes_moved : Passes forgeSecurity 1800000000000 movedToken where
  converts := by decide
  fresh := by decide
  signed := by
    refine ⟨tenantSignature, rfl, ?_⟩
    have hdata : dataOf movedToken = tenantData := by decide
    rw [hdata, hmac_tenant]
    exact spells_digestOf rfl (List.all_eq_true.mp (by decide))

theorem token_issued_order :
    forgeSecurity.extractAndVerifyToken 1700000000500 (some orderQuery) "order-7" "/webhooks/callback/pay" = .valid ∧
      HasToken forgeSecurity [orderCall] 1700000000500 "order-7" "/webhooks/callback/pay" := by
  have hunforged : Unforged forgeSecurity [orderCall] (some orderQuery) := by
    rintro q token signature data ⟨⟩ hdecode hsignature hspells
    obtain rfl : orderToken = token := Option.some.inj (decode_order.symm.trans hdecode)
    obtain rfl : orderSignature = signature := Json.str.inj (Option.some.inj hsignature)
    refine ⟨orderCall, List.mem_singleton_self _, ?_⟩
    rw [data_of_order hspells, generated_data]
    decide
  have hvalid : forgeSecurity.extractAndVerifyToken 1700000000500 (some orderQuery) "order-7"
      "/webhooks/callback/pay" = .valid :=
    extractAndVerifyToken_valid.mpr ⟨orderQuery, orderToken, truthy_of_ne (by decide), decode_order, passes_order, rfl, rfl⟩
  refine ⟨hvalid, (token_issued forgeSecurity [orderCall] 1700000000500 (some orderQuery) _ _ hunforged).2 ?_ ?_ ?_ hvalid⟩
    <;> decide

/-- The only token was issued for another path, and a day has passed long since. -/
theorem token_moved : Unforged forgeSecurity [tenantCall] (some movedQuery) ∧
    forgeSecurity.extractAndVerifyToken 1800000000000 (some movedQuery) "tenant" "/webhooks/callback/a" = .valid ∧
      ¬ HasToken forgeSecurity [tenantCall] 1800000000000 "tenant" "/webhooks/callback/a" := by
  refine ⟨?_, ?_, ?_⟩
  · rintro q token signature data ⟨⟩ hdecode hsignature hspells
    obtain rfl : movedToken = token := Option.some.inj (decode_moved.symm.trans hdecode)
    obtain rfl : tenantSignature = signature := Json.str.inj (Option.some.inj hsignature)
    refine ⟨tenantCall, List.mem_singleton_self _, ?_⟩
    rw [data_of_tenant hspells, generated_data]
    decide
  · exact extractAndVerifyToken_valid.mpr
      ⟨movedQuery, movedToken, truthy_of_ne (by decide), decode_moved, passes_moved, rfl, rfl⟩
  · rintro ⟨call, hcall, -, hpath, -⟩
    rw [List.mem_singleton.mp hcall] at hpath
    exact absurd hpath (by decide)

/-! ## Signatures that are accepted -/

/-- The signature that a request presents. -/
def presented (headers : String → Option FieldValue) : Option String :=
  (signatureHeader headers).bind fun
    | .one sig => some (stripSha256 sig)
    | .many l => l.head?.map stripSha256

/-- What the signature check is for: it does not throw, and it accepts the digest of the body as
it was sent. -/
def ChecksWhatWasSent (sec : WebhookSecurity) (text : String) (headers : String → Option FieldValue) : Prop :=
  sec.checkSignature text headers ≠ none ∧
    (sec.checkSignature text headers = some .valid ↔
      ∃ sig, presented headers = some sig ∧ Spells sig (sec.hmac text))

/-- A signature of 64 characters that are not all digits makes the check throw. -/
def Readable (headers : String → Option FieldValue) : Prop :=
  signatureHeader headers ≠ some (.many []) ∧ ∀ sig ∈ presented headers,
    utf16Length sig.toList = 64 → ∀ c ∈ sig.toList, isHexDigit c = true

section Signatures

variable {sec : WebhookSecurity} {headers : String → Option FieldValue} {raw : String}

theorem spells_unique {sig : String} {d d' : Digest} (h : Spells sig d) (h' : Spells sig d') : d = d' :=
  Subtype.ext ((spells_iff.mp h).2.2.symm.trans (spells_iff.mp h').2.2)

theorem not_spells_empty {d : Digest} : ¬ Spells "" d := by
  intro h
  have := congrArg List.length h
  rw [length_hexText, d.2] at this
  cases this

theorem stripSha256_empty : stripSha256 "" = "" := by decide

/-- What the check does with one signature. -/
theorem verified_iff {sig : String} {check : Option Check}
    (hcheck : check = (sec.verifyHmacSignature raw sig).map fun isValid =>
      if isValid then Check.valid else .invalid "Signature verification failed") :
    (check = none ↔ utf16Length sig.toList = 64 ∧ ¬ ∀ c ∈ sig.toList, isHexDigit c = true) ∧
      (check = some .valid ↔ Spells sig (sec.hmac raw)) := by
  subst hcheck
  constructor
  · rw [Option.map_eq_none_iff]
    exact compareSignature_eq_none
  · rw [← compareSignature_eq_true, Option.map_eq_some_iff]
    constructor
    · rintro ⟨isValid, hcompare, hvalid⟩
      cases isValid with
      | false => cases hvalid
      | true => exact hcompare
    · exact fun h => ⟨true, h, rfl⟩

/-- What the check does with a request, by the signature that it presents. -/
theorem validateRequestSignature_iff (raw : String) (headers : String → Option FieldValue)
    (henabled : sec.securityEnabled = true) :
    (sec.validateRequestSignature raw headers ≠ none ↔ Readable headers) ∧
      (sec.validateRequestSignature raw headers = some .valid ↔
        ∃ sig, presented headers = some sig ∧ Spells sig (sec.hmac raw)) := by
  -- of a header with one signature
  have hone : ∀ {sig : String} {check : Option Check},
      check = ((sec.verifyHmacSignature raw (stripSha256 sig)).map fun isValid =>
        if isValid then Check.valid else .invalid "Signature verification failed") →
      signatureHeader headers ≠ some (.many []) → presented headers = some (stripSha256 sig) →
        (check ≠ none ↔ Readable headers) ∧
          (check = some .valid ↔ ∃ sig, presented headers = some sig ∧ Spells sig (sec.hmac raw)) := by
    intro sig check hcheck hheader hpresented
    obtain ⟨hnone, hvalid⟩ := verified_iff hcheck
    constructor
    · rw [Ne, hnone, not_and, not_not]
      constructor
      · intro h
        refine ⟨hheader, fun sig' hsig' => ?_⟩
        obtain rfl : stripSha256 sig = sig' := Option.some.inj (hpresented.symm.trans hsig')
        exact h
      · exact fun h => h.2 _ hpresented
    · rw [hvalid]
      constructor
      · exact fun h => ⟨_, hpresented, h⟩
      · rintro ⟨sig', hsig', hspells⟩
        obtain rfl : stripSha256 sig = sig' := Option.some.inj (hpresented.symm.trans hsig')
        exact hspells
  unfold WebhookSecurity.validateRequestSignature
  rw [henabled]
  split
  next hheader =>
    have hpresented : presented headers = none := by
      unfold presented
      rw [hheader]
      rfl
    rw [hpresented]
    refine ⟨⟨fun _ => ⟨by rw [hheader]; exact nofun, ?_⟩, fun _ => nofun⟩, ⟨nofun, fun h => ?_⟩⟩
    · rw [hpresented]
      exact nofun
    · obtain ⟨sig, hsig, -⟩ := h
      cases hsig
  next hheader =>
    have hpresented : presented headers = some "" := by
      unfold presented
      rw [hheader, ← stripSha256_empty]
      rfl
    rw [hpresented]
    refine ⟨⟨fun _ => ⟨by rw [hheader]; exact nofun, ?_⟩, fun _ => nofun⟩, ⟨nofun, fun h => ?_⟩⟩
    · rw [hpresented]
      rintro sig ⟨⟩ hlength
      cases hlength
    · obtain ⟨sig, ⟨⟩, hspells⟩ := h
      exact absurd hspells not_spells_empty
  next sig _ hheader =>
    refine hone rfl (by rw [hheader]; exact nofun) ?_
    unfold presented
    rw [hheader]
    rfl
  next l hheader =>
    cases l with
    | nil =>
        refine ⟨⟨fun h => absurd rfl h, fun h => absurd hheader h.1⟩, ⟨nofun, fun h => ?_⟩⟩
        obtain ⟨sig, hsig, -⟩ := h
        unfold presented at hsig
        rw [hheader] at hsig
        cases hsig
    | cons sig l =>
        refine hone rfl (by rw [hheader]; exact nofun) ?_
        unfold presented
        rw [hheader]
        rfl

end Signatures

/-- **Signatures.**  The check does not throw, and it accepts the digest of the body as it was
sent, exactly if the signature is no text of 64 characters that are not all digits, and either the
body has the digest of the text that the server writes for its value, or the signature is the
digest of neither. -/
theorem signature_of_body (sec : WebhookSecurity) (text : String) (headers : String → Option FieldValue)
    (henabled : sec.securityEnabled = true) :
    ChecksWhatWasSent sec text headers ↔
      Readable headers ∧ (sec.hmac (rawBody (sec.parse text)) = sec.hmac text ∨
        ∀ sig ∈ presented headers, ¬ Spells sig (sec.hmac (rawBody (sec.parse text))) ∧
          ¬ Spells sig (sec.hmac text)) := by
  obtain ⟨hreadable, hvalid⟩ :=
    validateRequestSignature_iff (rawBody (sec.parse text)) headers henabled
  unfold ChecksWhatWasSent WebhookSecurity.checkSignature
  rw [if_pos henabled, hreadable, hvalid]
  refine and_congr_right fun _ => ?_
  constructor
  · intro h
    by_cases hsame : sec.hmac (rawBody (sec.parse text)) = sec.hmac text
    · exact Or.inl hsame
    · right
      intro sig hsig
      constructor
      · intro hraw
        obtain ⟨sig', hsig', hspells⟩ := h.mp ⟨sig, hsig, hraw⟩
        obtain rfl : sig = sig' := Option.some.inj (Eq.trans (Eq.symm hsig) hsig')
        exact hsame (spells_unique hraw hspells)
      · intro htext
        obtain ⟨sig', hsig', hspells⟩ := h.mpr ⟨sig, hsig, htext⟩
        obtain rfl : sig = sig' := Option.some.inj (Eq.trans (Eq.symm hsig) hsig')
        exact hsame (spells_unique hspells htext)
  · rintro (hsame | hneither)
    · rw [hsame]
    · constructor
      · rintro ⟨sig, hsig, hspells⟩
        exact absurd hspells (hneither sig hsig).1
      · rintro ⟨sig, hsig, hspells⟩
        exact absurd hspells (hneither sig hsig).2

/-! ### One body in two spellings -/

def bodyValue : Json := .obj [("a", .num ⟨['1'], by decide, List.all_eq_true.mp (by decide)⟩)]

/-- The secret is `forge-secret`. -/
def bodySecurity : WebhookSecurity where
  hmac text :=
    if text = "\x7b \"a\": 1 \x7d" then
      digestOf "654b9b522b07501edd3be4db3251dee7610f5d26ea51c9b5d3da16355195308a"
    else if text = "\x7b\"a\":1\x7d" then
      digestOf "86b612725c69813df3504f90bfccc7f4ac1ef7865ce7b31f1aecdc56dc7363b8"
    else digestOf ""
  decode _ := none
  parse text := if text = "\x7b \"a\": 1 \x7d" ∨ text = "\x7b\"a\":1\x7d" then some bodyValue else none
  tokenExpirationMs := 86400000
  securityEnabled := true

def signedBy (sig : String) (name : String) : Option FieldValue :=
  if name = "x-hub-signature-256" then some (.one sig) else none

theorem presented_signedBy (sig : String) : presented (signedBy sig) = some (stripSha256 sig) := by
  simp [presented, signatureHeader, signedBy]

/-- A prefix `sha256=` is taken off. -/
theorem stripSha256_ofList {cs : List Char} : stripSha256 (String.ofList cs) =
    if "sha256=".toList <+: cs then String.ofList (cs.drop 7) else String.ofList cs := by
  simp only [stripSha256, String.toList_ofList]

theorem rawBody_bodyValue : rawBody (some bodyValue) = "\x7b\"a\":1\x7d" := by decide

theorem signature_of_body_tight : ChecksWhatWasSent bodySecurity "\x7b\"a\":1\x7d"
    (signedBy "sha256=86b612725c69813df3504f90bfccc7f4ac1ef7865ce7b31f1aecdc56dc7363b8") := by
  have hpresented : presented
      (signedBy "sha256=86b612725c69813df3504f90bfccc7f4ac1ef7865ce7b31f1aecdc56dc7363b8") =
      some "86b612725c69813df3504f90bfccc7f4ac1ef7865ce7b31f1aecdc56dc7363b8" := by
    rw [presented_signedBy]
    exact congrArg some (stripSha256_ofList.trans (if_pos (by decide)))
  have hparse : bodySecurity.parse "\x7b\"a\":1\x7d" = some bodyValue := by simp [bodySecurity]
  refine (signature_of_body bodySecurity _ _ rfl).mpr ⟨⟨by simp [signatureHeader, signedBy], ?_⟩, Or.inl ?_⟩
  · intro sig hsig _
    rw [hpresented] at hsig
    cases hsig
    rw [show "86b612725c69813df3504f90bfccc7f4ac1ef7865ce7b31f1aecdc56dc7363b8" = String.ofList _ from rfl,
      String.toList_ofList]
    exact List.all_eq_true.mp (by decide)
  · rw [hparse, rawBody_bodyValue]

/-- The body with spaces is refused with its own digest, and a signature of 64 letters that are no
digits makes the check throw. -/
theorem signature_of_body_spaced :
    ¬ ChecksWhatWasSent bodySecurity "\x7b \"a\": 1 \x7d"
        (signedBy "654b9b522b07501edd3be4db3251dee7610f5d26ea51c9b5d3da16355195308a") ∧
      ¬ ChecksWhatWasSent bodySecurity "\x7b\"a\":1\x7d" (signedBy (String.ofList (List.replicate 64 'z'))) := by
  have henabled : bodySecurity.securityEnabled = true := rfl
  constructor
  · intro h
    have hpresented : presented
        (signedBy "654b9b522b07501edd3be4db3251dee7610f5d26ea51c9b5d3da16355195308a") =
        some "654b9b522b07501edd3be4db3251dee7610f5d26ea51c9b5d3da16355195308a" := by
      rw [presented_signedBy]
      exact congrArg some (stripSha256_ofList.trans (if_neg (by decide)))
    have hparse : bodySecurity.parse "\x7b \"a\": 1 \x7d" = some bodyValue := by simp [bodySecurity]
    have hsent : bodySecurity.hmac "\x7b \"a\": 1 \x7d" =
        digestOf "654b9b522b07501edd3be4db3251dee7610f5d26ea51c9b5d3da16355195308a" := by simp [bodySecurity]
    have hwritten : bodySecurity.hmac "\x7b\"a\":1\x7d" =
        digestOf "86b612725c69813df3504f90bfccc7f4ac1ef7865ce7b31f1aecdc56dc7363b8" := by simp [bodySecurity]
    have hvalid := h.2.mpr ⟨_, hpresented, by
      rw [hsent]
      exact spells_digestOf rfl (List.all_eq_true.mp (by decide))⟩
    rw [WebhookSecurity.checkSignature, if_pos henabled, hparse, rawBody_bodyValue,
      (validateRequestSignature_iff _ _ henabled).2] at hvalid
    obtain ⟨sig, hsig, hspells⟩ := hvalid
    rw [hpresented] at hsig
    cases hsig
    rw [hwritten] at hspells
    exact not_spells_digestOf rfl (List.all_eq_true.mp (by decide)) (by decide) hspells
  · intro h
    have hpresented : presented (signedBy (String.ofList (List.replicate 64 'z'))) =
        some (String.ofList (List.replicate 64 'z')) := by
      rw [presented_signedBy]
      exact congrArg some (stripSha256_ofList.trans (if_neg (by decide)))
    have hreadable := h.1
    rw [WebhookSecurity.checkSignature, if_pos henabled, (validateRequestSignature_iff _ _ henabled).1] at hreadable
    have hdigits := hreadable.2 _ hpresented
    rw [String.toList_ofList] at hdigits
    exact absurd (hdigits (by decide) 'z' (List.mem_replicate.mpr ⟨by decide, rfl⟩)) (by decide)

end RedFireForge.Correlation
