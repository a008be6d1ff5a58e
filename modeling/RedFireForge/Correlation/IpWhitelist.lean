/-
# `RedFireForge.Correlation.IpWhitelist` — the addresses that callbacks may come from

The whitelist holds addresses and blocks of addresses, as texts.  A listed address is compared
as a text, a block by the bits under its mask; the prefix that IPv6 gives to an IPv4 address is
taken off first.
-/
import RedFireForge.ApiMock.JsonPath
import RedFireForge.Lib.Address
import RedFireForge.Lib.Bits32
import RedFireForge.Lib.Text

namespace RedFireForge.Correlation

open RedFireForge.Lib
open RedFireForge.ApiMock (isSpace)

def leadingDigits (cs : List Char) : Option ℤ :=
  let ds := cs.takeWhile Char.isDigit
  if ds = [] then none else some ((Nat.ofDigitChars 10 ds 0 : ℕ) : ℤ)

/-- `parseInt(text, 10)`; `none` is `NaN`. -/
def parseInt (cs : List Char) : Option ℤ :=
  match cs.dropWhile isSpace with
  | '-' :: cs => (leadingDigits cs).map (- ·)
  | '+' :: cs => leadingDigits cs
  | cs => leadingDigits cs

/-- The loop over the parts. -/
def pushBytes : ℤ → List (List Char) → Option ℤ
  | num, [] => some num
  | num, part :: parts =>
      match parseInt part with
      | none => none
      | some n => if n < 0 ∨ n > 255 then none else pushBytes (or32 (shiftLeft32 num 8) n) parts

def ipToNumber (ip : List Char) : Option ℤ :=
  let parts := ip.splitOn '.'
  if parts.length ≠ 4 then none else (pushBytes 0 parts).map (shiftRight32 · 0)

def maskOf (bits : ℤ) : ℤ :=
  if bits = 0 then 0 else shiftRight32 (shiftLeft32 (not32 0) (32 - bits)) 0

def isIpInCidr (ip cidr : List Char) : Bool :=
  match cidr.splitOn '/' with
  | range :: bitsStr :: _ =>
      match parseInt bitsStr with
      | none => false
      | some bits =>
          if bits < 0 ∨ bits > 32 then false
          else
            match ipToNumber ip, ipToNumber range with
            | some ipNum, some rangeNum => and32 ipNum (maskOf bits) == and32 rangeNum (maskOf bits)
            | _, _ => false
  | _ => false

def mappedPrefix : List Char := "::ffff:".toList

def normalized (ip : List Char) : List Char :=
  if mappedPrefix.isPrefixOf ip then ip.drop 7 else ip

def isIpAllowed (ipWhitelist : List (List Char)) (ip : Option (List Char)) : Bool :=
  if ipWhitelist.length = 0 then true
  else
    match ip with
    | none => false
    | some ip =>
        if ip = [] then false
        else
          ipWhitelist.any fun allowed =>
            if (normalized allowed).contains '/' then isIpInCidr (normalized ip) (normalized allowed)
            else normalized ip == normalized allowed

/-! ## What a whitelist is for -/

/-- The four bytes, the first one highest. -/
def ipBits (x : Ipv4) : BitVec 32 := BitVec.ofNat 32 (((x.a * 256 + x.b) * 256 + x.c) * 256 + x.d)

inductive Listed
  | address (a : Ipv4)
  | block (a : Ipv4) (len : Fin 33)
deriving DecidableEq, Repr

namespace Listed

def text : Listed → List Char
  | address a => a.text
  | block a len => a.text ++ '/' :: Nat.toDigits 10 len

/-- The address is the listed one, or has the first bits of the listed block. -/
def Holds (ip : Ipv4) : Listed → Prop
  | address a => ip = a
  | block a len => ∀ i < len.val, (ipBits ip).getMsbD i = (ipBits a).getMsbD i

end Listed

/-- A text, with or without the prefix of a mapped address. -/
def spelled (mapped : Bool) (cs : List Char) : List Char := if mapped then mappedPrefix ++ cs else cs

/-! ## Numbers -/

theorem parseInt_toDigits (n : ℕ) : parseInt (Nat.toDigits 10 n) = some (n : ℤ) := by
  have hdigits : ∀ c ∈ Nat.toDigits 10 n, c.isDigit = true := fun c hc => Ipv4.isDigit_toDigits hc
  have hblank : (Nat.toDigits 10 n).dropWhile isSpace = Nat.toDigits 10 n := dropWhile_of_head fun c hc =>
    ApiMock.isSpace_of_isDigit (hdigits c (List.mem_of_mem_head? hc))
  have htake : (Nat.toDigits 10 n).takeWhile Char.isDigit = Nat.toDigits 10 n :=
    List.takeWhile_eq_self_iff.mpr hdigits
  rw [parseInt, hblank]
  split
  next cs hcs => exact absurd (hdigits '-' (by rw [hcs]; exact List.mem_cons_self)) (by decide)
  next cs hcs => exact absurd (hdigits '+' (by rw [hcs]; exact List.mem_cons_self)) (by decide)
  next => rw [leadingDigits, htake, if_neg Nat.toDigits_ne_nil, Nat.ofDigitChars_ten_toDigits]

theorem pushBytes_byte {k : ℕ} {num : ℤ} (hnum : bits32 num = BitVec.ofNat 32 k) (hk : k < 2 ^ 24) (b : Fin 256)
    (parts : List (List Char)) :
    ∃ num', bits32 num' = BitVec.ofNat 32 (k * 256 + b) ∧
      pushBytes num (Nat.toDigits 10 b :: parts) = pushBytes num' parts := by
  refine ⟨or32 (shiftLeft32 num 8) b, ?_, ?_⟩
  · rw [bits32_or32, bits32_shiftLeft32, hnum, bits32_natCast]
    exact shiftLeft_or_byte hk b.isLt
  · rw [pushBytes, parseInt_toDigits]
    exact if_neg (by omega)

theorem ipToNumber_text (x : Ipv4) : ∃ num, ipToNumber x.text = some num ∧ bits32 num = ipBits x := by
  obtain ⟨n₁, h₁, e₁⟩ := @pushBytes_byte 0 0 rfl (by decide) x.a [Nat.toDigits 10 x.b, Nat.toDigits 10 x.c, Nat.toDigits 10 x.d]
  obtain ⟨n₂, h₂, e₂⟩ := pushBytes_byte h₁ (by omega) x.b [Nat.toDigits 10 x.c, Nat.toDigits 10 x.d]
  obtain ⟨n₃, h₃, e₃⟩ := pushBytes_byte h₂ (by omega) x.c [Nat.toDigits 10 x.d]
  obtain ⟨n₄, h₄, e₄⟩ := pushBytes_byte h₃ (by omega) x.d []
  refine ⟨shiftRight32 n₄ 0, ?_, ?_⟩
  · rw [ipToNumber, Ipv4.splitOn_text, e₁, e₂, e₃, e₄]
    rfl
  · rw [bits32_shiftRight32_zero, h₄, ipBits, zero_mul, zero_add]

theorem bits32_maskOf (len : Fin 33) :
    bits32 (maskOf (len : ℕ)) = BitVec.allOnes 32 <<< (32 - len.val) := by
  obtain ⟨len, hlen⟩ := len
  cases len with
  | zero => exact (by decide : bits32 (maskOf 0) = BitVec.allOnes 32 <<< 32)
  | succ len =>
      have hcount : shiftCount (32 - ((len + 1 : ℕ) : ℤ)) = 32 - (len + 1) := by
        rw [show (32 - ((len + 1 : ℕ) : ℤ)) = ((32 - (len + 1) : ℕ) : ℤ) by omega]
        exact shiftCount_natCast (by omega)
      have hnot : bits32 (not32 0) = BitVec.allOnes 32 := by decide
      have hzero : ((len + 1 : ℕ) : ℤ) ≠ 0 := by omega
      rw [maskOf, if_neg hzero, bits32_shiftRight32_zero, bits32_shiftLeft32, hcount, hnot]

/-! ## Texts -/

theorem slash_not_mem_text (x : Ipv4) : '/' ∉ x.text := by
  intro h
  rcases x.text_chars '/' h with h | h
  · exact absurd h (by decide)
  · exact absurd h (by decide)

theorem normalized_spelled {mapped : Bool} {c : Char} {cs : List Char} (hc : c.isDigit = true) :
    normalized (spelled mapped (c :: cs)) = c :: cs := by
  cases mapped with
  | false =>
      refine if_neg (fun hmapped => ?_)
      have hprefix : ':' :: ":ffff:".toList <+: c :: cs := List.isPrefixOf_iff_prefix.mp hmapped
      obtain rfl : ':' = c := (List.cons_prefix_cons.mp hprefix).1
      cases hc
  | true => exact if_pos (by simp [spelled])

namespace Listed

theorem text_first (e : Listed) : ∃ c cs, e.text = c :: cs ∧ c.isDigit = true := by
  cases e with
  | address a => exact a.text_first
  | block a len =>
      obtain ⟨c, cs, hcs, hc⟩ := a.text_first
      exact ⟨c, cs ++ '/' :: Nat.toDigits 10 len, by rw [text, hcs]; rfl, hc⟩

end Listed

theorem isIpInCidr_text (ip a : Ipv4) (len : Fin 33) :
    isIpInCidr ip.text (Listed.block a len).text = true ↔ (Listed.block a len).Holds ip := by
  have hdigits : '/' ∉ Nat.toDigits 10 len := fun hmem => absurd (Ipv4.isDigit_toDigits hmem) (by decide)
  have hsplit : (Listed.block a len).text.splitOn '/' = [a.text, Nat.toDigits 10 len] := by
    rw [Listed.text, List.splitOn_append_cons_self_of_not_mem (slash_not_mem_text a), List.splitOn_eq_singleton hdigits]
  obtain ⟨ipNum, hip, hipBits⟩ := ipToNumber_text ip
  obtain ⟨rangeNum, hrange, hrangeBits⟩ := ipToNumber_text a
  have hmasked : isIpInCidr ip.text (Listed.block a len).text =
      (and32 ipNum (maskOf (len : ℕ)) == and32 rangeNum (maskOf (len : ℕ))) := by
    rw [isIpInCidr, hsplit]
    dsimp only
    rw [parseInt_toDigits, hip, hrange]
    exact if_neg (by omega)
  rw [hmasked, beq_iff_eq, and32_inj, hipBits, hrangeBits, bits32_maskOf]
  exact and_firstBits_inj (by omega)

/-- What the loop does with one listed text. -/
theorem allowed_iff (ip : Ipv4) (e : Listed) :
    (if e.text.contains '/' then isIpInCidr ip.text e.text else ip.text == e.text) = true ↔ e.Holds ip := by
  cases e with
  | address a =>
      rw [if_neg (by simpa [Listed.text] using slash_not_mem_text a), beq_iff_eq]
      exact ⟨Ipv4.text_inj, congrArg Ipv4.text⟩
  | block a len =>
      rw [if_pos (by simp [Listed.text])]
      exact isIpInCidr_text ip a len

/-- A whitelist that is not empty lets in what it lists. -/
theorem isIpAllowed_iff (mapped : Bool) (ip : Ipv4) (first : Bool × Listed) (rest : List (Bool × Listed)) :
    isIpAllowed ((first :: rest).map fun e => spelled e.1 e.2.text) (some (spelled mapped ip.text)) = true ↔
      ∃ e ∈ first :: rest, e.2.Holds ip := by
  obtain ⟨c, cs, hcs, hc⟩ := ip.text_first
  have hip : normalized (spelled mapped ip.text) = ip.text := by
    rw [hcs]
    exact normalized_spelled hc
  have hentry : ∀ e : Bool × Listed, normalized (spelled e.1 e.2.text) = e.2.text := by
    intro e
    obtain ⟨c, cs, hcs, hc⟩ := e.2.text_first
    rw [hcs]
    exact normalized_spelled hc
  have hne : spelled mapped ip.text ≠ [] := by
    intro hnil
    rw [hnil, hcs] at hip
    cases hip
  have hany : isIpAllowed ((first :: rest).map fun e => spelled e.1 e.2.text) (some (spelled mapped ip.text)) =
      (first :: rest).any fun e =>
        if e.2.text.contains '/' then isIpInCidr ip.text e.2.text else ip.text == e.2.text := by
    rw [isIpAllowed, if_neg (by simp), if_neg hne, List.any_map, hip]
    exact congrArg _ (funext fun e => by rw [Function.comp, hentry])
  rw [hany, List.any_eq_true]
  exact exists_congr fun e => and_congr_right fun _ => allowed_iff ip e.2

end RedFireForge.Correlation
