/-
# `RedFireForge.Lib.AddressSpelling` — the texts that an IP address may have

The eight pieces of an address are written in full, or with two colons in place of zeros; a
piece has up to four digits of either case; the last two pieces may be written as four bytes.
An address of four bytes is written in decimal.
-/
import RedFireForge.Lib.Address

namespace RedFireForge.Lib

/-- One to four hexadecimal digits. -/
structure Piece where
  digits : List Char
  written : digits ≠ []
  short : digits.length ≤ 4
  hex : ∀ c ∈ digits, isHexDigit c = true
deriving DecidableEq, Repr

def hexValue (cs : List Char) : ℕ := cs.foldl (fun n c => 16 * n + (hexDigitValue c).getD 0) 0

def Piece.value (p : Piece) : ℕ := hexValue p.digits

/-- The four bytes at the end, as two pieces. -/
def tailPieces : Option Ipv4 → List ℕ
  | none => []
  | some a => [a.a * 256 + a.b, a.c * 256 + a.d]

def tailTexts : Option Ipv4 → List (List Char)
  | none => []
  | some a => [a.text]

inductive Ipv6Spelling
  | expanded (ps : List Piece) (tail : Option Ipv4)
      (eight : ps.length + (tailPieces tail).length = 8)
  /-- at least one piece is left out -/
  | compressed (l r : List Piece) (tail : Option Ipv4)
      (short : l.length + r.length + (tailPieces tail).length < 8)
deriving DecidableEq, Repr

inductive AddressSpelling
  | ipv4 (a : Ipv4)
  | ipv6 (s : Ipv6Spelling)
deriving DecidableEq, Repr

def joinColon (ws : List (List Char)) : List Char := List.intercalate [':'] ws

namespace Ipv6Spelling

def text : Ipv6Spelling → List Char
  | expanded ps tail _ => joinColon (ps.map Piece.digits ++ tailTexts tail)
  | compressed l r tail _ =>
      joinColon (l.map Piece.digits) ++ ':' :: ':' :: joinColon (r.map Piece.digits ++ tailTexts tail)

def pieces : Ipv6Spelling → List ℕ
  | expanded ps tail _ => ps.map Piece.value ++ tailPieces tail
  | compressed l r tail _ =>
      l.map Piece.value ++ List.replicate (8 - (l.length + r.length + (tailPieces tail).length)) 0 ++
        (r.map Piece.value ++ tailPieces tail)

end Ipv6Spelling

/-! ## Pieces -/

theorem hexValue_foldl_lt (cs : List Char) (n : ℕ) (h : ∀ c ∈ cs, isHexDigit c = true) :
    cs.foldl (fun n c => 16 * n + (hexDigitValue c).getD 0) n < 16 ^ cs.length * (n + 1) := by
  induction cs generalizing n with
  | nil => simp
  | cons c cs ih =>
      obtain ⟨a, ha⟩ := Option.isSome_iff_exists.mp (h c List.mem_cons_self)
      have hlt := ((hexDigitValue_spec c).2 a ha).1
      have hrest := ih (16 * n + a) fun d hd => h d (List.mem_cons_of_mem c hd)
      rw [List.foldl_cons, ha, List.length_cons, pow_succ]
      refine Nat.lt_of_lt_of_le hrest ?_
      rw [mul_assoc]
      exact Nat.mul_le_mul_left _ (by omega)

theorem Piece.value_lt (p : Piece) : p.value < 65536 := by
  have hlt := hexValue_foldl_lt p.digits 0 p.hex
  have hpow : 16 ^ p.digits.length ≤ 16 ^ 4 := Nat.pow_le_pow_right (by decide) p.short
  exact Nat.lt_of_lt_of_le hlt (by omega)

theorem tailPieces_lt (tail : Option Ipv4) : ∀ n ∈ tailPieces tail, n < 65536 := by
  cases tail with
  | none => exact fun _ h => absurd h List.not_mem_nil
  | some a =>
      intro n hn
      simp only [tailPieces, List.mem_cons, List.not_mem_nil, or_false] at hn
      omega

namespace Ipv6Spelling

theorem length_pieces (s : Ipv6Spelling) : s.pieces.length = 8 := by
  cases s with
  | expanded ps tail eight => simpa [pieces] using eight
  | compressed l r tail short =>
      simp only [pieces, List.length_append, List.length_map, List.length_replicate]
      omega

theorem pieces_lt (s : Ipv6Spelling) : ∀ n ∈ s.pieces, n < 65536 := by
  have hvalues : ∀ ps : List Piece, ∀ n ∈ ps.map Piece.value, n < 65536 := by
    intro ps n hn
    obtain ⟨p, -, rfl⟩ := List.mem_map.mp hn
    exact p.value_lt
  intro n hn
  cases s with
  | expanded ps tail eight =>
      rcases List.mem_append.mp hn with hn | hn
      · exact hvalues ps n hn
      · exact tailPieces_lt tail n hn
  | compressed l r tail short =>
      rcases List.mem_append.mp hn with hn | hn
      · rcases List.mem_append.mp hn with hn | hn
        · exact hvalues l n hn
        · rw [List.eq_of_mem_replicate hn]
          decide
      · rcases List.mem_append.mp hn with hn | hn
        · exact hvalues r n hn
        · exact tailPieces_lt tail n hn

/-- The address that is written. -/
def value (s : Ipv6Spelling) : Ipv6 := ⟨s.pieces, s.length_pieces, s.pieces_lt⟩

end Ipv6Spelling

namespace AddressSpelling

def text : AddressSpelling → List Char
  | ipv4 a => a.text
  | ipv6 s => s.text

def value : AddressSpelling → Ip
  | ipv4 a => .v4 a
  | ipv6 s => .v6 s.value

end AddressSpelling

/-! ## Characters of the texts -/

def isAddressChar (c : Char) : Bool := isHexDigit c || c == ':' || c == '.'

theorem isHexDigit_of_isDigit {c : Char} (h : c.isDigit = true) : isHexDigit c = true := by
  rw [isHexDigit, hexDigitValue, if_pos h]
  rfl

theorem Ipv4.text_address_chars (a : Ipv4) : ∀ c ∈ a.text, isAddressChar c = true := by
  intro c hc
  rcases a.text_chars c hc with h | rfl
  · rw [isAddressChar, isHexDigit_of_isDigit h]
    rfl
  · decide

theorem Piece.digits_address_chars (p : Piece) : ∀ c ∈ p.digits, isAddressChar c = true := by
  intro c hc
  rw [isAddressChar, p.hex c hc]
  rfl

theorem joinColon_cons {w : List Char} {ws : List (List Char)} (hws : ws ≠ []) :
    joinColon (w :: ws) = w ++ ':' :: joinColon ws := by
  obtain ⟨v, vs, rfl⟩ := List.exists_cons_of_ne_nil hws
  rw [joinColon, List.intercalate_cons_cons, List.append_assoc]
  rfl

theorem joinColon_singleton (w : List Char) : joinColon [w] = w := List.intercalate_singleton

theorem joinColon_chars {ws : List (List Char)} (h : ∀ w ∈ ws, ∀ c ∈ w, isAddressChar c = true) :
    ∀ c ∈ joinColon ws, isAddressChar c = true := by
  induction ws with
  | nil => exact fun _ h => absurd h List.not_mem_nil
  | cons w ws ih =>
      rw [List.forall_mem_cons] at h
      intro c hc
      by_cases hws : ws = []
      · rw [hws, joinColon_singleton] at hc
        exact h.1 c hc
      · rw [joinColon_cons hws, List.mem_append, List.mem_cons] at hc
        rcases hc with hc | rfl | hc
        · exact h.1 c hc
        · decide
        · exact ih h.2 c hc

theorem words_address_chars (ps : List Piece) (tail : Option Ipv4) :
    ∀ w ∈ ps.map Piece.digits ++ tailTexts tail, ∀ c ∈ w, isAddressChar c = true := by
  intro w hw
  rcases List.mem_append.mp hw with hw | hw
  · obtain ⟨p, -, rfl⟩ := List.mem_map.mp hw
    exact p.digits_address_chars
  · cases tail with
    | none => exact absurd hw List.not_mem_nil
    | some a =>
        rw [List.mem_singleton.mp hw]
        exact a.text_address_chars

theorem AddressSpelling.text_chars (s : AddressSpelling) : ∀ c ∈ s.text, isAddressChar c = true := by
  intro c hc
  match s with
  | ipv4 a => exact a.text_address_chars c hc
  | ipv6 (.expanded ps tail _) => exact joinColon_chars (words_address_chars ps tail) c hc
  | ipv6 (.compressed l r tail _) =>
      rcases List.mem_append.mp hc with hc | hc
      · refine joinColon_chars (fun w hw => ?_) c hc
        exact words_address_chars l none w (List.mem_append_left _ hw)
      · rcases List.mem_cons.mp hc with rfl | hc
        · decide
        · rcases List.mem_cons.mp hc with rfl | hc
          · decide
          · exact joinColon_chars (words_address_chars r tail) c hc

end RedFireForge.Lib
