/-
# `RedFireForge.Lib.Address` — IP addresses and their texts

An address of four bytes is written in decimal, one of eight pieces in small hexadecimal
digits, the first of its longest runs of zeros as two colons.
-/
import RedFireForge.Lib.Hex

namespace RedFireForge.Lib

structure Ipv4 where
  a : Fin 256
  b : Fin 256
  c : Fin 256
  d : Fin 256
deriving DecidableEq, Repr

structure Ipv6 where
  pieces : List ℕ
  eight : pieces.length = 8
  small : ∀ n ∈ pieces, n < 65536
deriving DecidableEq, Repr

inductive Ip
  | v4 (a : Ipv4)
  | v6 (a : Ipv6)
deriving DecidableEq, Repr

/-! ## Ranges -/

namespace Ipv4

/-- 127.0.0.0/8 -/
def isLoopback (x : Ipv4) : Bool := x.a == 127

/-- 10.0.0.0/8, 172.16.0.0/12 and 192.168.0.0/16 -/
def isPrivate (x : Ipv4) : Bool :=
  x.a == 10 || (x.a == 172 && decide (16 ≤ x.b ∧ x.b ≤ 31)) || (x.a == 192 && x.b == 168)

/-- 169.254.0.0/16 -/
def isLinkLocal (x : Ipv4) : Bool := x.a == 169 && x.b == 254

def isUnspecified (x : Ipv4) : Bool := x == ⟨0, 0, 0, 0⟩

def text (x : Ipv4) : List Char :=
  Nat.toDigits 10 x.a ++ '.' :: (Nat.toDigits 10 x.b ++
    '.' :: (Nat.toDigits 10 x.c ++ '.' :: Nat.toDigits 10 x.d))

variable {x y : Ipv4}

theorem isDigit_toDigits {n : ℕ} {c : Char} (h : c ∈ Nat.toDigits 10 n) : c.isDigit = true :=
  Nat.isDigit_of_mem_toDigits (by decide) (by decide) h

theorem toDigits_inj {n m : ℕ} (h : Nat.toDigits 10 n = Nat.toDigits 10 m) : n = m := by
  have hvalue := congrArg (fun cs => Nat.ofDigitChars 10 cs 0) h
  simpa only [Nat.ofDigitChars_ten_toDigits] using hvalue

theorem dot_not_mem_toDigits (n : ℕ) : '.' ∉ Nat.toDigits 10 n :=
  fun h => absurd (isDigit_toDigits h) (by decide)

theorem splitOn_text (x : Ipv4) : x.text.splitOn '.' =
    [Nat.toDigits 10 x.a, Nat.toDigits 10 x.b, Nat.toDigits 10 x.c, Nat.toDigits 10 x.d] := by
  have hdot := dot_not_mem_toDigits
  rw [text, List.splitOn_append_cons_self_of_not_mem (hdot _), List.splitOn_append_cons_self_of_not_mem (hdot _),
    List.splitOn_append_cons_self_of_not_mem (hdot _), List.splitOn_eq_singleton (hdot _)]

/-- An address has one text. -/
theorem text_inj (h : x.text = y.text) : x = y := by
  have hsplit := congrArg (List.splitOn '.') h
  rw [splitOn_text, splitOn_text] at hsplit
  simp only [List.cons.injEq, and_true] at hsplit
  obtain ⟨ha, hb, hc, hd⟩ := hsplit
  obtain ⟨a, b, c, d⟩ := x
  obtain ⟨a', b', c', d'⟩ := y
  rw [mk.injEq]
  exact ⟨Fin.ext (toDigits_inj ha), Fin.ext (toDigits_inj hb), Fin.ext (toDigits_inj hc), Fin.ext (toDigits_inj hd)⟩

theorem text_chars (x : Ipv4) : ∀ c ∈ x.text, c.isDigit = true ∨ c = '.' := by
  intro c hc
  simp only [text, List.mem_append, List.mem_cons] at hc
  rcases hc with hc | rfl | hc | rfl | hc | rfl | hc
  any_goals exact Or.inl (isDigit_toDigits hc)
  all_goals exact Or.inr rfl

theorem text_first (x : Ipv4) : ∃ c cs, x.text = c :: cs ∧ c.isDigit = true := by
  obtain ⟨c, cs, hcs⟩ := List.exists_cons_of_ne_nil (@Nat.toDigits_ne_nil x.a 10)
  have hc : c ∈ Nat.toDigits 10 x.a := by
    rw [hcs]
    exact List.mem_cons_self
  rw [text, hcs]
  exact ⟨c, _, rfl, isDigit_toDigits hc⟩

end Ipv4

/-- Digits are the text of a number. -/
theorem toDigits_written (n : ℕ) : Nat.toDigits 10 n ≠ [] ∧ ∀ c ∈ Nat.toDigits 10 n, isNumberChar c = true := by
  refine ⟨Nat.toDigits_ne_nil, fun c hc => ?_⟩
  rw [isNumberChar, Ipv4.isDigit_toDigits hc]
  rfl

namespace Ipv6

def firstPiece (x : Ipv6) : ℕ := x.pieces.headD 0

/-- `::1` -/
def isLoopback (x : Ipv6) : Bool := x.pieces == [0, 0, 0, 0, 0, 0, 0, 1]

/-- `::` -/
def isUnspecified (x : Ipv6) : Bool := x.pieces == [0, 0, 0, 0, 0, 0, 0, 0]

/-- fc00::/7 -/
def isUniqueLocal (x : Ipv6) : Bool := decide (0xfc00 ≤ x.firstPiece ∧ x.firstPiece < 0xfe00)

/-- fe80::/10 -/
def isLinkLocal (x : Ipv6) : Bool := decide (0xfe80 ≤ x.firstPiece ∧ x.firstPiece < 0xfec0)

/-- ::ffff:0:0/96 -/
def toIpv4Mapped (x : Ipv6) : Option Ipv4 :=
  match x.pieces with
  | [0, 0, 0, 0, 0, 0xffff, h, l] =>
      some ⟨.ofNat 256 (h / 256), .ofNat 256 (h % 256), .ofNat 256 (l / 256), .ofNat 256 (l % 256)⟩
  | _ => none

theorem firstPiece_lt (x : Ipv6) : x.firstPiece < 65536 := by
  obtain ⟨pieces, height, hsmall⟩ := x
  cases pieces with
  | nil => cases height
  | cons n ps => exact hsmall n List.mem_cons_self

/-! ## The text -/

def pieceText (n : ℕ) : List Char :=
  if n < 16 then [Json.hexDigit n]
  else if n < 256 then [Json.hexDigit (n / 16), Json.hexDigit (n % 16)]
  else if n < 4096 then
    [Json.hexDigit (n / 256), Json.hexDigit (n / 16 % 16), Json.hexDigit (n % 16)]
  else
    [Json.hexDigit (n / 4096), Json.hexDigit (n / 256 % 16), Json.hexDigit (n / 16 % 16),
      Json.hexDigit (n % 16)]

def joinPieces : List ℕ → List Char
  | [] => []
  | [n] => pieceText n
  | n :: m :: ps => pieceText n ++ ':' :: joinPieces (m :: ps)

/-- Where the first of the longest runs of zeros begins, and how long it is. -/
def longestRun : List ℕ → ℕ × ℕ
  | [] => (0, 0)
  | n :: ps =>
      let len := ((n :: ps).takeWhile (· == 0)).length
      if (longestRun ps).2 ≤ len then (0, len) else ((longestRun ps).1 + 1, (longestRun ps).2)

def compress (ps : List ℕ) : List Char :=
  let (i, len) := longestRun ps
  if len < 2 then joinPieces ps
  else joinPieces (ps.take i) ++ ':' :: ':' :: joinPieces (ps.drop (i + len))

def text (x : Ipv6) : List Char := compress x.pieces

/-! ## What is in a text -/

variable {n m : ℕ} {ps : List ℕ} {x : Ipv6}

/-- A colon or a digit. -/
def IsPiece (c : Char) : Prop := c = ':' ∨ ∃ d < 16, c = Json.hexDigit d

theorem pieceText_chars (hn : n < 65536) : ∀ c ∈ pieceText n, ∃ d < 16, c = Json.hexDigit d := by
  intro c hc
  unfold pieceText at hc
  split at hc
  · simp only [List.mem_singleton] at hc
    exact ⟨n, by omega, hc⟩
  · split at hc
    · simp only [List.mem_cons, List.not_mem_nil, or_false] at hc
      rcases hc with rfl | rfl <;> exact ⟨_, by omega, rfl⟩
    · split at hc
      · simp only [List.mem_cons, List.not_mem_nil, or_false] at hc
        rcases hc with rfl | rfl | rfl <;> exact ⟨_, by omega, rfl⟩
      · simp only [List.mem_cons, List.not_mem_nil, or_false] at hc
        rcases hc with rfl | rfl | rfl | rfl <;> exact ⟨_, by omega, rfl⟩

theorem joinPieces_chars (hps : ∀ n ∈ ps, n < 65536) : ∀ c ∈ joinPieces ps, IsPiece c := by
  induction ps with
  | nil => exact fun _ h => absurd h List.not_mem_nil
  | cons n ps ih =>
      rw [List.forall_mem_cons] at hps
      intro c hc
      cases ps with
      | nil => exact Or.inr (pieceText_chars hps.1 c hc)
      | cons m ps =>
          rw [joinPieces] at hc
          rcases List.mem_append.mp hc with hc | hc
          · exact Or.inr (pieceText_chars hps.1 c hc)
          · rcases List.mem_cons.mp hc with rfl | hc
            · exact Or.inl rfl
            · exact ih hps.2 c hc

theorem text_chars (x : Ipv6) : ∀ c ∈ x.text, IsPiece c := by
  have hsome : ∀ ps : List ℕ, ps <:+: x.pieces → ∀ c ∈ joinPieces ps, IsPiece c :=
    fun ps hps => joinPieces_chars fun n hn => x.small n (hps.subset hn)
  intro c hc
  unfold text compress at hc
  dsimp only at hc
  split at hc
  · exact hsome _ (List.infix_refl _) c hc
  · rcases List.mem_append.mp hc with hc | hc
    · exact hsome _ (List.take_prefix _ _).isInfix c hc
    · rcases List.mem_cons.mp hc with rfl | hc
      · exact Or.inl rfl
      · rcases List.mem_cons.mp hc with rfl | hc
        · exact Or.inl rfl
        · exact hsome _ (List.drop_suffix _ _).isInfix c hc

theorem joinPieces_cons (hps : ps ≠ []) : joinPieces (n :: ps) = pieceText n ++ ':' :: joinPieces ps := by
  cases ps with
  | nil => exact absurd rfl hps
  | cons m ps => rfl

/-- A run begins with a zero. -/
theorem longestRun_pos (hn : n ≠ 0) (hrun : (longestRun (n :: ps)).2 ≠ 0) :
    (longestRun (n :: ps)).1 ≠ 0 := by
  have hzero : (List.takeWhile (· == 0) (n :: ps)).length = 0 := by simp [hn]
  rw [longestRun] at hrun ⊢
  split
  next hle =>
    rw [if_pos hle] at hrun
    exact absurd hzero hrun
  next => exact Nat.succ_ne_zero _

/-- A first piece that is not zero is written out. -/
theorem text_first (hfirst : x.firstPiece ≠ 0) :
    ∃ rest, x.text = pieceText x.firstPiece ++ ':' :: rest := by
  obtain ⟨pieces, height, hsmall⟩ := x
  cases pieces with
  | nil => cases height
  | cons n ps =>
      have hps : ps ≠ [] := by
        rintro rfl
        cases height
      change n ≠ 0 at hfirst
      show ∃ rest, compress (n :: ps) = pieceText n ++ ':' :: rest
      unfold compress
      dsimp only
      split
      next => exact ⟨joinPieces ps, joinPieces_cons hps⟩
      next hlong =>
        obtain ⟨i, hi⟩ := Nat.exists_eq_succ_of_ne_zero (@longestRun_pos n ps hfirst (by omega))
        rw [hi, List.take_succ_cons]
        by_cases htake : ps.take i = []
        · rw [htake]
          exact ⟨_, rfl⟩
        · rw [joinPieces_cons htake, List.append_assoc, List.cons_append]
          exact ⟨_, rfl⟩

theorem text_head (hfirst : x.firstPiece ≠ 0) : x.text.head? ≠ some ':' := by
  obtain ⟨rest, hrest⟩ := text_first hfirst
  have hne : pieceText x.firstPiece ≠ [] := by
    unfold pieceText
    split
    · exact List.cons_ne_nil _ _
    · split
      · exact List.cons_ne_nil _ _
      · split <;> exact List.cons_ne_nil _ _
  obtain ⟨c, cs, hcs⟩ := List.exists_cons_of_ne_nil hne
  obtain ⟨d, hd, rfl⟩ := pieceText_chars x.firstPiece_lt c (by rw [hcs]; exact List.mem_cons_self)
  have hdigit : ∀ d < 16, Json.hexDigit d ≠ ':' := by decide
  rw [hrest, hcs]
  exact fun hcolon => hdigit d hd (Option.some.inj hcolon)

theorem colon_mem_text (x : Ipv6) : ':' ∈ x.text := by
  obtain ⟨pieces, height, hsmall⟩ := x
  match pieces, height with
  | n :: m :: ps, _ =>
      show ':' ∈ compress (n :: m :: ps)
      unfold compress
      dsimp only
      split
      · rw [joinPieces]
        simp
      · simp

/-! ### The link-local addresses -/

theorem hexDigit_inj {d d' : ℕ} (hd : d < 16) (hd' : d' < 16) (h : Json.hexDigit d = Json.hexDigit d') :
    d = d' := by
  have hvalue := congrArg hexDigitValue h
  rw [hexDigitValue_hexDigit hd, hexDigitValue_hexDigit hd'] at hvalue
  exact Option.some.inj hvalue

/-- Pieces of four digits that are followed by a colon. -/
theorem piece_of_begins {rest rest' : List Char} (hn : 4096 ≤ n ∧ n < 65536)
    (hm : 4096 ≤ m ∧ m < 65536) (h : pieceText m ++ ':' :: rest' = pieceText n ++ ':' :: rest) :
    m = n := by
  have hfour : ∀ k, 4096 ≤ k → pieceText k = [Json.hexDigit (k / 4096),
      Json.hexDigit (k / 256 % 16), Json.hexDigit (k / 16 % 16), Json.hexDigit (k % 16)] := by
    intro k hk
    rw [pieceText, if_neg (by omega), if_neg (by omega), if_neg (by omega)]
  rw [hfour n hn.1, hfour m hm.1] at h
  simp only [List.cons_append, List.nil_append, List.cons.injEq] at h
  obtain ⟨h₃, h₂, h₁, h₀, -⟩ := h
  have e₃ := hexDigit_inj (by omega) (by omega) h₃
  have e₂ := hexDigit_inj (by omega) (by omega) h₂
  have e₁ := hexDigit_inj (by omega) (by omega) h₁
  have e₀ := hexDigit_inj (by omega) (by omega) h₀
  omega

end Ipv6

end RedFireForge.Lib
