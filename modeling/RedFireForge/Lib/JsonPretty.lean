/-
# `RedFireForge.Lib.JsonPretty` — the text of a JSON value on lines of its own

The text of `JSON.stringify` with an indent of two.  Without the blanks outside its strings it is
the text on one line, so here, too, values with the same text are the same.
-/
import RedFireForge.Lib.JsonTree

namespace RedFireForge.Lib

namespace Json

/-- A new line `n` levels down. -/
def newline (n : ℕ) : List Char := '\n' :: List.replicate (2 * n) ' '

mutual
def renderLines (n : ℕ) : Json → List Char
  | .null => render .null
  | .bool b => render (.bool b)
  | .num k => render (.num k)
  | .str s => render (.str s)
  | .arr [] => ['[', ']']
  | .arr (j :: items) => '[' :: (newline (n + 1) ++ (renderLines (n + 1) j ++ itemLines n items))
  | .obj [] => ['{', '}']
  | .obj ((key, j) :: fields) =>
      '{' :: (newline (n + 1) ++
        '"' :: (quoted key.toList ++ ':' :: ' ' :: (renderLines (n + 1) j ++ fieldLines n fields)))

/-- The items after the first, and the closing bracket. -/
def itemLines (n : ℕ) : List Json → List Char
  | [] => newline n ++ [']']
  | j :: items => ',' :: (newline (n + 1) ++ (renderLines (n + 1) j ++ itemLines n items))

def fieldLines (n : ℕ) : List (String × Json) → List Char
  | [] => newline n ++ ['}']
  | (key, j) :: fields =>
      ',' :: (newline (n + 1) ++
        '"' :: (quoted key.toList ++ ':' :: ' ' :: (renderLines (n + 1) j ++ fieldLines n fields)))
end

/-- `JSON.stringify(j, null, 2)` -/
def pretty (j : Json) : String := String.ofList (renderLines 0 j)

/-! ## The blanks between -/

/-- Where a character stands: between the tokens, in a string, or after a backslash in one. -/
inductive Place
  | outside | inside | escaped

def Place.next : Place → Char → Place
  | .outside, c => if c = '"' then .inside else .outside
  | .inside, c => if c = '\\' then .escaped else if c = '"' then .outside else .inside
  | .escaped, _ => .inside

/-- A text without the blanks between its tokens. -/
def squeeze : Place → List Char → List Char
  | _, [] => []
  | .outside, c :: cs =>
      if c = ' ' ∨ c = '\n' then squeeze .outside cs else c :: squeeze (Place.next .outside c) cs
  | p, c :: cs => c :: squeeze (p.next c) cs

theorem squeeze_escape (c : Char) (r : List Char) :
    squeeze .inside (escape c ++ r) = escape c ++ squeeze .inside r := by
  by_cases hc : c.toNat < 32
  · refine forall_char_lt (P := fun c => squeeze .inside (escape c ++ r) = escape c ++ squeeze .inside r)
      (fun n hn => ?_) hc
    interval_cases n <;> rfl
  · unfold escape
    split
    next => rfl
    next hmark =>
      split
      next => rfl
      next hback =>
        have h8 : c.toNat ≠ 8 := by omega
        have h9 : c.toNat ≠ 9 := by omega
        have h10 : c.toNat ≠ 10 := by omega
        have h12 : c.toNat ≠ 12 := by omega
        have h13 : c.toNat ≠ 13 := by omega
        simp [h8, h9, h10, h12, h13, squeeze, Place.next, hmark, hback]

theorem squeeze_quoted (cs r : List Char) :
    squeeze .inside (quoted cs ++ r) = quoted cs ++ squeeze .outside r := by
  unfold quoted
  induction cs with
  | nil => rfl
  | cons c cs ih =>
      rw [List.flatMap_cons, List.append_assoc, List.append_assoc, squeeze_escape]
      simp only [List.append_assoc] at ih ⊢
      rw [ih]

theorem squeeze_newline (n : ℕ) (r : List Char) :
    squeeze .outside (newline n ++ r) = squeeze .outside r := by
  have hblanks : ∀ k, squeeze .outside (List.replicate k ' ' ++ r) = squeeze .outside r := by
    intro k
    induction k with
    | zero => rfl
    | succ k ih => exact ih
  exact hblanks (2 * n)

/-- Between the tokens, what is no blank stays; a mark begins a string. -/
theorem squeeze_cons {c : Char} (hc : c ∉ [' ', '\n', '"']) (r : List Char) :
    squeeze .outside (c :: r) = c :: squeeze .outside r := by
  simp only [List.mem_cons, List.not_mem_nil, or_false, not_or] at hc
  rw [squeeze, if_neg (by simp [hc]), Place.next, if_neg hc.2.2]

theorem squeeze_word {cs : List Char} (hcs : ∀ c ∈ cs, c ∉ [' ', '\n', '"']) (r : List Char) :
    squeeze .outside (cs ++ r) = cs ++ squeeze .outside r := by
  induction cs with
  | nil => rfl
  | cons c cs ih =>
      rw [List.forall_mem_cons] at hcs
      rw [List.cons_append, squeeze_cons hcs.1, ih hcs.2]
      rfl

theorem squeeze_number (k : JsNumber) (r : List Char) :
    squeeze .outside (k.text ++ r) = k.text ++ squeeze .outside r := by
  refine squeeze_word (fun c hc hmem => ?_) r
  have hnumber := k.written.2 c hc
  simp only [List.mem_cons, List.not_mem_nil, or_false] at hmem
  rcases hmem with rfl | rfl | rfl
  all_goals exact absurd hnumber (by decide)

theorem squeeze_string (cs r : List Char) :
    squeeze .outside ('"' :: (quoted cs ++ r)) = '"' :: (quoted cs ++ squeeze .outside r) := by
  rw [← squeeze_quoted]
  rfl

theorem squeeze_colon (r : List Char) :
    squeeze .outside (':' :: ' ' :: r) = ':' :: squeeze .outside r := rfl

mutual
/-- Between the lines there is nothing but blanks. -/
theorem squeeze_lines : ∀ (j : Json) (n : ℕ) (r : List Char),
    squeeze .outside (renderLines n j ++ r) = render j ++ squeeze .outside r
  | .null, n, r => rfl
  | .bool true, n, r => rfl
  | .bool false, n, r => rfl
  | .num k, n, r => squeeze_number k r
  | .str s, n, r => squeeze_string s.toList r
  | .arr [], n, r => rfl
  | .obj [], n, r => rfl
  | .arr (j :: items), n, r => by
      rw [renderLines, render, List.cons_append, List.append_assoc, List.append_assoc,
        squeeze_cons (by decide), squeeze_newline, squeeze_lines j, squeeze_items items]
      simp only [List.cons_append, List.append_assoc]
  | .obj ((key, j) :: fields), n, r => by
      rw [renderLines, render]
      simp only [List.cons_append, List.append_assoc]
      rw [squeeze_cons (by decide), squeeze_newline, squeeze_string, squeeze_colon,
        squeeze_lines j, squeeze_fields fields]

theorem squeeze_items : ∀ (items : List Json) (n : ℕ) (r : List Char),
    squeeze .outside (itemLines n items ++ r) = renderItems items ++ squeeze .outside r
  | [], n, r => by
      rw [itemLines, renderItems, List.append_assoc, squeeze_newline]
      rfl
  | j :: items, n, r => by
      rw [itemLines, renderItems]
      simp only [List.cons_append, List.append_assoc]
      rw [squeeze_cons (by decide), squeeze_newline, squeeze_lines j, squeeze_items items]

theorem squeeze_fields : ∀ (fields : List (String × Json)) (n : ℕ) (r : List Char),
    squeeze .outside (fieldLines n fields ++ r) = renderFields fields ++ squeeze .outside r
  | [], n, r => by
      rw [fieldLines, renderFields, List.append_assoc, squeeze_newline]
      rfl
  | (key, j) :: fields, n, r => by
      rw [fieldLines, renderFields]
      simp only [List.cons_append, List.append_assoc]
      rw [squeeze_cons (by decide), squeeze_newline, squeeze_string, squeeze_colon,
        squeeze_lines j, squeeze_fields fields]
end

theorem pretty_injective : Function.Injective pretty := by
  intro j j' h
  have hlines : renderLines 0 j = renderLines 0 j' := by
    simpa [pretty] using congrArg String.toList h
  have hsqueezed : ∀ i : Json, squeeze .outside (renderLines 0 i) = render i := by
    intro i
    have hi := squeeze_lines i 0 []
    rwa [List.append_nil, squeeze, List.append_nil] at hi
  apply stringify_injective
  rw [stringify, ← hsqueezed j, hlines, hsqueezed j', stringify]

/-- The first character is the same on lines. -/
theorem head_renderLines (j : Json) (n : ℕ) : (renderLines n j).head? = (render j).head? := by
  cases j with
  | arr items => cases items <;> rfl
  | obj fields => cases fields <;> rfl
  | _ => rfl

end Json

end RedFireForge.Lib
