/-
# `RedFireForge.Lib.Json` — JSON values and their text

The text of `JSON.stringify` without white space.  A number is kept as its text: two
numbers are the same exactly if they are written the same.  The text of a value ends
where the value ends, if what follows is a comma, a closing bracket or nothing, so
values with the same text are the same.
-/
import Mathlib.Data.Nat.Notation
import Mathlib.Tactic.Common
import Mathlib.Tactic.IntervalCases

namespace RedFireForge.Lib

/-- The characters a number is written with. -/
def isNumberChar (c : Char) : Bool := c.isDigit || c == '-' || c == '+' || c == '.' || c == 'e'

structure JsNumber where
  text : List Char
  written : text ≠ [] ∧ ∀ c ∈ text, isNumberChar c = true
deriving DecidableEq, Repr

inductive Json
  | null
  | bool (b : Bool)
  | num (n : JsNumber)
  | str (s : String)
  | arr (items : List Json)
  | obj (fields : List (String × Json))
deriving Repr

namespace Json

/-! ## The text -/

def hexDigit (n : ℕ) : Char := if n < 10 then Char.ofNat (48 + n) else Char.ofNat (87 + n)

def escape (c : Char) : List Char :=
  if c = '"' then ['\\', '"']
  else if c = '\\' then ['\\', '\\']
  else if c.toNat = 8 then ['\\', 'b']
  else if c.toNat = 9 then ['\\', 't']
  else if c.toNat = 10 then ['\\', 'n']
  else if c.toNat = 12 then ['\\', 'f']
  else if c.toNat = 13 then ['\\', 'r']
  else if c.toNat < 32 then
    ['\\', 'u', '0', '0', hexDigit (c.toNat / 16), hexDigit (c.toNat % 16)]
  else [c]

/-- The text of a string after its first quotation mark. -/
def quoted (cs : List Char) : List Char := cs.flatMap escape ++ ['"']

mutual
def render : Json → List Char
  | .null => ['n', 'u', 'l', 'l']
  | .bool true => ['t', 'r', 'u', 'e']
  | .bool false => ['f', 'a', 'l', 's', 'e']
  | .num n => n.text
  | .str s => '"' :: quoted s.toList
  | .arr [] => ['[', ']']
  | .arr (j :: items) => '[' :: (render j ++ renderItems items)
  | .obj [] => ['{', '}']
  | .obj ((key, j) :: fields) =>
      '{' :: '"' :: (quoted key.toList ++ ':' :: (render j ++ renderFields fields))

/-- The items after the first, and the closing bracket. -/
def renderItems : List Json → List Char
  | [] => [']']
  | j :: items => ',' :: (render j ++ renderItems items)

def renderFields : List (String × Json) → List Char
  | [] => ['}']
  | (key, j) :: fields =>
      ',' :: '"' :: (quoted key.toList ++ ':' :: (render j ++ renderFields fields))
end

def stringify (j : Json) : String := String.ofList (render j)

/-! ## Strings end at their closing mark -/

def hexValue (c : Char) : ℕ := if c.isDigit then c.toNat - 48 else c.toNat - 87

/-- Undoes `escape`. -/
def unescape : List Char → Option (Char × List Char)
  | [] => none
  | c :: r =>
      if c = '\\' then
        match r with
        | 'b' :: r => some (Char.ofNat 8, r)
        | 't' :: r => some (Char.ofNat 9, r)
        | 'n' :: r => some (Char.ofNat 10, r)
        | 'f' :: r => some (Char.ofNat 12, r)
        | 'r' :: r => some (Char.ofNat 13, r)
        | 'u' :: _ :: _ :: h :: l :: r => some (Char.ofNat (16 * hexValue h + hexValue l), r)
        | c :: r => some (c, r)
        | [] => none
      else some (c, r)

theorem forall_char_lt {b : ℕ} {P : Char → Prop} (h : ∀ n < b, P (Char.ofNat n)) {c : Char}
    (hc : c.toNat < b) : P c := by
  have hp := h c.toNat hc
  rwa [Char.ofNat_toNat] at hp

theorem unescape_escape (c : Char) (r : List Char) : unescape (escape c ++ r) = some (c, r) := by
  by_cases hc : c.toNat < 32
  · refine forall_char_lt (P := fun c => unescape (escape c ++ r) = some (c, r)) (fun n hn => ?_) hc
    interval_cases n <;> rfl
  · unfold escape
    split
    next hq =>
      subst hq
      rfl
    next =>
      split
      next hb =>
        subst hb
        rfl
      next hb =>
        have h8 : c.toNat ≠ 8 := by omega
        have h9 : c.toNat ≠ 9 := by omega
        have h10 : c.toNat ≠ 10 := by omega
        have h12 : c.toNat ≠ 12 := by omega
        have h13 : c.toNat ≠ 13 := by omega
        simp [h8, h9, h10, h12, h13, unescape, hb]

theorem escape_inj {c c' : Char} {r r' : List Char} (h : escape c ++ r = escape c' ++ r') :
    c = c' ∧ r = r' := by
  have hdecode := unescape_escape c r
  rw [h, unescape_escape] at hdecode
  simpa [eq_comm] using hdecode

/-- No character is written so that the string seems to end. -/
theorem escape_ne_mark (c : Char) (r r' : List Char) : escape c ++ r ≠ '"' :: r' := by
  unfold escape
  split
  next => simp
  next hq =>
    split
    next => simp
    next =>
      repeat' split
      all_goals simp [hq]

theorem quoted_inj {cs cs' r r' : List Char} (h : quoted cs ++ r = quoted cs' ++ r') :
    cs = cs' ∧ r = r' := by
  induction cs generalizing cs' with
  | nil =>
      cases cs' with
      | nil => simpa [quoted] using h
      | cons c' cs' =>
          simp only [quoted, List.flatMap_nil, List.nil_append, List.flatMap_cons,
            List.append_assoc, List.singleton_append] at h
          exact absurd h.symm (escape_ne_mark c' _ r)
  | cons c cs ih =>
      cases cs' with
      | nil =>
          simp only [quoted, List.flatMap_nil, List.nil_append, List.flatMap_cons,
            List.append_assoc, List.singleton_append] at h
          exact absurd h (escape_ne_mark c _ r')
      | cons c' cs' =>
          have hsplit : ∀ (d : Char) (ds rest : List Char),
              quoted (d :: ds) ++ rest = escape d ++ (quoted ds ++ rest) := by
            intro d ds rest
            simp [quoted]
          rw [hsplit, hsplit] at h
          obtain ⟨rfl, hrest⟩ := escape_inj h
          obtain ⟨rfl, hr⟩ := ih hrest
          exact ⟨rfl, hr⟩

/-! ## The text tells the value -/

/-- What may follow a value. -/
def Ends (r : List Char) : Prop := ∀ c ∈ r.head?, c = ',' ∨ c = ']' ∨ c = '}'

def kind : Json → ℕ
  | .null => 0
  | .bool true => 1
  | .bool false => 2
  | .num _ => 3
  | .str _ => 4
  | .arr _ => 5
  | .obj _ => 6

/-- The kind of value a character starts. -/
def charKind (c : Char) : ℕ :=
  if c = 'n' then 0 else if c = 't' then 1 else if c = 'f' then 2
  else if isNumberChar c then 3 else if c = '"' then 4 else if c = '[' then 5
  else if c = '{' then 6 else 7

theorem charKind_number {c : Char} (h : isNumberChar c = true) : charKind c = 3 := by
  have hn : c ≠ 'n' := by
    rintro rfl
    exact absurd h (by decide)
  have ht : c ≠ 't' := by
    rintro rfl
    exact absurd h (by decide)
  have hf : c ≠ 'f' := by
    rintro rfl
    exact absurd h (by decide)
  simp [charKind, hn, ht, hf, h]

/-- The first character tells the kind. -/
theorem render_start (j : Json) : ∃ c cs, render j = c :: cs ∧ charKind c = kind j := by
  cases j with
  | null => exact ⟨_, _, rfl, by decide⟩
  | bool b => cases b <;> exact ⟨_, _, rfl, by decide⟩
  | num n =>
      obtain ⟨text, hne, hall⟩ := n
      cases text with
      | nil => exact absurd rfl hne
      | cons c cs => exact ⟨c, cs, rfl, charKind_number (hall c (by simp))⟩
  | str s =>
      have hkind : charKind '"' = 4 := by decide
      exact ⟨_, _, rfl, hkind⟩
  | arr items =>
      have hkind : charKind '[' = 5 := by decide
      cases items <;> exact ⟨_, _, rfl, hkind⟩
  | obj fields =>
      have hkind : charKind '{' = 6 := by decide
      cases fields <;> exact ⟨_, _, rfl, hkind⟩

theorem kind_eq {j j' : Json} {r r' : List Char} (h : render j ++ r = render j' ++ r') :
    kind j = kind j' := by
  obtain ⟨c, cs, hj, hc⟩ := render_start j
  obtain ⟨c', cs', hj', hc'⟩ := render_start j'
  rw [hj, hj', List.cons_append, List.cons_append] at h
  rw [← hc, ← hc', (List.cons.inj h).1]

/-- A value does not start with a closing bracket. -/
theorem render_ne_close {j : Json} {c : Char} {r r' : List Char} (hc : charKind c = 7) :
    render j ++ r ≠ c :: r' := by
  intro h
  obtain ⟨d, ds, hj, hd⟩ := render_start j
  rw [hj, List.cons_append] at h
  have hkind : kind j = 7 := by rw [← hd, (List.cons.inj h).1, hc]
  revert hkind
  cases j with
  | bool b => cases b <;> simp [kind]
  | _ => simp [kind]

/-- A number ends where no character of a number follows. -/
theorem number_inj {cs cs' r r' : List Char} (hcs : ∀ c ∈ cs, isNumberChar c = true)
    (hcs' : ∀ c ∈ cs', isNumberChar c = true) (hr : Ends r) (hr' : Ends r')
    (h : cs ++ r = cs' ++ r') : cs = cs' ∧ r = r' := by
  have hstop : ∀ {c : Char} {s t : List Char}, Ends s → s = c :: t → isNumberChar c = false := by
    intro c s t hs hst
    subst hst
    rcases hs c rfl with rfl | rfl | rfl <;> decide
  induction cs generalizing cs' with
  | nil =>
      cases cs' with
      | nil => exact ⟨rfl, h⟩
      | cons c' cs' =>
          have := hstop hr h
          rw [hcs' c' (by simp)] at this
          cases this
  | cons c cs ih =>
      cases cs' with
      | nil =>
          have := hstop hr' h.symm
          rw [hcs c (by simp)] at this
          cases this
      | cons c' cs' =>
          rw [List.cons_append, List.cons_append] at h
          obtain ⟨rfl, hrest⟩ := List.cons.inj h
          obtain ⟨rfl, hr⟩ := ih (fun d hd => hcs d (by simp [hd])) (fun d hd => hcs' d (by simp [hd]))
            hrest
          exact ⟨rfl, hr⟩

theorem ends_items (items : List Json) (r : List Char) : Ends (renderItems items ++ r) := by
  cases items with
  | nil => simp [renderItems, Ends]
  | cons j items => simp [renderItems, Ends]

theorem ends_fields (fields : List (String × Json)) (r : List Char) :
    Ends (renderFields fields ++ r) := by
  cases fields with
  | nil => simp [renderFields, Ends]
  | cons field fields => simp [renderFields, Ends]

mutual
/-- **Values with the same text are the same.** -/
theorem render_inj : ∀ (j j' : Json) {r r' : List Char}, Ends r → Ends r' →
    render j ++ r = render j' ++ r' → j = j' ∧ r = r'
  | .null, j', r, r', _, _, h => by
      have hkind := kind_eq h
      cases j' with
      | null => simpa [render] using h
      | bool b => cases b <;> simp [kind] at hkind
      | _ => simp [kind] at hkind
  | .bool b, j', r, r', _, _, h => by
      have hkind := kind_eq h
      cases j' with
      | bool b' => cases b <;> cases b' <;> simp_all [kind, render]
      | _ => cases b <;> simp [kind] at hkind
  | .num n, j', r, r', hr, hr', h => by
      have hkind := kind_eq h
      cases j' with
      | num n' =>
          obtain ⟨text, hn⟩ := n
          obtain ⟨text', hn'⟩ := n'
          obtain ⟨rfl, hrest⟩ := number_inj hn.2 hn'.2 hr hr' h
          exact ⟨rfl, hrest⟩
      | bool b => cases b <;> simp [kind] at hkind
      | _ => simp [kind] at hkind
  | .str s, j', r, r', _, _, h => by
      have hkind := kind_eq h
      cases j' with
      | str s' =>
          simp only [render, List.cons_append, List.cons.injEq, true_and] at h
          obtain ⟨hs, hrest⟩ := quoted_inj h
          exact ⟨by rw [String.toList_injective hs], hrest⟩
      | bool b => cases b <;> simp [kind] at hkind
      | _ => simp [kind] at hkind
  | .arr [], j', r, r', _, _, h => by
      have hkind := kind_eq h
      cases j' with
      | arr items' =>
          cases items' with
          | nil => simpa [render] using h
          | cons j' items' =>
              simp only [render, List.cons_append, List.cons.injEq, true_and, List.nil_append,
                List.append_assoc] at h
              exact absurd h.symm (render_ne_close (by decide))
      | bool b => cases b <;> simp [kind] at hkind
      | _ => simp [kind] at hkind
  | .arr (j :: items), j', r, r', _, _, h => by
      have hkind := kind_eq h
      cases j' with
      | arr items' =>
          cases items' with
          | nil =>
              simp only [render, List.cons_append, List.cons.injEq, true_and, List.nil_append,
                List.append_assoc] at h
              exact absurd h (render_ne_close (by decide))
          | cons j' items' =>
              simp only [render, List.cons_append, List.cons.injEq, true_and, List.append_assoc] at h
              obtain ⟨rfl, hrest⟩ := render_inj j j' (ends_items items r) (ends_items items' r') h
              obtain ⟨rfl, hr⟩ := renderItems_inj items items' hrest
              exact ⟨rfl, hr⟩
      | bool b => cases b <;> simp [kind] at hkind
      | _ => simp [kind] at hkind
  | .obj [], j', r, r', _, _, h => by
      have hkind := kind_eq h
      cases j' with
      | obj fields' =>
          cases fields' with
          | nil => simpa [render] using h
          | cons field' fields' => simp [render] at h
      | bool b => cases b <;> simp [kind] at hkind
      | _ => simp [kind] at hkind
  | .obj ((key, j) :: fields), j', r, r', _, _, h => by
      have hkind := kind_eq h
      cases j' with
      | obj fields' =>
          cases fields' with
          | nil => simp [render] at h
          | cons field' fields' =>
              obtain ⟨key', j'⟩ := field'
              simp only [render, List.cons_append, List.cons.injEq, true_and, List.append_assoc] at h
              obtain ⟨hkey, hrest⟩ := quoted_inj h
              rw [List.cons.injEq, and_iff_right rfl] at hrest
              obtain ⟨rfl, htail⟩ := render_inj j j' (ends_fields fields r) (ends_fields fields' r')
                hrest
              obtain ⟨rfl, hr⟩ := renderFields_inj fields fields' htail
              exact ⟨by rw [String.toList_injective hkey], hr⟩
      | bool b => cases b <;> simp [kind] at hkind
      | _ => simp [kind] at hkind

theorem renderItems_inj : ∀ (items items' : List Json) {r r' : List Char},
    renderItems items ++ r = renderItems items' ++ r' → items = items' ∧ r = r'
  | [], [], r, r', h => by simpa [renderItems] using h
  | [], j' :: items', r, r', h => by simp [renderItems] at h
  | j :: items, [], r, r', h => by simp [renderItems] at h
  | j :: items, j' :: items', r, r', h => by
      simp only [renderItems, List.cons_append, List.cons.injEq, true_and, List.append_assoc] at h
      obtain ⟨rfl, hrest⟩ := render_inj j j' (ends_items items r) (ends_items items' r') h
      obtain ⟨rfl, hr⟩ := renderItems_inj items items' hrest
      exact ⟨rfl, hr⟩

theorem renderFields_inj : ∀ (fields fields' : List (String × Json)) {r r' : List Char},
    renderFields fields ++ r = renderFields fields' ++ r' → fields = fields' ∧ r = r'
  | [], [], r, r', h => by simpa [renderFields] using h
  | [], field' :: fields', r, r', h => by simp [renderFields] at h
  | field :: fields, [], r, r', h => by simp [renderFields] at h
  | (key, j) :: fields, (key', j') :: fields', r, r', h => by
      simp only [renderFields, List.cons_append, List.cons.injEq, true_and, List.append_assoc] at h
      obtain ⟨hkey, hrest⟩ := quoted_inj h
      rw [List.cons.injEq, and_iff_right rfl] at hrest
      obtain ⟨rfl, htail⟩ := render_inj j j' (ends_fields fields r) (ends_fields fields' r') hrest
      obtain ⟨rfl, hr⟩ := renderFields_inj fields fields' htail
      exact ⟨by rw [String.toList_injective hkey], hr⟩
end

/-- An object ends at its closing bracket, whatever follows. -/
theorem render_obj_inj {fields : List (String × Json)} {j : Json} {r r' : List Char}
    (h : render (.obj fields) ++ r = render j ++ r') : .obj fields = j ∧ r = r' := by
  have hkind := kind_eq h
  cases j with
  | obj fields' =>
      cases fields with
      | nil =>
          cases fields' with
          | nil => simpa [render] using h
          | cons field' fields' => simp [render] at h
      | cons field fields =>
          cases fields' with
          | nil => simp [render] at h
          | cons field' fields' =>
              obtain ⟨key, j⟩ := field
              obtain ⟨key', j'⟩ := field'
              simp only [render, List.cons_append, List.cons.injEq, true_and, List.append_assoc] at h
              obtain ⟨hkey, hrest⟩ := quoted_inj h
              rw [List.cons.injEq, and_iff_right rfl] at hrest
              obtain ⟨rfl, htail⟩ := render_inj j j' (ends_fields fields r) (ends_fields fields' r')
                hrest
              obtain ⟨rfl, hr⟩ := renderFields_inj fields fields' htail
              exact ⟨by rw [String.toList_injective hkey], hr⟩
  | bool b => cases b <;> simp [kind] at hkind
  | _ => simp [kind] at hkind

theorem stringify_injective : Function.Injective stringify := by
  intro j j' h
  have hend : Ends [] := by simp [Ends]
  refine (render_inj j j' hend hend ?_).1
  rw [List.append_nil, List.append_nil]
  simpa [stringify] using congrArg String.toList h

/-- Values are compared by their text. -/
instance : DecidableEq Json := fun j j' =>
  decidable_of_iff (stringify j = stringify j') stringify_injective.eq_iff

/-- `JSON.parse`, with `none` for its exception: what is used of it is that no value
has an empty text. -/
structure Parser where
  parse : String → Option Json
  empty : parse "" = none

end Json

end RedFireForge.Lib
