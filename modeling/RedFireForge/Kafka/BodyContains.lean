/-
# `RedFireForge.Kafka.BodyContains` — the query in a Body Contains field

The web client and the desktop one each split a query into tokens and parse it by recursive
descent; where that fails, the whole query is one substring.  The two differ in what they take
for a blank: four characters on one side, all white space on the other.  What a query means is
said here by a grammar over its text, and each of the two is proved against it.
-/
import Mathlib.Data.List.Infix
import RedFireForge.ApiMock.JsonPath

namespace RedFireForge.Kafka

/-! ## Queries -/

/-- The case conversions, which are taken to be those of both runtimes.  Only ASCII letters
become those of an operator. -/
structure Casing where
  lower : List Char → List Char
  upper : List Char → List Char
  lower_nil : lower [] = []
  upper_and : ∀ w, upper w = ['A', 'N', 'D'] ↔ w.map Char.toUpper = ['A', 'N', 'D']
  upper_or : ∀ w, upper w = ['O', 'R'] ↔ w.map Char.toUpper = ['O', 'R']

inductive Op
  | and | or
deriving DecidableEq, Repr

inductive Token
  | term (value : List Char)
  | op (o : Op)
  | lp | rp
deriving DecidableEq, Repr

inductive QueryNode
  | term (value : List Char)
  | node (o : Op) (items : List QueryNode)

/-- What the two sides do differently with the text of a query. -/
structure Dialect where
  blank : Char → Bool
  operator : List Char → Option Op
  /-- a term as the node keeps it -/
  stored : List Char → List Char

/-! ## Tokens -/

/-- What is read after a quote, and what is left. -/
def quoted : List Char → Option (List Char × List Char)
  | [] => none
  | '\\' :: c :: rest => (quoted rest).map fun (value, rest) => (c :: value, rest)
  | '"' :: rest => some ([], rest)
  | c :: rest => (quoted rest).map fun (value, rest) => (c :: value, rest)

namespace Dialect

variable (d : Dialect)

def inWord (c : Char) : Bool := !d.blank c && c != '(' && c != ')' && c != '"'

def wordToken (word : List Char) : Token := (d.operator word).elim (.term word) .op

def tokenizeFrom : ℕ → List Char → Option (List Token)
  | _, [] => some []
  | 0, _ :: _ => none
  | fuel + 1, ch :: rest =>
      if d.blank ch then tokenizeFrom fuel rest
      else if ch = '(' then (tokenizeFrom fuel rest).map (.lp :: ·)
      else if ch = ')' then (tokenizeFrom fuel rest).map (.rp :: ·)
      else if ch = '"' then
        match quoted rest with
        | none => none
        | some (value, rest) => (tokenizeFrom fuel rest).map (.term value :: ·)
      else
        (tokenizeFrom fuel ((ch :: rest).dropWhile d.inWord)).map
          (d.wordToken ((ch :: rest).takeWhile d.inWord) :: ·)

def tokenize (input : List Char) : Option (List Token) := d.tokenizeFrom input.length input

/-! ## Parsing -/

mutual

def parseFactor : ℕ → List Token → Option (QueryNode × List Token)
  | _, .term value :: rest => some (.term (d.stored value), rest)
  | fuel + 1, .lp :: rest =>
      match parseChain fuel .or rest with
      | some (node, .rp :: rest) => some (node, rest)
      | _ => none
  | _, _ => none

/-- `parseAnd` and `parseOr`: operands with the operator between them. -/
def parseChain : ℕ → Op → List Token → Option (QueryNode × List Token)
  | 0, _, _ => none
  | fuel + 1, o, tokens => do
      let (first, rest) ← match o with
        | .and => parseFactor fuel tokens
        | .or => parseChain fuel .and tokens
      let (items, rest) ← parseItems fuel o rest
      some (if items.isEmpty then first else .node o (first :: items), rest)

/-- Their loop. -/
def parseItems : ℕ → Op → List Token → Option (List QueryNode × List Token)
  | 0, _, _ => none
  | fuel + 1, o, tokens =>
      match tokens with
      | .op o' :: rest =>
          if o' = o then do
            let (next, rest) ← match o with
              | .and => parseFactor fuel rest
              | .or => parseChain fuel .and rest
            let (items, rest) ← parseItems fuel o rest
            some (next :: items, rest)
          else some ([], tokens)
      | _ => some ([], tokens)

end

def parseAnd (fuel : ℕ) (tokens : List Token) : Option (QueryNode × List Token) := d.parseChain fuel .and tokens

def parseOr (fuel : ℕ) (tokens : List Token) : Option (QueryNode × List Token) := d.parseChain fuel .or tokens

end Dialect

def Token.isOp : Token → Bool
  | .op _ => true
  | _ => false

def Dialect.parseQuery (d : Dialect) (input : List Char) : Option QueryNode :=
  match d.tokenize input with
  | none => none
  | some tokens =>
      if tokens.any Token.isOp then
        match d.parseOr (3 * tokens.length + 2) tokens with
        | some (node, []) => some node
        | _ => none
      else
        match tokens with
        -- one quoted phrase: the quotes are not part of the text
        | [.term value] => if value ≠ input then some (.term (d.stored value)) else none
        | _ => none

/-! ## Matching -/

mutual

def evalQuery (termMatches : List Char → Bool) : QueryNode → Bool
  | .term value => termMatches value
  | .node .and items => (evalItems termMatches items).all id
  | .node .or items => (evalItems termMatches items).any id

def evalItems (termMatches : List Char → Bool) : List QueryNode → List Bool
  | [] => []
  | item :: items => evalQuery termMatches item :: evalItems termMatches items

end

def normalizeQuotes (value : List Char) : List Char :=
  value.map fun ch => if ch.toNat ∈ [0x201C, 0x201D, 0x201E] then '"' else ch

/-- The character that a backslash and this one stand for. -/
def escaped : Char → Option Char
  | '"' => some '"'
  | '\\' => some '\\'
  | '/' => some '/'
  | 'n' => some '\n'
  | 't' => some '\t'
  | 'r' => some '\r'
  | _ => none

/-- `input.replace(/\\(["\\/nrt])/g, …)` -/
def jsonUnescape : List Char → List Char
  | '\\' :: ch :: rest =>
      match escaped ch with
      | some c => c :: jsonUnescape rest
      | none => '\\' :: jsonUnescape (ch :: rest)
  | c :: rest => c :: jsonUnescape rest
  | [] => []

/-- `text.includes(needle)` -/
def includes (text needle : List Char) : Bool := decide (needle <:+: text)

variable (casing : Casing)

/-- The four blanks of `tokenize`. -/
def isBlank (c : Char) : Bool := c == ' ' || c == '\t' || c == '\n' || c == '\r'

def web : Dialect where
  blank := isBlank
  operator := fun word =>
    if casing.upper word = ['A', 'N', 'D'] then some .and
    else if casing.upper word = ['O', 'R'] then some .or
    else none
  stored := id

def termMatches (raw text needle : List Char) : Bool :=
  let normalized := casing.lower needle
  if normalized = [] then true
  else
    let needleText := jsonUnescape normalized
    includes raw normalized || includes raw needleText || includes text normalized || includes text needleText

def kafkaBodyHasText (value needle : List Char) : Bool :=
  let normalized := ApiMock.trim (normalizeQuotes needle)
  if normalized = [] then true
  else
    let raw := casing.lower value
    let text := jsonUnescape raw
    match (web casing).parseQuery normalized with
    | none => termMatches casing raw text normalized
    | some query => evalQuery (termMatches casing raw text) query

namespace Native

/-- `char::is_whitespace` -/
def isWhitespace (c : Char) : Bool :=
  c.toNat ∈ [9, 10, 11, 12, 13, 32, 0x85, 0xA0, 0x1680, 0x2028, 0x2029, 0x202F, 0x205F, 0x3000] ||
    decide (0x2000 ≤ c.toNat ∧ c.toNat ≤ 0x200A)

def trim (cs : List Char) : List Char := (cs.dropWhile isWhitespace).rdropWhile isWhitespace

def desktop : Dialect where
  blank := isWhitespace
  operator := fun word =>
    if word.map Char.toUpper = ['A', 'N', 'D'] then some .and
    else if word.map Char.toUpper = ['O', 'R'] then some .or
    else none
  stored := casing.lower

def jsonUnescape : List Char → List Char
  | '\\' :: ch :: rest =>
      match escaped ch with
      | some c => c :: jsonUnescape rest
      | none => '\\' :: ch :: jsonUnescape rest
  | c :: rest => c :: jsonUnescape rest
  | [] => []

def termMatches (raw text needle : List Char) : Bool :=
  if needle = [] then true
  else
    let needleText := jsonUnescape needle
    includes raw needle || includes raw needleText || includes text needle || includes text needleText

def bodyHasText (value needle : List Char) : Bool :=
  let needle := trim (normalizeQuotes needle)
  if needle = [] then true
  else
    let raw := casing.lower value
    let text := jsonUnescape raw
    match (desktop casing).parseQuery needle with
    | some query => evalQuery (termMatches raw text) query
    | none => termMatches raw text (casing.lower needle)

end Native

/-! ## What a query means -/

/-- What is between quotes, and its value. -/
inductive Quotes : List Char → List Char → Prop
  | nil : Quotes [] []
  | escape {c : Char} {body value : List Char} : Quotes body value → Quotes ('\\' :: c :: body) (c :: value)
  | plain {c : Char} {body value : List Char} : c ≠ '"' → c ≠ '\\' → Quotes body value →
      Quotes (c :: body) (c :: value)

/-- A word is an operator in any case. -/
def operatorOf (word : List Char) : Option Op :=
  if word.map Char.toUpper = ['A', 'N', 'D'] then some .and
  else if word.map Char.toUpper = ['O', 'R'] then some .or
  else none

/-- A character that ends a word. -/
def Ends (blank : Char → Bool) (c : Char) : Prop := blank c = true ∨ c = '(' ∨ c = ')' ∨ c = '"'

/-- A text and its tokens. -/
inductive Lexes (blank : Char → Bool) : List Char → List Token → Prop
  | nil : Lexes blank [] []
  | blank {c : Char} {rest : List Char} {ts : List Token} : blank c = true → Lexes blank rest ts →
      Lexes blank (c :: rest) ts
  | left {rest : List Char} {ts : List Token} : Lexes blank rest ts → Lexes blank ('(' :: rest) (.lp :: ts)
  | right {rest : List Char} {ts : List Token} : Lexes blank rest ts → Lexes blank (')' :: rest) (.rp :: ts)
  | phrase {body value rest : List Char} {ts : List Token} : Quotes body value → Lexes blank rest ts →
      Lexes blank ('"' :: (body ++ '"' :: rest)) (.term value :: ts)
  | word {word rest : List Char} {ts : List Token} : word ≠ [] → (∀ c ∈ word, ¬Ends blank c) →
      (∀ c ∈ rest.head?, Ends blank c) → Lexes blank rest ts →
      Lexes blank (word ++ rest) ((operatorOf word).elim (.term word) .op :: ts)

inductive Level
  | factor
  | chain (o : Op)
deriving DecidableEq, Repr

/-- AND binds tighter than OR. -/
def Op.operand : Op → Level
  | .and => .factor
  | .or => .chain .and

def Op.joins : Op → Prop → Prop → Prop
  | .and => And
  | .or => Or

/-- The grammar, with what an expression says when `test` is what a term says. -/
inductive Means (test : List Char → Prop) : Level → List Token → Prop → Prop
  | term (value : List Char) : Means test .factor [.term value] (test value)
  | group {ts : List Token} {P : Prop} : Means test (.chain .or) ts P →
      Means test .factor (.lp :: (ts ++ [.rp])) P
  | one {o : Op} {ts : List Token} {P : Prop} : Means test o.operand ts P → Means test (.chain o) ts P
  | more {o : Op} {ts ts' : List Token} {P P' : Prop} : Means test o.operand ts P →
      Means test (.chain o) ts' P' → Means test (.chain o) (ts ++ .op o :: ts') (o.joins P P')

/-- The substring test: in any case, and with the escapes of JSON or without. -/
def Occurs (casing : Casing) (value needle : List Char) : Prop :=
  ∃ n ∈ [casing.lower needle, jsonUnescape (casing.lower needle)],
    ∃ v ∈ [casing.lower value, jsonUnescape (casing.lower value)], n <:+: v

/-- The text is an expression with an operator. -/
def Expression (casing : Casing) (blank : Char → Bool) (value query : List Char) (P : Prop) : Prop :=
  ∃ ts, Lexes blank query ts ∧ (∃ o, .op o ∈ ts) ∧ Means (Occurs casing value) (.chain .or) ts P

/-- What a query says of a body. -/
inductive Says (casing : Casing) (blank : Char → Bool) (value query : List Char) : Prop
  | expression (P : Prop) : Expression casing blank value query P → P → Says casing blank value query
  /-- the quotes of a phrase are not part of its text -/
  | phrase (phrase : List Char) : Lexes blank query [.term phrase] → Occurs casing value phrase →
      Says casing blank value query
  | text : (¬∃ P, Expression casing blank value query P) → (¬∃ phrase, Lexes blank query [.term phrase]) →
      Occurs casing value query → Says casing blank value query

/-! ## The tokens are those of the text -/

theorem quotes_of_quoted {cs value rest : List Char} (h : quoted cs = some (value, rest)) :
    ∃ body, cs = body ++ '"' :: rest ∧ Quotes body value := by
  induction cs using quoted.induct generalizing value with
  | case1 => cases h
  | case2 c cs ih =>
      obtain ⟨⟨v, r⟩, hq, heq⟩ := Option.map_eq_some_iff.mp h
      cases heq
      obtain ⟨body, rfl, hquotes⟩ := ih hq
      exact ⟨'\\' :: c :: body, rfl, .escape hquotes⟩
  | case3 cs =>
      cases h
      exact ⟨[], rfl, .nil⟩
  | case4 c cs hescape hclose ih =>
      rw [quoted.eq_4 c cs hescape hclose] at h
      obtain ⟨⟨v, r⟩, hq, heq⟩ := Option.map_eq_some_iff.mp h
      cases heq
      obtain ⟨body, rfl, hquotes⟩ := ih hq
      refine ⟨c :: body, rfl, .plain hclose (fun hc => ?_) hquotes⟩
      cases body with
      | nil => exact hescape _ _ hc rfl
      | cons b body => exact hescape _ _ hc rfl

theorem quoted_of_quotes {body value : List Char} (h : Quotes body value) (rest : List Char) :
    quoted (body ++ '"' :: rest) = some (value, rest) := by
  induction h with
  | nil => rfl
  | escape _ ih =>
      show (quoted (_ ++ '"' :: rest)).map _ = _
      rw [ih]
      rfl
  | @plain c body value hclose hescape _ ih =>
      have hcons : quoted (c :: (body ++ '"' :: rest)) = (quoted (body ++ '"' :: rest)).map
          fun (value, rest) => (c :: value, rest) :=
        quoted.eq_4 c _ (fun _ _ h => absurd h hescape) fun h => absurd h hclose
      rw [List.cons_append, hcons, ih]
      rfl

/-- The dialect reads operators as they are meant, and no blank has a meaning of its own. -/
structure Dialect.Lawful (d : Dialect) : Prop where
  operator : ∀ word, d.operator word = operatorOf word
  marks : ∀ c, c = '(' ∨ c = ')' ∨ c = '"' → d.blank c = false

variable {d : Dialect}

theorem inWord_iff {c : Char} : d.inWord c = true ↔ ¬Ends d.blank c := by
  simp [Dialect.inWord, Ends, and_assoc]

theorem wordToken_eq (h : d.Lawful) (word : List Char) :
    d.wordToken word = (operatorOf word).elim (.term word) .op := by
  rw [Dialect.wordToken, h.operator]

theorem lexes_of_tokenizeFrom (h : d.Lawful) {fuel : ℕ} {input : List Char} {ts : List Token}
    (htokens : d.tokenizeFrom fuel input = some ts) : Lexes d.blank input ts := by
  induction fuel generalizing input ts with
  | zero =>
      cases input with
      | nil =>
          cases htokens
          exact .nil
      | cons c rest => cases htokens
  | succ fuel ih =>
      cases input with
      | nil =>
          cases htokens
          exact .nil
      | cons c rest =>
          simp only [Dialect.tokenizeFrom] at htokens
          split at htokens
          next hblank => exact .blank hblank (ih htokens)
          next hblank =>
            split at htokens
            next hleft =>
              subst hleft
              obtain ⟨ts, hts, rfl⟩ := Option.map_eq_some_iff.mp htokens
              exact .left (ih hts)
            next hleft =>
              split at htokens
              next hright =>
                subst hright
                obtain ⟨ts, hts, rfl⟩ := Option.map_eq_some_iff.mp htokens
                exact .right (ih hts)
              next hright =>
                split at htokens
                next hquote =>
                  subst hquote
                  split at htokens
                  next => cases htokens
                  next value rest' hq =>
                    obtain ⟨body, rfl, hquotes⟩ := quotes_of_quoted hq
                    obtain ⟨ts, hts, rfl⟩ := Option.map_eq_some_iff.mp htokens
                    exact .phrase hquotes (ih hts)
                next hquote =>
                  have hin : d.inWord c = true := by
                    rw [inWord_iff]
                    rintro (h | h | h | h)
                    · exact hblank h
                    · exact hleft h
                    · exact hright h
                    · exact hquote h
                  obtain ⟨ts, hts, rfl⟩ := Option.map_eq_some_iff.mp htokens
                  have hword := @Lexes.word d.blank ((c :: rest).takeWhile d.inWord) _ _
                    (by rw [List.takeWhile_cons_of_pos hin]; exact List.cons_ne_nil _ _)
                    (fun x hx => inWord_iff.mp (List.mem_takeWhile_imp hx)) (fun x hx => ?_) (ih hts)
                  · rw [List.takeWhile_append_dropWhile] at hword
                    rw [wordToken_eq h]
                    exact hword
                  · have hhead := List.head?_dropWhile_not d.inWord (c :: rest)
                    rw [Option.mem_def.mp hx] at hhead
                    by_contra hends
                    exact absurd (inWord_iff.mpr hends) (by simpa using hhead)

theorem word_split {word rest : List Char} (hword : ∀ c ∈ word, ¬Ends d.blank c)
    (hhead : ∀ c ∈ rest.head?, Ends d.blank c) :
    (word ++ rest).takeWhile d.inWord = word ∧ (word ++ rest).dropWhile d.inWord = rest := by
  have hin : ∀ c ∈ word, d.inWord c = true := fun c hc => inWord_iff.mpr (hword c hc)
  rw [List.takeWhile_append_of_pos hin, List.dropWhile_append_of_pos hin]
  cases rest with
  | nil => exact ⟨List.append_nil word, rfl⟩
  | cons c rest =>
      have hnot : ¬d.inWord c = true := fun h => inWord_iff.mp h (hhead c rfl)
      rw [List.takeWhile_cons_of_neg hnot, List.dropWhile_cons_of_neg hnot, List.append_nil]
      exact ⟨rfl, rfl⟩

theorem fuel_of_cons {c : Char} {rest : List Char} {fuel : ℕ} (h : (c :: rest).length ≤ fuel) :
    ∃ n, fuel = n + 1 ∧ rest.length ≤ n := by
  cases fuel with
  | zero => exact absurd h (Nat.not_succ_le_zero _)
  | succ n => exact ⟨n, rfl, Nat.le_of_succ_le_succ h⟩

theorem tokenizeFrom_of_lexes (h : d.Lawful) {input : List Char} {ts : List Token}
    (hlexes : Lexes d.blank input ts) {fuel : ℕ} (hfuel : input.length ≤ fuel) :
    d.tokenizeFrom fuel input = some ts := by
  induction hlexes generalizing fuel with
  | nil => exact Dialect.tokenizeFrom.eq_1 d fuel
  | blank hblank _ ih =>
      obtain ⟨n, rfl, hn⟩ := fuel_of_cons hfuel
      rw [Dialect.tokenizeFrom, if_pos hblank, ih hn]
  | left _ ih =>
      obtain ⟨n, rfl, hn⟩ := fuel_of_cons hfuel
      have hblank := h.marks '(' (Or.inl rfl)
      simp [Dialect.tokenizeFrom, hblank, ih hn]
  | right _ ih =>
      obtain ⟨n, rfl, hn⟩ := fuel_of_cons hfuel
      have hblank := h.marks ')' (Or.inr (Or.inl rfl))
      simp [Dialect.tokenizeFrom, hblank, ih hn]
  | @phrase body value rest ts hquotes _ ih =>
      obtain ⟨n, rfl, hn⟩ := fuel_of_cons hfuel
      have hblank := h.marks '"' (Or.inr (Or.inr rfl))
      have hrest : rest.length ≤ n := by
        simp only [List.length_cons, List.length_append] at hn
        omega
      simp [Dialect.tokenizeFrom, hblank, quoted_of_quotes hquotes, ih hrest]
  | @word word rest ts hne hword hhead _ ih =>
      obtain ⟨htake, hdrop⟩ := word_split hword hhead
      obtain ⟨c, word, rfl⟩ := List.exists_cons_of_ne_nil hne
      rw [List.cons_append] at hfuel htake hdrop ⊢
      obtain ⟨n, rfl, hn⟩ := fuel_of_cons hfuel
      have hin := hword c List.mem_cons_self
      simp only [Ends, not_or] at hin
      obtain ⟨hblank, hleft, hright, hquote⟩ := hin
      have hrest : rest.length ≤ n := by
        rw [List.length_append] at hn
        omega
      rw [Dialect.tokenizeFrom, if_neg hblank, if_neg hleft, if_neg hright, if_neg hquote, htake, hdrop, ih hrest,
        wordToken_eq h]
      rfl

theorem tokenize_iff (h : d.Lawful) {input : List Char} {ts : List Token} :
    d.tokenize input = some ts ↔ Lexes d.blank input ts :=
  ⟨lexes_of_tokenizeFrom h, fun hlexes => tokenizeFrom_of_lexes h hlexes le_rfl⟩

/-! ## The parser follows the grammar -/

namespace Dialect

def parseOperand (d : Dialect) (fuel : ℕ) (o : Op) (tokens : List Token) : Option (QueryNode × List Token) :=
  match o with
  | .and => d.parseFactor fuel tokens
  | .or => d.parseChain fuel .and tokens

/-- The node of a chain. -/
def chainNode (o : Op) (first : QueryNode) (items : List QueryNode) : QueryNode :=
  if items.isEmpty then first else .node o (first :: items)

theorem parseChain_succ {fuel : ℕ} {o : Op} {tokens rest : List Token} {node : QueryNode} :
    d.parseChain (fuel + 1) o tokens = some (node, rest) ↔ ∃ first mid items,
      d.parseOperand fuel o tokens = some (first, mid) ∧ d.parseItems fuel o mid = some (items, rest) ∧
        node = chainNode o first items := by
  have heq : d.parseChain (fuel + 1) o tokens = (d.parseOperand fuel o tokens).bind fun (first, mid) =>
      (d.parseItems fuel o mid).bind fun (items, rest) => some (chainNode o first items, rest) := by
    cases o <;> rfl
  rw [heq]
  simp only [Option.bind_eq_some_iff, Prod.exists, Option.some.injEq, Prod.mk.injEq]
  constructor
  · rintro ⟨first, mid, hfirst, items, rest', hitems, rfl, rfl⟩
    exact ⟨first, mid, items, hfirst, hitems, rfl⟩
  · rintro ⟨first, mid, items, hfirst, hitems, rfl⟩
    exact ⟨first, mid, hfirst, items, rest, hitems, rfl, rfl⟩

theorem parseItems_op {fuel : ℕ} {o : Op} {tokens rest : List Token} {items : List QueryNode} :
    d.parseItems (fuel + 1) o (.op o :: tokens) = some (items, rest) ↔ ∃ next mid more,
      d.parseOperand fuel o tokens = some (next, mid) ∧ d.parseItems fuel o mid = some (more, rest) ∧
        items = next :: more := by
  have heq : d.parseItems (fuel + 1) o (.op o :: tokens) = (d.parseOperand fuel o tokens).bind fun (next, mid) =>
      (d.parseItems fuel o mid).bind fun (more, rest) => some (next :: more, rest) := by
    cases o <;> rfl
  rw [heq]
  simp only [Option.bind_eq_some_iff, Prod.exists, Option.some.injEq, Prod.mk.injEq]
  constructor
  · rintro ⟨next, mid, hnext, more, rest', hmore, rfl, rfl⟩
    exact ⟨next, mid, more, hnext, hmore, rfl⟩
  · rintro ⟨next, mid, more, hnext, hmore, rfl⟩
    exact ⟨next, mid, hnext, more, rest, hmore, rfl, rfl⟩

/-- The loop is over where its operator does not follow. -/
theorem parseItems_other {fuel : ℕ} {o : Op} {tokens : List Token} (h : tokens.head? ≠ some (.op o)) :
    d.parseItems (fuel + 1) o tokens = some ([], tokens) := by
  cases tokens with
  | nil => rfl
  | cons t tokens =>
      cases t with
      | op o' =>
          have hne : o' ≠ o := fun heq => h (by rw [heq]; rfl)
          rw [parseItems, if_neg hne]
      | term => rfl
      | lp => rfl
      | rp => rfl

variable {tm : List Char → Bool}

theorem evalQuery_chainNode_nil {o : Op} {first : QueryNode} :
    evalQuery tm (chainNode o first []) = evalQuery tm first := rfl

theorem evalQuery_chainNode_cons {o : Op} {first next : QueryNode} {items : List QueryNode} :
    evalQuery tm (chainNode o first (next :: items)) = true ↔
      o.joins (evalQuery tm first = true) (evalQuery tm (chainNode o next items) = true) := by
  cases o <;> cases items <;>
    simp [chainNode, evalQuery, evalItems, Op.joins]

/-- What was read of the tokens is an expression of the level, and the node says the same. -/
def Reads (tm : List Char → Bool) (test : List Char → Prop) (level : Level) (tokens rest : List Token)
    (node : QueryNode) : Prop :=
  ∃ pre P, tokens = pre ++ rest ∧ Means test level pre P ∧ (evalQuery tm node = true ↔ P)

section Parser

variable {test : List Char → Prop}

/-- A chain of which the first operand has been read already. -/
theorem reads_items {o : Op} {fuel : ℕ}
    (hoperand : ∀ n ≤ fuel, ∀ tokens rest node, d.parseOperand n o tokens = some (node, rest) →
      Reads tm test o.operand tokens rest node)
    {pre tokens rest : List Token} {P : Prop} {first : QueryNode} {items : List QueryNode}
    (hpre : Means test o.operand pre P) (hfirst : evalQuery tm first = true ↔ P)
    (h : d.parseItems fuel o tokens = some (items, rest)) :
    ∃ more Q, tokens = more ++ rest ∧ Means test (.chain o) (pre ++ more) Q ∧
      (evalQuery tm (chainNode o first items) = true ↔ Q) := by
  induction fuel generalizing tokens pre P first items with
  | zero => cases h
  | succ fuel ih =>
      by_cases hhead : tokens.head? = some (.op o)
      · obtain ⟨tokens, rfl⟩ : ∃ tail, tokens = .op o :: tail := by
          cases tokens with
          | nil => cases hhead
          | cons t tail => exact ⟨tail, congrArg (· :: tail) (Option.some.inj hhead)⟩
        obtain ⟨next, mid, more, hnext, hmore, rfl⟩ := parseItems_op.mp h
        obtain ⟨pre', P', rfl, hpre', hnext⟩ := hoperand fuel (Nat.le_succ fuel) _ _ _ hnext
        obtain ⟨tail, Q, rfl, hmeans, hQ⟩ := ih (fun n hn => hoperand n (Nat.le_succ_of_le hn)) hpre' hnext hmore
        refine ⟨.op o :: (pre' ++ tail), o.joins P Q, by simp, .more hpre hmeans, ?_⟩
        rw [evalQuery_chainNode_cons, hfirst, hQ]
      · rw [parseItems_other hhead] at h
        cases h
        exact ⟨[], P, rfl, by rw [List.append_nil]; exact .one hpre, hfirst⟩

theorem reads_parse (htest : ∀ value, tm (d.stored value) = true ↔ test value) (fuel : ℕ) :
    (∀ tokens rest node, d.parseFactor fuel tokens = some (node, rest) →
      Reads tm test .factor tokens rest node) ∧
    ∀ o tokens rest node, d.parseChain fuel o tokens = some (node, rest) →
      Reads tm test (.chain o) tokens rest node := by
  induction fuel using Nat.strong_induction_on with
  | _ fuel ih =>
    constructor
    · intro tokens rest node h
      cases tokens with
      | nil =>
          cases fuel <;> cases h
      | cons t tokens =>
          cases t with
          | term value =>
              have h : some (QueryNode.term (d.stored value), tokens) = some (node, rest) := by
                cases fuel <;> exact h
              cases h
              exact ⟨[.term value], _, rfl, .term value, htest value⟩
          | op o => cases fuel <;> cases h
          | rp => cases fuel <;> cases h
          | lp =>
              cases fuel with
              | zero => cases h
              | succ fuel =>
                  rw [parseFactor] at h
                  split at h
                  next node' rest' hor =>
                    cases h
                    obtain ⟨pre, P, rfl, hpre, hP⟩ := (ih fuel (Nat.lt_succ_self fuel)).2 .or _ _ _ hor
                    exact ⟨.lp :: (pre ++ [.rp]), P, by simp, .group hpre, hP⟩
                  next => cases h
    · intro o tokens rest node h
      cases fuel with
      | zero => cases h
      | succ fuel =>
          obtain ⟨first, mid, items, hfirst, hitems, rfl⟩ := parseChain_succ.mp h
          have hoperand : ∀ n ≤ fuel, ∀ tokens rest node, d.parseOperand n o tokens = some (node, rest) →
              Reads tm test o.operand tokens rest node := by
            intro n hn tokens rest node h
            cases o with
            | and => exact (ih n (Nat.lt_succ_of_le hn)).1 tokens rest node h
            | or => exact (ih n (Nat.lt_succ_of_le hn)).2 .and tokens rest node h
          obtain ⟨pre, P, rfl, hpre, hP⟩ := hoperand fuel le_rfl _ _ _ hfirst
          obtain ⟨more, Q, rfl, hmeans, hQ⟩ := reads_items hoperand hpre hP hitems
          exact ⟨pre ++ more, Q, (List.append_assoc pre more rest).symm, hmeans, hQ⟩

/-- No operator that the chain would go on with. -/
def Follows (o : Op) (rest : List Token) : Prop :=
  rest.head? ≠ some (.op .and) ∧ (o = .or → rest.head? ≠ some (.op .or))

theorem Follows.self {o : Op} {rest : List Token} (h : Follows o rest) : rest.head? ≠ some (.op o) := by
  cases o with
  | and => exact h.1
  | or => exact h.2 rfl

/-- The steps that reading an operand takes besides. -/
def rank : Op → ℕ
  | .and => 0
  | .or => 1

variable (d tm) in
/-- With enough fuel the tokens are read, and what follows is left. -/
def Parsed (ts : List Token) (P : Prop) : Level → Prop
  | .factor => ∀ rest, ∃ node,
      (∀ fuel, 3 * ts.length ≤ fuel → d.parseFactor fuel (ts ++ rest) = some (node, rest)) ∧
        (evalQuery tm node = true ↔ P)
  | .chain o => ∀ rest, Follows o rest → ∃ first mid items,
      (∀ fuel, 3 * ts.length + rank o ≤ fuel → d.parseOperand fuel o (ts ++ rest) = some (first, mid)) ∧
        (∀ fuel, 3 * ts.length ≤ fuel → d.parseItems fuel o mid = some (items, rest)) ∧
        (evalQuery tm (chainNode o first items) = true ↔ P)

theorem Parsed.chain {ts : List Token} {P : Prop} {o : Op} (h : Parsed d tm ts P (.chain o)) {rest : List Token}
    (hrest : Follows o rest) : ∃ node,
    (∀ fuel, 3 * ts.length + rank o < fuel → d.parseChain fuel o (ts ++ rest) = some (node, rest)) ∧
      (evalQuery tm node = true ↔ P) := by
  obtain ⟨first, mid, items, hfirst, hitems, hP⟩ := h rest hrest
  refine ⟨chainNode o first items, fun fuel hfuel => ?_, hP⟩
  obtain ⟨n, rfl⟩ : ∃ n, fuel = n + 1 := ⟨fuel - 1, by omega⟩
  exact parseChain_succ.mpr ⟨first, mid, items, hfirst n (by omega), hitems n (by omega), rfl⟩

theorem Parsed.operand {ts : List Token} {P : Prop} {o : Op} (h : Parsed d tm ts P o.operand) {rest : List Token}
    (hrest : o = .or → Follows .and rest) : ∃ node,
    (∀ fuel, 3 * ts.length + rank o ≤ fuel → d.parseOperand fuel o (ts ++ rest) = some (node, rest)) ∧
      (evalQuery tm node = true ↔ P) := by
  cases o with
  | and => exact h rest
  | or => exact h.chain (hrest rfl)

theorem means_ne_nil {level : Level} {ts : List Token} {P : Prop} (h : Means test level ts P) : ts ≠ [] := by
  induction h with
  | term => exact List.cons_ne_nil _ _
  | group => exact List.cons_ne_nil _ _
  | one _ ih => exact ih
  | more _ _ ih => exact List.append_ne_nil_of_left_ne_nil ih _

theorem parsed_of_means (htest : ∀ value, tm (d.stored value) = true ↔ test value) {level : Level}
    {ts : List Token} {P : Prop} (h : Means test level ts P) : Parsed d tm ts P level := by
  induction h with
  | term value =>
      intro rest
      refine ⟨.term (d.stored value), fun fuel _ => ?_, htest value⟩
      cases fuel <;> rfl
  | @group ts P _ ih =>
      intro rest
      obtain ⟨node, hnode, hP⟩ := ih.chain (⟨nofun, nofun⟩ : Follows .or (.rp :: rest))
      refine ⟨node, fun fuel hfuel => ?_, hP⟩
      simp only [List.length_cons, List.length_append, List.length_nil] at hfuel
      obtain ⟨n, rfl⟩ : ∃ n, fuel = n + 1 := ⟨fuel - 1, by omega⟩
      have happend : Token.lp :: (ts ++ [.rp]) ++ rest = .lp :: (ts ++ .rp :: rest) := by simp
      rw [happend, parseFactor, hnode n (by simp only [rank]; omega)]
  | @one o ts P hmeans ih =>
      intro rest hrest
      obtain ⟨node, hnode, hP⟩ := ih.operand fun _ => (⟨hrest.1, nofun⟩ : Follows .and rest)
      refine ⟨node, rest, [], hnode, fun fuel hfuel => ?_, hP⟩
      have hpos := List.length_pos_of_ne_nil (means_ne_nil hmeans)
      obtain ⟨n, rfl⟩ : ∃ n, fuel = n + 1 := ⟨fuel - 1, by omega⟩
      exact parseItems_other hrest.self
  | @more o ts ts' P P' _ _ ih ih' =>
      intro rest hrest
      have hlower : o = .or → Follows .and (.op o :: (ts' ++ rest)) := by
        rintro rfl
        exact ⟨nofun, nofun⟩
      obtain ⟨node, hnode, hP⟩ := ih.operand hlower
      -- the rest of the chain is read by the loop
      obtain ⟨first, mid, items, hfirst, hitems, hP'⟩ := ih' rest hrest
      have hrank : rank o ≤ 1 := by cases o <;> decide
      refine ⟨node, .op o :: (ts' ++ rest), first :: items, fun fuel hfuel => ?_, fun fuel hfuel => ?_, ?_⟩
      · rw [List.append_assoc, List.cons_append]
        refine hnode fuel (le_trans ?_ hfuel)
        simp only [List.length_cons, List.length_append]
        omega
      · simp only [List.length_cons, List.length_append] at hfuel
        obtain ⟨n, rfl⟩ : ∃ n, fuel = n + 1 := ⟨fuel - 1, by omega⟩
        exact parseItems_op.mpr ⟨first, mid, items, hfirst n (by omega), hitems n (by omega), rfl⟩
      · rw [evalQuery_chainNode_cons, hP, hP']

/-- **The parser and the grammar.** -/
theorem parseOr_iff (htest : ∀ value, tm (d.stored value) = true ↔ test value) (ts : List Token) :
    (∀ node, d.parseOr (3 * ts.length + 2) ts = some (node, []) →
      ∃ P, Means test (.chain .or) ts P ∧ (evalQuery tm node = true ↔ P)) ∧
    ∀ P, Means test (.chain .or) ts P →
      ∃ node, d.parseOr (3 * ts.length + 2) ts = some (node, []) ∧ (evalQuery tm node = true ↔ P) := by
  constructor
  · intro node h
    obtain ⟨pre, P, hts, hmeans, hP⟩ := (reads_parse htest _).2 .or ts [] node h
    rw [List.append_nil] at hts
    exact ⟨P, hts ▸ hmeans, hP⟩
  · intro P hmeans
    obtain ⟨node, hnode, hP⟩ := (parsed_of_means htest hmeans).chain (⟨nofun, nofun⟩ : Follows .or [])
    have hparse := hnode (3 * ts.length + 2) (Nat.lt_succ_self _)
    rw [List.append_nil] at hparse
    exact ⟨node, hparse, hP⟩

end Parser

end Dialect

/-! ## Queries say what they mean -/

theorem any_isOp {ts : List Token} : ts.any Token.isOp = true ↔ ∃ o, .op o ∈ ts := by
  rw [List.any_eq_true]
  constructor
  · rintro ⟨t, ht, hop⟩
    cases t with
    | op o => exact ⟨o, ht⟩
    | term => cases hop
    | lp => cases hop
    | rp => cases hop
  · rintro ⟨o, ho⟩
    exact ⟨.op o, ho, rfl⟩

section Says

variable {casing : Casing} {value : List Char} {blank : Char → Bool} {query : List Char} {tm : List Char → Bool}

/-- Without an expression and a phrase, the query is a text. -/
theorem says_text (hexpression : ¬∃ P, Expression casing blank value query P)
    (hphrase : ¬∃ phrase, Lexes blank query [.term phrase]) :
    Says casing blank value query ↔ Occurs casing value query := by
  constructor
  · rintro (⟨P, hP, -⟩ | ⟨phrase, hlexes, -⟩ | ⟨-, -, hoccurs⟩)
    · exact absurd ⟨P, hP⟩ hexpression
    · exact absurd ⟨phrase, hlexes⟩ hphrase
    · exact hoccurs
  · exact fun hoccurs => .text hexpression hphrase hoccurs

theorem says_iff (hd : d.Lawful) (htest : ∀ needle, tm (d.stored needle) = true ↔ Occurs casing value needle) :
    (d.parseQuery query).elim (tm (d.stored query)) (evalQuery tm) = true ↔ Says casing d.blank value query := by
  unfold Dialect.parseQuery
  cases htokens : d.tokenize query with
  | none =>
      have hnot : ∀ ts, ¬Lexes d.blank query ts := fun ts hlexes => by
        rw [(tokenize_iff hd).mpr hlexes] at htokens
        cases htokens
      rw [says_text (fun ⟨_, ts, hlexes, _⟩ => hnot ts hlexes) fun ⟨_, hlexes⟩ => hnot _ hlexes]
      exact htest query
  | some ts =>
      have hlexes := (tokenize_iff hd).mp htokens
      have hunique : ∀ ts', Lexes d.blank query ts' → ts' = ts := fun ts' hlexes' => by
        rw [(tokenize_iff hd).mpr hlexes'] at htokens
        exact Option.some.inj htokens
      by_cases hop : ts.any Token.isOp = true
      · have hphrase : ¬∃ phrase, Lexes d.blank query [.term phrase] := by
          rintro ⟨phrase, hlexes'⟩
          rw [← hunique _ hlexes'] at hop
          cases hop
        obtain ⟨hsound, hcomplete⟩ := Dialect.parseOr_iff htest ts
        dsimp only
        rw [if_pos hop]
        split
        next node hparse =>
          obtain ⟨P, hmeans, hP⟩ := hsound node hparse
          constructor
          · exact fun heval => .expression P ⟨ts, hlexes, any_isOp.mp hop, hmeans⟩ (hP.mp heval)
          · rintro (⟨Q, ⟨ts', hlexes', -, hmeans'⟩, hQ⟩ | ⟨phrase, hlexes', -⟩ | ⟨hnone, -, -⟩)
            · obtain ⟨node', hparse', hQ'⟩ := hcomplete Q (hunique ts' hlexes' ▸ hmeans')
              rw [hparse] at hparse'
              cases hparse'
              exact hQ'.mpr hQ
            · exact absurd ⟨phrase, hlexes'⟩ hphrase
            · exact absurd ⟨P, ts, hlexes, any_isOp.mp hop, hmeans⟩ hnone
        next hparse =>
          rw [says_text ?_ hphrase]
          · exact htest query
          · rintro ⟨Q, ts', hlexes', -, hmeans'⟩
            obtain ⟨node', hparse', -⟩ := hcomplete Q (hunique ts' hlexes' ▸ hmeans')
            exact hparse node' hparse'
      · have hexpression : ¬∃ P, Expression casing d.blank value query P := by
          rintro ⟨P, ts', hlexes', hop', -⟩
          exact hop (any_isOp.mpr (hunique ts' hlexes' ▸ hop'))
        dsimp only
        rw [if_neg hop]
        split
        next phrase =>
          have hphrase : Says casing d.blank value query ↔ Occurs casing value phrase := by
            constructor
            · rintro (⟨P, hP, -⟩ | ⟨phrase', hlexes', hoccurs⟩ | ⟨-, hnone, -⟩)
              · exact absurd ⟨P, hP⟩ hexpression
              · have heq := hunique _ hlexes'
                cases heq
                exact hoccurs
              · exact absurd ⟨phrase, hlexes⟩ hnone
            · exact fun hoccurs => .phrase phrase hlexes hoccurs
          rw [hphrase]
          split
          next => exact htest phrase
          next heq =>
            rw [not_not] at heq
            rw [heq]
            exact htest query
        next hnone =>
          rw [says_text hexpression fun ⟨phrase, hlexes'⟩ => hnone phrase (hunique _ hlexes').symm]
          exact htest query

end Says

/-! ## The two sides -/

section Sides

variable (casing : Casing)

theorem web_lawful : (web casing).Lawful where
  operator := fun word => by
    show (if casing.upper word = _ then _ else _) = operatorOf word
    simp only [casing.upper_and, casing.upper_or, operatorOf]
  marks := by rintro c (rfl | rfl | rfl) <;> rfl

theorem desktop_lawful : (Native.desktop casing).Lawful where
  operator := fun _ => rfl
  marks := by rintro c (rfl | rfl | rfl) <;> rfl

/-- What follows a backslash without an escape is no backslash. -/
theorem jsonUnescape_native : ∀ cs, Native.jsonUnescape cs = jsonUnescape cs
  | [] => rfl
  | [c] => by
      rw [Native.jsonUnescape.eq_2 c [] (fun _ _ _ h => by cases h), jsonUnescape.eq_2 c [] (fun _ _ _ h => by cases h)]
      rfl
  | c :: ch :: rest => by
      by_cases hc : c = '\\'
      · subst hc
        rw [Native.jsonUnescape, jsonUnescape]
        split
        next c' _ => rw [jsonUnescape_native rest]
        next hescaped =>
          have hch : ch ≠ '\\' := fun h => by
            rw [h] at hescaped
            cases hescaped
          rw [jsonUnescape.eq_2 ch rest fun _ _ h => absurd h hch, jsonUnescape_native rest]
      · rw [Native.jsonUnescape.eq_2 c _ fun _ _ h => absurd h hc, jsonUnescape.eq_2 c _ fun _ _ h => absurd h hc,
          jsonUnescape_native (ch :: rest)]

theorem termMatches_native (raw text needle : List Char) :
    Native.termMatches raw text (casing.lower needle) = termMatches casing raw text needle := by
  simp only [Native.termMatches, termMatches, jsonUnescape_native]

theorem termMatches_iff (value needle : List Char) :
    termMatches casing (casing.lower value) (jsonUnescape (casing.lower value)) needle = true ↔
      Occurs casing value needle := by
  unfold termMatches
  dsimp only
  split
  next hnil => exact iff_of_true rfl ⟨_, List.mem_cons_self, _, List.mem_cons_self, hnil ▸ List.nil_infix⟩
  next =>
    simp only [Occurs, includes, List.mem_cons, List.not_mem_nil, or_false, exists_eq_or_imp, exists_eq_left,
      Bool.or_eq_true, decide_eq_true_eq]
    tauto

/-- The empty query holds of every body. -/
theorem says_nil (blank : Char → Bool) (value : List Char) : Says casing blank value [] := by
  have hnil : ∀ ts, Lexes blank [] ts → ts = [] := by
    intro ts hlexes
    generalize htext : ([] : List Char) = text at hlexes
    cases hlexes with
    | nil => rfl
    | word hne => exact absurd (List.append_eq_nil_iff.mp htext.symm).1 hne
    | blank => cases htext
    | left => cases htext
    | right => cases htext
    | phrase => cases htext
  refine .text ?_ ?_ ⟨casing.lower [], List.mem_cons_self, _, List.mem_cons_self, ?_⟩
  · rintro ⟨P, ts, hlexes, ⟨o, ho⟩, -⟩
    rw [hnil ts hlexes] at ho
    cases ho
  · rintro ⟨phrase, hlexes⟩
    cases hnil _ hlexes
  · rw [casing.lower_nil]
    exact List.nil_infix

theorem kafkaBodyHasText_iff (value needle : List Char) : kafkaBodyHasText casing value needle = true ↔
    Says casing isBlank value (ApiMock.trim (normalizeQuotes needle)) := by
  unfold kafkaBodyHasText
  dsimp only
  split
  next hnil =>
    rw [hnil]
    exact iff_of_true rfl (says_nil casing _ value)
  next =>
    refine Iff.trans ?_ (says_iff (web_lawful casing) (termMatches_iff casing value))
    cases (web casing).parseQuery (ApiMock.trim (normalizeQuotes needle)) <;> exact Iff.rfl

theorem bodyHasText_iff (value needle : List Char) : Native.bodyHasText casing value needle = true ↔
    Says casing Native.isWhitespace value (Native.trim (normalizeQuotes needle)) := by
  unfold Native.bodyHasText
  dsimp only
  split
  next hnil =>
    rw [hnil]
    exact iff_of_true rfl (says_nil casing _ value)
  next =>
    have htest : ∀ term, Native.termMatches (casing.lower value) (Native.jsonUnescape (casing.lower value))
        ((Native.desktop casing).stored term) = true ↔ Occurs casing value term := fun term => by
      rw [jsonUnescape_native]
      show Native.termMatches _ _ (casing.lower term) = true ↔ _
      rw [termMatches_native, termMatches_iff]
    refine Iff.trans ?_ (says_iff (desktop_lawful casing) htest)
    cases (Native.desktop casing).parseQuery (Native.trim (normalizeQuotes needle)) <;> exact Iff.rfl

end Sides

/-! ## Where they agree -/

/-- What is not in quotes: `true` says that a quote is open. -/
def unquoted : Bool → List Char → List Char
  | _, [] => []
  | false, '"' :: rest => unquoted true rest
  | false, c :: rest => c :: unquoted false rest
  | true, '\\' :: _ :: rest => unquoted true rest
  | true, '"' :: rest => unquoted false rest
  | true, _ :: rest => unquoted true rest

/-- Both cut off the same blanks at the ends of the query, and outside its quotes no other
blank is left than the four. -/
def PlainBlanks (needle : List Char) : Prop :=
  ApiMock.trim (normalizeQuotes needle) = Native.trim (normalizeQuotes needle) ∧
    (unquoted false (Native.trim (normalizeQuotes needle))).all (fun c => !Native.isWhitespace c || isBlank c) = true

instance (needle : List Char) : Decidable (PlainBlanks needle) := inferInstanceAs (Decidable (_ ∧ _))

theorem isWhitespace_of_isBlank {c : Char} (h : isBlank c = true) : Native.isWhitespace c = true := by
  simp only [isBlank, Bool.or_eq_true, beq_iff_eq] at h
  rcases h with ((rfl | rfl) | rfl) | rfl <;> rfl

theorem unquoted_cons {c : Char} {rest : List Char} (h : c ≠ '"') :
    unquoted false (c :: rest) = c :: unquoted false rest := by
  rw [unquoted.eq_3 c rest h]

theorem unquoted_append {word rest : List Char} (h : ∀ c ∈ word, c ≠ '"') :
    unquoted false (word ++ rest) = word ++ unquoted false rest := by
  induction word with
  | nil => rfl
  | cons c word ih =>
      rw [List.forall_mem_cons] at h
      rw [List.cons_append, unquoted_cons h.1, ih h.2, List.cons_append]

theorem unquoted_quotes {body value : List Char} (h : Quotes body value) (rest : List Char) :
    unquoted true (body ++ '"' :: rest) = unquoted false rest := by
  induction h with
  | nil => rfl
  | escape _ ih => exact ih
  | @plain c body value hclose hescape _ ih =>
      rw [List.cons_append, unquoted.eq_6 c _ (fun _ _ h => absurd h hescape) hclose]
      exact ih

/-- The tokens are the same where the blanks are. -/
theorem Lexes.congr {blank blank' : Char → Bool} {text : List Char} {ts : List Token} (h : Lexes blank text ts)
    (hmark : blank '"' = false) (hsame : ∀ c ∈ unquoted false text, blank c = blank' c) :
    Lexes blank' text ts := by
  have hends : ∀ c, (c ≠ '"' → blank c = blank' c) → (Ends blank c ↔ Ends blank' c) := by
    intro c hc
    by_cases hquote : c = '"'
    · exact iff_of_true (Or.inr (Or.inr (Or.inr hquote))) (Or.inr (Or.inr (Or.inr hquote)))
    · unfold Ends
      rw [hc hquote]
  induction h with
  | nil => exact .nil
  | @blank c rest ts hblank _ ih =>
      have hquote : c ≠ '"' := by
        rintro rfl
        rw [hmark] at hblank
        cases hblank
      rw [unquoted_cons hquote, List.forall_mem_cons] at hsame
      exact .blank (hsame.1 ▸ hblank) (ih hsame.2)
  | left _ ih =>
      rw [unquoted_cons (by decide), List.forall_mem_cons] at hsame
      exact .left (ih hsame.2)
  | right _ ih =>
      rw [unquoted_cons (by decide), List.forall_mem_cons] at hsame
      exact .right (ih hsame.2)
  | @phrase body value rest ts hquotes _ ih =>
      refine .phrase hquotes (ih ?_)
      rw [← unquoted_quotes hquotes]
      exact hsame
  | @word word rest ts hne hword hhead _ ih =>
      have hplain : ∀ c ∈ word, c ≠ '"' := fun c hc heq => hword c hc (Or.inr (Or.inr (Or.inr heq)))
      rw [unquoted_append hplain] at hsame
      refine .word hne (fun c hc hend => hword c hc ?_) (fun c hc => ?_)
        (ih fun c hc => hsame c (List.mem_append_right _ hc))
      · exact (hends c fun _ => hsame c (List.mem_append_left _ hc)).mpr hend
      · refine (hends c fun hquote => hsame c (List.mem_append_right _ ?_)).mp (hhead c hc)
        obtain ⟨tail, rfl⟩ := List.head?_eq_some_iff.mp hc
        rw [unquoted_cons hquote]
        exact List.mem_cons_self

theorem Says.congr {casing : Casing} {blank blank' : Char → Bool} {value query : List Char}
    (hlexes : ∀ ts, Lexes blank query ts ↔ Lexes blank' query ts) (h : Says casing blank value query) :
    Says casing blank' value query := by
  have hexpression : ∀ P, Expression casing blank value query P ↔ Expression casing blank' value query P :=
    fun P => exists_congr fun ts => and_congr_left fun _ => hlexes ts
  cases h with
  | expression P hP holds => exact .expression P ((hexpression P).mp hP) holds
  | phrase phrase hphrase hoccurs => exact .phrase phrase ((hlexes _).mp hphrase) hoccurs
  | text hnone hphrase hoccurs =>
      exact .text (fun ⟨P, hP⟩ => hnone ⟨P, (hexpression P).mpr hP⟩)
        (fun ⟨p, h⟩ => hphrase ⟨p, (hlexes _).mpr h⟩) hoccurs

/-- What is meant by a query: all white space separates its words. -/
def Intended (casing : Casing) (value needle : List Char) : Prop :=
  Says casing Native.isWhitespace value (Native.trim (normalizeQuotes needle))

/-- **The two body searches agree**, and say what is meant, where blanks are plain. -/
theorem searches_agree (casing : Casing) (value needle : List Char) (h : PlainBlanks needle) :
    Native.bodyHasText casing value needle = kafkaBodyHasText casing value needle ∧
      (kafkaBodyHasText casing value needle = true ↔ Intended casing value needle) := by
  obtain ⟨htrim, hblanks⟩ := h
  have hsame : ∀ c ∈ unquoted false (Native.trim (normalizeQuotes needle)),
      Native.isWhitespace c = isBlank c := by
    intro c hc
    have hc := List.all_eq_true.mp hblanks c hc
    rw [Bool.or_eq_true, Bool.not_eq_true'] at hc
    rw [Bool.eq_iff_iff]
    refine ⟨fun hwhite => hc.resolve_left fun hnot => ?_, isWhitespace_of_isBlank⟩
    rw [hnot] at hwhite
    cases hwhite
  have hlexes : ∀ ts, Lexes isBlank (Native.trim (normalizeQuotes needle)) ts ↔
      Lexes Native.isWhitespace (Native.trim (normalizeQuotes needle)) ts := fun ts =>
    ⟨fun h => h.congr rfl fun c hc => (hsame c hc).symm, fun h => h.congr rfl hsame⟩
  have hintended : kafkaBodyHasText casing value needle = true ↔ Intended casing value needle := by
    rw [kafkaBodyHasText_iff, htrim]
    exact ⟨Says.congr hlexes, Says.congr fun ts => (hlexes ts).symm⟩
  refine ⟨?_, hintended⟩
  rw [Bool.eq_iff_iff, hintended]
  exact bodyHasText_iff casing value needle

/-- Only ASCII letters have a case. -/
def asciiCasing : Casing where
  lower := List.map Char.toLower
  upper := List.map Char.toUpper
  lower_nil := rfl
  upper_and := fun _ => Iff.rfl
  upper_or := fun _ => Iff.rfl

def orderBody : List Char := "gold card for \"Ann\"".toList

/-- A no-break space within a phrase is plain. -/
theorem searches_agree_phrase :
    PlainBlanks "(silver OR gold)\tand \"a\u00a0b\"".toList ∧
      Native.bodyHasText asciiCasing orderBody "(silver OR gold)\tand \"a\u00a0b\"".toList =
        kafkaBodyHasText asciiCasing orderBody "(silver OR gold)\tand \"a\u00a0b\"".toList := by
  have hplain : PlainBlanks "(silver OR gold)\tand \"a\u00a0b\"".toList := by decide +kernel
  exact ⟨hplain, (searches_agree asciiCasing orderBody _ hplain).1⟩

/-- Between words it is not. -/
theorem searches_differ :
    kafkaBodyHasText asciiCasing orderBody "card\u00a0AND\u00a0gold".toList = false ∧
      Native.bodyHasText asciiCasing orderBody "card\u00a0AND\u00a0gold".toList = true := by
  decide +kernel

end RedFireForge.Kafka
