/-
# `RedFireForge.Websocket.StompCodec` — STOMP frames as texts

A frame is a command, a line for each header with four characters escaped, an empty line and a body.
The reader looks for the empty line in the whole frame, first between `\n` and then between `\r\n`,
and keeps a header only under a key that is not `in` the object it fills, where inherited names are.
-/
import RedFireForge.ApiMock.JsonPath
import RedFireForge.Lib.Text

namespace RedFireForge.Websocket.StompCodec

open RedFireForge.Lib
open RedFireForge.ApiMock (trim isSpace inheritedNames)

local instance lawfulBEq_chars : LawfulBEq (List Char) := List.instLawfulBEq

/-! ## The code -/

abbrev Headers : Type := List (List Char × List Char)

structure StompFrame where
  command : List Char
  headers : Headers
  body : List Char
  raw : List Char
deriving DecidableEq

def nullChar : Char := '\x00'

/-- `value.replace(/c/g, text)` -/
def replaceChar (c : Char) (text : List Char) (value : List Char) : List Char :=
  value.flatMap fun d => if d = c then text else [d]

def encodeStompHeaderValue (value : List Char) : List Char :=
  replaceChar ':' ['\\', 'c'] (replaceChar '\n' ['\\', 'n']
    (replaceChar '\r' ['\\', 'r'] (replaceChar '\\' ['\\', '\\'] value)))

def decodeStompHeaderValue : List Char → List Char
  | '\\' :: '\\' :: cs => '\\' :: decodeStompHeaderValue cs
  | '\\' :: 'n' :: cs => '\n' :: decodeStompHeaderValue cs
  | '\\' :: 'r' :: cs => '\r' :: decodeStompHeaderValue cs
  | '\\' :: 'c' :: cs => ':' :: decodeStompHeaderValue cs
  | c :: cs => c :: decodeStompHeaderValue cs
  | [] => []

/-- A header with the end of its line. -/
def headerLine (header : List Char × List Char) : List Char :=
  encodeStompHeaderValue header.1 ++ ':' :: encodeStompHeaderValue header.2

/-- A frame whose command and header lines end so. -/
def frameText (eol command : List Char) (headers : Headers) (body : List Char) : List Char :=
  command ++ eol ++ headers.flatMap (fun header => headerLine header ++ eol) ++ eol ++ body ++ [nullChar]

def encodeStompFrame (command : List Char) (headers : Headers) (body : Option (List Char)) : List Char :=
  frameText ['\n'] command headers (body.getD [])

/-- `raw.slice(0, -1)`, where the frame ends as it should -/
def withoutNull (raw : List Char) : List Char := if raw.getLast? = some nullChar then raw.dropLast else raw

/-- The header section and the body. -/
def sections (cleaned : List Char) : List Char × List Char :=
  match indexOf ['\n', '\n'] cleaned with
  | some headerEndIdx => (cleaned.take headerEndIdx, cleaned.drop (headerEndIdx + 2))
  | none =>
      match indexOf ['\r', '\n', '\r', '\n'] cleaned with
      | some crlfEnd => (cleaned.take crlfEnd, cleaned.drop (crlfEnd + 4))
      | none => (cleaned, [])

def withoutReturn (line : List Char) : List Char := if line.getLast? = some '\r' then line.dropLast else line

/-- The parts between the ends of lines; only before an end is a return left out. -/
def endedLines : List (List Char) → List (List Char)
  | line :: next :: lines => withoutReturn line :: endedLines (next :: lines)
  | lines => lines

/-- `split(/\r?\n/)` -/
def splitLines (cs : List Char) : List (List Char) := endedLines (cs.splitOn '\n')

/-- The names that every object has. -/
def objectNames : List (List Char) := ("__proto__" :: inheritedNames).map String.toList

/-- A line with a colon, but not in front. -/
def setHeader (headers : Headers) (line : List Char) : Headers :=
  if ':' ∈ line ∧ line.head? ≠ some ':' then
    let key := decodeStompHeaderValue (line.takeWhile (· ≠ ':'))
    let value := decodeStompHeaderValue (line.dropWhile (· ≠ ':')).tail
    if key ∈ headers.map Prod.fst ∨ key ∈ objectNames then headers else headers ++ [(key, value)]
  else headers

def decodeStompFrame (toUpperCase : List Char → List Char) (raw : List Char) : StompFrame :=
  let (headerSection, body) := sections (withoutNull raw)
  let lines := splitLines headerSection
  ⟨toUpperCase (trim (lines.headD [])), lines.tail.foldl setHeader [], body, raw⟩

/-- The same frame, its command and header lines ended as `eol` says. -/
def crlfFrame (command : List Char) (headers : Headers) (body : Option (List Char)) : List Char :=
  frameText ['\r', '\n'] command headers (body.getD [])

/-! ## What is wanted -/

/-- A text that a frame is read back from. -/
def ReadsBack (toUpperCase : List Char → List Char) (raw command : List Char) (headers : Headers) (body : List Char) : Prop :=
  decodeStompFrame toUpperCase raw = ⟨command, headers, body, raw⟩

/-- A word that upper case leaves as it is. -/
structure Capitals (toUpperCase : List Char → List Char) (command : List Char) : Prop where
  upper : toUpperCase command = command
  plain : ∀ c ∈ command, isSpace c = false

/-- An object has each key once. -/
structure HeaderMap (headers : Headers) : Prop where
  keys : (headers.map Prod.fst).Nodup
  nonempty : ∀ header ∈ headers, header.1 ≠ []

/-! ## Four escaped characters -/

def escapeChar (c : Char) : List Char :=
  if c = '\\' then ['\\', '\\']
  else if c = '\r' then ['\\', 'r']
  else if c = '\n' then ['\\', 'n']
  else if c = ':' then ['\\', 'c']
  else [c]

theorem encode_cons (c : Char) (value : List Char) :
    encodeStompHeaderValue (c :: value) = escapeChar c ++ encodeStompHeaderValue value := by
  simp only [encodeStompHeaderValue, replaceChar, List.flatMap_cons, List.flatMap_append]
  congr 1
  simp only [escapeChar]
  split
  next h => subst h; rfl
  next hback =>
    split
    next h => subst h; rfl
    next hreturn =>
      split
      next h => subst h; rfl
      next hline => simp [hreturn, hline]

/-- The escape of a character is read back as the character. -/
theorem decode_escapeChar (c : Char) (cs : List Char) :
    decodeStompHeaderValue (escapeChar c ++ cs) = c :: decodeStompHeaderValue cs := by
  simp only [escapeChar]
  split
  next h => subst h; rfl
  next hback =>
    split
    next h => subst h; rfl
    next =>
      split
      next h => subst h; rfl
      next =>
        split
        next h => subst h; rfl
        next => simp [decodeStompHeaderValue, hback]

theorem decode_encode (value : List Char) : decodeStompHeaderValue (encodeStompHeaderValue value) = value := by
  induction value with
  | nil => rfl
  | cons c value ih => rw [encode_cons, decode_escapeChar, ih]

theorem mem_escapeChar {c d : Char} (h : d ∈ escapeChar c) : d ≠ '\n' ∧ d ≠ '\r' ∧ d ≠ ':' := by
  simp only [escapeChar] at h
  split at h
  next => simp_all
  next =>
    split at h
    next => aesop
    next =>
      split at h
      next => aesop
      next => split at h <;> aesop

/-- Nothing that ends a line or a key is left. -/
theorem mem_encode {value : List Char} {d : Char} (h : d ∈ encodeStompHeaderValue value) :
    d ≠ '\n' ∧ d ≠ '\r' ∧ d ≠ ':' := by
  induction value with
  | nil => exact absurd h List.not_mem_nil
  | cons c value ih =>
      rw [encode_cons, List.mem_append] at h
      exact h.elim mem_escapeChar ih

theorem encode_ne_nil {value : List Char} (h : value ≠ []) : encodeStompHeaderValue value ≠ [] := by
  intro hnil
  rw [← decode_encode value, hnil] at h
  exact h rfl

/-! ## Lines -/

/-- A text of one line. -/
def OneLine (line : List Char) : Prop := ∀ c ∈ line, c ≠ '\n' ∧ c ≠ '\r'

theorem oneLine_headerLine (header : List Char × List Char) : OneLine (headerLine header) := by
  intro c hc
  rw [headerLine, List.mem_append, List.mem_cons] at hc
  rcases hc with hc | rfl | hc
  · exact ⟨(mem_encode hc).1, (mem_encode hc).2.1⟩
  · exact ⟨nofun, nofun⟩
  · exact ⟨(mem_encode hc).1, (mem_encode hc).2.1⟩

theorem oneLine_command {toUpperCase : List Char → List Char} {command : List Char} (h : Capitals toUpperCase command) :
    OneLine command := by
  intro c hc
  constructor
  · rintro rfl
    exact absurd (h.plain _ hc) (by decide)
  · rintro rfl
    exact absurd (h.plain _ hc) (by decide)

theorem OneLine.no_newline {line : List Char} (h : OneLine line) : '\n' ∉ line := fun hmem => (h _ hmem).1 rfl

theorem OneLine.no_return {line : List Char} (h : OneLine line) : '\r' ∉ line := fun hmem => (h _ hmem).2 rfl

/-- The two ends of a line. -/
inductive IsEol : List Char → Prop
  | lf : IsEol ['\n']
  | crlf : IsEol ['\r', '\n']

theorem withoutReturn_oneLine {line : List Char} (h : OneLine line) : withoutReturn line = line :=
  if_neg fun hlast => h.no_return (List.mem_of_getLast? hlast)

theorem endedLines_cons (line : List Char) (cs : List Char) :
    endedLines (line :: cs.splitOn '\n') = withoutReturn line :: endedLines (cs.splitOn '\n') := by
  cases h : cs.splitOn '\n' with
  | nil => exact absurd h (List.splitOn_ne_nil _ _)
  | cons next lines => rfl

theorem splitLines_eol {eol line : List Char} (heol : IsEol eol) (h : OneLine line) (cs : List Char) :
    splitLines (line ++ eol ++ cs) = line :: splitLines cs := by
  cases heol with
  | lf =>
      rw [splitLines, List.append_assoc, List.singleton_append, List.splitOn_append_cons_self_of_not_mem h.no_newline,
        endedLines_cons, withoutReturn_oneLine h, splitLines]
  | crlf =>
      have hno : '\n' ∉ line ++ ['\r'] := by simp [h.no_newline]
      rw [splitLines, show line ++ ['\r', '\n'] ++ cs = (line ++ ['\r']) ++ '\n' :: cs by simp,
        List.splitOn_append_cons_self_of_not_mem hno, endedLines_cons, splitLines]
      simp [withoutReturn]

theorem splitLines_oneLine {line : List Char} (h : OneLine line) : splitLines line = [line] := by
  rw [splitLines, List.splitOn_eq_singleton h.no_newline]
  rfl

/-- The lines of a header section. -/
def sectionText (eol line : List Char) (lines : List (List Char)) : List Char := line ++ lines.flatMap (eol ++ ·)

theorem splitLines_sectionText {eol line : List Char} {lines : List (List Char)} (heol : IsEol eol) (hline : OneLine line)
    (hlines : ∀ l ∈ lines, OneLine l) : splitLines (sectionText eol line lines) = line :: lines := by
  induction lines generalizing line with
  | nil => rw [sectionText, List.flatMap_nil, List.append_nil, splitLines_oneLine hline]
  | cons next lines ih =>
      have hrest := ih (hlines next List.mem_cons_self) fun l hl => hlines l (List.mem_cons_of_mem _ hl)
      rw [sectionText, List.flatMap_cons, List.append_assoc, ← List.append_assoc, splitLines_eol heol hline]
      exact congrArg (line :: ·) hrest

/-! ## The end of the header section -/

/-- A word that neither begins in a line nor at the end of one is behind all of them. -/
theorem indexOf_sectionText {eol line word : List Char} {lines : List (List Char)} {a : Char} (hline : a ∉ line)
    (hlines : ∀ l ∈ lines, l ≠ [] ∧ a ∉ l)
    (hskip : ∀ l ∈ lines, ∀ cs, indexOf (a :: word) (eol ++ (l ++ cs)) = (indexOf (a :: word) (l ++ cs)).map (eol.length + ·))
    (cs : List Char) :
    indexOf (a :: word) (sectionText eol line lines ++ cs) =
      (indexOf (a :: word) cs).map ((sectionText eol line lines).length + ·) := by
  induction lines generalizing line with
  | nil => simpa [sectionText] using @indexOf_append_of_notMem Char line cs _ word a hline
  | cons next lines ih =>
      have hrest := ih (hlines next List.mem_cons_self).2 (fun l hl => hlines l (List.mem_cons_of_mem _ hl))
        fun l hl => hskip l (List.mem_cons_of_mem _ hl)
      have htext : sectionText eol line (next :: lines) = line ++ (eol ++ sectionText eol next lines) := by
        simp [sectionText]
      have hnext := hskip next List.mem_cons_self (lines.flatMap (eol ++ ·) ++ cs)
      rw [← List.append_assoc next, ← sectionText, hrest] at hnext
      rw [htext, List.append_assoc, List.append_assoc, indexOf_append_of_notMem hline, hnext, Option.map_map, Option.map_map]
      congr 1
      funext i
      simp only [Function.comp, List.length_append]
      omega

theorem frameText_eq (eol command : List Char) (headers : Headers) (body : List Char) :
    frameText eol command headers body =
      sectionText eol command (headers.map headerLine) ++ (eol ++ (eol ++ body)) ++ [nullChar] := by
  have hshift : ∀ headers : Headers, eol ++ headers.flatMap (fun header => headerLine header ++ eol) =
      (headers.map headerLine).flatMap (eol ++ ·) ++ eol := by
    intro headers
    induction headers with
    | nil => simp
    | cons header headers ih =>
        rw [List.flatMap_cons, List.map_cons, List.flatMap_cons, List.append_assoc, ih]
        simp only [List.append_assoc]
  have hends := hshift headers
  simp only [frameText, sectionText, List.append_assoc]
  rw [← List.append_assoc eol, hends, List.append_assoc]

theorem withoutNull_append (cs : List Char) : withoutNull (cs ++ [nullChar]) = cs := by
  simp [withoutNull]

theorem headerLine_ne_nil (header : List Char × List Char) : headerLine header ≠ [] := by
  simp [headerLine]

section Search

variable {line : List Char} (hline : OneLine line) (hne : line ≠ []) (cs : List Char)
include hline hne

/-- Each line begins with something else than the end of one. -/
theorem newlines_step :
    indexOf ['\n', '\n'] (['\n'] ++ (line ++ cs)) = (indexOf ['\n', '\n'] (line ++ cs)).map (1 + ·) := by
  obtain ⟨c, line, rfl⟩ := List.exists_cons_of_ne_nil hne
  have hc : c ≠ '\n' := (hline c List.mem_cons_self).1
  have hno : ¬ ['\n', '\n'] <+: '\n' :: (c :: line ++ cs) := by simp [hc.symm]
  exact indexOf_cons_of_not hno

theorem newlines_step_crlf :
    indexOf ['\n', '\n'] (['\r', '\n'] ++ (line ++ cs)) = (indexOf ['\n', '\n'] (line ++ cs)).map (2 + ·) := by
  have hno : ¬ ['\n', '\n'] <+: '\r' :: ('\n' :: (line ++ cs)) := by simp
  have hnext := newlines_step hline hne cs
  rw [List.singleton_append] at hnext
  rw [List.cons_append, List.singleton_append, indexOf_cons_of_not hno, hnext, Option.map_map]
  congr 1
  funext i
  simp only [Function.comp]
  omega

theorem returns_step :
    indexOf ['\r', '\n', '\r', '\n'] (['\r', '\n'] ++ (line ++ cs)) =
      (indexOf ['\r', '\n', '\r', '\n'] (line ++ cs)).map (2 + ·) := by
  obtain ⟨c, line, rfl⟩ := List.exists_cons_of_ne_nil hne
  have hc : c ≠ '\r' := (hline c List.mem_cons_self).2
  have hreturn : ¬ ['\r', '\n', '\r', '\n'] <+: '\r' :: ('\n' :: (c :: line ++ cs)) := by simp [hc.symm]
  have hnewline : ¬ ['\r', '\n', '\r', '\n'] <+: '\n' :: (c :: line ++ cs) := by simp
  rw [List.cons_append, List.singleton_append, indexOf_cons_of_not hreturn, indexOf_cons_of_not hnewline, Option.map_map]
  congr 1
  funext i
  simp only [Function.comp]
  omega

end Search

/-! ## Frames that are read back -/

variable {toUpperCase : List Char → List Char} {command : List Char} {headers : Headers} {body : List Char}

theorem oneLine_lines (headers : Headers) : ∀ line ∈ headers.map headerLine, OneLine line ∧ line ≠ [] := by
  intro line hline
  obtain ⟨header, -, rfl⟩ := List.mem_map.mp hline
  exact ⟨oneLine_headerLine header, headerLine_ne_nil header⟩

theorem sections_lf (hcommand : OneLine command) (headers : Headers) (body : List Char) :
    sections (sectionText ['\n'] command (headers.map headerLine) ++ (['\n'] ++ (['\n'] ++ body))) =
      (sectionText ['\n'] command (headers.map headerLine), body) := by
  have hlines := oneLine_lines headers
  have hindex := @indexOf_sectionText ['\n'] command ['\n'] _ '\n' hcommand.no_newline
    (fun l hl => ⟨(hlines l hl).2, (hlines l hl).1.no_newline⟩)
    (fun l hl cs => newlines_step (hlines l hl).1 (hlines l hl).2 cs) (['\n'] ++ (['\n'] ++ body))
  have hat : indexOf ['\n', '\n'] (['\n'] ++ (['\n'] ++ body)) = some 0 := by simp [indexOf]
  rw [hat, Option.map_some, Nat.add_zero] at hindex
  rw [sections, hindex]
  simp [List.drop_append]

theorem newlines_crlf (hcommand : OneLine command) (headers : Headers) (body : List Char) :
    indexOf ['\n', '\n'] (sectionText ['\r', '\n'] command (headers.map headerLine) ++
        (['\r', '\n'] ++ (['\r', '\n'] ++ body))) =
      (indexOf ['\n', '\n'] ('\n' :: body)).map
        ((sectionText ['\r', '\n'] command (headers.map headerLine)).length + 3 + ·) := by
  have hlines := oneLine_lines headers
  have hindex := @indexOf_sectionText ['\r', '\n'] command ['\n'] _ '\n' hcommand.no_newline
    (fun l hl => ⟨(hlines l hl).2, (hlines l hl).1.no_newline⟩)
    (fun l hl cs => newlines_step_crlf (hlines l hl).1 (hlines l hl).2 cs) (['\r', '\n'] ++ (['\r', '\n'] ++ body))
  have hends : indexOf ['\n', '\n'] (['\r', '\n'] ++ (['\r', '\n'] ++ body)) =
      (indexOf ['\n', '\n'] ('\n' :: body)).map (3 + ·) := by
    have h₁ : ¬ ['\n', '\n'] <+: '\r' :: '\n' :: '\r' :: '\n' :: body := by simp
    have h₂ : ¬ ['\n', '\n'] <+: '\n' :: '\r' :: '\n' :: body := by simp
    have h₃ : ¬ ['\n', '\n'] <+: '\r' :: '\n' :: body := by simp
    simp only [List.cons_append, List.nil_append]
    rw [indexOf_cons_of_not h₁, indexOf_cons_of_not h₂, indexOf_cons_of_not h₃, Option.map_map, Option.map_map]
    congr 1
    funext i
    simp only [Function.comp]
    omega
  rw [hindex, hends, Option.map_map]
  congr 1
  funext i
  simp only [Function.comp]
  omega

theorem returns_crlf (hcommand : OneLine command) (headers : Headers) (body : List Char) :
    indexOf ['\r', '\n', '\r', '\n'] (sectionText ['\r', '\n'] command (headers.map headerLine) ++
        (['\r', '\n'] ++ (['\r', '\n'] ++ body))) =
      some (sectionText ['\r', '\n'] command (headers.map headerLine)).length := by
  have hlines := oneLine_lines headers
  have hindex := @indexOf_sectionText ['\r', '\n'] command ['\n', '\r', '\n'] _ '\r' hcommand.no_return
    (fun l hl => ⟨(hlines l hl).2, (hlines l hl).1.no_return⟩)
    (fun l hl cs => returns_step (hlines l hl).1 (hlines l hl).2 cs) (['\r', '\n'] ++ (['\r', '\n'] ++ body))
  have hat : indexOf ['\r', '\n', '\r', '\n'] (['\r', '\n'] ++ (['\r', '\n'] ++ body)) = some 0 := by simp [indexOf]
  rw [hindex, hat, Option.map_some, Nat.add_zero]

theorem sections_crlf (hcommand : OneLine command) (headers : Headers) (hbody : ¬ ['\n', '\n'] <:+: '\n' :: body) :
    sections (sectionText ['\r', '\n'] command (headers.map headerLine) ++ (['\r', '\n'] ++ (['\r', '\n'] ++ body))) =
      (sectionText ['\r', '\n'] command (headers.map headerLine), body) := by
  have hnewlines := newlines_crlf hcommand headers body
  have hreturns := returns_crlf hcommand headers body
  rw [indexOf_eq_none_iff.mpr hbody, Option.map_none] at hnewlines
  rw [sections, hnewlines]
  simp only [hreturns]
  simp [List.drop_append]

/-- A blank line in the body is taken for the end of the headers. -/
theorem sections_short (hcommand : OneLine command) (headers : Headers) (hbody : ['\n', '\n'] <:+: '\n' :: body) :
    (sections (sectionText ['\r', '\n'] command (headers.map headerLine) ++
      (['\r', '\n'] ++ (['\r', '\n'] ++ body)))).2.length < body.length := by
  have hnewlines := newlines_crlf hcommand headers body
  cases hi : indexOf ['\n', '\n'] ('\n' :: body) with
  | none => exact absurd hbody (indexOf_eq_none_iff.mp hi)
  | some i =>
      have hspec := (indexOf_spec hi).2.1.length_le
      rw [hi, Option.map_some] at hnewlines
      rw [sections, hnewlines]
      simp at hspec ⊢
      omega

/-! ## The headers -/

theorem setHeader_headerLine (headers : Headers) {header : List Char × List Char} (hne : header.1 ≠ []) :
    setHeader headers (headerLine header) =
      if header.1 ∈ headers.map Prod.fst ∨ header.1 ∈ objectNames then headers else headers ++ [header] := by
  have hcolon : ':' ∉ encodeStompHeaderValue header.1 := fun h => (mem_encode h).2.2 rfl
  have hline : ':' ∈ headerLine header ∧ (headerLine header).head? ≠ some ':' := by
    obtain ⟨c, cs, hcs⟩ := List.exists_cons_of_ne_nil (encode_ne_nil hne)
    have hc : c ≠ ':' := (mem_encode (hcs ▸ List.mem_cons_self)).2.2
    simp [headerLine, hcs, hc]
  rw [setHeader, if_pos hline]
  simp only [headerLine, takeWhile_append_cons hcolon, dropWhile_append_cons hcolon, List.tail_cons, decode_encode]

/-- Of different keys the ones that no object has are kept. -/
theorem foldl_setHeader {kept : Headers} (hheaders : HeaderMap headers)
    (hnew : ∀ header ∈ headers, header.1 ∉ kept.map Prod.fst) :
    (headers.map headerLine).foldl setHeader kept = kept ++ headers.filter (·.1 ∉ objectNames) := by
  induction headers generalizing kept with
  | nil => simp
  | cons header headers ih =>
      have hkeys := List.nodup_cons.mp hheaders.keys
      have hrest : HeaderMap headers :=
        ⟨hkeys.2, fun other hother => hheaders.nonempty other (List.mem_cons_of_mem _ hother)⟩
      rw [List.map_cons, List.foldl_cons, setHeader_headerLine kept (hheaders.nonempty header List.mem_cons_self)]
      by_cases hname : header.1 ∈ objectNames
      · rw [if_pos (Or.inr hname), ih hrest fun other hother => hnew other (List.mem_cons_of_mem _ hother),
          List.filter_cons_of_neg (by simpa using hname)]
      · have hfree : ¬ (header.1 ∈ kept.map Prod.fst ∨ header.1 ∈ objectNames) :=
          fun h => h.elim (hnew header List.mem_cons_self) hname
        have hothers : ∀ other ∈ headers, other.1 ∉ (kept ++ [header]).map Prod.fst := by
          intro other hother hmem
          rw [List.map_append, List.mem_append, List.map_singleton, List.mem_singleton] at hmem
          rcases hmem with hmem | hmem
          · exact hnew other (List.mem_cons_of_mem _ hother) hmem
          · exact hkeys.1 (hmem ▸ List.mem_map_of_mem hother)
        rw [if_neg hfree, ih hrest hothers, List.filter_cons_of_pos (by simpa using hname), List.append_assoc,
          List.singleton_append]

/-- What a frame is read as when its header section is found. -/
theorem decode_of_sections {eol : List Char} (heol : IsEol eol) (hcommand : Capitals toUpperCase command)
    (hheaders : HeaderMap headers)
    (hsections : sections (sectionText eol command (headers.map headerLine) ++ (eol ++ (eol ++ body))) =
      (sectionText eol command (headers.map headerLine), body)) :
    decodeStompFrame toUpperCase (frameText eol command headers body) =
      ⟨command, headers.filter (·.1 ∉ objectNames), body, frameText eol command headers body⟩ := by
  have htrim : trim command = command := trimBy_of_none hcommand.plain
  rw [decodeStompFrame, frameText_eq, withoutNull_append, hsections]
  simp only [splitLines_sectionText heol (oneLine_command hcommand) fun l hl => (oneLine_lines headers l hl).1,
    List.headD_cons, List.tail_cons, htrim, hcommand.upper]
  rw [foldl_setHeader hheaders fun _ _ => List.not_mem_nil, List.nil_append]

theorem readsBack_of_sections {eol : List Char} (heol : IsEol eol) (hcommand : Capitals toUpperCase command)
    (hheaders : HeaderMap headers)
    (hsections : sections (sectionText eol command (headers.map headerLine) ++ (eol ++ (eol ++ body))) =
      (sectionText eol command (headers.map headerLine), body)) :
    ReadsBack toUpperCase (frameText eol command headers body) command headers body ↔
      ∀ header ∈ headers, header.1 ∉ objectNames := by
  rw [ReadsBack, decode_of_sections heol hcommand hheaders hsections]
  constructor
  · intro h header hheader
    have hfilter := List.filter_eq_self.mp (congrArg StompFrame.headers h) header hheader
    simpa using hfilter
  · intro h
    rw [List.filter_eq_self.mpr fun header hheader => by simpa using h header hheader]

theorem readsBack_lf_iff (hcommand : Capitals toUpperCase command) (hheaders : HeaderMap headers) :
    ReadsBack toUpperCase (frameText ['\n'] command headers body) command headers body ↔
      ∀ header ∈ headers, header.1 ∉ objectNames :=
  readsBack_of_sections .lf hcommand hheaders (sections_lf (oneLine_command hcommand) headers body)

theorem readsBack_crlf_iff (hcommand : Capitals toUpperCase command) (hheaders : HeaderMap headers) :
    ReadsBack toUpperCase (frameText ['\r', '\n'] command headers body) command headers body ↔
      (∀ header ∈ headers, header.1 ∉ objectNames) ∧ ¬ ['\n', '\n'] <:+: '\n' :: body := by
  by_cases hbody : ['\n', '\n'] <:+: '\n' :: body
  · refine iff_of_false (fun h => ?_) fun h => h.2 hbody
    have hshort := sections_short (oneLine_command hcommand) headers hbody
    have hsame : (decodeStompFrame toUpperCase (frameText ['\r', '\n'] command headers body)).body = body := by rw [h]
    rw [decodeStompFrame, frameText_eq, withoutNull_append] at hsame
    exact absurd (congrArg List.length hsame) (Nat.ne_of_lt hshort)
  · rw [readsBack_of_sections .crlf hcommand hheaders (sections_crlf (oneLine_command hcommand) headers hbody)]
    exact (and_iff_left hbody).symm

/-- With the line ends of `encodeStompFrame` a frame is read back unless a key is a name of every object;
with two characters at the end of a line, an empty line in the body is in the way as well. -/
theorem frames_survive_iff (toUpperCase : List Char → List Char) (command : List Char) (headers : Headers)
    (body : Option (List Char)) (hcommand : Capitals toUpperCase command) (hheaders : HeaderMap headers) :
    ReadsBack toUpperCase (encodeStompFrame command headers body) command headers (body.getD []) ∧
        ReadsBack toUpperCase (crlfFrame command headers body) command headers (body.getD []) ↔
      (∀ header ∈ headers, header.1 ∉ objectNames) ∧ ¬ ['\n', '\n'] <:+: '\n' :: body.getD [] := by
  rw [encodeStompFrame, crlfFrame, readsBack_lf_iff hcommand hheaders, readsBack_crlf_iff hcommand hheaders]
  exact and_iff_right_of_imp And.left

/-- Capitals of the letters that have them. -/
def upperCase (cs : List Char) : List Char := cs.map Char.toUpper

theorem capitals_send : Capitals upperCase "SEND".toList := ⟨by decide, by decide⟩

theorem headerMap_destination : HeaderMap [("destination".toList, "/queue:a".toList)] :=
  ⟨by decide, by decide⟩

theorem send_survives :
    ReadsBack upperCase (encodeStompFrame "SEND".toList [("destination".toList, "/queue:a".toList)] (some "one\ntwo".toList))
        "SEND".toList [("destination".toList, "/queue:a".toList)] "one\ntwo".toList ∧
      ReadsBack upperCase (crlfFrame "SEND".toList [("destination".toList, "/queue:a".toList)] (some "one\ntwo".toList))
        "SEND".toList [("destination".toList, "/queue:a".toList)] "one\ntwo".toList :=
  (frames_survive_iff upperCase _ _ _ capitals_send headerMap_destination).mpr ⟨by decide, by decide⟩

/-- A key that every object has is not set, and the first lines of a body are read as headers. -/
theorem constructor_and_blank_line_lost :
    HeaderMap [("constructor".toList, "a".toList)] ∧
      ¬ ReadsBack upperCase (encodeStompFrame "SEND".toList [("constructor".toList, "a".toList)] none)
        "SEND".toList [("constructor".toList, "a".toList)] [] ∧
      ¬ ReadsBack upperCase (crlfFrame "SEND".toList [] (some "a:b\n\nc".toList)) "SEND".toList [] "a:b\n\nc".toList := by
  refine ⟨⟨by decide, by decide⟩, ?_, ?_⟩
  · intro h
    exact absurd (congrArg StompFrame.headers h) (by decide)
  · intro h
    exact absurd (congrArg StompFrame.body h) (by decide)

end RedFireForge.Websocket.StompCodec
