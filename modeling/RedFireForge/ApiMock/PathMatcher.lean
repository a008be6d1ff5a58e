/-
# `RedFireForge.ApiMock.PathMatcher` — matching the path of a request

A path is matched as it stands, segment by segment, or by a regular expression.  A
matcher that is declared exact but written as a template is matched as the template.
-/
import Mathlib.Data.Int.Notation
import Mathlib.Data.Nat.Notation
import Mathlib.Data.Rat.Defs
import Mathlib.Tactic.Common

namespace RedFireForge.ApiMock

/-- What the language brings: `none` is a source that is no regular expression, a text
that is no Base64, and a text that is no date. -/
structure Js where
  regexp : String → String → Option (String → Bool)
  toLowerCase : String → String
  toUpperCase : String → String
  atob : String → Option String
  localeCompare : String → String → ℤ
  /-- in milliseconds -/
  date : String → Option ℤ
  numberText : ℚ → String
  toFixed : ℚ → ℕ → String

def startsWith (s t : String) : Bool := t.toList.isPrefixOf s.toList

def endsWith (s t : String) : Bool := t.toList.isSuffixOf s.toList

def sliceFrom (s : String) (n : ℕ) : String := String.ofList (s.toList.drop n)

inductive PathMatcherKind
  | exact | parameterized | glob | regex
deriving DecidableEq, Repr

structure PathMatcher where
  kind : PathMatcherKind
  value : String
  caseInsensitive : Option Bool
deriving DecidableEq, Repr

/-- `/:[A-Za-z_]\w*/` -/
def hasColonName : List Char → Bool
  | [] => false
  | ':' :: cs => (cs.head?.map (fun c => c.isAlpha || c == '_')).getD false || hasColonName cs
  | _ :: cs => hasColonName cs

/-- `/\{[^}]+\}/` -/
def hasBraces : List Char → Bool
  | [] => false
  | '{' :: cs => (cs.head? != some '}' && cs.contains '}') || hasBraces cs
  | _ :: cs => hasBraces cs

/-- Of a matcher that is declared exact. -/
def inferPathKind (value : String) : PathMatcherKind :=
  if hasColonName value.toList || hasBraces value.toList then .parameterized
  else if value.toList.any (fun c => c == '*' || c == '?') then .glob
  else .exact

def normalizePathMatcher (m : PathMatcher) : PathMatcher :=
  if m.kind = .exact then { m with kind := inferPathKind m.value } else m

/-- The captures of a path, the last of a name first. -/
abbrev Params := List (String × String)

/-- `ci` is true where case is ignored. -/
def sameText (js : Js) (s t : String) (ci : Bool) : Bool :=
  if ci then js.toLowerCase s == js.toLowerCase t else s == t

def splitPath (path : String) : List String := (path.toList.splitOn '/').map String.ofList

def isParam (part : String) : Bool := startsWith part ":" || (startsWith part "\x7b" && endsWith part "\x7d")

def paramName (part : String) : String :=
  if startsWith part ":" then sliceFrom part 1 else String.ofList (part.toList.drop 1).dropLast

def matchParts (js : Js) (ci : Bool) : List String → List String → Params → Option Params
  | [], [], params => some params
  | pp :: pattern, rp :: path, params =>
      if isParam pp then
        matchParts js ci pattern path
          (if paramName pp = "" then params else (paramName pp, rp) :: params)
      else if sameText js pp rp ci then matchParts js ci pattern path params
      else none
  | _, _, _ => none

def matchParameterizedPath (js : Js) (pattern path : String) (ci : Bool) : Option Params :=
  matchParts js ci (splitPath pattern) (splitPath path) []

def escapeRegexChar (c : Char) : List Char :=
  if ".+*?^$\x7b\x7d()|[]\\".toList.contains c then ['\\', c] else [c]

def globSource : List Char → List Char
  | [] => []
  | '*' :: '*' :: '/' :: cs => ['.', '*'] ++ globSource cs
  | '*' :: '*' :: cs => ['.', '*'] ++ globSource cs
  | '*' :: cs => ['[', '^', '/', ']', '*'] ++ globSource cs
  | '?' :: cs => ['[', '^', '/', ']'] ++ globSource cs
  | c :: cs => escapeRegexChar c ++ globSource cs

def globToRegex (glob : String) : String :=
  String.ofList ('^' :: (globSource glob.toList ++ ['$']))

def testRegex (js : Js) (source : String) (ci : Bool) (text : String) : Bool :=
  match js.regexp source (if ci then "i" else "") with
  | some test => test text
  | none => false

/-- The captures, `none` if the path does not match. -/
def matchPath (js : Js) (matcher : PathMatcher) (path : String) : Option Params :=
  let m := normalizePathMatcher matcher
  let ci := m.caseInsensitive.getD false
  match m.kind with
  | .exact => if sameText js m.value path ci then some [] else none
  | .parameterized => matchParameterizedPath js m.value path ci
  | .glob => if testRegex js (globToRegex m.value) ci path then some [] else none
  | .regex => if testRegex js m.value ci path then some [] else none

def stripBasePath (path basePath : String) : String :=
  if basePath = "" then path
  else if startsWith path basePath then
    let rest := sliceFrom path basePath.length
    if rest = "" then "/" else rest
  else path

end RedFireForge.ApiMock
