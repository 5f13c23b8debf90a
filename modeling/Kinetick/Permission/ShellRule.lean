import Kinetick.JsonString
import Kinetick.Permission.BashAst
import Kinetick.Text

/-!
# Rules of shell commands

`bash-rule-match.ts`: the text of a rule is an argument vector as JSON, a prefix, a wildcard or an exact
command, and a wildcard is compiled to a regular expression. Of regular expressions there are the
anchored ones of characters and `.*`; what another source tests is the platform's, as is the letter
case that the flag `i` ignores.
-/

namespace Kinetick.Permission

inductive ShellPermissionRule
  | exact (command : String)
  | commandPrefix (text : String)
  | argvPrefix (argv : List String)
  | wildcard (pattern : String)
  deriving DecidableEq

/-! ### Parsing -/

/-- `JSON.parse` of the trimmed text, if that is a non-empty array of strings. -/
def tryDecodeArgvPrefix (ruleContent : String) : Option (List String) :=
  let trimmed := (jsTrim ruleContent).toList
  if trimmed.head? = some '[' ∧ trimmed.getLast? = some ']' then
    (JsonString.stringArray trimmed).filter (· ≠ [])
  else none

/-- The star at the head is not after a backslash, `previous` being what stands before it. -/
def wildcardFrom (previous : Option Char) : List Char → Bool
  | [] => false
  | c :: cs => (c = '*' && previous ≠ some '\\') || wildcardFrom (some c) cs

def containsUnescapedWildcard (s : List Char) : Bool := wildcardFrom none s

/-- What `.` does not match. -/
def isLineTerminator (c : Char) : Bool :=
  c = '\n' || c = '\r' || c = '\u2028' || c = '\u2029'

/-- The group of `/^(.+):\*$/` -/
def prefixMatch (ruleContent : List Char) : Option (List Char) :=
  if [':', '*'] <:+ ruleContent then
    some (ruleContent.take (ruleContent.length - 2)) |>.filter fun text =>
      text ≠ [] && text.all fun c => !isLineTerminator c
  else none

def parseShellRule (ruleContent : String) : ShellPermissionRule :=
  match tryDecodeArgvPrefix ruleContent with
  | some argv => .argvPrefix argv
  | none =>
    match (prefixMatch ruleContent.toList).filter fun text => !containsUnescapedWildcard text with
    | some text => .commandPrefix (String.ofList text)
    | none =>
      if containsUnescapedWildcard ruleContent.toList then .wildcard ruleContent
      else .exact ruleContent

/-! ### Regular expressions -/

inductive RegExpTerm
  | char (c : Char)
  /-- `.*` -/
  | any
  deriving DecidableEq

/-- The characters that mean something in the source of a regular expression. -/
def syntaxCharacters : List Char := "\\*.+?^$\x7b\x7d()|[]".toList

/-- The source after its `^`, up to the `$` at its end. -/
def regExpTerms : List Char → Option (List RegExpTerm)
  | ['$'] => some []
  | '\\' :: c :: source =>
    if c ∈ syntaxCharacters then (regExpTerms source).map (.char c :: ·) else none
  | '.' :: '*' :: source => (regExpTerms source).map (.any :: ·)
  | c :: source => if c ∈ syntaxCharacters then none else (regExpTerms source).map (.char c :: ·)
  | [] => none

/-- `.*` before what else is matched. -/
def matchAny (rest : List Char → Bool) : List Char → Bool
  | [] => rest []
  | c :: cs => rest (c :: cs) || (!isLineTerminator c && matchAny rest cs)

structure RegExpPlatform where
  /-- `Canonicalize` under the flag `i` -/
  canonicalize : Char → Char
  /-- `new RegExp(source, 'i')` by what it tests, unless it throws -/
  other : List Char → Option (List Char → Bool)

section

variable (platform : RegExpPlatform)

def testTerms : List RegExpTerm → List Char → Bool
  | [], text => text.isEmpty
  | .char _ :: _, [] => false
  | .char c :: terms, d :: text =>
    platform.canonicalize c = platform.canonicalize d && testTerms terms text
  | .any :: terms, text => matchAny (testTerms terms) text

/-- `new RegExp(source, 'i')`, unless it throws. -/
def regExp (source : List Char) : Option (List Char → Bool) :=
  match source with
  | '^' :: rest =>
    match regExpTerms rest with
    | some terms => some (testTerms platform terms)
    | none => platform.other source
  | _ => platform.other source

/-! ### Wildcards -/

def escapedStarSentinel : List Char := "\x00STAR\x00".toList

def escapedBackslashSentinel : List Char := "\x00BSLASH\x00".toList

/-- `/[.+?^${}()|[\]]/` -/
def isRegexSpecial (c : Char) : Bool := ".+?^$\x7b\x7d()|[]".toList.contains c

def escapeSpecial (c : Char) : List Char := if isRegexSpecial c then ['\\', c] else [c]

/-- The source that a pattern is compiled to. -/
def wildcardSource (pattern : List Char) : List Char :=
  let escaped := replaceText ['\\', '\\'] escapedBackslashSentinel pattern
  let escaped := replaceText ['\\', '*'] escapedStarSentinel escaped
  let escaped := escaped.flatMap escapeSpecial
  let escaped := replaceText ['*'] ['.', '*'] escaped
  let escaped := replaceText escapedStarSentinel ['\\', '*'] escaped
  let escaped := replaceText escapedBackslashSentinel ['\\', '\\'] escaped
  '^' :: escaped ++ ['$']

def compileWildcardPattern (pattern : String) : Option (List Char → Bool) :=
  regExp platform (wildcardSource pattern.toList)

def matchWildcardPattern (command pattern : String) : Bool :=
  (compileWildcardPattern platform pattern).any fun test => test command.toList

/-! ### Matching -/

def matchShellRule (command : String) : ShellPermissionRule → Bool
  | .exact text => command = text
  | .commandPrefix text =>
    command = text || (text.toList ++ [' ']).isPrefixOf command.toList
  | .argvPrefix argv => matchArgvPrefix command argv
  | .wildcard pattern => matchWildcardPattern platform command pattern

end

/-! ### What a pattern says -/

inductive PatternPart
  | literal (c : Char)
  | star
  deriving DecidableEq

/-- The pattern from left to right: a backslash before a backslash or a star makes it literal. -/
def patternParts : List Char → List PatternPart
  | '\\' :: '\\' :: cs => .literal '\\' :: patternParts cs
  | '\\' :: '*' :: cs => .literal '*' :: patternParts cs
  | '*' :: cs => .star :: patternParts cs
  | c :: cs => .literal c :: patternParts cs
  | [] => []

/-- Every backslash makes literal what is after it, or is made literal. -/
def backslashesPaired : List Char → Bool
  | '\\' :: '\\' :: cs => backslashesPaired cs
  | '\\' :: '*' :: cs => backslashesPaired cs
  | c :: cs => c ≠ '\\' && backslashesPaired cs
  | [] => true

/-- The text is the parts with a string of the kind for each star, up to letter case. -/
inductive Fills (canonicalize : Char → Char) (Filling : List Char → Prop) :
    List PatternPart → List Char → Prop
  | nil : Fills canonicalize Filling [] []
  | literal {c d : Char} {parts : List PatternPart} {text : List Char} :
    canonicalize c = canonicalize d → Fills canonicalize Filling parts text →
      Fills canonicalize Filling (.literal c :: parts) (d :: text)
  | star {filling : List Char} {parts : List PatternPart} {text : List Char} :
    Filling filling → Fills canonicalize Filling parts text →
      Fills canonicalize Filling (.star :: parts) (filling ++ text)

def OnOneLine (filling : List Char) : Prop := ∀ c ∈ filling, isLineTerminator c = false

/-- The pattern is a text of one line without an unescaped star, and `:*` after it. -/
def IsPrefixRule (pattern : List Char) : Prop :=
  ∃ text, text ≠ [] ∧ OnOneLine text ∧ .star ∉ patternParts text ∧ pattern = text ++ [':', '*']

end Kinetick.Permission
