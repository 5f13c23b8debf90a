import Kinetick.Js

/-!
# Scripts of plain words

`bash-ast.ts`: a script is a sequence of plain commands if it has no construct beyond words and
the operators between commands. Three passes read it: one rejects, one cuts at the operators and
one cuts each segment into words. Each keeps the quoting on its own.
-/

namespace Kinetick.Permission

/-- The quoting a pass keeps as it walks over a script. -/
structure QuoteState where
  inSingle : Bool := false
  inDouble : Bool := false
  escaped : Bool := false
  deriving DecidableEq

/-- Where neither a quotation nor an escape is open. -/
abbrev QuoteState.closed : QuoteState := {}

/-- `containsForbiddenConstruct`, with the character before. -/
def containsForbiddenConstruct (state : QuoteState) (before : Option Char) : List Char → Bool
  | [] => state.inSingle || state.inDouble || state.escaped
  | ch :: rest =>
    if state.escaped then
      containsForbiddenConstruct { state with escaped := false } (some ch) rest
    else if ch = '\\' && !state.inSingle then
      containsForbiddenConstruct { state with escaped := true } (some ch) rest
    else if ch = '\'' && !state.inDouble then
      containsForbiddenConstruct { state with inSingle := !state.inSingle } (some ch) rest
    else if ch = '"' && !state.inSingle then
      containsForbiddenConstruct { state with inDouble := !state.inDouble } (some ch) rest
    else if state.inSingle then containsForbiddenConstruct state (some ch) rest
    else if ch = '$' then true
    else if ch = '\x60' then true
    else if state.inDouble then containsForbiddenConstruct state (some ch) rest
    else if ch = '>' || ch = '<' then true
    else if ch = '(' || ch = ')' || ch = '{' || ch = '}' then true
    else if ch = '&' && rest.head? ≠ some '&' && before ≠ some '&' then true
    else containsForbiddenConstruct state (some ch) rest

/-- A list without the elements of a kind at its ends. -/
def strip {α : Type} (q : α → Bool) (l : List α) : List α :=
  ((l.dropWhile q).reverse.dropWhile q).reverse

/-- `text.trim()` -/
def trim (text : List Char) : List Char := strip isJsWhitespace text

/-- `splitTopLevelSegments`; `skip` holds at the second character of an operator. -/
def splitTopLevelSegments (state : QuoteState) (skip : Bool) (segments : List (List Char))
    (current : List Char) : List Char → Option (List (List Char))
  | [] =>
    -- a trailing operator leaves no command after it
    if trim current = [] then if segments.length > 0 then none else some []
    else some (segments ++ [current])
  | ch :: rest =>
    if skip then splitTopLevelSegments state false segments current rest
    else if state.escaped then
      splitTopLevelSegments { state with escaped := false } false segments (current ++ [ch]) rest
    else if ch = '\\' && !state.inSingle then
      splitTopLevelSegments { state with escaped := true } false segments (current ++ [ch]) rest
    else if ch = '\'' && !state.inDouble then
      splitTopLevelSegments { state with inSingle := !state.inSingle } false segments
        (current ++ [ch]) rest
    else if ch = '"' && !state.inSingle then
      splitTopLevelSegments { state with inDouble := !state.inDouble } false segments
        (current ++ [ch]) rest
    else if state.inSingle || state.inDouble then
      splitTopLevelSegments state false segments (current ++ [ch]) rest
    else if (ch = '&' && rest.head? = some '&') || (ch = '|' && rest.head? = some '|') then
      if trim current = [] then none
      else splitTopLevelSegments state true (segments ++ [current]) [] rest
    else if ch = '|' || ch = ';' then
      if trim current = [] then none
      else splitTopLevelSegments state false (segments ++ [current]) [] rest
    else splitTopLevelSegments state false segments (current ++ [ch]) rest

/-- `isWhitespace` -/
def isWhitespace (ch : Char) : Bool := ch.toNat = 32 || (9 ≤ ch.toNat && ch.toNat ≤ 13)

/-- What `flush` leaves: the word that was begun is one of the words. -/
def flushWord (words : List String) (current : List Char) (hasToken : Bool) : List String :=
  if hasToken then words ++ [String.ofList current] else words

/-- `parsePlainCommandWords` -/
def parsePlainCommandWords (state : QuoteState) (words : List String) (current : List Char)
    (hasToken : Bool) : List Char → Option (List String)
  | [] =>
    if state.inSingle || state.inDouble || state.escaped then none
    else some (flushWord words current hasToken)
  | ch :: rest =>
    if state.escaped then
      parsePlainCommandWords { state with escaped := false } words (current ++ [ch]) true rest
    else if ch = '\\' && !state.inSingle then
      parsePlainCommandWords { state with escaped := true } words current true rest
    else if ch = '\'' && !state.inDouble then
      parsePlainCommandWords { state with inSingle := !state.inSingle } words current true rest
    else if ch = '"' && !state.inSingle then
      parsePlainCommandWords { state with inDouble := !state.inDouble } words current true rest
    else if !state.inSingle && !state.inDouble && isWhitespace ch then
      parsePlainCommandWords state (flushWord words current hasToken) [] false rest
    else parsePlainCommandWords state words (current ++ [ch]) true rest

/-- `[A-Za-z_]` -/
def isNameStart (ch : Char) : Bool :=
  ('A' ≤ ch && ch ≤ 'Z') || ('a' ≤ ch && ch ≤ 'z') || ch = '_'

/-- `isAssignmentPrefix`: `/^[A-Za-z_][A-Za-z0-9_]*=/` -/
def isAssignmentPrefix (word : String) : Bool :=
  word.toList.head?.any isNameStart &&
    (word.toList.dropWhile fun ch => isNameStart ch || ('0' ≤ ch && ch ≤ '9')).head? = some '='

/-- The words of one segment, unless it is empty or begins with an assignment. -/
def segmentWords (segment : List Char) : Option (List String) :=
  if trim segment = [] then none
  else match parsePlainCommandWords .closed [] [] false (trim segment) with
    | some (word :: words) => if isAssignmentPrefix word then none else some (word :: words)
    | _ => none

def parseScriptPlainCommands (script : String) : Option (List (List String)) :=
  if containsForbiddenConstruct .closed none script.toList then none
  else match splitTopLevelSegments .closed false [] [] script.toList with
    | none => none
    | some segments => if segments.length = 0 then none else segments.mapM segmentWords

/-- What comes after the last slash, backslashes being slashes: `basename` and
`executableNameLookupKey` -/
def basename (path : String) : String :=
  let normalized := path.toList.map fun ch => if ch = '\\' then '/' else ch
  String.ofList (normalized.reverse.takeWhile (· ≠ '/')).reverse

/-- `KNOWN_SHELLS` -/
def knownShells : List String := ["bash", "zsh", "sh"]

/-- `extractBashCommand`: the script of `bash -lc script` -/
def extractBashCommand : List String → Option String
  | [shell, flag, script] =>
    if flag ≠ "-lc" ∧ flag ≠ "-c" then none
    else if !knownShells.contains (basename shell) then none
    else some script
  | _ => none

def parseShellLcPlainCommands (command : List String) : Option (List (List String)) :=
  (extractBashCommand command).bind parseScriptPlainCommands

/-- `matchArgvPrefix`, of `bash-rule-match.ts` -/
def matchArgvPrefix (command : String) (argv : List String) : Bool :=
  match parseScriptPlainCommands command with
  | some [target] =>
    if argv.length > target.length then false
    else (argv.zip target).all fun (token, word) => token = word
  | _ => false

end Kinetick.Permission
