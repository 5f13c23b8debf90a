import Kinetick.Permission.BashAst
import Kinetick.Shell.Posix

/-!
# The read-only whitelist

`safe-command.ts`: the commands that are known to only read, and the options that make some of
them write or execute.
-/

namespace Kinetick.Permission

/-- `executableNameLookupKey` -/
def executableNameLookupKey (raw : String) : Option String :=
  if basename raw = "" then none else some (basename raw)

/-- `ALWAYS_SAFE_COMMANDS` -/
def alwaysSafeCommands : List String :=
  ["cat", "cd", "cut", "echo", "expr", "false", "grep", "head", "id", "ls", "nl", "paste", "pwd",
    "rev", "seq", "stat", "tail", "tr", "true", "uname", "uniq", "wc", "which", "whoami"]

def isSafeBase64 (command : List String) : Bool :=
  !(command.drop 1).any fun arg =>
    ["-o", "--output"].contains arg || arg.startsWith "--output=" ||
      (arg.startsWith "-o" && arg ≠ "-o")

def unsafeFindOptions : List String :=
  ["-exec", "-execdir", "-ok", "-okdir", "-delete", "-fls", "-fprint", "-fprint0", "-fprintf"]

def isSafeFind (command : List String) : Bool := !command.any unsafeFindOptions.contains

def isSafeRipgrep (command : List String) : Bool :=
  !command.any fun arg =>
    ["--search-zip", "-z"].contains arg ||
      ["--pre", "--hostname-bin"].any fun opt => arg = opt || arg.startsWith (opt ++ "=")

/-- `isValidSedNArg`: `/^(\d+,)?\d+p$/` -/
def isValidSedNArg (arg : Option String) : Bool :=
  match arg with
  | none => false
  | some arg =>
    if !arg.endsWith "p" then false
    else
      let isNum (s : List Char) : Bool := s.length > 0 && s.all fun c => '0' ≤ c && c ≤ '9'
      match arg.toList.dropLast.splitOn ',' with
      | [part] => isNum part
      | [first, last] => isNum first && isNum last
      | _ => false

def isSafeSed (command : List String) : Bool :=
  command.length ≤ 4 && command[1]? = some "-n" && isValidSedNArg command[2]?

/-! ### git -/

/-- `GIT_READ_ONLY_SUBCOMMANDS` -/
def gitReadOnlySubcommands : List String := ["status", "log", "diff", "show", "branch"]

inductive GitOptionPattern
  | exact (option : String)
  | shortInline (option : String)
  | startsWith (text : String)
  deriving DecidableEq

def unsafeGitGlobalOptions : List GitOptionPattern :=
  [.exact "-C", .shortInline "-C", .exact "-c", .shortInline "-c", .exact "-p",
    .exact "--config-env", .startsWith "--config-env=", .exact "--exec-path",
    .startsWith "--exec-path=", .exact "--git-dir", .startsWith "--git-dir=", .exact "--namespace",
    .startsWith "--namespace=", .exact "--paginate", .exact "--super-prefix",
    .startsWith "--super-prefix=", .exact "--work-tree", .startsWith "--work-tree="]

def unsafeGitSubcommandOptions : List GitOptionPattern :=
  [.exact "--output", .startsWith "--output=", .exact "--ext-diff", .exact "--textconv",
    .exact "--exec", .startsWith "--exec="]

def gitOptionMatches (arg : String) : GitOptionPattern → Bool
  | .exact option => arg = option
  | .shortInline option => arg.startsWith option && arg.length > option.length
  | .startsWith text => arg.startsWith text

def gitMatchesAny (arg : String) (patterns : List GitOptionPattern) : Bool :=
  patterns.any (gitOptionMatches arg)

def isGitGlobalOptionWithValue (arg : String) : Bool :=
  ["-C", "-c", "--config-env", "--exec-path", "--git-dir", "--namespace", "--super-prefix",
    "--work-tree"].contains arg

def isGitGlobalOptionWithInlineValue (arg : String) : Bool :=
  arg.startsWith "--config-env=" || arg.startsWith "--exec-path=" || arg.startsWith "--git-dir=" ||
    arg.startsWith "--namespace=" || arg.startsWith "--super-prefix=" ||
    arg.startsWith "--work-tree=" || ((arg.startsWith "-C" || arg.startsWith "-c") && arg.length > 2)

/-- The global arguments, the subcommand and its arguments, if it is one of those asked for. -/
def findGitSubcommand (subcommands : List String) (skipNext : Bool) (globalArgs : List String) :
    List String → Option (List String × String × List String)
  | [] => none
  | arg :: args =>
    if skipNext then findGitSubcommand subcommands false (globalArgs ++ [arg]) args
    else if isGitGlobalOptionWithInlineValue arg then
      findGitSubcommand subcommands false (globalArgs ++ [arg]) args
    else if isGitGlobalOptionWithValue arg then
      findGitSubcommand subcommands true (globalArgs ++ [arg]) args
    else if arg = "--" || arg.startsWith "-" then
      findGitSubcommand subcommands false (globalArgs ++ [arg]) args
    else if subcommands.contains arg then some (globalArgs, arg, args)
    else none

def gitSubcommandArgsAreReadOnly (args : List String) : Bool :=
  !args.any fun arg => gitMatchesAny arg unsafeGitSubcommandOptions

def gitBranchReadOnlyFlags : List String :=
  ["--list", "-l", "--show-current", "-a", "--all", "-r", "--remotes", "-v", "-vv", "--verbose"]

/-- Every argument is a flag that only lists; with none the branches are listed. -/
def gitBranchIsReadOnly (branchArgs : List String) : Bool :=
  branchArgs.all fun arg => gitBranchReadOnlyFlags.contains arg || arg.startsWith "--format="

def isSafeGitCommand (command : List String) : Bool :=
  match findGitSubcommand gitReadOnlySubcommands false [] (command.drop 1) with
  | none => false
  | some (globalArgs, subcommand, subArgs) =>
    if globalArgs.any fun arg => gitMatchesAny arg unsafeGitGlobalOptions then false
    else if subcommand = "branch" then
      gitSubcommandArgsAreReadOnly subArgs && gitBranchIsReadOnly subArgs
    else gitSubcommandArgsAreReadOnly subArgs

/-! ### The whitelist -/

def isSafeToCallWithExec (command : List String) : Bool :=
  match command.head?.bind executableNameLookupKey with
  | none => false
  | some key =>
    if alwaysSafeCommands.contains key then true
    else if key = "base64" then isSafeBase64 command
    else if key = "find" then isSafeFind command
    else if key = "rg" then isSafeRipgrep command
    else if key = "git" then isSafeGitCommand command
    else if key = "sed" then isSafeSed command
    else false

def isKnownSafeCommand (command : List String) : Bool :=
  let normalized := command.map fun token => if token = "zsh" then "bash" else token
  if isSafeToCallWithExec normalized then true
  else match parseShellLcPlainCommands normalized with
    | some allCommands => allCommands.length > 0 && allCommands.all isSafeToCallWithExec
    | none => false

end Kinetick.Permission

/-!
## Scripts whose words are what the shell runs

A script that parses as plain commands is cut into pieces by its quoting and into segments by its
operators. It is plain if no segment has a line break, a line continuation, a comment, a lone
ampersand, a backslash that double quotes keep, white space that only the shell takes for part of
a word, or a reserved word for its command. Those are the scripts whose parsed commands are the
ones the shell runs.
-/

namespace Kinetick.Permission

open Kinetick.Shell (Mark isBlank endsWord isDoubleQuotable reservedWords scriptCommands)

/-! ### Pieces of a script -/

/-- A character inside double quotes, with or without a backslash before it. -/
structure DoubleChar where
  escaped : Bool
  char : Char
  deriving DecidableEq

inductive Piece
  | bare (c : Char)
  | escaped (c : Char)
  | single (cs : List Char)
  | double (cs : List DoubleChar)
  deriving DecidableEq

def DoubleChar.text (d : DoubleChar) : List Char :=
  if d.escaped then ['\\', d.char] else [d.char]

def Piece.text : Piece → List Char
  | bare c => [c]
  | escaped c => ['\\', c]
  | single cs => '\'' :: cs ++ ['\'']
  | double cs => '"' :: cs.flatMap DoubleChar.text ++ ['"']

/-- The text of the piece reads as the piece. -/
def Piece.WellFormed : Piece → Prop
  | bare c => c ≠ '\\' ∧ c ≠ '\'' ∧ c ≠ '"'
  | escaped _ => True
  | single cs => '\'' ∉ cs
  | double cs => ∀ c, ⟨false, c⟩ ∈ cs → c ≠ '"' ∧ c ≠ '\\'

/-- Nothing but words and operators: no expansion, no redirection, no group. -/
def Piece.Allowed : Piece → Prop
  | bare c => c ∉ ['$', '\x60', '<', '>', '(', ')', '{', '}']
  | double cs => ∀ c, ⟨false, c⟩ ∈ cs → c ≠ '$' ∧ c ≠ '\x60'
  | _ => True

abbrev Segment := List Piece

/-- Pieces that read as they are, of words and operators. -/
def AllowedPieces (ps : Segment) : Prop := ∀ p ∈ ps, p.WellFormed ∧ p.Allowed

def Segment.text (segment : Segment) : List Char := segment.flatMap Piece.text

/-- A blank or a line break between words. -/
def Piece.isLayout : Piece → Bool
  | bare c => isBlank c || c = '\n'
  | _ => false

/-- The segment without the blanks and the line breaks at its ends. -/
def Segment.core (segment : Segment) : Segment := strip Piece.isLayout segment

/-- No comment begins in the segment, `start` holding where one could. -/
def Segment.commentFree (start : Bool) : Segment → Bool
  | [] => true
  | .bare c :: ps => !(c = '#' && start) && commentFree (endsWord c) ps
  | .escaped c :: ps => commentFree (start && c = '\n') ps
  | _ :: ps => commentFree false ps

/-- The pieces of the first word. -/
def Segment.firstWord (segment : Segment) : Segment :=
  segment.core.takeWhile fun p => !p.isLayout

/-! ### Plain scripts -/

structure PlainSegment (last : Bool) (segment : Segment) : Prop where
  allowed : AllowedPieces segment
  /-- A command is there. -/
  nonempty : segment.core ≠ []
  /-- Nothing is an operator, which a lone ampersand would be. -/
  operatorFree : ∀ c, .bare c ∈ segment → c ≠ '&' ∧ c ≠ '|' ∧ c ≠ ';'
  /-- The command is on one line: only the last may have line breaks after it. -/
  oneLine : .bare '\n' ∉ if last then segment.core else segment.dropWhile Piece.isLayout
  /-- No line is continued. -/
  noContinuation : .escaped '\n' ∉ segment ∧ ∀ cs, .double cs ∈ segment → ⟨true, '\n'⟩ ∉ cs
  /-- In double quotes a backslash stands where it quotes. -/
  quotesOnly : ∀ cs, .double cs ∈ segment → ∀ c, ⟨true, c⟩ ∈ cs → isDoubleQuotable c
  /-- White space that a shell does not split at is not split at either. -/
  noControl : ∀ c, .bare c ∈ segment → isWhitespace c → isBlank c ∨ c = '\n'
  noTrimmed : ∀ c, segment.core.head? = some (.bare c) ∨ segment.core.getLast? = some (.bare c) →
    isJsWhitespace c = false
  noComment : segment.commentFree true
  noReserved : ∀ r ∈ reservedWords, segment.firstWord ≠ r.toList.map .bare

/-- The operators between plain commands. -/
def operators : List (List Char) := [['&', '&'], ['|', '|'], ['|'], [';']]

/-- A script that plain segments and the operators between them make. -/
inductive Plain : List Char → Prop
  | last {segment : Segment} (plain : PlainSegment true segment) : Plain segment.text
  | cons {segment : Segment} {operator rest : List Char} (plain : PlainSegment false segment)
      (mem : operator ∈ operators) (tail : Plain rest) : Plain (segment.text ++ (operator ++ rest))

/-- What a script parses as is what the shell runs, and so what is decided by it is decided by
what the shell runs. -/
structure WordOnly (script : String) : Prop where
  sound : ∀ commands, parseScriptPlainCommands script = some commands →
    scriptCommands script = some commands
  knownSafe : isKnownSafeCommand ["bash", "-lc", script] → ∃ commands,
    scriptCommands script = some commands ∧ ∀ command ∈ commands, isSafeToCallWithExec command
  argvPrefix : ∀ argv, matchArgvPrefix script argv → ∃ command,
    scriptCommands script = some [command] ∧ argv <+: command

end Kinetick.Permission
