import Mathlib.Data.List.Basic

/-!
# How a shell reads a script of plain words

Token recognition and the grammar of lists of simple commands as POSIX has them, up to quote
removal and with no expansion done. First quoting: `marks` finds what each character of a script
is, drops the line continuations and the comments. Then tokens, then commands. A script that does
more than run a list of commands made of words (an expansion, a redirection, a compound command,
an assignment, a reserved word) is no such list, and reads as none.
-/

namespace Kinetick.Shell

/-! ### Quoting -/

/-- A character once quoting is read, or the beginning of a quotation. -/
inductive Mark
  | bare (c : Char)
  | quoted (c : Char)
  | quote
  deriving DecidableEq

inductive Mode
  | bare
  | escaped
  | single
  | double
  | doubleEscaped
  | comment
  deriving DecidableEq

def isBlank (c : Char) : Bool := c = ' ' || c = '\t'

/-- The characters of the operators. -/
def isOperator (c : Char) : Bool := ['&', '|', ';', '<', '>', '(', ')'].contains c

/-- The characters that end a word where they are not quoted. -/
def endsWord (c : Char) : Bool := isBlank c || c = '\n' || isOperator c

/-- What a backslash quotes inside double quotes, next to a newline. -/
def isDoubleQuotable (c : Char) : Bool := ['$', '\x60', '"', '\\'].contains c

/-- `start` holds where no word has begun, which is where a comment may. -/
def marks : Mode → Bool → List Char → Option (List Mark)
  | .bare, _, [] => some []
  | .comment, _, [] => some []
  | _, _, [] => none
  | .bare, start, c :: cs =>
    if c = '\\' then marks .escaped start cs
    else if c = '\'' then (marks .single false cs).map (.quote :: ·)
    else if c = '"' then (marks .double false cs).map (.quote :: ·)
    else if c = '$' ∨ c = '\x60' then none
    else if c = '#' ∧ start then marks .comment true cs
    else (marks .bare (endsWord c) cs).map (.bare c :: ·)
  | .escaped, start, c :: cs =>
    if c = '\n' then marks .bare start cs else (marks .bare false cs).map (.quoted c :: ·)
  | .single, _, c :: cs =>
    if c = '\'' then marks .bare false cs else (marks .single false cs).map (.quoted c :: ·)
  | .double, _, c :: cs =>
    if c = '"' then marks .bare false cs
    else if c = '\\' then marks .doubleEscaped false cs
    else if c = '$' ∨ c = '\x60' then none
    else (marks .double false cs).map (.quoted c :: ·)
  | .doubleEscaped, _, c :: cs =>
    if c = '\n' then marks .double false cs
    else if isDoubleQuotable c then (marks .double false cs).map (.quoted c :: ·)
    else (marks .double false cs).map (.quoted '\\' :: .quoted c :: ·)
  | .comment, _, c :: cs =>
    if c = '\n' then (marks .bare true cs).map (.bare '\n' :: ·) else marks .comment true cs

/-! ### Tokens -/

/-- A word as it is quoted. -/
abbrev Word := List Mark

inductive Token
  | word (w : Word)
  | newline
  /-- `;` or `&` -/
  | separator
  /-- `&&`, `||` or `|`, which a command has to follow -/
  | connective
  | otherOperator
  deriving DecidableEq

/-- The word that has begun, if one has. -/
def flush (word : Option Word) : List Token := (word.map Token.word).toList

/-- The token an operator begins, and whether the character after it is part of it. -/
def operator (c : Char) (next : Option Mark) : Token × Bool :=
  if c = '&' then if next = some (.bare '&') then (.connective, true) else (.separator, false)
  else if c = '|' then (.connective, next = some (.bare '|'))
  else if c = ';' ∧ next ≠ some (.bare ';') then (.separator, false)
  else (.otherOperator, false)

/-- `skip` holds at the second character of an operator. -/
def tokens (skip : Bool) (word : Option Word) : List Mark → List Token
  | [] => flush word
  | .quoted c :: ms => tokens false (some (word.getD [] ++ [.quoted c])) ms
  | .quote :: ms => tokens false (some (word.getD [] ++ [.quote])) ms
  | .bare c :: ms =>
    if skip then tokens false none ms
    else if isBlank c then flush word ++ tokens false none ms
    else if c = '\n' then flush word ++ .newline :: tokens false none ms
    else if isOperator c then
      flush word ++ (operator c ms.head?).1 :: tokens (operator c ms.head?).2 none ms
    else tokens false (some (word.getD [] ++ [.bare c])) ms

/-! ### Commands -/

def reservedWords : List String :=
  ["!", "\x7b", "\x7d", "case", "do", "done", "elif", "else", "esac", "fi", "for", "if", "in", "then",
    "until", "while"]

/-- A reserved word with no quoting in it. -/
def isReserved (w : Word) : Bool := reservedWords.any fun r => w = r.toList.map .bare

def isNameStart (c : Char) : Bool :=
  ('A' ≤ c && c ≤ 'Z') || ('a' ≤ c && c ≤ 'z') || c = '_'

def isNameChar (c : Char) : Bool := isNameStart c || ('0' ≤ c && c ≤ '9')

/-- An unquoted character of the kind. -/
def Mark.isBare (p : Char → Bool) : Mark → Bool
  | bare c => p c
  | _ => false

/-- An unquoted name and an unquoted equals sign. -/
def isAssignment (w : Word) : Bool :=
  w.head?.any (Mark.isBare isNameStart) &&
    (w.dropWhile (Mark.isBare isNameChar)).head? = some (.bare '=')

/-- The arguments of a command whose first word is one. -/
def arguments (words : List Word) : Option (List Word) :=
  if words.head?.any fun w => isReserved w || isAssignment w then none else some words

/-- The commands of a list, `words` being those of the one begun and `required` holding where a
connective asks for one. -/
def commands (words : List Word) (required : Bool) : List Token → Option (List (List Word))
  | [] =>
    if words = [] then if required then none else some []
    else (arguments words).map ([·])
  | .word w :: ts => commands (words ++ [w]) required ts
  | .newline :: ts =>
    if words = [] then commands [] required ts
    else do return (← arguments words) :: (← commands [] false ts)
  | .separator :: ts =>
    if words = [] then none else do return (← arguments words) :: (← commands [] false ts)
  | .connective :: ts =>
    if words = [] then none else do return (← arguments words) :: (← commands [] true ts)
  | .otherOperator :: _ => none

/-- The character, unless it only marks a quotation. -/
def Mark.char : Mark → Option Char
  | bare c => some c
  | quoted c => some c
  | quote => none

/-- What is left of a word once its quotes are removed. -/
def wordText (w : Word) : String := String.ofList (w.filterMap Mark.char)

/-- The argument vectors of the commands a script runs, if it is a list of commands of words. -/
def scriptCommands (script : String) : Option (List (List String)) := do
  let ms ← marks .bare true script.toList
  let cs ← commands [] false (tokens false none ms)
  return cs.map (·.map wordText)

end Kinetick.Shell
