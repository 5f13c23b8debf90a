import Kinetick.Effect
import Kinetick.Js

/-!
# Line numbers of a file read

What is read of a file is shown with a number before each line. An edit whose text was copied with the
numbers is tried once more without them. Texts are lists of characters.
-/

namespace Kinetick

namespace LineNumbers

/-- `READ_MAX_LINE_CHARS` -/
def readMaxLineChars : ℕ := 2000

/-- `READ_LINE_TRUNCATED_SUFFIX` -/
def readLineTruncatedSuffix : List Char := "... (line truncated)".toList

/-- The texts of numbers from `1e21` on, which have an exponent. -/
structure ExponentFormat where
  text : ℕ → List Char
  chars : ∀ n, ∀ c ∈ text n, c.isDigit ∨ c = 'e' ∨ c = '+' ∨ c = '.'
  exponent : ∀ n, 'e' ∈ text n

/-- `lines.join('\n')` -/
def joinLines (lines : List (List Char)) : List Char := ['\n'].intercalate lines

def endsWithNewline (content : List Char) : Bool := content.getLast? = some '\n'

/-- The content without a line feed at its end. -/
def bodyOf (content : List Char) : List Char :=
  if endsWithNewline content then content.dropLast else content

/-- The number the lines are counted from. -/
def baseLine (startLine : ℤ) : ℕ := if 0 < startLine then startLine.toNat else 1

section Numbers

variable (format : ExponentFormat)

/-- `String(n)` -/
def numeral (n : ℕ) : List Char := if n < 10 ^ 21 then Nat.toDigits 10 n else format.text n

def numberedLine (n : ℕ) (line : List Char) : List Char :=
  let numStr := numeral format n
  if 6 ≤ numStr.length then numStr ++ '→' :: line
  else List.replicate (6 - numStr.length) ' ' ++ numStr ++ '→' :: line

/-- The lines with their numbers, from `n` on. -/
def numberLines : (n : ℕ) → List (List Char) → List (List Char)
  | _, [] => []
  | n, line :: lines => numberedLine format n line :: numberLines (n + 1) lines

def addLineNumbers (content : List Char) (startLine : ℤ) : List Char :=
  if content = [] then content
  else
    let numbered := joinLines (numberLines format (baseLine startLine)
      ((bodyOf content).splitOn '\n'))
    if endsWithNewline content then numbered ++ ['\n'] else numbered

end Numbers

/-! ## Long lines -/

/-- `line.length` -/
def utf16Length : List Char → ℕ
  | [] => 0
  | c :: cs => (if c.toNat < 0x10000 then 1 else 2) + utf16Length cs

/-- The line cut short, if it is too long. -/
def truncateLine (maxChars : ℕ) (line : List Char) : Option (List Char) :=
  if utf16Length line ≤ maxChars then none
  else if line.length ≤ maxChars then none
  else some (line.take maxChars ++ readLineTruncatedSuffix)

structure LongLineTruncationResult where
  text : List Char
  truncatedLines : List ℕ

def truncateLongLines (content : List Char) (maxChars : ℕ) (startLine : ℤ) :
    LongLineTruncationResult :=
  if content = [] then { text := content, truncatedLines := [] }
  else
    let lines := content.splitOn '\n'
    { text := joinLines (lines.map fun line => (truncateLine maxChars line).getD line)
      truncatedLines := (lines.zipIdx (baseLine startLine)).filterMap fun (line, n) =>
        (truncateLine maxChars line).map fun _ => n }

/-! ## The numbers dropped again -/

/-- A character that `.` does not match. -/
def isLineTerminator (c : Char) : Bool :=
  c = '\n' || c = '\r' || c.toNat = 0x2028 || c.toNat = 0x2029

/-- `line.match(/^\s*\d+[→\t](.*)$/)`, of which the text behind the prefix. -/
def matchPrefix (line : List Char) : Option (List Char) :=
  let digits := (line.dropWhile isJsWhitespace).takeWhile Char.isDigit
  match (line.dropWhile isJsWhitespace).dropWhile Char.isDigit with
  | separator :: text =>
    if digits ≠ [] ∧ (separator = '→' ∨ separator = '\t') ∧ text.all (!isLineTerminator ·) then
      some text
    else none
  | [] => none

/-- The lines stripped and whether one had a prefix, unless one that is not empty has none. -/
def stripLines : List (List Char) → (sawPrefix : Bool) → (stripped : List (List Char)) →
    Option (List (List Char) × Bool)
  | [], sawPrefix, stripped => some (stripped, sawPrefix)
  | line :: lines, sawPrefix, stripped =>
    if line = [] then stripLines lines sawPrefix (stripped ++ [line])
    else
      match matchPrefix line with
      | none => none
      | some text => stripLines lines true (stripped ++ [text])

def stripLineNumberPrefixesFromBlock (text : List Char) : Option (List Char) :=
  if text = [] then none
  else
    match stripLines (text.splitOn '\n') false [] with
    | some (stripped, true) => some (joinLines stripped)
    | _ => none

/-! ## The retry of an edit -/

structure EditReplacement where
  oldText : List Char
  newText : List Char
  deriving DecidableEq

/-- The input of the tool, whose edits may be no array. -/
structure EditInput where
  path : List Char
  edits : Option (List EditReplacement)

def normalizeEdit (edit : EditReplacement) : EditReplacement where
  oldText := (stripLineNumberPrefixesFromBlock edit.oldText).getD edit.oldText
  newText := (stripLineNumberPrefixesFromBlock edit.newText).getD edit.newText

def normalizeEditsForLineNumberRetry (edits : List EditReplacement) :
    Option (List EditReplacement) :=
  let changed := edits.any fun edit =>
    (normalizeEdit edit).oldText ≠ edit.oldText || (normalizeEdit edit).newText ≠ edit.newText
  if changed then some (edits.map normalizeEdit) else none

structure AgentToolResult where
  content : JsValue
  details : JsValue

/-- The result of a retry, which says so in its details. -/
def AgentToolResult.stripped (result : AgentToolResult) : AgentToolResult :=
  { result with
    details := (result.details.orElse (.object [])).set "line_number_prefixes_stripped"
      (.boolean true) }

section Retry

variable {σ ε : Type} (execute : EditInput → Effect σ ε AgentToolResult) (aborted : σ → Bool)

/-- What the second call comes to, after the error of the first. -/
def retryEdit (input : EditInput) (normalized : List EditReplacement) (originalError : ε) :
    Effect σ ε AgentToolResult := do
  match ← (execute { input with edits := some normalized }).attempt with
  | .ok result => return result.stripped
  | .error _ => Effect.raise originalError

def executeEditWithLineNumberRetry (input : EditInput) : Effect σ ε AgentToolResult := do
  match ← (execute input).attempt with
  | .ok result => return result
  | .error originalError =>
    if ← Effect.read aborted then Effect.raise originalError
    else
      match input.edits.bind normalizeEditsForLineNumberRetry with
      | none => Effect.raise originalError
      | some normalized => retryEdit execute input normalized originalError

end Retry

/-! ## What is promised -/

/-- The lines of a text. -/
def fileLines (content : List Char) : List (List Char) :=
  if content = [] then [] else (bodyOf content).splitOn '\n'

/-- Lines as a text, with a line feed behind the last or without. -/
def blockOf (lines : List (List Char)) (newline : Bool) : List Char :=
  joinLines lines ++ if newline then ['\n'] else []

/-- Consecutive lines of a file that is read from a line on, none of them too long. -/
structure ReadBlock where
  content : List Char
  startLine : ℤ
  first : ℕ
  count : ℕ
  newline : Bool
  startLine_pos : 1 ≤ startLine
  count_pos : 0 < count
  within : first + count ≤ (fileLines content).length
  short : ∀ line ∈ ((fileLines content).drop first).take count, line.length ≤ readMaxLineChars

namespace ReadBlock

variable (block : ReadBlock)

def lines : List (List Char) := ((fileLines block.content).drop block.first).take block.count

/-- The text of the block in the file. -/
def text : List Char := blockOf block.lines block.newline

/-- The rows that are shown of the file. -/
def rows (format : ExponentFormat) : List (List Char) :=
  fileLines (addLineNumbers format
    (truncateLongLines block.content readMaxLineChars block.startLine).text block.startLine)

/-- The rows that are shown of the block. -/
def shown (format : ExponentFormat) : List Char :=
  blockOf (((block.rows format).drop block.first).take block.count) block.newline

/-- The number of its last line. -/
def lastLine : ℤ := block.startLine + block.first + block.count - 1

end ReadBlock

/-- The line has a number before it. -/
def Prefixed (line : List Char) : Prop :=
  ∃ blanks digits separator text, line = blanks ++ digits ++ separator :: text ∧
    (∀ c ∈ blanks, isJsWhitespace c = true) ∧ digits ≠ [] ∧ (∀ c ∈ digits, c.isDigit = true) ∧
      (separator = '→' ∨ separator = '\t')

/-- Each line of the text that is not empty has a number before it. -/
def EveryLinePrefixed (text : List Char) : Prop :=
  ∀ line ∈ text.splitOn '\n', line ≠ [] → Prefixed line

/-- Texts of edits change only where each of their lines had a number. -/
def ChangesOnlyPrefixed : Prop :=
  ∀ edits normalized, normalizeEditsForLineNumberRetry edits = some normalized →
    List.Forall₂ (fun (edit edit' : EditReplacement) =>
      (edit'.oldText ≠ edit.oldText → EveryLinePrefixed edit.oldText) ∧
        (edit'.newText ≠ edit.newText → EveryLinePrefixed edit.newText)) edits normalized

/-- An edit that fails is answered with its own error, or with what another call answered. -/
def ReportsFirstError : Prop :=
  ∀ (σ ε : Type) (execute : EditInput → Effect σ ε AgentToolResult) (aborted : σ → Bool)
    (input : EditInput) (s s' : σ) (e e' : ε), execute input s = (.error e, s') →
      (executeEditWithLineNumberRetry execute aborted input s).1 = .error e' → e' = e

/-- An edit of the shown text that fails is tried again with the text of the file. -/
def RetriesWith (shown text : List Char) : Prop :=
  ∀ (σ ε : Type) (execute : EditInput → Effect σ ε AgentToolResult) (aborted : σ → Bool)
    (input : EditInput) (edits : List EditReplacement) (index : ℕ) (edit : EditReplacement)
    (s s' : σ) (e : ε), input.edits = some edits → edits[index]? = some edit →
      edit.oldText = shown → execute input s = (.error e, s') → aborted s' = false →
        ∃ edits' edit', edits'[index]? = some edit' ∧ edit'.oldText = text ∧
          executeEditWithLineNumberRetry execute aborted input s =
            retryEdit execute input edits' e s'

/-- What is read of the block is found by an edit. -/
structure ReadIsFound (format : ExponentFormat) (block : ReadBlock) : Prop where
  stripped : stripLineNumberPrefixesFromBlock (block.shown format) = some block.text
  retried : RetriesWith (block.shown format) block.text
  changes : ChangesOnlyPrefixed
  reports : ReportsFirstError

end LineNumbers

end Kinetick
