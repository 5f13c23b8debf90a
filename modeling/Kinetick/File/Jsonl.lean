import Kinetick.Js
import Kinetick.Utf8

/-!
# Files of JSON lines

A file holds a JSON text in each line. Records are written as JSON texts, each ended by a line feed;
a strict reader throws at the first line it cannot read, a tolerant one reports it and goes on. The
cached reader reads the lines after the longest part of the file that it knows already, and keeps at
most four mebibytes of it.
-/

namespace Kinetick

namespace Jsonl

/-! ## JSON texts -/

/-- The texts of finite numbers. -/
structure NumberFormat where
  text : ℚ → String
  chars : ∀ q, ∀ c ∈ (text q).toList, c ∈ "0123456789+-.e".toList
  nonempty : ∀ q, (text q).toList ≠ []

def hexDigits : List Char := "0123456789abcdef".toList

def hexDigit (n : ℕ) : Char := hexDigits[n]?.getD '0'

/-- A character of a string in JSON. -/
def quoteChar (c : Char) : List Char :=
  if c = '"' then ['\\', '"']
  else if c = '\\' then ['\\', '\\']
  else if c.toNat = 8 then ['\\', 'b']
  else if c.toNat = 12 then ['\\', 'f']
  else if c.toNat = 10 then ['\\', 'n']
  else if c.toNat = 13 then ['\\', 'r']
  else if c.toNat = 9 then ['\\', 't']
  else if c.toNat < 32 then
    ['\\', 'u', '0', '0', hexDigit (c.toNat / 16), hexDigit (c.toNat % 16)]
  else [c]

def quote (text : String) : List Char := '"' :: text.toList.flatMap quoteChar ++ ['"']

/-- `texts.join(',')` between the two characters. -/
def enclosed (first last : Char) (texts : List (List Char)) : List Char :=
  first :: ((texts.intersperse [',']).flatten ++ [last])

section Stringify

variable (format : NumberFormat)

mutual

/-- `JSON.stringify(value)` -/
def stringify : JsValue → Option (List Char)
  | .undefined => none
  | .null => some "null".toList
  | .boolean true => some "true".toList
  | .boolean false => some "false".toList
  | .number (.finite q) => some (format.text q).toList
  | .number _ => some "null".toList
  | .string text => some (quote text)
  | .array elements => some (enclosed '[' ']' (stringifyElements elements))
  | .object fields => some (enclosed '\x7b' '\x7d' (stringifyFields fields))

def stringifyElements : List JsValue → List (List Char)
  | [] => []
  | v :: elements => (stringify v).getD "null".toList :: stringifyElements elements

def stringifyFields : List (String × JsValue) → List (List Char)
  | [] => []
  | (key, v) :: fields =>
    match stringify v with
    | none => stringifyFields fields
    | some text => (quote key ++ ':' :: text) :: stringifyFields fields

end

end Stringify

/-! ## Serializing -/

def jsonSerializationError {α : Type} (reason : String) : Except String α :=
  .error s!"JSONL records must be JSON-serializable values: {reason}"

mutual

def assertJsonSerializable (value : JsValue) (path : String) : Except String Unit :=
  match value with
  | .undefined => jsonSerializationError s!"{path} is not a JSON value"
  | .null => .ok ()
  | .boolean _ => .ok ()
  | .string _ => .ok ()
  | .number n => if n.isFinite then .ok () else jsonSerializationError s!"{path} is not finite"
  | .array elements => assertJsonArray elements path 0
  | .object fields => assertPlainJsonObject fields path

def assertJsonArray (elements : List JsValue) (path : String) (index : ℕ) : Except String Unit :=
  match elements with
  | [] => .ok ()
  | value :: elements => do
    assertJsonSerializable value s!"{path}[{index}]"
    assertJsonArray elements path (index + 1)

def assertPlainJsonObject (fields : List (String × JsValue)) (path : String) :
    Except String Unit :=
  match fields with
  | [] => .ok ()
  | (key, value) :: fields => do
    assertJsonSerializable value s!"{path}.{key}"
    assertPlainJsonObject fields path

end

/-- The lines of the records from the index on. -/
def serializeFrom (format : NumberFormat) :
    (index : ℕ) → List JsValue → Except String (List (List Char))
  | _, [] => .ok []
  | index, record :: records => do
    assertJsonSerializable record s!"record {index + 1}"
    match stringify format record with
    | none => jsonSerializationError s!"record {index + 1}"
    | some line =>
      let lines ← serializeFrom format (index + 1) records
      return line :: lines

/-- `lines.join('\n')` and a line feed after the last, as bytes. -/
def serializeRecords (format : NumberFormat) (records : List JsValue) :
    Except String (List UInt8) := do
  let lines ← serializeFrom format 0 records
  return Utf8.encode (String.ofList (lines.flatMap (· ++ ['\n'])))

/-! ## Reading -/

structure JsonlMalformedLine where
  path : String
  lineNo : ℕ
  reason : String
  deriving DecidableEq

def malformedLineError (line : JsonlMalformedLine) : String :=
  s!"Malformed JSONL in {line.path} at line {line.lineNo}: {line.reason}"

/-- What a reader makes of the lines of a file. `parse` is `JSON.parse`. -/
structure LineReader (α : Type) where
  parse : String → Option JsValue
  decode : JsValue → Except String α

variable {α : Type} (reader : LineReader α)

def parseJsonLine (line : String) : Except String JsValue :=
  match reader.parse line with
  | none => .error "invalid JSON"
  | some value => .ok value

def readLine (line : String) : Except String α :=
  if jsTrim line = "" then .error "blank line"
  else do
    let value ← parseJsonLine reader line
    reader.decode value

/-- `contents.split('\n')`, less a last one that is empty. -/
def linesOf (contents : String) : List String :=
  let lines := (contents.toList.splitOn '\n').map String.ofList
  if lines.getLast? = some "" then lines.dropLast else lines

/-- The records of the lines from a line number on, and the lines that are malformed. -/
def readTolerantly (path : String) : (lineNo : ℕ) → List String → List α × List JsonlMalformedLine
  | _, [] => ([], [])
  | lineNo, line :: lines =>
    let (records, malformed) := readTolerantly path (lineNo + 1) lines
    match readLine reader line with
    | .ok record => (record :: records, malformed)
    | .error reason => (records, { path, lineNo, reason } :: malformed)

def readStrictly (path : String) : (lineNo : ℕ) → List String → Except String (List α)
  | _, [] => .ok []
  | lineNo, line :: lines =>
    match readLine reader line with
    | .error reason => .error (malformedLineError { path, lineNo, reason })
    | .ok record => do
      let records ← readStrictly path (lineNo + 1) lines
      return record :: records

/-- `readJsonl` with an observer of malformed lines. -/
def readJsonl (path : String) (bytes : List UInt8) : List α × List JsonlMalformedLine :=
  readTolerantly reader path 1 (linesOf (Utf8.decode bytes))

/-- `readJsonl` without one. -/
def readJsonlStrict (path : String) (bytes : List UInt8) : Except String (List α) :=
  readStrictly reader path 1 (linesOf (Utf8.decode bytes))

end Jsonl

end Kinetick
