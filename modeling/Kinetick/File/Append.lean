import Kinetick.Async
import Kinetick.File.Jsonl

/-!
# Appending to a file of JSON lines

An append writes all its records in one write, with a line feed before them where the last line of
the file is not ended. Any call of the file system may fail, and a write may fail after some of its
bytes. Whatever was written is then completed or taken back; where even that fails, the error says
that the append is uncertain.

`FileSystem.May` says what a call may answer and what it leaves of the files, when nobody else
writes to them.
-/

namespace Kinetick

/-- An error of the file system. -/
structure FileError where
  code : String
  deriving DecidableEq

inductive Thrown
  | io (error : FileError)
  | error (message : String)
  | commitUncertain (filePath : String) (cause : Thrown)
  deriving DecidableEq

/-- `O_RDWR | O_APPEND`, `'wx+'`, `'r'` and `'r+'` -/
inductive OpenFlags
  | append
  | exclusive
  | read
  | update
  deriving DecidableEq

/-- A handle stands for the file at the path it was opened with. -/
inductive FileCall
  | mkdir (path : String)
  | openFile (path : String) (flags : OpenFlags)
  | handleStat (path : String)
  | stat (path : String)
  | read (path : String) (length position : ℕ)
  | write (path : String) (bytes : List UInt8)
  | sync (path : String)
  | close (path : String)
  | truncate (path : String) (size : ℕ)
  | link (existing path : String)
  | rm (path : String)

/-- Sizes of files, bytes that were read, and how many were written. -/
@[reducible] def FileCall.Answer : FileCall → Type
  | handleStat _ => ℕ
  | stat _ => ℕ
  | read _ _ _ => List UInt8
  | write _ _ => ℕ
  | _ => Unit

/-- A computation over files. -/
abbrev FileProgram (α : Type) :=
  Async FileCall (fun c => Except FileError c.Answer) Thrown α

namespace FileProgram

variable {α : Type}

/-- Awaits a call of the file system. -/
def call (c : FileCall) : FileProgram c.Answer :=
  Async.ask c fun answer => .ret (answer.mapError .io)

/-- `try { m } finally { cleanup }` -/
def finally' (m : FileProgram α) (cleanup : FileProgram Unit) : FileProgram α := do
  let result ← m.attempt
  cleanup
  match result with
  | .ok a => return a
  | .error e => Async.raise e

/-- `try { m } catch {}` -/
def ignoring (m : FileProgram Unit) : FileProgram Unit := do
  let _ ← m.attempt
  return ()

end FileProgram

namespace Jsonl

open FileProgram

def closeBestEffort (path : String) : FileProgram Unit := ignoring (call (.close path))

def removeBestEffort (path : String) : FileProgram Unit := ignoring (call (.rm path))

def syncDirectoryBestEffort (path : String) : FileProgram Unit := do
  match ← (call (.openFile path .read)).attempt with
  | .error _ => return ()
  | .ok () =>
    ignoring (call (.sync path))
    ignoring (call (.close path))

/-- Nothing if the file is absent. -/
def openExistingAppendTarget (filePath : String) : FileProgram (Option Unit) := do
  match ← (call (.openFile filePath .append)).attempt with
  | .ok () => return some ()
  | .error (.io error) => if error.code = "ENOENT" then return none else Async.raise (.io error)
  | .error e => Async.raise e

/-- Whether the target was created. -/
def publishInitialJsonl (filePath stagingPath : String) (payload : List UInt8) :
    FileProgram Bool := do
  call (.openFile stagingPath .exclusive)
  let staged : FileProgram Unit := do
    let size ← call (.handleStat stagingPath)
    if size ≠ 0 then Async.raise (.error "Exclusive JSONL staging file is not empty")
    else
      let bytesWritten ← call (.write stagingPath payload)
      if bytesWritten ≠ payload.length then
        Async.raise (.error
          s!"Short JSONL append: wrote {bytesWritten} of {payload.length} bytes")
      else
        call (.sync stagingPath)
        call (.close stagingPath)
  match ← staged.attempt with
  | .error e =>
    closeBestEffort stagingPath
    removeBestEffort stagingPath
    Async.raise e
  | .ok () =>
    let linked ← (call (.link stagingPath filePath)).attempt
    removeBestEffort stagingPath
    match linked with
    | .ok () => return true
    | .error (.io error) => if error.code = "EEXIST" then return false else Async.raise (.io error)
    | .error e => Async.raise e

def needsLineBoundary (filePath : String) (fileSize : ℕ) : FileProgram Bool := do
  if fileSize = 0 then return false
  else
    let lastByte ← call (.read filePath 1 (fileSize - 1))
    match lastByte with
    | [byte] => return byte ≠ 10
    | _ => Async.raise (.error "Could not read the JSONL file boundary")

structure AppendAttempt where
  preAppendSize : Option ℕ
  payload : Option (List UInt8)
  error : Option Thrown

/-- The attempt at the write, with how far it got. -/
def attemptAppend (filePath : String) (serialized : List UInt8) : FileProgram AppendAttempt := do
  match ← (call (.handleStat filePath)).attempt with
  | .error e => return { preAppendSize := none, payload := none, error := some e }
  | .ok size =>
    match ← (needsLineBoundary filePath size).attempt with
    | .error e => return { preAppendSize := some size, payload := none, error := some e }
    | .ok boundary =>
      let payload := if boundary then 10 :: serialized else serialized
      let written : FileProgram Unit := do
        let bytesWritten ← call (.write filePath payload)
        if bytesWritten ≠ payload.length then
          Async.raise (.error
            s!"Short JSONL append: wrote {bytesWritten} of {payload.length} bytes")
        else call (.sync filePath)
      match ← written.attempt with
      | .error e => return { preAppendSize := some size, payload := some payload, error := some e }
      | .ok () => return { preAppendSize := some size, payload := some payload, error := none }

/-- The loop of `readRange`: so many reads at most, each of a byte or more. -/
def readFrom (filePath : String) : (reads start length : ℕ) → (contents : List UInt8) →
    FileProgram (List UInt8)
  | 0, _, _, contents => return contents
  | reads + 1, start, length, contents =>
    if length ≤ contents.length then return contents
    else do
      let bytes ← call (.read filePath (length - contents.length) (start + contents.length))
      match bytes with
      | [] => Async.raise (.error "Could not read the appended JSONL bytes")
      | bytes => readFrom filePath reads start length (contents ++ bytes)

def readRange (filePath : String) (start length : ℕ) : FileProgram (List UInt8) := do
  call (.openFile filePath .read)
  finally' (readFrom filePath length start length []) (call (.close filePath))

/-- What `truncateAndSync` does with the open file. -/
def truncateOpened (filePath : String) : (size : Option ℕ) → FileProgram Unit
  | none => call (.sync filePath)
  | some size => do
    call (.truncate filePath size)
    call (.sync filePath)

def truncateAndSync (filePath : String) (size : Option ℕ) : FileProgram Unit := do
  call (.openFile filePath .update)
  finally' (truncateOpened filePath size) (call (.close filePath))

def fileSizeAfterFailure (filePath : String) (preAppendSize : ℕ) : FileProgram ℕ := do
  match ← (call (.stat filePath)).attempt with
  | .ok size => return size
  | .error (.io error) =>
    if preAppendSize = 0 ∧ error.code = "ENOENT" then return 0 else Async.raise (.io error)
  | .error e => Async.raise e

/-- Whether all was written: what was in part is taken back. -/
def completeOrTakeBack (filePath : String) (preAppendSize : ℕ) (payload : List UInt8) :
    FileProgram Bool := do
  let postAppendSize ← fileSizeAfterFailure filePath preAppendSize
  if postAppendSize = preAppendSize then return false
  else if postAppendSize < preAppendSize ∨ payload.length < postAppendSize - preAppendSize then
    Async.raise (.error "JSONL append size is outside the expected payload range")
  else
    let writtenLength := postAppendSize - preAppendSize
    let written ← readRange filePath preAppendSize writtenLength
    if written ≠ payload.take writtenLength then
      Async.raise (.error "JSONL append bytes do not match the expected payload")
    else if writtenLength = payload.length then
      truncateAndSync filePath none
      return true
    else
      truncateAndSync filePath (some preAppendSize)
      return false

def recoverFailedAppend (filePath : String) (preAppendSize : ℕ) (payload : List UInt8) :
    FileProgram Bool := do
  match ← (completeOrTakeBack filePath preAppendSize payload).attempt with
  | .ok committed => return committed
  | .error e => Async.raise (.commitUncertain filePath e)

def recoverAppendFailure (filePath : String) (attempt : AppendAttempt) (error : Thrown) :
    FileProgram Unit := do
  match attempt.preAppendSize, attempt.payload with
  | some preAppendSize, some payload =>
    let committed ← recoverFailedAppend filePath preAppendSize payload
    if committed then return () else Async.raise error
  | _, _ => Async.raise error

def closeAndRecoverAppend (filePath : String) (attempt : AppendAttempt) : FileProgram Unit := do
  match ← (call (.close filePath)).attempt with
  | .ok () =>
    match attempt.error with
    | none => return ()
    | some error => recoverAppendFailure filePath attempt error
  | .error e =>
    closeBestEffort filePath
    recoverAppendFailure filePath attempt (attempt.error.getD e)

/-- The loop that opens the target or creates it, for so many rounds at most: whether it was
opened. -/
def openOrPublish (filePath stagingPath : String) (serialized : List UInt8) :
    (rounds : ℕ) → FileProgram Bool
  | 0 => Async.raise (.error "")
  | rounds + 1 => do
    match ← openExistingAppendTarget filePath with
    | some () => return true
    | none =>
      if ← publishInitialJsonl filePath stagingPath serialized then return false
      else openOrPublish filePath stagingPath serialized rounds

def appendJsonl (format : NumberFormat) (filePath parentPath stagingPath : String) (rounds : ℕ)
    (records : List JsValue) : FileProgram Unit := do
  match serializeRecords format records with
  | .error message => Async.raise (.error message)
  | .ok serialized =>
    if serialized.isEmpty then return ()
    else
      call (.mkdir parentPath)
      if ← openOrPublish filePath stagingPath serialized rounds then
        let attempt ← attemptAppend filePath serialized
        closeAndRecoverAppend filePath attempt
      syncDirectoryBestEffort parentPath

end Jsonl

/-! ## The file system -/

/-- The contents of the files there are. -/
abbrev Files := String → Option (List UInt8)

namespace FileSystem

/-- The file at the path has the contents, the others are as they were. -/
def Writes (files : Files) (path : String) (contents : Option (List UInt8)) (files' : Files) :
    Prop :=
  files' = Function.update files path contents

/-- What a call may answer and leave. -/
def May : (c : FileCall) → Files → Except FileError c.Answer → Files → Prop
  | .openFile path .append, files, .ok _, files' => (files path).isSome ∧ files' = files
  | .openFile path .append, files, .error e, files' =>
    (e.code = "ENOENT" → files path = none) ∧ files' = files
  | .openFile path .exclusive, files, .ok _, files' =>
    files path = none ∧ Writes files path (some []) files'
  | .handleStat path, files, .ok size, files' =>
    (files path).map List.length = some size ∧ files' = files
  | .stat path, files, .ok size, files' =>
    (files path).map List.length = some size ∧ files' = files
  | .stat path, files, .error e, files' =>
    (e.code = "ENOENT" → files path = none) ∧ files' = files
  | .read path length position, files, .ok bytes, files' =>
    (∃ contents, files path = some contents ∧
      bytes <+: (contents.drop position).take length) ∧ files' = files
  | .write path bytes, files, .ok (count : ℕ), files' =>
    ∃ contents, files path = some contents ∧ count ≤ bytes.length ∧
      Writes files path (some (contents ++ bytes.take count)) files'
  | .write path bytes, files, .error _, files' =>
    ∃ contents count, files path = some contents ∧ count ≤ bytes.length ∧
      Writes files path (some (contents ++ bytes.take count)) files'
  | .truncate path size, files, .ok _, files' =>
    ∃ contents, files path = some contents ∧ Writes files path (some (contents.take size)) files'
  | .truncate path size, files, .error _, files' => files' = files ∨
    ∃ contents, files path = some contents ∧ Writes files path (some (contents.take size)) files'
  | .link existing path, files, .ok _, files' =>
    files path = none ∧ (files existing).isSome ∧ Writes files path (files existing) files'
  | .rm path, files, .ok _, files' => Writes files path none files'
  | .rm path, files, .error _, files' => files' = files ∨ Writes files path none files'
  | _, files, _, files' => files' = files

end FileSystem

end Kinetick

/-!
## What an append leaves

A line that is not ended is ended first, and then there is one line for each record.
-/

namespace Kinetick

/-- The error says that the append is uncertain. -/
def Thrown.isUncertain : Thrown → Bool
  | .commitUncertain _ _ => true
  | _ => false

namespace Jsonl

/-- The line feed that the last line of a file still needs. -/
def boundary (contents : List UInt8) : List UInt8 :=
  if contents.isEmpty || contents.getLast? = some 10 then [] else [10]

/-- The lines, each with its line feed. -/
def endedLines (lines : List (List Char)) : List UInt8 :=
  Utf8.encode (String.ofList (lines.flatMap (· ++ ['\n'])))

/-- The contents and one more line for each record, if there are any. -/
def Appended (format : NumberFormat) (records : List JsValue) (contents contents' : List UInt8) :
    Prop :=
  ∃ lines, List.Forall₂ (fun record line => stringify format record = some line) records lines ∧
    contents' = if records.isEmpty then contents
      else contents ++ boundary contents ++ endedLines lines

/-- The reader reads the record's text back, and its decoder makes the answer of it. -/
structure Accepts {α : Type} (format : NumberFormat) (reader : LineReader α) (record : JsValue)
    (answer : α) : Prop where
  parse : ∀ text, stringify format record = some text →
    reader.parse (String.ofList text) = some record.json
  decode : reader.decode record.json = .ok answer

end Jsonl

end Kinetick
