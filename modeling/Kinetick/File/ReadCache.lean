import Kinetick.File.Jsonl

/-!
# Cached reads of JSON lines

A cached reader keeps the bytes and the records of its last read. When a file begins with them it
decodes only the lines after them. It keeps no more than four mebibytes of a file. Arrays are told
apart by their identity, and decoding may have effects on a state.
-/

namespace Kinetick

namespace Jsonl

/-- A frozen array of records. -/
structure RecordArray (α : Type) where
  identity : ℕ
  records : List α

structure JsonlReadCache (α : Type) where
  bytes : List UInt8
  records : RecordArray α

/-- A reader of lines whose decoding has effects. `parse` is `JSON.parse`. -/
structure EffectReader (σ α : Type) where
  parse : String → Option JsValue
  decode : JsValue → σ → Except String α × σ

variable {σ α : Type} (reader : EffectReader σ α)

def readLineIn (line : String) (s : σ) : Except String α × σ :=
  if jsTrim line = "" then (.error "blank line", s)
  else match reader.parse line with
  | none => (.error "invalid JSON", s)
  | some value => reader.decode value s

/-- What is read so far, and what of it may be retained. -/
structure ReadProgress (α : Type) where
  records : List α
  offset : ℕ
  retainedEnd : ℕ
  retainedRecords : ℕ

/-- `4 * 1024 * 1024` -/
def retainLimit : ℕ := 4194304

/-- The progress after a line: its length, and whether a line feed ends it. -/
def ReadProgress.advance (progress : ReadProgress α) (record : α) (length : ℕ) (ended : Bool) :
    ReadProgress α :=
  let records := progress.records ++ [record]
  let offset := progress.offset + length + (if ended then 1 else 0)
  if ended && decide (offset ≤ retainLimit) then
    { records, offset, retainedEnd := offset, retainedRecords := records.length }
  else { progress with records, offset }

/-- The lines of the bytes, and whether a line feed ends them. -/
def splitLines : List UInt8 → List (List UInt8 × Bool)
  | [] => []
  | b :: bytes =>
    if b = 10 then ([], true) :: splitLines bytes
    else match splitLines bytes with
    | [] => [([b], false)]
    | (line, ended) :: lines => (b :: line, ended) :: lines

/-- The loop over the lines that are left. -/
def readRest (path : String) : List (List UInt8 × Bool) → ReadProgress α → σ →
    Except String (ReadProgress α) × σ
  | [], progress, s => (.ok progress, s)
  | (line, ended) :: lines, progress, s =>
    match readLineIn reader (Utf8.decode line) s with
    | (.error reason, s) =>
      (.error (malformedLineError { path, lineNo := progress.records.length + 1, reason }), s)
    | (.ok record, s) => readRest path lines (progress.advance record line.length ended) s

/-- Whether the file begins with the lines of the cache. -/
def reusesCache (bytes cached : List UInt8) : Bool :=
  cached.getLast? = some 10 && cached.length ≤ bytes.length && bytes.take cached.length = cached

/-- A new array has the identity, and a copy of its beginning the next one. -/
def readCachedJsonl (path : String) (bytes : List UInt8) (cache : JsonlReadCache α)
    (identity : ℕ) (s : σ) : Except String (RecordArray α) × JsonlReadCache α × σ :=
  if bytes = cache.bytes then (.ok cache.records, cache, s)
  else
    let reuse := reusesCache bytes cache.bytes
    let records := if reuse then cache.records.records else []
    let offset := if reuse then cache.bytes.length else 0
    let progress := { records, offset, retainedEnd := offset, retainedRecords := records.length }
    match readRest reader path (splitLines (bytes.drop offset)) progress s with
    | (.error e, s) => (.error e, cache, s)
    | (.ok progress, s) =>
      let array := { identity, records := progress.records }
      if bytes.length ≤ retainLimit then (.ok array, { bytes, records := array }, s)
      else (.ok array, {
        bytes := bytes.take progress.retainedEnd
        records := {
          identity := identity + 1
          records := progress.records.take progress.retainedRecords } }, s)

/-- A reader whose decoding has no effects. -/
def LineReader.pure (reader : LineReader α) : EffectReader Unit α where
  parse := reader.parse
  decode value s := (reader.decode value, s)

/-- `{ bytes: Buffer.alloc(0), records: [] }` -/
def emptyCache (α : Type) (identity : ℕ) : JsonlReadCache α where
  bytes := []
  records := { identity, records := [] }

/-- What each of the files gives that are read one after another through a cache. -/
def readAllCached (reader : LineReader α) : JsonlReadCache α → (identity : ℕ) →
    List (String × List UInt8) → List (Except String (List α))
  | _, _, [] => []
  | cache, identity, (path, bytes) :: files =>
    let (answer, cache, _) := readCachedJsonl reader.pure path bytes cache identity ()
    answer.map (·.records) :: readAllCached reader cache (identity + 2) files

end Jsonl

end Kinetick
