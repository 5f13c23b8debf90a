import Mathlib.Logic.Function.Basic
import Kinetick.File.ReadCache
import Kinetick.History.Envelope
import Kinetick.Machine

/-!
# Revisions of a canonical history

The revision of a history is a hash of the canonical texts of its records. What is known of records
and arrays that were read from files is kept by their identity: texts, revisions, the state of the
hash before the closing bracket, inspections. A hash is continued where a longer array begins with
the records of the one before it.
-/

namespace Kinetick

namespace HistoryRevision

open HistoryEnvelope HistorySequence

/-- What is not of the repository: `JSON.parse`, the texts of numbers, SHA-256 in hexadecimal; and
which names are sensitive. -/
structure Codec where
  parse : String → Option JsValue
  format : Jsonl.NumberFormat
  sha256 : List UInt8 → String
  isSensitiveKey : String → Bool

structure EnvelopeObject where
  identity : ℕ
  envelope : CanonicalHistoryEnvelope

abbrev EnvelopeArray := Jsonl.RecordArray EnvelopeObject

/-- The weak maps, by identity. A hash is the bytes it was updated with. -/
structure OwnedHistory where
  ownedEnvelopeJson : ℕ → Option (Option (List Char))
  ownedRecordArrays : ℕ → Bool
  ownedRevisions : ℕ → Option String
  ownedRevisionPrefixes : ℕ → Option (List UInt8)
  ownedSequences : ℕ → Option CanonicalHistorySequenceInspection
  nextRecord : ℕ

/-- `returned` are the arrays that reads returned. -/
structure State where
  owned : OwnedHistory
  readCache : Jsonl.JsonlReadCache EnvelopeObject
  nextArray : ℕ
  returned : List EnvelopeArray

def initialState : State where
  owned := {
    ownedEnvelopeJson := fun _ => none
    ownedRecordArrays := fun _ => false
    ownedRevisions := fun _ => none
    ownedRevisionPrefixes := fun _ => none
    ownedSequences := fun _ => none
    nextRecord := 0 }
  readCache := Jsonl.emptyCache EnvelopeObject 0
  nextArray := 1
  returned := []

variable (codec : Codec)

/-! ## Reading -/

def decodeOwnedEnvelope (value : JsValue) (owned : OwnedHistory) :
    Except String EnvelopeObject × OwnedHistory :=
  match decodeCanonicalHistoryEnvelope codec.isSensitiveKey value with
  | .error e => (.error e, owned)
  | .ok envelope =>
    (.ok { identity := owned.nextRecord, envelope }, { owned with
      ownedEnvelopeJson := Function.update owned.ownedEnvelopeJson owned.nextRecord (some none)
      nextRecord := owned.nextRecord + 1 })

def ownedReader : Jsonl.EffectReader OwnedHistory EnvelopeObject where
  parse := codec.parse
  decode := decodeOwnedEnvelope codec

/-- A reader of envelopes that are not shared. -/
def envelopeReader : Jsonl.LineReader CanonicalHistoryEnvelope where
  parse := codec.parse
  decode := decodeCanonicalHistoryEnvelope codec.isSensitiveKey

/-! ## Hashing -/

def utf8 (text : List Char) : List UInt8 := Utf8.encode (String.ofList text)

/-- The canonical text of a record, kept where the record is owned. -/
def serialized (record : EnvelopeObject) (owned : OwnedHistory) : List Char × OwnedHistory :=
  let text := canonicalJson codec.format record.envelope
  match owned.ownedEnvelopeJson record.identity with
  | some (some kept) => (kept, owned)
  | some none =>
    (text, { owned with
      ownedEnvelopeJson :=
        Function.update owned.ownedEnvelopeJson record.identity (some (some text)) })
  | none => (text, owned)

/-- The loop over the records from the index on. -/
def updateRevisionPrefix : (hash : List UInt8) → (index : ℕ) → List EnvelopeObject →
    OwnedHistory → List UInt8 × OwnedHistory
  | hash, _, [], owned => (hash, owned)
  | hash, index, record :: records, owned =>
    let hash := if 0 < index then hash ++ utf8 [','] else hash
    let (text, owned) := serialized codec record owned
    updateRevisionPrefix (hash ++ utf8 text) (index + 1) records owned

def rememberOwnedRecords (records previous : EnvelopeArray) (owned : OwnedHistory) :
    OwnedHistory :=
  let owned := { owned with
    ownedRecordArrays := Function.update owned.ownedRecordArrays records.identity true }
  if records.identity = previous.identity then owned
  else match owned.ownedRevisionPrefixes previous.identity with
  | none => owned
  | some hash =>
    let count := previous.records.length
    if records.records.length < count ||
        previous.records.map (·.identity) ≠ (records.records.take count).map (·.identity) then
      owned
    else
      let (hash, owned) := updateRevisionPrefix codec hash count (records.records.drop count) owned
      { owned with
        ownedRevisionPrefixes :=
          Function.update owned.ownedRevisionPrefixes records.identity (some hash) }

/-- The hash state of an array, kept where the array is owned. -/
def revisionPrefix (array : EnvelopeArray) (owned : OwnedHistory) : List UInt8 × OwnedHistory :=
  match owned.ownedRevisionPrefixes array.identity with
  | some hash => (hash, owned)
  | none =>
    let (hash, owned) := updateRevisionPrefix codec (utf8 ['[']) 0 array.records owned
    if owned.ownedRecordArrays array.identity then
      (hash, { owned with
        ownedRevisionPrefixes :=
          Function.update owned.ownedRevisionPrefixes array.identity (some hash) })
    else (hash, owned)

def revisionOfNormalized (array : EnvelopeArray) (owned : OwnedHistory) : String × OwnedHistory :=
  match owned.ownedRevisions array.identity with
  | some revision => (revision, owned)
  | none =>
    let (hash, owned) := revisionPrefix codec array owned
    let revision := "sha256:" ++ codec.sha256 (hash ++ utf8 [']'])
    if owned.ownedRecordArrays array.identity then
      (revision, { owned with
        ownedRevisions := Function.update owned.ownedRevisions array.identity (some revision) })
    else (revision, owned)

/-! ## Inspecting and decoding -/

def inspectOwnedSequence (array : EnvelopeArray) (owned : OwnedHistory) :
    Except String CanonicalHistorySequenceInspection × OwnedHistory :=
  match owned.ownedSequences array.identity with
  | some inspection => (.ok inspection, owned)
  | none =>
    match inspectCanonicalHistorySequence (array.records.map (·.envelope)) with
    | .error e => (.error e, owned)
    | .ok inspection =>
      if owned.ownedRecordArrays array.identity then
        (.ok inspection, { owned with
          ownedSequences := Function.update owned.ownedSequences array.identity (some inspection) })
      else (.ok inspection, owned)

/-- An owned record is itself, any other is decoded as a new one. -/
def decodeRecord (record : EnvelopeObject) (owned : OwnedHistory) :
    Except String EnvelopeObject × OwnedHistory :=
  if (owned.ownedEnvelopeJson record.identity).isSome then (.ok record, owned)
  else match decodeCanonicalHistoryEnvelope codec.isSensitiveKey (envelopeJson record.envelope) with
  | .error e => (.error e, owned)
  | .ok envelope =>
    (.ok { identity := owned.nextRecord, envelope },
      { owned with nextRecord := owned.nextRecord + 1 })

def decodeEach : List EnvelopeObject → OwnedHistory →
    Except String (List EnvelopeObject) × OwnedHistory
  | [], owned => (.ok [], owned)
  | record :: records, owned =>
    match decodeRecord codec record owned with
    | (.error e, owned) => (.error e, owned)
    | (.ok record, owned) =>
      match decodeEach records owned with
      | (.error e, owned) => (.error e, owned)
      | (.ok records, owned) => (.ok (record :: records), owned)

/-- A new array has the identity. -/
def decodeRecords (array : EnvelopeArray) (identity : ℕ) (owned : OwnedHistory) :
    Except String EnvelopeArray × OwnedHistory :=
  if owned.ownedRecordArrays array.identity then (.ok array, owned)
  else match decodeEach codec array.records owned with
  | (.error e, owned) => (.error e, owned)
  | (.ok records, owned) => (.ok { identity, records }, owned)

/-- What an inspection means where pending results are allowed or not. -/
def acceptInspection (active : Bool) (count : ℕ) :
    CanonicalHistorySequenceInspection → Except String Unit
  | .settled => .ok ()
  | .pendingToolResults _ ids =>
    if active then .ok ()
    else sequenceError count ("history ends before tool results: " ++ ",".intercalate ids)

/-- `canonicalActiveHistoryRevision` where `active`, else `canonicalHistoryRevision`. -/
def historyRevision (active : Bool) (array : EnvelopeArray) (s : State) :
    Except String String × State :=
  match decodeRecords codec array s.nextArray s.owned with
  | (.error e, owned) => (.error e, { s with owned, nextArray := s.nextArray + 1 })
  | (.ok array, owned) =>
    let s := { s with nextArray := s.nextArray + 1 }
    match inspectOwnedSequence array owned with
    | (.error e, owned) => (.error e, { s with owned })
    | (.ok inspection, owned) =>
      match acceptInspection active array.records.length inspection with
      | .error e => (.error e, { s with owned })
      | .ok () =>
        let (revision, owned) := revisionOfNormalized codec array owned
        (.ok revision, { s with owned })

def canonicalHistoryRevision (array : EnvelopeArray) (s : State) : Except String String × State :=
  historyRevision codec false array s

def canonicalActiveHistoryRevision (array : EnvelopeArray) (s : State) :
    Except String String × State :=
  historyRevision codec true array s

/-! ## The data source -/

/-- Reading with decoded records shared. -/
def readEnvelopesStrict (path : String) (bytes : List UInt8) (s : State) :
    Except String EnvelopeArray × State :=
  let previous := s.readCache.records
  match Jsonl.readCachedJsonl (ownedReader codec) path bytes s.readCache s.nextArray s.owned with
  | (.error e, readCache, owned) =>
    (.error e, { s with readCache, owned, nextArray := s.nextArray + 2 })
  | (.ok records, readCache, owned) =>
    (.ok records, {
      owned := rememberOwnedRecords codec records previous owned
      readCache
      nextArray := s.nextArray + 2
      returned := s.returned ++ [records] })

/-- `readActiveWithBytes` with decoded records shared. The bytes are those of the file. -/
def readActiveWithBytes (path : String) (bytes : List UInt8) (s : State) :
    Except String EnvelopeArray × State :=
  match readEnvelopesStrict codec path bytes s with
  | (.error e, s) => (.error e, s)
  | (.ok records, s) =>
    match inspectOwnedSequence records s.owned with
    | (.error e, owned) => (.error e, { s with owned })
    | (.ok _, owned) => (.ok records, { s with owned })

/-- A copy of the array whose records are copies too. -/
def freshCopy (array : EnvelopeArray) (s : State) : EnvelopeArray × State :=
  ({ identity := s.nextArray
     records := array.records.mapIdx fun index record =>
      { identity := s.owned.nextRecord + index, envelope := record.envelope } },
   { s with
     owned := { s.owned with nextRecord := s.owned.nextRecord + array.records.length }
     nextArray := s.nextArray + 1 })

/-- Revisions are asked for arrays that reads returned, by their index, or copies of them. -/
inductive Event
  | read (path : String) (bytes : List UInt8)
  | readActive (path : String) (bytes : List UInt8)
  | revision (active : Bool) (index : ℕ)
  | revisionOfCopy (active : Bool) (index : ℕ)

/-- The answer is a revision, or none. -/
def step (s : State) : Event → State × Option (Except String String)
  | .read path bytes => ((readEnvelopesStrict codec path bytes s).2, none)
  | .readActive path bytes => ((readActiveWithBytes codec path bytes s).2, none)
  | .revision active index =>
    match s.returned[index]? with
    | none => (s, none)
    | some array =>
      let (answer, s) := historyRevision codec active array s
      (s, some answer)
  | .revisionOfCopy active index =>
    match s.returned[index]? with
    | none => (s, none)
    | some array =>
      let (copy, s) := freshCopy array s
      let (answer, s) := historyRevision codec active copy s
      (s, some answer)

def machine : Machine State Event (Option (Except String String)) where
  initial := initialState
  step := step codec

end HistoryRevision

end Kinetick
