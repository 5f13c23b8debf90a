import Kinetick.Calendar
import Kinetick.File.Jsonl

/-!
# The time of a schedule that runs once

A run is asked for after a duration or at a time. A time without an offset is a wall clock, which a
time zone resolves: the offset is guessed twice, and what the instant found shows is compared with
what was asked for.
-/

namespace Kinetick

namespace OnceInput

open Calendar (DateTime dateTime makeDay)

/-! ## Time zones -/

/-- The offset of a time zone, in seconds, at an instant, in milliseconds. -/
structure Zone where
  offset : ℤ → ℤ
  bounded : ∀ t, -86400 < offset t ∧ offset t < 86400

/-- The offset is another one from the instant on. -/
def Zone.ChangesAt (zone : Zone) (t : ℤ) : Prop := zone.offset (t - 1) ≠ zone.offset t

/-- Changes are at least 72 hours apart. -/
def Zone.Spaced (zone : Zone) : Prop :=
  ∀ s t, zone.ChangesAt s → zone.ChangesAt t → s < t → 72 * 3600000 ≤ t - s

/-- Changes are at whole seconds. -/
def Zone.Whole (zone : Zone) : Prop := ∀ t, zone.ChangesAt t → t % 1000 = 0

/-! ## The platform -/

/-- What of JavaScript a time is read with: the time zones that are known, `Date.parse`, the numbers
of digits, and the arithmetic of doubles. -/
structure Platform where
  zones : String → Option Zone
  dateParse : String → JsNumber
  number : List Char → JsNumber
  plus : JsNumber → JsNumber → JsNumber
  times : JsNumber → JsNumber → JsNumber
  floor : JsNumber → JsNumber

structure LocalMavisCronValidationError where
  message : String
  deriving DecidableEq

abbrev Checked := Except LocalMavisCronValidationError

def invalid {α : Type} (message : String) : Checked α := .error ⟨message⟩

/-- `JSON.stringify(text)` -/
def quoted (text : String) : String := String.ofList (Jsonl.quote text)

/-- `Date.UTC(year, month, day, hour, minute, second)` -/
def dateUTC (year month day hour minute second : ℤ) : ℤ :=
  let fullYear := if 0 ≤ year ∧ year ≤ 99 then 1900 + year else year
  1000 * (86400 * makeDay fullYear month day + 3600 * hour + 60 * minute + second)

/-! ## Wall clocks -/

/-- `(\d{n})`, its number and what follows. -/
def takeDigits (n : ℕ) (text : List Char) : Option (ℕ × List Char) :=
  let digits := text.take n
  if digits.length = n ∧ digits.all Char.isDigit then
    some (digits.foldl (fun value c => 10 * value + (c.toNat - 48)) 0, text.drop n)
  else none

/-- One of the characters, and what follows. -/
def takeChar (allowed : List Char) : List Char → Option (List Char)
  | c :: text => if c ∈ allowed then some text else none
  | [] => none

/-- `(?::(\d{2}))?$` -/
def takeSeconds (text : List Char) : Option ℕ :=
  if text = [] then some 0
  else do
    let text ← takeChar [':'] text
    let (second, text) ← takeDigits 2 text
    if text = [] then some second else none

/-- `/^(\d{4})-(\d{2})-(\d{2})[ T](\d{2}):(\d{2})(?::(\d{2}))?$/` -/
def parseWallClockWithoutOffset (input : List Char) : Option DateTime := do
  let (year, text) ← takeDigits 4 input
  let text ← takeChar ['-'] text
  let (month, text) ← takeDigits 2 text
  let text ← takeChar ['-'] text
  let (day, text) ← takeDigits 2 text
  let text ← takeChar [' ', 'T'] text
  let (hour, text) ← takeDigits 2 text
  let text ← takeChar [':'] text
  let (minute, text) ← takeDigits 2 text
  let second ← takeSeconds text
  return { year, month, day, hour, minute, second }

/-- What the instant shows in the time zone. -/
def getWallClockParts (zone : Zone) (utcMs : ℤ) : DateTime :=
  dateTime ((utcMs + 1000 * zone.offset utcMs) / 1000)

def getTimeZoneOffsetMs (zone : Zone) (utcMs : ℤ) : ℤ :=
  let parts := getWallClockParts zone utcMs
  dateUTC parts.year (parts.month - 1) parts.day parts.hour parts.minute parts.second - utcMs

def zonedWallClockToEpochMs (parts : DateTime) (timezone : String) (zone : Zone) : Checked ℤ :=
  let localAsUtc :=
    dateUTC parts.year (parts.month - 1) parts.day parts.hour parts.minute parts.second
  let guess := localAsUtc - getTimeZoneOffsetMs zone localAsUtc
  let utcMs := localAsUtc - getTimeZoneOffsetMs zone guess
  if getWallClockParts zone utcMs ≠ parts then
    invalid s!"Invalid cron once at time for timezone {timezone}: nonexistent wall-clock time"
  else .ok utcMs

/-! ## Inputs -/

inductive AtInput
  | text (value : String)
  | number (value : JsNumber)

structure OnceRequest where
  after : Option String := none
  at' : Option AtInput := none
  timezone : Option String := none

section Inputs

variable (platform : Platform)

/-- `timezone`, if it is not empty and is known. -/
def validateTimeZone (timezone : Option String) : Checked (Option (String × Zone)) :=
  match timezone.filter (· ≠ "") with
  | none => .ok none
  | some timezone =>
    match platform.zones timezone with
    | none => invalid s!"Invalid cron once timezone: {quoted timezone}"
    | some zone => .ok (some (timezone, zone))

/-- A date and a time with a space between them. -/
def isSpaced (raw : List Char) : Bool :=
  raw[10]? = some ' ' && (parseWallClockWithoutOffset raw).isSome

/-- `raw.replace(' ', 'T')` of a date and a time. -/
def normalizedText (raw : List Char) : List Char :=
  if isSpaced raw then raw.set 10 'T' else raw

def parseAtText (input : String) (timezone : Option String) : Checked JsNumber := do
  let raw := (jsTrim input).toList
  let zone ← validateTimeZone platform timezone
  if raw ≠ [] ∧ raw.all Char.isDigit then return platform.number raw
  else
    match zone, parseWallClockWithoutOffset raw with
    | some (timezone, zone), some wallClock =>
      return JsNumber.finite (← zonedWallClockToEpochMs wallClock timezone zone)
    | _, _ =>
      let parsed := platform.dateParse (String.ofList (normalizedText raw))
      if parsed = .nan then invalid s!"Invalid cron once at time: {quoted input}"
      else return parsed

def parseAtMs (input : AtInput) (timezone : Option String) : Checked JsNumber :=
  match input with
  | .number value => do
    let _ ← validateTimeZone platform timezone
    return value
  | .text value => parseAtText platform value timezone

/-! ## Durations -/

/-- `DURATION_UNIT_MS`, where `ms` stands before `m`. -/
def durationUnits : List (List Char × ℚ) :=
  [("ms".toList, 1), ("s".toList, 1000), ("m".toList, 60000), ("h".toList, 3600000),
    ("d".toList, 86400000), ("w".toList, 604800000)]

/-- `(\d+(?:\.\d+)?)` and what follows. -/
def takeAmount (text : List Char) : Option (List Char × List Char) :=
  let whole := text.takeWhile Char.isDigit
  if whole = [] then none
  else
    match text.dropWhile Char.isDigit with
    | '.' :: rest =>
      let fraction := rest.takeWhile Char.isDigit
      if fraction = [] then some (whole, '.' :: rest)
      else some (whole ++ '.' :: fraction, rest.dropWhile Char.isDigit)
    | rest => some (whole, rest)

/-- `/^(\d+(?:\.\d+)?)(ms|s|m|h|d|w)/`, its amount and unit and what follows. -/
def takeToken (text : List Char) : Option (List Char × ℚ × List Char) := do
  let (amount, rest) ← takeAmount text
  let (name, unit) ← durationUnits.find? fun unit => unit.1.isPrefixOf rest
  return (amount, unit, rest.drop name.length)

/-- The tokens of the text added up, and what is left of it. -/
def sumTokens : (fuel : ℕ) → JsNumber → List Char → JsNumber × List Char
  | 0, total, rest => (total, rest)
  | fuel + 1, total, rest =>
    match takeToken rest with
    | none => (total, rest)
    | some (amount, unit, rest) =>
      sumTokens fuel (platform.plus total (platform.times (platform.number amount) (.finite unit)))
        rest

def parseDurationMs (input : String) : Checked JsNumber :=
  let raw := ((jsTrim input).toLower).toList
  let (total, rest) := sumTokens platform raw.length (.finite 0) raw
  if total = .finite 0 ∨ total = .nan ∨ rest ≠ [] then
    invalid s!"Invalid cron once after duration: {quoted input}"
  else .ok (platform.floor total)

/-! ## Requests -/

def AtInput.isGiven : AtInput → Bool
  | .text value => jsTrim value ≠ ""
  | .number _ => true

/-- The instant has to be in the future. -/
def requireFuture (now runAtMs : JsNumber) : Checked JsNumber :=
  if !runAtMs.isFinite || runAtMs.le now then
    invalid "cron once target time must be in the future"
  else .ok runAtMs

def parseOnceRunAtMs (req : OnceRequest) (now : JsNumber) : Checked JsNumber :=
  let after := req.after.filter fun after => jsTrim after ≠ ""
  let at' := req.at'.filter AtInput.isGiven
  match after, at' with
  | some after, none => do
    requireFuture now (platform.plus now (← parseDurationMs platform after))
  | none, some at' => do
    requireFuture now (← parseAtMs platform at' req.timezone)
  | _, _ => invalid "cron once requires exactly one of \x60after\x60 or \x60at\x60"

end Inputs

end OnceInput

end Kinetick
