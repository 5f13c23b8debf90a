import Mathlib.Algebra.Order.Floor.Ring
import Mathlib.Data.Rat.Floor
import Kinetick.Double
import Kinetick.Js
import Kinetick.Machine
import Kinetick.UriComponent

/-!
# The bounded ring of an event stream

The ring keeps the last entries appended to it, within a number of items and of bytes, and replays
what follows a cursor. A cursor is the ring's prefix, which has its scope and epoch, and a number.
The caller's policy may have any number of entries evicted from the front.
-/

namespace Kinetick

structure RingEntry (T : Type) where
  cursor : String
  identity : String
  value : T
  byteSize : ℕ
  deriving DecidableEq

structure RingAppendInput (T : Type) where
  identity : String
  value : T
  byteSize : Option JsNumber

structure RingAppendResult (T : Type) where
  entry : RingEntry T
  appended : Bool
  retained : Bool
  evictedCount : ℕ
  deriving DecidableEq

inductive RingReplayResult (T : Type)
  | ok (entries : List (RingEntry T))
  | evicted
  | invalidCursor
  deriving DecidableEq

structure BoundedRingOptions where
  maxItems : Option JsNumber
  maxBytes : Option JsNumber
  cursorScope : Option String
  cursorEpoch : Option String

/-- What an eviction policy is given. -/
structure RingRetentionSnapshot (T : Type) where
  entries : List (RingEntry T)
  retainedBytes : Double
  maxItems : ℕ
  maxBytes : ℕ

/-- The policy, or none; it may answer nothing or any number. -/
abbrev RingEvictionPolicy (T : Type) := Option (RingRetentionSnapshot T → Option JsNumber)

def DEFAULT_MAX_ITEMS : ℕ := 512

def DEFAULT_MAX_BYTES : ℕ := 2 * 1024 * 1024

/-- A positive finite number, rounded down, or the fallback. -/
def positiveInteger (value : Option JsNumber) (fallback : ℕ) : ℕ :=
  match value with
  | some (.finite q) => if 0 < q then ⌊q⌋.toNat else fallback
  | _ => fallback

def normalizedByteSize : JsNumber → ℕ
  | .finite q => if 0 ≤ q then ⌊q⌋.toNat else 0
  | _ => 0

def normalizedEvictionCount (value : Option JsNumber) (retainedCount : ℕ) : ℕ :=
  match value with
  | some (.finite q) => if q ≤ 0 then 0 else min ⌊q⌋.toNat retainedCount
  | _ => 0

/-- `uuid`: the epoch drawn where the options have none. -/
def createCursorPrefix (scope epoch : Option String) (uuid : String) : String :=
  "sse1:" ++ UriComponent.encode (scope.getD "ring") ++ ":" ++
    UriComponent.encode (epoch.getD uuid) ++ ":"

/-- `identities` are the retained entries by their identity. -/
structure BoundedRing (T : Type) where
  entries : List (RingEntry T)
  identities : List (String × RingEntry T)
  maxItems : ℕ
  maxBytes : ℕ
  measure : T → JsNumber
  cursorPrefix : String
  nextCursor : ℕ
  droppedThrough : ℕ
  retainedBytes : Double

namespace BoundedRing

variable {T : Type}

/-- The constructor. -/
def create (options : BoundedRingOptions) (measure : T → JsNumber) (uuid : String) :
    BoundedRing T where
  entries := []
  identities := []
  maxItems := positiveInteger options.maxItems DEFAULT_MAX_ITEMS
  maxBytes := positiveInteger options.maxBytes DEFAULT_MAX_BYTES
  measure := measure
  cursorPrefix := createCursorPrefix options.cursorScope options.cursorEpoch uuid
  nextCursor := 1
  droppedThrough := 0
  retainedBytes := .finite 0

variable (ring : BoundedRing T)

def formatCursor (sequence : ℕ) : String := ring.cursorPrefix ++ toString sequence

def parseCursor (value : String) : Option ℕ :=
  if ring.cursorPrefix.toList.isPrefixOf value.toList then
    let sequence := value.toList.drop ring.cursorPrefix.toList.length
    if sequence ≠ [] ∧ sequence.all Char.isDigit then some (Nat.ofDigitChars 10 sequence 0) else none
  else none

/-- `identities.get` -/
def identity (id : String) : Option (RingEntry T) :=
  (ring.identities.find? (·.1 = id)).map (·.2)

/-- One round of `evictPrefix`. -/
def shift : BoundedRing T :=
  match ring.entries with
  | [] => ring
  | evicted :: entries =>
    { ring with
      entries
      identities := ring.identities.filter (·.1 ≠ evicted.identity)
      retainedBytes := ring.retainedBytes.add (-(evicted.byteSize : ℤ))
      droppedThrough := (ring.parseCursor evicted.cursor).getD ring.droppedThrough }

/-- Evicts `count` entries, if there are so many, and says how many. -/
def evictPrefix (ring : BoundedRing T) : ℕ → ℕ × BoundedRing T
  | 0 => (0, ring)
  | count + 1 =>
    let (evicted, rest) := evictPrefix ring.shift count
    (if ring.entries = [] then evicted else evicted + 1, rest)

def snapshot : RingRetentionSnapshot T :=
  { entries := ring.entries, retainedBytes := ring.retainedBytes, maxItems := ring.maxItems
    maxBytes := ring.maxBytes }

/-- How many entries a round of `enforceRetention` evicts. -/
def selectedCount (policy : RingEvictionPolicy T) : ℕ :=
  let selected := normalizedEvictionCount (policy.bind fun p => p ring.snapshot) ring.entries.length
  let overBounds := ring.maxItems < ring.entries.length || ring.retainedBytes.exceeds ring.maxBytes
  if selected = 0 && overBounds then 1 else selected

theorem shift_length : ring.shift.entries.length = ring.entries.length - 1 := by
  unfold shift
  split <;> simp [*]

theorem evictPrefix_length (count : ℕ) :
    (ring.evictPrefix count).2.entries.length = ring.entries.length - count := by
  induction count generalizing ring with
  | zero => rfl
  | succ count ih =>
    simp only [evictPrefix]
    rw [ih, shift_length]
    omega

/-- The loop of `enforceRetention`, with the count of its rounds so far. -/
def enforceRetention (policy : RingEvictionPolicy T) (ring : BoundedRing T) (evictedCount : ℕ) :
    ℕ × BoundedRing T :=
  if _h : ring.entries = [] ∨ ring.selectedCount policy = 0 then (evictedCount, ring)
  else
    let round := ring.evictPrefix (ring.selectedCount policy)
    enforceRetention policy round.2 (evictedCount + round.1)
termination_by ring.entries.length
decreasing_by
  have hlen := evictPrefix_length ring (ring.selectedCount policy)
  rw [not_or] at _h
  have hpos := List.length_pos_iff.2 _h.1
  omega

/-- `append`, with the answers of the eviction policy it asks. -/
def append (policy : RingEvictionPolicy T) (input : RingAppendInput T) :
    BoundedRing T × RingAppendResult T :=
  match ring.identity input.identity with
  | some duplicate =>
    (ring, { entry := duplicate, appended := false, retained := true, evictedCount := 0 })
  | none =>
    let entry := {
      cursor := ring.formatCursor ring.nextCursor
      identity := input.identity
      value := input.value
      byteSize := normalizedByteSize (input.byteSize.getD (ring.measure input.value)) }
    let (evictedCount, ring) := enforceRetention policy { ring with
      nextCursor := ring.nextCursor + 1
      entries := ring.entries ++ [entry]
      identities := ring.identities ++ [(entry.identity, entry)]
      retainedBytes := ring.retainedBytes.add entry.byteSize } 0
    let retained := (ring.identity entry.identity).isSome
    (ring, {
      entry, appended := true, retained
      evictedCount := if retained then evictedCount else evictedCount - 1 })

def replay (afterCursor : Option String) : RingReplayResult T :=
  match afterCursor with
  | none => .ok ring.entries
  | some afterCursor =>
    if afterCursor.isEmpty then .ok ring.entries
    else match ring.parseCursor afterCursor with
    | none => .invalidCursor
    | some parsed =>
      if ring.nextCursor ≤ parsed then .invalidCursor
      else if parsed < ring.droppedThrough then .evicted
      else .ok (ring.entries.filter fun entry =>
        (ring.parseCursor entry.cursor).any fun sequence => parsed < sequence)

def latestCursor : String := ring.formatCursor (ring.nextCursor - 1)

end BoundedRing

/-- An append, with the policy's answers during it. -/
structure RingAppend (T : Type) where
  input : RingAppendInput T
  policy : RingEvictionPolicy T

/-- A ring under appends. Between them it is only read. -/
def ringMachine {T : Type} (options : BoundedRingOptions) (measure : T → JsNumber) (uuid : String) :
    Machine (BoundedRing T) (RingAppend T) (RingAppendResult T) where
  initial := .create options measure uuid
  step ring e := ring.append e.policy e.input

end Kinetick

/-!
## What a ring promises its readers

`log` is every entry ever appended, in order, so the entry of number `i + 1` is at `i`.
-/

namespace Kinetick

variable {T : Type}

namespace BoundedRing

/-- The entries appended in a run. -/
def logOf (results : List (RingAppendResult T)) : List (RingEntry T) :=
  (results.filter (·.appended)).map (·.entry)

/-- The ring holds the end of the log, and a replay misses nothing. -/
structure GapFree (scope epoch : String) (ring : BoundedRing T) (log : List (RingEntry T)) :
    Prop where
  /-- The numbers of the entries are their places in the log. -/
  numbered : ∀ i, (h : i < log.length) → log[i].cursor = ring.formatCursor (i + 1)
  next : ring.nextCursor = log.length + 1
  dropped : ring.droppedThrough ≤ log.length
  /-- The entries of the numbers `droppedThrough + 1` to `nextCursor - 1`, in order. -/
  entries : ring.entries = log.drop ring.droppedThrough
  items : ring.entries.length ≤ ring.maxItems
  /-- Evicted, if and only if an entry after the cursor was. -/
  evicted : ∀ k ≤ log.length, ring.replay (some (ring.formatCursor k)) = .evicted ↔
    ∃ i, k ≤ i ∧ i < log.length ∧ i < ring.droppedThrough
  /-- Otherwise, all entries after it. -/
  replayed : ∀ k ≤ log.length, ring.replay (some (ring.formatCursor k)) ≠ .evicted →
    ring.replay (some (ring.formatCursor k)) = .ok (log.drop k)
  future : ∀ k, log.length < k → ring.replay (some (ring.formatCursor k)) = .invalidCursor
  foreign : ∀ (scope' epoch' : Option String) (uuid : String) (k : ℕ),
    (scope'.getD "ring", epoch'.getD uuid) ≠ (scope, epoch) →
    ring.replay (some (createCursorPrefix scope' epoch' uuid ++ toString k)) = .invalidCursor

/-- What an append does: nothing where the identity is retained; else it adds the entry, unless that
is evicted at once, and counts the entries it removed. -/
structure AppendSound (ring : BoundedRing T) (e : RingAppend T) : Prop where
  repeated : ∀ entry ∈ ring.entries, entry.identity = e.input.identity →
    ring.append e.policy e.input =
      (ring, { entry, appended := false, retained := true, evictedCount := 0 })
  fresh : (∀ entry ∈ ring.entries, entry.identity ≠ e.input.identity) →
    (ring.append e.policy e.input).2.appended = true ∧
    (ring.append e.policy e.input).2.entry.cursor = ring.formatCursor ring.nextCursor ∧
    ∃ removed kept, ring.entries = removed ++ kept ∧
      (ring.append e.policy e.input).1.entries = kept ++
        (if (ring.append e.policy e.input).2.retained
          then [(ring.append e.policy e.input).2.entry] else []) ∧
      (ring.append e.policy e.input).2.evictedCount = removed.length

/-- The bytes of the entries. -/
def bytes (entries : List (RingEntry T)) : ℕ := (entries.map (·.byteSize)).sum

/-- The bytes of the entries and of the new one are at most 2^53, so that a double counts them
exactly. -/
def CountsExactly (ring : BoundedRing T) (e : RingAppend T) : Prop :=
  bytes ring.entries +
    normalizedByteSize (e.input.byteSize.getD (ring.measure e.input.value)) ≤ Double.maxExact

end BoundedRing

end Kinetick
