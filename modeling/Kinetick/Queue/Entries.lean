import Kinetick.Ledger
import Kinetick.Queue.System

/-!
# A Session's queue as a list of entries

What the claims on the queue are about, less the payload: the pending items of a Session in order,
each queued or claimed, with the two keys it is found by. Every operation is a sequence of the
changes below, and the facts it commits are the ledger of its changes.
-/

namespace Kinetick

structure QueueEntry where
  itemId : String
  status : QueueItemStatus
  clientRequestId : Option String
  dedupeKey : Option String
deriving DecidableEq

inductive QueueChange
  | removed (itemId : String)
  /-- A new item, last. -/
  | enqueued (entry : QueueEntry)
  /-- A new item in the place of a queued one. -/
  | replaced (itemId : String) (entry : QueueEntry)
  | claimed (itemId : String)
  | released (itemId : String)
  /-- The claimed items, then this one, then the other queued ones. -/
  | fronted (itemId : String)
  | reordered (itemIds : List String)

/-- What an operation may do besides: give a new item the id of a pending one, put back an item
whose key another has, put an item first, reorder. -/
structure QueueScope where
  clashes : Prop
  duplicates : Prop
  fronts : String → Prop
  reorders : Prop

namespace QueueEntry

def isQueued (entry : QueueEntry) : Bool := entry.status = .queued

def isClaimed (entry : QueueEntry) : Bool := entry.status = .claimed

/-- Rewrites the entry of the id. -/
def mapAt (itemId : String) (f : QueueEntry → QueueEntry) (l : List QueueEntry) : List QueueEntry :=
  l.map fun e => if e.itemId = itemId then f e else e

/-- The ids of the entries. -/
def ids (l : List QueueEntry) : Finset String := (l.map itemId).toFinset

end QueueEntry

namespace QueueChange

open QueueEntry

def apply (l : List QueueEntry) : QueueChange → List QueueEntry
  | removed itemId => l.filter fun e => e.itemId ≠ itemId
  | enqueued entry =>
    if ∃ e ∈ l, e.itemId = entry.itemId then mapAt entry.itemId (fun _ => entry) l else l ++ [entry]
  | replaced itemId entry => mapAt itemId (fun _ => entry) l
  | claimed itemId => mapAt itemId (fun e => { e with status := .claimed }) l
  | released itemId => mapAt itemId (fun e => { e with status := .queued }) l
  | fronted itemId => l.filter isClaimed ++ (l.filter fun e => e.isQueued && e.itemId = itemId) ++
      l.filter fun e => e.isQueued && e.itemId ≠ itemId
  | reordered itemIds => itemIds.filterMap fun id => l.find? fun e => e.itemId = id

/-- No entry has the request of this one. -/
def NewRequest (l : List QueueEntry) (entry : QueueEntry) : Prop :=
  ∀ request, entry.clientRequestId = some request → ∀ e ∈ l, e.clientRequestId ≠ some request

/-- When a change can happen in an operation of the scope. -/
def Allowed (scope : QueueScope) (l : List QueueEntry) : QueueChange → Prop
  | removed itemId => ∃ e ∈ l, e.itemId = itemId
  | enqueued entry => entry.status = .queued ∧ NewRequest l entry ∧
      (∀ key, entry.dedupeKey = some key → ∀ e ∈ l, e.status = .queued → e.dedupeKey ≠ some key) ∧
      ((∃ e ∈ l, e.itemId = entry.itemId) → scope.clashes)
  | replaced itemId entry => entry.status = .queued ∧ NewRequest l entry ∧
      (∃ e ∈ l, e.itemId = itemId ∧ e.status = .queued ∧ e.dedupeKey = entry.dedupeKey) ∧
      (entry.itemId = itemId ∨ ∀ e ∈ l, e.itemId ≠ entry.itemId)
  | claimed itemId => (∃ e ∈ l, e.itemId = itemId ∧ e.status = .queued) ∧
      ∀ e ∈ l, e.status = .queued
  | released itemId => ∃ e ∈ l, e.itemId = itemId ∧ e.status = .claimed ∧
      ((∃ e' ∈ l, e'.itemId ≠ itemId ∧ e'.dedupeKey = e.dedupeKey ∧ e.dedupeKey ≠ none) →
        scope.duplicates)
  | fronted itemId => scope.fronts itemId ∧ ∃ e ∈ l, e.itemId = itemId ∧ e.status = .queued
  | reordered itemIds => scope.reorders ∧ (∀ e ∈ l, e.status = .queued) ∧
      itemIds.Perm (l.map itemId)

/-- What a change opens and closes. -/
def ledger : QueueChange → List (LedgerEntry String)
  | removed itemId => [.closed itemId]
  | enqueued entry => [.opened entry.itemId]
  | replaced itemId entry => [.closed itemId, .opened entry.itemId]
  | _ => []

/-- The changes happen in turn and take one list to the other. -/
def Steps (scope : QueueScope) (l : List QueueEntry) : List QueueChange → List QueueEntry → Prop
  | [], l' => l' = l
  | change :: changes, l' => change.Allowed scope l ∧ Steps scope (change.apply l) changes l'

theorem steps_append (scope : QueueScope) (l l' : List QueueEntry) (cs ds : List QueueChange) :
    Steps scope l (cs ++ ds) l' ↔ ∃ m, Steps scope l cs m ∧ Steps scope m ds l' := by
  induction cs generalizing l with
  | nil => simp [Steps]
  | cons c cs ih => simp [Steps, ih, and_assoc]

end QueueChange

/-! ## The entries of the rows -/

def QueueRow.entry (row : QueueRow) : QueueEntry where
  itemId := row.itemId
  status := row.status
  clientRequestId := row.clientRequestId
  dedupeKey := row.dedupeKey

def QueueItem.entry (item : QueueItem) : QueueEntry := item.storage.entry

/-- The entries of a Session. -/
def QueueDb.entries (db : QueueDb) (sessionId : String) : List QueueEntry :=
  (db.rows sessionId).map QueueRow.entry

/-- The id is one of the Session's pending items. -/
def QueueDb.Clashes (db : QueueDb) (sessionId itemId : String) : Prop :=
  ∃ row ∈ db.rows sessionId, row.itemId = itemId

/-- Every row was written from an item. -/
def QueueDb.Stored (db : QueueDb) : Prop :=
  ∀ row ∈ db.items.rows, ∃ item, row = QueueItem.storage item

/-- What a fact says about the items of a Session. -/
def QueueCommittedFact.ledger (sessionId : String) : QueueCommittedFact → List (LedgerEntry String)
  | enqueued s itemId _ _ _ => if s = sessionId then [.opened itemId] else []
  | removed s itemId _ _ _ => if s = sessionId then [.closed itemId] else []
  | requeued _ _ _ _ _ _ => []
  | executionStateChanged _ _ => []

end Kinetick
