import Kinetick.Queue.Repository

/-!
# Edits of the queue

The operations that update, remove or reorder queued items without a claim.
-/

namespace Kinetick

namespace QueueRepository

variable (env : QueueEnvironment)

/-- `replaceItemMessage` -/
def replaceItemMessage (item : QueueItem) (message : JsValue) : QueueItem :=
  let clientIntent := item.message.get "clientIntent"
  let replacement := if clientIntent.isUndefined then message
    else message.set "clientIntent" clientIntent
  { item with
    message := replacement
    channelContext := (replacement.get "channelContext").orAbsent }

/-- `modelUpdate` -/
def modelUpdate (input : QueueUpdateInput) (item : QueueItem) : QueueItem :=
  match input.model with
  | .null => { item with model := .undefined }
  | model => if model.truthy then { item with model } else item

/-- The item an update makes of a queued one. -/
def updatedItem (input : QueueUpdateInput) (item : QueueItem) : QueueItem :=
  let messageUpdated := if input.message.truthy then replaceItemMessage item input.message else item
  let modelUpdated := modelUpdate input messageUpdated
  match input.expiresAt with
  | some expiresAt => { modelUpdated with expiresAt := some expiresAt }
  | none => modelUpdated

def updateQueued (input : QueueUpdateInput) : QueueTransaction (CommittedQueueResult QueueEdit) :=
  if !input.valid then return { value := .invalid, facts := [] }
  else mutationTransaction env input.sessionId do
    let facts ← expire input.sessionId env.nowMs
    if input.expiresAt.any fun expiresAt => expiresAt.le env.nowMs then
      return { value := .invalid, facts }
    else do
      match ← find input.sessionId input.itemId with
      | none => return { value := .missing, facts }
      | some item =>
        if item.status ≠ .queued ∨ item.source ≠ .api then return { value := .notEditable, facts }
        else do
          write (updatedItem input item)
          return { value := .item (updatedItem input item), facts }

def cancel (sessionId itemId : String) : QueueTransaction (CommittedQueueResult QueueEdit) :=
  mutationTransaction env sessionId do
    let facts ← expire sessionId env.nowMs
    match ← find sessionId itemId with
    | none => return { value := .missing, facts }
    | some item =>
      if item.status ≠ .queued then return { value := .notEditable, facts }
      else do
        deleteItem sessionId itemId
        return { value := .item item, facts := facts ++ [removalFact .cancelled env.nowMs none item] }

def isQueuedApi (row : QueueRow) : Bool := row.status = .queued && row.source = .api

def clearQueuedApi (sessionId : String) : QueueTransaction (List QueueItem) := do
  let selected ← select sessionId isQueuedApi
  deleteRows sessionId isQueuedApi
  return selected

/-- Deletes the pause of a Session with nothing pending. -/
def clearPause (sessionId : String) : QueueTransaction (List QueueCommittedFact) := do
  let pending ← pendingCount sessionId
  let existing ← pause sessionId
  if pending = 0 ∧ existing.isSome then do
    setPause sessionId none
    return [executionStateFact sessionId false]
  else return []

def clearUserManageable (sessionId : String) :
    QueueTransaction (CommittedQueueResult (List QueueItem)) :=
  mutationTransaction env sessionId do
    let facts ← expire sessionId env.nowMs
    let clearedItems ← clearQueuedApi sessionId
    let cleared ← clearPause sessionId
    return {
      value := clearedItems
      facts := facts ++ clearedItems.map (removalFact .cancelled env.nowMs none) ++ cleared }

def promoteQueuedSource (sessionId itemId : String) (source : QueueMessageSource) :
    QueueTransaction (CommittedQueueResult QueueEdit) :=
  mutationTransaction env sessionId do
    let facts ← expire sessionId env.nowMs
    match ← find sessionId itemId with
    | none => return { value := .missing, facts }
    | some item =>
      if item.status ≠ .queued then return { value := .notEditable, facts }
      else do
        write { item with source }
        return { value := .item { item with source }, facts }

/-- The items of the ids, in the order of the ids. -/
def reordered (items : List QueueItem) (itemIds : List String) : List QueueItem :=
  itemIds.filterMap fun id => items.find? fun item => item.itemId = id

/-- `none` is `invalid`. -/
def reorder (sessionId : String) (itemIds : List String) :
    QueueTransaction (CommittedQueueResult (Option (List QueueItem))) :=
  mutationTransaction env sessionId do
    let facts ← expire sessionId env.nowMs
    let claimed ← hasClaimed sessionId
    if claimed then return { value := none, facts }
    else do
      let items ← rowsByStatus sessionId .queued
      if !completePermutation items itemIds then return { value := none, facts }
      else do
        replaceRows sessionId (reordered items itemIds)
        return { value := some (reordered items itemIds), facts }

/-- `trim(json_extract(data_json, '$.message.content')) <> ''` -/
def hasContent (row : QueueRow) : Bool :=
  match (row.dataJson.parse.get "message").get "content" with
  | .string s => s.toList.any (· ≠ ' ')
  | .undefined => false
  | .null => false
  | _ => true

/-- `json_array_length(json_extract(data_json, '$.message.attachments')) = 0` -/
def hasNoAttachments (row : QueueRow) : Bool :=
  match (row.dataJson.parse.get "message").get "attachments" with
  | .array elements => elements.isEmpty
  | .object _ => true
  | _ => false

def isComposerInjectable (row : QueueRow) : Bool :=
  isQueuedApi row && hasContent row && hasNoAttachments row

def drainComposerInjectable (sessionId : String) :
    QueueTransaction (CommittedQueueResult (List QueueItem)) := transaction sessionId do
  let facts ← expire sessionId env.nowMs
  let selected ← select sessionId isComposerInjectable
  Effect.forEach (fun item => deleteItem sessionId item.itemId) selected
  return {
    value := selected
    facts := facts ++ selected.map (removalFact .composerTransferred env.nowMs none) }

def replaceSession (sessionId : String) (items : List QueueItem) :
    QueueTransaction (CommittedQueueResult Unit) :=
  if items.any fun item => item.sessionId ≠ sessionId || !QueueCodec.isQueueItem item.toJs then
    Effect.raise (.typeError "Queue replacement contains an invalid item")
  else Effect.atomically do
    replaceRows sessionId items
    reconcilePause sessionId
    return { value := (), facts := [] }

def deleteSession (sessionId : String) : QueueTransaction (CommittedQueueResult Unit) :=
  transaction sessionId do
    let facts ← expire sessionId env.nowMs
    let remaining ← allRows sessionId
    deleteRows sessionId fun _ => true
    return {
      value := ()
      facts := facts ++ remaining.map (removalFact .cancelled env.nowMs none) }

end QueueRepository

end Kinetick
