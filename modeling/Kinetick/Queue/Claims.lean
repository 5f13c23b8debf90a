import Kinetick.Queue.Repository

/-!
# Claims

The operations that claim a queued item and settle a claim.
-/

namespace Kinetick

namespace QueueRepository

variable (env : QueueEnvironment)

def claim (item : QueueItem) (claimedAt : JsNumber) : QueueTransaction QueueItem := do
  let claimed := { item with
    status := .claimed
    claimId := some env.newClaimId
    claimedAt := some claimedAt
    claimOwnerId := some env.claimOwnerId
    claimLeaseExpiresAt := some (claimedAt.add env.claimLeaseMs) }
  write claimed
  return claimed

/-- `onlyQueuedItem` -/
def onlyQueuedItem (item : Option QueueItem) : Option QueueItem :=
  item.filter fun item => item.status = .queued

def claimCandidate (input : QueueClaimInput) : QueueTransaction (Option QueueItem) :=
  match nonEmptyText input.itemId with
  | some itemId => do
    let item ← find input.sessionId itemId
    return onlyQueuedItem item
  | none => do
    let queued ← rowsByStatus input.sessionId .queued
    return queued.find? fun item => !input.excludeItemIds.contains item.itemId

def claimSelection (input : QueueClaimInput) : QueueClaimSelection :=
  if (nonEmptyText input.itemId).isSome then .exact
  else if input.continuePaused then .continuedFifo else .fifo

def dispatchItem (item : QueueItem) (selection : QueueClaimSelection) :
    QueueTransaction QueueDispatchItem :=
  match nonEmptyText item.claimId, nonEmptyText item.claimOwnerId, item.claimLeaseExpiresAt with
  | some claimId, some claimOwnerId, some claimLeaseExpiresAt => return {
      claimId
      sessionId := item.sessionId
      source := item.source
      claimOwnerId
      claimLeaseExpiresAt
      selection
      item
      message := item.message
      clientRequestId := nonEmptyText item.clientRequestId
      provenance := item.routingProvenance }
  | _, _, _ => Effect.raise (.typeError "Queue claim is incomplete")

/-- Claims the candidate, where its source is allowed. -/
def claimSelected (input : QueueClaimInput) (nowMs : JsNumber) :
    QueueTransaction (Option QueueDispatchItem) := do
  match ← claimCandidate input with
  | none => return none
  | some selected =>
    if input.allowedSources.any fun sources => !sources.contains selected.source then return none
    else do
      let claimed ← claim env selected nowMs
      let item ← dispatchItem claimed (claimSelection input)
      return some item

def claimNext (input : QueueClaimInput) :
    QueueTransaction (CommittedQueueResult (Option QueueDispatchItem)) :=
  transaction input.sessionId do
    let nowMs := input.nowMs.getD env.nowMs
    let facts ← expire input.sessionId nowMs
    let paused ← pause input.sessionId
    if (nonEmptyText input.itemId).isNone && !input.continuePaused && paused.isSome then
      return { value := none, facts }
    else do
      let claimed ← hasClaimed input.sessionId
      if claimed then return { value := none, facts }
      else do
        let value ← claimSelected env input nowMs
        return { value, facts }

/-- Notes the attempt to deliver the item as the Turn. -/
def prepareItem (claimId turnId : String) (item : QueueItem) : QueueTransaction Unit :=
  let attempts := item.deliveryAttempts.getD []
  match attempts.find? fun attempt => attempt.claimId = claimId with
  | some existing =>
    if existing.turnId ≠ turnId then
      Effect.raise (.error "Queue delivery claim already belongs to another Turn")
    else return ()
  | none => write { item with deliveryAttempts := some (attempts ++ [{ claimId, turnId }]) }

/-- Answers nothing; the facts of its transaction are not returned. -/
def prepareDelivery (sessionId claimId turnId : String) : QueueTransaction Unit :=
  if turnId = "" then Effect.raise (.typeError "Queue delivery requires a Turn identity")
  else do
    let _ ← transaction sessionId do
      let items ← claimRows sessionId claimId
      if items.isEmpty then Effect.raise (.claimNotFound sessionId claimId)
      else do
        Effect.forEach (prepareItem claimId turnId) items
        return { value := (), facts := [] }
    return ()

/-- The rows of a claim, which is to have some. -/
def heldRows (sessionId claimId : String) : QueueTransaction (List QueueItem) := do
  let claimed ← claimRows sessionId claimId
  if claimed.isEmpty then Effect.raise (.claimNotFound sessionId claimId) else return claimed

def claimQuery (items : List QueueItem) (claimId : String) (turnId : Option String) :
    QueueTransaction QueueClaimAcceptanceQuery :=
  match items with
  | [] => Effect.raise (.claimNotFound "" claimId)
  | first :: _ => return {
      sessionId := first.sessionId
      claimId
      source := first.executionSource
      queueItemIds := items.map QueueItem.itemId
      turnId := nonEmptyText turnId }

def deleteItems (sessionId : String) (items : List QueueItem) : QueueTransaction Unit :=
  Effect.forEach (fun item => deleteItem sessionId item.itemId) items

/-- `acceptanceLookup` is absent or answers whether a Turn was accepted; what it marks is not the
queue's. -/
def acknowledgeClaim (sessionId claimId : String) (turnId : Option String)
    (isAccepted : Option (QueueClaimAcceptanceQuery → Bool)) :
    QueueTransaction (CommittedQueueResult (List QueueItem)) :=
  if claimId = "" then Effect.raise (.claimNotFound sessionId claimId)
  else transaction sessionId do
    let facts ← expire sessionId env.nowMs
    let claimed ← heldRows sessionId claimId
    let query ← claimQuery claimed claimId turnId
    if !isAccepted.any fun isAccepted => isAccepted query then
      Effect.raise (.claimNotAccepted sessionId claimId turnId)
    else do
      deleteItems sessionId claimed
      return {
        value := claimed
        facts := facts ++ claimed.map (removalFact .accepted env.nowMs none) }

/-- `withoutClaim` -/
def withoutClaim (item : QueueItem) : QueueItem :=
  { item with
    status := .queued
    claimId := none
    claimedAt := none
    claimOwnerId := none
    claimLeaseExpiresAt := none }

/-- Puts a claimed item back, unless it expired: then it is deleted. Answers the item put back and
the fact. -/
def releaseItem (sessionId : String) (reason : Option String) (item : QueueItem) :
    QueueTransaction (Option QueueItem × QueueCommittedFact) :=
  if expired env.nowMs item then do
    deleteItem sessionId item.itemId
    return (none, removalFact .expired env.nowMs none item)
  else do
    write (withoutClaim item)
    return (some (withoutClaim item), requeueFact env.nowMs reason (withoutClaim item))

def releaseClaim (sessionId claimId : String) (reason : Option String) :
    QueueTransaction (CommittedQueueResult (List QueueItem)) :=
  if claimId = "" then return { value := [], facts := [] }
  else transaction sessionId do
    let facts ← expire sessionId env.nowMs
    let claimed ← claimRows sessionId claimId
    let released ← Effect.gather (releaseItem env sessionId (nonEmptyText reason)) claimed
    return { value := released.filterMap Prod.fst, facts := facts ++ released.map Prod.snd }

/-- `rejectClaim` and `removeClaimed`, which delete the rows of the claim. -/
def settleClaim (sessionId claimId : String) (reason : QueueRemovalReason)
    (admissionReason : Option String) : QueueTransaction (CommittedQueueResult (List QueueItem)) :=
  if claimId = "" then Effect.raise (.claimNotFound sessionId claimId)
  else transaction sessionId do
    let facts ← expire sessionId env.nowMs
    let claimed ← heldRows sessionId claimId
    deleteItems sessionId claimed
    return {
      value := claimed
      facts := facts ++ claimed.map (removalFact reason env.nowMs admissionReason) }

def rejectClaim (sessionId claimId reason : String) :
    QueueTransaction (CommittedQueueResult (List QueueItem)) :=
  settleClaim env sessionId claimId .admissionRejected (some reason)

def cancelClaim (sessionId claimId : String) :
    QueueTransaction (CommittedQueueResult (List QueueItem)) :=
  settleClaim env sessionId claimId .cancelled none

def consumeClaim (sessionId claimId : String) (reason : QueueClaimConsumeReason) :
    QueueTransaction (CommittedQueueResult (List QueueItem)) :=
  settleClaim env sessionId claimId reason.removal none

/-! ## Recovery -/

def activeClaim (scope : QueueClaimRecoveryScope) (item : QueueItem) : Bool :=
  if scope.claimedAtOrBeforeMs.any fun before => item.claimedAt.any fun at_ => at_.le before then false
  else match nonEmptyText item.claimOwnerId, item.claimedAt with
    | some ownerId, some claimedAt =>
      (JsNumber.finite env.nowMs).lt
          (item.claimLeaseExpiresAt.getD (claimedAt.add env.claimLeaseMs)) &&
        env.isClaimOwnerAlive ownerId
    | _, _ => false

/-- The claims, each with its items, in the order they first occur. -/
def groupClaims (items : List QueueItem) : List (String × List QueueItem) :=
  let claimed := items.filter fun item => item.status = .claimed
  (claimed.filterMap fun item => nonEmptyText item.claimId).eraseDups.map fun claimId =>
    (claimId, claimed.filter fun item => item.claimId = some claimId)

/-- The claims none of whose items is active. -/
def groupRecoverable (scope : QueueClaimRecoveryScope) (items : List QueueItem) :
    List (String × List QueueItem) :=
  (groupClaims items).filter fun group => !group.2.any (activeClaim env scope)

/-- The delivery of the claim was prepared last. -/
def pendingDelivery (claimId : String) (items : List QueueItem) : Bool :=
  items.any fun item => ((item.deliveryAttempts.getD []).getLast?).any fun attempt =>
    attempt.claimId = claimId

/-- Acknowledges or releases the items of a claim; answers which, and the facts. -/
def recoverClaim (sessionId : String) (isAccepted : QueueClaimAcceptanceQuery → Bool)
    (group : String × List QueueItem) :
    QueueTransaction (QueueClaimRecoveryResult × List QueueCommittedFact) := do
  let query ← claimQuery group.2 group.1 none
  if !pendingDelivery group.1 group.2 && isAccepted query then do
    deleteItems sessionId group.2
    return ({ acknowledged := group.2, released := [] },
      group.2.map (removalFact .accepted env.nowMs none))
  else do
    let released ← Effect.gather (releaseItem env sessionId none) group.2
    return ({ acknowledged := [], released := released.filterMap Prod.fst },
      released.map Prod.snd)

def recoverClaims (sessionId : String) (isAccepted : QueueClaimAcceptanceQuery → Bool)
    (scope : QueueClaimRecoveryScope) :
    QueueTransaction (CommittedQueueResult QueueClaimRecoveryResult) := transaction sessionId do
  let facts ← expire sessionId env.nowMs
  let claimed ← rowsByStatus sessionId .claimed
  let recovered ← Effect.gather (recoverClaim env sessionId isAccepted)
    (groupRecoverable env scope claimed)
  return {
    value := {
      acknowledged := recovered.flatMap fun r => r.1.acknowledged
      released := recovered.flatMap fun r => r.1.released }
    facts := facts ++ recovered.flatMap Prod.snd }

end QueueRepository

end Kinetick
