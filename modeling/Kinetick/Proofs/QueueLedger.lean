import Kinetick.Proofs.QueueClaims

/-!
# The facts of the queue are a ledger

What throws leaves the rows, and what commits tells in its facts every item it adds or removes. So
the facts of a run replayed are the pending items, and opened and closed in turn while the ids made
are new.
-/

namespace Kinetick

open QueueEntry QueueChange QueueRepository

/-! ## What throws -/

/-- What throws leaves the rows. -/
def Restores {α : Type} (m : QueueTransaction α) : Prop :=
  ∀ db e db', m db = (.error e, db') → db' = db

section Restores

variable {α : Type} {s : String} {env : QueueEnvironment}

theorem restores_pure (a : α) : Restores (pure a) := by
  rintro db e db' ⟨⟩

theorem restores_raise (e : QueueError) : Restores (Effect.raise e : QueueTransaction α) := by
  rintro db e db' ⟨⟩
  rfl

theorem restores_transaction (operation : QueueTransaction (CommittedQueueResult α)) :
    Restores (transaction s operation) := fun _ _ _ => Effect.atomically_error

theorem restores_mutationTransaction (operation : QueueTransaction (CommittedQueueResult α)) :
    Restores (mutationTransaction env s operation) := by
  unfold mutationTransaction
  rcases env.enqueueAdmission with _ | rejection
  · exact restores_transaction operation
  · exact restores_raise _

/-- What follows and answers does not matter. -/
theorem Restores.andThen {β : Type} {m : QueueTransaction α} (h : Restores m) (f : α → β) :
    Restores (m >>= fun a => pure (f a)) := by
  intro db e db' hm
  rcases hresult : m db with ⟨e' | a, db₁⟩
  · rw [Effect.bind_of_error hresult] at hm
    cases hm
    exact h _ _ _ hresult
  · rw [Effect.bind_of_ok hresult] at hm
    cases hm

theorem Restores.ite {p : Prop} [Decidable p] {m m' : QueueTransaction α} (h : Restores m)
    (h' : Restores m') : Restores (if p then m else m') := by
  split_ifs
  · exact h
  · exact h'

theorem perform_restores (env : QueueEnvironment) (op : QueueOperation) :
    Restores (op.perform env) := by
  rcases op with _ | _ | _ | _ | _ | _ | _ | _ | _ | _ | _ | _ | _ | _ | _ | _ | _ | _ | _ | _ | _ |
    _ | _
  case prepareDelivery =>
    exact ((restores_raise _).ite ((restores_transaction _).andThen _)).andThen _
  all_goals refine Restores.andThen ?_ _
  case enqueue => exact (restores_mutationTransaction _).ite (restores_pure _)
  case updateQueued => exact (restores_pure _).ite (restores_mutationTransaction _)
  case cancel => exact restores_mutationTransaction _
  case clearUserManageable => exact restores_mutationTransaction _
  case promoteQueuedSource => exact restores_mutationTransaction _
  case reorder => exact restores_mutationTransaction _
  case acknowledgeClaim => exact (restores_raise _).ite (restores_transaction _)
  case releaseClaim => exact (restores_pure _).ite (restores_transaction _)
  case rejectClaim => exact (restores_raise _).ite (restores_transaction _)
  case cancelClaim => exact (restores_raise _).ite (restores_transaction _)
  case consumeClaim => exact (restores_raise _).ite (restores_transaction _)
  case replaceSession => exact (restores_raise _).ite fun _ _ _ => Effect.atomically_error
  all_goals exact restores_transaction _

end Restores

/-! ## The ledger -/

variable {db db' : QueueDb} {env : QueueEnvironment} {op : QueueOperation} {s : String}

theorem stored_empty : QueueDb.empty.Stored := by
  intro row hrow
  cases hrow

/-- A step answers what it did or leaves the rows. -/
theorem step_cases (env : QueueEnvironment) (op : QueueOperation) (db : QueueDb) :
    (∃ facts, op.perform env db = (.ok facts, (queueSystem.step db (env, op)).1) ∧
      answeredFacts (queueSystem.step db (env, op)).2 = facts) ∨
    ((queueSystem.step db (env, op)).1 = db ∧
      answeredFacts (queueSystem.step db (env, op)).2 = []) := by
  rcases hperform : op.perform env db with ⟨e | facts, db'⟩
  · refine .inr ?_
    simp only [queueSystem, hperform]
    exact ⟨perform_restores env op _ _ _ hperform, rfl⟩
  · refine .inl ⟨facts, ?_, ?_⟩ <;> simp only [queueSystem, hperform]
    rfl

theorem stored_step (hdb : db.Stored) (hop : op.isReplaceSession = false) :
    (queueSystem.step db (env, op)).1.Stored := by
  rcases step_cases env op db with ⟨facts, hperform, -⟩ | ⟨hdb', -⟩
  · exact (perform_committed hdb hop hperform).stored hdb
  · rwa [hdb']

theorem stored_after {es : List (QueueEnvironment × QueueOperation)}
    (hes : ∀ e ∈ es, e.2.isReplaceSession = false) :
    (queueSystem.after queueSystem.initial es).Stored :=
  queueSystem.after_invariant (fun _ _ hdb hop => stored_step hdb hop) stored_empty
    (queueSystem.along_of_forall _ hes)

theorem Committed.tells {scope : QueueScope} {facts : List QueueCommittedFact} (hdb : db.Stored)
    (h : Committed scope s facts db db') (t : String) : db.Tells facts db' t := by
  obtain ⟨⟨changes, hsteps, hledger⟩, -, hothers, hstate, -⟩ := h
  refine ⟨?_, hstate t⟩
  rw [hledger]
  by_cases ht : t = s
  · subst ht
    rw [if_pos rfl]
    exact (hsteps hdb).ids
  · rw [if_neg ht]
    exact congrArg (fun rows => QueueEntry.ids (rows.map QueueRow.entry)) (hothers t ht).1

theorem tells_step (hdb : db.Stored) (hop : op.isReplaceSession = false) (t : String) :
    db.Tells (answeredFacts (queueSystem.step db (env, op)).2)
      (queueSystem.step db (env, op)).1 t := by
  rcases step_cases env op db with ⟨facts, hperform, hfacts⟩ | ⟨hdb', hfacts⟩
  · rw [hfacts]
    exact (perform_committed hdb hop hperform).tells hdb t
  · rw [hfacts, hdb']
    exact ⟨rfl, by simp⟩

/-- While the ids made are new, the facts open what is closed and close what is open. -/
theorem exact_step (hdb : db.Stored) (hop : op.isReplaceSession = false)
    (hnew : NewIds db (env, op)) (t : String) :
    Ledger.Exact ((answeredFacts (queueSystem.step db (env, op)).2).flatMap
      (QueueCommittedFact.ledger t)) (db.itemIds t) := by
  rcases step_cases env op db with ⟨facts, hperform, hfacts⟩ | ⟨-, hfacts⟩
  · obtain ⟨⟨changes, hsteps, hledger⟩, -, -, -, -⟩ := perform_committed hdb hop hperform
    rw [hfacts, hledger]
    by_cases ht : t = op.sessionId
    · subst ht
      rw [if_pos rfl]
      have hclashes : ¬ (op.scope env db).clashes := hnew
      exact Steps.exact hclashes (hsteps hdb)
    · rw [if_neg ht]
      trivial
  · rw [hfacts]
    trivial

theorem ledger_run {es : List (QueueEnvironment × QueueOperation)} (hdb : db.Stored)
    (hes : ∀ e ∈ es, e.2.isReplaceSession = false) (hnew : queueSystem.Along NewIds db es)
    (t : String) :
    let ledger := ((queueSystem.answers db es).flatMap answeredFacts).flatMap
      (QueueCommittedFact.ledger t)
    Ledger.Exact ledger (db.itemIds t) ∧
      (queueSystem.after db es).itemIds t = Ledger.replay ledger (db.itemIds t) := by
  induction es generalizing db with
  | nil => exact ⟨trivial, rfl⟩
  | cons e es ih =>
    have hop := hes e (.head _)
    obtain ⟨hexact, hreplay⟩ := ih (stored_step hdb hop) (fun e he => hes e (.tail _ he)) hnew.2
    have htells : (queueSystem.step db e).1.itemIds t = _ := (tells_step hdb hop t).items
    simp only [Machine.answers, List.flatMap_cons, List.flatMap_append, Ledger.exact_append,
      Ledger.replay_append, Machine.after_cons]
    rw [← htells]
    exact ⟨⟨exact_step hdb hop hnew.1 t, hexact⟩, hreplay⟩

/-- The facts are an exact ledger of the items, and tell what becomes of the pause. -/
theorem queue_facts_ledger (es : List (QueueEnvironment × QueueOperation))
    (hes : ∀ e ∈ es, e.2.isReplaceSession = false) :
    (∀ env op, op.isReplaceSession = false → ∀ s,
      let db := queueSystem.after queueSystem.initial es
      db.Tells (answeredFacts (queueSystem.step db (env, op)).2)
        (queueSystem.step db (env, op)).1 s) ∧
    (queueSystem.Along NewIds queueSystem.initial es → ∀ s itemId,
      Ledger.Exact (queueLedger es s) ∅ ∧
      (queueLedger es s).count (.opened itemId) = (queueLedger es s).count (.closed itemId) +
        Ledger.standing ((queueSystem.after queueSystem.initial es).itemIds s) itemId) := by
  constructor
  · intro env op hop s
    exact tells_step (stored_after hes) hop s
  · intro hnew s itemId
    obtain ⟨hexact, hreplay⟩ := ledger_run stored_empty hes hnew s
    refine ⟨hexact, ?_⟩
    have hcount := hexact.count itemId
    have hempty : Ledger.standing (QueueDb.empty.itemIds s) itemId = 0 := rfl
    rwa [← hreplay, hempty] at hcount

/-- A repository with no owner alive and nothing against an enqueue. -/
def sampleEnvironment (nowMs : ℤ) (newItemId newClaimId : String) : QueueEnvironment where
  nowMs := nowMs
  newItemId := newItemId
  newClaimId := newClaimId
  claimOwnerId := "owner"
  claimLeaseMs := 1000
  isClaimOwnerAlive _ := false
  enqueueAdmission := none

/-- An input with nothing but the two keys. -/
def sampleInput (dedupeKey clientRequestId : Option String) : QueueEnqueueInput where
  immediateSendBatch := .undefined
  createdAt := none
  sessionId := "s"
  agentName := "agent"
  itemId := none
  userMessageId := none
  requestedTurnId := none
  message := .object [("content", .string "hi"), ("attachments", .array [])]
  source := none
  front := false
  model := .undefined
  clientRequestId := clientRequestId
  dedupeKey := dedupeKey
  expiresAt := none

theorem queue_facts_ledger_cancelled :
    let es := [(sampleEnvironment 1 "a" "c", .enqueue (sampleInput none none)),
      (sampleEnvironment 2 "b" "c", QueueOperation.cancel "s" "a")]
    Ledger.Exact (queueLedger es "s") ∅ ∧ (queueLedger es "s").count (.opened "a") = 1 ∧
      (queueLedger es "s").count (.closed "a") = 1 := by
  intro es
  have hledger := (queue_facts_ledger es (by decide)).2
    ⟨fun ⟨row, hrow, _⟩ => (by cases hrow), (by
      rintro ⟨row, hrow, hid⟩
      revert row
      decide), trivial⟩ "s" "a"
  exact ⟨hledger.1, by decide, by decide⟩

end Kinetick
