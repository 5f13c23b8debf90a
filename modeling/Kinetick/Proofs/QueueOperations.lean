import Kinetick.Proofs.QueueChanges

/-!
# What each operation commits

The body of every operation is a sequence of steps with their facts, and its transaction adds the
fact of a pause that went with the last pending item.
-/

namespace Kinetick

open QueueEntry QueueChange QueueRepository

variable {scope : QueueScope} {s : String} {db db' db'' : QueueDb} {env : QueueEnvironment}

/-! ## The transaction -/

/-- The facts of a step about the pause alone, and what it did. -/
def PauseFacts (s : String) (facts : List QueueCommittedFact) (db db' : QueueDb) : Prop :=
  (facts = [] ∧ (db'.pauses s = db.pauses s ∨ db'.pauses s = none)) ∨
  (facts = [executionStateFact s true] ∧ db.pauses s = none ∧ db'.pauses s ≠ none ∧
    db'.rows s ≠ []) ∨
  (facts = [executionStateFact s false] ∧ db.pauses s ≠ none ∧ db'.pauses s = none)

/-- What the body of an operation does. -/
structure Commits (scope : QueueScope) (s : String) (facts : List QueueCommittedFact) (db db' : QueueDb) : Prop where
  changes : ∃ f g changes, facts = f ++ g ∧ Logs s f changes ∧ PauseFacts s g db db' ∧
    (db.Stored → Steps scope (db.entries s) changes (db'.entries s))
  stored : db.Stored → db'.Stored
  others : ∀ t, t ≠ s → db'.rows t = db.rows t ∧ db'.pauses t = db.pauses t

/-- What a committed operation does. -/
structure Committed (scope : QueueScope) (s : String) (facts : List QueueCommittedFact) (db db' : QueueDb) : Prop where
  changes : ∃ changes, (db.Stored → Steps scope (db.entries s) changes (db'.entries s)) ∧
    ∀ t, facts.flatMap (QueueCommittedFact.ledger t) =
      if t = s then changes.flatMap QueueChange.ledger else []
  stored : db.Stored → db'.Stored
  others : ∀ t, t ≠ s → db'.rows t = db.rows t ∧ db'.pauses t = db.pauses t
  state : ∀ t p, .executionStateChanged t p ∈ facts ↔
    (db'.pauses t).isSome = p ∧ (db.pauses t).isSome ≠ p
  reconciled : (db.rows s = [] → db.pauses s = none) → db'.rows s = [] → db'.pauses s = none

/-- A body without the pause. -/
theorem Does.commits {facts : List QueueCommittedFact} (h : Does scope s facts db db') :
    Commits scope s facts db db' := by
  obtain ⟨changes, hbecomes, hlogs⟩ := h
  refine ⟨⟨facts, [], changes, by simp, hlogs, .inl ⟨rfl, .inl ?_⟩, hbecomes.steps⟩,
    hbecomes.stored, fun t ht => ⟨hbecomes.others t ht, ?_⟩⟩ <;> rw [hbecomes.pauses]

/-- A body that ends with the pause. -/
theorem Does.commits_pause {f g : List QueueCommittedFact} (h : Does scope s f db db')
    (hitems : db''.items = db'.items) (hothers : ∀ t, t ≠ s → db''.pauses t = db'.pauses t)
    (hpause : PauseFacts s g db' db'') : Commits scope s (f ++ g) db db'' := by
  obtain ⟨changes, hbecomes, hlogs⟩ := h
  have hrows : ∀ t, db''.rows t = db'.rows t := fun t => by rw [QueueDb.rows, hitems]; rfl
  have hentries : db''.entries s = db'.entries s := by rw [QueueDb.entries, hrows]; rfl
  refine ⟨⟨f, g, changes, rfl, hlogs, ?_, fun hdb => hentries ▸ hbecomes.steps hdb⟩,
    fun hdb => ?_, fun t ht => ⟨(hrows t).trans (hbecomes.others t ht), ?_⟩⟩
  · rwa [PauseFacts, ← hbecomes.pauses]
  · unfold QueueDb.Stored
    rw [hitems]
    exact hbecomes.stored hdb
  · rw [hothers t ht, hbecomes.pauses]

theorem reconcilePause_ok (h : reconcilePause s db = (.ok (), db')) :
    db'.items = db.items ∧ (∀ t, t ≠ s → db'.pauses t = db.pauses t) ∧
      db'.pauses s = if db.rows s = [] then none else db.pauses s := by
  obtain ⟨pending, db₁, hpending, h⟩ := Effect.bind_ok h
  obtain ⟨rfl, rfl⟩ := Effect.read_ok hpending
  split_ifs at h with hpos
  · obtain ⟨-, rfl⟩ := Effect.pure_ok h
    exact ⟨rfl, fun _ _ => rfl, by rw [if_neg (List.ne_nil_of_length_pos hpos)]⟩
  · rw [Effect.change_ok h, if_pos (by simpa using hpos)]
    exact ⟨rfl, fun t ht => Function.update_of_ne ht _ _, Function.update_self _ _ _⟩

/-- The facts of a transaction: those of the body, and the end of a pause that no fact told. -/
theorem withPauseRemovalFact_facts {α : Type} (result : CommittedQueueResult α) (removed : Bool) :
    (withPauseRemovalFact result s removed).facts = result.facts ++
      if removed ∧ executionStateFact s false ∉ result.facts then [executionStateFact s false]
      else [] := by
  unfold withPauseRemovalFact
  by_cases hmem : executionStateFact s false ∈ result.facts <;>
    rcases removed with _ | _ <;> simp [hmem]

theorem withPauseRemovalFact_value {α : Type} (result : CommittedQueueResult α) (removed : Bool) :
    (withPauseRemovalFact result s removed).value = result.value := by
  unfold withPauseRemovalFact
  split_ifs <;> rfl

/-- With the facts of the pause, a transaction tells what became of it. -/
theorem state_of_pauseFacts {g : List QueueCommittedFact} (hpause : PauseFacts s g db db')
    (hpauses : db''.pauses s = if db'.rows s = [] then none else db'.pauses s) (p : Bool) :
    executionStateFact s p ∈ g ++ (if ((db.pauses s).isSome && !(db''.pauses s).isSome) = true ∧
        executionStateFact s false ∉ g then [executionStateFact s false] else []) ↔
      (db''.pauses s).isSome = p ∧ (db.pauses s).isSome ≠ p := by
  rcases hpause with ⟨rfl, hsame⟩ | ⟨rfl, hnone, hsome, hrows⟩ | ⟨rfl, hsome, hnone⟩
  · have hafter : db''.pauses s = db.pauses s ∨ db''.pauses s = none := by
      rw [hpauses]
      split_ifs
      · exact .inr rfl
      · exact hsame
    rcases hbefore : db.pauses s with _ | before <;> rcases hafter with hafter | hafter <;>
      rcases p with _ | _ <;> simp [hafter, hbefore, executionStateFact]
  · rw [if_neg hrows] at hpauses
    rcases hbefore : db'.pauses s with _ | before
    · exact absurd hbefore hsome
    · rcases p with _ | _ <;> simp [hpauses, hbefore, hnone, executionStateFact]
  · have hafter : db''.pauses s = none := by rw [hpauses, hnone, ite_self]
    rcases hbefore : db.pauses s with _ | before
    · exact absurd hbefore hsome
    · rcases p with _ | _ <;> simp [hafter, executionStateFact]

theorem PauseFacts.ledger {g : List QueueCommittedFact} (h : PauseFacts s g db db') (t : String) :
    g.flatMap (QueueCommittedFact.ledger t) = [] := by
  rcases h with ⟨rfl, -⟩ | ⟨rfl, -⟩ | ⟨rfl, -⟩ <;> rfl

theorem PauseFacts.own {g : List QueueCommittedFact} (h : PauseFacts s g db db') {t : String}
    {p : Bool} (hmem : .executionStateChanged t p ∈ g) : t = s := by
  rcases h with ⟨rfl, -⟩ | ⟨rfl, -⟩ | ⟨rfl, -⟩ <;> simp [executionStateFact] at hmem
  · exact hmem.1
  · exact hmem.1

/-- The transaction of a body commits what the body does. -/
theorem transaction_committed_value {α : Type}
    {operation : QueueTransaction (CommittedQueueResult α)} {result : CommittedQueueResult α}
    {scope : α → QueueScope}
    (hbody : ∀ {result db'}, operation db = (.ok result, db') →
      Commits (scope result.value) s result.facts db db')
    (h : transaction s operation db = (.ok result, db')) :
    Committed (scope result.value) s result.facts db db' := by
  replace h := Effect.atomically_ok h
  obtain ⟨before, db₁, hbefore, h₁⟩ := Effect.bind_ok h
  obtain ⟨rfl, rfl⟩ := Effect.read_ok hbefore
  obtain ⟨inner, db₂, hinner, h₂⟩ := Effect.bind_ok h₁
  obtain ⟨⟨⟩, db₃, hreconcile, h₃⟩ := Effect.bind_ok h₂
  obtain ⟨after, db₄, hafter, h₄⟩ := Effect.bind_ok h₃
  obtain ⟨rfl, rfl⟩ := Effect.read_ok hafter
  obtain ⟨rfl, rfl⟩ := Effect.pure_ok h₄
  obtain ⟨⟨f, g, changes, hfacts, hlogs, hpause, hsteps⟩, hstored, hothers⟩ := hbody hinner
  obtain ⟨hitems, hpausesOthers, hpauses⟩ := reconcilePause_ok hreconcile
  have hrows : ∀ t, db'.rows t = db₂.rows t := fun t => by rw [QueueDb.rows, hitems]; rfl
  have hentries : db'.entries s = db₂.entries s := by rw [QueueDb.entries, hrows]; rfl
  have hbodyFact : ∀ p, executionStateFact s p ∈ f ++ g ↔ executionStateFact s p ∈ g := fun p => by
    exact List.mem_append.trans (or_iff_right (hlogs.noState s p))
  rw [withPauseRemovalFact_facts, withPauseRemovalFact_value, hfacts]
  simp only [hbodyFact]
  refine ⟨⟨changes, fun hdb => hentries ▸ hsteps hdb, fun t => ?_⟩, fun hdb => ?_, fun t ht => ?_,
    fun t p => ?_, fun _ hempty => ?_⟩
  · rw [List.flatMap_append, List.flatMap_append, hlogs.ledger, hpause.ledger]
    split_ifs <;> simp [executionStateFact, QueueCommittedFact.ledger]
  · unfold QueueDb.Stored
    rw [hitems]
    exact hstored hdb
  · rw [hrows, hpausesOthers t ht]
    exact hothers t ht
  · rw [List.append_assoc, List.mem_append, or_iff_right (hlogs.noState t p)]
    by_cases ht : t = s
    · subst ht
      exact state_of_pauseFacts hpause hpauses p
    · rw [hpausesOthers t ht, (hothers t ht).2]
      refine iff_of_false (fun hmem => ?_) fun h => h.2 h.1
      rcases List.mem_append.1 hmem with hmem | hmem
      · exact ht (hpause.own hmem)
      · split_ifs at hmem <;> simp [executionStateFact, ht] at hmem
  · rw [hpauses, if_pos ((hrows s).symm.trans hempty)]

theorem transaction_committed {α : Type} {operation : QueueTransaction (CommittedQueueResult α)}
    {result : CommittedQueueResult α}
    (hbody : ∀ {result db'}, operation db = (.ok result, db') →
      Commits scope s result.facts db db')
    (h : transaction s operation db = (.ok result, db')) : Committed scope s result.facts db db' :=
  @transaction_committed_value s db db' α operation result (fun _ => scope) hbody h

theorem mutationTransaction_ok {α : Type} {operation : QueueTransaction (CommittedQueueResult α)}
    {result : CommittedQueueResult α}
    (h : mutationTransaction env s operation db = (.ok result, db')) :
    transaction s operation db = (.ok result, db') := by
  rcases hadmission : env.enqueueAdmission with _ | rejection <;>
    simp only [mutationTransaction, hadmission] at h
  · exact h
  · cases h

/-- A transaction leaves the rows its body does, and the facts of the body come first. -/
theorem transaction_ok {α : Type} {operation : QueueTransaction (CommittedQueueResult α)}
    {result : CommittedQueueResult α} (h : transaction s operation db = (.ok result, db')) :
    ∃ inner db₁ rest, operation db = (.ok inner, db₁) ∧ result.value = inner.value ∧
      result.facts = inner.facts ++ rest ∧ ∀ t, db'.rows t = db₁.rows t := by
  replace h := Effect.atomically_ok h
  obtain ⟨before, db₁, hbefore, h₁⟩ := Effect.bind_ok h
  obtain ⟨rfl, rfl⟩ := Effect.read_ok hbefore
  obtain ⟨inner, db₂, hinner, h₂⟩ := Effect.bind_ok h₁
  obtain ⟨⟨⟩, db₃, hreconcile, h₃⟩ := Effect.bind_ok h₂
  obtain ⟨after, db₄, hafter, h₄⟩ := Effect.bind_ok h₃
  obtain ⟨rfl, rfl⟩ := Effect.read_ok hafter
  obtain ⟨rfl, rfl⟩ := Effect.pure_ok h₄
  refine ⟨inner, db₂, _, hinner, withPauseRemovalFact_value _ _, withPauseRemovalFact_facts _ _,
    fun t => ?_⟩
  rw [QueueDb.rows, (reconcilePause_ok hreconcile).1, QueueDb.rows]

/-- What changes nothing. -/
theorem Committed.refl (scope : QueueScope) (s : String) (db : QueueDb) : Committed scope s [] db db where
  changes := ⟨[], fun _ => rfl, fun t => by simp⟩
  stored h := h
  others _ _ := ⟨rfl, rfl⟩
  state t p := by simp
  reconciled h hrows := h hrows

/-! ## Reads and the pause -/

section Reads

variable {α : Type} {result : CommittedQueueResult α}

theorem executionSnapshot_ok {value : QueueExecutionSnapshot}
    (h : executionSnapshot s db = (.ok value, db')) : db' = db := by
  obtain ⟨_, db₁, hpause, h₁⟩ := Effect.bind_ok h
  obtain ⟨_, db₂, hcount, h₂⟩ := Effect.bind_ok h₁
  rw [(Effect.pure_ok h₂).2, (Effect.read_ok hcount).2, (Effect.read_ok hpause).2]

theorem snapshot_committed {result : CommittedQueueResult QueueExecutionSnapshot}
    (h : snapshot env s db = (.ok result, db')) : Committed scope s result.facts db db' := by
  refine transaction_committed (fun {result db'} h => ?_) h
  obtain ⟨facts, db₁, hexpire, h₁⟩ := Effect.bind_ok h
  obtain ⟨⟨⟩, db₂, hreconcile, h₂⟩ := Effect.bind_ok h₁
  obtain ⟨value, db₃, hvalue, h₃⟩ := Effect.bind_ok h₂
  obtain ⟨rfl, rfl⟩ := Effect.pure_ok h₃
  obtain rfl := executionSnapshot_ok hvalue
  obtain ⟨hitems, hothers, hpauses⟩ := reconcilePause_ok hreconcile
  have hcommits : Commits scope s (facts ++ []) db db' :=
    (expire_does hexpire).commits_pause hitems hothers
    (.inl ⟨rfl, by rw [hpauses]; split_ifs <;> simp⟩)
  rwa [List.append_nil] at hcommits

theorem list_committed {result : CommittedQueueResult (List QueueItem)}
    (h : QueueRepository.list env s db = (.ok result, db')) : Committed scope s result.facts db db' := by
  refine transaction_committed (fun {result db'} h => ?_) h
  obtain ⟨facts, db₁, hexpire, h₁⟩ := Effect.bind_ok h
  obtain ⟨value, db₂, hvalue, h₂⟩ := Effect.bind_ok h₁
  obtain ⟨rfl, rfl⟩ := Effect.pure_ok h₂
  obtain ⟨-, rfl⟩ := select_ok hvalue
  exact (expire_does hexpire).commits

theorem findByClientRequestId_committed {request : String}
    {result : CommittedQueueResult (Option QueueItem)}
    (h : findByClientRequestId env s request db = (.ok result, db')) :
    Committed scope s result.facts db db' := by
  refine transaction_committed (fun {result db'} h => ?_) h
  obtain ⟨facts, db₁, hexpire, h₁⟩ := Effect.bind_ok h
  obtain ⟨value, db₂, hvalue, h₂⟩ := Effect.bind_ok h₁
  obtain ⟨rfl, rfl⟩ := Effect.pure_ok h₂
  obtain ⟨rfl, -⟩ := selectFirst_ok hvalue
  exact (expire_does hexpire).commits

theorem get_committed {itemId : String} {result : CommittedQueueResult (Option QueueItem)}
    (h : QueueRepository.get env s itemId db = (.ok result, db')) :
    Committed scope s result.facts db db' := by
  refine transaction_committed (fun {result db'} h => ?_) h
  obtain ⟨facts, db₁, hexpire, h₁⟩ := Effect.bind_ok h
  obtain ⟨value, db₂, hvalue, h₂⟩ := Effect.bind_ok h₁
  obtain ⟨rfl, rfl⟩ := Effect.pure_ok h₂
  obtain ⟨rfl, -⟩ := selectFirst_ok hvalue
  exact (expire_does hexpire).commits

theorem setPause_ok {pause : Option QueuePause} (h : setPause s pause db = (.ok (), db')) :
    db'.items = db.items ∧ (∀ t, t ≠ s → db'.pauses t = db.pauses t) ∧ db'.pauses s = pause := by
  rw [Effect.change_ok h]
  exact ⟨rfl, fun t ht => Function.update_of_ne ht _ _, Function.update_self _ _ _⟩

theorem insertPause_ok {input : QueuePauseInput} {facts : List QueueCommittedFact}
    (h : insertPause env input db = (.ok facts, db')) :
    db'.items = db.items ∧
      (∀ t, t ≠ input.sessionId → db'.pauses t = db.pauses t) ∧
      (facts = [] ∧ db' = db ∨
        facts = [executionStateFact input.sessionId true] ∧ db.pauses input.sessionId = none ∧
          db'.pauses input.sessionId ≠ none ∧ db.rows input.sessionId ≠ []) := by
  obtain ⟨pending, db₁, hpending, h₁⟩ := Effect.bind_ok h
  obtain ⟨existing, db₂, hexisting, h₂⟩ := Effect.bind_ok h₁
  obtain ⟨rfl, rfl⟩ := Effect.read_ok hpending
  obtain ⟨rfl, rfl⟩ := Effect.read_ok hexisting
  split_ifs at h₂ with hcond
  · obtain ⟨⟨⟩, db₃, hset, h₃⟩ := Effect.bind_ok h₂
    obtain ⟨rfl, rfl⟩ := Effect.pure_ok h₃
    obtain ⟨hitems, hothers, hpause⟩ := setPause_ok hset
    exact ⟨hitems, hothers, .inr ⟨rfl, hcond.2, by simp [hpause],
      List.ne_nil_of_length_pos hcond.1⟩⟩
  · obtain ⟨rfl, rfl⟩ := Effect.pure_ok h₂
    exact ⟨rfl, fun _ _ => rfl, .inl ⟨rfl, rfl⟩⟩

theorem pauseIfPending_committed {input : QueuePauseInput}
    {result : CommittedQueueResult QueueExecutionSnapshot}
    (h : pauseIfPending env input db = (.ok result, db')) :
    Committed scope input.sessionId result.facts db db' := by
  refine transaction_committed (fun {result db'} h => ?_) h
  obtain ⟨facts, db₁, hexpire, h₁⟩ := Effect.bind_ok h
  obtain ⟨⟨⟩, db₂, hreconcile, h₂⟩ := Effect.bind_ok h₁
  obtain ⟨inserted, db₃, hinsert, h₃⟩ := Effect.bind_ok h₂
  obtain ⟨value, db₄, hvalue, h₄⟩ := Effect.bind_ok h₃
  obtain ⟨rfl, rfl⟩ := Effect.pure_ok h₄
  obtain rfl := executionSnapshot_ok hvalue
  obtain ⟨hitems, hothers, hpauses⟩ := reconcilePause_ok hreconcile
  obtain ⟨hitems', hothers', hcases⟩ := insertPause_ok hinsert
  refine (expire_does hexpire).commits_pause (hitems'.trans hitems)
    (fun t ht => (hothers' t ht).trans (hothers t ht)) ?_
  have hrows : db₂.rows input.sessionId = db₁.rows input.sessionId := by
    rw [QueueDb.rows, hitems]
    rfl
  have hrows' : db'.rows input.sessionId = db₂.rows input.sessionId := by
    rw [QueueDb.rows, hitems']
    rfl
  rcases hcases with ⟨rfl, rfl⟩ | ⟨rfl, hnone, hsome, hpending⟩
  · exact .inl ⟨rfl, by rw [hpauses]; split_ifs <;> simp⟩
  · rw [hpauses, if_neg (hrows ▸ hpending)] at hnone
    exact .inr (.inl ⟨rfl, hnone, hsome, hrows'.symm ▸ hpending⟩)

theorem deletePause_ok {expectedPause : Option QueuePause} {facts : List QueueCommittedFact}
    (h : deletePause s expectedPause db = (.ok facts, db')) :
    db'.items = db.items ∧ (∀ t, t ≠ s → db'.pauses t = db.pauses t) ∧
      (facts = [] ∧ db' = db ∨
        facts = [executionStateFact s false] ∧ db.pauses s ≠ none ∧ db'.pauses s = none) := by
  obtain ⟨existing, db₁, hexisting, h₁⟩ := Effect.bind_ok h
  obtain ⟨rfl, rfl⟩ := Effect.read_ok hexisting
  split_ifs at h₁ with hcond
  · obtain ⟨⟨⟩, db₂, hset, h₂⟩ := Effect.bind_ok h₁
    obtain ⟨rfl, rfl⟩ := Effect.pure_ok h₂
    obtain ⟨hitems, hothers, hpause⟩ := setPause_ok hset
    refine ⟨hitems, hothers, .inr ⟨rfl, fun hnone => ?_, hpause⟩⟩
    simp [hnone] at hcond
  · obtain ⟨rfl, rfl⟩ := Effect.pure_ok h₁
    exact ⟨rfl, fun _ _ => rfl, .inl ⟨rfl, rfl⟩⟩

theorem continueQueue_committed {expectedPause : Option QueuePause}
    {result : CommittedQueueResult QueueExecutionSnapshot}
    (h : continueQueue env s expectedPause db = (.ok result, db')) :
    Committed scope s result.facts db db' := by
  refine transaction_committed (fun {result db'} h => ?_) h
  obtain ⟨facts, db₁, hexpire, h₁⟩ := Effect.bind_ok h
  obtain ⟨⟨⟩, db₂, hreconcile, h₂⟩ := Effect.bind_ok h₁
  obtain ⟨deleted, db₃, hdelete, h₃⟩ := Effect.bind_ok h₂
  obtain ⟨value, db₄, hvalue, h₄⟩ := Effect.bind_ok h₃
  obtain ⟨rfl, rfl⟩ := Effect.pure_ok h₄
  obtain rfl := executionSnapshot_ok hvalue
  obtain ⟨hitems, hothers, hpauses⟩ := reconcilePause_ok hreconcile
  obtain ⟨hitems', hothers', hcases⟩ := deletePause_ok hdelete
  refine (expire_does hexpire).commits_pause (hitems'.trans hitems)
    (fun t ht => (hothers' t ht).trans (hothers t ht)) ?_
  rcases hcases with ⟨rfl, rfl⟩ | ⟨rfl, hsome, hnone⟩
  · exact .inl ⟨rfl, by rw [hpauses]; split_ifs <;> simp⟩
  · refine .inr (.inr ⟨rfl, fun h => hsome ?_, hnone⟩)
    rw [hpauses, h, ite_self]

theorem clearPause_ok {facts : List QueueCommittedFact}
    (h : clearPause s db = (.ok facts, db')) :
    db'.items = db.items ∧ (∀ t, t ≠ s → db'.pauses t = db.pauses t) ∧
      PauseFacts s facts db db' := by
  obtain ⟨pending, db₁, hpending, h₁⟩ := Effect.bind_ok h
  obtain ⟨existing, db₂, hexisting, h₂⟩ := Effect.bind_ok h₁
  obtain ⟨rfl, rfl⟩ := Effect.read_ok hpending
  obtain ⟨rfl, rfl⟩ := Effect.read_ok hexisting
  split_ifs at h₂ with hcond
  · obtain ⟨⟨⟩, db₃, hset, h₃⟩ := Effect.bind_ok h₂
    obtain ⟨rfl, rfl⟩ := Effect.pure_ok h₃
    obtain ⟨hitems, hothers, hpause⟩ := setPause_ok hset
    exact ⟨hitems, hothers, .inr (.inr ⟨rfl, Option.isSome_iff_ne_none.1 hcond.2, hpause⟩)⟩
  · obtain ⟨rfl, rfl⟩ := Effect.pure_ok h₂
    exact ⟨rfl, fun _ _ => rfl, .inl ⟨rfl, .inl rfl⟩⟩

end Reads

/-! ## Edits -/

theorem find_ok {itemId : String} {item : Option QueueItem}
    (h : find s itemId db = (.ok item, db')) :
    db' = db ∧ match item with
      | none => ∀ row ∈ db.rows s, row.itemId ≠ itemId
      | some item => Present s db item ∧ item.itemId = itemId := by
  obtain ⟨rfl, hitem⟩ := selectFirst_ok h
  refine ⟨rfl, ?_⟩
  rcases item with _ | item
  · exact fun row hrow hid => by simpa [hid] using hitem row hrow
  · obtain ⟨row, hrow, hid, hdecodes⟩ := hitem
    refine ⟨⟨row, hrow, hdecodes⟩, ?_⟩
    rw [hdecodes.itemId]
    simpa using hid

/-- A write of an item that keeps what its entry shows. -/
theorem does_edit {item edited : QueueItem} (hitem : Present s db item)
    (hentry : edited.entry = item.entry) (hsession : edited.sessionId = item.sessionId)
    (h : write edited db = (.ok (), db')) : Does scope s [] db db' :=
  (becomes_edit (hsession.trans hitem.sessionId) h fun hdb => hentry ▸ hitem.entry hdb).does

theorem updatedItem_entry (input : QueueUpdateInput) (item : QueueItem) :
    (updatedItem input item).entry = item.entry ∧
      (updatedItem input item).sessionId = item.sessionId := by
  have hmodel : ∀ item : QueueItem, (modelUpdate input item).entry = item.entry ∧
      (modelUpdate input item).sessionId = item.sessionId := by
    intro item
    unfold modelUpdate
    split
    · exact ⟨rfl, rfl⟩
    · split_ifs <;> exact ⟨rfl, rfl⟩
  obtain ⟨hentry, hsession⟩ : (if input.message.truthy = true then
      replaceItemMessage item input.message else item).entry = item.entry ∧
      (if input.message.truthy = true then
      replaceItemMessage item input.message else item).sessionId = item.sessionId := by
    split_ifs <;> exact ⟨rfl, rfl⟩
  unfold updatedItem
  obtain ⟨hentry', hsession'⟩ := hmodel (if input.message.truthy = true then
    replaceItemMessage item input.message else item)
  rcases input.expiresAt with _ | expiresAt
  · exact ⟨hentry'.trans hentry, hsession'.trans hsession⟩
  · exact ⟨hentry'.trans hentry, hsession'.trans hsession⟩

theorem updateQueued_committed {input : QueueUpdateInput} {result : CommittedQueueResult QueueEdit}
    (h : updateQueued env input db = (.ok result, db')) :
    Committed scope input.sessionId result.facts db db' := by
  unfold updateQueued at h
  by_cases hvalid : (!input.valid) = true
  · rw [if_pos hvalid] at h
    obtain ⟨rfl, rfl⟩ := Effect.pure_ok h
    exact .refl _ _ _
  rw [if_neg hvalid] at h
  refine transaction_committed (fun {result db'} h => ?_) (mutationTransaction_ok h)
  obtain ⟨facts, db₁, hexpire, h₁⟩ := Effect.bind_ok h
  split_ifs at h₁
  · obtain ⟨rfl, rfl⟩ := Effect.pure_ok h₁
    exact (expire_does hexpire).commits
  obtain ⟨item, db₂, hfind, h₂⟩ := Effect.bind_ok h₁
  obtain ⟨rfl, hitem⟩ := find_ok hfind
  rcases item with _ | item
  · obtain ⟨rfl, rfl⟩ := Effect.pure_ok h₂
    exact (expire_does hexpire).commits
  dsimp only at h₂
  split_ifs at h₂
  · obtain ⟨rfl, rfl⟩ := Effect.pure_ok h₂
    exact (expire_does hexpire).commits
  obtain ⟨⟨⟩, db₃, hwrite, h₃⟩ := Effect.bind_ok h₂
  obtain ⟨rfl, rfl⟩ := Effect.pure_ok h₃
  have hedit : Does scope _ [] db₂ db' := does_edit hitem.1 (updatedItem_entry input item).1
    (updatedItem_entry input item).2 hwrite
  have hdoes : Does scope _ _ db db' := (expire_does hexpire).trans hedit
  rw [List.append_nil] at hdoes
  exact hdoes.commits

theorem cancel_committed {itemId : String} {result : CommittedQueueResult QueueEdit}
    (h : cancel env s itemId db = (.ok result, db')) : Committed scope s result.facts db db' := by
  refine transaction_committed (fun {result db'} h => ?_) (mutationTransaction_ok h)
  obtain ⟨facts, db₁, hexpire, h₁⟩ := Effect.bind_ok h
  obtain ⟨item, db₂, hfind, h₂⟩ := Effect.bind_ok h₁
  obtain ⟨rfl, hitem⟩ := find_ok hfind
  rcases item with _ | item
  · obtain ⟨rfl, rfl⟩ := Effect.pure_ok h₂
    exact (expire_does hexpire).commits
  dsimp only at h₂
  split_ifs at h₂
  · obtain ⟨rfl, rfl⟩ := Effect.pure_ok h₂
    exact (expire_does hexpire).commits
  obtain ⟨⟨⟩, db₃, hdelete, h₃⟩ := Effect.bind_ok h₂
  obtain ⟨rfl, rfl⟩ := Effect.pure_ok h₃
  obtain ⟨hpresent, rfl⟩ := hitem
  exact ((expire_does hexpire).trans (does_deleteItem _ _ _ hpresent hdelete)).commits

theorem clearUserManageable_committed {result : CommittedQueueResult (List QueueItem)}
    (h : clearUserManageable env s db = (.ok result, db')) : Committed scope s result.facts db db' := by
  refine transaction_committed (fun {result db'} h => ?_) (mutationTransaction_ok h)
  obtain ⟨facts, db₁, hexpire, h₁⟩ := Effect.bind_ok h
  obtain ⟨clearedItems, db₂, hclear, h₂⟩ := Effect.bind_ok h₁
  obtain ⟨cleared, db₃, hpause, h₃⟩ := Effect.bind_ok h₂
  obtain ⟨rfl, rfl⟩ := Effect.pure_ok h₃
  obtain ⟨selected, db₄, hselect, h₄⟩ := Effect.bind_ok hclear
  obtain ⟨hitems, rfl⟩ := select_ok hselect
  obtain ⟨⟨⟩, db₅, hdelete, h₅⟩ := Effect.bind_ok h₄
  obtain ⟨rfl, rfl⟩ := Effect.pure_ok h₅
  obtain ⟨hitemsSame, hothers, hfacts⟩ := clearPause_ok hpause
  have hdeleted : Does scope s _ _ _ := does_delete_selected .cancelled env.nowMs hitems
  rw [← deleteRows_ok hdelete] at hdeleted
  exact ((expire_does hexpire).trans hdeleted).commits_pause hitemsSame hothers hfacts

theorem promoteQueuedSource_committed {itemId : String} {source : QueueMessageSource}
    {result : CommittedQueueResult QueueEdit}
    (h : promoteQueuedSource env s itemId source db = (.ok result, db')) :
    Committed scope s result.facts db db' := by
  refine transaction_committed (fun {result db'} h => ?_) (mutationTransaction_ok h)
  obtain ⟨facts, db₁, hexpire, h₁⟩ := Effect.bind_ok h
  obtain ⟨item, db₂, hfind, h₂⟩ := Effect.bind_ok h₁
  obtain ⟨rfl, hitem⟩ := find_ok hfind
  rcases item with _ | item
  · obtain ⟨rfl, rfl⟩ := Effect.pure_ok h₂
    exact (expire_does hexpire).commits
  dsimp only at h₂
  split_ifs at h₂
  · obtain ⟨rfl, rfl⟩ := Effect.pure_ok h₂
    exact (expire_does hexpire).commits
  obtain ⟨⟨⟩, db₃, hwrite, h₃⟩ := Effect.bind_ok h₂
  obtain ⟨rfl, rfl⟩ := Effect.pure_ok h₃
  have hedit : Does scope s [] db₂ db' := does_edit hitem.1 (by rfl) (by rfl) hwrite
  have hdoes : Does scope _ _ db db' := (expire_does hexpire).trans hedit
  rw [List.append_nil] at hdoes
  exact hdoes.commits

theorem drainComposerInjectable_committed {result : CommittedQueueResult (List QueueItem)}
    (h : drainComposerInjectable env s db = (.ok result, db')) :
    Committed scope s result.facts db db' := by
  refine transaction_committed (fun {result db'} h => ?_) h
  obtain ⟨facts, db₁, hexpire, h₁⟩ := Effect.bind_ok h
  obtain ⟨selected, db₂, hselect, h₂⟩ := Effect.bind_ok h₁
  obtain ⟨hitems, rfl⟩ := select_ok hselect
  obtain ⟨⟨⟩, db₃, hdelete, h₃⟩ := Effect.bind_ok h₂
  obtain ⟨rfl, rfl⟩ := Effect.pure_ok h₃
  exact ((expire_does hexpire).trans (deleteItems_does _ _ _ (nodup_of_forall₂ hitems)
    (fun item hitem => (present_of_forall₂ hitems hitem).1) hdelete).1).commits

theorem deleteSession_committed {result : CommittedQueueResult Unit}
    (h : deleteSession env s db = (.ok result, db')) : Committed scope s result.facts db db' := by
  refine transaction_committed (fun {result db'} h => ?_) h
  obtain ⟨facts, db₁, hexpire, h₁⟩ := Effect.bind_ok h
  obtain ⟨remaining, db₂, hselect, h₂⟩ := Effect.bind_ok h₁
  obtain ⟨hitems, rfl⟩ := select_ok hselect
  obtain ⟨⟨⟩, db₃, hdelete, h₃⟩ := Effect.bind_ok h₂
  obtain ⟨rfl, rfl⟩ := Effect.pure_ok h₃
  have hdeleted : Does scope s _ _ _ := does_delete_selected .cancelled env.nowMs hitems
  rw [← deleteRows_ok hdelete] at hdeleted
  exact ((expire_does hexpire).trans hdeleted).commits

/-! ## The order -/

theorem forEach_insert_ok : ∀ {items : List QueueItem} {db db' : QueueDb},
    (∀ item ∈ items, item.sessionId = s) →
    Effect.forEach QueueRepository.insert items db = (.ok (), db') →
    Wrote s (db.rows s ++ items.map QueueItem.storage) db db'
  | [], db, db', _, h => by
    obtain ⟨-, rfl⟩ := Effect.pure_ok h
    exact ⟨by simp, fun h => h, fun _ _ => rfl, rfl⟩
  | item :: items, db, db', hs, h => by
    obtain ⟨⟨⟩, db₁, hinsert, hrest⟩ := Effect.bind_ok h
    obtain ⟨hwrote, -⟩ := insert_ok hinsert
    rw [hs item (.head _)] at hwrote
    have hrec := forEach_insert_ok (fun other hother => hs other (.tail _ hother)) hrest
    refine ⟨?_, fun hdb => hrec.stored (hwrote.stored hdb),
      fun t ht => (hrec.others t ht).trans (hwrote.others t ht), hrec.pauses.trans hwrote.pauses⟩
    rw [hrec.rows, hwrote.rows]
    simp

theorem others_deleteRows {p : QueueRow → Bool} {t : String} (ht : t ≠ s) :
    (deleteRows s p db).2.rows t = db.rows t := by
  rw [rows_deleteRows, if_neg ht]

theorem replaceRows_ok {items : List QueueItem} (hs : ∀ item ∈ items, item.sessionId = s)
    (h : replaceRows s items db = (.ok (), db')) :
    Wrote s (items.map QueueItem.storage) db db' := by
  obtain ⟨⟨⟩, db₁, hdelete, hinsert⟩ := Effect.bind_ok h
  obtain rfl := deleteRows_ok hdelete
  have hwrote := forEach_insert_ok hs hinsert
  refine ⟨?_, fun hdb => hwrote.stored (stored_deleteRows _ _ hdb),
    fun t ht => (hwrote.others t ht).trans (others_deleteRows ht), hwrote.pauses⟩
  rw [hwrote.rows, rows_deleteRows, if_pos rfl]
  simp

/-- A complete permutation of the items has their ids. -/
theorem completePermutation_perm {items : List QueueItem} {itemIds : List String}
    (h : completePermutation items itemIds = true) :
    itemIds.Perm (items.map QueueItem.itemId) := by
  unfold completePermutation at h
  simp only [Bool.and_eq_true, decide_eq_true_eq, List.all_eq_true, List.any_eq_true] at h
  obtain ⟨⟨⟨-, hlength⟩, hnodup⟩, hall⟩ := h
  refine (List.subperm_of_subset hnodup fun id hid => ?_).perm_of_length_le ?_
  · obtain ⟨item, hitem, rfl⟩ := hall id hid
    exact List.mem_map_of_mem hitem
  · rw [List.length_map, hlength]

/-- The entries of the items in the order of the ids. -/
theorem map_entry_reordered (items : List QueueItem) (itemIds : List String) :
    (reordered items itemIds).map QueueItem.entry =
      (QueueChange.reordered itemIds).apply (items.map QueueItem.entry) := by
  unfold QueueRepository.reordered
  rw [List.map_filterMap, QueueChange.apply]
  congr 1
  funext id
  rw [List.find?_map]
  rfl

theorem becomes_reorder {items : List QueueItem} {itemIds : List String}
    (hreorders : scope.reorders)
    (hitems : List.Forall₂ Decodes ((db.rows s).filter fun row => row.status = .queued) items)
    (hqueued : ∀ row ∈ db.rows s, row.status = .queued)
    (hperm : completePermutation items itemIds = true)
    (h : replaceRows s (QueueRepository.reordered items itemIds) db = (.ok (), db')) :
    Becomes scope s [.reordered itemIds] db db' := by
  have hmem : ∀ item ∈ QueueRepository.reordered items itemIds, item ∈ items := fun item hitem => by
    obtain ⟨id, -, hfind⟩ := List.mem_filterMap.1 hitem
    exact List.mem_of_find?_eq_some hfind
  have hwrote := replaceRows_ok (fun item hitem =>
    (present_of_forall₂ hitems (hmem item hitem)).1.sessionId) h
  have hall : (db.rows s).filter (fun row => row.status = .queued) = db.rows s :=
    List.filter_eq_self.2 fun row hrow => by simp [hqueued row hrow]
  rw [hall] at hitems
  refine ⟨fun hdb => ⟨⟨hreorders, fun e he => ?_, ?_⟩, ?_⟩, hwrote.stored, hwrote.others, hwrote.pauses⟩
  · obtain ⟨row, hrow, rfl⟩ := List.mem_map.1 he
    exact hqueued row hrow
  · rw [map_itemId_entries, ← forall₂_itemIds hitems]
    exact completePermutation_perm hperm
  · show db'.entries s = _
    rw [QueueDb.entries, hwrote.rows, List.map_map, QueueDb.entries,
      ← forall₂_entries hitems hdb.rows]
    exact map_entry_reordered items itemIds

/-- Where no row is claimed, every row is queued. -/
theorem queued_of_not_hasClaimed
    (h : ¬ ((db.rows s).any fun row => row.status = .claimed) = true) :
    ∀ row ∈ db.rows s, row.status = .queued := by
  intro row hrow
  by_contra hstatus
  refine h (List.any_eq_true.2 ⟨row, hrow, ?_⟩)
  rcases hcase : row.status <;> simp_all

theorem reorder_committed {itemIds : List String}
    {result : CommittedQueueResult (Option (List QueueItem))}
    (hreorders : (∀ row ∈ db.rows s, row.status = .queued) → scope.reorders)
    (h : reorder env s itemIds db = (.ok result, db')) : Committed scope s result.facts db db' := by
  refine transaction_committed (fun {result db'} h => ?_) (mutationTransaction_ok h)
  obtain ⟨facts, db₁, hexpire, h₁⟩ := Effect.bind_ok h
  obtain ⟨claimed, db₂, hclaimed, h₂⟩ := Effect.bind_ok h₁
  obtain ⟨rfl, rfl⟩ := Effect.read_ok hclaimed
  split_ifs at h₂ with hany
  · obtain ⟨rfl, rfl⟩ := Effect.pure_ok h₂
    exact (expire_does hexpire).commits
  obtain ⟨items, db₃, hselect, h₃⟩ := Effect.bind_ok h₂
  obtain ⟨hitems, rfl⟩ := select_ok hselect
  split_ifs at h₃ with hperm
  · obtain ⟨rfl, rfl⟩ := Effect.pure_ok h₃
    exact (expire_does hexpire).commits
  obtain ⟨⟨⟩, db₄, hreplace, h₄⟩ := Effect.bind_ok h₃
  obtain ⟨rfl, rfl⟩ := Effect.pure_ok h₄
  have hqueued := queued_of_not_hasClaimed hany
  have hbefore : ∀ row ∈ db.rows s, row.status = .queued := fun row hrow => by
    by_contra hstatus
    refine hstatus (hqueued row ?_)
    rw [expire_filtered hexpire]
    exact List.mem_filter.2 ⟨hrow, by simp [isExpiredRow, hstatus]⟩
  have hbecomes : Becomes scope s _ db₃ db' :=
    becomes_reorder (hreorders hbefore) hitems hqueued (by simpa using hperm) hreplace
  have hdoes : Does scope s [] db₃ db' := ⟨_, hbecomes, ⟨fun t => by simp [QueueChange.ledger],
    fun t p => by simp⟩⟩
  have hall := (expire_does hexpire).trans hdoes
  rw [List.append_nil] at hall
  exact hall.commits

/-- The Session's item goes before the other queued ones. -/
theorem becomes_front {item : QueueItem} (hs : item.sessionId = s)
    (hfronts : scope.fronts item.itemId)
    (hmem : db.Stored → item.entry ∈ db.entries s)
    (h : moveQueuedToFront item db = (.ok (), db')) : Becomes scope s [fronted item.itemId] db db' := by
  subst hs
  obtain ⟨queued, db₁, hselect, h₁⟩ := Effect.bind_ok h
  obtain ⟨hqueued, rfl⟩ := select_ok hselect
  obtain ⟨⟨⟩, db₂, hdelete, hinsert⟩ := Effect.bind_ok h₁
  obtain rfl := deleteRows_ok hdelete
  obtain ⟨⟨⟩, db₃, hfirst, -⟩ := Effect.bind_ok hinsert
  have hsessions : ∀ other ∈ item :: queued.filter fun other => other.itemId ≠ item.itemId,
      other.sessionId = item.sessionId := fun other hother => by
    rcases List.mem_cons.1 hother with rfl | hother
    · rfl
    · exact (present_of_forall₂ hqueued (List.mem_filter.1 hother).1).1.sessionId
  have hwrote := forEach_insert_ok hsessions hinsert
  have hstatus : db₁.Stored → item.entry.status = .queued := fun hdb => by
    obtain ⟨row, hrow, hentry⟩ := List.mem_map.1 (hmem hdb)
    have hid : row.itemId = item.itemId := congrArg QueueEntry.itemId hentry
    by_contra hclaimed
    -- A claimed row is not deleted, and its id refuses the insert.
    have hkept : row ∈ (deleteRows item.sessionId
        (fun row => decide (row.status = .queued)) db₁).2.rows item.sessionId := by
      refine mem_deleteRows.2 ⟨hrow, ?_⟩
      have hstatus : row.status = item.entry.status := congrArg QueueEntry.status hentry
      rw [hstatus]
      exact decide_eq_false hclaimed
    exact (insert_ok hfirst).2 row hkept hid
  refine ⟨fun hdb => ?_, fun hdb => hwrote.stored (stored_deleteRows _ _ hdb),
    fun t ht => (hwrote.others t ht).trans (others_deleteRows ht), hwrote.pauses⟩
  have he := hmem hdb
  refine ⟨⟨hfronts, item.entry, he, rfl, hstatus hdb⟩, ?_⟩
  show db'.entries item.sessionId = _
  have hclaimed : ((deleteRows item.sessionId (fun row => decide (row.status = .queued))
      db₁).2.rows item.sessionId).map QueueRow.entry =
      (db₁.entries item.sessionId).filter isClaimed := by
    rw [rows_deleteRows, if_pos rfl, QueueDb.entries, List.filter_map]
    refine congrArg _ (List.filter_congr fun row _ => ?_)
    rcases hrow : row.status <;> simp [isClaimed, QueueRow.entry, hrow]
  have hself : (db₁.entries item.sessionId).filter
      (fun e => e.isQueued && e.itemId = item.itemId) = [item.entry] := by
    refine List.perm_singleton.1 ((List.perm_ext_iff_of_nodup ?_ (by simp)).2 fun x => ?_)
    · exact (List.Nodup.of_map _ (nodup_entries db₁ item.sessionId)).filter _
    · simp only [List.mem_filter, isQueued, Bool.and_eq_true, decide_eq_true_eq,
        List.mem_singleton]
      constructor
      · rintro ⟨hx, -, hxid⟩
        exact List.inj_on_of_nodup_map (nodup_entries db₁ item.sessionId) hx he hxid
      · rintro rfl
        exact ⟨he, hstatus hdb, rfl⟩
  have hothers : ((queued.filter fun other => other.itemId ≠ item.itemId).map
      QueueItem.entry) = (db₁.entries item.sessionId).filter
        fun e => e.isQueued && e.itemId ≠ item.itemId := by
    have hentries := forall₂_entries hqueued fun row hrow => hdb.rows row (List.mem_filter.1 hrow).1
    have hmapped : (queued.filter fun other => other.itemId ≠ item.itemId).map QueueItem.entry =
        (queued.map QueueItem.entry).filter fun e => e.itemId ≠ item.itemId := by
      rw [List.filter_map]
      rfl
    rw [hmapped, hentries, QueueDb.entries, List.filter_map, List.filter_map, List.filter_filter]
    refine congrArg _ (List.filter_congr fun row _ => ?_)
    exact Bool.and_comm _ _
  rw [QueueDb.entries, hwrote.rows, List.map_append, hclaimed, QueueChange.apply, hself, List.map_map,
    ← hothers, List.append_assoc]
  rfl

end Kinetick
