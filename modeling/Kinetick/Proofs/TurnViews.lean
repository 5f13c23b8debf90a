import Kinetick.Turn.Ownership

/-!
# What a write does to the lock and the accepted rows of a Session

The lock of a Session after a deletion, an update and an insertion of locks, and its accepted
rows after Turns finish, are inserted and are deleted. At a Session the write does not name both
stay as they are.
-/

namespace Kinetick

namespace TurnTables

variable {db : TurnTables} {s : String}

theorem lock_session {lock : SessionLock} (h : db.findSessionLock s = some lock) :
    lock.sessionId = s := by
  simpa using List.find?_some h

theorem lock_mem {lock : SessionLock} (h : db.findSessionLock s = some lock) :
    lock ∈ db.sessionLocks.rows :=
  List.mem_of_find?_eq_some h

theorem lock_unique {a b : SessionLock} (ha : a ∈ db.sessionLocks.rows)
    (hb : b ∈ db.sessionLocks.rows) (h : a.sessionId = b.sessionId) : a = b :=
  Constraint.unique_inj db.sessionLocks.holds ha hb rfl (congrArg some h.symm)

theorem lock_of_mem {lock : SessionLock} (h : lock ∈ db.sessionLocks.rows) :
    db.findSessionLock lock.sessionId = some lock := by
  rcases hf : db.findSessionLock lock.sessionId with _ | l
  · unfold findSessionLock at hf
    rw [List.find?_eq_none] at hf
    exact absurd (beq_self_eq_true _) (hf lock h)
  · exact congrArg some (lock_unique (lock_mem hf) h (lock_session hf))

theorem lock_deleteLocks (p : SessionLock → Bool) :
    (db.deleteLocks p).1.findSessionLock s = (db.findSessionLock s).filter fun l => !p l :=
  find?_filter_of_unique _ fun _ ha _ hb hqa hqb =>
    lock_unique ha hb ((beq_iff_eq.1 hqa).trans (beq_iff_eq.1 hqb).symm)

theorem lock_updateLocks (p : SessionLock → Bool) {f : SessionLock → SessionLock}
    (hf : ∀ l, (f l).sessionId = l.sessionId) :
    (db.updateLocks p f hf).1.findSessionLock s =
      (db.findSessionLock s).map fun l => if p l then f l else l := by
  have hq : ((fun l : SessionLock => l.sessionId == s) ∘ fun l => if p l then f l else l) =
      fun l => l.sessionId == s := by
    funext l
    simp only [Function.comp_apply]
    split_ifs
    · rw [hf]
    · rfl
  have hrows : (db.updateLocks p f hf).1.sessionLocks.rows =
      db.sessionLocks.rows.map fun l => if p l then f l else l := rfl
  simp only [findSessionLock, hrows, List.find?_map, hq]

/-- Inserting a lock needs its Session to have none, and gives it this one. -/
theorem lock_insert {lock : SessionLock} {locks : Table sessionLocksIndex}
    (h : db.sessionLocks.insert lock = some locks) :
    db.findSessionLock lock.sessionId = none ∧
      ∀ s, (locks.rows.find? fun l => l.sessionId == s) =
        if s = lock.sessionId then some lock else db.findSessionLock s := by
  have hrows := Table.insert_eq_some h
  have hnone : db.findSessionLock lock.sessionId = none := by
    have hholds := locks.holds
    rw [hrows] at hholds
    have hfree := (Constraint.unique_append.1 hholds).2 lock.sessionId rfl
    unfold findSessionLock
    rw [List.find?_eq_none]
    intro l hl hls
    exact hfree l hl (congrArg some (beq_iff_eq.1 hls))
  refine ⟨hnone, fun s => ?_⟩
  rw [hrows, List.find?_append]
  split_ifs with hs
  · rw [hs, show (db.sessionLocks.rows.find? fun l => l.sessionId == lock.sessionId) = none
      from hnone]
    simp
  · rw [List.find?_cons_of_neg (by simpa using fun h => hs h.symm)]
    simp [findSessionLock]

theorem mem_acceptedTurns {r : TurnIngress} :
    r ∈ db.acceptedTurns s ↔ r ∈ db.turnIngress.rows ∧ r.sessionId = s ∧ r.status = .accepted := by
  simp [acceptedTurns]

theorem turn_unique {a b : TurnIngress} (ha : a ∈ db.turnIngress.rows)
    (hb : b ∈ db.turnIngress.rows) (h : a.turnId = b.turnId) : a = b :=
  Constraint.unique_inj db.turnIngress.holds.1 ha hb rfl (congrArg some h.symm)

theorem latestAcceptedTurn_mem {r : TurnIngress} (h : db.latestAcceptedTurn s = some r) :
    r ∈ db.acceptedTurns s :=
  List.argmax_mem h

theorem acceptedTurns_finishTurns (p : TurnIngress → Bool) {status : TurnStatus}
    (hstatus : status ≠ .accepted) (completedAtMs : ℤ) :
    (db.finishTurns p status completedAtMs).1.acceptedTurns s =
      (db.acceptedTurns s).filter fun r => !p r := by
  simp only [acceptedTurns, finishTurns, updateIngress, Table.rows_update]
  induction db.turnIngress.rows with
  | nil => rfl
  | cons r rows ih =>
    rw [List.map_cons, List.filter_cons, List.filter_cons, ih]
    rcases hp : p r with _ | _ <;> rcases hq : (r.sessionId == s && r.status == .accepted) with _ | _
    · simp [hq]
    · simp [hq, hp]
    · simp [hstatus]
    · simp [hstatus, hp]

theorem acceptedTurns_acknowledgeTurns (p : TurnIngress → Bool) (nowMs : ℤ) :
    (db.acknowledgeTurns p nowMs).1.acceptedTurns s =
      (db.acceptedTurns s).map fun r =>
        if p r then { r with queueAcknowledgedAtMs := some nowMs } else r := by
  have hq : ((fun r : TurnIngress => r.sessionId == s && r.status == .accepted) ∘
      fun r => if p r then { r with queueAcknowledgedAtMs := some nowMs } else r) =
      fun r => r.sessionId == s && r.status == .accepted := by
    funext r
    simp only [Function.comp_apply]
    split_ifs <;> rfl
  simp only [acceptedTurns, acknowledgeTurns, updateIngress, Table.rows_update, List.filter_map, hq]

@[simp] theorem lock_finishTurns (p : TurnIngress → Bool) (status : TurnStatus)
    (completedAtMs : ℤ) :
    (db.finishTurns p status completedAtMs).1.findSessionLock s = db.findSessionLock s := rfl

@[simp] theorem lock_acknowledgeTurns (p : TurnIngress → Bool) (nowMs : ℤ) :
    (db.acknowledgeTurns p nowMs).1.findSessionLock s = db.findSessionLock s := rfl

@[simp] theorem acceptedTurns_deleteLocks (p : SessionLock → Bool) :
    (db.deleteLocks p).1.acceptedTurns s = db.acceptedTurns s := rfl

@[simp] theorem acceptedTurns_updateLocks (p : SessionLock → Bool)
    {f : SessionLock → SessionLock} (hf : ∀ l, (f l).sessionId = l.sessionId) :
    (db.updateLocks p f hf).1.acceptedTurns s = db.acceptedTurns s := rfl

end TurnTables

end Kinetick
