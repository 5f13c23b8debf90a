import Kinetick.QueryCollapse.State
import Mathlib.Tactic.SplitIfs

/-!
# Processing time is kept across resumptions

Each call rewrites the row of a key on its own. While the times do not decrease, the difference of
the two stamps is the total of the intervals that have ended, so the start that a resumption computes
takes nothing away and adds nothing.
-/

namespace Kinetick

namespace QueryCollapse

/-! ## The row of a key -/

section Rows

variable {db : ViewStates} {sessionId queryKey : String}

theorem readByKey_setWhere (p : QueryCollapseRow → Bool) (f : QueryCollapseRow → QueryCollapseRow)
    (hf : ∀ row, (f row).sessionId = row.sessionId ∧ (f row).queryKey = row.queryKey) :
    readByKey (setWhere db p f hf) sessionId queryKey =
      (readByKey db sessionId queryKey).map fun row => if p row then f row else row := by
  unfold readByKey setWhere
  rw [Table.rows_update, List.find?_map]
  congr 2
  funext row
  simp only [Function.comp_apply]
  split_ifs
  · rw [(hf row).1, (hf row).2]
  · rfl

theorem readByKey_some {row : QueryCollapseRow} (h : readByKey db sessionId queryKey = some row) :
    row.sessionId = sessionId ∧ row.queryKey = queryKey := by
  have := List.find?_some h
  simpa using this

theorem readByKey_none : readByKey db sessionId queryKey = none ↔
    ∀ row ∈ db.rows, ¬(row.sessionId = sessionId ∧ row.queryKey = queryKey) := by
  unfold readByKey
  simp

/-- The insert goes through exactly where there is no row of the key. -/
theorem insert_startedRow (currentTurnId : String) (now : ℤ) :
    (∃ db', db.insert (startedRow sessionId queryKey currentTurnId now) = some db' ∧
      db'.rows = db.rows ++ [startedRow sessionId queryKey currentTurnId now]) ↔
      readByKey db sessionId queryKey = none := by
  have hkey : (Constraint.unique fun row : QueryCollapseRow =>
      some (row.sessionId, row.queryKey)).Holds
        (db.rows ++ [startedRow sessionId queryKey currentTurnId now]) ↔
      readByKey db sessionId queryKey = none := by
    rw [Constraint.unique_append, readByKey_none, and_iff_right db.holds]
    simp [startedRow]
  rw [← hkey]
  constructor
  · rintro ⟨db', -, hrows⟩
    exact hrows ▸ db'.holds
  · exact Table.insert_of_holds

/-- What a start makes of the row of its key, which is there then. -/
def startRow (currentTurnId : String) (now : ℤ) (sessionId queryKey : String)
    (row : Option QueryCollapseRow) : QueryCollapseRow :=
  row.elim (startedRow sessionId queryKey currentTurnId now) (restartedRow currentTurnId now)

theorem readByKey_start (now : ℤ) (sessionId' queryKey' currentTurnId : String) :
    readByKey (start db now sessionId' queryKey' currentTurnId).1 sessionId queryKey =
      if sessionId' = sessionId ∧ queryKey' = queryKey then
        some (startRow currentTurnId now sessionId queryKey (readByKey db sessionId queryKey))
      else readByKey db sessionId queryKey := by
  have hfst : (start db now sessionId' queryKey' currentTurnId).1 =
      upsertStarted db now sessionId' queryKey' currentTurnId := by
    unfold start
    dsimp only
    generalize readByKey _ sessionId' queryKey' = row
    rcases row with _ | row <;> rfl
  rw [hfst]
  unfold upsertStarted
  rcases hinsert : db.insert (startedRow sessionId' queryKey' currentTurnId now) with _ | db'
  · have hread : readByKey db sessionId' queryKey' ≠ none := by
      intro h
      obtain ⟨db', h, -⟩ := (insert_startedRow currentTurnId now).2 h
      rw [hinsert] at h
      cases h
    simp only [readByKey_setWhere]
    rcases hrow : readByKey db sessionId queryKey with _ | row
    · split_ifs with hkey
      · obtain ⟨rfl, rfl⟩ := hkey
        exact absurd hrow hread
      · rfl
    · obtain ⟨rfl, rfl⟩ := readByKey_some hrow
      by_cases hkey : sessionId' = row.sessionId ∧ queryKey' = row.queryKey
      · rw [if_pos hkey]
        simp [startRow, hkey.1, hkey.2]
      · rw [if_neg hkey, Option.map_some]
        have hkey' : ¬(row.sessionId = sessionId' ∧ row.queryKey = queryKey') :=
          fun h => hkey ⟨h.1.symm, h.2.symm⟩
        simp only [Bool.and_eq_true, decide_eq_true_eq, if_neg hkey']
  · have hrows := Table.insert_eq_some hinsert
    have hread := (insert_startedRow currentTurnId now).1 ⟨db', hinsert, hrows⟩
    simp only
    unfold readByKey at hread ⊢
    rw [hrows, List.find?_append]
    by_cases hkey : sessionId' = sessionId ∧ queryKey' = queryKey
    · obtain ⟨rfl, rfl⟩ := hkey
      rw [hread, if_pos ⟨rfl, rfl⟩]
      simp [startRow, startedRow]
    · rw [if_neg hkey]
      simp [startedRow, hkey]

theorem fst_finish (now : ℤ) (sessionId queryKey currentTurnId : String) (forceExpanded : Bool) :
    (finish db now sessionId queryKey currentTurnId forceExpanded).1 =
      setWhere db (finishable sessionId queryKey currentTurnId) (finishedRow forceExpanded now)
        fun _ => ⟨rfl, rfl⟩ := by
  unfold finish
  simp only
  split_ifs <;> rfl

/-- What a call makes of the row of a key. -/
def rowStep (sessionId queryKey : String) (row : Option QueryCollapseRow) (timed : Timed) :
    Option QueryCollapseRow :=
  match timed.call with
  | .start sessionId' queryKey' currentTurnId =>
    if sessionId' = sessionId ∧ queryKey' = queryKey then
      some (startRow currentTurnId timed.now sessionId queryKey row)
    else row
  | .finish sessionId' queryKey' currentTurnId forceExpanded =>
    row.map fun row =>
      if finishable sessionId' queryKey' currentTurnId row then
        finishedRow forceExpanded timed.now row
      else row
  | .forceExpandForTurn sessionId' currentTurnId =>
    row.map fun row =>
      if row.sessionId = sessionId' && row.currentTurnId = currentTurnId then
        expandedRow timed.now row
      else row
  | .recoverUnfinished =>
    row.map fun row =>
      if row.processingFinishedAtMs.isNone then recoveredRow timed.now row else row

theorem readByKey_step (timed : Timed) :
    readByKey (step db timed).1 sessionId queryKey =
      rowStep sessionId queryKey (readByKey db sessionId queryKey) timed := by
  obtain ⟨now, call⟩ := timed
  cases call with
  | start sessionId' queryKey' currentTurnId => exact readByKey_start now _ _ _
  | finish sessionId' queryKey' currentTurnId forceExpanded =>
    change readByKey (finish db now sessionId' queryKey' currentTurnId forceExpanded).1 _ _ = _
    rw [fst_finish, readByKey_setWhere]
    rfl
  | forceExpandForTurn sessionId' currentTurnId =>
    have hfst : (forceExpandForTurn db now sessionId' currentTurnId).1 =
        setWhere db (fun row => row.sessionId = sessionId' && row.currentTurnId = currentTurnId)
          (expandedRow now) fun _ => ⟨rfl, rfl⟩ := by
      unfold forceExpandForTurn
      simp only
      split_ifs <;> rfl
    change readByKey (forceExpandForTurn db now sessionId' currentTurnId).1 _ _ = _
    rw [hfst, readByKey_setWhere]
    rfl
  | recoverUnfinished =>
    change readByKey (recoverUnfinished db now).1 _ _ = _
    unfold recoverUnfinished
    simp only
    split_ifs with hnone
    · rcases hrow : readByKey db sessionId queryKey with _ | row
      · rfl
      · have hmem : row ∈ db.rows := List.mem_of_find?_eq_some hrow
        rw [List.length_eq_zero_iff, List.filter_eq_nil_iff] at hnone
        simp only [rowStep, Option.map_some, if_neg (hnone row hmem)]
    · rw [readByKey_setWhere]
      rfl

end Rows

/-! ## Its stamps -/

theorem totalMs_append (spans : List Span) (span : Span) :
    totalMs (spans ++ [span]) = totalMs spans + (span.endedAt - span.startedAt) := by
  unfold totalMs
  induction spans with
  | nil => simp
  | cons s spans ih => rw [List.cons_append, List.foldr_cons, ih, List.foldr_cons]; omega

/-- The stamps account for the intervals, of which none is longer than the time that has passed. -/
structure Kept (now : ℤ) (row : QueryCollapseRow) (life : Life) : Prop where
  accounts : Accounts row life
  total_nonneg : 0 ≤ totalMs life.ended
  since_le : ∀ since, life.since = some since → since ≤ now

section Step

variable {now : ℤ} {row : QueryCollapseRow} {life : Life}

theorem Kept.later (h : Kept now row life) {later : ℤ} (hle : now ≤ later) : Kept later row life :=
  ⟨h.accounts, h.total_nonneg, fun since hsince => Int.le_trans (h.since_le since hsince) hle⟩

/-- A query that has not been started. -/
theorem kept_started (sessionId queryKey currentTurnId : String) (now : ℤ) :
    Kept now (startedRow sessionId queryKey currentTurnId now)
      (Life.start currentTurnId now none) where
  accounts := {
    currentTurnId := rfl
    finished := nofun
    unfinished _ := ⟨now, rfl, fun later => by simp [startedRow, Life.start, totalMs]⟩ }
  total_nonneg := Int.le_refl 0
  since_le since hsince := by
    cases hsince
    exact Int.le_refl now

theorem Kept.restarted (h : Kept now row life) (currentTurnId : String) :
    Kept now (restartedRow currentTurnId now row) (Life.start currentTurnId now (some life)) := by
  rcases hfinished : row.processingFinishedAtMs with _ | finished
  · obtain ⟨since, hsince, htime⟩ := h.accounts.unfinished hfinished
    refine ⟨⟨rfl, nofun, fun _ => ⟨since, ?_, ?_⟩⟩, h.total_nonneg, ?_⟩
    · simp only [Life.start, hsince, Option.getD_some]
    · simpa only [restartedRow, hfinished, Life.start] using htime
    · intro since' hsince'
      simp only [Life.start, hsince, Option.getD_some] at hsince'
      exact h.since_le since' (hsince.trans hsince')
  · obtain ⟨hsince, htotal⟩ := h.accounts.finished finished hfinished
    have hpos := h.total_nonneg
    refine ⟨⟨rfl, nofun, fun _ => ⟨now, ?_, fun later => ?_⟩⟩, h.total_nonneg, ?_⟩
    · simp only [Life.start, hsince, Option.getD_none]
    · simp only [restartedRow, hfinished, Life.start]
      rw [if_pos (by omega)]
      omega
    · intro since' hsince'
      simp only [Life.start, hsince, Option.getD_none] at hsince'
      cases hsince'
      exact Int.le_refl now

/-- However an unfinished row is finished, its interval ends. -/
theorem Kept.finished (h : Kept now row life) (hrow : row.processingFinishedAtMs = none)
    {row' : QueryCollapseRow} (hturn : row'.currentTurnId = row.currentTurnId)
    (hstarted : row'.processingStartedAtMs = row.processingStartedAtMs)
    (hfinished : row'.processingFinishedAtMs = some now) : Kept now row' (life.finish now) := by
  obtain ⟨since, hsince, htime⟩ := h.accounts.unfinished hrow
  have hle := h.since_le since hsince
  have hnow := htime now
  have htotal : totalMs (life.finish now).ended = totalMs life.ended + (now - since) := by
    rw [Life.finish, hsince]
    exact totalMs_append _ _
  have hpos := h.total_nonneg
  refine ⟨⟨hturn.trans h.accounts.currentTurnId, ?_, ?_⟩, by omega, nofun⟩
  · intro finished hfinished'
    rw [hfinished] at hfinished'
    cases hfinished'
    exact ⟨rfl, by omega⟩
  · intro hnone
    rw [hfinished] at hnone
    cases hnone

/-- A finished row stays as it is, and so does its query. -/
theorem Kept.finish_eq (h : Kept now row life) (hrow : row.processingFinishedAtMs.isNone = false)
    (later : ℤ) : life.finish later = life := by
  obtain ⟨finished, hfinished⟩ := Option.ne_none_iff_exists'.1 (Option.isNone_eq_false_iff.1 hrow |>
    Option.isSome_iff_ne_none.1)
  obtain ⟨hsince, -⟩ := h.accounts.finished finished hfinished
  rcases life with ⟨currentTurnId, ended, since⟩
  cases hsince
  simp [Life.finish]

theorem kept_step {sessionId queryKey : String} {row : Option QueryCollapseRow}
    {life : Option Life} {timed : Timed} (hkey : ∀ r ∈ row, r.sessionId = sessionId ∧
      r.queryKey = queryKey) (h : Option.Rel (Kept now) row life) (hle : now ≤ timed.now) :
    Option.Rel (Kept timed.now) (rowStep sessionId queryKey row timed)
      (Life.step sessionId queryKey life timed) := by
  have hlater : Option.Rel (Kept timed.now) row life := by
    cases h with
    | none => exact .none
    | some h => exact .some (h.later hle)
  clear h hle
  obtain ⟨now, call⟩ := timed
  simp only at hlater
  cases call with
  | start sessionId' queryKey' currentTurnId =>
    simp only [rowStep, Life.step]
    split_ifs
    · cases hlater with
      | none => exact .some (kept_started sessionId queryKey currentTurnId now)
      | some h => exact .some (h.restarted currentTurnId)
    · exact hlater
  | finish sessionId' queryKey' currentTurnId forceExpanded =>
    cases hlater with
    | none => exact .none
    | @some row life h =>
      obtain ⟨hsession, hquery⟩ := hkey row rfl
      have hturn := h.accounts.currentTurnId
      refine .some ?_
      rcases hrow : row.processingFinishedAtMs.isNone with _ | _
      · have hno : finishable sessionId' queryKey' currentTurnId row = false := by
          simp [finishable, hrow]
        simp only [hno, Bool.false_eq_true, if_false]
        rw [h.finish_eq hrow, ite_self]
        exact h
      · have hiff : finishable sessionId' queryKey' currentTurnId row = true ↔
            sessionId' = sessionId ∧ queryKey' = queryKey ∧ currentTurnId = life.currentTurnId := by
          simp only [finishable, hsession, hquery, hturn, hrow, Bool.and_eq_true, decide_eq_true_eq,
            and_true, and_assoc]
          exact and_congr eq_comm (and_congr eq_comm eq_comm)
        dsimp only
        by_cases hfinish : finishable sessionId' queryKey' currentTurnId row = true
        · rw [if_pos hfinish, if_pos (hiff.1 hfinish)]
          exact h.finished (Option.isNone_iff_eq_none.1 hrow) rfl rfl rfl
        · rw [if_neg hfinish, if_neg (hiff.not.1 hfinish)]
          exact h
  | forceExpandForTurn sessionId' currentTurnId =>
    cases hlater with
    | none => exact .none
    | @some row life h =>
      refine .some ?_
      dsimp only
      split_ifs
      · exact ⟨⟨h.accounts.currentTurnId, h.accounts.finished, h.accounts.unfinished⟩,
          h.total_nonneg, h.since_le⟩
      · exact h
  | recoverUnfinished =>
    cases hlater with
    | none => exact .none
    | @some row life h =>
      refine .some ?_
      dsimp only
      split_ifs with hrow
      · exact h.finished (Option.isNone_iff_eq_none.1 hrow) rfl rfl rfl
      · rw [h.finish_eq (Bool.eq_false_iff.2 hrow)]
        exact h

end Step

/-! ## Runs -/

theorem kept_after {sessionId queryKey : String} {now : ℤ} {db : ViewStates} {life : Option Life}
    {calls : List Timed} (h : Option.Rel (Kept now) (readByKey db sessionId queryKey) life)
    (hfirst : ∀ timed ∈ calls, now ≤ timed.now)
    (htimes : calls.Pairwise fun timed timed' => timed.now ≤ timed'.now) :
    ∃ later, Option.Rel (Kept later) (readByKey (machine.after db calls) sessionId queryKey)
      (calls.foldl (Life.step sessionId queryKey) life) := by
  induction calls generalizing now db life with
  | nil => exact ⟨now, h⟩
  | cons timed calls ih =>
    rw [List.pairwise_cons] at htimes
    have hkept : Option.Rel (Kept timed.now) (readByKey (step db timed).1 sessionId queryKey)
        (Life.step sessionId queryKey life timed) := by
      rw [readByKey_step]
      exact kept_step (fun r hr => readByKey_some hr) h (hfirst timed List.mem_cons_self)
    exact ih hkept htimes.1 htimes.2

/-- After calls at times that do not decrease, the stamps of a finished query are as far apart as its
intervals are long, and an unfinished one started as long ago as its intervals and the running one
are long. A start while it is unfinished moves no stamp, and a finish by another turn, or a second
one, changes nothing. -/
theorem processing_time_conserved (calls : List Timed)
    (htimes : calls.Pairwise fun timed timed' => timed.now ≤ timed'.now)
    (sessionId queryKey : String) :
    Option.Rel Accounts (readByKey (machine.after machine.initial calls) sessionId queryKey)
        (Life.of sessionId queryKey calls) ∧
      (∀ now currentTurnId row,
        readByKey (machine.after machine.initial calls) sessionId queryKey = some row →
        row.processingFinishedAtMs = none →
        ∃ row', readByKey (start (machine.after machine.initial calls) now sessionId queryKey
              currentTurnId).1 sessionId queryKey = some row' ∧
            row'.processingStartedAtMs = row.processingStartedAtMs ∧
            row'.processingFinishedAtMs = none) ∧
      ∀ now currentTurnId forceExpanded,
        (∀ row, readByKey (machine.after machine.initial calls) sessionId queryKey = some row →
          row.currentTurnId = currentTurnId → row.processingFinishedAtMs ≠ none) →
        finish (machine.after machine.initial calls) now sessionId queryKey currentTurnId
          forceExpanded = (machine.after machine.initial calls, none) := by
  refine ⟨?_, ?_, ?_⟩
  · rcases calls with _ | ⟨timed, calls⟩
    · exact .none
    · have hnone : Option.Rel (Kept timed.now) (readByKey machine.initial sessionId queryKey) none :=
        .none
      have hfirst : ∀ timed' ∈ timed :: calls, timed.now ≤ timed'.now := by
        intro timed' hmem
        rcases List.mem_cons.1 hmem with rfl | hmem
        · exact Int.le_refl _
        · exact (List.pairwise_cons.1 htimes).1 _ hmem
      obtain ⟨later, h⟩ := kept_after hnone hfirst htimes
      unfold Life.of
      generalize readByKey _ sessionId queryKey = row at h
      generalize List.foldl _ _ _ = life at h
      cases h with
      | none => exact .none
      | some h => exact .some h.accounts
  · intro now currentTurnId row hrow hunfinished
    refine ⟨restartedRow currentTurnId now row, ?_, ?_, rfl⟩
    · rw [readByKey_start, if_pos ⟨rfl, rfl⟩, hrow]
      rfl
    · rw [restartedRow, hunfinished]
  · intro now currentTurnId forceExpanded h
    generalize machine.after machine.initial calls = db at h
    have hnone : ∀ row ∈ db.rows, finishable sessionId queryKey currentTurnId row = false := by
      intro row hmem
      by_contra hrow
      simp only [Bool.not_eq_false, finishable, Bool.and_eq_true, decide_eq_true_eq,
        Option.isNone_iff_eq_none] at hrow
      obtain ⟨⟨⟨hsession, hquery⟩, hturn⟩, hunfinished⟩ := hrow
      rcases hread : readByKey db sessionId queryKey with _ | row'
      · exact readByKey_none.1 hread row hmem ⟨hsession, hquery⟩
      · obtain ⟨hsession', hquery'⟩ := readByKey_some hread
        have hsame : row' = row := Constraint.unique_inj db.holds (List.mem_of_find?_eq_some hread)
          hmem (k := (sessionId, queryKey)) (by rw [hsession', hquery']) (by rw [hsession, hquery])
        exact h row' hread (hsame ▸ hturn) (hsame ▸ hunfinished)
    have hcount : db.rows.countP (finishable sessionId queryKey currentTurnId) = 0 :=
      List.countP_eq_zero.2 fun row hmem => by simp [hnone row hmem]
    unfold finish
    simp only [hcount, if_true, Prod.mk.injEq, and_true]
    refine Table.ext ?_
    unfold setWhere
    rw [Table.rows_update]
    refine (List.map_congr_left fun row hmem => ?_).trans (List.map_id' db.rows)
    rw [hnone row hmem]
    rfl

/-- Two turns process a query for 10 and 3 milliseconds, the second one started twice. -/
theorem processing_time_conserved_resumed :
    ∃ row, readByKey (machine.after machine.initial
        [⟨100, .start "s" "q" "t"⟩, ⟨110, .finish "s" "q" "t" false⟩, ⟨150, .start "s" "q" "u"⟩,
          ⟨152, .start "s" "q" "u"⟩, ⟨152, .finish "s" "q" "t" false⟩, ⟨153, .recoverUnfinished⟩])
        "s" "q" = some row ∧ row.processingStartedAtMs = 140 ∧
      row.processingFinishedAtMs = some 153 ∧
      Accounts row ⟨"u", [⟨100, 110⟩, ⟨150, 153⟩], none⟩ := by
  have h := (processing_time_conserved
    [⟨100, .start "s" "q" "t"⟩, ⟨110, .finish "s" "q" "t" false⟩, ⟨150, .start "s" "q" "u"⟩,
      ⟨152, .start "s" "q" "u"⟩, ⟨152, .finish "s" "q" "t" false⟩, ⟨153, .recoverUnfinished⟩]
    (by simp) "s" "q").1
  refine ⟨⟨"s", "q", "u", 1, 140, some 153, 153⟩, by decide +kernel, rfl, rfl, ?_⟩
  rw [show readByKey _ "s" "q" = some ⟨"s", "q", "u", 1, 140, some 153, 153⟩ by decide +kernel,
    show Life.of "s" "q" _ = some ⟨"u", [⟨100, 110⟩, ⟨150, 153⟩], none⟩ by decide +kernel] at h
  cases h with
  | some h => exact h

end QueryCollapse

end Kinetick
