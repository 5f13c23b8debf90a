import Kinetick.PluginHook.Session
import Mathlib.Tactic.SplitIfs

/-!
# The end of a session is claimed once

What a writer stores passes the validators that read it, so a row's member is always what the last
write made it. Each call leaves the rows as they are, or admits a row, or writes the member of one.
-/

namespace Kinetick

namespace PluginHook

/-! ## Members that are read back -/

/-- The validators accept it. -/
structure Valid (h : PluginHookSessionMetadata) : Prop where
  claimId : isBoundedText h.ownership.claimId = true
  claimedAtMs : isTimestamp h.ownership.claimedAtMs = true
  activatedAtMs : ∀ t, h.ownership.phase = .activated t → isTimestamp t = true
  sessionEnd : ∀ e, h.sessionEnd = some e → isBoundedText e.claimId = true ∧
    isTimestamp e.claimedAtMs = true ∧ ∀ t, e.completedAtMs = some t → isTimestamp t = true

theorem isFinite_of_isTimestamp {n : JsNumber} (h : isTimestamp n = true) : n.isFinite = true := by
  cases n <;> first | rfl | cases h

theorem isFiniteTimestamp_number {n : JsNumber} (h : isTimestamp n = true) :
    isFiniteTimestamp (.number n) = some n := by
  rw [isFiniteTimestamp, if_pos h]

theorem isFiniteTimestamp_some {v : JsValue} {n : JsNumber} (h : isFiniteTimestamp v = some n) :
    isTimestamp n = true := by
  cases v with
  | number n' =>
    rw [isFiniteTimestamp] at h
    split_ifs at h with ht
    cases h
    exact ht
  | _ => cases h

theorem isBoundedString_some {v : JsValue} {text : String} (h : isBoundedString v = some text) :
    isBoundedText text = true := by
  cases v with
  | string text' =>
    rw [isBoundedString] at h
    split_ifs at h with ht
    cases h
    exact ht
  | _ => cases h

theorem isPluginHookSessionEndReason_text (reason : PluginHookSessionEndReason) :
    isPluginHookSessionEndReason (.string reason.text) = some reason := by
  cases reason <;> decide

theorem parseOwnership_toJs {o : Ownership} (hclaim : isBoundedText o.claimId = true)
    (hclaimed : isTimestamp o.claimedAtMs = true)
    (hactivated : ∀ t, o.phase = .activated t → isTimestamp t = true) :
    parsePluginHookSessionOwnership o.toJs.json o.turnId = some o := by
  obtain ⟨claimId, turnId, claimedAtMs, phase⟩ := o
  have hfinite := isFinite_of_isTimestamp hclaimed
  have hread := isFiniteTimestamp_number hclaimed
  simp only at hfinite hread
  cases phase with
  | prepared =>
    simp [parsePluginHookSessionOwnership, Ownership.toJs, JsValue.json, JsValue.jsonFields,
      JsValue.isUndefined, isPlainRecord, JsValue.get, JsValue.lookup, isBoundedString, hclaim,
      hfinite, hread, JsValue.isText, parsePluginHookSessionOwnershipPhase]
  | activated t =>
    have ht := hactivated t rfl
    simp [parsePluginHookSessionOwnership, Ownership.toJs, JsValue.json, JsValue.jsonFields,
      JsValue.isUndefined, isPlainRecord, JsValue.get, JsValue.lookup, isBoundedString, hclaim,
      hfinite, hread, JsValue.isText, parsePluginHookSessionOwnershipPhase,
      isFinite_of_isTimestamp ht, isFiniteTimestamp_number ht]

theorem parseEnd_toJs {e : SessionEnd} (hclaim : isBoundedText e.claimId = true)
    (hclaimed : isTimestamp e.claimedAtMs = true)
    (hcompleted : ∀ t, e.completedAtMs = some t → isTimestamp t = true) :
    parsePluginHookSessionEnd e.toJs.json = some e := by
  obtain ⟨claimId, reason, claimedAtMs, completedAtMs⟩ := e
  have hfinite := isFinite_of_isTimestamp hclaimed
  have hread := isFiniteTimestamp_number hclaimed
  simp only at hfinite hread
  cases completedAtMs with
  | none =>
    simp [parsePluginHookSessionEnd, SessionEnd.toJs, JsValue.json, JsValue.jsonFields,
      JsValue.isUndefined, isPlainRecord, JsValue.get, JsValue.lookup, isBoundedString, hclaim,
      hfinite, hread, isPluginHookSessionEndReason_text, parseOptionalTimestamp]
  | some t =>
    have ht := hcompleted t rfl
    simp [parsePluginHookSessionEnd, SessionEnd.toJs, JsValue.json, JsValue.jsonFields,
      JsValue.isUndefined, isPlainRecord, JsValue.get, JsValue.lookup, isBoundedString, hclaim,
      hfinite, hread, isPluginHookSessionEndReason_text, parseOptionalTimestamp,
      isFinite_of_isTimestamp ht, isFiniteTimestamp_number ht]

/-- What is written is read back. -/
theorem parse_toJs {h : PluginHookSessionMetadata} (hvalid : Valid h) :
    parsePluginHookSessionMetadata h.toJs.json h.ownership.turnId = some h := by
  have hownership := parseOwnership_toJs hvalid.claimId hvalid.claimedAtMs hvalid.activatedAtMs
  have hdefined : h.ownership.toJs.isUndefined = false := rfl
  have hundefined : JsValue.undefined.isUndefined = true := rfl
  obtain ⟨ownership, sessionEnd⟩ := h
  simp only at hownership hdefined
  cases sessionEnd with
  | none =>
    simp [parsePluginHookSessionMetadata, PluginHookSessionMetadata.toJs, JsValue.json,
      JsValue.jsonFields, isPlainRecord, JsValue.get, JsValue.lookup, hdefined, hownership,
      hundefined, parseOptionalPluginHookSessionEnd]
  | some e =>
    obtain ⟨hclaim, hclaimed, hcompleted⟩ := hvalid.sessionEnd e rfl
    have hend := parseEnd_toJs hclaim hclaimed hcompleted
    have hendDefined : e.toJs.isUndefined = false := rfl
    simp [parsePluginHookSessionMetadata, PluginHookSessionMetadata.toJs, JsValue.json,
      JsValue.jsonFields, isPlainRecord, JsValue.get, JsValue.lookup, hdefined, hownership,
      hendDefined, parseOptionalPluginHookSessionEnd, hend]

theorem parsePhase_valid {value activatedAtMs : JsValue} {phase : Phase}
    (h : parsePluginHookSessionOwnershipPhase value activatedAtMs = some phase) :
    ∀ t, phase = .activated t → isTimestamp t = true := by
  rintro t rfl
  unfold parsePluginHookSessionOwnershipPhase at h
  split_ifs at h
  · cases h
  · obtain ⟨t', ht, heq⟩ := Option.map_eq_some_iff.1 h
    cases heq
    exact isFiniteTimestamp_some ht

theorem parseEnd_valid {value : JsValue} {e : SessionEnd}
    (h : parsePluginHookSessionEnd value = some e) : isBoundedText e.claimId = true ∧
      isTimestamp e.claimedAtMs = true ∧ ∀ t, e.completedAtMs = some t → isTimestamp t = true := by
  unfold parsePluginHookSessionEnd at h
  split_ifs at h
  obtain ⟨claimId, hclaim, h⟩ := Option.bind_eq_some_iff.1 h
  obtain ⟨reason, -, h⟩ := Option.bind_eq_some_iff.1 h
  obtain ⟨claimedAtMs, hclaimed, h⟩ := Option.bind_eq_some_iff.1 h
  obtain ⟨completedAtMs, hcompleted, h⟩ := Option.bind_eq_some_iff.1 h
  cases h
  refine ⟨isBoundedString_some hclaim, isFiniteTimestamp_some hclaimed, fun t ht => ?_⟩
  simp only at ht
  subst ht
  unfold parseOptionalTimestamp at hcompleted
  split_ifs at hcompleted
  · cases hcompleted
  · obtain ⟨t', ht, heq⟩ := Option.map_eq_some_iff.1 hcompleted
    cases heq
    exact isFiniteTimestamp_some ht

/-- And what is read is valid. -/
theorem parse_valid {value : JsValue} {turnId : String} {h : PluginHookSessionMetadata}
    (hparse : parsePluginHookSessionMetadata value turnId = some h) :
    Valid h ∧ h.ownership.turnId = turnId := by
  unfold parsePluginHookSessionMetadata at hparse
  split_ifs at hparse
  obtain ⟨ownership, hownership, hparse⟩ := Option.bind_eq_some_iff.1 hparse
  obtain ⟨sessionEnd, hend, hparse⟩ := Option.bind_eq_some_iff.1 hparse
  cases hparse
  unfold parsePluginHookSessionOwnership at hownership
  split_ifs at hownership
  · obtain ⟨claimId, -, hownership⟩ := Option.bind_eq_some_iff.1 hownership
    cases hownership
  obtain ⟨claimId, hclaim, hownership⟩ := Option.bind_eq_some_iff.1 hownership
  obtain ⟨claimedAtMs, hclaimed, hownership⟩ := Option.bind_eq_some_iff.1 hownership
  obtain ⟨phase, hphase, hownership⟩ := Option.bind_eq_some_iff.1 hownership
  cases hownership
  refine ⟨⟨isBoundedString_some hclaim, isFiniteTimestamp_some hclaimed, parsePhase_valid hphase,
    fun e he => ?_⟩, rfl⟩
  simp only at he
  subst he
  unfold parseOptionalPluginHookSessionEnd at hend
  split_ifs at hend
  · cases hend
  · obtain ⟨e', he, heq⟩ := Option.map_eq_some_iff.1 hend
    cases heq
    exact parseEnd_valid he

/-! ## Rows that are written -/

section Rows

variable {row : TurnRow} {h : PluginHookSessionMetadata}

theorem metadata_object (row : TurnRow) : ∃ fields, row.metadata = .object fields := by
  unfold TurnRow.metadata parseInputMetadata
  rcases row.inputMetadataJson.parse with _ | _ | _ | _ | _ | _ | fields <;> exact ⟨_, rfl⟩

/-- Metadata is what JSON kept. -/
theorem metadata_json (row : TurnRow) : row.metadata.json = row.metadata := by
  unfold TurnRow.metadata parseInputMetadata
  rcases hparse : row.inputMetadataJson.parse with _ | _ | _ | _ | _ | _ | fields <;> try rfl
  rw [JsonText.parse] at hparse
  simp only
  rw [← hparse, JsValue.json_json]

/-- The row with its member written. -/
def TurnRow.withHook (row : TurnRow) (h : PluginHookSessionMetadata) : TurnRow :=
  { row with inputMetadataJson := withHookSession row.metadata h }

theorem get_withHook (row : TurnRow) (h : PluginHookSessionMetadata) (key : String) :
    (row.withHook h).metadata.get key =
      if key = "pluginHookSession" then h.toJs.json else row.metadata.get key := by
  obtain ⟨fields, hfields⟩ := metadata_object row
  have hparse : (row.withHook h).metadata =
      ((JsValue.object fields).set "pluginHookSession" h.toJs).json := by
    rw [TurnRow.metadata, TurnRow.withHook, withHookSession, hfields]
    rfl
  rw [hparse, JsValue.get_json, JsValue.get_set_object]
  split_ifs
  · rfl
  · rw [← hfields, ← JsValue.get_json, metadata_json]

/-- A valid member is read back from the row. -/
theorem hookSession_withHook (hvalid : Valid h) (hturn : h.ownership.turnId = row.turnId) :
    (row.withHook h).hookSession = some h := by
  unfold TurnRow.hookSession
  rw [get_withHook, if_pos rfl]
  exact hturn ▸ parse_toJs hvalid

theorem valid_hookSession (hrow : row.hookSession = some h) :
    Valid h ∧ h.ownership.turnId = row.turnId := parse_valid hrow

end Rows

section Tables

variable {db db' : TurnRows} {row : TurnRow} {h : PluginHookSessionMetadata}

theorem eq_of_turnId {row' : TurnRow} (hrow : row ∈ db.rows) (hrow' : row' ∈ db.rows)
    (hturn : row'.turnId = row.turnId) : row' = row :=
  Constraint.unique_inj db.holds.1 hrow' hrow (congrArg some hturn) rfl

theorem eq_of_acceptedSequence {row' : TurnRow} (hrow : row ∈ db.rows) (hrow' : row' ∈ db.rows)
    (hsequence : row'.acceptedSequence = row.acceptedSequence) : row' = row :=
  Constraint.unique_inj db.holds.2 hrow' hrow (congrArg some hsequence) rfl

/-- The member of one row is written, and nothing else. -/
structure Writes (db db' : TurnRows) (row : TurnRow) (h : PluginHookSessionMetadata) : Prop where
  mem : row ∈ db.rows
  rows : db'.rows = db.rows.map fun r => if r.turnId = row.turnId then row.withHook h else r

theorem writes_setMetadata {p : TurnRow → Bool} (hrow : row ∈ db.rows)
    (hp : ∀ r ∈ db.rows, p r = true ↔ r.turnId = row.turnId) (h : PluginHookSessionMetadata) :
    Writes db (setMetadata db p (withHookSession row.metadata h)) row h := by
  refine ⟨hrow, ?_⟩
  unfold setMetadata
  rw [Table.rows_update]
  refine List.map_congr_left fun r hr => ?_
  by_cases hturn : r.turnId = row.turnId
  · rw [if_pos ((hp r hr).2 hturn), if_pos hturn, eq_of_turnId hrow hr hturn]
    rfl
  · rw [if_neg ((hp r hr).not.2 hturn), if_neg hturn]

theorem Writes.mem_iff (hwrites : Writes db db' row h) {r : TurnRow} :
    r ∈ db'.rows ↔ r = row.withHook h ∨ r ∈ db.rows ∧ r.turnId ≠ row.turnId := by
  rw [hwrites.rows, List.mem_map]
  constructor
  · rintro ⟨r', hr', rfl⟩
    split_ifs with hturn
    · exact .inl rfl
    · exact .inr ⟨hr', hturn⟩
  · rintro (rfl | ⟨hr, hturn⟩)
    · exact ⟨row, hwrites.mem, if_pos rfl⟩
    · exact ⟨r, hr, if_neg hturn⟩

theorem findTurn_some {sessionId turnId : String} (hfind : findTurn db sessionId turnId = some row) :
    row ∈ db.rows ∧ row.sessionId = sessionId ∧ row.turnId = turnId := by
  have hkey := List.find?_some hfind
  simp only [Bool.and_eq_true, decide_eq_true_eq] at hkey
  exact ⟨List.mem_of_find?_eq_some hfind, hkey⟩

/-! ## Owners -/

/-- The claim that is asked for, if one is, is the owner's. -/
def Asked (ownershipClaimId : Option String) (h : PluginHookSessionMetadata) : Prop :=
  ownershipClaimId.getD "" ≠ "" → some h.ownership.claimId = ownershipClaimId

theorem owner_some {ownershipClaimId : Option String} {owner : Owner}
    (howner : row.owner ownershipClaimId = some owner) :
    ∃ h, row.hookSession = some h ∧ h.ownership.phase.isActivated = true ∧
      Asked ownershipClaimId h ∧ owner = ⟨row.turnId, row.metadata, h⟩ := by
  unfold TurnRow.owner at howner
  obtain ⟨h, hrow, howner⟩ := Option.bind_eq_some_iff.1 howner
  split_ifs at howner with hphase hclaim
  cases howner
  refine ⟨h, hrow, by simpa using hphase, fun hasked => ?_, rfl⟩
  simp only [Bool.and_eq_true, decide_eq_true_eq, not_and, ne_eq, not_not] at hclaim
  exact hclaim hasked

theorem owner_of {ownershipClaimId : Option String} (hrow : row.hookSession = some h)
    (hphase : h.ownership.phase.isActivated = true) (hasked : Asked ownershipClaimId h) :
    row.owner ownershipClaimId = some ⟨row.turnId, row.metadata, h⟩ := by
  unfold TurnRow.owner
  rw [hrow]
  simp only [Option.bind_eq_bind, Option.bind_some, hphase, Bool.not_true, Bool.false_eq_true,
    if_false]
  rw [if_neg]
  simp only [Bool.and_eq_true, decide_eq_true_eq, not_and, ne_eq, not_not]
  exact hasked

theorem mem_turnsOf {sessionId : String} : row ∈ turnsOf db sessionId ↔
    row ∈ db.rows ∧ row.sessionId = sessionId ∧ row.busyReason = .turn := by
  unfold turnsOf
  simp [List.mem_filter]

theorem turnsOf_pairwise (db : TurnRows) (sessionId : String) :
    (turnsOf db sessionId).Pairwise fun row row' => row'.acceptedSequence < row.acceptedSequence := by
  have hnodup : ((db.rows.filter fun row => row.sessionId = sessionId && row.busyReason = .turn).map
      fun row => [Sql.SqlValue.integer row.acceptedSequence]).Nodup := by
    have hsequences := db.holds.2
    unfold Constraint.unique at hsequences
    simp only [List.filterMap_eq_map'] at hsequences
    have hkeys : ((db.rows.filter fun row => row.sessionId = sessionId && row.busyReason = .turn).map
        TurnRow.acceptedSequence).Nodup := hsequences.sublist (List.filter_sublist.map _)
    have hinjective : Function.Injective fun n : ℕ => [Sql.SqlValue.integer n] := by
      intro n m heq
      simpa using heq
    have hmapped := hkeys.map hinjective
    rw [List.map_map] at hmapped
    exact hmapped
  have hsorted := @Sql.orderBy_pairwise _ [true] _ _ (fun row : TurnRow => rfl) hnodup
  refine hsorted.imp fun {row row'} hbefore => ?_
  simpa [Sql.comesBefore, Sql.SqlValue.before] using hbefore

/-- The owner that is found is the latest of those asked for. -/
theorem findOwner_some {sessionId : String} {ownershipClaimId : Option String} {owner : Owner}
    (hfind : findPluginHookSessionOwner db sessionId ownershipClaimId = some owner) :
    ∃ row h, OwnsActivated db sessionId row h ∧ Asked ownershipClaimId h ∧
      owner = ⟨row.turnId, row.metadata, h⟩ ∧
      ∀ row' h', OwnsActivated db sessionId row' h' → Asked ownershipClaimId h' →
        row'.acceptedSequence ≤ row.acceptedSequence := by
  obtain ⟨before, row, after, hturns, howner, hbefore⟩ := List.findSome?_eq_some_iff.1 hfind
  obtain ⟨h, hrow, hphase, hasked, rfl⟩ := owner_some howner
  have hmem : row ∈ turnsOf db sessionId := hturns ▸ List.mem_append_right _ List.mem_cons_self
  obtain ⟨hdb, hsession, hreason⟩ := mem_turnsOf.1 hmem
  refine ⟨row, h, ⟨hdb, hsession, hreason, hrow, hphase⟩, hasked, rfl, ?_⟩
  rintro row' h' ⟨hdb', hsession', hreason', hrow', hphase'⟩ hasked'
  have hmem' := mem_turnsOf.2 ⟨hdb', hsession', hreason'⟩
  have hpairwise := turnsOf_pairwise db sessionId
  rw [hturns] at hmem' hpairwise
  rcases List.mem_append.1 hmem' with hmem' | hmem'
  · have howner' := owner_of hrow' hphase' hasked'
    rw [hbefore row' hmem'] at howner'
    cases howner'
  · rcases List.mem_cons.1 hmem' with rfl | hmem'
    · exact Nat.le_refl _
    · exact Nat.le_of_lt ((List.pairwise_cons.1 (List.pairwise_append.1 hpairwise).2.1).1 _ hmem')

theorem findOwner_none {sessionId : String} {ownershipClaimId : Option String}
    (hfind : findPluginHookSessionOwner db sessionId ownershipClaimId = none) {row : TurnRow}
    {h : PluginHookSessionMetadata} (howns : OwnsActivated db sessionId row h) :
    ¬ Asked ownershipClaimId h := by
  intro hasked
  obtain ⟨hdb, hsession, hreason, hrow, hphase⟩ := howns
  have hnone := List.findSome?_eq_none_iff.1 hfind row (mem_turnsOf.2 ⟨hdb, hsession, hreason⟩)
  rw [owner_of hrow hphase hasked] at hnone
  cases hnone

end Tables

/-! ## Calls -/

/-- The member that a preparation writes. -/
def preparedHook (ownershipClaimId turnId : String) (now : JsNumber) : PluginHookSessionMetadata where
  ownership := { claimId := ownershipClaimId, turnId, claimedAtMs := now, phase := .prepared }
  sessionEnd := none

def activatedHook (h : PluginHookSessionMetadata) (now : JsNumber) : PluginHookSessionMetadata :=
  { h with ownership := { h.ownership with phase := .activated now } }

def endedHook (h : PluginHookSessionMetadata) (e : SessionEnd) : PluginHookSessionMetadata :=
  { h with sessionEnd := some e }

/-- The owner is the latest of its session. -/
def Latest (db : TurnRows) (sessionId : String) (row : TurnRow) (h : PluginHookSessionMetadata) :
    Prop :=
  OwnsActivated db sessionId row h ∧ ∀ row' h', OwnsActivated db sessionId row' h' →
    row'.acceptedSequence ≤ row.acceptedSequence

/-- What a call makes of the rows, and what it answers. -/
inductive Effect (db : TurnRows) : Timed → TurnRows → Answer → Prop
  | refused {timed : Timed} {answer : Answer} : answer ≠ .claim .claimed →
    answer ≠ .completed true → Effect db timed db answer
  | admitted {now sessionId turnId busyReason acceptedSequence inputMetadata} {db' : TurnRows} :
    db'.rows = db.rows ++
      [admittedRow sessionId turnId busyReason acceptedSequence inputMetadata] →
    Effect db ⟨now, .admitTurn sessionId turnId busyReason acceptedSequence inputMetadata⟩ db'
      (.admitted true)
  | prepared {now ownershipClaimId} {db' : TurnRows} {row : TurnRow} : row.hookSession = none →
    Writes db db' row (preparedHook ownershipClaimId row.turnId now) →
    Effect db ⟨now, .prepare row.sessionId row.turnId ownershipClaimId⟩ db' (.done (.ok ()))
  | activated {now} {db' : TurnRows} {row : TurnRow} {h : PluginHookSessionMetadata} :
    row.hookSession = some h → h.ownership.phase.isActivated = false →
    Writes db db' row (activatedHook h now) →
    Effect db ⟨now, .activate row.sessionId row.turnId h.ownership.claimId⟩ db' (.done (.ok ()))
  | claimed {now sessionId sessionEndClaimId reason} {db' : TurnRows} {row : TurnRow}
    {h : PluginHookSessionMetadata} : Latest db sessionId row h → h.sessionEnd = none →
    Writes db db' row (endedHook h ⟨sessionEndClaimId, reason, now, none⟩) →
    Effect db ⟨now, .tryClaim sessionId h.ownership.claimId sessionEndClaimId reason⟩ db'
      (.claim .claimed)
  | completed {now sessionId} {db' : TurnRows} {row : TurnRow} {h : PluginHookSessionMetadata}
    {e : SessionEnd} : OwnsActivated db sessionId row h → h.sessionEnd = some e →
    Writes db db' row (endedHook h { e with completedAtMs := some now }) →
    Effect db ⟨now, .complete sessionId h.ownership.claimId e.claimId⟩ db' (.completed true)

section Calls

variable {db : TurnRows}

theorem prepare_effect (now : JsNumber) (sessionId turnId ownershipClaimId : String) :
    Effect db ⟨now, .prepare sessionId turnId ownershipClaimId⟩
      (preparePluginHookSessionOwnership db sessionId turnId ownershipClaimId now).1
      (.done (preparePluginHookSessionOwnership db sessionId turnId ownershipClaimId now).2) := by
  unfold preparePluginHookSessionOwnership
  generalize hfind : Option.filter _ (findTurn db sessionId turnId) = found
  rcases found with _ | row
  · exact .refused nofun nofun
  · obtain ⟨hrow, rfl, rfl⟩ := findTurn_some (Option.filter_eq_some_iff.1 hfind).1
    rcases hhook : parsePluginHookSessionMetadata (row.metadata.get "pluginHookSession")
      row.turnId with _ | h <;> simp only [hhook]
    · refine .prepared hhook (writes_setMetadata hrow (fun r hr => ?_) _)
      simp only [Bool.and_eq_true, decide_eq_true_eq]
      exact ⟨And.right, fun hturn => ⟨by rw [eq_of_turnId hrow hr hturn], hturn⟩⟩
    · split_ifs
      · exact .refused nofun nofun
      · exact .refused nofun nofun

theorem activate_effect (now : JsNumber) (sessionId turnId ownershipClaimId : String) :
    Effect db ⟨now, .activate sessionId turnId ownershipClaimId⟩
      (activatePluginHookSessionOwnership db sessionId turnId ownershipClaimId now).1
      (.done (activatePluginHookSessionOwnership db sessionId turnId ownershipClaimId now).2) := by
  unfold activatePluginHookSessionOwnership
  rcases hfind : findTurn db sessionId turnId with _ | row
  · exact .refused nofun nofun
  · obtain ⟨hrow, rfl, rfl⟩ := findTurn_some hfind
    simp only [Option.map_some, Option.getD_some]
    rcases hhook : parsePluginHookSessionMetadata
      ((parseInputMetadata row.inputMetadataJson).get "pluginHookSession") row.turnId with _ | h
    · exact .refused nofun nofun
    · simp only
      split_ifs with hclaim hphase
      · exact .refused nofun nofun
      · exact .refused nofun nofun
      · rw [ne_eq, not_not] at hclaim
        subst hclaim
        refine .activated hhook (by simpa using hphase)
          (writes_setMetadata hrow (fun r hr => ?_) (activatedHook h now))
        simp only [Bool.and_eq_true, decide_eq_true_eq]
        exact ⟨And.right, fun hturn => ⟨by rw [eq_of_turnId hrow hr hturn], hturn⟩⟩

theorem tryClaim_effect (now : JsNumber) (sessionId ownershipClaimId sessionEndClaimId : String)
    (reason : PluginHookSessionEndReason) :
    Effect db ⟨now, .tryClaim sessionId ownershipClaimId sessionEndClaimId reason⟩
      (tryClaimPluginHookSessionEnd db sessionId ownershipClaimId sessionEndClaimId reason now).1
      (.claim (tryClaimPluginHookSessionEnd db sessionId ownershipClaimId sessionEndClaimId reason
        now).2) := by
  unfold tryClaimPluginHookSessionEnd
  rcases hfind : findPluginHookSessionOwner db sessionId none with _ | owner
  · exact .refused nofun nofun
  · obtain ⟨row, h, howns, -, rfl, hlatest⟩ := findOwner_some hfind
    simp only
    split_ifs with hclaim hend
    · exact .refused nofun nofun
    · exact .refused nofun nofun
    · rw [ne_eq, not_not] at hclaim
      subst hclaim
      refine .claimed ⟨howns, fun row' h' howns' => hlatest row' h' howns' (absurd rfl)⟩
        (by simpa using hend) (writes_setMetadata howns.1 (fun r _ => ?_) (endedHook h _))
      exact decide_eq_true_iff

theorem complete_effect (now : JsNumber) (sessionId : String) {ownershipClaimId : String}
    (hclaim : ownershipClaimId ≠ "") (sessionEndClaimId : String) :
    Effect db ⟨now, .complete sessionId ownershipClaimId sessionEndClaimId⟩
      (completePluginHookSessionEnd db sessionId ownershipClaimId sessionEndClaimId now).1
      (.completed (completePluginHookSessionEnd db sessionId ownershipClaimId sessionEndClaimId
        now).2) := by
  unfold completePluginHookSessionEnd
  rcases hfind : findPluginHookSessionOwner db sessionId (some ownershipClaimId) with _ | owner
  · exact .refused nofun nofun
  · obtain ⟨row, h, howns, hasked, rfl, -⟩ := findOwner_some hfind
    obtain rfl := Option.some.inj (hasked hclaim)
    simp only
    rcases hend : h.sessionEnd with _ | e
    · exact .refused nofun nofun
    · simp only
      split_ifs with hendClaim
      · exact .refused nofun nofun
      · rw [ne_eq, not_not] at hendClaim
        subst hendClaim
        exact .completed howns hend
          (writes_setMetadata howns.1 (fun r _ => decide_eq_true_iff) (endedHook h _))

theorem step_effect {timed : Timed} (hproper : timed.Proper) :
    Effect db timed (step db timed).1 (step db timed).2 := by
  obtain ⟨now, call⟩ := timed
  cases call with
  | admitTurn sessionId turnId busyReason acceptedSequence inputMetadata =>
    change Effect db _ (admitTurn db _).1 (.admitted (admitTurn db _).2)
    unfold admitTurn
    rcases hinsert : db.insert (admittedRow sessionId turnId busyReason acceptedSequence
      inputMetadata) with _ | db'
    · exact .refused nofun nofun
    · exact .admitted (Table.insert_eq_some hinsert)
  | prepare sessionId turnId ownershipClaimId => exact prepare_effect now _ _ _
  | activate sessionId turnId ownershipClaimId => exact activate_effect now _ _ _
  | tryClaim sessionId ownershipClaimId sessionEndClaimId reason => exact tryClaim_effect now _ _ _ _
  | complete sessionId ownershipClaimId sessionEndClaimId =>
    refine complete_effect now _ ?_ _
    rintro rfl
    cases hproper.2

end Calls

/-! ## What is kept -/

theorem Follows.refl (h : PluginHookSessionMetadata) : Follows h h :=
  ⟨rfl, fun _ => rfl, fun e he => ⟨e, he, rfl, rfl, rfl, id⟩⟩

theorem Follows.trans {h₁ h₂ h₃ : PluginHookSessionMetadata} (h : Follows h₁ h₂)
    (h' : Follows h₂ h₃) : Follows h₁ h₃ := by
  refine ⟨h'.claimId.trans h.claimId, fun hphase => ?_, fun e he => ?_⟩
  · have hsame := h.activated hphase
    exact (h'.activated (hsame ▸ hphase)).trans hsame
  · obtain ⟨e₂, he₂, hclaim, hreason, hclaimed, hcompleted⟩ := h.sessionEnd e he
    obtain ⟨e₃, he₃, hclaim', hreason', hclaimed', hcompleted'⟩ := h'.sessionEnd e₂ he₂
    exact ⟨e₃, he₃, hclaim'.trans hclaim, hreason'.trans hreason, hclaimed'.trans hclaimed,
      hcompleted' ∘ hcompleted⟩

theorem Keeps.refl (row : TurnRow) : Keeps row row :=
  ⟨rfl, rfl, rfl, rfl, fun _ _ => rfl, fun h hrow => ⟨h, hrow, .refl h⟩⟩

theorem Keeps.trans {row₁ row₂ row₃ : TurnRow} (h : Keeps row₁ row₂) (h' : Keeps row₂ row₃) :
    Keeps row₁ row₃ where
  turnId := h'.turnId.trans h.turnId
  sessionId := h'.sessionId.trans h.sessionId
  busyReason := h'.busyReason.trans h.busyReason
  acceptedSequence := h'.acceptedSequence.trans h.acceptedSequence
  members key hkey := (h'.members key hkey).trans (h.members key hkey)
  hookSession hook hrow := by
    obtain ⟨hook', hrow', hfollows⟩ := h.hookSession hook hrow
    obtain ⟨hook'', hrow'', hfollows'⟩ := h'.hookSession hook' hrow'
    exact ⟨hook'', hrow'', hfollows.trans hfollows'⟩

section Kept

variable {db db' : TurnRows} {row : TurnRow} {h : PluginHookSessionMetadata} {timed : Timed}

/-- Every row is there afterwards. -/
def AllKept (db db' : TurnRows) : Prop := ∀ row ∈ db.rows, ∃ row' ∈ db'.rows, Keeps row row'

/-- A member that is valid and follows the row's is written and read. -/
structure Stores (row : TurnRow) (h : PluginHookSessionMetadata) : Prop where
  valid : Valid h
  turnId : h.ownership.turnId = row.turnId
  follows : ∀ h', row.hookSession = some h' → Follows h' h

theorem Stores.keeps (hstores : Stores row h) : Keeps row (row.withHook h) where
  turnId := rfl
  sessionId := rfl
  busyReason := rfl
  acceptedSequence := rfl
  members key hkey := by rw [get_withHook, if_neg hkey]
  hookSession h' hrow :=
    ⟨h, hookSession_withHook hstores.valid hstores.turnId, hstores.follows h' hrow⟩

theorem Writes.allKept (hwrites : Writes db db' row h) (hstores : Stores row h) :
    AllKept db db' := by
  intro r hr
  by_cases hturn : r.turnId = row.turnId
  · rw [eq_of_turnId hwrites.mem hr hturn]
    exact ⟨row.withHook h, hwrites.mem_iff.2 (.inl rfl), hstores.keeps⟩
  · exact ⟨r, hwrites.mem_iff.2 (.inr ⟨hr, hturn⟩), .refl r⟩

theorem stores_prepared {ownershipClaimId : String} {now : JsNumber} (hrow : row.hookSession = none)
    (hclaim : isBoundedText ownershipClaimId = true) (hnow : isTimestamp now = true) :
    Stores row (preparedHook ownershipClaimId row.turnId now) := by
  refine ⟨⟨hclaim, hnow, nofun, nofun⟩, rfl, fun h' hrow' => ?_⟩
  rw [hrow] at hrow'
  cases hrow'

theorem stores_activated {now : JsNumber} (hrow : row.hookSession = some h)
    (hphase : h.ownership.phase.isActivated = false) (hnow : isTimestamp now = true) :
    Stores row (activatedHook h now) := by
  obtain ⟨hvalid, hturn⟩ := valid_hookSession hrow
  refine ⟨⟨hvalid.claimId, hvalid.claimedAtMs, fun t ht => ?_, hvalid.sessionEnd⟩, hturn,
    fun h' hrow' => ?_⟩
  · cases ht
    exact hnow
  · obtain rfl := Option.some.inj (hrow.symm.trans hrow')
    refine ⟨rfl, fun hphase' => ?_, fun e he => ⟨e, he, rfl, rfl, rfl, id⟩⟩
    rw [hphase] at hphase'
    cases hphase'

theorem stores_claimed {sessionEndClaimId : String} {reason : PluginHookSessionEndReason}
    {now : JsNumber} (hrow : row.hookSession = some h) (hend : h.sessionEnd = none)
    (hclaim : isBoundedText sessionEndClaimId = true) (hnow : isTimestamp now = true) :
    Stores row (endedHook h ⟨sessionEndClaimId, reason, now, none⟩) := by
  obtain ⟨hvalid, hturn⟩ := valid_hookSession hrow
  refine ⟨⟨hvalid.claimId, hvalid.claimedAtMs, hvalid.activatedAtMs, fun e he => ?_⟩, hturn,
    fun h' hrow' => ?_⟩
  · cases he
    exact ⟨hclaim, hnow, nofun⟩
  · obtain rfl := Option.some.inj (hrow.symm.trans hrow')
    refine ⟨rfl, fun _ => rfl, fun e he => ?_⟩
    rw [hend] at he
    cases he

theorem stores_completed {e : SessionEnd} {now : JsNumber} (hrow : row.hookSession = some h)
    (hend : h.sessionEnd = some e) (hnow : isTimestamp now = true) :
    Stores row (endedHook h { e with completedAtMs := some now }) := by
  obtain ⟨hvalid, hturn⟩ := valid_hookSession hrow
  obtain ⟨hclaim, hclaimed, -⟩ := hvalid.sessionEnd e hend
  refine ⟨⟨hvalid.claimId, hvalid.claimedAtMs, hvalid.activatedAtMs, fun e' he' => ?_⟩, hturn,
    fun h' hrow' => ?_⟩
  · cases he'
    refine ⟨hclaim, hclaimed, fun t ht => ?_⟩
    cases ht
    exact hnow
  · obtain rfl := Option.some.inj (hrow.symm.trans hrow')
    refine ⟨rfl, fun _ => rfl, fun e' he' => ?_⟩
    obtain rfl := Option.some.inj (hend.symm.trans he')
    exact ⟨_, rfl, rfl, rfl, rfl, fun _ => rfl⟩

/-- No call loses a row, or anything of a member. -/
theorem step_allKept (hproper : timed.Proper) : AllKept db (step db timed).1 := by
  have heffect : Effect db timed (step db timed).1 (step db timed).2 := step_effect hproper
  generalize step db timed = result at heffect
  obtain ⟨db', answer⟩ := result
  simp only at heffect ⊢
  obtain ⟨hnow, hcall⟩ := hproper
  cases heffect with
  | refused => exact fun row hrow => ⟨row, hrow, .refl row⟩
  | admitted hrows =>
    exact fun row hrow => ⟨row, hrows ▸ List.mem_append_left _ hrow, .refl row⟩
  | prepared hrow hwrites => exact hwrites.allKept (stores_prepared hrow hcall hnow)
  | activated hrow hphase hwrites => exact hwrites.allKept (stores_activated hrow hphase hnow)
  | claimed hlatest hend hwrites =>
    exact hwrites.allKept (stores_claimed hlatest.1.2.2.2.1 hend hcall hnow)
  | completed howns hend hwrites =>
    exact hwrites.allKept (stores_completed howns.2.2.2.1 hend hnow)

theorem after_allKept (db : TurnRows) {calls : List Timed}
    (hproper : ∀ timed ∈ calls, timed.Proper) : AllKept db (machine.after db calls) := by
  induction calls generalizing db with
  | nil => exact fun row hrow => ⟨row, hrow, .refl row⟩
  | cons timed calls ih =>
    intro row hrow
    obtain ⟨row', hrow', hkeeps⟩ := step_allKept (hproper timed List.mem_cons_self) row hrow
    obtain ⟨row'', hrow'', hkeeps'⟩ := ih (step db timed).1
      (fun timed' hmem => hproper timed' (List.mem_cons_of_mem _ hmem)) row' hrow'
    exact ⟨row'', hrow'', hkeeps.trans hkeeps'⟩

/-- An activated owner stays one. -/
theorem OwnsActivated.kept {sessionId : String} (howns : OwnsActivated db sessionId row h)
    (hkept : AllKept db db') : ∃ row' h', OwnsActivated db' sessionId row' h' ∧
      row'.acceptedSequence = row.acceptedSequence ∧ Follows h h' := by
  obtain ⟨hrow, hsession, hreason, hhook, hphase⟩ := howns
  obtain ⟨row', hrow', hkeeps⟩ := hkept row hrow
  obtain ⟨h', hhook', hfollows⟩ := hkeeps.hookSession h hhook
  refine ⟨row', h', ⟨hrow', hkeeps.sessionId.trans hsession, hkeeps.busyReason.trans hreason, hhook',
    ?_⟩, hkeeps.acceptedSequence, hfollows⟩
  rw [hfollows.activated hphase]
  exact hphase

/-- And what is overtaken stays overtaken. -/
theorem Overtaken.kept {sessionId ownershipClaimId : String}
    (h : Overtaken db sessionId ownershipClaimId) (hkept : AllKept db db') :
    Overtaken db' sessionId ownershipClaimId := by
  obtain ⟨row, hook, row', hook', howns, hclaim, howns', hlater⟩ := h
  obtain ⟨row₁, hook₁, howns₁, hsequence, hfollows⟩ := howns.kept hkept
  obtain ⟨row₂, hook₂, howns₂, hsequence', -⟩ := howns'.kept hkept
  exact ⟨row₁, hook₁, row₂, hook₂, howns₁, hfollows.claimId.trans hclaim, howns₂, by omega⟩

end Kept

/-! ## Where members come from -/

section Sources

variable {calls : List Timed}

theorem ClaimedIn.append {sessionId ownershipClaimId sessionEndClaimId : String}
    (h : ClaimedIn calls sessionId ownershipClaimId sessionEndClaimId) (more : List Timed) :
    ClaimedIn (calls ++ more) sessionId ownershipClaimId sessionEndClaimId := by
  obtain ⟨before, now, reason, after, rfl, hclaimed⟩ := h
  exact ⟨before, now, reason, after ++ more, by rw [List.append_assoc, List.cons_append], hclaimed⟩

/-- A member was prepared by a call, and its end was claimed by one. -/
structure Sourced (calls : List Timed) (row : TurnRow) (h : PluginHookSessionMetadata) : Prop where
  prepared : ∃ now, ⟨now, .prepare row.sessionId row.turnId h.ownership.claimId⟩ ∈ calls
  ended : ∀ e, h.sessionEnd = some e → h.ownership.phase.isActivated = true ∧
    ClaimedIn calls row.sessionId h.ownership.claimId e.claimId

theorem Sourced.append {row : TurnRow} {h : PluginHookSessionMetadata} (hsourced : Sourced calls row h)
    (more : List Timed) : Sourced (calls ++ more) row h := by
  refine ⟨?_, fun e he => ?_⟩
  · obtain ⟨now, hmem⟩ := hsourced.prepared
    exact ⟨now, List.mem_append_left _ hmem⟩
  · obtain ⟨hphase, hclaimed⟩ := hsourced.ended e he
    exact ⟨hphase, hclaimed.append more⟩

def AllSourced (calls : List Timed) (db : TurnRows) : Prop :=
  ∀ row ∈ db.rows, ∀ h, row.hookSession = some h → Sourced calls row h

/-- Of the rows after a write, the one that is written and the others. -/
theorem Writes.allSourced {db db' : TurnRows} {row : TurnRow} {h : PluginHookSessionMetadata}
    (hwrites : Writes db db' row h) (hstores : Stores row h) (hsourced : AllSourced calls db)
    (hwritten : Sourced calls row h) : AllSourced calls db' := by
  intro r hr h' hhook
  rcases hwrites.mem_iff.1 hr with rfl | ⟨hr, -⟩
  · rw [hookSession_withHook hstores.valid hstores.turnId] at hhook
    cases hhook
    exact ⟨hwritten.prepared, hwritten.ended⟩
  · exact hsourced r hr h' hhook

/-- A turn is admitted without a member. -/
theorem hookSession_admittedRow {sessionId turnId : String} {busyReason : StoredBusyReason}
    {acceptedSequence : ℕ} {inputMetadata : JsValue}
    (habsent : inputMetadata.get "pluginHookSession" = .undefined) :
    (admittedRow sessionId turnId busyReason acceptedSequence inputMetadata).hookSession = none := by
  have hmetadata : (admittedRow sessionId turnId busyReason acceptedSequence
      inputMetadata).metadata.get "pluginHookSession" = .undefined := by
    unfold TurnRow.metadata parseInputMetadata admittedRow JsonText.parse
    simp only
    have hget := JsValue.get_json inputMetadata "pluginHookSession"
    rw [habsent] at hget
    generalize inputMetadata.json = v at hget
    cases v <;> exact hget
  unfold TurnRow.hookSession
  rw [hmetadata]
  rfl

theorem step_allSourced {timed : Timed} (hproper : timed.Proper)
    (hsourced : AllSourced calls (machine.after machine.initial calls)) :
    AllSourced (calls ++ [timed]) (step (machine.after machine.initial calls) timed).1 := by
  have heffect : Effect (machine.after machine.initial calls) timed
      (step (machine.after machine.initial calls) timed).1
      (step (machine.after machine.initial calls) timed).2 := step_effect hproper
  have hbefore : AllSourced (calls ++ [timed]) (machine.after machine.initial calls) :=
    fun row hrow h hhook => (hsourced row hrow h hhook).append [timed]
  have hlast : timed ∈ calls ++ [timed] := List.mem_append_right _ (List.mem_singleton_self timed)
  have hanswer := fun sessionId ownershipClaimId sessionEndClaimId now reason
      (hcall : timed = ⟨now, .tryClaim sessionId ownershipClaimId sessionEndClaimId reason⟩)
      (hclaimed : (step (machine.after machine.initial calls) timed).2 = .claim .claimed) =>
    show ClaimedIn (calls ++ [timed]) sessionId ownershipClaimId sessionEndClaimId from
      ⟨calls, now, reason, [], by rw [hcall], hcall ▸ hclaimed⟩
  generalize machine.after machine.initial calls = db at *
  generalize step db timed = result at *
  obtain ⟨db', answer⟩ := result
  simp only at heffect hanswer ⊢
  obtain ⟨hnow, hcall⟩ := hproper
  cases heffect with
  | refused => exact hbefore
  | admitted hrows =>
    intro row hrow h hhook
    rw [hrows] at hrow
    rcases List.mem_append.1 hrow with hrow | hrow
    · exact hbefore row hrow h hhook
    · rw [List.mem_singleton.1 hrow, hookSession_admittedRow hcall.2] at hhook
      cases hhook
  | prepared hrow hwrites =>
    exact hwrites.allSourced (stores_prepared hrow hcall hnow) hbefore ⟨⟨_, hlast⟩, nofun⟩
  | @activated _ _ row h hrow hphase hwrites =>
    have hsource := hbefore row hwrites.mem h hrow
    refine hwrites.allSourced (stores_activated hrow hphase hnow) hbefore
      ⟨hsource.prepared, fun e he => ⟨rfl, (hsource.ended e he).2⟩⟩
  | @claimed now sessionId sessionEndClaimId reason _ row h hlatest hend hwrites =>
    obtain ⟨-, hsession, -, hrow, hphase⟩ := hlatest.1
    have hsource := hbefore row hwrites.mem h hrow
    refine hwrites.allSourced (stores_claimed hrow hend hcall hnow) hbefore
      ⟨hsource.prepared, fun e he => ⟨hphase, ?_⟩⟩
    cases he
    exact hsession ▸ hanswer _ _ _ _ _ rfl rfl
  | @completed _ _ _ row h e howns hend hwrites =>
    obtain ⟨-, -, -, hrow, hphase⟩ := howns
    have hsource := hbefore row hwrites.mem h hrow
    refine hwrites.allSourced (stores_completed hrow hend hnow) hbefore
      ⟨hsource.prepared, fun e' he' => ⟨hphase, ?_⟩⟩
    cases he'
    exact (hsource.ended e hend).2

theorem after_allSourced (hproper : ∀ timed ∈ calls, timed.Proper) :
    AllSourced calls (machine.after machine.initial calls) := by
  induction calls using List.reverseRecOn with
  | nil => exact nofun
  | append_singleton calls timed ih =>
    rw [Machine.after_append]
    exact step_allSourced (hproper timed (by simp))
      (ih fun timed' hmem => hproper timed' (List.mem_append_left _ hmem))

/-- A claim is that of one row. -/
theorem eq_of_claimId (hproper : ∀ timed ∈ calls, timed.Proper) (hclaims : ClaimsOfOneTurn calls)
    {row row' : TurnRow} {h h' : PluginHookSessionMetadata}
    (hrow : row ∈ (machine.after machine.initial calls).rows) (hhook : row.hookSession = some h)
    (hrow' : row' ∈ (machine.after machine.initial calls).rows) (hhook' : row'.hookSession = some h')
    (hclaim : h'.ownership.claimId = h.ownership.claimId) : row' = row ∧ h' = h := by
  obtain ⟨now, hmem⟩ := (after_allSourced hproper row hrow h hhook).prepared
  obtain ⟨now', hmem'⟩ := (after_allSourced hproper row' hrow' h' hhook').prepared
  have hturn := hclaims _ hmem' _ hmem _ _ _ _ _ rfl (by rw [hclaim])
  obtain rfl := eq_of_turnId hrow hrow' hturn
  exact ⟨rfl, Option.some.inj (hhook'.symm.trans hhook)⟩

end Sources

/-! ## Answers -/

section Answers

variable {calls : List Timed} {db : TurnRows} {now : JsNumber}
  {sessionId ownershipClaimId sessionEndClaimId : String} {reason : PluginHookSessionEndReason}

/-- The end is claimed for the latest owner. -/
theorem latest_of_claimed (hclaimed : (tryClaimPluginHookSessionEnd db sessionId ownershipClaimId
      sessionEndClaimId reason now).2 = .claimed) :
    ∃ row h, Latest db sessionId row h ∧ h.ownership.claimId = ownershipClaimId ∧
      Writes db (tryClaimPluginHookSessionEnd db sessionId ownershipClaimId sessionEndClaimId reason
        now).1 row (endedHook h ⟨sessionEndClaimId, reason, now, none⟩) ∧ h.sessionEnd = none := by
  have heffect := @tryClaim_effect db now sessionId ownershipClaimId sessionEndClaimId reason
  generalize tryClaimPluginHookSessionEnd db sessionId ownershipClaimId sessionEndClaimId reason
    now = result at *
  obtain ⟨db', status⟩ := result
  simp only at hclaimed heffect ⊢
  subst hclaimed
  cases heffect with
  | refused hanswer => exact absurd rfl hanswer
  | claimed hlatest hend hwrites => exact ⟨_, _, hlatest, rfl, hwrites, hend⟩

variable (now sessionEndClaimId reason) in
/-- A claim for an owner whose end is claimed. -/
theorem tryClaim_again {row : TurnRow} {h : PluginHookSessionMetadata}
    (howns : OwnsActivated db sessionId row h) (hend : h.sessionEnd.isSome = true)
    (hone : ∀ row' h', OwnsActivated db sessionId row' h' →
      h'.ownership.claimId = h.ownership.claimId → row' = row ∧ h' = h) :
    (Overtaken db sessionId h.ownership.claimId →
      (tryClaimPluginHookSessionEnd db sessionId h.ownership.claimId sessionEndClaimId reason
        now).2 = .superseded) ∧
    (¬ Overtaken db sessionId h.ownership.claimId →
      (tryClaimPluginHookSessionEnd db sessionId h.ownership.claimId sessionEndClaimId reason
        now).2 = .alreadyClaimed) := by
  unfold tryClaimPluginHookSessionEnd
  rcases hfind : findPluginHookSessionOwner db sessionId none with _ | owner
  · exact absurd (absurd rfl) (findOwner_none hfind howns)
  · obtain ⟨latest, h', howns', -, rfl, hlatest⟩ := findOwner_some hfind
    simp only
    by_cases hclaim : h'.ownership.claimId = h.ownership.claimId
    · obtain ⟨rfl, rfl⟩ := hone latest h' howns' hclaim
      rw [if_neg (by simp), if_pos hend]
      refine ⟨?_, fun _ => rfl⟩
      rintro ⟨row₁, h₁, row₂, h₂, howns₁, hclaim₁, howns₂, hlater⟩
      obtain ⟨rfl, -⟩ := hone row₁ h₁ howns₁ hclaim₁
      have := hlatest row₂ h₂ howns₂ (absurd rfl)
      omega
    · rw [if_pos hclaim]
      refine ⟨fun _ => rfl, fun hnot => absurd ?_ hnot⟩
      have hle := hlatest row h howns (absurd rfl)
      have hne : row.acceptedSequence ≠ latest.acceptedSequence := by
        intro hsequence
        obtain rfl := eq_of_acceptedSequence howns'.1 howns.1 hsequence
        exact hclaim (congrArg (·.ownership.claimId)
          (Option.some.inj (howns'.2.2.2.1.symm.trans howns.2.2.2.1)))
      exact ⟨row, h, latest, h', howns, rfl, howns', by omega⟩

variable (now sessionId sessionEndClaimId) in
theorem complete_iff (hclaimId : ownershipClaimId ≠ "")
    (hone : ∀ row h row' h', OwnsActivated db sessionId row h → OwnsActivated db sessionId row' h' →
      h'.ownership.claimId = h.ownership.claimId → row' = row ∧ h' = h) :
    (completePluginHookSessionEnd db sessionId ownershipClaimId sessionEndClaimId now).2 = true ↔
      ∃ row h e, OwnsActivated db sessionId row h ∧ h.ownership.claimId = ownershipClaimId ∧
        h.sessionEnd = some e ∧ e.claimId = sessionEndClaimId := by
  unfold completePluginHookSessionEnd
  rcases hfind : findPluginHookSessionOwner db sessionId (some ownershipClaimId) with _ | owner
  · refine iff_of_false nofun ?_
    rintro ⟨row, h, e, howns, rfl, -⟩
    exact findOwner_none hfind howns fun _ => rfl
  · obtain ⟨row, h, howns, hasked, rfl, -⟩ := findOwner_some hfind
    have hclaim := Option.some.inj (hasked hclaimId)
    have hsame : ∀ {row' h'}, OwnsActivated db sessionId row' h' →
        h'.ownership.claimId = ownershipClaimId → h' = h :=
      fun howns' hclaim' => (hone _ _ _ _ howns howns' (hclaim'.trans hclaim.symm)).2
    simp only
    rcases hend : h.sessionEnd with _ | e
    · refine iff_of_false nofun ?_
      rintro ⟨row', h', e', howns', hclaim', hend', -⟩
      rw [hsame howns' hclaim', hend] at hend'
      cases hend'
    · simp only
      split_ifs with hne
      · refine iff_of_false nofun ?_
        rintro ⟨row', h', e', howns', hclaim', hend', rfl⟩
        rw [hsame howns' hclaim', hend] at hend'
        cases hend'
        exact hne rfl
      · exact iff_of_true rfl ⟨row, h, e, howns, hclaim, hend, by simpa using hne⟩

/-- Of the activated owners that calls lead to, one has the claim. -/
theorem one_of_claimId (hproper : ∀ timed ∈ calls, timed.Proper) (hclaims : ClaimsOfOneTurn calls)
    {row row' : TurnRow} {h h' : PluginHookSessionMetadata}
    (howns : OwnsActivated (machine.after machine.initial calls) sessionId row h)
    (howns' : OwnsActivated (machine.after machine.initial calls) sessionId row' h')
    (hclaim : h'.ownership.claimId = h.ownership.claimId) : row' = row ∧ h' = h :=
  eq_of_claimId hproper hclaims howns.1 howns.2.2.2.1 howns'.1 howns'.2.2.2.1 hclaim

/-- The owner whose end a call claimed has it after any more calls. -/
theorem ended_of_claimed {before more : List Timed}
    (hproper : ∀ timed ∈ before ++
      ⟨now, .tryClaim sessionId ownershipClaimId sessionEndClaimId reason⟩ :: more, timed.Proper)
    (hclaimed : (step (machine.after machine.initial before)
      ⟨now, .tryClaim sessionId ownershipClaimId sessionEndClaimId reason⟩).2 = .claim .claimed) :
    ∃ row h e, OwnsActivated (machine.after machine.initial (before ++
        ⟨now, .tryClaim sessionId ownershipClaimId sessionEndClaimId reason⟩ :: more)) sessionId row
          h ∧ h.ownership.claimId = ownershipClaimId ∧ h.sessionEnd = some e ∧
        e.claimId = sessionEndClaimId := by
  obtain ⟨row, h, hlatest, rfl, hwrites, hend⟩ := latest_of_claimed (Answer.claim.inj hclaimed)
  obtain ⟨hnow, hcall⟩ := hproper _ (List.mem_append_right _ List.mem_cons_self)
  obtain ⟨⟨hrow, hsession, hreason, hhook, hphase⟩, -⟩ := hlatest
  have hstores : Stores row (endedHook h ⟨sessionEndClaimId, reason, now, none⟩) :=
    stores_claimed hhook hend hcall hnow
  have howns : OwnsActivated (step (machine.after machine.initial before)
      ⟨now, .tryClaim sessionId h.ownership.claimId sessionEndClaimId reason⟩).1 sessionId
        (row.withHook (endedHook h ⟨sessionEndClaimId, reason, now, none⟩))
        (endedHook h ⟨sessionEndClaimId, reason, now, none⟩) :=
    ⟨hwrites.mem_iff.2 (.inl rfl), hsession, hreason,
      hookSession_withHook hstores.valid hstores.turnId, hphase⟩
  rw [Machine.after_append, Machine.after_cons]
  obtain ⟨row', h', howns', -, hfollows⟩ := howns.kept (after_allKept _ fun timed hmem =>
    hproper timed (List.mem_append_right _ (List.mem_cons_of_mem _ hmem)))
  obtain ⟨e, he, hclaim, -⟩ := hfollows.sessionEnd _ rfl
  exact ⟨row', h', e, howns', hfollows.claimId, he, hclaim⟩

end Answers

section Runs

/-- The end of a session is claimed at most once for an owner, while the owner is the latest that is
activated; later claims for it answer that it is claimed or, once and for all after a later owner is
activated, that it is superseded. It is completed under the claim that was answered, and no call
loses anything that another stored. -/
theorem session_end_claimed_once (calls : List Timed) (hproper : ∀ timed ∈ calls, timed.Proper)
    (hclaims : ClaimsOfOneTurn calls) :
    (∀ before now sessionId ownershipClaimId sessionEndClaimId reason after,
      calls = before ++
        ⟨now, .tryClaim sessionId ownershipClaimId sessionEndClaimId reason⟩ :: after →
      (step (machine.after machine.initial before)
        ⟨now, .tryClaim sessionId ownershipClaimId sessionEndClaimId reason⟩).2 = .claim .claimed →
      Activated (machine.after machine.initial before) sessionId ownershipClaimId ∧
      ¬ Overtaken (machine.after machine.initial before) sessionId ownershipClaimId ∧
      ∀ mid now' sessionEndClaimId' reason' rest, after = mid ++
          ⟨now', .tryClaim sessionId ownershipClaimId sessionEndClaimId' reason'⟩ :: rest →
        ∀ db', db' = machine.after machine.initial (before ++
          ⟨now, .tryClaim sessionId ownershipClaimId sessionEndClaimId reason⟩ :: mid) →
        (Overtaken db' sessionId ownershipClaimId → (step db'
          ⟨now', .tryClaim sessionId ownershipClaimId sessionEndClaimId' reason'⟩).2 =
            .claim .superseded) ∧
        (¬ Overtaken db' sessionId ownershipClaimId → (step db'
          ⟨now', .tryClaim sessionId ownershipClaimId sessionEndClaimId' reason'⟩).2 =
            .claim .alreadyClaimed)) ∧
    (∀ before after sessionId ownershipClaimId, calls = before ++ after →
      Overtaken (machine.after machine.initial before) sessionId ownershipClaimId →
      Overtaken (machine.after machine.initial calls) sessionId ownershipClaimId) ∧
    (∀ before now sessionId ownershipClaimId sessionEndClaimId after,
      calls = before ++ ⟨now, .complete sessionId ownershipClaimId sessionEndClaimId⟩ :: after →
      ((step (machine.after machine.initial before)
        ⟨now, .complete sessionId ownershipClaimId sessionEndClaimId⟩).2 = .completed true ↔
        ClaimedIn before sessionId ownershipClaimId sessionEndClaimId)) ∧
    ∀ before timed after, calls = before ++ timed :: after →
      ∀ row ∈ (machine.after machine.initial before).rows,
        ∃ row' ∈ (step (machine.after machine.initial before) timed).1.rows, Keeps row row' := by
  have hpart : ∀ part {rest : List Timed}, calls = part ++ rest →
      (∀ timed ∈ part, timed.Proper) ∧ ClaimsOfOneTurn part := by
    rintro part rest rfl
    exact ⟨fun timed hmem => hproper timed (List.mem_append_left _ hmem),
      fun timed hmem timed' hmem' => hclaims timed (List.mem_append_left _ hmem) timed'
        (List.mem_append_left _ hmem')⟩
  refine ⟨?_, ?_, ?_, ?_⟩
  · intro before now sessionId ownershipClaimId sessionEndClaimId reason after hcalls hclaimed
    obtain ⟨hproper', hclaims'⟩ := hpart before hcalls
    obtain ⟨row, h, hlatest, rfl, -, -⟩ := latest_of_claimed (Answer.claim.inj hclaimed)
    refine ⟨⟨row, h, hlatest.1, rfl⟩, ?_, ?_⟩
    · rintro ⟨row₁, h₁, row₂, h₂, howns₁, hclaim₁, howns₂, hlater⟩
      obtain ⟨rfl, -⟩ := one_of_claimId hproper' hclaims' hlatest.1 howns₁ hclaim₁
      have := hlatest.2 row₂ h₂ howns₂
      omega
    · rintro mid now' sessionEndClaimId' reason' rest rfl db' rfl
      obtain ⟨hproper'', hclaims''⟩ := hpart (before ++
        ⟨now, .tryClaim sessionId h.ownership.claimId sessionEndClaimId reason⟩ :: mid)
        (by rw [hcalls, List.append_assoc, List.cons_append])
      obtain ⟨row', h', e, howns', hclaim, hend, -⟩ := ended_of_claimed hproper'' hclaimed
      have hagain := tryClaim_again now' sessionEndClaimId' reason' howns' (by rw [hend]; rfl)
        fun row₁ h₁ howns₁ hclaim₁ => one_of_claimId hproper'' hclaims'' howns' howns₁ hclaim₁
      rw [hclaim] at hagain
      exact ⟨fun hover => congrArg Answer.claim (hagain.1 hover),
        fun hnot => congrArg Answer.claim (hagain.2 hnot)⟩
  · rintro before after sessionId ownershipClaimId rfl hover
    rw [Machine.after_append]
    exact hover.kept (after_allKept _ fun timed hmem => hproper timed (List.mem_append_right _ hmem))
  · intro before now sessionId ownershipClaimId sessionEndClaimId after hcalls
    obtain ⟨hproper', hclaims'⟩ := hpart before hcalls
    have hclaimId : ownershipClaimId ≠ "" := by
      rintro rfl
      cases (hproper _ (hcalls ▸ List.mem_append_right _ List.mem_cons_self)).2
    have hcomplete := complete_iff now sessionId sessionEndClaimId hclaimId
      fun row h row' h' howns howns' hclaim =>
        one_of_claimId hproper' hclaims' howns howns' hclaim
    have hanswer : (step (machine.after machine.initial before)
        ⟨now, .complete sessionId ownershipClaimId sessionEndClaimId⟩).2 = .completed true ↔
        (completePluginHookSessionEnd (machine.after machine.initial before) sessionId
          ownershipClaimId sessionEndClaimId now).2 = true :=
      ⟨Answer.completed.inj, congrArg Answer.completed⟩
    rw [hanswer, hcomplete]
    constructor
    · rintro ⟨row, h, e, ⟨hrow, hsession, -, hhook, -⟩, rfl, hend, rfl⟩
      exact hsession ▸ ((after_allSourced hproper' row hrow h hhook).ended e hend).2
    · rintro ⟨before', now', reason, after', rfl, hclaimed⟩
      exact ended_of_claimed hproper' hclaimed
  · rintro before timed after rfl row hrow
    exact step_allKept (hproper timed (List.mem_append_right _ List.mem_cons_self)) row hrow

/-- One turn owns the hooks of a session, which is archived. -/
def endedCalls : List Timed :=
  [⟨.finite 1, .admitTurn "s" "t" .turn 1 (.object [])⟩, ⟨.finite 2, .prepare "s" "t" "owner"⟩,
    ⟨.finite 3, .activate "s" "t" "owner"⟩, ⟨.finite 4, .tryClaim "s" "owner" "end" .archive⟩,
    ⟨.finite 5, .tryClaim "s" "owner" "again" .logout⟩, ⟨.finite 6, .complete "s" "owner" "end"⟩]

theorem endedCalls_proper : ∀ timed ∈ endedCalls, timed.Proper := by
  intro timed hmem
  simp only [endedCalls, List.mem_cons, List.not_mem_nil, or_false] at hmem
  rcases hmem with rfl | rfl | rfl | rfl | rfl | rfl
  all_goals refine ⟨by decide +kernel, ?_⟩
  · exact ⟨rfl, rfl⟩
  · exact by decide +kernel
  · trivial
  · exact by decide +kernel
  · exact by decide +kernel
  · exact by decide +kernel

theorem endedCalls_claims : ClaimsOfOneTurn endedCalls := by
  intro timed hmem timed' hmem'
  simp only [endedCalls, List.mem_cons, List.not_mem_nil, or_false] at hmem hmem'
  rintro sessionId turnId sessionId' turnId' ownershipClaimId h h'
  rcases hmem with rfl | rfl | rfl | rfl | rfl | rfl <;> cases h
  rcases hmem' with rfl | rfl | rfl | rfl | rfl | rfl <;> cases h'
  rfl

theorem session_end_claimed_once_archived :
    (step (machine.after machine.initial (endedCalls.take 3))
      ⟨.finite 4, .tryClaim "s" "owner" "end" .archive⟩).2 = .claim .claimed ∧
    Activated (machine.after machine.initial (endedCalls.take 3)) "s" "owner" ∧
    (step (machine.after machine.initial (endedCalls.take 5))
      ⟨.finite 6, .complete "s" "owner" "end"⟩).2 = .completed true := by
  have hclaimed : (step (machine.after machine.initial (endedCalls.take 3))
      ⟨.finite 4, .tryClaim "s" "owner" "end" .archive⟩).2 = .claim .claimed := by
    apply congrArg Answer.claim
    decide +kernel
  obtain ⟨honce, -, hcomplete, -⟩ :=
    session_end_claimed_once endedCalls endedCalls_proper endedCalls_claims
  refine ⟨hclaimed, (honce (endedCalls.take 3) (.finite 4) "s" "owner" "end" .archive _ rfl
    hclaimed).1, ?_⟩
  exact (hcomplete (endedCalls.take 5) (.finite 6) "s" "owner" "end" _ rfl).2
    ⟨endedCalls.take 3, .finite 4, .archive, _, rfl, hclaimed⟩

end Runs

end PluginHook

end Kinetick
