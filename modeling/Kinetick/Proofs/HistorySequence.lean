import Mathlib.Data.List.Induction
import Kinetick.History.Sequence
import Kinetick.Proofs.ToolRounds

/-!
# The tolerant reading of a valid history

After a history that was validated the two readings hold the same state, but for where the pending
calls started, which only the inspection reports (`Agrees`). So what is appended is judged as it
would be at the end of the whole.
-/

namespace Kinetick

namespace HistorySequence

open HistoryReduction (bind_ok)

/-! ## Sets of ids -/

theorem addId_of_not_mem {ids : List String} {id : String} (h : id ∉ ids) :
    addId ids id = ids ++ [id] := by
  unfold addId
  rw [if_neg h]

theorem mem_addId {ids : List String} {id id' : String} :
    id' ∈ addId ids id ↔ id' ∈ ids ∨ id' = id := by
  unfold addId
  split_ifs with h
  · constructor
    · exact .inl
    · rintro (h' | rfl)
      · exact h'
      · exact h
  · rw [List.mem_append, List.mem_singleton]

theorem foldl_addId_of_nodup {ids seen : List String} (h : ids.Nodup) (hseen : ∀ id ∈ ids, id ∉ seen) :
    ids.foldl addId seen = seen ++ ids := by
  induction ids generalizing seen with
  | nil => simp
  | cons id ids ih =>
    rw [List.nodup_cons] at h
    rw [List.foldl_cons, addId_of_not_mem (hseen id List.mem_cons_self), ih h.2]
    · simp
    · intro id' hid' hmem
      rcases List.mem_append.1 hmem with hmem | hmem
      · exact hseen id' (List.mem_cons_of_mem _ hid') hmem
      · rw [List.mem_singleton.1 hmem] at hid'
        exact h.1 hid'

theorem setOf_of_nodup {ids : List String} (h : ids.Nodup) : setOf ids = ids := by
  unfold setOf
  rw [foldl_addId_of_nodup h (by simp), List.nil_append]

/-! ## The calls of a message -/

/-- The ids of the calls in the blocks, those without one left out. -/
def blockCallIds (blocks : List JsValue) : List String :=
  blocks.flatMap fun block =>
    if !isPlainRecord block || !(block.get "type").isText "toolCall" then []
    else (nonEmptyString (block.get "id")).toList

theorem readToolCallIds_ok {messageIndex blockIndex : ℕ} {seen seen' ids : List String}
    {blocks : List JsValue}
    (h : readToolCallIds messageIndex blockIndex seen blocks = .ok (ids, seen')) :
    ids = blockCallIds blocks ∧ seen' = ids.foldl addId seen ∧ ids.Nodup ∧
      ∀ id ∈ ids, id ∉ seen := by
  induction blocks generalizing blockIndex seen seen' ids with
  | nil =>
    cases h
    exact ⟨rfl, rfl, List.nodup_nil, by simp⟩
  | cons block blocks ih =>
    obtain ⟨⟨first, seen₁⟩, hfirst, h⟩ := bind_ok h
    obtain ⟨⟨rest, seen₂⟩, hrest, h⟩ := bind_ok h
    cases h
    obtain ⟨hids, hseen, hnodup, hnew⟩ := ih hrest
    unfold readToolCallId at hfirst
    unfold blockCallIds at hids ⊢
    rw [List.flatMap_cons]
    split_ifs at hfirst with hcall
    · cases hfirst
      exact ⟨by rw [if_pos hcall, ← hids], hseen, hnodup, hnew⟩
    · rcases hid : nonEmptyString (block.get "id") with _ | id <;> rw [hid] at hfirst
      · cases hfirst
      · by_cases hmem : id ∈ seen
        · simp only [if_pos hmem] at hfirst
          cases hfirst
        · simp only [if_neg hmem] at hfirst
          cases hfirst
          refine ⟨?_, hseen, ?_, ?_⟩
          · rw [if_neg hcall, ← hids]
            rfl
          · rw [List.singleton_append, List.nodup_cons]
            exact ⟨fun hid' => hnew id hid' (mem_addId.2 (.inr rfl)), hnodup⟩
          · intro id' hid' hseen'
            rcases List.mem_append.1 hid' with hid' | hid'
            · rw [List.mem_singleton.1 hid'] at hseen'
              exact hmem hseen'
            · exact hnew id' hid' (mem_addId.2 (.inl hseen'))

/-- A strict reading of an assistant message finds the calls a tolerant one does. -/
theorem readAssistantToolCalls_ok {message : AgentMessage} {index : ℕ} {seen seen' : List String}
    {pending : Option (List String)} (hrole : message.hasRole "assistant" = true)
    (h : readAssistantToolCalls message index seen = .ok (pending, seen')) :
    seen' = (tolerantAssistantToolCallIds message).foldl addId seen ∧
      pending = (if (tolerantAssistantToolCallIds message).isEmpty then none
        else some (tolerantAssistantToolCallIds message)) ∧
      (tolerantAssistantToolCallIds message).Nodup := by
  unfold readAssistantToolCalls at h
  unfold tolerantAssistantToolCallIds
  rw [hrole]
  rcases hcontent : message.get "content" with _ | _ | _ | _ | _ | blocks | _ <;>
    rw [hcontent] at h <;> try cases h
  obtain ⟨⟨ids, seen₁⟩, hids, h⟩ := bind_ok h
  cases h
  obtain ⟨rfl, rfl, hnodup, -⟩ := readToolCallIds_ok hids
  exact ⟨rfl, by rw [setOf_of_nodup hnodup]; rfl, hnodup⟩

/-- What a valid boundary is. -/
theorem isCompactionBoundary_ok {message : AgentMessage} {index : ℕ} {boundary : Bool}
    (h : isCompactionBoundary message index = .ok boundary) :
    boundary = (message.hasRole "compactionSummary" || message.hasOwn "archonCompaction") := by
  unfold isCompactionBoundary at h
  dsimp only at h
  split_ifs at h with hsummary hnative hown hrole hversion hmarker
  · cases h
    simp [hsummary]
  · cases h
  · cases h
    simpa [hsummary] using hown
  · cases h
  · obtain ⟨-, -, h⟩ := bind_ok h
    cases h
    simpa [hsummary] using hown
  · cases h
  · cases h
    simpa [hsummary] using hown

/-! ## One record -/

/-- The record is valid at the index after the state, and gives the next. -/
def Validates (envelope : CanonicalHistoryEnvelope) (index : ℕ)
    (state state' : HistorySequenceState) : Prop :=
  (envelope.historyArtifact.isSome && decide (index ≠ 0)) = false ∧
    ∃ messageIds userTurnIds boundarySeen,
      validateMessageIdentity envelope.messageId index state.messageIds = .ok messageIds ∧
      validateTurnConfigAnchor envelope index state.userTurnIds = .ok userTurnIds ∧
      validateCompactionBoundary envelope.message index state.boundarySeen = .ok boundarySeen ∧
      (envelope.message.hasRole "toolResult" = true ∧ (∃ pending start,
          consumeToolResult envelope.message index state.pendingToolCallIds
            state.pendingToolCallStartIndex = .ok (pending, start) ∧
          state' = { state with
            messageIds, userTurnIds, boundarySeen
            pendingToolCallIds := pending
            pendingToolCallStartIndex := start }) ∨
        envelope.message.hasRole "toolResult" = false ∧
          assertNoPendingToolResults index state.pendingToolCallIds = .ok () ∧
          (envelope.message.hasRole "assistant" = true ∧ (∃ pending toolCallIds,
              readAssistantToolCalls envelope.message index state.toolCallIds =
                .ok (pending, toolCallIds) ∧
              state' = { state with
                messageIds, userTurnIds, boundarySeen, toolCallIds
                pendingToolCallIds := pending
                pendingToolCallStartIndex := if pending.isSome then some index else none }) ∨
            envelope.message.hasRole "assistant" = false ∧
              state' = { state with messageIds, userTurnIds, boundarySeen }))

theorem validateSequenceRecord_ok {envelope : CanonicalHistoryEnvelope} {index : ℕ}
    {state state' : HistorySequenceState} :
    validateSequenceRecord envelope index state = .ok state' ↔
      Validates envelope index state state' := by
  unfold validateSequenceRecord Validates
  constructor
  · intro h
    split_ifs at h with hartifact hresult hassistant
    · cases h
    all_goals
      obtain ⟨messageIds, hmessageIds, h⟩ := bind_ok h
      obtain ⟨userTurnIds, huserTurnIds, h⟩ := bind_ok h
      obtain ⟨boundarySeen, hboundarySeen, h⟩ := bind_ok h
      refine ⟨by simpa using hartifact, messageIds, userTurnIds, boundarySeen, hmessageIds,
        huserTurnIds, hboundarySeen, ?_⟩
    · obtain ⟨⟨pending, start⟩, hconsume, h⟩ := bind_ok h
      cases h
      exact .inl ⟨hresult, pending, start, hconsume, rfl⟩
    · obtain ⟨⟨⟩, hnone, h⟩ := bind_ok h
      obtain ⟨⟨pending, toolCallIds⟩, hread, h⟩ := bind_ok h
      cases h
      exact .inr ⟨by simpa using hresult, hnone, .inl ⟨hassistant, pending, toolCallIds, hread, rfl⟩⟩
    · obtain ⟨⟨⟩, hnone, h⟩ := bind_ok h
      cases h
      exact .inr ⟨by simpa using hresult, hnone, .inr ⟨by simpa using hassistant, rfl⟩⟩
  · rintro ⟨hartifact, messageIds, userTurnIds, boundarySeen, hmessageIds, huserTurnIds,
      hboundarySeen, hrest⟩
    rw [if_neg (by simpa using hartifact), hmessageIds, huserTurnIds, hboundarySeen]
    rcases hrest with ⟨hresult, pending, start, hconsume, rfl⟩ | ⟨hresult, hnone, hrest⟩
    · simp only [hresult, bind, Except.bind, ↓reduceIte, hconsume]
      rfl
    · rcases hrest with ⟨hassistant, pending, toolCallIds, hread, rfl⟩ | ⟨hassistant, rfl⟩
      · simp only [hresult, bind, Except.bind, Bool.false_eq_true, ↓reduceIte, hnone, hassistant,
          hread]
        rfl
      · simp only [hresult, bind, Except.bind, Bool.false_eq_true, ↓reduceIte, hnone, hassistant]
        rfl

theorem validateMessageIdentity_ok {messageId : String} {index : ℕ} {seen ids : List String}
    (h : validateMessageIdentity messageId index seen = .ok ids) : ids = addId seen messageId := by
  unfold validateMessageIdentity at h
  split_ifs at h
  · cases h
  · cases h
    rfl

theorem validateTurnConfigAnchor_ok {envelope : CanonicalHistoryEnvelope} {index : ℕ}
    {seen ids : List String} (h : validateTurnConfigAnchor envelope index seen = .ok ids) :
    ids = if envelope.message.hasRole "user" then addId seen envelope.turnId else seen := by
  unfold validateTurnConfigAnchor at h
  split_ifs at h with hrole
  · cases h
    rw [if_neg (by simpa using hrole)]
  · cases h
  · cases h
    rw [if_pos (by simpa using hrole)]

theorem validateCompactionBoundary_ok {message : AgentMessage} {index : ℕ} {seen seen' : Bool}
    (h : validateCompactionBoundary message index seen = .ok seen') :
    seen' = (seen || message.hasRole "compactionSummary" || message.hasOwn "archonCompaction") := by
  obtain ⟨boundary, hboundary, h⟩ := bind_ok h
  have hboundary := isCompactionBoundary_ok hboundary
  rw [Bool.or_assoc, ← hboundary]
  cases boundary
  · cases h
    rw [Bool.or_false]
  · simp only [Bool.not_true, Bool.false_eq_true, ↓reduceIte] at h
    split_ifs at h
    · cases h
    · cases h
      rw [Bool.or_true]

/-- A consumed result is of a pending call. -/
theorem consumeToolResult_ok {message : AgentMessage} {index : ℕ}
    {pending pending' : Option (List String)} {start start' : Option ℕ}
    (h : consumeToolResult message index pending start = .ok (pending', start')) :
    ∃ toolCallId ids, nonEmptyString (message.get "toolCallId") = some toolCallId ∧
      pending = some ids ∧ toolCallId ∈ ids ∧ (pending', start') =
        if (ids.filter (· ≠ toolCallId)).isEmpty then (none, none)
        else (some (ids.filter (· ≠ toolCallId)), start) := by
  unfold consumeToolResult at h
  rcases hid : nonEmptyString (message.get "toolCallId") with _ | toolCallId <;>
    rcases pending with _ | ids <;> simp only [hid] at h
  · cases h
  · cases h
  · cases h
  · by_cases hmem : toolCallId ∈ ids
    · rw [if_neg (by simpa using hmem)] at h
      exact ⟨toolCallId, ids, rfl, rfl, hmem, (Except.ok.inj h).symm⟩
    · rw [if_pos hmem] at h
      cases h

theorem assertNoPendingToolResults_ok {index : ℕ} {pending : Option (List String)}
    (h : assertNoPendingToolResults index pending = .ok ()) : pending.getD [] = [] := by
  unfold assertNoPendingToolResults at h
  rcases pending with _ | _ | ⟨id, ids⟩
  · rfl
  · rfl
  · cases h

/-! ## Both readings -/

/-- The tolerant reading is where the strict one is, but for the start of the pending calls. -/
structure Agrees (strict tolerant : HistorySequenceState) : Prop where
  same : ∃ start, strict = { tolerant with pendingToolCallStartIndex := start }
  pending : strict.pendingToolCallIds ≠ some []

theorem agrees_empty : Agrees emptyState emptyState := ⟨⟨none, rfl⟩, by simp [emptyState]⟩

theorem tolerantAssistantToolCallIds_of_not_assistant {message : AgentMessage}
    (h : message.hasRole "assistant" = false) : tolerantAssistantToolCallIds message = [] := by
  unfold tolerantAssistantToolCallIds
  rw [h]
  rfl

theorem not_assistant_of_result {message : AgentMessage}
    (h : message.hasRole "toolResult" = true) : message.hasRole "assistant" = false := by
  unfold AgentMessage.hasRole at h ⊢
  rcases hrole : message.get "role" with _ | _ | _ | _ | role | _ | _ <;> rw [hrole] at h <;>
    simp only [JsValue.isText, decide_eq_true_eq, Bool.false_eq_true] at h ⊢
  rw [h]
  decide

theorem agrees_step {envelope : CanonicalHistoryEnvelope} {index : ℕ}
    {strict strict' tolerant : HistorySequenceState} (hagrees : Agrees strict tolerant)
    (h : validateSequenceRecord envelope index strict = .ok strict') :
    Agrees strict' (updateAppendStateFromActive tolerant envelope) := by
  obtain ⟨⟨start, rfl⟩, hpending⟩ := hagrees
  obtain ⟨messageIds, toolCallIds, userTurnIds, pendingIds, start', boundarySeen⟩ := tolerant
  obtain ⟨-, _, _, _, hmessageIds, huserTurnIds, hboundarySeen, hrest⟩ :=
    validateSequenceRecord_ok.1 h
  cases validateMessageIdentity_ok hmessageIds
  cases validateTurnConfigAnchor_ok huserTurnIds
  cases validateCompactionBoundary_ok hboundarySeen
  clear h hmessageIds huserTurnIds hboundarySeen
  dsimp only at hpending hrest
  unfold updateAppendStateFromActive
  rcases hrest with ⟨hresult, pending', start'', hconsume, rfl⟩ | ⟨hresult, hnone, hrest⟩
  · obtain ⟨toolCallId, ids, hid, rfl, hmem, heq⟩ := consumeToolResult_ok hconsume
    have hcalls := tolerantAssistantToolCallIds_of_not_assistant (not_assistant_of_result hresult)
    simp only [hcalls, hresult, List.foldl_nil, if_true, consumeActiveToolResultTolerantly, hid,
      hmem, not_true_eq_false, if_false]
    by_cases hleft : (ids.filter (· ≠ toolCallId)).isEmpty = true
    · rw [if_pos hleft] at heq ⊢
      cases heq
      exact ⟨⟨none, rfl⟩, by simp⟩
    · rw [if_neg hleft] at heq ⊢
      cases heq
      refine ⟨⟨start, rfl⟩, fun hsome => hleft ?_⟩
      rw [Option.some.inj hsome]
      rfl
  · have hnone := assertNoPendingToolResults_ok hnone
    have hpendingNone : pendingIds = none := by
      rcases pendingIds with _ | ids
      · rfl
      · exact absurd (congrArg some hnone) hpending
    subst hpendingNone
    simp only [hresult, Bool.false_eq_true, if_false, Option.getD_none, List.isEmpty_nil, if_true]
    rcases hrest with ⟨hassistant, pending', toolCallIds', hread, rfl⟩ | ⟨hassistant, rfl⟩
    · obtain ⟨rfl, rfl, hnodup⟩ := readAssistantToolCalls_ok hassistant hread
      by_cases hcalls : (tolerantAssistantToolCallIds envelope.message).isEmpty = true
      · rw [if_pos hcalls, if_pos hcalls]
        exact ⟨⟨none, rfl⟩, by simp⟩
      · rw [if_neg hcalls, if_neg hcalls, setOf_of_nodup hnodup]
        refine ⟨⟨some index, rfl⟩, fun hsome => hcalls ?_⟩
        rw [Option.some.inj hsome]
        rfl
    · rw [tolerantAssistantToolCallIds_of_not_assistant hassistant]
      exact ⟨⟨start, rfl⟩, by simp⟩

/-! ## Runs -/

theorem validateRecords_append (index : ℕ) (state : HistorySequenceState)
    (records records' : List CanonicalHistoryEnvelope) :
    validateRecords index state (records ++ records') =
      validateRecords index state records >>= fun state =>
        validateRecords (index + records.length) state records' := by
  induction records generalizing index state with
  | nil => rfl
  | cons envelope records ih =>
    rw [List.cons_append, validateRecords, validateRecords, bind_assoc]
    congr 1
    funext state
    rw [ih, List.length_cons, Nat.add_assoc, Nat.add_comm 1]

theorem agrees_run {records : List CanonicalHistoryEnvelope} {index : ℕ}
    {strict strict' tolerant : HistorySequenceState} (hagrees : Agrees strict tolerant)
    (h : validateRecords index strict records = .ok strict') :
    Agrees strict' (records.foldl updateAppendStateFromActive tolerant) := by
  induction records generalizing index strict tolerant with
  | nil =>
    cases h
    exact hagrees
  | cons envelope records ih =>
    obtain ⟨state, hstep, h⟩ := bind_ok h
    exact ih (agrees_step hagrees hstep) h

/-- Where the pending calls started plays no part in what is valid. -/
theorem validateSequenceRecord_start {envelope : CanonicalHistoryEnvelope} {index : ℕ}
    {state state' : HistorySequenceState} (start : Option ℕ)
    (h : validateSequenceRecord envelope index state = .ok state') :
    ∃ start', validateSequenceRecord envelope index
      { state with pendingToolCallStartIndex := start } =
        .ok { state' with pendingToolCallStartIndex := start' } := by
  obtain ⟨hartifact, messageIds, userTurnIds, boundarySeen, hmessageIds, huserTurnIds,
    hboundarySeen, hrest⟩ := validateSequenceRecord_ok.1 h
  simp only [validateSequenceRecord_ok]
  rcases hrest with ⟨hresult, pending, start', hconsume, rfl⟩ | ⟨hresult, hnone, hrest⟩
  · have hconsume' : ∃ start', consumeToolResult envelope.message index state.pendingToolCallIds
        start = .ok (pending, start') := by
      obtain ⟨toolCallId, ids, hid, hids, hmem, heq⟩ := consumeToolResult_ok hconsume
      simp only [consumeToolResult, hid, hids, if_neg (not_not_intro hmem)]
      split_ifs at heq ⊢ <;> cases heq <;> exact ⟨_, rfl⟩
    obtain ⟨start'', hconsume'⟩ := hconsume'
    exact ⟨start'', hartifact, messageIds, userTurnIds, boundarySeen, hmessageIds, huserTurnIds,
      hboundarySeen, .inl ⟨hresult, pending, start'', hconsume', rfl⟩⟩
  · rcases hrest with ⟨hassistant, pending, toolCallIds, hread, rfl⟩ | ⟨hassistant, rfl⟩
    · exact ⟨_, hartifact, messageIds, userTurnIds, boundarySeen, hmessageIds, huserTurnIds,
        hboundarySeen, .inr ⟨hresult, hnone, .inl ⟨hassistant, pending, toolCallIds, hread, rfl⟩⟩⟩
    · exact ⟨start, hartifact, messageIds, userTurnIds, boundarySeen, hmessageIds, huserTurnIds,
        hboundarySeen, .inr ⟨hresult, hnone, .inr ⟨hassistant, rfl⟩⟩⟩

theorem validateRecords_start {records : List CanonicalHistoryEnvelope} {index : ℕ}
    {state state' : HistorySequenceState} (start : Option ℕ)
    (h : validateRecords index state records = .ok state') :
    ∃ start', validateRecords index { state with pendingToolCallStartIndex := start } records =
      .ok { state' with pendingToolCallStartIndex := start' } := by
  induction records generalizing index state start with
  | nil =>
    cases h
    exact ⟨start, rfl⟩
  | cons envelope records ih =>
    obtain ⟨state₁, hstep, h⟩ := bind_ok h
    obtain ⟨start₁, hstep'⟩ := validateSequenceRecord_start start hstep
    obtain ⟨start', h'⟩ := ih start₁ h
    refine ⟨start', ?_⟩
    rw [validateRecords, hstep']
    exact h'

/-- What is appended is valid by itself exactly when it is valid in the whole. -/
theorem append_valid_iff {active appended : List CanonicalHistoryEnvelope}
    {inspection : CanonicalHistorySequenceInspection}
    (h : inspectCanonicalHistorySequence active = .ok inspection) :
    assertCanonicalHistoryAppend active appended = .ok () ↔
      ∃ inspection', inspectCanonicalHistorySequence (active ++ appended) = .ok inspection' := by
  obtain ⟨state, hactive, -⟩ := bind_ok h
  obtain ⟨⟨start, hstate⟩, -⟩ := agrees_run agrees_empty hactive
  have hwhole : validateRecords 0 emptyState (active ++ appended) =
      validateRecords active.length state appended := by
    rw [validateRecords_append, hactive, Nat.zero_add]
    rfl
  unfold assertCanonicalHistoryAppend inspectCanonicalHistorySequence
  rw [hwhole]
  constructor
  · intro happend
    obtain ⟨state', happended, -⟩ := bind_ok happend
    obtain ⟨start', hstrict⟩ := validateRecords_start start happended
    exact ⟨_, by rw [hstate]; exact congrArg (· >>= _) hstrict⟩
  · rintro ⟨inspection', hinspect⟩
    obtain ⟨state', happended, -⟩ := bind_ok hinspect
    obtain ⟨start', htolerant⟩ :=
      validateRecords_start (deriveAppendState active).pendingToolCallStartIndex happended
    rw [hstate] at htolerant
    exact congrArg (· >>= fun _ => Except.ok ()) htolerant

/-! ## The pending tail -/

/-- Nothing is pending, or the tail is. -/
def Tailed (records : List CanonicalHistoryEnvelope) (state : HistorySequenceState) : Prop :=
  state.pendingToolCallIds = none ∨ ∃ count ids, state.pendingToolCallIds = some ids ∧
    state.pendingToolCallStartIndex = some count ∧ PendingTail records count ids

theorem inspect_settled {records : List CanonicalHistoryEnvelope} {state : HistorySequenceState}
    (h : validateRecords 0 emptyState records = .ok state) (hnone : state.pendingToolCallIds = none) :
    inspectCanonicalHistorySequence records = .ok .settled := by
  unfold inspectCanonicalHistorySequence inspection
  rw [h]
  simp only [bind, Except.bind, hnone]
  rfl

theorem unanswered_append (record result : CanonicalHistoryEnvelope)
    (following : List CanonicalHistoryEnvelope) {toolCallId : String}
    (hresult : result.message.hasRole "toolResult" = true)
    (hid : nonEmptyString (result.message.get "toolCallId") = some toolCallId) :
    unanswered record (following ++ [result]) =
      (unanswered record following).filter (· ≠ toolCallId) := by
  unfold unanswered
  rw [List.filter_filter]
  refine List.filter_congr fun id _ => ?_
  rw [List.any_append, List.any_cons, List.any_nil, Bool.or_false, Bool.not_or, Bool.and_comm]
  congr 1
  simp only [answers, hresult, hid, Bool.true_and, Option.some.injEq, decide_not, eq_comm]

/-- One more record. -/
theorem tailed_step {records : List CanonicalHistoryEnvelope} {envelope : CanonicalHistoryEnvelope}
    {state state' : HistorySequenceState} (hrecords : validateRecords 0 emptyState records = .ok state)
    (htailed : Tailed records state)
    (h : validateSequenceRecord envelope records.length state = .ok state') :
    Tailed (records ++ [envelope]) state' := by
  obtain ⟨-, messageIds, userTurnIds, boundarySeen, -, -, -, hrest⟩ := validateSequenceRecord_ok.1 h
  rcases hrest with ⟨hresult, pending, start, hconsume, rfl⟩ | ⟨hresult, hnone, hrest⟩
  · obtain ⟨toolCallId, ids, hid, hids, hmem, heq⟩ := consumeToolResult_ok hconsume
    split_ifs at heq with hleft
    · cases heq
      exact .inl rfl
    · cases heq
      rcases htailed with hnone | ⟨count, ids', hids', hstart, htail⟩
      · rw [hids] at hnone
        cases hnone
      rw [hids] at hids'
      cases hids'
      obtain ⟨hsettled, ⟨record, hrecord, hassistant, hunanswered⟩, hresults, -⟩ := htail
      have hcount := (List.getElem?_eq_some_iff.1 hrecord).1
      refine .inr ⟨count, _, rfl, hstart, ?_, ⟨record, ?_, hassistant, ?_⟩, ?_, ?_⟩
      · rwa [List.take_append_of_le_length (by omega)]
      · rwa [List.getElem?_append_left hcount]
      · rw [List.drop_append_of_le_length (by omega), unanswered_append _ _ _ hresult hid,
          ← hunanswered]
      · rw [List.drop_append_of_le_length (by omega)]
        intro record' hrecord'
        rcases List.mem_append.1 hrecord' with hrecord' | hrecord'
        · exact hresults record' hrecord'
        · rw [List.mem_singleton.1 hrecord']
          exact hresult
      · intro hnil
        exact hleft (by rw [hnil]; rfl)
  · have hpending : state.pendingToolCallIds = none := by
      have hnone := assertNoPendingToolResults_ok hnone
      rcases htailed with hnone' | ⟨count, ids, hids, -, htail⟩
      · exact hnone'
      · rw [hids] at hnone
        exact absurd hnone htail.pending
    rcases hrest with ⟨hassistant, pending, toolCallIds, hread, rfl⟩ | ⟨-, rfl⟩
    · obtain ⟨-, rfl, -⟩ := readAssistantToolCalls_ok hassistant hread
      by_cases hcalls : (tolerantAssistantToolCallIds envelope.message).isEmpty = true
      · rw [if_pos hcalls]
        exact .inl rfl
      · rw [if_neg hcalls]
        refine .inr ⟨records.length, _, rfl, rfl, ?_, ⟨envelope, ?_, hassistant, ?_⟩, ?_, ?_⟩
        · rw [List.take_left]
          exact inspect_settled hrecords hpending
        · rw [List.getElem?_append_right le_rfl, Nat.sub_self]
          rfl
        · rw [List.drop_eq_nil_of_le (by simp)]
          unfold unanswered
          simp
        · rw [List.drop_eq_nil_of_le (by simp)]
          simp
        · intro hnil
          exact hcalls (by rw [hnil]; rfl)
    · exact .inl hpending

theorem tailed_run {records : List CanonicalHistoryEnvelope} {state : HistorySequenceState}
    (h : validateRecords 0 emptyState records = .ok state) : Tailed records state := by
  induction records using List.reverseRecOn generalizing state with
  | nil =>
    cases h
    exact .inl rfl
  | append_singleton records envelope ih =>
    rw [validateRecords_append] at h
    obtain ⟨state₁, hrecords, h⟩ := bind_ok h
    obtain ⟨state₂, hstep, h⟩ := bind_ok h
    cases h
    rw [Nat.zero_add] at hstep
    exact tailed_step hrecords (ih hrecords) hstep

theorem pendingTail_of_inspection {records : List CanonicalHistoryEnvelope} {count : ℕ}
    {ids : List String}
    (h : inspectCanonicalHistorySequence records = .ok (.pendingToolResults count ids)) :
    PendingTail records count ids := by
  obtain ⟨state, hrecords, h⟩ := bind_ok h
  have h : inspection records.length state = .pendingToolResults count ids := Except.ok.inj h
  unfold inspection at h
  rcases tailed_run hrecords with hnone | ⟨count', ids', hids, hstart, htail⟩
  · rw [hnone] at h
    cases h
  · rw [hids] at h
    rcases ids' with _ | ⟨id, ids'⟩
    · cases h
    · rw [hstart] at h
      cases h
      exact htail

/-- Append validation agrees with the inspection of the whole, and what an inspection reports as
pending is the tail of the history. -/
theorem append_validation_agrees {active : List CanonicalHistoryEnvelope}
    {inspection : CanonicalHistorySequenceInspection}
    (h : inspectCanonicalHistorySequence active = .ok inspection) :
    (∀ appended, assertCanonicalHistoryAppend active appended = .ok () ↔
      ∃ inspection', inspectCanonicalHistorySequence (active ++ appended) = .ok inspection') ∧
    ∀ count ids, inspection = .pendingToolResults count ids → PendingTail active count ids := by
  refine ⟨fun appended => append_valid_iff h, ?_⟩
  rintro count ids rfl
  exact pendingTail_of_inspection h

section Run

def record (id role : String) (fields : List (String × JsValue)) : CanonicalHistoryEnvelope where
  messageId := id
  turnId := "turn-1"
  message := { fields := ("role", .string role) :: ("timestamp", .number (.finite 1)) :: fields }
  turnConfig := none
  historyArtifact := none

def toolCallBlock (id : String) : JsValue :=
  .object [("type", .string "toolCall"), ("id", .string id)]

/-- A question, two calls, and the result of the second. -/
def partlyAnswered : List CanonicalHistoryEnvelope :=
  [record "msg-1" "user" [("content", .string "hi")],
    record "msg-2" "assistant" [("content", .array [toolCallBlock "c1", toolCallBlock "c2"])],
    record "msg-3" "toolResult" [("toolCallId", .string "c2")]]

theorem append_validation_agrees_partlyAnswered :
    (∃ inspection', inspectCanonicalHistorySequence (partlyAnswered ++
        [record "msg-4" "toolResult" [("toolCallId", .string "c1")]]) = .ok inspection') ∧
      PendingTail partlyAnswered 1 ["c1"] := by
  have h : inspectCanonicalHistorySequence partlyAnswered =
      .ok (.pendingToolResults 1 ["c1"]) := by rfl
  obtain ⟨happend, htail⟩ := append_validation_agrees h
  exact ⟨(happend _).1 (by rfl), htail 1 ["c1"] rfl⟩

end Run

end HistorySequence

end Kinetick
