import Kinetick.History.LegacyNormalizer
import Mathlib.Data.List.Nodup
import Mathlib.Data.List.Perm.Basic

/-!
# A legacy history comes out paired

What was accepted so far is accounted for at every step, and it is paired but for an assistant whose
calls still wait. A break leaves the calls whose results are there, and a result that waits for no call
is never accepted.
-/

namespace Kinetick

namespace LegacyNormalizer

variable {T : Type} {adapter : LegacyHistoryItemAdapter T}

/-! ## What is read of an assistant -/

section Reading

variable {item : T} {blocks : List JsValue}

theorem toolCalls_of_blocks (hassistant : IsAssistant adapter item)
    (h : contentBlocks adapter item = some blocks) :
    toolCalls adapter item = blocks.filter isToolCallBlock := by
  rw [toolCalls, if_pos hassistant, h]
  rfl

theorem not_isResult (h : IsAssistant adapter item) : ¬IsResult adapter item := by
  unfold IsResult
  rw [show readRole adapter item = some "assistant" from h]
  decide

theorem blockId_eq {block : JsValue} {id : String} : blockId block = some id ↔
    block.get "id" = .string id := by
  unfold blockId
  split
  · simp_all
  · simp_all

/-- The ids read of an assistant are those of its calls. -/
theorem ids_of_blocks (h : ∀ block ∈ blocks.filter isToolCallBlock,
    ∃ id, id ≠ "" ∧ block.get "id" = .string id) :
    (blocks.filter isToolCallBlock).map (·.get "id") =
      (blocks.flatMap fun block =>
        if isToolCallBlock block then ((blockId block).filter (· ≠ "")).toList else []).map
          JsValue.string := by
  induction blocks with
  | nil => rfl
  | cons block blocks ih =>
    rw [List.flatMap_cons]
    by_cases hcall : isToolCallBlock block = true
    · rw [List.filter_cons_of_pos hcall] at h ⊢
      obtain ⟨⟨id, hne, hid⟩, hrest⟩ := List.forall_mem_cons.1 h
      rw [if_pos hcall, blockId_eq.2 hid, Option.filter_some, if_pos (by simp [hne]), List.map_cons,
        hid, ih hrest]
      rfl
    · rw [List.filter_cons_of_neg hcall] at h ⊢
      rw [if_neg hcall, ih h]
      rfl

theorem callIds_of_wellCalled (hassistant : IsAssistant adapter item)
    (hwell : WellCalled adapter item) :
    (toolCalls adapter item).map (·.get "id") =
      (readAssistantToolCallIds adapter item).map JsValue.string := by
  unfold readAssistantToolCallIds
  rcases hblocks : contentBlocks adapter item with _ | blocks
  · rw [toolCalls, if_pos hassistant, hblocks]
    rfl
  · have hnamed := hwell.named
    rw [toolCalls_of_blocks hassistant hblocks] at hnamed ⊢
    exact ids_of_blocks hnamed

theorem eraseDups_of_nodup {ids : List String} (h : ids.Nodup) : ids.eraseDups = ids := by
  induction ids with
  | nil => rfl
  | cons id ids ih =>
    rw [List.nodup_cons] at h
    have hfilter : ids.filter (fun b => !b == id) = ids := by
      rw [List.filter_eq_self]
      intro b hb
      have hne : b ≠ id := fun heq => h.1 (heq ▸ hb)
      simp [hne]
    rw [List.eraseDups_cons, hfilter, ih h.2]

theorem callIds_nodup (hassistant : IsAssistant adapter item) (hwell : WellCalled adapter item) :
    (readAssistantToolCallIds adapter item).Nodup := by
  have hdistinct := hwell.distinct
  rw [callIds_of_wellCalled hassistant hwell] at hdistinct
  exact List.Nodup.of_map _ hdistinct

/-! ## An assistant with fewer calls -/

section Replaced

variable (hlaw : adapter.Lawful)
include hlaw

theorem replaced_role (content : List JsValue) :
    readRole adapter (adapter.replaceAssistantContent item content) = readRole adapter item := by
  rw [readRole, readRole, hlaw.rest item content "role" (by decide)]

theorem replaced_blocks (content : List JsValue) :
    contentBlocks adapter (adapter.replaceAssistantContent item content) = some content := by
  rw [contentBlocks, hlaw.content]

theorem replaced_assistant (hassistant : IsAssistant adapter item) (content : List JsValue) :
    IsAssistant adapter (adapter.replaceAssistantContent item content) := by
  rw [IsAssistant, replaced_role hlaw]
  exact hassistant

theorem replaced_calls (hassistant : IsAssistant adapter item)
    (hblocks : contentBlocks adapter item = some blocks) (keeps : JsValue → Bool) :
    toolCalls adapter (adapter.replaceAssistantContent item (blocks.filter keeps)) =
      (toolCalls adapter item).filter keeps := by
  rw [toolCalls_of_blocks (replaced_assistant hlaw hassistant _) (replaced_blocks hlaw _),
    toolCalls_of_blocks hassistant hblocks, List.filter_comm]

theorem Reduced.wellCalled {kept : T} (h : Reduced adapter kept item)
    (hwell : WellCalled adapter item) : WellCalled adapter kept := by
  rcases h with rfl | ⟨hassistant, blocks, keeps, hblocks, -, rfl⟩
  · exact hwell
  · have hcalls := replaced_calls hlaw hassistant hblocks keeps
    constructor
    · rw [hcalls]
      exact fun block hblock => hwell.named block (List.mem_of_mem_filter hblock)
    · rw [hcalls]
      exact hwell.distinct.sublist (List.filter_sublist.map _)

end Replaced

end Reading

/-! ## What is accounted for -/

section Accounts

variable (adapter)

/-- What is counted of a history. -/
def weight (items : List T) : ℕ :=
  countCalls adapter items + countResults adapter items + countAssistants adapter items

/-- The items kept are those of the history, but for so many that were dropped. -/
structure Accounted (items outs : List T) (dropped : ℕ) : Prop where
  reduced : List.SublistForall₂ (Reduced adapter) outs items
  kept : (outs.filter fun item => ¬IsResult adapter item ∧ ¬IsAssistant adapter item) =
    items.filter fun item => ¬IsResult adapter item ∧ ¬IsAssistant adapter item
  counted : dropped + weight adapter outs = weight adapter items

variable {adapter}

theorem countCalls_append (xs ys : List T) :
    countCalls adapter (xs ++ ys) = countCalls adapter xs + countCalls adapter ys := by
  induction xs with
  | nil => simp [countCalls]
  | cons x xs ih =>
    simp only [List.cons_append, countCalls, ih]
    omega

theorem weight_append (xs ys : List T) :
    weight adapter (xs ++ ys) = weight adapter xs + weight adapter ys := by
  simp only [weight, countCalls_append, countResults, countAssistants, List.countP_append]
  omega

theorem Accounted.nil : Accounted adapter [] [] 0 := ⟨.nil, rfl, rfl⟩

theorem Accounted.append {xs ys outs outs' : List T} {m n : ℕ} (hx : Accounted adapter xs outs m)
    (hy : Accounted adapter ys outs' n) : Accounted adapter (xs ++ ys) (outs ++ outs') (m + n) where
  reduced := by
    obtain ⟨ls, hls, hsub⟩ := List.sublistForall₂_iff.1 hx.reduced
    obtain ⟨ls', hls', hsub'⟩ := List.sublistForall₂_iff.1 hy.reduced
    exact List.sublistForall₂_iff.2 ⟨ls ++ ls', List.rel_append hls hls', hsub.append hsub'⟩
  kept := by rw [List.filter_append, List.filter_append, hx.kept, hy.kept]
  counted := by
    have hcounted := hx.counted
    have hcounted' := hy.counted
    rw [weight_append, weight_append]
    omega

theorem Accounted.same (item : T) : Accounted adapter [item] [item] 0 :=
  ⟨.cons (.inl rfl) .nil, rfl, Nat.zero_add _⟩

theorem weight_singleton (item : T) : weight adapter [item] = (toolCalls adapter item).length +
    (if IsResult adapter item then 1 else 0) + if IsAssistant adapter item then 1 else 0 := by
  simp [weight, countCalls, countResults, countAssistants, List.countP_cons]

theorem Accounted.result {item : T} (h : IsResult adapter item) : Accounted adapter [item] [] 1 := by
  have hassistant : ¬IsAssistant adapter item := fun ha => not_isResult ha h
  refine ⟨.cons_right .nil, ?_, ?_⟩
  · simp [h]
  · rw [weight_singleton, toolCalls, if_neg hassistant, if_pos h, if_neg hassistant]
    rfl

theorem Accounted.assistant {item : T} (h : IsAssistant adapter item) :
    Accounted adapter [item] [] ((toolCalls adapter item).length + 1) := by
  refine ⟨.cons_right .nil, ?_, ?_⟩
  · simp [h]
  · rw [weight_singleton, if_neg (not_isResult h), if_pos h]
    rfl

theorem Accounted.replaced (hlaw : adapter.Lawful) {item : T} {blocks : List JsValue}
    {keeps : JsValue → Bool} {dropped : ℕ} (h : IsAssistant adapter item)
    (hblocks : contentBlocks adapter item = some blocks)
    (hkeeps : ∀ block ∈ blocks, keeps block = false → isToolCallBlock block = true)
    (hdropped : dropped + ((toolCalls adapter item).filter keeps).length =
      (toolCalls adapter item).length) :
    Accounted adapter [item] [adapter.replaceAssistantContent item (blocks.filter keeps)]
      dropped := by
  have hassistant := replaced_assistant hlaw h (blocks.filter keeps)
  refine ⟨.cons (.inr ⟨h, blocks, keeps, hblocks, hkeeps, rfl⟩) .nil, ?_, ?_⟩
  · simp [h, hassistant]
  · rw [weight_singleton, weight_singleton, replaced_calls hlaw h hblocks, if_pos h, if_pos hassistant,
      if_neg (not_isResult h), if_neg (not_isResult hassistant)]
    omega

end Accounts

/-! ## Paired histories -/

theorem Paired.append {xs ys : List T} (hx : Paired adapter xs) (hy : Paired adapter ys) :
    Paired adapter (xs ++ ys) := by
  induction hx with
  | nil => exact hy
  | other hresult hassistant _ ih => exact .other hresult hassistant ih
  | assistant hassistant hcontent hresults hcalls _ ih =>
    rw [List.cons_append, List.append_assoc]
    exact .assistant hassistant hcontent hresults hcalls ih

theorem Paired.of_assistant {item : T} {results : List T} (hassistant : IsAssistant adapter item)
    (hcontent : isAssistantContentEmpty adapter item = false)
    (hresults : ∀ result ∈ results, IsResult adapter result)
    (hcalls : (results.map fun result => (adapter.message result).get "toolCallId").Perm
      ((toolCalls adapter item).map (·.get "id"))) : Paired adapter (item :: results) := by
  have hpaired := Paired.assistant hassistant hcontent hresults hcalls .nil
  rwa [List.append_nil] at hpaired

/-! ## The calls that wait -/

section Waiting

variable {pending : List String} {item : T} {results : List T}

/-- The assistant's calls have the results, but for those that wait. -/
structure Waiting (adapter : LegacyHistoryItemAdapter T) (item : T) (results : List T)
    (pending : List String) : Prop where
  assistant : IsAssistant adapter item
  wellCalled : WellCalled adapter item
  content : isAssistantContentEmpty adapter item = false
  answers : ∀ result ∈ results, IsResult adapter result
  calls : ((results.map fun result => (adapter.message result).get "toolCallId") ++
    pending.map JsValue.string).Perm ((toolCalls adapter item).map (·.get "id"))

theorem Waiting.blocks (h : Waiting adapter item results pending) :
    ∃ blocks, contentBlocks adapter item = some blocks := by
  have hcontent := h.content
  unfold isAssistantContentEmpty at hcontent
  split at hcontent
  · exact ⟨_, ‹_›⟩
  · cases hcontent

theorem Waiting.nodup (h : Waiting adapter item results pending) :
    ((results.map fun result => (adapter.message result).get "toolCallId") ++
      pending.map JsValue.string).Nodup :=
  h.calls.nodup_iff.2 h.wellCalled.distinct

/-- The id is of no call that waits. -/
def isSettled (pending : List String) (id : JsValue) : Bool :=
  match id with
  | .string id => !pending.contains id
  | _ => true

theorem isSettled_false {id : JsValue} (h : isSettled pending id = false) :
    id ∈ pending.map JsValue.string := by
  unfold isSettled at h
  split at h
  · rename_i id
    have hmem : id ∈ pending := by simpa using h
    exact List.mem_map_of_mem hmem
  · cases h

theorem keepsBlock_call {block : JsValue} (h : isToolCallBlock block = true) :
    keepsBlock pending block = isSettled pending (block.get "id") := by
  unfold keepsBlock isSettled blockId
  rw [h]
  cases block.get "id" <;> rfl

/-- Without the calls that wait, an assistant's calls are those of its results. -/
theorem Waiting.settled (h : Waiting adapter item results pending) :
    (results.map fun result => (adapter.message result).get "toolCallId").Perm
      (((toolCalls adapter item).filter (keepsBlock pending)).map (·.get "id")) := by
  have hcalls : ((toolCalls adapter item).filter (keepsBlock pending)).map (·.get "id") =
      ((toolCalls adapter item).map (·.get "id")).filter (isSettled pending) := by
    rw [List.filter_map]
    congr 1
    refine List.filter_congr fun block hblock => ?_
    have hcall : isToolCallBlock block = true := by
      rw [toolCalls, if_pos h.assistant] at hblock
      exact List.of_mem_filter hblock
    exact keepsBlock_call hcall
  have hresults : (results.map fun result => (adapter.message result).get "toolCallId").filter
      (isSettled pending) = results.map fun result => (adapter.message result).get "toolCallId" := by
    rw [List.filter_eq_self]
    intro id hid
    by_contra hnot
    exact (List.disjoint_of_nodup_append h.nodup) hid
      (isSettled_false (Bool.of_not_eq_true hnot))
  have hpending : (pending.map JsValue.string).filter (isSettled pending) = [] := by
    rw [List.filter_eq_nil_iff]
    intro id hid
    obtain ⟨id, hmem, rfl⟩ := List.mem_map.1 hid
    simp [isSettled, hmem]
  have hperm := h.calls.filter (isSettled pending)
  rwa [List.filter_append, hresults, hpending, List.append_nil, ← hcalls] at hperm

theorem Waiting.dropped (h : Waiting adapter item results pending) :
    pending.length + ((toolCalls adapter item).filter (keepsBlock pending)).length =
      (toolCalls adapter item).length := by
  have hsettled := h.settled.length_eq
  have hall := h.calls.length_eq
  simp only [List.length_append, List.length_map] at hsettled hall
  omega

theorem perm_of_waiting {id : String} (hnodup : pending.Nodup) (hmem : id ∈ pending) :
    pending.Perm (id :: pending.filter (· ≠ id)) := by
  have hfilter : pending.filter (· ≠ id) = pending.filter (· != id) :=
    List.filter_congr fun other _ => by by_cases h : other = id <;> simp [h]
  rw [hfilter, ← hnodup.erase_eq_filter]
  exact List.perm_cons_erase hmem

/-- The result of a call that waits. -/
theorem Waiting.accept (h : Waiting adapter item results pending) {result : T} {id : String}
    (hresult : IsResult adapter result) (hid : readToolCallId adapter result = some id)
    (hmem : id ∈ pending) :
    Waiting adapter item (results ++ [result]) (pending.filter (· ≠ id)) := by
  have hnodup : pending.Nodup := (List.nodup_append.1 h.nodup).2.1.of_map _
  have hget : (adapter.message result).get "toolCallId" = .string id := by
    unfold readToolCallId at hid
    split at hid
    · split_ifs at hid
      cases hid
      assumption
    · cases hid
  have hpending := perm_of_waiting hnodup hmem
  refine ⟨h.assistant, h.wellCalled, h.content, ?_, ?_⟩
  · intro other hother
    rcases List.mem_append.1 hother with hother | hother
    · exact h.answers other hother
    · rw [List.mem_singleton.1 hother]
      exact hresult
  · refine List.Perm.trans ?_ h.calls
    rw [List.map_append, List.append_assoc]
    refine List.Perm.append_left _ ?_
    rw [List.map_singleton, hget]
    exact (hpending.map JsValue.string).symm

end Waiting

/-! ## What is recorded -/

section Records

variable {tagSuffix : String} {state state' state'' : NormalizerState T}

/-- So many drops are recorded, each with a warning, and nothing else changes. -/
structure Recorded (state state' : NormalizerState T) (count : ℕ) : Prop where
  out : state'.out = state.out
  inFlight : state'.inFlight = state.inFlight
  dropped : state'.stats.dropped = state.stats.dropped + count
  warned : state'.warnings.length = state.warnings.length + count
  inspected : state'.stats.inspected = state.stats.inspected

theorem Recorded.trans {m n : ℕ} (h : Recorded state state' m) (h' : Recorded state' state'' n) :
    Recorded state state'' (m + n) where
  out := h'.out.trans h.out
  inFlight := h'.inFlight.trans h.inFlight
  dropped := by rw [h'.dropped, h.dropped, Nat.add_assoc]
  warned := by rw [h'.warned, h.warned, Nat.add_assoc]
  inspected := h'.inspected.trans h.inspected

theorem recordOrphanToolCall_recorded (toolCallId toolName : String) :
    Recorded state (recordOrphanToolCall tagSuffix toolCallId toolName state) 1 := by
  refine ⟨rfl, rfl, ?_, by simp [recordOrphanToolCall], rfl⟩
  simp only [recordOrphanToolCall, LegacyHistoryNormalizationStats.dropped]
  omega

theorem recordReorderedToolCall_recorded (toolCallId toolName : String) :
    Recorded state (recordReorderedToolCall tagSuffix toolCallId toolName state) 1 := by
  refine ⟨rfl, rfl, ?_, by simp [recordReorderedToolCall], rfl⟩
  simp only [recordReorderedToolCall, LegacyHistoryNormalizationStats.dropped]
  omega

theorem recordEmptyAssistant_recorded : Recorded state (recordEmptyAssistant tagSuffix state) 1 := by
  refine ⟨rfl, rfl, ?_, by simp [recordEmptyAssistant], rfl⟩
  simp only [recordEmptyAssistant, LegacyHistoryNormalizationStats.dropped]
  omega

theorem dropOrphanToolResult_recorded (item : T) :
    Recorded state (dropOrphanToolResult adapter tagSuffix item state) 1 := by
  refine ⟨rfl, rfl, ?_, by simp [dropOrphanToolResult], rfl⟩
  simp only [dropOrphanToolResult, LegacyHistoryNormalizationStats.dropped]
  omega

theorem recordDroppedCalls_recorded (assistant : T) (flight : InFlight) :
    Recorded state (recordDroppedCalls adapter tagSuffix assistant flight state)
      flight.pendingIds.length := by
  unfold recordDroppedCalls
  generalize flight.pendingIds = ids
  induction ids generalizing state with
  | nil => exact ⟨rfl, rfl, rfl, rfl, rfl⟩
  | cons id ids ih =>
    rw [List.foldl_cons, List.length_cons, Nat.add_comm]
    refine Recorded.trans ?_ ih
    split_ifs
    · exact recordOrphanToolCall_recorded id _
    · exact recordReorderedToolCall_recorded id _

/-- Each drop so far has its warning. -/
structure Balanced (inspected : ℕ) (state : NormalizerState T) : Prop where
  warned : state.warnings.length = state.stats.dropped
  inspected : state.stats.inspected = inspected

theorem Recorded.balanced {count inspected : ℕ} (h : Recorded state state' count)
    (hstate : Balanced inspected state) : Balanced inspected state' :=
  ⟨by rw [h.warned, h.dropped, hstate.warned], h.inspected.trans hstate.inspected⟩

/-- A balance is of the warnings and the counters alone. -/
theorem Balanced.of_eq {inspected : ℕ} (h : Balanced inspected state)
    (hwarnings : state'.warnings = state.warnings) (hstats : state'.stats = state.stats) :
    Balanced inspected state' :=
  ⟨by rw [hwarnings, hstats, h.warned], by rw [hstats, h.inspected]⟩

theorem replaceOrDropAssistant_balanced {inspected : ℕ} (h : Balanced inspected state) (filtered : T)
    (outIndex : ℕ) :
    Balanced inspected (replaceOrDropAssistant adapter tagSuffix filtered outIndex state).1 := by
  unfold replaceOrDropAssistant
  split_ifs
  · exact (recordEmptyAssistant_recorded.balanced h).of_eq rfl rfl
  · exact h.of_eq rfl rfl

theorem breakPendingPair_balanced {inspected : ℕ} (h : Balanced inspected state) :
    Balanced inspected (breakPendingPair adapter tagSuffix state) := by
  unfold breakPendingPair
  split
  · exact h
  · split_ifs
    · exact h
    · split
      · exact h.of_eq rfl rfl
      · exact (replaceOrDropAssistant_balanced
          ((recordDroppedCalls_recorded _ _).balanced h) _ _).of_eq rfl rfl

theorem acceptToolResult_balanced {inspected : ℕ} (h : Balanced inspected state) (item : T) :
    Balanced inspected (acceptToolResult adapter tagSuffix item state) := by
  unfold acceptToolResult
  split
  · split_ifs
    · exact h.of_eq rfl rfl
    · exact (recordReorderedToolCall_recorded _ _).balanced (h.of_eq rfl rfl)
    · exact (dropOrphanToolResult_recorded item).balanced h
  · exact (dropOrphanToolResult_recorded item).balanced h

theorem acceptAssistant_balanced {inspected : ℕ} (h : Balanced inspected state) (item : T) :
    Balanced inspected (acceptAssistant adapter tagSuffix item state) := by
  unfold acceptAssistant
  split_ifs
  · exact recordEmptyAssistant_recorded.balanced h
  · simp only
    split_ifs <;> exact h.of_eq rfl rfl

theorem acceptHistoryItem_balanced {inspected : ℕ} (h : Balanced inspected state) (item : T) :
    Balanced inspected (acceptHistoryItem adapter tagSuffix item state) := by
  unfold acceptHistoryItem
  simp only
  split_ifs
  · exact acceptToolResult_balanced h item
  · exact acceptAssistant_balanced (breakPendingPair_balanced h) item
  · exact (breakPendingPair_balanced h).of_eq rfl rfl

theorem finaliseInFlight_balanced {inspected : ℕ} (h : Balanced inspected state) :
    Balanced inspected (finaliseInFlight adapter tagSuffix state) := by
  unfold finaliseInFlight
  split
  · exact h
  · split_ifs
    · exact h
    · split
      · exact h
      · exact (replaceOrDropAssistant_balanced
          ((recordDroppedCalls_recorded _ _).balanced h) _ _).of_eq rfl rfl

end Records

/-! ## What was accepted -/

section Accepting

variable {tagSuffix : String} {state : NormalizerState T} {done : List T}

/-- What was accepted is accounted for and paired, and no call waits. -/
structure Settled (adapter : LegacyHistoryItemAdapter T) (done : List T)
    (state : NormalizerState T) : Prop where
  accounted : Accounted adapter done state.out state.stats.dropped
  paired : Paired adapter state.out
  idle : ∀ flight, state.inFlight = some flight → flight.pendingIds = []

/-- What was accepted ends in an assistant some of whose calls wait. -/
structure Flying (adapter : LegacyHistoryItemAdapter T) (done : List T) (state : NormalizerState T)
    (before results : List T) (assistant : T) (flight : InFlight) : Prop where
  inFlight : state.inFlight = some flight
  index : flight.outIndex = some before.length
  reordered : flight.dropReorderedForIds = []
  pending : flight.pendingIds ≠ []
  out : state.out = before ++ assistant :: results
  accounted : ∃ first last m n, done = first ++ assistant :: last ∧
    Accounted adapter first before m ∧ Accounted adapter last results n ∧
      state.stats.dropped = m + n
  paired : Paired adapter before
  waiting : Waiting adapter assistant results flight.pendingIds

inductive Sound (adapter : LegacyHistoryItemAdapter T) (done : List T)
    (state : NormalizerState T) : Prop
  | settled (h : Settled adapter done state)
  | flying {before results : List T} {assistant : T} {flight : InFlight}
      (h : Flying adapter done state before results assistant flight)

/-- A result that is not accepted is accounted for. -/
theorem Sound.dropped {state' : NormalizerState T} {item : T} (h : Sound adapter done state)
    (hresult : IsResult adapter item) (hrecorded : Recorded state state' 1) :
    Sound adapter (done ++ [item]) state' := by
  rcases h with h | h
  · refine .settled ⟨?_, ?_, fun flight hflight => ?_⟩
    · have haccounted := h.accounted.append (.result hresult)
      rwa [List.append_nil, ← hrecorded.out, ← hrecorded.dropped] at haccounted
    · rw [hrecorded.out]
      exact h.paired
    · exact h.idle flight (hrecorded.inFlight ▸ hflight)
  · obtain ⟨first, last, m, n, hdone, hfirst, hlast, hdropped⟩ := h.accounted
    refine .flying ⟨hrecorded.inFlight ▸ h.inFlight, h.index, h.reordered, h.pending,
      hrecorded.out ▸ h.out, ⟨first, last ++ [item], m, n + 1, ?_, hfirst, ?_, ?_⟩, h.paired,
      h.waiting⟩
    · rw [hdone, List.append_assoc, List.cons_append]
    · have haccounted := hlast.append (.result hresult)
      rwa [List.append_nil] at haccounted
    · rw [hrecorded.dropped, hdropped, Nat.add_assoc]

theorem acceptToolResult_sound {item : T} (h : Sound adapter done state)
    (hresult : IsResult adapter item) :
    Sound adapter (done ++ [item]) (acceptToolResult adapter tagSuffix item state) := by
  have horphan : Sound adapter (done ++ [item])
      (dropOrphanToolResult adapter tagSuffix item state) :=
    h.dropped hresult (dropOrphanToolResult_recorded item)
  unfold acceptToolResult
  split
  · rename_i id flight hid hflight
    split_ifs with hpending hreordered
    · rcases h with h | @⟨before, results, assistant, flight', h⟩
      · rw [h.idle flight hflight] at hpending
        cases hpending
      · cases h.inFlight.symm.trans hflight
        obtain ⟨first, last, m, n, hdone, hfirst, hlast, hdropped⟩ := h.accounted
        have hwaiting := h.waiting.accept hresult hid hpending
        have hkept := hlast.append (.same item)
        rw [Nat.add_zero] at hkept
        unfold acceptMatchingToolResult
        simp only
        by_cases hnone : flight.pendingIds.filter (· ≠ id) = []
        · rw [if_pos hnone]
          rw [hnone] at hwaiting
          have hcalls := hwaiting.calls
          rw [List.map_nil, List.append_nil] at hcalls
          refine .settled ⟨?_, ?_, nofun⟩
          · have haccounted := hfirst.append ((Accounted.same assistant).append hkept)
            rw [Nat.zero_add, ← hdropped] at haccounted
            simpa [hdone, h.out] using haccounted
          · have hpaired := h.paired.append
              (.of_assistant hwaiting.assistant hwaiting.content hwaiting.answers hcalls)
            simpa [h.out] using hpaired
        · rw [if_neg hnone]
          have hout : state.out ++ [item] = before ++ assistant :: (results ++ [item]) := by
            simp [h.out]
          have hitems : done ++ [item] = first ++ assistant :: (last ++ [item]) := by
            simp [hdone]
          exact .flying ⟨rfl, h.index, h.reordered, hnone, hout,
            ⟨first, last ++ [item], m, n, hitems, hfirst, hkept, hdropped⟩, h.paired, hwaiting⟩
    · rcases h with h | h
      · have hsettled : Settled adapter done { state with
            inFlight := some { flight with
              dropReorderedForIds := flight.dropReorderedForIds.filter (· ≠ id) } } := by
          refine ⟨h.accounted, h.paired, fun flight' hflight' => ?_⟩
          cases hflight'
          exact h.idle flight hflight
        exact Sound.dropped (.settled hsettled) hresult
          (recordReorderedToolCall_recorded id (readToolName adapter item))
      · cases h.inFlight.symm.trans hflight
        rw [h.reordered] at hreordered
        cases hreordered
    · exact horphan
  · exact horphan

/-- The assistant in flight is where its index says. -/
theorem Flying.assistant {before results : List T} {assistant : T} {flight : InFlight}
    (h : Flying adapter done state before results assistant flight) :
    flightAssistant adapter flight state = some (before.length, assistant) := by
  obtain ⟨blocks, hblocks⟩ := h.waiting.blocks
  have hout : state.out[before.length]? = some assistant := by simp [h.out]
  have hhas : assistantHasBlocks adapter assistant = true := by rw [assistantHasBlocks, hblocks]; rfl
  simp [flightAssistant, h.index, hout, hhas]

/-- Once the calls that wait are dropped, what was accepted is paired. -/
theorem Flying.broken (hlaw : adapter.Lawful) {before results : List T} {assistant : T}
    {flight : InFlight} (h : Flying adapter done state before results assistant flight)
    {recorded : NormalizerState T} (hrecorded : Recorded state recorded flight.pendingIds.length) :
    let replaced := (replaceOrDropAssistant adapter tagSuffix
      (filterToolCallBlocks adapter assistant flight.pendingIds) before.length recorded).1
    Accounted adapter done replaced.out replaced.stats.dropped ∧ Paired adapter replaced.out := by
  obtain ⟨blocks, hblocks⟩ := h.waiting.blocks
  obtain ⟨first, last, m, n, hdone, hfirst, hlast, hdropped⟩ := h.accounted
  have hassistant := h.waiting.assistant
  have hfiltered : filterToolCallBlocks adapter assistant flight.pendingIds =
      adapter.replaceAssistantContent assistant (blocks.filter (keepsBlock flight.pendingIds)) := by
    rw [filterToolCallBlocks, hblocks]
  have hkept := replaced_calls hlaw hassistant hblocks (keepsBlock flight.pendingIds)
  have hempty : contentBlocks adapter (adapter.replaceAssistantContent assistant
      (blocks.filter (keepsBlock flight.pendingIds))) =
        some (blocks.filter (keepsBlock flight.pendingIds)) := replaced_blocks hlaw _
  have hsettled := h.waiting.settled
  have hcount := h.waiting.dropped
  rw [hfiltered, replaceOrDropAssistant, isAssistantContentEmpty, hempty]
  by_cases hnone : blocks.filter (keepsBlock flight.pendingIds) = []
  · have hcalls : (toolCalls adapter assistant).filter (keepsBlock flight.pendingIds) = [] := by
      rw [toolCalls_of_blocks hassistant hblocks, List.filter_comm, hnone]
      rfl
    have hresults : results = [] := by
      rw [hcalls] at hsettled
      exact List.map_eq_nil_iff.1 hsettled.eq_nil
    rw [hcalls, List.length_nil, Nat.add_zero] at hcount
    have hempty : Recorded recorded (recordEmptyAssistant tagSuffix recorded) 1 :=
      recordEmptyAssistant_recorded
    simp only [hnone, List.isEmpty_nil, if_true]
    have hout : recorded.out.eraseIdx before.length = before ++ results := by
      simp [hrecorded.out, h.out, hresults, List.eraseIdx_append_of_length_le]
    rw [hout, hempty.dropped, hrecorded.dropped, hdropped, hcount]
    refine ⟨?_, by rw [hresults, List.append_nil]; exact h.paired⟩
    have haccounted := hfirst.append ((Accounted.assistant hassistant).append hlast)
    rw [List.nil_append] at haccounted
    have hnumber : m + n + (toolCalls adapter assistant).length + 1 =
        m + ((toolCalls adapter assistant).length + 1 + n) := by omega
    rw [hdone, hnumber]
    exact haccounted
  · have hfilled : (blocks.filter (keepsBlock flight.pendingIds)).isEmpty = false := by
      simpa using hnone
    simp only [hfilled, Bool.false_eq_true, if_false]
    have hout : recorded.out.set before.length (adapter.replaceAssistantContent assistant
        (blocks.filter (keepsBlock flight.pendingIds))) =
          before ++ adapter.replaceAssistantContent assistant
            (blocks.filter (keepsBlock flight.pendingIds)) :: results := by
      simp [hrecorded.out, h.out]
    have hreduced : Accounted adapter [assistant] [adapter.replaceAssistantContent assistant
        (blocks.filter (keepsBlock flight.pendingIds))] flight.pendingIds.length := by
      refine .replaced hlaw hassistant hblocks (fun block _ hblock => ?_) hcount
      unfold keepsBlock at hblock
      simp at hblock
      exact hblock.1
    rw [hout, hrecorded.dropped, hdropped]
    constructor
    · have haccounted := hfirst.append (hreduced.append hlast)
      have hnumber : m + n + flight.pendingIds.length = m + (flight.pendingIds.length + n) := by
        omega
      rw [hdone, hnumber]
      exact haccounted
    · refine h.paired.append (.of_assistant (replaced_assistant hlaw hassistant _) ?_
        h.waiting.answers ?_)
      · rw [isAssistantContentEmpty, hempty]
        exact hfilled
      · rw [hkept]
        exact hsettled

theorem breakPendingPair_settled (hlaw : adapter.Lawful) (h : Sound adapter done state) :
    Settled adapter done (breakPendingPair adapter tagSuffix state) := by
  rcases h with h | @⟨before, results, assistant, flight, h⟩
  · unfold breakPendingPair
    split
    · exact h
    · rename_i flight hflight
      rw [if_pos (h.idle flight hflight)]
      exact h
  · obtain ⟨haccounted, hpaired⟩ := @Flying.broken T adapter tagSuffix state done hlaw _ _ _ _ h _
      (recordDroppedCalls_recorded assistant flight)
    unfold breakPendingPair
    rw [h.inFlight]
    simp only
    rw [if_neg h.pending, h.assistant]
    refine ⟨haccounted, hpaired, fun flight' hflight' => ?_⟩
    cases hflight'
    rfl

theorem finaliseInFlight_settled (hlaw : adapter.Lawful) (h : Sound adapter done state) :
    Settled adapter done (finaliseInFlight adapter tagSuffix state) := by
  rcases h with h | @⟨before, results, assistant, flight, h⟩
  · unfold finaliseInFlight
    split
    · exact h
    · rename_i flight hflight
      rw [if_pos (h.idle flight hflight)]
      exact h
  · obtain ⟨haccounted, hpaired⟩ := @Flying.broken T adapter tagSuffix state done hlaw _ _ _ _ h _
      (recordDroppedCalls_recorded assistant { flight with seenAtLeastOneResult := true })
    unfold finaliseInFlight
    rw [h.inFlight]
    simp only
    rw [if_neg h.pending, h.assistant]
    exact ⟨haccounted, hpaired, nofun⟩

/-- An assistant without calls that is not accepted is accounted for. -/
theorem Settled.assistant_dropped {item : T} (h : Settled adapter done state)
    (hassistant : IsAssistant adapter item) (hcalls : toolCalls adapter item = []) :
    Settled adapter (done ++ [item]) (recordEmptyAssistant tagSuffix state) := by
  have hrecorded : Recorded state (recordEmptyAssistant tagSuffix state) 1 :=
    recordEmptyAssistant_recorded
  have haccounted := h.accounted.append (.assistant hassistant)
  rw [hcalls, List.append_nil, List.length_nil, Nat.zero_add, ← hrecorded.dropped] at haccounted
  exact ⟨haccounted, h.paired, h.idle⟩

theorem acceptAssistant_sound {item : T} (h : Settled adapter done state)
    (hassistant : IsAssistant adapter item) (hwell : WellCalled adapter item) :
    Sound adapter (done ++ [item]) (acceptAssistant adapter tagSuffix item state) := by
  unfold acceptAssistant
  rcases hblocks : contentBlocks adapter item with _ | blocks
  · have hnone : assistantHasBlocks adapter item = false := by rw [assistantHasBlocks, hblocks]; rfl
    have hcalls : toolCalls adapter item = [] := by
      rw [toolCalls, if_pos hassistant, hblocks]
      rfl
    rw [hnone, Bool.not_false, Bool.true_or, if_pos rfl]
    exact .settled (h.assistant_dropped hassistant hcalls)
  · have hhas : assistantHasBlocks adapter item = true := by rw [assistantHasBlocks, hblocks]; rfl
    rw [hhas, Bool.not_true, Bool.false_or]
    split_ifs with hempty
    · have hcalls : toolCalls adapter item = [] := by
        rw [isAssistantContentEmpty, hblocks] at hempty
        rw [toolCalls_of_blocks hassistant hblocks, List.isEmpty_iff.1 hempty]
        rfl
      exact .settled (h.assistant_dropped hassistant hcalls)
    · have hcontent := Bool.of_not_eq_true hempty
      have hids := callIds_of_wellCalled hassistant hwell
      simp only
      split_ifs with hnone
      · rw [hnone] at hids
        have hcalls : ([].map fun result => (adapter.message result).get "toolCallId").Perm
            ((toolCalls adapter item).map (·.get "id")) := by
          rw [hids]
          exact .nil
        refine .settled ⟨?_, h.paired.append (.of_assistant hassistant hcontent nofun hcalls),
          h.idle⟩
        have haccounted := h.accounted.append (.same item)
        rwa [Nat.add_zero] at haccounted
      · have hpending := eraseDups_of_nodup (callIds_nodup hassistant hwell)
        rw [hpending]
        refine .flying ⟨rfl, rfl, rfl, hnone, rfl,
          ⟨done, [], state.stats.dropped, 0, rfl, h.accounted, .nil, rfl⟩, h.paired,
          ⟨hassistant, hwell, hcontent, nofun, ?_⟩⟩
        rw [hids]
        exact .refl _

/-- Accepting an item keeps what was accepted accounted for. -/
theorem acceptHistoryItem_sound (hlaw : adapter.Lawful) {item : T} (h : Sound adapter done state)
    (hwell : WellCalled adapter item) :
    Sound adapter (done ++ [item]) (acceptHistoryItem adapter tagSuffix item state) := by
  unfold acceptHistoryItem
  simp only
  have hbroken := @breakPendingPair_settled T adapter tagSuffix state done hlaw h
  split_ifs with hresult hassistant
  · exact acceptToolResult_sound h hresult
  · exact acceptAssistant_sound hbroken hassistant hwell
  · refine .settled ⟨?_, hbroken.paired.append (.other hresult hassistant .nil), hbroken.idle⟩
    have haccounted := hbroken.accounted.append (.same item)
    rwa [Nat.add_zero] at haccounted

theorem accept_sound (hlaw : adapter.Lawful) (items : List T) (h : Sound adapter done state)
    (hwell : ∀ item ∈ items, WellCalled adapter item) :
    Sound adapter (done ++ items) (items.foldl
      (fun state item => acceptHistoryItem adapter tagSuffix item state) state) := by
  induction items generalizing done state with
  | nil =>
    rw [List.append_nil]
    exact h
  | cons item items ih =>
    obtain ⟨hitem, hitems⟩ := List.forall_mem_cons.1 hwell
    rw [List.foldl_cons, List.append_cons]
    exact ih (acceptHistoryItem_sound hlaw h hitem) hitems

theorem accept_balanced {inspected : ℕ} (items : List T) (h : Balanced inspected state) :
    Balanced inspected (items.foldl
      (fun state item => acceptHistoryItem adapter tagSuffix item state) state) := by
  induction items generalizing state with
  | nil => exact h
  | cons item items ih => exact ih (acceptHistoryItem_balanced h item)

end Accepting

/-! ## A history that is paired -/

section Unchanged

variable {tagSuffix : String} {state : NormalizerState T}

/-- The results of the calls that wait are accepted, and then none waits. -/
theorem accept_results {results : List T} {flight : InFlight}
    (hflight : state.inFlight = some flight) (hne : flight.pendingIds ≠ [])
    (hresults : ∀ result ∈ results, IsResult adapter result)
    (hnamed : ∀ id ∈ flight.pendingIds, id ≠ "") (hnodup : flight.pendingIds.Nodup)
    (hcalls : (results.map fun result => (adapter.message result).get "toolCallId").Perm
      (flight.pendingIds.map JsValue.string)) :
    results.foldl (fun state item => acceptHistoryItem adapter tagSuffix item state) state =
      { state with out := state.out ++ results, inFlight := none } := by
  induction results generalizing state flight with
  | nil =>
    have hnil := hcalls.symm.eq_nil
    exact absurd (List.map_eq_nil_iff.1 hnil) hne
  | cons result results ih =>
    obtain ⟨hresult, hrest⟩ := List.forall_mem_cons.1 hresults
    obtain ⟨id, hmem, hid⟩ : ∃ id ∈ flight.pendingIds,
        JsValue.string id = (adapter.message result).get "toolCallId" :=
      List.mem_map.1 (hcalls.subset List.mem_cons_self)
    have hread : readToolCallId adapter result = some id := by
      rw [readToolCallId, ← hid]
      simp [hnamed id hmem]
    have haccept : acceptHistoryItem adapter tagSuffix result state =
        acceptMatchingToolResult result id flight state := by
      have hrole : readRole adapter result = some "toolResult" := hresult
      rw [acceptHistoryItem, if_pos hrole, acceptToolResult, hread, hflight]
      simp only
      rw [if_pos hmem]
    have hperm := perm_of_waiting hnodup hmem
    have hleft : (results.map fun result => (adapter.message result).get "toolCallId").Perm
        ((flight.pendingIds.filter (· ≠ id)).map JsValue.string) := by
      have htrans := hcalls.trans (hperm.map JsValue.string)
      rw [List.map_cons, List.map_cons, hid] at htrans
      exact htrans.cons_inv
    rw [List.foldl_cons, haccept, acceptMatchingToolResult]
    by_cases hnone : flight.pendingIds.filter (· ≠ id) = []
    · rw [hnone, List.map_nil] at hleft
      rw [if_pos hnone, List.map_eq_nil_iff.1 hleft.eq_nil]
      rfl
    · rw [if_neg hnone, ih rfl hnone hrest (fun other hother =>
        hnamed other (List.mem_of_mem_filter hother)) (hnodup.filter _) hleft]
      simp

theorem callIds_named {item : T} {id : String} (h : id ∈ readAssistantToolCallIds adapter item) :
    id ≠ "" := by
  unfold readAssistantToolCallIds at h
  split at h
  · cases h
  · obtain ⟨block, -, hblock⟩ := List.mem_flatMap.1 h
    split_ifs at hblock
    · rw [Option.mem_toList, Option.filter_eq_some_iff] at hblock
      simpa using hblock.2
    · cases hblock

theorem breakPendingPair_of_none (h : state.inFlight = none) :
    breakPendingPair adapter tagSuffix state = state := by
  rw [breakPendingPair, h]

/-- An assistant is accepted, and all of its calls wait. -/
theorem acceptAssistant_of_content {item : T} (hcontent : isAssistantContentEmpty adapter item = false)
    (h : state.inFlight = none) (hnodup : (readAssistantToolCallIds adapter item).Nodup) :
    acceptAssistant adapter tagSuffix item state =
      { state with
        out := state.out ++ [item]
        inFlight := if readAssistantToolCallIds adapter item = [] then none
          else some
            { outIndex := some state.out.length
              pendingIds := readAssistantToolCallIds adapter item
              dropReorderedForIds := []
              seenAtLeastOneResult := false } } := by
  have hhas : assistantHasBlocks adapter item = true := by
    unfold isAssistantContentEmpty at hcontent
    split at hcontent
    · rename_i hblocks
      rw [assistantHasBlocks, hblocks]
      rfl
    · cases hcontent
  rw [acceptAssistant, hhas, hcontent]
  simp only [Bool.not_true, Bool.or_self, Bool.false_eq_true, if_false, eraseDups_of_nodup hnodup]
  split_ifs
  · rw [h]
  · rfl

/-- A paired history is accepted as it is. -/
theorem accept_paired {items : List T} (hpaired : Paired adapter items)
    (hwell : ∀ item ∈ items, WellCalled adapter item) (h : state.inFlight = none) :
    items.foldl (fun state item => acceptHistoryItem adapter tagSuffix item state) state =
      { state with out := state.out ++ items } := by
  induction hpaired generalizing state with
  | nil => simp
  | @other item rest hresult hassistant _ ih =>
    obtain ⟨-, hrest⟩ := List.forall_mem_cons.1 hwell
    have haccept : acceptHistoryItem adapter tagSuffix item state =
        { state with out := state.out ++ [item] } := by
      have hrole : ¬readRole adapter item = some "toolResult" := hresult
      have hrole' : ¬readRole adapter item = some "assistant" := hassistant
      rw [acceptHistoryItem, if_neg hrole, breakPendingPair_of_none h]
      simp only
      rw [if_neg hrole']
    have hrun := @ih { state with out := state.out ++ [item] } hrest h
    rw [List.foldl_cons, haccept, hrun, List.append_assoc]
    rfl
  | @assistant item results rest hassistant hcontent hresults hcalls _ ih =>
    obtain ⟨hitem, hrest⟩ := List.forall_mem_cons.1 hwell
    have hrest : ∀ item ∈ rest, WellCalled adapter item :=
      fun other hother => hrest other (List.mem_append_right _ hother)
    have hnodup := callIds_nodup hassistant hitem
    have haccept : acceptHistoryItem adapter tagSuffix item state =
        acceptAssistant adapter tagSuffix item state := by
      have hrole : ¬readRole adapter item = some "toolResult" := not_isResult hassistant
      have hrole' : readRole adapter item = some "assistant" := hassistant
      rw [acceptHistoryItem, if_neg hrole, breakPendingPair_of_none h]
      simp only
      rw [if_pos hrole']
    rw [callIds_of_wellCalled hassistant hitem] at hcalls
    rw [List.foldl_cons, List.foldl_append, haccept, acceptAssistant_of_content hcontent h hnodup]
    by_cases hnone : readAssistantToolCallIds adapter item = []
    · rw [hnone, List.map_nil] at hcalls
      rw [if_pos hnone, List.map_eq_nil_iff.1 hcalls.eq_nil, List.foldl_nil, ih hrest rfl]
      simp [h]
    · rw [if_neg hnone, accept_results rfl hnone hresults (fun id hid => callIds_named hid) hnodup
        hcalls, ih hrest rfl]
      simp [h]

end Unchanged

/-! ## Normalising -/

section Normalising

/-- A paired history is normalised to itself. -/
theorem normalize_paired {items : List T} (hpaired : Paired adapter items)
    (hwell : ∀ item ∈ items, WellCalled adapter item) (tag : Option String) :
    normalizeLegacyHistoryForMessages adapter items tag =
      { items, warnings := [], stats := { inspected := items.length } } := by
  have haccept := @accept_paired T adapter (tagSuffixOf tag) (createNormalizerState items.length)
    items hpaired hwell rfl
  rw [normalizeLegacyHistoryForMessages]
  simp only [haccept]
  rfl

theorem wellCalled_of_reduced (hlaw : adapter.Lawful) {items outs : List T}
    (h : List.SublistForall₂ (Reduced adapter) outs items)
    (hwell : ∀ item ∈ items, WellCalled adapter item) :
    ∀ item ∈ outs, WellCalled adapter item := by
  induction h with
  | nil => exact nofun
  | cons hreduced _ ih =>
    obtain ⟨hitem, hitems⟩ := List.forall_mem_cons.1 hwell
    exact List.forall_mem_cons.2 ⟨hreduced.wellCalled hlaw hitem, ih hitems⟩
  | cons_right _ ih => exact ih (List.forall_mem_cons.1 hwell).2

/-- A history comes out paired, with what was dropped counted, and stays as it came out. -/
theorem history_normalized (hlaw : adapter.Lawful) (items : List T)
    (hwell : ∀ item ∈ items, WellCalled adapter item) (tag : Option String) :
    Normalized adapter items (normalizeLegacyHistoryForMessages adapter items tag) ∧
      (∀ tag', normalizeLegacyHistoryForMessages adapter
          (normalizeLegacyHistoryForMessages adapter items tag).items tag' =
        { items := (normalizeLegacyHistoryForMessages adapter items tag).items
          warnings := []
          stats := { inspected :=
            (normalizeLegacyHistoryForMessages adapter items tag).items.length } }) ∧
      (Paired adapter items → normalizeLegacyHistoryForMessages adapter items tag =
        { items, warnings := [], stats := { inspected := items.length } }) := by
  have hstart : Sound adapter ([] : List T) (createNormalizerState items.length) :=
    .settled ⟨.nil, .nil, nofun⟩
  have hsettled : Settled adapter items (finaliseInFlight adapter (tagSuffixOf tag)
      (items.foldl (fun state item => acceptHistoryItem adapter (tagSuffixOf tag) item state)
        (createNormalizerState items.length))) :=
    finaliseInFlight_settled hlaw (accept_sound hlaw items hstart hwell)
  have hbalanced : Balanced items.length (finaliseInFlight adapter (tagSuffixOf tag)
      (items.foldl (fun state item => acceptHistoryItem adapter (tagSuffixOf tag) item state)
        (createNormalizerState items.length))) :=
    finaliseInFlight_balanced (accept_balanced items ⟨rfl, rfl⟩)
  have hnormalized : Normalized adapter items
      (normalizeLegacyHistoryForMessages adapter items tag) :=
    { reduced := hsettled.accounted.reduced
      paired := hsettled.paired
      kept := hsettled.accounted.kept
      counted := hsettled.accounted.counted
      warned := hbalanced.warned
      inspected := hbalanced.inspected }
  refine ⟨hnormalized, fun tag' => ?_, fun hpaired => normalize_paired hpaired hwell tag⟩
  exact normalize_paired hnormalized.paired (wellCalled_of_reduced hlaw hnormalized.reduced hwell) tag'

/-- A message of which only its role, the call it answers and its content are read. -/
structure LegacyItem where
  role : String
  toolCallId : JsValue
  content : JsValue

def itemAdapter : LegacyHistoryItemAdapter LegacyItem where
  message item := .object
    [("role", .string item.role), ("toolCallId", item.toolCallId), ("content", item.content)]
  replaceAssistantContent item content := { item with content := .array content }

theorem itemAdapter_lawful : itemAdapter.Lawful where
  content _ _ := by simp [itemAdapter, JsValue.get, JsValue.lookup, JsValue.isUndefined]
  rest _ _ key hkey := by simp [itemAdapter, JsValue.get, JsValue.lookup, Ne.symm hkey]

def callBlock (id : String) : JsValue :=
  .object [("type", .string "toolCall"), ("id", .string id), ("name", .string "read")]

/-- Of two calls the result of one is there, and that of the other comes after the next message. -/
def lateResult : List LegacyItem :=
  [⟨"assistant", .undefined, .array [callBlock "a", callBlock "b"]⟩,
    ⟨"toolResult", .string "b", .undefined⟩, ⟨"user", .undefined, .string "hi"⟩,
    ⟨"toolResult", .string "a", .undefined⟩]

theorem history_normalized_lateResult :
    Normalized itemAdapter lateResult
        (normalizeLegacyHistoryForMessages itemAdapter lateResult none) ∧
      (normalizeLegacyHistoryForMessages itemAdapter lateResult none).warnings =
        ["sanitizer_dropped_orphan_tool_call:a:read",
          "sanitizer_dropped_reordered_tool_pair:a:unknown"] := by
  have hwell : ∀ item ∈ lateResult, WellCalled itemAdapter item := by
    intro item hitem
    have hcalls : toolCalls itemAdapter item = [] ∨
        toolCalls itemAdapter item = [callBlock "a", callBlock "b"] := by
      simp only [lateResult, List.mem_cons, List.not_mem_nil, or_false] at hitem
      rcases hitem with rfl | rfl | rfl | rfl
      · exact .inr rfl
      · exact .inl rfl
      · exact .inl rfl
      · exact .inl rfl
    constructor
    · intro block hblock
      rcases hcalls with hcalls | hcalls <;> rw [hcalls] at hblock
      · cases hblock
      · simp only [List.mem_cons, List.not_mem_nil, or_false] at hblock
        rcases hblock with rfl | rfl
        · exact ⟨"a", by decide, rfl⟩
        · exact ⟨"b", by decide, rfl⟩
    · rcases hcalls with hcalls | hcalls <;> rw [hcalls]
      · exact .nil
      · simp [callBlock, JsValue.get, JsValue.lookup, JsValue.isUndefined]
  exact ⟨(history_normalized itemAdapter_lawful lateResult hwell none).1, by decide +kernel⟩

end Normalising

end LegacyNormalizer

end Kinetick
