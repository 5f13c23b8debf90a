import Kinetick.Compaction.ContextManager
import Mathlib.Tactic.Linarith
import Mathlib.Tactic.SplitIfs

/-!
# The context is cut where it may be

In messages whose results all answer calls, the searches of the manager agree: an index inside a
round leads to the round's assistant message, and every other index is its own cut. So the backward
scan ends at the greatest index where the messages may be cut, and what a checkpoint keeps is well
formed again.
-/

namespace Kinetick

namespace ContextManager

/-! ## Roles -/

section Roles

variable {message : AgentMessage}

theorem hasRole_unique {role role' : String} (h : message.hasRole role = true)
    (h' : message.hasRole role' = true) : role = role' := by
  unfold AgentMessage.hasRole at h h'
  cases hrole : message.get "role" <;> rw [hrole] at h h' <;> simp [JsValue.isText] at h h'
  exact h.symm.trans h'

theorem not_hasRole {role role' : String} (h : message.hasRole role = true) (hne : role ≠ role') :
    message.hasRole role' = false := by
  rw [Bool.eq_false_iff]
  exact fun h' => hne (hasRole_unique h h')

/-- A message that ends a search for the calls of results. -/
def parts (message : AgentMessage) : Bool :=
  message.hasRole "assistant" || isHardToolGroupBoundary message

theorem parts_eq_false : parts message = false ↔
    message.hasRole "assistant" = false ∧ isHardToolGroupBoundary message = false := by
  rw [parts, Bool.or_eq_false_iff]

theorem not_parts_of_toolResult (h : message.hasRole "toolResult" = true) :
    parts message = false := by
  rw [parts_eq_false]
  refine ⟨not_hasRole h (by decide), ?_⟩
  simp [isHardToolGroupBoundary, not_hasRole h]

end Roles

/-! ## Rounds -/

section Rounds

variable {messages : List AgentMessage} {a b i index last : ℕ}

theorem Answers.not_parts (h : Answers messages a last) {message : AgentMessage} (ha : a < i)
    (hi : i ≤ last) (hmessage : messages[i]? = some message) : parts message = false := by
  obtain ⟨-, ⟨assistant, result, -, hresult, -, hrole, -⟩, hbetween⟩ := h
  rcases Nat.lt_or_eq_of_le hi with hi | rfl
  · exact parts_eq_false.2 (hbetween i message ha hi hmessage)
  · obtain rfl := Option.some.inj (hmessage.symm.trans hresult)
    exact not_parts_of_toolResult hrole

theorem Answers.assistant (h : Answers messages a last) : ∃ assistant, messages[a]? = some assistant ∧
    assistant.hasRole "assistant" = true ∧ parts assistant = true := by
  obtain ⟨-, ⟨assistant, result, hassistant, -, hrole, -, -⟩, -⟩ := h
  exact ⟨assistant, hassistant, hrole, by simp [parts, hrole]⟩

/-- A round does not reach into another. -/
theorem Answers.not_inRound (h : Answers messages a last) : ¬InRound messages a := by
  rintro ⟨a', last', h', ha, hlast⟩
  obtain ⟨assistant, hassistant, -, hparts⟩ := h.assistant
  rw [h'.not_parts ha hlast hassistant] at hparts
  cases hparts

/-- So far behind comes a result of one of the calls, and nothing before it parts them. -/
def ResultAt (toolCallIds : List String) (rest : List AgentMessage) (k : ℕ) : Prop :=
  (∃ result, rest[k]? = some result ∧ result.hasRole "toolResult" = true ∧
    answersOne toolCallIds result = true) ∧
  ∀ j message, j < k → rest[j]? = some message → parts message = false

theorem resultAt_zero {toolCallIds : List String} {message : AgentMessage}
    {rest : List AgentMessage} : ResultAt toolCallIds (message :: rest) 0 ↔
      message.hasRole "toolResult" = true ∧ answersOne toolCallIds message = true := by
  constructor
  · rintro ⟨⟨result, hresult, h⟩, -⟩
    obtain rfl := Option.some.inj hresult
    exact h
  · exact fun h => ⟨⟨message, rfl, h⟩, nofun⟩

theorem resultAt_succ {toolCallIds : List String} {message : AgentMessage}
    {rest : List AgentMessage} {k : ℕ} : ResultAt toolCallIds (message :: rest) (k + 1) ↔
      parts message = false ∧ ResultAt toolCallIds rest k := by
  constructor
  · rintro ⟨hresult, hbetween⟩
    exact ⟨hbetween 0 message (Nat.succ_pos k) rfl, hresult, fun j m hj hm =>
      hbetween (j + 1) m (Nat.succ_lt_succ hj) hm⟩
  · rintro ⟨hparts, hresult, hbetween⟩
    refine ⟨hresult, fun j m hj hm => ?_⟩
    cases j with
    | zero =>
      obtain rfl := Option.some.inj hm
      exact hparts
    | succ j => exact hbetween j m (Nat.lt_of_succ_lt_succ hj) hm

/-- The end of a group is the last result of its calls. -/
theorem le_groupEndFrom {toolCallIds : List String} {rest : List AgentMessage} {groupEnd : ℕ}
    (hend : groupEnd < i) : index ≤ groupEndFrom toolCallIds rest i groupEnd ↔
      index ≤ groupEnd ∨ ∃ k, ResultAt toolCallIds rest k ∧ index ≤ i + k := by
  induction rest generalizing i groupEnd with
  | nil => simp [groupEndFrom, ResultAt]
  | cons message rest ih =>
    have hsplit : (∃ k, ResultAt toolCallIds (message :: rest) k ∧ index ≤ i + k) ↔
        ((message.hasRole "toolResult" = true ∧ answersOne toolCallIds message = true) ∧ index ≤ i) ∨
          parts message = false ∧ ∃ k, ResultAt toolCallIds rest k ∧ index ≤ i + 1 + k := by
      constructor
      · rintro ⟨k, hk, hle⟩
        cases k with
        | zero => exact .inl ⟨resultAt_zero.1 hk, hle⟩
        | succ k => exact .inr ⟨(resultAt_succ.1 hk).1, k, (resultAt_succ.1 hk).2, by omega⟩
      · rintro (⟨h, hle⟩ | ⟨hparts, k, hk, hle⟩)
        · exact ⟨0, resultAt_zero.2 h, hle⟩
        · exact ⟨k + 1, resultAt_succ.2 ⟨hparts, hk⟩, by omega⟩
    have hcomm : parts message = (isHardToolGroupBoundary message || message.hasRole "assistant") :=
      Bool.or_comm _ _
    rw [groupEndFrom, ← hcomm, hsplit, ← Bool.and_eq_true]
    split_ifs with hparts hresult
    · constructor
      · exact .inl
      · rintro (h | ⟨h, -⟩ | ⟨h, -⟩)
        · exact h
        · rw [Bool.and_eq_true] at h
          rw [not_parts_of_toolResult h.1] at hparts
          cases hparts
        · rw [h] at hparts
          cases hparts
    · rw [ih (Nat.lt_succ_self i)]
      simp only [hresult, true_and, Bool.eq_false_iff.2 hparts]
      constructor
      · rintro (h | h)
        · exact .inr (.inl h)
        · exact .inr (.inr h)
      · rintro (h | h | h)
        · exact .inl (by omega)
        · exact .inl h
        · exact .inr h
    · rw [ih (Nat.lt_succ_of_lt hend)]
      simp [hresult, hparts]

/-- An index is in the group of an assistant message where it is the message, or in its round. -/
theorem le_findToolGroupEnd {assistant : AgentMessage} (hassistant : messages[a]? = some assistant)
    (hrole : assistant.hasRole "assistant" = true) :
    index ≤ findToolGroupEnd messages a (assistantToolCallIds assistant) ↔
      index ≤ a ∨ ∃ last, Answers messages a last ∧ index ≤ last := by
  unfold findToolGroupEnd
  rw [le_groupEndFrom (Nat.lt_succ_self a)]
  refine or_congr_right ⟨?_, ?_⟩
  · rintro ⟨k, ⟨⟨result, hk, hresult, hanswers⟩, hbetween⟩, hle⟩
    rw [List.getElem?_drop] at hk
    refine ⟨a + 1 + k, ⟨by omega, ⟨assistant, result, hassistant, hk, hrole, hresult, hanswers⟩, ?_⟩,
      hle⟩
    intro j message hj hjk hmessage
    refine parts_eq_false.1 (hbetween (j - (a + 1)) message (by omega) ?_)
    rw [List.getElem?_drop, ← hmessage]
    congr 1
    omega
  · rintro ⟨last, ⟨hlt, ⟨assistant', result, hassistant', hresult, -, hrole', hcall⟩, hbetween⟩, hle⟩
    obtain rfl := Option.some.inj (hassistant.symm.trans hassistant')
    refine ⟨last - (a + 1), ⟨⟨result, ?_, hrole', hcall⟩, ?_⟩, by omega⟩
    · rw [List.getElem?_drop, ← hresult]
      congr 1
      omega
    · intro j message hj hmessage
      rw [List.getElem?_drop] at hmessage
      exact parts_eq_false.2 (hbetween (a + 1 + j) message (by omega) (by omega) hmessage)

theorem toolCallIds_of_answers {assistant : AgentMessage} (h : Answers messages a last)
    (hassistant : messages[a]? = some assistant) :
    (assistantToolCallIds assistant).isEmpty = false := by
  obtain ⟨-, ⟨assistant', result, hassistant', -, -, -, hcall⟩, -⟩ := h
  obtain rfl := Option.some.inj (hassistant.symm.trans hassistant')
  rw [List.isEmpty_eq_false_iff]
  intro hnil
  rw [assistantHasToolCall, hnil, answersOne, Option.any_eq_true] at hcall
  obtain ⟨id, -, hid⟩ := hcall
  cases hid

/-- From inside a round the search finds the round's assistant message. -/
theorem groupStartBelow_of_answers (h : Answers messages a last) (hle : index ≤ last)
    (hb : b ≤ a) {n : ℕ} (hn : a < n) (hn' : n ≤ index + 1) :
    groupStartBelow messages index b n = some a := by
  obtain ⟨assistant, hassistant, hrole, -⟩ := h.assistant
  induction n with
  | zero => omega
  | succ i ih =>
    rw [groupStartBelow, if_neg (by omega)]
    rcases Nat.lt_or_eq_of_le (Nat.le_of_lt_succ hn) with hi | rfl
    · rcases hmessage : messages[i]? with _ | message
      · exact ih hi (by omega)
      have hparts := h.not_parts hi (by omega) hmessage
      rw [parts_eq_false] at hparts
      simp only [hparts.1, hparts.2, Bool.false_eq_true, if_false]
      exact ih hi (by omega)
    · have hend : index ≤ findToolGroupEnd messages a (assistantToolCallIds assistant) :=
        (le_findToolGroupEnd hassistant hrole).2 (.inr ⟨last, h, hle⟩)
      simp only [hassistant, hrole, toolCallIds_of_answers h hassistant, if_true, Bool.false_eq_true,
        if_false, hend]

/-- What the search finds is the index itself or the assistant message of a round around it. -/
theorem groupStartBelow_some {n c : ℕ} (h : groupStartBelow messages index b n = some c) :
    b ≤ c ∧ c < n ∧ (index ≤ c ∨ ∃ last, Answers messages c last ∧ index ≤ last) := by
  induction n with
  | zero => cases h
  | succ i ih =>
    have hlater : groupStartBelow messages index b i = some c →
        b ≤ c ∧ c < i + 1 ∧ (index ≤ c ∨ ∃ last, Answers messages c last ∧ index ≤ last) :=
      fun h => ⟨(ih h).1, Nat.lt_succ_of_lt (ih h).2.1, (ih h).2.2⟩
    rw [groupStartBelow] at h
    split_ifs at h with hb
    rcases hmessage : messages[i]? with _ | candidate <;> simp only [hmessage] at h
    · exact hlater h
    split_ifs at h with hrole hnone hend hhard
    · cases h
      exact ⟨Nat.le_of_not_lt hb, Nat.lt_succ_self _, (le_findToolGroupEnd hmessage hrole).1 hend⟩
    · exact hlater h

/-- An index is cut at the greatest index up to it that is not inside a round. -/
theorem safeCutForIndex_spec (hwf : WellFormed messages) (hb : b ≤ index)
    (hlength : index < messages.length)
    (hstart : ∀ a last, Answers messages a last → b ≤ last → b ≤ a) :
    ∃ c, safeCutForIndex messages index b = some c ∧ b ≤ c ∧ c ≤ index ∧ ¬InRound messages c ∧
      ∀ j, c < j → j ≤ index → InRound messages j := by
  unfold safeCutForIndex findToolGroupStartForIndex
  rw [List.getElem?_eq_getElem hlength]
  simp only
  by_cases hround : InRound messages index
  · obtain ⟨a, last, h, ha, hle⟩ := hround
    have hba := hstart a last h (by omega)
    rw [groupStartBelow_of_answers h hle hba (by omega) (Nat.le_refl _)]
    exact ⟨a, rfl, hba, Nat.le_of_lt ha, h.not_inRound, fun j hj hj' =>
      ⟨a, last, h, hj, Nat.le_trans hj' hle⟩⟩
  · rcases hsome : groupStartBelow messages index b (index + 1) with _ | c
    · have hvalid : messages[index].hasRole "toolResult" = false := by
        rw [Bool.eq_false_iff]
        intro hrole
        obtain ⟨a, h⟩ := hwf index messages[index] (List.getElem?_eq_getElem hlength) hrole
        exact hround ⟨a, index, h, h.1, Nat.le_refl _⟩
      simp only [hvalid, isValidFirstKeptMessage, Bool.false_eq_true, if_false, Bool.not_false, if_true]
      exact ⟨index, rfl, hb, Nat.le_refl _, hround, fun j hj hj' => by omega⟩
    · obtain ⟨hbc, hc, hle⟩ := groupStartBelow_some hsome
      obtain rfl : c = index := by
        rcases hle with hle | ⟨last, h, hle⟩
        · omega
        · by_contra hne
          exact hround ⟨c, last, h, by omega, hle⟩
      exact ⟨c, rfl, hbc, Nat.le_refl _, hround, fun j hj hj' => by omega⟩

end Rounds

/-! ## The first message that is kept -/

section Scan

variable {messages : List AgentMessage} {tokenEstimator : TokenEstimator} {keep : JsNumber}

theorem le_finite_mono {x y : ℚ} (hxy : x ≤ y) (h : keep.le (.finite x) = true) :
    keep.le (.finite y) = true := by
  cases keep <;> simp only [JsNumber.le, decide_eq_true_eq] at h ⊢
  · exact h.trans hxy
  · cases h
  · cases h

theorem suffixTokens_length : suffixTokens tokenEstimator messages messages.length = 0 := by
  simp [suffixTokens]

theorem suffixTokens_of_lt {i : ℕ} (hi : i < messages.length) :
    suffixTokens tokenEstimator messages i = suffixTokens tokenEstimator messages (i + 1) +
      ((messages[i]?).map tokenEstimator.estimateMessage).getD 0 := by
  rw [suffixTokens, List.drop_eq_getElem_cons hi, List.foldr_cons, List.getElem?_eq_getElem hi,
    add_comm]
  rfl

theorem suffixTokens_antitone (hpos : ∀ message, 0 ≤ tokenEstimator.estimateMessage message)
    {i j : ℕ} (hij : i ≤ j) :
    suffixTokens tokenEstimator messages j ≤ suffixTokens tokenEstimator messages i := by
  induction hij with
  | refl => exact le_refl _
  | @step k hk ih =>
    refine le_trans ?_ ih
    rcases Nat.lt_or_ge k messages.length with hlength | hlength
    · rw [suffixTokens_of_lt hlength, List.getElem?_eq_getElem hlength]
      have := hpos messages[k]
      simp only [Option.map_some, Option.getD_some]
      linarith
    · rw [suffixTokens, suffixTokens, List.drop_eq_nil_of_le (by omega),
        List.drop_eq_nil_of_le hlength]

/-- The scan cuts at the greatest index of a suffix that is estimated at enough, if there is one. -/
theorem firstKeptBelow_spec {boundaryStart n : ℕ} {candidate : Option ℕ} (hn : n ≤ messages.length)
    (hafter : ∀ j, n ≤ j → j < messages.length →
      keep.le (.finite (suffixTokens tokenEstimator messages j)) = false) :
    (∃ i, boundaryStart ≤ i ∧ i < messages.length ∧
      keep.le (.finite (suffixTokens tokenEstimator messages i)) = true ∧
      (∀ j, i < j → j < messages.length →
        keep.le (.finite (suffixTokens tokenEstimator messages j)) = false) ∧
      firstKeptBelow tokenEstimator messages boundaryStart keep candidate n
        (suffixTokens tokenEstimator messages n) = safeCutForIndex messages i boundaryStart) ∨
    (∀ j, boundaryStart ≤ j → j < messages.length →
      keep.le (.finite (suffixTokens tokenEstimator messages j)) = false) ∧
      firstKeptBelow tokenEstimator messages boundaryStart keep candidate n
        (suffixTokens tokenEstimator messages n) = candidate := by
  induction n with
  | zero => exact .inr ⟨fun j _ hj => hafter j (Nat.zero_le _) hj, rfl⟩
  | succ i ih =>
    rw [firstKeptBelow, ← suffixTokens_of_lt hn]
    dsimp only
    split_ifs with hb henough
    · exact .inr ⟨fun j hj hj' => hafter j (by omega) hj', rfl⟩
    · exact .inl ⟨i, Nat.le_of_not_lt hb, hn, henough, fun j hj => hafter j hj, rfl⟩
    · refine ih (Nat.le_of_lt hn) fun j hj hj' => ?_
      rcases Nat.lt_or_eq_of_le hj with hj | rfl
      · exact hafter j hj hj'
      · exact Bool.eq_false_iff.2 henough

end Scan

/-! ## The summary that comes first -/

section Summary

variable {messages : List AgentMessage}

theorem hasRole_of_summaryText {message : AgentMessage}
    (h : (compactionSummaryText message).isSome = true) :
    message.hasRole "compactionSummary" = true := by
  unfold compactionSummaryText at h
  split_ifs at h with hrole
  · exact hrole
  · cases h

theorem latestSummaryBelow_eq (hsummary : SummaryFirst messages) (n : ℕ) :
    latestSummaryBelow messages n =
      if 0 < n ∧ (messages.head?.bind compactionSummaryText).isSome = true then some 0 else none := by
  induction n with
  | zero => rfl
  | succ i ih =>
    rw [latestSummaryBelow]
    cases i with
    | zero =>
      rw [← List.head?_eq_getElem?]
      split_ifs with h h' h'
      · rfl
      · exact absurd ⟨Nat.one_pos, h⟩ h'
      · exact absurd h'.2 h
      · rfl
    | succ i =>
      have hnone : ((messages[i + 1]?).bind compactionSummaryText).isSome = false := by
        rw [Bool.eq_false_iff]
        intro hsome
        rcases hmessage : messages[i + 1]? with _ | message <;> rw [hmessage] at hsome
        · cases hsome
        · have := (hsummary (i + 1) message hmessage (hasRole_of_summaryText hsome)).1
          omega
      rw [hnone, ih]
      simp

theorem head_summary_iff (hsummary : SummaryFirst messages) :
    (messages.head?.bind compactionSummaryText).isSome =
      messages.head?.any (·.hasRole "compactionSummary") := by
  rcases messages with _ | ⟨message, rest⟩
  · rfl
  rw [Bool.eq_iff_iff]
  constructor
  · exact hasRole_of_summaryText
  · intro hrole
    exact (hsummary 0 message rfl hrole).2

theorem boundaryStartOf_eq (hsummary : SummaryFirst messages) :
    boundaryStartOf messages = afterSummaryIndex messages := by
  unfold boundaryStartOf findLatestCompactionSummaryIndex afterSummaryIndex
  rw [latestSummaryBelow_eq hsummary, head_summary_iff hsummary]
  rcases messages with _ | ⟨message, rest⟩
  · rfl
  · simp only [List.length_cons, Nat.succ_pos, true_and]
    split_ifs <;> rfl

theorem afterSummaryIndex_le_one (messages : List AgentMessage) : afterSummaryIndex messages ≤ 1 := by
  unfold afterSummaryIndex
  split_ifs <;> omega

theorem afterSummaryIndex_eq_one (h : afterSummaryIndex messages ≠ 0) :
    ∃ message rest, messages = message :: rest ∧ message.hasRole "compactionSummary" = true := by
  unfold afterSummaryIndex at h
  split_ifs at h with hrole
  · rcases messages with _ | ⟨message, rest⟩
    · cases hrole
    · exact ⟨message, rest, rfl, hrole⟩
  · exact absurd rfl h

/-- A round is behind the summary. -/
theorem afterSummaryIndex_le {a last : ℕ} (h : Answers messages a last) :
    afterSummaryIndex messages ≤ a := by
  by_contra hlt
  have hzero : a = 0 := by
    have := afterSummaryIndex_le_one messages
    omega
  subst hzero
  obtain ⟨message, rest, rfl, hrole⟩ :=
    afterSummaryIndex_eq_one (by omega : afterSummaryIndex messages ≠ 0)
  obtain ⟨assistant, hassistant, hrole', -⟩ := h.assistant
  obtain rfl := Option.some.inj hassistant
  rw [not_hasRole hrole (by decide)] at hrole'
  cases hrole'

/-- The first message behind the summary is a cut of its own. -/
theorem firstValidCut_start (hwf : WellFormed messages) :
    firstValidCutAtOrAfter messages (afterSummaryIndex messages) (afterSummaryIndex messages) =
      if afterSummaryIndex messages < messages.length then some (afterSummaryIndex messages)
      else none := by
  unfold firstValidCutAtOrAfter
  rw [Nat.max_self]
  split_ifs with hlt
  · have hrole : messages[afterSummaryIndex messages].hasRole "toolResult" = false := by
      rw [Bool.eq_false_iff]
      intro hrole
      obtain ⟨a, h⟩ := hwf _ _ (List.getElem?_eq_getElem hlt) hrole
      have := afterSummaryIndex_le h
      have := h.1
      omega
    rw [List.drop_eq_getElem_cons hlt, firstValidCutFrom]
    simp [hrole, isValidFirstKeptMessage]
  · rw [List.drop_eq_nil_of_le (Nat.le_of_not_lt hlt)]
    rfl

end Summary

/-! ## The plan -/

section Plan

variable {messages : List AgentMessage} {settings : ContextManagerSettings}
  {tokenEstimator : TokenEstimator} {triggerAt : JsNumber}

/-- The first message that is kept is the greatest cut; where there is none, all messages behind the
summary are kept. -/
theorem selectFirstKeptIndex_spec (hpos : ∀ message, 0 ≤ tokenEstimator.estimateMessage message)
    (hwf : WellFormed messages) :
    (∃ c, selectFirstKeptIndex tokenEstimator messages (afterSummaryIndex messages)
        (effectiveKeepRecentTokens settings triggerAt) = some c ∧
      IsGreatest (cuts settings tokenEstimator messages triggerAt) c) ∨
    cuts settings tokenEstimator messages triggerAt = ∅ ∧
      ∀ c, selectFirstKeptIndex tokenEstimator messages (afterSummaryIndex messages)
        (effectiveKeepRecentTokens settings triggerAt) = some c → c = afterSummaryIndex messages := by
  unfold selectFirstKeptIndex
  rw [firstValidCut_start hwf]
  split_ifs with hlt
  · rcases @firstKeptBelow_spec messages tokenEstimator (effectiveKeepRecentTokens settings triggerAt)
      (afterSummaryIndex messages) messages.length (some (afterSummaryIndex messages)) (Nat.le_refl _)
      (fun j hj hj' => absurd hj' (Nat.not_lt.2 hj)) with
      ⟨i, hi, hlength, henough, hgreatest, heq⟩ | ⟨hnone, heq⟩ <;>
      rw [suffixTokens_length] at heq
    · obtain ⟨c, hcut, hc, hle, hround, hbetween⟩ := safeCutForIndex_spec hwf hi hlength
        fun a last h _ => afterSummaryIndex_le h
      refine .inl ⟨c, heq.trans hcut, ⟨hc, by omega, hround,
        le_finite_mono (suffixTokens_antitone hpos hle) henough⟩, ?_⟩
      rintro j ⟨hj, hj', hround', henough'⟩
      by_contra hlt'
      rcases Nat.lt_or_ge i j with hij | hij
      · rw [hgreatest j hij hj'] at henough'
        cases henough'
      · exact hround' (hbetween j (Nat.lt_of_not_le hlt') hij)
    · refine .inr ⟨?_, fun c hc => (Option.some.inj (heq.symm.trans hc)).symm⟩
      ext j
      simp only [cuts, Set.mem_setOf_eq, Set.mem_empty_iff_false, iff_false]
      rintro ⟨hj, hj', -, henough⟩
      rw [hnone j hj hj'] at henough
      cases henough
  · refine .inr ⟨?_, nofun⟩
    ext j
    simp only [cuts, Set.mem_setOf_eq, Set.mem_empty_iff_false, iff_false]
    rintro ⟨hj, hj', -⟩
    omega

theorem tooFew_of_le {k k' : ℕ} (h : tooFew settings k = true) (hle : k' ≤ k) :
    tooFew settings k' = true := by
  unfold tooFew JsNumber.lt at h ⊢
  cases hmin : settings.minMessagesToCompact with
  | finite q =>
    rw [hmin] at h
    simp only [JsNumber.le, Bool.and_eq_true, decide_eq_true_eq, Bool.not_eq_true',
      decide_eq_false_iff_not, not_le] at h ⊢
    have hcast : (k' : ℚ) ≤ k := by exact_mod_cast hle
    exact ⟨hcast.trans h.1, lt_of_le_of_lt hcast h.2⟩
  | _ =>
    rw [hmin] at h
    simp [JsNumber.le] at h ⊢

/-- No round is cut at an index that is not inside one. -/
theorem answers_lt_iff {a last c : ℕ} (hround : ¬InRound messages c)
    (h : Answers messages a last) : a < c ↔ last < c := by
  constructor
  · intro ha
    by_contra hlast
    exact hround ⟨a, last, h, ha, Nat.le_of_not_lt hlast⟩
  · exact fun hlast => h.1.trans hlast

theorem take_drop_append {start c : ℕ} (hstart : start ≤ c) (hc : c ≤ messages.length) :
    (messages.take c).drop start ++ messages.drop c = messages.drop start := by
  rw [← List.drop_append_of_le_length, List.take_append_drop]
  rw [List.length_take]
  omega

theorem selectPlan_plans {tokensBefore : JsNumber} {plan : ContextCompactionPlan}
    (hpos : ∀ message, 0 ≤ tokenEstimator.estimateMessage message)
    (hwf : WellFormed messages) (hsummary : SummaryFirst messages)
    (h : selectPlan settings tokenEstimator messages tokensBefore triggerAt = some plan) :
    Plans settings tokenEstimator messages triggerAt plan := by
  unfold selectPlan at h
  simp only [boundaryStartOf_eq hsummary] at h
  split_ifs at h with hfew
  rcases hkept : selectFirstKeptIndex tokenEstimator messages (afterSummaryIndex messages)
    (effectiveKeepRecentTokens settings triggerAt) with _ | firstKeptIndex <;>
    simp only [hkept] at h
  · cases h
  split_ifs at h with hempty hfew'
  cases h
  push Not at hempty
  have hgreatest : IsGreatest (cuts settings tokenEstimator messages triggerAt) firstKeptIndex := by
    rcases @selectFirstKeptIndex_spec messages settings tokenEstimator triggerAt hpos hwf with
      ⟨c, hc, hgreatest⟩ | ⟨-, hstart⟩
    · obtain rfl := Option.some.inj (hc.symm.trans hkept)
      exact hgreatest
    · have := hstart firstKeptIndex hkept
      omega
  exact {
    all := take_drop_append (Nat.le_of_lt hempty.1) (Nat.le_of_lt hempty.2)
    compacted := by
      rw [List.length_drop, List.length_take, Nat.min_eq_left (Nat.le_of_lt hempty.2)]
    greatest := hgreatest
    rounds := fun a last => answers_lt_iff hgreatest.1.2.2.1 }

/-- Where nothing is planned, no cut leaves enough messages to compact. -/
theorem not_leavesEnough {tokensBefore : JsNumber}
    (hpos : ∀ message, 0 ≤ tokenEstimator.estimateMessage message)
    (hwf : WellFormed messages) (hsummary : SummaryFirst messages)
    (h : selectPlan settings tokenEstimator messages tokensBefore triggerAt = none) :
    ∀ index ∈ cuts settings tokenEstimator messages triggerAt,
      ¬LeavesEnough settings messages index := by
  rintro index hcut ⟨hone, henough⟩
  have hstart := hcut.1
  have hlength := hcut.2.1
  have hfits : ∀ k, index - afterSummaryIndex messages ≤ k → tooFew settings k = false := by
    intro k hk
    rw [Bool.eq_false_iff]
    intro hfew
    rw [tooFew_of_le hfew hk] at henough
    cases henough
  rcases @selectFirstKeptIndex_spec messages settings tokenEstimator triggerAt hpos hwf with
    ⟨c, hc, hgreatest⟩ | ⟨hnone, -⟩
  · have hle := hgreatest.2 hcut
    have hlength' := hgreatest.1.2.1
    unfold selectPlan at h
    simp only [boundaryStartOf_eq hsummary, hc] at h
    rw [if_neg, if_neg, if_neg] at h
    · cases h
    · rw [List.length_drop, List.length_take, Nat.min_eq_left (Nat.le_of_lt hlength'),
        hfits _ (by omega), Bool.false_or, List.isEmpty_iff, List.drop_eq_nil_iff]
      omega
    · omega
    · rw [hfits _ (by omega)]
      exact Bool.false_ne_true
  · rw [hnone] at hcut
    exact hcut

end Plan

/-! ## Runs of checkpoints -/

section Runs

variable {messages more kept : List AgentMessage} {a last : ℕ}

/-- A round depends only on the messages that it reaches over, wherever they stand. -/
theorem Answers.of_shift {messages' : List AgentMessage} {a' last' : ℕ} (h : Answers messages a last)
    (hspan : last' - a' = last - a) (hlt : a' < last')
    (hsame : ∀ k, k ≤ last - a → messages'[a' + k]? = messages[a + k]?) :
    Answers messages' a' last' := by
  obtain ⟨hlast, ⟨assistant, result, hassistant, hresult, hcall⟩, hbetween⟩ := h
  refine ⟨hlt, ⟨assistant, result, ?_, ?_, hcall⟩, ?_⟩
  · rw [← hassistant]
    exact hsame 0 (Nat.zero_le _)
  · have := hsame (last - a) (Nat.le_refl _)
    rw [← hspan, Nat.add_sub_of_le (Nat.le_of_lt hlt), hspan,
      Nat.add_sub_of_le (Nat.le_of_lt hlast)] at this
    rw [this, hresult]
  · intro i message hi hi' hmessage
    refine hbetween (a + (i - a')) message (by omega) (by omega) ?_
    rw [← hsame (i - a') (by omega), Nat.add_sub_of_le (Nat.le_of_lt hi), hmessage]

theorem WellFormed.append (hwf : WellFormed messages) (hmore : WellFormed more) :
    WellFormed (messages ++ more) := by
  intro index result hresult hrole
  rcases Nat.lt_or_ge index messages.length with hindex | hindex
  · rw [List.getElem?_append_left hindex] at hresult
    obtain ⟨a, h⟩ := hwf index result hresult hrole
    have := h.1
    exact ⟨a, h.of_shift rfl h.1 fun k hk => List.getElem?_append_left (by omega)⟩
  · rw [List.getElem?_append_right hindex] at hresult
    obtain ⟨a, h⟩ := hmore _ result hresult hrole
    have := h.1
    refine ⟨messages.length + a, h.of_shift (by omega) (by omega) fun k hk => ?_⟩
    rw [List.getElem?_append_right (by omega)]
    congr 1
    omega

/-- What is kept from an index that is not inside a round is well formed. -/
theorem WellFormed.drop (hwf : WellFormed messages) {c : ℕ} (hround : ¬InRound messages c) :
    WellFormed (messages.drop c) := by
  intro index result hresult hrole
  rw [List.getElem?_drop] at hresult
  obtain ⟨a, h⟩ := hwf (c + index) result hresult hrole
  have hlt := h.1
  have hca : c ≤ a := by
    by_contra hac
    exact absurd ((answers_lt_iff hround h).1 (by omega)) (by omega)
  refine ⟨a - c, h.of_shift (by omega) (by omega) fun k hk => ?_⟩
  rw [List.getElem?_drop]
  congr 1
  omega

theorem wellFormed_singleton {message : AgentMessage} (h : message.hasRole "toolResult" = false) :
    WellFormed [message] := by
  intro index result hresult hrole
  cases index with
  | zero =>
    obtain rfl := Option.some.inj hresult
    rw [h] at hrole
    cases hrole
  | succ index => cases hresult

theorem SummaryFirst.append (hsummary : SummaryFirst messages) (hmore : NoSummary more) :
    SummaryFirst (messages ++ more) := by
  intro index message hmessage hrole
  rcases Nat.lt_or_ge index messages.length with hindex | hindex
  · rw [List.getElem?_append_left hindex] at hmessage
    exact hsummary index message hmessage hrole
  · rw [List.getElem?_append_right hindex] at hmessage
    rw [hmore message (List.mem_of_getElem? hmessage)] at hrole
    cases hrole

theorem afterSummaryIndex_append (hmore : NoSummary more) :
    afterSummaryIndex (messages ++ more) = afterSummaryIndex messages := by
  unfold afterSummaryIndex
  rcases messages with _ | ⟨message, rest⟩
  · rcases more with _ | ⟨message, rest⟩
    · rfl
    · simp [hmore message List.mem_cons_self]
  · rfl

theorem afterSummaryIndex_le_length : afterSummaryIndex messages ≤ messages.length := by
  unfold afterSummaryIndex
  rcases messages with _ | ⟨message, rest⟩
  · exact Nat.le_refl _
  · split_ifs <;> simp

theorem afterSummary_append (hmore : NoSummary more) :
    afterSummary (messages ++ more) = afterSummary messages ++ more := by
  unfold afterSummary
  rw [afterSummaryIndex_append hmore, List.drop_append_of_le_length afterSummaryIndex_le_length]

/-- Behind the summary that comes first there is no other. -/
theorem SummaryFirst.noSummary (hsummary : SummaryFirst messages) :
    NoSummary (afterSummary messages) := by
  intro message hmessage
  obtain ⟨i, hi⟩ := List.mem_iff_getElem?.1 hmessage
  rw [afterSummary, List.getElem?_drop] at hi
  rw [Bool.eq_false_iff]
  intro hrole
  have hzero := (hsummary _ message hi hrole).1
  rw [hzero] at hi
  rcases messages with _ | ⟨first, rest⟩
  · cases hi
  obtain rfl := Option.some.inj hi
  simp only [afterSummaryIndex, List.head?_cons, Option.any_some, hrole, if_true] at hzero
  omega

section Replacement

variable {settings : ContextManagerSettings} {tokenEstimator : TokenEstimator}

theorem createCompactionSummary_role (summary : String) (tokensBefore nowMs : JsNumber) (count : ℕ) :
    (createCompactionSummary summary tokensBefore nowMs count).hasRole "compactionSummary" = true :=
  rfl

theorem createCompactionSummary_text (summary : String) (tokensBefore nowMs : JsNumber)
    (count : ℕ) : compactionSummaryText (createCompactionSummary summary tokensBefore nowMs count) =
      some summary := rfl

/-- A checkpoint leaves the messages as they are, or applies a plan. -/
theorem checkpointLocked_cases (input : CheckpointInput) :
    (∃ reason, checkpointLocked settings tokenEstimator messages input = .skip reason) ∨
    ∃ plan summary, selectPlan settings tokenEstimator messages input.trigger.tokens
        input.trigger.triggerAt = some plan ∧
      checkpointLocked settings tokenEstimator messages input =
        replacementOf settings tokenEstimator messages input plan summary := by
  unfold checkpointLocked
  rcases selectPlan settings tokenEstimator messages input.trigger.tokens
    input.trigger.triggerAt with _ | plan
  · dsimp only
    split_ifs
    · exact .inl ⟨_, rfl⟩
    · exact .inl ⟨_, rfl⟩
  · rcases hsummary : input.generateSummary plan with _ | summary <;> simp only [hsummary] <;>
      split_ifs
    · exact .inl ⟨_, rfl⟩
    · exact .inl ⟨_, rfl⟩
    · exact .inl ⟨_, rfl⟩
    · exact .inl ⟨_, rfl⟩
    · exact .inl ⟨_, rfl⟩
    · exact .inl ⟨_, rfl⟩
    · exact .inr ⟨plan, summary, rfl, rfl⟩

/-- A summary before messages that are well formed and hold none. -/
theorem summary_first {summary : AgentMessage} (hkept : NoSummary kept)
    (htext : (compactionSummaryText summary).isSome = true) : SummaryFirst (summary :: kept) := by
  intro index message hmessage hrole'
  cases index with
  | zero =>
    obtain rfl := Option.some.inj hmessage
    exact ⟨rfl, htext⟩
  | succ index =>
    rw [hkept message (List.mem_of_getElem? hmessage)] at hrole'
    cases hrole'

/-- What a plan keeps, under its summary, can be planned again. -/
theorem Plans.kept_sound {plan : ContextCompactionPlan} {triggerAt : JsNumber}
    (h : Plans settings tokenEstimator messages triggerAt plan) (hwf : WellFormed messages)
    (hsummary : SummaryFirst messages) :
    WellFormed plan.keptMessages ∧ NoSummary plan.keptMessages := by
  have hkept : plan.keptMessages = messages.drop plan.firstKeptIndex := by
    have hdrop := congrArg (List.drop plan.compactedMessages.length) h.all
    rw [List.drop_left, afterSummary, List.drop_drop, h.compacted,
      Nat.add_sub_of_le h.greatest.1.1] at hdrop
    exact hdrop
  refine ⟨hkept ▸ hwf.drop h.greatest.1.2.2.1, fun message hmessage => ?_⟩
  exact hsummary.noSummary message (h.all ▸ List.mem_append_right _ hmessage)

/-- A step keeps the context such that it can be planned again, and loses no message. -/
theorem step_sound (hpos : ∀ message, 0 ≤ tokenEstimator.estimateMessage message) {context : Context}
    (hwf : WellFormed context.messages) (hsummary : SummaryFirst context.messages)
    (hmore : WellFormed more) (hnone : NoSummary more) (input : CheckpointInput) :
    WellFormed (context.step settings tokenEstimator more input).messages ∧
    SummaryFirst (context.step settings tokenEstimator more input).messages ∧
    (context.step settings tokenEstimator more input).summarised ++
        afterSummary (context.step settings tokenEstimator more input).messages =
      context.summarised ++ afterSummary context.messages ++ more := by
  have hwf' := hwf.append hmore
  have hsummary' := hsummary.append hnone
  unfold Context.step
  dsimp only
  rcases @checkpointLocked_cases (context.messages ++ more) settings tokenEstimator input with
    ⟨reason, heq⟩ | ⟨plan, summary, hplan, heq⟩ <;> rw [heq]
  · refine ⟨hwf', hsummary', ?_⟩
    rw [CheckpointDecision.apply, CheckpointDecision.summarised, List.append_nil,
      afterSummary_append hnone, List.append_assoc]
  · have hplans := selectPlan_plans hpos hwf' hsummary' hplan
    obtain ⟨hkept, hnoSummary⟩ := hplans.kept_sound hwf' hsummary'
    refine ⟨?_, ?_, ?_⟩
    · exact (wellFormed_singleton (not_hasRole (createCompactionSummary_role _ _ _ _)
        (by decide))).append hkept
    · exact summary_first hnoSummary (by rw [createCompactionSummary_text, Option.isSome_some])
    · have hall : context.summarised ++ plan.compactedMessages ++ plan.keptMessages =
          context.summarised ++ afterSummary context.messages ++ more := by
        rw [List.append_assoc, hplans.all, afterSummary_append hnone, List.append_assoc]
      exact hall

theorem run_sound (hpos : ∀ message, 0 ≤ tokenEstimator.estimateMessage message)
    (steps : List (List AgentMessage × CheckpointInput))
    (hmore : ∀ step ∈ steps, WellFormed step.1 ∧ NoSummary step.1) {context : Context}
    (hwf : WellFormed context.messages) (hsummary : SummaryFirst context.messages) :
    WellFormed (context.run settings tokenEstimator steps).messages ∧
    SummaryFirst (context.run settings tokenEstimator steps).messages ∧
    (context.run settings tokenEstimator steps).summarised ++
        afterSummary (context.run settings tokenEstimator steps).messages =
      context.summarised ++ afterSummary context.messages ++ steps.flatMap (·.1) := by
  induction steps generalizing context with
  | nil => exact ⟨hwf, hsummary, by rw [Context.run, List.flatMap_nil, List.append_nil]⟩
  | cons step steps ih =>
    obtain ⟨more, input⟩ := step
    obtain ⟨hmore', hnone⟩ := hmore (more, input) List.mem_cons_self
    obtain ⟨hwf', hsummary', heq⟩ := @step_sound _ settings tokenEstimator hpos context hwf hsummary
      hmore' hnone input
    rw [Context.run]
    obtain ⟨hwf'', hsummary'', heq'⟩ := ih (fun step h => hmore step (List.mem_cons_of_mem _ h)) hwf'
      hsummary'
    refine ⟨hwf'', hsummary'', ?_⟩
    rw [heq', heq, List.flatMap_cons, List.append_assoc _ more]

/-- What a checkpoint summarises is cut from the context at the greatest index where it may be cut,
and over a run every message is summarised at most once, in order, or is still there. -/
theorem checkpoints_summarise_once (settings : ContextManagerSettings)
    (tokenEstimator : TokenEstimator) (hpos : ∀ message, 0 ≤ tokenEstimator.estimateMessage message) :
    (∀ messages, WellFormed messages → SummaryFirst messages → ∀ tokensBefore triggerAt,
      (∀ plan, selectPlan settings tokenEstimator messages tokensBefore triggerAt = some plan →
        Plans settings tokenEstimator messages triggerAt plan) ∧
      (selectPlan settings tokenEstimator messages tokensBefore triggerAt = none →
        ∀ index ∈ cuts settings tokenEstimator messages triggerAt,
          ¬LeavesEnough settings messages index)) ∧
    ∀ messages, WellFormed messages → SummaryFirst messages →
      ∀ steps : List (List AgentMessage × CheckpointInput),
        (∀ step ∈ steps, WellFormed step.1 ∧ NoSummary step.1) →
        WellFormed (Context.run settings tokenEstimator { messages } steps).messages ∧
        SummaryFirst (Context.run settings tokenEstimator { messages } steps).messages ∧
        (Context.run settings tokenEstimator { messages } steps).summarised ++
            afterSummary (Context.run settings tokenEstimator { messages } steps).messages =
          afterSummary messages ++ steps.flatMap (·.1) := by
  refine ⟨fun messages hwf hsummary tokensBefore triggerAt => ⟨fun plan h => ?_, fun h => ?_⟩,
    fun messages hwf hsummary steps hmore => ?_⟩
  · exact selectPlan_plans hpos hwf hsummary h
  · exact not_leavesEnough hpos hwf hsummary h
  · exact run_sound hpos steps hmore hwf hsummary

/-- A call between two requests: the cut that keeps two messages stands before the call. -/
def calledOnce : List AgentMessage :=
  [⟨[("role", .string "user")]⟩,
   ⟨[("role", .string "assistant"), ("content",
     .array [.object [("type", .string "toolCall"), ("id", .string "c1")]])]⟩,
   ⟨[("role", .string "toolResult"), ("toolCallId", .string "c1")]⟩,
   ⟨[("role", .string "user")]⟩]

theorem calledOnce_wellFormed : WellFormed calledOnce := by
  intro index result hresult hrole
  match index with
  | 0 | 1 | 3 =>
    obtain rfl := Option.some.inj hresult
    exact absurd hrole (by decide)
  | 2 =>
    refine ⟨1, by decide, ⟨_, _, rfl, rfl, rfl, rfl, rfl⟩, fun i message hi hi' _ => ?_⟩
    omega
  | n + 4 => cases hresult

theorem calledOnce_noSummary : NoSummary calledOnce := by
  intro message hmessage
  simp only [calledOnce, List.mem_cons, List.not_mem_nil, or_false] at hmessage
  rcases hmessage with rfl | rfl | rfl | rfl <;> rfl

def keepTwo : ContextManagerSettings := ⟨.finite 2, .finite 1, "v1"⟩

/-- Every message is estimated at one token. -/
def oneToken : TokenEstimator := ⟨fun _ => 1, fun messages => .finite messages.length⟩

theorem calledOnce_summarised :
    (selectPlan keepTwo oneToken calledOnce (.finite 4) (.finite 4)).map (·.firstKeptIndex) = some 1 ∧
    ∀ plan, selectPlan keepTwo oneToken calledOnce (.finite 4) (.finite 4) = some plan →
      Plans keepTwo oneToken calledOnce (.finite 4) plan := by
  have hsummary : SummaryFirst ([] ++ calledOnce) :=
    SummaryFirst.append (fun index message h => by cases h) calledOnce_noSummary
  exact ⟨by decide +kernel, ((checkpoints_summarise_once keepTwo oneToken
    (fun _ => by norm_num [oneToken])).1 calledOnce calledOnce_wellFormed hsummary
    (.finite 4) (.finite 4)).1⟩

end Replacement

end Runs

end ContextManager

end Kinetick
