import Mathlib.Data.List.Flatten
import Mathlib.Data.List.Forall2
import Kinetick.Proofs.ToolRounds

/-!
# Reductions keep histories well formed

Rewriting contents leaves what the parser reads of a message (`SameRounds`), so the rounds are the
same. Deleting keeps or drops whole segments (`keeping_segments`), so what is left is a list of
valid segments again.
-/

namespace Kinetick

namespace HistoryReduction

/-! ## Closures and ids of segments -/

theorem closuresOf_flatten (index : ℕ) (segments : List Segment) :
    (closuresOf index segments).flatten = List.range' index (history segments).length := by
  induction segments generalizing index with
  | nil => rfl
  | cons s segments ih =>
    simp only [closuresOf, List.flatten_cons, ih, history_cons, List.length_append]
    rw [List.range'_append_1]

theorem assistantIndex_le {segments : List Segment} {index : ℕ} :
    ∀ round ∈ roundsOf index segments, index ≤ round.assistantIndex := by
  induction segments generalizing index with
  | nil => exact nofun
  | cons s segments ih =>
    intro round hround
    rcases List.mem_append.1 hround with hround | hround
    · cases s with
      | single => cases hround
      | round =>
        rw [List.mem_singleton.1 hround]
    · have := ih round hround
      omega

/-- The closures of a history are the segments' indexes. -/
theorem closuresFrom_history (segments : List Segment) (index : ℕ) (before : List ToolRound)
    (hbefore : ∀ round ∈ before, round.assistantIndex < index) :
    closuresFrom (before ++ roundsOf index segments) index 0 (history segments) =
      closuresOf index segments := by
  induction segments generalizing index before with
  | nil => rfl
  | cons s segments ih =>
    have hfind : before.find? (·.assistantIndex = index) = none := by
      rw [List.find?_eq_none]
      intro round hround
      have := hbefore round hround
      simp only [decide_eq_true_eq]
      omega
    cases s with
    | single message =>
      have hrest : (roundsOf (index + 1) segments).find? (·.assistantIndex = index) = none := by
        rw [List.find?_eq_none]
        intro round hround
        have := assistantIndex_le round hround
        simp only [decide_eq_true_eq]
        omega
      simp only [history_cons, Segment.messages, List.singleton_append, closuresFrom, roundsOf,
        Segment.rounds, List.nil_append, List.length_singleton, List.find?_append, hfind, hrest,
        Option.or_none, closuresOf]
      rw [ih (index + 1) before fun round hround => by have := hbefore round hround; omega]
      rfl
    | round message calls results =>
      simp only [history_cons, Segment.messages, List.cons_append, closuresFrom, roundsOf,
        Segment.rounds, List.length_cons, List.find?_append, hfind,
        Option.none_or, List.find?_cons, decide_true, closuresOf, List.length_range']
      have hih := ih (index + 1 + results.length)
        (before ++ [{ assistantIndex := index
                      resultIndexes := List.range' (index + 1) results.length
                      toolCallsById := calls, settled := true }]) (by
          intro round hround
          rcases List.mem_append.1 hround with hround | hround
          · have := hbefore round hround
            omega
          · rw [List.mem_singleton.1 hround]
            dsimp only
            omega)
      rw [List.append_assoc, List.singleton_append] at hih
      rw [closuresFrom_skip, List.drop_left, show index + (results.length + 1) =
        index + 1 + results.length by omega, List.nil_append, hih]
      rfl

theorem buildHistoryClosures_history {segments : List Segment} (h : ∀ s ∈ segments, s.Valid) :
    buildHistoryClosures (history segments) = .ok (closuresOf 0 segments) := by
  have hparse := parseFrom_history h 0
  unfold buildHistoryClosures parseToolRounds
  rw [hparse]
  change Except.ok _ = _
  rw [← closuresFrom_history segments 0 [] nofun, List.nil_append]

/-- Every round is a closure. -/
theorem round_mem_closuresOf {segments : List Segment} {index : ℕ} :
    ∀ round ∈ roundsOf index segments,
      round.assistantIndex :: round.resultIndexes ∈ closuresOf index segments := by
  induction segments generalizing index with
  | nil => exact nofun
  | cons s segments ih =>
    intro round hround
    rcases List.mem_append.1 hround with hround | hround
    · cases s with
      | single => cases hround
      | round message calls results =>
        rw [List.mem_singleton.1 hround]
        exact List.mem_cons_self
    · exact List.mem_cons_of_mem _ (ih round hround)

theorem getElem?_append_range' (before : List AgentMessage) (ms after : List AgentMessage)
    {β : Type} (f : AgentMessage → Option β) :
    ((List.range' before.length ms.length).map fun i => (before ++ ms ++ after)[i]?.bind f) =
      ms.map f := by
  induction ms generalizing before with
  | nil => rfl
  | cons m ms ih =>
    have hih := ih (before ++ [m])
    simp only [List.length_append, List.length_singleton, List.append_assoc,
      List.singleton_append] at hih
    simp only [List.length_cons, List.range'_succ, List.map_cons, List.append_assoc,
      List.cons_append]
    congr 1
    rw [List.getElem?_append_right le_rfl]
    simp

/-- The ids of the rounds, segment by segment. -/
theorem roundIds_roundsOf (segments : List Segment) (before : List AgentMessage) :
    roundIds (before ++ history segments) (roundsOf before.length segments) =
      segments.flatMap (·.ids) := by
  induction segments generalizing before with
  | nil => rfl
  | cons s segments ih =>
    have hih := ih (before ++ s.messages)
    rw [List.length_append, List.append_assoc, ← history_cons] at hih
    unfold roundIds at hih ⊢
    rw [roundsOf, List.map_append, hih, List.flatMap_cons]
    congr 1
    cases s with
    | single => rfl
    | round message calls results =>
      have hresults := getElem?_append_range' (before ++ [message]) results (history segments)
        (fun m => readNonEmpty (m.get "toolCallId"))
      simp only [List.length_append, List.length_singleton, List.append_assoc,
        List.singleton_append] at hresults
      simp only [Segment.rounds, Segment.ids, Segment.messages, List.map_cons, List.map_nil,
        ToolRound.callIds, ToolRound.resultIds, history_cons]
      rw [← hresults]

/-! ## Deleting segments -/

/-- The segments whose first message is kept. -/
def keptSegments (keep : ℕ → Bool) : ℕ → List Segment → List Segment
  | _, [] => []
  | index, s :: segments => (if keep index then [s] else []) ++
      keptSegments keep (index + s.messages.length) segments

theorem keptSegments_sublist (keep : ℕ → Bool) (index : ℕ) (segments : List Segment) :
    (keptSegments keep index segments).Sublist segments := by
  induction segments generalizing index with
  | nil => exact List.Sublist.refl _
  | cons s segments ih =>
    unfold keptSegments
    split_ifs
    · exact (ih _).cons_cons s
    · exact (ih _).cons s

theorem filter_zipIdx_const {keep : ℕ → Bool} {b : Bool} {ms : List AgentMessage} {index : ℕ}
    (h : ∀ i ∈ List.range' index ms.length, keep i = b) :
    (((ms.zipIdx index).filter fun entry => keep entry.2).map (·.1)) = if b then ms else [] := by
  induction ms generalizing index with
  | nil => cases b <;> rfl
  | cons m ms ih =>
    rw [List.length_cons, List.range'_succ] at h
    have hm := h index List.mem_cons_self
    have hih := ih fun i hi => h i (List.mem_cons_of_mem _ hi)
    rw [List.zipIdx_cons, List.filter_cons]
    cases b
    · simpa [hm] using hih
    · simpa [hm] using hih

/-- Where each segment is kept or dropped as a whole, the kept segments are left. -/
theorem keeping_segments {keep : ℕ → Bool} {segments : List Segment} {index : ℕ}
    (h : ∀ closure ∈ closuresOf index segments, ∀ i ∈ closure, ∀ j ∈ closure, keep i = keep j) :
    ((((history segments).zipIdx index).filter fun entry => keep entry.2).map (·.1)) =
      history (keptSegments keep index segments) := by
  induction segments generalizing index with
  | nil => rfl
  | cons s segments ih =>
    have hpos := s.messages_length_pos
    have hs : ∀ i ∈ List.range' index s.messages.length, keep i = keep index := by
      intro i hi
      refine h _ List.mem_cons_self i hi index ?_
      rw [List.mem_range'_1]
      omega
    have hih := ih fun closure hclosure => h closure (List.mem_cons_of_mem _ hclosure)
    rw [history_cons, List.zipIdx_append, List.filter_append, List.map_append, hih,
      filter_zipIdx_const hs, keptSegments]
    unfold history
    rw [List.flatMap_append]
    congr 1
    split_ifs <;> simp

/-- The histories that are left when segments are deleted parse, with the rounds that survive. -/
theorem parse_keeping {segments : List Segment} (hvalid : ∀ s ∈ segments, s.Valid)
    {keep : ℕ → Bool}
    (h : ∀ closure ∈ closuresOf 0 segments, ∀ i ∈ closure, ∀ j ∈ closure, keep i = keep j) :
    ∃ rounds, parseToolRounds (keeping keep (history segments)) = .ok rounds ∧
      (roundIds (keeping keep (history segments)) rounds).Sublist
        (roundIds (history segments) (roundsOf 0 segments)) := by
  have hkeep : keeping keep (history segments) = history (keptSegments keep 0 segments) :=
    keeping_segments h
  have hsub := keptSegments_sublist keep 0 segments
  refine ⟨roundsOf 0 (keptSegments keep 0 segments), ?_, ?_⟩
  · rw [hkeep]
    exact parseFrom_history (fun s hs => hvalid s (hsub.subset hs)) 0
  · have hids := roundIds_roundsOf segments []
    have hids' := roundIds_roundsOf (keptSegments keep 0 segments) []
    simp only [List.nil_append, List.length_nil] at hids hids'
    rw [hkeep, hids, hids']
    exact hsub.flatMap _

/-! ## Rewriting contents -/

/-- The parser reads the same of both messages. -/
structure SameRounds (m m' : AgentMessage) : Prop where
  calls : readRoundToolCalls m' = readRoundToolCalls m
  settles : ∀ calls matched,
    readSettledCallId (some m') calls matched = readSettledCallId (some m) calls matched
  callId : m'.get "toolCallId" = m.get "toolCallId"

theorem SameRounds.refl (m : AgentMessage) : SameRounds m m := ⟨rfl, fun _ _ => rfl, rfl⟩

theorem settleToolRound_same {calls : List ToolCallIdentity} {ms ms' : List AgentMessage}
    (h : List.Forall₂ SameRounds ms ms') (allow : Bool) (count : ℕ) (matched : List String)
    (index : ℕ) : settleToolRound allow calls count matched index ms' =
      settleToolRound allow calls count matched index ms := by
  induction h generalizing count matched index with
  | nil => rfl
  | cons hm hms ih =>
    cases count with
    | zero => rfl
    | succ count =>
      simp only [settleToolRound, List.isEmpty_cons, Bool.false_and, Bool.false_eq_true,
        ↓reduceIte, List.head?_cons, List.tail_cons, hm.settles, ih]

theorem parseFrom_same {ms ms' : List AgentMessage} (h : List.Forall₂ SameRounds ms ms')
    (allow : Bool) (index skip : ℕ) :
    parseFrom allow index skip ms' = parseFrom allow index skip ms := by
  induction h generalizing index skip with
  | nil => rfl
  | cons hm hms ih =>
    cases skip with
    | zero => simp only [parseFrom, hm.calls, settleToolRound_same hms, ih]
    | succ skip => simp only [parseFrom, ih]

theorem roundIds_same {ms ms' : List AgentMessage} (h : List.Forall₂ SameRounds ms ms')
    (rounds : List ToolRound) : roundIds ms' rounds = roundIds ms rounds := by
  have hget : ∀ i : ℕ, (ms'[i]?.bind fun m => readNonEmpty (m.get "toolCallId")) =
      ms[i]?.bind fun m => readNonEmpty (m.get "toolCallId") := by
    intro i
    induction h generalizing i with
    | nil => rfl
    | cons hm hms ih =>
      cases i with
      | zero => simp [hm.callId]
      | succ i => simpa using ih i
  unfold roundIds
  refine List.map_congr_left fun round _ => ?_
  unfold ToolRound.resultIds
  simp only [hget]

theorem parse_same {ms ms' : List AgentMessage} (h : List.Forall₂ SameRounds ms ms')
    {rounds : List ToolRound} (hparse : parseToolRounds ms = .ok rounds) :
    parseToolRounds ms' = .ok rounds ∧ roundIds ms' rounds = roundIds ms rounds := by
  refine ⟨?_, roundIds_same h rounds⟩
  rw [← hparse]
  exact parseFrom_same h false 0 0

end HistoryReduction

namespace AgentMessage

theorem lookup_append_of_filter (fields : List (String × JsValue)) (content : JsValue)
    (key : String) :
    JsValue.lookup key (fields.filter (fun field => field.1 ≠ "content") ++
      [("content", content)]) =
      if key = "content" then content else JsValue.lookup key fields := by
  induction fields with
  | nil =>
    simp only [List.filter_nil, List.nil_append, JsValue.lookup]
    by_cases hkey : key = "content"
    · subst hkey
      cases content <;> rfl
    · have hne : ¬ "content" = key := fun h => hkey h.symm
      simp [hkey, hne]
  | cons field fields ih =>
    rw [List.filter_cons]
    by_cases hfield : field.1 = "content"
    · simp only [hfield, ne_eq, not_true_eq_false, decide_false, Bool.false_eq_true, ↓reduceIte, ih,
        JsValue.lookup]
      by_cases hkey : key = "content"
      · simp [hkey]
      · have hne : ¬ "content" = key := fun h => hkey h.symm
        simp [hkey, hne]
    · simp only [hfield, ne_eq, not_false_eq_true, decide_true, ↓reduceIte, List.cons_append,
        JsValue.lookup, ih]
      by_cases hkey : key = "content"
      · simp [hkey, hfield]
      · simp [hkey]

theorem get_withContent (m : AgentMessage) (content : JsValue) (key : String) :
    (m.withContent content).get key = if key = "content" then content else m.get key :=
  lookup_append_of_filter _ _ _

theorem hasRole_withContent (m : AgentMessage) (content : JsValue) (role : String) :
    (m.withContent content).hasRole role = m.hasRole role := by
  unfold hasRole
  rw [get_withContent, if_neg (by decide)]

end AgentMessage

namespace HistoryReduction

/-- A tool result's content is not read by the parser. -/
theorem sameRounds_withContent_of_result {m : AgentMessage} (h : m.hasRole "toolResult" = true)
    (content : JsValue) : SameRounds m (m.withContent content) := by
  have hid : (m.withContent content).get "toolCallId" = m.get "toolCallId" := by
    rw [AgentMessage.get_withContent, if_neg (by decide)]
  refine ⟨?_, fun calls matched => ?_, hid⟩
  · unfold readRoundToolCalls
    rw [AgentMessage.hasRole_withContent, if_pos h, if_pos h]
  · unfold readSettledCallId
    simp only [AgentMessage.hasRole_withContent, hid]

theorem readToolCall_media {block : JsValue} (h : isStructuredMediaBlock block = true) :
    readToolCall block = .ok [] := by
  cases block with
  | object fields =>
    have htype : ((JsValue.object fields).get "type").isText "toolCall" = false := by
      unfold isStructuredMediaBlock at h
      rcases htype : (JsValue.object fields).get "type" with _ | _ | _ | _ | text | _ | _ <;>
        rw [htype] at h <;> simp only [JsValue.isText, Bool.or_self, Bool.false_eq_true] at h ⊢
      simp only [Bool.or_eq_true, decide_eq_true_eq, decide_eq_false_iff_not] at h ⊢
      rintro rfl
      rcases h with h | h <;> exact absurd h (by decide)
    simp only [readToolCall, htype, Bool.not_false, ↓reduceIte]
  | _ => cases h

theorem readBlocks_filter (blocks : List JsValue) :
    readBlocks (blocks.filter fun block => !isStructuredMediaBlock block) = readBlocks blocks := by
  induction blocks with
  | nil => rfl
  | cons block blocks ih =>
    rw [List.filter_cons]
    by_cases h : isStructuredMediaBlock block = true
    · simp only [h, Bool.not_true, Bool.false_eq_true, ↓reduceIte, ih, readBlocks,
        readToolCall_media h]
      rcases readBlocks blocks with e | calls <;> rfl
    · simp only [h, Bool.not_false, ↓reduceIte, readBlocks, ih]

theorem readBlocks_withoutMedia (blocks : List JsValue) :
    readBlocks (withoutMedia blocks) = readBlocks blocks := by
  rw [← readBlocks_filter blocks]
  unfold withoutMedia
  dsimp only
  split_ifs with h
  · rw [List.isEmpty_iff.1 h]
    rfl
  · rfl

theorem attachmentFree_eq (m : AgentMessage) : attachmentFree m = m ∨
    ∃ blocks, m.get "content" = .array blocks ∧
      attachmentFree m = m.withContent (.array (withoutMedia blocks)) := by
  unfold attachmentFree
  split
  · rename_i blocks hblocks
    split_ifs
    · exact .inr ⟨blocks, hblocks, rfl⟩
    · exact .inl rfl
  · exact .inl rfl

theorem sameRounds_attachmentFree (m : AgentMessage) : SameRounds m (attachmentFree m) := by
  rcases attachmentFree_eq m with h | ⟨blocks, hblocks, h⟩
  · rw [h]
    exact SameRounds.refl m
  · rw [h]
    have hid : (m.withContent (.array (withoutMedia blocks))).get "toolCallId" =
        m.get "toolCallId" := by
      rw [AgentMessage.get_withContent, if_neg (by decide)]
    refine ⟨?_, fun calls matched => ?_, hid⟩
    · unfold readRoundToolCalls
      simp only [AgentMessage.hasRole_withContent]
      split_ifs
      · rfl
      · rfl
      · unfold readToolCalls
        rw [AgentMessage.get_withContent, if_pos rfl, hblocks]
        simp only [readBlocks_withoutMedia]
    · unfold readSettledCallId
      simp only [AgentMessage.hasRole_withContent, hid]

theorem forall₂_map_right {f : AgentMessage → AgentMessage} (hf : ∀ m, SameRounds m (f m))
    (ms : List AgentMessage) : List.Forall₂ SameRounds ms (ms.map f) := by
  induction ms with
  | nil => exact .nil
  | cons m ms ih => exact .cons (hf m) ih

theorem rewrites_attachmentFree (ms : List AgentMessage) :
    Rewrites DropsMedia ms (buildAttachmentFreeCandidate ms).messages := by
  refine ⟨List.length_map _, fun i m m' hm hm' => ?_⟩
  rw [buildAttachmentFreeCandidate, List.getElem?_map, hm] at hm'
  cases hm'
  refine (attachmentFree_eq m).imp_right ?_
  rintro ⟨blocks, hblocks, h⟩
  rw [h]
  refine ⟨⟨blocks, hblocks, ?_⟩, fun key hkey => ?_⟩
  · rw [AgentMessage.get_withContent, if_pos rfl]
  · rw [AgentMessage.get_withContent, if_neg hkey]

/-! ## Tool results -/

/-- Each replacement is of the tool result at its index. -/
def Replaces (messages : List AgentMessage) (replacements : List (ℕ × AgentMessage)) : Prop :=
  ∀ r ∈ replacements, ∃ m, messages[r.1]? = some m ∧ m.hasRole "toolResult" = true ∧
    r.2 = m.withContent (.array [textBlock TOOL_RESULT_REMOVED_TEXT])

theorem replacement_replaces {messages : List AgentMessage} {eligible : String → Bool}
    {round : ToolRound} {index : ℕ} {replacements : List (ℕ × AgentMessage)}
    (h : replacement messages eligible round index = .ok replacements) :
    Replaces messages replacements := by
  unfold replacement at h
  rcases hm : messages[index]? with _ | m <;> simp only [hm] at h
  · cases h
  · by_cases hrole : m.hasRole "toolResult" = true
    · simp only [hrole, Bool.not_true, Bool.false_eq_true, ↓reduceIte] at h
      split at h
      · cases h
        exact nofun
      · split_ifs at h
        · cases h
          exact nofun
        · obtain ⟨removed, -, h⟩ := bind_ok h
          split_ifs at h
          · cases h
            exact nofun
          · cases h
            rintro r hr
            rw [List.mem_singleton.1 hr]
            exact ⟨m, hm, hrole, rfl⟩
    · simp only [hrole, Bool.not_false, ↓reduceIte] at h
      cases h

theorem mem_of_mapM {α β : Type} {f : α → Except String β} {as : List α} {bs : List β}
    (h : as.mapM f = .ok bs) : ∀ b ∈ bs, ∃ a ∈ as, f a = .ok b := by
  induction as generalizing bs with
  | nil =>
    cases h
    exact nofun
  | cons a as ih =>
    rw [List.mapM_cons] at h
    obtain ⟨b, hb, h⟩ := bind_ok h
    obtain ⟨bs', hbs, h⟩ := bind_ok h
    cases h
    rintro c hc
    rcases List.mem_cons.1 hc with rfl | hc
    · exact ⟨a, List.mem_cons_self, hb⟩
    · obtain ⟨a', ha', hf⟩ := ih hbs c hc
      exact ⟨a', List.mem_cons_of_mem _ ha', hf⟩

theorem Replaces.flatten {messages : List AgentMessage} {rs : List (List (ℕ × AgentMessage))}
    (h : ∀ r ∈ rs, Replaces messages r) : Replaces messages rs.flatten := by
  intro r hr
  obtain ⟨l, hl, hr⟩ := List.mem_flatten.1 hr
  exact h l hl r hr

/-- What a candidate of tool results is: the messages, some of their results replaced. -/
theorem buildToolResultCandidate_ok {messages : List AgentMessage} {rounds : List ToolRound}
    {eligible : ℕ → String → Bool} {candidate : ToolTrimCandidate}
    (h : buildToolResultCandidate messages rounds eligible = .ok candidate) :
    ∃ replacements, Replaces messages replacements ∧
      candidate.messages = replaced replacements messages := by
  obtain ⟨replacements, hrs, h⟩ := bind_ok h
  cases h
  refine ⟨replacements.flatten, Replaces.flatten fun r hr => ?_, rfl⟩
  obtain ⟨a, -, ha⟩ := mem_of_mapM hrs r hr
  obtain ⟨parts, hparts, ha⟩ := bind_ok ha
  cases ha
  refine Replaces.flatten fun r hr => ?_
  obtain ⟨index, -, hindex⟩ := mem_of_mapM hparts r hr
  exact replacement_replaces hindex

/-- A message, or its tool result replaced. -/
theorem replaced_getElem? {messages : List AgentMessage} {replacements : List (ℕ × AgentMessage)}
    (h : Replaces messages replacements) {i : ℕ} {m m' : AgentMessage} (hm : messages[i]? = some m)
    (hm' : (replaced replacements messages)[i]? = some m') :
    m' = m ∨ m.hasRole "toolResult" = true ∧
      m' = m.withContent (.array [textBlock TOOL_RESULT_REMOVED_TEXT]) := by
  rw [replaced, List.getElem?_mapIdx, hm, Option.map_some, Option.some.injEq] at hm'
  rcases hfind : replacements.find? (·.1 = i) with _ | r <;> rw [hfind] at hm'
  · exact .inl hm'.symm
  · have hi := List.find?_some hfind
    simp only [decide_eq_true_eq] at hi
    obtain ⟨m₁, hm₁, hrole, hr⟩ := h r (List.mem_of_find?_eq_some hfind)
    rw [hi, hm] at hm₁
    cases hm₁
    exact .inr ⟨hrole, hm'.symm.trans hr⟩

theorem forall₂_of_getElem? {R : AgentMessage → AgentMessage → Prop} {ms ms' : List AgentMessage}
    (hlen : ms'.length = ms.length)
    (h : ∀ (i : ℕ) m m', ms[i]? = some m → ms'[i]? = some m' → R m m') : List.Forall₂ R ms ms' := by
  rw [List.forall₂_iff_get]
  refine ⟨hlen.symm, fun i hi hi' => ?_⟩
  exact h i _ _ (List.getElem?_eq_getElem hi) (List.getElem?_eq_getElem hi')

theorem replaced_same {messages : List AgentMessage} {replacements : List (ℕ × AgentMessage)}
    (h : Replaces messages replacements) :
    List.Forall₂ SameRounds messages (replaced replacements messages) := by
  refine forall₂_of_getElem? (List.length_mapIdx) fun i m m' hm hm' => ?_
  rcases replaced_getElem? h hm hm' with rfl | ⟨hrole, rfl⟩
  · exact SameRounds.refl _
  · exact sameRounds_withContent_of_result hrole _

theorem rewrites_replaced {messages : List AgentMessage} {replacements : List (ℕ × AgentMessage)}
    (h : Replaces messages replacements) :
    Rewrites TrimsResult messages (replaced replacements messages) := by
  refine ⟨List.length_mapIdx, fun i m m' hm hm' => (replaced_getElem? h hm hm').imp_right ?_⟩
  rintro ⟨hrole, rfl⟩
  refine ⟨⟨hrole, ?_⟩, fun key hkey => ?_⟩
  · rw [AgentMessage.get_withContent, if_pos rfl]
  · rw [AgentMessage.get_withContent, if_neg hkey]

theorem toolTrim_replaced {messages : List AgentMessage} {candidate : ToolTrimCandidate}
    (h : buildToolTrimCandidate messages = .ok candidate) :
    ∃ replacements, Replaces messages replacements ∧
      candidate.messages = replaced replacements messages := by
  obtain ⟨rounds, -, h⟩ := bind_ok h
  exact buildToolResultCandidate_ok h

theorem allToolResults_replaced {messages : List AgentMessage} {candidate : ToolTrimCandidate}
    (h : buildAllToolResultsCandidate messages = .ok candidate) :
    ∃ replacements, Replaces messages replacements ∧
      candidate.messages = replaced replacements messages := by
  obtain ⟨rounds, -, h⟩ := bind_ok h
  exact buildToolResultCandidate_ok h

end HistoryReduction

end Kinetick
