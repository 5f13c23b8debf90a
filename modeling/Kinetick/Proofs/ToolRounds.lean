import Kinetick.Compaction.HistoryReduction

/-!
# Histories in segments

A history whose tool rounds parse is a list of segments, single messages and whole rounds, and any
list of valid segments parses. The closures are the segments' indexes.
-/

namespace Kinetick

namespace HistoryReduction

/-- A message that calls no tool, or a tool round. -/
inductive Segment
  | single (message : AgentMessage)
  | round (message : AgentMessage) (calls : List ToolCallIdentity) (results : List AgentMessage)

namespace Segment

def messages : Segment → List AgentMessage
  | single message => [message]
  | round message _ results => message :: results

/-- The segment parses, whatever follows it. -/
def Valid : Segment → Prop
  | single message => readRoundToolCalls message = .ok none
  | round message calls results => readRoundToolCalls message = .ok (some calls) ∧
      indexToolCalls calls = .ok calls ∧ ∀ index rest,
        settleToolRound false calls calls.length [] index (results ++ rest) =
          .ok (List.range' index results.length, true)

/-- Its round, where it starts at the index. -/
def rounds (index : ℕ) : Segment → List ToolRound
  | single _ => []
  | round _ calls results => [{
      assistantIndex := index
      resultIndexes := List.range' (index + 1) results.length
      toolCallsById := calls
      settled := true }]

/-- The call and result ids of its round. -/
def ids : Segment → List (List String × List (Option String))
  | single _ => []
  | round _ calls results =>
    [(calls.map (·.id), results.map fun m => readNonEmpty (m.get "toolCallId"))]

theorem messages_length_pos (s : Segment) : 0 < s.messages.length := by
  cases s <;> simp [messages]

end Segment

/-- The messages of the segments. -/
def history (segments : List Segment) : List AgentMessage := segments.flatMap (·.messages)

/-- The rounds of the segments, from the index on. -/
def roundsOf : ℕ → List Segment → List ToolRound
  | _, [] => []
  | index, s :: segments => s.rounds index ++ roundsOf (index + s.messages.length) segments

/-- The indexes of the segments, from the index on. -/
def closuresOf : ℕ → List Segment → List HistoryClosure
  | _, [] => []
  | index, s :: segments =>
    List.range' index s.messages.length :: closuresOf (index + s.messages.length) segments

@[simp] theorem history_cons (s : Segment) (segments : List Segment) :
    history (s :: segments) = s.messages ++ history segments := rfl

/-! ## Parsing -/

theorem parseFrom_skip (allow : Bool) (index skip : ℕ) (rest : List AgentMessage) :
    parseFrom allow index skip rest = parseFrom allow (index + skip) 0 (rest.drop skip) := by
  induction skip generalizing index rest with
  | zero => rfl
  | succ skip ih =>
    rcases rest with _ | ⟨message, rest⟩
    · simp [parseFrom]
    · rw [parseFrom, ih, List.drop_succ_cons]
      congr 1
      omega

theorem closuresFrom_skip (rounds : List ToolRound) (index skip : ℕ) (rest : List AgentMessage) :
    closuresFrom rounds index skip rest =
      closuresFrom rounds (index + skip) 0 (rest.drop skip) := by
  induction skip generalizing index rest with
  | zero => rfl
  | succ skip ih =>
    rcases rest with _ | ⟨message, rest⟩
    · simp [closuresFrom]
    · rw [closuresFrom, ih, List.drop_succ_cons]
      congr 1
      omega

theorem bind_ok {α β : Type} {x : Except String α} {f : α → Except String β} {b : β}
    (h : (x >>= f) = .ok b) : ∃ a, x = .ok a ∧ f a = .ok b := by
  rcases x with e | a
  · cases h
  · exact ⟨a, rfl, h⟩

/-- What settled took exactly as many results as there are calls, and whatever follows them. -/
theorem settleToolRound_ok {calls : List ToolCallIdentity} {count : ℕ} {matched : List String}
    {index : ℕ} {rest : List AgentMessage} {indexes : List ℕ} {settled : Bool}
    (h : settleToolRound false calls count matched index rest = .ok (indexes, settled)) :
    count ≤ rest.length ∧ indexes = List.range' index count ∧ settled = true ∧
      ∀ index' rest', settleToolRound false calls count matched index'
        (rest.take count ++ rest') = .ok (List.range' index' count, true) := by
  induction count generalizing matched index rest indexes with
  | zero =>
    simp only [settleToolRound, Except.ok.injEq, Prod.mk.injEq] at h
    obtain ⟨rfl, rfl⟩ := h
    exact ⟨Nat.zero_le _, rfl, rfl, fun _ _ => rfl⟩
  | succ count ih =>
    rcases rest with _ | ⟨result, rest⟩
    · simp [settleToolRound, readSettledCallId, bind, Except.bind] at h
    · simp only [settleToolRound, Bool.and_false, Bool.false_eq_true, ↓reduceIte, List.head?_cons,
        List.tail_cons] at h
      obtain ⟨callId, hid, h⟩ := bind_ok h
      obtain ⟨⟨indexes', settled'⟩, hrest, h⟩ := bind_ok h
      cases h
      obtain ⟨hlen, rfl, rfl, hany⟩ := ih hrest
      refine ⟨Nat.succ_le_succ hlen, rfl, rfl, fun index' rest' => ?_⟩
      simp only [List.take_succ_cons, List.cons_append, settleToolRound, Bool.and_false,
        Bool.false_eq_true, ↓reduceIte, List.head?_cons, List.tail_cons, hid]
      change (settleToolRound false calls count _ _ _ >>= _) = _
      rw [hany]
      rfl

theorem indexToolCalls_ok {calls calls' : List ToolCallIdentity}
    (h : indexToolCalls calls = .ok calls') : calls' = calls := by
  unfold indexToolCalls at h
  split_ifs at h
  cases h
  rfl

/-- Valid segments parse. -/
theorem parseFrom_history {segments : List Segment} (h : ∀ s ∈ segments, s.Valid) (index : ℕ) :
    parseFrom false index 0 (history segments) = .ok (roundsOf index segments) := by
  induction segments generalizing index with
  | nil => rfl
  | cons s segments ih =>
    have ih := ih fun s hs => h s (List.mem_cons_of_mem _ hs)
    have hs := h s List.mem_cons_self
    cases s with
    | single message =>
      simp only [history_cons, Segment.messages, List.singleton_append, parseFrom]
      rw [show readRoundToolCalls message = .ok none from hs]
      change parseFrom false (index + 1) 0 (history segments) = _
      rw [ih]
      rfl
    | round message calls results =>
      obtain ⟨hcalls, hindex, hsettle⟩ := hs
      simp only [history_cons, Segment.messages, List.cons_append, parseFrom]
      rw [hcalls]
      change (indexToolCalls calls >>= _) = _
      rw [hindex]
      change (settleToolRound false calls calls.length [] (index + 1) _ >>= _) = _
      rw [hsettle]
      change (parseFrom false (index + 1) _ _ >>= _) = _
      rw [List.length_range', parseFrom_skip, List.drop_left, ih]
      simp only [roundsOf, Segment.rounds, Segment.messages, List.length_cons]
      rw [Nat.add_right_comm, Nat.add_assoc]
      rfl

/-- What parses is a list of valid segments. -/
theorem segments_of_parseFrom {rest : List AgentMessage} {index : ℕ} {rounds : List ToolRound}
    (h : parseFrom false index 0 rest = .ok rounds) :
    ∃ segments, (∀ s ∈ segments, s.Valid) ∧ rest = history segments ∧
      rounds = roundsOf index segments := by
  induction hn : rest.length using Nat.strong_induction_on generalizing rest index rounds with
  | _ n ih =>
    rcases rest with _ | ⟨message, rest⟩
    · cases h
      exact ⟨[], nofun, rfl, rfl⟩
    · simp only [parseFrom] at h
      obtain ⟨calls, hcalls, h⟩ := bind_ok h
      rcases calls with _ | calls
      · obtain ⟨segments, hvalid, rfl, rfl⟩ := ih rest.length (by simp at hn; omega) h rfl
        refine ⟨.single message :: segments, ?_, rfl, rfl⟩
        rintro s hs
        rcases List.mem_cons.1 hs with rfl | hs
        · exact hcalls
        · exact hvalid s hs
      · obtain ⟨byId, hindex, h⟩ := bind_ok h
        obtain ⟨⟨indexes, settled⟩, hsettle, h⟩ := bind_ok h
        obtain ⟨rounds', hrest, h⟩ := bind_ok h
        cases h
        cases indexToolCalls_ok hindex
        obtain ⟨hlen, rfl, rfl, hany⟩ := settleToolRound_ok hsettle
        rw [List.length_range', parseFrom_skip] at hrest
        obtain ⟨segments, hvalid, hdrop, rfl⟩ :=
          ih (rest.drop calls.length).length (by simp at hn ⊢; omega) hrest rfl
        have htake : (rest.take calls.length).length = calls.length := by
          rw [List.length_take]
          omega
        refine ⟨.round message calls (rest.take calls.length) :: segments, ?_, ?_, ?_⟩
        · rintro s hs
          rcases List.mem_cons.1 hs with rfl | hs
          · refine ⟨hcalls, hindex, fun index' rest' => ?_⟩
            rw [hany, htake]
          · exact hvalid s hs
        · rw [history_cons, ← hdrop]
          simp [Segment.messages]
        · simp only [roundsOf, Segment.rounds, Segment.messages, List.length_cons, htake]
          rw [Nat.add_right_comm, Nat.add_assoc]
          rfl

theorem parseToolRounds_iff {messages : List AgentMessage} {rounds : List ToolRound} :
    parseToolRounds messages = .ok rounds ↔ ∃ segments, (∀ s ∈ segments, s.Valid) ∧
      messages = history segments ∧ rounds = roundsOf 0 segments := by
  constructor
  · exact segments_of_parseFrom
  · rintro ⟨segments, hvalid, rfl, rfl⟩
    exact parseFrom_history hvalid 0

end HistoryReduction

end Kinetick
