import Kinetick.Attempts
import Kinetick.Compaction.CompactContext
import Kinetick.Results
import Mathlib.Data.List.Nodup

/-!
# A checkpoint is asked for within bounds

Whatever the ladder does between two states is to send some candidates in order, one or two requests
for each. Which they are follows the calls of the functions: only `hvideo` may be sent for two
histories, and for the same one again only where Hall without media is what was refused with them.
-/

namespace Kinetick

namespace CompactContext

open HistoryReduction

/-! ## What is sent between two states -/

section Sends

variable {fits : CheckpointRequestInput → Bool} {α β : Type}

/-- The number of each report, with its candidate. -/
def numbered (s : LadderState) : List (CheckpointCandidate × ℕ) :=
  s.reports.map fun report => (report.candidate, report.attemptNumber)

/-- The candidates are sent in order, and what is sent fits, is counted and is reported. -/
structure SendsAll (fits : CheckpointRequestInput → Bool)
    (ids : List (CheckpointCandidate × List (String → JsValue))) (s s' : LadderState)
    (sent : List SentRequest) : Prop where
  requests : s'.requests = s.requests ++ sent
  attempts : Attempts SentRequest.sentFor SentRequest.Failed ids sent
  fits : ∀ request ∈ sent, fits request.request = true
  counter : s'.counter = s.counter + sent.length
  numbers : numbered s' = numbered s ++ (sent.map (·.candidate)).zipIdx (s.counter + 1)

def Sends (fits : CheckpointRequestInput → Bool)
    (ids : List (CheckpointCandidate × List (String → JsValue))) (s s' : LadderState) : Prop :=
  ∃ sent, SendsAll fits ids s s' sent

theorem Sends.none {s s' : LadderState} (hrequests : s'.requests = s.requests)
    (hreports : s'.reports = s.reports) (hcounter : s'.counter = s.counter) :
    Sends fits [] s s' := by
  refine ⟨[], ?_, .nil, nofun, hcounter, ?_⟩
  · rw [hrequests, List.append_nil]
  · simp [numbered, hreports]

theorem Sends.refl (s : LadderState) : Sends fits [] s s := .none rfl rfl rfl

theorem Sends.trans {ids ids' : List (CheckpointCandidate × List (String → JsValue))}
    {s s' s'' : LadderState} (h : Sends fits ids s s') (h' : Sends fits ids' s' s'') :
    Sends fits (ids ++ ids') s s'' := by
  obtain ⟨sent, h⟩ := h
  obtain ⟨sent', h'⟩ := h'
  refine ⟨sent ++ sent', ?_, h.attempts.append h'.attempts, ?_, ?_, ?_⟩
  · rw [h'.requests, h.requests, List.append_assoc]
  · intro request hmem
    exact (List.mem_append.1 hmem).elim (h.fits request) (h'.fits request)
  · rw [h'.counter, h.counter, List.length_append, Nat.add_assoc]
  · rw [h'.numbers, h.numbers, h.counter, List.map_append, List.zipIdx_append, List.append_assoc,
      List.length_map]
    congr 3
    omega

/-- From any state the computation sends candidates such as `Q` says. -/
def Within (fits : CheckpointRequestInput → Bool) (m : LadderM α)
    (Q : List (CheckpointCandidate × List (String → JsValue)) → Prop) : Prop :=
  ∀ s, ∃ ids, Sends fits ids s (m s).2 ∧ Q ids

variable {m : LadderM α} {f : α → LadderM β}
  {P Q R : List (CheckpointCandidate × List (String → JsValue)) → Prop}

theorem Within.mono (h : Within fits m P) (hPQ : ∀ ids, P ids → Q ids) : Within fits m Q := by
  intro s
  obtain ⟨ids, hsends, hids⟩ := h s
  exact ⟨ids, hsends, hPQ ids hids⟩

theorem Within.bind (h : Within fits m P) (hf : ∀ a, Within fits (f a) Q)
    (hthrown : ∀ ids, P ids → R ids) (hok : ∀ ids ids', P ids → Q ids' → R (ids ++ ids')) :
    Within fits (m >>= f) R := by
  intro s
  obtain ⟨ids, hsends, hids⟩ := h s
  rcases hm : m s with ⟨e | a, s'⟩ <;> rw [hm] at hsends
  · rw [Effect.bind_of_error hm]
    exact ⟨ids, hsends, hthrown ids hids⟩
  · rw [Effect.bind_of_ok hm]
    obtain ⟨ids', hsends', hids'⟩ := hf a s'
    exact ⟨ids ++ ids', hsends.trans hsends', hok ids ids' hids hids'⟩

/-- A computation that sends nothing, before one that does. -/
theorem Within.after (h : Within fits m (· = [])) (hf : ∀ a, Within fits (f a) Q) (hnil : Q []) :
    Within fits (m >>= f) Q :=
  h.bind hf (fun _ hids => hids ▸ hnil) fun _ _ hids hids' => by
    subst hids
    exact hids'

theorem Within.attempt (h : Within fits m Q) : Within fits m.attempt Q := h

theorem within_same (m : LadderM α) (hm : ∀ s, (m s).2 = s) (hnil : Q []) : Within fits m Q := by
  intro s
  rw [hm]
  exact ⟨[], .refl s, hnil⟩

theorem within_pure (a : α) (hnil : Q []) : Within fits (pure a : LadderM α) Q :=
  within_same _ (fun _ => rfl) hnil

theorem within_raise (e : Thrown) (hnil : Q []) : Within fits (Effect.raise e : LadderM α) Q :=
  within_same _ (fun _ => rfl) hnil

theorem within_ofExcept {r : Except Thrown α} (hok : ∀ a, r = .ok a → Within fits (f a) Q)
    (hnil : Q []) : Within fits (Effect.ofExcept r >>= f) Q := by
  rcases r with e | a
  · exact within_raise e hnil
  · exact hok a rfl

end Sends

/-! ## One candidate -/

section Candidate

variable {input : CompactContextInput} {session : CheckpointSession} {instructions : Option String}
  {rung : Rung}

theorem within_lookAtSignal : Within session.fits (lookAtSignal input) (· = []) :=
  fun _ => ⟨[], .none rfl rfl rfl, rfl⟩

theorem within_throwIfAborted : Within session.fits (throwIfAborted input) (· = []) := by
  unfold throwIfAborted
  refine within_lookAtSignal.after (fun aborted => ?_) rfl
  cases aborted
  · exact within_pure _ rfl
  · exact within_raise _ rfl

/-- One request is sent and reported, and its answer is the provider's. -/
structure SendsOne (session : CheckpointSession) (instructions : Option String) (rung : Rung)
    (attemptNumber : ℕ) (answer : Except Thrown CheckpointGeneration) (s s' : LadderState) :
    Prop where
  requests : s'.requests = s.requests ++
    [{ candidate := rung.candidate, request := checkpointRequest instructions rung.messages, answer }]
  answer : answer = session.generate s.requests.length
  numbers : numbered s' = numbered s ++ [(rung.candidate, attemptNumber)]
  counter : s'.counter = s.counter

theorem thrownOutcome_ok (cause : Thrown) (s : LadderState) : ∃ outcome s',
    thrownOutcome input cause s = (.ok outcome, s') ∧ s'.requests = s.requests ∧
      s'.reports = s.reports ∧ s'.counter = s.counter := by
  unfold thrownOutcome
  split
  · exact ⟨_, s, rfl, rfl, rfl, rfl⟩
  · exact ⟨_, s, rfl, rfl, rfl, rfl⟩
  · exact ⟨_, _, rfl, rfl, rfl, rfl⟩

theorem sendsOne_attempt (attemptNumber : ℕ) (s : LadderState) :
    SendsOne session instructions rung attemptNumber
      (generateCheckpointAttempt input session instructions rung attemptNumber s).1 s
      (generateCheckpointAttempt input session instructions rung attemptNumber s).2 := by
  have hsend : (send session instructions rung).attempt s =
      (.ok (session.generate s.requests.length), (send session instructions rung s).2) := rfl
  unfold generateCheckpointAttempt
  rw [Effect.bind_of_ok hsend]
  rcases hanswer : session.generate s.requests.length with cause | generation
  · obtain ⟨outcome, s', hout, hrequests, hreports, hcounter⟩ := @thrownOutcome_ok input cause
      (send session instructions rung s).2
    simp only
    rw [Effect.bind_of_ok hout]
    refine ⟨?_, hanswer.symm, ?_, hcounter⟩
    · change s'.requests = _
      rw [hrequests, send, hanswer]
      rfl
    · change (s'.reports ++ [_]).map _ = _
      rw [hreports, List.map_append]
      rfl
  · refine ⟨?_, hanswer.symm, ?_, rfl⟩
    · change (send session instructions rung s).2.requests = _
      rw [send, hanswer]
      rfl
    · change (s.reports ++ [_]).map _ = _
      rw [List.map_append]
      rfl

/-- The request of the candidate, with its answer. -/
def requestFor (instructions : Option String) (rung : Rung)
    (answer : Except Thrown CheckpointGeneration) : SentRequest where
  candidate := rung.candidate
  request := checkpointRequest instructions rung.messages
  answer

theorem SendsOne.sends {s s' : LadderState} {answer : Except Thrown CheckpointGeneration}
    (hfits : session.fits (checkpointRequest instructions rung.messages) = true)
    (h : SendsOne session instructions rung (s.counter + 1) answer
      { s with counter := s.counter + 1 } s') :
    Sends session.fits [candidateOf rung.candidate rung.messages] s s' := by
  refine ⟨[requestFor instructions rung answer], h.requests,
    .once (a := requestFor instructions rung answer) .nil, ?_, h.counter, h.numbers⟩
  intro request hmem
  obtain rfl := List.mem_singleton.1 hmem
  exact hfits

/-- And again after it failed. -/
theorem SendsOne.retries {s s₁ s₂ s₃ : LadderState} {first : CheckpointGeneration}
    {answer : Except Thrown CheckpointGeneration}
    (hfits : session.fits (checkpointRequest instructions rung.messages) = true)
    (hfailed : first.stopReason = .error)
    (h : SendsOne session instructions rung (s.counter + 1) (.ok first)
      { s with counter := s.counter + 1 } s₁)
    (hsame : Sends session.fits [] s₁ s₂)
    (h' : SendsOne session instructions rung (s₂.counter + 1) answer
      { s₂ with counter := s₂.counter + 1 } s₃) :
    Sends session.fits [candidateOf rung.candidate rung.messages] s s₃ := by
  obtain ⟨sent, hsame⟩ := hsame
  obtain rfl : sent = [] := by
    have := hsame.attempts
    cases this
    rfl
  have hrequests : s₂.requests = s₁.requests := by rw [hsame.requests, List.append_nil]
  have hcounter : s₂.counter = s.counter + 1 := by rw [hsame.counter, h.counter]; rfl
  have hnumbers : numbered s₂ = numbered s₁ := by
    rw [hsame.numbers]
    exact List.append_nil _
  refine ⟨[requestFor instructions rung (.ok first), requestFor instructions rung answer], ?_,
    .twice (a := requestFor instructions rung (.ok first)) .nil ⟨first, rfl, hfailed⟩ rfl, ?_, ?_, ?_⟩
  · rw [h'.requests]
    change s₂.requests ++ _ = _
    rw [hrequests, h.requests, List.append_assoc]
    rfl
  · intro request hmem
    simp only [List.mem_cons, List.not_mem_nil, or_false] at hmem
    rcases hmem with rfl | rfl <;> exact hfits
  · rw [h'.counter]
    exact congrArg (· + 1) hcounter
  · rw [h'.numbers]
    change numbered s₂ ++ _ = _
    rw [hnumbers, h.numbers, hcounter, List.append_assoc]
    rfl

/-- One request, and another if the first failed. -/
theorem within_generateCandidate
    (hfits : session.fits (checkpointRequest instructions rung.messages) = true) :
    Within session.fits (generateCandidateWithProviderRetry input session instructions rung)
      (· = [candidateOf rung.candidate rung.messages]) := by
  intro s
  refine ⟨_, ?_, rfl⟩
  have hcount : ∀ s : LadderState, countAttempt s =
      (.ok (s.counter + 1), { s with counter := s.counter + 1 }) := fun _ => rfl
  unfold generateCandidateWithProviderRetry
  rw [Effect.bind_of_ok (hcount s)]
  have hfirst := @sendsOne_attempt input session instructions rung (s.counter + 1)
    { s with counter := s.counter + 1 }
  rcases hone : generateCheckpointAttempt input session instructions rung (s.counter + 1)
    { s with counter := s.counter + 1 } with ⟨cause | first, s₁⟩ <;> rw [hone] at hfirst
  · rw [Effect.bind_of_error hone]
    exact hfirst.sends hfits
  rw [Effect.bind_of_ok hone]
  split_ifs with hstop
  · exact hfirst.sends hfits
  simp only [ne_eq, not_not] at hstop
  obtain ⟨ids, hsame, rfl⟩ := @within_throwIfAborted input session s₁
  rcases habort : throwIfAborted input s₁ with ⟨cause | _, s₂⟩ <;> rw [habort] at hsame
  · rw [Effect.bind_of_error habort]
    have := (hfirst.sends hfits).trans hsame
    rwa [List.append_nil] at this
  rw [Effect.bind_of_ok habort, Effect.bind_of_ok (hcount s₂)]
  have hsecond := @sendsOne_attempt input session instructions rung (s₂.counter + 1)
    { s₂ with counter := s₂.counter + 1 }
  rcases htwo : generateCheckpointAttempt input session instructions rung (s₂.counter + 1)
    { s₂ with counter := s₂.counter + 1 } with ⟨cause | second, s₃⟩ <;> rw [htwo] at hsecond
  · rw [Effect.bind_of_error htwo]
    exact hfirst.retries hfits hstop hsame hsecond
  · rw [Effect.bind_of_ok htwo]
    split_ifs <;> exact hfirst.retries hfits hstop hsame hsecond

theorem within_generateRung {recovered : Bool}
    (hfits : session.fits (checkpointRequest instructions rung.messages) = true) :
    Within session.fits (generateRung input session instructions rung recovered)
      (· = [candidateOf rung.candidate rung.messages]) := by
  unfold generateRung
  refine (within_generateCandidate hfits).bind (Q := (· = [])) (fun settled => ?_) (fun _ h => h) ?_
  · refine Within.after (within_same _ (fun _ => rfl) rfl) (fun sent => within_pure _ rfl) rfl
  · rintro ids ids' rfl rfl
    rfl

end Candidate

/-! ## The ladder -/

section Ladder

variable {input : CompactContextInput} {session : CheckpointSession} {instructions : Option String}

theorem within_orTooLarge {m : LadderM CheckpointResult}
    {handler : Thrown → LadderM CheckpointResult}
    {P Q R : List (CheckpointCandidate × List (String → JsValue)) → Prop}
    (hm : Within session.fits m P) (hhandler : ∀ cause, Within session.fits (handler cause) Q)
    (hP : ∀ ids, P ids → R ids) (hPQ : ∀ ids ids', P ids → Q ids' → R (ids ++ ids')) :
    Within session.fits (orTooLarge m handler) R := by
  unfold orTooLarge
  refine hm.attempt.bind (Q := fun ids => Q ids ∨ ids = []) (fun result => ?_) hP ?_
  · rcases result with cause | result
    · dsimp only
      split_ifs
      · exact (hhandler cause).mono fun _ => .inl
      · exact within_raise _ (.inr rfl)
    · exact within_pure _ (.inr rfl)
  · rintro ids ids' hids (hids' | rfl)
    · exact hPQ ids ids' hids hids'
    · rw [List.append_nil]
      exact hP ids hids

/-- What is deleted from the middle fits. -/
theorem fits_of_deleteUntilFits {messages : List AgentMessage} {closures : List HistoryClosure}
    {fits : List AgentMessage → Bool} {deletionOrder removedIndexes : List ℕ}
    {candidate : List AgentMessage}
    (h : deleteUntilFits messages closures fits deletionOrder removedIndexes = .ok (some candidate)) :
    fits candidate = true := by
  induction deletionOrder generalizing removedIndexes with
  | nil => cases h
  | cons position deletionOrder ih =>
    rw [deleteUntilFits] at h
    obtain ⟨rounds, -, h⟩ := bind_eq_ok.1 h
    split_ifs at h with hfits
    · cases h
      exact hfits
    · exact ih h

theorem fits_of_buildMiddleDeletion {messages : List AgentMessage}
    {fits : List AgentMessage → Bool} {candidate : List AgentMessage}
    (h : buildMiddleDeletionCandidate messages fits = .ok (some candidate)) :
    fits candidate = true := by
  obtain ⟨closures, -, h⟩ := bind_eq_ok.1 h
  exact fits_of_deleteUntilFits h

theorem within_generateHmin {attachmentFreeMessages : List AgentMessage} {overflow : Option Thrown} :
    Within session.fits
      (generateHminCheckpoint input session instructions attachmentFreeMessages overflow)
      fun ids => (ids.map (·.1)).Sublist [.hmin] := by
  unfold generateHminCheckpoint
  refine within_throwIfAborted.after (fun _ => ?_) (by simp)
  rcases buildMinimalGenuineQueryCandidate attachmentFreeMessages with _ | hmin
  · exact within_raise _ (by simp)
  dsimp only
  split_ifs with hfits
  · exact within_raise _ (by simp)
  simp only [Bool.not_eq_true', Bool.not_eq_false] at hfits
  refine within_throwIfAborted.after (fun _ => ?_) (by simp)
  refine within_orTooLarge (within_generateRung hfits)
    (fun cause => within_raise (Q := (· = [])) _ rfl) ?_ ?_
  · rintro ids rfl
    simp [candidateOf]
  · rintro ids ids' rfl rfl
    simp [candidateOf]

theorem ok_of_mapError {α : Type} {r : Except String α} {a : α}
    (h : r.mapError Thrown.other = .ok a) : r = .ok a := by
  cases r <;> cases h
  rfl

theorem within_recoverAfterHvideo {attachmentFreeMessages : List AgentMessage}
    {overflow : Option Thrown} :
    Within session.fits
      (recoverAfterHvideo input session instructions attachmentFreeMessages overflow)
      fun ids => (ids.map (·.1)).Sublist [.hmid, .hmin] := by
  unfold recoverAfterHvideo
  have hmin : ∀ overflow, Within session.fits
      (generateHminCheckpoint input session instructions attachmentFreeMessages overflow)
      fun ids => (ids.map (·.1)).Sublist [.hmin] := fun _ => within_generateHmin
  refine within_ofExcept (fun hmid hbuild => ?_) (by simp)
  rcases hmid with _ | hmid
  · exact (hmin _).mono fun _ h => h.cons _
  refine within_throwIfAborted.after (fun _ => ?_) (by simp)
  have hfits := fits_of_buildMiddleDeletion (ok_of_mapError hbuild)
  refine within_orTooLarge (within_generateRung hfits) (fun cause => hmin _) ?_ ?_
  · rintro ids rfl
    simp [candidateOf]
  · rintro ids ids' rfl h
    exact h.cons_cons _

/-- `hvideo` is sent for Hall without media, unless it is skipped. -/
structure AfterHall (session : CheckpointSession) (instructions : Option String)
    (hallMessages : List AgentMessage) (skipHvideo : Bool)
    (rest ids : List (CheckpointCandidate × List (String → JsValue))) : Prop where
  places : (rest.map (·.1)).Sublist [.hmid, .hmin]
  sent : ids = rest ∨ skipHvideo = false ∧
    0 < (buildAttachmentFreeCandidate hallMessages).replacedBlockCount ∧
    session.fits (checkpointRequest instructions
      (buildAttachmentFreeCandidate hallMessages).messages) = true ∧
    ids = candidateOf .hvideo (buildAttachmentFreeCandidate hallMessages).messages :: rest

theorem within_recoverAfterHall {hallMessages : List AgentMessage} {priorOverflow : Option Thrown}
    {skipHvideo : Bool} :
    Within session.fits
      (recoverAfterHall input session instructions hallMessages priorOverflow skipHvideo)
      fun ids => ∃ rest, AfterHall session instructions hallMessages skipHvideo rest ids := by
  unfold recoverAfterHall
  have hrest : ∀ overflow, Within session.fits (recoverAfterHvideo input session instructions
      (buildAttachmentFreeCandidate hallMessages).messages overflow)
      fun ids => (ids.map (·.1)).Sublist [.hmid, .hmin] := fun _ => within_recoverAfterHvideo
  refine within_throwIfAborted.after (fun _ => ?_) ⟨[], by simp, .inl rfl⟩
  dsimp only
  split_ifs with hsend
  · simp only [Bool.and_eq_true, Bool.not_eq_true', decide_eq_true_eq] at hsend
    obtain ⟨⟨hskip, hmedia⟩, hfits⟩ := hsend
    refine within_throwIfAborted.after (fun _ => ?_) ⟨[], by simp, .inl rfl⟩
    refine within_orTooLarge (within_generateRung hfits) (fun cause => hrest _) ?_ ?_
    · rintro ids rfl
      exact ⟨[], by simp, .inr ⟨hskip, hmedia, hfits, rfl⟩⟩
    · rintro ids ids' rfl h
      exact ⟨ids', h, .inr ⟨hskip, hmedia, hfits, rfl⟩⟩
  · exact (hrest _).mono fun ids h => ⟨ids, h, .inl rfl⟩

/-- Sent after Hall. -/
def Late (id : CheckpointCandidate × List (String → JsValue)) : Prop :=
  id.1 ∈ [CheckpointCandidate.hvideo, .hmid, .hmin]

variable {hallMessages : List AgentMessage} {skipHvideo : Bool}
  {rest ids : List (CheckpointCandidate × List (String → JsValue))}

theorem nodup_of_places (h : (rest.map (·.1)).Sublist [.hmid, .hmin]) :
    rest.Nodup ∧ (∀ id ∈ rest, Late id) ∧ ∀ messages, candidateOf .hvideo messages ∉ rest := by
  have hmem : ∀ id ∈ rest, id.1 ∈ [CheckpointCandidate.hmid, .hmin] := fun id hid =>
    h.subset (List.mem_map_of_mem hid)
  refine ⟨List.Nodup.of_map _ (h.nodup (by decide)), fun id hid => List.mem_cons_of_mem _ (hmem id hid), ?_⟩
  intro messages hid
  have := hmem _ hid
  simp [candidateOf] at this

theorem AfterHall.nodup (h : AfterHall session instructions hallMessages skipHvideo rest ids) :
    ids.Nodup ∧ ∀ id ∈ ids, Late id := by
  obtain ⟨hnodup, hlate, hvideo⟩ := nodup_of_places h.places
  rcases h.sent with rfl | ⟨-, -, -, rfl⟩
  · exact ⟨hnodup, hlate⟩
  · refine ⟨List.nodup_cons.2 ⟨hvideo _, hnodup⟩, fun id hid => ?_⟩
    rcases List.mem_cons.1 hid with rfl | hid
    · exact List.mem_cons_self
    · exact hlate id hid

/-- Hall without media is not the messages. -/
def HallDiffers (session : CheckpointSession) (instructions : Option String)
    (messages hallMessages : List AgentMessage) : Prop :=
  session.fits (checkpointRequest instructions messages) = true →
    0 < (buildAttachmentFreeCandidate hallMessages).replacedBlockCount →
    session.fits (checkpointRequest instructions
      (buildAttachmentFreeCandidate hallMessages).messages) = true →
    messages.map AgentMessage.get ≠
      (buildAttachmentFreeCandidate hallMessages).messages.map AgentMessage.get

theorem within_recoverWithoutMedia {messages : List AgentMessage} {hallIsDistinct : Bool}
    {priorOverflow : Option Thrown}
    (hdiffers : hallIsDistinct = true → HallDiffers session instructions messages hallMessages) :
    Within session.fits (recoverWithoutMedia input session instructions messages hallMessages
      hallIsDistinct priorOverflow) fun ids => ids.Nodup ∧ ∀ id ∈ ids, Late id := by
  unfold recoverWithoutMedia
  split_ifs with hfits
  · refine within_orTooLarge (within_generateRung hfits) (fun next => within_recoverAfterHall) ?_ ?_
    · rintro ids rfl
      exact ⟨List.nodup_singleton _, by simp [Late, candidateOf]⟩
    · rintro ids ids' rfl ⟨rest, hafter⟩
      obtain ⟨hnodup, hlate⟩ := hafter.nodup
      refine ⟨List.nodup_cons.2 ⟨fun hmem => ?_, hnodup⟩, ?_⟩
      · have hvideo := (nodup_of_places hafter.places).2.2 messages
        rcases hafter.sent with rfl | ⟨hskip, hmedia, hfits', rfl⟩
        · exact hvideo hmem
        · rcases List.mem_cons.1 hmem with heq | hmem
          · rw [Bool.not_eq_false'] at hskip
            exact hdiffers hskip hfits hmedia hfits' (Prod.ext_iff.1 heq).2
          · exact hvideo hmem
      · intro id hid
        rcases List.mem_cons.1 hid with rfl | hid
        · exact List.mem_cons_self
        · exact hlate id hid
  · exact within_recoverAfterHall.mono fun ids ⟨rest, hafter⟩ => hafter.nodup

theorem within_recoverAfterMediaRejection {rejectedMessages : List AgentMessage}
    {hallIsDistinct : Bool} {priorOverflow : Option Thrown} {cause : Thrown}
    (hdiffers : hallIsDistinct = true →
      0 < (buildAttachmentFreeCandidate rejectedMessages).replacedBlockCount →
      HallDiffers session instructions (buildAttachmentFreeCandidate rejectedMessages).messages
        hallMessages) :
    Within session.fits (recoverAfterMediaRejection input session instructions rejectedMessages
      hallMessages hallIsDistinct priorOverflow cause)
      fun ids => ids.Nodup ∧ ∀ id ∈ ids, Late id := by
  unfold recoverAfterMediaRejection
  refine within_throwIfAborted.after (fun _ => ?_) (by simp)
  dsimp only
  split_ifs with hmedia
  · exact within_raise _ (by simp)
  refine (within_recoverWithoutMedia fun hdistinct =>
    hdiffers hdistinct (Nat.pos_of_ne_zero hmedia)).attempt.bind (Q := (· = [])) ?_
    (fun _ h => h) ?_
  · rintro (next | result)
    · cases next <;> exact within_raise _ rfl
    · exact within_pure _ rfl
  · rintro ids ids' h rfl
    rwa [List.append_nil]

/-- Of the rungs, or sent after Hall. -/
def OfRungs (rungs : List Rung) (id : CheckpointCandidate × List (String → JsValue)) : Prop :=
  (∃ rung ∈ rungs, id = candidateOf rung.candidate rung.messages) ∨ Late id

theorem within_generateFirst {hall : ToolTrimCandidate} {rungs : List Rung}
    {overflow : Option Thrown} (hplaces : (rungs.map (·.candidate)).Nodup)
    (hearly : ∀ rung ∈ rungs, rung.candidate ∈ [CheckpointCandidate.h0, .htrim, .hall])
    (hdiffers : ∀ rung ∈ rungs, rung.candidate ≠ .hall → 0 < hall.trimmedResultCount →
      session.fits (checkpointRequest instructions rung.messages) = true →
      0 < (buildAttachmentFreeCandidate rung.messages).replacedBlockCount →
      HallDiffers session instructions (buildAttachmentFreeCandidate rung.messages).messages
        hall.messages) :
    Within session.fits (generateFirst input session instructions hall rungs overflow)
      fun ids => ids.Nodup ∧ ∀ id ∈ ids, OfRungs rungs id := by
  induction rungs generalizing overflow with
  | nil =>
    rw [generateFirst]
    exact within_recoverAfterHall.mono fun ids ⟨rest, hafter⟩ =>
      ⟨hafter.nodup.1, fun id hid => .inr (hafter.nodup.2 id hid)⟩
  | cons rung rungs ih =>
    obtain ⟨hplace, hplaces⟩ := List.nodup_cons.1 hplaces
    have hrest : ∀ overflow, Within session.fits
        (generateFirst input session instructions hall rungs overflow)
        fun ids => ids.Nodup ∧ ∀ id ∈ ids, OfRungs rungs id := fun overflow =>
      ih hplaces (fun r hr => hearly r (List.mem_cons_of_mem _ hr))
        fun r hr => hdiffers r (List.mem_cons_of_mem _ hr)
    have hlater : ∀ id, OfRungs rungs id → OfRungs (rung :: rungs) id ∧
        id ≠ candidateOf rung.candidate rung.messages := by
      rintro id (⟨r, hr, rfl⟩ | hlate)
      · refine ⟨.inl ⟨r, List.mem_cons_of_mem _ hr, rfl⟩, fun heq => hplace ?_⟩
        have hsame : r.candidate = rung.candidate := (Prod.ext_iff.1 heq).1
        exact List.mem_map.2 ⟨r, hr, hsame⟩
      · refine ⟨.inr hlate, ?_⟩
        rintro rfl
        have := hearly rung List.mem_cons_self
        simp only [Late, candidateOf, List.mem_cons, List.not_mem_nil, or_false] at hlate this
        rcases hlate with h | h | h <;> rw [h] at this <;> simp at this
    rw [generateFirst]
    refine within_throwIfAborted.after (fun _ => ?_) (by simp)
    split_ifs with hfits
    · exact (hrest _).mono fun ids h => ⟨h.1, fun id hid => (hlater id (h.2 id hid)).1⟩
    simp only [Bool.not_eq_true', Bool.not_eq_false] at hfits
    refine (within_generateRung hfits).attempt.bind
      (Q := fun ids => ids.Nodup ∧ ∀ id ∈ ids, OfRungs rungs id) (fun result => ?_) ?_ ?_
    · have hlate : Within session.fits (recoverAfterMediaRejection input session instructions
          rung.messages hall.messages (0 < hall.trimmedResultCount && rung.candidate ≠ .hall) overflow
          .candidateMediaRejected) fun ids => ids.Nodup ∧ ∀ id ∈ ids, OfRungs rungs id := by
        refine (within_recoverAfterMediaRejection fun hdistinct hmedia => ?_).mono
          fun ids h => ⟨h.1, fun id hid => .inr (h.2 id hid)⟩
        simp only [Bool.and_eq_true, decide_eq_true_eq] at hdistinct
        exact hdiffers rung List.mem_cons_self hdistinct.2 hdistinct.1 hfits hmedia
      have hraise : ∀ e, Within session.fits (Effect.raise e : LadderM CheckpointResult)
          fun ids => ids.Nodup ∧ ∀ id ∈ ids, OfRungs rungs id := fun e => within_raise e (by simp)
      rcases result with cause | result
      · cases cause with
        | candidateMediaRejected => exact hlate
        | candidateTooLarge => exact hrest _
        | _ => exact hraise _
      · exact within_pure _ (by simp)
    · rintro ids rfl
      exact ⟨List.nodup_singleton _, by
        intro id hid
        exact .inl ⟨rung, List.mem_cons_self, List.mem_singleton.1 hid⟩⟩
    · rintro ids ids' rfl ⟨hnodup, hof⟩
      refine ⟨List.nodup_cons.2 ⟨fun hmem => (hlater _ (hof _ hmem)).2 rfl, hnodup⟩, ?_⟩
      intro id hid
      rcases List.mem_cons.1 hid with rfl | hid
      · exact .inl ⟨rung, List.mem_cons_self, rfl⟩
      · exact (hlater id (hof id hid)).1

end Ladder

/-! ## Whole runs -/

section Runs

variable {fits : CheckpointRequestInput → Bool} {history : List AgentMessage}
  {candidate : Option ReductionCandidate} {instructions : Option String}

theorem not_overflowed_of_failed {sent : SentRequest} (h : sent.Failed) : ¬ sent.Overflowed := by
  rintro ⟨reason, hreason⟩
  obtain ⟨generation, hanswer, -⟩ := h
  rw [hanswer] at hreason
  cases hreason

theorem bounded_of_sends {ids : List (CheckpointCandidate × List (String → JsValue))}
    {s : LadderState} (h : Sends fits ids {} s) (hnodup : ids.Nodup) : Bounded fits s := by
  obtain ⟨sent, h⟩ := h
  have hrequests : s.requests = sent := h.requests
  have hagain : ∀ before first between second after,
      s.requests = before ++ first :: (between ++ second :: after) →
      first.sentFor = second.sentFor → between = [] ∧ first.Failed :=
    fun before first between second after hsplit =>
      h.attempts.again hnodup (hrequests ▸ hsplit)
  refine ⟨hrequests ▸ h.fits, hagain, ?_, ?_, ?_⟩
  · intro before first after hsplit hover later hmem hsame
    obtain ⟨between, rest, rfl⟩ := List.append_of_mem hmem
    exact not_overflowed_of_failed (hagain _ _ _ _ _ hsplit hsame.symm).2 hover
  · rw [hrequests]
    exact h.numbers
  · intro candidates hcandidates
    rw [hrequests] at hcandidates ⊢
    exact h.attempts.length_le_of_mem hnodup hcandidates

theorem rungsBeforeHall_places : ((rungsBeforeHall history candidate).map (·.candidate)).Sublist
    [CheckpointCandidate.h0, .htrim] := by
  unfold rungsBeforeHall
  cases candidate.filter _ <;> simp

theorem rungs_places (hall : ToolTrimCandidate) :
    ((rungsBeforeHall history candidate ++ hallRungs hall).map (·.candidate)).Sublist
      [CheckpointCandidate.h0, .htrim, .hall] := by
  rw [List.map_append]
  refine rungsBeforeHall_places.append (?_ : List.Sublist _ [CheckpointCandidate.hall])
  unfold hallRungs
  split_ifs <;> simp

theorem within_generateCheckpoint {input : CompactContextInput} (hhistory : input.history = history)
    (hfits : ∀ session, input.openSession = .ok session → session.fits = fits)
    (hnot : ¬ HallSentAgain history candidate instructions fits) :
    Within fits (generateCheckpoint input candidate instructions) List.Nodup := by
  subst hhistory
  refine within_ofExcept (fun session hopen => ?_) .nil
  obtain rfl := hfits session hopen
  refine within_ofExcept (fun _ _ => ?_) .nil
  refine within_ofExcept (fun hall hhall => ?_) .nil
  have hplaces := @rungs_places input.history candidate hall
  refine (within_generateFirst (hplaces.nodup (by decide))
    (fun rung hrung => hplaces.subset (List.mem_map_of_mem hrung)) ?_).mono fun ids h => h.1
  intro rung hrung hplace htrimmed hfits hmedia hfits' hmedia' hfits'' hsame
  refine hnot ⟨hall, ok_of_mapError hhall, htrimmed, rung, ?_, hfits, hmedia, hfits', hmedia', hfits'',
    hsame⟩
  rcases List.mem_append.1 hrung with hrung | hrung
  · exact hrung
  · unfold hallRungs at hrung
    rw [if_pos htrimmed, List.mem_singleton] at hrung
    exact absurd (congrArg Rung.candidate hrung) hplace

end Runs

/-! ## Hall is sent again -/

section Again

variable {input : CompactContextInput} {session : CheckpointSession} {instructions : Option String}

theorem throwIfAborted_ok (hsignal : ∀ looks, input.aborted looks = false) (s : LadderState) :
    throwIfAborted input s = (.ok (), { s with looks := s.looks + 1 }) := by
  have hlook : lookAtSignal input s = (.ok false, { s with looks := s.looks + 1 }) := by
    rw [lookAtSignal, hsignal]
  unfold throwIfAborted
  rw [Effect.bind_of_ok hlook]
  rfl

/-- A request that throws is the only one for its candidate. -/
theorem generateRung_thrown {rung : Rung} {recovered : Bool} {s : LadderState} {cause : Thrown}
    (hanswer : session.generate s.requests.length = .error cause) :
    ∃ s', generateRung input session instructions rung recovered s = (.error cause, s') ∧
      s'.requests = s.requests ++ [requestFor instructions rung (.error cause)] := by
  have hcount : countAttempt s = (.ok (s.counter + 1), { s with counter := s.counter + 1 }) := rfl
  have hone := @sendsOne_attempt input session instructions rung (s.counter + 1)
    { s with counter := s.counter + 1 }
  rcases heq : generateCheckpointAttempt input session instructions rung (s.counter + 1)
    { s with counter := s.counter + 1 } with ⟨answer, s'⟩
  rw [heq] at hone
  have hthrown : answer = .error cause := hone.answer.trans hanswer
  subst hthrown
  refine ⟨s', ?_, hone.requests⟩
  unfold generateRung generateCandidateWithProviderRetry
  refine Effect.bind_of_error ?_
  rw [Effect.bind_of_ok hcount]
  exact Effect.bind_of_error heq

theorem attempt_of_error {α : Type} {m : LadderM α} {s s' : LadderState} {cause : Thrown}
    (h : m s = (.error cause, s')) : m.attempt s = (.ok (.error cause), s') := by
  unfold Effect.attempt
  rw [h]

/-- Candidates that overflow, or do not fit, are passed over. -/
theorem generateFirst_passes (hsignal : ∀ looks, input.aborted looks = false)
    {hall : ToolTrimCandidate} {rungs : List Rung} {reason : CheckpointCandidateTooLargeReason}
    {before : List Rung} {overflow : Option Thrown} {s : LadderState}
    (hanswers : ∀ n, n < (before.filter fun rung =>
        session.fits (checkpointRequest instructions rung.messages)).length →
      session.generate (s.requests.length + n) = .error (.candidateTooLarge reason)) :
    ∃ overflow' s', generateFirst input session instructions hall (before ++ rungs) overflow s =
        generateFirst input session instructions hall rungs overflow' s' ∧
      s'.requests.length = s.requests.length + (before.filter fun rung =>
        session.fits (checkpointRequest instructions rung.messages)).length := by
  induction before generalizing overflow s with
  | nil => exact ⟨overflow, s, rfl, rfl⟩
  | cons rung before ih =>
    rw [List.cons_append, generateFirst, Effect.bind_of_ok (throwIfAborted_ok hsignal s)]
    by_cases hfits : session.fits (checkpointRequest instructions rung.messages) = true
    · simp only [List.filter_cons, hfits, if_true] at hanswers ⊢
      obtain ⟨s', hrung, hrequests⟩ := @generateRung_thrown input session instructions rung false
        { s with looks := s.looks + 1 } _ (hanswers 0 (by simp))
      have hlength : s'.requests.length = s.requests.length + 1 := by
        rw [hrequests, List.length_append]
        rfl
      rw [if_neg (by simp), Effect.bind_of_ok (attempt_of_error hrung)]
      obtain ⟨overflow', s'', heq, hlength'⟩ := @ih (some (.candidateTooLarge reason)) s' (by
        intro n hn
        rw [hlength, Nat.add_assoc, Nat.add_comm 1]
        exact hanswers (n + 1) (by simpa using hn))
      refine ⟨overflow', s'', heq, ?_⟩
      rw [hlength', hlength, List.length_cons]
      omega
    · simp only [List.filter_cons, hfits, if_false, Bool.false_eq_true] at hanswers ⊢
      rw [if_pos (by simp [hfits])]
      exact @ih overflow { s with looks := s.looks + 1 } hanswers

/-- Where Hall carries media and is not skipped, it is sent without them. -/
theorem recoverAfterHall_sends (hsignal : ∀ looks, input.aborted looks = false)
    {hallMessages : List AgentMessage} {priorOverflow : Option Thrown} {s : LadderState}
    {reason : CheckpointCandidateTooLargeReason}
    (hmedia : 0 < (buildAttachmentFreeCandidate hallMessages).replacedBlockCount)
    (hfits : session.fits (checkpointRequest instructions
      (buildAttachmentFreeCandidate hallMessages).messages) = true)
    (hanswer : session.generate s.requests.length = .error (.candidateTooLarge reason)) :
    ∃ sent, (recoverAfterHall input session instructions hallMessages priorOverflow false
        s).2.requests = s.requests ++
      requestFor instructions ⟨.hvideo, (buildAttachmentFreeCandidate hallMessages).messages⟩
        (.error (.candidateTooLarge reason)) :: sent := by
  unfold recoverAfterHall
  rw [Effect.bind_of_ok (throwIfAborted_ok hsignal s), if_pos (by simp [hmedia, hfits]),
    Effect.bind_of_ok (throwIfAborted_ok hsignal _)]
  obtain ⟨s', hrung, hrequests⟩ := @generateRung_thrown input session instructions
    ⟨.hvideo, (buildAttachmentFreeCandidate hallMessages).messages⟩ false
    { s with looks := s.looks + 1 + 1 } _ hanswer
  unfold orTooLarge
  rw [Effect.bind_of_ok (attempt_of_error hrung)]
  obtain ⟨ids, ⟨sent, h⟩, -⟩ := @within_recoverAfterHvideo input session instructions
    (buildAttachmentFreeCandidate hallMessages).messages (some (.candidateTooLarge reason)) s'
  refine ⟨sent, h.requests.trans ?_⟩
  rw [hrequests, List.append_assoc]
  rfl

/-- Two requests for one candidate, of which the first overflowed. -/
def SendsOverflowedAgain (requests : List SentRequest) : Prop :=
  ∃ before first second after, requests = before ++ first :: second :: after ∧
    first.Overflowed ∧ second.sentFor = first.sentFor

/-- Requests are only added. -/
theorem SendsOverflowedAgain.of_bind (session : CheckpointSession) {α β : Type} {m : LadderM α} {f : α → LadderM β}
    {s : LadderState} {Q : List (CheckpointCandidate × List (String → JsValue)) → Prop}
    (h : SendsOverflowedAgain (m s).2.requests) (hf : ∀ a, Within session.fits (f a) Q) :
    SendsOverflowedAgain ((m >>= f) s).2.requests := by
  rcases hm : m s with ⟨e | a, s'⟩ <;> rw [hm] at h
  · rwa [Effect.bind_of_error hm]
  · rw [Effect.bind_of_ok hm]
    obtain ⟨ids, ⟨sent, hsends⟩, -⟩ := hf a s'
    obtain ⟨before, first, second, after, heq, hoverflowed, hsame⟩ := h
    refine ⟨before, first, second, after ++ sent, ?_, hoverflowed, hsame⟩
    rw [hsends.requests, heq, List.append_assoc, List.cons_append, List.cons_append]

theorem recoverWithoutMedia_sends (hsignal : ∀ looks, input.aborted looks = false)
    {messages hallMessages : List AgentMessage} {priorOverflow : Option Thrown} {s : LadderState}
    {reason : CheckpointCandidateTooLargeReason}
    (hanswers : ∀ n, s.requests.length ≤ n →
      session.generate n = .error (.candidateTooLarge reason))
    (hfits : session.fits (checkpointRequest instructions messages) = true)
    (hmedia : 0 < (buildAttachmentFreeCandidate hallMessages).replacedBlockCount)
    (hfits' : session.fits (checkpointRequest instructions
      (buildAttachmentFreeCandidate hallMessages).messages) = true)
    (hsame : messages.map AgentMessage.get =
      (buildAttachmentFreeCandidate hallMessages).messages.map AgentMessage.get) :
    SendsOverflowedAgain (recoverWithoutMedia input session instructions messages hallMessages true
      priorOverflow s).2.requests := by
  unfold recoverWithoutMedia
  rw [if_pos hfits]
  obtain ⟨s', hrung, hrequests⟩ := @generateRung_thrown input session instructions
    ⟨.hvideo, messages⟩ false s _ (hanswers _ (Nat.le_refl _))
  have hlength : s.requests.length ≤ s'.requests.length := by
    rw [hrequests, List.length_append]
    omega
  obtain ⟨sent, hsent⟩ := @recoverAfterHall_sends input session instructions hsignal hallMessages
    (some (.candidateTooLarge reason)) s' reason hmedia hfits' (hanswers _ hlength)
  unfold orTooLarge
  rw [Effect.bind_of_ok (attempt_of_error hrung)]
  have htwo : ∀ second : SentRequest, s'.requests ++ second :: sent = s.requests ++
      requestFor instructions ⟨.hvideo, messages⟩ (.error (.candidateTooLarge reason)) ::
        second :: sent := by
    intro second
    rw [hrequests, List.append_assoc]
    rfl
  exact ⟨s.requests, _, _, sent, hsent.trans (htwo _), ⟨reason, rfl⟩,
    congrArg (CheckpointCandidate.hvideo, ·) hsame.symm⟩

theorem recoverAfterMediaRejection_sends (hsignal : ∀ looks, input.aborted looks = false)
    {rejectedMessages hallMessages : List AgentMessage} {priorOverflow : Option Thrown}
    {cause : Thrown} {s : LadderState} {reason : CheckpointCandidateTooLargeReason}
    (hanswers : ∀ n, s.requests.length ≤ n →
      session.generate n = .error (.candidateTooLarge reason))
    (hmedia : 0 < (buildAttachmentFreeCandidate rejectedMessages).replacedBlockCount)
    (hfits : session.fits (checkpointRequest instructions
      (buildAttachmentFreeCandidate rejectedMessages).messages) = true)
    (hmedia' : 0 < (buildAttachmentFreeCandidate hallMessages).replacedBlockCount)
    (hfits' : session.fits (checkpointRequest instructions
      (buildAttachmentFreeCandidate hallMessages).messages) = true)
    (hsame : (buildAttachmentFreeCandidate rejectedMessages).messages.map AgentMessage.get =
      (buildAttachmentFreeCandidate hallMessages).messages.map AgentMessage.get) :
    SendsOverflowedAgain (recoverAfterMediaRejection input session instructions rejectedMessages
      hallMessages true priorOverflow cause s).2.requests := by
  unfold recoverAfterMediaRejection
  rw [Effect.bind_of_ok (throwIfAborted_ok hsignal s), if_neg (Nat.pos_iff_ne_zero.1 hmedia)]
  refine SendsOverflowedAgain.of_bind session (Q := (· = []))
    (recoverWithoutMedia_sends hsignal hanswers hfits hmedia' hfits' hsame) ?_
  rintro (next | result)
  · cases next <;> exact within_raise _ rfl
  · exact within_pure _ rfl

/-- The provider that refuses one request for its media and finds every other too large. -/
def refusingAt (n : ℕ) (fits : CheckpointRequestInput → Bool) : CheckpointSession where
  maxOutputTokens := .finite 0
  fits
  generate sent :=
    if sent = n then .error .candidateMediaRejected
    else .error (.candidateTooLarge .inputOverflow)

/-- The history is compacted with a session that is never aborted. -/
def compacting (history : List AgentMessage) (session : CheckpointSession) : CompactContextInput where
  history
  openSession := .ok session
  getTokenUsage _ := none
  aborted _ := false

theorem validate_zero : validateNonNegativeSafeInteger (.finite 0) "maxOutputTokens" = .ok () := by
  unfold validateNonNegativeSafeInteger
  exact if_pos (by decide +kernel)

theorem sends_overflowed_again {history : List AgentMessage} {candidate : Option ReductionCandidate}
    {fits : CheckpointRequestInput → Bool}
    (h : HallSentAgain history candidate instructions fits) :
    ∃ n, SendsOverflowedAgain (generateCheckpoint (compacting history (refusingAt n fits)) candidate
      instructions {}).2.requests := by
  obtain ⟨hall, hhall, htrimmed, rejected, hmem, hfits, hmedia, hfits', hmedia', hfits'', hsame⟩ := h
  obtain ⟨before, after, hsplit⟩ := List.append_of_mem hmem
  generalize hn : (before.filter fun rung =>
    fits (checkpointRequest instructions rung.messages)).length = n
  refine ⟨n, ?_⟩
  have hsignal : ∀ looks, (compacting history (refusingAt n fits)).aborted looks = false :=
    fun _ => rfl
  have hplace : rejected.candidate ≠ .hall := by
    have := rungsBeforeHall_places.subset (List.mem_map_of_mem hmem)
    intro heq
    simp [heq] at this
  have hrun : generateCheckpoint (compacting history (refusingAt n fits)) candidate instructions {} =
      generateFirst (compacting history (refusingAt n fits)) (refusingAt n fits) instructions hall
        (rungsBeforeHall history candidate ++ hallRungs hall) none {} := by
    unfold generateCheckpoint
    have hopen : Effect.ofExcept (compacting history (refusingAt n fits)).openSession
        ({} : LadderState) = (.ok (refusingAt n fits), {}) := rfl
    have hvalid : Effect.ofExcept (validateNonNegativeSafeInteger
        (refusingAt n fits).maxOutputTokens "maxOutputTokens") ({} : LadderState) = (.ok (), {}) := by
      rw [refusingAt, validate_zero]
      rfl
    have hbuild : Effect.ofExcept ((buildHall history candidate).mapError Thrown.other)
        ({} : LadderState) = (.ok hall, {}) := by
      rw [hhall]
      rfl
    rw [Effect.bind_of_ok hopen, Effect.bind_of_ok hvalid]
    exact Effect.bind_of_ok hbuild
  rw [hrun, hsplit, List.append_assoc, List.cons_append]
  have hearlier : ∀ k, k < n → (refusingAt n fits).generate (0 + k) =
      .error (.candidateTooLarge .inputOverflow) := by
    intro k hk
    rw [Nat.zero_add]
    exact if_neg (Nat.ne_of_lt hk)
  obtain ⟨overflow, s, hpass, hlength⟩ := @generateFirst_passes
    (compacting history (refusingAt n fits)) (refusingAt n fits) instructions hsignal hall
    (rejected :: (after ++ hallRungs hall)) .inputOverflow before none {}
    fun k hk => hearlier k (Nat.lt_of_lt_of_eq hk hn)
  have hsent : s.requests.length = n := (hlength.trans (Nat.zero_add _)).trans hn
  rw [hpass, generateFirst, Effect.bind_of_ok (throwIfAborted_ok hsignal s)]
  obtain ⟨s', hrung, hrequests⟩ := @generateRung_thrown (compacting history (refusingAt n fits))
    (refusingAt n fits) instructions rejected false { s with looks := s.looks + 1 }
    .candidateMediaRejected (if_pos hsent)
  have hlater : ∀ k, s'.requests.length ≤ k → (refusingAt n fits).generate k =
      .error (.candidateTooLarge .inputOverflow) := by
    intro k hk
    rw [hrequests, List.length_append] at hk
    have : s.requests.length + 1 ≤ k := hk
    exact if_neg (by omega)
  have hdistinct : (0 < hall.trimmedResultCount && rejected.candidate ≠ .hall) = true := by
    simp [htrimmed, hplace]
  have hagain := @recoverAfterMediaRejection_sends (compacting history (refusingAt n fits))
    (refusingAt n fits) instructions hsignal rejected.messages hall.messages overflow
    .candidateMediaRejected s' .inputOverflow hlater hmedia hfits' hmedia' hfits'' hsame
  rw [if_neg (by simp [refusingAt, hfits]), Effect.bind_of_ok (attempt_of_error hrung)]
  dsimp only
  rw [hdistinct]
  exact hagain

/-- What overflowed is sent again, so the requests are not bounded as promised. -/
theorem SendsOverflowedAgain.not_bounded {fits : CheckpointRequestInput → Bool} {s : LadderState}
    (h : SendsOverflowedAgain s.requests) : ¬ Bounded fits s := by
  intro hbounded
  obtain ⟨before, first, second, after, heq, hoverflowed, hsame⟩ := h
  exact hbounded.overflowed before first (second :: after) heq hoverflowed second
    List.mem_cons_self hsame

/-- For a history, a candidate and what fits, whatever the provider answers and whenever the signal
is aborted: the requests of a checkpoint are bounded unless Hall without media was sent before. -/
theorem checkpoint_bounded_iff (history : List AgentMessage) (candidate : Option ReductionCandidate)
    (instructions : Option String) (fits : CheckpointRequestInput → Bool) :
    (∀ input : CompactContextInput, input.history = history →
      (∀ session, input.openSession = .ok session → session.fits = fits) →
      Bounded fits (generateCheckpoint input candidate instructions {}).2) ↔
    ¬ HallSentAgain history candidate instructions fits := by
  constructor
  · intro hbounded hagain
    obtain ⟨n, hsends⟩ := sends_overflowed_again hagain
    refine hsends.not_bounded (hbounded (compacting history (refusingAt n fits)) rfl ?_)
    rintro session ⟨⟩
    rfl
  · intro hnot input hhistory hfits
    obtain ⟨ids, hsends, hnodup⟩ := within_generateCheckpoint hhistory hfits hnot {}
    exact bounded_of_sends hsends hnodup

def imageBlock : JsValue :=
  .object [("type", .string "image"), ("data", .string "aGk="), ("mimeType", .string "image/png")]

/-- An image of the user's, and a tool result of which only an image is left. -/
def imageHistory : List AgentMessage :=
  [⟨[("role", .string "user"), ("content", .array [imageBlock])]⟩,
    ⟨[("role", .string "assistant"), ("content", .array [.object [("type", .string "toolCall"),
      ("id", .string "c1"), ("name", .string "read"), ("arguments", .object [])]])]⟩,
    ⟨[("role", .string "toolResult"), ("toolCallId", .string "c1"), ("toolName", .string "read"),
      ("content", .array [textBlock TOOL_RESULT_REMOVED_TEXT, imageBlock]),
      ("isError", .boolean false)]⟩]

/-- The history is refused for its media, then without them it overflows, and is sent again. -/
theorem attachment_free_sent_twice :
    ¬ Bounded (fun _ => true)
      (generateCheckpoint (compacting imageHistory (refusingAt 0 fun _ => true)) none none {}).2 :=
  SendsOverflowedAgain.not_bounded ⟨[_], _, _, [_], rfl, ⟨_, rfl⟩, rfl⟩

end Again

end CompactContext

end Kinetick
