import Kinetick.Proofs.JsonlAppend
import Kinetick.Turn.Continuation
import Mathlib.Data.List.Induction

/-!
# A Turn is continued once

A continuation leaves out the last attempt only. So a history in which two attempts stand one behind
the other, with nothing but read settlements between, is continued with a transcript that ends in the
first of them; any other history is continued as promised. Two attempts stand so as soon as a
continuation that tries one again is interrupted at its first response.
-/

namespace Kinetick

namespace CanonicalHistory

open HistorySequence (tolerantAssistantToolCallIds nonEmptyString)

open Jsonl (NumberFormat)

variable {format : NumberFormat} {messages xs : List AgentMessage} {message : AgentMessage}

/-! ## Roles -/

theorem isText_unique {v : JsValue} {a b : String} (h : v.isText a = true) (hab : a ≠ b) :
    v.isText b = false := by
  cases v <;> simp_all [JsValue.isText]

theorem hasRole_unique {a b : String} (h : message.hasRole a = true) (hab : a ≠ b) :
    message.hasRole b = false :=
  isText_unique h hab

theorem settlement_role (h : isBackgroundTaskReadSettlement message = true) :
    message.hasRole "custom" = true := by
  simp only [isBackgroundTaskReadSettlement, Bool.and_eq_true] at h
  exact h.1.1.2.1.1.1.1

theorem settlement_not_role {a : String} (ha : "custom" ≠ a)
    (h : isBackgroundTaskReadSettlement message = true) : message.hasRole a = false :=
  hasRole_unique (settlement_role h) ha

/-! ## The tail of a history -/

theorem tailBefore_append {n : ℕ} (hn : n ≤ messages.length) :
    tailBefore (messages ++ xs) n = tailBefore messages n := by
  induction n with
  | zero => rfl
  | succ n ih =>
    unfold tailBefore
    rw [List.getElem?_append_left (by omega), ih (by omega)]

theorem continuationTail_concat : continuationTail (messages ++ [message]) =
    if isBackgroundTaskReadSettlement message then continuationTail messages
    else some (messages.length, message) := by
  unfold continuationTail
  rw [List.length_append, List.length_singleton]
  conv_lhs => unfold tailBefore
  rw [List.getElem?_append_right (Nat.le_refl _), Nat.sub_self, tailBefore_append (Nat.le_refl _)]
  rfl

theorem continuationTail_append_settlements
    (h : ∀ x ∈ xs, isBackgroundTaskReadSettlement x = true) :
    continuationTail (messages ++ xs) = continuationTail messages := by
  induction xs using List.reverseRecOn with
  | nil => rw [List.append_nil]
  | append_singleton xs x ih =>
    rw [← List.append_assoc, continuationTail_concat, if_pos (h x (by simp)),
      ih fun y hy => h y (by simp [hy])]

/-- The tail is followed by nothing but read settlements. -/
theorem continuationTail_split {index : ℕ} (h : continuationTail messages = some (index, message)) :
    isBackgroundTaskReadSettlement message = false ∧ ∃ before after,
      messages = before ++ message :: after ∧ index = before.length ∧
        ∀ x ∈ after, isBackgroundTaskReadSettlement x = true := by
  induction messages using List.reverseRecOn with
  | nil => cases h
  | append_singleton messages last ih =>
    rw [continuationTail_concat] at h
    split_ifs at h with hlast
    · obtain ⟨hmessage, before, after, rfl, hindex, hafter⟩ := ih h
      refine ⟨hmessage, before, after ++ [last], by simp, hindex, fun x hx => ?_⟩
      rcases List.mem_append.1 hx with hx | hx
      · exact hafter x hx
      · rwa [List.mem_singleton.1 hx]
    · cases h
      exact ⟨Bool.not_eq_true _ ▸ hlast, messages, [], rfl, rfl, by simp⟩

theorem continuationTail_of_split {before after : List AgentMessage}
    (hmessage : isBackgroundTaskReadSettlement message = false)
    (hafter : ∀ x ∈ after, isBackgroundTaskReadSettlement x = true) :
    continuationTail (before ++ message :: after) = some (before.length, message) := by
  rw [List.append_cons, continuationTail_append_settlements hafter, continuationTail_concat,
    if_neg (by simp [hmessage])]

theorem tailResponds_append_settlements
    (h : ∀ x ∈ xs, isBackgroundTaskReadSettlement x = true) :
    TailResponds (messages ++ xs) ↔ TailResponds messages := by
  unfold TailResponds
  rw [continuationTail_append_settlements h]

/-! ## Two attempts -/

/-- Two assistant's messages end the history, and the last was not ended with `stop`. -/
def AttemptedTwice (messages : List AgentMessage) : Prop :=
  ∃ before attempt after, messages = before ++ attempt :: after ∧
    attempt.hasRole "assistant" = true ∧ (attempt.get "stopReason").isText "stop" = false ∧
    (∀ x ∈ after, isBackgroundTaskReadSettlement x = true) ∧ TailResponds before

theorem attempt_not_settlement (h : message.hasRole "assistant" = true) :
    isBackgroundTaskReadSettlement message = false := by
  by_contra hsettlement
  have hcustom := settlement_role (Bool.not_eq_false _ ▸ hsettlement)
  rw [hasRole_unique h (by decide)] at hcustom
  cases hcustom

/-- One more message makes two attempts of a history if it is an attempt behind another. -/
theorem attemptedTwice_concat (h : ¬ AttemptedTwice messages) :
    AttemptedTwice (messages ++ [message]) ↔ message.hasRole "assistant" = true ∧
      (message.get "stopReason").isText "stop" = false ∧ TailResponds messages := by
  constructor
  · rintro ⟨before, attempt, after, heq, hrole, hstop, hafter, htail⟩
    rcases List.eq_nil_or_concat after with rfl | ⟨after', last, rfl⟩
    · obtain ⟨rfl, hlast⟩ := List.append_inj' heq rfl
      cases hlast
      exact ⟨hrole, hstop, htail⟩
    · rw [List.concat_eq_append, ← List.cons_append, ← List.append_assoc] at heq
      obtain ⟨rfl, -⟩ := List.append_inj' heq rfl
      refine absurd ⟨before, attempt, after', rfl, hrole, hstop, fun x hx => hafter x ?_, htail⟩ h
      simp [hx]
  · rintro ⟨hrole, hstop, htail⟩
    exact ⟨messages, message, [], rfl, hrole, hstop, by simp, htail⟩

/-! ## What a continuation is given -/

/-- A Session as Turns build it. -/
structure Built (format : NumberFormat) (s : ContinuedSession) : Prop where
  revision : jsTrim s.snapshot.revision ≠ ""
  canonical : ∀ m ∈ s.snapshot.messages, isCanonicalMessage format m = true
  aligned : ∀ ids, s.snapshot.identityVector = some ids → ids.length = s.snapshot.messages.length
  called : ResultsCalled s.snapshot.messages
  transcript : ∀ transcript, s.transcript = some transcript →
    ∀ m ∈ transcript, m ∈ s.snapshot.messages

variable {s : ContinuedSession}

theorem Built.inspects (h : Built format s) : inspectContinuationHistory format s.snapshot.messages =
    .ok (tailState ((continuationTail s.snapshot.messages).map Prod.snd)) := by
  have hall : s.snapshot.messages.all (isCanonicalMessage format) = true :=
    List.all_eq_true.2 h.canonical
  unfold inspectContinuationHistory validateCanonicalHistoryMessages
  rw [if_pos hall]
  rfl

theorem Built.runs (h : Built format s)
    (havailable : inspectContinuationHistory format s.snapshot.messages = .ok .available) :
    continuationRunnerHistory format s.snapshot = .ok (withoutAttempt s.snapshot) := by
  have hall : s.snapshot.messages.all (isCanonicalMessage format) = true :=
    List.all_eq_true.2 h.canonical
  unfold continuationRunnerHistory validateCanonicalHistorySnapshot validateCanonicalHistoryMessages
  rw [if_neg h.revision, if_pos hall, havailable]
  rfl

/-- The calls stay where the last attempt goes: no result is behind it. -/
theorem resultsCalled_without {before attempt after} (h : ResultsCalled (before ++ attempt :: after))
    (hafter : ∀ x ∈ after, isBackgroundTaskReadSettlement x = true) :
    ResultsCalled (before ++ after) := by
  intro n result hn hresult
  rcases Nat.lt_or_ge n before.length with hlt | hge
  · rw [List.getElem?_append_left hlt] at hn
    obtain ⟨m, hm, call, hcall, hid⟩ := h n result (by rwa [List.getElem?_append_left hlt]) hresult
    have hmlt := Nat.lt_trans hm hlt
    rw [List.getElem?_append_left hmlt] at hcall
    exact ⟨m, hm, call, by rwa [List.getElem?_append_left hmlt], hid⟩
  · rw [List.getElem?_append_right hge] at hn
    rw [settlement_not_role (by decide) (hafter result (List.mem_of_getElem? hn))] at hresult
    cases hresult

theorem eraseIdx_split {α : Type} (before after : List α) (x : α) :
    withoutIndex before.length (before ++ x :: after) = before ++ after := by
  unfold withoutIndex
  rw [List.eraseIdx_append_of_length_le (Nat.le_refl _), Nat.sub_self]
  rfl

/-- A history with an attempt at its end is continued without it. -/
theorem withoutAttempt_attempt {before attempt after}
    (hmessages : s.snapshot.messages = before ++ attempt :: after)
    (hrole : attempt.hasRole "assistant" = true)
    (hafter : ∀ x ∈ after, isBackgroundTaskReadSettlement x = true) :
    withoutAttempt s.snapshot = { s.snapshot with
      messages := before ++ after
      identityVector := s.snapshot.identityVector.map (withoutIndex before.length) } := by
  unfold withoutAttempt
  rw [hmessages, continuationTail_of_split (attempt_not_settlement hrole) hafter]
  dsimp only
  rw [hrole, Bool.not_true, if_neg (by simp), eraseIdx_split]

/-- The tail of an available history that ends in an assistant's message is an attempt. -/
theorem available_attempt {index : ℕ} (htail : continuationTail messages = some (index, message))
    (hrole : message.hasRole "assistant" = true)
    (h : tailState ((continuationTail messages).map Prod.snd) = .available) :
    (message.get "stopReason").isText "stop" = false := by
  rw [htail] at h
  simp only [Option.map_some, tailState, hasRole_unique hrole (show "assistant" ≠ "compactionSummary"
    by decide), hasRole_unique hrole (show "assistant" ≠ "toolResult" by decide), hrole] at h
  by_contra hstop
  rw [Bool.not_eq_false] at hstop
  simp [hstop] at h

theorem attempt_available {index : ℕ} (htail : continuationTail messages = some (index, message))
    (hrole : message.hasRole "assistant" = true)
    (hstop : (message.get "stopReason").isText "stop" = false) :
    tailState ((continuationTail messages).map Prod.snd) = .available := by
  rw [htail]
  simp [tailState, hasRole_unique hrole (show "assistant" ≠ "compactionSummary" by decide),
    hasRole_unique hrole (show "assistant" ≠ "toolResult" by decide), hrole, hstop]

/-- What Turns build is continued as promised, unless it ends in two attempts. -/
theorem continuable_iff (h : Built format s) :
    Continuable format s ↔ ¬ AttemptedTwice s.snapshot.messages := by
  constructor
  · rintro hcontinuable ⟨before, attempt, after, hmessages, hrole, hstop, hafter, htail⟩
    have hindex : continuationTail s.snapshot.messages = some (before.length, attempt) := by
      rw [hmessages]
      exact continuationTail_of_split (attempt_not_settlement hrole) hafter
    have havailable : inspectContinuationHistory format s.snapshot.messages = .ok .available := by
      rw [h.inspects, attempt_available hindex hrole hstop]
    obtain ⟨runner, hrunner, hwith⟩ := hcontinuable havailable
    rw [h.runs havailable, withoutAttempt_attempt hmessages hrole hafter] at hrunner
    obtain rfl := Except.ok.inj hrunner
    exact hwith.tail ((tailResponds_append_settlements hafter).2 htail)
  · intro honce havailable
    refine ⟨_, h.runs havailable, ?_⟩
    rw [h.inspects] at havailable
    have hstate := Except.ok.inj havailable
    rcases htail : continuationTail s.snapshot.messages with _ | ⟨index, last⟩
    · rw [htail] at hstate
      cases hstate
    by_cases hrole : last.hasRole "assistant" = true
    · have hstop := available_attempt htail hrole hstate
      obtain ⟨-, before, after, hmessages, -, hafter⟩ := continuationTail_split htail
      rw [withoutAttempt_attempt hmessages hrole hafter]
      refine ⟨fun hresponds => honce ⟨before, last, after, hmessages, hrole, hstop, hafter,
        (tailResponds_append_settlements hafter).1 hresponds⟩, .inr ⟨before, last, after, hmessages,
        hrole, hafter, rfl, rfl, rfl⟩, fun ids hids => ?_,
        resultsCalled_without (hmessages ▸ h.called) hafter⟩
      obtain ⟨all, hall, rfl⟩ := Option.map_eq_some_iff.1 hids
      have hlength := h.aligned all hall
      rw [hmessages] at hlength
      simp only [List.length_append, List.length_cons] at hlength ⊢
      unfold withoutIndex
      rw [List.length_eraseIdx_of_lt (by omega)]
      omega
    · have hsame : withoutAttempt s.snapshot = s.snapshot := by
        unfold withoutAttempt
        rw [htail]
        dsimp only
        rw [if_pos (by simp [hrole])]
      rw [hsame]
      refine ⟨?_, .inl rfl, h.aligned, h.called⟩
      rintro ⟨i, m, hm, hrole'⟩
      rw [htail] at hm
      cases hm
      exact hrole hrole'

/-! ## What one step builds -/

theorem canonical_recorded (h : Built format s) {r : Recording} (hr : recordable format r = true) :
    jsTrim r.revision ≠ "" ∧ ∀ m ∈ (recorded s.snapshot r).messages,
      isCanonicalMessage format m = true := by
  unfold recordable at hr
  rw [Bool.and_eq_true, decide_eq_true_eq] at hr
  refine ⟨hr.2, fun m hm => ?_⟩
  rcases List.mem_append.1 hm with hm | hm
  · exact h.canonical m hm
  · rw [List.mem_singleton.1 hm]
    exact hr.1

theorem aligned_recorded (h : Built format s) (r : Recording) (ids : List String)
    (hids : (recorded s.snapshot r).identityVector = some ids) :
    ids.length = (recorded s.snapshot r).messages.length := by
  obtain ⟨all, hall, rfl⟩ := Option.map_eq_some_iff.1 hids
  unfold recorded
  simp [h.aligned all hall]

/-- The results of a longer history have their calls, if the last has if it is one. -/
theorem resultsCalled_concat (h : ResultsCalled messages)
    (hlast : message.hasRole "toolResult" = true → ∃ call ∈ messages, ∃ id,
      nonEmptyString (message.get "toolCallId") = some id ∧
        id ∈ tolerantAssistantToolCallIds call) : ResultsCalled (messages ++ [message]) := by
  intro n result hn hresult
  rcases Nat.lt_or_ge n messages.length with hlt | hge
  · rw [List.getElem?_append_left hlt] at hn
    obtain ⟨m, hm, call, hcall, hid⟩ := h n result hn hresult
    exact ⟨m, hm, call, by rwa [List.getElem?_append_left (Nat.lt_trans hm hlt)], hid⟩
  · rw [List.getElem?_append_right hge, List.getElem?_singleton] at hn
    split_ifs at hn with hn'
    obtain rfl := Option.some.inj hn
    obtain ⟨call, hcall, hid⟩ := hlast hresult
    obtain ⟨m, hm, rfl⟩ := List.getElem_of_mem hcall
    exact ⟨m, by omega, messages[m], by
      rw [List.getElem?_append_left hm, List.getElem?_eq_getElem hm], hid⟩

theorem mem_of_lastCalls {id : String} (h : id ∈ lastCalls messages) :
    ∃ call ∈ messages, id ∈ tolerantAssistantToolCallIds call := by
  induction messages with
  | nil => cases h
  | cons message messages ih =>
    unfold lastCalls at h
    split_ifs at h
    · obtain ⟨call, hcall, hid⟩ := ih h
      exact ⟨call, List.mem_cons_of_mem _ hcall, hid⟩
    · exact ⟨message, List.mem_cons_self, h⟩

theorem Built.record (h : Built format s) {r : Recording} (hr : recordable format r = true)
    (hlast : r.message.hasRole "toolResult" = true → ∃ call ∈ s.snapshot.messages, ∃ id,
      nonEmptyString (r.message.get "toolCallId") = some id ∧
        id ∈ tolerantAssistantToolCallIds call) : Built format (s.record r) := by
  obtain ⟨hrevision, hcanonical⟩ := canonical_recorded h hr
  refine ⟨hrevision, hcanonical, aligned_recorded h r, resultsCalled_concat h.called hlast,
    fun transcript htranscript m hm => ?_⟩
  obtain ⟨before, hbefore, rfl⟩ := Option.map_eq_some_iff.1 htranscript
  rcases List.mem_append.1 hm with hm | hm
  · exact List.mem_append_left _ (h.transcript before hbefore m hm)
  · exact List.mem_append_right _ hm

theorem mem_withoutAttempt (snapshot : CanonicalHistorySnapshot) {m : AgentMessage}
    (h : m ∈ (withoutAttempt snapshot).messages) : m ∈ snapshot.messages := by
  unfold withoutAttempt at h
  split at h
  · exact h
  · split_ifs at h
    · exact h
    · exact List.mem_of_mem_eraseIdx h

theorem Built.resume (h : Built format s) : Built format (s.resume format) := by
  unfold ContinuedSession.resume
  split
  case h_2 => exact h
  case h_1 runner hrunner =>
    split_ifs
    · refine ⟨h.revision, h.canonical, h.aligned, h.called, fun transcript htranscript m hm => ?_⟩
      obtain rfl := Option.some.inj htranscript
      have havailable : inspectContinuationHistory format s.snapshot.messages = .ok .available := by
        by_contra hstate
        rw [h.inspects] at hstate
        have hall : s.snapshot.messages.all (isCanonicalMessage format) = true :=
          List.all_eq_true.2 h.canonical
        unfold continuationRunnerHistory validateCanonicalHistorySnapshot
          validateCanonicalHistoryMessages at hrunner
        rw [if_neg h.revision, if_pos hall, h.inspects] at hrunner
        dsimp only [Except.bind, bind] at hrunner
        rw [if_pos fun heq => hstate (by rw [heq])] at hrunner
        cases hrunner
      rw [h.runs havailable] at hrunner
      obtain rfl := Except.ok.inj hrunner
      exact mem_withoutAttempt _ hm
    · exact h

theorem Built.next (h : Built format s) {e : ContinuationEvent} (he : enabled format s e = true) :
    Built format (s.next format e) := by
  cases e with
  | prompt r =>
    simp only [enabled, Bool.and_eq_true] at he
    obtain ⟨hrevision, hcanonical⟩ := canonical_recorded h he.1.2
    refine ⟨hrevision, hcanonical, aligned_recorded h r, resultsCalled_concat h.called fun hresult =>
      ?_, fun transcript htranscript m hm => ?_⟩
    · rw [hasRole_unique he.2 (by decide)] at hresult
      cases hresult
    · obtain rfl := Option.some.inj htranscript
      exact hm
  | resume => exact h.resume
  | respond r =>
    simp only [enabled, Bool.and_eq_true] at he
    refine h.record he.1.2 fun hresult => ?_
    rw [hasRole_unique he.2 (by decide)] at hresult
    cases hresult
  | answer r =>
    simp only [enabled, Bool.and_eq_true, Option.any_eq_true] at he
    obtain ⟨⟨⟨transcript, htranscript, id, hid, hcalls⟩, hr⟩, -⟩ := he
    refine h.record hr fun _ => ?_
    obtain ⟨call, hcall, hmem⟩ := mem_of_lastCalls (of_decide_eq_true hcalls)
    exact ⟨call, h.transcript transcript htranscript call hcall, id, hid, hmem⟩
  | note r =>
    simp only [enabled, Bool.and_eq_true, Bool.not_eq_true'] at he
    refine h.record he.1.1 fun hresult => ?_
    rw [he.2] at hresult
    cases hresult
  | finish =>
    exact ⟨h.revision, h.canonical, h.aligned, h.called, fun transcript htranscript => by
      cases htranscript⟩

/-- A step leads to two attempts if it is an attempt behind another. -/
theorem attemptedTwice_next {e : ContinuationEvent} (he : enabled format s e = true)
    (honce : ¬ AttemptedTwice s.snapshot.messages) :
    ¬ AttemptedTwice (s.next format e).snapshot.messages ↔ AttemptsOnce s e := by
  have hnone : ∀ r : Recording, r.message.hasRole "assistant" = false →
      ¬ AttemptedTwice (s.snapshot.messages ++ [r.message]) := by
    intro r hrole htwice
    rw [attemptedTwice_concat honce, hrole] at htwice
    exact Bool.false_ne_true htwice.1
  cases e with
  | prompt r =>
    simp only [enabled, Bool.and_eq_true] at he
    exact iff_of_true (hnone r (hasRole_unique he.2 (by decide))) fun _ h => by cases h
  | resume =>
    refine iff_of_true ?_ fun _ h => by cases h
    simp only [ContinuedSession.next, ContinuedSession.resume]
    split
    · split_ifs <;> exact honce
    · exact honce
  | respond r =>
    simp only [enabled, Bool.and_eq_true] at he
    show ¬ AttemptedTwice (s.snapshot.messages ++ [r.message]) ↔ _
    rw [attemptedTwice_concat honce]
    constructor
    · intro hnot r' heq htail
      cases heq
      by_contra hstop
      exact hnot ⟨he.2, Bool.not_eq_true _ ▸ hstop, htail⟩
    · rintro hattempts ⟨-, hstop, htail⟩
      rw [hattempts r rfl htail] at hstop
      cases hstop
  | answer r =>
    simp only [enabled, Bool.and_eq_true] at he
    exact iff_of_true (hnone r (hasRole_unique he.2 (by decide))) fun _ h => by cases h
  | note r =>
    simp only [enabled, Bool.and_eq_true, Bool.not_eq_true'] at he
    exact iff_of_true (hnone r he.1.2) fun _ h => by cases h
  | finish => exact iff_of_true honce fun _ h => by cases h

/-! ## Runs -/

theorem Built.empty {revision : String} (identified : Bool) (h : jsTrim revision ≠ "") :
    Built format (emptySession revision identified) where
  revision := h
  canonical m hm := by cases hm
  aligned ids hids := by
    unfold emptySession at hids
    dsimp only at hids
    split_ifs at hids
    obtain rfl := Option.some.inj hids
    rfl
  called n result hn := by
    unfold emptySession at hn
    simp at hn
  transcript transcript htranscript := by cases htranscript

/-- What Turns build from a history without two attempts at its end can be continued at every point, if
and only if no attempt stands behind another. -/
theorem run_continuable {revision : String} {identified : Bool} {es : List ContinuationEvent}
    (h : Built format s) (honce : ¬ AttemptedTwice s.snapshot.messages)
    (hrun : (continuationSystem format revision identified).Along
      (fun s e => enabled format s e = true) s es) :
    (continuationSystem format revision identified).Throughout (Continuable format) s es ↔
      (continuationSystem format revision identified).Along AttemptsOnce s es := by
  induction es generalizing s with
  | nil => exact iff_of_true ((continuable_iff h).2 honce) trivial
  | cons e es ih =>
    obtain ⟨he, hrun⟩ := hrun
    have hnext : Built format (s.next format e) := h.next he
    have hstep := attemptedTwice_next he honce
    constructor
    · rintro ⟨-, hthroughout⟩
      have hhead : Continuable format (s.next format e) := by
        cases es with
        | nil => exact hthroughout
        | cons _ _ => exact hthroughout.1
      have honce' := (continuable_iff hnext).1 hhead
      exact ⟨hstep.1 honce', (ih hnext honce' hrun).1 hthroughout⟩
    · rintro ⟨hattempts, halong⟩
      exact ⟨(continuable_iff h).2 honce, (ih hnext (hstep.2 hattempts) hrun).2 halong⟩

theorem not_attemptedTwice_nil : ¬ AttemptedTwice [] := by
  rintro ⟨before, attempt, after, heq, -⟩
  simp at heq

/-- In a run of Turns and their continuations every history that is available can be continued, if and
only if no continuation that tries an attempt again is interrupted at its first response. -/
theorem turns_continue (format : NumberFormat) {revision : String} (identified : Bool)
    (es : List ContinuationEvent) (hrevision : jsTrim revision ≠ "")
    (hrun : (continuationSystem format revision identified).Along
      (fun s e => enabled format s e = true)
      (continuationSystem format revision identified).initial es) :
    (continuationSystem format revision identified).Throughout (Continuable format)
        (continuationSystem format revision identified).initial es ↔
      (continuationSystem format revision identified).Along AttemptsOnce
        (continuationSystem format revision identified).initial es :=
  run_continuable (.empty identified hrevision) not_attemptedTwice_nil hrun

section Witness

open Jsonl (zeroFormat)

/-- A message of the role that says something. -/
def sayingMessage (role : String) (stopReason : List (String × JsValue)) : AgentMessage where
  fields := [("role", .string role), ("content", .array [.object [("type", .string "text"),
    ("text", .string "Go on")]]), ("timestamp", .number (.finite 1))] ++ stopReason

/-- The user's message of the Turn. -/
def asked : Recording := ⟨sayingMessage "user" [], "msg-user", "r1"⟩

/-- The model's message, which ended so. -/
def responded (stopReason : String) : Recording :=
  ⟨sayingMessage "assistant" [("stopReason", .string stopReason)], "msg-assistant", "r2"⟩

/-- A Turn is interrupted and continued, and the continuation responds so. -/
def continuedOnce (stopReason : String) : List ContinuationEvent :=
  [.prompt asked, .respond (responded "aborted"), .finish, .resume,
    .respond (responded stopReason), .finish]

theorem turns_continue_stopped :
    (continuationSystem zeroFormat "r0" true).Throughout (Continuable zeroFormat)
      (continuationSystem zeroFormat "r0" true).initial (continuedOnce "stop") := by
  refine (turns_continue zeroFormat true (continuedOnce "stop") (by decide)
    (by decide +kernel)).2 ⟨?_, ?_, ?_, ?_, ?_, ?_, trivial⟩
  · intro r _ htail
    obtain ⟨index, message, heq, -⟩ := htail
    cases heq
  all_goals intro r heq htail; cases heq
  · obtain ⟨index, message, heq, hrole⟩ := htail
    cases heq
    cases hrole
  · rfl

theorem second_attempt_rejected :
    (continuationSystem zeroFormat "r0" true).Along (fun s e => enabled zeroFormat s e = true)
      (continuationSystem zeroFormat "r0" true).initial (continuedOnce "aborted") ∧
    ¬ Continuable zeroFormat ((continuationSystem zeroFormat "r0" true).after
      (continuationSystem zeroFormat "r0" true).initial (continuedOnce "aborted")) := by
  refine ⟨by decide +kernel, fun hcontinuable => ?_⟩
  obtain ⟨runner, hrunner, hwith⟩ := hcontinuable rfl
  obtain rfl := Except.ok.inj hrunner
  exact hwith.tail ⟨1, (responded "aborted").message, rfl, rfl⟩

end Witness

end CanonicalHistory

end Kinetick
