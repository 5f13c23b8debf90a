import Kinetick.Turn.Steering

/-!
# The steering of a Turn is a mailbox

The entry of a Turn shows its ordinary steering as a mailbox, and every call of the controller but
the Turn's completion is one action of it, seen alike. So what the mailbox keeps, the controller
keeps.
-/

namespace Kinetick

open TurnController (identities)

variable {c : TurnController} {turn : AcceptedTurn} {entry : ActiveTurnEntry}

/-! ## The entries -/

namespace TurnController

theorem get_session {s : String} (h : c.get s = some entry) : entry.turn.sessionId = s := by
  have hfound := List.find?_some h
  simpa using hfound

theorem matchingEntry_eq_some {lease : AcceptedTurn} :
    c.matchingEntry lease = some entry ↔
      c.get lease.sessionId = some entry ∧ entry.turn.Matches lease := by
  simp [matchingEntry, Option.filter_eq_some_iff]

theorem get_put (c : TurnController) (entry : ActiveTurnEntry) (s : String) :
    (c.put entry).get s =
      if entry.turn.sessionId = s then (c.get s).map fun _ => entry else c.get s := by
  simp only [put, get, Table.rows_update, if_true]
  induction c.entries.rows with
  | nil => simp
  | cons e es ih =>
    simp only [List.map_cons, List.find?_cons]
    by_cases he : e.turn.sessionId = entry.turn.sessionId
    · by_cases hs : entry.turn.sessionId = s
      · simp [he, hs]
      · simpa [he, hs] using ih
    · by_cases hs : e.turn.sessionId = s
      · subst hs
        simp [he, Ne.symm he]
      · simpa [he, hs] using ih

/-- The entry of the Turn stays its entry while it keeps naming the Turn. -/
theorem matchingEntry_put {entry' : ActiveTurnEntry} (h : c.matchingEntry turn = some entry)
    (hs : entry'.turn.sessionId = turn.sessionId) (hmatch : entry'.turn.Matches turn) :
    (c.put entry').matchingEntry turn = some entry' := by
  rw [matchingEntry_eq_some] at h ⊢
  simp [get_put, hs, h.1, hmatch]

theorem matchingEntry_put_other {entry' : ActiveTurnEntry}
    (hs : entry'.turn.sessionId ≠ turn.sessionId) :
    (c.put entry').matchingEntry turn = c.matchingEntry turn := by
  simp [matchingEntry, get_put, hs]

/-- A lease finds the entry of the Turn or the entry of another Session. -/
theorem matchingEntry_cases (h : c.matchingEntry turn = some entry) (lease : AcceptedTurn) :
    turn.Scopes lease ∧ c.matchingEntry lease = some entry ∨
      ¬ turn.Scopes lease ∧
        ∀ other, c.matchingEntry lease = some other → other.turn.sessionId ≠ turn.sessionId := by
  rw [matchingEntry_eq_some] at h
  by_cases hl : turn.Scopes lease
  · refine .inl ⟨hl, matchingEntry_eq_some.2 ⟨by rw [hl.1]; exact h.1, ?_⟩⟩
    obtain ⟨-, h1, h2, h3, h4, h5⟩ := hl
    obtain ⟨-, g1, g2, g3, g4, g5⟩ := h
    exact ⟨g1.trans h1, g2.trans h2, g3.trans h3, g4.trans h4, g5.trans h5⟩
  · refine .inr ⟨hl, fun other hother hs => hl ?_⟩
    rw [matchingEntry_eq_some] at hother
    have hlease : lease.sessionId = turn.sessionId := (get_session hother.1).symm.trans hs
    rw [hlease, h.1] at hother
    obtain ⟨⟨⟩, h1, h2, h3, h4, h5⟩ := hother
    obtain ⟨-, g1, g2, g3, g4, g5⟩ := h
    exact ⟨hlease, g1.symm.trans h1, g2.symm.trans h2, g3.symm.trans h3, g4.symm.trans h4,
      g5.symm.trans h5⟩

end TurnController

/-! ## What is handed over -/

/-- What several entries hand over of a Turn is what those of its Session hand over. -/
theorem handed_flatMap {g : ActiveTurnEntry → List SteeringDiscarded} (entries : List ActiveTurnEntry)
    (hg : ∀ e : ActiveTurnEntry, e.turn.sessionId ≠ turn.sessionId → turn.handed (g e) = []) :
    turn.handed (entries.flatMap g) =
      (entries.filter (·.turn.sessionId = turn.sessionId)).flatMap fun e => turn.handed (g e) := by
  induction entries with
  | nil => rfl
  | cons e entries ih =>
    have hcons : turn.handed ((e :: entries).flatMap g) =
        turn.handed (g e) ++ turn.handed (entries.flatMap g) := by
      simp [AcceptedTurn.handed]
    rw [hcons, ih, List.filter_cons]
    split_ifs with he
    · simp
    · simp [hg e (by simpa using he)]

theorem handed_discardSteering (entry : ActiveTurnEntry) (hs : entry.turn.sessionId = turn.sessionId)
    (hmatch : entry.turn.Matches turn) (messages : List AgentHostSteeringMessage)
    (cause : SteeringDiscardCause) :
    turn.handed (entry.discardSteering messages cause) = identities messages := by
  have ht : entry.turn.turnId = turn.turnId := hmatch.1
  unfold ActiveTurnEntry.discardSteering AcceptedTurn.handed
  split_ifs with hnil
  · simp [hnil, identities]
  · simp [hs, ht]

theorem handed_discardSteering_other (entry : ActiveTurnEntry) (hs : entry.turn.sessionId ≠ turn.sessionId)
    (messages : List AgentHostSteeringMessage) (cause : SteeringDiscardCause) :
    turn.handed (entry.discardSteering messages cause) = [] := by
  unfold ActiveTurnEntry.discardSteering AcceptedTurn.handed
  split_ifs with hnil
  · simp
  · simp [hs]

theorem handed_abortEntry (hs : entry.turn.sessionId = turn.sessionId)
    (hmatch : entry.turn.Matches turn) (reason : String) :
    turn.handed (entry.abortEntry reason).2 = identities entry.steering :=
  handed_discardSteering { entry with phase := .aborted, abortReason := some reason } hs hmatch _ _

theorem handed_abortEntry_other (hs : entry.turn.sessionId ≠ turn.sessionId) (reason : String) :
    turn.handed (entry.abortEntry reason).2 = [] :=
  handed_discardSteering_other { entry with phase := .aborted, abortReason := some reason } hs _ _

/-! ## One call -/

/-- The ordinary steering of an entry as a mailbox. -/
def ActiveTurnEntry.mailbox (entry : ActiveTurnEntry) : Mailbox String where
  pending := identities entry.steering
  claims := entry.steeringClaims
  known := entry.steeringIdentities
  stopped := entry.phase = .aborted

/-- The Turn keeps an entry, and its mailbox took an action seen as `seen`. -/
def Steers (turn : AcceptedTurn) (entry : ActiveTurnEntry) (c' : TurnController)
    (seen : Mailbox.Seen String) : Prop :=
  ∃ entry' action, c'.matchingEntry turn = some entry' ∧ entry.mailbox.Enabled action ∧
    entry.mailbox.step action = (entry'.mailbox, seen)

theorem Steers.same {c' : TurnController} (h : c'.matchingEntry turn = some entry) :
    Steers turn entry c' {} :=
  ⟨entry, .skip, h, trivial, rfl⟩

/-- A change to the entry of the Turn. -/
theorem Steers.put {entry' : ActiveTurnEntry} {seen : Mailbox.Seen String}
    (h : c.matchingEntry turn = some entry) (hturn : entry'.turn.Matches turn)
    (hs : entry'.turn.sessionId = turn.sessionId) (action : Mailbox.Action String)
    (hen : entry.mailbox.Enabled action)
    (hstep : entry.mailbox.step action = (entry'.mailbox, seen)) :
    Steers turn entry (c.put entry') seen :=
  ⟨entry', action, TurnController.matchingEntry_put h hs hturn, hen, hstep⟩

/-- A change to the entry of another Session. -/
theorem Steers.other {entry' : ActiveTurnEntry} (h : c.matchingEntry turn = some entry)
    (hs : entry'.turn.sessionId ≠ turn.sessionId) : Steers turn entry (c.put entry') {} :=
  .same (by rwa [TurnController.matchingEntry_put_other hs])

/-- What a restore takes back are the claimed identities, each once. -/
theorem restored_eq (claims : Finset String) (messages : List AgentHostSteeringMessage) :
    (TurnController.restored claims messages).1 = claims \ (identities messages).toFinset ∧
      identities (TurnController.restored claims messages).2 =
        Mailbox.giveBack claims (identities messages) := by
  induction messages generalizing claims with
  | nil => simp [TurnController.restored, identities, Mailbox.giveBack]
  | cons message messages ih =>
    simp only [TurnController.restored, identities, List.map_cons, Mailbox.giveBack]
    split_ifs with hclaim
    · refine ⟨?_, ?_⟩
      · rw [(ih _).1]
        ext i
        simp [identities]
        tauto
      · simp only [List.map_cons, List.cons.injEq, true_and]
        exact (ih _).2
    · refine ⟨?_, (ih _).2⟩
      rw [(ih _).1]
      ext i
      simp only [identities, Finset.mem_sdiff, List.mem_toFinset, List.mem_cons, not_or,
        and_congr_right_iff]
      intro hi
      have hne : i ≠ message.steeringIdentity := fun h => hclaim (h ▸ hi)
      simp [hne]

section Calls

variable (h : c.matchingEntry turn = some entry)

include h

theorem session_of_matching : entry.turn.sessionId = turn.sessionId :=
  TurnController.get_session (TurnController.matchingEntry_eq_some.1 h).1

theorem get_of_matching {s : String} (hs : s = turn.sessionId) : c.get s = some entry := by
  subst hs
  exact (TurnController.matchingEntry_eq_some.1 h).1

theorem matches_of_matching : entry.turn.Matches turn :=
  (TurnController.matchingEntry_eq_some.1 h).2

/-- An abort of the entry stops its mailbox. -/
theorem steers_abortEntry (reason : String) :
    Steers turn entry (c.put (entry.abortEntry reason).1)
      { handed := turn.handed (entry.abortEntry reason).2 } := by
  have hs := session_of_matching h
  have hmatch := matches_of_matching h
  rw [handed_abortEntry hs hmatch]
  exact .put h hmatch hs .stop trivial rfl

/-- An abort of another Session's entry is not seen. -/
theorem steers_abortEntry_other {other : ActiveTurnEntry} (reason : String)
    (hs : other.turn.sessionId ≠ turn.sessionId) :
    Steers turn entry (c.put (other.abortEntry reason).1)
      { handed := turn.handed (other.abortEntry reason).2 } := by
  rw [handed_abortEntry_other hs]
  exact .other h hs

/-- An abort of whatever entry a Session has. -/
theorem steers_abort_of_get {s : String} {other : ActiveTurnEntry} (hget : c.get s = some other)
    (reason : String) :
    Steers turn entry (c.put (other.abortEntry reason).1)
      { handed := turn.handed (other.abortEntry reason).2 } := by
  by_cases hs : s = turn.sessionId
  · rw [get_of_matching h hs] at hget
    obtain rfl := Option.some.inj hget
    exact steers_abortEntry h reason
  · exact steers_abortEntry_other h reason (by rwa [TurnController.get_session hget])

theorem steers_renewed (lease : AcceptedTurn) (answer : Option Bool) :
    Steers turn entry (c.renewed lease answer).1
      { handed := turn.handed (c.renewed lease answer).2 } := by
  unfold TurnController.renewed
  rcases hget : c.get lease.sessionId with _ | other
  · exact .same h
  · simp only []
    split_ifs
    · exact .same h
    · exact steers_abort_of_get h hget _
    · exact steers_abort_of_get h hget _

theorem steers_abort (sessionId : String) (turnId : Option String) (reason : String) :
    Steers turn entry (c.abort sessionId turnId reason).1
      { handed := turn.handed (c.abort sessionId turnId reason).2.2 } := by
  unfold TurnController.abort
  rcases hget : c.get sessionId with _ | other
  · exact .same h
  · simp only []
    split_ifs
    · exact .same h
    · exact .same h
    · exact .same h
    · exact steers_abort_of_get h hget _

theorem steers_register (input : RegisterAcceptedTurnInput) (cancellationReason : Option String)
    {c' : TurnController} {turn' : AcceptedTurn} {discarded : List SteeringDiscarded}
    (hok : c.register input cancellationReason = .ok (c', turn', discarded)) :
    Steers turn entry c' { handed := turn.handed discarded } := by
  have hget := TurnController.matchingEntry_eq_some.1 h
  unfold TurnController.register at hok
  split_ifs at hok with hclosed hnew
  cases hok
  have hs : input.sessionId ≠ turn.sessionId := by
    rintro hs
    rw [hs, hget.1] at hnew
    exact hnew rfl
  have hhanded : turn.handed (TurnController.registeredEntry
      { input with signal := c.registrations } cancellationReason).2 = [] := by
    cases cancellationReason <;> rfl
  rw [hhanded]
  refine .same (TurnController.matchingEntry_eq_some.2 ⟨?_, hget.2⟩)
  have hfind := hget.1
  unfold TurnController.get at hfind ⊢
  rw [List.find?_append, hfind, Option.some_or]

/-- A shutdown aborts the entry unless it is aborted already. -/
theorem steers_close : Steers turn entry c.close.1 { handed := turn.handed c.close.2 } := by
  unfold TurnController.close
  split_ifs with hclosed
  · exact .same h
  have hs := session_of_matching h
  obtain ⟨hget, hmatch⟩ := TurnController.matchingEntry_eq_some.1 h
  have hown : c.entries.rows.filter (·.turn.sessionId = turn.sessionId) = [entry] :=
    Constraint.filter_unique c.entries.holds (List.mem_of_find?_eq_some hget) (by simpa using hs)
      (k := turn.sessionId) (by simp)
  have hhanded : turn.handed ((c.entries.rows.filter fun e => !e.signalAborted).flatMap
      fun e => (e.abortEntry "runtime-shutdown").2) =
        if entry.signalAborted then [] else identities entry.steering := by
    rw [handed_flatMap _ fun e he => handed_abortEntry_other he _, List.filter_comm, hown]
    cases hab : entry.signalAborted
    · simpa [hab] using handed_abortEntry hs hmatch _
    · simp [hab]
  rw [hhanded]
  have hfind : ∀ f : ActiveTurnEntry → ActiveTurnEntry, (∀ e, (f e).turn = e.turn) →
      (c.entries.rows.map f).find? (·.turn.sessionId = turn.sessionId) = some (f entry) := by
    intro f hf
    rw [List.find?_map]
    have hcomp : (fun e : ActiveTurnEntry => decide (e.turn.sessionId = turn.sessionId)) ∘ f =
        fun e => decide (e.turn.sessionId = turn.sessionId) := by
      funext e
      simp [hf]
    rw [hcomp]
    exact congrArg (Option.map f) hget
  cases hab : entry.signalAborted
  · refine ⟨(entry.abortEntry "runtime-shutdown").1, .stop, ?_, trivial, ?_⟩
    · refine TurnController.matchingEntry_eq_some.2 ⟨(hfind _ fun e => ?_).trans ?_, hmatch⟩
      · split_ifs <;> rfl
      · simp [hab]
    · simp [hab, Mailbox.step, ActiveTurnEntry.mailbox, ActiveTurnEntry.abortEntry,
        ActiveTurnEntry.clearControl, identities]
  · refine ⟨entry, .skip, ?_, trivial, ?_⟩
    · refine TurnController.matchingEntry_eq_some.2 ⟨(hfind _ fun e => ?_).trans ?_, hmatch⟩
      · split_ifs <;> rfl
      · simp [hab]
    · simp [Mailbox.step]

theorem steers_steer (sessionId turnId : String) (message : AgentHostSteeringMessage)
    (foreground : Bool) (lane : SteeringLane) :
    Steers turn entry (c.steer sessionId turnId message foreground lane).1
      (turn.sees (.steer sessionId turnId message foreground lane)
        { answer := .steered (c.steer sessionId turnId message foreground lane).2 }) := by
  unfold TurnController.steer
  rcases hget : c.get sessionId with _ | other
  · exact .same h
  simp only []
  by_cases hturn : other.turn.turnId ≠ turnId
  · rw [if_pos hturn]
    exact .same h
  rw [if_neg hturn]
  by_cases hreason : other.turn.busyReason ≠ .turn
  · rw [if_pos hreason]
    exact .same h
  rw [if_neg hreason]
  by_cases hphase : other.phase ≠ .running
  · rw [if_pos hphase]
    exact .same h
  rw [if_neg hphase]
  by_cases hlane : lane = .toolResultTail ∧ other.toolResultTailOpen = 0
  · rw [if_pos hlane]
    exact .same h
  rw [if_neg hlane]
  by_cases hs : sessionId = turn.sessionId
  · rw [get_of_matching h hs] at hget
    obtain rfl := Option.some.inj hget
    have hmatch := matches_of_matching h
    have hsession := session_of_matching h
    have hid : turnId = turn.turnId := (not_not.1 hturn).symm.trans hmatch.1
    have hrunning : entry.mailbox.stopped = false := by
      simp [ActiveTurnEntry.mailbox, not_not.1 hphase]
    by_cases hknown : message.steeringIdentity ∈ entry.steeringIdentities
    · rw [if_pos hknown]
      cases lane <;> simp only [AcceptedTurn.sees, hs, hid, and_self, if_true]
      · exact .put h hmatch hsession (.offer _) hrunning (Mailbox.step_offer_known hknown)
      · exact .put h hmatch hsession (.divert _) trivial (Mailbox.step_divert_known hknown)
    · rw [if_neg hknown]
      cases lane <;> simp only [AcceptedTurn.sees, hs, hid, and_self, if_true]
      · refine .put h hmatch hsession (.offer _) hrunning
          ((Mailbox.step_offer_new hknown).trans ?_)
        simp [ActiveTurnEntry.mailbox, identities, AcceptedTurn.handed]
      · exact .put h hmatch hsession (.divert _) trivial rfl
  · have hother : other.turn.sessionId ≠ turn.sessionId := by
      rwa [TurnController.get_session hget]
    have hsees : ∀ result, turn.sees (.steer sessionId turnId message foreground lane)
        { answer := .steered result } = {} := by
      intro result
      cases result <;> simp [AcceptedTurn.sees, hs, AcceptedTurn.handed]
    rw [hsees]
    split_ifs
    · exact .other h hother
    · cases lane <;> exact .other h hother

theorem steers_drainSteering (lease : AcceptedTurn) :
    Steers turn entry (c.drainSteering lease).1
      (turn.sees (.drainSteering lease) { answer := .messages (c.drainSteering lease).2 }) := by
  have hs := session_of_matching h
  have hmatch := matches_of_matching h
  unfold TurnController.drainSteering
  rcases TurnController.matchingEntry_cases h lease with ⟨hl, hlease⟩ | ⟨hl, hlease⟩
  · rw [hlease]
    simp only [AcceptedTurn.sees, if_pos hl]
    split_ifs with hphase
    · exact .same h
    · exact .put h hmatch hs .drain trivial rfl
  · simp only [AcceptedTurn.sees, if_neg hl]
    rcases hother : c.matchingEntry lease with _ | other
    · exact .same h
    · simp only []
      split_ifs
      · exact .same h
      · exact .other h (hlease other hother)

theorem steers_ackSteering (lease : AcceptedTurn) (messages : List AgentHostSteeringMessage) :
    Steers turn entry (c.ackSteering lease messages)
      (turn.sees (.ackSteering lease messages) { answer := .done }) := by
  have hs := session_of_matching h
  have hmatch := matches_of_matching h
  unfold TurnController.ackSteering
  rcases TurnController.matchingEntry_cases h lease with ⟨hl, hlease⟩ | ⟨hl, hlease⟩
  · rw [hlease]
    simp only [AcceptedTurn.sees, if_pos hl]
    exact .put h hmatch hs (.ack (identities messages)) trivial rfl
  · simp only [AcceptedTurn.sees, if_neg hl]
    rcases hother : c.matchingEntry lease with _ | other
    · exact .same h
    · exact .other h (hlease other hother)

theorem steers_restoreSteering (lease : AcceptedTurn) (messages : List AgentHostSteeringMessage) :
    Steers turn entry (c.restoreSteering lease messages).1
      (turn.sees (.restoreSteering lease messages)
        { answer := .done, discarded := (c.restoreSteering lease messages).2 }) := by
  have hs := session_of_matching h
  have hmatch := matches_of_matching h
  unfold TurnController.restoreSteering
  rcases TurnController.matchingEntry_cases h lease with ⟨hl, hlease⟩ | ⟨hl, hlease⟩
  · rw [hlease]
    obtain ⟨hclaims, hback⟩ := restored_eq entry.steeringClaims messages
    simp only [AcceptedTurn.sees, if_pos hl]
    by_cases hphase : entry.phase = .aborted
    · have hhanded := handed_discardSteering { entry with
        steeringClaims := (TurnController.restored entry.steeringClaims messages).1 } hs hmatch
        (TurnController.restored entry.steeringClaims messages).2 .abort
      simp only [hphase, if_true] at hhanded ⊢
      rw [hhanded, hback]
      refine .put h hmatch hs (.restore (identities messages)) trivial ?_
      simp [Mailbox.step, ActiveTurnEntry.mailbox, hphase, hclaims]
    · simp only [hphase, if_false]
      refine .put h hmatch hs (.restore (identities messages)) trivial ?_
      simp [Mailbox.step, ActiveTurnEntry.mailbox, hphase, hclaims, identities,
        AcceptedTurn.handed]
      exact hback.symm
  · simp only [AcceptedTurn.sees, if_neg hl]
    rcases hother : c.matchingEntry lease with _ | other
    · exact .same h
    · have hs' := hlease other hother
      have hhanded := handed_discardSteering_other { other with
        steeringClaims := (TurnController.restored other.steeringClaims messages).1 } hs'
        (TurnController.restored other.steeringClaims messages).2 .abort
      by_cases hphase : other.phase = .aborted
      · simp only [hphase, if_true] at hhanded ⊢
        rw [hhanded]
        exact .other h hs'
      · simp only [hphase, if_false]
        exact .other h hs'

theorem steers_openToolResultTail (lease : AcceptedTurn) :
    Steers turn entry (c.openToolResultTail lease).1 {} := by
  have hs := session_of_matching h
  have hmatch := matches_of_matching h
  unfold TurnController.openToolResultTail
  rcases hother : c.matchingEntry lease with _ | other
  · exact .same h
  simp only []
  split_ifs
  · exact .same h
  rcases TurnController.matchingEntry_cases h lease with ⟨hl, hlease⟩ | ⟨hl, hlease⟩
  · obtain rfl := Option.some.inj (hother.symm.trans hlease)
    exact .put h hmatch hs .skip trivial rfl
  · exact .other h (hlease other hother)

theorem steers_closeAndClaimToolResultTail (lease : AcceptedTurn) (toolCallId : String) :
    Steers turn entry (c.closeAndClaimToolResultTail lease toolCallId).1 {} := by
  have hs := session_of_matching h
  have hmatch := matches_of_matching h
  unfold TurnController.closeAndClaimToolResultTail
  rcases hother : c.matchingEntry lease with _ | other
  · exact .same h
  simp only []
  by_cases hphase : other.phase = .aborted
  · rw [if_pos hphase]
    exact .same h
  rw [if_neg hphase]
  rcases TurnController.matchingEntry_cases h lease with ⟨hl, hlease⟩ | ⟨hl, hlease⟩
  · obtain rfl := Option.some.inj (hother.symm.trans hlease)
    split <;> exact .put h hmatch hs .skip trivial rfl
  · split <;> exact .other h (hlease other hother)

theorem steers_ackToolResultTail (lease : AcceptedTurn) (toolCallId : String) :
    Steers turn entry (c.ackToolResultTail lease toolCallId) {} := by
  have hs := session_of_matching h
  have hmatch := matches_of_matching h
  unfold TurnController.ackToolResultTail
  rcases hother : c.matchingEntry lease with _ | other
  · exact .same h
  rcases TurnController.matchingEntry_cases h lease with ⟨hl, hlease⟩ | ⟨hl, hlease⟩
  · obtain rfl := Option.some.inj (hother.symm.trans hlease)
    exact .put h hmatch hs .skip trivial rfl
  · exact .other h (hlease other hother)

/-- A close hands over the user's steering nobody drained. -/
theorem steers_tryBeginClose (lease : AcceptedTurn) :
    Steers turn entry (c.tryBeginClose lease).1
      { handed := turn.handed (c.tryBeginClose lease).2.2 } := by
  have hs := session_of_matching h
  have hmatch := matches_of_matching h
  unfold TurnController.tryBeginClose
  rcases hother : c.matchingEntry lease with _ | other
  · exact .same h
  simp only []
  by_cases hphase : other.phase = .aborted
  · rw [if_pos hphase]
    exact .same h
  rw [if_neg hphase]
  split_ifs
  · exact .same h
  · exact .same h
  rcases TurnController.matchingEntry_cases h lease with ⟨hl, hlease⟩ | ⟨hl, hlease⟩
  · obtain rfl := Option.some.inj (hother.symm.trans hlease)
    rw [handed_discardSteering _ hs hmatch]
    refine .put h hmatch hs .flush trivial ?_
    simp [Mailbox.step, ActiveTurnEntry.mailbox, hphase, identities]
  · rw [handed_discardSteering_other _ (hlease other hother)]
    exact .other h (hlease other hother)

/-- A seal hands over the steering nobody drained and forgets what was drained. -/
theorem steers_sealAbnormalTerminal (lease : AcceptedTurn) {c' : TurnController}
    {discarded : List SteeringDiscarded}
    (hok : c.sealAbnormalTerminal lease = .ok (c', discarded)) :
    Steers turn entry c' (turn.sees (.sealAbnormalTerminal lease)
      { answer := .done, discarded }) := by
  have hs := session_of_matching h
  have hmatch := matches_of_matching h
  unfold TurnController.sealAbnormalTerminal at hok
  rcases hother : c.matchingEntry lease with _ | other <;> rw [hother] at hok
  · cases hok
  cases hok
  rcases TurnController.matchingEntry_cases h lease with ⟨hl, hlease⟩ | ⟨hl, hlease⟩
  · obtain rfl := Option.some.inj (hother.symm.trans hlease)
    simp only [AcceptedTurn.sees, if_pos hl]
    rw [handed_discardSteering _ hs hmatch]
    refine .put h hmatch hs .drop trivial ?_
    by_cases hphase : other.phase = .aborted <;>
      simp [Mailbox.step, ActiveTurnEntry.mailbox, ActiveTurnEntry.clearControl, hphase, identities]
  · simp only [AcceptedTurn.sees, if_neg hl]
    rw [handed_discardSteering_other _ (hlease other hother)]
    exact .other h (hlease other hother)

theorem matchingEntry_complete {lease : AcceptedTurn} (hl : ¬ turn.Scopes lease) :
    (c.complete lease).matchingEntry turn = some entry := by
  unfold TurnController.complete
  rcases hother : c.matchingEntry lease with _ | other
  · exact h
  rcases TurnController.matchingEntry_cases h lease with ⟨hl', -⟩ | ⟨-, hlease⟩
  · exact absurd hl' hl
  have hs := session_of_matching h
  obtain ⟨hget, hmatch⟩ := TurnController.matchingEntry_eq_some.1 h
  have hsession : entry.turn.sessionId ≠ lease.sessionId := by
    rw [hs, ← session_of_matching hother]
    exact (hlease other hother).symm
  refine TurnController.matchingEntry_eq_some.2 ⟨?_, hmatch⟩
  unfold TurnController.get at hget ⊢
  rw [Table.rows_delete, find?_filter_of_unique, hget, Option.filter_some_pos]
  · simpa using hsession
  · intro a ha b hb hqa hqb
    exact Constraint.unique_inj c.entries.holds ha hb (k := turn.sessionId)
      (by simpa using hqa) (by simpa using hqb)

/-- Every call but the completion of the Turn is an action of its mailbox. -/
theorem step_steers (e : ControllerEvent) (he : ¬ turn.Completes e) :
    Steers turn entry (c.step e).1 (turn.sees e (c.step e).2) := by
  cases e with
  | register input cancellationReason =>
    rcases hreg : c.register input cancellationReason with error | ⟨c', turn', discarded⟩
    · simp only [TurnController.step, hreg]
      exact .same h
    · simp only [TurnController.step, hreg]
      exact steers_register h input cancellationReason hreg
  | renewed lease answer => exact steers_renewed h lease answer
  | abort sessionId turnId reason => exact steers_abort h sessionId turnId reason
  | steer sessionId turnId message foreground lane =>
    exact steers_steer h sessionId turnId message foreground lane
  | drainSteering lease => exact steers_drainSteering h lease
  | ackSteering lease messages => exact steers_ackSteering h lease messages
  | restoreSteering lease messages => exact steers_restoreSteering h lease messages
  | openToolResultTail lease => exact steers_openToolResultTail h lease
  | closeAndClaimToolResultTail lease toolCallId =>
    exact steers_closeAndClaimToolResultTail h lease toolCallId
  | ackToolResultTail lease toolCallId => exact steers_ackToolResultTail h lease toolCallId
  | tryBeginClose lease => exact steers_tryBeginClose h lease
  | sealAbnormalTerminal lease =>
    rcases hseal : c.sealAbnormalTerminal lease with error | ⟨c', discarded⟩
    · have hl : ¬ turn.Scopes lease := by
        intro hl
        rcases TurnController.matchingEntry_cases h lease with ⟨-, hlease⟩ | ⟨hl', -⟩
        · rw [TurnController.sealAbnormalTerminal, hlease] at hseal
          cases hseal
        · exact hl' hl
      simp only [TurnController.step, hseal, AcceptedTurn.sees, if_neg hl]
      exact .same h
    · simp only [TurnController.step, hseal]
      exact steers_sealAbnormalTerminal h lease hseal
  | complete lease =>
    exact .same (matchingEntry_complete h fun hl => he ⟨lease, rfl, hl⟩)
  | close => exact steers_close h

end Calls

/-! ## The history of a Turn -/

namespace SteeringHistory

variable {hist : SteeringHistory}

/-- The Turn has an entry whose mailbox agrees with where the identities stand. -/
def Kept (turn : AcceptedTurn) (hist : SteeringHistory) : Prop :=
  ∃ entry, hist.controller.matchingEntry turn = some entry ∧
    entry.mailbox.Kept hist.stand hist.handed

theorem conserved_iff (h : hist.controller.matchingEntry turn = some entry) :
    hist.Conserved turn ↔ entry.mailbox.Conserves hist.stand hist.handed := by
  have hdrained : (hist.controller.drainSteering turn).2 =
      if entry.phase = .aborted then [] else entry.steering := by
    simp only [TurnController.drainSteering, h]
    split_ifs <;> rfl
  constructor
  · rintro ⟨entry', hentry', hall⟩ i
    obtain rfl := Option.some.inj (h.symm.trans hentry')
    obtain ⟨hp, hh, hd⟩ := hall i
    refine ⟨hp, hh, fun hi => ?_⟩
    have hmem := hd hi
    rw [hdrained] at hmem
    split_ifs at hmem with hphase
    · simp [identities] at hmem
    · simp [ActiveTurnEntry.mailbox, hphase]
  · intro hall
    refine ⟨entry, h, fun i => ⟨(hall i).pending, (hall i).handed, fun hi => ?_⟩⟩
    have hphase : entry.phase ≠ .aborted := by
      simpa [ActiveTurnEntry.mailbox] using (hall i).drainable hi
    rw [hdrained, if_neg hphase]
    exact (hall i).mem_pending.2 hi

/-- What a call was seen to restore. -/
theorem mem_restored {e : ControllerEvent} {report : ControllerReport} {i : String} :
    i ∈ (turn.sees e report).restored ↔ ∃ lease messages, e = .restoreSteering lease messages ∧
      turn.Scopes lease ∧ i ∈ identities messages := by
  unfold AcceptedTurn.sees
  split
  case h_1 lane _ _ =>
    cases lane <;> split_ifs <;> simp
  case h_4 lease messages =>
    by_cases hl : turn.Scopes lease <;> simp [hl]
  case h_6 hrestore _ _ _ =>
    simp only [List.not_mem_nil, false_iff]
    rintro ⟨lease, messages, rfl, -, -⟩
    exact hrestore _ _ rfl
  all_goals split_ifs <;> simp

theorem Kept.step (h : hist.Kept turn) {e : ControllerEvent} (he : ¬ turn.Completes e)
    (hlive : hist.RestoresUnsealed turn e) : ((machine turn).step hist e).1.Kept turn := by
  obtain ⟨entry, hentry, hkept⟩ := h
  obtain ⟨entry', action, hentry', hen, hstep⟩ := step_steers hentry e he
  refine ⟨entry', hentry', fun i => ?_⟩
  have hnext := (hkept i).step hen (a := action) fun hi => by
    rw [hstep] at hi
    obtain ⟨lease, messages, rfl, hl, hm⟩ := mem_restored.1 hi
    obtain ⟨message, hmessage, rfl⟩ := List.mem_map.1 hm
    exact hlive lease messages rfl hl message hmessage
  rw [hstep] at hnext
  simpa only [machine, List.count_append] using hnext

/-- A restore of what was drained when the Turn was sealed loses it. -/
theorem Kept.restoresUnsealed (h : hist.Kept turn) {e : ControllerEvent}
    (he : ¬ turn.Completes e) (hnext : ((machine turn).step hist e).1.Conserved turn) :
    hist.RestoresUnsealed turn e := by
  obtain ⟨entry, hentry, hkept⟩ := h
  obtain ⟨entry', action, hentry', hen, hstep⟩ := step_steers hentry e he
  rintro lease messages rfl hl message hmessage hstand
  have hi : message.steeringIdentity ∈ (entry.mailbox.step action).2.restored := by
    rw [hstep]
    exact mem_restored.2 ⟨lease, messages, rfl, hl, List.mem_map_of_mem hmessage⟩
  have hat := hkept message.steeringIdentity
  rw [hstand] at hat
  refine hat.lost hi ?_
  have hall := (conserved_iff hentry').1 hnext message.steeringIdentity
  rw [hstep]
  simpa only [machine, List.count_append, hstand] using hall

/-- The entry of a registration is empty. -/
theorem kept_registered {input : RegisterAcceptedTurnInput} {cancellationReason : Option String}
    {c' : TurnController} {discarded : List SteeringDiscarded}
    (hok : c.register input cancellationReason = .ok (c', turn, discarded)) :
    (registered c').Kept turn := by
  unfold TurnController.register at hok
  split_ifs at hok with hclosed hnew
  cases hok
  have hnone : c.get input.sessionId = none := by simpa using hnew
  refine ⟨(TurnController.registeredEntry { input with signal := c.registrations }
    cancellationReason).1, TurnController.matchingEntry_eq_some.2 ⟨?_, ?_⟩, ?_⟩
  · unfold TurnController.get at hnone ⊢
    simp [registered, List.find?_append, hnone, TurnController.registeredEntry_turn]
  · rw [TurnController.registeredEntry_turn]
    exact ⟨rfl, rfl, rfl, rfl, rfl⟩
  · cases cancellationReason <;> exact Mailbox.kept_empty _

end SteeringHistory

/-- From its registration to its completion no steering of a Turn is lost or delivered twice, exactly
when no call restores what was drained, and not acknowledged, as the Turn was sealed. -/
theorem steering_conserved {input : RegisterAcceptedTurnInput} {cancellationReason : Option String}
    {c' : TurnController} {discarded : List SteeringDiscarded}
    (hok : c.register input cancellationReason = .ok (c', turn, discarded))
    (es : List ControllerEvent) (hes : ∀ e ∈ es, ¬ turn.Completes e) :
    (SteeringHistory.machine turn).Throughout (·.Conserved turn) (.registered c') es ↔
      (SteeringHistory.machine turn).Along (·.RestoresUnsealed turn) (.registered c') es := by
  refine Machine.throughout_iff_along _ (J := (·.Kept turn)) (fun hist h => ?_)
    (fun hist e h he hlive => h.step he hlive)
    (fun hist e h he hnext => h.restoresUnsealed he hnext)
    (SteeringHistory.kept_registered hok) hes
  obtain ⟨entry, hentry, hkept⟩ := h
  exact (SteeringHistory.conserved_iff hentry).2 fun i => (hkept i).toConservesAt

/-- A runner that restores what it drained before the seal loses it. -/
theorem steering_not_conserved :
    ¬ ∀ (c c' : TurnController) (turn : AcceptedTurn) (input : RegisterAcceptedTurnInput)
      (cancellationReason : Option String) (discarded : List SteeringDiscarded),
      c.register input cancellationReason = .ok (c', turn, discarded) →
      ∀ es : List ControllerEvent, (∀ e ∈ es, ¬ turn.Completes e) →
        (SteeringHistory.machine turn).Throughout (·.Conserved turn) (.registered c') es := by
  intro h
  let turn := plainAcceptedTurn "s" "t"
  have hrun := h .initial (plainController "s" "t") turn (plainRegistration "s" "t") none [] rfl
    [.steer "s" "t" plainSteering false .ordinary, .drainSteering turn, .sealAbnormalTerminal turn,
      .restoreSteering turn [plainSteering]] (by simp [AcceptedTurn.Completes])
  obtain ⟨entry, hentry, hall⟩ := hrun.2.2.2.2
  obtain ⟨hcount, -, -⟩ := hall plainSteering.steeringIdentity
  cases hentry
  exact absurd hcount (by decide)

/-- A runner that restores what it drained before an abort hands it over. -/
theorem steering_conserved_aborted :
    (SteeringHistory.machine (plainAcceptedTurn "s" "t")).Throughout
      (·.Conserved (plainAcceptedTurn "s" "t")) (.registered (plainController "s" "t"))
      [.steer "s" "t" plainSteering false .ordinary, .drainSteering (plainAcceptedTurn "s" "t"),
        .abort "s" none "stop", .restoreSteering (plainAcceptedTurn "s" "t") [plainSteering]] := by
  have hok : TurnController.initial.register (plainRegistration "s" "t") none =
      .ok (plainController "s" "t", plainAcceptedTurn "s" "t", []) := rfl
  refine (steering_conserved hok _ (by simp [AcceptedTurn.Completes])).2 ?_
  refine ⟨?_, ?_, ?_, ?_, trivial⟩ <;> rintro lease messages ⟨⟩ -
  rintro message hmessage
  rw [List.mem_singleton] at hmessage
  subst hmessage
  decide

end Kinetick
