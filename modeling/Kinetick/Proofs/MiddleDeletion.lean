import Mathlib.Data.List.Perm.Basic
import Mathlib.Data.List.Nodup
import Kinetick.Proofs.HistoryReduction

/-!
# Deletion from the middle outwards

The order after a distance is a rearrangement of the window of that distance around the middle, and
the last window is all there is. Deleting closures at some positions leaves the others whole, since
no two closures share an index.
-/

namespace Kinetick

namespace HistoryReduction

/-! ## The order -/

/-- The indexes nearer to the middle than the distance. -/
def window (xs : List ℕ) (middle distance : ℕ) : List ℕ :=
  (xs.take (middle + distance)).drop (middle + 1 - distance)

theorem drop_append_toList {xs ys : List ℕ} {k : ℕ} (h : k ≤ xs.length ∨ ys = []) :
    (xs ++ ys).drop k = xs.drop k ++ ys := by
  rcases h with h | rfl
  · rw [List.drop_append_of_le_length h]
  · simp

theorem drop_eq_toList_append (xs : List ℕ) (k : ℕ) :
    xs.drop k = xs[k]?.toList ++ xs.drop (k + 1) := by
  by_cases h : k < xs.length
  · rw [List.drop_eq_getElem_cons h, List.getElem?_eq_getElem h]
    rfl
  · rw [List.drop_eq_nil_of_le (by omega), List.drop_eq_nil_of_le (by omega),
      List.getElem?_eq_none (by omega)]
    rfl

/-- The next window has the two indexes at the distance more. -/
theorem window_succ (xs : List ℕ) (middle distance : ℕ) :
    (window xs middle (distance + 1)).Perm
      (window xs middle distance ++ atDistance xs middle distance) := by
  unfold window atDistance
  rw [← Nat.add_assoc, List.take_add_one]
  rcases Nat.eq_zero_or_pos distance with rfl | hpos
  · have hdrop : (xs.take middle).drop (middle + 1) = [] :=
      List.drop_eq_nil_of_le (by rw [List.length_take]; omega)
    simp only [Nat.add_zero, Nat.zero_le, ↓reduceIte, Nat.sub_zero, List.append_nil, hdrop,
      List.nil_append, Nat.add_sub_cancel]
    by_cases hmid : middle ≤ xs.length
    · rw [drop_append_toList (.inl (by rw [List.length_take]; omega)),
        List.drop_eq_nil_of_le (by rw [List.length_take]; omega)]
      exact List.Perm.refl _
    · have hnone : xs[middle]? = none := List.getElem?_eq_none (by omega)
      have hdrop' : (xs.take middle ++ xs[middle]?.toList).drop middle = [] :=
        List.drop_eq_nil_of_le (by simp [hnone])
      rw [hdrop', hnone]
      exact List.Perm.refl _
  · have hrest : distance ≠ 0 := by omega
    rw [if_neg hrest, drop_append_toList]
    · by_cases hle : distance ≤ middle
      · rw [if_pos hle, show middle + 1 - (distance + 1) = middle - distance by omega,
          drop_eq_toList_append, show middle - distance + 1 = middle + 1 - distance by omega,
          List.getElem?_take_of_lt (by omega), List.append_assoc]
        exact List.perm_append_comm_assoc _ _ _
      · rw [if_neg hle, show middle + 1 - (distance + 1) = 0 by omega,
          show middle + 1 - distance = 0 by omega]
        exact List.Perm.refl _
    · by_cases hlen : middle + distance < xs.length
      · left
        rw [List.length_take]
        omega
      · right
        rw [List.getElem?_eq_none (by omega)]
        rfl

theorem window_sublist (xs : List ℕ) (middle distance : ℕ) :
    (window xs middle distance).Sublist xs :=
  (List.drop_sublist _ _).trans (List.take_sublist _ _)

theorem middleOutFrom_perm {xs order : List ℕ} {middle fuel distance : ℕ}
    (horder : order.Perm (window xs middle distance)) (hmiddle : middle ≤ xs.length)
    (hfuel : xs.length + 1 ≤ distance + fuel) :
    (middleOutFrom xs middle fuel distance order).Perm xs := by
  induction fuel generalizing distance order with
  | zero =>
    refine horder.trans ?_
    unfold window
    rw [List.take_of_length_le (by omega), show middle + 1 - distance = 0 by omega]
    exact List.Perm.refl _
  | succ fuel ih =>
    unfold middleOutFrom
    split_ifs with hlen
    · refine ih ?_ (by omega)
      exact (horder.append_right _).trans (window_succ xs middle distance).symm
    · have hsub := window_sublist xs middle distance
      rw [horder.length_eq] at hlen
      rw [hsub.eq_of_length_le (by omega)] at horder
      exact horder

/-- Every index exactly once. -/
theorem middleOutOrder_perm (xs : List ℕ) : (middleOutOrder xs).Perm xs := by
  refine middleOutFrom_perm ?_ (by omega) (by omega)
  unfold window
  rw [List.drop_eq_nil_of_le]
  rw [List.length_take]
  omega

/-! ## Positions of closures -/

variable {closures : List HistoryClosure}

/-- Closures that share an index are the same one. -/
theorem position_unique (h : closures.flatten.Nodup) {p q i : ℕ}
    (hp : i ∈ closures[p]?.getD []) (hq : i ∈ closures[q]?.getD []) : p = q := by
  rw [List.nodup_flatten, List.pairwise_iff_getElem] at h
  have hlt : ∀ {p : ℕ}, i ∈ closures[p]?.getD [] → ∃ hp : p < closures.length, i ∈ closures[p] := by
    intro p hp
    by_cases hlen : p < closures.length
    · rw [List.getElem?_eq_getElem hlen] at hp
      exact ⟨hlen, hp⟩
    · rw [List.getElem?_eq_none (by omega)] at hp
      cases hp
  obtain ⟨hp', hp⟩ := hlt hp
  obtain ⟨hq', hq⟩ := hlt hq
  rcases Nat.lt_trichotomy p q with hpq | hpq | hpq
  · exact absurd hq (h.2 p q hp' hq' hpq hp)
  · exact hpq
  · exact absurd hp (h.2 q p hq' hp' hpq hq)

theorem mem_positions_iff (h : closures.flatten.Nodup) {positions : List ℕ} {q i : ℕ}
    (hq : i ∈ closures[q]?.getD []) :
    i ∈ positions.flatMap (fun p => closures[p]?.getD []) ↔ q ∈ positions := by
  rw [List.mem_flatMap]
  constructor
  · rintro ⟨p, hp, hi⟩
    exact position_unique h hi hq ▸ hp
  · exact fun hp => ⟨q, hp, hq⟩

theorem exists_position {closure : HistoryClosure} (h : closure ∈ closures) :
    ∃ q : ℕ, closures[q]?.getD [] = closure := by
  obtain ⟨q, hq, rfl⟩ := List.getElem_of_mem h
  exact ⟨q, by rw [List.getElem?_eq_getElem hq]; rfl⟩

theorem deletable_not_protected {messages : List AgentMessage} {p : ℕ}
    (h : p ∈ deletablePositions messages closures) : isProtected messages closures p = false := by
  have := (List.mem_filter.1 h).2
  simpa using this

/-- Deleting closures at deletable positions. -/
theorem removesClosures {messages : List AgentMessage} {segments : List Segment}
    (hclosures : closures = closuresOf 0 segments) (h : closures.flatten.Nodup)
    {positions : List ℕ} (hpositions : ∀ p ∈ positions, p ∈ deletablePositions messages closures) :
    RemovesClosures messages (roundsOf 0 segments) closures
      (positions.flatMap fun p => closures[p]?.getD []) where
  closure closure hclosure := by
    obtain ⟨q, rfl⟩ := exists_position hclosure
    by_cases hq : q ∈ positions
    · exact .inl fun i hi => (mem_positions_iff h hi).2 hq
    · exact .inr fun i hi hmem => hq ((mem_positions_iff h hi).1 hmem)
  round round hround := by
    rw [hclosures]
    exact round_mem_closuresOf round hround
  first i hi hmem := by
    have hprotected := deletable_not_protected (hpositions 0 ((mem_positions_iff h hi).1 hmem))
    simp [isProtected] at hprotected
  user i m hm huser hmem := by
    obtain ⟨p, hp, hi⟩ := List.mem_flatMap.1 hmem
    have hprotected := deletable_not_protected (hpositions p hp)
    unfold isProtected at hprotected
    rw [Bool.or_eq_false_iff, List.any_eq_false] at hprotected
    refine hprotected.2 i hi ?_
    rw [hm]
    exact huser

theorem keeping_sublist (keep : ℕ → Bool) (messages : List AgentMessage) :
    (keeping keep messages).Sublist messages := by
  have h := (List.filter_sublist (l := messages.zipIdx) (p := fun entry => keep entry.2)).map Prod.fst
  rwa [List.zipIdx_map_fst] at h

/-! ## The deletion -/

theorem deleteUntilFits_ok {messages : List AgentMessage} {fits : List AgentMessage → Bool}
    {done order : List ℕ}
    (hparse : ∀ k, ∃ rounds,
      parseToolRounds (without messages closures (done ++ order.take k)) = .ok rounds) :
    ∃ answer, deleteUntilFits messages closures fits order
        (done.flatMap fun p => closures[p]?.getD []) = .ok answer ∧
      (∀ candidate, answer = some candidate → fits candidate = true ∧ ∃ k, 0 < k ∧
        candidate = without messages closures (done ++ order.take k)) ∧
      (answer = none → ∀ k, 0 < k → k ≤ order.length →
        fits (without messages closures (done ++ order.take k)) = false) := by
  induction order generalizing done with
  | nil => exact ⟨none, rfl, nofun, fun _ k hpos hk => absurd hpos (by simpa using hk)⟩
  | cons p order ih =>
    have hone := hparse 1
    obtain ⟨rounds, hone⟩ := hone
    have hflat : (done.flatMap fun p => closures[p]?.getD []) ++ closures[p]?.getD [] =
        (done ++ [p]).flatMap fun p => closures[p]?.getD [] := by
      rw [List.flatMap_append, List.flatMap_singleton]
    have hstep : deleteUntilFits messages closures fits (p :: order)
        (done.flatMap fun p => closures[p]?.getD []) =
        if fits (without messages closures (done ++ [p])) then
          .ok (some (without messages closures (done ++ [p])))
        else deleteUntilFits messages closures fits order
          ((done ++ [p]).flatMap fun p => closures[p]?.getD []) := by
      rw [deleteUntilFits]
      simp only [hflat]
      change (parseToolRounds (without messages closures (done ++ [p])) >>= _) = _
      rw [show done ++ [p] = done ++ (p :: order).take 1 by rfl, hone]
      rfl
    have htake : ∀ k, done ++ (p :: order).take (k + 1) = done ++ [p] ++ order.take k := by
      intro k
      simp
    rw [hstep]
    split_ifs with hfits
    · refine ⟨_, rfl, ?_, nofun⟩
      rintro candidate hcandidate
      cases hcandidate
      exact ⟨hfits, 1, Nat.one_pos, rfl⟩
    · obtain ⟨answer, hanswer, hsome, hnone⟩ := @ih (done ++ [p]) fun k => by
        rw [← htake]
        exact hparse (k + 1)
      refine ⟨answer, hanswer, fun candidate hcandidate => ?_, fun hno k hpos hk => ?_⟩
      · obtain ⟨hfit, k, hpos, hk⟩ := hsome candidate hcandidate
        exact ⟨hfit, k + 1, Nat.succ_pos k, by rw [htake]; exact hk⟩
      · obtain ⟨k, rfl⟩ := Nat.exists_eq_succ_of_ne_zero (Nat.pos_iff_ne_zero.1 hpos)
        rw [Nat.succ_eq_add_one, htake]
        rcases Nat.eq_zero_or_pos k with rfl | hk'
        · simpa using hfits
        · exact hnone hno k hk' (by simp at hk; omega)

/-! ## Histories that parse -/

theorem closuresOf_nodup (segments : List Segment) : (closuresOf 0 segments).flatten.Nodup := by
  rw [closuresOf_flatten]
  exact List.nodup_range'

/-- Closures at any positions may be deleted, what is left parses. -/
theorem parse_without {segments : List Segment} (hvalid : ∀ s ∈ segments, s.Valid)
    (positions : List ℕ) : ∃ rounds,
      parseToolRounds (without (history segments) (closuresOf 0 segments) positions) =
        .ok rounds ∧
      (roundIds (without (history segments) (closuresOf 0 segments) positions) rounds).Sublist
        (roundIds (history segments) (roundsOf 0 segments)) := by
  refine parse_keeping hvalid fun closure hclosure i hi j hj => ?_
  obtain ⟨q, rfl⟩ := exists_position hclosure
  have hnodup := closuresOf_nodup segments
  simp only [List.contains_eq_mem, mem_positions_iff hnodup hi, mem_positions_iff hnodup hj]

/-- The skeleton keeps each closure or drops it. -/
theorem parse_skeleton {segments : List Segment} (hvalid : ∀ s ∈ segments, s.Valid)
    {candidate : List AgentMessage}
    (h : buildProtectedSkeletonCandidate (history segments) = .ok candidate) : ∃ rounds,
      parseToolRounds candidate = .ok rounds ∧ (roundIds candidate rounds).Sublist
        (roundIds (history segments) (roundsOf 0 segments)) := by
  obtain ⟨closures, hclosures, h⟩ := bind_ok h
  rw [buildHistoryClosures_history hvalid] at hclosures
  cases hclosures
  cases h
  refine parse_keeping hvalid fun closure hclosure i hi j hj => ?_
  obtain ⟨q, rfl⟩ := exists_position hclosure
  have hnodup := closuresOf_nodup segments
  -- an index of the closure at `q` is kept exactly when that position is protected
  have hkept : ∀ i ∈ (closuresOf 0 segments)[q]?.getD [],
      (i ∈ (List.range (closuresOf 0 segments).length).flatMap fun position =>
        if isProtected (history segments) (closuresOf 0 segments) position then
          (closuresOf 0 segments)[position]?.getD [] else []) ↔
      isProtected (history segments) (closuresOf 0 segments) q = true := by
    intro i hi
    rw [List.mem_flatMap]
    constructor
    · rintro ⟨p, -, hp⟩
      split_ifs at hp with hprotected
      · rw [← position_unique hnodup hp hi]
        exact hprotected
      · cases hp
    · intro hprotected
      refine ⟨q, List.mem_range.2 ?_, by rwa [if_pos hprotected]⟩
      by_contra hlen
      rw [List.getElem?_eq_none (by omega)] at hi
      cases hi
  simp only [List.contains_eq_mem, hkept i hi, hkept j hj]

/-- A middle deletion answers, and as it should. -/
theorem middleDeletion_ok {segments : List Segment} (hvalid : ∀ s ∈ segments, s.Valid)
    (fits : List AgentMessage → Bool) : ∃ answer,
      buildMiddleDeletionCandidate (history segments) fits = .ok answer ∧
      DeletesMiddle (history segments) (roundsOf 0 segments) fits (closuresOf 0 segments)
        answer := by
  have hclosures := buildHistoryClosures_history hvalid
  have horder := middleOutOrder_perm
    (deletablePositions (history segments) (closuresOf 0 segments))
  obtain ⟨answer, hanswer, hsome, hnone⟩ := @deleteUntilFits_ok (closuresOf 0 segments)
    (history segments) fits []
    (middleOutOrder (deletablePositions (history segments) (closuresOf 0 segments)))
    fun k => (parse_without hvalid _).imp fun _ h => h.1
  refine ⟨answer, ?_, ?_, horder, fun candidate hcandidate => ?_, hnone⟩
  · unfold buildMiddleDeletionCandidate
    rw [hclosures]
    exact hanswer
  · rw [closuresOf_flatten, List.range_eq_range']
  · obtain ⟨hfits, k, hk, rfl⟩ := hsome candidate hcandidate
    refine ⟨hfits, keeping_sublist _ _, k, hk, rfl, ?_⟩
    exact removesClosures rfl (closuresOf_nodup segments) fun p hp =>
      horder.subset (List.take_subset _ _ hp)

/-- Along the ladder histories parse, with rounds of the first. -/
theorem Ladder.parse {messages candidate : List AgentMessage} (h : Ladder messages candidate)
    {rounds : List ToolRound} (hparse : parseToolRounds messages = .ok rounds) :
    ∃ rounds', parseToolRounds candidate = .ok rounds' ∧
      (roundIds candidate rounds').Sublist (roundIds messages rounds) := by
  have hsame : ∀ {ms ms' : List AgentMessage} {rounds₁ : List ToolRound},
      parseToolRounds ms = .ok rounds₁ ∧
        (roundIds ms rounds₁).Sublist (roundIds messages rounds) →
      List.Forall₂ SameRounds ms ms' → ∃ rounds', parseToolRounds ms' = .ok rounds' ∧
        (roundIds ms' rounds').Sublist (roundIds messages rounds) := by
    rintro ms ms' rounds₁ ⟨hms, hids⟩ hsame
    obtain ⟨hparse', hids'⟩ := parse_same hsame hms
    exact ⟨rounds₁, hparse', hids' ▸ hids⟩
  induction h with
  | start => exact ⟨rounds, hparse, List.Sublist.refl _⟩
  | toolTrim _ hbuild ih =>
    obtain ⟨rounds₁, h₁⟩ := ih
    obtain ⟨replacements, hreplaces, hmessages⟩ := toolTrim_replaced hbuild
    rw [hmessages]
    exact hsame h₁ (replaced_same hreplaces)
  | allToolResults _ hbuild ih =>
    obtain ⟨rounds₁, h₁⟩ := ih
    obtain ⟨replacements, hreplaces, hmessages⟩ := allToolResults_replaced hbuild
    rw [hmessages]
    exact hsame h₁ (replaced_same hreplaces)
  | attachmentFree _ ih =>
    obtain ⟨rounds₁, h₁⟩ := ih
    exact hsame h₁ (forall₂_map_right sameRounds_attachmentFree _)
  | @middleDeletion ms fits candidate _ hbuild ih =>
    obtain ⟨rounds₁, h₁, hids⟩ := ih
    obtain ⟨segments, hvalid, rfl, rfl⟩ := parseToolRounds_iff.1 h₁
    obtain ⟨answer, hanswer, hdeletes⟩ := middleDeletion_ok hvalid fits
    rw [hbuild] at hanswer
    cases hanswer
    obtain ⟨-, -, k, -, rfl, -⟩ := hdeletes.some candidate rfl
    obtain ⟨rounds', hparse', hids'⟩ := parse_without hvalid _
    exact ⟨rounds', hparse', hids'.trans hids⟩
  | protectedSkeleton _ hbuild ih =>
    obtain ⟨rounds₁, h₁, hids⟩ := ih
    obtain ⟨segments, hvalid, rfl, rfl⟩ := parseToolRounds_iff.1 h₁
    obtain ⟨rounds', hparse', hids'⟩ := parse_skeleton hvalid hbuild
    exact ⟨rounds', hparse', hids'.trans hids⟩

/-- Reductions in any order keep a history well formed: rounds survive with the same call and
result ids, what does not delete changes texts of results or media only, and a middle deletion
answers the first fitting history in its order, from one deleted closure on. -/
theorem reductions_well_formed {messages : List AgentMessage} {rounds : List ToolRound}
    (hparse : parseToolRounds messages = .ok rounds) :
    (∀ candidate, Ladder messages candidate → ∃ rounds',
      parseToolRounds candidate = .ok rounds' ∧
        (roundIds candidate rounds').Sublist (roundIds messages rounds)) ∧
    (∀ candidate, buildToolTrimCandidate messages = .ok candidate ∨
        buildAllToolResultsCandidate messages = .ok candidate →
      Rewrites TrimsResult messages candidate.messages) ∧
    Rewrites DropsMedia messages (buildAttachmentFreeCandidate messages).messages ∧
    ∀ fits, ∃ closures answer, buildHistoryClosures messages = .ok closures ∧
      buildMiddleDeletionCandidate messages fits = .ok answer ∧
      DeletesMiddle messages rounds fits closures answer := by
  refine ⟨fun candidate h => h.parse hparse, fun candidate h => ?_, rewrites_attachmentFree _,
    fun fits => ?_⟩
  · have hreplaced : ∃ replacements, Replaces messages replacements ∧
        candidate.messages = replaced replacements messages :=
      h.elim toolTrim_replaced allToolResults_replaced
    obtain ⟨replacements, hreplaces, hmessages⟩ := hreplaced
    rw [hmessages]
    exact rewrites_replaced hreplaces
  · obtain ⟨segments, hvalid, rfl, rfl⟩ := parseToolRounds_iff.1 hparse
    obtain ⟨answer, hanswer, hdeletes⟩ := middleDeletion_ok hvalid fits
    exact ⟨_, answer, buildHistoryClosures_history hvalid, hanswer, hdeletes⟩

section Run

/-- Two questions, with a tool round and an answer between them. -/
def roundHistory : List AgentMessage :=
  [{ fields := [("role", .string "user"), ("content", .string "hi")] },
    { fields := [("role", .string "assistant"), ("content", .array [.object
      [("type", .string "toolCall"), ("id", .string "c1"), ("name", .string "read"),
        ("arguments", .object [])]])] },
    { fields := [("role", .string "toolResult"), ("toolCallId", .string "c1"),
      ("content", .array [textBlock "out"])] },
    { fields := [("role", .string "assistant"), ("content", .array [textBlock "done"])] },
    { fields := [("role", .string "user"), ("content", .string "more")] }]

def roundHistoryRounds : List ToolRound :=
  [{ assistantIndex := 1, resultIndexes := [2]
     toolCallsById := [{ id := "c1", name := "read", arguments := .object [] }], settled := true }]

theorem reductions_well_formed_roundHistory :
    parseToolRounds roundHistory = .ok roundHistoryRounds ∧
      ∀ candidate, Ladder roundHistory candidate → ∃ rounds',
        parseToolRounds candidate = .ok rounds' ∧
          (roundIds candidate rounds').Sublist (roundIds roundHistory roundHistoryRounds) :=
  have hparse : parseToolRounds roundHistory = .ok roundHistoryRounds := rfl
  ⟨hparse, (reductions_well_formed hparse).1⟩

/-- The empty prefix of the order fits, but nothing can be deleted; and what is deleted first of
the other history is no tool round but a message between the rounds. -/
theorem middleDeletion_not_as_claimed :
    (buildMiddleDeletionCandidate (roundHistory.take 1) (fun _ => true) = .ok none ∧
      parseToolRounds (roundHistory.take 1) = .ok [] ∧
      without (roundHistory.take 1) [[0]] [] = roundHistory.take 1) ∧
    parseToolRounds (roundHistory.take 1 ++ roundHistory.drop 3) = .ok [] ∧
      buildMiddleDeletionCandidate (roundHistory.take 1 ++ roundHistory.drop 3) (fun _ => true) =
        .ok (some (roundHistory.take 1 ++ roundHistory.drop 4)) :=
  ⟨⟨rfl, rfl, rfl⟩, rfl, rfl⟩

end Run

end HistoryReduction

end Kinetick
