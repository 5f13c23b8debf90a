import Kinetick.Proofs.MentionBlocks

/-!
# Round trips of mentions

The segments are read from the blocks one by one, so what an editor held comes back part by part,
each text restored. A string of any other origin is cut into its segments just so.
-/

namespace Kinetick.Mention

variable {reference : AgentReference} {raw : List Char} {parts : List Part}

/-! ### Segments read from blocks -/

theorem appendText_nil (segments : List AgentReferenceSegment) :
    appendText segments [] = segments := if_pos rfl

theorem appendText_append (segments : List AgentReferenceSegment) (a b : List Char) :
    appendText (appendText segments a) b = appendText segments (a ++ b) := by
  by_cases ha : a = []
  · rw [ha, appendText_nil, List.nil_append]
  · by_cases hb : b = []
    · rw [hb, appendText_nil, List.append_nil]
    · have hab : a ++ b ≠ [] := by simp [ha]
      unfold appendText
      rw [if_neg ha, if_neg hb, if_neg hab]
      rcases hlast : segments.getLast? with _ | ⟨previous⟩ | ⟨reference, raw⟩
      · simp
      · simp [List.append_assoc]
      · simp

/-- The segments before texts are restored, with the errors of the blocks, after those given. -/
def readFrom (segments : List AgentReferenceSegment) (errorCodes : List AgentReferenceErrorCode)
    (found : List (List Char × List Char) × List Char) :
    List AgentReferenceSegment × List AgentReferenceErrorCode :=
  let (segments, errorCodes) := found.1.foldl addBlock (segments, errorCodes)
  (appendText segments found.2, errorCodes)

theorem readFrom_nil (segments : List AgentReferenceSegment)
    (errorCodes : List AgentReferenceErrorCode) (last : List Char) :
    readFrom segments errorCodes ([], last) = (appendText segments last, errorCodes) := rfl

theorem readFrom_cons (segments : List AgentReferenceSegment)
    (errorCodes : List AgentReferenceErrorCode) (block : List Char × List Char)
    (blocks : List (List Char × List Char)) (last : List Char) :
    readFrom segments errorCodes (block :: blocks, last) =
      readFrom (addBlock (segments, errorCodes) block).1 (addBlock (segments, errorCodes) block).2
        (blocks, last) := rfl

theorem readFrom_before (segments : List AgentReferenceSegment)
    (errorCodes : List AgentReferenceErrorCode) (p : List Char)
    (found : List (List Char × List Char) × List Char) :
    readFrom segments errorCodes (before p found) =
      readFrom (appendText segments p) errorCodes found := by
  obtain ⟨_ | ⟨⟨text, raw⟩, blocks⟩, last⟩ := found
  · rw [readFrom_nil, appendText_append]
    rfl
  · have hblock : addBlock (segments, errorCodes) (p ++ text, raw) =
        addBlock (appendText segments p, errorCodes) (text, raw) := by
      simp only [addBlock, appendText_append]
    rw [readFrom_cons, ← hblock]
    rfl

theorem parse_eq_readFrom (content : List Char) : parseAgentReferences content =
    ((readFrom [] [] (matchAll 0 content)).1.map AgentReferenceSegment.restore,
      if (readFrom [] [] (matchAll 0 content)).1.any AgentReferenceSegment.hasLiteral then
        appendError (readFrom [] [] (matchAll 0 content)).2 .invalidAgentReference
      else (readFrom [] [] (matchAll 0 content)).2) := rfl

/-! ### What an editor held -/

/-- The segment that is read from what is kept of a part. -/
def Part.kept : Part → AgentReferenceSegment
  | text content => .text (escapeAgentReferenceLiterals content)
  | agentReference reference =>
    .agentReference reference ((serializeAgentReference reference).getD [])

/-- No text follows another. -/
def Joins (segments : List AgentReferenceSegment) (parts : List Part) : Prop :=
  ∀ previous content next, segments.getLast? = some (.text previous) →
    parts ≠ .text content :: next

theorem escape_ne_nil {content : List Char} (h : content ≠ []) :
    escapeAgentReferenceLiterals content ≠ [] := by
  cases content with
  | nil => exact absurd rfl h
  | cons c l =>
    rw [escape_cons]
    split_ifs <;> simp

theorem stored_cons (part : Part) (parts : List Part) :
    stored (part :: parts) = part.stored ++ stored parts := List.flatMap_cons

theorem serialized_head (h : serializeAgentReference reference = some raw) :
    raw.head? = some '<' := by
  obtain ⟨attributes, body, rfl, -⟩ := serialized_eq h
  rfl

/-- What follows a text is a reference or the end. -/
theorem follows_stored (h : Alternating parts)
    (htext : ∀ content next, parts ≠ .text content :: next) : Follows (stored parts) := by
  match parts with
  | [] =>
    intro c hc
    cases hc
  | .text content :: parts => exact absurd rfl (htext content parts)
  | .agentReference reference :: parts =>
    obtain ⟨raw, hraw⟩ := Option.isSome_iff_exists.1 h.1
    intro c hc
    rw [stored_cons, Part.stored, hraw, Option.getD_some, List.head?_append,
      serialized_head hraw] at hc
    exact (Option.some.inj hc).symm

theorem alternating_text {content : List Char} (h : Alternating (.text content :: parts)) :
    ∀ content' next, parts ≠ .text content' :: next := fun content' next => h.2.1 next content'

/-- A text is read as what is kept of it, before what is read next. -/
theorem matchAll_text {content : List Char} (h : Alternating (.text content :: parts))
    (hundisguised : Undisguised (.text content :: parts)) :
    matchAll 0 (stored (.text content :: parts)) =
      before (escapeAgentReferenceLiterals content) (matchAll 0 (stored parts)) := by
  have hliteral := not_occurs_literalAt_escape content
  by_cases hdisguised : occurs disguisedAt content = true
  · have hnil : parts = [] := by
      match parts with
      | [] => rfl
      | .text content' :: next => exact absurd rfl (alternating_text h content' next)
      | .agentReference reference :: next =>
        exact absurd List.mem_cons_self (hundisguised.1 hdisguised reference)
    rw [hnil, stored_cons, Part.stored, stored, List.flatMap_nil, List.append_nil,
      matchAll_eq_self hliteral, matchAll, before, List.append_nil]
  · rw [stored_cons, Part.stored]
    refine matchAll_append hliteral ?_ (follows_stored h.2.2 (alternating_text h))
    rw [occurs_disguisedAt_escape, Bool.eq_false_iff]
    exact hdisguised

/-- Parts without disguised tags before references are read one by one. -/
theorem readFrom_stored (h : Alternating parts) (hundisguised : Undisguised parts)
    (segments : List AgentReferenceSegment) (errorCodes : List AgentReferenceErrorCode)
    (hjoins : Joins segments parts) :
    readFrom segments errorCodes (matchAll 0 (stored parts)) =
      (segments ++ parts.map Part.kept, errorCodes) := by
  induction parts generalizing segments with
  | nil => simp [stored, matchAll, readFrom_nil, appendText_nil]
  | cons part parts ih =>
    cases part with
    | text content =>
      have happend : appendText segments (escapeAgentReferenceLiterals content) =
          segments ++ [Part.kept (.text content)] := by
        unfold appendText
        rw [if_neg (escape_ne_nil h.1)]
        rcases hlast : segments.getLast? with _ | ⟨previous⟩ | ⟨reference, raw⟩
        · rfl
        · exact absurd rfl (hjoins previous content parts hlast)
        · rfl
      rw [matchAll_text h hundisguised, readFrom_before, happend, ih h.2.2 hundisguised.2]
      · simp
      · exact fun previous content' next _ => alternating_text h content' next
    | agentReference reference =>
      obtain ⟨raw, hraw⟩ := Option.isSome_iff_exists.1 h.1
      have hne : raw ≠ [] := by
        rintro rfl
        cases serialized_head hraw
      have hkept : Part.kept (.agentReference reference) = .agentReference reference raw := by
        rw [Part.kept, hraw]
        rfl
      rw [stored_cons, Part.stored, hraw, Option.getD_some,
        matchAll_block (blockAt_serialized hraw _) hne, readFrom_cons]
      simp only [addBlock, parse_serialized hraw, appendText_nil]
      have hjoins' : Joins (segments ++ [.agentReference reference raw]) parts := by
        intro previous content next hlast
        simp at hlast
      rw [Prod.mk.eta, ih h.2 hundisguised _ hjoins', List.map_cons, hkept]
      simp

theorem kept_restore_eq_segment_iff (part : Part) : part.kept.restore = part.segment ↔
    ∀ content, part = .text content → occurs escapedLiteralAt content = false := by
  cases part with
  | text content =>
    rw [Part.kept, AgentReferenceSegment.restore, Part.segment, AgentReferenceSegment.text.injEq,
      restore_escape, restore_eq_self_iff]
    constructor
    · rintro h content' ⟨⟩
      exact h
    · exact fun h => h content rfl
  | agentReference reference =>
    constructor
    · rintro - content ⟨⟩
    · exact fun _ => rfl

theorem not_any_hasLiteral (parts : List Part) :
    (parts.map Part.kept).any AgentReferenceSegment.hasLiteral = false := by
  rw [List.any_eq_false]
  intro segment hmem
  obtain ⟨part, -, rfl⟩ := List.mem_map.1 hmem
  cases part with
  | text content => simp [Part.kept, AgentReferenceSegment.hasLiteral, not_occurs_literalAt_escape]
  | agentReference reference => simp [Part.kept, AgentReferenceSegment.hasLiteral]

/-- Parts without disguised tags before references come back restored. -/
theorem parse_stored (h : Alternating parts) (hundisguised : Undisguised parts) :
    parseAgentReferences (stored parts) =
      (parts.map fun part => part.kept.restore, []) := by
  have hjoins : Joins [] parts := by
    intro previous content next hlast
    cases hlast
  rw [parse_eq_readFrom, readFrom_stored h hundisguised [] [] hjoins]
  simp only [List.nil_append, not_any_hasLiteral, List.map_map]
  rfl

/-! ### A block that is no reference -/

theorem appendError_ne_nil (errorCodes : List AgentReferenceErrorCode)
    (errorCode : AgentReferenceErrorCode) : appendError errorCodes errorCode ≠ [] := by
  unfold appendError
  split_ifs with h
  · rintro rfl
    cases h
  · simp

theorem addBlock_ne_nil (result : List AgentReferenceSegment × List AgentReferenceErrorCode)
    (block : List Char × List Char)
    (h : result.2 ≠ [] ∨ parseSerializedAgentReference block.2 = none) :
    (addBlock result block).2 ≠ [] := by
  unfold addBlock
  cases hparse : parseSerializedAgentReference block.2 with
  | none => exact appendError_ne_nil _ _
  | some reference =>
    rcases h with h | h
    · exact h
    · rw [hparse] at h
      cases h

theorem foldl_addBlock_ne_nil (blocks : List (List Char × List Char))
    (result : List AgentReferenceSegment × List AgentReferenceErrorCode)
    (h : result.2 ≠ [] ∨ ∃ block ∈ blocks, parseSerializedAgentReference block.2 = none) :
    (blocks.foldl addBlock result).2 ≠ [] := by
  induction blocks generalizing result with
  | nil =>
    rcases h with h | ⟨block, hmem, -⟩
    · exact h
    · cases hmem
  | cons block blocks ih =>
    rw [List.foldl_cons]
    refine ih _ ?_
    rcases h with h | ⟨block', hmem, hparse⟩
    · exact Or.inl (addBlock_ne_nil _ _ (Or.inl h))
    · rcases List.mem_cons.1 hmem with rfl | hmem
      · exact Or.inl (addBlock_ne_nil _ _ (Or.inr hparse))
      · exact Or.inr ⟨block', hmem, hparse⟩

theorem parse_of_malformed {content : List Char} (h : Malformed (matchAll 0 content)) :
    (parseAgentReferences content).2 ≠ [] := by
  have hfold := foldl_addBlock_ne_nil (matchAll 0 content).1 ([], []) (Or.inr h)
  rw [parse_eq_readFrom]
  dsimp only
  split_ifs
  · exact appendError_ne_nil _ _
  · exact hfold

theorem undisguised_of_no_reference (h : ∀ reference, .agentReference reference ∉ parts) :
    Undisguised parts := by
  induction parts with
  | nil => trivial
  | cons part parts ih =>
    have hrest : ∀ reference, .agentReference reference ∉ parts :=
      fun reference hmem => h reference (List.mem_cons_of_mem _ hmem)
    cases part with
    | text content => exact ⟨fun _ => hrest, ih hrest⟩
    | agentReference reference => exact absurd List.mem_cons_self (h reference)

theorem exists_stored_split (h : Alternating parts) (hmem : .agentReference reference ∈ parts) :
    ∃ r raw r', serializeAgentReference reference = some raw ∧
      stored parts = r ++ (raw ++ r') := by
  induction parts with
  | nil => cases hmem
  | cons part parts ih =>
    rcases List.mem_cons.1 hmem with rfl | hmem
    · obtain ⟨raw, hraw⟩ := Option.isSome_iff_exists.1 h.1
      refine ⟨[], raw, stored parts, hraw, ?_⟩
      rw [stored_cons, Part.stored, hraw]
      rfl
    · have hrest : Alternating parts := by
        cases part with
        | text content => exact h.2.2
        | agentReference reference => exact h.2
      obtain ⟨r, raw, r', hraw, hsplit⟩ := ih hrest hmem
      refine ⟨part.stored ++ r, raw, r', hraw, ?_⟩
      rw [stored_cons, hsplit, List.append_assoc]

/-- A disguised tag before a reference makes a block that is no reference. -/
theorem malformed_of_not_undisguised (h : Alternating parts) (hnot : ¬ Undisguised parts) :
    Malformed (matchAll 0 (stored parts)) := by
  induction parts with
  | nil => exact absurd trivial hnot
  | cons part parts ih =>
    cases part with
    | text content =>
      have hliteral := not_occurs_literalAt_escape content
      have hfollows := follows_stored h.2.2 (alternating_text h)
      rw [stored_cons, Part.stored]
      by_cases hdisguised : occurs disguisedAt content = true
      · have hreference : ∃ reference, .agentReference reference ∈ parts := by
          by_contra hnone
          rw [not_exists] at hnone
          exact hnot ⟨fun _ => hnone, undisguised_of_no_reference hnone⟩
        obtain ⟨reference, hmem⟩ := hreference
        obtain ⟨r, raw, r', hraw, hsplit⟩ := exists_stored_split h.2.2 hmem
        rw [hsplit] at hfollows ⊢
        rw [← occurs_disguisedAt_escape] at hdisguised
        exact malformed_of_disguised hliteral hdisguised hfollows hraw
      · have hrest : ¬ Undisguised parts :=
          fun hundisguised => hnot ⟨fun hd => absurd hd hdisguised, hundisguised⟩
        rw [matchAll_append hliteral (by rw [occurs_disguisedAt_escape, Bool.eq_false_iff]
                                         exact hdisguised) hfollows]
        exact (ih h.2.2 hrest).before _
    | agentReference reference =>
      obtain ⟨raw, hraw⟩ := Option.isSome_iff_exists.1 h.1
      have hne : raw ≠ [] := by
        rintro rfl
        cases serialized_head hraw
      obtain ⟨block, hmem, hparse⟩ := ih h.2 hnot
      rw [stored_cons, Part.stored, hraw, Option.getD_some,
        matchAll_block (blockAt_serialized hraw _) hne]
      exact ⟨block, List.mem_cons_of_mem _ hmem, hparse⟩

/-- What an editor held comes back where it is plain. -/
theorem roundTrips_iff (h : Alternating parts) : RoundTrips parts ↔ Plain parts := by
  by_cases hundisguised : Undisguised parts
  · unfold RoundTrips Plain
    rw [parse_stored h hundisguised, Prod.mk.injEq, List.map_inj_left]
    simp only [kept_restore_eq_segment_iff, and_true, hundisguised]
    constructor
    · exact fun hall content hmem => hall _ hmem content rfl
    · rintro hall part hmem content rfl
      exact hall content hmem
  · constructor
    · intro hround
      refine absurd ?_ (parse_of_malformed (malformed_of_not_undisguised h hundisguised))
      rw [hround]
    · exact fun hplain => absurd hplain.2 hundisguised

/-! ### The segments of any string -/

/-- What a segment was read from, before it was restored. -/
def AgentReferenceSegment.piece : AgentReferenceSegment → List Char
  | text content => content
  | agentReference _ raw => raw

/-- What the segments were read from. -/
def covered (segments : List AgentReferenceSegment) : List Char :=
  segments.flatMap AgentReferenceSegment.piece

theorem covered_append (a b : List AgentReferenceSegment) :
    covered (a ++ b) = covered a ++ covered b := List.flatMap_append

theorem covered_appendText (segments : List AgentReferenceSegment) (content : List Char) :
    covered (appendText segments content) = covered segments ++ content := by
  unfold appendText
  split_ifs with h
  · rw [h, List.append_nil]
  · rcases hlast : segments.getLast? with _ | ⟨previous⟩ | ⟨reference, raw⟩
    · rw [covered_append]
      simp [covered, AgentReferenceSegment.piece]
    · have hsplit : segments = segments.dropLast ++ [.text previous] :=
        (List.dropLast_append_getLast? _ hlast).symm
      dsimp only
      rw [covered_append]
      conv_rhs => rw [hsplit, covered_append]
      simp [covered, AgentReferenceSegment.piece]
    · rw [covered_append]
      simp [covered, AgentReferenceSegment.piece]

theorem mem_appendText {segments : List AgentReferenceSegment} {content : List Char} :
    .agentReference reference raw ∈ appendText segments content ↔
      .agentReference reference raw ∈ segments := by
  unfold appendText
  split_ifs with h
  · rfl
  · rcases hlast : segments.getLast? with _ | ⟨previous⟩ | ⟨reference', raw'⟩
    · simp
    · have hsplit : segments = segments.dropLast ++ [.text previous] :=
        (List.dropLast_append_getLast? _ hlast).symm
      dsimp only
      conv_rhs => rw [hsplit]
      simp
    · simp

/-- The blocks, with what stands between them. -/
def spread (found : List (List Char × List Char) × List Char) : List Char :=
  found.1.flatMap (fun block => block.1 ++ block.2) ++ found.2

theorem spread_before (p : List Char) (found : List (List Char × List Char) × List Char) :
    spread (before p found) = p ++ spread found := by
  obtain ⟨_ | ⟨block, blocks⟩, last⟩ := found <;> simp [spread, before]

theorem blockAt_ne_nil {l : List Char} (h : blockAt l = some raw) : raw ≠ [] := by
  obtain ⟨rest, attributes, body, inner, -, -, -, rfl⟩ := of_blockAt h
  simp

theorem spread_matchAll (content : List Char) : spread (matchAll 0 content) = content := by
  induction h : content.length using Nat.strong_induction_on generalizing content with
  | _ n ih =>
    cases content with
    | nil => rfl
    | cons c l =>
      rw [List.length_cons] at h
      cases hblock : blockAt (c :: l) with
      | none => rw [matchAll_of_none hblock, spread_before, ih l.length (by omega) l rfl]; rfl
      | some raw =>
        obtain ⟨rest, heq⟩ := exists_of_blockAt hblock
        have hne := blockAt_ne_nil hblock
        rw [heq] at hblock ⊢
        have hlength : rest.length < n := by
          have hle := congrArg List.length heq
          have hpos := List.length_pos_iff.2 hne
          rw [List.length_cons, List.length_append] at hle
          omega
        rw [matchAll_block hblock hne]
        simpa [spread] using ih rest.length hlength rest rfl

theorem covered_readFrom (segments : List AgentReferenceSegment)
    (errorCodes : List AgentReferenceErrorCode) (blocks : List (List Char × List Char))
    (last : List Char) : covered (readFrom segments errorCodes (blocks, last)).1 =
      covered segments ++ spread (blocks, last) := by
  induction blocks generalizing segments errorCodes with
  | nil => rw [readFrom_nil, covered_appendText]; rfl
  | cons block blocks ih =>
    have hblock : covered (addBlock (segments, errorCodes) block).1 =
        covered segments ++ (block.1 ++ block.2) := by
      unfold addBlock
      cases parseSerializedAgentReference block.2 with
      | none => rw [covered_appendText, covered_appendText, List.append_assoc]
      | some reference =>
        rw [covered_append, covered_appendText, List.append_assoc]
        simp [covered, AgentReferenceSegment.piece]
    rw [readFrom_cons, ih, hblock]
    simp [spread]

theorem mem_readFrom (segments : List AgentReferenceSegment)
    (errorCodes : List AgentReferenceErrorCode) (blocks : List (List Char × List Char))
    (last : List Char) :
    .agentReference reference raw ∈ (readFrom segments errorCodes (blocks, last)).1 ↔
      .agentReference reference raw ∈ segments ∨
        ∃ block ∈ blocks, block.2 = raw ∧ parseSerializedAgentReference raw = some reference := by
  induction blocks generalizing segments errorCodes with
  | nil => rw [readFrom_nil, mem_appendText]; simp
  | cons block blocks ih =>
    have hblock : .agentReference reference raw ∈ (addBlock (segments, errorCodes) block).1 ↔
        .agentReference reference raw ∈ segments ∨
          (block.2 = raw ∧ parseSerializedAgentReference raw = some reference) := by
      unfold addBlock
      cases hparse : parseSerializedAgentReference block.2 with
      | none =>
        rw [mem_appendText, mem_appendText]
        constructor
        · exact Or.inl
        · rintro (h | ⟨rfl, h⟩)
          · exact h
          · rw [hparse] at h
            cases h
      | some reference' =>
        rw [List.mem_append, mem_appendText, List.mem_singleton,
          AgentReferenceSegment.agentReference.injEq]
        constructor
        · rintro (h | ⟨rfl, rfl⟩)
          · exact Or.inl h
          · exact Or.inr ⟨rfl, hparse⟩
        · rintro (h | ⟨rfl, h⟩)
          · exact Or.inl h
          · rw [hparse] at h
            exact Or.inr ⟨(Option.some.inj h).symm, rfl⟩
    rw [readFrom_cons, ih, hblock, or_assoc]
    refine or_congr Iff.rfl ?_
    rw [List.exists_mem_cons_iff]

/-- A segment is a reference where it was read from a block that is one. -/
theorem mem_parse_iff {content : List Char} :
    .agentReference reference raw ∈ (parseAgentReferences content).1 ↔
      ∃ block ∈ (matchAll 0 content).1,
        block.2 = raw ∧ parseSerializedAgentReference raw = some reference := by
  rw [parse_eq_readFrom]
  dsimp only
  rw [List.mem_map]
  constructor
  · rintro ⟨segment, hmem, hrestore⟩
    cases segment with
    | text content => cases hrestore
    | agentReference reference' raw' =>
      have heq : AgentReferenceSegment.agentReference reference' raw' =
          .agentReference reference raw := hrestore
      rw [heq, mem_readFrom] at hmem
      simpa using hmem
  · intro h
    exact ⟨_, (mem_readFrom ..).2 (Or.inr h), rfl⟩

theorem restore_keeps (segment : AgentReferenceSegment) : Keeps segment.piece segment.restore := by
  cases segment with
  | text content => exact fun h => restore_eq_self_iff.2 h
  | agentReference reference raw => rfl

/-- A string is cut into the pieces of its segments. -/
theorem parse_keeps (content : List Char) : ∃ pieces : List (List Char),
    pieces.flatten = content ∧ List.Forall₂ Keeps pieces (parseAgentReferences content).1 := by
  refine ⟨(readFrom [] [] (matchAll 0 content)).1.map AgentReferenceSegment.piece, ?_, ?_⟩
  · have h := covered_readFrom [] [] (matchAll 0 content).1 (matchAll 0 content).2
    rw [Prod.mk.eta, spread_matchAll] at h
    rw [← List.flatMap_def]
    exact h
  · rw [parse_eq_readFrom]
    dsimp only
    generalize (readFrom [] [] (matchAll 0 content)).1 = segments
    induction segments with
    | nil => exact List.Forall₂.nil
    | cons segment segments ih => exact List.Forall₂.cons (restore_keeps segment) ih

/-- What is read as a reference is what the serializer writes where its attributes are well
spelled. -/
theorem serialize_iff_wellSpelled (h : parseSerializedAgentReference raw = some reference) :
    serializeAgentReference reference = some raw ↔ ∀ attributes ∈ exactAgentReference raw,
      UriComponent.wellSpelled attributes.1 = true ∧
        UriComponent.wellSpelled attributes.2.1 = true := by
  obtain ⟨husable, husable', requestRef, displayName, hexact, href, hname⟩ := parse_eq_some_iff.1 h
  constructor
  · intro hserialize attributes hattributes
    rw [exact_serialized hserialize] at hexact hattributes
    simp only [Option.some.injEq, Prod.mk.injEq] at hexact
    obtain ⟨rfl, rfl, -⟩ := hexact
    rw [← Option.some.inj hattributes, UriComponent.wellSpelled_iff_encode href,
      UriComponent.wellSpelled_iff_encode hname]
    exact ⟨rfl, rfl⟩
  · intro hspelled
    obtain ⟨hr, hd⟩ := hspelled _ hexact
    rw [UriComponent.wellSpelled_iff_encode href] at hr
    rw [UriComponent.wellSpelled_iff_encode hname] at hd
    rw [serialize_eq, husable, husable', hr, hd, ← exact_eq_some hexact]
    rfl

/-- A string is cut faithfully where its references are well spelled. -/
theorem faithful_iff (content : List Char) : Faithful content ↔ WellSpelled content := by
  constructor
  · rintro ⟨-, hserialize⟩ block hmem hparse
    obtain ⟨reference, hreference⟩ := Option.isSome_iff_exists.1 hparse
    exact (serialize_iff_wellSpelled hreference).1
      (hserialize _ _ (mem_parse_iff.2 ⟨block, hmem, rfl, hreference⟩))
  · intro hspelled
    refine ⟨parse_keeps content, ?_⟩
    intro reference raw hmem
    obtain ⟨block, hblock, rfl, hparse⟩ := mem_parse_iff.1 hmem
    exact (serialize_iff_wellSpelled hparse).2
      (hspelled block hblock (Option.isSome_iff_exists.2 ⟨_, hparse⟩))

/-- What an editor held comes back where it is plain, and a string is cut faithfully where its
references are well spelled. -/
theorem mentions_kept (parts : List Part) (h : Alternating parts) (content : List Char) :
    (RoundTrips parts ↔ Plain parts) ∧ (Faithful content ↔ WellSpelled content) :=
  ⟨roundTrips_iff h, faithful_iff content⟩

def reviewer : AgentReference := ⟨"r/1", "B"⟩

/-- A literal, a reference, a partial tag and another reference come back, and the string that is
kept of them is cut faithfully. -/
theorem mentions_kept_reviewer :
    RoundTrips [.text "see </Agent-Reference> and ".toList, .agentReference reviewer,
        .text " <agent-ref".toList, .agentReference reviewer] ∧
      Faithful
        "<agent-reference request-ref=\"a%20b\" display-name=\"c\">@c</agent-reference>".toList := by
  have h := mentions_kept [.text "see </Agent-Reference> and ".toList, .agentReference reviewer,
    .text " <agent-ref".toList, .agentReference reviewer] (by simp [Alternating]; decide)
    "<agent-reference request-ref=\"a%20b\" display-name=\"c\">@c</agent-reference>".toList
  have hwell : WellSpelled
      "<agent-reference request-ref=\"a%20b\" display-name=\"c\">@c</agent-reference>".toList := by
    unfold WellSpelled
    decide
  refine ⟨h.1.2 ⟨?_, ?_⟩, h.2.2 hwell⟩
  · simp only [List.mem_cons, List.not_mem_nil, or_false, reduceCtorEq, false_or,
      Part.text.injEq]
    rintro content (rfl | rfl)
    · decide
    · decide
  · exact ⟨fun hdisguised => absurd hdisguised (by decide),
      fun hdisguised => absurd hdisguised (by decide), trivial⟩

/-- A tag that the user escaped comes back unescaped; a disguised tag takes the reference after it;
and a reference that is spelled otherwise than the serializer does is read as one. -/
theorem escaped_disguised_misspelled :
    (Alternating [.text "&lt;agent-reference".toList] ∧
      ¬ RoundTrips [.text "&lt;agent-reference".toList]) ∧
    (Alternating [.text "<agent-reference\u017f".toList, .agentReference reviewer] ∧
      ¬ RoundTrips [.text "<agent-reference\u017f".toList, .agentReference reviewer]) ∧
    ¬ Faithful
      "<agent-reference request-ref=\"%61\" display-name=\"b\">@b</agent-reference>".toList := by
  refine ⟨⟨⟨by decide, by simp, trivial⟩, by decide⟩,
    ⟨⟨by decide, by simp, by decide, trivial⟩, by decide⟩, ?_⟩
  · rintro ⟨-, h⟩
    have hmem := h ⟨"a", "b"⟩
      "<agent-reference request-ref=\"%61\" display-name=\"b\">@b</agent-reference>".toList
      (by decide)
    revert hmem
    decide

end Kinetick.Mention
