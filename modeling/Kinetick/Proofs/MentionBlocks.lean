import Kinetick.Proofs.MentionLiterals

/-!
# Blocks

What the serializer writes is a block, whatever follows it, and is read back as the reference. What
was escaped begins a block only with a disguised tag, and the block is no reference then.
-/

namespace Kinetick.Mention

variable {c : Char} {l p rest raw : List Char} {reference : AgentReference}

/-! ### The parts of a block -/

theorem throughTag_append (hp : '>' ∉ p) (l : List Char) :
    throughTag (p ++ '>' :: l) = some (p ++ ['>'], l) := by
  induction p with
  | nil => rfl
  | cons c p ih =>
    rw [List.mem_cons, not_or] at hp
    rw [List.cons_append, throughTag, if_neg (Ne.symm hp.1), ih hp.2]
    rfl

theorem exists_throughTag (hp : '>' ∈ p) (l : List Char) :
    ∃ taken rest, throughTag (p ++ l) = some (taken, rest ++ l) := by
  induction p with
  | nil => cases hp
  | cons c p ih =>
    rw [List.cons_append, throughTag]
    split_ifs with hc
    · exact ⟨['>'], p, rfl⟩
    · obtain ⟨taken, rest, h⟩ := ih ((List.mem_cons.1 hp).resolve_left (Ne.symm hc))
      exact ⟨c :: taken, rest, by rw [h]; rfl⟩

theorem throughTag_eq {taken : List Char} (h : throughTag l = some (taken, rest)) :
    l = taken ++ rest := by
  induction l generalizing taken with
  | nil => cases h
  | cons c l ih =>
    rw [throughTag] at h
    split_ifs at h with hc
    · obtain ⟨rfl, rfl⟩ := Prod.mk.inj (Option.some.inj h)
      rw [hc]
      rfl
    · obtain ⟨⟨taken', rest'⟩, htail, heq⟩ := Option.map_eq_some_iff.1 h
      obtain ⟨rfl, rfl⟩ := Prod.mk.inj heq
      rw [ih htail, List.cons_append]

def closing : List Char := "</agent-reference>".toList

theorem closerAt_of_ne (hc : c ≠ '<') (l : List Char) : closerAt (c :: l) = none := by
  have hnot : ¬ "</agent-reference".toList.isPrefixOf (c :: l) = true := by
    rw [List.isPrefixOf_iff_prefix]
    rintro ⟨rest, heq⟩
    exact hc (List.cons.inj heq).1.symm
  rw [closerAt, if_neg hnot]

theorem closerAt_prefix {closer : List Char} (h : closerAt l = some closer) : closer <+: l := by
  unfold closerAt at h
  split_ifs at h
  dsimp only at h
  split_ifs at h
  rw [← Option.some.inj h]
  exact List.take_prefix ..

theorem throughCloser_closing (hp : '<' ∉ p) (l : List Char) :
    throughCloser (p ++ (closing ++ l)) = some (p ++ closing) := by
  induction p with
  | nil => rfl
  | cons c p ih =>
    rw [List.mem_cons, not_or] at hp
    rw [List.cons_append, throughCloser, closerAt_of_ne (Ne.symm hp.1)]
    dsimp only
    rw [ih hp.2]
    rfl

theorem exists_throughCloser (p l : List Char) :
    ∃ inner, throughCloser (p ++ (closing ++ l)) = some inner := by
  induction p with
  | nil => exact ⟨closing, rfl⟩
  | cons c p ih =>
    obtain ⟨inner, h⟩ := ih
    rw [List.cons_append, throughCloser]
    cases closerAt (c :: (p ++ (closing ++ l))) with
    | some closer => exact ⟨closer, rfl⟩
    | none => exact ⟨c :: inner, by dsimp only; rw [h]; rfl⟩

theorem throughCloser_prefix {inner : List Char} (h : throughCloser l = some inner) :
    inner <+: l := by
  induction l generalizing inner with
  | nil => cases h
  | cons c l ih =>
    rw [throughCloser] at h
    cases hcloser : closerAt (c :: l) with
    | some closer =>
      rw [hcloser] at h
      rw [← Option.some.inj h]
      exact closerAt_prefix hcloser
    | none =>
      rw [hcloser] at h
      obtain ⟨inner', htail, rfl⟩ := Option.map_eq_some_iff.1 h
      exact List.cons_prefix_cons.2 ⟨rfl, ih htail⟩

theorem blockAt_eq {attributes body inner : List Char} (hopener : openerAt l = some rest)
    (htag : throughTag rest = some (attributes, body)) (hinner : throughCloser body = some inner) :
    blockAt l = some ('<' :: tag ++ attributes ++ inner) := by
  rw [blockAt, hopener]
  dsimp only
  rw [htag]
  dsimp only
  rw [hinner]
  rfl

theorem of_blockAt (h : blockAt l = some raw) : ∃ rest attributes body inner,
    openerAt l = some rest ∧ throughTag rest = some (attributes, body) ∧
      throughCloser body = some inner ∧ raw = '<' :: tag ++ attributes ++ inner := by
  unfold blockAt at h
  cases hopener : openerAt l with
  | none => simp [hopener] at h
  | some rest =>
    rw [hopener] at h
    dsimp only at h
    cases htag : throughTag rest with
    | none => simp [htag] at h
    | some taken =>
      rw [htag] at h
      dsimp only at h
      obtain ⟨inner, hinner, heq⟩ := Option.map_eq_some_iff.1 h
      exact ⟨rest, taken.1, taken.2, inner, rfl, htag, hinner, heq.symm⟩

/-- A block is the beginning of the text it is at. -/
theorem exists_of_blockAt (h : blockAt l = some raw) : ∃ rest, l = raw ++ rest := by
  obtain ⟨rest, attributes, body, inner, hopener, htag, hinner, rfl⟩ := of_blockAt h
  obtain ⟨rest', rfl⟩ := throughCloser_prefix hinner
  refine ⟨rest', ?_⟩
  rw [(openerAt_eq_some.1 hopener).1, throughTag_eq htag]
  simp only [List.append_assoc]

/-! ### What the serializer writes -/

def opening : List Char := " request-ref=\"".toList

def between : List Char := "\" display-name=\"".toList

/-- A reference, written. -/
def written (requestRef displayName body : List Char) : List Char :=
  '<' :: tag ++ (opening ++ requestRef ++ between ++ displayName ++ ['"']) ++ ['>'] ++
    (body ++ closing)

theorem serialize_eq : serializeAgentReference reference =
    if isUsableValue reference.requestRef && isUsableValue reference.displayName then
      some (written (UriComponent.encode reference.requestRef).toList
        (UriComponent.encode reference.displayName).toList
        (escapeText ('@' :: reference.displayName.toList)))
    else none := by
  rw [serializeAgentReference]
  split_ifs
  · refine congrArg some ?_
    simp only [written, List.append_assoc]
    rfl
  · rfl

theorem serialize_eq_some (h : serializeAgentReference reference = some raw) :
    isUsableValue reference.requestRef = true ∧ isUsableValue reference.displayName = true ∧
      raw = written (UriComponent.encode reference.requestRef).toList
        (UriComponent.encode reference.displayName).toList
        (escapeText ('@' :: reference.displayName.toList)) := by
  rw [serialize_eq] at h
  split_ifs at h with husable
  rw [Bool.and_eq_true] at husable
  exact ⟨husable.1, husable.2, (Option.some.inj h).symm⟩

/-! ### What is exact -/

theorem dropBeginning_append (p l : List Char) : dropBeginning p (p ++ l) = some l := by
  rw [dropBeginning, if_pos (List.isPrefixOf_iff_prefix.2 (List.prefix_append ..)), List.drop_left]

theorem dropBeginning_eq_some (h : dropBeginning p l = some rest) : l = p ++ rest := by
  unfold dropBeginning at h
  split_ifs at h with hprefix
  obtain ⟨rest', rfl⟩ := List.isPrefixOf_iff_prefix.1 hprefix
  rw [← Option.some.inj h, List.drop_left]

theorem attributeAt_append {value : List Char} (hvalue : '"' ∉ value) (hne : value ≠ [])
    (l : List Char) : attributeAt (value ++ '"' :: l) = some (value, l) := by
  have hquote : ∀ c ∈ value, decide (c ≠ '"') = true := by
    intro c hc
    rw [decide_eq_true_eq]
    rintro rfl
    exact hvalue hc
  have htake : (value ++ '"' :: l).takeWhile (· ≠ '"') = value := by
    rw [List.takeWhile_append_of_pos hquote]
    simp
  have hdrop : (value ++ '"' :: l).dropWhile (· ≠ '"') = '"' :: l := by
    rw [List.dropWhile_append_of_pos hquote]
    simp
  rw [attributeAt, htake, hdrop]
  cases value with
  | nil => exact absurd rfl hne
  | cons c value => rfl

theorem attributeAt_eq_some {value : List Char} (h : attributeAt l = some (value, rest)) :
    l = value ++ '"' :: rest ∧ '"' ∉ value ∧ value ≠ [] := by
  have hsplit : l.takeWhile (· ≠ '"') ++ l.dropWhile (· ≠ '"') = l :=
    List.takeWhile_append_dropWhile
  have hquote : '"' ∉ l.takeWhile (· ≠ '"') := by
    intro hmem
    have := List.all_eq_true.1 List.all_takeWhile _ hmem
    simp at this
  have hhead : ∀ c rest, l.dropWhile (· ≠ '"') = c :: rest → c = '"' := by
    intro c rest hdrop
    have := List.head?_dropWhile_not (· ≠ '"') l
    rw [hdrop] at this
    simpa using this
  unfold attributeAt at h
  cases htake : l.takeWhile (· ≠ '"') with
  | nil =>
    rw [htake] at h
    cases h
  | cons c value' =>
    cases hdrop : l.dropWhile (· ≠ '"') with
    | nil =>
      rw [htake, hdrop] at h
      cases h
    | cons d rest' =>
      rw [htake, hdrop] at h
      obtain ⟨rfl, rfl⟩ := Prod.mk.inj (Option.some.inj h)
      rw [htake] at hquote
      rw [htake, hdrop, hhead d rest' hdrop] at hsplit
      exact ⟨hsplit.symm, hquote, by simp⟩

theorem exact_written {requestRef displayName : List Char} (hr : '"' ∉ requestRef)
    (hr' : requestRef ≠ []) (hd : '"' ∉ displayName) (hd' : displayName ≠ []) (body : List Char) :
    exactAgentReference (written requestRef displayName body) =
      some (requestRef, displayName, body) := by
  have hwritten : written requestRef displayName body =
      "<agent-reference request-ref=\"".toList ++ (requestRef ++ '"' ::
        (" display-name=\"".toList ++ (displayName ++ '"' :: (['>'] ++ (body ++ closing))))) := by
    simp only [written, List.append_assoc]
    rfl
  rw [exactAgentReference, hwritten, dropBeginning_append]
  simp only [Option.bind_eq_bind, Option.bind_some]
  rw [attributeAt_append hr hr']
  simp only [Option.bind_some]
  rw [dropBeginning_append]
  simp only [Option.bind_some]
  rw [attributeAt_append hd hd']
  simp only [Option.bind_some]
  rw [dropBeginning_append]
  simp only [Option.bind_some]
  rw [List.reverse_append, show "</agent-reference>".toList = closing from rfl,
    dropBeginning_append]
  simp

theorem exact_eq_some {requestRef displayName body : List Char}
    (h : exactAgentReference raw = some (requestRef, displayName, body)) :
    raw = written requestRef displayName body := by
  unfold exactAgentReference at h
  simp only [Option.bind_eq_bind, Option.bind_eq_some_iff] at h
  obtain ⟨rest₁, h₁, ⟨requestRef', rest₂⟩, h₂, rest₃, h₃, ⟨displayName', rest₄⟩, h₄, rest₅, h₅,
    body', h₆, heq⟩ := h
  simp only [Option.pure_def, Option.some.injEq, Prod.mk.injEq] at heq
  obtain ⟨rfl, rfl, rfl⟩ := heq
  dsimp only at h₃ h₅
  have hbody : rest₅ = body'.reverse ++ closing := by
    have := congrArg List.reverse (dropBeginning_eq_some h₆)
    rwa [List.reverse_reverse, List.reverse_append, List.reverse_reverse] at this
  rw [dropBeginning_eq_some h₁, (attributeAt_eq_some h₂).1, dropBeginning_eq_some h₃,
    (attributeAt_eq_some h₄).1, dropBeginning_eq_some h₅, hbody]
  simp only [written, List.append_assoc]
  rfl

theorem parse_eq_some_iff : parseSerializedAgentReference raw = some reference ↔
    isUsableValue reference.requestRef = true ∧ isUsableValue reference.displayName = true ∧
      ∃ requestRef displayName, exactAgentReference raw = some (requestRef, displayName,
          escapeText ('@' :: reference.displayName.toList)) ∧
        UriComponent.decode (String.ofList requestRef) = some reference.requestRef ∧
        UriComponent.decode (String.ofList displayName) = some reference.displayName := by
  unfold parseSerializedAgentReference
  simp only [Option.bind_eq_bind, Option.bind_eq_some_iff, Prod.exists]
  constructor
  · rintro ⟨requestRef, displayName, body, hexact, decodedRef, href, decodedName, hname, h⟩
    split_ifs at h with hgood
    simp only [Bool.and_eq_true, decide_eq_true_eq] at hgood
    obtain ⟨⟨husable, husable'⟩, rfl⟩ := hgood
    rw [← Option.some.inj h]
    exact ⟨husable, husable', requestRef, displayName, hexact, href, hname⟩
  · rintro ⟨husable, husable', requestRef, displayName, hexact, href, hname⟩
    refine ⟨requestRef, displayName, _, hexact, _, href, _, hname, ?_⟩
    rw [if_pos (by simp [husable, husable'])]

/-! ### A reference that was serialized -/

theorem encode_plain (text : String) :
    ∀ c ∈ (UriComponent.encode text).toList, c ≠ '"' ∧ c ≠ '>' := by
  intro c hc
  rcases UriComponent.mem_encode hc with h | rfl
  · constructor
    · rintro rfl
      exact absurd h (by decide)
    · rintro rfl
      exact absurd h (by decide)
  · exact ⟨by decide, by decide⟩

theorem encode_ne_nil {text : String} (h : isUsableValue text = true) :
    (UriComponent.encode text).toList ≠ [] := by
  intro hnil
  have hempty : UriComponent.encode text = UriComponent.encode "" := by
    rw [← String.toList_inj, hnil]
    rfl
  rw [UriComponent.encode_injective hempty] at h
  exact absurd h (by decide)

theorem not_mem_escapeText (value : List Char) : '<' ∉ escapeText value := by
  rw [escapeText, List.mem_flatMap]
  rintro ⟨c, -, hc⟩
  split_ifs at hc with hamp hlt hgt
  · exact absurd hc (by decide)
  · exact absurd hc (by decide)
  · exact absurd hc (by decide)
  · rw [List.mem_singleton] at hc
    exact hlt hc.symm

theorem exact_serialized (h : serializeAgentReference reference = some raw) :
    exactAgentReference raw = some ((UriComponent.encode reference.requestRef).toList,
      (UriComponent.encode reference.displayName).toList,
      escapeText ('@' :: reference.displayName.toList)) := by
  obtain ⟨husable, husable', rfl⟩ := serialize_eq_some h
  exact exact_written (fun hmem => (encode_plain _ _ hmem).1 rfl) (encode_ne_nil husable)
    (fun hmem => (encode_plain _ _ hmem).1 rfl) (encode_ne_nil husable') _

/-- What was serialized is read back. -/
theorem parse_serialized (h : serializeAgentReference reference = some raw) :
    parseSerializedAgentReference raw = some reference := by
  obtain ⟨husable, husable', -⟩ := serialize_eq_some h
  refine parse_eq_some_iff.2 ⟨husable, husable', _, _, exact_serialized h, ?_, ?_⟩
  · rw [String.ofList_toList, UriComponent.decode_encode]
  · rw [String.ofList_toList, UriComponent.decode_encode]

theorem serialized_eq (h : serializeAgentReference reference = some raw) :
    ∃ attributes body, raw = '<' :: tag ++ attributes ++ ['>'] ++ (body ++ closing) ∧
      '>' ∉ attributes ∧ attributes.head? = some ' ' ∧ '<' ∉ body := by
  obtain ⟨-, -, rfl⟩ := serialize_eq_some h
  refine ⟨_, _, rfl, ?_, rfl, not_mem_escapeText _⟩
  simp only [List.mem_append, not_or, List.mem_singleton]
  exact ⟨⟨⟨⟨by decide, fun hmem => (encode_plain _ _ hmem).2 rfl⟩, by decide⟩,
    fun hmem => (encode_plain _ _ hmem).2 rfl⟩, by decide⟩

/-- What was serialized is a block, whatever follows. -/
theorem blockAt_serialized (h : serializeAgentReference reference = some raw) (l : List Char) :
    blockAt (raw ++ l) = some raw := by
  obtain ⟨attributes, body, rfl, hattributes, hspace, hbody⟩ := serialized_eq h
  have hopener : openerAt ('<' :: tag ++ attributes ++ ['>'] ++ (body ++ closing) ++ l) =
      some (attributes ++ '>' :: (body ++ (closing ++ l))) := by
    refine openerAt_eq_some.2 ⟨?_, ?_⟩
    · simp only [List.append_assoc, List.cons_append, List.nil_append]
    · cases attributes with
      | nil => cases hspace
      | cons c attributes =>
        rw [Option.some.inj hspace]
        rfl
  rw [blockAt_eq hopener (throughTag_append hattributes _) (throughCloser_closing hbody l)]
  simp only [List.append_assoc]

/-! ### A block in what was escaped -/

/-- What may follow a text. -/
def Follows (l : List Char) : Prop := ∀ c ∈ l.head?, c = '<'

/-- What begins a tag in what was escaped is disguised. -/
theorem disguisedAt_of_opener (hliteral : literalAt (c :: l) = false) (hfollows : Follows rest)
    {r : List Char} (h : openerAt (c :: l ++ rest) = some r) : disguisedAt (c :: l) = true := by
  obtain ⟨heq, hboundary⟩ := openerAt_eq_some.1 h
  rcases List.append_eq_append_iff.1 heq with ⟨t, ht, rfl⟩ | ⟨t, ht, rfl⟩
  · cases t with
    | nil =>
      rw [List.append_nil] at ht
      rw [← ht] at hliteral
      exact absurd hliteral (by decide)
    | cons d t =>
      have hmem : d ∈ tag := by
        rw [List.cons_append] at ht
        rw [(List.cons.inj ht).2]
        exact List.mem_append_right _ List.mem_cons_self
      rw [hfollows d rfl] at hmem
      exact absurd hmem (by decide)
  · rw [ht] at hliteral ⊢
    have htag : literalAt ('<' :: tag ++ t) = boundaryFolded t := rfl
    rw [htag] at hliteral
    cases t with
    | nil => cases hliteral
    | cons d t =>
      refine disguisedAt_iff.2 ⟨d, t, rfl, ?_⟩
      simp only [boundaryFolded, boundary, List.cons_append, List.head?_cons, Option.all_some,
        Bool.not_eq_false', Bool.not_eq_true', Bool.or_eq_true] at hliteral hboundary
      rcases hliteral with hword | hfolds
      · rw [hword] at hboundary
        cases hboundary
      · exact hfolds

/-- A block that begins with a disguised tag is no reference. -/
theorem not_parse_of_disguised (h : disguisedAt (c :: l) = true) {r : List Char}
    (hblock : blockAt (c :: l ++ r) = some raw) : parseSerializedAgentReference raw = none := by
  obtain ⟨d, rest, heq, hd⟩ := disguisedAt_iff.1 h
  have hne : d ≠ '>' ∧ d ≠ ' ' := by
    constructor
    · rintro rfl
      exact absurd hd (by decide)
    · rintro rfl
      exact absurd hd (by decide)
  obtain ⟨rest', attributes, body, inner, hopener, htag, -, rfl⟩ := of_blockAt hblock
  have hrest : rest' = d :: (rest ++ r) := by
    have := (openerAt_eq_some.1 hopener).1
    rw [heq, List.append_assoc] at this
    exact (List.append_cancel_left this).symm
  rw [Option.eq_none_iff_forall_ne_some]
  intro reference hparse
  obtain ⟨-, -, requestRef, displayName, hexact, -⟩ := parse_eq_some_iff.1 hparse
  have hraw := exact_eq_some hexact
  rw [hrest, throughTag, if_neg hne.1] at htag
  obtain ⟨⟨taken, rest''⟩, -, hmap⟩ := Option.map_eq_some_iff.1 htag
  rw [← (Prod.mk.inj hmap).1] at hraw
  simp only [written, List.append_assoc] at hraw
  exact hne.2 (List.cons.inj (List.append_cancel_left hraw)).1

/-- A disguised tag before a reference begins a block. -/
theorem blockAt_of_disguised (h : disguisedAt (c :: l) = true)
    (hraw : serializeAgentReference reference = some raw) (r r' : List Char) :
    ∃ block, blockAt (c :: l ++ (r ++ (raw ++ r'))) = some block := by
  obtain ⟨d, rest, heq, hd⟩ := disguisedAt_iff.1 h
  obtain ⟨attributes, body, rfl, -⟩ := serialized_eq hraw
  have hsplit : c :: l ++ (r ++ ('<' :: tag ++ attributes ++ ['>'] ++ (body ++ closing) ++ r')) =
      '<' :: tag ++ ((d :: (rest ++ (r ++ ('<' :: tag ++ attributes ++ ['>'])))) ++
        (body ++ (closing ++ r'))) := by
    rw [heq]
    simp only [List.append_assoc, List.cons_append]
  have hboundary : boundary (d :: (rest ++ (r ++ ('<' :: tag ++ attributes ++ ['>']))) ++
      (body ++ (closing ++ r'))) = true := by
    have hword : isWordChar d = false := by
      simp only [foldsToWord, Bool.or_eq_true, decide_eq_true_eq] at hd
      rw [← Char.ofNat_toNat d]
      rcases hd with hd | hd
      · rw [hd]
        decide
      · rw [hd]
        decide
    simp [boundary, hword]
  obtain ⟨taken, rest', htag⟩ :=
    @exists_throughTag (d :: (rest ++ (r ++ ('<' :: tag ++ attributes ++ ['>'])))) (by simp)
      (body ++ (closing ++ r'))
  obtain ⟨inner, hinner⟩ := exists_throughCloser (rest' ++ body) r'
  rw [List.append_assoc] at hinner
  exact ⟨_, blockAt_eq (openerAt_eq_some.2 ⟨hsplit, hboundary⟩) htag hinner⟩

/-! ### All blocks -/

/-- What stands before the first block, or before the end, after something else. -/
def before (p : List Char) (found : List (List Char × List Char) × List Char) :
    List (List Char × List Char) × List Char :=
  match found with
  | ((text, raw) :: blocks, last) => ((p ++ text, raw) :: blocks, last)
  | ([], last) => ([], p ++ last)

theorem before_nil (found : List (List Char × List Char) × List Char) : before [] found = found := by
  obtain ⟨_ | ⟨block, blocks⟩, last⟩ := found <;> rfl

theorem before_cons (c : Char) (p : List Char)
    (found : List (List Char × List Char) × List Char) :
    before [c] (before p found) = before (c :: p) found := by
  obtain ⟨_ | ⟨block, blocks⟩, last⟩ := found <;> rfl

theorem matchAll_of_none (h : blockAt (c :: l) = none) :
    matchAll 0 (c :: l) = before [c] (matchAll 0 l) := by
  rw [matchAll, h]
  dsimp only
  obtain ⟨_ | ⟨block, blocks⟩, last⟩ := matchAll 0 l <;> rfl

theorem matchAll_of_some (h : blockAt (c :: l) = some raw) : matchAll 0 (c :: l) =
    (([], raw) :: (matchAll (raw.length - 1) l).1, (matchAll (raw.length - 1) l).2) := by
  rw [matchAll, h]

theorem matchAll_drop (skip : ℕ) (l : List Char) :
    matchAll skip l = matchAll 0 (l.drop skip) := by
  induction l generalizing skip with
  | nil => cases skip <;> rfl
  | cons c l ih =>
    cases skip with
    | zero => rfl
    | succ skip => rw [matchAll, ih, List.drop_succ_cons]

/-- A block at the beginning is found, and the others are those of what follows it. -/
theorem matchAll_block (h : blockAt (raw ++ l) = some raw) (hne : raw ≠ []) :
    matchAll 0 (raw ++ l) = (([], raw) :: (matchAll 0 l).1, (matchAll 0 l).2) := by
  cases raw with
  | nil => exact absurd rfl hne
  | cons c raw =>
    rw [List.cons_append] at h ⊢
    rw [matchAll_of_some h, matchAll_drop, List.length_cons, Nat.add_sub_cancel, List.drop_left]

/-- What was escaped, with no disguised tag, has no block. -/
theorem matchAll_append (hliteral : occurs literalAt l = false)
    (hdisguised : occurs disguisedAt l = false) (hfollows : Follows rest) :
    matchAll 0 (l ++ rest) = before l (matchAll 0 rest) := by
  induction l with
  | nil => rw [List.nil_append, before_nil]
  | cons c l ih =>
    rw [occurs, Bool.or_eq_false_iff] at hliteral hdisguised
    have hnone : blockAt (c :: l ++ rest) = none := by
      rw [Option.eq_none_iff_forall_ne_some]
      intro raw hblock
      obtain ⟨r, -, -, -, hopener, -⟩ := of_blockAt hblock
      rw [disguisedAt_of_opener hliteral.1 hfollows hopener] at hdisguised
      cases hdisguised.1
    rw [List.cons_append] at hnone ⊢
    rw [matchAll_of_none hnone, ih hliteral.2 hdisguised.2, before_cons]

theorem isWordChar_range (h : isWordChar c = true) : 48 ≤ c.toNat ∧ c.toNat ≤ 122 := by
  have hle : ∀ a b : Char, a ≤ b ↔ a.toNat ≤ b.toNat := fun a b => Iff.rfl
  simp only [isWordChar, Bool.or_eq_true, Bool.and_eq_true, decide_eq_true_eq, hle] at h
  have ha : 'a'.toNat = 97 := rfl
  have hz : 'z'.toNat = 122 := rfl
  have hA : 'A'.toNat = 65 := rfl
  have hZ : 'Z'.toNat = 90 := rfl
  have h0 : '0'.toNat = 48 := rfl
  have h9 : '9'.toNat = 57 := rfl
  rcases h with ((h | h) | h) | rfl
  · omega
  · omega
  · omega
  · decide

theorem isJsWhitespace_not_word (h : isJsWhitespace c = true) :
    (isWordChar c || foldsToWord c) = false := by
  simp only [isJsWhitespace, Bool.or_eq_true, Bool.and_eq_true, decide_eq_true_eq,
    List.contains_iff_mem, List.mem_cons, List.not_mem_nil, or_false] at h
  rw [Bool.or_eq_false_iff]
  constructor
  · rw [Bool.eq_false_iff]
    intro hword
    have hrange := isWordChar_range hword
    omega
  · simp only [foldsToWord, Bool.or_eq_false_iff, decide_eq_false_iff_not]
    omega

/-- A closer is a literal. -/
theorem literalAt_of_closerAt {closer : List Char} (h : closerAt l = some closer) :
    literalAt l = true := by
  unfold closerAt at h
  split_ifs at h with hprefix
  dsimp only at h
  split_ifs at h with hend
  obtain ⟨r, rfl⟩ := List.isPrefixOf_iff_prefix.1 hprefix
  have hliteral : literalAt ("</agent-reference".toList ++ r) = boundaryFolded r := rfl
  rw [hliteral]
  have hlength : "</agent-reference".toList.length = 17 := by decide
  rw [← List.drop_drop, ← hlength, List.drop_left] at hend
  cases r with
  | nil => rfl
  | cons c r =>
    rw [boundaryFolded, List.head?_cons, Option.all_some]
    by_cases hspace : isJsWhitespace c = true
    · rw [isJsWhitespace_not_word hspace]
      rfl
    · rw [List.takeWhile_cons_of_neg hspace] at hend
      have hc : c = '>' := Option.some.inj hend
      rw [hc]
      decide

theorem occurs_append {f : List Char → Bool} {a b : List Char} (h : occurs f (a ++ b) = false) :
    occurs f b = false := by
  induction a with
  | nil => exact h
  | cons c a ih =>
    rw [List.cons_append, occurs, Bool.or_eq_false_iff] at h
    exact ih h.2

theorem throughCloser_eq_none (h : occurs literalAt l = false) : throughCloser l = none := by
  induction l with
  | nil => rfl
  | cons c l ih =>
    rw [occurs, Bool.or_eq_false_iff] at h
    rw [throughCloser]
    cases hcloser : closerAt (c :: l) with
    | some closer =>
      rw [literalAt_of_closerAt hcloser] at h
      cases h.1
    | none =>
      dsimp only
      rw [ih h.2]
      rfl

/-- Without a literal there is no block. -/
theorem matchAll_eq_self (h : occurs literalAt l = false) : matchAll 0 l = ([], l) := by
  induction l with
  | nil => rfl
  | cons c l ih =>
    have hnone : blockAt (c :: l) = none := by
      rw [Option.eq_none_iff_forall_ne_some]
      intro raw hblock
      obtain ⟨r, attributes, body, inner, hopener, htag, hinner, -⟩ := of_blockAt hblock
      rw [(openerAt_eq_some.1 hopener).1, throughTag_eq htag, ← List.append_assoc] at h
      rw [throughCloser_eq_none (occurs_append h)] at hinner
      cases hinner
    rw [occurs, Bool.or_eq_false_iff] at h
    rw [matchAll_of_none hnone, ih h.2]
    rfl

/-- A block that is no reference. -/
def Malformed (found : List (List Char × List Char) × List Char) : Prop :=
  ∃ block ∈ found.1, parseSerializedAgentReference block.2 = none

theorem Malformed.before {found : List (List Char × List Char) × List Char} (h : Malformed found)
    (p : List Char) : Malformed (before p found) := by
  obtain ⟨_ | ⟨block, blocks⟩, last⟩ := found
  · exact h
  · obtain ⟨block', hmem, hparse⟩ := h
    rcases List.mem_cons.1 hmem with rfl | hmem
    · exact ⟨_, List.mem_cons_self, hparse⟩
    · exact ⟨block', List.mem_cons_of_mem _ hmem, hparse⟩

/-- With a disguised tag before a reference, some block is no reference. -/
theorem malformed_of_disguised (hliteral : occurs literalAt l = false)
    (hdisguised : occurs disguisedAt l = true) {r r' : List Char}
    (hfollows : Follows (r ++ (raw ++ r'))) (hraw : serializeAgentReference reference = some raw) :
    Malformed (matchAll 0 (l ++ (r ++ (raw ++ r')))) := by
  induction l with
  | nil => exact absurd hdisguised (by decide)
  | cons c l ih =>
    rw [occurs, Bool.or_eq_false_iff] at hliteral
    rw [occurs, Bool.or_eq_true] at hdisguised
    cases hblock : blockAt (c :: l ++ (r ++ (raw ++ r'))) with
    | some block =>
      obtain ⟨_, -, -, -, hopener, -⟩ := of_blockAt hblock
      have hparse := not_parse_of_disguised
        (disguisedAt_of_opener hliteral.1 hfollows hopener) hblock
      rw [List.cons_append] at hblock ⊢
      rw [matchAll_of_some hblock]
      exact ⟨_, List.mem_cons_self, hparse⟩
    | none =>
      have hrest : occurs disguisedAt l = true := by
        refine hdisguised.resolve_left fun h => ?_
        obtain ⟨block, hsome⟩ := blockAt_of_disguised h hraw r r'
        rw [hblock] at hsome
        cases hsome
      rw [List.cons_append] at hblock ⊢
      rw [matchAll_of_none hblock]
      exact (ih hliteral.2 hrest).before [c]

end Kinetick.Mention
