import Kinetick.Mention.Protocol

/-!
# Literals

The escape touches nothing but the first character of a literal, so a text that is escaped and
restored is the text restored: it comes back where nothing in it was escaped before.
-/

namespace Kinetick.Mention

variable {c : Char} {l p rest : List Char}

/-! ### What a pattern is matched by -/

theorem beginsFolded_iff {pattern : List Char} :
    beginsFolded pattern l = true ↔ ∃ p rest, l = p ++ rest ∧ p.map Char.toLower = pattern := by
  simp only [beginsFolded, Bool.and_eq_true, decide_eq_true_eq]
  constructor
  · rintro ⟨-, h⟩
    exact ⟨l.take pattern.length, l.drop pattern.length, (List.take_append_drop ..).symm, h⟩
  · rintro ⟨p, rest, rfl, rfl⟩
    simp

/-- A character that is no letter is none of the other case. -/
theorem eq_of_toLower {d : Char} (hd : d.val < 'a'.val ∨ 'z'.val < d.val) (h : c.toLower = d) :
    c = d := by
  unfold Char.toLower at h
  split_ifs at h with hupper
  · exfalso
    have hval : d.val = c.val + ('a'.val - 'A'.val) := by rw [← h]
    rw [hval] at hd
    simp only [UInt32.le_iff_toNat_le, UInt32.lt_iff_toNat_lt, UInt32.toNat_add] at hupper hd
    have hA : 'A'.val.toNat = 65 := rfl
    have hZ : 'Z'.val.toNat = 90 := rfl
    have ha : 'a'.val.toNat = 97 := rfl
    have hz : 'z'.val.toNat = 122 := rfl
    have hgap : ('a'.val - 'A'.val).toNat = 32 := rfl
    omega
  · exact h

theorem beginsFolded_tag_iff :
    (beginsFolded tag l && boundaryFolded (l.drop tag.length)) = true ↔
      ∃ p rest, l = p ++ rest ∧ p.map Char.toLower = tag ∧ boundaryFolded rest = true := by
  rw [Bool.and_eq_true, beginsFolded_iff]
  constructor
  · rintro ⟨⟨p, rest, rfl, hp⟩, hboundary⟩
    rw [← hp, List.length_map, List.drop_left] at hboundary
    exact ⟨p, rest, rfl, hp, hboundary⟩
  · rintro ⟨p, rest, rfl, hp, hboundary⟩
    refine ⟨⟨p, rest, rfl, hp⟩, ?_⟩
    rwa [← hp, List.length_map, List.drop_left]

/-- The text begins with a tag: what the tag is written as, and what follows it. -/
theorem tagAt_iff : tagAt l = true ↔ ∃ p rest, l = p ++ rest ∧
    (p.map Char.toLower = tag ∨ p.map Char.toLower = '/' :: tag) ∧
      boundaryFolded rest = true := by
  simp only [tagAt]
  rw [beginsFolded_tag_iff]
  constructor
  · rintro ⟨p, rest, heq, hp, hboundary⟩
    split_ifs at heq with hslash
    · refine ⟨'/' :: p, rest, ?_, Or.inr (congrArg _ hp), hboundary⟩
      rw [List.cons_append, ← heq]
      exact (List.cons_head?_tail hslash).symm
    · exact ⟨p, rest, heq, Or.inl hp, hboundary⟩
  · rintro ⟨p, rest, rfl, hp | hp, hboundary⟩
    · refine ⟨p, rest, if_neg ?_, hp, hboundary⟩
      intro hslash
      cases p with
      | nil => cases hp
      | cons c p =>
        rw [List.cons_append, List.head?_cons] at hslash
        rw [Option.some.inj hslash] at hp
        exact absurd (List.cons.inj hp).1 (by decide)
    · cases p with
      | nil => cases hp
      | cons c p =>
        obtain ⟨hc, hp⟩ := List.cons.inj hp
        refine ⟨p, rest, ?_, hp, hboundary⟩
        rw [eq_of_toLower (by decide) hc]
        rfl

/-- What is written for a tag has no character that the escape touches or writes. -/
theorem plain_of_map_toLower {pattern : List Char} (hp : p.map Char.toLower = pattern)
    (hpattern : '<' ∉ pattern ∧ '&' ∉ pattern) : ∀ c ∈ p, c ≠ '<' ∧ c ≠ '&' := by
  intro c hc
  have hmem : c.toLower ∈ pattern := hp ▸ List.mem_map_of_mem hc
  constructor
  · rintro rfl
    exact hpattern.1 hmem
  · rintro rfl
    exact hpattern.2 hmem

theorem literalAt_cons : literalAt (c :: l) = true ↔ c = '<' ∧ tagAt l = true := by
  simp [literalAt]

theorem escapedLiteralAt_iff : escapedLiteralAt l = true ↔
    ∃ d e rest, l = '&' :: d :: e :: ';' :: rest ∧ d.toLower = 'l' ∧ e.toLower = 't' ∧
      tagAt rest = true := by
  rw [escapedLiteralAt, Bool.and_eq_true, beginsFolded_iff]
  constructor
  · rintro ⟨⟨p, rest, rfl, hp⟩, htag⟩
    obtain ⟨c, d, e, f, rfl⟩ : ∃ c d e f, p = [c, d, e, f] := by
      have hlength := congrArg List.length hp
      rw [List.length_map] at hlength
      exact List.length_eq_four.1 hlength
    simp only [List.map_cons, List.map_nil, String.reduceToList, List.cons.injEq] at hp
    obtain ⟨hc, hd, he, hf, -⟩ := hp
    rw [eq_of_toLower (by decide) hc, eq_of_toLower (by decide) hf]
    exact ⟨d, e, rest, rfl, hd, he, htag⟩
  · rintro ⟨d, e, rest, rfl, hd, he, htag⟩
    refine ⟨⟨['&', d, e, ';'], rest, rfl, ?_⟩, htag⟩
    rw [List.map_cons, List.map_cons, List.map_cons, hd, he]
    rfl

theorem openerAt_eq_some : openerAt l = some rest ↔
    l = '<' :: tag ++ rest ∧ boundary rest = true := by
  have hlength : ('<' :: tag).length = 16 := by decide
  unfold openerAt
  split_ifs with h
  · rw [Bool.and_eq_true, List.isPrefixOf_iff_prefix] at h
    obtain ⟨⟨rest', rfl⟩, hboundary⟩ := h
    rw [← hlength, List.drop_left] at hboundary ⊢
    constructor
    · intro heq
      rw [← Option.some.inj heq]
      exact ⟨rfl, hboundary⟩
    · rintro ⟨heq, -⟩
      rw [List.append_cancel_left heq]
  · constructor
    · exact fun heq => by cases heq
    · rintro ⟨rfl, hboundary⟩
      refine absurd ?_ h
      rw [← hlength, List.drop_left, hboundary, Bool.and_true, List.isPrefixOf_iff_prefix]
      exact List.prefix_append ..

theorem disguisedAt_iff : disguisedAt l = true ↔
    ∃ c rest, l = '<' :: tag ++ c :: rest ∧ foldsToWord c = true := by
  have hlength : ('<' :: tag).length = 16 := by decide
  rw [disguisedAt, Bool.and_eq_true, List.isPrefixOf_iff_prefix]
  constructor
  · rintro ⟨⟨rest, rfl⟩, hfolds⟩
    rw [← hlength, List.drop_left] at hfolds
    cases rest with
    | nil => cases hfolds
    | cons c rest => exact ⟨c, rest, rfl, hfolds⟩
  · rintro ⟨c, rest, rfl, hfolds⟩
    rw [← hlength, List.drop_left]
    exact ⟨List.prefix_append .., hfolds⟩

/-! ### What the escape leaves -/

theorem escape_cons (c : Char) (l : List Char) : escapeAgentReferenceLiterals (c :: l) =
    if literalAt (c :: l) = true then "&lt;".toList ++ escapeAgentReferenceLiterals l
    else c :: escapeAgentReferenceLiterals l := by
  rw [escapeAgentReferenceLiterals]

theorem escape_cons_of_ne (h : c ≠ '<') (l : List Char) :
    escapeAgentReferenceLiterals (c :: l) = c :: escapeAgentReferenceLiterals l := by
  rw [escape_cons, if_neg fun hliteral => h (literalAt_cons.1 hliteral).1]

theorem escape_append (hp : ∀ c ∈ p, c ≠ '<') (l : List Char) :
    escapeAgentReferenceLiterals (p ++ l) = p ++ escapeAgentReferenceLiterals l := by
  induction p with
  | nil => rfl
  | cons c p ih =>
    rw [List.forall_mem_cons] at hp
    rw [List.cons_append, escape_cons_of_ne hp.1, ih hp.2, List.cons_append]

/-- A beginning that the escape neither touches nor writes was there. -/
theorem of_escape_eq_append (hp : ∀ c ∈ p, c ≠ '<' ∧ c ≠ '&')
    (h : escapeAgentReferenceLiterals l = p ++ rest) :
    ∃ rest', l = p ++ rest' ∧ escapeAgentReferenceLiterals rest' = rest := by
  induction p generalizing l with
  | nil => exact ⟨l, rfl, h⟩
  | cons c p ih =>
    rw [List.forall_mem_cons] at hp
    cases l with
    | nil => cases h
    | cons d l =>
      rw [escape_cons] at h
      split_ifs at h with hliteral
      · exact absurd (List.cons.inj h).1.symm hp.1.2
      · obtain ⟨rfl, htail⟩ := List.cons.inj h
        obtain ⟨rest', rfl, hrest⟩ := ih hp.2 htail
        exact ⟨rest', rfl, hrest⟩

theorem boundaryFolded_escape (l : List Char) :
    boundaryFolded (escapeAgentReferenceLiterals l) = boundaryFolded l := by
  cases l with
  | nil => rfl
  | cons c l =>
    rw [escape_cons]
    split_ifs with h
    · rw [(literalAt_cons.1 h).1]
      rfl
    · rfl

theorem tagAt_escape (l : List Char) : tagAt (escapeAgentReferenceLiterals l) = tagAt l := by
  have hplain : ∀ {p : List Char},
      p.map Char.toLower = tag ∨ p.map Char.toLower = '/' :: tag → ∀ c ∈ p, c ≠ '<' ∧ c ≠ '&' := by
    rintro p (hp | hp)
    · exact plain_of_map_toLower hp (by decide)
    · exact plain_of_map_toLower hp (by decide)
  rw [Bool.eq_iff_iff, tagAt_iff, tagAt_iff]
  constructor
  · rintro ⟨p, rest, heq, hp, hboundary⟩
    obtain ⟨rest', rfl, hrest⟩ := of_escape_eq_append (hplain hp) heq
    refine ⟨p, rest', rfl, hp, ?_⟩
    rwa [← hrest, boundaryFolded_escape] at hboundary
  · rintro ⟨p, rest, rfl, hp, hboundary⟩
    refine ⟨p, _, escape_append (fun c hc => (hplain hp c hc).1) rest, hp, ?_⟩
    rwa [boundaryFolded_escape]

/-- What is escaped has no literal. -/
theorem not_occurs_literalAt_escape (l : List Char) :
    occurs literalAt (escapeAgentReferenceLiterals l) = false := by
  induction l with
  | nil => rfl
  | cons c l ih =>
    rw [escape_cons]
    split_ifs with h
    · have hne : ∀ {c : Char} {l : List Char}, c ≠ '<' → literalAt (c :: l) = false := by
        intro c l hc
        rw [Bool.eq_false_iff, Ne, literalAt_cons]
        exact fun h => hc h.1
      change occurs literalAt ('&' :: 'l' :: 't' :: ';' :: escapeAgentReferenceLiterals l) = false
      simp only [occurs, ih, hne (c := '&') (by decide), hne (c := 'l') (by decide),
        hne (c := 't') (by decide), hne (c := ';') (by decide), Bool.or_false]
    · rw [occurs, ih, Bool.or_false, Bool.eq_false_iff, Ne, literalAt_cons, tagAt_escape,
        ← literalAt_cons]
      exact h

/-- A tag is disguised in what is escaped where it was before. -/
theorem disguisedAt_cons_escape (c : Char) (l : List Char) :
    disguisedAt (c :: escapeAgentReferenceLiterals l) = disguisedAt (c :: l) := by
  have hplain : ∀ {d : Char}, foldsToWord d = true → ∀ c ∈ tag ++ [d], c ≠ '<' ∧ c ≠ '&' := by
    intro d hd c hc
    rcases List.mem_append.1 hc with hc | hc
    · exact @plain_of_map_toLower tag tag (by decide) (by decide) c hc
    · rw [List.mem_singleton.1 hc]
      constructor
      · rintro rfl
        exact absurd hd (by decide)
      · rintro rfl
        exact absurd hd (by decide)
  rw [Bool.eq_iff_iff, disguisedAt_iff, disguisedAt_iff]
  constructor
  · rintro ⟨d, rest, heq, hd⟩
    obtain ⟨rfl, htail⟩ := List.cons.inj heq
    have happend : escapeAgentReferenceLiterals l = tag ++ [d] ++ rest := by
      rw [htail, List.append_assoc]
      rfl
    obtain ⟨rest', rfl, -⟩ := of_escape_eq_append (hplain hd) happend
    refine ⟨d, rest', ?_, hd⟩
    rw [List.append_assoc]
    rfl
  · rintro ⟨d, rest, heq, hd⟩
    obtain ⟨rfl, rfl⟩ := List.cons.inj heq
    refine ⟨d, escapeAgentReferenceLiterals rest, ?_, hd⟩
    have hescape := escape_append (fun c hc => (hplain hd c hc).1) rest
    rw [List.append_assoc] at hescape
    exact congrArg ('<' :: ·) hescape

theorem not_disguisedAt_of_ne (hc : c ≠ '<') (l : List Char) : disguisedAt (c :: l) = false := by
  rw [Bool.eq_false_iff, Ne, disguisedAt_iff]
  rintro ⟨d, rest, heq, -⟩
  exact hc (List.cons.inj heq).1

/-- A literal is not disguised. -/
theorem not_disguisedAt_of_literalAt (h : literalAt l = true) : disguisedAt l = false := by
  rw [Bool.eq_false_iff, Ne, disguisedAt_iff]
  rintro ⟨d, rest, rfl, hd⟩
  have htag : literalAt ('<' :: tag ++ d :: rest) = boundaryFolded (d :: rest) := rfl
  rw [htag] at h
  simp [boundaryFolded, hd] at h

theorem occurs_disguisedAt_escape (l : List Char) :
    occurs disguisedAt (escapeAgentReferenceLiterals l) = occurs disguisedAt l := by
  induction l with
  | nil => rfl
  | cons c l ih =>
    rw [escape_cons]
    split_ifs with h
    · show occurs disguisedAt ('&' :: 'l' :: 't' :: ';' :: escapeAgentReferenceLiterals l) = _
      simp only [occurs, ih, not_disguisedAt_of_literalAt h,
        not_disguisedAt_of_ne (show '&' ≠ '<' by decide),
        not_disguisedAt_of_ne (show 'l' ≠ '<' by decide),
        not_disguisedAt_of_ne (show 't' ≠ '<' by decide),
        not_disguisedAt_of_ne (show ';' ≠ '<' by decide), Bool.false_or]
    · rw [occurs, occurs, ih, disguisedAt_cons_escape]

/-! ### What is restored -/

theorem take_three_of_escapedLiteralAt (h : escapedLiteralAt (c :: l) = true) :
    '<' ∉ l.take 3 := by
  obtain ⟨d, e, rest, heq, hd, he, -⟩ := escapedLiteralAt_iff.1 h
  obtain ⟨-, rfl⟩ := List.cons.inj heq
  have hne : ∀ {f : Char}, f ≠ '<' → ∀ {d : Char}, d.toLower = f → '<' ≠ d := by
    rintro f hf d hd rfl
    exact hf hd.symm
  simp only [List.take_succ_cons, List.take_zero, List.mem_cons, List.not_mem_nil, or_false,
    not_or]
  exact ⟨hne (by decide) hd, hne (by decide) he, by decide⟩

theorem not_escapedLiteralAt_of_ne (hc : c ≠ '&') (l : List Char) :
    escapedLiteralAt (c :: l) = false := by
  rw [Bool.eq_false_iff, Ne, escapedLiteralAt_iff]
  rintro ⟨d, e, rest, heq, -⟩
  exact hc (List.cons.inj heq).1

theorem escapedLiteralAt_entity (l : List Char) :
    escapedLiteralAt ('&' :: 'l' :: 't' :: ';' :: l) = tagAt l := rfl

theorem escapedLiteralAt_cons_escape (c : Char) (l : List Char) :
    escapedLiteralAt (c :: escapeAgentReferenceLiterals l) = escapedLiteralAt (c :: l) := by
  have hplain : ∀ {d e : Char}, d.toLower = 'l' → e.toLower = 't' →
      ∀ c ∈ [d, e, ';'], c ≠ '<' ∧ c ≠ '&' := by
    intro d e hd he
    refine @plain_of_map_toLower [d, e, ';'] ['l', 't', ';'] ?_ (by decide)
    rw [List.map_cons, List.map_cons, hd, he]
    rfl
  rw [Bool.eq_iff_iff, escapedLiteralAt_iff, escapedLiteralAt_iff]
  constructor
  · rintro ⟨d, e, rest, heq, hd, he, htag⟩
    obtain ⟨rfl, htail⟩ := List.cons.inj heq
    obtain ⟨rest', rfl, rfl⟩ := of_escape_eq_append (hplain hd he) htail
    rw [tagAt_escape] at htag
    exact ⟨d, e, rest', rfl, hd, he, htag⟩
  · rintro ⟨d, e, rest, heq, hd, he, htag⟩
    obtain ⟨rfl, rfl⟩ := List.cons.inj heq
    have hescape := escape_append (fun c hc => (hplain hd he c hc).1) rest
    refine ⟨d, e, escapeAgentReferenceLiterals rest, congrArg ('&' :: ·) hescape, hd, he, ?_⟩
    rwa [tagAt_escape]

theorem restoreFrom_escape (skip : ℕ) (l : List Char) (h : '<' ∉ l.take skip) :
    restoreFrom skip (escapeAgentReferenceLiterals l) = restoreFrom skip l := by
  induction l generalizing skip with
  | nil => rfl
  | cons c l ih =>
    cases skip with
    | succ skip =>
      rw [List.take_succ_cons, List.mem_cons, not_or] at h
      rw [escape_cons_of_ne (Ne.symm h.1), restoreFrom, restoreFrom, ih _ h.2]
    | zero =>
      rw [escape_cons]
      split_ifs with hliteral
      · obtain ⟨rfl, htag⟩ := literalAt_cons.1 hliteral
        show restoreFrom 0 ('&' :: 'l' :: 't' :: ';' :: escapeAgentReferenceLiterals l) = _
        rw [restoreFrom, escapedLiteralAt_entity, tagAt_escape, if_pos htag, restoreFrom.eq_3,
          not_escapedLiteralAt_of_ne (show '<' ≠ '&' by decide), if_neg Bool.false_ne_true]
        exact congrArg _ (ih 0 (by simp))
      · rw [restoreFrom, restoreFrom, escapedLiteralAt_cons_escape]
        split_ifs with hescaped
        · rw [ih 3 (take_three_of_escapedLiteralAt hescaped)]
        · rw [ih 0 (by simp)]

theorem length_restoreFrom_le (skip : ℕ) (l : List Char) :
    (restoreFrom skip l).length ≤ l.length - skip := by
  induction l generalizing skip with
  | nil => simp [restoreFrom]
  | cons c l ih =>
    cases skip with
    | succ skip =>
      have := ih skip
      rw [restoreFrom, List.length_cons]
      omega
    | zero =>
      have h0 := ih 0
      have h3 := ih 3
      rw [restoreFrom]
      split_ifs <;> simp only [List.length_cons] <;> omega

/-- A text is restored to itself where it has nothing that is escaped. -/
theorem restore_eq_self_iff : restoreEscapedAgentReferenceLiterals l = l ↔
    occurs escapedLiteralAt l = false := by
  unfold restoreEscapedAgentReferenceLiterals
  induction l with
  | nil => exact ⟨fun _ => rfl, fun _ => rfl⟩
  | cons c l ih =>
    rw [restoreFrom, occurs, Bool.or_eq_false_iff, ← ih]
    split_ifs with h
    · constructor
      · intro heq
        have hlength := congrArg List.length heq
        have hle := length_restoreFrom_le 3 l
        obtain ⟨d, e, rest, hl, -⟩ := escapedLiteralAt_iff.1 h
        rw [(List.cons.inj hl).2] at hlength hle
        simp only [List.length_cons] at hlength hle
        omega
      · rintro ⟨hnot, -⟩
        rw [h] at hnot
        cases hnot
    · rw [List.cons.injEq]
      exact ⟨fun heq => ⟨Bool.eq_false_iff.2 h, heq.2⟩, fun heq => ⟨rfl, heq.2⟩⟩

theorem restore_escape (l : List Char) :
    restoreEscapedAgentReferenceLiterals (escapeAgentReferenceLiterals l) =
      restoreEscapedAgentReferenceLiterals l :=
  restoreFrom_escape 0 l (by simp)

end Kinetick.Mention
