import Kinetick.Proofs.JsonlAppend
import Kinetick.Shared.QueuedMessage
import Mathlib.Data.List.Infix
import Mathlib.Tactic.SplitIfs

/-!
# The tags of queued messages

Escaping leaves no tag in a text, and opens none. But a tag that the text opens and does not end is
ended by the closing tag that is written behind it, so a reader finds the wrapper's own tags exactly
where no text has one.
-/

namespace Kinetick

namespace QueuedMessage

variable {cs ds text rest tag : List Char} {c : Char}

/-! ## Tags at the start of a text -/

theorem throughEnd_eq_none : throughEnd cs = none ↔ '>' ∉ cs := by
  induction cs with
  | nil => simp [throughEnd]
  | cons c cs ih =>
    unfold throughEnd
    split_ifs with h
    · simp [h]
    · simp [ih, Ne.symm h]

/-- A text ends at its first `>`. -/
theorem throughEnd_append (h : '>' ∉ cs) : throughEnd (cs ++ '>' :: ds) = some (cs ++ ['>']) := by
  induction cs with
  | nil => rfl
  | cons c cs ih =>
    rw [List.mem_cons, not_or] at h
    rw [List.cons_append, throughEnd, if_neg (Ne.symm h.1), ih h.2]
    rfl

theorem opensTag_head (h : opensTag text = true) : ∃ cs, text = '<' :: cs := by
  unfold opensTag at h
  split at h
  · exact ⟨_, rfl⟩
  · cases h

theorem matchTag_eq_none :
    matchTag text = none ↔ (opensTag text = true → '>' ∉ text) := by
  unfold matchTag
  split_ifs with h
  · simp [throughEnd_eq_none, h]
  · simp [h]

theorem matchTag_of_ne (h : c ≠ '<') : matchTag (c :: cs) = none := by
  rw [matchTag_eq_none]
  intro hopens
  obtain ⟨ds, hds⟩ := opensTag_head hopens
  cases hds
  exact absurd rfl h

/-! ## The scan -/

theorem segmentsFrom_eq (skip : ℕ) : segmentsFrom skip cs = segments (cs.drop skip) := by
  induction cs generalizing skip with
  | nil => cases skip <;> rfl
  | cons c cs ih =>
    cases skip with
    | zero => rfl
    | succ skip => exact ih skip

theorem segments_character (h : matchTag (c :: cs) = none) :
    segments (c :: cs) = .character c :: segments cs := by
  rw [segments, segmentsFrom, h]
  rfl

theorem segments_tag (hopens : opensTag (cs ++ '>' :: ds) = true) (hcs : '>' ∉ cs) :
    segments (cs ++ '>' :: ds) = .tag (cs ++ ['>']) :: segments ds := by
  have htag : matchTag (cs ++ '>' :: ds) = some (cs ++ ['>']) := by
    rw [matchTag, if_pos hopens, throughEnd_append hcs]
  cases cs with
  | nil =>
    obtain ⟨_, h⟩ := opensTag_head hopens
    cases h
  | cons c cs =>
    rw [List.cons_append] at htag ⊢
    rw [segments, segmentsFrom, htag]
    simp [segmentsFrom_eq]

/-- A text is nothing, a tag before a text, or a character before a text. -/
theorem scan_induction {P : List Char → Prop} (nil : P [])
    (tag : ∀ cs ds, opensTag (cs ++ '>' :: ds) = true → '>' ∉ cs → P ds → P (cs ++ '>' :: ds))
    (character : ∀ c cs, matchTag (c :: cs) = none → P cs → P (c :: cs)) (text : List Char) :
    P text := by
  induction hn : text.length using Nat.strong_induction_on generalizing text with
  | _ n ih =>
    cases text with
    | nil => exact nil
    | cons c cs =>
      by_cases h : matchTag (c :: cs) = none
      · exact character c cs h (ih cs.length (by simp [← hn]) cs rfl)
      · rw [matchTag_eq_none, Classical.not_imp, not_not] at h
        obtain ⟨before, after, htext, hbefore⟩ := List.eq_append_cons_of_mem h.2
        rw [htext] at h hn ⊢
        exact tag before after h.1 hbefore
          (ih after.length (by simp [← hn]; omega) after rfl)

theorem characters_append : characters (cs ++ ds) = characters cs ++ characters ds :=
  List.map_append

/-- No tag starts in what has no `<`. -/
theorem segments_plain (h : '<' ∉ cs) : segments (cs ++ ds) = characters cs ++ segments ds := by
  induction cs with
  | nil => rfl
  | cons c cs ih =>
    rw [List.mem_cons, not_or] at h
    rw [List.cons_append, segments_character (matchTag_of_ne (Ne.symm h.1)), ih h.2]
    rfl

/-! ## Escaping -/

theorem escape_tag (hopens : opensTag (cs ++ '>' :: ds) = true) (hcs : '>' ∉ cs) :
    escapeQueuedUserMessageTags (cs ++ '>' :: ds) =
      escapeAngles (cs ++ ['>']) ++ escapeQueuedUserMessageTags ds := by
  rw [escapeQueuedUserMessageTags, segments_tag hopens hcs]
  rfl

theorem escape_character (h : matchTag (c :: cs) = none) :
    escapeQueuedUserMessageTags (c :: cs) = c :: escapeQueuedUserMessageTags cs := by
  rw [escapeQueuedUserMessageTags, segments_character h]
  rfl

theorem escapeAngles_open : '<' ∉ escapeAngles cs := by
  unfold escapeAngles
  rw [List.mem_flatMap]
  rintro ⟨c, -, hc⟩
  split_ifs at hc with h
  · simp at hc
  · simp at hc
  · exact h (List.mem_singleton.1 hc).symm

theorem escape_of_characters (h : segments text = characters text) :
    escapeQueuedUserMessageTags text = text := by
  rw [escapeQueuedUserMessageTags, h, characters, List.flatMap_map]
  exact List.flatMap_singleton' text

/-- What has no `>` has no tag. -/
theorem escape_of_open (h : '>' ∉ text) : escapeQueuedUserMessageTags text = text := by
  induction text with
  | nil => rfl
  | cons c cs ih =>
    rw [escape_character (matchTag_eq_none.2 fun _ => h), ih (List.not_mem_of_not_mem_cons h)]

/-- What an escaped text starts with in place of a `<`. -/
theorem escape_open (cs : List Char) : ∃ d ds, escapeQueuedUserMessageTags ('<' :: cs) = d :: ds ∧
    (d = '<' ∨ d = '&') := by
  by_cases h : matchTag ('<' :: cs) = none
  · exact ⟨_, _, escape_character h, .inl rfl⟩
  · rw [matchTag_eq_none, Classical.not_imp, not_not] at h
    obtain ⟨before, after, htext, hbefore⟩ := List.eq_append_cons_of_mem h.2
    rw [htext] at h ⊢
    rw [escape_tag h.1 hbefore]
    cases before with
    | nil => cases htext
    | cons c before =>
      cases htext
      exact ⟨'&', _, rfl, .inr rfl⟩

theorem escape_of_ne (h : c ≠ '<') :
    escapeQueuedUserMessageTags (c :: cs) = c :: escapeQueuedUserMessageTags cs :=
  escape_character (matchTag_of_ne h)

/-- The text is over, or a new line begins. -/
def Ends (rest : List Char) : Prop := rest = [] ∨ ∃ ds, rest = '\n' :: ds

/-- A character that no letter of the name matches. -/
def OffName (name : List Char) (c : Char) : Prop := ∀ letter ∈ name, matchesLetter letter c = false

theorem afterName_escape (name : List Char) (hopen : OffName name '<') (hand : OffName name '&')
    (hline : OffName name '\n') (hrest : Ends rest) :
    afterName name (escapeQueuedUserMessageTags cs ++ rest) =
      (afterName name cs).map (escapeQueuedUserMessageTags · ++ rest) := by
  induction name generalizing cs with
  | nil => rfl
  | cons letter name ih =>
    have hoff : ∀ {d : Char}, OffName (letter :: name) d → matchesLetter letter d = false :=
      fun h => h letter List.mem_cons_self
    cases cs with
    | nil =>
      rcases hrest with rfl | ⟨ds, rfl⟩
      · rfl
      · simp [escapeQueuedUserMessageTags, segments, segmentsFrom, afterName, hoff hline]
    | cons c cs =>
      by_cases hc : c = '<'
      · subst hc
        obtain ⟨d, ds, hd, hcases⟩ := escape_open cs
        have : matchesLetter letter d = false := by
          rcases hcases with rfl | rfl
          · exact hoff hopen
          · exact hoff hand
        simp [hd, afterName, this, hoff hopen]
      · rw [escape_of_ne hc, List.cons_append, afterName, afterName]
        have htail : ∀ {d : Char}, OffName (letter :: name) d → OffName name d :=
          fun h l hl => h l (List.mem_cons_of_mem _ hl)
        split_ifs
        · exact ih (htail hopen) (htail hand) (htail hline)
        · rfl

theorem afterSlash_escape (hrest : Ends rest) :
    afterSlash (escapeQueuedUserMessageTags cs ++ rest) =
      escapeQueuedUserMessageTags (afterSlash cs) ++ rest := by
  cases cs with
  | nil => rcases hrest with rfl | ⟨ds, rfl⟩ <;> rfl
  | cons c cs =>
    by_cases hc : c = '<'
    · subst hc
      obtain ⟨d, ds, hd, hcases⟩ := escape_open cs
      have hslash : afterSlash ('<' :: cs) = '<' :: cs := rfl
      rw [hslash, hd]
      rcases hcases with rfl | rfl <;> rfl
    · rw [escape_of_ne hc]
      by_cases hs : c = '/'
      · subst hs
        rfl
      · have hslash : ∀ xs, afterSlash (c :: xs) = c :: xs := by
          intro xs
          unfold afterSlash
          split
          · simp_all
          · rfl
        rw [List.cons_append, hslash, hslash, escape_of_ne hc]
        rfl

theorem head_escape (hrest : Ends rest) :
    (escapeQueuedUserMessageTags cs ++ rest).head?.any isWordCharacter =
      cs.head?.any isWordCharacter := by
  cases cs with
  | nil => rcases hrest with rfl | ⟨ds, rfl⟩ <;> rfl
  | cons c cs =>
    by_cases hc : c = '<'
    · subst hc
      obtain ⟨d, ds, hd, hcases⟩ := escape_open cs
      rw [hd]
      rcases hcases with rfl | rfl <;> rfl
    · rw [escape_of_ne hc]
      rfl

theorem tagName_off (h : c = '<' ∨ c = '&' ∨ c = '\n') : OffName tagName c := by
  have hall : tagName.all (fun letter => !matchesLetter letter c) = true := by
    rcases h with rfl | rfl | rfl <;> decide
  intro letter hletter
  simpa using List.all_eq_true.1 hall letter hletter

/-- Escaping what stands behind a character neither opens a tag nor closes one. -/
theorem opensTag_escape (c : Char) (cs : List Char) (hrest : Ends rest) :
    opensTag (c :: (escapeQueuedUserMessageTags cs ++ rest)) = opensTag (c :: cs) := by
  by_cases hc : c = '<'
  · subst hc
    rw [opensTag, opensTag, afterSlash_escape hrest,
      afterName_escape tagName (tagName_off (.inl rfl)) (tagName_off (.inr (.inl rfl)))
        (tagName_off (.inr (.inr rfl))) hrest, Option.any_map]
    simp only [head_escape hrest]
  · have hclosed : ∀ xs, opensTag (c :: xs) = false := by
      intro xs
      by_contra h
      obtain ⟨ys, hys⟩ := opensTag_head (Bool.of_not_eq_false h)
      cases hys
      exact hc rfl
    rw [hclosed, hclosed]

/-- The escaped text has no tag. -/
theorem segments_escape :
    segments (escapeQueuedUserMessageTags text) = characters (escapeQueuedUserMessageTags text) := by
  induction text using scan_induction with
  | nil => rfl
  | tag cs ds hopens hcs ih =>
    rw [escape_tag hopens hcs, segments_plain escapeAngles_open, ih]
    exact characters_append.symm
  | character c cs h ih =>
    rw [escape_character h]
    have hnone : matchTag (c :: escapeQueuedUserMessageTags cs) = none := by
      rw [matchTag_eq_none] at h ⊢
      intro hopens
      have hescape := opensTag_escape c cs (.inl (Eq.refl []))
      rw [List.append_nil] at hescape
      rw [hescape] at hopens
      have hcs := h hopens
      rw [escape_of_open (List.not_mem_of_not_mem_cons hcs)]
      exact hcs
    rw [segments_character hnone, ih]
    rfl

theorem escapedOnce (text : List Char) : EscapedOnce text where
  typed := by
    induction text using scan_induction with
    | nil => rfl
    | tag cs ds hopens hcs ih =>
      rw [segments_tag hopens hcs, List.flatMap_cons, ih]
      simp [Segment.typed]
    | character c cs h ih =>
      rw [segments_character h, List.flatMap_cons, ih]
      rfl
  escaped := rfl
  again := escape_of_characters segments_escape

/-! ## A text behind which a line begins -/

theorem unterminated_of_append (h : Unterminated (cs ++ '>' :: ds)) : Unterminated ds := by
  obtain ⟨rest, hrest, hopens, hend⟩ := h
  refine ⟨rest, ?_, hopens, hend⟩
  rcases List.suffix_or_suffix_of_suffix hrest (List.suffix_append cs ('>' :: ds)) with h | h
  · rcases List.suffix_cons_iff.1 h with rfl | h
    · exact absurd List.mem_cons_self hend
    · exact h
  · exact absurd (h.subset List.mem_cons_self) hend

theorem unterminated_append (cs : List Char) (h : Unterminated ds) : Unterminated (cs ++ ds) := by
  obtain ⟨rest, hrest, hopens, hend⟩ := h
  exact ⟨rest, hrest.trans (List.suffix_append cs ds), hopens, hend⟩

theorem unterminated_cons (hopens : opensTag (c :: cs) = false) :
    Unterminated (c :: cs) ↔ Unterminated cs := by
  constructor
  · rintro ⟨rest, hrest, h, hend⟩
    rcases List.suffix_cons_iff.1 hrest with rfl | hrest
    · rw [hopens] at h
      cases h
    · exact ⟨rest, hrest, h, hend⟩
  · exact unterminated_append [c]

/-- Where the text ends its tags, none starts in what is written of it. -/
theorem segments_line (h : ¬Unterminated text) :
    segments (escapeQueuedUserMessageTags text ++ '\n' :: ds) =
      characters (escapeQueuedUserMessageTags text) ++ segments ('\n' :: ds) := by
  induction text using scan_induction with
  | nil => rfl
  | tag before after hopens hbefore ih =>
    rw [escape_tag hopens hbefore, List.append_assoc, segments_plain escapeAngles_open,
      ih fun hafter => h (unterminated_append before (unterminated_append ['>'] hafter)),
      characters_append, List.append_assoc]
  | character c cs hnone ih =>
    have hclosed : opensTag (c :: cs) = false := by
      by_contra hopens
      have hopens := Bool.of_not_eq_false hopens
      exact h ⟨_, List.suffix_refl _, hopens, matchTag_eq_none.1 hnone hopens⟩
    have hrest : matchTag (c :: (escapeQueuedUserMessageTags cs ++ '\n' :: ds)) = none := by
      rw [matchTag_eq_none, opensTag_escape c cs (.inr ⟨ds, rfl⟩), hclosed]
      exact nofun
    rw [escape_character hnone, List.cons_append, segments_character hrest,
      ih ((unterminated_cons hclosed).not.1 h)]
    rfl

/-- A tag that the text leaves open ends behind it. -/
theorem segments_line_ne (h : Unterminated text) (hend : '>' ∈ ds) (found : List Segment) :
    segments (escapeQueuedUserMessageTags text ++ '\n' :: ds) ≠
      characters (escapeQueuedUserMessageTags text) ++ found := by
  induction text using scan_induction with
  | nil =>
    obtain ⟨rest, hrest, hopens, -⟩ := h
    rw [List.suffix_nil.1 hrest] at hopens
    cases hopens
  | tag before after hopens hbefore ih =>
    rw [escape_tag hopens hbefore, List.append_assoc, segments_plain escapeAngles_open,
      characters_append, List.append_assoc]
    intro heq
    exact ih (unterminated_of_append h) (List.append_cancel_left heq)
  | character c cs hnone ih =>
    rw [escape_character hnone, List.cons_append]
    by_cases hopens : opensTag (c :: cs) = true
    · have hopened : opensTag (c :: (escapeQueuedUserMessageTags cs ++ '\n' :: ds)) = true := by
        rw [opensTag_escape c cs (.inr ⟨ds, rfl⟩), hopens]
      obtain ⟨before, after, htext, hbefore⟩ : ∃ before after,
          c :: (escapeQueuedUserMessageTags cs ++ '\n' :: ds) = before ++ '>' :: after ∧
            '>' ∉ before :=
        List.eq_append_cons_of_mem (List.mem_cons_of_mem _
          (List.mem_append_right _ (List.mem_cons_of_mem _ hend)))
      rw [htext] at hopened
      rw [htext, segments_tag hopened hbefore]
      exact nofun
    · have hclosed := Bool.of_not_eq_true hopens
      have hrest : matchTag (c :: (escapeQueuedUserMessageTags cs ++ '\n' :: ds)) = none := by
        rw [matchTag_eq_none, opensTag_escape c cs (.inr ⟨ds, rfl⟩), hclosed]
        exact nofun
      rw [segments_character hrest]
      intro heq
      exact ih ((unterminated_cons hclosed).1 h) (List.cons.inj heq).2

/-! ## The tags the wrapper writes -/

theorem matchesLetter_self (letter : Char) : matchesLetter letter letter = true := by
  simp [matchesLetter]

theorem afterName_append (name : List Char) : afterName name (name ++ rest) = some rest := by
  induction name with
  | nil => rfl
  | cons letter name ih =>
    rw [List.cons_append, afterName, if_pos (matchesLetter_self letter), ih]

theorem afterSlash_tagName : afterSlash (tagName ++ rest) = tagName ++ rest := by
  have hname : tagName = 'q' :: tagName.tail := by decide
  rw [hname]
  rfl

/-- A tag of the wrapper is found whole wherever it stands. -/
theorem segments_written (slash : List Char) (hslash : slash = [] ∨ slash = ['/'])
    (hword : (cs ++ ['>']).head?.any isWordCharacter = false) (hend : '>' ∉ cs) :
    segments ('<' :: (slash ++ tagName ++ cs ++ ['>']) ++ ds) =
      .tag ('<' :: (slash ++ tagName ++ cs ++ ['>'])) :: segments ds := by
  have hname : '>' ∉ tagName := by decide
  have hbody : '>' ∉ '<' :: (slash ++ tagName ++ cs) := by
    rcases hslash with rfl | rfl <;> simp [hname, hend]
  have hopens : opensTag ('<' :: (slash ++ tagName ++ cs) ++ '>' :: ds) = true := by
    have hafter : afterSlash (slash ++ tagName ++ cs ++ '>' :: ds) =
        tagName ++ (cs ++ '>' :: ds) := by
      rw [List.append_assoc, List.append_assoc]
      rcases hslash with rfl | rfl
      · exact afterSlash_tagName
      · rfl
    have hhead : (cs ++ '>' :: ds).head?.any isWordCharacter = false := by
      cases cs <;> exact hword
    rw [List.cons_append, opensTag, hafter, afterName_append, Option.any_some, hhead]
    rfl
  have htag := segments_tag hopens hbody
  simpa using htag

section Wrap

variable (format : Jsonl.NumberFormat)

theorem escapeAttributeValue_closed (value : List Char) : '>' ∉ escapeAttributeValue value := by
  unfold escapeAttributeValue
  rw [List.mem_flatMap]
  rintro ⟨c, -, hc⟩
  split_ifs at hc with _ _ _ h
  · simp at hc
  · simp at hc
  · simp at hc
  · simp at hc
  · exact h (List.mem_singleton.1 hc).symm

theorem attributeText_closed {name : String} {value : List Char} (hname : '>' ∉ name.toList)
    (hvalue : '>' ∉ value) : '>' ∉ attributeText name value := by
  simp [attributeText, hname, hvalue]

theorem attributeSuffix_closed (metadata : QueuedMessageMetadata) :
    '>' ∉ attributeSuffix format metadata := by
  unfold attributeSuffix
  rw [List.mem_flatMap]
  rintro ⟨text, htext, hmem⟩
  have hmem : '>' ∈ text := (List.mem_cons.1 hmem).resolve_left (by decide)
  revert hmem
  unfold attributes at htext
  rw [List.mem_append, List.mem_append, Option.mem_toList, Option.mem_toList] at htext
  rcases htext with (hsource | hitem) | henqueued
  · obtain ⟨value, -, rfl⟩ := Option.map_eq_some_iff.1 hsource
    exact attributeText_closed (by decide) (escapeAttributeValue_closed value)
  · obtain ⟨value, -, rfl⟩ := Option.map_eq_some_iff.1 hitem
    exact attributeText_closed (by decide) (escapeAttributeValue_closed value)
  · split at henqueued
    · rename_i ms _
      split_ifs at henqueued
      · cases henqueued
      · rw [List.mem_singleton.1 henqueued]
        refine attributeText_closed (by decide) fun hmem => ?_
        have := format.chars ms _ hmem
        revert this
        decide
    · cases henqueued

theorem segments_openingTag (metadata : QueuedMessageMetadata) :
    segments (openingTag format metadata ++ ds) =
      .tag (openingTag format metadata) :: segments ds := by
  have hword : (attributeSuffix format metadata ++ ['>']).head?.any isWordCharacter = false := by
    unfold attributeSuffix
    cases attributes format metadata <;> rfl
  have htag : '<' :: ([] ++ tagName ++ attributeSuffix format metadata ++ ['>']) =
      openingTag format metadata := by
    simp [openingTag]
  rw [← htag]
  exact segments_written [] (.inl rfl) hword (attributeSuffix_closed format metadata)

theorem segments_closingTag : segments (closingTag ++ ds) = .tag closingTag :: segments ds := by
  have htag : '<' :: (['/'] ++ tagName ++ [] ++ ['>']) = closingTag := by simp [closingTag]
  rw [← htag]
  exact segments_written ['/'] (.inr rfl) (by decide) (by decide)

/-! ## A batch -/

/-- A text that is not blank, as it is written. -/
def written (item : QueuedItem) : List Char :=
  openingTag format item.metadata ++
    '\n' :: escapeQueuedUserMessageTags item.text ++ '\n' :: closingTag

theorem segments_newline : segments ('\n' :: ds) = .character '\n' :: segments ds :=
  segments_character (matchTag_of_ne (by decide))

theorem segments_written_item {item : QueuedItem} (h : ¬Unterminated item.text) :
    segments (written format item ++ ds) = wrappedSegments format item ++ segments ds := by
  have hline := @segments_line (closingTag ++ ds) _ h
  simp only [written, wrappedSegments, List.append_assoc, List.cons_append]
  rw [segments_openingTag, segments_newline, hline, segments_newline, segments_closingTag]
  simp [characters]

theorem segments_written_item_ne {item : QueuedItem} (h : Unterminated item.text)
    (found : List Segment) :
    segments (written format item ++ ds) ≠ wrappedSegments format item ++ found := by
  have hend : '>' ∈ closingTag ++ ds := by simp [closingTag]
  simp only [written, wrappedSegments, List.append_assoc, List.cons_append]
  rw [segments_openingTag, segments_newline]
  intro heq
  refine segments_line_ne h hend (.character '\n' :: .tag closingTag :: found) ?_
  simpa [characters] using heq

theorem wrapped_eq_written (items : List QueuedItem) :
    (items.map fun item => wrapQueuedMessageText format item.text item.metadata).filter (· ≠ []) =
      (items.filter fun item => !isBlank item.text).map (written format) := by
  induction items with
  | nil => rfl
  | cons item items ih =>
    by_cases h : isBlank item.text = true
    · simp only [List.map_cons, wrapQueuedMessageText, if_pos h] at ih ⊢
      rw [List.filter_cons_of_neg (by simp), List.filter_cons_of_neg (by simp [h])]
      exact ih
    · have hne : written format item ≠ [] := by simp [written, openingTag]
      simp only [List.map_cons, wrapQueuedMessageText, if_neg h] at ih ⊢
      rw [List.filter_cons_of_pos (by simpa [written] using hne),
        List.filter_cons_of_pos (by simp [h]), List.map_cons, ih]
      rfl

theorem intersperse_flatten {α : Type} (separator first : List α) (lists : List (List α)) :
    ((first :: lists).intersperse separator).flatten =
      first ++ lists.flatMap (separator ++ ·) := by
  induction lists generalizing first with
  | nil => simp
  | cons second lists ih =>
    rw [List.intersperse_cons_cons, List.flatten_cons, List.flatten_cons, ih]
    simp

theorem segments_items_cons (item : QueuedItem) (items : List QueuedItem) :
    segments (written format item ++ (items.map (written format)).flatMap (['\n', '\n'] ++ ·)) =
        wrappedSegments format item ++
          (items.map (wrappedSegments format)).flatMap (characters ['\n', '\n'] ++ ·) ↔
      ∀ each ∈ item :: items, ¬Unterminated each.text := by
  induction items generalizing item with
  | nil =>
    rw [List.forall_mem_singleton]
    by_cases h : Unterminated item.text
    · simp only [h, not_true, iff_false]
      exact segments_written_item_ne format h _
    · simp only [h, not_false_eq_true, iff_true]
      exact segments_written_item format h
  | cons next items ih =>
    rw [List.forall_mem_cons, ← ih next]
    by_cases h : Unterminated item.text
    · simp only [h, not_true, false_and, iff_false]
      exact segments_written_item_ne format h _
    · rw [segments_written_item format h, List.append_cancel_left_eq]
      simp only [List.map_cons, List.flatMap_cons, List.cons_append, List.nil_append,
        segments_newline]
      simp [characters, h]

/-- A reader finds the tags of each item exactly where no item leaves one open. -/
theorem segments_items (items : List QueuedItem) :
    segments (joinBlankLine (items.map (written format))) =
        ((items.map (wrappedSegments format)).intersperse (characters ['\n', '\n'])).flatten ↔
      ∀ item ∈ items, ¬Unterminated item.text := by
  cases items with
  | nil => simp [joinBlankLine, segments, segmentsFrom]
  | cons item items =>
    rw [joinBlankLine, List.map_cons, List.map_cons, intersperse_flatten, intersperse_flatten]
    exact segments_items_cons format item items

/-- The tags that a reader finds in a batch are those of its messages that are not blank, each around
the text it escapes, if and only if none of these texts leaves a tag unterminated. -/
theorem boundaries_unforged (items : List QueuedItem) :
    (segments (wrapQueuedMessageBatch format items) = batchSegments format items ∧
        ∀ text, EscapedOnce text) ↔
      ∀ item ∈ items, isBlank item.text = false → ¬Unterminated item.text := by
  have hitems := segments_items format (items.filter fun item => !isBlank item.text)
  rw [wrapQueuedMessageBatch, wrapped_eq_written, batchSegments, hitems]
  simp [escapedOnce]

/-- The closing tag that follows the text ends the tag that it opens, and the message is not closed. -/
theorem open_fragment_forges :
    segments (wrapQueuedMessageBatch Jsonl.zeroFormat
        [⟨"hi <queued-user-message x".toList, {}⟩]) =
      .tag "<queued-user-message>".toList :: characters "\nhi ".toList ++
        [.tag "<queued-user-message x\n</queued-user-message>".toList] ∧
    ¬(segments (wrapQueuedMessageBatch Jsonl.zeroFormat
          [⟨"hi <queued-user-message x".toList, {}⟩]) =
        batchSegments Jsonl.zeroFormat [⟨"hi <queued-user-message x".toList, {}⟩] ∧
      ∀ text, EscapedOnce text) := by
  have hfound : segments (wrapQueuedMessageBatch Jsonl.zeroFormat
      [⟨"hi <queued-user-message x".toList, {}⟩]) =
      .tag "<queued-user-message>".toList :: characters "\nhi ".toList ++
        [.tag "<queued-user-message x\n</queued-user-message>".toList] := by
    decide +kernel
  refine ⟨hfound, fun h => ?_⟩
  have hwritten := h.1
  rw [hfound] at hwritten
  revert hwritten
  decide +kernel

end Wrap

end QueuedMessage

end Kinetick
