import Kinetick.Permission.ShellRule

/-!
# Wildcard rules mean what they say

The compilation of a pattern goes through sentinels; on the parts that the pattern reads as, each of
its replacements changes the text of one kind of part. So the regular expression has a term for each
part, and tests what the parts say.
-/

namespace Kinetick.Permission

/-! ## Which rules are wildcards -/

/-- A part that is a star is written by a bare star. -/
theorem eq_star_of_head {cs : List Char} (h : (patternParts cs).head? = some .star) :
    ∃ rest, cs = '*' :: rest := by
  cases cs using patternParts.induct with
  | case1 cs => simp [patternParts] at h
  | case2 cs => simp [patternParts] at h
  | case3 cs => exact ⟨cs, rfl⟩
  | case4 c cs hbackslash hstar hbare =>
    rw [patternParts] at h <;> try assumption
    simp at h
  | case5 => simp [patternParts] at h

/-- The look-behind of one character finds the unescaped stars, unless one stands after an escaped
backslash. -/
theorem wildcardFrom_iff (cs : List Char) (previous : Option Char)
    (hprevious : previous = some '\\' → (patternParts cs).head? ≠ some .star)
    (hafter : ¬ [.literal '\\', .star] <:+: patternParts cs) :
    wildcardFrom previous cs = true ↔ .star ∈ patternParts cs := by
  induction cs using patternParts.induct generalizing previous with
  | case1 cs ih =>
    rw [patternParts] at hafter ⊢
    have hhead : (patternParts cs).head? ≠ some .star := by
      intro hstar
      obtain ⟨rest, hrest⟩ := List.head?_eq_some_iff.1 hstar
      exact hafter ⟨[], rest, by simp [hrest]⟩
    have hrest := ih (some '\\') (fun _ => hhead) fun h => hafter (List.infix_cons h)
    simpa [wildcardFrom] using hrest
  | case2 cs ih =>
    rw [patternParts] at hafter ⊢
    have hrest := ih (some '*') (by simp) fun h => hafter (List.infix_cons h)
    simpa [wildcardFrom] using hrest
  | case3 cs ih =>
    rw [patternParts] at hprevious ⊢
    have hnot : previous ≠ some '\\' := fun h => hprevious h rfl
    simp [wildcardFrom, hnot]
  | case4 c cs hbackslash hstar hbare ih =>
    rw [patternParts] at hafter ⊢ <;> try assumption
    have hhead : some c = some '\\' → (patternParts cs).head? ≠ some .star := by
      intro hc hhead
      obtain ⟨rest, rfl⟩ := eq_star_of_head hhead
      exact hstar rest (Option.some.inj hc) rfl
    have hrest := ih (some c) hhead fun h => hafter (List.infix_cons h)
    have hc : c ≠ '*' := by simpa using hbare
    simpa [wildcardFrom, hc] using hrest
  | case5 => simp [wildcardFrom, patternParts]

theorem containsUnescapedWildcard_iff {cs : List Char}
    (hafter : ¬ [.literal '\\', .star] <:+: patternParts cs) :
    containsUnescapedWildcard cs = true ↔ .star ∈ patternParts cs :=
  wildcardFrom_iff cs none (by simp) hafter

theorem prefixMatch_iff {pattern text : List Char} :
    prefixMatch pattern = some text ↔
      text ≠ [] ∧ OnOneLine text ∧ pattern = text ++ [':', '*'] := by
  unfold prefixMatch
  split_ifs with hends
  · obtain ⟨front, rfl⟩ := hends
    simp only [Option.filter_eq_some_iff, Option.some.injEq, List.length_append, List.length_cons,
      List.length_nil, Nat.add_sub_cancel, List.take_left, OnOneLine, List.append_cancel_right_eq]
    constructor
    · rintro ⟨rfl, h⟩
      simp_all
    · rintro ⟨h, h', rfl⟩
      simp_all
  · simp only [false_iff, not_and]
    rintro - - rfl
    exact hends ⟨text, rfl⟩

/-- A colon and a star after the text are read for themselves. -/
theorem patternParts_append (cs : List Char) :
    patternParts (cs ++ [':', '*']) = patternParts cs ++ [.literal ':', .star] := by
  induction cs using patternParts.induct with
  | case1 cs ih => simp [patternParts, ih]
  | case2 cs ih => simp [patternParts, ih]
  | case3 cs ih => simp [patternParts, ih]
  | case4 c cs hbackslash hstar hbare ih =>
    rw [patternParts, List.cons_append, patternParts, ih] <;> try assumption
    · rfl
    · rintro rest hc heq
      cases cs with
      | nil => simp at heq
      | cons d ds =>
        rw [List.cons_append, List.cons.injEq] at heq
        exact hbackslash ds hc (by rw [heq.1])
    · rintro rest hc heq
      cases cs with
      | nil => simp at heq
      | cons d ds =>
        rw [List.cons_append, List.cons.injEq] at heq
        exact hstar ds hc (by rw [heq.1])
  | case5 => rfl

theorem isPrefixRule_iff {pattern : List Char}
    (hafter : ¬ [.literal '\\', .star] <:+: patternParts pattern) :
    IsPrefixRule pattern ↔
      ((prefixMatch pattern).filter fun text => !containsUnescapedWildcard text).isSome = true := by
  have hiff : ∀ text, pattern = text ++ [':', '*'] →
      (containsUnescapedWildcard text = true ↔ .star ∈ patternParts text) := by
    rintro text rfl
    refine containsUnescapedWildcard_iff fun hinfix => hafter ?_
    rw [patternParts_append]
    exact hinfix.trans (List.prefix_append _ _).isInfix
  rw [Option.isSome_iff_exists]
  simp only [Option.filter_eq_some_iff, prefixMatch_iff, Bool.not_eq_true']
  constructor
  · rintro ⟨text, hne, hline, hstar, heq⟩
    refine ⟨text, ⟨hne, hline, heq⟩, ?_⟩
    rwa [← Bool.not_eq_true, hiff text heq]
  · rintro ⟨text, ⟨hne, hline, heq⟩, hnot⟩
    refine ⟨text, hne, hline, ?_, heq⟩
    rw [← hiff text heq, hnot]
    simp

theorem isWildcard_iff {pattern : String}
    (hafter : ¬ [.literal '\\', .star] <:+: patternParts pattern.toList) :
    (∃ text, parseShellRule pattern = .wildcard text) ↔
      .star ∈ patternParts pattern.toList ∧ tryDecodeArgvPrefix pattern = none ∧
        ¬ IsPrefixRule pattern.toList := by
  rw [isPrefixRule_iff hafter, ← containsUnescapedWildcard_iff hafter]
  unfold parseShellRule
  rcases tryDecodeArgvPrefix pattern with _ | argv
  swap
  · simp
  rcases (prefixMatch pattern.toList).filter fun text => !containsUnescapedWildcard text with _ | text
  · by_cases hstar : containsUnescapedWildcard pattern.toList = true
    · simp [hstar]
    · simp [hstar]
  · simp

/-! ## What a wildcard matches -/

/-- What stands for a part: an escaped backslash, an escaped star, a star or another character. -/
def PatternPart.text (backslash escapedStar star : List Char) (other : Char → List Char) :
    PatternPart → List Char
  | .star => star
  | .literal c => if c = '\\' then backslash else if c = '*' then escapedStar else other c

section Text

variable {backslash escapedStar star : List Char} {other : Char → List Char}

@[simp] theorem text_star : PatternPart.text backslash escapedStar star other .star = star := rfl

@[simp] theorem text_backslash :
    PatternPart.text backslash escapedStar star other (.literal '\\') = backslash := rfl

@[simp] theorem text_escapedStar :
    PatternPart.text backslash escapedStar star other (.literal '*') = escapedStar := rfl

theorem text_other {c : Char} (hbackslash : c ≠ '\\') (hstar : c ≠ '*') :
    PatternPart.text backslash escapedStar star other (.literal c) = other c := by
  rw [PatternPart.text, if_neg hbackslash, if_neg hstar]

/-- The kinds of a part. -/
theorem PatternPart.kinds {motive : PatternPart → Prop} (star : motive .star)
    (backslash : motive (.literal '\\')) (escapedStar : motive (.literal '*'))
    (other : ∀ c, c ≠ '\\' → c ≠ '*' → motive (.literal c)) (p : PatternPart) : motive p := by
  rcases p with c | _
  · by_cases hb : c = '\\'
    · exact hb ▸ backslash
    · by_cases hs : c = '*'
      · exact hs ▸ escapedStar
      · exact other c hb hs
  · exact star

end Text

/-- A pattern whose backslashes are paired is the text of its parts. -/
theorem pattern_eq {cs : List Char} (h : backslashesPaired cs = true) :
    cs = (patternParts cs).flatMap (PatternPart.text ['\\', '\\'] ['\\', '*'] ['*'] fun c => [c]) := by
  induction cs using patternParts.induct with
  | case1 cs ih =>
    rw [patternParts, List.flatMap_cons, text_backslash, ← ih (by simpa [backslashesPaired] using h)]
    rfl
  | case2 cs ih =>
    rw [patternParts, List.flatMap_cons, text_escapedStar, ← ih (by simpa [backslashesPaired] using h)]
    rfl
  | case3 cs ih =>
    rw [patternParts, List.flatMap_cons, text_star, ← ih (by simpa [backslashesPaired] using h)]
    rfl
  | case4 c cs hbackslash hstar hbare ih =>
    rw [backslashesPaired] at h <;> try assumption
    simp only [ne_eq, decide_not, Bool.and_eq_true, Bool.not_eq_true', decide_eq_false_iff_not] at h
    rw [patternParts, List.flatMap_cons, text_other h.1 (by simpa using hbare), ← ih h.2] <;>
      try assumption
    rfl
  | case5 => rfl

/-! ### The replacements -/

section Stages

variable {parts : List PatternPart}

/-- No character of the pattern is a sentinel's. -/
def NulFree (parts : List PatternPart) : Prop := .literal '\x00' ∉ parts

theorem noneBegins_pair {a b c d : Char} (hcd : a = c → b ≠ d) (had : a ≠ d) (cs : List Char) :
    NoneBegins [a, b] [c, d] cs := by
  intro x tail hx hoccurs
  obtain ⟨after, hafter⟩ := hoccurs
  rw [List.suffix_cons_iff, List.suffix_cons_iff] at hx
  rcases hx with hx | hx | hx
  · cases hx
    simp only [List.cons_append, List.cons.injEq, List.nil_append] at hafter
    exact hcd hafter.1 hafter.2.1
  · cases hx
    exact had (List.cons.inj hafter).1
  · simp at hx

theorem replace_backslashes : replaceText ['\\', '\\'] escapedBackslashSentinel
    (parts.flatMap (PatternPart.text ['\\', '\\'] ['\\', '*'] ['*'] fun c => [c])) =
      parts.flatMap (PatternPart.text escapedBackslashSentinel ['\\', '*'] ['*'] fun c => [c]) := by
  refine replaceText_flatMap (by simp) fun p ps _ => ?_
  cases p using PatternPart.kinds with
  | star => exact .inr ⟨rfl, noneBegins_of_head (by simp)⟩
  | backslash => exact .inl ⟨rfl, rfl⟩
  | escapedStar => exact .inr ⟨rfl, noneBegins_pair (by simp) (by simp) _⟩
  | other c hb hs =>
    rw [text_other hb hs, text_other hb hs]
    exact .inr ⟨rfl, noneBegins_of_head (by simpa using Ne.symm hb)⟩

theorem replace_escapedStars : replaceText ['\\', '*'] escapedStarSentinel
    (parts.flatMap (PatternPart.text escapedBackslashSentinel ['\\', '*'] ['*'] fun c => [c])) =
      parts.flatMap
        (PatternPart.text escapedBackslashSentinel escapedStarSentinel ['*'] fun c => [c]) := by
  refine replaceText_flatMap (by simp) fun p ps _ => ?_
  cases p using PatternPart.kinds with
  | star => exact .inr ⟨rfl, noneBegins_of_head (by simp)⟩
  | backslash => exact .inr ⟨rfl, noneBegins_of_head (by decide)⟩
  | escapedStar => exact .inl ⟨rfl, rfl⟩
  | other c hb hs =>
    rw [text_other hb hs, text_other hb hs]
    exact .inr ⟨rfl, noneBegins_of_head (by simpa using Ne.symm hb)⟩

theorem escape_specials :
    (parts.flatMap (PatternPart.text escapedBackslashSentinel escapedStarSentinel ['*']
      fun c => [c])).flatMap escapeSpecial =
      parts.flatMap
        (PatternPart.text escapedBackslashSentinel escapedStarSentinel ['*'] escapeSpecial) := by
  rw [List.flatMap_assoc]
  refine List.flatMap_congr fun p _ => ?_
  cases p using PatternPart.kinds with
  | star => decide
  | backslash => decide
  | escapedStar => decide
  | other c hb hs =>
    rw [text_other hb hs, text_other hb hs]
    simp

theorem star_not_mem_escapeSpecial {c : Char} (hs : c ≠ '*') : '*' ∉ escapeSpecial c := by
  unfold escapeSpecial
  split_ifs
  · simpa using Ne.symm hs
  · simpa using Ne.symm hs

theorem replace_stars : replaceText ['*'] ['.', '*']
    (parts.flatMap
      (PatternPart.text escapedBackslashSentinel escapedStarSentinel ['*'] escapeSpecial)) =
      parts.flatMap (PatternPart.text escapedBackslashSentinel escapedStarSentinel ['.', '*']
        escapeSpecial) := by
  refine replaceText_flatMap (by simp) fun p ps _ => ?_
  cases p using PatternPart.kinds with
  | star => exact .inl ⟨rfl, rfl⟩
  | backslash => exact .inr ⟨rfl, noneBegins_of_head (by decide)⟩
  | escapedStar => exact .inr ⟨rfl, noneBegins_of_head (by decide)⟩
  | other c hb hs =>
    rw [text_other hb hs, text_other hb hs]
    exact .inr ⟨rfl, noneBegins_of_head (star_not_mem_escapeSpecial hs)⟩

/-- The source of a pattern's parts, the sentinels in place. -/
abbrev sentinelText : PatternPart → List Char :=
  PatternPart.text escapedBackslashSentinel escapedStarSentinel ['.', '*'] escapeSpecial

theorem nul_not_mem_escapeSpecial {c : Char} (hc : c ≠ '\x00') : '\x00' ∉ escapeSpecial c := by
  unfold escapeSpecial
  split_ifs
  · simpa using Ne.symm hc
  · simpa using Ne.symm hc

/-- A letter at the head of the source is a part. -/
theorem letter_of_prefix {c : Char} {word : List Char} (hnul : c ≠ '\x00') (hbackslash : c ≠ '\\')
    (hdot : c ≠ '.') (h : c :: word <+: parts.flatMap sentinelText) :
    ∃ rest, parts = .literal c :: rest ∧ word <+: rest.flatMap sentinelText := by
  obtain ⟨after, hafter⟩ := h
  rcases parts with _ | ⟨p, ps⟩
  · cases hafter
  rw [List.flatMap_cons] at hafter
  cases p using PatternPart.kinds with
  | star => exact absurd (List.cons.inj hafter).1 hdot
  | backslash => exact absurd (List.cons.inj hafter).1 hnul
  | escapedStar => exact absurd (List.cons.inj hafter).1 hnul
  | other d hb hs =>
    rw [sentinelText, text_other hb hs, escapeSpecial] at hafter
    split_ifs at hafter with hspecial
    · exact absurd (List.cons.inj hafter).1 hbackslash
    · obtain ⟨rfl, hrest⟩ := List.cons.inj hafter
      exact ⟨ps, rfl, after, hrest⟩

/-- What stands before a sentinel is an escaped backslash or star. -/
theorem sentinel_of_prefix (hfree : NulFree parts) (h : ['\x00'] <+: parts.flatMap sentinelText) :
    ∃ c rest, parts = .literal c :: rest ∧ (c = '\\' ∨ c = '*') := by
  obtain ⟨after, hafter⟩ := h
  rcases parts with _ | ⟨p, ps⟩
  · cases hafter
  rw [List.flatMap_cons] at hafter
  cases p using PatternPart.kinds with
  | star => exact absurd (List.cons.inj hafter).1 (by decide)
  | backslash => exact ⟨_, ps, rfl, .inl rfl⟩
  | escapedStar => exact ⟨_, ps, rfl, .inr rfl⟩
  | other d hb hs =>
    have hd : d ≠ '\x00' := by
      rintro rfl
      exact hfree List.mem_cons_self
    refine absurd ?_ (nul_not_mem_escapeSpecial hd)
    rw [sentinelText, text_other hb hs] at hafter
    unfold escapeSpecial at hafter ⊢
    split_ifs at hafter ⊢
    · exact absurd (List.cons.inj hafter).1 (by decide)
    · exact absurd (List.cons.inj hafter).1.symm hd

/-- The text of an escaped backslash, the letters of a sentinel and the backslash of an escape. -/
def collision : List Char := "\\\\STAR\\".toList

/-- The pattern's own text, of its parts. -/
abbrev ownText : PatternPart → List Char :=
  PatternPart.text ['\\', '\\'] ['\\', '*'] ['*'] fun c => [c]

theorem collides (hfree : NulFree parts)
    (h : ['S', 'T', 'A', 'R', '\x00'] <+: parts.flatMap sentinelText) :
    collision <+: (.literal '\\' :: parts).flatMap ownText := by
  obtain ⟨_, rfl, ht⟩ := letter_of_prefix (by decide) (by decide) (by decide) h
  obtain ⟨_, rfl, ha⟩ := letter_of_prefix (by decide) (by decide) (by decide) ht
  obtain ⟨_, rfl, hr⟩ := letter_of_prefix (by decide) (by decide) (by decide) ha
  obtain ⟨_, rfl, hnul⟩ := letter_of_prefix (by decide) (by decide) (by decide) hr
  obtain ⟨c, rest, rfl, hc⟩ := sentinel_of_prefix (fun hmem => hfree (by simp [hmem])) hnul
  rcases hc with rfl | rfl
  · exact ⟨'\\' :: rest.flatMap ownText, rfl⟩
  · exact ⟨'*' :: rest.flatMap ownText, rfl⟩

theorem restore_escapedStars (hfree : NulFree parts)
    (hcollision : ¬ collision <:+: parts.flatMap ownText) :
    replaceText escapedStarSentinel ['\\', '*'] (parts.flatMap sentinelText) =
      parts.flatMap
        (PatternPart.text escapedBackslashSentinel ['\\', '*'] ['.', '*'] escapeSpecial) := by
  refine replaceText_flatMap (by decide) fun p ps hsuffix => ?_
  cases p using PatternPart.kinds with
  | star => exact .inr ⟨rfl, noneBegins_of_head (by decide)⟩
  | backslash =>
    refine .inr ⟨rfl, fun x tail hx hoccurs => ?_⟩
    -- an occurrence that begins with the last character of the sentinel runs over its end
    have hlast : x = '\x00' → tail = [] → False := by
      rintro rfl rfl
      refine hcollision ((@collides ps (fun hmem => ?_) ?_).isInfix.trans ?_)
      · exact hfree (hsuffix.subset (List.mem_cons_of_mem _ hmem))
      · exact (List.cons_prefix_cons.1 hoccurs).2
      · obtain ⟨before, hbefore⟩ := hsuffix
        exact ⟨before.flatMap ownText, [], by rw [← hbefore]; simp⟩
    have hnul : x = '\x00' := (List.cons_prefix_cons.1 hoccurs).1.symm
    have hletters : ['\x00', 'B', 'S', 'L', 'A', 'S', 'H', '\x00'] = escapedBackslashSentinel := rfl
    rw [sentinelText, text_backslash, ← hletters] at hx
    simp only [List.suffix_cons_iff, List.suffix_nil, hnul, List.cons.injEq, reduceCtorEq, or_false,
      Char.reduceEq, false_and, false_or, true_and] at hx
    rcases hx with rfl | rfl
    · exact absurd (List.cons_prefix_cons.1 (List.cons_prefix_cons.1 hoccurs).2).1 (by decide)
    · exact hlast hnul rfl
  | escapedStar => exact .inl ⟨rfl, rfl⟩
  | other c hb hs =>
    have hc : c ≠ '\x00' := by
      rintro rfl
      exact hfree (hsuffix.subset List.mem_cons_self)
    rw [sentinelText, text_other hb hs, text_other hb hs]
    exact .inr ⟨rfl, noneBegins_of_head (nul_not_mem_escapeSpecial hc)⟩

theorem restore_backslashes (hfree : NulFree parts) :
    replaceText escapedBackslashSentinel ['\\', '\\'] (parts.flatMap
      (PatternPart.text escapedBackslashSentinel ['\\', '*'] ['.', '*'] escapeSpecial)) =
      parts.flatMap
        (PatternPart.text ['\\', '\\'] ['\\', '*'] ['.', '*'] escapeSpecial) := by
  refine replaceText_flatMap (by decide) fun p ps hsuffix => ?_
  cases p using PatternPart.kinds with
  | star => exact .inr ⟨rfl, noneBegins_of_head (by decide)⟩
  | backslash => exact .inl ⟨rfl, rfl⟩
  | escapedStar => exact .inr ⟨rfl, noneBegins_of_head (by decide)⟩
  | other c hb hs =>
    have hc : c ≠ '\x00' := by
      rintro rfl
      exact hfree (hsuffix.subset List.mem_cons_self)
    rw [text_other hb hs, text_other hb hs]
    exact .inr ⟨rfl, noneBegins_of_head (nul_not_mem_escapeSpecial hc)⟩

end Stages

/-! ### The regular expression -/

def PatternPart.term : PatternPart → RegExpTerm
  | .literal c => .char c
  | .star => .any

theorem wildcardSource_eq {pattern : List Char} (hpaired : backslashesPaired pattern = true)
    (hnul : '\x00' ∉ pattern) (hcollision : ¬ collision <:+: pattern) :
    wildcardSource pattern = '^' :: (patternParts pattern).flatMap
      (PatternPart.text ['\\', '\\'] ['\\', '*'] ['.', '*'] escapeSpecial) ++ ['$'] := by
  have heq : pattern = (patternParts pattern).flatMap ownText := pattern_eq hpaired
  generalize patternParts pattern = parts at heq ⊢
  subst heq
  have hfree : NulFree parts := fun hmem => hnul (List.mem_flatMap.2 ⟨_, hmem, by decide⟩)
  unfold wildcardSource
  simp only
  rw [replace_backslashes, replace_escapedStars]
  rw [escape_specials, replace_stars, restore_escapedStars hfree hcollision,
    restore_backslashes hfree]

theorem regExpTerms_char {c : Char} (hc : c ∉ syntaxCharacters) (source : List Char) :
    regExpTerms (c :: source) = (regExpTerms source).map (.char c :: ·) := by
  have hdollar : c ≠ '$' := by
    rintro rfl
    exact hc (by decide)
  have hbackslash : c ≠ '\\' := by
    rintro rfl
    exact hc (by decide)
  have hdot : c ≠ '.' := by
    rintro rfl
    exact hc (by decide)
  rw [regExpTerms.eq_def]
  split <;> simp_all

theorem regExpTerms_escaped {c : Char} (hc : c ∈ syntaxCharacters) (source : List Char) :
    regExpTerms ('\\' :: c :: source) = (regExpTerms source).map (.char c :: ·) := by
  rw [regExpTerms, if_pos hc]

theorem regExpTerms_other {c : Char} (hb : c ≠ '\\') (hs : c ≠ '*') (source : List Char) :
    regExpTerms (escapeSpecial c ++ source) = (regExpTerms source).map (.char c :: ·) := by
  have hspecials : c ∈ syntaxCharacters ↔ isRegexSpecial c = true := by
    have hmore : syntaxCharacters = '\\' :: '*' :: ".+?^$\x7b\x7d()|[]".toList := rfl
    rw [isRegexSpecial, hmore, List.mem_cons, List.mem_cons, List.contains_iff_mem]
    simp only [hb, hs, false_or]
  unfold escapeSpecial
  split_ifs with hspecial
  · exact regExpTerms_escaped (hspecials.2 hspecial) source
  · exact regExpTerms_char (fun h => hspecial (hspecials.1 h)) source

theorem regExpTerms_parts (parts : List PatternPart) :
    regExpTerms (parts.flatMap
      (PatternPart.text ['\\', '\\'] ['\\', '*'] ['.', '*'] escapeSpecial) ++ ['$']) =
      some (parts.map PatternPart.term) := by
  induction parts with
  | nil => rfl
  | cons p ps ih =>
    rw [List.flatMap_cons, List.append_assoc]
    cases p using PatternPart.kinds with
    | star =>
      rw [text_star, List.cons_append, List.cons_append, List.nil_append, regExpTerms, ih]
      rfl
    | backslash =>
      rw [text_backslash, List.cons_append, List.cons_append, List.nil_append, regExpTerms_escaped (by decide), ih]
      rfl
    | escapedStar =>
      rw [text_escapedStar, List.cons_append, List.cons_append, List.nil_append, regExpTerms_escaped (by decide), ih]
      rfl
    | other c hb hs =>
      rw [text_other hb hs, regExpTerms_other hb hs, ih]
      rfl

section

variable (platform : RegExpPlatform)

theorem matchAny_iff (rest : List Char → Bool) (text : List Char) :
    matchAny rest text = true ↔
      ∃ filling after, text = filling ++ after ∧ OnOneLine filling ∧ rest after = true := by
  induction text with
  | nil =>
    rw [matchAny]
    constructor
    · exact fun h => ⟨[], [], rfl, by simp [OnOneLine], h⟩
    · rintro ⟨filling, after, heq, -, h⟩
      rw [List.nil_eq_append_iff] at heq
      rwa [heq.2] at h
  | cons c cs ih =>
    rw [matchAny, Bool.or_eq_true, Bool.and_eq_true, ih]
    constructor
    · rintro (h | ⟨hc, filling, after, rfl, hline, h⟩)
      · exact ⟨[], c :: cs, rfl, by simp [OnOneLine], h⟩
      · refine ⟨c :: filling, after, rfl, ?_, h⟩
        simp only [OnOneLine, List.forall_mem_cons]
        exact ⟨by simpa using hc, hline⟩
    · rintro ⟨filling, after, heq, hline, h⟩
      rcases filling with _ | ⟨d, filling⟩
      · rw [List.nil_append] at heq
        exact .inl (heq ▸ h)
      · obtain ⟨rfl, hrest⟩ := List.cons.inj heq
        refine .inr ⟨by simpa using hline c List.mem_cons_self, filling, after, hrest, ?_, h⟩
        exact fun x hx => hline x (List.mem_cons_of_mem _ hx)

theorem Fills.of_star {canonicalize : Char → Char} {Filling : List Char → Prop}
    {ps : List PatternPart} {text : List Char} (h : Fills canonicalize Filling (.star :: ps) text) :
    ∃ filling after, text = filling ++ after ∧ Filling filling ∧
      Fills canonicalize Filling ps after := by
  generalize hparts : PatternPart.star :: ps = parts at h
  cases h with
  | nil => cases hparts
  | literal => cases hparts
  | star hfilling h =>
    cases hparts
    exact ⟨_, _, rfl, hfilling, h⟩

/-- The terms of the parts test what the parts say. -/
theorem testTerms_iff (parts : List PatternPart) (text : List Char) :
    testTerms platform (parts.map PatternPart.term) text = true ↔
      Fills platform.canonicalize OnOneLine parts text := by
  induction parts generalizing text with
  | nil =>
    constructor
    · intro h
      rw [List.map_nil, testTerms, List.isEmpty_iff] at h
      exact h ▸ .nil
    · rintro ⟨⟩
      rfl
  | cons p ps ih =>
    rcases p with c | _
    · rcases text with _ | ⟨d, text⟩
      · constructor
        · intro h
          cases h
        · rintro ⟨⟩
      · change (decide _ && testTerms platform (ps.map PatternPart.term) text) = true ↔ _
        rw [Bool.and_eq_true, decide_eq_true_eq, ih]
        constructor
        · rintro ⟨hc, h⟩
          exact .literal hc h
        · rintro ⟨⟩
          exact ⟨by assumption, by assumption⟩
    · change matchAny (testTerms platform (ps.map PatternPart.term)) text = true ↔ _
      rw [matchAny_iff]
      constructor
      · rintro ⟨filling, after, rfl, hline, h⟩
        exact .star hline ((ih after).1 h)
      · rintro h
        obtain ⟨filling, after, rfl, hline, h⟩ := h.of_star
        exact ⟨filling, after, rfl, hline, (ih after).2 h⟩

theorem matchShellRule_wildcard_iff {pattern : String}
    (hpaired : backslashesPaired pattern.toList = true) (hnul : '\x00' ∉ pattern.toList)
    (hcollision : ¬ collision <:+: pattern.toList) (command : String) :
    matchShellRule platform command (.wildcard pattern) = true ↔
      Fills platform.canonicalize OnOneLine (patternParts pattern.toList) command.toList := by
  rw [← testTerms_iff]
  change (Option.any _ (regExp platform (wildcardSource pattern.toList))) = true ↔ _
  rw [wildcardSource_eq hpaired hnul hcollision, List.cons_append, regExp, regExpTerms_parts]
  rfl

end

/-- Where no unescaped star stands after an escaped backslash, the wildcards are the rules with an
unescaped star that are neither an argument vector nor a prefix. Where all backslashes are paired, no
character is NUL and no sentinel is written out after an escaped backslash, a wildcard matches the
commands that have a text of one line for each star and, up to letter case, the rest of the pattern. -/
theorem wildcard_says (platform : RegExpPlatform) (pattern : String) :
    (¬ [.literal '\\', .star] <:+: patternParts pattern.toList →
      ((∃ text, parseShellRule pattern = .wildcard text) ↔
        .star ∈ patternParts pattern.toList ∧ tryDecodeArgvPrefix pattern = none ∧
          ¬ IsPrefixRule pattern.toList)) ∧
    (backslashesPaired pattern.toList = true → '\x00' ∉ pattern.toList →
      ¬ "\\\\STAR\\".toList <:+: pattern.toList → ∀ command : String,
        (matchShellRule platform command (.wildcard pattern) = true ↔
          Fills platform.canonicalize OnOneLine (patternParts pattern.toList) command.toList)) :=
  ⟨isWildcard_iff, matchShellRule_wildcard_iff platform⟩

/-- A star does not match a line break. -/
theorem wildcard_misses_lines :
    ¬ ∀ (platform : RegExpPlatform) (pattern command : String),
      (∃ text, parseShellRule pattern = .wildcard text) →
        (matchShellRule platform command (.wildcard pattern) = true ↔
          Fills platform.canonicalize (fun _ => True) (patternParts pattern.toList)
            command.toList) := by
  intro h
  have hmatches := (h ⟨Char.toUpper, fun _ => none⟩ "echo *" "echo a\nb" ⟨"echo *", by decide⟩).2 ?_
  · exact absurd hmatches (by decide)
  · refine .literal rfl (.literal rfl (.literal rfl (.literal rfl (.literal rfl ?_))))
    exact @Fills.star _ _ ['a', '\n', 'b'] [] [] trivial .nil

theorem wildcard_says_npm :
    (∃ text, parseShellRule "npm *" = .wildcard text) ∧
      matchShellRule ⟨Char.toUpper, fun _ => none⟩ "NPM ci" (.wildcard "npm *") = true := by
  obtain ⟨hparse, hmatch⟩ := wildcard_says ⟨Char.toUpper, fun _ => none⟩ "npm *"
  refine ⟨(hparse (by decide)).2 ⟨by decide, by decide, ?_⟩,
    (hmatch (by decide) (by decide) (by decide) _).2 ?_⟩
  · rintro ⟨text, -, -, -, heq⟩
    have hcolon : ':' ∈ "npm *".toList := by
      rw [heq]
      simp
    exact absurd hcolon (by decide)
  · refine .literal rfl (.literal rfl (.literal rfl (.literal rfl ?_)))
    exact @Fills.star _ _ ['c', 'i'] [] [] (by simp [OnOneLine, isLineTerminator]) .nil

end Kinetick.Permission
