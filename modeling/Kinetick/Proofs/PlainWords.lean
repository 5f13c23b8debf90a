import Kinetick.Proofs.PlainScripts
import Kinetick.Proofs.ShellReading

/-!
# Plain scripts are those whose words the shell runs

The shell reads a piece as marks and a segment as a line. Over a plain segment the words of the
line are the words the parser finds, so a plain script runs what it parses as. The other way, what
the shell runs and what the parser finds have the same characters, which leaves no comment, no
continuation and no other character that only one of them keeps, and the same number of commands,
which leaves no line break inside a segment.
-/

namespace Kinetick.Permission

open Kinetick.Shell

/-! ### The marks of pieces -/

def DoubleChar.marks (d : DoubleChar) : List Mark :=
  if !d.escaped then [.quoted d.char]
  else if d.char = '\n' then []
  else if isDoubleQuotable d.char then [.quoted d.char]
  else [.quoted '\\', .quoted d.char]

def Piece.marks : Piece → List Mark
  | bare c => [.bare c]
  | escaped c => if c = '\n' then [] else [.quoted c]
  | single cs => .quote :: cs.map .quoted
  | double ds => .quote :: ds.flatMap DoubleChar.marks

def Segment.marks (segment : Segment) : List Mark := segment.flatMap Piece.marks

@[simp] theorem Segment.marks_cons (p : Piece) (ps : Segment) :
    Segment.marks (p :: ps) = p.marks ++ Segment.marks ps := rfl

@[simp] theorem Segment.marks_append (ps qs : Segment) :
    Segment.marks (ps ++ qs) = Segment.marks ps ++ Segment.marks qs := List.flatMap_append

theorem marks_single {cs : List Char} (h : '\'' ∉ cs) (start : Bool) (rest : List Char) :
    marks .single start (cs ++ '\'' :: rest) =
      (marks .bare false rest).map (cs.map .quoted ++ ·) := by
  induction cs generalizing start with
  | nil => simp [marks]
  | cons c cs ih =>
    rw [List.mem_cons, not_or] at h
    simp [marks, Ne.symm h.1, ih h.2, Option.map_map, Function.comp_def]

theorem marks_double {ds : List DoubleChar} (hformed : (Piece.double ds).WellFormed)
    (hallowed : (Piece.double ds).Allowed) (start : Bool) (rest : List Char) :
    marks .double start (ds.flatMap DoubleChar.text ++ '"' :: rest) =
      (marks .bare false rest).map (ds.flatMap DoubleChar.marks ++ ·) := by
  induction ds generalizing start with
  | nil => simp [marks]
  | cons d ds ih =>
    have ih := ih (fun c hc => hformed c (List.mem_cons_of_mem _ hc))
      fun c hc => hallowed c (List.mem_cons_of_mem _ hc)
    obtain ⟨_ | _, c⟩ := d
    · obtain ⟨hquote, hback⟩ := hformed c List.mem_cons_self
      obtain ⟨hdollar, htick⟩ := hallowed c List.mem_cons_self
      simp [marks, DoubleChar.text, DoubleChar.marks, hquote, hback, hdollar, htick, ih,
        Option.map_map, Function.comp_def]
    · by_cases hbreak : c = '\n'
      · simp [marks, DoubleChar.text, DoubleChar.marks, hbreak, ih]
      · cases hquotable : isDoubleQuotable c <;>
          simp [marks, DoubleChar.text, DoubleChar.marks, hbreak, hquotable, ih, Option.map_map,
            Function.comp_def]

/-- Where no comment begins, the shell reads pieces as their marks. -/
theorem marks_text {ps : Segment} (hps : AllowedPieces ps) {start : Bool}
    (hfree : Segment.commentFree start ps) : marks .bare start ps.text = some ps.marks := by
  induction ps generalizing start with
  | nil => rfl
  | cons p ps ih =>
    have htail : AllowedPieces ps := fun q hq => hps q (List.mem_cons_of_mem _ hq)
    obtain ⟨hformed, hallowed⟩ := hps p List.mem_cons_self
    cases p with
    | bare c =>
      obtain ⟨hback, hsingle, hdouble⟩ := hformed
      simp only [Segment.commentFree, Bool.and_eq_true, Bool.not_eq_eq_eq_not, Bool.not_true,
        Bool.and_eq_false_imp, decide_eq_true_eq] at hfree
      simp only [Piece.Allowed, List.mem_cons, List.not_mem_nil, or_false, not_or] at hallowed
      have hrest := ih htail hfree.2
      rw [Segment.text_cons, Piece.text, List.cons_append, List.nil_append, marks,
        if_neg hback, if_neg hsingle, if_neg hdouble, if_neg (by tauto), if_neg, hrest]
      · rfl
      · rintro ⟨rfl, hstart⟩
        simp [hfree.1 rfl] at hstart
    | escaped c =>
      have hrest := ih htail hfree
      by_cases hbreak : c = '\n'
      · subst hbreak
        simpa [Piece.text, marks, Piece.marks] using hrest
      · simp only [hbreak, decide_false, Bool.and_false] at hrest
        simp [Piece.text, marks, Piece.marks, hbreak, hrest]
    | single cs =>
      have hrest := ih htail hfree
      simp [Piece.text, marks, Piece.marks, marks_single hformed, hrest]
    | double ds =>
      have hrest := ih htail hfree
      simp [Piece.text, marks, Piece.marks, marks_double hformed hallowed, hrest]

/-! ### The line of a segment -/

/-- The tokens of pieces without operators, `word` being the word that has begun. -/
def Segment.tokens (word : Option Word) : Segment → List Token
  | [] => flush word
  | .bare c :: ps =>
    if isBlank c then flush word ++ tokens none ps
    else if c = '\n' then flush word ++ .newline :: tokens none ps
    else tokens (some (word.getD [] ++ [.bare c])) ps
  | p :: ps => tokens (some (word.getD [] ++ p.marks)) ps

/-- The segment has no line continuation and no bare operator. -/
structure Segment.Read (segment : Segment) : Prop where
  formed : AllowedPieces segment
  operatorFree : ∀ c, .bare c ∈ segment → c ≠ '&' ∧ c ≠ '|' ∧ c ≠ ';'
  noContinuation : .escaped '\n' ∉ segment ∧ ∀ cs, .double cs ∈ segment → ⟨true, '\n'⟩ ∉ cs

theorem Segment.Read.tail {p : Piece} {ps : Segment} (h : Segment.Read (p :: ps)) :
    Segment.Read ps where
  formed q hq := h.formed q (List.mem_cons_of_mem _ hq)
  operatorFree c hc := h.operatorFree c (List.mem_cons_of_mem _ hc)
  noContinuation := ⟨fun hmem => h.noContinuation.1 (List.mem_cons_of_mem _ hmem),
    fun cs hcs => h.noContinuation.2 cs (List.mem_cons_of_mem _ hcs)⟩

theorem tokens_quoted {ms : List Mark} (hms : ∀ m ∈ ms, ∀ c, m ≠ .bare c) (word : Word)
    (rest : List Mark) :
    Shell.tokens false (some word) (ms ++ rest) = Shell.tokens false (some (word ++ ms)) rest := by
  induction ms generalizing word with
  | nil => simp
  | cons m ms ih =>
    have ih := ih (fun m hm => hms m (List.mem_cons_of_mem _ hm)) (word ++ [m])
    rw [List.append_assoc, List.singleton_append] at ih
    cases m with
    | bare c => exact absurd rfl (hms _ List.mem_cons_self c)
    | quoted c => simpa [Shell.tokens] using ih
    | quote => simpa [Shell.tokens] using ih

theorem marks_not_bare {p : Piece} (hp : ∀ c, p ≠ .bare c) : ∀ m ∈ p.marks, ∀ c, m ≠ .bare c := by
  cases p with
  | bare c => exact absurd rfl (hp c)
  | escaped c =>
    simp only [Piece.marks]
    split_ifs <;> simp
  | single cs => simp [Piece.marks]
  | double ds =>
    simp only [Piece.marks, List.mem_cons, List.mem_flatMap, DoubleChar.marks]
    rintro m (rfl | ⟨d, -, hm⟩) c
    · exact nofun
    · rintro rfl
      split_ifs at hm <;> simp at hm

/-- A quoted piece begins a word or is part of the one begun. -/
theorem tokens_piece {p : Piece} (hp : ∀ c, p ≠ .bare c) (hcontinued : p ≠ .escaped '\n')
    (word : Option Word) (rest : List Mark) :
    Shell.tokens false word (p.marks ++ rest) =
      Shell.tokens false (some (word.getD [] ++ p.marks)) rest := by
  have hquoted := marks_not_bare hp
  cases hmarks : p.marks with
  | nil =>
    cases p with
    | bare c => exact absurd rfl (hp c)
    | escaped c =>
      simp only [Piece.marks] at hmarks
      split_ifs at hmarks with hbreak
      exact absurd (by rw [hbreak]) hcontinued
    | single cs => cases hmarks
    | double ds => cases hmarks
  | cons m ms =>
    rw [hmarks] at hquoted
    have hrest := tokens_quoted (fun m hm => hquoted m (List.mem_cons_of_mem _ hm))
      (word.getD [] ++ [m]) rest
    rw [List.append_assoc, List.singleton_append] at hrest
    cases m with
    | bare c => exact absurd rfl (hquoted _ List.mem_cons_self c)
    | quoted c => simpa [Shell.tokens] using hrest
    | quote => simpa [Shell.tokens] using hrest

/-- The shell reads a segment as its line, up to the operator that ends it. -/
theorem tokens_segment {segment : Segment} (h : segment.Read) {rest : List Mark}
    (hrest : ∀ m, rest.head? = some m → ∃ c, m = .bare c ∧ isOperator c) (word : Option Word) :
    Shell.tokens false word (segment.marks ++ rest) =
      segment.tokens word ++ Shell.tokens false none rest := by
  induction segment generalizing word with
  | nil =>
    rcases rest with _ | ⟨m, rest⟩
    · cases word <;> simp [Segment.marks, Segment.tokens, Shell.tokens, flush]
    · obtain ⟨c, rfl, hoperator⟩ := hrest m rfl
      have hblank : isBlank c = false := by
        revert hoperator
        simp only [isOperator, List.contains_eq_mem, List.mem_cons, List.not_mem_nil, or_false,
          decide_eq_true_eq]
        rintro (rfl | rfl | rfl | rfl | rfl | rfl | rfl) <;> rfl
      have hbreak : c ≠ '\n' := by
        rintro rfl
        exact absurd hoperator (by decide)
      simp [Segment.marks, Segment.tokens, Shell.tokens, flush, hoperator, hblank, hbreak]
  | cons p ps ih =>
    have ih := ih h.tail
    cases p with
    | bare c =>
      obtain ⟨hand, hpipe, hsemi⟩ := h.operatorFree c List.mem_cons_self
      have hallowed := (h.formed _ List.mem_cons_self).2
      simp only [Piece.Allowed, List.mem_cons, List.not_mem_nil, or_false, not_or] at hallowed
      have hoperator : isOperator c = false := by
        simp [isOperator, hand, hpipe, hsemi, hallowed]
      rw [Segment.marks_cons, Piece.marks, List.append_assoc, List.singleton_append, Shell.tokens,
        Segment.tokens]
      simp only [Bool.false_eq_true, ↓reduceIte, hoperator, ih]
      split_ifs <;> simp
    | escaped c =>
      rw [Segment.marks_cons, List.append_assoc, tokens_piece (p := .escaped c) (by simp) _ word,
        ih, Segment.tokens]
      · simp
      · rintro ⟨⟩
        exact h.noContinuation.1 List.mem_cons_self
    | single cs =>
      rw [Segment.marks_cons, List.append_assoc, tokens_piece (p := .single cs) (by simp) (by simp)
        word, ih, Segment.tokens]
      simp
    | double ds =>
      rw [Segment.marks_cons, List.append_assoc, tokens_piece (p := .double ds) (by simp) (by simp)
        word, ih, Segment.tokens]
      simp

theorem isLayout_iff {p : Piece} :
    p.isLayout ↔ ∃ c, p = .bare c ∧ (isBlank c ∨ c = '\n') := by
  cases p <;> simp [Piece.isLayout]

theorem isWhitespace_of_layout {c : Char} (h : isBlank c ∨ c = '\n') : isWhitespace c := by
  rcases h with h | rfl
  · simp only [isBlank, Bool.or_eq_true, decide_eq_true_eq] at h
    rcases h with rfl | rfl <;> rfl
  · rfl

/-- The line breaks among pieces. -/
def Segment.breaks (segment : Segment) : ℕ := segment.count (.bare '\n')

theorem tokens_layout {trail : Segment} (h : ∀ p ∈ trail, p.isLayout) (word : Option Word) :
    Segment.tokens word trail = flush word ++ List.replicate trail.breaks .newline := by
  induction trail generalizing word with
  | nil => simp [Segment.tokens, Segment.breaks]
  | cons p trail ih =>
    have ih := ih fun q hq => h q (List.mem_cons_of_mem _ hq)
    obtain ⟨c, rfl, hc⟩ := isLayout_iff.1 (h p List.mem_cons_self)
    by_cases hbreak : c = '\n'
    · subst hbreak
      simp [Segment.tokens, Segment.breaks, isBlank, ih, flush, List.replicate_succ]
    · have hblank := hc.resolve_right hbreak
      simp [Segment.tokens, Segment.breaks, hblank, ih, flush, hbreak]

theorem tokens_lead {lead : Segment} (h : ∀ p ∈ lead, p.isLayout) (ps : Segment) :
    Segment.tokens none (lead ++ ps) =
      List.replicate lead.breaks .newline ++ Segment.tokens none ps := by
  induction lead with
  | nil => simp [Segment.breaks]
  | cons p lead ih =>
    have ih := ih fun q hq => h q (List.mem_cons_of_mem _ hq)
    obtain ⟨c, rfl, hc⟩ := isLayout_iff.1 (h p List.mem_cons_self)
    by_cases hbreak : c = '\n'
    · subst hbreak
      simpa [Segment.tokens, Segment.breaks, isBlank, flush, List.replicate_succ] using ih
    · have hblank := hc.resolve_right hbreak
      simpa [Segment.tokens, Segment.breaks, hblank, flush, hbreak] using ih

theorem tokens_trail {trail : Segment} (h : ∀ p ∈ trail, p.isLayout) (ps : Segment)
    (word : Option Word) :
    Segment.tokens word (ps ++ trail) =
      Segment.tokens word ps ++ List.replicate trail.breaks .newline := by
  induction ps generalizing word with
  | nil => exact tokens_layout h word
  | cons p ps ih =>
    cases p with
    | bare c =>
      simp only [List.cons_append, Segment.tokens, ih]
      split_ifs <;> simp
    | escaped c => exact ih _
    | single cs => exact ih _
    | double ds => exact ih _

/-! ### Words -/

/-- The text of a word, if the token is one. -/
def tokenText : Token → Option String
  | .word w => some (wordText w)
  | _ => none

@[simp] theorem tokenText_word (w : Word) : tokenText (.word w) = some (wordText w) := rfl

@[simp] theorem tokenText_newline : tokenText .newline = none := rfl

/-- Pieces whose words the shell and the parser read alike. -/
structure Segment.ReadAlike (segment : Segment) : Prop where
  noContinuation : .escaped '\n' ∉ segment ∧ ∀ cs, .double cs ∈ segment → ⟨true, '\n'⟩ ∉ cs
  quotesOnly : ∀ cs, .double cs ∈ segment → ∀ c, ⟨true, c⟩ ∈ cs → isDoubleQuotable c
  noControl : ∀ c, .bare c ∈ segment → isWhitespace c → isBlank c ∨ c = '\n'

theorem Segment.ReadAlike.tail {p : Piece} {ps : Segment} (h : Segment.ReadAlike (p :: ps)) :
    Segment.ReadAlike ps where
  noContinuation := ⟨fun hmem => h.noContinuation.1 (List.mem_cons_of_mem _ hmem),
    fun cs hcs => h.noContinuation.2 cs (List.mem_cons_of_mem _ hcs)⟩
  quotesOnly cs hcs := h.quotesOnly cs (List.mem_cons_of_mem _ hcs)
  noControl c hc := h.noControl c (List.mem_cons_of_mem _ hc)

theorem double_chars {ds : List DoubleChar} (hbreak : ⟨true, '\n'⟩ ∉ ds)
    (hquotes : ∀ c, ⟨true, c⟩ ∈ ds → isDoubleQuotable c) :
    (ds.flatMap DoubleChar.marks).filterMap Mark.char = ds.map DoubleChar.char := by
  induction ds with
  | nil => rfl
  | cons d ds ih =>
    have ih := ih (fun h => hbreak (List.mem_cons_of_mem _ h))
      fun c hc => hquotes c (List.mem_cons_of_mem _ hc)
    obtain ⟨_ | _, c⟩ := d
    · simp [DoubleChar.marks, Mark.char, ih]
    · have hc : c ≠ '\n' := by
        rintro rfl
        exact hbreak List.mem_cons_self
      simp [DoubleChar.marks, Mark.char, ih, hc, hquotes c List.mem_cons_self]

/-- The words of a segment are those of its line. -/
theorem words_tokens {ps : Segment} (h : ps.ReadAlike) (words : List String) (word : Option Word) :
    flushWord (ps.foldl WordState.next
        ⟨words, (word.getD []).filterMap Mark.char, word.isSome⟩).words
      (ps.foldl WordState.next ⟨words, (word.getD []).filterMap Mark.char, word.isSome⟩).current
      (ps.foldl WordState.next ⟨words, (word.getD []).filterMap Mark.char, word.isSome⟩).hasToken =
    words ++ (Segment.tokens word ps).filterMap tokenText := by
  induction ps generalizing words word with
  | nil => cases word <;> simp [flushWord, Segment.tokens, flush, tokenText, wordText]
  | cons p ps ih =>
    have ih := ih h.tail
    cases p with
    | bare c =>
      by_cases hlayout : isBlank c ∨ c = '\n'
      · have hspace := isWhitespace_of_layout hlayout
        have hflush : words ++ (flush word).filterMap tokenText =
            flushWord words ((word.getD []).filterMap Mark.char) word.isSome := by
          cases word <;> simp [flushWord, flush, tokenText, wordText]
        have hrest := ih (flushWord words ((word.getD []).filterMap Mark.char) word.isSome) none
        rw [List.foldl_cons, WordState.next, if_pos hspace, Segment.tokens]
        refine hrest.trans ?_
        rw [← hflush]
        by_cases hblank : isBlank c
        · simp [hblank]
        · rw [if_neg hblank, if_pos (hlayout.resolve_left hblank)]
          simp [List.filterMap_cons]
      · have hspace : isWhitespace c = false := by
          by_contra hspace
          exact hlayout (h.noControl c List.mem_cons_self (by simpa using hspace))
        have hrest := ih words (some (word.getD [] ++ [.bare c]))
        rw [not_or] at hlayout
        simpa [WordState.next, hspace, Segment.tokens, hlayout, Mark.char] using hrest
    | escaped c =>
      have hc : c ≠ '\n' := by
        rintro rfl
        exact h.noContinuation.1 List.mem_cons_self
      have hrest := ih words (some (word.getD [] ++ [.quoted c]))
      simpa [WordState.next, Segment.tokens, Piece.marks, hc, Mark.char] using hrest
    | single cs =>
      have hrest := ih words (some (word.getD [] ++ (Piece.single cs).marks))
      simpa [WordState.next, Segment.tokens, Piece.marks, List.filterMap_cons, List.filterMap_map,
        Function.comp_def] using hrest
    | double ds =>
      have hrest := ih words (some (word.getD [] ++ (Piece.double ds).marks))
      have hchars := double_chars (h.noContinuation.2 ds List.mem_cons_self)
        (h.quotesOnly ds List.mem_cons_self)
      simpa [WordState.next, Segment.tokens, Piece.marks, List.filterMap_cons, hchars] using hrest

/-! ### The first word -/

/-- The first word is that of the pieces up to a blank. -/
theorem tokens_firstWord (ps : Segment) (word : Word) : ∃ ts, Segment.tokens (some word) ps =
    .word (word ++ Segment.marks (ps.takeWhile fun p => !p.isLayout)) :: ts := by
  induction ps generalizing word with
  | nil => exact ⟨[], by simp [Segment.tokens, flush, Segment.marks]⟩
  | cons p ps ih =>
    cases p with
    | bare c =>
      obtain ⟨ts, hts⟩ := ih (word ++ [.bare c])
      by_cases hblank : isBlank c
      · exact ⟨Segment.tokens none ps, by
          simp [Segment.tokens, flush, Segment.marks, hblank, Piece.isLayout]⟩
      by_cases hbreak : c = '\n'
      · exact ⟨.newline :: Segment.tokens none ps, by
          simp [Segment.tokens, flush, Segment.marks, hbreak, Piece.isLayout, isBlank]⟩
      · exact ⟨ts, by
          simpa [Segment.tokens, hblank, hbreak, Piece.isLayout, Piece.marks] using hts⟩
    | escaped c =>
      obtain ⟨ts, hts⟩ := ih (word ++ (Piece.escaped c).marks)
      exact ⟨ts, by simpa [Segment.tokens, Piece.isLayout] using hts⟩
    | single cs =>
      obtain ⟨ts, hts⟩ := ih (word ++ (Piece.single cs).marks)
      exact ⟨ts, by simpa [Segment.tokens, Piece.isLayout] using hts⟩
    | double ds =>
      obtain ⟨ts, hts⟩ := ih (word ++ (Piece.double ds).marks)
      exact ⟨ts, by simpa [Segment.tokens, Piece.isLayout] using hts⟩

theorem tokens_cons {p : Piece} (hp : p.isLayout = false) (ps : Segment) (word : Option Word) :
    Segment.tokens word (p :: ps) = Segment.tokens (some (word.getD [] ++ p.marks)) ps := by
  cases p with
  | bare c =>
    simp only [Piece.isLayout, Bool.or_eq_false_iff, decide_eq_false_iff_not] at hp
    simp [Segment.tokens, hp, Piece.marks]
  | escaped c => rfl
  | single cs => rfl
  | double ds => rfl

theorem firstWord_tokens {ps : Segment} (hne : ps ≠ [])
    (hhead : ∀ p, ps.head? = some p → p.isLayout = false) : ∃ ts, Segment.tokens none ps =
      .word (Segment.marks (ps.takeWhile fun p => !p.isLayout)) :: ts := by
  cases ps with
  | nil => exact absurd rfl hne
  | cons p ps =>
    have hp := hhead p rfl
    obtain ⟨ts, hts⟩ := tokens_firstWord ps p.marks
    exact ⟨ts, by simpa [tokens_cons hp, hp] using hts⟩

/-- Only unquoted pieces make an unquoted word. -/
theorem eq_bare_of_marks {ps : Segment} (hcontinued : .escaped '\n' ∉ ps) {cs : List Char}
    (h : ps.marks = cs.map .bare) : ps = cs.map .bare := by
  induction ps generalizing cs with
  | nil =>
    cases cs with
    | nil => rfl
    | cons c cs => cases h
  | cons p ps ih =>
    rw [List.mem_cons, not_or] at hcontinued
    cases p with
    | bare c =>
      cases cs with
      | nil => cases h
      | cons d cs =>
        simp only [Segment.marks_cons, Piece.marks, List.cons_append, List.nil_append,
          List.map_cons, List.cons.injEq, Mark.bare.injEq] at h
        rw [ih hcontinued.2 h.2, h.1, List.map_cons]
    | escaped c =>
      have hc : c ≠ '\n' := by
        rintro rfl
        exact hcontinued.1 rfl
      cases cs <;> simp [Piece.marks, hc] at h
    | single qs => cases cs <;> simp [Piece.marks] at h
    | double ds => cases cs <;> simp [Piece.marks] at h

theorem isReserved_firstWord {segment : Segment} (hcontinued : .escaped '\n' ∉ segment.firstWord) :
    isReserved segment.firstWord.marks ↔
      ∃ r ∈ reservedWords, segment.firstWord = r.toList.map .bare := by
  simp only [isReserved, List.any_eq_true, decide_eq_true_eq]
  refine exists_congr fun r => and_congr_right fun _ => ⟨eq_bare_of_marks hcontinued, fun h => ?_⟩
  rw [h, Segment.marks, List.flatMap_map]
  exact List.map_eq_flatMap.symm

theorem dropWhile_chars {w : Word} {q : Char → Bool} {c : Char} (hc : q c = false)
    (h : (w.dropWhile (Mark.isBare q)).head? = some (.bare c)) :
    ((w.filterMap Mark.char).dropWhile q).head? = some c := by
  induction w with
  | nil => cases h
  | cons m w ih =>
    cases hm : Mark.isBare q m with
    | true =>
      rw [List.dropWhile_cons_of_pos hm] at h
      cases m with
      | bare d => simpa [List.filterMap_cons, show q d = true from hm] using ih h
      | quoted d => cases hm
      | quote => cases hm
    | false =>
      rw [List.dropWhile_cons_of_neg (by simp [hm])] at h
      obtain rfl : m = .bare c := by simpa using h
      simp [hc]

/-- What the shell takes for an assignment the parser does. -/
theorem isAssignmentPrefix_of_isAssignment {w : Word} (h : isAssignment w) :
    isAssignmentPrefix (wordText w) := by
  simp only [isAssignment, Bool.and_eq_true, decide_eq_true_eq] at h
  obtain ⟨hhead, hequals⟩ := h
  have hdrop := dropWhile_chars (by decide) hequals
  rcases w with _ | ⟨_ | _ | _, w⟩
  · cases hhead
  · simp only [isAssignmentPrefix, wordText, String.toList_ofList, Bool.and_eq_true,
      decide_eq_true_eq]
    exact ⟨hhead, hdrop⟩
  · cases hhead
  · cases hhead

/-! ### The line of a plain segment -/

theorem isSpace_of_isLayout {p : Piece} (h : p.isLayout) : p.isSpace := by
  obtain ⟨c, rfl, hc⟩ := isLayout_iff.1 h
  rcases hc with hc | rfl
  · simp only [isBlank, Bool.or_eq_true, decide_eq_true_eq] at hc
    rcases hc with rfl | rfl <;> rfl
  · rfl

theorem mem_strip {α : Type} {q : α → Bool} {l : List α} {a : α} (h : a ∈ strip q l) : a ∈ l := by
  obtain ⟨lead, trail, heq, -⟩ := exists_strip q l
  rw [heq]
  exact List.mem_append_right _ (List.mem_append_left _ h)

theorem Segment.ReadAlike.mono {ps qs : Segment} (h : qs.ReadAlike) (hsub : ∀ p ∈ ps, p ∈ qs) :
    ps.ReadAlike where
  noContinuation := ⟨fun hmem => h.noContinuation.1 (hsub _ hmem),
    fun cs hcs => h.noContinuation.2 cs (hsub _ hcs)⟩
  quotesOnly cs hcs := h.quotesOnly cs (hsub _ hcs)
  noControl c hc := h.noControl c (hsub _ hc)

/-- Without line breaks there are only words. -/
theorem exists_words {ps : Segment} (h : .bare '\n' ∉ ps) (word : Option Word) :
    ∃ ws, Segment.tokens word ps = List.map Token.word ws := by
  induction ps generalizing word with
  | nil => exact ⟨word.toList, by cases word <;> rfl⟩
  | cons p ps ih =>
    rw [List.mem_cons, not_or] at h
    cases p with
    | bare c =>
      have hbreak : c ≠ '\n' := by
        rintro rfl
        exact h.1 rfl
      by_cases hblank : isBlank c
      · obtain ⟨ws, hws⟩ := ih h.2 none
        exact ⟨word.toList ++ ws, by cases word <;> simp [Segment.tokens, hblank, hws, flush]⟩
      · obtain ⟨ws, hws⟩ := ih h.2 (some (word.getD [] ++ [.bare c]))
        exact ⟨ws, by simpa [Segment.tokens, hblank, hbreak] using hws⟩
    | escaped c => exact ih h.2 _
    | single cs => exact ih h.2 _
    | double ds => exact ih h.2 _

theorem text_of_words (ws : List Word) :
    (ws.map Token.word).filterMap tokenText = ws.map wordText := by
  simp [List.filterMap_map, Function.comp_def]

section PlainLine

variable {last : Bool} {segment : Segment}

theorem PlainSegment.read (h : PlainSegment last segment) : segment.Read :=
  ⟨h.allowed, h.operatorFree, h.noContinuation⟩

theorem PlainSegment.readAlike (h : PlainSegment last segment) : segment.ReadAlike :=
  ⟨h.noContinuation, h.quotesOnly, h.noControl⟩

/-- What is trimmed of a plain segment are the blanks and line breaks at its ends. -/
theorem PlainSegment.trimmed_eq (h : PlainSegment last segment) :
    segment.trimmed = segment.core := by
  have hspace (p : Piece)
      (hp : segment.core.head? = some p ∨ segment.core.getLast? = some p) : p.isSpace = false := by
    cases p with
    | bare c => exact h.noTrimmed c hp
    | escaped c => rfl
    | single cs => rfl
    | double ds => rfl
  obtain ⟨lead, trail, heq, -, hlead, htrail, -, -⟩ := exists_strip Piece.isLayout segment
  refine (congrArg (strip Piece.isSpace) heq).trans (strip_eq
    (fun p hp => isSpace_of_isLayout (hlead p hp)) (fun p hp => isSpace_of_isLayout (htrail p hp))
    h.nonempty (fun p hp => hspace p (Or.inl hp)) fun p hp => hspace p (Or.inr hp))

/-- The line of a plain segment is its words, between line breaks. -/
theorem PlainSegment.line (h : PlainSegment last segment) : ∃ n ws m,
    segment.tokens none = Shell.line n ws ++ List.replicate m .newline ∧
      (last = false → m = 0) ∧ ws.map wordText = segment.trimmed.words ∧
      ws.head? = some segment.firstWord.marks := by
  obtain ⟨lead, trail, heq, hdrop, hlead, htrail, hhead, -⟩ :=
    exists_strip Piece.isLayout segment
  have hbreak : .bare '\n' ∉ segment.core ∧ (last = false → .bare '\n' ∉ trail) := by
    have hone := h.oneLine
    cases last with
    | true => exact ⟨hone, nofun⟩
    | false =>
      rw [if_neg Bool.false_ne_true, hdrop, List.mem_append, not_or] at hone
      exact ⟨hone.1, fun _ => hone.2⟩
  obtain ⟨ws, hws⟩ := exists_words hbreak.1 none
  refine ⟨Segment.breaks lead, ws, Segment.breaks trail, ?_, fun hlast => ?_, ?_, ?_⟩
  · conv_lhs => rw [heq]
    rw [tokens_lead hlead, tokens_trail htrail, Shell.line, List.append_assoc, ← hws]
    rfl
  · exact List.count_eq_zero_of_not_mem (hbreak.2 hlast)
  · rw [h.trimmed_eq]
    have hwords := @words_tokens segment.core (h.readAlike.mono fun p hp => mem_strip hp) [] none
    rw [hws, text_of_words] at hwords
    exact hwords.symm
  · obtain ⟨ts, hts⟩ := firstWord_tokens h.nonempty hhead
    rw [hws] at hts
    cases ws with
    | nil => cases hts
    | cons w ws =>
      rw [List.map_cons, List.cons.injEq, Token.word.injEq] at hts
      rw [List.head?_cons, hts.1]
      rfl

end PlainLine

/-! ### A plain script is what it parses as -/

theorem trim_ne_nil {segment : Segment} (h : segment.trimmed ≠ []) : trim segment.text ≠ [] := by
  unfold trim strip
  rw [dropWhile_text]
  rcases trimEnd_text (segment.dropWhile Piece.isSpace) with htext | ⟨qs, -, htext⟩
  · rw [htext]
    change segment.trimmed.text ≠ []
    rcases hs : segment.trimmed with _ | ⟨_ | _ | _ | _, ps⟩
    · exact absurd hs h
    all_goals simp [Piece.text]
  · rw [htext]
    simp

/-- Up to an operator the second pass keeps the text of a segment. -/
theorem split_segment {segment : Segment} (h : segment.Read) {acc : List (List Char)}
    {current rest : List Char} :
    splitTopLevelSegments .closed false acc current (segment.text ++ rest) =
      splitTopLevelSegments .closed false acc (current ++ segment.text) rest := by
  induction segment generalizing current with
  | nil => simp
  | cons p ps ih =>
    have hp := (h.formed p List.mem_cons_self).1
    have ih := @ih h.tail (current ++ p.text)
    rw [List.append_assoc] at ih
    rw [Segment.text_cons, List.append_assoc, ← ih]
    cases p with
    | bare c =>
      obtain ⟨hand, hpipe, hsemi⟩ := h.operatorFree c List.mem_cons_self
      exact split_bare hp (by simp [hand]) hpipe hsemi
    | escaped c => exact split_piece hp nofun
    | single cs => exact split_piece hp nofun
    | double ds => exact split_piece hp nofun

theorem split_operator {operator : List Char} (h : operator ∈ operators) {acc : List (List Char)}
    {current rest : List Char} (hcurrent : trim current ≠ []) (hrest : rest.head? ≠ some '|') :
    splitTopLevelSegments .closed false acc current (operator ++ rest) =
      splitTopLevelSegments .closed false (acc ++ [current]) [] rest := by
  simp only [operators, List.mem_cons, List.not_mem_nil, or_false] at h
  rcases h with rfl | rfl | rfl | rfl <;> simp [splitTopLevelSegments, hcurrent, hrest]

theorem tokens_operator {operator : List Char} (h : operator ∈ operators) {ms : List Mark}
    (hms : ms.head? ≠ some (.bare '|') ∧ ms.head? ≠ some (.bare ';')) :
    ∃ sep : Token, sep.EndsCommand ∧
      Shell.tokens false none (operator.map .bare ++ ms) = sep :: Shell.tokens false none ms := by
  simp only [operators, List.mem_cons, List.not_mem_nil, or_false] at h
  rcases h with rfl | rfl | rfl | rfl
  · exact ⟨.connective, trivial, by simp [Shell.tokens, isBlank, isOperator, Shell.operator, flush]⟩
  · exact ⟨.connective, trivial, by simp [Shell.tokens, isBlank, isOperator, Shell.operator, flush]⟩
  · exact ⟨.connective, trivial, by
      simp [Shell.tokens, isBlank, isOperator, Shell.operator, flush, hms.1]⟩
  · exact ⟨.separator, trivial, by
      simp [Shell.tokens, isBlank, isOperator, Shell.operator, flush, hms.2]⟩

/-- A comment begins in a segment or after the operator that ends it. -/
theorem commentFree_append {c : Char} (hc : isOperator c) (ps qs : Segment) (start : Bool) :
    Segment.commentFree start (ps ++ .bare c :: qs) =
      (Segment.commentFree start ps && Segment.commentFree true qs) := by
  induction ps generalizing start with
  | nil =>
    have hhash : c ≠ '#' := by
      rintro rfl
      exact absurd hc (by decide)
    simp [Segment.commentFree, hhash, endsWord, hc]
  | cons p ps ih => cases p <;> simp [Segment.commentFree, ih, Bool.and_assoc]

/-- The words of a segment are arguments: the first is no assignment. -/
def Segment.IsCommand (segment : Segment) : Prop :=
  ∃ word rest, segment.trimmed.words = word :: rest ∧ isAssignmentPrefix word = false

/-- How the parser and the shell read the text of pieces cut into segments. -/
structure Reading (ps : Segment) (segments : List Segment) : Prop where
  allowed : AllowedPieces ps
  commentFree : Segment.commentFree true ps
  /-- It begins with neither an operator nor a line continuation. -/
  begins : ∃ p qs, ps = p :: qs ∧ (∀ c, p = .bare c → c ≠ '|' ∧ c ≠ ';') ∧ p ≠ .escaped '\n'
  split : ∀ acc, splitTopLevelSegments .closed false acc [] ps.text =
    some (acc ++ segments.map Segment.text)
  plain : ∀ segment ∈ segments, ∃ last, PlainSegment last segment
  commands : (∀ segment ∈ segments, segment.IsCommand) → ∃ cs, (∀ required,
    commands [] required (Shell.tokens false none ps.marks) = some cs) ∧
      cs.map (List.map wordText) = segments.map fun segment => segment.trimmed.words

theorem PlainSegment.begins {last : Bool} {segment : Segment} (h : PlainSegment last segment) :
    ∃ p qs, segment = p :: qs ∧ (∀ c, p = .bare c → c ≠ '|' ∧ c ≠ ';') ∧ p ≠ .escaped '\n' := by
  rcases segment with _ | ⟨p, qs⟩
  · exact absurd rfl h.nonempty
  · refine ⟨p, qs, rfl, ?_, ?_⟩
    · rintro c rfl
      exact (h.operatorFree c List.mem_cons_self).2
    · rintro rfl
      exact h.noContinuation.1 List.mem_cons_self

/-- The command of a plain segment, if its first word is no assignment. -/
theorem PlainSegment.arguments {last : Bool} {segment : Segment} (h : PlainSegment last segment)
    (hcommand : segment.IsCommand) : ∃ n ws m,
      segment.tokens none = Shell.line n ws ++ List.replicate m .newline ∧
      (last = false → m = 0) ∧ ws ≠ [] ∧ Shell.arguments ws = some ws ∧
      ws.map wordText = segment.trimmed.words := by
  obtain ⟨n, ws, m, htokens, hm, hwords, hhead⟩ := h.line
  obtain ⟨word, rest, hcommand, hassign⟩ := hcommand
  rw [hcommand] at hwords
  have hcontinued : .escaped '\n' ∉ segment.firstWord := fun hmem =>
    h.noContinuation.1 (mem_strip ((List.takeWhile_sublist _).subset hmem))
  have hreserved : isReserved segment.firstWord.marks = false := by
    by_contra hnot
    obtain ⟨r, hr, hfirst⟩ := (isReserved_firstWord hcontinued).1 (by simpa using hnot)
    exact h.noReserved r hr hfirst
  cases ws with
  | nil => cases hhead
  | cons w ws =>
    obtain rfl := Option.some.inj hhead
    have hassignment : isAssignment segment.firstWord.marks = false := by
      by_contra hnot
      have hassigned := isAssignmentPrefix_of_isAssignment (by simpa using hnot)
      rw [(List.cons.inj hwords).1, hassign] at hassigned
      cases hassigned
    refine ⟨n, _, m, htokens, hm, List.cons_ne_nil _ _, ?_, hwords.trans hcommand.symm⟩
    simp [Shell.arguments, hreserved, hassignment]

theorem Reading.last {segment : Segment} (h : PlainSegment true segment) :
    Reading segment [segment] where
  allowed := h.allowed
  commentFree := h.noComment
  begins := h.begins
  split acc := by
    have hsplit := @split_segment segment h.read acc [] []
    have htrim := trim_ne_nil (h.trimmed_eq ▸ h.nonempty)
    rw [List.append_nil, List.nil_append] at hsplit
    rw [hsplit, splitTopLevelSegments, if_neg htrim]
    rfl
  plain := by
    rintro s (_ | ⟨_, ⟨⟩⟩)
    exact ⟨true, h⟩
  commands hcommand := by
    obtain ⟨n, ws, m, htokens, -, hne, harguments, hwords⟩ :=
      h.arguments (hcommand segment List.mem_cons_self)
    have hline := @tokens_segment segment h.read [] (by simp) none
    rw [List.append_nil] at hline
    refine ⟨[ws], fun required => ?_, by simp [hwords]⟩
    rw [hline, htokens]
    simpa [Shell.tokens, flush] using commands_lastLine hne harguments n m

theorem exists_operator {operator : List Char} (h : operator ∈ operators) :
    ∃ c cs, isOperator c ∧ operator = c :: cs := by
  simp only [operators, List.mem_cons, List.not_mem_nil, or_false] at h
  rcases h with rfl | rfl | rfl | rfl <;> exact ⟨_, _, rfl, rfl⟩

theorem operator_allowed {operator : List Char} (h : operator ∈ operators) {c : Char}
    (hc : c ∈ operator) : (Piece.bare c).WellFormed ∧ (Piece.bare c).Allowed := by
  simp only [operators, List.mem_cons, List.not_mem_nil, or_false] at h
  have hcases : c = '&' ∨ c = '|' ∨ c = ';' := by
    rcases h with rfl | rfl | rfl | rfl <;> simp_all
  rcases hcases with rfl | rfl | rfl <;> simp [Piece.WellFormed, Piece.Allowed]

theorem text_operator (operator : List Char) :
    Segment.text (operator.map .bare) = operator := by
  simp [Segment.text, List.flatMap_map, Piece.text]

theorem marks_operator (operator : List Char) :
    Segment.marks (operator.map .bare) = operator.map .bare := by
  rw [Segment.marks, List.flatMap_map]
  exact List.map_eq_flatMap.symm

theorem head_operator {operator : List Char} (h : operator ∈ operators) {ms : List Mark} :
    ∀ m, (operator.map Mark.bare ++ ms).head? = some m → ∃ c, m = .bare c ∧ isOperator c := by
  obtain ⟨c, cs, hc, rfl⟩ := exists_operator h
  intro m hm
  exact ⟨c, (Option.some.inj hm).symm, hc⟩

theorem Reading.head {ps : Segment} {segments : List Segment} (h : Reading ps segments) :
    ps.text.head? ≠ some '|' := by
  obtain ⟨p, qs, rfl, hbare, -⟩ := h.begins
  intro hhead
  obtain ⟨rest, hrest⟩ := exists_bare_of_head hhead (by decide)
  exact (hbare '|' (List.cons.inj hrest).1).1 rfl

theorem Reading.marks_head {ps : Segment} {segments : List Segment} (h : Reading ps segments) :
    ps.marks.head? ≠ some (.bare '|') ∧ ps.marks.head? ≠ some (.bare ';') := by
  obtain ⟨p, qs, rfl, hbare, hcontinued⟩ := h.begins
  cases p with
  | bare c => simpa [Piece.marks] using hbare c rfl
  | escaped c =>
    have hc : c ≠ '\n' := by
      rintro rfl
      exact hcontinued rfl
    simp [Piece.marks, hc]
  | single cs => simp [Piece.marks]
  | double ds => simp [Piece.marks]

theorem Reading.cons {segment ps : Segment} {operator : List Char} {segments : List Segment}
    (h : PlainSegment false segment) (hoperator : operator ∈ operators)
    (hrest : Reading ps segments) :
    Reading (segment ++ (operator.map .bare ++ ps)) (segment :: segments) where
  allowed p hp := by
    rcases List.mem_append.1 hp with hp | hp
    · exact h.allowed p hp
    rcases List.mem_append.1 hp with hp | hp
    · obtain ⟨c, hc, rfl⟩ := List.mem_map.1 hp
      exact operator_allowed hoperator hc
    · exact hrest.allowed p hp
  commentFree := by
    have hfree : ∀ c cs, operator = c :: cs →
        Segment.commentFree true (cs.map Piece.bare ++ ps) = true := by
      simp only [operators, List.mem_cons, List.not_mem_nil, or_false] at hoperator
      rintro c cs rfl
      rcases hoperator with h | h | h | h <;> cases h <;>
        simp [Segment.commentFree, hrest.commentFree, endsWord, isOperator]
    obtain ⟨c, cs, hc, rfl⟩ := exists_operator hoperator
    rw [List.map_cons, List.cons_append, commentFree_append hc, h.noComment, hfree c cs rfl]
    rfl
  begins := by
    obtain ⟨p, qs, rfl, hp⟩ := h.begins
    exact ⟨p, _, rfl, hp⟩
  split acc := by
    have htrim := trim_ne_nil (h.trimmed_eq ▸ h.nonempty)
    rw [Segment.text_append, Segment.text_append, split_segment h.read, List.nil_append,
      text_operator, split_operator hoperator htrim hrest.head, hrest.split]
    simp
  plain := by
    rintro s (_ | ⟨_, hs⟩)
    · exact ⟨false, h⟩
    · exact hrest.plain s hs
  commands hcommand := by
    obtain ⟨n, ws, m, htokens, hm, hne, harguments, hwords⟩ :=
      h.arguments (hcommand segment List.mem_cons_self)
    obtain ⟨cs, hcs, htexts⟩ := hrest.commands fun s hs => hcommand s (List.mem_cons_of_mem _ hs)
    obtain ⟨sep, hsep, hoperated⟩ := tokens_operator hoperator hrest.marks_head
    obtain rfl := hm rfl
    refine ⟨ws :: cs, fun required => ?_, by simp [hwords, htexts]⟩
    rw [Segment.marks_append, Segment.marks_append, marks_operator,
      tokens_segment h.read (head_operator hoperator), hoperated, htokens]
    simpa using commands_line hsep hne harguments hcs n

theorem exists_reading {script : List Char} (h : Plain script) :
    ∃ ps segments, script = Segment.text ps ∧ Reading ps segments := by
  induction h with
  | @last segment plain => exact ⟨segment, [segment], rfl, .last plain⟩
  | @cons segment operator rest plain mem tail ih =>
    obtain ⟨ps, segments, rfl, hreading⟩ := ih
    refine ⟨_, _, ?_, hreading.cons plain mem⟩
    rw [Segment.text_append, Segment.text_append, text_operator]

theorem scriptCommands_of_plain {script : String} {commands : List (List String)}
    (hparse : parseScriptPlainCommands script = some commands) (hplain : Plain script.toList) :
    scriptCommands script = some commands := by
  obtain ⟨ps, segments, htext, hreading⟩ := exists_reading hplain
  unfold parseScriptPlainCommands at hparse
  split_ifs at hparse
  rw [htext, hreading.split] at hparse
  dsimp only at hparse
  split_ifs at hparse
  obtain ⟨rfl, hcommands⟩ := mapM_words (fun segment hs p hp => by
    obtain ⟨last, hsegment⟩ := hreading.plain segment hs
    exact (hsegment.allowed p hp).1) hparse
  obtain ⟨cs, hcs, htexts⟩ := hreading.commands hcommands
  unfold scriptCommands
  rw [htext, marks_text hreading.allowed hreading.commentFree, ← htexts]
  simp [hcs]

end Kinetick.Permission
