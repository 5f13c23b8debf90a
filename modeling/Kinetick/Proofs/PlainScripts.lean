import Kinetick.Permission.SafeCommand
import Mathlib.Data.List.Induction
import Mathlib.Data.List.TakeWhile

/-!
# The passes over a script, piece by piece

A script the first pass lets through is the text of pieces (`exists_pieces`). The other passes go
over a piece in one step each, so the segments are texts of pieces (`exists_segments`), what is
trimmed of one is pieces at its ends (`trim_text`), and its words are those of its pieces
(`parsePlainCommandWords_text`).
-/

namespace Kinetick.Permission

open Kinetick.Shell (Mark isBlank endsWord isDoubleQuotable reservedWords scriptCommands)

@[simp] theorem Segment.text_nil : Segment.text [] = [] := rfl

@[simp] theorem Segment.text_cons (p : Piece) (ps : Segment) :
    Segment.text (p :: ps) = p.text ++ Segment.text ps := rfl

@[simp] theorem Segment.text_append (ps qs : Segment) :
    Segment.text (ps ++ qs) = Segment.text ps ++ Segment.text qs := List.flatMap_append

/-! ### What the first pass lets through -/

theorem AllowedPieces.cons {p : Piece} {ps : Segment} (hp : p.WellFormed ∧ p.Allowed)
    (h : AllowedPieces ps) : AllowedPieces (p :: ps) := by
  rintro q (_ | ⟨_, hq⟩)
  · exact hp
  · exact h q hq

theorem AllowedPieces.double_cons {d : DoubleChar} {ds : List DoubleChar} {ps : Segment}
    (hd : d.escaped = false → d.char ∉ ['"', '\\', '$', '\x60'])
    (h : AllowedPieces (.double ds :: ps)) : AllowedPieces (.double (d :: ds) :: ps) := by
  obtain ⟨hformed, hallowed⟩ := h _ List.mem_cons_self
  refine .cons ⟨?_, ?_⟩ fun p hp => h p (List.mem_cons_of_mem _ hp)
  · rintro c (_ | ⟨_, hc⟩)
    · have := hd rfl
      simp only [List.mem_cons, List.not_mem_nil, or_false, not_or] at this
      exact ⟨this.1, this.2.1⟩
    · exact hformed c hc
  · rintro c (_ | ⟨_, hc⟩)
    · have := hd rfl
      simp only [List.mem_cons, List.not_mem_nil, or_false, not_or] at this
      exact this.2.2
    · exact hallowed c hc

/-- The rest of a script the first pass lets through, by what is open there. -/
structure PiecesFrom (cs : List Char) : Prop where
  closed : ∀ b, containsForbiddenConstruct .closed b cs = false →
    ∃ ps, AllowedPieces ps ∧ cs = ps.text
  escaped : ∀ b, containsForbiddenConstruct { escaped := true } b cs = false →
    ∃ c ps, AllowedPieces ps ∧ cs = c :: ps.text
  single : ∀ b, containsForbiddenConstruct { inSingle := true } b cs = false →
    ∃ qs, ∃ ps : Segment, AllowedPieces ps ∧ '\'' ∉ qs ∧ cs = qs ++ '\'' :: ps.text
  double : ∀ b, containsForbiddenConstruct { inDouble := true } b cs = false →
    ∃ ds, ∃ ps : Segment, AllowedPieces (.double ds :: ps) ∧
      cs = ds.flatMap DoubleChar.text ++ '"' :: ps.text
  doubleEscaped : ∀ b,
    containsForbiddenConstruct { inDouble := true, escaped := true } b cs = false →
    ∃ c ds, ∃ ps : Segment, AllowedPieces (.double ds :: ps) ∧
      cs = c :: (ds.flatMap DoubleChar.text ++ '"' :: ps.text)

theorem piecesFrom (cs : List Char) : PiecesFrom cs := by
  induction cs with
  | nil =>
    exact ⟨fun _ _ => ⟨[], nofun, rfl⟩, nofun, nofun, nofun, nofun⟩
  | cons ch rest ih =>
    refine ⟨fun b h => ?_, fun b h => ?_, fun b h => ?_, fun b h => ?_, fun b h => ?_⟩
    · unfold containsForbiddenConstruct at h
      by_cases hback : ch = '\\'
      · subst hback
        obtain ⟨c, ps, hps, rfl⟩ := ih.escaped _ h
        exact ⟨.escaped c :: ps, hps.cons ⟨trivial, trivial⟩, rfl⟩
      by_cases hsingle : ch = '\''
      · subst hsingle
        obtain ⟨qs, ps, hps, hqs, rfl⟩ := ih.single _ h
        exact ⟨.single qs :: ps, hps.cons ⟨hqs, trivial⟩, by simp [Piece.text]⟩
      by_cases hdouble : ch = '"'
      · subst hdouble
        obtain ⟨ds, ps, hps, rfl⟩ := ih.double _ h
        exact ⟨.double ds :: ps, hps, by simp [Piece.text]⟩
      simp [hback, hsingle, hdouble] at h
      obtain ⟨hdollar, htick, hredirect, hgroup, -, h⟩ := h
      obtain ⟨ps, hps, rfl⟩ := ih.closed _ h
      refine ⟨.bare ch :: ps, hps.cons ⟨⟨hback, hsingle, hdouble⟩, ?_⟩, rfl⟩
      simp only [Piece.Allowed, List.mem_cons, List.not_mem_nil, or_false]
      tauto
    · obtain ⟨ps, hps, rfl⟩ := ih.closed _ h
      exact ⟨ch, ps, hps, rfl⟩
    · unfold containsForbiddenConstruct at h
      by_cases hquote : ch = '\''
      · subst hquote
        obtain ⟨ps, hps, rfl⟩ := ih.closed _ h
        exact ⟨[], ps, hps, by simp, rfl⟩
      · simp [hquote] at h
        obtain ⟨qs, ps, hps, hqs, rfl⟩ := ih.single _ h
        exact ⟨ch :: qs, ps, hps, by simp [hqs, Ne.symm hquote], rfl⟩
    · unfold containsForbiddenConstruct at h
      by_cases hback : ch = '\\'
      · subst hback
        obtain ⟨c, ds, ps, hps, rfl⟩ := ih.doubleEscaped _ h
        exact ⟨⟨true, c⟩ :: ds, ps, hps.double_cons nofun, by simp [DoubleChar.text]⟩
      by_cases hdouble : ch = '"'
      · subst hdouble
        obtain ⟨ps, hps, rfl⟩ := ih.closed _ h
        exact ⟨[], ps, hps.cons ⟨by simp [Piece.WellFormed], by simp [Piece.Allowed]⟩, rfl⟩
      simp [hback, hdouble] at h
      obtain ⟨hdollar, htick, h⟩ := h
      obtain ⟨ds, ps, hps, rfl⟩ := ih.double _ h
      refine ⟨⟨false, ch⟩ :: ds, ps, hps.double_cons fun _ => ?_, by simp [DoubleChar.text]⟩
      simp only [List.mem_cons, List.not_mem_nil, or_false]
      tauto
    · obtain ⟨ds, ps, hps, rfl⟩ := ih.double _ h
      exact ⟨ch, ds, ps, hps, rfl⟩

/-! ### The segments -/

section Split

variable {segments : List (List Char)} {current rest : List Char}

theorem split_single {cs : List Char} (h : '\'' ∉ cs) :
    splitTopLevelSegments { inSingle := true } false segments current (cs ++ '\'' :: rest) =
      splitTopLevelSegments .closed false segments (current ++ (cs ++ ['\''])) rest := by
  induction cs generalizing current with
  | nil => simp [splitTopLevelSegments]
  | cons c cs ih =>
    rw [List.mem_cons, not_or] at h
    simp [splitTopLevelSegments, Ne.symm h.1, ih h.2]

theorem split_double {ds : List DoubleChar} (h : (Piece.double ds).WellFormed) :
    splitTopLevelSegments { inDouble := true } false segments current
        (ds.flatMap DoubleChar.text ++ '"' :: rest) =
      splitTopLevelSegments .closed false segments
        (current ++ (ds.flatMap DoubleChar.text ++ ['"'])) rest := by
  induction ds generalizing current with
  | nil => simp [splitTopLevelSegments]
  | cons d ds ih =>
    have htail : (Piece.double ds).WellFormed := fun c hc => h c (List.mem_cons_of_mem _ hc)
    obtain ⟨_ | _, c⟩ := d
    · obtain ⟨hquote, hback⟩ := h c List.mem_cons_self
      simp [splitTopLevelSegments, DoubleChar.text, hquote, hback, ih htail]
    · simp [splitTopLevelSegments, DoubleChar.text, ih htail]

/-- Within a segment the second pass keeps the text of a piece as it is. -/
theorem split_piece {p : Piece} (h : p.WellFormed) (hbare : ∀ c, p ≠ .bare c) :
    splitTopLevelSegments .closed false segments current (p.text ++ rest) =
      splitTopLevelSegments .closed false segments (current ++ p.text) rest := by
  cases p with
  | bare c => exact absurd rfl (hbare c)
  | escaped c => simp [splitTopLevelSegments, Piece.text]
  | single cs =>
    have hrest := @split_single segments (current ++ ['\'']) rest cs h
    simp only [Piece.text, List.cons_append, List.append_assoc, List.nil_append] at hrest ⊢
    rw [← hrest]
    simp [splitTopLevelSegments]
  | double ds =>
    have hrest := @split_double segments (current ++ ['"']) rest ds h
    simp only [Piece.text, List.cons_append, List.append_assoc, List.nil_append] at hrest ⊢
    rw [← hrest]
    simp [splitTopLevelSegments]

theorem split_bare {c : Char} (h : (Piece.bare c).WellFormed)
    (hand : ¬(c = '&' ∧ rest.head? = some '&')) (hpipe : c ≠ '|') (hsemi : c ≠ ';') :
    splitTopLevelSegments .closed false segments current (c :: rest) =
      splitTopLevelSegments .closed false segments (current ++ [c]) rest := by
  obtain ⟨hback, hsingle, hdouble⟩ := h
  rw [splitTopLevelSegments]
  simp [hback, hsingle, hdouble, hpipe, hsemi, hand]

end Split

/-- How the operators cut pieces into segments. -/
inductive Cut : Segment → List Segment → Prop
  | last (segment : Segment) : Cut segment [segment]
  | cons (segment : Segment) {operator : List Char} {ps : Segment} {segments : List Segment}
      (mem : operator ∈ operators) (tail : Cut ps segments) :
      Cut (segment ++ (operator.map .bare ++ ps)) (segment :: segments)

/-- A segment the second pass makes: it is not blank, and no operator is in it but an ampersand. -/
def Segment.IsCut (segment : Segment) : Prop :=
  trim segment.text ≠ [] ∧ ∀ c, .bare c ∈ segment → c ≠ '|' ∧ c ≠ ';'

/-- What begins with a character that opens no quotation begins with the character itself. -/
theorem exists_bare_of_head {ps : Segment} {c : Char} (h : ps.text.head? = some c)
    (hc : c ≠ '\\' ∧ c ≠ '\'' ∧ c ≠ '"') : ∃ qs, ps = .bare c :: qs := by
  rcases ps with _ | ⟨_ | _ | _ | _, ps⟩ <;> simp [Piece.text] at h
  · exact ⟨ps, by rw [h]⟩
  · exact absurd h.symm hc.1
  · exact absurd h.symm hc.2.1
  · exact absurd h.symm hc.2.2

/-- The second pass cuts pieces into the texts of segments. -/
theorem exists_segments {ps : Segment} (hps : ∀ p ∈ ps, p.WellFormed) {current : Segment}
    (hcurrent : ∀ c, .bare c ∈ current → c ≠ '|' ∧ c ≠ ';') {segments out : List (List Char)}
    (h : splitTopLevelSegments .closed false segments current.text ps.text = some out)
    (hout : out ≠ []) :
    ∃ cut, out = segments ++ cut.map Segment.text ∧ Cut (current ++ ps) cut ∧
      ∀ segment ∈ cut, segment.IsCut := by
  induction hn : ps.length using Nat.strong_induction_on generalizing ps current segments with
  | _ n ih =>
  subst hn
  rcases ps with _ | ⟨p, ps⟩
  · rw [Segment.text_nil, splitTopLevelSegments] at h
    split_ifs at h with hempty
    · cases h
      exact absurd rfl hout
    · cases h
      exact ⟨[current], rfl, by simpa using Cut.last current, by
        rintro segment (_ | ⟨_, ⟨⟩⟩)
        exact ⟨hempty, hcurrent⟩⟩
  have hp := hps p List.mem_cons_self
  have htail : ∀ q ∈ ps, q.WellFormed := fun q hq => hps q (List.mem_cons_of_mem _ hq)
  have hkeep (hc : ∀ c, p = .bare c → c ≠ '|' ∧ c ≠ ';')
      (hsplit : splitTopLevelSegments .closed false segments current.text
          (p.text ++ Segment.text ps) =
        splitTopLevelSegments .closed false segments (current.text ++ p.text)
          (Segment.text ps)) :
      ∃ cut, out = segments ++ cut.map Segment.text ∧ Cut (current ++ p :: ps) cut ∧
        ∀ segment ∈ cut, segment.IsCut := by
    rw [Segment.text_cons, hsplit] at h
    have hmore : ∀ c, .bare c ∈ current ++ [p] → c ≠ '|' ∧ c ≠ ';' := by
      intro c hmem
      rcases List.mem_append.1 hmem with hmem | hmem
      · exact hcurrent c hmem
      · exact hc c (List.mem_singleton.1 hmem).symm
    obtain ⟨cut, hcut⟩ := ih ps.length (by simp) htail hmore (by simpa using h) rfl
    exact ⟨cut, by simpa using hcut⟩
  -- an operator ends the segment, and what comes after it is cut in turn
  have hcut (operator : List Char) {qs : Segment} (hmem : operator ∈ operators)
      (hlength : qs.length < (p :: ps).length) (hqs : ∀ q ∈ qs, q.WellFormed)
      (heq : p :: ps = operator.map .bare ++ qs)
      (hsplit : splitTopLevelSegments .closed false segments current.text (Segment.text (p :: ps)) =
        if trim current.text = [] then none
        else splitTopLevelSegments .closed false (segments ++ [current.text]) []
          qs.text) :
      ∃ cut, out = segments ++ cut.map Segment.text ∧ Cut (current ++ p :: ps) cut ∧
        ∀ segment ∈ cut, segment.IsCut := by
    rw [hsplit] at h
    split_ifs at h with hempty
    obtain ⟨cut, hout, hcut, hall⟩ := @ih qs.length hlength qs hqs [] (by simp) _ h rfl
    refine ⟨current :: cut, by simpa using hout, heq ▸ .cons current hmem hcut, ?_⟩
    rintro segment (_ | ⟨_, hsegment⟩)
    · exact ⟨hempty, hcurrent⟩
    · exact hall segment hsegment
  cases p with
  | escaped c => exact hkeep nofun (split_piece hp nofun)
  | single cs => exact hkeep nofun (split_piece hp nofun)
  | double ds => exact hkeep nofun (split_piece hp nofun)
  | bare c =>
    by_cases hpair : (c = '&' ∨ c = '|') ∧ (Segment.text ps).head? = some c
    · obtain ⟨hc, hnext⟩ := hpair
      obtain ⟨qs, rfl⟩ := exists_bare_of_head hnext (by rcases hc with rfl | rfl <;> decide)
      refine hcut [c, c] (by rcases hc with rfl | rfl <;> decide) (by grind)
        (fun q hq => htail q (List.mem_cons_of_mem _ hq)) rfl ?_
      rcases hc with rfl | rfl <;> simp [splitTopLevelSegments, Piece.text]
    by_cases hpipe : c = '|'
    · subst hpipe
      refine hcut ['|'] (by decide) (by simp) htail rfl ?_
      simp only [true_and, or_true] at hpair
      simp [splitTopLevelSegments, Piece.text, hpair]
    by_cases hsemi : c = ';'
    · subst hsemi
      exact hcut [';'] (by decide) (by simp) htail rfl
        (by simp [splitTopLevelSegments, Piece.text])
    · refine hkeep (by rintro _ ⟨rfl⟩; exact ⟨hpipe, hsemi⟩) (split_bare hp ?_ hpipe hsemi)
      rintro ⟨rfl, hnext⟩
      exact hpair ⟨Or.inl rfl, hnext⟩

/-! ### The ends of a segment -/

section Strip

variable {α : Type} (q : α → Bool)

theorem dropWhile_head {l : List α} {a : α} (h : (l.dropWhile q).head? = some a) :
    q a = false := by
  have hnot := List.head?_dropWhile_not q l
  rwa [h] at hnot

theorem exists_strip (l : List α) : ∃ lead trail, l = lead ++ (strip q l ++ trail) ∧
    l.dropWhile q = strip q l ++ trail ∧ (∀ a ∈ lead, q a) ∧ (∀ a ∈ trail, q a) ∧
    (∀ a, (strip q l).head? = some a → q a = false) ∧
    ∀ a, (strip q l).getLast? = some a → q a = false := by
  have hbody : l.dropWhile q =
      strip q l ++ ((l.dropWhile q).reverse.takeWhile q).reverse := by
    unfold strip
    rw [← List.reverse_append, List.takeWhile_append_dropWhile, List.reverse_reverse]
  refine ⟨l.takeWhile q, _, ?_, hbody, fun a ha => List.mem_takeWhile_imp ha,
    fun a ha => List.mem_takeWhile_imp (List.mem_reverse.1 ha), fun a ha => ?_, fun a ha => ?_⟩
  · rw [← hbody, List.takeWhile_append_dropWhile]
  · have hhead : (l.dropWhile q).head? = some a := by
      rw [hbody, List.head?_append, ha]
      rfl
    exact dropWhile_head q hhead
  · unfold strip at ha
    rw [List.getLast?_reverse] at ha
    exact dropWhile_head q ha

variable {q}

theorem strip_eq {lead l trail : List α} (hlead : ∀ a ∈ lead, q a) (htrail : ∀ a ∈ trail, q a)
    (hne : l ≠ []) (hhead : ∀ a, l.head? = some a → q a = false)
    (hlast : ∀ a, l.getLast? = some a → q a = false) : strip q (lead ++ (l ++ trail)) = l := by
  have hstop (m : List α) (hne : m ≠ []) (hm : ∀ a, m.head? = some a → q a = false)
      (n : List α) : (m ++ n).dropWhile q = m ++ n := by
    cases m with
    | nil => exact absurd rfl hne
    | cons a m => exact List.dropWhile_cons_of_neg (by simp [hm a rfl])
  unfold strip
  rw [List.dropWhile_append_of_pos hlead, hstop l hne hhead, List.reverse_append,
    List.dropWhile_append_of_pos (by simpa using htrail), ← List.append_nil l.reverse, hstop]
  · simp
  · simpa using hne
  · simpa using hlast

end Strip

/-! ### What is trimmed of a segment -/

def Piece.isSpace : Piece → Bool
  | .bare c => isJsWhitespace c
  | _ => false

/-- The segment without the white space at its ends. -/
def Segment.trimmed (segment : Segment) : Segment := strip Piece.isSpace segment

theorem dropWhile_text (ps : Segment) :
    ps.text.dropWhile isJsWhitespace = Segment.text (ps.dropWhile Piece.isSpace) := by
  induction ps with
  | nil => rfl
  | cons p ps ih =>
    cases p with
    | bare c =>
      cases hc : isJsWhitespace c
      · simp [Piece.text, Piece.isSpace, hc]
      · simpa [Piece.text, Piece.isSpace, hc] using ih
    | escaped c => simp [Piece.text, Piece.isSpace, show isJsWhitespace '\\' = false by decide]
    | single cs => simp [Piece.text, Piece.isSpace, show isJsWhitespace '\'' = false by decide]
    | double ds => simp [Piece.text, Piece.isSpace, show isJsWhitespace '"' = false by decide]

/-- At the end pieces are trimmed, unless an escaped white space leaves its backslash. -/
theorem trimEnd_text (ps : Segment) :
    (ps.text.reverse.dropWhile isJsWhitespace).reverse =
        Segment.text (ps.reverse.dropWhile Piece.isSpace).reverse ∨
      ∃ qs : Segment, qs <+: ps ∧
        (ps.text.reverse.dropWhile isJsWhitespace).reverse = qs.text ++ ['\\'] := by
  induction ps using List.reverseRecOn with
  | nil => exact Or.inl rfl
  | append_singleton ps p ih =>
    cases p with
    | bare c =>
      cases hc : isJsWhitespace c
      · simp [Piece.text, Piece.isSpace, hc]
      · rcases ih with ih | ⟨qs, hqs, ih⟩
        · simpa [Piece.text, Piece.isSpace, hc] using Or.inl ih
        · exact Or.inr ⟨qs, hqs.trans (List.prefix_append _ _), by
            simpa [Piece.text, hc] using ih⟩
    | escaped c =>
      cases hc : isJsWhitespace c
      · simp [Piece.text, Piece.isSpace, hc]
      · refine Or.inr ⟨ps, List.prefix_append _ _, ?_⟩
        simp [Piece.text, hc, show isJsWhitespace '\\' = false by decide]
    | single cs => simp [Piece.text, Piece.isSpace, show isJsWhitespace '\'' = false by decide]
    | double ds => simp [Piece.text, Piece.isSpace, show isJsWhitespace '"' = false by decide]

/-! ### The words of a segment -/

/-- What the third pass has of the words as it walks over pieces. -/
structure WordState where
  words : List String
  current : List Char
  hasToken : Bool

def WordState.next (s : WordState) : Piece → WordState
  | .bare c =>
    if isWhitespace c then ⟨flushWord s.words s.current s.hasToken, [], false⟩
    else ⟨s.words, s.current ++ [c], true⟩
  | .escaped c => ⟨s.words, s.current ++ [c], true⟩
  | .single cs => ⟨s.words, s.current ++ cs, true⟩
  | .double ds => ⟨s.words, s.current ++ ds.map DoubleChar.char, true⟩

/-- The words of pieces as the third pass reads them. -/
def Segment.words (segment : Segment) : List String :=
  let s := segment.foldl WordState.next ⟨[], [], false⟩
  flushWord s.words s.current s.hasToken

section Words

variable {words : List String} {current rest : List Char}

theorem words_single {cs : List Char} (h : '\'' ∉ cs) :
    parsePlainCommandWords { inSingle := true } words current true (cs ++ '\'' :: rest) =
      parsePlainCommandWords .closed words (current ++ cs) true rest := by
  induction cs generalizing current with
  | nil => simp [parsePlainCommandWords]
  | cons c cs ih =>
    rw [List.mem_cons, not_or] at h
    simp [parsePlainCommandWords, Ne.symm h.1, ih h.2]

theorem words_double {ds : List DoubleChar} (h : (Piece.double ds).WellFormed) :
    parsePlainCommandWords { inDouble := true } words current true
        (ds.flatMap DoubleChar.text ++ '"' :: rest) =
      parsePlainCommandWords .closed words (current ++ ds.map DoubleChar.char) true rest := by
  induction ds generalizing current with
  | nil => simp [parsePlainCommandWords]
  | cons d ds ih =>
    have htail : (Piece.double ds).WellFormed := fun c hc => h c (List.mem_cons_of_mem _ hc)
    obtain ⟨_ | _, c⟩ := d
    · obtain ⟨hquote, hback⟩ := h c List.mem_cons_self
      simp [parsePlainCommandWords, DoubleChar.text, hquote, hback, ih htail]
    · simp [parsePlainCommandWords, DoubleChar.text, ih htail]

theorem parsePlainCommandWords_text {ps : Segment} (h : ∀ p ∈ ps, p.WellFormed) (s : WordState) :
    parsePlainCommandWords .closed s.words s.current s.hasToken (ps.text ++ rest) =
      parsePlainCommandWords .closed (ps.foldl WordState.next s).words
        (ps.foldl WordState.next s).current (ps.foldl WordState.next s).hasToken rest := by
  induction ps generalizing s with
  | nil => rfl
  | cons p ps ih =>
    rw [List.foldl_cons, ← ih fun q hq => h q (List.mem_cons_of_mem _ hq)]
    have hp := h p List.mem_cons_self
    cases p with
    | bare c =>
      obtain ⟨hback, hsingle, hdouble⟩ := hp
      rw [Segment.text_cons, Piece.text, List.cons_append, List.nil_append, List.cons_append,
        parsePlainCommandWords]
      cases hc : isWhitespace c <;> simp [hback, hsingle, hdouble, hc, WordState.next]
    | escaped c => simp [parsePlainCommandWords, Piece.text, WordState.next]
    | single cs =>
      simp [parsePlainCommandWords, Piece.text, WordState.next, words_single hp]
    | double ds =>
      simp [parsePlainCommandWords, Piece.text, WordState.next, words_double hp]

end Words

/-! ### A script that parses -/

theorem mem_trimmed {p : Piece} {segment : Segment} (h : p ∈ segment.trimmed) : p ∈ segment := by
  unfold Segment.trimmed strip at h
  rw [List.mem_reverse] at h
  have h := (List.dropWhile_sublist _).subset h
  rw [List.mem_reverse] at h
  exact (List.dropWhile_sublist _).subset h

/-- The words of a segment that parses are those of its pieces once trimmed. -/
theorem words_of_segmentWords {segment : Segment} {words : List String}
    (hformed : ∀ p ∈ segment, p.WellFormed) (h : segmentWords segment.text = some words) :
    words = segment.trimmed.words ∧ ∃ word rest, words = word :: rest ∧
      isAssignmentPrefix word = false := by
  unfold segmentWords at h
  rw [if_neg (by rintro hempty; simp [hempty] at h)] at h
  have hparse : parsePlainCommandWords .closed [] [] false (trim segment.text) = some words ∧
      ∃ word rest, words = word :: rest ∧ isAssignmentPrefix word = false := by
    split at h
    · next word rest hparse =>
      split_ifs at h with hassign
      cases h
      exact ⟨hparse, word, rest, rfl, by simpa using hassign⟩
    · cases h
  refine ⟨?_, hparse.2⟩
  have hparse := hparse.1
  unfold trim strip at hparse
  rw [dropWhile_text] at hparse
  have hdropped : ∀ p ∈ segment.dropWhile Piece.isSpace, p.WellFormed := fun p hp =>
    hformed p ((List.dropWhile_sublist _).subset hp)
  rcases trimEnd_text (segment.dropWhile Piece.isSpace) with htext | ⟨qs, hqs, htext⟩
  · have hwords := @parsePlainCommandWords_text [] segment.trimmed
      (fun p hp => hformed p (mem_trimmed hp)) ⟨[], [], false⟩
    rw [htext, ← List.append_nil (Segment.text _)] at hparse
    exact Option.some.inj (hparse.symm.trans hwords)
  · have hwords := @parsePlainCommandWords_text ['\\'] qs
      (fun p hp => hdropped p (hqs.subset hp)) ⟨[], [], false⟩
    rw [htext] at hparse
    have := hparse.symm.trans hwords
    simp [parsePlainCommandWords] at this

theorem Cut.mem {ps : Segment} {cut : List Segment} (h : Cut ps cut) :
    ∀ segment ∈ cut, ∀ p ∈ segment, p ∈ ps := by
  induction h with
  | last segment => simp
  | cons segment mem tail ih =>
    rintro s (_ | ⟨_, hs⟩) p hp
    · exact List.mem_append_left _ hp
    · exact List.mem_append_right _ (List.mem_append_right _ (ih s hs p hp))

/-- What is known of a script that parses as `commands`. -/
structure Parsed (script : List Char) (commands : List (List String)) (ps : Segment)
    (segments : List Segment) : Prop where
  text : script = ps.text
  allowed : AllowedPieces ps
  cut : Cut ps segments
  isCut : ∀ segment ∈ segments, segment.IsCut
  commands : commands = segments.map fun segment => segment.trimmed.words
  command : ∀ segment ∈ segments, ∃ word rest, segment.trimmed.words = word :: rest ∧
    isAssignmentPrefix word = false

theorem mapM_words {segments : List Segment} {commands : List (List String)}
    (hformed : ∀ segment ∈ segments, ∀ p ∈ segment, p.WellFormed)
    (h : (segments.map Segment.text).mapM segmentWords = some commands) :
    commands = segments.map (fun segment => segment.trimmed.words) ∧
      ∀ segment ∈ segments, ∃ word rest, segment.trimmed.words = word :: rest ∧
        isAssignmentPrefix word = false := by
  induction segments generalizing commands with
  | nil =>
    cases h
    exact ⟨rfl, nofun⟩
  | cons segment segments ih =>
    rw [List.map_cons, List.mapM_cons] at h
    cases hwords : segmentWords segment.text with
    | none => rw [hwords] at h; cases h
    | some words =>
      cases hrest : (segments.map Segment.text).mapM segmentWords with
      | none => rw [hwords, hrest] at h; cases h
      | some rest =>
        rw [hwords, hrest] at h
        cases h
        obtain ⟨rfl, hcommand⟩ := words_of_segmentWords (hformed _ List.mem_cons_self) hwords
        obtain ⟨rfl, hcommands⟩ :=
          ih (fun s hs => hformed s (List.mem_cons_of_mem _ hs)) hrest
        refine ⟨rfl, ?_⟩
        rintro s (_ | ⟨_, hs⟩)
        · exact hcommand
        · exact hcommands s hs

theorem exists_parsed {script : String} {commands : List (List String)}
    (h : parseScriptPlainCommands script = some commands) :
    ∃ ps segments, Parsed script.toList commands ps segments := by
  unfold parseScriptPlainCommands at h
  split_ifs at h with hforbidden
  obtain ⟨ps, hps, htext⟩ := (piecesFrom script.toList).closed _ (by simpa using hforbidden)
  rw [htext] at h
  split at h
  · cases h
  next out hsplit =>
    split_ifs at h with hempty
    have hformed : ∀ p ∈ ps, p.WellFormed := fun p hp => (hps p hp).1
    obtain ⟨segments, hout, hcut, hall⟩ := @exists_segments ps hformed [] (by simp) [] out hsplit
      (by rintro rfl; exact hempty rfl)
    rw [List.nil_append] at hcut
    rw [hout, List.nil_append] at h
    obtain ⟨hcommands, hcommand⟩ := mapM_words
      (fun segment hs p hp => hformed p (hcut.mem segment hs p hp)) h
    exact ⟨ps, segments, htext, hps, hcut, hall, hcommands, hcommand⟩

end Kinetick.Permission
