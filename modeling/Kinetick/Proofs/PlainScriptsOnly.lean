import Kinetick.Proofs.PlainWords

/-!
# Only plain scripts run what they parse as

The characters of the words a script parses as are those of the words the shell runs. The parser
keeps what a comment hides, the line breaks of continuations and lone ampersands; the shell keeps
backslashes that quote nothing and the white space it does not split at. With the same of each
there is none. Then each segment is one line, or there would be more commands than segments.
-/

namespace Kinetick.Permission

open Kinetick.Shell

/-! ### The characters of words -/

/-- What the parser keeps of a piece. -/
def Piece.kept : Piece → List Char
  | bare c => if isWhitespace c then [] else [c]
  | escaped c => [c]
  | single cs => cs
  | double ds => ds.map DoubleChar.char

/-- What the shell keeps of it. -/
def Piece.shellKept (p : Piece) : List Char := p.marks.flatMap Mark.kept

def DoubleChar.shellKept (d : DoubleChar) : List Char := d.marks.flatMap Mark.kept

@[simp] theorem shellKept_bare (c : Char) :
    (Piece.bare c).shellKept = if endsWord c then [] else [c] := by
  simp [Piece.shellKept, Piece.marks, Mark.kept]

@[simp] theorem shellKept_escaped (c : Char) :
    (Piece.escaped c).shellKept = if c = '\n' then [] else [c] := by
  simp only [Piece.shellKept, Piece.marks]
  split_ifs <;> simp [Mark.kept]

@[simp] theorem shellKept_single (cs : List Char) : (Piece.single cs).shellKept = cs := by
  simp [Piece.shellKept, Piece.marks, Mark.kept, List.flatMap_map]

@[simp] theorem shellKept_double (ds : List DoubleChar) :
    (Piece.double ds).shellKept = ds.flatMap DoubleChar.shellKept := by
  simp only [Piece.shellKept, Piece.marks, List.flatMap_cons, Mark.kept, List.nil_append,
    List.flatMap_assoc]
  rfl

theorem shellKept_doubleChar (d : DoubleChar) : d.shellKept =
    if d.escaped then
      if d.char = '\n' then [] else if isDoubleQuotable d.char then [d.char]
      else ['\\', d.char]
    else [d.char] := by
  obtain ⟨_ | _, c⟩ := d
  · rfl
  · simp only [DoubleChar.shellKept, DoubleChar.marks]
    split_ifs <;> simp_all [Mark.kept]

theorem words_chars (ps : Segment) (s : WordState) (h : s.hasToken = false → s.current = []) :
    (flushWord (ps.foldl WordState.next s).words (ps.foldl WordState.next s).current
      (ps.foldl WordState.next s).hasToken).flatMap String.toList =
    s.words.flatMap String.toList ++ (s.current ++ ps.flatMap Piece.kept) := by
  induction ps generalizing s with
  | nil =>
    cases htoken : s.hasToken
    · simp [flushWord, htoken, h htoken]
    · simp [flushWord, htoken]
  | cons p ps ih =>
    have hflush : (flushWord s.words s.current s.hasToken).flatMap String.toList =
        s.words.flatMap String.toList ++ s.current := by
      cases htoken : s.hasToken
      · simp [flushWord, h htoken]
      · simp [flushWord]
    rw [List.foldl_cons, ih]
    · cases p with
      | bare c => cases hc : isWhitespace c <;> simp [WordState.next, Piece.kept, hc, hflush]
      | escaped c => simp [WordState.next, Piece.kept]
      | single cs => simp [WordState.next, Piece.kept]
      | double ds => simp [WordState.next, Piece.kept]
    · cases p with
      | bare c => cases hc : isWhitespace c <;> simp [WordState.next, hc]
      | escaped c => simp [WordState.next]
      | single cs => simp [WordState.next]
      | double ds => simp [WordState.next]

theorem count_flatMap_le {α : Type} {l : List α} {f g : α → List Char} {x : Char}
    (h : ∀ a ∈ l, (f a).count x ≤ (g a).count x) :
    (l.flatMap f).count x ≤ (l.flatMap g).count x := by
  induction l with
  | nil => rfl
  | cons b l ih =>
    simp only [List.flatMap_cons, List.count_append]
    have hb := h b List.mem_cons_self
    have hrest := ih fun a ha => h a (List.mem_cons_of_mem _ ha)
    omega

/-- Where one of two takes no more of a character and in all no less, they take the same. -/
theorem count_eq_of_le {α : Type} {l : List α} {f g : α → List Char} {x : Char}
    (hle : ∀ a ∈ l, (f a).count x ≤ (g a).count x)
    (h : (l.flatMap g).count x ≤ (l.flatMap f).count x) :
    ∀ a ∈ l, (f a).count x = (g a).count x := by
  induction l with
  | nil => exact nofun
  | cons b l ih =>
    have htail : ∀ a ∈ l, (f a).count x ≤ (g a).count x := fun a ha =>
      hle a (List.mem_cons_of_mem _ ha)
    have hsum : (l.flatMap f).count x ≤ (l.flatMap g).count x := count_flatMap_le htail
    have hb := hle b List.mem_cons_self
    simp only [List.flatMap_cons, List.count_append] at h
    rintro a (_ | ⟨_, ha⟩)
    · omega
    · exact ih htail (by omega) a ha

/-! ### What only one of the two keeps -/

theorem kept_double (ds : List DoubleChar) :
    (Piece.double ds).kept = ds.flatMap fun d => [d.char] := List.map_eq_flatMap

/-- White space that is no layout ends no word of the shell's. -/
theorem endsWord_of_space {c : Char} (hspace : isWhitespace c ∨ isJsWhitespace c)
    (hlayout : ¬(isBlank c ∨ c = '\n')) : endsWord c = false := by
  rw [not_or] at hlayout
  by_contra hends
  have hoperator : isOperator c := by simpa [endsWord, hlayout] using hends
  simp only [isOperator, List.contains_eq_mem, List.mem_cons, List.not_mem_nil, or_false,
    decide_eq_true_eq] at hoperator
  rcases hoperator with rfl | rfl | rfl | rfl | rfl | rfl | rfl <;>
    exact absurd hspace (by decide)

/-- The parser keeps the line breaks the shell keeps, and those of continuations. -/
theorem count_break_le (p : Piece) : p.shellKept.count '\n' ≤ p.kept.count '\n' := by
  cases p with
  | bare c =>
    rw [shellKept_bare, Piece.kept]
    by_cases hc : c = '\n'
    · subst hc
      decide
    · split_ifs <;> simp [hc]
  | escaped c =>
    rw [shellKept_escaped, Piece.kept]
    split_ifs <;> simp
  | single cs => simp [Piece.kept]
  | double ds =>
    rw [shellKept_double, kept_double]
    refine count_flatMap_le fun d _ => ?_
    rw [shellKept_doubleChar]
    split_ifs <;> simp [List.count_cons]

/-- The shell keeps the backslashes the parser keeps, and those that quote nothing. -/
theorem count_backslash_le (p : Piece) (h : p ≠ .escaped '\n') (hp : p.WellFormed) :
    p.kept.count '\\' ≤ p.shellKept.count '\\' := by
  cases p with
  | bare c =>
    rw [shellKept_bare, Piece.kept]
    have hc := hp.1
    split_ifs <;> simp [hc]
  | escaped c =>
    have hc : c ≠ '\n' := by
      rintro rfl
      exact h rfl
    simp [Piece.kept, hc]
  | single cs => simp [Piece.kept]
  | double ds =>
    rw [shellKept_double, kept_double]
    refine count_flatMap_le fun d _ => ?_
    rw [shellKept_doubleChar]
    by_cases hbreak : d.char = '\n'
    · simp [hbreak]
    · split_ifs <;> simp [List.count_cons]

/-- The parser keeps the ampersands the shell keeps, and the unquoted ones. -/
theorem count_and_le (p : Piece) : p.shellKept.count '&' ≤ p.kept.count '&' := by
  cases p with
  | bare c =>
    rw [shellKept_bare, Piece.kept]
    by_cases hc : c = '&'
    · subst hc
      decide
    · split_ifs <;> simp [hc]
  | escaped c =>
    rw [shellKept_escaped, Piece.kept]
    split_ifs <;> simp
  | single cs => simp [Piece.kept]
  | double ds =>
    rw [shellKept_double, kept_double]
    refine count_flatMap_le fun d _ => ?_
    rw [shellKept_doubleChar]
    split_ifs <;> simp [List.count_cons]

/-- A character that ends no word the shell keeps as often as the parser. -/
theorem count_space_le (p : Piece) {x : Char} (hx : endsWord x = false) :
    p.kept.count x ≤ p.shellKept.count x := by
  have hbreak : x ≠ '\n' := by
    rintro rfl
    exact absurd hx (by decide)
  cases p with
  | bare c =>
    rw [shellKept_bare, Piece.kept]
    by_cases hc : c = x
    · subst hc
      rw [if_neg (by simp [hx] : ¬ endsWord c = true)]
      split_ifs <;> simp
    · split_ifs <;> simp [hc]
  | escaped c =>
    rw [shellKept_escaped, Piece.kept]
    split_ifs with hc
    · simp [hc, hbreak.symm]
    · exact le_rfl
  | single cs => simp [Piece.kept]
  | double ds =>
    rw [shellKept_double, kept_double]
    refine count_flatMap_le fun d _ => ?_
    rw [shellKept_doubleChar]
    split_ifs with _ hc <;> simp_all [List.count_cons, hbreak.symm]

/-- What is trimmed is white space the parser would not have kept, but where it does not split. -/
theorem count_trimmed_le (segment : Segment) (x : Char) :
    (segment.trimmed.flatMap Piece.kept).count x ≤ (segment.flatMap Piece.kept).count x := by
  obtain ⟨lead, trail, heq, -⟩ := exists_strip Piece.isSpace segment
  conv_rhs => rw [heq]
  simp only [List.flatMap_append, List.count_append]
  change _ ≤ _ + ((segment.trimmed.flatMap Piece.kept).count x + _)
  omega

theorem count_trimmed {segment : Segment} {x : Char}
    (hx : isJsWhitespace x = false ∨ isWhitespace x) :
    (segment.trimmed.flatMap Piece.kept).count x = (segment.flatMap Piece.kept).count x := by
  obtain ⟨lead, trail, heq, -, hlead, htrail, -⟩ := exists_strip Piece.isSpace segment
  have hnone (l : Segment) (hl : ∀ p ∈ l, p.isSpace) : (l.flatMap Piece.kept).count x = 0 := by
    rw [List.count_eq_zero, List.mem_flatMap]
    rintro ⟨p, hp, hxp⟩
    have hspace := hl p hp
    cases p with
    | bare c =>
      simp only [Piece.kept] at hxp
      split_ifs at hxp with hc
      · cases hxp
      · obtain rfl := List.mem_singleton.1 hxp
        rcases hx with hx | hx
        · rw [Piece.isSpace, hx] at hspace
          cases hspace
        · exact hc hx
    | escaped c => cases hspace
    | single cs => cases hspace
    | double ds => cases hspace
  conv_rhs => rw [heq]
  simp only [List.flatMap_append, List.count_append, hnone lead hlead, hnone trail htrail]
  change _ = _ + ((segment.trimmed.flatMap Piece.kept).count x + _)
  omega

/-! ### Comments -/

/-- What the shell keeps of a script has no more number signs than the script. -/
theorem count_marks_le {mode : Mode} {start : Bool} {cs : List Char} {ms : List Mark}
    (h : marks mode start cs = some ms) : (ms.flatMap Mark.kept).count '#' ≤ cs.count '#' := by
  induction cs generalizing mode start ms with
  | nil => cases mode <;> cases h <;> simp
  | cons c cs ih =>
    have hmap {m : Mode} {b : Bool} (more : List Mark)
        (hmore : (more.flatMap Mark.kept).count '#' ≤ [c].count '#')
        (h : (marks m b cs).map (more ++ ·) = some ms) :
        (ms.flatMap Mark.kept).count '#' ≤ (c :: cs).count '#' := by
      obtain ⟨ms', hms', rfl⟩ := Option.map_eq_some_iff.1 h
      have hrest := ih hms'
      rw [List.flatMap_append, List.count_append, ← List.singleton_append, List.count_append]
      omega
    have hskip {m : Mode} {b : Bool} (h : marks m b cs = some ms) :
        (ms.flatMap Mark.kept).count '#' ≤ (c :: cs).count '#' :=
      (ih h).trans List.count_le_count_cons
    cases mode with
    | bare =>
      unfold marks at h
      split_ifs at h
      · exact hskip h
      · exact hmap [.quote] (by simp [Mark.kept]) h
      · exact hmap [.quote] (by simp [Mark.kept]) h
      · exact hskip h
      · refine hmap [.bare c] ?_ h
        simp only [List.flatMap_singleton, Mark.kept]
        split_ifs <;> simp
    | escaped =>
      unfold marks at h
      split_ifs at h
      · exact hskip h
      · exact hmap [.quoted c] (by simp [Mark.kept]) h
    | single =>
      unfold marks at h
      split_ifs at h
      · exact hskip h
      · exact hmap [.quoted c] (by simp [Mark.kept]) h
    | double =>
      unfold marks at h
      split_ifs at h
      · exact hskip h
      · exact hskip h
      · exact hmap [.quoted c] (by simp [Mark.kept]) h
    | doubleEscaped =>
      unfold marks at h
      split_ifs at h
      · exact hskip h
      · exact hmap [.quoted c] (by simp [Mark.kept]) h
      · exact hmap [.quoted '\\', .quoted c] (by simp [Mark.kept, List.count_cons]) h
    | comment =>
      unfold marks at h
      split_ifs at h
      · exact hmap [.bare '\n'] (by simp [Mark.kept, endsWord]) h
      · exact hskip h

/-- A comment hides its number sign. -/
theorem count_lt_of_comment {ps : Segment} (hps : AllowedPieces ps) {start : Bool}
    (hcomment : Segment.commentFree start ps = false) {ms : List Mark}
    (h : marks .bare start ps.text = some ms) :
    (ms.flatMap Mark.kept).count '#' < ps.text.count '#' := by
  induction ps generalizing start ms with
  | nil => cases hcomment
  | cons p ps ih =>
    have htail : AllowedPieces ps := fun q hq => hps q (List.mem_cons_of_mem _ hq)
    obtain ⟨hformed, hallowed⟩ := hps p List.mem_cons_self
    have hmap {b : Bool} (more : List Mark) (hfree : Segment.commentFree b ps = false)
        (hmore : (more.flatMap Mark.kept).count '#' ≤ p.text.count '#')
        (h : (marks .bare b (Segment.text ps)).map (more ++ ·) = some ms) :
        (ms.flatMap Mark.kept).count '#' < (Segment.text (p :: ps)).count '#' := by
      obtain ⟨ms', hms', rfl⟩ := Option.map_eq_some_iff.1 h
      have hrest := ih htail hfree hms'
      rw [List.flatMap_append, List.count_append, Segment.text_cons, List.count_append]
      omega
    cases p with
    | bare c =>
      obtain ⟨hback, hsingle, hdouble⟩ := hformed
      simp only [Piece.Allowed, List.mem_cons, List.not_mem_nil, or_false, not_or] at hallowed
      rw [Segment.text_cons, Piece.text, List.cons_append, List.nil_append, marks,
        if_neg hback, if_neg hsingle, if_neg hdouble, if_neg (by tauto)] at h
      by_cases hhash : c = '#' ∧ start
      · rw [if_pos hhash] at h
        have hrest := count_marks_le h
        rw [Segment.text_cons, List.count_append, hhash.1]
        simp only [Piece.text, List.count_singleton_self]
        omega
      · rw [if_neg hhash] at h
        refine hmap [.bare c] ?_ ?_ h
        · have hnone : (c = '#' && start) = false := by simpa using hhash
          rw [Segment.commentFree, hnone] at hcomment
          exact hcomment
        · simp only [List.flatMap_singleton, Mark.kept, Piece.text]
          split_ifs <;> simp
    | escaped c =>
      by_cases hbreak : c = '\n'
      · subst hbreak
        have hrest := ih htail (by simpa [Segment.commentFree] using hcomment)
          (by simpa [Piece.text, marks] using h)
        rw [Segment.text_cons, List.count_append]
        omega
      · refine hmap [.quoted c] (b := false) ?_ ?_ ?_
        · simpa [Segment.commentFree, hbreak] using hcomment
        · simp [Mark.kept, Piece.text]
        · simpa [Piece.text, marks, hbreak] using h
    | single cs =>
      refine hmap (.quote :: cs.map .quoted) hcomment ?_ ?_
      · have hkept : (cs.map Mark.quoted).flatMap Mark.kept = cs := by
          simp [List.flatMap_map, Mark.kept]
        simp [Mark.kept, Piece.text, hkept]
      · simpa [Piece.text, marks, marks_single hformed, Function.comp_def] using h
    | double ds =>
      refine hmap (.quote :: ds.flatMap DoubleChar.marks) hcomment ?_ ?_
      · have hkept : ((ds.flatMap DoubleChar.marks).flatMap Mark.kept).count '#' ≤
            (ds.flatMap DoubleChar.text).count '#' := by
          rw [List.flatMap_assoc]
          refine count_flatMap_le fun d _ => ?_
          change d.shellKept.count '#' ≤ _
          rw [shellKept_doubleChar, DoubleChar.text]
          split_ifs <;> simp [List.count_cons]
        simpa [Mark.kept, Piece.text] using hkept
      · simpa [Piece.text, marks, marks_double hformed hallowed, Function.comp_def] using h

/-! ### What a script that runs what it parses as is made of -/

theorem cut_count {ps : Segment} {segments : List Segment} (h : Cut ps segments)
    {f : Piece → List Char} {x : Char} (hf : ∀ c, isOperator c → (f (.bare c)).count x = 0) :
    (ps.flatMap f).count x = (segments.flatMap fun s => s.flatMap f).count x := by
  induction h with
  | last segment => simp
  | @cons segment operator ps segments mem tail ih =>
    have hnone : ((operator.map Piece.bare).flatMap f).count x = 0 := by
      rw [List.count_eq_zero, List.mem_flatMap]
      rintro ⟨p, hp, hxp⟩
      obtain ⟨c, hc, rfl⟩ := List.mem_map.1 hp
      have hoperator : isOperator c := by
        simp only [operators, List.mem_cons, List.not_mem_nil, or_false] at mem
        rcases mem with rfl | rfl | rfl | rfl <;> simp_all [isOperator]
      exact List.count_eq_zero.1 (hf c hoperator) hxp
    simp only [List.flatMap_append, List.flatMap_cons, List.count_append, hnone, ih]
    omega

theorem commands_chars_eq {script : String} {commands : List (List String)}
    (h : scriptCommands script = some commands) : ∃ ms cs,
      marks .bare true script.toList = some ms ∧
      Shell.commands [] false (Shell.tokens false none ms) = some cs ∧
      commands = cs.map (List.map wordText) ∧
      commands.flatten.flatMap String.toList = ms.flatMap Mark.kept := by
  unfold scriptCommands at h
  obtain ⟨ms, hms, h⟩ := Option.bind_eq_some_iff.1 h
  obtain ⟨cs, hcs, h⟩ := Option.bind_eq_some_iff.1 h
  cases h
  refine ⟨ms, cs, hms, hcs, rfl, ?_⟩
  have hchars := commands_chars hcs
  rw [@tokens_chars false ms nofun none] at hchars
  simp only [List.flatMap_nil, List.nil_append, Bool.false_eq_true, ↓reduceIte, Option.getD_none,
    List.filterMap_nil] at hchars
  rw [← hchars]
  simp only [← List.map_flatten, List.flatMap_map, wordText, String.toList_ofList]

theorem Parsed.chars {script : List Char} {commands : List (List String)} {ps : Segment}
    {segments : List Segment} (h : Parsed script commands ps segments) :
    commands.flatten.flatMap String.toList =
      segments.flatMap fun s => s.trimmed.flatMap Piece.kept := by
  rw [h.commands, ← List.flatMap_def, List.flatMap_assoc]
  refine List.flatMap_congr fun s _ => ?_
  have hwords := words_chars s.trimmed ⟨[], [], false⟩ fun _ => rfl
  simpa [Segment.words] using hwords

theorem count_hash (p : Piece) : p.kept.count '#' = p.text.count '#' := by
  cases p with
  | bare c =>
    rw [Piece.kept, Piece.text]
    by_cases hc : c = '#'
    · subst hc
      decide
    · split_ifs <;> simp [hc]
  | escaped c => simp [Piece.kept, Piece.text, List.count_cons]
  | single cs => simp [Piece.kept, Piece.text, List.count_append]
  | double ds =>
    have hsame : (ds.flatMap fun d => [d.char]).count '#' =
        (ds.flatMap DoubleChar.text).count '#' := by
      refine le_antisymm (count_flatMap_le fun d _ => ?_) (count_flatMap_le fun d _ => ?_) <;>
        rw [DoubleChar.text] <;> split_ifs <;> simp [List.count_cons]
    rw [kept_double, hsame]
    simp [Piece.text, List.count_append]

section Converse

variable {script : String} {commands : List (List String)} {ps : Segment}
  {segments : List Segment}

/-- A script that runs what it parses as has no comment. -/
theorem commentFree_of_sound (h : Parsed script.toList commands ps segments)
    (hsound : scriptCommands script = some commands) : Segment.commentFree true ps := by
  by_contra hcomment
  obtain ⟨ms, -, hms, -, -, hchars⟩ := commands_chars_eq hsound
  rw [h.text] at hms
  have hlt := count_lt_of_comment h.allowed (by simpa using hcomment) hms
  have heq : (ms.flatMap Mark.kept).count '#' = ps.text.count '#' := by
    have htrimmed : (segments.flatMap fun s => s.flatMap Piece.kept).count '#' ≤
        (segments.flatMap fun s => s.trimmed.flatMap Piece.kept).count '#' :=
      count_flatMap_le fun s _ => (count_trimmed (Or.inl (by decide))).ge
    have htext : ps.text.count '#' ≤ (ps.flatMap Piece.kept).count '#' :=
      count_flatMap_le fun p _ => (count_hash p).ge
    have hcut := cut_count (f := Piece.kept) (x := '#') h.cut fun c hc => by
      rw [count_hash]
      have : c ≠ '#' := by
        rintro rfl
        exact absurd hc (by decide)
      simp [Piece.text, this]
    have hle := count_marks_le hms
    rw [← hchars, h.chars] at hle ⊢
    omega
  omega

theorem kept_eq (h : Parsed script.toList commands ps segments)
    (hsound : scriptCommands script = some commands) :
    (segments.flatMap fun s => s.trimmed.flatMap Piece.kept) = ps.flatMap Piece.shellKept := by
  obtain ⟨ms, -, hms, -, -, hchars⟩ := commands_chars_eq hsound
  rw [h.text, marks_text h.allowed (commentFree_of_sound h hsound)] at hms
  cases hms
  rw [← h.chars, hchars, Segment.marks, List.flatMap_assoc]
  rfl

theorem shellKept_cut (h : Parsed script.toList commands ps segments) (x : Char) :
    (ps.flatMap Piece.shellKept).count x =
      (segments.flatMap fun s => s.flatMap Piece.shellKept).count x :=
  cut_count h.cut fun c hc => by simp [endsWord, hc]

/-- Where the shell keeps no more of a character than the parser, they keep as much of it in every
piece. -/
theorem piece_of_shell_le (h : Parsed script.toList commands ps segments)
    (hsound : scriptCommands script = some commands) {x : Char}
    (hx : isJsWhitespace x = false ∨ isWhitespace x)
    (hle : ∀ p : Piece, p.shellKept.count x ≤ p.kept.count x) :
    ∀ s ∈ segments, ∀ p ∈ s, p.shellKept.count x = p.kept.count x := by
  intro s hs
  have hsegments := count_eq_of_le (l := segments) (x := x)
    (f := fun s => s.flatMap Piece.shellKept) (g := fun s => s.trimmed.flatMap Piece.kept)
    (fun s _ => (count_flatMap_le fun p _ => hle p).trans (count_trimmed hx).ge)
    (by rw [kept_eq h hsound, shellKept_cut h])
  refine count_eq_of_le (fun p _ => hle p) ?_
  exact (count_trimmed hx).ge.trans (hsegments s hs).ge

/-- Where it keeps no less, they do as well, and nothing of it is trimmed. -/
theorem piece_of_kept_le (h : Parsed script.toList commands ps segments)
    (hsound : scriptCommands script = some commands) {x : Char}
    (hle : ∀ s ∈ segments, ∀ p ∈ s, p.kept.count x ≤ p.shellKept.count x) :
    ∀ s ∈ segments, (s.trimmed.flatMap Piece.kept).count x = (s.flatMap Piece.kept).count x ∧
      ∀ p ∈ s, p.kept.count x = p.shellKept.count x := by
  intro s hs
  have hsum (s : Segment) (hs : s ∈ segments) :
      (s.flatMap Piece.kept).count x ≤ (s.flatMap Piece.shellKept).count x :=
    count_flatMap_le fun p hp => hle s hs p hp
  have hsegments := count_eq_of_le (l := segments) (x := x)
    (f := fun s => s.trimmed.flatMap Piece.kept) (g := fun s => s.flatMap Piece.shellKept)
    (fun s hs => (count_trimmed_le s x).trans (hsum s hs))
    (by rw [kept_eq h hsound, shellKept_cut h])
  have hsegment := hsegments s hs
  have htrimmed := count_trimmed_le s x
  have hs' := hsum s hs
  refine ⟨by omega, count_eq_of_le (hle s hs) ?_⟩
  omega

theorem noContinuation_of_sound (h : Parsed script.toList commands ps segments)
    (hsound : scriptCommands script = some commands) : ∀ s ∈ segments,
      .escaped '\n' ∉ s ∧ ∀ cs, Piece.double cs ∈ s → ⟨true, '\n'⟩ ∉ cs := by
  intro s hs
  have hpieces := piece_of_shell_le h hsound (Or.inr rfl) count_break_le s hs
  refine ⟨fun hmem => ?_, fun ds hmem hd => ?_⟩
  · have := hpieces _ hmem
    simp [Piece.kept] at this
  · have hdouble := hpieces _ hmem
    rw [shellKept_double, kept_double] at hdouble
    have hchars := count_eq_of_le (l := ds) (x := '\n') (f := DoubleChar.shellKept)
      (g := fun d => [d.char]) (fun d _ => by
        rw [shellKept_doubleChar]
        split_ifs <;> simp [List.count_cons]) hdouble.ge _ hd
    simp [shellKept_doubleChar] at hchars

theorem noAmpersand_of_sound (h : Parsed script.toList commands ps segments)
    (hsound : scriptCommands script = some commands) : ∀ s ∈ segments, Piece.bare '&' ∉ s := by
  intro s hs hmem
  have hpiece := piece_of_shell_le h hsound (Or.inl (by decide)) count_and_le s hs _ hmem
  revert hpiece
  decide

theorem quotesOnly_of_sound (h : Parsed script.toList commands ps segments)
    (hsound : scriptCommands script = some commands) : ∀ s ∈ segments,
      ∀ cs, Piece.double cs ∈ s → ∀ c, ⟨true, c⟩ ∈ cs → isDoubleQuotable c := by
  intro s hs ds hmem c hc
  have hcontinued := noContinuation_of_sound h hsound
  obtain ⟨-, hpieces⟩ := piece_of_kept_le h hsound (x := '\\') (fun s hs p hp =>
    count_backslash_le p (fun heq => (hcontinued s hs).1 (heq ▸ hp))
      (h.allowed p (h.cut.mem s hs p hp)).1) s hs
  have hdouble := hpieces _ hmem
  rw [shellKept_double, kept_double] at hdouble
  have hchars := count_eq_of_le (l := ds) (x := '\\') (f := fun d => [d.char])
    (g := DoubleChar.shellKept) (fun d hd => by
      rw [shellKept_doubleChar]
      have : ¬(d.escaped = true ∧ d.char = '\n') := fun hboth =>
        (hcontinued s hs).2 ds hmem (by rwa [show d = ⟨true, '\n'⟩ from by
          obtain ⟨e, c⟩ := d
          simp_all] at hd)
      split_ifs <;> simp_all [List.count_cons]) hdouble.ge _ hc
  by_contra hquotable
  have hbreak : c ≠ '\n' := by
    rintro rfl
    exact (hcontinued s hs).2 ds hmem hc
  have hback : c ≠ '\\' := by
    rintro rfl
    exact hquotable rfl
  simp [shellKept_doubleChar, hbreak, hquotable, hback] at hchars

theorem noControl_of_sound (h : Parsed script.toList commands ps segments)
    (hsound : scriptCommands script = some commands) : ∀ s ∈ segments,
      ∀ c, Piece.bare c ∈ s → isWhitespace c → isBlank c ∨ c = '\n' := by
  intro s hs c hmem hspace
  by_contra hlayout
  have hends := endsWord_of_space (Or.inl hspace) hlayout
  obtain ⟨-, hpieces⟩ := piece_of_kept_le h hsound (x := c) (fun _ _ p _ => count_space_le p hends)
    s hs
  have hpiece := hpieces _ hmem
  simp [Piece.kept, hspace, hends] at hpiece

/-- What is trimmed of a segment is blanks and line breaks. -/
theorem trimmed_of_sound (h : Parsed script.toList commands ps segments)
    (hsound : scriptCommands script = some commands) : ∀ s ∈ segments, s.trimmed = s.core := by
  intro s hs
  obtain ⟨lead, trail, heq, -, hlead, htrail, hhead, hlast⟩ := exists_strip Piece.isSpace s
  change s = lead ++ (s.trimmed ++ trail) at heq
  have hlayout (p : Piece) (hp : p ∈ lead ∨ p ∈ trail) (hspace : p.isSpace) : p.isLayout := by
    cases p with
    | bare c =>
      by_contra hnot
      simp only [Piece.isLayout, Bool.or_eq_true, decide_eq_true_eq] at hnot
      have hmem : .bare c ∈ s := by
        rw [heq]
        rcases hp with hp | hp
        · exact List.mem_append_left _ hp
        · exact List.mem_append_right _ (List.mem_append_right _ hp)
      have hkept : isWhitespace c = false := by
        by_contra hwhite
        exact hnot (noControl_of_sound h hsound s hs c hmem (by simpa using hwhite))
      have hends := endsWord_of_space (Or.inr hspace) hnot
      obtain ⟨hcount, -⟩ := piece_of_kept_le h hsound (x := c)
        (fun _ _ p _ => count_space_le p hends) s hs
      have hpos : 0 < (lead.flatMap Piece.kept).count c + (trail.flatMap Piece.kept).count c := by
        rcases hp with hp | hp
        · refine Nat.add_pos_left (List.count_pos_iff.2 (List.mem_flatMap.2 ⟨_, hp, ?_⟩)) _
          simp [Piece.kept, hkept]
        · refine Nat.add_pos_right _ (List.count_pos_iff.2 (List.mem_flatMap.2 ⟨_, hp, ?_⟩))
          simp [Piece.kept, hkept]
      have hsum : (s.flatMap Piece.kept).count c = (lead.flatMap Piece.kept).count c +
          ((s.trimmed.flatMap Piece.kept).count c + (trail.flatMap Piece.kept).count c) := by
        conv_lhs => rw [heq]
        simp only [List.flatMap_append, List.count_append]
      omega
    | escaped c => cases hspace
    | single cs => cases hspace
    | double ds => cases hspace
  have hne : s.trimmed ≠ [] := by
    obtain ⟨word, rest, hwords, -⟩ := h.command s hs
    rintro hempty
    rw [hempty] at hwords
    cases hwords
  have hnot (p : Piece) (hp : p.isSpace = false) : p.isLayout = false := by
    by_contra hl
    rw [isSpace_of_isLayout (by simpa using hl)] at hp
    cases hp
  have hcore := strip_eq (fun p hp => hlayout p (Or.inl hp) (hlead p hp))
    (fun p hp => hlayout p (Or.inr hp) (htrail p hp)) hne (fun p hp => hnot p (hhead p hp))
    fun p hp => hnot p (hlast p hp)
  rw [← heq] at hcore
  exact hcore.symm

end Converse

/-! ### The lines -/

theorem inLine_tokens (ps : Segment) (word : Option Word) :
    ∀ t ∈ Segment.tokens word ps, t.InLine := by
  induction ps generalizing word with
  | nil => cases word <;> simp [Segment.tokens, flush, Token.InLine]
  | cons p ps ih =>
    have hflush : ∀ t ∈ flush word, t.InLine := by
      cases word <;> simp [flush, Token.InLine]
    cases p with
    | bare c =>
      rw [Segment.tokens]
      split_ifs
      · exact List.forall_mem_append.2 ⟨hflush, ih none⟩
      · refine List.forall_mem_append.2 ⟨hflush, ?_⟩
        rintro t (_ | ⟨_, ht⟩)
        · trivial
        · exact ih none t ht
      · exact ih _
    | escaped c => exact ih _
    | single cs => exact ih _
    | double ds => exact ih _

theorem newline_mem_tokens {ps : Segment} (h : .bare '\n' ∈ ps) (word : Option Word) :
    .newline ∈ Segment.tokens word ps := by
  induction ps generalizing word with
  | nil => cases h
  | cons p ps ih =>
    cases p with
    | bare c =>
      by_cases hbreak : c = '\n'
      · subst hbreak
        simp [Segment.tokens, isBlank]
      · have h := (List.mem_cons.1 h).resolve_left (by simpa using Ne.symm hbreak)
        rw [Segment.tokens]
        split_ifs
        · exact List.mem_append_right _ (ih h none)
        · exact ih h _
    | escaped c => exact ih ((List.mem_cons.1 h).resolve_left (by simp)) _
    | single cs => exact ih ((List.mem_cons.1 h).resolve_left (by simp)) _
    | double ds => exact ih ((List.mem_cons.1 h).resolve_left (by simp)) _

/-- Pieces that end in no blank end in a word. -/
theorem tokens_getLast {ps : Segment} (hne : ps ≠ [])
    (hlast : ∀ p, ps.getLast? = some p → p.isLayout = false) (word : Option Word) :
    ∃ w, (Segment.tokens word ps).getLast? = some (.word w) := by
  induction ps generalizing word with
  | nil => exact absurd rfl hne
  | cons p ps ih =>
    rcases ps with _ | ⟨q, ps⟩
    · exact ⟨word.getD [] ++ p.marks, by
        rw [tokens_cons (hlast p rfl)]
        rfl⟩
    · have ih := ih (by simp) hlast
      cases p with
      | bare c =>
        rw [Segment.tokens]
        obtain ⟨w, hw⟩ := ih none
        split_ifs
        · exact ⟨w, by rw [List.getLast?_append, hw]; rfl⟩
        · exact ⟨w, by rw [List.getLast?_append, List.getLast?_cons, hw]; rfl⟩
        · exact ih _
      | escaped c => exact ih _
      | single cs => exact ih _
      | double ds => exact ih _

/-- All that a plain segment has to be but one line of a command that is no reserved word. -/
structure Segment.Ready (segment : Segment) : Prop where
  read : segment.Read
  alike : segment.ReadAlike
  nonempty : segment.core ≠ []
  noTrimmed : ∀ c, segment.core.head? = some (.bare c) ∨ segment.core.getLast? = some (.bare c) →
    isJsWhitespace c = false
  noComment : segment.commentFree true

def isNewline : Token → Bool
  | .newline => true
  | _ => false

/-- A segment whose line is line breaks, words and line breaks is plain, if they make a command. -/
theorem Segment.Ready.plain {segment : Segment} (h : segment.Ready) {last : Bool} {n m : ℕ}
    {ws : List Word} (hline : segment.tokens none = line n ws ++ List.replicate m .newline)
    (hlast : last = false → m = 0) (harguments : (arguments ws).isSome) :
    PlainSegment last segment := by
  obtain ⟨lead, trail, heq, hdrop, hlead, htrail, hhead, hend⟩ :=
    exists_strip Piece.isLayout segment
  change segment = lead ++ (segment.core ++ trail) at heq
  have hbreaks (k : ℕ) : ∀ t ∈ List.replicate k Token.newline, isNewline t := by
    intro t ht
    rw [List.eq_of_mem_replicate ht]
    rfl
  obtain ⟨ts, hfirst⟩ := firstWord_tokens h.nonempty hhead
  obtain ⟨w, hw⟩ := tokens_getLast h.nonempty hend none
  -- the words of the line are those of the core
  have hcore : segment.core.tokens none = ws.map Token.word := by
    have htokens : segment.tokens none = List.replicate (Segment.breaks lead) .newline ++
        (segment.core.tokens none ++ List.replicate (Segment.breaks trail) .newline) := by
      conv_lhs => rw [heq]
      rw [tokens_lead hlead, tokens_trail htrail]
    have hstrip := strip_eq (hbreaks (Segment.breaks lead)) (hbreaks (Segment.breaks trail))
      (l := segment.core.tokens none) (by simp [hfirst]) (by simp [hfirst, isNewline])
      (by simp [hw, isNewline])
    have hws : ws ≠ [] := by
      rintro rfl
      have hmem : Token.word (Segment.marks (segment.core.takeWhile fun p => !p.isLayout)) ∈
          segment.tokens none := by
        rw [htokens, hfirst]
        simp
      rw [hline] at hmem
      simp [line] at hmem
    rw [← htokens, hline, line, List.append_assoc] at hstrip
    rw [← hstrip]
    refine strip_eq (hbreaks n) (hbreaks m) (by simpa using hws) ?_ ?_
    · cases ws <;> simp [isNewline]
    · intro t ht
      obtain ⟨w, -, rfl⟩ := List.mem_map.1 (List.mem_of_getLast? ht)
      rfl
  have hno : .bare '\n' ∉ segment.core := by
    intro hmem
    have hmem := newline_mem_tokens hmem none
    rw [hcore] at hmem
    simp at hmem
  have hreserved : ∀ r ∈ reservedWords, segment.firstWord ≠ r.toList.map .bare := by
    intro r hr hword
    have hcontinued : .escaped '\n' ∉ segment.firstWord := fun hmem =>
      h.read.noContinuation.1 (mem_strip ((List.takeWhile_sublist _).subset hmem))
    have hreserved := (isReserved_firstWord hcontinued).2 ⟨r, hr, hword⟩
    rw [hcore] at hfirst
    cases ws with
    | nil => cases hfirst
    | cons w ws =>
      obtain rfl : w = segment.firstWord.marks := Token.word.inj (List.cons.inj hfirst).1
      simp [arguments, hreserved] at harguments
  have htrail : last = false → .bare '\n' ∉ trail := by
    intro hlast' hmem
    obtain rfl := hlast hlast'
    have htokens : segment.tokens none = List.replicate (Segment.breaks lead) .newline ++
        (ws.map Token.word ++ List.replicate (Segment.breaks trail) .newline) := by
      conv_lhs => rw [heq]
      rw [tokens_lead hlead, tokens_trail htrail, hcore]
    rw [hline, List.replicate_zero, List.append_nil, line] at htokens
    have hbreak : 0 < Segment.breaks trail := List.count_pos_iff.2 hmem
    have hend := congrArg List.getLast? htokens
    rw [hcore] at hw
    simp [List.getLast?_append, hw, List.getLast?_replicate, hbreak.ne'] at hend
  exact
    { allowed := h.read.formed
      nonempty := h.nonempty
      operatorFree := h.read.operatorFree
      oneLine := by
        cases last with
        | true => exact hno
        | false =>
          rw [if_neg Bool.false_ne_true, hdrop, List.mem_append, not_or]
          exact ⟨hno, htrail rfl⟩
      noContinuation := h.read.noContinuation
      quotesOnly := h.alike.quotesOnly
      noControl := h.alike.noControl
      noTrimmed := h.noTrimmed
      noComment := h.noComment
      noReserved := hreserved }

theorem Segment.Ready.word_mem {segment : Segment} (h : segment.Ready) :
    ∃ w, .word w ∈ segment.tokens none := by
  obtain ⟨lead, trail, heq, -, hlead, htrail, hhead, -⟩ := exists_strip Piece.isLayout segment
  change segment = lead ++ (segment.core ++ trail) at heq
  obtain ⟨ts, hfirst⟩ := firstWord_tokens h.nonempty hhead
  refine ⟨segment.firstWord.marks, ?_⟩
  rw [heq, tokens_lead hlead, tokens_trail htrail, ← heq, hfirst]
  exact List.mem_append_right _ List.mem_cons_self

theorem Segment.Ready.marks_head {segment : Segment} (h : segment.Ready) (ps : Segment) :
    (Segment.marks (segment ++ ps)).head? ≠ some (.bare '|') ∧
      (Segment.marks (segment ++ ps)).head? ≠ some (.bare ';') := by
  rcases segment with _ | ⟨p, qs⟩
  · exact absurd rfl h.nonempty
  cases p with
  | bare c => simpa [Piece.marks] using (h.read.operatorFree c List.mem_cons_self).2
  | escaped c =>
    have hc : c ≠ '\n' := by
      rintro rfl
      exact h.read.noContinuation.1 List.mem_cons_self
    simp [Piece.marks, hc]
  | single cs => simp [Piece.marks]
  | double ds => simp [Piece.marks]

theorem Cut.marks_head {ps : Segment} {segments : List Segment} (h : Cut ps segments)
    (hready : ∀ segment ∈ segments, segment.Ready) :
    ps.marks.head? ≠ some (.bare '|') ∧ ps.marks.head? ≠ some (.bare ';') := by
  cases h with
  | last segment => simpa using (hready _ List.mem_cons_self).marks_head []
  | cons segment mem tail => exact (hready _ List.mem_cons_self).marks_head _

/-- There is a command to each segment, and where there is no other the script is plain. -/
theorem plain_of_cut {ps : Segment} {segments : List Segment} (h : Cut ps segments)
    (hready : ∀ segment ∈ segments, segment.Ready) {required : Bool} {cs : List (List Word)}
    (hcs : commands [] required (Shell.tokens false none ps.marks) = some cs) :
    segments.length ≤ cs.length ∧ (cs.length = segments.length → Plain ps.text) := by
  induction h generalizing required cs with
  | last segment =>
    have hsegment := hready segment List.mem_cons_self
    have htokens := @tokens_segment segment hsegment.read [] (by simp) none
    rw [List.append_nil] at htokens
    obtain ⟨w, hw⟩ := hsegment.word_mem
    rw [htokens, Shell.tokens, flush, Option.map_none, Option.toList_none, List.append_nil] at hcs
    have hpos : cs ≠ [] := by
      rintro rfl
      obtain ⟨n, hn⟩ := breaks_of_commands (inLine_tokens segment none) hcs
      rw [hn] at hw
      cases List.eq_of_mem_replicate hw
    refine ⟨List.length_pos_iff.2 hpos, fun hlength => ?_⟩
    obtain ⟨n, ws, m, hline, -, harguments⟩ :=
      lastLine_of_commands (inLine_tokens segment none) hcs hlength.le (Or.inr ⟨w, hw⟩)
    exact .last (hsegment.plain hline (by simp) harguments)
  | @cons segment operator ps segments mem tail ih =>
    have hsegment := hready segment List.mem_cons_self
    have hrest := fun s hs => hready s (List.mem_cons_of_mem segment hs)
    obtain ⟨sep, hsep, hoperated⟩ := tokens_operator mem (tail.marks_head hrest)
    rw [Segment.marks_append, Segment.marks_append, marks_operator,
      tokens_segment hsegment.read (head_operator mem), hoperated] at hcs
    obtain ⟨cs', required', hcs', hlength, hone⟩ :=
      line_of_commands hsep (inLine_tokens segment none) hcs
    obtain ⟨hle, hplain⟩ := ih hrest hcs'
    rw [List.length_cons]
    refine ⟨by omega, fun hlength' => ?_⟩
    obtain ⟨n, ws, hline, -, harguments⟩ := hone (by omega)
    have hplainSegment : PlainSegment false segment :=
      hsegment.plain (m := 0) (by simpa using hline) (fun _ => rfl) harguments
    have htext := Plain.cons hplainSegment mem (hplain (by omega))
    rwa [Segment.text_append, Segment.text_append, text_operator]

/-! ### A script that runs what it parses as is plain -/

theorem commentFree_cut {ps : Segment} {segments : List Segment} (h : Cut ps segments)
    (hfree : Segment.commentFree true ps) : ∀ s ∈ segments, Segment.commentFree true s := by
  induction h with
  | last segment =>
    rintro s (_ | ⟨_, ⟨⟩⟩)
    exact hfree
  | @cons segment operator ps segments mem tail ih =>
    obtain ⟨c, cs, hc, rfl⟩ := exists_operator mem
    rw [List.map_cons, List.cons_append, commentFree_append hc, Bool.and_eq_true] at hfree
    have hps : Segment.commentFree true ps := by
      simp only [operators, List.mem_cons, List.not_mem_nil, or_false, List.cons.injEq] at mem
      rcases mem with ⟨rfl, rfl⟩ | ⟨rfl, rfl⟩ | ⟨rfl, rfl⟩ | ⟨rfl, rfl⟩ <;>
        simpa [Segment.commentFree, endsWord, isOperator] using hfree.2
    rintro s (_ | ⟨_, hs⟩)
    · exact hfree.1
    · exact ih hps s hs

theorem ready_of_sound {script : String} {commands : List (List String)} {ps : Segment}
    {segments : List Segment} (h : Parsed script.toList commands ps segments)
    (hsound : scriptCommands script = some commands) : ∀ s ∈ segments, s.Ready := by
  intro s hs
  have htrimmed := trimmed_of_sound h hsound s hs
  have hcontinued := noContinuation_of_sound h hsound s hs
  obtain ⟨-, -, -, -, -, -, hhead, hlast⟩ := exists_strip Piece.isSpace s
  refine
    { read := ⟨fun p hp => h.allowed p (h.cut.mem s hs p hp), fun c hc => ⟨?_, ?_⟩, hcontinued⟩
      alike := ⟨hcontinued, quotesOnly_of_sound h hsound s hs, noControl_of_sound h hsound s hs⟩
      nonempty := ?_
      noTrimmed := ?_
      noComment := commentFree_cut h.cut (commentFree_of_sound h hsound) s hs }
  · rintro rfl
    exact noAmpersand_of_sound h hsound s hs hc
  · exact (h.isCut s hs).2 c hc
  · obtain ⟨word, rest, hwords, -⟩ := h.command s hs
    rw [← htrimmed]
    rintro hempty
    rw [hempty] at hwords
    cases hwords
  · rw [← htrimmed]
    rintro c (hc | hc)
    · exact hhead _ hc
    · exact hlast _ hc

theorem plain_of_sound {script : String} {commands : List (List String)}
    (hparse : parseScriptPlainCommands script = some commands)
    (hsound : scriptCommands script = some commands) : Plain script.toList := by
  obtain ⟨ps, segments, h⟩ := exists_parsed hparse
  obtain ⟨ms, cs, hms, hcs, hcommands, -⟩ := commands_chars_eq hsound
  rw [h.text, marks_text h.allowed (commentFree_of_sound h hsound)] at hms
  cases hms
  rw [h.text]
  refine (plain_of_cut h.cut (ready_of_sound h hsound) hcs).2 ?_
  have hlength := congrArg List.length (hcommands.symm.trans h.commands)
  simpa using hlength

/-! ### What is decided by the words of a script -/

theorem commands_of_knownSafe {script : String} (h : isKnownSafeCommand ["bash", "-lc", script]) :
    ∃ commands, parseScriptPlainCommands script = some commands ∧
      ∀ command ∈ commands, isSafeToCallWithExec command := by
  by_cases hzsh : script = "zsh"
  · subst hzsh
    exact absurd h (by decide)
  have hshell (text : String) : isSafeToCallWithExec ["bash", "-lc", text] = false := by
    simp [isSafeToCallWithExec, show executableNameLookupKey "bash" = some "bash" by decide,
      alwaysSafeCommands]
  have hscript : parseShellLcPlainCommands ["bash", "-lc", script] =
      parseScriptPlainCommands script := by
    simp [parseShellLcPlainCommands, extractBashCommand, knownShells,
      show basename "bash" = "bash" by decide]
  have hnormal : ["bash", "-lc", script].map (fun token => if token = "zsh" then "bash" else token)
      = ["bash", "-lc", script] := by
    simp [hzsh]
  unfold isKnownSafeCommand at h
  rw [hnormal] at h
  dsimp only at h
  rw [hshell, if_neg Bool.false_ne_true, hscript] at h
  cases hparse : parseScriptPlainCommands script with
  | none =>
    rw [hparse] at h
    cases h
  | some commands =>
    rw [hparse] at h
    simp only [Bool.and_eq_true, List.all_eq_true] at h
    exact ⟨commands, rfl, h.2⟩

theorem prefix_of_zip {argv target : List String} (hlength : argv.length ≤ target.length)
    (h : ∀ pair ∈ argv.zip target, pair.1 = pair.2) : argv <+: target := by
  induction argv generalizing target with
  | nil => exact List.nil_prefix
  | cons token argv ih =>
    cases target with
    | nil => simp at hlength
    | cons word target =>
      rw [List.zip_cons_cons] at h
      obtain rfl : token = word := h (token, word) List.mem_cons_self
      have hrest := ih (by simpa using hlength) fun pair hpair =>
        h pair (List.mem_cons_of_mem _ hpair)
      exact List.cons_prefix_cons.2 ⟨rfl, hrest⟩

theorem command_of_matchArgvPrefix {script : String} {argv : List String}
    (h : matchArgvPrefix script argv) :
    ∃ command, parseScriptPlainCommands script = some [command] ∧ argv <+: command := by
  unfold matchArgvPrefix at h
  split at h
  · next target hparse =>
    split_ifs at h with hlength
    refine ⟨target, hparse, prefix_of_zip (by omega) ?_⟩
    simpa [List.all_eq_true] using h
  · cases h

/-- Of the scripts that parse, what is decided by the parsed words is decided by what the shell
runs exactly for the plain ones. -/
theorem wordOnly_iff {script : String} {commands : List (List String)}
    (h : parseScriptPlainCommands script = some commands) :
    WordOnly script ↔ Plain script.toList := by
  constructor
  · intro hword
    exact plain_of_sound h (hword.sound commands h)
  · intro hplain
    refine ⟨fun commands hparse => scriptCommands_of_plain hparse hplain, fun hsafe => ?_,
      fun argv hmatch => ?_⟩
    · obtain ⟨commands, hparse, hcommands⟩ := commands_of_knownSafe hsafe
      exact ⟨commands, scriptCommands_of_plain hparse hplain, hcommands⟩
    · obtain ⟨command, hparse, hcommand⟩ := command_of_matchArgvPrefix hmatch
      exact ⟨command, scriptCommands_of_plain hparse hplain, hcommand⟩

theorem wordOnly_pipeline : WordOnly "ls -a 'b c' | wc" :=
  have hparse : parseScriptPlainCommands "ls -a 'b c' | wc" =
      some [["ls", "-a", "b c"], ["wc"]] := by decide
  (wordOnly_iff hparse).2 (plain_of_sound hparse (by decide))

/-- After a line break comes another command, which the whitelist takes for arguments. -/
theorem lineBreak_not_wordOnly : ¬∀ script commands,
    parseScriptPlainCommands script = some commands → WordOnly script := by
  intro h
  have hknown := (h "ls\nrm x" [["ls", "rm", "x"]] (by decide)).knownSafe (by decide)
  obtain ⟨commands, hcommands, hsafe⟩ := hknown
  obtain rfl : commands = [["ls"], ["rm", "x"]] :=
    Option.some.inj (hcommands.symm.trans (by decide))
  exact absurd (hsafe ["rm", "x"] (by decide)) (by decide)

end Kinetick.Permission
