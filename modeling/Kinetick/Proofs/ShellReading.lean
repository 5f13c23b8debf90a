import Kinetick.Shell.Posix
import Mathlib.Data.List.Count

/-!
# Tokens and commands

What a reading keeps of the characters of a script, and how the commands of a list follow from the
tokens of its lines: a line of words after line breaks is one command, and a list has no fewer
commands than lines (`commands_line`, `commands_lastLine`).
-/

namespace Kinetick.Shell

/-! ### What is kept of the characters -/

@[simp] theorem Mark.char_bare (c : Char) : (Mark.bare c).char = some c := rfl

@[simp] theorem Mark.char_quoted (c : Char) : (Mark.quoted c).char = some c := rfl

@[simp] theorem Mark.char_quote : Mark.quote.char = none := rfl

/-- What becomes part of a word. -/
def Mark.kept : Mark → List Char
  | bare c => if endsWord c then [] else [c]
  | quoted c => [c]
  | quote => []

def Token.chars : Token → List Char
  | word w => w.filterMap Mark.char
  | _ => []

theorem chars_flush (word : Option Word) :
    (flush word).flatMap Token.chars = (word.getD []).filterMap Mark.char := by
  cases word <;> simp [flush, Token.chars]

theorem operator_chars (c : Char) (next : Option Mark) : (operator c next).1.chars = [] := by
  unfold operator
  split_ifs <;> rfl

theorem operator_next {c : Char} {next : Option Mark} (h : (operator c next).2 = true) :
    ∃ d, next = some (.bare d) ∧ endsWord d := by
  unfold operator at h
  split_ifs at h with hand hnext hpipe
  · exact ⟨'&', hnext, rfl⟩
  · exact ⟨'|', by simpa using h, rfl⟩

/-- The words of a script are made of what its marks keep. -/
theorem tokens_chars {skip : Bool} {ms : List Mark}
    (hskip : skip = true → ∃ d, ms.head? = some (.bare d) ∧ endsWord d) (word : Option Word) :
    (tokens skip word ms).flatMap Token.chars =
      (if skip then [] else (word.getD []).filterMap Mark.char) ++ ms.flatMap Mark.kept := by
  induction ms generalizing skip word with
  | nil =>
    cases skip
    · simp [tokens, chars_flush]
    · simpa using hskip rfl
  | cons m ms ih =>
    have hfalse (word : Option Word) := @ih false nofun word
    cases m with
    | quoted c =>
      cases skip
      · simp [tokens, hfalse, Mark.kept, Mark.char]
      · simpa using hskip rfl
    | quote =>
      cases skip
      · simp [tokens, hfalse, Mark.kept, Mark.char]
      · simpa using hskip rfl
    | bare c =>
      cases skip
      case true =>
        obtain ⟨d, hd, hends⟩ := hskip rfl
        obtain rfl : c = d := by simpa using hd
        simp [tokens, hfalse, Mark.kept, hends]
      have hends : endsWord c = (isBlank c || c = '\n' || isOperator c) := rfl
      rw [tokens]
      simp only [Bool.false_eq_true, ↓reduceIte]
      by_cases hblank : isBlank c
      · simp [hblank, hfalse, chars_flush, Mark.kept, hends]
      by_cases hbreak : c = '\n'
      · simp [hbreak, hfalse, chars_flush, Mark.kept, Token.chars, isBlank,
          show endsWord '\n' = true from rfl]
      by_cases hoperator : isOperator c
      · have hrest := @ih (operator c ms.head?).2 operator_next none
        rw [if_neg hblank, if_neg hbreak, if_pos hoperator, List.flatMap_append, chars_flush,
          List.flatMap_cons, operator_chars, hrest]
        simp [Mark.kept, hends, hoperator]
      · simp [hblank, hbreak, hoperator, hfalse, Mark.kept, hends, Mark.char]

theorem arguments_eq_some {words ws : List Word} (h : arguments words = some ws) : ws = words := by
  unfold arguments at h
  split_ifs at h
  exact (Option.some.inj h).symm

/-- The command that ends at a token, and the commands after it. -/
theorem command_ends {words : List Word} {required : Bool} {ts : List Token}
    {cs : List (List Word)}
    (h : (do return (← arguments words) :: (← commands [] required ts)) = some cs) :
    (arguments words).isSome ∧ ∃ rest, commands [] required ts = some rest ∧ cs = words :: rest := by
  cases hwords : arguments words with
  | none => rw [hwords] at h; cases h
  | some ws =>
    obtain rfl := arguments_eq_some hwords
    cases hrest : commands [] required ts with
    | none => rw [hwords, hrest] at h; cases h
    | some rest =>
      rw [hwords, hrest] at h
      cases h
      exact ⟨rfl, rest, rfl, rfl⟩

/-- The commands of a list are made of what its tokens are. -/
theorem commands_chars {ts : List Token} {words : List Word} {required : Bool}
    {cs : List (List Word)} (h : commands words required ts = some cs) :
    cs.flatten.flatMap (List.filterMap Mark.char) =
      words.flatMap (List.filterMap Mark.char) ++ ts.flatMap Token.chars := by
  induction ts generalizing words required cs with
  | nil =>
    unfold commands at h
    split_ifs at h with hempty
    · cases h
      simp [hempty]
    · obtain ⟨ws, hws, rfl⟩ := Option.map_eq_some_iff.1 h
      simp [arguments_eq_some hws]
  | cons t ts ih =>
    cases t with
    | word w => simpa [Token.chars] using ih h
    | newline =>
      unfold commands at h
      split_ifs at h with hempty
      · simpa [hempty, Token.chars] using ih h
      · obtain ⟨-, rest, hrest, rfl⟩ := command_ends h
        simpa [Token.chars] using ih hrest
    | separator =>
      unfold commands at h
      split_ifs at h with hempty
      obtain ⟨-, rest, hrest, rfl⟩ := command_ends h
      simpa [Token.chars] using ih hrest
    | connective =>
      unfold commands at h
      split_ifs at h with hempty
      obtain ⟨-, rest, hrest, rfl⟩ := command_ends h
      simpa [Token.chars] using ih hrest
    | otherOperator => cases h

/-! ### Lines of words -/

/-- A word or a line break. -/
def Token.InLine : Token → Prop
  | word _ => True
  | newline => True
  | _ => False

/-- A token that ends a command and after which comes another. -/
def Token.EndsCommand : Token → Prop
  | separator => True
  | connective => True
  | _ => False

def line (breaks : ℕ) (ws : List Word) : List Token :=
  List.replicate breaks .newline ++ ws.map .word

variable {words ws : List Word} {required : Bool} {ts rest : List Token}

theorem commands_words : commands words required (ws.map .word ++ ts) =
    commands (words ++ ws) required ts := by
  induction ws generalizing words with
  | nil => simp
  | cons w ws ih => simp [commands, ih]

theorem commands_breaks (n : ℕ) :
    commands [] required (List.replicate n .newline ++ ts) = commands [] required ts := by
  induction n with
  | zero => rfl
  | succ n ih => simpa [List.replicate_succ, commands] using ih

/-- A line of words is a command, and what comes after its end makes the rest. -/
theorem commands_line {sep : Token} {cs : List (List Word)} (hsep : sep.EndsCommand)
    (hws : ws ≠ []) (harguments : arguments ws = some ws)
    (hrest : ∀ required, commands [] required ts = some cs) (n : ℕ) :
    commands [] required (line n ws ++ sep :: ts) = some (ws :: cs) := by
  rw [line, List.append_assoc, commands_breaks, commands_words, List.nil_append]
  cases sep with
  | word => cases hsep
  | newline => cases hsep
  | separator => simp [commands, hws, harguments, hrest]
  | connective => simp [commands, hws, harguments, hrest]
  | otherOperator => cases hsep

/-- The last line may have line breaks after it. -/
theorem commands_lastLine (hws : ws ≠ []) (harguments : arguments ws = some ws) (n m : ℕ) :
    commands [] required (line n ws ++ List.replicate m .newline) = some [ws] := by
  rw [line, List.append_assoc, commands_breaks, commands_words, List.nil_append]
  cases m with
  | zero => simp [commands, hws, harguments]
  | succ m =>
    have hbreaks := @commands_breaks false [] m
    rw [List.append_nil] at hbreaks
    simp [List.replicate_succ, commands, hws, harguments, hbreaks]

/-- Where a line ends a command, there is no fewer than one, and if there is one the line is line
breaks and words. -/
theorem line_of_commands {sep : Token} {cs : List (List Word)} (hsep : sep.EndsCommand)
    (hline : ∀ t ∈ ts, t.InLine) (h : commands words required (ts ++ sep :: rest) = some cs) :
    ∃ cs' required', commands [] required' rest = some cs' ∧ cs'.length < cs.length ∧
      (cs.length = cs'.length + 1 → ∃ n ws, ts = line n ws ∧ (words ≠ [] → n = 0) ∧
        (arguments (words ++ ws)).isSome) := by
  induction ts generalizing words required cs with
  | nil =>
    rw [List.nil_append] at h
    have hends : words ≠ [] ∧ ∃ required',
        (do return (← arguments words) :: (← commands [] required' rest)) = some cs := by
      cases sep with
      | word => cases hsep
      | newline => cases hsep
      | separator =>
        unfold commands at h
        split_ifs at h with hempty
        exact ⟨hempty, false, h⟩
      | connective =>
        unfold commands at h
        split_ifs at h with hempty
        exact ⟨hempty, true, h⟩
      | otherOperator => cases hsep
    obtain ⟨hempty, required', h⟩ := hends
    obtain ⟨harguments, cs', hrest, rfl⟩ := command_ends h
    exact ⟨cs', required', hrest, by simp, fun _ => ⟨0, [], rfl, fun _ => rfl, by simpa⟩⟩
  | cons t ts ih =>
    have htail : ∀ t ∈ ts, t.InLine := fun t ht => hline t (List.mem_cons_of_mem _ ht)
    have ht := hline t List.mem_cons_self
    cases t with
    | word w =>
      obtain ⟨cs', required', hrest, hlength, hone⟩ := ih htail h
      refine ⟨cs', required', hrest, hlength, fun heq => ?_⟩
      obtain ⟨n, ws, rfl, hzero, harguments⟩ := hone heq
      obtain rfl := hzero (by simp)
      exact ⟨0, w :: ws, rfl, fun _ => rfl, by simpa using harguments⟩
    | newline =>
      rw [List.cons_append] at h
      unfold commands at h
      split_ifs at h with hempty
      · obtain ⟨cs', required', hrest, hlength, hone⟩ := ih htail h
        refine ⟨cs', required', hrest, hlength, fun heq => ?_⟩
        obtain ⟨n, ws, rfl, -, harguments⟩ := hone heq
        exact ⟨n + 1, ws, rfl, fun hne => absurd hempty hne, by simpa [hempty] using harguments⟩
      · obtain ⟨-, more, hmore, rfl⟩ := command_ends h
        obtain ⟨cs', required', hrest, hlength, -⟩ := ih htail hmore
        refine ⟨cs', required', hrest, ?_, ?_⟩ <;> rw [List.length_cons] <;> omega
    | separator => cases ht
    | connective => cases ht
    | otherOperator => cases ht

theorem commands_ne_nil {cs : List (List Word)} (hwords : words ≠ [])
    (h : commands words required ts = some cs) : cs ≠ [] := by
  rintro rfl
  induction ts generalizing words with
  | nil => simp [commands, hwords] at h
  | cons t ts ih =>
    cases t with
    | word w => exact ih (by simp) h
    | newline =>
      unfold commands at h
      rw [if_neg hwords] at h
      obtain ⟨-, rest, -, hrest⟩ := command_ends h
      cases hrest
    | separator =>
      unfold commands at h
      rw [if_neg hwords] at h
      obtain ⟨-, rest, -, hrest⟩ := command_ends h
      cases hrest
    | connective =>
      unfold commands at h
      rw [if_neg hwords] at h
      obtain ⟨-, rest, -, hrest⟩ := command_ends h
      cases hrest
    | otherOperator => cases h

/-- What has no command is line breaks. -/
theorem breaks_of_commands (hline : ∀ t ∈ ts, t.InLine) (h : commands [] required ts = some []) :
    ∃ n, ts = List.replicate n .newline := by
  induction ts generalizing required with
  | nil => exact ⟨0, rfl⟩
  | cons t ts ih =>
    have htail : ∀ t ∈ ts, t.InLine := fun t ht => hline t (List.mem_cons_of_mem _ ht)
    have ht := hline t List.mem_cons_self
    cases t with
    | word w => exact absurd rfl (@commands_ne_nil [w] required ts [] (by simp) h)
    | newline =>
      obtain ⟨n, rfl⟩ := ih htail h
      exact ⟨n + 1, rfl⟩
    | separator => cases ht
    | connective => cases ht
    | otherOperator => cases ht

/-- Where the last line makes one command at most, it is line breaks, words and line breaks. -/
theorem lastLine_of_commands {cs : List (List Word)} (hline : ∀ t ∈ ts, t.InLine)
    (h : commands words required ts = some cs) (hlength : cs.length ≤ 1)
    (hword : words ≠ [] ∨ ∃ w, .word w ∈ ts) :
    ∃ n ws m, ts = line n ws ++ List.replicate m .newline ∧ (words ≠ [] → n = 0) ∧
      (arguments (words ++ ws)).isSome := by
  induction ts generalizing words required with
  | nil =>
    have hwords : words ≠ [] := hword.resolve_right (by simp)
    unfold commands at h
    rw [if_neg hwords] at h
    obtain ⟨ws, hws, -⟩ := Option.map_eq_some_iff.1 h
    exact ⟨0, [], 0, rfl, fun _ => rfl, by simp [hws]⟩
  | cons t ts ih =>
    have htail : ∀ t ∈ ts, t.InLine := fun t ht => hline t (List.mem_cons_of_mem _ ht)
    have ht := hline t List.mem_cons_self
    cases t with
    | word w =>
      obtain ⟨n, ws, m, rfl, hzero, harguments⟩ := ih htail h (Or.inl (by simp))
      obtain rfl := hzero (by simp)
      exact ⟨0, w :: ws, m, rfl, fun _ => rfl, by simpa using harguments⟩
    | newline =>
      unfold commands at h
      split_ifs at h with hempty
      · obtain ⟨w, hw⟩ := hword.resolve_left (by simp [hempty])
        obtain ⟨n, ws, m, rfl, -, harguments⟩ :=
          ih htail h (Or.inr ⟨w, by simpa using hw⟩)
        exact ⟨n + 1, ws, m, rfl, fun hne => absurd hempty hne, by simpa [hempty] using harguments⟩
      · obtain ⟨harguments, rest, hrest, rfl⟩ := command_ends h
        obtain rfl : rest = [] := by simpa using hlength
        obtain ⟨m, rfl⟩ := breaks_of_commands htail hrest
        exact ⟨0, [], m + 1, by simp [line, List.replicate_succ], fun _ => rfl, by simpa⟩
    | separator => cases ht
    | connective => cases ht
    | otherOperator => cases ht

end Kinetick.Shell
