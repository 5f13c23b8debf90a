import Kinetick.Edit.LineNumbers
import Mathlib.Data.List.Forall2
import Mathlib.Data.List.TakeWhile
import Mathlib.Tactic.SplitIfs
import Mathlib.Tactic.Linarith

/-!
# The numbers of lines come off again

The rows of a block are its lines, each behind its number. The prefix comes off a row where the line
has no character that ends a line for a regular expression: the carriage return is one, and stays in
the row.
-/

namespace Kinetick

namespace LineNumbers

/-! ## Texts of lines -/

/-- Lines as a text is cut into them, where the text ends in a line feed or does not. -/
structure Cut (lines : List (List Char)) (newline : Bool) : Prop where
  nonempty : lines ≠ []
  noFeed : ∀ line ∈ lines, '\n' ∉ line
  last : newline = false → lines.getLast? ≠ some []

variable {lines : List (List Char)} {newline : Bool} {content : List Char}

theorem joinLines_cons (line : List Char) (h : lines ≠ []) :
    joinLines (line :: lines) = line ++ '\n' :: joinLines lines := by
  rw [joinLines, List.intercalate_cons_of_ne_nil h]
  simp [joinLines]

theorem joinLines_concat (line : List Char) :
    joinLines (lines ++ [line]) = lines.flatMap (· ++ ['\n']) ++ line := by
  induction lines with
  | nil => exact List.intercalate_singleton
  | cons first lines ih =>
    rw [List.cons_append, joinLines_cons first (by simp), ih]
    simp

theorem mem_joinLines {line : List Char} {c : Char} (hline : line ∈ lines) (hc : c ∈ line) :
    c ∈ joinLines lines := by
  induction lines with
  | nil => cases hline
  | cons first lines ih =>
    by_cases hnil : lines = []
    · subst hnil
      rw [List.mem_singleton.1 hline] at hc
      simpa [joinLines] using hc
    · rw [joinLines_cons first hnil, List.mem_append, List.mem_cons]
      rcases List.mem_cons.1 hline with rfl | hline
      · exact .inl hc
      · exact .inr (.inr (ih hline))

theorem mem_line_of_mem_joinLines {c : Char} (h : c ∈ joinLines lines) (hc : c ≠ '\n') :
    ∃ line ∈ lines, c ∈ line := by
  induction lines with
  | nil => cases h
  | cons first lines ih =>
    by_cases hnil : lines = []
    · subst hnil
      exact ⟨first, List.mem_cons_self, by simpa [joinLines] using h⟩
    · rw [joinLines_cons first hnil, List.mem_append, List.mem_cons] at h
      rcases h with h | h | h
      · exact ⟨first, List.mem_cons_self, h⟩
      · exact absurd h hc
      · obtain ⟨line, hline, hmem⟩ := ih h
        exact ⟨line, List.mem_cons_of_mem _ hline, hmem⟩

theorem splitOn_joinLines (h : lines ≠ []) (hfeed : ∀ line ∈ lines, '\n' ∉ line) :
    (joinLines lines).splitOn '\n' = lines :=
  List.splitOn_intercalate '\n' hfeed h

theorem blockOf_true (h : lines ≠ []) : blockOf lines true = joinLines (lines ++ [[]]) := by
  obtain ⟨init, last, rfl⟩ : ∃ init last, lines = init ++ [last] :=
    ⟨_, _, (List.dropLast_append_getLast h).symm⟩
  rw [blockOf, joinLines_concat, joinLines_concat]
  simp

theorem Cut.ends (h : Cut lines newline) : endsWithNewline (blockOf lines newline) = newline := by
  cases newline with
  | true => simp [blockOf, endsWithNewline]
  | false =>
    obtain ⟨init, last, rfl⟩ : ∃ init last, lines = init ++ [last] :=
      ⟨_, _, (List.dropLast_append_getLast h.nonempty).symm⟩
    have hne : last ≠ [] := by simpa using h.last rfl
    have hfeed := h.noFeed last (by simp)
    obtain ⟨text, c, rfl⟩ : ∃ text c, last = text ++ [c] :=
      ⟨_, _, (List.dropLast_append_getLast hne).symm⟩
    have hc : c ≠ '\n' := fun hc => hfeed (by simp [hc])
    simpa [blockOf, endsWithNewline, joinLines_concat, ← List.append_assoc] using hc

theorem Cut.ne_nil (h : Cut lines newline) : blockOf lines newline ≠ [] := by
  cases newline with
  | true => simp [blockOf]
  | false =>
    obtain ⟨init, last, rfl⟩ : ∃ init last, lines = init ++ [last] :=
      ⟨_, _, (List.dropLast_append_getLast h.nonempty).symm⟩
    have hne : last ≠ [] := by simpa using h.last rfl
    simp [blockOf, joinLines_concat, hne]

theorem Cut.body (h : Cut lines newline) : bodyOf (blockOf lines newline) = joinLines lines := by
  rw [bodyOf, h.ends]
  cases newline <;> simp [blockOf]

theorem Cut.fileLines (h : Cut lines newline) : fileLines (blockOf lines newline) = lines := by
  rw [LineNumbers.fileLines, if_neg h.ne_nil, h.body]
  exact splitOn_joinLines h.nonempty h.noFeed

theorem splitOn_noFeed {line : List Char} (h : line ∈ content.splitOn '\n') : '\n' ∉ line := by
  induction content generalizing line with
  | nil =>
    rw [List.mem_singleton.1 h]
    exact List.not_mem_nil
  | cons c cs ih =>
    rw [List.splitOn_cons_eq_if_modifyHead] at h
    obtain ⟨first, rest, hsplit⟩ := List.exists_cons_of_ne_nil (List.splitOn_ne_nil '\n' cs)
    rw [hsplit] at h ih
    split_ifs at h with hc
    · rcases List.mem_cons.1 h with rfl | h
      · exact List.not_mem_nil
      · exact ih h
    · rcases List.mem_cons.1 h with rfl | h
      · rw [List.mem_cons, not_or]
        exact ⟨fun heq => hc (beq_iff_eq.2 heq.symm), ih List.mem_cons_self⟩
      · exact ih (List.mem_cons_of_mem _ h)

/-- A text is its lines, and a line feed where it ends in one. -/
theorem cut_content (h : content ≠ []) :
    Cut (fileLines content) (endsWithNewline content) ∧
      content = blockOf (fileLines content) (endsWithNewline content) := by
  have hlines : fileLines content = (bodyOf content).splitOn '\n' := if_neg h
  have hjoin : joinLines (fileLines content) = bodyOf content := by
    rw [hlines]
    exact List.intercalate_splitOn '\n'
  have hcontent : content = blockOf (fileLines content) (endsWithNewline content) := by
    rw [blockOf, hjoin, bodyOf]
    split_ifs with hends
    · obtain ⟨text, c, rfl⟩ : ∃ text c, content = text ++ [c] :=
        ⟨_, _, (List.dropLast_append_getLast h).symm⟩
      have hc : c = '\n' := by simpa [endsWithNewline] using hends
      simp [hc]
    · simp
  have hne : fileLines content ≠ [] := hlines ▸ List.splitOn_ne_nil '\n' _
  refine ⟨⟨hne, fun line hline => splitOn_noFeed (hlines ▸ hline), fun hends hlast => ?_⟩, hcontent⟩
  obtain ⟨init, last, hinit⟩ : ∃ init last, fileLines content = init ++ [last] :=
    ⟨_, _, (List.dropLast_append_getLast hne).symm⟩
  have hempty : last = [] := by simpa [hinit] using hlast
  rw [hinit, hends, hempty, blockOf, joinLines_concat] at hcontent
  rcases List.eq_nil_or_concat init with rfl | ⟨before, line, rfl⟩
  · exact h (by simpa using hcontent)
  · rw [hcontent] at hends
    simp [endsWithNewline] at hends

/-! ## The rows -/

section Rows

variable (format : ExponentFormat)

theorem numeral_ne_nil (n : ℕ) : numeral format n ≠ [] := by
  unfold numeral
  split_ifs
  · exact Nat.toDigits_ne_nil
  · exact List.ne_nil_of_mem (format.exponent n)

theorem numeral_chars (n : ℕ) {c : Char} (hc : c ∈ numeral format n) :
    c.isDigit ∨ c = 'e' ∨ c = '+' ∨ c = '.' := by
  unfold numeral at hc
  split_ifs at hc
  · exact .inl (Nat.isDigit_of_mem_toDigits (by decide) (by decide) hc)
  · exact format.chars n c hc

/-- A row is its line behind blanks, the number and the arrow. -/
theorem numberedLine_eq (n : ℕ) (line : List Char) :
    ∃ blanks, (∀ c ∈ blanks, c = ' ') ∧
      numberedLine format n line = blanks ++ (numeral format n ++ '→' :: line) := by
  unfold numberedLine
  simp only
  split_ifs
  · exact ⟨[], by simp, rfl⟩
  · refine ⟨List.replicate (6 - (numeral format n).length) ' ', ?_, ?_⟩
    · exact fun c hc => List.eq_of_mem_replicate hc
    · rw [List.append_assoc]

theorem numberedLine_noFeed (n : ℕ) {line : List Char} (h : '\n' ∉ line) :
    '\n' ∉ numberedLine format n line := by
  obtain ⟨blanks, hblanks, hrow⟩ := numberedLine_eq format n line
  have hblank : '\n' ∉ blanks := fun hmem => absurd (hblanks _ hmem) (by decide)
  have hnumeral : '\n' ∉ numeral format n :=
    fun hmem => absurd (numeral_chars format n hmem) (by decide)
  simp [hrow, hblank, hnumeral, h]

theorem numberedLine_ne (n : ℕ) (line : List Char) :
    numberedLine format n line ≠ [] ∧ numberedLine format n line ≠ line := by
  obtain ⟨blanks, -, hrow⟩ := numberedLine_eq format n line
  refine ⟨by simp [hrow], fun heq => ?_⟩
  have hlength := congrArg List.length (hrow.symm.trans heq)
  simp at hlength
  omega

theorem numberLines_ne_nil (n : ℕ) (h : lines ≠ []) : numberLines format n lines ≠ [] := by
  cases lines with
  | nil => exact absurd rfl h
  | cons line lines => exact nofun

theorem numberLines_noFeed (n : ℕ) (h : ∀ line ∈ lines, '\n' ∉ line) :
    ∀ row ∈ numberLines format n lines, '\n' ∉ row ∧ row ≠ [] := by
  induction lines generalizing n with
  | nil => exact nofun
  | cons line lines ih =>
    intro row hrow
    rcases List.mem_cons.1 hrow with rfl | hrow
    · refine ⟨numberedLine_noFeed format n (h line List.mem_cons_self), ?_⟩
      exact (numberedLine_ne format n line).1
    · exact ih (n + 1) (fun l hl => h l (List.mem_cons_of_mem _ hl)) row hrow

theorem numberLines_drop (n k : ℕ) :
    (numberLines format n lines).drop k = numberLines format (n + k) (lines.drop k) := by
  induction k generalizing n lines with
  | zero => rfl
  | succ k ih =>
    cases lines with
    | nil => rfl
    | cons line lines =>
      rw [numberLines, List.drop_succ_cons, List.drop_succ_cons, ih, Nat.add_right_comm]
      rfl

theorem numberLines_take (n k : ℕ) :
    (numberLines format n lines).take k = numberLines format n (lines.take k) := by
  induction k generalizing n lines with
  | zero => rfl
  | succ k ih =>
    cases lines with
    | nil => rfl
    | cons line lines =>
      rw [numberLines, List.take_succ_cons, ih]
      rfl

theorem Cut.numberLines (h : Cut lines newline) (n : ℕ) :
    Cut (numberLines format n lines) newline where
  nonempty := numberLines_ne_nil format n h.nonempty
  noFeed row hrow := (numberLines_noFeed format n h.noFeed row hrow).1
  last _ hlast := (numberLines_noFeed format n h.noFeed [] (List.mem_of_getLast? hlast)).2 rfl

theorem Cut.addLineNumbers (h : Cut lines newline) (startLine : ℤ) :
    addLineNumbers format (blockOf lines newline) startLine =
      blockOf (LineNumbers.numberLines format (baseLine startLine) lines) newline := by
  rw [LineNumbers.addLineNumbers, if_neg h.ne_nil]
  simp only [h.ends, h.body, splitOn_joinLines h.nonempty h.noFeed]
  cases newline <;> simp [blockOf]

end Rows

/-! ## Lines cut short -/

/-- The line as it is shown. -/
def shownLine (maxChars : ℕ) (line : List Char) : List Char := (truncateLine maxChars line).getD line

theorem shownLine_of_short {maxChars : ℕ} {line : List Char} (h : line.length ≤ maxChars) :
    shownLine maxChars line = line := by
  unfold shownLine truncateLine
  split_ifs <;> rfl

theorem shownLine_ne (maxChars : ℕ) {line : List Char} (hne : line ≠ []) :
    shownLine maxChars line ≠ [] := by
  unfold shownLine truncateLine
  split_ifs
  · exact hne
  · exact hne
  · exact List.append_ne_nil_of_right_ne_nil _ (by decide)

theorem shownLine_noFeed (maxChars : ℕ) {line : List Char} (h : '\n' ∉ line) :
    '\n' ∉ shownLine maxChars line := by
  unfold shownLine truncateLine
  split_ifs
  · exact h
  · exact h
  · have htaken : '\n' ∉ line.take maxChars := fun hmem => h (List.mem_of_mem_take hmem)
    have hsuffix : '\n' ∉ readLineTruncatedSuffix := by decide
    simp [htaken, hsuffix]

theorem Cut.shownLine (h : Cut lines newline) (maxChars : ℕ) :
    Cut (lines.map (shownLine maxChars)) newline where
  nonempty := by simpa using h.nonempty
  noFeed row hrow := by
    obtain ⟨line, hline, rfl⟩ := List.mem_map.1 hrow
    exact shownLine_noFeed maxChars (h.noFeed line hline)
  last hnewline hlast := by
    rw [List.getLast?_map, Option.map_eq_some_iff] at hlast
    obtain ⟨line, hline, hempty⟩ := hlast
    refine shownLine_ne maxChars (fun hnil => ?_) hempty
    exact h.last hnewline (hnil ▸ hline)

theorem Cut.truncate (h : Cut lines newline) (maxChars : ℕ) (startLine : ℤ) :
    (truncateLongLines (blockOf lines newline) maxChars startLine).text =
      blockOf (lines.map (LineNumbers.shownLine maxChars)) newline := by
  have hempty : LineNumbers.shownLine maxChars [] = [] := by simp [shownLine_of_short]
  rw [truncateLongLines, if_neg h.ne_nil]
  change joinLines (((blockOf lines newline).splitOn '\n').map (LineNumbers.shownLine maxChars)) = _
  cases newline with
  | true =>
    have hfeed : ∀ line ∈ lines ++ [[]], '\n' ∉ line := by
      intro line hline
      rcases List.mem_append.1 hline with hline | hline
      · exact h.noFeed line hline
      · rw [List.mem_singleton.1 hline]
        exact List.not_mem_nil
    rw [blockOf_true h.nonempty, blockOf_true (by simpa using h.nonempty),
      splitOn_joinLines (by simp) hfeed, List.map_append, List.map_singleton, hempty]
  | false =>
    have hsplit : (blockOf lines false).splitOn '\n' = lines := by
      simpa [blockOf] using splitOn_joinLines h.nonempty h.noFeed
    rw [hsplit]
    simp [blockOf]

/-! ## The prefix of a row -/

/-- What a line may have for a regular expression to match it whole. -/
def Matched (line : List Char) : Prop := line.all (!isLineTerminator ·) = true

instance (line : List Char) : Decidable (Matched line) := inferInstanceAs (Decidable (_ = true))

section Prefix

variable (format : ExponentFormat)

theorem numeral_not_blank (n : ℕ) (rest : List Char) :
    (numeral format n ++ rest).dropWhile isJsWhitespace = numeral format n ++ rest := by
  obtain ⟨c, cs, hnumeral⟩ := List.exists_cons_of_ne_nil (numeral_ne_nil format n)
  have hc := numeral_chars format n (hnumeral ▸ List.mem_cons_self)
  rw [hnumeral, List.cons_append, List.dropWhile_cons_of_neg]
  intro hblank
  rcases hc with hdigit | rfl | rfl | rfl
  · have hrange : 48 ≤ c.toNat ∧ c.toNat ≤ 57 := by
      simpa [Char.isDigit, UInt32.le_iff_toNat_le] using hdigit
    unfold isJsWhitespace at hblank
    simp at hblank
    omega
  · exact absurd hblank (by decide)
  · exact absurd hblank (by decide)
  · exact absurd hblank (by decide)

/-- The prefix comes off a row whose number has no exponent, if the line is matched whole. -/
theorem matchPrefix_row (n : ℕ) (line : List Char) :
    matchPrefix (numberedLine format n line) =
      if n < 10 ^ 21 ∧ Matched line then some line else none := by
  obtain ⟨blanks, hblanks, hrow⟩ := numberedLine_eq format n line
  have hblank : ∀ c ∈ blanks, isJsWhitespace c = true := fun c hc => hblanks c hc ▸ rfl
  unfold matchPrefix
  simp only [hrow, List.dropWhile_append_of_pos hblank, numeral_not_blank]
  by_cases hn : n < 10 ^ 21
  · have hdigits : ∀ c ∈ numeral format n, c.isDigit = true := by
      intro c hc
      rw [numeral, if_pos hn] at hc
      exact Nat.isDigit_of_mem_toDigits (by decide) (by decide) hc
    have harrow : (('→' :: line).dropWhile Char.isDigit) = '→' :: line :=
      List.dropWhile_cons_of_neg (by decide)
    have htake : (numeral format n ++ '→' :: line).takeWhile Char.isDigit ≠ [] := by
      rw [List.takeWhile_append_of_pos hdigits]
      exact List.append_ne_nil_of_left_ne_nil (numeral_ne_nil format n) _
    simp only [List.dropWhile_append_of_pos hdigits, harrow]
    simp only [hn, true_and, true_or, htake, ne_eq, not_false_eq_true]
    rfl
  · have htext : numeral format n = format.text n := if_neg hn
    have hne : (format.text n).dropWhile Char.isDigit ≠ [] := by
      intro hnil
      rw [List.dropWhile_eq_nil_iff] at hnil
      exact absurd (hnil 'e' (format.exponent n)) (by decide)
    obtain ⟨c, cs, hdrop⟩ := List.exists_cons_of_ne_nil hne
    have hmem : c ∈ format.text n :=
      (List.dropWhile_sublist _).subset (hdrop ▸ List.mem_cons_self)
    have hc : c ≠ '→' ∧ c ≠ '\t' := by
      have hchars := format.chars n c hmem
      constructor <;> rintro rfl <;> exact absurd hchars (by decide)
    have happend : (format.text n ++ '→' :: line).dropWhile Char.isDigit = c :: (cs ++ '→' :: line) := by
      rw [List.dropWhile_append, hdrop]
      rfl
    simp only [htext, happend, hn, hc.1, hc.2, false_and, or_self, and_false, if_false]

/-! ## The block stripped -/

theorem stripLines_matched {tail : List (List Char)} (htail : ∀ line ∈ tail, line = [])
    (sawPrefix : Bool) (stripped : List (List Char)) (n : ℕ) (hlines : ∀ line ∈ lines, Matched line)
    (hn : n + lines.length ≤ 10 ^ 21) :
    stripLines (numberLines format n lines ++ tail) sawPrefix stripped =
      some (stripped ++ lines ++ tail, sawPrefix || decide (lines ≠ [])) := by
  induction lines generalizing n sawPrefix stripped with
  | nil =>
    induction tail generalizing stripped with
    | nil => simp [numberLines, stripLines]
    | cons line tail ih =>
      have hline := htail line List.mem_cons_self
      have hrest := ih (fun l hl => htail l (List.mem_cons_of_mem _ hl)) (stripped ++ [line])
      change (if line = [] then stripLines tail sawPrefix (stripped ++ [line]) else _) = _
      rw [if_pos hline]
      simpa [numberLines] using hrest
  | cons line lines ih =>
    have hmatch : matchPrefix (numberedLine format n line) = some line := by
      rw [List.length_cons] at hn
      rw [matchPrefix_row, if_pos ⟨by omega, hlines line List.mem_cons_self⟩]
    rw [numberLines, List.cons_append, stripLines, if_neg (numberedLine_ne format n line).1,
      hmatch]
    simp only
    rw [ih true (stripped ++ [line]) (n + 1) (fun l hl => hlines l (List.mem_cons_of_mem _ hl))
      (by rw [List.length_cons] at hn; omega)]
    simp

theorem stripLines_unmatched {tail : List (List Char)} (sawPrefix : Bool)
    (stripped : List (List Char)) (n : ℕ)
    (h : ¬((∀ line ∈ lines, Matched line) ∧ n + lines.length ≤ 10 ^ 21)) (hne : lines ≠ []) :
    stripLines (numberLines format n lines ++ tail) sawPrefix stripped = none := by
  induction lines generalizing n sawPrefix stripped with
  | nil => exact absurd rfl hne
  | cons line lines ih =>
    rw [numberLines, List.cons_append, stripLines, if_neg (numberedLine_ne format n line).1,
      matchPrefix_row]
    by_cases hline : n < 10 ^ 21 ∧ Matched line
    · rw [if_pos hline]
      by_cases hnil : lines = []
      · subst hnil
        refine absurd ⟨fun l hl => ?_, ?_⟩ h
        · rw [List.mem_singleton.1 hl]
          exact hline.2
        · exact hline.1
      · refine ih true (stripped ++ [line]) (n + 1) (fun hrest => h ⟨?_, ?_⟩) hnil
        · exact List.forall_mem_cons.2 ⟨hline.2, hrest.1⟩
        · rw [List.length_cons]
          omega
    · rw [if_neg hline]

theorem splitOn_blockOf (hne : lines ≠ []) (hfeed : ∀ line ∈ lines, '\n' ∉ line) :
    (blockOf lines newline).splitOn '\n' = lines ++ if newline then [[]] else [] := by
  cases newline with
  | true =>
    rw [blockOf_true hne, splitOn_joinLines (by simp)]
    · rfl
    · intro line hline
      rcases List.mem_append.1 hline with hline | hline
      · exact hfeed line hline
      · rw [List.mem_singleton.1 hline]
        exact List.not_mem_nil
  | false => simpa [blockOf] using splitOn_joinLines hne hfeed

/-- The numbers of lines come off their rows exactly where each is matched. -/
theorem strip_rows (n : ℕ) (hne : lines ≠ []) (hfeed : ∀ line ∈ lines, '\n' ∉ line) :
    stripLineNumberPrefixesFromBlock (blockOf (numberLines format n lines) newline) =
        some (blockOf lines newline) ↔
      (∀ line ∈ lines, Matched line) ∧ n + lines.length ≤ 10 ^ 21 := by
  have hrows := numberLines_noFeed format n hfeed
  have hrowsNe := numberLines_ne_nil format n hne
  have hcut : Cut (numberLines format n lines) newline :=
    ⟨hrowsNe, fun row hrow => (hrows row hrow).1,
      fun _ hlast => (hrows [] (List.mem_of_getLast? hlast)).2 rfl⟩
  have hsplit := @splitOn_blockOf _ newline hrowsNe fun row hrow => (hrows row hrow).1
  rw [stripLineNumberPrefixesFromBlock, if_neg hcut.ne_nil, hsplit]
  constructor
  · intro h
    by_contra hnot
    rw [stripLines_unmatched format false [] n hnot hne] at h
    cases h
  · rintro ⟨hmatched, hn⟩
    have htail : ∀ line ∈ (if newline then [[]] else [] : List (List Char)), line = [] := by
      cases newline <;> simp
    rw [stripLines_matched format htail false [] n hmatched hn]
    have hsaw : (false || decide (lines ≠ [])) = true := by simp [hne]
    rw [hsaw]
    cases newline with
    | true => simp [blockOf_true hne]
    | false => simp [blockOf]

end Prefix

/-! ## The retry -/

theorem stripLines_some {sawPrefix : Bool} {stripped : List (List Char)}
    {r : List (List Char) × Bool} (h : stripLines lines sawPrefix stripped = some r) :
    ∀ line ∈ lines, line ≠ [] → (matchPrefix line).isSome := by
  induction lines generalizing sawPrefix stripped with
  | nil => exact nofun
  | cons first lines ih =>
    intro line hline hne
    unfold stripLines at h
    split_ifs at h with hempty
    · rcases List.mem_cons.1 hline with rfl | hline
      · exact absurd hempty hne
      · exact ih h line hline hne
    · rcases hmatch : matchPrefix first with _ | text
      · rw [hmatch] at h
        cases h
      · rw [hmatch] at h
        rcases List.mem_cons.1 hline with rfl | hline
        · rw [hmatch]
          rfl
        · exact ih h line hline hne

theorem prefixed_of_match {line : List Char} (h : (matchPrefix line).isSome) : Prefixed line := by
  unfold matchPrefix at h
  simp only at h
  split at h
  · rename_i separator text hdrop
    split_ifs at h with hprefix
    · refine ⟨line.takeWhile isJsWhitespace, _, separator, text, ?_, ?_, hprefix.1, ?_, hprefix.2.1⟩
      · rw [← hdrop, List.append_assoc, List.takeWhile_append_dropWhile,
          List.takeWhile_append_dropWhile]
      · exact fun c hc => List.mem_takeWhile_imp hc
      · exact fun c hc => List.mem_takeWhile_imp hc
    · cases h
  · cases h

theorem everyLinePrefixed_of_strip {text : List Char}
    (h : (stripLineNumberPrefixesFromBlock text).getD text ≠ text) : EveryLinePrefixed text := by
  unfold stripLineNumberPrefixesFromBlock at h
  split_ifs at h
  · exact absurd rfl h
  · intro line hline hne
    rcases hstrip : stripLines (text.splitOn '\n') false [] with _ | r
    · rw [hstrip] at h
      exact absurd rfl h
    · exact prefixed_of_match (stripLines_some hstrip line hline hne)

theorem changesOnlyPrefixed : ChangesOnlyPrefixed := by
  intro edits normalized h
  unfold normalizeEditsForLineNumberRetry at h
  simp only at h
  split_ifs at h
  cases h
  rw [List.forall₂_map_right_iff, List.forall₂_same]
  exact fun edit _ => ⟨everyLinePrefixed_of_strip, everyLinePrefixed_of_strip⟩

section Retry

variable {σ ε : Type} {execute : EditInput → Effect σ ε AgentToolResult} {aborted : σ → Bool}
  {input : EditInput} {s s' : σ} {e e' : ε}

theorem executeEdit_failed (h : execute input s = (.error e, s')) :
    executeEditWithLineNumberRetry execute aborted input s =
      if aborted s' = true then (.error e, s')
      else ((input.edits.bind normalizeEditsForLineNumberRetry).elim (Effect.raise e)
        (retryEdit execute input · e)) s' := by
  have hattempt : (execute input).attempt s = (.ok (.error e), s') := by
    rw [Effect.attempt, h]
  rw [executeEditWithLineNumberRetry, Effect.bind_of_ok hattempt]
  have hread : (Effect.read aborted : Effect σ ε Bool) s' = (.ok (aborted s'), s') := rfl
  simp only
  rw [Effect.bind_of_ok hread]
  split_ifs
  · rfl
  · cases input.edits.bind normalizeEditsForLineNumberRetry <;> rfl

theorem retryEdit_error {normalized : List EditReplacement}
    (h : (retryEdit execute input normalized e s).1 = .error e') : e' = e := by
  unfold retryEdit at h
  rcases hcall : execute { input with edits := some normalized } s with ⟨r, s'⟩
  have hattempt : (execute { input with edits := some normalized }).attempt s = (.ok r, s') := by
    rw [Effect.attempt, hcall]
  rw [Effect.bind_of_ok hattempt] at h
  rcases r with error | result
  · cases h
    rfl
  · cases h

theorem reportsFirstError : ReportsFirstError := by
  intro σ ε execute aborted input s s' e e' hfail h
  rw [executeEdit_failed hfail] at h
  split_ifs at h
  · cases h
    rfl
  · rcases hedits : input.edits.bind normalizeEditsForLineNumberRetry with _ | normalized
    · rw [hedits] at h
      cases h
      rfl
    · rw [hedits] at h
      exact retryEdit_error h

theorem retriesWith {shown text : List Char}
    (hstrip : stripLineNumberPrefixesFromBlock shown = some text) (hne : text ≠ shown) :
    RetriesWith shown text := by
  intro σ ε execute aborted input edits index edit s s' e hedits hedit hold hfail haborted
  have hedit' : (normalizeEdit edit).oldText = text := by
    rw [normalizeEdit, hold, hstrip]
    rfl
  have hchanged : normalizeEditsForLineNumberRetry edits = some (edits.map normalizeEdit) := by
    unfold normalizeEditsForLineNumberRetry
    simp only
    rw [if_pos]
    refine List.any_eq_true.2 ⟨edit, List.mem_of_getElem? hedit, ?_⟩
    simp [hedit', hold, hne]
  refine ⟨edits.map normalizeEdit, normalizeEdit edit, ?_, hedit', ?_⟩
  · rw [List.getElem?_map, hedit]
    rfl
  · rw [executeEdit_failed hfail, haborted, hedits, Option.bind_some, hchanged]
    rfl

end Retry

/-! ## The block of a file -/

namespace ReadBlock

variable (block : ReadBlock) (format : ExponentFormat)

theorem content_ne : block.content ≠ [] := by
  intro hnil
  have hwithin := block.within
  have hcount := block.count_pos
  rw [hnil, fileLines, if_pos rfl, List.length_nil] at hwithin
  omega

theorem lines_length : block.lines.length = block.count := by
  have hwithin := block.within
  rw [lines, List.length_take, List.length_drop]
  omega

theorem lines_ne : block.lines ≠ [] := by
  have hcount := block.count_pos
  intro hnil
  have hlength := block.lines_length
  rw [hnil, List.length_nil] at hlength
  omega

theorem lines_noFeed : ∀ line ∈ block.lines, '\n' ∉ line := fun line hline =>
  (cut_content block.content_ne).1.noFeed line
    (List.mem_of_mem_drop (List.mem_of_mem_take hline))

/-- The rows shown of the block are its lines behind their numbers. -/
theorem shown_eq : block.shown format =
    blockOf (numberLines format (baseLine block.startLine + block.first) block.lines)
      block.newline := by
  obtain ⟨hcut, hcontent⟩ := cut_content block.content_ne
  have hrows : block.rows format = numberLines format (baseLine block.startLine)
      ((fileLines block.content).map (shownLine readMaxLineChars)) := by
    rw [rows, hcontent, hcut.truncate, (hcut.shownLine readMaxLineChars).addLineNumbers,
      ((hcut.shownLine readMaxLineChars).numberLines format _).fileLines, ← hcontent]
  have hshort : block.lines.map (shownLine readMaxLineChars) = block.lines :=
    (List.map_congr_left fun line hline => shownLine_of_short (block.short line hline)).trans
      (List.map_id _)
  rw [shown, hrows, numberLines_drop, numberLines_take, List.map_drop.symm, List.map_take.symm]
  exact congrArg (fun lines => blockOf (numberLines format
    (baseLine block.startLine + block.first) lines) block.newline) hshort

theorem text_ne_shown : block.text ≠ block.shown format := by
  rw [block.shown_eq]
  intro heq
  have hfeed := numberLines_noFeed format (baseLine block.startLine + block.first)
    block.lines_noFeed
  have hsplit := congrArg (List.splitOn '\n') heq
  rw [text, splitOn_blockOf block.lines_ne block.lines_noFeed,
    splitOn_blockOf (numberLines_ne_nil format _ block.lines_ne) fun row hrow => (hfeed row hrow).1]
    at hsplit
  obtain ⟨line, lines, hlines⟩ := List.exists_cons_of_ne_nil block.lines_ne
  rw [List.append_cancel_right_eq, hlines] at hsplit
  exact (numberedLine_ne format _ line).2 (List.cons.inj hsplit).1.symm

theorem text_matched :
    (∀ c ∈ block.text, isLineTerminator c = true → c = '\n') ↔
      ∀ line ∈ block.lines, Matched line := by
  constructor
  · intro h line hline
    rw [Matched, List.all_eq_true]
    intro c hc
    by_contra hend
    have hfeed := h c (List.mem_append_left _ (mem_joinLines hline hc)) (by simpa using hend)
    exact block.lines_noFeed line hline (hfeed ▸ hc)
  · intro h c hc hend
    by_contra hfeed
    have hjoined : c ∈ joinLines block.lines := by
      rcases List.mem_append.1 hc with hc | hc
      · exact hc
      · split_ifs at hc
        · exact absurd (List.mem_singleton.1 hc) hfeed
        · cases hc
    obtain ⟨line, hline, hmem⟩ := mem_line_of_mem_joinLines hjoined hfeed
    have := List.all_eq_true.1 (h line hline) c hmem
    simp [hend] at this

end ReadBlock

/-- A block that was read is found by an edit exactly where its lines have no end for a regular
expression but their line feeds, and where their numbers are written without an exponent. -/
theorem read_is_found (format : ExponentFormat) (block : ReadBlock) :
    ReadIsFound format block ↔
      (∀ c ∈ block.text, isLineTerminator c = true → c = '\n') ∧ block.lastLine < 10 ^ 21 := by
  have hstrip : stripLineNumberPrefixesFromBlock (block.shown format) = some block.text ↔
      (∀ c ∈ block.text, isLineTerminator c = true → c = '\n') ∧ block.lastLine < 10 ^ 21 := by
    have hpos := block.startLine_pos
    have hbase : (baseLine block.startLine : ℤ) = block.startLine := by
      rw [baseLine, if_pos (by omega)]
      omega
    have hlast : baseLine block.startLine + block.first + block.lines.length ≤ 10 ^ 21 ↔
        block.lastLine < 10 ^ 21 := by
      rw [block.lines_length, ReadBlock.lastLine]
      omega
    rw [block.text_matched, ← hlast, block.shown_eq, ReadBlock.text,
      strip_rows format _ block.lines_ne block.lines_noFeed]
  rw [← hstrip]
  constructor
  · exact ReadIsFound.stripped
  · intro h
    exact ⟨h, retriesWith h (block.text_ne_shown format), changesOnlyPrefixed, reportsFirstError⟩

/-- Of the numbers with an exponent, one text. -/
def oneExponent : ExponentFormat where
  text _ := "1e+21".toList
  chars _ := by
    intro c hc
    simp at hc
    rcases hc with rfl | rfl | rfl | rfl | rfl <;> simp
  exponent _ := by decide

/-- The first line of a file whose lines end in a carriage return and a line feed. -/
def crlfBlock : ReadBlock where
  content := "a\r\nb\r\n".toList
  startLine := 1
  first := 0
  count := 1
  newline := true
  startLine_pos := by decide
  count_pos := by decide
  within := by decide
  short := by decide

theorem crlf_not_stripped :
    crlfBlock.shown oneExponent = "     1→a\r\n".toList ∧
      stripLineNumberPrefixesFromBlock (crlfBlock.shown oneExponent) = none ∧
      ¬ReadIsFound oneExponent crlfBlock := by
  have hstrip : stripLineNumberPrefixesFromBlock (crlfBlock.shown oneExponent) = none := by
    decide +kernel
  refine ⟨by decide +kernel, hstrip, fun h => ?_⟩
  have hstripped := h.stripped
  rw [hstrip] at hstripped
  cases hstripped

end LineNumbers

end Kinetick
