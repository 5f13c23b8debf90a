import Mathlib.Data.List.TakeWhile
import Mathlib.Data.List.Forall2
import Kinetick.File.Append
import Kinetick.Proofs.ToolRounds

/-!
# Lines of bytes and of text

A text read from bytes has the lines of the bytes, each read by itself. Records are written in lines
of their own, so they are read after all that was read before them.
-/

namespace Kinetick

/-! ## Lists in lines -/

section Lines

variable {α : Type} [DecidableEq α]

/-- What is split at a separator, less a last part that is empty. -/
def endedParts (sep : α) (xs : List α) : List (List α) :=
  if (xs.splitOn sep).getLast? = some [] then (xs.splitOn sep).dropLast else xs.splitOn sep

/-- What holds of a part without a separator, and with one more part before it, holds of all. -/
theorem parts_induction (sep : α) {P : List α → Prop} (hpart : ∀ part, sep ∉ part → P part)
    (hmore : ∀ part rest, sep ∉ part → P rest → P (part ++ sep :: rest)) (xs : List α) : P xs := by
  induction hn : xs.length using Nat.strong_induction_on generalizing xs with
  | _ n ih =>
    by_cases hsep : sep ∈ xs
    · obtain ⟨part, rest, rfl, hnot⟩ := List.eq_append_cons_of_mem hsep
      exact hmore part rest hnot (ih rest.length (by simp at hn; omega) rest rfl)
    · exact hpart xs hsep

theorem endedParts_part {sep : α} {part : List α} (h : sep ∉ part) :
    endedParts sep part = if part = [] then [] else [part] := by
  unfold endedParts
  rw [List.splitOn_eq_singleton h]
  by_cases hnil : part = [] <;> simp [hnil]

theorem endedParts_more {sep : α} {part : List α} (h : sep ∉ part) (rest : List α) :
    endedParts sep (part ++ sep :: rest) = part :: endedParts sep rest := by
  have hsplit : (part ++ sep :: rest).splitOn sep = part :: rest.splitOn sep := by
    rw [List.splitOn_append_cons_of_beq _ _ (beq_self_eq_true sep), List.splitOn_eq_singleton h]
    rfl
  have hne := List.splitOn_ne_nil sep rest
  unfold endedParts
  rw [hsplit, List.getLast?_cons_of_ne_nil hne, List.dropLast_cons_of_ne_nil hne]
  split_ifs <;> rfl

namespace Jsonl

open HistoryReduction (bind_ok)

/-! ## Lines of bytes -/

/-- The lines of the bytes, with no line feeds. -/
abbrev byteLines (bytes : List UInt8) : List (List UInt8) := endedParts 10 bytes

theorem linesOf_eq (text : String) :
    linesOf text = (endedParts '\n' text.toList).map String.ofList := by
  have hlast : ((text.toList.splitOn '\n').map String.ofList).getLast? = some "" ↔
      (text.toList.splitOn '\n').getLast? = some [] := by
    rw [List.getLast?_map, Option.map_eq_some_iff]
    constructor
    · rintro ⟨line, hline, hempty⟩
      have : line = [] := by simpa using congrArg String.toList hempty
      rw [hline, this]
    · intro h
      exact ⟨[], h, rfl⟩
  unfold linesOf endedParts
  dsimp only
  by_cases h : (text.toList.splitOn '\n').getLast? = some []
  · rw [if_pos (hlast.2 h), if_pos h, List.map_dropLast]
  · rw [if_neg (mt hlast.1 h), if_neg h]

/-- The lines of a text are the lines of its bytes. -/
theorem linesOf_decode (bytes : List UInt8) :
    linesOf (Utf8.decode bytes) = (byteLines bytes).map Utf8.decode := by
  rw [linesOf_eq]
  unfold Utf8.decode byteLines
  rw [String.toList_ofList]
  induction bytes using parts_induction (10 : UInt8) with
  | hpart part hpart =>
    rw [endedParts_part hpart, endedParts_part (Utf8.feed_not_mem_decodeFrom none hpart)]
    by_cases hnil : part = []
    · rw [hnil]
      rfl
    · rw [if_neg hnil, if_neg (Utf8.decodeFrom_ne_nil (.inr hnil))]
      rfl
  | hmore part rest hpart ih =>
    rw [endedParts_more hpart, Utf8.decodeFrom_append,
      endedParts_more (Utf8.feed_not_mem_decodeFrom none hpart), List.map_cons, List.map_cons, ih]

theorem boundary_append (part rest : List UInt8) :
    boundary (part ++ 10 :: rest) = boundary rest := by
  unfold boundary
  rcases List.eq_nil_or_concat rest with rfl | ⟨before, last, rfl⟩
  · simp
  · simp [List.getLast?_cons]

/-- What is appended after a boundary is in lines of its own. -/
theorem byteLines_append (contents more : List UInt8) :
    byteLines (contents ++ boundary contents ++ more) =
      byteLines contents ++ byteLines more := by
  induction contents using parts_induction (10 : UInt8) with
  | hpart part hpart =>
    by_cases hnil : part = []
    · subst hnil
      have hnone : byteLines [] = [] := by rw [byteLines, endedParts_part hpart, if_pos rfl]
      rw [hnone]
      rfl
    · have hboundary : boundary part = [10] := by
        unfold boundary
        rw [if_neg]
        rw [Bool.or_eq_true, List.isEmpty_iff, decide_eq_true_eq, not_or]
        exact ⟨hnil, fun hlast => hpart (List.mem_of_getLast? hlast)⟩
      rw [hboundary, List.append_assoc, List.singleton_append, byteLines, endedParts_more hpart,
        byteLines, endedParts_part hpart, if_neg hnil]
      rfl
  | hmore part rest hpart ih =>
    rw [boundary_append, byteLines, byteLines, endedParts_more hpart, List.cons_append, ← ih,
      List.append_assoc, List.append_assoc, List.cons_append, endedParts_more hpart,
      ← List.append_assoc]

theorem byteLines_endedLines {lines : List (List Char)} (h : ∀ line ∈ lines, '\n' ∉ line) :
    byteLines (endedLines lines) = lines.map fun line => Utf8.encode (String.ofList line) := by
  induction lines with
  | nil => rfl
  | cons line lines ih =>
    have ih := ih fun line' hline' => h line' (List.mem_cons_of_mem _ hline')
    have hline : 10 ∉ Utf8.encode (String.ofList line) :=
      Utf8.feed_not_mem_encode (by simpa using h line List.mem_cons_self)
    unfold endedLines at ih ⊢
    rw [List.flatMap_cons, List.append_assoc, Utf8.encode_ofList_append,
      Utf8.encode_ofList_append, Utf8.encode_feed, List.singleton_append, byteLines,
      endedParts_more hline, List.map_cons]
    exact congrArg _ ih

/-! ## JSON texts -/

/-- A text of one line that is not blank. -/
structure OneLine (text : List Char) : Prop where
  feed : '\n' ∉ text
  start : ∃ c rest, text = c :: rest ∧ isJsWhitespace c = false

theorem OneLine.ne_blank {text : List Char} (h : OneLine text) :
    jsTrim (String.ofList text) ≠ "" := by
  obtain ⟨c, rest, rfl, hc⟩ := h.start
  intro hblank
  have hdrop : (c :: rest).dropWhile isJsWhitespace = c :: rest :=
    List.dropWhile_cons_of_neg (by simp [hc])
  have hnil := congrArg String.toList hblank
  simp only [jsTrim, String.toList_ofList, hdrop, String.toList_empty,
    List.reverse_eq_nil_iff] at hnil
  have hall := List.dropWhile_eq_nil_iff.1 hnil c (by simp)
  rw [hc] at hall
  cases hall

theorem oneLine_of_all {text : List Char} (hne : text ≠ [])
    (h : ∀ c ∈ text, c ≠ '\n' ∧ isJsWhitespace c = false) : OneLine text := by
  rcases text with _ | ⟨c, rest⟩
  · exact absurd rfl hne
  · exact ⟨fun hmem => (h _ hmem).1 rfl, c, rest, rfl, (h c List.mem_cons_self).2⟩

theorem oneLine_word {word : String}
    (h : (word.toList.all fun c => c ≠ '\n' && !isJsWhitespace c) = true)
    (hne : word.toList ≠ []) : OneLine word.toList := by
  refine oneLine_of_all hne fun c hc => ?_
  have := List.all_eq_true.1 h c hc
  simpa using this

theorem feed_not_mem_quoteChar (c : Char) : '\n' ∉ quoteChar c := by
  have hdigit : ∀ n : Fin 16, hexDigit n ≠ '\n' := by decide
  unfold quoteChar
  split_ifs with h1 h2 h3 h4 h5 h6 h7 h8
  any_goals decide
  · have hhigh := hdigit ⟨c.toNat / 16, by omega⟩
    have hlow := hdigit ⟨c.toNat % 16, by omega⟩
    dsimp only at hhigh hlow
    simp [hhigh.symm, hlow.symm]
  · have hne : '\n' ≠ c := by
      rintro rfl
      exact h5 rfl
    simpa using hne

theorem feed_not_mem_quote (text : String) : '\n' ∉ quote text := by
  unfold quote
  simp only [List.cons_append, List.mem_cons, List.mem_append, List.mem_flatMap, List.not_mem_nil,
    or_false, not_or, not_exists, not_and]
  exact ⟨by decide, fun c _ => feed_not_mem_quoteChar c, by decide⟩

theorem mem_intersperse {β : Type} {sep x : β} {xs : List β} (h : x ∈ xs.intersperse sep) :
    x = sep ∨ x ∈ xs := by
  induction xs with
  | nil => cases h
  | cons y ys ih =>
    rcases ys with _ | ⟨z, zs⟩
    · exact .inr h
    · rw [List.intersperse_cons_cons] at h
      rcases List.mem_cons.1 h with rfl | h
      · exact .inr List.mem_cons_self
      · rcases List.mem_cons.1 h with rfl | h
        · exact .inl rfl
        · exact (ih h).imp_right (List.mem_cons_of_mem _)

theorem feed_not_mem_enclosed {first last : Char} {texts : List (List Char)}
    (hfirst : '\n' ≠ first) (hlast : '\n' ≠ last) (h : ∀ text ∈ texts, '\n' ∉ text) :
    '\n' ∉ enclosed first last texts := by
  unfold enclosed
  simp only [List.mem_cons, List.mem_append, List.mem_flatten, List.not_mem_nil, or_false, not_or,
    not_exists, not_and]
  refine ⟨hfirst, fun text htext => ?_, hlast⟩
  rcases mem_intersperse htext with rfl | hmem
  · decide
  · exact h text hmem

section Stringify

variable (format : NumberFormat)

theorem oneLine_number (q : ℚ) : OneLine (format.text q).toList := by
  have hchars : ("0123456789+-.e".toList.all fun c => c ≠ '\n' && !isJsWhitespace c) = true := by
    decide
  refine oneLine_of_all (format.nonempty q) fun c hc => ?_
  have := List.all_eq_true.1 hchars c (format.chars q c hc)
  simpa using this

mutual

/-- A JSON text is one line. -/
theorem oneLine_stringify : ∀ (v : JsValue) (text : List Char),
    stringify format v = some text → OneLine text
  | .undefined, _, h => by cases h
  | .null, _, h => by
    cases h
    exact oneLine_word (by decide) (by decide)
  | .boolean true, _, h => by
    cases h
    exact oneLine_word (by decide) (by decide)
  | .boolean false, _, h => by
    cases h
    exact oneLine_word (by decide) (by decide)
  | .number (.finite q), _, h => by
    cases h
    exact oneLine_number format q
  | .number .nan, _, h => by
    cases h
    exact oneLine_word (by decide) (by decide)
  | .number .infinity, _, h => by
    cases h
    exact oneLine_word (by decide) (by decide)
  | .number .negInfinity, _, h => by
    cases h
    exact oneLine_word (by decide) (by decide)
  | .string text, _, h => by
    cases h
    exact ⟨feed_not_mem_quote text, '"', _, rfl, by decide⟩
  | .array elements, _, h => by
    cases h
    exact ⟨feed_not_mem_enclosed (by decide) (by decide) (feed_not_mem_elements elements),
      '[', _, rfl, by decide⟩
  | .object fields, _, h => by
    cases h
    exact ⟨feed_not_mem_enclosed (by decide) (by decide) (feed_not_mem_fields fields),
      '\x7b', _, rfl, by decide⟩

theorem feed_not_mem_elements : ∀ (elements : List JsValue),
    ∀ text ∈ stringifyElements format elements, '\n' ∉ text
  | [] => nofun
  | v :: elements => by
    intro text htext
    rcases List.mem_cons.1 htext with rfl | htext
    · rcases hv : stringify format v with _ | text
      · decide
      · exact (oneLine_stringify v text hv).feed
    · exact feed_not_mem_elements elements text htext

theorem feed_not_mem_fields : ∀ (fields : List (String × JsValue)),
    ∀ text ∈ stringifyFields format fields, '\n' ∉ text
  | [] => nofun
  | (key, v) :: fields => by
    intro text htext
    unfold stringifyFields at htext
    rcases hv : stringify format v with _ | valueText <;> rw [hv] at htext
    · exact feed_not_mem_fields fields text htext
    · rcases List.mem_cons.1 htext with rfl | htext
      · have hvalue := (oneLine_stringify v valueText hv).feed
        simp [feed_not_mem_quote, hvalue]
      · exact feed_not_mem_fields fields text htext

end

/-! ## Records -/

theorem serializeFrom_ok {format : NumberFormat} {index : ℕ} {records : List JsValue}
    {lines : List (List Char)} (h : serializeFrom format index records = .ok lines) :
    List.Forall₂ (fun record line => stringify format record = some line) records lines := by
  induction records generalizing index lines with
  | nil =>
    cases h
    exact .nil
  | cons record records ih =>
    obtain ⟨⟨⟩, -, h⟩ := bind_ok h
    rcases hline : stringify format record with _ | line <;> rw [hline] at h
    · cases h
    · obtain ⟨lines', hlines, h⟩ := bind_ok h
      cases h
      exact .cons hline (ih hlines)

theorem serializeRecords_ok {format : NumberFormat} {records : List JsValue}
    {bytes : List UInt8} (h : serializeRecords format records = .ok bytes) :
    ∃ lines, List.Forall₂ (fun record line => stringify format record = some line) records lines ∧
      bytes = endedLines lines := by
  obtain ⟨lines, hlines, h⟩ := bind_ok h
  cases h
  exact ⟨lines, serializeFrom_ok hlines, rfl⟩

theorem endedLines_isEmpty {lines : List (List Char)} :
    (endedLines lines).isEmpty = lines.isEmpty := by
  rcases lines with _ | ⟨line, lines⟩
  · rfl
  · unfold endedLines
    rw [List.flatMap_cons, List.append_assoc, Utf8.encode_ofList_append,
      Utf8.encode_ofList_append, Utf8.encode_feed]
    cases Utf8.encode (String.ofList line) <;> rfl

theorem oneLine_of_records {format : NumberFormat} {records : List JsValue}
    {lines : List (List Char)}
    (h : List.Forall₂ (fun record line => stringify format record = some line) records lines) :
    ∀ line ∈ lines, OneLine line := by
  induction h with
  | nil => exact nofun
  | cons hline _ ih =>
    intro line hmem
    rcases List.mem_cons.1 hmem with rfl | hmem
    · exact oneLine_stringify format _ _ hline
    · exact ih line hmem

section Read

variable {α : Type} {reader : LineReader α} {path : String}

theorem readTolerantly_append (lineNo : ℕ) (lines lines' : List String) :
    (readTolerantly reader path lineNo (lines ++ lines')).1 =
      (readTolerantly reader path lineNo lines).1 ++
        (readTolerantly reader path (lineNo + lines.length) lines').1 := by
  induction lines generalizing lineNo with
  | nil => rfl
  | cons line lines ih =>
    have ih := ih (lineNo + 1)
    rw [Nat.add_right_comm, Nat.add_assoc] at ih
    simp only [List.cons_append, readTolerantly, List.length_cons]
    rcases readLine reader line with e | record
    · exact ih
    · exact congrArg _ ih

theorem readLine_accepted {format : NumberFormat} {record : JsValue} {answer : α}
    (h : Accepts format reader record answer) {line : List Char}
    (hline : stringify format record = some line) :
    readLine reader (String.ofList line) = .ok answer := by
  unfold readLine parseJsonLine
  rw [if_neg (oneLine_stringify format _ _ hline).ne_blank, h.parse _ hline]
  exact h.decode

/-- The lines of accepted records are read as their answers. -/
theorem readTolerantly_accepted {format : NumberFormat} {records : List JsValue}
    {answers : List α} (haccepts : List.Forall₂ (Accepts format reader) records answers)
    {lines : List (List Char)}
    (hlines : List.Forall₂ (fun record line => stringify format record = some line) records lines)
    (lineNo : ℕ) :
    (readTolerantly reader path lineNo (lines.map String.ofList)).1 = answers := by
  induction haccepts generalizing lineNo lines with
  | nil =>
    cases hlines
    rfl
  | cons haccept haccepts ih =>
    rcases hlines with _ | ⟨hline, hlines⟩
    have hread := readLine_accepted haccept hline
    simp only [List.map_cons, readTolerantly, hread]
    exact congrArg _ (ih hlines (lineNo + 1))

/-- The records come after all that was read before them. -/
theorem readJsonl_appended {format : NumberFormat} {records : List JsValue} {answers : List α}
    (haccepts : List.Forall₂ (Accepts format reader) records answers)
    {lines : List (List Char)}
    (hlines : List.Forall₂ (fun record line => stringify format record = some line) records lines)
    (contents : List UInt8) :
    (readJsonl reader path (contents ++ boundary contents ++ endedLines lines)).1 =
      (readJsonl reader path contents).1 ++ answers := by
  have hfeed : ∀ line ∈ lines, '\n' ∉ line := fun line hline =>
    (oneLine_of_records hlines line hline).feed
  unfold readJsonl
  rw [linesOf_decode, linesOf_decode, byteLines_append, byteLines_endedLines hfeed,
    List.map_append, readTolerantly_append, List.map_map]
  congr 1
  have hdecode : (Utf8.decode ∘ fun line => Utf8.encode (String.ofList line)) = String.ofList :=
    funext fun line => Utf8.decode_encode _
  rw [hdecode]
  exact readTolerantly_accepted haccepts hlines _

end Read

end Stringify

end Jsonl

end Lines

end Kinetick
