import Mathlib.Tactic.SplitIfs
import Kinetick.File.ReadCache
import Kinetick.Proofs.JsonlLines

/-!
# Cached reads are plain reads

What a cache holds is what a plain read of its bytes gives. The lines after them are read as a plain
read reads them, so a cached read gives what a plain one does, an error at the same line included.
-/

namespace Kinetick

namespace Jsonl

/-! ## Plain reads -/

section Plain

variable {β : Type} (plain : LineReader β)

/-- The values of the lines of the bytes. -/
def Reads (bytes : List UInt8) (values : List β) : Prop :=
  List.Forall₂ (fun line value => readLine plain (Utf8.decode line) = .ok value)
    (byteLines bytes) values

theorem readStrictly_append (path : String) {lines : List String} {values : List β}
    (h : List.Forall₂ (fun line value => readLine plain line = .ok value) lines values)
    (lineNo : ℕ) (more : List String) :
    readStrictly plain path lineNo (lines ++ more) =
      (readStrictly plain path (lineNo + lines.length) more).map (values ++ ·) := by
  induction h generalizing lineNo with
  | nil =>
    have hnone : (([] : List β) ++ ·) = id := rfl
    cases hmore : readStrictly plain path lineNo more <;> simp [hmore, hnone, Except.map]
  | @cons line value lines values hline hlines ih =>
    rw [List.cons_append, readStrictly, hline]
    simp only [ih]
    have hcount : lineNo + 1 + lines.length = lineNo + (line :: lines).length := by
      rw [List.length_cons]
      omega
    rw [hcount]
    cases readStrictly plain path (lineNo + (line :: lines).length) more with
    | error e => rfl
    | ok rest => rfl

theorem Reads.strict {bytes : List UInt8} {values : List β} (h : Reads plain bytes values)
    (path : String) : readJsonlStrict plain path bytes = .ok values := by
  have happend := readStrictly_append plain path (List.forall₂_map_left_iff.2 h) 1 []
  rw [List.append_nil] at happend
  rw [readJsonlStrict, linesOf_decode, happend]
  simp [readStrictly, Except.map]

theorem byteLines_nil : byteLines [] = [] := by
  rw [byteLines, endedParts_part List.not_mem_nil, if_pos rfl]

theorem Reads.nil : Reads plain [] [] := by
  rw [Reads, byteLines_nil]
  exact List.Forall₂.nil

theorem byteLines_line {before line : List UInt8} (hbefore : boundary before = [])
    (hline : 10 ∉ line) (rest : List UInt8) :
    byteLines (before ++ (line ++ 10 :: rest)) = byteLines before ++ line :: byteLines rest := by
  have happend := byteLines_append before (line ++ 10 :: rest)
  rw [hbefore, List.append_nil] at happend
  rw [happend]
  congr 1
  rw [byteLines, endedParts_more hline]

theorem byteLines_last {before line : List UInt8} (hbefore : boundary before = [])
    (hline : 10 ∉ line) (hne : line ≠ []) :
    byteLines (before ++ line) = byteLines before ++ [line] := by
  have happend := byteLines_append before line
  rw [hbefore, List.append_nil] at happend
  rw [happend]
  congr 1
  rw [byteLines, endedParts_part hline, if_neg hne]

theorem boundary_line (before line : List UInt8) : boundary (before ++ line ++ [10]) = [] := by
  unfold boundary
  simp

end Plain

/-! ## Lines with their ends -/

theorem splitLines_part {line : List UInt8} (h : 10 ∉ line) :
    splitLines line = if line = [] then [] else [(line, false)] := by
  induction line with
  | nil => rfl
  | cons b line ih =>
    rw [List.mem_cons, not_or] at h
    rw [splitLines, if_neg (Ne.symm h.1), ih h.2]
    by_cases hnil : line = [] <;> simp [hnil]

theorem splitLines_more {line : List UInt8} (h : 10 ∉ line) (rest : List UInt8) :
    splitLines (line ++ 10 :: rest) = (line, true) :: splitLines rest := by
  induction line with
  | nil => simp [splitLines]
  | cons b line ih =>
    rw [List.mem_cons, not_or] at h
    rw [List.cons_append, splitLines, if_neg (Ne.symm h.1), ih h.2]

/-! ## The loop -/

section Cached

variable {σ α β : Type} {reader : EffectReader σ α} {plain : LineReader β} {view : α → β}

/-- Decoding with effects gives what the plain one gives. -/
structure Agrees (reader : EffectReader σ α) (plain : LineReader β) (view : α → β) : Prop where
  parse : reader.parse = plain.parse
  decode : ∀ value s, (reader.decode value s).1.map view = plain.decode value

theorem Agrees.readLine (h : Agrees reader plain view) (line : String) (s : σ) :
    (readLineIn reader line s).1.map view = readLine plain line := by
  unfold readLineIn Jsonl.readLine parseJsonLine
  rw [h.parse]
  by_cases hblank : jsTrim line = ""
  · rw [if_pos hblank, if_pos hblank]
    rfl
  · rw [if_neg hblank, if_neg hblank]
    cases hparse : plain.parse line with
    | none => rfl
    | some value =>
      have hdecode := h.decode value s
      simpa [bind, Except.bind] using hdecode

theorem Agrees.line_ok (h : Agrees reader plain view) {line : String} {s s' : σ} {record : α}
    (hread : readLineIn reader line s = (.ok record, s')) :
    Jsonl.readLine plain line = .ok (view record) := by
  have hagrees := h.readLine line s
  rw [hread] at hagrees
  exact hagrees.symm

theorem Agrees.line_error (h : Agrees reader plain view) {line : String} {s s' : σ} {e : String}
    (hread : readLineIn reader line s = (.error e, s')) :
    Jsonl.readLine plain line = .error e := by
  have hagrees := h.readLine line s
  rw [hread] at hagrees
  exact hagrees.symm

theorem advance_ended (progress : ReadProgress α) (record : α) (length : ℕ) :
    progress.advance record length true =
      if progress.offset + length + 1 ≤ retainLimit then {
        records := progress.records ++ [record]
        offset := progress.offset + length + 1
        retainedEnd := progress.offset + length + 1
        retainedRecords := (progress.records ++ [record]).length }
      else { progress with
        records := progress.records ++ [record], offset := progress.offset + length + 1 } := by
  simp [ReadProgress.advance]

/-- Of the bytes, those before the offset are read, and a beginning of them is retained. -/
structure Progressed (plain : LineReader β) (view : α → β) (before : List UInt8)
    (progress : ReadProgress α) : Prop where
  offset : progress.offset = before.length
  read : Reads plain before (progress.records.map view)
  retainedEnd : progress.retainedEnd ≤ before.length
  retainedRecords : progress.retainedRecords ≤ progress.records.length
  retained : Reads plain (before.take progress.retainedEnd)
    ((progress.records.take progress.retainedRecords).map view)

theorem Progressed.advance {before line : List UInt8} {progress : ReadProgress α} {record : α}
    (h : Progressed plain view before progress) (hbefore : boundary before = [])
    (hline : 10 ∉ line) (hread : Jsonl.readLine plain (Utf8.decode line) = .ok (view record)) :
    Progressed plain view (before ++ line ++ [10]) (progress.advance record line.length true) := by
  have hlines : byteLines (before ++ line ++ [10]) = byteLines before ++ [line] := by
    rw [List.append_assoc, byteLines_line hbefore hline, byteLines_nil]
  have hreads : Reads plain (before ++ line ++ [10])
      ((progress.records ++ [record]).map view) := by
    rw [Reads, hlines, List.map_append]
    exact List.rel_append h.read (List.Forall₂.cons hread List.Forall₂.nil)
  have hlength : (before ++ line ++ [10]).length = progress.offset + line.length + 1 := by
    simp only [List.length_append, List.length_singleton, h.offset]
  have hend := h.retainedEnd
  have hrecords := h.retainedRecords
  rw [advance_ended]
  split_ifs
  · refine ⟨hlength.symm, hreads, by simp only; omega, by simp, ?_⟩
    rw [← hlength, List.take_length, List.take_length]
    exact hreads
  · rw [← h.offset] at hend
    refine ⟨hlength.symm, hreads, by simp only; omega, by simp; omega, ?_⟩
    rw [h.offset] at hend
    rw [List.append_assoc, List.take_append_of_le_length hend,
      List.take_append_of_le_length hrecords]
    exact h.retained

theorem Progressed.last {before line : List UInt8} {progress : ReadProgress α} {record : α}
    (h : Progressed plain view before progress) (hbefore : boundary before = [])
    (hline : 10 ∉ line) (hne : line ≠ [])
    (hread : Jsonl.readLine plain (Utf8.decode line) = .ok (view record)) :
    Progressed plain view (before ++ line) (progress.advance record line.length false) := by
  have hreads : Reads plain (before ++ line) ((progress.records ++ [record]).map view) := by
    rw [Reads, byteLines_last hbefore hline hne, List.map_append]
    exact List.rel_append h.read (List.Forall₂.cons hread List.Forall₂.nil)
  have hend := h.retainedEnd
  have hrecords := h.retainedRecords
  refine ⟨?_, hreads, ?_, ?_, ?_⟩
  · simp [ReadProgress.advance, h.offset]
  · simp [ReadProgress.advance]
    omega
  · simp [ReadProgress.advance]
    omega
  · simp only [ReadProgress.advance, Bool.false_and, Bool.false_eq_true, if_false]
    rw [List.take_append_of_le_length hend, List.take_append_of_le_length hrecords]
    exact h.retained

/-- What the loop gives for the bytes that are left. -/
def Finishes (plain : LineReader β) (view : α → β) (path : String) (bytes : List UInt8)
    (answer : Except String (ReadProgress α)) : Prop :=
  (∃ progress, answer = .ok progress ∧ Progressed plain view bytes progress) ∨
    ∃ e, answer = .error e ∧ readJsonlStrict plain path bytes = .error e

/-- A line that cannot be read is where a plain read ends too. -/
theorem Progressed.malformed {before line : List UInt8} {progress : ReadProgress α}
    {bytes : List UInt8} {lines : List (List UInt8)} {e : String}
    (h : Progressed plain view before progress)
    (hlines : byteLines bytes = byteLines before ++ line :: lines)
    (hread : Jsonl.readLine plain (Utf8.decode line) = .error e) (path : String) :
    readJsonlStrict plain path bytes = .error (malformedLineError
      { path, lineNo := progress.records.length + 1, reason := e }) := by
  have happend := readStrictly_append plain path (List.forall₂_map_left_iff.2 h.read) 1
    ((line :: lines).map Utf8.decode)
  have hlength : (byteLines before).length = progress.records.length := by
    simpa using List.Forall₂.length_eq h.read
  rw [readJsonlStrict, linesOf_decode, hlines, List.map_append, happend, List.length_map, hlength]
  simp [readStrictly, hread, Except.map, Nat.add_comm]

theorem readRest_finishes (hreader : Agrees reader plain view) (path : String)
    (rest : List UInt8) : ∀ (before : List UInt8) (progress : ReadProgress α) (s : σ),
    Progressed plain view before progress → boundary before = [] →
      Finishes plain view path (before ++ rest)
        (readRest reader path (splitLines rest) progress s).1 := by
  induction rest using parts_induction (10 : UInt8) with
  | hpart line hline =>
    intro before progress s h hbefore
    rw [splitLines_part hline]
    by_cases hnil : line = []
    · rw [if_pos hnil, hnil, List.append_nil]
      exact Or.inl ⟨progress, rfl, h⟩
    · rw [if_neg hnil]
      simp only [readRest]
      split
      · rename_i e s' hread
        have hlines := byteLines_last hbefore hline hnil
        exact Or.inr ⟨_, rfl, h.malformed hlines (hreader.line_error hread) path⟩
      · rename_i record s' hread
        exact Or.inl ⟨_, rfl, h.last hbefore hline hnil (hreader.line_ok hread)⟩
  | hmore line rest hline ih =>
    intro before progress s h hbefore
    rw [splitLines_more hline]
    simp only [readRest]
    split
    · rename_i e s' hread
      have hlines := byteLines_line hbefore hline rest
      exact Or.inr ⟨_, rfl, h.malformed hlines (hreader.line_error hread) path⟩
    · rename_i record s' hread
      have hstep := h.advance hbefore hline (hreader.line_ok hread)
      have hrest := ih _ _ s' hstep (boundary_line before line)
      rwa [List.append_assoc, List.append_assoc, List.singleton_append] at hrest

/-- What the cache holds is what a plain read of its bytes gives. -/
def CacheValid (plain : LineReader β) (view : α → β) (cache : JsonlReadCache α) : Prop :=
  Reads plain cache.bytes (cache.records.records.map view)

theorem reusesCache_prefix {bytes cached : List UInt8} (h : reusesCache bytes cached = true) :
    boundary cached = [] ∧ cached ++ bytes.drop cached.length = bytes := by
  simp only [reusesCache, Bool.and_eq_true, decide_eq_true_eq] at h
  obtain ⟨⟨hlast, -⟩, hpre⟩ := h
  constructor
  · simp [boundary, hlast]
  · nth_rewrite 1 [← hpre]
    exact List.take_append_drop _ _

/-- A cached read gives what a plain one gives, and leaves a cache that holds what it should. -/
theorem readCachedJsonl_faithful (hreader : Agrees reader plain view) {cache : JsonlReadCache α}
    (hcache : CacheValid plain view cache) (path : String) (bytes : List UInt8) (identity : ℕ)
    (s : σ) :
    (readCachedJsonl reader path bytes cache identity s).1.map (·.records.map view) =
        readJsonlStrict plain path bytes ∧
      CacheValid plain view (readCachedJsonl reader path bytes cache identity s).2.1 := by
  unfold readCachedJsonl
  by_cases hsame : bytes = cache.bytes
  · rw [if_pos hsame]
    exact ⟨by rw [hsame]; exact (hcache.strict plain path).symm, hcache⟩
  rw [if_neg hsame]
  dsimp only
  have hstart : ∃ before : List UInt8, boundary before = [] ∧ before ++ bytes.drop
      (if reusesCache bytes cache.bytes = true then cache.bytes.length else 0) = bytes ∧
      Progressed plain view before {
        records := if reusesCache bytes cache.bytes = true then cache.records.records else []
        offset := if reusesCache bytes cache.bytes = true then cache.bytes.length else 0
        retainedEnd := if reusesCache bytes cache.bytes = true then cache.bytes.length else 0
        retainedRecords := (if reusesCache bytes cache.bytes = true then cache.records.records
          else []).length } := by
    by_cases hreuse : reusesCache bytes cache.bytes = true
    · obtain ⟨hboundary, hpre⟩ := reusesCache_prefix hreuse
      simp only [hreuse, if_true]
      refine ⟨cache.bytes, hboundary, hpre, rfl, hcache, Nat.le_refl _, Nat.le_refl _, ?_⟩
      simp only [List.take_length]
      exact hcache
    · simp only [hreuse]
      exact ⟨[], rfl, rfl, rfl, Reads.nil plain, Nat.le_refl _, Nat.le_refl _, Reads.nil plain⟩
  obtain ⟨before, hbefore, hwhole, hprogress⟩ := hstart
  have hfinish := readRest_finishes hreader path (bytes.drop
    (if reusesCache bytes cache.bytes = true then cache.bytes.length else 0)) before _ s hprogress
    hbefore
  rw [hwhole] at hfinish
  rcases hfinish with ⟨progress, hanswer, hread⟩ | ⟨e, hanswer, hplain⟩
  · split
    · rename_i e s' heq
      rw [heq] at hanswer
      cases hanswer
    · rename_i progress' s' heq
      rw [heq] at hanswer
      cases hanswer
      have hvalues := hread.read.strict plain path
      split_ifs
      · exact ⟨hvalues.symm, hread.read⟩
      · exact ⟨hvalues.symm, hread.retained⟩
  · split
    · rename_i e' s' heq
      rw [heq] at hanswer
      cases hanswer
      exact ⟨hplain.symm, hcache⟩
    · rename_i progress s' heq
      rw [heq] at hanswer
      cases hanswer

/-- The arrays of a cached read: that of the cache, or a new one of what the loop read. -/
theorem readCachedJsonl_cases (reader : EffectReader σ α) (path : String) (bytes : List UInt8)
    (cache : JsonlReadCache α) (identity : ℕ) (s : σ) :
    readCachedJsonl reader path bytes cache identity s = (.ok cache.records, cache, s) ∨
      ∃ lines start after, (start.records = [] ∨ start.records = cache.records.records) ∧
        ((∃ e, readRest reader path lines start s = (.error e, after) ∧
          readCachedJsonl reader path bytes cache identity s = (.error e, cache, after)) ∨
        ∃ progress kept, readRest reader path lines start s = (.ok progress, after) ∧
          (kept.records = { identity, records := progress.records } ∨ ∃ count,
            kept.records =
              { identity := identity + 1, records := progress.records.take count }) ∧
          readCachedJsonl reader path bytes cache identity s =
            (.ok { identity, records := progress.records }, kept, after)) := by
  unfold readCachedJsonl
  by_cases hsame : bytes = cache.bytes
  · rw [if_pos hsame]
    exact Or.inl rfl
  rw [if_neg hsame]
  right
  let start : ReadProgress α := {
    records := if reusesCache bytes cache.bytes then cache.records.records else []
    offset := if reusesCache bytes cache.bytes then cache.bytes.length else 0
    retainedEnd := if reusesCache bytes cache.bytes then cache.bytes.length else 0
    retainedRecords := (if reusesCache bytes cache.bytes then cache.records.records else []).length }
  have hstart : start.records = [] ∨ start.records = cache.records.records := by
    simp only [start]
    split_ifs
    · exact Or.inr rfl
    · exact Or.inl rfl
  rcases hread : readRest reader path (splitLines (bytes.drop start.offset)) start s with
    ⟨answer, after⟩
  refine ⟨splitLines (bytes.drop start.offset), start, after, hstart, ?_⟩
  dsimp only [start] at hread ⊢
  rw [hread]
  cases answer with
  | error e => exact Or.inl ⟨e, rfl, rfl⟩
  | ok progress =>
    right
    dsimp only
    split_ifs
    · exact ⟨progress, _, rfl, Or.inl rfl, rfl⟩
    · exact ⟨progress, _, rfl, Or.inr ⟨_, rfl⟩, rfl⟩

theorem pure_agrees (plain : LineReader β) : Agrees plain.pure plain id where
  parse := rfl
  decode value s := by
    change (plain.decode value).map id = plain.decode value
    cases plain.decode value <;> rfl

/-- Files that are read one after another through a cache give what plain reads give. -/
theorem readAllCached_faithful (plain : LineReader β) (files : List (String × List UInt8)) :
    ∀ (cache : JsonlReadCache β) (identity : ℕ), CacheValid plain id cache →
      readAllCached plain cache identity files =
        files.map fun file => readJsonlStrict plain file.1 file.2 := by
  induction files with
  | nil => intro cache identity _; rfl
  | cons file files ih =>
    intro cache identity hcache
    obtain ⟨path, bytes⟩ := file
    obtain ⟨hanswer, hnext⟩ :=
      readCachedJsonl_faithful (pure_agrees plain) hcache path bytes identity ()
    simp only [List.map_id] at hanswer
    simp only [readAllCached, List.map_cons, hanswer, ih _ _ hnext]

end Cached

end Jsonl

end Kinetick
