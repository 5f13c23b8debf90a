import Kinetick.Mcp.NameRegistry
import Mathlib.Data.List.Chain
import Mathlib.Tactic.IntervalCases

/-!
# Segments of names

What is normalized, shortened or numbered is a segment: it has no underscore at an end, and no two
in a row. So a public name is read back in one way, and only the first two underscores in a row after
its prefix are the border between the server and the tool.
-/

namespace Kinetick.Mcp

section Segments

variable {c : Char} {s t l : List Char}

theorem isSegmentChar_ne (h : isSegmentChar c = true) : c ≠ '_' := by
  rintro rfl
  simp [isSegmentChar, isAlphanumeric] at h

/-- No two underscores in a row. -/
def Spaced (l : List Char) : Prop :=
  (∀ c ∈ l, isSegmentChar c = true ∨ c = '_') ∧
    l.IsChain fun a b => a = '_' → b ≠ '_'

theorem Spaced.part (h : Spaced t) (hs : s <:+: t) : Spaced s :=
  ⟨fun c hc => h.1 c (hs.subset hc), List.IsChain.infix h.2 hs⟩

theorem spaced_cons_cons {d : Char} : Spaced (c :: d :: l) ↔
    (isSegmentChar c = true ∨ c = '_') ∧ (c = '_' → d ≠ '_') ∧ Spaced (d :: l) := by
  simp only [Spaced, List.isChain_cons_cons, List.forall_mem_cons]
  tauto

theorem isSegment_cons_cons {d : Char} : isSegment (c :: d :: l) = true ↔
    isSegmentChar c = true ∧ (d = '_' ∧ isSegment l = true ∨
      d ≠ '_' ∧ isSegment (d :: l) = true) := by
  rw [isSegment, Bool.and_eq_true]
  split_ifs with hd <;> simp [hd]

theorem spaced_singleton : Spaced [c] ↔ isSegmentChar c = true ∨ c = '_' := by
  simp [Spaced]

/-- A segment is spaced and has no underscore at an end. -/
theorem isSegment_iff : isSegment l = true ↔
    Spaced l ∧ l ≠ [] ∧ l.head? ≠ some '_' ∧ l.getLast? ≠ some '_' := by
  induction l using isSegment.induct with
  | case1 => simp [isSegment]
  | case2 c =>
    rw [isSegment, spaced_singleton]
    constructor
    · intro h
      exact ⟨Or.inl h, by simp, by simpa using isSegmentChar_ne h, by simpa using isSegmentChar_ne h⟩
    · rintro ⟨h, -, hne, -⟩
      exact h.resolve_right (by simpa using hne)
  | case3 c d rest ih ih' =>
    rw [isSegment_cons_cons, spaced_cons_cons]
    by_cases hd : d = '_'
    · subst hd
      cases rest with
      | nil => simp [isSegment]
      | cons e rest =>
        rw [ih, spaced_cons_cons]
        simp only [ne_eq, reduceCtorEq, not_false_eq_true, List.head?_cons, Option.some.injEq,
          List.getLast?_cons_cons, true_and, or_true, not_true_eq_false, false_and, or_false]
        constructor
        · rintro ⟨hc, hspaced, he, hlast⟩
          exact ⟨⟨Or.inl hc, isSegmentChar_ne hc, fun _ => he, hspaced⟩, isSegmentChar_ne hc, hlast⟩
        · rintro ⟨⟨hc, -, he, hspaced⟩, hne, hlast⟩
          exact ⟨hc.resolve_right hne, hspaced, he trivial, hlast⟩
    · rw [ih']
      simp only [hd, ne_eq, reduceCtorEq, not_false_eq_true, List.head?_cons, Option.some.injEq,
        List.getLast?_cons_cons, true_and, false_and, false_or, implies_true]
      constructor
      · rintro ⟨hc, hspaced, hlast⟩
        exact ⟨⟨Or.inl hc, hspaced⟩, isSegmentChar_ne hc, hlast⟩
      · rintro ⟨⟨hc, hspaced⟩, hne, hlast⟩
        exact ⟨hc.resolve_right hne, hspaced, hlast⟩

/-! ### What makes segments -/

theorem spaced_dropTrailingUnderscores (h : Spaced l) : Spaced (dropTrailingUnderscores l) :=
  Spaced.part h (by
    have hsuffix := List.dropWhile_suffix (· = '_') (l := l.reverse)
    rw [← List.reverse_prefix, List.reverse_reverse] at hsuffix
    exact hsuffix.isInfix)

theorem getLast?_dropTrailingUnderscores : (dropTrailingUnderscores l).getLast? ≠ some '_' := by
  unfold dropTrailingUnderscores
  rw [List.getLast?_reverse]
  intro h
  have := List.head?_dropWhile_not (fun c : Char => decide (c = '_')) l.reverse
  rw [h] at this
  simp at this

theorem head?_dropTrailingUnderscores (h : l.head? ≠ some '_') :
    (dropTrailingUnderscores l).head? ≠ some '_' := by
  intro h'
  apply h
  have hsuffix := List.dropWhile_suffix (· = '_') (l := l.reverse)
  rw [← List.reverse_prefix, List.reverse_reverse] at hsuffix
  obtain ⟨rest, hrest⟩ := hsuffix
  rw [← hrest, List.head?_append_of_ne_nil]
  · exact h'
  · intro hnil
    unfold dropTrailingUnderscores at h'
    rw [hnil] at h'
    cases h'

/-- What is spaced, begins with no underscore and has a letter or digit is a segment once the
underscores at its end are dropped. -/
theorem isSegment_dropTrailingUnderscores (h : Spaced l) (hhead : l.head? ≠ some '_')
    (hany : (dropTrailingUnderscores l).any isAlphanumeric = true) :
    isSegment (dropTrailingUnderscores l) = true := by
  refine isSegment_iff.2 ⟨spaced_dropTrailingUnderscores h, ?_,
    head?_dropTrailingUnderscores hhead, getLast?_dropTrailingUnderscores⟩
  intro hnil
  rw [hnil] at hany
  cases hany

/-! ### Normalized segments -/

theorem mem_replaceRuns {p : Char → Bool} (h : c ∈ replaceRuns p l) :
    c = '_' ∨ c ∈ l ∧ p c = false := by
  induction l using replaceRuns.induct p with
  | case1 => cases h
  | case2 d =>
    simp only [replaceRuns, List.mem_singleton] at h
    split_ifs at h with hp
    · exact Or.inl h
    · exact Or.inr ⟨by simp [h], by simpa [h] using hp⟩
  | case3 d e rest hp ih =>
    rw [replaceRuns, if_pos hp] at h
    exact (ih h).imp id fun h => ⟨List.mem_cons_of_mem _ h.1, h.2⟩
  | case4 d e rest hp ih =>
    rw [replaceRuns, if_neg hp, List.mem_cons] at h
    rcases h with h | h
    · split_ifs at h with hd
      · exact Or.inl h
      · exact Or.inr ⟨by simp [h], by simpa [h] using hd⟩
    · exact (ih h).imp id fun h => ⟨List.mem_cons_of_mem _ h.1, h.2⟩

theorem head?_replaceRuns {p : Char → Bool} (d : Char) (rest : List Char) :
    (replaceRuns p (d :: rest)).head? = some (if p d then '_' else d) := by
  induction rest generalizing d with
  | nil => rfl
  | cons e rest ih =>
    rw [replaceRuns]
    by_cases hp : (p d && p e) = true
    · obtain ⟨hd, he⟩ := Bool.and_eq_true_iff.1 hp
      rw [if_pos hp, ih, if_pos he, if_pos hd]
    · rw [if_neg hp]
      rfl

/-- Runs of underscores become single ones. -/
theorem isChain_replaceRuns (l : List Char) :
    (replaceRuns (· = '_') l).IsChain fun a b => a = '_' → b ≠ '_' := by
  induction l using replaceRuns.induct (fun c => decide (c = '_')) with
  | case1 => exact .nil
  | case2 d => exact .singleton _
  | case3 d e rest hp ih =>
    rw [replaceRuns, if_pos hp]
    exact ih
  | case4 d e rest hp ih =>
    rw [replaceRuns, if_neg hp]
    refine List.IsChain.cons ih fun b hb hd => ?_
    rw [head?_replaceRuns, Option.mem_some_iff] at hb
    have hunderscore : d = '_' := by
      split_ifs at hd with h
      · simpa using h
      · exact hd
    have he : ¬e = '_' := by simpa [hunderscore] using hp
    rw [← hb, if_neg (by simpa using he)]
    exact he

theorem head?_dropWhile_underscores (l : List Char) :
    (l.dropWhile (· = '_')).head? ≠ some '_' := by
  intro h
  have := List.head?_dropWhile_not (fun c : Char => decide (c = '_')) l
  rw [h] at this
  simp at this

theorem spaced_replaceRuns (l : List Char) : Spaced (replaceRuns (· = '_')
    (replaceRuns (fun c => !(isSegmentChar c || c = '_')) l)) := by
  refine ⟨fun c hc => ?_, isChain_replaceRuns _⟩
  rcases mem_replaceRuns hc with h | ⟨h, -⟩
  · exact Or.inr h
  · rcases mem_replaceRuns h with h | ⟨-, h⟩
    · exact Or.inr h
    · have hchar : isSegmentChar c = false → c = '_' := by simpa using h
      exact (Bool.eq_false_or_eq_true (isSegmentChar c)).imp id hchar

end Segments

/-! ### Valid segments -/

/-- A valid segment of at most so many characters. -/
structure Fits (max : ℕ) (segment : String) : Prop where
  valid : validSegment segment = true
  length_le : segment.length ≤ max

theorem validSegment_ofList {l : List Char} (h : isSegment l = true)
    (hany : l.any isAlphanumeric = true) : validSegment (String.ofList l) = true := by
  simp [validSegment, h, hany]

theorem validSegment_kind (kind : NameKind) : validSegment kind.text = true := by
  cases kind <;> decide

theorem normalize_valid {value : String} {kind : NameKind} {segment : String}
    (h : normalizeMcpNameSegment value kind = .ok segment) : validSegment segment = true := by
  unfold normalizeMcpNameSegment at h
  split_ifs at h with hinvalid
  injection h with h
  subst h
  split_ifs with hany
  · exact validSegment_ofList (isSegment_dropTrailingUnderscores
      (Spaced.part (spaced_replaceRuns _) (List.dropWhile_suffix _).isInfix)
      (head?_dropWhile_underscores _) hany) hany
  · exact validSegment_kind kind

/-- The beginnings of the kinds' names are segments. -/
theorem fits_kind_take (kind : NameKind) {max : ℕ} (h : 0 < max) :
    Fits max (String.ofList (kind.text.toList.take max)) := by
  by_cases hmax : 6 ≤ max
  · have hlength : kind.text.toList.length ≤ max := by cases kind <;> exact le_trans (by decide) hmax
    rw [List.take_of_length_le hlength, String.ofList_toList]
    exact ⟨validSegment_kind kind, by rwa [← String.length_toList]⟩
  · interval_cases max <;> cases kind <;> exact ⟨by decide, by decide⟩

theorem length_dropTrailingUnderscores_le (l : List Char) :
    (dropTrailingUnderscores l).length ≤ l.length := by
  unfold dropTrailingUnderscores
  rw [List.length_reverse]
  exact (List.dropWhile_suffix _).length_le.trans (by simp)

theorem shorten_fits {segment : String} {max : ℕ} {kind : NameKind} (h : 0 < max)
    (hsegment : validSegment segment = true) :
    ∃ shortened, shortenMcpNameSegment segment max kind = .ok shortened ∧ Fits max shortened := by
  obtain ⟨hspaced, -, hhead, -⟩ := isSegment_iff.1 (Bool.and_eq_true_iff.1 hsegment).1
  have hhead' : (segment.toList.take max).head? ≠ some '_' := by
    cases max with
    | zero => exact absurd h (lt_irrefl _)
    | succ max => cases hlist : segment.toList <;> simp_all
  unfold shortenMcpNameSegment
  rw [if_neg (by omega)]
  refine ⟨_, rfl, ?_⟩
  split_ifs with hany
  · refine ⟨validSegment_ofList (isSegment_dropTrailingUnderscores
      (hspaced.part (List.take_prefix _ _).isInfix) hhead' hany) hany, ?_⟩
    rw [String.length_ofList]
    exact (length_dropTrailingUnderscores_le _).trans (List.length_take_le _ _)
  · exact fits_kind_take kind h

/-! ### Numbered segments -/

/-- Two segments with an underscore between them are a segment. -/
theorem isSegment_append {s t : List Char} (hs : isSegment s = true) (ht : isSegment t = true) :
    isSegment (s ++ '_' :: t) = true := by
  induction s using isSegment.induct with
  | case1 => cases hs
  | case2 c =>
    rw [List.singleton_append, isSegment_cons_cons]
    exact ⟨hs, Or.inl ⟨rfl, ht⟩⟩
  | case3 c d rest ih ih' =>
    obtain ⟨hc, ⟨rfl, hrest⟩ | ⟨hd, hrest⟩⟩ := isSegment_cons_cons.1 hs
    · exact isSegment_cons_cons.2 ⟨hc, Or.inl ⟨rfl, ih hrest⟩⟩
    · exact isSegment_cons_cons.2 ⟨hc, Or.inr ⟨hd, ih' hrest⟩⟩

theorem isSegment_of_all {l : List Char} (hne : l ≠ []) (h : ∀ c ∈ l, isSegmentChar c = true) :
    isSegment l = true := by
  induction l with
  | nil => exact absurd rfl hne
  | cons c l ih =>
    cases l with
    | nil => exact h c (by simp)
    | cons d l =>
      refine isSegment_cons_cons.2 ⟨h c (by simp), Or.inr ⟨?_, ih (by simp) fun e he => h e (by simp [he])⟩⟩
      exact isSegmentChar_ne (h d (by simp))

theorem toList_suffixOf (number : ℕ) :
    (suffixOf number).toList = '_' :: Nat.toDigits 10 number := by
  rw [suffixOf, String.toList_append, Nat.toString_eq_ofList_toDigits, String.toList_ofList,
    String.toList_ofList]
  rfl

theorem isSegment_toDigits (number : ℕ) : isSegment (Nat.toDigits 10 number) = true := by
  refine isSegment_of_all Nat.toDigits_ne_nil fun c hc => ?_
  have hdigit := Nat.isDigit_of_mem_toDigits (by decide) (by decide) hc
  simp only [Char.isDigit, Bool.and_eq_true, decide_eq_true_eq] at hdigit
  simp only [isSegmentChar, isAlphanumeric, Bool.or_eq_true, Bool.and_eq_true, decide_eq_true_eq,
    Char.le_def]
  exact Or.inl (Or.inr hdigit)

theorem validSegment_numbered {segment : String} (h : validSegment segment = true) (number : ℕ) :
    validSegment (segment ++ suffixOf number) = true := by
  obtain ⟨hsegment, hany⟩ := Bool.and_eq_true_iff.1 h
  refine Bool.and_eq_true_iff.2 ⟨?_, ?_⟩
  · rw [String.toList_append, toList_suffixOf]
    exact isSegment_append hsegment (isSegment_toDigits number)
  · rw [String.toList_append, List.any_append, hany, Bool.true_or]

/-! ### Public names -/

/-- A segment is not continued by underscores. -/
theorem append_eq_nil_of_underscores {s m t t' : List Char} (hs : isSegment (s ++ m) = true)
    (h : '_' :: '_' :: t = m ++ '_' :: '_' :: t') : m = [] := by
  obtain ⟨⟨-, hchain⟩, -, -, hlast⟩ := isSegment_iff.1 hs
  match m with
  | [] => rfl
  | [x] =>
    obtain ⟨rfl, -⟩ := List.cons.inj h
    simp at hlast
  | x :: y :: m =>
    obtain ⟨rfl, hrest⟩ := List.cons.inj h
    obtain ⟨rfl, -⟩ := List.cons.inj hrest
    have hinfix : ['_', '_'] <:+: s ++ '_' :: '_' :: m := ⟨s, m, by simp⟩
    have hpair := List.IsChain.infix hchain hinfix
    exact absurd rfl (List.isChain_pair.1 hpair rfl)

/-- A segment ends where two underscores follow. -/
theorem segment_append_inj {s s' t t' : List Char} (hs : isSegment s = true)
    (hs' : isSegment s' = true) (h : s ++ '_' :: '_' :: t = s' ++ '_' :: '_' :: t') :
    s = s' ∧ t = t' := by
  rcases List.append_eq_append_iff.1 h with ⟨m, rfl, hrest⟩ | ⟨m, rfl, hrest⟩
  · obtain rfl := append_eq_nil_of_underscores hs' hrest
    simpa using hrest
  · obtain rfl := append_eq_nil_of_underscores hs hrest
    simpa [eq_comm] using hrest

theorem toList_publicName (server tool : String) : (publicName server tool).toList =
    "mcp__".toList ++ (server.toList ++ '_' :: '_' :: tool.toList) := by
  simp [publicName, String.toList_append]

theorem publicName_inj {server server' tool tool' : String} (hs : validSegment server = true)
    (hs' : validSegment server' = true)
    (h : publicName server tool = publicName server' tool') : server = server' ∧ tool = tool' := by
  have hlist := congrArg String.toList h
  rw [toList_publicName, toList_publicName] at hlist
  obtain ⟨hserver, htool⟩ := segment_append_inj (Bool.and_eq_true_iff.1 hs).1
    (Bool.and_eq_true_iff.1 hs').1 (List.append_cancel_left hlist)
  exact ⟨String.toList_inj.1 hserver, String.toList_inj.1 htool⟩

theorem length_publicName (server tool : String) :
    (publicName server tool).length = server.length + tool.length + 7 := by
  have hprefix : "mcp__".toList.length = 5 := rfl
  have hlength := congrArg List.length (toList_publicName server tool)
  simp only [List.length_append, List.length_cons, hprefix] at hlength
  simp only [← String.length_toList]
  omega

/-- A character of a public name. -/
def isNameChar (c : Char) : Bool := isAlphanumeric c || c = '_' || c = '-'

theorem all_isNameChar_publicName {server tool : String} (hs : validSegment server = true)
    (ht : validSegment tool = true) : (publicName server tool).toList.all isNameChar = true := by
  have hsegment {segment : String} (h : validSegment segment = true) :
      ∀ c ∈ segment.toList, isNameChar c = true := by
    intro c hc
    have hchar := (isSegment_iff.1 (Bool.and_eq_true_iff.1 h).1).1.1 c hc
    simp only [isSegmentChar, Bool.or_eq_true, decide_eq_true_eq] at hchar
    simp only [isNameChar, Bool.or_eq_true, decide_eq_true_eq]
    tauto
  rw [toList_publicName, List.all_append, List.all_append, Bool.and_eq_true, Bool.and_eq_true]
  refine ⟨by decide, List.all_eq_true.2 (hsegment hs), ?_⟩
  rw [List.all_cons, List.all_cons, List.all_eq_true.2 (hsegment ht)]
  decide

end Kinetick.Mcp
