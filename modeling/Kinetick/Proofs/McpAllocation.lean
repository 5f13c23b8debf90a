import Kinetick.Proofs.McpSegments

/-!
# What an allocation gives

Every key that is asked about gets one name or one error. A saved key keeps its name; the other
names are segments that fit, are not saved for anyone and are given once.
-/

namespace Kinetick.Mcp

/-! ### Maps -/

theorem mapSet_of_notMem {α : Type} {key : String} {value : α} {map : List (String × α)}
    (h : key ∉ map.map Prod.fst) : mapSet key value map = map ++ [(key, value)] := by
  induction map with
  | nil => rfl
  | cons entry map ih =>
    simp only [List.map_cons, List.mem_cons, not_or] at h
    rw [mapSet, if_neg (Ne.symm h.1), ih h.2, List.cons_append]

theorem keys_mapSet {α : Type} (key : String) (value : α) (map : List (String × α)) :
    (mapSet key value map).map Prod.fst =
      if key ∈ map.map Prod.fst then map.map Prod.fst else map.map Prod.fst ++ [key] := by
  induction map with
  | nil => rfl
  | cons entry map ih =>
    rw [mapSet]
    by_cases hkey : entry.1 = key
    · simp [hkey]
    · rw [if_neg hkey, List.map_cons, List.map_cons, ih]
      by_cases hmem : key ∈ map.map Prod.fst
      · rw [if_pos hmem, if_pos (List.mem_cons_of_mem _ hmem)]
      · rw [if_neg hmem, if_neg, List.cons_append]
        rintro (_ | ⟨_, h⟩)
        · exact hkey rfl
        · exact hmem h

theorem nodup_keys_mapSet {α : Type} {key : String} {value : α} {map : List (String × α)}
    (h : (map.map Prod.fst).Nodup) : ((mapSet key value map).map Prod.fst).Nodup := by
  rw [keys_mapSet]
  split_ifs with hmem
  · exact h
  · refine List.nodup_append.2 ⟨h, List.nodup_singleton _, fun a ha b hb hab => ?_⟩
    rw [List.mem_singleton.1 hb] at hab
    exact hmem (hab ▸ ha)

/-! ### Numbers -/

theorem takeNumber_spec {used : List String} {base : String} {kind : NameKind} {max : ℕ}
    (hbase : validSegment base = true) (number : ℕ) :
    ∃ r, takeNumber used base kind max number = .ok r ∧
      ∀ candidate ∈ r, Fits max candidate ∧ candidate ∉ used := by
  induction number using takeNumber.induct used base kind max with
  | case1 number hroom =>
    rw [takeNumber, dif_pos hroom]
    exact ⟨none, rfl, nofun⟩
  | case2 number hroom message herror =>
    obtain ⟨shortened, hok, -⟩ := @shorten_fits base
      (max - (suffixOf number).length) kind (by omega) hbase
    rw [herror] at hok
    cases hok
  | case3 number hroom shortened hok hused ih =>
    rw [takeNumber, dif_neg hroom, hok]
    simp only [hused, if_true]
    exact ih
  | case4 number hroom shortened hok hfree =>
    obtain ⟨_, hok', hfits⟩ := @shorten_fits base
      (max - (suffixOf number).length) kind (by omega) hbase
    obtain rfl := Except.ok.inj (hok.symm.trans hok')
    rw [takeNumber, dif_neg hroom, hok]
    simp only [hfree]
    refine ⟨_, rfl, ?_⟩
    rintro _ ⟨rfl⟩
    refine ⟨⟨validSegment_numbered hfits.valid number, ?_⟩, by simpa using hfree⟩
    have := hfits.length_le
    rw [String.length_append]
    omega

/-! ### Allocations -/

/-- The keys that were given a name or an error. -/
def Allocation.keys (a : Allocation) : List String := a.names.map Prod.fst ++ a.errors.map Prod.fst

section

variable (existing : List (String × String)) (max : ℕ)

/-- What holds while names are allocated. -/
structure Allocation.Good (a : Allocation) : Prop where
  existing_used : ∀ n ∈ existing.map Prod.snd, n ∈ a.used
  names : ∀ k n, (k, n) ∈ a.names → existing.lookup k = some n ∨
    existing.lookup k = none ∧ n ∈ a.used ∧ n ∉ existing.map Prod.snd ∧ Fits max n
  errors : ∀ k ∈ a.errors.map Prod.fst, existing.lookup k = none
  distinct : ∀ k k' n, (k, n) ∈ a.names → (k', n) ∈ a.names → existing.lookup k = none →
    existing.lookup k' = none → k = k'

/-- A key without a name, and a segment for it. -/
structure PendingName.Good (p : PendingName) : Prop where
  unsaved : existing.lookup p.key = none
  fits : Fits max p.base

variable {existing max} {a : Allocation} {key segment message : String}

theorem Allocation.keys_give (h : key ∉ a.keys) : (a.give key segment).keys.Perm (a.keys ++ [key]) := by
  simp only [keys, List.mem_append, not_or] at h
  simp only [keys, give, mapSet_of_notMem h.1, List.map_append, List.map_cons, List.map_nil,
    List.append_assoc]
  exact (List.perm_append_comm).append_left _

theorem Allocation.keys_refuse (h : key ∉ a.keys) : (a.refuse key message).keys = a.keys ++ [key] := by
  simp only [keys, List.mem_append, not_or] at h
  simp [keys, refuse, mapSet_of_notMem h.2]

theorem Allocation.Good.give (h : a.Good existing max) (hkey : key ∉ a.keys)
    (hunsaved : existing.lookup key = none) (hfree : segment ∉ a.used) (hfits : Fits max segment) :
    (a.give key segment).Good existing max := by
  have hnames : mapSet key segment a.names = a.names ++ [(key, segment)] :=
    mapSet_of_notMem fun hmem => hkey (List.mem_append_left _ hmem)
  have hfresh (k : String) (hk : (k, segment) ∈ a.names) : existing.lookup k ≠ none := by
    rcases h.names k segment hk with hsaved | ⟨-, hused, -⟩
    · simp [hsaved]
    · exact absurd hused hfree
  refine ⟨fun n hn => List.mem_cons_of_mem _ (h.existing_used n hn), fun k n hk => ?_, h.errors,
    fun k k' n hk hk' hnone hnone' => ?_⟩
  · simp only [Allocation.give, hnames, List.mem_append, List.mem_singleton, Prod.mk.injEq] at hk
    rcases hk with hk | ⟨rfl, rfl⟩
    · exact (h.names k n hk).imp id fun h => ⟨h.1, List.mem_cons_of_mem _ h.2.1, h.2.2⟩
    · exact Or.inr ⟨hunsaved, by simp [Allocation.give], fun hn => hfree (h.existing_used _ hn), hfits⟩
  · simp only [Allocation.give, hnames, List.mem_append, List.mem_singleton, Prod.mk.injEq] at hk hk'
    rcases hk with hk | ⟨rfl, rfl⟩
    · rcases hk' with hk' | ⟨rfl, rfl⟩
      · exact h.distinct k k' n hk hk' hnone hnone'
      · exact absurd hnone (hfresh k hk)
    · rcases hk' with hk' | ⟨rfl, -⟩
      · exact absurd hnone' (hfresh k' hk')
      · rfl

theorem Allocation.Good.refuse (h : a.Good existing max) (hkey : key ∉ a.keys)
    (hunsaved : existing.lookup key = none) : (a.refuse key message).Good existing max := by
  have herrors : mapSet key message a.errors = a.errors ++ [(key, message)] :=
    mapSet_of_notMem fun hmem => hkey (List.mem_append_right _ hmem)
  refine ⟨h.existing_used, h.names, fun k hk => ?_, h.distinct⟩
  simp only [Allocation.refuse, herrors, List.map_append, List.mem_append] at hk
  rcases hk with hk | hk
  · exact h.errors k hk
  · simp only [List.map_cons, List.map_nil, List.mem_singleton] at hk
    rw [hk, hunsaved]

/-- A saved name is given again. -/
theorem Allocation.Good.keep (h : a.Good existing max) (hkey : key ∉ a.keys)
    (hsaved : existing.lookup key = some segment) :
    Allocation.Good existing max { a with names := mapSet key segment a.names } := by
  have hnames : mapSet key segment a.names = a.names ++ [(key, segment)] :=
    mapSet_of_notMem fun hmem => hkey (List.mem_append_left _ hmem)
  refine ⟨h.existing_used, fun k n hk => ?_, h.errors, fun k k' n hk hk' hunsaved hunsaved' => ?_⟩
  · simp only [hnames, List.mem_append, List.mem_singleton, Prod.mk.injEq] at hk
    rcases hk with hk | ⟨rfl, rfl⟩
    · exact h.names k n hk
    · exact Or.inl hsaved
  · simp only [hnames, List.mem_append, List.mem_singleton, Prod.mk.injEq] at hk hk'
    rcases hk with hk | ⟨rfl, rfl⟩
    · rcases hk' with hk' | ⟨rfl, rfl⟩
      · exact h.distinct k k' n hk hk' hunsaved hunsaved'
      · simp [hsaved] at hunsaved'
    · simp [hsaved] at hunsaved

/-! ### The loops -/

theorem perm_of_key {ks ks' ps cs : List String} (h : ks'.Perm (ks ++ [key])) :
    (ks' ++ ps ++ cs).Perm (ks ++ ps ++ key :: cs) := by
  refine ((h.append_right ps).append_right cs).trans ?_
  simp only [List.append_assoc, List.singleton_append]
  exact List.perm_middle.symm.append_left ks

theorem gather_spec {kind : NameKind} (hmax : 0 < max) : ∀ (candidates : List McpNameCandidate)
    (a : Allocation) (pending : List PendingName), a.Good existing max →
    (∀ p ∈ pending, p.Good existing max) →
    (a.keys ++ pending.map PendingName.key ++ candidates.map McpNameCandidate.key).Nodup →
    ∃ a' pending', gather existing kind max candidates (a, pending) = (a', pending') ∧
      a'.Good existing max ∧ (∀ p ∈ pending', p.Good existing max) ∧
      (a'.keys ++ pending'.map PendingName.key).Perm
        (a.keys ++ pending.map PendingName.key ++ candidates.map McpNameCandidate.key)
  | [], a, pending, ha, hpending, _ => ⟨a, pending, rfl, ha, hpending, by simp⟩
  | ⟨key, name⟩ :: candidates, a, pending, ha, hpending, hnodup => by
    have hkey : key ∉ a.keys := by
      intro hmem
      rw [List.map_cons, List.append_assoc] at hnodup
      exact (List.nodup_append.1 hnodup).2.2 key hmem key (by simp) rfl
    have hafter {a' : Allocation} (ha' : a'.Good existing max)
        (hkeys : a'.keys.Perm (a.keys ++ [key])) :
        ∃ a'' pending'', gather existing kind max candidates (a', pending) = (a'', pending'') ∧
          a''.Good existing max ∧ (∀ p ∈ pending'', p.Good existing max) ∧
          (a''.keys ++ pending''.map PendingName.key).Perm
            (a.keys ++ pending.map PendingName.key ++ key :: candidates.map McpNameCandidate.key) := by
      have hperm := @perm_of_key _ _ _ (pending.map PendingName.key)
        (candidates.map McpNameCandidate.key) hkeys
      obtain ⟨a'', pending'', hgather, hgood, hpending'', hperm''⟩ :=
        @gather_spec kind hmax candidates a' pending ha' hpending (hperm.nodup_iff.2 hnodup)
      exact ⟨a'', pending'', hgather, hgood, hpending'', hperm''.trans hperm⟩
    rw [gather]
    cases hlookup : existing.lookup key with
    | some saved => exact hafter (ha.keep hkey hlookup) (Allocation.keys_give hkey)
    | none =>
      cases hbase : normalizeMcpNameSegment name kind >>= (shortenMcpNameSegment · max kind) with
      | error message =>
        exact hafter (ha.refuse hkey hlookup) (Allocation.keys_refuse hkey ▸ List.Perm.refl _)
      | ok base =>
        have hfits : Fits max base := by
          cases hnormal : normalizeMcpNameSegment name kind with
          | error message =>
            rw [hnormal] at hbase
            cases hbase
          | ok segment =>
            rw [hnormal] at hbase
            obtain ⟨_, hok, hfits⟩ := @shorten_fits _ _ kind hmax (normalize_valid hnormal)
            obtain rfl := Except.ok.inj (hbase.symm.trans hok)
            exact hfits
        have hpending' : ∀ p ∈ pending ++ [⟨key, base, decide (base = name)⟩],
            PendingName.Good existing max p := by
          intro p hp
          rcases List.mem_append.1 hp with hp | hp
          · exact hpending p hp
          · rw [List.mem_singleton.1 hp]
            exact ⟨hlookup, hfits⟩
        obtain ⟨a', pending', hgather, hgood, hgood', hperm⟩ := @gather_spec kind hmax
          candidates a _ ha hpending' (by simpa using hnodup)
        exact ⟨a', pending', hgather, hgood, hgood', hperm.trans (by simp)⟩

theorem takeBases_spec : ∀ (pending : List PendingName) (a : Allocation)
    (conflicts : List PendingName), a.Good existing max → (∀ p ∈ pending, p.Good existing max) →
    (∀ p ∈ conflicts, p.Good existing max) →
    (a.keys ++ conflicts.map PendingName.key ++ pending.map PendingName.key).Nodup →
    ∃ a' conflicts', takeBases pending (a, conflicts) = (a', conflicts') ∧
      a'.Good existing max ∧ (∀ p ∈ conflicts', p.Good existing max) ∧
      (a'.keys ++ conflicts'.map PendingName.key).Perm
        (a.keys ++ conflicts.map PendingName.key ++ pending.map PendingName.key)
  | [], a, conflicts, ha, _, hconflicts, _ => ⟨a, conflicts, rfl, ha, hconflicts, by simp⟩
  | entry :: pending, a, conflicts, ha, hpending, hconflicts, hnodup => by
    have hkey : entry.key ∉ a.keys := by
      intro hmem
      rw [List.map_cons, List.append_assoc] at hnodup
      exact (List.nodup_append.1 hnodup).2.2 entry.key hmem entry.key (by simp) rfl
    obtain ⟨hentry, hpending⟩ := List.forall_mem_cons.1 hpending
    rw [takeBases]
    split_ifs with hused
    · have hconflicts' : ∀ p ∈ conflicts ++ [entry], PendingName.Good existing max p := by
        intro p hp
        rcases List.mem_append.1 hp with hp | hp
        · exact hconflicts p hp
        · rw [List.mem_singleton.1 hp]
          exact hentry
      obtain ⟨a', conflicts', htake, hgood, hgood', hperm⟩ := takeBases_spec pending a _ ha hpending
        hconflicts' (by simpa using hnodup)
      exact ⟨a', conflicts', htake, hgood, hgood', hperm.trans (by simp)⟩
    · have hfree : entry.base ∉ a.used := by simpa using hused
      have hperm := @perm_of_key _ _ _ (conflicts.map PendingName.key)
        (pending.map PendingName.key) (@Allocation.keys_give _ _ entry.base hkey)
      obtain ⟨a', conflicts', htake, hgood, hgood', hperm'⟩ := takeBases_spec pending
        (a.give entry.key entry.base) conflicts (ha.give hkey hentry.unsaved hfree hentry.fits)
        hpending hconflicts (hperm.nodup_iff.2 hnodup)
      exact ⟨a', conflicts', htake, hgood, hgood', hperm'.trans hperm⟩

theorem resolveConflicts_spec {kind : NameKind} : ∀ (conflicts : List PendingName)
    (a : Allocation), a.Good existing max → (∀ p ∈ conflicts, p.Good existing max) →
    (a.keys ++ conflicts.map PendingName.key).Nodup →
    ∃ a', resolveConflicts kind max conflicts a = .ok a' ∧ a'.Good existing max ∧
      a'.keys.Perm (a.keys ++ conflicts.map PendingName.key)
  | [], a, ha, _, _ => ⟨a, rfl, ha, by simp⟩
  | ⟨key, base, natural⟩ :: conflicts, a, ha, hconflicts, hnodup => by
    have hkey : key ∉ a.keys := fun hmem =>
      (List.nodup_append.1 hnodup).2.2 key hmem key (by simp) rfl
    obtain ⟨hentry, hconflicts⟩ := List.forall_mem_cons.1 hconflicts
    obtain ⟨r, hr, hcandidate⟩ := @takeNumber_spec a.used _ kind max
      hentry.fits.valid 2
    have hafter {a' : Allocation} (ha' : a'.Good existing max)
        (hkeys : a'.keys.Perm (a.keys ++ [key])) :
        ∃ a'', resolveConflicts kind max conflicts a' = .ok a'' ∧ a''.Good existing max ∧
          a''.keys.Perm (a.keys ++ key :: conflicts.map PendingName.key) := by
      have hperm := @perm_of_key _ _ _ [] (conflicts.map PendingName.key) hkeys
      simp only [List.append_nil] at hperm
      obtain ⟨a'', hresolve, hgood, hperm'⟩ := @resolveConflicts_spec kind conflicts a' ha'
        hconflicts (hperm.nodup_iff.2 hnodup)
      exact ⟨a'', hresolve, hgood, hperm'.trans hperm⟩
    rw [resolveConflicts, hr]
    cases r with
    | none => exact hafter (ha.refuse hkey hentry.unsaved) (Allocation.keys_refuse hkey ▸ .refl _)
    | some candidate =>
      obtain ⟨hfits, hfree⟩ := hcandidate candidate rfl
      exact hafter (ha.give hkey hentry.unsaved hfree hfits) (Allocation.keys_give hkey)

end

/-! ### The order of the keys -/

theorem codeUnits_injective : Function.Injective codeUnits := by
  have hlists : ∀ cs ds : List Char, cs.flatMap (fun c =>
      if c.toNat < 65536 then [c.toNat]
      else [55296 + (c.toNat - 65536) / 1024, 56320 + (c.toNat - 65536) % 1024]) =
      ds.flatMap (fun c =>
        if c.toNat < 65536 then [c.toNat]
        else [55296 + (c.toNat - 65536) / 1024, 56320 + (c.toNat - 65536) % 1024]) → cs = ds := by
    intro cs
    induction cs with
    | nil =>
      intro ds h
      cases ds with
      | nil => rfl
      | cons d ds =>
        rw [List.flatMap_nil, List.flatMap_cons] at h
        split_ifs at h <;> cases h
    | cons c cs ih =>
      intro ds h
      cases ds with
      | nil =>
        rw [List.flatMap_nil, List.flatMap_cons] at h
        split_ifs at h <;> cases h
      | cons d ds =>
        have hc : c.toNat.isValidChar := c.valid
        have hd : d.toNat.isValidChar := d.valid
        unfold Nat.isValidChar at hc hd
        rw [List.flatMap_cons, List.flatMap_cons] at h
        split_ifs at h with hc' hd' hd'
        · obtain ⟨hcd, hrest⟩ := List.cons.inj h
          rw [Char.toNat_inj.1 hcd, ih ds hrest]
        · obtain ⟨hcd, -⟩ := List.cons.inj h
          omega
        · obtain ⟨hcd, -⟩ := List.cons.inj h
          omega
        · obtain ⟨hhigh, h⟩ := List.cons.inj h
          obtain ⟨hlow, hrest⟩ := List.cons.inj h
          have hcd : c.toNat = d.toNat := by omega
          rw [Char.toNat_inj.1 hcd, ih ds hrest]
  intro a b h
  exact String.toList_inj.1 (hlists a.toList b.toList h)

/-- Sorting forgets the order where the keys are distinct. -/
theorem insertionSort_eq_of_perm {α : Type} {le : α → α → Prop} [DecidableRel le] [Std.Total le]
    [IsTrans α le] {l l' : List α} (h : l.Perm l')
    (hantisymm : ∀ a ∈ l, ∀ b ∈ l, le a b → le b a → a = b) :
    l.insertionSort le = l'.insertionSort le := by
  have hperm : (l.insertionSort le).Perm (l'.insertionSort le) :=
    ((l.perm_insertionSort le).trans h).trans (l'.perm_insertionSort le).symm
  refine List.Perm.eq_of_pairwise (fun a b ha hb => ?_) (List.pairwise_insertionSort le l)
    (List.pairwise_insertionSort le l') hperm
  exact hantisymm a ((List.mem_insertionSort le).1 ha) b
    (h.mem_iff.2 ((List.mem_insertionSort le).1 hb))

/-! ### Candidates -/

theorem mem_mapSet {α : Type} {key : String} {value : α} {map : List (String × α)}
    {p : String × α} (h : p ∈ mapSet key value map) : p = (key, value) ∨ p ∈ map := by
  induction map with
  | nil => exact Or.inl (List.mem_singleton.1 h)
  | cons entry map ih =>
    rw [mapSet] at h
    split_ifs at h
    · exact (List.mem_cons.1 h).imp id (List.mem_cons_of_mem _)
    · rcases List.mem_cons.1 h with rfl | h
      · exact Or.inr List.mem_cons_self
      · exact (ih h).imp id (List.mem_cons_of_mem _)

/-- The map of the candidates. -/
def candidateMap (candidates : List McpNameCandidate) : List (String × McpNameCandidate) :=
  candidates.foldl (fun map entry => mapSet entry.key entry map) []

theorem candidateMap_append (candidates : List McpNameCandidate) (c : McpNameCandidate) :
    candidateMap (candidates ++ [c]) = mapSet c.key c (candidateMap candidates) := by
  simp [candidateMap]

theorem candidateMap_spec (candidates : List McpNameCandidate) :
    ((candidateMap candidates).map Prod.fst).Nodup ∧
      (∀ k, k ∈ (candidateMap candidates).map Prod.fst ↔ k ∈ candidates.map McpNameCandidate.key) ∧
      ∀ p ∈ candidateMap candidates, p.2.key = p.1 ∧ p.2 ∈ candidates := by
  induction candidates using List.reverseRecOn with
  | nil => simp [candidateMap]
  | append_singleton candidates c ih =>
    obtain ⟨hnodup, hkeys, hmem⟩ := ih
    rw [candidateMap_append]
    refine ⟨nodup_keys_mapSet hnodup, fun k => ?_, fun p hp => ?_⟩
    · rw [keys_mapSet]
      split_ifs with hc
      · rw [hkeys, List.map_append, List.mem_append]
        refine ⟨Or.inl, fun h => h.elim id fun h => ?_⟩
        rw [List.map_singleton, List.mem_singleton] at h
        rw [h]
        exact (hkeys _).1 hc
      · rw [List.mem_append, hkeys, List.map_append, List.mem_append]
        rfl
    · rcases mem_mapSet hp with rfl | hp
      · exact ⟨rfl, by simp⟩
      · exact ⟨(hmem p hp).1, List.mem_append_left _ (hmem p hp).2⟩

/-- Candidates are ordered by their keys. -/
abbrev candidateLe (a b : McpNameCandidate) : Prop := ¬codeUnits b.key < codeUnits a.key

instance : Std.Total candidateLe := ⟨fun a b => by
  rcases lt_or_ge (codeUnits b.key) (codeUnits a.key) with h | h
  · exact Or.inr (lt_asymm h)
  · exact Or.inl (not_lt.2 h)⟩

instance : IsTrans McpNameCandidate candidateLe :=
  ⟨fun _ _ _ hab hbc => not_lt.2 ((not_lt.1 hab).trans (not_lt.1 hbc))⟩

theorem candidateLe_antisymm {a b : McpNameCandidate} (hab : candidateLe a b)
    (hba : candidateLe b a) : a.key = b.key :=
  codeUnits_injective (le_antisymm (not_lt.1 hab) (not_lt.1 hba))

theorem distinctCandidates_eq (candidates : List McpNameCandidate) :
    distinctCandidates candidates =
      ((candidateMap candidates).map Prod.snd).insertionSort candidateLe := rfl

theorem keys_candidateMap (candidates : List McpNameCandidate) :
    ((candidateMap candidates).map Prod.snd).map McpNameCandidate.key =
      (candidateMap candidates).map Prod.fst := by
  rw [List.map_map]
  exact List.map_congr_left fun p hp => ((candidateMap_spec candidates).2.2 p hp).1

theorem keys_distinctCandidates (candidates : List McpNameCandidate) :
    ((distinctCandidates candidates).map McpNameCandidate.key).Perm
      ((candidateMap candidates).map Prod.fst) := by
  rw [← keys_candidateMap, distinctCandidates_eq]
  exact (List.perm_insertionSort _ _).map _

/-- Two candidates of one key have one name. -/
def Coherent (candidates : List McpNameCandidate) : Prop :=
  ∀ c ∈ candidates, ∀ c' ∈ candidates, c.key = c'.key → c.name = c'.name

theorem mem_candidateMap {candidates : List McpNameCandidate} (h : Coherent candidates)
    (c : McpNameCandidate) : c ∈ (candidateMap candidates).map Prod.snd ↔ c ∈ candidates := by
  obtain ⟨-, hkeys, hmem⟩ := candidateMap_spec candidates
  constructor
  · intro hc
    obtain ⟨p, hp, rfl⟩ := List.mem_map.1 hc
    exact (hmem p hp).2
  · intro hc
    obtain ⟨⟨key, c'⟩, hp, hkey⟩ := List.mem_map.1
      ((hkeys c.key).2 (List.mem_map_of_mem (f := McpNameCandidate.key) hc))
    obtain ⟨hkey', hc'⟩ := hmem _ hp
    have hsame : c'.key = c.key := hkey'.trans hkey
    have hcc : c' = c := by
      have := h c' hc' c hc hsame
      cases c
      cases c'
      simp_all
    exact List.mem_map.2 ⟨_, hp, hcc⟩

/-- The order of the candidates is forgotten. -/
theorem distinctCandidates_perm {candidates candidates' : List McpNameCandidate}
    (h : candidates.Perm candidates') (hcoherent : Coherent candidates) :
    distinctCandidates candidates = distinctCandidates candidates' := by
  have hcoherent' : Coherent candidates' := fun c hc c' hc' =>
    hcoherent c (h.mem_iff.2 hc) c' (h.mem_iff.2 hc')
  have hnodup (cs : List McpNameCandidate) : ((candidateMap cs).map Prod.snd).Nodup := by
    refine List.Nodup.of_map McpNameCandidate.key ?_
    rw [keys_candidateMap]
    exact (candidateMap_spec cs).1
  rw [distinctCandidates_eq, distinctCandidates_eq]
  refine insertionSort_eq_of_perm ((List.perm_ext_iff_of_nodup (hnodup _) (hnodup _)).2 fun c => ?_)
    fun a ha b hb hab hba => ?_
  · rw [mem_candidateMap hcoherent, mem_candidateMap hcoherent', h.mem_iff]
  · have hkey := candidateLe_antisymm hab hba
    have hname := hcoherent a ((mem_candidateMap hcoherent a).1 ha) b
      ((mem_candidateMap hcoherent b).1 hb) hkey
    cases a
    cases b
    simp_all

/-! ### What is allocated -/

/-- What an allocation gives for the keys. -/
structure Allocated (existing : List (String × String)) (max : ℕ) (keys : List String)
    (r : McpNameAssignments) : Prop where
  nodup : (r.names.map Prod.fst ++ r.errors.map Prod.fst).Nodup
  keys : ∀ k, k ∈ r.names.map Prod.fst ++ r.errors.map Prod.fst ↔ k ∈ keys
  names : ∀ k n, (k, n) ∈ r.names → existing.lookup k = some n ∨
    existing.lookup k = none ∧ n ∉ existing.map Prod.snd ∧ Fits max n
  errors : ∀ k ∈ r.errors.map Prod.fst, existing.lookup k = none
  distinct : ∀ k k' n, (k, n) ∈ r.names → (k', n) ∈ r.names → existing.lookup k = none →
    existing.lookup k' = none → k = k'

variable (parseJson : String → Option JsValue)

theorem allocate_spec {existing : List (String × String)} {kind : NameKind} {max : ℕ}
    (hmax : 0 < max) (candidates : List McpNameCandidate) :
    ∃ r, allocate parseJson candidates existing kind max = .ok r ∧
      Allocated existing max (candidates.map McpNameCandidate.key) r := by
  have hstart : Allocation.Good existing max { used := existing.map Prod.snd } :=
    ⟨fun _ h => h, nofun, nofun, nofun⟩
  have hperm := keys_distinctCandidates candidates
  obtain ⟨hnodup, hkeys, -⟩ := candidateMap_spec candidates
  obtain ⟨gathered, pending, hgather, hgathered, hpending, hperm₁⟩ := @gather_spec _ _ kind
    hmax (distinctCandidates candidates) _ [] hstart nofun (hperm.nodup_iff.2 hnodup)
  have hsorted := List.perm_insertionSort (fun a b => pendingLe parseJson a b = true) pending
  have hperm₂ : (gathered.keys ++ (pending.insertionSort fun a b => pendingLe parseJson a b).map
      PendingName.key).Perm ((distinctCandidates candidates).map McpNameCandidate.key) :=
    ((hsorted.map PendingName.key).append_left _).trans hperm₁
  obtain ⟨a, conflicts, htake, ha, hconflicts, hperm₃⟩ := takeBases_spec
    (pending.insertionSort fun a b => pendingLe parseJson a b) gathered [] hgathered
    (fun p hp => hpending p (hsorted.mem_iff.1 hp)) nofun
    (by simpa using hperm₂.nodup_iff.2 (hperm.nodup_iff.2 hnodup))
  simp only [List.map_nil, List.append_nil] at hperm₃
  have hall := (hperm₃.trans hperm₂).trans hperm
  obtain ⟨a', hresolve, ha', hperm₄⟩ := @resolveConflicts_spec _ _ kind conflicts a ha
    hconflicts (hall.nodup_iff.2 hnodup)
  have hfinal := hperm₄.trans hall
  refine ⟨{ names := a'.names, errors := a'.errors }, ?_, hfinal.nodup_iff.2 hnodup,
    fun k => hfinal.mem_iff.trans (hkeys k), fun k n hk => ?_, ha'.errors, ha'.distinct⟩
  · unfold allocate
    simp only [hgather, htake, hresolve]
    rfl
  · exact (ha'.names k n hk).imp id fun h => ⟨h.1, h.2.2⟩

/-- The order of the candidates of an allocation does not matter. -/
theorem allocate_perm {candidates candidates' : List McpNameCandidate}
    (h : candidates.Perm candidates') (hcoherent : Coherent candidates)
    (existing : List (String × String)) (kind : NameKind) (max : ℕ) :
    allocate parseJson candidates existing kind max =
      allocate parseJson candidates' existing kind max := by
  unfold allocate
  rw [distinctCandidates_perm h hcoherent]

end Kinetick.Mcp
