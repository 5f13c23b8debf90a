import Mathlib.Data.List.Nodup
import Kinetick.Sse.BoundedRing

/-!
# Replay of a ring is gap-free

The invariant is that the retained entries are the end of the log after the dropped watermark, with
the identities of exactly these (`RingInv`). Evicting from the front keeps it, whatever the policy
says; the count of bytes is the sum of the retained sizes as long as it is exact.
-/

namespace Kinetick

variable {T : Type}

/-! ## Cursors -/

theorem colon_split {x y u v : List Char} (hx : ':' ∉ x) (hy : ':' ∉ y)
    (h : (x ++ ':' :: u) <+: (y ++ ':' :: v)) : x = y ∧ u <+: v := by
  induction x generalizing y with
  | nil =>
    rcases y with _ | ⟨c, y⟩
    · exact ⟨rfl, (List.cons_prefix_cons.1 h).2⟩
    · obtain ⟨rfl, -⟩ := List.cons_prefix_cons.1 h
      simp at hy
  | cons c x ih =>
    rcases y with _ | ⟨d, y⟩
    · obtain ⟨rfl, -⟩ := List.cons_prefix_cons.1 h
      simp at hx
    · obtain ⟨rfl, hxy⟩ := List.cons_prefix_cons.1 h
      simp only [List.mem_cons, not_or] at hx hy
      obtain ⟨rfl, hu⟩ := ih hx.2 hy.2 hxy
      exact ⟨rfl, hu⟩

theorem toList_createCursorPrefix (scope epoch : Option String) (uuid : String) :
    (createCursorPrefix scope epoch uuid).toList = "sse1".toList ++ ':' ::
      ((UriComponent.encode (scope.getD "ring")).toList ++ ':' ::
        ((UriComponent.encode (epoch.getD uuid)).toList ++ [':'])) := by
  simp [createCursorPrefix, String.toList_append]

/-- A prefix begins the cursors of its own scope and epoch alone. -/
theorem createCursorPrefix_begins {scope epoch scope' epoch' : Option String} {uuid uuid' : String}
    {rest : List Char}
    (h : (createCursorPrefix scope epoch uuid).toList <+:
      (createCursorPrefix scope' epoch' uuid').toList ++ rest) :
    (scope'.getD "ring", epoch'.getD uuid') = (scope.getD "ring", epoch.getD uuid) := by
  rw [toList_createCursorPrefix, toList_createCursorPrefix] at h
  simp only [List.append_assoc, List.cons_append, List.nil_append] at h
  obtain ⟨-, h⟩ := colon_split (by decide) (by decide) h
  obtain ⟨hscope, h⟩ := colon_split (UriComponent.not_colon_mem_encode _)
    (UriComponent.not_colon_mem_encode _) h
  obtain ⟨hepoch, -⟩ := colon_split (UriComponent.not_colon_mem_encode _)
    (UriComponent.not_colon_mem_encode _) h
  rw [UriComponent.encode_injective (String.toList_injective hscope),
    UriComponent.encode_injective (String.toList_injective hepoch)]

namespace BoundedRing

theorem parseCursor_formatCursor (ring : BoundedRing T) (k : ℕ) :
    ring.parseCursor (ring.formatCursor k) = some k := by
  have hdrop : (ring.formatCursor k).toList.drop ring.cursorPrefix.toList.length =
      Nat.toDigits 10 k := by
    rw [formatCursor, String.toList_append, List.drop_left]
    exact Nat.toList_repr
  have hbegin : ring.cursorPrefix.toList.isPrefixOf (ring.formatCursor k).toList = true := by
    rw [List.isPrefixOf_iff_prefix, formatCursor, String.toList_append]
    exact List.prefix_append _ _
  have hne : Nat.toDigits 10 k ≠ [] := Nat.toDigits_ne_nil
  have hdigits : (Nat.toDigits 10 k).all Char.isDigit = true := by
    rw [List.all_eq_true]
    exact fun c hc => Nat.isDigit_of_mem_toDigits (by decide) (by decide) hc
  simp only [parseCursor, hdrop]
  rw [if_pos hbegin, if_pos ⟨hne, hdigits⟩, Nat.ofDigitChars_toDigits (by decide) (by decide)]

theorem formatCursor_ne_empty (ring : BoundedRing T) {scope epoch : Option String} {uuid : String}
    (h : ring.cursorPrefix = createCursorPrefix scope epoch uuid) (k : ℕ) :
    (ring.formatCursor k).isEmpty = false := by
  rw [Bool.eq_false_iff]
  intro hempty
  have hnil := congrArg String.toList (String.isEmpty_iff.1 hempty)
  rw [formatCursor, String.toList_append, h, toList_createCursorPrefix] at hnil
  cases hnil

/-! ## The invariant -/

/-- What the ring holds, of the log of all appended entries. -/
structure RingInv (ring : BoundedRing T) (log : List (RingEntry T)) : Prop where
  numbered : ∀ i, (h : i < log.length) → log[i].cursor = ring.formatCursor (i + 1)
  next : ring.nextCursor = log.length + 1
  dropped : ring.droppedThrough ≤ log.length
  entries : ring.entries = log.drop ring.droppedThrough
  identities : ring.identities = ring.entries.map fun entry => (entry.identity, entry)
  distinct : (ring.entries.map (·.identity)).Nodup

variable {ring : BoundedRing T} {log : List (RingEntry T)}

theorem filter_identities {entries : List (RingEntry T)} {entry : RingEntry T}
    (h : entry.identity ∉ entries.map (·.identity)) :
    (entries.map fun entry => (entry.identity, entry)).filter (·.1 ≠ entry.identity) =
      entries.map fun entry => (entry.identity, entry) := by
  rw [List.filter_eq_self]
  intro p hp
  obtain ⟨entry', hmem, rfl⟩ := List.mem_map.1 hp
  simp only [ne_eq, decide_eq_true_eq]
  rintro heq
  exact h (heq ▸ List.mem_map_of_mem hmem)

/-- What evicting leaves of the ring. -/
structure Evicts (ring ring' : BoundedRing T) : Prop where
  cursorPrefix : ring'.cursorPrefix = ring.cursorPrefix
  nextCursor : ring'.nextCursor = ring.nextCursor
  maxItems : ring'.maxItems = ring.maxItems
  maxBytes : ring'.maxBytes = ring.maxBytes
  measure : ring'.measure = ring.measure

theorem Evicts.refl (ring : BoundedRing T) : Evicts ring ring := ⟨rfl, rfl, rfl, rfl, rfl⟩

theorem Evicts.trans {a b c : BoundedRing T} (h : Evicts a b) (h' : Evicts b c) : Evicts a c :=
  ⟨h'.cursorPrefix.trans h.cursorPrefix, h'.nextCursor.trans h.nextCursor,
    h'.maxItems.trans h.maxItems, h'.maxBytes.trans h.maxBytes, h'.measure.trans h.measure⟩

theorem evicts_shift (ring : BoundedRing T) : Evicts ring ring.shift := by
  unfold shift
  split
  · exact Evicts.refl ring
  · exact ⟨rfl, rfl, rfl, rfl, rfl⟩

theorem shift_of_cons {entry : RingEntry T} {rest : List (RingEntry T)}
    (h : ring.entries = entry :: rest) :
    ring.shift = { ring with
      entries := rest
      identities := ring.identities.filter (·.1 ≠ entry.identity)
      retainedBytes := ring.retainedBytes.add (-(entry.byteSize : ℤ))
      droppedThrough := (ring.parseCursor entry.cursor).getD ring.droppedThrough } := by
  unfold shift
  rw [h]

theorem shift_of_nil (h : ring.entries = []) : ring.shift = ring := by
  unfold shift
  rw [h]

/-- Evicting the oldest entry moves the watermark by one. -/
theorem RingInv.shift (h : RingInv ring log) : RingInv ring.shift log := by
  rcases hentries : ring.entries with _ | ⟨entry, rest⟩
  · rwa [shift_of_nil hentries]
  · have hdrop := h.entries
    rw [hentries] at hdrop
    have hlt : ring.droppedThrough < log.length := by
      by_contra hle
      rw [List.drop_eq_nil_of_le (by omega)] at hdrop
      cases hdrop
    rw [List.drop_eq_getElem_cons hlt] at hdrop
    obtain ⟨rfl, rfl⟩ := List.cons.inj hdrop
    have hparse : ring.parseCursor log[ring.droppedThrough].cursor =
        some (ring.droppedThrough + 1) := by
      rw [h.numbered _ hlt, parseCursor_formatCursor]
    have hdistinct := h.distinct
    rw [hentries, List.map_cons, List.nodup_cons] at hdistinct
    rw [shift_of_cons hentries, hparse]
    refine ⟨h.numbered, h.next, by exact hlt, rfl, ?_, hdistinct.2⟩
    simp only [h.identities, hentries, List.map_cons]
    rw [List.filter_cons_of_neg (by simp)]
    exact filter_identities hdistinct.1

theorem RingInv.evictPrefix (h : RingInv ring log) (count : ℕ) :
    RingInv (ring.evictPrefix count).2 log := by
  induction count generalizing ring with
  | zero => exact h
  | succ count ih => exact ih h.shift

theorem shift_entries (ring : BoundedRing T) : ring.shift.entries = ring.entries.drop 1 := by
  rcases h : ring.entries with _ | ⟨entry, rest⟩
  · rw [shift_of_nil h, h]
    rfl
  · rw [shift_of_cons h]
    rfl

theorem evictPrefix_spec (ring : BoundedRing T) (count : ℕ) :
    (ring.evictPrefix count).1 = min count ring.entries.length ∧
      (ring.evictPrefix count).2.entries = ring.entries.drop count ∧
      Evicts ring (ring.evictPrefix count).2 := by
  induction count generalizing ring with
  | zero => exact ⟨by simp [BoundedRing.evictPrefix], rfl, Evicts.refl ring⟩
  | succ count ih =>
    obtain ⟨hcount, hentries, hevicts⟩ := ih ring.shift
    simp only [BoundedRing.evictPrefix]
    refine ⟨?_, ?_, (evicts_shift ring).trans hevicts⟩
    · rw [hcount, shift_length]
      split_ifs with h
      · simp [h]
      · have hpos := List.length_pos_iff.2 h
        omega
    · rw [hentries, shift_entries, List.drop_drop]
      congr 1
      omega

/-! ## Retention -/

theorem selectedCount_le (ring : BoundedRing T) (policy : RingEvictionPolicy T)
    (h : ring.entries ≠ []) : ring.selectedCount policy ≤ ring.entries.length := by
  have hpos := List.length_pos_iff.2 h
  have hnorm : ∀ value, normalizedEvictionCount value ring.entries.length ≤ ring.entries.length := by
    intro value
    unfold normalizedEvictionCount
    split
    · split_ifs
      · exact Nat.zero_le _
      · exact Nat.min_le_right _ _
    · exact Nat.zero_le _
  unfold selectedCount
  dsimp only
  split_ifs
  · exact hpos
  · exact hnorm _

/-- What a ring is that nothing more is to be evicted of. -/
def WithinBounds (ring : BoundedRing T) : Prop :=
  ring.entries = [] ∨
    ring.entries.length ≤ ring.maxItems ∧ ring.retainedBytes.exceeds ring.maxBytes = false

theorem withinBounds_of_selectedCount {policy : RingEvictionPolicy T}
    (h : ring.entries = [] ∨ ring.selectedCount policy = 0) : ring.WithinBounds := by
  refine h.imp_right fun h => ?_
  unfold selectedCount at h
  dsimp only at h
  split_ifs at h with hover
  simp only [Bool.and_eq_true, decide_eq_true_eq, Bool.or_eq_true, not_and, not_or] at hover
  obtain ⟨hitems, hbytes⟩ := hover h
  exact ⟨Nat.le_of_not_lt hitems, Bool.eq_false_iff.2 hbytes⟩

/-- The loop keeps what every round keeps, and leaves a ring within its bounds. -/
theorem enforceRetention_spec {P : BoundedRing T → Prop} (policy : RingEvictionPolicy T)
    (hround : ∀ ring count, P ring → P (ring.evictPrefix count).2) (ring : BoundedRing T) (n : ℕ)
    (hP : P ring) :
    P (enforceRetention policy ring n).2 ∧ (enforceRetention policy ring n).2.WithinBounds ∧
      Evicts ring (enforceRetention policy ring n).2 ∧
      ∃ k ≤ ring.entries.length, (enforceRetention policy ring n).1 = n + k ∧
        (enforceRetention policy ring n).2.entries = ring.entries.drop k := by
  induction ring, n using enforceRetention.induct policy with
  | case1 ring n h =>
    rw [enforceRetention, dif_pos h]
    exact ⟨hP, withinBounds_of_selectedCount h, Evicts.refl ring, 0, Nat.zero_le _, rfl, rfl⟩
  | case2 ring n h round ih =>
    rw [enforceRetention, dif_neg h]
    obtain ⟨hP', hbounds, hevicts, k, hk, hcount, hentries⟩ := ih (hround ring _ hP)
    obtain ⟨hc, he, hev⟩ := evictPrefix_spec ring (ring.selectedCount policy)
    have hle := selectedCount_le ring policy (fun hnil => h (.inl hnil))
    refine ⟨hP', hbounds, hev.trans hevicts, ring.selectedCount policy + k, ?_, ?_, ?_⟩
    · rw [he, List.length_drop] at hk
      omega
    · rw [hcount, hc]
      omega
    · rw [hentries, he, List.drop_drop]

/-! ## Appends -/

theorem identity_eq (h : RingInv ring log) (id : String) :
    ring.identity id = ring.entries.find? (·.identity = id) := by
  rw [identity, h.identities]
  induction ring.entries with
  | nil => rfl
  | cons entry rest ih =>
    simp only [List.map_cons, List.find?_cons]
    by_cases hid : entry.identity = id
    · simp [hid]
    · simpa [hid] using ih

theorem identity_none_iff (h : RingInv ring log) (id : String) :
    ring.identity id = none ↔ ∀ entry ∈ ring.entries, entry.identity ≠ id := by
  rw [identity_eq h, List.find?_eq_none]
  simp

/-- Under distinct identities, an identity's entry is the one that has it. -/
theorem identity_of_mem (h : RingInv ring log) {entry : RingEntry T} (hmem : entry ∈ ring.entries) :
    ring.identity entry.identity = some entry := by
  rcases hid : ring.identity entry.identity with _ | entry'
  · exact absurd rfl ((identity_none_iff h _).1 hid entry hmem)
  · have hfind := hid
    rw [identity_eq h] at hfind
    have heq := List.find?_some hfind
    simp only [decide_eq_true_eq] at heq
    rw [List.inj_on_of_nodup_map h.distinct (List.mem_of_find?_eq_some hfind) hmem heq]

/-- The entry an append makes. -/
def newEntry (ring : BoundedRing T) (input : RingAppendInput T) : RingEntry T :=
  { cursor := ring.formatCursor ring.nextCursor
    identity := input.identity
    value := input.value
    byteSize := normalizedByteSize (input.byteSize.getD (ring.measure input.value)) }

/-- The ring with the new entry, before anything is evicted. -/
def push (ring : BoundedRing T) (entry : RingEntry T) : BoundedRing T :=
  { ring with
    nextCursor := ring.nextCursor + 1
    entries := ring.entries ++ [entry]
    identities := ring.identities ++ [(entry.identity, entry)]
    retainedBytes := ring.retainedBytes.add entry.byteSize }

/-- What an append of a new identity leaves, and how many entries it evicted in all. -/
def enforced (ring : BoundedRing T) (e : RingAppend T) : ℕ × BoundedRing T :=
  enforceRetention e.policy (ring.push (ring.newEntry e.input)) 0

theorem append_fresh {e : RingAppend T} (h : ring.identity e.input.identity = none) :
    ring.append e.policy e.input = ((ring.enforced e).2,
      { entry := ring.newEntry e.input
        appended := true
        retained := ((ring.enforced e).2.identity e.input.identity).isSome
        evictedCount :=
          if ((ring.enforced e).2.identity e.input.identity).isSome then (ring.enforced e).1
          else (ring.enforced e).1 - 1 }) := by
  simp only [append, h]
  rfl

theorem append_repeated {e : RingAppend T} {entry : RingEntry T}
    (h : ring.identity e.input.identity = some entry) :
    ring.append e.policy e.input =
      (ring, { entry, appended := false, retained := true, evictedCount := 0 }) := by
  simp only [append, h]

theorem RingInv.push (h : RingInv ring log) {input : RingAppendInput T}
    (hnew : ring.identity input.identity = none) :
    RingInv (ring.push (ring.newEntry input)) (log ++ [ring.newEntry input]) := by
  have hdropped := h.dropped
  refine ⟨?_, ?_, ?_, ?_, ?_, ?_⟩
  · intro i hi
    rw [List.length_append, List.length_singleton] at hi
    rw [List.getElem_append]
    split_ifs with hlt
    · exact h.numbered i hlt
    · have heq : i = log.length := by omega
      rw [List.getElem_singleton, heq, ← h.next]
      rfl
  · rw [List.length_append, List.length_singleton, ← h.next]
    rfl
  · rw [List.length_append]
    exact Nat.le_add_right_of_le hdropped
  · change ring.entries ++ _ = (log ++ _).drop ring.droppedThrough
    rw [List.drop_append_of_le_length hdropped, ← h.entries]
  · simp only [BoundedRing.push, h.identities, List.map_append, List.map_singleton]
  · have hnone := (identity_none_iff h _).1 hnew
    simp only [BoundedRing.push, List.map_append, List.map_singleton]
    rw [List.nodup_append]
    refine ⟨h.distinct, List.nodup_singleton _, ?_⟩
    intro id hid id' hid'
    obtain ⟨entry, hentry, rfl⟩ := List.mem_map.1 hid
    rw [List.mem_singleton.1 hid']
    exact hnone entry hentry

/-- The new entry is in the log, and the ring is within its bounds. -/
theorem enforced_spec (h : RingInv ring log) (e : RingAppend T)
    (hid : ring.identity e.input.identity = none) :
    RingInv (ring.enforced e).2 (log ++ [ring.newEntry e.input]) ∧ (ring.enforced e).2.WithinBounds ∧
      Evicts (ring.push (ring.newEntry e.input)) (ring.enforced e).2 ∧
      ∃ k ≤ ring.entries.length + 1, (ring.enforced e).1 = k ∧
        (ring.enforced e).2.entries = (ring.entries ++ [ring.newEntry e.input]).drop k := by
  obtain ⟨hinv, hbounds, hevicts, k, hk, hcount, hentries⟩ :=
    enforceRetention_spec (P := fun ring => RingInv ring (log ++ [_])) e.policy
      (fun _ _ hP => hP.evictPrefix _) _ 0 (h.push hid)
  refine ⟨hinv, hbounds, hevicts, k, ?_, hcount.trans (Nat.zero_add k), hentries⟩
  simpa [BoundedRing.push] using hk

/-- What the log becomes. -/
def logged (log : List (RingEntry T)) (result : RingAppendResult T) : List (RingEntry T) :=
  if result.appended then log ++ [result.entry] else log

theorem RingInv.append (h : RingInv ring log) (e : RingAppend T) :
    RingInv (ring.append e.policy e.input).1 (logged log (ring.append e.policy e.input).2) := by
  rcases hid : ring.identity e.input.identity with _ | entry
  · rw [append_fresh hid]
    exact (enforced_spec h e hid).1
  · rw [append_repeated hid]
    exact h

theorem append_evicts (h : RingInv ring log) (e : RingAppend T) :
    (ring.append e.policy e.input).1.cursorPrefix = ring.cursorPrefix ∧
      (ring.append e.policy e.input).1.maxItems = ring.maxItems ∧
      (ring.append e.policy e.input).1.maxBytes = ring.maxBytes := by
  rcases hid : ring.identity e.input.identity with _ | entry
  · rw [append_fresh hid]
    obtain ⟨-, -, hevicts, -⟩ := enforced_spec h e hid
    exact ⟨hevicts.cursorPrefix, hevicts.maxItems, hevicts.maxBytes⟩
  · rw [append_repeated hid]
    exact ⟨rfl, rfl, rfl⟩

theorem RingInv.appendSound (h : RingInv ring log) (e : RingAppend T) : ring.AppendSound e := by
  refine ⟨?_, ?_⟩
  · intro entry hmem hid
    apply append_repeated
    rw [← hid]
    exact identity_of_mem h hmem
  · intro hfresh
    have hid := (identity_none_iff h _).2 hfresh
    obtain ⟨hinv, -, -, k, hk, hcount, hentries⟩ := enforced_spec h e hid
    rw [append_fresh hid]
    refine ⟨rfl, rfl, ?_⟩
    dsimp only
    by_cases hle : k ≤ ring.entries.length
    · rw [List.drop_append_of_le_length hle] at hentries
      have hmem : ring.newEntry e.input ∈ (ring.enforced e).2.entries := by
        rw [hentries]
        simp
      have hsome : ((ring.enforced e).2.identity e.input.identity).isSome = true :=
        Option.isSome_iff_exists.2 ⟨_, identity_of_mem hinv hmem⟩
      refine ⟨ring.entries.take k, ring.entries.drop k, (List.take_append_drop _ _).symm, ?_, ?_⟩
      · rw [if_pos hsome, hentries]
      · rw [if_pos hsome, hcount, List.length_take]
        omega
    · have hnil : (ring.enforced e).2.entries = [] := by
        rw [hentries, List.drop_eq_nil_of_le]
        rw [List.length_append, List.length_singleton]
        omega
      have hnone : ((ring.enforced e).2.identity e.input.identity).isSome = false := by
        rw [Option.isSome_eq_false_iff, Option.isNone_iff_eq_none, identity_none_iff hinv, hnil]
        simp
      refine ⟨ring.entries, [], (List.append_nil _).symm, ?_, ?_⟩
      · rw [hnone, hnil]
        rfl
      · rw [hnone, hcount]
        simp only [Bool.false_eq_true, ↓reduceIte]
        omega

/-! ## Bytes -/

/-- The count of bytes is exact. -/
def Counted (ring : BoundedRing T) : Prop :=
  ring.retainedBytes = .finite (bytes ring.entries) ∧ bytes ring.entries ≤ Double.maxExact

theorem Counted.shift (h : ring.Counted) : ring.shift.Counted := by
  rcases hentries : ring.entries with _ | ⟨entry, rest⟩
  · rwa [shift_of_nil hentries]
  · obtain ⟨hcount, hle⟩ := h
    rw [hentries] at hcount hle
    have hbytes : bytes (entry :: rest) = entry.byteSize + bytes rest := List.sum_cons
    rw [hbytes] at hcount hle
    rw [shift_of_cons hentries]
    refine ⟨?_, by dsimp only; omega⟩
    dsimp only
    rw [hcount, Double.add_of_le (by push_cast; omega)]
    congr 1
    push_cast
    omega

theorem Counted.evictPrefix (h : ring.Counted) (count : ℕ) :
    (ring.evictPrefix count).2.Counted := by
  induction count generalizing ring with
  | zero => exact h
  | succ count ih => exact ih h.shift

theorem Counted.append (h : ring.Counted) (hbytes : bytes ring.entries ≤ ring.maxBytes)
    (hinv : RingInv ring log) {e : RingAppend T} (he : ring.CountsExactly e) :
    (ring.append e.policy e.input).1.Counted ∧
      bytes (ring.append e.policy e.input).1.entries ≤ ring.maxBytes := by
  rcases hid : ring.identity e.input.identity with _ | entry
  · obtain ⟨-, -, hevicts, -⟩ := enforced_spec hinv e hid
    have hnew : bytes (ring.push (ring.newEntry e.input)).entries =
        bytes ring.entries + (ring.newEntry e.input).byteSize := by
      simp [BoundedRing.push, bytes]
    have hpush : (ring.push (ring.newEntry e.input)).Counted := by
      refine ⟨?_, hnew.trans_le he⟩
      rw [hnew]
      change ring.retainedBytes.add _ = _
      rw [h.1, Double.add_of_le]
      · push_cast
        rfl
      · have hle : bytes ring.entries + (ring.newEntry e.input).byteSize ≤ Double.maxExact := he
        omega
    obtain ⟨hcounted, hbounds, -⟩ := enforceRetention_spec (P := Counted) e.policy
      (fun _ _ hP => hP.evictPrefix _) _ 0 hpush
    rw [append_fresh hid]
    refine ⟨hcounted, ?_⟩
    change bytes (ring.enforced e).2.entries ≤ _
    rcases hbounds with hnil | ⟨-, hexceeds⟩
    · change (ring.enforced e).2.entries = [] at hnil
      rw [hnil]
      exact Nat.zero_le _
    · change (ring.enforced e).2.retainedBytes.exceeds (ring.enforced e).2.maxBytes = false
        at hexceeds
      rw [show (ring.enforced e).2.retainedBytes = _ from hcounted.1, hevicts.maxBytes] at hexceeds
      simp only [Double.exceeds, decide_eq_false_iff_not, not_lt] at hexceeds
      exact Int.ofNat_le.1 hexceeds
  · rw [append_repeated hid]
    exact ⟨h, hbytes⟩

/-! ## Replay -/

theorem RingInv.filter_entries (h : RingInv ring log) {k : ℕ} (hk : ring.droppedThrough ≤ k) :
    (ring.entries.filter fun entry => (ring.parseCursor entry.cursor).any fun n => k < n) =
      log.drop k := by
  have hcursor : ∀ i, (hi : i < log.length) →
      ((ring.parseCursor log[i].cursor).any fun n => decide (k < n)) = decide (k < i + 1) := by
    intro i hi
    rw [h.numbered i hi, parseCursor_formatCursor]
    rfl
  rw [h.entries, ← List.take_append_drop (k - ring.droppedThrough) (log.drop ring.droppedThrough),
    List.filter_append, List.drop_drop, Nat.add_sub_cancel' hk]
  have htake : (List.take (k - ring.droppedThrough) (log.drop ring.droppedThrough)).filter
      (fun entry => (ring.parseCursor entry.cursor).any fun n => k < n) = [] := by
    rw [List.filter_eq_nil_iff]
    intro entry hmem
    obtain ⟨i, hi, rfl⟩ := List.getElem_of_mem hmem
    rw [List.length_take, List.length_drop] at hi
    rw [List.getElem_take, List.getElem_drop, hcursor _ (by omega)]
    simp only [decide_eq_true_eq]
    omega
  have hdrop : (log.drop k).filter
      (fun entry => (ring.parseCursor entry.cursor).any fun n => k < n) = log.drop k := by
    rw [List.filter_eq_self]
    intro entry hmem
    obtain ⟨i, hi, rfl⟩ := List.getElem_of_mem hmem
    rw [List.length_drop] at hi
    rw [List.getElem_drop, hcursor _ (by omega), decide_eq_true_eq]
    omega
  rw [htake, hdrop, List.nil_append]

theorem replay_formatCursor (h : RingInv ring log) {scope epoch : Option String} {uuid : String}
    (hbegin : ring.cursorPrefix = createCursorPrefix scope epoch uuid) (k : ℕ) :
    ring.replay (some (ring.formatCursor k)) =
      if log.length < k then .invalidCursor
      else if k < ring.droppedThrough then .evicted else .ok (log.drop k) := by
  unfold replay
  simp only [formatCursor_ne_empty ring hbegin, parseCursor_formatCursor, h.next, Bool.false_eq_true,
    ↓reduceIte, Nat.add_one_le_iff]
  split_ifs with hfuture hevicted
  · rfl
  · rfl
  · rw [h.filter_entries (Nat.le_of_not_lt hevicted)]

theorem replay_foreign {scope epoch : Option String} {uuid : String}
    (hbegin : ring.cursorPrefix = createCursorPrefix scope epoch uuid)
    {scope' epoch' : Option String} {uuid' : String}
    (hne : (scope'.getD "ring", epoch'.getD uuid') ≠ (scope.getD "ring", epoch.getD uuid)) (k : ℕ) :
    ring.replay (some (createCursorPrefix scope' epoch' uuid' ++ toString k)) = .invalidCursor := by
  have hempty : (createCursorPrefix scope' epoch' uuid' ++ toString k).isEmpty = false :=
    formatCursor_ne_empty
      { ring with cursorPrefix := createCursorPrefix scope' epoch' uuid' } rfl k
  have hparse : ring.parseCursor (createCursorPrefix scope' epoch' uuid' ++ toString k) = none := by
    unfold parseCursor
    rw [if_neg]
    rw [List.isPrefixOf_iff_prefix, hbegin, String.toList_append]
    exact fun h => hne (createCursorPrefix_begins h)
  unfold replay
  simp only [hempty, hparse, Bool.false_eq_true, ↓reduceIte]

theorem RingInv.gapFree (h : RingInv ring log) {scope epoch : Option String} {uuid : String}
    (hbegin : ring.cursorPrefix = createCursorPrefix scope epoch uuid)
    (hitems : ring.entries.length ≤ ring.maxItems) :
    GapFree (scope.getD "ring") (epoch.getD uuid) ring log where
  numbered := h.numbered
  next := h.next
  dropped := h.dropped
  entries := h.entries
  items := hitems
  evicted k hk := by
    have hdropped := h.dropped
    rw [replay_formatCursor h hbegin, if_neg (by omega)]
    split_ifs with hlt
    · exact ⟨fun _ => ⟨k, le_rfl, by omega, hlt⟩, fun _ => rfl⟩
    · refine ⟨nofun, ?_⟩
      rintro ⟨i, hi, -, hlt'⟩
      omega
  replayed k hk := by
    rw [replay_formatCursor h hbegin, if_neg (by omega)]
    split_ifs with hlt
    · exact fun hne => absurd rfl hne
    · exact fun _ => rfl
  future k hk := by
    rw [replay_formatCursor h hbegin, if_pos hk]
  foreign scope' epoch' uuid' k hne := replay_foreign hbegin hne k

/-! ## Runs -/

section Runs

variable (options : BoundedRingOptions) (measure : T → JsNumber) (uuid : String)

/-- What every append keeps of a ring made with the options. -/
structure RingKept (ring : BoundedRing T) (log : List (RingEntry T)) : Prop where
  inv : RingInv ring log
  cursorPrefix :
    ring.cursorPrefix = createCursorPrefix options.cursorScope options.cursorEpoch uuid
  maxItems : ring.maxItems = positiveInteger options.maxItems DEFAULT_MAX_ITEMS
  maxBytes : ring.maxBytes = positiveInteger options.maxBytes DEFAULT_MAX_BYTES
  items : ring.entries.length ≤ ring.maxItems

variable {options uuid}

theorem RingKept.append (h : RingKept options uuid ring log) (e : RingAppend T) :
    RingKept options uuid (ring.append e.policy e.input).1
      (logged log (ring.append e.policy e.input).2) := by
  obtain ⟨hbegin, hmax, hbytes⟩ := append_evicts h.inv e
  refine ⟨h.inv.append e, hbegin.trans h.cursorPrefix, hmax.trans h.maxItems,
    hbytes.trans h.maxBytes, ?_⟩
  rw [hmax]
  rcases hid : ring.identity e.input.identity with _ | entry
  · rw [append_fresh hid]
    obtain ⟨-, hbounds, hevicts, -⟩ := enforced_spec h.inv e hid
    rcases hbounds with hnil | ⟨hitems, -⟩
    · simp only [hnil, List.length_nil, Nat.zero_le]
    · rwa [hevicts.maxItems] at hitems
  · rw [append_repeated hid]
    exact h.items

theorem logged_append (log : List (RingEntry T)) (result : RingAppendResult T)
    (results : List (RingAppendResult T)) :
    logged log result ++ logOf results = log ++ logOf (result :: results) := by
  unfold logged logOf
  by_cases happended : result.appended = true
  · rw [if_pos happended, List.filter_cons_of_pos happended, List.map_cons, List.append_assoc]
    rfl
  · rw [if_neg happended, List.filter_cons_of_neg happended]

/-- Along every run. -/
theorem RingKept.after (h : RingKept options uuid ring log) (es : List (RingAppend T)) :
    RingKept options uuid ((ringMachine options measure uuid).after ring es)
      (log ++ logOf ((ringMachine options measure uuid).answers ring es)) := by
  induction es generalizing ring log with
  | nil => simpa [logOf, Machine.answers] using h
  | cons e es ih =>
    have hafter := ih (h.append e)
    rw [logged_append] at hafter
    exact hafter

variable (options uuid)

theorem ringKept_initial :
    RingKept options uuid (ringMachine options measure uuid).initial ([] : List (RingEntry T)) :=
  ⟨⟨nofun, rfl, le_rfl, rfl, rfl, List.nodup_nil⟩, rfl, rfl, rfl, Nat.zero_le _⟩

theorem bytes_after {es : List (RingAppend T)} (hinv : RingKept options uuid ring log)
    (hcounted : ring.Counted) (hbytes : bytes ring.entries ≤ ring.maxBytes)
    (h : (ringMachine options measure uuid).Along CountsExactly ring es) :
    bytes ((ringMachine options measure uuid).after ring es).entries ≤ ring.maxBytes := by
  induction es generalizing ring log with
  | nil => exact hbytes
  | cons e es ih =>
    obtain ⟨hcounted', hbytes'⟩ := hcounted.append hbytes hinv.inv h.1
    have hmax := (append_evicts hinv.inv e).2.2
    rw [← hmax] at hbytes' ⊢
    exact ih (hinv.append e) hcounted' hbytes' h.2

end Runs

end BoundedRing

open BoundedRing

/-- After any appends, a replay misses nothing and an append does what it says; the ring is within
its items, and within its bytes where a double counted them exactly. -/
theorem ring_replays_gap_free (options : BoundedRingOptions) (measure : T → JsNumber)
    (uuid : String) (es : List (RingAppend T)) :
    GapFree (options.cursorScope.getD "ring") (options.cursorEpoch.getD uuid)
      ((ringMachine options measure uuid).after (.create options measure uuid) es)
      (logOf ((ringMachine options measure uuid).answers (.create options measure uuid) es)) ∧
    ((ringMachine options measure uuid).after (.create options measure uuid) es).entries.length ≤
      positiveInteger options.maxItems DEFAULT_MAX_ITEMS ∧
    ((ringMachine options measure uuid).Along CountsExactly (.create options measure uuid) es →
      bytes ((ringMachine options measure uuid).after (.create options measure uuid) es).entries ≤
        positiveInteger options.maxBytes DEFAULT_MAX_BYTES) ∧
    ∀ e, ((ringMachine options measure uuid).after (.create options measure uuid) es).AppendSound
      e := by
  have hinitial := ringKept_initial options measure uuid
  have hkept := hinitial.after measure es
  refine ⟨hkept.inv.gapFree hkept.cursorPrefix hkept.items, ?_, fun h => ?_,
    hkept.inv.appendSound⟩
  · rw [← hkept.maxItems]
    exact hkept.items
  · exact bytes_after options measure uuid hinitial ⟨rfl, Nat.zero_le _⟩ (Nat.zero_le _) h

/-- A bound of 2^53 bytes. -/
def hugeRing : BoundedRingOptions where
  maxItems := none
  maxBytes := some (.finite 9007199254740992)
  cursorScope := some "session"
  cursorEpoch := some "epoch"

/-- An append of so many bytes. -/
def hugeAppend (identity : String) (byteSize : ℕ) : RingAppendInput Unit :=
  { identity, value := (), byteSize := some (.finite byteSize) }

/-- One byte, and then 2^53 bytes. -/
def hugeAppends : List (RingAppend Unit) :=
  [{ input := hugeAppend "a" 1, policy := none },
    { input := hugeAppend "b" 9007199254740992, policy := none }]

theorem append_quiet {ring : BoundedRing T} {input : RingAppendInput T}
    (hid : ring.identity input.identity = none)
    (hselected : (ring.push (ring.newEntry input)).selectedCount none = 0) :
    (ring.append none input).1 = ring.push (ring.newEntry input) := by
  have happend := append_fresh (e := { input, policy := none }) hid
  rw [happend]
  change (enforceRetention none _ 0).2 = _
  rw [enforceRetention, dif_pos (.inr hselected)]

/-- The doubles' sum is 2^53, so both are retained. -/
theorem huge_ring_overfull :
    ¬ bytes ((ringMachine hugeRing (fun _ => .nan) "").after
        (.create hugeRing (fun _ => .nan) "") hugeAppends).entries ≤
      positiveInteger hugeRing.maxBytes DEFAULT_MAX_BYTES := by
  have hfirst : ((create hugeRing (fun _ => .nan) "").append none (hugeAppend "a" 1)).1 =
      (create hugeRing (fun _ => .nan) "").push _ := append_quiet (by decide) (by decide)
  simp only [hugeAppends, Machine.after_cons, Machine.after_nil, ringMachine]
  rw [hfirst, append_quiet (by decide) (by decide)]
  decide

end Kinetick
