import Kinetick.Cron.SessionHistory
import Mathlib.Tactic.SplitIfs

/-!
# What a cleanup does with what it has inspected

The loop over the inspections archives the visible records that as many visible ones follow as are
to be kept. At each of its awaits the records behind it are kept or dropped with a reason, and
where nothing has failed they are the ones that are to be kept.
-/

namespace Kinetick

namespace CronHistory

section Retained

variable {reason : CronSessionRecord → Prop}

theorem Retained.refl : ∀ records : List CronSessionRecord, Retained reason records records
  | [] => .nil
  | r :: records => .keep r (Retained.refl records)

theorem Retained.append {before after before' after' : List CronSessionRecord}
    (h : Retained reason before after) (h' : Retained reason before' after') :
    Retained reason (before ++ before') (after ++ after') := by
  induction h with
  | nil => exact h'
  | keep r _ ih => exact .keep r ih
  | drop hr _ ih => exact .drop hr ih

theorem Retained.mono {reason' : CronSessionRecord → Prop}
    (hmono : ∀ record, reason record → reason' record) {before after : List CronSessionRecord}
    (h : Retained reason before after) : Retained reason' before after := by
  induction h with
  | nil => exact .nil
  | keep r _ ih => exact .keep r ih
  | drop hr _ ih => exact .drop (hmono _ hr) ih

theorem Retained.length_le {before after : List CronSessionRecord}
    (h : Retained reason before after) : after.length ≤ before.length := by
  induction h with
  | nil => exact Nat.le_refl _
  | keep r _ ih => simpa using ih
  | drop _ _ ih => exact Nat.le_succ_of_le ih

/-- What has lost no record is what it was. -/
theorem Retained.eq_of_length {before after : List CronSessionRecord}
    (h : Retained reason before after) (hlength : after.length = before.length) :
    after = before := by
  induction h with
  | nil => rfl
  | keep r _ ih => rw [ih (by simpa using hlength)]
  | drop _ h _ =>
    have hle := h.length_le
    simp only [List.length_cons] at hlength
    omega

end Retained

/-! ## The records to be archived -/

theorem length_visibleIndexes (i : ℕ) (inspections : List Inspection) :
    (visibleIndexes i inspections).length = countVisible inspections := by
  induction inspections generalizing i with
  | nil => rfl
  | cons x inspections ih =>
    unfold visibleIndexes countVisible
    by_cases hx : x.kind = .visible
    · rw [if_pos hx, List.countP_cons_of_pos (by simpa using hx), List.length_cons, ih]
      rfl
    · rw [if_neg hx, List.countP_cons_of_neg (by simpa using hx), ih]
      rfl

theorem visibleIndexes_append (i : ℕ) (before rest : List Inspection) :
    visibleIndexes i (before ++ rest) =
      visibleIndexes i before ++ visibleIndexes (i + before.length) rest := by
  induction before generalizing i with
  | nil => simp [visibleIndexes]
  | cons x before ih =>
    simp only [List.cons_append, visibleIndexes, ih, List.length_cons]
    rw [show i + 1 + before.length = i + (before.length + 1) by omega]
    by_cases hx : x.kind = .visible <;> simp [hx]

theorem lt_of_mem_visibleIndexes {i n : ℕ} {inspections : List Inspection}
    (h : n ∈ visibleIndexes i inspections) : n < i + inspections.length := by
  induction inspections generalizing i with
  | nil => cases h
  | cons x inspections ih =>
    unfold visibleIndexes at h
    rw [List.length_cons]
    split_ifs at h
    · rcases List.mem_cons.1 h with rfl | h
      · omega
      · have := ih h
        omega
    · have := ih h
      omega

/-- A visible record is to be archived where enough visible ones follow it. -/
theorem mem_archiveSet {keep : ℕ} {before rest : List Inspection} {x : Inspection}
    (hx : x.kind = .visible) :
    before.length ∈ archiveSet (some keep) (before ++ x :: rest) ↔ keep ≤ countVisible rest := by
  have hindexes : visibleIndexes 0 (before ++ x :: rest) =
      visibleIndexes 0 before ++ before.length :: visibleIndexes (before.length + 1) rest := by
    rw [visibleIndexes_append, visibleIndexes, if_pos hx, Nat.zero_add]
  have hnot : before.length ∉ visibleIndexes 0 before := fun h => by
    have := lt_of_mem_visibleIndexes h
    omega
  unfold archiveSet
  simp only [hindexes, List.length_append, List.length_cons, length_visibleIndexes]
  split_ifs with hkeep
  · rw [show countVisible before + (countVisible rest + 1) - keep =
      (countVisible before + 1 + countVisible rest) - keep by omega]
    rw [List.take_append, length_visibleIndexes, List.mem_append]
    constructor
    · rintro (h | h)
      · exact absurd (List.mem_of_mem_take h) hnot
      · by_contra hlt
        rw [show countVisible before + 1 + countVisible rest - keep - countVisible before = 0 by
          omega] at h
        cases h
    · intro h
      obtain ⟨n, hn⟩ : ∃ n, countVisible before + 1 + countVisible rest - keep -
          countVisible before = n + 1 := ⟨countVisible rest - keep, by omega⟩
      rw [hn, List.take_succ_cons]
      exact .inr List.mem_cons_self
  · simp only [List.not_mem_nil, false_iff]
    omega

section Cons

variable {k : ℕ} {x : Inspection} {rest : List Inspection}

/-- The record of the inspection is to be kept. -/
def Inspection.Stays (k : ℕ) (rest : List Inspection) (x : Inspection) : Prop :=
  x.kind = .started ∨ x.kind = .root ∨ x.kind = .visible ∧ countVisible rest < k

theorem keptRecords_of_stays (h : x.Stays k rest) :
    keptRecords k (x :: rest) = x.record :: keptRecords k rest := if_pos h

theorem keptRecords_of_not (h : ¬x.Stays k rest) :
    keptRecords k (x :: rest) = keptRecords k rest := if_neg h

theorem oldSessions_of_old (h : x.kind = .visible ∧ k ≤ countVisible rest) :
    oldSessions k (x :: rest) = x.record.sessionId :: oldSessions k rest := if_pos h

theorem oldSessions_of_not (h : ¬(x.kind = .visible ∧ k ≤ countVisible rest)) :
    oldSessions k (x :: rest) = oldSessions k rest := if_neg h

end Cons

theorem exists_of_mem_oldSessions {keep : ℕ} {inspections : List Inspection} {sessionId : String}
    (h : sessionId ∈ oldSessions keep inspections) :
    ∃ x ∈ inspections, x.kind = .visible ∧ x.record.sessionId = sessionId := by
  induction inspections with
  | nil => cases h
  | cons x inspections ih =>
    unfold oldSessions at h
    split_ifs at h with hx
    · rcases List.mem_cons.1 h with rfl | h
      · exact ⟨x, List.mem_cons_self, hx.1, rfl⟩
      · obtain ⟨y, hy, hold⟩ := ih h
        exact ⟨y, List.mem_cons_of_mem _ hy, hold⟩
    · obtain ⟨y, hy, hold⟩ := ih h
      exact ⟨y, List.mem_cons_of_mem _ hy, hold⟩

/-! ## The observations of a call -/

section Observed

def Observation.call : Observation → ℕ
  | looked call _ _ => call
  | unread call _ => call
  | archived call _ _ => call
  | unarchived call _ => call

/-- The call has been answered nothing about a session yet. -/
def Unasked (i : ℕ) (observed : List Observation) : Prop := ∀ o ∈ observed, o.call ≠ i

/-- The inspections are what `getSession` answered. -/
def Looked (i : ℕ) (observed : List Observation) (inspections : List Inspection) : Prop :=
  inspections.map (fun x => (x.record.sessionId, x.kind)) =
    (looksOf i observed).map fun look => (look.1, inspectionKind look.2)

variable {i : ℕ} {observed : List Observation}

@[simp] theorem looksOf_append (observed' : List Observation) :
    looksOf i (observed ++ observed') = looksOf i observed ++ looksOf i observed' :=
  List.filterMap_append

@[simp] theorem archivedBy_append (observed' : List Observation) :
    archivedBy i (observed ++ observed') = archivedBy i observed ++ archivedBy i observed' :=
  List.filterMap_append

theorem Unasked.looksOf (h : Unasked i observed) : looksOf i observed = [] := by
  refine List.filterMap_eq_nil_iff.2 fun o ho => ?_
  have hne := h o ho
  cases o <;> simp_all [Observation.call]

theorem Unasked.archivedBy (h : Unasked i observed) : archivedBy i observed = [] := by
  refine List.filterMap_eq_nil_iff.2 fun o ho => ?_
  have hne := h o ho
  cases o <;> simp_all [Observation.call]

theorem Unasked.append (h : Unasked i observed) {extra : List Observation} {j : ℕ} (hne : i ≠ j)
    (hextra : ∀ o ∈ extra, o.call = j) : Unasked i (observed ++ extra) := by
  intro o ho
  rcases List.mem_append.1 ho with ho | ho
  · exact h o ho
  · rw [hextra o ho]
    exact hne.symm

theorem Justified.append {record : CronSessionRecord} (h : Justified observed i record)
    (extra : List Observation) : Justified (observed ++ extra) i record := by
  rcases h with h | ⟨session, h, hcompressed⟩ | ⟨found, h⟩
  · exact .inl (List.mem_append_left _ h)
  · exact .inr (.inl ⟨session, List.mem_append_left _ h, hcompressed⟩)
  · exact .inr (.inr ⟨found, List.mem_append_left _ h⟩)

theorem Unfailing.of_append {extra : List Observation} (h : Unfailing i (observed ++ extra)) :
    Unfailing i observed := fun sessionId =>
  ⟨fun ho => (h sessionId).1 (List.mem_append_left _ ho),
    fun ho => (h sessionId).2 (List.mem_append_left _ ho)⟩

theorem mem_looksOf {sessionId : String} {found : Option CronSessionInfo}
    (h : (sessionId, found) ∈ looksOf i observed) :
    .looked i sessionId found ∈ observed ∨ found = none ∧ .unread i sessionId ∈ observed := by
  obtain ⟨o, ho, heq⟩ := List.mem_filterMap.1 h
  cases o with
  | looked call sessionId' found' =>
    simp only at heq
    split_ifs at heq with hcall
    cases heq
    rw [← hcall]
    exact .inl ho
  | unread call sessionId' =>
    simp only at heq
    split_ifs at heq with hcall
    cases heq
    rw [← hcall]
    exact .inr ⟨rfl, ho⟩
  | archived call sessionId' found' => cases heq
  | unarchived call sessionId' => cases heq

/-- A record found gone or compressed has a reason to be dropped. -/
theorem Looked.justified {inspections : List Inspection} (h : Looked i observed inspections)
    (hread : ∀ sessionId, .unread i sessionId ∉ observed) {x : Inspection} (hx : x ∈ inspections)
    (hkind : x.kind = .missing ∨ x.kind = .compressed) : Justified observed i x.record := by
  have hmem : (x.record.sessionId, x.kind) ∈
      (looksOf i observed).map fun look => (look.1, inspectionKind look.2) :=
    h ▸ List.mem_map.2 ⟨x, hx, rfl⟩
  obtain ⟨⟨sessionId, found⟩, hlook, heq⟩ := List.mem_map.1 hmem
  obtain ⟨hid, hfound⟩ := Prod.mk.inj heq
  simp only at hid hfound
  subst hid
  rcases mem_looksOf hlook with hlooked | ⟨-, hunread⟩
  · rw [← hfound] at hkind
    cases found with
    | none => exact .inl hlooked
    | some session =>
      refine .inr (.inl ⟨session, hlooked, ?_⟩)
      simp only [inspectionKind] at hkind
      split_ifs at hkind with hroot hcompressed <;> simp_all
  · exact absurd hunread (hread _)

end Observed

/-! ## The loop -/

/-- Where the loop stands before `rest`: what is behind it, and what it still has to do. -/
structure LoopSound (observed : List Observation) (i : ℕ) (keep : Option ℕ)
    (inspections before rest : List Inspection) (next : List CronSessionRecord)
    (archived compacted : ℕ) : Prop where
  split : inspections = before ++ rest
  retained : Retained (Justified observed i) (before.map (·.record)) next
  count : archived + compacted + next.length = before.length
  done : Unfailing i observed → ∀ k, keep = some k →
    next ++ keptRecords k rest = keptRecords k inspections ∧
      archivedBy i observed ++ oldSessions k rest = oldSessions k inspections

/-- What a cleanup has done when it ends, with the history before and after its last step. -/
structure Concluded (history history' : List CronSessionRecord) (observed : List Observation)
    (i : ℕ) (keep : Option ℕ) (inspections : List Inspection) : Prop where
  inspected : inspections.map (·.record) = history
  looked : Looked i observed inspections
  done : Unfailing i observed → ∀ k, keep = some k →
    history' = keptRecords k inspections ∧ archivedBy i observed = oldSessions k inspections

/-- What holds of a call in a phase that it has entered with the history. -/
def PhaseSound (history history' : List CronSessionRecord) (observed : List Observation) (i : ℕ) :
    Phase → Prop
  | .waiting => Unasked i observed
  | .running (.appendSessionRun _ _) => Unasked i observed
  | .running .get => Unasked i observed
  | .running (.getSessionHistory _) => Unasked i observed
  | .running (.getSession _ inspections record rest) =>
    history' = inspections.map (·.record) ++ record :: rest ∧ Looked i observed inspections ∧
      archivedBy i observed = []
  | .running (.setSessionArchived loop) =>
    loop.inspections.map (·.record) = history' ∧ Looked i observed loop.inspections ∧
      ∃ before, before.length = loop.index ∧
        loop.index ∈ archiveSet loop.keep loop.inspections ∧
        LoopSound observed i loop.keep loop.inspections before
          (⟨loop.record, .visible⟩ :: loop.rest) loop.next loop.archived loop.compacted
  | .running (.replaceSessionHistory keep inspections next) =>
    inspections.map (·.record) = history' ∧ Looked i observed inspections ∧
      Retained (Justified observed i) history' next ∧
      (Unfailing i observed → ∀ k, keep = some k →
        next = keptRecords k inspections ∧ archivedBy i observed = oldSessions k inspections)
  | .settling (.cleaned keep inspections) => Concluded history history' observed i keep inspections
  | .settling _ => True
  | .settled => True

section Loop

variable {observed : List Observation} {i : ℕ} {keep : Option ℕ}
  {inspections before rest : List Inspection} {next : List CronSessionRecord}
  {archived compacted : ℕ} {x : Inspection}

/-- The loop passes over a record that stays. -/
theorem LoopSound.stay
    (h : LoopSound observed i keep inspections before (x :: rest) next archived compacted)
    (hx : x.kind = .started ∨ x.kind = .root ∨
      x.kind = .visible ∧ ∀ k, keep = some k → countVisible rest < k) :
    LoopSound observed i keep inspections (before ++ [x]) rest (next ++ [x.record]) archived
      compacted where
  split := by rw [h.split, List.append_assoc]; rfl
  retained := by
    rw [List.map_append]
    exact h.retained.append (.keep x.record .nil)
  count := by
    have := h.count
    simp only [List.length_append, List.length_singleton]
    omega
  done hfails k hk := by
    obtain ⟨hkept, hold⟩ := h.done hfails k hk
    have hstays : x.Stays k rest := hx.imp_right (Or.imp_right fun hv => ⟨hv.1, hv.2 k hk⟩)
    have hnotOld : ¬(x.kind = .visible ∧ k ≤ countVisible rest) := by
      rintro ⟨hv, hle⟩
      rcases hstays with hs | hs | ⟨-, hlt⟩
      · rw [hv] at hs; cases hs
      · rw [hv] at hs; cases hs
      · omega
    rw [keptRecords_of_stays hstays] at hkept
    rw [oldSessions_of_not hnotOld] at hold
    exact ⟨by rw [List.append_assoc]; exact hkept, hold⟩

/-- The loop drops a record of a session that is gone or compressed. -/
theorem LoopSound.compact
    (h : LoopSound observed i keep inspections before (x :: rest) next archived compacted)
    (hx : x.kind = .missing ∨ x.kind = .compressed) (hreason : Justified observed i x.record) :
    LoopSound observed i keep inspections (before ++ [x]) rest next archived (compacted + 1) where
  split := by rw [h.split, List.append_assoc]; rfl
  retained := by
    rw [List.map_append, ← List.append_nil next]
    exact h.retained.append (.drop hreason .nil)
  count := by
    have := h.count
    simp only [List.length_append, List.length_singleton]
    omega
  done hfails k hk := by
    obtain ⟨hkept, hold⟩ := h.done hfails k hk
    rw [keptRecords_of_not (by rcases hx with hx | hx <;> simp [Inspection.Stays, hx])] at hkept
    rw [oldSessions_of_not (by rcases hx with hx | hx <;> simp [hx])] at hold
    exact ⟨hkept, hold⟩

/-- The loop drops the record of a session that it has archived. -/
theorem LoopSound.archive {record : CronSessionRecord} {found : Option CronSessionInfo}
    (h : LoopSound observed i keep inspections before (⟨record, .visible⟩ :: rest) next archived
      compacted)
    (hmem : before.length ∈ archiveSet keep inspections) :
    LoopSound (observed ++ [.archived i record.sessionId found]) i keep inspections
      (before ++ [⟨record, .visible⟩]) rest next (archived + 1) compacted where
  split := by rw [h.split, List.append_assoc]; rfl
  retained := by
    rw [List.map_append, ← List.append_nil next]
    refine (h.retained.mono fun record h => h.append _).append (.drop ?_ .nil)
    exact .inr (.inr ⟨found, List.mem_append_right _ List.mem_cons_self⟩)
  count := by
    have := h.count
    simp only [List.length_append, List.length_singleton]
    omega
  done hfails k hk := by
    obtain ⟨hkept, hold⟩ := h.done hfails.of_append k hk
    have hle : k ≤ countVisible rest := by
      rw [h.split, hk] at hmem
      exact (mem_archiveSet rfl).1 hmem
    have hnot : ¬Inspection.Stays k rest ⟨record, .visible⟩ := by
      rintro (hs | hs | ⟨-, hlt⟩)
      · cases hs
      · cases hs
      · omega
    rw [keptRecords_of_not hnot] at hkept
    rw [oldSessions_of_old ⟨rfl, hle⟩] at hold
    refine ⟨hkept, ?_⟩
    rw [archivedBy_append, ← hold, List.append_assoc]
    simp [archivedBy]

/-- The loop keeps the record of a session that it could not archive. -/
theorem LoopSound.passOver {record : CronSessionRecord}
    (h : LoopSound observed i keep inspections before (⟨record, .visible⟩ :: rest) next archived
      compacted) :
    LoopSound (observed ++ [.unarchived i record.sessionId]) i keep inspections
      (before ++ [⟨record, .visible⟩]) rest (next ++ [record]) archived compacted where
  split := by rw [h.split, List.append_assoc]; rfl
  retained := by
    rw [List.map_append]
    exact (h.retained.mono fun record h => h.append _).append (.keep record .nil)
  count := by
    have := h.count
    simp only [List.length_append, List.length_singleton]
    omega
  done hfails := absurd (List.mem_append_right _ List.mem_cons_self) (hfails record.sessionId).2

/-- The loop goes on to its next await, or ends. -/
theorem phaseSound_buildNext {history : List CronSessionRecord}
    (hinspected : inspections.map (·.record) = history) (hlooked : Looked i observed inspections)
    (hread : ∀ sessionId, .unread i sessionId ∉ observed)
    (h : LoopSound observed i keep inspections before rest next archived compacted) :
    PhaseSound history history observed i
      (buildNext keep inspections before.length rest next archived compacted) := by
  induction rest generalizing before next archived compacted with
  | nil =>
    have hbefore : inspections = before := by rw [h.split, List.append_nil]
    have hdone := h.done
    simp only [keptRecords, oldSessions, List.append_nil] at hdone
    have hretained := h.retained
    rw [← hbefore, hinspected] at hretained
    unfold buildNext
    split_ifs with hchanged
    · exact ⟨hinspected, hlooked, hretained, hdone⟩
    · have hlength : next.length = history.length := by
        rw [← hinspected, List.length_map]
        omega
      have hnext := hretained.eq_of_length hlength
      exact ⟨hinspected, hlooked, fun hfails k hk => hnext ▸ hdone hfails k hk⟩
  | cons x rest ih =>
    have hindex : before.length + 1 = (before ++ [x]).length := by simp
    have hx : x ∈ inspections := by
      rw [h.split]
      exact List.mem_append_right _ List.mem_cons_self
    unfold buildNext
    rw [hindex]
    rcases hkind : x.kind with _ | _ | _ | _ | _
    · exact ih (h.compact (.inl hkind) (hlooked.justified hread hx (.inl hkind)))
    · exact ih (h.compact (.inr hkind) (hlooked.justified hread hx (.inr hkind)))
    · exact ih (h.stay (.inl hkind))
    · exact ih (h.stay (.inr (.inl hkind)))
    · simp only
      split_ifs with harchive
      · refine ⟨hinspected, hlooked, before, rfl, harchive, ?_⟩
        have hxeq : (⟨x.record, .visible⟩ : Inspection) = x := by rw [← hkind]
        rw [hxeq]
        exact h
      · refine ih (h.stay (.inr (.inr ⟨hkind, fun k hk => ?_⟩)))
        by_contra hle
        rw [h.split, hk] at harchive
        exact harchive ((mem_archiveSet hkind).2 (by omega))

theorem phaseSound_inspectNext {history rest : List CronSessionRecord}
    (hhistory : history = inspections.map (·.record) ++ rest)
    (hlooked : Looked i observed inspections) (harchived : archivedBy i observed = [])
    (hread : ∀ sessionId, .unread i sessionId ∉ observed) :
    PhaseSound history history observed i (inspectNext keep inspections rest) := by
  cases rest with
  | nil =>
    have hloop : LoopSound observed i keep inspections [] inspections [] 0 0 := by
      refine ⟨rfl, .nil, rfl, ?_⟩
      intro _ k _
      rw [harchived]
      exact ⟨rfl, rfl⟩
    exact phaseSound_buildNext (by rw [hhistory, List.append_nil]) hlooked hread hloop
  | cons record rest => exact ⟨hhistory, hlooked, harchived⟩

/-- What the loop may still archive is old among what is before it. -/
theorem mayArchive_buildNext {sessionId : String} (hsplit : inspections = before ++ rest)
    (h : (buildNext keep inspections before.length rest next archived compacted).mayArchive
      sessionId = true) : ∃ k, keep = some k ∧ sessionId ∈ oldSessions k rest := by
  induction rest generalizing before next archived compacted with
  | nil =>
    unfold buildNext at h
    split_ifs at h <;> cases h
  | cons x rest ih =>
    have hindex : before.length + 1 = (before ++ [x]).length := by simp
    have hrest : inspections = (before ++ [x]) ++ rest := by rw [hsplit, List.append_assoc]; rfl
    have hlater : (∃ k, keep = some k ∧ sessionId ∈ oldSessions k rest) →
        ∃ k, keep = some k ∧ sessionId ∈ oldSessions k (x :: rest) := by
      rintro ⟨k, hk, hmem⟩
      refine ⟨k, hk, ?_⟩
      by_cases hold : x.kind = .visible ∧ k ≤ countVisible rest
      · rw [oldSessions_of_old hold]
        exact List.mem_cons_of_mem _ hmem
      · rw [oldSessions_of_not hold]
        exact hmem
    unfold buildNext at h
    rw [hindex] at h
    rcases hkind : x.kind with _ | _ | _ | _ | _ <;> rw [hkind] at h
    · exact hlater (ih hrest h)
    · exact hlater (ih hrest h)
    · exact hlater (ih hrest h)
    · exact hlater (ih hrest h)
    · simp only at h
      split_ifs at h with harchive
      · cases keep with
        | none => cases harchive
        | some k =>
          rw [hsplit] at harchive
          have hle := (mem_archiveSet hkind).1 harchive
          simp only [Phase.mayArchive, Bool.or_eq_true, decide_eq_true_eq, Option.any_some] at h
          rcases h with h | h
          · refine ⟨k, rfl, ?_⟩
            rw [oldSessions_of_old ⟨hkind, hle⟩, h]
            exact List.mem_cons_self
          · exact hlater ⟨k, rfl, h⟩
      · exact hlater (ih hrest h)

/-- What a cleanup may still archive it has found visible. -/
theorem mayArchive_inspectNext {sessionId : String} {records : List CronSessionRecord}
    (h : (inspectNext keep inspections records).mayArchive sessionId = true) :
    keep.isSome = true ∧ ∃ x ∈ inspections, x.kind = .visible ∧ x.record.sessionId = sessionId := by
  cases records with
  | nil =>
    have hsplit : inspections = [] ++ inspections := rfl
    obtain ⟨k, hk, hold⟩ := mayArchive_buildNext hsplit h
    exact ⟨by rw [hk]; rfl, exists_of_mem_oldSessions hold⟩
  | cons record records =>
    simpa [inspectNext, Phase.mayArchive] using h

theorem not_waiting_buildNext {index : ℕ} :
    buildNext keep inspections index rest next archived compacted ≠ .waiting := by
  induction rest generalizing index next archived compacted with
  | nil =>
    unfold buildNext
    split_ifs <;> simp
  | cons x rest ih =>
    unfold buildNext
    rcases x.kind with _ | _ | _ | _ | _ <;> simp only
    all_goals first | exact ih | split_ifs
    · simp
    · exact ih

theorem not_waiting_inspectNext {records : List CronSessionRecord} :
    inspectNext keep inspections records ≠ .waiting := by
  cases records with
  | nil => exact not_waiting_buildNext
  | cons record records => simp [inspectNext]

end Loop

end CronHistory

end Kinetick
