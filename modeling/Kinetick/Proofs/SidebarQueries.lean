import Kinetick.Results
import Kinetick.Sidebar.Query
import Mathlib.Data.List.Nodup
import Mathlib.Tactic.SplitIfs

/-!
# Queries of one listing

A call that hands back the context of a listing is normalized to the same query, and the rows that
pass a filter are those of the database, each once, and can be decoded.
-/

namespace Kinetick

namespace Sidebar

open Sql Keyset

section Lists

variable {α : Type}

/-- What a strict order leaves after one item of a list in that order. -/
theorem filter_after {R : α → α → Bool} {l before rest : List α} {x : α}
    (hpairwise : l.Pairwise fun a b => R a b = true) (hirrefl : ∀ a, R a a = false)
    (hasymm : ∀ a b, R a b = true → R b a = false) (hl : l = before ++ x :: rest) :
    l.filter (R x) = rest := by
  rw [hl, List.pairwise_append, List.pairwise_cons] at hpairwise
  obtain ⟨-, ⟨hafter, -⟩, hbefore⟩ := hpairwise
  rw [hl, List.filter_append, List.filter_cons_of_neg (by rw [hirrefl]; simp)]
  have hnone : before.filter (R x) = [] := List.filter_eq_nil_iff.2 fun y hy => by
    rw [hasymm y x (hbefore y hy x List.mem_cons_self)]
    simp
  have hall : rest.filter (R x) = rest := List.filter_eq_self.2 hafter
  rw [hnone, hall, List.nil_append]

/-- Of the numbered items those up to a number are the first. -/
theorem filter_numbered (l : List α) (n : ℕ) :
    ((l.zipIdx 1).filter fun row => row.2 ≤ n).map (·.1) = l.take n := by
  have hgeneral : ∀ (l : List α) (k : ℕ),
      ((l.zipIdx (k + 1)).filter fun row => row.2 ≤ n).map (·.1) = l.take (n - k) := by
    intro l
    induction l with
    | nil => simp
    | cons x l ih =>
      intro k
      rw [List.zipIdx_cons]
      by_cases hk : k + 1 ≤ n
      · obtain ⟨m, hm⟩ : ∃ m, n - k = m + 1 := ⟨n - k - 1, by omega⟩
        rw [List.filter_cons_of_pos (by simpa using hk), List.map_cons, ih, hm,
          List.take_succ_cons, show n - (k + 1) = m by omega]
      · rw [List.filter_cons_of_neg (by simpa using hk), ih, show n - (k + 1) = 0 by omega,
          show n - k = 0 by omega, List.take_zero, List.take_zero]
  exact hgeneral l 0

end Lists

/-! ## Normalization -/

section Normalize

variable {S : SidebarQueryService} {input : SidebarQuery} {began : ℤ} {q : NormalizedSidebarQuery}
  {roots : Option (List String)}

/-- A listing has begun. -/
structure Begins (S : SidebarQueryService) (input : SidebarQuery) (began : ℤ)
    (roots : Option (List String)) (q : NormalizedSidebarQuery) : Prop where
  inputs : normalizeInputs input S.listInternalDefaultRootIds roots = .ok q.toNormalizedInputs
  context : q.context = .object { v := 1, hash := S.hash q.toNormalizedInputs, nowMs := began }
  nowMs : q.nowMs = began

theorem begins_of_normalizeQuery (h : S.normalizeQuery input began roots = .ok q)
    (hcontext : input.context = none) (hcursor : input.cursor = none) :
    Begins S input began roots q := by
  unfold SidebarQueryService.normalizeQuery normalizeSidebarQuery queryTime at h
  rw [hcontext, hcursor] at h
  cases hn : normalizeInputs input S.listInternalDefaultRootIds roots with
  | error e =>
    rw [hn] at h
    cases h
  | ok n =>
    rw [hn] at h
    cases h
    exact ⟨hn, rfl, rfl⟩

theorem Begins.mk_eq (h : Begins S input began roots q) :
    NormalizedSidebarQuery.mk q.toNormalizedInputs
      (.object { v := 1, hash := S.hash q.toNormalizedInputs, nowMs := began }) began = q := by
  rw [← h.context, ← h.nowMs]

theorem normalizeQuery_first (h : Begins S input began roots q) (c : SidebarCall) :
    S.normalizeQuery (c.query input none) began roots = .ok q := by
  have hinputs : normalizeInputs (c.query input none) S.listInternalDefaultRootIds roots =
      .ok q.toNormalizedInputs := h.inputs
  unfold SidebarQueryService.normalizeQuery normalizeSidebarQuery
  rw [hinputs]
  exact congrArg Except.ok h.mk_eq

theorem normalizeQuery_next (h : Begins S input began roots q) (hsafe : isSafeInteger began = true)
    (hpositive : 0 ≤ began) {c : SidebarCall} (hc : c.Allowed began) (cursor : Encoded Cursor) :
    S.normalizeQuery (c.query input (some (q.context, cursor))) c.nowMs roots = .ok q := by
  have hinputs : normalizeInputs (c.query input (some (q.context, cursor)))
      S.listInternalDefaultRootIds roots = .ok q.toNormalizedInputs := h.inputs
  have htime : queryTime (c.query input (some (q.context, cursor))) (S.hash q.toNormalizedInputs)
      c.nowMs = .ok began := by
    have htime := hc.time
    unfold queryTime SidebarCall.query
    simp only [Option.map_some, h.context]
    rw [if_neg]
    simp only [ne_eq, not_true_eq_false, hsafe, false_or, not_or, reduceCtorEq]
    omega
  unfold SidebarQueryService.normalizeQuery normalizeSidebarQuery
  rw [hinputs]
  simp only [bind, Except.bind]
  rw [htime]
  exact congrArg Except.ok h.mk_eq

theorem readCursor_encodedCursor {kind : CursorKind} {last : List SqlValue} {projectId : Option ℤ}
    (hvalid : tupleValid kind last = true) :
    readCursor (some (encodedCursor q kind last projectId)) q kind projectId = .ok (some last) := by
  unfold readCursor encodedCursor
  simp only
  rw [if_neg (by simp), if_pos hvalid]

theorem pageLimit_ok {limit : Option ℤ} (h : AllowedLimit limit) (fallback : ℕ)
    (hfallback : 0 < fallback) : ∃ n, pageLimit limit fallback = .ok n ∧ 0 < n := by
  cases limit with
  | none => exact ⟨fallback, rfl, hfallback⟩
  | some limit =>
    obtain ⟨hlow, hhigh⟩ := h limit rfl
    refine ⟨limit.toNat, ?_, by omega⟩
    unfold pageLimit
    simp only
    rw [if_neg (by omega)]

end Normalize

end Sidebar

end Kinetick

/-!
## The rows of the sidebar

The rows that pass a filter are sessions with their projects, each session once, and each of them can
be decoded. A project counts as many sessions as are listed under it.
-/

namespace Kinetick

namespace Sidebar

open Sql Keyset

theorem filter_key_eq {α β : Type} [DecidableEq β] {f : α → β} {l : List α}
    (h : (l.map f).Nodup) {x : α} (hx : x ∈ l) : (l.filter fun y => f x = f y) = [x] := by
  induction l with
  | nil => cases hx
  | cons a l ih =>
    rw [List.map_cons, List.nodup_cons] at h
    rcases List.mem_cons.1 hx with rfl | hx
    · rw [List.filter_cons_of_pos (by simp)]
      congr 1
      refine List.filter_eq_nil_iff.2 fun y hy heq => h.1 ?_
      rw [decide_eq_true_eq] at heq
      rw [heq]
      exact List.mem_map_of_mem hy
    · have hne : f x ≠ f a := fun heq => h.1 (heq ▸ List.mem_map_of_mem hx)
      rw [List.filter_cons_of_neg (by simpa using hne)]
      exact ih h.2 hx

section Database

variable {db : Database} {s : SessionRow} {p : ProjectRow}

theorem mem_joined {row : SessionRow × ProjectRow} :
    row ∈ db.joined ↔
      row.1 ∈ db.sessions ∧ row.2 ∈ db.projects ∧ row.1.projectId = some row.2.projectId := by
  obtain ⟨s, p⟩ := row
  simp only [Database.joined, List.mem_flatMap, List.mem_map, List.mem_filter, decide_eq_true_eq,
    Prod.mk.injEq]
  constructor
  · rintro ⟨s', hs', p', ⟨hp', hid⟩, rfl, rfl⟩
    exact ⟨hs', hp', hid⟩
  · rintro ⟨hs, hp, hid⟩
    exact ⟨s, hs, p, ⟨hp, hid⟩, rfl, rfl⟩

theorem projects_of_session (hp : p ∈ db.projects) (hid : s.projectId = some p.projectId) :
    (db.projects.filter fun p => s.projectId = some p.projectId) = [p] := by
  rw [← filter_key_eq db.projectIds hp, hid]
  simp only [Option.some.injEq]

/-- Every session is joined with at most one project. -/
theorem joined_pairwise : db.joined.Pairwise fun x y => x.1.sessionId ≠ y.1.sessionId := by
  refine List.pairwise_flatMap.2 ⟨fun s _ => ?_, ?_⟩
  · by_cases h : ∃ p ∈ db.projects, s.projectId = some p.projectId
    · obtain ⟨p, hp, hid⟩ := h
      rw [projects_of_session hp hid]
      exact List.pairwise_singleton _ _
    · have hnone : (db.projects.filter fun p => s.projectId = some p.projectId) = [] :=
        List.filter_eq_nil_iff.2 fun p hp hid => h ⟨p, hp, by simpa using hid⟩
      rw [hnone]
      exact .nil
  · refine (List.pairwise_map.1 db.sessionIds).imp fun hne x hx y hy => ?_
    obtain ⟨_, -, rfl⟩ := List.mem_map.1 hx
    obtain ⟨_, -, rfl⟩ := List.mem_map.1 hy
    exact hne

theorem joined_eq {x y : SessionRow × ProjectRow} (hx : x ∈ db.joined) (hy : y ∈ db.joined)
    (hid : x.1.sessionId = y.1.sessionId) : x = y :=
  List.inj_on_of_nodup_map (List.pairwise_map.2 joined_pairwise) hx hy hid

theorem nodup_sessionKeys {rows : List (SessionRow × ProjectRow)} (h : rows.Sublist db.joined) :
    (rows.map fun row => sessionKey row.1).Nodup := by
  refine List.pairwise_map.2 ((joined_pairwise.sublist h).imp fun hne heq => hne ?_)
  unfold sessionKey at heq
  simp only [List.cons.injEq, SqlValue.text.injEq] at heq
  exact heq.2.2.1

theorem nodup_projectKeys {rows : List ProjectRow} (h : rows.Sublist db.projects) :
    (rows.map (projectKey db)).Nodup := by
  refine List.pairwise_map.2
    (((List.pairwise_map.1 db.projectIds).sublist h).imp fun hne heq => hne ?_)
  unfold projectKey at heq
  simp only [List.cons.injEq, SqlValue.integer.injEq] at heq
  exact heq.2.2.2.1

end Database

/-! ## Decoding -/

theorem requireSafeInteger_ok {n m : ℤ} {field : String} (h : requireSafeInteger n field = .ok m) :
    m = n ∧ isSafeInteger n = true := by
  unfold requireSafeInteger at h
  split_ifs at h with hsafe
  cases h
  exact ⟨rfl, hsafe⟩

/-- The decoded row carries the row's id and times; without a creation time it has its update's. -/
theorem decodeSessionRow_ok {row : SessionRow} {record : SessionRecord}
    (h : decodeSessionRow row = .ok record) :
    record.sessionId = row.sessionId ∧ record.updatedAtMs = row.updatedAtMs ∧
      record.createdAtMs = row.createdAtMs.getD row.updatedAtMs ∧
      isSafeInteger record.updatedAtMs = true ∧ isSafeInteger record.createdAtMs = true := by
  unfold decodeSessionRow at h
  simp only [bind, Except.bind, pure, Except.pure, throw, throwThe, MonadExceptOf.throw] at h
  split_ifs at h with hversion
  cases hupdated : requireSafeInteger row.updatedAtMs (row.field "updated_at_ms") with
  | error e => rw [hupdated] at h; cases h
  | ok updatedAtMs =>
    obtain ⟨rfl, hsafe⟩ := requireSafeInteger_ok hupdated
    rw [hupdated] at h
    cases htype : row.sessionType with
    | none => rw [htype] at h; cases h
    | some sessionType =>
      cases hagent : row.agentName with
      | none => rw [htype, hagent] at h; cases h
      | some agentName =>
        cases hstatus : row.status with
        | none => rw [htype, hagent, hstatus] at h; cases h
        | some status =>
          rw [htype, hagent, hstatus] at h
          cases hcreated : row.createdAtMs with
          | none =>
            rw [hcreated] at h
            cases h
            exact ⟨rfl, rfl, rfl, hsafe, hsafe⟩
          | some createdAtMs =>
            rw [hcreated] at h
            simp only at h
            cases hrequired : requireSafeInteger createdAtMs (row.field "created_at_ms") with
            | error e => rw [hrequired] at h; cases h
            | ok n =>
              obtain ⟨rfl, hsafe'⟩ := requireSafeInteger_ok hrequired
              rw [hrequired] at h
              cases h
              exact ⟨rfl, rfl, rfl, hsafe, hsafe'⟩

section Matched

variable {S : SidebarQueryService} {q : NormalizedSidebarQuery} {projectId : Option ℤ}
  {row : SessionRow × ProjectRow}

theorem matched_sublist : (S.matched q projectId).Sublist S.db.joined := List.filter_sublist

theorem columnarVersion_of_sidebarPredicate {db : Database} {n : NormalizedInputs} {nowMs : ℤ}
    {s : SessionRow} {p : ProjectRow} (h : sidebarPredicate db n nowMs s p = true) :
    s.columnarVersion = currentSessionColumnarVersion := by
  unfold sidebarPredicate eligible at h
  simp only [Bool.and_eq_true, decide_eq_true_eq] at h
  exact h.1.1.1.1.1.1.1.1.1.1.1.1

/-- The tuple of a cursor after the row. -/
def cursorTuple (s : SessionRow) : List SqlValue :=
  [.integer s.updatedAtMs, .integer (s.createdAtMs.getD s.updatedAtMs), .text s.sessionId]

/-- The entry of a row carries its id and times. -/
theorem cursorTuple_of_entry {value : SidebarEntry} (h : S.EntryOf q row value) :
    cursorTuple row.1 = [.integer value.session.updatedAtMs, .integer value.session.createdAtMs,
      .text value.session.sessionId] := by
  unfold SidebarQueryService.EntryOf SidebarQueryService.entry at h
  obtain ⟨record, hrecord, h⟩ := bind_eq_ok.1 h
  cases h
  obtain ⟨hid, hupdated, hcreated, -⟩ := decodeSessionRow_ok hrecord
  rw [cursorTuple, hid, hupdated, hcreated]

theorem sessionCursor_of_entry {value : SidebarEntry} (h : S.EntryOf q row value)
    (projectId : Option ℤ) :
    sessionCursor q value projectId = encodedCursor q .sessions (cursorTuple row.1) projectId := by
  rw [cursorTuple_of_entry h]
  rfl

/-- The entry of a row that passes the filter. -/
theorem entry_ok (h : row ∈ S.matched q projectId) :
    ∃ value, S.EntryOf q row value ∧ tupleValid .sessions (cursorTuple row.1) = true := by
  obtain ⟨hjoined, hpasses⟩ := List.mem_filter.1 h
  rw [Bool.and_eq_true] at hpasses
  have hdecodes := S.db.decodes row.1 (mem_joined.1 hjoined).1
    (columnarVersion_of_sidebarPredicate hpasses.2)
  cases hrecord : decodeSessionRow row.1 with
  | error e => rw [hrecord] at hdecodes; cases hdecodes
  | ok record =>
    obtain ⟨-, hupdated, hcreated, hsafe, hsafe'⟩ := decodeSessionRow_ok hrecord
    refine ⟨_, by
      unfold SidebarQueryService.EntryOf SidebarQueryService.entry
      rw [hrecord]
      rfl, ?_⟩
    rw [hupdated] at hsafe
    rw [hcreated] at hsafe'
    simp only [tupleValid, cursorTuple, hsafe, hsafe', Bool.and_self]

/-- The sessions listed under a project are those that it counts. -/
theorem matched_of_project {p : ProjectRow} (hp : p ∈ S.db.projects) :
    S.matched q (some p.projectId) = (S.db.sessions.filter fun s => s.projectId = some p.projectId &&
      sidebarPredicate S.db q.toNormalizedInputs q.nowMs s p).map fun s => (s, p) := by
  unfold SidebarQueryService.matched Database.joined
  induction S.db.sessions with
  | nil => rfl
  | cons s sessions ih =>
    rw [List.flatMap_cons, List.filter_append, ih]
    by_cases hid : s.projectId = some p.projectId
    · rw [projects_of_session hp hid]
      by_cases hpasses : sidebarPredicate S.db q.toNormalizedInputs q.nowMs s p = true
      · simp [hid, hpasses]
      · simp [hid, hpasses]
    · have hnone : (((S.db.projects.filter fun p => s.projectId = some p.projectId).map
          fun p => (s, p)).filter fun row => (some p.projectId).all
            (fun id => row.1.projectId = some id) && sidebarPredicate S.db q.toNormalizedInputs
              q.nowMs row.1 row.2) = [] := by
        refine List.filter_eq_nil_iff.2 fun row hrow => ?_
        obtain ⟨p', -, rfl⟩ := List.mem_map.1 hrow
        simp [hid]
      rw [hnone, List.nil_append, List.filter_cons_of_neg (by simp [hid])]

theorem matchedCount_eq {p : ProjectRow} (hp : p ∈ S.db.projects) :
    S.matchedCount q p = (S.matched q (some p.projectId)).length := by
  rw [matched_of_project hp, List.length_map]
  rfl

theorem matched_subset (hrow : row ∈ S.matched q projectId) : row ∈ S.matched q none := by
  obtain ⟨hjoined, hpasses⟩ := List.mem_filter.1 hrow
  rw [Bool.and_eq_true] at hpasses
  exact List.mem_filter.2 ⟨hjoined, by simpa using hpasses.2⟩

end Matched

end Sidebar

end Kinetick
