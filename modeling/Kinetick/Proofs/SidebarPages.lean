import Kinetick.Proofs.SidebarQueries

/-!
# The listings enumerate

Each fetch of a listing is a window on the rows after the row of its cursor. For sessions this needs
that their creation times are there where their updates are at one time: the cursor carries a time that
the decoder makes up, and the condition on the column is never met by a NULL.
-/

namespace Kinetick

namespace Sidebar

open Sql Keyset

section Windows

variable {α β γ : Type}

theorem getLast_of_forall₂ {P : α → β → Prop} {f : α → γ} {g : β → γ} {l : List α} {l' : List β}
    (h : List.Forall₂ P l l') (hP : ∀ x ∈ l, ∀ y, P x y → g y = f x) :
    l'.getLast?.map g = l.getLast?.map f := by
  have hmap : l'.map g = l.map f := by
    induction h with
    | nil => rfl
    | cons hxy _ ih =>
      rw [List.map_cons, List.map_cons, hP _ List.mem_cons_self _ hxy,
        ih fun x hx => hP x (List.mem_cons_of_mem _ hx)]
  rw [← List.getLast?_map, ← List.getLast?_map, hmap]

theorem take_of_take {R : List α} {n : ℕ} : (R.take (n + 1)).take n = R.take n := by
  rw [List.take_take, Nat.min_eq_left (Nat.le_succ n)]

theorem lt_length_take {R : List α} {n : ℕ} : n < (R.take (n + 1)).length ↔ n < R.length := by
  rw [List.length_take]
  omega

end Windows

/-! ## Sessions -/

section Sessions

variable {S : SidebarQueryService} {q : NormalizedSidebarQuery} {projectId : Option ℤ}

/-- What a listing of sessions hands back after a row. -/
def sessionHandle (q : NormalizedSidebarQuery) (projectId : Option ℤ)
    (row : SessionRow × ProjectRow) : Handle :=
  (q.context, encodedCursor q .sessions (cursorTuple row.1) projectId)

def ValidProject (projectId : Option ℤ) : Prop :=
  (projectId.any fun id => !isSafeInteger id || id ≤ 0) = false

/-- The page of the first `n` of the rows. -/
def sessionsPageOf (q : NormalizedSidebarQuery) (projectId : Option ℤ) (n : ℕ)
    (rows : List (SessionRow × ProjectRow)) (entries : List SidebarEntry) : SessionsPage where
  entries
  context := q.context
  hasMore := n < (rows.take (n + 1)).length
  nextCursor :=
    if n < (rows.take (n + 1)).length then
      entries.getLast?.map fun value => sessionCursor q value projectId
    else none

/-- A page of sessions is a window on the rows that it selects. -/
theorem sessions_page (query : SidebarQuery) {nowMs : ℤ} (hproject : ValidProject projectId)
    (hq : S.normalizeQuery { query with allProjects := projectId.isNone } nowMs none = .ok q)
    {n : ℕ} (hlimit : pageLimit query.limit (if projectId.isNone then 20 else 6) = .ok n)
    {last : Option (List SqlValue)}
    (hlast : readCursor query.cursor q .sessions projectId = .ok last) :
    ∃ r, S.sessions nowMs projectId query = .ok r ∧
      IsWindow (S.EntryOf q) (sessionHandle q projectId) n
        (orderBy sessionDescending (fun row => sessionKey row.1)
          ((S.matched q projectId).filter fun row =>
            last.all fun last => tupleAfter (sessionKey row.1) last sessionDescending)) r.page := by
  generalize hR : orderBy sessionDescending (fun row => sessionKey row.1)
    ((S.matched q projectId).filter fun row =>
      last.all fun last => tupleAfter (sessionKey row.1) last sessionDescending) = R
  have hmem : ∀ row ∈ R, row ∈ S.matched q projectId := by
    intro row hrow
    rw [← hR, mem_orderBy] at hrow
    exact (List.mem_filter.1 hrow).1
  obtain ⟨entries, hentries, hforall⟩ := mapM_ok (f := S.entry q) (l := (R.take (n + 1)).take n)
    fun row hrow => by
      obtain ⟨value, hvalue, -⟩ :=
        entry_ok (hmem row (List.mem_of_mem_take (List.mem_of_mem_take hrow)))
      exact ⟨value, hvalue⟩
  refine ⟨sessionsPageOf q projectId n R entries, ?_, ?_⟩
  · unfold SidebarQueryService.sessions
    simp only [bind, Except.bind, hq, hlimit, hlast, pure, Except.pure]
    rw [hproject, hR, hentries]
    rfl
  · rw [take_of_take] at hforall
    refine ⟨hforall, ?_, ?_⟩
    · simp only [sessionsPageOf, SessionsPage.page, lt_length_take]
    · intro hlt
      simp only [sessionsPageOf, SessionsPage.page, lt_length_take]
      rw [if_pos hlt, getLast_of_forall₂ hforall (g := fun value => sessionCursor q value projectId)
        (f := fun row => encodedCursor q .sessions (cursorTuple row.1) projectId), Option.map_map]
      · rfl
      · exact fun row _ value hvalue => sessionCursor_of_entry hvalue projectId

/-- No two sessions listed under the project were updated at one time, where one has no creation
time. -/
def CreatedApartIn (S : SidebarQueryService) (q : NormalizedSidebarQuery) (projectId : Option ℤ) :
    Prop :=
  ∀ x ∈ S.matched q projectId, ∀ y ∈ S.matched q projectId, x ≠ y →
    x.1.updatedAtMs = y.1.updatedAtMs → x.1.createdAtMs ≠ none

theorem null_notMem_sessionKey {s : SessionRow} (h : s.createdAtMs ≠ none) :
    SqlValue.null ∉ sessionKey s ∧ cursorTuple s = sessionKey s := by
  obtain ⟨createdAtMs, hcreated⟩ := Option.ne_none_iff_exists'.1 h
  unfold sessionKey cursorTuple
  rw [hcreated]
  simp

/-- The condition of a cursor after a row is the order's, among sessions created apart. -/
theorem tupleAfter_cursorTuple (hapart : CreatedApartIn S q projectId)
    {x y : SessionRow × ProjectRow} (hx : x ∈ S.matched q projectId)
    (hy : y ∈ S.matched q projectId) :
    tupleAfter (sessionKey y.1) (cursorTuple x.1) sessionDescending =
      comesBefore sessionDescending (sessionKey x.1) (sessionKey y.1) := by
  by_cases hupdated : x.1.updatedAtMs = y.1.updatedAtMs
  · by_cases hxy : x = y
    · subst hxy
      rw [comesBefore_irrefl]
      by_cases hcreated : x.1.createdAtMs = none
      · unfold sessionKey cursorTuple sessionDescending
        rw [hcreated]
        simp [tupleAfter_cons, SqlValue.lt, SqlValue.before]
      · obtain ⟨hnull, hkey⟩ := null_notMem_sessionKey hcreated
        rw [hkey, tupleAfter_eq hnull hnull, comesBefore_irrefl]
    · obtain ⟨hnull, hkey⟩ := null_notMem_sessionKey (hapart x hx y hy hxy hupdated)
      obtain ⟨hnull', -⟩ :=
        null_notMem_sessionKey (hapart y hy x hx (Ne.symm hxy) hupdated.symm)
      rw [hkey, tupleAfter_eq hnull hnull']
  · unfold sessionKey cursorTuple sessionDescending
    rw [tupleAfter_cons, comesBefore]
    simp [SqlValue.lt, SqlValue.eq, hupdated, Ne.symm hupdated]

theorem sessionList_pairwise :
    (S.sessionList q projectId).Pairwise fun x y =>
      comesBefore sessionDescending (sessionKey x.1) (sessionKey y.1) = true :=
  orderBy_pairwise (fun _ => rfl) (nodup_sessionKeys matched_sublist)

/-- What a cursor after a row selects is what comes after the row. -/
theorem selected_after (hapart : CreatedApartIn S q projectId)
    {before rest : List (SessionRow × ProjectRow)} {x : SessionRow × ProjectRow}
    (hsplit : S.sessionList q projectId = before ++ x :: rest) :
    orderBy sessionDescending (fun row => sessionKey row.1)
      ((S.matched q projectId).filter fun row =>
        tupleAfter (sessionKey row.1) (cursorTuple x.1) sessionDescending) = rest := by
  have hmem : x ∈ S.sessionList q projectId := by
    rw [hsplit]
    exact List.mem_append_right _ List.mem_cons_self
  have hx : x ∈ S.matched q projectId := mem_orderBy.1 hmem
  rw [List.filter_congr fun row hrow => tupleAfter_cursorTuple hapart hx hrow,
    filter_orderBy (fun _ => rfl) (nodup_sessionKeys matched_sublist)]
  exact filter_after (R := fun x y =>
      comesBefore sessionDescending (sessionKey x.1) (sessionKey y.1))
    sessionList_pairwise (fun _ => comesBefore_irrefl _ _) (fun _ _ => comesBefore_asymm) hsplit

variable {input : SidebarQuery} {began : ℤ}

/-- The fetch after a row is a window on the rows that come after it. -/
theorem fetchSessions_next
    (hbegins : Begins S { input with allProjects := projectId.isNone } began none q)
    (hsafe : isSafeInteger began = true) (hpositive : 0 ≤ began) (hproject : ValidProject projectId)
    (hapart : CreatedApartIn S q projectId) {c : SidebarCall} (hc : c.Allowed began)
    {before rest : List (SessionRow × ProjectRow)} {x : SessionRow × ProjectRow}
    (hsplit : S.sessionList q projectId = before ++ x :: rest) :
    ∃ page n, S.fetchSessions input projectId c (some (sessionHandle q projectId x)) = .ok page ∧
      0 < n ∧ IsWindow (S.EntryOf q) (sessionHandle q projectId) n rest page := by
  have hx : x ∈ S.sessionList q projectId := by
    rw [hsplit]
    exact List.mem_append_right _ List.mem_cons_self
  obtain ⟨-, -, hvalid⟩ := entry_ok (mem_orderBy.1 hx)
  obtain ⟨n, hlimit, hn⟩ := pageLimit_ok hc.limit (if projectId.isNone then 20 else 6)
    (by split_ifs <;> simp)
  obtain ⟨r, hr, hwindow⟩ := sessions_page
    (c.query input (some (sessionHandle q projectId x))) hproject
    (normalizeQuery_next hbegins hsafe hpositive hc _) hlimit (readCursor_encodedCursor hvalid)
  simp only [Option.all_some] at hwindow
  rw [selected_after hapart hsplit] at hwindow
  refine ⟨r.page, n, ?_, hn, hwindow⟩
  unfold SidebarQueryService.fetchSessions
  rw [hr]
  rfl

/-- From a window on the rows on, the pages of sessions enumerate them. -/
theorem sessions_from_window
    (hbegins : Begins S { input with allProjects := projectId.isNone } began none q)
    (hsafe : isSafeInteger began = true) (hpositive : 0 ≤ began) (hproject : ValidProject projectId)
    (hapart : CreatedApartIn S q projectId) {calls : List SidebarCall}
    (hcalls : ∀ c ∈ calls, SidebarCall.Allowed began c) {n : ℕ} (hn : 0 < n)
    {page : Page SidebarEntry Handle}
    (hwindow : IsWindow (S.EntryOf q) (sessionHandle q projectId) n (S.sessionList q projectId)
      page) :
    Enumerates (fun c start => S.fetchSessions input projectId c (some start)) (S.EntryOf q) calls
      (S.sessionList q projectId) page :=
  enumerates_of_windows (fun _ hc _ _ _ hsplit =>
    fetchSessions_next hbegins hsafe hpositive hproject hapart hc hsplit) hcalls
    (List.nil_append _).symm hn hwindow

/-- The first page is a window on all rows. -/
theorem fetchSessions_first
    (hbegins : Begins S { input with allProjects := projectId.isNone } began none q)
    (hproject : ValidProject projectId) {c : SidebarCall} (htime : c.nowMs = began)
    (hc : c.Allowed began) :
    ∃ page n, S.fetchSessions input projectId c none = .ok page ∧ 0 < n ∧
      pageLimit c.limit (if projectId.isNone then 20 else 6) = .ok n ∧
      IsWindow (S.EntryOf q) (sessionHandle q projectId) n (S.sessionList q projectId) page := by
  obtain ⟨n, hlimit, hn⟩ := pageLimit_ok hc.limit (if projectId.isNone then 20 else 6)
    (by split_ifs <;> simp)
  obtain ⟨r, hr, hwindow⟩ := sessions_page (c.query input none) hproject
    (normalizeQuery_first hbegins c) hlimit
    (rfl : readCursor none q .sessions projectId = .ok none)
  simp only [Option.all_none, List.filter_true] at hwindow
  refine ⟨r.page, n, ?_, hn, hlimit, hwindow⟩
  unfold SidebarQueryService.fetchSessions
  rw [htime, hr]
  rfl

end Sessions

/-! ## Projects -/

section Projects

variable {S : SidebarQueryService} {q : NormalizedSidebarQuery} {input : SidebarQuery} {began : ℤ}

theorem updatedAtMs_safe {s : SessionRow} (hs : s ∈ S.db.sessions)
    (hversion : s.columnarVersion = currentSessionColumnarVersion) :
    isSafeInteger s.updatedAtMs = true := by
  have hdecodes := S.db.decodes s hs hversion
  cases hrecord : decodeSessionRow s with
  | error e => rw [hrecord] at hdecodes; cases hdecodes
  | ok record =>
    obtain ⟨-, hupdated, -, hsafe, -⟩ := decodeSessionRow_ok hrecord
    rw [← hupdated]
    exact hsafe

theorem projectActivity_safe {p : ProjectRow} (hp : p ∈ S.db.projects) :
    isSafeInteger (S.db.projectActivity p) = true := by
  have hlatest := (S.db.integers p hp).2.2.2
  unfold Database.projectActivity
  simp only
  generalize hchannels : (S.db.sessions.filter fun s => _) = channels
  have hmax : isSafeInteger (((channels.map (·.updatedAtMs)).max?).getD 0) = true := by
    cases hmax : (channels.map (·.updatedAtMs)).max? with
    | none => rfl
    | some n =>
      obtain ⟨s, hs, rfl⟩ := List.mem_map.1 (List.max?_mem hmax)
      rw [← hchannels, List.mem_filter] at hs
      simp only [Bool.and_eq_true, decide_eq_true_eq] at hs
      exact updatedAtMs_safe hs.1 hs.2.1.1.1.1.2
  generalize ((channels.map (·.updatedAtMs)).max?).getD 0 = activity at hmax
  rw [Int.max_def]
  split_ifs
  · exact hmax
  · exact hlatest

theorem tupleValid_projectKey {p : ProjectRow} (hp : p ∈ S.db.projects) :
    tupleValid .projects (projectKey S.db p) = true := by
  obtain ⟨hpositive, hid, horder, -⟩ := S.db.integers p hp
  have hactivity := projectActivity_safe hp
  have hpinned : ∀ pinned : Bool, isSafeInteger (if pinned then 1 else 0) = true ∧
      (if pinned then 1 else 0) ∈ ([0, 1] : List ℤ) := by decide
  simp only [projectKey, tupleValid, List.all_cons, List.all_nil, (hpinned p.pinned).1,
    (hpinned p.pinned).2, horder, hactivity, hid, hpositive, decide_true, Bool.and_self]

/-- The previews of a project are the first of its sessions. -/
theorem previews_ok (q : NormalizedSidebarQuery) (n : ℕ) (p : ProjectRow) :
    ∃ entries, S.previews q n p = .ok entries ∧
      List.Forall₂ (S.EntryOf q) ((S.sessionList q (some p.projectId)).take (n + 1)) entries := by
  have hnumbered := filter_numbered (S.sessionList q (some p.projectId)) (n + 1)
  obtain ⟨entries, hentries, hforall⟩ :=
    mapM_ok (f := fun row : (SessionRow × ProjectRow) × ℕ => S.entry q row.1)
      (l := ((S.sessionList q (some p.projectId)).zipIdx 1).filter fun row => row.2 ≤ n + 1)
      fun row hrow => by
        have hmem : row.1 ∈ S.sessionList q (some p.projectId) := by
          refine List.mem_of_mem_take (i := n + 1) ?_
          rw [← hnumbered]
          exact List.mem_map_of_mem hrow
        obtain ⟨value, hvalue, -⟩ := entry_ok (mem_orderBy.1 hmem)
        exact ⟨value, hvalue⟩
  refine ⟨entries, hentries, ?_⟩
  rw [← hnumbered]
  exact List.forall₂_map_left_iff.2 hforall

theorem activeEntry_ok {active : Option (SessionRow × ProjectRow)} (shown : List SidebarEntry)
    (p : ProjectRow) (hactive : ∀ row ∈ active, row ∈ S.matched q none) :
    ∃ value, S.activeEntry q active shown p = .ok value := by
  cases active with
  | none => exact ⟨none, rfl⟩
  | some row =>
    obtain ⟨value, hvalue, -⟩ := entry_ok (hactive row rfl)
    unfold SidebarQueryService.activeEntry
    simp only
    split_ifs
    · exact ⟨some value, by rw [show S.entry q row = .ok value from hvalue]; rfl⟩
    · exact ⟨none, rfl⟩

theorem group_ok (hbegins : Begins S { input with allProjects := false } began none q)
    (hsafe : isSafeInteger began = true) (hpositive : 0 ≤ began)
    (hapart : CreatedApartIn S q none) {n : ℕ} (hn : 0 < n)
    {active : Option (SessionRow × ProjectRow)} (hactive : ∀ row ∈ active, row ∈ S.matched q none)
    {p : ProjectRow} (hp : p ∈ S.db.projects) :
    ∃ g, S.group q n active p = .ok g ∧ S.GroupOf input q began p g := by
  obtain ⟨entries, hentries, hforall⟩ := previews_ok (S := S) q n p
  have hlength : n < entries.length ↔ n < (S.sessionList q (some p.projectId)).length := by
    rw [← hforall.length_eq, lt_length_take]
  have hshown : List.Forall₂ (S.EntryOf q) ((S.sessionList q (some p.projectId)).take n)
      (entries.take n) := by
    rw [← take_of_take]
    exact List.forall₂_take n hforall
  obtain ⟨activeEntry, hactiveEntry⟩ :=
    activeEntry_ok (entries.take n) p hactive
  refine ⟨
    { project := { p with latestActivityAtMs := S.db.projectActivity p }
      entries := entries.take n
      activeEntry
      matchedCount := S.matchedCount q p
      hasMoreSessions := n < entries.length
      nextSessionCursor :=
        if n < entries.length then
          (entries.take n).getLast?.map fun value => sessionCursor q value (some p.projectId)
        else none }, ?_, ?_⟩
  · unfold SidebarQueryService.group
    simp only [bind, Except.bind, hentries, hactiveEntry, pure, Except.pure]
  · refine ⟨rfl, matchedCount_eq hp, fun calls hcalls => ?_⟩
    have hproject : ValidProject (some p.projectId) := by
      obtain ⟨hpos, hid, -⟩ := S.db.integers p hp
      unfold ValidProject
      simp [hid]
      omega
    have hapart' : CreatedApartIn S q (some p.projectId) := fun x hx y hy =>
      hapart x (matched_subset hx) y (matched_subset hy)
    refine sessions_from_window hbegins hsafe hpositive hproject hapart' hcalls hn
      ⟨hshown, ?_, ?_⟩
    · simp only [SidebarGroup.page, hlength]
    · intro hlt
      simp only [SidebarGroup.page, hlength]
      rw [if_pos hlt, getLast_of_forall₂ hshown
        (g := fun value => sessionCursor q value (some p.projectId))
        (f := fun row => encodedCursor q .sessions (cursorTuple row.1) (some p.projectId)),
        Option.map_map]
      · rfl
      · exact fun row _ value hvalue => sessionCursor_of_entry hvalue _

/-- What a listing of projects hands back after a project. -/
def projectHandle (S : SidebarQueryService) (q : NormalizedSidebarQuery) (p : ProjectRow) : Handle :=
  (q.context, encodedCursor q .projects (projectKey S.db p) none)

theorem null_notMem_projectKey {db : Database} (p : ProjectRow) :
    SqlValue.null ∉ projectKey db p := by
  simp [projectKey]

/-- A page of projects is a window on the projects that it selects. -/
theorem projects_page (query : SidebarQuery) {nowMs : ℤ}
    (hbegins : Begins S { input with allProjects := false } began none q)
    (hsafe : isSafeInteger began = true) (hpositive : 0 ≤ began)
    (hapart : CreatedApartIn S q none)
    (hq : S.normalizeQuery query nowMs none = .ok q) {n m : ℕ}
    (hlimit : pageLimit query.limit 4 = .ok n) (hsession : pageLimit query.sessionLimit 6 = .ok m)
    (hm : 0 < m) {last : Option (List SqlValue)}
    (hlast : readCursor query.cursor q .projects none = .ok last) :
    ∃ r, S.projects nowMs query = .ok r ∧
      IsWindow (S.GroupOf input q began) (projectHandle S q) n
        (orderBy projectDescending (projectKey S.db) (S.db.projects.filter fun p =>
          S.listed q p && last.all fun last =>
            tupleAfter (projectKey S.db p) last projectDescending)) r.page := by
  generalize hR : orderBy projectDescending (projectKey S.db) (S.db.projects.filter fun p =>
    S.listed q p && last.all fun last =>
      tupleAfter (projectKey S.db p) last projectDescending) = R
  have hmem : ∀ p ∈ R, p ∈ S.db.projects := by
    intro p hp
    rw [← hR, mem_orderBy] at hp
    exact (List.mem_filter.1 hp).1
  generalize hactiveRow : (query.activeSessionId.bind fun id =>
    S.db.joined.find? fun row => row.1.sessionId = id &&
      row.1.projectId.any (fun id => id ∈ ((R.take (n + 1)).take n).map (·.projectId)) &&
        sidebarPredicate S.db q.toNormalizedInputs q.nowMs row.1 row.2) = active
  have hactive : ∀ row ∈ active, row ∈ S.matched q none := by
    intro row hrow
    rw [← hactiveRow] at hrow
    obtain ⟨id, -, hfind⟩ := Option.bind_eq_some_iff.1 hrow
    have hpasses := List.find?_some hfind
    simp only [Bool.and_eq_true] at hpasses
    exact List.mem_filter.2 ⟨List.mem_of_find?_eq_some hfind, by simpa using hpasses.2⟩
  obtain ⟨groups, hgroups, hforall⟩ :=
    mapM_ok (f := S.group q m active) (l := (R.take (n + 1)).take n) fun p hp => by
      obtain ⟨g, hg, -⟩ := group_ok hbegins hsafe hpositive hapart hm hactive
        (hmem p (List.mem_of_mem_take (List.mem_of_mem_take hp)))
      exact ⟨g, hg⟩
  have hshown : List.Forall₂ (S.GroupOf input q began) (R.take n) groups := by
    rw [take_of_take] at hforall
    refine (List.forall₂_iff_zip.2 ⟨hforall.length_eq, fun {p g} hpg => ?_⟩)
    obtain ⟨g', hg', hof⟩ := group_ok hbegins hsafe hpositive hapart hm hactive
      (hmem p (List.mem_of_mem_take (List.of_mem_zip hpg).1))
    rw [(List.forall₂_iff_zip.1 hforall).2 hpg] at hg'
    cases hg'
    exact hof
  refine ⟨
    { groups
      context := q.context
      hasMore := n < (R.take (n + 1)).length
      nextCursor :=
        if n < (R.take (n + 1)).length then
          ((R.take (n + 1)).take n).getLast?.map fun p =>
            encodedCursor q .projects (projectKey S.db p) none
        else none }, ?_, hshown, ?_, ?_⟩
  · unfold SidebarQueryService.projects
    simp only [bind, Except.bind, hq, hlimit, hsession, hlast, pure, Except.pure, hR, hactiveRow,
      hgroups]
  · simp only [ProjectsPage.page, lt_length_take]
  · intro hlt
    simp only [ProjectsPage.page, lt_length_take, take_of_take]
    rw [if_pos hlt, Option.map_map]
    rfl

theorem projectList_pairwise :
    (S.projectList q).Pairwise fun x y =>
      comesBefore projectDescending (projectKey S.db x) (projectKey S.db y) = true :=
  orderBy_pairwise (fun _ => rfl) (nodup_projectKeys List.filter_sublist)

theorem projects_listed (hbegins : Begins S { input with allProjects := false } began none q)
    (hallProjects : input.allProjects = false)
    (hsafe : isSafeInteger began = true) (hpositive : 0 ≤ began)
    (hapart : CreatedApartIn S q none) :
    ListedBy (S.fetchProjects input) (S.GroupOf input q began) began (S.projectList q) := by
  have hinput : { input with allProjects := false } = input := by
    rw [← hallProjects]
  intro c calls htime hc hcalls
  obtain ⟨n, hlimit, hn⟩ := pageLimit_ok hc.limit 4 (by simp)
  obtain ⟨m, hsession, hm⟩ := pageLimit_ok hc.sessionLimit 6 (by simp)
  obtain ⟨r, hr, hwindow⟩ := projects_page (c.query input none) hbegins hsafe hpositive hapart
    (normalizeQuery_first (hinput ▸ hbegins) c) hlimit hsession hm
    (rfl : readCursor none q .projects none = .ok none)
  simp only [Option.all_none, Bool.and_true] at hwindow
  refine ⟨r.page, ?_, ?_⟩
  · unfold SidebarQueryService.fetchProjects
    rw [htime, hr]
    rfl
  refine enumerates_of_windows ?_ hcalls (List.nil_append _).symm hn hwindow
  intro c hc before x rest hsplit
  obtain ⟨n, hlimit, hn⟩ := pageLimit_ok hc.limit 4 (by simp)
  obtain ⟨m, hsession, hm⟩ := pageLimit_ok hc.sessionLimit 6 (by simp)
  have hx : x ∈ S.db.projects := by
    have hmem : x ∈ S.projectList q := by
      rw [hsplit]
      exact List.mem_append_right _ List.mem_cons_self
    exact (List.mem_filter.1 (mem_orderBy.1 hmem)).1
  obtain ⟨r, hr, hwindow⟩ := projects_page (c.query input (some (projectHandle S q x))) hbegins
    hsafe hpositive hapart (normalizeQuery_next (hinput ▸ hbegins) hsafe hpositive hc _) hlimit
    hsession hm (readCursor_encodedCursor (tupleValid_projectKey hx))
  refine ⟨r.page, n, by unfold SidebarQueryService.fetchProjects; rw [hr]; rfl, hn, ?_⟩
  have hselected : orderBy projectDescending (projectKey S.db) (S.db.projects.filter fun p =>
      S.listed q p && tupleAfter (projectKey S.db p) (projectKey S.db x) projectDescending) =
      rest := by
    have hafter : (S.db.projects.filter fun p =>
        S.listed q p && tupleAfter (projectKey S.db p) (projectKey S.db x) projectDescending) =
        (S.db.projects.filter (S.listed q)).filter fun p =>
          comesBefore projectDescending (projectKey S.db x) (projectKey S.db p) := by
      rw [List.filter_filter]
      refine List.filter_congr fun p _ => ?_
      rw [tupleAfter_eq (null_notMem_projectKey x) (null_notMem_projectKey p), Bool.and_comm]
    rw [hafter, filter_orderBy (fun _ => rfl) (nodup_projectKeys List.filter_sublist)]
    exact filter_after (R := fun x y =>
        comesBefore projectDescending (projectKey S.db x) (projectKey S.db y))
      projectList_pairwise (fun _ => comesBefore_irrefl _ _) (fun _ _ => comesBefore_asymm) hsplit
  simp only [Option.all_some] at hwindow
  rw [hselected] at hwindow
  exact hwindow

end Projects

/-! ## Agents -/

section Agents

variable {S : SidebarQueryService} {q q' : NormalizedSidebarQuery} {input : SidebarQuery}
  {began : ℤ} {roots : List String}

theorem agentKeys_nodup {names : List String} (h : names.Nodup) :
    (names.map fun name => [SqlValue.text name]).Nodup :=
  h.map fun a b hab => by simpa using hab

theorem agentList_pairwise :
    (S.agentList q roots).Pairwise fun a b =>
      comesBefore [false] [.text a] [.text b] = true :=
  orderBy_pairwise (fun _ => rfl) (agentKeys_nodup (List.nodup_dedup _))

/-- The owners that a query selects after a name. -/
def ownersAfter (S : SidebarQueryService) (q : NormalizedSidebarQuery) (roots : List String)
    (last : Option (List SqlValue)) : List String :=
  ((S.db.joined.filter fun row => SidebarQueryService.ownedByAgent q roots row &&
    last.all fun last => (canonicalOwner row.1).any fun owner =>
      (last.head?.getD .null).lt (.text owner)).filterMap fun row => canonicalOwner row.1).dedup

theorem ownersAfter_none : ownersAfter S q roots none = S.owners q roots := by
  unfold ownersAfter SidebarQueryService.owners
  simp only [Option.all_none, Bool.and_true]

theorem selected_after_name {name : String} {before rest : List String}
    (hsplit : S.agentList q roots = before ++ name :: rest) :
    orderBy [false] (fun name => [.text name]) (ownersAfter S q roots (some [.text name])) =
      rest := by
  have hfilter := filter_after (R := fun a b => comesBefore [false] [.text a] [.text b])
    agentList_pairwise (fun _ => comesBefore_irrefl _ _) (fun _ _ => comesBefore_asymm) hsplit
  have hafter : ∀ owner, comesBefore [false] [.text name] [.text owner] =
      (SqlValue.text name).lt (.text owner) := by
    intro owner
    simp [comesBefore, SqlValue.lt]
  rw [← hfilter]
  refine orderBy_eq_of_perm (fun _ => rfl) (agentKeys_nodup (List.nodup_dedup _)) ?_
    (agentList_pairwise.filter _)
  refine (List.perm_ext_iff_of_nodup ?_ (List.nodup_dedup _)).2 fun owner => ?_
  · exact ((orderBy_perm _ _ _).nodup_iff.2 (List.nodup_dedup _)).filter _
  · unfold SidebarQueryService.agentList SidebarQueryService.owners
    rw [List.mem_filter, mem_orderBy, List.mem_dedup, List.mem_dedup, hafter]
    simp only [List.mem_filterMap, List.mem_filter, Option.all_some, List.head?_cons,
      Option.getD_some, Bool.and_eq_true]
    constructor
    · rintro ⟨⟨row, ⟨hrow, howned⟩, howner⟩, hlt⟩
      exact ⟨row, ⟨hrow, howned, by rw [howner]; exact hlt⟩, howner⟩
    · rintro ⟨row, ⟨hrow, howned, hlt⟩, howner⟩
      rw [howner] at hlt
      exact ⟨⟨row, ⟨hrow, howned⟩, howner⟩, hlt⟩

/-- What a listing of agents hands back after a name. -/
def agentHandle (q : NormalizedSidebarQuery) (name : String) : Handle :=
  (q.context, encodedCursor q .agents [.text name] none)

theorem agents_page (query : SidebarQuery) {nowMs : ℤ}
    (hq : S.normalizeQuery { query with filter := none, scope := none } nowMs (some roots) = .ok q)
    {n : ℕ} (hlimit : pageLimit query.limit 50 = .ok n) {last : Option (List SqlValue)}
    (hlast : readCursor query.cursor q .agents none = .ok last) :
    ∃ r, S.agents nowMs query roots = .ok r ∧
      IsWindow Eq (agentHandle q) n
        (orderBy [false] (fun name => [.text name]) (ownersAfter S q roots last)) r.page := by
  generalize hR :
    orderBy [false] (fun name => [.text name]) (ownersAfter S q roots last) = R
  refine ⟨
    { names := (R.take (n + 1)).take n
      context := q.context
      hasMore := n < (R.take (n + 1)).length
      nextCursor :=
        if n < (R.take (n + 1)).length then
          ((R.take (n + 1)).take n).getLast?.map fun name =>
            encodedCursor q .agents [.text name] none
        else none }, ?_, ?_, ?_, ?_⟩
  · unfold SidebarQueryService.agents
    unfold ownersAfter at hR
    simp only [bind, Except.bind, hq, hlimit, hlast, pure, Except.pure, hR]
  · simp only [AgentsPage.page, take_of_take]
    exact List.forall₂_same.2 fun _ _ => rfl
  · simp only [AgentsPage.page, lt_length_take]
  · intro hlt
    simp only [AgentsPage.page, lt_length_take, take_of_take]
    rw [if_pos hlt, Option.map_map]
    rfl

theorem agents_listed
    (hbegins : Begins S { input with filter := none, scope := none } began (some roots) q)
    (hsafe : isSafeInteger began = true) (hpositive : 0 ≤ began) :
    ListedBy (S.fetchAgents input roots) Eq began (S.agentList q roots) := by
  intro c calls htime hc hcalls
  obtain ⟨n, hlimit, hn⟩ := pageLimit_ok hc.limit 50 (by simp)
  obtain ⟨r, hr, hwindow⟩ := agents_page (c.query input none) (normalizeQuery_first hbegins c) hlimit
    (rfl : readCursor none q .agents none = .ok none)
  rw [ownersAfter_none] at hwindow
  refine ⟨r.page, ?_, ?_⟩
  · unfold SidebarQueryService.fetchAgents
    rw [htime, hr]
    rfl
  refine enumerates_of_windows ?_ hcalls (List.nil_append _).symm hn hwindow
  intro c hc before name rest hsplit
  obtain ⟨n, hlimit, hn⟩ := pageLimit_ok hc.limit 50 (by simp)
  have hvalid : tupleValid .agents [.text name] = true := rfl
  obtain ⟨r, hr, hwindow⟩ := agents_page (c.query input (some (agentHandle q name)))
    (normalizeQuery_next hbegins hsafe hpositive hc _) hlimit (readCursor_encodedCursor hvalid)
  rw [selected_after_name hsplit] at hwindow
  exact ⟨r.page, n, by unfold SidebarQueryService.fetchAgents; rw [hr]; rfl, hn, hwindow⟩

end Agents

end Sidebar

end Kinetick
