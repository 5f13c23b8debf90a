import Kinetick.Proofs.SidebarPages

/-!
# When the sidebar enumerates

The listings of a query enumerate exactly where no two sessions that pass the filter were updated at
one time with one of them lacking its creation time. Where two were, the pages of one session each miss
the one after the first of the two.
-/

namespace Kinetick

namespace Sidebar

open Sql Keyset

/-! ## The queries of the three listings -/

section Normalize

variable {S : SidebarQueryService} {input : SidebarQuery} {began : ℤ} {q : NormalizedSidebarQuery}
  {ids : List String} {n : NormalizedInputs}

theorem normalizeInputs_allProjects (b : Bool) :
    normalizeInputs { input with allProjects := b } ids none =
      (fun n => { n with allProjects := b }) <$> normalizeInputs input ids none := by
  unfold normalizeInputs
  simp only [map_bind, map_pure]

/-- The inputs of the agents' listing are accepted where those of the query are. -/
theorem normalizeInputs_agents (h : normalizeInputs input ids none = .ok n)
    (roots : Option (List String)) :
    ∃ n', normalizeInputs { input with filter := none, scope := none } ids roots = .ok n' ∧
      n'.internalRootIds = n.internalRootIds := by
  unfold normalizeInputs at h
  obtain ⟨statuses, -, h⟩ := bind_eq_ok.1 h
  obtain ⟨types, -, h⟩ := bind_eq_ok.1 h
  obtain ⟨agentNames, -, h⟩ := bind_eq_ok.1 h
  obtain ⟨activityDays, -, h⟩ := bind_eq_ok.1 h
  obtain ⟨unreadIds, -, h⟩ := bind_eq_ok.1 h
  obtain ⟨excludedIds, -, h⟩ := bind_eq_ok.1 h
  obtain ⟨excludedProjectIds, -, h⟩ := bind_eq_ok.1 h
  obtain ⟨bindingIds, hbinding, h⟩ := bind_eq_ok.1 h
  obtain ⟨cronTargetIds, hcron, h⟩ := bind_eq_ok.1 h
  cases h
  refine ⟨
    { allProjects := input.allProjects
      types := []
      statuses := []
      agentNames := []
      activityDays := none
      unreadIds := []
      excludedIds := []
      excludedProjectIds := []
      bindingIds
      cronTargetIds
      internalRootIds := sortTexts ids
      rootAgentNames := roots.map fun names => sortTexts names.eraseDups }, ?_, rfl⟩
  unfold normalizeInputs
  rw [hbinding, hcron]
  rfl

variable {roots : List String}

/-- The listing of all sessions begins with the query of the listing of projects. -/
theorem begins_sessions (h : Begins S input began none q) :
    ∃ q', Begins S { input with allProjects := true } began none q' ∧
      S.matched q' none = S.matched q none ∧ S.EntryOf q' = S.EntryOf q := by
  have hinputs := @normalizeInputs_allProjects input S.listInternalDefaultRootIds true
  rw [h.inputs] at hinputs
  refine ⟨
    { q with
      allProjects := true
      context := .object
        { v := 1, hash := S.hash { q.toNormalizedInputs with allProjects := true },
          nowMs := began } }, ⟨hinputs, rfl, h.nowMs⟩, rfl, rfl⟩

theorem begins_agents (h : Begins S input began none q) (roots : List String) :
    ∃ q', Begins S { input with filter := none, scope := none } began (some roots) q' ∧
      S.agentList q' roots = S.agentList q roots := by
  obtain ⟨n, hinputs, hids⟩ := normalizeInputs_agents h.inputs (some roots)
  refine ⟨
    { n with
      context := .object { v := 1, hash := S.hash n, nowMs := began }
      nowMs := began }, ⟨hinputs, rfl, rfl⟩, ?_⟩
  unfold SidebarQueryService.agentList SidebarQueryService.owners SidebarQueryService.ownedByAgent
  simp only [hids]

end Normalize

section Listings

variable {S : SidebarQueryService} {input : SidebarQuery} {began : ℤ} {q : NormalizedSidebarQuery}

/-- All listings enumerate where sessions are created apart. -/
theorem enumerates_of_createdApart (hbegins : Begins S input began none q)
    (hallProjects : input.allProjects = false) (hsafe : isSafeInteger began = true)
    (hpositive : 0 ≤ began) (hapart : S.CreatedApart q) (roots : List String) :
    S.EnumeratesSidebar input q roots began := by
  refine ⟨?_, ?_, ?_⟩
  · have hinput : { input with allProjects := false } = input := by
      rw [← hallProjects]
    exact projects_listed (hinput.symm ▸ hbegins) hallProjects hsafe hpositive hapart
  · obtain ⟨q', hbegins', hmatched, hentry⟩ := begins_sessions hbegins
    have hapart' : CreatedApartIn S q' none := by
      unfold CreatedApartIn
      rw [hmatched]
      exact hapart
    have hlist : S.sessionList q' none = S.sessionList q none := by
      unfold SidebarQueryService.sessionList
      rw [hmatched]
    rw [← hentry, ← hlist]
    intro c calls htime hc hcalls
    obtain ⟨page, n, hpage, hn, -, hwindow⟩ :=
      @fetchSessions_first S q' none input began hbegins' rfl c htime hc
    exact ⟨page, hpage, @sessions_from_window S q' none input began hbegins' hsafe hpositive rfl
      hapart' calls hcalls n hn page hwindow⟩
  · obtain ⟨q', hbegins', hlist⟩ := begins_agents hbegins roots
    rw [← hlist]
    exact agents_listed hbegins' hsafe hpositive

/-! ## Pages of one session -/

/-- What a listing of all sessions has read where it answers. -/
theorem sessions_answered {nowMs : ℤ} {query : SidebarQuery} {r : SessionsPage}
    (h : S.sessions nowMs none query = .ok r) :
    ∃ q n last, S.normalizeQuery { query with allProjects := true } nowMs none = .ok q ∧
      pageLimit query.limit 20 = .ok n ∧ readCursor query.cursor q .sessions none = .ok last := by
  unfold SidebarQueryService.sessions at h
  simp only [Option.any_none, Bool.false_eq_true, if_false, Option.isNone_none, if_true] at h
  obtain ⟨q, hq, h⟩ := bind_eq_ok.1 h
  obtain ⟨n, hlimit, h⟩ := bind_eq_ok.1 h
  obtain ⟨last, hlast, -⟩ := bind_eq_ok.1 h
  exact ⟨q, n, last, hq, hlimit, hlast⟩

theorem last_of_readCursor {kind : CursorKind} {last : List SqlValue} {projectId : Option ℤ}
    {read : Option (List SqlValue)}
    (h : readCursor (some (encodedCursor q kind last projectId)) q kind projectId = .ok read) :
    read = some last := by
  unfold readCursor encodedCursor at h
  simp only at h
  rw [if_neg (by simp)] at h
  split_ifs at h
  · cases h
    rfl
  · cases h

/-- What was fetched after a row is a window on the rows that a cursor after it selects. -/
theorem window_of_fetchSessions (hbegins : Begins S { input with allProjects := true } began none q)
    (hsafe : isSafeInteger began = true) (hpositive : 0 ≤ began) {c : SidebarCall}
    (hc : c.Allowed began) {row : SessionRow × ProjectRow} {page : Page SidebarEntry Handle}
    (h : S.fetchSessions input none c (some (sessionHandle q none row)) = .ok page) :
    ∃ n, pageLimit c.limit 20 = .ok n ∧ IsWindow (S.EntryOf q) (sessionHandle q none) n
      (orderBy sessionDescending (fun row => sessionKey row.1)
        ((S.matched q none).filter fun y =>
          tupleAfter (sessionKey y.1) (cursorTuple row.1) sessionDescending)) page := by
  have hq : S.normalizeQuery { c.query input (some (sessionHandle q none row)) with
      allProjects := true } c.nowMs none = .ok q :=
    normalizeQuery_next hbegins hsafe hpositive hc _
  unfold SidebarQueryService.fetchSessions at h
  cases hr : S.sessions c.nowMs none (c.query input (some (sessionHandle q none row))) with
  | error e =>
    rw [hr] at h
    cases h
  | ok r =>
    rw [hr] at h
    cases h
    obtain ⟨q', n, last, hq', hlimit, hlast⟩ := sessions_answered hr
    rw [hq] at hq'
    cases hq'
    obtain ⟨r', hr', hwindow⟩ := sessions_page (c.query input (some (sessionHandle q none row)))
      (rfl : ValidProject none) hq hlimit hlast
    rw [hr] at hr'
    cases hr'
    rw [last_of_readCursor hlast] at hwindow
    exact ⟨n, hlimit, hwindow⟩

/-- The call for a page of one session. -/
def singleCall (began : ℤ) : SidebarCall where
  nowMs := began
  limit := some 1
  sessionLimit := none
  activeSessionId := none

theorem singleCall_allowed (began : ℤ) : (singleCall began).Allowed began where
  time := Int.le_refl _
  limit := by
    rintro n hn
    cases hn
    decide
  sessionLimit := by
    rintro n hn
    cases hn

/-- A page of one session hands back the cursor after the session. -/
theorem single_page {R : List (SessionRow × ProjectRow)} {page : Page SidebarEntry Handle}
    (hwindow : IsWindow (S.EntryOf q) (sessionHandle q none) 1 R page) :
    page.items.length ≤ 1 ∧ ∀ x item, page.items = [item] → S.EntryOf q x item →
      page.hasMore = true → page.nextCursor = some (sessionHandle q none x) := by
  have hitems := hwindow.items
  refine ⟨?_, fun x item hitem hx hmore => ?_⟩
  · rw [← hitems.length_eq, List.length_take]
    omega
  · rw [hwindow.hasMore, decide_eq_true_eq] at hmore
    rw [hwindow.nextCursor hmore]
    rw [hitem] at hitems
    generalize hshown : R.take 1 = shown at hitems
    cases hitems with
    | cons hrow htail =>
      cases htail
      rw [List.getLast?_singleton, Option.map_some, sessionHandle, sessionHandle,
        cursorTuple_of_entry hrow, cursorTuple_of_entry hx]

/-- Where the pages of one session enumerate, the page after a session shows the one after it. -/
theorem selects_next (hbegins : Begins S { input with allProjects := true } began none q)
    (hsafe : isSafeInteger began = true) (hpositive : 0 ≤ began)
    (h : ListedBy (S.fetchSessions input none) (S.EntryOf q) began (S.sessionList q none))
    {before rest : List (SessionRow × ProjectRow)} {x y : SessionRow × ProjectRow}
    (hsplit : S.sessionList q none = before ++ x :: y :: rest) :
    tupleAfter (sessionKey y.1) (cursorTuple x.1) sessionDescending = true := by
  have hc := singleCall_allowed began
  obtain ⟨page, hpage, hpages⟩ := h (singleCall began)
    (List.replicate (before.length + 1) (singleCall began)) rfl hc
    fun c hmem => List.eq_of_mem_replicate hmem ▸ hc
  obtain ⟨page₁, n, hpage₁, -, hlimit, hwindow⟩ :=
    @fetchSessions_first S q none input began hbegins rfl (singleCall began) rfl hc
  rw [hpage] at hpage₁
  cases hpage₁
  have hn : n = 1 := by
    have hone : pageLimit (some 1) 20 = .ok 1 := rfl
    exact Except.ok.inj (hlimit.symm.trans hone)
  subst hn
  have hnext : ∀ w page, S.fetchSessions input none (singleCall began)
      (some (sessionHandle q none w)) = .ok page →
      page.items.length ≤ 1 ∧ ∀ x item, page.items = [item] → S.EntryOf q x item →
        page.hasMore = true → page.nextCursor = some (sessionHandle q none x) := by
    intro w page hw
    obtain ⟨n, hlimit', hwindow'⟩ := window_of_fetchSessions hbegins hsafe hpositive hc hw
    have hone : pageLimit (some 1) 20 = .ok 1 := rfl
    obtain rfl : n = 1 := Except.ok.inj (hlimit'.symm.trans hone)
    exact single_page hwindow'
  rw [hsplit] at hpages
  obtain ⟨page', item, hfetched, hitem, hy⟩ := hpages.next_item
    (fun w page hw => (hnext w page hw).1) (fun w page x item hw => (hnext w page hw).2 x item)
    (single_page hwindow).1 (single_page hwindow).2
  obtain ⟨n, -, hwindow'⟩ := window_of_fetchSessions hbegins hsafe hpositive hc hfetched
  have hitems := hwindow'.items
  rw [hitem] at hitems
  generalize hR : orderBy sessionDescending (fun row => sessionKey row.1)
    ((S.matched q none).filter fun y =>
      tupleAfter (sessionKey y.1) (cursorTuple x.1) sessionDescending) = R at hitems
  generalize hshown : R.take n = shown at hitems
  cases hitems with
  | @cons z _ _ _ hz _ =>
    have hin : z ∈ R := List.mem_of_mem_take (hshown ▸ List.mem_cons_self)
    rw [← hR, mem_orderBy, List.mem_filter] at hin
    have hmatched : y ∈ S.matched q none := by
      have hmem : y ∈ S.sessionList q none := by
        rw [hsplit]
        simp
      exact mem_orderBy.1 hmem
    have htuples := (cursorTuple_of_entry hz).trans (cursorTuple_of_entry hy).symm
    have hid : z.1.sessionId = y.1.sessionId := by
      unfold cursorTuple at htuples
      simp only [List.cons.injEq, SqlValue.text.injEq] at htuples
      exact htuples.2.2.1
    rw [← joined_eq (matched_sublist.subset hin.1) (matched_sublist.subset hmatched) hid]
    exact hin.2

/-- A session without a creation time is not selected after one that was updated at its time. -/
theorem not_after_null {x y : SessionRow} (hupdated : x.updatedAtMs = y.updatedAtMs)
    (hcreated : y.createdAtMs = none) :
    tupleAfter (sessionKey y) (cursorTuple x) sessionDescending = false := by
  unfold sessionKey cursorTuple sessionDescending
  rw [hcreated, hupdated]
  simp [tupleAfter_cons, SqlValue.lt, SqlValue.before]

theorem updatedAtMs_le {x y : SessionRow}
    (h : comesBefore sessionDescending (sessionKey x) (sessionKey y) = true) :
    y.updatedAtMs ≤ x.updatedAtMs ∧
      (x.updatedAtMs = y.updatedAtMs → x.createdAtMs = none → y.createdAtMs = none) := by
  unfold sessionKey sessionDescending at h
  simp only [comesBefore, if_true, SqlValue.before, Bool.or_eq_true, Bool.and_eq_true,
    decide_eq_true_eq, SqlValue.integer.injEq] at h
  refine ⟨by omega, fun hupdated hcreated => ?_⟩
  rw [hcreated] at h
  rcases h with h | ⟨-, h⟩
  · omega
  · cases hy : y.createdAtMs with
    | none => rfl
    | some createdAtMs =>
      rw [hy] at h
      simp [SqlValue.before] at h

theorem createdApart_of_listed (hbegins : Begins S { input with allProjects := true } began none q)
    (hsafe : isSafeInteger began = true) (hpositive : 0 ≤ began)
    (h : ListedBy (S.fetchSessions input none) (S.EntryOf q) began (S.sessionList q none)) :
    S.CreatedApart q := by
  intro x hx y hy hne hupdated hcreated
  have hpairwise := @sessionList_pairwise S q none
  have hlisted : ∀ {row}, row ∈ S.matched q none → row ∈ S.sessionList q none := mem_orderBy.2
  obtain ⟨before, rest, hsplit⟩ := List.append_of_mem (hlisted hx)
  rw [hsplit, List.pairwise_append, List.pairwise_cons] at hpairwise
  obtain ⟨hbefore, ⟨hrest, hrests⟩, hacross⟩ := hpairwise
  have hmem := hlisted hy
  rw [hsplit, List.mem_append, List.mem_cons] at hmem
  rcases hmem with hmem | rfl | hmem
  · -- the session before `x` was updated when `y` and `x` were
    obtain ⟨before', z, rfl⟩ : ∃ before' z, before = before' ++ [z] :=
      ⟨_, _, (List.dropLast_append_getLast (List.ne_nil_of_mem hmem)).symm⟩
    have hzx := (updatedAtMs_le (hacross z (by simp) x List.mem_cons_self)).1
    have hyz : z.1.updatedAtMs ≤ y.1.updatedAtMs := by
      rcases List.mem_append.1 hmem with hmem | hmem
      · exact (updatedAtMs_le ((List.pairwise_append.1 hbefore).2.2 y hmem z (by simp))).1
      · rw [List.mem_singleton.1 hmem]
    have hsplit' : S.sessionList q none = before' ++ z :: x :: rest := by
      rw [hsplit]
      simp
    have hselects := selects_next hbegins hsafe hpositive h hsplit'
    rw [not_after_null (by omega) hcreated] at hselects
    cases hselects
  · exact hne rfl
  · -- the session after `x` was updated when `x` and `y` were, and has no creation time either
    obtain ⟨w, rest', rfl⟩ := List.exists_cons_of_ne_nil (List.ne_nil_of_mem hmem)
    have hxw := updatedAtMs_le (hrest w List.mem_cons_self)
    have hwy : y.1.updatedAtMs ≤ w.1.updatedAtMs := by
      rcases List.mem_cons.1 hmem with rfl | hmem
      · exact Int.le_refl _
      · exact (updatedAtMs_le (List.rel_of_pairwise_cons hrests hmem)).1
    have hselects := selects_next hbegins hsafe hpositive h hsplit
    rw [not_after_null (by omega) (hxw.2 (by omega) hcreated)] at hselects
    cases hselects

theorem createdApart_of_enumerates (hbegins : Begins S input began none q)
    (hsafe : isSafeInteger began = true) (hpositive : 0 ≤ began) {roots : List String}
    (h : S.EnumeratesSidebar input q roots began) : S.CreatedApart q := by
  obtain ⟨q', hbegins', hmatched, hentry⟩ := begins_sessions hbegins
  have hlist : S.sessionList q' none = S.sessionList q none := by
    unfold SidebarQueryService.sessionList
    rw [hmatched]
  have hlisted := h.sessions
  rw [← hentry, ← hlist] at hlisted
  have hapart := createdApart_of_listed hbegins' hsafe hpositive hlisted
  unfold SidebarQueryService.CreatedApart at hapart ⊢
  rwa [hmatched] at hapart

end Listings

/-! ## Two sessions updated at one time -/

/-- A branch session of the default project, updated at 10. -/
def sampleSession (sessionId : String) (createdAtMs : Option ℤ) : SessionRow where
  sessionId
  updatedAtMs := 10
  columnarVersion := 3
  agentName := some "mavis"
  sessionType := some .branch
  status := some .idle
  archived := false
  visibility := .visible
  sessionKind := .conversation
  purpose := none
  parentSessionId := none
  workspaceDir := none
  isDefaultWorkspace := true
  createdAtMs
  projectId := some 1
  recordRunLocation := false
  extraRunLocation := false

def sampleProject : ProjectRow where
  projectId := 1
  projectKind := .default
  workspaceDir := none
  pinned := false
  hidden := false
  orderIndex := 0
  latestActivityAtMs := 10
  sidebarRemoval := none

/-- The hashes of the texts of a query without filters. -/
def sampleHash (n : NormalizedInputs) : String :=
  if n.allProjects then "710f6cbdea71edaa63df84e742309762db8e491d12dffe2488a1afb5e36389ff"
  else if n.rootAgentNames.isSome then
    "1a879d0b27582d620afee156d845a070d8b5cb38ef1ec70317948361e9c01039"
  else "4ee7209578cc66e7776ea151dcc53b64dbc7e3a08a325827d2f4d5e7d1cd7572"

/-- Both sessions were created, at 4 and at 5. -/
def createdService : SidebarQueryService where
  db :=
    { sessions := [sampleSession "a" (some 4), sampleSession "b" (some 5)]
      projects := [sampleProject]
      sessionAgentState := []
      turnIngress := []
      sessionIds := by decide +kernel
      projectIds := by decide +kernel
      decodes := by decide +kernel
      integers := by decide +kernel }
  internalWorkspaceDir _ _ := false
  hash := sampleHash

/-- Neither session has a creation time. -/
def uncreatedService : SidebarQueryService where
  db :=
    { sessions := [sampleSession "a" none, sampleSession "b" none]
      projects := [sampleProject]
      sessionAgentState := []
      turnIngress := []
      sessionIds := by decide +kernel
      projectIds := by decide +kernel
      decodes := by decide +kernel
      integers := by decide +kernel }
  internalWorkspaceDir _ _ := false
  hash := sampleHash

/-- The query without filters. -/
def sampleQuery : SidebarQuery where
  activeSessionId := none
  allProjects := false
  filter := none
  scope := none
  bindingIds := []
  cronTargetIds := none
  context := none
  cursor := none
  limit := none
  sessionLimit := none

def sampleNormalized : NormalizedSidebarQuery where
  allProjects := false
  types := []
  statuses := []
  agentNames := []
  activityDays := none
  unreadIds := []
  excludedIds := []
  excludedProjectIds := []
  bindingIds := []
  cronTargetIds := []
  internalRootIds := []
  rootAgentNames := none
  context := .object
    { v := 1, hash := "4ee7209578cc66e7776ea151dcc53b64dbc7e3a08a325827d2f4d5e7d1cd7572",
      nowMs := 100 }
  nowMs := 100

end Sidebar

end Kinetick
