import Kinetick.Proofs.McpAllocation

/-!
# The registry keeps its names

A state that is accepted has distinct keys and segments. A call adds to it: what was recorded stays
recorded, what is given is recorded, and who is recorded is given that. A run follows.
-/

namespace Kinetick.Mcp

/-! ### States that are accepted -/

/-- The room a server leaves for the segment of a tool. -/
def toolRoom (server : String) : ℕ := runtimeToolNameMaxLength - 7 - server.length

structure ServerAssignment.Valid (entry : ServerAssignment) : Prop where
  fits : Fits runtimeServerSegmentMaxLength entry.segment
  toolFits : ∀ tool ∈ entry.tools, Fits (toolRoom entry.segment) tool.segment
  raws : (entry.tools.map ToolAssignment.raw).Nodup
  segments : (entry.tools.map ToolAssignment.segment).Nodup

structure State.Valid (state : State) : Prop where
  entries : ∀ entry ∈ state.servers, entry.Valid
  keys : (state.servers.map ServerAssignment.key).Nodup
  segments : (state.servers.map ServerAssignment.segment).Nodup

theorem checkTools_iff {server : ServerAssignment}
    (hserver : server.segment.length ≤ runtimeServerSegmentMaxLength) :
    ∀ (tools : List ToolAssignment) (raws segments : List String),
      checkTools server raws segments tools = true ↔
        (∀ tool ∈ tools, Fits (toolRoom server.segment) tool.segment) ∧
          (tools.map ToolAssignment.raw).Nodup ∧ (tools.map ToolAssignment.segment).Nodup ∧
          (∀ tool ∈ tools, tool.raw ∉ raws) ∧ ∀ tool ∈ tools, tool.segment ∉ segments
  | [], raws, segments => by simp [checkTools]
  | tool :: tools, raws, segments => by
    have hfits : (validSegment tool.segment = true ∧
        tool.segment.length + server.segment.length + 7 ≤ runtimeToolNameMaxLength) ↔
        Fits (toolRoom server.segment) tool.segment := by
      unfold toolRoom runtimeToolNameMaxLength
      unfold runtimeServerSegmentMaxLength at hserver
      exact ⟨fun h => ⟨h.1, by omega⟩, fun h => ⟨h.valid, by have := h.length_le; omega⟩⟩
    rw [checkTools, Bool.and_eq_true, Bool.and_eq_true, Bool.and_eq_true, Bool.and_eq_true,
      decide_eq_true_eq, hfits, checkTools_iff hserver tools]
    simp only [Bool.not_eq_true', List.contains_eq_mem, decide_eq_false_iff_not, List.map_cons,
      List.nodup_cons, List.mem_map, List.forall_mem_cons, not_exists, not_and]
    simp only [List.mem_cons, not_or]
    constructor
    · rintro ⟨⟨⟨hfits, hraw⟩, hsegment⟩, hall, hraws, hsegments, hfresh, hfresh'⟩
      exact ⟨⟨hfits, hall⟩, ⟨fun t ht => (hfresh t ht).1, hraws⟩,
        ⟨fun t ht => (hfresh' t ht).1, hsegments⟩, ⟨hraw, fun t ht => (hfresh t ht).2⟩,
        hsegment, fun t ht => (hfresh' t ht).2⟩
    · rintro ⟨⟨hfits, hall⟩, ⟨hraw, hraws⟩, ⟨hsegment, hsegments⟩, ⟨hraw', hfresh⟩, hsegment',
        hfresh'⟩
      exact ⟨⟨⟨hfits, hraw'⟩, hsegment'⟩, hall, hraws, hsegments,
        fun t ht => ⟨hraw t ht, hfresh t ht⟩, fun t ht => ⟨hsegment t ht, hfresh' t ht⟩⟩

theorem checkServers_iff : ∀ (servers : List ServerAssignment) (keys segments : List String),
    checkServers keys segments servers = .ok () ↔ (∀ entry ∈ servers, entry.Valid) ∧
      (servers.map ServerAssignment.key).Nodup ∧ (servers.map ServerAssignment.segment).Nodup ∧
      (∀ entry ∈ servers, entry.key ∉ keys) ∧ ∀ entry ∈ servers, entry.segment ∉ segments
  | [], keys, segments => by simp [checkServers]
  | entry :: entries, keys, segments => by
    rw [checkServers]
    simp only [Bool.and_eq_true, decide_eq_true_eq, Bool.not_eq_true', List.contains_eq_mem,
      decide_eq_false_iff_not, List.map_cons, List.nodup_cons, List.mem_map, List.forall_mem_cons,
      not_exists, not_and]
    split_ifs with hentry htools
    · obtain ⟨⟨⟨hvalid, hlength⟩, hkey⟩, hsegment⟩ := hentry
      obtain ⟨hfits, hraws, hsegments, -, -⟩ := (checkTools_iff hlength _ _ _).1 htools
      rw [checkServers_iff entries]
      simp only [List.mem_cons, not_or]
      constructor
      · rintro ⟨hall, hkeys, hsegs, hfresh, hfresh'⟩
        exact ⟨⟨⟨⟨hvalid, hlength⟩, hfits, hraws, hsegments⟩, hall⟩,
          ⟨fun t ht => (hfresh t ht).1, hkeys⟩, ⟨fun t ht => (hfresh' t ht).1, hsegs⟩,
          ⟨hkey, fun t ht => (hfresh t ht).2⟩, hsegment, fun t ht => (hfresh' t ht).2⟩
      · rintro ⟨⟨-, hall⟩, ⟨hkey', hkeys⟩, ⟨hsegment', hsegs⟩, ⟨-, hfresh⟩, -, hfresh'⟩
        exact ⟨hall, hkeys, hsegs, fun t ht => ⟨hkey' t ht, hfresh t ht⟩,
          fun t ht => ⟨hsegment' t ht, hfresh' t ht⟩⟩
    · refine iff_of_false (by simp) ?_
      rintro ⟨⟨hvalid, -⟩, -⟩
      exact htools ((checkTools_iff hvalid.fits.length_le _ _ _).2
        ⟨hvalid.toolFits, hvalid.raws, hvalid.segments, by simp, by simp⟩)
    · refine iff_of_false (by simp) ?_
      rintro ⟨⟨hvalid, -⟩, -, -, ⟨hkey, -⟩, hsegment, -⟩
      exact hentry ⟨⟨⟨hvalid.fits.valid, hvalid.fits.length_le⟩, hkey⟩, hsegment⟩

theorem State.valid_iff (state : State) : parseState state = .ok state ↔ state.Valid := by
  have hcheck := checkServers_iff state.servers [] []
  simp only [List.not_mem_nil, not_false_eq_true, implies_true, and_true] at hcheck
  have hparse : parseState state = .ok state ↔ checkServers [] [] state.servers = .ok () := by
    unfold parseState
    cases checkServers [] [] state.servers with
    | error message => exact iff_of_false nofun nofun
    | ok x => exact iff_of_true rfl rfl
  rw [hparse, hcheck]
  exact ⟨fun h => ⟨h.1, h.2.1, h.2.2⟩, fun h => ⟨h.entries, h.keys, h.segments⟩⟩

theorem valid_of_readState {file : Option State} {state : State}
    (h : readState file = .ok state) : state.Valid := by
  cases file with
  | none =>
    obtain rfl : {} = state := Except.ok.inj h
    exact ⟨nofun, List.nodup_nil, List.nodup_nil⟩
  | some state' =>
    have hsame : state' = state := by
      change parseState state' = .ok state at h
      unfold parseState at h
      cases hcheck : checkServers [] [] state'.servers with
      | error message =>
        rw [hcheck] at h
        cases h
      | ok x =>
        rw [hcheck] at h
        exact Except.ok.inj h
    subst hsame
    exact (State.valid_iff _).1 h

/-! ### What is recorded -/

/-- The state has the name for the owner. -/
def State.Records (state : State) (x : NameOwner) (name : String) : Prop :=
  match x with
  | .server key => ∃ entry ∈ state.servers, entry.key = key ∧ entry.segment = name
  | .tool serverKey raw => ∃ entry ∈ state.servers, entry.key = serverKey ∧
      ∃ tool ∈ entry.tools, tool.raw = raw ∧ publicName entry.segment tool.segment = name

/-- Entries of one key are one. -/
theorem eq_of_nodup_map {α β : Type} {f : α → β} {l : List α} (h : (l.map f).Nodup) {a b : α}
    (ha : a ∈ l) (hb : b ∈ l) (hab : f a = f b) : a = b :=
  List.inj_on_of_nodup_map h ha hb hab

theorem State.Valid.records_unique {state : State} (h : state.Valid) {x : NameOwner}
    {name name' : String} (hx : state.Records x name) (hx' : state.Records x name') :
    name = name' := by
  cases x with
  | server key =>
    obtain ⟨entry, hentry, rfl, rfl⟩ := hx
    obtain ⟨entry', hentry', hkey, rfl⟩ := hx'
    rw [eq_of_nodup_map h.keys hentry hentry' hkey.symm]
  | tool serverKey raw =>
    obtain ⟨entry, hentry, rfl, tool, htool, rfl, rfl⟩ := hx
    obtain ⟨entry', hentry', hkey, tool', htool', hraw, rfl⟩ := hx'
    obtain rfl := eq_of_nodup_map h.keys hentry hentry' hkey.symm
    rw [eq_of_nodup_map (h.entries entry hentry).raws htool htool' hraw.symm]

theorem validSegment_ne_publicName {segment server tool : String}
    (h : validSegment segment = true) : segment ≠ publicName server tool := by
  rintro rfl
  have hsegment := (Bool.and_eq_true_iff.1 h).1
  rw [toList_publicName] at hsegment
  obtain ⟨⟨-, hchain⟩, -⟩ := isSegment_iff.1 hsegment
  have hinfix : ['_', '_'] <:+:
      "mcp__".toList ++ (server.toList ++ '_' :: '_' :: tool.toList) := ⟨['m', 'c', 'p'], _, rfl⟩
  have hpair := List.IsChain.infix hchain hinfix
  exact List.isChain_pair.1 hpair rfl rfl

theorem State.Valid.records_injective {state : State} (h : state.Valid) {x x' : NameOwner}
    {name : String} (hx : state.Records x name) (hx' : state.Records x' name) : x = x' := by
  cases x with
  | server key =>
    obtain ⟨entry, hentry, rfl, rfl⟩ := hx
    cases x' with
    | server key' =>
      obtain ⟨entry', hentry', rfl, hsegment⟩ := hx'
      rw [eq_of_nodup_map h.segments hentry hentry' hsegment.symm]
    | tool serverKey raw =>
      obtain ⟨entry', -, -, tool, -, -, hname⟩ := hx'
      exact absurd hname.symm (validSegment_ne_publicName (h.entries entry hentry).fits.valid)
  | tool serverKey raw =>
    obtain ⟨entry, hentry, rfl, tool, htool, rfl, rfl⟩ := hx
    cases x' with
    | server key' =>
      obtain ⟨entry', hentry', -, hname⟩ := hx'
      exact absurd hname (validSegment_ne_publicName (h.entries entry' hentry').fits.valid)
    | tool serverKey' raw' =>
      obtain ⟨entry', hentry', rfl, tool', htool', rfl, hname⟩ := hx'
      obtain ⟨hserver, htools⟩ := publicName_inj (h.entries entry' hentry').fits.valid
        (h.entries entry hentry).fits.valid hname
      obtain rfl := eq_of_nodup_map h.segments hentry' hentry hserver
      rw [eq_of_nodup_map (h.entries entry' hentry').segments htool' htool htools]

/-- A recorded name has the shape of its kind. -/
theorem State.Valid.shaped {state : State} (h : state.Valid) {x : NameOwner} {name : String}
    (hx : state.Records x name) : x.Shaped name := by
  cases x with
  | server key =>
    obtain ⟨entry, hentry, -, rfl⟩ := hx
    exact ⟨(h.entries entry hentry).fits.valid, (h.entries entry hentry).fits.length_le⟩
  | tool serverKey raw =>
    obtain ⟨entry, hentry, -, tool, htool, -, rfl⟩ := hx
    have hserver := (h.entries entry hentry).fits
    have hfits := (h.entries entry hentry).toolFits tool htool
    refine ⟨_, _, hserver.valid, hfits.valid, rfl, ?_, ?_⟩
    · have hlength := hserver.length_le
      have hroom := hfits.length_le
      rw [length_publicName]
      unfold toolRoom at hroom
      unfold runtimeServerSegmentMaxLength at hlength
      unfold runtimeToolNameMaxLength at hroom ⊢
      omega
    · intro c hc
      have := List.all_eq_true.1 (all_isNameChar_publicName hserver.valid hfits.valid) c hc
      simp only [isNameChar, Bool.or_eq_true, decide_eq_true_eq] at this
      tauto

/-! ### Entries of a map -/

theorem lookup_iff_mem {α : Type} {map : List (String × α)} (h : (map.map Prod.fst).Nodup)
    (key : String) (value : α) : map.lookup key = some value ↔ (key, value) ∈ map := by
  induction map with
  | nil => simp
  | cons entry map ih =>
    obtain ⟨hfresh, hnodup⟩ := List.nodup_cons.1 h
    rw [List.lookup_cons, List.mem_cons]
    by_cases hkey : key = entry.1
    · subst hkey
      simp only [beq_self_eq_true]
      constructor
      · rintro ⟨rfl⟩
        exact Or.inl rfl
      · rintro (heq | hmem)
        · rw [← heq]
        · exact absurd (List.mem_map_of_mem (f := Prod.fst) hmem) hfresh
    · rw [beq_eq_false_iff_ne.2 hkey]
      simp only
      rw [ih hnodup]
      refine ⟨Or.inr, fun h => h.resolve_left fun heq => hkey ?_⟩
      rw [← heq]

theorem lookup_eq_none_iff_notMem {α : Type} {map : List (String × α)} {key : String} :
    map.lookup key = none ↔ key ∉ map.map Prod.fst := by
  rw [List.lookup_eq_none_iff]
  simp only [List.mem_map, not_exists, not_and, bne_iff_ne]
  exact ⟨fun h p hp hkey => h p hp hkey.symm, fun h p hp hkey => h p hp hkey.symm⟩

/-! ### What is added -/

theorem addEntries_spec {α β : Type} {names : List (String × String)} {keyOf : α → String}
    {key : β → String} {entry : β → String → α} (hentry : ∀ b segment, keyOf (entry b segment) = key b) :
    ∀ (bs : List β) (entries : List α), ∃ added,
      addEntries names keyOf key entry bs entries = entries ++ added ∧
      (∀ a ∈ added, ∃ b segment, a = entry b segment ∧ names.lookup (key b) = some segment ∧
        key b ∉ entries.map keyOf) ∧
      (added.map keyOf).Nodup ∧
      ∀ b ∈ bs, (names.lookup (key b)).isSome → key b ∈ (entries ++ added).map keyOf
  | [], entries => ⟨[], by simp [addEntries], nofun, List.nodup_nil, nofun⟩
  | b :: bs, entries => by
    rw [addEntries]
    cases hlookup : names.lookup (key b) with
    | none =>
      obtain ⟨added, hadded, hnew, hnodup, hall⟩ := @addEntries_spec _ _ names _ _ _ hentry bs entries
      refine ⟨added, hadded, hnew, hnodup, fun b' hb' hsome => ?_⟩
      rcases List.mem_cons.1 hb' with rfl | hb'
      · rw [hlookup] at hsome
        cases hsome
      · exact hall b' hb' hsome
    | some segment =>
      dsimp only
      split_ifs with hany
      · obtain ⟨added, hadded, hnew, hnodup, hall⟩ :=
          @addEntries_spec _ _ names _ _ _ hentry bs entries
        refine ⟨added, hadded, hnew, hnodup, fun b' hb' hsome => ?_⟩
        rcases List.mem_cons.1 hb' with rfl | hb'
        · obtain ⟨a, ha, hkey⟩ := List.any_eq_true.1 hany
          rw [List.map_append, List.mem_append]
          exact Or.inl (List.mem_map.2 ⟨a, ha, by simpa using hkey⟩)
        · exact hall b' hb' hsome
      · have hfresh : key b ∉ entries.map keyOf := by
          intro hmem
          obtain ⟨a, ha, hkey⟩ := List.mem_map.1 hmem
          exact hany (List.any_eq_true.2 ⟨a, ha, by simpa using hkey⟩)
        obtain ⟨added, hadded, hnew, hnodup, hall⟩ := @addEntries_spec _ _ names _ _ _ hentry bs
          (entries ++ [entry b segment])
        refine ⟨entry b segment :: added, by simp [hadded], ?_, ?_, ?_⟩
        · intro a ha
          rcases List.mem_cons.1 ha with rfl | ha
          · exact ⟨b, segment, rfl, hlookup, hfresh⟩
          · obtain ⟨b', segment', rfl, hname, hkey⟩ := hnew a ha
            refine ⟨b', segment', rfl, hname, fun hmem => hkey ?_⟩
            rw [List.map_append, List.mem_append]
            exact Or.inl hmem
        · rw [List.map_cons, List.nodup_cons]
          refine ⟨fun hmem => ?_, hnodup⟩
          obtain ⟨a, ha, hkey⟩ := List.mem_map.1 hmem
          obtain ⟨b', segment', rfl, -, hkey'⟩ := hnew a ha
          refine hkey' ?_
          rw [← hentry b' segment', hkey, List.map_append, List.mem_append]
          exact Or.inr (by simp)
        · intro b' hb' hsome
          rcases List.mem_cons.1 hb' with rfl | hb'
          · simp [hentry]
          · simpa using hall b' hb' hsome

/-! ### Calls -/

theorem nodup_map_of_imp {α β γ : Type} {f : α → β} {g : α → γ} {l : List α}
    (h : (l.map f).Nodup) (hg : ∀ a ∈ l, ∀ b ∈ l, g a = g b → f a = f b) : (l.map g).Nodup :=
  (List.Nodup.of_map f h).map_on fun a ha b hb hab => eq_of_nodup_map h ha hb (hg a ha b hb hab)

/-- What a call does to a state that is accepted. -/
structure CallSpec (call : RegistryCall) (state state' : State) (r : McpNameAssignments) : Prop where
  valid : state'.Valid
  keeps : ∀ x n, state.Records x n → state'.Records x n
  given : ∀ x n, (x, n) ∈ call.given r → state'.Records x n
  recorded : ∀ x n, x ∈ call.owners → state.Records x n → (x, n) ∈ call.given r
  answered : ∀ x ∈ call.owners, Xor (∃ n, (x, n) ∈ call.given r) (x ∈ call.refused r)

theorem RegistryCall.owner_injective (call : RegistryCall) : Function.Injective call.owner := by
  intro k k' h
  cases call with
  | assignServers candidates => exact NameOwner.server.inj h
  | assignTools serverKey rawNames => exact (NameOwner.tool.inj h).2

theorem RegistryCall.mem_given {call : RegistryCall} {r : McpNameAssignments} {key name : String} :
    (call.owner key, name) ∈ call.given r ↔ (key, name) ∈ r.names := by
  simp only [given, List.mem_map, Prod.mk.injEq, call.owner_injective.eq_iff]
  constructor
  · rintro ⟨⟨_, _⟩, h, rfl, rfl⟩
    exact h
  · exact fun h => ⟨_, h, rfl, rfl⟩

theorem RegistryCall.mem_refused {call : RegistryCall} {r : McpNameAssignments} {key : String} :
    call.owner key ∈ call.refused r ↔ key ∈ r.errors.map Prod.fst := by
  simp [refused, call.owner_injective.eq_iff]

variable (parseJson : String → Option JsValue)

/-- Who asks has one answer. -/
theorem Allocated.answered {existing : List (String × String)} {max : ℕ} {keys : List String}
    {r : McpNameAssignments} (h : Allocated existing max keys r) {key : String} (hkey : key ∈ keys) :
    Xor (∃ n, (key, n) ∈ r.names) (key ∈ r.errors.map Prod.fst) := by
  have hdisjoint := (List.nodup_append.1 h.nodup).2.2
  rcases List.mem_append.1 ((h.keys key).2 hkey) with hmem | hmem
  · obtain ⟨⟨_, n⟩, hn, rfl⟩ := List.mem_map.1 hmem
    exact Or.inl ⟨⟨n, hn⟩, fun herror => hdisjoint _ hmem _ herror rfl⟩
  · refine Or.inr ⟨hmem, ?_⟩
    rintro ⟨n, hn⟩
    exact hdisjoint _ (List.mem_map_of_mem (f := Prod.fst) hn) _ hmem rfl

/-- A saved key that is asked about is given its name. -/
theorem Allocated.saved {existing : List (String × String)} {max : ℕ} {keys : List String}
    {r : McpNameAssignments} (h : Allocated existing max keys r) {key name : String}
    (hkey : key ∈ keys) (hsaved : existing.lookup key = some name) : (key, name) ∈ r.names := by
  rcases h.answered hkey with ⟨⟨n, hn⟩, -⟩ | ⟨herror, -⟩
  · rcases h.names key n hn with hlookup | ⟨hnone, -⟩
    · rw [hsaved] at hlookup
      rwa [Option.some.inj hlookup]
    · rw [hsaved] at hnone
      cases hnone
  · have hnone := h.errors key herror
    rw [hsaved] at hnone
    cases hnone

theorem assignServers_spec {state : State} (h : state.Valid) (candidates : List McpNameCandidate) :
    ∃ state' r, assignServers parseJson candidates state = .ok (state', r) ∧
      CallSpec (.assignServers candidates) state state' r := by
  obtain ⟨r, hr, hallocated⟩ := @allocate_spec parseJson
    (state.servers.map fun entry => (entry.key, entry.segment)) .server
    runtimeServerSegmentMaxLength (by decide) candidates
  have hkeys : (state.servers.map fun entry => (entry.key, entry.segment)).map Prod.fst =
      state.servers.map ServerAssignment.key := by simp [Function.comp_def]
  have hsegments : (state.servers.map fun entry => (entry.key, entry.segment)).map Prod.snd =
      state.servers.map ServerAssignment.segment := by simp [Function.comp_def]
  have hlookup (k n : String) : r.names.lookup k = some n ↔ (k, n) ∈ r.names :=
    lookup_iff_mem (List.nodup_append.1 hallocated.nodup).1 k n
  have hsaved (k n : String) : (state.servers.map fun entry => (entry.key, entry.segment)).lookup k =
      some n ↔ state.Records (.server k) n := by
    rw [lookup_iff_mem (hkeys ▸ h.keys)]
    simp [State.Records]
  obtain ⟨added, hadded, hnew, hnodup, hall⟩ := @addEntries_spec _ _ r.names
    ServerAssignment.key McpNameCandidate.key
    (fun candidate segment => ⟨candidate.key, candidate.name, segment, []⟩)
    (fun _ _ => rfl) candidates state.servers
  have hnew' (entry : ServerAssignment) (hentry : entry ∈ added) : (entry.key, entry.segment) ∈ r.names ∧
      entry.tools = [] ∧ entry.key ∉ state.servers.map ServerAssignment.key := by
    obtain ⟨c, segment, rfl, hname, hfresh⟩ := hnew entry hentry
    exact ⟨(hlookup _ _).1 hname, rfl, hfresh⟩
  have hunsaved (entry : ServerAssignment) (hentry : entry ∈ added) :
      (state.servers.map fun entry => (entry.key, entry.segment)).lookup entry.key = none :=
    lookup_eq_none_iff_notMem.2 (hkeys ▸ (hnew' entry hentry).2.2)
  have hnamed (entry : ServerAssignment) (hentry : entry ∈ added) :
      entry.segment ∉ state.servers.map ServerAssignment.segment ∧
        Fits runtimeServerSegmentMaxLength entry.segment := by
    rcases hallocated.names _ _ (hnew' entry hentry).1 with hsaved | ⟨-, hfresh, hfits⟩
    · rw [hunsaved entry hentry] at hsaved
      cases hsaved
    · exact ⟨hsegments ▸ hfresh, hfits⟩
  have hkeeps {x : NameOwner} {n : String} (hx : state.Records x n) :
      (addServers r.names candidates state).Records x n := by
    have hsubset {entry : ServerAssignment} (hentry : entry ∈ state.servers) :
        entry ∈ (addServers r.names candidates state).servers := by
      rw [addServers, hadded]
      exact List.mem_append_left _ hentry
    cases x with
    | server key =>
      obtain ⟨entry, hentry, hentry'⟩ := hx
      exact ⟨entry, hsubset hentry, hentry'⟩
    | tool serverKey raw =>
      obtain ⟨entry, hentry, hentry'⟩ := hx
      exact ⟨entry, hsubset hentry, hentry'⟩
  refine ⟨addServers r.names candidates state, r, ?_, ?_, ?_, ?_, ?_, ?_⟩
  · unfold assignServers
    rw [hr]
    rfl
  · refine ⟨fun entry hentry => ?_, ?_, ?_⟩
    · rw [addServers, hadded, List.mem_append] at hentry
      rcases hentry with hentry | hentry
      · exact h.entries entry hentry
      · refine ⟨(hnamed entry hentry).2, ?_, ?_, ?_⟩ <;> rw [(hnew' entry hentry).2.1]
        · exact nofun
        · exact List.nodup_nil
        · exact List.nodup_nil
    · rw [addServers, hadded, List.map_append, List.nodup_append]
      refine ⟨h.keys, hnodup, fun k hk k' hk' hkk => ?_⟩
      obtain ⟨entry, hentry, rfl⟩ := List.mem_map.1 hk'
      exact (hnew' entry hentry).2.2 (hkk ▸ hk)
    · rw [addServers, hadded, List.map_append, List.nodup_append]
      refine ⟨h.segments, nodup_map_of_imp hnodup fun a ha b hb hab => ?_, fun k hk k' hk' hkk => ?_⟩
      · exact hallocated.distinct _ _ _ (hnew' a ha).1 (hab ▸ (hnew' b hb).1) (hunsaved a ha)
          (hunsaved b hb)
      · obtain ⟨entry, hentry, rfl⟩ := List.mem_map.1 hk'
        exact (hnamed entry hentry).1 (hkk ▸ hk)
  · intro x n hx
    exact hkeeps hx
  · intro x n hx
    obtain ⟨⟨k, n⟩, hk, ⟨rfl, rfl⟩⟩ := List.mem_map.1 hx
    rcases hallocated.names k n hk with hold | ⟨hnone, -⟩
    · exact hkeeps ((hsaved k n).1 hold)
    · have hkey : k ∈ candidates.map McpNameCandidate.key := (hallocated.keys k).1
        (List.mem_append_left _ (List.mem_map_of_mem (f := Prod.fst) hk))
      obtain ⟨c, hc, rfl⟩ := List.mem_map.1 hkey
      have hmem := hall c hc (by rw [(hlookup _ _).2 hk]; rfl)
      rw [List.map_append, List.mem_append] at hmem
      rcases hmem with hmem | hmem
      · exact absurd (hkeys ▸ hmem) (lookup_eq_none_iff_notMem.1 hnone)
      · obtain ⟨entry, hentry, hkey⟩ := List.mem_map.1 hmem
        refine ⟨entry, by rw [addServers, hadded]; exact List.mem_append_right _ hentry, hkey, ?_⟩
        have hname := (hlookup _ _).2 (hnew' entry hentry).1
        rw [hkey, (hlookup _ _).2 hk] at hname
        exact (Option.some.inj hname).symm
  · intro x n hx hrecorded
    obtain ⟨c, hc, rfl⟩ := List.mem_map.1 hx
    exact RegistryCall.mem_given.2 (hallocated.saved
      (List.mem_map_of_mem (f := McpNameCandidate.key) hc) ((hsaved _ _).2 hrecorded))
  · intro x hx
    obtain ⟨c, hc, rfl⟩ := List.mem_map.1 hx
    have hanswered := hallocated.answered (List.mem_map_of_mem (f := McpNameCandidate.key) hc)
    simp only [← @RegistryCall.mem_refused (.assignServers candidates),
      ← @RegistryCall.mem_given (.assignServers candidates)] at hanswered
    exact hanswered

/-- The tools of a server once more of them are recorded. -/
theorem addTools_spec {server : ServerAssignment} (h : server.Valid) {rawNames : List String}
    {r : McpNameAssignments} (hallocated : Allocated
      (server.tools.map fun entry => (entry.raw, entry.segment)) (toolRoom server.segment) rawNames r) :
    (∀ tool ∈ server.tools, tool ∈ addTools r.names rawNames server.tools) ∧
      ServerAssignment.Valid { server with tools := addTools r.names rawNames server.tools } ∧
      ∀ raw segment, (raw, segment) ∈ r.names →
        ⟨raw, segment⟩ ∈ addTools r.names rawNames server.tools := by
  have hraws : (server.tools.map fun entry => (entry.raw, entry.segment)).map Prod.fst =
      server.tools.map ToolAssignment.raw := by simp [Function.comp_def]
  have hsegments : (server.tools.map fun entry => (entry.raw, entry.segment)).map Prod.snd =
      server.tools.map ToolAssignment.segment := by simp [Function.comp_def]
  have hlookup (k n : String) : r.names.lookup k = some n ↔ (k, n) ∈ r.names :=
    lookup_iff_mem (List.nodup_append.1 hallocated.nodup).1 k n
  obtain ⟨added, hadded, hnew, hnodup, hall⟩ := @addEntries_spec _ _ r.names
    ToolAssignment.raw id (fun raw segment => ⟨raw, segment⟩)
    (fun _ _ => rfl) rawNames server.tools
  have hnew' (tool : ToolAssignment) (htool : tool ∈ added) :
      (tool.raw, tool.segment) ∈ r.names ∧ tool.raw ∉ server.tools.map ToolAssignment.raw := by
    obtain ⟨raw, segment, rfl, hname, hfresh⟩ := hnew tool htool
    exact ⟨(hlookup _ _).1 hname, hfresh⟩
  have hunsaved (tool : ToolAssignment) (htool : tool ∈ added) :
      (server.tools.map fun entry => (entry.raw, entry.segment)).lookup tool.raw = none :=
    lookup_eq_none_iff_notMem.2 (hraws ▸ (hnew' tool htool).2)
  have hnamed (tool : ToolAssignment) (htool : tool ∈ added) :
      tool.segment ∉ server.tools.map ToolAssignment.segment ∧
        Fits (toolRoom server.segment) tool.segment := by
    rcases hallocated.names _ _ (hnew' tool htool).1 with hsaved | ⟨-, hfresh, hfits⟩
    · rw [hunsaved tool htool] at hsaved
      cases hsaved
    · exact ⟨hsegments ▸ hfresh, hfits⟩
  have hadded' : addTools r.names rawNames server.tools = server.tools ++ added := hadded
  rw [hadded']
  refine ⟨fun tool htool => List.mem_append_left _ htool, ⟨h.fits, fun tool htool => ?_, ?_, ?_⟩,
    fun raw segment hname => ?_⟩
  · rcases List.mem_append.1 htool with htool | htool
    · exact h.toolFits tool htool
    · exact (hnamed tool htool).2
  · rw [List.map_append, List.nodup_append]
    refine ⟨h.raws, hnodup, fun k hk k' hk' hkk => ?_⟩
    obtain ⟨tool, htool, rfl⟩ := List.mem_map.1 hk'
    exact (hnew' tool htool).2 (hkk ▸ hk)
  · rw [List.map_append, List.nodup_append]
    refine ⟨h.segments, nodup_map_of_imp hnodup fun a ha b hb hab => ?_, fun k hk k' hk' hkk => ?_⟩
    · exact hallocated.distinct _ _ _ (hnew' a ha).1 (hab ▸ (hnew' b hb).1) (hunsaved a ha)
        (hunsaved b hb)
    · obtain ⟨tool, htool, rfl⟩ := List.mem_map.1 hk'
      exact (hnamed tool htool).1 (hkk ▸ hk)
  · rcases hallocated.names raw segment hname with hold | ⟨hnone, -⟩
    · rw [lookup_iff_mem (hraws ▸ h.raws)] at hold
      obtain ⟨tool, htool, heq⟩ := List.mem_map.1 hold
      obtain ⟨rfl, rfl⟩ := Prod.mk.inj heq
      exact List.mem_append_left _ htool
    · have hraw : raw ∈ rawNames := (hallocated.keys raw).1
        (List.mem_append_left _ (List.mem_map_of_mem (f := Prod.fst) hname))
      have hmem := hall raw hraw (by rw [id, (hlookup _ _).2 hname]; rfl)
      rw [List.map_append, List.mem_append] at hmem
      rcases hmem with hmem | hmem
      · exact absurd (hraws ▸ hmem) (lookup_eq_none_iff_notMem.1 hnone)
      · obtain ⟨tool, htool, hkey⟩ := List.mem_map.1 hmem
        have hname' := (hlookup _ _).2 (hnew' tool htool).1
        rw [hkey, id, (hlookup _ _).2 hname] at hname'
        have htool' : tool = ⟨raw, segment⟩ := by
          cases tool
          simp_all
        exact List.mem_append_right _ (htool' ▸ htool)

theorem assignTools_spec {state : State} (h : state.Valid) {serverKey : String}
    (hknown : ∃ entry ∈ state.servers, entry.key = serverKey) (rawNames : List String) :
    ∃ state' r, assignTools parseJson serverKey rawNames state = .ok (state', r) ∧
      CallSpec (.assignTools serverKey rawNames) state state' r := by
  obtain ⟨server, hfind⟩ : ∃ server, state.servers.find? (·.key = serverKey) = some server := by
    obtain ⟨entry, hentry, hkey⟩ := hknown
    exact Option.isSome_iff_exists.1 (List.find?_isSome.2 ⟨entry, hentry, by simpa using hkey⟩)
  have hserver := List.mem_of_find?_eq_some hfind
  have hkey : server.key = serverKey := by simpa using List.find?_some hfind
  have hone {entry : ServerAssignment} (hentry : entry ∈ state.servers)
      (hentryKey : entry.key = serverKey) : entry = server :=
    eq_of_nodup_map h.keys hentry hserver (hentryKey.trans hkey.symm)
  have hvalid := h.entries server hserver
  have hroom : 0 < toolRoom server.segment := by
    have := hvalid.fits.length_le
    unfold runtimeServerSegmentMaxLength at this
    unfold toolRoom runtimeToolNameMaxLength
    omega
  obtain ⟨r, hr, hallocated⟩ := @allocate_spec parseJson
    (server.tools.map fun entry => (entry.raw, entry.segment)) .tool _ hroom
    (rawNames.map fun name => ⟨name, name⟩)
  have hraws : (rawNames.map fun name => (⟨name, name⟩ : McpNameCandidate)).map
      McpNameCandidate.key = rawNames := by simp [Function.comp_def]
  rw [hraws] at hallocated
  obtain ⟨hold, htools, hnames⟩ := addTools_spec hvalid hallocated
  have hsaved (raw : String) (tool : ToolAssignment) (htool : tool ∈ server.tools)
      (hraw : tool.raw = raw) : (server.tools.map fun entry => (entry.raw, entry.segment)).lookup raw =
        some tool.segment := by
    rw [lookup_iff_mem (by simpa [Function.comp_def] using hvalid.raws)]
    exact List.mem_map.2 ⟨tool, htool, by rw [hraw]⟩
  have hmem (entry : ServerAssignment) :
      entry ∈ (state.setTools serverKey (addTools r.names rawNames server.tools)).servers ↔
        entry ∈ state.servers ∧ entry.key ≠ serverKey ∨
          entry = { server with tools := addTools r.names rawNames server.tools } := by
    simp only [State.setTools, List.mem_map]
    constructor
    · rintro ⟨entry', hentry', rfl⟩
      split_ifs with hkey'
      · rw [hone hentry' hkey']
        exact Or.inr rfl
      · exact Or.inl ⟨hentry', hkey'⟩
    · rintro (⟨hentry, hne⟩ | rfl)
      · exact ⟨entry, hentry, if_neg hne⟩
      · exact ⟨server, hserver, if_pos hkey⟩
  have hkeeps {x : NameOwner} {n : String} (hx : state.Records x n) :
      (state.setTools serverKey (addTools r.names rawNames server.tools)).Records x n := by
    cases x with
    | server key =>
      obtain ⟨entry, hentry, rfl, rfl⟩ := hx
      by_cases hentryKey : entry.key = serverKey
      · obtain rfl := hone hentry hentryKey
        exact ⟨_, (hmem _).2 (Or.inr rfl), rfl, rfl⟩
      · exact ⟨entry, (hmem _).2 (Or.inl ⟨hentry, hentryKey⟩), rfl, rfl⟩
    | tool serverKey' raw =>
      obtain ⟨entry, hentry, rfl, tool, htool, hnamed⟩ := hx
      by_cases hentryKey : entry.key = serverKey
      · obtain rfl := hone hentry hentryKey
        exact ⟨_, (hmem _).2 (Or.inr rfl), rfl, tool, hold tool htool, hnamed⟩
      · exact ⟨entry, (hmem _).2 (Or.inl ⟨hentry, hentryKey⟩), rfl, tool, htool, hnamed⟩
  have hgiven (raw n : String) : (NameOwner.tool serverKey raw, n) ∈
      (RegistryCall.assignTools serverKey rawNames).given { r with names := r.names.map fun name =>
        (name.1, publicName server.segment name.2) } ↔
      ∃ segment, (raw, segment) ∈ r.names ∧ publicName server.segment segment = n := by
    refine (@RegistryCall.mem_given (.assignTools serverKey rawNames) _ raw _).trans ?_
    simp only [List.mem_map, Prod.mk.injEq]
    constructor
    · rintro ⟨⟨_, segment⟩, hname, rfl, rfl⟩
      exact ⟨segment, hname, rfl⟩
    · rintro ⟨segment, hname, rfl⟩
      exact ⟨_, hname, rfl, rfl⟩
  refine ⟨state.setTools serverKey (addTools r.names rawNames server.tools),
    { r with names := r.names.map fun name => (name.1, publicName server.segment name.2) },
    ?_, ?_, ?_, ?_, ?_, ?_⟩
  · unfold assignTools
    rw [hfind]
    exact congrArg (fun result => result >>= _) hr
  · refine ⟨fun entry hentry => ?_, ?_, ?_⟩
    · rcases (hmem entry).1 hentry with ⟨hentry, -⟩ | rfl
      · exact h.entries entry hentry
      · exact htools
    · have hsame : (state.setTools serverKey (addTools r.names rawNames server.tools)).servers.map
          ServerAssignment.key = state.servers.map ServerAssignment.key := by
        rw [State.setTools, List.map_map]
        refine List.map_congr_left fun entry _ => ?_
        rw [Function.comp_apply]
        split_ifs <;> rfl
      rw [hsame]
      exact h.keys
    · have hsame : (state.setTools serverKey (addTools r.names rawNames server.tools)).servers.map
          ServerAssignment.segment = state.servers.map ServerAssignment.segment := by
        rw [State.setTools, List.map_map]
        refine List.map_congr_left fun entry _ => ?_
        rw [Function.comp_apply]
        split_ifs <;> rfl
      rw [hsame]
      exact h.segments
  · intro x n hx
    exact hkeeps hx
  · intro x n hx
    obtain ⟨⟨raw, n⟩, hraw, ⟨rfl, rfl⟩⟩ := List.mem_map.1 hx
    obtain ⟨segment, hname, rfl⟩ := (hgiven raw n).1 hx
    exact ⟨_, (hmem _).2 (Or.inr rfl), hkey, ⟨raw, segment⟩, hnames raw segment hname, rfl, rfl⟩
  · intro x n hx hrecorded
    obtain ⟨raw, hraw, rfl⟩ := List.mem_map.1 hx
    obtain ⟨entry, hentry, hentryKey, tool, htool, rfl, rfl⟩ := hrecorded
    obtain rfl := hone hentry hentryKey
    exact (hgiven _ _).2 ⟨_, hallocated.saved hraw (hsaved _ tool htool rfl), rfl⟩
  · intro x hx
    obtain ⟨raw, hraw, rfl⟩ := List.mem_map.1 hx
    have hanswered := hallocated.answered hraw
    have hnames' : (∃ n, (NameOwner.tool serverKey raw, n) ∈
        (RegistryCall.assignTools serverKey rawNames).given { r with names := r.names.map fun name =>
          (name.1, publicName server.segment name.2) }) ↔ ∃ n, (raw, n) ∈ r.names := by
      simp only [hgiven]
      exact ⟨fun ⟨_, segment, hname, _⟩ => ⟨segment, hname⟩,
        fun ⟨segment, hname⟩ => ⟨_, segment, hname, rfl⟩⟩
    rw [← hnames', ← @RegistryCall.mem_refused (.assignTools serverKey rawNames)] at hanswered
    exact hanswered

/-- A call on a state that is accepted returns where it knows the server. -/
theorem run_spec {state : State} (h : state.Valid) (call : RegistryCall) :
    (∃ state' r, call.run parseJson state = .ok (state', r) ∧ CallSpec call state state' r) ∨
      ¬call.Knows state ∧ ∃ message, call.run parseJson state = .error message := by
  cases call with
  | assignServers candidates => exact Or.inl (assignServers_spec parseJson h candidates)
  | assignTools serverKey rawNames =>
    by_cases hknown : ∃ entry ∈ state.servers, entry.key = serverKey
    · exact Or.inl (assignTools_spec parseJson h hknown rawNames)
    · refine Or.inr ⟨hknown, "MCP server name has not been allocated", ?_⟩
      have hfind : state.servers.find? (·.key = serverKey) = none :=
        List.find?_eq_none.2 fun entry hentry hkey => hknown ⟨entry, hentry, by simpa using hkey⟩
      change assignTools parseJson serverKey rawNames state = _
      unfold assignTools
      rw [hfind]

/-! ### Runs -/

/-- What one call does to the file: it fails and leaves it, or returns. -/
def StepSpec (file : Option State) (e : RegistryEvent)
    (out : Option State × Except String McpNameAssignments) : Prop :=
  (∃ message, out = (file, .error message) ∧
      (e.fate = .completes → ∀ state, readState file = .ok state → ¬e.call.Knows state)) ∨
    ∃ r state state', out.2 = .ok r ∧ readState file = .ok state ∧
      readState out.1 = .ok state' ∧ CallSpec e.call state state' r ∧
      (out.1 = file ∨ out.1 = some state')

theorem step_spec (file : Option State) (e : RegistryEvent) :
    StepSpec file e ((registryMachine parseJson).step file e) := by
  change StepSpec file e (transaction file e.fate (e.call.run parseJson))
  unfold transaction
  by_cases hlocked : e.fate = .isLocked
  · rw [if_pos hlocked]
    exact Or.inl ⟨_, rfl, fun hfate => absurd (hlocked.symm.trans hfate) nofun⟩
  rw [if_neg hlocked]
  cases hread : readState file with
  | error message =>
    refine Or.inl ⟨message, rfl, fun _ state hstate => ?_⟩
    rw [hread] at hstate
    cases hstate
  | ok state =>
    have hvalid := valid_of_readState hread
    dsimp only
    rcases run_spec parseJson hvalid e.call with ⟨state', r, hrun, hcall⟩ | ⟨hunknown, message, hrun⟩
    · rw [hrun]
      dsimp only
      split_ifs with hsame hwrite
      · subst hsame
        exact Or.inr ⟨r, state, state, rfl, hread, hread, hcall, Or.inl rfl⟩
      · exact Or.inl ⟨_, rfl, fun hfate => absurd (hwrite.symm.trans hfate) nofun⟩
      · exact Or.inr ⟨r, state, state', rfl, hread, (State.valid_iff state').2 hcall.valid, hcall,
          Or.inr rfl⟩
    · rw [hrun]
      refine Or.inl ⟨message, rfl, fun _ state' hstate => ?_⟩
      rw [hread] at hstate
      rwa [← Except.ok.inj hstate]

theorem step_of_calls {file : Option State} {es : List RegistryEvent} {i : ℕ} {e : RegistryEvent}
    {a : Except String McpNameAssignments} (h : (calls parseJson file es)[i]? = some (e, a)) :
    (registryMachine parseJson).step (fileAt parseJson file es i) e =
      (fileAt parseJson file es (i + 1), a) := by
  induction es generalizing file i with
  | nil => simp [calls] at h
  | cons e' es ih =>
    unfold calls at h
    rw [Machine.answers, List.zip_cons_cons] at h
    cases i with
    | zero =>
      obtain ⟨rfl, rfl⟩ := Prod.mk.inj (Option.some.inj h)
      rfl
    | succ i => exact ih h

theorem fileAt_succ {file : Option State} {es : List RegistryEvent} (i : ℕ) :
    fileAt parseJson file es (i + 1) = fileAt parseJson file es i ∨ ∃ e,
      fileAt parseJson file es (i + 1) =
        ((registryMachine parseJson).step (fileAt parseJson file es i) e).1 := by
  cases he : es[i]? with
  | none =>
    have hlength := List.getElem?_eq_none_iff.1 he
    left
    rw [fileAt, fileAt, List.take_of_length_le hlength, List.take_of_length_le (by omega)]
  | some e =>
    right
    refine ⟨e, ?_⟩
    rw [fileAt, fileAt, List.take_add_one, he, Machine.after_append]
    rfl

/-- The file has the name for the owner. -/
def FileRecords (file : Option State) (x : NameOwner) (name : String) : Prop :=
  ∃ state, readState file = .ok state ∧ state.Records x name

theorem FileRecords.later {file : Option State} {es : List RegistryEvent} {x : NameOwner}
    {name : String} {i j : ℕ} (h : FileRecords (fileAt parseJson file es i) x name) (hij : i ≤ j) :
    FileRecords (fileAt parseJson file es j) x name := by
  induction j, hij using Nat.le_induction with
  | base => exact h
  | succ j _ ih =>
    rcases @fileAt_succ parseJson file es j with hsame | ⟨e, hstep⟩
    · rwa [hsame]
    · rw [hstep]
      obtain ⟨state, hread, hrecords⟩ := ih
      rcases step_spec parseJson (fileAt parseJson file es j) e with
        ⟨message, hout, -⟩ | ⟨r, state₁, state', -, hread₁, hread', hcall, -⟩
      · rw [hout]
        exact ⟨state, hread, hrecords⟩
      · obtain rfl := Except.ok.inj (hread.symm.trans hread₁)
        exact ⟨state', hread', hcall.keeps x name hrecords⟩

/-- What a call that returned did. -/
theorem call_spec {file : Option State} {es : List RegistryEvent} {i : ℕ} {e : RegistryEvent}
    {r : McpNameAssignments} (h : (calls parseJson file es)[i]? = some (e, .ok r)) :
    ∃ state state', readState (fileAt parseJson file es i) = .ok state ∧
      readState (fileAt parseJson file es (i + 1)) = .ok state' ∧
      CallSpec e.call state state' r := by
  have hstep := step_of_calls parseJson h
  have hspec := step_spec parseJson (fileAt parseJson file es i) e
  rw [hstep] at hspec
  rcases hspec with ⟨message, hout, -⟩ | ⟨r', state, state', hr, hread, hread', hcall, -⟩
  · cases (Prod.mk.inj hout).2
  · obtain rfl := Except.ok.inj hr
    exact ⟨state, state', hread, hread', hcall⟩

/-- What was given is recorded from then on. -/
theorem given_recorded {file : Option State} {es : List RegistryEvent} {i j : ℕ} {e : RegistryEvent}
    {r : McpNameAssignments} (h : (calls parseJson file es)[i]? = some (e, .ok r)) {x : NameOwner}
    {name : String} (hgiven : (x, name) ∈ e.call.given r) (hij : i < j) :
    FileRecords (fileAt parseJson file es j) x name := by
  obtain ⟨state, state', -, hread', hcall⟩ := call_spec parseJson h
  exact FileRecords.later parseJson ⟨state', hread', hcall.given x name hgiven⟩ hij

theorem FileRecords.unique {file : Option State} {x : NameOwner} {name name' : String}
    (h : FileRecords file x name) (h' : FileRecords file x name') : name = name' := by
  obtain ⟨state, hread, hrecords⟩ := h
  obtain ⟨_, hread', hrecords'⟩ := h'
  obtain rfl := Except.ok.inj (hread.symm.trans hread')
  exact (valid_of_readState hread).records_unique hrecords hrecords'

theorem FileRecords.injective {file : Option State} {x x' : NameOwner} {name : String}
    (h : FileRecords file x name) (h' : FileRecords file x' name) : x = x' := by
  obtain ⟨state, hread, hrecords⟩ := h
  obtain ⟨_, hread', hrecords'⟩ := h'
  obtain rfl := Except.ok.inj (hread.symm.trans hread')
  exact (valid_of_readState hread).records_injective hrecords hrecords'

theorem kept_of_calls {file : Option State} {es : List RegistryEvent} {i j : ℕ}
    {e e' : RegistryEvent} {r r' : McpNameAssignments}
    (h : (calls parseJson file es)[i]? = some (e, .ok r))
    (h' : (calls parseJson file es)[j]? = some (e', .ok r')) (hij : i ≤ j) {x : NameOwner}
    {name : String} (hgiven : (x, name) ∈ e.call.given r) (hasked : x ∈ e'.call.owners)
    (name' : String) : (x, name') ∈ e'.call.given r' ↔ name' = name := by
  constructor
  · intro hgiven'
    exact (given_recorded parseJson h' hgiven' (Nat.lt_succ_self j)).unique
      (given_recorded parseJson h hgiven (Nat.lt_succ_of_le hij))
  · rintro rfl
    rcases Nat.eq_or_lt_of_le hij with rfl | hlt
    · obtain ⟨rfl, hr⟩ := Prod.mk.inj (Option.some.inj (h.symm.trans h'))
      rwa [← Except.ok.inj hr]
    · obtain ⟨state, hread, hrecords⟩ := given_recorded parseJson h hgiven hlt
      obtain ⟨state₁, state', hread₁, -, hcall⟩ := call_spec parseJson h'
      obtain rfl := Except.ok.inj (hread.symm.trans hread₁)
      exact hcall.recorded x name' hasked hrecords

theorem readBack_at (file : Option State) (es : List RegistryEvent) (i : ℕ) :
    fileAt parseJson file es i = file ∨
      ∃ state, fileAt parseJson file es i = some state ∧ parseState state = .ok state := by
  induction i with
  | zero => exact Or.inl rfl
  | succ i ih =>
    rcases @fileAt_succ parseJson file es i with hsame | ⟨e, hstep⟩
    · rwa [hsame]
    · rw [hstep]
      rcases step_spec parseJson (fileAt parseJson file es i) e with
        ⟨message, hout, -⟩ | ⟨r, state, state', -, -, -, hcall, hfile | hfile⟩
      · rw [hout]
        exact ih
      · rw [hfile]
        exact ih
      · exact Or.inr ⟨state', hfile, (State.valid_iff state').2 hcall.valid⟩

theorem assignTools_perm (state : State) (serverKey : String) {rawNames rawNames' : List String}
    (h : rawNames.Perm rawNames') :
    (assignTools parseJson serverKey rawNames state).map Prod.snd =
      (assignTools parseJson serverKey rawNames' state).map Prod.snd := by
  have hcoherent : Coherent (rawNames.map fun name => ⟨name, name⟩) := by
    intro c hc c' hc' hkey
    obtain ⟨name, -, rfl⟩ := List.mem_map.1 hc
    obtain ⟨name', -, rfl⟩ := List.mem_map.1 hc'
    exact hkey
  unfold assignTools
  cases state.servers.find? (·.key = serverKey) with
  | none => rfl
  | some server =>
    dsimp only
    rw [allocate_perm parseJson (h.map fun name => ⟨name, name⟩) hcoherent]
    cases allocate parseJson (rawNames'.map fun name => ⟨name, name⟩)
      (server.tools.map fun entry => (entry.raw, entry.segment)) .tool
      (runtimeToolNameMaxLength - 7 - server.segment.length) <;> rfl

theorem assignServers_perm (state : State) {candidates candidates' : List McpNameCandidate}
    (h : candidates.Perm candidates') (hcoherent : Coherent candidates) :
    (assignServers parseJson candidates state).map Prod.snd =
      (assignServers parseJson candidates' state).map Prod.snd := by
  unfold assignServers
  rw [allocate_perm parseJson h hcoherent]
  cases allocate parseJson candidates' (state.servers.map fun entry => (entry.key, entry.segment))
    .server runtimeServerSegmentMaxLength <;> rfl

/-- In every run of registries that share a file names are lawful, and the order of the candidates
does not matter. -/
theorem names_lawful (file : Option State) (es : List RegistryEvent) :
    NamesLawful parseJson file es ∧ OrderFree parseJson := by
  refine ⟨⟨?_, ?_, ?_, ?_, ?_, readBack_at parseJson file es⟩,
    fun state cs cs' h hcoherent => assignServers_perm parseJson state h hcoherent,
    fun state serverKey raws raws' h => assignTools_perm parseJson state serverKey h⟩
  · intro i j e e' r r' h h' hij x n hgiven hasked n'
    exact kept_of_calls parseJson h h' hij hgiven hasked n'
  · intro i j e e' r r' h h' x x' n hgiven hgiven'
    exact (given_recorded parseJson h hgiven (j := max i j + 1) (by omega)).injective
      (given_recorded parseJson h' hgiven' (by omega))
  · intro i e r h x n hgiven
    obtain ⟨state, hread, hrecords⟩ := given_recorded parseJson h hgiven (Nat.lt_succ_self i)
    exact (valid_of_readState hread).shaped hrecords
  · intro i e r h x hx
    obtain ⟨state, state', -, -, hcall⟩ := call_spec parseJson h
    exact hcall.answered x hx
  · intro i e message h hfate state hread
    have hspec := step_spec parseJson (fileAt parseJson file es i) e
    rw [step_of_calls parseJson h] at hspec
    rcases hspec with ⟨-, -, hunknown⟩ | ⟨r, -, -, hr, -⟩
    · exact hunknown hfate state hread
    · cases hr

/-- Of two candidates of one key the last is taken, so that their order matters. -/
theorem assignServers_notOrderFree : ¬∀ (parseJson : String → Option JsValue)
    (candidates candidates' : List McpNameCandidate), candidates.Perm candidates' →
    (assignServers parseJson candidates {}).map Prod.snd =
      (assignServers parseJson candidates' {}).map Prod.snd := by
  intro h
  have hsame := h (fun _ => none) [⟨"key", "alpha"⟩, ⟨"key", "beta"⟩] [⟨"key", "beta"⟩, ⟨"key", "alpha"⟩]
    (List.Perm.swap _ _ _)
  exact absurd (congrArg (fun r => r.toOption.map McpNameAssignments.names) hsame) (by decide)

end Kinetick.Mcp
