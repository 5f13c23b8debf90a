import Kinetick.Proofs.GenerationSwaps

/-!
# Runs of the site

Whatever calls are made, and wherever they die, the disk stays one on which nothing of the
generations is lost; a call that ends has done what it is for, unless it found the checkpoint of an
absent directory beside a directory that is absent still.
-/

namespace Kinetick.Rootless

variable {γ φ : Type} [DecidableEq φ] {hash : Hash γ φ} {options : ReleaseOptions}
  {previous content : Option γ} {disk : Disk γ φ}

/-- No swap is under way, and the upgraded generation is not in the checkpoint. -/
def Rest (disk : Disk γ φ) : Prop :=
  disk.root.bind Folder.journal = none ∧ disk.tree .upgraded = none

/-- The active generation is in its place, and no swap is under way. -/
structure Stands (generations : Generations γ) (disk : Disk γ φ) : Prop where
  rooted : disk.root.isSome = true
  journal : disk.root.bind Folder.journal = none
  dataDir : disk.tree .dataDir = generations.content generations.active
  saved : (disk.tree .upgraded).isSome = decide (generations.active = .previous)

theorem not_rolledBack_of_rest (h : Rest disk) : ¬ disk.RolledBack := by
  unfold Disk.RolledBack
  rw [h.1, h.2]
  simp

theorem Stands.rest {generations : Generations γ} (h : Stands generations disk)
    (hactive : generations.active = .upgraded) : Rest disk := by
  have hsaved := h.saved
  rw [hactive] at hsaved
  exact ⟨h.journal, by simpa using hsaved⟩

/-! ### Calls that die -/

theorem started_rooted {dataDir place saved : Option γ} {manifest : GenerationManifest φ}
    {journal : Option SwapJournal} {stagingRoot : Option (Folder γ φ)} {upgraded : γ}
    (h : Laid previous upgraded dataDir place saved) :
    (rooted dataDir place saved manifest journal stagingRoot).Started := by
  cases h <;> simp [Disk.Started]

/-- What a checkpoint comes to: it is made or verified, or refused. -/
theorem keeps_ensure_sound (h : Sound hash options previous content disk) :
    (ensureRootlessV2Checkpoint hash options).Keeps Command.answer
      (Sound hash options previous content)
      (fun r disk' => Sound hash options previous content disk' ∧ (disk.Started →
        (¬ disk.RolledBack → (∃ sourceAbsent, r = .ok ⟨disk.root.isNone, sourceAbsent⟩) ∧
          Stands ⟨previous, content, .upgraded⟩ disk') ∧
        (disk.RolledBack → r.isOk = false ∧ Stands ⟨previous, content, .previous⟩ disk'))) disk := by
  have hsound := h
  cases h with
  | unrooted _ stagingRoot =>
    obtain ⟨manifest, hvalid, hprevious, hrun⟩ :=
      @runs_ensure_unrooted _ _ hash options _ _ _ (fun left => hsound.withStaging left) stagingRoot
    refine hrun.mono ?_
    rintro _ _ ⟨rfl, rfl⟩
    refine ⟨?_, fun _ => ⟨fun _ => ⟨⟨_, rfl⟩, rfl, rfl, rfl, rfl⟩, fun h => ?_⟩⟩
    · cases previous with
      | none => exact .absent _ _ hvalid hprevious
      | some upgraded => exact .upgraded _ _ _ _ hvalid hprevious
    · exact absurd h (not_rolledBack_of_rest ⟨rfl, rfl⟩)
  | absent manifest stagingRoot hvalid hprevious =>
    refine keeps_ensure hsound rfl ((throws_verifyCheckpoint_absent hsound hvalid).mono ?_)
    rintro _ _ ⟨-, rfl⟩
    exact ⟨hsound, fun h => by simp [Disk.Started, rooted, Disk.tree] at h⟩
  | upgraded _ upgraded manifest stagingRoot hvalid hprevious =>
    refine keeps_ensure hsound rfl ((runs_verifyCheckpoint hsound (Runs.when_of_not (by simp))
      hsound hvalid hprevious).mono ?_)
    rintro _ _ ⟨rfl, rfl⟩
    refine ⟨hsound, fun _ => ⟨fun _ => ⟨⟨_, rfl⟩, rfl, rfl, rfl, rfl⟩, fun h => ?_⟩⟩
    exact absurd h (not_rolledBack_of_rest ⟨rfl, rfl⟩)
  | previous _ upgraded manifest stagingRoot hvalid hupgraded =>
    refine keeps_ensure hsound rfl ((throws_verifyCheckpoint hsound (Runs.when_of_not (by simp))
      hsound hvalid).mono ?_)
    rintro _ _ ⟨⟨e, rfl⟩, rfl⟩
    exact ⟨hsound, fun _ => ⟨fun h => absurd rfl h, fun _ => ⟨rfl, rfl, rfl, rfl, rfl⟩⟩⟩
  | swapping _ upgraded dataDir place saved manifest journal stagingRoot hlaid hvalid hprevious
      hupgraded =>
    have hrecover := @runs_recoverSwapJournal _ _ hash options _ stagingRoot _ _ _ journal _ _ _
      hlaid hvalid hprevious hupgraded
    have hstable := @sound_stable _ _ hash options _ stagingRoot _ _ hvalid hprevious hupgraded
    obtain ⟨operation, stage⟩ := journal
    cases operation with
    | rollback =>
      refine keeps_ensure hsound rfl ((throws_verifyCheckpoint hsound
        (Runs.when_of rfl (hrecover.bind (Async.Yields.pure _ _))) (hstable .previous) hvalid).mono ?_)
      rintro _ _ ⟨⟨e, rfl⟩, rfl⟩
      exact ⟨hstable .previous, fun _ => ⟨fun h => absurd rfl h, fun _ => ⟨rfl, rfl, rfl, rfl, rfl⟩⟩⟩
    | reupgrade =>
      refine keeps_ensure hsound rfl ((runs_verifyCheckpoint hsound
        (Runs.when_of rfl (hrecover.bind (Async.Yields.pure _ _))) (hstable .upgraded) hvalid
        hprevious).mono ?_)
      rintro _ _ ⟨rfl, rfl⟩
      refine ⟨hstable .upgraded, fun _ => ⟨fun _ => ⟨⟨_, rfl⟩, rfl, rfl, rfl, rfl⟩, fun h => ?_⟩⟩
      simp [Disk.RolledBack, rooted] at h

/-- What a switch comes to: where there is a checkpoint, the requested generation is active. -/
theorem keeps_switch_sound (h : Sound hash options previous content disk)
    (direction : SwapDirection) :
    (switchRootlessV2Generation hash options direction).Keeps Command.answer
      (Sound hash options previous content)
      (fun r disk' => Sound hash options previous content disk' ∧
        (disk.root = none → r.isOk = false ∧ disk' = disk) ∧
        (disk.root.isSome = true → disk.Started →
          (∃ changed, r = .ok ⟨changed, requestedGeneration direction⟩) ∧
            Stands ⟨previous, content, requestedGeneration direction⟩ disk')) disk := by
  by_cases hroot : disk.root = none
  · refine (throws_switch_unrooted h hroot direction).mono ?_
    rintro _ _ ⟨⟨e, rfl⟩, rfl⟩
    exact ⟨h, fun _ => ⟨rfl, rfl⟩, fun hrooted => by simp [hroot] at hrooted⟩
  have hrooted : disk.root.isSome = true := Option.isSome_iff_ne_none.2 hroot
  by_cases hstarted : disk.Started
  · obtain ⟨upgraded, manifest, stagingRoot, changed, rfl, hfinal, hrun⟩ :=
      runs_switch h hrooted hstarted direction
    refine hrun.mono ?_
    rintro _ _ ⟨rfl, rfl⟩
    refine ⟨hfinal, fun h => absurd h hroot, fun _ _ => ⟨⟨changed, rfl⟩, ?_⟩⟩
    cases direction <;> exact ⟨rfl, rfl, rfl, rfl⟩
  · have hsound := h
    cases h with
    | unrooted => exact absurd rfl hroot
    | absent manifest stagingRoot hvalid hprevious =>
      refine (throws_switch_absent hsound hvalid direction).mono ?_
      rintro _ _ ⟨-, rfl⟩
      exact ⟨hsound, fun h => absurd h hroot, fun _ h => absurd h hstarted⟩
    | upgraded => exact absurd (started_rooted .upgraded) hstarted
    | previous => exact absurd (started_rooted .previous) hstarted
    | swapping _ _ _ _ _ _ _ _ hlaid => exact absurd (started_rooted hlaid) hstarted

theorem sound_cut (h : Sound hash options previous content disk) (call : Call) (asks : ℕ) :
    Sound hash options previous content (call.cut hash options asks disk) := by
  cases call with
  | ensure => exact (keeps_ensure_sound h).cut (fun _ _ hQ => hQ.1) asks
  | switch direction => exact (keeps_switch_sound h direction).cut (fun _ _ hQ => hQ.1) asks

/-- At rest, a call that dies starts no swap, but for a rollback. -/
theorem rest_cut (h : Sound hash options previous content disk) (hrest : Rest disk) {call : Call}
    (hcall : call ≠ .switch .rollback ∨ disk.root = none) (asks : ℕ) :
    Rest (call.cut hash options asks disk) := by
  cases call with
  | ensure =>
    refine Async.Keeps.cut (J := Rest) (Q := fun _ disk' => Rest disk') ?_ (fun _ _ hQ => hQ) asks
    cases h with
    | unrooted _ stagingRoot =>
      obtain ⟨manifest, -, -, hrun⟩ :=
        @runs_ensure_unrooted _ _ hash options _ Rest previous (fun _ => ⟨rfl, rfl⟩) stagingRoot
      refine hrun.mono ?_
      rintro _ _ ⟨-, rfl⟩
      exact ⟨rfl, rfl⟩
    | absent manifest stagingRoot hvalid hprevious =>
      refine keeps_ensure hrest rfl ((throws_verifyCheckpoint_absent hrest hvalid).mono ?_)
      rintro _ _ ⟨-, rfl⟩
      exact hrest
    | upgraded _ upgraded manifest stagingRoot hvalid hprevious =>
      refine keeps_ensure hrest rfl ((runs_verifyCheckpoint hrest (Runs.when_of_not (by simp)) hrest
        hvalid hprevious).mono ?_)
      rintro _ _ ⟨-, rfl⟩
      exact hrest
    | previous => cases hrest.2
    | swapping => cases hrest.1
  | switch direction =>
    refine Async.Keeps.cut (J := Rest) (Q := fun _ disk' => Rest disk') ?_ (fun _ _ hQ => hQ) asks
    by_cases hroot : disk.root = none
    · refine (throws_switch_unrooted hrest hroot direction).mono ?_
      rintro _ _ ⟨-, rfl⟩
      exact hrest
    · have hdirection : direction = .reupgrade := by
        cases direction with
        | rollback => exact absurd rfl (hcall.resolve_right hroot)
        | reupgrade => rfl
      subst hdirection
      cases h with
      | unrooted => exact absurd rfl hroot
      | absent manifest stagingRoot hvalid hprevious =>
        refine (throws_switch_absent hrest hvalid .reupgrade).mono ?_
        rintro _ _ ⟨-, rfl⟩
        exact hrest
      | upgraded _ upgraded manifest stagingRoot hvalid hprevious =>
        unfold switchRootlessV2Generation
        refine (runs_readAndValidateManifest hrest rfl hvalid).bind_keeps ?_
        refine (Async.Yields.request hrest).bind_keeps
          ((Async.Yields.pure manifest _).bind_keeps ?_)
        refine (runs_recoverSwapJournal_none hrest rfl).bind_keeps ?_
        refine (runs_readAndValidateManifest hrest rfl hvalid).bind_keeps ?_
        refine (runs_publishWhereActive_of_not hrest rfl).bind_keeps ?_
        refine (runs_detectStableGeneration_upgraded hrest rfl rfl rfl hprevious).bind_keeps ?_
        exact hrest
      | previous => cases hrest.2
      | swapping => cases hrest.1

/-! ### The invariant of the site -/

/-- Nothing is lost; where the last call ended, the active generation is in its place; and where it
was the upgraded one, and no rollback died since, nothing is on its way back. -/
structure Invariant (hash : Hash γ φ) (options : ReleaseOptions) (site : Site γ φ) : Prop where
  sound : Sound hash options site.generations.previous site.generations.upgraded site.disk
  stands : site.settled = true → site.disk.root.isSome = true → Stands site.generations site.disk
  rest : site.generations.active = .upgraded → site.rollbackBegun = false → Rest site.disk

theorem invariant_start (dataDir : Option γ) (stagingRoot : Option (Folder γ φ)) :
    Invariant hash options (Site.start dataDir stagingRoot) where
  sound := .unrooted dataDir stagingRoot
  stands _ h := by cases h
  rest _ _ := ⟨rfl, rfl⟩

/-- Nothing of the generations is lost on such a disk. -/
theorem held_of_sound {generations : Generations γ}
    (h : Sound hash options generations.previous generations.upgraded disk) :
    Held disk generations := by
  obtain ⟨previous, content, active⟩ := generations
  intro hroot
  cases h with
  | unrooted => cases hroot
  | absent => exact .inl ⟨rfl, rfl, rfl⟩
  | upgraded => exact .inl ⟨rfl, rfl, rfl⟩
  | previous => exact .inr (.inr ⟨rfl, rfl, rfl⟩)
  | swapping _ _ _ _ _ _ _ _ hlaid =>
    cases hlaid with
    | upgraded => exact .inl ⟨rfl, rfl, rfl⟩
    | neither tree htree => exact .inr (.inl ⟨rfl, htree.symm, rfl⟩)
    | previous => exact .inr (.inr ⟨rfl, rfl, rfl⟩)

/-- Content is written to the active generation, in the data directory. -/
theorem sound_write {generations : Generations γ} (written : γ)
    (h : Sound hash options generations.previous generations.upgraded disk)
    (hstands : Stands generations disk) :
    Sound hash options (generations.write written).previous (generations.write written).upgraded
        { disk with dataDir := some written } ∧
      Stands (generations.write written) { disk with dataDir := some written } := by
  obtain ⟨hrooted, hjournal, hdataDir, hsaved⟩ := hstands
  obtain ⟨previous, content, active⟩ := generations
  cases active with
  | previous =>
    cases h with
    | unrooted => cases hrooted
    | absent => cases hsaved
    | upgraded => cases hsaved
    | previous _ upgraded manifest stagingRoot hvalid hupgraded =>
      exact ⟨.previous (some written) upgraded manifest stagingRoot hvalid hupgraded,
        rfl, rfl, rfl, rfl⟩
    | swapping => cases hjournal
  | upgraded =>
    cases h with
    | unrooted => cases hrooted
    | absent manifest stagingRoot hvalid hprevious =>
      exact ⟨.upgraded none written manifest stagingRoot hvalid hprevious, rfl, rfl, rfl, rfl⟩
    | upgraded _ upgraded manifest stagingRoot hvalid hprevious =>
      exact ⟨.upgraded _ written manifest stagingRoot hvalid hprevious, rfl, rfl, rfl, rfl⟩
    | previous => cases hsaved
    | swapping => cases hjournal

theorem invariant_write {site : Site γ φ} (h : Invariant hash options site) (written : γ)
    (hsettled : site.settled = true) :
    Invariant hash options (site.step hash options (.write written)).1 := by
  by_cases hroot : site.disk.root.isSome = true
  · obtain ⟨hsound, hstands⟩ := sound_write written h.sound (h.stands hsettled hroot)
    have hactive : (site.generations.write written).active = site.generations.active := by
      cases hactive : site.generations.active <;> simp [Generations.write, hactive]
    simp only [Site.step, hroot, if_true]
    exact ⟨hsound, fun _ _ => hstands, fun h' h'' => h.rest (hactive ▸ h') h''⟩
  · simp only [Site.step, hroot]
    have hnone : site.disk.root = none := by simpa using hroot
    obtain ⟨disk, generations, rollbackBegun, settled⟩ := site
    obtain ⟨dataDir, root, stagingRoot⟩ := disk
    obtain rfl : root = none := hnone
    exact ⟨.unrooted (some written) stagingRoot, fun _ h' => (by cases h'), h.rest⟩

theorem Stands.invariant {site : Site γ φ} {generation : Generation}
    (h : Stands { site.generations with active := generation } site.disk)
    (hsound : Sound hash options site.generations.previous site.generations.upgraded site.disk)
    (hactive : site.generations.active = generation) : Invariant hash options site := by
  subst hactive
  exact ⟨hsound, fun _ _ => h, fun hactive _ => h.rest hactive⟩

/-- A checkpoint that ends is made or verified, or refused as it should be. -/
theorem kept_ensure {site : Site γ φ} (h : Invariant hash options site)
    (hstarted : site.disk.Started) :
    Invariant hash options (site.step hash options (.call .ensure)).1 ∧
      Done site (site.step hash options (.call .ensure)).1
        (site.step hash options (.call .ensure)).2 (.call .ensure) := by
  obtain ⟨hsound, hend⟩ := (keeps_ensure_sound h.sound).perform
  obtain ⟨hkept, hrefused⟩ := hend hstarted
  have hrest : site.generations.active = .upgraded → site.rollbackBegun = false →
      ¬ site.disk.RolledBack :=
    fun hactive hbegun => not_rolledBack_of_rest (h.rest hactive hbegun)
  by_cases hrolledBack : site.disk.RolledBack
  · obtain ⟨hresult, hstands⟩ := hrefused hrolledBack
    simp only [Site.step, hresult]
    refine ⟨Stands.invariant hstands hsound rfl, hrest, fun h => absurd hrolledBack h, fun _ => ?_⟩
    exact ⟨hresult, hstands.dataDir⟩
  · obtain ⟨⟨sourceAbsent, hresult⟩, hstands⟩ := hkept hrolledBack
    simp only [Site.step, hresult]
    refine ⟨Stands.invariant hstands hsound rfl, hrest, fun _ => ?_, fun h => absurd h hrolledBack⟩
    exact ⟨⟨sourceAbsent, rfl⟩, hstands.rooted, hstands.dataDir⟩

/-- A switch that ends has made the requested generation active. -/
theorem kept_switch {site : Site γ φ} (h : Invariant hash options site)
    (hstarted : site.disk.Started) (direction : SwapDirection) :
    Invariant hash options (site.step hash options (.call (.switch direction))).1 ∧
      Done site (site.step hash options (.call (.switch direction))).1
        (site.step hash options (.call (.switch direction))).2 (.call (.switch direction)) := by
  obtain ⟨hsound, hnone, hend⟩ := (keeps_switch_sound h.sound direction).perform
  by_cases hroot : site.disk.root = none
  · obtain ⟨hresult, hdisk⟩ := hnone hroot
    simp only [Site.step, hresult, hdisk]
    refine ⟨⟨h.sound, fun _ h' => ?_, fun _ _ => ?_⟩, fun h' => ?_⟩
    · simp [hroot] at h'
    · simp [Rest, hroot, Disk.tree]
    · simp [hroot] at h'
  · have hrooted : site.disk.root.isSome = true := Option.isSome_iff_ne_none.2 hroot
    obtain ⟨⟨changed, hresult⟩, hstands⟩ := hend hrooted hstarted
    simp only [Site.step, hresult]
    exact ⟨Stands.invariant hstands hsound rfl, fun _ => ⟨⟨changed, rfl⟩, hstands.dataDir⟩⟩

/-- A call that dies leaves the site in order. -/
theorem invariant_crash {site : Site γ φ} (h : Invariant hash options site) (call : Call)
    (asks : ℕ) (left : Option (Folder γ φ)) :
    Invariant hash options (site.step hash options (.crash call asks left)).1 where
  sound := (sound_cut h.sound call asks).withStaging left
  stands hsettled := by cases hsettled
  rest hactive hbegun := by
    simp only [Site.step, Bool.or_eq_false_iff, Bool.and_eq_false_iff, decide_eq_false_iff_not]
      at hbegun
    refine rest_cut h.sound (h.rest hactive hbegun.1) ?_ asks
    rcases hbegun.2 with hroot | hcall
    · exact .inr (by simpa using hroot)
    · exact .inl hcall

theorem kept_step {site : Site γ φ} {event : Event γ φ} (h : Invariant hash options site)
    (hpermitted : Permitted site event) (hstarted : Started site event) :
    Invariant hash options (site.step hash options event).1 ∧ Kept hash options site event := by
  have hstep : Invariant hash options (site.step hash options event).1 ∧
      Done site (site.step hash options event).1 (site.step hash options event).2 event := by
    cases event with
    | write written => exact ⟨invariant_write h written hpermitted, trivial⟩
    | crash call asks left => exact ⟨invariant_crash h call asks left, trivial⟩
    | call call =>
      cases call with
      | ensure => exact kept_ensure h hstarted
      | switch direction => exact kept_switch h hstarted direction
  exact ⟨hstep.1, held_of_sound hstep.1.sound, hstep.2⟩

/-- In a run in which no call that ends finds the checkpoint of an absent directory beside a
directory that is absent still, each generation is in one place with what was last written to it,
and every call that ends did what it is for, wherever calls died before it. -/
theorem generations_kept (hash : Hash γ φ) (options : ReleaseOptions) (dataDir : Option γ)
    (stagingRoot : Option (Folder γ φ)) (events : List (Event γ φ))
    (h : (sites hash options).Along (fun site event => Permitted site event ∧ Started site event)
      (Site.start dataDir stagingRoot) events) :
    (sites hash options).Along (Kept hash options) (Site.start dataDir stagingRoot) events :=
  Machine.Along.of_invariant (P := Invariant hash options)
    (fun _ _ hinvariant hstep => kept_step hinvariant hstep.1 hstep.2)
    (invariant_start dataDir stagingRoot) h

/-- Directories by a number of what they hold. -/
def numbered : Hash ℕ (Option ℕ) := ⟨some, none⟩

/-- A checkpoint of an absent directory, which a runtime creates; a rollback that dies after its
rename and is repeated; a runtime of the previous generation; an upgrade that dies between its
renames, and goes on by a checkpoint. -/
def swaps : List (Event ℕ (Option ℕ)) :=
  [.call .ensure, .write 1, .crash (.switch .rollback) 16 none, .call (.switch .rollback), .write 2,
    .crash (.switch .reupgrade) 16 none, .call .ensure, .write 3, .call (.switch .rollback),
    .call (.switch .reupgrade), .call .ensure]

theorem generations_kept_swaps :
    (sites numbered {}).Along (Kept numbered {}) (Site.start none none) swaps :=
  generations_kept numbered {} none none swaps (by decide +kernel)

/-- A checkpoint of an absent directory is verified no more before a runtime has created it. -/
theorem absent_unverified :
    ¬ (sites numbered {}).Along (Kept numbered {}) (Site.start none none)
      [.call .ensure, .call .ensure] := by
  rintro ⟨-, ⟨-, hdone⟩, -⟩
  obtain ⟨⟨sourceAbsent, hresult⟩, -⟩ := hdone.2.1 (not_rolledBack_of_rest ⟨rfl, rfl⟩)
  cases hresult

end Kinetick.Rootless
