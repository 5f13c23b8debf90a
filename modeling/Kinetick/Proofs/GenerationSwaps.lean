import Kinetick.Proofs.GenerationSteps

/-!
# Swaps of the generations

A swap that ends leaves the generation of its direction active, and on the way every disk is one on
which a swap can be carried on: whatever it died of, another call goes on from there. A checkpoint
is verified where the upgraded generation is active, and refused where it was rolled back.
-/

namespace Kinetick.Rootless

variable {γ φ : Type} {hash : Hash γ φ} {options : ReleaseOptions}
  {disk : Disk γ φ} {manifest : GenerationManifest φ} {stagingRoot : Option (Folder γ φ)}
  {previous : Option γ} {upgraded : γ}

/-- A disk with the generation active and no swap under way. -/
def stable (previous : Option γ) (upgraded : γ) (manifest : GenerationManifest φ)
    (stagingRoot : Option (Folder γ φ)) : Generation → Disk γ φ
  | .upgraded => rooted (some upgraded) previous none manifest none stagingRoot
  | .previous => rooted previous none (some upgraded) manifest none stagingRoot

theorem sound_stable (hvalid : Valid options manifest)
    (hprevious : PreviousRight hash previous manifest)
    (hupgraded : UpgradedRight hash upgraded manifest) (generation : Generation) :
    Sound hash options previous (some upgraded)
      (stable previous upgraded manifest stagingRoot generation) := by
  cases generation with
  | previous => exact .previous _ _ _ _ hvalid hupgraded
  | upgraded => exact .upgraded _ _ _ _ hvalid hprevious

variable [DecidableEq φ]

/-- Whatever a swap that died left, its recovery ends in the generation of its direction. -/
theorem runs_recoverSwapJournal {journal : SwapJournal} {dataDir place saved : Option γ}
    (hlaid : Laid previous upgraded dataDir place saved) (hvalid : Valid options manifest)
    (hprevious : PreviousRight hash previous manifest)
    (hupgraded : UpgradedRight hash upgraded manifest) :
    Runs (Sound hash options previous (some upgraded)) (recoverSwapJournal hash manifest)
      (rooted dataDir place saved manifest (some journal) stagingRoot) true
      (stable previous upgraded manifest stagingRoot (requestedGeneration journal.operation)) := by
  have hJ : ∀ {dataDir place saved}, Laid previous upgraded dataDir place saved →
      Sound hash options previous (some upgraded)
        (rooted dataDir place saved manifest (some journal) stagingRoot) :=
    fun hlaid => .swapping _ _ _ _ _ _ _ _ hlaid hvalid hprevious hupgraded
  refine (Async.Yields.request (hJ hlaid)).bind ?_
  obtain ⟨operation, stage⟩ := journal
  cases operation with
  | rollback =>
    refine (runs_recoverRollback hJ hlaid hprevious).bind ?_
    exact (Async.Yields.request (hJ .previous)).bind (Async.Yields.pure _ _)
  | reupgrade =>
    refine (runs_recoverReupgrade hJ hlaid hprevious hupgraded).bind ?_
    exact (Async.Yields.request (hJ .upgraded)).bind (Async.Yields.pure _ _)

theorem runs_recoverSwapJournal_none {J : Disk γ φ → Prop} (h : J disk)
    (hjournal : disk.root.bind Folder.journal = none) :
    Runs J (recoverSwapJournal hash manifest) disk false disk := by
  refine (Async.Yields.request h).bind ?_
  dsimp only [Command.answer]
  rw [hjournal]
  exact Async.Yields.pure _ _

/-- The two renames of a swap, with the journal around them. -/
theorem runs_executeSwap (direction : SwapDirection) {dataDir place saved : Option γ}
    (hstart : direction = .rollback ∧ dataDir = some upgraded ∧ place = previous ∧ saved = none ∨
      direction = .reupgrade ∧ dataDir = previous ∧ place = none ∧ saved = some upgraded)
    (stage : JournalStage) (hvalid : Valid options manifest)
    (hprevious : PreviousRight hash previous manifest)
    (hupgraded : UpgradedRight hash upgraded manifest) :
    Runs (Sound hash options previous (some upgraded)) (executeSwap hash manifest direction)
      (rooted dataDir place saved manifest (some ⟨direction, stage⟩) stagingRoot) ()
      (stable previous upgraded manifest stagingRoot (requestedGeneration direction)) := by
  have hJ : ∀ {dataDir place saved} (stage : JournalStage),
      Laid previous upgraded dataDir place saved → Sound hash options previous (some upgraded)
        (rooted dataDir place saved manifest (some ⟨direction, stage⟩) stagingRoot) :=
    fun stage hlaid => .swapping _ _ _ _ _ _ _ _ hlaid hvalid hprevious hupgraded
  unfold executeSwap
  rw [hprevious]
  obtain ⟨rfl, rfl, rfl, rfl⟩ | ⟨rfl, rfl, rfl, rfl⟩ := hstart
  · have hactive := @runs_verifyActiveGeneration_previous _ _ _ hash
      (Sound hash options place (some upgraded)) _ manifest place (hJ .targetActivated .previous)
      rfl hprevious
    have hmoved := Laid.moved place upgraded
    refine (runs_rename (hJ stage .upgraded) rfl rfl).bind ?_
    refine (Async.Yields.request (hJ stage hmoved)).bind ?_
    have hrestored : Runs (Sound hash options place (some upgraded))
        (Async.when (place.isSome = true) (rename .previous .dataDir))
        (rooted none place (some upgraded) manifest (some ⟨.rollback, .activeSaved⟩) stagingRoot) ()
        (rooted place none (some upgraded) manifest (some ⟨.rollback, .activeSaved⟩)
          stagingRoot) := by
      cases place with
      | none => exact Runs.when_of_not (by simp)
      | some tree => exact Runs.when_of rfl (runs_rename (hJ .activeSaved hmoved) rfl rfl)
    refine hrestored.bind ?_
    · refine (Async.Yields.request (hJ .activeSaved .previous)).bind ?_
      refine hactive.bind ?_
      exact Async.Yields.request (hJ .targetActivated .previous)
  · have hactive := @runs_verifyActiveGeneration_upgraded _ _ _ hash
      (Sound hash options dataDir (some upgraded)) _ manifest upgraded
      (hJ .targetActivated .upgraded) rfl hupgraded
    have hmoved := Laid.moved dataDir upgraded
    obtain ⟨stage', hsaved⟩ : ∃ stage', Runs (Sound hash options dataDir (some upgraded))
        (Async.when (dataDir.isSome = true) do
          rename .dataDir .previous
          Program.writeJournal .reupgrade .activeSaved)
        (rooted dataDir none (some upgraded) manifest (some ⟨.reupgrade, stage⟩) stagingRoot) ()
        (rooted none dataDir (some upgraded) manifest (some ⟨.reupgrade, stage'⟩) stagingRoot) := by
      cases dataDir with
      | none => exact ⟨stage, Runs.when_of_not (by simp)⟩
      | some tree =>
        refine ⟨.activeSaved, Runs.when_of rfl ?_⟩
        refine (runs_rename (hJ stage .previous) rfl rfl).bind ?_
        exact Async.Yields.request (hJ stage hmoved)
    refine hsaved.bind ?_
    refine (runs_rename (hJ stage' hmoved) rfl rfl).bind ?_
    refine (Async.Yields.request (hJ stage' .upgraded)).bind ?_
    refine hactive.bind ?_
    exact Async.Yields.request (hJ .targetActivated .upgraded)

/-- From a stable disk, a swap makes the requested generation active. -/
theorem runs_swapFrom (stagingRoot : Option (Folder γ φ)) (direction : SwapDirection) (recovered : Bool) (generation : Generation)
    (hvalid : Valid options manifest) (hprevious : PreviousRight hash previous manifest)
    (hupgraded : generation = .previous → UpgradedRight hash upgraded manifest) :
    ∃ changed manifest', Sound hash options previous (some upgraded)
        (stable previous upgraded manifest' stagingRoot (requestedGeneration direction)) ∧
      Runs (Sound hash options previous (some upgraded))
        (swapFrom hash options manifest direction recovered generation)
        (stable previous upgraded manifest stagingRoot generation)
        ⟨changed, requestedGeneration direction⟩
        (stable previous upgraded manifest' stagingRoot (requestedGeneration direction)) := by
  unfold swapFrom
  cases generation with
  | previous =>
    have hright := hupgraded rfl
    have hstart := @sound_stable _ _ hash options _ stagingRoot _ _ hvalid hprevious hright .previous
    cases direction with
    | rollback => exact ⟨recovered, manifest, hstart, Async.Yields.pure _ _⟩
    | reupgrade =>
      refine ⟨true, manifest, sound_stable hvalid hprevious hright .upgraded, ?_⟩
      rw [if_neg (by simp [requestedGeneration])]
      refine Async.Yields.bind (Runs.when_of_not (by simp)) ?_
      refine (runs_readAndValidateManifest hstart rfl hvalid).bind ?_
      refine (Async.Yields.request hstart).bind ?_
      exact (runs_executeSwap .reupgrade (.inr ⟨rfl, rfl, rfl, rfl⟩) .prepared hvalid hprevious
        hright).bind (Async.Yields.pure _ _)
  | upgraded =>
    have hstart : Sound hash options previous (some upgraded)
        (stable previous upgraded manifest stagingRoot .upgraded) :=
      .upgraded _ _ _ _ hvalid hprevious
    cases direction with
    | reupgrade => exact ⟨recovered, manifest, hstart, Async.Yields.pure _ _⟩
    | rollback =>
      obtain ⟨manifest', hvalid', hprevious', hright, hpublish⟩ :=
        runs_publishUpgradedFingerprint hstart hvalid hprevious
      have hpublished := @sound_stable _ _ hash options _ stagingRoot _ _ hvalid' hprevious' hright
      refine ⟨true, manifest', hpublished .previous, ?_⟩
      rw [if_neg (by simp [requestedGeneration])]
      refine Async.Yields.bind (Runs.when_of rfl hpublish) ?_
      refine (runs_readAndValidateManifest (hpublished .upgraded) rfl hvalid').bind ?_
      refine (Async.Yields.request (hpublished .upgraded)).bind ?_
      exact (runs_executeSwap .rollback (.inl ⟨rfl, rfl, rfl, rfl⟩) .prepared hvalid' hprevious'
        hright).bind (Async.Yields.pure _ _)

/-- The manifest is left, unless the previous generation is active. -/
theorem runs_publishWhereActive_of_not {J : Disk γ φ → Prop} (h : J disk)
    (hlayout : ((disk.tree .upgraded).isSome && !(disk.tree .previous).isSome) = false) :
    Runs J (publishWhereActive hash manifest) disk manifest disk := by
  refine (runs_hasPreviousGenerationActiveLayout h).bind ?_
  rw [hlayout]
  exact Async.Yields.pure _ _

theorem runs_publishWhereActive {J : Disk γ φ → Prop} {journal : Option SwapJournal}
    (h : J (rooted previous none (some upgraded) manifest journal stagingRoot))
    (hvalid : Valid options manifest) :
    ∃ manifest', Valid options manifest' ∧ PreviousRight hash previous manifest' ∧
      manifest'.upgradedFingerprint = manifest.upgradedFingerprint ∧
      Runs J (publishWhereActive hash manifest)
        (rooted previous none (some upgraded) manifest journal stagingRoot) manifest'
        (rooted previous none (some upgraded) manifest' journal stagingRoot) := by
  obtain ⟨manifest', hvalid', hprevious, hsame, hrun⟩ := runs_publishPreviousFingerprint h hvalid
  exact ⟨manifest', hvalid', hprevious, hsame, (runs_hasPreviousGenerationActiveLayout h).bind hrun⟩

/-- A pending rollback may publish the previous generation anew, and it is the same. -/
theorem runs_publishPending {journal : SwapJournal} {dataDir place saved : Option γ}
    (hlaid : Laid previous upgraded dataDir place saved) (hvalid : Valid options manifest)
    (hprevious : PreviousRight hash previous manifest)
    (hupgraded : UpgradedRight hash upgraded manifest) :
    ∃ manifest', Valid options manifest' ∧ PreviousRight hash previous manifest' ∧
      UpgradedRight hash upgraded manifest' ∧
      Runs (Sound hash options previous (some upgraded)) (publishPending hash (some journal) manifest)
        (rooted dataDir place saved manifest (some journal) stagingRoot) manifest'
        (rooted dataDir place saved manifest' (some journal) stagingRoot) := by
  have hsound : Sound hash options previous (some upgraded)
      (rooted dataDir place saved manifest (some journal) stagingRoot) :=
    .swapping _ _ _ _ _ _ _ _ hlaid hvalid hprevious hupgraded
  unfold publishPending
  split_ifs
  · cases hlaid with
    | upgraded =>
      exact ⟨manifest, hvalid, hprevious, hupgraded, runs_publishWhereActive_of_not hsound rfl⟩
    | neither tree htree =>
      exact ⟨manifest, hvalid, hprevious, hupgraded, runs_publishWhereActive_of_not hsound rfl⟩
    | previous =>
      obtain ⟨manifest', hvalid', hprevious', hsame, hrun⟩ := runs_publishWhereActive hsound hvalid
      exact ⟨manifest', hvalid', hprevious', hsame.trans hupgraded, hrun⟩
  · exact ⟨manifest, hvalid, hprevious, hupgraded, Async.Yields.pure _ _⟩

/-- Of a stable disk the active generation is told. -/
theorem runs_detect (generation : Generation) (hprevious : PreviousRight hash previous manifest)
    (hsound : Sound hash options previous (some upgraded)
      (stable previous upgraded manifest stagingRoot generation)) :
    Runs (Sound hash options previous (some upgraded)) (detectStableGeneration hash manifest)
      (stable previous upgraded manifest stagingRoot generation) generation
      (stable previous upgraded manifest stagingRoot generation) := by
  cases generation with
  | previous => exact runs_detectStableGeneration_previous hsound rfl rfl rfl hprevious
  | upgraded => exact runs_detectStableGeneration_upgraded hsound rfl rfl rfl hprevious

/-- From any disk that is left of the generations, a switch makes the requested one active. -/
theorem runs_switch {content : Option γ} (h : Sound hash options previous content disk)
    (hroot : disk.root.isSome = true) (hstarted : disk.Started) (direction : SwapDirection) :
    ∃ upgraded manifest' stagingRoot changed, content = some upgraded ∧
      Sound hash options previous content
        (stable previous upgraded manifest' stagingRoot (requestedGeneration direction)) ∧
      Runs (Sound hash options previous content) (switchRootlessV2Generation hash options direction)
        disk ⟨changed, requestedGeneration direction⟩
        (stable previous upgraded manifest' stagingRoot (requestedGeneration direction)) := by
  have hsound := h
  unfold switchRootlessV2Generation
  cases h with
  | unrooted => cases hroot
  | absent => simp [Disk.Started, hroot] at hstarted
  | upgraded _ upgraded manifest stagingRoot hvalid hprevious =>
    obtain ⟨changed, manifest', hfinal, hswap⟩ := runs_swapFrom stagingRoot
      direction false .upgraded hvalid hprevious (by simp)
    refine ⟨upgraded, manifest', stagingRoot, changed, rfl, hfinal, ?_⟩
    refine (runs_readAndValidateManifest hsound rfl hvalid).bind ?_
    refine (Async.Yields.request hsound).bind ((Async.Yields.pure manifest _).bind ?_)
    refine (runs_recoverSwapJournal_none hsound rfl).bind ?_
    refine (runs_readAndValidateManifest hsound rfl hvalid).bind ?_
    refine (runs_publishWhereActive_of_not hsound rfl).bind ?_
    exact (runs_detect .upgraded hprevious hsound).bind hswap
  | previous _ upgraded manifest stagingRoot hvalid hupgraded =>
    obtain ⟨manifest', hvalid', hprevious, hsame, hpublish⟩ :=
      runs_publishWhereActive hsound hvalid
    have hright : UpgradedRight hash upgraded manifest' := hsame.trans hupgraded
    obtain ⟨changed, manifest'', hfinal, hswap⟩ := runs_swapFrom stagingRoot
      direction false .previous hvalid' hprevious fun _ => hright
    refine ⟨upgraded, manifest'', stagingRoot, changed, rfl, hfinal, ?_⟩
    refine (runs_readAndValidateManifest hsound rfl hvalid).bind ?_
    refine (Async.Yields.request hsound).bind ((Async.Yields.pure manifest _).bind ?_)
    refine (runs_recoverSwapJournal_none hsound rfl).bind ?_
    refine (runs_readAndValidateManifest hsound rfl hvalid).bind (hpublish.bind ?_)
    exact (runs_detect .previous hprevious (sound_stable hvalid' hprevious hright .previous)).bind
      hswap
  | swapping _ upgraded dataDir place saved manifest journal stagingRoot hlaid hvalid hprevious
      hupgraded =>
    obtain ⟨manifest', hvalid', hprevious', hupgraded', hpublish⟩ :=
      @runs_publishPending _ _ hash options _ stagingRoot _ _ _ journal _ _ _ hlaid hvalid hprevious
        hupgraded
    have hstable := @sound_stable _ _ hash options _ stagingRoot _ _ hvalid' hprevious' hupgraded'
    obtain ⟨manifest'', hvalid'', hprevious'', hupgraded'', hpublish'⟩ :
        ∃ manifest'', Valid options manifest'' ∧ PreviousRight hash previous manifest'' ∧
          UpgradedRight hash upgraded manifest'' ∧
          Runs (Sound hash options previous (some upgraded)) (publishWhereActive hash manifest')
            (stable previous upgraded manifest' stagingRoot (requestedGeneration journal.operation))
            manifest''
            (stable previous upgraded manifest'' stagingRoot
              (requestedGeneration journal.operation)) := by
      cases journal.operation with
      | rollback =>
        obtain ⟨manifest'', hvalid'', hprevious'', hsame, hrun⟩ :=
          runs_publishWhereActive (hstable .previous) hvalid'
        exact ⟨manifest'', hvalid'', hprevious'', hsame.trans hupgraded', hrun⟩
      | reupgrade =>
        exact ⟨manifest', hvalid', hprevious', hupgraded',
          runs_publishWhereActive_of_not (hstable .upgraded) rfl⟩
    obtain ⟨changed, manifest₃, hfinal, hswap⟩ := runs_swapFrom stagingRoot
      direction true (requestedGeneration journal.operation) hvalid'' hprevious'' fun _ => hupgraded''
    refine ⟨upgraded, manifest₃, stagingRoot, changed, rfl, hfinal, ?_⟩
    refine (runs_readAndValidateManifest hsound rfl hvalid).bind ?_
    refine (Async.Yields.request hsound).bind (hpublish.bind ?_)
    refine (runs_recoverSwapJournal hlaid hvalid' hprevious' hupgraded').bind ?_
    refine (runs_readAndValidateManifest (hstable _) ?_ hvalid').bind (hpublish'.bind ?_)
    · cases journal.operation <;> rfl
    · exact (runs_detect _ hprevious'' (sound_stable hvalid'' hprevious'' hupgraded'' _)).bind hswap

/-- Where there is no checkpoint, or one of nothing, a switch fails and changes nothing. -/
theorem throws_switch_unrooted {J : Disk γ φ → Prop} (h : J disk) (hroot : disk.root = none)
    (direction : SwapDirection) :
    (switchRootlessV2Generation hash options direction).Throws Command.answer J disk disk := by
  refine Async.Throws.bind ((Async.Yields.request h).bind_throws ?_)
  dsimp only [Command.answer]
  rw [hroot]
  exact Async.Throws.raise _ _

theorem throws_switch_absent {J : Disk γ φ → Prop}
    (h : J (rooted none none none manifest none stagingRoot)) (hvalid : Valid options manifest)
    (direction : SwapDirection) :
    (switchRootlessV2Generation hash options direction).Throws Command.answer J
      (rooted none none none manifest none stagingRoot)
      (rooted none none none manifest none stagingRoot) := by
  unfold switchRootlessV2Generation
  refine (runs_readAndValidateManifest h rfl hvalid).bind_throws ?_
  refine (Async.Yields.request h).bind_throws ((Async.Yields.pure manifest _).bind_throws ?_)
  refine (runs_recoverSwapJournal_none h rfl).bind_throws ?_
  refine (runs_readAndValidateManifest h rfl hvalid).bind_throws ?_
  refine (runs_publishWhereActive_of_not h rfl).bind_throws ?_
  exact (throws_detectStableGeneration h rfl rfl).bind

/-! ### The checkpoint -/

/-- Whatever fingerprint the manifest says the previous generation has, it is looked up. -/
theorem keeps_verifyActiveGeneration {J : Disk γ φ → Prop} (h : J disk)
    (hpresent : (disk.tree .dataDir).isSome = (currentPreviousState manifest).present) :
    (verifyActiveGeneration hash manifest .previous).Keeps Command.answer J
      (fun _ disk' => disk' = disk) disk := by
  unfold verifyActiveGeneration
  dsimp only
  rw [if_pos rfl, ← hpresent]
  refine (runs_fingerprintGeneration h rfl (by simp)).bind_keeps ?_
  split_ifs
  · rfl
  · rfl

/-- Beside the active previous generation, whatever the manifest says of it, the upgraded one is not
told active. -/
theorem keeps_detectStableGeneration {J : Disk γ φ → Prop} (h : J disk)
    (hsaved : disk.tree .upgraded = some upgraded) :
    (detectStableGeneration hash manifest).Keeps Command.answer J
      (fun r disk' => r ≠ .ok .upgraded ∧ disk' = disk) disk := by
  unfold detectStableGeneration
  refine (runs_pathExists h .dataDir).bind_keeps ((runs_pathExists h .previous).bind_keeps
    ((runs_pathExists h .upgraded).bind_keeps ?_))
  rw [hsaved]
  dsimp only
  by_cases hactive : ((some upgraded).isSome && !(disk.tree .previous).isSome &&
      (disk.tree .dataDir).isSome == (currentPreviousState manifest).present) = true
  · rw [if_pos hactive]
    refine (keeps_verifyActiveGeneration h (by simp_all)).bind ?_ ?_
    · rintro _ _ rfl
      exact ⟨by simp, rfl⟩
    · rintro _ _ rfl
      exact ⟨by simp, rfl⟩
  · rw [if_neg hactive, if_neg (by simp)]
    exact ⟨by simp, rfl⟩

section

variable {J : Disk γ φ → Prop}

/-- Where there is a checkpoint it is verified. -/
theorem keeps_ensure (h : J disk) (hroot : disk.root.isSome = true)
    {Q : Except String RootlessV2CheckpointResult → Disk γ φ → Prop}
    (hverify : (verifyCheckpoint hash options).Keeps Command.answer J Q disk) :
    (ensureRootlessV2Checkpoint hash options).Keeps Command.answer J Q disk := by
  have hrooted : Runs J Program.rootExists disk disk.root.isSome disk := Async.Yields.request h
  refine hrooted.bind_keeps ?_
  rw [hroot, if_pos rfl]
  exact hverify

/-- The upgraded generation is active, and so the checkpoint is verified. -/
theorem runs_verifyCheckpoint {journal : Option SwapJournal} {dataDir place saved : Option γ}
    (h : J (rooted dataDir place saved manifest journal stagingRoot))
    (hrecover : Runs J (Async.when (journal.isSome = true) do
        let _ ← recoverSwapJournal hash manifest)
      (rooted dataDir place saved manifest journal stagingRoot) ()
      (stable previous upgraded manifest stagingRoot .upgraded))
    (hstable : J (stable previous upgraded manifest stagingRoot .upgraded))
    (hvalid : Valid options manifest) (hprevious : PreviousRight hash previous manifest) :
    Runs J (verifyCheckpoint hash options)
      (rooted dataDir place saved manifest journal stagingRoot) ⟨false, manifest.sourceAbsent⟩
      (stable previous upgraded manifest stagingRoot .upgraded) := by
  refine (runs_readAndValidateManifest h rfl hvalid).bind ((Async.Yields.request h).bind ?_)
  refine hrecover.bind ?_
  refine (runs_detectStableGeneration_upgraded hstable rfl rfl rfl hprevious).bind ?_
  rw [if_neg (by simp)]
  exact (runs_verifyPreviousCheckpoint hstable rfl hprevious).bind (Async.Yields.pure _ _)

/-- The previous generation is active, and so the checkpoint is refused. -/
theorem throws_verifyCheckpoint {journal : Option SwapJournal} {dataDir place saved : Option γ}
    (h : J (rooted dataDir place saved manifest journal stagingRoot))
    (hrecover : Runs J (Async.when (journal.isSome = true) do
        let _ ← recoverSwapJournal hash manifest)
      (rooted dataDir place saved manifest journal stagingRoot) ()
      (stable previous upgraded manifest stagingRoot .previous))
    (hstable : J (stable previous upgraded manifest stagingRoot .previous))
    (hvalid : Valid options manifest) :
    (verifyCheckpoint hash options).Throws Command.answer J
      (rooted dataDir place saved manifest journal stagingRoot)
      (stable previous upgraded manifest stagingRoot .previous) := by
  refine (runs_readAndValidateManifest h rfl hvalid).bind_throws
    ((Async.Yields.request h).bind_throws ?_)
  refine hrecover.bind_throws ?_
  refine Async.Keeps.bind (keeps_detectStableGeneration hstable rfl) ?_ ?_
  · rintro _ generation ⟨hgeneration, rfl⟩
    rw [if_pos fun h => hgeneration (congrArg _ h)]
    exact Async.Throws.raise _ _
  · rintro _ error ⟨-, rfl⟩
    exact ⟨⟨error, rfl⟩, rfl⟩

/-- A checkpoint of an absent directory is refused while the directory is absent. -/
theorem throws_verifyCheckpoint_absent (h : J (rooted none none none manifest none stagingRoot))
    (hvalid : Valid options manifest) :
    (verifyCheckpoint hash options).Throws Command.answer J
      (rooted none none none manifest none stagingRoot)
      (rooted none none none manifest none stagingRoot) := by
  refine (runs_readAndValidateManifest h rfl hvalid).bind_throws
    ((Async.Yields.request h).bind_throws ?_)
  refine Async.Yields.bind_throws
    (Runs.when_of_not (by simp [Command.answer, rooted])) ?_
  exact (throws_detectStableGeneration h rfl rfl).bind

end

/-- The checkpoint that is made holds what the data directory does. -/
theorem runs_ensure_unrooted {J : Disk γ φ → Prop} {dataDir : Option γ}
    (hJ : ∀ stagingRoot, J ⟨dataDir, none, stagingRoot⟩) (stagingRoot : Option (Folder γ φ)) :
    ∃ manifest, Valid options manifest ∧ PreviousRight hash dataDir manifest ∧
      Runs J (ensureRootlessV2Checkpoint hash options)
        ⟨dataDir, none, stagingRoot⟩ ⟨true, manifest.sourceAbsent⟩
        (rooted dataDir dataDir none manifest none none) := by
  refine ⟨{ sourceRelease := options.sourceRelease.getD SOURCE_RELEASE
            targetRelease := options.targetRelease.getD TARGET_RELEASE
            activeFingerprint := hash.of dataDir
            sourceAbsent := !dataDir.isSome }, valid_iff.2 ⟨rfl, rfl, rfl⟩, ?_, ?_⟩
  · simp [PreviousRight, currentPreviousState]
  · refine (Async.Yields.request (hJ stagingRoot)).bind ?_
    refine (Async.Yields.request (hJ stagingRoot)).bind ((Async.Yields.request (hJ none)).bind ?_)
    refine Async.Yields.bind (Async.Yields.attempt ?_) (Async.Yields.pure _ _)
    have hcopied : Runs J
        (Async.when (dataDir.isSome = true) (Program.copyTree .dataDir .stagedPrevious))
        ⟨dataDir, none, some {}⟩ () ⟨dataDir, none, some { previous := dataDir }⟩ := by
      cases dataDir with
      | none => exact Runs.when_of_not (by simp)
      | some tree => exact Runs.when_of rfl (Async.Yields.request (hJ _))
    have hpresent : Runs J (pathExists .dataDir)
        ⟨dataDir, none, some {}⟩ dataDir.isSome _ := runs_pathExists (hJ _) .dataDir
    have hprint : ∀ place, Disk.tree ⟨dataDir, none, some { previous := dataDir }⟩ place = dataDir →
        Runs J
          (fingerprintGeneration hash place !dataDir.isSome)
          ⟨dataDir, none, some { previous := dataDir }⟩ (hash.of dataDir) _ :=
      fun place hplace => runs_fingerprintGeneration (hJ _) hplace rfl
    refine hpresent.bind (hcopied.bind ?_)
    refine (hprint .dataDir rfl).bind ((hprint .stagedPrevious rfl).bind ?_)
    rw [if_neg (by simp)]
    refine (Async.Yields.request (hJ _)).bind ?_
    exact (Async.Yields.request (hJ _)).bind (Async.Yields.pure _ _)

end Kinetick.Rootless
