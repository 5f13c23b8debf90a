import Kinetick.Rootless.Guarantees

/-!
# Steps of a swap

Between two generations a swap goes through three layouts: the upgraded one active, neither, or the
previous one active. Whatever layout a swap that died left, its recovery ends in that of its
direction, and each of the functions below does so by what the manifest says of the generations.
-/

namespace Kinetick.Rootless

section

variable {γ φ : Type}

/-- What a place holds, if anything. -/
def Hash.of (hash : Hash γ φ) : Option γ → φ
  | none => hash.ofAbsent
  | some tree => hash.ofTree tree

/-- A disk with a checkpoint. -/
def rooted (dataDir previous upgraded : Option γ) (manifest : GenerationManifest φ)
    (journal : Option SwapJournal) (stagingRoot : Option (Folder γ φ)) : Disk γ φ where
  dataDir
  root := some { previous, upgraded, manifest := some manifest, journal }
  stagingRoot

section

variable (dataDir previous upgraded : Option γ) (manifest : GenerationManifest φ)
  (journal : Option SwapJournal) (stagingRoot : Option (Folder γ φ))

@[simp] theorem tree_rooted_dataDir :
    (rooted dataDir previous upgraded manifest journal stagingRoot).tree .dataDir = dataDir := rfl

@[simp] theorem tree_rooted_previous :
    (rooted dataDir previous upgraded manifest journal stagingRoot).tree .previous = previous := rfl

@[simp] theorem tree_rooted_upgraded :
    (rooted dataDir previous upgraded manifest journal stagingRoot).tree .upgraded = upgraded := rfl

end

/-- The manifest says what the previous generation is. -/
def PreviousRight (hash : Hash γ φ) (previous : Option γ) (manifest : GenerationManifest φ) : Prop :=
  currentPreviousState manifest = ⟨previous.isSome, hash.of previous⟩

/-- The manifest says what the upgraded generation is. -/
def UpgradedRight (hash : Hash γ φ) (upgraded : γ) (manifest : GenerationManifest φ) : Prop :=
  manifest.upgradedFingerprint = some (hash.ofTree upgraded)

/-- The manifest is of the releases, and what it says of the previous generation is whole. -/
def Valid (options : ReleaseOptions) (manifest : GenerationManifest φ) : Prop :=
  decodeManifest manifest options = .ok manifest

/-- Where the generations are while they are swapped. -/
inductive Laid (previous : Option γ) (upgraded : γ) : Option γ → Option γ → Option γ → Prop
  | upgraded : Laid previous upgraded (some upgraded) previous none
  | neither (tree : γ) (h : previous = some tree) :
    Laid previous upgraded none (some tree) (some upgraded)
  | previous : Laid previous upgraded previous none (some upgraded)

/-- A disk on which nothing of the generations is lost, and a manifest by which any swap can be
carried on. -/
inductive Sound (hash : Hash γ φ) (options : ReleaseOptions) :
    Option γ → Option γ → Disk γ φ → Prop
  | unrooted (dataDir : Option γ) (stagingRoot : Option (Folder γ φ)) :
    Sound hash options dataDir dataDir ⟨dataDir, none, stagingRoot⟩
  | absent (manifest : GenerationManifest φ) (stagingRoot : Option (Folder γ φ))
    (hvalid : Valid options manifest) (hprevious : PreviousRight hash none manifest) :
    Sound hash options none none (rooted none none none manifest none stagingRoot)
  | upgraded (previous : Option γ) (upgraded : γ) (manifest : GenerationManifest φ)
    (stagingRoot : Option (Folder γ φ)) (hvalid : Valid options manifest)
    (hprevious : PreviousRight hash previous manifest) :
    Sound hash options previous (some upgraded)
      (rooted (some upgraded) previous none manifest none stagingRoot)
  | previous (previous : Option γ) (upgraded : γ) (manifest : GenerationManifest φ)
    (stagingRoot : Option (Folder γ φ)) (hvalid : Valid options manifest)
    (hupgraded : UpgradedRight hash upgraded manifest) :
    Sound hash options previous (some upgraded)
      (rooted previous none (some upgraded) manifest none stagingRoot)
  | swapping (previous : Option γ) (upgraded : γ) (dataDir previous' upgraded' : Option γ)
    (manifest : GenerationManifest φ) (journal : SwapJournal)
    (stagingRoot : Option (Folder γ φ)) (hlaid : Laid previous upgraded dataDir previous' upgraded')
    (hvalid : Valid options manifest) (hprevious : PreviousRight hash previous manifest)
    (hupgraded : UpgradedRight hash upgraded manifest) :
    Sound hash options previous (some upgraded)
      (rooted dataDir previous' upgraded' manifest (some journal) stagingRoot)

theorem Sound.withStaging {hash : Hash γ φ} {options : ReleaseOptions} {previous upgraded : Option γ}
    {disk : Disk γ φ} (h : Sound hash options previous upgraded disk)
    (left : Option (Folder γ φ)) :
    Sound hash options previous upgraded { disk with stagingRoot := left } := by
  cases h with
  | unrooted => exact .unrooted _ left
  | absent manifest _ hvalid hprevious => exact .absent manifest left hvalid hprevious
  | upgraded _ upgraded manifest _ hvalid hprevious =>
    exact .upgraded _ upgraded manifest left hvalid hprevious
  | previous _ upgraded manifest _ hvalid hupgraded =>
    exact .previous _ upgraded manifest left hvalid hupgraded
  | swapping _ upgraded _ _ _ manifest journal _ hlaid hvalid hprevious hupgraded =>
    exact .swapping _ upgraded _ _ _ manifest journal left hlaid hvalid hprevious hupgraded

end

section

variable {γ φ α : Type} {J : Disk γ φ → Prop} {disk disk' : Disk γ φ} {options : ReleaseOptions}

/-- The call ends in the answer, and on the disk, and dies only on disks in `J`. -/
abbrev Runs (J : Disk γ φ → Prop) (m : Program γ φ α) (disk : Disk γ φ) (a : α)
    (disk' : Disk γ φ) : Prop :=
  m.Yields Command.answer J disk a disk'

theorem Runs.when_of {c : Prop} [Decidable c] {m : Program γ φ Unit} (hc : c)
    (h : Runs J m disk () disk') : Runs J (Async.when c m) disk () disk' := by
  rwa [Async.when, if_pos hc]

theorem Runs.when_of_not {c : Prop} [Decidable c] {m : Program γ φ Unit} (hc : ¬ c) :
    Runs J (Async.when c m) disk () disk := by
  rw [Async.when, if_neg hc]
  exact Async.Yields.pure () disk

theorem runs_pathExists (h : J disk) (place : Place) :
    Runs J (pathExists place) disk (disk.tree place).isSome disk :=
  (Async.Yields.request h).bind (Async.Yields.pure _ disk)

theorem runs_rename (h : J disk) {source target : Place} (hsource : (disk.tree source).isSome)
    (htarget : disk.tree target = none) :
    Runs J (rename source target) disk ()
      ((disk.setTree (disk.tree source) target).setTree none source) := by
  have hdone : Command.answer (.rename source target) disk =
      (true, (disk.setTree (disk.tree source) target).setTree none source) :=
    if_pos ⟨hsource, by rw [htarget]; rfl⟩
  have hrun : Runs J (Program.renameTree source target) disk _ _ := Async.Yields.request h
  rw [hdone] at hrun
  exact hrun.bind (Async.Yields.pure () _)

theorem runs_readAndValidateManifest (h : J disk) {manifest : GenerationManifest φ}
    (hmanifest : disk.root.bind Folder.manifest = some manifest) (hvalid : Valid options manifest) :
    Runs J (readAndValidateManifest options) disk manifest disk := by
  refine (Async.Yields.request h).bind ?_
  dsimp only [Command.answer]
  rw [hmanifest]
  exact ⟨hvalid, rfl⟩

theorem runs_hasPreviousGenerationActiveLayout (h : J disk) :
    Runs J hasPreviousGenerationActiveLayout disk
      ((disk.tree .upgraded).isSome && !(disk.tree .previous).isSome) disk :=
  (runs_pathExists h .previous).bind ((runs_pathExists h .upgraded).bind (Async.Yields.pure _ disk))

theorem runs_fingerprintGeneration {hash : Hash γ φ} (h : J disk) {place : Place} {tree : Option γ} {absent : Bool}
    (htree : disk.tree place = tree) (habsent : absent = !tree.isSome) :
    Runs J (fingerprintGeneration hash place absent) disk (hash.of tree) disk := by
  unfold fingerprintGeneration
  cases tree with
  | none =>
    rw [habsent]
    refine (runs_pathExists h place).bind ?_
    rw [htree]
    exact Async.Yields.pure _ disk
  | some tree =>
    rw [habsent]
    refine (Async.Yields.request h).bind ?_
    dsimp only [Command.answer]
    rw [htree]
    exact Async.Yields.pure _ disk

end

section

variable {γ φ : Type} [DecidableEq φ] {hash : Hash γ φ} {options : ReleaseOptions}
  {J : Disk γ φ → Prop} {disk disk' : Disk γ φ} {manifest : GenerationManifest φ}
  {previous : Option γ} {upgraded : γ}

theorem runs_verifyActiveGeneration_previous (h : J disk) (htree : disk.tree .dataDir = previous)
    (hprevious : PreviousRight hash previous manifest) :
    Runs J (verifyActiveGeneration hash manifest .previous) disk () disk := by
  unfold verifyActiveGeneration
  rw [hprevious]
  refine (runs_fingerprintGeneration h htree (by simp)).bind ?_
  rw [if_neg (by simp)]
  exact Async.Yields.pure () disk

theorem runs_verifyActiveGeneration_upgraded (h : J disk)
    (htree : disk.tree .dataDir = some upgraded) (hupgraded : UpgradedRight hash upgraded manifest) :
    Runs J (verifyActiveGeneration hash manifest .upgraded) disk () disk := by
  unfold verifyActiveGeneration
  dsimp only
  rw [if_neg (by simp), hupgraded]
  refine (runs_fingerprintGeneration h htree (by simp)).bind ?_
  rw [if_neg (by simp [Hash.of])]
  exact Async.Yields.pure () disk

theorem runs_verifyPreviousCheckpoint (h : J disk) (htree : disk.tree .previous = previous)
    (hprevious : PreviousRight hash previous manifest) :
    Runs J (verifyPreviousCheckpoint hash manifest) disk () disk := by
  unfold verifyPreviousCheckpoint
  rw [hprevious]
  refine (runs_fingerprintGeneration h htree rfl).bind ?_
  rw [if_neg (by simp)]
  exact Async.Yields.pure () disk

theorem runs_detectStableGeneration_previous (h : J disk) (hdataDir : disk.tree .dataDir = previous)
    (hplace : disk.tree .previous = none) (hsaved : disk.tree .upgraded = some upgraded)
    (hprevious : PreviousRight hash previous manifest) :
    Runs J (detectStableGeneration hash manifest) disk .previous disk := by
  unfold detectStableGeneration
  refine (runs_pathExists h .dataDir).bind ((runs_pathExists h .previous).bind
    ((runs_pathExists h .upgraded).bind ?_))
  rw [hprevious, hplace, hsaved, hdataDir]
  dsimp only
  rw [if_pos (by simp)]
  exact (runs_verifyActiveGeneration_previous h hdataDir hprevious).bind (Async.Yields.pure _ disk)

theorem runs_detectStableGeneration_upgraded (h : J disk)
    (hdataDir : disk.tree .dataDir = some upgraded) (hplace : disk.tree .previous = previous)
    (hsaved : disk.tree .upgraded = none) (hprevious : PreviousRight hash previous manifest) :
    Runs J (detectStableGeneration hash manifest) disk .upgraded disk := by
  unfold detectStableGeneration
  refine (runs_pathExists h .dataDir).bind ((runs_pathExists h .previous).bind
    ((runs_pathExists h .upgraded).bind ?_))
  rw [hprevious, hplace, hsaved, hdataDir]
  dsimp only
  rw [if_neg (by simp), if_pos (by cases previous <;> rfl)]
  exact (runs_verifyPreviousCheckpoint h hplace hprevious).bind (Async.Yields.pure _ disk)

theorem throws_detectStableGeneration (h : J disk) (hdataDir : disk.tree .dataDir = none)
    (hsaved : disk.tree .upgraded = none) :
    (detectStableGeneration hash manifest).Throws Command.answer J disk disk := by
  unfold detectStableGeneration
  refine (runs_pathExists h .dataDir).bind_throws ((runs_pathExists h .previous).bind_throws
    ((runs_pathExists h .upgraded).bind_throws ?_))
  rw [hsaved, hdataDir]
  dsimp only
  rw [if_neg (by simp), if_neg (by simp)]
  exact Async.Throws.raise _ disk

/-! ### The manifest -/

theorem valid_iff : Valid options manifest ↔
    manifest.sourceRelease = options.sourceRelease.getD SOURCE_RELEASE ∧
      manifest.targetRelease = options.targetRelease.getD TARGET_RELEASE ∧
      manifest.previousFingerprint.isNone = manifest.previousPresent.isNone := by
  unfold Valid decodeManifest
  split_ifs with hsource htarget hprevious
  · simp [hsource]
  · simp [htarget]
  · simp [hprevious]
  · simp_all

/-- The active previous generation is published as it is. -/
theorem runs_publishPreviousFingerprint {place saved : Option γ} {journal : Option SwapJournal}
    {stagingRoot : Option (Folder γ φ)}
    (h : J (rooted previous place saved manifest journal stagingRoot))
    (hvalid : Valid options manifest) :
    ∃ manifest', Valid options manifest' ∧ PreviousRight hash previous manifest' ∧
      manifest'.upgradedFingerprint = manifest.upgradedFingerprint ∧
      Runs J (publishPreviousFingerprint hash manifest)
        (rooted previous place saved manifest journal stagingRoot) manifest'
        (rooted previous place saved manifest' journal stagingRoot) := by
  have hpresent : Runs J (pathExists .dataDir) _ previous.isSome _ := runs_pathExists h .dataDir
  have hprint : Runs J (fingerprintGeneration hash .dataDir !previous.isSome) _ (hash.of previous) _ :=
    runs_fingerprintGeneration h rfl rfl
  by_cases hsame : manifest.previousPresent = some previous.isSome ∧
      manifest.previousFingerprint = some (hash.of previous)
  · refine ⟨manifest, hvalid, ?_, rfl, ?_⟩
    · rw [PreviousRight, currentPreviousState, hsame.1, hsame.2]
      rfl
    · refine hpresent.bind (hprint.bind ?_)
      rw [if_pos hsame]
      exact Async.Yields.pure _ _
  · refine ⟨{ manifest with
      previousPresent := some previous.isSome, previousFingerprint := some (hash.of previous) },
      ?_, rfl, rfl, ?_⟩
    · obtain ⟨hsource, htarget, -⟩ := valid_iff.1 hvalid
      exact valid_iff.2 ⟨hsource, htarget, rfl⟩
    · refine hpresent.bind (hprint.bind ?_)
      rw [if_neg hsame]
      exact (Async.Yields.request h).bind (Async.Yields.pure _ _)

/-- The active upgraded generation is published as it is. -/
theorem runs_publishUpgradedFingerprint {place saved : Option γ} {journal : Option SwapJournal}
    {stagingRoot : Option (Folder γ φ)}
    (h : J (rooted (some upgraded) place saved manifest journal stagingRoot))
    (hvalid : Valid options manifest) (hprevious : PreviousRight hash previous manifest) :
    ∃ manifest', Valid options manifest' ∧ PreviousRight hash previous manifest' ∧
      UpgradedRight hash upgraded manifest' ∧
      Runs J (publishUpgradedFingerprint hash manifest)
        (rooted (some upgraded) place saved manifest journal stagingRoot) ()
        (rooted (some upgraded) place saved manifest' journal stagingRoot) := by
  have hprint : Runs J (fingerprintGeneration hash .dataDir false) _ (hash.ofTree upgraded) _ :=
    @runs_fingerprintGeneration _ _ _ _ hash h .dataDir (some upgraded) false rfl rfl
  by_cases hsame : manifest.upgradedFingerprint = some (hash.ofTree upgraded)
  · refine ⟨manifest, hvalid, hprevious, hsame, ?_⟩
    refine (runs_pathExists h .dataDir).bind (hprint.bind ?_)
    rw [if_neg (not_not.2 hsame)]
    exact Async.Yields.pure _ _
  · have hvalid := valid_iff.1 hvalid
    refine ⟨{ manifest with upgradedFingerprint := some (hash.ofTree upgraded) },
      valid_iff.2 hvalid, hprevious, rfl, ?_⟩
    refine (runs_pathExists h .dataDir).bind (hprint.bind ?_)
    rw [if_pos hsame]
    exact Async.Yields.request h

/-! ### Recoveries -/

section

variable {journal : Option SwapJournal} {stagingRoot : Option (Folder γ φ)}
  {dataDir place saved : Option γ}

/-- The data directory is where the upgraded generation is saved, and nothing in its place. -/
theorem Laid.moved (previous : Option γ) (upgraded : γ) :
    Laid previous upgraded none previous (some upgraded) := by
  cases previous with
  | none => exact .previous
  | some tree => exact .neither tree rfl

/-- With the upgraded generation saved, the previous one is moved to the data directory. -/
theorem runs_restorePrevious
    (hJ : ∀ {dataDir place saved}, Laid previous upgraded dataDir place saved →
      J (rooted dataDir place saved manifest journal stagingRoot))
    (hlaid : Laid previous upgraded dataDir place (some upgraded))
    (hprevious : PreviousRight hash previous manifest) :
    Runs J (do
        Async.when (previous.isSome = true) do
          let active ← pathExists .dataDir
          Async.when (active = false) do
            if ← pathExists .previous then rename .previous .dataDir
            else Async.raise "Previous generation is missing"
        verifyActiveGeneration hash manifest .previous)
      (rooted dataDir place (some upgraded) manifest journal stagingRoot) ()
      (rooted previous none (some upgraded) manifest journal stagingRoot) := by
  have hactive := @runs_verifyActiveGeneration_previous _ _ _ hash J _ _ _ (hJ Laid.previous) rfl
    hprevious
  cases hlaid with
  | neither tree htree =>
    subst htree
    have hneither := hJ (Laid.neither tree rfl)
    refine Async.Yields.bind (Runs.when_of rfl ?_) hactive
    refine (runs_pathExists hneither .dataDir).bind (Runs.when_of rfl ?_)
    exact (runs_pathExists hneither .previous).bind (runs_rename hneither rfl rfl)
  | previous =>
    cases previous with
    | none => exact Async.Yields.bind (Runs.when_of_not (by simp)) hactive
    | some tree =>
      refine Async.Yields.bind (Runs.when_of rfl ?_) hactive
      exact (runs_pathExists (hJ Laid.previous) .dataDir).bind (Runs.when_of_not (by simp))

/-- A rollback that died is carried on from wherever it was. -/
theorem runs_recoverRollback
    (hJ : ∀ {dataDir place saved}, Laid previous upgraded dataDir place saved →
      J (rooted dataDir place saved manifest journal stagingRoot))
    (hlaid : Laid previous upgraded dataDir place saved)
    (hprevious : PreviousRight hash previous manifest) :
    Runs J (recoverRollback hash manifest)
      (rooted dataDir place saved manifest journal stagingRoot) ()
      (rooted previous none (some upgraded) manifest journal stagingRoot) := by
  unfold recoverRollback
  rw [hprevious]
  refine (runs_pathExists (hJ hlaid) .upgraded).bind ?_
  cases hlaid with
  | upgraded =>
    have hfirst := hJ (Laid.upgraded : Laid previous upgraded (some upgraded) previous none)
    refine Async.Yields.bind (Runs.when_of rfl ?_)
      (runs_restorePrevious hJ (Laid.moved previous upgraded) hprevious)
    exact (runs_pathExists hfirst .dataDir).bind (runs_rename hfirst rfl rfl)
  | neither tree htree =>
    exact Async.Yields.bind (Runs.when_of_not (by simp))
      (runs_restorePrevious hJ (.neither tree htree) hprevious)
  | previous =>
    exact Async.Yields.bind (Runs.when_of_not (by simp))
      (runs_restorePrevious hJ .previous hprevious)

/-- With the previous generation in its place, the upgraded one is moved to the data directory. -/
theorem runs_restoreUpgraded
    (hJ : ∀ {dataDir place saved}, Laid previous upgraded dataDir place saved →
      J (rooted dataDir place saved manifest journal stagingRoot))
    (hlaid : dataDir = some upgraded ∧ saved = none ∨ dataDir = none ∧ saved = some upgraded)
    (hupgraded : UpgradedRight hash upgraded manifest) :
    Runs J (do
        let active ← pathExists .dataDir
        Async.when (active = false) do
          if ← pathExists .upgraded then rename .upgraded .dataDir
          else Async.raise "Upgraded generation is missing"
        verifyActiveGeneration hash manifest .upgraded)
      (rooted dataDir previous saved manifest journal stagingRoot) ()
      (rooted (some upgraded) previous none manifest journal stagingRoot) := by
  have hactive := @runs_verifyActiveGeneration_upgraded _ _ _ hash J _ _ _ (hJ Laid.upgraded) rfl
    hupgraded
  obtain ⟨rfl, rfl⟩ | ⟨rfl, rfl⟩ := hlaid
  · refine (runs_pathExists (hJ .upgraded) .dataDir).bind ?_
    exact Async.Yields.bind (Runs.when_of_not (by simp)) hactive
  · have hmoved := hJ (Laid.moved previous upgraded)
    refine (runs_pathExists hmoved .dataDir).bind ?_
    refine Async.Yields.bind (Runs.when_of rfl ?_) hactive
    exact (runs_pathExists hmoved .upgraded).bind (runs_rename hmoved rfl rfl)

/-- An upgrade that died is carried on from wherever it was. -/
theorem runs_recoverReupgrade
    (hJ : ∀ {dataDir place saved}, Laid previous upgraded dataDir place saved →
      J (rooted dataDir place saved manifest journal stagingRoot))
    (hlaid : Laid previous upgraded dataDir place saved)
    (hprevious : PreviousRight hash previous manifest)
    (hupgraded : UpgradedRight hash upgraded manifest) :
    Runs J (recoverReupgrade hash manifest)
      (rooted dataDir place saved manifest journal stagingRoot) ()
      (rooted (some upgraded) previous none manifest journal stagingRoot) := by
  unfold recoverReupgrade
  rw [hprevious]
  cases previous with
  | none =>
    refine Async.Yields.bind (Runs.when_of_not (by simp)) ?_
    cases hlaid with
    | upgraded => exact runs_restoreUpgraded hJ (.inl ⟨rfl, rfl⟩) hupgraded
    | neither tree htree => cases htree
    | previous => exact runs_restoreUpgraded hJ (.inr ⟨rfl, rfl⟩) hupgraded
  | some tree =>
    cases hlaid with
    | upgraded =>
      refine Async.Yields.bind (Runs.when_of rfl ?_)
        (runs_restoreUpgraded hJ (.inl ⟨rfl, rfl⟩) hupgraded)
      exact (runs_pathExists (hJ .upgraded) .previous).bind
        (Runs.when_of_not (by simp))
    | neither tree' htree =>
      cases htree
      refine Async.Yields.bind (Runs.when_of rfl ?_)
        (runs_restoreUpgraded hJ (.inr ⟨rfl, rfl⟩) hupgraded)
      exact (runs_pathExists (hJ (.neither tree rfl)) .previous).bind
        (Runs.when_of_not (by simp))
    | previous =>
      have hfirst := hJ (Laid.previous :
        Laid (some tree) upgraded (some tree) none (some upgraded))
      refine Async.Yields.bind (Runs.when_of rfl ?_)
        (runs_restoreUpgraded hJ (.inr ⟨rfl, rfl⟩) hupgraded)
      refine (runs_pathExists hfirst .previous).bind (Runs.when_of rfl ?_)
      exact (runs_pathExists hfirst .dataDir).bind (runs_rename hfirst rfl rfl)

end

end

end Kinetick.Rootless
