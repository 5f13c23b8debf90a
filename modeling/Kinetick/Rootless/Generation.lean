import Kinetick.Crash

/-!
# Generations of the data directory

`rootless-v2-generation.ts`: before an upgrade first runs, a checkpoint keeps a copy of the data
directory. A rollback moves the directory into the checkpoint and the copy into its place, and an
upgrade that follows moves them back. Each is two renames, around which a journal says what is going
on, and the manifest of the checkpoint says what the generations are by their fingerprints.

A directory is what it holds, of whatever kind, and is moved, copied and hashed as a whole.
-/

namespace Kinetick.Rootless

def SOURCE_RELEASE : String := "previewtrain-root-v1"

def TARGET_RELEASE : String := "desktop-rootless-v2"

inductive SwapDirection
  | rollback
  | reupgrade
  deriving DecidableEq

inductive Generation
  | previous
  | upgraded
  deriving DecidableEq

inductive JournalStage
  | prepared
  | activeSaved
  | targetActivated
  deriving DecidableEq

structure SwapJournal where
  operation : SwapDirection
  stage : JournalStage
  deriving DecidableEq

structure GenerationManifest (φ : Type) where
  sourceRelease : String
  targetRelease : String
  activeFingerprint : φ
  sourceAbsent : Bool
  upgradedFingerprint : Option φ := none
  previousFingerprint : Option φ := none
  previousPresent : Option Bool := none

/-- The folder of the checkpoint, in its place or where it is made. -/
structure Folder (γ φ : Type) where
  previous : Option γ := none
  upgraded : Option γ := none
  manifest : Option (GenerationManifest φ) := none
  journal : Option SwapJournal := none

structure Disk (γ φ : Type) where
  dataDir : Option γ
  root : Option (Folder γ φ)
  stagingRoot : Option (Folder γ φ)

/-- Where a generation may be. -/
inductive Place
  | dataDir
  | previous
  | upgraded
  | stagedPrevious
  deriving DecidableEq

namespace Disk

variable {γ φ : Type}

def tree (disk : Disk γ φ) : Place → Option γ
  | .dataDir => disk.dataDir
  | .previous => disk.root.bind Folder.previous
  | .upgraded => disk.root.bind Folder.upgraded
  | .stagedPrevious => disk.stagingRoot.bind Folder.previous

def inRoot (f : Folder γ φ → Folder γ φ) (disk : Disk γ φ) : Disk γ φ :=
  { disk with root := disk.root.map f }

def inStaging (f : Folder γ φ → Folder γ φ) (disk : Disk γ φ) : Disk γ φ :=
  { disk with stagingRoot := disk.stagingRoot.map f }

def setTree (tree : Option γ) : Place → Disk γ φ → Disk γ φ
  | .dataDir, disk => { disk with dataDir := tree }
  | .previous, disk => disk.inRoot fun folder => { folder with previous := tree }
  | .upgraded, disk => disk.inRoot fun folder => { folder with upgraded := tree }
  | .stagedPrevious, disk => disk.inStaging fun folder => { folder with previous := tree }

end Disk

/-- What is done on the disk at once. -/
inductive Command (γ φ : Type)
  | rootExists
  | read (place : Place)
  | rename (source target : Place)
  | readManifest
  | writeManifest (manifest : GenerationManifest φ)
  | readJournal
  | writeJournal (journal : SwapJournal)
  | removeJournal
  | removeStagingRoot
  | makeStagingRoot
  | copy (source target : Place)
  | writeStagedManifest (manifest : GenerationManifest φ)
  | publishStagingRoot

namespace Command

variable {γ φ : Type}

def Answer : Command γ φ → Type
  | rootExists => Bool
  | read _ => Option γ
  | rename _ _ => Bool
  | readManifest => Option (GenerationManifest φ)
  | readJournal => Option SwapJournal
  | publishStagingRoot => Bool
  | _ => Unit

/-- What the disk answers and becomes. A directory is moved where nothing is. -/
def answer : (command : Command γ φ) → Disk γ φ → command.Answer × Disk γ φ
  | rootExists, disk => (disk.root.isSome, disk)
  | read place, disk => (disk.tree place, disk)
  | rename source target, disk =>
    if (disk.tree source).isSome ∧ (disk.tree target).isNone then
      (true, (disk.setTree (disk.tree source) target).setTree none source)
    else (false, disk)
  | readManifest, disk => (disk.root.bind Folder.manifest, disk)
  | writeManifest manifest, disk =>
    ((), disk.inRoot fun folder => { folder with manifest := some manifest })
  | readJournal, disk => (disk.root.bind Folder.journal, disk)
  | writeJournal journal, disk =>
    ((), disk.inRoot fun folder => { folder with journal := some journal })
  | removeJournal, disk => ((), disk.inRoot fun folder => { folder with journal := none })
  | removeStagingRoot, disk => ((), { disk with stagingRoot := none })
  | makeStagingRoot, disk => ((), { disk with stagingRoot := some {} })
  | copy source target, disk => ((), disk.setTree (disk.tree source) target)
  | writeStagedManifest manifest, disk =>
    ((), disk.inStaging fun folder => { folder with manifest := some manifest })
  | publishStagingRoot, disk =>
    if disk.stagingRoot.isSome ∧ disk.root.isNone then
      (true, { disk with root := disk.stagingRoot, stagingRoot := none })
    else (false, disk)

end Command

/-- A call works on the disk and answers or throws with a message. -/
abbrev Program (γ φ α : Type) := Async (Command γ φ) Command.Answer String α

namespace Program

variable {γ φ : Type}

def rootExists : Program γ φ Bool := Async.request Command.rootExists

def readTree (place : Place) : Program γ φ (Option γ) := Async.request (Command.read place)

def renameTree (source target : Place) : Program γ φ Bool :=
  Async.request (Command.rename source target)

def readManifest : Program γ φ (Option (GenerationManifest φ)) := Async.request Command.readManifest

def writeManifest (manifest : GenerationManifest φ) : Program γ φ Unit :=
  Async.request (Command.writeManifest manifest)

def readJournal : Program γ φ (Option SwapJournal) := Async.request Command.readJournal

def writeJournal (operation : SwapDirection) (stage : JournalStage) : Program γ φ Unit :=
  Async.request (Command.writeJournal ⟨operation, stage⟩)

def removeJournal : Program γ φ Unit := Async.request Command.removeJournal

def removeStagingRoot : Program γ φ Unit := Async.request Command.removeStagingRoot

def makeStagingRoot : Program γ φ Unit := Async.request Command.makeStagingRoot

def copyTree (source target : Place) : Program γ φ Unit := Async.request (Command.copy source target)

def writeStagedManifest (manifest : GenerationManifest φ) : Program γ φ Unit :=
  Async.request (Command.writeStagedManifest manifest)

def publishStagingRoot : Program γ φ Bool := Async.request Command.publishStagingRoot

end Program

open Program

/-- The fingerprint of what a directory holds, and of one that is absent. -/
structure Hash (γ φ : Type) where
  ofTree : γ → φ
  ofAbsent : φ

structure ReleaseOptions where
  sourceRelease : Option String := none
  targetRelease : Option String := none

structure RootlessV2CheckpointResult where
  created : Bool
  sourceAbsent : Bool
  deriving DecidableEq

structure RootlessV2GenerationSwapResult where
  changed : Bool
  activeGeneration : Generation
  deriving DecidableEq

/-- What the manifest says of the previous generation. -/
structure PreviousState (φ : Type) where
  present : Bool
  fingerprint : φ

section

variable {γ φ : Type}

def currentPreviousState (manifest : GenerationManifest φ) : PreviousState φ where
  present := manifest.previousPresent.getD !manifest.sourceAbsent
  fingerprint := manifest.previousFingerprint.getD manifest.activeFingerprint

def decodeManifest (raw : GenerationManifest φ) (releases : ReleaseOptions) :
    Except String (GenerationManifest φ) :=
  if raw.sourceRelease ≠ releases.sourceRelease.getD SOURCE_RELEASE then
    .error "Checkpoint source release does not match"
  else if raw.targetRelease ≠ releases.targetRelease.getD TARGET_RELEASE then
    .error "Checkpoint target release does not match"
  else if raw.previousFingerprint.isNone ≠ raw.previousPresent.isNone then
    .error "Checkpoint current previous-generation state is incomplete"
  else .ok raw

def readAndValidateManifest (releases : ReleaseOptions) : Program γ φ (GenerationManifest φ) := do
  match ← readManifest with
  | none => Async.raise "ENOENT"
  | some raw => .ret (decodeManifest raw releases)

def pathExists (place : Place) : Program γ φ Bool := do
  return (← readTree place).isSome

def rename (source target : Place) : Program γ φ Unit := do
  if ← renameTree source target then pure () else Async.raise "ENOENT"

def hasPreviousGenerationActiveLayout : Program γ φ Bool := do
  let previous ← pathExists .previous
  let upgraded ← pathExists .upgraded
  return upgraded && !previous

end

section

variable {γ φ : Type} [DecidableEq φ] (hash : Hash γ φ)

def fingerprintGeneration (place : Place) (absent : Bool) : Program γ φ φ :=
  if absent then do
    if ← pathExists place then Async.raise "Expected generation to be absent"
    else return hash.ofAbsent
  else do
    match ← readTree place with
    | none => Async.raise "ENOENT"
    | some tree => return hash.ofTree tree

def verifyActiveGeneration (manifest : GenerationManifest φ) (generation : Generation) :
    Program γ φ Unit := do
  let previousState := currentPreviousState manifest
  let expected := if generation = .previous then some previousState.fingerprint
    else manifest.upgradedFingerprint
  match expected with
  | none => Async.raise "Upgraded generation fingerprint is missing"
  | some expected =>
    let actual ← fingerprintGeneration hash .dataDir
      (decide (generation = .previous) && !previousState.present)
    if actual ≠ expected then Async.raise "Active generation fingerprint mismatch"
    else pure ()

def verifyPreviousCheckpoint (manifest : GenerationManifest φ) : Program γ φ Unit := do
  let previousState := currentPreviousState manifest
  let actual ← fingerprintGeneration hash .previous !previousState.present
  if actual ≠ previousState.fingerprint then Async.raise "Previous checkpoint is inconsistent"
  else pure ()

def publishPreviousFingerprint (manifest : GenerationManifest φ) :
    Program γ φ (GenerationManifest φ) := do
  let previousPresent ← pathExists .dataDir
  let previousFingerprint ← fingerprintGeneration hash .dataDir !previousPresent
  if manifest.previousPresent = some previousPresent ∧
      manifest.previousFingerprint = some previousFingerprint then
    return manifest
  else
    let next := { manifest with
      previousPresent := some previousPresent, previousFingerprint := some previousFingerprint }
    writeManifest next
    return next

def publishUpgradedFingerprint (manifest : GenerationManifest φ) : Program γ φ Unit := do
  if ← pathExists .dataDir then
    let upgradedFingerprint ← fingerprintGeneration hash .dataDir false
    if manifest.upgradedFingerprint ≠ some upgradedFingerprint then
      writeManifest { manifest with upgradedFingerprint := some upgradedFingerprint }
    else pure ()
  else Async.raise "Active upgraded generation is missing"

/-- The generation that is active while no swap is under way. -/
def detectStableGeneration (manifest : GenerationManifest φ) : Program γ φ Generation := do
  let active ← pathExists .dataDir
  let previous ← pathExists .previous
  let upgraded ← pathExists .upgraded
  let previousState := currentPreviousState manifest
  if upgraded && !previous && active == previousState.present then
    verifyActiveGeneration hash manifest .previous
    return .previous
  else
    let expectedPrevious := if previousState.present then previous else !previous
    if active && !upgraded && expectedPrevious then
      verifyPreviousCheckpoint hash manifest
      return .upgraded
    else Async.raise "Generation layout is inconsistent"

def recoverRollback (manifest : GenerationManifest φ) : Program γ φ Unit := do
  let previousPresent := (currentPreviousState manifest).present
  let upgraded ← pathExists .upgraded
  Async.when (upgraded = false) do
    if ← pathExists .dataDir then rename .dataDir .upgraded
    else Async.raise "Rollback source is missing"
  Async.when (previousPresent = true) do
    let active ← pathExists .dataDir
    Async.when (active = false) do
      if ← pathExists .previous then rename .previous .dataDir
      else Async.raise "Previous generation is missing"
  verifyActiveGeneration hash manifest .previous

def recoverReupgrade (manifest : GenerationManifest φ) : Program γ φ Unit := do
  let previousPresent := (currentPreviousState manifest).present
  Async.when (previousPresent = true) do
    let previous ← pathExists .previous
    Async.when (previous = false) do
      if ← pathExists .dataDir then rename .dataDir .previous
      else Async.raise "Previous active generation is missing"
  let active ← pathExists .dataDir
  Async.when (active = false) do
    if ← pathExists .upgraded then rename .upgraded .dataDir
    else Async.raise "Upgraded generation is missing"
  verifyActiveGeneration hash manifest .upgraded

def recoverSwapJournal (manifest : GenerationManifest φ) : Program γ φ Bool := do
  match ← readJournal with
  | none => return false
  | some journal =>
    match journal.operation with
    | .rollback => recoverRollback hash manifest
    | .reupgrade => recoverReupgrade hash manifest
    removeJournal
    return true

/-- The generation that a swap makes active. -/
def requestedGeneration : SwapDirection → Generation
  | .rollback => .previous
  | .reupgrade => .upgraded

def executeSwap (manifest : GenerationManifest φ) (direction : SwapDirection) :
    Program γ φ Unit := do
  let previousPresent := (currentPreviousState manifest).present
  match direction with
  | .rollback =>
    rename .dataDir .upgraded
    writeJournal direction .activeSaved
    Async.when (previousPresent = true) do rename .previous .dataDir
  | .reupgrade =>
    Async.when (previousPresent = true) do
      rename .dataDir .previous
      writeJournal direction .activeSaved
    rename .upgraded .dataDir
  writeJournal direction .targetActivated
  verifyActiveGeneration hash manifest (requestedGeneration direction)
  removeJournal

/-- Publishes what the previous generation is now, where it is the one that is active. -/
def publishWhereActive (manifest : GenerationManifest φ) :
    Program γ φ (GenerationManifest φ) := do
  if ← hasPreviousGenerationActiveLayout then publishPreviousFingerprint hash manifest
  else return manifest

/-- Publishes it before a rollback that died is carried on. -/
def publishPending (pendingJournal : Option SwapJournal) (manifest : GenerationManifest φ) :
    Program γ φ (GenerationManifest φ) :=
  if pendingJournal.map SwapJournal.operation = some .rollback then publishWhereActive hash manifest
  else pure manifest

/-- From the generation that is active, swaps to the one that is requested. -/
def swapFrom (options : ReleaseOptions) (manifest : GenerationManifest φ)
    (direction : SwapDirection) (recovered : Bool) (activeGeneration : Generation) :
    Program γ φ RootlessV2GenerationSwapResult := do
  if activeGeneration = requestedGeneration direction then
    return { changed := recovered, activeGeneration }
  else
    Async.when (direction = .rollback) do publishUpgradedFingerprint hash manifest
    let currentManifest ← readAndValidateManifest options
    writeJournal direction .prepared
    executeSwap hash currentManifest direction
    return { changed := true, activeGeneration := requestedGeneration direction }

/-- Carries on a swap that died, and then swaps the generations. -/
def switchRootlessV2Generation (options : ReleaseOptions) (direction : SwapDirection) :
    Program γ φ RootlessV2GenerationSwapResult := do
  let manifest ← readAndValidateManifest options
  let pendingJournal ← readJournal
  let manifest ← publishPending hash pendingJournal manifest
  let recovered ← recoverSwapJournal hash manifest
  let manifest ← readAndValidateManifest options
  let manifest ← publishWhereActive hash manifest
  let activeGeneration ← detectStableGeneration hash manifest
  swapFrom hash options manifest direction recovered activeGeneration

/-- Makes a checkpoint in its staging place and moves it to where it is looked for. -/
def createCheckpoint (options : ReleaseOptions) : Program γ φ RootlessV2CheckpointResult := do
  let active ← pathExists .dataDir
  let sourceAbsent := !active
  Async.when (active = true) do copyTree .dataDir .stagedPrevious
  let activeFingerprint ← fingerprintGeneration hash .dataDir sourceAbsent
  let copiedFingerprint ← fingerprintGeneration hash .stagedPrevious sourceAbsent
  if activeFingerprint ≠ copiedFingerprint then Async.raise "Checkpoint fingerprint mismatch"
  else
    writeStagedManifest {
      sourceRelease := options.sourceRelease.getD SOURCE_RELEASE
      targetRelease := options.targetRelease.getD TARGET_RELEASE
      activeFingerprint
      sourceAbsent }
    if ← publishStagingRoot then return { created := true, sourceAbsent }
    else Async.raise "ENOTEMPTY"

def verifyCheckpoint (options : ReleaseOptions) : Program γ φ RootlessV2CheckpointResult := do
  let manifest ← readAndValidateManifest options
  let journal ← readJournal
  Async.when (journal.isSome = true) do
    let _ ← recoverSwapJournal hash manifest
  let activeGeneration ← detectStableGeneration hash manifest
  if activeGeneration ≠ .upgraded then
    Async.raise "Previous generation is active; re-upgrade is required"
  else
    verifyPreviousCheckpoint hash manifest
    return { created := false, sourceAbsent := manifest.sourceAbsent }

def publishCheckpoint (options : ReleaseOptions) : Program γ φ RootlessV2CheckpointResult := do
  removeStagingRoot
  makeStagingRoot
  match ← (createCheckpoint hash options).attempt with
  | .ok result => return result
  | .error error =>
    removeStagingRoot
    Async.raise error

/-- Makes the checkpoint, or verifies the one there is. -/
def ensureRootlessV2Checkpoint (options : ReleaseOptions) :
    Program γ φ RootlessV2CheckpointResult := do
  if ← rootExists then verifyCheckpoint hash options else publishCheckpoint hash options

end

end Kinetick.Rootless
