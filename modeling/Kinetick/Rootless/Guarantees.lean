import Kinetick.Machine
import Kinetick.Rootless.Generation

/-!
# What is kept of the generations

The site of an installation: its disk, and beside it what the generations are, whichever folder they
are in, and which of them the last call left active. Runtimes write the active generation, and calls
change which it is. A call may die at any of its commands, and then the folder that a checkpoint is
made in may hold anything.
-/

namespace Kinetick.Rootless

/-- The contents of the generations as last written, and the active one. -/
structure Generations (γ : Type) where
  previous : Option γ
  upgraded : Option γ
  active : Generation

namespace Generations

variable {γ : Type}

def content (generations : Generations γ) : Generation → Option γ
  | .previous => generations.previous
  | .upgraded => generations.upgraded

/-- Content is written to the active generation. -/
def write (content : γ) (generations : Generations γ) : Generations γ :=
  match generations.active with
  | .previous => { generations with previous := some content }
  | .upgraded => { generations with upgraded := some content }

def activate (generation : Generation) (generations : Generations γ) : Generations γ :=
  { generations with active := generation }

end Generations

/-- The site: `rollbackBegun` says that a rollback died since a call last ended, and `settled` that
the last call ended. -/
structure Site (γ φ : Type) where
  disk : Disk γ φ
  generations : Generations γ
  rollbackBegun : Bool
  settled : Bool

/-- Before there is a checkpoint, the data directory is what both generations are. -/
def Site.start {γ φ : Type} (dataDir : Option γ) (stagingRoot : Option (Folder γ φ)) :
    Site γ φ where
  disk := { dataDir, root := none, stagingRoot }
  generations := { previous := dataDir, upgraded := dataDir, active := .upgraded }
  rollbackBegun := false
  settled := true

inductive Call
  | ensure
  | switch (direction : SwapDirection)
  deriving DecidableEq

inductive Event (γ φ : Type)
  | write (content : γ)
  | call (call : Call)
  | crash (call : Call) (asks : ℕ) (left : Option (Folder γ φ))

/-- How an event ended. -/
inductive Outcome
  | wrote
  | checkpoint (result : Except String RootlessV2CheckpointResult)
  | swap (result : Except String RootlessV2GenerationSwapResult)
  | died

section

variable {γ φ : Type} [DecidableEq φ] (hash : Hash γ φ) (options : ReleaseOptions)

/-- What a call that died leaves on the disk, but for the folder of its staging. -/
def Call.cut (asks : ℕ) (disk : Disk γ φ) : Call → Disk γ φ
  | .ensure => (ensureRootlessV2Checkpoint hash options).cut Command.answer asks disk
  | .switch direction =>
    (switchRootlessV2Generation hash options direction).cut Command.answer asks disk

def Site.step (site : Site γ φ) : Event γ φ → Site γ φ × Outcome
  | .write content =>
    let disk := { site.disk with dataDir := some content }
    let generations :=
      if site.disk.root.isSome then site.generations.write content
      else { site.generations with previous := some content, upgraded := some content }
    ({ site with disk, generations }, .wrote)
  | .call .ensure =>
    let (result, disk) := (ensureRootlessV2Checkpoint hash options).perform Command.answer site.disk
    let generation := if result.isOk then Generation.upgraded else .previous
    ({ disk, generations := site.generations.activate generation, rollbackBegun := false,
       settled := true }, .checkpoint result)
  | .call (.switch direction) =>
    let (result, disk) :=
      (switchRootlessV2Generation hash options direction).perform Command.answer site.disk
    let generations :=
      if result.isOk then site.generations.activate (requestedGeneration direction)
      else site.generations
    ({ disk, generations, rollbackBegun := false, settled := true }, .swap result)
  | .crash call asks left =>
    let disk := { call.cut hash options asks site.disk with stagingRoot := left }
    let rollbackBegun :=
      site.rollbackBegun || (site.disk.root.isSome && call = .switch .rollback)
    ({ site with disk, rollbackBegun, settled := false }, .died)

/-- The site as a machine. -/
def sites : Machine (Site γ φ) (Event γ φ) Outcome where
  initial := Site.start none none
  step := Site.step hash options

/-- Runtimes write only after a call that ended. -/
def Permitted (site : Site γ φ) : Event γ φ → Prop
  | .write _ => site.settled = true
  | _ => True

/-- There is no checkpoint, or some generation is in some place. -/
def Disk.Started (disk : Disk γ φ) : Prop :=
  disk.root.isSome = true →
    (disk.tree .dataDir).isSome = true ∨ (disk.tree .previous).isSome = true ∨
      (disk.tree .upgraded).isSome = true

/-- A call that runs to its end does not find the checkpoint of an absent directory beside a
directory that is still absent. -/
def Started (site : Site γ φ) : Event γ φ → Prop
  | .call _ => site.disk.Started
  | _ => True

instance decidablePermitted (site : Site γ φ) (event : Event γ φ) :
    Decidable (Permitted site event) :=
  match event with
  | .write _ => inferInstanceAs (Decidable (site.settled = true))
  | .call _ => .isTrue trivial
  | .crash _ _ _ => .isTrue trivial

instance decidableStarted (site : Site γ φ) (event : Event γ φ) : Decidable (Started site event) :=
  match event with
  | .write _ => .isTrue trivial
  | .call _ => inferInstanceAs (Decidable (_ → _))
  | .crash _ _ _ => .isTrue trivial

/-- Once there is a checkpoint, each generation is in one place with what was last written to it,
and nothing else is in any. -/
def Held (disk : Disk γ φ) (generations : Generations γ) : Prop :=
  disk.root.isSome = true →
    disk.tree .dataDir = generations.upgraded ∧ disk.tree .previous = generations.previous ∧
        disk.tree .upgraded = none ∨
      disk.tree .dataDir = none ∧ disk.tree .previous = generations.previous ∧
        disk.tree .upgraded = generations.upgraded ∨
      disk.tree .dataDir = generations.previous ∧ disk.tree .previous = none ∧
        disk.tree .upgraded = generations.upgraded

/-- The previous generation is active, or a rollback is under way. -/
def Disk.RolledBack (disk : Disk γ φ) : Prop :=
  match disk.root.bind Folder.journal with
  | some journal => journal.operation = .rollback
  | none => (disk.tree .upgraded).isSome = true

/-- The call that ended did what it is for. A switch has made the requested generation active. There
is a checkpoint, and the upgraded generation is active, unless it was rolled back, which is not so
where it was active and no rollback died since. -/
def Done (site : Site γ φ) (after : Site γ φ) : Outcome → Event γ φ → Prop
  | .swap result, .call (.switch direction) =>
    site.disk.root.isSome = true →
      (∃ changed, result =
        .ok { changed, activeGeneration := requestedGeneration direction }) ∧
      after.disk.dataDir = site.generations.content (requestedGeneration direction)
  | .checkpoint result, .call .ensure =>
    (site.generations.active = .upgraded → site.rollbackBegun = false →
      ¬ site.disk.RolledBack) ∧
    (¬ site.disk.RolledBack →
      (∃ sourceAbsent, result = .ok { created := site.disk.root.isNone, sourceAbsent }) ∧
      after.disk.root.isSome = true ∧ after.disk.dataDir = site.generations.upgraded) ∧
    (site.disk.RolledBack →
      result.isOk = false ∧ after.disk.dataDir = site.generations.previous)
  | _, _ => True

/-- The event leaves each generation in its one place, and a call did what it is for. -/
def Kept (site : Site γ φ) (event : Event γ φ) : Prop :=
  Held (site.step hash options event).1.disk (site.step hash options event).1.generations ∧
    Done site (site.step hash options event).1 (site.step hash options event).2 event

end

end Kinetick.Rootless
