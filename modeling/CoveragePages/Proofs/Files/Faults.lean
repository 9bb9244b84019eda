/-
Processes whose operations may fail at any point. Looking answers what the disk has, or fails; directories
are made one at a time, up to any point; a file is written up to any point; a file is renamed at once, or
nothing is changed. A trial of a process is told by the disks that it goes through and by its result. What
the process does on the disk when nothing goes wrong is one of its trials.
-/
import CoveragePages.Proofs.Files.Directories
import CoveragePages.Proofs.Files.Process

namespace CoveragePages

open CoveragePages.Path

/-! ## Operations that may fail -/

/-- The disks that a change may go through, up to any point. -/
def FileStep.Way (disk : Disk) : FileStep → List Disk → Prop
  | createDirectories path, moments =>
    (disk :: moments).IsChain (Disk.MakesOne path)
  | write path content, moments => ∀ now ∈ moments, ∃ n, disk.write path (content.extract 0 n) = .ok now
  | rename source target, moments => ∀ now ∈ moments, moments = [now] ∧ disk.rename source target = .ok now

/-- A change that is tried on a disk, the disks that it goes through, and its answer. -/
structure FileStep.Tried (step : FileStep) (disk : Disk) (moments : List Disk) (answer : Except FileError Unit) :
    Prop where
  way : step.Way disk moments
  /-- A change goes well only if it is carried out as a whole. -/
  done : answer = .ok () → disk.perform step = (disk.after moments, .ok ())
  /-- A rename that fails changes nothing. -/
  undone : ∀ source target, step = .rename source target → ∀ e, answer = .error e → moments = []

section

variable {disk : Disk} {moments : List Disk}

theorem FileStep.Tried.write_ok {path : Path} {content : ByteArray}
    (h : (FileStep.write path content).Tried disk moments (.ok ())) :
    disk.write path content = .ok (disk.after moments) :=
  Disk.perform_write.1 (h.done rfl)

theorem FileStep.Tried.rename_ok {source target : Path}
    (h : (FileStep.rename source target).Tried disk moments (.ok ())) :
    disk.rename source target = .ok (disk.after moments) :=
  Disk.perform_rename.1 (h.done rfl)

end

/-- An operation that is tried on a disk. -/
def Operation.Tried (disk : Disk) (moments : List Disk) : (operation : Operation) → operation.Answer → Prop
  | .currentDirectory, answer =>
    moments = [] ∧ (answer = (Operation.currentDirectory.onDisk.run disk).1 ∨ ∃ e, answer = .error e)
  | .readFile path, answer => moments = [] ∧ (answer = disk.readFile path ∨ ∃ e, answer = .error e)
  | .kind? path, answer => moments = [] ∧ (answer = disk.kind? path ∨ answer = none)
  | .filesBelow path, answer => moments = [] ∧ answer = disk.filesBelow path
  | .perform step, answer => step.Tried disk moments answer

/-- A process that is tried on a disk: each operation starts where the one before has stopped. -/
def Process.Tried {α : Type} : Process α → Disk → List Disk → α → Prop
  | done a, _, moments, result => moments = [] ∧ result = a
  | ask operation next, disk, moments, result => ∃ here later answer, moments = here ++ later ∧
    operation.Tried disk here answer ∧ (next answer).Tried (disk.after here) later result

/-! ## Trials without faults -/

/-- What a change does on the disk is one of its trials. -/
theorem FileStep.tried_perform (step : FileStep) (disk : Disk) :
    ∃ moments, step.Tried disk moments (disk.perform step).2 ∧ disk.after moments = (disk.perform step).1 := by
  suffices h : ∃ moments, step.Way disk moments ∧ disk.after moments = (disk.perform step).1 ∧
      ∀ source target, step = .rename source target → ∀ e, (disk.perform step).2 = .error e → moments = [] by
    obtain ⟨moments, hway, hafter, hundone⟩ := h
    refine ⟨moments, ⟨hway, fun hok => ?_, hundone⟩, hafter⟩
    rw [hafter, ← hok]
  cases step with
  | createDirectories path =>
    obtain ⟨moments, hchain, hafter⟩ := Disk.grows_makeDirectories (path.parts.length + 1) path disk
    exact ⟨moments, hchain, hafter, nofun⟩
  | write path content =>
    cases hwrite : disk.write path content with
    | error e => exact ⟨[], nofun, by rw [Disk.perform, hwrite]; rfl, nofun⟩
    | ok now =>
      refine ⟨[now], List.forall_mem_singleton.2 ⟨content.size, ?_⟩, by rw [Disk.perform, hwrite]; rfl, nofun⟩
      rw [ByteArray.extract_zero_size, hwrite]
  | rename source target =>
    cases hrename : disk.rename source target with
    | error e => exact ⟨[], nofun, by rw [Disk.perform, hrename]; rfl, fun _ _ _ _ _ => rfl⟩
    | ok now =>
      refine ⟨[now], List.forall_mem_singleton.2 ⟨rfl, hrename⟩, by rw [Disk.perform, hrename]; rfl, ?_⟩
      rintro _ _ - e he
      rw [Disk.perform, hrename] at he
      cases he

theorem Operation.tried_onDisk (operation : Operation) (disk : Disk) :
    ∃ moments, operation.Tried disk moments (operation.onDisk.run disk).1 ∧
      disk.after moments = (operation.onDisk.run disk).2 := by
  cases operation with
  | currentDirectory => exact ⟨[], ⟨rfl, .inl rfl⟩, rfl⟩
  | readFile path => exact ⟨[], ⟨rfl, .inl rfl⟩, rfl⟩
  | kind? path => exact ⟨[], ⟨rfl, .inl rfl⟩, rfl⟩
  | filesBelow path => exact ⟨[], ⟨rfl, rfl⟩, rfl⟩
  | perform step => exact step.tried_perform disk

/-- What a process does on the disk when nothing goes wrong is one of its trials. -/
theorem Process.tried_onDisk {α : Type} (p : Process α) (disk : Disk) :
    ∃ moments, p.Tried disk moments (p.onDisk.run disk).1 ∧ disk.after moments = (p.onDisk.run disk).2 := by
  induction p generalizing disk with
  | done a => exact ⟨[], ⟨rfl, rfl⟩, rfl⟩
  | ask operation next ih =>
    obtain ⟨here, htried, hhere⟩ := operation.tried_onDisk disk
    obtain ⟨later, hlater, hafter⟩ := ih (operation.onDisk.run disk).1 (operation.onDisk.run disk).2
    refine ⟨here ++ later, ⟨here, later, _, rfl, htried, ?_⟩, ?_⟩
    · rw [hhere]
      exact hlater
    · rw [Disk.after_append, hhere]
      exact hafter

end CoveragePages
