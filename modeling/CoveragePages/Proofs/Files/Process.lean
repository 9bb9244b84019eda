/-
Programs by their file operations. A program that works on any file system is also a process: it asks
for one operation after the other and goes on from the answers. Processes take turns on a disk; a
process that takes all of its turns in a row does what the program does on the disk.
-/
import CoveragePages.Files.Disk

namespace CoveragePages

/-! ## Operations -/

/-- An operation on a file system. -/
inductive Operation where
  | currentDirectory
  | readFile (path : Path)
  | kind? (path : Path)
  | filesBelow (path : Path)
  | perform (step : FileStep)

/-- What an operation answers. -/
def Operation.Answer : Operation → Type
  | currentDirectory => Except FileError Path
  | readFile _ => Except FileError ByteArray
  | kind? _ => Option EntryKind
  | filesBelow _ => List Location
  | perform _ => Except FileError Unit

/-- An operation on a disk. -/
def Operation.onDisk : (operation : Operation) → StateM Disk operation.Answer
  | currentDirectory => FileStore.currentDirectory
  | readFile path => FileStore.readFile path
  | kind? path => FileStore.kind? path
  | filesBelow path => FileStore.filesBelow path
  | perform step => FileStore.perform step

/-! ## Processes -/

/-- A program as the operations it asks for, one after the other. -/
inductive Process (α : Type) where
  | done (result : α)
  | ask (operation : Operation) (next : operation.Answer → Process α)

namespace Process

variable {α β : Type}

/-- A process that goes on with another one. -/
def bind (p : Process α) (f : α → Process β) : Process β :=
  match p with
  | done a => f a
  | ask operation next => ask operation fun answer => (next answer).bind f

instance : Monad Process where
  pure := done
  bind := bind

theorem bind_done (p : Process α) : p >>= done = p := by
  induction p with
  | done a => rfl
  | ask operation next ih => exact congrArg (ask operation) (funext ih)

theorem bind_assoc {γ : Type} (p : Process α) (f : α → Process β) (g : β → Process γ) :
    p >>= f >>= g = p >>= fun a => f a >>= g := by
  induction p with
  | done a => rfl
  | ask operation next ih => exact congrArg (ask operation) (funext ih)

instance : LawfulMonad Process := .mk' Process
  (fun p => bind_done p)
  (fun _ _ => rfl)
  (fun p f g => bind_assoc p f g)

instance : FileStore Process where
  currentDirectory := ask .currentDirectory done
  readFile path := ask (.readFile path) done
  kind? path := ask (.kind? path) done
  filesBelow path := ask (.filesBelow path) done
  perform step := ask (.perform step) done

/-! ## Turns -/

/-- One turn of a process: its next operation. -/
def turn (p : Process α) (disk : Disk) : Process α × Disk :=
  match p with
  | done a => (done a, disk)
  | ask operation next =>
    let (answer, after) := operation.onDisk.run disk
    (next answer, after)

/-- All turns of a process in a row. -/
def onDisk : Process α → StateM Disk α
  | done a => return a
  | ask operation next => do (next (← operation.onDisk)).onDisk

/-- A process that is done after some number of turns, whatever the answers are. -/
def Within : Nat → Process α → Prop
  | _, done _ => True
  | 0, ask _ _ => False
  | n + 1, ask _ next => ∀ answer, Within n (next answer)

theorem Within.mono {n k : Nat} {p : Process α} (h : p.Within n) (hle : n ≤ k) : p.Within k := by
  induction p generalizing n k with
  | done a => cases k <;> trivial
  | ask operation next ih =>
    cases n with
    | zero => exact absurd h id
    | succ n =>
      cases k with
      | zero => omega
      | succ k => exact fun answer => ih answer (h answer) (by omega)

theorem Within.turn {n : Nat} {p : Process α} (h : p.Within (n + 1)) (disk : Disk) : (p.turn disk).1.Within n := by
  cases p with
  | done a => cases n <;> trivial
  | ask operation next => exact h _

end Process

/-! ## Taking turns -/

/-- Some processes on one disk. -/
structure Workers (α : Type) where
  disk : Disk
  processes : List (Process α)

namespace Workers

variable {α : Type}

/-- One turn, of the process with a number. -/
def turn (w : Workers α) (i : Nat) : Workers α :=
  match w.processes[i]? with
  | none => w
  | some p => ⟨(p.turn w.disk).2, w.processes.set i (p.turn w.disk).1⟩

/-- The turns of a schedule, by the numbers of the processes that take them. -/
def run (w : Workers α) (schedule : List Nat) : Workers α := schedule.foldl turn w

/-- Whether every process is done. -/
def AllDone (w : Workers α) : Prop := ∀ p ∈ w.processes, ∃ result, p = .done result

/-- Whether the change that a process asks for next goes well, if it asks for one. -/
def ChangeGoesWell (w : Workers α) (i : Nat) : Prop :=
  ∀ step next, w.processes[i]? = some (.ask (.perform step) next) → (w.disk.perform step).2 = .ok ()

/-- Whether every change of a schedule goes well. -/
def GoesWell : Workers α → List Nat → Prop
  | _, [] => True
  | w, i :: rest => w.ChangeGoesWell i ∧ (w.turn i).GoesWell rest

theorem run_append (w : Workers α) (a b : List Nat) : w.run (a ++ b) = (w.run a).run b := List.foldl_append

end Workers

end CoveragePages
