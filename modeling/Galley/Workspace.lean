import Galley.Compiler
import Galley.FileTree

/-!
The state of a build, and the actions that change it.

* `Workspace`: the files, and the history of compiler calls and scratch folders;
* `BuildStep`: a step that may fail with an error of the files; what it did before stays done;
* `attempt`, `collect`: steps whose errors are kept as results;
* `orElseUndo`: a step that is undone when it fails;
* `change`, `consult`: the operations on files as steps;
* `ensureAbsent`: removes a file that may not be there;
* `openScratch`: a new folder for a compiler;
* `callCompiler`: a run of a compiler.
-/

namespace Galley

/-- The state of a build. The stems of the names of scratch folders are those used so far, and the
calls come in their order. -/
structure Workspace where
  files : FileTree
  stems : List Text := []
  calls : List CompilerCall := []

/-- A step of a build. -/
abbrev BuildStep := EStateM FileError Workspace

namespace BuildStep

/-! ### Errors as results -/

/-- The result of a step, where an error is a result too. -/
def attempt {α : Type} (step : BuildStep α) : BuildStep (Except FileError α) := fun w =>
  match step w with
  | .ok a w => .ok (.ok a) w
  | .error e w => .ok (.error e) w

/-- Takes a step. If it fails, another step undoes what it did, and the error stays. -/
def orElseUndo {α : Type} (step : BuildStep α) (undo : BuildStep Unit) : BuildStep α := do
  match ← attempt step with
  | .ok a => pure a
  | .error e =>
      undo
      throw e

/-- Takes a step for every member, whatever comes of it, and fails with the first error then. -/
def collect {α β : Type} (step : α → BuildStep β) (xs : List α) : BuildStep (List β) := do
  let results ← xs.mapM fun x => attempt (step x)
  match results.mapM id with
  | .ok ys => pure ys
  | .error e => throw e

/-! ### Files -/

/-- Looks at the files. -/
def see {α : Type} (look : FileTree → α) : BuildStep α := do return look (← get).files

/-- Looks at the files with a look that may fail. -/
def consult {α : Type} (look : FileTree → Except FileError α) : BuildStep α := do
  match look (← get).files with
  | .ok a => pure a
  | .error e => throw e

/-- Changes the files. -/
def change (operation : FileTree → Except FileError FileTree) : BuildStep Unit := do
  match operation (← get).files with
  | .ok files => modify fun w => { w with files }
  | .error e => throw e

/-- Makes a folder and all folders on the way to it. -/
def makeFolders (p : Path) : BuildStep Unit := fun w =>
  match w.files.makeFolders p with
  | .ok _ files => .ok () { w with files }
  | .error e files => .error e { w with files }

/-- Writes a file. -/
def writeFile (p : Path) (content : Octets) : BuildStep Unit := change (·.write p content)

/-- Removes a file. It is no error if nothing is there. -/
def ensureAbsent (p : Path) : BuildStep Unit := do
  match ← attempt (change (·.remove p)) with
  | .ok _ | .error .notFound => pure ()
  | .error e => throw e

/-! ### Scratch folders -/

/-- The first number from `n` on that passes a test; `fuel` bounds the search. -/
def firstFrom (test : Nat → Bool) (n : Nat) : Nat → Nat
  | 0 => n
  | fuel + 1 => if test n then n else firstFrom test (n + 1) fuel

/-- Nothing is at a path or below it. -/
def isUnused (t : FileTree) (p : Path) : Bool :=
  match t.locate p with
  | .ok l => t.isFree l
  | .error _ => true

/-- The first number from `n` on whose name in a folder is unused. -/
def unusedNumber (t : FileTree) (name : Nat → Path) (n : Nat) : Nat :=
  firstFrom (fun n => isUnused t (name n)) n t.nodes.length

/-- The stem of the names of scratch folders: the beginning of a name. -/
def stemOf (name : Text) : Text := name.take 24 ++ ['-']

/-- Makes a scratch folder. Its name is the stem with the number of earlier uses of the stem, or
with the next number that is not in use. -/
def openScratch (folder : Path) (name : Text) : BuildStep Path := do
  let w ← get
  let stem := stemOf name
  let numbered := fun n => folder / (stem ++ Text.ofNat n)
  let scratch := numbered (unusedNumber w.files numbered (w.stems.count stem))
  set { w with stems := stem :: w.stems }
  change (·.makeFolder scratch)
  return scratch

/-! ### Compilers -/

/-- Puts the files that a program leaves into a folder. -/
def leaveFiles (folder : Path) (files : List (Text × Octets)) (t : FileTree) : FileTree :=
  match t.locate folder with
  | .ok l => files.foldl (fun t (name, content) => t.put (l ++ [name]) (.file content false)) t
  | .error _ => t

/-- Runs a compiler, which leaves its files in an output folder. -/
def callCompiler (tools : Toolchain) (call : CompilerCall) (output : Path) : BuildStep Ending := do
  let w ← get
  let run := tools.compile w.calls call
  set { w with files := leaveFiles output run.files w.files, calls := w.calls ++ [call] }
  return run.ending

end BuildStep

end Galley
