import Galley.CommandLine

/-!
The program. It looks at the files that a command may touch, carries the command out on what it saw,
and writes what became of it. No compiler is attached, so every diagram that is not skipped is
reported as one whose compiler cannot be started.

* `Program.look`: what the disk holds at a path and above it;
* `Program.commit`: writes what is new;
* `main`: the program.
-/

namespace Galley

namespace Program

/-! ### The host -/

/-- The variables that settings may depend on. -/
def variableNames : List String :=
  ["HOME", "PATH", "MDTYPESET_TECTONIC", "MDTYPESET_COMPILE_TIMEOUT", "MDTYPESET_WORKERS",
    "MDTYPESET_KEEP_WORK", "MDTYPESET_CACHE_DIR"]

/-- The host that the program runs on. -/
def readHost : IO Host := do
  let environment ← variableNames.filterMapM fun name => do
    return (← IO.getEnv name).map fun value => (name.toList, value.toList)
  return { environment, homes := [], processors := 0 }

/-- Tools without a compiler. -/
def noTools : Toolchain :=
  { compile := fun _ _ => ⟨.notStarted "no compiler is attached".toList, []⟩
    draw := fun _ _ => .error "no way to draw is attached".toList }

/-! ### Looking -/

/-- The text of a location. -/
def locationText (l : Location) : String := String.ofList (Path.text ⟨.root, l⟩)

/-- What the disk holds at a location; what cannot be read as a file counts as a folder. -/
def probe (l : Location) : IO (Option Node) := do
  try
    let content ← IO.FS.readBinFile (locationText l)
    return some (.file content.toList false)
  catch
    | .noFileOrDirectory _ _ _ => return none
    | _ => return some .folder

/-- Adds to a tree what the disk holds at a location and above it. -/
def lookAt (t : FileTree) (l : Location) : IO FileTree :=
  ((List.range (l.length + 1)).map l.take).foldlM (fun t l => do
    match ← probe l with
    | some node => return t.put l node
    | none => return t) t

/-- Adds to a tree what the disk holds at a path and above it. -/
def look (host : Host) (t : FileTree) (p : Text) : IO FileTree :=
  match host.path? p with
  | some p => lookAt t (p.location t.current)
  | none => return t

/-- The paths that a command may touch. -/
def touched : Command → List Text
  | .prepare o =>
      let build := o.build.toList.map (· ++ ['/'])
      o.source.toList ++ build.flatMap fun b =>
        [b ++ contentName, b ++ anchorsName, b ++ Diagram.outputFolder]
  | .sourceMap o => o.anchors.toList ++ o.report.toList ++ o.output.toList

/-! ### Writing -/

/-- Writes what is new in a tree. -/
def commit (before after : FileTree) : IO Unit :=
  after.nodes.reverse.forM fun (l, node) => do
    if before.get? l != some node then
      match node with
      | .folder => IO.FS.createDirAll (locationText l)
      | .file content _ => IO.FS.writeBinFile (locationText l) ⟨content.toArray⟩

/-- What is printed about a command that ended without a reply. -/
def failureText : CommandError → Text
  | .noValue => "A value is missing.".toList
  | .file e => e.reason
  | .noStructure _ => "The document ends inside raw HTML.".toList
  | .unknownHome => "Could not determine home directory.".toList
  | .unreadable _ => "The input cannot be decoded.".toList
  | .number _ => "A number is out of range.".toList

/-- Carries a command out on the disk. -/
def execute (command : Command) : IO UInt32 := do
  let host ← readHost
  let here := Path.namesOf (← IO.currentDir).toString.toList
  let files ← (touched command).foldlM (look host) (← lookAt ⟨here, []⟩ here)
  match command.run noTools host { files } with
  | .ok reply w =>
      commit files w.files
      IO.print (String.ofList reply.output)
      IO.eprint (String.ofList reply.errors)
      return reply.exit.toUInt32
  | .error e w =>
      commit files w.files
      IO.eprintln (String.ofList (failureText e))
      return 1

end Program

end Galley

open Galley in
/-- The program. -/
def main (arguments : List String) : IO UInt32 := do
  match readCommand (arguments.map String.toList) with
  | .ok command => Program.execute command
  | .error (.help program) =>
      IO.println (String.ofList (UsageError.help program).message)
      return 0
  | .error e =>
      IO.eprintln (String.ofList e.message)
      return 2
