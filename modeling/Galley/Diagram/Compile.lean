import Galley.Settings
import Galley.Workspace

/-!
Compiling a document in a scratch folder.

* `outputOf`: what a finished run gives;
* `compileWith`: the compiled document, whatever runs in the scratch folder, which is removed again
  unless the settings say otherwise;
* `compileDocument`: the document that the compiler of a toolchain gives.
-/

namespace Galley

open BuildStep

/-- The name of the document in its scratch folder. -/
def documentName : Text := "diagram.tex".toList

/-- The name of the output folder in a scratch folder. -/
def outputName : Text := "out".toList

/-- The name of the compiled document in its output folder. -/
def compiledName : Text := "diagram.pdf".toList

/-- The call that compiles a document in a scratch folder. -/
def callFor (s : Settings) (scratch : Path) (document : Text) : CompilerCall :=
  { command := s.command ++
      ["--outdir".toList, (scratch / outputName).text, (scratch / documentName).text]
    folder := scratch
    timeout := s.timeout
    document }

/-- What a finished run gives: the compiled document, if the run went well and left it. -/
def outputOf (s : Settings) (compiled : Path) (ending : Ending) (files : FileTree) :
    Except FileError (Except RenderError Octets) :=
  match ending with
  | .timedOut => .ok (.error (.timedOut s.timeout))
  | .notStarted reason => .ok (.error (.notStarted reason))
  | .exited code output errors =>
      if code ≠ 0 then .ok (.error (.failed code (reportOf output errors)))
      else if files.isFile compiled then (files.read compiled).map .ok
      else .ok (.error (.noOutput compiled))

/-- Runs the compiler of a toolchain on the document in a scratch folder. -/
def runIn (tools : Toolchain) (s : Settings) (document : Text) (scratch : Path) :
    BuildStep Ending :=
  callCompiler tools (callFor s scratch document) (scratch / outputName)

/-- Compiles a document in a scratch folder that is there; `run` runs a compiler in it. -/
def compileIn (run : Path → BuildStep Ending) (s : Settings) (scratch : Path) (document : Text) :
    BuildStep (Except RenderError Octets) := do
  writeFile (scratch / documentName) (utf8 document)
  change (·.makeFolder (scratch / outputName))
  let ending ← run scratch
  consult (outputOf s (scratch / outputName / compiledName) ending)

/-- Removes a scratch folder, unless the settings keep it. -/
def closeScratch (s : Settings) (scratch : Path) : BuildStep Unit := do
  unless s.keepWorkFiles do change fun t => .ok (t.removeTree scratch)

/-- Compiles a document below a folder for work, where `run` runs a compiler in a scratch folder. The
scratch folder is named after `name`, and it is closed whatever happens in it. -/
def compileWith (run : Path → BuildStep Ending) (s : Settings) (work : Path)
    (document name : Text) : BuildStep (Except RenderError Octets) := do
  makeFolders work
  let scratch ← openScratch work name
  let result ← attempt (compileIn run s scratch document)
  closeScratch s scratch
  match result with
  | .ok compiled => pure compiled
  | .error e => throw e

/-- Compiles a document with the compiler of a toolchain. -/
def compileDocument (tools : Toolchain) (s : Settings) (work : Path) (document name : Text) :
    BuildStep (Except RenderError Octets) :=
  compileWith (runIn tools s document) s work document name

end Galley
