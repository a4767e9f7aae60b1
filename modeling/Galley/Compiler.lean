import Galley.Diagram.Message
import Galley.Number.Shortest
import Galley.Path
import Galley.Text.Utf8

/-!
The programs that turn documents into pictures, as far as the library sees them.

* `CompilerCall`, `CompilerRun`: how a compiler is called, and what comes of it;
* `Toolchain`: a compiler, which may remember its calls, and a way to draw pages;
* `RenderError`: why there is no picture, with its wording;
* `Toolchain.picture`: the picture of a compiled document.
-/

namespace Galley

/-! ### Compilers -/

/-- A call of a compiler: the command, the folder where it runs, the seconds it is given, and the
document. -/
structure CompilerCall where
  command : List Text
  folder : Path
  timeout : Binary64
  document : Text
deriving DecidableEq

/-- How a run of a compiler ends. -/
inductive Ending where
  | timedOut
  | notStarted (reason : Text)
  | exited (code : Int) (output errors : Text)
deriving DecidableEq

/-- A run of a compiler: how it ends, and the files by name that it leaves in its output folder. -/
structure CompilerRun where
  ending : Ending
  files : List (Text × Octets)

/-- A compiler and a way to draw. The compiler may remember the calls before the present one; the
drawing of the first page of a compiled document, for a file name extension, may fail with a
reason. -/
structure Toolchain where
  compile : List CompilerCall → CompilerCall → CompilerRun
  draw : Octets → Text → Except Text Octets

/-! ### Errors -/

/-- Why there is no picture. -/
inductive RenderError where
  | timedOut (seconds : Binary64)
  | notStarted (reason : Text)
  | failed (code : Int) (report : Text)
  | noOutput (path : Path)
  | emptyOutput
  | undrawable (reason : Text)
deriving DecidableEq

namespace RenderError

/-- The wording of an error. -/
def message : RenderError → Text
  | timedOut seconds =>
      "LaTeX compile timed out after ".toList ++ seconds.sixDigits ++ ['s']
  | notStarted reason => "LaTeX compiler could not be started: ".toList ++ reason
  | failed code report =>
      "LaTeX compile failed (exit ".toList ++ Text.ofInt code ++ "): ".toList ++
        (if report.isEmpty then "no output".toList else report)
  | noOutput path => "LaTeX compile finished but produced no PDF at ".toList ++ path.text
  | emptyOutput => "Diagram PDF is empty".toList
  | undrawable reason => reason

end RenderError

/-- What a report shows of a failed run: the end of the errors, or of the output if there are no
errors. -/
def reportOf (output errors : Text) : Text :=
  let report := summarize reportedLines errors
  if report.isEmpty then summarize reportedLines output else report

/-- The picture of a compiled document. -/
def Toolchain.picture (tools : Toolchain) (compiled : Octets) (extension : Text) :
    Except RenderError Octets :=
  if compiled.isEmpty then .error .emptyOutput
  else (tools.draw compiled extension).mapError .undrawable

end Galley
