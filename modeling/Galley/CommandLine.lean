import Galley.Build
import Galley.CommandLine.Grammar
import Galley.SourceMap.Load

/-!
The commands: `prepare` fills the build folder of a document, and `sourcemap` merges anchors with
the positions that the typesetter reports.

* `Command`, `readCommand`: the commands, and reading one from a command line;
* `Reply`: the exit code of a command and what it prints;
* `CommandError`: what ends a command without a reply;
* `Command.run`: carries a command out.
-/

namespace Galley

open BuildStep

/-! ### Commands -/

/-- What `prepare` is to do. A number of workers may be asked for without a value. -/
structure PrepareOptions where
  source : Value := none
  build : Value := none
  workers : Option (Option Int) := none
  skipDiagrams : Bool := false
deriving DecidableEq

/-- What `sourcemap` is to do. An output that is empty or missing is the standard output. -/
structure MergeOptions where
  anchors : Value := none
  report : Value := none
  output : Value := none
deriving DecidableEq

/-- A command. -/
inductive Command where
  | prepare (options : PrepareOptions)
  | sourceMap (options : MergeOptions)
deriving DecidableEq

/-- The option that asks for help. -/
def helpRule (α : Type) : OptionRule α := ⟨["-h".toList, "--help".toList], .help, false⟩

/-- Sets the number of workers from a value. -/
def setWorkers (value : Value) (o : PrepareOptions) : Except Text PrepareOptions :=
  match value with
  | none => .ok { o with workers := some none }
  | some t =>
      match readInt? t with
      | some n => .ok { o with workers := some (some n) }
      | none => .error ("invalid int value: ".toList ++ Json.quoted (CodeText.ofText t))

/-- The command line of `prepare`. -/
def prepareGrammar : Grammar PrepareOptions :=
  { program := "mdtypeset prepare".toList
    options := [helpRule _,
      ⟨["--build-dir".toList], .value fun t o => .ok { o with build := t }, true⟩,
      ⟨["--workers".toList], .value setWorkers, false⟩,
      ⟨["--skip-diagrams".toList], .switch fun o => { o with skipDiagrams := true }, false⟩]
    operands := [⟨"source".toList, .single fun t o => { o with source := t }⟩] }

/-- The command line of `sourcemap`. -/
def mergeGrammar : Grammar MergeOptions :=
  { program := "mdtypeset sourcemap".toList
    options := [helpRule _,
      ⟨["-o".toList, "--output".toList], .value fun t o => .ok { o with output := t }, false⟩]
    operands := [⟨"anchors".toList, .single fun t o => { o with anchors := t }⟩,
      ⟨"query".toList, .single fun t o => { o with report := t }⟩] }

/-- The whole command line: more talk if asked for, a command, and words that it does not take. -/
structure Invocation where
  verbose : Bool := false
  command : Option Command := none
  extras : List Text := []

/-- The name of the program. -/
def programName : Text := "mdtypeset".toList

/-- The names of the commands. -/
def commandNames : List Text := ["prepare".toList, "sourcemap".toList]

/-- Takes a command with the words behind it. -/
def setCommand (words : List Text) (i : Invocation) : Except UsageError Invocation :=
  match words with
  | [] => .ok i
  | name :: words =>
      if name = "prepare".toList then do
        let (options, extras) ← prepareGrammar.parse {} words
        .ok { i with command := some (.prepare options), extras }
      else if name = "sourcemap".toList then do
        let (options, extras) ← mergeGrammar.parse {} words
        .ok { i with command := some (.sourceMap options), extras }
      else
        let quoted := fun t => Json.quoted (CodeText.ofText t)
        .error (.wrong programName ("argument command: invalid choice: ".toList ++ quoted name ++
          " (choose from ".toList ++ joinWith [',', ' '] (commandNames.map quoted) ++ [')']))

/-- The command line of the program. -/
def programGrammar : Grammar Invocation :=
  { program := programName
    options := [helpRule _,
      ⟨["-v".toList, "--verbose".toList], .switch fun i => { i with verbose := true }, false⟩]
    operands := [⟨"command".toList, .remainder setCommand⟩] }

/-- The command of a command line. -/
def readCommand (arguments : List Text) : Except UsageError Command := do
  let (i, extras) ← programGrammar.parse {} arguments
  match extras ++ i.extras, i.command with
  | [], some command => .ok command
  | [], none => .error (.help programName)
  | words, _ =>
      .error (.wrong programName ("unrecognized arguments: ".toList ++ joinWith [' '] words))

/-! ### Replies -/

/-- The exit code of a command, and what it prints. -/
structure Reply where
  exit : Nat
  output : Text := []
  errors : Text := []
deriving DecidableEq

/-- What ends a command without a reply: a missing value, an error of the files, a document without
block structure, an unknown home folder, a file that cannot be read, or a number in a report that
cannot be taken over. -/
inductive CommandError where
  | noValue
  | file (error : FileError)
  | noStructure (error : Markdown.StructureError)
  | unknownHome
  | unreadable (error : LoadError)
  | number (fault : NumberFault)

/-- A step of a command. -/
abbrev CommandStep := EStateM CommandError Workspace

/-- A step of a build as a step of a command. -/
def within {α : Type} (step : BuildStep α) : CommandStep α := fun w =>
  match step w with
  | .ok a w => .ok a w
  | .error e w => .error (.file e) w

/-- A value that is missing if a home folder is unknown. -/
def requireHome {α : Type} : Option α → CommandStep α
  | some a => pure a
  | none => throw .unknownHome

/-- The path that a value names. -/
def pathOf (host : Host) : Value → CommandStep Path
  | some t => requireHome (host.path? t)
  | none => throw .noValue

/-! ### Preparing -/

/-- Every line break becomes a line feed. -/
def lineFeeds : Text → Text
  | '\r' :: '\n' :: cs => '\n' :: lineFeeds cs
  | c :: cs => (if c == '\r' then '\n' else c) :: lineFeeds cs
  | [] => []

/-- The text of an authored document. -/
def documentText (octets : Octets) : Text := lineFeeds (decodeUtf8 octets)

/-- The settings with a number of workers from the command line. -/
def withWorkers (s : Settings) : Option (Option Int) → CommandStep Settings
  | none => return s
  | some none => throw .noValue
  | some (some n) => return { s with maxWorkers := some (max 1 n) }

/-- The reply on what came of a document. -/
def prepareReply (result : Preprocessed) (report? : Option AssetReport) : Reply :=
  let output := Text.ofNat result.anchors.length ++ " anchor(s), ".toList ++
    Text.ofNat result.diagrams.length ++ " diagram(s)\n".toList
  match report? with
  | none => ⟨0, output, []⟩
  | some report =>
      let errors := report.failures.flatMap fun (id, message) =>
        "Diagram ".toList ++ id ++ " failed: ".toList ++ message ++ ['\n']
      ⟨if report.isComplete then 0 else 1, output, errors⟩

/-- Prepares a document. -/
def runPrepare (tools : Toolchain) (host : Host) (o : PrepareOptions) : CommandStep Reply := do
  let source ← pathOf host o.source
  if !(← within (see (·.isFile source))) then
    return ⟨2, [], "Markdown file does not exist: ".toList ++ source.text ++ ['\n']⟩
  let settings ← requireHome (Settings.ofHost? host (← get).files)
  let settings ← withWorkers settings o.workers
  let octets ← within (consult (·.read source))
  let build ← pathOf host o.build
  match ← within (prepareBuild tools settings build o.skipDiagrams (documentText octets)) with
  | .ok (result, report?) => return prepareReply result report?
  | .error e => throw (.noStructure e)

/-! ### Merging -/

/-- The wording of an error of the files about a path. -/
def fileMessage (e : FileError) (p : Path) : Text :=
  "[Errno ".toList ++ Text.ofNat e.number ++ "] ".toList ++ e.reason ++ ": ".toList ++
    Json.quoted (CodeText.ofText p.text)

/-- Loads the value of a file. Most of what can be wrong is a message. -/
def loadFile {α : Type} (host : Host) (value : Value)
    (load : Path → Octets → Except LoadError α) : CommandStep (Except Text α) := do
  let p ← pathOf host value
  match (← get).files.read p with
  | .error e => return .error (fileMessage e p)
  | .ok octets =>
      match load p octets with
      | .ok a => return .ok a
      | .error e =>
          match e.message? with
          | some message => return .error message
          | none => throw (.unreadable e)

/-- The reply to inputs that cannot be read. -/
def unreadableReply (message : Text) : Reply :=
  ⟨2, [], "Could not read source map inputs: ".toList ++ message ++ ['\n']⟩

/-- Merges anchors with a report. -/
def runMerge (host : Host) (o : MergeOptions) : CommandStep Reply := do
  match ← loadFile host o.anchors fun p octets => loadAnchors p.text octets with
  | .error message => return unreadableReply message
  | .ok anchors =>
      match ← loadFile host o.report fun _ octets => loadReport octets with
      | .error message => return unreadableReply message
      | .ok tree =>
          match merge anchors tree with
          | .error fault => throw (.number fault)
          | .ok m =>
              if (o.output.getD []).isEmpty then return ⟨0, m.text, []⟩
              let target ← pathOf host o.output
              within (writeFile target (utf8 m.text))
              return ⟨0, [], []⟩

/-- Carries a command out. -/
def Command.run (tools : Toolchain) (host : Host) : Command → CommandStep Reply
  | .prepare o => runPrepare tools host o
  | .sourceMap o => runMerge host o

end Galley
