import Galley.Diagram.Picture
import Galley.FileTree
import Galley.Number.Numeral
import Galley.Text.LetterCase

/-!
Settings for pictures of diagrams, and how they follow from the variables of a host.

* `Settings`: the settings, with their usual values;
* `Settings.workerCount`: how many workers share some jobs;
* `Host`: what the settings depend on;
* `Host.compiler?`: the compiler of a host;
* `Settings.ofHost?`: the settings on a host.
-/

namespace Galley

/-! ### Settings -/

/-- Compilers are usually given this many seconds. -/
def usualTimeout : Binary64 := .ofScaled false 30 0

/-- Settings for pictures of diagrams. The command gets the output folder and the document added at
its end. -/
structure Settings where
  command : List Text
  timeout : Binary64 := usualTimeout
  resolution : Resolution := ⟨.ofScaled false 288 0, 4096⟩
  maxWorkers : Option Int := none
  keepWorkFiles : Bool := false
  cacheFolder : Option Path := none

/-- The number of workers for some jobs: at most the configured number, or the number of processors
where none is configured, and at least one. -/
def Settings.workerCount (s : Settings) (processors : Nat) (jobs : Int) : Int :=
  max 1 (min (s.maxWorkers.getD (max 1 processors)) jobs)

/-! ### Hosts -/

/-- What the settings depend on: variables by name, home folders by user, and the number of
processors, zero if unknown. -/
structure Host where
  environment : List (Text × Text)
  homes : List (Text × Text)
  processors : Nat

namespace Host

/-- The value of a variable without the spaces at its ends; a missing variable counts as empty. -/
def value (h : Host) (name : String) : Text :=
  Text.trim ((h.environment.lookup name.toList).getD [])

/-- The path that a text denotes, with home folders put in; `none` if one is unknown. -/
def path? (h : Host) (t : Text) : Option Path := (Path.ofText t).expandHome? h.environment h.homes

/-- The positive number that a variable gives. -/
def positiveNumber? (h : Host) (name : String) : Option Binary64 :=
  (readNumber? (h.value name)).filter fun x => Binary64.zero.lt x

/-- The positive integer that a variable gives. -/
def positiveInteger? (h : Host) (name : String) : Option Int :=
  (readInt? (h.value name)).filter (0 < ·)

/-- The words that switch something on. -/
def affirmations : List Text := ["1".toList, "true".toList, "yes".toList, "on".toList]

/-- A variable switches something on. -/
def isOn (h : Host) (name : String) : Bool := affirmations.contains (foldWord (h.value name))

/-! ### The compiler -/

/-- The name of the compiler. -/
def compilerName : Text := "tectonic".toList

/-- The folders in which programs are looked for; an empty list has no folder in it. -/
def programFolders (h : Host) : List Path :=
  match (h.environment.lookup "PATH".toList).getD [] with
  | [] => []
  | folders => (splitAt (· == ':') folders).map .ofText

/-- The first file with the name of the compiler that can be run. -/
def installedCompiler? (h : Host) (files : FileTree) : Option Path :=
  (h.programFolders.map (· / compilerName)).find? files.isExecutable

/-- The compiler that a variable names. -/
def chosenCompiler? (h : Host) : Option (List Path) :=
  match h.value "MDTYPESET_TECTONIC" with
  | [] => some []
  | t => (h.path? t).map ([·])

/-- The place of the compiler: the first candidate that is a file; the outer `none` means an unknown
home folder. -/
def compiler? (h : Host) (files : FileTree) : Option (Option Path) :=
  h.chosenCompiler?.map fun chosen =>
    ((chosen ++ (h.installedCompiler? files).toList).find? files.isFile).map fun p =>
      ⟨.root, p.location files.current⟩

end Host

/-- The settings on a host; `none` if a variable names an unknown home folder. A missing compiler is
left to the system to look up when a diagram is compiled. -/
def Settings.ofHost? (h : Host) (files : FileTree) : Option Settings := do
  let compiler? ← h.compiler? files
  let cacheFolder ←
    match h.value "MDTYPESET_CACHE_DIR" with
    | [] => some none
    | t => (h.path? t).map some
  some
    { command := [(compiler?.map Path.text).getD Host.compilerName, "--chatter".toList,
        "minimal".toList]
      timeout := (h.positiveNumber? "MDTYPESET_COMPILE_TIMEOUT").getD usualTimeout
      maxWorkers := h.positiveInteger? "MDTYPESET_WORKERS"
      keepWorkFiles := h.isOn "MDTYPESET_KEEP_WORK"
      cacheFolder }

end Galley
