import Galley.Text.Basic

/-!
Paths to files and folders.

* `Path`: where a path starts, and the names that it goes through;
* `Path.ofText`, `Path.text`: reading and writing paths;
* `Path.join`, `/`: a path from the end of another one;
* `Path.location`: the names on the direct way to the end of a path;
* `Path.expandHome?`: a path with the home folder in place of the mark for it.
-/

namespace Galley

/-- Where a path starts: at the current folder or at the root. A root may also be written with two
slashes. -/
inductive PathStart where
  | current
  | root
  | doubleRoot
deriving DecidableEq

/-- The slashes in front of a path. -/
def PathStart.text : PathStart → Text
  | .current => []
  | .root => ['/']
  | .doubleRoot => ['/', '/']

/-- A path. Its names are neither empty nor a single dot. -/
structure Path where
  start : PathStart
  names : List Text
deriving DecidableEq

/-- The names on the direct way from the root to a file or folder. -/
abbrev Location := List Text

namespace Path

/-- The name of the folder above. -/
def parentName : Text := ['.', '.']

/-! ### Reading and writing -/

/-- The start that the slashes in front of a path mean. -/
def startOf (t : Text) : PathStart :=
  match (t.takeWhile (· == '/')).length with
  | 0 => .current
  | 2 => .doubleRoot
  | _ => .root

/-- The pieces that lead somewhere. -/
def namesOf (t : Text) : List Text := (splitAt (· == '/') t).filter fun s => s ≠ [] && s ≠ ['.']

/-- The path that a text denotes. -/
def ofText (t : Text) : Path := ⟨startOf t, namesOf t⟩

/-- The text of a path. The current folder is a dot. -/
def text (p : Path) : Text :=
  if p.start = .current ∧ p.names = [] then ['.']
  else p.start.text ++ joinWith ['/'] p.names

/-! ### Composing -/

/-- The path `q` from the end of `p`. -/
def join (p q : Path) : Path :=
  match q.start with
  | .current => ⟨p.start, p.names ++ q.names⟩
  | _ => q

instance : HDiv Path Text Path := ⟨fun p t => p.join (ofText t)⟩

/-- The path to the folder that holds the end of a path. -/
def parent (p : Path) : Path := ⟨p.start, p.names.dropLast⟩

/-- One step from a location. -/
def step (here : Location) (name : Text) : Location :=
  if name = parentName then here.dropLast else here ++ [name]

/-- The location that a path starts from. -/
def origin (current : Location) (p : Path) : Location :=
  match p.start with
  | .current => current
  | _ => []

/-- The location at the end of a path. -/
def location (current : Location) (p : Path) : Location := p.names.foldl step (p.origin current)

/-! ### Home folders -/

/-- The home folder that the mark `~` means, alone or with the name of a user; trailing slashes do
not count. -/
def homeOf? (environment homes : List (Text × Text)) (user : Text) : Option Text :=
  let home? := if user.isEmpty then environment.lookup "HOME".toList else homes.lookup user
  home?.map fun home =>
    let home := dropEndWhile (· == '/') home
    if home.isEmpty then ['/'] else home

/-- The path with the home folder in place of a first name that begins with `~`; `none` if that
folder is unknown. -/
def expandHome? (environment homes : List (Text × Text)) (p : Path) : Option Path :=
  match p.start, p.names with
  | .current, ('~' :: user) :: names =>
      match homeOf? environment homes user with
      | none => none
      | some home =>
          if home.head? == some '~' then none
          else some ((ofText home).join ⟨.current, names⟩)
  | _, _ => some p

end Path

end Galley
