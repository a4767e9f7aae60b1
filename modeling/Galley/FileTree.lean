import Galley.Ordering
import Galley.Path
import Galley.Text.Utf8

/-!
Files and folders, as a finite table from locations to what is there.

* `FileTree`, `FileTree.get?`: the table, and what is at a location;
* `FileError`: why an operation fails, with its wording;
* `FileTree.locate`: the location that a path leads to;
* `FileTree.isFile`, `isFolder`, `isPresent`, `read`, `filesIn`: looking;
* `FileTree.write`, `remove`, `makeFolder`, `makeFolders`, `removeTree`, `move`: changing.

Left out are links, permissions other than the one to run a file, times, and faults of the disk: an
operation fails only because of what is or is not at a path, as `FileError` lists it. Nothing else
changes the files while an operation runs.
-/

namespace Galley

/-- What can be at a location. -/
inductive Node where
  | folder
  | file (content : Octets) (executable : Bool)
deriving DecidableEq

/-- The files and folders, and the folder that paths start from. -/
structure FileTree where
  current : Location
  nodes : List (Location × Node)

/-- Why an operation on files fails. -/
inductive FileError where
  | notFound
  | occupied
  | isFolder
  | notFolder
deriving DecidableEq

namespace FileError

/-- The number of an error. -/
def number : FileError → Nat
  | notFound => 2
  | occupied => 17
  | notFolder => 20
  | isFolder => 21

/-- The wording of an error. -/
def reason : FileError → Text
  | notFound => "No such file or directory".toList
  | occupied => "File exists".toList
  | notFolder => "Not a directory".toList
  | isFolder => "Is a directory".toList

end FileError

namespace FileTree

/-! ### The table -/

/-- What is at a location. The root is always a folder. -/
def get? (t : FileTree) (l : Location) : Option Node :=
  if l = [] then some .folder else t.nodes.lookup l

/-- The tree without what is at a location. -/
def erase (t : FileTree) (l : Location) : FileTree :=
  ⟨t.current, t.nodes.filter fun entry => entry.1 ≠ l⟩

/-- The tree with a node at a location. -/
def put (t : FileTree) (l : Location) (node : Node) : FileTree :=
  ⟨t.current, (l, node) :: (t.erase l).nodes⟩

/-- The tree without what is at a location or below it. -/
def eraseBelow (t : FileTree) (l : Location) : FileTree :=
  ⟨t.current, t.nodes.filter fun entry => !l.isPrefixOf entry.1⟩

/-- Nothing is at a location or below it. -/
def isFree (t : FileTree) (l : Location) : Bool := t.nodes.all fun entry => !l.isPrefixOf entry.1

/-- The name of a location directly below a folder. -/
def childName? (folder l : Location) : Option Text :=
  match l.drop folder.length with
  | [name] => if folder.isPrefixOf l then some name else none
  | _ => none

/-- The names directly below a folder, in order. -/
def childNames (t : FileTree) (folder : Location) : List Text :=
  orderDistinct (fun a b : Text => decide (a < b)) (t.nodes.filterMap (childName? folder ·.1))

/-! ### Paths -/

/-- Follows names from a location. All but the last one have to lead to folders. -/
def follow (t : FileTree) (here : Location) : List Text → Except FileError Location
  | [] => .ok here
  | name :: names =>
      match t.get? here with
      | some .folder => follow t (Path.step here name) names
      | some (.file _ _) => .error .notFolder
      | none => .error .notFound

/-- The location that a path leads to. -/
def locate (t : FileTree) (p : Path) : Except FileError Location :=
  t.follow (p.origin t.current) p.names

/-- What is at the end of a path, if the path leads anywhere. -/
def find? (t : FileTree) (p : Path) : Option Node :=
  match t.locate p with
  | .ok l => t.get? l
  | .error _ => none

/-! ### Looking -/

/-- There is something at the end of a path. -/
def isPresent (t : FileTree) (p : Path) : Bool := (t.find? p).isSome

/-- There is a folder at the end of a path. -/
def isFolder (t : FileTree) (p : Path) : Bool := t.find? p == some .folder

/-- There is a file at the end of a path. -/
def isFile (t : FileTree) (p : Path) : Bool :=
  match t.find? p with
  | some (.file _ _) => true
  | _ => false

/-- There is a file that can be run at the end of a path. -/
def isExecutable (t : FileTree) (p : Path) : Bool :=
  match t.find? p with
  | some (.file _ executable) => executable
  | _ => false

/-- The octets of a file. -/
def read (t : FileTree) (p : Path) : Except FileError Octets := do
  match t.get? (← t.locate p) with
  | some (.file content _) => .ok content
  | some .folder => .error .isFolder
  | none => .error .notFound

/-- The names of the files directly in a folder, in order. -/
def filesIn (t : FileTree) (p : Path) : List Text :=
  match t.locate p with
  | .ok l => (t.childNames l).filter fun name => t.isFile (p.join ⟨.current, [name]⟩)
  | .error _ => []

/-! ### Changing -/

/-- The node of a file with new octets. A file that is there keeps the permission to run it. -/
def fileOver (old? : Option Node) (content : Octets) : Node :=
  match old? with
  | some (.file _ executable) => .file content executable
  | _ => .file content false

/-- The tree with a file of given octets. -/
def write (t : FileTree) (p : Path) (content : Octets) : Except FileError FileTree := do
  let l ← t.locate p
  match t.get? l with
  | some .folder => .error .isFolder
  | old? => .ok (t.put l (fileOver old? content))

/-- The tree without a file. -/
def remove (t : FileTree) (p : Path) : Except FileError FileTree := do
  let l ← t.locate p
  match t.get? l with
  | some (.file _ _) => .ok (t.erase l)
  | some .folder => .error .isFolder
  | none => .error .notFound

/-- The tree with a new folder. -/
def makeFolder (t : FileTree) (p : Path) : Except FileError FileTree := do
  let l ← t.locate p
  match t.get? l with
  | some _ => .error .occupied
  | none => .ok (t.put l .folder)

/-- The tree with a folder that may have been there before. -/
def ensureFolder (t : FileTree) (p : Path) : Except FileError FileTree :=
  match t.makeFolder p with
  | .ok tree => .ok tree
  | .error e => if t.isFolder p then .ok t else .error e

/-- The result of a change as the result of a step that keeps the tree when it fails. -/
def settle (t : FileTree) (change : Except FileError FileTree) :
    EStateM.Result FileError FileTree Unit :=
  match change with
  | .ok tree => .ok () tree
  | .error e => .error e t

/-- Makes a folder and the missing ones on the way; the names come in reverse order. -/
def makeFoldersAux (start : PathStart) :
    List Text → FileTree → EStateM.Result FileError FileTree Unit
  | [], t => t.settle (t.ensureFolder ⟨start, []⟩)
  | name :: above, t =>
      let p : Path := ⟨start, (name :: above).reverse⟩
      match t.ensureFolder p with
      | .error .notFound =>
          match makeFoldersAux start above t with
          | .ok _ tree => tree.settle (tree.ensureFolder p)
          | .error e tree => .error e tree
      | result => t.settle result

/-- Makes a folder and all folders on the way to it. Those that were made before a failure stay. -/
def makeFolders (t : FileTree) (p : Path) : EStateM.Result FileError FileTree Unit :=
  makeFoldersAux p.start p.names.reverse t

/-- The tree without a folder and what is in it. -/
def removeTree (t : FileTree) (p : Path) : FileTree :=
  match t.locate p with
  | .ok l => if t.get? l = some .folder then t.eraseBelow l else t
  | .error _ => t

/-- The tree with a file at another path, where it takes the place of a file. -/
def move (t : FileTree) (source target : Path) : Except FileError FileTree := do
  let content ← t.read source
  (← t.remove source).write target content

end FileTree

end Galley
