import Galley.Cache

/-!
The pictures of a document in its build folder.

* `assign`: lists of values by name;
* `placePicture`, `removeAll`, `pruneFolder`: copies a picture to its place, and removes files that
  have none;
* `syncPictures`: places all pictures and prunes their folder;
* `AssetReport`, `prepareAssets`: resolves the diagrams of a document and places their pictures.
-/

namespace Galley

open BuildStep

/-! ### Values by name -/

/-- Replaces the value of a name, or adds it at the end. -/
def assign {α : Type} (name : Text) (value : α) : List (Text × α) → List (Text × α)
  | [] => [(name, value)]
  | (n, v) :: rest =>
      if n = name then (n, value) :: rest else (n, v) :: assign name value rest

/-! ### Placing pictures -/

/-- Removes what is at a path, if anything is. -/
def clear (p : Path) : BuildStep Unit := do
  if ← see (·.isPresent p) then change (·.remove p)

/-- Copies a file to the place of the picture of a diagram. -/
def placePicture (build : Path) (d : Diagram) (source : Path) : BuildStep Path := do
  let target := build / d.assetPath
  makeFolders target.parent
  clear target
  writeFile target (← consult (·.read source))
  return target

/-- Copies files to the places of pictures, and lists the places by the names of the diagrams. -/
def placePictures (build : Path) (placed : List (Text × Path)) :
    List (Diagram × Path) → BuildStep (List (Text × Path))
  | [] => return placed
  | (d, source) :: rest => do
      let target ← placePicture build d source
      placePictures build (assign d.id target placed) rest

/-- The files directly in a folder, in order, that are not among the kept ones. -/
def strayFiles (folder : Path) (kept : List Path) (files : FileTree) : List Path :=
  let places := kept.map (·.location files.current)
  ((files.filesIn folder).map fun name => folder.join ⟨.current, [name]⟩).filter fun p =>
    !places.contains (p.location files.current)

/-- Removes files, and lists those that are gone. A file that cannot be removed is left behind. -/
def removeAll : List Path → BuildStep (List Path)
  | [] => return []
  | p :: rest => do
      match ← attempt (change (·.remove p)) with
      | .ok _ => return p :: (← removeAll rest)
      | .error _ => removeAll rest

/-- Removes the files directly in a folder that are not among the kept ones, and lists those that
are gone. -/
def pruneFolder (folder : Path) (kept : List Path) : BuildStep (List Path) := do
  removeAll (← see (strayFiles folder kept))

/-- Copies files to the places of pictures and prunes the folder of pictures. The result lists the
places by the names of the diagrams, and the removed files. -/
def syncPictures (build : Path) (sources : List (Diagram × Path)) :
    BuildStep (List (Text × Path) × List Path) := do
  let placed ← placePictures build [] sources
  let removed ← pruneFolder (build / Diagram.outputFolder) (placed.map Prod.snd)
  return (placed, removed)

/-! ### All pictures of a document -/

/-- What came of the pictures of a document: by the names of the diagrams, their places and states,
or why there is none; and the files that were removed. -/
structure AssetReport where
  outputs : List (Text × Path)
  states : List (Text × PictureState)
  failures : List (Text × Text)
  removed : List Path

/-- Every diagram has a picture. -/
def AssetReport.isComplete (r : AssetReport) : Bool := r.failures.isEmpty

/-- The first diagrams of their entries: diagrams that share an entry are resolved once. -/
def representatives (seen : List Text) : List Diagram → List Diagram
  | [] => []
  | d :: ds =>
      if seen.contains d.entryName then representatives seen ds
      else d :: representatives (d.entryName :: seen) ds

/-- What came of the entry of a diagram, by the name of the entry. -/
abbrev Resolved := List (Text × Except RenderError (Path × PictureState))

/-- Resolves one diagram. -/
def resolveNamed (tools : Toolchain) (s : Settings) (c : Cache) (d : Diagram) :
    BuildStep (Text × Except RenderError (Path × PictureState)) := do
  return (d.entryName, ← c.resolve tools s d)

/-- The places in the cache of the pictures of diagrams that have one. -/
def sourcesOf (resolved : Resolved) (ds : List Diagram) : List (Diagram × Path) :=
  ds.filterMap fun d =>
    match resolved.lookup d.entryName with
    | some (.ok (path, _)) => some (d, path)
    | _ => none

/-- The states of the pictures of diagrams that have one. -/
def statesOf (resolved : Resolved) (ds : List Diagram) : List (Text × PictureState) :=
  ds.foldl (fun states d =>
    match resolved.lookup d.entryName with
    | some (.ok (_, state)) => assign d.id state states
    | _ => states) []

/-- What a report says of a diagram without a picture. -/
def reportedMessage (e : RenderError) : Text :=
  if e.message.isEmpty then "no artifact produced".toList else e.message

/-- Why diagrams have no picture, for those that have none. -/
def failuresOf (resolved : Resolved) (ds : List Diagram) : List (Text × Text) :=
  ds.foldl (fun failures d =>
    match resolved.lookup d.entryName with
    | some (.error e) => assign d.id (reportedMessage e) failures
    | _ => failures) []

/-- Makes sure that every diagram has its picture in the build folder. Diagrams that share an
entry are compiled once. A diagram without a picture is reported and does not disturb the others;
errors of the files end the run, after all diagrams were resolved. -/
def prepareAssets (tools : Toolchain) (s : Settings) (build : Path) (ds : List Diagram) :
    BuildStep AssetReport := do
  let cache := Cache.ofBuild build s
  let resolved ← collect (resolveNamed tools s cache) (representatives [] ds)
  let (outputs, removed) ← syncPictures build (sourcesOf resolved ds)
  return ⟨outputs, statesOf resolved ds, failuresOf resolved ds, removed⟩

end Galley
