import Galley.Diagram.Compile
import Galley.Diagram.Document
import Galley.Diagram.Key

/-!
The cache of pictures. Entries are named after what their diagrams depend on, and are written
once; a diagram that cannot be compiled gets a picture of the error message.

* `Cache`, `Cache.ofBuild`: the folders of a cache, and the cache of a build folder;
* `Cache.entryPath`: the place of the picture of a diagram;
* `Cache.resolve`: makes sure that the picture of a diagram is there;
* `Cache.picture`: the picture itself.
-/

namespace Galley

open BuildStep

/-! ### Entries -/

/-- How a picture came about. -/
inductive PictureState where
  | cached
  | compiled
  | fallback
deriving DecidableEq

/-- The name of a state. -/
def PictureState.name : PictureState → Text
  | cached => "cached".toList
  | compiled => "compiled".toList
  | fallback => "fallback".toList

/-- The folder of a cache, and the folder where its compilers work. -/
structure Cache where
  folder : Path
  work : Path
deriving DecidableEq

namespace Cache

/-- The cache for a build folder: the configured one, or one in the build folder. -/
def ofBuild (build : Path) (s : Settings) : Cache :=
  ⟨s.cacheFolder.getD (build / "tikz-cache".toList), build / "tikz-work".toList⟩

/-- The place of the picture of a diagram. -/
def entryPath (c : Cache) (d : Diagram) : Path := c.folder / d.entryName

/-- The name of a file in the cache folder that is not finished yet. -/
def unfinishedName (key : Text) (n : Nat) : Text :=
  '.' :: (key.take 16 ++ '-' :: (Text.ofNat n ++ ".tmp".toList))

/-- Writes an entry, unless something is there. The octets are collected in another file, which then
takes the name of the entry, so that no entry is ever seen unfinished. If that fails, the other file
is removed. -/
def store (c : Cache) (d : Diagram) (content : Octets) : BuildStep Unit := do
  let files ← see id
  if files.isPresent (c.entryPath d) then return
  let named := fun n => c.folder / unfinishedName d.key n
  let unfinished := named (unusedNumber files named 0)
  writeFile unfinished []
  let finish := do
    writeFile unfinished content
    change (·.move unfinished (c.entryPath d))
  finish.orElseUndo (ensureAbsent unfinished)

/-! ### Rendering -/

/-- Compiles a document and draws it. -/
def render (tools : Toolchain) (s : Settings) (c : Cache) (document name extension : Text) :
    BuildStep (Except RenderError Octets) := do
  match ← compileDocument tools s c.work document name with
  | .ok compiled => return tools.picture compiled extension
  | .error e => return .error e

/-- The picture of a diagram, or of the message why there is none. -/
def renderDiagram (tools : Toolchain) (s : Settings) (c : Cache) (d : Diagram) :
    BuildStep (Except RenderError (Octets × PictureState)) := do
  match ← render tools s c d.document d.key d.extension with
  | .ok content => return .ok (content, .compiled)
  | .error e =>
      let name := d.key ++ "-error".toList
      match ← render tools s c (errorDocument e.message) name d.extension with
      | .ok content => return .ok (content, .fallback)
      | .error e => return .error e

/-- Makes sure that the picture of a diagram is in the cache. The result is its place and how it
came about, or why there is not even a picture of the error message. -/
def resolve (tools : Toolchain) (s : Settings) (c : Cache) (d : Diagram) :
    BuildStep (Except RenderError (Path × PictureState)) := do
  if ← see (·.isFile (c.entryPath d)) then return .ok (c.entryPath d, .cached)
  makeFolders c.folder
  match ← renderDiagram tools s c d with
  | .ok (content, state) =>
      store c d content
      return .ok (c.entryPath d, state)
  | .error e => return .error e

/-- The picture of a diagram. -/
def picture (tools : Toolchain) (s : Settings) (c : Cache) (d : Diagram) :
    BuildStep (Except RenderError Octets) := do
  match ← resolve tools s c d with
  | .ok (path, _) => return .ok (← consult (·.read path))
  | .error e => return .error e

end Cache

/-- The wording for a diagram without a picture. -/
def Diagram.failureText (d : Diagram) (e : RenderError) : Text :=
  "diagram ".toList ++ d.id ++ ": ".toList ++ e.message

end Galley
