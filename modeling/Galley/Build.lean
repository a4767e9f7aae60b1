import Galley.Assets
import Galley.Json.Writer
import Galley.Preprocess
import Galley.SourceMap.Basic

/-!
The build folder of a document: its preprocessed text, its anchors, and the pictures of its
diagrams.

* `SourceMap.text`: the text of the file of anchors;
* `fillBuild`, `prepareBuild`: fill a build folder.
-/

namespace Galley

open BuildStep

/-- The name of the file of the preprocessed text. -/
def contentName : Text := "content.md".toList

/-- The name of the file of the anchors. -/
def anchorsName : Text := "anchors.json".toList

/-- A source map as a text on several lines. -/
def SourceMap.text (m : SourceMap) : Text := Json.write (some 2) m.toJson ++ ['\n']

/-- Fills a build folder with a preprocessed document. The report on the pictures is missing if
diagrams are skipped. -/
def fillBuild (tools : Toolchain) (s : Settings) (build : Path) (skipDiagrams : Bool)
    (result : Preprocessed) : BuildStep (Option AssetReport) := do
  writeFile (build / contentName) (utf8 result.markdown)
  writeFile (build / anchorsName) (utf8 (SourceMap.text ⟨result.anchors⟩))
  if skipDiagrams then return none
  return some (← prepareAssets tools s build result.diagrams)

/-- Fills a build folder for a document. The folder is there afterwards even if the document has no
block structure. -/
def prepareBuild (tools : Toolchain) (s : Settings) (build : Path) (skipDiagrams : Bool)
    (markdown : Text) :
    BuildStep (Except Markdown.StructureError (Preprocessed × Option AssetReport)) := do
  makeFolders build
  match preprocess markdown with
  | .error e => return .error e
  | .ok result => return .ok (result, ← fillBuild tools s build skipDiagrams result)

end Galley
