import Galley.Assets
import Galley.Proofs.Resolving
import Mathlib.Tactic

/-!
The pictures in the build folder: what placing and pruning them changes.

* `picturesPlace`: the folder of the pictures;
* `FileTree.PicturesChanged`: two trees differ directly in this folder only, up to new folders;
* `syncPictures_redraws`: placing and pruning pictures changes nothing else, whatever comes of it;
* `resolveAll`, `resolveAll_grows`: diagrams that are resolved one after the other only add files;
* `prepareAssets_redraws`: filling a build folder is resolving its diagrams one after the other, and
  then a change of its pictures.
-/

namespace Galley

open BuildStep FileTree

/-- The location of the pictures of a build folder. -/
def picturesPlace (build : Path) (here : Location) : Location :=
  (build / Diagram.outputFolder).location here

lemma picturesPlace_eq (build : Path) (here : Location) :
    picturesPlace build here = build.location here ++ [Diagram.outputFolder] :=
  Path.location_div isName_outputFolder build here

lemma location_assetPath {d : Diagram} (h : '/' ∉ d.id) (build : Path) (here : Location) :
    (build / d.assetPath).location here = picturesPlace build here ++ [d.assetName] := by
  rw [div_assetPath h, Path.location_div (isName_assetName h)]
  rfl

/-! ### Trees with other pictures -/

namespace FileTree

variable {build : Path} {t t' t'' : FileTree} {l : Location} {name : Text}

/-- Two trees differ directly in the folder of pictures only, up to new folders; if the build folder
is there, only the folder of pictures can be new. -/
structure PicturesChanged (build : Path) (t t' : FileTree) : Prop extends FoldersKept t t' where
  content : ∀ {l}, (∀ name, l ≠ picturesPlace build t.current ++ [name]) →
    t'.contentAt? l = t.contentAt? l
  node : t.isFolder build = true → ∀ {l}, l ≠ picturesPlace build t.current →
    (∀ name, l ≠ picturesPlace build t.current ++ [name]) → t'.get? l = t.get? l

lemma PicturesChanged.refl (build : Path) (t : FileTree) : PicturesChanged build t t :=
  ⟨FoldersKept.refl t, fun _ => rfl, fun _ _ _ _ => rfl⟩

lemma PicturesChanged.trans (h : PicturesChanged build t t') (h' : PicturesChanged build t' t'') :
    PicturesChanged build t t'' := by
  refine ⟨h.toFoldersKept.trans h'.toFoldersKept, fun hl => ?_, fun hbuild _ hplace hl => ?_⟩
  · rw [h'.content (by rwa [h.current]), h.content hl]
  · rw [h'.node (h.isFolder hbuild) (by rwa [h.current]) (by rwa [h.current]),
      h.node hbuild hplace hl]

/-- A file directly in the folder of pictures is new or has a new content. -/
lemma picturesChanged_put (hl : l = picturesPlace build t.current ++ [name])
    (hnode : t.get? l ≠ some .folder) (content : Octets) (executable : Bool) :
    PicturesChanged build t (t.put l (.file content executable)) := by
  refine ⟨.put hnode _, fun hk => ?_, fun _ _ _ hk => ?_⟩
  · exact contentAt?_put_of_ne (hl ▸ hk name)
  · exact get?_put_of_ne (hl ▸ hk name)

/-- A file directly in the folder of pictures is gone. -/
lemma picturesChanged_erase (hl : l = picturesPlace build t.current ++ [name])
    (hnode : t.contentAt? l ≠ none) : PicturesChanged build t (t.erase l) := by
  refine ⟨⟨rfl, fun {k} hk => ?_⟩, fun hk => ?_, fun _ _ _ hk => ?_⟩
  · rw [get?_erase_of_ne, hk]
    rintro rfl
    exact hnode (by rw [contentAt?, hk])
  · exact contentAt?_erase_of_ne (hl ▸ hk name)
  · exact get?_erase_of_ne (hl ▸ hk name)

/-- The folder of pictures is made, with the folders on the way to it. -/
lemma makeFolders_picturesChanged (build : Path) (t : FileTree) :
    PicturesChanged build t (afterResult (t.makeFolders (build / Diagram.outputFolder))) := by
  have hadded := makeFolders_added t (build / Diagram.outputFolder)
  refine ⟨hadded.toKept.folders, fun _ => hadded.contentAt? _, fun hbuild l hl _ => ?_⟩
  rcases makeFolders_div isName_outputFolder hbuild with heq | ⟨-, heq⟩
  · rw [heq]
  · change l ≠ (build / Diagram.outputFolder).location t.current at hl
    rw [heq, get?_put_of_ne hl]

end FileTree

/-! ### Placing and pruning -/

section Steps

variable {build : Path}

/-- States that differ in the pictures of a build folder. -/
def BuildStep.Redraws (build : Path) (w w' : Workspace) : Prop :=
  PicturesChanged build w.files w'.files

lemma BuildStep.Redraws.chains (build : Path) : Chains (Redraws build) :=
  ⟨fun w => PicturesChanged.refl build w.files, fun h h' => PicturesChanged.trans h h'⟩

lemma remove_redraws {p : Path} {name : Text}
    (hp : ∀ here, p.location here = picturesPlace build here ++ [name]) :
    Respects (Redraws build) (change (·.remove p)) := by
  refine Respects.change (Redraws.chains build) fun w files hremove => ?_
  obtain ⟨l, hl, hcontent, rfl⟩ := remove_eq_ok hremove
  exact picturesChanged_erase ((eq_of_locate hl).trans (hp _)) hcontent

lemma write_redraws {p : Path} {name : Text}
    (hp : ∀ here, p.location here = picturesPlace build here ++ [name]) (content : Octets) :
    Respects (Redraws build) (writeFile p content) := by
  refine Respects.change (Redraws.chains build) fun w files hwrite => ?_
  obtain ⟨l, hl, hnode, rfl⟩ := write_eq_ok hwrite
  obtain ⟨executable, hfile⟩ := fileOver_eq (w.files.get? l) content
  rw [hfile]
  exact picturesChanged_put ((eq_of_locate hl).trans (hp _)) hnode content executable

lemma clear_redraws {p : Path} {name : Text}
    (hp : ∀ here, p.location here = picturesPlace build here ++ [name]) :
    Respects (Redraws build) (clear p) := by
  refine (Respects.see (Redraws.chains build) _).bind (Redraws.chains build) fun present => ?_
  cases present with
  | true => exact remove_redraws hp
  | false => exact Respects.pure (Redraws.chains build) _

lemma parent_assetPath {d : Diagram} (h : '/' ∉ d.id) (build : Path) :
    (build / d.assetPath).parent = build / Diagram.outputFolder := by
  rw [div_assetPath h, Path.parent_div (isName_assetName h)]

lemma placePicture_redraws {d : Diagram} (h : '/' ∉ d.id) (source : Path) :
    Respects (Redraws build) (placePicture build d source) := by
  have hR := Redraws.chains build
  have hplace := location_assetPath h build
  rw [placePicture, parent_assetPath h]
  refine Respects.bind hR (fun w => ?_) fun _ => ?_
  · rw [Redraws, files_after_makeFolders]
    exact makeFolders_picturesChanged build w.files
  · refine (clear_redraws hplace).bind hR fun _ => ?_
    refine (Respects.consult hR _).bind hR fun content => ?_
    exact (write_redraws hplace content).bind hR fun _ => Respects.pure hR _

lemma placePictures_redraws {sources : List (Diagram × Path)}
    (h : ∀ source ∈ sources, '/' ∉ source.1.id) (placed : List (Text × Path)) :
    Respects (Redraws build) (placePictures build placed sources) := by
  induction sources generalizing placed with
  | nil => exact Respects.pure (Redraws.chains build) _
  | cons source sources ih =>
      obtain ⟨d, path⟩ := source
      refine (placePicture_redraws (h _ List.mem_cons_self) path).bind (Redraws.chains build) ?_
      exact fun target => ih (fun source hsource => h _ (List.mem_cons_of_mem _ hsource)) _

lemma location_join {name : Text} (h : name ≠ Path.parentName) (p : Path) (here : Location) :
    (p.join ⟨.current, [name]⟩).location here = p.location here ++ [name] := by
  change (p.names ++ [name]).foldl Path.step (p.origin here) = _
  rw [List.foldl_append]
  exact if_neg h

/-- The members of the folder of pictures are in it. -/
lemma ne_parentName_of_isFile {t : FileTree} {name : Text}
    (h : t.isFile ((build / Diagram.outputFolder).join ⟨.current, [name]⟩) = true) :
    name ≠ Path.parentName := by
  rintro rfl
  obtain ⟨hl, hcontent⟩ := isFile_iff.mp h
  -- the step back leads to the build folder
  have hback : ((build / Diagram.outputFolder).join ⟨.current, [Path.parentName]⟩).location
      t.current = build.location t.current := by
    change ((build / Diagram.outputFolder).names ++ [Path.parentName]).foldl Path.step
      ((build / Diagram.outputFolder).origin t.current) = _
    rw [List.foldl_append]
    change (picturesPlace build t.current).dropLast = _
    rw [picturesPlace_eq, List.dropLast_concat]
  have hfollow := follow_append t ((build / Diagram.outputFolder).origin t.current)
    (build / Diagram.outputFolder).names [Path.parentName]
  change t.locate ((build / Diagram.outputFolder).join ⟨.current, [Path.parentName]⟩) =
    (t.locate (build / Diagram.outputFolder)).bind _ at hfollow
  cases hlocate : t.locate (build / Diagram.outputFolder) with
  | error e =>
      rw [hlocate, hl] at hfollow
      cases hfollow
  | ok l =>
      obtain ⟨-, hfolder⟩ := isFolder_iff.mp (isFolder_of_locate_div isName_outputFolder hlocate)
      rw [hback, contentAt?, hfolder] at hcontent
      exact hcontent rfl

lemma mem_strayFiles {kept : List Path} {t : FileTree} {p : Path}
    (h : p ∈ strayFiles (build / Diagram.outputFolder) kept t) :
    (∃ name, ∀ here, p.location here = picturesPlace build here ++ [name]) ∧
      ∀ q ∈ kept, q.location t.current ≠ p.location t.current := by
  rw [strayFiles, List.mem_filter, List.mem_map] at h
  obtain ⟨⟨name, hname, rfl⟩, hkept⟩ := h
  refine ⟨⟨name, ?_⟩, ?_⟩
  · rw [filesIn] at hname
    split at hname
    · exact location_join (ne_parentName_of_isFile (List.mem_filter.mp hname).2) _
    · cases hname
  · intro q hq heq
    rw [Bool.not_eq_true', ← Bool.not_eq_true, List.contains_iff_mem] at hkept
    exact hkept (List.mem_map.mpr ⟨q, hq, heq⟩)

/-- What the removal of each file respects, the removal of all respects. -/
lemma removeAll_respects {R : Workspace → Workspace → Prop} (hR : Chains R)
    {ps : List Path} (h : ∀ p ∈ ps, Respects R (change (·.remove p))) :
    Respects R (removeAll ps) := by
  induction ps with
  | nil => exact Respects.pure hR _
  | cons p ps ih =>
      have hrest := ih fun q hq => h q (List.mem_cons_of_mem _ hq)
      refine (h p List.mem_cons_self).attempt.bind hR fun result => ?_
      cases result with
      | ok _ => exact hrest.bind hR fun _ => Respects.pure hR _
      | error e => exact hrest

lemma pruneFolder_redraws (kept : List Path) :
    Respects (Redraws build) (pruneFolder (build / Diagram.outputFolder) kept) := by
  intro w
  rw [pruneFolder, after_bind_of_eq_ok (see_apply _ w)]
  refine removeAll_respects (Redraws.chains build) (fun p hp => ?_) w
  obtain ⟨⟨name, hname⟩, -⟩ := mem_strayFiles hp
  exact remove_redraws hname

/-- Placing and pruning pictures changes nothing outside their folder, whatever comes of it. -/
lemma syncPictures_redraws {sources : List (Diagram × Path)}
    (h : ∀ source ∈ sources, '/' ∉ source.1.id) :
    Respects (Redraws build) (syncPictures build sources) := by
  have hR := Redraws.chains build
  refine (placePictures_redraws h []).bind hR fun placed => ?_
  exact (pruneFolder_redraws _).bind hR fun removed => Respects.pure hR _

end Steps

/-! ### Filling a build folder -/

section Prepare

variable {tools : Toolchain} {s : Settings} {build : Path} {ds : List Diagram} {w : Workspace}

/-- The state behind diagrams that are resolved one after the other, whatever comes of them. -/
def resolveAll (tools : Toolchain) (s : Settings) (c : Cache) (ds : List Diagram) (w : Workspace) :
    Workspace :=
  afterAll (c.resolve tools s) ds w

/-- Whatever comes of diagrams, files are only added: their entries, and files in scratch
folders. -/
lemma resolveAll_grows (s : Settings) (c : Cache) (ds : List Diagram) (w : Workspace) :
    Grown (fun l => ∃ d ∈ ds, c.Brings d w.files.current l) w.files
      (resolveAll tools s c ds w).files := by
  set R := Grows w.files.current fun l => ∃ d ∈ ds, c.Brings d w.files.current l
  have hresolve : ∀ d ∈ ds, Respects R (c.resolve tools s d) := fun d hd w' hw' =>
    (Cache.resolve_grows d w' hw').mono fun hl => ⟨d, hd, hl⟩
  exact Respects.afterAll (Grows.chains _ _) hresolve w rfl

lemma resolveNamed_after (c : Cache) (d : Diagram) (w : Workspace) :
    (resolveNamed tools s c d).after w = (c.resolve tools s d).after w := by
  rw [resolveNamed, after, after, bind_apply]
  cases c.resolve tools s d w <;> rfl

lemma collect_resolveNamed_after (c : Cache) (ds : List Diagram) (w : Workspace) :
    (collect (resolveNamed tools s c) ds).after w = resolveAll tools s c ds w := by
  rw [after_collect, resolveAll, afterAll, afterAll]
  congr
  funext w d
  exact resolveNamed_after c d w

lemma mem_sourcesOf {resolved : Resolved} {source : Diagram × Path} :
    source ∈ sourcesOf resolved ds ↔ source.1 ∈ ds ∧
      ∃ state, resolved.lookup source.1.entryName = some (.ok (source.2, state)) := by
  obtain ⟨d, path⟩ := source
  rw [sourcesOf, List.mem_filterMap]
  constructor
  · rintro ⟨d', hd', heq⟩
    split at heq
    · rename_i state hlookup
      cases heq
      exact ⟨hd', state, hlookup⟩
    · cases heq
  · rintro ⟨hd, state, hlookup⟩
    refine ⟨d, hd, ?_⟩
    dsimp only at hlookup
    rw [hlookup]

/-- Filling a build folder is resolving its diagrams one after the other, and then at most a change
of its pictures. -/
lemma prepareAssets_redraws (hids : ∀ d ∈ ds, '/' ∉ d.id) (w : Workspace) :
    Redraws build (resolveAll tools s (Cache.ofBuild build s) (representatives [] ds) w)
      ((prepareAssets tools s build ds).after w) := by
  rw [← collect_resolveNamed_after, prepareAssets]
  cases h : collect (resolveNamed tools s (Cache.ofBuild build s)) (representatives [] ds) w with
  | error e w' =>
      rw [after_of_eq_error h, after_of_eq_error (bind_of_eq_error h)]
      exact PicturesChanged.refl build w'.files
  | ok resolved w' =>
      rw [after_of_eq_ok h, after_bind_of_eq_ok h]
      have hsources : ∀ source ∈ sourcesOf resolved ds, '/' ∉ source.1.id := fun source hsource =>
        hids _ (mem_sourcesOf.mp hsource).1
      exact (syncPictures_redraws hsources).bind (Redraws.chains build)
        (fun _ => Respects.pure (Redraws.chains build) _) w'

lemma strayFiles_eq_nil {t : FileTree} (h : ∀ l, t.contentAt? l = none) (folder : Path)
    (kept : List Path) : strayFiles folder kept t = [] := by
  have hfiles : t.filesIn folder = [] := by
    rw [filesIn]
    split
    · rw [List.filter_eq_nil_iff]
      intro name _ hfile
      exact (isFile_iff.mp hfile).2 (h _)
    · rfl
  rw [strayFiles, hfiles]
  rfl

/-- Without diagrams and files there is nothing to do. -/
lemma prepareAssets_nil (h : ∀ l, w.files.contentAt? l = none) :
    (prepareAssets tools s build []).after w = w := by
  have hstray := strayFiles_eq_nil h (build / Diagram.outputFolder) []
  have hprune : pruneFolder (build / Diagram.outputFolder) [] w = .ok [] w := by
    rw [pruneFolder, bind_of_eq_ok (see_apply _ w), hstray]
    rfl
  have hsync : syncPictures build [] w = .ok ([], []) w := by
    rw [syncPictures, placePictures, bind_of_eq_ok (pure_apply _ w)]
    exact bind_of_eq_ok hprune
  exact after_of_eq_ok (bind_of_eq_ok hsync)

end Prepare

end Galley
