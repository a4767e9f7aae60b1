import Galley.Proofs.Costs
import Galley.Proofs.Pruning
import Mathlib.Tactic

/-!
The account of a run that fills a build folder: where every diagram and every file went.

* `mem_valuesOf`, `map_fst_valuesOf`: the entries of a report;
* `PicturesReachable`: the path of the pictures leads to their folder, or no files are in its place;
* `syncPictures_files`: what is in the folder of pictures afterwards, and what was removed from it;
* `Accounted`: nothing is lost, nothing is left over, and nothing is compiled twice;
* `prepareInOrder_accounted`: so it is whenever a run comes to a report;
* `prepareAssets_unaccounted`: but files that no path led to before may be found or removed.
-/

namespace Galley

open BuildStep FileTree

/-! ### Reports -/

section Values

variable {α : Type} {name : Text} {ds : List Diagram}

lemma assign_of_notMem {values : List (Text × α)} (h : name ∉ values.map Prod.fst) (value : α) :
    assign name value values = values ++ [(name, value)] := by
  induction values with
  | nil => rfl
  | cons entry values ih =>
      rw [List.map_cons, List.mem_cons, not_or] at h
      rw [assign, if_neg (Ne.symm h.1), ih h.2]
      rfl

/-- Values of diagrams with new names are added at the end. -/
lemma valuesOf_eq_append (value? : Diagram → Option α) {values : List (Text × α)}
    (hids : (ds.map Diagram.id).Nodup)
    (hnew : ∀ d ∈ ds, d.id ∉ values.map Prod.fst) :
    valuesOf value? values ds =
      values ++ ds.filterMap fun d => (value? d).map fun value => (d.id, value) := by
  induction ds generalizing values with
  | nil => exact (List.append_nil _).symm
  | cons d ds ih =>
      obtain ⟨hnotMem, hids⟩ := List.nodup_cons.mp hids
      obtain ⟨hd, hnew⟩ := List.forall_mem_cons.mp hnew
      rw [valuesOf, List.foldl_cons, ← valuesOf, List.filterMap_cons]
      cases value? d with
      | none => exact ih hids hnew
      | some value =>
          rw [assignIf, assign_of_notMem hd, ih hids, List.append_assoc]
          · rfl
          · intro d' hd' hmem
            rw [List.map_append, List.mem_append] at hmem
            rcases hmem with hmem | hmem
            · exact hnew d' hd' hmem
            · have hid : d'.id = d.id := List.mem_singleton.mp hmem
              exact hnotMem (hid ▸ List.mem_map_of_mem hd')

lemma valuesOf_nil (value? : Diagram → Option α) (hids : (ds.map Diagram.id).Nodup) :
    valuesOf value? [] ds = ds.filterMap fun d => (value? d).map fun value => (d.id, value) :=
  valuesOf_eq_append value? hids fun _ _ => List.not_mem_nil

/-- The diagrams that have a value, in their order. -/
lemma map_fst_valuesOf (value? : Diagram → Option α) (hids : (ds.map Diagram.id).Nodup) :
    (valuesOf value? [] ds).map Prod.fst =
      (ds.filter fun d => (value? d).isSome).map Diagram.id := by
  rw [valuesOf_nil value? hids]
  clear hids
  induction ds with
  | nil => rfl
  | cons d ds ih =>
      rw [List.filterMap_cons, List.filter_cons]
      cases value? d with
      | none => exact ih
      | some value => exact congrArg (d.id :: ·) ih

lemma mem_valuesOf (value? : Diagram → Option α) (hids : (ds.map Diagram.id).Nodup) {d : Diagram}
    (hd : d ∈ ds) {value : α} :
    (d.id, value) ∈ valuesOf value? [] ds ↔ value? d = some value := by
  rw [valuesOf_nil value? hids, List.mem_filterMap]
  constructor
  · rintro ⟨d', hd', heq⟩
    obtain ⟨value', hvalue, hpair⟩ := Option.map_eq_some_iff.mp heq
    obtain ⟨hid, rfl⟩ := Prod.mk.inj hpair
    rwa [List.inj_on_of_nodup_map hids hd' hd hid] at hvalue
  · intro hvalue
    exact ⟨d, hd, by rw [hvalue]; rfl⟩

end Values

/-- What was resolved came to a state or to a failure, and not to both. -/
lemma isSome_failureIn {resolved : Resolved} {d : Diagram}
    {result : Except RenderError (Path × PictureState)}
    (h : resolved.lookup d.entryName = some result) :
    (failureIn resolved d).isSome = !(stateIn resolved d).isSome := by
  rw [failureIn, stateIn, h]
  rcases result with e | ⟨path, state⟩ <;> rfl

lemma stateIn_congr {d d' : Diagram} (h : d.entryName = d'.entryName) (resolved : Resolved) :
    stateIn resolved d = stateIn resolved d' := by
  rw [stateIn, stateIn, h]

section Lists

variable {resolved : Resolved} {ds : List Diagram} {d : Diagram}

lemma mem_statesOf (hids : (ds.map Diagram.id).Nodup) (hd : d ∈ ds) {state : PictureState} :
    (d.id, state) ∈ statesOf resolved ds ↔ stateIn resolved d = some state := by
  rw [statesOf_eq, mem_valuesOf _ hids hd]

/-- The diagrams with a state and those with a failure are all diagrams, and no diagram is both. -/
lemma states_failures_perm (hids : (ds.map Diagram.id).Nodup)
    (h : ∀ d ∈ ds, ∃ result, resolved.lookup d.entryName = some result) :
    ((statesOf resolved ds).map Prod.fst ++ (failuresOf resolved ds).map Prod.fst).Perm
      (ds.map Diagram.id) := by
  have hfailed : (ds.filter fun d => (failureIn resolved d).isSome) =
      ds.filter fun d => !(stateIn resolved d).isSome := by
    refine List.filter_congr fun d hd => ?_
    obtain ⟨result, hresult⟩ := h d hd
    exact isSome_failureIn hresult
  rw [statesOf_eq, failuresOf_eq, map_fst_valuesOf _ hids, map_fst_valuesOf _ hids, hfailed,
    ← List.map_append]
  exact (List.filter_append_perm _ ds).map _

end Lists

/-! ### The folder of pictures -/

section Pictures

variable {build : Path} {name : Text} {w w' : Workspace}

/-- The path of the pictures leads to their folder, or no files are in its place. -/
def PicturesReachable (build : Path) (t : FileTree) : Prop :=
  t.isFolder (build / Diagram.outputFolder) = true ∨
    ∀ name, t.contentAt? (picturesPlace build t.current ++ [name]) = none

/-- A file that stays as it is stays a picture; none is new if the path of the pictures led to
them before. -/
lemma isFile_of_foldersKept {t t' : FileTree} (hkept : FoldersKept t t')
    (hreach : PicturesReachable build t)
    (hsame : t'.contentAt? (picturesPlace build t.current ++ [name]) =
      t.contentAt? (picturesPlace build t.current ++ [name])) :
    t'.isFile (pictureFile build name) = true ↔ t.isFile (pictureFile build name) = true := by
  rw [isFile_pictureFile, isFile_pictureFile, hkept.current, hsame]
  refine and_congr_right fun _ => and_congr_left fun hcontent => ?_
  refine ⟨fun _ => ?_, hkept.isFolder⟩
  rcases hreach with hfolder | hnone
  · exact hfolder
  · exact absurd (hnone name) hcontent

/-- After placing and pruning, the files in the folder of pictures are the pictures that were
placed, and the other ones that could be reached before were removed. -/
lemma syncPictures_files {sources : List (Diagram × Path)} {outputs : List (Text × Path)}
    {removed : List Path} (hids : ((sources.map Prod.fst).map Diagram.id).Nodup)
    (hslash : ∀ source ∈ sources, '/' ∉ source.1.id)
    (hsources : ∀ source ∈ sources, ∀ name, source.2.location w.files.current ≠
      picturesPlace build w.files.current ++ [name])
    (h : syncPictures build sources w = .ok (outputs, removed) w') :
    (∀ name, w'.files.isFile (pictureFile build name) = true ↔
      pictureFile build name ∈ outputs.map Prod.snd) ∧
    (PicturesReachable build w.files →
      ∃ names : List Text, removed = names.map (pictureFile build) ∧ names.Pairwise (· < ·) ∧
        ∀ name, name ∈ names ↔ w.files.isFile (pictureFile build name) = true ∧
          pictureFile build name ∉ outputs.map Prod.snd) := by
  obtain ⟨outputs, w₁, hplace, hrest⟩ := bind_eq_ok h
  obtain ⟨removed, w₂, hprune, hpure⟩ := bind_eq_ok hrest
  cases hpure
  have hplaced := placePictures_eq_ok (by rwa [List.map_map] at hids) hslash hsources hplace
  have hredraws := @placePictures_redraws build sources hslash [] w
  rw [after_of_eq_ok hplace] at hredraws
  -- the files that are kept
  set kept := sources.map fun source => source.1.assetName with hkept
  have houtputs : outputs.map Prod.snd = kept.map (pictureFile build) := by
    rw [placePictures_outputs hplace, valuesOf_nil _ hids, List.map_filterMap, hkept, List.map_map]
    dsimp only [Option.map_some]
    rw [List.filterMap_eq_map', List.map_map]
    exact List.map_congr_left fun source hsource => div_assetPath_eq (hslash source hsource) build
  have hmem : ∀ name, pictureFile build name ∈ outputs.map Prod.snd ↔ name ∈ kept := fun name => by
    rw [houtputs, List.mem_map_of_injective (pictureFile_injective build)]
  have hparent : Path.parentName ∉ kept := by
    intro hmem
    obtain ⟨source, hsource, heq⟩ := List.mem_map.mp hmem
    exact (isName_assetName (hslash source hsource)).ne_parent heq
  rw [houtputs] at hprune
  obtain ⟨⟨names, hremoved, hordered, hnames⟩, hstay⟩ := pruneFolder_eq_ok hparent hprune
  refine ⟨fun name => ?_, fun hreach => ⟨names, hremoved, hordered, fun name => ?_⟩⟩
  · rw [hstay, hmem, and_iff_right_iff_imp]
    intro hname
    obtain ⟨source, hsource, rfl⟩ := List.mem_map.mp hname
    obtain ⟨content, -, hcontent⟩ := hplaced.content source hsource
    rw [isFile_pictureFile, hplaced.current, hcontent]
    exact ⟨(isName_assetName (hslash source hsource)).ne_parent, hplaced.folder source hsource,
      Option.some_ne_none _⟩
  · rw [hnames, hmem]
    refine and_congr_left fun hname => ?_
    refine isFile_of_foldersKept hredraws.toFoldersKept hreach (hplaced.elsewhere _ ?_)
    intro source hsource heq
    exact hname (List.mem_map.mpr ⟨source, hsource, (child_inj heq).symm⟩)

end Pictures

/-! ### Runs -/

section Run

variable {tools : Toolchain} {s : Settings} {build : Path} {ds workers : List Diagram}
  {resolved : Resolved} {report : AssetReport} {w w' : Workspace}

/-- Resolving diagrams leaves the folder of pictures alone. -/
lemma contentAt?_of_grown (name : Text)
    (hplace : (Cache.ofBuild build s).folder.location w.files.current ≠
      picturesPlace build w.files.current)
    (h : Grown (fun l => ∃ d ∈ workers, (Cache.ofBuild build s).Brings d w.files.current l)
      w.files w'.files) :
    w'.files.contentAt? (picturesPlace build w.files.current ++ [name]) =
      w.files.contentAt? (picturesPlace build w.files.current ++ [name]) := by
  refine h.contentAt? ?_
  rintro ⟨d, -, hentry | hscratch⟩
  · rw [Cache.location_entryPath] at hentry
    exact hplace (List.append_inj' hentry rfl).1.symm
  · refine not_inScratch (fun hprefix => ?_) name hscratch
    rw [picturesPlace_eq, Cache.ofBuild, Path.location_div isName_workFolder] at hprefix
    have heq := hprefix.eq_of_length (by rw [List.length_append, List.length_append]; rfl)
    exact absurd (child_inj heq) (by decide)

/-- The folder of the cache is there behind a diagram that was resolved. -/
lemma Cache.isFolder_of_collect {c : Cache} {r : Diagram} (hr : r ∈ workers)
    (h : collect (resolveNamed tools s c) workers w = .ok resolved w') :
    w'.files.isFolder c.folder = true := by
  cases workers with
  | nil => cases hr
  | cons d workers =>
      obtain ⟨named, w₁, rest, hfirst, hrest, -⟩ := collect_cons_eq_ok h
      have hgrown := @resolveAll_grows tools s c workers w₁
      rw [← collect_resolveNamed_after, after_of_eq_ok hrest] at hgrown
      exact hgrown.isFolder (Cache.touched_of_resolve (Cache.resolveNamed_eq_ok hfirst).2).folder

/-- Diagrams of which one for each entry was resolved: what came of them, and the files since. -/
structure Cache.Represented (c : Cache) (ds : List Diagram) (w : Workspace) (resolved : Resolved)
    (w' : Workspace) : Prop where
  lookup : ∀ d ∈ ds, ∃ result, resolved.lookup d.entryName = some result ∧
    ∀ path state, result = .ok (path, state) → path = c.entryPath d
  folder : ∀ d ∈ ds, w'.files.isFolder c.folder = true
  hit : ∀ d ∈ ds, w.files.isFile (c.entryPath d) = true → stateIn resolved d = some .cached
  found : c.Reachable w.files → ∀ d ∈ ds, stateIn resolved d = some .cached →
    w.files.isFile (c.entryPath d) = true

/-- What came of the representatives came of all diagrams. -/
lemma Cache.represented_of_collect {c : Cache} (hworkers : workers.Perm (representatives [] ds))
    (hcollect : collect (resolveNamed tools s c) workers w = .ok resolved w')
    (h : c.Collected workers w resolved w') : c.Represented ds w resolved w' := by
  have hrep : ∀ d ∈ ds, ∃ r ∈ workers, r.entryName = d.entryName := by
    intro d hd
    obtain ⟨r, hr, hname⟩ := (exists_representative [] hd).resolve_left List.not_mem_nil
    exact ⟨r, hworkers.mem_iff.mpr hr, hname⟩
  refine ⟨fun d hd => ?_, fun d hd => ?_, fun d hd hfile => ?_, fun hreach d hd hcached => ?_⟩ <;>
    obtain ⟨r, hr, hname⟩ := hrep d hd
  · rw [entryPath, ← hname]
    exact h.lookup r hr
  · exact isFolder_of_collect hr hcollect
  · rw [entryPath, ← hname] at hfile
    rw [← stateIn_congr hname]
    exact h.hit r hr hfile
  · rw [← stateIn_congr hname] at hcached
    rw [entryPath, ← hname]
    exact h.found hreach r hr hcached

namespace Cache.Represented

variable {c : Cache}

lemma mem_sourcesOf_of_stateIn (h : c.Represented ds w resolved w') {d : Diagram} (hd : d ∈ ds)
    {state : PictureState} (hstate : stateIn resolved d = some state) :
    (d, c.entryPath d) ∈ sourcesOf resolved ds := by
  obtain ⟨result, hresult, hpath⟩ := h.lookup d hd
  rw [stateIn, hresult] at hstate
  rcases result with e | ⟨path, state'⟩
  · cases hstate
  · rw [hpath path state' rfl] at hresult
    exact mem_sourcesOf.mpr ⟨hd, state', hresult⟩

lemma snd_of_mem_sourcesOf (h : c.Represented ds w resolved w') {source : Diagram × Path}
    (hsource : source ∈ sourcesOf resolved ds) : source.2 = c.entryPath source.1 := by
  obtain ⟨hmem, state, hstate⟩ := mem_sourcesOf.mp hsource
  obtain ⟨result, hresult, hpath⟩ := h.lookup _ hmem
  rw [hresult] at hstate
  exact hpath _ state (Option.some.inj hstate)

/-- The octets of an entry stay what they are while pictures are placed. -/
lemma read_entryPath (h : c.Represented ds w resolved w') {d : Diagram} (hd : d ∈ ds)
    (hplace : c.folder.location w'.files.current ≠ picturesPlace build w'.files.current)
    {w'' : Workspace} (hredraws : Redraws build w' w'') {content : Octets}
    (hcontent : w'.files.contentAt? ((c.entryPath d).location w'.files.current) = some content) :
    w''.files.read (c.entryPath d) = .ok content := by
  have hlocate := locate_div_of_isFolder (isName_entryName d) (hredraws.isFolder (h.folder d hd))
  rw [read_eq_ok, hredraws.current]
  rw [hredraws.current] at hlocate
  refine ⟨hlocate, ?_⟩
  rw [location_entryPath] at hcontent ⊢
  rw [hredraws.content fun name heq => hplace (List.append_inj' heq rfl).1, hcontent]

/-- Placing and pruning after diagrams were resolved: those with a state have a picture, which has
the octets of the entry, and they are all that is in the folder of pictures. -/
lemma pictures_of_sync (h : c.Represented ds w resolved w')
    (hplace : c.folder.location w'.files.current ≠ picturesPlace build w'.files.current)
    (hids : (ds.map Diagram.id).Nodup) (hslash : ∀ d ∈ ds, '/' ∉ d.id) {w'' : Workspace}
    {outputs : List (Text × Path)} {removed : List Path}
    (hsync : syncPictures build (sourcesOf resolved ds) w' = .ok (outputs, removed) w'') :
    (statesOf resolved ds).map Prod.fst = outputs.map Prod.fst ∧
      (∀ d ∈ ds, ∀ place, (d.id, place) ∈ outputs →
        place = pictureFile build d.assetName ∧ ∃ content, w''.files.read place = .ok content ∧
          w''.files.read (c.entryPath d) = .ok content) ∧
      (∀ name, w''.files.isFile (pictureFile build name) = true ↔
        pictureFile build name ∈ outputs.map Prod.snd) ∧
      (PicturesReachable build w'.files →
        ∃ names : List Text, removed = names.map (pictureFile build) ∧ names.Pairwise (· < ·) ∧
          ∀ name, name ∈ names ↔ w'.files.isFile (pictureFile build name) = true ∧
            pictureFile build name ∉ outputs.map Prod.snd) := by
  have hids' : (((sourcesOf resolved ds).map Prod.fst).map Diagram.id).Nodup :=
    ((sourcesOf_sublist resolved ds).map _).nodup hids
  have hslash' : ∀ source ∈ sourcesOf resolved ds, '/' ∉ source.1.id := fun source hsource =>
    hslash _ (mem_sourcesOf.mp hsource).1
  have hsources : ∀ source ∈ sourcesOf resolved ds, ∀ name,
      source.2.location w'.files.current ≠ picturesPlace build w'.files.current ++ [name] := by
    intro source hsource name heq
    rw [h.snd_of_mem_sourcesOf hsource, location_entryPath] at heq
    exact hplace (List.append_inj' heq rfl).1
  obtain ⟨houtputs, hpictures⟩ := syncPictures_eq_ok hids' hslash' hsources hsync
  rw [valuesOf_sourcesOf] at houtputs
  have hredraws := @syncPictures_redraws build (sourcesOf resolved ds) hslash' w'
  rw [after_of_eq_ok hsync] at hredraws
  refine ⟨?_, fun d hd place hplaced => ?_, syncPictures_files hids' hslash' hsources hsync⟩
  · rw [houtputs, statesOf_eq, map_fst_valuesOf _ hids, map_fst_valuesOf _ hids]
    simp only [Option.isSome_map]
  · rw [houtputs, mem_valuesOf _ hids hd] at hplaced
    obtain ⟨state, hstate, rfl⟩ := Option.map_eq_some_iff.mp hplaced
    obtain ⟨content, hcontent, hread⟩ := hpictures _ (h.mem_sourcesOf_of_stateIn hd hstate)
    exact ⟨div_assetPath_eq (hslash d hd) build, content, hread,
      h.read_entryPath hd hplace hredraws hcontent⟩

end Cache.Represented

/-- Resolving diagrams neither makes nor breaks the way to the pictures, as far as there are any. -/
lemma pictures_of_grown
    (hplace : (Cache.ofBuild build s).folder.location w.files.current ≠
      picturesPlace build w.files.current)
    (h : Grown (fun l => ∃ d ∈ workers, (Cache.ofBuild build s).Brings d w.files.current l)
      w.files w'.files) (hreach : PicturesReachable build w.files) :
    PicturesReachable build w'.files ∧ ∀ name,
      w'.files.isFile (pictureFile build name) = true ↔
        w.files.isFile (pictureFile build name) = true := by
  have hsame := fun name => contentAt?_of_grown name hplace h
  refine ⟨?_, fun name => isFile_of_foldersKept h.toKept.folders hreach (hsame name)⟩
  rcases hreach with hfolder | hnone
  · exact Or.inl (h.isFolder hfolder)
  · refine Or.inr fun name => ?_
    rw [h.current, hsame, hnone]

/-- The account of a run: every diagram has either a picture and a state or a failure; the files in
the folder of pictures are the pictures, each one with the octets of its entry in the cache, and the
other files were removed; diagrams whose entries were there are found, and only these; and for each
entry that was not found there was one call of a compiler, or two. -/
structure Accounted (s : Settings) (build : Path) (workers ds : List Diagram) (w : Workspace)
    (report : AssetReport) (w' : Workspace) : Prop where
  split : (report.outputs.map Prod.fst ++ report.failures.map Prod.fst).Perm (ds.map Diagram.id)
  states : report.states.map Prod.fst = report.outputs.map Prod.fst
  files : ∀ name, w'.files.isFile (pictureFile build name) = true ↔
    pictureFile build name ∈ report.outputs.map Prod.snd
  outputs : ∀ d ∈ ds, ∀ place, (d.id, place) ∈ report.outputs →
    place = pictureFile build d.assetName ∧ ∃ content, w'.files.read place = .ok content ∧
      w'.files.read ((Cache.ofBuild build s).entryPath d) = .ok content
  removed : PicturesReachable build w.files →
    ∃ names : List Text, report.removed = names.map (pictureFile build) ∧
      names.Pairwise (· < ·) ∧ ∀ name, name ∈ names ↔
        w.files.isFile (pictureFile build name) = true ∧
          pictureFile build name ∉ report.outputs.map Prod.snd
  hit : ∀ d ∈ ds, w.files.isFile ((Cache.ofBuild build s).entryPath d) = true →
    (d.id, PictureState.cached) ∈ report.states
  found : (Cache.ofBuild build s).Reachable w.files → ∀ d ∈ ds,
    (d.id, PictureState.cached) ∈ report.states →
      w.files.isFile ((Cache.ofBuild build s).entryPath d) = true
  cost : ∃ costs : List (List Text),
    List.Forall₂ Cost (workers.filter fun r => (r.id, PictureState.cached) ∉ report.states) costs ∧
      w'.documents = w.documents ++ costs.flatten

/-- Whatever the compiler does and whatever was there before, a run that comes to a report accounts
for every diagram and every file. -/
theorem prepareInOrder_accounted
    (hplace : (Cache.ofBuild build s).folder.location w.files.current ≠
      picturesPlace build w.files.current)
    (hids : (ds.map Diagram.id).Nodup) (hslash : ∀ d ∈ ds, '/' ∉ d.id)
    (hworkers : workers.Perm (representatives [] ds))
    (h : prepareInOrder tools s build workers ds w = .ok report w') :
    Accounted s build workers ds w report w' := by
  obtain ⟨resolved, w₁, hcollect, hrest⟩ := bind_eq_ok h
  obtain ⟨⟨outputs, removed⟩, w₂, hsync, hpure⟩ := bind_eq_ok hrest
  cases hpure
  have hnodup : (workers.map Diagram.entryName).Nodup :=
    (hworkers.map _).nodup_iff.mpr (representatives_nodup [] ds).1
  have hcollected := Cache.collected_of_collect hnodup hcollect
  have hrep := Cache.represented_of_collect hworkers hcollect hcollected
  have hgrown := @resolveAll_grows tools s (Cache.ofBuild build s) workers w
  rw [← collect_resolveNamed_after, after_of_eq_ok hcollect] at hgrown
  obtain ⟨hstates, houtputs, hfiles, hremoved⟩ :=
    hrep.pictures_of_sync (by rwa [hgrown.current]) hids hslash hsync
  have hcalls := @syncPictures_calls build (sourcesOf resolved ds) w₁
  rw [after_of_eq_ok hsync] at hcalls
  refine ⟨?_, hstates, hfiles, houtputs, fun hreach => ?_,
    fun d hd hfile => (mem_statesOf hids hd).mpr (hrep.hit d hd hfile),
    fun hreach d hd hcached => hrep.found hreach d hd ((mem_statesOf hids hd).mp hcached), ?_⟩
  · dsimp only
    rw [← hstates]
    exact states_failures_perm hids fun d hd =>
      (hrep.lookup d hd).imp fun result hresult => hresult.1
  · obtain ⟨hreach₁, hsame⟩ := pictures_of_grown hplace hgrown hreach
    obtain ⟨names, hnames, hordered, hmem⟩ := hremoved hreach₁
    exact ⟨names, hnames, hordered, fun name => by rw [hmem, hsame]⟩
  · obtain ⟨costs, hcosts, hdocuments⟩ := hcollected.cost
    have hfilter : (workers.filter fun r => stateIn resolved r ≠ some .cached) =
        workers.filter fun r => (r.id, PictureState.cached) ∉ statesOf resolved ds := by
      refine List.filter_congr fun r hr => ?_
      rw [decide_eq_decide, Ne, mem_statesOf hids
        (representatives_subset [] ds (hworkers.mem_iff.mp hr))]
    refine ⟨costs, hfilter ▸ hcosts, ?_⟩
    rw [← hdocuments, Workspace.documents, hcalls, Workspace.documents]

end Run

section Examples

/-- A diagram that is found, two that share the picture of a message, and one without any picture,
resolved backwards, in a build folder with an old picture of the last one. -/
theorem prepareInOrder_accounted_sample :
    let a : Diagram := ⟨"tikz-0".toList, "a".toList, {}⟩
    let b : Diagram := ⟨"tikz-1".toList, "b!".toList, {}⟩
    let b' : Diagram := ⟨"tikz-2".toList, "b!".toList, {}⟩
    let c : Diagram := ⟨"tikz-3".toList, "c?".toList, {}⟩
    let settings : Settings := { command := [], cacheFolder := some (.ofText "c".toList) }
    let build := Path.ofText "build".toList
    let w : Workspace := ⟨⟨[], [(["c".toList], .folder),
      (["c".toList, a.entryName], .file [1] false), (["build".toList], .folder),
      (["build".toList, "tikz".toList], .folder),
      (["build".toList, "tikz".toList, c.assetName], .file [2] false)]⟩, [], []⟩
    let run := prepareInOrder .sample settings build [c, b, a] [a, b, b', c] w
    ((Cache.ofBuild build settings).folder.location w.files.current ≠
        picturesPlace build w.files.current ∧
      ([a, b, b', c].map Diagram.id).Nodup ∧ (∀ d ∈ [a, b, b', c], '/' ∉ d.id) ∧
      [c, b, a].Perm (representatives [] [a, b, b', c])) ∧
    ∃ report v, run = .ok report v ∧
      Accounted settings build [c, b, a] [a, b, b', c] w report v := by
  intro a b b' c settings build w run
  have hplace : (Cache.ofBuild build settings).folder.location w.files.current ≠
      picturesPlace build w.files.current := by
    decide +kernel
  have hids : ([a, b, b', c].map Diagram.id).Nodup := by decide
  have hslash : ∀ d ∈ [a, b, b', c], '/' ∉ d.id := by decide
  have hworkers : [c, b, a].Perm (representatives [] [a, b, b', c]) := by decide +kernel
  have hok : ((prepareInOrder .sample settings build [c, b, a] [a, b, b', c]).outcome w).isOk := by
    decide +kernel
  obtain ⟨report, v, hrun⟩ := exists_eq_ok hok
  exact ⟨⟨hplace, hids, hslash, hworkers⟩, report, v, hrun,
    prepareInOrder_accounted hplace hids hslash hworkers hrun⟩

/-- Where a path goes through a folder that is not there yet, it does not lead to the files behind
that folder until a run has made it. So of two diagrams with entries only the second one is found,
and a file in the folder of pictures is not removed when there are no diagrams, but it is when there
is one. -/
theorem prepareAssets_unaccounted :
    let a : Diagram := ⟨"tikz-0".toList, "a".toList, {}⟩
    let b : Diagram := ⟨"tikz-1".toList, "b".toList, {}⟩
    let settings : Settings := { command := [], cacheFolder := some (.ofText "x/../c".toList) }
    let build := Path.ofText "build".toList
    let cache := Cache.ofBuild build settings
    let w : Workspace := ⟨⟨[], [(["c".toList], .folder),
      (["c".toList, a.entryName], .file [1] false),
      (["c".toList, b.entryName], .file [1] false)]⟩, [], []⟩
    let run := prepareAssets .sample settings build [a, b]
    let plain : Settings := { command := [] }
    let hidden := Path.ofText "x/../b".toList
    let w' : Workspace := ⟨⟨[], [(["b".toList], .folder), (["b".toList, "tikz".toList], .folder),
      (["b".toList, "tikz".toList, "old.png".toList], .file [1] false)]⟩, [], []⟩
    let removed (ds : List Diagram) :=
      ((prepareAssets .sample plain hidden ds).outcome w').toOption.map AssetReport.removed
    (cache.folder.location w.files.current ≠ picturesPlace build w.files.current ∧
      ([a, b].map Diagram.id).Nodup ∧ (∀ d ∈ [a, b], '/' ∉ d.id) ∧
      (Cache.ofBuild hidden plain).folder.location w'.files.current ≠
        picturesPlace hidden w'.files.current) ∧
    ((run.outcome w).toOption.map AssetReport.states =
        some [(a.id, .compiled), (b.id, .cached)] ∧
      (run.after w).documents = [a.document] ∧
      (∀ d ∈ [a, b], cache.held? w.files d = some [1] ∧
        w.files.isFile (cache.entryPath d) = false)) ∧
    removed [] = some [] ∧ removed [a] = some [pictureFile hidden "old.png".toList] ∧
      w'.files.isFile (pictureFile hidden "old.png".toList) = false := by
  refine ⟨⟨?_, ?_, ?_, ?_⟩, ⟨?_, ?_, ?_⟩, ?_, ?_, ?_⟩ <;> decide +kernel

end Examples

end Galley
