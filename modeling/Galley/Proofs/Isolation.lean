import Galley.Proofs.Placing
import Galley.Proofs.Transparency
import Mathlib.Tactic

/-!
Diagrams of one document do not disturb each other.

* `prepareInOrder`: filling a build folder with the diagrams resolved in any order;
* `Cache.Reachable`: the path of a cache leads to its folder, or no files are in its place;
* `Toolchain.entryOf`: what comes of a diagram, given what the cache holds for it;
* `Cache.resolve_of_reachable`: a diagram is resolved as its entry says, and other entries stay;
* `prepareInOrder_about`, `prepareAssets_about`: what a report and the pictures say of a diagram
  depends on nothing else;
* `prepareInOrder_agree`: so it is the same in every order and beside every other diagram;
* `prepareAssets_disagree`: without a path to the cache, it is not.
-/

namespace Galley

open BuildStep FileTree

variable {tools : Toolchain} {s : Settings} {c : Cache} {d : Diagram} {w w' : Workspace}

/-! ### Orders -/

/-- Makes sure that every diagram has its picture in the build folder, where `workers` are the
diagrams that are resolved, in their order. -/
def prepareInOrder (tools : Toolchain) (s : Settings) (build : Path) (workers ds : List Diagram) :
    BuildStep AssetReport := do
  let cache := Cache.ofBuild build s
  let resolved ← collect (resolveNamed tools s cache) workers
  let (outputs, removed) ← syncPictures build (sourcesOf resolved ds)
  return ⟨outputs, statesOf resolved ds, failuresOf resolved ds, removed⟩

/-- The program resolves the first diagram of each entry, in the order of the document. This is one
of the orders of `prepareInOrder`, so that what holds in every order holds of the program. -/
lemma prepareAssets_eq (tools : Toolchain) (s : Settings) (build : Path) (ds : List Diagram) :
    prepareAssets tools s build ds = prepareInOrder tools s build (representatives [] ds) ds := rfl

/-- Every entry has a representative. -/
lemma exists_representative {ds : List Diagram} (seen : List Text) (hd : d ∈ ds) :
    d.entryName ∈ seen ∨ ∃ r ∈ representatives seen ds, r.entryName = d.entryName := by
  induction ds generalizing seen with
  | nil => cases hd
  | cons d' ds ih =>
      rw [representatives]
      rcases List.mem_cons.mp hd with rfl | hd
      · split_ifs with hseen
        · exact Or.inl (List.contains_iff_mem.mp hseen)
        · exact Or.inr ⟨d, List.mem_cons_self, rfl⟩
      · split_ifs with hseen
        · exact ih seen hd
        · rcases ih (d'.entryName :: seen) hd with hmem | ⟨r, hr, hname⟩
          · rcases List.mem_cons.mp hmem with heq | hmem
            · exact Or.inr ⟨d', List.mem_cons_self, heq.symm⟩
            · exact Or.inl hmem
          · exact Or.inr ⟨r, List.mem_cons_of_mem _ hr, hname⟩

/-- No entry has two representatives, and none that was seen has one. -/
lemma representatives_nodup (seen : List Text) (ds : List Diagram) :
    ((representatives seen ds).map Diagram.entryName).Nodup ∧
      ∀ r ∈ representatives seen ds, r.entryName ∉ seen := by
  induction ds generalizing seen with
  | nil => exact ⟨List.nodup_nil, fun _ h => nomatch h⟩
  | cons d ds ih =>
      rw [representatives]
      split_ifs with hseen
      · exact ih seen
      · obtain ⟨hnodup, hnew⟩ := ih (d.entryName :: seen)
        rw [List.contains_iff_mem] at hseen
        refine ⟨List.nodup_cons.mpr ⟨?_, hnodup⟩, ?_⟩
        · intro hmem
          obtain ⟨r, hr, hname⟩ := List.mem_map.mp hmem
          exact hnew r hr (hname ▸ List.mem_cons_self)
        · intro r hr
          rcases List.mem_cons.mp hr with rfl | hr
          · exact hseen
          · exact fun hmem => hnew r hr (List.mem_cons_of_mem _ hmem)

/-! ### Entries -/

/-- What comes of a diagram, given what the cache holds for it. -/
def Toolchain.entryOf (tools : Toolchain) (s : Settings) (found? : Option Octets) (d : Diagram) :
    Except RenderError (Octets × PictureState) :=
  match found? with
  | some content => .ok (content, .cached)
  | none => tools.pictureOf s d

namespace Cache

/-- The path of a cache leads to its folder, or no files are in its place. -/
def Reachable (c : Cache) (t : FileTree) : Prop :=
  t.isFolder c.folder = true ∨
    ∀ name, t.contentAt? (c.folder.location t.current ++ [name]) = none

/-- What the cache holds for a diagram. -/
def held? (c : Cache) (t : FileTree) (d : Diagram) : Option Octets :=
  t.contentAt? ((c.entryPath d).location t.current)

lemma isFile_of_reachable {t : FileTree} (h : c.Reachable t) (d : Diagram) :
    t.isFile (c.entryPath d) = (c.held? t d).isSome := by
  rcases h with hfolder | hnone
  · exact isFile_div (isName_entryName d) hfolder
  · have hheld : c.held? t d = none := by
      rw [held?, location_entryPath]
      exact hnone _
    rw [hheld, Option.isSome_none, Bool.eq_false_iff]
    exact fun hfile => (isFile_iff.mp hfile).2 hheld

/-- A diagram in a cache that can be reached: what comes of it, that its entry is what the cache
holds for it afterwards, if anything, and that nothing else changes in the cache. -/
structure ResolvedTo (tools : Toolchain) (s : Settings) (c : Cache) (d : Diagram)
    (w w' : Workspace) : Prop where
  current : w'.files.current = w.files.current
  reachable : c.Reachable w'.files
  held : ∀ {content}, c.held? w'.files d = some content →
    ∃ state, tools.entryOf s (c.held? w.files d) d = .ok (content, state)
  elsewhere : ∀ {name}, name ≠ d.entryName →
    w'.files.contentAt? (c.folder.location w.files.current ++ [name]) =
      w.files.contentAt? (c.folder.location w.files.current ++ [name])

/-- The result for a diagram, given what the cache holds for it. -/
def resultOf (tools : Toolchain) (s : Settings) (c : Cache) (t : FileTree) (d : Diagram) :
    Except RenderError (Path × PictureState) :=
  (tools.entryOf s (c.held? t d) d).map fun picture => (c.entryPath d, picture.2)

/-- A tree with the same files directly in a cache, whose folder is there. -/
structure SameEntries (c : Cache) (t t' : FileTree) : Prop where
  current : t'.current = t.current
  folder : t'.isFolder c.folder = true
  content : ∀ name, t'.contentAt? (c.folder.location t.current ++ [name]) =
    t.contentAt? (c.folder.location t.current ++ [name])

/-- Making the folders of a cache and working in scratch folders leaves the entries alone. -/
lemma sameEntries_of_scratched {start t t' t'' : FileTree}
    (hfolder : start.makeFolders c.folder = .ok () t) (hwork : t.makeFolders c.work = .ok () t')
    (hscratched : Scratched (c.work.location t'.current) t' t'') : c.SameEntries start t'' := by
  have hadded := (added_of_makeFolders hfolder).trans (added_of_makeFolders hwork)
  have hthere : t'.isFolder c.folder = true :=
    (added_of_makeFolders hwork).toKept.isFolder (makeFolders_isFolder hfolder)
  have hplace : t'.get? (c.folder.location start.current) ≠ none := by
    rw [← hadded.current, (isFolder_iff.mp hthere).2]
    exact Option.some_ne_none _
  exact ⟨hscratched.current.trans hadded.current, hscratched.toKept.isFolder hthere,
    fun name => (hscratched.contentAt?_member hplace name).trans (hadded.contentAt? _)⟩

/-- Storing an entry leaves the other ones alone. -/
lemma SameEntries.content_of_stored {t t' t'' : FileTree} {content : Octets}
    (h : c.SameEntries t t')
    (hstored : Stored ((c.entryPath d).location t.current) content t' t'') {name : Text}
    (hname : name ≠ d.entryName) :
    t''.contentAt? (c.folder.location t.current ++ [name]) =
      t.contentAt? (c.folder.location t.current ++ [name]) := by
  rw [location_entryPath] at hstored
  rw [contentAt?_congr (hstored.get?_of_ne fun heq => hname (child_inj heq)), h.content]

/-- Where the cache holds nothing for a diagram, and its picture is stored if nothing is in the
way. -/
lemma resolvedTo_of_stored {t : FileTree} (hsame : c.SameEntries w.files t)
    (hheld : c.held? w.files d = none) {picture : Octets × PictureState}
    (hpicture : tools.pictureOf s d = .ok picture)
    (hstored : Stored ((c.entryPath d).location w.files.current) picture.1 t w'.files) :
    ResolvedTo tools s c d w w' := by
  have hcurrent : w'.files.current = w.files.current := hstored.current.trans hsame.current
  refine ⟨hcurrent, Or.inl (hstored.kept.isFolder hsame.folder), fun {content} hcontent => ?_,
    hsame.content_of_stored hstored⟩
  rw [location_entryPath] at hstored
  rw [held?, hcurrent, location_entryPath] at hcontent
  cases hnode : t.get? (c.folder.location w.files.current ++ [d.entryName]) with
  | none =>
      rw [contentAt?_eq_some.mpr ⟨false, hstored.get?_of_none hnode⟩] at hcontent
      cases hcontent
      rw [hheld]
      exact ⟨picture.2, hpicture⟩
  | some node =>
      -- what is in the way is no file, since there was none before
      rw [contentAt?_congr ((hstored.kept.get? hnode).trans hnode.symm), hsame.content,
        ← location_entryPath, ← held?, hheld] at hcontent
      cases hcontent

/-- Where the cache holds nothing for a diagram, and there is no picture of it. -/
lemma resolvedTo_of_sameEntries (hsame : c.SameEntries w.files w'.files)
    (hheld : c.held? w.files d = none) : ResolvedTo tools s c d w w' := by
  refine ⟨hsame.current, Or.inl hsame.folder, fun {content} hcontent => ?_,
    fun _ => hsame.content _⟩
  rw [held?, hsame.current, location_entryPath, hsame.content, ← location_entryPath, ← held?,
    hheld] at hcontent
  cases hcontent

/-- A diagram is resolved as what the cache holds for it says. -/
lemma resolve_of_reachable (htools : tools.Steady) (h : c.Reachable w.files)
    {result : Except RenderError (Path × PictureState)}
    (hresolve : c.resolve tools s d w = .ok result w') :
    result = c.resultOf tools s w.files d ∧ ResolvedTo tools s c d w w' := by
  have hfile := isFile_of_reachable h d
  rw [resultOf]
  cases hheld : c.held? w.files d with
  | some content =>
      rw [hheld] at hfile
      rw [resolve_of_isFile hfile] at hresolve
      cases hresolve
      refine ⟨rfl, rfl, h, fun {content'} hcontent => ?_, fun _ => rfl⟩
      rw [hheld] at hcontent ⊢
      cases hcontent
      exact ⟨.cached, rfl⟩
  | none =>
      rw [hheld] at hfile
      obtain ⟨t, t', hfolder, hwork⟩ := makeFolders_of_resolve hresolve hfile
      obtain ⟨t'', w'', hscratched, hresolve', hleft⟩ :=
        resolve_of_steady (d := d) htools hfile hfolder hwork
      rw [hresolve] at hresolve'
      obtain ⟨rfl, rfl⟩ := EStateM.Result.ok.inj hresolve'
      have hadded := (added_of_makeFolders hfolder).trans (added_of_makeFolders hwork)
      have hsame := sameEntries_of_scratched hfolder hwork hscratched
      refine ⟨rfl, ?_⟩
      cases hpicture : tools.pictureOf s d with
      | error e =>
          rw [hpicture] at hleft
          exact resolvedTo_of_sameEntries (hleft ▸ hsame) hheld
      | ok picture =>
          rw [hpicture] at hleft
          rw [hadded.current] at hleft
          exact resolvedTo_of_stored hsame hheld hpicture hleft

lemma path_of_resultOf {t : FileTree} {path : Path} {state : PictureState}
    (h : c.resultOf tools s t d = .ok (path, state)) : path = c.entryPath d := by
  rw [resultOf] at h
  cases hentry : tools.entryOf s (c.held? t d) d with
  | error e =>
      rw [hentry] at h
      cases h
  | ok picture =>
      rw [hentry] at h
      cases h
      rfl

/-! ### Representatives -/

lemma held?_congr {d d' : Diagram} (h : d.entryName = d'.entryName) (t : FileTree) :
    c.held? t d = c.held? t d' := by
  rw [held?, held?, location_entryPath, location_entryPath, h]

/-- What comes of a diagram is what comes of its representative. -/
lemma entryOf_congr {ds : List Diagram} (hnames : NamedApart ds) {d d' : Diagram} (hd : d ∈ ds)
    (hd' : d' ∈ ds) (h : d.entryName = d'.entryName) (t : FileTree) :
    tools.entryOf s (c.held? t d) d = tools.entryOf s (c.held? t d') d' := by
  obtain ⟨hdocument, hextension⟩ := hnames d hd d' hd' h
  rw [held?_congr h]
  cases c.held? t d' with
  | some content => rfl
  | none => exact tools.pictureOf_congr s hdocument hextension

lemma resultOf_congr {ds : List Diagram} (hnames : NamedApart ds) {d d' : Diagram} (hd : d ∈ ds)
    (hd' : d' ∈ ds) (h : d.entryName = d'.entryName) (t : FileTree) :
    c.resultOf tools s t d = c.resultOf tools s t d' := by
  rw [resultOf, resultOf, entryOf_congr hnames hd hd' h, entryPath, entryPath, h]

lemma ResolvedTo.held?_of_ne (h : ResolvedTo tools s c d w w') {r : Diagram}
    (hne : r.entryName ≠ d.entryName) : c.held? w'.files r = c.held? w.files r := by
  rw [held?, held?, h.current, location_entryPath]
  exact h.elsewhere hne

lemma resolveNamed_eq_ok {named : Text × Except RenderError (Path × PictureState)}
    (h : resolveNamed tools s c d w = .ok named w') :
    named.1 = d.entryName ∧ c.resolve tools s d w = .ok named.2 w' := by
  obtain ⟨result, w'', hresolve, hpure⟩ := bind_eq_ok h
  cases hpure
  exact ⟨rfl, hresolve⟩

/-- Diagrams with different entries are resolved as if each one were alone. -/
lemma collect_of_reachable (htools : tools.Steady) {workers : List Diagram}
    (hnodup : (workers.map Diagram.entryName).Nodup) (h : c.Reachable w.files)
    {resolved : Resolved}
    (hcollect : collect (resolveNamed tools s c) workers w = .ok resolved w') :
    w'.files.current = w.files.current ∧
      (∀ r ∈ workers, resolved.lookup r.entryName = some (c.resultOf tools s w.files r) ∧
        ∀ {content}, c.held? w'.files r = some content →
          ∃ state, tools.entryOf s (c.held? w.files r) r = .ok (content, state)) ∧
      ∀ {r : Diagram}, r.entryName ∉ workers.map Diagram.entryName →
        c.held? w'.files r = c.held? w.files r := by
  induction workers generalizing w resolved with
  | nil =>
      cases hcollect
      exact ⟨rfl, fun _ h => (nomatch h), fun _ => rfl⟩
  | cons d workers ih =>
      obtain ⟨named, w'', rest, hfirst, hrest, rfl⟩ := collect_cons_eq_ok hcollect
      obtain ⟨hname, hresolve⟩ := resolveNamed_eq_ok hfirst
      obtain ⟨hresult, hstep⟩ := resolve_of_reachable htools h hresolve
      obtain ⟨hnotMem, hnodup⟩ := List.nodup_cons.mp hnodup
      obtain ⟨hcurrent, hworkers, hothers⟩ := ih hnodup hstep.reachable hrest
      refine ⟨hcurrent.trans hstep.current, fun r hr => ?_, fun {r} hr => ?_⟩
      · rcases List.mem_cons.mp hr with rfl | hr
        · refine ⟨?_, fun hcontent => hstep.held ?_⟩
          · rw [← hname, ← hresult]
            exact List.lookup_cons_self
          · rwa [hothers hnotMem] at hcontent
        · have hne : r.entryName ≠ d.entryName := fun heq =>
            hnotMem (heq ▸ List.mem_map_of_mem hr)
          obtain ⟨hlookup, hheld⟩ := hworkers r hr
          rw [resultOf, hstep.held?_of_ne hne, ← resultOf] at hlookup
          rw [hstep.held?_of_ne hne] at hheld
          refine ⟨?_, hheld⟩
          rw [List.lookup_cons, hname, beq_eq_false_iff_ne.mpr hne]
          exact hlookup
      · rw [List.map_cons, List.mem_cons, not_or] at hr
        rw [hothers hr.2, hstep.held?_of_ne hr.1]

end Cache

/-! ### Reports -/

/-- What came of the entry of a diagram, as the state that a report gives for it. -/
def stateIn (resolved : Resolved) (d : Diagram) : Option PictureState :=
  match resolved.lookup d.entryName with
  | some (.ok (_, state)) => some state
  | _ => none

/-- What came of the entry of a diagram, as the failure that a report gives for it. -/
def failureIn (resolved : Resolved) (d : Diagram) : Option Text :=
  match resolved.lookup d.entryName with
  | some (.error e) => some (reportedMessage e)
  | _ => none

lemma statesOf_eq (resolved : Resolved) (ds : List Diagram) :
    statesOf resolved ds = valuesOf (stateIn resolved) [] ds := by
  rw [statesOf, valuesOf]
  congr
  funext states d
  unfold stateIn
  rcases resolved.lookup d.entryName with _ | _ | _ <;> rfl

lemma failuresOf_eq (resolved : Resolved) (ds : List Diagram) :
    failuresOf resolved ds = valuesOf (failureIn resolved) [] ds := by
  rw [failuresOf, valuesOf]
  congr
  funext failures d
  unfold failureIn
  rcases resolved.lookup d.entryName with _ | _ | _ <;> rfl

/-- The places of the pictures of all diagrams that have a state. -/
lemma valuesOf_sourcesOf (resolved : Resolved) (place : Diagram → Path) (ds : List Diagram) :
    valuesOf (fun d => some (place d)) [] ((sourcesOf resolved ds).map Prod.fst) =
      valuesOf (fun d => (stateIn resolved d).map fun _ => place d) [] ds := by
  rw [sourcesOf, valuesOf, valuesOf, List.foldl_map, List.foldl_filterMap]
  congr
  funext places d
  unfold stateIn
  rcases resolved.lookup d.entryName with _ | _ | _ <;> rfl

lemma sourcesOf_sublist (resolved : Resolved) (ds : List Diagram) :
    ((sourcesOf resolved ds).map Prod.fst).Sublist ds := by
  induction ds with
  | nil => exact List.Sublist.slnil
  | cons d ds ih =>
      rw [sourcesOf, List.filterMap_cons]
      rcases resolved.lookup d.entryName with _ | _ | ⟨path, state⟩
      · exact ih.cons d
      · exact ih.cons d
      · exact ih.cons_cons d

/-- What a report and the files say of a diagram: its state, its picture, and why there is none. -/
def AssetReport.about (r : AssetReport) (t : FileTree) (d : Diagram) :
    Option PictureState × Option (Except FileError Octets) × Option Text :=
  (r.states.lookup d.id, (r.outputs.lookup d.id).map t.read, r.failures.lookup d.id)

/-- What there is to say of a diagram, given what came of its entry. -/
def told : Except RenderError (Octets × PictureState) →
    Option PictureState × Option (Except FileError Octets) × Option Text
  | .ok (content, state) => (some state, some (.ok content), none)
  | .error e => (none, none, some (reportedMessage e))

section Run

variable {build : Path} {ds workers : List Diagram} {report : AssetReport}

/-- Every diagram has what came of its entry, no matter which diagram was resolved for it. -/
lemma lookup_of_collect (htools : tools.Steady) (h : c.Reachable w.files)
    (hnames : NamedApart ds) (hworkers : workers.Perm (representatives [] ds))
    {resolved : Resolved}
    (hcollect : collect (resolveNamed tools s c) workers w = .ok resolved w') :
    w'.files.current = w.files.current ∧
      ∀ d ∈ ds, resolved.lookup d.entryName = some (c.resultOf tools s w.files d) ∧
        ∀ {content}, c.held? w'.files d = some content →
          ∃ state, tools.entryOf s (c.held? w.files d) d = .ok (content, state) := by
  have hnodup : (workers.map Diagram.entryName).Nodup :=
    (hworkers.map _).nodup_iff.mpr (representatives_nodup [] ds).1
  obtain ⟨hcurrent, hresolved, -⟩ := Cache.collect_of_reachable htools hnodup h hcollect
  refine ⟨hcurrent, fun d hd => ?_⟩
  obtain ⟨r, hr, hname⟩ := (exists_representative [] hd).resolve_left (List.not_mem_nil)
  obtain ⟨hlookup, hheld⟩ := hresolved r (hworkers.mem_iff.mpr hr)
  have hrds : r ∈ ds := representatives_subset [] ds hr
  rw [← hname, Cache.resultOf_congr hnames hd hrds hname.symm, Cache.held?_congr hname.symm,
    Cache.entryOf_congr hnames hd hrds hname.symm]
  exact ⟨hlookup, hheld⟩

/-- What is said of a diagram depends on nothing but the diagram and what the cache held for it. -/
lemma prepareInOrder_about (htools : tools.Steady)
    (hplace : (Cache.ofBuild build s).folder.location w.files.current ≠
      picturesPlace build w.files.current)
    (hcache : (Cache.ofBuild build s).Reachable w.files) (hids : (ds.map Diagram.id).Nodup)
    (hslash : ∀ d ∈ ds, '/' ∉ d.id) (hnames : NamedApart ds)
    (hworkers : workers.Perm (representatives [] ds))
    (h : prepareInOrder tools s build workers ds w = .ok report w') (hd : d ∈ ds) :
    report.about w'.files d =
      told (tools.entryOf s ((Cache.ofBuild build s).held? w.files d) d) := by
  obtain ⟨resolved, w₁, hcollect, hrest⟩ := bind_eq_ok h
  obtain ⟨⟨outputs, removed⟩, w₂, hsync, hpure⟩ := bind_eq_ok hrest
  cases hpure
  obtain ⟨hcurrent, hresolved⟩ := lookup_of_collect htools hcache hnames hworkers hcollect
  have hsub := sourcesOf_sublist resolved ds
  have hsources : ∀ source ∈ sourcesOf resolved ds,
      source.2 = (Cache.ofBuild build s).entryPath source.1 := by
    intro source hsource
    obtain ⟨hmem, state, hlookup⟩ := mem_sourcesOf.mp hsource
    rw [(hresolved _ hmem).1] at hlookup
    exact Cache.path_of_resultOf (Option.some.inj hlookup)
  obtain ⟨rfl, hpictures⟩ := syncPictures_eq_ok ((hsub.map _).nodup hids)
    (fun source hsource => hslash _ (mem_sourcesOf.mp hsource).1)
    (fun source hsource name => by
      rw [hsources source hsource, Cache.location_entryPath, hcurrent]
      exact fun heq => hplace (List.append_inj' heq rfl).1) hsync
  obtain ⟨hlookup, hheld⟩ := hresolved d hd
  rw [AssetReport.about, statesOf_eq, failuresOf_eq, valuesOf_sourcesOf,
    lookup_valuesOf _ hids hd rfl, lookup_valuesOf _ hids hd rfl, lookup_valuesOf _ hids hd rfl,
    stateIn, failureIn, hlookup]
  rw [Cache.resultOf] at hlookup ⊢
  cases hentry : tools.entryOf s ((Cache.ofBuild build s).held? w.files d) d with
  | error e => rfl
  | ok picture =>
      rw [hentry] at hlookup
      obtain ⟨content, hcontent, hread⟩ :=
        hpictures (d, _) (mem_sourcesOf.mpr ⟨hd, picture.2, hlookup⟩)
      obtain ⟨state, hentry'⟩ := hheld hcontent
      rw [hentry] at hentry'
      cases hentry'
      exact congrArg (fun content => (some state, some content, none)) hread

/-- So it is in the program. -/
theorem prepareAssets_about (htools : tools.Steady)
    (hplace : (Cache.ofBuild build s).folder.location w.files.current ≠
      picturesPlace build w.files.current)
    (hcache : (Cache.ofBuild build s).Reachable w.files) (hids : (ds.map Diagram.id).Nodup)
    (hslash : ∀ d ∈ ds, '/' ∉ d.id) (hnames : NamedApart ds)
    (h : prepareAssets tools s build ds w = .ok report w') (hd : d ∈ ds) :
    report.about w'.files d =
      told (tools.entryOf s ((Cache.ofBuild build s).held? w.files d) d) := by
  rw [prepareAssets_eq] at h
  exact prepareInOrder_about htools hplace hcache hids hslash hnames (List.Perm.refl _) h hd

/-- Diagrams of one document do not disturb each other. Whatever the order in which they are
resolved, and whichever of them are left out, the same is said of a diagram: its state and picture,
or why there is none. -/
theorem prepareInOrder_agree (htools : tools.Steady)
    (hplace : (Cache.ofBuild build s).folder.location w.files.current ≠
      picturesPlace build w.files.current)
    (hcache : (Cache.ofBuild build s).Reachable w.files) (hids : (ds.map Diagram.id).Nodup)
    (hslash : ∀ d ∈ ds, '/' ∉ d.id) (hnames : NamedApart ds)
    {workers ds' workers' : List Diagram} {report report' : AssetReport} {v v' : Workspace}
    (hworkers : workers.Perm (representatives [] ds)) (hfiles : w'.files = w.files)
    (hkept : ds'.Subperm ds) (hworkers' : workers'.Perm (representatives [] ds'))
    (hrun : prepareInOrder tools s build workers ds w = .ok report v)
    (hrun' : prepareInOrder tools s build workers' ds' w' = .ok report' v') :
    ∀ d ∈ ds', report'.about v'.files d = report.about v.files d ∧
      ((∃ state content, report.about v.files d = (some state, some (.ok content), none)) ∨
        ∃ message, report.about v.files d = (none, none, some message)) := by
  intro d hd
  obtain ⟨kept, hperm, hsub⟩ := hkept
  have hmem : ∀ {d}, d ∈ ds' → d ∈ ds := fun hd => hsub.subset (hperm.mem_iff.mpr hd)
  rw [← hfiles] at hplace hcache
  have hids' : (ds'.map Diagram.id).Nodup :=
    (hperm.map _).nodup_iff.mp ((hsub.map _).nodup hids)
  have habout' := prepareInOrder_about htools hplace hcache hids' (fun d hd => hslash d (hmem hd))
    (fun a ha b hb => hnames a (hmem ha) b (hmem hb)) hworkers' hrun' hd
  rw [hfiles] at hplace hcache habout'
  have habout := prepareInOrder_about htools hplace hcache hids hslash hnames hworkers hrun
    (hmem hd)
  refine ⟨habout'.trans habout.symm, ?_⟩
  rw [habout]
  cases tools.entryOf s ((Cache.ofBuild build s).held? w.files d) d with
  | ok picture => exact Or.inl ⟨picture.2, picture.1, rfl⟩
  | error e => exact Or.inr ⟨reportedMessage e, rfl⟩

end Run

section Examples

/-- A document with an entry that is there, a failure and no picture at all, resolved backwards, and
two of its diagrams, resolved forwards. -/
theorem prepareInOrder_agree_sample :
    let a : Diagram := ⟨"tikz-0".toList, "a".toList, {}⟩
    let b : Diagram := ⟨"tikz-1".toList, "b!".toList, {}⟩
    let c : Diagram := ⟨"tikz-2".toList, "c?".toList, {}⟩
    let settings : Settings := { command := [], cacheFolder := some (.ofText "c".toList) }
    let build := Path.ofText "build".toList
    let cache := Cache.ofBuild build settings
    let w : Workspace := ⟨⟨[], [(["c".toList], .folder),
      (["c".toList, a.entryName], .file [1] false)]⟩, [], []⟩
    let run := prepareInOrder .sample settings build [c, b, a] [a, b, c] w
    let run' := prepareInOrder .sample settings build [c, a] [c, a] w
    (Toolchain.sample.Steady ∧
      cache.folder.location w.files.current ≠ picturesPlace build w.files.current ∧
      cache.Reachable w.files ∧ ([a, b, c].map Diagram.id).Nodup ∧
      (∀ d ∈ [a, b, c], '/' ∉ d.id) ∧ NamedApart [a, b, c] ∧
      [c, b, a].Perm (representatives [] [a, b, c]) ∧ [c, a].Subperm [a, b, c] ∧
      [c, a].Perm (representatives [] [c, a])) ∧
    ∃ report v report' v', run = .ok report v ∧ run' = .ok report' v' ∧
      ∀ d ∈ [c, a], report'.about v'.files d = report.about v.files d ∧
        ((∃ state content, report.about v.files d = (some state, some (.ok content), none)) ∨
          ∃ message, report.about v.files d = (none, none, some message)) := by
  intro a b c settings build cache w run run'
  have hplace : cache.folder.location w.files.current ≠ picturesPlace build w.files.current := by
    decide +kernel
  have hcache : cache.Reachable w.files := Or.inl (by decide +kernel)
  have hids : ([a, b, c].map Diagram.id).Nodup := by decide
  have hslash : ∀ d ∈ [a, b, c], '/' ∉ d.id := by decide
  have hnames : NamedApart [a, b, c] := by
    rw [NamedApart]
    decide +kernel
  have hworkers : [c, b, a].Perm (representatives [] [a, b, c]) := by decide +kernel
  have hkept : [c, a].Subperm [a, b, c] := by decide
  have hworkers' : [c, a].Perm (representatives [] [c, a]) := by decide +kernel
  refine ⟨⟨Toolchain.steady_sample, hplace, hcache, hids, hslash, hnames, hworkers, hkept,
    hworkers'⟩, ?_⟩
  have hok : ((prepareInOrder .sample settings build [c, b, a] [a, b, c]).outcome w).isOk := by
    decide +kernel
  have hok' : ((prepareInOrder .sample settings build [c, a] [c, a]).outcome w).isOk := by
    decide +kernel
  obtain ⟨report, v, hrun⟩ := exists_eq_ok hok
  obtain ⟨report', v', hrun'⟩ := exists_eq_ok hok'
  exact ⟨report, v, report', v', hrun, hrun', prepareInOrder_agree Toolchain.steady_sample hplace
    hcache hids hslash hnames hworkers rfl hkept hworkers' hrun hrun'⟩

/-- A cache may be named by a path through a folder that is not there yet. Then an entry is not
found unless another diagram is resolved before. -/
theorem prepareAssets_disagree :
    let a : Diagram := ⟨"tikz-0".toList, "a".toList, {}⟩
    let b : Diagram := ⟨"tikz-1".toList, "b".toList, {}⟩
    let settings : Settings := { command := [], cacheFolder := some (.ofText "x/../c".toList) }
    let build := Path.ofText "build".toList
    let w : Workspace := ⟨⟨[], [(["c".toList], .folder),
      (["c".toList, b.entryName], .file [1] false)]⟩, [], []⟩
    let states (ds : List Diagram) :=
      ((prepareAssets .sample settings build ds).outcome w).toOption.map AssetReport.states
    (Toolchain.sample.Steady ∧
      (Cache.ofBuild build settings).folder.location w.files.current ≠
        picturesPlace build w.files.current ∧
      ([a, b].map Diagram.id).Nodup ∧ (∀ d ∈ [a, b], '/' ∉ d.id) ∧ NamedApart [a, b] ∧
      [b].Subperm [a, b]) ∧
    states [b] = some [(b.id, .compiled)] ∧
      states [a, b] = some [(a.id, .compiled), (b.id, .cached)] := by
  refine ⟨⟨Toolchain.steady_sample, by decide +kernel, by decide, by decide, ?_, by decide⟩,
    by decide +kernel, by decide +kernel⟩
  rw [NamedApart]
  decide +kernel

end Examples

end Galley
