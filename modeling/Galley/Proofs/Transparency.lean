import Galley.Proofs.CacheRuns
import Mathlib.Tactic

/-!
The cache is transparent: with a steady compiler a picture is the same whether it comes from the
cache or from the compiler.

* `Cache.pictureFresh`: the picture of a diagram as it comes without a cache;
* `Stocked`: the cache holds nothing but such pictures;
* `Underway`: nothing has happened yet, or the cache is stocked;
* `Underway.resolve`, `Underway.runCalls`: then a picture is as without a cache, and calls
  keep it so;
* `picture_transparent`: at any time of a run, a picture is as in the tree where the run began.
-/

namespace Galley

open BuildStep FileTree

variable {tools : Toolchain} {s : Settings} {c : Cache} {d : Diagram} {w w' : Workspace}

namespace Cache

/-! ### Pictures -/

lemma outcome_picture_of_ok {path : Path} {state : PictureState}
    (h : c.resolve tools s d w = .ok (.ok (path, state)) w') :
    (c.picture tools s d).outcome w = (w'.files.read path).map .ok := by
  rw [outcome, picture, bind_of_eq_ok h]
  dsimp only
  rw [bind_apply, consult_apply]
  cases w'.files.read path <;> rfl

lemma outcome_picture_of_error {e : RenderError} (h : c.resolve tools s d w = .ok (.error e) w') :
    (c.picture tools s d).outcome w = .ok (.error e) := by
  rw [outcome, picture, bind_of_eq_ok h]
  rfl

/-- The picture of a diagram as it comes without a cache: a folder in the place of the entry is in
the way. -/
def pictureFresh (tools : Toolchain) (s : Settings) (c : Cache) (base : FileTree) (d : Diagram) :
    Except FileError (Except RenderError Octets) :=
  match tools.pictureOf s d with
  | .error e => .ok (.error e)
  | .ok picture =>
      if base.get? ((c.entryPath d).location base.current) = some .folder then .error .isFolder
      else .ok (.ok picture.1)

end Cache

/-! ### Stocked caches -/

/-- The documents and extensions of diagrams go with their entries. -/
def NamedApart (ds : List Diagram) : Prop :=
  ∀ a ∈ ds, ∀ b ∈ ds,
    a.entryName = b.entryName → a.document = b.document ∧ a.extension = b.extension

/-- The cache holds what it held at first, and pictures of some diagrams. -/
structure Stocked (tools : Toolchain) (s : Settings) (c : Cache) (ds : List Diagram)
    (base t : FileTree) : Prop extends FoldersKept base t where
  entry : ∀ name,
    t.get? (c.folder.location base.current ++ [name]) =
        base.get? (c.folder.location base.current ++ [name]) ∨
      base.get? (c.folder.location base.current ++ [name]) = none ∧
        ∃ d ∈ ds, name = d.entryName ∧ ∃ picture, tools.pictureOf s d = .ok picture ∧
          t.contentAt? (c.folder.location base.current ++ [name]) = some picture.1

namespace Stocked

variable {ds : List Diagram} {base t t' : FileTree}

lemma refl (base : FileTree) : Stocked tools s c ds base base :=
  ⟨FoldersKept.refl base, fun _ => Or.inl rfl⟩

/-- What the folder of the cache holds is all that counts. -/
lemma congr (h : Stocked tools s c ds base t) (hkept : FoldersKept t t')
    (hsame : ∀ name, t'.get? (c.folder.location base.current ++ [name]) =
      t.get? (c.folder.location base.current ++ [name])) : Stocked tools s c ds base t' := by
  refine ⟨h.toFoldersKept.trans hkept, fun name => ?_⟩
  rw [contentAt?_congr (hsame name), hsame]
  exact h.entry name

/-- An entry for a diagram that has none. -/
lemma stored (h : Stocked tools s c ds base t) (hd : d ∈ ds) {picture : Octets × PictureState}
    (hpicture : tools.pictureOf s d = .ok picture)
    (hstored : Stored ((c.entryPath d).location base.current) picture.1 t t') :
    Stocked tools s c ds base t' := by
  rw [Cache.location_entryPath] at hstored
  by_cases hnone : t.get? (c.folder.location base.current ++ [d.entryName]) = none
  · refine ⟨h.toFoldersKept.trans hstored.kept.folders, fun name => ?_⟩
    by_cases hname : name = d.entryName
    · subst hname
      refine Or.inr ⟨?_, d, hd, rfl, picture, hpicture, ?_⟩
      · rcases h.entry d.entryName with heq | ⟨hbase, -⟩
        · rw [← heq, hnone]
        · exact hbase
      · exact contentAt?_eq_some.mpr ⟨false, hstored.get?_of_none hnone⟩
    · have hne : c.folder.location base.current ++ [name] ≠
          c.folder.location base.current ++ [d.entryName] := fun heq =>
        hname (child_inj heq)
      rw [contentAt?_congr (hstored.get?_of_ne hne), hstored.get?_of_ne hne]
      exact h.entry name
  · refine h.congr hstored.kept.folders fun name => ?_
    rw [hstored.get?, if_neg fun hand => hnone hand.2]

/-- What the cache holds for a diagram is its picture. -/
lemma pictureOf_eq (h : Stocked tools s c ds base t) (hbare : base.Bare) (hnames : NamedApart ds)
    (hd : d ∈ ds) {content : Octets}
    (hcontent : t.contentAt? (c.folder.location base.current ++ [d.entryName]) = some content) :
    base.get? (c.folder.location base.current ++ [d.entryName]) = none ∧
      ∃ state, tools.pictureOf s d = .ok (content, state) := by
  rcases h.entry d.entryName with heq | ⟨hnone, d', hd', hname, picture, hpicture, hcontent'⟩
  · rw [contentAt?_congr heq, hbare.no_content] at hcontent
    cases hcontent
  · obtain ⟨hdocument, hextension⟩ := hnames d hd d' hd' hname
    rw [hcontent'] at hcontent
    cases hcontent
    exact ⟨hnone, picture.2, by rw [tools.pictureOf_congr s hdocument hextension, hpicture]⟩

end Stocked

/-! ### The start of a run -/

/-- A tree without files, and the same tree with the folders of a cache. -/
structure Furnished (c : Cache) (start base : FileTree) : Prop where
  start_bare : start.Bare
  base_bare : base.Bare
  current : base.current = start.current
  made : ∃ t, start.makeFolders c.folder = .ok () t ∧ t.makeFolders c.work = .ok () base
  folder : base.isFolder c.folder = true
  work : base.isFolder c.work = true
  apart : Apart (c.folder.location base.current) (c.work.location base.current)

lemma FileTree.Bare.exists_furnished {start : FileTree} (h : start.Bare)
    (hapart : Apart (c.folder.location start.current) (c.work.location start.current)) :
    ∃ base, Furnished c start base := by
  obtain ⟨t, hfolder, hbare⟩ := h.makeFolders c.folder
  obtain ⟨base, hwork, hbase⟩ := hbare.makeFolders c.work
  have hadded := added_of_makeFolders hfolder
  have hadded' := added_of_makeFolders hwork
  have hcurrent : base.current = start.current := hadded'.current.trans hadded.current
  exact ⟨base, h, hbase, hcurrent, ⟨t, hfolder, hwork⟩,
    hadded'.toKept.isFolder (makeFolders_isFolder hfolder), makeFolders_isFolder hwork,
    by rwa [hcurrent]⟩

/-- Nothing has happened yet, or the cache is stocked. -/
def Underway (tools : Toolchain) (s : Settings) (c : Cache) (ds : List Diagram)
    (start base t : FileTree) : Prop :=
  t = start ∨ Stocked tools s c ds base t

namespace Underway

variable {ds : List Diagram} {start base : FileTree}

/-- The folders of the cache can be made, and then it is stocked. -/
lemma makeFolders (hstart : Furnished c start base) {t : FileTree}
    (h : Underway tools s c ds start base t) :
    ∃ t' t'', t.makeFolders c.folder = .ok () t' ∧ t'.makeFolders c.work = .ok () t'' ∧
      Stocked tools s c ds base t'' := by
  rcases h with rfl | hstocked
  · obtain ⟨t', hfolder, hwork⟩ := hstart.made
    exact ⟨t', base, hfolder, hwork, Stocked.refl base⟩
  · exact ⟨t, t, makeFolders_of_isFolder (hstocked.isFolder hstart.folder),
      makeFolders_of_isFolder (hstocked.isFolder hstart.work), hstocked⟩

/-- An entry that is found is the picture of its diagram. -/
lemma outcome_of_isFile (hstart : Furnished c start base) (hnames : NamedApart ds) (hd : d ∈ ds)
    (h : Underway tools s c ds start base w.files)
    (hfile : w.files.isFile (c.entryPath d) = true) :
    Stocked tools s c ds base w.files ∧
      (c.picture tools s d).outcome w = c.pictureFresh tools s base d := by
  obtain ⟨hlocate, hcontent⟩ := isFile_iff.mp hfile
  rcases h with hfiles | hstocked
  · rw [hfiles] at hcontent
    exact absurd (hstart.start_bare.no_content _) hcontent
  · refine ⟨hstocked, ?_⟩
    obtain ⟨content, hsome⟩ := Option.ne_none_iff_exists'.mp hcontent
    have hread : w.files.read (c.entryPath d) = .ok content := read_eq_ok.mpr ⟨hlocate, hsome⟩
    rw [hstocked.current, Cache.location_entryPath] at hsome
    obtain ⟨hnone, state, hpicture⟩ :=
      hstocked.pictureOf_eq hstart.base_bare hnames hd hsome
    rw [Cache.outcome_picture_of_ok (Cache.resolve_of_isFile hfile), hread, Cache.pictureFresh,
      hpicture, Cache.location_entryPath, hnone]
    rfl

/-- What stands at the place of an entry behind its diagram. -/
lemma read_of_stored (hstart : Furnished c start base) (hnames : NamedApart ds) (hd : d ∈ ds)
    {t t' : FileTree} (h : Stocked tools s c ds base t) {picture : Octets × PictureState}
    (hpicture : tools.pictureOf s d = .ok picture)
    (hstored : Stored ((c.entryPath d).location base.current) picture.1 t t') :
    (t'.read (c.entryPath d)).map .ok = c.pictureFresh tools s base d := by
  have hstocked := h.stored hd hpicture hstored
  have hread := read_div (isName_entryName d) (hstocked.isFolder hstart.folder)
  rw [← Cache.entryPath, hstocked.current] at hread
  rw [hread, Cache.pictureFresh, hpicture]
  cases hbase : base.get? ((c.entryPath d).location base.current) with
  | some node =>
      obtain rfl := hstart.base_bare.get?_eq_folder hbase
      rw [hstocked.folder hbase]
      rfl
  | none =>
      have hcontent : t'.contentAt? ((c.entryPath d).location base.current) = some picture.1 := by
        cases hnode : t.get? ((c.entryPath d).location base.current) with
        | none => exact contentAt?_eq_some.mpr ⟨false, hstored.get?_of_none hnode⟩
        | some node =>
            rw [Cache.location_entryPath] at hbase hnode hstored ⊢
            rcases h.entry d.entryName with heq | ⟨-, d', -, -, picture', -, hcontent⟩
            · rw [heq, hbase] at hnode
              cases hnode
            · obtain ⟨-, state, hpicture'⟩ :=
                h.pictureOf_eq hstart.base_bare hnames hd hcontent
              rw [hpicture] at hpicture'
              cases hpicture'
              exact hstored.kept.content hcontent
      obtain ⟨executable, hfile⟩ := contentAt?_eq_some.mp hcontent
      rw [hfile]
      rfl

/-- A diagram leaves the cache stocked, and its picture is as without a cache. -/
lemma resolve (htools : tools.Steady) (hstart : Furnished c start base) (hnames : NamedApart ds)
    (hd : d ∈ ds) (h : Underway tools s c ds start base w.files) :
    Stocked tools s c ds base ((c.resolve tools s d).after w).files ∧
      (c.picture tools s d).outcome w = c.pictureFresh tools s base d := by
  cases hfile : w.files.isFile (c.entryPath d) with
  | true =>
      rw [after_of_eq_ok (Cache.resolve_of_isFile hfile)]
      exact h.outcome_of_isFile hstart hnames hd hfile
  | false =>
      obtain ⟨t, t', hfolder, hwork, hstocked⟩ := h.makeFolders hstart
      obtain ⟨t'', w', hscratched, hresolve, hleft⟩ :=
        Cache.resolve_of_steady htools hfile hfolder hwork
      rw [hstocked.current] at hscratched hleft
      have hstocked' := hstocked.congr hscratched.toKept.folders
        (hscratched.get?_member hstart.apart.2)
      rw [after_of_eq_ok hresolve]
      cases hpicture : tools.pictureOf s d with
      | error e =>
          rw [hpicture] at hresolve hleft
          rw [Cache.outcome_picture_of_error hresolve, Cache.pictureFresh, hpicture]
          exact ⟨hleft ▸ hstocked', rfl⟩
      | ok picture =>
          rw [hpicture] at hresolve hleft
          rw [Cache.outcome_picture_of_ok hresolve]
          exact ⟨hstocked'.stored hd hpicture hleft,
            read_of_stored hstart hnames hd hstocked' hpicture hleft⟩

end Underway

/-! ### Runs -/

lemma Stocked.resolveAll {ds ds' : List Diagram} {start base : FileTree} (htools : tools.Steady)
    (hstart : Furnished c start base) (hnames : NamedApart ds) (hds' : ds' ⊆ ds)
    (h : Stocked tools s c ds base w.files) :
    Stocked tools s c ds base (resolveAll tools s c ds' w).files := by
  induction ds' generalizing w with
  | nil => exact h
  | cons d ds' ih =>
      obtain ⟨hd, hds'⟩ := List.cons_subset.mp hds'
      exact ih hds' (Underway.resolve htools hstart hnames hd (Or.inr h)).1

section Build

variable {build : Path} {ds : List Diagram} {start base : FileTree}

lemma isFolder_of_work {t : FileTree} (h : t.isFolder (Cache.ofBuild build s).work = true) :
    t.isFolder build = true :=
  isFolder_of_locate_div isName_workFolder (isFolder_iff.mp h).1

/-- Pictures in the build folder are no concern of the cache. -/
lemma Stocked.redraws (hstart : Furnished (.ofBuild build s) start base)
    (hpictures : Apart ((Cache.ofBuild build s).folder.location base.current)
      (picturesPlace build base.current))
    (h : Stocked tools s (.ofBuild build s) ds base w.files) (hredraws : Redraws build w w') :
    Stocked tools s (.ofBuild build s) ds base w'.files := by
  have hbuild := isFolder_of_work (h.isFolder hstart.work)
  refine h.congr hredraws.toFoldersKept fun name => hredraws.node hbuild ?_ fun name' => ?_
  · rw [h.current]
    exact fun heq => hpictures.1 (heq ▸ List.prefix_append _ _)
  · rw [h.current]
    exact fun heq => hpictures.ne (List.append_inj' heq rfl).1

lemma Underway.after (htools : tools.Steady) (hstart : Furnished (.ofBuild build s) start base)
    (hpictures : Apart ((Cache.ofBuild build s).folder.location base.current)
      (picturesPlace build base.current))
    (hnames : NamedApart ds) {job : Job} (hjob : job.diagrams ⊆ ds)
    (hslash : ∀ d ∈ job.diagrams, '/' ∉ d.id)
    (h : Underway tools s (.ofBuild build s) ds start base w.files) :
    Underway tools s (.ofBuild build s) ds start base
      (CacheCall.after tools ⟨s, build, job⟩ w).files := by
  have hredraws : Redraws build
      (Galley.resolveAll tools s (Cache.ofBuild build s) job.resolved w)
      (CacheCall.after tools ⟨s, build, job⟩ w) :=
    @CacheCall.after_redraws tools ⟨s, build, job⟩ hslash w
  have hresolved : job.resolved ⊆ ds := fun d hd => hjob (job.resolved_subset hd)
  cases hfirst : job.resolved with
  | cons d rest =>
      rw [hfirst] at hredraws hresolved
      obtain ⟨hd, hrest⟩ := List.cons_subset.mp hresolved
      have hstocked := (h.resolve htools hstart hnames hd).1
      exact Or.inr ((hstocked.resolveAll htools hstart hnames hrest).redraws hstart hpictures
        hredraws)
  | nil =>
      rw [hfirst] at hredraws
      rcases h with hfiles | hstocked
      · -- only a document without diagrams resolves none
        refine Or.inl ?_
        have hjob : job = .prepare [] := by
          cases job with
          | resolve d => cases hfirst
          | prepare ds =>
              cases ds with
              | nil => rfl
              | cons d ds => cases hfirst
        subst hjob
        change ((prepareAssets tools s build []).after w).files = start
        rw [prepareAssets_nil]
        · exact hfiles
        · rw [hfiles]
          exact hstart.start_bare.no_content
      · exact Or.inr (hstocked.redraws hstart hpictures hredraws)

lemma Underway.runCalls (htools : tools.Steady) (hstart : Furnished (.ofBuild build s) start base)
    (hpictures : Apart ((Cache.ofBuild build s).folder.location base.current)
      (picturesPlace build base.current))
    (hnames : NamedApart ds) {jobs : List Job} (hjobs : ∀ job ∈ jobs, job.diagrams ⊆ ds)
    (hslash : ∀ job ∈ jobs, ∀ d ∈ job.diagrams, '/' ∉ d.id)
    (h : Underway tools s (.ofBuild build s) ds start base w.files) :
    Underway tools s (.ofBuild build s) ds start base
      (runCalls tools (jobs.map (CacheCall.mk s build)) w).files := by
  induction jobs generalizing w with
  | nil => exact h
  | cons job jobs ih =>
      refine ih (fun job hjob => hjobs job (List.mem_cons_of_mem _ hjob))
        (fun job hjob => hslash job (List.mem_cons_of_mem _ hjob)) ?_
      exact h.after htools hstart hpictures hnames (hjobs job List.mem_cons_self)
        (hslash job List.mem_cons_self)

/-- The cache is transparent. With a steady compiler, at any time of a run from a tree without files
with the same settings and the same build folder, a diagram has the same picture as in the tree
where the run began, or there is none for the same reason. -/
theorem picture_transparent (htools : tools.Steady) (hbare : w.files.Bare)
    (hpictures : Apart ((Cache.ofBuild build s).folder.location w.files.current)
      (picturesPlace build w.files.current))
    (hwork : Apart ((Cache.ofBuild build s).folder.location w.files.current)
      ((Cache.ofBuild build s).work.location w.files.current))
    {jobs : List Job} (hslash : ∀ job ∈ jobs, ∀ d ∈ job.diagrams, '/' ∉ d.id) (d : Diagram)
    (hnames : NamedApart (d :: jobs.flatMap Job.diagrams))
    {fresh : Workspace} (hfresh : fresh.files = w.files) :
    ((Cache.ofBuild build s).picture tools s d).outcome
        (runCalls tools (jobs.map (CacheCall.mk s build)) w) =
      ((Cache.ofBuild build s).picture tools s d).outcome fresh := by
  obtain ⟨base, hstart⟩ := hbare.exists_furnished hwork
  rw [← hstart.current] at hpictures
  have hjobs : ∀ job ∈ jobs, job.diagrams ⊆ d :: jobs.flatMap Job.diagrams :=
    fun job hjob d' hd' => List.mem_cons_of_mem _ (List.mem_flatMap.mpr ⟨job, hjob, hd'⟩)
  have hrun : Underway tools s (.ofBuild build s) (d :: jobs.flatMap Job.diagrams) w.files base _ :=
    Underway.runCalls htools hstart hpictures hnames hjobs hslash (Or.inl rfl)
  rw [(hrun.resolve htools hstart hnames List.mem_cons_self).2,
    (Underway.resolve htools hstart hnames List.mem_cons_self (Or.inl hfresh)).2]

/-- A diagram that is shown as an error, after its pictures were prepared. -/
theorem picture_transparent_sample :
    let a : Diagram := ⟨"tikz-0".toList, "a".toList, {}⟩
    let b : Diagram := ⟨"tikz-1".toList, "b!".toList, {}⟩
    let c : Diagram := ⟨"tikz-2".toList, "c?".toList, {}⟩
    let settings : Settings := { command := [] }
    let build := Path.ofText "build".toList
    let cache := Cache.ofBuild build settings
    let jobs : List Job := [.resolve a, .prepare [a, b, c]]
    let empty : Workspace := ⟨⟨[], []⟩, [], []⟩
    (Toolchain.sample.Steady ∧ empty.files.Bare ∧
      Apart (cache.folder.location []) (picturesPlace build []) ∧
      Apart (cache.folder.location []) (cache.work.location []) ∧
      (∀ job ∈ jobs, ∀ d ∈ job.diagrams, '/' ∉ d.id) ∧
      NamedApart (b :: jobs.flatMap Job.diagrams)) ∧
    (cache.picture .sample settings b).outcome
        (runCalls .sample (jobs.map (CacheCall.mk settings build)) empty) =
      (cache.picture .sample settings b).outcome empty := by
  intro a b c settings build cache jobs empty
  have hpictures : Apart (cache.folder.location []) (picturesPlace build []) := by decide +kernel
  have hwork : Apart (cache.folder.location []) (cache.work.location []) := by decide +kernel
  have hslash : ∀ job ∈ jobs, ∀ d ∈ job.diagrams, '/' ∉ d.id := by decide
  have hnames : NamedApart (b :: jobs.flatMap Job.diagrams) := by
    rw [NamedApart]
    decide +kernel
  exact ⟨⟨Toolchain.steady_sample, Bare.empty, hpictures, hwork, hslash, hnames⟩,
    picture_transparent Toolchain.steady_sample Bare.empty hpictures hwork hslash b hnames rfl⟩

end Build

end Galley
