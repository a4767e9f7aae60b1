import Galley.Proofs.Pictures
import Mathlib.Tactic

/-!
Runs of calls that fill caches and build folders.

* `CacheCall`, `runCalls`: a call with its settings and its build folder, and the state behind calls
  that are made one after the other;
* `SeparateCalls`: no cache of a run shares a place with its pictures or its scratch folders;
* `FileTree.EntriesKept`: the files in a cache stay, and new ones have allowed names;
* `CacheKept`, `cacheKept_run`: what holds of the entries throughout a run, with any compiler;
* `entries_missed`: a folder can take the place of an entry, and a path to a cache can miss an entry
  that stands at its place.
-/

namespace Galley

open BuildStep FileTree

/-! ### Calls -/

/-- What a call asks for: the entry of one diagram, or the pictures of a document. -/
inductive Job where
  | resolve (d : Diagram)
  | prepare (ds : List Diagram)

/-- The diagrams of a call. -/
def Job.diagrams : Job → List Diagram
  | .resolve d => [d]
  | .prepare ds => ds

/-- The diagrams that a call resolves, in order. -/
def Job.resolved : Job → List Diagram
  | .resolve d => [d]
  | .prepare ds => representatives [] ds

/-- A call with its settings and its build folder. -/
structure CacheCall where
  settings : Settings
  build : Path
  job : Job

namespace CacheCall

/-- The cache of a call. -/
def cache (call : CacheCall) : Cache := .ofBuild call.build call.settings

/-- The location of the cache of a call. -/
def place (call : CacheCall) (here : Location) : Location := call.cache.folder.location here

/-- The state behind a call, whatever comes of it. -/
def after (tools : Toolchain) (call : CacheCall) (w : Workspace) : Workspace :=
  match call.job with
  | .resolve d => (call.cache.resolve tools call.settings d).after w
  | .prepare ds => (prepareAssets tools call.settings call.build ds).after w

end CacheCall

/-- The state behind calls that are made one after the other, whatever comes of them. -/
def runCalls (tools : Toolchain) (calls : List CacheCall) (w : Workspace) : Workspace :=
  calls.foldl (fun w call => call.after tools w) w

lemma runCalls_append (tools : Toolchain) (calls calls' : List CacheCall) (w : Workspace) :
    runCalls tools (calls ++ calls') w = runCalls tools calls' (runCalls tools calls w) :=
  List.foldl_append

/-- Of two folders neither is the other one, nor contains it, nor lies inside. -/
def Apart (k l : Location) : Prop := ¬ k <+: l ∧ ¬ l <+: k

instance (k l : Location) : Decidable (Apart k l) := inferInstanceAs (Decidable (_ ∧ _))

/-- The caches of a run are apart from its pictures and from its folders for work, and the names of
its diagrams are free of slashes. -/
structure SeparateCalls (here : Location) (calls : List CacheCall) : Prop where
  pictures : ∀ call ∈ calls, ∀ call' ∈ calls,
    Apart (call.place here) (picturesPlace call'.build here)
  work : ∀ call ∈ calls, ∀ call' ∈ calls,
    Apart (call.place here) (call'.cache.work.location here)
  slash_free : ∀ call ∈ calls, ∀ d ∈ call.job.diagrams, '/' ∉ d.id

/-! ### Entries -/

namespace FileTree

variable {t t' t'' : FileTree} {cache : Location} {names : Text → Prop}

/-- The files directly in a folder stay as they are, and new ones have allowed names. -/
structure EntriesKept (cache : Location) (names : Text → Prop) (t t' : FileTree) : Prop where
  current : t'.current = t.current
  kept : ∀ {name content}, t.contentAt? (cache ++ [name]) = some content →
    t'.contentAt? (cache ++ [name]) = some content
  fresh : ∀ {name}, t.contentAt? (cache ++ [name]) = none →
    t'.contentAt? (cache ++ [name]) ≠ none → names name

lemma EntriesKept.refl (cache : Location) (names : Text → Prop) (t : FileTree) :
    EntriesKept cache names t t :=
  ⟨rfl, id, fun h h' => absurd h h'⟩

lemma EntriesKept.trans (h : EntriesKept cache names t t') (h' : EntriesKept cache names t' t'') :
    EntriesKept cache names t t'' := by
  refine ⟨h'.current.trans h.current, fun hl => h'.kept (h.kept hl), fun {name} hl hl'' => ?_⟩
  cases hl' : t'.contentAt? (cache ++ [name]) with
  | none => exact h'.fresh hl' hl''
  | some content => exact h.fresh hl (by simp [hl'])

lemma PicturesChanged.entriesKept {build : Path} (h : PicturesChanged build t t')
    (hcache : cache ≠ picturesPlace build t.current) : EntriesKept cache names t t' := by
  have hsame : ∀ name, t'.contentAt? (cache ++ [name]) = t.contentAt? (cache ++ [name]) := by
    refine fun name => h.content fun name' heq => hcache ?_
    exact (List.append_inj' heq rfl).1
  exact ⟨h.current, fun hl => (hsame _).trans hl, fun hl hl' => absurd ((hsame _).trans hl) hl'⟩

end FileTree

lemma Apart.ne {k l : Location} (h : Apart k l) : k ≠ l := fun heq => h.1 (heq ▸ List.prefix_rfl)

section Run

variable (tools : Toolchain) {s : Settings} {c : Cache} {w : Workspace}

/-- Diagrams bring entries of their own to a cache that is apart from the folder for work. -/
lemma resolveAll_entriesKept (s : Settings) (ds : List Diagram) {cache : Location}
    (hwork : Apart cache (c.work.location w.files.current)) :
    EntriesKept cache (fun name => ∃ d ∈ ds, name = d.entryName) w.files
      (resolveAll tools s c ds w).files := by
  have hgrown := @resolveAll_grows tools s c ds w
  refine ⟨hgrown.current, hgrown.toKept.content, fun {name} hl hl' => ?_⟩
  obtain ⟨d, hd, hentry | hscratch⟩ := hgrown.fresh hl hl'
  · rw [Cache.location_entryPath] at hentry
    exact ⟨d, hd, (List.cons.inj (List.append_inj' hentry rfl).2).1⟩
  · exact absurd hscratch (not_inScratch hwork.2 name)

lemma representatives_subset (seen : List Text) (ds : List Diagram) :
    representatives seen ds ⊆ ds := by
  induction ds generalizing seen with
  | nil => exact List.Subset.refl _
  | cons d ds ih =>
      rw [representatives]
      split_ifs
      · exact List.subset_cons_of_subset d (ih seen)
      · exact List.cons_subset_cons d (ih _)

lemma Job.resolved_subset (job : Job) : job.resolved ⊆ job.diagrams := by
  cases job with
  | resolve d => exact List.Subset.refl _
  | prepare ds => exact representatives_subset [] ds

/-- The state behind a call differs in its pictures from the one behind its diagrams. -/
lemma CacheCall.after_redraws {call : CacheCall} (h : ∀ d ∈ call.job.diagrams, '/' ∉ d.id)
    (w : Workspace) :
    Redraws call.build (resolveAll tools call.settings call.cache call.job.resolved w)
      (call.after tools w) := by
  rw [CacheCall.after]
  cases hjob : call.job with
  | resolve d => exact PicturesChanged.refl _ _
  | prepare ds =>
      rw [hjob] at h
      exact prepareAssets_redraws h w

/-- The names of the entries of a run. -/
def EntryOf (calls : List CacheCall) (name : Text) : Prop :=
  ∃ call ∈ calls, ∃ d ∈ call.job.diagrams, name = d.entryName

/-- A call keeps the entries of every cache of the run. -/
lemma CacheCall.after_entriesKept {calls : List CacheCall}
    (hcalls : SeparateCalls w.files.current calls) {call call' : CacheCall} (hcall : call ∈ calls)
    (hcall' : call' ∈ calls) :
    EntriesKept (call'.place w.files.current) (EntryOf calls) w.files
      (call.after tools w).files := by
  have hwork := hcalls.work call' hcall' call hcall
  have hresolved := resolveAll_entriesKept tools call.settings call.job.resolved hwork
  have hredraws := CacheCall.after_redraws tools (hcalls.slash_free call hcall) w
  have hpictures := (hcalls.pictures call' hcall' call hcall).ne
  rw [← hresolved.current] at hpictures
  refine EntriesKept.trans ⟨hresolved.current, hresolved.kept, fun hl hl' => ?_⟩ ?_
  · obtain ⟨d, hd, hname⟩ := hresolved.fresh hl hl'
    exact ⟨call, hcall, d, call.job.resolved_subset hd, hname⟩
  · rw [← hresolved.current]
    exact hredraws.entriesKept hpictures

lemma runCalls_entriesKept {calls : List CacheCall}
    (hcalls : SeparateCalls w.files.current calls) {call' : CacheCall} (hcall' : call' ∈ calls)
    {made : List CacheCall} (hmade : made ⊆ calls) :
    EntriesKept (call'.place w.files.current) (EntryOf calls) w.files
      (runCalls tools made w).files := by
  induction made generalizing w with
  | nil => exact EntriesKept.refl _ _ _
  | cons call made ih =>
      obtain ⟨hcall, hmade⟩ := List.cons_subset.mp hmade
      have hfirst := CacheCall.after_entriesKept tools hcalls hcall hcall'
      rw [← hfirst.current] at hcalls
      have hrest := ih hcalls hmade
      rw [hfirst.current] at hrest
      exact hfirst.trans hrest

/-- From an empty tree on, the files in the caches of a run are entries of its diagrams. -/
lemma runCalls_named {calls : List CacheCall} (hempty : ∀ l, w.files.contentAt? l = none)
    (hcalls : SeparateCalls w.files.current calls) {call : CacheCall} (hcall : call ∈ calls)
    {made : List CacheCall} (hmade : made ⊆ calls) {name : Text}
    (hname : (runCalls tools made w).files.contentAt? (call.place w.files.current ++ [name]) ≠
      none) : EntryOf calls name :=
  (runCalls_entriesKept tools hcalls hcall hmade).fresh (hempty _) hname

/-! ### Runs -/

/-- A call of a run resolves a diagram in a state. -/
def Resolves (tools : Toolchain) (calls : List CacheCall) (w : Workspace) (call : CacheCall)
    (d : Diagram) (w' : Workspace) : Prop :=
  ∃ before after first rest, calls = before ++ call :: after ∧
    call.job.resolved = first ++ d :: rest ∧
      w' = resolveAll tools call.settings call.cache first (runCalls tools before w)

/-- What holds of the entries of the caches of a run. -/
structure CacheKept (tools : Toolchain) (calls : List CacheCall) (w : Workspace) : Prop where
  /-- A file in a cache stays as it is. -/
  stays : ∀ {before middle after}, calls = before ++ (middle ++ after) →
    ∀ call ∈ calls, ∀ {name content},
      (runCalls tools before w).files.contentAt? (call.place w.files.current ++ [name]) =
          some content →
        (runCalls tools (before ++ middle) w).files.contentAt?
          (call.place w.files.current ++ [name]) = some content
  /-- The files in a cache are entries of diagrams of the run. -/
  named : ∀ {before after}, calls = before ++ after → ∀ call ∈ calls, ∀ {name},
    (runCalls tools before w).files.contentAt? (call.place w.files.current ++ [name]) ≠ none →
      EntryOf calls name
  /-- No file that is not finished stays in a cache. -/
  finished : ∀ {before after}, calls = before ++ after → ∀ call ∈ calls, ∀ key n,
    (runCalls tools before w).files.contentAt?
      (call.place w.files.current ++ [Cache.unfinishedName key n]) = none
  /-- An entry that is there is found, and nothing happens. -/
  found : ∀ {call d w'}, Resolves tools calls w call d w' →
    w'.files.isFile (call.cache.entryPath d) = true →
      call.cache.resolve tools call.settings d w' =
        .ok (.ok (call.cache.entryPath d, .cached)) w'
  /-- A diagram with a picture has an entry, unless a folder is in its place. -/
  returned : ∀ {call d w' path state w''}, Resolves tools calls w call d w' →
    call.cache.resolve tools call.settings d w' = .ok (.ok (path, state)) w'' →
      path = call.cache.entryPath d ∧
        (w''.files.isFile path = true ∨ w''.files.isFolder path = true)
  /-- A diagram without a picture leaves all caches as they were, its own place included. -/
  failed : ∀ {call d w' e w''}, Resolves tools calls w call d w' →
    call.cache.resolve tools call.settings d w' = .ok (.error e) w'' →
      ∀ call' ∈ calls, ∀ name,
        w''.files.contentAt? (call'.place w.files.current ++ [name]) =
          w'.files.contentAt? (call'.place w.files.current ++ [name])

/-- Whatever a compiler does, the entries of the caches of a run stay as they are, nothing else is
in the caches, and a diagram without a picture leaves no trace there. -/
theorem cacheKept_run {calls : List CacheCall} (hempty : ∀ l, w.files.contentAt? l = none)
    (hcalls : SeparateCalls w.files.current calls) : CacheKept tools calls w where
  stays := by
    rintro before middle after rfl call hcall name content hcontent
    have hbefore := runCalls_entriesKept tools hcalls hcall
      (List.subset_append_left before (middle ++ after))
    have hmiddle : middle ⊆ before ++ (middle ++ after) := fun call hmem =>
      List.mem_append_right _ (List.mem_append_left _ hmem)
    rw [← hbefore.current] at hcalls hcontent ⊢
    rw [runCalls_append]
    exact (runCalls_entriesKept tools hcalls hcall hmiddle).kept hcontent
  named := by
    rintro before after rfl call hcall name hcontent
    exact runCalls_named tools hempty hcalls hcall (List.subset_append_left before after) hcontent
  finished := by
    rintro before after rfl call hcall key n
    by_contra hcontent
    obtain ⟨_, -, d, -, hname⟩ := runCalls_named tools hempty hcalls hcall
      (List.subset_append_left before after) hcontent
    exact unfinishedName_ne_entryName key n d hname
  found := fun _ hfile => Cache.resolve_of_isFile hfile
  returned := fun _ hresolve => Cache.resolve_eq_ok hresolve
  failed := by
    rintro call d w' e w'' ⟨before, after, first, rest, rfl, -, rfl⟩ hfailed call' hcall' name
    have hbefore := runCalls_entriesKept tools hcalls hcall'
      (List.subset_append_left before (call :: after))
    have hwork := hcalls.work call' hcall' call (List.mem_append_right _ List.mem_cons_self)
    rw [← hbefore.current] at hwork
    have hfirst := resolveAll_entriesKept tools call.settings first hwork
    rw [← hfirst.current] at hwork
    rw [← hbefore.current, ← hfirst.current]
    exact (Cache.resolve_eq_error hfailed).contentAt? (not_inScratch hwork.2 name)

end Run

section Examples

/-- A run in the usual folders: the entry of a diagram, and then the pictures of three, of which one
is shown as an error and one not at all. -/
def usualRun : List CacheCall :=
  let a : Diagram := ⟨"tikz-0".toList, "a".toList, {}⟩
  let b : Diagram := ⟨"tikz-1".toList, "b!".toList, {}⟩
  let c : Diagram := ⟨"tikz-2".toList, "c?".toList, {}⟩
  [⟨{ command := [] }, .ofText "build".toList, .resolve a⟩,
    ⟨{ command := [] }, .ofText "build".toList, .prepare [a, b, c]⟩]

theorem cacheKept_usualRun :
    SeparateCalls [] usualRun ∧ CacheKept .sample usualRun ⟨⟨[], []⟩, [], []⟩ := by
  have hseparate : SeparateCalls [] usualRun := by
    constructor <;> decide +kernel
  exact ⟨hseparate, cacheKept_run _ Bare.empty.no_content hseparate⟩

/-- A compiler that leaves a document at its first call and fails from then on. -/
def Toolchain.sampleOnce : Toolchain where
  compile calls call :=
    if calls.isEmpty then Toolchain.sample.compile calls call else ⟨.exited 1 [] [], []⟩
  draw := Toolchain.sample.draw

/-- A call for the entry of a diagram in a cache. -/
def callIn (folder : Text) (d : Diagram) : CacheCall :=
  ⟨{ command := [], cacheFolder := some (.ofText folder) }, .ofText "build".toList, .resolve d⟩

/-- Two ways to miss an entry. A cache at the place of an entry makes a folder of it, and then the
diagram has a picture but no file with it. A cache may be named by a path through a folder that is
not there yet; then an entry is not found, and it stands at its place although the compiler
failed. -/
theorem entries_missed :
    let a : Diagram := ⟨"tikz-0".toList, "a".toList, {}⟩
    let b : Diagram := ⟨"tikz-1".toList, "b".toList, {}⟩
    let empty : Workspace := ⟨⟨[], []⟩, [], []⟩
    let result (tools : Toolchain) (call : CacheCall) (w : Workspace) :=
      ((call.cache.resolve tools call.settings a).outcome w).toOption.map Except.toOption
    (let inEntry := callIn ("c/".toList ++ a.entryName) b
      let call := callIn "c".toList a
      let w := runCalls .sample [inEntry] empty
      SeparateCalls [] [inEntry, call] ∧
        result .sample call w = some (some (call.cache.entryPath a, .compiled)) ∧
        (call.after .sample w).files.isFile (call.cache.entryPath a) = false) ∧
    (let direct := callIn "c".toList a
      let call := callIn "x/../c".toList a
      let w := runCalls .sampleOnce [direct] empty
      SeparateCalls [] [direct, call] ∧
        result .sampleOnce call w = some none ∧
        (call.after .sampleOnce w).files.isFile (call.cache.entryPath a) = true) := by
  refine ⟨⟨?_, ?_, ?_⟩, ⟨?_, ?_, ?_⟩⟩
  · constructor <;> decide +kernel
  · decide +kernel
  · decide +kernel
  · constructor <;> decide +kernel
  · decide +kernel
  · decide +kernel

end Examples

end Galley
