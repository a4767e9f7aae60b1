import Galley.Diagram.Compile
import Galley.Proofs.Steps
import Mathlib.Tactic

/-!
Compiling a document in a scratch folder: what comes of it, and that nothing outside the scratch
folder changes.

* `FileTree.SameOutside`: two trees differ at a location and below only;
* `FileTree.Scratched`: a tree is another one with more scratch folders;
* `CompilerRun.compiled`: what the run of a compiler gives;
* `FileTree.EmptyFolder`, `outputOf_leaveFiles`: a compiler leaves its files in an empty folder;
* `Confined`, `compileWith_eq`: whatever a compiler does in its scratch folder, what was there stays;
* `compileDocument_eq`: a document is compiled as the compiler says.
-/

namespace Galley

open BuildStep

/-! ### Trees with one place changed -/

namespace FileTree

variable {t t' t'' : FileTree} {l k : Location}

/-- Two trees differ at a location and below only. -/
structure SameOutside (l : Location) (t t' : FileTree) : Prop where
  current : t'.current = t.current
  get? : ∀ {k}, ¬ l <+: k → t'.get? k = t.get? k

lemma SameOutside.refl (l : Location) (t : FileTree) : SameOutside l t t := ⟨rfl, fun _ => rfl⟩

lemma SameOutside.trans (h : SameOutside l t t') (h' : SameOutside l t' t'') :
    SameOutside l t t'' :=
  ⟨h'.current.trans h.current, fun hk => (h'.get? hk).trans (h.get? hk)⟩

lemma sameOutside_put (h : l <+: k) (t : FileTree) (node : Node) :
    SameOutside l t (t.put k node) := by
  refine ⟨rfl, fun {j} hj => get?_put_of_ne ?_⟩
  rintro rfl
  exact hj h

lemma sameOutside_eraseBelow (l : Location) (t : FileTree) : SameOutside l t (t.eraseBelow l) :=
  ⟨rfl, get?_eraseBelow_of_not⟩

/-- A tree is another one with more scratch folders in a folder. -/
structure Scratched (work : Location) (t t' : FileTree) : Prop extends Kept t t' where
  fresh : ∀ {l node}, t.get? l = none → t'.get? l = some node →
    ∃ name, t.Unused (work ++ [name]) ∧ work ++ [name] <+: l ∧ (l = work ++ [name] → node = .folder)

namespace Scratched

variable {work : Location}

lemma refl (work : Location) (t : FileTree) : Scratched work t t :=
  ⟨Kept.refl t, fun h h' => by rw [h] at h'; cases h'⟩

lemma trans (h : Scratched work t t') (h' : Scratched work t' t'') : Scratched work t t'' := by
  refine ⟨h.toKept.trans h'.toKept, fun {l node} hl hl'' => ?_⟩
  cases hl' : t'.get? l with
  | none =>
      obtain ⟨name, hunused, hprefix, hfolder⟩ := h'.fresh hl' hl''
      exact ⟨name, h.toKept.unused hunused, hprefix, hfolder⟩
  | some node' =>
      rw [h'.get? hl'] at hl''
      obtain rfl := Option.some.inj hl''
      exact h.fresh hl hl'

/-- Folders that are not above the work have the same members as before. -/
lemma get?_member (h : Scratched work t t') {folder : Location} (hfolder : ¬ work <+: folder)
    (name : Text) : t'.get? (folder ++ [name]) = t.get? (folder ++ [name]) := by
  cases hl : t.get? (folder ++ [name]) with
  | some node => exact h.get? hl
  | none =>
      by_contra hsome
      obtain ⟨node, hnode⟩ := Option.ne_none_iff_exists'.mp hsome
      obtain ⟨name', -, hprefix, -⟩ := h.fresh hl hnode
      refine hfolder ?_
      rcases List.prefix_concat_iff.mp hprefix with heq | hprefix
      · rw [(List.append_inj' heq rfl).1]
      · exact (List.prefix_append _ _).trans hprefix

/-- Folders that were there hold the same files as before. -/
lemma contentAt?_member (h : Scratched work t t') {folder : Location}
    (hfolder : t.get? folder ≠ none) (name : Text) :
    t'.contentAt? (folder ++ [name]) = t.contentAt? (folder ++ [name]) := by
  cases hl : t.get? (folder ++ [name]) with
  | some node => exact contentAt?_congr ((h.get? hl).trans hl.symm)
  | none =>
      cases hl' : t'.get? (folder ++ [name]) with
      | none => rw [contentAt?, contentAt?, hl, hl']
      | some node =>
          obtain ⟨name', hunused, hprefix, hnode⟩ := h.fresh hl hl'
          rcases List.prefix_concat_iff.mp hprefix with heq | hprefix
          · rw [contentAt?, contentAt?, hl, hl', hnode heq.symm]
          · exact absurd (hunused _ hprefix) hfolder

/-- A new file lies in a scratch folder. -/
lemma prefix_of_content (h : Scratched work t t') (hl : t.contentAt? l = none)
    (hl' : t'.contentAt? l ≠ none) : ∃ name, work ++ [name] <+: l.dropLast := by
  obtain ⟨content, hcontent⟩ := Option.ne_none_iff_exists'.mp hl'
  obtain ⟨executable, hfile⟩ := contentAt?_eq_some.mp hcontent
  have hnone : t.get? l = none := by
    by_contra hsome
    obtain ⟨node, hnode⟩ := Option.ne_none_iff_exists'.mp hsome
    rw [h.get? hnode] at hfile
    obtain rfl := Option.some.inj hfile
    rw [contentAt?_eq_some.mpr ⟨executable, hnode⟩] at hl
    cases hl
  obtain ⟨name, -, hprefix, hfolder⟩ := h.fresh hnone hfile
  refine ⟨name, ?_⟩
  cases l using List.reverseRecOn with
  | nil => simp at hprefix
  | append_singleton l x =>
      rw [List.dropLast_concat]
      rcases List.prefix_concat_iff.mp hprefix with heq | hprefix
      · cases hfolder heq.symm
      · exact hprefix

end Scratched

/-- A change where nothing was keeps everything. -/
lemma SameOutside.kept (h : SameOutside l t t') (hunused : t.Unused l) : Kept t t' := by
  refine ⟨h.current, fun {k node} hk => ?_⟩
  have hprefix : ¬ l <+: k := fun hprefix => by
    rw [hunused k hprefix] at hk
    cases hk
  rw [h.get? hprefix, hk]

/-- A change at an unused place in a folder makes a scratch folder of it. -/
lemma SameOutside.scratched {work : Location} {name : Text}
    (h : SameOutside (work ++ [name]) t t') (hunused : t.Unused (work ++ [name]))
    (hfolder : ∀ node, t'.get? (work ++ [name]) = some node → node = .folder) :
    Scratched work t t' := by
  refine ⟨h.kept hunused, fun {l node} hl hl' => ?_⟩
  by_cases hprefix : work ++ [name] <+: l
  · exact ⟨name, hunused, hprefix, fun heq => hfolder node (heq ▸ hl')⟩
  · rw [h.get? hprefix, hl] at hl'
    cases hl'

end FileTree

open FileTree

/-! ### The files of a compiler -/

/-- The document among the files that a compiler leaves; of several files of its name the last one
counts. -/
def CompilerRun.document? (run : CompilerRun) : Option Octets :=
  run.files.reverse.lookup compiledName

/-- What the run of a compiler gives; `place` is where its document is expected. -/
def CompilerRun.compiled (s : Settings) (place : Path) (run : CompilerRun) :
    Except RenderError Octets :=
  match run.ending with
  | .timedOut => .error (.timedOut s.timeout)
  | .notStarted reason => .error (.notStarted reason)
  | .exited code output errors =>
      if code ≠ 0 then .error (.failed code (reportOf output errors))
      else
        match run.document? with
        | some document => .ok document
        | none => .error (.noOutput place)

/-- Puts files into the folder at a location. -/
def putFiles (l : Location) (files : List (Text × Octets)) (t : FileTree) : FileTree :=
  files.foldl (fun t (name, content) => t.put (l ++ [name]) (.file content false)) t

lemma leaveFiles_eq {t : FileTree} {folder : Path} {l : Location} (h : t.locate folder = .ok l)
    (files : List (Text × Octets)) : leaveFiles folder files t = putFiles l files t := by
  rw [leaveFiles, h]
  rfl

lemma putFiles_concat (l : Location) (files : List (Text × Octets)) (name : Text)
    (content : Octets) (t : FileTree) :
    putFiles l (files ++ [(name, content)]) t =
      (putFiles l files t).put (l ++ [name]) (.file content false) := by
  rw [putFiles, putFiles, List.foldl_append]
  rfl

lemma sameOutside_putFiles {l k : Location} (h : l <+: k) (files : List (Text × Octets))
    (t : FileTree) : SameOutside l t (putFiles k files t) := by
  induction files using List.reverseRecOn with
  | nil => exact SameOutside.refl l t
  | append_singleton files file ih =>
      obtain ⟨name, content⟩ := file
      rw [putFiles_concat]
      exact ih.trans (sameOutside_put (h.trans (List.prefix_append _ _)) _ _)

lemma get?_putFiles_of_ne {l k : Location} (h : ∀ name, k ≠ l ++ [name])
    (files : List (Text × Octets)) (t : FileTree) : (putFiles l files t).get? k = t.get? k := by
  induction files using List.reverseRecOn with
  | nil => rfl
  | append_singleton files file ih =>
      obtain ⟨name, content⟩ := file
      rw [putFiles_concat, get?_put_of_ne (h name), ih]

/-- Of several files of one name the last one counts. -/
lemma get?_putFiles (l : Location) (files : List (Text × Octets)) (t : FileTree) (name : Text) :
    (putFiles l files t).get? (l ++ [name]) =
      match files.reverse.lookup name with
      | some content => some (.file content false)
      | none => t.get? (l ++ [name]) := by
  induction files using List.reverseRecOn with
  | nil => rfl
  | append_singleton files file ih =>
      obtain ⟨name', content⟩ := file
      rw [putFiles_concat, List.reverse_append, List.reverse_singleton, List.singleton_append,
        List.lookup_cons]
      by_cases hname : name = name'
      · subst hname
        rw [get?_put_self (List.append_ne_nil_of_right_ne_nil _ (List.cons_ne_nil _ _)),
          beq_self_eq_true]
      · have hne : l ++ [name] ≠ l ++ [name'] := fun heq =>
          hname (child_inj heq)
        rw [get?_put_of_ne hne, ih, beq_eq_false_iff_ne.mpr hname]

/-! ### Empty folders -/

namespace FileTree

variable {t : FileTree} {p : Path} {l k : Location}

/-- A folder with nothing in it. -/
structure EmptyFolder (t : FileTree) (p : Path) : Prop where
  isFolder : t.isFolder p = true
  empty : ∀ {k}, p.location t.current <+: k → k ≠ p.location t.current → t.get? k = none

/-- A new folder is empty. -/
lemma emptyFolder_put (hl : t.locate p = .ok l) (h : t.Unused l) :
    EmptyFolder (t.put l .folder) p := by
  refine ⟨isFolder_put hl (h l List.prefix_rfl), fun {k} hk hne => ?_⟩
  rw [put_current, ← eq_of_locate hl] at hk hne
  rw [get?_put_of_ne hne, h k hk]

lemma Unused.put (h : t.Unused l) (hk : ¬ l <+: k) (node : Node) : (t.put k node).Unused l := by
  intro j hj
  rw [get?_put_of_ne, h j hj]
  rintro rfl
  exact hk hj

namespace EmptyFolder

lemma unused (h : EmptyFolder t p) (name : Text) : t.Unused (p.location t.current ++ [name]) := by
  intro k hk
  refine h.empty ((List.prefix_append _ _).trans hk) fun heq => ?_
  have hle := hk.length_le
  rw [heq, List.length_append, List.length_singleton] at hle
  omega

lemma get?_eq_none (h : EmptyFolder t p) (name : Text) :
    t.get? (p.location t.current ++ [name]) = none :=
  h.unused name _ List.prefix_rfl

lemma kept_putFiles (h : EmptyFolder t p) (files : List (Text × Octets)) :
    Kept t (putFiles (p.location t.current) files t) := by
  refine ⟨(sameOutside_putFiles List.prefix_rfl _ _).current, fun {k node} hk => ?_⟩
  rw [get?_putFiles_of_ne (fun name heq => ?_), hk]
  rw [heq, h.get?_eq_none] at hk
  cases hk

lemma contentAt?_putFiles (h : EmptyFolder t p) (files : List (Text × Octets)) (name : Text) :
    (putFiles (p.location t.current) files t).contentAt? (p.location t.current ++ [name]) =
      files.reverse.lookup name := by
  rw [contentAt?, get?_putFiles, h.get?_eq_none]
  cases files.reverse.lookup name <;> rfl

end EmptyFolder

end FileTree

/-! ### Compiling in a scratch folder -/

lemma isName_documentName : IsName documentName := by
  constructor <;> decide

lemma isName_outputName : IsName outputName := by
  constructor <;> decide

lemma isName_compiledName : IsName compiledName := by
  constructor <;> decide

/-- The place where the compiled document is expected. -/
def expectedPlace (scratch : Path) : Path := scratch / outputName / compiledName

lemma outputOf_eq {s : Settings} {scratch : Path} {run : CompilerRun} {files : FileTree}
    (hfolder : files.isFolder (scratch / outputName) = true)
    (hcontent : files.contentAt? ((expectedPlace scratch).location files.current) = run.document?) :
    outputOf s (expectedPlace scratch) run.ending files =
      .ok (run.compiled s (expectedPlace scratch)) := by
  have hlocate := locate_div_of_isFolder isName_compiledName hfolder
  have hfile := isFile_div isName_compiledName hfolder
  change files.isFile (expectedPlace scratch) = _ at hfile
  rw [CompilerRun.compiled]
  cases run.ending with
  | timedOut => rfl
  | notStarted reason => rfl
  | exited code output errors =>
      simp only [outputOf]
      split_ifs with hcode hisFile
      · rfl
      · rw [hfile, Option.isSome_iff_exists] at hisFile
        obtain ⟨content, hsome⟩ := hisFile
        change files.contentAt? ((expectedPlace scratch).location files.current) = _ at hsome
        have hread : files.read (expectedPlace scratch) = .ok content :=
          read_eq_ok.mpr ⟨hlocate, hsome⟩
        rw [hread, ← hcontent, hsome]
        rfl
      · rw [hfile, Bool.not_eq_true, Option.isSome_eq_false_iff, Option.isNone_iff_eq_none]
          at hisFile
        change files.contentAt? ((expectedPlace scratch).location files.current) = _ at hisFile
        rw [← hcontent, hisFile]

/-- A run that went well. -/
def Ending.IsSuccess (ending : Ending) : Prop := ∃ output errors, ending = .exited 0 output errors

/-- Whatever is left by a run, it gives a result; this is the file in the expected place, if the run
went well and such a file is there. -/
lemma outputOf_returns (s : Settings) (place : Path) (ending : Ending) (files : FileTree) :
    ∃ result, outputOf s place ending files = .ok result ∧
      ∀ content, result = .ok content ↔ ending.IsSuccess ∧ files.read place = .ok content := by
  cases ending with
  | timedOut => exact ⟨_, rfl, by simp [Ending.IsSuccess]⟩
  | notStarted reason => exact ⟨_, rfl, by simp [Ending.IsSuccess]⟩
  | exited code output errors =>
      rw [outputOf]
      split_ifs with hcode hfile
      · exact ⟨_, rfl, by simp [Ending.IsSuccess, hcode]⟩
      · obtain ⟨hlocate, hcontent⟩ := isFile_iff.mp hfile
        obtain ⟨content, hcontent⟩ := Option.ne_none_iff_exists'.mp hcontent
        rw [read_eq_ok.mpr ⟨hlocate, hcontent⟩]
        exact ⟨.ok content, rfl, by simp_all [Ending.IsSuccess]⟩
      · refine ⟨_, rfl, fun content => ?_⟩
        have hread : files.read place ≠ .ok content := fun hread =>
          hfile (isFile_iff.mpr ⟨(read_eq_ok.mp hread).1, by simp [(read_eq_ok.mp hread).2]⟩)
        simp [hread]

/-! ### Runs in a scratch folder -/

namespace FileTree

/-- Two trees differ below a location only. -/
structure SameAround (l : Location) (t t' : FileTree) : Prop extends SameOutside l t t' where
  here : t'.get? l = t.get? l

lemma SameAround.trans {t t' t'' : FileTree} {l : Location} (h : SameAround l t t')
    (h' : SameAround l t' t'') : SameAround l t t'' :=
  ⟨h.toSameOutside.trans h'.toSameOutside, h'.here.trans h.here⟩

/-- What is put below a location changes nothing at it. -/
lemma sameAround_put {l below : Location} (h : below ≠ []) (t : FileTree) (node : Node) :
    SameAround l t (t.put (l ++ below) node) := by
  refine ⟨sameOutside_put (List.prefix_append _ _) _ _, get?_put_of_ne fun heq => h ?_⟩
  exact List.self_eq_append_right.mp heq

/-- The tree with a document and an output folder in a scratch folder. -/
def supply (t : FileTree) (scratch : Path) (document : Text) : FileTree :=
  (t.put ((scratch / documentName).location t.current) (.file (utf8 document) false)).put
    ((scratch / outputName).location t.current) .folder

section Supply

variable {t : FileTree} {scratch : Path}

/-- What a scratch folder is supplied with goes below it. -/
lemma sameAround_supply (t : FileTree) (scratch : Path) (document : Text) :
    SameAround (scratch.location t.current) t (t.supply scratch document) := by
  rw [supply, Path.location_div isName_documentName, Path.location_div isName_outputName]
  exact (sameAround_put (List.cons_ne_nil _ _) _ _).trans
    (sameAround_put (List.cons_ne_nil _ _) _ _)

/-- An empty scratch folder can be supplied, and its output folder is empty then. -/
lemma EmptyFolder.supply (hempty : EmptyFolder t scratch) (document : Text) :
    (∃ t', t.write (scratch / documentName) (utf8 document) = .ok t' ∧
        t'.makeFolder (scratch / outputName) = .ok (t.supply scratch document)) ∧
      EmptyFolder (t.supply scratch document) (scratch / outputName) := by
  have hnew := hempty.get?_eq_none documentName
  rw [← Path.location_div isName_documentName] at hnew
  have hwrite := write_div isName_documentName hempty.isFolder hnew (utf8 document)
  set t' := t.put ((scratch / documentName).location t.current) (.file (utf8 document) false)
    with ht'
  have hkept : Kept t t' := kept_put hnew
  have hlocate := locate_div_of_isFolder isName_outputName (hkept.isFolder hempty.isFolder)
  have hunused : t'.Unused ((scratch / outputName).location t'.current) := by
    rw [hkept.current, Path.location_div isName_outputName]
    refine (hempty.unused outputName).put (fun hprefix => ?_) _
    rw [Path.location_div isName_documentName] at hprefix
    have heq := hprefix.eq_of_length (by simp)
    exact absurd (List.append_cancel_left heq) (by decide)
  exact ⟨⟨t', hwrite, makeFolder_of_locate hlocate (hunused _ List.prefix_rfl)⟩,
    emptyFolder_put hlocate hunused⟩

end Supply

end FileTree

/-- A run of a program that comes to an end, and changes nothing but what is in its scratch
folder. -/
structure Confined (run : Path → BuildStep Ending) : Prop where
  ends : ∀ {scratch : Path} {w : Workspace}, w.files.isFolder scratch = true →
    ∃ ending w', run scratch w = .ok ending w' ∧
      SameAround (scratch.location w.files.current) w.files w'.files

/-- The compiler of a toolchain writes into the output folder only. -/
lemma confined_runIn (tools : Toolchain) (s : Settings) (document : Text) :
    Confined (runIn tools s document) := by
  refine ⟨fun {scratch w} _ => ⟨_, _, callCompiler_apply _ _ _ _, ?_⟩⟩
  dsimp only
  cases hl : w.files.locate (scratch / outputName) with
  | error e =>
      rw [leaveFiles, hl]
      exact ⟨SameOutside.refl _ _, rfl⟩
  | ok l =>
      rw [leaveFiles_eq hl]
      have hplace := eq_of_locate hl
      rw [Path.location_div isName_outputName] at hplace
      refine ⟨sameOutside_putFiles (hplace ▸ List.prefix_append _ _) _ _, ?_⟩
      refine get?_putFiles_of_ne (fun name heq => ?_) _ _
      simp [hplace] at heq

section Compile

variable {tools : Toolchain} {s : Settings} {document : Text} {w : Workspace}

/-- What the compiler of a toolchain leaves in an empty output folder is the result. -/
lemma outputOf_leaveFiles {t : FileTree} {scratch : Path}
    (hempty : EmptyFolder t (scratch / outputName)) (run : CompilerRun) :
    outputOf s (expectedPlace scratch) run.ending
        (leaveFiles (scratch / outputName) run.files t) =
      .ok (run.compiled s (expectedPlace scratch)) := by
  rw [leaveFiles_eq (isFolder_iff.mp hempty.isFolder).1]
  have hkept := hempty.kept_putFiles run.files
  refine outputOf_eq (hkept.isFolder hempty.isFolder) ?_
  rw [hkept.current, expectedPlace, Path.location_div isName_compiledName]
  exact hempty.contentAt?_putFiles run.files compiledName

/-- The step that removes a scratch folder. -/
lemma closeScratch_eq (s : Settings) (scratch : Path) (w : Workspace) :
    closeScratch s scratch w =
      .ok () { w with
        files := if s.keepWorkFiles then w.files else w.files.removeTree scratch } := by
  rw [closeScratch]
  cases s.keepWorkFiles <;> rfl

/-- A compiler runs once, in a scratch folder with the document and an empty output folder, at a
place where nothing was. The result is what it leaves, and the scratch folder is removed unless the
settings keep it. -/
lemma compileWith_eq {run : Path → BuildStep Ending} (hrun : Confined run) {work : Path}
    {name : Text} (hname : '/' ∉ name) (hwork : w.files.isFolder work = true) :
    ∃ n ending ran result,
      w.files.Unused (work.location w.files.current ++ [scratchName name n]) ∧
      EmptyFolder ((w.files.put (work.location w.files.current ++ [scratchName name n])
        .folder).supply (work / scratchName name n) document)
          (work / scratchName name n / outputName) ∧
      run (work / scratchName name n)
          { w with
            files := (w.files.put (work.location w.files.current ++ [scratchName name n])
              .folder).supply (work / scratchName name n) document
            stems := stemOf name :: w.stems } = .ok ending ran ∧
      outputOf s (expectedPlace (work / scratchName name n)) ending ran.files = .ok result ∧
      SameOutside (work.location w.files.current ++ [scratchName name n]) w.files ran.files ∧
      ran.files.get? (work.location w.files.current ++ [scratchName name n]) = some .folder ∧
      compileWith run s work document name w =
        .ok result { ran with
          files := if s.keepWorkFiles then ran.files else
            ran.files.eraseBelow (work.location w.files.current ++ [scratchName name n]) } := by
  obtain ⟨n, hunused, hopen⟩ := openScratch_eq hname hwork
  have hlocate := locate_div_of_isFolder (isName_scratchName hname n) hwork
  set scratch := work / scratchName name n with hscratch
  have hplace : ∀ here, scratch.location here = work.location here ++ [scratchName name n] :=
    Path.location_div (isName_scratchName hname n) work
  rw [hplace] at hunused hopen hlocate
  set l := work.location w.files.current ++ [scratchName name n] with hl
  set t := w.files.put l .folder with ht
  have hempty : EmptyFolder t scratch := emptyFolder_put hlocate hunused
  obtain ⟨⟨t', hwrite, hmake⟩, houtput⟩ := hempty.supply document
  -- whatever changes below the scratch folder, the path still leads to it
  have hthere : ∀ {t' : FileTree}, SameAround l t t' →
      SameOutside l w.files t' ∧ t'.get? l = some .folder ∧ t'.isFolder scratch = true := by
    intro t' haround
    have hsame : SameOutside l w.files t' :=
      (sameOutside_put List.prefix_rfl _ _).trans haround.toSameOutside
    have hl' : t'.get? l = some .folder := by
      rw [haround.here, ht, get?_put_self hunused.ne_nil]
    have hwork' := (hsame.kept hunused).isFolder hwork
    refine ⟨hsame, hl', isFolder_iff.mpr
      ⟨locate_div_of_isFolder (isName_scratchName hname n) hwork', ?_⟩⟩
    rw [hplace, hsame.current]
    exact hl'
  have hsupply : SameAround l t (t.supply scratch document) := by
    have hsupply := sameAround_supply t scratch document
    rwa [hplace] at hsupply
  obtain ⟨ending, ran, hran, haround⟩ := hrun.ends (w := { w with
    files := t.supply scratch document, stems := stemOf name :: w.stems }) (hthere hsupply).2.2
  rw [hplace] at haround
  obtain ⟨hsame, hl', hfolder⟩ := hthere (hsupply.trans haround)
  obtain ⟨result, hresult, -⟩ := outputOf_returns s (expectedPlace scratch) ending ran.files
  have hcompile : compileIn run s scratch document { w with
      files := t, stems := stemOf name :: w.stems } = .ok result ran := by
    rw [compileIn, bind_of_eq_ok (writeFile_of_eq_ok hwrite), bind_of_eq_ok (change_of_eq_ok hmake),
      bind_of_eq_ok hran]
    exact consult_of_eq_ok hresult
  have hremove : ran.files.removeTree scratch = ran.files.eraseBelow l := by
    rw [removeTree_of_isFolder hfolder, hplace, hsame.current]
  refine ⟨n, ending, ran, result, hunused, houtput, hran, hresult, hsame, hl', ?_⟩
  rw [compileWith, bind_of_eq_ok (makeFolders_of_eq_ok (makeFolders_of_isFolder hwork)),
    bind_of_eq_ok hopen, bind_of_eq_ok (attempt_of_eq_ok hcompile),
    bind_of_eq_ok (closeScratch_eq _ _ _), hremove]
  rfl

/-- Compiling begins with the folder for work. -/
lemma compileWith_of_makeFolders (run : Path → BuildStep Ending) {work : Path} {name : Text}
    {files : FileTree} (h : w.files.makeFolders work = .ok () files) :
    compileWith run s work document name w =
      compileWith run s work document name { w with files } := by
  have hfolder := makeFolders_of_isFolder (makeFolders_isFolder h)
  rw [compileWith, bind_of_eq_ok (makeFolders_of_eq_ok h),
    bind_of_eq_ok (makeFolders_of_eq_ok hfolder)]

/-- A document is compiled as the compiler says. The compiler sees the calls before this one, and
is called once; the files change in a scratch folder only, at a place where nothing was, and this
folder is removed unless the settings keep it. -/
lemma compileDocument_eq {work : Path} {name : Text} (hname : '/' ∉ name)
    (hwork : w.files.isFolder work = true) :
    ∃ n files,
      compileDocument tools s work document name w =
        .ok ((tools.compile w.calls (callFor s (work / scratchName name n) document)).compiled s
            (expectedPlace (work / scratchName name n)))
          { files
            stems := stemOf name :: w.stems
            calls := w.calls ++ [callFor s (work / scratchName name n) document] } ∧
      w.files.Unused (work.location w.files.current ++ [scratchName name n]) ∧
      SameOutside (work.location w.files.current ++ [scratchName name n]) w.files files ∧
      (s.keepWorkFiles = false →
        files.Unused (work.location w.files.current ++ [scratchName name n])) ∧
      ∀ node, files.get? (work.location w.files.current ++ [scratchName name n]) = some node →
        node = .folder := by
  obtain ⟨n, ending, ran, result, hunused, hempty, hran, hresult, hsame, hthere, hcompile⟩ :=
    @compileWith_eq s document w _ (confined_runIn tools s document) work name hname hwork
  set l := work.location w.files.current ++ [scratchName name n] with hl
  rw [runIn, callCompiler_apply] at hran
  injection hran with hending hran
  subst hending hran
  rw [outputOf_leaveFiles hempty] at hresult
  obtain rfl := Except.ok.inj hresult
  refine ⟨n, _, hcompile, hunused, ?_, ?_, ?_⟩
  · split_ifs
    · exact hsame
    · exact hsame.trans (sameOutside_eraseBelow l _)
  · intro hkeep
    rw [hkeep]
    exact unused_eraseBelow _ hunused.ne_nil
  · intro node hnode
    split_ifs at hnode
    · rw [hthere] at hnode
      exact (Option.some.inj hnode).symm
    · rw [unused_eraseBelow _ hunused.ne_nil l List.prefix_rfl] at hnode
      cases hnode

end Compile

end Galley
