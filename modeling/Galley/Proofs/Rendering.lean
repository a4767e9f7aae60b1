import Galley.Cache
import Galley.Proofs.EntryNames
import Galley.Proofs.Scratch
import Mathlib.Tactic

/-!
Rendering a diagram: what comes of it, and that the files only grow.

* `FileTree.Grown`, `BuildStep.Grows`: everything stays, and new files lie at allowed places only;
* `compileDocument_grows`, `Cache.renderDiagram_grows`: whatever comes of them, new files lie in
  scratch folders;
* `Toolchain.Steady`: a compiler whose outcome depends on the document only;
* `Toolchain.pictureOf`: the picture of a diagram, as such a compiler determines it;
* `Cache.renderDiagram_eq`: rendering gives this picture, and adds scratch folders only.
-/

namespace Galley

open BuildStep

/-! ### Trees with more files -/

namespace FileTree

variable {t t' t'' : FileTree} {new new' : Location → Prop}

/-- Everything stays, and new files lie at allowed places only. -/
structure Grown (new : Location → Prop) (t t' : FileTree) : Prop extends Kept t t' where
  fresh : ∀ {l}, t.contentAt? l = none → t'.contentAt? l ≠ none → new l

lemma Grown.refl (new : Location → Prop) (t : FileTree) : Grown new t t :=
  ⟨Kept.refl t, fun h h' => absurd h h'⟩

lemma Grown.trans (h : Grown new t t') (h' : Grown new t' t'') : Grown new t t'' := by
  refine ⟨h.toKept.trans h'.toKept, fun {l} hl hl'' => ?_⟩
  cases hl' : t'.contentAt? l with
  | none => exact h'.fresh hl' hl''
  | some content => exact h.fresh hl (by simp [hl'])

lemma Grown.mono (hnew : ∀ {l}, new l → new' l) (h : Grown new t t') : Grown new' t t' :=
  ⟨h.toKept, fun hl hl' => hnew (h.fresh hl hl')⟩

/-- Where nothing new may be, the contents are the same as before. -/
lemma Grown.contentAt? (h : Grown new t t') {l : Location} (hl : ¬ new l) :
    t'.contentAt? l = t.contentAt? l := by
  cases hcontent : t.contentAt? l with
  | some content => exact h.toKept.content hcontent
  | none =>
      by_contra hsome
      exact hl (h.fresh hcontent hsome)

lemma FoldersAdded.grown (h : FoldersAdded t t') : Grown new t t' := by
  refine ⟨h.toKept, fun hl hl' => ?_⟩
  rw [h.contentAt?] at hl'
  exact absurd hl hl'

/-- The places of files in scratch folders. -/
def InScratch (work l : Location) : Prop := ∃ name, work ++ [name] <+: l.dropLast

lemma Scratched.grown {work : Location} (h : Scratched work t t') : Grown (InScratch work) t t' :=
  ⟨h.toKept, h.prefix_of_content⟩

/-- Files directly in a folder are not in scratch folders, unless the folder is. -/
lemma not_inScratch {work folder : Location} (h : ¬ work <+: folder) (name : Text) :
    ¬ InScratch work (folder ++ [name]) := by
  rintro ⟨name', hprefix⟩
  rw [List.dropLast_concat] at hprefix
  exact h ((List.prefix_append _ _).trans hprefix)

end FileTree

open FileTree

/-! ### Steps with more files -/

/-- States whose files only grow, at allowed places; `here` is the current folder. -/
def BuildStep.Grows (here : Location) (new : Location → Prop) (w w' : Workspace) : Prop :=
  w.files.current = here → Grown new w.files w'.files

lemma BuildStep.Grows.chains (here : Location) (new : Location → Prop) :
    Chains (Grows here new) := by
  refine ⟨fun w _ => Grown.refl new w.files, fun h h' hhere => ?_⟩
  have hgrown := h hhere
  exact hgrown.trans (h' (hgrown.current.trans hhere))

section Growth

variable {here : Location} {new : Location → Prop} {tools : Toolchain} {s : Settings} {c : Cache}

lemma makeFolders_grows (p : Path) : Respects (Grows here new) (makeFolders p) := by
  intro w _
  rw [files_after_makeFolders]
  exact (makeFolders_added w.files p).grown

section Compile

variable {work : Path} {document name : Text} {w : Workspace}

lemma compileDocument_of_makeFolders {files : FileTree}
    (h : w.files.makeFolders work = .ok () files) :
    compileDocument tools s work document name w =
      compileDocument tools s work document name { w with files } :=
  compileWith_of_makeFolders _ h

lemma compileDocument_of_error {files : FileTree} {e : FileError}
    (h : w.files.makeFolders work = .error e files) :
    compileDocument tools s work document name w = .error e { w with files } :=
  bind_of_eq_error (makeFolders_of_eq_error h)

/-- Whatever comes of a document, new files lie in scratch folders. -/
lemma compileDocument_grows (hname : '/' ∉ name) :
    Respects (Grows here (InScratch (work.location here)))
      (compileDocument tools s work document name) := by
  intro w hhere
  cases h : w.files.makeFolders work with
  | error e files =>
      have hadded := makeFolders_added w.files work
      rw [h] at hadded
      rw [after_of_eq_error (compileDocument_of_error h)]
      exact hadded.grown
  | ok _ files =>
      have hadded := added_of_makeFolders h
      obtain ⟨n, files', hcompile, hunused, hsame, -, hfolder⟩ :=
        @compileDocument_eq tools s document { w with files } work name hname
          (makeFolders_isFolder h)
      rw [after_of_eq_ok ((compileDocument_of_makeFolders h).trans hcompile)]
      dsimp only at hunused hsame hfolder ⊢
      rw [hadded.current, hhere] at hunused hsame hfolder
      exact hadded.grown.trans (hsame.scratched hunused hfolder).grown

end Compile

lemma Cache.render_grows {document name extension : Text} (hname : '/' ∉ name) :
    Respects (Grows here (InScratch (c.work.location here)))
      (c.render tools s document name extension) := by
  have hR := Grows.chains here (InScratch (c.work.location here))
  refine (compileDocument_grows hname).bind hR fun result => ?_
  cases result with
  | ok compiled => exact Respects.pure hR _
  | error e => exact Respects.pure hR _

lemma errorName_slash_free (d : Diagram) : '/' ∉ d.key ++ "-error".toList := by
  rw [List.mem_append, not_or]
  exact ⟨notMem_key (by decide) d, by decide⟩

/-- Whatever comes of a diagram, new files lie in scratch folders. -/
lemma Cache.renderDiagram_grows (d : Diagram) :
    Respects (Grows here (InScratch (c.work.location here))) (c.renderDiagram tools s d) := by
  have hR := Grows.chains here (InScratch (c.work.location here))
  refine (Cache.render_grows (notMem_key (by decide) d)).bind hR fun result => ?_
  cases result with
  | ok content => exact Respects.pure hR _
  | error e =>
      refine (Cache.render_grows (errorName_slash_free d)).bind hR fun result => ?_
      cases result with
      | ok content => exact Respects.pure hR _
      | error e => exact Respects.pure hR _

end Growth

/-! ### Steady compilers -/

/-- What comes of a run: how it ends, and the document that it leaves. -/
def CompilerRun.outcome (run : CompilerRun) : Ending × Option Octets := (run.ending, run.document?)

lemma CompilerRun.compiled_eq (s : Settings) (place : Path) (run : CompilerRun) :
    run.compiled s place =
      match run.outcome with
      | (.timedOut, _) => .error (.timedOut s.timeout)
      | (.notStarted reason, _) => .error (.notStarted reason)
      | (.exited code output errors, document?) =>
          if code ≠ 0 then .error (.failed code (reportOf output errors))
          else
            match document? with
            | some document => .ok document
            | none => .error (.noOutput place) := by
  rw [CompilerRun.compiled, CompilerRun.outcome]
  cases run.ending <;> rfl

/-- A compiler whose outcome depends on the document only, and that never ends well without a
compiled document. -/
structure Toolchain.Steady (tools : Toolchain) : Prop where
  by_document : ∀ {calls calls' : List CompilerCall} {call call' : CompilerCall},
    call.document = call'.document →
      (tools.compile calls call).outcome = (tools.compile calls' call').outcome
  finishes : ∀ {calls : List CompilerCall} {call : CompilerCall} {output errors : Text},
    (tools.compile calls call).ending = .exited 0 output errors →
      (tools.compile calls call).document? ≠ none

namespace Toolchain

/-- What a steady compiler makes of a document. -/
def compiled (tools : Toolchain) (s : Settings) (document : Text) : Except RenderError Octets :=
  (tools.compile [] ⟨[], ⟨.current, []⟩, s.timeout, document⟩).compiled s ⟨.current, []⟩

/-- The picture of a document. -/
def pictureFrom (tools : Toolchain) (s : Settings) (document extension : Text) :
    Except RenderError Octets :=
  match tools.compiled s document with
  | .ok compiled => tools.picture compiled extension
  | .error e => .error e

/-- The picture of a diagram, or of the message why there is none. -/
def pictureOf (tools : Toolchain) (s : Settings) (d : Diagram) :
    Except RenderError (Octets × PictureState) :=
  match tools.pictureFrom s d.document d.extension with
  | .ok content => .ok (content, .compiled)
  | .error e =>
      match tools.pictureFrom s (errorDocument e.message) d.extension with
      | .ok content => .ok (content, .fallback)
      | .error e => .error e

/-- Diagrams with the same document and extension have the same picture. -/
lemma pictureOf_congr (tools : Toolchain) (s : Settings) {d d' : Diagram}
    (hdocument : d.document = d'.document) (hextension : d.extension = d'.extension) :
    tools.pictureOf s d = tools.pictureOf s d' := by
  rw [pictureOf, pictureOf, hdocument, hextension]

/-- Neither the calls before nor the place matter to a steady compiler. -/
lemma Steady.compiled_eq {tools : Toolchain} (h : tools.Steady) (s : Settings)
    (calls : List CompilerCall) (call : CompilerCall) (place : Path) :
    (tools.compile calls call).compiled s place = tools.compiled s call.document := by
  have hfinishes := @h.finishes calls call
  have houtcome := @h.by_document [] calls
    ⟨[], ⟨.current, []⟩, s.timeout, call.document⟩ call rfl
  rw [Toolchain.compiled, CompilerRun.compiled_eq, CompilerRun.compiled_eq, houtcome,
    CompilerRun.outcome]
  cases hending : (tools.compile calls call).ending with
  | timedOut => rfl
  | notStarted reason => rfl
  | exited code output errors =>
      dsimp only
      split_ifs with hcode
      · rfl
      · rw [not_not] at hcode
        subst hcode
        obtain ⟨document, hdocument⟩ := Option.ne_none_iff_exists'.mp (hfinishes hending)
        rw [hdocument]

/-- A compiler that gives up on exclamation marks and question marks, and leaves one octet
otherwise. Its report on a question mark holds one again, so that not even the report has a
picture. -/
def sample : Toolchain where
  compile _ call :=
    if call.document.contains '?' then ⟨.exited 1 [] ['?'], []⟩
    else if call.document.contains '!' then ⟨.exited 1 [] [], []⟩
    else ⟨.exited 0 [] [], [(compiledName, [120])]⟩
  draw compiled _ := .ok compiled

lemma steady_sample : sample.Steady := by
  refine ⟨fun h => ?_, fun {calls call output errors} h => ?_⟩
  · rw [sample]
    dsimp only
    rw [h]
  · rw [sample] at h ⊢
    dsimp only at h ⊢
    split_ifs at h ⊢ with hquestion hexclamation
    · cases h
    · cases h
    · simp [CompilerRun.document?]

end Toolchain

section Steady

variable {tools : Toolchain} {s : Settings} {c : Cache} {w : Workspace}

lemma compileDocument_of_steady (htools : tools.Steady) {work : Path} {name : Text}
    (hname : '/' ∉ name) (hwork : w.files.isFolder work = true) (document : Text) :
    ∃ w', compileDocument tools s work document name w = .ok (tools.compiled s document) w' ∧
      Scratched (work.location w.files.current) w.files w'.files := by
  obtain ⟨n, files, hcompile, hunused, hsame, -, hfolder⟩ :=
    @compileDocument_eq tools s document w work name hname hwork
  rw [htools.compiled_eq] at hcompile
  exact ⟨_, hcompile, hsame.scratched hunused hfolder⟩

lemma Cache.render_eq (htools : tools.Steady) {name : Text} (hname : '/' ∉ name)
    (hwork : w.files.isFolder c.work = true) (document extension : Text) :
    ∃ w', c.render tools s document name extension w =
        .ok (tools.pictureFrom s document extension) w' ∧
      Scratched (c.work.location w.files.current) w.files w'.files := by
  obtain ⟨w', hcompile, hscratched⟩ :=
    @compileDocument_of_steady tools s w htools c.work name hname hwork document
  refine ⟨w', ?_, hscratched⟩
  rw [Cache.render, bind_of_eq_ok hcompile, Toolchain.pictureFrom]
  cases tools.compiled s document <;> rfl

/-- With a steady compiler, rendering gives the picture that the compiler determines, and adds
scratch folders only. -/
lemma Cache.renderDiagram_eq (htools : tools.Steady) (d : Diagram)
    (hwork : w.files.isFolder c.work = true) :
    ∃ w', c.renderDiagram tools s d w = .ok (tools.pictureOf s d) w' ∧
      Scratched (c.work.location w.files.current) w.files w'.files := by
  obtain ⟨w', hrender, hscratched⟩ := @Cache.render_eq tools s c w htools d.key
    (notMem_key (by decide) d) hwork d.document d.extension
  rw [Cache.renderDiagram, bind_of_eq_ok hrender, Toolchain.pictureOf]
  cases hpicture : tools.pictureFrom s d.document d.extension with
  | ok content => exact ⟨w', rfl, hscratched⟩
  | error e =>
      obtain ⟨w'', hrender', hscratched'⟩ := @Cache.render_eq tools s c w' htools
        (d.key ++ "-error".toList) (errorName_slash_free d) (hscratched.isFolder hwork)
        (errorDocument e.message) d.extension
      rw [hscratched.current] at hscratched'
      refine ⟨w'', ?_, hscratched.trans hscratched'⟩
      dsimp only
      rw [bind_of_eq_ok hrender']
      cases tools.pictureFrom s (errorDocument e.message) d.extension <;> rfl

end Steady

/-! ### Folders for work -/

section Folders

variable {tools : Toolchain} {s : Settings} {c : Cache} {w : Workspace} {files : FileTree}

/-- Rendering begins with the folder for work. -/
lemma Cache.renderDiagram_of_makeFolders (h : w.files.makeFolders c.work = .ok () files)
    (d : Diagram) :
    c.renderDiagram tools s d w = c.renderDiagram tools s d { w with files } := by
  rw [Cache.renderDiagram, bind_apply, bind_apply, Cache.render, bind_apply, bind_apply,
    compileDocument_of_makeFolders h]

lemma Cache.renderDiagram_of_error {e : FileError}
    (h : w.files.makeFolders c.work = .error e files) (d : Diagram) :
    c.renderDiagram tools s d w = .error e { w with files } :=
  bind_of_eq_error (bind_of_eq_error (compileDocument_of_error h))

end Folders

end Galley
