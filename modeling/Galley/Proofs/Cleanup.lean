import Galley.Proofs.Scratch
import Mathlib.Tactic

/-!
What is left when a document was compiled. Whatever runs in the scratch folder, and however it ends,
there is a result, and nothing is left of the scratch folder.

* `Path.prefix_of_passes`: a path without steps up passes only what is above its end;
* `FileTree.WayMade`: all that was done to a tree is that the folders on the way of a path are there;
* `compileWith_cleans`: compiling gives the compiled document or an error, and only makes the folders
  on the way to the folder for work.
-/

namespace Galley

open BuildStep

/-! ### Paths without steps up -/

namespace Path

lemma foldl_step_of_plain {names : List Text} (h : parentName ∉ names) (here : Location) :
    names.foldl step here = here ++ names := by
  induction names generalizing here with
  | nil => rw [List.foldl_nil, List.append_nil]
  | cons name names ih =>
      rw [List.mem_cons, not_or] at h
      rw [List.foldl_cons, ih h.2, step, if_neg (Ne.symm h.1), List.append_assoc,
        List.singleton_append]

/-- A path without steps up passes only what is above its end. -/
lemma prefix_of_passes {p : Path} {here l : Location} (h : parentName ∉ p.names)
    (hl : p.Passes here l) : l <+: p.location here := by
  obtain ⟨names, hbegin, rfl⟩ := hl
  have hnames : parentName ∉ names := fun hmem => h (hbegin.subset hmem)
  rw [location, location, foldl_step_of_plain h, foldl_step_of_plain hnames]
  exact (List.prefix_append_right_inj _).mpr hbegin

end Path

/-! ### Folders on a way -/

namespace FileTree

variable {t t' t'' : FileTree} {p : Path}

/-- All that was done to a tree is that the folders on the way of a path are there. If the path has
no steps up, nothing below its end is new. -/
structure WayMade (p : Path) (t t' : FileTree) : Prop extends FoldersOnWay p t t' where
  folder : ∀ {names}, names <+: p.names → t'.isFolder ⟨p.start, names⟩ = true
  below : Path.parentName ∉ p.names → ∀ {l}, p.location t.current <+: l →
    l ≠ p.location t.current → t'.get? l = t.get? l

lemma WayMade.of_isFolder (h : FoldersOnWay p t t') (hfolder : t'.isFolder p = true) :
    WayMade p t t' := by
  refine ⟨h, fun hbegin => isFolder_of_prefix hfolder hbegin, fun hplain {l} hl hne => ?_⟩
  cases hnode : t.get? l with
  | some node => exact h.get? hnode
  | none =>
      by_contra hnew
      have habove := Path.prefix_of_passes hplain (h.way hnode hnew)
      exact hne (habove.eq_of_length_le hl.length_le)

/-- A tree in which the same is everywhere. -/
lemma FoldersOnWay.of_same (hcurrent : t'.current = t.current)
    (hget : ∀ l, t'.get? l = t.get? l) : FoldersOnWay p t t' := by
  refine ⟨⟨⟨hcurrent, fun hl => (hget _).trans hl⟩, fun hl hl' => ?_⟩, fun hl hl' => ?_⟩
  · rw [hget, hl] at hl'
    cases hl'
  · exact absurd ((hget _).trans hl) hl'

/-- Nothing is left of a change where nothing was. -/
lemma SameOutside.get?_eraseBelow {l : Location} (h : SameOutside l t t') (hunused : t.Unused l)
    (k : Location) : (t'.eraseBelow l).get? k = t.get? k := by
  by_cases hk : l <+: k
  · rw [unused_eraseBelow _ hunused.ne_nil k hk, hunused k hk]
  · rw [get?_eraseBelow_of_not hk, h.get? hk]

end FileTree

open FileTree

/-! ### Compiling -/

/-- A compiler that leaves a log beside the document, and the compiled document in its place. -/
def loggingRun (scratch : Path) : BuildStep Ending := fun w =>
  let l := scratch.location w.files.current
  .ok (.exited 0 [] []) { w with
    files := (w.files.put (l ++ ["log".toList]) (.file [] false)).put
      (l ++ [outputName, compiledName]) (.file [37] false) }

lemma confined_loggingRun : Confined loggingRun :=
  ⟨fun _ => ⟨_, _, rfl, (sameAround_put (List.cons_ne_nil _ _) _ _).trans
    (sameAround_put (List.cons_ne_nil _ _) _ _)⟩⟩

/-- Whatever runs in the scratch folder, and however it ends, compiling gives a result: the document
in the expected place if the run went well and there is one, and an error in all other cases. Unless
the settings keep scratch folders, all that is left is the folder for work and what is above it. -/
theorem compileWith_cleans {run : Path → BuildStep Ending} (hrun : Confined run) {s : Settings}
    {work : Path} {document name : Text} (hname : '/' ∉ name) {w : Workspace} {made : FileTree}
    (hmade : w.files.makeFolders work = .ok () made) :
    ∃ n ending ran result final,
      made.Unused (work.location made.current ++ [scratchName name n]) ∧
      run (work / scratchName name n) { w with
        files := (made.put (work.location made.current ++ [scratchName name n]) .folder).supply
          (work / scratchName name n) document
        stems := stemOf name :: w.stems } = .ok ending ran ∧
      compileWith run s work document name w = .ok result final ∧
      (∀ content, result = .ok content ↔ ending.IsSuccess ∧
        ran.files.read (work / scratchName name n / outputName / compiledName) = .ok content) ∧
      (s.keepWorkFiles = false → WayMade work w.files final.files) := by
  have hwork := makeFolders_isFolder hmade
  obtain ⟨n, ending, ran, result, hunused, -, hran, hresult, hsame, -, hcompile⟩ :=
    @compileWith_eq s document { w with files := made } run hrun work name hname hwork
  obtain ⟨result', hreturns, hcontent⟩ := outputOf_returns s
    (expectedPlace (work / scratchName name n)) ending ran.files
  obtain rfl : result = result' := Except.ok.inj (hresult.symm.trans hreturns)
  refine ⟨n, ending, ran, result, _, hunused, hran,
    (compileWith_of_makeFolders run hmade).trans hcompile, hcontent, fun hkeep => ?_⟩
  have hleft : FoldersOnWay work made
      (ran.files.eraseBelow (work.location made.current ++ [scratchName name n])) :=
    .of_same hsame.current (hsame.get?_eraseBelow hunused)
  rw [hkeep]
  exact .of_isFolder ((onWay_of_makeFolders hmade).trans hleft) (hleft.isFolder hwork)

/-- In an empty tree, the folder for work is all that is left. -/
theorem compileWith_cleans_empty :
    let work : Path := ⟨.current, ["tikz-work".toList]⟩
    let w : Workspace := ⟨⟨[], []⟩, [], []⟩
    let made : FileTree := ⟨[], [(["tikz-work".toList], .folder)]⟩
    Confined loggingRun ∧ '/' ∉ "0a".toList ∧ w.files.makeFolders work = .ok () made ∧
      ∃ final, compileWith loggingRun { command := [] } work ['x'] "0a".toList w =
          .ok (.ok [37]) final ∧ WayMade work w.files final.files := by
  intro work w made
  have hname : '/' ∉ "0a".toList := by decide
  have hmade : w.files.makeFolders work = .ok () made := rfl
  obtain ⟨n, ending, ran, result, final, -, -, hcompile, -, hleft⟩ :=
    @compileWith_cleans _ confined_loggingRun { command := [] } work ['x'] _ hname w _ hmade
  have hresult : (compileWith loggingRun { command := [] } work ['x'] "0a".toList).outcome w =
      .ok (.ok [37]) := by decide +kernel
  rw [outcome, hcompile] at hresult
  obtain rfl := Except.ok.inj hresult
  exact ⟨confined_loggingRun, hname, hmade, final, hcompile, hleft rfl⟩

end Galley
