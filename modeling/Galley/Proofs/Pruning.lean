import Galley.Proofs.Ordering
import Galley.Proofs.Placing
import Mathlib.Data.Char
import Mathlib.Data.List.Lex
import Mathlib.Tactic

/-!
The files in the folder of pictures: which ones are listed there, and which ones are left behind
when the others are removed.

* `pictureFile`, `isFile_pictureFile`: the files in the folder of pictures;
* `FileTree.mem_filesIn`, `FileTree.filesIn_pairwise`: they are listed, in the order of their names;
* `removeAll_eq`: files there can be removed, and the other ones stay;
* `pruneFolder_eq_ok`: what is removed are the files that are not kept, and the kept ones stay;
* `syncPictures_calls`: no compiler is called for any of this.
-/

namespace Galley

open BuildStep FileTree

variable {build : Path} {name : Text}

/-- A file in the folder of pictures. -/
def pictureFile (build : Path) (name : Text) : Path :=
  (build / Diagram.outputFolder).join ⟨.current, [name]⟩

lemma pictureFile_injective (build : Path) : Function.Injective (pictureFile build) := by
  intro name name' h
  have hnames := congrArg Path.names h
  exact child_inj hnames

lemma div_assetPath_eq {d : Diagram} (h : '/' ∉ d.id) (build : Path) :
    build / d.assetPath = pictureFile build d.assetName := by
  rw [div_assetPath h, Path.div_name (isName_assetName h)]
  rfl

lemma location_pictureFile (h : name ≠ Path.parentName) (build : Path) (here : Location) :
    (pictureFile build name).location here = picturesPlace build here ++ [name] :=
  location_join h _ here

/-! ### Listing -/

namespace FileTree

variable {t t' : FileTree} {l : Location}

lemma childName?_eq_some {folder l : Location} :
    childName? folder l = some name ↔ l = folder ++ [name] := by
  rw [childName?]
  constructor
  · intro h
    split at h
    · rename_i child hdrop
      split_ifs at h with hprefix
      cases h
      rw [← hdrop]
      exact (List.prefix_iff_eq_append.mp (List.isPrefixOf_iff_prefix.mp hprefix)).symm
    · cases h
  · rintro rfl
    have hprefix : folder.isPrefixOf (folder ++ [name]) = true :=
      List.isPrefixOf_iff_prefix.mpr (List.prefix_append _ _)
    rw [List.drop_left]
    exact if_pos hprefix

lemma mem_childNames : name ∈ t.childNames l ↔ l ++ [name] ∈ t.nodes.map Prod.fst := by
  rw [childNames, mem_orderDistinct, List.mem_filterMap, List.mem_map]
  constructor
  · rintro ⟨entry, hentry, hname⟩
    exact ⟨entry, hentry, childName?_eq_some.mp hname⟩
  · rintro ⟨entry, hentry, hname⟩
    exact ⟨entry, hentry, childName?_eq_some.mpr hname⟩

lemma childNames_pairwise (t : FileTree) (l : Location) : (t.childNames l).Pairwise (· < ·) := by
  have hconnex : ∀ a b : Text, a ≠ b → decide (a < b) = true ∨ decide (b < a) = true := by
    intro a b hne
    rw [decide_eq_true_eq, decide_eq_true_eq]
    exact lt_or_gt_of_ne hne
  have htrans : ∀ a b c : Text, decide (a < b) = true → decide (b < c) = true →
      decide (a < c) = true := by
    intro a b c hab hbc
    rw [decide_eq_true_eq] at hab hbc ⊢
    exact lt_trans hab hbc
  exact (orderDistinct_pairwise hconnex htrans _).imp fun {a b} h => of_decide_eq_true h

/-- A file in the folder of pictures is one that the folder holds. -/
lemma isFile_pictureFile : t.isFile (pictureFile build name) = true ↔
    name ≠ Path.parentName ∧ t.isFolder (build / Diagram.outputFolder) = true ∧
      t.contentAt? (picturesPlace build t.current ++ [name]) ≠ none := by
  have hfollow := follow_append t ((build / Diagram.outputFolder).origin t.current)
    (build / Diagram.outputFolder).names [name]
  change t.locate (pictureFile build name) = (t.locate (build / Diagram.outputFolder)).bind _
    at hfollow
  constructor
  · intro h
    have hname := ne_parentName_of_isFile h
    obtain ⟨hlocate, hcontent⟩ := isFile_iff.mp h
    rw [location_pictureFile hname] at hcontent
    refine ⟨hname, ?_, hcontent⟩
    rw [hlocate] at hfollow
    cases hl : t.locate (build / Diagram.outputFolder) with
    | error e =>
        rw [hl] at hfollow
        cases hfollow
    | ok k => exact isFolder_iff.mpr ⟨eq_of_locate hl ▸ hl, by
        rw [hl, Except.bind, follow] at hfollow
        split at hfollow
        · exact eq_of_locate hl ▸ (by assumption)
        · cases hfollow
        · cases hfollow⟩
  · rintro ⟨hname, hfolder, hcontent⟩
    obtain ⟨hlocate, hget⟩ := isFolder_iff.mp hfolder
    rw [isFile_iff, location_pictureFile hname]
    refine ⟨?_, hcontent⟩
    rw [hfollow, hlocate, Except.bind, follow, hget]
    exact congrArg Except.ok (if_neg hname)

lemma mem_filesIn : name ∈ t.filesIn (build / Diagram.outputFolder) ↔
    t.isFile (pictureFile build name) = true := by
  rw [filesIn]
  constructor
  · intro h
    split at h
    · exact (List.mem_filter.mp h).2
    · cases h
  · intro h
    obtain ⟨hname, hfolder, hcontent⟩ := isFile_pictureFile.mp h
    obtain ⟨content, hcontent⟩ := Option.ne_none_iff_exists'.mp hcontent
    obtain ⟨executable, hfile⟩ := contentAt?_eq_some.mp hcontent
    rw [(isFolder_iff.mp hfolder).1]
    refine List.mem_filter.mpr ⟨mem_childNames.mpr ?_, h⟩
    exact mem_of_get? (List.append_ne_nil_of_right_ne_nil _ (List.cons_ne_nil _ _)) hfile

lemma filesIn_pairwise (t : FileTree) (p : Path) : (t.filesIn p).Pairwise (· < ·) := by
  rw [filesIn]
  split
  · exact (childNames_pairwise t _).filter _
  · exact List.Pairwise.nil

end FileTree

/-! ### Removing -/

section Remove

variable {w w' : Workspace}

/-- The stray files in the folder of pictures are those with other names than the kept ones. -/
lemma strayFiles_eq {t : FileTree} {kept : List Text} (hkept : Path.parentName ∉ kept) :
    strayFiles (build / Diagram.outputFolder) (kept.map (pictureFile build)) t =
      ((t.filesIn (build / Diagram.outputFolder)).filter fun name => name ∉ kept).map
        (pictureFile build) := by
  have hplace : ∀ name ∈ kept, (pictureFile build name).location t.current =
      picturesPlace build t.current ++ [name] := fun name hname =>
    location_pictureFile (fun heq => hkept (heq ▸ hname)) build t.current
  rw [strayFiles, List.filter_map]
  refine congrArg (List.map (pictureFile build)) (List.filter_congr fun name hname => ?_)
  have hlocation := location_pictureFile (isFile_pictureFile.mp (mem_filesIn.mp hname)).1 build
    t.current
  rw [Bool.eq_iff_iff, decide_eq_true_iff, Function.comp_apply, Bool.not_eq_true',
    ← Bool.not_eq_true, List.contains_iff_mem, List.map_map, List.mem_map, not_iff_not]
  change (∃ name' ∈ kept, (pictureFile build name').location t.current =
    (pictureFile build name).location t.current) ↔ name ∈ kept
  rw [hlocation]
  constructor
  · rintro ⟨name', hname', heq⟩
    rw [hplace name' hname'] at heq
    exact child_inj heq ▸ hname'
  · exact fun hmem => ⟨name, hmem, hplace name hmem⟩

/-- Without one of the files in the folder of pictures, the other ones are still there. -/
lemma isFile_erase {t : FileTree} {name' : Text} (h : t.isFile (pictureFile build name) = true) :
    (t.erase (picturesPlace build t.current ++ [name])).isFile (pictureFile build name') = true ↔
      t.isFile (pictureFile build name') = true ∧ name' ≠ name := by
  set l := picturesPlace build t.current ++ [name] with hl
  have hcontent := (isFile_pictureFile.mp h).2.2
  -- folders are neither made nor removed
  have hforth : FoldersKept t (t.erase l) := (picturesChanged_erase hl hcontent).toFoldersKept
  have hback : FoldersKept (t.erase l) t := by
    refine ⟨rfl, fun {k} hk => ?_⟩
    rw [get?_erase] at hk
    split_ifs at hk with hnil
    · rw [hnil]
      rfl
    · exact hk
  have herased : (t.erase l).contentAt? l = none := by
    rw [contentAt?, get?_erase, if_neg, if_pos rfl]
    exact List.append_ne_nil_of_right_ne_nil _ (List.cons_ne_nil _ _)
  have hother : name' ≠ name → (t.erase l).contentAt? (picturesPlace build t.current ++ [name']) =
      t.contentAt? (picturesPlace build t.current ++ [name']) := fun hne =>
    contentAt?_erase_of_ne fun heq => hne (child_inj heq)
  rw [isFile_pictureFile, isFile_pictureFile]
  constructor
  · rintro ⟨hname, hfolder, hfile⟩
    have hne : name' ≠ name := fun heq => hfile (heq ▸ herased)
    exact ⟨⟨hname, hback.isFolder hfolder, by rwa [← hother hne]⟩, hne⟩
  · rintro ⟨⟨hname, hfolder, hfile⟩, hne⟩
    exact ⟨hname, hforth.isFolder hfolder, (hother hne).trans_ne hfile⟩

/-- Files in the folder of pictures can be removed, and the other ones stay. -/
lemma removeAll_eq {names : List Text} (hnodup : names.Nodup)
    (hfiles : ∀ name ∈ names, w.files.isFile (pictureFile build name) = true) :
    ∃ w', removeAll (names.map (pictureFile build)) w =
        .ok (names.map (pictureFile build)) w' ∧
      ∀ name, w'.files.isFile (pictureFile build name) = true ↔
        w.files.isFile (pictureFile build name) = true ∧ name ∉ names := by
  induction names generalizing w with
  | nil => exact ⟨w, rfl, fun name => (and_iff_left List.not_mem_nil).symm⟩
  | cons name names ih =>
      obtain ⟨hnew, hnodup⟩ := List.nodup_cons.mp hnodup
      obtain ⟨hfile, hfiles⟩ := List.forall_mem_cons.mp hfiles
      obtain ⟨hlocate, hcontent⟩ := isFile_iff.mp hfile
      have hremove := remove_of_locate hlocate hcontent
      rw [location_pictureFile (isFile_pictureFile.mp hfile).1] at hremove
      set w₁ : Workspace := { w with
        files := w.files.erase (picturesPlace build w.files.current ++ [name]) }
      have hstay : ∀ name', w₁.files.isFile (pictureFile build name') = true ↔
          w.files.isFile (pictureFile build name') = true ∧ name' ≠ name := fun _ =>
        isFile_erase hfile
      obtain ⟨w', hrest, hothers⟩ := ih (w := w₁) hnodup fun name' hname' =>
        (hstay name').mpr ⟨hfiles name' hname', fun heq => hnew (heq ▸ hname')⟩
      refine ⟨w', ?_, fun name' => ?_⟩
      · rw [List.map_cons, removeAll, bind_of_eq_ok (attempt_of_eq_ok (change_of_eq_ok hremove))]
        exact bind_of_eq_ok hrest
      · rw [hothers, hstay, List.mem_cons, not_or, and_assoc]

/-- What is removed from the folder of pictures are the files in it that are not kept, in the order
of their names; the kept ones stay. -/
lemma pruneFolder_eq_ok {kept : List Text} {removed : List Path} (hkept : Path.parentName ∉ kept)
    (h : pruneFolder (build / Diagram.outputFolder) (kept.map (pictureFile build)) w =
      .ok removed w') :
    (∃ names : List Text, removed = names.map (pictureFile build) ∧ names.Pairwise (· < ·) ∧
      ∀ name, name ∈ names ↔
        w.files.isFile (pictureFile build name) = true ∧ name ∉ kept) ∧
      ∀ name, w'.files.isFile (pictureFile build name) = true ↔
        w.files.isFile (pictureFile build name) = true ∧ name ∈ kept := by
  set names := (w.files.filesIn (build / Diagram.outputFolder)).filter fun name => name ∉ kept
    with hnames
  have hmem : ∀ name, name ∈ names ↔
      w.files.isFile (pictureFile build name) = true ∧ name ∉ kept := fun name => by
    rw [hnames, List.mem_filter, mem_filesIn, decide_eq_true_iff]
  have hordered : names.Pairwise (· < ·) := (filesIn_pairwise _ _).filter _
  obtain ⟨w₁, hremove, hstay⟩ := removeAll_eq (hordered.imp fun hlt => hlt.ne)
    fun name hname => ((hmem name).mp hname).1
  rw [pruneFolder, bind_of_eq_ok (see_apply _ w), strayFiles_eq hkept, ← hnames, hremove] at h
  cases h
  refine ⟨⟨names, rfl, hordered, hmem⟩, fun name => ?_⟩
  rw [hstay, hmem]
  refine and_congr_right fun hfile => ?_
  rw [not_and, not_not]
  exact ⟨fun hkeep => hkeep hfile, fun hkeep _ => hkeep⟩

end Remove

/-! ### Compilers -/

/-- States with the same calls of compilers. -/
def BuildStep.CallsKept (w w' : Workspace) : Prop := w'.calls = w.calls

lemma BuildStep.CallsKept.chains : Chains CallsKept := ⟨fun _ => rfl, fun h h' => h'.trans h⟩

lemma change_calls (operation : FileTree → Except FileError FileTree) :
    Respects CallsKept (change operation) :=
  Respects.change CallsKept.chains fun _ _ _ => rfl

lemma makeFolders_calls (p : Path) : Respects CallsKept (BuildStep.makeFolders p) := by
  intro w
  rw [CallsKept, after, BuildStep.makeFolders]
  cases w.files.makeFolders p <;> rfl

lemma clear_calls (p : Path) : Respects CallsKept (clear p) := by
  refine (Respects.see CallsKept.chains _).bind CallsKept.chains fun present => ?_
  cases present with
  | true => exact change_calls (·.remove p)
  | false => exact Respects.pure CallsKept.chains _

lemma placePictures_calls (placed : List (Text × Path)) (sources : List (Diagram × Path)) :
    Respects CallsKept (placePictures build placed sources) := by
  have hR := CallsKept.chains
  induction sources generalizing placed with
  | nil => exact Respects.pure hR _
  | cons source sources ih =>
      refine Respects.bind hR ?_ fun target => ih _
      refine (makeFolders_calls _).bind hR fun _ => ?_
      refine Respects.bind hR ?_ fun _ => ?_
      · exact clear_calls _
      · refine (Respects.consult hR _).bind hR fun content => ?_
        exact (change_calls _).bind hR fun _ => Respects.pure hR _

/-- No compiler is called for placing and pruning pictures. -/
lemma syncPictures_calls (sources : List (Diagram × Path)) :
    Respects CallsKept (syncPictures build sources) := by
  have hR := CallsKept.chains
  refine (placePictures_calls [] sources).bind hR fun placed => ?_
  refine Respects.bind hR ?_ fun removed => Respects.pure hR _
  exact (Respects.see hR _).bind hR fun stray => removeAll_respects hR fun p _ => change_calls _

end Galley
