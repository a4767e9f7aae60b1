import Galley.Proofs.Rendering
import Mathlib.Tactic

/-!
Resolving a diagram: what it gives, and what it does to the entries of the cache.

* `FileTree.Stored`: a tree is another one with a file at a place, if nothing was there;
* `Cache.store_eq`: storing an entry adds the entry and nothing else;
* `Cache.resolve_of_isFile`: an entry that is there is found, and nothing happens;
* `Cache.resolve_grows`: whatever comes of a diagram, files are only added: its entry, and files in
  scratch folders;
* `Cache.resolve_eq_ok`, `Cache.resolve_eq_error`: what stands behind a result, with any compiler;
* `Cache.resolve_of_steady`: what comes of a diagram without an entry, with a steady compiler.
-/

namespace Galley

open BuildStep

namespace FileTree

variable {t t' : FileTree} {e k : Location} {content : Octets}

/-- A tree is another one with a file at a place, if nothing was there. -/
structure Stored (e : Location) (content : Octets) (t t' : FileTree) : Prop where
  current : t'.current = t.current
  get? : ∀ k, t'.get? k =
    if k = e ∧ t.get? e = none then some (.file content false) else t.get? k

namespace Stored

lemma refl (h : t.get? e ≠ none) (content : Octets) : Stored e content t t :=
  ⟨rfl, fun k => by simp [h]⟩

lemma kept (h : Stored e content t t') : Kept t t' := by
  refine ⟨h.current, fun {k node} hk => ?_⟩
  rw [h.get?, if_neg]
  · exact hk
  · rintro ⟨rfl, hnone⟩
    rw [hnone] at hk
    cases hk

lemma get?_of_ne (h : Stored e content t t') (hk : k ≠ e) : t'.get? k = t.get? k := by
  rw [h.get?, if_neg fun hand => hk hand.1]

lemma get?_of_none (h : Stored e content t t') (hnone : t.get? e = none) :
    t'.get? e = some (.file content false) := by
  rw [h.get?, if_pos ⟨rfl, hnone⟩]

/-- A new file in a tree that is as before. -/
lemma of_put (hget : ∀ k, t'.get? k = t.get? k) (hcurrent : t'.current = t.current)
    (hnone : t.get? e = none) (content : Octets) :
    Stored e content t (t'.put e (.file content false)) := by
  refine ⟨hcurrent, fun k => ?_⟩
  by_cases hk : k = e
  · rw [hk, get?_put_self (ne_nil_of_get? hnone), if_pos ⟨rfl, hnone⟩]
  · rw [get?_put_of_ne hk, hget, if_neg fun hand => hk hand.1]

lemma grown (h : Stored e content t t') : Grown (· = e) t t' := by
  refine ⟨h.kept, fun {k} hk hk' => ?_⟩
  by_contra hne
  rw [contentAt?_congr (h.get?_of_ne hne)] at hk'
  exact hk' hk

end Stored

end FileTree

open FileTree

namespace Cache

variable {tools : Toolchain} {s : Settings} {c : Cache} {d : Diagram} {w w' : Workspace}

/-- The place of an entry. -/
lemma location_entryPath (c : Cache) (d : Diagram) (here : Location) :
    (c.entryPath d).location here = c.folder.location here ++ [d.entryName] :=
  Path.location_div (isName_entryName d) _ _

/-! ### Storing -/

lemma store_of_isPresent (h : w.files.isPresent (c.entryPath d) = true) (content : Octets) :
    c.store d content w = .ok () w := by
  rw [store, bind_of_eq_ok (see_apply id w)]
  exact (congrFun (if_pos h) w).trans rfl

/-- Afterwards there is no such file. -/
lemma isFile_after_ensureAbsent (p : Path) (w : Workspace) :
    ((ensureAbsent p).after w).files.isFile p = false := by
  have hafter : (ensureAbsent p).after w = (change (·.remove p)).after w := by
    rw [ensureAbsent, after_bind_of_eq_ok (attempt_apply _ w)]
    rcases (change (·.remove p)).outcome w with (_ | _ | _ | _) | _ <;> rfl
  rw [hafter, after, change_apply]
  cases hremove : w.files.remove p with
  | ok files =>
      obtain ⟨l, hl, hcontent, rfl⟩ := remove_eq_ok hremove
      rw [Bool.eq_false_iff]
      intro hfile
      refine (isFile_iff.mp hfile).2 ?_
      change (w.files.erase l).contentAt? (p.location w.files.current) = none
      rw [← eq_of_locate hl, contentAt?, get?_erase, if_neg, if_pos rfl]
      rintro rfl
      exact hcontent rfl
  | error e =>
      rw [Bool.eq_false_iff]
      intro hfile
      obtain ⟨hl, hcontent⟩ := isFile_iff.mp hfile
      rw [remove_of_locate hl hcontent] at hremove
      cases hremove

/-- Whatever fails while an entry is finished, the file that is not finished is gone. -/
lemma isFile_of_undone {α : Type} {m : BuildStep α} {e : FileError} (h : m w = .error e w')
    (p : Path) : ((m.orElseUndo (ensureAbsent p)).after w).files.isFile p = false := by
  rw [after_orElseUndo_of_eq_error h]
  exact isFile_after_ensureAbsent p w'

/-- The file that is not finished is filled, and then takes the name of the entry. -/
lemma move_unfinished {t : FileTree} (hfolder : t.isFolder c.folder = true) {n : Nat}
    (hunused : t.Unused ((c.folder / unfinishedName d.key n).location t.current))
    (hnone : t.get? ((c.entryPath d).location t.current) = none) (content : Octets) :
    ∃ t₁ t₂ t', t.write (c.folder / unfinishedName d.key n) [] = .ok t₁ ∧
      t₁.write (c.folder / unfinishedName d.key n) content = .ok t₂ ∧
      t₂.move (c.folder / unfinishedName d.key n) (c.entryPath d) = .ok t' ∧
      Stored ((c.entryPath d).location t.current) content t t' := by
  have hname := isName_unfinishedName d n
  have hnew := hunused _ List.prefix_rfl
  refine ⟨_, _, _, write_div hname hfolder hnew [], rewrite_div hname hfolder hnew [] content,
    move_div hname (isName_entryName d) hfolder hnew hnone content, ?_⟩
  exact Stored.of_put (get?_erase_put hnew) rfl hnone content

/-- Storing an entry adds the entry and nothing else. -/
lemma store_eq (hfolder : w.files.isFolder c.folder = true) (content : Octets) :
    ∃ files, c.store d content w = .ok () { w with files } ∧
      Stored ((c.entryPath d).location w.files.current) content w.files files := by
  have hpresent := isPresent_div (isName_entryName d) hfolder
  cases hnode : w.files.get? ((c.entryPath d).location w.files.current) with
  | some node =>
      rw [← entryPath, hnode] at hpresent
      exact ⟨w.files, store_of_isPresent hpresent content,
        Stored.refl (by rw [hnode]; exact Option.some_ne_none _) content⟩
  | none =>
      rw [← entryPath, hnode] at hpresent
      have hunused := unused_unusedNumber (isName_unfinishedName d) (unfinishedName_injective d.key)
        hfolder 0
      obtain ⟨t₁, t₂, t', hmake, hwrite, hmove, hstored⟩ :=
        move_unfinished hfolder hunused hnode content
      refine ⟨t', ?_, hstored⟩
      rw [store, bind_of_eq_ok (see_apply id w)]
      dsimp only [id]
      rw [if_neg (by rw [hpresent]; exact Bool.false_ne_true)]
      rw [bind_of_eq_ok (writeFile_of_eq_ok hmake)]
      refine orElseUndo_of_eq_ok ?_ _
      rw [bind_of_eq_ok (writeFile_of_eq_ok hwrite)]
      exact change_of_eq_ok hmove

/-- Without its folder an entry cannot be stored. -/
lemma store_of_not_isFolder (hfolder : w.files.isFolder c.folder = false) (content : Octets) :
    (c.store d content).after w = w := by
  have hpresent : w.files.isPresent (c.entryPath d) = false := by
    rw [FileTree.isPresent, entryPath, find?_div (isName_entryName d), hfolder]
    rfl
  have hmake : ∀ n, ∃ e, w.files.write (c.folder / unfinishedName d.key n) [] = .error e := by
    intro n
    cases h : w.files.write (c.folder / unfinishedName d.key n) [] with
    | error e => exact ⟨e, rfl⟩
    | ok files =>
        obtain ⟨l, hl, -⟩ := write_eq_ok h
        rw [isFolder_of_locate_div (isName_unfinishedName d n) hl] at hfolder
        cases hfolder
  obtain ⟨e, he⟩ := hmake (unusedNumber w.files (fun n => c.folder / unfinishedName d.key n) 0)
  refine after_of_eq_error (e := e) ?_
  rw [store, bind_of_eq_ok (see_apply id w)]
  dsimp only [id]
  rw [if_neg (by rw [hpresent]; exact Bool.false_ne_true)]
  refine bind_of_eq_error ?_
  rw [writeFile, change_apply, he]

/-! ### Resolving -/

/-- An entry that is there is found, and nothing happens. -/
lemma resolve_of_isFile (h : w.files.isFile (c.entryPath d) = true) :
    c.resolve tools s d w = .ok (.ok (c.entryPath d, .cached)) w := by
  rw [resolve, bind_of_eq_ok (see_apply _ w)]
  exact congrFun (if_pos h) w

/-- What is done with the picture of a diagram. -/
def settlePicture (c : Cache) (d : Diagram) :
    Except RenderError (Octets × PictureState) →
      BuildStep (Except RenderError (Path × PictureState))
  | .ok (content, state) => do
      store c d content
      return .ok (c.entryPath d, state)
  | .error e => return .error e

lemma resolve_of_not_isFile (h : w.files.isFile (c.entryPath d) = false) :
    c.resolve tools s d w =
      (makeFolders c.folder >>= fun _ => c.renderDiagram tools s d >>= c.settlePicture d) w := by
  rw [resolve, bind_of_eq_ok (see_apply _ w), h]
  rfl

section Growth

variable {here : Location}

/-- The places of the files that a diagram may bring. -/
def Brings (c : Cache) (d : Diagram) (here l : Location) : Prop :=
  l = (c.entryPath d).location here ∨ InScratch (c.work.location here) l

lemma store_grows (content : Octets) :
    Respects (Grows here (c.Brings d here)) (c.store d content) := by
  intro w hhere
  cases hfolder : w.files.isFolder c.folder with
  | false =>
      rw [store_of_not_isFolder hfolder]
      exact Grown.refl _ _
  | true =>
      obtain ⟨files, hstore, hstored⟩ := store_eq hfolder content
      rw [after_of_eq_ok hstore]
      rw [hhere] at hstored
      exact hstored.grown.mono Or.inl

/-- Whatever comes of a diagram, files are only added: its entry, and files in scratch folders. -/
lemma resolve_grows (d : Diagram) :
    Respects (Grows here (c.Brings d here)) (c.resolve tools s d) := by
  have hR := Grows.chains here (c.Brings d here)
  refine (Respects.see hR _).bind hR fun found => ?_
  cases found with
  | true => exact Respects.pure hR _
  | false =>
      refine (makeFolders_grows c.folder).bind hR fun _ => ?_
      refine Respects.bind hR (fun w hhere => ?_) fun result => ?_
      · exact (renderDiagram_grows d w hhere).mono Or.inr
      · cases result with
        | ok picture => exact (store_grows picture.1).bind hR fun _ => Respects.pure hR _
        | error e => exact Respects.pure hR _

end Growth

/-- The steps on the way to a result. -/
lemma resolve_steps {result : Except RenderError (Path × PictureState)}
    (h : c.resolve tools s d w = .ok result w') (hmiss : w.files.isFile (c.entryPath d) = false) :
    ∃ files picture w'', w.files.makeFolders c.folder = .ok () files ∧
      c.renderDiagram tools s d { w with files } = .ok picture w'' ∧
      c.settlePicture d picture w'' = .ok result w' := by
  rw [resolve_of_not_isFile hmiss] at h
  cases hfolders : w.files.makeFolders c.folder with
  | error e files =>
      rw [bind_of_eq_error (makeFolders_of_eq_error hfolders)] at h
      cases h
  | ok _ files =>
      rw [bind_of_eq_ok (makeFolders_of_eq_ok hfolders)] at h
      obtain ⟨picture, w'', hrender, hsettle⟩ := bind_eq_ok h
      exact ⟨files, picture, w'', rfl, hrender, hsettle⟩

/-- A diagram with a picture has an entry, at least a folder in the place of one. -/
lemma resolve_eq_ok {path : Path} {state : PictureState}
    (h : c.resolve tools s d w = .ok (.ok (path, state)) w') :
    path = c.entryPath d ∧
      (w'.files.isFile path = true ∨ w'.files.isFolder path = true) := by
  cases hfile : w.files.isFile (c.entryPath d) with
  | true =>
      rw [resolve_of_isFile hfile] at h
      cases h
      exact ⟨rfl, Or.inl hfile⟩
  | false =>
      obtain ⟨files, picture, w'', hfolders, hrender, hsettle⟩ := resolve_steps h hfile
      cases picture with
      | error e => cases hsettle
      | ok picture =>
          -- the folder of the cache is still there
          have hgrown := @renderDiagram_grows files.current tools s c d { w with files } rfl
          rw [after_of_eq_ok hrender] at hgrown
          have hfolder := hgrown.isFolder (makeFolders_isFolder hfolders)
          obtain ⟨files', hstore, hstored⟩ := store_eq (d := d) hfolder picture.1
          rw [settlePicture, bind_of_eq_ok hstore] at hsettle
          cases hsettle
          refine ⟨rfl, ?_⟩
          have hfolder' := hstored.kept.isFolder hfolder
          have hfind := find?_div (isName_entryName d) files' c.folder
          rw [if_pos hfolder', ← entryPath, hstored.current] at hfind
          cases hnode : w''.files.get? ((c.entryPath d).location w''.files.current) with
          | none =>
              rw [hstored.get?_of_none hnode] at hfind
              refine Or.inl ?_
              rw [isFile, hfind]
          | some node =>
              rw [hstored.kept.get? hnode] at hfind
              cases node with
              | folder =>
                  refine Or.inr ?_
                  rw [isFolder, hfind]
                  rfl
              | file content executable =>
                  refine Or.inl ?_
                  rw [isFile, hfind]

/-- A diagram without a picture brings no entry. -/
lemma resolve_eq_error {e : RenderError} (h : c.resolve tools s d w = .ok (.error e) w') :
    Grown (InScratch (c.work.location w.files.current)) w.files w'.files := by
  cases hfile : w.files.isFile (c.entryPath d) with
  | true =>
      rw [resolve_of_isFile hfile] at h
      cases h
  | false =>
      obtain ⟨files, picture, w'', hfolders, hrender, hsettle⟩ := resolve_steps h hfile
      cases picture with
      | ok picture =>
          obtain ⟨_, _, -, hpure⟩ := bind_eq_ok hsettle
          cases hpure
      | error e' =>
          cases hsettle
          have hadded := added_of_makeFolders hfolders
          have hgrown := @renderDiagram_grows files.current tools s c d { w with files } rfl
          rw [after_of_eq_ok hrender] at hgrown
          rw [hadded.current] at hgrown
          exact hadded.grown.trans hgrown

/-! ### Steady compilers -/

/-- What comes of a diagram without an entry where the folders can be made: the picture that a
steady compiler determines, which becomes the entry unless something is in its place. -/
lemma resolve_of_steady (htools : tools.Steady) (hmiss : w.files.isFile (c.entryPath d) = false)
    {t t' : FileTree} (hfolder : w.files.makeFolders c.folder = .ok () t)
    (hwork : t.makeFolders c.work = .ok () t') :
    ∃ t'' w', Scratched (c.work.location t'.current) t' t'' ∧
      c.resolve tools s d w =
        .ok ((tools.pictureOf s d).map fun picture => (c.entryPath d, picture.2)) w' ∧
      match tools.pictureOf s d with
      | .ok picture => Stored ((c.entryPath d).location t'.current) picture.1 t'' w'.files
      | .error _ => w'.files = t'' := by
  obtain ⟨w'', hrender, hscratched⟩ := @renderDiagram_eq tools s c { w with files := t' } htools d
    (makeFolders_isFolder hwork)
  have hresolve : c.resolve tools s d w = c.settlePicture d (tools.pictureOf s d) w'' := by
    rw [resolve_of_not_isFile hmiss, bind_of_eq_ok (makeFolders_of_eq_ok hfolder), bind_apply,
      renderDiagram_of_makeFolders hwork, hrender]
  cases hpicture : tools.pictureOf s d with
  | error e =>
      rw [hpicture] at hresolve
      exact ⟨w''.files, w'', hscratched, hresolve, rfl⟩
  | ok picture =>
      have hkept := (added_of_makeFolders hwork).toKept.trans hscratched.toKept
      obtain ⟨files, hstore, hstored⟩ :=
        store_eq (d := d) (hkept.isFolder (makeFolders_isFolder hfolder)) picture.1
      rw [hscratched.current] at hstored
      refine ⟨w''.files, { w'' with files }, hscratched, ?_, hstored⟩
      rw [hresolve, hpicture, settlePicture, bind_of_eq_ok hstore]
      rfl

/-- A diagram without an entry that comes to a result has its folders made. -/
lemma makeFolders_of_resolve {result : Except RenderError (Path × PictureState)}
    (h : c.resolve tools s d w = .ok result w') (hmiss : w.files.isFile (c.entryPath d) = false) :
    ∃ t t', w.files.makeFolders c.folder = .ok () t ∧ t.makeFolders c.work = .ok () t' := by
  obtain ⟨t, picture, w'', hfolder, hrender, -⟩ := resolve_steps h hmiss
  cases hwork : t.makeFolders c.work with
  | ok _ t' => exact ⟨t, t', hfolder, hwork⟩
  | error e t' =>
      rw [renderDiagram_of_error hwork] at hrender
      cases hrender

end Cache

end Galley
