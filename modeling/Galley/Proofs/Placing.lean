import Galley.Proofs.Pictures
import Mathlib.Tactic

/-!
Placed pictures: what can be read at the places of pictures after they were placed.

* `lookup_assign`, `lookup_valuesOf`: values by name;
* `placePicture_eq_ok`, `placePictures_eq_ok`: every placed picture has the content of its source;
* `pruneFolder_content`: what is kept stays as it is;
* `syncPictures_eq_ok`: after both, the picture of a diagram is the content of its source.
-/

namespace Galley

open BuildStep FileTree

/-! ### Values by name -/

section Assign

variable {α : Type} {name name' : Text} {value : α}

lemma lookup_assign (values : List (Text × α)) :
    (assign name value values).lookup name' =
      if name' = name then some value else values.lookup name' := by
  induction values with
  | nil =>
      by_cases h : name' = name
      · simp [assign, h]
      · simp [assign, List.lookup_cons, h, beq_eq_false_iff_ne.mpr h]
  | cons entry values ih =>
      obtain ⟨n, v⟩ := entry
      by_cases hn : n = name
      · subst hn
        by_cases h : name' = n
        · simp [assign, h]
        · simp [assign, List.lookup_cons, h, beq_eq_false_iff_ne.mpr h]
      · by_cases h : name' = n
        · subst h
          simp [assign, hn]
        · simp [assign, hn, List.lookup_cons, beq_eq_false_iff_ne.mpr h, ih]

/-- Replaces or adds the value of a name, if there is one. -/
def assignIf (name : Text) (value? : Option α) (values : List (Text × α)) : List (Text × α) :=
  match value? with
  | some value => assign name value values
  | none => values

lemma lookup_assignIf (value? : Option α) (values : List (Text × α)) :
    (assignIf name value? values).lookup name' =
      if name' = name then value?.or (values.lookup name') else values.lookup name' := by
  cases value? with
  | none => simp [assignIf]
  | some value => exact lookup_assign values

/-- The values that diagrams have, by the names of the diagrams. -/
def valuesOf (value? : Diagram → Option α) (values : List (Text × α)) (ds : List Diagram) :
    List (Text × α) :=
  ds.foldl (fun values d => assignIf d.id (value? d) values) values

/-- Diagrams with other names do not disturb a value. -/
lemma lookup_valuesOf_of_notMem (value? : Diagram → Option α) {ds : List Diagram}
    (h : name ∉ ds.map Diagram.id) (values : List (Text × α)) :
    (valuesOf value? values ds).lookup name = values.lookup name := by
  induction ds generalizing values with
  | nil => rfl
  | cons d ds ih =>
      rw [List.map_cons, List.mem_cons, not_or] at h
      exact (ih h.2 _).trans ((lookup_assignIf _ _).trans (if_neg h.1))

/-- Of diagrams with different names each one has its value. -/
lemma lookup_valuesOf (value? : Diagram → Option α) {ds : List Diagram}
    (hids : (ds.map Diagram.id).Nodup) {d : Diagram} (hd : d ∈ ds) {values : List (Text × α)}
    (hnone : values.lookup d.id = none) :
    (valuesOf value? values ds).lookup d.id = value? d := by
  induction ds generalizing values with
  | nil => cases hd
  | cons d' ds ih =>
      rw [List.map_cons, List.nodup_cons] at hids
      rcases List.mem_cons.mp hd with rfl | hd
      · refine (lookup_valuesOf_of_notMem value? hids.1 _).trans ?_
        rw [lookup_assignIf, if_pos rfl, hnone, Option.or_none]
      · refine ih hids.2 hd ?_
        have hne : d.id ≠ d'.id := fun heq => hids.1 (heq ▸ List.mem_map_of_mem hd)
        rw [lookup_assignIf, if_neg hne, hnone]

end Assign

/-! ### Placing -/

section Place

variable {build : Path} {d : Diagram} {source target : Path} {w w' : Workspace}

/-- Whatever is at a path is gone, and the contents elsewhere are as before. -/
lemma clear_eq_ok {p : Path} {u : Unit} (h : clear p w = .ok u w') :
    ∀ l, l ≠ p.location w.files.current → w'.files.contentAt? l = w.files.contentAt? l := by
  intro l hl
  obtain ⟨present, w'', hsee, hrest⟩ := bind_eq_ok h
  cases hsee
  split at hrest
  · obtain ⟨files, hremove, rfl⟩ := change_eq_ok hrest
    obtain ⟨k, hk, -, rfl⟩ := remove_eq_ok hremove
    exact contentAt?_erase_of_ne (eq_of_locate hk ▸ hl)
  · cases hrest
    rfl

/-- A written file is there, and the contents elsewhere are as before. -/
lemma writeFile_eq_ok {p : Path} {content : Octets} {u : Unit}
    (h : writeFile p content w = .ok u w') (hnil : p.location w.files.current ≠ []) :
    w'.files.contentAt? (p.location w.files.current) = some content ∧
      ∀ l, l ≠ p.location w.files.current → w'.files.contentAt? l = w.files.contentAt? l := by
  obtain ⟨files, hwrite, rfl⟩ := change_eq_ok h
  obtain ⟨k, hk, -, rfl⟩ := write_eq_ok hwrite
  obtain rfl := eq_of_locate hk
  obtain ⟨executable, hfile⟩ := fileOver_eq (w.files.get? (p.location w.files.current)) content
  rw [hfile]
  exact ⟨contentAt?_put hnil, fun l hl => contentAt?_put_of_ne hl⟩

lemma placePicture_target (h : placePicture build d source w = .ok target w') :
    target = build / d.assetPath := by
  obtain ⟨_, w₁, -, h⟩ := bind_eq_ok h
  obtain ⟨_, w₂, -, h⟩ := bind_eq_ok h
  obtain ⟨_, w₃, -, h⟩ := bind_eq_ok h
  obtain ⟨_, w₄, -, hpure⟩ := bind_eq_ok h
  cases hpure
  rfl

/-- The places of pictures are listed by the names of their diagrams. -/
lemma placePictures_outputs {sources : List (Diagram × Path)} {placed outputs : List (Text × Path)}
    (h : placePictures build placed sources w = .ok outputs w') :
    outputs = valuesOf (fun d => some (build / d.assetPath)) placed (sources.map Prod.fst) := by
  induction sources generalizing placed w with
  | nil =>
      cases h
      rfl
  | cons source sources ih =>
      obtain ⟨target, w₁, hplace, hrest⟩ := bind_eq_ok h
      rw [ih hrest, placePicture_target hplace]
      rfl

/-- A placed picture has the content of its source, and the contents elsewhere are as before. -/
lemma placePicture_eq_ok (hid : '/' ∉ d.id) (h : placePicture build d source w = .ok target w')
    (hsource : ∀ name, source.location w.files.current ≠
      picturesPlace build w.files.current ++ [name]) :
    w'.files.isFolder (build / Diagram.outputFolder) = true ∧
      ∃ content, w.files.contentAt? (source.location w.files.current) = some content ∧
        w'.files.contentAt? (picturesPlace build w.files.current ++ [d.assetName]) = some content ∧
        ∀ l, l ≠ picturesPlace build w.files.current ++ [d.assetName] →
          w'.files.contentAt? l = w.files.contentAt? l := by
  have hplace := location_assetPath hid build
  rw [placePicture, parent_assetPath hid] at h
  obtain ⟨_, w₁, hmake, h⟩ := bind_eq_ok h
  obtain ⟨_, w₂, hclear, h⟩ := bind_eq_ok h
  obtain ⟨content, w₃, hconsult, h⟩ := bind_eq_ok h
  obtain ⟨_, w₄, hwrite, hpure⟩ := bind_eq_ok h
  cases hpure
  obtain ⟨files, hfolders, rfl⟩ := makeFolders_eq_ok hmake
  obtain ⟨hread, rfl⟩ := consult_eq_ok hconsult
  -- the folder stays, and so does the folder where paths start
  have hadded := added_of_makeFolders hfolders
  have hclears := clear_redraws hplace { w with files }
  have hwrites := write_redraws hplace content w₃
  rw [after_of_eq_ok hclear] at hclears
  rw [after_of_eq_ok hwrite] at hwrites
  have hfolder := hwrites.isFolder (hclears.isFolder (makeFolders_isFolder hfolders))
  have hcurrent : w₃.files.current = w.files.current := hclears.current.trans hadded.current
  -- the contents
  have hclearContent := clear_eq_ok hclear
  obtain ⟨hwritten, hwriteContent⟩ := writeFile_eq_ok hwrite (by rw [hplace]; simp)
  obtain ⟨-, hcontent⟩ := read_eq_ok.mp hread
  dsimp only at hclearContent
  rw [hplace, hadded.current] at hclearContent
  rw [hplace, hcurrent] at hwritten hwriteContent
  rw [hcurrent, hclearContent _ (hsource _), hadded.contentAt?] at hcontent
  refine ⟨hfolder, content, hcontent, hwritten, fun l hl => ?_⟩
  rw [hwriteContent l hl, hclearContent l hl, hadded.contentAt?]

/-- The contents of pictures after they were placed. -/
structure Placed (build : Path) (sources : List (Diagram × Path)) (w w' : Workspace) : Prop where
  current : w'.files.current = w.files.current
  folder : ∀ source ∈ sources, w'.files.isFolder (build / Diagram.outputFolder) = true
  content : ∀ source ∈ sources, ∃ content,
    w.files.contentAt? (source.2.location w.files.current) = some content ∧
      w'.files.contentAt? (picturesPlace build w.files.current ++ [source.1.assetName]) =
        some content
  elsewhere : ∀ l, (∀ source ∈ sources,
      l ≠ picturesPlace build w.files.current ++ [source.1.assetName]) →
    w'.files.contentAt? l = w.files.contentAt? l

/-- Placing pictures of diagrams with different names. -/
lemma placePictures_eq_ok {sources : List (Diagram × Path)} {placed outputs : List (Text × Path)}
    (hids : (sources.map fun source => source.1.id).Nodup)
    (hslash : ∀ source ∈ sources, '/' ∉ source.1.id)
    (hsources : ∀ source ∈ sources, ∀ name, source.2.location w.files.current ≠
      picturesPlace build w.files.current ++ [name])
    (h : placePictures build placed sources w = .ok outputs w') : Placed build sources w w' := by
  induction sources generalizing placed w with
  | nil =>
      cases h
      exact ⟨rfl, by simp, by simp, fun _ _ => rfl⟩
  | cons first sources ih =>
      obtain ⟨d, path⟩ := first
      obtain ⟨target, w₁, hplace, hrest⟩ := bind_eq_ok h
      obtain ⟨hid, hslash⟩ := List.forall_mem_cons.mp hslash
      obtain ⟨hpath, hsources⟩ := List.forall_mem_cons.mp hsources
      obtain ⟨hnotMem, hids⟩ := List.nodup_cons.mp hids
      have hredraws := @placePicture_redraws build d hid path w
      have hredraws' := @placePictures_redraws build sources hslash (assign d.id target placed) w₁
      rw [after_of_eq_ok hplace] at hredraws
      rw [after_of_eq_ok hrest] at hredraws'
      have hcurrent : w₁.files.current = w.files.current := hredraws.current
      obtain ⟨hfolder, content, hcontent, hplaced, helsewhere⟩ :=
        placePicture_eq_ok hid hplace hpath
      have hall := ih hids hslash (by rwa [hcurrent]) hrest
      -- the places of the other pictures are different ones
      have hother : ∀ source ∈ sources, picturesPlace build w₁.files.current ++ [d.assetName] ≠
          picturesPlace build w₁.files.current ++ [source.1.assetName] := by
        intro source hsource heq
        refine hnotMem (List.mem_map.mpr ⟨source, hsource, ?_⟩)
        exact (assetName_injective (child_inj heq)).symm
      refine ⟨hall.current.trans hcurrent, fun _ _ => hredraws'.isFolder hfolder,
        List.forall_mem_cons.mpr ⟨⟨content, hcontent, ?_⟩, fun source hsource => ?_⟩,
        fun l hl => ?_⟩
      · rw [← hcurrent] at hplaced ⊢
        rw [hall.elsewhere _ hother, hplaced]
      · obtain ⟨content, hcontent, hplaced⟩ := hall.content source hsource
        rw [hcurrent] at hcontent hplaced
        rw [helsewhere _ (hsources source hsource _)] at hcontent
        exact ⟨content, hcontent, hplaced⟩
      · obtain ⟨hfirst, hl⟩ := List.forall_mem_cons.mp hl
        rw [hall.elsewhere l (by rwa [hcurrent]), helsewhere l hfirst]

/-! ### Pruning -/

/-- What is kept stays as it is. -/
lemma pruneFolder_content {kept removed : List Path}
    (h : pruneFolder (build / Diagram.outputFolder) kept w = .ok removed w') {q : Path}
    (hq : q ∈ kept) :
    w'.files.contentAt? (q.location w.files.current) =
      w.files.contentAt? (q.location w.files.current) := by
  set l := q.location w.files.current with hl
  set R : Workspace → Workspace → Prop := fun v v' => v.files.current = w.files.current →
    v'.files.current = w.files.current ∧ v'.files.contentAt? l = v.files.contentAt? l
  have hR : Chains R := by
    refine ⟨fun v hv => ⟨hv, rfl⟩, fun {v v' v''} hv hv' hcurrent => ?_⟩
    obtain ⟨hcurrent', hcontent⟩ := hv hcurrent
    obtain ⟨hcurrent'', hcontent'⟩ := hv' hcurrent'
    exact ⟨hcurrent'', hcontent'.trans hcontent⟩
  have hremoves : ∀ p ∈ strayFiles (build / Diagram.outputFolder) kept w.files,
      Respects R (change (·.remove p)) := by
    intro p hp
    obtain ⟨-, hkept⟩ := mem_strayFiles hp
    refine Respects.change hR fun v files hremove hcurrent => ?_
    obtain ⟨k, hk, -, rfl⟩ := remove_eq_ok hremove
    refine ⟨hcurrent, contentAt?_erase_of_ne ?_⟩
    rw [eq_of_locate hk, hcurrent]
    exact hkept q hq
  rw [pruneFolder, bind_of_eq_ok (see_apply _ w)] at h
  have hw := removeAll_respects hR hremoves w rfl
  rw [after_of_eq_ok h] at hw
  exact hw.2

/-- After placing and pruning, the pictures are listed, and each one is the content of its
source. -/
lemma syncPictures_eq_ok {sources : List (Diagram × Path)} {outputs : List (Text × Path)}
    {removed : List Path} (hids : ((sources.map Prod.fst).map Diagram.id).Nodup)
    (hslash : ∀ source ∈ sources, '/' ∉ source.1.id)
    (hsources : ∀ source ∈ sources, ∀ name, source.2.location w.files.current ≠
      picturesPlace build w.files.current ++ [name])
    (h : syncPictures build sources w = .ok (outputs, removed) w') :
    outputs = valuesOf (fun d => some (build / d.assetPath)) [] (sources.map Prod.fst) ∧
      ∀ source ∈ sources, ∃ content,
        w.files.contentAt? (source.2.location w.files.current) = some content ∧
          w'.files.read (build / source.1.assetPath) = .ok content := by
  obtain ⟨outputs, w₁, hplace, hrest⟩ := bind_eq_ok h
  obtain ⟨removed, w₂, hprune, hpure⟩ := bind_eq_ok hrest
  cases hpure
  have houtputs := placePictures_outputs hplace
  refine ⟨houtputs, fun source hsource => ?_⟩
  have hplaced := placePictures_eq_ok (by rwa [List.map_map] at hids) hslash hsources hplace
  obtain ⟨content, hcontent, hpicture⟩ := hplaced.content source hsource
  refine ⟨content, hcontent, ?_⟩
  -- the picture is listed, so that it is kept
  have hid := hslash source hsource
  have hlisted : outputs.lookup source.1.id = some (build / source.1.assetPath) := by
    rw [houtputs]
    exact lookup_valuesOf _ hids (List.mem_map_of_mem hsource) rfl
  obtain ⟨before, behind, hsplit, -⟩ := List.lookup_eq_some_iff.mp hlisted
  have hkept := pruneFolder_content hprune
    (List.mem_map.mpr ⟨(source.1.id, build / source.1.assetPath), by simp [hsplit], rfl⟩)
  have hprunes := @pruneFolder_redraws build (outputs.map Prod.snd) w₁
  rw [after_of_eq_ok hprune] at hprunes
  dsimp only at hkept
  rw [location_assetPath hid, hplaced.current, hpicture] at hkept
  have hfolder := hprunes.isFolder (hplaced.folder source hsource)
  have hlocate := locate_div_of_isFolder (isName_assetName hid) hfolder
  rw [← div_assetPath hid] at hlocate
  rw [read_eq_ok, location_assetPath hid, hprunes.current, hplaced.current]
  rw [location_assetPath hid, hprunes.current, hplaced.current] at hlocate
  exact ⟨hlocate, hkept⟩

end Place

end Galley
