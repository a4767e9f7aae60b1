import Galley.Build
import Galley.Proofs.Anchors
import Galley.Proofs.Pictures
import Galley.Proofs.Preparing
import Galley.Proofs.RoundTrip
import Galley.SourceMap.Load

/-!
Anchors that are written down and loaded again.

* `Anchor.Storable`: the anchors that a file can hold: their names are texts, their numbers are not
  too long, and their coordinates finite;
* `storable_toJson`, `entryAnchors_anchorJson`: their source map is read back as a value, and each
  entry of it as its anchor;
* `loadAnchors_written`: so they are loaded from their text at any indentation;
* `preprocess_storable`: the anchors of a document can be stored;
* `prepareBuild_file`: what the file of anchors in a filled build folder holds;
* `anchors_survive`: both kinds of anchors come back.
-/

namespace Galley

/-! ### Anchors in files -/

/-- A position that a file can hold. -/
structure PagePosition.Storable (p : PagePosition) : Prop where
  page : Json.IsShortInteger p.page
  x : p.x.isFinite = true
  y : p.y.isFinite = true

/-- An anchor that a file can hold. -/
structure Anchor.Storable (a : Anchor) : Prop where
  id : ∃ t, a.id = CodeText.ofText t
  offset : Json.IsShortInteger a.editor.offset
  line : Json.IsShortInteger a.editor.line
  column : Json.IsShortInteger a.editor.column
  rendered : ∀ p ∈ a.rendered, p.Storable

namespace Json

lemma storable_ofFields {room : Nat} {fields : List (String × Json)}
    (hkeys : (fields.map Prod.fst).Nodup) (h : ∀ f ∈ fields, Storable room f.2) :
    Storable (room + 1) (ofFields fields) := by
  have hnamed : ofFields fields =
      .object (namedFields (fields.map fun f => (f.1.toList, f.2))) := by
    rw [ofFields, namedFields, List.map_map]
    rfl
  have htexts : ((fields.map fun f => (f.1.toList, f.2)).map Prod.fst).Nodup := by
    have hmap := hkeys.map (fun _ _ heq => String.toList_inj.mp heq)
    rw [List.map_map] at hmap ⊢
    exact hmap
  rw [hnamed]
  refine .object htexts fun f hf => ?_
  obtain ⟨g, hg, rfl⟩ := List.mem_map.mp hf
  exact h g hg

lemma storable_real {room : Nat} {x : Binary64} (h : x.isFinite = true) :
    Storable room (.real x) := by
  cases x with
  | nan => cases h
  | infinity negative => cases h
  | finite negative place => exact .real negative place

end Json

namespace SourceMap

open Json

lemma storable_anchorJson {room : Nat} {a : Anchor} (h : a.Storable) :
    Json.Storable (room + 2) (anchorJson a) := by
  obtain ⟨id, editor, rendered⟩ := a
  obtain ⟨⟨t, rfl⟩, hoffset, hline, hcolumn, hrendered⟩ := h
  have heditor : Json.Storable (room + 1) (ofFields [("offset", .integer editor.offset),
      ("line", .integer editor.line), ("column", .integer editor.column)]) := by
    refine storable_ofFields (show ["offset", "line", "column"].Nodup by decide) ?_
    simp only [List.forall_mem_cons]
    exact ⟨.integer hoffset, .integer hline, .integer hcolumn, by simp⟩
  cases rendered with
  | none =>
      refine storable_ofFields (show ["id", "editor"].Nodup by decide) ?_
      simp only [List.cons_append, List.nil_append, List.forall_mem_cons]
      exact ⟨.string t, heditor, by simp⟩
  | some p =>
      obtain ⟨hpage, hx, hy⟩ := hrendered p rfl
      have hposition : Json.Storable (room + 1) (ofFields [("page", .integer p.page),
          ("x", .real p.x), ("y", .real p.y)]) := by
        refine storable_ofFields (show ["page", "x", "y"].Nodup by decide) ?_
        simp only [List.forall_mem_cons]
        exact ⟨.integer hpage, storable_real hx, storable_real hy, by simp⟩
      refine storable_ofFields (show ["id", "editor", "pdf"].Nodup by decide) ?_
      simp only [List.cons_append, List.nil_append, List.forall_mem_cons]
      exact ⟨.string t, heditor, hposition, by simp⟩

lemma storable_toJson {room : Nat} {m : SourceMap} (h : ∀ a ∈ m.anchors, a.Storable) :
    Json.Storable (room + 4) m.toJson := by
  refine storable_ofFields (show ["anchors"].Nodup by decide) ?_
  rw [List.forall_mem_singleton]
  refine .array fun v hv => ?_
  obtain ⟨a, ha, rfl⟩ := List.mem_map.mp hv
  exact storable_anchorJson (h a ha)

lemma entryAnchor_anchorJson (a : Anchor) : entryAnchor (anchorJson a) = .ok a := by
  obtain ⟨id, editor, rendered⟩ := a
  cases rendered <;> rfl

lemma entryAnchors_anchorJson (anchors : List Anchor) :
    entryAnchors (anchors.map anchorJson) = .ok anchors := by
  induction anchors with
  | nil => rfl
  | cons a anchors ih =>
      rw [List.map_cons, entryAnchors, entryAnchor_anchorJson, ih]
      rfl

/-- The text of a source map begins with a brace and with a quotation mark or a line feed. -/
lemma written_head (indent : Option Int) (m : SourceMap) :
    ∃ c cs, m.written indent = '\x7b' :: c :: cs ∧ (c = '"' ∨ c = '\n') := by
  cases indent with
  | none => exact ⟨'"', _, rfl, .inl rfl⟩
  | some width => exact ⟨'\n', _, rfl, .inr rfl⟩

/-- The octets of a source map are read as UTF-8. -/
lemma decode_written (indent : Option Int) (m : SourceMap) (gap : Text) :
    Json.decode (utf8 (m.written indent ++ gap)) =
      some (CodeText.ofText (m.written indent ++ gap)) := by
  obtain ⟨c, cs, hhead, hc⟩ := written_head indent m
  rw [← decodeUtf8?_utf8, hhead, List.cons_append, List.cons_append]
  rcases hc with rfl | rfl <;> exact decode_object (by decide) _

/-- Anchors are loaded from the octets of their text, at any indentation and with white space behind
it. -/
theorem loadAnchors_written (path : Text) (indent : Option Int) {m : SourceMap}
    (h : ∀ a ∈ m.anchors, a.Storable) {gap : Text} (hgap : IsGapText gap) :
    loadAnchors path (utf8 (m.written indent ++ gap)) = .ok m.anchors := by
  have hread : Json.read (CodeText.ofText (m.written indent ++ gap)) = .ok m.toJson :=
    read_write (storable_toJson h) (indent.map Int.toNat) hgap
  have hreport : loadReport (utf8 (m.written indent ++ gap)) = .ok m.toJson := by
    rw [loadReport, decode_written]
    dsimp only
    rw [hread]
    rfl
  have hentries : anchorEntries? m.toJson = some (m.anchors.map anchorJson) := rfl
  simp only [loadAnchors, hreport, bind, Except.bind, hentries, entryAnchors_anchorJson]
  rfl

end SourceMap

/-! ### Anchors of documents -/

lemma length_lineStartsAux_le (place : LineStart) (t : Text) :
    (lineStartsAux place t).length ≤ t.length := by
  induction place, t using lineStartsAux.induct with
  | case1 place => exact le_rfl
  | case2 place cs next ih =>
      rw [lineStartsAux]
      exact Nat.succ_le_succ (ih.trans (Nat.le_succ _))
  | case3 place c cs hpair next hbreak ih =>
      rw [lineStartsAux.eq_3 _ _ _ hpair, if_pos hbreak]
      exact Nat.succ_le_succ ih
  | case4 place c cs hpair next hbreak ih =>
      rw [lineStartsAux.eq_3 _ _ _ hpair, if_neg hbreak]
      exact ih.trans (Nat.le_succ _)

lemma length_le_utf8Size (t : Text) : t.length ≤ utf8Size t := by
  induction t with
  | nil => exact le_rfl
  | cons c t ih =>
      have hpos := Char.utf8Size_pos c
      change t.length + 1 ≤ c.utf8Size + utf8Size t
      omega

/-- The numbers of a position do not exceed the number of octets. -/
lemma position_le {text : Text} {o : Nat} (ho : o ≤ text.length) :
    let p := (LineTable.ofText text).position o
    (p.offset.natAbs ≤ utf8Size text ∧ p.line.natAbs ≤ utf8Size text) ∧
      p.column.natAbs ≤ utf8Size text := by
  have hlength := length_le_utf8Size text
  refine ⟨⟨?_, ?_⟩, ?_⟩
  · change (LineTable.ofText text).byteOffset o ≤ utf8Size text
    have hmono := utf8Size_take_mono text ho
    rw [LineTable.byteOffset_eq]
    rwa [List.take_length] at hmono
  · change ((LineTable.ofText text).startsUpTo o).length - 1 ≤ utf8Size text
    have hstarts : ((LineTable.ofText text).startsUpTo o).length ≤ text.length + 1 :=
      (List.takeWhile_sublist _).length_le.trans
        (Nat.succ_le_succ (length_lineStartsAux_le ⟨0, 0⟩ text))
    omega
  · change o - _ ≤ utf8Size text
    omega

/-- The anchors of a document whose octets can be counted in a number that is not too long can be
stored. -/
lemma preprocess_storable {source : Text} {r : Preprocessed} (h : preprocess source = .ok r)
    (hsize : utf8Size source < 10 ^ maxIntegerDigits) : ∀ a ∈ r.anchors, a.Storable := by
  intro a ha
  obtain ⟨text, locate, bs, hlocates, hanchors⟩ := preprocess_eq_ok h
  rw [hanchors] at ha
  obtain ⟨m, hm, rfl⟩ := List.mem_map.mp ha
  obtain ⟨o, ho, heditor⟩ := (marks_map hlocates bs).2 m hm
  obtain ⟨⟨hoffset, hline⟩, hcolumn⟩ := position_le ho
  rw [← heditor] at hoffset hline hcolumn
  exact ⟨⟨m.id, rfl⟩, hoffset.trans_lt hsize, hline.trans_lt hsize, hcolumn.trans_lt hsize,
    fun p hp => absurd hp (by simp [Mark.anchor])⟩

/-- Diagrams are numbered, so there is no slash in their names. -/
lemma diagramEditsAux_slash_free {table : LineTable} {count : Nat} {fs : List FenceBlock} :
    ∀ found ∈ diagramEditsAux table count fs, '/' ∉ found.2.id := by
  have hnumber : ∀ n, '/' ∉ "tikz-".toList ++ Text.ofNat n := by
    intro n hmem
    rcases List.mem_append.mp hmem with hmem | hmem
    · exact absurd hmem (by decide)
    · exact absurd (ofNat_digits hmem) (by decide)
  induction fs generalizing count with
  | nil => simp [diagramEditsAux]
  | cons f fs ih =>
      intro found hfound
      rw [diagramEditsAux] at hfound
      split at hfound
      · exact ih found hfound
      · rcases List.mem_cons.mp hfound with rfl | hfound
        · exact hnumber count
        · exact ih found hfound

lemma preprocess_slash_free {source : Text} {r : Preprocessed} (h : preprocess source = .ok r) :
    ∀ d ∈ r.diagrams, '/' ∉ d.id := by
  rw [preprocess] at h
  obtain ⟨found, hfound, hrest⟩ := exists_of_bind_eq_ok h
  obtain ⟨⟨result, anchors⟩, -, hpure⟩ := exists_of_bind_eq_ok hrest
  obtain ⟨bs, -, rfl⟩ := diagramEdits_eq_ok hfound
  obtain rfl := Except.ok.inj hpure
  intro d hd
  obtain ⟨a, ha, rfl⟩ := List.mem_map.mp hd
  exact diagramEditsAux_slash_free a ha

/-! ### The file of anchors -/

section Build

open BuildStep FileTree

variable {tools : Toolchain} {s : Settings} {build : Path} {w w' : Workspace}

/-- A file that was written is read. -/
lemma read_of_writeFile {p : Path} {content : Octets} {u : Unit}
    (hp : p.location w.files.current ≠ []) (h : writeFile p content w = .ok u w') :
    w'.files.read p = .ok content := by
  obtain ⟨files, hwrite, rfl⟩ := change_eq_ok h
  obtain ⟨l, hl, hfolder, rfl⟩ := write_eq_ok hwrite
  obtain rfl := eq_of_locate hl
  obtain ⟨executable, hfile⟩ := fileOver_eq (w.files.get? (p.location w.files.current)) content
  rw [hfile]
  have hkept : FoldersKept w.files
      (w.files.put (p.location w.files.current) (.file content executable)) := .put hfolder _
  exact read_eq_ok.mpr ⟨hkept.locate hl, contentAt?_put hp⟩

/-- Making pictures leaves all files alone but pictures and those that a cache gets. -/
lemma read_of_prepareAssets {ds : List Diagram} (hids : ∀ d ∈ ds, '/' ∉ d.id)
    {report : AssetReport} (h : prepareAssets tools s build ds w = .ok report w') {p : Path}
    (hp : ∀ name, p.location w.files.current ≠ picturesPlace build w.files.current ++ [name])
    {content : Octets} (hread : w.files.read p = .ok content) :
    w'.files.read p = .ok content := by
  have hgrown := @resolveAll_grows tools s (Cache.ofBuild build s) (representatives [] ds) w
  have hredraws : PicturesChanged build _ _ := @prepareAssets_redraws tools s build ds hids w
  rw [after_of_eq_ok h] at hredraws
  obtain ⟨hlocate, hcontent⟩ := read_eq_ok.mp hread
  have hcurrent := hredraws.current.trans hgrown.current
  rw [← hgrown.current] at hp
  refine read_eq_ok.mpr ⟨?_, ?_⟩
  · rw [hcurrent]
    exact hredraws.toFoldersKept.locate (hgrown.toKept.locate hlocate)
  · rw [hcurrent, ← hgrown.current, hredraws.content hp, hgrown.current]
    exact hgrown.toKept.content hcontent

/-- A filled build folder holds the text of the anchors, whatever became of the pictures. -/
theorem prepareBuild_file {skipDiagrams : Bool} {markdown : Text} {r : Preprocessed}
    {report : Option AssetReport}
    (h : prepareBuild tools s build skipDiagrams markdown w = .ok (.ok (r, report)) w') :
    preprocess markdown = .ok r ∧
      w'.files.read (build / anchorsName) = .ok (utf8 (SourceMap.text ⟨r.anchors⟩)) := by
  obtain ⟨_, w₁, -, hrest⟩ := bind_eq_ok h
  cases hpreprocess : preprocess markdown with
  | error e =>
      rw [hpreprocess] at hrest
      cases hrest
  | ok result =>
      rw [hpreprocess] at hrest
      obtain ⟨report', w₂, hfill, hpure⟩ := bind_eq_ok hrest
      cases hpure
      obtain ⟨_, w₃, -, hrest⟩ := bind_eq_ok hfill
      obtain ⟨_, w₄, hwrite, hrest⟩ := bind_eq_ok hrest
      have hplace (here : Location) : (build / anchorsName).location here =
          build.location here ++ [anchorsName] := Path.location_div isName_anchorsName build here
      have hread := read_of_writeFile (by rw [hplace]; simp) hwrite
      refine ⟨rfl, ?_⟩
      cases skipDiagrams with
      | true =>
          cases hrest
          exact hread
      | false =>
          obtain ⟨assets, w₅, hassets, hpure⟩ := bind_eq_ok hrest
          cases hpure
          refine read_of_prepareAssets (preprocess_slash_free hpreprocess) hassets (fun name => ?_)
            hread
          rw [hplace, picturesPlace_eq]
          simp

end Build

/-- Anchors survive the file. Whatever anchors a file can hold are loaded from their text, at every
indentation; so are the anchors of every document that fits into numbers that are not too long,
which are those of the file in a filled build folder. -/
theorem anchors_survive (path : Text) :
    (∀ (indent : Option Int) (m : SourceMap), (∀ a ∈ m.anchors, a.Storable) →
      loadAnchors path (utf8 (m.written indent)) = .ok m.anchors) ∧
    ∀ (markdown : Text) (r : Preprocessed), utf8Size markdown < 10 ^ maxIntegerDigits →
      preprocess markdown = .ok r →
      loadAnchors path (utf8 (SourceMap.text ⟨r.anchors⟩)) = .ok r.anchors ∧
      ∀ (tools : Toolchain) (s : Settings) (build : Path) (skipDiagrams : Bool)
        (report : Option AssetReport) (w w' : Workspace),
        prepareBuild tools s build skipDiagrams markdown w = .ok (.ok (r, report)) w' →
        w'.files.read (build / anchorsName) = .ok (utf8 (SourceMap.text ⟨r.anchors⟩)) := by
  refine ⟨fun indent m h => ?_, fun markdown r hsize hr => ⟨?_, ?_⟩⟩
  · have hload := SourceMap.loadAnchors_written path indent h Json.isGapText_nil
    rwa [List.append_nil] at hload
  · have hbreak : Json.IsGapText ['\n'] :=
      List.cons_subset.mpr ⟨by decide, List.nil_subset _⟩
    exact SourceMap.loadAnchors_written path (some 2) (m := ⟨r.anchors⟩)
      (preprocess_storable hr hsize) hbreak
  · intro tools s build skipDiagrams report w w' h
    exact (prepareBuild_file h).2

/-- An anchor whose name needs all kinds of escapes, and the anchors of two paragraphs. -/
theorem anchors_survive_escapes :
    let name := CodeText.ofText ['t', 'f', '-', '"', '\\', '\n', '\x01', 'é', '😀']
    let position : PagePosition := ⟨2, .ofScaled false 1 (-1), .ofScaled true 5 (-324)⟩
    let a : Anchor := ⟨name, ⟨-12, 3, 0⟩, some position⟩
    let markdown := "a\n\nb\n".toList
    let w : Workspace := { files := ⟨[], []⟩ }
    let build : Path := ⟨.current, ["out".toList]⟩
    a.Storable ∧ utf8Size markdown < 10 ^ maxIntegerDigits ∧
      loadAnchors [] (utf8 (SourceMap.written (some (-1)) ⟨[a]⟩)) = .ok [a] ∧
      ∃ r files, preprocess markdown = .ok r ∧
        prepareBuild Toolchain.sample { command := [] } build true markdown w =
          .ok (.ok (r, none)) { w with files } ∧
        loadAnchors [] (utf8 (SourceMap.text ⟨r.anchors⟩)) = .ok r.anchors ∧
        files.read (build / anchorsName) = .ok (utf8 (SourceMap.text ⟨r.anchors⟩)) := by
  intro name position a markdown w build
  have hshort : ∀ n ≤ maxIntegerDigits, n < 10 ^ maxIntegerDigits := fun n hn =>
    hn.trans_lt (Nat.lt_pow_self (by decide))
  have hposition : position.Storable :=
    ⟨hshort 2 (by decide), by decide +kernel, by decide +kernel⟩
  have ha : a.Storable := by
    refine ⟨⟨_, rfl⟩, hshort 12 (by decide), hshort 3 (by decide), hshort 0 (by decide), ?_⟩
    intro p hp
    rwa [← Option.some.inj hp]
  have hsize : utf8Size markdown < 10 ^ maxIntegerDigits := hshort 5 (by decide)
  have hr : (preprocess markdown).isOk = true := by decide +kernel
  obtain ⟨r, hr⟩ : ∃ r, preprocess markdown = .ok r := by
    cases hresult : preprocess markdown with
    | ok r => exact ⟨r, rfl⟩
    | error e => rw [hresult] at hr; cases hr
  have hmade : w.files.makeFolders build = .ok () (w.files.put ["out".toList] .folder) := rfl
  obtain ⟨files, hrun, -⟩ := prepareBuild_anchors Toolchain.sample { command := [] } hmade
    (by decide +kernel) (by decide +kernel) hr
  have hanchors := (anchors_survive []).2 markdown r hsize hr
  refine ⟨ha, hsize, (anchors_survive []).1 (some (-1)) ⟨[a]⟩ ?_, r, files, hr, hrun, hanchors.1,
    hanchors.2 _ _ _ _ _ _ _ hrun⟩
  intro b hb
  rw [List.mem_singleton.mp hb]
  exact ha

end Galley
