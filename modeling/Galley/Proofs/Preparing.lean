import Galley.CommandLine
import Galley.Proofs.Anchors
import Galley.Proofs.Commands
import Galley.Proofs.EntryNames
import Galley.Proofs.Rendering
import Galley.Proofs.Steps
import Galley.Proofs.Utf8
import Mathlib.Tactic

/-!
Preparing a document from the command line. The authored file is read with every line break as a
line feed, and the anchors are those of the text that comes of it.

* `lineFeeds_split`, `utf8Size_lineFeeds`: where a place of that text is in the authored one, and
  that a pair of a carriage return and a line feed costs one octet;
* `write_beside`: what writing a file into a folder does;
* `prepare_anchors`: what `prepare` writes down as anchors, and how far their offsets are from the
  authored file;
* `prepare_anchors_short`: with pairs they fall short.
-/

namespace Galley

open BuildStep

/-! ### Line feeds -/

lemma lineFeeds_cons {c : Char} {cs : Text} (h : ∀ ds, c = '\r' → cs = '\n' :: ds → False) :
    lineFeeds (c :: cs) = (if c == '\r' then '\n' else c) :: lineFeeds cs := by
  rw [lineFeeds]
  exact h

/-- The number of pairs of a carriage return and a line feed. -/
def breakPairs : Text → Nat
  | '\r' :: '\n' :: cs => breakPairs cs + 1
  | _ :: cs => breakPairs cs
  | [] => 0

/-- A pair becomes shorter by one octet, and nothing else does. -/
lemma utf8Size_lineFeeds (t : Text) : utf8Size (lineFeeds t) + breakPairs t = utf8Size t := by
  induction t using lineFeeds.induct with
  | case1 cs ih =>
      have hsize : utf8Size ('\r' :: '\n' :: cs) = 1 + (1 + utf8Size cs) := rfl
      have hfeeds : utf8Size (lineFeeds ('\r' :: '\n' :: cs)) = 1 + utf8Size (lineFeeds cs) := by
        rw [lineFeeds]
        rfl
      rw [hsize, hfeeds, breakPairs, ← ih]
      omega
  | case2 c cs hpair ih =>
      have hsize : utf8Size (c :: cs) = c.utf8Size + utf8Size cs := rfl
      have hchar : (if c == '\r' then '\n' else c).utf8Size = c.utf8Size := by
        split_ifs with hc
        · rw [beq_iff_eq.mp hc]
          rfl
        · rfl
      have hfeeds : utf8Size (lineFeeds (c :: cs)) = c.utf8Size + utf8Size (lineFeeds cs) := by
        rw [lineFeeds_cons hpair, ← hchar]
        rfl
      have hpairs : breakPairs (c :: cs) = breakPairs cs := by
        rw [breakPairs]
        exact hpair
      rw [hsize, hfeeds, hpairs, ← ih, Nat.add_assoc]
  | case3 => rfl

/-- A place in the text with line feeds is one in the text itself. -/
lemma lineFeeds_split (t : Text) (o : Nat) :
    ∃ before behind, t = before ++ behind ∧ lineFeeds before = (lineFeeds t).take o ∧
      lineFeeds behind = (lineFeeds t).drop o := by
  induction t using lineFeeds.induct generalizing o with
  | case1 cs ih =>
      cases o with
      | zero => exact ⟨[], '\r' :: '\n' :: cs, rfl, rfl, rfl⟩
      | succ o =>
          obtain ⟨before, behind, rfl, hbefore, hbehind⟩ := ih o
          refine ⟨'\r' :: '\n' :: before, behind, rfl, ?_, ?_⟩
          · rw [lineFeeds, hbefore, lineFeeds]
            rfl
          · rw [hbehind, lineFeeds]
            rfl
  | case2 c cs hpair ih =>
      cases o with
      | zero => exact ⟨[], c :: cs, rfl, rfl, rfl⟩
      | succ o =>
          obtain ⟨before, behind, rfl, hbefore, hbehind⟩ := ih o
          refine ⟨c :: before, behind, rfl, ?_, ?_⟩
          · have hpair' : ∀ ds, c = '\r' → before = '\n' :: ds → False := by
              rintro ds hc rfl
              exact hpair (ds ++ behind) hc rfl
            rw [lineFeeds_cons hpair', hbefore, lineFeeds_cons hpair]
            rfl
          · rw [hbehind, lineFeeds_cons hpair]
            rfl
  | case3 =>
      refine ⟨[], [], rfl, ?_, ?_⟩
      · rw [lineFeeds, List.take_nil]
      · rw [lineFeeds, List.drop_nil]

lemma lineFeeds_of_notMem {t : Text} (h : '\r' ∉ t) : lineFeeds t = t := by
  induction t with
  | nil => rfl
  | cons c cs ih =>
      have hc : c ≠ '\r' := fun heq => h (heq ▸ List.mem_cons_self)
      rw [lineFeeds_cons fun _ heq => absurd heq hc, if_neg (by simpa using hc),
        ih fun hmem => h (List.mem_cons_of_mem c hmem)]

/-! ### Files of the build folder -/

/-- A file that is written into a folder can be read there, the folder stays, and so does every
other file or folder in it. -/
lemma FileTree.write_beside {t : FileTree} {p : Path} {x : Text} (hx : IsName x)
    (hfolder : t.isFolder p = true) (hfree : t.isFolder (p / x) = false) (content : Octets) :
    ∃ files, t.write (p / x) content = .ok files ∧ files.read (p / x) = .ok content ∧
      files.isFolder p = true ∧
      ∀ y, IsName y → y ≠ x → files.isFolder (p / y) = t.isFolder (p / y) := by
  have hlocate := locate_div_of_isFolder hx hfolder
  have hget : t.get? ((p / x).location t.current) ≠ some .folder := by
    intro hget
    rw [isFolder_iff.mpr ⟨hlocate, hget⟩] at hfree
    cases hfree
  obtain ⟨executable, hfile⟩ := fileOver_eq (t.get? ((p / x).location t.current)) content
  have hwrite : t.write (p / x) content = _ := write_of_locate hlocate hget
  rw [hfile] at hwrite
  have hkept : FoldersKept t (t.put ((p / x).location t.current) (.file content executable)) :=
    .put hget _
  have hne : (p / x).location t.current ≠ [] := by
    rw [Path.location_div hx]
    simp
  refine ⟨_, hwrite, read_eq_ok.mpr ⟨hkept.locate hlocate, contentAt?_put hne⟩,
    hkept.isFolder hfolder, fun y hy hyx => ?_⟩
  have hother : (p / y).location t.current ≠ (p / x).location t.current := by
    rw [Path.location_div hx, Path.location_div hy]
    simpa using hyx
  rw [FileTree.isFolder, FileTree.isFolder, find?_div hy, find?_div hy, if_pos hfolder,
    if_pos (hkept.isFolder hfolder)]
  exact congrArg (· == some Node.folder) (get?_put_of_ne hother)

lemma isName_contentName : IsName contentName := by
  refine ⟨?_, ?_, ?_, ?_⟩ <;> decide

lemma isName_anchorsName : IsName anchorsName := by
  refine ⟨?_, ?_, ?_, ?_⟩ <;> decide

/-- A build folder without diagrams gets the anchors. -/
lemma prepareBuild_anchors (tools : Toolchain) (s : Settings) {build : Path} {w : Workspace}
    {made : FileTree} {text : Text} {r : Preprocessed}
    (hmade : w.files.makeFolders build = .ok () made)
    (hcontent : made.isFolder (build / contentName) = false)
    (hanchors : made.isFolder (build / anchorsName) = false) (hr : preprocess text = .ok r) :
    ∃ files, prepareBuild tools s build true text w = .ok (.ok (r, none)) { w with files } ∧
      files.read (build / anchorsName) = .ok (utf8 (SourceMap.text ⟨r.anchors⟩)) := by
  obtain ⟨files, hwrite, -, hfolder, hbeside⟩ := FileTree.write_beside isName_contentName
    (FileTree.makeFolders_isFolder hmade) hcontent (utf8 r.markdown)
  rw [← hbeside anchorsName isName_anchorsName (by decide)] at hanchors
  obtain ⟨files', hwrite', hread, -⟩ := FileTree.write_beside isName_anchorsName hfolder hanchors
    (utf8 (SourceMap.text ⟨r.anchors⟩))
  refine ⟨files', ?_, hread⟩
  rw [prepareBuild, bind_of_eq_ok (makeFolders_of_eq_ok hmade), hr]
  dsimp only
  have hfill : fillBuild tools s build true r { w with files := made } =
      .ok none { w with files := files' } := by
    rw [fillBuild, bind_of_eq_ok (writeFile_of_eq_ok hwrite),
      bind_of_eq_ok (writeFile_of_eq_ok hwrite')]
    rfl
  rw [bind_of_eq_ok hfill]
  rfl

/-! ### The command -/

lemma length_utf8 (t : Text) : (utf8 t).length = utf8Size t := by
  induction t with
  | nil => rfl
  | cons c t ih =>
      rw [utf8, List.flatMap_cons, List.length_append, String.length_utf8EncodeChar]
      exact congrArg (c.utf8Size + ·) ih

/-- An anchor of a document stands at a place of the file that the document was read from, and its
offset falls short of the number of octets there by the number of pairs. -/
lemma anchor_in_file {text : Text} {r : Preprocessed} {a : Anchor}
    (hr : preprocess (lineFeeds text) = .ok r) (ha : a ∈ r.anchors) :
    ∃ before behind, text = before ++ behind ∧
      lineFeeds text = lineFeeds before ++ lineFeeds behind ∧
      a.editor = (LineTable.ofText (lineFeeds text)).position (lineFeeds before).length ∧
      a.editor.offset + breakPairs before = (utf8 before).length := by
  obtain ⟨text', locate, bs, hlocates, hanchors⟩ := preprocess_eq_ok hr
  rw [hanchors] at ha
  obtain ⟨m, hm, rfl⟩ := List.mem_map.mp ha
  obtain ⟨o, ho, heditor⟩ := (marks_map hlocates bs).2 m hm
  obtain ⟨before, behind, hsplit, hbefore, hbehind⟩ := lineFeeds_split text o
  have hlength : (lineFeeds before).length = o := by
    rw [hbefore, List.length_take, min_eq_left ho]
  have hoffset : m.anchor.editor.offset = utf8Size (lineFeeds before) := by
    have hbytes : m.editor.offset = (LineTable.ofText (lineFeeds text)).byteOffset o := by
      rw [heditor]
      rfl
    rw [hbefore, ← LineTable.byteOffset_eq, ← hbytes]
    rfl
  refine ⟨before, behind, hsplit, ?_, ?_, ?_⟩
  · rw [hbefore, hbehind, List.take_append_drop]
  · rw [hlength]
    exact heditor
  · rw [hoffset, length_utf8, ← utf8Size_lineFeeds before]
    push_cast
    rfl

/-- What `prepare` is to do with a source and a build folder if diagrams are skipped. -/
def PrepareOptions.withoutDiagrams (source build : Text) : PrepareOptions :=
  { source := some source, build := some build, skipDiagrams := true }

/-- The anchors that are written down are those of the text with line feeds in place of all breaks,
which is the text of the file if there are no carriage returns in it. So every offset falls short of
the one in the file by the number of pairs of a carriage return and a line feed in front of it. -/
theorem prepare_anchors (tools : Toolchain) {host : Host} {w : Workspace} {file folder text : Text}
    {source build : Path} {settings : Settings} {made : FileTree} {r : Preprocessed}
    (hsource : host.path? file = some source) (hread : w.files.read source = .ok (utf8 text))
    (hsettings : Settings.ofHost? host w.files = some settings)
    (hbuild : host.path? folder = some build) (hmade : w.files.makeFolders build = .ok () made)
    (hcontent : made.isFolder (build / contentName) = false)
    (hanchors : made.isFolder (build / anchorsName) = false)
    (hr : preprocess (lineFeeds text) = .ok r) :
    ∃ files, Command.run tools host (.prepare (PrepareOptions.withoutDiagrams file folder)) w =
        .ok (prepareReply r none) { w with files } ∧
      files.read (build / anchorsName) = .ok (utf8 (SourceMap.text ⟨r.anchors⟩)) ∧
      ('\r' ∉ text → preprocess text = .ok r) ∧
      ∀ a ∈ r.anchors, ∃ before behind, text = before ++ behind ∧
        lineFeeds text = lineFeeds before ++ lineFeeds behind ∧
        a.editor = (LineTable.ofText (lineFeeds text)).position (lineFeeds before).length ∧
        a.editor.offset + breakPairs before = (utf8 before).length := by
  obtain ⟨files, hrun, hwritten⟩ := prepareBuild_anchors tools settings hmade
    hcontent hanchors hr
  refine ⟨files, ?_, hwritten, fun hreturn => ?_, fun a ha => anchor_in_file hr ha⟩
  · have hdocument : documentText (utf8 text) = lineFeeds text := by
      rw [documentText, decodeUtf8_utf8]
    have hfile : w.files.isFile source = true := by
      obtain ⟨hlocate, hcontent⟩ := FileTree.read_eq_ok.mp hread
      exact FileTree.isFile_iff.mpr ⟨hlocate, by rw [hcontent]; exact Option.some_ne_none _⟩
    have hpath : pathOf host (PrepareOptions.withoutDiagrams file folder).source w = .ok source w :=
      pathOf_of_eq_some hsource w
    have hlook : within (see (·.isFile source)) w = .ok true w :=
      within_of_eq_ok (by rw [see_apply, hfile])
    have hstate : (get : CommandStep Workspace) w = .ok w w := rfl
    have hhome : requireHome (Settings.ofHost? host w.files) w = .ok settings w := by
      rw [hsettings]
      rfl
    have hworkers : withWorkers settings (PrepareOptions.withoutDiagrams file folder).workers w =
        .ok settings w := rfl
    have hoctets : within (consult (·.read source)) w = .ok (utf8 text) w :=
      within_of_eq_ok (consult_of_eq_ok hread)
    have hpath' : pathOf host (PrepareOptions.withoutDiagrams file folder).build w = .ok build w :=
      pathOf_of_eq_some hbuild w
    rw [← hdocument] at hrun
    rw [Command.run, runPrepare, command_bind_of_eq_ok hpath, command_bind_of_eq_ok hlook,
      if_neg (by decide), command_bind_of_eq_ok hstate, command_bind_of_eq_ok hhome,
      command_bind_of_eq_ok hworkers, command_bind_of_eq_ok hoctets, command_bind_of_eq_ok hpath']
    exact command_bind_of_eq_ok (within_of_eq_ok hrun)
  · rwa [lineFeeds_of_notMem hreturn] at hr

/-- A file with both kinds of breaks. -/
theorem prepare_anchors_mixed :
    let text := "a\r\n\r\nb\n\nc\n".toList
    let host : Host := ⟨[], [], 1⟩
    let w : Workspace := { files := ⟨[], [(["doc.md".toList], .file (utf8 text) false)]⟩ }
    let build : Path := ⟨.current, ["out".toList]⟩
    let command := Command.prepare (.withoutDiagrams "doc.md".toList "out".toList)
    readCommand ["prepare".toList, "doc.md".toList, "--build-dir".toList, "out".toList,
        "--skip-diagrams".toList] = .ok command ∧
      ∃ r files, preprocess (lineFeeds text) = .ok r ∧
        command.run Toolchain.sample host w = .ok (prepareReply r none) { w with files } ∧
        files.read (build / anchorsName) = .ok (utf8 (SourceMap.text ⟨r.anchors⟩)) := by
  intro text host w build command
  have hsource : host.path? "doc.md".toList = some ⟨.current, ["doc.md".toList]⟩ := by
    decide +kernel
  have hread : w.files.read ⟨.current, ["doc.md".toList]⟩ = .ok (utf8 text) := by decide +kernel
  have hsettings : (Settings.ofHost? host w.files).isSome = true := by decide +kernel
  obtain ⟨settings, hsettings⟩ := Option.isSome_iff_exists.mp hsettings
  have hbuild : host.path? "out".toList = some build := by decide +kernel
  have hmade : w.files.makeFolders build =
      .ok () (w.files.put ["out".toList] .folder) := rfl
  have hr : (preprocess (lineFeeds text)).isOk = true := by decide +kernel
  obtain ⟨r, hr⟩ : ∃ r, preprocess (lineFeeds text) = .ok r := by
    cases hresult : preprocess (lineFeeds text) with
    | ok r => exact ⟨r, rfl⟩
    | error e => rw [hresult] at hr; cases hr
  obtain ⟨files, hrun, hwritten, -⟩ := prepare_anchors Toolchain.sample hsource hread hsettings
    hbuild hmade (by decide +kernel) (by decide +kernel) hr
  exact ⟨by decide +kernel, r, files, hr, hrun, hwritten⟩

/-- The reply of a command, and the state that it leaves. -/
def Command.ran? (command : Command) (tools : Toolchain) (host : Host) (w : Workspace) :
    Option (Reply × Workspace) :=
  match command.run tools host w with
  | .ok reply w' => some (reply, w')
  | .error _ _ => none

/-- What a file of anchors holds for a text. -/
def anchorsFile (text : Text) : Option Octets :=
  (preprocess text).toOption.map fun r => utf8 (SourceMap.text ⟨r.anchors⟩)

/-- In a file with pairs, the second paragraph begins at octet five, and its anchor is written down
with three. -/
theorem prepare_anchors_short :
    let text := "a\r\n\r\nb\r\n".toList
    let w : Workspace := { files := ⟨[], [(["doc.md".toList], .file (utf8 text) false)]⟩ }
    let build : Path := ⟨.current, ["out".toList]⟩
    let command := Command.prepare (.withoutDiagrams "doc.md".toList "out".toList)
    let offsets := fun text => (preprocess text).map fun r => r.anchors.map (·.editor.offset)
    readCommand ["prepare".toList, "doc.md".toList, "--build-dir".toList, "out".toList,
        "--skip-diagrams".toList] = .ok command ∧
      ((command.ran? Toolchain.sample ⟨[], [], 1⟩ w).map fun (reply, w') =>
        (reply.exit, (w'.files.read (build / anchorsName)).toOption)) =
          some (0, anchorsFile (lineFeeds text)) ∧
      anchorsFile (lineFeeds text) ≠ anchorsFile text ∧
      offsets (lineFeeds text) = .ok [0, 0, 3] ∧ offsets text = .ok [0, 0, 5] := by
  decide +kernel

end Galley
