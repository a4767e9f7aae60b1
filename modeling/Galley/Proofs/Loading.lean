import Galley.Proofs.Commands
import Galley.Proofs.Faults
import Galley.Proofs.Reading
import Mathlib.Tactic

/-!
Files that are loaded, or reported as unreadable.

* `LoadError.IsReported`: the errors that have a wording, so that the command can report them;
* `loadReport_reported`: a tame file is loaded as a report, or the error is reported;
* `EntryInRange`, `loadAnchors_reported`: so it is with a file of anchors, if the numbers of its
  entries are in range;
* `loaders_report`: the command replies with exit code two;
* `loaders_report_not`: octets that are no text, and an infinite offset, are not reported.
-/

namespace Galley

/-! ### Reports -/

/-- An error that is reported as such. -/
def LoadError.IsReported (e : LoadError) : Prop := ∃ message, e.message? = some message

/-- The octets of a file are those of a text in which no number is too long and nothing lies too
deep. -/
def TameFile (octets : Octets) : Prop :=
  ∃ text, Json.decode octets = some text ∧ Json.Tame Json.maxNesting text

lemma loadReport_reported {octets : Octets} (h : TameFile octets) :
    FailsOnly LoadError.IsReported (loadReport octets) := by
  obtain ⟨text, hdecode, htame⟩ := h
  rw [loadReport, hdecode]
  refine (Json.read_complains htame).mapError ?_
  rintro _ ⟨complaint, text', offset, rfl⟩
  exact ⟨_, rfl⟩

/-! ### Entries -/

/-- A field does not hold an infinite number, which has no integer part. -/
def HasIntegerPart (key : Text) (value : Json) : Prop :=
  ∀ negative, value.get? key ≠ some (.real (.infinity negative))

/-- A field does not hold an integer beyond the range of floating point numbers. -/
def HasNumber (key : Text) (value : Json) : Prop :=
  ∀ field, value.get? key = some field → ¬ OutOfRange field

/-- The numbers of a position in the typeset document are in range. -/
structure PositionInRange (value : Json) : Prop where
  page : HasIntegerPart "page".toList value
  x : HasNumber ['x'] value
  y : HasNumber ['y'] value

/-- The numbers of an entry are in range. -/
structure EntryInRange (value : Json) : Prop where
  offset : ∀ {editor}, value.get? "editor".toList = some editor →
    HasIntegerPart "offset".toList editor
  line : ∀ {editor}, value.get? "editor".toList = some editor →
    HasIntegerPart "line".toList editor
  column : ∀ {editor}, value.get? "editor".toList = some editor →
    HasIntegerPart "column".toList editor
  position : ∀ {pdf}, value.get? "pdf".toList = some pdf → PositionInRange pdf

lemma EntryFault.message?_of_ne {fault : EntryFault} (h : fault ≠ .tooLarge) :
    ∃ message, fault.message? = some message := by
  cases fault with
  | noFields found => cases found <;> exact ⟨_, rfl⟩
  | tooLarge => exact absurd rfl h
  | _ => exact ⟨_, rfl⟩

/-- A computation that gives no faults but those with a wording. -/
abbrev Worded {α : Type} : Except EntryFault α → Prop := FailsOnly (· ≠ .tooLarge)

lemma requiredField_worded (key : Text) (value : Json) : Worded (requiredField key value) := by
  cases value with
  | object fields =>
      rw [requiredField]
      cases Json.get? key (.object fields) with
      | none => exact .error nofun
      | some v => exact .ok v
  | _ => exact .error nofun

lemma get?_of_requiredField {key : Text} {value field : Json}
    (h : requiredField key value = .ok field) : value.get? key = some field := by
  cases value with
  | object fields =>
      rw [requiredField] at h
      cases hget : Json.get? key (.object fields) with
      | none => rw [hget] at h; cases h
      | some v =>
          rw [hget] at h
          exact congrArg some (Except.ok.inj h)
  | _ => cases h

lemma entryInteger_worded {value : Json} (h : ∀ negative, value ≠ .real (.infinity negative)) :
    Worded (entryInteger value) := by
  cases value with
  | integer n => exact .ok n
  | boolean b => exact .ok _
  | real x =>
      cases x with
      | nan => exact .error nofun
      | infinity negative => exact absurd rfl (h negative)
      | finite negative place => exact .ok _
  | string s =>
      rw [entryInteger]
      split
      · exact .ok _
      · rw [integerFault]
        split
        · split_ifs <;> exact .error nofun
        · exact .error nofun
  | _ => exact .error nofun

lemma entryNumber_worded {value : Json} (h : ¬ OutOfRange value) : Worded (entryNumber value) := by
  cases value with
  | integer n =>
      obtain ⟨x, hx⟩ := not_fails.mp fun hfails => h ⟨n, rfl, exactNumber_fails.mp hfails⟩
      rw [entryNumber, hx]
      exact .ok x
  | boolean b => exact .ok _
  | real x => exact .ok x
  | string s =>
      rw [entryNumber]
      split
      · exact .ok _
      · exact .error nofun
  | _ => exact .error nofun

section Fields

variable {α : Type} {key : Text} {value : Json}

/-- A field is read as an integer, and something follows. -/
lemma integerField_worded {f : Int → Except EntryFault α} (h : HasIntegerPart key value)
    (hf : ∀ n, Worded (f n)) :
    Worded (requiredField key value >>= fun v => entryInteger v >>= f) := by
  refine (requiredField_worded key value).bind fun v hv => ?_
  refine (entryInteger_worded fun negative hinfinite => ?_).bind fun n _ => hf n
  exact h negative (hinfinite ▸ get?_of_requiredField hv)

/-- A field is read as a number, and something follows. -/
lemma numberField_worded {f : Binary64 → Except EntryFault α} (h : HasNumber key value)
    (hf : ∀ x, Worded (f x)) :
    Worded (requiredField key value >>= fun v => entryNumber v >>= f) :=
  (requiredField_worded key value).bind fun v hv =>
    (entryNumber_worded (h v (get?_of_requiredField hv))).bind fun x _ => hf x

end Fields

lemma entryPosition_worded {value : Json} (h : PositionInRange value) :
    Worded (entryPosition value) := by
  refine integerField_worded h.page fun page => ?_
  refine numberField_worded h.x fun x => ?_
  exact numberField_worded h.y fun y => .ok _

lemma entryAnchor_worded {value : Json} (h : EntryInRange value) : Worded (entryAnchor value) := by
  refine (requiredField_worded _ value).bind fun editor heditor => ?_
  have heditor := get?_of_requiredField heditor
  refine (requiredField_worded _ value).bind fun id _ => ?_
  refine integerField_worded (h.offset heditor) fun offset => ?_
  refine integerField_worded (h.line heditor) fun line => ?_
  refine integerField_worded (h.column heditor) fun column => ?_
  dsimp only
  split
  · rename_i fields hget
    exact ((entryPosition_worded (h.position hget)).map some).bind fun rendered _ => .ok _
  · exact .ok _

lemma entryAnchors_worded {entries : List Json} (h : ∀ entry ∈ entries, EntryInRange entry) :
    Worded (entryAnchors entries) := by
  induction entries with
  | nil => exact .ok []
  | cons entry entries ih =>
      obtain ⟨hentry, hentries⟩ := List.forall_mem_cons.mp h
      exact (entryAnchor_worded hentry).bind fun anchor _ =>
        (ih hentries).bind fun anchors _ => .ok _

/-- The entries of a file of anchors, as far as there are any, have numbers in range. -/
def FileInRange (octets : Octets) : Prop :=
  ∀ tree entries, loadReport octets = .ok tree → anchorEntries? tree = some entries →
    ∀ entry ∈ entries, EntryInRange entry

lemma loadAnchors_reported {octets : Octets} (h : TameFile octets) (hrange : FileInRange octets)
    (path : Text) : FailsOnly LoadError.IsReported (loadAnchors path octets) := by
  refine (loadReport_reported h).bind fun tree htree => ?_
  cases hentries : anchorEntries? tree with
  | none => exact .error ⟨_, rfl⟩
  | some entries =>
      have hworded := entryAnchors_worded (hrange tree entries htree hentries)
      refine hworded.mapError fun fault hfault => ?_
      obtain ⟨message, hmessage⟩ := EntryFault.message?_of_ne hfault
      exact ⟨_, by rw [LoadError.message?, hmessage]; rfl⟩

/-! ### The command -/

/-- Files whose octets are those of a text, in which no number is too long and nothing lies too
deep, are loaded or reported: as a report, and as anchors if the numbers are in range. So the
command replies with exit code two and the wording of what is wrong, unless it can load both
files. -/
theorem loaders_report {anchors report : Octets} (hanchors : TameFile anchors)
    (hrange : FileInRange anchors) (hreport : TameFile report) :
    FailsOnly LoadError.IsReported (loadReport report) ∧
    (∀ path, FailsOnly LoadError.IsReported (loadAnchors path anchors)) ∧
    ∀ (tools : Toolchain) (host : Host) (w : Workspace) (output : Value) (s t : Text) (p q : Path),
      host.path? s = some p → host.path? t = some q →
      w.files.read p = .ok anchors → w.files.read q = .ok report →
      (∃ as tree, loadAnchors p.text anchors = .ok as ∧ loadReport report = .ok tree) ∨
      ∃ e message, (loadAnchors p.text anchors = .error e ∨ loadReport report = .error e) ∧
        e.message? = some message ∧
        Command.run tools host (.sourceMap ⟨some s, some t, output⟩) w =
          .ok ⟨2, [], "Could not read source map inputs: ".toList ++ message ++ ['\n']⟩ w := by
  have hloadReport := loadReport_reported hreport
  have hloadAnchors := loadAnchors_reported hanchors hrange
  refine ⟨hloadReport, hloadAnchors, ?_⟩
  intro tools host w output s t p q hp hq hreadp hreadq
  cases has : loadAnchors p.text anchors with
  | error e =>
      obtain ⟨message, hmessage⟩ := hloadAnchors p.text e has
      refine .inr ⟨e, message, .inl rfl, hmessage, ?_⟩
      have hfile : loadFile host (some s) (fun p octets => loadAnchors p.text octets) w =
          .ok (.error message) w := loadFile_of_reported hp hreadp has hmessage
      rw [Command.run, runMerge, command_bind_of_eq_ok hfile]
      rfl
  | ok as =>
      cases htree : loadReport report with
      | ok tree => exact .inl ⟨as, tree, rfl, rfl⟩
      | error e =>
          obtain ⟨message, hmessage⟩ := hloadReport e htree
          refine .inr ⟨e, message, .inr rfl, hmessage, ?_⟩
          have hfile : loadFile host (some s) (fun p octets => loadAnchors p.text octets) w =
              .ok (.ok as) w := loadFile_of_ok hp hreadp has
          have hfile' : loadFile host (some t) (fun _ octets => loadReport octets) w =
              .ok (.error message) w := loadFile_of_reported hq hreadq htree hmessage
          rw [Command.run, runMerge, command_bind_of_eq_ok hfile]
          dsimp only
          rw [command_bind_of_eq_ok hfile']
          rfl

lemma loadReport_of_read {octets : Octets} {text : CodeText} {tree : Json}
    (hdecode : Json.decode octets = some text) (hread : Json.read text = .ok tree) :
    loadReport octets = .ok tree := by
  rw [loadReport, hdecode]
  exact congrArg (Except.mapError LoadError.ofReadError) hread

/-- A compiler that cannot be started, since these commands have no use for one. -/
def Toolchain.missing : Toolchain where
  compile _ _ := ⟨.notStarted [], []⟩
  draw _ _ := .error []

/-- An entry without fields has no numbers. -/
lemma entryInRange_of_empty : EntryInRange (.object []) := ⟨nofun, nofun, nofun, nofun⟩

/-- A file of anchors with an entry without fields. -/
theorem loaders_report_entry :
    let anchors := utf8 "[\x7b\x7d]".toList
    let report := utf8 "[]".toList
    let w : Workspace :=
      { files := ⟨[], [(["a".toList], .file anchors false), (["q".toList], .file report false)]⟩ }
    TameFile anchors ∧ FileInRange anchors ∧ TameFile report ∧
      Command.run Toolchain.missing ⟨[], [], 1⟩ (.sourceMap ⟨some ['a'], some ['q'], none⟩) w =
        .ok ⟨2, [], ("Could not read source map inputs: " ++
          "Malformed anchor entry in a: 'editor'\n").toList⟩ w := by
  have hentry : Json.read (CodeText.ofText "[\x7b\x7d]".toList) =
      .ok (.array [.object []]) := by
    rfl
  have hempty : Json.read (CodeText.ofText "[]".toList) = .ok (.array []) := by
    rfl
  intro anchors report w
  have hdecode : Json.decode anchors = some (CodeText.ofText "[\x7b\x7d]".toList) := by
    decide +kernel
  have hdecode' : Json.decode report = some (CodeText.ofText "[]".toList) := by
    decide +kernel
  have hanchors : TameFile anchors :=
    ⟨_, hdecode, .of_length (by decide +kernel) (by decide +kernel)⟩
  have hreport : TameFile report :=
    ⟨_, hdecode', .of_length (by decide +kernel) (by decide +kernel)⟩
  have hrange : FileInRange anchors := by
    intro tree entries htree hentries entry hmem
    obtain rfl := Except.ok.inj ((loadReport_of_read hdecode hentry).symm.trans htree)
    obtain rfl := Option.some.inj hentries
    obtain rfl := List.mem_singleton.mp hmem
    exact entryInRange_of_empty
  have hload : loadAnchors ['a'] anchors = .error (.badEntry ['a'] (.missing "editor".toList)) := by
    rw [loadAnchors, loadReport_of_read hdecode hentry]
    rfl
  have hname : (⟨.current, [['a']]⟩ : Path).text = ['a'] := by
    decide +kernel
  obtain ⟨-, -, hcommand⟩ := loaders_report hanchors hrange hreport
  refine ⟨hanchors, hrange, hreport, ?_⟩
  rcases hcommand Toolchain.missing ⟨[], [], 1⟩ w none ['a'] ['q'] ⟨.current, [['a']]⟩
    ⟨.current, [['q']]⟩ (by decide +kernel) (by decide +kernel) (by decide +kernel)
    (by decide +kernel) with ⟨as, tree, has, -⟩ | ⟨e, message, he | he, hmessage, hrun⟩
  · rw [hname] at has
    cases hload.symm.trans has
  · rw [hname] at he
    obtain rfl := Except.error.inj (hload.symm.trans he)
    obtain rfl := Option.some.inj hmessage
    exact hrun
  · cases (loadReport_of_read hdecode' hempty).symm.trans he

/-- What is not reported: octets that are no text, and an infinite number in place of an offset. -/
theorem loaders_report_not :
    let anchors := utf8 "[\x7b\"id\": \"a\", \"editor\": \x7b\"offset\": Infinity\x7d\x7d]".toList
    let w : Workspace := { files := ⟨[], [(["a".toList], .file [0xFF] false)]⟩ }
    loadReport [0xFF] = .error .undecodable ∧ LoadError.undecodable.message? = none ∧
      loadAnchors ['a'] anchors = .error (.badEntry ['a'] .tooLarge) ∧
      (LoadError.badEntry ['a'] .tooLarge).message? = none ∧
      Command.run Toolchain.missing ⟨[], [], 1⟩ (.sourceMap ⟨some ['a'], some ['q'], none⟩) w =
        .error (.unreadable .undecodable) w := by
  have hread : Json.read (CodeText.ofText
        "[\x7b\"id\": \"a\", \"editor\": \x7b\"offset\": Infinity\x7d\x7d]".toList) =
      .ok (.array [Json.ofFields [("id", .string (CodeText.ofText ['a'])),
        ("editor", Json.ofFields [("offset", .real (.infinity false))])]]) := by
    cbv
  have hundecodable : loadReport [0xFF] = .error .undecodable := by
    rw [loadReport, show Json.decode [0xFF] = none by decide +kernel]
  intro anchors w
  have hdecode : Json.decode anchors = some (CodeText.ofText
      "[\x7b\"id\": \"a\", \"editor\": \x7b\"offset\": Infinity\x7d\x7d]".toList) := by
    decide +kernel
  refine ⟨hundecodable, rfl, ?_, rfl, ?_⟩
  · rw [loadAnchors, loadReport_of_read hdecode hread]
    rfl
  · have hp : (⟨[], [], 1⟩ : Host).path? ['a'] = some ⟨.current, [['a']]⟩ := by
      decide +kernel
    have hfile : w.files.read ⟨.current, [['a']]⟩ = .ok [0xFF] := by
      decide +kernel
    rw [Command.run, runMerge]
    refine command_bind_of_eq_error ?_
    rw [loadFile_of_read hp hfile, loadAnchors, hundecodable]
    rfl

end Galley
