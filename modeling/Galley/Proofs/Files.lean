import Galley.FileTree
import Galley.Proofs.Pieces
import Mathlib.Tactic

/-!
What the operations on files do to the table of locations.

* `IsName`, `Path.location_div`, `child_inj`: a name at the end of a path is one step down;
* `FileTree.contentAt?`, `FileTree.Unused`: the octets at a location, and locations with nothing at
  them or below;
* `FileTree.get?_put`, `get?_erase`, `get?_eraseBelow`: what a change of the table changes;
* `FileTree.find?_div`: what is in a folder;
* `FileTree.FoldersAdded`, `FoldersOnWay`: a tree is another one with more folders, anywhere or on
  the way of a path;
* `FileTree.makeFolders_onWay`, `makeFolders_isFolder`, `Bare.makeFolders`: making folders adds
  folders on the way only, the wanted one is there afterwards, and nothing but a file can be in the
  way.
-/

namespace Galley

/-! ### Names -/

/-- A text that stands for one step down in a path. -/
structure IsName (t : Text) : Prop where
  ne_nil : t ≠ []
  no_slash : '/' ∉ t
  ne_dot : t ≠ ['.']
  ne_parent : t ≠ Path.parentName

namespace IsName

variable {t u : Text}

lemma slash_free (h : IsName t) : ∀ c ∈ t, (c == '/') = false := by
  intro c hc
  have hne : c ≠ '/' := fun heq => h.no_slash (heq ▸ hc)
  simpa using hne

lemma startOf_append (h : IsName t) (u : Text) : Path.startOf (t ++ u) = .current := by
  cases t with
  | nil => exact absurd rfl h.ne_nil
  | cons c cs =>
      have hc := h.slash_free c List.mem_cons_self
      simp [Path.startOf, hc]

/-- A name is a path of one step. -/
lemma ofText (h : IsName t) : Path.ofText t = ⟨.current, [t]⟩ := by
  have hstart := h.startOf_append []
  rw [List.append_nil] at hstart
  have hnames : Path.namesOf t = [t] := by
    rw [Path.namesOf, splitAt_of_forall h.slash_free]
    simp [h.ne_nil, h.ne_dot]
  rw [Path.ofText, hstart, hnames]

/-- Two names with a slash in between are a path of two steps. -/
lemma ofText_slash (h : IsName t) (h' : IsName u) :
    Path.ofText (t ++ '/' :: u) = ⟨.current, [t, u]⟩ := by
  have hnames : Path.namesOf (t ++ '/' :: u) = [t, u] := by
    rw [Path.namesOf, splitAt_append_cons rfl, splitAt_of_forall h.slash_free,
      splitAt_of_forall h'.slash_free]
    simp [h.ne_nil, h.ne_dot, h'.ne_nil, h'.ne_dot]
  rw [Path.ofText, h.startOf_append, hnames]

end IsName

namespace Path

variable {t u : Text}

lemma div_name (h : IsName t) (p : Path) : p / t = ⟨p.start, p.names ++ [t]⟩ := by
  change p.join (ofText t) = _
  rw [h.ofText]
  rfl

lemma parent_div (h : IsName t) (p : Path) : (p / t).parent = p := by
  rw [div_name h, parent, List.dropLast_concat]

/-- A name at the end of a path is one step down. -/
lemma location_div (h : IsName t) (p : Path) (here : Location) :
    (p / t).location here = p.location here ++ [t] := by
  rw [div_name h, location, List.foldl_append, List.foldl_cons, List.foldl_nil, step,
    if_neg h.ne_parent]
  rfl

lemma div_slash (h : IsName t) (h' : IsName u) (p : Path) : p / (t ++ '/' :: u) = p / t / u := by
  rw [div_name h', div_name h]
  change p.join (ofText (t ++ '/' :: u)) = _
  rw [h.ofText_slash h', List.append_assoc]
  rfl

/-- A path goes through a location or ends there. -/
def Passes (p : Path) (here l : Location) : Prop :=
  ∃ names, names <+: p.names ∧ location here ⟨p.start, names⟩ = l

lemma passes_end (p : Path) (here : Location) : p.Passes here (p.location here) :=
  ⟨p.names, List.prefix_rfl, rfl⟩

end Path

/-- In one folder, different names are different places. -/
lemma child_inj {l : Location} {name name' : Text} (h : l ++ [name] = l ++ [name']) :
    name = name' :=
  (List.cons.inj (List.append_cancel_left h)).1

namespace FileTree

variable {t t' t'' : FileTree} {p : Path} {l k : Location}

/-! ### The table -/

lemma lookup_filter (q : Location → Bool) (nodes : List (Location × Node)) (l : Location) :
    (nodes.filter fun entry => q entry.1).lookup l = if q l then nodes.lookup l else none := by
  induction nodes with
  | nil => simp
  | cons entry nodes ih =>
      obtain ⟨k, node⟩ := entry
      by_cases hk : l = k
      · subst hk
        cases hq : q l <;> simp [hq, ih]
      · have hbeq : (l == k) = false := beq_eq_false_iff_ne.mpr hk
        cases hq : q k <;> simp [List.lookup_cons, hq, hbeq, ih]

lemma get?_erase (t : FileTree) (l k : Location) :
    (t.erase l).get? k = if k = [] then some .folder else if k = l then none else t.get? k := by
  rw [get?, get?, erase]
  dsimp only
  rw [lookup_filter (fun k => decide (k ≠ l))]
  split_ifs <;> simp_all

lemma get?_put (t : FileTree) (l : Location) (node : Node) (k : Location) :
    (t.put l node).get? k =
      if k = [] then some .folder else if k = l then some node else t.get? k := by
  by_cases hnil : k = []
  · rw [if_pos hnil, get?, if_pos hnil]
  · have herase := get?_erase t l k
    rw [get?, if_neg hnil, if_neg hnil] at herase
    rw [if_neg hnil, get?, if_neg hnil, put, List.lookup_cons]
    by_cases hk : k = l
    · simp [hk]
    · rw [if_neg hk] at herase ⊢
      rw [beq_eq_false_iff_ne.mpr hk]
      exact herase

lemma get?_eraseBelow (t : FileTree) (l k : Location) :
    (t.eraseBelow l).get? k =
      if k = [] then some .folder else if l <+: k then none else t.get? k := by
  rw [get?, get?, eraseBelow]
  dsimp only
  rw [lookup_filter (fun k => !l.isPrefixOf k)]
  by_cases hl : l <+: k
  · have hbool : l.isPrefixOf k = true := List.isPrefixOf_iff_prefix.mpr hl
    simp [hl, hbool]
  · have hbool : l.isPrefixOf k = false :=
      Bool.eq_false_iff.mpr fun h => hl (List.isPrefixOf_iff_prefix.mp h)
    rw [if_neg hl, hbool]
    split_ifs <;> simp_all

lemma get?_put_of_ne {node : Node} (h : k ≠ l) : (t.put l node).get? k = t.get? k := by
  rw [get?_put, if_neg h]
  split_ifs with hnil
  · rw [hnil]; rfl
  · rfl

lemma get?_put_self {node : Node} (h : l ≠ []) : (t.put l node).get? l = some node := by
  rw [get?_put, if_neg h, if_pos rfl]

lemma get?_erase_of_ne (h : k ≠ l) : (t.erase l).get? k = t.get? k := by
  rw [get?_erase, if_neg h]
  split_ifs with hnil
  · rw [hnil]; rfl
  · rfl

lemma get?_eraseBelow_of_not (h : ¬ l <+: k) : (t.eraseBelow l).get? k = t.get? k := by
  rw [get?_eraseBelow, if_neg h]
  split_ifs with hnil
  · rw [hnil]; rfl
  · rfl

/-- The root is always there. -/
lemma ne_nil_of_get? (h : t.get? l = none) : l ≠ [] := by
  rintro rfl
  cases h

/-- A new member of the table that is taken out again leaves nothing behind. -/
lemma get?_erase_put {node : Node} (h : t.get? l = none) (k : Location) :
    ((t.put l node).erase l).get? k = t.get? k := by
  by_cases hk : k = l
  · rw [hk, get?_erase, if_neg (ne_nil_of_get? h), if_pos rfl, h]
  · rw [get?_erase_of_ne hk, get?_put_of_ne hk]

/-- Of two nodes at one place the later one counts. -/
lemma put_put (t : FileTree) (l : Location) (node node' : Node) :
    (t.put l node).put l node' = t.put l node' := by
  simp [put, erase]

@[simp]
lemma put_current (t : FileTree) (l : Location) (node : Node) :
    (t.put l node).current = t.current := rfl

/-- The octets of the file at a location. -/
def contentAt? (t : FileTree) (l : Location) : Option Octets :=
  match t.get? l with
  | some (.file content _) => some content
  | _ => none

lemma contentAt?_congr (h : t'.get? l = t.get? l) : t'.contentAt? l = t.contentAt? l := by
  rw [contentAt?, contentAt?, h]

lemma contentAt?_eq_some {content : Octets} :
    t.contentAt? l = some content ↔ ∃ executable, t.get? l = some (.file content executable) := by
  rw [contentAt?]
  split <;> simp_all

lemma contentAt?_erase_of_ne (h : k ≠ l) : (t.erase l).contentAt? k = t.contentAt? k :=
  contentAt?_congr (get?_erase_of_ne h)

lemma contentAt?_put_of_ne {node : Node} (h : k ≠ l) :
    (t.put l node).contentAt? k = t.contentAt? k :=
  contentAt?_congr (get?_put_of_ne h)

lemma contentAt?_put {content : Octets} {executable : Bool} (h : l ≠ []) :
    (t.put l (.file content executable)).contentAt? l = some content :=
  contentAt?_eq_some.mpr ⟨executable, get?_put_self h⟩

/-- Nothing is at the location or below it. -/
def Unused (t : FileTree) (l : Location) : Prop := ∀ k, l <+: k → t.get? k = none

lemma Unused.ne_nil (h : t.Unused l) : l ≠ [] := ne_nil_of_get? (h l List.prefix_rfl)

lemma unused_eraseBelow (t : FileTree) (h : l ≠ []) : (t.eraseBelow l).Unused l := by
  intro k hk
  have hnil : k ≠ [] := fun hnil => h (List.prefix_nil.mp (hnil ▸ hk))
  rw [get?_eraseBelow, if_neg hnil, if_pos hk]

lemma mem_of_get? {node : Node} (hl : l ≠ []) (h : t.get? l = some node) :
    l ∈ t.nodes.map Prod.fst := by
  rw [get?, if_neg hl] at h
  obtain ⟨before, after, heq, -⟩ := List.lookup_eq_some_iff.mp h
  simp [heq]

/-- A location that the table is free of is unused. -/
lemma unused_of_isFree (hl : l ≠ []) (h : t.isFree l = true) : t.Unused l := by
  intro k hk
  by_contra hsome
  obtain ⟨node, hnode⟩ := Option.ne_none_iff_exists'.mp hsome
  have hkne : k ≠ [] := fun hnil => hl (List.prefix_nil.mp (hnil ▸ hk))
  obtain ⟨entry, hentry, rfl⟩ := List.mem_map.mp (mem_of_get? hkne hnode)
  have hfree := List.all_eq_true.mp h entry hentry
  rw [List.isPrefixOf_iff_prefix.mpr hk] at hfree
  exact absurd hfree (by simp)

/-! ### Paths -/

lemma follow_append (t : FileTree) (here : Location) (names names' : List Text) :
    t.follow here (names ++ names') = (t.follow here names).bind fun l => t.follow l names' := by
  induction names generalizing here with
  | nil => rfl
  | cons name names ih =>
      rw [List.cons_append, follow, follow]
      split
      · exact ih _
      · rfl
      · rfl

lemma eq_of_follow {here : Location} {names : List Text} (h : t.follow here names = .ok l) :
    l = names.foldl Path.step here := by
  induction names generalizing here with
  | nil => exact (Except.ok.inj h).symm
  | cons name names ih =>
      rw [follow] at h
      split at h
      · exact ih h
      · cases h
      · cases h

/-- Where a path leads to does not depend on what is on the way. -/
lemma eq_of_locate (h : t.locate p = .ok l) : l = p.location t.current := eq_of_follow h

lemma locate_div {x : Text} (hx : IsName x) (t : FileTree) (p : Path) :
    t.locate (p / x) = (t.locate p).bind fun l => t.follow l [x] := by
  rw [locate, Path.div_name hx]
  exact follow_append _ _ _ _

lemma isFolder_iff :
    t.isFolder p = true ↔
      t.locate p = .ok (p.location t.current) ∧ t.get? (p.location t.current) = some .folder := by
  rw [isFolder, find?, beq_iff_eq]
  constructor
  · intro h
    cases hl : t.locate p with
    | error e => rw [hl] at h; cases h
    | ok l =>
        rw [hl] at h
        obtain rfl := eq_of_locate hl
        exact ⟨rfl, h⟩
  · rintro ⟨hl, h⟩
    rw [hl]
    exact h

/-- A path into a folder leads to what the folder holds. -/
lemma locate_div_of_isFolder {x : Text} (hx : IsName x) (h : t.isFolder p = true) :
    t.locate (p / x) = .ok ((p / x).location t.current) := by
  obtain ⟨hl, hget⟩ := isFolder_iff.mp h
  rw [locate_div hx, hl, Path.location_div hx, Except.bind, follow, hget]
  exact congrArg Except.ok (if_neg hx.ne_parent)

/-- A path goes through the folder that it leads into. -/
lemma isFolder_of_locate_div {x : Text} (hx : IsName x) (h : t.locate (p / x) = .ok l) :
    t.isFolder p = true := by
  rw [locate_div hx] at h
  cases hl : t.locate p with
  | error e => rw [hl] at h; cases h
  | ok k =>
      rw [hl, Except.bind, follow] at h
      split at h
      · obtain rfl := eq_of_locate hl
        exact isFolder_iff.mpr ⟨hl, by assumption⟩
      · cases h
      · cases h

/-- A path to a folder goes through folders. -/
lemma isFolder_of_prefix {start : PathStart} {names names' : List Text}
    (h : t.isFolder ⟨start, names⟩ = true) (hbegin : names' <+: names) :
    t.isFolder ⟨start, names'⟩ = true := by
  obtain ⟨rest, rfl⟩ := hbegin
  cases rest with
  | nil => rwa [List.append_nil] at h
  | cons name rest =>
      have hl := (isFolder_iff.mp h).1
      rw [locate, follow_append] at hl
      cases hmid : t.follow (Path.origin t.current ⟨start, names' ++ name :: rest⟩) names' with
      | error e => rw [hmid] at hl; cases hl
      | ok k =>
          rw [hmid, Except.bind, follow] at hl
          split at hl
          · rename_i hfolder
            have hlocate : t.locate ⟨start, names'⟩ = .ok k := hmid
            obtain rfl := eq_of_locate hlocate
            exact isFolder_iff.mpr ⟨hlocate, hfolder⟩
          · cases hl
          · cases hl

/-- What a path into a folder leads to. -/
lemma find?_div {x : Text} (hx : IsName x) (t : FileTree) (p : Path) :
    t.find? (p / x) =
      if t.isFolder p then t.get? ((p / x).location t.current) else none := by
  split_ifs with h
  · rw [find?, locate_div_of_isFolder hx h]
  · rw [find?]
    split
    · rename_i l hl
      exact absurd (isFolder_of_locate_div hx hl) h
    · rfl

lemma isFile_iff : t.isFile p = true ↔
    t.locate p = .ok (p.location t.current) ∧ t.contentAt? (p.location t.current) ≠ none := by
  rw [isFile, find?, contentAt?]
  cases hl : t.locate p with
  | error e => simp
  | ok l =>
      obtain rfl := eq_of_locate hl
      simp only [true_and]
      split <;> simp_all

/-- There is a file at the end of a path into a folder if the folder holds one. -/
lemma isFile_div {x : Text} (hx : IsName x) (h : t.isFolder p = true) :
    t.isFile (p / x) = (t.contentAt? ((p / x).location t.current)).isSome := by
  rw [Bool.eq_iff_iff, isFile_iff, locate_div_of_isFolder hx h, Option.isSome_iff_ne_none]
  simp

lemma isPresent_div {x : Text} (hx : IsName x) (h : t.isFolder p = true) :
    t.isPresent (p / x) = (t.get? ((p / x).location t.current)).isSome := by
  rw [isPresent, find?_div hx, if_pos h]

lemma read_eq_ok {content : Octets} : t.read p = .ok content ↔
    t.locate p = .ok (p.location t.current) ∧
      t.contentAt? (p.location t.current) = some content := by
  rw [read, contentAt?]
  cases hl : t.locate p with
  | error e => simp [bind, Except.bind]
  | ok l =>
      obtain rfl := eq_of_locate hl
      simp only [bind, Except.bind, true_and]
      split <;> simp_all

/-- What is read at the end of a path into a folder is what the folder holds. -/
lemma read_div {x : Text} (hx : IsName x) (h : t.isFolder p = true) :
    t.read (p / x) =
      match t.get? ((p / x).location t.current) with
      | some (.file content _) => .ok content
      | some .folder => .error .isFolder
      | none => .error .notFound := by
  rw [read, locate_div_of_isFolder hx h]
  rfl

/-! ### Changes -/

lemma fileOver_eq (old? : Option Node) (content : Octets) :
    ∃ executable, fileOver old? content = .file content executable := by
  unfold fileOver
  split <;> exact ⟨_, rfl⟩

lemma write_of_locate {content : Octets} (hl : t.locate p = .ok l)
    (h : t.get? l ≠ some .folder) :
    t.write p content = .ok (t.put l (fileOver (t.get? l) content)) := by
  rw [write, hl]
  simp only [bind, Except.bind]

lemma write_eq_ok {content : Octets} (h : t.write p content = .ok t') :
    ∃ l, t.locate p = .ok l ∧ t.get? l ≠ some .folder ∧
      t' = t.put l (fileOver (t.get? l) content) := by
  rw [write] at h
  cases hl : t.locate p with
  | error e => rw [hl] at h; cases h
  | ok l =>
      rw [hl] at h
      simp only [bind, Except.bind] at h
      split at h
      · cases h
      · exact ⟨l, rfl, by assumption, (Except.ok.inj h).symm⟩

lemma remove_eq_ok (h : t.remove p = .ok t') :
    ∃ l, t.locate p = .ok l ∧ t.contentAt? l ≠ none ∧ t' = t.erase l := by
  rw [remove] at h
  cases hl : t.locate p with
  | error e => rw [hl] at h; cases h
  | ok l =>
      rw [hl] at h
      simp only [bind, Except.bind] at h
      split at h
      · rename_i hfile
        exact ⟨l, rfl, by simp [contentAt?, hfile], (Except.ok.inj h).symm⟩
      · cases h
      · cases h

lemma remove_of_locate (hl : t.locate p = .ok l) (h : t.contentAt? l ≠ none) :
    t.remove p = .ok (t.erase l) := by
  obtain ⟨content, hcontent⟩ := Option.ne_none_iff_exists'.mp h
  obtain ⟨executable, hfile⟩ := contentAt?_eq_some.mp hcontent
  rw [remove, hl]
  simp only [bind, Except.bind, hfile]

/-- A new file in a folder. -/
lemma write_div {x : Text} (hx : IsName x) (h : t.isFolder p = true)
    (hnone : t.get? ((p / x).location t.current) = none) (content : Octets) :
    t.write (p / x) content = .ok (t.put ((p / x).location t.current) (.file content false)) := by
  rw [write_of_locate (locate_div_of_isFolder hx h), hnone]
  · rfl
  · rw [hnone]
    exact fun heq => nomatch heq

lemma removeTree_of_isFolder (h : t.isFolder p = true) :
    t.removeTree p = t.eraseBelow (p.location t.current) := by
  obtain ⟨hlocate, hget⟩ := isFolder_iff.mp h
  rw [removeTree, hlocate]
  exact if_pos hget

lemma makeFolder_of_locate (hl : t.locate p = .ok l) (h : t.get? l = none) :
    t.makeFolder p = .ok (t.put l .folder) := by
  rw [makeFolder, hl]
  simp only [bind, Except.bind, h]

lemma makeFolder_eq_ok (h : t.makeFolder p = .ok t') :
    ∃ l, t.locate p = .ok l ∧ t.get? l = none ∧ t' = t.put l .folder := by
  rw [makeFolder] at h
  cases hl : t.locate p with
  | error e => rw [hl] at h; cases h
  | ok l =>
      rw [hl] at h
      simp only [bind, Except.bind] at h
      split at h
      · cases h
      · exact ⟨l, rfl, by assumption, (Except.ok.inj h).symm⟩

/-! ### Trees with the same folders -/

/-- The folders that were there are still there. -/
structure FoldersKept (t t' : FileTree) : Prop where
  current : t'.current = t.current
  folder : ∀ {l}, t.get? l = some .folder → t'.get? l = some .folder

namespace FoldersKept

lemma refl (t : FileTree) : FoldersKept t t := ⟨rfl, id⟩

lemma trans (h : FoldersKept t t') (h' : FoldersKept t' t'') : FoldersKept t t'' :=
  ⟨h'.current.trans h.current, fun hl => h'.folder (h.folder hl)⟩

lemma follow (h : FoldersKept t t') {here : Location} {names : List Text}
    (hl : t.follow here names = .ok l) : t'.follow here names = .ok l := by
  induction names generalizing here with
  | nil => exact hl
  | cons name names ih =>
      rw [FileTree.follow] at hl ⊢
      split at hl
      · rename_i hfolder
        rw [h.folder hfolder]
        exact ih hl
      · cases hl
      · cases hl

/-- A path leads where it led before. -/
lemma locate (h : FoldersKept t t') (hl : t.locate p = .ok l) : t'.locate p = .ok l := by
  rw [FileTree.locate, h.current]
  exact h.follow hl

lemma isFolder (h : FoldersKept t t') (hp : t.isFolder p = true) : t'.isFolder p = true := by
  obtain ⟨hl, hfolder⟩ := isFolder_iff.mp hp
  rw [isFolder_iff, h.current]
  exact ⟨h.locate hl, h.folder hfolder⟩

/-- A change where no folder is keeps the folders. -/
lemma put (h : t.get? l ≠ some .folder) (node : Node) : FoldersKept t (t.put l node) := by
  refine ⟨rfl, fun {k} hk => ?_⟩
  rw [get?_put_of_ne, hk]
  rintro rfl
  exact h hk

end FoldersKept

/-! ### Trees with more in them -/

/-- Everything that was there is still there, as it was. -/
structure Kept (t t' : FileTree) : Prop where
  current : t'.current = t.current
  get? : ∀ {l node}, t.get? l = some node → t'.get? l = some node

lemma Kept.refl (t : FileTree) : Kept t t := ⟨rfl, id⟩

lemma Kept.trans (h : Kept t t') (h' : Kept t' t'') : Kept t t'' :=
  ⟨h'.current.trans h.current, fun hl => h'.get? (h.get? hl)⟩

lemma Kept.unused (h : Kept t t') (hl : t'.Unused l) : t.Unused l := by
  intro k hk
  by_contra hsome
  obtain ⟨node, hnode⟩ := Option.ne_none_iff_exists'.mp hsome
  have hkept := h.get? hnode
  rw [hl k hk] at hkept
  cases hkept

lemma Kept.content (h : Kept t t') {content : Octets} (hl : t.contentAt? l = some content) :
    t'.contentAt? l = some content := by
  obtain ⟨executable, hfile⟩ := contentAt?_eq_some.mp hl
  exact contentAt?_eq_some.mpr ⟨executable, h.get? hfile⟩

lemma Kept.folders (h : Kept t t') : FoldersKept t t' := ⟨h.current, h.get?⟩

lemma Kept.locate (h : Kept t t') (hl : t.locate p = .ok l) : t'.locate p = .ok l :=
  h.folders.locate hl

lemma Kept.isFolder (h : Kept t t') (hp : t.isFolder p = true) : t'.isFolder p = true :=
  h.folders.isFolder hp

lemma kept_put {node : Node} (h : t.get? l = none) : Kept t (t.put l node) := by
  refine ⟨rfl, fun {k _} hk => ?_⟩
  rw [get?_put_of_ne, hk]
  rintro rfl
  rw [h] at hk
  cases hk

/-- A new folder is there. -/
lemma isFolder_put (hl : t.locate p = .ok l) (h : t.get? l = none) :
    (t.put l .folder).isFolder p = true := by
  obtain rfl := eq_of_locate hl
  exact isFolder_iff.mpr ⟨(kept_put h).locate hl, get?_put_self (ne_nil_of_get? h)⟩

/-- A file that was just made is written once more. -/
lemma rewrite_div {x : Text} (hx : IsName x) (h : t.isFolder p = true)
    (hnone : t.get? ((p / x).location t.current) = none) (old content : Octets) :
    (t.put ((p / x).location t.current) (.file old false)).write (p / x) content =
      .ok (t.put ((p / x).location t.current) (.file content false)) := by
  set t' := t.put ((p / x).location t.current) (.file old false) with ht'
  have hkept : Kept t t' := kept_put hnone
  have hfile : t'.get? ((p / x).location t.current) = some (.file old false) :=
    get?_put_self (ne_nil_of_get? hnone)
  rw [write_of_locate (hkept.locate (locate_div_of_isFolder hx h))
    (by rw [hfile]; exact fun heq => nomatch heq), hfile, ht', put_put]
  rfl

/-- A new file takes another name in its folder. -/
lemma move_div {x y : Text} (hx : IsName x) (hy : IsName y) (h : t.isFolder p = true)
    (hnone : t.get? ((p / x).location t.current) = none)
    (hnone' : t.get? ((p / y).location t.current) = none) (content : Octets) :
    (t.put ((p / x).location t.current) (.file content false)).move (p / x) (p / y) =
      .ok (((t.put ((p / x).location t.current) (.file content false)).erase
        ((p / x).location t.current)).put ((p / y).location t.current) (.file content false)) := by
  set l := (p / x).location t.current with hl
  set t' := t.put l (.file content false) with ht'
  have hkept : Kept t t' := kept_put hnone
  have hlocate := hkept.locate (locate_div_of_isFolder hx h)
  have hcontent : t'.contentAt? l = some content := contentAt?_put (ne_nil_of_get? hnone)
  have hread : t'.read (p / x) = .ok content := read_eq_ok.mpr ⟨hlocate, hcontent⟩
  have hremove : t'.remove (p / x) = .ok (t'.erase l) :=
    remove_of_locate hlocate (by rw [hcontent]; exact Option.some_ne_none _)
  -- without the file everything is as before
  have herase : ∀ k, (t'.erase l).get? k = t.get? k := get?_erase_put hnone
  have hkept' : Kept t (t'.erase l) := ⟨rfl, fun hk => by rw [herase, hk]⟩
  have hwrite := write_div hy (hkept'.isFolder h) (by rw [herase]; exact hnone') content
  rw [move, hread]
  simp only [bind, Except.bind, hremove]
  exact hwrite

/-- A tree is another one with more folders. -/
structure FoldersAdded (t t' : FileTree) : Prop extends Kept t t' where
  fresh : ∀ {l node}, t.get? l = none → t'.get? l = some node → node = .folder

lemma FoldersAdded.refl (t : FileTree) : FoldersAdded t t :=
  ⟨Kept.refl t, fun h h' => by rw [h] at h'; cases h'⟩

lemma FoldersAdded.trans (h : FoldersAdded t t') (h' : FoldersAdded t' t'') :
    FoldersAdded t t'' := by
  refine ⟨h.toKept.trans h'.toKept, fun {l node} hl hl'' => ?_⟩
  cases hl' : t'.get? l with
  | none => exact h'.fresh hl' hl''
  | some n =>
      obtain rfl := h.fresh hl hl'
      rw [h'.get? hl'] at hl''
      exact (Option.some.inj hl'').symm

lemma FoldersAdded.contentAt? (h : FoldersAdded t t') (l : Location) :
    t'.contentAt? l = t.contentAt? l := by
  cases hl : t.get? l with
  | some node => exact contentAt?_congr ((h.get? hl).trans hl.symm)
  | none =>
      cases hl' : t'.get? l with
      | none => rw [FileTree.contentAt?, FileTree.contentAt?, hl, hl']
      | some node =>
          obtain rfl := h.fresh hl hl'
          rw [FileTree.contentAt?, FileTree.contentAt?, hl, hl']

lemma foldersAdded_put (h : t.get? l = none) : FoldersAdded t (t.put l .folder) := by
  refine ⟨kept_put h, fun {k node} hk hk' => ?_⟩
  by_cases hkl : k = l
  · rw [hkl, get?_put_self (ne_nil_of_get? h)] at hk'
    exact (Option.some.inj hk').symm
  · rw [get?_put_of_ne hkl, hk] at hk'
    cases hk'

/-- A tree is another one with more folders, all of them on the way of a path. -/
structure FoldersOnWay (p : Path) (t t' : FileTree) : Prop extends FoldersAdded t t' where
  way : ∀ {l}, t.get? l = none → t'.get? l ≠ none → p.Passes t.current l

lemma FoldersOnWay.refl (p : Path) (t : FileTree) : FoldersOnWay p t t :=
  ⟨FoldersAdded.refl t, fun h h' => absurd h h'⟩

lemma FoldersOnWay.trans (h : FoldersOnWay p t t') (h' : FoldersOnWay p t' t'') :
    FoldersOnWay p t t'' := by
  refine ⟨h.toFoldersAdded.trans h'.toFoldersAdded, fun {l} hl hl'' => ?_⟩
  by_cases hl' : t'.get? l = none
  · have hway := h'.way hl' hl''
    rwa [h.current] at hway
  · exact h.way hl hl'

/-- The way of a path goes on from the way of its beginning. -/
lemma FoldersOnWay.mono {start : PathStart} {names names' : List Text}
    (h : FoldersOnWay ⟨start, names⟩ t t') (hbegin : names <+: names') :
    FoldersOnWay ⟨start, names'⟩ t t' := by
  refine ⟨h.toFoldersAdded, fun hl hl' => ?_⟩
  obtain ⟨way, hway, heq⟩ := h.way hl hl'
  exact ⟨way, hway.trans hbegin, heq⟩

lemma foldersOnWay_put (h : t.get? (p.location t.current) = none) :
    FoldersOnWay p t (t.put (p.location t.current) .folder) := by
  refine ⟨foldersAdded_put h, fun {k} hk hk' => ?_⟩
  by_cases hkl : k = p.location t.current
  · exact hkl ▸ p.passes_end t.current
  · rw [get?_put_of_ne hkl] at hk'
    exact absurd hk hk'

/-! ### Making folders -/

/-- The tree that a change leaves behind, whether it fails or not. -/
def afterResult : EStateM.Result FileError FileTree Unit → FileTree
  | .ok _ tree => tree
  | .error _ tree => tree

lemma ensureFolder_onWay (h : t.ensureFolder p = .ok t') : FoldersOnWay p t t' := by
  rw [ensureFolder] at h
  split at h
  · rename_i tree htree
    obtain rfl := Except.ok.inj h
    obtain ⟨l, hl, hnone, rfl⟩ := makeFolder_eq_ok htree
    obtain rfl := eq_of_locate hl
    exact foldersOnWay_put hnone
  · split_ifs at h
    obtain rfl := Except.ok.inj h
    exact FoldersOnWay.refl _ _

lemma ensureFolder_isFolder (h : t.ensureFolder p = .ok t') : t'.isFolder p = true := by
  rw [ensureFolder] at h
  split at h
  · rename_i tree htree
    obtain rfl := Except.ok.inj h
    obtain ⟨l, hl, hnone, rfl⟩ := makeFolder_eq_ok htree
    exact isFolder_put hl hnone
  · split_ifs at h with hfolder
    obtain rfl := Except.ok.inj h
    exact hfolder

lemma ensureFolder_of_isFolder (h : t.isFolder p = true) : t.ensureFolder p = .ok t := by
  obtain ⟨hl, hfolder⟩ := isFolder_iff.mp h
  have hmake : t.makeFolder p = .error .occupied := by
    rw [makeFolder, hl]
    simp only [bind, Except.bind, hfolder]
  rw [ensureFolder, hmake]
  simp [h]

lemma settle_ensureFolder_onWay (t : FileTree) (p : Path) :
    FoldersOnWay p t (afterResult (t.settle (t.ensureFolder p))) := by
  cases h : t.ensureFolder p with
  | ok tree => exact ensureFolder_onWay h
  | error e => exact FoldersOnWay.refl p t

lemma settle_eq_ok {change : Except FileError FileTree} (h : t.settle change = .ok () t') :
    change = .ok t' := by
  cases change with
  | ok tree => cases h; rfl
  | error e => cases h

lemma makeFoldersAux_onWay (start : PathStart) (names : List Text) (t : FileTree) :
    FoldersOnWay ⟨start, names.reverse⟩ t (afterResult (makeFoldersAux start names t)) := by
  induction names generalizing t with
  | nil => exact settle_ensureFolder_onWay t _
  | cons name above ih =>
      rw [makeFoldersAux]
      split
      · have hprefix : above.reverse <+: (name :: above).reverse := by
          rw [List.reverse_cons]
          exact List.prefix_append _ _
        have habove := (ih t).mono hprefix
        split
        · rename_i tree htree
          rw [htree] at habove
          exact habove.trans (settle_ensureFolder_onWay tree _)
        · rename_i e tree htree
          rwa [htree] at habove
      · exact settle_ensureFolder_onWay t _

/-- Making folders adds folders on the way only, even if it fails. -/
lemma makeFolders_onWay (t : FileTree) (p : Path) :
    FoldersOnWay p t (afterResult (t.makeFolders p)) := by
  have honWay := makeFoldersAux_onWay p.start p.names.reverse t
  rwa [List.reverse_reverse] at honWay

lemma makeFolders_added (t : FileTree) (p : Path) :
    FoldersAdded t (afterResult (t.makeFolders p)) := (makeFolders_onWay t p).toFoldersAdded

lemma onWay_of_makeFolders (h : t.makeFolders p = .ok () t') : FoldersOnWay p t t' := by
  have honWay := makeFolders_onWay t p
  rwa [h] at honWay

lemma added_of_makeFolders (h : t.makeFolders p = .ok () t') : FoldersAdded t t' :=
  (onWay_of_makeFolders h).toFoldersAdded

lemma makeFoldersAux_isFolder {start : PathStart} {names : List Text}
    (h : makeFoldersAux start names t = .ok () t') :
    t'.isFolder ⟨start, names.reverse⟩ = true := by
  cases names with
  | nil => exact ensureFolder_isFolder (settle_eq_ok h)
  | cons name above =>
      rw [makeFoldersAux] at h
      split at h
      · split at h
        · exact ensureFolder_isFolder (settle_eq_ok h)
        · cases h
      · exact ensureFolder_isFolder (settle_eq_ok h)

/-- The wanted folder is there afterwards. -/
lemma makeFolders_isFolder (h : t.makeFolders p = .ok () t') : t'.isFolder p = true := by
  have hfolder := makeFoldersAux_isFolder h
  rwa [List.reverse_reverse] at hfolder

/-- Only the last folder on the way is made where the ones above are there. -/
lemma makeFolders_eq_settle (h : t.ensureFolder p ≠ .error .notFound) :
    t.makeFolders p = t.settle (t.ensureFolder p) := by
  rw [makeFolders]
  cases hnames : p.names.reverse with
  | nil =>
      have hp : p = ⟨p.start, []⟩ := by
        rw [← List.reverse_eq_nil_iff.mp hnames]
      rw [makeFoldersAux, ← hp]
  | cons name above =>
      have hp : p = ⟨p.start, (name :: above).reverse⟩ := by
        rw [← hnames, List.reverse_reverse]
      rw [makeFoldersAux, ← hp]
      split
      · contradiction
      · rfl

lemma makeFolders_of_ensureFolder {tree : FileTree} (h : t.ensureFolder p = .ok tree) :
    t.makeFolders p = .ok () tree := by
  rw [makeFolders_eq_settle (by rw [h]; exact fun heq => nomatch heq), h]
  rfl

lemma makeFolders_of_isFolder (h : t.isFolder p = true) : t.makeFolders p = .ok () t :=
  makeFolders_of_ensureFolder (ensureFolder_of_isFolder h)

/-- In a folder that is there, making a folder changes its place at most. -/
lemma makeFolders_div {x : Text} (hx : IsName x) (h : t.isFolder p = true) :
    afterResult (t.makeFolders (p / x)) = t ∨
      t.get? ((p / x).location t.current) = none ∧
        afterResult (t.makeFolders (p / x)) = t.put ((p / x).location t.current) .folder := by
  have hl := locate_div_of_isFolder hx h
  cases hnode : t.get? ((p / x).location t.current) with
  | none =>
      have hensure : t.ensureFolder (p / x) = .ok (t.put ((p / x).location t.current) .folder) := by
        rw [ensureFolder, makeFolder_of_locate hl hnode]
      rw [makeFolders_of_ensureFolder hensure]
      exact Or.inr ⟨rfl, rfl⟩
  | some node =>
      refine Or.inl ?_
      by_cases hfolder : t.isFolder (p / x) = true
      · rw [makeFolders_of_isFolder hfolder]
        rfl
      · have hensure : t.ensureFolder (p / x) = .error .occupied := by
          rw [ensureFolder, makeFolder, hl]
          simp only [bind, Except.bind, hnode]
          exact if_neg hfolder
        rw [makeFolders_eq_settle (by rw [hensure]; exact fun heq => nomatch heq), hensure]
        rfl

/-! ### Trees without files -/

/-- There are folders only, and the current one is there. -/
structure Bare (t : FileTree) : Prop where
  current : t.get? t.current = some .folder
  no_content : ∀ l, t.contentAt? l = none
  above : ∀ l, t.get? l = some .folder → t.get? l.dropLast = some .folder

namespace Bare

/-- The tree with nothing in it, seen from its root. -/
lemma empty : Bare ⟨[], []⟩ := by
  have hget : ∀ l, FileTree.get? ⟨[], []⟩ l = if l = [] then some .folder else none := fun l => rfl
  refine ⟨rfl, fun l => ?_, fun l hl => ?_⟩
  · rw [contentAt?, hget]
    split_ifs <;> rfl
  · rw [hget] at hl
    split_ifs at hl with hnil
    rw [hnil]
    rfl

lemma get?_eq_folder (h : t.Bare) {node : Node} (hl : t.get? l = some node) : node = .folder := by
  cases node with
  | folder => rfl
  | file content executable =>
      have hcontent := contentAt?_eq_some.mpr ⟨executable, hl⟩
      rw [h.no_content] at hcontent
      cases hcontent

lemma isFolder_origin (h : t.Bare) (start : PathStart) : t.isFolder ⟨start, []⟩ = true := by
  refine isFolder_iff.mpr ⟨rfl, ?_⟩
  cases start with
  | current => exact h.current
  | root => rfl
  | doubleRoot => rfl

lemma follow_error (h : t.Bare) {here : Location} {names : List Text} {e : FileError}
    (he : t.follow here names = .error e) : e = .notFound := by
  induction names generalizing here with
  | nil => cases he
  | cons name names ih =>
      rw [follow] at he
      split at he
      · exact ih he
      · rename_i hfile
        cases h.get?_eq_folder hfile
      · exact (Except.error.inj he).symm

/-- Only a missing folder on the way keeps a folder from being there. -/
lemma ensureFolder_error (h : t.Bare) {e : FileError} (he : t.ensureFolder p = .error e) :
    e = .notFound := by
  rw [ensureFolder] at he
  split at he
  · cases he
  · rename_i e' hmake
    split_ifs at he with hfolder
    obtain rfl := Except.error.inj he
    rw [makeFolder] at hmake
    cases hl : t.locate p with
    | error e'' =>
        rw [hl] at hmake
        obtain rfl := Except.error.inj hmake
        exact h.follow_error hl
    | ok l =>
        rw [hl] at hmake
        simp only [bind, Except.bind] at hmake
        split at hmake
        · rename_i node hnode
          obtain rfl := h.get?_eq_folder hnode
          obtain rfl := eq_of_locate hl
          exact absurd (isFolder_iff.mpr ⟨hl, hnode⟩) hfolder
        · cases hmake

/-- A folder stands above the end of a path. -/
lemma above_of_locate (h : t.Bare) {start : PathStart} {names : List Text} {name : Text}
    (hl : t.locate ⟨start, names ++ [name]⟩ = .ok l) (hnone : t.get? l = none) :
    t.get? l.dropLast = some .folder := by
  have happend := follow_append t (Path.origin t.current ⟨start, names⟩) names [name]
  rw [locate] at hl
  change t.follow (Path.origin t.current ⟨start, names⟩) (names ++ [name]) = _ at hl
  rw [happend] at hl
  cases hk : t.follow (Path.origin t.current ⟨start, names⟩) names with
  | error e => rw [hk] at hl; cases hl
  | ok k =>
      rw [hk, Except.bind, follow] at hl
      split at hl
      · rename_i hfolder
        obtain rfl := Except.ok.inj hl
        rw [Path.step] at hnone ⊢
        split_ifs at hnone ⊢
        · rw [h.above k hfolder] at hnone
          cases hnone
        · rwa [List.dropLast_concat]
      · cases hl
      · cases hl

lemma ensureFolder (h : t.Bare) {start : PathStart} {names : List Text}
    (ht : t.ensureFolder ⟨start, names⟩ = .ok t') : t'.Bare := by
  have hadded := ensureFolder_onWay ht
  refine ⟨?_, fun l => (hadded.contentAt? l).trans (h.no_content l), ?_⟩
  · rw [hadded.current]
    exact hadded.get? h.current
  · intro l hl
    rw [FileTree.ensureFolder] at ht
    split at ht
    · rename_i tree htree
      obtain rfl := Except.ok.inj ht
      obtain ⟨k, hk, hnone, rfl⟩ := makeFolder_eq_ok htree
      by_cases hkl : l = k
      · subst hkl
        cases names using List.reverseRecOn with
        | nil => 
            obtain rfl := eq_of_locate hk
            have := (isFolder_iff.mp (h.isFolder_origin start)).2
            rw [hnone] at this
            cases this
        | append_singleton names name =>
            exact hadded.get? (h.above_of_locate hk hnone)
      · rw [get?_put] at hl
        split_ifs at hl with hnil
        · rw [hnil]; rfl
        · exact hadded.get? (h.above l hl)
    · split_ifs at ht
      obtain rfl := Except.ok.inj ht
      exact h.above l hl

/-- Where the folder above is there, a folder can be. -/
lemma exists_ensureFolder (h : t.Bare) {start : PathStart} {names : List Text}
    (hfolder : t.isFolder ⟨start, names⟩ = true) (name : Text) :
    ∃ t', t.ensureFolder ⟨start, names ++ [name]⟩ = .ok t' := by
  obtain ⟨hl, habove⟩ := isFolder_iff.mp hfolder
  set k := Path.location t.current ⟨start, names⟩
  have hlocate : t.locate ⟨start, names ++ [name]⟩ = .ok (Path.step k name) := by
    have happend := follow_append t (Path.origin t.current ⟨start, names⟩) names [name]
    change t.follow (Path.origin t.current ⟨start, names⟩) names = _ at hl
    rw [hl, Except.bind, follow, habove] at happend
    exact happend
  cases hnode : t.get? (Path.step k name) with
  | none =>
      refine ⟨t.put (Path.step k name) .folder, ?_⟩
      rw [FileTree.ensureFolder, makeFolder_of_locate hlocate hnode]
  | some node =>
      obtain rfl := h.get?_eq_folder hnode
      have hk := eq_of_locate hlocate
      exact ⟨t, ensureFolder_of_isFolder (isFolder_iff.mpr ⟨hk ▸ hlocate, hk ▸ hnode⟩)⟩

lemma makeFoldersAux (h : t.Bare) (start : PathStart) (names : List Text) :
    ∃ t', makeFoldersAux start names t = .ok () t' ∧ t'.Bare := by
  induction names generalizing t with
  | nil =>
      rw [FileTree.makeFoldersAux, ensureFolder_of_isFolder (h.isFolder_origin start)]
      exact ⟨t, rfl, h⟩
  | cons name above ih =>
      rw [FileTree.makeFoldersAux]
      cases hp : t.ensureFolder ⟨start, (name :: above).reverse⟩ with
      | ok tree => exact ⟨tree, rfl, h.ensureFolder hp⟩
      | error e =>
          obtain rfl := h.ensureFolder_error hp
          obtain ⟨tree, htree, hbare⟩ := ih h
          have hfolder := makeFoldersAux_isFolder htree
          rw [List.reverse_cons]
          obtain ⟨tree', htree'⟩ := hbare.exists_ensureFolder hfolder name
          simp only [htree, htree']
          exact ⟨tree', rfl, hbare.ensureFolder htree'⟩

/-- Nothing but a file can be in the way of folders. -/
lemma makeFolders (h : t.Bare) (p : Path) : ∃ t', t.makeFolders p = .ok () t' ∧ t'.Bare :=
  h.makeFoldersAux _ _

end Bare

end FileTree

end Galley
