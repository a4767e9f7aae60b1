import Galley.Proofs.Outcomes
import Galley.Proofs.Walks
import Galley.SourceMap.Basic
import Mathlib.Tactic

/-!
What merging means. An anchor gets the first location inside the first value that carries its name
and has a location inside, where values come before the values inside them.

* `FirstLocation`, `Unlocated`: a value has a first location inside, or none;
* `Rendered`: the position that a report gives a name;
* `addPosition_of_wanted`, `addPosition_of_unwanted`: what one value adds to the positions found;
* `addPositions_lookup`: what a run over values adds for one name;
* `merge_meaning`: merging gives every anchor the position of its name.
-/

namespace Galley

open Json (mem_preorder_trans walk_eq)

/-! ### Locations -/

/-- The first location inside a value. -/
def FirstLocation (value : Json) (p : PagePosition) : Prop :=
  ∃ front node behind, value.preorder = front ++ node :: behind ∧
    locationOf? node = .ok (some p) ∧ ∀ other ∈ front, locationOf? other = .ok none

/-- There is no location inside a value. -/
def Unlocated (value : Json) : Prop := ∀ node ∈ value.preorder, locationOf? node = .ok none

lemma findLocation?_eq_some {value : Json} {p : PagePosition} :
    findLocation? value = .ok (some p) ↔ FirstLocation value p := by
  rw [findLocation?, walk_eq]
  exact firstResult?_eq (by simp)

lemma findLocation?_eq_none {value : Json} :
    findLocation? value = .ok none ↔ Unlocated value := by
  rw [findLocation?, walk_eq]
  exact firstResult?_eq_none

/-- The position that a report gives a name: the first location inside the first value that carries
the name as its label and has a location inside. -/
def Rendered (tree : Json) (id : CodeText) (p : PagePosition) : Prop :=
  anchorPrefix <+: id ∧ ∃ front node behind, tree.preorder = front ++ node :: behind ∧
    labelOf? node = some id ∧ FirstLocation node p ∧
    ∀ other ∈ front, labelOf? other = some id → Unlocated other

/-! ### One value -/

/-- A value carries the name of an anchor that has no position yet. -/
def Wanted (found : Positions) (value : Json) (id : CodeText) : Prop :=
  labelOf? value = some id ∧ anchorPrefix <+: id ∧ found.lookup id = none

/-- The position of a name, if there is one. -/
def positionFor (id : CodeText) (p? : Option PagePosition) : Positions :=
  p?.toList.map fun p => (id, p)

lemma lookup_positionFor (name id : CodeText) (p? : Option PagePosition) :
    (positionFor name p?).lookup id = if id = name then p? else none := by
  cases p? with
  | none => simp [positionFor]
  | some p =>
      by_cases hid : id = name
      · simp [positionFor, hid]
      · simp [positionFor, List.lookup_cons, beq_eq_false_iff_ne.mpr hid, hid]

/-- A value with a name that has no position yet adds its first location. -/
lemma addPosition_of_wanted {found : Positions} {value : Json} {id : CodeText}
    (h : Wanted found value id) :
    addPosition found value = (findLocation? value).map fun p? => found ++ positionFor id p? := by
  obtain ⟨hlabel, hprefix, hlookup⟩ := h
  have hskip : ¬ ((!anchorPrefix.isPrefixOf id || (found.lookup id).isSome) = true) := by
    rw [List.isPrefixOf_iff_prefix.mpr hprefix, hlookup]
    decide
  rw [addPosition, hlabel]
  dsimp only
  rw [if_neg hskip]
  cases findLocation? value with
  | error fault => rfl
  | ok p? =>
      cases p? with
      | none => exact congrArg Except.ok (List.append_nil found).symm
      | some p => rfl

/-- Any other value adds nothing. -/
lemma addPosition_of_unwanted {found : Positions} {value : Json}
    (h : ∀ id, ¬ Wanted found value id) : addPosition found value = .ok found := by
  rw [addPosition]
  cases hlabel : labelOf? value with
  | none => rfl
  | some id =>
      dsimp only
      rw [if_pos]
      by_contra hskip
      simp only [Bool.or_eq_true, Bool.not_eq_true', not_or, Bool.not_eq_false,
        Option.not_isSome_iff_eq_none, List.isPrefixOf_iff_prefix] at hskip
      exact h id ⟨hlabel, hskip.1, hskip.2⟩

/-- What a value gives a name that has no position yet. -/
def locationFor? (id : CodeText) (value : Json) : Except NumberFault (Option PagePosition) :=
  if labelOf? value = some id then findLocation? value else .ok none

lemma locationFor?_eq_some {id : CodeText} {value : Json} {p : PagePosition} :
    locationFor? id value = .ok (some p) ↔ labelOf? value = some id ∧ FirstLocation value p := by
  rw [locationFor?]
  split_ifs with hlabel
  · rw [findLocation?_eq_some, and_iff_right hlabel]
  · simp [hlabel]

lemma locationFor?_eq_none {id : CodeText} {value : Json} :
    locationFor? id value = .ok none ↔ (labelOf? value = some id → Unlocated value) := by
  rw [locationFor?]
  split_ifs with hlabel
  · rw [findLocation?_eq_none, forall_prop_of_true hlabel]
  · simp [hlabel]

/-- How the positions grow by one value: a name with a position keeps it, the name of an anchor
without one gets what the value gives it, and other names get nothing. -/
structure Extended (found found' : Positions) (value : Json) : Prop where
  kept : ∀ {id p}, found.lookup id = some p → found'.lookup id = some p
  added : ∀ {id}, anchorPrefix <+: id → found.lookup id = none →
    locationFor? id value = .ok (found'.lookup id)
  others : ∀ {id}, ¬ anchorPrefix <+: id → found'.lookup id = found.lookup id

lemma addPosition_extended {found found' : Positions} {value : Json}
    (h : addPosition found value = .ok found') : Extended found found' value := by
  by_cases hwanted : ∃ name, Wanted found value name
  · obtain ⟨name, hname⟩ := hwanted
    rw [addPosition_of_wanted hname] at h
    cases hfind : findLocation? value with
    | error fault => rw [hfind] at h; cases h
    | ok p? =>
        rw [hfind] at h
        obtain rfl : found ++ positionFor name p? = found' := Except.ok.inj h
        refine ⟨fun hp => ?_, fun {id} hprefix hlookup => ?_, fun {id} hprefix => ?_⟩
        · rw [List.lookup_append, hp, Option.some_or]
        · rw [List.lookup_append, hlookup, Option.none_or, lookup_positionFor, locationFor?,
            hname.1, hfind]
          by_cases hid : id = name
          · rw [if_pos hid, if_pos (congrArg some hid.symm)]
          · rw [if_neg hid, if_neg fun hlabel => hid (Option.some.inj hlabel).symm]
        · have hid : id ≠ name := by
            rintro rfl
            exact hprefix hname.2.1
          rw [List.lookup_append, lookup_positionFor, if_neg hid, Option.or_none]
  · rw [not_exists] at hwanted
    rw [addPosition_of_unwanted hwanted] at h
    obtain rfl : found = found' := Except.ok.inj h
    refine ⟨id, fun {id} hprefix hlookup => ?_, fun _ => rfl⟩
    rw [locationFor?, if_neg, hlookup]
    intro hlabel
    exact hwanted id ⟨hlabel, hprefix, hlookup⟩

/-! ### Many values -/

lemma addPositions_kept {values : List Json} {found found' : Positions}
    (h : addPositions found values = .ok found') {id : CodeText} {p : PagePosition}
    (hp : found.lookup id = some p) : found'.lookup id = some p := by
  induction values generalizing found with
  | nil => rwa [← Except.ok.inj h]
  | cons value values ih =>
      obtain ⟨next, hnext, hrest⟩ := exists_of_bind_eq_ok h
      exact ih hrest ((addPosition_extended hnext).kept hp)

lemma addPositions_others {values : List Json} {found found' : Positions}
    (h : addPositions found values = .ok found') {id : CodeText} (hid : ¬ anchorPrefix <+: id) :
    found'.lookup id = found.lookup id := by
  induction values generalizing found with
  | nil => rw [← Except.ok.inj h]
  | cons value values ih =>
      obtain ⟨next, hnext, hrest⟩ := exists_of_bind_eq_ok h
      rw [ih hrest, (addPosition_extended hnext).others hid]

/-- The name of an anchor without a position gets the first one that one of the values gives it. -/
lemma addPositions_lookup {values : List Json} {found found' : Positions}
    (h : addPositions found values = .ok found') {id : CodeText} (hid : anchorPrefix <+: id)
    (hlookup : found.lookup id = none) :
    firstResult? (locationFor? id) values = .ok (found'.lookup id) := by
  induction values generalizing found with
  | nil => rw [← Except.ok.inj h, hlookup, firstResult?]
  | cons value values ih =>
      obtain ⟨next, hnext, hrest⟩ := exists_of_bind_eq_ok h
      have hvalue := (addPosition_extended hnext).added hid hlookup
      cases hfirst : next.lookup id with
      | none =>
          rw [hfirst] at hvalue
          rw [firstResult?_cons_of_none hvalue]
          exact ih hrest hfirst
      | some p =>
          rw [hfirst] at hvalue
          rw [firstResult?_cons_of_eq hvalue (by simp), addPositions_kept hrest hfirst]

/-! ### Reports -/

/-- The positions of a report are those that it gives names. -/
lemma positionsOf_lookup {tree : Json} {found : Positions} (h : positionsOf tree = .ok found)
    (id : CodeText) (p : PagePosition) : found.lookup id = some p ↔ Rendered tree id p := by
  rw [positionsOf, walk_eq] at h
  by_cases hid : anchorPrefix <+: id
  · have hfirst := addPositions_lookup h hid rfl
    calc found.lookup id = some p
        ↔ firstResult? (locationFor? id) tree.preorder = .ok (some p) := by
          rw [hfirst, Except.ok.injEq]
      _ ↔ ∃ front node behind, tree.preorder = front ++ node :: behind ∧
            locationFor? id node = .ok (some p) ∧
            ∀ other ∈ front, locationFor? id other = .ok none := firstResult?_eq (by simp)
      _ ↔ Rendered tree id p := by
          simp only [locationFor?_eq_some, locationFor?_eq_none, Rendered, hid, true_and, and_assoc]
  · have hnone : found.lookup id = none := addPositions_others h hid
    rw [hnone, Rendered]
    simp [hid]

/-! ### Failures -/

lemma addPosition_fails {found : Positions} {value : Json} :
    Fails (addPosition found value) ↔
      ∃ id, Wanted found value id ∧ Fails (findLocation? value) := by
  by_cases hwanted : ∃ name, Wanted found value name
  · obtain ⟨name, hname⟩ := hwanted
    rw [addPosition_of_wanted hname, fails_map]
    exact ⟨fun h => ⟨name, hname, h⟩, fun ⟨_, _, h⟩ => h⟩
  · rw [addPosition_of_unwanted (not_exists.mp hwanted)]
    exact iff_of_false (not_fails_ok _) fun ⟨id, hid, _⟩ => hwanted ⟨id, hid⟩

/-- A run fails where one value does, behind values that have added their positions. -/
lemma addPositions_fails {values : List Json} {found : Positions} :
    Fails (addPositions found values) ↔
      ∃ front value behind found', values = front ++ value :: behind ∧
        addPositions found front = .ok found' ∧ Fails (addPosition found' value) := by
  constructor
  · intro h
    induction values generalizing found with
    | nil => exact absurd h (not_fails_ok _)
    | cons value values ih =>
        rcases fails_bind.mp h with hvalue | ⟨next, hnext, hrest⟩
        · exact ⟨[], value, values, found, rfl, rfl, hvalue⟩
        · obtain ⟨front, node, behind, found', rfl, hfront, hnode⟩ := ih hrest
          refine ⟨value :: front, node, behind, found', rfl, ?_, hnode⟩
          rw [addPositions, hnext]
          exact hfront
  · rintro ⟨front, value, behind, found', rfl, hfront, hvalue⟩
    induction front generalizing found with
    | nil =>
        obtain rfl : found = found' := Except.ok.inj hfront
        exact fails_bind.mpr (Or.inl hvalue)
    | cons other front ih =>
        obtain ⟨next, hnext, hrest⟩ := exists_of_bind_eq_ok hfront
        exact fails_bind.mpr (Or.inr ⟨next, hnext, ih hrest⟩)

/-- Looking for positions fails if and only if it fails inside a value that carries the name of an
anchor, behind values with this name that have no location. -/
lemma positionsOf_fails {tree : Json} :
    Fails (positionsOf tree) ↔
      ∃ front node behind id, tree.preorder = front ++ node :: behind ∧
        labelOf? node = some id ∧ anchorPrefix <+: id ∧
        (∀ other ∈ front, labelOf? other = some id → Unlocated other) ∧
        Fails (findLocation? node) := by
  rw [positionsOf, walk_eq]
  constructor
  · intro h
    obtain ⟨front, node, behind, found, hsplit, hfront, hnode⟩ := addPositions_fails.mp h
    obtain ⟨id, ⟨hlabel, hprefix, hlookup⟩, hfind⟩ := addPosition_fails.mp hnode
    have hfirst := addPositions_lookup hfront hprefix rfl
    rw [hlookup, firstResult?_eq_none] at hfirst
    exact ⟨front, node, behind, id, hsplit, hlabel, hprefix,
      fun other hother => locationFor?_eq_none.mp (hfirst other hother), hfind⟩
  · rintro ⟨front, node, behind, id, hsplit, hlabel, hprefix, hfront, hfind⟩
    have hnone : firstResult? (locationFor? id) front = .ok none :=
      firstResult?_eq_none.mpr fun other hother => locationFor?_eq_none.mpr (hfront other hother)
    by_cases hrun : Fails (addPositions [] front)
    · obtain ⟨front', value, behind', found, hsplit', hrun', hvalue⟩ := addPositions_fails.mp hrun
      refine addPositions_fails.mpr ⟨front', value, behind' ++ node :: behind, found, ?_, hrun',
        hvalue⟩
      rw [hsplit, hsplit', List.append_assoc, List.cons_append]
    · obtain ⟨found, hfound⟩ := not_fails.mp hrun
      have hlookup : found.lookup id = none :=
        Except.ok.inj ((addPositions_lookup hfound hprefix rfl).symm.trans hnone)
      exact addPositions_fails.mpr ⟨front, node, behind, found, hsplit, hfound,
        addPosition_fails.mpr ⟨id, ⟨hlabel, hprefix, hlookup⟩, hfind⟩⟩

/-- The search for a location fails where one value does, behind values without locations. -/
lemma findLocation?_fails {value : Json} :
    Fails (findLocation? value) ↔
      ∃ front node behind, value.preorder = front ++ node :: behind ∧
        Fails (locationOf? node) ∧ ∀ other ∈ front, locationOf? other = .ok none := by
  rw [findLocation?, walk_eq]
  constructor
  · rintro ⟨fault, h⟩
    obtain ⟨front, node, behind, hsplit, hnode, hfront⟩ := (firstResult?_eq (by simp)).mp h
    exact ⟨front, node, behind, hsplit, ⟨fault, hnode⟩, hfront⟩
  · rintro ⟨front, node, behind, hsplit, ⟨fault, hnode⟩, hfront⟩
    exact ⟨fault, (firstResult?_eq (by simp)).mpr ⟨front, node, behind, hsplit, hnode, hfront⟩⟩

/-- Looking for positions succeeds if no value in the report fails. -/
lemma positionsOf_isOk {tree : Json}
    (h : ∀ node ∈ tree.preorder, ∃ p?, locationOf? node = .ok p?) :
    ∃ found, positionsOf tree = .ok found := by
  rw [← not_fails, positionsOf_fails]
  rintro ⟨front, node, behind, id, hsplit, -, -, -, hfind⟩
  obtain ⟨front', inner, behind', hinner, hfails, -⟩ := findLocation?_fails.mp hfind
  have hnode : node ∈ tree.preorder := by simp [hsplit]
  have hmem : inner ∈ node.preorder := by simp [hinner]
  exact not_fails.mpr (h inner (mem_preorder_trans hnode hmem)) hfails

/-! ### Merging -/

/-- Merging meets its meaning. It returns if no conversion of a page or a coordinate goes wrong, and
what it returns are the anchors in their order with the names and the places in the authored text
that they had. Each one has the position that the report gives its name, and none if the report
gives none; so merging once more with the same report changes nothing. -/
theorem merge_meaning (anchors : List Anchor) (tree : Json) :
    ((∀ node ∈ tree.preorder, ∃ p?, locationOf? node = .ok p?) →
      ∃ m, merge anchors tree = .ok m) ∧
    ∀ m, merge anchors tree = .ok m →
      List.Forall₂ (fun a b => b.id = a.id ∧ b.editor = a.editor ∧
        ∀ p, b.rendered = some p ↔ Rendered tree a.id p) anchors m.anchors ∧
      merge m.anchors tree = .ok m := by
  constructor
  · intro h
    obtain ⟨found, hfound⟩ := positionsOf_isOk h
    exact ⟨_, by rw [merge, hfound]; rfl⟩
  · intro m hm
    obtain ⟨found, hfound, hmap⟩ := exists_of_bind_eq_ok hm
    obtain rfl : ⟨anchors.map fun a => { a with rendered := found.lookup a.id }⟩ = m :=
      Except.ok.inj hmap
    constructor
    · rw [List.forall₂_map_right_iff, List.forall₂_same]
      exact fun a _ => ⟨rfl, rfl, positionsOf_lookup hfound a.id⟩
    · rw [merge, hfound]
      show Except.ok (SourceMap.mk _) = _
      rw [List.map_map]
      rfl

/-- A report with one label twice. The first value that carries it has no location, so its anchor
gets the location of the second one; the other anchor is not in the report. -/
theorem merge_meaning_repeated :
    let name := CodeText.ofText "tf-1-5".toList
    let other := CodeText.ofText "tf-2-9".toList
    let place := Json.ofFields [("page", .integer 2),
      ("pos", Json.ofFields [("x", .string (CodeText.ofText "1pt".toList)), ("y", .integer 0)])]
    let holder := Json.ofFields [("label", .string (CodeText.ofText "<tf-1-5>".toList))]
    let tree : Json := .array [Json.ofFields [("label", .string name)],
      Json.ofFields [("node", holder), ("location", place)]]
    let anchors : List Anchor := [⟨name, ⟨5, 1, 0⟩, none⟩, ⟨other, ⟨9, 2, 0⟩, none⟩]
    let p : PagePosition := ⟨2, .ofScaled false 1 0, .zero⟩
    ∃ m, merge anchors tree = .ok m ∧
      m.anchors = [⟨name, ⟨5, 1, 0⟩, some p⟩, ⟨other, ⟨9, 2, 0⟩, none⟩] ∧
      merge m.anchors tree = .ok m ∧ Rendered tree name p := by
  intro name other place holder tree anchors p
  obtain ⟨hreturns, hmeaning⟩ := merge_meaning anchors tree
  have hnodes : (tree.walk.all fun node => (locationOf? node).toOption.isSome) = true := by
    decide +kernel
  obtain ⟨m, hm⟩ := hreturns fun node hnode => by
    have hnode := List.all_eq_true.mp hnodes node (walk_eq tree ▸ hnode)
    cases hlocation : locationOf? node with
    | ok p? => exact ⟨p?, rfl⟩
    | error fault => rw [hlocation] at hnode; cases hnode
  obtain ⟨hanchors, hagain⟩ := hmeaning m hm
  have hresult : (merge anchors tree).toOption.map SourceMap.anchors =
      some [⟨name, ⟨5, 1, 0⟩, some p⟩, ⟨other, ⟨9, 2, 0⟩, none⟩] := by
    decide +kernel
  rw [hm] at hresult
  have hlist := Option.some.inj hresult
  rw [hlist, List.forall₂_cons] at hanchors
  exact ⟨m, hm, hlist, hagain, (hanchors.1.2.2 p).mp rfl⟩

end Galley
