import Galley.Proofs.Grammar
import Galley.Proofs.Merging
import Galley.SourceMap.Load

/-!
Source maps as texts for other readers. A source map is in the grammar of JSON exactly if the
coordinates in it are finite, and these come from the report that was merged.

* `PagePosition.IsFinite`, `isText_written`: a text in the grammar needs finite coordinates;
* `Json.DenotesFinite`, `rendered_isFinite`: a report without infinities and not-a-number among its
  numbers and numerals gives finite coordinates;
* `merge_written`: when the text of a merged source map is in the grammar;
* `merge_written_infinite`: a report that is read and merged, and leads to a text that is not.
-/

namespace Galley

/-! ### Texts of source maps -/

/-- The coordinates of a position are finite. -/
def PagePosition.IsFinite (p : PagePosition) : Prop := p.x.isFinite = true ∧ p.y.isFinite = true

namespace SourceMap

lemma isFinite_anchorJson {a : Anchor} :
    (anchorJson a).IsFinite ↔ ∀ p ∈ a.rendered, p.IsFinite := by
  obtain ⟨id, editor, rendered⟩ := a
  cases rendered with
  | none => simp [anchorJson]
  | some p => simp [anchorJson, PagePosition.IsFinite]

/-- A source map is written as a text of the grammar if and only if its coordinates are finite. -/
theorem isText_written {indent : Option Int} {m : SourceMap} :
    Json.IsText (m.written indent) ↔ ∀ a ∈ m.anchors, ∀ p ∈ a.rendered, p.IsFinite := by
  rw [written, Json.isText_write, toJson, Json.isFinite_ofFields, List.forall_mem_singleton,
    Json.isFinite_array, List.forall_mem_map]
  simp only [isFinite_anchorJson]

end SourceMap

/-! ### Coordinates of reports -/

namespace Json

/-- No value inside a value denotes an infinity or not-a-number. -/
def DenotesFinite (value : Json) : Prop :=
  ∀ node ∈ value.preorder, ∀ x, coordinate? node = .ok (some x) → x.isFinite = true

lemma DenotesFinite.of_mem {value node : Json} (h : value.DenotesFinite)
    (hnode : node ∈ value.preorder) : node.DenotesFinite :=
  fun inner hinner => h inner (mem_preorder_trans hnode hinner)

lemma mem_preorder_self (value : Json) : value ∈ value.preorder := mem_preorder.mpr (.inl rfl)

lemma mem_preorder_of_mem_members {value member : Json} (h : member ∈ value.members) :
    member ∈ value.preorder :=
  mem_preorder.mpr (.inr ⟨member, h, mem_preorder_self member⟩)

lemma mem_of_lookup? {key : CodeText} {fields : List (CodeText × Json)} {value : Json}
    (h : lookup? key fields = some value) : value ∈ fields.map Prod.snd := by
  induction fields with
  | nil => cases h
  | cons field fields ih =>
      rw [lookup?] at h
      split_ifs at h with hkey
      · exact Option.some.inj h ▸ List.mem_cons_self
      · exact List.mem_cons_of_mem _ (ih h)

lemma mem_members_of_get? {key : Text} {value field : Json} (h : value.get? key = some field) :
    field ∈ value.members := by
  cases value with
  | object fields => exact mem_of_lookup? h
  | _ => cases h

/-- A missing value denotes nothing. -/
lemma denotesFinite_null : Json.null.DenotesFinite := by
  intro node hnode x hx
  obtain rfl : node = .null := List.mem_singleton.mp hnode
  cases hx

lemma DenotesFinite.field {value : Json} (h : value.DenotesFinite) (key : Text) :
    ((value.get? key).getD .null).DenotesFinite := by
  cases hfield : value.get? key with
  | none => exact denotesFinite_null
  | some field => exact h.of_mem (mem_preorder_of_mem_members (mem_members_of_get? hfield))

end Json

lemma coordinateOf_isFinite {value : Json} (h : value.DenotesFinite) {x : Binary64}
    (hx : coordinateOf value = .ok x) : x.isFinite = true := by
  obtain ⟨x?, hvalue, hx⟩ := exists_of_bind_eq_ok hx
  cases x? with
  | none => exact Except.ok.inj hx ▸ rfl
  | some y =>
      obtain rfl := Except.ok.inj hx
      split_ifs
      · rfl
      · exact h value (Json.mem_preorder_self value) y hvalue

/-- The values of a point stand inside the object. -/
lemma pointOf?_denotesFinite {value x y : Json} (h : value.DenotesFinite)
    (hpoint : pointOf? value = some (x, y)) : x.DenotesFinite ∧ y.DenotesFinite := by
  rw [pointOf?] at hpoint
  split at hpoint
  · rename_i point hholder
    obtain ⟨key, -, hkey⟩ := List.exists_of_findSome?_eq_some hholder
    have hinside : point.DenotesFinite := by
      split at hkey
      · rename_i fields hfield
        obtain rfl := Option.some.inj hkey
        exact h.of_mem (Json.mem_preorder_of_mem_members (Json.mem_members_of_get? hfield))
      · cases hkey
    obtain ⟨rfl, rfl⟩ := Prod.mk.inj (Option.some.inj hpoint)
    exact ⟨hinside.field _, hinside.field _⟩
  · split at hpoint
    · rename_i first second behind hrect
      obtain ⟨rfl, rfl⟩ := Prod.mk.inj (Option.some.inj hpoint)
      have hbox := h.of_mem (Json.mem_preorder_of_mem_members (Json.mem_members_of_get? hrect))
      exact ⟨hbox.of_mem (Json.mem_preorder_of_mem_members List.mem_cons_self),
        hbox.of_mem (Json.mem_preorder_of_mem_members (List.mem_cons_of_mem _ List.mem_cons_self))⟩
    · cases hpoint

lemma positionOf?_isFinite {value : Json} (h : value.DenotesFinite) {p : PagePosition}
    (hp : positionOf? value = .ok (some p)) : p.IsFinite := by
  cases value with
  | object fields =>
      obtain ⟨page, -, hp⟩ := exists_of_bind_eq_ok hp
      cases hpoint : pointOf? (.object fields) with
      | none => rw [hpoint] at hp; cases hp
      | some point =>
          rw [hpoint] at hp
          obtain ⟨hx, hy⟩ := pointOf?_denotesFinite h hpoint
          obtain ⟨x, hxvalue, hp⟩ := exists_of_bind_eq_ok hp
          obtain ⟨y, hyvalue, hp⟩ := exists_of_bind_eq_ok hp
          obtain rfl := Option.some.inj (Except.ok.inj hp)
          exact ⟨coordinateOf_isFinite hx hxvalue, coordinateOf_isFinite hy hyvalue⟩
  | _ => cases hp

lemma locationOf?_isFinite {value : Json} (h : value.DenotesFinite) {p : PagePosition}
    (hp : locationOf? value = .ok (some p)) : p.IsFinite := by
  cases value with
  | object fields =>
      obtain ⟨inner?, hinner, hp⟩ := exists_of_bind_eq_ok hp
      cases inner? with
      | none => exact positionOf?_isFinite h hp
      | some inner =>
          obtain rfl := Option.some.inj (Except.ok.inj hp)
          exact positionOf?_isFinite (h.field _) hinner
  | _ => cases hp

/-- Reports without infinities and not-a-number give finite coordinates. -/
lemma rendered_isFinite {tree : Json} (h : tree.DenotesFinite) {id : CodeText} {p : PagePosition}
    (hp : Rendered tree id p) : p.IsFinite := by
  obtain ⟨-, front, node, behind, hsplit, -, hfirst, -⟩ := hp
  obtain ⟨front', inner, behind', hinner, hlocation, -⟩ := hfirst
  have hnode : node ∈ tree.preorder := by simp [hsplit]
  have hmem : inner ∈ node.preorder := by simp [hinner]
  exact locationOf?_isFinite ((h.of_mem hnode).of_mem hmem) hlocation

/-! ### Merged source maps -/

/-- What the anchors of a merged source map have is what the report gives their names. -/
lemma merge_rendered {anchors : List Anchor} {tree : Json} {m : SourceMap}
    (hm : merge anchors tree = .ok m) :
    (∀ a ∈ m.anchors, ∀ p ∈ a.rendered, p.IsFinite) ↔
      ∀ a ∈ anchors, ∀ p, Rendered tree a.id p → p.IsFinite := by
  obtain ⟨found, hfound, hmap⟩ := exists_of_bind_eq_ok hm
  obtain rfl : ⟨anchors.map fun a => { a with rendered := found.lookup a.id }⟩ = m :=
    Except.ok.inj hmap
  simp only [List.forall_mem_map, Option.mem_def, positionsOf_lookup hfound]

/-- The text of a merged source map is in the grammar of JSON, at every indentation, if and only if
the positions that the report gives the names of the anchors have finite coordinates. They have if
no value in the report denotes an infinity or not-a-number. -/
theorem merge_written {anchors : List Anchor} {tree : Json} {m : SourceMap}
    (hm : merge anchors tree = .ok m) :
    (∀ indent, Json.IsText (m.written indent) ↔
      ∀ a ∈ anchors, ∀ p, Rendered tree a.id p → p.IsFinite) ∧
    (tree.DenotesFinite → ∀ indent, Json.IsText (m.written indent)) := by
  have htext (indent : Option Int) : Json.IsText (m.written indent) ↔
      ∀ a ∈ anchors, ∀ p, Rendered tree a.id p → p.IsFinite :=
    SourceMap.isText_written.trans (merge_rendered hm)
  exact ⟨htext, fun h indent => (htext indent).mpr fun a _ p hp => rendered_isFinite h hp⟩

/-- A report that is read, with a coordinate in points and one that is missing. -/
theorem merge_written_finite :
    let a : Anchor := ⟨CodeText.ofText "tf-0-1".toList, ⟨0, 0, 0⟩, none⟩
    let tree := Json.ofFields [("label", .string (CodeText.ofText "<tf-0-1>".toList)),
      ("rect", .array [.string (CodeText.ofText "1pt".toList), .null])]
    let m : SourceMap := ⟨[{ a with rendered := some ⟨1, .ofScaled false 1 0, .zero⟩ }]⟩
    loadReportText "\x7b\"label\": \"<tf-0-1>\", \"rect\": [\"1pt\", null]\x7d".toList = .ok tree ∧
      merge [a] tree = .ok m ∧ tree.DenotesFinite ∧ ∀ indent, Json.IsText (m.written indent) := by
  intro a tree m
  have hfound : positionsOf tree =
      .ok [(CodeText.ofText "tf-0-1".toList, ⟨1, .ofScaled false 1 0, .zero⟩)] := by
    decide +kernel
  have hmerge : merge [a] tree = .ok m := by
    rw [merge, hfound]
    rfl
  have hnodes : (tree.preorder.all fun node =>
      ((coordinate? node).toOption.join.map Binary64.isFinite).getD true) = true := by
    decide +kernel
  have hdenotes : tree.DenotesFinite := by
    intro node hnode x hx
    have hfinite := List.all_eq_true.mp hnodes node hnode
    rwa [hx] at hfinite
  exact ⟨by cbv, hmerge, hdenotes, (merge_written hmerge).2 hdenotes⟩

/-- A report that is read, with a coordinate beyond the range and one that is not a number. Both are
taken over, and the text of the source map holds their words. -/
theorem merge_written_infinite :
    let a : Anchor := ⟨CodeText.ofText "tf-0-1".toList, ⟨0, 0, 0⟩, none⟩
    let tree := Json.ofFields [("label", .string (CodeText.ofText "tf-0-1".toList)),
      ("pos", Json.ofFields [("x", .string (CodeText.ofText "1e999".toList)),
        ("y", .string (CodeText.ofText "nan".toList))])]
    let m : SourceMap := ⟨[{ a with rendered := some ⟨1, .infinity false, .nan⟩ }]⟩
    loadReportText
        "\x7b\"label\": \"tf-0-1\", \"pos\": \x7b\"x\": \"1e999\", \"y\": \"nan\"\x7d\x7d".toList =
      .ok tree ∧
      merge [a] tree = .ok m ∧ ∀ indent, ¬ Json.IsText (m.written indent) := by
  intro a tree m
  have hfound : positionsOf tree =
      .ok [(CodeText.ofText "tf-0-1".toList, ⟨1, .infinity false, .nan⟩)] := by
    decide +kernel
  have hmerge : merge [a] tree = .ok m := by
    rw [merge, hfound]
    rfl
  refine ⟨by cbv, hmerge, fun indent htext => ?_⟩
  have hfinite := SourceMap.isText_written.mp htext _ List.mem_cons_self _ rfl
  exact absurd hfinite.1 (by decide)

end Galley
