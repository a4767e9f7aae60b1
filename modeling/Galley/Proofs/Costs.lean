import Galley.Proofs.Isolation
import Mathlib.Tactic

/-!
What diagrams cost: the documents that compilers are called with.

* `Cost`, `Workspace.documents`: one document, or also one about a message;
* `compileDocument_returns`, `Cache.renderDiagram_returns`: with any compiler, rendering comes to a
  result, adds scratch folders only, and costs what a diagram costs;
* `Cache.resolve_of_miss`: so does resolving a diagram without an entry, and nothing is found;
* `Cache.Touched`, `Cache.touched_of_resolve`: the entries of other diagrams are left alone;
* `Cache.Collected`, `Cache.collected_of_collect`: diagrams that are resolved one after the other,
  of which only those cost something that are not found.
-/

namespace Galley

open BuildStep FileTree

variable {tools : Toolchain} {s : Settings} {c : Cache} {d : Diagram} {w w' : Workspace}

/-- The documents that compilers were called with, in their order. -/
def Workspace.documents (w : Workspace) : List Text := w.calls.map CompilerCall.document

/-- The documents that are compiled for a diagram without an entry: its own one, and if there is no
picture of it, at most one about a message. -/
inductive Cost (d : Diagram) : List Text → Prop
  | picture : Cost d [d.document]
  | message (message : Text) : Cost d [d.document, errorDocument message]

/-! ### Rendering with any compiler -/

/-- A document is compiled once, in a scratch folder. -/
lemma compileDocument_returns {work : Path} {name : Text} (hname : '/' ∉ name)
    (hwork : w.files.isFolder work = true) (document : Text) :
    ∃ result w', compileDocument tools s work document name w = .ok result w' ∧
      Scratched (work.location w.files.current) w.files w'.files ∧
      w'.documents = w.documents ++ [document] := by
  obtain ⟨n, files, hcompile, hunused, hsame, -, hfolder⟩ :=
    @compileDocument_eq tools s document w work name hname hwork
  refine ⟨_, _, hcompile, hsame.scratched hunused hfolder, ?_⟩
  rw [Workspace.documents, List.map_append]
  rfl

namespace Cache

lemma render_returns {name : Text} (hname : '/' ∉ name) (hwork : w.files.isFolder c.work = true)
    (document extension : Text) :
    ∃ result w', c.render tools s document name extension w = .ok result w' ∧
      Scratched (c.work.location w.files.current) w.files w'.files ∧
      w'.documents = w.documents ++ [document] := by
  obtain ⟨result, w', hcompile, hscratched, hdocuments⟩ :=
    @compileDocument_returns tools s w c.work name hname hwork document
  rw [render, bind_of_eq_ok hcompile]
  cases result with
  | ok compiled => exact ⟨_, w', rfl, hscratched, hdocuments⟩
  | error e => exact ⟨_, w', rfl, hscratched, hdocuments⟩

/-- What is rendered is not said to be found. -/
lemma renderDiagram_returns (d : Diagram) (hwork : w.files.isFolder c.work = true) :
    ∃ result w' cost, c.renderDiagram tools s d w = .ok result w' ∧
      Scratched (c.work.location w.files.current) w.files w'.files ∧
      Cost d cost ∧ w'.documents = w.documents ++ cost ∧
      ∀ content, result ≠ .ok (content, .cached) := by
  obtain ⟨result, w₁, hrender, hscratched, hdocuments⟩ := @render_returns tools s c w d.key
    (notMem_key (by decide) d) hwork d.document d.extension
  rw [renderDiagram, bind_of_eq_ok hrender]
  cases result with
  | ok content =>
      exact ⟨_, w₁, _, rfl, hscratched, .picture, hdocuments, fun _ heq => by cases heq⟩
  | error e =>
      obtain ⟨result', w₂, hrender', hscratched', hdocuments'⟩ := @render_returns tools s c w₁
        (d.key ++ "-error".toList) (errorName_slash_free d) (hscratched.isFolder hwork)
        (errorDocument e.message) d.extension
      rw [hscratched.current] at hscratched'
      rw [hdocuments, List.append_assoc] at hdocuments'
      dsimp only
      rw [bind_of_eq_ok hrender']
      cases result' with
      | ok content =>
          exact ⟨_, w₂, _, rfl, hscratched.trans hscratched', .message e.message, hdocuments',
            fun _ heq => by cases heq⟩
      | error e' =>
          exact ⟨_, w₂, _, rfl, hscratched.trans hscratched', .message e.message, hdocuments',
            fun _ heq => by cases heq⟩

/-! ### Resolving with any compiler -/

/-- The folder of a cache is there, and no files are new or changed in it but one. -/
structure Touched (c : Cache) (d : Diagram) (t t' : FileTree) : Prop where
  current : t'.current = t.current
  folder : t'.isFolder c.folder = true
  elsewhere : ∀ {name}, name ≠ d.entryName →
    t'.contentAt? (c.folder.location t.current ++ [name]) =
      t.contentAt? (c.folder.location t.current ++ [name])

lemma touched_of_sameEntries {t t' : FileTree} (h : c.SameEntries t t') : c.Touched d t t' :=
  ⟨h.current, h.folder, fun _ => h.content _⟩

lemma SameEntries.touched {t t' t'' : FileTree} {content : Octets} (h : c.SameEntries t t')
    (hstored : Stored ((c.entryPath d).location t.current) content t' t'') :
    c.Touched d t t'' :=
  ⟨hstored.current.trans h.current, hstored.kept.isFolder h.folder, h.content_of_stored hstored⟩

/-- A diagram without an entry is compiled and not said to be found. -/
lemma resolve_of_miss {result : Except RenderError (Path × PictureState)}
    (h : c.resolve tools s d w = .ok result w') (hmiss : w.files.isFile (c.entryPath d) = false) :
    c.Touched d w.files w'.files ∧
      (∃ cost, Cost d cost ∧ w'.documents = w.documents ++ cost) ∧
      ∀ path, result ≠ .ok (path, .cached) := by
  obtain ⟨t, t', hfolder, hwork⟩ := makeFolders_of_resolve h hmiss
  have hadded := (added_of_makeFolders hfolder).trans (added_of_makeFolders hwork)
  obtain ⟨picture, w₁, cost, hrender, hscratched, hcost, hdocuments, hstate⟩ :=
    @renderDiagram_returns tools s c { w with files := t' } d (makeFolders_isFolder hwork)
  have hsame := sameEntries_of_scratched hfolder hwork hscratched
  -- the result is what is made of the picture
  have hsettle : c.settlePicture d picture w₁ = .ok result w' := by
    rw [resolve_of_not_isFile hmiss, bind_of_eq_ok (makeFolders_of_eq_ok hfolder), bind_apply,
      renderDiagram_of_makeFolders hwork, hrender] at h
    exact h
  cases picture with
  | error e =>
      cases hsettle
      exact ⟨touched_of_sameEntries hsame, ⟨cost, hcost, hdocuments⟩, fun _ heq => by cases heq⟩
  | ok picture =>
      obtain ⟨files, hstore, hstored⟩ := store_eq (d := d) hsame.folder picture.1
      rw [settlePicture, bind_of_eq_ok hstore] at hsettle
      cases hsettle
      rw [hsame.current] at hstored
      refine ⟨hsame.touched hstored, ⟨cost, hcost, hdocuments⟩, fun path heq => ?_⟩
      exact hstate picture.1 (congrArg Except.ok (Prod.ext rfl (Prod.mk.inj (Except.ok.inj heq)).2))

/-- Resolving a diagram touches nothing in the cache but its own entry. -/
lemma touched_of_resolve {result : Except RenderError (Path × PictureState)}
    (h : c.resolve tools s d w = .ok result w') : c.Touched d w.files w'.files := by
  cases hfile : w.files.isFile (c.entryPath d) with
  | false => exact (resolve_of_miss h hfile).1
  | true =>
      rw [resolve_of_isFile hfile] at h
      cases h
      exact ⟨rfl, isFolder_of_locate_div (isName_entryName d) (isFile_iff.mp hfile).1, fun _ => rfl⟩

/-- In a cache that can be reached, a diagram leaves the entries of the others there or missing. -/
lemma Touched.isFile {t t' : FileTree} (h : c.Touched d t t') (hreach : c.Reachable t) {r : Diagram}
    (hne : r.entryName ≠ d.entryName) :
    t'.isFile (c.entryPath r) = t.isFile (c.entryPath r) := by
  rw [isFile_of_reachable hreach, isFile_of_reachable (Or.inl h.folder), held?, held?, h.current,
    location_entryPath, h.elsewhere hne]

/-! ### Resolving one after the other -/

lemma stateIn_cons_of_ne {named : Text × Except RenderError (Path × PictureState)}
    (h : d.entryName ≠ named.1) (resolved : Resolved) :
    stateIn (named :: resolved) d = stateIn resolved d := by
  rw [stateIn, stateIn, List.lookup_cons, beq_eq_false_iff_ne.mpr h]

/-- Diagrams that were resolved one after the other: those that are found cost nothing, and each of
the others costs what a diagram costs. -/
structure Collected (c : Cache) (workers : List Diagram) (w : Workspace) (resolved : Resolved)
    (w' : Workspace) : Prop where
  lookup : ∀ r ∈ workers, ∃ result, resolved.lookup r.entryName = some result ∧
    ∀ path state, result = .ok (path, state) → path = c.entryPath r
  hit : ∀ r ∈ workers, w.files.isFile (c.entryPath r) = true → stateIn resolved r = some .cached
  found : c.Reachable w.files → ∀ r ∈ workers, stateIn resolved r = some .cached →
    w.files.isFile (c.entryPath r) = true
  cost : ∃ costs,
    List.Forall₂ Cost (workers.filter fun r => stateIn resolved r ≠ some .cached) costs ∧
      w'.documents = w.documents ++ costs.flatten

lemma stateIn_cons_self {named : Text × Except RenderError (Path × PictureState)}
    (h : named.1 = d.entryName) (resolved : Resolved) :
    stateIn (named :: resolved) d = some .cached ↔ ∃ path, named.2 = .ok (path, .cached) := by
  rw [stateIn, ← h, List.lookup_cons_self]
  rcases named.2 with e | ⟨path, state⟩ <;> simp

/-- The first of several diagrams is found or costs what it costs. -/
lemma cost_of_resolve {result : Except RenderError (Path × PictureState)}
    (h : c.resolve tools s d w = .ok result w') :
    (∃ path, result = .ok (path, .cached)) ∧ w'.documents = w.documents ∨
      (¬ ∃ path, result = .ok (path, .cached)) ∧
        ∃ cost, Cost d cost ∧ w'.documents = w.documents ++ cost := by
  cases hfile : w.files.isFile (c.entryPath d) with
  | true =>
      rw [resolve_of_isFile hfile] at h
      cases h
      exact Or.inl ⟨⟨_, rfl⟩, rfl⟩
  | false =>
      obtain ⟨-, hcost, hstate⟩ := resolve_of_miss h hfile
      exact Or.inr ⟨fun ⟨path, heq⟩ => hstate path heq, hcost⟩

/-- An entry that is there stays there, whatever is resolved. -/
lemma isFile_of_resolve {result : Except RenderError (Path × PictureState)}
    (h : c.resolve tools s d w = .ok result w') {p : Path} (hp : w.files.isFile p = true) :
    w'.files.isFile p = true := by
  have hgrown := @resolve_grows tools s c w.files.current d w rfl
  rw [after_of_eq_ok h] at hgrown
  obtain ⟨hlocate, hcontent⟩ := isFile_iff.mp hp
  obtain ⟨content, hcontent⟩ := Option.ne_none_iff_exists'.mp hcontent
  rw [isFile_iff, hgrown.current, hgrown.toKept.content hcontent]
  exact ⟨hgrown.toKept.locate hlocate, Option.some_ne_none _⟩

lemma Collected.nil (c : Cache) (w : Workspace) : Collected c [] w [] w :=
  ⟨fun _ h => (nomatch h), fun _ h => (nomatch h), fun _ _ h => (nomatch h),
    [], .nil, (List.append_nil _).symm⟩

/-- One more diagram, resolved before the others. -/
lemma Collected.cons {workers : List Diagram} {w'' : Workspace} {rest : Resolved}
    {named : Text × Except RenderError (Path × PictureState)}
    (hfirst : resolveNamed tools s c d w = .ok named w'')
    (hnotMem : d.entryName ∉ workers.map Diagram.entryName)
    (h : Collected c workers w'' rest w') : Collected c (d :: workers) w (named :: rest) w' := by
  obtain ⟨hname, hresolve⟩ := resolveNamed_eq_ok hfirst
  have htouched := touched_of_resolve hresolve
  have hne : ∀ r ∈ workers, r.entryName ≠ d.entryName := fun r hr heq =>
    hnotMem (heq ▸ List.mem_map_of_mem hr)
  -- what came of the others is not hidden by what came of the first one
  have hstate : ∀ r ∈ workers, stateIn (named :: rest) r = stateIn rest r := fun r hr =>
    stateIn_cons_of_ne (hname ▸ hne r hr) rest
  refine ⟨List.forall_mem_cons.mpr ⟨⟨named.2, ?_, fun path state heq => ?_⟩, fun r hr => ?_⟩,
    List.forall_mem_cons.mpr ⟨fun hfile => ?_, fun r hr hfile => ?_⟩, fun hreach =>
    List.forall_mem_cons.mpr ⟨fun hcached => ?_, fun r hr hcached => ?_⟩, ?_⟩
  · rw [← hname]
    exact List.lookup_cons_self
  · rw [heq] at hresolve
    exact (resolve_eq_ok hresolve).1
  · obtain ⟨result, hlookup, hpath⟩ := h.lookup r hr
    refine ⟨result, ?_, hpath⟩
    rw [List.lookup_cons, hname, beq_eq_false_iff_ne.mpr (hne r hr)]
    exact hlookup
  · rw [resolve_of_isFile hfile] at hresolve
    exact (stateIn_cons_self hname rest).mpr ⟨_, (EStateM.Result.ok.inj hresolve).1.symm⟩
  · rw [hstate r hr]
    exact h.hit r hr (isFile_of_resolve hresolve hfile)
  · obtain ⟨path, heq⟩ := (stateIn_cons_self hname rest).mp hcached
    by_contra hmiss
    exact (resolve_of_miss hresolve (Bool.eq_false_iff.mpr hmiss)).2.2 path heq
  · rw [hstate r hr] at hcached
    rw [← htouched.isFile hreach (hne r hr)]
    exact h.found (Or.inl htouched.folder) r hr hcached
  · obtain ⟨costs, hcosts, hdocuments⟩ := h.cost
    have hfilter : (workers.filter fun r => stateIn (named :: rest) r ≠ some .cached) =
        workers.filter fun r => stateIn rest r ≠ some .cached :=
      List.filter_congr fun r hr => by rw [hstate r hr]
    rcases cost_of_resolve hresolve with ⟨hfound, hsame⟩ | ⟨hfound, cost, hcost, hmore⟩
    · refine ⟨costs, ?_, hsame ▸ hdocuments⟩
      rw [← stateIn_cons_self hname rest] at hfound
      rw [List.filter_cons_of_neg (by simp [hfound]), hfilter]
      exact hcosts
    · refine ⟨cost :: costs, ?_, ?_⟩
      · rw [← stateIn_cons_self hname rest] at hfound
        rw [List.filter_cons_of_pos (by simp [hfound]), hfilter]
        exact .cons hcost hcosts
      · rw [hdocuments, hmore, List.flatten_cons, List.append_assoc]

/-- What diagrams with different entries cost, with any compiler. -/
lemma collected_of_collect {workers : List Diagram}
    (hnodup : (workers.map Diagram.entryName).Nodup) {resolved : Resolved}
    (h : collect (resolveNamed tools s c) workers w = .ok resolved w') :
    Collected c workers w resolved w' := by
  induction workers generalizing w resolved with
  | nil =>
      cases h
      exact Collected.nil c _
  | cons d workers ih =>
      obtain ⟨named, w'', rest, hfirst, hrest, rfl⟩ := collect_cons_eq_ok h
      obtain ⟨hnotMem, hnodup⟩ := List.nodup_cons.mp hnodup
      exact Collected.cons hfirst hnotMem (ih hnodup hrest)

end Cache

end Galley
