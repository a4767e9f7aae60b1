import Galley.Workspace
import Galley.Proofs.Files
import Mathlib.Tactic

/-!
Steps of a build: what they give, what they leave behind, and what they keep.

* `BuildStep.after`, `BuildStep.outcome`: the state behind a step, and what comes of it;
* `BuildStep.afterAll`, `after_collect`, `collect_cons_eq_ok`: collected steps are taken one after
  the other;
* `BuildStep.Respects`: a step leads to related states, whatever comes of it;
* `BuildStep.after_orElseUndo_of_eq_error`: a step that fails is undone;
* `BuildStep.Respects.bind`, `attempt`, `afterAll`: what the parts of a step respect, the step
  respects;
* `BuildStep.unused_unusedNumber`: the search for an unused name ends at one;
* `BuildStep.openScratch_eq`: a scratch folder stands where nothing was.
-/

namespace Galley.BuildStep

variable {α β : Type}

/-! ### Results and states -/

/-- The state behind a step, whether it fails or not. -/
def after (m : BuildStep α) (w : Workspace) : Workspace :=
  match m w with
  | .ok _ w => w
  | .error _ w => w

/-- What comes of a step. -/
def outcome (m : BuildStep α) (w : Workspace) : Except FileError α :=
  match m w with
  | .ok a _ => .ok a
  | .error e _ => .error e

lemma after_of_eq_ok {m : BuildStep α} {w w' : Workspace} {a : α} (h : m w = .ok a w') :
    m.after w = w' := by
  rw [after, h]

lemma after_of_eq_error {m : BuildStep α} {w w' : Workspace} {e : FileError}
    (h : m w = .error e w') : m.after w = w' := by
  rw [after, h]

lemma exists_eq_ok {m : BuildStep α} {w : Workspace} (h : (m.outcome w).isOk = true) :
    ∃ a w', m w = .ok a w' := by
  rw [outcome] at h
  cases hm : m w with
  | ok a w' => exact ⟨a, w', rfl⟩
  | error e w' =>
      rw [hm] at h
      cases h

lemma bind_apply (m : BuildStep α) (f : α → BuildStep β) (w : Workspace) :
    (m >>= f) w =
      match m w with
      | .ok a w' => f a w'
      | .error e w' => .error e w' := by
  cases h : m w <;> simp [bind, EStateM.bind, h]

lemma bind_of_eq_ok {m : BuildStep α} {f : α → BuildStep β} {w w' : Workspace} {a : α}
    (h : m w = .ok a w') : (m >>= f) w = f a w' := by
  rw [bind_apply, h]

lemma bind_of_eq_error {m : BuildStep α} {f : α → BuildStep β} {w w' : Workspace} {e : FileError}
    (h : m w = .error e w') : (m >>= f) w = .error e w' := by
  rw [bind_apply, h]

lemma after_bind_of_eq_ok {m : BuildStep α} {f : α → BuildStep β} {w w' : Workspace} {a : α}
    (h : m w = .ok a w') : (m >>= f).after w = (f a).after w' := by
  rw [after, after, bind_of_eq_ok h]

/-- A step in two parts that succeeds does so in both. -/
lemma bind_eq_ok {m : BuildStep α} {f : α → BuildStep β} {w w'' : Workspace} {b : β}
    (h : (m >>= f) w = .ok b w'') : ∃ a w', m w = .ok a w' ∧ f a w' = .ok b w'' := by
  rw [bind_apply] at h
  split at h
  · exact ⟨_, _, by assumption, h⟩
  · cases h

@[simp]
lemma pure_apply (a : α) (w : Workspace) : (pure a : BuildStep α) w = .ok a w := rfl

lemma get_apply (w : Workspace) : (get : BuildStep Workspace) w = .ok w w := rfl

lemma set_apply (w w' : Workspace) : (set w' : BuildStep PUnit) w = .ok () w' := rfl

@[simp]
lemma see_apply (look : FileTree → α) (w : Workspace) : see look w = .ok (look w.files) w := rfl

lemma consult_apply (look : FileTree → Except FileError α) (w : Workspace) :
    consult look w =
      match look w.files with
      | .ok a => .ok a w
      | .error e => .error e w := by
  change (match look w.files with
    | .ok a => (pure a : BuildStep α)
    | .error e => throw e) w = _
  cases look w.files <;> rfl

lemma change_apply (operation : FileTree → Except FileError FileTree) (w : Workspace) :
    change operation w =
      match operation w.files with
      | .ok files => .ok () { w with files }
      | .error e => .error e w := by
  change (match operation w.files with
    | .ok files => (modify fun w : Workspace => { w with files } : BuildStep Unit)
    | .error e => throw e) w = _
  cases operation w.files <;> rfl

lemma change_of_eq_ok {operation : FileTree → Except FileError FileTree} {w : Workspace}
    {files : FileTree} (h : operation w.files = .ok files) :
    change operation w = .ok () { w with files } := by
  rw [change_apply, h]

lemma writeFile_of_eq_ok {p : Path} {content : Octets} {w : Workspace} {files : FileTree}
    (h : w.files.write p content = .ok files) : writeFile p content w = .ok () { w with files } :=
  change_of_eq_ok h

lemma consult_of_eq_ok {look : FileTree → Except FileError α} {w : Workspace} {a : α}
    (h : look w.files = .ok a) : consult look w = .ok a w := by
  rw [consult_apply, h]

lemma consult_eq_ok {look : FileTree → Except FileError α} {w w' : Workspace} {a : α}
    (h : consult look w = .ok a w') : look w.files = .ok a ∧ w' = w := by
  rw [consult_apply] at h
  cases hlook : look w.files with
  | ok b =>
      rw [hlook] at h
      cases h
      exact ⟨rfl, rfl⟩
  | error e =>
      rw [hlook] at h
      cases h

lemma change_eq_ok {operation : FileTree → Except FileError FileTree} {w w' : Workspace} {u : Unit}
    (h : change operation w = .ok u w') :
    ∃ files, operation w.files = .ok files ∧ w' = { w with files } := by
  rw [change_apply] at h
  cases hfiles : operation w.files with
  | ok files =>
      rw [hfiles] at h
      cases h
      exact ⟨files, rfl, rfl⟩
  | error e =>
      rw [hfiles] at h
      cases h

lemma callCompiler_apply (tools : Toolchain) (call : CompilerCall) (output : Path)
    (w : Workspace) :
    callCompiler tools call output w =
      .ok (tools.compile w.calls call).ending
        { w with
          files := leaveFiles output (tools.compile w.calls call).files w.files
          calls := w.calls ++ [call] } := rfl

lemma attempt_of_eq_ok {m : BuildStep α} {w w' : Workspace} {a : α} (h : m w = .ok a w') :
    attempt m w = .ok (.ok a) w' := by
  rw [attempt, h]

lemma attempt_of_eq_error {m : BuildStep α} {w w' : Workspace} {e : FileError}
    (h : m w = .error e w') : attempt m w = .ok (.error e) w' := by
  rw [attempt, h]

/-- A step that succeeds is not undone. -/
lemma orElseUndo_of_eq_ok {m : BuildStep α} {w w' : Workspace} {a : α} (h : m w = .ok a w')
    (undo : BuildStep Unit) : m.orElseUndo undo w = .ok a w' := by
  rw [orElseUndo, bind_of_eq_ok (attempt_of_eq_ok h)]
  rfl

/-- Behind a step that fails stands what undoing it leaves. -/
lemma after_orElseUndo_of_eq_error {m : BuildStep α} {w w' : Workspace} {e : FileError}
    (h : m w = .error e w') (undo : BuildStep Unit) :
    (m.orElseUndo undo).after w = undo.after w' := by
  rw [orElseUndo, after_bind_of_eq_ok (attempt_of_eq_error h)]
  dsimp only
  rw [after, after, bind_apply]
  cases undo w' <;> rfl

lemma makeFolders_of_eq_ok {p : Path} {w : Workspace} {files : FileTree}
    (h : w.files.makeFolders p = .ok () files) :
    makeFolders p w = .ok () { w with files } := by
  rw [makeFolders, h]

lemma makeFolders_of_eq_error {p : Path} {w : Workspace} {files : FileTree} {e : FileError}
    (h : w.files.makeFolders p = .error e files) :
    makeFolders p w = .error e { w with files } := by
  rw [makeFolders, h]

lemma makeFolders_eq_ok {p : Path} {w w' : Workspace} {u : Unit}
    (h : makeFolders p w = .ok u w') :
    ∃ files, w.files.makeFolders p = .ok () files ∧ w' = { w with files } := by
  rw [makeFolders] at h
  cases hfiles : w.files.makeFolders p with
  | ok _ files =>
      rw [hfiles] at h
      cases h
      exact ⟨files, rfl, rfl⟩
  | error e files =>
      rw [hfiles] at h
      cases h

lemma files_after_makeFolders (p : Path) (w : Workspace) :
    ((makeFolders p).after w).files = FileTree.afterResult (w.files.makeFolders p) := by
  rw [after, makeFolders]
  cases w.files.makeFolders p <;> rfl

/-! ### Collected steps -/

section Collect

variable {f : α → BuildStep β} {x : α} {xs : List α} {w w' : Workspace}

lemma attempt_apply (m : BuildStep α) (w : Workspace) :
    attempt m w = .ok (m.outcome w) (m.after w) := by
  rw [attempt, outcome, after]
  cases m w <;> rfl

/-- The state behind steps that are taken one after the other, whatever comes of them. -/
def afterAll (f : α → BuildStep β) (xs : List α) (w : Workspace) : Workspace :=
  xs.foldl (fun w x => (f x).after w) w

/-- What comes of steps that are taken one after the other. -/
def outcomes (f : α → BuildStep β) : List α → Workspace → List (Except FileError β)
  | [], _ => []
  | x :: xs, w => (f x).outcome w :: outcomes f xs ((f x).after w)

lemma mapM_attempt (f : α → BuildStep β) (xs : List α) (w : Workspace) :
    (xs.mapM fun x => attempt (f x)) w = .ok (outcomes f xs w) (afterAll f xs w) := by
  induction xs generalizing w with
  | nil => rfl
  | cons x xs ih =>
      rw [List.mapM_cons, bind_of_eq_ok (attempt_apply (f x) w), bind_of_eq_ok (ih _)]
      rfl

lemma collect_apply (f : α → BuildStep β) (xs : List α) (w : Workspace) :
    collect f xs w =
      match (outcomes f xs w).mapM id with
      | .ok ys => .ok ys (afterAll f xs w)
      | .error e => .error e (afterAll f xs w) := by
  rw [collect, bind_of_eq_ok (mapM_attempt f xs w)]
  cases (outcomes f xs w).mapM id <;> rfl

lemma after_collect (f : α → BuildStep β) (xs : List α) (w : Workspace) :
    (collect f xs).after w = afterAll f xs w := by
  rw [after, collect_apply]
  cases (outcomes f xs w).mapM id <;> rfl

/-- Collected steps that succeed do so one after the other. -/
lemma collect_cons_eq_ok {ys : List β} (h : collect f (x :: xs) w = .ok ys w') :
    ∃ y w'' ys', f x w = .ok y w'' ∧ collect f xs w'' = .ok ys' w' ∧ ys = y :: ys' := by
  rw [collect_apply, outcomes, List.mapM_cons, outcome, after] at h
  cases hx : f x w with
  | error e w'' =>
      rw [hx] at h
      cases h
  | ok y w'' =>
      rw [hx] at h
      refine ⟨y, w'', ?_⟩
      rw [collect_apply]
      cases hxs : (outcomes f xs w'').mapM id with
      | error e =>
          simp only [id, bind, Except.bind, hxs] at h
          cases h
      | ok ys' =>
          simp only [id, bind, Except.bind, hxs] at h
          refine ⟨ys', rfl, ?_, ?_⟩
          · cases h
            simp only [afterAll, List.foldl_cons, after, hx]
          · cases h
            rfl

end Collect

/-! ### What steps respect -/

/-- States are related to themselves, and related states can be chained. -/
structure Chains (R : Workspace → Workspace → Prop) : Prop where
  refl : ∀ w, R w w
  trans : ∀ {w w' w''}, R w w' → R w' w'' → R w w''

/-- A step leads to a related state, whatever comes of it. -/
def Respects (R : Workspace → Workspace → Prop) (m : BuildStep α) : Prop := ∀ w, R w (m.after w)

section Respects

variable {R : Workspace → Workspace → Prop} {m : BuildStep α} {f : α → BuildStep β}

lemma Respects.pure (hR : Chains R) (a : α) : Respects R (pure a : BuildStep α) :=
  fun w => hR.refl w

lemma Respects.see (hR : Chains R) (look : FileTree → α) : Respects R (see look) :=
  fun w => hR.refl w

lemma Respects.consult (hR : Chains R) (look : FileTree → Except FileError α) :
    Respects R (consult look) := by
  intro w
  rw [after, consult_apply]
  cases look w.files <;> exact hR.refl w

lemma Respects.change (hR : Chains R) {operation : FileTree → Except FileError FileTree}
    (h : ∀ w files, operation w.files = .ok files → R w { w with files }) :
    Respects R (change operation) := by
  intro w
  rw [after, change_apply]
  cases hw : operation w.files with
  | ok files => exact h w files hw
  | error e => exact hR.refl w

lemma Respects.bind (hR : Chains R) (hm : Respects R m) (hf : ∀ a, Respects R (f a)) :
    Respects R (m >>= f) := by
  intro w
  have hw := hm w
  cases h : m w with
  | ok a w' =>
      rw [after_of_eq_ok h] at hw
      rw [after, bind_of_eq_ok h]
      exact hR.trans hw (hf a w')
  | error e w' =>
      rw [after_of_eq_error h] at hw
      rwa [after_of_eq_error (bind_of_eq_error h)]

lemma Respects.attempt (hm : Respects R m) : Respects R (attempt m) := by
  intro w
  rw [after_of_eq_ok (attempt_apply m w)]
  exact hm w

lemma Respects.afterAll (hR : Chains R) {xs : List α} (h : ∀ x ∈ xs, Respects R (f x))
    (w : Workspace) : R w (afterAll f xs w) := by
  induction xs generalizing w with
  | nil => exact hR.refl w
  | cons x xs ih =>
      exact hR.trans (h x List.mem_cons_self w) (ih (fun y hy => h y (List.mem_cons_of_mem _ hy)) _)

end Respects

/-! ### Scratch folders -/

lemma firstFrom_spec (test : Nat → Bool) (n fuel : Nat) :
    test (firstFrom test n fuel) = true ∨
      firstFrom test n fuel = n + fuel ∧ ∀ k, n ≤ k → k < n + fuel → test k = false := by
  induction fuel generalizing n with
  | zero => exact Or.inr ⟨rfl, fun k h h' => absurd h' (by omega)⟩
  | succ fuel ih =>
      rw [firstFrom]
      split_ifs with hn
      · exact Or.inl hn
      · rcases ih (n + 1) with h | ⟨h, hfalse⟩
        · exact Or.inl h
        · refine Or.inr ⟨by omega, fun k hk hk' => ?_⟩
          rcases Nat.eq_or_lt_of_le hk with rfl | hk
          · simpa using hn
          · exact hfalse k hk (by omega)

section Unused

variable {t : FileTree} {folder : Path} {name : Nat → Text}

lemma isUnused_div (hname : ∀ n, IsName (name n)) (hfolder : t.isFolder folder = true) (n : Nat) :
    isUnused t (folder / name n) = t.isFree ((folder / name n).location t.current) := by
  rw [isUnused, FileTree.locate_div_of_isFolder (hname n) hfolder]

/-- One more name than there are places in the table: one of them is unused. -/
lemma exists_isFree (t : FileTree) (here : Location) (hname : Function.Injective name) (n : Nat) :
    ∃ k, n ≤ k ∧ k ≤ n + t.nodes.length ∧ t.isFree (here ++ [name k]) = true := by
  by_contra hall
  push Not at hall
  let places := t.nodes.map fun entry => entry.1.take (here.length + 1)
  let wanted := (List.range' n (t.nodes.length + 1)).map fun k => here ++ [name k]
  have hsub : wanted ⊆ places := by
    intro l hl
    obtain ⟨k, hk, rfl⟩ := List.mem_map.mp hl
    rw [List.mem_range'_1] at hk
    have hused := hall k hk.1 (by omega)
    rw [FileTree.isFree, Ne, List.all_eq_true] at hused
    push Not at hused
    obtain ⟨entry, hentry, hprefix⟩ := hused
    refine List.mem_map.mpr ⟨entry, hentry, ?_⟩
    have hle : here ++ [name k] <+: entry.1 := by
      rw [← List.isPrefixOf_iff_prefix]
      simpa using hprefix
    rw [List.prefix_iff_eq_take.mp hle]
    simp
  have hnodup : wanted.Nodup := by
    refine (List.nodup_range' ).map fun i j hij => hname ?_
    simpa using hij
  have hlength := (hnodup.subperm hsub).length_le
  simp [wanted, places] at hlength

/-- The search for an unused name ends at one. -/
lemma unused_unusedNumber (hname : ∀ n, IsName (name n)) (hinjective : Function.Injective name)
    (hfolder : t.isFolder folder = true) (n : Nat) :
    t.Unused
      ((folder / name (unusedNumber t (fun k => folder / name k) n)).location t.current) := by
  have hloc : ∀ k, (folder / name k).location t.current = folder.location t.current ++ [name k] :=
    fun k => Path.location_div (hname k) _ _
  refine FileTree.unused_of_isFree (by simp [hloc]) ?_
  rw [← isUnused_div hname hfolder]
  rcases firstFrom_spec (fun k => isUnused t (folder / name k)) n t.nodes.length with h | ⟨h, hused⟩
  · exact h
  · obtain ⟨k, hk, hk', hfree⟩ := exists_isFree t (folder.location t.current) hinjective n
    have hk'' : isUnused t (folder / name k) = true := by
      rw [isUnused_div hname hfolder, hloc, hfree]
    rcases Nat.eq_or_lt_of_le hk' with rfl | hlt
    · rw [unusedNumber, h]
      exact hk''
    · rw [hused k hk hlt] at hk''
      cases hk''

end Unused

/-! ### Scratch folders -/

/-- The name of a scratch folder. -/
def scratchName (name : Text) (n : Nat) : Text := stemOf name ++ Text.ofNat n

lemma isName_scratchName {name : Text} (h : '/' ∉ name) (n : Nat) :
    IsName (scratchName name n) := by
  have hmem : '-' ∈ scratchName name n := by simp [scratchName, stemOf]
  refine ⟨fun heq => ?_, fun hslash => ?_, fun heq => ?_, fun heq => ?_⟩
  · simp [heq] at hmem
  · simp only [scratchName, stemOf, List.mem_append, List.mem_singleton] at hslash
    rcases hslash with (hslash | hslash) | hslash
    · exact h (List.mem_of_mem_take hslash)
    · simp at hslash
    · exact absurd (ofNat_digits hslash) (by decide)
  · simp [heq] at hmem
  · simp [heq, Path.parentName] at hmem

lemma scratchName_injective (name : Text) : Function.Injective (scratchName name) :=
  fun _ _ h => ofNat_injective (List.append_cancel_left h)

/-- A scratch folder stands where nothing was, neither at its place nor below. -/
lemma openScratch_eq {folder : Path} {name : Text} {w : Workspace} (hname : '/' ∉ name)
    (hfolder : w.files.isFolder folder = true) :
    ∃ n, w.files.Unused ((folder / scratchName name n).location w.files.current) ∧
      openScratch folder name w =
        .ok (folder / scratchName name n)
          { w with
            files := w.files.put ((folder / scratchName name n).location w.files.current) .folder
            stems := stemOf name :: w.stems } := by
  have hnames := isName_scratchName hname
  refine ⟨unusedNumber w.files (fun k => folder / scratchName name k) (w.stems.count (stemOf name)),
    unused_unusedNumber hnames (scratchName_injective name) hfolder _, ?_⟩
  set n := unusedNumber w.files (fun k => folder / scratchName name k) (w.stems.count (stemOf name))
    with hn
  have hmake := FileTree.makeFolder_of_locate
    (FileTree.locate_div_of_isFolder (hnames n) hfolder)
    (unused_unusedNumber hnames (scratchName_injective name) hfolder
      (w.stems.count (stemOf name)) _ List.prefix_rfl)
  rw [openScratch, bind_of_eq_ok (get_apply w)]
  dsimp only
  rw [bind_of_eq_ok (set_apply w _)]
  exact (bind_of_eq_ok (change_of_eq_ok hmake)).trans rfl

end Galley.BuildStep
