import Galley.CommandLine
import Mathlib.Tactic

/-!
The steps of commands, and the files that they load.

* `command_bind_of_eq_ok`, `command_bind_of_eq_error`: two steps in a row;
* `within_of_eq_ok`, `pathOf_of_eq_some`: steps of builds, and paths that values name;
* `loadFile_of_read`: loading a file gives its value, the wording of what is wrong with it, or an
  error that ends the command.
-/

namespace Galley

/-! ### Steps -/

lemma command_bind_of_eq_ok {α β : Type} {m : CommandStep α} {f : α → CommandStep β}
    {w w' : Workspace} {a : α} (h : m w = .ok a w') : (m >>= f) w = f a w' := by
  simp [bind, EStateM.bind, h]

lemma command_bind_of_eq_error {α β : Type} {m : CommandStep α} {f : α → CommandStep β}
    {w w' : Workspace} {e : CommandError} (h : m w = .error e w') : (m >>= f) w = .error e w' := by
  simp [bind, EStateM.bind, h]

lemma within_of_eq_ok {α : Type} {m : BuildStep α} {w w' : Workspace} {a : α}
    (h : m w = .ok a w') : within m w = .ok a w' := by
  rw [within, h]

lemma pathOf_of_eq_some {host : Host} {t : Text} {p : Path} (h : host.path? t = some p)
    (w : Workspace) : pathOf host (some t) w = .ok p w := by
  rw [pathOf, h]
  rfl

/-! ### Files -/

section LoadFile

variable {α : Type} {host : Host} {s : Text} {p : Path} {w : Workspace} {octets : Octets}
  {load : Path → Octets → Except LoadError α}

lemma loadFile_of_read (hp : host.path? s = some p) (hread : w.files.read p = .ok octets) :
    loadFile host (some s) load w =
      match load p octets with
      | .ok a => .ok (.ok a) w
      | .error e =>
          match e.message? with
          | some message => .ok (.error message) w
          | none => .error (.unreadable e) w := by
  have hstate : (get : CommandStep Workspace) w = .ok w w := rfl
  rw [loadFile, command_bind_of_eq_ok (pathOf_of_eq_some hp w), command_bind_of_eq_ok hstate, hread]
  dsimp only
  cases load p octets with
  | ok a => rfl
  | error e =>
      dsimp only
      cases e.message? <;> rfl

/-- Loading a file that can be read gives its value. -/
lemma loadFile_of_ok (hp : host.path? s = some p) (hread : w.files.read p = .ok octets) {a : α}
    (hload : load p octets = .ok a) : loadFile host (some s) load w = .ok (.ok a) w := by
  rw [loadFile_of_read hp hread, hload]

/-- If it cannot be loaded, and the error is reported, loading it gives the wording. -/
lemma loadFile_of_reported (hp : host.path? s = some p) (hread : w.files.read p = .ok octets)
    {e : LoadError} {message : Text} (hload : load p octets = .error e)
    (hmessage : e.message? = some message) :
    loadFile host (some s) load w = .ok (.error message) w := by
  rw [loadFile_of_read hp hread, hload]
  dsimp only
  rw [hmessage]

end LoadFile

end Galley
