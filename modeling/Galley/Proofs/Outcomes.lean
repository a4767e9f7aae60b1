import Mathlib.Tactic

/-!
Computations that may fail, and what follows them.

* `Fails`: a computation gives an error;
* `exists_of_bind_eq_ok`, `fails_bind`, `fails_bind_of_iff`: how two computations in a row succeed
  and fail;
* `FailsOnly`: the errors that a computation can give are in a class.
-/

namespace Galley

variable {ε α β : Type}

/-- What follows a computation succeeds only if that one does. -/
lemma exists_of_bind_eq_ok {x : Except ε α} {f : α → Except ε β} {b : β}
    (h : x >>= f = .ok b) : ∃ a, x = .ok a ∧ f a = .ok b := by
  cases x with
  | error e => exact nomatch h
  | ok a => exact ⟨a, rfl, h⟩

/-- A computation gives an error. -/
def Fails (x : Except ε α) : Prop := ∃ e, x = .error e

@[simp]
lemma fails_error (e : ε) : Fails (.error e : Except ε α) := ⟨e, rfl⟩

@[simp]
lemma not_fails_ok (a : α) : ¬ Fails (.ok a : Except ε α) := nofun

/-- A computation succeeds or fails. -/
lemma not_fails {x : Except ε α} : ¬ Fails x ↔ ∃ a, x = .ok a := by
  cases x <;> simp

@[simp]
lemma fails_map {f : α → β} {x : Except ε α} : Fails (x.map f) ↔ Fails x := by
  cases x <;> simp [Except.map]

/-- Two computations in a row fail if the first one does, or the second one behind it. -/
lemma fails_bind {x : Except ε α} {f : α → Except ε β} :
    Fails (x >>= f) ↔ Fails x ∨ ∃ a, x = .ok a ∧ Fails (f a) := by
  cases x <;> simp [bind, Except.bind]

/-- If it does not matter for the failure of the second one what the first one gives, then one of
the two failures is enough. -/
lemma fails_bind_of_iff {P : Prop} {x : Except ε α} {f : α → Except ε β}
    (h : ∀ a, Fails (f a) ↔ P) : Fails (x >>= f) ↔ Fails x ∨ P := by
  cases x with
  | error e => simp [fails_bind]
  | ok a => simp [fails_bind, h]

/-- A computation gives no errors but those of a class. -/
def FailsOnly (P : ε → Prop) (x : Except ε α) : Prop := ∀ e, x = .error e → P e

namespace FailsOnly

variable {P : ε → Prop}

lemma ok (a : α) : FailsOnly P (.ok a : Except ε α) := nofun

lemma error {e : ε} (h : P e) : FailsOnly P (.error e : Except ε α) := by
  rintro _ ⟨⟩
  exact h

lemma bind {x : Except ε α} {f : α → Except ε β} (hx : FailsOnly P x)
    (hf : ∀ a, x = .ok a → FailsOnly P (f a)) : FailsOnly P (x >>= f) := by
  cases x with
  | error e => exact error (hx e rfl)
  | ok a => exact hf a rfl

lemma map {x : Except ε α} (f : α → β) (hx : FailsOnly P x) : FailsOnly P (x.map f) := by
  cases x with
  | error e => exact error (hx e rfl)
  | ok a => exact ok (f a)

lemma mapError {δ : Type} {Q : δ → Prop} {x : Except ε α} {f : ε → δ} (hx : FailsOnly P x)
    (hf : ∀ e, P e → Q (f e)) : FailsOnly Q (x.mapError f) := by
  cases x with
  | error e => exact error (hf e (hx e rfl))
  | ok a => exact ok a

end FailsOnly

end Galley
