import Galley.Text.Basic

/-!
Texts that may hold lone surrogates. The escapes of a data format can name a surrogate that no
partner completes; such a code point is no character, yet it has to be kept.

* `CodePoint`: a character or a lone surrogate;
* `CodeText`: a list of code points, with `CodeText.ofText` and `CodeText.toText?`.
-/

namespace Galley

/-- A Unicode code point: a character, or the surrogate `0xD800 + index`. -/
inductive CodePoint where
  | scalar (c : Char)
  | surrogate (index : Fin 2048)
deriving DecidableEq

namespace CodePoint

/-- The number of a code point. -/
def value : CodePoint → Nat
  | scalar c => c.toNat
  | surrogate i => 0xD800 + i.val

/-- The code point with a number; numbers past the last code point give the replacement
character. -/
def ofNat (n : Nat) : CodePoint :=
  if h : 0xD800 ≤ n ∧ n < 0xE000 then surrogate ⟨n - 0xD800, by omega⟩
  else if n < 0x110000 then scalar (Char.ofNat n)
  else scalar '\uFFFD'

/-- The character of a code point, with the replacement character for a lone surrogate. -/
def toChar : CodePoint → Char
  | scalar c => c
  | surrogate _ => '\uFFFD'

/-- The class `p` of characters as a class of code points; lone surrogates are outside. -/
def satisfies (p : Char → Bool) : CodePoint → Bool
  | scalar c => p c
  | surrogate _ => false

end CodePoint

/-- A text that may hold lone surrogates. -/
abbrev CodeText := List CodePoint

namespace CodeText

/-- Every text is a text of code points. -/
def ofText (t : Text) : CodeText := t.map .scalar

/-- The characters of a text of code points, if it holds no lone surrogate. -/
def toText? : CodeText → Option Text
  | [] => some []
  | .scalar c :: cs => (toText? cs).map (c :: ·)
  | .surrogate _ :: _ => none

/-- The text of code points with the replacement character for every lone surrogate. -/
def toText (t : CodeText) : Text := t.map CodePoint.toChar

/-- The text without the spaces at its ends. -/
def trim (t : CodeText) : CodeText := trimBy (CodePoint.satisfies isSpace) t

theorem toText?_ofText (t : Text) : toText? (ofText t) = some t := by
  induction t with
  | nil => rfl
  | cons c cs ih => simpa [ofText, toText?] using ih

end CodeText

end Galley
