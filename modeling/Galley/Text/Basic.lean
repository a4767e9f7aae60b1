/-!
Text as a list of characters, and the operations that every later stage reads it with.

* `Text`: a list of Unicode scalar values; offsets, columns and lengths count its members;
* `isBlank`, `isSpace`, `isPadding`: the notions of white space: blanks are what indentation is made
  of, spaces are the whole Unicode class, padding is what does not count at the ends of a text;
* `trimBy`, `Text.trim`, `Text.unpad`: cut a class of characters from both ends;
* `firstOffset?`, `occursIn`: search for a piece;
* `splitAt`, `splitLines`: cut a text into pieces at separators or line boundaries;
* `Text.ofNat`, `Text.ofInt`: decimal notation.
-/

namespace Galley

/-- A text is the list of its characters. -/
abbrev Text := List Char

/-! ### Classes of characters -/

/-- Blanks are the characters that indentation is made of. -/
def isBlank (c : Char) : Bool := c == ' ' || c == '\t'

/-- Spaces are the white space characters of Unicode: the separators, the tabulation and line
controls, and the four information separators. -/
def isSpace (c : Char) : Bool :=
  let n := c.toNat
  (0x09 ≤ n && n ≤ 0x0D) || (0x1C ≤ n && n ≤ 0x20) || n == 0x85 || n == 0xA0 || n == 0x1680 ||
    (0x2000 ≤ n && n ≤ 0x200A) || n == 0x2028 || n == 0x2029 || n == 0x202F || n == 0x205F ||
    n == 0x3000

/-- Padding is the white space that does not count at the ends of texts in markdown: the space
separators, the tabulation and line controls, the separators of lines and paragraphs, and the byte
order mark. The information separators and the next-line control are ordinary characters there. -/
def isPadding (c : Char) : Bool :=
  let n := c.toNat
  n == 0xFEFF || (isSpace c && !((0x1C ≤ n && n ≤ 0x1F) || n == 0x85))

/-- The digits of ASCII. -/
def isDigit (c : Char) : Bool := '0' ≤ c && c ≤ '9'

/-- The letters of ASCII. -/
def isLetter (c : Char) : Bool := ('a' ≤ c && c ≤ 'z') || ('A' ≤ c && c ≤ 'Z')

/-- The small letter for a capital letter of ASCII. -/
def smallLetter (c : Char) : Char :=
  if 'A' ≤ c && c ≤ 'Z' then Char.ofNat (c.toNat + 32) else c

theorem isSpace_of_isBlank {c : Char} (h : isBlank c = true) : isSpace c = true := by
  simp only [isBlank, Bool.or_eq_true, beq_iff_eq] at h
  rcases h with rfl | rfl <;> rfl

/-! ### Cutting the ends -/

section Trim

variable {α : Type} (p : α → Bool)

/-- The list without the longest end whose members all satisfy `p`. -/
def dropEndWhile (xs : List α) : List α := (xs.reverse.dropWhile p).reverse

/-- The list without the members satisfying `p` at either end. -/
def trimBy (xs : List α) : List α := dropEndWhile p (xs.dropWhile p)

end Trim

/-- The text without the spaces at its ends. -/
def Text.trim (t : Text) : Text := trimBy isSpace t

/-- The text without the padding at its ends. -/
def Text.unpad (t : Text) : Text := trimBy isPadding t

/-- The number of blanks at the start of a text. -/
def blankCount (t : Text) : Nat := (t.takeWhile isBlank).length

/-- The text holds nothing but spaces. -/
def Text.isVoid (t : Text) : Bool := t.all isSpace

/-! ### Search -/

section Search

variable {α : Type} [BEq α]

/-- The offset of the first occurrence of `piece`. -/
def firstOffset? (piece : List α) : List α → Option Nat
  | [] => if piece.isEmpty then some 0 else none
  | x :: xs =>
      if piece.isPrefixOf (x :: xs) then some 0
      else (firstOffset? piece xs).map (· + 1)

/-- The piece occurs somewhere in the list. -/
def occursIn (piece xs : List α) : Bool := (firstOffset? piece xs).isSome

end Search

/-! ### Pieces and lines -/

/-- The pieces between the separators; there is one more than there are separators. -/
def splitAt (p : Char → Bool) : Text → List Text
  | [] => [[]]
  | c :: cs =>
      match splitAt p cs with
      | [] => [[]]
      | piece :: pieces =>
          if p c then [] :: piece :: pieces else (c :: piece) :: pieces

/-- The pieces with a separator between each two of them. -/
def joinWith (separator : Text) (pieces : List Text) : Text := separator.intercalate pieces

/-- The characters at which a line may end. -/
def isLineBoundary (c : Char) : Bool :=
  let n := c.toNat
  (0x0A ≤ n && n ≤ 0x0D) || (0x1C ≤ n && n ≤ 0x1E) || n == 0x85 || n == 0x2028 || n == 0x2029

/-- Collects lines; `current` is the line that is being read. -/
def splitLinesAux (current : Text) : Text → List Text
  | [] => if current.isEmpty then [] else [current.reverse]
  | '\r' :: '\n' :: cs => current.reverse :: splitLinesAux [] cs
  | c :: cs =>
      if isLineBoundary c then current.reverse :: splitLinesAux [] cs
      else splitLinesAux (c :: current) cs

/-- The lines of a text in the widest sense of line boundary. A boundary at the end opens no
further line. -/
def splitLines (t : Text) : List Text := splitLinesAux [] t

/-! ### Numerals -/

/-- The decimal notation of a natural number. -/
def Text.ofNat (n : Nat) : Text := Nat.toDigits 10 n

theorem ofNat_injective {m n : Nat} (h : Text.ofNat m = Text.ofNat n) : m = n := by
  have hnumber := congrArg (fun digits => Nat.ofDigitChars 10 digits 0) h
  simpa [Text.ofNat] using hnumber

theorem ofNat_digits {n : Nat} {c : Char} (h : c ∈ Text.ofNat n) : c.isDigit = true :=
  Nat.isDigit_of_mem_toDigits (by decide) (by decide) h

/-- The decimal notation of an integer. -/
def Text.ofInt : Int → Text
  | .ofNat n => Text.ofNat n
  | .negSucc n => '-' :: Text.ofNat (n + 1)

/-- The value of a digit of ASCII. -/
def digitValue (c : Char) : Nat := c.toNat - '0'.toNat

/-- The number that a list of digits of ASCII denotes. -/
def natOfDigits (cs : Text) : Nat := cs.foldl (fun n c => 10 * n + digitValue c) 0

/-- The hexadecimal digit for a number below sixteen, in lower case. -/
def hexDigit (n : Nat) : Char := Nat.digitChar n

/-- The hexadecimal notation of `n` with `width` digits. -/
def hexDigits (width n : Nat) : Text :=
  (List.range width).reverse.map fun i => hexDigit (n / Nat.pow 16 i % 16)

/-- The value of a hexadecimal digit of either case. -/
def hexValue? (c : Char) : Option Nat :=
  if isDigit c then some (c.toNat - '0'.toNat)
  else if 'a' ≤ c && c ≤ 'f' then some (c.toNat - 'a'.toNat + 10)
  else if 'A' ≤ c && c ≤ 'F' then some (c.toNat - 'A'.toNat + 10)
  else none

end Galley
