import Galley.Number.Binary64
import Galley.Text.Decimal

/-!
Reading numbers that people wrote. Numerals may use the decimal digits of any script, single
underscores between digits, and white space around them.

* `readInt?`: integers;
* `leadingDigits?`: the number of digits that a numeral begins with;
* `readNumber?`: floating point numbers, with the words for infinity and not-a-number.
-/

namespace Galley

/-- White space that may surround a numeral; the information separators do not count. -/
def isNumeralSpace (c : Char) : Bool := isSpace c && !(0x1C ≤ c.toNat && c.toNat ≤ 0x1F)

/-- A decimal digit of any script becomes the digit of ASCII. -/
def plainDigit (c : Char) : Char :=
  match decimalValue? c with
  | some v => Char.ofNat (v + '0'.toNat)
  | none => c

/-- Removes the underscores if each of them stands between two digits. The flag says whether a digit
came just before. -/
def dropUnderscores (afterDigit : Bool) : Text → Option Text
  | [] => some []
  | '_' :: cs =>
      if afterDigit && (cs.head?.map isDigit).getD false then dropUnderscores false cs else none
  | c :: cs => (dropUnderscores (isDigit c) cs).map (c :: ·)

/-- A numeral in plain form: trimmed, with digits of ASCII and no underscores. -/
def plainNumeral (t : Text) : Option Text :=
  dropUnderscores false ((trimBy isNumeralSpace t).map plainDigit)

/-- Splits a sign off. -/
def splitSign : Text → Bool × Text
  | '-' :: cs => (true, cs)
  | '+' :: cs => (false, cs)
  | cs => (false, cs)

/-- The digits at the start of a text, and the rest. -/
def splitDigits (t : Text) : Text × Text := (t.takeWhile isDigit, t.dropWhile isDigit)

/-- Numerals of integers have at most this many digits. -/
def maxIntegerDigits : Nat := 4300

/-- The integer that a numeral denotes. -/
def readInt? (t : Text) : Option Int := do
  let plain ← plainNumeral t
  let (negative, body) := splitSign plain
  if body.isEmpty || !body.all isDigit || maxIntegerDigits < body.length then none
  else
    let n : Int := natOfDigits body
    some (if negative then -n else n)

/-- Counts the digits at the start of a text; `count` have been read, the last one directly before
if the flag says so. -/
def leadingDigitsAux? (afterDigit : Bool) (count : Nat) : Text → Option Nat
  | [] => if afterDigit || count = 0 then some count else none
  | c :: cs =>
      if isDigit c then leadingDigitsAux? true (count + 1) cs
      else if c == '_' then if afterDigit then leadingDigitsAux? false count cs else none
      else if afterDigit || count = 0 then some count
      else none

/-- The number of digits at the start of a numeral, behind its sign. Single underscores may stand
between digits, and nothing is counted where other underscores stand. -/
def leadingDigits? (t : Text) : Option Nat :=
  leadingDigitsAux? false 0 (splitSign ((trimBy isNumeralSpace t).map plainDigit)).2

/-- The exponent part at the end of a numeral: nothing, or the mark with a signed integer. -/
def readExponent? : Text → Option Int
  | [] => some 0
  | c :: cs =>
      if c == 'e' || c == 'E' then
        let (negative, body) := splitSign cs
        if body.isEmpty || !body.all isDigit then none
        else
          let n : Int := natOfDigits body
          some (if negative then -n else n)
      else none

/-- The number that an unsigned plain numeral denotes. -/
def readMagnitude? (negative : Bool) (t : Text) : Option Binary64 :=
  let word := t.map smallLetter
  if word == "inf".toList || word == "infinity".toList then some (.infinity negative)
  else if word == "nan".toList then some .nan
  else
    let (whole, rest) := splitDigits t
    let (fraction, rest) :=
      match rest with
      | '.' :: cs => splitDigits cs
      | _ => ([], rest)
    if whole.isEmpty && fraction.isEmpty then none
    else (readExponent? rest).map fun e =>
      .ofScaled negative (natOfDigits (whole ++ fraction)) (e - fraction.length)

/-- The floating point number nearest to the number that a numeral denotes. -/
def readNumber? (t : Text) : Option Binary64 := do
  let (negative, body) := splitSign (← plainNumeral t)
  readMagnitude? negative body

end Galley
