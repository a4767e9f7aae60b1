import Galley.Number.Binary64

/-!
The decimal text of floating point numbers. A number is written with the fewest digits that read
back as the same number, and of those with the nearest.

* `Scaled`: a decimal number `digits * 10 ^ exponent`;
* `shortest`: the shortest decimal number that reads back as the magnitude at a place;
* `NumberLayout`: where positional notation ends and how an exponent is written;
* `Binary64.text`: the shortest text of a number;
* `Binary64.sixDigits`: the text with six significant digits, as in reports.
-/

namespace Galley

/-- The decimal number `digits * 10 ^ exponent`. -/
structure Scaled where
  digits : Nat
  exponent : Int
deriving DecidableEq

/-- The same decimal number without zeros at the end of its digits; `fuel` bounds their number. -/
def Scaled.reduce : Nat → Scaled → Scaled
  | 0, s => s
  | fuel + 1, s =>
      if s.digits ≠ 0 ∧ s.digits % 10 = 0 then reduce fuel ⟨s.digits / 10, s.exponent + 1⟩ else s

/-- The quotient times `10 ^ shift`, as a quotient. -/
def scaleRatio (num den : Nat) (shift : Int) : Nat × Nat :=
  if 0 ≤ shift then (num * Nat.pow 10 shift.toNat, den)
  else (num, den * Nat.pow 10 (-shift).toNat)

/-- The place of the decimal point of a positive quotient: the least `k` with
`num / den < 10 ^ k`. -/
def pointPlace (num den : Nat) : Int :=
  let guess : Int := ((Text.ofNat num).length : Int) - (Text.ofNat den).length
  let (a, b) := scaleRatio num den (-guess)
  if b ≤ a then guess + 1 else guess

/-- The decimal number reads back as the magnitude at `place`. -/
def readsAs (place : Nat) (s : Scaled) : Bool :=
  Binary64.ofScaled false s.digits s.exponent == Binary64.ofPlace false place

/-- The neighbours of a quotient among the decimal numbers with `count` digits, the nearer one
first; of two at the same distance the even one comes first. -/
def neighbours (num den : Nat) (count : Nat) : List Scaled :=
  let e := pointPlace num den - count
  let (a, b) := scaleRatio num den (-e)
  let q := a / b
  let r := a % b
  let upFirst := b < 2 * r || (2 * r == b && q % 2 == 1)
  if r = 0 then [⟨q, e⟩] else if upFirst then [⟨q + 1, e⟩, ⟨q, e⟩] else [⟨q, e⟩, ⟨q + 1, e⟩]

/-- The magnitude at a place as a decimal number, exactly. -/
def exactScaled (place : Nat) : Scaled :=
  let e := exponent place
  if 0 ≤ e then ⟨significand place * Nat.pow 2 e.toNat, 0⟩
  else ⟨significand place * Nat.pow 5 (-e).toNat, e⟩

/-- Searches the decimal numbers with `count` digits, then those with one more; after `fuel` counts
the exact decimal number is taken. -/
def shortestAux (place num den : Nat) : Nat → Nat → Scaled
  | 0, _ => exactScaled place
  | fuel + 1, count =>
      match (neighbours num den count).find? (readsAs place) with
      | some s => s
      | none => shortestAux place num den fuel (count + 1)

/-- The decimal number with the fewest digits that reads back as the magnitude at `place`. -/
def shortest (place : Nat) : Scaled :=
  if place = 0 then ⟨0, 0⟩
  else
    let (num, den) := magnitudeRatio place
    (shortestAux place num den 17 1).reduce 800

/-! ### Layout -/

/-- How a decimal number is laid out: it is positional if the exponent of its first digit is from
`least` to below `limit`, and integers may end in `.0`. -/
structure NumberLayout where
  least : Int
  limit : Int
  keepsPoint : Bool

/-- Values are positional from `1e-4` to below `1e16`, and always show that they are not integers.
-/
def valueLayout : NumberLayout := ⟨-4, 16, true⟩

/-- Amounts in reports are positional from `1e-4` to below `1e6`. -/
def reportLayout : NumberLayout := ⟨-4, 6, false⟩

/-- An exponent has a sign and at least two digits. -/
def exponentText (e : Int) : Text :=
  let digits := Text.ofNat e.natAbs
  'e' :: (if e < 0 then '-' else '+') :: (if digits.length < 2 then '0' :: digits else digits)

/-- A decimal number without sign in a layout. -/
def NumberLayout.lay (layout : NumberLayout) (s : Scaled) : Text :=
  let digits := Text.ofNat s.digits
  let first : Int := if s.digits = 0 then 0 else digits.length + s.exponent - 1
  if layout.least ≤ first && first < layout.limit then
    if s.digits = 0 || 0 ≤ s.exponent then
      digits ++ List.replicate s.exponent.toNat '0' ++
        (if layout.keepsPoint then ['.', '0'] else [])
    else if first < 0 then
      '0' :: '.' :: (List.replicate (-first - 1).toNat '0' ++ digits)
    else digits.take (first + 1).toNat ++ '.' :: digits.drop (first + 1).toNat
  else
    match digits with
    | [] => []
    | [d] => d :: exponentText first
    | d :: ds => d :: '.' :: (ds ++ exponentText first)

/-- The text of a number from the text of its magnitude. -/
def Binary64.textWith (magnitude : Nat → Text) : Binary64 → Text
  | .nan => "nan".toList
  | .infinity negative => (if negative then "-inf" else "inf").toList
  | .finite negative place =>
      if negative then '-' :: magnitude place else magnitude place

/-- The shortest text of a number. -/
def Binary64.text (x : Binary64) : Text :=
  x.textWith fun place => valueLayout.lay (shortest place)

/-- The text of a number rounded to six significant digits. -/
def Binary64.sixDigits (x : Binary64) : Text :=
  x.textWith fun place =>
    if place = 0 then ['0']
    else
      let (num, den) := magnitudeRatio place
      let e := pointPlace num den - 6
      let (a, b) := scaleRatio num den (-e)
      reportLayout.lay (Scaled.reduce 7 ⟨divRound a b, e⟩)

end Galley
