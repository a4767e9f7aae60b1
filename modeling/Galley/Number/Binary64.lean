import Galley.Text.Basic

/-!
The floating point numbers of 64 bits, exactly. The finite numbers of one sign are counted from
zero upwards, and a number is held as its place in that order, so every value has one form and the
order of magnitudes is the order of places.

* `Binary64`: the numbers, the infinities and the one not-a-number;
* `significand`, `exponent`: the magnitude at a place is `significand * 2 ^ exponent`;
* `Binary64.ofRatio`: the number nearest to a quotient, a half going to the even neighbour;
* `Binary64.ofScaled`: the number nearest to `digits * 10 ^ exponent`;
* `Binary64.add`, `sub`, `mul`, `div`, `order?`, `truncate?`: arithmetic by exact quotients.
-/

namespace Galley

/-- The number of fractions of one exponent. -/
def fractionCount : Nat := Nat.pow 2 52

/-- The number of finite magnitudes. -/
def magnitudeCount : Nat := 2047 * fractionCount

/-- A floating point number of 64 bits. -/
inductive Binary64 where
  | nan
  | infinity (negative : Bool)
  | finite (negative : Bool) (place : Fin magnitudeCount)
deriving DecidableEq

/-- The significand of the magnitude at a place. -/
def significand (place : Nat) : Nat :=
  if place < fractionCount then place else place % fractionCount + fractionCount

/-- The exponent of the magnitude at a place. -/
def exponent (place : Nat) : Int :=
  if place < fractionCount then -1074 else (place / fractionCount : Nat) - 1075

/-- The magnitude at a place as a quotient. -/
def magnitudeRatio (place : Nat) : Nat × Nat :=
  let e := exponent place
  if 0 ≤ e then (significand place * Nat.pow 2 e.toNat, 1)
  else (significand place, Nat.pow 2 (-e).toNat)

/-- The integer nearest to a quotient, a half going to the even neighbour. -/
def divRound (num den : Nat) : Nat :=
  let q := num / den
  let r := num % den
  if den < 2 * r || (2 * r == den && q % 2 == 1) then q + 1 else q

/-- The exponent of the grid that a positive quotient is rounded on. -/
def gridExponent (num den : Nat) : Int :=
  let l : Int := (num.log2 : Int) - den.log2
  let reached := if 0 ≤ l then den * Nat.pow 2 l.toNat ≤ num else den ≤ num * Nat.pow 2 (-l).toNat
  max ((if reached then l else l - 1) - 52) (-1074)

/-- The place of the magnitude nearest to a quotient, counted on past the last finite one. -/
def nearestPlace (num den : Nat) : Nat :=
  if num = 0 then 0
  else
    let e := gridExponent num den
    let q :=
      if 0 ≤ e then divRound num (den * Nat.pow 2 e.toNat)
      else divRound (num * Nat.pow 2 (-e).toNat) den
    q + (e + 1074).toNat * fractionCount

namespace Binary64

/-- The number at a place, an infinity past the last one. -/
def ofPlace (negative : Bool) (place : Nat) : Binary64 :=
  if h : place < magnitudeCount then finite negative ⟨place, h⟩ else infinity negative

/-- The number nearest to the quotient `num / den`. -/
def ofRatio (negative : Bool) (num den : Nat) : Binary64 :=
  ofPlace negative (nearestPlace num den)

/-- Zero. -/
def zero : Binary64 := ofPlace false 0

/-- The number nearest to `digits * 10 ^ exponent`. Exponents far outside the range are decided
without the power. -/
def ofScaled (negative : Bool) (digits : Nat) (exponent : Int) : Binary64 :=
  let size : Int := (Text.ofNat digits).length + exponent
  if digits = 0 || size < -400 then ofPlace negative 0
  else if 400 < size then infinity negative
  else if 0 ≤ exponent then ofRatio negative (digits * Nat.pow 10 exponent.toNat) 1
  else ofRatio negative digits (Nat.pow 10 (-exponent).toNat)

/-- The number nearest to an integer, unless it is out of range. -/
def ofInt? (n : Int) : Option Binary64 :=
  match ofRatio (n < 0) n.natAbs 1 with
  | finite negative place => some (finite negative place)
  | _ => none

/-- The sign of a number is negative. -/
def isNegative : Binary64 → Bool
  | nan => false
  | infinity negative => negative
  | finite negative _ => negative

/-- The number is neither an infinity nor not-a-number. -/
def isFinite : Binary64 → Bool
  | finite _ _ => true
  | _ => false

/-- Zero of either sign. -/
def isZero : Binary64 → Bool
  | finite _ place => place.val == 0
  | _ => false

/-! ### Order -/

/-- The position of a number in the order of all numbers; the two zeros share one position. -/
def order? : Binary64 → Option Int
  | nan => none
  | infinity negative => some (if negative then -magnitudeCount else magnitudeCount)
  | finite negative place => some (if negative then -place.val else place.val)

/-- `x < y`, false if one of them is not a number. -/
def lt (x y : Binary64) : Bool :=
  match x.order?, y.order? with
  | some i, some j => i < j
  | _, _ => false

/-- `x ≤ y`, false if one of them is not a number. -/
def le (x y : Binary64) : Bool :=
  match x.order?, y.order? with
  | some i, some j => i ≤ j
  | _, _ => false

/-- `x = y` as numbers: the zeros are equal, and not-a-number is not equal to itself. -/
def same (x y : Binary64) : Bool :=
  match x.order?, y.order? with
  | some i, some j => i == j
  | _, _ => false

/-! ### Arithmetic -/

/-- The number with the opposite sign. -/
def neg : Binary64 → Binary64
  | nan => nan
  | infinity negative => infinity !negative
  | finite negative place => finite (!negative) place

/-- A finite number as a signed quotient. -/
def signedRatio (negative : Bool) (place : Nat) : Int × Nat :=
  let (num, den) := magnitudeRatio place
  (if negative then -num else num, den)

/-- The sum, rounded once. -/
def add : Binary64 → Binary64 → Binary64
  | finite s p, finite t q =>
      let (a, b) := signedRatio s p
      let (c, d) := signedRatio t q
      let num := a * d + c * b
      if num = 0 then ofPlace (s && t) 0 else ofRatio (num < 0) num.natAbs (b * d)
  | nan, _ => nan
  | _, nan => nan
  | infinity s, infinity t => if s == t then infinity s else nan
  | infinity s, _ => infinity s
  | _, infinity t => infinity t

/-- The difference, rounded once. -/
def sub (x y : Binary64) : Binary64 := add x y.neg

/-- The product, rounded once. -/
def mul : Binary64 → Binary64 → Binary64
  | finite s p, finite t q =>
      let (a, b) := magnitudeRatio p
      let (c, d) := magnitudeRatio q
      ofRatio (s != t) (a * c) (b * d)
  | nan, _ => nan
  | _, nan => nan
  | x, y => if x.isZero || y.isZero then nan else infinity (x.isNegative != y.isNegative)

/-- The quotient, rounded once. -/
def div : Binary64 → Binary64 → Binary64
  | finite s p, finite t q =>
      let (a, b) := magnitudeRatio p
      let (c, d) := magnitudeRatio q
      if c = 0 then (if a = 0 then nan else infinity (s != t))
      else ofRatio (s != t) (a * d) (b * c)
  | nan, _ => nan
  | _, nan => nan
  | infinity _, infinity _ => nan
  | infinity s, finite t _ => infinity (s != t)
  | finite s _, infinity t => ofPlace (s != t) 0

/-- The integer part of a finite number. -/
def truncate? : Binary64 → Option Int
  | finite negative place =>
      let (num, den) := magnitudeRatio place
      some (if negative then -((num / den : Nat) : Int) else (num / den : Nat))
  | _ => none

/-- The number is an integer. -/
def isIntegral : Binary64 → Bool
  | finite _ place =>
      let (num, den) := magnitudeRatio place
      num % den == 0
  | _ => false

end Binary64

end Galley
