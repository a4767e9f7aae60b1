import Galley.Text.CodePoint

/-!
Texts as octets.

* `utf8Size`, `utf8`: the number of octets of a text in UTF-8, and the octets;
* `decodeUtf8`: the text of any octets; each longest start of a sequence that does not go on
  becomes one replacement character;
* `decodeUtf8?`, `decodeUtf16?`, `decodeUtf32?`: strict reading of code points, where an encoded
  lone surrogate is kept.
-/

namespace Galley

/-- A list of octets. -/
abbrev Octets := List UInt8

/-- The number of octets of a text in UTF-8. -/
def utf8Size (t : Text) : Nat := t.foldr (fun c n => c.utf8Size + n) 0

/-- The octets of a text in UTF-8. -/
def utf8 (t : Text) : Octets := t.flatMap String.utf8EncodeChar

/-! ### Reading UTF-8 -/

/-- The shape of a sequence that a first octet opens: how many octets follow, the bounds of the
second octet, and the bits that the first octet contributes. -/
structure Utf8Lead where
  more : Nat
  low : UInt8
  high : UInt8
  bits : Nat

/-- The sequence that an octet opens, if it opens one of several octets. -/
def Utf8Lead.of? (b : UInt8) : Option Utf8Lead :=
  if 0xC2 ≤ b && b ≤ 0xDF then some ⟨1, 0x80, 0xBF, b.toNat - 0xC0⟩
  else if b == 0xE0 then some ⟨2, 0xA0, 0xBF, 0⟩
  else if b == 0xED then some ⟨2, 0x80, 0x9F, 0xD⟩
  else if 0xE1 ≤ b && b ≤ 0xEF then some ⟨2, 0x80, 0xBF, b.toNat - 0xE0⟩
  else if b == 0xF0 then some ⟨3, 0x90, 0xBF, 0⟩
  else if 0xF1 ≤ b && b ≤ 0xF3 then some ⟨3, 0x80, 0xBF, b.toNat - 0xF0⟩
  else if b == 0xF4 then some ⟨3, 0x80, 0x8F, 4⟩
  else none

/-- Reads the octets that follow a first one. The result is the code, if all of them are there, and
the number of octets read. -/
def Utf8Lead.rest (more : Nat) (low high : UInt8) (bits : Nat) (count : Nat) :
    Octets → Option Nat × Nat
  | [] => (if more = 0 then some bits else none, count)
  | b :: bs =>
      if more = 0 then (some bits, count)
      else if low ≤ b && b ≤ high then
        Utf8Lead.rest (more - 1) 0x80 0xBF (bits * 64 + (b.toNat - 0x80)) (count + 1) bs
      else (none, count)

/-- One step of reading: the code point, or `none` where no sequence stands, and the number of
octets that it takes. -/
def nextUtf8 (b : UInt8) (bs : Octets) : Option Nat × Nat :=
  if b < 0x80 then (some b.toNat, 1)
  else
    match Utf8Lead.of? b with
    | none => (none, 1)
    | some lead => Utf8Lead.rest lead.more lead.low lead.high lead.bits 1 bs

/-- Reads octets; `skip` of them belong to a sequence already read. -/
def decodeUtf8Aux (skip : Nat) : Octets → Text
  | [] => []
  | b :: bs =>
      match skip with
      | skip + 1 => decodeUtf8Aux skip bs
      | 0 =>
          let (code?, width) := nextUtf8 b bs
          (code?.map Char.ofNat).getD '\uFFFD' :: decodeUtf8Aux (width - 1) bs

/-- The text of any octets. Each longest start of a sequence that does not go on becomes one
replacement character. -/
def decodeUtf8 (octets : Octets) : Text := decodeUtf8Aux 0 octets

/-- Strict reading; `skip` octets belong to a sequence already read. -/
def decodeUtf8Aux? (skip : Nat) : Octets → Option CodeText
  | [] => some []
  | b :: bs =>
      match skip with
      | skip + 1 => decodeUtf8Aux? skip bs
      | 0 =>
          match nextUtf8 b bs with
          | (some code, width) =>
              (decodeUtf8Aux? (width - 1) bs).map (CodePoint.ofNat code :: ·)
          | (none, _) =>
              match b == 0xED, bs with
              | true, second :: third :: _ =>
                  if 0xA0 ≤ second && second ≤ 0xBF && 0x80 ≤ third && third ≤ 0xBF then
                    let code := 0xD000 + (second.toNat - 0x80) * 64 + (third.toNat - 0x80)
                    (decodeUtf8Aux? 2 bs).map (CodePoint.ofNat code :: ·)
                  else none
              | _, _ => none

/-- The code points of octets in UTF-8, where surrogates may be encoded; `none` if they are
malformed. -/
def decodeUtf8? (octets : Octets) : Option CodeText := decodeUtf8Aux? 0 octets

/-! ### Reading wider units -/

/-- The octets in groups of `width`, each read as a number; `none` if octets are left over. -/
def units? (width : Nat) (littleEndian : Bool) (group : Octets) : Octets → Option (List Nat)
  | [] => if group.isEmpty then some [] else none
  | b :: bs =>
      let group := b :: group
      if group.length = width then
        let ordered := if littleEndian then group else group.reverse
        (units? width littleEndian [] bs).map
          (ordered.foldl (fun n octet => n * 256 + octet.toNat) 0 :: ·)
      else units? width littleEndian group bs

/-- The code points of units of sixteen bits: two surrogates in order make one character. -/
def joinSurrogates : List Nat → CodeText
  | [] => []
  | [u] => [CodePoint.ofNat u]
  | u :: v :: us =>
      if 0xD800 ≤ u && u < 0xDC00 && 0xDC00 ≤ v && v < 0xE000 then
        CodePoint.ofNat (0x10000 + (u - 0xD800) * 1024 + (v - 0xDC00)) :: joinSurrogates us
      else CodePoint.ofNat u :: joinSurrogates (v :: us)

/-- The code points of octets in UTF-16 of the given order. -/
def decodeUtf16? (littleEndian : Bool) (octets : Octets) : Option CodeText :=
  (units? 2 littleEndian [] octets).map joinSurrogates

/-- The code points of octets in UTF-32 of the given order. -/
def decodeUtf32? (littleEndian : Bool) (octets : Octets) : Option CodeText :=
  match units? 4 littleEndian [] octets with
  | none => none
  | some us => if us.all (· < 0x110000) then some (us.map CodePoint.ofNat) else none

end Galley
