import Galley.Json.Basic
import Galley.Number.Numeral
import Galley.Text.Utf8

/-!
Reading JSON. Besides the grammar of the standard, the words `NaN`, `Infinity` and `-Infinity` are
values, and a lone surrogate may be escaped. Of equal keys the last value wins, in the first place.

* `Json.Complaint`, `Json.ReadError`: what can be wrong, and where;
* `Json.ReadError.message`: the wording, with line, column and offset;
* `Json.read`: the value of a text;
* `Json.decode`: the code points of octets in one of the encodings that begin recognisably.
-/

namespace Galley

namespace Json

/-! ### Complaints -/

/-- What a text lacks to be a JSON text. -/
inductive Complaint where
  | value
  | name
  | colon
  | comma
  | closingQuote
  | controlCharacter
  | escape
  | unicodeEscape
  | extraData
  | byteOrderMark
deriving DecidableEq

/-- The wording of a complaint. -/
def Complaint.message : Complaint → Text
  | value => "Expecting value".toList
  | name => "Expecting property name enclosed in double quotes".toList
  | colon => "Expecting ':' delimiter".toList
  | comma => "Expecting ',' delimiter".toList
  | closingQuote => "Unterminated string starting at".toList
  | controlCharacter => "Invalid control character at".toList
  | escape => "Invalid \\escape".toList
  | unicodeEscape => "Invalid \\uXXXX escape".toList
  | extraData => "Extra data".toList
  | byteOrderMark => "Unexpected UTF-8 BOM (decode using utf-8-sig)".toList

/-- A failed reading: a complaint with the number of code points from its place to the end, an
integer with too many digits, or too many arrays and objects inside one another. -/
inductive Failure where
  | malformed (complaint : Complaint) (remaining : Nat)
  | longInteger
  | tooDeep

/-- The failure of a complaint at the start of `rest`. -/
def complain {α : Type} (complaint : Complaint) (rest : CodeText) : Except Failure α :=
  .error (.malformed complaint rest.length)

/-! ### Strings -/

/-- White space between tokens. -/
def isGap (c : CodePoint) : Bool :=
  c == .scalar ' ' || c == .scalar '\t' || c == .scalar '\n' || c == .scalar '\r'

/-- Skips white space. -/
def skipGap (rest : CodeText) : CodeText := rest.dropWhile isGap

/-- The value of a hexadecimal digit. -/
def hexPoint? : CodePoint → Option Nat
  | .scalar c => hexValue? c
  | .surrogate _ => none

/-- The value of four hexadecimal digits. -/
def hexFour? (a b c d : CodePoint) : Option Nat := do
  some ((((← hexPoint? a) * 16 + (← hexPoint? b)) * 16 + (← hexPoint? c)) * 16 + (← hexPoint? d))

/-- The number is a surrogate that opens a pair. -/
def isHighSurrogate (n : Nat) : Bool := 0xD800 ≤ n && n < 0xDC00

/-- The number is a surrogate that closes a pair. -/
def isLowSurrogate (n : Nat) : Bool := 0xDC00 ≤ n && n < 0xE000

/-- The character that a short escape stands for. -/
def shortEscape? (c : Char) : Option Char :=
  match c with
  | '"' => some '"'
  | '\\' => some '\\'
  | '/' => some '/'
  | 'b' => some '\x08'
  | 'f' => some '\x0c'
  | 'n' => some '\n'
  | 'r' => some '\r'
  | 't' => some '\t'
  | _ => none

/-- Reads a string after its opening quote, which stands `opening` code points before the end. A
numeric escape needs a code point behind it, and two that are the halves of a pair are one
character. -/
def readString (opening : Nat) : CodeText → Except Failure (CodeText × CodeText)
  | [] => .error (.malformed .closingQuote opening)
  | .scalar '"' :: rest => .ok ([], rest)
  | .scalar '\\' :: .scalar 'u' :: a :: b :: c :: d :: rest =>
      match if rest.isEmpty then none else hexFour? a b c d with
      | none => .error (.malformed .unicodeEscape (rest.length + 5))
      | some u =>
          match isHighSurrogate u, rest with
          | true, rest@(.scalar '\\' :: .scalar 'u' :: e :: f :: g :: h :: i :: more) =>
              match hexFour? e f g h with
              | none => .error (.malformed .unicodeEscape (more.length + 6))
              | some v =>
                  if isLowSurrogate v then do
                    let (text, rest) ← readString opening (i :: more)
                    .ok (.ofNat (0x10000 + (u - 0xD800) * 1024 + (v - 0xDC00)) :: text, rest)
                  else do
                    let (text, rest) ← readString opening rest
                    .ok (.ofNat u :: text, rest)
          | _, rest => do
              let (text, rest) ← readString opening rest
              .ok (.ofNat u :: text, rest)
  | .scalar '\\' :: .scalar 'u' :: rest => .error (.malformed .unicodeEscape (rest.length + 1))
  | .scalar '\\' :: c :: rest =>
      match c with
      | .scalar c =>
          match shortEscape? c with
          | some e => do
              let (text, rest) ← readString opening rest
              .ok (.scalar e :: text, rest)
          | none => .error (.malformed .escape (rest.length + 2))
      | .surrogate _ => .error (.malformed .escape (rest.length + 2))
  | [.scalar '\\'] => .error (.malformed .closingQuote opening)
  | c :: rest =>
      if c.value < 0x20 then .error (.malformed .controlCharacter (rest.length + 1))
      else do
        let (text, rest) ← readString opening rest
        .ok (c :: text, rest)

/-! ### Numbers -/

/-- The digits at the start, as characters, and the rest. -/
def takeDigits (rest : CodeText) : Text × CodeText :=
  (CodeText.toText (rest.takeWhile (CodePoint.satisfies isDigit)),
    rest.dropWhile (CodePoint.satisfies isDigit))

/-- The fraction at the start: a point with at least one digit. -/
def takeFraction (rest : CodeText) : Text × CodeText :=
  match rest with
  | .scalar '.' :: more =>
      let (digits, after) := takeDigits more
      if digits.isEmpty then ([], rest) else (digits, after)
  | _ => ([], rest)

/-- The exponent at the start: its mark, a sign or none, and at least one digit. -/
def takeExponent (rest : CodeText) : Option Int × CodeText :=
  match rest with
  | .scalar c :: more =>
      if c == 'e' || c == 'E' then
        let (negative, body) :=
          match more with
          | .scalar '-' :: more => (true, more)
          | .scalar '+' :: more => (false, more)
          | _ => (false, more)
        let (digits, after) := takeDigits body
        if digits.isEmpty then (none, rest)
        else
          let n : Int := natOfDigits digits
          (some (if negative then -n else n), after)
      else (none, rest)
  | _ => (none, rest)

/-- The whole part of a number: a lone zero, or digits that begin with another one. -/
def takeWhole (rest : CodeText) : Text × CodeText :=
  match rest with
  | .scalar '0' :: more => (['0'], more)
  | _ => takeDigits rest

/-- Reads a number after its sign; `start` is the text from the sign on. -/
def readNumber (start : CodeText) (negative : Bool) (rest : CodeText) :
    Except Failure (Json × CodeText) :=
  let (whole, rest) := takeWhole rest
  if whole.isEmpty then complain .value start
  else
    let (fraction, rest) := takeFraction rest
    let (exponent, rest) := takeExponent rest
    if fraction.isEmpty && exponent.isNone then
      if maxIntegerDigits < whole.length then .error .longInteger
      else
        let n : Int := natOfDigits whole
        .ok (.integer (if negative then -n else n), rest)
    else
      let digits := natOfDigits (whole ++ fraction)
      .ok (.real (.ofScaled negative digits (exponent.getD 0 - fraction.length)), rest)

/-! ### Values -/

/-- The words that are values. -/
def words : List (Text × Json) :=
  [("null".toList, .null), ("true".toList, .boolean true), ("false".toList, .boolean false),
    ("NaN".toList, .real .nan), ("Infinity".toList, .real (.infinity false)),
    ("-Infinity".toList, .real (.infinity true))]

/-- Reads a word or a number. -/
def readScalar (rest : CodeText) : Except Failure (Json × CodeText) :=
  match words.find? fun (word, _) => (CodeText.ofText word).isPrefixOf rest with
  | some (word, value) => .ok (value, rest.drop word.length)
  | none =>
      match rest with
      | .scalar '-' :: more => readNumber rest true more
      | _ => readNumber rest false rest

/-- Arrays and objects may lie this deep inside one another. -/
def maxNesting : Nat := 990

mutual

/-- Reads a value; each step into the text takes one of the `fuel`, and each array or object one of
the `room`. -/
def readValue : Nat → Nat → CodeText → Except Failure (Json × CodeText)
  | 0, _, rest => complain .value rest
  | fuel + 1, room, rest =>
      match rest with
      | .scalar '"' :: more => do
          let (text, rest) ← readString rest.length more
          .ok (.string text, rest)
      | .scalar '[' :: more =>
          if room = 0 then .error .tooDeep
          else
            match skipGap more with
            | .scalar ']' :: rest => .ok (.array [], rest)
            | more => do
                let (items, rest) ← readItems fuel (room - 1) more
                .ok (.array items, rest)
      | .scalar '\x7b' :: more =>
          if room = 0 then .error .tooDeep
          else
            match skipGap more with
            | .scalar '\x7d' :: rest => .ok (.object [], rest)
            | more => do
                let (fields, rest) ← readFields fuel (room - 1) [] more
                .ok (.object fields, rest)
      | _ => readScalar rest

/-- Reads the items of an array up to its end. -/
def readItems : Nat → Nat → CodeText → Except Failure (List Json × CodeText)
  | 0, _, rest => complain .value rest
  | fuel + 1, room, rest => do
      let (item, rest) ← readValue fuel room rest
      match skipGap rest with
      | .scalar ']' :: rest => .ok ([item], rest)
      | .scalar ',' :: rest => do
          let (items, rest) ← readItems fuel room (skipGap rest)
          .ok (item :: items, rest)
      | rest => complain .comma rest

/-- Reads the fields of an object up to its end; `fields` came before. -/
def readFields : Nat → Nat → List (CodeText × Json) → CodeText →
    Except Failure (List (CodeText × Json) × CodeText)
  | 0, _, _, rest => complain .name rest
  | fuel + 1, room, fields, rest =>
      match rest with
      | .scalar '"' :: more => do
          let (key, rest) ← readString rest.length more
          match skipGap rest with
          | .scalar ':' :: rest => do
              let (value, rest) ← readValue fuel room (skipGap rest)
              let fields := put key value fields
              match skipGap rest with
              | .scalar '\x7d' :: rest => .ok (fields, rest)
              | .scalar ',' :: rest => readFields fuel room fields (skipGap rest)
              | rest => complain .comma rest
          | rest => complain .colon rest
      | _ => complain .name rest

end

/-! ### Texts and octets -/

/-- Why a text could not be read: a complaint at an offset, an integer with too many digits, or too
many arrays and objects inside one another. -/
inductive ReadError where
  | malformed (complaint : Complaint) (text : CodeText) (offset : Nat)
  | longInteger
  | tooDeep

/-- The wording of a complaint with its place. Only line feeds begin lines. -/
def placedMessage (complaint : Complaint) (text : CodeText) (offset : Nat) : Text :=
  let before := text.take offset
  let line := before.count (.scalar '\n') + 1
  let column := (before.reverse.takeWhile (· != .scalar '\n')).length + 1
  complaint.message ++ ": line ".toList ++ Text.ofNat line ++ " column ".toList ++
    Text.ofNat column ++ " (char ".toList ++ Text.ofNat offset ++ [')']

/-- Reads the one value of a text. -/
def readAll (text : CodeText) : Except Failure Json := do
  let (value, rest) ← readValue (2 * text.length + 2) maxNesting (skipGap text)
  match skipGap rest with
  | [] => .ok value
  | rest => complain .extraData rest

/-- Places the failure to read `text` in it. -/
def Failure.placed (text : CodeText) : Failure → ReadError
  | .malformed complaint remaining => .malformed complaint text (text.length - remaining)
  | .longInteger => .longInteger
  | .tooDeep => .tooDeep

/-- The value of a text. -/
def read (text : CodeText) : Except ReadError Json :=
  (readAll text).mapError (Failure.placed text)

/-- The value of a text that came as characters: it must not begin with a byte order mark. -/
def readText (text : CodeText) : Except ReadError Json :=
  match text with
  | .scalar '\uFEFF' :: _ => .error (.malformed .byteOrderMark text 0)
  | _ => read text

/-- The code points of octets. A byte order mark tells the encoding; without one the zeros among the
first octets do, since a JSON text begins with characters of ASCII. -/
def decode (octets : Octets) : Option CodeText :=
  match octets with
  | 0x00 :: 0x00 :: 0xFE :: 0xFF :: more => decodeUtf32? false more
  | 0xFF :: 0xFE :: 0x00 :: 0x00 :: more => decodeUtf32? true more
  | 0xFE :: 0xFF :: more => decodeUtf16? false more
  | 0xFF :: 0xFE :: more => decodeUtf16? true more
  | 0xEF :: 0xBB :: 0xBF :: more => decodeUtf8? more
  | a :: b :: c :: d :: _ =>
      if a == 0 then (if b == 0 then decodeUtf32? false octets else decodeUtf16? false octets)
      else if b == 0 then
        (if c == 0 && d == 0 then decodeUtf32? true octets else decodeUtf16? true octets)
      else decodeUtf8? octets
  | [a, b] =>
      if a == 0 then decodeUtf16? false octets
      else if b == 0 then decodeUtf16? true octets
      else decodeUtf8? octets
  | _ => decodeUtf8? octets

end Json

end Galley
