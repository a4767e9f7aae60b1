import Galley.Json.Basic
import Galley.Number.Shortest

/-!
Writing JSON in ASCII, on one line or with indentation.

* `Json.quote`: a string, all characters outside printable ASCII escaped;
* `Json.write`: a value, with the members of arrays and objects on lines of their own if an
  indentation is given.
-/

namespace Galley

namespace Json

/-! ### Strings -/

/-- The escape of one unit of sixteen bits. -/
def unitEscape (n : Nat) : Text := '\\' :: 'u' :: hexDigits 4 n

/-- One code point inside a string. -/
def quotePoint (c : CodePoint) : Text :=
  match c with
  | .scalar '"' => ['\\', '"']
  | .scalar '\\' => ['\\', '\\']
  | .scalar '\n' => ['\\', 'n']
  | .scalar '\r' => ['\\', 'r']
  | .scalar '\t' => ['\\', 't']
  | .scalar '\x0c' => ['\\', 'f']
  | .scalar '\x08' => ['\\', 'b']
  | .scalar c =>
      let n := c.toNat
      if 0x20 ≤ n && n < 0x7F then [c]
      else if n < 0x10000 then unitEscape n
      else unitEscape (0xD800 + (n - 0x10000) / 1024) ++ unitEscape (0xDC00 + (n - 0x10000) % 1024)
  | .surrogate i => unitEscape (0xD800 + i.val)

/-- A string in quotes. -/
def quote (s : CodeText) : Text := '"' :: (s.flatMap quotePoint ++ ['"'])

/-! ### Values -/

/-- A floating point number; the words for infinities and not-a-number are those that are read. -/
def writeReal : Binary64 → Text
  | .nan => "NaN".toList
  | .infinity negative => (if negative then "-Infinity" else "Infinity").toList
  | x => x.text

/-- The break before a member at a depth: nothing on one line. -/
def breakLine (indent : Option Nat) (depth : Nat) : Text :=
  match indent with
  | none => []
  | some width => '\n' :: List.replicate (width * depth) ' '

/-- The separator between two members at a depth. -/
def separator (indent : Option Nat) (depth : Nat) : Text :=
  match indent with
  | none => [',', ' ']
  | some _ => ',' :: breakLine indent depth

mutual

/-- A value at a depth. -/
def writeAt (indent : Option Nat) (depth : Nat) : Json → Text
  | .null => "null".toList
  | .boolean b => (if b then "true" else "false").toList
  | .integer n => Text.ofInt n
  | .real x => writeReal x
  | .string s => quote s
  | .array [] => ['[', ']']
  | .array (item :: items) =>
      '[' :: (breakLine indent (depth + 1) ++ writeAt indent (depth + 1) item ++
        writeItems indent (depth + 1) items ++ breakLine indent depth ++ [']'])
  | .object [] => ['\x7b', '\x7d']
  | .object ((key, value) :: fields) =>
      '\x7b' :: (breakLine indent (depth + 1) ++ quote key ++ [':', ' '] ++
        writeAt indent (depth + 1) value ++ writeFields indent (depth + 1) fields ++
        breakLine indent depth ++ ['\x7d'])

/-- The items after the first, each after a separator. -/
def writeItems (indent : Option Nat) (depth : Nat) : List Json → Text
  | [] => []
  | item :: items =>
      separator indent depth ++ writeAt indent depth item ++ writeItems indent depth items

/-- The fields after the first, each after a separator. -/
def writeFields (indent : Option Nat) (depth : Nat) : List (CodeText × Json) → Text
  | [] => []
  | (key, value) :: fields =>
      separator indent depth ++ quote key ++ [':', ' '] ++ writeAt indent depth value ++
        writeFields indent depth fields

end

/-- The text of a value: on one line, or with every member on a line of its own, indented by
`indent` blanks for each depth. -/
def write (indent : Option Nat) (value : Json) : Text := writeAt indent 0 value

end Json

end Galley
