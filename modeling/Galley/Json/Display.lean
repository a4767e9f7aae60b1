import Galley.Json.Basic
import Galley.Number.Shortest
import Galley.Text.Printable

/-!
The text of a value that stands where a name is expected. Strings name themselves; of other values
the name is how they are shown, and inside arrays and objects strings are shown in quotes.

* `Json.showString`: a string in single quotes, or in double quotes if it holds single ones only;
* `Json.shown`: a value inside another one;
* `Json.name`: the text of a value;
* `Json.quoted`: a string in quotes, for messages;
* `Json.Kind`, `Json.kind`: the kind of a value, and its name in messages.
-/

namespace Galley

namespace Json

/-! ### Strings -/

/-- One code point between quotes. -/
def showPoint (quote : Char) (c : CodePoint) : CodeText :=
  let plain := CodeText.ofText
  match c with
  | .scalar '\\' => plain ['\\', '\\']
  | .scalar '\n' => plain ['\\', 'n']
  | .scalar '\r' => plain ['\\', 'r']
  | .scalar '\t' => plain ['\\', 't']
  | c =>
      if c == .scalar quote then plain ['\\', quote]
      else if c.isPrintable then [c]
      else
        let n := c.value
        if n < 0x100 then plain ('\\' :: 'x' :: hexDigits 2 n)
        else if n < 0x10000 then plain ('\\' :: 'u' :: hexDigits 4 n)
        else plain ('\\' :: 'U' :: hexDigits 8 n)

/-- A string in quotes. -/
def showString (s : CodeText) : CodeText :=
  let quote := if s.contains (.scalar '\'') && !s.contains (.scalar '"') then '"' else '\''
  .scalar quote :: (s.flatMap (showPoint quote) ++ [.scalar quote])

/-- A string in quotes, for messages. All its characters can be shown. -/
def quoted (s : CodeText) : Text := CodeText.toText (showString s)

/-! ### Kinds -/

/-- The kinds of values. -/
inductive Kind where
  | null
  | boolean
  | integer
  | real
  | string
  | array
  | object
deriving DecidableEq

/-- The kind of a value. -/
def kind : Json → Kind
  | .null => .null
  | .boolean _ => .boolean
  | .integer _ => .integer
  | .real _ => .real
  | .string _ => .string
  | .array _ => .array
  | .object _ => .object

/-- The name of a kind in messages. -/
def Kind.name : Kind → Text
  | null => "NoneType".toList
  | boolean => "bool".toList
  | integer => "int".toList
  | real => "float".toList
  | string => "str".toList
  | array => "list".toList
  | object => "dict".toList

/-- The name of a kind in quotes. -/
def Kind.quotedName (k : Kind) : Text := '\'' :: (k.name ++ ['\''])

/-! ### Values -/

mutual

/-- A value inside another one. -/
def shown : Json → CodeText
  | .null => CodeText.ofText "None".toList
  | .boolean b => CodeText.ofText (if b then "True" else "False").toList
  | .integer n => CodeText.ofText (Text.ofInt n)
  | .real x => CodeText.ofText x.text
  | .string s => showString s
  | .array items => .scalar '[' :: (shownItems true items ++ [.scalar ']'])
  | .object fields => .scalar '\x7b' :: (shownFields true fields ++ [.scalar '\x7d'])

/-- The items of an array, each but the first after a comma. -/
def shownItems (first : Bool) : List Json → CodeText
  | [] => []
  | item :: items =>
      CodeText.ofText (if first then [] else [',', ' ']) ++ shown item ++ shownItems false items

/-- The fields of an object, each but the first after a comma. -/
def shownFields (first : Bool) : List (CodeText × Json) → CodeText
  | [] => []
  | (key, value) :: fields =>
      CodeText.ofText (if first then [] else [',', ' ']) ++ showString key ++
        CodeText.ofText [':', ' '] ++ shown value ++ shownFields false fields

end

/-- The text of a value that stands where a name is expected. -/
def name : Json → CodeText
  | .string s => s
  | value => shown value

end Json

end Galley
