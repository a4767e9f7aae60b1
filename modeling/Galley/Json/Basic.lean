import Galley.Number.Binary64
import Galley.Text.CodePoint

/-!
JSON values. Numbers without fraction and exponent are integers of any size, all others are floating
point numbers; an object keeps the order of its fields.

* `Json`: the values;
* `Json.get?`: the value of a field;
* `Json.put`: a field is added at the end, or replaced where it stands;
* `Json.ofText`, `Json.ofFields`: values made of a text, and of fields.
-/

namespace Galley

/-- A JSON value. -/
inductive Json where
  | null
  | boolean (value : Bool)
  | integer (value : Int)
  | real (value : Binary64)
  | string (value : CodeText)
  | array (items : List Json)
  | object (fields : List (CodeText × Json))

instance : Inhabited Json := ⟨.null⟩

namespace Json

/-- The string of a text. -/
def ofText (t : Text) : Json := .string (CodeText.ofText t)

/-- Replaces the value of a field, or adds the field at the end. -/
def put (key : CodeText) (value : Json) : List (CodeText × Json) → List (CodeText × Json)
  | [] => [(key, value)]
  | (k, v) :: fields => if k = key then (k, value) :: fields else (k, v) :: put key value fields

/-- The value of a field. -/
def lookup? (key : CodeText) : List (CodeText × Json) → Option Json
  | [] => none
  | (k, v) :: fields => if k = key then some v else lookup? key fields

/-- The value of the field `key` of an object. -/
def get? (key : Text) : Json → Option Json
  | .object fields => lookup? (CodeText.ofText key) fields
  | _ => none

/-- The object with the given fields. -/
def ofFields (fields : List (String × Json)) : Json :=
  .object (fields.map fun (k, v) => (CodeText.ofText k.toList, v))

end Json

end Galley
