import Galley.Json.Display
import Galley.Json.Reader
import Galley.SourceMap.Basic

/-!
Reading reports and anchors from files.

* `LoadError`: what can be wrong with a file, with its wording;
* `loadReport`, `loadReportText`: the value of a report;
* `loadAnchors`: the anchors of a file.
-/

namespace Galley

/-- What is wrong with an entry of a file of anchors: a missing field, a value without fields or of
no use as a number, a text that is no numeral or has too many digits, or a number out of range. -/
inductive EntryFault where
  | missing (key : Text)
  | noFields (found : Json.Kind)
  | noInteger (found : Json.Kind)
  | noNumber (found : Json.Kind)
  | badInteger (numeral : CodeText)
  | badNumber (numeral : CodeText)
  | longInteger (digits : Nat)
  | undefined
  | tooLarge
deriving DecidableEq

/-- The number of characters that are shown of a bad integer. -/
def maxShownInteger : Nat := 200

/-- The wording of a fault; a number out of range has none. -/
def EntryFault.message? : EntryFault → Option Text
  | missing key => some (Json.quoted (CodeText.ofText key))
  | noFields .array => some "list indices must be integers or slices, not str".toList
  | noFields .string => some "string indices must be integers, not 'str'".toList
  | noFields found => some (found.quotedName ++ " object is not subscriptable".toList)
  | noInteger found =>
      some ("int() argument must be a string, a bytes-like object or a real number, not ".toList ++
        found.quotedName)
  | noNumber found =>
      some ("float() argument must be a string or a real number, not ".toList ++ found.quotedName)
  | badInteger numeral =>
      some ("invalid literal for int() with base 10: ".toList ++
        (Json.quoted numeral).take maxShownInteger)
  | badNumber numeral =>
      some ("could not convert string to float: ".toList ++ Json.quoted numeral)
  | longInteger digits =>
      some ("Exceeds the limit (".toList ++ Text.ofNat maxIntegerDigits ++
        " digits) for integer string conversion: value has ".toList ++ Text.ofNat digits ++
        " digits; use sys.set_int_max_str_digits() to increase the limit".toList)
  | undefined => some "cannot convert float NaN to integer".toList
  | tooLarge => none

/-- What can be wrong with a file. -/
inductive LoadError where
  | malformed (complaint : Json.Complaint) (text : CodeText) (offset : Nat)
  | longInteger
  | tooDeep
  | undecodable
  | noAnchorList (path : Text)
  | badEntry (path : Text) (fault : EntryFault)

/-- What stands in front of the wording of a fault. -/
def badEntryHeading (path : Text) : Text :=
  "Malformed anchor entry in ".toList ++ path ++ [':', ' ']

/-- The wording of errors that are reported as such. -/
def LoadError.message? : LoadError → Option Text
  | malformed complaint text offset =>
      some ("Invalid position query JSON: ".toList ++ Json.placedMessage complaint text offset)
  | noAnchorList path => some ("Anchors file has no anchor list: ".toList ++ path)
  | badEntry path fault => fault.message?.map (badEntryHeading path ++ ·)
  | longInteger => none
  | tooDeep => none
  | undecodable => none

/-! ### Reports -/

/-- The error of a failed reading. -/
def LoadError.ofReadError : Json.ReadError → LoadError
  | .malformed complaint text offset => .malformed complaint text offset
  | .longInteger => .longInteger
  | .tooDeep => .tooDeep

/-- The value of a report that came as a text. -/
def loadReportText (text : Text) : Except LoadError Json :=
  (Json.readText (CodeText.ofText text)).mapError .ofReadError

/-- The value of a report in a file. -/
def loadReport (octets : Octets) : Except LoadError Json :=
  match Json.decode octets with
  | none => .error .undecodable
  | some text => (Json.read text).mapError .ofReadError

/-! ### Entries -/

/-- The value of a field that has to be there, in an object. -/
def requiredField (key : Text) (value : Json) : Except EntryFault Json :=
  match value with
  | .object _ =>
      match value.get? key with
      | some v => .ok v
      | none => .error (.missing key)
  | _ => .error (.noFields value.kind)

/-- The fault of a number that cannot be taken over. -/
def EntryFault.ofNumberFault : NumberFault → EntryFault
  | .tooLarge => .tooLarge
  | .notANumber => .undefined

/-- The fault of a text that denotes no integer. -/
def integerFault (s : CodeText) : EntryFault :=
  match leadingDigits? (CodeText.toText s) with
  | some n => if maxIntegerDigits < n then .longInteger n else .badInteger s
  | none => .badInteger s

/-- The integer that a value gives. Truth values count as one and zero. -/
def entryInteger : Json → Except EntryFault Int
  | .integer n => .ok n
  | .boolean b => .ok (if b then 1 else 0)
  | .real x => (wholePart x).mapError .ofNumberFault
  | .string s =>
      match (CodeText.toText? s).bind readInt? with
      | some n => .ok n
      | none => .error (integerFault s)
  | value => .error (.noInteger value.kind)

/-- The number that a value gives. Truth values count as one and zero. -/
def entryNumber : Json → Except EntryFault Binary64
  | .integer n => (exactNumber n).mapError .ofNumberFault
  | .boolean b => .ok (if b then .ofScaled false 1 0 else .zero)
  | .real x => .ok x
  | .string s =>
      match (CodeText.toText? s).bind readNumber? with
      | some x => .ok x
      | none => .error (.badNumber s)
  | value => .error (.noNumber value.kind)

/-- The position of an entry. -/
def entryPosition (value : Json) : Except EntryFault PagePosition := do
  let page ← entryInteger (← requiredField "page".toList value)
  let x ← entryNumber (← requiredField ['x'] value)
  let y ← entryNumber (← requiredField ['y'] value)
  .ok ⟨page, x, y⟩

/-- The anchor of an entry. -/
def entryAnchor (value : Json) : Except EntryFault Anchor := do
  let editor ← requiredField "editor".toList value
  let id ← requiredField "id".toList value
  let offset ← entryInteger (← requiredField "offset".toList editor)
  let line ← entryInteger (← requiredField "line".toList editor)
  let column ← entryInteger (← requiredField "column".toList editor)
  let rendered ←
    match value.get? "pdf".toList with
    | some (.object fields) => (entryPosition (.object fields)).map some
    | _ => .ok none
  .ok ⟨id.name, ⟨offset, line, column⟩, rendered⟩

/-- The anchors of entries, up to the first bad one. -/
def entryAnchors : List Json → Except EntryFault (List Anchor)
  | [] => .ok []
  | entry :: entries => do
      let anchor ← entryAnchor entry
      let anchors ← entryAnchors entries
      .ok (anchor :: anchors)

/-- The entries of a file of anchors: a list, or the field of an object with the list. -/
def anchorEntries? : Json → Option (List Json)
  | .array entries => some entries
  | .object fields =>
      match Json.get? "anchors".toList (.object fields) with
      | some (.array entries) => some entries
      | some _ => none
      | none => some []
  | _ => none

/-- The anchors of a file. -/
def loadAnchors (path : Text) (octets : Octets) : Except LoadError (List Anchor) := do
  match anchorEntries? (← loadReport octets) with
  | none => .error (.noAnchorList path)
  | some entries => (entryAnchors entries).mapError (.badEntry path)

end Galley
