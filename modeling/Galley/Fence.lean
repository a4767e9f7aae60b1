import Galley.Text.LetterCase

/-!
The info string of a diagram fence, such as `tikz scale=0.75 format='svg'`: a marker word and
options.

* `words`: the words of an info string, cut at spaces, commas and semicolons outside quotes;
* `unescape`, `optionValue`: the value that is written in a word;
* `DiagramOptions`, `diagramOptions?`: the options of a diagram fence.
-/

namespace Galley

namespace Fence

/-! ### Words -/

/-- A separator of words where no quote is open. -/
def isSeparator (c : Char) : Bool := isSpace c || c == ',' || c == ';'

/-- A quotation mark. -/
def isQuote (c : Char) : Bool := c == '\'' || c == '"'

/-- The quote that is open after a quotation mark. -/
def nextQuote (quote : Option Char) (c : Char) : Option Char :=
  match quote with
  | none => some c
  | some q => if c == q then none else some q

/-- Adds a word that is read to the end, without the spaces at its ends. -/
def addWord (current : Text) (rest : List Text) : List Text :=
  let word := Text.trim current.reverse
  if word.isEmpty then rest else word :: rest

/-- Cuts words; `quote` is the quote that is open, `current` the word being read, last character
first. A backslash takes the next character with it. -/
def wordsAux (quote : Option Char) (current : Text) : Text → List Text
  | [] => addWord current []
  | '\\' :: c :: cs => wordsAux quote (c :: '\\' :: current) cs
  | c :: cs =>
      if isQuote c then wordsAux (nextQuote quote c) (c :: current) cs
      else if quote.isNone && isSeparator c then addWord current (wordsAux quote [] cs)
      else wordsAux quote (c :: current) cs

/-- The words of an info string, with their quotes and backslashes. -/
def words (info : Text) : List Text := wordsAux none [] info

/-! ### Values -/

/-- The character that a backslash and `c` stand for inside quotes. -/
def escaped? (c : Char) : Option Char :=
  match c with
  | 'n' => some '\n'
  | 'r' => some '\r'
  | 't' => some '\t'
  | '\\' => some '\\'
  | '"' => some '"'
  | '\'' => some '\''
  | _ => none

/-- Resolves the escapes; a backslash in front of any other character stays. -/
def unescape : Text → Text
  | '\\' :: c :: cs =>
      match escaped? c with
      | some e => e :: unescape cs
      | none => '\\' :: c :: unescape cs
  | c :: cs => c :: unescape cs
  | [] => []

/-- The body of a text in quotes: it begins and ends with the same quotation mark. -/
def quoted? (t : Text) : Option Text :=
  match t with
  | q :: body => if isQuote q && body.getLast? == some q then some body.dropLast else none
  | [] => none

/-- The value that is written after the equals sign of an option. -/
def optionValue (raw : Text) : Text :=
  let trimmed := trimBy (fun c => c == ',' || c == ';') (Text.trim raw)
  match quoted? trimmed with
  | some body => unescape body
  | none => trimmed

end Fence

/-! ### Options -/

/-- The options of a diagram, as written. -/
structure DiagramOptions where
  scale : Option Text := none
  preamble : Option Text := none
  format : Option Text := none
deriving DecidableEq

namespace Fence

/-- Punctuation that may surround the marker and the keys. -/
def isBracket (c : Char) : Bool := ",\x7b\x7d[]();".toList.contains c

/-- The word that marks the fence of a diagram. -/
def marker : Text := "tikz".toList

/-- The name of an option without punctuation and case. -/
def optionKey (raw : Text) : Text := lowerWord (trimBy isBracket (Text.trim raw))

/-- The key and the value of a word with an equals sign. -/
def option? (word : Text) : Option (Text × Text) :=
  match word.dropWhile (· != '=') with
  | [] => none
  | _ :: value => some (optionKey (word.takeWhile (· != '=')), optionValue value)

/-- Sets the option that a word gives; other words change nothing. -/
def setOption (options : DiagramOptions) (word : Text) : DiagramOptions :=
  match option? word with
  | none => options
  | some (key, value) =>
      if key == "scale".toList then { options with scale := some value }
      else if key == "preamble".toList then { options with preamble := some value }
      else if key == "format".toList then { options with format := some value }
      else options

/-- The options of an info string, if its first word is the marker. Of several words for one option
the last one counts. -/
def diagramOptions? (info : Text) : Option DiagramOptions :=
  match words (Text.trim info) with
  | [] => none
  | first :: rest =>
      if lowerWord (trimBy isBracket first) = marker then some (rest.foldl setOption {}) else none

end Fence

end Galley
