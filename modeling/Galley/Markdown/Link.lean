import Galley.Text.LetterCase
import Galley.Text.Utf8

/-!
The parts of links, as they stand behind a label or in a link definition.

* `linkDestination?`: a destination, in angle brackets or bare;
* `linkTitle`: a title in quotes or parentheses, which may go on in the next line of a definition;
* `isSafeDestination`: the destination runs no script and reads no file;
* `labelKey`: the form in which labels are compared.
-/

namespace Galley.Markdown

/-! ### Destinations -/

/-- The destination up to the closing angle bracket, and the text behind it. -/
def angleDestination? : Text → Option (Text × Text)
  | [] => none
  | '\\' :: c :: cs => (angleDestination? cs).map fun (d, rest) => ('\\' :: c :: d, rest)
  | c :: cs =>
      if c == '\n' || c == '<' then none
      else if c == '>' then some ([], cs)
      else (angleDestination? cs).map fun (d, rest) => (c :: d, rest)

/-- A control character of ASCII or a space ends a bare destination. -/
def endsDestination (c : Char) : Bool := c.toNat ≤ 0x20 || c.toNat == 0x7F

/-- A bare destination with `open` unclosed parentheses. There may be 32 of them. -/
def bareDestination? (opened : Nat) : Text → Option (Text × Text)
  | [] => if opened = 0 then some ([], []) else none
  | '\\' :: c :: cs =>
      if c == ' ' then (if opened = 0 then some ([], '\\' :: c :: cs) else none)
      else (bareDestination? opened cs).map fun (d, rest) => ('\\' :: c :: d, rest)
  | c :: cs =>
      if endsDestination c then (if opened = 0 then some ([], c :: cs) else none)
      else if c == '(' then
        if 32 ≤ opened then none
        else (bareDestination? (opened + 1) cs).map fun (d, rest) => (c :: d, rest)
      else if c == ')' then
        if opened = 0 then some ([], c :: cs)
        else (bareDestination? (opened - 1) cs).map fun (d, rest) => (c :: d, rest)
      else (bareDestination? opened cs).map fun (d, rest) => (c :: d, rest)

/-- The destination at the start of a text, and the text behind it. -/
def linkDestination? (t : Text) : Option (Text × Text) :=
  match t with
  | '<' :: cs => angleDestination? cs
  | _ =>
      match bareDestination? 0 t with
      | some ([], _) => none
      | found => found

/-! ### Titles -/

/-- The outcome of reading a title: there is none, it is closed, or the text ended inside it. -/
inductive TitleResult where
  | absent
  | closed (isEmpty : Bool) (rest : Text)
  | unclosed

/-- Reads a title up to its closing mark; `isEmpty` says that nothing was read before. -/
def titleBody (mark : Char) (isEmpty : Bool) : Text → TitleResult
  | [] => .unclosed
  | '\\' :: _ :: cs => titleBody mark false cs
  | c :: cs =>
      if c == mark then .closed isEmpty cs
      else if c == '(' && mark == ')' then .absent
      else titleBody mark false cs

/-- The closing mark of the title that a character opens. -/
def titleMark? (c : Char) : Option Char :=
  if c == '"' || c == '\'' then some c else if c == '(' then some ')' else none

/-- Reads a title at the start of a text; the closing mark comes with it. -/
def linkTitle (t : Text) : Option Char × TitleResult :=
  match t with
  | [] => (none, .absent)
  | c :: cs =>
      match titleMark? c with
      | none => (none, .absent)
      | some mark => (some mark, titleBody mark true cs)

/-! ### Escapes and entities -/

/-- Punctuation of ASCII, which a backslash makes plain. -/
def isPunctuation (c : Char) : Bool :=
  let n := c.toNat
  (0x21 ≤ n && n ≤ 0x2F) || (0x3A ≤ n && n ≤ 0x40) || (0x5B ≤ n && n ≤ 0x60) ||
    (0x7B ≤ n && n ≤ 0x7E)

/-- The named entities that stand for white space or for characters of ASCII, with the code points
that they stand for. Other names do not bear on the scheme of a destination. -/
def namedEntities : List (String × List Nat) := [
  ("Tab", [0x09]), ("NewLine", [0x0A]), ("excl", [0x21]), ("quot", [0x22]), ("QUOT", [0x22]),
  ("num", [0x23]), ("dollar", [0x24]), ("percnt", [0x25]), ("amp", [0x26]), ("AMP", [0x26]),
  ("apos", [0x27]), ("lpar", [0x28]), ("rpar", [0x29]), ("ast", [0x2A]), ("midast", [0x2A]),
  ("plus", [0x2B]), ("comma", [0x2C]), ("period", [0x2E]), ("sol", [0x2F]), ("colon", [0x3A]),
  ("semi", [0x3B]), ("lt", [0x3C]), ("LT", [0x3C]), ("equals", [0x3D]), ("gt", [0x3E]),
  ("GT", [0x3E]), ("quest", [0x3F]), ("commat", [0x40]), ("lsqb", [0x5B]), ("lbrack", [0x5B]),
  ("bsol", [0x5C]), ("rsqb", [0x5D]), ("rbrack", [0x5D]), ("Hat", [0x5E]), ("lowbar", [0x5F]),
  ("UnderBar", [0x5F]), ("grave", [0x60]), ("DiacriticalGrave", [0x60]), ("lcub", [0x7B]),
  ("lbrace", [0x7B]), ("verbar", [0x7C]), ("vert", [0x7C]), ("VerticalLine", [0x7C]),
  ("rcub", [0x7D]), ("rbrace", [0x7D]), ("fjlig", [0x66, 0x6A]), ("nbsp", [0xA0]),
  ("NonBreakingSpace", [0xA0]), ("ensp", [0x2002]), ("emsp", [0x2003]), ("emsp13", [0x2004]),
  ("emsp14", [0x2005]), ("numsp", [0x2007]), ("puncsp", [0x2008]), ("thinsp", [0x2009]),
  ("ThinSpace", [0x2009]), ("hairsp", [0x200A]), ("VeryThinSpace", [0x200A]),
  ("MediumSpace", [0x205F]), ("ThickSpace", [0x205F, 0x200A])]

/-- A code point that a numeric entity may name. -/
def isEntityCode (n : Nat) : Bool :=
  !((0xD800 ≤ n && n ≤ 0xDFFF) || (0xFDD0 ≤ n && n ≤ 0xFDEF) || n % 0x10000 == 0xFFFF ||
    n % 0x10000 == 0xFFFE || n ≤ 0x08 || n == 0x0B || (0x0E ≤ n && n ≤ 0x1F) ||
    (0x7F ≤ n && n ≤ 0x9F) || 0x10FFFF < n)

/-- The code of a numeric entity, without its number sign. -/
def numericEntity? (name : Text) : Option Nat :=
  let code? :=
    match name with
    | 'x' :: digits | 'X' :: digits =>
        if digits.isEmpty || 8 < digits.length then none
        else digits.foldlM (fun n c => (hexValue? c).map (16 * n + ·)) 0
    | digits =>
        if digits.isEmpty || 8 < digits.length || !digits.all isDigit then none
        else some (natOfDigits digits)
  code?.filter isEntityCode

/-- The text that an entity stands for, by its name. -/
def entity? (name : Text) : Option Text :=
  match name with
  | '#' :: code => (numericEntity? code).map fun n => [Char.ofNat n]
  | _ => (namedEntities.lookup (String.ofList name)).map fun codes => codes.map Char.ofNat

/-- A character inside the name of an entity. -/
def isEntityChar (c : Char) : Bool := isLetter c || isDigit c

/-- The entity behind an ampersand: what it stands for, and the length of its text with the
semicolon. -/
def entityAt? (t : Text) : Option (Text × Nat) :=
  match t with
  | [] => none
  | c :: cs =>
      if c == '#' || isLetter c then
        let more := cs.takeWhile isEntityChar
        let closed := (cs.dropWhile isEntityChar).head? == some ';'
        if more.isEmpty || 31 < more.length || !closed then none
        else (entity? (c :: more)).map (·, more.length + 2)
      else none

/-- Resolves escapes and entities; `skip` characters belong to an entity already resolved. -/
def plainTextAux (skip : Nat) : Text → Text
  | [] => []
  | c :: cs =>
      match skip with
      | skip + 1 => plainTextAux skip cs
      | 0 =>
          if c == '\\' && (cs.head?.map isPunctuation).getD false then
            cs.take 1 ++ plainTextAux 1 cs
          else if c == '&' then
            match entityAt? cs with
            | some (text, width) => text ++ plainTextAux width cs
            | none => c :: plainTextAux 0 cs
          else c :: plainTextAux 0 cs

/-- A text with its escapes and entities resolved. -/
def plainText (t : Text) : Text := plainTextAux 0 t

/-! ### Safety and labels -/

/-- The schemes that are refused. -/
def refusedSchemes : List Text :=
  ["vbscript:".toList, "javascript:".toList, "file:".toList, "data:".toList]

/-- The pictures that may be given in place. -/
def pictureSchemes : List Text :=
  ["data:image/gif;".toList, "data:image/png;".toList, "data:image/jpeg;".toList,
    "data:image/webp;".toList]

/-- A target that runs no script and reads no file. -/
def isSafeTarget (plain : Text) : Bool :=
  let target := lowerWord (Text.trim plain)
  !refusedSchemes.any (·.isPrefixOf target) || pictureSchemes.any (·.isPrefixOf target)

/-- A destination whose target is safe. -/
def isSafeDestination (raw : Text) : Bool := isSafeTarget (plainText raw)

/-- Collapses each run of padding into a space; `pending` says that a run was just read. -/
def collapsePadding (pending : Bool) : Text → Text
  | [] => []
  | c :: cs =>
      if isPadding c then collapsePadding true cs
      else if pending then ' ' :: c :: collapsePadding false cs
      else c :: collapsePadding false cs

/-- The form in which labels are compared. -/
def labelKey (label : Text) : Text := caseKey (collapsePadding false (Text.unpad label))

end Galley.Markdown
