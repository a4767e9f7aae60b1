import Galley.Markdown.Html
import Galley.Markdown.Link

/-!
Footnote references in running text. Whether a reference is one depends on everything around it:
code, math, raw HTML, links and escapes take characters away from it.

* `Names`: the labels that are defined in a document;
* `plainTokenEnd?`: the end of a token that holds no other ones;
* `labelEnd`: the bracket that closes a label;
* `bracketAt?`: the token that a bracket opens: a link, a picture, or a footnote;
* `tokenEnd`: the end of the token at a place, with what was found out before;
* `references`: the labels of the footnotes that a text refers to.
-/

namespace Galley.Markdown

/-- The labels that a document defines: keys of links, and labels of footnotes. -/
structure Names where
  links : List Text
  notes : List Text

/-! ### Tokens without tokens inside -/

/-- The characters that may begin something else than plain text. -/
def isMark (c : Char) : Bool :=
  c == '\x60' || "\n!#$%&*+-:<=>@[\\]^_\x7b\x7d~".toList.contains c

/-- The number of backslashes in front of an offset. If nothing else is in front of it, a backslash
at the end of the text counts too, as if the text were a ring. -/
def backslashesBefore (src : Text) (pos : Nat) : Nat :=
  let count := ((src.take pos).reverse.takeWhile (· == '\\')).length
  if count = pos && src.getLast? == some '\\' then count + 1 else count

/-- The offset behind the dollar that closes math; `pos` is the offset of `t` in `src`, and
`escaped` says that an odd number of backslashes came just before. -/
def mathClose? (pos : Nat) (escaped : Bool) : Text → Option Nat
  | [] => none
  | c :: cs =>
      if c == '$' && !escaped then some (pos + 1)
      else mathClose? (pos + 1) (c == '\\' && !escaped) cs

/-- The end of the math that begins at an offset. -/
def mathEnd (src : Text) (pos : Nat) : Option Nat :=
  if backslashesBefore src pos % 2 = 1 then none
  else (mathClose? (pos + 1) false (src.drop (pos + 1))).filter (pos + 2 < ·)

/-- The end of the run of `width` backticks that closes a code span; `fuel` bounds the number of
runs. -/
def codeClose? (width : Nat) : Nat → Nat → Text → Option Nat
  | 0, _, _ => none
  | fuel + 1, pos, t =>
      let skipped := (t.takeWhile (· != '\x60')).length
      let run := ((t.drop skipped).takeWhile (· == '\x60')).length
      if run = 0 then none
      else if run = width then some (pos + skipped + width)
      else codeClose? width fuel (pos + skipped + run) (t.drop (skipped + run))

/-- The end of the code span that begins at an offset; a run that nothing closes stands for
itself. -/
def codeSpanEnd (src : Text) (pos : Nat) : Nat :=
  let width := ((src.drop pos).takeWhile (· == '\x60')).length
  let rest := src.drop (pos + width)
  (codeClose? width (rest.length + 1) (pos + width) rest).getD (pos + width)

/-- The text is the scheme of an address and what follows it. -/
def isAddress (t : Text) : Bool :=
  let isSchemeChar := fun c => isLetter c || isDigit c || c == '+' || c == '.' || c == '-'
  let scheme := t.takeWhile isSchemeChar
  match t.dropWhile isSchemeChar with
  | ':' :: rest =>
      2 ≤ scheme.length && scheme.length ≤ 32 && (scheme.head?.map isLetter).getD false &&
        rest.all fun c => 0x20 < c.toNat && c != '<' && c != '>'
  | _ => false

/-- A part of a domain: letters, digits and hyphens inside, 63 at most. -/
def isDomainPart (t : Text) : Bool :=
  let isPlain := fun c => isLetter c || isDigit c
  !t.isEmpty && t.length ≤ 63 && (t.head?.map isPlain).getD false &&
    (t.getLast?.map isPlain).getD false && t.all fun c => isPlain c || c == '-'

/-- The text is an address of mail. -/
def isMailAddress (t : Text) : Bool :=
  let isLocal := fun c =>
    isLetter c || isDigit c || c == '\x60' || ".!#$%&'*+/=?^_\x7b|\x7d~-".toList.contains c
  match t.dropWhile (· != '@') with
  | '@' :: domain =>
      let name := t.takeWhile (· != '@')
      !name.isEmpty && name.all isLocal && (splitAt (· == '.') domain).all isDomainPart
  | _ => false

/-- The end of the address in angle brackets that begins at an offset. One line feed may stand in
front of the closing bracket. -/
def addressEnd? (src : Text) (limit pos : Nat) : Option Nat :=
  let t := (src.take limit).drop (pos + 1)
  let body := t.takeWhile fun c => c != '<' && c != '>'
  let address := if body.getLast? == some '\n' then body.dropLast else body
  if (t.drop body.length).head? == some '>' &&
      ((isAddress address && isSafeTarget address) || isMailAddress address) then
    some (pos + body.length + 2)
  else none

/-- The end of the raw HTML that begins at an offset. -/
def htmlEnd? (src : Text) (limit pos : Nat) : Option Nat :=
  let t := src.drop pos
  let opens := fun c => c == '!' || c == '?' || c == '/' || isLetter c
  if limit ≤ pos + 2 || !(t.tail.head?.map opens).getD false then none
  else (htmlSpan? t).map fun rest => src.length - rest.length

/-- The end of the token at an offset, if it is one that holds no other tokens and stands before
brackets in the order of precedence. -/
def plainTokenEnd? (src : Text) (limit pos : Nat) : Option Nat :=
  match src.drop pos with
  | [] => none
  | c :: cs =>
      if !isMark c then
        some (pos + 1 + ((cs.take (limit - (pos + 1))).takeWhile (!isMark ·)).length)
      else if c == '\n' then some (pos + 1 + blankCount (cs.take (limit - (pos + 1))))
      else if c == '$' then mathEnd src pos
      else if c == '\\' then
        if limit ≤ pos + 1 then none
        else if cs.head? == some '\n' then
          some (pos + 2 + blankCount ((cs.drop 1).take (limit - (pos + 2))))
        else some (pos + 2)
      else if c == '\x60' then some (codeSpanEnd src pos)
      else none

/-- The end of the token at an offset, if it is one that holds no other tokens and stands behind
brackets in the order of precedence. -/
def angleEnd? (src : Text) (limit pos : Nat) : Option Nat :=
  if src[pos]? == some '<' then addressEnd? src limit pos <|> htmlEnd? src limit pos else none

/-- The label of the footnote reference at an offset, and its end. -/
def noteReference? (names : Names) (src : Text) (limit pos : Nat) : Option (Text × Nat) :=
  match (src.take limit).drop pos with
  | '[' :: '^' :: body =>
      let label := body.takeWhile (· != ']')
      if label.isEmpty || label.length = body.length || label.contains ' ' || label.contains '\n' ||
          !names.notes.contains label then none
      else some (label, pos + label.length + 3)
  | _ => none

/-! ### Brackets -/

/-- The ends of tokens found so far, by their starts. -/
abbrev Known := List (Nat × Nat)

/-- Finds the end of the token at an offset. -/
abbrev Skipper := Known → Nat → Nat × Known

/-- Finds the bracket that closes a label, from `pos` on, where `depth` brackets are open. A strict
label holds no token that begins with a bracket. -/
def labelEndAux (skip : Skipper) (src : Text) (limit : Nat) (strict : Bool) :
    Nat → Nat → Known → Nat → Option Nat × Known
  | 0, _, known, _ => (none, known)
  | fuel + 1, depth, known, pos =>
      if limit ≤ pos then (none, known)
      else
        let c := src[pos]?
        if c == some ']' && depth ≤ 1 then (some pos, known)
        else
          let depth := if c == some ']' then depth - 1 else depth
          let (next, known) := skip known pos
          if c == some '[' then
            if next = pos + 1 then labelEndAux skip src limit strict fuel (depth + 1) known next
            else if strict then (none, known)
            else labelEndAux skip src limit strict fuel depth known next
          else labelEndAux skip src limit strict fuel depth known next

/-- The bracket that closes the label whose opening bracket stands at an offset. -/
def labelEnd (skip : Skipper) (src : Text) (limit : Nat) (strict : Bool) (known : Known)
    (pos : Nat) : Option Nat × Known :=
  labelEndAux skip src limit strict (src.length + 1) 1 known (pos + 1)

/-- A blank or a line feed. -/
def isLinkGap (c : Char) : Bool := isBlank c || c == '\n'

/-- The text behind the target of an inline link: a destination and a title. With `titleAlone` a
title may stand without a destination. -/
def afterTarget (titleAlone : Bool) (t : Text) : Text :=
  let title (t : Text) : Text :=
    let gap := t.dropWhile isLinkGap
    match linkTitle gap with
    | (_, .closed _ rest) => if gap.length < t.length then rest.dropWhile isLinkGap else gap
    | _ => gap
  match linkDestination? t with
  | some (destination, rest) => title (if isSafeDestination destination then rest else t)
  | none => if titleAlone then title t else t

/-- A token that a bracket opens: the bounds of its label, and its end. -/
structure Bracket where
  first : Nat
  last : Nat
  past : Nat

/-- The end of a link by reference whose label is `first` to `last`; `pos` is where a second label
may stand. -/
def referenceEnd? (skip : Skipper) (names : Names) (src : Text) (limit first last : Nat)
    (known : Known) (pos : Nat) : Option Bracket × Known :=
  if names.links.isEmpty then (none, known)
  else
    let (second?, known) :=
      if pos < limit && src[pos]? == some '[' then labelEnd skip src limit false known pos
      else (none, known)
    let own := (src.take last).drop first
    let (label, past) :=
      match second? with
      | some e =>
          let label := (src.take e).drop (pos + 1)
          (if label.isEmpty then own else label, e + 1)
      | none => (own, last + 1)
    (if names.links.contains (labelKey label) then some ⟨first, last, past⟩ else none, known)

/-- The link whose opening bracket stands at an offset. -/
def linkAt? (skip : Skipper) (names : Names) (src : Text) (limit : Nat) (known : Known)
    (pos : Nat) : Option Bracket × Known :=
  match labelEnd skip src limit true known pos with
  | (none, known) => (none, known)
  | (some last, known) =>
      let window := src.take limit
      match window.drop (last + 1) with
      | '(' :: t =>
          let body := t.dropWhile isLinkGap
          if body.isEmpty then (none, known)
          else
            let rest := afterTarget false body
            let past := window.length - rest.length + 1
            if rest.head? == some ')' then (some ⟨pos + 1, last, past⟩, known)
            else referenceEnd? skip names src limit (pos + 1) last known past
      | _ => referenceEnd? skip names src limit (pos + 1) last known (last + 1)

/-- The picture whose exclamation mark stands at an offset. -/
def pictureAt? (skip : Skipper) (names : Names) (src : Text) (limit : Nat) (known : Known)
    (pos : Nat) : Option Bracket × Known :=
  match labelEnd skip src limit false known (pos + 1) with
  | (none, known) => (none, known)
  | (some last, known) =>
      let window := src.take limit
      match window.drop (last + 1) with
      | '(' :: t =>
          let body := t.dropWhile isLinkGap
          if body.isEmpty then (none, known)
          else
            let rest := afterTarget true body
            let past := window.length - rest.length + 1
            (if rest.head? == some ')' then some ⟨pos + 2, last, past⟩ else none, known)
      | _ => referenceEnd? skip names src limit (pos + 2) last known (last + 1)

/-- The footnote whose text is given in place, at an offset. -/
def inlineNoteAt? (skip : Skipper) (src : Text) (limit : Nat) (known : Known) (pos : Nat) :
    Option Bracket × Known :=
  if limit ≤ pos + 2 then (none, known)
  else
    match labelEnd skip src limit false known (pos + 1) with
    | (none, known) => (none, known)
    | (some last, known) => (some ⟨pos + 2, last, last + 1⟩, known)

/-- The kinds of tokens that brackets make. -/
inductive BracketKind where
  | link
  | picture
  | inlineNote

/-- The token that a bracket opens at an offset, alone or behind another mark. -/
def bracketAt? (skip : Skipper) (names : Names) (src : Text) (limit : Nat) (known : Known)
    (pos : Nat) : Option (BracketKind × Bracket) × Known :=
  let found (kind : BracketKind) (r : Option Bracket × Known) := (r.1.map (kind, ·), r.2)
  match src.drop pos with
  | '[' :: _ => found .link (linkAt? skip names src limit known pos)
  | '!' :: c :: _ =>
      if c == '[' || limit ≤ pos + 1 then
        found .picture (pictureAt? skip names src limit known pos)
      else (none, known)
  | '^' :: '[' :: _ => found .inlineNote (inlineNoteAt? skip src limit known pos)
  | _ => (none, known)

/-! ### Tokens -/

/-- The end of the token at an offset, which is remembered. `room` is the number of brackets that
may still be looked into; without room the text is given up. -/
def tokenEnd (names : Names) (src : Text) (limit : Nat) : Nat → Skipper
  | room, known, pos =>
      match known.lookup pos with
      | some next => (next, known)
      | none =>
          match room with
          | 0 => (limit + 1, (pos, limit + 1) :: known)
          | room + 1 =>
              let (next, known) :=
                match plainTokenEnd? src limit pos with
                | some next => (next, known)
                | none =>
                    match bracketAt? (tokenEnd names src limit room) names src limit known pos with
                    | (some (_, b), known) => (b.past, known)
                    | (none, known) =>
                        let next? := (noteReference? names src limit pos).map Prod.snd
                          <|> angleEnd? src limit pos
                        (next?.getD (pos + 1), known)
              (next, (pos, next) :: known)

/-- Brackets are looked into at most this deep. -/
def maxBrackets : Nat := 20

/-- Collects references from `pos` to before `limit`. Each step into the text takes one of the
`fuel`, and `room` counts down inside links. -/
def referencesAux (names : Names) : Nat → Text → Nat → Nat → Known → Nat → List Text × Known
  | 0, _, _, _, known, _ => ([], known)
  | fuel + 1, src, limit, room, known, pos =>
      if limit ≤ pos then ([], known)
      else
        match room with
        | 0 => ([], known)
        | inner + 1 =>
            match plainTokenEnd? src limit pos with
            | some next => referencesAux names fuel src limit room known next
            | none =>
                match bracketAt? (tokenEnd names src limit room) names src limit known pos with
                | (some (kind, b), known) =>
                    let (inside, known) :=
                      match kind with
                      | .link => referencesAux names fuel src b.last inner known b.first
                      | _ =>
                          let text := (src.take b.last).drop b.first
                          ((referencesAux names fuel text text.length maxBrackets [] 0).1, known)
                    let (behind, known) := referencesAux names fuel src limit room known b.past
                    (inside ++ behind, known)
                | (none, known) =>
                    match noteReference? names src limit pos with
                    | some (label, next) =>
                        let (behind, known) := referencesAux names fuel src limit room known next
                        (label :: behind, known)
                    | none =>
                        let next := (angleEnd? src limit pos).getD (pos + 1)
                        referencesAux names fuel src limit room known next

/-- The labels of the footnotes that a text refers to, in their order. -/
def references (names : Names) (text : Text) : List Text :=
  (referencesAux names (text.length + 1) text text.length maxBrackets [] 0).1

end Galley.Markdown
