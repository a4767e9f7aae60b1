import Galley.Markdown.Leaf
import Galley.Markdown.Link

/-!
Link definitions: a label, a destination and a title or none. They take whole lines, and a line is
only taken when a part goes on in it.

* `Reading`: the text of the lines taken so far that is left to read, and the lines that may be
  taken;
* `definitionRule`: the definition that begins at a line.
-/

namespace Galley.Markdown

/-- The rest of the lines taken so far, the lines that may still be taken, and the number of the
next one. -/
structure Reading where
  rest : Text
  pending : List Text
  line : Nat

/-- Takes the next line, if there is one. -/
def Reading.take (r : Reading) : Reading :=
  match r.pending with
  | [] => r
  | t :: ts => ⟨r.rest ++ t, ts, r.line + 1⟩

/-- The content of a line with the line feed behind it. -/
def Line.contentWithBreak (l : Line) : Text := l.content ++ (if l.ended then ['\n'] else [])

/-- The lines from `line` on that may belong to a definition. -/
def continuations (ctx : Context) (lines : Lines) : Nat → Nat → List Text
  | 0, _ => []
  | fuel + 1, line =>
      let l := lines.at line
      if l.isVoid then []
      else if !(ctx.isCode l || l.indent < 0) && endsDefinition ctx lines line ctx.limit then []
      else l.contentWithBreak :: continuations ctx lines fuel (line + 1)

/-- Reads a label up to its closing bracket. -/
def definitionLabel? : Nat → Reading → Option (Text × Reading)
  | 0, _ => none
  | fuel + 1, r =>
      match r.rest with
      | [] => none
      | '[' :: _ => none
      | ']' :: rest => some ([], { r with rest })
      | '\n' :: rest =>
          (definitionLabel? fuel (Reading.take { r with rest })).map fun (t, r) => ('\n' :: t, r)
      | '\\' :: '\n' :: rest =>
          (definitionLabel? fuel (Reading.take { r with rest })).map fun (t, r) =>
            ('\\' :: '\n' :: t, r)
      | '\\' :: c :: rest =>
          (definitionLabel? fuel { r with rest }).map fun (t, r) => ('\\' :: c :: t, r)
      | c :: rest => (definitionLabel? fuel { r with rest }).map fun (t, r) => (c :: t, r)

/-- Skips blanks and line feeds. The flag tells whether anything was skipped. -/
def skipGaps : Nat → Bool → Reading → Bool × Reading
  | 0, moved, r => (moved, r)
  | fuel + 1, moved, r =>
      match r.rest with
      | '\n' :: rest => skipGaps fuel true (Reading.take { r with rest })
      | c :: rest => if isBlank c then skipGaps fuel true { r with rest } else (moved, r)
      | [] => (moved, r)

/-- Goes on with a title in the lines that may be taken. -/
def continueTitle (mark : Char) (isEmpty : Bool) (line : Nat) :
    List Text → TitleResult × List Text × Nat
  | [] => (.unclosed, [], line)
  | t :: ts =>
      match titleBody mark isEmpty t with
      | .unclosed => continueTitle mark (isEmpty && t.isEmpty) (line + 1) ts
      | result => (result, ts, line + 1)

/-- The end of a definition: only blanks are left of the line. The result is the line behind it. -/
def atLineEnd (r : Reading) : Bool :=
  match r.rest.dropWhile isBlank with
  | [] => true
  | c :: _ => c == '\n'

/-- The line behind a definition whose destination ends at `target`. A title that other text follows
is none, and then the line of the destination has to end with it. -/
def definitionEnd? (fuel : Nat) (target : Reading) : Option Nat :=
  let plain := if atLineEnd target then some target.line else none
  let (moved, gap) := skipGaps fuel false target
  match linkTitle gap.rest with
  | (some _, .closed isEmpty rest) =>
      if moved then
        let r : Reading := { gap with rest }
        if atLineEnd r then some r.line else if isEmpty then none else plain
      else plain
  | (some mark, .unclosed) =>
      match continueTitle mark (gap.rest.length ≤ 1) gap.line gap.pending with
      | (.closed isEmpty rest, pending, line) =>
          let r : Reading := ⟨rest, pending, line⟩
          if (moved || gap.line < line) && atLineEnd r then some r.line
          else if isEmpty then none
          else plain
      | _ => plain
  | _ => plain

/-- A link definition. -/
def definitionRule (ctx : Context) (lines : Lines) (line _stop : Nat) : Option Found :=
  let l := lines.at line
  if ctx.isCode l then none
  else
    match l.contentWithBreak with
    | '[' :: rest => do
        let pending := continuations ctx lines (ctx.limit - (line + 1)) (line + 1)
        let fuel := rest.length + pending.flatten.length + 1
        let (label, r) ← definitionLabel? fuel ⟨rest, pending, line + 1⟩
        match r.rest with
        | ':' :: rest =>
            let (_, r) := skipGaps fuel false { r with rest }
            let (destination, rest) ← linkDestination? r.rest
            if !isSafeDestination destination then none
            else
              let past ← definitionEnd? fuel { r with rest }
              let key := labelKey label
              if key.isEmpty then none else some ([.link key], past)
        | _ => none
    | _ => none

end Galley.Markdown
