import Galley.Json.Display
import Galley.Text.Decimal

/-!
Command lines made of options and operands. Long options may be shortened as long as they stay
unique; a value follows its option, or is attached to it. All words behind two dashes are operands.
Two dashes are never a value: where they stand in place of one, the value is missing.

* `Grammar`: the options and operands that a program takes, with what they do to a result;
* `UsageError`: what is wrong with a command line, with its wording;
* `Grammar.readWord`: the part that a word plays;
* `Grammar.parse`: the result of a command line, and the words that nothing takes.
-/

namespace Galley

/-- What is wrong with a command line: the program that found it, and the complaint. A request for
help also ends the reading. -/
inductive UsageError where
  | help (program : Text)
  | wrong (program complaint : Text)
deriving DecidableEq

/-- The wording of an error. -/
def UsageError.message : UsageError → Text
  | help program => "usage: ".toList ++ program
  | wrong program complaint => program ++ ": error: ".toList ++ complaint

/-- The value of an option or operand, which is missing if two dashes stand in its place. -/
abbrev Value := Option Text

/-- The value that a word is. -/
def Value.ofWord (t : Text) : Value := if t = ['-', '-'] then none else some t

/-- What an option does. The text of a bad value is a complaint. -/
inductive OptionEffect (α : Type) where
  | switch (set : α → α)
  | value (set : Value → α → Except Text α)
  | help

/-- An option with its names. -/
structure OptionRule (α : Type) where
  names : List Text
  effect : OptionEffect α
  required : Bool := false

/-- What an operand does: it takes one word, or this word and all words behind it. -/
inductive OperandEffect (α : Type) where
  | single (set : Value → α → α)
  | remainder (set : List Text → α → Except UsageError α)

/-- An operand with its name. -/
structure OperandRule (α : Type) where
  name : Text
  effect : OperandEffect α

/-- The options and operands of a program. -/
structure Grammar (α : Type) where
  program : Text
  options : List (OptionRule α)
  operands : List (OperandRule α)

/-- An option as a word names it: its rule, if there is one, its full name, and what is attached to
it, behind an equals sign or directly behind a short option. -/
structure OptionUse (α : Type) where
  rule? : Option (OptionRule α)
  name : Text
  attached : Option Text

/-- The part that a word plays. -/
inductive WordRole (α : Type) where
  | operand
  | dashes
  | option (use : OptionUse α)

/-- A word of a command line. -/
structure Word (α : Type) where
  text : Text
  role : WordRole α

/-- A word that plays the part of an option. -/
def Word.isOption {α : Type} (w : Word α) : Bool :=
  match w.role with
  | .option _ => true
  | _ => false

namespace Grammar

variable {α : Type} (g : Grammar α)

/-- The name of an option in messages. -/
def optionTitle (rule : OptionRule α) : Text := joinWith ['/'] rule.names

/-- The error with a complaint. -/
def complain {β : Type} (complaint : Text) : Except UsageError β :=
  .error (.wrong g.program complaint)

/-- The error with a complaint about an option or an operand. -/
def complainAbout {β : Type} (title complaint : Text) : Except UsageError β :=
  g.complain ("argument ".toList ++ title ++ ": ".toList ++ complaint)

/-! ### Reading words -/

/-- The names of the options with their rules. -/
def optionNames : List (Text × OptionRule α) :=
  g.options.flatMap fun rule => rule.names.map fun name => (name, rule)

/-- The two sides of the first equals sign. -/
def splitEquals? (t : Text) : Option (Text × Text) :=
  match t.dropWhile (· ≠ '=') with
  | '=' :: value => some (t.takeWhile (· ≠ '='), value)
  | _ => none

/-- The options that a word may be short for. A word with one dash may also be a short option with
its value. -/
def abbreviations (t : Text) : List (OptionUse α) :=
  match t with
  | '-' :: '-' :: _ =>
      let (start, attached) : Text × Option Text :=
        match splitEquals? t with
        | some (start, value) => (start, some value)
        | none => (t, none)
      g.optionNames.filterMap fun (name, rule) =>
        if start.isPrefixOf name then some ⟨some rule, name, attached⟩ else none
  | _ =>
      g.optionNames.filterMap fun (name, rule) =>
        if name = t.take 2 then some ⟨some rule, name, some (t.drop 2)⟩
        else if t.isPrefixOf name then some ⟨some rule, name, none⟩
        else none

/-- A text of decimal digits of any script. -/
def isDigits (t : Text) : Bool := t.all fun c => (decimalValue? c).isSome

/-- A word that denotes a negative number, perhaps with a line feed behind it. -/
def isNegativeNumber (t : Text) : Bool :=
  match t with
  | '-' :: cs =>
      let body := if cs.getLast? == some '\n' then cs.dropLast else cs
      match body.dropWhile (· ≠ '.') with
      | [] => !body.isEmpty && isDigits body
      | _ :: fraction =>
          isDigits (body.takeWhile (· ≠ '.')) && !fraction.isEmpty && isDigits fraction
  | _ => false

/-- The option that a word names in full, perhaps with a value behind an equals sign. -/
def exactOption? (t : Text) : Option (OptionUse α) :=
  match g.optionNames.lookup t, splitEquals? t with
  | some rule, _ => some ⟨some rule, t, none⟩
  | none, some (name, value) =>
      (g.optionNames.lookup name).map fun rule => ⟨some rule, name, some value⟩
  | none, none => none

/-- The option that a word is, if it is no operand. Words that look like an unknown option are taken
for one, unless they are negative numbers or hold a space. -/
def readWord (t : Text) : Except UsageError (Option (OptionUse α)) :=
  match t with
  | '-' :: _ :: _ =>
      match g.exactOption? t, g.abbreviations t with
      | some use, _ => .ok (some use)
      | none, [use] => .ok (some use)
      | none, [] =>
          if isNegativeNumber t || t.contains ' ' then .ok none
          else .ok (some ⟨none, t, none⟩)
      | none, uses =>
          g.complain ("ambiguous option: ".toList ++ t ++ " could match ".toList ++
            joinWith [',', ' '] (uses.map (·.name)))
  | _ => .ok none

/-- The words of a command line. -/
def readWords : List Text → Except UsageError (List (Word α))
  | [] => .ok []
  | t :: ts =>
      if t = ['-', '-'] then .ok (⟨t, .dashes⟩ :: ts.map fun t => ⟨t, .operand⟩)
      else do
        let use? ← g.readWord t
        let words ← readWords ts
        match use? with
        | some use => .ok (⟨t, .option use⟩ :: words)
        | none => .ok (⟨t, .operand⟩ :: words)

/-! ### Options -/

/-- What an option asks for: effects of rules with their values, and whether the next word is used
up. -/
structure Request (α : Type) where
  effects : List (OptionRule α × Value)
  usesNext : Bool

/-- The rule takes a value. -/
def takesValue (rule : OptionRule α) : Bool :=
  match rule.effect with
  | .value _ => true
  | _ => false

/-- The request of an option without an attached value; `next` is the word behind it, if that is an
operand. -/
def plainRequest (rule : OptionRule α) (next : Option Text) : Except UsageError (Request α) :=
  if takesValue rule then
    match next with
    | some value => .ok ⟨[(rule, some value)], true⟩
    | none => g.complainAbout (optionTitle rule) "expected one argument".toList
  else .ok ⟨[(rule, none)], false⟩

/-- The complaint about a value that an option does not take. -/
def refuseValue {β : Type} (rule : OptionRule α) (value : Text) : Except UsageError β :=
  g.complainAbout (optionTitle rule)
    ("ignored explicit argument ".toList ++ Json.quoted (CodeText.ofText value))

/-- The request of a short option with a text attached. An option without a value leaves the text to
further short options. -/
def clusterRequest (next : Option Text) (rule : OptionRule α) :
    Text → Except UsageError (Request α)
  | [] => g.plainRequest rule next
  | c :: cs =>
      if takesValue rule then .ok ⟨[(rule, .ofWord (c :: cs))], false⟩
      else
        match g.optionNames.lookup ['-', c] with
        | none => g.refuseValue rule (c :: cs)
        | some following => do
            let request ← clusterRequest next following cs
            .ok { request with effects := (rule, none) :: request.effects }

/-- The option has a name of one letter. -/
def isShort (name : Text) : Bool := name.tail.head? != some '-'

/-- The request of an option with a text attached. -/
def attachedRequest (next : Option Text) (rule : OptionRule α) (name attached : Text) :
    Except UsageError (Request α) :=
  if takesValue rule then .ok ⟨[(rule, .ofWord attached)], false⟩
  else if isShort name && !attached.isEmpty then g.clusterRequest next rule attached
  else g.refuseValue rule attached

/-! ### Reading command lines -/

/-- How far the reading of a command line is: the result so far, the operands still to come, the
titles of the options seen, and the words that nothing takes. -/
structure Progress (α : Type) where
  result : α
  pending : List (OperandRule α)
  seen : List Text
  extras : List Text

/-- Applies the effects of options in order. -/
def applyEffects (p : Progress α) :
    List (OptionRule α × Value) → Except UsageError (Progress α)
  | [] => .ok p
  | (rule, value) :: effects => do
      let result ←
        match rule.effect with
        | .switch set => .ok (set p.result)
        | .value set =>
            match set value p.result with
            | .ok result => .ok result
            | .error complaint => g.complainAbout (optionTitle rule) complaint
        | .help => .error (.help g.program)
      applyEffects { p with result, seen := optionTitle rule :: p.seen } effects

/-- The operand at the start of some words, with the words behind it. Two dashes next to it go with
it. -/
def operandAt? : List (Word α) → Option (Value × List (Word α))
  | ⟨_, .dashes⟩ :: ⟨t, .operand⟩ :: words => some (some t, words)
  | ⟨t, .operand⟩ :: ⟨_, .dashes⟩ :: words => some (some t, words)
  | ⟨t, .operand⟩ :: words => some (.ofWord t, words)
  | _ => none

/-- Gives the operands at the start of some words to the rules that wait for them. -/
def takeOperands (p : Progress α) (words : List (Word α)) :
    List (OperandRule α) → Except UsageError (Progress α × List (Word α))
  | [] => .ok ({ p with pending := [] }, words)
  | rule :: rules =>
      match operandAt? words with
      | none => .ok ({ p with pending := rule :: rules }, words)
      | some (value, rest) =>
          match rule.effect with
          | .single set => takeOperands { p with result := set value p.result } rest rules
          | .remainder set => do
              let result ← set (words.map (·.text)) p.result
              .ok ({ p with result, pending := rules }, [])

/-- The text of the word at the start, if that is an operand. -/
def nextOperand? : List (Word α) → Option Text
  | ⟨t, .operand⟩ :: _ => some t
  | _ => none

/-- Reads words; `fuel` bounds the number of steps. Operands that no rule waits for are passed
over up to the next option. -/
def readAll (fuel : Nat) (p : Progress α) (words : List (Word α)) :
    Except UsageError (Progress α) :=
  match fuel, words with
  | 0, _ => .ok p
  | _, [] => .ok p
  | fuel + 1, ⟨t, .option ⟨none, _, _⟩⟩ :: rest =>
      readAll fuel { p with extras := p.extras ++ [t] } rest
  | fuel + 1, ⟨_, .option ⟨some rule, name, attached⟩⟩ :: rest => do
      let next := nextOperand? rest
      let request ←
        match attached with
        | some attached => g.attachedRequest next rule name attached
        | none => g.plainRequest rule next
      let p ← g.applyEffects p request.effects
      readAll fuel p (if request.usesNext then rest.drop 1 else rest)
  | fuel + 1, word :: rest => do
      let (p, left) ← takeOperands p (word :: rest) p.pending
      if left.length ≤ rest.length then readAll fuel p left
      else
        let passed := left.takeWhile (!·.isOption)
        readAll fuel { p with extras := p.extras ++ passed.map (·.text) }
          (left.drop passed.length)

/-- The titles of what is missing. -/
def missing (p : Progress α) : List Text :=
  p.pending.map (·.name) ++
    ((g.options.filter (·.required)).map optionTitle).filter (!p.seen.contains ·)

/-- The result of a command line, and the words that nothing takes. -/
def parse (start : α) (arguments : List Text) : Except UsageError (α × List Text) := do
  let words ← g.readWords arguments
  let p ← g.readAll (words.length + 1) ⟨start, g.operands, [], []⟩ words
  match g.missing p with
  | [] => .ok (p.result, p.extras)
  | titles =>
      g.complain ("the following arguments are required: ".toList ++ joinWith [',', ' '] titles)

end Grammar

end Galley
