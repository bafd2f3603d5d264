import TensorSig.Parse
import TensorSig.Text.Affix
import TensorSig.Text.DecimalDigit

/-!
# Command-line options

The arguments of the command are read in two passes. The first tells options from operands: after
the separator `--` all arguments are operands, and before it an argument is an option if it names
one in full, by an unambiguous abbreviation of a long name, or by a letter with text run on to it.
The second takes the arguments from left to right, gives options their values and collects the
operands.

Only the first unbroken group of operands is taken for the paths; what else there is counts as
unrecognized and is reported after all other arguments have been taken. A request for help ends the
second pass where it is met.

The separator is recognised once more as the value written with an option, as in `-e=--`: it is
dropped there, and the option counts as met but its value is missing. Nothing is wrong with that
before a declaration is to be parsed.

* `Switch`, `Spelling`: the options and the ways to write them.
* `Word`, `Word.ofArguments`: the first pass.
* `Options`, `Request.ofWords`: the second pass.
* `UsageFault`: the ways to misuse the command.
* `Request.ofArguments`: both passes.
-/

namespace TensorSig.Command

/-- The options of the command. -/
inductive Switch
  | help
  | expr
  | start
  | dump
  deriving DecidableEq

/-- The two ways to write an option: its letter after one hyphen, its long name after two. -/
inductive Spelling
  | letter
  | long
  deriving DecidableEq

namespace Switch

/-- The letter of an option that has one. -/
def letter? : Switch → Option Char
  | help => some 'h'
  | expr => some 'e'
  | _ => none

/-- The long name of an option, without the two hyphens. -/
def longName : Switch → String
  | help => "help"
  | expr => "expr"
  | start => "start"
  | dump => "dump"

/-- The options in the order in which they are declared. -/
def all : List Switch := [help, expr, start, dump]

/-- The long spelling of an option. -/
def long (s : Switch) : List Char := '-' :: '-' :: s.longName.toList

/-- All spellings of an option, as they are named in messages. -/
def title (s : Switch) : String :=
  match s.letter? with
  | some c => String.ofList ['-', c, '/'] ++ String.ofList s.long
  | none => String.ofList s.long

/-- The option of a letter. -/
def ofLetter? (c : Char) : Option Switch := all.find? fun s => s.letter? = some c

/-- The option that a text spells in full, and how it does. -/
def ofSpelling? : List Char → Option (Switch × Spelling)
  | ['-', c] => (ofLetter? c).map fun s => (s, .letter)
  | text => (all.find? fun s => s.long = text).map fun s => (s, .long)

/-- The options of which the long spelling starts with a text. -/
def abbreviated (text : List Char) : List Switch :=
  all.filter fun s => (Text.afterPrefix? text s.long).isSome

end Switch

/-- A misuse of the command. -/
inductive UsageFault
  /-- An abbreviation of several long names. -/
  | ambiguous (argument : List Char) (matching : List Switch)
  /-- An option without its value. -/
  | missingValue (switch : Switch)
  /-- An option that has no value with one. -/
  | idleValue (switch : Switch) (value : List Char)
  /-- A value other than the name of a start rule. -/
  | invalidStart (value : List Char)
  /-- Arguments that are neither options nor paths. -/
  | unrecognized (arguments : List (List Char))
  deriving DecidableEq

/-- The text of a fault. -/
def UsageFault.message : UsageFault → String
  | ambiguous argument matching =>
    "ambiguous option: " ++ String.ofList argument ++ " could match " ++
      ", ".intercalate (matching.map fun s => String.ofList s.long)
  | missingValue switch => "argument " ++ switch.title ++ ": expected one argument"
  | idleValue switch value =>
    "argument " ++ switch.title ++ ": ignored explicit argument " ++
      String.ofList (Text.quoted value)
  | invalidStart value =>
    "argument " ++ Switch.start.title ++ ": invalid choice: " ++
      String.ofList (Text.quoted value) ++ " (choose from " ++
      ", ".intercalate (StartRule.all.map fun r => String.ofList (Text.quoted r.name.toList)) ++ ")"
  | unrecognized arguments =>
    "unrecognized arguments: " ++ " ".intercalate (arguments.map String.ofList)

/-! ## Telling options from operands -/

/-- An argument as the first pass sees it. -/
inductive Word
  | operand (text : List Char)
  /-- The argument `--` that ends the options. -/
  | separator
  /-- An option and the value written with it, which follows an equals sign or, after a letter,
  nothing. -/
  | option (switch : Switch) (spelling : Spelling) (value? : Option (List Char))
  /-- An argument that looks like an option and is none. -/
  | unknown (text : List Char)
  deriving DecidableEq

/-- The parts of a text before and after its first equals sign. -/
def splitValue? (text : List Char) : Option (List Char × List Char) :=
  match text.dropWhile (· ≠ '=') with
  | [] => none
  | _ :: value => some (text.takeWhile (· ≠ '='), value)

/-- Whether a text is a negative number: digits after a hyphen, with a point before or among them.
One line feed may follow. -/
def isNegativeNumber (text : List Char) : Bool :=
  match text with
  | '-' :: body =>
    let body := if body.getLast? = some '\n' then body.dropLast else body
    let fraction := body.dropWhile Text.isDecimalDigit
    match fraction with
    | [] => !body.isEmpty
    | '.' :: digits => !digits.isEmpty && digits.all Text.isDecimalDigit
    | _ => false
  | _ => false

/-- The readings of an argument, which starts with a hyphen, as an abbreviated option or as a letter
with text run on to it. -/
def partialOptions : List Char → List Word
  | '-' :: '-' :: rest =>
    match splitValue? ('-' :: '-' :: rest) with
    | some (name, value) => (Switch.abbreviated name).map fun s => .option s .long (some value)
    | none => (Switch.abbreviated ('-' :: '-' :: rest)).map fun s => .option s .long none
  | '-' :: c :: value => (Switch.ofLetter? c).toList.map fun s => .option s .letter (some value)
  | _ => []

/-- The options among words. -/
def Word.switch? : Word → Option Switch
  | option switch _ _ => some switch
  | _ => none

/-- An argument that starts with a hyphen, is longer than that and is not an option by itself. -/
def Word.ofPartial (text : List Char) : Except UsageFault Word :=
  match partialOptions text with
  | [word] => .ok word
  | [] =>
    if isNegativeNumber text || text.contains ' ' then .ok (.operand text) else .ok (.unknown text)
  | words => .error (.ambiguous text (words.filterMap Word.switch?))

/-- An argument before the separator. -/
def Word.ofArgument (text : List Char) : Except UsageFault Word :=
  if text.head? ≠ some '-' then .ok (.operand text)
  else
    match Switch.ofSpelling? text with
    | some (switch, spelling) => .ok (.option switch spelling none)
    | none =>
      if text = ['-'] then .ok (.operand text)
      else
        match splitValue? text with
        | none => Word.ofPartial text
        | some (name, value) =>
          match Switch.ofSpelling? name with
          | some (switch, spelling) => .ok (.option switch spelling (some value))
          | none => Word.ofPartial text

/-- All arguments. -/
def Word.ofArguments : List (List Char) → Except UsageFault (List Word)
  | [] => .ok []
  | text :: texts =>
    if text = ['-', '-'] then .ok (.separator :: texts.map .operand)
    else do
      let word ← Word.ofArgument text
      let words ← Word.ofArguments texts
      return word :: words

/-! ## Taking the arguments -/

/-- What the command is asked to do. -/
structure Options where
  paths : List (List Char) := []
  /-- Texts to parse instead of files, of which any may be missing. -/
  exprs : List (Option (List Char)) := []
  /-- The start rule, which may be missing. -/
  start? : Option StartRule := some .function
  /-- Whether the printed form of every result is wanted. -/
  dump : Bool := false

/-- What arguments amount to. -/
inductive Request
  | help
  | run (options : Options)

/-- How far the group of paths has come. -/
inductive PathGroup
  | notMet
  | within
  | closed
  deriving DecidableEq

/-- The state of the second pass. -/
structure Progress where
  options : Options := {}
  group : PathGroup := .notMet
  unrecognized : List (List Char) := []

namespace Progress

/-- The group of paths ends where an option is met. -/
def endGroup (p : Progress) : Progress :=
  { p with group := if p.group = .within then .closed else p.group }

/-- Take an argument that is neither an option nor a path. -/
def reject (p : Progress) (text : List Char) : Progress :=
  { p with unrecognized := p.unrecognized ++ [text] }

/-- Take an operand. -/
def operand (p : Progress) (text : List Char) : Progress :=
  if p.group = .closed then p.reject text
  else
    { p with group := .within, options := { p.options with paths := p.options.paths ++ [text] } }

/-- Take the separator, which is dropped from the paths. -/
def separator (p : Progress) : Progress :=
  if p.group = .closed then p.reject ['-', '-'] else { p with group := .within }

/-- Take one more text to parse. -/
def addExpr (p : Progress) (text? : Option (List Char)) : Progress :=
  { p with options := { p.options with exprs := p.options.exprs ++ [text?] } }

/-- Take the name of the start rule. -/
def setStart (p : Progress) : Option (List Char) → Except UsageFault Progress
  | none => .ok { p with options := { p.options with start? := none } }
  | some name =>
    match StartRule.ofName? (String.ofList name) with
    | some r => .ok { p with options := { p.options with start? := some r } }
    | none => .error (.invalidStart name)

/-- Take the wish for printed forms. -/
def setDump (p : Progress) : Progress := { p with options := { p.options with dump := true } }

/-- The request, once all arguments have been taken. -/
def finish (p : Progress) : Except UsageFault Request :=
  if p.unrecognized.isEmpty then .ok (.run p.options) else .error (.unrecognized p.unrecognized)

end Progress

/-- The value of an option that is written with it, which is missing when the separator stands in
its place. -/
def writtenValue? (value : List Char) : Option (List Char) :=
  if value = ['-', '-'] then none else some value

/-- Whether help is given although text stands with the letter of the help option. The text must be
the letters of further options: any number for help, and then possibly one for an option with a
value, which is the rest of the text or the operand that follows. `hasOperand` says whether an
operand follows. Any other text is taken for a value, and help has none. -/
def checkLetters (hasOperand : Bool) : List Char → Except UsageFault Unit
  | [] => .ok ()
  | c :: rest =>
    match Switch.ofLetter? c with
    | some .help => checkLetters hasOperand rest
    | some switch =>
      if rest.isEmpty && !hasOperand then .error (.missingValue switch) else .ok ()
    | none => .error (.idleValue .help (c :: rest))

/-- Whether an operand comes next. -/
def hasOperand : List Word → Bool
  | .operand _ :: _ => true
  | _ => false

/-- Take words from left to right. -/
def Request.ofWords (p : Progress) : List Word → Except UsageFault Request
  | [] => p.finish
  | .operand text :: words => ofWords (p.operand text) words
  | .separator :: words => ofWords p.separator words
  | .unknown text :: words => ofWords (p.endGroup.reject text) words
  | .option .help _ none :: _ => .ok .help
  | .option .help .letter (some (c :: letters)) :: words => do
    checkLetters (hasOperand words) (c :: letters)
    return .help
  | .option .help _ (some value) :: _ => .error (.idleValue .help value)
  | .option .dump _ none :: words => ofWords p.endGroup.setDump words
  | .option .dump _ (some value) :: _ => .error (.idleValue .dump value)
  | .option .expr _ (some value) :: words =>
    ofWords (p.endGroup.addExpr (writtenValue? value)) words
  | .option .expr _ none :: .operand value :: words => ofWords (p.endGroup.addExpr value) words
  | .option .start _ (some value) :: words => do
    let p ← p.endGroup.setStart (writtenValue? value)
    ofWords p words
  | .option .start _ none :: .operand value :: words => do
    let p ← p.endGroup.setStart (some value)
    ofWords p words
  | .option switch _ none :: _ => .error (.missingValue switch)

/-- What arguments amount to. -/
def Request.ofArguments (arguments : List (List Char)) : Except UsageFault Request := do
  let words ← Word.ofArguments arguments
  Request.ofWords {} words

end TensorSig.Command
