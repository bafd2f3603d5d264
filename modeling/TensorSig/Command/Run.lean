import TensorSig.Command.Help
import TensorSig.Command.Options
import TensorSig.Command.Path
import TensorSig.Listing
import TensorSig.Text.Lines

/-!
# Runs of the command

A run collects declarations and parses one after the other: the texts of `-e` as they are, or the
lines of the files, or of standard input when there is no path or the only one is `-`. For each
declaration it writes a line on standard output, or one on standard error when the declaration does
not parse, and the exit code says whether all did. All files are read before anything is parsed.
Carriage returns in files are unified with line feeds; the stream of standard input comes to the
command opened, and whether it does the same is not for the command to say. Parsing breaks off at a
numeral that is too long to be read, and at the first declaration for which the text or the start
rule is missing.

* `ReadFault`, `FileFault`, `Interruption`, `Outcome`: what a run leaves behind.
* `Declaration`: a text to parse, with the place that it is reported at.
* `Transcript`: what the declarations that have been parsed lead to.
* `Source`, `declarations`: where declarations come from.
* `Command.run`: a whole run, on a given file system and standard input.
-/

namespace TensorSig.Command

/-- Why there is nothing to read under a path. -/
inductive ReadFault
  | missing
  /-- The path goes on behind a file. -/
  | notDirectory
  | directory
  | nameTooLong
  deriving DecidableEq

/-- The text of a fault, without the path. -/
def ReadFault.message : ReadFault → String
  | missing => "[Errno 2] No such file or directory"
  | notDirectory => "[Errno 20] Not a directory"
  | directory => "[Errno 21] Is a directory"
  | nameTooLong => "[Errno 36] File name too long"

/-- A path under which there is nothing to read. -/
structure FileFault where
  path : List Char
  reason : ReadFault
  deriving DecidableEq

/-- The text of a fault. -/
def FileFault.message (fault : FileFault) : String :=
  fault.reason.message ++ ": " ++ String.ofList (Text.quoted fault.path)

/-- Why parsing breaks off. -/
inductive Interruption
  /-- A numeral is too long to be read. -/
  | oversized (numeral : OversizedNumeral)
  /-- The start rule is missing. -/
  | missingStart
  /-- The text of a declaration is missing. -/
  | missingText
  deriving DecidableEq

/-- The text of an interruption. -/
def Interruption.message : Interruption → String
  | oversized numeral => numeral.message
  | missingStart => "unhashable type: 'list'"
  | missingText => "'NoneType' object has no attribute 'char_pos'"

/-- How a run ends. -/
inductive Ending
  | exit (code : Nat)
  /-- A file could not be read, and nothing was parsed. -/
  | unreadable (fault : FileFault)
  /-- Parsing broke off at a declaration. -/
  | interrupted (why : Interruption)
  deriving DecidableEq

/-- What a run leaves behind. -/
structure Outcome where
  stdout : String := ""
  stderr : String := ""
  ending : Ending
  deriving DecidableEq

/-! ## Declarations -/

/-- A text to parse, unless it is missing, with the name, the line and the column shift of its
place. -/
structure Declaration where
  label : List Char
  line : Nat
  shift : Nat
  text? : Option (List Char)

/-- The texts of options, numbered from a given number on. -/
def Declaration.ofExprs : Nat → List (Option (List Char)) → List Declaration
  | _, [] => []
  | n, text? :: texts =>
    ⟨"<expr".toList ++ Numeral.ofNat n ++ ['>'], 1, 0, text?⟩ :: ofExprs (n + 1) texts

/-- The declarations on the lines of a listing, numbered from a given number on. -/
def Declaration.ofLines (label : List Char) : Nat → List (List Char) → List Declaration
  | _, [] => []
  | n, line :: lines =>
    match declaration? line with
    | none => ofLines label (n + 1) lines
    | some text => ⟨label, n, columnShift line text, text⟩ :: ofLines label (n + 1) lines

/-! ## Transcripts -/

/-- What parsing declarations leads to. -/
structure Transcript where
  out : List String := []
  err : List String := []
  interruption? : Option Interruption := none

/-- The lines for a declaration that parses: the name of a function, or the text for any other
component, and the printed form if it is wanted. -/
def successLines (dump : Bool) (text : List Char) (c : Component) : List String :=
  let title :=
    match c with
    | .function s => s.name
    | _ => String.ofList text
  ("[ok] " ++ title) :: if dump then ["  " ++ String.ofList c.dump] else []

/-- The line for a declaration that does not parse. -/
def failureLine (d : Declaration) (e : SignatureError) : String :=
  let span := e.span.relocate d.line (some (String.ofList d.label)) d.shift
  "[parse error] " ++ span.text ++ ": " ++ e.message

/-- Parse declarations in order, up to one at which parsing breaks off. A missing start rule is
noticed before a missing text. -/
def Transcript.ofDeclarations (start? : Option StartRule) (dump : Bool) :
    List Declaration → Transcript
  | [] => {}
  | d :: ds =>
    match start?, d.text? with
    | none, _ => { interruption? := some .missingStart }
    | some _, none => { interruption? := some .missingText }
    | some start, some text =>
      match parseComponent start text with
      | .ok c =>
        let rest := ofDeclarations start? dump ds
        { rest with out := successLines dump text c ++ rest.out }
      | .error (.signature e) =>
        let rest := ofDeclarations start? dump ds
        { rest with err := failureLine d e :: rest.err }
      | .error (.oversized numeral) => { interruption? := some (.oversized numeral) }

/-- What a run with a transcript leaves behind: it fails if anything was written on standard
error. -/
def Transcript.outcome (t : Transcript) : Outcome :=
  { stdout := linesText t.out
    stderr := linesText t.err
    ending :=
      match t.interruption? with
      | some why => .interrupted why
      | none => .exit (if t.err.isEmpty then 0 else 1) }

/-! ## Whole runs -/

/-- What is found under each path: the content of a file or the reason why there is none. -/
abbrev FileSystem := List Char → Except ReadFault (List Char)

/-- The lines of the files under paths in normal form, or the first fault. -/
def readFiles (files : FileSystem) : List (List Char) → Except FileFault (List Declaration)
  | [] => .ok []
  | path :: paths =>
    match files path with
    | .error reason => .error ⟨path, reason⟩
    | .ok content => do
      let rest ← readFiles files paths
      return Declaration.ofLines path 1 (Text.splitLines (Text.unifyNewlines content)) ++ rest

/-- Where the declarations of a run come from. -/
inductive Source
  | exprs (texts : List (Option (List Char)))
  | stdin
  /-- Paths in normal form. -/
  | files (paths : List (List Char))
  deriving DecidableEq

/-- Texts in options come before paths, and standard input is read when there is no path or the
only one is `-`. -/
def Options.source (options : Options) : Source :=
  if options.exprs.isEmpty then
    let paths := options.paths.map normalPath
    if paths = [] ∨ paths = [['-']] then .stdin else .files paths
  else .exprs options.exprs

/-- The declarations that a run is to parse, given the text that the stream of standard input
yields. -/
def declarations (files : FileSystem) (stdin : List Char) :
    Source → Except FileFault (List Declaration)
  | .exprs texts => .ok (Declaration.ofExprs 1 texts)
  | .stdin => .ok (Declaration.ofLines "<stdin>".toList 1 (Text.splitNewlines stdin))
  | .files paths => readFiles files paths

/-- Run the command with options, given the text that the stream of standard input yields. -/
def runOptions (options : Options) (files : FileSystem) (stdin : List Char) : Outcome :=
  match declarations files stdin options.source with
  | .error fault => { ending := .unreadable fault }
  | .ok ds => (Transcript.ofDeclarations options.start? options.dump ds).outcome

/-- Run the command on arguments. The stream of standard input unifies carriage returns, as it is
done in files, unless it is said to keep them. -/
def run (arguments : List (List Char)) (files : FileSystem) (stdin : List Char)
    (newlines : Text.NewlineMode := .unified) : Outcome :=
  match Request.ofArguments arguments with
  | .error fault =>
    { stderr := linesText (usageLines ++ ["nativesig: error: " ++ fault.message])
      ending := .exit 2 }
  | .ok .help => { stdout := linesText helpLines, ending := .exit 0 }
  | .ok (.run options) => runOptions options files (newlines.decode stdin)

end TensorSig.Command
