import TensorSig.Automaton.Run
import TensorSig.Descriptor.ValueType
import TensorSig.Diagnostic
import TensorSig.Expr.Denote
import TensorSig.Text.Quoted

/-!
# Errors of signatures

The report on a text that is not a signature: what is wrong, of which kind, where, and what would
have been accepted there.

* `ErrorKind`: the kinds, with their codes.
* `SignatureError`: a report, with its text and the diagnostic made of it.
* `Ahead.description`: what an expected terminal is called.
* `isUnterminated`: whether what is expected only completes an open construct.
* `SignatureError.ofRejection`, `SignatureError.ofElement`: the reports on a rejected text and on an
  array over a type that it cannot hold.
-/

namespace TensorSig

/-- The kinds of error. -/
inductive ErrorKind
  | lexicalMismatch
  | unterminatedConstruct
  | unsupportedElement
  deriving DecidableEq

/-- The code of a kind of error. -/
def ErrorKind.code : ErrorKind → String
  | lexicalMismatch => "E-SIG-LEX"
  | unterminatedConstruct => "E-SIG-UNTERMINATED"
  | unsupportedElement => "E-SIG-UNSUPPORTED"

/-- The report on a text that is not a signature. -/
structure SignatureError where
  message : String
  kind : ErrorKind
  span : Span
  source : String
  expected : List String := []
  deriving DecidableEq

namespace SignatureError

/-- A report as it is written: its message and where it applies. -/
def text (e : SignatureError) : String :=
  let place :=
    match e.span.line?, e.span.column? with
    | some line, some column =>
      " (line " ++ Span.numberText line ++ ", column " ++ Span.numberText column ++ ")"
    | _, _ => ""
  e.message ++ " at offset " ++ Span.numberText e.span.offset ++ place

/-- The diagnostic of a report, with what was expected as a note. -/
def toDiagnostic (e : SignatureError) : Diagnostic :=
  { message := e.message
    code? := some e.kind.code
    span := e.span
    notes :=
      if e.expected.isEmpty then []
      else ["expected one of: " ++ ", ".intercalate e.expected] }

end SignatureError

/-! ## What was expected -/

/-- What the lexemes of a terminal without a spelling of its own are called. -/
def Terminal.className : Terminal → String
  | literal .float => "floating-point literal"
  | literal .integer => "integer"
  | literal (.bool true) => "'true'"
  | literal (.bool false) => "'false'"
  | natural => "non-negative integer"
  | _ => "identifier"

/-- What is said of something that was expected: a spelling in quotes, or the name of a class. -/
def Ahead.description : Ahead → String
  | endOfText => "end of input"
  | token t =>
    match t.spelling? with
    | some s => String.ofList (Text.quoted s.toList)
    | none => t.className

/-- A text put in its place in an increasing list, unless it is there already. -/
def insertOnce (text : String) : List String → List String
  | [] => [text]
  | other :: others =>
    if text < other then text :: other :: others
    else if text = other then other :: others
    else other :: insertOnce text others

/-- The descriptions of what was expected, each once and in increasing order. -/
def descriptions (expected : List Ahead) : List String :=
  expected.foldr (fun ahead texts => insertOnce ahead.description texts) []

/-- Whether a terminal closes a construct. -/
def Ahead.closes : Ahead → Bool
  | token .closeParen => true
  | token .closeSquare => true
  | token .closeAngle => true
  | _ => false

/-- Whether a terminal goes on with an open construct: a closing bracket, a separator, the sign of a
default or a name. -/
def Ahead.continues : Ahead → Bool
  | token .comma => true
  | token .equal => true
  | token .name => true
  | ahead => ahead.closes

/-- Whether nothing but the rest of an open construct was expected. -/
def isUnterminated (expected : List Ahead) : Bool :=
  expected.all Ahead.continues && expected.any Ahead.closes

/-! ## Reports -/

namespace Rejection

/-- The offset at which a text was rejected. -/
def offset : Rejection → Nat
  | unreadable offset _ _ => offset
  | misplaced offset _ _ => offset
  | incomplete offset _ => offset

/-- What would have been accepted there. -/
def expected : Rejection → List Ahead
  | unreadable _ _ expected => expected.map .token
  | misplaced _ _ expected => expected
  | incomplete _ expected => expected

/-- What was found there instead: a piece of the text, or nothing at its end. -/
def found? : Rejection → Option (List Char)
  | unreadable _ found _ => some found
  | misplaced _ found _ => some found
  | incomplete _ _ => none

/-- The kind of error. A text that ends too early is always an open construct. -/
def kind (why : Rejection) : ErrorKind :=
  if why.found?.isNone || isUnterminated why.expected then .unterminatedConstruct
  else .lexicalMismatch

/-- The message: what was found, and what was expected instead if anything was. -/
def message (why : Rejection) : String :=
  let found :=
    match why.found? with
    | some piece => String.ofList (Text.quoted piece)
    | none => "end of input"
  let expected := descriptions why.expected
  "unexpected " ++ found ++
    (if expected.isEmpty then "" else "; expected " ++ ", ".intercalate expected)

end Rejection

namespace SignatureError

/-- The report on a text that was rejected. -/
def ofRejection (source : List Char) (why : Rejection) : SignatureError :=
  { message := why.message
    kind := why.kind
    span := Span.ofOffset source why.offset
    source := String.ofList source
    expected := descriptions why.expected }

/-- The report on an array over a type that it cannot hold, which starts at an offset. -/
def ofElement (source : List Char) (offset : Nat) (element : ValueType) : SignatureError :=
  { message := unsupportedElementMessage element
    kind := .unsupportedElement
    span := Span.ofOffset source offset
    source := String.ofList source }

end SignatureError

end TensorSig
