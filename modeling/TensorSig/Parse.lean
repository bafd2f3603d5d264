import TensorSig.Descriptor.Component
import TensorSig.SignatureError

/-!
# Parsing

Parsing a text as an instance of a start rule reads it with the automaton and takes the descriptor
that the expression denotes. A text that is rejected is reported as such whatever else is wrong with
it, since nothing is denoted before the whole text has been read.

* `StartRule.Result`, `StartRule.denote`: what a text of a start rule yields.
* `parse`, `parseFunction`: the descriptor of a text, or `Failure`.
* `StartRule.name`, `StartRule.ofName?`: the names of the start rules.
* `parseComponent`: the same with one type for the results of all start rules.
-/

namespace TensorSig

/-- Why a text yields nothing. -/
inductive Failure
  /-- The text is not a signature. -/
  | signature (error : SignatureError)
  /-- The text is one, but a numeral in it is too long to be read. -/
  | oversized (numeral : OversizedNumeral)
  deriving DecidableEq

/-- The failure of a text that was read but denotes nothing. -/
def Failure.ofFault (source : List Char) : DenoteFault → Failure
  | .oversized numeral => .oversized numeral
  | .unsupportedElement offset element => .signature (.ofElement source offset element)

namespace StartRule

/-- What a text of a start rule yields. -/
def Result : StartRule → Type
  | function => Signature
  | identifier => String
  | type => ValueType
  | literal => Literal
  | param => ParamItem
  | params => List ParamItem
  | returns => ValueType

/-- The result that an expression denotes. -/
def denote : (r : StartRule) → r.Expr → Except DenoteFault r.Result
  | function, e => SignatureExpr.denote e
  | identifier, e => .ok (String.ofList (Lexeme.text e))
  | type, e => TypeExpr.denote e
  | literal, e => LiteralExpr.denote e
  | param, e => ParamExpr.denote e
  | params, e => ParamExpr.denoteAll e
  | returns, e => TypeExpr.denote e

end StartRule

/-- Parse a text as an instance of a start rule. -/
def parse (r : StartRule) (text : List Char) : Except Failure r.Result :=
  match read r text with
  | .error why => .error (.signature (.ofRejection text why))
  | .ok e =>
    match r.denote e with
    | .error fault => .error (.ofFault text fault)
    | .ok value => .ok value

/-- Parse a text as a declaration. -/
def parseFunction (text : List Char) : Except Failure Signature := parse .function text

/-! ## Start rules by name -/

namespace StartRule

/-- The start rules in the order in which they are listed. -/
def all : List StartRule := [function, identifier, type, literal, param, params, returns]

/-- The name of a start rule. -/
def name : StartRule → String
  | function => "function"
  | identifier => "identifier"
  | type => "type"
  | literal => "default_value"
  | param => "param"
  | params => "params"
  | returns => "returns"

/-- The start rule of a name. -/
def ofName? (name : String) : Option StartRule := all.find? fun r => r.name = name

/-- The text for a name that no start rule has. -/
def unknownMessage (name : String) : String :=
  "unknown start rule " ++ String.ofList (Text.quoted name.toList) ++ "; expected one of " ++
    ", ".intercalate (all.map StartRule.name)

end StartRule

/-! ## Components -/

/-- A result of a start rule as a component. -/
def StartRule.component : (r : StartRule) → r.Result → Component
  | function, s => .function s
  | identifier, n => .name n
  | type, t => .type t
  | literal, v => .literal v
  | param, p => .param p
  | params, ps => .params ps
  | returns, t => .type t

/-- Parse a text as an instance of a start rule, whatever that yields. -/
def parseComponent (r : StartRule) (text : List Char) : Except Failure Component :=
  (parse r text).map r.component

end TensorSig
