import TensorSig.Expr.Basic

/-!
# Productions

The grammar of signatures. Seven of its nonterminals can start a text. A production has a left side,
a right side and an action that makes the value of the left side from the values of the right side,
so each derivation computes an expression.

Comma-separated lists occur in four places (`ListKind`): parameters, tuples of types, tuples of
results and dimensions. In each, the first item stands alone and the further ones, each after a
comma, form the nonterminal `rest`.

* `Nonterminal`, `Symbol`, `Symbol.Value`: the symbols and the values that they carry.
* `Production`, `Production.lhs`, `Production.rhs`, `Production.act`: the rules.
* `StartRule`: the nonterminals that can start a text.
-/

namespace TensorSig

/-- The two kinds of tuple: of argument types, and of results, which may be named. -/
inductive TupleKind
  | types
  | returns
  deriving DecidableEq

/-- The comma-separated lists. -/
inductive ListKind
  | params
  | tuple (kind : TupleKind)
  | dims
  deriving DecidableEq

/-- The nonterminals of which the value is a type. -/
inductive TypeForm
  | type
  | tupleType
  | baseType
  | tensorType
  | scalarType
  | intList
  | arrayType
  | returns
  | returnSingle
  | returnTuple
  deriving DecidableEq

/-- The nonterminals of the grammar. -/
inductive Nonterminal
  | function
  | identifier
  | params
  | param
  | literal
  | typed (form : TypeForm)
  /-- The items of a list after the first, each with the comma before it. -/
  | rest (list : ListKind)
  deriving DecidableEq

/-- The symbols of the grammar. -/
inductive Symbol
  | terminal (t : Terminal)
  | nonterminal (n : Nonterminal)
  deriving DecidableEq

/-! ## Values -/

/-- What an item of a list is. -/
def ListKind.Item : ListKind → Type
  | params => ParamExpr
  | tuple _ => TypeExpr
  | dims => Lexeme

/-- What a nonterminal carries. -/
def Nonterminal.Value : Nonterminal → Type
  | function => SignatureExpr
  | identifier => Lexeme
  | params => List ParamExpr
  | param => ParamExpr
  | literal => LiteralExpr
  | typed _ => TypeExpr
  | rest list => List list.Item

/-- What a symbol carries: a terminal its lexeme, a nonterminal the expression made of it. -/
def Symbol.Value : Symbol → Type
  | terminal _ => Lexeme
  | nonterminal n => n.Value

/-- What a sequence of symbols carries. -/
def Values : List Symbol → Type
  | [] => Unit
  | s :: ss => s.Value × Values ss

/-! ## Rules -/

/-- The symbol of an item of a list. -/
def ListKind.item : ListKind → Symbol
  | params => .nonterminal .param
  | tuple .types => .nonterminal (.typed .type)
  | tuple .returns => .nonterminal (.typed .returns)
  | dims => .terminal .natural

/-- The nonterminal of a tuple. -/
def TupleKind.form : TupleKind → TypeForm
  | types => .tupleType
  | returns => .returnTuple

/-- The nonterminal of a tuple's elements. -/
def TupleKind.element : TupleKind → TypeForm
  | types => .type
  | returns => .returns

/-- The nonterminal that a one-word type belongs to. -/
def PlainType.form : PlainType → TypeForm
  | tensor .intList => .intList
  | tensor _ => .tensorType
  | scalar _ => .scalarType
  | _ => .baseType

/-- The nonterminals that are base types by themselves. -/
inductive BaseForm
  | tensorType
  | scalarType
  | intList
  | arrayType
  deriving DecidableEq

/-- A base form as a nonterminal. -/
def BaseForm.form : BaseForm → TypeForm
  | tensorType => .tensorType
  | scalarType => .scalarType
  | intList => .intList
  | arrayType => .arrayType

/-- The rules of the grammar. -/
inductive Production
  | function
  | identifier
  /-- The empty parameter list. -/
  | paramsNone
  | paramsOne
  | paramsMany
  /-- The marker `*`. -/
  | paramStar
  | paramPlain
  | paramDefault
  /-- The first further item of a list. -/
  | restFirst (list : ListKind)
  /-- One more further item of a list. -/
  | restNext (list : ListKind)
  | typeBase
  | typeTuple
  | plain (type : PlainType)
  | base (form : BaseForm)
  | intListOne
  | intListMany
  | array
  | tupleEmpty (kind : TupleKind)
  | tupleOne (kind : TupleKind)
  | tupleMany (kind : TupleKind)
  | returnsTuple
  | returnsSingle
  | returnUnnamed
  /-- A result with a name, which is dropped. -/
  | returnNamed
  | literal (form : LiteralForm)
  deriving DecidableEq

namespace Production

/-- The nonterminal that a rule derives. -/
def lhs : Production → Nonterminal
  | function => .function
  | identifier => .identifier
  | paramsNone => .params
  | paramsOne => .params
  | paramsMany => .params
  | paramStar => .param
  | paramPlain => .param
  | paramDefault => .param
  | restFirst list => .rest list
  | restNext list => .rest list
  | typeBase => .typed .type
  | typeTuple => .typed .type
  | plain type => .typed type.form
  | base _ => .typed .baseType
  | intListOne => .typed .intList
  | intListMany => .typed .intList
  | array => .typed .arrayType
  | tupleEmpty kind => .typed kind.form
  | tupleOne kind => .typed kind.form
  | tupleMany kind => .typed kind.form
  | returnsTuple => .typed .returns
  | returnsSingle => .typed .returns
  | returnUnnamed => .typed .returnSingle
  | returnNamed => .typed .returnSingle
  | literal _ => .literal

/-- The symbols that a rule is made of. -/
def rhs : Production → List Symbol
  | function =>
    [.nonterminal .identifier, .terminal .openParen, .nonterminal .params, .terminal .closeParen,
      .terminal .arrow, .nonterminal (.typed .returns)]
  | identifier => [.terminal .name]
  | paramsNone => []
  | paramsOne => [.nonterminal .param]
  | paramsMany => [.nonterminal .param, .nonterminal (.rest .params)]
  | paramStar => [.terminal .star]
  | paramPlain => [.nonterminal (.typed .type), .terminal .name]
  | paramDefault =>
    [.nonterminal (.typed .type), .terminal .name, .terminal .equal, .nonterminal .literal]
  | restFirst list => [.terminal .comma, list.item]
  | restNext list => [.nonterminal (.rest list), .terminal .comma, list.item]
  | typeBase => [.nonterminal (.typed .baseType)]
  | typeTuple => [.nonterminal (.typed .tupleType)]
  | plain type => [.terminal (.plain type)]
  | base form => [.nonterminal (.typed form.form)]
  | intListOne =>
    [.terminal (.plain (.tensor .intList)), .terminal .openSquare, .terminal .natural,
      .terminal .closeSquare]
  | intListMany =>
    [.terminal (.plain (.tensor .intList)), .terminal .openSquare, .terminal .natural,
      .nonterminal (.rest .dims), .terminal .closeSquare]
  | array =>
    [.terminal .array, .terminal .openAngle, .nonterminal (.typed .type), .terminal .comma,
      .terminal .natural, .terminal .closeAngle]
  | tupleEmpty _ => [.terminal .openParen, .terminal .closeParen]
  | tupleOne kind =>
    [.terminal .openParen, .nonterminal (.typed kind.element), .terminal .closeParen]
  | tupleMany kind =>
    [.terminal .openParen, .nonterminal (.typed kind.element), .nonterminal (.rest (.tuple kind)),
      .terminal .closeParen]
  | returnsTuple => [.nonterminal (.typed .returnTuple)]
  | returnsSingle => [.nonterminal (.typed .returnSingle)]
  | returnUnnamed => [.nonterminal (.typed .baseType)]
  | returnNamed => [.nonterminal (.typed .baseType), .terminal .name]
  | literal form => [.terminal (.literal form)]

/-- The item of a list, from the value of its symbol. -/
def itemValue : (list : ListKind) → list.item.Value → list.Item
  | .params, e => e
  | .tuple .types, e => e
  | .tuple .returns, e => e
  | .dims, lexeme => lexeme

/-- The value that a rule makes of the values of its symbols. -/
def act : (p : Production) → Values p.rhs → p.lhs.Value
  | function, (name, _, parameters, _, _, returnType, _) =>
    (⟨Lexeme.text name, parameters, returnType⟩ : SignatureExpr)
  | identifier, (name, _) => name
  | paramsNone, _ => ([] : List ParamExpr)
  | paramsOne, (first, _) => ([first] : List ParamExpr)
  | paramsMany, (first, others, _) => (first :: others : List ParamExpr)
  | paramStar, _ => ParamExpr.variadic
  | paramPlain, (type, name, _) => ParamExpr.parameter type (Lexeme.text name) none
  | paramDefault, (type, name, _, value, _) =>
    ParamExpr.parameter type (Lexeme.text name) (some value)
  | restFirst list, (_, item, _) => [itemValue list item]
  | restNext list, (items, _, item, _) => List.append items [itemValue list item]
  | typeBase, (type, _) => type
  | typeTuple, (type, _) => type
  | plain type, (word, _) => TypeExpr.plain (Lexeme.offset word) type
  | base _, (type, _) => type
  | intListOne, (word, _, first, _, _) =>
    TypeExpr.intList (Lexeme.offset word) (Lexeme.text first) []
  | intListMany, (word, _, first, others, _, _) =>
    TypeExpr.intList (Lexeme.offset word) (Lexeme.text first) (List.map Lexeme.text others)
  | array, (word, _, element, _, length, _, _) =>
    TypeExpr.array (Lexeme.offset word) element (Lexeme.text length)
  | tupleEmpty _, (openParen, _, _) => TypeExpr.tuple (Lexeme.offset openParen) []
  | tupleOne _, (openParen, first, _, _) => TypeExpr.tuple (Lexeme.offset openParen) [first]
  | tupleMany _, (openParen, first, others, _, _) =>
    TypeExpr.tuple (Lexeme.offset openParen) (first :: others : List TypeExpr)
  | returnsTuple, (type, _) => type
  | returnsSingle, (type, _) => type
  | returnUnnamed, (type, _) => type
  | returnNamed, (type, _, _) => type
  | literal form, (word, _) => (⟨form, Lexeme.text word⟩ : LiteralExpr)

end Production

/-! ## Start rules -/

/-- The nonterminals that can start a text. -/
inductive StartRule
  | function
  | identifier
  | type
  | literal
  | param
  | params
  | returns
  deriving DecidableEq

/-- A start rule as a nonterminal. -/
def StartRule.nonterminal : StartRule → Nonterminal
  | function => .function
  | identifier => .identifier
  | type => .typed .type
  | literal => .literal
  | param => .param
  | params => .params
  | returns => .typed .returns

/-- The expression that a text of a start rule stands for. -/
abbrev StartRule.Expr (r : StartRule) : Type := r.nonterminal.Value

end TensorSig
