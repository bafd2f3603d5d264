import TensorSig.Grammar.Production

/-!
# States

The states of the shift-reduce automaton that recognises signatures. A state stands for what has
been read of the construct at hand, so the states are named for the symbol that was read last. The
automaton is shared by all start rules; only the state that a text starts in differs.

* `State`: the states.
* `Expectation`, `State.awaits?`: the item that a state is about to read, if it awaits one, and the
  state that follows the item.
-/

namespace TensorSig

/-- The states of the automaton. -/
inductive State
  /-- Before a text. -/
  | start (rule : StartRule)
  /-- After a whole text. -/
  | accepted (rule : StartRule)
  /-- After the word of a type. -/
  | plain (type : PlainType)
  /-- After a default. -/
  | literal (form : LiteralForm)
  /-- After the name of a function. -/
  | functionName
  /-- After a function's name, once it is known for one. -/
  | functionHead
  /-- After the parenthesis that opens a function's parameters. -/
  | functionOpen
  /-- After a function's parameters. -/
  | functionParams
  /-- After the parenthesis that closes a function's parameters. -/
  | functionClose
  /-- After the arrow of a function. -/
  | functionArrow
  /-- After the results of a function. -/
  | functionReturns
  /-- After a base type of one of four forms, before it is known for a base type. -/
  | base (form : BaseForm)
  /-- After a base type, where a type was awaited. -/
  | typeBase
  /-- After a tuple type, where a type was awaited. -/
  | typeTuple
  /-- After the marker `*`. -/
  | paramStar
  /-- After the type of a parameter. -/
  | paramType
  /-- After the name of a parameter. -/
  | paramName
  /-- After the sign that introduces a default. -/
  | paramEqual
  /-- After the default of a parameter. -/
  | paramValue
  /-- After a base type, where a result was awaited. -/
  | returnBase
  /-- After the name of a result. -/
  | returnName
  /-- After a single result. -/
  | returnsSingle
  /-- After a tuple of results. -/
  | returnsTuple
  /-- After the bracket that opens dimensions. -/
  | intListOpen
  /-- After the bracket that closes a single dimension. -/
  | intListCloseOne
  /-- After the bracket that closes several dimensions. -/
  | intListCloseMany
  /-- After the word of an array. -/
  | array
  /-- After the bracket that opens an array's element. -/
  | arrayOpen
  /-- After the element of an array. -/
  | arrayElement
  /-- After the comma of an array. -/
  | arrayComma
  /-- After the length of an array. -/
  | arrayLength
  /-- After the bracket that closes an array. -/
  | arrayClose
  /-- After the parenthesis that opens a tuple. -/
  | tupleOpen (kind : TupleKind)
  /-- After the parenthesis that closes an empty tuple. -/
  | tupleCloseNone (kind : TupleKind)
  /-- After the parenthesis that closes a tuple of one. -/
  | tupleCloseOne (kind : TupleKind)
  /-- After the parenthesis that closes a tuple of several. -/
  | tupleCloseMany (kind : TupleKind)
  /-- After the first item of a list. -/
  | listFirst (list : ListKind)
  /-- After the comma that follows the first item of a list. -/
  | listFirstComma (list : ListKind)
  /-- After the second item of a list. -/
  | listSecond (list : ListKind)
  /-- After two items of a list or more. -/
  | listRest (list : ListKind)
  /-- After the comma that follows two items of a list or more. -/
  | listRestComma (list : ListKind)
  /-- After an item of a list that is neither the first nor the second. -/
  | listNext (list : ListKind)
  deriving DecidableEq

/-- The items that a state may be about to read. -/
inductive Expectation
  | type
  | param
  | returns
  | literal
  | natural
  deriving DecidableEq

/-- The items of a list. -/
def ListKind.expectation : ListKind → Expectation
  | params => .param
  | tuple .types => .type
  | tuple .returns => .returns
  | dims => .natural

/-- The item that a state is about to read, and the state after that item. -/
def State.awaits? : State → Option (Expectation × State)
  | start .type => some (.type, accepted .type)
  | start .literal => some (.literal, accepted .literal)
  | start .param => some (.param, accepted .param)
  | start .params => some (.param, listFirst .params)
  | start .returns => some (.returns, accepted .returns)
  | functionOpen => some (.param, listFirst .params)
  | functionArrow => some (.returns, functionReturns)
  | paramEqual => some (.literal, paramValue)
  | intListOpen => some (.natural, listFirst .dims)
  | arrayOpen => some (.type, arrayElement)
  | arrayComma => some (.natural, arrayLength)
  | tupleOpen kind => some ((ListKind.tuple kind).expectation, listFirst (.tuple kind))
  | listFirstComma list => some (list.expectation, listSecond list)
  | listRestComma list => some (list.expectation, listNext list)
  | _ => none

end TensorSig
