import TensorSig.Grammar.Terminal

/-!
# Expressions

What the grammar makes of a text: types, defaults, parameters and declarations as they are spelled.
Numerals and names are kept as their lexemes, and a type remembers the offset of its first
character. The descriptors that expressions denote are the matter of `Expr.Denote`.

* `Lexeme`: a piece of the text with its offset.
* `TypeExpr`, `LiteralExpr`, `ParamExpr`, `SignatureExpr`: the expressions.
-/

namespace TensorSig

/-- A piece of the text and the offset of its first character. -/
structure Lexeme where
  text : List Char
  offset : Nat
  deriving DecidableEq

/-- A type as it is spelled. Every form starts with its offset. -/
inductive TypeExpr
  | plain (offset : Nat) (type : PlainType)
  /-- An integer list with its dimensions, of which there is at least one. -/
  | intList (offset : Nat) (first : List Char) (others : List (List Char))
  | array (offset : Nat) (element : TypeExpr) (length : List Char)
  | tuple (offset : Nat) (elements : List TypeExpr)

/-- The offset of the first character of a type. -/
def TypeExpr.offset : TypeExpr → Nat
  | plain offset _ => offset
  | intList offset _ _ => offset
  | array offset _ _ => offset
  | tuple offset _ => offset

/-- A default as it is spelled. -/
structure LiteralExpr where
  form : LiteralForm
  text : List Char

/-- An entry of a parameter list as it is spelled. -/
inductive ParamExpr
  | parameter (type : TypeExpr) (name : List Char) (default? : Option LiteralExpr)
  /-- The marker `*`. -/
  | variadic

/-- A declaration as it is spelled. -/
structure SignatureExpr where
  name : List Char
  parameters : List ParamExpr
  returnType : TypeExpr

end TensorSig
