import TensorSig.Descriptor.Signature
import TensorSig.Double.Decimal
import TensorSig.Expr.Basic

/-!
# Denotation of expressions

The descriptor that an expression denotes. Two things can go wrong with an expression that follows
the grammar: an integer numeral may have more digits than are read, and the element of an array may
be other than a C scalar type. Parts are taken in a fixed order and the first fault is the one
reported: the parameters of a declaration from left to right and then its result type; the default
of a parameter before its type; the element of an array, with the test on it, before its length;
the dimensions of an integer list from left to right.

* `OversizedNumeral`, `DenoteFault` and their messages: the ways to fail.
* `readNatural`, `readInteger`: numerals with the limit on their digits.
* `TypeExpr.denote`, `LiteralExpr.denote`, `ParamExpr.denote`, `SignatureExpr.denote`: descriptors.
-/

namespace TensorSig

/-- An integer numeral with more digits than are read. -/
structure OversizedNumeral where
  digits : Nat
  deriving DecidableEq

/-- Why an expression denotes nothing. -/
inductive DenoteFault
  | oversized (numeral : OversizedNumeral)
  /-- An array, of which the element starts at an offset, over a type other than a C scalar. -/
  | unsupportedElement (offset : Nat) (element : ValueType)

/-- The greatest number of digits of an integer numeral. -/
def digitLimit : Nat := 4300

/-- The text for a numeral that is too long. -/
def OversizedNumeral.message (numeral : OversizedNumeral) : String :=
  "Exceeds the limit (" ++ String.ofList (Numeral.ofNat digitLimit) ++
    " digits) for integer string conversion: value has " ++
    String.ofList (Numeral.ofNat numeral.digits) ++
    " digits; use sys.set_int_max_str_digits() to increase the limit"

/-- The text for an array over a type that it cannot hold. -/
def unsupportedElementMessage (element : ValueType) : String :=
  "std::array element must be a C scalar type (bool, void, double, int64_t), got " ++ element.form

/-- The number that digits denote, unless there are too many; zeros in front count. -/
def readNatural (digits : List Char) : Except DenoteFault Nat :=
  if digitLimit < digits.length then .error (.oversized ⟨digits.length⟩)
  else .ok (Numeral.value digits)

/-- The number that an integer numeral denotes, unless it has too many digits; its sign does not
count. -/
def readInteger (numeral : List Char) : Except DenoteFault Int :=
  if digitLimit < (Numeral.unsigned numeral).length then
    .error (.oversized ⟨(Numeral.unsigned numeral).length⟩)
  else .ok (Numeral.signedValue numeral)

/-- The dimensions that numerals denote. -/
def readDims : List (List Char) → Except DenoteFault (List Int)
  | [] => .ok []
  | numeral :: numerals => do
    let dim ← readNatural numeral
    let dims ← readDims numerals
    return (dim : Int) :: dims

namespace TypeExpr

/-- The kind of array element that a type is, or the fault of its being none. -/
def elementKind (offset : Nat) : ValueType → Except DenoteFault ScalarKind
  | .scalar kind => .ok kind
  | other => .error (.unsupportedElement offset other)

mutual

/-- The type that an expression denotes. -/
def denote : TypeExpr → Except DenoteFault ValueType
  | plain _ type => .ok type.descriptor
  | intList _ first others => do
    let dims ← readDims (first :: others)
    return .tensor .intList (some dims)
  | array _ element length => do
    let inner ← element.denote
    let kind ← elementKind element.offset inner
    let n ← readNatural length
    return .array kind n
  | tuple _ elements => do
    let types ← denoteAll elements
    return .tuple types

/-- The types that several expressions denote, in order. -/
def denoteAll : List TypeExpr → Except DenoteFault (List ValueType)
  | [] => .ok []
  | e :: es => do
    let type ← e.denote
    let types ← denoteAll es
    return type :: types

end

end TypeExpr

/-- The literal that a default denotes. -/
def LiteralExpr.denote (e : LiteralExpr) : Except DenoteFault Literal :=
  match e.form with
  | .float => .ok (.double (Decimal.ofChars e.text).toDouble)
  | .integer => do
    let n ← readInteger e.text
    return .int n
  | .bool b => .ok (.bool b)
  | .nullPointer => .ok .nullPointer
  | .noneValue => .ok .noneValue
  | .constant kind => .ok (.constant kind)
  | .emptyDict => .ok .emptyDict
  | .zeroOneDict => .ok .emptyDict

/-- The literal that a default denotes, where there is a default. -/
def LiteralExpr.denoteOptional : Option LiteralExpr → Except DenoteFault (Option Literal)
  | none => .ok none
  | some e => do
    let literal ← e.denote
    return some literal

namespace ParamExpr

/-- The entry of a parameter list that an expression denotes. -/
def denote : ParamExpr → Except DenoteFault ParamItem
  | parameter type name default? => do
    let value? ← LiteralExpr.denoteOptional default?
    let valueType ← type.denote
    return .parameter ⟨valueType, String.ofList name, value?⟩
  | variadic => .ok .variadic

/-- The parameter list that several expressions denote, in order. -/
def denoteAll : List ParamExpr → Except DenoteFault (List ParamItem)
  | [] => .ok []
  | e :: es => do
    let item ← e.denote
    let items ← denoteAll es
    return item :: items

end ParamExpr

/-- The declaration that an expression denotes. -/
def SignatureExpr.denote (e : SignatureExpr) : Except DenoteFault Signature := do
  let parameters ← ParamExpr.denoteAll e.parameters
  let returnType ← e.returnType.denote
  return ⟨String.ofList e.name, parameters, returnType⟩

end TensorSig
