import TensorSig.Descriptor.ValueType
import TensorSig.Double.Basic

/-!
# Signatures

What a declaration declares: a name, parameters with their types and defaults, and a result type.

* `Literal`: the value of a default.
* `Parameter`, `ParamItem`: a parameter, and an entry of a parameter list, which is a parameter or
  the marker `*` that separates positional from keyword-only ones.
* `Signature`: a whole declaration, with `Signature.namedParameters`.
* `Literal.equals`, `Parameter.equals`, `ParamItem.equals`, `Signature.equals`: structural equality
  in which doubles compare as numbers.
-/

namespace TensorSig

/-- The value of a default. -/
inductive Literal
  | bool (value : Bool)
  | int (value : Int)
  | double (value : Double)
  /-- Both an empty pair of braces and `0,1` between braces spell this value. -/
  | emptyDict
  | constant (kind : ConstantKind)
  | nullPointer
  | noneValue
  deriving DecidableEq

/-- A parameter of a function. -/
structure Parameter where
  type : ValueType
  name : String
  default? : Option Literal := none

/-- An entry of a parameter list. -/
inductive ParamItem
  | parameter (p : Parameter)
  /-- The marker `*`. -/
  | variadic

/-- A declaration. -/
structure Signature where
  name : String
  parameters : List ParamItem
  returnType : ValueType

namespace Literal

/-- Whether two literals agree in form and value. -/
def equals : Literal → Literal → Bool
  | double x, double y => x.equals y
  | a, b => a == b

end Literal

namespace Parameter

/-- Whether two defaults are both missing or agree. -/
def equalsDefault : Option Literal → Option Literal → Bool
  | none, none => true
  | some a, some b => a.equals b
  | _, _ => false

/-- Whether two parameters agree in type, name and default. -/
def equals (p q : Parameter) : Bool :=
  p.type.equals q.type && p.name == q.name && equalsDefault p.default? q.default?

end Parameter

namespace ParamItem

/-- Whether two entries agree. -/
def equals : ParamItem → ParamItem → Bool
  | parameter p, parameter q => p.equals q
  | variadic, variadic => true
  | _, _ => false

/-- Whether two parameter lists agree entry by entry. -/
def equalsAll : List ParamItem → List ParamItem → Bool
  | [], [] => true
  | p :: ps, q :: qs => p.equals q && equalsAll ps qs
  | _, _ => false

end ParamItem

namespace Signature

/-- The parameters of a declaration without its markers, in order. -/
def namedParameters (s : Signature) : List Parameter :=
  s.parameters.filterMap fun
    | .parameter p => some p
    | .variadic => none

/-- Whether two declarations agree in name, parameters and result type. -/
def equals (s t : Signature) : Bool :=
  s.name == t.name && ParamItem.equalsAll s.parameters t.parameters &&
    s.returnType.equals t.returnType

end Signature

end TensorSig
