import TensorSig.Descriptor.Dump

/-!
# Well-formed descriptors

Two rules restrict descriptors: only an integer list has dimensions, at least one and none of them
negative, and the length of an array is not negative. A descriptor is checked from the inside out
and in the order of its fields, and the first rule that fails is reported.

* `DescriptorFault`, `DescriptorFault.message`: the ways to fail and their texts.
* `ValueType.check`, `Parameter.check`, `ParamItem.check`, `Signature.check`: the check.
-/

namespace TensorSig

/-- Why a descriptor is not well-formed. -/
inductive DescriptorFault
  /-- Dimensions on a kind that has none. -/
  | unexpectedDims (kind : TensorKind)
  /-- An empty list of dimensions. -/
  | emptyDims
  /-- A negative dimension. -/
  | negativeDims (dims : List Int)
  /-- A negative array length. -/
  | negativeLength (length : Int)
  deriving DecidableEq

/-- The text of a fault. -/
def DescriptorFault.message : DescriptorFault → String
  | unexpectedDims kind => kind.label ++ " does not take dimensions"
  | emptyDims => "IntList dimensions must not be empty"
  | negativeDims dims =>
    "IntList dimensions must be non-negative, got " ++
      String.ofList (Dump.tuple (dims.map Numeral.ofInt))
  | negativeLength length =>
    "std::array length must be non-negative, got " ++ String.ofList (Numeral.ofInt length)

namespace ValueType

/-- The rule on dimensions. -/
def checkDims (kind : TensorKind) : Option (List Int) → Except DescriptorFault Unit
  | none => .ok ()
  | some dims =>
    if kind ≠ .intList then .error (.unexpectedDims kind)
    else if dims.isEmpty then .error .emptyDims
    else if dims.any (· < 0) then .error (.negativeDims dims)
    else .ok ()

mutual

/-- The first rule that a type breaks. -/
def check : ValueType → Except DescriptorFault Unit
  | pointer t => t.check
  | tensor kind dims => checkDims kind dims
  | array _ length => if length < 0 then .error (.negativeLength length) else .ok ()
  | tuple ts => checkAll ts
  | _ => .ok ()

/-- The first rule that one of several types breaks. -/
def checkAll : List ValueType → Except DescriptorFault Unit
  | [] => .ok ()
  | t :: ts =>
    match t.check with
    | .error fault => .error fault
    | .ok () => checkAll ts

end

end ValueType

/-- The first rule that a parameter breaks. -/
def Parameter.check (p : Parameter) : Except DescriptorFault Unit := p.type.check

/-- The first rule that an entry of a parameter list breaks. -/
def ParamItem.check : ParamItem → Except DescriptorFault Unit
  | .parameter p => p.check
  | .variadic => .ok ()

/-- The first rule that a declaration breaks. -/
def Signature.check (s : Signature) : Except DescriptorFault Unit := do
  s.parameters.forM ParamItem.check
  s.returnType.check

end TensorSig
