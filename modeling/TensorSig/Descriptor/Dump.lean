import TensorSig.Descriptor.Signature
import TensorSig.Double.Text
import TensorSig.Text.Quoted

/-!
# Printed descriptors

The printed form of a descriptor names its form and lists its fields in order, as in
`TensorType(kind=<TensorKind.TENSOR: 2>, dims=None)`. A kind is printed with its enumeration, label
and ordinal, a name is quoted, and a tuple of one element keeps a comma.

* `ValueType.dump`, `Literal.dump`, `Parameter.dump`, `ParamItem.dump`, `Signature.dump`: the
  printed forms.
* `Dump.record`, `Dump.tuple`, `Dump.member`, `Dump.optional`: the parts that they are made of.
-/

namespace TensorSig

namespace Dump

/-- Texts in order with a comma and a space between them. -/
def joined (items : List (List Char)) : List Char := [',', ' '].intercalate items

/-- The name of a form and its fields. -/
def record (form : String) (fields : List (String × List Char)) : List Char :=
  let items := fields.map fun (key, value) => key.toList ++ '=' :: value
  form.toList ++ '(' :: (joined items ++ [')'])

/-- Items between parentheses, a single one with a comma after it. -/
def tuple : List (List Char) → List Char
  | [item] => '(' :: (item ++ [',', ')'])
  | items => '(' :: (joined items ++ [')'])

/-- A member of an enumeration. -/
def member (enumeration label : String) (ordinal : Nat) : List Char :=
  '<' :: (enumeration.toList ++ '.' :: (label.toList ++ ':' :: ' ' ::
    (Numeral.ofNat ordinal ++ ['>'])))

/-- A value that may be missing. -/
def optional : Option (List Char) → List Char
  | none => "None".toList
  | some text => text

/-- A truth value. -/
def bool : Bool → List Char
  | true => "True".toList
  | false => "False".toList

end Dump

/-- The printed form of a tensor kind. -/
def TensorKind.dump (k : TensorKind) : List Char := Dump.member "TensorKind" k.label k.ordinal

/-- The printed form of a scalar kind. -/
def ScalarKind.dump (k : ScalarKind) : List Char := Dump.member "CTypeKind" k.label k.ordinal

/-- The printed form of a constant. -/
def ConstantKind.dump (k : ConstantKind) : List Char :=
  Dump.member "EnumConstantKind" k.label k.ordinal

namespace ValueType

mutual

/-- The printed form of a type. -/
def dump : ValueType → List Char
  | pointer t => Dump.record "PointerType" [("inner", t.dump)]
  | tensor k dims =>
    Dump.record "TensorType" [("kind", k.dump),
      ("dims", Dump.optional (dims.map fun ds => Dump.tuple (ds.map Numeral.ofInt)))]
  | device => Dump.record "DeviceType" []
  | generator => Dump.record "GeneratorType" []
  | storage => Dump.record "StorageType" []
  | scalar k => Dump.record "CType" [("kind", k.dump)]
  | array k length =>
    Dump.record "FixedArrayType" [("element", k.dump), ("length", Numeral.ofInt length)]
  | string => Dump.record "StringType" []
  | tuple ts => Dump.record "TupleType" [("elements", Dump.tuple (dumpAll ts))]

/-- The printed forms of types, in order. -/
def dumpAll : List ValueType → List (List Char)
  | [] => []
  | t :: ts => t.dump :: dumpAll ts

end

end ValueType

/-- The printed form of a literal. -/
def Literal.dump : Literal → List Char
  | .bool b => Dump.record "BoolValue" [("value", Dump.bool b)]
  | .int n => Dump.record "IntValue" [("value", Numeral.ofInt n)]
  | .double x => Dump.record "DoubleValue" [("value", x.text)]
  | .emptyDict => Dump.record "EmptyDict" []
  | .constant k => Dump.record "EnumConstant" [("kind", k.dump)]
  | .nullPointer => Dump.record "NullPointer" []
  | .noneValue => Dump.record "NoneValue" []

/-- The printed form of a parameter. -/
def Parameter.dump (p : Parameter) : List Char :=
  Dump.record "Parameter" [("type", p.type.dump), ("name", Text.quoted p.name.toList),
    ("default", Dump.optional (p.default?.map Literal.dump))]

/-- The printed form of an entry of a parameter list. -/
def ParamItem.dump : ParamItem → List Char
  | .parameter p => p.dump
  | .variadic => Dump.record "VariadicMarker" []

/-- The printed form of a declaration. -/
def Signature.dump (s : Signature) : List Char :=
  Dump.record "FunctionDescriptor" [("name", Text.quoted s.name.toList),
    ("parameters", Dump.tuple (s.parameters.map ParamItem.dump)),
    ("return_type", s.returnType.dump)]

end TensorSig
