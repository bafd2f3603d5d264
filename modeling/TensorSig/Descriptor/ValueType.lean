import TensorSig.Descriptor.Kind

/-!
# Value types

The type of an argument or of a result. A `ValueType` is built freely; which ones are well-formed
is the matter of `Descriptor.Validity`.

* `ValueType.equals`: structural equality, as a Boolean.
* `ValueType.form`: the printed word for the outermost form of a type.
-/

namespace TensorSig

/-- The type of an argument or of a result. -/
inductive ValueType
  | pointer (inner : ValueType)
  /-- A tensor-family type. Only an integer list has dimensions: `IntList[1,2]` has two and a bare
  `IntList` has `none`. -/
  | tensor (kind : TensorKind) (dims : Option (List Int))
  | device
  | generator
  | storage
  | scalar (kind : ScalarKind)
  /-- An array of fixed length. -/
  | array (element : ScalarKind) (length : Int)
  | string
  | tuple (elements : List ValueType)

namespace ValueType

mutual

/-- Whether two types agree in form and in every part. -/
def equals : ValueType → ValueType → Bool
  | pointer s, pointer t => s.equals t
  | tensor k ds, tensor l es => k == l && ds == es
  | device, device => true
  | generator, generator => true
  | storage, storage => true
  | scalar k, scalar l => k == l
  | array k m, array l n => k == l && m == n
  | string, string => true
  | tuple ss, tuple ts => equalsAll ss ts
  | _, _ => false

/-- Whether two lists of types agree in length and in every place. -/
def equalsAll : List ValueType → List ValueType → Bool
  | [], [] => true
  | s :: ss, t :: ts => s.equals t && equalsAll ss ts
  | _, _ => false

end

/-- The printed word for the outermost form of a type. -/
def form : ValueType → String
  | pointer _ => "PointerType"
  | tensor .. => "TensorType"
  | device => "DeviceType"
  | generator => "GeneratorType"
  | storage => "StorageType"
  | scalar _ => "CType"
  | array .. => "FixedArrayType"
  | string => "StringType"
  | tuple _ => "TupleType"

end ValueType

end TensorSig
