/-!
# Kinds

The three closed enumerations of the signature language: tensor-family types, C scalar types and
named constants. Each kind has a `label`, the upper-case word that stands for it in printed
descriptors and in messages, and an `ordinal`, its place in the enumeration counted from one.
-/

namespace TensorSig

/-- Tensor-family types. Being optional (`?`) makes a kind of its own, never a wrapper. -/
inductive TensorKind
  | scalar
  | tensor
  | optionalTensor
  | tensorOptions
  | tensorList
  | indexTensor
  | boolTensor
  | optionalBoolTensor
  | intList
  | optionalScalar
  | scalarType
  | sparseTensorRef
  deriving DecidableEq

/-- C scalar types, the only types that an array may hold. -/
inductive ScalarKind
  | bool
  | void
  | double
  | int64
  | optionalInt64
  deriving DecidableEq

/-- Constants that may stand as a default. -/
inductive ConstantKind
  | atLong
  | reductionMean
  deriving DecidableEq

namespace TensorKind

/-- The kinds in the order of the enumeration. -/
def all : List TensorKind :=
  [scalar, tensor, optionalTensor, tensorOptions, tensorList, indexTensor, boolTensor,
    optionalBoolTensor, intList, optionalScalar, scalarType, sparseTensorRef]

theorem mem_all (k : TensorKind) : k ∈ all := by cases k <;> decide

/-- The printed word of a kind. -/
def label : TensorKind → String
  | scalar => "SCALAR"
  | tensor => "TENSOR"
  | optionalTensor => "OPTIONAL_TENSOR"
  | tensorOptions => "TENSOR_OPTIONS"
  | tensorList => "TENSOR_LIST"
  | indexTensor => "INDEX_TENSOR"
  | boolTensor => "BOOL_TENSOR"
  | optionalBoolTensor => "OPTIONAL_BOOL_TENSOR"
  | intList => "INT_LIST"
  | optionalScalar => "OPTIONAL_SCALAR"
  | scalarType => "SCALAR_TYPE"
  | sparseTensorRef => "SPARSE_TENSOR_REF"

/-- The place of a kind in the enumeration, from one. -/
def ordinal (k : TensorKind) : Nat := k.ctorIdx + 1

end TensorKind

namespace ScalarKind

/-- The kinds in the order of the enumeration. -/
def all : List ScalarKind := [bool, void, double, int64, optionalInt64]

theorem mem_all (k : ScalarKind) : k ∈ all := by cases k <;> decide

/-- The printed word of a kind. -/
def label : ScalarKind → String
  | bool => "BOOL"
  | void => "VOID"
  | double => "DOUBLE"
  | int64 => "INT64"
  | optionalInt64 => "OPTIONAL_INT64"

/-- The place of a kind in the enumeration, from one. -/
def ordinal (k : ScalarKind) : Nat := k.ctorIdx + 1

end ScalarKind

namespace ConstantKind

/-- The kinds in the order of the enumeration. -/
def all : List ConstantKind := [atLong, reductionMean]

theorem mem_all (k : ConstantKind) : k ∈ all := by cases k <;> decide

/-- The printed word of a kind. -/
def label : ConstantKind → String
  | atLong => "AT_KLONG"
  | reductionMean => "REDUCTION_MEAN"

/-- The place of a kind in the enumeration, from one. -/
def ordinal (k : ConstantKind) : Nat := k.ctorIdx + 1

end ConstantKind

end TensorSig
