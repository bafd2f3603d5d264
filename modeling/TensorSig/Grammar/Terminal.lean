import TensorSig.Descriptor.ValueType
import TensorSig.Grammar.Scanner

/-!
# Terminals

The words and symbols of the signature language. Most have one spelling; names, numerals and truth
values are classes of lexemes. Terminals overlap, `Tensor` being the start of `TensorList` and an
integer the start of a floating-point numeral, so they are tried in the order of `ranked`, in which
the longer spellings of a family precede the shorter ones.

* `PlainType`: the types that are one word, with their `spelling` and the `descriptor` they denote.
* `LiteralForm`: the ways to write a default.
* `Terminal.scan`: the lexeme of a terminal at the start of a text.
* `Terminal.ranked`, `Terminal.priority`: the order in which terminals are tried.
* `Terminal.length_lt_of_scan`: a lexeme is never empty.
-/

namespace TensorSig

/-- The types that are written as one word. -/
inductive PlainType
  | tensor (kind : TensorKind)
  | scalar (kind : ScalarKind)
  | string
  | device
  | generator
  | storage
  deriving DecidableEq

namespace PlainType

/-- The word that stands for a type. -/
def spelling : PlainType → String
  | tensor .scalar => "Scalar"
  | tensor .tensor => "Tensor"
  | tensor .optionalTensor => "Tensor?"
  | tensor .tensorOptions => "TensorOptions"
  | tensor .tensorList => "TensorList"
  | tensor .indexTensor => "IndexTensor"
  | tensor .boolTensor => "BoolTensor"
  | tensor .optionalBoolTensor => "BoolTensor?"
  | tensor .intList => "IntList"
  | tensor .optionalScalar => "Scalar?"
  | tensor .scalarType => "ScalarType"
  | tensor .sparseTensorRef => "SparseTensorRef"
  | scalar .bool => "bool"
  | scalar .void => "void"
  | scalar .double => "double"
  | scalar .int64 => "int64_t"
  | scalar .optionalInt64 => "int64_t?"
  | string => "std::string"
  | device => "Device"
  | generator => "Generator*"
  | storage => "Storage"

/-- The type that a word stands for; `IntList` alone has no dimensions. -/
def descriptor : PlainType → ValueType
  | tensor kind => .tensor kind none
  | scalar kind => .scalar kind
  | string => .string
  | device => .device
  | generator => .generator
  | storage => .storage

/-- All words for types. -/
def all : List PlainType :=
  TensorKind.all.map tensor ++ ScalarKind.all.map scalar ++ [string, device, generator, storage]

theorem mem_all (w : PlainType) : w ∈ all := by
  cases w with
  | tensor k => cases k <;> decide
  | scalar k => cases k <;> decide
  | string => decide
  | device => decide
  | generator => decide
  | storage => decide

end PlainType

/-- The ways to write a default. -/
inductive LiteralForm
  | float
  | integer
  | bool (value : Bool)
  | nullPointer
  | noneValue
  | constant (kind : ConstantKind)
  /-- A pair of braces with nothing between. -/
  | emptyDict
  /-- A pair of braces with `0,1` between. -/
  | zeroOneDict
  deriving DecidableEq

namespace LiteralForm

/-- All ways to write a default. -/
def all : List LiteralForm :=
  [float, integer, bool true, bool false, nullPointer, noneValue, constant .reductionMean,
    constant .atLong, emptyDict, zeroOneDict]

theorem mem_all (l : LiteralForm) : l ∈ all := by
  cases l with
  | bool b => cases b <;> decide
  | constant k => cases k <;> decide
  | _ => decide

end LiteralForm

/-- The words and symbols of the signature language. -/
inductive Terminal
  | plain (type : PlainType)
  | array
  | literal (form : LiteralForm)
  /-- Digits, as a dimension or a length. -/
  | natural
  | name
  | star
  | arrow
  | openParen
  | closeParen
  | openSquare
  | closeSquare
  | openAngle
  | closeAngle
  | comma
  | equal
  deriving DecidableEq

namespace Terminal

/-- All terminals. -/
def all : List Terminal :=
  PlainType.all.map plain ++ array :: LiteralForm.all.map literal ++
    [natural, name, star, arrow, openParen, closeParen, openSquare, closeSquare, openAngle,
      closeAngle, comma, equal]

theorem mem_all (t : Terminal) : t ∈ all := by
  cases t with
  | plain w => simp [all, PlainType.mem_all w]
  | literal l => simp [all, LiteralForm.mem_all l]
  | _ => decide

/-- The spelling of a terminal that has only one. -/
def spelling? : Terminal → Option String
  | plain w => some w.spelling
  | array => some "std::array"
  | literal .float => none
  | literal .integer => none
  | literal (.bool _) => none
  | literal .nullPointer => some "nullptr"
  | literal .noneValue => some "None"
  | literal (.constant .reductionMean) => some "Reduction::Mean"
  | literal (.constant .atLong) => some "at::kLong"
  | literal .emptyDict => some "\x7b\x7d"
  | literal .zeroOneDict => some "\x7b0,1\x7d"
  | natural => none
  | name => none
  | star => some "*"
  | arrow => some "->"
  | openParen => some "("
  | closeParen => some ")"
  | openSquare => some "["
  | closeSquare => some "]"
  | openAngle => some "<"
  | closeAngle => some ">"
  | comma => some ","
  | equal => some "="

/-! ## Lexemes -/

/-- The characters that may start a name: ASCII letters and the underscore. -/
def isNameStart (c : Char) : Bool := c.isAlpha || c = '_'

/-- The characters that may follow in a name. -/
def isNamePart (c : Char) : Bool := isNameStart c || c.isDigit || c = ':' || c = '<' || c = '>'

/-- A name. -/
def scanName : Scanner := (Scanner.char isNameStart).andThen (Scanner.run isNamePart)

/-- One digit or more. -/
def scanDigits : Scanner := (Scanner.char Char.isDigit).andThen (Scanner.run Char.isDigit)

/-- An integer: digits after an optional minus sign. -/
def scanInteger : Scanner := (Scanner.char (· = '-')).optional.andThen scanDigits

/-- An exponent part such as `e-8`. -/
def scanExponent : Scanner :=
  (Scanner.char fun c => c = 'e' || c = 'E').andThen
    ((Scanner.char fun c => c = '+' || c = '-').optional.andThen scanDigits)

/-- A point and digits, with or without an exponent. -/
def scanFraction : Scanner :=
  (Scanner.char (· = '.')).andThen (scanDigits.andThen scanExponent.optional)

/-- A floating-point numeral: an integer with a fraction, an exponent or both. -/
def scanFloat : Scanner := scanInteger.andThen (scanFraction.orElse scanExponent)

/-- A word of which the first letter may be of either case. -/
def scanEitherCase (lower upper : Char) (others : List Char) : Scanner :=
  (Scanner.char fun c => c = lower || c = upper).andThen (Scanner.word others)

/-- The lexemes of a terminal that has no spelling of its own. -/
def scanClass : Terminal → Scanner
  | literal .float => scanFloat
  | literal .integer => scanInteger
  | literal (.bool true) => scanEitherCase 't' 'T' ['r', 'u', 'e']
  | literal (.bool false) => scanEitherCase 'f' 'F' ['a', 'l', 's', 'e']
  | natural => scanDigits
  | _ => scanName

/-- The lexeme of a terminal at the start of a text. Only the lexeme itself decides: what follows
need not be a word boundary. -/
def scan (t : Terminal) : Scanner :=
  match t.spelling? with
  | some s => Scanner.word s.toList
  | none => t.scanClass

theorem exact_scanDigits : Scanner.Exact scanDigits := (Scanner.Exact.char _).andThen (.run _)

theorem exact_scanInteger : Scanner.Exact scanInteger :=
  (Scanner.Exact.char _).optional.andThen exact_scanDigits

theorem exact_scanExponent : Scanner.Exact scanExponent :=
  (Scanner.Exact.char _).andThen ((Scanner.Exact.char _).optional.andThen exact_scanDigits)

theorem exact_scanFraction : Scanner.Exact scanFraction :=
  (Scanner.Exact.char _).andThen (exact_scanDigits.andThen exact_scanExponent.optional)

theorem consuming_scanInteger : Scanner.Consuming scanInteger :=
  Scanner.Consuming.after _ ((Scanner.Consuming.char _).andThen _)

theorem exact_scanClass (t : Terminal) : t.scanClass.Exact := by
  unfold scanClass
  split
  · exact exact_scanInteger.andThen (exact_scanFraction.orElse exact_scanExponent)
  · exact exact_scanInteger
  · exact (Scanner.Exact.char _).andThen (.word _)
  · exact (Scanner.Exact.char _).andThen (.word _)
  · exact exact_scanDigits
  · exact (Scanner.Exact.char _).andThen (.run _)

theorem consuming_scanClass (t : Terminal) : t.scanClass.Consuming := by
  unfold scanClass
  split
  · exact consuming_scanInteger.andThen _
  · exact consuming_scanInteger
  all_goals exact (Scanner.Consuming.char _).andThen _

theorem toList_ne_nil_of_spelling? {t : Terminal} {s : String} (h : t.spelling? = some s) :
    s.toList ≠ [] := by
  have key : ∀ t ∈ all, t.spelling?.all (fun s => !s.toList.isEmpty) = true := by decide
  have := key t (mem_all t)
  rw [h] at this
  simpa using this

/-- A lexeme and what follows it make up the text. -/
theorem exact_scan (t : Terminal) : t.scan.Exact := by
  unfold scan
  split
  · exact .word _
  · exact exact_scanClass t

/-- A lexeme is never empty. -/
theorem consuming_scan (t : Terminal) : t.scan.Consuming := by
  unfold scan
  split
  · rename_i h
    exact .word (toList_ne_nil_of_spelling? h)
  · exact consuming_scanClass t

/-- The text after a lexeme is shorter. -/
theorem length_lt_of_scan {t : Terminal} {text lexeme rest : List Char}
    (h : t.scan text = some (lexeme, rest)) : rest.length < text.length :=
  Scanner.length_lt (exact_scan t) (consuming_scan t) h

/-! ## The order of trial -/

/-- How urgently a terminal is tried: within a family of spellings that start alike, the longer one
is the more urgent. -/
def priority : Terminal → Nat
  | plain (.tensor .tensorOptions) => 4
  | plain (.tensor .optionalTensor) => 3
  | plain (.tensor .tensorList) => 2
  | plain (.tensor .tensor) => 1
  | plain (.tensor .optionalBoolTensor) => 2
  | plain (.tensor .boolTensor) => 1
  | plain (.tensor .optionalScalar) => 3
  | plain (.tensor .scalarType) => 2
  | plain (.tensor .scalar) => 1
  | plain (.scalar .optionalInt64) => 2
  | plain (.scalar .int64) => 1
  | literal .float => 2
  | literal .integer => 1
  | _ => 0

/-- The terminals in the order in which they are tried. Among those of no urgency a name comes
first, so that where nothing restricts the choice it swallows the words that it could spell. -/
def ranked : List Terminal :=
  [plain (.tensor .tensorOptions), plain (.tensor .optionalScalar),
    plain (.tensor .optionalTensor), literal .float, plain (.tensor .optionalBoolTensor),
    plain (.tensor .scalarType), plain (.tensor .tensorList), plain (.scalar .optionalInt64),
    literal .integer, plain (.tensor .boolTensor), plain (.scalar .int64),
    plain (.tensor .scalar), plain (.tensor .tensor), name, natural, literal .zeroOneDict, arrow,
    literal .emptyDict, comma, equal, openAngle, openParen, openSquare, closeAngle, closeParen,
    closeSquare, star, plain (.tensor .indexTensor), plain (.tensor .intList),
    plain (.tensor .sparseTensorRef), plain (.scalar .bool), plain (.scalar .void),
    plain (.scalar .double), plain .string, plain .device, plain .generator, plain .storage, array,
    literal (.bool true), literal (.bool false), literal .nullPointer, literal .noneValue,
    literal (.constant .reductionMean), literal (.constant .atLong)]

theorem mem_ranked (t : Terminal) : t ∈ ranked := by
  have key : ∀ t ∈ all, t ∈ ranked := by decide
  exact key t (mem_all t)

theorem pairwise_ranked : ranked.Pairwise fun t u => u.priority ≤ t.priority := by decide

end Terminal

end TensorSig
