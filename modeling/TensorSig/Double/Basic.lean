/-!
# Double-precision numbers

A double is a NaN, an infinity or a signed finite magnitude. The finite magnitudes are counted from
zero upwards, so the `rank` of a magnitude is the number of smaller ones: rank `0` is zero, the
other ranks below `binade` are the subnormal magnitudes, and from there on every `binade` ranks
share one binade. A rank `i` stands for `significand i * 2 ^ exponent i`.

* `Double.binade`, `Double.magnitudes`: how many magnitudes a binade has, and how many there are.
* `Double.significand`, `Double.exponent`, `Double.ratio`: the value of a magnitude.
* `Double.equals`: numerical equality, in which the two zeros agree and a NaN differs from all.
-/

namespace TensorSig

/-- A double-precision number. -/
inductive Double
  | nan
  | infinite (negative : Bool)
  /-- The sign and the rank of the magnitude. -/
  | finite (negative : Bool) (rank : Fin 0x7ff0000000000000)
  deriving DecidableEq

namespace Double

/-- How many magnitudes share a binade: two to the power of `52`. -/
abbrev binade : Nat := 0x10000000000000

/-- How many finite magnitudes there are: those of `2047` binades, the first of which is that of
zero and the subnormal magnitudes. -/
abbrev magnitudes : Nat := 0x7ff0000000000000

/-- The integer significand of a magnitude. -/
def significand (rank : Nat) : Nat :=
  if rank < binade then rank else binade + rank % binade

/-- The exponent of two that scales the significand of a magnitude. -/
def exponent (rank : Nat) : Int :=
  if rank < binade then -1074 else (rank / binade : Nat) - 1075

/-- The magnitude of a rank as a quotient of naturals. -/
def ratio (rank : Nat) : Nat × Nat :=
  (significand rank * Nat.pow 2 (exponent rank).toNat, Nat.pow 2 (-exponent rank).toNat)

/-- The double of a sign and a rank, infinite when the rank is past the last magnitude. -/
def ofRank (negative : Bool) (rank : Nat) : Double :=
  if h : rank < magnitudes then .finite negative ⟨rank, h⟩ else .infinite negative

/-- Numerical equality. -/
def equals : Double → Double → Bool
  | infinite s, infinite t => s == t
  | finite s i, finite t j => i == j && (s == t || i.val == 0)
  | _, _ => false

end Double

end TensorSig
