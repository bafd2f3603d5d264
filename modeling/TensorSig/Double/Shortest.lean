import TensorSig.Double.Decimal

/-!
# Shortest decimals of doubles

The shortest decimal of a magnitude is the one with the fewest digits that reads back as it; among
several of that length it is the nearest one, and of two equally near ones that with an even last
digit. For each number of digits only the two neighbours of the magnitude on the grid of decimals
with that many digits can be meant, so `Shortest.decimal` tests those for one digit, two digits
and so on up to seventeen, which always suffice.

The exact expansion of the magnitude stands behind the search, so that every result reads back.
-/

namespace TensorSig.Shortest

/-- How many decimal digits a natural has. -/
def decimalLength (n : Nat) : Nat := (Numeral.ofNat n).length

/-- The greatest `k` with `10 ^ k ≤ num / den`, for positive arguments. -/
def floorLog10 (num den : Nat) : Int :=
  if den ≤ num then (decimalLength (num / den) : Int) - 1
  else -(decimalLength ((den - 1) / num) : Int)

/-- A quotient divided by a power of ten. -/
def scaled (num den : Nat) (e : Int) : Nat × Nat :=
  (num * Nat.pow 10 (-e).toNat, den * Nat.pow 10 e.toNat)

/-- Whether a decimal reads back as the magnitude of a rank. -/
def readsBack (rank : Nat) (digits : Nat) (e : Int) : Bool :=
  Decimal.toDouble ⟨false, digits, e⟩ == Double.ofRank false rank

/-- The decimal of `n` digits that reads back as a magnitude and is nearest to it, if there is
one. -/
def ofLength? (rank n : Nat) : Option (Nat × Int) :=
  let (num, den) := Double.ratio rank
  let e := floorLog10 num den - n + 1
  let (p, q) := scaled num den e
  let low := p / q
  match readsBack rank low e, readsBack rank (low + 1) e with
  | true, true => some (roundHalfEven p q, e)
  | true, false => some (low, e)
  | false, true => some (low + 1, e)
  | false, false => none

/-- The expansion of a magnitude with all its digits. -/
def exact (rank : Nat) : Nat × Int :=
  match Double.exponent rank with
  | .ofNat e => (Double.significand rank * Nat.pow 2 e, 0)
  | .negSucc e => (Double.significand rank * Nat.pow 5 (e + 1), .negSucc e)

/-- The shortest decimal of a positive magnitude, as its digits and the power of ten that scales
them. -/
def decimal (rank : Nat) : Nat × Int :=
  ((List.range 17).findSome? fun n => ofLength? rank (n + 1)).getD (exact rank)

end TensorSig.Shortest
