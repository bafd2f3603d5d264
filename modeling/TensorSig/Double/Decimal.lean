import TensorSig.Double.Basic
import TensorSig.Text.Numeral

/-!
# Reading decimals as doubles

A decimal numeral denotes a rational number, and reading it yields the nearest double, a tie going
to the neighbour of even rank. Rounding works on exact naturals: `nearestRank` scales the quotient
so that one unit is the spacing of the doubles around it and rounds that to an integer.

* `Decimal.ofChars` takes a numeral apart into sign, digits and power of ten.
* `Decimal.toDouble` rounds it.
-/

namespace TensorSig

/-- A quotient rounded to the nearest natural, a tie going to the even one. -/
def roundHalfEven (num den : Nat) : Nat :=
  let q := num / den
  let r := num % den
  if 2 * r < den then q
  else if den < 2 * r then q + 1
  else if q % 2 = 0 then q
  else q + 1

/-- The greatest `b` with `2 ^ b ≤ num / den`, for positive arguments. -/
def floorLog2 (num den : Nat) : Int :=
  let b : Int := (num.log2 : Int) - den.log2
  if num * Nat.pow 2 (-b).toNat < den * Nat.pow 2 b.toNat then b - 1 else b

/-- The rank of the double magnitude nearest to a positive quotient. It is past the last magnitude
when the quotient is too large for a finite double. -/
def nearestRank (num den : Nat) : Nat :=
  let s := max (floorLog2 num den - 52) (-1074)
  (s + 1074).toNat * Double.binade +
    roundHalfEven (num * Nat.pow 2 (-s).toNat) (den * Nat.pow 2 s.toNat)

/-- A decimal numeral: `digits * 10 ^ exponent` with a sign. -/
structure Decimal where
  negative : Bool
  digits : Nat
  exponent : Int
  deriving DecidableEq

namespace Decimal

/-- The power of ten that an exponent part such as `e-8` denotes, zero where there is none. -/
def exponentPart : List Char → Int
  | [] => 0
  | _ :: '+' :: digits => Numeral.value digits
  | _ :: numeral => Numeral.signedValue numeral

/-- The numeral that a text of the form `-12.5e+3` denotes. Sign, fraction and exponent may each be
missing. -/
def ofChars (cs : List Char) : Decimal :=
  let body := Numeral.unsigned cs
  let whole := body.takeWhile Char.isDigit
  match body.dropWhile Char.isDigit with
  | '.' :: rest =>
    let fraction := rest.takeWhile Char.isDigit
    { negative := Numeral.isNegative cs
      digits := Numeral.value (whole ++ fraction)
      exponent := exponentPart (rest.dropWhile Char.isDigit) - fraction.length }
  | rest =>
    { negative := Numeral.isNegative cs
      digits := Numeral.value whole
      exponent := exponentPart rest }

/-- The nearest double. From `10 ^ 309` on every numeral is infinite, and one below `2 ^ -1075` is
a zero; both are decided from the size of the exponent, before any power is computed. -/
def toDouble (d : Decimal) : Double :=
  if d.digits = 0 then .ofRank d.negative 0
  else
    match d.exponent with
    | .ofNat e =>
      if 308 < e then .infinite d.negative
      else .ofRank d.negative (nearestRank (d.digits * Nat.pow 10 e) 1)
    | .negSucc e =>
      if d.digits.log2 + 1076 ≤ 3 * (e + 1) then .ofRank d.negative 0
      else .ofRank d.negative (nearestRank d.digits (Nat.pow 10 (e + 1)))

end Decimal

end TensorSig
