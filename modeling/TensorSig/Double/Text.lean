import TensorSig.Double.Shortest

/-!
# Text of doubles

A double is written with its shortest decimal. When the first digit has weight `10 ^ k` with
`-4 ≤ k < 16` the notation is positional and always has a point with a digit on each side
(`0.0001`, `1500.0`); otherwise it is scientific with a signed exponent of at least two digits and
no idle point (`1e-05`, `1.5e+16`). The sign of a zero is kept.

* `Double.text` writes, `Double.ofText?` reads what it has written.
-/

namespace TensorSig.Double

/-- An exponent with its sign and at least two digits. -/
def exponentText (k : Int) : List Char :=
  let digits := Numeral.ofNat k.natAbs
  (if k < 0 then '-' else '+') :: (List.replicate (2 - digits.length) '0' ++ digits)

/-- A positional text: `digits` with the point after the first `point` of them, counted from the
left edge and padded with zeros where it lies outside. -/
def positional (digits : List Char) (point : Int) : List Char :=
  if point ≤ 0 then
    '0' :: '.' :: (List.replicate (-point).toNat '0' ++ digits)
  else if digits.length ≤ point.toNat then
    digits ++ List.replicate (point.toNat - digits.length) '0' ++ ['.', '0']
  else
    digits.take point.toNat ++ '.' :: digits.drop point.toNat

/-- A scientific text: the first digit, the others after a point, and the exponent. -/
def scientific (digits : List Char) (k : Int) : List Char :=
  let fraction := digits.drop 1
  digits.take 1 ++ (if fraction.isEmpty then [] else '.' :: fraction) ++ 'e' :: exponentText k

/-- The text of a magnitude. -/
def magnitudeText (rank : Nat) : List Char :=
  if rank = 0 then ['0', '.', '0']
  else
    let (digits, e) := Shortest.decimal rank
    let all := Numeral.ofNat digits
    let kept := (all.reverse.dropWhile (· == '0')).reverse
    let point : Int := all.length + e
    if -4 < point ∧ point ≤ 16 then positional kept point else scientific kept (point - 1)

/-- The text of a double. -/
def text : Double → List Char
  | nan => "nan".toList
  | infinite false => "inf".toList
  | infinite true => "-inf".toList
  | finite false rank => magnitudeText rank
  | finite true rank => '-' :: magnitudeText rank

/-- The double that a text denotes: the words that `text` writes for the special values, or a
numeral. -/
def ofText? (cs : List Char) : Option Double :=
  if cs = text nan then some nan
  else if cs = text (infinite false) then some (infinite false)
  else if cs = text (infinite true) then some (infinite true)
  else if (Numeral.unsigned cs).head?.any Char.isDigit then some (Decimal.ofChars cs).toDouble
  else none

end TensorSig.Double
