/-!
# Decimal numerals

The value of a run of decimal digits and the digits of a number. A numeral may have leading zeros;
a written number has none.

* `Numeral.value` reads digits; `Numeral.signedValue` reads an optional minus sign before them.
* `Numeral.ofNat` and `Numeral.ofInt` write them; `Numeral.value_ofNat` says that they read back.
-/

namespace TensorSig.Numeral

/-- The number that a run of digits denotes. -/
def value (digits : List Char) : Nat := Nat.ofDigitChars 10 digits 0

/-- The digits that follow an optional minus sign. -/
def unsigned : List Char → List Char
  | '-' :: digits => digits
  | digits => digits

/-- Whether a numeral starts with a minus sign. -/
def isNegative : List Char → Bool
  | '-' :: _ => true
  | _ => false

/-- The number that digits after an optional minus sign denote. -/
def signedValue (numeral : List Char) : Int :=
  if isNegative numeral then -(value (unsigned numeral) : Int) else value (unsigned numeral)

/-- The digits of a natural number, without leading zeros. -/
def ofNat (n : Nat) : List Char := Nat.toDigits 10 n

/-- The digits of an integer, after a minus sign when it is negative. -/
def ofInt : Int → List Char
  | .ofNat n => ofNat n
  | .negSucc n => '-' :: ofNat (n + 1)

theorem value_ofNat (n : Nat) : value (ofNat n) = n :=
  Nat.ofDigitChars_ten_toDigits

end TensorSig.Numeral
