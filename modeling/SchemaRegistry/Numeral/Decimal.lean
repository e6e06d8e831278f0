/-!
# Decimals and their layout

A decimal is a significand and a power of ten. Its text shows the digits of the significand either
positionally, with at least one digit on each side of the point, or with one digit before the point
and an exponent; a `Layout` says which decimals are written positionally.
-/

namespace SchemaRegistry.Numeral

/-- The number `significand * 10 ^ exponent`. -/
structure Decimal where
  significand : Nat
  exponent : Int
  deriving DecidableEq

/-- The same number with no zeros at the end of its significand; zero itself is left alone. -/
def Decimal.trim (significand : Nat) (exponent : Int) : Decimal :=
  if significand ≠ 0 ∧ significand % 10 = 0 then trim (significand / 10) (exponent + 1)
  else ⟨significand, exponent⟩
termination_by significand
decreasing_by omega

/-- Where positional writing begins and ends, as exponents of the leading digit, and the least
number of digits in an exponent. -/
structure Layout where
  positionalFrom : Int
  positionalBelow : Int
  exponentDigits : Nat

namespace Layout

/-- So many zeros. -/
def zeros (n : Nat) : List Char := List.replicate n '0'

/-- Digits with a point after the first `point` of them, zeros filling the gap on either side. -/
def positional (digits : List Char) (point : Int) : List Char :=
  if point ≤ 0 then '0' :: '.' :: zeros (-point).toNat ++ digits
  else if digits.length ≤ point.toNat then
    digits ++ zeros (point.toNat - digits.length) ++ ['.', '0']
  else digits.take point.toNat ++ '.' :: digits.drop point.toNat

/-- An exponent with its sign. -/
def exponentText (l : Layout) (exponent : Int) : List Char :=
  let digits := Nat.toDigits 10 exponent.natAbs
  (if exponent < 0 then '-' else '+') :: zeros (l.exponentDigits - digits.length) ++ digits

/-- One digit before the point and the rest behind it, then an exponent. A single digit has no
point. -/
def scientific (l : Layout) (digits : List Char) (exponent : Int) : List Char :=
  digits.take 1 ++ (if digits.length ≤ 1 then [] else '.' :: digits.drop 1)
    ++ 'e' :: l.exponentText exponent

/-- The text of a decimal. The exponent of its leading digit decides how it is written. -/
def write (l : Layout) (d : Decimal) : List Char :=
  let digits := Nat.toDigits 10 d.significand
  let point := digits.length + d.exponent
  if l.positionalFrom ≤ point - 1 ∧ point - 1 < l.positionalBelow then positional digits point
  else l.scientific digits (point - 1)

end Layout

end SchemaRegistry.Numeral
