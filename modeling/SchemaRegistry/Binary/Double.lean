import SchemaRegistry.Binary.Shortest

/-!
# Double-precision numbers

A 64-bit number is a sign and a magnitude word. `toSingle` rounds one to single precision and gives
the result as a 64-bit number again, and `text` is its shortest decimal that reads back.
-/

namespace SchemaRegistry

open Binary Numeral

/-- The bit above the magnitude word. -/
def Double.signBit : Nat := 0x8000000000000000

/-- A sign, and a magnitude word below the sign bit. Every 64-bit pattern is one such number. -/
structure Double where
  negative : Bool
  word : Nat
  word_lt : word < Double.signBit
  deriving DecidableEq

namespace Double

/-- The number with the given sign whose magnitude is a word up to infinity. -/
def ofMagnitude (negative : Bool) (word : Nat) (h : word ≤ double.infinity) : Double where
  negative
  word
  word_lt := Nat.lt_of_le_of_lt h (by decide)

/-- The infinity of a sign. -/
def infinite (negative : Bool) : Double := ofMagnitude negative double.infinity (Nat.le_refl _)

/-- A quiet NaN. -/
def nan : Double := ⟨false, double.infinity + 0x8000000000000, by decide⟩

/-- Whether the word stands for no number. -/
def isNaN (x : Double) : Bool := double.infinity < x.word

/-- The sixteen hexadecimal digits of a number are its sign bit and its magnitude word. -/
def toBits (x : Double) : Nat := (if x.negative then signBit else 0) + x.word

/-- The number with these 64 bits; bits above them do not count. -/
def ofBits (bits : Nat) : Double where
  negative := bits / signBit % 2 = 1
  word := bits % signBit
  word_lt := Nat.mod_lt _ (by decide)

/-- The number nearest to the decimal, with the given sign. -/
def ofDecimal (negative : Bool) (d : Decimal) : Double :=
  ofMagnitude negative (double.roundDecimal d.significand d.exponent)
    (double.roundDecimal_le_infinity _ _)

/-- Equality of numbers: a NaN equals nothing, and both zeros are equal. -/
def sameNumber (x y : Double) : Bool :=
  !x.isNaN && !y.isNaN && x.word = y.word && (x.negative = y.negative || x.word = 0)

/-- The single-precision word nearest to a number's magnitude. -/
def singleWord (x : Double) : Nat := single.round (double.units x.word) double.resolution

/-- The single-precision number nearest to `x`; infinities and NaN stay. -/
def toSingle (x : Double) : Double :=
  if double.infinity ≤ x.word then x
  else if x.singleWord = single.infinity then infinite x.negative
  else ofMagnitude x.negative (double.round (single.units x.singleWord) single.resolution)
    (double.round_le_infinity _ _)

/-- Numbers from 0.0001 to below 10 ^ 16 are written positionally, and an exponent has at least two
digits. -/
def layout : Layout where
  positionalFrom := -4
  positionalBelow := 16
  exponentDigits := 2

/-- The text of a magnitude that is a number or infinity. -/
def magnitudeText (word : Nat) : List Char :=
  if word = double.infinity then ['i', 'n', 'f']
  else layout.write (if word = 0 then ⟨0, 0⟩ else double.shortest word)

/-- The shortest decimal that reads back, in the usual layout. NaN has no sign. -/
def text (x : Double) : String :=
  if x.isNaN then "nan"
  else String.ofList ((if x.negative then ['-'] else []) ++ magnitudeText x.word)

end Double

end SchemaRegistry
