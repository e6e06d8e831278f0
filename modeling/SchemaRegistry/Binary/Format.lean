/-!
# Binary floating-point formats

A format is given by the widths of its exponent and fraction fields. The magnitude of a number is a
word, the two fields side by side; words are ordered as the numbers they stand for. Every finite
number is a whole count of the format's least positive number, so `units` reads a word exactly, and
`round` takes a quotient of natural numbers to the word of the nearest number, ties to the even
word, and to infinity from half a step above the largest finite number on.
-/

namespace SchemaRegistry.Binary

/-- The widths of the two fields that make up a magnitude. -/
structure Format where
  exponentBits : Nat
  fractionBits : Nat
  deriving DecidableEq

/-- The format of 64-bit numbers. -/
def double : Format := ⟨11, 52⟩

/-- The format of 32-bit numbers. -/
def single : Format := ⟨8, 23⟩

/-- The quotient of `n` by `d` to the nearest whole number, a half to the even one. -/
def roundHalfEven (n d : Nat) : Nat :=
  let q := n / d
  let twice := 2 * (n % d)
  if twice < d then q
  else if d < twice then q + 1
  else q + q % 2

namespace Format

/-- The number of words with one and the same exponent field. -/
def binade (f : Format) : Nat := Nat.pow 2 f.fractionBits

/-- The least positive number is `2 ^ -scale`. -/
def scale (f : Format) : Nat := Nat.pow 2 (f.exponentBits - 1) - 2 + f.fractionBits

/-- How many least positive numbers make one. -/
def resolution (f : Format) : Nat := Nat.pow 2 f.scale

/-- The word of infinity: all larger words stand for no number. -/
def infinity (f : Format) : Nat := (Nat.pow 2 f.exponentBits - 1) * f.binade

/-- What a finite word stands for, counted in least positive numbers. -/
def units (f : Format) (word : Nat) : Nat :=
  if word < f.binade then word
  else (f.binade + word % f.binade) * Nat.pow 2 (word / f.binade - 1)

/-- The word nearest to `n / d`. The step between neighbours near the quotient is `2 ^ shift` units;
a significand that rounds up to the next power of two carries into the exponent field by itself. -/
def round (f : Format) (n d : Nat) : Nat :=
  let scaled := n * f.resolution
  let shift := (scaled / d).log2 - f.fractionBits
  min (shift * f.binade + roundHalfEven scaled (d * Nat.pow 2 shift)) f.infinity

/-- Nothing is rounded beyond infinity. -/
theorem round_le_infinity (f : Format) (n d : Nat) : f.round n d ≤ f.infinity :=
  Nat.min_le_right _ _

/-- The word nearest to `significand * 10 ^ exponent`. Exponents so large or so small that the
result is infinity or zero whatever the digits are answered without computing the power. -/
def roundDecimal (f : Format) (significand : Nat) (exponent : Int) : Nat :=
  match exponent with
  | .ofNat e =>
    if significand = 0 then 0
    else if Nat.pow 2 (f.exponentBits - 1) ≤ significand.log2 + 3 * e then f.infinity
    else f.round (significand * Nat.pow 10 e) 1
  | .negSucc e =>
    if significand.log2 + f.scale + 2 ≤ 3 * (e + 1) then 0
    else f.round significand (Nat.pow 10 (e + 1))

theorem roundDecimal_le_infinity (f : Format) (significand : Nat) (exponent : Int) :
    f.roundDecimal significand exponent ≤ f.infinity := by
  unfold roundDecimal
  repeat' split
  all_goals first | exact Nat.zero_le _ | exact Nat.le_refl _ | exact round_le_infinity f _ _

end Format

end SchemaRegistry.Binary
