import SchemaRegistry.Binary.Format
import SchemaRegistry.Numeral.Decimal

/-!
# The shortest decimal that reads back

For a positive finite word, the decimal with the fewest digits among those that round to the word,
and of several with that few digits the one nearest to the number itself. For each count of digits
only the two neighbours of the number on that decimal grid can be it.
-/

namespace SchemaRegistry.Binary.Format

open Numeral (Decimal)

/-- The exact value of a finite word as a decimal. -/
def exactDecimal (f : Format) (word : Nat) : Decimal :=
  Decimal.trim (f.units word * Nat.pow 5 f.scale) (-f.scale)

/-- The number of digits before the decimal point of a positive finite word's value; negative if
zeros follow the point. -/
def pointOf (f : Format) (word : Nat) : Int :=
  let scaled := f.units word * Nat.pow 10 f.scale / f.resolution
  (Nat.toDigits 10 scaled).length - f.scale

/-- The value of a word divided by `10 ^ exponent`, as a numerator and a denominator. -/
def gridQuotient (f : Format) (word : Nat) (exponent : Int) : Nat × Nat :=
  match exponent with
  | .ofNat e => (f.units word, f.resolution * Nat.pow 10 e)
  | .negSucc e => (f.units word * Nat.pow 10 (e + 1), f.resolution)

/-- The multiple of `10 ^ exponent` that rounds to `word` and is nearest to its value; of two at the
same distance the one with the even significand. -/
def onGrid? (f : Format) (word : Nat) (exponent : Int) : Option Decimal :=
  let (n, d) := f.gridQuotient word exponent
  let below := n / d
  let twice := 2 * (n % d)
  let readsBack (significand : Nat) : Bool := f.roundDecimal significand exponent = word
  let belowFirst : Bool := twice < d || (twice = d && below % 2 = 0)
  -- At half way the even one goes first.
  let (first, second) := if belowFirst then (below, below + 1) else (below + 1, below)
  if readsBack first then some ⟨first, exponent⟩
  else if readsBack second then some ⟨second, exponent⟩
  else none

/-- Seventeen digits are enough to tell any two 64-bit numbers apart. -/
def mostDigits : Nat := 17

/-- The decimal on the first grid that has one, from one digit up. -/
def shortest (f : Format) (word : Nat) : Decimal :=
  let point := f.pointOf word
  let found := (List.range mostDigits).findSome? fun n => f.onGrid? word (point - (n + 1 : Nat))
  match found with
  | some d => Decimal.trim d.significand d.exponent
  -- The seventeenth digit leaves nothing undecided, so this is never come to.
  | none => f.exactDecimal word

end SchemaRegistry.Binary.Format
