import SchemaRegistry.Binary.Double
import SchemaRegistry.Text.Character

/-!
# Number literals

Literals of integers and of floating-point numbers, and the freer forms in which the latter may be
written besides. All of them are made of an optional sign and runs of ASCII decimal digits. Each
reader takes the longest run at the start of a text and gives the rest.
-/

namespace SchemaRegistry.Numeral

/-- A sign at the start of the text, `true` for minus, and what follows it. -/
def takeSign : List Char → Bool × List Char
  | '-' :: rest => (true, rest)
  | '+' :: rest => (false, rest)
  | cs => (false, cs)

/-- The digits at the start of the text, and what follows them. -/
def takeDigits (cs : List Char) : List Char × List Char :=
  (cs.takeWhile Char.isDigit, cs.dropWhile Char.isDigit)

/-- The number that decimal digits spell. -/
def ofDigits (digits : List Char) : Nat := Nat.ofDigitChars 10 digits 0

/-- No character is lost. -/
theorem takeDigits_append (cs : List Char) : (takeDigits cs).1 ++ (takeDigits cs).2 = cs :=
  List.takeWhile_append_dropWhile

/-!
## Integers

An integer literal is an optional sign and one or more digits. Whether a minus sign is admitted
depends on the type that the literal is for.
-/

/-- A sign and the digits behind it. -/
structure IntegerLiteral where
  negative : Bool
  digits : List Char
  deriving DecidableEq

namespace IntegerLiteral

/-- The literal that makes up the whole text. -/
def ofText? (minusAllowed : Bool) (s : String) : Option IntegerLiteral :=
  let (negative, rest) := takeSign s.toList
  let (digits, after) := takeDigits rest
  if digits = [] ∨ after ≠ [] ∨ (negative ∧ !minusAllowed) then none
  else some ⟨negative, digits⟩

/-- The number that the literal spells. -/
def value (l : IntegerLiteral) : Int :=
  if l.negative then -(ofDigits l.digits : Int) else ofDigits l.digits

end IntegerLiteral

/-!
## Floating-point numbers

After an optional sign comes either one of the words `inf`, `infinity` and `nan` in any mixture of
cases, or digits with an optional point, at least one digit on either side of it, and an optional
exponent.
-/

/-- A number, an infinity or NaN. A sign in front of NaN is read and forgotten. -/
inductive FloatLiteral where
  | decimal (negative : Bool) (value : Decimal)
  | infinity (negative : Bool)
  | nan
  deriving DecidableEq

namespace FloatLiteral

/-- The words, in lower case, and what they stand for after a sign. -/
def word? (negative : Bool) (cs : List Char) : Option FloatLiteral :=
  match cs.map Char.toLower with
  | ['i', 'n', 'f'] => some (.infinity negative)
  | ['i', 'n', 'f', 'i', 'n', 'i', 't', 'y'] => some (.infinity negative)
  | ['n', 'a', 'n'] => some .nan
  | _ => none

/-- The digits before and after the point, and what follows them; none if there is no digit. -/
def takeMantissa? (cs : List Char) : Option (List Char × List Char × List Char) :=
  let (whole, rest) := takeDigits cs
  let (fraction, after) :=
    match rest with
    | '.' :: rest' => takeDigits rest'
    | _ => ([], rest)
  -- A point alone is no number.
  if whole = [] ∧ fraction = [] then none else some (whole, fraction, after)

/-- The exponent that makes up the whole of what follows the mantissa; zero if nothing does. -/
def exponent? : List Char → Option Int
  | [] => some 0
  | c :: rest =>
    if c = 'e' ∨ c = 'E' then
      let (negative, rest) := takeSign rest
      let (digits, after) := takeDigits rest
      if digits = [] ∨ after ≠ [] then none
      else some (if negative then -(ofDigits digits : Int) else ofDigits digits)
    else none

/-- The decimal that makes up all the characters: a mantissa and an exponent. -/
def decimal? (negative : Bool) (cs : List Char) : Option FloatLiteral := do
  let (whole, fraction, after) ← takeMantissa? cs
  let exponent ← exponent? after
  return .decimal negative ⟨ofDigits (whole ++ fraction), exponent - fraction.length⟩

/-- The literal that makes up all the characters. -/
def ofChars? (cs : List Char) : Option FloatLiteral :=
  let (negative, rest) := takeSign cs
  (word? negative rest).or (decimal? negative rest)

/-- The literal that makes up the whole text. -/
def ofText? (s : String) : Option FloatLiteral := ofChars? s.toList

/-- The nearest double-precision number. -/
def toDouble : FloatLiteral → Double
  | .decimal negative d => .ofDecimal negative d
  | .infinity negative => .infinite negative
  | .nan => .nan

end FloatLiteral

/-!
## Free form

Numbers may be written more freely than literals are: with white space around them, with the digits
of any script, and with single underscores between digits.
-/

/-- The ASCII digit in place of a decimal digit of any script; other characters stay. -/
def asciiDigit (c : Char) : Char :=
  match Text.digitZeros.find? fun start => start ≤ c.toNat && c.toNat < start + 10 with
  | some start => Nat.digitChar (c.toNat - start)
  | none => c

/-- The characters without their underscores, unless one of these is not between two digits.
`afterDigit` says whether there is a digit in front. -/
def joinDigits? (afterDigit : Bool) : List Char → Option (List Char)
  | [] => some []
  | c :: rest =>
    if c = '_' then
      -- The underscore is dropped, and the next character must be a digit.
      if afterDigit && rest.head?.any Char.isDigit then joinDigits? false rest else none
    else (joinDigits? c.isDigit rest).map (c :: ·)

/-- The literal that the text is a free form of. -/
def FloatLiteral.ofFreeText? (s : String) : Option FloatLiteral := do
  let cs ← joinDigits? false (Text.trimBlanks (s.toList.map asciiDigit))
  ofChars? cs

end SchemaRegistry.Numeral
