import SchemaRegistry.Text.Character

/-!
# Quoted text

A text is written between quotes on one line: the quote in use and the backslash are escaped by a
backslash, line feed, carriage return and tab have letters, and every other unprintable character is
its code point in hexadecimal, in the narrowest of the forms `\xNN`, `\uNNNN` and `\UNNNNNNNN`.
Byte strings are written the same way, byte by byte, with ASCII alone printable.
-/

namespace SchemaRegistry.Text

/-- The last `width` hexadecimal digits of `n`, in lower case. -/
def hexDigits : (width n : Nat) → List Char
  | 0, _ => []
  | width + 1, n => hexDigits width (n / 16) ++ [Nat.digitChar (n % 16)]

namespace Quoted

/-- The single quote, unless the text holds one and no double quote. -/
def quoteFor (cs : List Char) : Char :=
  if cs.contains '\x27' && !cs.contains '"' then '"' else '\x27'

/-- The narrowest numeric form of a character. -/
def numericForm (c : Char) : List Char :=
  if c.toNat < 0x100 then '\\' :: 'x' :: hexDigits 2 c.toNat
  else if c.toNat < 0x10000 then '\\' :: 'u' :: hexDigits 4 c.toNat
  else '\\' :: 'U' :: hexDigits 8 c.toNat

/-- What stands between the quotes for a character. -/
def encodeChar (plain : Char → Bool) (quote c : Char) : List Char :=
  if c = quote ∨ c = '\\' then ['\\', c]
  else if c = '\n' then ['\\', 'n']
  else if c = '\r' then ['\\', 'r']
  else if c = '\t' then ['\\', 't']
  else if plain c then [c]
  else numericForm c

/-- The written form of `cs`, in which the characters that `plain` admits stand for themselves. -/
def encode (plain : Char → Bool) (cs : List Char) : List Char :=
  let quote := quoteFor cs
  quote :: cs.flatMap (encodeChar plain quote) ++ [quote]

end Quoted

/-- The written form of a text. -/
def quote (s : String) : String := String.ofList (Quoted.encode isPrintable s.toList)

/-- The character whose code point is the byte. -/
def byteChar (b : UInt8) : Char := Char.ofNat b.toNat

/-- The written form of a byte string: a `b`, then its bytes between quotes. -/
def quoteBytes (bytes : List UInt8) : String :=
  String.ofList ('b' :: Quoted.encode isPrintableAscii (bytes.map byteChar))

end SchemaRegistry.Text
