/-!
# Escaped byte strings

The defaults of byte fields are written with C escapes: letters for some control characters, one to
three octal digits, or `x` and one or two hexadecimal digits. A character outside an escape gives
the byte of its code point modulo 256, and a backslash that begins no escape stands for itself.
-/

namespace SchemaRegistry.Default

/-- The bytes of the one-character escapes. -/
def simpleEscape? (c : Char) : Option UInt8 :=
  match c with
  | 'n' => some 0x0a
  | 'r' => some 0x0d
  | 't' => some 0x09
  | 'a' => some 0x07
  | 'b' => some 0x08
  | 'f' => some 0x0c
  | 'v' => some 0x0b
  | '\\' => some 0x5c
  | '\x27' => some 0x27
  | '"' => some 0x22
  | '?' => some 0x3f
  | _ => none

/-- Whether the character is one of the eight octal digits. -/
def isOctal (c : Char) : Bool := '0' ≤ c && c ≤ '7'

/-- Whether the character is a hexadecimal digit of either case. -/
def isHex (c : Char) : Bool :=
  c.isDigit || ('a' ≤ c && c ≤ 'f') || ('A' ≤ c && c ≤ 'F')

/-- The value of a hexadecimal digit. -/
def hexValue (c : Char) : Nat :=
  if c.isDigit then c.toNat - 0x30
  else if 'a' ≤ c then c.toNat - 0x61 + 10
  else c.toNat - 0x41 + 10

/-- The byte of octal digits; three of them may overflow it, and then it wraps around. -/
def octalByte (digits : List Char) : UInt8 := UInt8.ofNat (Nat.ofDigitChars 8 digits 0)

/-- The byte of hexadecimal digits. -/
def hexByte (digits : List Char) : UInt8 :=
  UInt8.ofNat (digits.foldl (fun n c => 16 * n + hexValue c) 0)

/-- The byte of a character outside an escape. -/
def plainByte (c : Char) : UInt8 := UInt8.ofNat c.toNat

/-- The byte of the escape that a backslash before `cs` begins, and how many characters of `cs` the
escape takes; none if it begins none. -/
def escape? (cs : List Char) : Option (UInt8 × Nat) :=
  match cs with
  | [] => none
  | c :: rest =>
    match simpleEscape? c with
    | some b => some (b, 1)
    | none =>
      if isOctal c then
        let digits := (cs.take 3).takeWhile isOctal
        some (octalByte digits, digits.length)
      else if c = 'x' ∨ c = 'X' then
        -- At most two digits, and at least one.
        let digits := (rest.take 2).takeWhile isHex
        if digits = [] then none else some (hexByte digits, digits.length + 1)
      else none

/-- The bytes that characters stand for. A backslash is tried as the beginning of an escape
first. -/
def unescapeChars : List Char → List UInt8
  | [] => []
  | c :: rest =>
    if c = '\\' then
      match escape? rest with
      | some (b, length) => b :: unescapeChars (rest.drop length)
      -- A backslash that escapes nothing stands for itself.
      | none => plainByte '\\' :: unescapeChars rest
    else plainByte c :: unescapeChars rest
termination_by cs => cs.length
decreasing_by all_goals simp; try omega

/-- The bytes that the text stands for. -/
def unescape (s : String) : List UInt8 := unescapeChars s.toList

end SchemaRegistry.Default
