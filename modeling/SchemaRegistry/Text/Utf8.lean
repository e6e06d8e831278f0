/-!
# UTF-8

Encoding of texts as bytes, and a decoder that drops what is not part of a well-formed sequence. A
byte at which no well-formed sequence starts is skipped alone; the continuation bytes after it start
none either, so the whole ill-formed stretch disappears.
-/

namespace SchemaRegistry.Text.Utf8

/-- The bytes of characters. -/
def encode (cs : List Char) : List UInt8 := cs.flatMap String.utf8EncodeChar

/-- The bytes of a text. -/
def ofString (s : String) : List UInt8 := encode s.toList

/-- The six payload bits of a continuation byte. -/
def continuation? (b : UInt8) : Option Nat :=
  if 0x80 ≤ b.toNat ∧ b.toNat < 0xc0 then some (b.toNat - 0x80) else none

/-- The character with code point `n`, if `n` needs a sequence of this length, that is, is not below
`least`, and is no surrogate. -/
def scalar? (least n : Nat) : Option Char :=
  if least ≤ n ∧ n.isValidChar then some (Char.ofNat n) else none

/-- The character at the start of the bytes, and how many bytes it takes after the first. -/
def head? (b : UInt8) (rest : List UInt8) : Option (Char × Nat) :=
  let n := b.toNat
  if n < 0x80 then some (Char.ofNat n, 0)
  -- A continuation byte at the front starts no character.
  else if n < 0xc0 then none
  else if n < 0xe0 then
    match rest with
    | b₁ :: _ => do
      let c ← scalar? 0x80 ((n - 0xc0) * 64 + (← continuation? b₁))
      return (c, 1)
    | _ => none
  else if n < 0xf0 then
    match rest with
    | b₁ :: b₂ :: _ => do
      -- Each length has a least number, below which a shorter form is required.
      let c ← scalar? 0x800 (((n - 0xe0) * 64 + (← continuation? b₁)) * 64 + (← continuation? b₂))
      return (c, 2)
    | _ => none
  else if n < 0xf8 then
    match rest with
    | b₁ :: b₂ :: b₃ :: _ => do
      let high := ((n - 0xf0) * 64 + (← continuation? b₁)) * 64 + (← continuation? b₂)
      let c ← scalar? 0x10000 (high * 64 + (← continuation? b₃))
      return (c, 3)
    | _ => none
  else none

/-- The characters of the well-formed sequences, in order. -/
def decode : List UInt8 → List Char
  | [] => []
  | b :: rest =>
    match head? b rest with
    | some (c, more) => c :: decode (rest.drop more)
    | none => decode rest
termination_by bytes => bytes.length
decreasing_by all_goals simp; try omega

/-- The text of the well-formed sequences. -/
def toString (bytes : List UInt8) : String := String.ofList (decode bytes)

end SchemaRegistry.Text.Utf8
