import SchemaRegistry.Default.Escape
import SchemaRegistry.FieldType
import SchemaRegistry.Numeral.Literal
import SchemaRegistry.Value

/-!
# Default values

A field declaration gives its default as text. `parse` reads the text for the type of the field: it
gives a value that fits the type, or says why there is none.
-/

namespace SchemaRegistry

/-- Why a text gives no value. -/
inductive DefaultError where
  /-- The text is no value of the type, or the type admits no default. -/
  | badText (text : String)
  | group
  /-- An integer literal has more digits than are ever converted. -/
  | tooManyDigits (count : Nat)
  deriving DecidableEq

namespace DefaultError

/-- The most digits that an integer literal may have, leading zeros counted. -/
def maxDigits : Nat := 4300

/-- What is said of a default without a value. -/
def message : DefaultError → String
  | badText text => "Bad default value " ++ Text.quote text
  | group => "group fields cannot carry a default value"
  | tooManyDigits count =>
    s!"Exceeds the limit ({maxDigits} digits) for integer string conversion: value has {count} "
      ++ "digits; use sys.set_int_max_str_digits() to increase the limit"

end DefaultError

namespace Default

open Numeral

/-- The integers that a type holds, and the representation they are held in. -/
structure IntegerRange where
  low : Int
  high : Int
  tag : Int → Value

/-- The integers of the 32-bit types with a sign. -/
def signed32 : IntegerRange := ⟨-0x80000000, 0x7fffffff, .int32⟩

/-- The integers of the 64-bit types with a sign. -/
def signed64 : IntegerRange := ⟨-0x8000000000000000, 0x7fffffffffffffff, .int64⟩

/-- The integers of the 32-bit types without a sign. -/
def unsigned32 : IntegerRange := ⟨0, 0xffffffff, .uint32⟩

/-- The integers of the 64-bit types without a sign. -/
def unsigned64 : IntegerRange := ⟨0, 0xffffffffffffffff, .uint64⟩

/-- A minus sign is admitted where negative numbers are, so an unsigned type refuses `-0`. -/
def parseInteger (range : IntegerRange) (s : String) : Except DefaultError Value :=
  match IntegerLiteral.ofText? (range.low < 0) s with
  | none => .error (.badText s)
  | some literal =>
    -- The length is looked at before the value, and is no fault of the text.
    if DefaultError.maxDigits < literal.digits.length then
      .error (.tooManyDigits literal.digits.length)
    else if range.low ≤ literal.value ∧ literal.value ≤ range.high then
      .ok (range.tag literal.value)
    else .error (.badText s)

/-- Nothing but the two words in lower case is a boolean. -/
def parseBool (s : String) : Except DefaultError Value :=
  if s = "true" then .ok (.bool true)
  else if s = "false" then .ok (.bool false)
  else .error (.badText s)

/-- Spellings with a meaning of their own. -/
def specialFloats : List (String × Double) :=
  [("inf", .infinite false), ("-inf", .infinite true), ("nan", .nan)]

/-- Only literals are admitted, although numbers are read in free form. -/
def parseFloat (s : String) (tag : Double → Value) : Except DefaultError Value :=
  match specialFloats.lookup s with
  | some x => .ok (tag x)
  | none =>
    -- The free form would take more than a literal, so the literal is asked first.
    if (FloatLiteral.ofText? s).isNone then .error (.badText s)
    else
      match FloatLiteral.ofFreeText? s with
      | some literal => .ok (tag literal.toDouble)
      | none => .error (.badText s)

/-- The value that the text gives a field of a scalar type. Texts stand for themselves, and groups
have no defaults. -/
def parseScalar (s : String) : Scalar → Except DefaultError Value
  | .group => .error .group
  | .bool => parseBool s
  | .double => parseFloat s .double
  | .float => parseFloat s fun x => .float x.toSingle
  | .string => .ok (.string s)
  | .bytes => .ok (.bytes (unescape s))
  | .int32 | .sfixed32 | .sint32 => parseInteger signed32 s
  | .int64 | .sfixed64 | .sint64 => parseInteger signed64 s
  | .uint32 | .fixed32 => parseInteger unsigned32 s
  | .uint64 | .fixed64 => parseInteger unsigned64 s

/-- The value that the text gives a field of type `t`. -/
def parse (s : String) (t : StoredType) : Except DefaultError Value :=
  match t.kind with
  | .scalar k => parseScalar s k
  | _ => .error (.badText s)

end Default

end SchemaRegistry
