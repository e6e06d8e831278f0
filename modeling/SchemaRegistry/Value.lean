import SchemaRegistry.Binary.Double
import SchemaRegistry.Text.Quoted

/-!
# Scalar values

A default value, tagged with the representation it was read for. A single-precision value is held as
the double-precision number that equals it.
-/

namespace SchemaRegistry

/-- A value of one of nine representations. -/
inductive Value where
  | bool (b : Bool)
  | float (x : Double)
  | double (x : Double)
  | int32 (n : Int)
  | int64 (n : Int)
  | uint32 (n : Int)
  | uint64 (n : Int)
  | string (s : String)
  | bytes (bytes : List UInt8)
  deriving DecidableEq

namespace Value

/-- The value as a summary shows it: texts and byte strings are quoted. -/
def text : Value → String
  | bool b => if b then "true" else "false"
  | float x | double x => x.text
  | int32 n | int64 n | uint32 n | uint64 n => toString n
  | string s => Text.quote s
  | bytes bs => Text.quoteBytes bs

/-- Equality as values: of one representation, and equal as numbers where they are numbers. -/
def same : Value → Value → Bool
  | float x, float y => x.sameNumber y
  | double x, double y => x.sameNumber y
  | v, w => v = w

end Value

end SchemaRegistry
